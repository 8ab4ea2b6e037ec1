/-
Persistent lists on a heap of shared nodes.

A node is written once, when it is made, and points to an older node or to none, so that
many lists share one tail. A node lives as long as something refers to it: a root, which
is a list that somebody holds, or another node. When a root is dropped, its nodes are
freed from the head on until one is found that something still refers to (`unlink`).

`Reads h head xs` says that the list at `head` is `xs`. What `unlink` does to the lists
that are still held is nothing (`Sound.unlink`), and what it leaves is referred to
by something (`Sound.referred_unlink`): it frees neither too much nor too little.
-/
import Mathlib.Data.List.Count
import Mathlib.Logic.Function.Basic

set_option autoImplicit false

namespace SharedList

structure Node (α : Type*) where
  value : α
  next : Option Nat
deriving DecidableEq, Repr

structure Heap (α : Type*) where
  node : Nat → Option (Node α) := fun _ => none
  /-- No address from here on has been used. -/
  size : Nat := 0

variable {α : Type*}

/-! ## Operations -/

/-- A new node in front of a list. -/
def cons (h : Heap α) (value : α) (next : Option Nat) : Heap α × Option Nat :=
  ({ node := Function.update h.node h.size (some ⟨value, next⟩), size := h.size + 1 },
    some h.size)

/-- New nodes in front of a list, the last one made first. -/
def prepend (h : Heap α) (before : List α) (after : Option Nat) : Heap α × Option Nat :=
  before.foldr (fun value acc => cons acc.1 value acc.2) (h, after)

def free (h : Heap α) (a : Nat) : Heap α := { h with node := Function.update h.node a none }

/-- How many references there are to a node: of roots and of nodes. -/
def use_count (h : Heap α) (roots : List (Option Nat)) (a : Nat) : Nat :=
  roots.count (some a) + (List.range h.size).countP fun b =>
    (h.node b).any fun n => n.next = some a

/-- Nodes are freed from `current` on, up to one that is referred to. -/
def unlink (roots : List (Option Nat)) : Nat → Heap α → Option Nat → Heap α
  | 0, h, _ => h
  | _ + 1, h, none => h
  | fuel + 1, h, some a =>
      match h.node a with
      | none => h
      | some n =>
          if use_count h roots a = 0 then unlink roots fuel (free h a) n.next else h

/-- The values from a head on; `none` where a pointer dangles. -/
def read (h : Heap α) : Nat → Option Nat → Option (List α)
  | 0, _ => none
  | _ + 1, none => some []
  | fuel + 1, some a => do
      let n ← h.node a
      let rest ← read h fuel n.next
      return n.value :: rest

/-- The values before the first that has the property, and what is behind that one. -/
def search (h : Heap α) (p : α → Bool) : Nat → Option Nat → Option (Option (List α × Option Nat))
  | 0, _ => none
  | _ + 1, none => some none
  | fuel + 1, some a => do
      let n ← h.node a
      if p n.value then return some ([], n.next)
      else
        let found ← search h p fuel n.next
        return found.map fun (before, after) => (n.value :: before, after)

/-! ## The list at a head -/

inductive Reads (h : Heap α) : Option Nat → List α → Prop
  | nil : Reads h none []
  | cons {a : Nat} {n : Node α} {xs : List α} (hnode : h.node a = some n)
      (hrest : Reads h n.next xs) : Reads h (some a) (n.value :: xs)

/-- A heap with the lists that are held on it. -/
structure Sound (h : Heap α) (roots : List (Option Nat)) : Prop where
  below : ∀ {a n}, h.node a = some n → a < h.size
  down : ∀ {a n b}, h.node a = some n → n.next = some b → b < a
  closed : ∀ {a n}, h.node a = some n → ∃ xs, Reads h n.next xs
  rooted : ∀ head ∈ roots, ∃ xs, Reads h head xs

variable {h h' : Heap α} {roots : List (Option Nat)} {head next : Option Nat} {a b : Nat}
  {n : Node α} {value : α} {xs ys : List α} {fuel : Nat}

theorem Reads.unique (hx : Reads h head xs) (hy : Reads h head ys) : xs = ys := by
  induction hx generalizing ys with
  | nil =>
      cases hy
      rfl
  | cons hnode _ ih =>
      cases hy with
      | cons hnode' hrest' =>
          obtain rfl := Option.some.inj (hnode.symm.trans hnode')
          rw [ih hrest']

/-- A list does not change while its nodes do not. -/
theorem Reads.frame (hx : Reads h head xs)
    (hsame : ∀ {a n}, h.node a = some n → h'.node a = some n) : Reads h' head xs := by
  induction hx with
  | nil => exact .nil
  | cons hnode _ ih => exact .cons (hsame hnode) ih

theorem Sound.length_le (hs : Sound h roots) (hx : Reads h (some a) xs) : xs.length ≤ a + 1 := by
  -- addresses go down along the list
  induction xs generalizing a with
  | nil => exact Nat.zero_le _
  | cons x xs ih =>
      cases hx with
      | cons hnode hrest =>
          rw [List.length_cons]
          rename_i n
          cases hnext : n.next with
          | none =>
              rw [hnext] at hrest
              cases hrest
              exact Nat.le_add_left _ _
          | some b =>
              rw [hnext] at hrest
              have hlt := hs.down hnode hnext
              have hle := ih hrest
              omega

/-- The heap is large enough a bound for a walk. -/
theorem Sound.length_lt (hs : Sound h roots) (hx : Reads h head xs) : xs.length < h.size + 1 := by
  cases hx with
  | nil => exact Nat.succ_pos _
  | cons hnode hrest =>
      have hle := hs.length_le (.cons hnode hrest)
      have hlt := hs.below hnode
      omega

theorem read_eq (hx : Reads h head xs) (hfuel : xs.length < fuel) :
    read h fuel head = some xs := by
  induction hx generalizing fuel with
  | nil =>
      obtain ⟨fuel, rfl⟩ := Nat.exists_eq_succ_of_ne_zero (Nat.ne_of_gt hfuel)
      rfl
  | cons hnode _ ih =>
      obtain ⟨fuel, rfl⟩ := Nat.exists_eq_succ_of_ne_zero (Nat.ne_zero_of_lt hfuel)
      simp only [read, hnode, ih (Nat.lt_of_succ_lt_succ hfuel), Option.bind_eq_bind,
        Option.bind_some]
      rfl

/-! ## Making nodes -/

theorem Sound.node_cons (hs : Sound h roots) (value : α) (next : Option Nat)
    (hnode : h.node a = some n) : (cons h value next).1.node a = some n := by
  have hne : a ≠ h.size := Nat.ne_of_lt (hs.below hnode)
  show Function.update _ _ _ _ = _
  rw [Function.update_of_ne hne, hnode]

/-- The new list, and the old ones are as they were. -/
theorem Sound.reads_cons (hs : Sound h roots) (hx : Reads h next xs) :
    Reads (cons h value next).1 (cons h value next).2 (value :: xs) := by
  refine .cons (n := ⟨value, next⟩) ?_ (hx.frame (hs.node_cons value next))
  exact Function.update_self ..

theorem Sound.cons (hs : Sound h roots) (hx : Reads h next xs) (value : α) :
    Sound (cons h value next).1 ((cons h value next).2 :: roots) := by
  have hkeep : ∀ {head ys}, Reads h head ys → Reads (SharedList.cons h value next).1 head ys :=
    fun hy => hy.frame (hs.node_cons value next)
  have hcases : ∀ {a n}, (SharedList.cons h value next).1.node a = some n →
      (a = h.size ∧ n = ⟨value, next⟩) ∨ h.node a = some n := by
    intro a n hnode
    by_cases ha : a = h.size
    · subst ha
      exact .inl ⟨rfl, Option.some.inj (hnode.symm.trans (Function.update_self ..))⟩
    · exact .inr ((Function.update_of_ne ha _ _).symm.trans hnode)
  refine ⟨fun hnode => ?_, fun hnode hnext => ?_, fun hnode => ?_, ?_⟩
  · rcases hcases hnode with ⟨rfl, -⟩ | hold
    · exact Nat.lt_succ_self _
    · exact Nat.lt_succ_of_lt (hs.below hold)
  · rcases hcases hnode with ⟨rfl, rfl⟩ | hold
    · dsimp only at hnext
      subst hnext
      cases hx with
      | cons hold _ => exact hs.below hold
    · exact hs.down hold hnext
  · rcases hcases hnode with ⟨rfl, rfl⟩ | hold
    · exact ⟨xs, hkeep hx⟩
    · obtain ⟨ys, hy⟩ := hs.closed hold
      exact ⟨ys, hkeep hy⟩
  · refine List.forall_mem_cons.mpr ⟨⟨_, hs.reads_cons hx⟩, fun head hhead => ?_⟩
    obtain ⟨ys, hy⟩ := hs.rooted head hhead
    exact ⟨ys, hkeep hy⟩

theorem Sound.mono {fewer : List (Option Nat)} (hs : Sound h roots) (hsub : fewer ⊆ roots) :
    Sound h fewer :=
  ⟨hs.below, hs.down, hs.closed, fun head hhead => hs.rooted head (hsub hhead)⟩

/-- Nodes for all of `before` in front of a list. -/
theorem Sound.prepend (hs : Sound h roots) (hx : Reads h next xs) (before : List α) :
    Sound (prepend h before next).1 roots ∧
      Reads (prepend h before next).1 (prepend h before next).2 (before ++ xs) ∧
      ∀ {a n}, h.node a = some n → (prepend h before next).1.node a = some n := by
  induction before with
  | nil => exact ⟨hs, hx, id⟩
  | cons value before ih =>
      obtain ⟨hsound, hreads, hkeep⟩ := ih
      have hroot := hsound.cons hreads value
      refine ⟨hroot.mono (List.subset_cons_self _ _), hsound.reads_cons hreads, fun hnode => ?_⟩
      exact hsound.node_cons value _ (hkeep hnode)

/-! ## Searching -/

/-- The first value with the property is found, with the list that is behind it. -/
theorem search_found {p : α → Bool} {before rest : List α} {x : α}
    (hx : Reads h head (before ++ x :: rest)) (hbefore : ∀ y ∈ before, p y = false)
    (hp : p x = true) (hfuel : before.length < fuel) :
    ∃ after, search h p fuel head = some (some (before, after)) ∧ Reads h after rest := by
  induction before generalizing head fuel with
  | nil =>
      obtain ⟨fuel, rfl⟩ := Nat.exists_eq_succ_of_ne_zero (Nat.ne_zero_of_lt hfuel)
      cases hx with
      | cons hnode hrest =>
          refine ⟨_, ?_, hrest⟩
          simp only [search, hnode, Option.bind_eq_bind, Option.bind_some, if_pos hp]
          rfl
  | cons y before ih =>
      obtain ⟨fuel, rfl⟩ := Nat.exists_eq_succ_of_ne_zero (Nat.ne_zero_of_lt hfuel)
      obtain ⟨hy, hothers⟩ := List.forall_mem_cons.mp hbefore
      cases hx with
      | cons hnode hrest =>
          obtain ⟨after, hsearch, hafter⟩ :=
            ih hrest hothers (Nat.lt_of_succ_lt_succ hfuel)
          refine ⟨after, ?_, hafter⟩
          simp only [search, hnode, hsearch, Option.bind_eq_bind, Option.bind_some,
            if_neg (Bool.eq_false_iff.mp hy)]
          rfl

theorem search_not_found {p : α → Bool} (hx : Reads h head xs) (hnone : ∀ y ∈ xs, p y = false)
    (hfuel : xs.length < fuel) : search h p fuel head = some none := by
  induction hx generalizing fuel with
  | nil =>
      obtain ⟨fuel, rfl⟩ := Nat.exists_eq_succ_of_ne_zero (Nat.ne_of_gt hfuel)
      rfl
  | cons hnode _ ih =>
      obtain ⟨fuel, rfl⟩ := Nat.exists_eq_succ_of_ne_zero (Nat.ne_zero_of_lt hfuel)
      obtain ⟨hy, hnone⟩ := List.forall_mem_cons.mp hnone
      simp only [search, hnode, ih hnone (Nat.lt_of_succ_lt_succ hfuel), Option.bind_eq_bind,
        Option.bind_some, if_neg (Bool.eq_false_iff.mp hy)]
      rfl

/-! ## Freeing -/

/-- A node that nothing refers to. -/
theorem Sound.use_count_eq_zero (hs : Sound h roots) :
    use_count h roots a = 0 ↔
      some a ∉ roots ∧ ∀ {b n}, h.node b = some n → n.next ≠ some a := by
  rw [use_count, Nat.add_eq_zero_iff, List.count_eq_zero, List.countP_eq_zero]
  refine and_congr_right fun _ => ⟨fun hnone b n hnode hnext => ?_, fun hnone b _ => ?_⟩
  · refine hnone b (List.mem_range.mpr (hs.below hnode)) ?_
    rw [hnode]
    exact decide_eq_true hnext
  · cases hnode : h.node b with
    | none => exact Bool.false_ne_true
    | some n =>
        intro hany
        exact hnone hnode (of_decide_eq_true hany)

theorem node_free : (free h a).node b = some n ↔ b ≠ a ∧ h.node b = some n := by
  show Function.update h.node a none b = some n ↔ _
  by_cases hb : b = a
  · subst hb
    rw [Function.update_self]
    exact iff_of_false (Option.some_ne_none n).symm fun h => h.1 rfl
  · rw [Function.update_of_ne hb, and_iff_right hb]

/-- A list that does not start at a freed node does not reach it either. -/
theorem Reads.free (hx : Reads h head xs) (hhead : head ≠ some a)
    (hnone : ∀ {b n}, h.node b = some n → n.next ≠ some a) :
    Reads (free h a) head xs := by
  induction hx with
  | nil => exact .nil
  | cons hnode _ ih =>
      exact .cons (node_free.mpr ⟨fun heq => hhead (congrArg some heq), hnode⟩) (ih (hnone hnode))

theorem Sound.free (hs : Sound h roots) (hzero : use_count h roots a = 0) :
    Sound (free h a) roots := by
  obtain ⟨hroots, hnone⟩ := hs.use_count_eq_zero.mp hzero
  refine ⟨fun hnode => hs.below (node_free.mp hnode).2,
    fun hnode => hs.down (node_free.mp hnode).2, fun hnode => ?_, fun head hhead => ?_⟩
  · obtain ⟨xs, hx⟩ := hs.closed (node_free.mp hnode).2
    exact ⟨xs, hx.free (hnone (node_free.mp hnode).2) hnone⟩
  · obtain ⟨xs, hx⟩ := hs.rooted head hhead
    exact ⟨xs, hx.free (fun heq => hroots (heq ▸ hhead)) hnone⟩

/-- Why the loop ends. -/
def Ended (h : Heap α) (roots : List (Option Nat)) (fuel : Nat) (current : Option Nat) : Prop :=
  ∀ {a n}, current = some a → h.node a = some n → use_count h roots a ≠ 0 ∨ fuel = 0

/-- One turn of the loop: it ends, or it frees a node that nothing refers to. -/
theorem unlink_cases (h : Heap α) (roots : List (Option Nat)) (fuel : Nat)
    (current : Option Nat) :
    (unlink roots fuel h current = h ∧ Ended h roots fuel current) ∨
      ∃ a n fuel', current = some a ∧ h.node a = some n ∧ use_count h roots a = 0 ∧
        fuel = fuel' + 1 ∧ unlink roots fuel h current = unlink roots fuel' (free h a) n.next := by
  match fuel, current with
  | 0, _ => exact .inl ⟨rfl, fun _ _ => .inr rfl⟩
  | fuel + 1, none => exact .inl ⟨rfl, by rintro _ _ ⟨⟩⟩
  | fuel + 1, some a =>
      rw [unlink]
      cases hnode : h.node a with
      | none =>
          refine .inl ⟨rfl, ?_⟩
          rintro _ _ ⟨⟩ hsome
          rw [hnode] at hsome
          cases hsome
      | some n =>
          dsimp only
          by_cases hzero : use_count h roots a = 0
          · rw [if_pos hzero]
            exact .inr ⟨a, n, fuel, rfl, hnode, hzero, rfl, rfl⟩
          · rw [if_neg hzero]
            refine .inl ⟨rfl, ?_⟩
            rintro _ _ ⟨⟩ -
            exact .inl hzero

/-- **What is held is not freed**: the lists that are held are as they were. -/
theorem Sound.unlink (hs : Sound h roots) (fuel : Nat) (current : Option Nat) :
    Sound (unlink roots fuel h current) roots ∧ ∀ {head xs}, head ∈ roots →
      Reads h head xs → Reads (unlink roots fuel h current) head xs := by
  induction fuel generalizing h current with
  | zero => exact ⟨hs, fun _ hx => hx⟩
  | succ fuel ih =>
      rcases unlink_cases h roots (fuel + 1) current with
        ⟨hend, -⟩ | ⟨a, n, _, -, -, hzero, ⟨⟩, hgo⟩
      · rw [hend]
        exact ⟨hs, fun _ hx => hx⟩
      · rw [hgo]
        obtain ⟨hroots, hnone⟩ := hs.use_count_eq_zero.mp hzero
        obtain ⟨hsound, hkeep⟩ := ih (hs.free hzero) n.next
        refine ⟨hsound, fun hhead hx => hkeep hhead (hx.free ?_ hnone)⟩
        rintro rfl
        exact hroots hhead

/-- Every node is referred to, but for one. -/
def ReferredBut (h : Heap α) (roots : List (Option Nat)) (current : Option Nat) : Prop :=
  ∀ {a n}, h.node a = some n → use_count h roots a ≠ 0 ∨ current = some a

/-- Of a node that is freed only the next one can be left without a reference. -/
theorem ReferredBut.free (hs : Sound h roots) (hbut : ReferredBut h roots (some a))
    (hnode : h.node a = some n) (hzero : use_count h roots a = 0) :
    ReferredBut (free h a) roots n.next := by
  intro b m hb
  obtain ⟨hba, hold⟩ := node_free.mp hb
  by_contra hneither
  obtain ⟨hnow, hnext⟩ := not_or.mp hneither
  obtain ⟨hroots, hnone⟩ := (hs.free hzero).use_count_eq_zero.mp (not_not.mp hnow)
  -- nothing refers to it now, and the freed node did not, so nothing did before
  have hbefore : use_count h roots b = 0 := by
    refine hs.use_count_eq_zero.mpr ⟨hroots, fun {c k} hc hck => ?_⟩
    by_cases hca : c = a
    · subst hca
      obtain rfl := Option.some.inj (hnode.symm.trans hc)
      exact hnext hck
    · exact hnone (node_free.mpr ⟨hca, hc⟩) hck
  rcases hbut hold with hreferred | heq
  · exact hreferred hbefore
  · exact hba (Option.some.inj heq).symm

/-- **What is not held is freed.** -/
theorem Sound.referred_unlink (hs : Sound h roots) {current : Option Nat}
    (hbut : ReferredBut h roots current) (hfuel : ∀ a, current = some a → a < fuel) :
    ReferredBut (SharedList.unlink roots fuel h current) roots none := by
  induction fuel generalizing h current with
  | zero =>
      cases current with
      | none => exact hbut
      | some a => exact absurd (hfuel a rfl) (Nat.not_lt_zero a)
  | succ fuel ih =>
      rcases unlink_cases h roots (fuel + 1) current with
        ⟨hend, hwhy⟩ | ⟨a, n, _, rfl, hnode, hzero, ⟨⟩, hgo⟩
      · rw [hend]
        intro a n hnode
        rcases hbut hnode with hreferred | hcurrent
        · exact .inl hreferred
        · exact .inl ((hwhy hcurrent hnode).resolve_right (Nat.succ_ne_zero fuel))
      · rw [hgo]
        refine ih (hs.free hzero) (hbut.free hs hnode hzero) fun b hnext => ?_
        have hdown := hs.down hnode hnext
        have hbound := hfuel a rfl
        omega

/-! ## What refers to the nodes that are made and to those of a root -/

theorem Sound.referred_iff (hs : Sound h roots) : use_count h roots a ≠ 0 ↔
    some a ∈ roots ∨ ∃ b n, h.node b = some n ∧ n.next = some a := by
  rw [Ne, hs.use_count_eq_zero]
  by_cases hroot : some a ∈ roots
  · exact iff_of_true (fun h => h.1 hroot) (.inl hroot)
  · rw [and_iff_right hroot, or_iff_right hroot]
    constructor
    · intro hsome
      by_contra hnone
      exact hsome fun {b n} hnode hnext => hnone ⟨b, n, hnode, hnext⟩
    · rintro ⟨b, n, hnode, hnext⟩ hnone
      exact hnone hnode hnext

/-- The node in front refers to the one that nothing referred to. -/
theorem ReferredBut.cons (hs : Sound h roots) (hx : Reads h next xs)
    (hbut : ReferredBut h roots next) (value : α) :
    ReferredBut (cons h value next).1 roots (cons h value next).2 := by
  have hs' := (hs.cons hx value).mono (List.subset_cons_self _ _)
  intro b m hb
  by_cases hnew : b = h.size
  · exact .inr (congrArg some hnew.symm)
  · have hold : h.node b = some m := (Function.update_of_ne hnew _ _).symm.trans hb
    refine .inl (hs'.referred_iff.mpr ?_)
    rcases hbut hold with hreferred | hnext
    · refine (hs.referred_iff.mp hreferred).imp id ?_
      rintro ⟨c, k, hc, hck⟩
      exact ⟨c, k, hs.node_cons value next hc, hck⟩
    · exact .inr ⟨h.size, ⟨value, next⟩, Function.update_self .., hnext⟩

theorem ReferredBut.prepend (hs : Sound h roots) (hx : Reads h next xs)
    (hbut : ReferredBut h roots next) (before : List α) :
    ReferredBut (prepend h before next).1 roots (prepend h before next).2 := by
  induction before with
  | nil => exact hbut
  | cons value before ih =>
      obtain ⟨hsound, hreads, -⟩ := hs.prepend hx before
      exact ReferredBut.cons hsound hreads ih value

/-- The one that nothing referred to becomes a root. -/
theorem ReferredBut.root (hs : Sound h roots) (hx : Reads h head xs)
    (hbut : ReferredBut h roots head) : ReferredBut h (head :: roots) none := by
  have hs' : Sound h (head :: roots) :=
    ⟨hs.below, hs.down, hs.closed, List.forall_mem_cons.mpr ⟨⟨xs, hx⟩, hs.rooted⟩⟩
  intro a n hnode
  refine .inl (hs'.referred_iff.mpr ?_)
  rcases hbut hnode with hreferred | heq
  · exact (hs.referred_iff.mp hreferred).imp (List.mem_cons_of_mem _) id
  · exact .inl (heq ▸ List.mem_cons_self)

/-- Without one of the roots its head may be left without a reference. -/
theorem ReferredBut.drop {fewer : List (Option Nat)} (hs : Sound h roots) (hsub : fewer ⊆ roots)
    (hothers : ∀ other ∈ roots, other = head ∨ other ∈ fewer) (hbut : ReferredBut h roots none) :
    ReferredBut h fewer head := by
  intro a n hnode
  have hreferred := (hbut hnode).resolve_right (Option.some_ne_none a).symm
  rcases hs.referred_iff.mp hreferred with hroot | hnode'
  · rcases hothers _ hroot with heq | hkept
    · exact .inr heq.symm
    · exact .inl ((hs.mono hsub).referred_iff.mpr (.inl hkept))
  · exact .inl ((hs.mono hsub).referred_iff.mpr (.inr hnode'))

end SharedList
