/-
**Leases**: names held by tokens that can be moved.

A registry knows which names are taken. Whoever takes a name is given a token; the
token can be moved from one place to another, which leaves a spent token behind,
and it gives its name back when it is destroyed or when another is moved over it.
A spent token gives nothing back.

Whatever is done in whatever order, the names taken are those of the tokens that
are not spent, and no name has two of them (`Exact.step`).
-/
import Mathlib.Data.Finset.Basic

set_option autoImplicit false

namespace Leases

/-- A token: whether it still points to the registry, and its name. -/
structure Token (α : Type*) where
  attached : Bool
  name : α
deriving DecidableEq

/-- The registry, and the tokens, each in its place. -/
structure Store (κ α : Type*) where
  live : Finset α
  tokens : κ → Option (Token α)

variable {κ α : Type*} [DecidableEq κ] [DecidableEq α]

namespace Store

/-- Nothing is taken. -/
def empty : Store κ α := ⟨∅, fun _ => none⟩

/-- The name is held by the token in this place. -/
def Holds (s : Store κ α) (place : κ) (name : α) : Prop := s.tokens place = some ⟨true, name⟩

/-! ## What can be done with a token -/

/-- The names that are left when a token gives its own back. -/
def released (live : Finset α) : Option (Token α) → Finset α
  | some ⟨true, name⟩ => live.erase name
  | _ => live

/-- Takes a name that is free, into a place that is empty. -/
def claim (s : Store κ α) (place : κ) (name : α) : Store κ α × Bool :=
  if name ∈ s.live then (s, false)
  else (⟨insert name s.live, Function.update s.tokens place (some ⟨true, name⟩)⟩, true)

def destroy (s : Store κ α) (place : κ) : Store κ α :=
  ⟨released s.live (s.tokens place), Function.update s.tokens place none⟩

/-- A new token takes over what the source holds; `left` is the name that is left in
the spent one. -/
def move_construct (s : Store κ α) (target source : κ) (left : α) : Store κ α :=
  match s.tokens source with
  | none => s
  | some token => { s with
      tokens := Function.update (Function.update s.tokens target (some token)) source
        (some ⟨false, left⟩) }

/-- The target gives up what it held first. Nothing happens to a token moved to itself. -/
def move_assign (s : Store κ α) (target source : κ) (left : α) : Store κ α :=
  if target = source then s else (s.destroy target).move_construct target source left

/-- Moves what may be a token over what may be one. -/
def assign (s : Store κ α) (target source : κ) (left : α) : Store κ α :=
  if s.tokens source = none then s.destroy target
  else if s.tokens target = none then s.move_construct target source left
  else s.move_assign target source left

end Store

inductive Op (κ α : Type*)
  | claim (place : κ) (name : α)
  | move_construct (target source : κ) (left : α)
  | move_assign (target source : κ) (left : α)
  | destroy (place : κ)
deriving DecidableEq

/-- The same operation, on places of another kind. -/
def Op.map {κ' : Type*} (f : κ' → κ) : Op κ' α → Op κ α
  | .claim place name => .claim (f place) name
  | .move_construct target source left => .move_construct (f target) (f source) left
  | .move_assign target source left => .move_assign (f target) (f source) left
  | .destroy place => .destroy (f place)

/-- One operation. A token is made where there is none, and moved or destroyed where
there is one. -/
def Store.step (s : Store κ α) : Op κ α → Store κ α
  | .claim place name => if s.tokens place = none then (s.claim place name).1 else s
  | .move_construct target source left =>
      if s.tokens target = none then s.move_construct target source left else s
  | .move_assign target source left =>
      if s.tokens target = none ∨ s.tokens source = none then s
      else s.move_assign target source left
  | .destroy place => s.destroy place

/-! ## The invariant -/

/-- Each name taken has one token, and each token that is not spent has its name taken. -/
structure Exact (s : Store κ α) : Prop where
  live : ∀ name, name ∈ s.live ↔ ∃ place, s.Holds place name
  once : ∀ p q name, s.Holds p name → s.Holds q name → p = q

namespace Exact

variable {s : Store κ α}

omit [DecidableEq κ] [DecidableEq α] in
theorem empty : Exact (Store.empty : Store κ α) where
  live name := by simp [Store.empty, Store.Holds]
  once p q name hp := by simp [Store.empty, Store.Holds] at hp

omit [DecidableEq κ] [DecidableEq α] in
/-- Every name taken is held in one place. -/
theorem exists_unique (h : Exact s) (name : α) :
    name ∈ s.live ↔ ∃ place, s.Holds place name ∧ ∀ q, s.Holds q name → q = place := by
  rw [h.live]
  constructor
  · rintro ⟨place, hholds⟩
    exact ⟨place, hholds, fun q hq => h.once q place name hq hholds⟩
  · rintro ⟨place, hholds, -⟩
    exact ⟨place, hholds⟩

theorem claim (h : Exact s) {place : κ} (hempty : s.tokens place = none) (name : α) :
    Exact (s.claim place name).1 := by
  unfold Store.claim
  by_cases htaken : name ∈ s.live
  · rw [if_pos htaken]
    exact h
  · rw [if_neg htaken]
    have hfree : ∀ p, ¬ s.Holds p name := by
      intro p hp
      exact htaken ((h.live name).mpr ⟨p, hp⟩)
    have hholds : ∀ p other, Store.Holds ⟨insert name s.live,
        Function.update s.tokens place (some ⟨true, name⟩)⟩ p other ↔
          (p = place ∧ other = name) ∨ s.Holds p other := by
      intro p other
      unfold Store.Holds
      by_cases hp : p = place
      · subst hp
        simp [hempty, eq_comm]
      · simp [hp]
    constructor
    · intro other
      simp only [Finset.mem_insert, hholds, h.live other]
      constructor
      · rintro (hsame | ⟨p, hp⟩)
        · exact ⟨place, .inl ⟨rfl, hsame⟩⟩
        · exact ⟨p, .inr hp⟩
      · rintro ⟨p, ⟨-, hsame⟩ | hp⟩
        · exact .inl hsame
        · exact .inr ⟨p, hp⟩
    · intro p q other hp hq
      rw [hholds] at hp hq
      rcases hp with ⟨rfl, rfl⟩ | hp
      · rcases hq with ⟨rfl, -⟩ | hq
        · rfl
        · exact absurd hq (hfree q)
      · rcases hq with ⟨rfl, rfl⟩ | hq
        · exact absurd hp (hfree p)
        · exact h.once p q other hp hq

theorem destroy (h : Exact s) (place : κ) : Exact (s.destroy place) := by
  have hholds : ∀ p name, (s.destroy place).Holds p name ↔ p ≠ place ∧ s.Holds p name := by
    intro p name
    unfold Store.Holds Store.destroy
    by_cases hp : p = place
    · simp [hp]
    · simp [hp]
  -- what is given back was held nowhere else
  have hlive : ∀ name, name ∈ (s.destroy place).live ↔
      name ∈ s.live ∧ ¬ s.Holds place name := by
    intro name
    unfold Store.Holds Store.destroy Store.released
    split
    · rename_i own htoken
      rw [htoken, Finset.mem_erase]
      simp [and_comm, eq_comm]
    · rename_i hspent
      constructor
      · intro hname
        exact ⟨hname, fun hown => hspent name hown⟩
      · exact fun hname => hname.1
  constructor
  · intro name
    rw [hlive, h.live]
    constructor
    · rintro ⟨⟨p, hp⟩, hnot⟩
      refine ⟨p, (hholds p name).mpr ⟨?_, hp⟩⟩
      rintro rfl
      exact hnot hp
    · rintro ⟨p, hp⟩
      obtain ⟨hne, hp⟩ := (hholds p name).mp hp
      exact ⟨⟨p, hp⟩, fun hown => hne (h.once p place name hp hown)⟩
  · intro p q name hp hq
    exact h.once p q name ((hholds p name).mp hp).2 ((hholds q name).mp hq).2

omit [DecidableEq α] in
/-- A token moves to a place that is empty. -/
theorem move_construct (h : Exact s) {target source : κ} (hempty : s.tokens target = none)
    (left : α) : Exact (s.move_construct target source left) := by
  unfold Store.move_construct
  cases hsource : s.tokens source with
  | none => exact h
  | some token =>
      have hne : target ≠ source := by
        rintro rfl
        rw [hempty] at hsource
        cases hsource
      -- who held what the source held, holds it at the target
      have hholds : ∀ p name, Store.Holds { s with
          tokens := Function.update (Function.update s.tokens target (some token)) source
            (some ⟨false, left⟩) } p name ↔
          (p = target ∧ s.Holds source name) ∨ (p ≠ source ∧ s.Holds p name) := by
        intro p name
        unfold Store.Holds
        by_cases hp : p = source
        · subst hp
          simp [Ne.symm hne]
        · by_cases ht : p = target
          · subst ht
            simp [hp, hempty, hsource]
          · simp [hp, ht]
      constructor
      · intro name
        simp only [hholds, h.live name]
        constructor
        · rintro ⟨p, hp⟩
          by_cases hsame : p = source
          · exact ⟨target, .inl ⟨rfl, hsame ▸ hp⟩⟩
          · exact ⟨p, .inr ⟨hsame, hp⟩⟩
        · rintro ⟨p, ⟨-, hp⟩ | ⟨-, hp⟩⟩
          · exact ⟨source, hp⟩
          · exact ⟨p, hp⟩
      · intro p q name hp hq
        rw [hholds] at hp hq
        rcases hp with ⟨rfl, hp⟩ | ⟨hpne, hp⟩
        · rcases hq with ⟨rfl, -⟩ | ⟨hqne, hq⟩
          · rfl
          · exact absurd (h.once q source name hq hp) hqne
        · rcases hq with ⟨rfl, hq⟩ | ⟨-, hq⟩
          · exact absurd (h.once p source name hp hq) hpne
          · exact h.once p q name hp hq

theorem move_assign (h : Exact s) (target source : κ) (left : α) :
    Exact (s.move_assign target source left) := by
  unfold Store.move_assign
  by_cases hself : target = source
  · rw [if_pos hself]
    exact h
  · rw [if_neg hself]
    refine (h.destroy target).move_construct ?_ left
    simp [Store.destroy]

theorem assign (h : Exact s) (target source : κ) (left : α) :
    Exact (s.assign target source left) := by
  unfold Store.assign
  split_ifs with hsource htarget
  · exact h.destroy target
  · exact h.move_construct htarget left
  · exact h.move_assign target source left

/-- **The step lemma.** -/
theorem step (h : Exact s) (op : Op κ α) : Exact (s.step op) := by
  cases op with
  | claim place name =>
      rw [Store.step]
      split_ifs with hempty
      · exact h.claim hempty name
      · exact h
  | move_construct target source left =>
      rw [Store.step]
      split_ifs with hempty
      · exact h.move_construct hempty left
      · exact h
  | move_assign target source left =>
      rw [Store.step]
      split_ifs
      · exact h
      · exact h.move_assign target source left
  | destroy place => exact h.destroy place

end Exact

/-! ## What an operation leaves alone -/

namespace Store

variable (s : Store κ α)

/-- The places an operation is about. -/
def about : Op κ α → κ → Prop
  | .claim place _, p => p = place
  | .move_construct target source _, p | .move_assign target source _, p =>
      p = target ∨ p = source
  | .destroy place, p => p = place

theorem tokens_claim {place p : κ} (hne : p ≠ place) (name : α) :
    (s.claim place name).1.tokens p = s.tokens p := by
  unfold claim
  split_ifs
  · rfl
  · exact Function.update_of_ne hne _ _

theorem tokens_destroy {place p : κ} (hne : p ≠ place) :
    (s.destroy place).tokens p = s.tokens p := Function.update_of_ne hne _ _

omit [DecidableEq α] in
theorem tokens_move_construct {target source p : κ} (ht : p ≠ target) (hs : p ≠ source)
    (left : α) : (s.move_construct target source left).tokens p = s.tokens p := by
  unfold move_construct
  split
  · rfl
  · exact (Function.update_of_ne hs _ _).trans (Function.update_of_ne ht _ _)

theorem tokens_assign {target source p : κ} (ht : p ≠ target) (hs : p ≠ source) (left : α) :
    (s.assign target source left).tokens p = s.tokens p := by
  rw [assign, move_assign]
  split_ifs
  · exact s.tokens_destroy ht
  · exact s.tokens_move_construct ht hs left
  · rfl
  · exact ((s.destroy target).tokens_move_construct ht hs left).trans (s.tokens_destroy ht)

/-- **The frame of a step.** -/
theorem tokens_step {op : Op κ α} {p : κ} (h : ¬ about op p) :
    (s.step op).tokens p = s.tokens p := by
  cases op with
  | claim place name =>
      rw [step]
      split_ifs
      · exact s.tokens_claim h name
      · rfl
  | move_construct target source left =>
      obtain ⟨ht, hs⟩ := not_or.mp h
      rw [step]
      split_ifs
      · exact s.tokens_move_construct ht hs left
      · rfl
  | move_assign target source left =>
      obtain ⟨ht, hs⟩ := not_or.mp h
      rw [step, move_assign]
      split_ifs
      · rfl
      · rfl
      · exact ((s.destroy target).tokens_move_construct ht hs left).trans (s.tokens_destroy ht)
  | destroy place => exact s.tokens_destroy h

end Store

end Leases
