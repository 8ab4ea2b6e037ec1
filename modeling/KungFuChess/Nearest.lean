/-
The nearest of some items, among those that are near enough.

`IsNearest` says what an answer is, for a distance and a limit. An answer is kept up
to date by looking at one item after the other (`IsNearest.keep`), so a scan of all
items finds one (`nearest_scan`). In a list that is sorted by a key, with the
distance of the key from a number, two items are enough to look at: the first
whose key is not below the number, and the last whose key is (`nearest_around`).
-/
import Mathlib.Algebra.Order.Group.Abs
import Mathlib.Data.List.TakeWhile
import Mathlib.Data.Set.Insert

set_option autoImplicit false

namespace Nearest

variable {α K : Type*} [LinearOrder K]

/-- What is nearest among some items, within the limit: none if none is. -/
def IsNearest (dist : α → K) (limit : K) (items : Set α) : Option α → Prop
  | none => ∀ x ∈ items, ¬dist x ≤ limit
  | some x => x ∈ items ∧ dist x ≤ limit ∧ ∀ y ∈ items, dist x ≤ dist y

/-- The better of the best so far and another item; of two as good the first stays. -/
def keep (dist : α → K) (limit : K) (best : Option α) (x : α) : Option α :=
  if dist x ≤ limit ∧ best.all (fun b => dist x < dist b) then some x else best

def scan (dist : α → K) (limit : K) (xs : List α) : Option α := xs.foldl (keep dist limit) none

variable {dist : α → K} {limit : K} {items more : Set α} {best other : Option α} {x y : α}

theorem nearest_empty (dist : α → K) (limit : K) : IsNearest dist limit ∅ none :=
  fun _ hx => absurd hx (Set.notMem_empty _)

theorem IsNearest.keep (h : IsNearest dist limit items best) (x : α) :
    IsNearest dist limit (insert x items) (keep dist limit best x) := by
  unfold Nearest.keep
  cases best with
  | none =>
      by_cases hx : dist x ≤ limit
      · rw [if_pos ⟨hx, rfl⟩]
        refine ⟨Set.mem_insert x items, hx, fun y hy => ?_⟩
        rcases hy with rfl | hy
        · exact le_refl _
        · exact hx.trans (not_le.mp (h y hy)).le
      · rw [if_neg fun hboth => hx hboth.1]
        intro y hy
        rcases hy with rfl | hy
        · exact hx
        · exact h y hy
  | some b =>
      obtain ⟨hb, hnear, hleast⟩ := h
      -- an item closer than one within the limit is within it too
      by_cases hx : dist x < dist b
      · rw [if_pos ⟨hx.le.trans hnear, decide_eq_true hx⟩]
        refine ⟨Set.mem_insert x items, hx.le.trans hnear, fun y hy => ?_⟩
        rcases hy with rfl | hy
        · exact le_refl _
        · exact hx.le.trans (hleast y hy)
      · rw [if_neg fun hboth => hx (of_decide_eq_true hboth.2)]
        refine ⟨Set.mem_insert_of_mem x hb, hnear, fun y hy => ?_⟩
        rcases hy with rfl | hy
        · exact not_lt.mp hx
        · exact hleast y hy

/-- The same for an item that may not be there. -/
def look (dist : α → K) (limit : K) (best : Option α) : Option α → Option α
  | none => best
  | some x => keep dist limit best x

theorem IsNearest.look (h : IsNearest dist limit items best) (entry : Option α) :
    IsNearest dist limit (items ∪ {x | entry = some x}) (look dist limit best entry) := by
  cases entry with
  | none =>
      have hsame : items ∪ {x | none = some x} = items := by
        ext x
        simp
      rw [hsame]
      exact h
  | some e =>
      have hsame : items ∪ {x | some e = some x} = insert e items := by
        ext x
        simp [eq_comm]
      rw [hsame]
      exact h.keep e

/-- **A scan of all items finds the nearest.** -/
theorem nearest_scan (dist : α → K) (limit : K) (xs : List α) :
    IsNearest dist limit {x | x ∈ xs} (scan dist limit xs) := by
  -- for any items looked at before, since the fold starts anew behind each
  have hfold : ∀ {items : Set α} {best : Option α}, IsNearest dist limit items best →
      IsNearest dist limit ({x | x ∈ xs} ∪ items) (xs.foldl (Nearest.keep dist limit) best) := by
    induction xs with
    | nil =>
        intro items best h
        simpa using h
    | cons x xs ih =>
        intro items best h
        have hitems : {y | y ∈ x :: xs} ∪ items = {y | y ∈ xs} ∪ insert x items := by
          ext y
          simp only [Set.mem_union, Set.mem_ofPred_eq, List.mem_cons, Set.mem_insert_iff]
          rw [or_assoc, or_left_comm]
        rw [hitems]
        exact ih (h.keep x)
  have h := hfold (nearest_empty dist limit)
  rwa [Set.union_empty] at h

/-- It is enough to look at items that are as near as any. -/
theorem IsNearest.of_subset (h : IsNearest dist limit items best) (hsub : items ⊆ more)
    (hnear : ∀ y ∈ more, ∃ x ∈ items, dist x ≤ dist y) : IsNearest dist limit more best := by
  cases best with
  | none =>
      intro y hy hlimit
      obtain ⟨x, hx, hle⟩ := hnear y hy
      exact h x hx (hle.trans hlimit)
  | some b =>
      obtain ⟨hb, hlimit, hleast⟩ := h
      refine ⟨hsub hb, hlimit, fun y hy => ?_⟩
      obtain ⟨x, hx, hle⟩ := hnear y hy
      exact (hleast x hx).trans hle

/-- There is an answer exactly if some item is near enough. -/
theorem IsNearest.isSome_iff (h : IsNearest dist limit items best) :
    best.isSome ↔ ∃ x ∈ items, dist x ≤ limit := by
  cases best with
  | none => exact iff_of_false Bool.false_ne_true fun ⟨x, hx, hlimit⟩ => h x hx hlimit
  | some b => exact iff_of_true rfl ⟨b, h.1, h.2.1⟩

/-- **Two answers are equally far.** -/
theorem IsNearest.dist_eq (h : IsNearest dist limit items best)
    (hother : IsNearest dist limit items other) : best.map dist = other.map dist := by
  have hboth := h.isSome_iff.trans hother.isSome_iff.symm
  cases best with
  | none =>
      cases other with
      | none => rfl
      | some o => exact absurd (hboth.mpr rfl) Bool.false_ne_true
  | some b =>
      cases other with
      | none => exact absurd (hboth.mp rfl) Bool.false_ne_true
      | some o => exact congrArg some (le_antisymm (h.2.2 o hother.1) (hother.2.2 b h.1))

/-! ## In a sorted list -/

variable {key : α → K} {r : K} {xs : List α}

/-- The first item whose key is not below `r`. -/
def first_from (key : α → K) (r : K) (xs : List α) : Option α := xs.find? fun x => r ≤ key x

/-- The last item before it. -/
def last_below (key : α → K) (r : K) (xs : List α) : Option α :=
  (xs.takeWhile fun x => key x < r).getLast?

theorem first_from_mem (h : first_from key r xs = some x) : x ∈ xs := List.mem_of_find?_eq_some h

theorem last_below_mem (h : last_below key r xs = some x) : x ∈ xs :=
  List.takeWhile_subset _ (List.mem_of_getLast? h)

/-- The items from `r` on begin with the first of them. -/
theorem first_from_le (hsorted : xs.Pairwise fun x y => key x ≤ key y) (hy : y ∈ xs)
    (hr : r ≤ key y) : ∃ x, first_from key r xs = some x ∧ r ≤ key x ∧ key x ≤ key y := by
  have hsome : (first_from key r xs).isSome := by
    unfold first_from
    rw [List.find?_isSome]
    exact ⟨y, hy, decide_eq_true hr⟩
  obtain ⟨x, hx⟩ := Option.isSome_iff_exists.mp hsome
  obtain ⟨hxr, before, after, hsplit, hbefore⟩ := List.find?_eq_some_iff_append.mp hx
  have hxr : r ≤ key x := of_decide_eq_true hxr
  refine ⟨x, hx, hxr, ?_⟩
  rw [hsplit] at hy hsorted
  rcases List.mem_append.mp hy with hy | hy
  · -- nothing before the first is from `r` on
    have hnot := hbefore y hy
    rw [decide_eq_true hr] at hnot
    cases hnot
  · rcases List.mem_cons.mp hy with rfl | hy
    · exact le_refl _
    · exact List.rel_of_pairwise_cons (List.pairwise_append.mp hsorted).2.1 hy

/-- The items below `r` end with the last of them. -/
theorem le_last_below (hsorted : xs.Pairwise fun x y => key x ≤ key y) (hy : y ∈ xs)
    (hr : key y < r) : ∃ x, last_below key r xs = some x ∧ key x < r ∧ key y ≤ key x := by
  unfold last_below
  induction xs with
  | nil => cases hy
  | cons z xs ih =>
      have hrest := List.Pairwise.of_cons hsorted
      -- the list begins below `r`, as it goes on to `y` in order
      have hz : key z < r := by
        rcases List.mem_cons.mp hy with rfl | hy
        · exact hr
        · exact (List.rel_of_pairwise_cons hsorted hy).trans_lt hr
      rw [List.takeWhile_cons_of_pos (by simpa using hz), List.getLast?_cons]
      cases hlast : (xs.takeWhile fun x => key x < r).getLast? with
      | none =>
          refine ⟨z, rfl, hz, ?_⟩
          rcases List.mem_cons.mp hy with rfl | hy
          · exact le_refl _
          · obtain ⟨x, hx, -⟩ := ih hrest hy
            rw [hlast] at hx
            cases hx
      | some b =>
          have hb := List.mem_of_getLast? hlast
          have hbr : key b < r := by simpa using List.mem_takeWhile_imp hb
          refine ⟨b, rfl, hbr, ?_⟩
          rcases List.mem_cons.mp hy with rfl | hy
          · exact List.rel_of_pairwise_cons hsorted (List.takeWhile_subset _ hb)
          · obtain ⟨x, hx, -, hle⟩ := ih hrest hy
            rw [hlast] at hx
            rwa [Option.some.inj hx]

variable [AddCommGroup K] [IsOrderedAddMonoid K]

/-- **The two items around `r` are enough**, where the distance is that of the keys. -/
theorem nearest_around (hsorted : xs.Pairwise fun x y => key x ≤ key y) (limit : K) :
    IsNearest (fun x => |key x - r|) limit {x | x ∈ xs}
      (look (fun x => |key x - r|) limit
        (look (fun x => |key x - r|) limit none (first_from key r xs)) (last_below key r xs)) := by
  have h := (nearest_empty (fun x => |key x - r|) limit).look (first_from key r xs)
  refine (h.look (last_below key r xs)).of_subset ?_ ?_
  · rintro x ((hnot | hx) | hx)
    · exact absurd hnot (Set.notMem_empty x)
    · exact first_from_mem hx
    · exact last_below_mem hx
  · intro y hy
    rcases le_or_gt r (key y) with hr | hr
    · obtain ⟨x, hx, hxr, hle⟩ := first_from_le hsorted hy hr
      refine ⟨x, .inl (.inr hx), ?_⟩
      rw [abs_of_nonneg (sub_nonneg.mpr hxr), abs_of_nonneg (sub_nonneg.mpr hr)]
      exact sub_le_sub_right hle r
    · obtain ⟨x, hx, hxr, hle⟩ := le_last_below hsorted hy hr
      refine ⟨x, .inr hx, ?_⟩
      rw [abs_of_neg (sub_neg.mpr hxr), abs_of_neg (sub_neg.mpr hr)]
      exact neg_le_neg (sub_le_sub_right hle r)

end Nearest
