/-
Stable sorting by a key, and the one fact about it that is not in Mathlib:
sorting commutes with selecting.

`std::stable_sort` with a comparison of keys is `List.insertionSort` on
`key a ≤ key b`: insertion from the right keeps equal keys in their original
order. What a program that processes a sorted batch in two halves needs is that
cutting the batch at a threshold and sorting the two parts separately gives the
same list, ties included. That is `stableSort_split`, and it follows from
`filter_stableSort`.
-/
import Mathlib.Data.List.Sort

set_option autoImplicit false

namespace StableSort

variable {α κ : Type*} [LinearOrder κ] (key : α → κ)

/-- `a` may stand before `b`. -/
abbrev ByKey (a b : α) : Prop := key a ≤ key b

/-- The list in the order of its keys; equal keys stay in list order. -/
def stableSort (l : List α) : List α := l.insertionSort (ByKey key)

@[simp] theorem mem_stableSort {l : List α} {x : α} : x ∈ stableSort key l ↔ x ∈ l :=
  List.mem_insertionSort _

theorem stableSort_perm (l : List α) : (stableSort key l).Perm l :=
  List.perm_insertionSort _ l

instance : Std.Total (ByKey key) := ⟨fun a b => le_total (key a) (key b)⟩

instance : IsTrans α (ByKey key) := ⟨fun _ _ _ h₁ h₂ => le_trans h₁ h₂⟩

theorem stableSort_pairwise (l : List α) :
    (stableSort key l).Pairwise (ByKey key) :=
  List.pairwise_insertionSort _ l

/-- Inserting into a sorted list and then selecting is selecting and then
inserting, when the inserted element is selected. -/
theorem filter_orderedInsert_of_pos {p : α → Bool} {a : α} (ha : p a) :
    ∀ {l : List α}, l.Pairwise (ByKey key) →
      (l.orderedInsert (ByKey key) a).filter p
        = (l.filter p).orderedInsert (ByKey key) a
  | [], _ => by simp [ha]
  | b :: l, hl => by
      by_cases hab : key a ≤ key b
      · rw [List.orderedInsert_cons_of_le (ByKey key) _ hab, List.filter_cons_of_pos ha]
        -- everything selected from `b :: l` is at least `b`, hence at least `a`
        cases hf : (b :: l).filter p with
        | nil => rfl
        | cons c m =>
            have hc : c ∈ b :: l :=
              List.mem_of_mem_filter (hf ▸ List.mem_cons_self : c ∈ (b :: l).filter p)
            have hbc : key b ≤ key c := by
              rcases List.mem_cons.mp hc with rfl | hc
              · exact le_refl _
              · exact List.rel_of_pairwise_cons hl hc
            rw [List.orderedInsert_cons_of_le (ByKey key) _ (le_trans hab hbc)]
      · rw [List.orderedInsert_of_not_le (ByKey key) _ hab]
        by_cases hb : p b
        · rw [List.filter_cons_of_pos hb, List.filter_cons_of_pos hb,
            List.orderedInsert_of_not_le (ByKey key) _ hab,
            filter_orderedInsert_of_pos ha hl.of_cons]
        · rw [List.filter_cons_of_neg hb, List.filter_cons_of_neg hb,
            filter_orderedInsert_of_pos ha hl.of_cons]

/-- Inserting an element that is not selected changes no selection. -/
theorem filter_orderedInsert_of_neg {p : α → Bool} {a : α} (ha : ¬ p a) (l : List α) :
    (l.orderedInsert (ByKey key) a).filter p = l.filter p := by
  induction l with
  | nil => simp [ha]
  | cons b l ih =>
      by_cases hab : key a ≤ key b
      · rw [List.orderedInsert_cons_of_le (ByKey key) _ hab, List.filter_cons_of_neg ha]
      · rw [List.orderedInsert_of_not_le (ByKey key) _ hab]
        simp only [List.filter_cons, ih]

/-- Sorting commutes with selecting. -/
theorem filter_stableSort (p : α → Bool) (l : List α) :
    (stableSort key l).filter p = stableSort key (l.filter p) := by
  induction l with
  | nil => rfl
  | cons a l ih =>
      simp only [stableSort, List.insertionSort_cons] at ih ⊢
      by_cases ha : p a
      · rw [filter_orderedInsert_of_pos key ha (List.pairwise_insertionSort _ l), ih,
          List.filter_cons_of_pos ha, List.insertionSort_cons]
      · rw [filter_orderedInsert_of_neg key ha, ih, List.filter_cons_of_neg ha]

/-- A sorted list is what lies at or below a threshold, followed by the rest. -/
theorem pairwise_split (t : κ) : ∀ {l : List α}, l.Pairwise (ByKey key) →
    l = l.filter (fun a => key a ≤ t) ++ l.filter (fun a => ¬ key a ≤ t)
  | [], _ => rfl
  | a :: l, hl => by
      by_cases ha : key a ≤ t
      · rw [List.filter_cons_of_pos (by simpa using ha),
          List.filter_cons_of_neg (by simpa using ha), List.cons_append]
        exact congrArg (a :: ·) (pairwise_split t hl.of_cons)
      · -- past the threshold nothing is left below it
        have hnone : l.filter (fun a => key a ≤ t) = [] := by
          rw [List.filter_eq_nil_iff]
          intro b hb
          have := List.rel_of_pairwise_cons hl hb
          simpa using lt_of_lt_of_le (not_le.mp ha) this
        have hall : l.filter (fun a => ¬ key a ≤ t) = l := by
          rw [List.filter_eq_self]
          intro b hb
          have := List.rel_of_pairwise_cons hl hb
          simpa using lt_of_lt_of_le (not_le.mp ha) this
        rw [List.filter_cons_of_neg (by simpa using ha),
          List.filter_cons_of_pos (by simpa using ha), hnone, hall, List.nil_append]

/-- **Sorting in two halves.** Cutting a list at a threshold of the key and
sorting the parts separately is sorting the whole. -/
theorem stableSort_split (t : κ) (l : List α) :
    stableSort key l
      = stableSort key (l.filter (fun a => key a ≤ t))
        ++ stableSort key (l.filter (fun a => ¬ key a ≤ t)) := by
  rw [← filter_stableSort, ← filter_stableSort]
  exact pairwise_split key t (stableSort_pairwise key l)

/-- Sorting after a relabelling that keeps the order of the keys. -/
theorem map_stableSort {β : Type*} (key' : β → κ) (f : α → β) (l : List α)
    (hf : ∀ a ∈ l, ∀ b ∈ l, key a ≤ key b ↔ key' (f a) ≤ key' (f b)) :
    (stableSort key l).map f = stableSort key' (l.map f) :=
  List.map_insertionSort _ _ f l hf

end StableSort
