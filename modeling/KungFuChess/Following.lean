/-
**Following what goes on**, from announcements and one snapshot.

A source keeps a set of activities. It announces each one that starts, and with a
number each batch of them that ends. A follower keeps the set of what it has been told
of. It begins at a snapshot that covers the ends up to a number, and skips those; a
start has no number, and is always taken.

So the follower trusts the announcements that were made before its snapshot to be still
true (`after_snapshot`): an activity announced before, whose end the snapshot covers, stays
with it for good. Where they are true the follower believes in nothing that does not go
on, and it stays so (`Faithful`).

Nothing here is about a particular program.
-/
import Mathlib.Data.Set.Insert
import Mathlib.Order.BooleanAlgebra.Set
import Mathlib.Tactic.Tauto

set_option autoImplicit false

namespace Following

variable {ι : Type*}

/-- An announcement. -/
inductive News (ι : Type*)
  | started (i : ι)
  | ended (ids : Set ι) (number : ℕ)

/-- What a follower believes goes on, and the number of ends that it is past. -/
structure View (ι : Type*) where
  going : Set ι
  covered : ℕ

namespace View

variable {v : View ι} {i : ι} {ids : Set ι} {number : ℕ}

/-- One announcement. An end without a number is never skipped. -/
def hear (v : View ι) : News ι → View ι
  | .started i => { v with going := insert i v.going }
  | .ended ids number =>
      if number ≠ 0 ∧ number ≤ v.covered then v else ⟨v.going \ ids, number⟩

theorem hear_covered (h : number ≠ 0 ∧ number ≤ v.covered) : v.hear (.ended ids number) = v :=
  if_pos h

theorem hear_ended (h : ¬ (number ≠ 0 ∧ number ≤ v.covered)) :
    v.hear (.ended ids number) = ⟨v.going \ ids, number⟩ := if_neg h

/-- An announcement that comes twice says no more than once. -/
theorem hear_hear (v : View ι) (n : News ι) : (v.hear n).hear n = v.hear n := by
  cases n with
  | started i => simp [hear]
  | ended ids number =>
      by_cases h : number ≠ 0 ∧ number ≤ v.covered
      · rw [hear_covered h, hear_covered h]
      · rw [hear_ended h]
        by_cases hzero : number = 0
        · rw [hear_ended (by simp [hzero]), Set.sdiff_sdiff, Set.union_self]
        · exact hear_covered ⟨hzero, Nat.le_refl _⟩

/-- What is believed once the announcements are heard. -/
def after (v : View ι) (news : List (News ι)) : View ι := news.foldl hear v

@[simp] theorem after_nil (v : View ι) : v.after [] = v := rfl

@[simp] theorem after_cons (v : View ι) (n : News ι) (news : List (News ι)) :
    v.after (n :: news) = (v.hear n).after news := rfl

theorem after_append (v : View ι) (news later : List (News ι)) :
    v.after (news ++ later) = (v.after news).after later := List.foldl_append

theorem after_replicate (v : View ι) (n : News ι) (k : ℕ) :
    v.after (List.replicate (k + 1) n) = v.hear n := by
  induction k with
  | zero => rfl
  | succ k ih =>
      rw [List.replicate_succ', after_append, ih]
      exact hear_hear v n

/-- A belief lasts until its end is announced. -/
theorem mem_after {news : List (News ι)}
    (hended : ∀ ids number, .ended ids number ∈ news → i ∉ ids) :
    ∀ {v : View ι}, i ∈ v.going → i ∈ (v.after news).going := by
  induction news with
  | nil => exact fun hi => hi
  | cons n news ih =>
      intro v hi
      rw [after_cons]
      refine ih (fun ids number h => hended ids number (List.mem_cons_of_mem n h)) ?_
      cases n with
      | started j => exact Set.mem_insert_of_mem j hi
      | ended ids number =>
          by_cases h : number ≠ 0 ∧ number ≤ v.covered
          · rwa [hear_covered h]
          · rw [hear_ended h]
            exact ⟨hi, hended ids number List.mem_cons_self⟩

/-- **What a snapshot makes of the announcements it covers**: everything that started. -/
theorem after_snapshot {news : List (News ι)} {count : ℕ}
    (hended : ∀ ids number, .ended ids number ∈ news → number ≠ 0 ∧ number ≤ count) (s : Set ι) :
    (⟨s, count⟩ : View ι).after news = ⟨s ∪ {i | .started i ∈ news}, count⟩ := by
  induction news generalizing s with
  | nil => simp
  | cons n news ih =>
      have hrest : ∀ ids number, .ended ids number ∈ news → number ≠ 0 ∧ number ≤ count :=
        fun ids number h => hended ids number (List.mem_cons_of_mem n h)
      rw [after_cons]
      cases n with
      | started i =>
          have hinsert : insert i s ∪ {j | .started j ∈ news}
              = s ∪ {j | .started j ∈ News.started i :: news} := by
            ext j
            simp
            tauto
          exact (ih hrest _).trans (by rw [hinsert])
      | ended ids number =>
          rw [hear_covered (hended ids number List.mem_cons_self), ih hrest]
          simp

end View

/-- The follower is to believe in nothing that does not go on, once it has heard the
news, and it is not past the source. -/
structure Faithful (v : View ι) (news : List (News ι)) (going : Set ι) (count : ℕ) : Prop where
  subset : (v.after news).going ⊆ going
  covered : (v.after news).covered ≤ count

section Faithful

variable {v : View ι} {news : List (News ι)} {going going' ids : Set ι} {count : ℕ}

theorem Faithful.mono (h : Faithful v news going count) (hsub : going ⊆ going') :
    Faithful v news going' count := ⟨h.subset.trans hsub, h.covered⟩

/-- What is heard now and what is heard later. -/
theorem faithful_append {later : List (News ι)} :
    Faithful v (news ++ later) going count ↔ Faithful (v.after news) later going count := by
  constructor
  · rintro ⟨hsub, hcov⟩
    rw [View.after_append] at hsub hcov
    exact ⟨hsub, hcov⟩
  · rintro ⟨hsub, hcov⟩
    rw [← View.after_append] at hsub hcov
    exact ⟨hsub, hcov⟩

/-- The last announcement may come more than once. -/
theorem Faithful.replicate {n : News ι} (h : Faithful v (news ++ [n]) going count) (k : ℕ) :
    Faithful v (news ++ List.replicate (k + 1) n) going count := by
  have hlast := faithful_append.mp h
  refine faithful_append.mpr ⟨?_, ?_⟩ <;> rw [View.after_replicate]
  · exact hlast.subset
  · exact hlast.covered

/-- The starts of what goes on. -/
theorem Faithful.starts {more : List (News ι)} (h : Faithful v news going count)
    (hmore : ∀ n ∈ more, ∃ i ∈ going, n = .started i) : Faithful v (news ++ more) going count := by
  induction more generalizing news with
  | nil =>
      rw [List.append_nil]
      exact h
  | cons n more ih =>
      obtain ⟨i, hi, rfl⟩ := hmore n List.mem_cons_self
      have hone : Faithful v (news ++ [.started i]) going count := by
        constructor
        · rw [View.after_append]
          exact Set.insert_subset hi h.subset
        · rw [View.after_append]
          exact h.covered
      have hall := ih hone fun n hn => hmore n (List.mem_cons_of_mem _ hn)
      rwa [List.append_assoc] at hall

/-- The next end. -/
theorem Faithful.ended (h : Faithful v news going count) (hsub : going \ ids ⊆ going') :
    Faithful v (news ++ [.ended ids (count + 1)]) going' (count + 1) := by
  -- the follower is not past it, and so takes it
  have hfresh : ¬ (count + 1 ≠ 0 ∧ count + 1 ≤ (v.after news).covered) := by
    have := h.covered
    omega
  have hview : v.after (news ++ [.ended ids (count + 1)])
      = ⟨(v.after news).going \ ids, count + 1⟩ := by
    rw [View.after_append]
    exact View.hear_ended hfresh
  constructor
  · rw [hview]
    exact (Set.sdiff_subset_sdiff_left h.subset).trans hsub
  · rw [hview]

/-- **A snapshot is faithful just when all that was announced before it still goes on.** -/
theorem faithful_snapshot_iff
    (hended : ∀ ids number, .ended ids number ∈ news → number ≠ 0 ∧ number ≤ count) :
    Faithful ⟨∅, count⟩ news going count ↔ ∀ i, .started i ∈ news → i ∈ going := by
  have hview := View.after_snapshot hended ∅
  rw [Set.empty_union] at hview
  constructor
  · intro h i hi
    refine h.subset ?_
    rw [hview]
    exact hi
  · intro h
    refine ⟨?_, ?_⟩ <;> rw [hview]
    exact h

end Faithful

end Following
