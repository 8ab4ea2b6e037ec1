/-
Fixed-window counters.

A counter remembers when its window began and how many hits came since. The first hit
a whole window later begins the next one. A hit is admitted while the count does not
exceed the limit, and it is counted whether it is admitted or not.

Two windows can meet inside an interval as long as one, so an interval may admit twice
the limit and no more (`admitted_le`). What a counter says once its window is over does
not depend on what it has counted (`hit_of_expired`): it may be forgotten and begun
again.
-/
import Mathlib.Algebra.Order.Group.Defs
import Mathlib.Algebra.Order.Group.Int
import Mathlib.Algebra.Order.Group.Unbundled.Basic
import Mathlib.Data.List.Count
import Mathlib.Data.List.Pairwise
import Mathlib.Order.Defs.LinearOrder
import Mathlib.Tactic.SplitIfs

set_option autoImplicit false

namespace FixedWindow

variable {T : Type*}

/-- What has been counted since the window began. -/
structure Counter (T : Type*) where
  count : Int
  start : T
deriving DecidableEq, Repr

variable [AddCommGroup T] [LinearOrder T]

/-- The window is over. -/
def Counter.Expired (c : Counter T) (length now : T) : Prop := length ≤ now - c.start

instance (c : Counter T) (length now : T) : Decidable (c.Expired length now) :=
  inferInstanceAs (Decidable (_ ≤ _))

/-- One hit: it is the first of the next window, or one more of this. -/
def hit (length : T) (c : Counter T) (now : T) : Counter T :=
  if c.Expired length now then ⟨1, now⟩ else ⟨c.count + 1, c.start⟩

/-- Which hits are admitted. -/
def verdicts (length : T) (limit : Int) : Counter T → List T → List Bool
  | _, [] => []
  | c, now :: times =>
      decide ((hit length c now).count ≤ limit) :: verdicts length limit (hit length c now) times

/-- How many hits of the half-open interval from `a`, as long as a window, are admitted. -/
def admitted (length : T) (limit : Int) (a : T) (c : Counter T) (times : List T) : Nat :=
  (times.zip (verdicts length limit c times)).countP fun h => a ≤ h.1 ∧ h.1 < a + length ∧ h.2

variable {length now a : T} {limit : Int} {c d : Counter T}

theorem admitted_cons (length : T) (limit : Int) (a : T) (c : Counter T) (now : T)
    (times : List T) : admitted length limit a c (now :: times)
      = admitted length limit a (hit length c now) times
        + if a ≤ now ∧ now < a + length ∧ (hit length c now).count ≤ limit then 1 else 0 := by
  unfold admitted
  rw [verdicts, List.zip_cons_cons, List.countP_cons]
  simp only [decide_eq_true_eq]

theorem hit_of_expired (hc : c.Expired length now) (hd : d.Expired length now) :
    hit length c now = hit length d now := by
  rw [hit, hit, if_pos hc, if_pos hd]

theorem count_hit_nonneg (hc : 0 ≤ c.count) : 0 ≤ (hit length c now).count := by
  unfold hit
  split_ifs
  · exact Int.one_nonneg
  · exact Int.le_add_one hc

/-- After the interval nothing counts. -/
theorem admitted_of_late {times : List T} (hlate : ∀ t ∈ times, a + length ≤ t) (c : Counter T) :
    admitted length limit a c times = 0 := by
  induction times generalizing c with
  | nil => rfl
  | cons now times ih =>
      have hnow : a + length ≤ now := hlate now List.mem_cons_self
      rw [admitted_cons, ih fun t ht => hlate t (List.mem_cons_of_mem _ ht), if_neg]
      rintro ⟨-, hin, -⟩
      exact absurd (lt_of_lt_of_le hin hnow) (lt_irrefl _)

theorem late_of_sorted {times : List T} (hsorted : (now :: times).Pairwise (· ≤ ·))
    (hnow : ¬ now < a + length) : ∀ t ∈ now :: times, a + length ≤ t := by
  intro t ht
  rcases List.mem_cons.mp ht with rfl | ht
  · exact not_lt.mp hnow
  · exact (not_lt.mp hnow).trans (List.rel_of_pairwise_cons hsorted ht)

variable [IsOrderedAddMonoid T]

/-- A window that is over stays so. -/
theorem Counter.Expired.mono {later : T} (h : c.Expired length now) (hle : now ≤ later) :
    c.Expired length later :=
  le_trans h (sub_le_sub_right hle _)

/-- Within one window of its beginning a counter only counts. -/
theorem hit_within (hstart : a ≤ c.start) (hnow : now < a + length) :
    hit length c now = ⟨c.count + 1, c.start⟩ := by
  unfold hit
  rw [if_neg]
  intro hexpired
  have hpast : c.start + length ≤ now := by
    rw [add_comm]
    exact le_sub_iff_add_le.mp hexpired
  exact absurd (lt_of_lt_of_le hnow ((add_le_add_left hstart length).trans hpast)) (lt_irrefl _)

/-- A window that began inside the interval lasts beyond it, and admits what is left of its
limit. -/
theorem admitted_of_begun {times : List T} (hsorted : times.Pairwise (· ≤ ·)) :
    ∀ {c : Counter T}, a ≤ c.start →
      admitted length limit a c times ≤ (limit - c.count).toNat := by
  induction times with
  | nil => exact fun _ => Nat.zero_le _
  | cons now times ih =>
      intro c hstart
      by_cases hnow : now < a + length
      · rw [admitted_cons, hit_within hstart hnow]
        have hrest := ih (List.Pairwise.of_cons hsorted) (c := ⟨c.count + 1, c.start⟩) hstart
        dsimp only at hrest ⊢
        split_ifs with hin
        · have := hin.2.2
          omega
        · omega
      · -- past the interval nothing counts any more
        rw [admitted_of_late (late_of_sorted hsorted hnow)]
        exact Nat.zero_le _

/-- From the beginning of the interval on: what is left of one window, and the next. -/
theorem admitted_from {times : List T} (hsorted : times.Pairwise (· ≤ ·))
    (hfrom : ∀ t ∈ times, a ≤ t) : ∀ {c : Counter T},
      admitted length limit a c times ≤ (limit - c.count).toNat + limit.toNat := by
  induction times with
  | nil => exact Nat.zero_le _
  | cons now times ih =>
      intro c
      have hrest := List.Pairwise.of_cons hsorted
      have ha : a ≤ now := hfrom now List.mem_cons_self
      rw [admitted_cons]
      by_cases hexpired : c.Expired length now
      · -- the next window begins with this hit, inside the interval
        have hbegun : admitted length limit a ⟨1, now⟩ times ≤ (limit - 1).toNat :=
          admitted_of_begun hrest ha
        rw [hit, if_pos hexpired]
        dsimp only
        split_ifs with hin
        · have := hin.2.2
          omega
        · omega
      · -- the hit is one of the first window
        have hgoes := ih hrest (fun t ht => hfrom t (List.mem_cons_of_mem _ ht))
          (c := ⟨c.count + 1, c.start⟩)
        rw [hit, if_neg hexpired]
        dsimp only at hgoes ⊢
        split_ifs with hin
        · have := hin.2.2
          omega
        · omega

/-- **Twice the limit.** -/
theorem admitted_le {times : List T} (hsorted : times.Pairwise (· ≤ ·)) :
    ∀ {c : Counter T}, 0 ≤ c.count → admitted length limit a c times ≤ 2 * limit.toNat := by
  induction times with
  | nil => exact fun _ => Nat.zero_le _
  | cons now times ih =>
      intro c hc
      by_cases ha : a ≤ now
      · have hfrom : ∀ t ∈ now :: times, a ≤ t := by
          intro t ht
          rcases List.mem_cons.mp ht with rfl | ht
          · exact ha
          · exact ha.trans (List.rel_of_pairwise_cons hsorted ht)
        have hle : admitted length limit a c (now :: times)
            ≤ (limit - c.count).toNat + limit.toNat := admitted_from hsorted hfrom
        omega
      · -- a hit before the interval only moves the counter on
        rw [admitted_cons, if_neg fun hin => ha hin.1]
        exact ih (List.Pairwise.of_cons hsorted) (count_hit_nonneg hc)

end FixedWindow
