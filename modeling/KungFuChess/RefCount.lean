/-
Reference counts.

A table of resources, each with a count that is kept by hand, and the number of
holders each really has. A resource is opened by its first holder, and a holder
that lets go takes one off the count; whoever brings it to zero closes the
resource. There is also a way of letting go that takes one off and does not look
(`Change.unchecked`).

The counts are always right (`Counted.change`). That an open resource has a holder
(`Occupied`) is kept by every change but an unchecked one that was the last.
-/
import Mathlib.Logic.Function.Basic
import Mathlib.Tactic.SplitIfs

set_option autoImplicit false

namespace RefCount

variable {ι : Type*} [DecidableEq ι] {count count' : ι → Option Int} {held held' : ι → Nat}
  {unchecked : Option Int}

/-- The count of an open resource is the number of its holders, and a closed one has none. -/
def Counted (count : ι → Option Int) (held : ι → Nat) : Prop := ∀ i, (count i).getD 0 = held i

/-- An open resource is counted at least once. -/
def Occupied (count : ι → Option Int) : Prop := ∀ i n, count i = some n → 1 ≤ n

/-- What can happen to the counts and the holders. The last index is the count
that an unchecked release finds. -/
inductive Change (count : ι → Option Int) (held : ι → Nat) :
    (ι → Option Int) → (ι → Nat) → Option Int → Prop
  | keep : Change count held count held none
  | opened (i : ι) (closed : count i = none) :
      Change count held (Function.update count i (some 1)) (Function.update held i (held i + 1))
        none
  | acquire (i : ι) (n : Int) (counts : count i = some n) :
      Change count held (Function.update count i (some (n + 1)))
        (Function.update held i (held i + 1)) none
  | release (i : ι) (n : Int) (counts : count i = some n) (holds : 0 < held i) :
      Change count held (Function.update count i (if n - 1 ≤ 0 then none else some (n - 1)))
        (Function.update held i (held i - 1)) none
  | unchecked (i : ι) (n : Int) (counts : count i = some n) (holds : 0 < held i) :
      Change count held (Function.update count i (some (n - 1)))
        (Function.update held i (held i - 1)) (some n)

omit [DecidableEq ι] in
/-- Where the counts are right, whoever holds a resource holds an open one. -/
theorem Counted.open_of_held {i : ι} (h : Counted count held) (hi : 0 < held i) :
    ∃ n, count i = some n := by
  cases hc : count i with
  | none =>
      have := h i
      rw [hc] at this
      simp only [Option.getD_none] at this
      omega
  | some n => exact ⟨n, rfl⟩

/-- A right count, at one resource. -/
theorem Counted.update (h : Counted count held) (i : ι) (c : Option Int) (k : Nat)
    (hc : c.getD 0 = k) : Counted (Function.update count i c) (Function.update held i k) := by
  intro j
  by_cases hj : j = i
  · rw [hj, Function.update_self, Function.update_self]
    exact hc
  · rw [Function.update_of_ne hj, Function.update_of_ne hj]
    exact h j

/-- **The counts stay right.** -/
theorem Counted.change (h : Counted count held) (hch : Change count held count' held' unchecked) :
    Counted count' held' := by
  cases hch with
  | keep => exact h
  | opened i closed =>
      have hi := h i
      rw [closed] at hi
      refine h.update i _ _ ?_
      simp only [Option.getD_none, Option.getD_some] at hi ⊢
      omega
  | acquire i n counts =>
      have hi := h i
      rw [counts] at hi
      refine h.update i _ _ ?_
      simp only [Option.getD_some] at hi ⊢
      omega
  -- closing at zero: the last holder was the one that let go
  | release i n counts holds =>
      have hi := h i
      rw [counts] at hi
      refine h.update i _ _ ?_
      split_ifs with hlast
      · simp only [Option.getD_some, Option.getD_none] at hi ⊢
        omega
      · simp only [Option.getD_some] at hi ⊢
        omega
  | unchecked i n counts holds =>
      have hi := h i
      rw [counts] at hi
      refine h.update i _ _ ?_
      simp only [Option.getD_some] at hi ⊢
      omega

/-- **No resource is open without a holder**, as long as an unchecked release
leaves somebody behind. -/
theorem Occupied.change (h : Occupied count) (hch : Change count held count' held' unchecked)
    (hleft : ∀ n, unchecked = some n → 2 ≤ n) : Occupied count' := by
  have hupdate : ∀ (i : ι) (c : Option Int), (∀ n, c = some n → 1 ≤ n) →
      Occupied (Function.update count i c) := by
    intro i c hc j n hj
    by_cases hij : j = i
    · rw [hij, Function.update_self] at hj
      exact hc n hj
    · rw [Function.update_of_ne hij] at hj
      exact h j n hj
  cases hch with
  | keep => exact h
  | opened i closed =>
      refine hupdate i _ (fun n hn => ?_)
      obtain rfl := Option.some.inj hn
      omega
  | acquire i n counts =>
      have hn := h i n counts
      refine hupdate i _ (fun n' hn' => ?_)
      obtain rfl := Option.some.inj hn'
      omega
  | release i n counts holds =>
      refine hupdate i _ (fun n' hn' => ?_)
      split_ifs at hn' with hlast
      obtain rfl := Option.some.inj hn'
      omega
  | unchecked i n counts holds =>
      -- the only change that can leave a count of zero behind
      have hn := hleft n rfl
      refine hupdate i _ (fun n' hn' => ?_)
      obtain rfl := Option.some.inj hn'
      omega

end RefCount
