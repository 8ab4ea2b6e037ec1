/-
Followers of a log.

A writer appends entries to a log, numbered from 1. A follower starts from a
snapshot that already contains the first `base` entries and is sent entries one
by one, from some point of the log on. Its queue is then a window of the log
(`Queued`): it grows at the back with each entry sent and shrinks at the front
with each entry looked at. The follower skips what its snapshot covers and
applies the rest (`Followed`).

Nothing here is about a particular program. What is needed of one is only that
the first entry sent is not past the snapshot; then the snapshot and the entries
applied are the log, however the entries arrive.
-/
import Mathlib.Data.List.Basic
import Mathlib.Data.List.Range

set_option autoImplicit false

namespace LogFollower

variable {α : Type*} {log queue applied : List α} {x : α} {n d base revision : ℕ}

/-! ## What is on the way -/

/-- Entries `n + 1` to `d` of the log are in the queue, and nothing else is. -/
structure Queued (log queue : List α) (n d : ℕ) : Prop where
  le : n ≤ d
  le_length : d ≤ log.length
  queue : queue = (log.take d).drop n

theorem Queued.nil (h : d ≤ log.length) : Queued log [] d d :=
  ⟨le_refl d, h, (List.drop_eq_nil_of_le (List.length_take_le d log)).symm⟩

/-- The log may grow meanwhile. -/
theorem Queued.log_append (h : Queued log queue n d) (later : List α) :
    Queued (log ++ later) queue n d where
  le := h.le
  le_length := by
    rw [List.length_append]
    exact Nat.le_add_right_of_le h.le_length
  queue := by rw [List.take_append_of_le_length h.le_length, h.queue]

/-- The next entry is sent. -/
theorem Queued.send (h : Queued log queue n d) (hx : log[d]? = some x) :
    Queued log (queue ++ [x]) n (d + 1) where
  le := Nat.le_succ_of_le h.le
  le_length := by
    obtain ⟨hd, _⟩ := List.getElem?_eq_some_iff.mp hx
    exact hd
  queue := by
    have hn : n ≤ (log.take d).length := by
      rw [List.length_take_of_le h.le_length]
      exact h.le
    rw [List.take_add_one, hx, Option.toList_some, List.drop_append_of_le_length hn, ← h.queue]

/-- The front of the queue is the entry after the last one looked at. -/
theorem Queued.receive (h : Queued log (x :: queue) n d) :
    log[n]? = some x ∧ Queued log queue (n + 1) d := by
  have hlt : n < d := by
    by_contra hge
    have hnil : (log.take d).drop n = [] :=
      List.drop_eq_nil_of_le ((List.length_take_le d log).trans (not_lt.mp hge))
    have := h.queue
    rw [hnil] at this
    cases this
  have hlen : n < (log.take d).length := by
    rw [List.length_take_of_le h.le_length]
    exact hlt
  have hcons := h.queue
  rw [List.drop_eq_getElem_cons hlen] at hcons
  obtain ⟨hx, hqueue⟩ := List.cons.inj hcons
  refine ⟨?_, hlt, h.le_length, hqueue⟩
  rw [hx, List.getElem_take]
  exact List.getElem?_eq_getElem _

/-! ## What has been applied -/

/-- The follower has looked at the first `n` entries and started from a snapshot
of `base`: it has applied the difference. -/
structure Followed (log applied : List α) (base revision n : ℕ) : Prop where
  applied : applied = (log.take n).drop base
  revision : revision = max base n

/-- A snapshot that covers all that was missed is a start. -/
theorem Followed.start (h : n ≤ base) : Followed log [] base base n where
  applied := (List.drop_eq_nil_of_le ((List.length_take_le n log).trans h)).symm
  revision := (max_eq_left h).symm

theorem Followed.log_append (h : Followed log applied base revision n) (hn : n ≤ log.length)
    (later : List α) : Followed (log ++ later) applied base revision n where
  applied := by rw [List.take_append_of_le_length hn, h.applied]
  revision := h.revision

/-- An entry that the snapshot covers is skipped. -/
theorem Followed.skip (h : Followed log applied base revision n) (hle : n + 1 ≤ revision) :
    Followed log applied base revision (n + 1) := by
  have hbase : n + 1 ≤ base := by
    have := h.revision
    omega
  refine ⟨?_, ?_⟩
  · rw [h.applied, List.drop_eq_nil_of_le, List.drop_eq_nil_of_le]
    · exact (List.length_take_le _ _).trans hbase
    · exact (List.length_take_le _ _).trans (Nat.le_of_succ_le hbase)
  · rw [h.revision]
    omega

/-- Any other entry is applied, and it is the next one. -/
theorem Followed.apply (h : Followed log applied base revision n) (hlt : revision < n + 1)
    (hx : log[n]? = some x) : Followed log (applied ++ [x]) base (n + 1) (n + 1) := by
  have hbase : base ≤ n := by
    have := h.revision
    omega
  refine ⟨?_, (max_eq_right (Nat.le_succ_of_le hbase)).symm⟩
  obtain ⟨hn, _⟩ := List.getElem?_eq_some_iff.mp hx
  have hlen : base ≤ (log.take n).length := by
    rw [List.length_take_of_le (Nat.le_of_lt hn)]
    exact hbase
  rw [List.take_add_one, hx, Option.toList_some, List.drop_append_of_le_length hlen, ← h.applied]

/-- What has been applied is a prefix of what the snapshot lacks. -/
theorem Followed.applied_prefix (h : Followed log applied base revision n) :
    applied <+: log.drop base := by
  rw [h.applied, List.drop_take]
  exact List.take_prefix (n - base) (log.drop base)

/-- **Nothing is missed**: once every entry has been looked at, all that the
snapshot lacks has been applied. -/
theorem Followed.applied_all (h : Followed log applied base revision n) (hn : log.length ≤ n) :
    applied = log.drop base := by
  rw [h.applied, List.take_of_length_le hn]

/-! ## Numbered logs -/

section Numbered

variable {number : α → ℕ}

/-- The entries of the log carry the numbers 1, 2, .... -/
def Numbered (number : α → ℕ) (log : List α) : Prop :=
  log.map number = List.range' 1 log.length

theorem Numbered.append_one (h : Numbered number log) (hx : number x = log.length + 1) :
    Numbered number (log ++ [x]) := by
  unfold Numbered at h ⊢
  rw [List.map_append, h, List.length_append, List.length_singleton, List.range'_1_concat,
    List.map_singleton, hx, Nat.add_comm]

theorem Numbered.getElem? (h : Numbered number log) (hx : log[n]? = some x) :
    number x = n + 1 := by
  obtain ⟨hn, _⟩ := List.getElem?_eq_some_iff.mp hx
  have hmap : (log.map number)[n]? = some (number x) := by rw [List.getElem?_map, hx]; rfl
  rw [h, List.getElem?_range' hn] at hmap
  have := Option.some.inj hmap
  omega

/-- In a numbered log, the entries after the first `k` are those numbered past `k`. -/
theorem Numbered.drop_eq_filter (h : Numbered number log) (k : ℕ) :
    log.drop k = log.filter (fun x => k < number x) := by
  have htake : (log.take k).filter (fun x => k < number x) = [] := by
    refine List.filter_eq_nil_iff.mpr (fun x hx => ?_)
    obtain ⟨i, hi, rfl⟩ := List.mem_take_iff_getElem.mp hx
    have hnum := h.getElem? (List.getElem?_eq_getElem (lt_of_lt_of_le hi (min_le_right _ _)))
    simp only [decide_eq_true_eq]
    omega
  have hdrop : (log.drop k).filter (fun x => k < number x) = log.drop k := by
    refine List.filter_eq_self.mpr (fun x hx => ?_)
    obtain ⟨i, hi, rfl⟩ := List.mem_drop_iff_getElem.mp hx
    have hnum := h.getElem? (List.getElem?_eq_getElem (show k + i < log.length by omega))
    exact decide_eq_true (by omega)
  calc log.drop k = (log.take k).filter (fun x => k < number x)
        ++ (log.drop k).filter (fun x => k < number x) := by rw [htake, hdrop, List.nil_append]
    _ = log.filter (fun x => k < number x) := by rw [← List.filter_append, List.take_append_drop]

end Numbered

end LogFollower
