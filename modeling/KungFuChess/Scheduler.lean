/-
The **match scheduler**: `kfc/server/match_scheduler.cpp`.

Each worker drives the matches of its own list, `owners_` says which worker drives a
match, and a worker's load mirrors the length of its list so that `add` can compare
workers without locking them. `α` is the identity of a match (the address that
`owners_` is keyed by), a null pointer is `none`, and a worker is its index.

The invariant is `Sound`: the lists are bins that `owners` assigns the matches to, and
every load is a length. That every live match is driven by exactly one worker is read
off it.
-/
import KungFuChess.Placement
import Mathlib.Algebra.BigOperators.Group.List.Basic
import Mathlib.Data.List.Induction
import Mathlib.Data.List.MinMax

set_option autoImplicit false

namespace KungFuChess

variable {α : Type}

/-- The matches of one thread, how many they are, and whether it has been nudged. -/
structure Worker (α : Type) where
  matches_ : List α := []
  load : Nat := 0
  nudged : Bool := false
deriving DecidableEq, Repr

/-- The workers, and which of them has which match. -/
structure MatchScheduler (α : Type) where
  workers : List (Worker α)
  owners : α → Option Nat := fun _ => none

namespace MatchScheduler

/-- `worker_count` of `0`: what the hardware says, and one if it does not know. -/
def new (worker_count hardware_concurrency : Nat) : MatchScheduler α :=
  let worker_count := if worker_count = 0 then hardware_concurrency else worker_count
  let worker_count := if worker_count = 0 then 1 else worker_count
  { workers := List.replicate worker_count {} }

/-- One turn of the loop of `add`, on the worker chosen so far and what it holds. -/
def weigh (chosen : Option (Nat × Nat)) (candidate : Worker α × Nat) : Option (Nat × Nat) :=
  match chosen with
  | none => some (candidate.2, candidate.1.load)
  | some (worker, fewest) =>
      if candidate.1.load < fewest then some (candidate.2, candidate.1.load)
      else some (worker, fewest)

/-- The loop of `add`. -/
def least_loaded (workers : List (Worker α)) : Option Nat :=
  (workers.zipIdx.foldl weigh none).map Prod.fst

def push (m : α) (w : Worker α) : Worker α :=
  { w with matches_ := w.matches_ ++ [m], load := w.load + 1 }

def nudge (w : Worker α) : Worker α := { w with nudged := true }

variable [DecidableEq α]

/-- To the least loaded worker. -/
def add (s : MatchScheduler α) : Option α → MatchScheduler α
  | none => s
  | some m =>
      match least_loaded s.workers with
      | none => s
      | some chosen =>
          { workers := s.workers.modify chosen (push m)
            owners := Function.update s.owners m (some chosen) }

/-- `std::find` and `erase`, and the load one less if it was found. -/
def erase (m : α) (w : Worker α) : Worker α :=
  if m ∈ w.matches_ then { w with matches_ := w.matches_.erase m, load := w.load - 1 } else w

/-- From the worker that `owners_` names, if it names one. -/
def remove (s : MatchScheduler α) : Option α → MatchScheduler α
  | none => s
  | some m =>
      match s.owners m with
      | none => s
      | some owner =>
          { workers := s.workers.modify owner (erase m)
            owners := Function.update s.owners m none }

/-- The null pointer is no key of `owners_`. -/
def wake (s : MatchScheduler α) (m : Option α) : MatchScheduler α :=
  match m.bind s.owners with
  | none => s
  | some worker => { s with workers := s.workers.modify worker nudge }

/-- The sum of the loads. -/
def match_count (s : MatchScheduler α) : Nat := (s.workers.map Worker.load).sum

/-! ## Calls -/

inductive Op (α : Type) where
  | add (m : Option α)
  | remove (m : Option α)
  | wake (m : Option α)
deriving DecidableEq, Repr

def exec (s : MatchScheduler α) : Op α → MatchScheduler α
  | .add m => s.add m
  | .remove m => s.remove m
  | .wake m => s.wake m

def after (s : MatchScheduler α) (ops : List (Op α)) : MatchScheduler α := ops.foldl exec s

/-- The matches that are added. -/
def added (ops : List (Op α)) : List α :=
  ops.filterMap fun
    | .add m => m
    | _ => none

/-- The matches that are added and not removed later. -/
def live : List (Op α) → List α
  | [] => []
  | .add (some m) :: ops => if .remove (some m) ∈ ops then live ops else m :: live ops
  | _ :: ops => live ops

/-! ## The worker that is chosen -/

omit [DecidableEq α] in
/-- The loop keeps the first of the least loaded. -/
theorem foldl_weigh (candidates : List (Worker α × Nat)) (chosen : Option (Worker α × Nat)) :
    candidates.foldl weigh (chosen.map fun c => (c.2, c.1.load))
      = (candidates.foldl (List.argAux fun b c => b.1.load < c.1.load) chosen).map
          fun c => (c.2, c.1.load) := by
  induction candidates generalizing chosen with
  | nil => rfl
  | cons candidate candidates ih =>
      rw [List.foldl_cons, List.foldl_cons, ← ih]
      congr 1
      -- both keep what they have unless the candidate holds strictly fewer
      cases chosen with
      | none => rfl
      | some c =>
          unfold weigh List.argAux
          rw [Option.map_some]
          dsimp only
          split_ifs
          · rfl
          · rfl

omit [DecidableEq α] in
theorem least_loaded_argmin (workers : List (Worker α)) :
    least_loaded workers = (workers.zipIdx.argmin fun c => c.1.load).map Prod.snd := by
  unfold least_loaded
  rw [show (none : Option (Nat × Nat)) = (none : Option (Worker α × Nat)).map _ from rfl,
    foldl_weigh, Option.map_map]
  rfl

omit [DecidableEq α] in
/-- Some worker is chosen, and none holds fewer matches. -/
theorem least_loaded_minimal {workers : List (Worker α)} (hsome : workers ≠ []) :
    ∃ i w, least_loaded workers = some i ∧ workers[i]? = some w ∧
      ∀ other ∈ workers, w.load ≤ other.load := by
  cases hchosen : workers.zipIdx.argmin fun c => c.1.load with
  | none => exact absurd (List.zipIdx_eq_nil_iff.mp (List.argmin_eq_none.mp hchosen)) hsome
  | some c =>
      obtain ⟨w, i⟩ := c
      refine ⟨i, w, ?_, List.mem_zipIdx_iff_getElem?.mp (List.argmin_mem hchosen), ?_⟩
      · rw [least_loaded_argmin, hchosen]
        rfl
      · intro other hother
        obtain ⟨j, hj, rfl⟩ := List.getElem_of_mem hother
        have hmem : (workers[j], j) ∈ workers.zipIdx :=
          List.mem_zipIdx_iff_getElem?.mpr (List.getElem?_eq_getElem hj)
        exact List.le_of_mem_argmin (f := fun c => c.1.load) hmem hchosen

/-! ## Lists, owners and loads in step -/

/-- Each match is where `owners_` says, once, and the loads are the lengths. -/
structure Sound (s : MatchScheduler α) : Prop where
  placed : Placement.Sound (s.workers.map Worker.matches_) s.owners
  load : ∀ w ∈ s.workers, w.load = w.matches_.length
  some_worker : s.workers ≠ []

variable {s : MatchScheduler α} {m : α} {w : Worker α} {i : Nat}

omit [DecidableEq α] in
theorem Sound.new (worker_count hardware_concurrency : Nat) :
    Sound (α := α) (new worker_count hardware_concurrency) where
  placed := by
    unfold MatchScheduler.new
    rw [List.map_replicate]
    exact Placement.Sound.empty _
  load := by
    intro w hw
    rw [List.eq_of_mem_replicate hw]
    rfl
  some_worker := by
    unfold MatchScheduler.new
    dsimp only
    rw [Ne, List.replicate_eq_nil_iff]
    -- asked for, known from the hardware, or the one that remains
    split_ifs with _ hunknown
    · exact not_false
    · exact hunknown
    · assumption

omit [DecidableEq α] in
/-- A change of one worker that keeps its load in step keeps all loads in step. -/
theorem load_modify {f : Worker α → Worker α} {workers : List (Worker α)}
    (hload : ∀ w ∈ workers, w.load = w.matches_.length)
    (hf : ∀ w ∈ workers, (f w).load = (f w).matches_.length) :
    ∀ w ∈ workers.modify i f, w.load = w.matches_.length := by
  intro w hw
  obtain ⟨j, hj⟩ := List.getElem?_of_mem hw
  rw [List.getElem?_modify, Option.map_eq_map, Option.map_eq_some_iff] at hj
  obtain ⟨old, hold, rfl⟩ := hj
  have hold := List.mem_of_getElem? hold
  split_ifs
  · exact hf old hold
  · exact hload old hold

omit [DecidableEq α] in
theorem modify_ne_nil {f : Worker α → Worker α} {workers : List (Worker α)}
    (hsome : workers ≠ []) : workers.modify i f ≠ [] := by
  rw [← List.length_pos_iff, List.length_modify]
  exact List.length_pos_iff.mpr hsome

omit [DecidableEq α] in
theorem map_modify {f : Worker α → Worker α} {g : List α → List α}
    {workers : List (Worker α)} (hf : ∀ w, (f w).matches_ = g w.matches_) :
    (workers.modify i f).map Worker.matches_ = (workers.map Worker.matches_).modify i g := by
  refine List.ext_getElem? fun j => ?_
  rw [List.getElem?_map, List.getElem?_modify, List.getElem?_modify, List.getElem?_map,
    Option.map_eq_map, Option.map_eq_map, Option.map_map, Option.map_map]
  congr 1
  funext w
  dsimp only [Function.comp_apply]
  split_ifs
  · exact hf w
  · rfl

theorem matches_erase (m : α) (w : Worker α) : (erase m w).matches_ = w.matches_.erase m := by
  unfold erase
  split_ifs with hmem
  · rfl
  · exact (List.erase_of_not_mem hmem).symm

/-- A match that is added goes to the worker that is chosen, which holds no more than any. -/
theorem add_chosen (hsome : s.workers ≠ []) (m : α) :
    ∃ i w, s.workers[i]? = some w ∧ (∀ other ∈ s.workers, w.load ≤ other.load) ∧
      s.add (some m) = ⟨s.workers.modify i (push m), Function.update s.owners m (some i)⟩ := by
  obtain ⟨i, w, hchosen, hw, hleast⟩ := least_loaded_minimal hsome
  refine ⟨i, w, hw, hleast, ?_⟩
  rw [add, hchosen]

theorem remove_unknown (hunknown : s.owners m = none) : s.remove (some m) = s := by
  rw [remove, hunknown]

theorem remove_owned (howner : s.owners m = some i) :
    s.remove (some m) = ⟨s.workers.modify i (erase m), Function.update s.owners m none⟩ := by
  rw [remove, howner]

/-- A new match keeps it. -/
theorem Sound.add (h : Sound s) (hnew : s.owners m = none) : Sound (s.add (some m)) := by
  obtain ⟨i, w, hw, -, hadd⟩ := add_chosen h.some_worker m
  rw [hadd]
  refine ⟨?_, load_modify h.load fun w hw => ?_, modify_ne_nil h.some_worker⟩
  · have hi : i < (s.workers.map Worker.matches_).length := by
      rw [List.length_map]
      exact (List.getElem?_eq_some_iff.mp hw).1
    have hplace := h.placed.place hnew hi
    rwa [← map_modify (f := push m) fun _ => rfl] at hplace
  · show w.load + 1 = (w.matches_ ++ [m]).length
    rw [List.length_append, List.length_singleton, h.load w hw]

/-- So does taking one out. -/
theorem Sound.remove (h : Sound s) (m : α) : Sound (s.remove (some m)) := by
  cases howner : s.owners m with
  | none =>
      rw [remove_unknown howner]
      exact h
  | some owner =>
      rw [remove_owned howner]
      refine ⟨?_, load_modify h.load fun w hw => ?_, modify_ne_nil h.some_worker⟩
      · have hdisplace := h.placed.displace howner
        rwa [← map_modify (f := erase m) (matches_erase m)] at hdisplace
      · -- the load falls with the list, and only where the match was in it
        have hload := h.load w hw
        unfold erase
        split_ifs with hmem
        · rw [List.length_erase_of_mem hmem, ← hload]
        · exact hload

omit [DecidableEq α] in
theorem wake_cases (s : MatchScheduler α) (m : Option α) :
    s.wake m = s ∨ ∃ i, s.wake m = { s with workers := s.workers.modify i nudge } := by
  unfold wake
  cases m.bind s.owners with
  | none => exact .inl rfl
  | some worker => exact .inr ⟨worker, rfl⟩

omit [DecidableEq α] in
/-- So does a nudge. -/
theorem Sound.wake (h : Sound s) (m : Option α) : Sound (s.wake m) := by
  rcases s.wake_cases m with hsame | ⟨i, hwake⟩
  · rw [hsame]
    exact h
  · rw [hwake]
    refine ⟨?_, load_modify h.load h.load, modify_ne_nil h.some_worker⟩
    show Placement.Sound ((s.workers.modify i nudge).map Worker.matches_) s.owners
    -- a nudge touches no list
    rw [map_modify (f := nudge) (g := id) fun _ => rfl, List.modify_id]
    exact h.placed

/-! ## The live matches -/

omit [DecidableEq α] in
theorem added_append (ops : List (Op α)) (op : Op α) :
    added (ops ++ [op]) = added ops ++ added [op] :=
  List.filterMap_append

/-- A match that is live was added. -/
theorem live_sublist (ops : List (Op α)) : (live ops).Sublist (added ops) := by
  induction ops with
  | nil => exact List.Sublist.slnil
  | cons op ops ih =>
      match op with
      | .add (some m) =>
          rw [live]
          split_ifs
          · exact ih.cons m
          · exact ih.cons_cons m
      | .add none => exact ih
      | .remove _ => exact ih
      | .wake _ => exact ih

theorem live_cons_add (m : α) (ops : List (Op α)) :
    live (.add (some m) :: ops)
      = if .remove (some m) ∈ ops then live ops else m :: live ops := by
  rw [live]

/-- What the last call makes of the live matches. -/
def outlive (alive : List α) : Op α → List α
  | .add (some m) => alive ++ [m]
  | .remove (some m) => alive.filter (· ≠ m)
  | _ => alive

theorem outlive_cons {a : α} {op : Op α} (alive : List α) (hne : op ≠ .remove (some a)) :
    outlive (a :: alive) op = a :: outlive alive op := by
  match op with
  | .add (some _) => rfl
  | .add none => rfl
  | .remove none => rfl
  | .wake _ => rfl
  | .remove (some m) =>
      have ham : a ≠ m := fun heq => hne (heq ▸ rfl)
      exact List.filter_cons_of_pos (p := (· ≠ m)) (decide_eq_true ham)

theorem live_append (ops : List (Op α)) (op : Op α) :
    live (ops ++ [op]) = outlive (live ops) op := by
  induction ops with
  | nil =>
      match op with
      | .add (some m) => rfl
      | .add none => rfl
      | .remove (some m) => rfl
      | .remove none => rfl
      | .wake _ => rfl
  | cons first ops ih =>
      match first with
      | .add none => exact ih
      | .remove _ => exact ih
      | .wake _ => exact ih
      | .add (some a) =>
          rw [List.cons_append, live_cons_add, live_cons_add, ih]
          by_cases hearlier : .remove (some a) ∈ ops
          · rw [if_pos hearlier, if_pos (List.mem_append_left _ hearlier)]
          · rw [if_neg hearlier]
            by_cases hlast : op = .remove (some a)
            · -- removed by the last call: it goes, as a match that is filtered out
              subst hlast
              rw [if_pos (List.mem_append_right _ (List.mem_singleton_self _))]
              exact (List.filter_cons_of_neg (by simp)).symm
            · rw [if_neg, outlive_cons _ hlast]
              rw [List.mem_append, List.mem_singleton]
              rintro (h | h)
              · exact hearlier h
              · exact hlast h.symm

theorem mem_outlive {alive : List α} {op : Op α} {a : α} :
    a ∈ outlive alive op ↔ op = .add (some a) ∨ a ∈ alive ∧ op ≠ .remove (some a) := by
  match op with
  | .add (some m) =>
      show a ∈ alive ++ [m] ↔ _
      rw [List.mem_append, List.mem_singleton, or_comm]
      simp [@eq_comm _ a m]
  | .remove (some m) =>
      show a ∈ alive.filter (· ≠ m) ↔ _
      rw [List.mem_filter]
      simp [@eq_comm _ a m]
  | .add none => simp [outlive]
  | .remove none => simp [outlive]
  | .wake _ => simp [outlive]

/-! ## Whole runs -/

/-- The owners are those of the live matches. -/
def Owned (s : MatchScheduler α) (alive : List α) : Prop :=
  ∀ m, m ∈ alive ↔ ∃ i, s.owners m = some i

/-- One call keeps lists, owners and loads in step, and owners of the live matches only. -/
theorem exec_sound {alive : List α} {op : Op α} (h : Sound s) (howned : Owned s alive)
    (hnew : ∀ m, op = .add (some m) → m ∉ alive) :
    Sound (s.exec op) ∧ Owned (s.exec op) (outlive alive op) := by
  match op with
  | .add none => exact ⟨h, howned⟩
  | .remove none => exact ⟨h, howned⟩
  | .wake m =>
      refine ⟨h.wake m, ?_⟩
      rcases s.wake_cases m with hsame | ⟨i, hwake⟩
      · show Owned (s.wake m) alive
        rw [hsame]
        exact howned
      · show Owned (s.wake m) alive
        rw [hwake]
        exact howned
  | .add (some m) =>
      -- a match that is not live has no owner, so it is new to the lists too
      have hnone : s.owners m = none := by
        refine Option.eq_none_iff_forall_ne_some.mpr fun i howner => ?_
        exact hnew m rfl ((howned m).mpr ⟨i, howner⟩)
      refine ⟨h.add hnone, fun a => ?_⟩
      obtain ⟨i, w, -, -, hadd⟩ := add_chosen h.some_worker m
      show _ ↔ ∃ j, (s.add (some m)).owners a = some j
      rw [mem_outlive, hadd]
      show _ ↔ ∃ j, Function.update s.owners m (some i) a = some j
      by_cases ham : a = m
      · subst ham
        exact iff_of_true (.inl rfl) ⟨i, Function.update_self ..⟩
      · rw [Function.update_of_ne ham, ← howned a]
        simp [Ne.symm ham]
  | .remove (some m) =>
      refine ⟨h.remove m, fun a => ?_⟩
      show _ ↔ ∃ j, (s.remove (some m)).owners a = some j
      rw [mem_outlive]
      cases howner : s.owners m with
      | none =>
          rw [remove_unknown howner, howned a]
          by_cases ham : a = m
          · subst ham
            simp [howner]
          · simp [Ne.symm ham]
      | some i =>
          rw [remove_owned howner]
          show _ ↔ ∃ j, Function.update s.owners m none a = some j
          by_cases ham : a = m
          · subst ham
            simp
          · rw [Function.update_of_ne ham, ← howned a]
            simp [Ne.symm ham]

/-- However it was called, with each match added at most once. -/
theorem after_sound (worker_count hardware_concurrency : Nat) {ops : List (Op α)}
    (honce : (added ops).Nodup) :
    Sound ((new worker_count hardware_concurrency).after ops) ∧
      Owned ((new worker_count hardware_concurrency).after ops) (live ops) := by
  induction ops using List.reverseRecOn with
  | nil =>
      refine ⟨Sound.new _ _, fun m => ?_⟩
      exact iff_of_false List.not_mem_nil fun ⟨i, howner⟩ => (Option.some_ne_none i).symm howner
  | append_singleton ops op ih =>
      rw [added_append] at honce
      obtain ⟨hsound, howned⟩ := ih (List.Nodup.of_append_left honce)
      unfold after
      rw [List.foldl_append, live_append]
      refine exec_sound hsound howned fun m hop hlive => ?_
      -- a live match was added, and no match is added twice
      have hbefore : m ∈ added ops := (live_sublist ops).subset hlive
      subst hop
      exact List.disjoint_of_nodup_append honce hbefore (List.mem_singleton_self m)

/-- What is true of a scheduler and the matches that are live. -/
structure Driven (s : MatchScheduler α) (alive : List α) : Prop where
  /-- A live match is in the list of its owner, once, and in no other list. -/
  one_worker : ∀ m ∈ alive, ∃ i w, s.owners m = some i ∧ s.workers[i]? = some w ∧
    w.matches_.count m = 1 ∧
    ∀ j other, s.workers[j]? = some other → m ∈ other.matches_ → j = i
  /-- No other match has an owner or is in a list. -/
  no_other : ∀ m, m ∉ alive → s.owners m = none ∧ ∀ w ∈ s.workers, m ∉ w.matches_
  loads : ∀ w ∈ s.workers, w.load = w.matches_.length
  count : s.match_count = alive.length
  /-- The next match goes to a worker whose load is minimal. -/
  least : ∀ m, ∃ i w, s.workers[i]? = some w ∧ (∀ other ∈ s.workers, w.load ≤ other.load) ∧
    s.add (some m) = ⟨s.workers.modify i (push m), Function.update s.owners m (some i)⟩

/-- **Every live match is driven by exactly one worker.** -/
theorem one_worker_each (worker_count hardware_concurrency : Nat) (ops : List (Op α))
    (honce : (added ops).Nodup) :
    Driven ((new worker_count hardware_concurrency).after ops) (live ops) := by
  obtain ⟨hsound, howned⟩ := after_sound worker_count hardware_concurrency honce
  refine ⟨fun m hlive => ?_, fun m hdead => ?_, hsound.load, ?_, add_chosen hsound.some_worker⟩
  · obtain ⟨i, howner⟩ := (howned m).mp hlive
    obtain ⟨bin, hbin, hcount, hone⟩ := hsound.placed.placed howner
    rw [List.getElem?_map, Option.map_eq_some_iff] at hbin
    obtain ⟨w, hw, rfl⟩ := hbin
    refine ⟨i, w, howner, hw, hcount, fun j other hother hmem => ?_⟩
    have hloads : (((new worker_count hardware_concurrency).after ops).workers.map
        Worker.matches_)[j]? = some other.matches_ := by
      rw [List.getElem?_map, hother]
      rfl
    exact hone hloads hmem
  · have hnone := Option.eq_none_iff_forall_ne_some.mpr fun i howner =>
      hdead ((howned m).mpr ⟨i, howner⟩)
    exact ⟨hnone, fun w hw =>
      hsound.placed.nowhere hnone _ (List.mem_map_of_mem hw)⟩
  · have hsize := hsound.placed.size (honce.sublist (live_sublist ops)) howned
    rw [← hsize, match_count, List.map_map]
    exact congrArg List.sum (List.map_congr_left hsound.load)

/-- Two workers, three matches, one of them removed twice. -/
theorem one_worker_each_three :
    Driven ((new 2 8).after [.add (some 1), .add (some 2), .wake (some 7), .remove (some 1),
        .add (some 3), .remove (some 1), .add none])
      [2, 3] :=
  one_worker_each 2 8 [.add (some 1), .add (some 2), .wake (some 7), .remove (some 1),
    .add (some 3), .remove (some 1), .add none] (by decide)

end MatchScheduler

end KungFuChess
