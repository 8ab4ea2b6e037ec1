/-
**The scheduler settles.**

Between the parts of its calls the scheduler is out of step with itself: a match is in a
list and not yet in `owners_`, or its list is longer and its load is not. What is missing
is what the calls under way still have to do. `Kept` says so: who is in a list is the
owner's, or some call's (`unowned`), each match has one such call at most (`stake`), and
a load and the calls that have still to raise it make a length and the calls that have
still to lower it. Where no call is under way, `Kept` is `MatchScheduler.Sound`.
-/
import KungFuChess.Driving

set_option autoImplicit false

namespace KungFuChess

open Machine MatchScheduler

variable {α : Type}

/-! ## Where a match is on its way -/

/-- The match that a call brings into a list or takes out of one. -/
def SchedulerCall.concerns : SchedulerCall α → Option α
  | .choosing m _ _ => some m
  | .counting m _ => some m
  | .owning m _ => some m
  | .erasing m _ => some m
  | .discounting _ => none
  | .nudging _ => none

/-- A match that is in a list, but not in `owners_`. -/
def SchedulerCall.unowned : SchedulerCall α → Option (α × Nat)
  | .counting m worker => some (m, worker)
  | .owning m worker => some (m, worker)
  | .erasing m owner => some (m, owner)
  | _ => none

/-- The list is longer, and the load is not yet. -/
def SchedulerCall.raises (i : Nat) : SchedulerCall α → Bool
  | .counting _ worker => worker = i
  | _ => false

/-- The list is shorter, and the load is not yet. -/
def SchedulerCall.lowers (i : Nat) : SchedulerCall α → Bool
  | .discounting owner => owner = i
  | _ => false

theorem raises_counting (m : α) (worker i : Nat) :
    (SchedulerCall.counting m worker).raises i = decide (worker = i) := rfl

theorem lowers_discounting (owner i : Nat) :
    (SchedulerCall.discounting (α := α) owner).lowers i = decide (owner = i) := rfl

/-- A worker has been chosen that there is. -/
def SchedulerCall.Within (n : Nat) : SchedulerCall α → Prop
  | .choosing _ _ (some (worker, _)) => worker < n
  | _ => True

namespace RunningScheduler

variable {s t : RunningScheduler α} {tr os : List (DriverEvent α)} {m : α} {i : Nat}
  {call : SchedulerCall α} {rest left : List (SchedulerCall α)}

/-- A call that goes on is one of the calls. -/
theorem calls_perm (here : s.calls[i]? = some call) :
    s.calls.Perm (call :: s.calls.eraseIdx i) := by
  obtain ⟨hi, rfl⟩ := List.getElem?_eq_some_iff.mp here
  exact (List.getElem_cons_eraseIdx_perm hi).symm

theorem workers_at_worker (s : RunningScheduler α) (i : Nat) (f : Worker α → Worker α) :
    (s.at_worker i f).workers = s.workers.modify i f := by
  unfold workers at_worker
  refine List.ext_getElem? fun j => ?_
  rw [List.getElem?_map, List.getElem?_modify, List.getElem?_modify, List.getElem?_map,
    Option.map_eq_map, Option.map_eq_map, Option.map_map, Option.map_map]
  congr 1
  funext d
  dsimp only [Function.comp_apply]
  split_ifs
  · rfl
  · rfl

@[simp] theorem workers_with_calls (s : RunningScheduler α) (calls : List (SchedulerCall α)) :
    (s.with_calls calls).workers = s.workers := rfl

theorem concerns_of_unowned (h : call.unowned = some (m, i)) : call.concerns = some m := by
  cases call with
  | choosing | discounting | nudging => cases h
  | counting | owning | erasing =>
      obtain ⟨rfl, -⟩ := Prod.mk.inj (Option.some.inj h)
      rfl

theorem unowned_singleton (call : SchedulerCall α) (m : α) (i : Nat) :
    (∃ other ∈ [call], other.unowned = some (m, i)) ↔ call.unowned = some (m, i) := by
  simp only [List.mem_singleton, exists_eq_left]

theorem unowned_append (left : List (SchedulerCall α)) (m : α) (i : Nat) :
    (∃ other ∈ rest ++ left, other.unowned = some (m, i)) ↔
      (∃ other ∈ rest, other.unowned = some (m, i)) ∨
        ∃ other ∈ left, other.unowned = some (m, i) := by
  simp only [List.mem_append, or_and_right, exists_or]

variable [DecidableEq α]

def note_home (home : α → Option Nat) : DriverEvent α → α → Option Nat
  | .held m worker => Function.update home m (some worker)
  | .let_go m _ => Function.update home m none
  | _ => home

/-- In whose list each match is. -/
def home (tr : List (DriverEvent α)) : α → Option Nat := tr.foldl note_home fun _ => none

theorem home_append (tr os : List (DriverEvent α)) :
    home (tr ++ os) = os.foldl note_home (home tr) := List.foldl_append ..

/-- How many calls have the match, `owners_` counted as one. -/
def stake (s : RunningScheduler α) (m : α) : Nat :=
  s.calls.countP (fun call => call.concerns = some m) + (s.owners m).toList.length

/-- Lists, loads, `owners_` and the calls under way in step. -/
structure Kept (s : RunningScheduler α) (tr : List (DriverEvent α)) : Prop where
  once : ∀ m, tr.count (.added m) ≤ 1
  stake : ∀ m, s.stake m ≤ tr.count (.added m)
  home : ∀ m i, home tr m = some i ↔
    s.owners m = some i ∨ ∃ call ∈ s.calls, call.unowned = some (m, i)
  placed : Placement.Sound (s.workers.map Worker.matches_) (RunningScheduler.home tr)
  within : ∀ call ∈ s.calls, call.Within s.drivers.length
  manned : 0 < s.drivers.length
  load : ∀ i w, s.workers[i]? = some w → w.load + s.calls.countP (·.raises i)
    = w.matches_.length + s.calls.countP (·.lowers i)

theorem kept_new (worker_count hardware_concurrency : Nat) (started_at : Nat → Int) :
    Kept (α := α) (new worker_count hardware_concurrency started_at) [] := by
  have hworkers := workers_new (α := α) worker_count hardware_concurrency started_at
  have hsound := MatchScheduler.Sound.new (α := α) worker_count hardware_concurrency
  refine ⟨fun m => Nat.zero_le _, fun m => Nat.le_refl 0, fun m i => ?_, ?_, fun call h => ?_, ?_,
    fun i w hw => ?_⟩
  · exact iff_of_false nofun (by rintro (h | ⟨call, h, -⟩) <;> cases h)
  · rw [hworkers]
    exact hsound.placed
  · cases h
  · have hsome := List.length_pos_iff.mpr hsound.some_worker
    rwa [← hworkers, workers, List.length_map] at hsome
  · rw [hworkers] at hw
    exact congrArg (· + 0) (hsound.load w (List.mem_of_getElem? hw))

/-- The only call about a match, if there is one. -/
theorem Kept.alone (h : Kept s tr) (hperm : s.calls.Perm (call :: rest))
    (hcall : call.concerns = some m) :
    s.owners m = none ∧ ∀ other ∈ rest, other.concerns ≠ some m := by
  have hstake := (h.stake m).trans (h.once m)
  unfold RunningScheduler.stake at hstake
  rw [hperm.countP_eq, List.countP_cons_of_pos (by simpa using hcall)] at hstake
  constructor
  · cases howner : s.owners m with
    | none => rfl
    | some owner =>
        rw [howner] at hstake
        simp at hstake
  · intro other hother hconcerns
    have : 0 < rest.countP fun call => call.concerns = some m :=
      List.countP_pos_iff.mpr ⟨other, hother, by simpa using hconcerns⟩
    omega

/-- No other call has the match in a list. -/
theorem Kept.only (h : Kept s tr) (hperm : s.calls.Perm (call :: rest))
    (hcall : call.concerns = some m) (i : Nat) : ¬ ∃ other ∈ rest, other.unowned = some (m, i) := by
  rintro ⟨other, hother, hunowned⟩
  exact (h.alone hperm hcall).2 other hother (concerns_of_unowned hunowned)

theorem Kept.home_iff (h : Kept s tr) (hperm : s.calls.Perm (call :: rest)) (m : α) (i : Nat) :
    RunningScheduler.home tr m = some i ↔ s.owners m = some i ∨ call.unowned = some (m, i) ∨
      ∃ other ∈ rest, other.unowned = some (m, i) := by
  rw [h.home]
  refine or_congr Iff.rfl ?_
  simp only [hperm.mem_iff, List.mem_cons, exists_eq_or_imp]

/-- A call has done its next part. -/
theorem Kept.goes (h : Kept s tr) (hperm : s.calls.Perm (call :: rest))
    (hcalls : t.calls = rest ++ left) (hadded : ∀ m, .added m ∉ os)
    (hstake : ∀ m, left.countP (fun c => c.concerns = some m) + (t.owners m).toList.length
      ≤ (if call.concerns = some m then 1 else 0) + (s.owners m).toList.length)
    (hhome : ∀ m i, RunningScheduler.home (tr ++ os) m = some i ↔ t.owners m = some i ∨
      (∃ other ∈ rest, other.unowned = some (m, i)) ∨ ∃ other ∈ left, other.unowned = some (m, i))
    (hplaced : Placement.Sound (t.workers.map Worker.matches_) (RunningScheduler.home (tr ++ os)))
    (hlength : t.drivers.length = s.drivers.length)
    (hwithin : ∀ c ∈ left, c.Within s.drivers.length)
    (hload : ∀ i w, t.workers[i]? = some w →
      w.load + (rest.countP (·.raises i) + left.countP (·.raises i))
        = w.matches_.length + (rest.countP (·.lowers i) + left.countP (·.lowers i))) :
    Kept t (tr ++ os) := by
  have hcount : ∀ m, (tr ++ os).count (.added m) = tr.count (.added m) := fun m => by
    rw [List.count_append, List.count_eq_zero.mpr (hadded m), Nat.add_zero]
  refine ⟨fun m => ?_, fun m => ?_, fun m i => ?_, hplaced, fun c hc => ?_, ?_, fun i w hw => ?_⟩
  · rw [hcount]
    exact h.once m
  · rw [hcount]
    have hbefore := h.stake m
    have hleft := hstake m
    unfold RunningScheduler.stake at hbefore ⊢
    rw [hperm.countP_eq, List.countP_cons] at hbefore
    rw [hcalls, List.countP_append]
    simp only [decide_eq_true_eq] at hbefore
    omega
  · rw [hhome, hcalls, unowned_append]
  · rw [hlength]
    rcases List.mem_append.mp (hcalls ▸ hc) with hrest | hnew
    · exact h.within c (hperm.mem_iff.mpr (List.mem_cons_of_mem _ hrest))
    · exact hwithin c hnew
  · rw [hlength]
    exact h.manned
  · rw [hcalls, List.countP_append, List.countP_append]
    exact hload i w hw

theorem Kept.load_rest (h : Kept s tr) (hperm : s.calls.Perm (call :: rest)) {i : Nat}
    {w : Worker α} (hw : s.workers[i]? = some w) :
    w.load + (rest.countP (·.raises i) + if call.raises i then 1 else 0)
      = w.matches_.length + (rest.countP (·.lowers i) + if call.lowers i then 1 else 0) := by
  have hload := h.load i w hw
  rwa [hperm.countP_eq, hperm.countP_eq, List.countP_cons, List.countP_cons] at hload

/-- A part of a call that touches no worker. -/
theorem Kept.aside (h : Kept s tr) (hperm : s.calls.Perm (call :: rest))
    (hunowned : ∀ m i, call.unowned = some (m, i) ↔ ∃ other ∈ left, other.unowned = some (m, i))
    (hconcerns : ∀ m, left.countP (fun c => c.concerns = some m)
      ≤ if call.concerns = some m then 1 else 0)
    (hwithin : ∀ c ∈ left, c.Within s.drivers.length)
    (hraises : ∀ i, left.countP (·.raises i) = if call.raises i then 1 else 0)
    (hlowers : ∀ i, left.countP (·.lowers i) = if call.lowers i then 1 else 0) :
    Kept (s.with_calls (rest ++ left)) (tr ++ []) := by
  refine h.goes hperm rfl (fun m => List.not_mem_nil) (fun m => ?_) (fun m i => ?_) ?_ rfl hwithin
    (fun i w hw => ?_)
  · exact Nat.add_le_add_right (hconcerns m) _
  · rw [List.append_nil, h.home_iff hperm, hunowned]
    exact or_congr Iff.rfl or_comm
  · rw [List.append_nil]
    exact h.placed
  · rw [hraises, hlowers]
    exact h.load_rest hperm hw

/-- A part of a call that changes one load. -/
theorem Kept.weighs (h : Kept s tr) (hperm : s.calls.Perm (call :: rest)) {worker : Nat}
    {f : Worker α → Worker α} (hlists : ∀ w, (f w).matches_ = w.matches_)
    (hunowned : ∀ m i, call.unowned = some (m, i) ↔ ∃ other ∈ left, other.unowned = some (m, i))
    (hconcerns : ∀ m, left.countP (fun c => c.concerns = some m)
      ≤ if call.concerns = some m then 1 else 0)
    (hwithin : ∀ c ∈ left, c.Within s.drivers.length)
    (hload : ∀ i w, s.workers[i]? = some w →
      (if worker = i then f w else w).load + (rest.countP (·.raises i) + left.countP (·.raises i))
        = w.matches_.length + (rest.countP (·.lowers i) + left.countP (·.lowers i))) :
    Kept ((s.at_worker worker f).with_calls (rest ++ left)) (tr ++ []) := by
  have hworkers : ((s.at_worker worker f).with_calls (rest ++ left)).workers
      = s.workers.modify worker f := s.workers_at_worker worker f
  refine h.goes hperm rfl (fun m => List.not_mem_nil) (fun m => ?_) (fun m i => ?_) ?_
    (List.length_modify ..) hwithin (fun i w hw => ?_)
  · exact Nat.add_le_add_right (hconcerns m) _
  · rw [List.append_nil, h.home_iff hperm, hunowned]
    exact or_congr Iff.rfl or_comm
  · rw [hworkers, map_modify (f := f) (g := id) hlists, List.modify_id, List.append_nil]
    exact h.placed
  · rw [hworkers, List.getElem?_modify, Option.map_eq_map, Option.map_eq_some_iff] at hw
    obtain ⟨w, hold, rfl⟩ := hw
    have hload := hload i w hold
    split_ifs at hload ⊢ with hi
    · rw [hlists]
      exact hload
    · exact hload

/-- A match is put into the list of the worker chosen. -/
theorem Kept.holds (h : Kept s tr) {next worker fewest : Nat}
    (hperm : s.calls.Perm (.choosing m next (some (worker, fewest)) :: rest)) :
    Kept ((s.at_worker worker fun w => { w with matches_ := w.matches_ ++ [m] }).with_calls
      (rest ++ [.counting m worker])) (tr ++ [.held m worker]) := by
  obtain ⟨hnone, -⟩ := h.alone hperm rfl
  have honly := h.only hperm rfl
  have hworker : worker < s.drivers.length := h.within _ (hperm.mem_iff.mpr List.mem_cons_self)
  have hhome : RunningScheduler.home (tr ++ [.held m worker])
      = Function.update (RunningScheduler.home tr) m (some worker) := home_append _ _
  have hnew : RunningScheduler.home tr m = none := by
    refine Option.eq_none_iff_forall_ne_some.mpr fun i hi => ?_
    rcases (h.home_iff hperm m i).mp hi with howner | hcall | hother
    · rw [hnone] at howner
      cases howner
    · cases hcall
    · exact honly i hother
  refine h.goes hperm rfl (fun m' => by simp) (fun m' => ?_) (fun m' i => ?_) ?_
    (List.length_modify ..) (fun c hc => ?_) (fun i w hw => ?_)
  · rw [List.countP_singleton]
    exact Nat.add_le_add_right (by simp [SchedulerCall.concerns]) _
  · rw [hhome, unowned_singleton]
    show _ ↔ s.owners m' = some i ∨ _ ∨ some (m, worker) = some (m', i)
    by_cases hm : m' = m
    · subst hm
      rw [Function.update_self, hnone]
      simp [honly i]
    · rw [Function.update_of_ne hm, h.home_iff hperm]
      simp [SchedulerCall.unowned, Ne.symm hm]
  · rw [hhome]
    have hi : worker < (s.workers.map Worker.matches_).length := by
      rw [List.length_map, workers, List.length_map]
      exact hworker
    have hplace := h.placed.place hnew hi
    rw [← map_modify (f := fun w : Worker α => { w with matches_ := w.matches_ ++ [m] })
      fun _ => rfl] at hplace
    rw [workers_with_calls, workers_at_worker]
    exact hplace
  · rw [List.mem_singleton.mp hc]
    trivial
  · rw [workers_with_calls, workers_at_worker, List.getElem?_modify, Option.map_eq_map,
      Option.map_eq_some_iff] at hw
    obtain ⟨w, hold, rfl⟩ := hw
    have hload := h.load_rest hperm hold
    simp only [SchedulerCall.raises, SchedulerCall.lowers, Bool.false_eq_true, if_false] at hload
    rw [List.countP_singleton, List.countP_singleton]
    simp only [SchedulerCall.raises, SchedulerCall.lowers, Bool.false_eq_true, if_false,
      decide_eq_true_eq]
    split_ifs with hi
    · show w.load + _ = (w.matches_ ++ [m]).length + _
      rw [List.length_append, List.length_singleton]
      omega
    · exact hload

/-- The match that was put into a list is recorded in `owners_`. -/
theorem Kept.owns (h : Kept s tr) {worker : Nat} (hperm : s.calls.Perm (.owning m worker :: rest)) :
    Kept ({ s with owners := Function.update s.owners m (some worker) }.with_calls (rest ++ []))
      (tr ++ []) := by
  obtain ⟨hnone, -⟩ := h.alone hperm rfl
  have honly := h.only hperm rfl
  refine h.goes hperm rfl (fun m' => List.not_mem_nil) (fun m' => ?_) (fun m' i => ?_) ?_ rfl
    (fun c hc => absurd hc List.not_mem_nil) (fun i w hw => ?_)
  · rw [List.countP_nil, Nat.zero_add]
    show (Function.update s.owners m (some worker) m').toList.length ≤ _
    by_cases hm : m' = m
    · subst hm
      rw [Function.update_self, hnone]
      simp [SchedulerCall.concerns]
    · rw [Function.update_of_ne hm]
      exact Nat.le_add_left _ _
  · rw [List.append_nil, h.home_iff hperm]
    show _ ∨ some (m, worker) = some (m', i) ∨ _ ↔ Function.update s.owners m _ m' = _ ∨ _
    by_cases hm : m' = m
    · subst hm
      rw [Function.update_self, hnone]
      simp [honly i]
    · rw [Function.update_of_ne hm]
      simp [Ne.symm hm]
  · rw [List.append_nil tr]
    exact h.placed
  · exact h.load_rest hperm hw

/-- A match that is no longer in `owners_` is taken out of the list. -/
theorem Kept.erases (h : Kept s tr) {owner : Nat}
    (hperm : s.calls.Perm (.erasing m owner :: rest)) :
    (s.drivers[owner]?.any fun d => m ∈ d.worker.matches_) = true ∧
      Kept ((s.at_worker owner fun w => { w with matches_ := w.matches_.erase m }).with_calls
        (rest ++ [.discounting owner])) (tr ++ [.let_go m owner]) := by
  obtain ⟨hnone, -⟩ := h.alone hperm rfl
  have honly := h.only hperm rfl
  have hhome : RunningScheduler.home tr m = some owner :=
    (h.home_iff hperm m owner).mpr (.inr (.inl rfl))
  have hgone : RunningScheduler.home (tr ++ [.let_go m owner])
      = Function.update (RunningScheduler.home tr) m none := home_append _ _
  have hi : owner < s.workers.length := by
    have hinside := h.placed.inside hhome
    rwa [List.length_map] at hinside
  have hthere : ∀ w, s.workers[owner]? = some w → m ∈ w.matches_ := fun w hw =>
    (h.placed.held (by rw [List.getElem?_map, hw]; rfl) m).mpr hhome
  refine ⟨?_, h.goes hperm rfl (fun m' => by simp) (fun m' => ?_) (fun m' i => ?_) ?_
    (List.length_modify ..) (fun c hc => ?_) (fun i w hw => ?_)⟩
  · have hdriver : owner < s.drivers.length := by rwa [workers, List.length_map] at hi
    rw [List.getElem?_eq_getElem hdriver, Option.any_some, decide_eq_true_eq]
    refine hthere _ ?_
    rw [workers, List.getElem?_map, List.getElem?_eq_getElem hdriver]
    rfl
  · rw [List.countP_singleton]
    exact Nat.add_le_add_right (by simp [SchedulerCall.concerns]) _
  · rw [hgone, unowned_singleton]
    show _ ↔ s.owners m' = some i ∨ _ ∨ none = some (m', i)
    by_cases hm : m' = m
    · subst hm
      rw [Function.update_self, hnone]
      simp [honly i]
    · rw [Function.update_of_ne hm, h.home_iff hperm]
      simp [SchedulerCall.unowned, Ne.symm hm]
  · rw [hgone]
    have hdisplace := h.placed.displace hhome
    rw [← map_modify (f := fun w : Worker α => { w with matches_ := w.matches_.erase m })
      fun _ => rfl] at hdisplace
    rw [workers_with_calls, workers_at_worker]
    exact hdisplace
  · rw [List.mem_singleton.mp hc]
    trivial
  · rw [workers_with_calls, workers_at_worker, List.getElem?_modify, Option.map_eq_map,
      Option.map_eq_some_iff] at hw
    obtain ⟨w, hold, rfl⟩ := hw
    have hload := h.load_rest hperm hold
    simp only [SchedulerCall.raises, SchedulerCall.lowers, Bool.false_eq_true, if_false] at hload
    rw [List.countP_singleton, List.countP_singleton]
    simp only [SchedulerCall.raises, SchedulerCall.lowers, Bool.false_eq_true, if_false,
      decide_eq_true_eq]
    split_ifs with hi
    · have hmem := hthere w (hi ▸ hold)
      have := List.length_pos_of_mem hmem
      show w.load + _ = (w.matches_.erase m).length + _
      rw [List.length_erase_of_mem hmem]
      omega
    · exact hload

/-- The matches whose loads are not counted yet are in the list. -/
theorem Kept.raises_le (h : Kept s tr) {w : Worker α} (hw : s.workers[i]? = some w) :
    s.calls.countP (·.raises i) ≤ w.matches_.length := by
  -- their names
  have hnames : s.calls.countP (·.raises i)
      = (s.calls.filterMap fun c => if c.raises i then c.concerns else none).length := by
    induction s.calls with
    | nil => rfl
    | cons c calls ih =>
        rw [List.countP_cons, List.filterMap_cons, ih]
        cases hraises : c.raises i with
        | false => rfl
        | true =>
            cases c with
            | counting m worker => rfl
            | _ => cases hraises
  have hmem : ∀ m, m ∈ s.calls.filterMap (fun c => if c.raises i then c.concerns else none) →
      m ∈ w.matches_ := by
    intro m hm
    obtain ⟨c, hc, hsome⟩ := List.mem_filterMap.mp hm
    split_ifs at hsome with hraises
    refine (h.placed.held (by rw [List.getElem?_map, hw]; rfl) m).mpr
      ((h.home m i).mpr (.inr ⟨c, hc, ?_⟩))
    cases c with
    | counting m' worker =>
        obtain rfl := Option.some.inj hsome
        obtain rfl := of_decide_eq_true hraises
        rfl
    | _ => cases hraises
  have hnodup : (s.calls.filterMap fun c => if c.raises i then c.concerns else none).Nodup := by
    refine List.nodup_iff_count_le_one.mpr fun m => ?_
    refine le_trans ?_ ((h.stake m).trans (h.once m))
    unfold RunningScheduler.stake
    rw [List.count, List.countP_filterMap]
    refine le_trans (List.countP_mono_left fun c _ hc => ?_) (Nat.le_add_right _ _)
    cases hraises : c.raises i with
    | false => simp [hraises] at hc
    | true =>
        cases hconcerns : c.concerns with
        | none => simp [hconcerns] at hc
        | some m' => simpa [hraises, hconcerns] using hc
  rw [hnames]
  exact (List.subperm_of_subset hnodup hmem).length_le

/-- **Every part of a call keeps it.** -/
theorem Kept.proceeds (h : Kept s tr) (hperm : s.calls.Perm (call :: rest)) :
    Kept ((s.proceed call).1.with_calls (rest ++ (s.proceed call).2.1))
      (tr ++ (s.proceed call).2.2) := by
  cases call with
  | choosing m next chosen =>
      cases hd : s.drivers[next]? with
      | some d =>
          have hgo : s.proceed (.choosing m next chosen)
              = (s, [.choosing m (next + 1) (weigh chosen (d.worker, next))], []) := by
            unfold proceed
            dsimp only
            rw [hd]
          rw [hgo]
          refine h.aside hperm (fun m' i => by rw [unowned_singleton]; rfl)
            (fun m' => by rw [List.countP_singleton]; simp [SchedulerCall.concerns])
            (fun c hc => ?_) (fun i => rfl) fun i => rfl
          rw [List.mem_singleton.mp hc]
          have hnext : next < s.drivers.length := (List.getElem?_eq_some_iff.mp hd).1
          have hbefore := h.within _ (hperm.mem_iff.mpr List.mem_cons_self)
          unfold weigh
          cases chosen with
          | none => exact hnext
          | some best =>
              dsimp only
              split_ifs
              · exact hnext
              · exact hbefore
      | none =>
          cases chosen with
          | none =>
              have hgo : s.proceed (.choosing m next none) = (s, [], []) := by
                unfold proceed
                dsimp only
                rw [hd]
              rw [hgo]
              exact h.aside hperm (fun m' i => by simp [SchedulerCall.unowned])
                (fun m' => Nat.zero_le _) (fun c hc => absurd hc List.not_mem_nil) (fun i => rfl)
                fun i => rfl
          | some best =>
              have hgo : s.proceed (.choosing m next (some best))
                  = (s.at_worker best.1 fun w => { w with matches_ := w.matches_ ++ [m] },
                    [.counting m best.1], [.held m best.1]) := by
                unfold proceed
                dsimp only
                rw [hd]
              rw [hgo]
              exact h.holds hperm
  | counting m worker =>
      show Kept ((s.at_worker worker fun w => { w with load := w.load + 1 }).with_calls
        (rest ++ [.owning m worker])) (tr ++ [])
      refine h.weighs hperm (fun w => rfl) (fun m' i => by rw [unowned_singleton]; rfl)
        (fun m' => by rw [List.countP_singleton]; simp [SchedulerCall.concerns])
        (fun c hc => by rw [List.mem_singleton.mp hc]; trivial) fun i w hw => ?_
      have hload := h.load_rest hperm hw
      rw [raises_counting, show (SchedulerCall.counting m worker).lowers i = false from rfl]
        at hload
      rw [List.countP_singleton, List.countP_singleton,
        show (SchedulerCall.owning m worker).raises i = false from rfl,
        show (SchedulerCall.owning m worker).lowers i = false from rfl]
      simp only [Bool.false_eq_true, if_false, decide_eq_true_eq] at hload ⊢
      split_ifs at hload ⊢
      · dsimp only
        omega
      · exact hload
  | owning m worker => exact h.owns hperm
  | erasing m owner =>
      obtain ⟨hthere, hkept⟩ := h.erases hperm
      rw [proceed, if_pos hthere]
      exact hkept
  | discounting owner =>
      show Kept ((s.at_worker owner fun w => { w with load := w.load - 1 }).with_calls
        (rest ++ [])) (tr ++ [])
      refine h.weighs hperm (fun w => rfl) (fun m' i => by simp [SchedulerCall.unowned])
        (fun m' => Nat.zero_le _) (fun c hc => absurd hc List.not_mem_nil) fun i w hw => ?_
      have hload := h.load_rest hperm hw
      have hraises := h.raises_le hw
      rw [hperm.countP_eq, List.countP_cons] at hraises
      rw [lowers_discounting, show (SchedulerCall.discounting owner).raises i = false from rfl]
        at hload
      rw [List.countP_nil, List.countP_nil]
      simp only [Bool.false_eq_true, if_false, decide_eq_true_eq] at hload
      split_ifs at hload ⊢
      · dsimp only
        omega
      · exact hload
  | nudging worker =>
      show Kept ((s.at_worker worker nudge).with_calls (rest ++ [])) (tr ++ [])
      refine h.weighs hperm (f := nudge) (fun w => rfl)
        (fun m' i => by simp [SchedulerCall.unowned]) (fun m' => Nat.zero_le _)
        (fun c hc => absurd hc List.not_mem_nil) fun i w hw => ?_
      have hload := h.load_rest hperm hw
      rw [List.countP_nil, List.countP_nil]
      split_ifs
      · exact hload
      · exact hload

/-- One more call. -/
theorem Kept.asks (h : Kept s tr) (owners : α → Option Nat) (call : SchedulerCall α)
    (honce : ∀ m, (tr ++ os).count (.added m) ≤ 1)
    (hstake : ∀ m, (if call.concerns = some m then 1 else 0) + (owners m).toList.length
      ≤ (s.owners m).toList.length + os.count (.added m))
    (hsame : RunningScheduler.home (tr ++ os) = RunningScheduler.home tr)
    (hhome : ∀ m i, s.owners m = some i ↔ owners m = some i ∨ call.unowned = some (m, i))
    (hwithin : call.Within s.drivers.length) (hraises : ∀ i, call.raises i = false)
    (hlowers : ∀ i, call.lowers i = false) :
    Kept ({ s with owners := owners }.then_calls call) (tr ++ os) := by
  refine ⟨honce, fun m => ?_, fun m i => ?_, ?_, fun c hc => ?_, h.manned, fun i w hw => ?_⟩
  · have hbefore := h.stake m
    have hmore := hstake m
    unfold RunningScheduler.stake at hbefore ⊢
    show (s.calls ++ [call]).countP _ + (owners m).toList.length ≤ _
    rw [List.countP_append, List.countP_singleton, List.count_append]
    simp only [decide_eq_true_eq]
    omega
  · rw [hsame, h.home, hhome]
    show _ ↔ owners m = some i ∨ ∃ c ∈ s.calls ++ [call], c.unowned = some (m, i)
    rw [unowned_append, unowned_singleton, or_assoc, or_comm (a := call.unowned = _)]
  · rw [hsame]
    exact h.placed
  · rcases List.mem_append.mp hc with hold | hnew
    · exact h.within c hold
    · rw [List.mem_singleton.mp hnew]
      exact hwithin
  · show _ + (s.calls ++ [call]).countP _ = _ + (s.calls ++ [call]).countP _
    rw [List.countP_append, List.countP_append, List.countP_singleton, List.countP_singleton,
      hraises, hlowers]
    exact h.load i w hw

/-- A worker's thread has gone on. -/
theorem Kept.turned (h : Kept s tr) {d d' : Driver α} {now : Int} (here : s.drivers[i]? = some d)
    (hturns : Turns i d now d' os) : Kept { s with drivers := s.drivers.set i d' } (tr ++ os) := by
  have hsame : d'.worker.matches_ = d.worker.matches_ ∧ d'.worker.load = d.worker.load ∧
      ∀ e ∈ os, (∀ m, e ≠ .added m) ∧ ∀ home, note_home home e = home := by
    cases hturns with
    | idles _ lists load => exact ⟨lists, load, fun e he => absurd he List.not_mem_nil⟩
    | reads => exact ⟨rfl, rfl, fun e he => absurd he List.not_mem_nil⟩
    | copies => exact ⟨rfl, rfl, fun e he => absurd he List.not_mem_nil⟩
    | begins =>
        refine ⟨rfl, rfl, fun e he => ?_⟩
        rw [List.mem_singleton.mp he]
        exact ⟨nofun, fun _ => rfl⟩
    | ends =>
        refine ⟨rfl, rfl, fun e he => ?_⟩
        rw [List.mem_singleton.mp he]
        exact ⟨nofun, fun _ => rfl⟩
  obtain ⟨hlists, hload, hos⟩ := hsame
  have hcount : ∀ m, (tr ++ os).count (.added m) = tr.count (.added m) := fun m => by
    rw [List.count_append, List.count_eq_zero.mpr fun hmem => (hos _ hmem).1 m rfl, Nat.add_zero]
  have hhome : RunningScheduler.home (tr ++ os) = RunningScheduler.home tr := by
    rw [home_append]
    exact List.foldlRecOn (motive := fun home => home = RunningScheduler.home tr) os note_home rfl
      fun home hhome e he => ((hos e he).2 home).trans hhome
  have hworkers : ∀ (j : Nat) (w : Worker α),
      ({ s with drivers := s.drivers.set i d' } : RunningScheduler α).workers[j]? = some w →
      ∃ old : Worker α, s.workers[j]? = some old ∧ w.matches_ = old.matches_ ∧
        w.load = old.load := by
    intro j w hw
    unfold workers at hw ⊢
    rw [List.getElem?_map, List.getElem?_set] at hw
    rw [List.getElem?_map]
    split_ifs at hw with hj hlt
    · subst hj
      obtain rfl := Option.some.inj hw
      exact ⟨d.worker, by rw [here]; rfl, hlists, hload⟩
    · cases hw
    · exact ⟨w, hw, rfl, rfl⟩
  have hbins : ({ s with drivers := s.drivers.set i d' } : RunningScheduler α).workers.map
      Worker.matches_ = s.workers.map Worker.matches_ := by
    unfold workers
    rw [List.map_map, List.map_map, List.map_set]
    have hsame : (Worker.matches_ ∘ Driver.worker) d' = (Worker.matches_ ∘ Driver.worker) d :=
      hlists
    obtain ⟨hi, rfl⟩ := List.getElem?_eq_some_iff.mp here
    rw [hsame, ← List.map_set, List.set_getElem_self]
  refine ⟨fun m => ?_, fun m => ?_, fun m i => ?_, ?_, ?_, ?_, fun j w hw => ?_⟩
  · rw [hcount]
    exact h.once m
  · rw [hcount]
    exact h.stake m
  · rw [hhome]
    exact h.home m i
  · rw [hbins, hhome]
    exact h.placed
  · dsimp only
    rw [List.length_set]
    exact h.within
  · dsimp only
    rw [List.length_set]
    exact h.manned
  · obtain ⟨old, hold, hlists, hload⟩ := hworkers j w hw
    rw [hlists, hload]
    exact h.load j old hold

/-- Each match is added at most once. -/
def Once (_ : RunningScheduler α) (tr : List (DriverEvent α)) (op : Op α) : Prop :=
  ∀ m, op = .add (some m) → .added m ∉ tr

instance (s : RunningScheduler α) (tr : List (DriverEvent α)) (op : Op α) :
    Decidable (Once s tr op) :=
  match op with
  | .add (some m) => decidable_of_iff (.added m ∉ tr) ⟨fun h m' hm => by
      obtain rfl := Option.some.inj (Op.add.inj hm)
      exact h, fun h => h m rfl⟩
  | .add none => .isTrue nofun
  | .remove _ => .isTrue nofun
  | .wake _ => .isTrue nofun
  | .go_on _ => .isTrue nofun
  | .turn _ _ => .isTrue nofun
  | .stop => .isTrue nofun

/-- **Every step keeps it.** -/
theorem Kept.exec {s' : RunningScheduler α} {op : Op α} (h : Kept s tr) (honce : Once s tr op)
    (hexec : exec s op = .ok (s', os)) : Kept s' (tr ++ os) := by
  have hquiet : ∀ m, (tr ++ []).count (DriverEvent.added m) ≤ 1 := by
    rw [List.append_nil]
    exact h.once
  cases exec_does hexec with
  | idle =>
      rw [List.append_nil]
      exact h
  | adds m =>
      refine h.asks s.owners (.choosing m 0 none) (fun m' => ?_) (fun m' => ?_) (home_append _ _)
        (fun m' i => by simp [SchedulerCall.unowned]) trivial (fun i => rfl) fun i => rfl
      · rw [List.count_append]
        by_cases hm : m' = m
        · subst hm
          rw [List.count_eq_zero.mpr (honce m' rfl), List.count_singleton_self]
        · have hne : List.count (DriverEvent.added m') [.added m] = 0 :=
            List.count_eq_zero.mpr (by simpa using hm)
          rw [hne]
          exact h.once m'
      · show (if some m = some m' then 1 else 0) + _ ≤ _
        split_ifs with hm
        · obtain rfl := Option.some.inj hm
          rw [List.count_singleton_self]
          omega
        · omega
  | removes m owner owned =>
      refine h.asks _ (.erasing m owner) hquiet (fun m' => ?_) (by rw [List.append_nil])
        (fun m' i => ?_) trivial (fun i => rfl) fun i => rfl
      · by_cases hm : m' = m
        · subst hm
          simp [SchedulerCall.concerns, owned]
        · simp [SchedulerCall.concerns, Ne.symm hm, Function.update_of_ne hm]
      · show _ ↔ _ ∨ some (m, owner) = some (m', i)
        by_cases hm : m' = m
        · subst hm
          simp [owned]
        · simp [Ne.symm hm, Function.update_of_ne hm]
  | wakes m worker =>
      exact h.asks s.owners (.nudging worker) hquiet (fun m' => by simp [SchedulerCall.concerns])
        (by rw [List.append_nil]) (fun m' i => by simp [SchedulerCall.unowned]) trivial
        (fun i => rfl) fun i => rfl
  | goes_on i call here => exact h.proceeds (calls_perm here)
  | turns i now d d' os here turns => exact h.turned here turns
  | stops =>
      rw [List.append_nil]
      exact ⟨h.once, h.stake, h.home, h.placed, h.within, h.manned, h.load⟩

theorem kept_of_reach {worker_count hardware_concurrency : Nat} {started_at : Nat → Int}
    (hrun : Reach exec Once (.new worker_count hardware_concurrency started_at) s tr) :
    Kept s tr := by
  refine hrun.invariant (P := Kept) (kept_new _ _ _) ?_
  intro s tr op s' os _ h honce hexec
  exact h.exec honce hexec

/-- **The scheduler settles.** However its calls are interleaved with one another and with
the workers, with each match added at most once: whenever no call is under way, it is what
calls that nothing interrupts would have left. Every match of `owners_` is in the list of
its worker, once, and in no other, no other match is in a list, and every load is the
length of a list. -/
theorem settles_between_calls {worker_count hardware_concurrency : Nat} {started_at : Nat → Int}
    (hrun : Reach exec Once (.new worker_count hardware_concurrency started_at) s tr)
    (hidle : s.calls = []) : MatchScheduler.Sound ⟨s.workers, s.owners⟩ := by
  have h := kept_of_reach hrun
  have hhome : RunningScheduler.home tr = s.owners := by
    funext m
    refine Option.ext fun i => ?_
    rw [h.home, hidle]
    simp
  refine ⟨hhome ▸ h.placed, fun w hw => ?_, ?_⟩
  · obtain ⟨i, hi⟩ := List.getElem?_of_mem hw
    have hload := h.load i w hi
    rwa [hidle] at hload
  · show s.workers ≠ []
    rw [← List.length_pos_iff, workers, List.length_map]
    exact h.manned

/-- A match is added while another is, and removed when the worker's pass has begun. -/
def two_added : List (Op Nat) :=
  [.add (some 1), .add (some 2), .go_on 0, .go_on 0, .go_on 0, .go_on 0, .go_on 0, .go_on 0,
    .go_on 0, .go_on 0, .go_on 0, .go_on 0, .go_on 0, .turn 0 0, .turn 0 16000000,
    .turn 0 16000000, .turn 0 16000000, .remove (some 2), .wake (some 1), .go_on 0, .go_on 0,
    .go_on 0, .turn 0 16000000, .turn 0 16000000]

/-- Both go to the first of two workers, since neither has raised its load yet when the
other reads it. -/
theorem two_added_settles : ∃ s tr, run exec (.new 2 8 fun _ => 0) two_added = .ok (s, tr) ∧
    s.calls = [] ∧ s.owners 1 = some 0 ∧ s.owners 2 = none ∧
    MatchScheduler.Sound ⟨s.workers, s.owners⟩ := by
  obtain ⟨⟨s, tr⟩, hrun, hp⟩ := exists_ok_such (p := fun r => decide (r.1.calls = [] ∧
      r.1.owners 1 = some 0 ∧ r.1.owners 2 = none))
    (x := run exec (.new 2 8 fun _ => 0) two_added) (by decide)
  obtain ⟨hidle, hone, htwo⟩ := of_decide_eq_true hp
  have hreach := reach_of_meets (C := Once) (by decide) hrun
  exact ⟨s, tr, hrun, hidle, hone, htwo, settles_between_calls hreach hidle⟩

end RunningScheduler

end KungFuChess
