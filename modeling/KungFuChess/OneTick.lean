/-
**One tick at a time.**

`Match::tick` takes no lock of its own, and need not: a match is only ever ticked by the
worker in whose list it was put. A worker's list is copied and then ticked without the
lock, so the copy outlives what `remove` does to the list, but not by more than one tick.

`Orderly` is what a run keeps: who is in a list, or in a copy of one, was put there
(`held`), which happens once to a match; and what the threads are ticking is what has
begun and not ended.
-/
import KungFuChess.Settling

set_option autoImplicit false

namespace KungFuChess

open Machine MatchScheduler

variable {α : Type}

/-- A tick of a match. -/
structure TickTurn where
  worker : Nat
  now : Int
  elapsed_ms : Int
deriving DecidableEq, Repr

namespace RunningScheduler

variable {s s' : RunningScheduler α} {tr os : List (DriverEvent α)} {m : α} {i : Nat} {op : Op α}
  {call : SchedulerCall α}

/-- Somebody is in a tick of the match. -/
def Ticking (s : RunningScheduler α) (m : α) : Prop := ∃ d ∈ s.drivers, d.phase.current = some m

/-- Somebody else is in a tick of the match. -/
def Elsewhere (s : RunningScheduler α) (i : Nat) (m : α) : Prop :=
  ∃ j d, j ≠ i ∧ s.drivers[j]? = some d ∧ d.phase.current = some m

theorem ticking_iff {d : Driver α} (here : s.drivers[i]? = some d) (m : α) :
    Ticking s m ↔ d.phase.current = some m ∨ Elsewhere s i m := by
  constructor
  · rintro ⟨other, hmem, hcurrent⟩
    obtain ⟨j, hj⟩ := List.getElem?_of_mem hmem
    by_cases hji : j = i
    · subst hji
      obtain rfl := Option.some.inj (here.symm.trans hj)
      exact .inl hcurrent
    · exact .inr ⟨j, other, hji, hj, hcurrent⟩
  · rintro (hcurrent | ⟨j, other, -, hj, hcurrent⟩)
    · exact ⟨d, List.mem_of_getElem? here, hcurrent⟩
    · exact ⟨other, List.mem_of_getElem? hj, hcurrent⟩

variable [DecidableEq α]

/-- The ticks of the match that have begun. -/
def ticks (m : α) (tr : List (DriverEvent α)) : List TickTurn :=
  tr.filterMap fun
    | .begins m' worker now elapsed_ms => if m' = m then some ⟨worker, now, elapsed_ms⟩ else none
    | _ => none

/-- How many have ended. -/
def ended (m : α) (tr : List (DriverEvent α)) : Nat :=
  tr.countP fun
    | .ends m' _ => m' = m
    | _ => false

/-- How often the match was put into a list. -/
def puts (m : α) (tr : List (DriverEvent α)) : Nat :=
  tr.countP fun
    | .held m' _ => m' = m
    | _ => false

def choosing (m : α) : SchedulerCall α → Bool
  | .choosing m' _ _ => m' = m
  | _ => false

theorem ticks_append (m : α) (tr os : List (DriverEvent α)) :
    ticks m (tr ++ os) = ticks m tr ++ ticks m os := List.filterMap_append

theorem ended_append (m : α) (tr os : List (DriverEvent α)) :
    ended m (tr ++ os) = ended m tr + ended m os := List.countP_append

theorem puts_append (m : α) (tr os : List (DriverEvent α)) :
    puts m (tr ++ os) = puts m tr + puts m os := List.countP_append

/-- Each match is added at most once, and the steady clock does not go back. -/
def Timely (s : RunningScheduler α) (tr : List (DriverEvent α)) (op : Op α) : Prop :=
  Once s tr op ∧ match op with
    | .turn i now => ∀ d ∈ s.drivers[i]?, d.last_tick_at ≤ now
    | _ => True

instance (s : RunningScheduler α) (tr : List (DriverEvent α)) (op : Op α) :
    Decidable (Timely s tr op) := by
  unfold Timely
  cases op <;> infer_instance

/-- Each worker's ticks are in order, one after the other. -/
structure Orderly (s : RunningScheduler α) (tr : List (DriverEvent α)) : Prop where
  puts : ∀ m, puts m tr + s.calls.countP (choosing m) ≤ tr.count (.added m)
  /-- The lists, and the copies. -/
  lists : ∀ {i d}, s.drivers[i]? = some d → ∀ m ∈ d.worker.matches_, .held m i ∈ tr
  due : ∀ {i d}, s.drivers[i]? = some d → ∀ m ∈ d.phase.due, .held m i ∈ tr
  current : ∀ {i d}, s.drivers[i]? = some d → ∀ m, d.phase.current = some m → .held m i ∈ tr
  elapsed : ∀ d ∈ s.drivers, ∀ elapsed_ms, d.phase.elapsed = some elapsed_ms →
    kMinTickAdvanceMs ≤ elapsed_ms ∧ elapsed_ms ≤ kMaxTickAdvanceMs
  ticks : ∀ m, ∀ t ∈ ticks m tr, .held m t.worker ∈ tr ∧
    (kMinTickAdvanceMs ≤ t.elapsed_ms ∧ t.elapsed_ms ≤ kMaxTickAdvanceMs) ∧
    ∀ d, s.drivers[t.worker]? = some d → t.now ≤ d.last_tick_at
  sorted : ∀ m, (RunningScheduler.ticks m tr).Pairwise fun a b => a.now ≤ b.now
  /-- What has begun and not ended is what somebody is in. -/
  open_ : ∀ m, (Ticking s m → (RunningScheduler.ticks m tr).length = ended m tr + 1) ∧
    (¬ Ticking s m → (RunningScheduler.ticks m tr).length = ended m tr)

/-! ## What a match is ticked by -/

theorem held_unique (hputs : puts m tr ≤ 1) {i j : Nat} (hi : .held m i ∈ tr)
    (hj : .held m j ∈ tr) : i = j := by
  obtain ⟨before, after, rfl⟩ := List.append_of_mem hi
  by_contra hne
  have hother : .held m j ∈ before ++ after := by
    rcases List.mem_append.mp hj with hb | ha
    · exact List.mem_append_left _ hb
    · rcases List.mem_cons.mp ha with heq | ha
      · exact absurd (DriverEvent.held.inj heq).2.symm hne
      · exact List.mem_append_right _ ha
  have hpos : 0 < puts m (before ++ after) :=
    List.countP_pos_iff.mpr ⟨_, hother, decide_eq_true rfl⟩
  have hone : puts m [DriverEvent.held m i] = 1 := by simp [puts]
  rw [← List.singleton_append, puts_append, puts_append, hone] at hputs
  rw [puts_append] at hpos
  omega

theorem Orderly.puts_le (h : Orderly s tr) (hkept : Kept s tr) (m : α) :
    RunningScheduler.puts m tr ≤ 1 := by
  have := h.puts m
  have := hkept.once m
  omega

/-- A step that leaves the threads where they are. -/
theorem Orderly.aside (h : Orderly s tr)
    (hdrivers : ∀ (i : Nat) (d' : Driver α), s'.drivers[i]? = some d' →
      ∃ d : Driver α, s.drivers[i]? = some d ∧ d'.phase = d.phase ∧
        d'.last_tick_at = d.last_tick_at ∧
        ∀ m ∈ d'.worker.matches_, m ∈ d.worker.matches_ ∨ .held m i ∈ os)
    (hback : ∀ (i : Nat) (d : Driver α), s.drivers[i]? = some d →
      ∃ d' : Driver α, s'.drivers[i]? = some d' ∧ d'.phase = d.phase)
    (hticks : ∀ m, RunningScheduler.ticks m os = []) (hended : ∀ m, ended m os = 0)
    (hputs : ∀ m, RunningScheduler.puts m os + s'.calls.countP (choosing m)
      ≤ s.calls.countP (choosing m) + os.count (.added m)) : Orderly s' (tr ++ os) := by
  have hticking : ∀ m, Ticking s' m ↔ Ticking s m := by
    intro m
    constructor
    · rintro ⟨d', hd', hcurrent⟩
      obtain ⟨i, hi⟩ := List.getElem?_of_mem hd'
      obtain ⟨d, hd, hphase, -⟩ := hdrivers i d' hi
      exact ⟨d, List.mem_of_getElem? hd, hphase ▸ hcurrent⟩
    · rintro ⟨d, hd, hcurrent⟩
      obtain ⟨i, hi⟩ := List.getElem?_of_mem hd
      obtain ⟨d', hd', hphase⟩ := hback i d hi
      exact ⟨d', List.mem_of_getElem? hd', hphase ▸ hcurrent⟩
  refine ⟨fun m => ?_, fun hi m hm => ?_, fun hi m hm => ?_, fun hi m hm => ?_,
    fun d' hd' e he => ?_, fun m t ht => ?_, fun m => ?_, fun m => ?_⟩
  · rw [puts_append, List.count_append]
    have := h.puts m
    have := hputs m
    omega
  · obtain ⟨d, hd, -, -, hlists⟩ := hdrivers _ _ hi
    rcases hlists m hm with hold | hnew
    · exact List.mem_append_left _ (h.lists hd m hold)
    · exact List.mem_append_right _ hnew
  · obtain ⟨d, hd, hphase, -⟩ := hdrivers _ _ hi
    exact List.mem_append_left _ (h.due hd m (hphase ▸ hm))
  · obtain ⟨d, hd, hphase, -⟩ := hdrivers _ _ hi
    exact List.mem_append_left _ (h.current hd m (hphase ▸ hm))
  · obtain ⟨i, hi⟩ := List.getElem?_of_mem hd'
    obtain ⟨d, hd, hphase, -⟩ := hdrivers i d' hi
    exact h.elapsed d (List.mem_of_getElem? hd) e (hphase ▸ he)
  · rw [ticks_append, hticks, List.append_nil] at ht
    obtain ⟨hheld, helapsed, hnow⟩ := h.ticks m t ht
    refine ⟨List.mem_append_left _ hheld, helapsed, fun d' hd' => ?_⟩
    obtain ⟨d, hd, -, hlast, -⟩ := hdrivers _ d' hd'
    rw [hlast]
    exact hnow d hd
  · rw [ticks_append, hticks, List.append_nil]
    exact h.sorted m
  · rw [ticks_append, hticks, List.append_nil, ended_append, hended, hticking]
    exact h.open_ m

/-- Nobody else is, of a match of this worker. -/
theorem Orderly.not_elsewhere (h : Orderly s tr) (hkept : Kept s tr) (hheld : .held m i ∈ tr) :
    ¬ Elsewhere s i m := by
  rintro ⟨j, d, hji, hj, hcurrent⟩
  exact hji (held_unique (h.puts_le hkept m) (h.current hj m hcurrent) hheld)

/-- A tick that a worker begins is no earlier than those of the same match before it, which
the same worker has begun. -/
theorem Orderly.sorted_append (h : Orderly s tr) (hkept : Kept s tr) {d : Driver α}
    (here : s.drivers[i]? = some d)
    (hticks : ∀ t ∈ RunningScheduler.ticks m os, t.now = d.last_tick_at ∧ .held m i ∈ tr)
    (hone : (RunningScheduler.ticks m os).length ≤ 1) :
    (RunningScheduler.ticks m (tr ++ os)).Pairwise fun a b => a.now ≤ b.now := by
  rw [ticks_append]
  refine List.pairwise_append.mpr ⟨h.sorted m, ?_, fun a ha b hb => ?_⟩
  · cases hnew : RunningScheduler.ticks m os with
    | nil => exact List.Pairwise.nil
    | cons t more =>
        rw [hnew, List.length_cons] at hone
        rw [List.length_eq_zero_iff.mp (Nat.le_zero.mp (Nat.le_of_succ_le_succ hone))]
        exact List.pairwise_singleton _ _
  · obtain ⟨hnow, hheld⟩ := hticks b hb
    obtain ⟨hbefore, -, hearlier⟩ := h.ticks m a ha
    have hsame := held_unique (h.puts_le hkept m) hbefore hheld
    rw [hnow]
    exact hearlier d (hsame ▸ here)

/-- What has begun and not ended is what somebody is in, also when one worker's thread has
gone on: only that worker can be in a match it holds. -/
theorem Orderly.open_replaced (h : Orderly s tr) (hkept : Kept s tr) {d d' : Driver α}
    (here : s.drivers[i]? = some d) (hcurrent : d'.phase.current = some m → .held m i ∈ tr)
    (hbalance : (RunningScheduler.ticks m os).length
        + (if d.phase.current = some m then 1 else 0)
      = ended m os + if d'.phase.current = some m then 1 else 0) :
    (Ticking { s with drivers := s.drivers.set i d' } m →
      (RunningScheduler.ticks m (tr ++ os)).length = ended m (tr ++ os) + 1) ∧
    (¬ Ticking { s with drivers := s.drivers.set i d' } m →
      (RunningScheduler.ticks m (tr ++ os)).length = ended m (tr ++ os)) := by
  have hhere : (s.drivers.set i d')[i]? = some d' :=
    List.getElem?_set_self (List.getElem?_eq_some_iff.mp here).1
  have helsewhere : Elsewhere { s with drivers := s.drivers.set i d' } i m ↔ Elsewhere s i m := by
    refine exists_congr fun j => exists_congr fun other => and_congr_right fun hji => ?_
    dsimp only
    rw [List.getElem?_set_ne (Ne.symm hji)]
  rw [ticks_append, List.length_append, ended_append, ticking_iff hhere, helsewhere]
  have hbefore := h.open_ m
  rw [ticking_iff here] at hbefore
  by_cases hmine : d.phase.current = some m ∨ d'.phase.current = some m
  · have hheld : .held m i ∈ tr := hmine.elim (h.current here m) hcurrent
    have hnot := h.not_elsewhere hkept hheld
    simp only [hnot, or_false] at hbefore ⊢
    split_ifs at hbalance with h₁ h₂ h₂
    · exact ⟨fun _ => by have := hbefore.1 h₁; omega, fun hn => absurd h₂ hn⟩
    · exact ⟨fun hy => absurd hy h₂, fun _ => by have := hbefore.1 h₁; omega⟩
    · exact ⟨fun _ => by have := hbefore.2 h₁; omega, fun hn => absurd h₂ hn⟩
    · exact absurd hmine (by simp [h₁, h₂])
  · obtain ⟨h₁, h₂⟩ := not_or.mp hmine
    rw [if_neg h₁, if_neg h₂] at hbalance
    simp only [h₁, h₂, false_or] at hbefore ⊢
    exact ⟨fun hy => by have := hbefore.1 hy; omega, fun hn => by have := hbefore.2 hn; omega⟩

/-- The thread of one worker has gone on, and said so. -/
theorem Orderly.replaced (h : Orderly s tr) (hkept : Kept s tr) {d d' : Driver α}
    (here : s.drivers[i]? = some d) (hlists : d'.worker.matches_ = d.worker.matches_)
    (hlast : d.last_tick_at ≤ d'.last_tick_at) (hdue : ∀ m ∈ d'.phase.due, .held m i ∈ tr)
    (hcurrent : ∀ m, d'.phase.current = some m → .held m i ∈ tr)
    (helapsed : ∀ e, d'.phase.elapsed = some e → kMinTickAdvanceMs ≤ e ∧ e ≤ kMaxTickAdvanceMs)
    (hputs : ∀ m, RunningScheduler.puts m os = 0)
    (hticks : ∀ m, ∀ t ∈ RunningScheduler.ticks m os, t.worker = i ∧ t.now = d.last_tick_at ∧
      (kMinTickAdvanceMs ≤ t.elapsed_ms ∧ t.elapsed_ms ≤ kMaxTickAdvanceMs) ∧ .held m i ∈ tr)
    (hone : ∀ m, (RunningScheduler.ticks m os).length ≤ 1)
    (hbalance : ∀ m, (RunningScheduler.ticks m os).length
        + (if d.phase.current = some m then 1 else 0)
      = ended m os + if d'.phase.current = some m then 1 else 0) :
    Orderly { s with drivers := s.drivers.set i d' } (tr ++ os) := by
  have hi : i < s.drivers.length := (List.getElem?_eq_some_iff.mp here).1
  have hhere : (s.drivers.set i d')[i]? = some d' := List.getElem?_set_self hi
  have hset : ∀ {j : Nat} {other : Driver α}, (s.drivers.set i d')[j]? = some other →
      (j = i ∧ other = d') ∨ (j ≠ i ∧ s.drivers[j]? = some other) := by
    intro j other hj
    rw [List.getElem?_set] at hj
    split_ifs at hj with hij
    · exact .inl ⟨hij.symm, (Option.some.inj hj).symm⟩
    · exact .inr ⟨Ne.symm hij, hj⟩
  refine ⟨fun m => ?_, fun hj m hm => ?_, fun hj m hm => ?_, fun hj m hm => ?_,
    fun other hother e he => ?_, fun m t ht => ?_, fun m => ?_,
    fun m => h.open_replaced hkept here (hcurrent m) (hbalance m)⟩
  · rw [puts_append, hputs, List.count_append]
    exact (h.puts m).trans (Nat.le_add_right _ _)
  · rcases hset hj with ⟨rfl, rfl⟩ | ⟨-, hj⟩
    · exact List.mem_append_left _ (h.lists here m (hlists ▸ hm))
    · exact List.mem_append_left _ (h.lists hj m hm)
  · rcases hset hj with ⟨rfl, rfl⟩ | ⟨-, hj⟩
    · exact List.mem_append_left _ (hdue m hm)
    · exact List.mem_append_left _ (h.due hj m hm)
  · rcases hset hj with ⟨rfl, rfl⟩ | ⟨-, hj⟩
    · exact List.mem_append_left _ (hcurrent m hm)
    · exact List.mem_append_left _ (h.current hj m hm)
  · obtain ⟨j, hj⟩ := List.getElem?_of_mem hother
    rcases hset hj with ⟨rfl, rfl⟩ | ⟨-, hj⟩
    · exact helapsed e he
    · exact h.elapsed other (List.mem_of_getElem? hj) e he
  · rw [ticks_append] at ht
    rcases List.mem_append.mp ht with hold | hnew
    · obtain ⟨hheld, hrange, hnow⟩ := h.ticks m t hold
      refine ⟨List.mem_append_left _ hheld, hrange, fun other hother => ?_⟩
      rcases hset hother with ⟨hj, rfl⟩ | ⟨-, hj⟩
      · exact (hnow d (hj ▸ here)).trans hlast
      · exact hnow other hj
    · obtain ⟨hworker, hnow, hrange, hheld⟩ := hticks m t hnew
      refine ⟨List.mem_append_left _ (hworker ▸ hheld), hrange, fun other hother => ?_⟩
      rw [hworker] at hother
      obtain rfl := Option.some.inj (hhere.symm.trans hother)
      exact hnow.le.trans hlast
  · refine h.sorted_append hkept here (fun t ht => ?_) (hone m)
    obtain ⟨-, hnow, -, hheld⟩ := hticks m t ht
    exact ⟨hnow, hheld⟩

theorem Orderly.turned (h : Orderly s tr) (hkept : Kept s tr) {d d' : Driver α} {now : Int}
    (here : s.drivers[i]? = some d) (htime : d.last_tick_at ≤ now)
    (hturns : Turns i d now d' os) :
    Orderly { s with drivers := s.drivers.set i d' } (tr ++ os) := by
  have hmem : d ∈ s.drivers := List.mem_of_getElem? here
  cases hturns with
  | idles _ lists load last before due current elapsed =>
      refine h.replaced hkept here lists last.ge (fun m hm => ?_) (fun m hm => ?_)
        (fun e he => ?_) (fun m => rfl) (fun m t ht => absurd ht List.not_mem_nil)
        (fun m => Nat.zero_le _) fun m => ?_
      · rw [due] at hm
        cases hm
      · rw [current] at hm
        cases hm
      · rw [elapsed] at he
        cases he
      · rw [before, current]
        rfl
  | reads elapsed_ms before least most clock =>
      refine h.replaced hkept here rfl htime (fun m hm => absurd hm List.not_mem_nil)
        (fun m hm => by cases hm) (fun e he => ?_) (fun m => rfl)
        (fun m t ht => absurd ht List.not_mem_nil) (fun m => Nat.zero_le _) fun m => ?_
      · obtain rfl := Option.some.inj he
        exact ⟨least, most⟩
      · rw [before]
        rfl
  | copies elapsed_ms before =>
      refine h.replaced hkept here rfl le_rfl (fun m hm => h.lists here m hm)
        (fun m hm => by cases hm) (fun e he => ?_) (fun m => rfl)
        (fun m t ht => absurd ht List.not_mem_nil) (fun m => Nat.zero_le _) fun m => ?_
      · exact h.elapsed d hmem e (by rw [before]; exact he)
      · rw [before]
        rfl
  | begins m elapsed_ms due before =>
      have hheld : .held m i ∈ tr := h.due here m (by rw [before]; exact List.mem_cons_self)
      have hrange := h.elapsed d hmem elapsed_ms (by rw [before]; rfl)
      refine h.replaced hkept here rfl le_rfl (fun m' hm => ?_) (fun m' hm => ?_)
        (fun e he => ?_) (fun m' => rfl) (fun m' t ht => ?_) (fun m' => ?_) fun m' => ?_
      · exact h.due here m' (by rw [before]; exact List.mem_cons_of_mem _ hm)
      · obtain rfl := Option.some.inj hm
        exact hheld
      · obtain rfl := Option.some.inj he
        exact hrange
      · obtain ⟨e, he, ht⟩ := List.mem_filterMap.mp ht
        rw [List.mem_singleton.mp he] at ht
        dsimp only at ht
        split_ifs at ht with hm
        obtain rfl := Option.some.inj ht
        exact ⟨rfl, rfl, hrange, hm ▸ hheld⟩
      · exact (List.length_filterMap_le _ _).trans (Nat.le_refl 1)
      · rw [before]
        by_cases hm : m = m'
        · subst hm
          simp [RunningScheduler.ticks, ended, Phase.current]
        · simp [RunningScheduler.ticks, ended, Phase.current, hm]
  | ends m elapsed_ms due before =>
      refine h.replaced hkept here rfl le_rfl (fun m' hm => ?_) (fun m' hm => by cases hm)
        (fun e he => ?_) (fun m' => rfl) (fun m' t ht => absurd ht List.not_mem_nil)
        (fun m' => Nat.zero_le _) fun m' => ?_
      · exact h.due here m' (by rw [before]; exact hm)
      · exact h.elapsed d hmem e (by rw [before]; exact he)
      · rw [before]
        by_cases hm : m = m'
        · subst hm
          simp [RunningScheduler.ticks, ended, Phase.current]
        · simp [RunningScheduler.ticks, ended, Phase.current, hm]

omit [DecidableEq α] in
theorem driver_at_worker {worker : Nat} {f : Worker α → Worker α} {d' : Driver α}
    (h : (s.at_worker worker f).drivers[i]? = some d') : ∃ d, s.drivers[i]? = some d ∧
      d' = if worker = i then { d with worker := f d.worker } else d := by
  unfold at_worker at h
  dsimp only at h
  rw [List.getElem?_modify, Option.map_eq_map, Option.map_eq_some_iff] at h
  obtain ⟨d, hd, hf⟩ := h
  exact ⟨d, hd, hf.symm⟩

omit [DecidableEq α] in
theorem at_worker_driver {d : Driver α} (worker : Nat) (f : Worker α → Worker α)
    (h : s.drivers[i]? = some d) :
    ∃ d', (s.at_worker worker f).drivers[i]? = some d' ∧ d'.phase = d.phase := by
  unfold at_worker
  dsimp only
  rw [List.getElem?_modify, h]
  refine ⟨_, rfl, ?_⟩
  split
  · rfl
  · rfl

/-- What a call does to the threads: nothing, but for what is in the lists. -/
theorem proceed_drivers {d' : Driver α} (h : (s.proceed call).1.drivers[i]? = some d') :
    ∃ d : Driver α, s.drivers[i]? = some d ∧ d'.phase = d.phase ∧
      d'.last_tick_at = d.last_tick_at ∧
      ∀ m ∈ d'.worker.matches_, m ∈ d.worker.matches_ ∨ .held m i ∈ (s.proceed call).2.2 := by
  have hat : ∀ {worker : Nat} {f : Worker α → Worker α} {os : List (DriverEvent α)},
      (∀ w, ∀ m ∈ (f w).matches_, m ∈ w.matches_ ∨ .held m worker ∈ os) →
      (s.at_worker worker f).drivers[i]? = some d' →
      ∃ d : Driver α, s.drivers[i]? = some d ∧ d'.phase = d.phase ∧
        d'.last_tick_at = d.last_tick_at ∧
        ∀ m ∈ d'.worker.matches_, m ∈ d.worker.matches_ ∨ .held m i ∈ os := by
    intro worker f os hf hd'
    obtain ⟨d, hd, rfl⟩ := driver_at_worker hd'
    refine ⟨d, hd, ?_⟩
    split_ifs with hi
    · exact ⟨rfl, rfl, fun m hm => hi ▸ hf d.worker m hm⟩
    · exact ⟨rfl, rfl, fun m hm => .inl hm⟩
  have hsame : ∀ {os : List (DriverEvent α)}, s.drivers[i]? = some d' →
      ∃ d : Driver α, s.drivers[i]? = some d ∧ d'.phase = d.phase ∧
        d'.last_tick_at = d.last_tick_at ∧
        ∀ m ∈ d'.worker.matches_, m ∈ d.worker.matches_ ∨ .held m i ∈ os :=
    fun hd' => ⟨d', hd', rfl, rfl, fun m hm => .inl hm⟩
  cases call with
  | choosing m next chosen =>
      unfold proceed at h ⊢
      dsimp only at h ⊢
      split at h
      · exact hsame h
      · split at h
        · exact hsame h
        · refine hat (fun w m' hm' => ?_) h
          refine (List.mem_append.mp hm').imp_right fun hnew => ?_
          rw [List.mem_singleton.mp hnew]
          exact List.mem_singleton_self _
  | counting m worker =>
      exact hat (f := fun w => { w with load := w.load + 1 }) (fun w m hm => .inl hm) h
  | owning m worker => exact hsame h
  | erasing m owner =>
      unfold proceed at h ⊢
      dsimp only at h ⊢
      split_ifs at h ⊢
      · exact hat (fun w m' hm' => .inl (List.mem_of_mem_erase hm')) h
      · exact hsame h
  | discounting owner =>
      exact hat (f := fun w => { w with load := w.load - 1 }) (fun w m hm => .inl hm) h
  | nudging worker => exact hat (f := nudge) (fun w m hm => .inl hm) h

theorem drivers_proceed {d : Driver α} (h : s.drivers[i]? = some d) :
    ∃ d' : Driver α, (s.proceed call).1.drivers[i]? = some d' ∧ d'.phase = d.phase := by
  cases call with
  | choosing m next chosen =>
      unfold proceed
      dsimp only
      split
      · exact ⟨d, h, rfl⟩
      · split
        · exact ⟨d, h, rfl⟩
        · exact at_worker_driver _ _ h
  | counting m worker => exact at_worker_driver _ _ h
  | owning m worker => exact ⟨d, h, rfl⟩
  | erasing m owner =>
      unfold proceed
      dsimp only
      split_ifs
      · exact at_worker_driver _ _ h
      · exact ⟨d, h, rfl⟩
  | discounting owner => exact at_worker_driver _ _ h
  | nudging worker => exact at_worker_driver _ _ h

/-- What a call reports. -/
theorem proceed_events (s : RunningScheduler α) (call : SchedulerCall α) (m : α) :
    ticks m (s.proceed call).2.2 = [] ∧ ended m (s.proceed call).2.2 = 0 ∧
      puts m (s.proceed call).2.2 + (s.proceed call).2.1.countP (choosing m)
        ≤ if choosing m call then 1 else 0 := by
  cases call with
  | choosing m' next chosen =>
      unfold proceed
      dsimp only
      split
      · exact ⟨rfl, rfl, by rw [List.countP_singleton]; exact Nat.le_of_eq (Nat.zero_add _)⟩
      · split
        · exact ⟨rfl, rfl, Nat.zero_le _⟩
        · exact ⟨rfl, rfl, by simp [puts, choosing]⟩
  | counting | owning | discounting | nudging => exact ⟨rfl, rfl, Nat.zero_le _⟩
  | erasing m' owner =>
      unfold proceed
      dsimp only
      split
      · exact ⟨rfl, rfl, Nat.zero_le _⟩
      · exact ⟨rfl, rfl, Nat.zero_le _⟩

theorem Orderly.asks (h : Orderly s tr) (hnone : ∀ m, RunningScheduler.ticks m os = [] ∧
    ended m os = 0 ∧ RunningScheduler.puts m os = 0) (owners : α → Option Nat)
    (hmay : ∀ m, (if choosing m call then 1 else 0) ≤ os.count (.added m)) :
    Orderly ({ s with owners := owners }.then_calls call) (tr ++ os) := by
  refine h.aside (fun i d hd => ⟨d, hd, rfl, rfl, fun m hm => .inl hm⟩) (fun i d hd => ⟨d, hd, rfl⟩)
    (fun m => (hnone m).1) (fun m => (hnone m).2.1) fun m => ?_
  show _ + (s.calls ++ [call]).countP _ ≤ _
  rw [(hnone m).2.2, List.countP_append, List.countP_singleton, Nat.zero_add]
  exact Nat.add_le_add_left (hmay m) _

/-- **Every step keeps it.** -/
theorem Orderly.exec (h : Orderly s tr) (hkept : Kept s tr) (htimely : Timely s tr op)
    (hexec : exec s op = .ok (s', os)) : Orderly s' (tr ++ os) := by
  cases exec_does hexec with
  | idle =>
      rw [List.append_nil]
      exact h
  | adds m =>
      refine h.asks (fun m' => ⟨rfl, rfl, rfl⟩) s.owners fun m' => ?_
      show (if decide (m = m') = true then 1 else 0) ≤ _
      split_ifs with hm
      · rw [of_decide_eq_true hm, List.count_singleton_self]
      · exact Nat.zero_le _
  | removes m owner owned => exact h.asks (fun m' => ⟨rfl, rfl, rfl⟩) _ fun m' => Nat.zero_le _
  | wakes m worker => exact h.asks (fun m' => ⟨rfl, rfl, rfl⟩) s.owners fun m' => Nat.zero_le _
  | goes_on i call here =>
      refine h.aside (fun i d' hd' => proceed_drivers hd') (fun i d hd => drivers_proceed hd)
        (fun m => (proceed_events s call m).1) (fun m => (proceed_events s call m).2.1) fun m => ?_
      have hevents := (proceed_events s call m).2.2
      show RunningScheduler.puts m (s.proceed call).2.2
        + (s.calls.eraseIdx i ++ (s.proceed call).2.1).countP (choosing m) ≤ _
      rw [(calls_perm here).countP_eq, List.countP_cons, List.countP_append]
      omega
  | turns i now d d' os here turns => exact h.turned hkept here (htimely.2 d here) turns
  | stops =>
      exact h.aside (fun i d hd => ⟨d, hd, rfl, rfl, fun m hm => .inl hm⟩)
        (fun i d hd => ⟨d, hd, rfl⟩) (fun m => rfl) (fun m => rfl)
        fun m => by simp [RunningScheduler.puts]

theorem orderly_new (worker_count hardware_concurrency : Nat) (started_at : Nat → Int) :
    Orderly (α := α) (new worker_count hardware_concurrency started_at) [] := by
  refine ⟨fun m => Nat.le_refl 0, fun hd m hm => ?_, fun hd m hm => ?_, fun hd m hm => ?_,
    fun d hd e he => ?_, fun m t ht => absurd ht List.not_mem_nil, fun m => List.Pairwise.nil,
    fun m => ⟨?_, fun _ => rfl⟩⟩
  · rw [driver_new hd] at hm
    cases hm
  · rw [driver_new hd] at hm
    cases hm
  · rw [driver_new hd] at hm
    cases hm
  · obtain ⟨i, hi⟩ := List.getElem?_of_mem hd
    rw [driver_new hi] at he
    cases he
  · rintro ⟨d, hd, hcurrent⟩
    obtain ⟨i, hi⟩ := List.getElem?_of_mem hd
    rw [driver_new hi] at hcurrent
    cases hcurrent

/-- **The run lemma.** -/
theorem orderly_of_reach {worker_count hardware_concurrency : Nat} {started_at : Nat → Int}
    (hrun : Reach exec Timely (.new worker_count hardware_concurrency started_at) s tr) :
    Orderly s tr := by
  refine hrun.invariant (P := Orderly) (orderly_new _ _ _) ?_
  intro s tr op s' os hr h htimely hexec
  exact h.exec (kept_of_reach (hr.mono fun _ _ _ htimely => htimely.1)) htimely hexec

/-- **One tick at a time.** However calls and workers are interleaved, with each match
added at most once and a steady clock that does not go back: a match is only ever ticked
by one worker, no tick of it begins before the last has ended, and the ticks come with
times that do not go back and with 1 to 200 milliseconds each. -/
theorem one_tick_at_a_time {worker_count hardware_concurrency : Nat} {started_at : Nat → Int}
    (hrun : Reach exec Timely (.new worker_count hardware_concurrency started_at) s tr) (m : α) :
    (∃ worker, ∀ t ∈ ticks m tr, t.worker = worker) ∧
    (ended m tr ≤ (ticks m tr).length ∧ (ticks m tr).length ≤ ended m tr + 1) ∧
    (ticks m tr).Pairwise (fun a b => a.now ≤ b.now) ∧
    ∀ t ∈ ticks m tr, 1 ≤ t.elapsed_ms ∧ t.elapsed_ms ≤ 200 := by
  have h := orderly_of_reach hrun
  have hkept := kept_of_reach (hrun.mono fun _ _ _ htimely => htimely.1)
  refine ⟨?_, ?_, h.sorted m, fun t ht => (h.ticks m t ht).2.1⟩
  · cases hticks : ticks m tr with
    | nil => exact ⟨0, fun t ht => absurd ht List.not_mem_nil⟩
    | cons first more =>
        refine ⟨first.worker, fun t ht => ?_⟩
        exact held_unique (h.puts_le hkept m) (h.ticks m t (hticks ▸ ht)).1
          (h.ticks m first (hticks ▸ List.mem_cons_self)).1
  · by_cases hticking : Ticking s m
    · have := (h.open_ m).1 hticking
      omega
    · have := (h.open_ m).2 hticking
      omega

/-- One of the two is being ticked when the run stops. -/
theorem two_added_ticked : ∃ s tr, run exec (.new 2 8 fun _ => 0) two_added = .ok (s, tr) ∧
    (ticks 2 tr).length = ended 2 tr + 1 ∧ (ticks 2 tr).length ≤ ended 2 tr + 1 ∧
    ∀ t ∈ ticks 2 tr, 1 ≤ t.elapsed_ms ∧ t.elapsed_ms ≤ 200 := by
  obtain ⟨⟨s, tr⟩, hrun, hopen⟩ := exists_ok_such (p := fun r =>
      decide ((ticks 2 r.2).length = ended 2 r.2 + 1))
    (x := run exec (.new 2 8 fun _ => 0) two_added) (by decide)
  obtain ⟨-, ⟨-, hle⟩, -, helapsed⟩ :=
    one_tick_at_a_time (reach_of_meets (C := Timely) (by decide) hrun) 2
  exact ⟨s, tr, hrun, of_decide_eq_true hopen, hle, helapsed⟩

/-! ## After a match is let go -/

/-- Whether the match is still in the copy of some pass. -/
def Due (s : RunningScheduler α) (m : α) : Prop := ∃ d ∈ s.drivers, m ∈ d.phase.due

theorem held_of_home (tr : List (DriverEvent α)) (h : home tr m = some i) : .held m i ∈ tr := by
  refine List.foldlRecOn (motive := fun home => ∀ i, home m = some i → DriverEvent.held m i ∈ tr)
    tr note_home (fun i hi => by cases hi) ?_ i h
  intro home hhome e he j hj
  cases e with
  | held m' worker =>
      change Function.update home m' (some worker) m = some j at hj
      by_cases hm : m = m'
      · subst hm
        rw [Function.update_self] at hj
        exact Option.some.inj hj ▸ he
      · rw [Function.update_of_ne hm] at hj
        exact hhome j hj
  | let_go m' worker =>
      change Function.update home m' none m = some j at hj
      by_cases hm : m = m'
      · subst hm
        rw [Function.update_self] at hj
        cases hj
      · rw [Function.update_of_ne hm] at hj
        exact hhome j hj
  | added m' => exact hhome j hj
  | begins m' worker now elapsed_ms => exact hhome j hj
  | ends m' worker => exact hhome j hj

/-- A copy has each match once, and its worker is the only one to have it. -/
theorem Turns.due {d d' : Driver α} {now : Int} (hturns : Turns i d now d' os)
    (hgone : m ∉ d.worker.matches_) (hnodup : d.phase.due.Nodup) :
    (m ∈ d'.phase.due → m ∈ d.phase.due) ∧
      (ticks m os = [] ∨ (ticks m os).length = 1 ∧ m ∈ d.phase.due ∧ m ∉ d'.phase.due) := by
  cases hturns with
  | idles _ lists load last before due current elapsed =>
      refine ⟨fun hm => ?_, .inl rfl⟩
      rw [due] at hm
      cases hm
  | reads => exact ⟨fun hm => absurd hm List.not_mem_nil, .inl rfl⟩
  | copies => exact ⟨fun hm => absurd hm hgone, .inl rfl⟩
  | begins m' elapsed_ms due before =>
      rw [before] at hnodup ⊢
      refine ⟨fun hm => List.mem_cons_of_mem _ hm, ?_⟩
      by_cases hm : m' = m
      · subst hm
        exact .inr ⟨by simp [ticks], List.mem_cons_self, (List.nodup_cons.mp hnodup).1⟩
      · exact .inl (by simp [ticks, hm])
  | ends m' elapsed_ms due before =>
      rw [before]
      exact ⟨id, .inl rfl⟩

/-- Every copy has each match once. -/
def Distinct (s : RunningScheduler α) : Prop := ∀ d ∈ s.drivers, d.phase.due.Nodup

theorem Kept.nodup (h : Kept s tr) {d : Driver α} (hd : d ∈ s.drivers) :
    d.worker.matches_.Nodup :=
  h.placed.nodup _ (List.mem_map_of_mem (List.mem_map_of_mem hd))

omit [DecidableEq α] in
theorem Turns.distinct {d d' : Driver α} {now : Int} (hturns : Turns i d now d' os)
    (hlist : d.worker.matches_.Nodup) (hdue : d.phase.due.Nodup) : d'.phase.due.Nodup := by
  cases hturns with
  | idles _ lists load last before due current elapsed =>
      rw [due]
      exact List.nodup_nil
  | reads => exact List.nodup_nil
  | copies => exact hlist
  | begins m' elapsed_ms due before =>
      rw [before] at hdue
      exact (List.nodup_cons.mp hdue).2
  | ends m' elapsed_ms due before =>
      rw [before] at hdue
      exact hdue

/-- What a step does to the copies, and says, of a match that is in no list. -/
structure Parts (s s' : RunningScheduler α) (os : List (DriverEvent α)) (m : α) : Prop where
  due : Due s' m → Due s m
  ticks : RunningScheduler.ticks m os = [] ∨
    (RunningScheduler.ticks m os).length = 1 ∧ Due s m ∧ ¬ Due s' m

/-- The threads stay where they are. -/
theorem copies_stay (hphases : s'.drivers.map Driver.phase = s.drivers.map Driver.phase)
    (hticks : ∀ m, ticks m os = []) (hdistinct : Distinct s) :
    Distinct s' ∧ ∀ m, home tr m = none → Parts s s' os m := by
  have hback : ∀ d' ∈ s'.drivers, ∃ d ∈ s.drivers, d'.phase = d.phase := by
    intro d' hd'
    obtain ⟨d, hd, hphase⟩ :=
      List.mem_map.mp (hphases ▸ List.mem_map_of_mem (f := Driver.phase) hd')
    exact ⟨d, hd, hphase.symm⟩
  refine ⟨fun d' hd' => ?_, fun m _ => ⟨fun ⟨d', hd', hm⟩ => ?_, .inl (hticks m)⟩⟩
  · obtain ⟨d, hd, hphase⟩ := hback d' hd'
    exact hphase ▸ hdistinct d hd
  · obtain ⟨d, hd, hphase⟩ := hback d' hd'
    exact ⟨d, hd, hphase ▸ hm⟩

omit [DecidableEq α] in
theorem phases_at_worker (s : RunningScheduler α) (worker : Nat) (f : Worker α → Worker α) :
    (s.at_worker worker f).drivers.map Driver.phase = s.drivers.map Driver.phase := by
  unfold at_worker
  refine List.ext_getElem? fun j => ?_
  dsimp only
  rw [List.getElem?_map, List.getElem?_map, List.getElem?_modify, Option.map_eq_map, Option.map_map]
  congr 1
  funext d
  dsimp only [Function.comp_apply]
  split_ifs
  · rfl
  · rfl

theorem phases_proceed (s : RunningScheduler α) (call : SchedulerCall α) :
    (s.proceed call).1.drivers.map Driver.phase = s.drivers.map Driver.phase := by
  cases call with
  | choosing m next chosen =>
      unfold proceed
      dsimp only
      split
      · rfl
      · split
        · rfl
        · exact phases_at_worker ..
  | counting m worker => exact phases_at_worker ..
  | owning m worker => rfl
  | erasing m owner =>
      unfold proceed
      dsimp only
      split_ifs
      · exact phases_at_worker ..
      · rfl
  | discounting owner => exact phases_at_worker ..
  | nudging worker => exact phases_at_worker ..

theorem parts_of_exec (h : Orderly s tr) (hkept : Kept s tr) (hdistinct : Distinct s)
    (hexec : exec s op = .ok (s', os)) :
    Distinct s' ∧ ∀ m, home tr m = none → Parts s s' os m := by
  cases exec_does hexec with
  | idle => exact copies_stay rfl (fun m => rfl) hdistinct
  | adds m' => exact copies_stay rfl (fun m => rfl) hdistinct
  | removes m' owner owned => exact copies_stay rfl (fun m => rfl) hdistinct
  | wakes m' worker => exact copies_stay rfl (fun m => rfl) hdistinct
  | stops => exact copies_stay rfl (fun m => rfl) hdistinct
  | goes_on i call here =>
      exact copies_stay (phases_proceed s call) (fun m => (proceed_events s call m).1) hdistinct
  | turns i now d d' os here turns =>
      have hmem : d ∈ s.drivers := List.mem_of_getElem? here
      have hi : i < s.drivers.length := (List.getElem?_eq_some_iff.mp here).1
      refine ⟨fun other hother => ?_, fun m hgone => ?_⟩
      · rcases List.mem_or_eq_of_mem_set hother with hold | rfl
        · exact hdistinct other hold
        · exact turns.distinct (hkept.nodup hmem) (hdistinct d hmem)
      have hnot : m ∉ d.worker.matches_ :=
        hkept.placed.nowhere hgone _ (List.mem_map_of_mem (List.mem_map_of_mem hmem))
      obtain ⟨hdue, hticks⟩ := turns.due hnot (hdistinct d hmem)
      refine ⟨fun ⟨other, hother, hm⟩ => ?_, ?_⟩
      · rcases List.mem_or_eq_of_mem_set hother with hold | rfl
        · exact ⟨other, hold, hm⟩
        · exact ⟨d, hmem, hdue hm⟩
      · refine hticks.imp_right fun ⟨hone, hbefore, hafter⟩ => ⟨hone, ⟨d, hmem, hbefore⟩, ?_⟩
        rintro ⟨other, hother, hm⟩
        obtain ⟨j, hj⟩ := List.getElem?_of_mem hother
        rw [List.getElem?_set] at hj
        split_ifs at hj with hij
        · obtain rfl := Option.some.inj hj
          exact hafter hm
        · -- the copies of two workers have no match in common
          exact hij (held_unique (h.puts_le hkept m) (h.due here m hbefore) (h.due hj m hm))

theorem home_stays (hgone : home tr m = none) (hputs : puts m os = 0) :
    home (tr ++ os) m = none := by
  rw [home_append]
  refine List.foldlRecOn (motive := fun home => home m = none) os note_home hgone ?_
  intro home hnone e he
  cases e with
  | held m' worker =>
      have hm : m ≠ m' := by
        rintro rfl
        exact List.countP_eq_zero.mp hputs _ he (decide_eq_true rfl)
      exact (Function.update_of_ne hm _ _).trans hnone
  | let_go m' worker =>
      by_cases hm : m = m'
      · subst hm
        exact Function.update_self ..
      · exact (Function.update_of_ne hm _ _).trans hnone
  | added m' => exact hnone
  | begins m' worker now elapsed_ms => exact hnone
  | ends m' worker => exact hnone

/-- A match is let go by the worker that has it. -/
theorem let_go_of_exec (hkept : Kept s tr) (hexec : exec s op = .ok (s', os)) {worker : Nat}
    (hmem : .let_go m worker ∈ os) : os = [.let_go m worker] ∧ home tr m = some worker := by
  cases exec_does hexec with
  | idle => cases hmem
  | adds m' => exact absurd (List.mem_singleton.mp hmem) nofun
  | removes m' owner owned => cases hmem
  | wakes m' worker => cases hmem
  | stops => cases hmem
  | turns i now d d' os here turns =>
      cases turns with
      | idles | reads | copies => cases hmem
      | begins | ends => exact absurd (List.mem_singleton.mp hmem) nofun
  | goes_on i call here =>
      cases call with
      | choosing m' next chosen =>
          unfold proceed at hmem
          dsimp only at hmem
          split at hmem
          · cases hmem
          · split at hmem
            · cases hmem
            · exact absurd (List.mem_singleton.mp hmem) nofun
      | counting | owning | discounting | nudging => cases hmem
      | erasing m' owner =>
          have hperm := calls_perm here
          rw [proceed, if_pos (hkept.erases hperm).1] at hmem ⊢
          obtain ⟨rfl, rfl⟩ := DriverEvent.let_go.inj (List.mem_singleton.mp hmem)
          exact ⟨rfl, (hkept.home_iff hperm m worker).mpr (.inr (.inl rfl))⟩

/-- A match that was let go is in no list, and no more than one tick of it is to come. -/
def Parted (s : RunningScheduler α) (tr : List (DriverEvent α)) (m : α) : Prop :=
  ∀ before worker after, tr = before ++ .let_go m worker :: after →
    home tr m = none ∧ .held m worker ∈ tr ∧
      (ticks m after = [] ∨ (ticks m after).length = 1 ∧ ¬ Due s m)

theorem Parted.exec (h : Parted s tr m) (hkept : Kept s tr) (hputs : puts m (tr ++ os) ≤ 1)
    (hexec : exec s op = .ok (s', os)) (hparts : home tr m = none → Parts s s' os m) :
    Parted s' (tr ++ os) m := by
  intro before worker after hsplit
  rcases List.append_eq_append_iff.mp hsplit with ⟨mid, hbefore, hos⟩ | ⟨mid, htr, hos⟩
  · -- let go by this step
    obtain ⟨hone, hhome⟩ :=
      let_go_of_exec hkept hexec (hos ▸ List.mem_append_right mid List.mem_cons_self)
    rw [hone] at hos ⊢
    have hlength := congrArg List.length hos
    rw [List.length_append, List.length_singleton, List.length_cons] at hlength
    have hafter : after = [] := List.length_eq_zero_iff.mp (by omega)
    refine ⟨?_, List.mem_append_left _ (held_of_home tr hhome), .inl (by rw [hafter]; rfl)⟩
    rw [home_append]
    exact Function.update_self ..
  · cases mid with
    | nil =>
        -- the same, at the seam
        rw [List.append_nil] at htr
        obtain ⟨hone, hhome⟩ := let_go_of_exec hkept hexec (hos ▸ List.mem_cons_self)
        rw [hone] at hos ⊢
        obtain ⟨-, rfl⟩ := List.cons.inj hos
        refine ⟨?_, List.mem_append_left _ (held_of_home tr hhome), .inl rfl⟩
        rw [home_append]
        exact Function.update_self ..
    | cons e mid =>
        obtain ⟨rfl, rfl⟩ := List.cons.inj hos
        obtain ⟨hgone, hheld, hticks⟩ := h before worker mid htr
        have hmore : puts m os = 0 := by
          have hpos : 0 < puts m tr := List.countP_pos_iff.mpr ⟨_, hheld, decide_eq_true rfl⟩
          rw [puts_append] at hputs
          omega
        obtain ⟨hdue, hnew⟩ := hparts hgone
        refine ⟨home_stays hgone hmore, List.mem_append_left _ hheld, ?_⟩
        show ticks m (mid ++ os) = [] ∨ (ticks m (mid ++ os)).length = 1 ∧ _
        rw [ticks_append]
        rcases hticks with hnone | ⟨hone, hnot⟩
        · rw [hnone, List.nil_append]
          exact hnew.imp_right fun hnew => ⟨hnew.1, hnew.2.2⟩
        · rcases hnew with hnew | ⟨-, hstill, -⟩
          · rw [hnew, List.append_nil]
            exact .inr ⟨hone, fun hs' => hnot (hdue hs')⟩
          · exact absurd hstill hnot

/-- **A match that is let go is let be.** Once `remove` has taken a match out of its list,
at most one more tick of it begins, of a pass that was under way, and on the worker that
had it, whatever else is called. -/
theorem let_go_is_let_be {worker_count hardware_concurrency : Nat} {started_at : Nat → Int}
    (hrun : Reach exec Timely (.new worker_count hardware_concurrency started_at) s tr)
    {before after : List (DriverEvent α)} {worker : Nat}
    (hsplit : tr = before ++ .let_go m worker :: after) :
    (ticks m after).length ≤ 1 ∧ ∀ t ∈ ticks m after, t.worker = worker := by
  have hparted : Distinct s ∧ ∀ m, Parted s tr m := by
    refine hrun.invariant (P := fun s tr => Distinct s ∧ ∀ m, Parted s tr m) ⟨?_, ?_⟩ ?_
    · intro d hd
      obtain ⟨i, hi⟩ := List.getElem?_of_mem hd
      rw [driver_new hi]
      exact List.nodup_nil
    · intro m before worker after hnil
      exact absurd hnil (by simp)
    · rintro s tr op s' os hr ⟨hdistinct, h⟩ htimely hexec
      have hkept := kept_of_reach (hr.mono fun _ _ _ htimely => htimely.1)
      have hnext := hr.step htimely hexec
      obtain ⟨hdistinct', hparts⟩ :=
        parts_of_exec (orderly_of_reach hr) hkept hdistinct hexec
      refine ⟨hdistinct', fun m => (h m).exec hkept ?_ hexec (hparts m)⟩
      exact (orderly_of_reach hnext).puts_le
        (kept_of_reach (hnext.mono fun _ _ _ htimely => htimely.1)) m
  have h := orderly_of_reach hrun
  have hkept := kept_of_reach (hrun.mono fun _ _ _ htimely => htimely.1)
  obtain ⟨-, hheld, hticks⟩ := hparted.2 m before worker after hsplit
  refine ⟨?_, fun t ht => ?_⟩
  · rcases hticks with hnone | ⟨hone, -⟩
    · rw [hnone]
      exact Nat.zero_le 1
    · exact hone.le
  · have hmem : t ∈ ticks m tr := by
      rw [hsplit, ← List.singleton_append, ticks_append, ticks_append]
      exact List.mem_append_right _ (List.mem_append_right _ ht)
    exact held_unique (h.puts_le hkept m) (h.ticks m t hmem).1 hheld

/-- The match is ticked once more, since it was in the copy. -/
theorem two_added_parts : ∃ s tr before after,
    run exec (.new 2 8 fun _ => 0) two_added = .ok (s, tr) ∧
    tr = before ++ .let_go 2 0 :: after ∧ (ticks 2 after).length = 1 ∧
    (ticks 2 after).length ≤ 1 ∧ ∀ t ∈ ticks 2 after, t.worker = 0 := by
  obtain ⟨⟨s, tr⟩, hrun, hp⟩ := exists_ok_such (p := fun r => decide (r.2 = r.2.take 5 ++
      .let_go 2 0 :: r.2.drop 6 ∧ (ticks 2 (r.2.drop 6)).length = 1))
    (x := run exec (.new 2 8 fun _ => 0) two_added) (by decide)
  obtain ⟨hsplit, hone⟩ := of_decide_eq_true hp
  have hreach := reach_of_meets (C := Timely) (by decide) hrun
  exact ⟨s, tr, _, _, hrun, hsplit, hone, let_go_is_let_be hreach hsplit⟩

end RunningScheduler

end KungFuChess
