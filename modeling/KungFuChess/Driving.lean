/-
**The scheduler at work**: `kfc/server/match_scheduler.cpp`, with its threads.

`Scheduler` takes a call as one step. In the source a call takes and gives up several
locks, and reads and writes atomics in between; other calls go on meanwhile, and so do
the workers, each in its own thread, which copy their list under their lock and tick
what they copied without it. Here a step is one critical section, one access to an
atomic, or the beginning or the end of one `Match::tick`.

A call that is still under way is a `SchedulerCall`, and where a worker's thread is in
`run` is its `Phase`. Times are in nanoseconds of the steady clock. What happens is
recorded as it happens (`DriverEvent`): a match goes into a list and comes out of it, a
tick begins and ends.
-/
import KungFuChess.Arbiter
import KungFuChess.Machine
import KungFuChess.Scheduler

set_option autoImplicit false

namespace KungFuChess

open Machine MatchScheduler

variable {α : Type}

/-- A tick is told that at least this has passed. -/
def kMinTickAdvanceMs : Int := 1
/-- And at most this. -/
def kMaxTickAdvanceMs : Int := 200

def kMillisecond : Int := 1000000

/-- Where a worker's thread is in `run`. -/
inductive Phase (α : Type)
  /-- In `wait_for`. -/
  | waiting
  /-- The wait is over. -/
  | awake
  /-- The clock is read, and nothing copied yet. -/
  | timed (elapsed_ms : Int)
  /-- Between two ticks; the matches still to be ticked. -/
  | passing (elapsed_ms : Int) (due : List α)
  /-- In `Match::tick`. -/
  | ticking (m : α) (elapsed_ms : Int) (due : List α)
  | stopped
deriving DecidableEq, Repr

/-- A worker with its thread. In a pass, `now` is `last_tick_at`. -/
structure Driver (α : Type) where
  worker : Worker α := {}
  last_tick_at : Int
  phase : Phase α := .waiting
deriving DecidableEq, Repr

/-- What a call still has to do. -/
inductive SchedulerCall (α : Type)
  /-- `add`: the next load to read, and the least so far; then the list of the worker
  chosen, its load, and `owners_`. -/
  | choosing (m : α) (next : Nat) (chosen : Option (Nat × Nat))
  | counting (m : α) (worker : Nat)
  | owning (m : α) (worker : Nat)
  /-- `remove`, which has taken the match out of `owners_`. -/
  | erasing (m : α) (owner : Nat)
  | discounting (owner : Nat)
  /-- `wake`. -/
  | nudging (worker : Nat)
deriving DecidableEq, Repr

/-- What can be seen of the scheduler: calls taking effect, and ticks. -/
inductive DriverEvent (α : Type)
  | added (m : α)
  | held (m : α) (worker : Nat)
  | let_go (m : α) (worker : Nat)
  | begins (m : α) (worker : Nat) (now elapsed_ms : Int)
  | ends (m : α) (worker : Nat)
deriving DecidableEq, Repr

/-- The workers with their threads, and the calls under way. -/
structure RunningScheduler (α : Type) where
  drivers : List (Driver α)
  owners : α → Option Nat := fun _ => none
  calls : List (SchedulerCall α) := []
  running : Bool := true

namespace RunningScheduler

/-- The workers of `new`, whose threads have each read the clock once, when they started. -/
def new (worker_count hardware_concurrency : Nat) (started_at : Nat → Int) :
    RunningScheduler α where
  drivers := (MatchScheduler.new worker_count hardware_concurrency).workers.mapIdx fun i w =>
    { worker := w, last_tick_at := started_at i }

def workers (s : RunningScheduler α) : List (Worker α) := s.drivers.map Driver.worker

theorem workers_new (worker_count hardware_concurrency : Nat) (started_at : Nat → Int) :
    (new (α := α) worker_count hardware_concurrency started_at).workers
      = (MatchScheduler.new worker_count hardware_concurrency).workers := by
  refine List.ext_getElem? fun i => ?_
  unfold workers new
  rw [List.getElem?_map, List.getElem?_mapIdx, Option.map_map]
  exact Option.map_id'

/-- A thread that has just started. -/
theorem driver_new {worker_count hardware_concurrency : Nat} {started_at : Nat → Int} {i : Nat}
    {d : Driver α}
    (h : (new worker_count hardware_concurrency started_at).drivers[i]? = some d) :
    d = { last_tick_at := started_at i } := by
  unfold new at h
  rw [List.getElem?_mapIdx] at h
  obtain ⟨w, hw, rfl⟩ := Option.map_eq_some_iff.mp h
  have hfresh := List.eq_of_mem_replicate (List.mem_of_getElem? hw)
  rw [hfresh]

/-- A change of one worker, under its lock. -/
def at_worker (s : RunningScheduler α) (i : Nat) (f : Worker α → Worker α) : RunningScheduler α :=
  { s with drivers := s.drivers.modify i fun d => { d with worker := f d.worker } }

def with_calls (s : RunningScheduler α) (calls : List (SchedulerCall α)) : RunningScheduler α :=
  { s with calls := calls }

def then_calls (s : RunningScheduler α) (call : SchedulerCall α) : RunningScheduler α :=
  s.with_calls (s.calls ++ [call])

/-- The next part of the thread of worker `i`; `now` is what it reads if it reads the
clock. -/
def turn (i : Nat) (running : Bool) (d : Driver α) (now : Int) : Driver α × List (DriverEvent α) :=
  match d.phase with
  -- the interval is over, or somebody has nudged
  | .waiting => ({ d with worker := { d.worker with nudged := false }, phase := .awake }, [])
  | .awake =>
      if running then
        ({ d with
          last_tick_at := now
          phase := .timed (RealTimeArbiter.clamp
            -- `static_cast<int>`, of the milliseconds counted
            (((now - d.last_tick_at).tdiv kMillisecond).bmod (2 ^ 32))
            kMinTickAdvanceMs kMaxTickAdvanceMs) }, [])
      else
        ({ d with phase := .stopped }, [])
  | .timed elapsed_ms => ({ d with phase := .passing elapsed_ms d.worker.matches_ }, [])
  | .passing _ [] => ({ d with phase := if running then .waiting else .stopped }, [])
  | .passing elapsed_ms (m :: due) =>
      ({ d with phase := .ticking m elapsed_ms due }, [.begins m i d.last_tick_at elapsed_ms])
  | .ticking m elapsed_ms due => ({ d with phase := .passing elapsed_ms due }, [.ends m i])
  | .stopped => (d, [])

inductive Op (α : Type)
  | add (m : Option α)
  | remove (m : Option α)
  | wake (m : Option α)
  /-- A call goes on. -/
  | go_on (i : Nat)
  /-- The thread of a worker goes on. -/
  | turn (i : Nat) (now : Int)
  /-- `running_.store(false)`. -/
  | stop
deriving DecidableEq, Repr

variable [DecidableEq α]

/-- The next part of a call, and what is left of it. -/
def proceed (s : RunningScheduler α) :
    SchedulerCall α → RunningScheduler α × List (SchedulerCall α) × List (DriverEvent α)
  | .choosing m next chosen =>
      match s.drivers[next]? with
      | some d => (s, [.choosing m (next + 1) (weigh chosen (d.worker, next))], [])
      | none =>
          match chosen with
          | none => (s, [], [])
          | some (worker, _) =>
              (s.at_worker worker fun w => { w with matches_ := w.matches_ ++ [m] },
                [.counting m worker], [.held m worker])
  | .counting m worker =>
      (s.at_worker worker fun w => { w with load := w.load + 1 }, [.owning m worker], [])
  | .owning m worker => ({ s with owners := Function.update s.owners m (some worker) }, [], [])
  | .erasing m owner =>
      if s.drivers[owner]?.any fun d => m ∈ d.worker.matches_ then
        (s.at_worker owner fun w => { w with matches_ := w.matches_.erase m },
          [.discounting owner], [.let_go m owner])
      else
        (s, [], [])
  | .discounting owner => (s.at_worker owner fun w => { w with load := w.load - 1 }, [], [])
  | .nudging worker => (s.at_worker worker nudge, [], [])

def exec : Step (RunningScheduler α) (Op α) (DriverEvent α) Empty
  | s, .add none => return (s, [])
  | s, .add (some m) => return (s.then_calls (.choosing m 0 none), [.added m])
  | s, .remove none => return (s, [])
  | s, .remove (some m) =>
      match s.owners m with
      | none => return (s, [])
      | some owner =>
          return ({ s with owners := Function.update s.owners m none }.then_calls
            (.erasing m owner), [])
  | s, .wake m =>
      match m.bind s.owners with
      | none => return (s, [])
      | some worker => return (s.then_calls (.nudging worker), [])
  | s, .go_on i =>
      match s.calls[i]? with
      | none => return (s, [])
      | some call =>
          let (s', left, os) := s.proceed call
          return (s'.with_calls (s.calls.eraseIdx i ++ left), os)
  | s, .turn i now =>
      match s.drivers[i]? with
      | none => return (s, [])
      | some d =>
          let (d', os) := turn i s.running d now
          return ({ s with drivers := s.drivers.set i d' }, os)
  | s, .stop => return ({ s with running := false }, [])

/-! ## What a step can do -/

end RunningScheduler

/-- The matches a thread is still to tick in its pass. -/
def Phase.due : Phase α → List α
  | .passing _ due => due
  | .ticking _ _ due => due
  | _ => []

/-- The match a thread is ticking. -/
def Phase.current : Phase α → Option α
  | .ticking m _ _ => some m
  | _ => none

def Phase.elapsed : Phase α → Option Int
  | .timed elapsed_ms => some elapsed_ms
  | .passing elapsed_ms _ => some elapsed_ms
  | .ticking _ elapsed_ms _ => some elapsed_ms
  | _ => none

namespace RunningScheduler

/-- What a thread does next. -/
inductive Turns (i : Nat) (d : Driver α) (now : Int) : Driver α → List (DriverEvent α) → Prop
  /-- Nothing that matters to a match. -/
  | idles (d' : Driver α) (matches_ : d'.worker.matches_ = d.worker.matches_)
      (load : d'.worker.load = d.worker.load) (last_tick_at : d'.last_tick_at = d.last_tick_at)
      (before : d.phase.current = none) (due : d'.phase.due = [])
      (current : d'.phase.current = none) (elapsed : d'.phase.elapsed = none) : Turns i d now d' []
  | reads (elapsed_ms : Int) (before : d.phase.current = none)
      (least : kMinTickAdvanceMs ≤ elapsed_ms) (most : elapsed_ms ≤ kMaxTickAdvanceMs)
      (clock : d.phase = .awake) :
      Turns i d now { d with last_tick_at := now, phase := .timed elapsed_ms } []
  | copies (elapsed_ms : Int) (before : d.phase = .timed elapsed_ms) :
      Turns i d now { d with phase := .passing elapsed_ms d.worker.matches_ } []
  | begins (m : α) (elapsed_ms : Int) (due : List α)
      (before : d.phase = .passing elapsed_ms (m :: due)) :
      Turns i d now { d with phase := .ticking m elapsed_ms due }
        [.begins m i d.last_tick_at elapsed_ms]
  | ends (m : α) (elapsed_ms : Int) (due : List α) (before : d.phase = .ticking m elapsed_ms due) :
      Turns i d now { d with phase := .passing elapsed_ms due } [.ends m i]

/-- **The inversion of a turn** of a thread. -/
theorem turn_turns (i : Nat) (running : Bool) (d : Driver α) (now : Int) :
    Turns i d now (turn i running d now).1 (turn i running d now).2 := by
  have hclamp : ∀ v, kMinTickAdvanceMs ≤ RealTimeArbiter.clamp v kMinTickAdvanceMs kMaxTickAdvanceMs
      ∧ RealTimeArbiter.clamp v kMinTickAdvanceMs kMaxTickAdvanceMs ≤ kMaxTickAdvanceMs := by
    intro v
    unfold RealTimeArbiter.clamp kMinTickAdvanceMs kMaxTickAdvanceMs
    split_ifs <;> omega
  unfold turn
  cases hphase : d.phase with
  | waiting => exact .idles _ rfl rfl rfl (by rw [hphase]; rfl) rfl rfl rfl
  | awake =>
      cases running with
      | false => exact .idles _ rfl rfl rfl (by rw [hphase]; rfl) rfl rfl rfl
      | true => exact .reads _ (by rw [hphase]; rfl) (hclamp _).1 (hclamp _).2 hphase
  | timed elapsed_ms => exact .copies elapsed_ms hphase
  | passing elapsed_ms due =>
      cases due with
      | nil =>
          cases running with
          | false => exact .idles _ rfl rfl rfl (by rw [hphase]; rfl) rfl rfl rfl
          | true => exact .idles _ rfl rfl rfl (by rw [hphase]; rfl) rfl rfl rfl
      | cons m due => exact .begins m elapsed_ms due hphase
  | ticking m elapsed_ms due => exact .ends m elapsed_ms due hphase
  | stopped =>
      exact .idles _ rfl rfl rfl (by rw [hphase]; rfl) (by rw [hphase]; rfl) (by rw [hphase]; rfl)
        (by rw [hphase]; rfl)

variable [DecidableEq α]

/-- Everything a step can do. -/
inductive Does (s : RunningScheduler α) :
    Op α → RunningScheduler α → List (DriverEvent α) → Prop
  | idle (op : Op α) : Does s op s []
  | adds (m : α) : Does s (.add (some m)) (s.then_calls (.choosing m 0 none)) [.added m]
  | removes (m : α) (owner : Nat) (owned : s.owners m = some owner) :
      Does s (.remove (some m))
        ({ s with owners := Function.update s.owners m none }.then_calls (.erasing m owner)) []
  | wakes (m : Option α) (worker : Nat) : Does s (.wake m) (s.then_calls (.nudging worker)) []
  | goes_on (i : Nat) (call : SchedulerCall α) (here : s.calls[i]? = some call) :
      Does s (.go_on i) ((s.proceed call).1.with_calls (s.calls.eraseIdx i ++ (s.proceed call).2.1))
        (s.proceed call).2.2
  | turns (i : Nat) (now : Int) (d d' : Driver α) (os : List (DriverEvent α))
      (here : s.drivers[i]? = some d) (turns : Turns i d now d' os) :
      Does s (.turn i now) { s with drivers := s.drivers.set i d' } os
  | stops : Does s .stop { s with running := false } []

/-- The only place where `exec` is unfolded. -/
theorem exec_does {s s' : RunningScheduler α} {op : Op α} {os : List (DriverEvent α)}
    (h : exec s op = .ok (s', os)) : Does s op s' os := by
  match op with
  | .add none | .remove none =>
      obtain ⟨rfl, rfl⟩ := Prod.mk.inj (Except.ok.inj h)
      exact .idle _
  | .add (some m) =>
      obtain ⟨rfl, rfl⟩ := Prod.mk.inj (Except.ok.inj h)
      exact .adds m
  | .remove (some m) =>
      unfold exec at h
      dsimp only at h
      split at h
      · obtain ⟨rfl, rfl⟩ := Prod.mk.inj (Except.ok.inj h)
        exact .idle _
      · rename_i owner howner
        obtain ⟨rfl, rfl⟩ := Prod.mk.inj (Except.ok.inj h)
        exact .removes m owner howner
  | .wake m =>
      unfold exec at h
      dsimp only at h
      split at h
      · obtain ⟨rfl, rfl⟩ := Prod.mk.inj (Except.ok.inj h)
        exact .idle _
      · rename_i worker hworker
        obtain ⟨rfl, rfl⟩ := Prod.mk.inj (Except.ok.inj h)
        exact .wakes m worker
  | .go_on i =>
      unfold exec at h
      dsimp only at h
      split at h
      · obtain ⟨rfl, rfl⟩ := Prod.mk.inj (Except.ok.inj h)
        exact .idle _
      · rename_i call here
        obtain ⟨rfl, rfl⟩ := Prod.mk.inj (Except.ok.inj h)
        exact .goes_on i call here
  | .turn i now =>
      unfold exec at h
      dsimp only at h
      split at h
      · obtain ⟨rfl, rfl⟩ := Prod.mk.inj (Except.ok.inj h)
        exact .idle _
      · rename_i d here
        obtain ⟨rfl, rfl⟩ := Prod.mk.inj (Except.ok.inj h)
        exact .turns i now d _ _ here (turn_turns i s.running d now)
  | .stop =>
      obtain ⟨rfl, rfl⟩ := Prod.mk.inj (Except.ok.inj h)
      exact .stops

end RunningScheduler

end KungFuChess
