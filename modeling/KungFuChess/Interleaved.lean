/-
**A tick in pieces.**

`Joiner` takes the critical section of a tick in one step. The audience has a mutex of
its own, though: a connection may register between two commands, and is then sent only
the motions that start after it. Here the section is cut where another thread can come in.
The queue is swapped out, the state is read, `board_mutex_` is taken, one command after
the other is applied and what it starts is broadcast, and when the time has passed the
mutex is given up. Everything else is a step of the `Joiner`, but a snapshot waits for
the mutex. `advance_in_pieces` puts the pieces together again.
-/
import KungFuChess.Delivery

set_option autoImplicit false

namespace KungFuChess

open Machine

/-- How far a tick has got that has not given up the board. -/
inductive CriticalSection
  | drained (now : Int) (elapsed_ms : Nat) (pending : List (PieceColor × ClientMessage))
  | decided (now : Int) (elapsed_ms : Nat) (pending : List (PieceColor × ClientMessage))
      (should_advance : Bool)
  /-- `board_mutex_` is held. -/
  | locked (now : Int) (elapsed_ms : Nat) (pending : List (PieceColor × ClientMessage))
      (should_advance : Bool)
deriving DecidableEq, Repr

structure Interleaved where
  joiner : Joiner
  critical : Option CriticalSection := none

namespace Interleaved

/-- The snapshot of a join has to wait. -/
def holds_board (s : Interleaved) : Bool :=
  match s.critical with
  | some (.locked _ _ _ _) => true
  | _ => false

inductive Label
  | drain (now : Int) (elapsed_ms : Nat)
  | read_state
  | lock
  | apply
  | let_time_pass
  /-- The steps of the other threads, and of a tick behind its critical section. -/
  | joiner (label : Joiner.Label)
deriving DecidableEq, Repr

/-- One step. A thread with nothing to do at this point leaves the state alone. -/
def exec : Step Interleaved Label Seen BoardError
  | s, .drain now elapsed_ms =>
      match s.critical, s.joiner.tick with
      | none, .idle =>
          return ({
            joiner := s.joiner.hears (s.joiner.server.drain, [])
            critical := some (.drained now elapsed_ms s.joiner.server.queue) }, [])
      | _, _ => return (s, [])
  | s, .read_state =>
      match s.critical with
      | some (.drained now elapsed_ms pending) =>
          -- read before the commands, so a resign does not stop the clock of its own tick
          let should_advance := decide (s.joiner.server.state = .Running)
          return ({ s with critical := some (.decided now elapsed_ms pending should_advance) }, [])
      | _ => return (s, [])
  | s, .lock =>
      match s.critical with
      | some (.decided now elapsed_ms pending should_advance) =>
          return ({ s with critical := some (.locked now elapsed_ms pending should_advance) }, [])
      | _ => return (s, [])
  | s, .apply =>
      match s.critical with
      | some (.locked now elapsed_ms (command :: pending) should_advance) => do
          let r ← s.joiner.server.apply command.1 command.2
          return ({
            joiner := s.joiner.hears r
            critical := some (.locked now elapsed_ms pending should_advance) }, [])
      | _ => return (s, [])
  | s, .let_time_pass =>
      match s.critical with
      | some (.locked now elapsed_ms [] true) => do
          let (m, events) ← s.joiner.server.let_time_pass elapsed_ms
          return ({
            joiner := { s.joiner with server := m, tick := .advanced now events m.revision }
            critical := none },
            if events.isEmpty then [] else [.updated ⟨events, m.revision⟩])
      | some (.locked now _ [] false) =>
          return ({
            joiner := { s.joiner with tick := .advanced now [] s.joiner.server.revision }
            critical := none }, [])
      | _ => return (s, [])
  -- the way of the worker is the one above
  | s, .joiner (.advance _ _) => return (s, [])
  | s, .joiner .snapshot =>
      if s.holds_board then return (s, [])
      else do
        let (joiner, os) ← s.joiner.exec .snapshot
        return ({ s with joiner := joiner }, os)
  | s, .joiner label => do
      let (joiner, os) ← s.joiner.exec label
      return ({ s with joiner := joiner }, os)

/-- The condition on a step: others act on connections of their own. -/
def OthersElsewhere (s : Interleaved) (tr : List Seen) : Label → Prop
  | .joiner label => Joiner.OthersElsewhere s.joiner tr label
  | _ => True

instance (s : Interleaved) (tr : List Seen) : ∀ label, Decidable (OthersElsewhere s tr label)
  | .joiner label => inferInstanceAs (Decidable (Joiner.OthersElsewhere s.joiner tr label))
  | .drain _ _ | .read_state | .lock | .apply | .let_time_pass => .isTrue trivial

/-- A match that has just been opened, and a connection that is not in it. -/
def initial (m : Match) (connection : Connection) : Interleaved :=
  { joiner := { connection := connection, server := m } }

/-! ## The pieces, one after another -/

theorem hears_hears (s : Joiner) (m m' : Match) (os os' : List MatchEvent) :
    (s.hears (m, os)).hears (m', os') = s.hears (m', os ++ os') := by
  unfold Joiner.hears
  simp only [Joiner.delivered_append, List.append_assoc]

/-- The commands, one by one. -/
theorem run_apply (now : Int) (elapsed_ms : Nat) (should_advance : Bool)
    (pending : List (PieceColor × ClientMessage)) : ∀ (joiner : Joiner)
    {m' : Match} {answers : List MatchEvent},
    run Match.apply_all joiner.server pending = .ok (m', answers) →
      run exec ⟨joiner, some (.locked now elapsed_ms pending should_advance)⟩
          (List.replicate pending.length .apply)
        = .ok (⟨joiner.hears (m', answers),
            some (.locked now elapsed_ms [] should_advance)⟩, []) := by
  induction pending with
  | nil =>
      intro joiner m' answers h
      obtain ⟨rfl, rfl⟩ := Prod.mk.inj (Except.ok.inj h)
      simp [run, Joiner.hears, Joiner.delivered]
  | cons command pending ih =>
      intro joiner m' answers h
      obtain ⟨m₁, os₁, os₂, hone, hrun, rfl⟩ := run_cons_ok_iff.mp h
      have happly : exec ⟨joiner, some (.locked now elapsed_ms (command :: pending) should_advance)⟩
          .apply = .ok (⟨joiner.hears (m₁, os₁),
            some (.locked now elapsed_ms pending should_advance)⟩, []) := by
        unfold exec
        exact (bind_ok_iff _ _ _).mpr ⟨_, hone, rfl⟩
      have hlater := ih (joiner.hears (m₁, os₁)) hrun
      rw [hears_hears] at hlater
      exact run_append (run_singleton happly) hlater

/-- **With no other thread in between, the pieces are `advance`.** -/
theorem advance_in_pieces {now : Int} {elapsed_ms : Nat} {joiner joiner' : Joiner}
    {os : List Seen} (hidle : joiner.tick = .idle)
    (h : joiner.exec (.advance now elapsed_ms) = .ok (joiner', os)) :
    run exec ⟨joiner, none⟩ ([.drain now elapsed_ms, .read_state, .lock]
        ++ List.replicate joiner.server.queue.length .apply ++ [.let_time_pass])
      = .ok (⟨joiner', none⟩, os) := by
  unfold Joiner.exec at h
  dsimp only at h
  rw [hidle] at h
  obtain ⟨⟨m, answers, events⟩, hadv, hret⟩ := (bind_ok_iff _ _ _).mp h
  obtain ⟨rfl, rfl⟩ := Prod.mk.inj (Except.ok.inj hret)
  obtain ⟨m₁, hrun, hcases⟩ := Match.advance_board_cases hadv
  have hopen : run exec ⟨joiner, none⟩ [.drain now elapsed_ms, .read_state, .lock]
      = .ok (⟨joiner.hears (joiner.server.drain, []), some (.locked now elapsed_ms
          joiner.server.queue (decide (joiner.server.state = .Running)))⟩, []) := by
    simp only [run, exec, hidle]
    rfl
  have happly := run_apply now elapsed_ms (decide (joiner.server.state = .Running))
    joiner.server.queue (joiner.hears (joiner.server.drain, [])) hrun
  rw [hears_hears, List.nil_append] at happly
  refine run_append (run_append hopen happly) (run_singleton ?_)
  rcases hcases with ⟨hstate, htime⟩ | ⟨hstate, rfl, rfl⟩
  · rw [decide_eq_true hstate]
    exact (bind_ok_iff _ _ _).mpr ⟨_, htime, rfl⟩
  · rw [decide_eq_false hstate]
    rfl

end Interleaved

end KungFuChess
