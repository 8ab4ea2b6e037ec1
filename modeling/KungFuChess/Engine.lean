/-
The **command boundary**: `kfc/engine/game_engine.cpp`, `game_core.hpp` and
`kfc/realtime/game_over_observer.cpp`.

`GameEngine` holds the arbiter, the motion factory and the game-over latch; the
board is the arbiter's. Its three entry points are the three commands of a step
machine (`exec`), whose outputs are the arrival events `wait` returns, so a run
of the game is a `Machine.Reach` of `exec` and its trace is the list of all
events so far.
-/
import KungFuChess.Arbiter
import KungFuChess.BoardParser
import KungFuChess.Rules

set_option autoImplicit false

namespace KungFuChess

open Machine

/-- The answer to a request, with the reason. -/
structure MoveResult where
  is_accepted : Bool
  reason : String
deriving DecidableEq, Repr

/-! ## `game_engine.cpp` -/

/-- The arbiter, the motions' times, and whether a king has been taken. -/
structure GameEngine where
  arbiter : RealTimeArbiter
  motion_factory : MotionFactory
  game_over : Bool

namespace GameEngine

/-- A game on a board nothing has happened on. -/
def new (f : MotionFactory) (board : Board) : GameEngine := ⟨.new board, f, false⟩

/-- The board is the arbiter's. -/
abbrev board (g : GameEngine) : Board := g.arbiter.board

/-- A move is refused once the game is over, for an empty source, for a piece that is busy,
and by the rules, in this order; otherwise its motion starts. -/
def request_move (g : GameEngine) (source destination : Position) :
    Except BoardError (GameEngine × MoveResult) :=
  if g.game_over then
    return (g, ⟨false, move_reasons.kGameOver⟩)
  else
    match g.board.piece_at source with
    | none =>
        -- nothing to be busy; the rules refuse the empty source below
        return (g, ⟨false, (validate_move g.board source destination).reason⟩)
    | some moving =>
        if g.arbiter.is_piece_busy moving.id then
          return (g, ⟨false, move_reasons.kMotionInProgress⟩)
        else
          -- the rules are asked last, of a piece that is free to go
          let validation := validate_move g.board source destination
          if ¬ validation.is_valid then
            return (g, ⟨false, validation.reason⟩)
          else do
            let motion := g.motion_factory.create_move moving source destination
            let arbiter ← g.arbiter.start_motion motion
            return ({ g with arbiter := arbiter }, ⟨true, move_reasons.kOk⟩)

/-- A jump needs a piece that is not busy. -/
def request_jump (g : GameEngine) (cell : Position) :
    Except BoardError (GameEngine × MoveResult) :=
  if g.game_over then
    return (g, ⟨false, move_reasons.kGameOver⟩)
  else
    match g.board.piece_at cell with
    | none => return (g, ⟨false, move_reasons.kEmptySource⟩)
    | some piece =>
        if g.arbiter.is_piece_busy piece.id then
          return (g, ⟨false, move_reasons.kMotionInProgress⟩)
        else do
          let motion := g.motion_factory.create_jump piece cell
          let arbiter ← g.arbiter.start_motion motion
          return ({ g with arbiter := arbiter }, ⟨true, move_reasons.kOk⟩)

/-- Time passes unless the game is over; a captured king ends it. -/
def wait (g : GameEngine) (ms : Int) : Except BoardError (GameEngine × List ArrivalEvent) :=
  if g.game_over then
    return (g, [])
  else do
    let (arbiter, events) ← g.arbiter.advance_time ms
    -- the deciding batch is still returned in full
    return ({ g with arbiter := arbiter, game_over := events.any captured_a_king }, events)

/-! ## Runs -/

/-- The three entry points, as the inputs of a step machine. Waiting takes a
non-negative time, as every caller in the repository passes. -/
inductive Command
  | request_move (source destination : Position)
  | request_jump (cell : Position)
  | wait (ms : Nat)
deriving DecidableEq, Repr

/-- One command; the outputs are the arrivals it produced. -/
def exec : Step GameEngine Command ArrivalEvent BoardError
  | g, .request_move source destination => do
      let (g, _) ← g.request_move source destination
      return (g, [])
  | g, .request_jump cell => do
      let (g, _) ← g.request_jump cell
      return (g, [])
  | g, .wait ms => g.wait ms

end GameEngine

/-! ## `game_over_observer.cpp` -/

/-- Who has won, and when the winning king was taken. -/
structure GameOverObserver where
  winner : Option PieceColor := none
  winner_decided_at_ms : Int := 0
  draw : Bool := false
deriving DecidableEq, Repr

namespace GameOverObserver

/-- Only the capture of a king decides anything. -/
def on_arrival (o : GameOverObserver) (event : ArrivalEvent) : GameOverObserver :=
  -- a draw is final; so is a winner, but for a king taken at the same time
  if o.draw ∨ ¬ captured_a_king event then
    o
  else
    match o.winner with
    | none => { o with
        winner := some event.moved_piece.color
        winner_decided_at_ms := event.arrived_at_ms }
    | some winner =>
        if winner ≠ event.moved_piece.color ∧ event.arrived_at_ms = o.winner_decided_at_ms then
          { o with winner := none, draw := true }
        else
          o

def is_game_over (o : GameOverObserver) : Bool := o.draw || o.winner.isSome

end GameOverObserver

/-! ## The shipped configuration -/

/-- `gameplay.json`: 0.6 m per cell at 1.5 m/s (1.0 m/s for a drone), 2500 ms of
rest after a move and 834 ms after a jump. Rounding makes one cell 399 ms, two 799 ms
and three 1200 ms. -/
def shipped_factory : MotionFactory where
  move_duration_ms kind steps :=
    duration_at (.nearest 3 5) (if kind = .Drone then .nearest 1 1 else .nearest 3 2) steps
  standard_cooldown_ms := 2500
  jump_cooldown_ms := 834

end KungFuChess
