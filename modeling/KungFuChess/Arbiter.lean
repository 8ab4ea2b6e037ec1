/-
The **real-time core**: `kfc/realtime/motion.hpp`, `motion_factory.cpp`,
`collision_resolver.cpp`, `pawn_promotion.hpp`, `arrival_event.hpp` and
`real_time_arbiter.cpp`.

A `RealTimeArbiter` here owns the board the source's arbiter holds a reference
to, so one value is the whole simulation state: board, motions in flight,
cooldowns and the clock. The clock has 64 bits and every other number of
milliseconds is an `int`. What a motion has been under way, and what it still
has to go, can leave the range of an `int`, and wrap (`to_int`); a rest less a
wait cannot, since neither is negative (`RealTimeArbiter.Bounded.fits`), and is
a difference of whole numbers here.

`advance_time` is the source's, in its order: count the cooldowns down, split
the motions into those that arrive inside the tick and those that do not, sort
the arrivals stably by when they happen, resolve them one after another
(`resolve_one` is the body of that loop and `Batch` its state), then drop what
the batch captured. A throw of the board ends the call, and the whole function
is an `Except`.

The durations of moves come out of floating-point arithmetic on a speed table
(`duration_at`); the factory takes what comes out as a parameter, a non-negative
number of milliseconds for each kind and number of steps.
-/
import KungFuChess.Board
import KungFuChess.Numbers
import KungFuChess.StableSort

set_option autoImplicit false

namespace KungFuChess

open Numbers StableSort

/-! ## `motion.hpp` and `motion_factory.cpp` -/

inductive MotionKind
  | Move
  | JumpInPlace
deriving DecidableEq, Repr

/-- An in-flight move, tracked outside the board until it resolves on arrival.
`moving_piece` is a full snapshot taken when the motion started. -/
structure Motion where
  moving_piece : Piece
  source : Position
  destination : Position
  kind : MotionKind
  duration_ms : Int
  elapsed_ms : Int
  cooldown_ms : Int
deriving DecidableEq, Repr

/-- How long a jump-in-place keeps its piece airborne. -/
def kJumpDurationMs : Int := 700

def cell_step_distance (source destination : Position) : Nat :=
  max (destination.row - source.row).natAbs (destination.col - source.col).natAbs

/-- `static_cast<int>(steps * meters_per_cell / speed * 1000.0)`, for a speed above zero. -/
def duration_at (meters_per_cell speed_m_per_sec : Double) (steps : Nat) : Nat :=
  if speed_m_per_sec.mantissa = 0 then 0
  else
    ((((Double.nearest steps 1).mul meters_per_cell).div speed_m_per_sec).mul
      (.nearest 1000 1)).truncate

/-- The factory with its two cooldown policies and its table of move durations. -/
structure MotionFactory where
  move_duration_ms : PieceKind → Nat → Nat
  standard_cooldown_ms : Int
  jump_cooldown_ms : Int

def MotionFactory.create_move (f : MotionFactory) (piece : Piece) (source destination : Position) :
    Motion :=
  { moving_piece := piece
    source := source
    destination := destination
    kind := .Move
    duration_ms := f.move_duration_ms piece.kind (cell_step_distance source destination)
    elapsed_ms := 0
    cooldown_ms := f.standard_cooldown_ms }

def MotionFactory.create_jump (f : MotionFactory) (piece : Piece) (cell : Position) : Motion :=
  { moving_piece := piece
    source := cell
    destination := cell
    kind := .JumpInPlace
    duration_ms := kJumpDurationMs
    elapsed_ms := 0
    cooldown_ms := f.jump_cooldown_ms }

/-! ## `collision_resolver.cpp` -/

inductive CollisionKind
  | VacatedCell
  | EnemyCaptured
  | FriendlyBlocked
  | PassedThroughAirborne
deriving DecidableEq, Repr

structure CollisionResult where
  kind : CollisionKind
  captured_piece : Option Piece
deriving DecidableEq, Repr

/-- `CollisionResolver::resolve`: what one mover finds at one destination cell. -/
def CollisionResolver.resolve (mover : Piece) : Option Piece → CollisionResult
  | none => ⟨.VacatedCell, none⟩
  | some occupant =>
      -- a jump in place finds the jumper itself
      if occupant.id = mover.id then
        ⟨.VacatedCell, none⟩
      else if occupant.color = mover.color then
        ⟨.FriendlyBlocked, none⟩
      else if occupant.state = .Airborne then
        ⟨.PassedThroughAirborne, none⟩
      else
        ⟨.EnemyCaptured, some { occupant with state := .Captured }⟩

/-! ## `pawn_promotion.hpp` and `arrival_event.hpp` -/

/-- `apply_pawn_promotion`: the piece as it lands, and whether it promoted. -/
def apply_pawn_promotion (arrived : Piece) (board : Board) : Piece × Bool :=
  if arrived.kind ≠ .Pawn then
    (arrived, false)
  else
    let promotion_row : Int := if arrived.color = .White then 0 else (board.height : Int) - 1
    if arrived.cell.row = promotion_row then
      ({ arrived with kind := .Queen }, true)
    else
      (arrived, false)

structure ArrivalEvent where
  moved_piece : Piece
  source : Position
  destination : Position
  captured_piece : Option Piece
  kind : MotionKind := .Move
  was_promotion : Bool := false
  arrived_at_ms : Int := 0
deriving DecidableEq, Repr

def captured_a_king (event : ArrivalEvent) : Bool :=
  event.captured_piece.any fun piece => piece.kind = .King

/-! ## `real_time_arbiter.cpp` -/

/-- `unordered_map<PieceId, int>`, read by lookup. -/
abbrev Cooldowns := PieceId → Option Int

structure RealTimeArbiter where
  board : Board
  active_motions : List Motion
  cooldowns_remaining_ms : Cooldowns
  clock_ms : Int

namespace RealTimeArbiter

/-- The arbiter of a board nothing has happened on. -/
def new (board : Board) : RealTimeArbiter := ⟨board, [], fun _ => none, 0⟩

def motion_for (a : RealTimeArbiter) (piece_id : PieceId) : Option Motion :=
  a.active_motions.find? fun motion => motion.moving_piece.id = piece_id

def is_piece_busy (a : RealTimeArbiter) (piece_id : PieceId) : Bool :=
  (a.active_motions.any fun motion => motion.moving_piece.id = piece_id)
    || (a.cooldowns_remaining_ms piece_id).isSome

def cooldown_remaining_ms (a : RealTimeArbiter) (piece_id : PieceId) : Int :=
  (a.cooldowns_remaining_ms piece_id).getD 0

/-- The state `start_motion` gives the piece at the source. -/
def starting_state : MotionKind → PieceState
  | .JumpInPlace => .Airborne
  | .Move => .Moving

def start_motion (a : RealTimeArbiter) (motion : Motion) : Except BoardError RealTimeArbiter := do
  let board ← a.board.set_piece_state motion.source (starting_state motion.kind)
  return { a with board := board, active_motions := a.active_motions ++ [motion] }

structure ResolvedArrival where
  event : ArrivalEvent
  piece_actually_arrived : Bool
deriving DecidableEq, Repr

/-- The mover as `resolve_arrival` puts it on its destination, before promotion. -/
def arriving_piece (motion : Motion) : Piece :=
  { motion.moving_piece with
    cell := motion.destination
    state := .Idle
    -- a jump does not spend a pawn's double step
    has_moved := if motion.kind = .Move then true else motion.moving_piece.has_moved }

/-- The rest of `resolve_arrival` once the destination is cleared: the mover
leaves its source, promotes if it is a pawn on its far row, and is put down. -/
def land (board : Board) (motion : Motion) (captured_piece : Option Piece) :
    Except BoardError (Board × ResolvedArrival) := do
  let board ← board.remove_piece motion.source
  let (arrived, promoted) := apply_pawn_promotion (arriving_piece motion) board
  let board ← board.add_piece arrived
  return (board,
    { event :=
        { moved_piece := arrived, source := motion.source, destination := motion.destination,
          captured_piece := captured_piece, kind := motion.kind, was_promotion := promoted }
      piece_actually_arrived := true })

/-- What a blocked mover reports: it stayed, and the event leads from its source
back to its source. -/
def blocked_arrival (motion : Motion) : ResolvedArrival :=
  { event :=
      { moved_piece := { motion.moving_piece with state := .Idle }, source := motion.source,
        destination := motion.source, captured_piece := none, kind := motion.kind }
    piece_actually_arrived := false }

def resolve_arrival (board : Board) (motion : Motion) :
    Except BoardError (Board × ResolvedArrival) :=
  let collision := CollisionResolver.resolve motion.moving_piece (board.piece_at motion.destination)
  match collision.kind with
  | .FriendlyBlocked => do
      -- whatever stands on the source, which need not be the mover
      let board ← board.set_piece_state motion.source .Idle
      return (board, blocked_arrival motion)
  | .EnemyCaptured => do
      let board ← board.remove_piece motion.destination
      land board motion collision.captured_piece
  | .PassedThroughAirborne => do
      -- the airborne piece loses its cell, and goes on: it is not captured
      let board ← board.remove_piece motion.destination
      land board motion collision.captured_piece
  | .VacatedCell => land board motion collision.captured_piece

/-! ### `advance_time` -/

/-- Every cooldown loses `ms`, and what runs out is erased. -/
def count_down (ms : Int) (cooldowns : Cooldowns) : Cooldowns := fun piece_id =>
  (cooldowns piece_id).bind fun remaining_ms =>
    -- a rest that ends with the tick is over
    if remaining_ms - ms ≤ 0 then none else some (remaining_ms - ms)

/-- `std::clamp`. -/
def clamp (v lo hi : Int) : Int := if v < lo then lo else if hi < v then hi else v

structure PendingArrival where
  motion : Motion
  time_into_tick_ms : Int
deriving DecidableEq, Repr

/-- `motion.elapsed_ms += ms`, which wraps. -/
def advanced (ms : Int) (motion : Motion) : Motion :=
  { motion with elapsed_ms := to_int (motion.elapsed_ms + ms) }

/-- What the motion still has to go. -/
def time_until_arrival_ms (motion : Motion) : Int :=
  to_int (motion.duration_ms - motion.elapsed_ms)

/-- Whether the motion arrives within the next `ms`. -/
def arrives_within (ms : Int) (motion : Motion) : Bool :=
  motion.duration_ms ≤ (advanced ms motion).elapsed_ms

/-- The `pending` vector, in the order of the motions. -/
def pending_arrivals (ms : Int) (motions : List Motion) : List PendingArrival :=
  (motions.filter (arrives_within ms)).map fun motion =>
    ⟨advanced ms motion, clamp (time_until_arrival_ms motion) 0 ms⟩

/-- The `still_active` vector. -/
def still_active (ms : Int) (motions : List Motion) : List Motion :=
  (motions.filter (fun motion => ! arrives_within ms motion)).map (advanced ms)

/-- What the loop over the sorted arrivals reads and writes. -/
structure Batch where
  board : Board
  events : List ArrivalEvent
  captured_this_batch : List PieceId
  cooldowns : Cooldowns

/-- The cooldown an arrival starts, already short of the part of the tick that is
left after it. -/
def start_cooldown (ms : Int) (pending : PendingArrival) (cooldowns : Cooldowns) : Cooldowns :=
  let time_left_in_tick_ms := ms - pending.time_into_tick_ms
  let remaining_cooldown_ms := pending.motion.cooldown_ms - time_left_in_tick_ms
  -- a rest that is over within the tick is not entered at all
  if 0 < pending.motion.cooldown_ms ∧ 0 < remaining_cooldown_ms then
    Function.update cooldowns pending.motion.moving_piece.id (some remaining_cooldown_ms)
  else
    cooldowns

/-- The body of the loop over the sorted arrivals. -/
def resolve_one (tick_start_ms ms : Int) (batch : Batch) (pending : PendingArrival) :
    Except BoardError Batch :=
  -- captured earlier in the same tick: this piece arrives nowhere
  if pending.motion.moving_piece.id ∈ batch.captured_this_batch then
    return batch
  else do
    let (board, resolved) ← resolve_arrival batch.board pending.motion
    let event := { resolved.event with arrived_at_ms := tick_start_ms + pending.time_into_tick_ms }
    return {
      board := board
      events := batch.events ++ [event]
      captured_this_batch :=
        match event.captured_piece with
        | some captured => captured.id :: batch.captured_this_batch
        | none => batch.captured_this_batch
      cooldowns :=
        -- a mover that was turned back does not rest
        if resolved.piece_actually_arrived then start_cooldown ms pending batch.cooldowns
        else batch.cooldowns }

/-- What the last loop erases: the flights of the pieces this batch captured. -/
def is_captured_move (captured : List PieceId) (motion : Motion) : Bool :=
  motion.moving_piece.id ∈ captured ∧ motion.kind = .Move

/-- `cooldowns_remaining_ms_.erase` for every captured id. -/
def erase_cooldowns (captured : List PieceId) (cooldowns : Cooldowns) : Cooldowns := fun piece_id =>
  if piece_id ∈ captured then none else cooldowns piece_id

/-- The arrivals of the next `ms`, in the order in which they happen. -/
def sorted_arrivals (ms : Int) (motions : List Motion) : List PendingArrival :=
  stableSort PendingArrival.time_into_tick_ms (pending_arrivals ms motions)

/-- The batch the arrivals of a tick are resolved in, before the first of them. -/
def batch_start (a : RealTimeArbiter) (ms : Int) : Batch :=
  ⟨a.board, [], [], count_down ms a.cooldowns_remaining_ms⟩

/-- What is left of the tick once its arrivals are resolved. -/
def finish_batch (a : RealTimeArbiter) (ms : Int) (batch : Batch) : RealTimeArbiter :=
  { board := batch.board
    active_motions :=
      (still_active ms a.active_motions).filter
        (fun motion => ! is_captured_move batch.captured_this_batch motion)
    cooldowns_remaining_ms := erase_cooldowns batch.captured_this_batch batch.cooldowns
    clock_ms := a.clock_ms + ms }

def advance_time (a : RealTimeArbiter) (ms : Int) :
    Except BoardError (RealTimeArbiter × List ArrivalEvent) := do
  let batch ←
    (sorted_arrivals ms a.active_motions).foldlM (resolve_one a.clock_ms ms) (a.batch_start ms)
  return (a.finish_batch ms batch, batch.events)

end RealTimeArbiter

end KungFuChess
