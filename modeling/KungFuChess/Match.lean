/-
One **match**: `kfc/server/match.cpp`.

A `Match` is the engine, its revision counter and history, the audience, the
command queue and the latches that decide the game once. `tick` is the source's,
cut where the source takes or gives up `board_mutex_`: the critical section
(`advance_board`: apply what was queued, let the time pass, record what happened),
then the announcements, each a step of its own (`announce_arrivals`,
`announce_resignation`, `advance_disconnect_countdown`, `release_if_due`).

What a call does to the world, messages, closes and the result callback, is its
output; so are its answers to the caller, by which a trace shows who is present.
`exec` is the step machine of a match, each call taken as one step.
-/
import KungFuChess.Audience
import KungFuChess.DisconnectWatch
import KungFuChess.Engine
import KungFuChess.Messages

set_option autoImplicit false

namespace KungFuChess

open Machine

/-- Why a game ended. -/
inductive GameEndReason
  | Decisive
  | Draw
  | Disconnect
deriving DecidableEq, Repr

/-- What a match is doing. -/
inductive MatchState
  | Waiting
  | Running
  | Frozen
  | Finished
deriving DecidableEq, Repr

/-- How long a finished match keeps its connections. -/
def kDefaultReleaseDelayMs : Int := 3000
/-- Commands beyond these are dropped, and counted. -/
def kMaxQueuedCommands : Nat := 512

/-- What a call does: messages, closes and results, and its answer to the caller. -/
inductive MatchEvent
  | sent (receiver : Connection) (message : ServerMessage)
  | broadcast (receivers : List Connection) (message : ServerMessage)
  | closed (connection : Connection)
  | result (reason : GameEndReason) (winner : Option PieceColor)
      (white_username black_username : String)
  | seated (color : PieceColor)
  | returned (color : PieceColor)
  | dropped (color : PieceColor)
deriving DecidableEq, Repr

/-- One game of two players, with those who watch it. -/
structure Match where
  engine : GameEngine
  revision : Nat := 0
  history : List ArrivalEvent := []
  audience : MatchAudience := {}
  queue : List (PieceColor × ClientMessage) := []
  dropped_commands : Nat := 0
  game_over : Bool := false
  /-- `GameOver` to be announced, by its winner. -/
  pending_game_over : Option (Option PieceColor) := none
  /-- Whether an `on_result` callback is set. -/
  on_result : Bool
  result_reported : Bool := false
  release_delay_ms : Int
  room_name : String
  disconnect_watch : DisconnectWatch
  release_at : Option Int := none
  released : Bool := false

namespace Match

/-- A match on the board of its room; nobody is there yet. -/
def new (board : Board) (config : MotionFactory) (on_result : Bool) (disconnect_grace_ms : Int)
    (release_delay_ms : Int) (room_name : String) : Match where
  engine := .new config board
  on_result := on_result
  release_delay_ms := release_delay_ms
  room_name := room_name
  disconnect_watch := { grace_ms := disconnect_grace_ms }

/-! ## Reading the state -/

/-- Finished before frozen, and frozen before waiting. -/
def state (m : Match) : MatchState :=
  -- in order of precedence
  if m.game_over then .Finished
  else if m.disconnect_watch.is_frozen then .Frozen
  else if ¬ m.audience.both_seats_taken then .Waiting
  else .Running

/-- The game has been decided, by the board, a resignation or a forfeit. -/
def is_over (m : Match) : Bool := m.game_over

/-- The seat that is being counted down, if it is this player's. -/
def reclaimable_seat_for (m : Match) (username : String) : Option PieceColor :=
  match m.disconnect_watch.watching with
  | none => none
  | some counting_down =>
      if m.game_over then none
      -- only for the person who dropped; anyone else watches
      else if m.audience.username_of counting_down ≠ username then none
      else some counting_down

/-- The board, the history and the revision, as they are now. -/
def welcome_for (m : Match) (color : PieceColor) (spectator : Bool) : Welcome where
  assigned_color := color
  board := snapshot_of m.engine.board
  spectator := spectator
  room := m.room_name
  history := m.history
  revision := m.revision
  white_username := m.audience.username_of .White
  black_username := m.audience.username_of .Black
  white_rating := m.audience.rating_of .White
  black_rating := m.audience.rating_of .Black

/-- The `MatchStart` that repeats what a `Welcome` says of the two players. -/
def start_of (welcome : Welcome) : MatchStart :=
  ⟨welcome.white_username, welcome.black_username, welcome.white_rating, welcome.black_rating⟩

/-- A message to everybody on the roster. -/
def broadcast (m : Match) (message : ServerMessage) : MatchEvent :=
  .broadcast m.audience.everyone message

/-- A message to one player, if the seat is taken. -/
def send_to (m : Match) (color : PieceColor) (message : ServerMessage) : List MatchEvent :=
  ((m.audience.player color).map fun receiver => MatchEvent.sent receiver message).toList

/-- The verdict goes to `on_result`, once. -/
def report_result (m : Match) (reason : GameEndReason) (winner : Option PieceColor) :
    Match × List MatchEvent :=
  if m.result_reported ∨ ¬ m.on_result then
    (m, [])
  else
    ({ m with result_reported := true },
      [.result reason winner (m.audience.username_of .White) (m.audience.username_of .Black)])

/-! ## What connections do -/

/-- A player takes a seat, and is welcomed; the second one starts the game. -/
def join (m : Match) (username : String) (rating : Int) (connection : Connection) :
    (Match × List MatchEvent) × Option PieceColor :=
  let (audience, assigned) := m.audience.seat username rating connection connection
  match assigned with
  | none => ((m, []), none)
  | some color =>
      let m := { m with audience := audience }
      let welcome := .sent connection (.Welcome (m.welcome_for color false))
      -- Black is the second seat: both players are there
      let start := if color = .Black then
          [m.broadcast (.MatchStart ⟨m.audience.username_of .White, username,
            m.audience.rating_of .White, rating⟩)]
        else []
      ((m, .seated color :: welcome :: start), some color)

/-- A spectator is welcomed after it has been put on the roster. -/
def join_spectator (m : Match) (connection : Connection) :
    (Match × List MatchEvent) × WatcherId :=
  let already_started := m.audience.both_seats_taken
  let (audience, watcher) := m.audience.watch connection connection
  -- no room for another watcher
  if watcher = 0 then
    ((m, []), 0)
  else
    let m := { m with audience := audience }
    let welcome := m.welcome_for .White true
    let start := if already_started then [.sent connection (.MatchStart (start_of welcome))] else []
    ((m, .sent connection (.Welcome welcome) :: start), watcher)

def leave_spectator (m : Match) (watcher : WatcherId) : Match :=
  { m with audience := m.audience.unwatch watcher }

/-- A command waits for the next tick, unless too many do. -/
def enqueue (m : Match) (source : PieceColor) (message : ClientMessage) : Match :=
  -- counted, not answered
  if kMaxQueuedCommands ≤ m.queue.length then
    { m with dropped_commands := m.dropped_commands + 1 }
  else
    { m with queue := m.queue ++ [(source, message)] }

/-- A drop is noted; the next tick begins to count. -/
def on_disconnect (m : Match) (color : PieceColor) : Match × List MatchEvent :=
  ({ m with disconnect_watch := m.disconnect_watch.report_disconnect color }, [.dropped color])

/-- A player is back in the seat, and gets a `Welcome` of its own. -/
def reconnect (m : Match) (color : PieceColor) (connection : Connection) :
    (Match × List MatchEvent) × Bool :=
  if m.game_over then
    ((m, []), false)
  else
    let (watch, cancelled) := m.disconnect_watch.cancel color
    -- the grace has run out since the caller looked
    if ¬ cancelled then
      ((m, []), false)
    else
      let m := { m with
        disconnect_watch := watch
        audience := m.audience.reseat color connection connection }
      let welcome := m.welcome_for color false
      ((m, [.returned color, .sent connection (.Welcome welcome),
        .sent connection (.MatchStart (start_of welcome)), m.broadcast .OpponentReconnected]), true)

/-! ## What a tick does -/

/-- `owns_piece_at`: the cell holds no opponent's piece. -/
def owns_piece_at (m : Match) (source : PieceColor) (cell : Position) : Bool :=
  (m.engine.board.piece_at cell).all fun piece => piece.color = source

/-- The answer to a request that reached the engine: a rejection for its sender,
or the motion it started for everybody. -/
def answer (m : Match) (source : PieceColor) (piece_id : Option PieceId) (result : MoveResult) :
    List MatchEvent :=
  if ¬ result.is_accepted then
    m.send_to source (.MoveRejected result.reason)
  else
    match piece_id.bind m.engine.arbiter.motion_for with
    | none => []
    | some motion => [m.broadcast (.MotionStarted motion)]

/-- A request about the piece on `cell`, once the match is running. -/
def request (m : Match) (source : PieceColor) (cell : Position)
    (call : GameEngine → Except BoardError (GameEngine × MoveResult)) :
    Except BoardError (Match × List MatchEvent) :=
  if ¬ m.owns_piece_at source cell then
    return (m, m.answer source none ⟨false, move_reasons.kNotYourPiece⟩)
  else do
    let piece_id := (m.engine.board.piece_at cell).map Piece.id
    let (engine, result) ← call m.engine
    let m := { m with engine := engine }
    return (m, m.answer source piece_id result)

/-- What a tick does with one command, by the state of the match. -/
def apply (m : Match) (source : PieceColor) (message : ClientMessage) :
    Except BoardError (Match × List MatchEvent) :=
  match m.state, message with
  | .Finished, _ => return (m, [])
  -- before a resign: there is no opponent to award a win to
  | .Waiting, _ => return (m, m.send_to source (.MoveRejected move_reasons.kMatchNotStarted))
  -- before the freeze: giving up stays possible while a grace runs
  | _, .Resign => return ({ m with
      game_over := true
      pending_game_over := some (some (opposite_of source)) }, [])
  | .Frozen, _ =>
      return (m, m.send_to source (.MoveRejected move_reasons.kOpponentDisconnected))
  | .Running, .MoveRequest from_cell to_cell =>
      m.request source from_cell fun engine => engine.request_move from_cell to_cell
  | .Running, .JumpRequest cell => m.request source cell fun engine => engine.request_jump cell
  | .Running, _ => return (m, m.answer source none ⟨true, "ok"⟩)

/-- The queued commands, in order. -/
def apply_all : Step Match (PieceColor × ClientMessage) MatchEvent BoardError := fun m command =>
  m.apply command.1 command.2

/-- `pending.swap(queue_)`. -/
def drain (m : Match) : Match := { m with queue := [], dropped_commands := 0 }

/-- Time passes, and what arrived is recorded under a new revision. -/
def let_time_pass (m : Match) (elapsed_ms : Int) : Except BoardError (Match × List ArrivalEvent) :=
  do
  let (engine, events) ← m.engine.wait elapsed_ms
  return ({ m with
    engine := engine
    history := m.history ++ events
    revision := if events.isEmpty then m.revision else m.revision + 1 }, events)

/-- What `tick` does under `board_mutex_`. -/
def advance_board (m : Match) (elapsed_ms : Int) :
    Except BoardError (Match × List MatchEvent × List ArrivalEvent) := do
  -- read before the commands, so a resign does not stop the clock of its own tick
  let should_advance := m.state = .Running
  let (m, answers) ← run apply_all m.drain m.queue
  if should_advance then
    let (m, events) ← m.let_time_pass elapsed_ms
    return (m, answers, events)
  else
    return (m, answers, [])

/-- The verdict a batch of arrivals gives, if it decides the game. -/
def verdict_of (events : List ArrivalEvent) : Option (Option PieceColor) :=
  let game_over := events.foldl GameOverObserver.on_arrival {}
  if game_over.is_game_over then some (if game_over.draw then none else game_over.winner) else none

/-- The broadcast of what arrived, and of the verdict it gives. -/
def announce_arrivals (m : Match) (events : List ArrivalEvent) (at_revision : Nat) :
    Match × List MatchEvent :=
  if events.isEmpty then
    (m, [])
  else
    let update := m.broadcast (.BoardUpdate ⟨events, at_revision⟩)
    match verdict_of events with
    | none => (m, [update])
    | some winner =>
        let m := { m with game_over := true }
        let reason := if winner.isSome then GameEndReason.Decisive else .Draw
        let (m', reported) := m.report_result reason winner
        (m', update :: m.broadcast (.GameOver winner) :: reported)

/-- A resign has no arrival to ride along with. -/
def announce_resignation (m : Match) : Match × List MatchEvent :=
  match m.pending_game_over with
  | none => (m, [])
  | some winner =>
      -- the verdict may be a second one: `report_result` passes on the first only
      let (m', reported) := m.report_result .Decisive winner
      ({ m' with pending_game_over := none }, m.broadcast (.GameOver winner) :: reported)

/-- The opponent is told the seconds; who stays away loses. -/
def advance_disconnect_countdown (m : Match) (now : Int) : Match × List MatchEvent :=
  if m.game_over then
    ({ m with disconnect_watch := m.disconnect_watch.clear }, [])
  else
    let (watch, tick) := m.disconnect_watch.advance now
    let m := { m with disconnect_watch := watch }
    match tick.expired_for with
    | some loser =>
        let winner := opposite_of loser
        let m := { m with game_over := true }
        let (m', reported) := m.report_result .Disconnect (some winner)
        (m', m.broadcast (.GameOver (some winner)) :: reported)
    | none =>
        match tick.seconds_remaining with
        | some seconds => (m, [m.broadcast (.OpponentDisconnected seconds)])
        | none => (m, [])

/-- The short grace after the verdict, and the release of everyone at its end. -/
def release_if_due (m : Match) (now : Int) : Match × List MatchEvent :=
  let release_at := if m.game_over ∧ m.release_at.isNone then some (now + m.release_delay_ms)
    else m.release_at
  let m := { m with release_at := release_at }
  if ¬ m.released ∧ release_at.any (fun t => t ≤ now) then
    ({ m with released := true }, m.audience.all_closes.map .closed)
  else
    (m, [])

/-- What `tick` does after it has given up `board_mutex_`. -/
def announce (m : Match) (now : Int) (events : List ArrivalEvent) (at_revision : Nat) :
    Match × List MatchEvent :=
  let (m, update) := m.announce_arrivals events at_revision
  let (m, resignation) := m.announce_resignation
  let (m, countdown) := m.advance_disconnect_countdown now
  let (m, release) := m.release_if_due now
  (m, update ++ resignation ++ countdown ++ release)

/-- **A tick**: the commands, then the board, then what there is to announce. -/
def tick (m : Match) (now elapsed_ms : Int) : Except BoardError (Match × List MatchEvent) := do
  let (m, answers, events) ← m.advance_board elapsed_ms
  let (m, announcements) := m.announce now events m.revision
  return (m, answers ++ announcements)

/-! ## Runs -/

/-- The calls on a match, as the inputs of a step machine. -/
inductive Call
  | join (username : String) (rating : Int) (connection : Connection)
  | join_spectator (connection : Connection)
  | leave_spectator (watcher : WatcherId)
  | enqueue (source : PieceColor) (message : ClientMessage)
  | on_disconnect (color : PieceColor)
  | reconnect (color : PieceColor) (connection : Connection)
  | tick (now : Int) (elapsed_ms : Nat)
deriving DecidableEq, Repr

def exec : Step Match Call MatchEvent BoardError
  | m, .join username rating connection => return (m.join username rating connection).1
  | m, .join_spectator connection => return (m.join_spectator connection).1
  | m, .leave_spectator watcher => return (m.leave_spectator watcher, [])
  | m, .enqueue source message => return (m.enqueue source message, [])
  | m, .on_disconnect color => return m.on_disconnect color
  | m, .reconnect color connection => return (m.reconnect color connection).1
  | m, .tick now elapsed_ms => m.tick now elapsed_ms

end Match

end KungFuChess
