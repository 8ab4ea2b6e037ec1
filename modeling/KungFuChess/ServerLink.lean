/-
The **client**: `kfc/graphics/net/server_link.cpp`.

A `ServerLink` receives messages on the socket's thread (`on_message`), which
only files them, and works on the main thread: `wait_for_welcome` builds the
board from a `Welcome`, `wait` drains the queue. The board is a mirror; it is
changed by `apply_board_update` alone, which replays each arrival with three
operations and never asks what kind of collision it was.

What the main thread publishes to the screen is the output of a call. The wall
clock, which moves the predicted glides, and the input controller are left out.
-/
import KungFuChess.Messages

set_option autoImplicit false

namespace KungFuChess

open Machine

structure ServerLink where
  pending_welcome : Option Welcome := none
  join_failure : Option String := none
  pending_redirect_url : Option String := none
  board : Option Board := none
  assigned_color : Option PieceColor := none
  spectator : Bool := false
  room_name : String := ""
  white_username : String := ""
  black_username : String := ""
  white_rating : Int := 0
  black_rating : Int := 0
  revision : Nat := 0
  history : List ArrivalEvent := []
  predicted_motions : PieceId → Option Motion := fun _ => none
  incoming_queue : List ServerMessage := []
  match_started : Bool := false

/-- What the link publishes on its event bus. -/
inductive UiEvent
  /-- Every arrival of an update, one by one, once the board has them all. -/
  | Arrivals (update : BoardUpdate)
  | OpponentCountdown (seconds_remaining : Int)
  | OpponentReturned
  | GameStarted
  | GameEnded (winner : Option PieceColor)
deriving DecidableEq, Repr

/-- What one pass of `wait_for_welcome` finds. -/
inductive WelcomeOutcome
  | TimedOut
  | Redirected (url : String)
  | Failed
  | Welcomed
deriving DecidableEq, Repr

namespace ServerLink

def kLoginFailurePrefix : String := "login:"

/-! ## The socket's thread -/

def on_message (s : ServerLink) : ServerMessage → ServerLink
  -- a later answer to a join overwrites an earlier one of its kind
  | .Welcome welcome => { s with pending_welcome := some welcome }
  | .JoinFailed reason => { s with join_failure := some reason }
  | .JoinRedirect url => { s with pending_redirect_url := some url }
  | .LoginFailed reason => { s with join_failure := some (kLoginFailurePrefix ++ reason) }
  | message => { s with incoming_queue := s.incoming_queue ++ [message] }

/-! ## The main thread -/

/-- One pass of the loop of `wait_for_welcome`, once it is woken or times out. A
second redirect in the same call (`attempt = 1`) is refused. -/
def wait_for_welcome (s : ServerLink) (attempt : Nat) :
    Except BoardError (ServerLink × WelcomeOutcome) :=
  match s.pending_redirect_url, s.join_failure, s.pending_welcome with
  | some url, _, _ =>
      if attempt = 1 then return (s, .Failed)
      else return ({ s with pending_redirect_url := none }, .Redirected url)
  | none, some _, _ => return (s, .Failed)
  | none, none, none => return (s, .TimedOut)
  | none, none, some welcome => do
      let board ← build_board welcome.board
      return ({ s with
        assigned_color := some welcome.assigned_color
        spectator := welcome.spectator
        room_name := welcome.room
        history := welcome.history
        revision := welcome.revision
        white_username := welcome.white_username
        black_username := welcome.black_username
        white_rating := welcome.white_rating
        black_rating := welcome.black_rating
        board := some board
        pending_welcome := none }, .Welcomed)

def handle_motion_started (s : ServerLink) (motion : Motion) : ServerLink :=
  { s with
    predicted_motions := Function.update s.predicted_motions motion.moving_piece.id (some motion) }

/-- Replaying one arrival on the mirror: clear the destination, clear the source,
put the moved piece down. -/
def replay_arrival (board : Board) (event : ArrivalEvent) : Except BoardError Board := do
  let board ← board.remove_piece event.destination
  let board ← board.remove_piece event.source
  board.add_piece event.moved_piece

/-- The predictions an arrival ends. -/
def end_prediction (predicted : PieceId → Option Motion) (event : ArrivalEvent) :
    PieceId → Option Motion := fun id =>
  if id = event.moved_piece.id ∨ event.captured_piece.any (fun captured => captured.id = id) then
    none
  else
    predicted id

/-- The update is already part of the snapshot the board was built from. -/
def already_covered (s : ServerLink) (update : BoardUpdate) : Prop :=
  update.revision ≠ 0 ∧ update.revision ≤ s.revision

instance (s : ServerLink) (update : BoardUpdate) : Decidable (s.already_covered update) :=
  inferInstanceAs (Decidable (_ ∧ _))

def apply_board_update (s : ServerLink) (update : BoardUpdate) :
    Except BoardError (ServerLink × List UiEvent) :=
  match s.board with
  -- no board yet: the update is dropped
  | none => return (s, [])
  | some board =>
      if s.already_covered update then
        return (s, [])
      else do
        let board ← update.arrival_events.foldlM replay_arrival board
        return ({ s with
          revision := update.revision
          board := some board
          predicted_motions := update.arrival_events.foldl end_prediction s.predicted_motions },
          [.Arrivals update])

/-- The visitor of `wait`. -/
def handle_message : Step ServerLink ServerMessage UiEvent BoardError
  | s, .MotionStarted motion => return (s.handle_motion_started motion, [])
  -- the only message that touches the board
  | s, .BoardUpdate update => s.apply_board_update update
  | s, .OpponentDisconnected seconds_remaining => return (s, [.OpponentCountdown seconds_remaining])
  | s, .OpponentReconnected => return (s, [.OpponentReturned])
  | s, .MatchStart start => return ({ s with
      match_started := true
      white_username := start.white_username
      black_username := start.black_username
      white_rating := start.white_rating
      black_rating := start.black_rating }, [.GameStarted])
  | s, .GameOver winner => return (s, [.GameEnded winner])
  | s, _ => return (s, [])

/-- The drained queue, message by message. -/
def wait (s : ServerLink) : Except BoardError (ServerLink × List UiEvent) :=
  run handle_message { s with incoming_queue := [] } s.incoming_queue

end ServerLink

end KungFuChess
