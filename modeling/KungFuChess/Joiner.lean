/-
A **joiner**: one connection's way into a match, in the steps its thread takes
between the locks, while the match ticks and other connections come and go.

`Match::join`, `join_spectator` and `reconnect` all register the connection in the
audience, then take a snapshot under `board_mutex_`, then send it, then the rest
of what they send; `let_in` puts these pieces together again and is the three
functions of `Match`. A tick is cut in the same way: the critical section, the
broadcast of what arrived, the other announcements. What is sent to the
connection waits on its `wire`, in order, until the socket's thread of the client
hands it to the `ServerLink`.

The output of a run is what an observer sees: the updates the server records, the
`Welcome` the client builds its board from, the updates it applies.
-/
import KungFuChess.MatchSteps
import KungFuChess.ServerLink

set_option autoImplicit false

namespace KungFuChess

open Machine

/-- The three ways into a match. -/
inductive JoinRequest
  | join (username : String) (rating : Int)
  | join_spectator
  | reconnect (color : PieceColor)
deriving DecidableEq, Repr

def JoinRequest.spectator : JoinRequest → Bool
  | .join_spectator => true
  | _ => false

/-- How far a call of `join`, `join_spectator` or `reconnect` has got. -/
inductive JoinStage
  | outside
  | refused
  | registered (request : JoinRequest) (color : PieceColor) (already_started : Bool)
  | snapshotted (request : JoinRequest) (color : PieceColor) (already_started : Bool)
      (welcome : Welcome)
  | welcomed (request : JoinRequest) (color : PieceColor) (already_started : Bool)
      (welcome : Welcome)
  | returned (welcome : Welcome)
deriving DecidableEq, Repr

namespace Match

/-! ## The pieces of a join -/

/-- Registering in the audience. -/
def register (m : Match) (connection : Connection) :
    JoinRequest → (Match × List MatchEvent) × JoinStage
  | .join username rating =>
      match m.audience.seat username rating connection connection with
      | (_, none) => ((m, []), .refused)
      | (audience, some color) =>
          (({ m with audience := audience }, [.seated color]),
            .registered (.join username rating) color false)
  -- registered before the snapshot, so no update slips through in between
  | .join_spectator =>
      let already_started := m.audience.both_seats_taken
      let (audience, watcher) := m.audience.watch connection connection
      if watcher = 0 then
        ((m, []), .refused)
      else
        (({ m with audience := audience }, []),
          .registered .join_spectator .White already_started)
  | .reconnect color =>
      if m.game_over then
        ((m, []), .refused)
      else
        let (watch, cancelled) := m.disconnect_watch.cancel color
        if ¬ cancelled then
          ((m, []), .refused)
        else
          (({ m with
            disconnect_watch := watch
            audience := m.audience.reseat color connection connection }, [.returned color]),
            -- the `MatchStart` of a returning player needs no second look at the seats
            .registered (.reconnect color) color true)

/-- What is sent after the `Welcome`. -/
def start_messages (m : Match) (connection : Connection) (request : JoinRequest)
    (color : PieceColor) (already_started : Bool) (welcome : Welcome) : List MatchEvent :=
  match request with
  | .join username rating =>
      if color = .Black then
        [m.broadcast (.MatchStart ⟨m.audience.username_of .White, username,
          m.audience.rating_of .White, rating⟩)]
      else []
  | .join_spectator =>
      if already_started then [.sent connection (.MatchStart (start_of welcome))] else []
  | .reconnect _ =>
      [.sent connection (.MatchStart (start_of welcome)), m.broadcast .OpponentReconnected]

/-- The pieces, one after another. -/
def let_in (m : Match) (connection : Connection) (request : JoinRequest) :
    Match × List MatchEvent :=
  match m.register connection request with
  | ((m, os), .registered request color already_started) =>
      let welcome := m.welcome_for color request.spectator
      (m, os ++ .sent connection (.Welcome welcome)
        :: m.start_messages connection request color already_started welcome)
  | (r, _) => r

theorem let_in_join (m : Match) (connection : Connection) (username : String) (rating : Int) :
    m.let_in connection (.join username rating) = (m.join username rating connection).1 := by
  unfold let_in register join
  dsimp only
  cases m.audience.seat username rating connection connection with
  | mk audience assigned =>
  cases assigned with
  | none => rfl
  | some color => rfl

theorem let_in_join_spectator (m : Match) (connection : Connection) :
    m.let_in connection .join_spectator = (m.join_spectator connection).1 := by
  unfold let_in register join_spectator
  dsimp only
  by_cases hw : (m.audience.watch connection connection).2 = 0
  · rw [if_pos hw, if_pos hw]
  · rw [if_neg hw, if_neg hw]
    rfl

theorem let_in_reconnect (m : Match) (connection : Connection) (color : PieceColor) :
    m.let_in connection (.reconnect color) = (m.reconnect color connection).1 := by
  unfold let_in register reconnect
  dsimp only
  by_cases hover : m.game_over = true
  · rw [if_pos hover, if_pos hover]
  · rw [if_neg hover, if_neg hover]
    by_cases hc : (m.disconnect_watch.cancel color).2 = true
    · rw [if_neg (not_not.mpr hc), if_neg (not_not.mpr hc)]
      rfl
    · rw [if_pos hc, if_pos hc]

/-- What a tick announces after the arrivals. -/
def announce_rest (m : Match) (now : Int) : Match × List MatchEvent :=
  let (m, resignation) := m.announce_resignation
  let (m, countdown) := m.advance_disconnect_countdown now
  let (m, release) := m.release_if_due now
  (m, resignation ++ countdown ++ release)

theorem announce_in_steps (m : Match) (now : Int) (events : List ArrivalEvent)
    (at_revision : Nat) :
    m.announce now events at_revision =
      (((m.announce_arrivals events at_revision).1.announce_rest now).1,
        (m.announce_arrivals events at_revision).2
          ++ ((m.announce_arrivals events at_revision).1.announce_rest now).2) := by
  unfold announce announce_rest
  simp only [List.append_assoc]

end Match

/-! ## The machine -/

/-- How far a tick has got. -/
inductive TickStage
  | idle
  | advanced (now : Int) (events : List ArrivalEvent) (at_revision : Nat)
  | announced (now : Int)
deriving DecidableEq, Repr

structure Joiner where
  connection : Connection
  server : Match
  tick : TickStage := .idle
  stage : JoinStage := .outside
  /-- Sent to the connection and not yet received, oldest first. -/
  wire : List ServerMessage := []
  client : ServerLink := {}

/-- What an observer of both ends sees. -/
inductive Seen
  | updated (update : BoardUpdate)
  | built (welcome : Welcome)
  | applied (update : BoardUpdate)
deriving DecidableEq, Repr

namespace Joiner

/-- What some events send to a connection, in order. -/
def delivered (connection : Connection) (os : List MatchEvent) : List ServerMessage :=
  os.flatMap fun
    | .sent receiver message => if receiver = connection then [message] else []
    | .broadcast receivers message => List.replicate (receivers.count connection) message
    | _ => []

/-- The server steps, and what it sends the joiner goes on the wire. -/
def hears (s : Joiner) (r : Match × List MatchEvent) : Joiner :=
  { s with server := r.1, wire := s.wire ++ delivered s.connection r.2 }

inductive Label
  /-- The joiner's thread. -/
  | register (request : JoinRequest)
  | snapshot
  | send_welcome
  | send_start
  /-- A call on behalf of another connection. -/
  | other (call : Match.Call)
  /-- The match's worker. -/
  | advance (now : Int) (elapsed_ms : Nat)
  | announce_arrivals
  | announce_rest
  /-- The client: its socket's thread, then its main thread. -/
  | receive
  | wait_for_welcome
  | wait
deriving DecidableEq, Repr

/-- The updates among what a client publishes. -/
def applied_of (os : List UiEvent) : List Seen :=
  os.filterMap fun
    | .Arrivals update => some (.applied update)
    | _ => none

/-- One step. A thread with nothing to do at this point leaves the state alone. -/
def exec : Step Joiner Label Seen BoardError
  | s, .register request =>
      match s.stage with
      | .outside =>
          let (r, stage) := s.server.register s.connection request
          return ({ s.hears r with stage := stage }, [])
      | _ => return (s, [])
  | s, .snapshot =>
      match s.stage with
      | .registered request color already_started =>
          let welcome := s.server.welcome_for color request.spectator
          return ({ s with stage := .snapshotted request color already_started welcome }, [])
      | _ => return (s, [])
  | s, .send_welcome =>
      match s.stage with
      | .snapshotted request color already_started welcome =>
          let s := s.hears (s.server, [.sent s.connection (.Welcome welcome)])
          return ({ s with stage := .welcomed request color already_started welcome }, [])
      | _ => return (s, [])
  | s, .send_start =>
      match s.stage with
      | .welcomed request color already_started welcome =>
          let os := s.server.start_messages s.connection request color already_started welcome
          return ({ s.hears (s.server, os) with stage := .returned welcome }, [])
      | _ => return (s, [])
  | s, .other call => do
      let r ← s.server.exec call
      return (s.hears r, [])
  | s, .advance now elapsed_ms =>
      match s.tick with
      | .idle => do
          let (m, answers, events) ← s.server.advance_board elapsed_ms
          -- `board_mutex_` is given up here: a join may come before the broadcast
          return ({ s.hears (m, answers) with tick := .advanced now events m.revision },
            if events.isEmpty then [] else [.updated ⟨events, m.revision⟩])
      | _ => return (s, [])
  | s, .announce_arrivals =>
      match s.tick with
      | .advanced now events at_revision =>
          let r := s.server.announce_arrivals events at_revision
          return ({ s.hears r with tick := .announced now }, [])
      | _ => return (s, [])
  | s, .announce_rest =>
      match s.tick with
      | .announced now => return ({ s.hears (s.server.announce_rest now) with tick := .idle }, [])
      | _ => return (s, [])
  | s, .receive =>
      match s.wire with
      | [] => return (s, [])
      | message :: wire =>
          return ({ s with wire := wire, client := s.client.on_message message }, [])
  | s, .wait_for_welcome =>
      -- the game session calls it once, before anything else
      if s.client.board.isSome then return (s, [])
      else do
        let (client, outcome) ← s.client.wait_for_welcome 0
        return ({ s with client := client },
          if outcome = .Welcomed then (s.client.pending_welcome.map Seen.built).toList else [])
  | s, .wait =>
      if s.client.board.isNone then return (s, [])
      else do
        let (client, os) ← s.client.wait
        return ({ s with client := client }, applied_of os)

/-- A call that is not made on this connection, and is not a tick. -/
def Elsewhere (connection : Connection) : Match.Call → Prop
  | .join _ _ other => other ≠ connection
  | .join_spectator other => other ≠ connection
  | .reconnect _ other => other ≠ connection
  | .tick _ _ => False
  | _ => True

instance (connection : Connection) : ∀ call, Decidable (Elsewhere connection call)
  | .join _ _ other | .join_spectator other | .reconnect _ other =>
      inferInstanceAs (Decidable (other ≠ connection))
  | .tick _ _ => .isFalse id
  | .leave_spectator _ | .enqueue _ _ | .on_disconnect _ => .isTrue trivial

/-- The condition on a step: others act on connections of their own, and the
match's worker is the only one that ticks. -/
def OthersElsewhere (s : Joiner) (_ : List Seen) : Label → Prop
  | .other call => Elsewhere s.connection call
  | _ => True

instance (s : Joiner) (tr : List Seen) : ∀ label, Decidable (OthersElsewhere s tr label)
  | .other call => inferInstanceAs (Decidable (Elsewhere s.connection call))
  | .register _ | .snapshot | .send_welcome | .send_start | .advance _ _ | .announce_arrivals
  | .announce_rest | .receive | .wait_for_welcome | .wait => .isTrue trivial

end Joiner

end KungFuChess
