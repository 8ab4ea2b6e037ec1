/-
The **sessions**: `kfc/server/client_session.cpp` and `session_registry.cpp`, over the
rooms, as one step machine.

A connection has one session. The calls on a session come one after the other, on
the thread of its connection, and the threads of all sessions interleave: a call
stops before it takes a mutex, of the registry or of the rooms, and between the
statements of `handle_login` that move the lease. `Stage` is how far the call of a
session has got; where the rooms still have something to do for it, `callers` says
which session each of their pending calls belongs to.

The leases of `SessionRegistry` are the tokens of `Leases`, in the places that the
code has for them: the `username_lease_` of a session, the local of its
`handle_login`, and the variables of whoever else claims a name.

What comes from elsewhere is an input of the step: the time, what a rate limiter and
the user store say, and the room key that is drawn. What is logged or counted is
left out.
-/
import KungFuChess.Leases
import KungFuChess.RoomManager
import KungFuChess.Wire

set_option autoImplicit false

namespace KungFuChess

open Machine

namespace login_reasons

def kAlreadyLoggedIn : String := "already_logged_in"
def kRateLimited : String := "rate_limited"

end login_reasons

def join_reasons.kRateLimited : String := "rate_limited"

def kMaxMessagesPerSecond : Nat := 50

/-- A second of the steady clock, which counts nanoseconds. -/
def kSecond : Int := 1000000000

/-- Sessions are numbered in the order of their connections. -/
abbrev SessionId := Nat

/-- Where a lease can be. -/
inductive Place
  | username_lease (session : SessionId)
  /-- The local of `handle_login`. -/
  | login (session : SessionId)
  | variable (n : Nat)
deriving DecidableEq

/-- `SessionRegistry`, and the leases that there are. -/
abbrev SessionRegistry := Leases.Store Place String

structure AuthedUser where
  username : String
  rating : Int := 0
deriving DecidableEq

/-- What `IUserStore::authenticate` says. -/
structure AuthOutcome where
  ok : Bool := false
  reason : String := ""
  rating : Int := 0
deriving DecidableEq

/-- What a call of `join_any`, `create_room` or `join_room` comes back with. -/
inductive Answer
  | seat (seat : Seat)
  | failed (reason : String)
  | redirect (url : String)
deriving DecidableEq

/-- How far the call of a session has got. -/
inductive Stage
  | idle
  /-- `handle_login`: before `claim`, with the lease in its local, with the lease in
  `username_lease_`, and on its way out. -/
  | claiming (user : AuthedUser)
  | claimed (user : AuthedUser)
  | holding (user : AuthedUser)
  | unwinding
  /-- `handle_seating`, in the rooms; the answer, if there is one already. -/
  | seating (answer : Option Answer)
  /-- `handle_gameplay`, in `RoomManager::enqueue`. -/
  | enqueueing
  /-- `on_close`: in the rooms, and before the lease is reset. -/
  | leaving
  | releasing
deriving DecidableEq

inductive Life
  | opened
  | closed
  | destroyed
deriving DecidableEq

structure ClientSession where
  connection : Connection
  pending : Option AuthedUser := none
  seat : Option Seat := none
  rate_window_start : Int := 0
  messages_in_window : Nat := 0
  life : Life := .opened
  stage : Stage := .idle
deriving DecidableEq

/-- What a call is given from elsewhere. -/
structure Outside where
  now : Int
  /-- `auth_limiter_` or `seat_limiter_`. -/
  allowed : Bool := true
  auth : AuthOutcome := {}
  /-- What `generate_room_id` draws. -/
  key : String := ""

inductive ServerEvent
  | sent (session : SessionId) (message : ServerMessage)
  | dropped (session : SessionId)
  /-- A session calls the rooms. -/
  | called (session : SessionId) (op : RoomManager.Op)
  /-- `match->enqueue`, in the call of a session. -/
  | delivered (session : SessionId) (room : RoomId) (source : PieceColor) (message : ClientMessage)
  /-- A session gets its seat. -/
  | seated (session : SessionId) (seat : Seat)
  | of_rooms (event : RoomEvent)
deriving DecidableEq

structure Server where
  rooms : RoomManager
  sessions : List ClientSession := []
  leases : SessionRegistry := .empty
  /-- Whose the pending calls of the rooms are, in their order. -/
  callers : List SessionId := []

namespace ClientSession

def authenticated (a : ClientSession) : Bool := a.pending.isSome || a.seat.isSome

/-- The message is counted, in a new window if the last one is over. -/
def count_message (a : ClientSession) (now : Int) : ClientSession :=
  if kSecond ≤ now - a.rate_window_start then
    { a with rate_window_start := now, messages_in_window := 1 }
  else
    { a with messages_in_window := a.messages_in_window + 1 }

/-- The call that `seat_for` makes; it makes none for a room without a name. -/
def seat_for (a : ClientSession) (message : ClientMessage) (user : AuthedUser) (key : String) :
    Option RoomManager.Op :=
  match message with
  | .Play => some (.join_any user.username user.rating a.connection)
  | .CreateRoom => some (.create_room key user.username user.rating a.connection)
  | .JoinRoom room =>
      if room = "" then none else some (.join_room room user.username user.rating a.connection)
  | _ => none

/-- The call goes on, and may have its answer. -/
def hear (a : ClientSession) (answer : Option Answer) : ClientSession :=
  match a.stage with
  | .seating earlier => { a with stage := .seating (earlier.or answer) }
  | _ => a

end ClientSession

namespace Server

def answer_of (os : List RoomEvent) : Option Answer :=
  os.findSome? fun
    | .returned seat => some (.seat seat)
    | .refused reason => some (.failed reason)
    | .redirected url => some (.redirect url)
    | _ => none

def set (s : Server) (i : SessionId) (a : ClientSession) : Server :=
  { s with sessions := s.sessions.set i a }

/-! ## `handle_login` -/

def handle_login (s : Server) (i : SessionId) (a : ClientSession) (username : String)
    (outside : Outside) : Server × List ServerEvent :=
  -- a second login changes nothing
  if a.authenticated then
    (s.set i a, [])
  else if ¬ outside.allowed then
    (s.set i a, [.sent i (.LoginFailed login_reasons.kRateLimited), .dropped i])
  else if ¬ outside.auth.ok then
    (s.set i a, [.sent i (.LoginFailed outside.auth.reason), .dropped i])
  else
    (s.set i { a with stage := .claiming ⟨username, outside.auth.rating⟩ }, [])

/-- The thread of a session goes on by itself. A lease that is moved from keeps `left`
for a name. -/
def go_on (s : Server) (i : SessionId) (a : ClientSession) (left : String) :
    Server × List ServerEvent :=
  match a.stage with
  | .claiming user =>
      let r := s.leases.claim (.login i) user.username
      if r.2 then
        ({ s with leases := r.1 }.set i { a with stage := .claimed user }, [])
      else
        (s.set i { a with stage := .idle },
          [.sent i (.LoginFailed login_reasons.kAlreadyLoggedIn), .dropped i])
  | .claimed user =>
      ({ s with leases := s.leases.assign (.username_lease i) (.login i) left }.set i
        { a with stage := .holding user }, [])
  | .holding user => (s.set i { a with pending := some user, stage := .unwinding }, [])
  | .unwinding =>
      ({ s with leases := s.leases.destroy (.login i) }.set i { a with stage := .idle }, [])
  | .releasing =>
      ({ s with leases := s.leases.destroy (.username_lease i) }.set i { a with stage := .idle },
        [])
  | _ => (s, [])

/-! ## Calls of the rooms -/

/-- A session calls the rooms: `busy` is the session while the call is under way, and
`finish` what it does when the call is back. -/
def call_rooms (s : Server) (i : SessionId) (op : RoomManager.Op) (busy : ClientSession)
    (finish : Server → Option Answer → Server × List ServerEvent) :
    Except RoomError (Server × List ServerEvent) := do
  let r ← RoomManager.exec s.rooms op
  let os := .called i op :: r.2.map .of_rooms
  if r.1.calls.length = s.rooms.calls.length then
    let f := finish { s with rooms := r.1 } (answer_of r.2)
    return (f.1, os ++ f.2)
  else
    -- the rest of the call is pending
    return ({ s with rooms := r.1, callers := s.callers ++ [i] }.set i busy, os)

/-- What a session is told that gets no seat. -/
def failure_message : Answer → ServerMessage
  | .redirect url => if url ≠ "" then .JoinRedirect url else .JoinFailed join_reasons.kNoSuchRoom
  | .failed reason => .JoinFailed (if reason = "" then join_reasons.kNoSuchRoom else reason)
  | .seat _ => .JoinFailed join_reasons.kNoSuchRoom

/-- The rest of `handle_seating`, after `seat_for`. -/
def take_answer (s : Server) (i : SessionId) (a : ClientSession) (answer : Answer) :
    Server × List ServerEvent :=
  match answer with
  | .seat seat => (s.set i { a with seat := some seat, stage := .idle }, [.seated i seat])
  | answer => (s.set i { a with stage := .idle }, [.sent i (failure_message answer), .dropped i])

def handle_seating (s : Server) (i : SessionId) (a : ClientSession) (message : ClientMessage)
    (outside : Outside) : Except RoomError (Server × List ServerEvent) :=
  match a.pending with
  -- not logged in
  | none => return (s.set i a, [])
  | some user =>
      if a.seat.isSome then
        return (s.set i a, [])
      else if ¬ outside.allowed then
        return (s.set i a, [.sent i (.JoinFailed join_reasons.kRateLimited), .dropped i])
      else
        match a.seat_for message user outside.key with
        | none => return s.take_answer i a (.failed join_reasons.kNoSuchRoom)
        | some op => s.call_rooms i op { a with stage := .seating none } fun s answer =>
            s.take_answer i a (answer.getD (.failed ""))

def handle_gameplay (s : Server) (i : SessionId) (a : ClientSession) (message : ClientMessage) :
    Except RoomError (Server × List ServerEvent) :=
  match a.seat with
  -- not seated yet
  | none => return (s.set i a, [])
  | some seat =>
      -- watching, not playing
      if seat.spectator then
        return (s.set i a, [])
      else
        s.call_rooms i (.enqueue seat.room seat.color message) { a with stage := .enqueueing }
          fun s _ => (s.set i a, [])

/-- A message that is decoded. -/
def handle (s : Server) (i : SessionId) (a : ClientSession) (message : ClientMessage)
    (outside : Outside) : Except RoomError (Server × List ServerEvent) :=
  match message with
  | .Login username _ => return s.handle_login i a username outside
  | .CreateRoom =>
      -- a key that is taken is drawn again
      if RoomManager.is_room_key outside.key ∧ s.rooms.named_rooms outside.key = none then
        s.handle_seating i a message outside
      else
        return (s, [])
  | .Play | .JoinRoom _ => s.handle_seating i a message outside
  | .MoveRequest _ _ | .JumpRequest _ | .Resign => s.handle_gameplay i a message

def on_text (parse : String → Option Json) (s : Server) (i : SessionId) (a : ClientSession)
    (text : String) (outside : Outside) : Except RoomError (Server × List ServerEvent) :=
  if kMaxMessageBytes < text.utf8ByteSize then
    return (s, [.dropped i])
  else
    let a := a.count_message outside.now
    if kMaxMessagesPerSecond < a.messages_in_window then
      return (s.set i a, [.dropped i])
    else
      match decode_client_message parse text with
      | none => return (s.set i a, [])
      | some message => s.handle i a message outside

def on_close (s : Server) (i : SessionId) (a : ClientSession) :
    Except RoomError (Server × List ServerEvent) :=
  match a.seat with
  | none => return (s.set i { a with life := .closed, stage := .releasing }, [])
  | some seat =>
      s.call_rooms i (.on_disconnect seat) { a with life := .closed, stage := .leaving }
        fun s _ => (s.set i { a with life := .closed, stage := .releasing }, [])

/-- The destructor of a session destroys its lease, closed or not. -/
def destroy (s : Server) (i : SessionId) (a : ClientSession) : Server :=
  { s with leases := s.leases.destroy (.username_lease i) }.set i { a with life := .destroyed }

/-! ## The rooms go on -/

/-- The call of a session is back. -/
def come_back (s : Server) (i : SessionId) (a : ClientSession) (answer : Option Answer) :
    Server × List ServerEvent :=
  match a.stage with
  | .seating earlier => s.take_answer i a ((earlier.or answer).getD (.failed ""))
  | .enqueueing => (s.set i { a with stage := .idle }, [])
  | .leaving => (s.set i { a with stage := .releasing }, [])
  | _ => (s, [])

/-- What reaches a match in the next part of a call. -/
def deliveries (s : Server) (i : SessionId) (call : Nat) : List ServerEvent :=
  match s.rooms.calls[call]? with
  | some (.enqueue room source message) =>
      if (s.rooms.match_of room).isSome then [.delivered i room source message] else []
  | _ => []

/-- The next part of the call of the session `i`. -/
def proceed (s : Server) (call : Nat) (i : SessionId) (a : ClientSession) :
    Except RoomError (Server × List ServerEvent) := do
  let r ← RoomManager.exec s.rooms (.proceed call)
  let os := s.deliveries i call ++ r.2.map .of_rooms
  let callers := s.callers.eraseIdx call
  if r.1.calls.length = s.rooms.calls.length then
    return ({ s with rooms := r.1, callers := callers ++ [i] }.set i (a.hear (answer_of r.2)), os)
  else
    let f := come_back { s with rooms := r.1, callers := callers } i a (answer_of r.2)
    return (f.1, os ++ f.2)

/-- A step of the rooms that is no session's. -/
def rooms_step (s : Server) (op : RoomManager.Op) :
    Except RoomError (Server × List ServerEvent) := do
  let r ← RoomManager.exec s.rooms op
  return ({ s with rooms := r.1 }, r.2.map .of_rooms)

/-! ## Steps -/

inductive Op
  | connect (connection : Connection)
  | on_text (session : SessionId) (text : String) (outside : Outside)
  | on_close (session : SessionId)
  | destroy (session : SessionId)
  | go_on (session : SessionId) (left : String)
  /-- One of the pending calls of the rooms goes on. -/
  | proceed (call : Nat)
  | tick (room : RoomId) (now : Int) (elapsed_ms : Nat)
  | directory_changes (name : String) (owner : Option String)
  /-- Other code handles leases of its own. -/
  | lease (op : Leases.Op Nat String)

/-- What a session does with its next call. -/
def with_session (s : Server) (i : SessionId)
    (call : ClientSession → Except RoomError (Server × List ServerEvent)) :
    Except RoomError (Server × List ServerEvent) :=
  match s.sessions[i]? with
  | none => return (s, [])
  | some a => call a

/-- `on_close` is called once and last; a call begins when the one before it is over. -/
def exec (parse : String → Option Json) : Step Server Op ServerEvent RoomError
  | s, .connect connection =>
      return ({ s with sessions := s.sessions ++ [{ connection := connection }] }, [])
  | s, .on_text i text outside => s.with_session i fun a =>
      if a.life = .opened ∧ a.stage = .idle then s.on_text parse i a text outside
      else return (s, [])
  | s, .on_close i => s.with_session i fun a =>
      if a.life = .opened ∧ a.stage = .idle then s.on_close i a else return (s, [])
  | s, .destroy i => s.with_session i fun a =>
      if a.life ≠ .destroyed ∧ a.stage = .idle then return (s.destroy i a, [])
      else return (s, [])
  | s, .go_on i left => s.with_session i fun a => return s.go_on i a left
  | s, .proceed call =>
      match s.callers[call]? with
      | none => return (s, [])
      | some i => s.with_session i fun a => s.proceed call i a
  | s, .tick room now elapsed_ms => s.rooms_step (.tick room now elapsed_ms)
  | s, .directory_changes name owner => s.rooms_step (.directory_changes name owner)
  | s, .lease op => return ({ s with leases := s.leases.step (op.map .variable) }, [])

/-- A server that has just started. -/
def new (rooms : RoomManager) : Server where
  rooms := rooms

end Server

end KungFuChess
