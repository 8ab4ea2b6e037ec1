/-
The **rooms**: `kfc/server/room_manager.cpp`, as a step machine.

A call of `RoomManager` takes and gives up `rooms_mutex_` several times, and calls
into a `Match` or the directory in between, so other calls run between its parts.
What a call still has to do is a `Pending`, and a step of the machine starts a
call, lets one pending call do its next part (`resume`), or ticks a match: a part
is one critical section, one `Match` call, or one call of the directory.

A room and its match are created together and the match outlives the room, as long
as some call holds it; both are found by the room's id, which is never used again.
The machine also keeps the seats that sessions hold, since a session may only pass
on a seat it was given.

The scheduler is left out, but for the set of matches it ticks. The room key that
`generate_room_id` draws is an input of the step.
-/
import KungFuChess.Match
import Mathlib.Data.List.Sort

set_option autoImplicit false

namespace KungFuChess

open Machine

/-- Monotonic and never reused. -/
abbrev RoomId := Nat

namespace join_reasons

def kNoSuchRoom : String := "no_such_room"
def kRoomNotActive : String := "room_not_active"
def kSpectatorLimitReached : String := "spectator_limit_reached"

end join_reasons

def kMatchmakingRatingGap : Int := 100

/-- `spectator` marks a viewer: its colour is meaningless. -/
structure Seat where
  room : RoomId
  color : PieceColor
  spectator : Bool := false
  watcher : WatcherId := 0
deriving DecidableEq, Repr

structure Room where
  seats_taken : Int := 0
  connected : Int := 0
  waiting_rating : Int := 0
  name : String
deriving DecidableEq, Repr

/-- What a call still has to do, from its next part on. -/
inductive Pending
  /-- `join_any`: `match->join`, and the undoing of the reservation. -/
  | join_any (room : RoomId) (username : String) (rating : Int) (connection : Connection)
  | undo_join_any (room : RoomId)
  /-- `create_room`: `match->join`, `directory_->register_room`. -/
  | create_room (room : RoomId) (key : String) (username : String) (rating : Int)
      (connection : Connection)
  | register_room (key : String) (seat : Seat)
  /-- `join_room`: `directory_->owner_of`, or one of the three ways in, and the giving
  back of the connection counted. -/
  | owner_of (name : String)
  | reconnect (room : RoomId) (color : PieceColor) (connection : Connection)
  | join_spectator (room : RoomId) (connection : Connection)
  | join (room : RoomId) (username : String) (rating : Int) (connection : Connection)
  | give_back (room : RoomId) (reason : String)
  | enqueue (room : RoomId) (source : PieceColor) (message : ClientMessage)
  /-- `on_disconnect`: the `Match` call, the reaping, the scheduler, the directory. -/
  | leave (seat : Seat)
  | reap (room : RoomId)
  | unschedule (room : RoomId) (name : String)
  | forget_room (name : String)
deriving DecidableEq, Repr

/-- What a step shows: answers of calls, rooms reaped, and what matches do. -/
inductive RoomEvent
  | returned (seat : Seat)
  | refused (reason : String)
  | redirected (url : String)
  | reaped (room : RoomId)
  | of_match (room : RoomId) (event : MatchEvent)
deriving DecidableEq, Repr

inductive RoomError
  | board (error : BoardError)
  /-- `rooms_.at` of a room that is gone. -/
  | out_of_range
deriving DecidableEq, Repr

structure RoomManager where
  /-- The board the factory makes for each room. -/
  board_factory : RoomId → Board
  config : MotionFactory
  /-- Whether an `on_result` callback is set. -/
  on_result : Bool
  disconnect_grace_ms : Int
  directory : Option (String → Option String)
  self_url : String
  rooms : RoomId → Option Room := fun _ => none
  named_rooms : String → Option RoomId := fun _ => none
  /-- A multimap: ordered by rating, entries of one rating in order of insertion. -/
  waiting_by_rating : List (Int × RoomId) := []
  next_room_id : RoomId := 1
  match_of : RoomId → Option Match := fun _ => none
  /-- The matches the scheduler ticks. -/
  scheduled : RoomId → Bool := fun _ => false
  calls : List Pending := []
  /-- Returned, and not yet passed to `on_disconnect`. -/
  seats : List Seat := []

namespace RoomManager

/-! ## Rooms and the waiting index -/

def new_match (s : RoomManager) (id : RoomId) (room_name : String) : Match :=
  .new (s.board_factory id) s.config s.on_result s.disconnect_grace_ms kDefaultReleaseDelayMs
    room_name

/-- `open_room`, for a room as it will be when `rooms_mutex_` is given up. -/
def open_room (s : RoomManager) (room : Room) : RoomManager :=
  { s with
    next_room_id := s.next_room_id + 1
    match_of := Function.update s.match_of s.next_room_id
      (some (s.new_match s.next_room_id room.name))
    scheduled := Function.update s.scheduled s.next_room_id true
    rooms := Function.update s.rooms s.next_room_id (some room) }

def kAlphabet : List Char := "34679ACDEFGHJKMNPQRTUVWXY".toList
def kLength : Nat := 6

/-- What `generate_room_id` can draw. -/
def is_room_key (key : String) : Bool :=
  key.toList.length = kLength && key.toList.all (fun c => c ∈ kAlphabet)

/-- The better of the best entry so far, with its gap, and another entry. -/
def consider (rating : Int) (best : Option (Int × RoomId)) (entry : Option (Int × RoomId)) :
    Option (Int × RoomId) :=
  match entry with
  | none => best
  | some (entry_rating, id) =>
      let gap := |entry_rating - rating|
      -- strictly closer: of two equal gaps the first considered stays
      if gap ≤ kMatchmakingRatingGap ∧ best.all (fun b => gap < b.1) then some (gap, id) else best

/-- `closest_waiting_room`, of the index: the better of the two entries around
`lower_bound(rating)`. -/
def closest_in (waiting : List (Int × RoomId)) (rating : Int) : Option RoomId :=
  let lower := waiting.find? fun entry => rating ≤ entry.1
  let before := (waiting.takeWhile fun entry => entry.1 < rating).getLast?
  (consider rating (consider rating none lower) before).map Prod.snd

def closest_waiting_room (s : RoomManager) (rating : Int) : Option RoomId :=
  closest_in s.waiting_by_rating rating

def mark_waiting (s : RoomManager) (id : RoomId) (rating : Int) : RoomManager :=
  { s with waiting_by_rating :=
      s.waiting_by_rating.orderedInsert (fun a b => a.1 < b.1) (rating, id) }

def unmark_waiting (s : RoomManager) (id : RoomId) (rating : Int) : RoomManager :=
  { s with waiting_by_rating := s.waiting_by_rating.erase (rating, id) }

def set_room (s : RoomManager) (id : RoomId) (room : Option Room) : RoomManager :=
  { s with rooms := Function.update s.rooms id room }

/-! ## Parts of a call -/

/-- The rest of a call waits for its turn. -/
def then_do (s : RoomManager) (pending : Pending) : RoomManager :=
  { s with calls := s.calls ++ [pending] }

/-- A call returns a seat, and a session holds it. -/
def hand_over (s : RoomManager) (seat : Seat) : RoomManager :=
  { s with seats := s.seats ++ [seat] }

/-- A match has stepped. -/
def after_match (s : RoomManager) (id : RoomId) (r : Match × List MatchEvent) :
    RoomManager × List RoomEvent :=
  ({ s with match_of := Function.update s.match_of id (some r.1) }, r.2.map (.of_match id))

/-- A call goes on with the match it holds, which is there. -/
def with_match (s : RoomManager) (id : RoomId)
    (part : Match → Except RoomError (RoomManager × List RoomEvent)) :
    Except RoomError (RoomManager × List RoomEvent) :=
  match s.match_of id with
  | none => return (s, [])
  | some m => part m

/-- `match->join` and what follows its answer. -/
def join_match (s : RoomManager) (id : RoomId) (username : String) (rating : Int)
    (connection : Connection)
    (seated refused : RoomManager → Seat → RoomManager × List RoomEvent) :
    Except RoomError (RoomManager × List RoomEvent) :=
  s.with_match id fun m =>
    let (r, assigned) := m.join username rating connection
    let (s, os) := s.after_match id r
    match assigned with
    | none =>
        let (s, answer) := refused s ⟨id, .White, false, 0⟩
        return (s, os ++ answer)
    | some color =>
        let (s, answer) := seated s ⟨id, color, false, 0⟩
        return (s, os ++ answer)

/-- The call returns the seat. -/
def return_seat (s : RoomManager) (seat : Seat) : RoomManager × List RoomEvent :=
  (s.hand_over seat, [.returned seat])

/-- The next part of a pending call. The call itself has been taken out of `calls`. -/
def resume : RoomManager → Pending → Except RoomError (RoomManager × List RoomEvent)
  | s, .join_any id username rating connection =>
      s.join_match id username rating connection return_seat
        fun s _ => (s.then_do (.undo_join_any id), [])
  | s, .undo_join_any id =>
      -- defensive: the seats taken cap a room at two joiners
      match s.rooms id with
      | none => return (s, [.refused ""])
      | some room =>
          let room := { room with
            seats_taken := room.seats_taken - 1
            connected := room.connected - 1 }
          if room.connected ≤ 0 then
            return (((s.unmark_waiting id room.waiting_rating).set_room id none).then_do
              (.unschedule id ""), [.reaped id, .refused ""])
          else if room.seats_taken = 1 then
            return ((s.set_room id (some room)).mark_waiting id room.waiting_rating, [.refused ""])
          else
            return (s.set_room id (some room), [.refused ""])
  | s, .create_room id key username rating connection =>
      s.join_match id username rating connection
        (fun s seat =>
          -- outside the lock, so another call may come in between
          if s.directory.isSome then (s.then_do (.register_room key seat), [])
          else s.return_seat seat)
        -- the room stays open, and nothing is given back
        fun s _ => (s, [.refused join_reasons.kRoomNotActive])
  | s, .register_room key seat =>
      return ({ s with
        directory := s.directory.map fun d => Function.update d key (some s.self_url) }
          : RoomManager).return_seat seat
  | s, .owner_of name =>
      match s.directory.bind (fun d => d name) with
      | some url => return (s, [.redirected url])
      | none => return (s, [.refused join_reasons.kNoSuchRoom])
  | s, .reconnect id color connection => s.with_match id fun m =>
      let (r, reconnected) := m.reconnect color connection
      let (s, os) := s.after_match id r
      if reconnected then
        let (s, answer) := s.return_seat ⟨id, color, false, 0⟩
        return (s, os ++ answer)
      else
        return (s.then_do (.give_back id join_reasons.kRoomNotActive), os)
  | s, .join_spectator id connection => s.with_match id fun m =>
      let (r, watcher) := m.join_spectator connection
      let (s, os) := s.after_match id r
      if watcher = 0 then
        return (s.then_do (.give_back id join_reasons.kSpectatorLimitReached), os)
      else
        let (s, answer) := s.return_seat ⟨id, .White, true, watcher⟩
        return (s, os ++ answer)
  | s, .join id username rating connection =>
      -- a refusal here gives no reason and nothing back
      s.join_match id username rating connection return_seat fun s _ => (s, [.refused ""])
  | s, .give_back id reason =>
      match s.rooms id with
      | none => return (s, [.refused reason])
      | some room =>
          -- a room whose last connection this was is not reaped here
          return (s.set_room id (some { room with connected := room.connected - 1 }),
            [.refused reason])
  | s, .enqueue id source message => s.with_match id fun m =>
      return s.after_match id (m.enqueue source message, [])
  | s, .leave seat => s.with_match seat.room fun m =>
      let r := if seat.spectator then (m.leave_spectator seat.watcher, [])
        else m.on_disconnect seat.color
      let (s, os) := s.after_match seat.room r
      return (s.then_do (.reap seat.room), os)
  | s, .reap id =>
      match s.rooms id with
      | none => return (s, [])
      | some room =>
          let room := { room with connected := room.connected - 1 }
          -- the last connection: the room goes, with its name and its place in the index
          if room.connected ≤ 0 then
            let named_rooms := if room.name = "" then s.named_rooms
              else Function.update s.named_rooms room.name none
            return ((({ s with named_rooms := named_rooms }.unmark_waiting id
              room.waiting_rating).set_room id none).then_do (.unschedule id room.name),
              [.reaped id])
          else
            return (s.set_room id (some room), [])
  | s, .unschedule id name =>
      let s := { s with scheduled := Function.update s.scheduled id false }
      -- only a named room has been registered
      if s.directory.isSome ∧ name ≠ "" then return (s.then_do (.forget_room name), [])
      else return (s, [])
  | s, .forget_room name =>
      return ({ s with directory := s.directory.map fun d => Function.update d name none }, [])

/-! ## Steps -/

inductive Op
  | join_any (username : String) (rating : Int) (connection : Connection)
  | create_room (key username : String) (rating : Int) (connection : Connection)
  | join_room (name username : String) (rating : Int) (connection : Connection)
  | enqueue (room : RoomId) (source : PieceColor) (message : ClientMessage)
  | on_disconnect (seat : Seat)
  /-- One of the pending calls goes on. -/
  | proceed (call : Nat)
  | tick (room : RoomId) (now : Int) (elapsed_ms : Nat)
  /-- Another worker writes the directory. -/
  | directory_changes (name : String) (owner : Option String)
deriving DecidableEq, Repr

/-- The critical section `join_any` begins with. -/
def start_join_any (s : RoomManager) (username : String) (rating : Int)
    (connection : Connection) : Except RoomError (RoomManager × List RoomEvent) :=
  match s.closest_waiting_room rating with
  | some id =>
      match s.rooms id with
      | none => throw .out_of_range
      | some room =>
          return (((s.unmark_waiting id room.waiting_rating).set_room id (some { room with
            seats_taken := room.seats_taken + 1
            connected := room.connected + 1 })).then_do
              (.join_any id username rating connection), [])
  | none =>
      let id := s.next_room_id
      return (((s.open_room ⟨1, 1, rating, ""⟩).mark_waiting id rating).then_do
        (.join_any id username rating connection), [])

/-- The critical section `join_room` begins with, for a name that is found. -/
def start_join_found (s : RoomManager) (id : RoomId) (username : String) (rating : Int)
    (connection : Connection) : Except RoomError (RoomManager × List RoomEvent) :=
  match s.rooms id with
  | none => return (s, [.refused join_reasons.kNoSuchRoom])
  | some room => s.with_match id fun m =>
      if m.is_over then
        return (s, [.refused join_reasons.kRoomNotActive])
      else
        match m.reclaimable_seat_for username with
        | some color =>
            return ((s.set_room id (some { room with connected := room.connected + 1 })).then_do
              (.reconnect id color connection), [])
        | none =>
            if 2 ≤ room.seats_taken then
              return ((s.set_room id (some { room with connected := room.connected + 1 })).then_do
                (.join_spectator id connection), [])
            else
              return ((s.set_room id (some { room with
                seats_taken := room.seats_taken + 1
                connected := room.connected + 1 })).then_do
                  (.join id username rating connection), [])

def exec : Step RoomManager Op RoomEvent RoomError
  | s, .join_any username rating connection => s.start_join_any username rating connection
  | s, .create_room key username rating connection =>
      -- a key that is taken is drawn again
      if is_room_key key ∧ s.named_rooms key = none then
        let id := s.next_room_id
        return ({ s.open_room ⟨1, 1, 0, key⟩ with
          named_rooms := Function.update s.named_rooms key (some id) }.then_do
            (.create_room id key username rating connection), [])
      else
        return (s, [])
  | s, .join_room name username rating connection =>
      match s.named_rooms name with
      | some id => s.start_join_found id username rating connection
      | none =>
          if s.directory.isSome then return (s.then_do (.owner_of name), [])
          else return (s, [.refused join_reasons.kNoSuchRoom])
  | s, .enqueue id source message =>
      match s.rooms id with
      | none => return (s, [])
      | some _ => return (s.then_do (.enqueue id source message), [])
  | s, .on_disconnect seat =>
      -- a session passes on a seat it holds, once
      if seat ∈ s.seats then
        let s := { s with seats := s.seats.erase seat }
        match s.rooms seat.room with
        | none => return (s, [])
        | some _ => return (s.then_do (.leave seat), [])
      else
        return (s, [])
  | s, .proceed call =>
      match s.calls[call]? with
      | none => return (s, [])
      | some pending => { s with calls := s.calls.eraseIdx call }.resume pending
  | s, .tick id now elapsed_ms =>
      if s.scheduled id then s.with_match id fun m =>
        match m.tick now elapsed_ms with
        | .ok r => return s.after_match id r
        | .error e => throw (.board e)
      else
        return (s, [])
  | s, .directory_changes name owner =>
      return ({ s with directory := s.directory.map fun d => Function.update d name owner }, [])

/-- A server that has just started. -/
def new (board_factory : RoomId → Board) (config : MotionFactory) (on_result : Bool)
    (disconnect_grace_ms : Int) (directory : Option (String → Option String))
    (self_url : String) : RoomManager where
  board_factory := board_factory
  config := config
  on_result := on_result
  disconnect_grace_ms := disconnect_grace_ms
  directory := directory
  self_url := self_url

end RoomManager

end KungFuChess
