/-
**What a step of the rooms does.**

`RoomManager.exec` is read here once, part by part: `exec_steps` says that a step
does to the ledger one of the things that `Effect` lists, and that whoever comes
by a player's seat plays in that room's match.
-/
import KungFuChess.Ledger
import KungFuChess.Presence

set_option autoImplicit false

namespace KungFuChess

open Machine

namespace RoomManager

/-! ## What the code branches on -/

theorem with_match_some {s : RoomManager} {id : RoomId} {m : Match} (hm : s.match_of id = some m)
    (part : Match → Except RoomError (RoomManager × List RoomEvent)) :
    s.with_match id part = part m := by
  rw [with_match, hm]

/-- A call that goes on with its match finds it, or does nothing. -/
theorem with_match_found {s : RoomManager} {id : RoomId}
    {part : Match → Except RoomError (RoomManager × List RoomEvent)}
    {r : RoomManager × List RoomEvent} (h : s.with_match id part = .ok r) :
    (s.match_of id = none ∧ r = (s, [])) ∨ ∃ m, s.match_of id = some m ∧ part m = .ok r := by
  cases hm : s.match_of id with
  | none =>
      rw [with_match, hm] at h
      exact .inl ⟨rfl, (Except.ok.inj h).symm⟩
  | some m =>
      rw [with_match_some hm] at h
      exact .inr ⟨m, rfl, h⟩

/-- A part that joins finds its match gone, or is refused by it, or is given a colour. -/
theorem join_match_cases {s s' : RoomManager} {id : RoomId} {username : String} {rating : Int}
    {connection : Connection} {seated refused : RoomManager → Seat → RoomManager × List RoomEvent}
    {os : List RoomEvent}
    (h : s.join_match id username rating connection seated refused = .ok (s', os)) :
    (s.match_of id = none ∧ s' = s ∧ os = []) ∨
    (∃ m r, s.match_of id = some m ∧ m.join username rating connection = (r, none) ∧
      s' = (refused (s.after_match id r).1 ⟨id, .White, false, 0⟩).1 ∧
      os = (s.after_match id r).2 ++ (refused (s.after_match id r).1 ⟨id, .White, false, 0⟩).2) ∨
    ∃ m r color, s.match_of id = some m ∧ m.join username rating connection = (r, some color) ∧
      s' = (seated (s.after_match id r).1 ⟨id, color, false, 0⟩).1 ∧
      os = (s.after_match id r).2 ++ (seated (s.after_match id r).1 ⟨id, color, false, 0⟩).2 := by
  unfold join_match at h
  obtain ⟨hm, hnothing⟩ | ⟨m, hm, hpart⟩ := with_match_found h
  · obtain ⟨rfl, rfl⟩ := Prod.mk.inj hnothing
    exact .inl ⟨hm, rfl, rfl⟩
  · rcases hj : m.join username rating connection with ⟨r, assigned⟩
    rw [hj] at hpart
    cases assigned with
    | none =>
        obtain ⟨rfl, rfl⟩ := Prod.mk.inj (Except.ok.inj hpart)
        exact .inr (.inl ⟨m, r, hm, hj, rfl, rfl⟩)
    | some color =>
        obtain ⟨rfl, rfl⟩ := Prod.mk.inj (Except.ok.inj hpart)
        exact .inr (.inr ⟨m, r, color, hm, hj, rfl, rfl⟩)

/-- A tick of a room is a tick of its match, where the room is scheduled and has one. -/
theorem exec_tick_found {s : RoomManager} {id : RoomId} {now : Int} {elapsed_ms : Nat}
    {r : RoomManager × List RoomEvent} (h : exec s (.tick id now elapsed_ms) = .ok r) :
    r = (s, []) ∨ ∃ m r', s.match_of id = some m ∧ m.tick now elapsed_ms = .ok r' ∧
      r = s.after_match id r' := by
  rw [exec] at h
  split_ifs at h
  · obtain ⟨-, rfl⟩ | ⟨m, hm, hpart⟩ := with_match_found h
    · exact .inl rfl
    · cases ht : m.tick now elapsed_ms with
      | error e =>
          rw [ht] at hpart
          cases hpart
      | ok r' =>
          rw [ht] at hpart
          exact .inr ⟨m, r', hm, ht, (Except.ok.inj hpart).symm⟩
  · exact .inl (Except.ok.inj h).symm

/-- What `join_room` begins with for a name that is found: it ends there, or it goes on in
one of three ways. -/
inductive Enters (s : RoomManager) (id : RoomId) (username : String) (rating : Int)
    (connection : Connection) : RoomManager → List RoomEvent → Prop
  | nowhere : Enters s id username rating connection s []
  | refused (reason : String) : Enters s id username rating connection s [.refused reason]
  | back (room : Room) (m : Match) (color : PieceColor) (here : s.rooms id = some room)
      (match_ : s.match_of id = some m) (theirs : m.reclaimable_seat_for username = some color) :
      Enters s id username rating connection
        ((s.set_room id (some { room with connected := room.connected + 1 })).then_do
          (.reconnect id color connection)) []
  | viewer (room : Room) (here : s.rooms id = some room) :
      Enters s id username rating connection
        ((s.set_room id (some { room with connected := room.connected + 1 })).then_do
          (.join_spectator id connection)) []
  | player (room : Room) (here : s.rooms id = some room) (free : room.seats_taken < 2) :
      Enters s id username rating connection
        ((s.set_room id (some { room with
          seats_taken := room.seats_taken + 1
          connected := room.connected + 1 })).then_do (.join id username rating connection)) []

theorem start_join_found_enters {s s' : RoomManager} {id : RoomId} {username : String}
    {rating : Int} {connection : Connection} {os : List RoomEvent}
    (h : s.start_join_found id username rating connection = .ok (s', os)) :
    Enters s id username rating connection s' os := by
  unfold start_join_found at h
  cases hr : s.rooms id with
  | none =>
      rw [hr] at h
      obtain ⟨rfl, rfl⟩ := Prod.mk.inj (Except.ok.inj h)
      exact .refused _
  | some room =>
      rw [hr] at h
      obtain ⟨-, hnothing⟩ | ⟨m, hm, hpart⟩ := with_match_found h
      · obtain ⟨rfl, rfl⟩ := Prod.mk.inj hnothing
        exact .nowhere
      · by_cases hover : m.is_over = true
        · rw [if_pos hover] at hpart
          obtain ⟨rfl, rfl⟩ := Prod.mk.inj (Except.ok.inj hpart)
          exact .refused _
        · rw [if_neg hover] at hpart
          cases hreclaim : m.reclaimable_seat_for username with
          | some color =>
              rw [hreclaim] at hpart
              obtain ⟨rfl, rfl⟩ := Prod.mk.inj (Except.ok.inj hpart)
              exact .back room m color hr hm hreclaim
          | none =>
              rw [hreclaim] at hpart
              dsimp only at hpart
              split_ifs at hpart with hfull
              · obtain ⟨rfl, rfl⟩ := Prod.mk.inj (Except.ok.inj hpart)
                exact .viewer room hr
              · obtain ⟨rfl, rfl⟩ := Prod.mk.inj (Except.ok.inj hpart)
                exact .player room hr (not_le.mp hfull)

/-- The match that the next part of a call asks, joining apart. -/
def asks_match : Pending → Option RoomId
  | .reconnect id _ _ => some id
  | .join_spectator id _ => some id
  | .enqueue id _ _ => some id
  | .leave seat => some seat.room
  | _ => none

/-- What the next part of a call does: it asks its match, which may be gone, or it writes
the tables. -/
inductive Resumed (s : RoomManager) : Pending → RoomManager → List RoomEvent → Prop
  -- what follows the answer of `join` is read with it
  | join_any (id : RoomId) (username : String) (rating : Int) (connection : Connection)
      (s' : RoomManager) (os : List RoomEvent)
      (joins : s.join_match id username rating connection return_seat
        (fun s _ => (s.then_do (.undo_join_any id), [])) = .ok (s', os)) :
      Resumed s (.join_any id username rating connection) s' os
  | create_room (id : RoomId) (key username : String) (rating : Int) (connection : Connection)
      (s' : RoomManager) (os : List RoomEvent)
      (joins : s.join_match id username rating connection
        (fun s seat =>
          if s.directory.isSome then (s.then_do (.register_room key seat), [])
          else s.return_seat seat)
        (fun s _ => (s, [.refused join_reasons.kRoomNotActive])) = .ok (s', os)) :
      Resumed s (.create_room id key username rating connection) s' os
  | join (id : RoomId) (username : String) (rating : Int) (connection : Connection)
      (s' : RoomManager) (os : List RoomEvent)
      (joins : s.join_match id username rating connection return_seat
        (fun s _ => (s, [.refused ""])) = .ok (s', os)) :
      Resumed s (.join id username rating connection) s' os
  | nowhere (p : Pending) (id : RoomId) (asks : asks_match p = some id)
      (gone : s.match_of id = none) : Resumed s p s []
  | reconnected (id : RoomId) (color : PieceColor) (connection : Connection) (m : Match)
      (here : s.match_of id = some m) (back : (m.reconnect color connection).2 = true) :
      Resumed s (.reconnect id color connection)
        ((s.after_match id (m.reconnect color connection).1).1.hand_over ⟨id, color, false, 0⟩)
        ((s.after_match id (m.reconnect color connection).1).2
          ++ [.returned ⟨id, color, false, 0⟩])
  | not_reconnected (id : RoomId) (color : PieceColor) (connection : Connection) (m : Match)
      (here : s.match_of id = some m) (refused : (m.reconnect color connection).2 = false) :
      Resumed s (.reconnect id color connection)
        ((s.after_match id (m.reconnect color connection).1).1.then_do
          (.give_back id join_reasons.kRoomNotActive))
        (s.after_match id (m.reconnect color connection).1).2
  | watches (id : RoomId) (connection : Connection) (m : Match) (here : s.match_of id = some m)
      (admitted : (m.join_spectator connection).2 ≠ 0) :
      Resumed s (.join_spectator id connection)
        ((s.after_match id (m.join_spectator connection).1).1.hand_over
          ⟨id, .White, true, (m.join_spectator connection).2⟩)
        ((s.after_match id (m.join_spectator connection).1).2
          ++ [.returned ⟨id, .White, true, (m.join_spectator connection).2⟩])
  | full (id : RoomId) (connection : Connection) (m : Match) (here : s.match_of id = some m)
      (refused : (m.join_spectator connection).2 = 0) :
      Resumed s (.join_spectator id connection)
        ((s.after_match id (m.join_spectator connection).1).1.then_do
          (.give_back id join_reasons.kSpectatorLimitReached))
        (s.after_match id (m.join_spectator connection).1).2
  | enqueued (id : RoomId) (source : PieceColor) (message : ClientMessage) (m : Match)
      (here : s.match_of id = some m) :
      Resumed s (.enqueue id source message) (s.after_match id (m.enqueue source message, [])).1 []
  | viewer_left (seat : Seat) (m : Match) (here : s.match_of seat.room = some m)
      (views : seat.spectator = true) :
      Resumed s (.leave seat)
        ((s.after_match seat.room (m.leave_spectator seat.watcher, [])).1.then_do (.reap seat.room))
        (s.after_match seat.room (m.leave_spectator seat.watcher, [])).2
  | player_left (seat : Seat) (m : Match) (here : s.match_of seat.room = some m)
      (plays : seat.spectator = false) :
      Resumed s (.leave seat)
        ((s.after_match seat.room (m.on_disconnect seat.color)).1.then_do (.reap seat.room))
        (s.after_match seat.room (m.on_disconnect seat.color)).2
  | registered (key : String) (seat : Seat) :
      Resumed s (.register_room key seat)
        (({ s with directory := s.directory.map fun d => Function.update d key (some s.self_url) }
          : RoomManager).hand_over seat) [.returned seat]
  | redirected (name url : String) (owned : s.directory.bind (fun d => d name) = some url) :
      Resumed s (.owner_of name) s [.redirected url]
  | unowned (name : String) (unowned : s.directory.bind (fun d => d name) = none) :
      Resumed s (.owner_of name) s [.refused join_reasons.kNoSuchRoom]
  | undo_gone (id : RoomId) (gone : s.rooms id = none) :
      Resumed s (.undo_join_any id) s [.refused ""]
  | undo_last (id : RoomId) (room : Room) (here : s.rooms id = some room)
      (last : room.connected - 1 ≤ 0) :
      Resumed s (.undo_join_any id)
        (((s.unmark_waiting id room.waiting_rating).set_room id none).then_do (.unschedule id ""))
        [.reaped id, .refused ""]
  | undo_waits (id : RoomId) (room : Room) (here : s.rooms id = some room)
      (stays : ¬ room.connected - 1 ≤ 0) (one : room.seats_taken - 1 = 1) :
      Resumed s (.undo_join_any id)
        ((s.set_room id (some { room with
          seats_taken := room.seats_taken - 1
          connected := room.connected - 1 })).mark_waiting id room.waiting_rating) [.refused ""]
  | undo_stays (id : RoomId) (room : Room) (here : s.rooms id = some room)
      (stays : ¬ room.connected - 1 ≤ 0) (more : room.seats_taken - 1 ≠ 1) :
      Resumed s (.undo_join_any id)
        (s.set_room id (some { room with
          seats_taken := room.seats_taken - 1
          connected := room.connected - 1 })) [.refused ""]
  | give_back_gone (id : RoomId) (reason : String) (gone : s.rooms id = none) :
      Resumed s (.give_back id reason) s [.refused reason]
  | given_back (id : RoomId) (reason : String) (room : Room) (here : s.rooms id = some room) :
      Resumed s (.give_back id reason)
        (s.set_room id (some { room with connected := room.connected - 1 })) [.refused reason]
  | reap_gone (id : RoomId) (gone : s.rooms id = none) : Resumed s (.reap id) s []
  | reap_stays (id : RoomId) (room : Room) (here : s.rooms id = some room)
      (stays : ¬ room.connected - 1 ≤ 0) :
      Resumed s (.reap id) (s.set_room id (some { room with connected := room.connected - 1 })) []
  | reaped (id : RoomId) (room : Room) (here : s.rooms id = some room)
      (last : room.connected - 1 ≤ 0) :
      Resumed s (.reap id)
        ((({ s with named_rooms := if room.name = "" then s.named_rooms
              else Function.update s.named_rooms room.name none }.unmark_waiting id
            room.waiting_rating).set_room id none).then_do (.unschedule id room.name)) [.reaped id]
  | unscheduled (id : RoomId) (name : String) (silent : ¬ (s.directory.isSome ∧ name ≠ "")) :
      Resumed s (.unschedule id name)
        { s with scheduled := Function.update s.scheduled id false } []
  | forgets (id : RoomId) (name : String) (told : s.directory.isSome ∧ name ≠ "") :
      Resumed s (.unschedule id name)
        (({ s with scheduled := Function.update s.scheduled id false } : RoomManager).then_do
          (.forget_room name)) []
  | forgotten (name : String) :
      Resumed s (.forget_room name)
        { s with directory := s.directory.map fun d => Function.update d name none } []

/-- **The inversion of a part of a call.** -/
theorem resume_cases {s s' : RoomManager} {p : Pending} {os : List RoomEvent}
    (h : s.resume p = .ok (s', os)) : Resumed s p s' os := by
  cases p with
  | join_any id username rating connection => exact .join_any _ _ _ _ _ _ h
  | create_room id key username rating connection => exact .create_room _ _ _ _ _ _ _ h
  | join id username rating connection => exact .join _ _ _ _ _ _ h
  | undo_join_any id =>
      rw [resume] at h
      cases hr : s.rooms id with
      | none =>
          rw [hr] at h
          obtain ⟨rfl, rfl⟩ := Prod.mk.inj (Except.ok.inj h)
          exact .undo_gone id hr
      | some room =>
          rw [hr] at h
          dsimp only at h
          split_ifs at h with hlast hone
          · obtain ⟨rfl, rfl⟩ := Prod.mk.inj (Except.ok.inj h)
            exact .undo_last id room hr hlast
          · obtain ⟨rfl, rfl⟩ := Prod.mk.inj (Except.ok.inj h)
            exact .undo_waits id room hr hlast hone
          · obtain ⟨rfl, rfl⟩ := Prod.mk.inj (Except.ok.inj h)
            exact .undo_stays id room hr hlast hone
  | register_room key seat =>
      obtain ⟨rfl, rfl⟩ := Prod.mk.inj (Except.ok.inj h)
      exact .registered key seat
  | owner_of name =>
      rw [resume] at h
      cases howner : s.directory.bind fun d => d name with
      | none =>
          rw [howner] at h
          obtain ⟨rfl, rfl⟩ := Prod.mk.inj (Except.ok.inj h)
          exact .unowned name howner
      | some url =>
          rw [howner] at h
          obtain ⟨rfl, rfl⟩ := Prod.mk.inj (Except.ok.inj h)
          exact .redirected name url howner
  | reconnect id color connection =>
      rw [resume] at h
      obtain ⟨hm, hnothing⟩ | ⟨m, hm, hpart⟩ := with_match_found h
      · obtain ⟨rfl, rfl⟩ := Prod.mk.inj hnothing
        exact .nowhere _ id rfl hm
      · by_cases hback : (m.reconnect color connection).2 = true
        · dsimp only at hpart
          rw [if_pos hback] at hpart
          obtain ⟨rfl, rfl⟩ := Prod.mk.inj (Except.ok.inj hpart)
          exact .reconnected id color connection m hm hback
        · dsimp only at hpart
          rw [if_neg hback] at hpart
          obtain ⟨rfl, rfl⟩ := Prod.mk.inj (Except.ok.inj hpart)
          exact .not_reconnected id color connection m hm (Bool.eq_false_iff.mpr hback)
  | join_spectator id connection =>
      rw [resume] at h
      obtain ⟨hm, hnothing⟩ | ⟨m, hm, hpart⟩ := with_match_found h
      · obtain ⟨rfl, rfl⟩ := Prod.mk.inj hnothing
        exact .nowhere _ id rfl hm
      · by_cases hfull : (m.join_spectator connection).2 = 0
        · dsimp only at hpart
          rw [if_pos hfull] at hpart
          obtain ⟨rfl, rfl⟩ := Prod.mk.inj (Except.ok.inj hpart)
          exact .full id connection m hm hfull
        · dsimp only at hpart
          rw [if_neg hfull] at hpart
          obtain ⟨rfl, rfl⟩ := Prod.mk.inj (Except.ok.inj hpart)
          exact .watches id connection m hm hfull
  | give_back id reason =>
      rw [resume] at h
      cases hr : s.rooms id with
      | none =>
          rw [hr] at h
          obtain ⟨rfl, rfl⟩ := Prod.mk.inj (Except.ok.inj h)
          exact .give_back_gone id reason hr
      | some room =>
          rw [hr] at h
          obtain ⟨rfl, rfl⟩ := Prod.mk.inj (Except.ok.inj h)
          exact .given_back id reason room hr
  | enqueue id source message =>
      rw [resume] at h
      obtain ⟨hm, hnothing⟩ | ⟨m, hm, hpart⟩ := with_match_found h
      · obtain ⟨rfl, rfl⟩ := Prod.mk.inj hnothing
        exact .nowhere _ id rfl hm
      · obtain ⟨rfl, rfl⟩ := Prod.mk.inj (Except.ok.inj hpart)
        exact .enqueued id source message m hm
  | leave seat =>
      rw [resume] at h
      obtain ⟨hm, hnothing⟩ | ⟨m, hm, hpart⟩ := with_match_found h
      · obtain ⟨rfl, rfl⟩ := Prod.mk.inj hnothing
        exact .nowhere _ seat.room rfl hm
      · obtain ⟨rfl, rfl⟩ := Prod.mk.inj (Except.ok.inj hpart)
        by_cases hviews : seat.spectator = true
        · rw [if_pos hviews]
          exact .viewer_left seat m hm hviews
        · rw [if_neg hviews]
          exact .player_left seat m hm (Bool.eq_false_iff.mpr hviews)
  | reap id =>
      rw [resume] at h
      cases hr : s.rooms id with
      | none =>
          rw [hr] at h
          obtain ⟨rfl, rfl⟩ := Prod.mk.inj (Except.ok.inj h)
          exact .reap_gone id hr
      | some room =>
          rw [hr] at h
          dsimp only at h
          by_cases hlast : room.connected - 1 ≤ 0
          · rw [if_pos hlast] at h
            obtain ⟨rfl, rfl⟩ := Prod.mk.inj (Except.ok.inj h)
            exact .reaped id room hr hlast
          · rw [if_neg hlast] at h
            obtain ⟨rfl, rfl⟩ := Prod.mk.inj (Except.ok.inj h)
            exact .reap_stays id room hr hlast
  | unschedule id name =>
      rw [resume] at h
      dsimp only at h
      split_ifs at h with htold
      · obtain ⟨rfl, rfl⟩ := Prod.mk.inj (Except.ok.inj h)
        exact .forgets id name htold
      · obtain ⟨rfl, rfl⟩ := Prod.mk.inj (Except.ok.inj h)
        exact .unscheduled id name htold
  | forget_room name =>
      obtain ⟨rfl, rfl⟩ := Prod.mk.inj (Except.ok.inj h)
      exact .forgotten name

/-- What a step of the rooms does: a call begins, or ends at once, or goes on. -/
inductive Executed (s : RoomManager) : Op → RoomManager → List RoomEvent → Prop
  | opens (username : String) (rating : Int) (connection : Connection)
      (nobody : s.closest_waiting_room rating = none) :
      Executed s (.join_any username rating connection)
        (((s.open_room ⟨1, 1, rating, ""⟩).mark_waiting s.next_room_id rating).then_do
          (.join_any s.next_room_id username rating connection)) []
  | pairs (username : String) (rating : Int) (connection : Connection) (id : RoomId) (room : Room)
      (closest : s.closest_waiting_room rating = some id) (here : s.rooms id = some room) :
      Executed s (.join_any username rating connection)
        (((s.unmark_waiting id room.waiting_rating).set_room id (some { room with
          seats_taken := room.seats_taken + 1
          connected := room.connected + 1 })).then_do
            (.join_any id username rating connection)) []
  | creates (key username : String) (rating : Int) (connection : Connection)
      (drawn : is_room_key key ∧ s.named_rooms key = none) :
      Executed s (.create_room key username rating connection)
        ({ s.open_room ⟨1, 1, 0, key⟩ with
          named_rooms := Function.update s.named_rooms key (some s.next_room_id) }.then_do
            (.create_room s.next_room_id key username rating connection)) []
  | draws_again (key username : String) (rating : Int) (connection : Connection)
      (taken : ¬ (is_room_key key ∧ s.named_rooms key = none)) :
      Executed s (.create_room key username rating connection) s []
  | enters (name username : String) (rating : Int) (connection : Connection) (id : RoomId)
      (s' : RoomManager) (os : List RoomEvent) (named : s.named_rooms name = some id)
      (enters : Enters s id username rating connection s' os) :
      Executed s (.join_room name username rating connection) s' os
  | looks_up (name username : String) (rating : Int) (connection : Connection)
      (unknown : s.named_rooms name = none) (shared : s.directory.isSome) :
      Executed s (.join_room name username rating connection) (s.then_do (.owner_of name)) []
  | no_such_room (name username : String) (rating : Int) (connection : Connection)
      (unknown : s.named_rooms name = none) (alone : ¬ s.directory.isSome) :
      Executed s (.join_room name username rating connection) s
        [.refused join_reasons.kNoSuchRoom]
  | sends (id : RoomId) (source : PieceColor) (message : ClientMessage) (room : Room)
      (here : s.rooms id = some room) :
      Executed s (.enqueue id source message) (s.then_do (.enqueue id source message)) []
  | sends_nowhere (id : RoomId) (source : PieceColor) (message : ClientMessage)
      (gone : s.rooms id = none) : Executed s (.enqueue id source message) s []
  | leaves (seat : Seat) (room : Room) (held : seat ∈ s.seats)
      (here : s.rooms seat.room = some room) :
      Executed s (.on_disconnect seat)
        (({ s with seats := s.seats.erase seat } : RoomManager).then_do (.leave seat)) []
  | leaves_nowhere (seat : Seat) (held : seat ∈ s.seats) (gone : s.rooms seat.room = none) :
      Executed s (.on_disconnect seat) { s with seats := s.seats.erase seat } []
  | unheld (seat : Seat) (unheld : seat ∉ s.seats) : Executed s (.on_disconnect seat) s []
  | resumes (call : Nat) (p : Pending) (s' : RoomManager) (os : List RoomEvent)
      (pending : s.calls[call]? = some p)
      (resumes : { s with calls := s.calls.eraseIdx call }.resume p = .ok (s', os)) :
      Executed s (.proceed call) s' os
  | no_call (call : Nat) (answered : s.calls[call]? = none) : Executed s (.proceed call) s []
  | ticks (id : RoomId) (now : Int) (elapsed_ms : Nat) (m : Match) (r : Match × List MatchEvent)
      (here : s.match_of id = some m) (step : m.tick now elapsed_ms = .ok r) :
      Executed s (.tick id now elapsed_ms) (s.after_match id r).1 (s.after_match id r).2
  /-- The room is not scheduled, or its match is gone. -/
  | ticks_nothing (id : RoomId) (now : Int) (elapsed_ms : Nat) :
      Executed s (.tick id now elapsed_ms) s []
  | directory_changes (name : String) (owner : Option String) :
      Executed s (.directory_changes name owner)
        { s with directory := s.directory.map fun d => Function.update d name owner } []

/-- **The inversion of a step.** -/
theorem exec_cases {s s' : RoomManager} {op : Op} {os : List RoomEvent}
    (h : exec s op = .ok (s', os)) : Executed s op s' os := by
  cases op with
  | join_any username rating connection =>
      rw [exec, start_join_any] at h
      cases hc : s.closest_waiting_room rating with
      | none =>
          rw [hc] at h
          obtain ⟨rfl, rfl⟩ := Prod.mk.inj (Except.ok.inj h)
          exact .opens _ _ _ hc
      | some id =>
          rw [hc] at h
          dsimp only at h
          cases hr : s.rooms id with
          | none =>
              rw [hr] at h
              cases h
          | some room =>
              rw [hr] at h
              obtain ⟨rfl, rfl⟩ := Prod.mk.inj (Except.ok.inj h)
              exact .pairs _ _ _ id room hc hr
  | create_room key username rating connection =>
      rw [exec] at h
      split_ifs at h with hdrawn
      · obtain ⟨rfl, rfl⟩ := Prod.mk.inj (Except.ok.inj h)
        exact .creates _ _ _ _ hdrawn
      · obtain ⟨rfl, rfl⟩ := Prod.mk.inj (Except.ok.inj h)
        exact .draws_again _ _ _ _ hdrawn
  | join_room name username rating connection =>
      rw [exec] at h
      cases hname : s.named_rooms name with
      | none =>
          rw [hname] at h
          dsimp only at h
          split_ifs at h with hdir
          · obtain ⟨rfl, rfl⟩ := Prod.mk.inj (Except.ok.inj h)
            exact .looks_up _ _ _ _ hname hdir
          · obtain ⟨rfl, rfl⟩ := Prod.mk.inj (Except.ok.inj h)
            exact .no_such_room _ _ _ _ hname hdir
      | some id =>
          rw [hname] at h
          exact .enters _ _ _ _ id _ _ hname (start_join_found_enters h)
  | enqueue id source message =>
      rw [exec] at h
      cases hr : s.rooms id with
      | none =>
          rw [hr] at h
          obtain ⟨rfl, rfl⟩ := Prod.mk.inj (Except.ok.inj h)
          exact .sends_nowhere _ _ _ hr
      | some room =>
          rw [hr] at h
          obtain ⟨rfl, rfl⟩ := Prod.mk.inj (Except.ok.inj h)
          exact .sends _ _ _ room hr
  | on_disconnect seat =>
      rw [exec] at h
      by_cases hmem : seat ∈ s.seats
      · rw [if_pos hmem] at h
        dsimp only at h
        cases hr : s.rooms seat.room with
        | none =>
            rw [hr] at h
            obtain ⟨rfl, rfl⟩ := Prod.mk.inj (Except.ok.inj h)
            exact .leaves_nowhere seat hmem hr
        | some room =>
            rw [hr] at h
            obtain ⟨rfl, rfl⟩ := Prod.mk.inj (Except.ok.inj h)
            exact .leaves seat room hmem hr
      · rw [if_neg hmem] at h
        obtain ⟨rfl, rfl⟩ := Prod.mk.inj (Except.ok.inj h)
        exact .unheld seat hmem
  | proceed call =>
      rw [exec] at h
      cases hc : s.calls[call]? with
      | none =>
          rw [hc] at h
          obtain ⟨rfl, rfl⟩ := Prod.mk.inj (Except.ok.inj h)
          exact .no_call call hc
      | some p =>
          rw [hc] at h
          exact .resumes call p _ _ hc h
  | tick id now elapsed_ms =>
      obtain hnothing | ⟨m, r, hm, ht, hsteps⟩ := exec_tick_found h
      · obtain ⟨rfl, rfl⟩ := Prod.mk.inj hnothing
        exact .ticks_nothing id now elapsed_ms
      · obtain ⟨rfl, rfl⟩ := Prod.mk.inj hsteps
        exact .ticks id now elapsed_ms m r hm ht
  | directory_changes name owner =>
      obtain ⟨rfl, rfl⟩ := Prod.mk.inj (Except.ok.inj h)
      exact .directory_changes name owner

/-! ## The parts of a call -/

/-- The count that a call finds when it gives back a connection. -/
def found (s : RoomManager) : Pending → Option Int
  | .give_back id _ => (s.rooms id).map Room.connected
  | _ => none

/-- A step does something to the ledger, and whoever gets a player's seat plays. -/
structure Steps (s s' : RoomManager) (unreaped : Option Int) (os : List RoomEvent) : Prop where
  effect : Irregular s.ledger ∨ Effect s.owned unreaped s.ledger s'.ledger (did os)
  owned : ∀ id color, s'.owned id color → s.owned id color ∨ s'.plays id color

/-- What an owner owns stays owned when a call is put back. -/
theorem owned_le {s : RoomManager} {id : RoomId} {color : PieceColor} (p : Pending)
    (h : s.owned id color) : (s.then_do p).owned id color := by
  obtain ⟨watcher, hmem⟩ := h
  refine ⟨watcher, ?_⟩
  show _ ∈ s.seats ++ (s.calls ++ [p]).filterMap carried
  rw [List.filterMap_append, ← List.append_assoc]
  exact List.mem_append_left _ hmem

/-- Whose seat a call carries owns it. -/
theorem carried_mem (s : RoomManager) {p : Pending} {seat : Seat} (h : carried p = some seat) :
    seat ∈ (s.then_do p).seats ++ (s.then_do p).calls.filterMap carried := by
  show _ ∈ s.seats ++ (s.calls ++ [p]).filterMap carried
  rw [List.filterMap_append]
  refine List.mem_append_right _ (List.mem_append_right _ ?_)
  exact List.mem_filterMap.mpr ⟨p, List.mem_singleton_self p, h⟩

theorem owned_then_do {s : RoomManager} {p : Pending} {id : RoomId} {color : PieceColor}
    (h : (s.then_do p).owned id color) :
    s.owned id color ∨ ∃ watcher, carried p = some ⟨id, color, false, watcher⟩ := by
  obtain ⟨watcher, hmem⟩ := h
  have hmem : _ ∈ s.seats ++ (s.calls ++ [p]).filterMap carried := hmem
  rw [List.filterMap_append, ← List.append_assoc] at hmem
  rcases List.mem_append.mp hmem with hmem | hmem
  · exact .inl ⟨watcher, hmem⟩
  · obtain ⟨q, hq, hcarried⟩ := List.mem_filterMap.mp hmem
    rw [List.mem_singleton.mp hq] at hcarried
    exact .inr ⟨watcher, hcarried⟩

/-- A call that carries no seat adds no owner. -/
theorem owned_then_do_none {s : RoomManager} {p : Pending} (hp : carried p = none) {id : RoomId}
    {color : PieceColor} (h : (s.then_do p).owned id color) : s.owned id color := by
  rcases owned_then_do h with h | ⟨_, h⟩
  · exact h
  · rw [hp] at h
    cases h

theorem owned_hand_over {s : RoomManager} {seat : Seat} {id : RoomId} {color : PieceColor}
    (h : (s.hand_over seat).owned id color) :
    s.owned id color ∨ ∃ watcher, seat = ⟨id, color, false, watcher⟩ := by
  obtain ⟨watcher, hmem⟩ := h
  have hmem : _ ∈ (s.seats ++ [seat]) ++ s.calls.filterMap carried := hmem
  rw [List.append_assoc] at hmem
  rcases List.mem_append.mp hmem with hmem | hmem
  · exact .inl ⟨watcher, List.mem_append_left _ hmem⟩
  · rcases List.mem_append.mp hmem with hmem | hmem
    · exact .inr ⟨watcher, (List.mem_singleton.mp hmem).symm⟩
    · exact .inl ⟨watcher, List.mem_append_right _ hmem⟩

/-- A call that nobody counts has done its last part, and left nothing but another
such call. -/
theorem steps_idle {s : RoomManager} {p : Pending} (hatt : attached p = none)
    (hjoin : joining p = none) (hundo : undoing p = false) (unreaped : Option Int)
    {s' : RoomManager} {os : List RoomEvent} (hledger : s'.ledger = s.ledger)
    (howned : ∀ id color, s'.owned id color → s.owned id color) (hos : did os = silence) :
    Steps (s.then_do p) s' unreaped os where
  effect := by
    have hsame : (s.then_do p).ledger = s.ledger := by
      rw [ledger_then_do, hatt, hjoin, hundo]
      rfl
    rw [hsame, hledger, hos]
    exact .inr .kept
  owned id color h := .inl (owned_le p (howned id color h))

/-- A continuation that hands the seat to somebody. -/
def Seats (seated : RoomManager → Seat → RoomManager × List RoomEvent) : Prop :=
  ∀ s seat, (seated s seat).1.ledger = (s.hand_over seat).ledger ∧
    (∀ id color, (seated s seat).1.owned id color → (s.hand_over seat).owned id color) ∧
    did (seated s seat).2 = silence

theorem seats_return : Seats return_seat := fun _ _ => ⟨rfl, fun _ _ h => h, rfl⟩

/-- The directory is told first. -/
theorem seats_register (key : String) : Seats fun s seat =>
    if s.directory.isSome then (s.then_do (.register_room key seat), [])
    else s.return_seat seat := by
  intro s seat
  by_cases h : s.directory.isSome
  · simp only [if_pos h]
    refine ⟨?_, fun id color howned => ?_, rfl⟩
    · rw [ledger_then_do, ledger_hand_over]
      rfl
    · obtain ⟨watcher, hmem⟩ := howned
      refine ⟨watcher, ?_⟩
      have hmem : _ ∈ s.seats ++ (s.calls ++ [Pending.register_room key seat]).filterMap carried :=
        hmem
      show _ ∈ (s.seats ++ [seat]) ++ s.calls.filterMap carried
      rw [List.filterMap_append, List.mem_append, List.mem_append] at hmem
      rw [List.mem_append, List.mem_append]
      rcases hmem with hmem | hmem | hmem
      · exact .inl (.inl hmem)
      · exact .inr hmem
      · exact .inl (.inr hmem)
  · simp only [if_neg h]
    exact seats_return s seat

/-- A call counts for a room that has no match: there is none. -/
theorem steps_nowhere {s : RoomManager} {p : Pending} {id : RoomId} (hm : s.match_of id = none)
    (hatt : attached p = some id) (unreaped : Option Int) :
    Steps (s.then_do p) s unreaped [] := by
  refine ⟨.inl (.nowhere id hm ?_), fun _ _ howned => .inl (owned_le p howned)⟩
  rw [ledger_then_do, hatt]
  exact plus_pos _ _

/-- Whoever is given a colour plays it. -/
theorem join_plays {m : Match} {username : String} {rating : Int} {connection : Connection}
    {r : Match × List MatchEvent} {color : PieceColor}
    (h : m.join username rating connection = (r, some color)) :
    (r.1.audience.player color).isSome := by
  unfold Match.join at h
  rcases hs : m.audience.seat username rating connection connection with ⟨a, assigned⟩
  rw [hs] at h
  cases assigned with
  | none => cases h
  | some c =>
      obtain ⟨rfl, hc⟩ := Prod.mk.inj h
      obtain rfl := Option.some.inj hc
      rw [(MatchAudience.seat_spec hs).player, if_pos rfl]
      rfl

/-- A call that has taken a seat joins the match. -/
theorem join_match_steps {s s' : RoomManager} {p : Pending} {id : RoomId} {username : String}
    {rating : Int} {connection : Connection}
    {seated refused : RoomManager → Seat → RoomManager × List RoomEvent} {os : List RoomEvent}
    (h : s.join_match id username rating connection seated refused = .ok (s', os))
    (hatt : attached p = some id) (hjoin : joining p = some id) (hundo : undoing p = false)
    (hseated : Seats seated)
    (hrefused : ∀ t seat id color, (refused t seat).1.owned id color → owned t id color)
    (unreaped : Option Int) : Steps (s.then_do p) s' unreaped os := by
  have hl : (s.then_do p).ledger
      = { s.ledger with held := plus s.held id, joins := plus s.joins id } := by
    rw [ledger_then_do, hatt, hjoin, hundo]
    rfl
  have habout : 0 < (s.then_do p).ledger.joins id := by
    rw [hl]
    exact plus_pos _ _
  obtain ⟨hm, rfl, rfl⟩ | ⟨m, r, hm, hj, rfl, rfl⟩ | ⟨m, r, color, hm, hj, rfl, rfl⟩ :=
    join_match_cases h
  · exact steps_nowhere hm hatt unreaped
  · refine ⟨.inl (.join_refused id m username rating connection hm habout (by rw [hj])),
      fun j c howned => .inl (owned_le p ?_)⟩
    have hrest : (s.after_match id r).1.owned j c := hrefused _ _ _ _ howned
    exact hrest
  · obtain ⟨hledger, howned, hevents⟩ := hseated (s.after_match id r).1 ⟨id, color, false, 0⟩
    have hdid : did ((s.after_match id r).2 ++ _) = only id r.2 := did_then_answer id r.2 hevents
    have heff : Effect (s.then_do p).owned unreaped (s.then_do p).ledger _ _ :=
      .joined id m username rating connection color hm habout (by rw [hj])
    refine ⟨?_, fun j c hown => ?_⟩
    · rw [hj, hl] at heff
      simp only [minus_plus] at heff
      rw [hl]
      dsimp only
      rw [hledger, ledger_hand_over, hdid]
      exact .inr heff
    · rcases owned_hand_over (howned j c hown) with hbefore | ⟨watcher, hseat⟩
      · exact .inl (owned_le p hbefore)
      · -- the seat is the one just taken in the match
        obtain ⟨rfl, rfl, -, -⟩ := Seat.mk.inj hseat
        have hmatch : (seated (s.after_match id r).1 ⟨id, color, false, 0⟩).1.match_of
            = (s.after_match id r).1.match_of := congrArg Ledger.match_of hledger
        refine .inr ⟨r.1, ?_, ?_⟩
        · rw [hmatch]
          exact Function.update_self ..
        · exact join_plays hj

/-- A call that counts for a room, neither about to join nor undoing anything. -/
theorem ledger_then_attached (s : RoomManager) {p : Pending} {id : RoomId}
    (hatt : attached p = some id) (hjoin : joining p = none) (hundo : undoing p = false) :
    (s.then_do p).ledger = { s.ledger with held := plus s.held id } := by
  rw [ledger_then_do, hatt, hjoin, hundo]
  rfl

/-- The match of a call steps, and the call still counts, now as `q`. -/
theorem steps_then {s : RoomManager} {p q : Pending} {id : RoomId} {m : Match}
    {r : Match × List MatchEvent} (call : Match.Call) (hm : s.match_of id = some m)
    (hexec : Match.exec m call = .ok r)
    (hother : ∀ username rating connection, call ≠ .join username rating connection)
    (howns : ∀ color, call = .on_disconnect color → (s.then_do p).owned id color)
    (hp : attached p = some id ∧ joining p = none ∧ undoing p = false)
    (hq : attached q = some id ∧ joining q = none ∧ undoing q = false) (hqc : carried q = none)
    (unreaped : Option Int) :
    Steps (s.then_do p) ((s.after_match id r).1.then_do q) unreaped (s.after_match id r).2 where
  effect := by
    have heff : Effect (s.then_do p).owned unreaped (s.then_do p).ledger _ _ :=
      .stepped id m call r hm hexec hother howns
    rw [ledger_then_attached s hp.1 hp.2.1 hp.2.2] at heff ⊢
    rw [ledger_then_attached _ hq.1 hq.2.1 hq.2.2]
    have hdid : did (s.after_match id r).2 = only id r.2 := did_match id r.2
    rw [hdid]
    exact .inr heff
  owned j c h := by
    have hbefore : (s.after_match id r).1.owned j c := owned_then_do_none hqc h
    exact .inl (owned_le p hbefore)

/-- The match of a call steps, and the call returns a seat of that room. -/
theorem steps_return {s : RoomManager} {p : Pending} {id : RoomId} {m : Match} {call : Match.Call}
    {r : Match × List MatchEvent} {seat : Seat} (hm : s.match_of id = some m)
    (hexec : Match.exec m call = .ok r)
    (hother : ∀ username rating connection, call ≠ .join username rating connection)
    (hdrop : ∀ color, call ≠ .on_disconnect color)
    (hp : attached p = some id ∧ joining p = none ∧ undoing p = false) (hroom : seat.room = id)
    (hplays : seat.spectator = false → (r.1.audience.player seat.color).isSome)
    (unreaped : Option Int) :
    Steps (s.then_do p) ((s.after_match id r).1.hand_over seat) unreaped
      ((s.after_match id r).2 ++ [.returned seat]) where
  effect := by
    have heff : Effect (s.then_do p).owned unreaped (s.then_do p).ledger _ _ :=
      .stepped id m call r hm hexec hother (fun color h => absurd h (hdrop color))
    rw [ledger_then_attached s hp.1 hp.2.1 hp.2.2] at heff ⊢
    rw [ledger_hand_over, hroom]
    have hdid : did ((s.after_match id r).2 ++ [.returned seat]) = only id r.2 :=
      did_then_answer id r.2 rfl
    rw [hdid]
    exact .inr heff
  owned j c h := by
    rcases owned_hand_over h with hbefore | ⟨watcher, hseat⟩
    · have hbefore : s.owned j c := hbefore
      exact .inl (owned_le p hbefore)
    · refine .inr ⟨r.1, ?_, ?_⟩
      · rw [← hroom, hseat]
        exact Function.update_self ..
      · have hcolor := hplays (by rw [hseat])
        rw [hseat] at hcolor
        exact hcolor

/-- Whoever is let back in plays. -/
theorem reconnect_plays {m : Match} {color : PieceColor} {connection : Connection}
    {r : Match × List MatchEvent} (h : m.reconnect color connection = (r, true)) :
    (r.1.audience.player color).isSome := by
  rcases Match.reconnect_spec m color connection with ⟨hno, _⟩ | ⟨_, _, _, hm, _⟩
  · rw [h] at hno
    cases (Prod.mk.inj hno).2
  · rw [h] at hm
    dsimp only at hm
    rw [hm]
    dsimp only
    rw [MatchAudience.player_reseat, if_pos rfl]
    rfl

/-- The rooms give up a connection that counted. -/
theorem give_up_steps {s s' : RoomManager} {p : Pending} {id : RoomId} {unreaped : Option Int}
    {os : List RoomEvent} (hp : attached p = some id ∧ joining p = none ∧ undoing p = false)
    (heff : Effect (s.then_do p).owned unreaped { s.ledger with held := plus s.held id } s'.ledger
      silence)
    (howned : ∀ j color, s'.owned j color → s.owned j color) (hos : did os = silence) :
    Steps (s.then_do p) s' unreaped os where
  effect := by
    rw [ledger_then_attached s hp.1 hp.2.1 hp.2.2, hos]
    exact .inr heff
  owned j color h := .inl (owned_le p (howned j color h))

/-- The room was gone already. -/
theorem lost_steps {s : RoomManager} {p : Pending} {id : RoomId} {os : List RoomEvent}
    (hp : attached p = some id ∧ joining p = none ∧ undoing p = false) (hr : s.rooms id = none)
    (hos : did os = silence) (unreaped : Option Int) : Steps (s.then_do p) s unreaped os := by
  refine give_up_steps hp ?_ (fun _ _ h => h) hos
  have heff : Effect (s.then_do p).owned unreaped { s.ledger with held := plus s.held id } _ _ :=
    .lost id hr (plus_pos s.held id)
  rw [minus_plus] at heff
  exact heff

theorem give_back_steps {s s' : RoomManager} {id : RoomId} {reason : String} {os : List RoomEvent}
    (h : Resumed s (.give_back id reason) s' os) :
    Steps (s.then_do (.give_back id reason)) s' (s.found (.give_back id reason)) os := by
  cases h with
  | nowhere _ _ asks => cases asks
  | give_back_gone _ _ gone => exact lost_steps ⟨rfl, rfl, rfl⟩ gone rfl _
  | given_back _ _ room here =>
      refine give_up_steps ⟨rfl, rfl, rfl⟩ ?_ (fun _ _ h => h) rfl
      have heff : Effect (s.then_do (.give_back id reason)).owned (s.found (.give_back id reason))
          { s.ledger with held := plus s.held id } _ _ :=
        .given_back id room here (plus_pos s.held id) (congrArg (Option.map Room.connected) here)
      rw [minus_plus] at heff
      exact heff

theorem reap_steps {s s' : RoomManager} {id : RoomId} {os : List RoomEvent}
    (h : Resumed s (.reap id) s' os) (unreaped : Option Int) :
    Steps (s.then_do (.reap id)) s' unreaped os := by
  cases h with
  | nowhere _ _ asks => cases asks
  | reap_gone _ gone => exact lost_steps ⟨rfl, rfl, rfl⟩ gone rfl _
  | reap_stays _ room here stays =>
      refine give_up_steps ⟨rfl, rfl, rfl⟩ ?_ (fun _ _ h => h) rfl
      have heff : Effect (s.then_do (.reap id)).owned unreaped
          { s.ledger with held := plus s.held id } _ _ :=
        .left id room here (plus_pos s.held id) stays
      rw [minus_plus] at heff
      exact heff
  | reaped _ room here last =>
      refine give_up_steps ⟨rfl, rfl, rfl⟩ ?_ (fun j color h => ?_) rfl
      · have heff : Effect (s.then_do (.reap id)).owned unreaped
            { s.ledger with held := plus s.held id } _ _ :=
          .reaped id room here (plus_pos s.held id) last
        rw [minus_plus] at heff
        rw [ledger_then_do]
        exact heff
      · have hbefore : s.owned j color := owned_then_do_none rfl h
        exact hbefore

/-- A returning player is let in, or the connection is to be given back. -/
theorem reconnect_steps {s s' : RoomManager} {id : RoomId} {color : PieceColor}
    {connection : Connection} {os : List RoomEvent}
    (h : Resumed s (.reconnect id color connection) s' os) (unreaped : Option Int) :
    Steps (s.then_do (.reconnect id color connection)) s' unreaped os := by
  cases h with
  | nowhere _ _ asks gone =>
      obtain rfl := Option.some.inj asks
      exact steps_nowhere gone rfl _
  | reconnected _ _ _ m here back =>
      have hexec : Match.exec m (.reconnect color connection)
          = .ok (m.reconnect color connection).1 := rfl
      exact steps_return here hexec (fun _ _ _ => nofun) (fun _ => nofun) ⟨rfl, rfl, rfl⟩ rfl
        (fun _ => reconnect_plays (Prod.ext rfl back)) _
  | not_reconnected _ _ _ m here refused =>
      exact steps_then (.reconnect color connection) here rfl (fun _ _ _ => nofun) (fun _ => nofun)
        ⟨rfl, rfl, rfl⟩ ⟨rfl, rfl, rfl⟩ rfl _

/-- The same for a viewer. -/
theorem join_spectator_steps {s s' : RoomManager} {id : RoomId} {connection : Connection}
    {os : List RoomEvent} (h : Resumed s (.join_spectator id connection) s' os)
    (unreaped : Option Int) :
    Steps (s.then_do (.join_spectator id connection)) s' unreaped os := by
  cases h with
  | nowhere _ _ asks gone =>
      obtain rfl := Option.some.inj asks
      exact steps_nowhere gone rfl _
  | watches _ _ m here admitted =>
      have hexec : Match.exec m (.join_spectator connection)
          = .ok (m.join_spectator connection).1 := rfl
      exact steps_return here hexec (fun _ _ _ => nofun) (fun _ => nofun) ⟨rfl, rfl, rfl⟩ rfl
        (fun hplayer => absurd hplayer.symm Bool.false_ne_true) _
  | full _ _ m here refused =>
      exact steps_then (.join_spectator connection) here rfl (fun _ _ _ => nofun) (fun _ => nofun)
        ⟨rfl, rfl, rfl⟩ ⟨rfl, rfl, rfl⟩ rfl _

theorem enqueue_steps {s s' : RoomManager} {id : RoomId} {source : PieceColor}
    {message : ClientMessage} {os : List RoomEvent}
    (h : Resumed s (.enqueue id source message) s' os) (unreaped : Option Int) :
    Steps (s.then_do (.enqueue id source message)) s' unreaped os := by
  cases h with
  | nowhere => exact steps_idle rfl rfl rfl _ rfl (fun _ _ h => h) rfl
  | enqueued _ _ _ m here =>
      have hexec : Match.exec m (.enqueue source message)
          = .ok (m.enqueue source message, []) := rfl
      refine ⟨?_, fun j color howned => .inl (owned_le _ ?_)⟩
      · rw [ledger_then_do]
        have hdid : did [] = only id [] := did_match id []
        rw [hdid]
        exact .inr (.stepped id m _ _ here hexec (fun _ _ _ => nofun) (fun _ => nofun))
      · exact howned

/-- The seat passed on goes to its match. -/
theorem leave_steps {s s' : RoomManager} {seat : Seat} {os : List RoomEvent}
    (h : Resumed s (.leave seat) s' os) (unreaped : Option Int) :
    Steps (s.then_do (.leave seat)) s' unreaped os := by
  cases h with
  | nowhere _ _ asks gone =>
      obtain rfl := Option.some.inj asks
      exact steps_nowhere gone rfl _
  | viewer_left _ m here views =>
      exact steps_then (.leave_spectator seat.watcher) here rfl (fun _ _ _ => nofun)
        (fun _ => nofun) ⟨rfl, rfl, rfl⟩ ⟨rfl, rfl, rfl⟩ rfl _
  | player_left _ m here plays =>
      refine steps_then (.on_disconnect seat.color) here rfl (fun _ _ _ => nofun)
        (fun color hcolor => ?_) ⟨rfl, rfl, rfl⟩ ⟨rfl, rfl, rfl⟩ rfl _
      -- the call carries the player's seat it is about
      obtain rfl := Match.Call.on_disconnect.inj hcolor
      refine ⟨seat.watcher, carried_mem s ?_⟩
      rw [← plays]
      rfl

/-- The directory is told, and the call returns its seat. -/
theorem register_steps {s s' : RoomManager} {key : String} {seat : Seat} {os : List RoomEvent}
    (h : Resumed s (.register_room key seat) s' os) (unreaped : Option Int) :
    Steps (s.then_do (.register_room key seat)) s' unreaped os := by
  cases h with
  | nowhere _ _ asks => cases asks
  | registered =>
      refine ⟨?_, fun j color howned => .inl ?_⟩
      · have hsame : (s.then_do (.register_room key seat)).ledger = (s.hand_over seat).ledger := by
          rw [ledger_then_do, ledger_hand_over]
          rfl
        rw [hsame]
        exact .inr .kept
      · rcases owned_hand_over howned with hbefore | ⟨watcher, hseat⟩
        · have hbefore : s.owned j color := hbefore
          exact owned_le _ hbefore
        · exact ⟨watcher, carried_mem s (congrArg some hseat)⟩

/-- An undo is a fault of its own: that it never runs is proved of the accounts. -/
theorem undo_steps {s s' : RoomManager} {id : RoomId} {os : List RoomEvent}
    (h : Resumed s (.undo_join_any id) s' os) (unreaped : Option Int) :
    Steps (s.then_do (.undo_join_any id)) s' unreaped os := by
  refine ⟨.inl (.undone ?_), fun j color howned => .inl (owned_le _ ?_)⟩
  · rw [ledger_then_do]
    exact Nat.succ_pos _
  · cases h with
    | nowhere => exact howned
    | undo_gone => exact howned
    | undo_last => exact owned_then_do_none rfl howned
    | undo_waits => exact howned
    | undo_stays => exact howned

/-- **One part of a call.** -/
theorem resume_steps {s s' : RoomManager} {p : Pending} {os : List RoomEvent}
    (h : s.resume p = .ok (s', os)) : Steps (s.then_do p) s' (s.found p) os := by
  have hparts := resume_cases h
  cases p with
  | join_any id username rating connection =>
      rw [resume] at h
      exact join_match_steps h rfl rfl rfl seats_return
        (fun _ _ _ _ h => owned_then_do_none rfl h) _
  | create_room id key username rating connection =>
      rw [resume] at h
      exact join_match_steps h rfl rfl rfl (seats_register key) (fun _ _ _ _ h => h) _
  | join id username rating connection =>
      rw [resume] at h
      exact join_match_steps h rfl rfl rfl seats_return (fun _ _ _ _ h => h) _
  | undo_join_any id => exact undo_steps hparts _
  | register_room key seat => exact register_steps hparts _
  | owner_of name =>
      cases hparts with
      | nowhere => exact steps_idle rfl rfl rfl _ rfl (fun _ _ h => h) rfl
      | redirected => exact steps_idle rfl rfl rfl _ rfl (fun _ _ h => h) rfl
      | unowned => exact steps_idle rfl rfl rfl _ rfl (fun _ _ h => h) rfl
  | reconnect id color connection => exact reconnect_steps hparts _
  | join_spectator id connection => exact join_spectator_steps hparts _
  | give_back id reason => exact give_back_steps hparts
  | enqueue id source message => exact enqueue_steps hparts _
  | leave seat => exact leave_steps hparts _
  | reap id => exact reap_steps hparts _
  | unschedule id name =>
      cases hparts with
      | nowhere => exact steps_idle rfl rfl rfl _ rfl (fun _ _ h => h) rfl
      | unscheduled => exact steps_idle rfl rfl rfl _ rfl (fun _ _ h => h) rfl
      | forgets =>
          exact steps_idle rfl rfl rfl _ (ledger_then_do _ _)
            (fun _ _ h => owned_then_do_none rfl h) rfl
  | forget_room name =>
      cases hparts with
      | nowhere => exact steps_idle rfl rfl rfl _ rfl (fun _ _ h => h) rfl
      | forgotten => exact steps_idle rfl rfl rfl _ rfl (fun _ _ h => h) rfl

/-! ## Steps -/

/-- The count that a step finds when it gives back a connection and does not look
whether it was the last. -/
def unreaped (s : RoomManager) : Op → Option Int
  | .proceed call => s.calls[call]?.bind s.found
  | _ => none

/-- A call begins: the tables change, and it waits. -/
theorem start_steps {s t : RoomManager} {q : Pending} (hcarried : carried q = none)
    (howned : ∀ id color, t.owned id color → s.owned id color) {unreaped : Option Int}
    (heff : Effect s.owned unreaped s.ledger { t.ledger with
      held := raise t.held (attached q)
      joins := raise t.joins (joining q)
      undos := t.undos + if undoing q then 1 else 0 } silence) :
    Steps s (t.then_do q) unreaped [] where
  effect := by
    rw [ledger_then_do]
    exact .inr heff
  owned id color h := .inl (howned id color (owned_then_do_none hcarried h))

/-- Nothing changes but what nobody counts. -/
theorem steps_kept {s s' : RoomManager} {unreaped : Option Int} {os : List RoomEvent}
    (hledger : s'.ledger = s.ledger) (howned : ∀ id color, s'.owned id color → s.owned id color)
    (hos : did os = silence) : Steps s s' unreaped os where
  effect := by
    rw [hledger, hos]
    exact .inr .kept
  owned id color h := .inl (howned id color h)

theorem enters_steps {s s' : RoomManager} {id : RoomId} {name username : String}
    {rating : Int} {connection : Connection} {os : List RoomEvent}
    (hname : s.named_rooms name = some id) (h : Enters s id username rating connection s' os)
    (unreaped : Option Int) : Steps s s' unreaped os := by
  cases h with
  | nowhere => exact steps_kept rfl (fun _ _ h => h) rfl
  | refused reason => exact steps_kept rfl (fun _ _ h => h) rfl
  | back room m color here match_ theirs =>
      refine start_steps rfl (fun id color h => ?_) ?_
      · exact h
      · exact Effect.counted (l := s.ledger) id room name hname here
  | viewer room here =>
      refine start_steps rfl (fun id color h => ?_) ?_
      · exact h
      · exact Effect.counted (l := s.ledger) id room name hname here
  | player room here free =>
      refine start_steps rfl (fun id color h => ?_) ?_
      · exact h
      · exact Effect.reserved (l := s.ledger) id room name hname here free

/-- The seat goes from the sessions to the pending call and counts all the while. -/
theorem passed_ledger {s : RoomManager} {seat : Seat} (held : seat ∈ s.seats) :
    (({ s with seats := s.seats.erase seat } : RoomManager).hand_over seat).ledger = s.ledger := by
  have hperm : (s.seats.erase seat ++ [seat]).Perm s.seats :=
    (List.perm_append_singleton _ _).trans (List.perm_cons_erase held).symm
  exact ledger_perm hperm (List.Perm.refl _)

theorem owned_erase {s : RoomManager} {seat : Seat} {id : RoomId} {color : PieceColor}
    (h : ({ s with seats := s.seats.erase seat } : RoomManager).owned id color) :
    s.owned id color := by
  obtain ⟨watcher, hseat⟩ := h
  refine ⟨watcher, ?_⟩
  rw [List.mem_append] at hseat ⊢
  exact hseat.imp_left List.mem_of_mem_erase

/-- A session passes on a seat it holds. -/
theorem leaves_steps {s : RoomManager} {seat : Seat} (held : seat ∈ s.seats)
    (unreaped : Option Int) :
    Steps s (({ s with seats := s.seats.erase seat } : RoomManager).then_do (.leave seat))
      unreaped [] := by
  refine steps_kept ?_ (fun id color howned => ?_) rfl
  · rw [← passed_ledger held, ledger_then_do, ledger_hand_over]
    rfl
  · rcases owned_then_do howned with hbefore | ⟨watcher, hcarried⟩
    · exact owned_erase hbefore
    · obtain rfl := Option.some.inj hcarried
      exact ⟨watcher, List.mem_append_left _ held⟩

theorem leaves_nowhere_steps {s : RoomManager} {seat : Seat} (held : seat ∈ s.seats)
    (gone : s.rooms seat.room = none) (unreaped : Option Int) :
    Steps s { s with seats := s.seats.erase seat } unreaped [] := by
  refine ⟨?_, fun id color howned => .inl (owned_erase howned)⟩
  have heff : Effect s.owned unreaped s.ledger _ _ := .lost seat.room gone (by
      rw [← passed_ledger held, ledger_hand_over]
      exact plus_pos _ _)
  rw [← passed_ledger held, ledger_hand_over] at heff ⊢
  dsimp only at heff
  rw [minus_plus] at heff
  exact .inr heff

/-- One of the pending calls is taken out, and does its next part. -/
theorem resumes_steps {s s' : RoomManager} {call : Nat} {p : Pending} {os : List RoomEvent}
    (pending : s.calls[call]? = some p)
    (h : ({ s with calls := s.calls.eraseIdx call } : RoomManager).resume p = .ok (s', os)) :
    Steps s s' (s.unreaped (.proceed call)) os := by
  obtain ⟨heff, howned⟩ := resume_steps h
  -- the ledger does not depend on the order of the pending calls
  have hperm := take_perm pending
  have hback : (({ s with calls := s.calls.eraseIdx call } : RoomManager).then_do p).ledger
      = s.ledger := ledger_perm (List.Perm.refl _) hperm
  have hsame : (({ s with calls := s.calls.eraseIdx call } : RoomManager).then_do p).owned
      = s.owned := by
    funext id color
    refine propext (exists_congr fun watcher => ?_)
    exact ((hperm.filterMap carried).append_left s.seats).mem_iff
  rw [hback, hsame] at heff
  rw [hsame] at howned
  rw [unreaped, pending]
  exact ⟨heff, howned⟩

/-- **A step of the rooms**: one thing happens to the ledger. -/
theorem exec_steps {s s' : RoomManager} {op : Op} {os : List RoomEvent}
    (h : exec s op = .ok (s', os)) : Steps s s' (s.unreaped op) os := by
  cases exec_cases h with
  | opens username rating connection nobody =>
      refine start_steps rfl (fun id color h => ?_) ?_
      · exact h
      · exact Effect.opened (l := s.ledger) rating nobody
  | pairs username rating connection id room closest here =>
      refine start_steps rfl (fun id color h => ?_) ?_
      · exact h
      · exact Effect.paired (l := s.ledger) id room rating closest here
  | creates key username rating connection drawn =>
      refine start_steps rfl (fun id color h => ?_) ?_
      · exact h
      · exact Effect.created (l := s.ledger) key drawn.1 drawn.2
  | draws_again => exact steps_kept rfl (fun _ _ h => h) rfl
  | enters name username rating connection id s' os named enters =>
      exact enters_steps named enters _
  | looks_up => exact start_steps rfl (fun _ _ h => h) .kept
  | no_such_room => exact steps_kept rfl (fun _ _ h => h) rfl
  | sends => exact start_steps rfl (fun _ _ h => h) .kept
  | sends_nowhere => exact steps_kept rfl (fun _ _ h => h) rfl
  | leaves seat room held => exact leaves_steps held _
  | leaves_nowhere seat held gone => exact leaves_nowhere_steps held gone _
  | unheld => exact steps_kept rfl (fun _ _ h => h) rfl
  | resumes call p s' os pending resumes => exact resumes_steps pending resumes
  | no_call => exact steps_kept rfl (fun _ _ h => h) rfl
  | ticks id now elapsed_ms m r here step =>
      refine ⟨?_, fun _ _ howned => .inl howned⟩
      have hdid : did (s.after_match id r).2 = only id r.2 := did_match id r.2
      rw [hdid]
      exact .inr (.stepped id m (.tick now elapsed_ms) r here step (fun _ _ _ => nofun)
        (fun _ => nofun))
  | ticks_nothing => exact steps_kept rfl (fun _ _ h => h) rfl
  | directory_changes => exact steps_kept rfl (fun _ _ h => h) rfl

end RoomManager

end KungFuChess
