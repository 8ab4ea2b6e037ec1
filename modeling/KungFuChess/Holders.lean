/-
**Who is given a seat.**

A call of the rooms is a chain of parts. Each part leaves either nothing, or the
rest of the call, or the seat that the call returns (`Rest`), and at most one
match takes one step in it (`Goes`). `exec_turn` says the same of a whole step:
what becomes of the list of calls and of the list of seats, and which match moved.
`RoomSteps` reads the same function for what it does to the accounts; here it is
read for what it does to one connection's seat.
-/
import KungFuChess.RoomSteps
import KungFuChess.Seating

set_option autoImplicit false

namespace KungFuChess

open Machine

namespace RoomManager

/-! ## What a part leaves of its call -/

inductive Rest
  | nothing
  | goes_on (p : Pending)
  | returns (seat : Seat)
deriving DecidableEq, Repr

namespace Rest

def call : Rest → Option Pending
  | .goes_on p => some p
  | _ => none

def seat : Rest → Option Seat
  | .returns seat => some seat
  | _ => none

/-- The seat that the call returns, or carries from now on. -/
def granted (rest : Rest) : Option Seat := rest.seat.or (rest.call.bind carried)

end Rest

/-- The seat that a step returns. -/
def returned (os : List RoomEvent) : Option Seat :=
  os.findSome? fun
    | .returned seat => some seat
    | _ => none

/-- No call begins with this: it follows another part. -/
def later : Pending → Bool
  | .undo_join_any _ | .register_room _ _ | .give_back _ _ | .reap _ | .unschedule _ _
  | .forget_room _ => true
  | _ => false

/-- The calls, the seats and the answer after a part that leaves `rest`. -/
structure Leaves (s s' : RoomManager) (os : List RoomEvent) (rest : Rest) : Prop where
  calls : s'.calls = s.calls ++ rest.call.toList
  seats : s'.seats = s.seats ++ rest.seat.toList
  answer : returned os = rest.seat
  follows : ∀ q, rest.call = some q → later q = true

/-- What a call gives `Match::join`. -/
structure Joiner where
  room : RoomId
  username : String
  rating : Int
  connection : Connection

/-- The call is about to join a match. -/
def joins_as : Pending → Option Joiner
  | .join_any room username rating connection | .join room username rating connection =>
      some ⟨room, username, rating, connection⟩
  | .create_room room _ username rating connection => some ⟨room, username, rating, connection⟩
  | _ => none

def Joiner.join (j : Joiner) (m : Match) : (Match × List MatchEvent) × Option PieceColor :=
  m.join j.username j.rating j.connection

abbrev Matches := RoomId → Option Match

/-- **What one part does**: the call, what it leaves, and the matches afterwards. -/
inductive Goes (matches_ : Matches) : Pending → Rest → Matches → Prop
  | joined {p : Pending} {rest : Rest} {j : Joiner} {m : Match} {color : PieceColor}
      (joins : joins_as p = some j) (here : matches_ j.room = some m)
      (taken : (j.join m).2 = some color)
      (granted : rest.granted = some ⟨j.room, color, false, 0⟩) :
      Goes matches_ p rest (Function.update matches_ j.room (some (j.join m).1.1))
  | refused {p : Pending} {rest : Rest} {j : Joiner} {m : Match}
      (joins : joins_as p = some j) (here : matches_ j.room = some m)
      (refused : (j.join m).2 = none) (granted : rest.granted = none) :
      Goes matches_ p rest (Function.update matches_ j.room (some (j.join m).1.1))
  | reconnected {id : RoomId} {color : PieceColor} {connection : Connection} {m : Match}
      (here : matches_ id = some m) (back : (m.reconnect color connection).2 = true) :
      Goes matches_ (.reconnect id color connection) (.returns ⟨id, color, false, 0⟩)
        (Function.update matches_ id (some (m.reconnect color connection).1.1))
  | left {seat : Seat} {m : Match} (plays : seat.spectator = false)
      (here : matches_ seat.room = some m) :
      Goes matches_ (.leave seat) (.goes_on (.reap seat.room))
        (Function.update matches_ seat.room (some (m.on_disconnect seat.color).1))
  | registered {key : String} {seat : Seat} :
      Goes matches_ (.register_room key seat) (.returns seat) matches_
  /-- A match steps otherwise, for a viewer or for nobody's seat. -/
  | stepped {p : Pending} {rest : Rest} {id : RoomId} {m : Match} {call : Match.Call}
      {r : Match × List MatchEvent} (joins : joins_as p = none) (here : matches_ id = some m)
      (step : Match.exec m call = .ok r)
      (other : ∀ username rating connection, call ≠ .join username rating connection)
      (stays : ∀ color, call ≠ .on_disconnect color)
      (views : ∀ seat, rest.granted = some seat → seat.spectator = true)
      (queues : ∀ source message, call = .enqueue source message → p = .enqueue id source message) :
      Goes matches_ p rest (Function.update matches_ id (some r.1))
  | idle {p : Pending} {rest : Rest} (joins : ∀ j, joins_as p = some j → matches_ j.room = none)
      (granted : rest.granted = none) : Goes matches_ p rest matches_

/-! ## One part -/

theorem returned_of_match (id : RoomId) (os : List MatchEvent) (answer : List RoomEvent) :
    returned (os.map (.of_match id) ++ answer) = returned answer := by
  unfold returned
  induction os with
  | nil => rfl
  | cons e os ih =>
      rw [List.map_cons, List.cons_append, List.findSome?_cons]
      exact ih

theorem returned_match (id : RoomId) (os : List MatchEvent) :
    returned (os.map (.of_match id)) = none := by
  rw [← List.append_nil (os.map _), returned_of_match]
  rfl

/-- A part that touches neither list leaves nothing. -/
theorem leaves_nothing {s s' : RoomManager} {os : List RoomEvent} (hcalls : s'.calls = s.calls)
    (hseats : s'.seats = s.seats) (hos : returned os = none) : Leaves s s' os .nothing where
  calls := by simp [hcalls, Rest.call]
  seats := by simp [hseats, Rest.seat]
  answer := hos
  follows := by simp [Rest.call]

theorem leaves_call {s s' : RoomManager} {os : List RoomEvent} {p : Pending}
    (hcalls : s'.calls = s.calls ++ [p]) (hseats : s'.seats = s.seats)
    (hos : returned os = none) (hp : later p = true) : Leaves s s' os (.goes_on p) where
  calls := hcalls
  seats := by simp [hseats, Rest.seat]
  answer := hos
  follows q hq := by
    rw [← Option.some.inj hq]
    exact hp

theorem leaves_seat {s s' : RoomManager} {os : List RoomEvent} {seat : Seat}
    (hcalls : s'.calls = s.calls) (hseats : s'.seats = s.seats ++ [seat])
    (hos : returned os = some seat) : Leaves s s' os (.returns seat) where
  calls := by simp [hcalls, Rest.call]
  seats := hseats
  answer := hos
  follows := by simp [Rest.call]

/-- What a part that may have a match leaves. -/
def Parts (s : RoomManager) (p : Pending) (s' : RoomManager) (os : List RoomEvent) : Prop :=
  ∃ rest, Leaves s s' os rest ∧ Goes s.match_of p rest s'.match_of

/-- A continuation of `join` that grants the seat, now or later. -/
def Grants (seated : RoomManager → Seat → RoomManager × List RoomEvent) : Prop :=
  ∀ (s : RoomManager) (seat : Seat) (id : RoomId) (os : List MatchEvent), ∃ rest,
    Leaves s (seated s seat).1 (os.map (.of_match id) ++ (seated s seat).2) rest ∧
      rest.granted = some seat ∧ (seated s seat).1.match_of = s.match_of

theorem grants_return : Grants return_seat := by
  intro s seat id os
  refine ⟨.returns seat, leaves_seat rfl rfl ?_, rfl, rfl⟩
  rw [returned_of_match]
  rfl

theorem grants_register (key : String) : Grants fun s seat =>
    if s.directory.isSome then (s.then_do (.register_room key seat), [])
    else s.return_seat seat := by
  intro s seat id os
  by_cases h : s.directory.isSome
  · simp only [if_pos h]
    refine ⟨.goes_on (.register_room key seat), leaves_call rfl rfl ?_ rfl, rfl, rfl⟩
    rw [List.append_nil]
    exact returned_match id os
  · simp only [if_neg h]
    exact grants_return s seat id os

theorem join_match_parts {s s' : RoomManager} {p : Pending} {j : Joiner}
    {seated refused : RoomManager → Seat → RoomManager × List RoomEvent} {os : List RoomEvent}
    (h : s.join_match j.room j.username j.rating j.connection seated refused = .ok (s', os))
    (hp : joins_as p = some j) (hseated : Grants seated)
    (hrefused : ∀ (t : RoomManager) (seat : Seat) (id : RoomId) (os : List MatchEvent), ∃ rest,
      Leaves t (refused t seat).1 (os.map (.of_match id) ++ (refused t seat).2) rest ∧
        rest.granted = none ∧ (refused t seat).1.match_of = t.match_of) :
    Parts s p s' os := by
  obtain ⟨hm, rfl, rfl⟩ | ⟨m, r, hm, hj, rfl, rfl⟩ | ⟨m, r, color, hm, hj, rfl, rfl⟩ :=
    join_match_cases h
  · refine ⟨.nothing, leaves_nothing rfl rfl rfl, .idle ?_ rfl⟩
    intro j' hj'
    rw [hp] at hj'
    rwa [← Option.some.inj hj']
  · have hj : j.join m = (r, none) := hj
    have hr : r = (j.join m).1 := by rw [hj]
    obtain ⟨rest, hleaves, hnone, hmatch⟩ :=
      hrefused (s.after_match j.room r).1 ⟨j.room, .White, false, 0⟩ j.room r.2
    refine ⟨rest, ⟨hleaves.calls, hleaves.seats, hleaves.answer, hleaves.follows⟩, ?_⟩
    rw [hmatch, hr]
    exact .refused hp hm (by rw [hj]) hnone
  · have hj : j.join m = (r, some color) := hj
    have hr : r = (j.join m).1 := by rw [hj]
    obtain ⟨rest, hleaves, hgranted, hmatch⟩ :=
      hseated (s.after_match j.room r).1 ⟨j.room, color, false, 0⟩ j.room r.2
    refine ⟨rest, ⟨hleaves.calls, hleaves.seats, hleaves.answer, hleaves.follows⟩, ?_⟩
    rw [hmatch, hr]
    exact .joined hp hm (by rw [hj]) hgranted

/-- A refusal that answers at once. -/
theorem refuses {answer : List RoomEvent} (hanswer : returned answer = none) (t : RoomManager)
    (id : RoomId) (os : List MatchEvent) : ∃ rest,
      Leaves t t (os.map (.of_match id) ++ answer) rest ∧ rest.granted = none ∧
        t.match_of = t.match_of := by
  refine ⟨.nothing, leaves_nothing rfl rfl ?_, rfl, rfl⟩
  rw [returned_of_match]
  exact hanswer

/-- A part that needs no match and grants no seat. -/
theorem parts_idle {s s' : RoomManager} {p : Pending} {os : List RoomEvent} {rest : Rest}
    (hleaves : Leaves s s' os rest) (hgranted : rest.granted = none) (hp : joins_as p = none)
    (hmatch : s'.match_of = s.match_of) : Parts s p s' os := by
  refine ⟨rest, hleaves, ?_⟩
  rw [hmatch]
  refine .idle ?_ hgranted
  intro j hj
  rw [hp] at hj
  cases hj

/-- A part that asks its match joins nobody. -/
theorem joins_as_of_asks {p : Pending} {id : RoomId} (h : asks_match p = some id) :
    joins_as p = none := by
  cases p with
  | join_any => cases h
  | create_room => cases h
  | join => cases h
  | _ => rfl

/-- **One part of a call**, for the seat it is about. -/
theorem resume_parts {s s' : RoomManager} {p : Pending} {os : List RoomEvent}
    (h : s.resume p = .ok (s', os)) : Parts s p s' os := by
  cases resume_cases h with
  | join_any id username rating connection s' os joins =>
      refine join_match_parts (j := ⟨id, username, rating, connection⟩) joins rfl grants_return ?_
      intro t _ room os'
      refine ⟨.goes_on (.undo_join_any id), leaves_call rfl rfl ?_ rfl, rfl, rfl⟩
      rw [List.append_nil]
      exact returned_match room os'
  | create_room id key username rating connection s' os joins =>
      exact join_match_parts (j := ⟨id, username, rating, connection⟩) joins rfl
        (grants_register key) fun t _ => refuses rfl t
  | join id username rating connection s' os joins =>
      exact join_match_parts (j := ⟨id, username, rating, connection⟩) joins rfl grants_return
        fun t _ => refuses rfl t
  | nowhere p id asks =>
      exact parts_idle (leaves_nothing rfl rfl rfl) rfl (joins_as_of_asks asks) rfl
  | reconnected id color connection m here back =>
      refine ⟨.returns ⟨id, color, false, 0⟩, leaves_seat rfl rfl ?_, .reconnected here back⟩
      exact returned_of_match id _ _
  | not_reconnected id color connection m here refused =>
      have hexec : Match.exec m (.reconnect color connection)
          = .ok (m.reconnect color connection).1 := rfl
      refine ⟨.goes_on (.give_back id join_reasons.kRoomNotActive),
        leaves_call rfl rfl (returned_match id _) rfl, ?_⟩
      exact .stepped rfl here hexec (by simp) (by simp)
        (by simp [Rest.granted, Rest.seat, Rest.call, carried]) (by simp)
  | watches id connection m here admitted =>
      have hexec : Match.exec m (.join_spectator connection)
          = .ok (m.join_spectator connection).1 := rfl
      refine ⟨.returns ⟨id, .White, true, (m.join_spectator connection).2⟩,
        leaves_seat rfl rfl (returned_of_match id _ _), ?_⟩
      refine .stepped rfl here hexec (by simp) (by simp) ?_ (by simp)
      intro seat hseat
      rw [← Option.some.inj hseat]
  | full id connection m here refused =>
      have hexec : Match.exec m (.join_spectator connection)
          = .ok (m.join_spectator connection).1 := rfl
      refine ⟨.goes_on (.give_back id join_reasons.kSpectatorLimitReached),
        leaves_call rfl rfl (returned_match id _) rfl, ?_⟩
      exact .stepped rfl here hexec (by simp) (by simp)
        (by simp [Rest.granted, Rest.seat, Rest.call, carried]) (by simp)
  | enqueued id source message m here =>
      have hexec : Match.exec m (.enqueue source message)
          = .ok (m.enqueue source message, []) := rfl
      refine ⟨.nothing, leaves_nothing rfl rfl rfl, .stepped rfl here hexec (by simp) (by simp)
        (by simp [Rest.granted, Rest.seat, Rest.call]) ?_⟩
      intro source' message' hcall
      obtain ⟨rfl, rfl⟩ := Match.Call.enqueue.inj hcall
      rfl
  | viewer_left seat m here views =>
      have hexec : Match.exec m (.leave_spectator seat.watcher)
          = .ok (m.leave_spectator seat.watcher, []) := rfl
      refine ⟨.goes_on (.reap seat.room), leaves_call rfl rfl (returned_match _ _) rfl, ?_⟩
      exact .stepped rfl here hexec (by simp) (by simp)
        (by simp [Rest.granted, Rest.seat, Rest.call, carried]) (by simp)
  | player_left seat m here plays =>
      exact ⟨.goes_on (.reap seat.room), leaves_call rfl rfl (returned_match _ _) rfl,
        .left plays here⟩
  | registered key seat => exact ⟨.returns seat, leaves_seat rfl rfl rfl, .registered⟩
  | redirected => exact parts_idle (leaves_nothing rfl rfl rfl) rfl rfl rfl
  | unowned => exact parts_idle (leaves_nothing rfl rfl rfl) rfl rfl rfl
  | undo_gone => exact parts_idle (leaves_nothing rfl rfl rfl) rfl rfl rfl
  | undo_last => exact parts_idle (leaves_call rfl rfl rfl rfl) rfl rfl rfl
  | undo_waits => exact parts_idle (leaves_nothing rfl rfl rfl) rfl rfl rfl
  | undo_stays => exact parts_idle (leaves_nothing rfl rfl rfl) rfl rfl rfl
  | give_back_gone => exact parts_idle (leaves_nothing rfl rfl rfl) rfl rfl rfl
  | given_back => exact parts_idle (leaves_nothing rfl rfl rfl) rfl rfl rfl
  | reap_gone => exact parts_idle (leaves_nothing rfl rfl rfl) rfl rfl rfl
  | reap_stays => exact parts_idle (leaves_nothing rfl rfl rfl) rfl rfl rfl
  | reaped => exact parts_idle (leaves_call rfl rfl rfl rfl) rfl rfl rfl
  | unscheduled => exact parts_idle (leaves_nothing rfl rfl rfl) rfl rfl rfl
  | forgets => exact parts_idle (leaves_call rfl rfl rfl rfl) rfl rfl rfl
  | forgotten => exact parts_idle (leaves_nothing rfl rfl rfl) rfl rfl rfl

/-! ## One step -/

/-- The rest of a call that a step begins. Only the username for whom `Match`
vouches is let back in. -/
inductive Begins (s : RoomManager) : Op → Pending → Prop
  | join_any {id : RoomId} {username : String} {rating : Int} {connection : Connection} :
      Begins s (.join_any username rating connection) (.join_any id username rating connection)
  | create_room {id : RoomId} {key username : String} {rating : Int} {connection : Connection} :
      Begins s (.create_room key username rating connection)
        (.create_room id key username rating connection)
  | owner_of {name username : String} {rating : Int} {connection : Connection} :
      Begins s (.join_room name username rating connection) (.owner_of name)
  | reconnect {id : RoomId} {m : Match} {color : PieceColor} {name username : String} {rating : Int}
      {connection : Connection} (here : s.match_of id = some m)
      (reclaims : m.reclaimable_seat_for username = some color) :
      Begins s (.join_room name username rating connection) (.reconnect id color connection)
  | join_spectator {id : RoomId} {name username : String} {rating : Int}
      {connection : Connection} :
      Begins s (.join_room name username rating connection) (.join_spectator id connection)
  | join {id : RoomId} {name username : String} {rating : Int} {connection : Connection} :
      Begins s (.join_room name username rating connection) (.join id username rating connection)
  | enqueue {id : RoomId} {source : PieceColor} {message : ClientMessage} :
      Begins s (.enqueue id source message) (.enqueue id source message)

/-- **What a step does** to the calls, to the seats and to the matches. -/
inductive Turn (s : RoomManager) (op : Op) (s' : RoomManager) (os : List RoomEvent) : Prop
  /-- The call has answered at once, or there was nothing to go on with. -/
  | idle (gone : ∀ call, op = .proceed call → s.calls[call]? = none)
      (unheld : ∀ seat, op = .on_disconnect seat → seat ∉ s.seats) (answer : returned os = none)
      (calls : s'.calls = s.calls) (seats : s'.seats = s.seats)
      (matches_ : s'.match_of = s.match_of)
  | began (p : Pending) (begins : Begins s op p) (answer : returned os = none)
      (calls : s'.calls = s.calls ++ [p]) (seats : s'.seats = s.seats)
      (matches_ : s'.match_of = s.match_of)
  /-- A room opens for the call. -/
  | opened (p : Pending) (name : String) (begins : Begins s op p) (answer : returned os = none)
      (calls : s'.calls = s.calls ++ [p]) (seats : s'.seats = s.seats)
      (matches_ : s'.match_of = Function.update s.match_of s.next_room_id
        (some (s.new_match s.next_room_id name)))
  /-- A seat is passed on: the call about it is under way, or its room is gone. -/
  | passed (seat : Seat) (rest : Rest) (held : seat ∈ s.seats) (about : op = .on_disconnect seat)
      (leaving : rest = .goes_on (.leave seat) ∨ rest = .nothing) (answer : returned os = none)
      (calls : s'.calls = s.calls ++ rest.call.toList) (seats : s'.seats = s.seats.erase seat)
      (matches_ : s'.match_of = s.match_of)
  | went (call : Nat) (p : Pending) (rest : Rest) (about : op = .proceed call)
      (pending : s.calls[call]? = some p) (goes : Goes s.match_of p rest s'.match_of)
      (answer : returned os = rest.seat)
      (calls : s'.calls = s.calls.eraseIdx call ++ rest.call.toList)
      (seats : s'.seats = s.seats ++ rest.seat.toList)
      (follows : ∀ q, rest.call = some q → later q = true)
  | ticked (id : RoomId) (m : Match) (now : Int) (elapsed_ms : Nat) (r : Match × List MatchEvent)
      (about : op = .tick id now elapsed_ms) (here : s.match_of id = some m)
      (step : m.tick now elapsed_ms = .ok r) (answer : returned os = none)
      (calls : s'.calls = s.calls) (seats : s'.seats = s.seats)
      (matches_ : s'.match_of = Function.update s.match_of id (some r.1))

theorem enters_turn {s s' : RoomManager} {id : RoomId} {name username : String} {rating : Int}
    {connection : Connection} {os : List RoomEvent}
    (h : Enters s id username rating connection s' os) :
    Turn s (.join_room name username rating connection) s' os := by
  cases h with
  | nowhere => exact .idle (by simp) (by simp) rfl rfl rfl rfl
  | refused reason => exact .idle (by simp) (by simp) rfl rfl rfl rfl
  | back room m color here match_ theirs =>
      exact .began _ (.reconnect match_ theirs) rfl rfl rfl rfl
  | viewer room here => exact .began _ .join_spectator rfl rfl rfl rfl
  | player room here free => exact .began _ .join rfl rfl rfl rfl

theorem exec_turn {s s' : RoomManager} {op : Op} {os : List RoomEvent}
    (h : exec s op = .ok (s', os)) : Turn s op s' os := by
  cases exec_cases h with
  | opens => exact .opened _ "" .join_any rfl rfl rfl rfl
  | pairs => exact .began _ .join_any rfl rfl rfl rfl
  | creates key => exact .opened _ key .create_room rfl rfl rfl rfl
  | draws_again => exact .idle (by simp) (by simp) rfl rfl rfl rfl
  | enters name username rating connection id s' os named enters => exact enters_turn enters
  | looks_up => exact .began _ .owner_of rfl rfl rfl rfl
  | no_such_room => exact .idle (by simp) (by simp) rfl rfl rfl rfl
  | sends => exact .began _ .enqueue rfl rfl rfl rfl
  | sends_nowhere => exact .idle (by simp) (by simp) rfl rfl rfl rfl
  | leaves seat room held =>
      exact .passed seat (.goes_on (.leave seat)) held rfl (.inl rfl) rfl rfl rfl rfl
  | leaves_nowhere seat held =>
      exact .passed seat .nothing held rfl (.inr rfl) rfl (List.append_nil _).symm rfl rfl
  | unheld seat unheld => exact .idle (by simp) (by simpa using unheld) rfl rfl rfl rfl
  | resumes call p s' os pending resumes =>
      obtain ⟨rest, hleaves, hgoes⟩ := resume_parts resumes
      exact .went call p rest rfl pending hgoes hleaves.answer hleaves.calls hleaves.seats
        hleaves.follows
  | no_call call answered => exact .idle (by simpa using answered) (by simp) rfl rfl rfl rfl
  | ticks id now elapsed_ms m r here step =>
      exact .ticked id m now elapsed_ms r rfl here step (returned_match id _) rfl rfl rfl
  | ticks_nothing => exact .idle (by simp) (by simp) rfl rfl rfl rfl
  | directory_changes => exact .idle (by simp) (by simp) rfl rfl rfl rfl

end RoomManager

end KungFuChess
