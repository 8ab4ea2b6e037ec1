/-
**The ledger of the rooms.**

The `Ledger` is the part of a `RoomManager` that the rooms are accounted by: the
tables, the matches, and for each room how many seats and calls count as attached
to it (`held`) and how many calls are about to join its match (`joins`). `Effect`
lists what can happen to a ledger in one step. That a step of the machine does one
of these things is proved in `RoomSteps`; the files about rooms argue from
`Effect` alone.
-/
import KungFuChess.RoomManager
import Mathlib.Data.List.Perm.Basic

set_option autoImplicit false

namespace KungFuChess

open Machine

namespace RoomManager

/-! ## Who counts -/

/-- The room that the call counts as attached to. -/
def attached : Pending → Option RoomId
  | .join_any room _ _ _ | .undo_join_any room | .create_room room _ _ _ _ | .reconnect room _ _
  | .join_spectator room _ | .join room _ _ _ | .give_back room _ | .reap room => some room
  | .register_room _ seat | .leave seat => some seat.room
  | .owner_of _ | .enqueue _ _ _ | .unschedule _ _ | .forget_room _ => none

/-- The room whose match the call is about to join, in a seat it has taken. -/
def joining : Pending → Option RoomId
  | .join_any room _ _ _ | .create_room room _ _ _ _ | .join room _ _ _ => some room
  | _ => none

/-- The call gives up a seat again. -/
def undoing : Pending → Bool
  | .undo_join_any _ => true
  | _ => false

/-- The seat the call is to return, or was given. -/
def carried : Pending → Option Seat
  | .register_room _ seat | .leave seat => some seat
  | _ => none

/-- The seats and calls that count as attached to a room. -/
def held (s : RoomManager) (id : RoomId) : Nat :=
  s.seats.countP (fun seat => seat.room = id) + s.calls.countP (fun p => attached p = some id)

def joins (s : RoomManager) (id : RoomId) : Nat := s.calls.countP fun p => joining p = some id

def undos (s : RoomManager) : Nat := s.calls.countP undoing

/-- Somebody holds a player's seat of that colour, or a call carries it. -/
def owned (s : RoomManager) (id : RoomId) (color : PieceColor) : Prop :=
  ∃ watcher, (⟨id, color, false, watcher⟩ : Seat) ∈ s.seats ++ s.calls.filterMap carried

/-- The match has a player of that colour. -/
def plays (s : RoomManager) (id : RoomId) (color : PieceColor) : Prop :=
  ∃ m, s.match_of id = some m ∧ (m.audience.player color).isSome

structure Ledger where
  new_match : RoomId → String → Match
  rooms : RoomId → Option Room
  named_rooms : String → Option RoomId
  waiting : List (Int × RoomId)
  next_room_id : RoomId
  match_of : RoomId → Option Match
  held : RoomId → Nat
  joins : RoomId → Nat
  undos : Nat

def ledger (s : RoomManager) : Ledger :=
  ⟨s.new_match, s.rooms, s.named_rooms, s.waiting_by_rating, s.next_room_id, s.match_of, s.held,
    s.joins, s.undos⟩

/-- What a room's match did in a step. -/
def events_of (id : RoomId) (os : List RoomEvent) : List MatchEvent :=
  os.filterMap fun
    | .of_match room event => if room = id then some event else none
    | _ => none

/-- What the matches did in a step. -/
def did (os : List RoomEvent) : RoomId → List MatchEvent := fun id => events_of id os

def plus (f : RoomId → Nat) (id : RoomId) : RoomId → Nat := Function.update f id (f id + 1)

def minus (f : RoomId → Nat) (id : RoomId) : RoomId → Nat := Function.update f id (f id - 1)

/-- One more, if there is a room to count it for. -/
def raise (f : RoomId → Nat) : Option RoomId → RoomId → Nat
  | none => f
  | some id => plus f id

/-- The events of one match and of no other. -/
def only (id : RoomId) (os : List MatchEvent) : RoomId → List MatchEvent :=
  fun room => if id = room then os else []

/-- Nobody's. -/
def silence : RoomId → List MatchEvent := fun _ => []

/-! ## What can happen to a ledger -/

/-- What does not come up (`Accounted.regular`), so nobody asks what follows: the
match refuses a player whom the room has promised a seat, a promise is undone, or
somebody counts for a room that has no match. -/
inductive Irregular (l : Ledger) : Prop
  | join_refused (id : RoomId) (m : Match) (username : String) (rating : Int)
      (connection : Connection) (here : l.match_of id = some m) (about : 0 < l.joins id)
      (refused : (m.join username rating connection).2 = none)
  | undone (undoing : 0 < l.undos)
  | nowhere (id : RoomId) (absent : l.match_of id = none) (held : 0 < l.held id)

/-- What one step can do: the ledger afterwards, and what each match did. The
parameters are the players' seats that somebody holds, and the count that a call
giving back a connection finds. -/
inductive Effect (owned : RoomId → PieceColor → Prop) (unreaped : Option Int) (l : Ledger) :
    Ledger → (RoomId → List MatchEvent) → Prop
  | kept : Effect owned unreaped l l silence
  /-- A room opens for `join_any` and waits. -/
  | opened (rating : Int) (closest : closest_in l.waiting rating = none) :
      Effect owned unreaped l { l with
        rooms := Function.update l.rooms l.next_room_id (some ⟨1, 1, rating, ""⟩)
        waiting := l.waiting.orderedInsert (fun a b => a.1 < b.1) (rating, l.next_room_id)
        next_room_id := l.next_room_id + 1
        match_of := Function.update l.match_of l.next_room_id (some (l.new_match l.next_room_id ""))
        held := plus l.held l.next_room_id
        joins := plus l.joins l.next_room_id } silence
  /-- A room opens under a key nobody has. -/
  | created (key : String) (drawn : is_room_key key = true) (free : l.named_rooms key = none) :
      Effect owned unreaped l { l with
        rooms := Function.update l.rooms l.next_room_id (some ⟨1, 1, 0, key⟩)
        named_rooms := Function.update l.named_rooms key (some l.next_room_id)
        next_room_id := l.next_room_id + 1
        match_of := Function.update l.match_of l.next_room_id
          (some (l.new_match l.next_room_id key))
        held := plus l.held l.next_room_id
        joins := plus l.joins l.next_room_id } silence
  /-- A waiting room gets its second player. -/
  | paired (id : RoomId) (room : Room) (rating : Int)
      (closest : closest_in l.waiting rating = some id) (live : l.rooms id = some room) :
      Effect owned unreaped l { l with
        rooms := Function.update l.rooms id (some { room with
          seats_taken := room.seats_taken + 1, connected := room.connected + 1 })
        waiting := l.waiting.erase (room.waiting_rating, id)
        held := plus l.held id
        joins := plus l.joins id } silence
  /-- A viewer or a returning player is counted, -/
  | counted (id : RoomId) (room : Room) (name : String) (named : l.named_rooms name = some id)
      (live : l.rooms id = some room) :
      Effect owned unreaped l { l with
        rooms := Function.update l.rooms id (some { room with connected := room.connected + 1 })
        held := plus l.held id } silence
  /-- and a second player takes a seat too. -/
  | reserved (id : RoomId) (room : Room) (name : String) (named : l.named_rooms name = some id)
      (live : l.rooms id = some room) (free : room.seats_taken < 2) :
      Effect owned unreaped l { l with
        rooms := Function.update l.rooms id (some { room with
          seats_taken := room.seats_taken + 1, connected := room.connected + 1 })
        held := plus l.held id
        joins := plus l.joins id } silence
  /-- A call joins the match. -/
  | joined (id : RoomId) (m : Match) (username : String) (rating : Int) (connection : Connection)
      (color : PieceColor) (here : l.match_of id = some m) (about : 0 < l.joins id)
      (taken : (m.join username rating connection).2 = some color) :
      Effect owned unreaped l { l with
        match_of := Function.update l.match_of id (some (m.join username rating connection).1.1)
        joins := minus l.joins id } (only id (m.join username rating connection).1.2)
  /-- Any other step of a match. -/
  | stepped (id : RoomId) (m : Match) (call : Match.Call) (r : Match × List MatchEvent)
      (here : l.match_of id = some m) (step : Match.exec m call = .ok r)
      (other : ∀ username rating connection, call ≠ .join username rating connection)
      (owns : ∀ color, call = .on_disconnect color → owned id color) :
      Effect owned unreaped l
        { l with match_of := Function.update l.match_of id (some r.1) } (only id r.2)
  /-- A connection counted is given back, and nobody looks. -/
  | given_back (id : RoomId) (room : Room) (live : l.rooms id = some room) (held : 0 < l.held id)
      (found : unreaped = some room.connected) :
      Effect owned unreaped l { l with
        rooms := Function.update l.rooms id (some { room with connected := room.connected - 1 })
        held := minus l.held id } silence
  /-- A connection is gone and others are left, -/
  | left (id : RoomId) (room : Room) (live : l.rooms id = some room) (held : 0 < l.held id)
      (more : ¬ room.connected - 1 ≤ 0) :
      Effect owned unreaped l { l with
        rooms := Function.update l.rooms id (some { room with connected := room.connected - 1 })
        held := minus l.held id } silence
  /-- or it was the last, and the room is reaped. -/
  | reaped (id : RoomId) (room : Room) (live : l.rooms id = some room) (held : 0 < l.held id)
      (last : room.connected - 1 ≤ 0) :
      Effect owned unreaped l { l with
        rooms := Function.update l.rooms id none
        named_rooms := if room.name = "" then l.named_rooms
          else Function.update l.named_rooms room.name none
        waiting := l.waiting.erase (room.waiting_rating, id)
        held := minus l.held id } silence
  /-- A connection to a room that is gone already. -/
  | lost (id : RoomId) (gone : l.rooms id = none) (held : 0 < l.held id) :
      Effect owned unreaped l { l with held := minus l.held id } silence

/-! ## Taking calls out and putting them back -/

theorem minus_plus (f : RoomId → Nat) (id : RoomId) : minus (plus f id) id = f := by
  unfold minus plus
  rw [Function.update_self, Nat.add_sub_cancel, Function.update_idem, Function.update_eq_self]

theorem plus_pos (f : RoomId → Nat) (id : RoomId) : 0 < plus f id id := by
  unfold plus
  rw [Function.update_self]
  exact Nat.succ_pos _

/-- One more element to count. -/
theorem countP_raise {α : Type*} (key : α → Option RoomId) (xs : List α) (x : α) :
    (fun id => (xs ++ [x]).countP fun y => key y = some id)
      = raise (fun id => xs.countP fun y => key y = some id) (key x) := by
  funext id
  rw [List.countP_append, List.countP_singleton]
  cases hx : key x with
  | none => simp [raise]
  | some j =>
      simp only [raise, plus, Function.update_apply, decide_eq_true_eq, Option.some.injEq]
      by_cases h : j = id
      · rw [if_pos h, if_pos h.symm, h]
      · rw [if_neg h, if_neg (fun h' => h h'.symm), Nat.add_zero]

theorem raise_add (f g : RoomId → Nat) (o : Option RoomId) :
    (fun id => f id + raise g o id) = raise (fun id => f id + g id) o := by
  funext id
  cases o with
  | none => rfl
  | some j =>
      simp only [raise, plus, Function.update_apply]
      split_ifs with h
      · rw [h, Nat.add_assoc]
      · rfl

theorem add_raise (f g : RoomId → Nat) (o : Option RoomId) :
    (fun id => raise f o id + g id) = raise (fun id => f id + g id) o := by
  calc (fun id => raise f o id + g id) = fun id => g id + raise f o id :=
        funext fun id => Nat.add_comm _ _
    _ = raise (fun id => g id + f id) o := raise_add g f o
    _ = raise (fun id => f id + g id) o := by simp only [Nat.add_comm]

/-- A call waits: it counts where it is attached, where it joins, and if it undoes. -/
theorem ledger_then_do (s : RoomManager) (p : Pending) :
    (s.then_do p).ledger = { s.ledger with
      held := raise s.held (attached p)
      joins := raise s.joins (joining p)
      undos := s.undos + if undoing p then 1 else 0 } := by
  have hheld : (s.then_do p).held = raise s.held (attached p) :=
    (congrArg (fun f id => s.seats.countP (fun seat => seat.room = id) + f id)
      (countP_raise attached s.calls p)).trans (raise_add _ _ _)
  have hjoins : (s.then_do p).joins = raise s.joins (joining p) := countP_raise joining s.calls p
  have hundos : (s.then_do p).undos = s.undos + if undoing p then 1 else 0 := by
    show (s.calls ++ [p]).countP undoing = s.calls.countP _ + _
    rw [List.countP_append, List.countP_singleton]
  unfold ledger
  rw [hheld, hjoins, hundos]
  rfl

/-- A seat that is held counts for its room. -/
theorem ledger_hand_over (s : RoomManager) (seat : Seat) :
    (s.hand_over seat).ledger = { s.ledger with held := plus s.held seat.room } := by
  have hseats : (fun id => (s.seats ++ [seat]).countP fun y => y.room = id)
      = plus (fun id => s.seats.countP fun y => y.room = id) seat.room := by
    have h := countP_raise (fun y : Seat => some y.room) s.seats seat
    simpa only [Option.some.injEq, raise] using h
  have hheld : (s.hand_over seat).held = plus s.held seat.room :=
    (congrArg (fun f id => f id + s.calls.countP (fun p => attached p = some id)) hseats).trans
      (add_raise _ _ (some seat.room))
  unfold ledger
  rw [hheld]
  rfl

/-- The order of seats and calls is nothing to the ledger. -/
theorem ledger_perm {s : RoomManager} {seats : List Seat} {calls : List Pending}
    (hs : seats.Perm s.seats) (hc : calls.Perm s.calls) :
    ({ s with seats := seats, calls := calls } : RoomManager).ledger = s.ledger := by
  have hheld : ({ s with seats := seats, calls := calls } : RoomManager).held = s.held := by
    funext id
    exact congrArg₂ (· + ·) (hs.countP_eq _) (hc.countP_eq _)
  have hjoins : ({ s with seats := seats, calls := calls } : RoomManager).joins = s.joins :=
    funext fun id => hc.countP_eq _
  have hundos : ({ s with seats := seats, calls := calls } : RoomManager).undos = s.undos :=
    hc.countP_eq _
  unfold ledger
  rw [hheld, hjoins, hundos]
  rfl

/-- A pending call taken out of the list, as `proceed` does. -/
theorem take_perm {s : RoomManager} {call : Nat} {p : Pending} (h : s.calls[call]? = some p) :
    (s.calls.eraseIdx call ++ [p]).Perm s.calls := by
  obtain ⟨hlt, hget⟩ := List.getElem?_eq_some_iff.mp h
  have hperm := List.getElem_cons_eraseIdx_perm hlt
  rw [hget] at hperm
  exact (List.perm_append_singleton p (s.calls.eraseIdx call)).trans hperm

/-! ## Events -/

theorem events_of_append (id : RoomId) (os os' : List RoomEvent) :
    events_of id (os ++ os') = events_of id os ++ events_of id os' := List.filterMap_append

theorem did_match (room : RoomId) (os : List MatchEvent) :
    did (os.map (.of_match room)) = only room os := by
  funext id
  unfold did events_of only
  rw [List.filterMap_map]
  split_ifs with h
  · calc os.filterMap _ = os.filterMap some := List.filterMap_congr fun e _ => if_pos h
      _ = os := List.filterMap_some
  · exact List.filterMap_eq_nil_iff.mpr fun e _ => if_neg h

/-- One match did something, and then the call answered. -/
theorem did_then_answer (room : RoomId) (os : List MatchEvent) {answer : List RoomEvent}
    (hanswer : did answer = silence) :
    did (os.map (.of_match room) ++ answer) = only room os := by
  funext id
  have hnone : events_of id answer = [] := congrFun hanswer id
  unfold did
  rw [events_of_append, hnone, List.append_nil]
  exact congrFun (did_match room os) id

end RoomManager

end KungFuChess
