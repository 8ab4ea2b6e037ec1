/-
**The routing indexes.**

Matchmaking looks a room up by a rating, `join_room` by a name. Both indexes are
exact at every moment (`Routed`): a rating finds the rooms that wait and no other, a
name the room that bears it. What `Accounts` has of the waiting index is that its
entries are rooms that wait; here it is shown to have all of them (`Listed`), one step
at a time. So matchmaking never meets a room that is gone.
-/
import KungFuChess.Accounts

set_option autoImplicit false

namespace KungFuChess

open Machine

/-- A room without a name that has one seat taken. -/
def Room.Waiting (room : Room) : Prop := room.name = "" ∧ room.seats_taken = 1

namespace RoomManager

/-! ## Whoever waits is listed -/

/-- Every room that waits is in the index, under its rating. -/
def Listed (l : Ledger) : Prop :=
  ∀ id room, l.rooms id = some room → room.Waiting → (room.waiting_rating, id) ∈ l.waiting

section Listed

variable {l l' : Ledger} {owns : RoomId → PieceColor → Prop} {found : Option Int}
  {os : RoomId → List MatchEvent} {id : RoomId} {room : Room}

/-- Where one room changes, the others are listed as before. -/
theorem Listed.update (h : Listed l) {room' : Option Room} {waiting : List (Int × RoomId)}
    (hother : ∀ entry ∈ l.waiting, entry.2 ≠ id → entry ∈ waiting)
    (hself : ∀ r, room' = some r → r.Waiting → (r.waiting_rating, id) ∈ waiting)
    (j : RoomId) (r : Room) (hr : Function.update l.rooms id room' j = some r)
    (hwaiting : r.Waiting) : (r.waiting_rating, j) ∈ waiting := by
  by_cases hj : j = id
  · rw [hj, Function.update_self] at hr
    rw [hj]
    exact hself r hr hwaiting
  · rw [Function.update_of_ne hj] at hr
    exact hother _ (h j r hr hwaiting) hj

/-- A room where connections come and go is listed as before. -/
theorem Listed.keep (h : Listed l) (live : l.rooms id = some room) (connected : Int) :
    ∀ j r, Function.update l.rooms id (some { room with connected := connected }) j = some r →
      r.Waiting → (r.waiting_rating, j) ∈ l.waiting := by
  refine h.update (fun _ hmem _ => hmem) ?_
  intro r hr hwaiting
  cases hr
  exact h id room live hwaiting

/-- The entry of one room is taken out, and no other. -/
theorem mem_erase_of_other {waiting : List (Int × RoomId)} {rating : Int}
    {entry : Int × RoomId} (hmem : entry ∈ waiting) (hne : entry.2 ≠ id) :
    entry ∈ waiting.erase (rating, id) := by
  refine (List.mem_erase_of_ne ?_).mpr hmem
  rintro rfl
  exact hne rfl

theorem Listed.change (h : Listed l) (hw : Waits l) (hn : Names l)
    (he : Effect owns found l l' os) : Listed l' := by
  cases he with
  | kept => exact h
  | opened rating closest =>
      have hperm := List.perm_orderedInsert (fun a b : Int × RoomId => a.1 < b.1)
        (rating, l.next_room_id) l.waiting
      refine h.update (fun _ hmem _ => hperm.mem_iff.mpr (List.mem_cons_of_mem _ hmem)) ?_
      intro r hr _
      cases hr
      exact hperm.mem_iff.mpr List.mem_cons_self
  | created key drawn free =>
      refine h.update (fun _ hmem _ => hmem) ?_
      intro r hr hwaiting
      cases hr
      exact absurd hwaiting.1 (key_ne_empty drawn)
  | paired id room rating closest live =>
      refine h.update (fun _ hmem hne => mem_erase_of_other hmem hne) ?_
      intro r hr hwaiting
      cases hr
      -- the room waited, so two of its seats are taken now
      obtain ⟨entry, hmem, rfl⟩ := closest_mem closest
      obtain ⟨r', hr', -, htaken, -⟩ := hw.waiting entry hmem
      obtain rfl := Option.some.inj (live.symm.trans hr')
      have htwo : room.seats_taken + 1 = 1 := hwaiting.2
      omega
  | counted id room name named live => exact h.keep live _
  | reserved id room name named live free =>
      refine h.update (fun _ hmem _ => hmem) ?_
      intro r hr hwaiting
      cases hr
      -- a room that is found by a name has one
      obtain ⟨hne, hname⟩ := (hn.named _ _).mp named
      rw [Ledger.name_of, Function.comp_apply, live] at hname
      exact absurd ((Option.some.inj hname).symm.trans hwaiting.1) hne
  | joined id m username rating connection color here about taken => exact h
  | stepped id m call r here step other owns => exact h
  | given_back id room live held found => exact h.keep live _
  | left id room live held more => exact h.keep live _
  | reaped id room live held last =>
      refine h.update (fun _ hmem hne => mem_erase_of_other hmem hne) ?_
      intro r hr
      cases hr
  | lost id gone held => exact h

end Listed

/-! ## Both indexes -/

/-- What the indexes say, exactly: which rooms wait, each once, and which room bears a
name. -/
structure Routed (s : RoomManager) : Prop where
  waiting : ∀ rating id, (rating, id) ∈ s.waiting_by_rating ↔
    ∃ room, s.rooms id = some room ∧ room.Waiting ∧ room.waiting_rating = rating
  once : s.waiting_by_rating.Nodup
  named : ∀ name id, s.named_rooms name = some id ↔
    name ≠ "" ∧ ∃ room, s.rooms id = some room ∧ room.name = name

variable {s s' : RoomManager}

theorem Accounted.routed (h : Accounted s) (hl : Listed s.ledger) : Routed s where
  waiting rating id := by
    constructor
    · intro hmem
      obtain ⟨room, hroom, hrating, htaken, hname⟩ := h.waits.waiting _ hmem
      exact ⟨room, hroom, ⟨hname, htaken⟩, hrating⟩
    · rintro ⟨room, hroom, hwaiting, rfl⟩
      exact hl id room hroom hwaiting
  once := h.waits.nodup
  named name id := by
    rw [show s.named_rooms name = s.ledger.named_rooms name from rfl, h.names.named,
      Ledger.name_of, Function.comp_apply, Option.map_eq_some_iff]
    rfl

/-- No two rooms share a name. -/
theorem Routed.unique (h : Routed s) {id j : RoomId} {room room' : Room}
    (hroom : s.rooms id = some room) (hroom' : s.rooms j = some room') (hname : room.name ≠ "")
    (hsame : room'.name = room.name) : id = j := by
  have hid := (h.named room.name id).mpr ⟨hname, room, hroom, rfl⟩
  have hj := (h.named room.name j).mpr ⟨hname, room', hroom', hsame⟩
  exact Option.some.inj (hid.symm.trans hj)

/-- Whom matchmaking finds is there. -/
theorem Routed.start_join_any (h : Routed s) (username : String) (rating : Int)
    (connection : Connection) :
    ∃ r, s.start_join_any username rating connection = .ok r := by
  unfold RoomManager.start_join_any
  cases hclosest : s.closest_waiting_room rating with
  | none => exact ⟨_, rfl⟩
  | some id =>
      obtain ⟨entry, hmem, rfl⟩ := closest_mem hclosest
      obtain ⟨room, hroom, _⟩ := (h.waiting entry.1 entry.2).mp hmem
      dsimp only
      rw [hroom]
      exact ⟨_, rfl⟩

/-- A name that is found has its room. -/
theorem Routed.room_of_name (h : Routed s) {name : String} {id : RoomId}
    (hnamed : s.named_rooms name = some id) : ∃ room, s.rooms id = some room ∧ room.name = name :=
  ((h.named name id).mp hnamed).2

theorem listed_of_reach {board_factory : RoomId → Board} {config : MotionFactory}
    {on_result : Bool} {disconnect_grace_ms : Int} {directory : Option (String → Option String)}
    {self_url : String} {tr : List RoomEvent}
    (hrun : Reach exec anyStep
      (new board_factory config on_result disconnect_grace_ms directory self_url) s tr) :
    Accounted s ∧ Listed s.ledger := by
  refine hrun.invariant (P := fun s _ => Accounted s ∧ Listed s.ledger) ⟨accounted_new .., ?_⟩ ?_
  · intro id room hroom
    cases hroom
  · rintro s _ op s' tr' _ ⟨hacc, hlisted⟩ _ hexec
    exact ⟨hacc.exec hexec, hlisted.change hacc.waits hacc.names (hacc.effect hexec)⟩

/-- **The routing indexes never go stale**: matchmaking finds a room, and so does a name. -/
theorem indexes_are_exact {board_factory : RoomId → Board} {config : MotionFactory}
    {on_result : Bool} {disconnect_grace_ms : Int} {directory : Option (String → Option String)}
    {self_url : String} {s : RoomManager} {tr : List RoomEvent}
    (hrun : Reach exec anyStep
      (new board_factory config on_result disconnect_grace_ms directory self_url) s tr) :
    Routed s ∧
    (∀ id j room room', s.rooms id = some room → s.rooms j = some room' → room.name ≠ "" →
      room'.name = room.name → id = j) ∧
    (∀ username rating connection, ∃ r, exec s (.join_any username rating connection) = .ok r) ∧
    ∀ name id, s.named_rooms name = some id →
      ∃ room, s.rooms id = some room ∧ room.name = name := by
  obtain ⟨hacc, hlisted⟩ := listed_of_reach hrun
  have hrouted := hacc.routed hlisted
  refine ⟨hrouted, ?_, ?_, ?_⟩
  · intro id j room room' hroom hroom' hname hsame
    exact hrouted.unique hroom hroom' hname hsame
  · exact hrouted.start_join_any
  · intro name id hnamed
    exact hrouted.room_of_name hnamed

/-- Joining at the rating of a waiter who already left opens a fresh room. -/
theorem waiter_left_no_trace : ∃ s tr,
    run exec (new (fun _ => three_on_a_row) shipped_factory true 20000 none "")
      [.join_any "a" 1200 ⟨1⟩, .proceed 0, .on_disconnect ⟨1, .White, false, 0⟩, .proceed 0,
        .proceed 0, .proceed 0, .join_any "b" 1200 ⟨2⟩] = .ok (s, tr) ∧
    s.waiting_by_rating = [(1200, 2)] ∧ Routed s ∧
    ∃ r, exec s (.join_any "c" 1200 ⟨3⟩) = .ok r := by
  obtain ⟨⟨s, tr⟩, hrun, hp⟩ := exists_ok_such (p := fun r =>
      r.1.waiting_by_rating = [(1200, 2)]) (x :=
    run exec (new (fun _ => three_on_a_row) shipped_factory true 20000 none "")
      [.join_any "a" 1200 ⟨1⟩, .proceed 0, .on_disconnect ⟨1, .White, false, 0⟩, .proceed 0,
        .proceed 0, .proceed 0, .join_any "b" 1200 ⟨2⟩]) (by decide)
  obtain ⟨hrouted, _, hjoin, _⟩ := indexes_are_exact (reach_of_run hrun)
  exact ⟨s, tr, hrun, of_decide_eq_true hp, hrouted, hjoin "c" 1200 ⟨3⟩⟩

end RoomManager

end KungFuChess
