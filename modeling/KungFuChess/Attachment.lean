/-
**A room lives as long as somebody is attached.**

`connected` is raised in one critical section and lowered in another, and in
between the match may refuse the connection. `on_disconnect` reaps a room whose
counter it brings to zero. The failure paths of `join_room` only lower it: where
the player or viewer to be refused is by then the last connection, the room stays
with nobody in it (`leaked_room`). That is the one way to get there
(`rooms_live_while_held`).
-/
import KungFuChess.Accounts

set_option autoImplicit false

namespace KungFuChess

open Machine

namespace RoomManager

/-- The seats returned for a room and not yet passed to `on_disconnect`. -/
def seats_out (s : RoomManager) (id : RoomId) : Nat := s.seats.countP fun seat => seat.room = id

/-- Between calls, a room is there for its connections, and counts them. -/
def LivesWhileHeld (s : RoomManager) (id : RoomId) : Prop :=
  (∀ room, s.rooms id = some room → room.connected = s.seats_out id) ∧
    ((s.rooms id).isSome ↔ 1 ≤ s.seats_out id)

/-- The condition on a step: a connection that is given back was not the last. -/
def LeavesSomebody (s : RoomManager) (_ : List RoomEvent) (op : Op) : Prop :=
  ∀ n ∈ s.unreaped op, 2 ≤ n

instance (s : RoomManager) (tr : List RoomEvent) (op : Op) :
    Decidable (LeavesSomebody s tr op) :=
  inferInstanceAs (Decidable (∀ n ∈ s.unreaped op, 2 ≤ n))

/-- **The step lemma.** A step that leaves somebody leaves no room without its
connections. -/
theorem occupied_exec {s s' : RoomManager} {op : Op} {tr os : List RoomEvent} (h : Accounted s)
    (ho : RefCount.Occupied s.ledger.counts) (hleaves : LeavesSomebody s tr op)
    (hexec : exec s op = .ok (s', os)) : RefCount.Occupied s'.ledger.counts := by
  obtain ⟨u, hchange, hu⟩ := counts_change h.homes h.counted (h.effect hexec)
  refine ho.change hchange fun n hn => ?_
  rcases hu with hu | hu
  · cases hu.symm.trans hn
  · exact hleaves n (hu.symm.trans hn)

/-- Between calls only seats count. -/
theorem held_of_quiet {s : RoomManager} (hquiet : s.calls = []) (id : RoomId) :
    s.held id = s.seats_out id := by
  unfold held seats_out
  rw [hquiet]
  rfl

/-- **Rooms live exactly as long as someone is attached**, in every run in which a
connection given back is never the last. -/
theorem rooms_live_while_held {board_factory : RoomId → Board} {config : MotionFactory}
    {on_result : Bool} {disconnect_grace_ms : Int} {directory : Option (String → Option String)}
    {self_url : String} {s : RoomManager} {tr : List RoomEvent}
    (hrun : Reach exec LeavesSomebody
      (new board_factory config on_result disconnect_grace_ms directory self_url) s tr)
    (hquiet : s.calls = []) (id : RoomId) : LivesWhileHeld s id := by
  have hnew := accounted_new board_factory config on_result disconnect_grace_ms directory self_url
  -- the count is right in every run; that it is at least one needs the condition
  have hoccupied : Accounted s ∧ RefCount.Occupied s.ledger.counts :=
    hrun.invariant (P := fun s _ => Accounted s ∧ RefCount.Occupied s.ledger.counts)
      ⟨hnew, fun _ _ h => absurd h (Option.some_ne_none _).symm⟩
      fun _ _ _ _ _ _ h hleaves hexec =>
        ⟨h.1.exec hexec, occupied_exec h.1 h.2 hleaves hexec⟩
  obtain ⟨hacc, hocc⟩ := hoccupied
  have hcount := hacc.counted id
  -- with no call under way, a connection counts exactly when its seat is out
  have hheld : s.ledger.held id = s.seats_out id := held_of_quiet hquiet id
  rw [hheld, Ledger.counts, Function.comp_apply] at hcount
  have hrooms : s.ledger.rooms id = s.rooms id := rfl
  rw [hrooms] at hcount
  cases hroom : s.rooms id with
  | none =>
      rw [hroom] at hcount
      refine ⟨fun _ h => absurd (hroom.symm.trans h) (Option.some_ne_none _).symm, ?_⟩
      rw [hroom, Int.natCast_eq_zero.mp hcount.symm]
      decide
  | some room =>
      rw [hroom] at hcount
      have hone := hocc id room.connected (congrArg (Option.map Room.connected) hroom)
      have hcount : room.connected = s.seats_out id := hcount
      refine ⟨fun r hr => ?_, ?_⟩
      · obtain rfl := Option.some.inj (hroom.symm.trans hr)
        exact hcount
      · rw [hroom]
        refine ⟨fun _ => ?_, fun _ => rfl⟩
        omega

/-- White drops and comes back as the grace runs out; the match refuses, and Black
still has the room. -/
theorem room_kept_for_black : ∃ s tr,
    run exec (new (fun _ => three_on_a_row) shipped_factory true 20000 none "")
      [.create_room "AAAAAA" "a" 1200 ⟨1⟩, .proceed 0, .join_room "AAAAAA" "b" 1210 ⟨2⟩, .proceed 0,
        .on_disconnect ⟨1, .White, false, 0⟩, .proceed 0, .proceed 0, .tick 1 0 0,
        .join_room "AAAAAA" "a" 1200 ⟨3⟩, .tick 1 20000 0, .proceed 0, .proceed 0] = .ok (s, tr) ∧
    (s.rooms 1).isSome ∧ LivesWhileHeld s 1 := by
  obtain ⟨⟨s, tr⟩, hrun, hp⟩ := exists_ok_such (p := fun r => r.1.calls = [] ∧
      (r.1.rooms 1).isSome) (x :=
    run exec (new (fun _ => three_on_a_row) shipped_factory true 20000 none "")
      [.create_room "AAAAAA" "a" 1200 ⟨1⟩, .proceed 0, .join_room "AAAAAA" "b" 1210 ⟨2⟩, .proceed 0,
        .on_disconnect ⟨1, .White, false, 0⟩, .proceed 0, .proceed 0, .tick 1 0 0,
        .join_room "AAAAAA" "a" 1200 ⟨3⟩, .tick 1 20000 0, .proceed 0, .proceed 0]) (by decide)
  obtain ⟨hquiet, hroom⟩ := of_decide_eq_true hp
  exact ⟨s, tr, hrun, hroom, rooms_live_while_held (reach_of_meets (by decide) hrun) hquiet 1⟩

/-- **A leaked room.** The same, but Black leaves before White is refused: the room
stays, and nobody is in it. -/
theorem leaked_room : ¬ ∀ (board_factory : RoomId → Board) (config : MotionFactory)
    (on_result : Bool) (disconnect_grace_ms : Int) (directory : Option (String → Option String))
    (self_url : String) (s : RoomManager) (tr : List RoomEvent),
    Reach exec anyStep (new board_factory config on_result disconnect_grace_ms directory self_url)
      s tr →
    s.calls = [] → ∀ id, LivesWhileHeld s id := by
  intro h
  obtain ⟨⟨s, tr⟩, hrun, hp⟩ := exists_ok_such (p := fun r => r.1.calls = [] ∧
      (r.1.rooms 1).isSome ∧ r.1.seats_out 1 = 0) (x :=
    run exec (new (fun _ => three_on_a_row) shipped_factory true 20000 none "")
      [.create_room "AAAAAA" "a" 1200 ⟨1⟩, .proceed 0, .join_room "AAAAAA" "b" 1210 ⟨2⟩, .proceed 0,
        .on_disconnect ⟨1, .White, false, 0⟩, .proceed 0, .proceed 0, .tick 1 0 0,
        .join_room "AAAAAA" "a" 1200 ⟨3⟩, .tick 1 20000 0, .on_disconnect ⟨1, .Black, false, 0⟩,
        .proceed 1, .proceed 1, .proceed 0, .proceed 0]) (by decide)
  obtain ⟨hquiet, hroom, hnobody⟩ := of_decide_eq_true hp
  have hsome := ((h _ _ _ _ _ _ s tr (reach_of_run hrun) hquiet 1).2).mp hroom
  rw [hnobody] at hsome
  exact absurd hsome (by decide)

end RoomManager

end KungFuChess
