/-
**Whether a returning player gets the seat back.**

`join_room` recognises a returning name by `reclaimable_seat_for`, and that asks
`DisconnectWatch` for the colour it is counting down. A drop is counted down from
the next tick on, and only while no other drop is; before that, or when the other
player's drop has taken its place, the player comes back as a viewer
(`seat_not_reclaimed`). While it is counted down, and only then, the seat is there
to be reclaimed (`reclaims_iff_counted_down`).
-/
import KungFuChess.Accounts

set_option autoImplicit false

namespace KungFuChess

open Machine

namespace RoomManager

/-! ## A call by itself -/

/-- `join_room`, with nothing else going on until it has returned. -/
def join_room_alone (s : RoomManager) (name username : String) (rating : Int)
    (connection : Connection) : Except RoomError (RoomManager × List RoomEvent) :=
  run exec s [.join_room name username rating connection, .proceed s.calls.length,
    .proceed s.calls.length]

/-- The seats that calls return. -/
def seats_in (os : List RoomEvent) : List Seat :=
  os.filterMap fun
    | .returned seat => some seat
    | _ => none

theorem seats_in_append (os os' : List RoomEvent) :
    seats_in (os ++ os') = seats_in os ++ seats_in os' := List.filterMap_append

theorem seats_in_match (id : RoomId) (os : List MatchEvent) :
    seats_in (os.map (.of_match id)) = [] := by
  unfold seats_in
  rw [List.filterMap_map]
  exact List.filterMap_eq_nil_iff.mpr fun _ _ => rfl

/-- The last of the pending calls goes on. -/
theorem proceed_last (s : RoomManager) (p : Pending) :
    exec (s.then_do p) (.proceed s.calls.length) = s.resume p := by
  have hget : (s.then_do p).calls[s.calls.length]? = some p := List.getElem?_concat_length
  have htake : (s.then_do p).calls.eraseIdx s.calls.length = s.calls := by
    show (s.calls ++ [p]).eraseIdx s.calls.length = s.calls
    rw [List.eraseIdx_append_of_length_le (Nat.le_refl _), Nat.sub_self]
    exact List.append_nil _
  rw [exec, hget]
  dsimp only
  rw [htake]
  rfl

theorem proceed_none (s : RoomManager) : exec s (.proceed s.calls.length) = .ok (s, []) := by
  rw [exec, List.getElem?_eq_none (Nat.le_refl _)]
  rfl

/-- A call that waits after its first part does the next, and the one after that. -/
theorem alone_of_start {s s₁ s₂ s₃ : RoomManager} {name username : String} {rating : Int}
    {connection : Connection} {p : Pending} {os₂ os₃ : List RoomEvent}
    (hstart : exec s (.join_room name username rating connection) = .ok (s₁.then_do p, []))
    (hcalls : s₁.calls = s.calls) (hresume : s₁.resume p = .ok (s₂, os₂))
    (hrest : exec s₂ (.proceed s.calls.length) = .ok (s₃, os₃)) :
    s.join_room_alone name username rating connection = .ok (s₃, os₂ ++ os₃) := by
  have hnext : exec (s₁.then_do p) (.proceed s.calls.length) = .ok (s₂, os₂) := by
    rw [← hcalls, proceed_last]
    exact hresume
  exact run_append (run_singleton hstart) (run_append (run_singleton hnext) (run_singleton hrest))

/-- A call that returns at once. -/
theorem alone_of_answer {s : RoomManager} {name username : String} {rating : Int}
    {connection : Connection} {os : List RoomEvent}
    (hstart : exec s (.join_room name username rating connection) = .ok (s, os)) :
    s.join_room_alone name username rating connection = .ok (s, os) := by
  have hrun := run_append (run_singleton hstart)
    (run_append (run_singleton (proceed_none s)) (run_singleton (proceed_none s)))
  rw [List.append_nil, List.append_nil] at hrun
  exact hrun

/-! ## What it returns -/

/-- What `join_room` can return for a match: the seat whose grace is counted down, if
it is the caller's, and else the seat of a viewer or one that nobody had. -/
inductive Returns (m : Match) (id : RoomId) (username : String) (seats : List Seat) : Prop
  | reclaimed (color : PieceColor) (counting : m.disconnect_watch.watching = some color)
      (theirs : m.audience.username_of color = username) (seat : seats = [⟨id, color, false, 0⟩])
  | other (unknown : ∀ color, m.disconnect_watch.watching = some color →
        m.audience.username_of color ≠ username)
      (elsewhere : ∀ seat ∈ seats, seat.room = id ∧
        (seat.spectator = true ∨ m.audience.player seat.color = none))

/-- The name is not recognised exactly when it is not the one that is waited for. -/
theorem reclaimable_spec {m : Match} (username : String) (hopen : m.is_over = false) :
    (∃ color, m.reclaimable_seat_for username = some color ∧
      m.disconnect_watch.watching = some color ∧ m.audience.username_of color = username) ∨
    (m.reclaimable_seat_for username = none ∧ ∀ color, m.disconnect_watch.watching = some color →
      m.audience.username_of color ≠ username) := by
  have hopen : m.game_over = false := hopen
  unfold Match.reclaimable_seat_for
  cases hw : m.disconnect_watch.watching with
  | none => exact .inr ⟨rfl, nofun⟩
  | some counting_down =>
      dsimp only
      rw [hopen, if_neg Bool.false_ne_true]
      split_ifs with htheirs
      · refine .inr ⟨rfl, fun color hcolor => ?_⟩
        rw [← Option.some.inj hcolor]
        exact htheirs
      · exact .inl ⟨counting_down, rfl, rfl, not_not.mp htheirs⟩

/-- A seat that is given was free. -/
theorem join_free {m : Match} {username : String} {rating : Int} {connection : Connection}
    {r : Match × List MatchEvent} {color : PieceColor}
    (h : m.join username rating connection = (r, some color)) : m.audience.player color = none := by
  unfold Match.join at h
  rcases hs : m.audience.seat username rating connection connection with ⟨a, assigned⟩
  rw [hs] at h
  cases assigned with
  | none => cases h
  | some c =>
      obtain rfl := Option.some.inj (Prod.mk.inj h).2
      exact (MatchAudience.seat_spec hs).free

/-- Whoever is counted down in an open match is let back in. -/
theorem reconnect_taken {m : Match} {color : PieceColor} (connection : Connection)
    (hopen : m.is_over = false) (hwatch : m.disconnect_watch.watching = some color) :
    (m.reconnect color connection).2 = true := by
  rcases Match.reconnect_spec m color connection with ⟨_, hno⟩ | ⟨_, _, hyes, _, _⟩
  · exact absurd ⟨hopen, hwatch⟩ hno
  · exact hyes

variable {s s₁ : RoomManager} {name username : String} {rating : Int} {connection : Connection}
  {id : RoomId} {room : Room} {m : Match}

/-- The way in for a player who is waited for. -/
theorem alone_reconnect {color : PieceColor}
    (hstart : exec s (.join_room name username rating connection)
      = .ok (s₁.then_do (.reconnect id color connection), []))
    (hcalls : s₁.calls = s.calls) (hm : s₁.match_of id = some m) (hopen : m.is_over = false)
    (hwatch : m.disconnect_watch.watching = some color) :
    ∃ s' os, s.join_room_alone name username rating connection = .ok (s', os) ∧
      seats_in os = [⟨id, color, false, 0⟩] := by
  have htaken := reconnect_taken connection hopen hwatch
  have hresume : s₁.resume (.reconnect id color connection)
      = .ok ((s₁.after_match id (m.reconnect color connection).1).1.hand_over ⟨id, color, false, 0⟩,
        (s₁.after_match id (m.reconnect color connection).1).2
          ++ [.returned ⟨id, color, false, 0⟩]) := by
    rw [resume, with_match_some hm]
    dsimp only
    rw [htaken]
    rfl
  refine ⟨_, _, alone_of_start hstart hcalls hresume (by
    rw [← hcalls]
    exact proceed_none _), ?_⟩
  rw [List.append_nil, seats_in_append]
  exact congrArg (· ++ _) (seats_in_match id _)

theorem give_back_answer (s : RoomManager) (id : RoomId) (reason : String) :
    ∃ s', s.resume (.give_back id reason) = .ok (s', [.refused reason]) := by
  rw [resume]
  cases s.rooms id with
  | none => exact ⟨_, rfl⟩
  | some room => exact ⟨_, rfl⟩

/-- The way in for a viewer. -/
theorem alone_join_spectator
    (hstart : exec s (.join_room name username rating connection)
      = .ok (s₁.then_do (.join_spectator id connection), []))
    (hcalls : s₁.calls = s.calls) (hm : s₁.match_of id = some m) :
    ∃ s' os, s.join_room_alone name username rating connection = .ok (s', os) ∧
      ∀ seat ∈ seats_in os, seat.room = id ∧ seat.spectator = true := by
  rcases hj : m.join_spectator connection with ⟨r, watcher⟩
  by_cases hfull : watcher = 0
  · -- the room is full of viewers: the connection is given back
    have hresume : s₁.resume (.join_spectator id connection)
        = .ok ((s₁.after_match id r).1.then_do
          (.give_back id join_reasons.kSpectatorLimitReached), (s₁.after_match id r).2) := by
      rw [resume, with_match_some hm]
      dsimp only
      rw [hj]
      dsimp only
      rw [if_pos hfull]
      rfl
    obtain ⟨s₃, hback⟩ := (s₁.after_match id r).1.give_back_answer id
      join_reasons.kSpectatorLimitReached
    refine ⟨_, _, alone_of_start hstart hcalls hresume (by
      rw [← hcalls]
      exact (proceed_last (s₁.after_match id r).1 _).trans hback), fun seat hmem => ?_⟩
    rw [seats_in_append] at hmem
    have hnone : seats_in (s₁.after_match id r).2 = [] := seats_in_match id r.2
    rw [hnone] at hmem
    cases hmem
  · have hresume : s₁.resume (.join_spectator id connection)
        = .ok ((s₁.after_match id r).1.hand_over ⟨id, .White, true, watcher⟩,
          (s₁.after_match id r).2 ++ [.returned ⟨id, .White, true, watcher⟩]) := by
      rw [resume, with_match_some hm]
      dsimp only
      rw [hj]
      dsimp only
      rw [if_neg hfull]
      rfl
    refine ⟨_, _, alone_of_start hstart hcalls hresume (by
      rw [← hcalls]
      exact proceed_none _), fun seat hmem => ?_⟩
    have hnone : seats_in (s₁.after_match id r).2 = [] := seats_in_match id r.2
    rw [List.append_nil, seats_in_append, hnone] at hmem
    rw [List.mem_singleton.mp hmem]
    exact ⟨rfl, rfl⟩

/-- The way in for a second player. -/
theorem alone_join
    (hstart : exec s (.join_room name username rating connection)
      = .ok (s₁.then_do (.join id username rating connection), []))
    (hcalls : s₁.calls = s.calls) (hm : s₁.match_of id = some m) :
    ∃ s' os, s.join_room_alone name username rating connection = .ok (s', os) ∧
      ∀ seat ∈ seats_in os, seat.room = id ∧ m.audience.player seat.color = none := by
  rcases hj : m.join username rating connection with ⟨r, assigned⟩
  have hnone : seats_in (s₁.after_match id r).2 = [] := seats_in_match id r.2
  cases assigned with
  | none =>
      have hresume : s₁.resume (.join id username rating connection)
          = .ok ((s₁.after_match id r).1, (s₁.after_match id r).2 ++ [.refused ""]) := by
        rw [resume, join_match, with_match_some hm]
        dsimp only
        rw [hj]
        rfl
      refine ⟨_, _, alone_of_start hstart hcalls hresume (by
        rw [← hcalls]
        exact proceed_none _), fun seat hmem => ?_⟩
      rw [List.append_nil, seats_in_append, hnone] at hmem
      cases hmem
  | some color =>
      have hresume : s₁.resume (.join id username rating connection)
          = .ok ((s₁.after_match id r).1.hand_over ⟨id, color, false, 0⟩,
            (s₁.after_match id r).2 ++ [.returned ⟨id, color, false, 0⟩]) := by
        rw [resume, join_match, with_match_some hm]
        dsimp only
        rw [hj]
        rfl
      refine ⟨_, _, alone_of_start hstart hcalls hresume (by
        rw [← hcalls]
        exact proceed_none _), fun seat hmem => ?_⟩
      rw [List.append_nil, seats_in_append, hnone] at hmem
      rw [List.mem_singleton.mp hmem]
      exact ⟨rfl, join_free hj⟩

/-- **What `join_room` returns for an open match** whose room is there. -/
theorem alone_returns (username : String) (rating : Int) (connection : Connection)
    (hname : s.named_rooms name = some id) (hroom : s.rooms id = some room)
    (hm : s.match_of id = some m) (hopen : m.is_over = false) :
    ∃ s' os, s.join_room_alone name username rating connection = .ok (s', os) ∧
      Returns m id username (seats_in os) := by
  have hstart : exec s (.join_room name username rating connection)
      = s.start_join_found id username rating connection := by
    rw [exec, hname]
  unfold start_join_found at hstart
  rw [hroom] at hstart
  dsimp only at hstart
  rw [with_match_some hm] at hstart
  rw [hopen, if_neg Bool.false_ne_true] at hstart
  rcases reclaimable_spec username hopen with ⟨color, hreclaim, hwatch, htheirs⟩ |
    ⟨hreclaim, hunknown⟩
  · rw [hreclaim] at hstart
    obtain ⟨s', os, hrun, hseats⟩ := alone_reconnect hstart rfl hm hopen hwatch
    exact ⟨s', os, hrun, .reclaimed color hwatch htheirs hseats⟩
  · rw [hreclaim] at hstart
    dsimp only at hstart
    split_ifs at hstart with hfull
    · obtain ⟨s', os, hrun, hseats⟩ := alone_join_spectator hstart rfl hm
      exact ⟨s', os, hrun, .other hunknown fun seat hmem =>
        ⟨(hseats seat hmem).1, .inl (hseats seat hmem).2⟩⟩
    · obtain ⟨s', os, hrun, hseats⟩ := alone_join hstart rfl hm
      exact ⟨s', os, hrun, .other hunknown fun seat hmem =>
        ⟨(hseats seat hmem).1, .inr (hseats seat hmem).2⟩⟩

theorem Returns.of_room {seats : List Seat} (h : Returns m id username seats) :
    ∀ seat ∈ seats, seat.room = id := by
  intro seat hmem
  rcases h with ⟨color, _, _, hseats⟩ | ⟨_, helse⟩
  · rw [hseats] at hmem
    rw [List.mem_singleton.mp hmem]
  · exact (helse seat hmem).1

/-- For the name of another room, or of none, it returns no seat of this one. -/
theorem alone_elsewhere (h : Accounted s) (username : String) (rating : Int)
    (connection : Connection) (hname : s.named_rooms name ≠ some id) :
    ∃ s' os, s.join_room_alone name username rating connection = .ok (s', os) ∧
      ∀ seat ∈ seats_in os, seat.room ≠ id := by
  cases hn : s.named_rooms name with
  | none =>
      by_cases hd : s.directory.isSome
      · have hstart : exec s (.join_room name username rating connection)
            = .ok (s.then_do (.owner_of name), []) := by
          rw [exec, hn]
          exact if_pos hd
        have hresume : ∃ answer, s.resume (.owner_of name) = .ok (s, answer) ∧
            seats_in answer = [] := by
          rw [resume]
          split
          · exact ⟨_, rfl, rfl⟩
          · exact ⟨_, rfl, rfl⟩
        obtain ⟨answer, hanswer, hnone⟩ := hresume
        refine ⟨_, _, alone_of_start hstart rfl hanswer (proceed_none s), fun seat hmem => ?_⟩
        rw [List.append_nil, hnone] at hmem
        cases hmem
      · have hstart : exec s (.join_room name username rating connection)
            = .ok (s, [.refused join_reasons.kNoSuchRoom]) := by
          rw [exec, hn]
          exact if_neg hd
        exact ⟨_, _, alone_of_answer hstart, fun _ hmem => absurd hmem List.not_mem_nil⟩
  | some j =>
      -- the name is that of another live room, which has its own match
      have hne : j ≠ id := by
        rintro rfl
        exact hname hn
      obtain ⟨room, hroom, -⟩ := Option.map_eq_some_iff.mp ((h.names.named name j).mp hn).2
      obtain ⟨m, hm⟩ := Option.isSome_iff_exists.mp (h.homes.here j (by rw [hroom]; rfl))
      have hroom : s.rooms j = some room := hroom
      have hm : s.match_of j = some m := hm
      by_cases hover : m.is_over = true
      · have hstart : exec s (.join_room name username rating connection)
            = .ok (s, [.refused join_reasons.kRoomNotActive]) := by
          rw [exec, hn]
          dsimp only
          rw [start_join_found, hroom]
          dsimp only
          rw [with_match_some hm]
          exact if_pos hover
        exact ⟨_, _, alone_of_answer hstart, fun _ hmem => absurd hmem List.not_mem_nil⟩
      · have hopen := Bool.eq_false_iff.mpr hover
        obtain ⟨s', os, hrun, hreturns⟩ :=
          alone_returns username rating connection hn hroom hm hopen
        exact ⟨s', os, hrun, fun seat hmem hid => hne ((hreturns.of_room seat hmem).symm.trans hid)⟩

/-! ## The seat of a dropped player -/

/-- A call returned the player's own seat. -/
def ReturnsSeat (id : RoomId) (color : PieceColor)
    (answer : Except RoomError (RoomManager × List RoomEvent)) : Prop :=
  ∃ s' os, answer = .ok (s', os) ∧
    ∃ seat ∈ seats_in os, seat.room = id ∧ seat.color = color ∧ seat.spectator = false

theorem ReturnsSeat.of_run {color : PieceColor}
    {answer : Except RoomError (RoomManager × List RoomEvent)} {s' : RoomManager}
    {os : List RoomEvent} (h : ReturnsSeat id color answer) (hrun : answer = .ok (s', os)) :
    ∃ seat ∈ seats_in os, seat.room = id ∧ seat.color = color ∧ seat.spectator = false := by
  obtain ⟨s₁, os₁, hrun₁, hseat⟩ := h
  obtain ⟨-, rfl⟩ := Prod.mk.inj (Except.ok.inj (hrun₁.symm.trans hrun))
  exact hseat

/-- **When a player gets the seat back.** In every state of an open match, a call of
`join_room` under the name of a player who has a seat returns that seat if and only
if the room is still there and the player's is the drop that is counted down. -/
theorem reclaims_iff_counted_down {board_factory : RoomId → Board} {config : MotionFactory}
    {on_result : Bool} {disconnect_grace_ms : Int} {directory : Option (String → Option String)}
    {self_url : String} {s : RoomManager} {tr : List RoomEvent} {id : RoomId} {m : Match}
    {color : PieceColor}
    (hrun : Reach exec anyStep
      (new board_factory config on_result disconnect_grace_ms directory self_url) s tr)
    (hm : s.match_of id = some m) (hname : m.room_name ≠ "") (hopen : m.is_over = false)
    (hseated : (m.audience.player color).isSome) (rating : Int) (connection : Connection) :
    ReturnsSeat id color
        (s.join_room_alone m.room_name (m.audience.username_of color) rating connection) ↔
      (s.rooms id).isSome ∧ m.disconnect_watch.watching = some color := by
  have hacc : Accounted s := accounted_of_reach (accounted_new _ _ _ _ _ _) hrun
  by_cases hfound : s.named_rooms m.room_name = some id
  · obtain ⟨room, hroom, -⟩ := Option.map_eq_some_iff.mp
      ((hacc.names.named m.room_name id).mp hfound).2
    have hroom : s.rooms id = some room := hroom
    obtain ⟨s', os, halone, hreturns⟩ := alone_returns (m.audience.username_of color) rating
      connection hfound hroom hm hopen
    rw [hroom]
    constructor
    · intro hseat
      obtain ⟨seat, hmem, -, hcolor, hplayer⟩ := hseat.of_run halone
      rcases hreturns with ⟨c, hwatch, -, hseats⟩ | ⟨-, helse⟩
      · rw [hseats] at hmem
        obtain rfl := List.mem_singleton.mp hmem
        rw [← hcolor]
        exact ⟨rfl, hwatch⟩
      · -- a viewer's seat, or one that was free, is not the player's
        rcases (helse seat hmem).2 with hspec | hfree
        · cases hspec.symm.trans hplayer
        · rw [hcolor] at hfree
          rw [hfree] at hseated
          cases hseated
    · rintro ⟨-, hwatch⟩
      rcases hreturns with ⟨c, hc, -, hseats⟩ | ⟨hunknown, -⟩
      · obtain rfl := Option.some.inj (hc.symm.trans hwatch)
        refine ⟨s', os, halone, ⟨id, c, false, 0⟩, ?_, rfl, rfl, rfl⟩
        rw [hseats]
        exact List.mem_singleton_self _
      · exact absurd rfl (hunknown color hwatch)
  · obtain ⟨s', os, halone, helse⟩ := alone_elsewhere hacc (m.audience.username_of color) rating
      connection hfound
    constructor
    · intro hseat
      obtain ⟨seat, hmem, hid, -⟩ := hseat.of_run halone
      exact absurd hid (helse seat hmem)
    · -- a room that is there is found by its name
      rintro ⟨hlive, -⟩
      obtain ⟨room, hroom⟩ := Option.isSome_iff_exists.mp hlive
      have hroom : s.ledger.name_of id = some room.name := congrArg (Option.map Room.name) hroom
      have hsame : m.room_name = room.name := hacc.names.room_name id m room.name hm hroom
      exact absurd ((hacc.names.named m.room_name id).mpr ⟨hname, hsame ▸ hroom⟩) hfound

/-- White drops, the countdown begins, and White comes back. -/
theorem white_reclaims : ∃ s tr m,
    run exec (new (fun _ => three_on_a_row) shipped_factory true 20000 none "")
      [.create_room "AAAAAA" "a" 1200 ⟨1⟩, .proceed 0, .join_room "AAAAAA" "b" 1210 ⟨2⟩, .proceed 0,
        .on_disconnect ⟨1, .White, false, 0⟩, .proceed 0, .proceed 0, .tick 1 0 0] = .ok (s, tr) ∧
    s.match_of 1 = some m ∧ (ReturnsSeat 1 .White
        (s.join_room_alone m.room_name (m.audience.username_of .White) 1200 ⟨3⟩) ↔
      (s.rooms 1).isSome ∧ m.disconnect_watch.watching = some .White) := by
  obtain ⟨⟨s, tr⟩, hrun, hp⟩ := exists_ok_such (p := fun r => (r.1.match_of 1).any fun m =>
      m.room_name ≠ "" ∧ m.is_over = false ∧ (m.audience.player .White).isSome) (x :=
    run exec (new (fun _ => three_on_a_row) shipped_factory true 20000 none "")
      [.create_room "AAAAAA" "a" 1200 ⟨1⟩, .proceed 0, .join_room "AAAAAA" "b" 1210 ⟨2⟩, .proceed 0,
        .on_disconnect ⟨1, .White, false, 0⟩, .proceed 0, .proceed 0, .tick 1 0 0]) (by decide)
  obtain ⟨m, hm, hp⟩ := (Option.any_eq_true _ _).mp hp
  obtain ⟨hname, hopen, hseated⟩ := of_decide_eq_true hp
  exact ⟨s, tr, m, hrun, hm, reclaims_iff_counted_down (reach_of_run hrun) hm hname hopen hseated
    1200 ⟨3⟩⟩

/-- **A seat that is not reclaimed.** White drops, and comes back before the next
tick: as a viewer. -/
theorem seat_not_reclaimed : ¬ ∀ (board_factory : RoomId → Board) (config : MotionFactory)
    (on_result : Bool) (disconnect_grace_ms : Int) (directory : Option (String → Option String))
    (self_url : String) (s : RoomManager) (tr : List RoomEvent) (id : RoomId) (m : Match)
    (color : PieceColor) (rating : Int) (connection : Connection),
    Reach exec anyStep (new board_factory config on_result disconnect_grace_ms directory self_url)
      s tr →
    (s.rooms id).isSome → s.match_of id = some m → m.room_name ≠ "" → m.is_over = false →
    (m.audience.player color).isSome → Match.dropped (events_of id tr) color →
    ReturnsSeat id color
      (s.join_room_alone m.room_name (m.audience.username_of color) rating connection) := by
  intro h
  obtain ⟨⟨s, tr⟩, hrun, hp⟩ := exists_ok_such (p := fun r => (r.1.rooms 1).isSome ∧
      (r.1.match_of 1).any fun m => m.room_name ≠ "" ∧ m.is_over = false ∧
        (m.audience.player .White).isSome ∧ Match.dropped (events_of 1 r.2) .White ∧
        (r.1.join_room_alone m.room_name (m.audience.username_of .White) 1200 ⟨3⟩).toOption.all
          fun answer => (seats_in answer.2).all Seat.spectator) (x :=
    run exec (new (fun _ => three_on_a_row) shipped_factory true 20000 none "")
      [.create_room "AAAAAA" "a" 1200 ⟨1⟩, .proceed 0, .join_room "AAAAAA" "b" 1210 ⟨2⟩, .proceed 0,
        .on_disconnect ⟨1, .White, false, 0⟩, .proceed 0, .proceed 0]) (by decide)
  obtain ⟨hlive, hp⟩ := of_decide_eq_true hp
  obtain ⟨m, hm, hp⟩ := (Option.any_eq_true _ _).mp hp
  obtain ⟨hname, hopen, hseated, hdropped, hviewer⟩ := of_decide_eq_true hp
  obtain ⟨s', os, halone, seat, hmem, -, -, hplayer⟩ := h _ _ _ _ _ _ s tr 1 m .White 1200 ⟨3⟩
    (reach_of_run hrun) hlive hm hname hopen hseated hdropped
  rw [halone] at hviewer
  have hspec := List.all_eq_true.mp hviewer seat hmem
  exact absurd (hspec.symm.trans hplayer) nofun

end RoomManager

end KungFuChess
