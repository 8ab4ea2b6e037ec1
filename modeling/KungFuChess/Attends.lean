/-
**Who is attached to a room.**

Each part of a call leaves attached to a room what was attached to it (`Attends`): the
rest of the call, or the seat that it returns. So nothing is attached to a room but by
a call that begins, and a room that counts one has the one that was there.
-/
import KungFuChess.Holders

set_option autoImplicit false

namespace KungFuChess

open Machine

namespace RoomManager

/-! ## Who is attached -/

/-- The call is for a viewer, or for a player who comes back. -/
def visits : Pending → Bool
  | .reconnect _ _ _ | .join_spectator _ _ | .give_back _ _ => true
  | _ => false

/-- The call is for a session that leaves. -/
def leaving : Pending → Bool
  | .leave _ | .reap _ => true
  | _ => false

/-- Nobody is turned away. -/
def Welcomes (os : List RoomEvent) : Prop :=
  (∀ reason, .refused reason ∉ os) ∧ ∀ url, .redirected url ∉ os

/-- What a part leaves is attached where the call was, or nowhere; it is of the same kind, and
while it is attached nobody is turned away. -/
structure Attends (s : RoomManager) (p : Pending) (s' : RoomManager) (os : List RoomEvent)
    (rest : Rest) : Prop where
  calls : s'.calls = s.calls ++ rest.call.toList
  seats : s'.seats = s.seats ++ rest.seat.toList
  call : ∀ q, rest.call = some q → attached q = none ∨
    (attached q = attached p ∧ visits q = visits p ∧ leaving q = leaving p ∧ Welcomes os)
  seat : ∀ seat, rest.seat = some seat →
    attached p = some seat.room ∧ leaving p = false ∧ Welcomes os

section Attends

variable {s s' : RoomManager} {p : Pending} {os : List RoomEvent}

theorem attends_nothing (hcalls : s'.calls = s.calls) (hseats : s'.seats = s.seats) :
    Attends s p s' os .nothing where
  calls := by simp [hcalls, Rest.call]
  seats := by simp [hseats, Rest.seat]
  call := by simp [Rest.call]
  seat := by simp [Rest.seat]

/-- Nobody is attached any more. -/
theorem attends_over {q : Pending} (hcalls : s'.calls = s.calls ++ [q])
    (hseats : s'.seats = s.seats) (hq : attached q = none) : Attends s p s' os (.goes_on q) where
  calls := hcalls
  seats := by simp [hseats, Rest.seat]
  call := by
    intro q' hq'
    obtain rfl := Option.some.inj hq'
    exact .inl hq
  seat := by simp [Rest.seat]

theorem attends_call {q : Pending} (hcalls : s'.calls = s.calls ++ [q])
    (hseats : s'.seats = s.seats)
    (hq : attached q = attached p ∧ visits q = visits p ∧ leaving q = leaving p)
    (hos : Welcomes os) : Attends s p s' os (.goes_on q) where
  calls := hcalls
  seats := by simp [hseats, Rest.seat]
  call := by
    intro q' hq'
    obtain rfl := Option.some.inj hq'
    exact .inr ⟨hq.1, hq.2.1, hq.2.2, hos⟩
  seat := by simp [Rest.seat]

theorem attends_seat {seat : Seat} (hcalls : s'.calls = s.calls)
    (hseats : s'.seats = s.seats ++ [seat]) (hp : attached p = some seat.room ∧ leaving p = false)
    (hos : Welcomes os) : Attends s p s' os (.returns seat) where
  calls := by simp [hcalls, Rest.call]
  seats := hseats
  call := by simp [Rest.call]
  seat := by
    intro seat' hseat'
    obtain rfl := Option.some.inj hseat'
    exact ⟨hp.1, hp.2, hos⟩

theorem welcomes_match (id : RoomId) (es : List MatchEvent) {answer : List RoomEvent}
    (h : Welcomes answer) : Welcomes (es.map (.of_match id) ++ answer) := by
  constructor
  · intro reason hmem
    rcases List.mem_append.mp hmem with hmem | hmem
    · simp at hmem
    · exact h.1 reason hmem
  · intro url hmem
    rcases List.mem_append.mp hmem with hmem | hmem
    · simp at hmem
    · exact h.2 url hmem

theorem welcomes_nil : Welcomes [] := ⟨fun _ => List.not_mem_nil, fun _ => List.not_mem_nil⟩

theorem welcomes_only (id : RoomId) (es : List MatchEvent) :
    Welcomes (es.map (.of_match id)) := by
  have h := welcomes_match id es welcomes_nil
  rwa [List.append_nil] at h

theorem welcomes_seat (seat : Seat) : Welcomes [.returned seat] := by
  constructor
  · simp
  · simp

/-- A join accounts for the connection, if what follows a seat and a refusal does. -/
theorem join_match_attends {id : RoomId} {username : String} {rating : Int}
    {connection : Connection} {seated refused : RoomManager → Seat → RoomManager × List RoomEvent}
    (h : s.join_match id username rating connection seated refused = .ok (s', os))
    (hseated : ∀ t color, ∃ rest, Attends t p (seated t ⟨id, color, false, 0⟩).1
      (seated t ⟨id, color, false, 0⟩).2 rest)
    (hrefused : ∀ t seat, ∃ rest, Attends t p (refused t seat).1 (refused t seat).2 rest) :
    ∃ rest, Attends s p s' os rest := by
  have hafter : ∀ r t answer, (∃ rest, Attends (s.after_match id r).1 p t answer rest) →
      ∃ rest, Attends s p t ((s.after_match id r).2 ++ answer) rest := by
    rintro r t answer ⟨rest, hattends⟩
    refine ⟨rest, hattends.calls, hattends.seats, ?_, ?_⟩
    · intro q hq
      refine (hattends.call q hq).imp_right ?_
      rintro ⟨hsame, hvisits, hleaving, hos⟩
      exact ⟨hsame, hvisits, hleaving, welcomes_match id r.2 hos⟩
    · intro seat hseat
      obtain ⟨hroom, hleaving, hos⟩ := hattends.seat seat hseat
      exact ⟨hroom, hleaving, welcomes_match id r.2 hos⟩
  obtain ⟨-, rfl, rfl⟩ | ⟨m, r, -, -, rfl, rfl⟩ | ⟨m, r, color, -, -, rfl, rfl⟩ :=
    join_match_cases h
  · exact ⟨.nothing, attends_nothing rfl rfl⟩
  · exact hafter r _ _ (hrefused _ _)
  · exact hafter r _ _ (hseated _ _)

/-- **What a call goes on to do** is accounted for. -/
theorem resume_attends (h : s.resume p = .ok (s', os)) : ∃ rest, Attends s p s' os rest := by
  have hreturn : ∀ (t : RoomManager) {q : Pending} {seat : Seat},
      attached q = some seat.room ∧ leaving q = false →
      ∃ rest, Attends t q (t.return_seat seat).1 (t.return_seat seat).2 rest :=
    fun t _ seat hq => ⟨.returns seat, attends_seat rfl rfl hq (welcomes_seat seat)⟩
  cases resume_cases h with
  | join_any id username rating connection s' os joins =>
      refine join_match_attends joins (fun t color => hreturn t ⟨rfl, rfl⟩) ?_
      exact fun t seat => ⟨_, attends_call rfl rfl ⟨rfl, rfl, rfl⟩ welcomes_nil⟩
  | create_room id key username rating connection s' os joins =>
      refine join_match_attends joins ?_ (fun t seat => ⟨_, attends_nothing rfl rfl⟩)
      intro t color
      by_cases hdir : t.directory.isSome
      · rw [if_pos hdir]
        exact ⟨_, attends_call rfl rfl ⟨rfl, rfl, rfl⟩ welcomes_nil⟩
      · rw [if_neg hdir]
        exact hreturn t ⟨rfl, rfl⟩
  | join id username rating connection s' os joins =>
      exact join_match_attends joins (fun t color => hreturn t ⟨rfl, rfl⟩)
        (fun t seat => ⟨_, attends_nothing rfl rfl⟩)
  | nowhere => exact ⟨_, attends_nothing rfl rfl⟩
  | reconnected id =>
      exact ⟨_, attends_seat rfl rfl ⟨rfl, rfl⟩ (welcomes_match id _ (welcomes_seat _))⟩
  | not_reconnected id =>
      exact ⟨_, attends_call rfl rfl ⟨rfl, rfl, rfl⟩ (welcomes_only id _)⟩
  | watches id =>
      exact ⟨_, attends_seat rfl rfl ⟨rfl, rfl⟩ (welcomes_match id _ (welcomes_seat _))⟩
  | full id => exact ⟨_, attends_call rfl rfl ⟨rfl, rfl, rfl⟩ (welcomes_only id _)⟩
  | enqueued => exact ⟨_, attends_nothing rfl rfl⟩
  | viewer_left seat => exact ⟨_, attends_call rfl rfl ⟨rfl, rfl, rfl⟩ (welcomes_only seat.room _)⟩
  | player_left seat => exact ⟨_, attends_call rfl rfl ⟨rfl, rfl, rfl⟩ (welcomes_only seat.room _)⟩
  | registered key seat => exact ⟨_, attends_seat rfl rfl ⟨rfl, rfl⟩ (welcomes_seat seat)⟩
  | redirected => exact ⟨_, attends_nothing rfl rfl⟩
  | unowned => exact ⟨_, attends_nothing rfl rfl⟩
  | undo_gone => exact ⟨_, attends_nothing rfl rfl⟩
  | undo_last => exact ⟨_, attends_over rfl rfl rfl⟩
  | undo_waits => exact ⟨_, attends_nothing rfl rfl⟩
  | undo_stays => exact ⟨_, attends_nothing rfl rfl⟩
  | give_back_gone => exact ⟨_, attends_nothing rfl rfl⟩
  | given_back => exact ⟨_, attends_nothing rfl rfl⟩
  | reap_gone => exact ⟨_, attends_nothing rfl rfl⟩
  | reap_stays => exact ⟨_, attends_nothing rfl rfl⟩
  | reaped => exact ⟨_, attends_over rfl rfl rfl⟩
  | unscheduled => exact ⟨_, attends_nothing rfl rfl⟩
  | forgets => exact ⟨_, attends_over rfl rfl rfl⟩
  | forgotten => exact ⟨_, attends_nothing rfl rfl⟩

end Attends

/-! ## Nobody else -/

section Nobody

variable {s s' : RoomManager} {op : Op} {os : List RoomEvent} {id : RoomId}

/-- One, for the room that is named. -/
def one (o : Option RoomId) (id : RoomId) : Nat := if o = some id then 1 else 0

theorem one_self (id : RoomId) : one (some id) id = 1 := if_pos rfl

theorem one_of_ne {o : Option RoomId} (h : o ≠ some id) : one o id = 0 := if_neg h

theorem one_none (id : RoomId) : one none id = 0 := one_of_ne (by simp)

theorem countP_one {α : Type*} (key : α → Option RoomId) (x : α) (id : RoomId) :
    [x].countP (fun y => key y = some id) = one (key x) id := by
  rw [List.countP_singleton]
  unfold one
  simp only [decide_eq_true_eq]

/-- How many are attached to a room after a part of a call. -/
theorem held_attends {call : Nat} {p : Pending} {rest : Rest} (hp : s.calls[call]? = some p)
    (h : Attends { s with calls := s.calls.eraseIdx call } p s' os rest) (id : RoomId) :
    s'.held id + one (attached p) id
      = s.held id + one (rest.call.bind attached) id + one (rest.seat.map Seat.room) id := by
  have hcalls := (take_perm hp).countP_eq fun q => decide (attached q = some id)
  rw [List.countP_append, countP_one] at hcalls
  unfold held
  rw [h.calls, h.seats, List.countP_append, List.countP_append]
  dsimp only
  cases rest with
  | nothing =>
      show _ + List.countP _ [] + (_ + List.countP _ []) + _ = _ + one none id + one none id
      rw [List.countP_nil, List.countP_nil, one_none]
      omega
  | goes_on q =>
      show _ + List.countP _ [] + (_ + List.countP _ [q]) + _
        = _ + one (attached q) id + one none id
      rw [List.countP_nil, countP_one, one_none]
      omega
  | returns seat =>
      have hseat : [seat].countP (fun y => decide (y.room = id)) = one (some seat.room) id := by
        have h := countP_one (fun y : Seat => some y.room) seat id
        simpa only [Option.some.injEq] using h
      show _ + List.countP _ [seat] + (_ + List.countP _ []) + _
        = _ + one none id + one (some seat.room) id
      rw [List.countP_nil, hseat, one_none]
      omega

/-- How many are attached to a room when a call has begun. -/
theorem held_began {p : Pending} (hcalls : s'.calls = s.calls ++ [p]) (hseats : s'.seats = s.seats)
    (id : RoomId) : s'.held id = s.held id + one (attached p) id := by
  unfold held
  rw [hcalls, hseats, List.countP_append, countP_one]
  omega

theorem joins_began {p : Pending} (hcalls : s'.calls = s.calls ++ [p]) (id : RoomId) :
    s'.joins id = s.joins id + one (joining p) id := by
  unfold joins
  rw [hcalls, List.countP_append, countP_one]

theorem held_same (hcalls : s'.calls = s.calls) (hseats : s'.seats = s.seats) (id : RoomId) :
    s'.held id = s.held id := by
  unfold held
  rw [hcalls, hseats]

/-- A seat is passed on: it counts no more, but for the call that is about it. -/
theorem held_passed {seat : Seat} {rest : Rest} (hheld : seat ∈ s.seats)
    (hrest : rest = .goes_on (.leave seat) ∨ rest = .nothing)
    (hcalls : s'.calls = s.calls ++ rest.call.toList) (hseats : s'.seats = s.seats.erase seat)
    (id : RoomId) : s'.held id + one (some seat.room) id
      = s.held id + one (rest.call.bind attached) id := by
  have hperm := (List.perm_cons_erase hheld).countP_eq fun y => decide (y.room = id)
  have hone : [seat].countP (fun y => decide (y.room = id)) = one (some seat.room) id := by
    have h := countP_one (fun y : Seat => some y.room) seat id
    simpa only [Option.some.injEq] using h
  rw [← List.singleton_append, List.countP_append, hone] at hperm
  unfold held
  rw [hcalls, hseats, List.countP_append]
  rcases hrest with rfl | rfl
  · show _ + (_ + List.countP _ [_]) + _ = _ + one (attached (.leave seat)) id
    rw [countP_one]
    omega
  · show _ + (_ + List.countP _ []) + _ = _ + one none id
    rw [List.countP_nil, one_none]
    omega

/-- No part of a call attaches anything to a room that the call was not attached to. -/
theorem held_attends_le {call : Nat} {p : Pending} {rest : Rest} (hp : s.calls[call]? = some p)
    (h : Attends { s with calls := s.calls.eraseIdx call } p s' os rest) (id : RoomId) :
    s'.held id ≤ s.held id := by
  have hheld := held_attends hp h id
  cases rest with
  | nothing =>
      have hnone : one ((Rest.nothing.call).bind attached) id = 0 := one_none id
      have hnone' : one ((Rest.nothing.seat).map Seat.room) id = 0 :=
        one_none id
      omega
  | goes_on q =>
      have hnone : one (((Rest.goes_on q).seat).map Seat.room) id = 0 :=
        one_none id
      have hq : one (((Rest.goes_on q).call).bind attached) id ≤ one (attached p) id := by
        show one (attached q) id ≤ _
        rcases h.call q rfl with hfree | ⟨hsame, -⟩
        · rw [hfree, one_none]
          exact Nat.zero_le _
        · rw [hsame]
      omega
  | returns seat =>
      have hnone : one (((Rest.returns seat).call).bind attached) id = 0 :=
        one_none id
      have hseat : one (((Rest.returns seat).seat).map Seat.room) id = one (attached p) id := by
        rw [(h.seat seat rfl).1]
        rfl
      omega

/-- Viewers are let in when both seats are taken. -/
theorem crowded_of_viewer {name username : String} {rating : Int} {connection c : Connection}
    (h : exec s (.join_room name username rating connection) = .ok (s', os))
    (hcalls : s'.calls = s.calls ++ [.join_spectator id c]) :
    ∃ room, s.rooms id = some room ∧ 2 ≤ room.seats_taken := by
  have hlast : ∀ {q : Pending}, s.calls ++ [q] = s.calls ++ [.join_spectator id c] →
      q = .join_spectator id c := fun h => List.singleton_inj.mp (List.append_cancel_left h)
  have hmore : s.calls ≠ s.calls ++ [.join_spectator id c] := by simp
  rw [exec] at h
  cases hname : s.named_rooms name with
  | none =>
      rw [hname] at h
      dsimp only at h
      split_ifs at h
      · obtain ⟨rfl, rfl⟩ := Prod.mk.inj (Except.ok.inj h)
        cases hlast hcalls
      · obtain ⟨rfl, rfl⟩ := Prod.mk.inj (Except.ok.inj h)
        exact absurd hcalls hmore
  | some j =>
      rw [hname] at h
      dsimp only at h
      unfold start_join_found at h
      cases hr : s.rooms j with
      | none =>
          rw [hr] at h
          obtain ⟨rfl, rfl⟩ := Prod.mk.inj (Except.ok.inj h)
          exact absurd hcalls hmore
      | some room =>
          rw [hr] at h
          obtain ⟨-, hnothing⟩ | ⟨m, -, hpart⟩ := with_match_found h
          · obtain ⟨rfl, rfl⟩ := Prod.mk.inj hnothing
            exact absurd hcalls hmore
          · by_cases hover : m.is_over = true
            · rw [if_pos hover] at hpart
              obtain ⟨rfl, rfl⟩ := Prod.mk.inj (Except.ok.inj hpart)
              exact absurd hcalls hmore
            · rw [if_neg hover] at hpart
              cases hreclaim : m.reclaimable_seat_for username with
              | some color =>
                  rw [hreclaim] at hpart
                  obtain ⟨rfl, rfl⟩ := Prod.mk.inj (Except.ok.inj hpart)
                  cases hlast hcalls
              | none =>
                  rw [hreclaim] at hpart
                  dsimp only at hpart
                  split_ifs at hpart with hfull
                  · obtain ⟨rfl, rfl⟩ := Prod.mk.inj (Except.ok.inj hpart)
                    obtain ⟨rfl, -⟩ := Pending.join_spectator.inj (hlast hcalls)
                    exact ⟨room, hr, hfull⟩
                  · obtain ⟨rfl, rfl⟩ := Prod.mk.inj (Except.ok.inj hpart)
                    cases hlast hcalls

/-- A pending call does its next part. -/
theorem proceed_attends {call : Nat} {p : Pending} (hexec : exec s (.proceed call) = .ok (s', os))
    (hp : s.calls[call]? = some p) : ∃ rest,
      Attends { s with calls := s.calls.eraseIdx call } p s' os rest ∧ returned os = rest.seat := by
  have hturn := exec_turn hexec
  rw [exec, hp] at hexec
  obtain ⟨rest, hattends⟩ := resume_attends hexec
  refine ⟨rest, hattends, ?_⟩
  cases hturn with
  | idle gone unheld answer calls seats matches_ =>
      rw [gone call rfl] at hp
      cases hp
  | began p begins answer calls seats matches_ => cases begins
  | opened p name begins answer calls seats matches_ => cases begins
  | passed seat rest held about leaving answer calls seats matches_ => cases about
  | went call' p' rest' about pending goes answer calls seats follows =>
      have hseats := List.append_cancel_left (hattends.seats.symm.trans seats)
      rw [answer]
      cases hr : rest.seat <;> cases hr' : rest'.seat <;> simp_all
  | ticked j m now elapsed_ms r about here step answer calls seats matches_ => cases about

/-- A tick, or a change of the directory, is no call. -/
theorem exec_aside (hexec : exec s op = .ok (s', os))
    (hop : (∃ room now elapsed_ms, op = .tick room now elapsed_ms) ∨
      ∃ name owner, op = .directory_changes name owner) :
    s'.calls = s.calls ∧ s'.seats = s.seats ∧ ∀ p, ¬ Begins s op p := by
  have hnone : ∀ p, ¬ Begins s op p := by
    rintro p hbegins
    rcases hop with ⟨room, now, elapsed_ms, rfl⟩ | ⟨name, owner, rfl⟩
    · cases hbegins
    · cases hbegins
  cases exec_turn hexec with
  | idle gone unheld answer calls seats matches_ => exact ⟨calls, seats, hnone⟩
  | ticked j m now elapsed_ms r about here step answer calls seats matches_ =>
      exact ⟨calls, seats, hnone⟩
  | began p begins answer calls seats matches_ => exact absurd begins (hnone p)
  | opened p name begins answer calls seats matches_ => exact absurd begins (hnone p)
  | passed seat rest held about leaving answer calls seats matches_ =>
      rcases hop with ⟨_, _, _, rfl⟩ | ⟨_, _, rfl⟩
      · cases about
      · cases about
  | went call p rest about pending goes answer calls seats follows =>
      rcases hop with ⟨_, _, _, rfl⟩ | ⟨_, _, rfl⟩
      · cases about
      · cases about

end Nobody

end RoomManager

end KungFuChess
