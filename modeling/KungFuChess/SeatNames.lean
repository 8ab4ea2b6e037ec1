/-
**Whose a seat is.**

A colour of a match has the username it was given with, for good: `join` names a
colour that is free, and `reconnect` gives a colour back without renaming it. So a
call that is made for somebody (`MadeFor`) grants a player's seat of that name only,
however many other calls come between the check of `reclaimable_seat_for` and the
`reconnect` it allows. What a match has queued came by `enqueue`, and what a command
starts to move is of the colour it came under.
-/
import KungFuChess.Accounts
import KungFuChess.Holders

set_option autoImplicit false

namespace KungFuChess

open Machine

namespace MatchAudience

/-- Whoever plays goes on to, under the same name. -/
def Stays (a a' : MatchAudience) : Prop := ∀ color, (a.player color).isSome →
  (a'.player color).isSome ∧ a'.username_of color = a.username_of color

theorem Stays.refl (a : MatchAudience) : Stays a a := by
  intro color hplayer
  exact ⟨hplayer, rfl⟩

/-- A seat is taken where nobody plays. -/
theorem SeatTaken.stays {a a' : MatchAudience} {color : PieceColor} {username : String}
    {connection : Connection} (h : SeatTaken a a' color username connection) : Stays a a' := by
  intro c hplayer
  refine ⟨h.player_stays hplayer, ?_⟩
  rw [h.username_of, if_neg]
  intro hc
  rw [hc, h.free] at hplayer
  cases hplayer

end MatchAudience

namespace Match

theorem SeatsSame.stays {a a' : MatchAudience} (h : SeatsSame a a') : a.Stays a' := by
  intro color hplayer
  exact ⟨h.player color hplayer, h.username_of color⟩

/-- Who joins plays under the name given. -/
theorem join_named {m : Match} {username : String} {rating : Int} {connection : Connection}
    {color : PieceColor} (h : (m.join username rating connection).2 = some color) :
    m.audience.Stays (m.join username rating connection).1.1.audience ∧
      ((m.join username rating connection).1.1.audience.player color).isSome ∧
      (m.join username rating connection).1.1.audience.username_of color = username := by
  rcases m.join_spec username rating connection with hno | ⟨c, rest, hsome, htaken, -, -⟩
  · rw [hno] at h
    cases h
  · obtain rfl := Option.some.inj (hsome.symm.trans h)
    refine ⟨htaken.stays, ?_, ?_⟩
    · rw [htaken.player, if_pos rfl]
      rfl
    · rw [htaken.username_of, if_pos rfl]

/-- Nothing happens to who is refused. -/
theorem join_refused {m : Match} {username : String} {rating : Int} {connection : Connection}
    (h : (m.join username rating connection).2 = none) :
    (m.join username rating connection).1.1 = m := by
  rcases m.join_spec username rating connection with hno | ⟨c, rest, hsome, -⟩
  · rw [hno]
  · rw [h] at hsome
    cases hsome

/-- A seat that can be reclaimed is waited for, and has the name. -/
theorem reclaimable_named {m : Match} {username : String} {color : PieceColor}
    (h : m.reclaimable_seat_for username = some color) :
    m.disconnect_watch.watching = some color ∧ m.audience.username_of color = username := by
  unfold reclaimable_seat_for at h
  cases hw : m.disconnect_watch.watching with
  | none =>
      rw [hw] at h
      cases h
  | some counting_down =>
      rw [hw] at h
      dsimp only at h
      split_ifs at h with hover htheirs
      obtain rfl := Option.some.inj h
      exact ⟨rfl, not_not.mp htheirs⟩

/-! ## The queue -/

/-- A call queues a command, or leaves the queue, or drains it. -/
theorem exec_queue {m m' : Match} {call : Call} {os : List MatchEvent}
    (h : exec m call = .ok (m', os)) {command : PieceColor × ClientMessage}
    (hin : command ∈ m'.queue) :
    command ∈ m.queue ∨ call = .enqueue command.1 command.2 := by
  cases call with
  | enqueue source message =>
      obtain ⟨rfl, _⟩ := Prod.mk.inj (Except.ok.inj h)
      unfold enqueue at hin
      split_ifs at hin
      · exact .inl hin
      · rcases List.mem_append.mp hin with hold | hnew
        · exact .inl hold
        · rw [List.mem_singleton.mp hnew]
          exact .inr rfl
  | tick now elapsed_ms =>
      obtain ⟨m₁, answers, events, hadv, rfl, _⟩ := tick_ok h
      rw [(announce_announced m₁ now events m₁.revision).rest, (advance_board_spec hadv).rest]
        at hin
      cases hin
  | join username rating connection =>
      obtain ⟨rfl, _⟩ := Prod.mk.inj (Except.ok.inj h)
      unfold join at hin
      dsimp only at hin
      split at hin <;> exact .inl hin
  | join_spectator connection =>
      obtain ⟨rfl, _⟩ := Prod.mk.inj (Except.ok.inj h)
      unfold join_spectator at hin
      dsimp only at hin
      split_ifs at hin <;> exact .inl hin
  | reconnect color connection =>
      obtain ⟨rfl, _⟩ := Prod.mk.inj (Except.ok.inj h)
      unfold reconnect at hin
      dsimp only at hin
      split_ifs at hin <;> exact .inl hin
  | leave_spectator watcher | on_disconnect color =>
      obtain ⟨rfl, _⟩ := Prod.mk.inj (Except.ok.inj h)
      exact .inl hin

/-! ## What a command moves -/

/-- The motions that have begun since are of one colour. -/
def Begun (color : PieceColor) (g g' : GameEngine) : Prop :=
  ∃ begun : List Motion, g'.arbiter.active_motions = g.arbiter.active_motions ++ begun ∧
    ∀ motion ∈ begun, motion.moving_piece.color = color

theorem begun_refl (color : PieceColor) (g : GameEngine) : Begun color g g := by
  refine ⟨[], (List.append_nil _).symm, ?_⟩
  intro motion hmotion
  cases hmotion

/-- A request is let through to a piece of the sender's only. -/
theorem request_begun {m m' : Match} {source : PieceColor} {cell : Position}
    {call : GameEngine → Except BoardError (GameEngine × MoveResult)} {make : Piece → Motion}
    {os : List MatchEvent} (hfrom : ∀ x, (make x).source = cell)
    (hcall : ∃ g' r, call m.engine = .ok (g', r) ∧ Requested m.engine make g')
    (h : m.request source cell call = .ok (m', os)) : Begun source m.engine m'.engine := by
  unfold request at h
  by_cases howns : m.owns_piece_at source cell = true
  · rw [if_neg (not_not.mpr howns)] at h
    obtain ⟨⟨engine, result⟩, hrun, hret⟩ := (bind_ok_iff _ _ _).mp h
    obtain ⟨rfl, rfl⟩ := Prod.mk.inj (Except.ok.inj hret)
    obtain ⟨g', r, hrun', hrequested⟩ := hcall
    obtain ⟨rfl, -⟩ := Prod.mk.inj (Except.ok.inj (hrun.symm.trans hrun'))
    cases hrequested with
    | refused => exact begun_refl source m.engine
    | started x running starts free =>
        refine ⟨[make x], rfl, ?_⟩
        intro motion hmotion
        -- the piece is the one on the cell that was asked about
        have hpiece := starts.at_source
        rw [hfrom] at hpiece
        unfold owns_piece_at at howns
        rw [hpiece] at howns
        rw [List.mem_singleton.mp hmotion, starts.snapshot]
        simpa using howns
  · rw [if_pos howns] at h
    obtain ⟨rfl, rfl⟩ := Prod.mk.inj (Except.ok.inj h)
    exact begun_refl source m.engine

/-- **A command moves pieces of its own colour.** -/
theorem apply_begun {m m' : Match} {source : PieceColor} {message : ClientMessage}
    {os : List MatchEvent} (h : m.apply source message = .ok (m', os)) :
    Begun source m.engine m'.engine := by
  unfold apply at h
  split at h
  case h_5 =>
    apply request_begun ?_ (request_move_spec m.engine _ _) h
    intro x
    rfl
  case h_6 =>
    apply request_begun ?_ (request_jump_spec m.engine _) h
    intro x
    rfl
  -- the others leave the engine alone
  all_goals
    obtain ⟨rfl, rfl⟩ := Prod.mk.inj (Except.ok.inj h)
    exact begun_refl source m.engine

end Match

namespace RoomManager

/-! ## The name of a seat -/

/-- Somebody of that name plays the colour. -/
def Named (matches_ : Matches) (id : RoomId) (color : PieceColor) (username : String) : Prop :=
  ∃ m, matches_ id = some m ∧ (m.audience.player color).isSome ∧
    m.audience.username_of color = username

variable {matches_ matches' : Matches} {username : String}

theorem Named.update {id : RoomId} {color : PieceColor} (h : Named matches_ id color username)
    {j : RoomId} {m m' : Match} (here : matches_ j = some m)
    (hstays : m.audience.Stays m'.audience) :
    Named (Function.update matches_ j (some m')) id color username := by
  obtain ⟨n, hn, hplayer, hname⟩ := h
  by_cases hid : id = j
  · subst hid
    obtain rfl := Option.some.inj (here.symm.trans hn)
    obtain ⟨hplayer', hname'⟩ := hstays color hplayer
    exact ⟨m', Function.update_self _ _ _, hplayer', hname'.trans hname⟩
  · refine ⟨n, ?_, hplayer, hname⟩
    rw [Function.update_of_ne hid]
    exact hn

/-- No part of a call takes a name away. -/
theorem Named.goes {id : RoomId} {color : PieceColor} (h : Named matches_ id color username)
    {p : Pending} {rest : Rest} (hgoes : Goes matches_ p rest matches') :
    Named matches' id color username := by
  cases hgoes with
  | joined joins here taken granted => exact h.update here (Match.join_named taken).1
  | @refused _ _ j m joins here refused granted =>
      have hsame : (j.join m).1.1 = m := Match.join_refused refused
      rw [hsame]
      exact h.update here (.refl m.audience)
  | @reconnected i c connection m here back =>
      have hexec : Match.exec m (.reconnect c connection) = .ok (m.reconnect c connection).1 := rfl
      exact h.update here (Match.exec_seats_same (by simp) hexec).stays
  | left plays here => exact h.update here (.refl _)
  | registered => exact h
  | stepped joins here step other stays views queues =>
      exact h.update here (Match.exec_seats_same other step).stays
  | idle joins granted => exact h

/-- **No step of the rooms takes a name away.** -/
theorem Named.exec {s s' : RoomManager} {op : Op} {os : List RoomEvent} (ha : Accounted s)
    {id : RoomId} {color : PieceColor} (h : Named s.match_of id color username)
    (hexec : exec s op = .ok (s', os)) : Named s'.match_of id color username := by
  cases exec_turn hexec with
  | idle gone unheld answer calls seats matches_ =>
      rw [matches_]
      exact h
  | began p begins answer calls seats matches_ =>
      rw [matches_]
      exact h
  | opened p name begins answer calls seats matches_ =>
      obtain ⟨m, hm, hrest⟩ := h
      refine ⟨m, ?_, hrest⟩
      -- the new room has a new number
      rw [matches_, Function.update_of_ne]
      · exact hm
      · intro hid
        rw [hid] at hm
        cases hm.symm.trans ha.fresh
  | passed seat rest held about leaving answer calls seats matches_ =>
      rw [matches_]
      exact h
  | went call p rest about pending goes answer calls seats follows => exact h.goes goes
  | ticked j m now elapsed_ms r about here step answer calls seats matches_ =>
      have htick : Match.exec m (.tick now elapsed_ms) = .ok r := step
      rw [matches_]
      exact h.update here (Match.exec_seats_same (by simp) htick).stays

/-! ## Calls made for somebody -/

/-- The call joins under the name, or comes back to a seat of it, or carries one. -/
structure MadeFor (matches_ : Matches) (username : String) (p : Pending) : Prop where
  joins : ∀ j, joins_as p = some j → j.username = username
  returns : ∀ id color connection, p = .reconnect id color connection →
    Named matches_ id color username
  carries : ∀ seat, carried p = some seat → seat.spectator = false →
    Named matches_ seat.room seat.color username

/-- A name stays good. -/
theorem MadeFor.mono {p : Pending} (h : MadeFor matches_ username p)
    (hnamed : ∀ id color, Named matches_ id color username → Named matches' id color username) :
    MadeFor matches' username p where
  joins := h.joins
  returns id color connection hp := hnamed id color (h.returns id color connection hp)
  carries seat hseat hplays := hnamed seat.room seat.color (h.carries seat hseat hplays)

/-- The seat that a part grants has the name of whom the call is made for. -/
theorem MadeFor.granted {p : Pending} {rest : Rest} (h : MadeFor matches_ username p)
    (hgoes : Goes matches_ p rest matches') {seat : Seat} (hseat : rest.granted = some seat)
    (hplays : seat.spectator = false) : Named matches' seat.room seat.color username := by
  cases hgoes with
  | @joined _ _ j m color joins here taken granted =>
      obtain rfl := Option.some.inj (granted.symm.trans hseat)
      obtain ⟨-, hplayer, hname⟩ := Match.join_named taken
      refine ⟨_, Function.update_self _ _ _, hplayer, ?_⟩
      rw [← h.joins j joins]
      exact hname
  | refused joins here refused granted =>
      rw [granted] at hseat
      cases hseat
  | @reconnected id color connection m here back =>
      obtain rfl := Option.some.inj hseat
      exact (h.returns id color connection rfl).goes (.reconnected here back)
  | left plays here => cases hseat
  | registered =>
      obtain rfl := Option.some.inj hseat
      exact h.carries _ rfl hplays
  | stepped joins here step other stays views queues =>
      rw [views seat hseat] at hplays
      cases hplays
  | idle joins granted =>
      rw [granted] at hseat
      cases hseat

/-- The rest of a call is made for whom the call is made for. -/
theorem MadeFor.goes {p q : Pending} {rest : Rest} (h : MadeFor matches_ username p)
    (hgoes : Goes matches_ p rest matches') (hq : rest.call = some q) (hlater : later q = true) :
    MadeFor matches' username q where
  joins j hj := by
    cases q <;> simp [later, joins_as] at hlater hj
  returns id color connection hq' := by
    rw [hq'] at hlater
    cases hlater
  carries seat hseat hplays := by
    refine h.granted hgoes ?_ hplays
    have hrest : rest = .goes_on q := by
      cases rest <;> simp [Rest.call] at hq
      rw [hq]
    rw [hrest]
    exact hseat

/-- The user that a call asks a seat for. -/
def asker : Op → Option String
  | .join_any username _ _ | .create_room _ username _ _ | .join_room _ username _ _ =>
      some username
  | _ => none

/-- **Only for whom it is asked**: also where the seat is one that is waited for. -/
theorem Begins.made_for {s : RoomManager} {op : Op} {p : Pending} (ha : Accounted s)
    (h : Begins s op p) (hasker : asker op = some username) : MadeFor s.match_of username p := by
  have hcarries : ∀ seat, carried p = some seat → seat.spectator = false →
      Named s.match_of seat.room seat.color username := by
    intro seat hseat
    cases h <;> cases hseat
  refine ⟨?_, ?_, hcarries⟩
  · intro j hj
    cases h <;> simp [joins_as, asker] at hj hasker
    all_goals
      rw [← hj]
      exact hasker
  · intro id color connection hp
    rw [hp] at h
    cases h with
    | @reconnect _ m _ _ _ _ _ here reclaims =>
        obtain ⟨hwatching, hname⟩ := Match.reclaimable_named reclaims
        have hseating := ha.promises.seating id m here
        refine ⟨m, here, hseating.present color (.inr hwatching), ?_⟩
        rw [hname]
        exact Option.some.inj hasker

/-! ## The calls -/

/-- A new call is back at once, or has its first part to do. It returns no seat yet. -/
theorem exec_begins {s s' : RoomManager} {op : Op} {os : List RoomEvent}
    (hexec : exec s op = .ok (s', os)) (hop : ∀ call, op ≠ .proceed call) :
    returned os = none ∧ (s'.calls = s.calls ∨
      ∃ p, s'.calls = s.calls ++ [p] ∧
        (Begins s op p ∨ ∃ seat, op = .on_disconnect seat ∧ p = .leave seat)) := by
  cases exec_turn hexec with
  | idle gone unheld answer calls seats matches_ => exact ⟨answer, .inl calls⟩
  | began p begins answer calls seats matches_ => exact ⟨answer, .inr ⟨p, calls, .inl begins⟩⟩
  | opened p name begins answer calls seats matches_ =>
      exact ⟨answer, .inr ⟨p, calls, .inl begins⟩⟩
  | passed seat rest held about leaving answer calls seats matches_ =>
      refine ⟨answer, ?_⟩
      rcases leaving with rfl | rfl
      · exact .inr ⟨.leave seat, calls, .inr ⟨seat, about, rfl⟩⟩
      · rw [calls]
        exact .inl (List.append_nil _)
  | went call p rest about pending goes answer calls seats follows => exact absurd about (hop call)
  | ticked j m now elapsed_ms r about here step answer calls seats matches_ =>
      exact ⟨answer, .inl calls⟩

/-- A pending call does its next part. -/
theorem exec_goes {s s' : RoomManager} {call : Nat} {p : Pending} {os : List RoomEvent}
    (hexec : exec s (.proceed call) = .ok (s', os)) (hp : s.calls[call]? = some p) :
    ∃ rest, Goes s.match_of p rest s'.match_of ∧ returned os = rest.seat ∧
      s'.calls = s.calls.eraseIdx call ++ rest.call.toList ∧
      ∀ q, rest.call = some q → later q = true := by
  cases exec_turn hexec with
  | idle gone unheld answer calls seats matches_ =>
      rw [gone call rfl] at hp
      cases hp
  | began p begins answer calls seats matches_ => cases begins
  | opened p name begins answer calls seats matches_ => cases begins
  | passed seat rest held about leaving answer calls seats matches_ => cases about
  | went call' p' rest about pending goes answer calls seats follows =>
      obtain rfl := Op.proceed.inj about
      obtain rfl := Option.some.inj (hp.symm.trans pending)
      exact ⟨rest, goes, answer, calls, follows⟩
  | ticked j m now elapsed_ms r about here step answer calls seats matches_ => cases about

/-! ## The queues -/

/-- A match that steps queues nothing but what its call is to queue. -/
theorem queued_update {id j : RoomId} {m m' : Match} {call : Match.Call}
    {r : Match × List MatchEvent} {command : PieceColor × ClientMessage}
    (here : matches_ j = some m) (step : Match.exec m call = .ok r)
    (hm' : Function.update matches_ j (some r.1) id = some m') (hin : command ∈ m'.queue) :
    (∃ m, matches_ id = some m ∧ command ∈ m.queue) ∨
      (id = j ∧ call = .enqueue command.1 command.2) := by
  by_cases hid : id = j
  · subst hid
    rw [Function.update_self] at hm'
    rw [← Option.some.inj hm'] at hin
    rcases Match.exec_queue step hin with hold | hcall
    · exact .inl ⟨m, here, hold⟩
    · exact .inr ⟨rfl, hcall⟩
  · rw [Function.update_of_ne hid] at hm'
    exact .inl ⟨m', hm', hin⟩

/-- **What is queued in a match has come by `enqueue`.** -/
theorem exec_queued {s s' : RoomManager} {op : Op} {os : List RoomEvent}
    (hexec : exec s op = .ok (s', os)) {id : RoomId} {m' : Match}
    {command : PieceColor × ClientMessage} (hm' : s'.match_of id = some m')
    (hin : command ∈ m'.queue) :
    (∃ m, s.match_of id = some m ∧ command ∈ m.queue) ∨
      ∃ call, op = .proceed call ∧
        s.calls[call]? = some (.enqueue id command.1 command.2) ∧ (s.match_of id).isSome := by
  cases exec_turn hexec with
  | idle gone unheld answer calls seats matches_ =>
      rw [matches_] at hm'
      exact .inl ⟨m', hm', hin⟩
  | began p begins answer calls seats matches_ =>
      rw [matches_] at hm'
      exact .inl ⟨m', hm', hin⟩
  | opened p name begins answer calls seats matches_ =>
      rw [matches_, Function.update_apply] at hm'
      split_ifs at hm'
      · -- a new match has nothing queued
        rw [← Option.some.inj hm'] at hin
        cases hin
      · exact .inl ⟨m', hm', hin⟩
  | passed seat rest held about leaving answer calls seats matches_ =>
      rw [matches_] at hm'
      exact .inl ⟨m', hm', hin⟩
  | went call p rest about pending goes answer calls seats follows =>
      generalize hmatches : s'.match_of = matches' at goes
      rw [hmatches] at hm'
      cases goes with
      | @joined _ _ j m color joins here taken granted =>
          have hjoin : Match.exec m (.join j.username j.rating j.connection)
              = .ok (j.join m).1 := rfl
          exact .inl ((queued_update here hjoin hm' hin).resolve_right (by simp))
      | @refused _ _ j m joins here refused granted =>
          have hjoin : Match.exec m (.join j.username j.rating j.connection)
              = .ok (j.join m).1 := rfl
          exact .inl ((queued_update here hjoin hm' hin).resolve_right (by simp))
      | @reconnected j color connection m here back =>
          have hback : Match.exec m (.reconnect color connection)
              = .ok (m.reconnect color connection).1 := rfl
          exact .inl ((queued_update here hback hm' hin).resolve_right (by simp))
      | @left seat m plays here =>
          have hleave : Match.exec m (.on_disconnect seat.color)
              = .ok (m.on_disconnect seat.color) := rfl
          exact .inl ((queued_update here hleave hm' hin).resolve_right (by simp))
      | registered => exact .inl ⟨m', hm', hin⟩
      | stepped joins here step other stays views queues =>
          rcases queued_update here step hm' hin with hold | ⟨rfl, hcall⟩
          · exact .inl hold
          · refine .inr ⟨call, about, ?_, ?_⟩
            · rw [pending, queues _ _ hcall]
            · rw [here]
              rfl
      | idle joins granted => exact .inl ⟨m', hm', hin⟩
  | ticked j m now elapsed_ms r about here step answer calls seats matches_ =>
      have htick : Match.exec m (.tick now elapsed_ms) = .ok r := step
      rw [matches_] at hm'
      exact .inl ((queued_update here htick hm' hin).resolve_right (by simp))

end RoomManager

end KungFuChess
