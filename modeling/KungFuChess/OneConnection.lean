/-
**One live connection for each colour.**

A seat is promised under `rooms_mutex_`, its colour is given by `MatchAudience`,
and it is given back through `DisconnectWatch`: three locks, and any number of calls
between them. What excludes two connections for one colour is `Sole`: whoever holds
a player's seat is the only one, and while a drop of that colour is pending or
counted down nobody holds it. A colour is given once, when it has no player; a seat
is reclaimed only while its colour is counted down, and that ends the countdown.
-/
import KungFuChess.Accounts
import KungFuChess.Holders

set_option autoImplicit false

namespace KungFuChess

open Machine

namespace Match

/-- Only a drop makes a colour absent. -/
theorem exec_graced {m m' : Match} {call : Call} {os : List MatchEvent} {c : PieceColor}
    (hstays : ∀ color, call ≠ .on_disconnect color) (h : exec m call = .ok (m', os))
    (hg : m'.graced c) : m.graced c := by
  cases call with
  | join username rating connection =>
      obtain ⟨rfl, _⟩ := Prod.mk.inj (Except.ok.inj h)
      unfold join at hg
      dsimp only at hg
      split at hg
      · exact hg
      · exact hg
  | join_spectator connection =>
      obtain ⟨rfl, _⟩ := Prod.mk.inj (Except.ok.inj h)
      unfold join_spectator at hg
      dsimp only at hg
      split at hg
      · exact hg
      · exact hg
  | leave_spectator watcher =>
      obtain ⟨rfl, _⟩ := Prod.mk.inj (Except.ok.inj h)
      exact hg
  | enqueue source message =>
      obtain ⟨rfl, _⟩ := Prod.mk.inj (Except.ok.inj h)
      unfold enqueue at hg
      split_ifs at hg
      · exact hg
      · exact hg
  | on_disconnect color => exact absurd rfl (hstays color)
  | reconnect color connection =>
      obtain ⟨rfl, _⟩ := Prod.mk.inj (Except.ok.inj h)
      rcases reconnect_spec m color connection with ⟨hno, _⟩ | ⟨_, _, _, hm, _⟩
      · rwa [hno] at hg
      · rw [hm] at hg
        rcases hg with hg | hg
        · cases hg
        · cases hg
  | tick now elapsed_ms => exact tick_graced h hg

end Match

/-! ## Counting connections -/

/-- A player's seat of that colour. -/
def Seat.plays (id : RoomId) (color : PieceColor) (seat : Seat) : Bool :=
  seat.room = id ∧ seat.color = color ∧ seat.spectator = false

namespace RoomManager

def live_in (seats : List Seat) (calls : List Pending) (id : RoomId) (color : PieceColor) : Nat :=
  seats.countP (Seat.plays id color) + (calls.filterMap carried).countP (Seat.plays id color)

/-- The live connections of a colour: a seat returned and not yet passed on, or about
to be returned, or passed on and not yet reported to the match. -/
def live (s : RoomManager) : RoomId → PieceColor → Nat := live_in s.seats s.calls

def tally (id : RoomId) (color : PieceColor) : Option Seat → Nat
  | none => 0
  | some seat => if Seat.plays id color seat then 1 else 0

theorem countP_toList (id : RoomId) (color : PieceColor) (seat : Option Seat) :
    seat.toList.countP (Seat.plays id color) = tally id color seat := by
  cases seat with
  | none => rfl
  | some seat => exact List.countP_singleton

/-- A part puts in what it leaves, -/
theorem live_in_put (seats : List Seat) (calls : List Pending) (rest : Rest) (id : RoomId)
    (color : PieceColor) :
    live_in (seats ++ rest.seat.toList) (calls ++ rest.call.toList) id color
      = live_in seats calls id color + tally id color rest.granted := by
  unfold live_in
  rw [List.countP_append, List.filterMap_append, List.countP_append, countP_toList]
  cases rest with
  | nothing => simp [Rest.seat, Rest.call, Rest.granted, tally]
  | goes_on p =>
      have hcall : (Rest.goes_on p).call.toList.filterMap carried = (carried p).toList := by
        cases hp : carried p <;> simp [Rest.call, hp]
      rw [hcall, countP_toList]
      simp only [Rest.seat, Rest.granted, tally, Rest.call, Option.none_or, Option.bind_some]
      omega
  | returns seat =>
      simp only [Rest.seat, Rest.call, Rest.granted, Option.toList_none, List.filterMap_nil,
        List.countP_nil, Option.some_or]
      omega

/-- and has taken out its call. -/
theorem live_in_take {calls : List Pending} {call : Nat} {p : Pending}
    (h : calls[call]? = some p) (seats : List Seat) (id : RoomId) (color : PieceColor) :
    live_in seats calls id color
      = live_in seats (calls.eraseIdx call) id color + tally id color (carried p) := by
  obtain ⟨hlt, hget⟩ := List.getElem?_eq_some_iff.mp h
  have hperm := List.getElem_cons_eraseIdx_perm hlt
  rw [hget] at hperm
  have hcount := (hperm.filterMap carried).countP_eq (Seat.plays id color)
  have hcons : ((p :: calls.eraseIdx call).filterMap carried).countP (Seat.plays id color)
      = tally id color (carried p)
        + ((calls.eraseIdx call).filterMap carried).countP (Seat.plays id color) := by
    rw [List.filterMap_cons]
    cases hp : carried p with
    | none => simp [tally]
    | some seat =>
        rw [List.countP_cons]
        simp only [tally]
        omega
  unfold live_in
  omega

theorem live_in_pass {seats : List Seat} {seat : Seat} (h : seat ∈ seats) (calls : List Pending)
    (id : RoomId) (color : PieceColor) :
    live_in seats calls id color
      = live_in (seats.erase seat) calls id color + tally id color (some seat) := by
  have hcount := (List.perm_cons_erase h).countP_eq (Seat.plays id color)
  rw [List.countP_cons] at hcount
  unfold live_in
  simp only [tally]
  omega

/-- A call that begins has no seat yet. -/
theorem begins_carries {s : RoomManager} {op : Op} {p : Pending} (h : Begins s op p) :
    carried p = none := by
  cases h <;> rfl

theorem carried_of_joins {p : Pending} {j : Joiner} (h : joins_as p = some j) :
    carried p = none := by
  cases p <;> simp [joins_as] at h <;> rfl

/-- Whoever is live owns a seat. -/
theorem owned_of_live {s : RoomManager} {id : RoomId} {color : PieceColor}
    (h : 0 < s.live id color) : s.owned id color := by
  have hpos : 0 < (s.seats ++ s.calls.filterMap carried).countP (Seat.plays id color) := by
    rw [List.countP_append]
    exact h
  obtain ⟨seat, hmem, hplays⟩ := List.countP_pos_iff.mp hpos
  obtain ⟨rfl, rfl, hspec⟩ := of_decide_eq_true hplays
  refine ⟨seat.watcher, ?_⟩
  rwa [← hspec]

/-! ## The invariant -/

/-- A colour has one live connection, and none while it counts as dropped. -/
structure Sole (live : RoomId → PieceColor → Nat) (matches_ : Matches) : Prop where
  single : ∀ id color, live id color ≤ 1
  away : ∀ id m color, matches_ id = some m → m.graced color → live id color = 0

variable {live live' : RoomId → PieceColor → Nat} {matches_ matches' : Matches}

/-- Nobody comes by a seat, and nobody drops. -/
theorem Sole.keep (h : Sole live matches_) (hlive : ∀ id color, live' id color ≤ live id color)
    (hmatch : ∀ id m' color, matches' id = some m' → m'.graced color →
      ∃ m, matches_ id = some m ∧ m.graced color) : Sole live' matches' where
  single id color := Nat.le_trans (hlive id color) (h.single id color)
  away id m' color hm' hg := by
    obtain ⟨m, hm, hgm⟩ := hmatch id m' color hm' hg
    have hzero := h.away id m color hm hgm
    have hle := hlive id color
    omega

/-- The condition on matches, when one of them steps. -/
theorem graced_of_update {id : RoomId} {m m' : Match} (here : matches_ id = some m)
    (hstep : ∀ color, m'.graced color → m.graced color) (j : RoomId) (n : Match)
    (color : PieceColor) (hn : Function.update matches_ id (some m') j = some n)
    (hg : n.graced color) : ∃ m, matches_ j = some m ∧ m.graced color := by
  rw [Function.update_apply] at hn
  split_ifs at hn with hj
  · rw [hj]
    rw [← Option.some.inj hn] at hg
    exact ⟨m, here, hstep color hg⟩
  · exact ⟨n, hn, hg⟩

/-- A colour that nobody holds gets its one connection, and is not away any more. -/
theorem Sole.grant (h : Sole live matches_) {id : RoomId} {color : PieceColor} {m m' : Match}
    (here : matches_ id = some m) (hfree : live id color = 0)
    (hlive : ∀ j c, live' j c = live j c + tally j c (some ⟨id, color, false, 0⟩))
    (hgraced : ∀ c, m'.graced c → c ≠ color ∧ m.graced c) :
    Sole live' (Function.update matches_ id (some m')) := by
  have htally : ∀ j c, tally j c (some ⟨id, color, false, 0⟩)
      = if id = j ∧ color = c then 1 else 0 := by
    intro j c
    simp only [tally, Seat.plays, and_true, decide_eq_true_eq]
  constructor
  · intro j c
    have hone := h.single j c
    rw [hlive, htally]
    split_ifs with hsame
    · obtain ⟨rfl, rfl⟩ := hsame
      omega
    · omega
  · intro j n c hn hg
    rw [hlive, htally]
    by_cases hj : j = id
    · subst hj
      rw [Function.update_self] at hn
      rw [← Option.some.inj hn] at hg
      obtain ⟨hne, hgm⟩ := hgraced c hg
      rw [h.away j m c here hgm, if_neg (by simp [hne.symm])]
    · rw [Function.update_of_ne hj] at hn
      rw [h.away j n c hn hg, if_neg (by simp [Ne.symm hj])]

/-- The one who held the colour is gone, and its grace begins. -/
theorem Sole.leave (h : Sole live matches_) {seat : Seat} {m : Match}
    (hplays : seat.spectator = false) (here : matches_ seat.room = some m)
    (hlive : ∀ j c, live j c = live' j c + tally j c (some seat)) :
    Sole live' (Function.update matches_ seat.room (some (m.on_disconnect seat.color).1)) := by
  constructor
  · intro j c
    have hone := h.single j c
    rw [hlive] at hone
    omega
  · intro j n c hn hg
    have hle := hlive j c
    by_cases hj : j = seat.room
    · subst hj
      rw [Function.update_self] at hn
      rw [← Option.some.inj hn] at hg
      by_cases hc : seat.color = c
      · -- there was one connection of this colour, and it is the one that left
        have hone := h.single seat.room c
        have htally : tally seat.room c (some seat) = 1 := by
          simp [tally, Seat.plays, hc, hplays]
        omega
      · rcases hg with hg | hg
        · exact absurd (Option.some.inj hg) hc
        · have hzero := h.away seat.room m c here (.inr hg)
          omega
    · rw [Function.update_of_ne hj] at hn
      have hzero := h.away j n c hn hg
      omega

/-- Before a colour is given nobody holds it. -/
theorem live_of_free {s : RoomManager} (ha : Accounted s) {id : RoomId} {m : Match}
    {color : PieceColor} (here : s.match_of id = some m) (hfree : m.audience.player color = none) :
    s.live id color = 0 := by
  by_contra hlive
  obtain ⟨n, hn, hplayer⟩ := ha.owners id color (owned_of_live (Nat.pos_of_ne_zero hlive))
  obtain rfl := Option.some.inj (here.symm.trans hn)
  rw [hfree] at hplayer
  cases hplayer

/-- One part of a call. -/
theorem sole_goes {s s' : RoomManager} {call : Nat} {p : Pending} {rest : Rest}
    (ha : Accounted s) (h : Sole s.live s.match_of) (hpending : s.calls[call]? = some p)
    (hgoes : Goes s.match_of p rest s'.match_of)
    (hcalls : s'.calls = s.calls.eraseIdx call ++ rest.call.toList)
    (hseats : s'.seats = s.seats ++ rest.seat.toList) : Sole s'.live s'.match_of := by
  have hput : ∀ j c, s'.live j c
      = live_in s.seats (s.calls.eraseIdx call) j c + tally j c rest.granted := by
    intro j c
    unfold RoomManager.live
    rw [hseats, hcalls]
    exact live_in_put _ _ rest j c
  have htake : ∀ j c, s.live j c
      = live_in s.seats (s.calls.eraseIdx call) j c + tally j c (carried p) := by
    intro j c
    exact live_in_take hpending s.seats j c
  generalize hm' : s'.match_of = matches' at hgoes
  cases hgoes with
  | @joined _ _ j m color joins here taken granted =>
      have hseating := ha.promises.seating j.room m here
      have htaken := (Match.seating_join hseating taken).taken
      refine h.grant here (live_of_free ha here htaken.free) ?_ ?_
      · intro i c
        rw [hput, htake, carried_of_joins joins, granted]
        rfl
      · intro c hg
        have hexec : Match.exec m (.join j.username j.rating j.connection) = .ok (j.join m).1 := rfl
        have hgm := Match.exec_graced (by simp) hexec hg
        refine ⟨?_, hgm⟩
        -- a colour with a grace has a player
        rintro rfl
        have hpresent := hseating.present c hgm
        rw [htaken.free] at hpresent
        cases hpresent
  | @refused _ _ j m joins here refused granted =>
      refine h.keep ?_ ?_
      · intro i c
        rw [hput, htake, granted]
        simp only [tally]
        omega
      · refine graced_of_update here ?_
        intro c hg
        have hexec : Match.exec m (.join j.username j.rating j.connection) = .ok (j.join m).1 := rfl
        exact Match.exec_graced (by simp) hexec hg
  | @reconnected id color connection m here back =>
      rcases Match.reconnect_spec m color connection with ⟨hno, _⟩ | ⟨_, hwatch, _, hm, _⟩
      · rw [hno] at back
        cases back
      · refine h.grant here (h.away id m color here (.inr hwatch)) ?_ ?_
        · intro i c
          rw [hput, htake]
          rfl
        · intro c hg
          -- the countdown is over, and with it every other grace
          rw [hm] at hg
          rcases hg with hg | hg
          · cases hg
          · cases hg
  | @left seat m plays here =>
      refine h.leave plays here ?_
      intro i c
      rw [hput, htake]
      rfl
  | registered =>
      refine h.keep ?_ ?_
      · intro i c
        rw [hput, htake]
        exact Nat.le_refl _
      · intro id m c hm hg
        exact ⟨m, hm, hg⟩
  | @stepped _ _ id m matchCall r joins here step other stays views queues =>
      refine h.keep ?_ ?_
      · intro i c
        have hzero : tally i c rest.granted = 0 := by
          cases hseat : rest.granted with
          | none => rfl
          | some seat => simp [tally, Seat.plays, views seat hseat]
        rw [hput, htake, hzero]
        omega
      · refine graced_of_update here ?_
        intro c hg
        exact Match.exec_graced stays step hg
  | idle joins granted =>
      refine h.keep ?_ ?_
      · intro i c
        rw [hput, htake, granted]
        simp only [tally]
        omega
      · intro id m c hm hg
        exact ⟨m, hm, hg⟩

/-- **The step lemma.** -/
theorem Sole.exec {s s' : RoomManager} {op : Op} {os : List RoomEvent} (ha : Accounted s)
    (h : Sole s.live s.match_of) (hexec : exec s op = .ok (s', os)) :
    Sole s'.live s'.match_of := by
  have hsame : ∀ id (m : Match) (color : PieceColor), s.match_of id = some m → m.graced color →
      ∃ m, s.match_of id = some m ∧ m.graced color := by
    intro id m color hm hg
    exact ⟨m, hm, hg⟩
  cases exec_turn hexec with
  | idle gone unheld answer calls seats matches_ =>
      unfold RoomManager.live
      rw [calls, seats, matches_]
      exact h
  | began p begins answer calls seats matches_ =>
      rw [matches_]
      refine h.keep ?_ hsame
      intro id color
      unfold RoomManager.live
      rw [calls, seats]
      unfold live_in
      rw [List.filterMap_append, List.filterMap_cons, begins_carries begins]
      simp
  | opened p name begins answer calls seats matches_ =>
      rw [matches_]
      refine h.keep ?_ ?_
      · intro id color
        unfold RoomManager.live
        rw [calls, seats]
        unfold live_in
        rw [List.filterMap_append, List.filterMap_cons, begins_carries begins]
        simp
      · intro id m color hm hg
        rw [Function.update_apply] at hm
        split_ifs at hm
        · -- in a new match nobody has left yet
          rw [← Option.some.inj hm] at hg
          rcases hg with hg | hg
          · cases hg
          · cases hg
        · exact ⟨m, hm, hg⟩
  | passed seat rest held about leaving answer calls seats matches_ =>
      rw [matches_]
      refine h.keep ?_ hsame
      intro id color
      have hpass := live_in_pass held s.calls id color
      unfold RoomManager.live
      rw [calls, seats]
      rcases leaving with rfl | rfl
      · have hput := live_in_put (s.seats.erase seat) s.calls (.goes_on (.leave seat)) id color
        simp only [Rest.seat, Option.toList_none, List.append_nil, Rest.granted, Option.none_or,
          Rest.call, Option.bind_some, carried] at hput
        rw [hpass]
        exact Nat.le_of_eq hput
      · simp only [Rest.call, Option.toList_none, List.append_nil]
        omega
  | went call p rest about pending goes answer calls seats follows =>
      exact sole_goes ha h pending goes calls seats
  | ticked id m now elapsed_ms r about here step answer calls seats matches_ =>
      unfold RoomManager.live
      rw [calls, seats, matches_]
      refine h.keep (fun _ _ => Nat.le_refl _) (graced_of_update here ?_)
      intro color hg
      exact Match.tick_graced step hg

/-! ## Calls of `Match::join` -/

/-- The call of `Match::join` that a step makes: on which match, and its answer. -/
def join_made (s : RoomManager) : Op → Option (RoomId × Option PieceColor)
  | .proceed call => do
      let p ← s.calls[call]?
      let j ← joins_as p
      let m ← s.match_of j.room
      return (j.room, (j.join m).2)
  | _ => none

/-- The rooms, watched for the calls of `Match::join` that they make. -/
def watch_joins : Step RoomManager Op (RoomId × Option PieceColor) RoomError := fun s op => do
  let r ← exec s op
  return (r.1, (join_made s op).toList)

theorem watch_joins_ok {s s' : RoomManager} {op : Op} {made : List (RoomId × Option PieceColor)}
    (h : watch_joins s op = .ok (s', made)) :
    ∃ os, exec s op = .ok (s', os) ∧ made = (join_made s op).toList := by
  obtain ⟨⟨s₁, os⟩, hexec, hret⟩ := (bind_ok_iff _ _ _).mp h
  obtain ⟨rfl, rfl⟩ := Prod.mk.inj (Except.ok.inj hret)
  exact ⟨os, hexec, rfl⟩

/-- How many players have joined a match. -/
def filled (matches_ : Matches) (id : RoomId) : Nat :=
  (matches_ id).elim 0 fun m => m.audience.seats_filled

theorem filled_update {id : RoomId} {m m' : Match} (here : matches_ id = some m) {n : Nat}
    (hstep : m'.audience.seats_filled = m.audience.seats_filled + n) (j : RoomId) :
    filled (Function.update matches_ id (some m')) j
      = filled matches_ j + if id = j then n else 0 := by
  unfold filled
  by_cases hj : j = id
  · subst hj
    rw [Function.update_self, here, if_pos rfl]
    exact hstep
  · rw [Function.update_of_ne hj, if_neg (Ne.symm hj), Nat.add_zero]

/-- What a step adds to the calls of `Match::join` made: as many as it fills seats,
none of them refused. -/
structure Fills (s s' : RoomManager) (made : Option (RoomId × Option PieceColor)) : Prop where
  filled : ∀ id, filled s'.match_of id
    = filled s.match_of id + made.toList.countP (fun j => j.1 = id)
  answered : ∀ j ∈ made, j.2.isSome = true

/-- Nobody joins, and nobody is seated. -/
theorem fills_none {s s' : RoomManager} {op : Op} (hmade : join_made s op = none)
    (hfilled : ∀ id, RoomManager.filled s'.match_of id = RoomManager.filled s.match_of id) :
    Fills s s' (join_made s op) := by
  rw [hmade]
  exact ⟨hfilled, by simp⟩

theorem join_made_none {s : RoomManager} {call : Nat} {p : Pending}
    (hpending : s.calls[call]? = some p) (hp : joins_as p = none) :
    join_made s (.proceed call) = none := by
  simp [join_made, hpending, hp]

theorem fills_goes {s s' : RoomManager} {call : Nat} {p : Pending} {rest : Rest}
    (ha : Accounted s) (hpending : s.calls[call]? = some p)
    (hgoes : Goes s.match_of p rest s'.match_of) :
    Fills s s' (join_made s (.proceed call)) := by
  generalize hm' : s'.match_of = matches' at hgoes
  cases hgoes with
  | @joined _ _ j m color joins here taken granted =>
      have hmade : join_made s (.proceed call) = some (j.room, some color) := by
        simp [join_made, hpending, joins, here, taken]
      have htaken := (Match.seating_join (ha.promises.seating j.room m here) taken).taken
      rw [hmade]
      refine ⟨?_, by simp⟩
      intro id
      rw [hm']
      refine (filled_update here htaken.seats_filled id).trans ?_
      simp [List.countP_singleton]
  | @refused _ _ j m joins here refused granted =>
      -- a call that joins has been promised a seat
      have hjoins : 0 < s.ledger.joins j.room := by
        refine List.countP_pos_iff.mpr ⟨p, List.mem_of_getElem? hpending, ?_⟩
        cases p with
        | join_any | create_room | join =>
            obtain rfl := Option.some.inj joins
            simp [joining]
        | _ => cases joins
      exact absurd (.join_refused j.room m j.username j.rating j.connection here hjoins refused)
        ha.regular
  | @reconnected id color connection m here back =>
      refine fills_none (join_made_none hpending rfl) ?_
      intro j
      have hexec : Match.exec m (.reconnect color connection)
          = .ok (m.reconnect color connection).1 := rfl
      rw [hm']
      refine (filled_update here (n := 0) (Match.exec_seats_same (by simp) hexec).filled j).trans ?_
      simp
  | @left seat m plays here =>
      refine fills_none (join_made_none hpending rfl) ?_
      intro j
      have hsame : (m.on_disconnect seat.color).1.audience.seats_filled
          = m.audience.seats_filled + 0 := rfl
      rw [hm']
      exact (filled_update here hsame j).trans (by simp)
  | registered =>
      refine fills_none (join_made_none hpending rfl) ?_
      intro j
      rw [hm']
  | @stepped _ _ id m matchCall r joins here step other stays views queues =>
      refine fills_none (join_made_none hpending joins) ?_
      intro j
      rw [hm']
      refine (filled_update here (n := 0) (Match.exec_seats_same other step).filled j).trans ?_
      simp
  | idle joins granted =>
      refine fills_none ?_ ?_
      · cases hp : joins_as p with
        | none => exact join_made_none hpending hp
        | some j => simp [join_made, hpending, hp, joins j hp]
      · intro j
        rw [hm']

theorem fills_exec {s s' : RoomManager} {op : Op} {os : List RoomEvent} (ha : Accounted s)
    (hexec : exec s op = .ok (s', os)) : Fills s s' (join_made s op) := by
  have hbegins : ∀ p, Begins s op p → join_made s op = none := by
    intro p hp
    cases hp <;> rfl
  cases exec_turn hexec with
  | idle gone unheld answer calls seats matches_ =>
      refine fills_none ?_ (by simp [matches_])
      cases op with
      | proceed call => simp [join_made, gone call rfl]
      | _ => rfl
  | began p begins answer calls seats matches_ =>
      exact fills_none (hbegins p begins) (by simp [matches_])
  | opened p name begins answer calls seats matches_ =>
      refine fills_none (hbegins p begins) ?_
      intro id
      unfold filled
      rw [matches_, Function.update_apply]
      split_ifs with hid
      · rw [hid, ha.fresh]
        rfl
      · rfl
  | passed seat rest held about leaving answer calls seats matches_ =>
      subst about
      exact fills_none rfl (by simp [matches_])
  | went call p rest about pending goes answer calls seats follows =>
      subst about
      exact fills_goes ha pending goes
  | ticked id m now elapsed_ms r about here step answer calls seats matches_ =>
      subst about
      refine fills_none rfl ?_
      intro j
      rw [matches_]
      refine (filled_update here (n := 0) ?_ j).trans (by simp)
      rw [Match.tick_audience step]
      rfl

/-- What the calls of `Match::join` so far say of a run. -/
structure JoinsCounted (s : RoomManager) (made : List (RoomId × Option PieceColor)) : Prop where
  accounted : Accounted s
  sole : Sole s.live s.match_of
  filled : ∀ id, filled s.match_of id = made.countP fun j => j.1 = id
  answered : ∀ j ∈ made, j.2.isSome = true

theorem JoinsCounted.step {s s' : RoomManager} {op : Op}
    {made joins : List (RoomId × Option PieceColor)} (h : JoinsCounted s made)
    (hstep : watch_joins s op = .ok (s', joins)) : JoinsCounted s' (made ++ joins) := by
  obtain ⟨os, hexec, rfl⟩ := watch_joins_ok hstep
  have hfills := fills_exec h.accounted hexec
  refine ⟨h.accounted.exec hexec, h.sole.exec h.accounted hexec, ?_, ?_⟩
  · intro id
    rw [hfills.filled, h.filled, List.countP_append]
  · intro j hj
    rcases List.mem_append.mp hj with hj | hj
    · exact h.answered j hj
    · exact hfills.answered j (Option.mem_toList.mp hj)

/-- A match seats two players at most. -/
theorem filled_le_two {s : RoomManager} (ha : Accounted s) (id : RoomId) :
    filled s.match_of id ≤ 2 := by
  unfold filled
  cases hm : s.match_of id with
  | none => exact Nat.zero_le 2
  | some m =>
      have hplayers := (ha.promises.seating id m hm).filled
      unfold MatchAudience.players at hplayers
      rw [MatchAudience.length_toList, MatchAudience.length_toList] at hplayers
      show m.audience.seats_filled ≤ 2
      split_ifs at hplayers <;> omega

/-- **One live connection for each colour.** However the parts of calls are
interleaved, no colour of a room has two live connections; `Match::join` is called
at most twice on one match and never refuses, so no reservation is ever undone. -/
theorem one_live_connection (board_factory : RoomId → Board) (config : MotionFactory)
    (on_result : Bool) (disconnect_grace_ms : Int) (directory : Option (String → Option String))
    (self_url : String) {s : RoomManager} {made : List (RoomId × Option PieceColor)}
    (h : Reach watch_joins anyStep
      (new board_factory config on_result disconnect_grace_ms directory self_url) s made) :
    (∀ id color, s.live id color ≤ 1) ∧ (∀ id, made.countP (fun j => j.1 = id) ≤ 2) ∧
      (∀ j ∈ made, j.2.isSome = true) ∧ ∀ id, .undo_join_any id ∉ s.calls := by
  have hcounted : JoinsCounted s made := by
    refine h.invariant (P := fun s made => JoinsCounted s made) ?_ ?_
    · refine ⟨accounted_new _ _ _ _ _ _, ⟨fun _ _ => Nat.zero_le 1, ?_⟩, fun _ => rfl, by simp⟩
      intro id m color hm
      cases hm
    · intro s made op s' joins _ hinv _ hstep
      exact hinv.step hstep
  refine ⟨hcounted.sole.single, ?_, hcounted.answered, ?_⟩
  · intro id
    rw [← hcounted.filled id]
    exact filled_le_two hcounted.accounted id
  · intro id hmem
    have hpos : 0 < s.undos := List.countP_pos_iff.mpr ⟨_, hmem, rfl⟩
    exact Nat.ne_of_gt hpos hcounted.accounted.undos

/-- Two connections race for White's seat: the second is refused. -/
theorem one_racer_gets_the_seat : ∃ s made,
    run watch_joins (new (fun _ => three_on_a_row) shipped_factory true 20000 none "")
      [.create_room "AAAAAA" "a" 1200 ⟨1⟩, .proceed 0, .join_room "AAAAAA" "b" 1210 ⟨2⟩, .proceed 0,
        .on_disconnect ⟨1, .White, false, 0⟩, .proceed 0, .proceed 0, .tick 1 0 0,
        .join_room "AAAAAA" "a" 1200 ⟨3⟩, .join_room "AAAAAA" "a" 1200 ⟨4⟩, .proceed 1,
        .proceed 0] = .ok (s, made) ∧
    s.live 1 .White = 1 ∧ made = [(1, some .White), (1, some .Black)] ∧
    ((∀ id color, s.live id color ≤ 1) ∧ (∀ id, made.countP (fun j => j.1 = id) ≤ 2) ∧
      (∀ j ∈ made, j.2.isSome = true) ∧ ∀ id, .undo_join_any id ∉ s.calls) := by
  obtain ⟨⟨s, made⟩, hrun, hp⟩ := exists_ok_such (p := fun r => r.1.live 1 .White = 1 ∧
      r.2 = [(1, some .White), (1, some .Black)]) (x :=
    run watch_joins (new (fun _ => three_on_a_row) shipped_factory true 20000 none "")
      [.create_room "AAAAAA" "a" 1200 ⟨1⟩, .proceed 0, .join_room "AAAAAA" "b" 1210 ⟨2⟩, .proceed 0,
        .on_disconnect ⟨1, .White, false, 0⟩, .proceed 0, .proceed 0, .tick 1 0 0,
        .join_room "AAAAAA" "a" 1200 ⟨3⟩, .join_room "AAAAAA" "a" 1200 ⟨4⟩, .proceed 1,
        .proceed 0]) (by decide)
  obtain ⟨hlive, hmade⟩ := of_decide_eq_true hp
  exact ⟨s, made, hrun, hlive, hmade, one_live_connection _ _ _ _ _ _ (reach_of_run hrun)⟩

end RoomManager

end KungFuChess
