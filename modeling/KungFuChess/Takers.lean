/-
**Who takes the seats of a room.**

A room promises a seat to whoever it lets in to play, and the match gives it later. The
takers of a room are the names that its match has, and those for which a call is about
to join it; a step adds one only where it lets somebody in (`Lets`). As long as only one
seat of a room is taken, nothing but what has taken it is attached to the room
(`stays_alone`): a second player makes it two, a viewer is let in only when it is two,
and so the room goes when the first leaves.
-/
import KungFuChess.Attends
import KungFuChess.SeatNames

set_option autoImplicit false

namespace KungFuChess

open Machine

namespace MatchAudience

/-- The username of a colour that plays. -/
def name (a : MatchAudience) (color : PieceColor) : Option String :=
  (a.player color).map fun _ => a.username_of color

def names (a : MatchAudience) : List String := (a.name .White).toList ++ (a.name .Black).toList

theorem name_congr {a a' : MatchAudience} {color : PieceColor}
    (hplayer : (a'.player color).isSome = (a.player color).isSome)
    (hname : a'.username_of color = a.username_of color) : a'.name color = a.name color := by
  unfold name
  rw [hname]
  cases h : a.player color with
  | none =>
      rw [h] at hplayer
      have hnone : a'.player color = none := by simpa using hplayer
      rw [hnone]
  | some connection =>
      rw [h] at hplayer
      obtain ⟨connection', h'⟩ := Option.isSome_iff_exists.mp hplayer
      rw [h']
      rfl

/-- One more name, where nobody played. -/
theorem SeatTaken.names {a a' : MatchAudience} {color : PieceColor} {username : String}
    {connection : Connection} (h : SeatTaken a a' color username connection) :
    a'.names.Perm (a.names ++ [username]) := by
  have hnew : a'.name color = some username := by
    rw [name, h.player, h.username_of, if_pos rfl, if_pos rfl]
    rfl
  have hnone : a.name color = none := by
    rw [name, h.free]
    rfl
  have hother : ∀ c, c ≠ color → a'.name c = a.name c := by
    intro c hc
    rw [name, h.player, h.username_of, if_neg hc, if_neg hc]
    rfl
  unfold MatchAudience.names
  cases color with
  | White =>
      rw [hnew, hnone, hother .Black (by simp)]
      exact (List.perm_append_singleton username _).symm
  | Black =>
      rw [hnew, hnone, hother .White (by simp), Option.toList_none, List.append_nil]
      exact List.Perm.refl _

/-- Two that play have different names, if no name is there twice. -/
theorem ne_of_nodup {a : MatchAudience} (h : a.names.Nodup)
    (hwhite : (a.player .White).isSome) (hblack : (a.player .Black).isSome) :
    a.username_of .White ≠ a.username_of .Black := by
  obtain ⟨white, hw⟩ := Option.isSome_iff_exists.mp hwhite
  obtain ⟨black, hb⟩ := Option.isSome_iff_exists.mp hblack
  unfold names name at h
  rw [hw, hb] at h
  simpa using h

end MatchAudience

namespace Match

/-- Who plays goes on to, and nobody else does. -/
theorem players_same {m m' : Match} (h : SeatsSame m.audience m'.audience) (hm : m.Seating)
    (hm' : m'.Seating) (c : PieceColor) :
    (m'.audience.player c).isSome = (m.audience.player c).isSome := by
  have hcount : m'.audience.players = m.audience.players := by
    rw [← hm'.filled, ← hm.filled, h.filled]
  unfold MatchAudience.players at hcount
  simp only [MatchAudience.length_toList] at hcount
  have hwhite := h.player .White
  have hblack := h.player .Black
  cases c <;> grind

theorem names_same {m m' : Match} (h : SeatsSame m.audience m'.audience) (hm : m.Seating)
    (hm' : m'.Seating) : m'.audience.names = m.audience.names := by
  have hsame := players_same h hm hm'
  unfold MatchAudience.names
  rw [MatchAudience.name_congr (hsame _) (h.username_of _),
    MatchAudience.name_congr (hsame _) (h.username_of _)]

end Match

namespace RoomManager

/-! ## Takers -/

/-- The names that the match of a room has. -/
def names_in (matches_ : Matches) (id : RoomId) : List String :=
  (matches_ id).elim [] fun m => m.audience.names

/-- The name for which the call is about to join the match of the room. -/
def asker_in (id : RoomId) (p : Pending) : Option String :=
  (joins_as p).bind fun j => if j.room = id then some j.username else none

def takers (s : RoomManager) (id : RoomId) : List String :=
  names_in s.match_of id ++ s.calls.filterMap (asker_in id)

section Takers

variable {matches_ matches' : Matches} {id j : RoomId}

theorem asker_in_none {p : Pending} (h : joins_as p = none) (id : RoomId) :
    asker_in id p = none := by
  rw [asker_in, h]
  rfl

theorem joins_as_later {p : Pending} (h : later p = true) : joins_as p = none := by
  cases p <;> first | rfl | cases h

theorem asker_in_later {p : Pending} (h : later p = true) (id : RoomId) : asker_in id p = none :=
  asker_in_none (joins_as_later h) id

/-- A match that keeps its names. -/
theorem names_in_update {m m' : Match} (here : matches_ j = some m)
    (hnames : m'.audience.names = m.audience.names) :
    names_in (Function.update matches_ j (some m')) id = names_in matches_ id := by
  unfold names_in
  by_cases hid : id = j
  · rw [hid, Function.update_self, here]
    exact hnames
  · rw [Function.update_of_ne hid]

/-- A new match has no names. -/
theorem names_in_open {m : Match} (fresh : matches_ j = none) (hempty : m.audience.names = []) :
    names_in (Function.update matches_ j (some m)) id = names_in matches_ id := by
  unfold names_in
  by_cases hid : id = j
  · rw [hid, Function.update_self, fresh]
    exact hempty
  · rw [Function.update_of_ne hid]

end Takers

/-- **What a step does to the takers of a room.** -/
inductive Lets (s : RoomManager) (op : Op) (s' : RoomManager) (id : RoomId) : Prop
  | nobody (fewer : (s'.takers id).Subperm (s.takers id))
  | somebody (p : Pending) (j : Joiner) (begins : Begins s op p) (joins : joins_as p = some j)
      (about : j.room = id) (calls : s'.calls = s.calls ++ [p])
      (more : s'.takers id = s.takers id ++ [j.username])

/-- A new call lets in whom it is to join for. -/
theorem lets_of_call {s s' : RoomManager} {op : Op} {p : Pending} {id : RoomId}
    (hbegins : Begins s op p) (hcalls : s'.calls = s.calls ++ [p])
    (hnames : names_in s'.match_of id = names_in s.match_of id) : Lets s op s' id := by
  have htakers : s'.takers id = s.takers id ++ (asker_in id p).toList := by
    unfold takers
    rw [hnames, hcalls, List.filterMap_append, List.append_assoc]
    cases h : asker_in id p <;> simp [h]
  cases hj : joins_as p with
  | none =>
      rw [asker_in_none hj, Option.toList_none, List.append_nil] at htakers
      refine .nobody ?_
      rw [htakers]
  | some j =>
      by_cases hroom : j.room = id
      · refine .somebody p j hbegins hj hroom hcalls ?_
        rw [htakers, asker_in, hj, Option.bind_some, if_pos hroom]
        rfl
      · rw [asker_in, hj, Option.bind_some, if_neg hroom, Option.toList_none,
          List.append_nil] at htakers
        refine .nobody ?_
        rw [htakers]

/-- A pending call that is taken out takes its asker out. -/
theorem take_askers {s : RoomManager} {call : Nat} {p : Pending} (hp : s.calls[call]? = some p)
    (id : RoomId) : ((s.calls.eraseIdx call).filterMap (asker_in id) ++ (asker_in id p).toList).Perm
      (s.calls.filterMap (asker_in id)) := by
  have hperm := (take_perm hp).filterMap (asker_in id)
  rw [List.filterMap_append] at hperm
  have hself : [p].filterMap (asker_in id) = (asker_in id p).toList := by
    cases h : asker_in id p <;> simp [h]
  rwa [hself] at hperm

/-- A part of a call lets nobody in: who joins was let in before. -/
theorem lets_of_goes {s s' : RoomManager} {call : Nat} {p : Pending} {rest : Rest} {op : Op}
    (ha : Accounted s) (ha' : Accounted s') (hp : s.calls[call]? = some p)
    (hgoes : Goes s.match_of p rest s'.match_of)
    (hcalls : s'.calls = s.calls.eraseIdx call ++ rest.call.toList)
    (hfollows : ∀ q, rest.call = some q → later q = true) (id : RoomId) : Lets s op s' id := by
  have htake := take_askers hp id
  have hasked : s'.calls.filterMap (asker_in id)
      = (s.calls.eraseIdx call).filterMap (asker_in id) := by
    rw [hcalls, List.filterMap_append]
    cases hq : rest.call with
    | none => simp
    | some q => simp [asker_in_later (hfollows q hq)]
  -- the match keeps its names, and the calls have lost at most an asker
  have hkeep : names_in s'.match_of id = names_in s.match_of id → Lets s op s' id := by
    intro hnames
    refine .nobody ?_
    unfold takers
    rw [hnames, hasked, List.subperm_append_left]
    exact ((List.sublist_append_left _ _).subperm).trans htake.subperm
  have hstep : ∀ (j : RoomId) (m m' : Match), s.match_of j = some m →
      Match.SeatsSame m.audience m'.audience →
      s'.match_of = Function.update s.match_of j (some m') → Lets s op s' id := by
    intro j m m' here hsame hmatches
    refine hkeep ?_
    have hm' : s'.match_of j = some m' := by
      rw [hmatches]
      exact Function.update_self _ _ _
    rw [hmatches]
    exact names_in_update here (Match.names_same hsame (ha.promises.seating j m here)
      (ha'.promises.seating j m' hm'))
  generalize hmatches : s'.match_of = matches' at hgoes
  cases hgoes with
  | @joined _ _ j m color joins here taken granted =>
      have hnew : (j.join m).1.1.audience.names.Perm (m.audience.names ++ [j.username]) :=
        (Match.seating_join (ha.promises.seating j.room m here) taken).taken.names
      by_cases hroom : j.room = id
      · -- the name is the match's from now on, and was the call's before
        have hasker : asker_in id p = some j.username := by
          rw [asker_in, joins, Option.bind_some, if_pos hroom]
        rw [hasker, Option.toList_some] at htake
        refine .nobody (List.Perm.subperm ?_)
        unfold takers names_in
        rw [hmatches, hasked, ← hroom, Function.update_self, here]
        rw [← hroom] at htake
        calc (j.join m).1.1.audience.names ++ (s.calls.eraseIdx call).filterMap (asker_in j.room)
            |>.Perm ((m.audience.names ++ [j.username]) ++
              (s.calls.eraseIdx call).filterMap (asker_in j.room)) := hnew.append_right _
          _ |>.Perm (m.audience.names ++
              ((s.calls.eraseIdx call).filterMap (asker_in j.room) ++ [j.username])) := by
            rw [List.append_assoc]
            exact (List.perm_append_comm).append_left _
          _ |>.Perm (m.audience.names ++ s.calls.filterMap (asker_in j.room)) :=
            htake.append_left _
      · refine hkeep ?_
        unfold names_in
        rw [hmatches, Function.update_of_ne (Ne.symm hroom)]
  | @refused _ _ j m joins here refused granted =>
      refine hkeep ?_
      rw [hmatches, names_in_update here]
      exact congrArg (fun m : Match => m.audience.names) (Match.join_refused refused)
  | @reconnected j color connection m here back =>
      have hexec : Match.exec m (.reconnect color connection)
          = .ok (m.reconnect color connection).1 :=
        rfl
      exact hstep j m _ here (Match.exec_seats_same (by simp) hexec) hmatches
  | @left seat m plays here =>
      have hexec : Match.exec m (.on_disconnect seat.color)
          = .ok (m.on_disconnect seat.color) := rfl
      exact hstep seat.room m _ here (Match.exec_seats_same (by simp) hexec) hmatches
  | registered =>
      refine hkeep ?_
      rw [hmatches]
  | @stepped _ _ j m call r joins here step other stays views queues =>
      exact hstep j m _ here (Match.exec_seats_same other step) hmatches
  | idle joins granted =>
      refine hkeep ?_
      rw [hmatches]

theorem exec_lets {s s' : RoomManager} {op : Op} {os : List RoomEvent} (ha : Accounted s)
    (hexec : exec s op = .ok (s', os)) (id : RoomId) : Lets s op s' id := by
  have hsame : s'.calls = s.calls → names_in s'.match_of id = names_in s.match_of id →
      Lets s op s' id := by
    intro hcalls hnames
    refine .nobody ?_
    unfold takers
    rw [hcalls, hnames]
  cases exec_turn hexec with
  | idle gone unheld answer calls seats matches_ =>
      apply hsame calls
      rw [matches_]
  | began p begins answer calls seats matches_ =>
      apply lets_of_call begins calls
      rw [matches_]
  | opened p name begins answer calls seats matches_ =>
      apply lets_of_call begins calls
      rw [matches_]
      exact names_in_open ha.fresh rfl
  | passed seat rest held about leaving answer calls seats matches_ =>
      refine .nobody ?_
      unfold takers
      have hnone : rest.call.toList.filterMap (asker_in id) = [] := by
        rcases leaving with rfl | rfl
        · rfl
        · rfl
      rw [calls, matches_, List.filterMap_append, hnone, List.append_nil]
  | went call p rest about pending goes answer calls seats follows =>
      exact lets_of_goes ha (ha.exec hexec) pending goes calls follows id
  | ticked j m now elapsed_ms r about here step answer calls seats matches_ =>
      have htick : Match.exec m (.tick now elapsed_ms) = .ok r := step
      have hm' : s'.match_of j = some r.1 := by
        rw [matches_]
        exact Function.update_self _ _ _
      apply hsame calls
      rw [matches_]
      exact names_in_update here (Match.names_same (Match.exec_seats_same (by simp) htick)
        (ha.promises.seating j m here) ((ha.exec hexec).promises.seating j r.1 hm'))

/-! ## One seat taken -/

/-- A room has somebody's seat taken. -/
def Taken (l : Ledger) : Prop := ∀ id room, l.rooms id = some room → 1 ≤ room.seats_taken

section Alone

variable {l l' : Ledger} {owns : RoomId → PieceColor → Prop} {found : Option Int}
  {os : RoomId → List MatchEvent} {id : RoomId} {room : Room}

theorem Taken.update (h : Taken l) {room' : Option Room} (hself : ∀ r ∈ room', 1 ≤ r.seats_taken)
    (j : RoomId) (r : Room) (hr : Function.update l.rooms id room' j = some r) :
    1 ≤ r.seats_taken := by
  by_cases hj : j = id
  · rw [hj, Function.update_self] at hr
    exact hself r hr
  · rw [Function.update_of_ne hj] at hr
    exact h j r hr

theorem Taken.change (h : Taken l) (he : Effect owns found l l' os) : Taken l' := by
  cases he with
  | kept => exact h
  | opened rating closest => exact h.update (by simp)
  | created key drawn free => exact h.update (by simp)
  | paired id room rating closest live =>
      have htaken := h id room live
      exact h.update (by simp; omega)
  | counted id room name named live => exact h.update (by simpa using h id room live)
  | reserved id room name named live free =>
      have htaken := h id room live
      exact h.update (by simp; omega)
  | joined id m username rating connection color here about taken => exact h
  | stepped id m call r here step other owns => exact h
  | given_back id room live held found => exact h.update (by simpa using h id room live)
  | left id room live held more => exact h.update (by simpa using h id room live)
  | reaped id room live held last => exact h.update (by simp)
  | lost id gone held => exact h

/-- How a room with one seat taken has come about, and how many are attached to it now. -/
inductive OneTaken (l l' : Ledger) (found : Option Int) (id : RoomId) : Prop
  | opened (fresh : id = l.next_room_id) (held : l'.held id = 1)
      (joins : l'.joins id = l.joins id + 1)
  | same (room : Room) (live : l.rooms id = some room) (taken : room.seats_taken = 1)
      (held : l'.held id = l.held id)
  | counted (room : Room) (live : l.rooms id = some room) (taken : room.seats_taken = 1)
      (held : l'.held id = l.held id + 1) (joins : l'.joins id = l.joins id)
  | given_back (room : Room) (live : l.rooms id = some room) (taken : room.seats_taken = 1)
      (held : l'.held id = l.held id - 1) (found : found.isSome)

theorem Effect.one_taken (he : Effect owns found l l' os) (hh : Homes l) (ht : Taken l)
    (hc : RefCount.Counted l.counts l.held) {room' : Room} (live' : l'.rooms id = some room')
    (hone : room'.seats_taken = 1)
    (halone : ∀ room, l.rooms id = some room → room.seats_taken = 1 → l.held id = 1) :
    OneTaken l l' found id := by
  have hfresh := hh.unheld hc
  have hsame : l.rooms id = some room' → l'.held id = l.held id → OneTaken l l' found id :=
    fun hlive hheld => .same room' hlive hone hheld
  have hself : ∀ {j : RoomId} {o : Option Room}, Function.update l.rooms j o j = some room' →
      o = some room' := fun h => by rwa [Function.update_self] at h
  have hother : ∀ {j : RoomId} {o : Option Room}, id ≠ j →
      Function.update l.rooms j o id = some room' → l.rooms id = some room' :=
    fun hne h => by rwa [Function.update_of_ne hne] at h
  have hconnected : ∀ j r, l.rooms j = some r → r.connected = l.held j := by
    intro j r hr
    have hcount := hc j
    rw [Ledger.counts, Function.comp_apply, hr] at hcount
    exact hcount
  cases he with
  | kept => exact hsame live' rfl
  | joined j m username rating connection color here about taken => exact hsame live' rfl
  | stepped j m call r here step other owns => exact hsame live' rfl
  | opened rating closest =>
      by_cases hid : id = l.next_room_id
      · subst hid
        refine .opened rfl ?_ (plus_self _ _)
        exact (plus_self _ _).trans (by rw [hfresh])
      · exact hsame (hother hid live') (plus_of_ne _ hid)
  | created key drawn free =>
      by_cases hid : id = l.next_room_id
      · subst hid
        refine .opened rfl ?_ (plus_self _ _)
        exact (plus_self _ _).trans (by rw [hfresh])
      · exact hsame (hother hid live') (plus_of_ne _ hid)
  | paired j room rating closest live =>
      by_cases hid : id = j
      · subst hid
        obtain rfl := Option.some.inj (hself live')
        have htaken := ht id room live
        dsimp only at hone
        omega
      · exact hsame (hother hid live') (plus_of_ne _ hid)
  | counted j room name named live =>
      by_cases hid : id = j
      · subst hid
        obtain rfl := Option.some.inj (hself live')
        exact .counted room live hone (plus_self _ _) rfl
      · exact hsame (hother hid live') (plus_of_ne _ hid)
  | reserved j room name named live free =>
      by_cases hid : id = j
      · subst hid
        obtain rfl := Option.some.inj (hself live')
        have htaken := ht id room live
        dsimp only at hone
        omega
      · exact hsame (hother hid live') (plus_of_ne _ hid)
  | given_back j room live held hfound =>
      by_cases hid : id = j
      · subst hid
        obtain rfl := Option.some.inj (hself live')
        refine .given_back room live hone (minus_self _ _) ?_
        rw [hfound]
        rfl
      · exact hsame (hother hid live') (minus_of_ne _ hid)
  | left j room live held more =>
      by_cases hid : id = j
      · subst hid
        obtain rfl := Option.some.inj (hself live')
        -- the one connection that is counted is not the last
        have hcount := hconnected id room live
        rw [halone room live hone] at hcount
        rw [hcount] at more
        exact absurd (by decide) more
      · exact hsame (hother hid live') (minus_of_ne _ hid)
  | reaped j room live held last =>
      by_cases hid : id = j
      · subst hid
        cases hself live'
      · exact hsame (hother hid live') (minus_of_ne _ hid)
  | lost j gone held =>
      by_cases hid : id = j
      · subst hid
        cases gone.symm.trans live'
      · exact hsame live' (minus_of_ne _ hid)

/-- Whoever is let in to play joins a room that is new, or has one seat taken. -/
theorem Effect.more_joins (he : Effect owns found l l' os) (ht : Taken l) (hw : Waits l)
    (hmore : l'.joins id = l.joins id + 1) :
    id = l.next_room_id ∨ ∃ room, l.rooms id = some room ∧ room.seats_taken = 1 := by
  have hplus : ∀ j, plus l.joins j id = l.joins id + 1 → id = j := by
    intro j hj
    by_contra hne
    rw [plus_of_ne _ hne] at hj
    omega
  have hminus : ∀ j, minus l.joins j id ≠ l.joins id + 1 := by
    intro j hj
    unfold minus at hj
    rw [Function.update_apply] at hj
    split_ifs at hj with hid
    · rw [hid] at hj
      omega
    · omega
  cases he with
  | opened rating closest => exact .inl (hplus _ hmore)
  | created key drawn free => exact .inl (hplus _ hmore)
  | paired j room rating closest live =>
      obtain rfl := hplus j hmore
      obtain ⟨entry, hmem, rfl⟩ := closest_mem closest
      obtain ⟨r, hr, -, htaken, -⟩ := hw.waiting entry hmem
      exact .inr ⟨r, hr, htaken⟩
  | reserved j room name named live free =>
      obtain rfl := hplus j hmore
      have htaken := ht id room live
      exact .inr ⟨room, live, by omega⟩
  | joined j m username rating connection color here about taken => exact absurd hmore (hminus j)
  | kept | counted | stepped | given_back | left | reaped | lost => exact absurd hmore (by simp)

end Alone

/-! ## Nobody else -/

section Nobody

variable {s s' : RoomManager} {op : Op} {os : List RoomEvent} {id : RoomId}

/-- **The only one attached**: as long as one seat of a room is taken, no step attaches anything
else to it, if nobody comes back to it and what is attached is no visit. -/
theorem stays_alone (ha : Accounted s) (ht : Taken s.ledger) (hexec : exec s op = .ok (s', os))
    {room room' : Room} (live : s.rooms id = some room) (live' : s'.rooms id = some room')
    (hone : room'.seats_taken = 1) (hheld : s.held id = 1)
    (hvisits : ∀ p ∈ s.calls, attached p = some id → visits p = false)
    (hback : ∀ color connection, ¬ Begins s op (.reconnect id color connection)) :
    room.seats_taken = 1 ∧ s'.held id = 1 := by
  cases (ha.effect hexec).one_taken ha.homes ht ha.counted live' hone (fun _ _ _ => hheld) with
  | opened fresh held joins =>
      have hclosed := ha.homes.closed
      rw [← fresh] at hclosed
      cases live.symm.trans hclosed
  | same r hr taken held =>
      obtain rfl := Option.some.inj (live.symm.trans hr)
      exact ⟨taken, held.trans hheld⟩
  | counted r hr taken held joins =>
      exfalso
      obtain rfl := Option.some.inj (live.symm.trans hr)
      have hmore : s'.held id = s.held id + 1 := held
      have hjoins : s'.joins id = s.joins id := joins
      -- a call that is attached begins, and it is not to join
      have hbegan : ∀ p, Begins s op p → s'.calls = s.calls ++ [p] → s'.seats = s.seats →
          False := by
        intro p hbegins hcalls hseats
        have hp : attached p = some id := by
          by_contra hne
          have h := held_began hcalls hseats id
          rw [one_of_ne hne] at h
          omega
        have hnot : joining p ≠ some id := by
          intro hjoin
          have h := joins_began hcalls id
          rw [hjoin, one_self] at h
          omega
        cases hbegins with
        | join_any => exact hnot hp
        | create_room => exact hnot hp
        | join => exact hnot hp
        | owner_of => cases hp
        | enqueue => cases hp
        | @reconnect _ m color name username rating connection here reclaims =>
            obtain rfl := Option.some.inj hp
            exact hback color connection (.reconnect here reclaims)
        | join_spectator =>
            obtain rfl := Option.some.inj hp
            obtain ⟨r, hr, hfull⟩ := crowded_of_viewer hexec hcalls
            obtain rfl := Option.some.inj (live.symm.trans hr)
            omega
      cases exec_turn hexec with
      | idle gone unheld answer calls seats matches_ =>
          have h := held_same calls seats id
          omega
      | began p begins answer calls seats matches_ => exact hbegan p begins calls seats
      | opened p name begins answer calls seats matches_ => exact hbegan p begins calls seats
      | passed seat rest held about leaving answer calls seats matches_ =>
          have h := held_passed held leaving calls seats id
          have hle : one (rest.call.bind attached) id ≤ one (some seat.room) id := by
            rcases leaving with rfl | rfl
            · exact Nat.le_refl _
            · exact Nat.zero_le _
          omega
      | went call p rest about pending goes answer calls seats follows =>
          subst about
          rw [exec, pending] at hexec
          obtain ⟨rest', hattends⟩ := resume_attends hexec
          have h := held_attends_le pending hattends id
          omega
      | ticked j m now elapsed_ms r about here step answer calls seats matches_ =>
          have h := held_same calls seats id
          omega
  | given_back r hr taken held found =>
      exfalso
      have hless : s'.held id = s.held id - 1 := held
      -- only a call that gives back finds a count
      cases op with
      | proceed call =>
          rw [unreaped] at found
          obtain ⟨n, hfound⟩ := Option.isSome_iff_exists.mp found
          obtain ⟨p, hp, hn⟩ := Option.bind_eq_some_iff.mp hfound
          rw [exec, hp] at hexec
          obtain ⟨rest, hattends⟩ := resume_attends hexec
          have h := held_attends hp hattends id
          have hattached : attached p = some id := by
            by_contra hne
            rw [one_of_ne hne] at h
            omega
          have hvisit := hvisits p (List.mem_of_getElem? hp) hattached
          cases p <;> first | cases hn | cases hvisit
      | _ => cases found

/-- A match that is there stays. -/
theorem match_stays (ha : Accounted s) (hexec : exec s op = .ok (s', os))
    (hid : (s.match_of id).isSome) : (s'.match_of id).isSome := by
  have hstays : ∀ j m, (Function.update s.match_of j (some m) id).isSome := by
    intro j m
    rw [Function.update_apply]
    split_ifs
    · rfl
    · exact hid
  have he := ha.effect hexec
  generalize hl : s'.ledger = l' at he
  generalize did os = done at he
  have hmatches : s'.match_of = l'.match_of := congrArg Ledger.match_of hl
  rw [hmatches]
  cases he with
  | opened | created | joined | stepped => exact hstays _ _
  | kept | paired | counted | reserved | given_back | left | reaped | lost => exact hid

end Nobody

/-! ## How many takers -/

theorem names_length (a : MatchAudience) : a.names.length = a.players := by
  unfold MatchAudience.names MatchAudience.players MatchAudience.name
  cases a.player .White <;> cases a.player .Black <;> rfl

/-- **As many takers as seats taken.** -/
theorem takers_length {s : RoomManager} (ha : Accounted s) {id : RoomId} {room : Room}
    (live : s.rooms id = some room) : ((s.takers id).length : Int) = room.seats_taken := by
  have hhere := ha.homes.here id (by rw [show s.ledger.rooms id = some room from live]; rfl)
  obtain ⟨m, hm⟩ := Option.isSome_iff_exists.mp hhere
  have hm : s.match_of id = some m := hm
  have hseats := (ha.promises.seats id room m live hm).1
  have hasked : (s.calls.filterMap (asker_in id)).length = s.joins id := by
    rw [List.length_filterMap_eq_countP]
    unfold joins
    congr 1
    funext p
    unfold asker_in
    cases p <;> simp [joins_as, joining] <;> split_ifs <;> simp [*]
  have hjoins : s.ledger.joins id = s.joins id := rfl
  unfold takers names_in
  rw [List.length_append, hasked, hm, Option.elim_some, names_length,
    ← (ha.promises.seating id m hm).filled, hseats, hjoins]
  push_cast
  rfl

/-- Nobody takes a seat of a room that is yet to come. -/
theorem takers_fresh {s : RoomManager} (ha : Accounted s) : s.takers s.next_room_id = [] := by
  have hheld : s.held s.next_room_id = 0 := ha.homes.unheld ha.counted
  have hjoins : s.calls.countP (fun p => joining p = some s.next_room_id) = 0 :=
    Nat.le_zero.mp (hheld ▸ joins_le_held s _)
  have hasked : s.calls.filterMap (asker_in s.next_room_id) = [] := by
    refine List.filterMap_eq_nil_iff.mpr ?_
    intro p hp
    have hnot := List.countP_eq_zero.mp hjoins p hp
    unfold asker_in
    cases p <;> simp_all [joins_as, joining]
  unfold takers names_in
  rw [ha.fresh, hasked]
  rfl

end RoomManager

end KungFuChess
