/-
**Matchmaking.**

`closest_waiting_room` looks at two entries of the index: the one that `lower_bound`
finds, and the one before it. Its answer is as close as that of a scan of all entries
(`closest_in_nearest`), since the index is ordered by rating.

What the index says of a room stays true until the room has its second player: whoever
has taken its seat has the rating under which it waits (`Matched.waits`). So the two
players that meet in a room without a name have joined within `kMatchmakingRatingGap` of
each other, however the calls are interleaved.
-/
import KungFuChess.Nearest
import KungFuChess.Takers

set_option autoImplicit false

namespace KungFuChess

open Machine

namespace MatchAudience

/-- Who plays the colour has joined under the name, with the rating. -/
def Rated (a : MatchAudience) (color : PieceColor) (username : String) (rating : Int) : Prop :=
  (a.player color).isSome ∧ a.username_of color = username ∧ a.rating_of color = rating

theorem seat_rating {a a' : MatchAudience} {username : String} {rating : Int}
    {connection : Connection} {color : PieceColor}
    (h : a.seat username rating connection connection = (a', some color)) (c : PieceColor) :
    a'.rating_of c = if c = color then rating else a.rating_of c := by
  unfold seat at h
  split_ifs at h
  · obtain ⟨rfl, hcolor⟩ := Prod.mk.inj h
    obtain rfl := Option.some.inj hcolor
    cases c <;> rfl
  · obtain ⟨rfl, hcolor⟩ := Prod.mk.inj h
    obtain rfl := Option.some.inj hcolor
    cases c <;> rfl
  · cases (Prod.mk.inj h).2

theorem rating_of_reseat (a : MatchAudience) (color : PieceColor) (connection : Connection)
    (c : PieceColor) : (a.reseat color connection connection).rating_of c = a.rating_of c := by
  cases color <;> cases c <;> rfl

theorem rating_of_watch (a : MatchAudience) (connection : Connection) (c : PieceColor) :
    (a.watch connection connection).1.rating_of c = a.rating_of c := by
  unfold watch
  split_ifs <;> cases c <;> rfl

theorem rating_of_unwatch (a : MatchAudience) (id : WatcherId) (c : PieceColor) :
    (a.unwatch id).rating_of c = a.rating_of c := by
  unfold unwatch
  split_ifs <;> cases c <;> rfl

end MatchAudience

namespace Match

variable {m m' : Match} {username username' : String} {rating rating' : Int}
  {connection : Connection} {color c : PieceColor}

/-- Whoever has joined was there before, or is the one who joins. -/
theorem rated_join (htaken : (m.join username rating connection).2 = some color)
    (h : (m.join username rating connection).1.1.audience.Rated c username' rating') :
    m.audience.Rated c username' rating' ∨ (username' = username ∧ rating' = rating) := by
  unfold join at htaken h
  rcases hs : m.audience.seat username rating connection connection with ⟨a, assigned⟩
  rw [hs] at htaken h
  cases assigned with
  | none => cases htaken
  | some color =>
      obtain ⟨hplayer, hname, hrating⟩ := h
      have hspec := MatchAudience.seat_spec hs
      have hplayer : (a.player c).isSome := hplayer
      have hname : a.username_of c = username' := hname
      have hrating : a.rating_of c = rating' := hrating
      rw [hspec.player] at hplayer
      rw [hspec.username_of] at hname
      rw [MatchAudience.seat_rating hs] at hrating
      by_cases hc : c = color
      · rw [if_pos hc] at hname hrating
        exact .inr ⟨hname.symm, hrating.symm⟩
      · rw [if_neg hc] at hplayer hname hrating
        exact .inl ⟨hplayer, hname, hrating⟩

/-- No other call changes a rating. -/
theorem exec_rating_same {call : Call} {os : List MatchEvent}
    (hother : ∀ username rating connection, call ≠ .join username rating connection)
    (h : exec m call = .ok (m', os)) (c : PieceColor) :
    m'.audience.rating_of c = m.audience.rating_of c := by
  have hroster := exec_rostered hother h
  generalize m'.audience = a' at hroster ⊢
  cases hroster with
  | same => rfl
  | watched connection => exact MatchAudience.rating_of_watch _ _ _
  | unwatched watcher => exact MatchAudience.rating_of_unwatch _ _ _
  | reseated color connection => exact MatchAudience.rating_of_reseat _ _ _ _

theorem rated_exec {call : Call} {os : List MatchEvent} (hm : m.Seating) (hm' : m'.Seating)
    (hother : ∀ username rating connection, call ≠ .join username rating connection)
    (hexec : exec m call = .ok (m', os)) (h : m'.audience.Rated c username rating) :
    m.audience.Rated c username rating := by
  obtain ⟨hplayer, hname, hrating⟩ := h
  -- with `Seating` nobody is new: `reseat` is for a colour that is played
  have hsame := exec_seats_same hother hexec
  rw [players_same hsame hm hm'] at hplayer
  rw [hsame.username_of] at hname
  rw [exec_rating_same hother hexec] at hrating
  exact ⟨hplayer, hname, hrating⟩

end Match

namespace RoomManager

/-! ## The closest entry -/

/-- How far an entry of the index is from a rating. -/
def gap_to (rating : Int) (entry : Int × RoomId) : Int := |entry.1 - rating|

/-- What `consider` remembers of an entry: its gap, and its room. -/
def measured (rating : Int) (entry : Int × RoomId) : Int × RoomId := (gap_to rating entry, entry.2)

/-- As a multimap keeps its entries. -/
def Ordered (waiting : List (Int × RoomId)) : Prop := waiting.Pairwise fun a b => a.1 ≤ b.1

/-- What `closest_waiting_room` would find with a look at every entry: the least gap, and
the first entry that has it. -/
def closest_by_scan (waiting : List (Int × RoomId)) (rating : Int) : Option (Int × RoomId) :=
  waiting.foldl (fun best entry => consider rating best (some entry)) none

section Closest

variable {waiting : List (Int × RoomId)} {rating : Int} {best : Option (Int × RoomId)}

theorem consider_some (rating : Int) (best : Option (Int × RoomId)) (entry : Int × RoomId) :
    consider rating (best.map (measured rating)) (some entry)
      = (Nearest.keep (gap_to rating) kMatchmakingRatingGap best entry).map (measured rating) := by
  have hall : (best.map (measured rating)).all (fun b => |entry.1 - rating| < b.1)
      = best.all (fun b => gap_to rating entry < gap_to rating b) := by
    cases best <;> rfl
  unfold consider Nearest.keep
  dsimp only
  rw [hall]
  by_cases hcloser : gap_to rating entry ≤ kMatchmakingRatingGap ∧
      best.all (fun b => gap_to rating entry < gap_to rating b)
  · rw [if_pos hcloser]
    exact if_pos hcloser
  · rw [if_neg hcloser]
    exact if_neg hcloser

theorem consider_look (rating : Int) (best entry : Option (Int × RoomId)) :
    consider rating (best.map (measured rating)) entry
      = (Nearest.look (gap_to rating) kMatchmakingRatingGap best entry).map (measured rating) := by
  cases entry with
  | none => rfl
  | some e => exact consider_some rating best e

theorem closest_by_scan_eq (waiting : List (Int × RoomId)) (rating : Int) :
    closest_by_scan waiting rating
      = (Nearest.scan (gap_to rating) kMatchmakingRatingGap waiting).map (measured rating) := by
  have hfold : ∀ best : Option (Int × RoomId),
      waiting.foldl (fun best entry => consider rating best (some entry))
          (best.map (measured rating))
        = (waiting.foldl (Nearest.keep (gap_to rating) kMatchmakingRatingGap) best).map
          (measured rating) := by
    induction waiting with
    | nil => exact fun _ => rfl
    | cons entry waiting ih =>
        intro best
        rw [List.foldl_cons, List.foldl_cons, consider_some]
        exact ih _
  exact hfold none

/-- **The two entries around `lower_bound` are enough.** -/
theorem closest_in_nearest (h : Ordered waiting) (rating : Int) :
    ∃ best, closest_in waiting rating = (best.map (measured rating)).map Prod.snd ∧
      Nearest.IsNearest (gap_to rating) kMatchmakingRatingGap {entry | entry ∈ waiting} best := by
  refine ⟨_, ?_, Nearest.nearest_around (r := rating) h kMatchmakingRatingGap⟩
  -- `lower_bound` is the first entry from the rating on, its predecessor the last below
  have hlower := consider_look rating none (Nearest.first_from Prod.fst rating waiting)
  have hbefore := consider_look rating
    (Nearest.look (gap_to rating) kMatchmakingRatingGap none
      (Nearest.first_from Prod.fst rating waiting))
    (Nearest.last_below Prod.fst rating waiting)
  rw [← hlower] at hbefore
  exact congrArg (Option.map Prod.snd) hbefore

/-- **The closest waiting room**, if one is within the gap: the fast path agrees with a
scan. -/
theorem closest_in_spec (h : Ordered waiting) (rating : Int) :
    ((closest_in waiting rating).isSome ↔
      ∃ entry ∈ waiting, gap_to rating entry ≤ kMatchmakingRatingGap) ∧
    (closest_in waiting rating).isSome = (closest_by_scan waiting rating).isSome ∧
    ∀ id, closest_in waiting rating = some id → ∃ entry ∈ waiting, entry.2 = id ∧
      gap_to rating entry ≤ kMatchmakingRatingGap ∧
      (∀ other ∈ waiting, gap_to rating entry ≤ gap_to rating other) ∧
      (closest_by_scan waiting rating).map Prod.fst = some (gap_to rating entry) := by
  obtain ⟨best, hbest, hnearest⟩ := closest_in_nearest h rating
  have hgap := hnearest.dist_eq (Nearest.nearest_scan (gap_to rating) kMatchmakingRatingGap waiting)
  have hscan : (closest_by_scan waiting rating).map Prod.fst = best.map (gap_to rating) := by
    rw [closest_by_scan_eq, Option.map_map, hgap]
    rfl
  rw [hbest]
  refine ⟨?_, ?_, ?_⟩
  · rw [Option.isSome_map, Option.isSome_map]
    exact hnearest.isSome_iff
  · have hsome := congrArg Option.isSome hscan
    rw [Option.isSome_map, Option.isSome_map] at hsome
    rw [Option.isSome_map, Option.isSome_map, hsome]
  · intro id hid
    cases best with
    | none => cases hid
    | some entry =>
        obtain ⟨hmem, hnear, hleast⟩ := hnearest
        exact ⟨entry, hmem, Option.some.inj hid, hnear, hleast, hscan⟩

-- the second of three is closest, and of two as close the first in the index
example : closest_in [(1100, 1), (1290, 2), (1290, 3)] 1200 = some 2 := by decide

end Closest

/-! ## Takers and their ratings -/

/-- Somebody plays in the room, or a call is about to join its match for them, under the
name and with the rating. -/
inductive Takes (calls : List Pending) (matches_ : Matches) (id : RoomId) (username : String)
    (rating : Int) : Prop
  | plays (m : Match) (color : PieceColor) (here : matches_ id = some m)
      (rated : m.audience.Rated color username rating)
  | joins (p : Pending) (connection : Connection) (pending : p ∈ calls)
      (asks : joins_as p = some ⟨id, username, rating, connection⟩)

section Takes

variable {s s' : RoomManager} {op : Op} {os : List RoomEvent} {calls calls' : List Pending}
  {matches_ matches' : Matches} {id j : RoomId} {username : String} {rating : Int}

/-- With more calls there are more takers. -/
theorem Takes.mono (h : Takes calls matches_ id username rating)
    (hcalls : ∀ p ∈ calls, joins_as p ≠ none → p ∈ calls') :
    Takes calls' matches_ id username rating := by
  cases h with
  | plays m color here rated => exact .plays m color here rated
  | joins p connection pending asks =>
      refine .joins p connection (hcalls p pending ?_) asks
      rw [asks]
      simp

/-- A new call is for whom it is about to join. -/
theorem Takes.began {p : Pending} (h : Takes (calls ++ [p]) matches_ id username rating) :
    Takes calls matches_ id username rating ∨
      ∃ connection, joins_as p = some ⟨id, username, rating, connection⟩ := by
  cases h with
  | plays m color here rated => exact .inl (.plays m color here rated)
  | joins q connection pending asks =>
      rcases List.mem_append.mp pending with hold | hnew
      · exact .inl (.joins q connection hold asks)
      · rw [List.mem_singleton.mp hnew] at asks
        exact .inr ⟨connection, asks⟩

/-- A match changes, and whoever plays in it has played before. -/
theorem Takes.update {m' : Match}
    (h : Takes calls (Function.update matches_ j (some m')) id username rating)
    (hplays : ∀ color, m'.audience.Rated color username rating →
      Takes calls matches_ j username rating) : Takes calls matches_ id username rating := by
  cases h with
  | plays m color here rated =>
      by_cases hid : id = j
      · subst hid
        rw [Function.update_self] at here
        obtain rfl := Option.some.inj here
        exact hplays color rated
      · rw [Function.update_of_ne hid] at here
        exact .plays m color here rated
  | joins p connection pending asks => exact .joins p connection pending asks

/-- Nobody plays in a new match. -/
theorem Takes.opened {name : String}
    (h : Takes calls (Function.update matches_ j (some (s.new_match j name))) id username rating) :
    Takes calls matches_ id username rating := by
  refine h.update ?_
  rintro color ⟨hplayer, -⟩
  cases color <;> cases hplayer

/-- A part of a call adds no taker. -/
theorem Takes.goes {call : Nat} {p : Pending} {rest : Rest} (ha : Accounted s) (ha' : Accounted s')
    (pending : s.calls[call]? = some p) (hgoes : Goes s.match_of p rest s'.match_of)
    (hcalls : s'.calls = s.calls.eraseIdx call ++ rest.call.toList)
    (hfollows : ∀ q, rest.call = some q → later q = true)
    (h : Takes s'.calls s'.match_of id username rating) :
    Takes s.calls s.match_of id username rating := by
  -- the part that is left joins nobody, so the calls from before are enough
  have h : Takes s.calls s'.match_of id username rating := by
    refine h.mono ?_
    intro q hq hjoins
    rw [hcalls] at hq
    rcases List.mem_append.mp hq with hold | hrest
    · exact (List.eraseIdx_sublist _ _).subset hold
    · exact absurd (joins_as_later (hfollows q (Option.mem_toList.mp hrest))) hjoins
  -- a match that steps otherwise has the players it had
  have hstep : ∀ {i : RoomId} {m m' : Match} {c : Match.Call} {os : List MatchEvent},
      s.match_of i = some m → Match.exec m c = .ok (m', os) →
      (∀ username rating connection, c ≠ .join username rating connection) →
      s'.match_of = Function.update s.match_of i (some m') →
      Takes s.calls s.match_of id username rating := by
    intro i m m' c os here hexec hother hmatches
    have hm' : s'.match_of i = some m' := by
      rw [hmatches]
      exact Function.update_self _ _ _
    rw [hmatches] at h
    refine h.update ?_
    intro color hrated
    exact .plays m color here (Match.rated_exec (ha.promises.seating i m here)
      (ha'.promises.seating i m' hm') hother hexec hrated)
  generalize hmatches : s'.match_of = matches' at hgoes
  cases hgoes with
  | @joined _ _ j m color joins here taken granted =>
      rw [hmatches] at h
      refine h.update ?_
      intro c hrated
      rcases Match.rated_join taken hrated with hold | ⟨rfl, rfl⟩
      · exact .plays m c here hold
      · -- who plays now was about to join before
        exact .joins p j.connection (List.mem_of_getElem? pending) joins
  | @refused _ _ j m joins here refused granted =>
      rw [hmatches] at h
      refine h.update ?_
      intro c hrated
      have hsame : (j.join m).1.1 = m := Match.join_refused refused
      rw [hsame] at hrated
      exact .plays m c here hrated
  | @reconnected j color connection m here back =>
      have hexec : Match.exec m (.reconnect color connection)
          = .ok (m.reconnect color connection).1 := rfl
      exact hstep here hexec (by simp) hmatches
  | @left seat m plays here =>
      have hexec : Match.exec m (.on_disconnect seat.color)
          = .ok (m.on_disconnect seat.color) := rfl
      exact hstep here hexec (by simp) hmatches
  | registered =>
      rw [hmatches] at h
      exact h
  | @stepped _ _ j m call r joins here step other stays views queues =>
      exact hstep here step other hmatches
  | idle joins granted =>
      rw [hmatches] at h
      exact h

/-- **How a room lets somebody in**: it is opened for them, or found. -/
inductive LetsIn (s : RoomManager) : Op → RoomId → String → Int → Prop
  | opens {username : String} {rating : Int} {connection : Connection}
      (nobody : s.closest_waiting_room rating = none) :
      LetsIn s (.join_any username rating connection) s.next_room_id username rating
  | pairs {username : String} {rating : Int} {connection : Connection} {id : RoomId}
      (closest : s.closest_waiting_room rating = some id) :
      LetsIn s (.join_any username rating connection) id username rating
  | creates {key username : String} {rating : Int} {connection : Connection} :
      LetsIn s (.create_room key username rating connection) s.next_room_id username rating
  | enters {name username : String} {rating : Int} {connection : Connection} {id : RoomId}
      (named : s.named_rooms name = some id) :
      LetsIn s (.join_room name username rating connection) id username rating

/-- One step lets in one player. -/
theorem LetsIn.rating_eq {username' : String} {rating' : Int}
    (h : LetsIn s op id username rating) (h' : LetsIn s op j username' rating') :
    rating = rating' := by
  cases h <;> cases h' <;> rfl

/-- **Whoever takes a seat has taken it before**, or is let in by this step. -/
theorem takes_of_exec (ha : Accounted s) (hexec : exec s op = .ok (s', os))
    (h : Takes s'.calls s'.match_of id username rating) :
    Takes s.calls s.match_of id username rating ∨ LetsIn s op id username rating := by
  have ha' := ha.exec hexec
  -- a call that begins is for one more taker, or for none
  have hjoins : ∀ {p : Pending} {i : Joiner}, joins_as p = some i →
      Takes (s.calls ++ [p]) s.match_of id username rating →
      (i.room = id → i.username = username → i.rating = rating →
        LetsIn s op id username rating) →
      Takes s.calls s.match_of id username rating ∨ LetsIn s op id username rating := by
    intro p i hp h hlets
    rcases h.began with hold | ⟨connection, hnew⟩
    · exact .inl hold
    · obtain rfl := Option.some.inj (hp.symm.trans hnew)
      exact .inr (hlets rfl rfl rfl)
  have hidle : ∀ {p : Pending}, joins_as p = none →
      Takes (s.calls ++ [p]) s.match_of id username rating →
      Takes s.calls s.match_of id username rating ∨ LetsIn s op id username rating := by
    intro p hp h
    rcases h.began with hold | ⟨connection, hnew⟩
    · exact .inl hold
    · rw [hp] at hnew
      cases hnew
  cases exec_cases hexec with
  | opens username rating connection nobody =>
      refine hjoins rfl h.opened ?_
      rintro rfl rfl rfl
      exact .opens nobody
  | pairs username rating connection id room closest here =>
      refine hjoins rfl h ?_
      rintro rfl rfl rfl
      exact .pairs closest
  | creates key username rating connection drawn =>
      refine hjoins rfl h.opened ?_
      rintro rfl rfl rfl
      exact .creates
  | draws_again => exact .inl h
  | enters name username rating connection id s' os named enters =>
      cases enters with
      | nowhere => exact .inl h
      | refused reason => exact .inl h
      | back room m color here match_ theirs => exact hidle rfl h
      | viewer room here => exact hidle rfl h
      | player room here free =>
          refine hjoins rfl h ?_
          rintro rfl rfl rfl
          exact .enters named
  | looks_up => exact hidle rfl h
  | no_such_room => exact .inl h
  | sends => exact hidle rfl h
  | sends_nowhere => exact .inl h
  | leaves seat room held here => exact hidle rfl h
  | leaves_nowhere seat held gone => exact .inl h
  | unheld => exact .inl h
  | resumes call p s' os pending resumes =>
      obtain ⟨rest, hleaves, hgoes⟩ := resume_parts resumes
      exact .inl (h.goes ha ha' pending hgoes hleaves.calls hleaves.follows)
  | no_call => exact .inl h
  | ticks i now elapsed_ms m r here step =>
      have htick : Match.exec m (.tick now elapsed_ms) = .ok r := step
      have hm' : (s.after_match i r).1.match_of i = some r.1 := Function.update_self _ _ _
      refine .inl (Takes.update h ?_)
      intro color hrated
      exact .plays m color here (Match.rated_exec (ha.promises.seating i m here)
        (ha'.promises.seating i r.1 hm') (by simp) htick hrated)
  | ticks_nothing => exact .inl h
  | directory_changes => exact .inl h

/-- Nobody takes a seat of a room that is yet to come. -/
theorem takes_fresh (ha : Accounted s) :
    ¬ Takes s.calls s.match_of s.next_room_id username rating := by
  intro h
  -- by name there is none (`takers_fresh`), so there is none by name and rating
  have hmem : username ∈ s.takers s.next_room_id := by
    cases h with
    | plays m color here rated =>
        rw [ha.fresh] at here
        cases here
    | joins p connection pending asks =>
        refine List.mem_append_right _ (List.mem_filterMap.mpr ⟨p, pending, ?_⟩)
        rw [asker_in, asks, Option.bind_some]
        exact if_pos rfl
  rw [takers_fresh ha] at hmem
  cases hmem

end Takes

/-! ## Rooms without a name -/

section Unnamed

variable {s s' : RoomManager} {op : Op} {os : List RoomEvent} {id : RoomId} {username : String}
  {rating : Int}

/-- A match without a name was there before, or its room has just been opened. -/
theorem unnamed_before (ha : Accounted s) (hexec : exec s op = .ok (s', os)) {m' : Match}
    (hm' : s'.match_of id = some m') (hname : m'.room_name = "") :
    (∃ m, s.match_of id = some m ∧ m.room_name = "") ∨ id = s.next_room_id := by
  have hstep : ∀ {j : RoomId} {m : Match} {call : Match.Call} {r : Match × List MatchEvent},
      s.match_of j = some m → Match.exec m call = .ok r →
      Function.update s.match_of j (some r.1) id = some m' →
      ∃ m, s.match_of id = some m ∧ m.room_name = "" := by
    intro j m call r here step h
    by_cases hid : id = j
    · subst hid
      rw [Function.update_self] at h
      obtain rfl := Option.some.inj h
      exact ⟨m, here, (Match.exec_settings step).2.symm.trans hname⟩
    · rw [Function.update_of_ne hid] at h
      exact ⟨m', h, hname⟩
  have he := ha.effect hexec
  generalize hl : s'.ledger = l' at he
  generalize did os = done at he
  have hmatches : s'.match_of = l'.match_of := congrArg Ledger.match_of hl
  rw [hmatches] at hm'
  cases he with
  | opened | created =>
      by_cases hid : id = s.next_room_id
      · exact .inr hid
      · exact .inl ⟨m', (Function.update_of_ne hid _ _).symm.trans hm', hname⟩
  | joined j m username rating connection color here about taken =>
      have hjoin : Match.exec m (.join username rating connection)
          = .ok (m.join username rating connection).1 := rfl
      exact .inl (hstep here hjoin hm')
  | stepped j m call r here step other owns => exact .inl (hstep here step hm')
  | kept | paired | counted | reserved | given_back | left | reaped | lost =>
      exact .inl ⟨m', hm', hname⟩

/-- Whoever is let in where there is no name asks for any room, and is the second. -/
theorem LetsIn.unnamed (ha : Accounted s) (h : LetsIn s op id username rating) {m : Match}
    (hm : s.match_of id = some m) (hname : m.room_name = "") :
    (∃ connection, op = .join_any username rating connection) ∧
      s.closest_waiting_room rating = some id := by
  cases h with
  | opens nobody => cases ha.fresh.symm.trans hm
  | pairs closest => exact ⟨⟨_, rfl⟩, closest⟩
  | creates => cases ha.fresh.symm.trans hm
  | enters named =>
      -- `join_room` finds named rooms only
      obtain ⟨hne, hroom⟩ := (ha.names.named _ _).mp named
      exact absurd ((ha.names.room_name _ _ _ hm hroom).symm.trans hname) hne

/-- Whoever is let in where a room without a name opens asks for any room. -/
theorem LetsIn.opening (ha : Accounted s) (hexec : exec s op = .ok (s', os))
    (h : LetsIn s op s.next_room_id username rating) {m' : Match}
    (hm' : s'.match_of s.next_room_id = some m') (hname : m'.room_name = "") :
    ∃ connection, op = .join_any username rating connection := by
  generalize hid : s.next_room_id = id at h hm'
  cases h with
  | opens nobody => exact ⟨_, rfl⟩
  | pairs closest => exact ⟨_, rfl⟩
  | @creates key =>
      exfalso
      cases exec_cases hexec with
      | creates _ _ _ _ drawn =>
          have hnew : Function.update s.match_of s.next_room_id
              (some (s.new_match s.next_room_id key)) s.next_room_id = some m' := hm'
          rw [Function.update_self] at hnew
          rw [← Option.some.inj hnew] at hname
          exact key_ne_empty drawn.1 hname
      | draws_again => cases ha.fresh.symm.trans hm'
  | enters named =>
      -- a name finds a room that is there
      obtain ⟨-, hroom⟩ := (ha.names.named _ _).mp named
      have hclosed := ha.homes.closed
      rw [← hid, Ledger.name_of, Function.comp_apply, show s.ledger.rooms s.next_room_id = none
        from hclosed] at hroom
      cases hroom

/-- A waiting room has a match, without a name. -/
theorem waiting_unnamed (ha : Accounted s) {entry : Int × RoomId}
    (h : entry ∈ s.waiting_by_rating) :
    ∃ m, s.match_of entry.2 = some m ∧ m.room_name = "" := by
  obtain ⟨room, hroom, -, -, hname⟩ := ha.waits.waiting entry h
  have hhere := ha.homes.here entry.2 (by rw [hroom]; rfl)
  obtain ⟨m, hm⟩ := Option.isSome_iff_exists.mp hhere
  refine ⟨m, hm, ha.names.room_name entry.2 m "" hm ?_⟩
  rw [Ledger.name_of, Function.comp_apply, hroom, Option.map_some, hname]

end Unnamed

/-! ## The index -/

section Index

variable {s s' : RoomManager} {op : Op} {os : List RoomEvent} {owns : RoomId → PieceColor → Prop}
  {found : Option Int} {l l' : Ledger} {done : RoomId → List MatchEvent}

/-- A new entry goes behind those of its rating. -/
theorem Ordered.insert {waiting : List (Int × RoomId)} (h : Ordered waiting)
    (entry : Int × RoomId) :
    Ordered (waiting.orderedInsert (fun a b => a.1 < b.1) entry) := by
  induction waiting with
  | nil => exact List.pairwise_singleton _ _
  | cons first rest ih =>
      obtain ⟨hfirst, hrest⟩ := List.pairwise_cons.mp h
      by_cases hbefore : entry.1 < first.1
      · rw [List.orderedInsert_cons, if_pos hbefore]
        refine List.pairwise_cons.mpr ⟨?_, h⟩
        intro other hother
        rcases List.mem_cons.mp hother with rfl | hother
        · exact hbefore.le
        · exact hbefore.le.trans (hfirst other hother)
      · rw [List.orderedInsert_cons, if_neg hbefore]
        refine List.pairwise_cons.mpr ⟨?_, ih hrest⟩
        intro other hother
        rcases List.mem_cons.mp ((List.perm_orderedInsert _ entry rest).mem_iff.mp hother)
          with rfl | hother
        · exact not_lt.mp hbefore
        · exact hfirst other hother

theorem Ordered.change (h : Ordered l.waiting) (he : Effect owns found l l' done) :
    Ordered l'.waiting := by
  cases he with
  | opened rating closest => exact h.insert (rating, l.next_room_id)
  | paired id room rating closest live => exact List.Pairwise.sublist List.erase_sublist h
  | reaped id room live held last => exact List.Pairwise.sublist List.erase_sublist h
  | kept | created | counted | reserved | joined | stepped | given_back | left | lost => exact h

/-- Without a new match no room begins to wait. -/
theorem Effect.waiting_before (he : Effect owns found l l' done)
    (hfresh : l'.match_of l.next_room_id = none) {entry : Int × RoomId}
    (h : entry ∈ l'.waiting) : entry ∈ l.waiting := by
  cases he with
  | opened rating closest =>
      have hnew : Function.update l.match_of l.next_room_id
          (some (l.new_match l.next_room_id "")) l.next_room_id = none := hfresh
      rw [Function.update_self] at hnew
      cases hnew
  | paired id room rating closest live => exact List.mem_of_mem_erase h
  | reaped id room live held last => exact List.mem_of_mem_erase h
  | kept | created | counted | reserved | joined | stepped | given_back | left | lost => exact h

/-- A part of a call makes no match. -/
theorem Goes.absent {matches_ matches' : Matches} {p : Pending} {rest : Rest} {id : RoomId}
    (h : Goes matches_ p rest matches') (hid : matches_ id = none) : matches' id = none := by
  have hupdate : ∀ {j : RoomId} {m m' : Match}, matches_ j = some m →
      Function.update matches_ j (some m') id = none := by
    intro j m m' here
    rw [Function.update_of_ne]
    · exact hid
    · rintro rfl
      cases here.symm.trans hid
  cases h with
  | joined joins here taken granted => exact hupdate here
  | refused joins here refused granted => exact hupdate here
  | reconnected here back => exact hupdate here
  | left plays here => exact hupdate here
  | registered => exact hid
  | stepped joins here step other stays views queues => exact hupdate here
  | idle joins granted => exact hid

end Index

/-! ## What holds at any moment -/

section Matched

variable {s s' : RoomManager} {op : Op} {os : List RoomEvent} {log : List (Op × List RoomEvent)}
  {entry : Int × RoomId}

/-- **A room that waits lets nobody in**, unless it has just been opened for them. -/
theorem waits_of_exec (ha : Accounted s) (hexec : exec s op = .ok (s', os))
    (h : entry ∈ s'.waiting_by_rating) :
    (entry ∈ s.waiting_by_rating ∧ ∀ username rating, ¬ LetsIn s op entry.2 username rating) ∨
      (entry.2 = s.next_room_id ∧
        ∀ username rating, LetsIn s op entry.2 username rating → rating = entry.1) := by
  -- who is let in where a room waits asks for any room, and the room is the closest
  have hlets : entry ∈ s.waiting_by_rating → ∀ {username rating},
      LetsIn s op entry.2 username rating →
      (∃ connection, op = .join_any username rating connection) ∧
        s.closest_waiting_room rating = some entry.2 := by
    intro hmem username rating hin
    obtain ⟨m, hm, hname⟩ := waiting_unnamed ha hmem
    exact hin.unnamed ha hm hname
  have hother : entry ∈ s.waiting_by_rating →
      (∀ username rating connection, op ≠ .join_any username rating connection) →
      entry ∈ s.waiting_by_rating ∧ ∀ username rating, ¬ LetsIn s op entry.2 username rating := by
    intro hmem hop
    refine ⟨hmem, ?_⟩
    intro username rating hin
    obtain ⟨⟨connection, hjoin⟩, -⟩ := hlets hmem hin
    exact hop username rating connection hjoin
  cases exec_cases hexec with
  | opens username rating connection nobody =>
      have hperm := List.perm_orderedInsert (fun a b : Int × RoomId => a.1 < b.1)
        (rating, s.next_room_id) s.waiting_by_rating
      rcases List.mem_cons.mp (hperm.mem_iff.mp h) with rfl | hmem
      · have hopens : LetsIn s (.join_any username rating connection) s.next_room_id username
            rating := .opens nobody
        refine .inr ⟨rfl, ?_⟩
        intro username' rating' hin
        exact hin.rating_eq hopens
      · refine .inl ⟨hmem, ?_⟩
        intro username' rating' hin
        obtain ⟨⟨connection', hjoin⟩, hclosest⟩ := hlets hmem hin
        obtain ⟨-, rfl, -⟩ := Op.join_any.inj hjoin
        rw [nobody] at hclosest
        cases hclosest
  | pairs username rating connection id room closest here =>
      obtain ⟨hne, hmem⟩ := (ha.waits.nodup.mem_erase_iff).mp h
      refine .inl ⟨hmem, ?_⟩
      intro username' rating' hin
      obtain ⟨⟨connection', hjoin⟩, hclosest⟩ := hlets hmem hin
      obtain ⟨-, rfl, -⟩ := Op.join_any.inj hjoin
      -- the room paired waits no longer
      obtain rfl := Option.some.inj (closest.symm.trans hclosest)
      obtain ⟨r, hr, hrating, -⟩ := ha.waits.waiting entry hmem
      obtain rfl := Option.some.inj (here.symm.trans hr)
      exact hne (Prod.ext hrating.symm rfl)
  | creates | draws_again | looks_up | no_such_room | sends | sends_nowhere | leaves
  | leaves_nowhere | unheld | no_call | ticks | ticks_nothing | directory_changes =>
      exact .inl (hother h (by simp))
  | enters name username rating connection id s' os named enters =>
      cases enters with
      | nowhere | refused | back | viewer | player => exact .inl (hother h (by simp))
  | resumes call p s' os pending resumes =>
      -- `undo_join_any` would mark a room as waiting again, but it never runs (`Accounted`)
      obtain ⟨rest, hleaves, hgoes⟩ := resume_parts resumes
      have hfresh : s'.match_of s.next_room_id = none :=
        hgoes.absent ha.fresh
      exact .inl (hother ((ha.effect hexec).waiting_before hfresh h) (by simp))

/-- What holds of the rooms without a name, with the log so far. -/
structure Matched (s : RoomManager) (log : List (Op × List RoomEvent)) : Prop where
  ordered : Ordered s.waiting_by_rating
  waits : ∀ entry ∈ s.waiting_by_rating, ∀ username rating,
    Takes s.calls s.match_of entry.2 username rating → rating = entry.1
  asked : ∀ id m, s.match_of id = some m → m.room_name = "" → ∀ username rating,
    Takes s.calls s.match_of id username rating →
      ∃ connection os, (.join_any username rating connection, os) ∈ log
  close : ∀ id m, s.match_of id = some m → m.room_name = "" →
    ∀ username rating username' rating', Takes s.calls s.match_of id username rating →
      Takes s.calls s.match_of id username' rating' →
        |rating - rating'| ≤ kMatchmakingRatingGap

/-- Whoever comes second is close to whoever waits. -/
theorem Matched.pairs (h : Matched s log) {id : RoomId} {username : String} {rating rating' : Int}
    (hfirst : Takes s.calls s.match_of id username rating)
    (hclosest : s.closest_waiting_room rating' = some id) :
    |rating - rating'| ≤ kMatchmakingRatingGap := by
  obtain ⟨entry, hmem, rfl, hgap, -⟩ := (closest_in_spec h.ordered rating').2.2 id hclosest
  rw [h.waits entry hmem username rating hfirst]
  exact hgap

/-- **The step lemma.** -/
theorem Matched.exec (h : Matched s log) (ha : Accounted s)
    (hexec : RoomManager.exec s op = .ok (s', os)) : Matched s' (log ++ [(op, os)]) where
  ordered := h.ordered.change (ha.effect hexec)
  waits entry hentry username rating htakes := by
    rcases waits_of_exec ha hexec hentry with ⟨hmem, hnobody⟩ | ⟨hnew, hopened⟩
    · rcases takes_of_exec ha hexec htakes with hold | hin
      · exact h.waits entry hmem username rating hold
      · exact absurd hin (hnobody username rating)
    · rcases takes_of_exec ha hexec htakes with hold | hin
      · rw [hnew] at hold
        exact absurd hold (takes_fresh ha)
      · exact hopened username rating hin
  asked id m' hm' hname username rating htakes := by
    have hlast : (∃ connection, op = .join_any username rating connection) →
        ∃ connection os', (.join_any username rating connection, os') ∈ log ++ [(op, os)] := by
      rintro ⟨connection, rfl⟩
      exact ⟨connection, os, List.mem_append_right _ (List.mem_singleton_self _)⟩
    rcases unnamed_before ha hexec hm' hname with ⟨m, hm, hbefore⟩ | rfl
    · rcases takes_of_exec ha hexec htakes with hold | hin
      · obtain ⟨connection, os', hmem⟩ := h.asked id m hm hbefore username rating hold
        exact ⟨connection, os', List.mem_append_left _ hmem⟩
      · exact hlast (hin.unnamed ha hm hbefore).1
    · rcases takes_of_exec ha hexec htakes with hold | hin
      · exact absurd hold (takes_fresh ha)
      · exact hlast (hin.opening ha hexec hm' hname)
  close id m' hm' hname username rating username' rating' htakes htakes' := by
    -- of two takers both were there, or one is let in to the other, or both are the one let in
    rcases takes_of_exec ha hexec htakes with hold | hin
    · rcases takes_of_exec ha hexec htakes' with hold' | hin'
      · rcases unnamed_before ha hexec hm' hname with ⟨m, hm, hbefore⟩ | rfl
        · exact h.close id m hm hbefore _ _ _ _ hold hold'
        · exact absurd hold (takes_fresh ha)
      · rcases unnamed_before ha hexec hm' hname with ⟨m, hm, hbefore⟩ | rfl
        · exact h.pairs hold (hin'.unnamed ha hm hbefore).2
        · exact absurd hold (takes_fresh ha)
    · rcases takes_of_exec ha hexec htakes' with hold' | hin'
      · rcases unnamed_before ha hexec hm' hname with ⟨m, hm, hbefore⟩ | rfl
        · rw [abs_sub_comm]
          exact h.pairs hold' (hin.unnamed ha hm hbefore).2
        · exact absurd hold' (takes_fresh ha)
      · rw [hin.rating_eq hin', sub_self, abs_zero]
        decide

theorem matched_new (board_factory : RoomId → Board) (config : MotionFactory) (on_result : Bool)
    (disconnect_grace_ms : Int) (directory : Option (String → Option String))
    (self_url : String) :
    Matched (new board_factory config on_result disconnect_grace_ms directory self_url) [] where
  ordered := List.Pairwise.nil
  waits _ hentry := absurd hentry List.not_mem_nil
  asked _ _ hm := absurd hm nofun
  close _ _ hm := absurd hm nofun

/-- **No far pair in any run.** -/
theorem matched_of_reach {board_factory : RoomId → Board} {config : MotionFactory}
    {on_result : Bool} {disconnect_grace_ms : Int} {directory : Option (String → Option String)}
    {self_url : String}
    (hr : Reach (logged exec) anyStep
      (new board_factory config on_result disconnect_grace_ms directory self_url) s log) :
    Accounted s ∧ Matched s log := by
  refine hr.invariant (P := fun s log => Accounted s ∧ Matched s log)
    ⟨accounted_new _ _ _ _ _ _, matched_new _ _ _ _ _ _⟩ ?_
  rintro s log op s' entries - ⟨ha, h⟩ - hstep
  obtain ⟨os, hexec, rfl⟩ := logged_ok_iff.mp hstep
  exact ⟨ha.exec hexec, h.exec ha hexec⟩

end Matched

/-- The two that play in a match without a name have asked for any room, with ratings within
the gap of each other. -/
theorem players_within_gap {board_factory : RoomId → Board} {config : MotionFactory}
    {on_result : Bool} {disconnect_grace_ms : Int} {directory : Option (String → Option String)}
    {self_url : String} {s : RoomManager} {log : List (Op × List RoomEvent)}
    (hrun : Reach (logged exec) anyStep
      (new board_factory config on_result disconnect_grace_ms directory self_url) s log)
    {id : RoomId} {m : Match} (hm : s.match_of id = some m) (hname : m.room_name = "")
    (hplayers : ∀ color, (m.audience.player color).isSome) :
    (∀ color, ∃ connection os, (.join_any (m.audience.username_of color)
      (m.audience.rating_of color) connection, os) ∈ log) ∧
    |m.audience.rating_of .White - m.audience.rating_of .Black| ≤ kMatchmakingRatingGap := by
  obtain ⟨-, h⟩ := matched_of_reach hrun
  have htakes : ∀ color, Takes s.calls s.match_of id (m.audience.username_of color)
      (m.audience.rating_of color) := fun color => .plays m color hm ⟨hplayers color, rfl, rfl⟩
  refine ⟨?_, h.close id m hm hname _ _ _ _ (htakes .White) (htakes .Black)⟩
  intro color
  exact h.asked id m hm hname _ _ (htakes color)

/-- **Matchmaking pairs the close.** With an index that is ordered, as a multimap is,
`closest_waiting_room` finds a room exactly if some entry is within the gap, and then one
whose entry is as close as any, with the gap that a scan of all entries finds. And in
every run of the rooms the index is ordered, and the two that play in a match without a
name have asked for any room, with ratings within the gap of each other. -/
theorem closest_within_gap :
    (∀ (s : RoomManager) (rating : Int), Ordered s.waiting_by_rating →
      ((s.closest_waiting_room rating).isSome ↔
        ∃ entry ∈ s.waiting_by_rating, gap_to rating entry ≤ kMatchmakingRatingGap) ∧
      (s.closest_waiting_room rating).isSome
        = (closest_by_scan s.waiting_by_rating rating).isSome ∧
      ∀ id, s.closest_waiting_room rating = some id → ∃ entry ∈ s.waiting_by_rating,
        entry.2 = id ∧ gap_to rating entry ≤ kMatchmakingRatingGap ∧
        (∀ other ∈ s.waiting_by_rating, gap_to rating entry ≤ gap_to rating other) ∧
        (closest_by_scan s.waiting_by_rating rating).map Prod.fst = some (gap_to rating entry)) ∧
    ∀ (board_factory : RoomId → Board) (config : MotionFactory) (on_result : Bool)
      (disconnect_grace_ms : Int) (directory : Option (String → Option String))
      (self_url : String) (s : RoomManager) (log : List (Op × List RoomEvent)),
      Reach (logged exec) anyStep
        (new board_factory config on_result disconnect_grace_ms directory self_url) s log →
      Ordered s.waiting_by_rating ∧
      ∀ id m, s.match_of id = some m → m.room_name = "" →
        (∀ color, (m.audience.player color).isSome) →
        (∀ color, ∃ connection os, (.join_any (m.audience.username_of color)
          (m.audience.rating_of color) connection, os) ∈ log) ∧
        |m.audience.rating_of .White - m.audience.rating_of .Black| ≤ kMatchmakingRatingGap := by
  refine ⟨fun s rating hordered => closest_in_spec hordered rating, ?_⟩
  intro board_factory config on_result disconnect_grace_ms directory self_url s log hrun
  obtain ⟨-, h⟩ := matched_of_reach hrun
  exact ⟨h.ordered, fun id m => players_within_gap hrun⟩

/-- Two that ask within the gap meet, in the order in which their calls come to the match;
while one of them waits, a third who asks from further away finds no room. -/
theorem two_within_the_gap : ∃ s log m,
    run (logged exec) (new (fun _ => .empty 8 8) shipped_factory false 20000 none "")
      [.join_any "a" 1200 ⟨1⟩, .join_any "b" 1290 ⟨2⟩, .proceed 1, .proceed 0] = .ok (s, log) ∧
    s.match_of 1 = some m ∧ m.audience.rating_of .White = 1290 ∧
    m.audience.rating_of .Black = 1200 ∧
    |m.audience.rating_of .White - m.audience.rating_of .Black| ≤ kMatchmakingRatingGap ∧
    (closest_waiting_room { s with waiting_by_rating := [(1200, 1)] } 1301).isSome = false := by
  obtain ⟨⟨s, log⟩, hrun, hp⟩ := exists_ok_such
    (p := fun r : RoomManager × List (Op × List RoomEvent) =>
      (r.1.match_of 1).any fun m : Match => decide (m.room_name = "" ∧
        (m.audience.player .White).isSome ∧ (m.audience.player .Black).isSome ∧
        m.audience.rating_of .White = 1290 ∧ m.audience.rating_of .Black = 1200))
    (x := run (logged exec) (new (fun _ => .empty 8 8) shipped_factory false 20000 none "")
      [.join_any "a" 1200 ⟨1⟩, .join_any "b" 1290 ⟨2⟩, .proceed 1, .proceed 0]) (by decide)
  obtain ⟨m, hm, hp⟩ := (Option.any_eq_true _ _).mp hp
  obtain ⟨hname, hwhite, hblack, hrated⟩ := of_decide_eq_true hp
  obtain ⟨hfinds, hruns⟩ := closest_within_gap
  have hplayers : ∀ color, (m.audience.player color).isSome := fun color => by
    cases color
    · exact hwhite
    · exact hblack
  obtain ⟨-, hboth⟩ := hruns _ _ _ _ _ _ s log (reach_of_run hrun)
  refine ⟨s, log, m, hrun, hm, hrated.1, hrated.2, (hboth 1 m hm hname hplayers).2, ?_⟩
  have hfar := (hfinds { s with waiting_by_rating := [(1200, 1)] } 1301
    (List.pairwise_singleton _ _)).1
  rw [Bool.eq_false_iff, ne_eq, hfar]
  show ¬∃ entry ∈ [((1200 : Int), 1)], gap_to 1301 entry ≤ kMatchmakingRatingGap
  decide

end RoomManager

end KungFuChess
