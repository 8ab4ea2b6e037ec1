/-
**Who has a seat in a match.**

`seats_filled_` counts the players (`Seating.filled`), since `reseat` only ever
gives a seat back to a colour that had one (`Seating.present`). That holds as long
as only a player is reported gone, which is all that the rooms ask of a match.
-/
import KungFuChess.Presence

set_option autoImplicit false

namespace KungFuChess

open Machine

namespace MatchAudience

/-- How many colours have a player. -/
def players (a : MatchAudience) : Nat :=
  (a.player .White).toList.length + (a.player .Black).toList.length

theorem length_toList {α : Type*} (o : Option α) :
    o.toList.length = if o.isSome then 1 else 0 := by
  cases o <;> rfl

/-- Only who plays matters, not on which connection. -/
theorem players_congr {a a' : MatchAudience}
    (h : ∀ c, (a'.player c).isSome = (a.player c).isSome) : a'.players = a.players := by
  unfold players
  simp only [length_toList, h]

theorem players_seat {a a' : MatchAudience} {color : PieceColor} {username : String}
    {connection : Connection} (h : SeatTaken a a' color username connection) :
    a'.players = a.players + 1 := by
  unfold players
  have hfree := h.free
  cases color with
  | White =>
      rw [h.player, h.player, if_pos rfl, if_neg nofun, hfree]
      simp only [Option.toList_some, Option.toList_none, List.length_singleton, List.length_nil]
      omega
  | Black =>
      rw [h.player, h.player, if_pos rfl, if_neg nofun, hfree]
      simp only [Option.toList_some, Option.toList_none, List.length_singleton, List.length_nil]

/-- A seat taken drives nobody out. -/
theorem SeatTaken.player_stays {a a' : MatchAudience} {color : PieceColor} {username : String}
    {connection : Connection} (h : SeatTaken a a' color username connection) {c : PieceColor}
    (hc : (a.player c).isSome) : (a'.player c).isSome := by
  rw [h.player]
  split_ifs
  · rfl
  · exact hc

theorem players_full {a : MatchAudience} (h : ∀ c, (a.player c).isSome) : a.players = 2 := by
  unfold players
  rw [length_toList, length_toList, if_pos (h _), if_pos (h _)]

end MatchAudience

namespace Match

/-- The seats, the counter and the graces of a match agree. -/
structure Seating (m : Match) : Prop where
  filled : m.audience.seats_filled = m.audience.players
  present : ∀ c, m.graced c → (m.audience.player c).isSome

theorem seating_new (board : Board) (config : MotionFactory) (on_result : Bool)
    (disconnect_grace_ms release_delay_ms : Int) (room_name : String) :
    Seating (.new board config on_result disconnect_grace_ms release_delay_ms room_name) where
  filled := rfl
  present c h := by
    rcases h with h | h <;> cases h

/-- What a step leaves of the seats: who plays, and how many. -/
structure SeatsKept (m m' : Match) : Prop where
  seating : Seating m'
  filled : m'.audience.seats_filled = m.audience.seats_filled
  player : ∀ c, (m.audience.player c).isSome → (m'.audience.player c).isSome

theorem Seating.keep {m m' : Match} (h : Seating m)
    (hfilled : m'.audience.seats_filled = m.audience.seats_filled)
    (hplayer : ∀ c, (m'.audience.player c).isSome = (m.audience.player c).isSome)
    (hgraced : ∀ c, m'.graced c → (m.audience.player c).isSome) : SeatsKept m m' where
  seating := by
    refine ⟨?_, fun c hg => ?_⟩
    · rw [hfilled, h.filled, MatchAudience.players_congr hplayer]
    · rw [hplayer]
      exact hgraced c hg
  filled := hfilled
  player c hc := by
    rw [hplayer]
    exact hc

/-! ## Ticks -/

/-- A countdown gives nobody a grace who had none. -/
theorem countdown_graced {m : Match} {now : Int} {c : PieceColor}
    (h : (m.advance_disconnect_countdown now).1.graced c) : m.graced c := by
  have hadvance : ∀ w : DisconnectWatch, (w.advance now).1.pending = none ∧
      ((w.advance now).1.watching = some c → w.pending = some c ∨ w.watching = some c) := by
    intro w
    obtain ⟨hp, _, hw⟩ := w.open_countdown_spec now
    -- a countdown opens only for the drop that was pending
    have hwatch : (w.open_countdown now).watching = some c →
        w.pending = some c ∨ w.watching = some c := by
      rw [hw]
      split_ifs
      · exact .inr
      · exact .inl
    unfold DisconnectWatch.advance
    dsimp only
    cases hc : (w.open_countdown now).watching with
    | none => exact ⟨hp, fun hnone => absurd (hc.symm.trans hnone) nofun⟩
    | some color =>
        unfold DisconnectWatch.count
        dsimp only
        split_ifs
        · exact ⟨hp, nofun⟩
        · exact ⟨hp, hwatch⟩
        · exact ⟨hp, hwatch⟩
  obtain ⟨hnone, hwatching⟩ := hadvance m.disconnect_watch
  have hafter : ∀ w : DisconnectWatch, w = (m.disconnect_watch.advance now).1 →
      (w.pending = some c ∨ w.watching = some c) → m.graced c := by
    rintro w rfl (hg | hg)
    · exact absurd (hnone.symm.trans hg) nofun
    · exact hwatching hg
  unfold graced advance_disconnect_countdown at h
  split_ifs at h with hover
  · rcases h with h | h <;> cases h
  · dsimp only at h
    cases hexp : (m.disconnect_watch.advance now).2.expired_for with
    | some loser =>
        rw [hexp] at h
        dsimp only at h
        rw [report_result_rest] at h
        exact hafter _ rfl h
    | none =>
        rw [hexp] at h
        dsimp only at h
        split at h
        · exact hafter _ rfl h
        · exact hafter _ rfl h

theorem tick_graced {m m' : Match} {now : Int} {elapsed_ms : Nat} {os : List MatchEvent}
    {c : PieceColor} (h : m.tick now elapsed_ms = .ok (m', os)) (hg : m'.graced c) :
    m.graced c := by
  obtain ⟨m₁, answers, events, hadv, rfl, _⟩ := tick_ok h
  have hw : m₁.disconnect_watch = m.disconnect_watch := by rw [(advance_board_spec hadv).rest]
  unfold announce graced at hg
  dsimp only at hg
  rw [(release_watch _ now).2] at hg
  have hbefore := countdown_graced hg
  unfold graced at hbefore ⊢
  rwa [announce_resignation_watch, announce_arrivals_watch, hw] at hbefore

/-- A tick leaves the audience alone. -/
theorem tick_audience {m m' : Match} {now : Int} {elapsed_ms : Nat} {os : List MatchEvent}
    (h : m.tick now elapsed_ms = .ok (m', os)) : m'.audience = m.audience := by
  obtain ⟨m₁, answers, events, hadv, rfl, _⟩ := tick_ok h
  rw [(announce_announced m₁ now events m₁.revision).rest, (advance_board_spec hadv).rest]

/-! ## Calls -/

/-- **Every call but `join` keeps the seats**, as long as only a player is reported
gone. -/
theorem seating_exec {m m' : Match} {call : Call} {os : List MatchEvent} (h : Seating m)
    (hother : ∀ username rating connection, call ≠ .join username rating connection)
    (hplays : ∀ color, call = .on_disconnect color → (m.audience.player color).isSome)
    (hexec : exec m call = .ok (m', os)) : SeatsKept m m' := by
  cases call with
  | join username rating connection => exact absurd rfl (hother username rating connection)
  | join_spectator connection =>
      obtain ⟨rfl, _⟩ := Prod.mk.inj (Except.ok.inj hexec)
      unfold join_spectator
      dsimp only
      split
      · exact h.keep rfl (fun _ => rfl) h.present
      · refine h.keep ?_ (fun c => by rw [MatchAudience.player_watch]) h.present
        unfold MatchAudience.watch
        split_ifs <;> rfl
  | leave_spectator watcher =>
      obtain ⟨rfl, _⟩ := Prod.mk.inj (Except.ok.inj hexec)
      unfold leave_spectator
      refine h.keep ?_ (fun c => by rw [MatchAudience.player_unwatch]) h.present
      unfold MatchAudience.unwatch
      split_ifs <;> rfl
  | enqueue source message =>
      obtain ⟨rfl, _⟩ := Prod.mk.inj (Except.ok.inj hexec)
      unfold enqueue
      split_ifs <;> exact h.keep rfl (fun _ => rfl) h.present
  | on_disconnect color =>
      obtain ⟨rfl, _⟩ := Prod.mk.inj (Except.ok.inj hexec)
      refine h.keep rfl (fun _ => rfl) (fun c hg => ?_)
      rcases hg with hg | hg
      · obtain rfl := Option.some.inj hg
        exact hplays _ rfl
      · exact h.present c (.inr hg)
  | reconnect color connection =>
      obtain ⟨rfl, _⟩ := Prod.mk.inj (Except.ok.inj hexec)
      rcases reconnect_spec m color connection with ⟨hno, _⟩ | ⟨_, hwatch, _, hm, _⟩
      · rw [hno]
        exact h.keep rfl (fun _ => rfl) h.present
      · rw [hm]
        refine h.keep ?_ (fun c => ?_) (fun c hg => ?_)
        · cases color <;> rfl
        · dsimp only
          rw [MatchAudience.player_reseat]
          split_ifs with hc
          · -- the colour counted down had a player already
            rw [hc, h.present color (.inr hwatch)]
            rfl
          · rfl
        · rcases hg with hg | hg <;> cases hg
  | tick now elapsed_ms =>
      refine h.keep ?_ (fun c => ?_) (fun c hg => h.present c (tick_graced hexec hg))
      · rw [tick_audience hexec]
      · rw [tick_audience hexec]

/-- What `join` does to the seats. -/
structure Joined (m m' : Match) (color : PieceColor) (username : String)
    (connection : Connection) : Prop where
  seating : Seating m'
  taken : MatchAudience.SeatTaken m.audience m'.audience color username connection

/-- Who joins fills a seat. -/
theorem seating_join {m : Match} {username : String} {rating : Int} {connection : Connection}
    {color : PieceColor} (h : Seating m)
    (htaken : (m.join username rating connection).2 = some color) :
    Joined m (m.join username rating connection).1.1 color username connection := by
  unfold join at htaken ⊢
  rcases hs : m.audience.seat username rating connection connection with ⟨a, assigned⟩
  rw [hs] at htaken
  cases assigned with
  | none => cases htaken
  | some c =>
      obtain rfl := Option.some.inj htaken
      have ht := MatchAudience.seat_spec hs
      refine ⟨⟨?_, fun c hg => ?_⟩, ht⟩
      · show a.seats_filled = a.players
        rw [ht.seats_filled, MatchAudience.players_seat ht, h.filled]
      · exact ht.player_stays (h.present c hg)

/-- Nobody is refused while a seat is free. -/
theorem seats_full_of_refused {m : Match} {username : String} {rating : Int}
    {connection : Connection} (h : Seating m)
    (hrefused : (m.join username rating connection).2 = none) : m.audience.seats_filled = 2 := by
  unfold join at hrefused
  rcases hs : m.audience.seat username rating connection connection with ⟨a, assigned⟩
  rw [hs] at hrefused
  cases assigned with
  | none => rw [h.filled, MatchAudience.players_full (MatchAudience.seat_refused hs).2]
  | some c => cases hrefused

/-- What a call other than `join` makes of the audience. -/
inductive Rostered (a : MatchAudience) : MatchAudience → Prop
  | same : Rostered a a
  | watched (connection : Connection) : Rostered a (a.watch connection connection).1
  | unwatched (watcher : WatcherId) : Rostered a (a.unwatch watcher)
  | reseated (color : PieceColor) (connection : Connection) :
      Rostered a (a.reseat color connection connection)

theorem exec_rostered {m m' : Match} {call : Call} {os : List MatchEvent}
    (hother : ∀ username rating connection, call ≠ .join username rating connection)
    (h : exec m call = .ok (m', os)) : Rostered m.audience m'.audience := by
  cases call with
  | join username rating connection => exact absurd rfl (hother username rating connection)
  | join_spectator connection =>
      obtain ⟨rfl, _⟩ := Prod.mk.inj (Except.ok.inj h)
      unfold join_spectator
      dsimp only
      split
      · exact .same
      · exact .watched connection
  | leave_spectator watcher =>
      obtain ⟨rfl, _⟩ := Prod.mk.inj (Except.ok.inj h)
      exact .unwatched watcher
  | enqueue source message =>
      obtain ⟨rfl, _⟩ := Prod.mk.inj (Except.ok.inj h)
      unfold enqueue
      split_ifs <;> exact .same
  | on_disconnect color =>
      obtain ⟨rfl, _⟩ := Prod.mk.inj (Except.ok.inj h)
      exact .same
  | reconnect color connection =>
      obtain ⟨rfl, _⟩ := Prod.mk.inj (Except.ok.inj h)
      rcases reconnect_spec m color connection with ⟨hno, _⟩ | ⟨_, _, _, hm, _⟩
      · rw [hno]
        exact .same
      · rw [hm]
        exact .reseated color connection
  | tick now elapsed_ms =>
      rw [tick_audience h]
      exact .same

/-- What a call other than `join` does not do to the audience. -/
structure SeatsSame (a a' : MatchAudience) : Prop where
  filled : a'.seats_filled = a.seats_filled
  username_of : ∀ c, a'.username_of c = a.username_of c
  player : ∀ c, (a.player c).isSome → (a'.player c).isSome

theorem SeatsSame.refl (a : MatchAudience) : SeatsSame a a := ⟨rfl, fun _ => rfl, fun _ => id⟩

theorem exec_seats_same {m m' : Match} {call : Call} {os : List MatchEvent}
    (hother : ∀ username rating connection, call ≠ .join username rating connection)
    (h : exec m call = .ok (m', os)) : SeatsSame m.audience m'.audience := by
  have hroster := exec_rostered hother h
  generalize m'.audience = a' at hroster ⊢
  cases hroster with
  | same => exact .refl _
  | watched connection =>
      refine ⟨?_, fun c => ?_, fun c hc => by rwa [MatchAudience.player_watch]⟩
      · unfold MatchAudience.watch
        split_ifs <;> rfl
      · unfold MatchAudience.watch
        split_ifs <;> cases c <;> rfl
  | unwatched watcher =>
      refine ⟨?_, fun c => ?_, fun c hc => by rwa [MatchAudience.player_unwatch]⟩
      · unfold MatchAudience.unwatch
        split_ifs <;> rfl
      · unfold MatchAudience.unwatch
        split_ifs <;> cases c <;> rfl
  | reseated color connection =>
      refine ⟨by cases color <;> rfl, MatchAudience.username_of_reseat _ _ _, fun c hc => ?_⟩
      rw [MatchAudience.player_reseat]
      split_ifs
      · rfl
      · exact hc

/-- What `join` says and does, when it seats somebody and when it refuses. -/
theorem join_spec (m : Match) (username : String) (rating : Int) (connection : Connection) :
    (m.join username rating connection = ((m, []), none)) ∨
    ∃ color rest, (m.join username rating connection).2 = some color ∧
      MatchAudience.SeatTaken m.audience (m.join username rating connection).1.1.audience color
        username connection ∧
      Quiet rest ∧ (m.join username rating connection).1.2 = .seated color :: rest := by
  unfold join
  rcases hs : m.audience.seat username rating connection connection with ⟨a, assigned⟩
  cases assigned with
  | none => exact .inl rfl
  | some color =>
      refine .inr ⟨color, _, rfl, MatchAudience.seat_spec hs, ?_, rfl⟩
      -- the welcome and the start are messages
      refine List.forall_mem_cons.mpr ⟨rfl, ?_⟩
      split_ifs
      · exact quiet_cons_broadcast quiet_nil _ _
      · exact quiet_nil

end Match

end KungFuChess
