/-
**Who is present in a match.**

The presence of a colour is read off the trace: its latest connection event is a
`seated`, a `returned` or a `dropped`. `DisconnectWatch` has one slot for a drop
that is reported and one for a drop that is counted down, and there are two
players. A second drop overwrites or loses the first, which does no harm as long
as the match stays frozen for one of them; but `cancel` empties both slots. So a
match unfreezes with a player missing exactly when one player returns while the
other is gone (`forgotten_drop`), and in every other run a match with an absent
player is frozen (`frozen_while_dropped`).
-/
import KungFuChess.Conservation
import KungFuChess.MatchSteps

set_option autoImplicit false

namespace KungFuChess

open Machine

namespace Match

/-! ## Connection events -/

/-- The colour whose presence an event is about. -/
def MatchEvent.about : MatchEvent → Option PieceColor
  | .seated color => some color
  | .returned color => some color
  | .dropped color => some color
  | _ => none

/-- The latest connection event of a colour. -/
def latest (tr : List MatchEvent) (color : PieceColor) : Option MatchEvent :=
  (tr.filter fun e => MatchEvent.about e = some color).getLast?

/-- The colour is absent: its latest connection event is a drop. -/
def dropped (tr : List MatchEvent) (color : PieceColor) : Prop :=
  latest tr color = some (.dropped color)

instance (tr : List MatchEvent) (color : PieceColor) : Decidable (dropped tr color) :=
  inferInstanceAs (Decidable (_ = _))

/-- A drop was reported of a colour before its seat was taken. -/
def dropped_unseated (tr : List MatchEvent) (color : PieceColor) : Prop :=
  ∃ before after, tr = before ++ .dropped color :: after ∧ .seated color ∉ before

theorem latest_append (tr os : List MatchEvent) (color : PieceColor) :
    latest (tr ++ os) color = (latest os color).or (latest tr color) := by
  unfold latest
  rw [List.filter_append, List.getLast?_append]

/-- An output that is about nobody's presence. -/
def Quiet (os : List MatchEvent) : Prop := ∀ e ∈ os, MatchEvent.about e = none

theorem Quiet.append {os₁ os₂ : List MatchEvent} (h₁ : Quiet os₁) (h₂ : Quiet os₂) :
    Quiet (os₁ ++ os₂) := by
  intro e he
  rcases List.mem_append.mp he with he | he
  · exact h₁ e he
  · exact h₂ e he

theorem Quiet.latest {os : List MatchEvent} (h : Quiet os) (color : PieceColor) :
    latest os color = none := by
  have hnil : os.filter (fun e => MatchEvent.about e = some color) = [] := by
    rw [List.filter_eq_nil_iff]
    intro e he
    rw [h e he]
    simp
  unfold Match.latest
  rw [hnil]
  rfl

/-- Quiet events do not bring a player back, nor take one away. -/
theorem Quiet.dropped_append {os : List MatchEvent} (h : Quiet os) (tr : List MatchEvent)
    (color : PieceColor) : dropped (tr ++ os) color ↔ dropped tr color := by
  unfold dropped
  rw [latest_append, h.latest, Option.none_or]

/-- After a connection event of one colour, that event is its latest. -/
theorem latest_cons_quiet {os : List MatchEvent} (h : Quiet os) (tr : List MatchEvent)
    (e : MatchEvent) (color : PieceColor) :
    latest (tr ++ e :: os) color
      = if MatchEvent.about e = some color then some e else latest tr color := by
  have hsplit : tr ++ e :: os = (tr ++ [e]) ++ os := by simp
  rw [hsplit, latest_append, h.latest, Option.none_or, latest_append]
  unfold latest
  split_ifs with he
  · rw [List.filter_cons_of_pos (by simpa using he)]
    rfl
  · rw [List.filter_cons_of_neg (by simpa using he)]
    rfl

theorem dropped_mem {tr : List MatchEvent} {color : PieceColor} (h : dropped tr color) :
    .dropped color ∈ tr :=
  (List.mem_filter.mp (List.mem_of_getLast? h)).1

theorem dropped_unseated_append {tr : List MatchEvent} {color : PieceColor}
    (h : dropped_unseated tr color) (os : List MatchEvent) : dropped_unseated (tr ++ os) color := by
  obtain ⟨before, after, rfl, hnot⟩ := h
  exact ⟨before, after ++ os, by simp, hnot⟩

/-! ## What a tick says of it -/

theorem quiet_of_answers {os : List MatchEvent} (h : ∀ e ∈ os, IsAnswer e) : Quiet os := by
  intro e he
  have := h e he
  unfold IsAnswer at this
  split at this <;> first | rfl | cases this

theorem quiet_report_result (m : Match) (reason : GameEndReason) (winner : Option PieceColor) :
    Quiet (m.report_result reason winner).2 := by
  unfold report_result
  split_ifs <;> simp [Quiet, MatchEvent.about]

theorem quiet_cons_broadcast {os : List MatchEvent} (h : Quiet os) (m : Match)
    (message : ServerMessage) : Quiet (m.broadcast message :: os) :=
  List.forall_mem_cons.mpr ⟨rfl, h⟩

theorem quiet_nil : Quiet [] := fun _ he => absurd he List.not_mem_nil

theorem quiet_announce_arrivals (m : Match) (events : List ArrivalEvent) (at_revision : Nat) :
    Quiet (m.announce_arrivals events at_revision).2 := by
  unfold announce_arrivals
  split_ifs
  · exact quiet_nil
  · dsimp only
    split
    · exact quiet_cons_broadcast quiet_nil m _
    · exact quiet_cons_broadcast (quiet_cons_broadcast (quiet_report_result _ _ _) _ _) m _

theorem quiet_announce_resignation (m : Match) : Quiet m.announce_resignation.2 := by
  unfold announce_resignation
  split
  · exact quiet_nil
  · exact quiet_cons_broadcast (quiet_report_result _ _ _) m _

theorem quiet_countdown (m : Match) (now : Int) :
    Quiet (m.advance_disconnect_countdown now).2 := by
  unfold advance_disconnect_countdown
  split_ifs
  · exact quiet_nil
  · dsimp only
    split
    · exact quiet_cons_broadcast (quiet_report_result _ _ _) _ _
    · split
      · exact quiet_cons_broadcast quiet_nil _ _
      · exact quiet_nil

theorem quiet_release (m : Match) (now : Int) : Quiet (m.release_if_due now).2 := by
  have hcloses : Quiet (m.audience.all_closes.map .closed) := by
    intro e he
    obtain ⟨c, _, rfl⟩ := List.mem_map.mp he
    rfl
  unfold release_if_due
  dsimp only
  split_ifs <;> first | exact hcloses | exact quiet_nil

theorem quiet_announce (m : Match) (now : Int) (events : List ArrivalEvent) (at_revision : Nat) :
    Quiet (m.announce now events at_revision).2 :=
  (((quiet_announce_arrivals m events at_revision).append (quiet_announce_resignation _)).append
    (quiet_countdown _ now)).append (quiet_release _ now)

/-- **A tick is about nobody's presence.** -/
theorem quiet_tick {m m' : Match} {now : Int} {elapsed_ms : Nat} {os : List MatchEvent}
    (h : m.tick now elapsed_ms = .ok (m', os)) : Quiet os := by
  obtain ⟨m₁, answers, events, hadv, _, rfl⟩ := tick_ok h
  exact (quiet_of_answers (advance_board_spec hadv).answers).append (quiet_announce m₁ now events _)

/-! ## What a tick does to the watch -/

theorem announce_arrivals_watch (m : Match) (events : List ArrivalEvent) (at_revision : Nat) :
    (m.announce_arrivals events at_revision).1.disconnect_watch = m.disconnect_watch := by
  unfold announce_arrivals
  split_ifs
  · rfl
  · dsimp only
    split
    · rfl
    · dsimp only
      rw [report_result_rest]

theorem announce_resignation_watch (m : Match) :
    m.announce_resignation.1.disconnect_watch = m.disconnect_watch := by
  unfold announce_resignation
  split
  · rfl
  · dsimp only
    rw [report_result_rest]

theorem countdown_watch {m : Match} {now : Int}
    (hopen : (m.advance_disconnect_countdown now).1.game_over = false) :
    (m.advance_disconnect_countdown now).1.disconnect_watch = (m.disconnect_watch.advance now).1 ∧
      (m.disconnect_watch.advance now).2.expired_for = none := by
  unfold advance_disconnect_countdown at hopen ⊢
  split_ifs at hopen ⊢ with hover
  · exact absurd (hopen.symm.trans hover) Bool.false_ne_true
  · dsimp only at hopen ⊢
    cases hexp : (m.disconnect_watch.advance now).2.expired_for with
    -- an expiry ends the game, which this tick left open
    | some loser =>
        rw [hexp] at hopen
        dsimp only at hopen
        rw [report_result_rest] at hopen
        cases hopen
    | none => cases (m.disconnect_watch.advance now).2.seconds_remaining <;> exact ⟨rfl, rfl⟩

theorem release_watch (m : Match) (now : Int) :
    (m.release_if_due now).1.game_over = m.game_over ∧
      (m.release_if_due now).1.disconnect_watch = m.disconnect_watch := by
  unfold release_if_due
  dsimp only
  split_ifs <;> exact ⟨rfl, rfl⟩

/-- **The watch after a tick** that leaves the match open. -/
theorem tick_watch {m m' : Match} {now : Int} {elapsed_ms : Nat} {os : List MatchEvent}
    (h : m.tick now elapsed_ms = .ok (m', os)) (hopen : m'.game_over = false) :
    m'.disconnect_watch = (m.disconnect_watch.advance now).1 ∧
      (m.disconnect_watch.advance now).2.expired_for = none := by
  obtain ⟨m₁, answers, events, hadv, rfl, _⟩ := tick_ok h
  have hw : m₁.disconnect_watch = m.disconnect_watch := by rw [(advance_board_spec hadv).rest]
  unfold announce at hopen ⊢
  dsimp only at hopen ⊢
  rw [(release_watch _ now).1] at hopen
  rw [(release_watch _ now).2]
  have hcount := countdown_watch hopen
  rw [announce_resignation_watch, announce_arrivals_watch, hw] at hcount
  exact hcount

/-! ## The invariant -/

/-- A grace for this colour is pending or counting down. -/
def graced (m : Match) (color : PieceColor) : Prop :=
  m.disconnect_watch.pending = some color ∨ m.disconnect_watch.watching = some color

/-- What the watch of an open match knows of who is present. -/
structure Watched (m : Match) (tr : List MatchEvent) : Prop where
  mirrors : m.disconnect_watch.Mirrors
  /-- Somebody who is absent has a grace, though it need not be theirs. -/
  active : ∀ c, dropped tr c → m.disconnect_watch.active
  graced : ∀ c, m.graced c → dropped tr c ∨ dropped_unseated tr c
  seated : ∀ c, .seated c ∈ tr → (m.audience.player c).isSome

/-- A step that reports nobody and starts or ends no grace. -/
theorem Watched.quiet {m m' : Match} {tr os : List MatchEvent} (h : Watched m tr) (hq : Quiet os)
    (hmirrors : m'.disconnect_watch.Mirrors)
    (hactive : m.disconnect_watch.active → m'.disconnect_watch.active)
    (hgraced : ∀ c, m'.graced c → m.graced c)
    (hplayer : ∀ c, (m.audience.player c).isSome → (m'.audience.player c).isSome) :
    Watched m' (tr ++ os) where
  mirrors := hmirrors
  active c hd := hactive (h.active c ((hq.dropped_append tr c).mp hd))
  graced c hg := by
    rcases h.graced c (hgraced c hg) with hd | hu
    · exact .inl ((hq.dropped_append tr c).mpr hd)
    · exact .inr (dropped_unseated_append hu os)
  seated c hc := by
    rcases List.mem_append.mp hc with hc | hc
    · exact hplayer c (h.seated c hc)
    · cases hq _ hc

/-- A tick keeps it. -/
theorem watched_tick {m m' : Match} {tr os : List MatchEvent} {now : Int} {elapsed_ms : Nat}
    (h : Watched m tr) (hrun : m.tick now elapsed_ms = .ok (m', os))
    (hopen : m'.game_over = false) : Watched m' (tr ++ os) := by
  obtain ⟨hw, hexp⟩ := tick_watch hrun hopen
  have haud : m'.audience = m.audience := by
    obtain ⟨m₁, answers, events, hadv, rfl, _⟩ := tick_ok hrun
    rw [(announce_announced m₁ now events m₁.revision).rest, (advance_board_spec hadv).rest]
  obtain ⟨c, hc⟩ | ⟨_, hp, hf, hwatch⟩ := m.disconnect_watch.advance_spec now
  · rw [hexp] at hc
    cases hc
  rw [← hw] at hp hf hwatch
  -- a drop moves from pending to watched and is lost only beside another grace
  have hsame : m'.disconnect_watch.active ↔ m.disconnect_watch.active := by
    unfold DisconnectWatch.active
    rw [hp, hwatch]
    cases m.disconnect_watch.watching <;> cases m.disconnect_watch.pending <;> simp
  refine h.quiet (quiet_tick hrun) ?_ hsame.mpr (fun c hg => ?_) (fun c hc => by rwa [haud])
  · unfold DisconnectWatch.Mirrors
    rw [hf, hsame]
    exact h.mirrors
  · unfold Match.graced at hg ⊢
    rw [hp, hwatch] at hg
    rcases hg with hg | hg
    · cases hg
    · split_ifs at hg
      · exact .inr hg
      · exact .inl hg

/-! ## The calls of connections -/

/-- After a connection event of one colour, only that colour's presence is new. -/
theorem dropped_cons_quiet {os : List MatchEvent} (hq : Quiet os) (tr : List MatchEvent)
    {e : MatchEvent} {color : PieceColor} (he : MatchEvent.about e = some color)
    (c : PieceColor) :
    dropped (tr ++ e :: os) c ↔ if c = color then e = .dropped c else dropped tr c := by
  unfold dropped
  rw [latest_cons_quiet hq, he]
  by_cases hc : c = color
  · rw [if_pos hc, if_pos (by rw [hc]), Option.some_inj]
  · rw [if_neg hc, if_neg (fun h => hc (Option.some.inj h).symm)]

/-- Taking a seat makes its colour present, and ends no grace. -/
theorem watched_join {m : Match} {tr : List MatchEvent} (username : String) (rating : Int)
    (connection : Connection) (h : Watched m tr) :
    Watched (m.join username rating connection).1.1
      (tr ++ (m.join username rating connection).1.2) := by
  unfold join
  cases hs : m.audience.seat username rating connection connection with
  | mk audience assigned =>
  cases assigned with
  | none =>
      exact h.quiet quiet_nil h.mirrors id (fun _ => id) (fun _ => id)
  | some color =>
      have hseat := MatchAudience.seat_spec hs
      -- a seat that is free has never been taken
      have hnever : .seated color ∉ tr := fun hmem => by
        have := h.seated color hmem
        rw [hseat.free] at this
        cases this
      dsimp only
      generalize hos : MatchEvent.sent connection _ :: _ = os
      have hq : Quiet os := by
        subst hos
        refine List.forall_mem_cons.mpr ⟨rfl, ?_⟩
        split_ifs
        · exact quiet_cons_broadcast quiet_nil _ _
        · exact quiet_nil
      have hd := dropped_cons_quiet hq tr (e := .seated color) rfl
      refine ⟨h.mirrors, fun c hc => ?_, fun c hg => ?_, fun c hmem => ?_⟩
      · rw [hd] at hc
        split_ifs at hc
        exact h.active c hc
      · -- a grace of this colour can only stem from a drop before its seat was taken
        by_cases hc : c = color
        · refine .inr (dropped_unseated_append ?_ _)
          rcases h.graced c hg with hdrop | hu
          · obtain ⟨before, after, htr⟩ := List.append_of_mem (dropped_mem hdrop)
            refine ⟨before, after, htr, fun hmem => hnever ?_⟩
            rw [htr, ← hc]
            exact List.mem_append_left _ hmem
          · exact hu
        · rw [hd, if_neg hc]
          exact (h.graced c hg).imp_right (dropped_unseated_append · _)
      · rw [hseat.player]
        split_ifs with hc
        · rfl
        · rcases List.mem_append.mp hmem with hmem | hmem
          · exact h.seated c hmem
          · rcases List.mem_cons.mp hmem with heq | hmem
            · exact absurd (MatchEvent.seated.inj heq) hc
            · cases hq _ hmem

/-- A drop is pending at once. -/
theorem watched_on_disconnect {m : Match} {tr : List MatchEvent} (color : PieceColor)
    (h : Watched m tr) : Watched (m.on_disconnect color).1 (tr ++ (m.on_disconnect color).2) := by
  have hd := dropped_cons_quiet quiet_nil tr (e := .dropped color) rfl
  refine ⟨DisconnectWatch.mirrors_report _ _, fun _ _ => .inl rfl, fun c hg => ?_,
    fun c hmem => ?_⟩
  · have hg' : color = c ∨ m.disconnect_watch.watching = some c := hg.imp_left Option.some.inj
    rw [show (m.on_disconnect color).2 = [.dropped color] from rfl, hd]
    split_ifs with hc
    · exact .inl (by rw [hc])
    · rcases hg' with hg' | hg'
      · exact absurd hg'.symm hc
      · exact (h.graced c (.inr hg')).imp_right (dropped_unseated_append · _)
  · rcases List.mem_append.mp hmem with hmem | hmem
    · exact h.seated c hmem
    · cases List.mem_singleton.mp hmem

/-- What a reconnect does, when it succeeds and when it does not. -/
theorem reconnect_spec (m : Match) (color : PieceColor) (connection : Connection) :
    (m.reconnect color connection = ((m, []), false) ∧
      ¬ (m.game_over = false ∧ m.disconnect_watch.watching = some color)) ∨
    (m.game_over = false ∧ m.disconnect_watch.watching = some color ∧
      (m.reconnect color connection).2 = true ∧
      (m.reconnect color connection).1.1 = { m with
        disconnect_watch := m.disconnect_watch.clear
        audience := m.audience.reseat color connection connection } ∧
      ∃ os, Quiet os ∧ (m.reconnect color connection).1.2 = .returned color :: os) := by
  unfold reconnect DisconnectWatch.cancel
  split_ifs with hover hwatch
  · exact .inl ⟨rfl, fun h => absurd (h.1.symm.trans hover) Bool.false_ne_true⟩
  · simp only [not_true_eq_false, if_false]
    refine .inr ⟨by simpa using hover, hwatch, trivial, rfl, _, ?_, rfl⟩
    exact List.forall_mem_cons.mpr ⟨rfl, List.forall_mem_cons.mpr ⟨rfl,
      quiet_cons_broadcast quiet_nil _ _⟩⟩
  · exact .inl ⟨rfl, fun h => hwatch h.2⟩

/-- The condition on a step: nobody returns while the other side is absent. -/
def ReturnsToOpponent (m : Match) (tr : List MatchEvent) : Call → Prop
  | .reconnect color _ => ¬ (m.game_over = false ∧ m.disconnect_watch.watching = some color ∧
      dropped tr (opposite_of color))
  | _ => True

instance (m : Match) (tr : List MatchEvent) : ∀ call, Decidable (ReturnsToOpponent m tr call)
  | .reconnect color _ => inferInstanceAs (Decidable (¬ (m.game_over = false ∧
      m.disconnect_watch.watching = some color ∧ dropped tr (opposite_of color))))
  | .join _ _ _ | .join_spectator _ | .leave_spectator _ | .enqueue _ _ | .on_disconnect _
  | .tick _ _ => .isTrue trivial

/-- Both slots are emptied by a return, so nobody else may be absent. -/
theorem watched_reconnect {m : Match} {tr : List MatchEvent} {color : PieceColor}
    {connection : Connection} (h : Watched m tr)
    (hret : ReturnsToOpponent m tr (.reconnect color connection)) :
    Watched (m.reconnect color connection).1.1 (tr ++ (m.reconnect color connection).1.2) := by
  obtain ⟨heq, _⟩ | ⟨hover, hwatch, _, hm, os, hq, hos⟩ := m.reconnect_spec color connection
  · rw [heq]
    exact h.quiet quiet_nil h.mirrors id (fun _ => id) (fun _ => id)
  · have hd := dropped_cons_quiet hq tr (e := .returned color) rfl
    rw [hm, hos]
    refine ⟨DisconnectWatch.mirrors_clear _, fun c hc => ?_, fun c hg => ?_, fun c hmem => ?_⟩
    · rw [hd] at hc
      split_ifs at hc with hcc
      rw [eq_opposite_of_ne hcc] at hc
      exact absurd ⟨hover, hwatch, hc⟩ hret
    · rcases hg with hg | hg <;> cases hg
    · dsimp only
      rw [MatchAudience.player_reseat]
      split_ifs with hcc
      · rfl
      · rcases List.mem_append.mp hmem with hmem | hmem
        · exact h.seated c hmem
        · rcases List.mem_cons.mp hmem with heq | hmem
          · cases heq
          · cases hq _ hmem

/-- **Every call keeps it.** -/
theorem watched_exec {m m' : Match} {tr os : List MatchEvent} {call : Call}
    (h : Watched m tr) (hret : ReturnsToOpponent m tr call) (hrun : exec m call = .ok (m', os))
    (hopen : m'.game_over = false) : Watched m' (tr ++ os) := by
  cases call with
  | join username rating connection =>
      obtain ⟨rfl, rfl⟩ := Prod.mk.inj (Except.ok.inj hrun)
      exact watched_join username rating connection h
  | join_spectator connection =>
      obtain ⟨rfl, rfl⟩ := Prod.mk.inj (Except.ok.inj hrun)
      have hq : Quiet (m.join_spectator connection).1.2 := by
        unfold join_spectator
        dsimp only
        split_ifs <;> simp [Quiet, MatchEvent.about]
      have hw : (m.join_spectator connection).1.1.disconnect_watch = m.disconnect_watch ∧
          ∀ c, (m.join_spectator connection).1.1.audience.player c = m.audience.player c := by
        unfold join_spectator
        dsimp only
        split
        · exact ⟨rfl, fun _ => rfl⟩
        · exact ⟨rfl, fun c => MatchAudience.player_watch _ _ c⟩
      refine h.quiet hq ?_ ?_ (fun c hg => ?_) (fun c hc => ?_)
      · rw [hw.1]; exact h.mirrors
      · rw [hw.1]; exact id
      · unfold Match.graced at hg ⊢
        rwa [hw.1] at hg
      · rwa [hw.2]
  | leave_spectator watcher =>
      obtain ⟨rfl, rfl⟩ := Prod.mk.inj (Except.ok.inj hrun)
      refine h.quiet quiet_nil h.mirrors id (fun _ => id) (fun c hc => ?_)
      unfold leave_spectator
      rwa [MatchAudience.player_unwatch]
  | enqueue source message =>
      obtain ⟨rfl, rfl⟩ := Prod.mk.inj (Except.ok.inj hrun)
      unfold enqueue
      split_ifs <;> exact h.quiet quiet_nil h.mirrors id (fun _ => id) (fun _ => id)
  | on_disconnect color =>
      obtain ⟨rfl, rfl⟩ := Prod.mk.inj (Except.ok.inj hrun)
      exact watched_on_disconnect color h
  | reconnect color connection =>
      obtain ⟨rfl, rfl⟩ := Prod.mk.inj (Except.ok.inj hrun)
      exact watched_reconnect h hret
  | tick now elapsed_ms => exact watched_tick h hrun hopen

/-- The end of a game is never taken back. -/
theorem game_over_latched {m m' : Match} {call : Call} {os : List MatchEvent}
    (h : exec m call = .ok (m', os)) (hover : m.game_over = true) : m'.game_over = true := by
  obtain ⟨now, elapsed_ms, rfl⟩ | hcall := tick_or_not call
  · obtain ⟨m₁, answers, events, hadv, rfl, _⟩ := tick_ok h
    refine (announce_announced m₁ now events m₁.revision).latched ?_
    rw [(advance_board_spec hadv).rest, hover, Bool.true_or]
  · rw [call_frame hcall h]
    exact hover

/-- **An absent player freezes the match.** In every run in which nobody returns
while the other side is absent, an open match with an absent player is frozen, and
the grace it is frozen for is that of an absent player (or of one who was reported
gone before taking the seat). -/
theorem frozen_while_dropped {board : Board} {config : MotionFactory} {on_result : Bool}
    {disconnect_grace_ms release_delay_ms : Int} {room_name : String} {m : Match}
    {tr : List MatchEvent} {color : PieceColor}
    (hrun : Reach exec ReturnsToOpponent (Match.new board config on_result disconnect_grace_ms
      release_delay_ms room_name) m tr)
    (hopen : m.game_over = false) (habsent : dropped tr color) :
    m.state = .Frozen ∧ ∃ c, m.graced c ∧ (dropped tr c ∨ dropped_unseated tr c) := by
  have hw : m.game_over = false → Watched m tr := by
    refine Reach.invariant (P := fun m tr => m.game_over = false → Watched m tr)
      (fun _ => ⟨DisconnectWatch.mirrors_new _, ?_, ?_, ?_⟩) ?_ hrun
    · intro c hd
      cases hd
    · intro c hg
      rcases hg with hg | hg <;> cases hg
    · intro c hmem
      cases hmem
    · intro m tr call m' os _ ih hret hstep hopen'
      have hopen : m.game_over = false := by
        rw [Bool.eq_false_iff]
        intro hover
        rw [game_over_latched hstep hover] at hopen'
        cases hopen'
      exact watched_exec (ih hopen) hret hstep hopen'
  have hact := (hw hopen).active color habsent
  refine ⟨?_, ?_⟩
  · unfold state DisconnectWatch.is_frozen
    rw [hopen, (hw hopen).mirrors.mpr hact]
    rfl
  · have hgraced : ∃ c, m.graced c := by
      rcases hact with hp | hwt
      · obtain ⟨c, hc⟩ := Option.isSome_iff_exists.mp hp
        exact ⟨c, .inl hc⟩
      · obtain ⟨c, hc⟩ := Option.isSome_iff_exists.mp hwt
        exact ⟨c, .inr hc⟩
    obtain ⟨c, hc⟩ := hgraced
    exact ⟨c, hc, (hw hopen).graced c hc⟩

/-- A match whose two players drop, and the one who is counted down returns after
the other has. -/
theorem frozen_while_black_is_dropped : ∃ m tr,
    run exec (Match.new three_on_a_row shipped_factory true 20000 3000 "")
      [.join "white" 1200 ⟨1⟩, .join "black" 1200 ⟨2⟩, .on_disconnect .White, .tick 0 0,
        .on_disconnect .Black, .tick 100 100] = .ok (m, tr) ∧
    m.state = .Frozen ∧ ∃ c, m.graced c ∧ (dropped tr c ∨ dropped_unseated tr c) := by
  obtain ⟨⟨m, tr⟩, hrun, hp⟩ := exists_ok_such (p := fun r => r.1.game_over = false ∧
      dropped r.2 .Black) (x :=
    run exec (Match.new three_on_a_row shipped_factory true 20000 3000 "")
      [.join "white" 1200 ⟨1⟩, .join "black" 1200 ⟨2⟩, .on_disconnect .White, .tick 0 0,
        .on_disconnect .Black, .tick 100 100]) (by decide)
  obtain ⟨hopen, habsent⟩ := of_decide_eq_true hp
  exact ⟨m, tr, hrun, frozen_while_dropped (reach_of_meets (by decide) hrun) hopen habsent⟩

/-- **A forgotten drop.** White drops and is counted down, Black drops, White
returns: the match runs on without Black. -/
theorem forgotten_drop : ¬ ∀ (board : Board) (config : MotionFactory)
    (disconnect_grace_ms release_delay_ms : Int) (room_name : String) (m : Match)
    (tr : List MatchEvent) (color : PieceColor),
    Reach exec anyStep (Match.new board config true disconnect_grace_ms release_delay_ms
      room_name) m tr →
    m.audience.both_seats_taken = true → m.game_over = false → dropped tr color →
    m.state = .Frozen := by
  intro h
  obtain ⟨⟨m, tr⟩, hrun, hp⟩ := exists_ok_such (p := fun r =>
      r.1.audience.both_seats_taken = true ∧ r.1.game_over = false ∧ dropped r.2 .Black ∧
      r.1.state ≠ .Frozen) (x :=
    run exec (Match.new three_on_a_row shipped_factory true 20000 3000 "")
      [.join "white" 1200 ⟨1⟩, .join "black" 1200 ⟨2⟩, .on_disconnect .White, .tick 0 0,
        .on_disconnect .Black, .tick 100 100, .reconnect .White ⟨3⟩, .tick 200 100]) (by decide)
  obtain ⟨hseats, hopen, habsent, hstate⟩ := of_decide_eq_true hp
  exact hstate (h _ _ _ _ _ m tr _ (reach_of_run hrun) hseats hopen habsent)

end Match

end KungFuChess
