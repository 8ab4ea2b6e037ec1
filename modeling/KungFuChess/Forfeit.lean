/-
**A forfeit is charged only to a player who stayed away.**

One watch serves two players, and its two slots are overwritten, cancelled and
reopened. What they mean is read off the log of the run: a colour in `pending` has
dropped since the last tick (`JustDropped`), and a colour in `watching` was opened by
the first tick after its drop, at the time its deadline counts from (`Opened`). A
connection reports its end once, so no second drop moves the first under a
countdown that is already running. And the clock does not go back, so what is left of a
countdown is no more than the grace, which is an `int`: a countdown that expires was not
wrapped into the past. It therefore waited the whole grace, and in all of it the player was
away.
-/
import KungFuChess.Seating
import KungFuChess.Verdict

set_option autoImplicit false

namespace KungFuChess

open Machine Numbers

namespace DisconnectWatch

/-- The countdown after an `advance` was running before, or opens now. -/
theorem open_countdown_watching {w : DisconnectWatch} {now : Int} {c : PieceColor}
    (h : (w.open_countdown now).watching = some c) :
    (w.watching = some c ∧ (w.open_countdown now).deadline = w.deadline) ∨
      (w.pending = some c ∧ (w.open_countdown now).deadline = now + w.grace_ms) := by
  unfold open_countdown at h ⊢
  split_ifs at h ⊢ with hopen
  · exact .inr ⟨h, rfl⟩
  · exact .inl ⟨h, rfl⟩

/-- What an `advance` leaves of the countdown, unless it expires. -/
theorem advance_kept (w : DisconnectWatch) (now : Int) :
    (w.advance now).1.pending = none ∧ (w.advance now).1.grace_ms = w.grace_ms ∧
    ((w.advance now).1.watching = none ∨
      ((w.advance now).1.watching = (w.open_countdown now).watching ∧
        (w.advance now).1.deadline = (w.open_countdown now).deadline)) := by
  have hgrace : (w.open_countdown now).grace_ms = w.grace_ms := by
    unfold open_countdown
    split_ifs <;> rfl
  have hpending := (w.open_countdown_spec now).1
  unfold advance
  dsimp only
  split
  · exact ⟨hpending, hgrace, .inr ⟨rfl, rfl⟩⟩
  · unfold count
    dsimp only
    split_ifs
    · exact ⟨hpending, hgrace, .inl rfl⟩
    · exact ⟨hpending, hgrace, .inr ⟨rfl, rfl⟩⟩
    · exact ⟨hpending, hgrace, .inr ⟨rfl, rfl⟩⟩

/-- Only the colour that is counted down expires, and not before its deadline, if that is
within reach of an `int`. -/
theorem expired_spec {w : DisconnectWatch} {now : Int} {c : PieceColor}
    (h : (w.advance now).2.expired_for = some c) :
    (w.open_countdown now).watching = some c ∧
      ((w.open_countdown now).deadline - now ≤ 2147483647 →
        (w.open_countdown now).deadline ≤ now) := by
  unfold advance at h
  dsimp only at h
  split at h
  · cases h
  · rename_i color hcolor
    unfold count at h
    dsimp only at h
    split_ifs at h with hdue
    · obtain rfl := Option.some.inj h
      refine ⟨hcolor, fun hreach => ?_⟩
      by_contra hearly
      rw [to_int_of_fits ⟨by omega, hreach⟩] at hdue
      omega

end DisconnectWatch

namespace Match

/-! ## What a slot of the watch means -/

/-- No entry is about the presence of the colour. -/
def Without (color : PieceColor) (log : List (Call × List MatchEvent)) : Prop :=
  ∀ e ∈ emitted log, MatchEvent.about e ≠ some color

theorem Without.snoc {color : PieceColor} {log : List (Call × List MatchEvent)}
    (h : Without color log) {call : Call} {os : List MatchEvent}
    (hos : ∀ e ∈ os, MatchEvent.about e ≠ some color) : Without color (log ++ [(call, os)]) := by
  intro e he
  rw [emitted_append, emitted_singleton] at he
  rcases List.mem_append.mp he with he | he
  · exact h e he
  · exact hos e he

/-- No tick happened in this part of the log. -/
def Tickless (log : List (Call × List MatchEvent)) : Prop :=
  ∀ entry ∈ log, ∀ now elapsed_ms, entry.1 ≠ .tick now elapsed_ms

/-- The colour's latest connection event is a drop, and no tick came after it. -/
def JustDropped (log : List (Call × List MatchEvent)) (color : PieceColor) : Prop :=
  ∃ before since, log = before ++ (.on_disconnect color, [.dropped color]) :: since ∧
    Tickless since ∧ Without color since

/-- The colour's latest connection event is a drop, and the first tick after it was
at `opened_at`. -/
def Opened (log : List (Call × List MatchEvent)) (color : PieceColor) (opened_at : Int) : Prop :=
  ∃ before between elapsed_ms os since,
    log = before ++ (.on_disconnect color, [.dropped color])
      :: (between ++ (.tick opened_at elapsed_ms, os) :: since) ∧
    Tickless between ∧ Without color (between ++ (.tick opened_at elapsed_ms, os) :: since)

theorem JustDropped.snoc {log : List (Call × List MatchEvent)} {color : PieceColor}
    (h : JustDropped log color) {call : Call} {os : List MatchEvent}
    (hcall : ∀ now elapsed_ms, call ≠ .tick now elapsed_ms)
    (hos : ∀ e ∈ os, MatchEvent.about e ≠ some color) :
    JustDropped (log ++ [(call, os)]) color := by
  obtain ⟨before, since, rfl, hticks, habout⟩ := h
  refine ⟨before, since ++ [(call, os)], by simp, ?_, habout.snoc hos⟩
  intro entry hmem
  rcases List.mem_append.mp hmem with hmem | hmem
  · exact hticks entry hmem
  · rw [List.mem_singleton.mp hmem]
    exact hcall

theorem Opened.snoc {log : List (Call × List MatchEvent)} {color : PieceColor} {opened_at : Int}
    (h : Opened log color opened_at) {call : Call} {os : List MatchEvent}
    (hos : ∀ e ∈ os, MatchEvent.about e ≠ some color) :
    Opened (log ++ [(call, os)]) color opened_at := by
  obtain ⟨before, between, elapsed_ms, os', since, rfl, hticks, habout⟩ := h
  refine ⟨before, between, elapsed_ms, os', since ++ [(call, os)], by simp, hticks, ?_⟩
  have hsnoc : Without color (_ ++ [(call, os)]) := habout.snoc hos
  rwa [List.append_assoc, List.cons_append] at hsnoc

/-- The first tick after a drop. -/
theorem JustDropped.opened {log : List (Call × List MatchEvent)} {color : PieceColor}
    (h : JustDropped log color) {now : Int} {elapsed_ms : Nat} {os : List MatchEvent}
    (hos : ∀ e ∈ os, MatchEvent.about e ≠ some color) :
    Opened (log ++ [(.tick now elapsed_ms, os)]) color now := by
  obtain ⟨before, since, rfl, hticks, habout⟩ := h
  exact ⟨before, since, elapsed_ms, os, [], by simp, hticks, habout.snoc hos⟩

theorem latest_of_drop {before since : List (Call × List MatchEvent)} {color : PieceColor}
    (h : Without color since) :
    latest (emitted (before ++ (.on_disconnect color, [.dropped color]) :: since)) color
      = some (.dropped color) := by
  have hnone : (emitted since).filter (fun e => MatchEvent.about e = some color) = [] := by
    rw [List.filter_eq_nil_iff]
    intro e he
    simpa using h e he
  have hsplit : before ++ (Call.on_disconnect color, [MatchEvent.dropped color]) :: since
      = before ++ [(.on_disconnect color, [.dropped color])] ++ since := by simp
  rw [hsplit, emitted_append, emitted_append, emitted_singleton, latest_append, latest_append]
  unfold latest
  rw [hnone]
  simp [MatchEvent.about]

/-! ## The invariant -/

/-- A connection reports its end once: the colour has been seated, or has returned,
since it last dropped. -/
def OncePerConnection (_ : Match) (log : List (Call × List MatchEvent)) : Call → Prop
  | .on_disconnect color => latest (emitted log) color = some (.seated color) ∨
      latest (emitted log) color = some (.returned color)
  | _ => True

instance (m : Match) (log : List (Call × List MatchEvent)) :
    ∀ call, Decidable (OncePerConnection m log call)
  | .on_disconnect color => inferInstanceAs (Decidable (latest (emitted log) color
      = some (.seated color) ∨ latest (emitted log) color = some (.returned color)))
  | .join _ _ _ | .join_spectator _ | .leave_spectator _ | .enqueue _ _ | .reconnect _ _
  | .tick _ _ => .isTrue trivial

/-- The time of a call, if it is a tick. -/
def Call.time : Call → Option Int
  | .tick now _ => some now
  | .join _ _ _ | .join_spectator _ | .leave_spectator _ | .enqueue _ _ | .reconnect _ _
  | .on_disconnect _ => none

/-- The clock of the ticks does not go back. -/
def Onward (log : List (Call × List MatchEvent)) (call : Call) : Prop :=
  ∀ t ∈ log.filterMap (·.1.time), ∀ now ∈ call.time, t ≤ now

/-- The calls a match is promised: each connection ends once, and time goes on. -/
def Orderly (m : Match) (log : List (Call × List MatchEvent)) (call : Call) : Prop :=
  OncePerConnection m log call ∧ Onward log call

instance (m : Match) (log : List (Call × List MatchEvent)) (call : Call) :
    Decidable (Orderly m log call) := inferInstanceAs (Decidable (_ ∧ ∀ t ∈ _, ∀ now ∈ _, t ≤ now))

/-- A countdown was opened by a tick. -/
theorem Opened.mem_times {log : List (Call × List MatchEvent)} {color : PieceColor}
    {opened_at : Int} (h : Opened log color opened_at) :
    opened_at ∈ log.filterMap (·.1.time) := by
  obtain ⟨before, between, elapsed_ms, os, since, rfl, _⟩ := h
  simp [Call.time]

/-- What the watch knows of the log. -/
structure Counted (grace_ms : Int) (m : Match) (log : List (Call × List MatchEvent)) : Prop where
  grace : m.disconnect_watch.grace_ms = grace_ms
  present : ∀ e ∈ emitted log, ∀ c, MatchEvent.about e = some c → (m.audience.player c).isSome
  pending : ∀ c, m.disconnect_watch.pending = some c → JustDropped log c
  watching : ∀ c, m.disconnect_watch.watching = some c →
    Opened log c (m.disconnect_watch.deadline - grace_ms)

theorem JustDropped.mem {log : List (Call × List MatchEvent)} {color : PieceColor}
    (h : JustDropped log color) : .dropped color ∈ emitted log := by
  obtain ⟨before, since, rfl, _⟩ := h
  simp [emitted]

theorem Opened.mem {log : List (Call × List MatchEvent)} {color : PieceColor} {opened_at : Int}
    (h : Opened log color opened_at) : .dropped color ∈ emitted log := by
  obtain ⟨before, between, elapsed_ms, os, since, rfl, _⟩ := h
  simp [emitted]

/-- A call of a connection that leaves the watch alone. It may be about a colour that
was not there before. -/
theorem Counted.call {grace_ms : Int} {m m' : Match} {log : List (Call × List MatchEvent)}
    (h : Counted grace_ms m log) {call : Call} {os : List MatchEvent}
    (hcall : ∀ now elapsed_ms, call ≠ .tick now elapsed_ms)
    (hwatch : m'.disconnect_watch = m.disconnect_watch)
    (hplayer : ∀ c, (m.audience.player c).isSome → (m'.audience.player c).isSome)
    (hos : ∀ e ∈ os, ∀ c, MatchEvent.about e = some c →
      m.audience.player c = none ∧ (m'.audience.player c).isSome) :
    Counted grace_ms m' (log ++ [(call, os)]) := by
  -- a colour with a grace has been there, so the new events are not about it
  have habout : ∀ c, .dropped c ∈ emitted log → ∀ e ∈ os, MatchEvent.about e ≠ some c := by
    intro c hmem e he hc
    have hplays := h.present _ hmem c rfl
    rw [(hos e he c hc).1] at hplays
    cases hplays
  refine ⟨by rw [hwatch]; exact h.grace, ?_, ?_, ?_⟩
  · intro e he c hc
    rw [emitted_append, emitted_singleton] at he
    rcases List.mem_append.mp he with he | he
    · exact hplayer c (h.present e he c hc)
    · exact (hos e he c hc).2
  · intro c hp
    rw [hwatch] at hp
    have hrep := h.pending c hp
    exact hrep.snoc hcall (habout c hrep.mem)
  · intro c hw
    rw [hwatch] at hw ⊢
    have hopened := h.watching c hw
    exact hopened.snoc (habout c hopened.mem)

/-! ## The calls -/

theorem counted_on_disconnect {grace_ms : Int} {m : Match}
    {log : List (Call × List MatchEvent)} {color : PieceColor} (h : Counted grace_ms m log)
    (honce : OncePerConnection m log (.on_disconnect color)) :
    Counted grace_ms (m.on_disconnect color).1
      (log ++ [(.on_disconnect color, (m.on_disconnect color).2)]) := by
  have hos : (m.on_disconnect color).2 = [.dropped color] := rfl
  rw [hos]
  refine ⟨h.grace, ?_, ?_, ?_⟩
  · intro e he c hc
    rw [emitted_append, emitted_singleton] at he
    rcases List.mem_append.mp he with he | he
    · exact h.present e he c hc
    · rw [List.mem_singleton.mp he] at hc
      obtain rfl := Option.some.inj hc
      -- who drops has been seated, or has returned
      rcases honce with hlatest | hlatest
      · exact h.present _ (List.mem_filter.mp (List.mem_of_getLast? hlatest)).1 _ rfl
      · exact h.present _ (List.mem_filter.mp (List.mem_of_getLast? hlatest)).1 _ rfl
  · intro c hp
    obtain rfl := Option.some.inj hp
    refine ⟨log, [], rfl, ?_, ?_⟩
    · intro entry hmem
      cases hmem
    · intro e he
      cases he
  · intro c hw
    have hopened := h.watching c hw
    refine hopened.snoc ?_
    intro e he hc
    rw [List.mem_singleton.mp he] at hc
    obtain rfl := Option.some.inj hc
    -- a colour that is counted down has dropped and cannot drop again
    obtain ⟨before, between, elapsed_ms, os, since, rfl, _, habout⟩ := hopened
    rcases honce with hlatest | hlatest
    · rw [latest_of_drop habout] at hlatest
      cases hlatest
    · rw [latest_of_drop habout] at hlatest
      cases hlatest

theorem counted_reconnect {grace_ms : Int} {m : Match} {log : List (Call × List MatchEvent)}
    {color : PieceColor} {connection : Connection} (h : Counted grace_ms m log) :
    Counted grace_ms (m.reconnect color connection).1.1
      (log ++ [(.reconnect color connection, (m.reconnect color connection).1.2)]) := by
  obtain ⟨hno, _⟩ | ⟨_, hwatching, _, hm, os, hq, hos⟩ := m.reconnect_spec color connection
  · rw [hno]
    refine h.call (by simp) rfl (fun _ => id) ?_
    intro e he
    cases he
  · rw [hm, hos]
    refine ⟨h.grace, ?_, ?_, ?_⟩
    · intro e he c hc
      dsimp only
      rw [MatchAudience.player_reseat]
      by_cases hcc : c = color
      · rw [if_pos hcc]
        rfl
      · rw [if_neg hcc]
        rw [emitted_append, emitted_singleton] at he
        rcases List.mem_append.mp he with he | he
        · exact h.present e he c hc
        · rcases List.mem_cons.mp he with rfl | he
          · exact absurd (Option.some.inj hc).symm hcc
          · rw [hq e he] at hc
            cases hc
    -- both slots are empty after a return
    · intro c hp
      cases hp
    · intro c hw
      cases hw

/-- What a tick leaves of the watch. -/
theorem watch_after_tick {m m' : Match} {now : Int} {elapsed_ms : Nat} {os : List MatchEvent}
    (h : m.tick now elapsed_ms = .ok (m', os)) :
    m'.disconnect_watch = m.disconnect_watch.clear ∨
      m'.disconnect_watch = (m.disconnect_watch.advance now).1 := by
  obtain ⟨m₁, answers, events, hadv, rfl, _⟩ := tick_ok h
  have hw : m₁.disconnect_watch = m.disconnect_watch := by rw [(advance_board_spec hadv).rest]
  have hcountdown : ∀ n : Match,
      (n.advance_disconnect_countdown now).1.disconnect_watch = n.disconnect_watch.clear ∨
      (n.advance_disconnect_countdown now).1.disconnect_watch
        = (n.disconnect_watch.advance now).1 := by
    intro n
    unfold advance_disconnect_countdown
    split_ifs
    · exact .inl rfl
    · refine .inr ?_
      dsimp only
      split
      · dsimp only
        rw [report_result_rest]
      · split <;> rfl
  unfold announce
  dsimp only
  rw [(release_watch _ now).2]
  have hafter := hcountdown (m₁.announce_arrivals events m₁.revision).1.announce_resignation.1
  rwa [announce_resignation_watch, announce_arrivals_watch, hw] at hafter

theorem counted_tick {grace_ms : Int} {m m' : Match} {log : List (Call × List MatchEvent)}
    {now : Int} {elapsed_ms : Nat} {os : List MatchEvent} (h : Counted grace_ms m log)
    (hrun : m.tick now elapsed_ms = .ok (m', os)) :
    Counted grace_ms m' (log ++ [(.tick now elapsed_ms, os)]) := by
  have hquiet : ∀ c, ∀ e ∈ os, MatchEvent.about e ≠ some c := by
    intro c e he hc
    rw [quiet_tick hrun e he] at hc
    cases hc
  have hpresent : ∀ e ∈ emitted (log ++ [(.tick now elapsed_ms, os)]), ∀ c,
      MatchEvent.about e = some c → (m'.audience.player c).isSome := by
    intro e he c hc
    rw [emitted_append, emitted_singleton] at he
    rw [tick_audience hrun]
    rcases List.mem_append.mp he with he | he
    · exact h.present e he c hc
    · exact absurd hc (hquiet c e he)
  obtain hw | hw := watch_after_tick hrun
  · refine ⟨by rw [hw]; exact h.grace, hpresent, ?_, ?_⟩ <;> rw [hw]
    · intro c hp
      cases hp
    · intro c hc
      cases hc
  · obtain ⟨hpending, hgrace, hkept⟩ := m.disconnect_watch.advance_kept now
    refine ⟨by rw [hw, hgrace]; exact h.grace, hpresent, ?_, ?_⟩ <;> rw [hw]
    · intro c hp
      rw [hpending] at hp
      cases hp
    · intro c hc
      rcases hkept with hnone | ⟨hwatching, hdeadline⟩
      · rw [hnone] at hc
        cases hc
      · rw [hwatching] at hc
        rw [hdeadline]
        obtain ⟨hold, hsame⟩ | ⟨hnew, hopens⟩ := DisconnectWatch.open_countdown_watching hc
        · rw [hsame]
          exact (h.watching c hold).snoc (hquiet c)
        · rw [hopens, h.grace, Int.add_sub_cancel]
          exact (h.pending c hnew).opened (hquiet c)

theorem counted_join {grace_ms : Int} {m : Match} {log : List (Call × List MatchEvent)}
    (username : String) (rating : Int) (connection : Connection) (h : Counted grace_ms m log) :
    Counted grace_ms (m.join username rating connection).1.1
      (log ++ [(.join username rating connection,
        (m.join username rating connection).1.2)]) := by
  have hwatch : (m.join username rating connection).1.1.disconnect_watch
      = m.disconnect_watch := by
    unfold join
    dsimp only
    split <;> rfl
  obtain hrefused | ⟨color, rest, _, htaken, hquiet, hos⟩ :=
    m.join_spec username rating connection
  · rw [hrefused]
    refine h.call (by simp) rfl (fun _ => id) ?_
    intro e he
    cases he
  · refine h.call (by simp) hwatch (fun c => htaken.player_stays) ?_
    intro e he c hc
    rw [hos] at he
    rcases List.mem_cons.mp he with rfl | he
    · obtain rfl := Option.some.inj hc
      refine ⟨htaken.free, ?_⟩
      rw [htaken.player, if_pos rfl]
      rfl
    · rw [hquiet e he] at hc
      cases hc

/-- The calls of watchers and of players who stay are about nobody's presence. -/
theorem Counted.quiet {grace_ms : Int} {m m' : Match} {log : List (Call × List MatchEvent)}
    (h : Counted grace_ms m log) {call : Call} {os : List MatchEvent}
    (hcall : ∀ now elapsed_ms, call ≠ .tick now elapsed_ms)
    (hjoin : ∀ username rating connection, call ≠ .join username rating connection)
    (hwatch : m'.disconnect_watch = m.disconnect_watch) (hq : Quiet os)
    (hexec : exec m call = .ok (m', os)) : Counted grace_ms m' (log ++ [(call, os)]) := by
  refine h.call hcall hwatch (exec_seats_same hjoin hexec).player ?_
  intro e he c hc
  rw [hq e he] at hc
  cases hc

theorem counted_exec {grace_ms : Int} {m m' : Match} {log : List (Call × List MatchEvent)}
    {call : Call} {os : List MatchEvent} (h : Counted grace_ms m log)
    (honce : OncePerConnection m log call) (hexec : exec m call = .ok (m', os)) :
    Counted grace_ms m' (log ++ [(call, os)]) := by
  cases call with
  | join username rating connection =>
      obtain ⟨rfl, rfl⟩ := Prod.mk.inj (Except.ok.inj hexec)
      exact counted_join username rating connection h
  | join_spectator connection =>
      refine h.quiet (by simp) (by simp) ?_ ?_ hexec <;>
        obtain ⟨rfl, rfl⟩ := Prod.mk.inj (Except.ok.inj hexec) <;> unfold join_spectator <;>
        dsimp only
      · split <;> rfl
      · split_ifs <;> simp [Quiet, MatchEvent.about]
  | leave_spectator watcher =>
      refine h.quiet (by simp) (by simp) ?_ ?_ hexec <;>
        obtain ⟨rfl, rfl⟩ := Prod.mk.inj (Except.ok.inj hexec)
      · rfl
      · exact quiet_nil
  | enqueue source message =>
      refine h.quiet (by simp) (by simp) ?_ ?_ hexec <;>
        obtain ⟨rfl, rfl⟩ := Prod.mk.inj (Except.ok.inj hexec)
      · unfold enqueue
        split_ifs <;> rfl
      · exact quiet_nil
  | on_disconnect color =>
      obtain ⟨rfl, rfl⟩ := Prod.mk.inj (Except.ok.inj hexec)
      exact counted_on_disconnect h honce
  | reconnect color connection =>
      obtain ⟨rfl, rfl⟩ := Prod.mk.inj (Except.ok.inj hexec)
      exact counted_reconnect h
  | tick now elapsed_ms => exact counted_tick h hexec

/-! ## What is charged -/

/-- An output that reports no forfeit. -/
def Unforfeited (os : List MatchEvent) : Prop :=
  ∀ winner white black, .result .Disconnect winner white black ∉ os

theorem unforfeited_nil : Unforfeited [] := fun _ _ _ => List.not_mem_nil

theorem Unforfeited.cons_broadcast {os : List MatchEvent} (h : Unforfeited os) (m : Match)
    (message : ServerMessage) : Unforfeited (m.broadcast message :: os) := by
  intro winner white black hmem
  rcases List.mem_cons.mp hmem with heq | hmem
  · cases heq
  · exact h _ _ _ hmem

theorem mem_report {m : Match} {reason reason' : GameEndReason}
    {winner winner' : Option PieceColor} {white black : String}
    (h : .result reason' winner' white black ∈ (m.report_result reason winner).2) :
    reason' = reason ∧ winner' = winner := by
  unfold report_result at h
  split_ifs at h
  · cases h
  · obtain ⟨rfl, rfl, _, _⟩ := MatchEvent.result.inj (List.mem_singleton.mp h)
    exact ⟨rfl, rfl⟩

theorem unforfeited_report (m : Match) {reason : GameEndReason} (winner : Option PieceColor)
    (h : reason ≠ .Disconnect) : Unforfeited (m.report_result reason winner).2 :=
  fun _ _ _ hmem => h (mem_report hmem).1.symm

/-- **Only an expiry forfeits**, and the colour that expires loses. -/
theorem expired_of_forfeit {m m' : Match} {now : Int} {elapsed_ms : Nat} {os : List MatchEvent}
    {winner : Option PieceColor} {white black : String}
    (h : m.tick now elapsed_ms = .ok (m', os))
    (hmem : .result .Disconnect winner white black ∈ os) :
    ∃ loser, winner = some (opposite_of loser) ∧
      (m.disconnect_watch.advance now).2.expired_for = some loser := by
  obtain ⟨m₁, answers, events, hadv, _, rfl⟩ := tick_ok h
  have hspec := advance_board_spec hadv
  have hw : m₁.disconnect_watch = m.disconnect_watch := by rw [hspec.rest]
  have hanswers : Unforfeited answers := by
    intro winner white black hmem
    exact hspec.answers _ hmem
  have harrivals : Unforfeited (m₁.announce_arrivals events m₁.revision).2 := by
    unfold announce_arrivals
    split_ifs
    · exact unforfeited_nil
    · dsimp only
      split
      · exact unforfeited_nil.cons_broadcast _ _
      · refine ((unforfeited_report _ _ ?_).cons_broadcast _ _).cons_broadcast _ _
        split_ifs <;> simp
  have hresignation : ∀ n : Match, Unforfeited n.announce_resignation.2 := by
    intro n
    unfold announce_resignation
    split
    · exact unforfeited_nil
    · exact (unforfeited_report _ _ (by simp)).cons_broadcast _ _
  have hrelease : ∀ n : Match, Unforfeited (n.release_if_due now).2 := by
    intro n winner white black hmem
    unfold release_if_due at hmem
    dsimp only at hmem
    split_ifs at hmem
    all_goals
      first
      | (obtain ⟨c, _, hc⟩ := List.mem_map.mp hmem; cases hc)
      | cases hmem
  have hcountdown : ∀ n : Match,
      .result .Disconnect winner white black ∈ (n.advance_disconnect_countdown now).2 →
      ∃ loser, winner = some (opposite_of loser) ∧
        (n.disconnect_watch.advance now).2.expired_for = some loser := by
    intro n hin
    unfold advance_disconnect_countdown at hin
    split_ifs at hin
    · cases hin
    · dsimp only at hin
      split at hin
      · rename_i loser hloser
        rcases List.mem_cons.mp hin with heq | hin
        · cases heq
        · exact ⟨loser, (mem_report hin).2, hloser⟩
      · split at hin
        · exact absurd hin (unforfeited_nil.cons_broadcast _ _ _ _ _)
        · cases hin
  unfold announce at hmem
  dsimp only at hmem
  simp only [List.mem_append] at hmem
  rcases hmem with hin | ((hin | hin) | hin) | hin
  · exact absurd hin (hanswers _ _ _)
  · exact absurd hin (harrivals _ _ _)
  · exact absurd hin (hresignation _ _ _ _)
  · obtain ⟨loser, hwinner, hexpired⟩ := hcountdown _ hin
    rw [announce_resignation_watch, announce_arrivals_watch, hw] at hexpired
    exact ⟨loser, hwinner, hexpired⟩
  · exact absurd hin (hrelease _ _ _ _)

/-- **Only who stayed away forfeits.** In every run in which each connection reports its
end once and the ticks' times do not decrease, a call that reports a forfeit is a tick, the
loser's latest connection event is a drop, and the first tick after that drop was a whole
grace before this one. -/
theorem forfeit_of_who_stayed_away {board : Board} {config : MotionFactory} {on_result : Bool}
    {disconnect_grace_ms release_delay_ms : Int} {room_name : String} {m : Match}
    {log before after : List (Call × List MatchEvent)} {call : Call} {os : List MatchEvent}
    {winner : Option PieceColor} {white black : String}
    (hgrace : disconnect_grace_ms ≤ 2147483647)
    (hrun : Reach (logged exec) Orderly (Match.new board config on_result
      disconnect_grace_ms release_delay_ms room_name) m log)
    (hentry : log = before ++ (call, os) :: after)
    (hforfeit : .result .Disconnect winner white black ∈ os) :
    ∃ now elapsed_ms loser opened_at, call = .tick now elapsed_ms ∧
      winner = some (opposite_of loser) ∧
      Opened (before ++ [(call, os)]) loser opened_at ∧ opened_at + disconnect_grace_ms ≤ now := by
  have hcounted : ∀ {m log}, Reach (logged exec) Orderly (Match.new board config
      on_result disconnect_grace_ms release_delay_ms room_name) m log →
      Counted disconnect_grace_ms m log := by
    intro m log hreach
    refine Reach.invariant (P := Counted disconnect_grace_ms) ⟨rfl, ?_, ?_, ?_⟩ ?_ hreach
    · intro e he
      cases he
    · intro c hp
      cases hp
    · intro c hw
      cases hw
    · intro m log call m' entries _ hcounted horderly hstep
      obtain ⟨os, hexec, rfl⟩ := logged_ok_iff.mp hstep
      exact counted_exec hcounted horderly.1 hexec
  refine Reach.entries (Q := fun before call os =>
    .result .Disconnect winner white black ∈ os →
    ∃ now elapsed_ms loser opened_at, call = .tick now elapsed_ms ∧
      winner = some (opposite_of loser) ∧
      Opened (before ++ [(call, os)]) loser opened_at ∧ opened_at + disconnect_grace_ms ≤ now)
    ?_ hrun hentry hforfeit
  intro m log call m' os hreach horderly hexec hmem
  have hkept := hcounted hreach
  obtain ⟨now, elapsed_ms, rfl⟩ | hcall := tick_or_not call
  · obtain ⟨loser, hwinner, hexpired⟩ := expired_of_forfeit hexec hmem
    obtain ⟨hwatching, hdue⟩ := DisconnectWatch.expired_spec hexpired
    have hquiet : ∀ e ∈ os, MatchEvent.about e ≠ some loser := by
      intro e he hc
      rw [quiet_tick hexec e he] at hc
      cases hc
    obtain ⟨hold, hsame⟩ | ⟨hnew, hopens⟩ := DisconnectWatch.open_countdown_watching hwatching
    · have hopened := hkept.watching loser hold
      have honward := horderly.2 _ hopened.mem_times now rfl
      refine ⟨now, elapsed_ms, loser, _, rfl, hwinner, hopened.snoc hquiet, ?_⟩
      have hlate := hdue (by omega)
      omega
    -- without any grace the tick that opens the countdown is the one that ends it
    · refine ⟨now, elapsed_ms, loser, now, rfl, hwinner, (hkept.pending loser hnew).opened hquiet,
        ?_⟩
      have hsame := hkept.grace
      have hlate := hdue (by omega)
      omega
  · have hin := mem_results hmem
    rw [(call_silent hcall hexec).results] at hin
    cases hin

/-- Black drops and does not come back within the grace. -/
theorem black_stayed_away : ∃ m before os,
    run (logged exec) (Match.new three_on_a_row shipped_factory true 20000 3000 "")
      [.join "white" 1200 ⟨1⟩, .join "black" 1200 ⟨2⟩, .on_disconnect .Black, .tick 5 0,
        .tick 20005 400] = .ok (m, before ++ [(.tick 20005 400, os)]) ∧
    .result .Disconnect (some .White) "white" "black" ∈ os ∧
    ∃ now elapsed_ms loser opened_at, Call.tick 20005 400 = .tick now elapsed_ms ∧
      some .White = some (opposite_of loser) ∧
      Opened (before ++ [(.tick 20005 400, os)]) loser opened_at ∧ opened_at + 20000 ≤ now := by
  obtain ⟨⟨m, log⟩, hrun, hp⟩ := exists_ok_such (p := fun r => ∃ h : r.2 ≠ [],
      (r.2.getLast h).1 = .tick 20005 400 ∧
      .result .Disconnect (some .White) "white" "black" ∈ (r.2.getLast h).2) (x :=
    run (logged exec) (Match.new three_on_a_row shipped_factory true 20000 3000 "")
      [.join "white" 1200 ⟨1⟩, .join "black" 1200 ⟨2⟩, .on_disconnect .Black, .tick 5 0,
        .tick 20005 400]) (by decide)
  obtain ⟨hne, hlast, hforfeit⟩ := of_decide_eq_true hp
  have hentry : log = log.dropLast ++ [(.tick 20005 400, (log.getLast hne).2)] := by
    rw [← hlast, List.dropLast_concat_getLast]
  refine ⟨m, log.dropLast, (log.getLast hne).2, ?_, hforfeit, ?_⟩
  · rw [← hentry]
    exact hrun
  · exact forfeit_of_who_stayed_away (by decide) (reach_of_meets (by decide) hrun) hentry hforfeit

end Match

end KungFuChess
