/-
**One verdict for each match.**

Three announcements of a tick can decide a game, and each broadcasts a `GameOver`
and reports a result on its own; only the report is latched. `Verdict` follows a
match through the phases of a tick: open, resigned but not yet announced, or
decided by one verdict that everybody heard. Each phase keeps it, except that the
arrivals of a tick must not decide a game in which a resignation of the same tick
is still to be announced.

The source lets the deciding tick pass its time all the same, so that does happen
(`two_verdicts`): the side that resigns captures the king in that tick, and is
announced as the winner by the arrival and as the loser by the resignation.
-/
import KungFuChess.Conservation
import KungFuChess.MatchSteps

set_option autoImplicit false

namespace KungFuChess

open Machine

namespace Match

/-! ## What a trace says about the result -/

/-- The winners of the `GameOver` messages broadcast. -/
def verdicts (tr : List MatchEvent) : List (Option PieceColor) :=
  tr.filterMap fun
    | .broadcast _ (.GameOver winner) => some winner
    | _ => none

/-- The winners handed to `on_result`. -/
def results (tr : List MatchEvent) : List (Option PieceColor) :=
  tr.filterMap fun
    | .result _ winner _ _ => some winner
    | _ => none

@[simp] theorem verdicts_append (tr os : List MatchEvent) :
    verdicts (tr ++ os) = verdicts tr ++ verdicts os := List.filterMap_append

@[simp] theorem results_append (tr os : List MatchEvent) :
    results (tr ++ os) = results tr ++ results os := List.filterMap_append

@[simp] theorem verdicts_game_over (m : Match) (winner : Option PieceColor)
    (os : List MatchEvent) :
    verdicts (m.broadcast (.GameOver winner) :: os) = winner :: verdicts os := rfl

@[simp] theorem results_broadcast (m : Match) (message : ServerMessage) (os : List MatchEvent) :
    results (m.broadcast message :: os) = results os := rfl

theorem mem_results {os : List MatchEvent} {reason : GameEndReason} {winner : Option PieceColor}
    {white black : String} (h : .result reason winner white black ∈ os) : winner ∈ results os :=
  List.mem_filterMap.mpr ⟨_, h, rfl⟩

/-- An output that decides nothing. -/
structure Silent (os : List MatchEvent) : Prop where
  verdicts : verdicts os = []
  results : results os = []

theorem silent_nil : Silent [] := ⟨rfl, rfl⟩

theorem silent_of_answers {os : List MatchEvent} (h : ∀ e ∈ os, IsAnswer e) : Silent os := by
  constructor <;> refine List.filterMap_eq_nil_iff.mpr (fun e he => ?_)
  · have := h e he
    unfold IsAnswer at this
    split at this <;> first | rfl | cases this
  · have := h e he
    unfold IsAnswer at this
    split at this <;> first | rfl | cases this

theorem silent_closes (cs : List Connection) : Silent (cs.map MatchEvent.closed) := by
  constructor <;> refine List.filterMap_eq_nil_iff.mpr (fun e he => ?_) <;>
    obtain ⟨c, _, rfl⟩ := List.mem_map.mp he <;> rfl

/-- What `report_result` reports, if it has not reported yet. -/
theorem report_result_spec {m : Match} (hrep : m.result_reported = false) (reason : GameEndReason)
    (winner : Option PieceColor) :
    verdicts (m.report_result reason winner).2 = [] ∧
      results (m.report_result reason winner).2 = if m.on_result then [winner] else [] := by
  unfold report_result
  by_cases hon : m.on_result = true
  · rw [if_neg (by simp [hrep, hon]), if_pos hon]
    exact ⟨rfl, rfl⟩
  · rw [if_pos (.inr hon), if_neg hon]
    exact ⟨rfl, rfl⟩

/-! ## `GameOverObserver` -/

theorem is_game_over_on_arrival (o : GameOverObserver) (e : ArrivalEvent) :
    (o.on_arrival e).is_game_over = (o.is_game_over || captured_a_king e) := by
  obtain ⟨winner, at_ms, draw⟩ := o
  unfold GameOverObserver.on_arrival GameOverObserver.is_game_over
  cases captured_a_king e <;> cases draw <;> cases winner <;> simp
  split_ifs <;> simp

/-- A batch of arrivals gives a verdict exactly when it captures a king. -/
theorem verdict_of_isSome (events : List ArrivalEvent) :
    (verdict_of events).isSome = events.any captured_a_king := by
  have hfold : ∀ (es : List ArrivalEvent) (o : GameOverObserver),
      (es.foldl GameOverObserver.on_arrival o).is_game_over
        = (o.is_game_over || es.any captured_a_king) := by
    intro es
    induction es with
    | nil => intro o; simp
    | cons e es ih =>
        intro o
        rw [List.foldl_cons, ih, is_game_over_on_arrival, List.any_cons, Bool.or_assoc]
  unfold verdict_of
  dsimp only
  rw [hfold]
  cases events.any captured_a_king <;> rfl

/-! ## The invariant -/

/-- How far a match is decided, with `tr` behind it. -/
inductive Verdict (m : Match) (tr : List MatchEvent) : Prop
  | undecided (ended : m.game_over = false) (pending : m.pending_game_over = none)
      (unreported : m.result_reported = false) (silent : Silent tr)
  | resigned (winner : Option PieceColor) (ended : m.game_over = true)
      (pending : m.pending_game_over = some winner) (unreported : m.result_reported = false)
      (silent : Silent tr)
  | decided (winner : Option PieceColor) (ended : m.game_over = true)
      (pending : m.pending_game_over = none) (verdicts : verdicts tr = [winner])
      (results : results tr = if m.on_result then [winner] else [])

theorem Silent.append {tr os : List MatchEvent} (h : Silent tr) (ho : Silent os) :
    Silent (tr ++ os) where
  verdicts := by rw [verdicts_append, h.verdicts, ho.verdicts]; rfl
  results := by rw [results_append, h.results, ho.results]; rfl

/-- A step that decides nothing and changes none of the latches. -/
theorem Verdict.quiet {m m' : Match} {tr os : List MatchEvent} (h : Verdict m tr)
    (hover : m'.game_over = m.game_over) (hpending : m'.pending_game_over = m.pending_game_over)
    (hrep : m'.result_reported = m.result_reported) (hon : m'.on_result = m.on_result)
    (ho : Silent os) : Verdict m' (tr ++ os) := by
  cases h with
  | undecided h1 h2 h3 h4 =>
      exact .undecided (hover.trans h1) (hpending.trans h2) (hrep.trans h3) (h4.append ho)
  | resigned w h1 h2 h3 h4 =>
      exact .resigned w (hover.trans h1) (hpending.trans h2) (hrep.trans h3) (h4.append ho)
  | decided w h1 h2 h3 h4 =>
      refine .decided w (hover.trans h1) (hpending.trans h2) ?_ ?_
      · rw [verdicts_append, h3, ho.verdicts]
        rfl
      · rw [results_append, h4, ho.results, hon, List.append_nil]

/-- The verdict is broadcast and reported, once. -/
theorem decided_of_report {m m' n : Match} {tr : List MatchEvent} (os : List MatchEvent)
    {reason : GameEndReason} {winner : Option PieceColor} (htr : Silent tr) (hos : Silent os)
    (hrep : m.result_reported = false) (hover : m'.game_over = true)
    (hpending : m'.pending_game_over = none) (hon : m'.on_result = m.on_result) :
    Verdict m' (tr ++ (os ++ n.broadcast (.GameOver winner)
      :: (m.report_result reason winner).2)) := by
  obtain ⟨hv, hr⟩ := report_result_spec hrep reason winner
  refine .decided winner hover hpending ?_ ?_
  · rw [verdicts_append, verdicts_append, verdicts_game_over, htr.verdicts, hos.verdicts, hv]
    rfl
  · rw [results_append, results_append, results_broadcast, htr.results, hos.results, hr, hon]
    rfl

/-! ## The phases of a tick -/

theorem verdict_advance_board {m m' : Match} {tr answers : List MatchEvent}
    {events : List ArrivalEvent} (h : Verdict m tr) (hnot : m.pending_game_over = none)
    (hadv : BoardAdvanced m m' answers events) : Verdict m' (tr ++ answers) := by
  have hsilent := silent_of_answers hadv.answers
  have hrest := hadv.rest
  cases hr : m.first_resign m.queue with
  | none =>
      rw [hr] at hrest
      refine h.quiet ?_ ?_ ?_ ?_ hsilent <;> rw [hrest]
      simp
  | some c =>
      rw [hr] at hrest
      cases h with
      | undecided h1 h2 h3 h4 =>
          refine .resigned (some (opposite_of c)) ?_ ?_ ?_ (h4.append hsilent) <;> rw [hrest]
          · simp
          · exact h3
      | resigned w h1 h2 _ _ =>
          rw [hnot] at h2
          cases h2
      -- a finished match takes no resignation
      | decided w h1 _ _ _ =>
          rw [hadv.unresigned h1] at hr
          cases hr

/-- Arrivals may decide a match that nothing has decided yet. -/
theorem verdict_announce_arrivals {m : Match} {tr : List MatchEvent} {events : List ArrivalEvent}
    (at_revision : Nat) (h : Verdict m tr) (hnone : m.game_over = true → verdict_of events = none) :
    Verdict (m.announce_arrivals events at_revision).1
      (tr ++ (m.announce_arrivals events at_revision).2) := by
  unfold announce_arrivals
  split_ifs
  · exact h.quiet rfl rfl rfl rfl silent_nil
  · dsimp only
    cases hv : verdict_of events with
    | none => exact h.quiet rfl rfl rfl rfl ⟨rfl, rfl⟩
    | some winner =>
        -- the one place where an earlier cause could be joined by a second
        have hopen : m.game_over = false := by
          rw [Bool.eq_false_iff]
          intro ht
          rw [hnone ht] at hv
          cases hv
        cases h with
        | undecided _ h2 h3 h4 =>
            refine decided_of_report [m.broadcast (.BoardUpdate ⟨events, at_revision⟩)]
              (m := { m with game_over := true }) h4 ⟨rfl, rfl⟩ h3 ?_ ?_ ?_ <;>
              rw [report_result_rest]
            exact h2
        | resigned _ h1 _ _ _ => exact absurd (hopen.symm.trans h1) Bool.false_ne_true
        | decided _ h1 _ _ _ => exact absurd (hopen.symm.trans h1) Bool.false_ne_true

/-- A resignation that is pending is announced; afterwards none is. -/
theorem verdict_announce_resignation {m : Match} {tr : List MatchEvent} (h : Verdict m tr) :
    Verdict m.announce_resignation.1 (tr ++ m.announce_resignation.2) ∧
      m.announce_resignation.1.pending_game_over = none := by
  unfold announce_resignation
  cases hp : m.pending_game_over with
  | none => exact ⟨h.quiet rfl rfl rfl rfl silent_nil, hp⟩
  | some winner =>
      refine ⟨?_, rfl⟩
      cases h with
      | undecided _ h2 _ _ =>
          rw [hp] at h2
          cases h2
      | resigned _ h1 _ h3 h4 =>
          refine decided_of_report [] h4 silent_nil h3 ?_ rfl ?_ <;>
            dsimp only <;> rw [report_result_rest]
          exact h1
      | decided _ _ h2 _ _ =>
          rw [hp] at h2
          cases h2

/-- The expiry of a grace decides a match that nothing has decided yet. -/
theorem verdict_countdown {m : Match} {tr : List MatchEvent} (now : Int) (h : Verdict m tr)
    (hnot : m.pending_game_over = none) :
    Verdict (m.advance_disconnect_countdown now).1
        (tr ++ (m.advance_disconnect_countdown now).2) ∧
      (m.advance_disconnect_countdown now).1.pending_game_over = none := by
  unfold advance_disconnect_countdown
  split_ifs with hover
  · exact ⟨h.quiet rfl rfl rfl rfl silent_nil, hnot⟩
  · dsimp only
    cases ht : (m.disconnect_watch.advance now).2.expired_for with
    | some loser =>
        refine ⟨?_, by dsimp only; rw [report_result_rest]; exact hnot⟩
        cases h with
        | undecided _ h2 h3 h4 =>
            refine decided_of_report [] (m := { m with
              disconnect_watch := (m.disconnect_watch.advance now).1, game_over := true })
              h4 silent_nil h3 ?_ ?_ ?_ <;> rw [report_result_rest]
            exact h2
        | resigned _ h1 _ _ _ => exact absurd h1 hover
        | decided _ h1 _ _ _ => exact absurd h1 hover
    | none =>
        dsimp only
        split
        · exact ⟨h.quiet rfl rfl rfl rfl ⟨rfl, rfl⟩, hnot⟩
        · exact ⟨h.quiet rfl rfl rfl rfl silent_nil, hnot⟩

theorem verdict_release {m : Match} {tr : List MatchEvent} (now : Int) (h : Verdict m tr) :
    Verdict (m.release_if_due now).1 (tr ++ (m.release_if_due now).2) ∧
      (m.release_if_due now).1.pending_game_over = m.pending_game_over := by
  unfold release_if_due
  dsimp only
  generalize (if m.game_over ∧ m.release_at.isNone then some (now + m.release_delay_ms)
    else m.release_at) = due
  split_ifs
  · exact ⟨h.quiet rfl rfl rfl rfl (silent_closes _), rfl⟩
  · exact ⟨h.quiet rfl rfl rfl rfl silent_nil, rfl⟩

theorem verdict_announce {m : Match} {tr : List MatchEvent} {events : List ArrivalEvent}
    {now : Int} {at_revision : Nat} (h : Verdict m tr)
    (hnone : m.game_over = true → verdict_of events = none) :
    Verdict (m.announce now events at_revision).1 (tr ++ (m.announce now events at_revision).2) ∧
      (m.announce now events at_revision).1.pending_game_over = none := by
  have h₁ := verdict_announce_arrivals at_revision h hnone
  obtain ⟨h₂, hp₂⟩ := verdict_announce_resignation h₁
  obtain ⟨h₃, hp₃⟩ := verdict_countdown now h₂ hp₂
  obtain ⟨h₄, hp₄⟩ := verdict_release now h₃
  refine ⟨?_, hp₄.trans hp₃⟩
  rw [List.append_assoc, List.append_assoc, List.append_assoc] at h₄
  simpa [announce] using h₄

/-! ## Runs -/

/-- The tick finds a resignation in its queue. -/
def resign_queued (m : Match) : Bool := m.queue.any fun command => command.2 = .Resign

/-- The tick lets time pass and a king is captured in it. -/
def king_falls (m : Match) (elapsed_ms : Int) : Bool :=
  match m.advance_board elapsed_ms with
  | .ok (_, _, events) => events.any captured_a_king
  | .error _ => false

/-- The condition on a step: a tick that takes a resignation captures no king. -/
def OneCause (m : Match) (_ : List MatchEvent) : Call → Prop
  | .tick _ elapsed_ms => ¬ (m.resign_queued = true ∧ m.king_falls elapsed_ms = true)
  | _ => True

instance (m : Match) (tr : List MatchEvent) : ∀ call, Decidable (OneCause m tr call)
  | .tick _ elapsed_ms =>
      inferInstanceAs (Decidable (¬ (m.resign_queued = true ∧ m.king_falls elapsed_ms = true)))
  | .join _ _ _ | .join_spectator _ | .leave_spectator _ | .enqueue _ _ | .on_disconnect _
  | .reconnect _ _ => .isTrue trivial

theorem verdict_tick {m m' : Match} {tr os : List MatchEvent} {now : Int} {elapsed_ms : Nat}
    (h : Verdict m tr) (hnot : m.pending_game_over = none)
    (hone : OneCause m tr (.tick now elapsed_ms)) (hrun : m.tick now elapsed_ms = .ok (m', os)) :
    Verdict m' (tr ++ os) ∧ m'.pending_game_over = none := by
  obtain ⟨m₁, answers, events, hadv, rfl, rfl⟩ := tick_ok hrun
  have hspec := advance_board_spec hadv
  have h₁ := verdict_advance_board h hnot hspec
  rw [← List.append_assoc]
  refine verdict_announce h₁ (fun hover => ?_)
  -- decided before its arrivals: finished from the start, or by a resignation of this tick
  rw [← Option.isNone_iff_eq_none, ← Option.not_isSome, Bool.not_eq_true', verdict_of_isSome]
  rw [hspec.rest, Bool.or_eq_true] at hover
  rcases hover with hover | hres
  · have hnil : events = [] := by
      by_contra hne
      have hstate := hspec.running hne
      unfold state at hstate
      rw [if_pos hover] at hstate
      cases hstate
    rw [hnil]
    rfl
  · have hqueued : m.resign_queued = true := by
      unfold first_resign at hres
      rw [Option.isSome_map, List.find?_isSome] at hres
      obtain ⟨command, hmem, htaken⟩ := hres
      refine List.any_eq_true.mpr ⟨command, hmem, ?_⟩
      unfold resigns at htaken
      split_ifs at htaken with hc
      · exact decide_eq_true hc.1
      · cases htaken
    have hking : m.king_falls elapsed_ms = events.any captured_a_king := by
      unfold king_falls
      rw [hadv]
    rw [← hking, Bool.eq_false_iff]
    exact fun hfalls => hone ⟨hqueued, hfalls⟩

/-- Only a tick decides anything. -/
theorem call_silent {m m' : Match} {call : Call} {os : List MatchEvent}
    (hcall : ∀ now elapsed_ms, call ≠ .tick now elapsed_ms) (h : exec m call = .ok (m', os)) :
    Silent os := by
  cases call with
  | tick now elapsed_ms => exact absurd rfl (hcall now elapsed_ms)
  | join username rating connection =>
      obtain ⟨_, rfl⟩ := Prod.mk.inj (Except.ok.inj h)
      unfold join
      dsimp only
      split
      · exact silent_nil
      · split_ifs <;> exact ⟨rfl, rfl⟩
  | join_spectator connection =>
      obtain ⟨_, rfl⟩ := Prod.mk.inj (Except.ok.inj h)
      unfold join_spectator
      dsimp only
      split_ifs <;> exact ⟨rfl, rfl⟩
  | leave_spectator watcher =>
      obtain ⟨_, rfl⟩ := Prod.mk.inj (Except.ok.inj h)
      exact silent_nil
  | enqueue source message =>
      obtain ⟨_, rfl⟩ := Prod.mk.inj (Except.ok.inj h)
      exact silent_nil
  | on_disconnect color =>
      obtain ⟨_, rfl⟩ := Prod.mk.inj (Except.ok.inj h)
      exact ⟨rfl, rfl⟩
  | reconnect color connection =>
      obtain ⟨_, rfl⟩ := Prod.mk.inj (Except.ok.inj h)
      unfold reconnect
      dsimp only
      split_ifs <;> exact ⟨rfl, rfl⟩

theorem verdict_exec {m m' : Match} {tr os : List MatchEvent} {call : Call}
    (h : Verdict m tr ∧ m.pending_game_over = none) (hone : OneCause m tr call)
    (hrun : exec m call = .ok (m', os)) :
    Verdict m' (tr ++ os) ∧ m'.pending_game_over = none := by
  obtain ⟨now, elapsed_ms, rfl⟩ | hcall := tick_or_not call
  · exact verdict_tick h.1 h.2 hone hrun
  · have hframe := call_frame hcall hrun
    have hsilent := call_silent hcall hrun
    rw [hframe]
    exact ⟨h.1.quiet rfl rfl rfl rfl hsilent, h.2⟩

/-- **One verdict.** In every run whose ticks never both take a resignation and
capture a king, at most one `GameOver` is broadcast, and the callback is given
that winner and is called once for it. -/
theorem one_verdict {board : Board} {config : MotionFactory} {on_result : Bool}
    {disconnect_grace_ms release_delay_ms : Int} {room_name : String} {m : Match}
    {tr : List MatchEvent} (hrun : Reach exec OneCause (Match.new board config on_result
      disconnect_grace_ms release_delay_ms room_name) m tr) :
    (verdicts tr).length ≤ 1 ∧ results tr = if on_result then verdicts tr else [] := by
  have hon : m.on_result = on_result :=
    Reach.invariant (P := fun m _ => m.on_result = on_result) rfl
      (fun _ _ _ _ _ _ h _ hrun => (exec_settings hrun).1.trans h) hrun
  have hkept : Verdict m tr ∧ m.pending_game_over = none := by
    refine Reach.invariant (P := fun m tr => Verdict m tr ∧ m.pending_game_over = none)
      ⟨.undecided rfl rfl rfl silent_nil, rfl⟩ ?_ hrun
    exact fun _ _ _ _ _ _ h hone hrun => verdict_exec h hone hrun
  obtain ⟨hv, hnot⟩ := hkept
  cases hv with
  | undecided _ _ _ hs =>
      rw [hs.verdicts, hs.results]
      simp
  | resigned w _ hp _ _ =>
      rw [hnot] at hp
      cases hp
  | decided w _ _ hv hr =>
      rw [hv, hr, hon]
      exact ⟨le_refl _, rfl⟩

/-- A match in which Black resigns and nothing is captured. -/
theorem one_verdict_of_a_resignation : ∃ m tr,
    run exec (Match.new three_on_a_row shipped_factory true 20000 3000 "")
      [.join "white" 1200 ⟨1⟩, .join "black" 1200 ⟨2⟩, .enqueue .Black .Resign, .tick 0 0]
      = .ok (m, tr) ∧
    (verdicts tr).length ≤ 1 ∧ results tr = if true then verdicts tr else [] := by
  obtain ⟨⟨m, tr⟩, hrun⟩ := exists_ok (x :=
    run exec (Match.new three_on_a_row shipped_factory true 20000 3000 "")
      [.join "white" 1200 ⟨1⟩, .join "black" 1200 ⟨2⟩, .enqueue .Black .Resign, .tick 0 0])
    (by decide)
  exact ⟨m, tr, hrun, one_verdict (reach_of_meets (by decide) hrun)⟩

/-- **Two verdicts.** Black captures the king in the tick that takes Black's
resignation: Black is announced the winner, and then White. -/
theorem two_verdicts : ¬ ∀ (board : Board) (config : MotionFactory)
    (disconnect_grace_ms release_delay_ms : Int) (room_name : String) (m : Match)
    (tr : List MatchEvent), Reach exec anyStep (Match.new board config true disconnect_grace_ms
      release_delay_ms room_name) m tr →
    (verdicts tr).length ≤ 1 ∧ results tr = verdicts tr := by
  intro h
  obtain ⟨⟨m, tr⟩, hrun, htwo⟩ := exists_ok_such (p := fun r => ¬ (verdicts r.2).length ≤ 1) (x :=
    run exec (Match.new three_on_a_row shipped_factory true 20000 3000 "")
      [.join "white" 1200 ⟨1⟩, .join "black" 1200 ⟨2⟩,
        .enqueue .Black (.MoveRequest ⟨0, 2⟩ ⟨0, 1⟩), .tick 0 0,
        .enqueue .Black .Resign, .tick 400 400]) (by decide)
  exact of_decide_eq_true htwo (h _ _ _ _ _ m tr (reach_of_run hrun)).1

end Match

end KungFuChess
