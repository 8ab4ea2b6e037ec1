/-
**The verdict does not depend on the tick rate.**

`TickSize` says that a long tick produces the events of two short ones. With the
engine around it that is no longer so: the engine stops at the end of the batch
that decides the game, so a long tick may go on to arrivals that the short ones
never perform. Those come strictly later than everything the short ones saw
(`later_of_split`), and `GameOverObserver` listens, once it has a winner, only to
what happens at the very same time (`foldl_later`).

Two ways of cutting the same time are compared by cutting the longer of their first waits
at the end of the shorter (`end_alike_of_sum`), so that no wait is ever compared with
a longer one: what leaves room in both is all that is needed. A split whose wait leaves
none may miss the deciding capture (`late_for_the_king`).
-/
import KungFuChess.TickSize
import KungFuChess.Verdict

set_option autoImplicit false

namespace KungFuChess

open Machine RealTimeArbiter GameEngine StableSort

/-! ## The observer -/

namespace GameOverObserver

theorem on_arrival_quiet {o : GameOverObserver} {e : ArrivalEvent}
    (h : captured_a_king e = false) : o.on_arrival e = o := by
  unfold on_arrival
  simp [h]

/-- Events that capture no king tell the observer nothing. -/
theorem foldl_quiet {es : List ArrivalEvent} (h : es.any captured_a_king = false)
    (o : GameOverObserver) : es.foldl on_arrival o = o := by
  induction es with
  | nil => rfl
  | cons e es ih =>
      simp only [List.any_cons, Bool.or_eq_false_iff] at h
      rw [List.foldl_cons, on_arrival_quiet h.1]
      exact ih h.2

theorem on_arrival_cases (o : GameOverObserver) (e : ArrivalEvent) :
    o.on_arrival e = o ∨ (o.on_arrival e).winner_decided_at_ms = e.arrived_at_ms := by
  unfold on_arrival
  split_ifs
  · exact .inl rfl
  · split
    · exact .inr rfl
    · split_ifs with hdraw
      · exact .inr hdraw.2.symm
      · exact .inl rfl

/-- The time of a verdict is the time of one of the events that led to it. -/
theorem decided_at_mem (es : List ArrivalEvent) : ∀ o : GameOverObserver,
    es.foldl on_arrival o = o ∨
      ∃ e ∈ es, (es.foldl on_arrival o).winner_decided_at_ms = e.arrived_at_ms := by
  induction es with
  | nil => exact fun o => .inl rfl
  | cons e es ih =>
      intro o
      rw [List.foldl_cons]
      rcases ih (o.on_arrival e) with hsame | ⟨e', he', htime⟩
      · rw [hsame]
        refine (o.on_arrival_cases e).imp_right ?_
        intro htime
        exact ⟨e, List.mem_cons_self, htime⟩
      · exact .inr ⟨e', List.mem_cons_of_mem _ he', htime⟩

/-- Once the game is decided, later events change nothing. -/
theorem foldl_later {o : GameOverObserver} (hover : o.is_game_over = true)
    {es : List ArrivalEvent} (hlater : ∀ e ∈ es, o.winner_decided_at_ms < e.arrived_at_ms) :
    es.foldl on_arrival o = o := by
  induction es with
  | nil => rfl
  | cons e es ih =>
      have hsame : o.on_arrival e = o := by
        have htime := hlater e List.mem_cons_self
        unfold on_arrival
        unfold is_game_over at hover
        split_ifs with hskip
        · rfl
        · split
          · rename_i hnone
            simp only [not_or, Bool.not_eq_true] at hskip
            rw [hskip.1, hnone] at hover
            cases hover
          · rw [if_neg]
            rintro ⟨_, heq⟩
            omega
      rw [List.foldl_cons, hsame]
      exact ih fun e' he' => hlater e' (List.mem_cons_of_mem _ he')

end GameOverObserver

/-! ## The time of events -/

/-- Every event of a tick is stamped with the time of an arrival of it. -/
theorem stamped_by_arrivals {a a' : RealTimeArbiter} {ms : Int} {es : List ArrivalEvent}
    (hs : Sound a.board a.active_motions) (hrun : a.advance_time ms = .ok (a', es)) :
    ∀ e ∈ es, ∃ p ∈ pending_arrivals ms a.active_motions,
      e.arrived_at_ms = a.clock_ms + p.time_into_tick_ms := by
  obtain ⟨b, hloop, _, _, hevents⟩ := advance_time_rule ms hs
    (fun ps b => (∀ p ∈ ps, p ∈ pending_arrivals ms a.active_motions) ∧
      ∀ e ∈ b.events, ∃ p ∈ pending_arrivals ms a.active_motions,
        e.arrived_at_ms = a.clock_ms + p.time_into_tick_ms)
    ⟨fun p hp => (mem_stableSort _).mp hp, fun e he => by cases he⟩
    (fun p ps b _ hP => ⟨fun q hq => hP.1 q (List.mem_cons_of_mem _ hq), hP.2⟩)
    (fun p ps b e b' _ _ hP _ hset => by
      refine ⟨fun q hq => hP.1 q (List.mem_cons_of_mem _ hq), fun e' he' => ?_⟩
      rw [hset.events, List.mem_append, List.mem_singleton] at he'
      rcases he' with he' | rfl
      · exact hP.2 e' he'
      · exact ⟨p, hP.1 p List.mem_cons_self, hset.at_ms⟩)
  rw [advance_time_of_loop hloop] at hrun
  obtain ⟨_, rfl⟩ := Prod.mk.inj (Except.ok.inj hrun)
  exact hevents

/-- No event of a tick comes after its end. -/
theorem arrived_by_end {a a' : RealTimeArbiter} {ms : Int} {es : List ArrivalEvent}
    (hms : 0 ≤ ms) (hs : Sound a.board a.active_motions)
    (hrun : a.advance_time ms = .ok (a', es)) :
    ∀ e ∈ es, e.arrived_at_ms ≤ a.clock_ms + ms := by
  intro e he
  obtain ⟨p, hp, htime⟩ := stamped_by_arrivals hs hrun e he
  obtain ⟨m, _, rfl⟩ := List.mem_map.mp hp
  have hle : clamp (time_until_arrival_ms m) 0 ms ≤ ms := by
    unfold clamp
    split_ifs <;> omega
  dsimp only at htime
  omega

/-- While no motion is overdue, every event of a tick with room comes after its start. -/
theorem arrived_after_start {a a' : RealTimeArbiter} {ms : Int} {es : List ArrivalEvent}
    (hms : 0 ≤ ms) (hs : Sound a.board a.active_motions)
    (hroom : ∀ m ∈ a.active_motions, m.Roomy ms)
    (hup : ∀ m ∈ a.active_motions, m.elapsed_ms < m.duration_ms)
    (hrun : a.advance_time ms = .ok (a', es)) :
    ∀ e ∈ es, a.clock_ms < e.arrived_at_ms := by
  intro e he
  obtain ⟨p, hp, htime⟩ := stamped_by_arrivals hs hrun e he
  obtain ⟨m, hm, rfl⟩ := List.mem_map.mp hp
  obtain ⟨hm, harrives⟩ := List.mem_filter.mp hm
  have hleft := hup m hm
  have hwithin := ((hroom m hm).arrives_iff hms).mp harrives
  have hpos : 0 < clamp (time_until_arrival_ms m) 0 ms := by
    rw [(hroom m hm).until_arrival hms harrives]
    unfold clamp
    split_ifs <;> omega
  dsimp only at htime
  omega

/-- A tick leaves no motion overdue. -/
theorem up_after_tick {a a' : RealTimeArbiter} {ms : Int} {es : List ArrivalEvent}
    (hs : Sound a.board a.active_motions) (hrun : a.advance_time ms = .ok (a', es)) :
    a'.clock_ms = a.clock_ms + ms ∧ ∀ m ∈ a'.active_motions, m.elapsed_ms < m.duration_ms := by
  obtain ⟨hclock, hstill⟩ := mem_still_active_of_tick hs hrun
  exact ⟨hclock, fun m hm => still_active_up (hstill m hm)⟩

/-! ## The verdict of a list of events -/

theorem verdict_of_eq (es : List ArrivalEvent) : Match.verdict_of es
    = if (es.foldl GameOverObserver.on_arrival {}).is_game_over then
        some (if (es.foldl GameOverObserver.on_arrival {}).draw then none
          else (es.foldl GameOverObserver.on_arrival {}).winner)
      else none := rfl

theorem verdict_of_quiet {es : List ArrivalEvent} (h : es.any captured_a_king = false) :
    Match.verdict_of es = none := by
  rw [verdict_of_eq, GameOverObserver.foldl_quiet h]
  rfl

theorem verdict_of_quiet_append {es : List ArrivalEvent} (h : es.any captured_a_king = false)
    (es' : List ArrivalEvent) : Match.verdict_of (es ++ es') = Match.verdict_of es' := by
  rw [verdict_of_eq, verdict_of_eq, List.foldl_append, GameOverObserver.foldl_quiet h]

/-- **Once the game is over, no call does anything.** -/
theorem exec_over {g : GameEngine} (h : g.game_over = true) (cmd : Command) :
    exec g cmd = .ok (g, []) := by
  cases cmd with
  | request_move source destination => exact exec_request_move (r := ⟨false, _⟩) (if_pos h)
  | request_jump cell => exact exec_request_jump (r := ⟨false, _⟩) (if_pos h)
  | wait ms => exact if_pos h

/-- And so waiting is idle. -/
theorem waits_over {g : GameEngine} (h : g.game_over = true) (ws : List Nat) :
    run (logged exec) g (ws.map Command.wait) = .ok (g, ws.map fun w => (.wait w, [])) := by
  induction ws with
  | nil => rfl
  | cons w ws ih =>
      exact run_cons_ok_iff.mpr ⟨g, _, _, logged_ok_iff.mpr ⟨[], exec_over h _, rfl⟩, ih, rfl⟩

/-- What a wait does to an open game. -/
theorem exec_wait_open {g : GameEngine} {w : Nat} {a : RealTimeArbiter} {es : List ArrivalEvent}
    (hopen : g.game_over = false) (hadv : g.arbiter.advance_time w = .ok (a, es)) :
    exec g (.wait w)
      = .ok ({ g with arbiter := a, game_over := es.any captured_a_king }, es) := by
  show g.wait w = _
  unfold wait
  rw [if_neg (by rw [hopen]; exact Bool.false_ne_true), hadv]
  rfl

/-- The events of a long tick that come after its first part come later. -/
theorem later_of_split {a a₁ a₂ : RealTimeArbiter} {x y : Int} {es₁ es₂ : List ArrivalEvent}
    (hx : 0 ≤ x) (hy : 0 ≤ y) (h : Represents a) (hroom : a.HasRoom (x + y))
    (h₁ : a.advance_time x = .ok (a₁, es₁)) (h₂ : a₁.advance_time y = .ok (a₂, es₂)) :
    ∀ e ∈ es₁, ∀ e' ∈ es₂, e.arrived_at_ms < e'.arrived_at_ms := by
  intro e he e' he'
  obtain ⟨hclock, hup⟩ := up_after_tick h.sound h₁
  have hrep₁ := h.advance hx (hroom.first hy) h₁
  have hroom₁ := hrep₁.roomy (h.room_second hx hy hroom h₁)
  have hbefore := arrived_by_end hx h.sound h₁ e he
  have hafter := arrived_after_start hy hrep₁.sound hroom₁ hup h₂ e' he'
  omega

/-! ## The verdict of a game -/

/-- A game is over when a king has been captured in it. -/
theorem over_of_reach {C : GameEngine → List ArrivalEvent → Command → Prop} {f : MotionFactory}
    {b : Board} {g : GameEngine} {tr : List ArrivalEvent}
    (h : Reach exec C (GameEngine.new f b) g tr) : g.game_over = tr.any captured_a_king := by
  refine Reach.invariant (P := fun g tr => g.game_over = tr.any captured_a_king) rfl ?_ h
  intro g tr cmd g' es _ hover _ hrun
  cases exec_effect hrun with
  | refused => rw [List.append_nil, hover]
  | started _ m x _ hs hfree hmade =>
      rw [List.append_nil]
      exact hover
  | waited ms a es hopen hadv =>
      rw [hover] at hopen
      rw [List.any_append, hopen, Bool.false_or]

/-- What the observer makes of all the events of a game. -/
def observed (events : List ArrivalEvent) : GameOverObserver :=
  events.foldl GameOverObserver.on_arrival {}

theorem observed_quiet_append {es : List ArrivalEvent} (h : es.any captured_a_king = false)
    (es' : List ArrivalEvent) : observed (es ++ es') = observed es' := by
  unfold observed
  rw [List.foldl_append, GameOverObserver.foldl_quiet h]

/-- Once a king is captured, the observer has seen all it needs, but for what comes at the
same time. -/
theorem observed_append_later {es es' : List ArrivalEvent} (h : es.any captured_a_king = true)
    (hlater : ∀ e ∈ es, ∀ e' ∈ es', e.arrived_at_ms < e'.arrived_at_ms) :
    observed (es ++ es') = observed es := by
  have hover : (observed es).is_game_over = true := by
    have hsome := Match.verdict_of_isSome es
    rw [h, verdict_of_eq] at hsome
    unfold observed
    by_contra hno
    rw [if_neg hno] at hsome
    cases hsome
  unfold observed at hover ⊢
  rw [List.foldl_append]
  refine GameOverObserver.foldl_later hover ?_
  intro e' he'
  -- the verdict was given by one of the events before
  rcases GameOverObserver.decided_at_mem es {} with hsame | ⟨e, he, htime⟩
  · rw [hsame] at hover
    cases hover
  · rw [htime]
    exact hlater e he e' he'

/-- The verdict of a batch is what its observer says. -/
theorem verdict_of_observed {es es' : List ArrivalEvent} (h : observed es = observed es') :
    Match.verdict_of es = Match.verdict_of es' := by
  unfold observed at h
  rw [verdict_of_eq, verdict_of_eq, h]

/-! ## Two ways of waiting -/

/-- Where two runs of waits end, and what their observers make of them. -/
structure SameVerdict (one other : GameEngine × List (Command × List ArrivalEvent)) : Prop where
  is_over : one.1.game_over = other.1.game_over
  observed : observed (emitted one.2) = observed (emitted other.2)
  first : (one.2.map Prod.snd).findSome? Match.verdict_of
    = (other.2.map Prod.snd).findSome? Match.verdict_of

theorem SameVerdict.refl (one : GameEngine × List (Command × List ArrivalEvent)) :
    SameVerdict one one := ⟨rfl, rfl, rfl⟩

theorem SameVerdict.symm {one other : GameEngine × List (Command × List ArrivalEvent)}
    (h : SameVerdict one other) : SameVerdict other one :=
  ⟨h.is_over.symm, h.observed.symm, h.first.symm⟩

/-- What the observers make of a first batch and idle ones after it. -/
theorem decided_at_once {es : List ArrivalEvent} (h : es.any captured_a_king = true) (w : Nat)
    (ws : List Nat) :
    emitted ((Command.wait w, es) :: ws.map fun w => (.wait w, [])) = es ∧
      (((Command.wait w, es) :: ws.map fun w => (.wait w, [])).map Prod.snd).findSome?
        Match.verdict_of = Match.verdict_of es := by
  constructor
  · simp [emitted]
  · have hdecided : (Match.verdict_of es).isSome := by
      rw [Match.verdict_of_isSome]
      exact h
    obtain ⟨verdict, hv⟩ := Option.isSome_iff_exists.mp hdecided
    simp [hv]

/-- A first wait that decides the game, as a run. -/
theorem run_decided {g : GameEngine} {w : Nat} {a : RealTimeArbiter} {es : List ArrivalEvent}
    (hopen : g.game_over = false) (hadv : g.arbiter.advance_time w = .ok (a, es))
    (hking : es.any captured_a_king = true) (ws : List Nat) :
    run (logged exec) g ((w :: ws).map .wait)
      = .ok ({ g with arbiter := a, game_over := true },
          (.wait w, es) :: ws.map fun w => (.wait w, [])) := by
  have hone := exec_wait_open hopen hadv
  rw [hking] at hone
  exact run_cons_ok_iff.mpr ⟨_, _, _, logged_ok_iff.mpr ⟨_, hone, rfl⟩, waits_over rfl ws, rfl⟩

/-- Two runs that both are decided in their first wait, the one by the first part of the
other's. -/
theorem same_verdict_decided {g : GameEngine} {x y : Nat} {a₁ a₂ : RealTimeArbiter}
    {es₁ es₂ : List ArrivalEvent} (hopen : g.game_over = false)
    (h₁ : g.arbiter.advance_time x = .ok (a₁, es₁))
    (h₂ : g.arbiter.advance_time y = .ok (a₂, es₁ ++ es₂))
    (hlater : ∀ e ∈ es₁, ∀ e' ∈ es₂, e.arrived_at_ms < e'.arrived_at_ms)
    (hking : es₁.any captured_a_king = true) (xs ys : List Nat) :
    ∃ one other, run (logged exec) g ((x :: xs).map .wait) = .ok one ∧
      run (logged exec) g ((y :: ys).map .wait) = .ok other ∧ SameVerdict one other := by
  have hking' : (es₁ ++ es₂).any captured_a_king = true := by
    rw [List.any_append, hking, Bool.true_or]
  have hsame := observed_append_later hking hlater
  obtain ⟨hemitted, hfirst⟩ := decided_at_once hking x xs
  obtain ⟨hemitted', hfirst'⟩ := decided_at_once hking' y ys
  refine ⟨_, _, run_decided hopen h₁ hking xs, run_decided hopen h₂ hking' ys, rfl, ?_, ?_⟩
  · rw [hemitted, hemitted', hsame]
  · rw [hfirst, hfirst', verdict_of_observed hsame]

/-- A quiet first part, taken off both: the one run has it as a wait, the other as part of
one. -/
theorem SameVerdict.after_quiet {g₁ g₂ : GameEngine}
    {log₁ log₂ : List (Command × List ArrivalEvent)} {c c₁ c₂ : Command}
    {es₁ es₂ : List ArrivalEvent} (hquiet : es₁.any captured_a_king = false)
    (h : SameVerdict (g₁, log₁) (g₂, (c, es₂) :: log₂)) :
    SameVerdict (g₁, (c₁, es₁) :: log₁) (g₂, (c₂, es₁ ++ es₂) :: log₂) := by
  obtain ⟨hover, hobserved, hfirst⟩ := h
  refine ⟨hover, ?_, ?_⟩
  · simp only [emitted, List.flatMap_cons, List.append_assoc] at hobserved ⊢
    rw [observed_quiet_append hquiet, observed_quiet_append hquiet, hobserved]
  · rw [List.map_cons, List.findSome?_cons] at hfirst ⊢
    rw [List.map_cons, List.findSome?_cons, verdict_of_quiet hquiet,
      verdict_of_quiet_append hquiet]
    exact hfirst

section Waits

variable {g : GameEngine} {tr : List ArrivalEvent} {x y : Nat} {xs ys : List Nat}

/-- Two runs of waits that succeed and end alike. -/
def EndAlike (g : GameEngine) (xs ys : List Nat) : Prop :=
  ∃ one other, run (logged exec) g (xs.map .wait) = .ok one ∧
    run (logged exec) g (ys.map .wait) = .ok other ∧ SameVerdict one other

theorem EndAlike.symm (h : EndAlike g xs ys) : EndAlike g ys xs := by
  obtain ⟨one, other, hone, hother, hsame⟩ := h
  exact ⟨other, one, hother, hone, hsame.symm⟩

/-- The same wait, and nothing else. -/
theorem EndAlike.single (hs : g.Sound) (x : Nat) : EndAlike g [x] [x] := by
  obtain ⟨g', es, hexec⟩ := exec_total hs (.wait x)
  have hrun := run_singleton (logged_ok_iff.mpr ⟨es, hexec, rfl⟩)
  exact ⟨_, _, hrun, hrun, .refl _⟩

/-- **A first wait that is the shorter one**: both end alike if they do so without it. -/
theorem EndAlike.cons_of_le (hrep : Represents g.arbiter) (hopen : g.game_over = false)
    (hle : x ≤ y) (hfits : Meets exec WaitFits g tr ((x :: xs).map .wait))
    (hfits' : Meets exec WaitFits g tr ((y :: ys).map .wait))
    (hrest : ∀ g₁ tr₁, Represents g₁.arbiter → g₁.game_over = false →
      Meets exec WaitFits g₁ tr₁ (xs.map .wait) →
      Meets exec WaitFits g₁ tr₁ (((y - x) :: ys).map .wait) → EndAlike g₁ xs ((y - x) :: ys)) :
    EndAlike g (x :: xs) (y :: ys) := by
  have hx := Int.natCast_nonneg x
  have hd := Int.natCast_nonneg (y - x)
  have hsum : (x : Int) + (y - x : Nat) = y := by omega
  have hroom : g.arbiter.HasRoom (x + (y - x : Nat)) := by
    rw [hsum]
    exact hfits'.1 hopen
  obtain ⟨a₁, es₁, a₂, es₂, h₁, h₂, hlong⟩ := hrep.split_tick hx hd hroom
  have hlater := later_of_split hx hd hrep hroom h₁ h₂
  rw [hsum] at hlong
  cases hking : es₁.any captured_a_king with
  | true => exact same_verdict_decided hopen h₁ hlong hlater hking xs ys
  | false =>
      have hone := exec_wait_open hopen h₁
      have hother := exec_wait_open hopen hlong
      have hnext := exec_wait_open (g := { g with arbiter := a₁, game_over := false }) rfl h₂
      rw [hking] at hone
      rw [List.any_append, hking, Bool.false_or] at hother
      have hrep₁ := hrep.advance hx (hroom.first hd) h₁
      have hroom₁ := hrep.room_second hx hd hroom h₁
      have hmeets := ((meets_cons_iff hone).mp hfits).2
      have hmeets' := ((meets_cons_iff hother).mp hfits').2
      rw [← List.append_assoc] at hmeets'
      obtain ⟨⟨g', log₁⟩, ⟨g'', log₂⟩, hrun, hrun', hsame⟩ := hrest _ _ hrep₁ rfl hmeets
        ((meets_cons_iff hnext).mpr ⟨fun _ => hroom₁, hmeets'⟩)
      -- the rest of the longer wait, and what comes after it
      obtain ⟨s, os, log₂, hstep, htail, rfl⟩ := run_cons_ok_iff.mp hrun'
      obtain ⟨rfl, rfl⟩ := Prod.mk.inj (Except.ok.inj
        (hstep.symm.trans (logged_ok_iff.mpr ⟨_, hnext, rfl⟩)))
      exact ⟨_, _, run_cons_ok_iff.mpr ⟨_, _, _, logged_ok_iff.mpr ⟨_, hone, rfl⟩, hrun, rfl⟩,
        run_cons_ok_iff.mpr ⟨_, _, _, logged_ok_iff.mpr ⟨_, hother, rfl⟩, htail, rfl⟩,
        hsame.after_quiet hking⟩

/-- Of two cuts of one time, one has a first wait that is no longer than the other's, and
more waits after it. -/
theorem shorter_first (hsum : x + xs.sum = y + ys.sum) (hmore : 0 < xs.length + ys.length) :
    (x ≤ y ∧ xs ≠ []) ∨ (y ≤ x ∧ ys ≠ []) := by
  cases xs with
  | nil =>
      refine .inr ⟨by rw [List.sum_nil] at hsum; omega, ?_⟩
      rintro rfl
      simp at hmore
  | cons x' xs =>
      cases ys with
      | nil => exact .inl ⟨by rw [List.sum_nil] at hsum; omega, List.cons_ne_nil x' xs⟩
      | cons y' ys =>
          exact (Nat.le_total x y).imp (⟨·, List.cons_ne_nil x' xs⟩) (⟨·, List.cons_ne_nil y' ys⟩)

/-- **The verdict does not depend on the cut**, as long as both ways of cutting leave room.
The induction is on the number of waits in both; the shorter first wait is taken off. -/
theorem end_alike_of_sum (n : Nat) : ∀ {g : GameEngine} {tr : List ArrivalEvent} {x y : Nat}
    {xs ys : List Nat}, xs.length + ys.length = n → Represents g.arbiter →
    g.game_over = false → x + xs.sum = y + ys.sum →
    Meets exec WaitFits g tr ((x :: xs).map .wait) →
    Meets exec WaitFits g tr ((y :: ys).map .wait) → EndAlike g (x :: xs) (y :: ys) := by
  induction n with
  | zero =>
      intro g tr x y xs ys hn hrep hopen hsum hfits hfits'
      obtain rfl : xs = [] := List.eq_nil_of_length_eq_zero (by omega)
      obtain rfl : ys = [] := List.eq_nil_of_length_eq_zero (by omega)
      obtain rfl : x = y := by simpa using hsum
      exact .single hrep.sound x
  | succ n ih =>
      intro g tr x y xs ys hn hrep hopen hsum hfits hfits'
      rcases shorter_first hsum (by omega) with ⟨hle, hxs⟩ | ⟨hge, hys⟩
      · obtain ⟨x', xs, rfl⟩ := List.exists_cons_of_ne_nil hxs
        rw [List.length_cons] at hn
        rw [List.sum_cons] at hsum
        exact EndAlike.cons_of_le hrep hopen hle hfits hfits' fun g₁ tr₁ hrep₁ hopen₁ h₁ h₂ =>
          ih (by omega) hrep₁ hopen₁ (by omega) h₁ h₂
      · obtain ⟨y', ys, rfl⟩ := List.exists_cons_of_ne_nil hys
        rw [List.length_cons] at hn
        rw [List.sum_cons] at hsum
        exact (EndAlike.cons_of_le hrep hopen hge hfits' hfits fun g₁ tr₁ hrep₁ hopen₁ h₁ h₂ =>
          (ih (by omega) hrep₁ hopen₁ (by omega) h₂ h₁).symm).symm

end Waits

/-- **The verdict does not depend on the tick rate.** In every state of a game that is
not over, reached by waits that leave room, two ways of cutting the same time into waits that
leave room end it or not alike; one observer that is fed the whole game ends up the same,
and so does the first verdict of observers made for each batch. -/
theorem verdict_of_any_tick_rate {board_lines : List String} {b : Board} {f : MotionFactory}
    {g : GameEngine} {tr : List ArrivalEvent} (hparse : parse board_lines = .ok b)
    (hcd : kJumpDurationMs ≤ f.standard_cooldown_ms)
    (hrun : Reach exec WaitFits (GameEngine.new f b) g tr) (hopen : g.game_over = false)
    {xs ys : List Nat} (hxs : xs ≠ []) (hys : ys ≠ []) (hsum : xs.sum = ys.sum)
    (hfits : Meets exec WaitFits g tr (xs.map .wait))
    (hfits' : Meets exec WaitFits g tr (ys.map .wait)) :
    ∃ g₁ log₁ g₂ log₂, run (logged exec) g (xs.map .wait) = .ok (g₁, log₁) ∧
      run (logged exec) g (ys.map .wait) = .ok (g₂, log₂) ∧
      g₁.game_over = g₂.game_over ∧
      observed (tr ++ emitted log₁) = observed (tr ++ emitted log₂) ∧
      (log₁.map Prod.snd).findSome? Match.verdict_of
        = (log₂.map Prod.snd).findSome? Match.verdict_of := by
  have hrep := represents_of_reach (fresh_of_parse hparse) hcd hrun
  have hquiet : tr.any captured_a_king = false := by rw [← over_of_reach hrun, hopen]
  obtain ⟨x, xs, rfl⟩ := List.exists_cons_of_ne_nil hxs
  obtain ⟨y, ys, rfl⟩ := List.exists_cons_of_ne_nil hys
  obtain ⟨⟨g₁, log₁⟩, ⟨g₂, log₂⟩, hrun₁, hrun₂, hover, hobserved, hfirst⟩ :=
    end_alike_of_sum _ rfl hrep hopen (by simpa using hsum) hfits hfits'
  refine ⟨g₁, log₁, g₂, log₂, hrun₁, hrun₂, hover, ?_, hfirst⟩
  rw [observed_quiet_append hquiet, observed_quiet_append hquiet]
  exact hobserved

/-- Each side's rook is on its way to the other's king, and both arrive at once: cut in
three or in two, the second ends in the same draw. -/
theorem a_draw_at_any_tick_rate : ∃ b g tr,
    parse ["wR . bK", "bR . wK"] = .ok b ∧
    run exec (GameEngine.new shipped_factory b)
      [.request_move ⟨0, 0⟩ ⟨0, 2⟩, .request_move ⟨1, 0⟩ ⟨1, 2⟩, .wait 100] = .ok (g, tr) ∧
    ∃ g₁ log₁ g₂ log₂, run (logged exec) g ([300, 400, 300].map .wait) = .ok (g₁, log₁) ∧
      run (logged exec) g ([900, 100].map .wait) = .ok (g₂, log₂) ∧
      g₁.game_over = g₂.game_over ∧
      observed (tr ++ emitted log₁) = observed (tr ++ emitted log₂) ∧
      (log₁.map Prod.snd).findSome? Match.verdict_of
        = (log₂.map Prod.snd).findSome? Match.verdict_of := by
  obtain ⟨b, hparse, hb⟩ := exists_ok_such (p := fun b =>
      decide (Meets exec WaitFits (GameEngine.new shipped_factory b) []
        [.request_move ⟨0, 0⟩ ⟨0, 2⟩, .request_move ⟨1, 0⟩ ⟨1, 2⟩, .wait 100]) &&
      (run exec (GameEngine.new shipped_factory b)
        [.request_move ⟨0, 0⟩ ⟨0, 2⟩, .request_move ⟨1, 0⟩ ⟨1, 2⟩, .wait 100]).toOption.any
          fun r => decide (r.1.game_over = false ∧
            Meets exec WaitFits r.1 r.2 ([300, 400, 300].map .wait) ∧
            Meets exec WaitFits r.1 r.2 ([900, 100].map .wait)))
    (x := parse ["wR . bK", "bR . wK"]) (by decide +kernel)
  obtain ⟨hmeets, hb⟩ := Bool.and_eq_true_iff.mp hb
  obtain ⟨⟨g, tr⟩, hrun, hb⟩ := exists_ok_such hb
  obtain ⟨hopen, hfits, hfits'⟩ := of_decide_eq_true hb
  refine ⟨b, g, tr, hparse, hrun, ?_⟩
  exact verdict_of_any_tick_rate hparse (by decide)
    (reach_of_meets (of_decide_eq_true hmeets) hrun) hopen (by simp) (by simp) (by decide)
    hfits hfits'

/-- **A wait too long for the king.** A rook is on its way to a king: the longest wait and
one millisecond more end the game, and the other way around they do not. -/
theorem late_for_the_king : ∃ b g tr g₁ log₁ g₂ log₂, parse ["wR . bK"] = .ok b ∧
    kJumpDurationMs ≤ shipped_factory.standard_cooldown_ms ∧
    run exec (GameEngine.new shipped_factory b) [.request_move ⟨0, 0⟩ ⟨0, 2⟩] = .ok (g, tr) ∧
    g.game_over = false ∧ [2147483647, 1].sum = [1, 2147483647].sum ∧
    run (logged exec) g ([2147483647, 1].map .wait) = .ok (g₁, log₁) ∧
    run (logged exec) g ([1, 2147483647].map .wait) = .ok (g₂, log₂) ∧
    g₁.game_over = true ∧ g₂.game_over = false := by
  obtain ⟨b, hparse, hb⟩ := exists_ok_such (p := fun b =>
      (run exec (GameEngine.new shipped_factory b) [.request_move ⟨0, 0⟩ ⟨0, 2⟩]).toOption.any
        fun r : GameEngine × _ => (run (logged exec) r.1 ([2147483647, 1].map .wait)).toOption.any
          fun r₁ : GameEngine × _ =>
            (run (logged exec) r.1 ([1, 2147483647].map .wait)).toOption.any
              fun r₂ : GameEngine × _ =>
                decide (r.1.game_over = false ∧ r₁.1.game_over = true ∧ r₂.1.game_over = false))
    (x := parse ["wR . bK"]) (by decide +kernel)
  obtain ⟨⟨g, tr⟩, hrun, hb⟩ := exists_ok_such hb
  obtain ⟨⟨g₁, log₁⟩, hrun₁, hb⟩ := exists_ok_such hb
  obtain ⟨⟨g₂, log₂⟩, hrun₂, hb⟩ := exists_ok_such hb
  obtain ⟨hopen, hover, hnot⟩ := of_decide_eq_true hb
  exact ⟨b, g, tr, g₁, log₁, g₂, log₂, hparse, by decide, hrun, hopen, rfl, hrun₁, hrun₂, hover,
    hnot⟩

end KungFuChess
