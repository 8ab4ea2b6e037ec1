/-
**The wait that decides the game is its last.**

The engine looks for a captured king when a tick is over, and from then on no call does
anything (`exec_over`). So a run in which a king has been captured has one deciding wait
among its calls, and ends where that wait left it (`Deciding`); the wait may have gone past
the deciding arrival, and how far is up to whoever chose its length.
-/
import KungFuChess.Schedule
import KungFuChess.TickRate

set_option autoImplicit false

namespace KungFuChess

open Machine RealTimeArbiter GameEngine

/-- While the game is on, a wait moves the clock by its length. -/
theorem exec_wait_clock {g g' : GameEngine} {ms : Nat} {es : List ArrivalEvent} (hs : g.Sound)
    (hopen : g.game_over = false) (hexec : exec g (.wait ms) = .ok (g', es)) :
    g'.arbiter.clock_ms = g.arbiter.clock_ms + ms := by
  obtain ⟨a, es', hadv, _⟩ := sound_advance (ms : Int) hs
  rw [exec_wait_open hopen hadv] at hexec
  obtain ⟨rfl, rfl⟩ := Prod.mk.inj (Except.ok.inj hexec)
  exact (up_after_tick hs hadv).1

section Runs

variable {f : MotionFactory} {b : Board} {g : GameEngine} {tr : List ArrivalEvent}

/-- The arrivals of a run come in order, none after the clock. -/
theorem in_order_of_reach (hb : Fresh b) (hrun : Reach exec anyStep (GameEngine.new f b) g tr) :
    (tr.map ArrivalEvent.arrived_at_ms).Pairwise (· ≤ ·) ∧
      ∀ e ∈ tr, e.arrived_at_ms ≤ g.arbiter.clock_ms := by
  obtain ⟨rs, hchronicle, rfl⟩ := chronicle_of_reach (sound_new f hb) hrun
  have horder : InOrder 0 g.arbiter.clock_ms rs ∧ 0 ≤ g.arbiter.clock_ms := by
    refine hchronicle.invariant (P := fun (g : GameEngine) rs =>
      InOrder 0 g.arbiter.clock_ms rs ∧ 0 ≤ g.arbiter.clock_ms) ⟨.nil _ _, le_refl _⟩ ?_
    rintro g rs cmd g' rs' hreach ⟨horder, hclock⟩ _ hexec
    have hs := (run_of_chronicle (sound_new f hb) hreach).1
    obtain ⟨horder', hle⟩ := horder.step hclock hs (exec_resolved_spec hs hexec).1
    exact ⟨horder', hclock.trans hle⟩
  constructor
  · rw [List.map_map]
    exact horder.1.sorted
  · rw [List.forall_mem_map]
    exact horder.1.to_hi

/-- Once the game is over, no calls do anything. -/
theorem run_over (hover : g.game_over = true) (cmds : List Command) :
    run exec g cmds = .ok (g, []) := by
  induction cmds with
  | nil => rfl
  | cons cmd cmds ih => exact run_cons_ok_iff.mpr ⟨g, [], [], exec_over hover cmd, ih, rfl⟩

/-- A call leaves the game open if no king is captured in it. -/
theorem over_of_exec {g' : GameEngine} {cmd : Command} {es : List ArrivalEvent}
    (hopen : g.game_over = false) (hexec : exec g cmd = .ok (g', es)) :
    g'.game_over = es.any captured_a_king ∧
      (es.any captured_a_king = true → ∃ ms, cmd = .wait ms) := by
  cases exec_effect hexec with
  | refused => exact ⟨hopen, fun h => by cases h⟩
  | started => exact ⟨hopen, fun h => by cases h⟩
  | waited ms a es => exact ⟨rfl, fun _ => ⟨ms, rfl⟩⟩

/-- The deciding wait of a run: no king is captured before it, one is in it, and the calls
after it change nothing and return nothing. -/
structure Deciding (g₀ : GameEngine) (cmds : List Command) (g : GameEngine)
    (tr : List ArrivalEvent) (before : List Command) (ms : Nat) (after : List Command)
    (g₁ : GameEngine) (tr₁ es : List ArrivalEvent) : Prop where
  calls : cmds = before ++ .wait ms :: after
  run_before : run exec g₀ before = .ok (g₁, tr₁)
  no_king : tr₁.any captured_a_king = false
  wait : exec g₁ (.wait ms) = .ok (g, es)
  king : es.any captured_a_king = true
  run_after : run exec g after = .ok (g, [])
  events : tr = tr₁ ++ es

/-- **A decided run has a deciding wait.** The induction is on the calls. -/
theorem deciding_wait {cmds : List Command} : ∀ {g₀ g : GameEngine} {tr : List ArrivalEvent},
    g₀.game_over = false → run exec g₀ cmds = .ok (g, tr) → tr.any captured_a_king = true →
    ∃ before ms after g₁ tr₁ es, Deciding g₀ cmds g tr before ms after g₁ tr₁ es ∧
      g₁.game_over = false ∧ g.game_over = true := by
  induction cmds with
  | nil =>
      intro g₀ g tr _ hrun hking
      obtain ⟨-, rfl⟩ := Prod.mk.inj (Except.ok.inj hrun)
      cases hking
  | cons cmd cmds ih =>
      intro g₀ g tr hopen hrun hking
      obtain ⟨g₂, es₂, tr₂, hexec, hrest, rfl⟩ := run_cons_ok_iff.mp hrun
      obtain ⟨hover, hwait⟩ := over_of_exec hopen hexec
      cases hes : es₂.any captured_a_king with
      | true =>
          -- this is the one, and all that comes after it is idle
          obtain ⟨ms, rfl⟩ := hwait hes
          rw [hes] at hover
          have hidle := run_over hover cmds
          obtain ⟨rfl, rfl⟩ := Prod.mk.inj (Except.ok.inj (hrest.symm.trans hidle))
          exact ⟨[], ms, cmds, g₀, [], es₂,
            ⟨rfl, rfl, rfl, hexec, hes, hidle, List.append_nil es₂⟩, hopen, hover⟩
      | false =>
          rw [hes] at hover
          rw [List.any_append, hes, Bool.false_or] at hking
          obtain ⟨before, ms, after, g₁, tr₁, es, hdeciding, hopen₁, hover₁⟩ :=
            ih hover hrest hking
          obtain ⟨rfl, hbefore, hquiet, hwait, hes', hafter, rfl⟩ := hdeciding
          refine ⟨cmd :: before, ms, after, g₁, es₂ ++ tr₁, es, ⟨rfl, ?_, ?_, hwait, hes', hafter,
            ?_⟩, hopen₁, hover₁⟩
          · exact run_cons_ok_iff.mpr ⟨g₂, es₂, tr₁, hexec, hbefore, rfl⟩
          · rw [List.any_append, hes, hquiet, Bool.false_or]
          · rw [List.append_assoc]

end Runs

/-- **Frozen from the end of the deciding wait on.** In a run in which a king is captured the
calls are cut in three: before the deciding wait no king is captured, the wait captures one,
and what comes after it leaves the state as it is, returning nothing, as would any other
call. The events of the run are in order, none later than the end of that wait. -/
theorem frozen_after_deciding_wait {board_lines : List String} {b : Board} {f : MotionFactory}
    {cmds : List Command} {g : GameEngine} {tr : List ArrivalEvent}
    (hparse : parse board_lines = .ok b) (hrun : run exec (GameEngine.new f b) cmds = .ok (g, tr))
    (hking : tr.any captured_a_king = true) :
    ∃ before ms after g₁ tr₁ es,
      Deciding (GameEngine.new f b) cmds g tr before ms after g₁ tr₁ es ∧
      (∀ cmd, exec g cmd = .ok (g, [])) ∧
      (tr.map ArrivalEvent.arrived_at_ms).Pairwise (· ≤ ·) ∧
      g.arbiter.clock_ms = g₁.arbiter.clock_ms + ms ∧
      ∀ e ∈ tr, e.arrived_at_ms ≤ g₁.arbiter.clock_ms + ms := by
  have hb := fresh_of_parse hparse
  obtain ⟨hsorted, hclock⟩ := in_order_of_reach hb (reach_of_run hrun)
  obtain ⟨before, ms, after, g₁, tr₁, es, hdeciding, hopen, hover⟩ := deciding_wait rfl hrun hking
  have hs : g₁.Sound := sound_of_reach hb (reach_of_run hdeciding.run_before)
  have hend := exec_wait_clock hs hopen hdeciding.wait
  rw [hend] at hclock
  exact ⟨before, ms, after, g₁, tr₁, es, hdeciding, exec_over hover, hsorted, hend, hclock⟩

/-- A rook takes the king at 399 ms, another arrives at 799; one wait covers both, and
another comes after it. -/
theorem one_wait_past_the_king : ∃ b g tr,
    parse ["wR bK .", "wR . ."] = .ok b ∧
    run exec (GameEngine.new shipped_factory b)
      [.request_move ⟨0, 0⟩ ⟨0, 1⟩, .request_move ⟨1, 0⟩ ⟨1, 2⟩, .wait 1000, .wait 1000]
        = .ok (g, tr) ∧
    ∃ before ms after g₁ tr₁ es, Deciding (GameEngine.new shipped_factory b)
      [.request_move ⟨0, 0⟩ ⟨0, 1⟩, .request_move ⟨1, 0⟩ ⟨1, 2⟩, .wait 1000, .wait 1000]
      g tr before ms after g₁ tr₁ es ∧
      (∀ cmd, exec g cmd = .ok (g, [])) ∧
      (tr.map ArrivalEvent.arrived_at_ms).Pairwise (· ≤ ·) ∧
      g.arbiter.clock_ms = g₁.arbiter.clock_ms + ms ∧
      ∀ e ∈ tr, e.arrived_at_ms ≤ g₁.arbiter.clock_ms + ms := by
  obtain ⟨b, hparse, hb⟩ := exists_ok_such (p := fun b =>
      ((run exec (GameEngine.new shipped_factory b)
        [.request_move ⟨0, 0⟩ ⟨0, 1⟩, .request_move ⟨1, 0⟩ ⟨1, 2⟩, .wait 1000,
          .wait 1000]).toOption.any fun r => r.2.any captured_a_king) = true)
    (x := parse ["wR bK .", "wR . ."]) (by decide)
  obtain ⟨⟨g, tr⟩, hrun, hking⟩ := exists_ok_such (of_decide_eq_true hb)
  exact ⟨b, g, tr, hparse, hrun, frozen_after_deciding_wait hparse hrun hking⟩

/-- **A board that went on.** In the same run the second rook arrives after the king was
taken. -/
theorem arrival_after_the_king : ¬ ∀ (board_lines : List String) (b : Board) (f : MotionFactory)
    (g : GameEngine) (tr pre post : List ArrivalEvent) (e₀ : ArrivalEvent),
    parse board_lines = .ok b → Reach exec anyStep (GameEngine.new f b) g tr →
    tr = pre ++ e₀ :: post → pre.any captured_a_king = false → captured_a_king e₀ = true →
    ∀ e ∈ tr, e.arrived_at_ms ≤ e₀.arrived_at_ms := by
  intro h
  obtain ⟨b, hparse, hb⟩ := exists_ok_such (p := fun b =>
      ((run exec (GameEngine.new shipped_factory b)
        [.request_move ⟨0, 0⟩ ⟨0, 1⟩, .request_move ⟨1, 0⟩ ⟨1, 2⟩, .wait 1000]).toOption.any
          fun r => r.2.head?.any fun e₀ => captured_a_king e₀ &&
            r.2.any fun e => decide (e₀.arrived_at_ms < e.arrived_at_ms)) = true)
    (x := parse ["wR bK .", "wR . ."]) (by decide)
  obtain ⟨⟨g, tr⟩, hrun, htr⟩ := exists_ok_such (of_decide_eq_true hb)
  obtain ⟨e₀, hfirst, hboth⟩ := (Option.any_eq_true _ _).mp htr
  obtain ⟨hking, hlater⟩ := Bool.and_eq_true_iff.mp hboth
  obtain ⟨e, he, hlater⟩ := List.any_eq_true.mp hlater
  obtain ⟨post, hpost⟩ := List.head?_eq_some_iff.mp hfirst
  have hnot := h _ b _ g tr [] post e₀ hparse (reach_of_run hrun) hpost rfl hking e he
  exact absurd (of_decide_eq_true hlater) (not_lt.mpr hnot)

end KungFuChess
