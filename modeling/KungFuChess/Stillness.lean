/-
**The board stands still unless the game is running.**

`tick` decides before the queue whether time passes, and `apply` reads the state
again for every command. Both agree because no command starts a match: a state
that is not `Running` stays so through the queue (`Applied.running`), and there no
branch of `apply` reaches the engine. So over any run the game core, the history
and the revision change in the ticks that begin `Running`, and only in those.
-/
import KungFuChess.Conservation
import KungFuChess.MatchSteps

set_option autoImplicit false

namespace KungFuChess

open Machine

namespace Match

/-- The game core, the history and the revision are what they were. -/
structure Still (m m' : Match) : Prop where
  engine : m'.engine = m.engine
  history : m'.history = m.history
  revision : m'.revision = m.revision

theorem Still.refl (m : Match) : Still m m := ⟨rfl, rfl, rfl⟩

theorem Still.trans {m m₁ m₂ : Match} (h₁ : Still m m₁) (h₂ : Still m₁ m₂) : Still m m₂ where
  engine := h₂.engine.trans h₁.engine
  history := h₂.history.trans h₁.history
  revision := h₂.revision.trans h₁.revision

/-! ## The queue -/

/-- No command starts a match. -/
theorem Applied.running {m m' : Match} {os : List MatchEvent} {resigned : Option PieceColor}
    (h : Applied m m' os resigned) (hrunning : m'.state = .Running) : m.state = .Running := by
  -- a command may end the game, and reaches neither the watch nor the seats
  have hover : m.game_over = false := by
    rw [Bool.eq_false_iff]
    intro hover
    have hfinished : m'.state = .Finished := by
      unfold state
      rw [h.rest]
      simp [hover]
    rw [hrunning] at hfinished
    cases hfinished
  have hsame : m'.game_over = false := by
    rw [Bool.eq_false_iff]
    intro hover'
    have hfinished : m'.state = .Finished := if_pos hover'
    rw [hrunning] at hfinished
    cases hfinished
  have hwatch : m'.disconnect_watch = m.disconnect_watch := by rw [h.rest]
  have haudience : m'.audience = m.audience := by rw [h.rest]
  unfold state at hrunning ⊢
  rw [hsame, hwatch, haudience] at hrunning
  rw [hover]
  exact hrunning

/-- A command for a match that is not running reaches no engine. -/
theorem apply_still {m m' : Match} {source : PieceColor} {message : ClientMessage}
    {os : List MatchEvent} (hstate : m.state ≠ .Running)
    (h : m.apply source message = .ok (m', os)) : Still m m' := by
  unfold apply at h
  split at h
  · obtain ⟨rfl, _⟩ := Prod.mk.inj (Except.ok.inj h)
    exact .refl m
  · obtain ⟨rfl, _⟩ := Prod.mk.inj (Except.ok.inj h)
    exact .refl m
  -- a resignation, which a frozen match takes as well
  · obtain ⟨rfl, _⟩ := Prod.mk.inj (Except.ok.inj h)
    exact ⟨rfl, rfl, rfl⟩
  · obtain ⟨rfl, _⟩ := Prod.mk.inj (Except.ok.inj h)
    exact .refl m
  all_goals
    rename_i hrunning
    first
    | exact absurd hrunning hstate
    | (rename_i hrunning' _ _; exact absurd hrunning' hstate)

theorem run_apply_all_still (commands : List (PieceColor × ClientMessage)) :
    ∀ {m m' : Match} {os : List MatchEvent}, m.state ≠ .Running →
      run apply_all m commands = .ok (m', os) → Still m m' := by
  induction commands with
  | nil =>
      intro m m' os _ h
      obtain ⟨rfl, _⟩ := Prod.mk.inj (Except.ok.inj h)
      exact .refl m
  | cons command commands ih =>
      intro m m' os hstate h
      obtain ⟨m₁, os₁, os₂, hone, hrun, rfl⟩ := run_cons_ok_iff.mp h
      have hstate₁ : m₁.state ≠ .Running := fun hr => hstate ((apply_applied hone).running hr)
      exact (apply_still hstate hone).trans (ih hstate₁ hrun)

/-! ## Ticks and calls -/

theorem advance_board_still {m m' : Match} {elapsed_ms : Int} {answers : List MatchEvent}
    {events : List ArrivalEvent} (hstate : m.state ≠ .Running)
    (h : m.advance_board elapsed_ms = .ok (m', answers, events)) : Still m m' := by
  obtain ⟨m₁, hrun, ⟨hopen, _⟩ | ⟨_, rfl, _⟩⟩ := advance_board_cases h
  · exact absurd hopen hstate
  have hdrain : m.drain.state ≠ .Running := hstate
  have hstill := run_apply_all_still m.queue hdrain hrun
  exact ⟨hstill.engine, hstill.history, hstill.revision⟩

theorem Announced.still {m m' : Match} (h : Announced m m') : Still m m' := by
  rw [h.rest]
  exact ⟨rfl, rfl, rfl⟩

/-- The call is a tick, and begins with the match running. -/
def TimePasses (m : Match) : Call → Prop
  | .tick _ _ => m.state = .Running
  | _ => False

instance (m : Match) : ∀ call, Decidable (TimePasses m call)
  | .tick _ _ => inferInstanceAs (Decidable (m.state = .Running))
  | .join _ _ _ | .join_spectator _ | .leave_spectator _ | .enqueue _ _ | .on_disconnect _
  | .reconnect _ _ => .isFalse not_false

/-- **The frame of a step.** -/
theorem exec_still {m m' : Match} {call : Call} {os : List MatchEvent}
    (hcall : ¬ TimePasses m call) (h : exec m call = .ok (m', os)) : Still m m' := by
  obtain ⟨now, elapsed_ms, rfl⟩ | hother := tick_or_not call
  · obtain ⟨m₁, answers, events, hadv, rfl, _⟩ := tick_ok h
    exact (advance_board_still hcall hadv).trans
      (announce_announced m₁ now events m₁.revision).still
  · rw [call_frame hother h]
    exact ⟨rfl, rfl, rfl⟩

/-- What a tick records: something under the next revision, or nothing. -/
theorem tick_recorded {m m' : Match} {now : Int} {elapsed_ms : Nat} {os : List MatchEvent}
    (h : m.tick now elapsed_ms = .ok (m', os)) :
    (∃ events, events ≠ [] ∧ m'.history = m.history ++ events ∧
      m'.revision = m.revision + 1) ∨
    (m'.history = m.history ∧ m'.revision = m.revision) := by
  obtain ⟨m₁, answers, events, hadv, rfl, _⟩ := tick_ok h
  have hstill := (announce_announced m₁ now events m₁.revision).still
  rw [hstill.history, hstill.revision, (advance_board_spec hadv).rest]
  by_cases hnil : events = []
  · right
    simp [hnil]
  · left
    refine ⟨events, hnil, rfl, ?_⟩
    simp [hnil]

/-- **The board stands still unless the game is running.** A run of any length, from
any state of a match, none of whose steps is a tick that begins `Running`, leaves the
game core, the history and the revision alone; and a tick that does begin `Running`
counts one revision when it adds to the history, and otherwise leaves both. -/
theorem still_unless_running (m m' : Match) (os : List MatchEvent) :
    (Reach exec (fun m _ call => ¬ TimePasses m call) m m' os → Still m m') ∧
    ∀ now elapsed_ms, m.state = .Running → exec m (.tick now elapsed_ms) = .ok (m', os) →
      (∃ events, events ≠ [] ∧ m'.history = m.history ++ events ∧
        m'.revision = m.revision + 1) ∨
      (m'.history = m.history ∧ m'.revision = m.revision) := by
  constructor
  · intro hrun
    refine Reach.invariant (P := fun m' _ => Still m m') (.refl m) ?_ hrun
    intro m₁ _ call m₂ _ _ hstill hcall hstep
    exact hstill.trans (exec_still hcall hstep)
  · intro now elapsed_ms _ hstep
    exact tick_recorded hstep

/-- Black's rook is on its way when Black drops: nothing moves until Black is back, and
the next tick is one that records. -/
theorem still_while_frozen : ∃ m₀ m₁ m₂ os₀ os₁ os₂,
    run exec (Match.new three_on_a_row shipped_factory true 20000 3000 "")
      [.join "white" 1200 ⟨1⟩, .join "black" 1200 ⟨2⟩,
        .enqueue .Black (.MoveRequest ⟨0, 2⟩ ⟨0, 1⟩), .tick 0 0, .on_disconnect .Black]
      = .ok (m₀, os₀) ∧
    run exec m₀ [.enqueue .White (.JumpRequest ⟨0, 0⟩), .tick 0 400, .tick 400 400,
      .reconnect .Black ⟨3⟩] = .ok (m₁, os₁) ∧
    Still m₀ m₁ ∧
    exec m₁ (.tick 800 400) = .ok (m₂, os₂) ∧
    ((∃ events, events ≠ [] ∧ m₂.history = m₁.history ++ events ∧
        m₂.revision = m₁.revision + 1) ∨
      (m₂.history = m₁.history ∧ m₂.revision = m₁.revision)) := by
  obtain ⟨⟨⟨m₀, os₀⟩, ⟨m₁, os₁⟩, ⟨m₂, os₂⟩⟩, hall, hp⟩ := exists_ok_such (p := fun r =>
      Meets exec (fun m _ call => ¬ TimePasses m call) r.1.1 []
        [.enqueue .White (.JumpRequest ⟨0, 0⟩), .tick 0 400, .tick 400 400,
          .reconnect .Black ⟨3⟩] ∧ r.2.1.1.state = .Running) (x := do
    let before ← run exec (Match.new three_on_a_row shipped_factory true 20000 3000 "")
      [.join "white" 1200 ⟨1⟩, .join "black" 1200 ⟨2⟩,
        .enqueue .Black (.MoveRequest ⟨0, 2⟩ ⟨0, 1⟩), .tick 0 0, .on_disconnect .Black]
    let between ← run exec before.1 [.enqueue .White (.JumpRequest ⟨0, 0⟩), .tick 0 400,
      .tick 400 400, .reconnect .Black ⟨3⟩]
    let after ← exec between.1 (.tick 800 400)
    return (before, between, after)) (by decide)
  obtain ⟨⟨n₀, ns₀⟩, hfirst, hrest⟩ := (bind_ok_iff _ _ _).mp hall
  obtain ⟨⟨n₁, ns₁⟩, hsecond, hrest⟩ := (bind_ok_iff _ _ _).mp hrest
  obtain ⟨⟨n₂, ns₂⟩, hthird, hret⟩ := (bind_ok_iff _ _ _).mp hrest
  cases hret
  obtain ⟨hmeets, hrunning⟩ := of_decide_eq_true hp
  exact ⟨m₀, m₁, m₂, os₀, os₁, os₂, hfirst, hsecond,
    (still_unless_running _ _ _).1 (reach_of_meets hmeets hsecond), hthird,
    (still_unless_running _ _ _).2 _ _ hrunning hthird⟩

end Match

end KungFuChess
