/-
**Room for a wait.**

What a motion has been under way is an `int`, and a wait is added to it before anything is
compared. A wait that is longer than a motion in flight leaves room for wraps that sum:
the motion is far from its end again, whatever its duration.

So long as every wait leaves room (`WaitFits`), a motion in flight has begun and is not
over (`on_time_of_reach`), and what a tick computes of it are sums and differences of
whole numbers (`Roomy.elapsed_advanced`, `Roomy.arrives_iff`, `Roomy.until_arrival`).
-/
import KungFuChess.Runs

set_option autoImplicit false

namespace KungFuChess

open Machine Numbers RealTimeArbiter GameEngine

/-! ## The condition -/

/-- No motion in flight is so far along that `ms` more of it are not an `int`. -/
def RealTimeArbiter.HasRoom (a : RealTimeArbiter) (ms : Int) : Prop :=
  ∀ m ∈ a.active_motions, ms ≤ 2147483647 - m.elapsed_ms

instance (a : RealTimeArbiter) (ms : Int) : Decidable (a.HasRoom ms) :=
  inferInstanceAs (Decidable (∀ m ∈ a.active_motions, ms ≤ 2147483647 - m.elapsed_ms))

/-- The condition on a command: while the game goes on, a wait is no longer than the motions
in flight leave room for. -/
def GameEngine.WaitFits {ω : Type*} (g : GameEngine) (_ : List ω) : Command → Prop
  | .wait ms => g.game_over = false → g.arbiter.HasRoom ms
  | .request_move _ _ => True
  | .request_jump _ => True

instance {ω : Type*} (g : GameEngine) (tr : List ω) : ∀ cmd, Decidable (g.WaitFits tr cmd)
  | .wait ms => inferInstanceAs (Decidable (g.game_over = false → g.arbiter.HasRoom ms))
  | .request_move _ _ => .isTrue trivial
  | .request_jump _ => .isTrue trivial

/-! ## One motion -/

/-- A motion that has begun and is not over. -/
structure Motion.OnTime (m : Motion) : Prop where
  begun : 0 ≤ m.elapsed_ms
  not_over : m.elapsed_ms ≤ m.duration_ms

/-- And it has room for `ms` more. -/
structure Motion.Roomy (m : Motion) (ms : Int) : Prop extends m.OnTime where
  room : ms ≤ 2147483647 - m.elapsed_ms

/-- A motion that stays in flight has not ended, even where its time wraps. -/
theorem still_active_up {ms : Int} {motions : List Motion} {m : Motion}
    (hm : m ∈ still_active ms motions) : m.elapsed_ms < m.duration_ms := by
  obtain ⟨m₀, hm₀, rfl⟩ := List.mem_map.mp hm
  have hup := (List.mem_filter.mp hm₀).2
  unfold arrives_within at hup
  simp only [Bool.not_eq_eq_eq_not, Bool.not_true, decide_eq_false_iff_not] at hup
  exact lt_of_not_ge hup

namespace Motion.Roomy

variable {m : Motion} {ms x y : Int}

theorem mono (h : m.Roomy y) (hle : x ≤ y) : m.Roomy x :=
  ⟨h.toOnTime, hle.trans h.room⟩

/-- **The sum is that of whole numbers.** -/
theorem elapsed_advanced (h : m.Roomy ms) (hms : 0 ≤ ms) :
    (advanced ms m).elapsed_ms = m.elapsed_ms + ms := by
  obtain ⟨⟨hbegun, -⟩, hroom⟩ := h
  exact to_int_of_fits ⟨by omega, by omega⟩

theorem arrives_iff (h : m.Roomy ms) (hms : 0 ≤ ms) :
    arrives_within ms m = true ↔ m.duration_ms - m.elapsed_ms ≤ ms := by
  unfold arrives_within
  rw [decide_eq_true_eq, h.elapsed_advanced hms]
  omega

/-- And so is the difference, if the motion arrives. -/
theorem until_arrival (h : m.Roomy ms) (hms : 0 ≤ ms) (harrives : arrives_within ms m = true) :
    time_until_arrival_ms m = m.duration_ms - m.elapsed_ms := by
  have hwithin := (h.arrives_iff hms).mp harrives
  obtain ⟨⟨hbegun, hover⟩, hroom⟩ := h
  exact to_int_of_fits ⟨by omega, by omega⟩

/-- What stays in flight has room for the rest. -/
theorem advance (h : m.Roomy (x + y)) (hx : 0 ≤ x) (hy : 0 ≤ y)
    (hstill : arrives_within x m = false) : (advanced x m).Roomy y := by
  have hroomy := h.mono (x := x) (by omega)
  have hsum := hroomy.elapsed_advanced hx
  have hup : ¬ m.duration_ms - m.elapsed_ms ≤ x := by
    rw [← hroomy.arrives_iff hx, hstill]
    exact Bool.false_ne_true
  obtain ⟨⟨hbegun, -⟩, hroom⟩ := h
  refine ⟨⟨?_, ?_⟩, ?_⟩
  · omega
  · show (advanced x m).elapsed_ms ≤ m.duration_ms
    omega
  · omega

end Motion.Roomy

/-! ## Runs -/

/-- What is in flight after a tick was in flight all through it. -/
theorem mem_still_active_of_tick {a a' : RealTimeArbiter} {ms : Int} {es : List ArrivalEvent}
    (hs : Sound a.board a.active_motions) (hrun : a.advance_time ms = .ok (a', es)) :
    a'.clock_ms = a.clock_ms + ms ∧
      ∀ m ∈ a'.active_motions, m ∈ still_active ms a.active_motions := by
  obtain ⟨b, hloop, -, -⟩ := advance_time_rule ms hs (fun _ _ => True) trivial
    (fun _ _ _ _ _ => trivial) (fun _ _ _ _ _ _ _ _ _ _ => trivial)
  rw [advance_time_of_loop hloop] at hrun
  obtain ⟨rfl, -⟩ := Prod.mk.inj (Except.ok.inj hrun)
  exact ⟨rfl, fun m hm => List.mem_of_mem_filter hm⟩

/-- A tick with room keeps motions on time. -/
theorem on_time_tick {a a' : RealTimeArbiter} {ms : Int} {es : List ArrivalEvent} (hms : 0 ≤ ms)
    (hs : Sound a.board a.active_motions) (hon : ∀ m ∈ a.active_motions, m.OnTime)
    (hroom : a.HasRoom ms) (hrun : a.advance_time ms = .ok (a', es)) :
    ∀ m ∈ a'.active_motions, m.OnTime := by
  intro m hm
  obtain ⟨m₀, hm₀, rfl⟩ := List.mem_map.mp ((mem_still_active_of_tick hs hrun).2 m hm)
  obtain ⟨hm₀, hstill⟩ := List.mem_filter.mp hm₀
  have hroomy : m₀.Roomy (ms + 0) := ⟨hon m₀ hm₀, by
    rw [Int.add_zero]
    exact hroom m₀ hm₀⟩
  exact (hroomy.advance hms (le_refl 0) (by simpa using hstill)).toOnTime

/-- A motion that starts has begun. -/
theorem Starts.on_time {board : Board} {m : Motion} {x : Piece} (h : Starts board m x) :
    m.OnTime :=
  ⟨h.elapsed.ge, h.elapsed.le.trans h.duration⟩

/-- **Motions are on time** as long as every wait leaves room. -/
theorem on_time_of_reach {f : MotionFactory} {b : Board} {g : GameEngine} {tr : List ArrivalEvent}
    (hb : Fresh b) (h : Reach exec WaitFits (GameEngine.new f b) g tr) :
    ∀ m ∈ g.arbiter.active_motions, m.OnTime := by
  refine Reach.invariant (P := fun g _ => ∀ m ∈ g.arbiter.active_motions, m.OnTime)
    (fun m hm => absurd hm List.not_mem_nil) ?_ h
  intro g tr cmd g' es hr hon hfits hrun
  cases exec_effect hrun with
  | refused => exact hon
  | started _ m x _ hs _ _ =>
      intro m' hm'
      rcases List.mem_append.mp hm' with hm' | hm'
      · exact hon m' hm'
      · rw [List.mem_singleton.mp hm']
        exact hs.on_time
  | waited ms a es hopen hadv =>
      exact on_time_tick (Int.natCast_nonneg ms) (sound_of_reach hb hr) hon (hfits hopen) hadv

end KungFuChess
