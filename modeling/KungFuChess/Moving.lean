/-
**Which motions end.**

A motion ends with an arrival that names its piece: the piece arrives or is turned back,
or it is captured, in the air or on its way. So whoever takes out of a list of pieces in
motion those that the arrivals name keeps no piece that is not in motion
(`advance_moving`, `run_moving`). And a start is announced when the piece is in motion
(`apply_announces`).
-/
import KungFuChess.MatchSteps
import Mathlib.Order.BooleanAlgebra.Set

set_option autoImplicit false

namespace KungFuChess

open Machine RealTimeArbiter GameEngine

/-! ## The arbiter -/

/-- The pieces that some arrivals name. -/
def ended_ids (events : List ArrivalEvent) : List PieceId :=
  events.flatMap fun e => e.moved_piece.id :: captured_ids e

@[simp] theorem ended_ids_append (events later : List ArrivalEvent) :
    ended_ids (events ++ later) = ended_ids events ++ ended_ids later := List.flatMap_append

theorem mem_ended_ids_singleton {e : ArrivalEvent} {i : PieceId} :
    i ∈ ended_ids [e] ↔ i = e.moved_piece.id ∨ i ∈ captured_ids e := by
  simp [ended_ids]

/-- The pieces in motion. -/
def RealTimeArbiter.moving (a : RealTimeArbiter) : Set PieceId :=
  {i | (a.motion_for i).isSome = true}

theorem mem_moving {a : RealTimeArbiter} {i : PieceId} :
    i ∈ a.moving ↔ ∃ m ∈ a.active_motions, m.id = i := by
  simp [moving, motion_for, Motion.id]

/-- **A tick** takes no piece out of motion but those its arrivals name. -/
theorem advance_moving {a a' : RealTimeArbiter} {ms : Int} {es : List ArrivalEvent}
    (hs : Sound a.board a.active_motions) (h : a.advance_time ms = .ok (a', es)) :
    a.moving \ {i | i ∈ ended_ids es} ⊆ a'.moving := by
  -- whoever was to arrive has been resolved, or was captured before
  obtain ⟨b, hrun, -, hcaptured, harrived⟩ := advance_time_rule ms hs
    (fun ps b => (∀ i ∈ b.captured_this_batch, i ∈ ended_ids b.events) ∧
      ∀ p ∈ sorted_arrivals ms a.active_motions, p ∈ ps ∨ p.id ∈ ended_ids b.events)
    ⟨by simp [batch_start], fun p hp => .inl hp⟩
    (by
      rintro p ps b hc ⟨hcaptured, harrived⟩
      refine ⟨hcaptured, fun q hq => ?_⟩
      rcases harrived q hq with hmem | hended
      · rcases List.mem_cons.mp hmem with rfl | hmem
        · exact .inr (hcaptured _ hc)
        · exact .inl hmem
      · exact .inr hended)
    (by
      rintro p ps b e b' hc _ ⟨hcaptured, harrived⟩ _ hset
      have hevents : ∀ i, i ∈ ended_ids b'.events ↔
          i ∈ ended_ids b.events ∨ i = p.id ∨ i ∈ captured_ids e := by
        intro i
        rw [hset.events, ended_ids_append, List.mem_append, mem_ended_ids_singleton, hset.moved_id]
      constructor
      · intro i hi
        rw [hset.captured] at hi
        rw [hevents]
        rcases List.mem_append.mp hi with hi | hi
        · exact .inr (.inr hi)
        · exact .inl (hcaptured i hi)
      · intro q hq
        rw [hevents]
        rcases harrived q hq with hmem | hended
        · rcases List.mem_cons.mp hmem with rfl | hmem
          · exact .inr (.inr (.inl rfl))
          · exact .inl hmem
        · exact .inr (.inl hended))
  rw [advance_time_of_loop hrun] at h
  obtain ⟨rfl, rfl⟩ := Prod.mk.inj (Except.ok.inj h)
  rintro i ⟨hi, hnot⟩
  obtain ⟨m, hm, rfl⟩ := mem_moving.mp hi
  by_cases harrives : arrives_within ms m = true
  · -- its arrival is in the batch
    have hpending : (⟨advanced ms m, clamp (time_until_arrival_ms m) 0 ms⟩ : PendingArrival)
        ∈ sorted_arrivals ms a.active_motions :=
      (StableSort.stableSort_perm _ _).mem_iff.mpr
        (List.mem_map.mpr ⟨m, List.mem_filter.mpr ⟨hm, harrives⟩, rfl⟩)
    rcases harrived _ hpending with hmem | hended
    · cases hmem
    · exact absurd hended hnot
  · -- it stays in flight, unless it is called off
    have hstill : advanced ms m ∈ still_active ms a.active_motions :=
      List.mem_map.mpr ⟨m, List.mem_filter.mpr ⟨hm, by simpa using harrives⟩, rfl⟩
    refine mem_moving.mpr ⟨advanced ms m, List.mem_filter.mpr ⟨hstill, ?_⟩, rfl⟩
    have hfree : m.id ∉ b.captured_this_batch := fun hc => hnot (hcaptured _ hc)
    rw [Bool.not_eq_true', is_captured_move, decide_eq_false_iff_not]
    exact fun hc => hfree hc.1

/-! ## The engine -/

/-- Who was moving still is, or its end was announced. -/
theorem exec_moving {g g' : GameEngine} {cmd : Command} {es : List ArrivalEvent} (hs : g.Sound)
    (h : exec g cmd = .ok (g', es)) :
    g.arbiter.moving \ {i | i ∈ ended_ids es} ⊆ g'.arbiter.moving := by
  cases exec_effect h with
  | refused => exact Set.sdiff_subset
  | started _ m x _ _ _ _ =>
      refine Set.sdiff_subset.trans ?_
      intro i hi
      obtain ⟨m', hm', rfl⟩ := mem_moving.mp hi
      exact mem_moving.mpr ⟨m', List.mem_append_left _ hm', rfl⟩
  | waited ms a es _ hadv => exact advance_moving hs hadv

/-- The same over a run. -/
theorem run_moving {cmds : List Command} : ∀ {g g' : GameEngine} {es : List ArrivalEvent},
    g.Sound → Machine.run exec g cmds = .ok (g', es) →
      g.arbiter.moving \ {i | i ∈ ended_ids es} ⊆ g'.arbiter.moving := by
  induction cmds with
  | nil =>
      intro g g' es _ h
      obtain ⟨rfl, rfl⟩ := Prod.mk.inj (Except.ok.inj h)
      exact Set.sdiff_subset
  | cons cmd cmds ih =>
      intro g g' es hs h
      obtain ⟨g₁, es₁, es₂, hone, hrun, rfl⟩ := run_cons_ok_iff.mp h
      rintro i ⟨hi, hnot⟩
      have hboth : i ∉ ended_ids es₁ ∧ i ∉ ended_ids es₂ := by simpa using hnot
      exact ih (hs.step hone) hrun ⟨exec_moving hs hone ⟨hi, hboth.1⟩, hboth.2⟩

/-! ## The match -/

/-- The pieces in motion. -/
abbrev Match.moving (m : Match) : Set PieceId := m.engine.arbiter.moving

namespace Match

/-- The messages of `apply`, when `going` is in motion. -/
def Announces (going : Set PieceId) : MatchEvent → Prop
  | .sent _ (.MoveRejected _) => True
  | .broadcast _ (.MotionStarted motion) => motion.moving_piece.id ∈ going
  | _ => False

theorem announces_send_to (m : Match) (going : Set PieceId) (color : PieceColor) (reason : String) :
    ∀ e ∈ m.send_to color (.MoveRejected reason), Announces going e := by
  intro e he
  unfold send_to at he
  rw [Option.mem_toList, Option.map_eq_some_iff] at he
  obtain ⟨c, _, rfl⟩ := he
  trivial

theorem announces_answer (m : Match) (source : PieceColor) (piece_id : Option PieceId)
    (result : MoveResult) : ∀ e ∈ m.answer source piece_id result, Announces m.moving e := by
  intro e he
  unfold answer at he
  split_ifs at he
  · split at he
    · cases he
    · rename_i motion hmotion
      rw [List.mem_singleton.mp he]
      -- the motion that is announced was looked up under the id of its piece
      obtain ⟨i, _, hfor⟩ := Option.bind_eq_some_iff.mp hmotion
      exact mem_moving.mpr ⟨motion, List.mem_of_find?_eq_some hfor, rfl⟩
  · exact announces_send_to m _ source _ e he

theorem announces_request {m m' : Match} {source : PieceColor} {cell : Position}
    {call : GameEngine → Except BoardError (GameEngine × MoveResult)} {os : List MatchEvent}
    (h : m.request source cell call = .ok (m', os)) : ∀ e ∈ os, Announces m'.moving e := by
  unfold request at h
  split_ifs at h
  · obtain ⟨⟨engine, result⟩, _, hret⟩ := (bind_ok_iff _ _ _).mp h
    obtain ⟨rfl, rfl⟩ := Prod.mk.inj (Except.ok.inj hret)
    exact announces_answer _ source _ _
  · obtain ⟨rfl, rfl⟩ := Prod.mk.inj (Except.ok.inj h)
    exact announces_answer m source none _

/-- **What a command announces** is in motion. -/
theorem apply_announces {m m' : Match} {source : PieceColor} {message : ClientMessage}
    {os : List MatchEvent} (h : m.apply source message = .ok (m', os)) :
    ∀ e ∈ os, Announces m'.moving e := by
  unfold apply at h
  split at h
  · obtain ⟨rfl, rfl⟩ := Prod.mk.inj (Except.ok.inj h)
    simp
  · obtain ⟨rfl, rfl⟩ := Prod.mk.inj (Except.ok.inj h)
    exact announces_send_to m _ source _
  · obtain ⟨rfl, rfl⟩ := Prod.mk.inj (Except.ok.inj h)
    simp
  · obtain ⟨rfl, rfl⟩ := Prod.mk.inj (Except.ok.inj h)
    exact announces_send_to m _ source _
  · exact announces_request h
  · exact announces_request h
  · obtain ⟨rfl, rfl⟩ := Prod.mk.inj (Except.ok.inj h)
    exact announces_answer m source none _

/-- A command ends nothing. -/
theorem apply_moving {m m' : Match} {source : PieceColor} {message : ClientMessage}
    {os : List MatchEvent} (hs : m.engine.Sound) (h : m.apply source message = .ok (m', os)) :
    m'.engine.Sound ∧ m.moving ⊆ m'.moving := by
  obtain ⟨cmds, hrun⟩ := (apply_applied h).engine
  have hmoving := run_moving hs hrun
  have hnone : {i | i ∈ ended_ids []} = (∅ : Set PieceId) := by
    ext i
    simp [ended_ids]
  rw [hnone, Set.sdiff_empty] at hmoving
  exact ⟨hs.run hrun, hmoving⟩

/-- **The spec of the passing of time.** -/
theorem let_time_pass_spec {m m' : Match} {elapsed_ms : Nat} {events : List ArrivalEvent}
    (hs : m.engine.Sound) (h : m.let_time_pass elapsed_ms = .ok (m', events)) :
    m' = { m with
      engine := m'.engine
      history := m.history ++ events
      revision := if events.isEmpty then m.revision else m.revision + 1 } ∧
    m'.engine.Sound ∧ m.moving \ {i | i ∈ ended_ids events} ⊆ m'.moving := by
  obtain ⟨hexec, hm'⟩ := let_time_pass_waits h
  exact ⟨hm', hs.step hexec, exec_moving hs hexec⟩

end Match

end KungFuChess
