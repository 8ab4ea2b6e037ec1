/-
**Runs of the engine**: what a command can do, said once, and the facts that hold
in every reachable state whatever the durations and cooldowns are.

`Effect` is the inversion of `GameEngine.exec`: a command is refused and changes
nothing, or it starts one motion of a piece that is not busy, or it lets time
pass. The request functions are unfolded in their specs (`request_move_spec`,
`request_jump_spec`) and nowhere else; `exec_total` says that in a sound state no
command throws, and `sound_of_reach` that every reachable state is sound.
-/
import KungFuChess.Batch

set_option autoImplicit false

namespace KungFuChess

open Machine RealTimeArbiter GameEngine

/-! ## Busy pieces -/

theorem not_busy_iff {a : RealTimeArbiter} {i : PieceId} :
    a.is_piece_busy i = false ↔
      (∀ m ∈ a.active_motions, m.id ≠ i) ∧ a.cooldowns_remaining_ms i = none := by
  unfold is_piece_busy
  simp only [Bool.or_eq_false_iff, List.any_eq_false, decide_eq_true_eq, Option.isSome_eq_false_iff,
    Option.isNone_iff_eq_none]

/-! ## What a command can do -/

/-- The two ways the engine makes a motion. -/
def Made (f : MotionFactory) (m : Motion) (x : Piece) : Prop :=
  m = f.create_move x m.source m.destination ∨ m = f.create_jump x m.source

/-- The engine once `m` has started. -/
def GameEngine.with_motion (g : GameEngine) (m : Motion) (x : Piece) : GameEngine :=
  { g with arbiter := { g.arbiter with
      board := board_after_start g.board m x
      active_motions := g.arbiter.active_motions ++ [m] } }

/-- Everything a command can do when it does not throw. -/
inductive Effect (g : GameEngine) : Command → GameEngine → List ArrivalEvent → Prop
  | refused (cmd : Command) : Effect g cmd g []
  | started (cmd : Command) (m : Motion) (x : Piece) (running : g.game_over = false)
      (starts : Starts g.board m x) (free : g.arbiter.is_piece_busy x.id = false)
      (made : Made g.motion_factory m x) : Effect g cmd (g.with_motion m x) []
  | waited (ms : Nat) (a : RealTimeArbiter) (es : List ArrivalEvent)
      (running : g.game_over = false) (advance : g.arbiter.advance_time ms = .ok (a, es)) :
      Effect g (.wait ms) { g with arbiter := a, game_over := es.any captured_a_king } es

theorem starts_move {g : GameEngine} {source destination : Position} {x : Piece}
    (hx : g.board.piece_at source = some x)
    (hv : (validate_move g.board source destination).is_valid = true) :
    Starts g.board (g.motion_factory.create_move x source destination) x := by
  obtain ⟨_, _, hd, _⟩ := validate_move_valid hv
  exact ⟨hx, rfl, hd, MotionKind.noConfusion, rfl, Int.natCast_nonneg _⟩

theorem starts_jump {g : GameEngine} {cell : Position} {x : Piece}
    (hx : g.board.piece_at cell = some x) :
    Starts g.board (g.motion_factory.create_jump x cell) x :=
  ⟨hx, rfl, Board.in_bounds_of_piece_at hx, fun _ => rfl, rfl, Int.natCast_nonneg 700⟩

/-- A request is refused, or starts the motion it makes of a free piece. -/
inductive Requested (g : GameEngine) (make : Piece → Motion) : GameEngine → Prop
  | refused : Requested g make g
  | started (x : Piece) (running : g.game_over = false) (starts : Starts g.board (make x) x)
      (free : g.arbiter.is_piece_busy x.id = false) : Requested g make (g.with_motion (make x) x)

/-- **The spec of a move**: it is refused and nothing changes, or its motion starts. -/
theorem request_move_spec (g : GameEngine) (source destination : Position) :
    ∃ g' r, g.request_move source destination = .ok (g', r) ∧
      Requested g (fun x => g.motion_factory.create_move x source destination) g' := by
  unfold request_move
  by_cases hover : g.game_over = true
  · rw [if_pos hover]
    exact ⟨g, _, rfl, .refused⟩
  · rw [if_neg hover]
    cases hx : g.board.piece_at source with
    | none => exact ⟨g, _, rfl, .refused⟩
    | some x =>
        dsimp only
        by_cases hbusy : g.arbiter.is_piece_busy x.id = true
        · rw [if_pos hbusy]
          exact ⟨g, _, rfl, .refused⟩
        · rw [if_neg hbusy]
          by_cases hv : (validate_move g.board source destination).is_valid = true
          · rw [if_neg (not_not.mpr hv), start_motion_spec (starts_move hx hv)]
            exact ⟨g.with_motion _ x, _, rfl, .started x (Bool.eq_false_iff.mpr hover)
              (starts_move hx hv) (Bool.eq_false_iff.mpr hbusy)⟩
          · rw [if_pos hv]
            exact ⟨g, _, rfl, .refused⟩

/-- The same of a jump. -/
theorem request_jump_spec (g : GameEngine) (cell : Position) :
    ∃ g' r, g.request_jump cell = .ok (g', r) ∧
      Requested g (fun x => g.motion_factory.create_jump x cell) g' := by
  unfold request_jump
  by_cases hover : g.game_over = true
  · rw [if_pos hover]
    exact ⟨g, _, rfl, .refused⟩
  · rw [if_neg hover]
    cases hx : g.board.piece_at cell with
    | none => exact ⟨g, _, rfl, .refused⟩
    | some x =>
        dsimp only
        by_cases hbusy : g.arbiter.is_piece_busy x.id = true
        · rw [if_pos hbusy]
          exact ⟨g, _, rfl, .refused⟩
        · rw [if_neg hbusy, start_motion_spec (starts_jump hx)]
          exact ⟨g.with_motion _ x, _, rfl, .started x (Bool.eq_false_iff.mpr hover)
            (starts_jump hx) (Bool.eq_false_iff.mpr hbusy)⟩

section Requested

variable {g g' : GameEngine} {make : Piece → Motion}

/-- What a request does is something its command can do. -/
theorem Requested.effect (hmade : ∀ x, Made g.motion_factory (make x) x)
    (h : Requested g make g') (cmd : Command) : Effect g cmd g' [] := by
  cases h with
  | refused => exact .refused _
  | started x running starts free => exact .started _ _ x running starts free (hmade x)

end Requested

theorem request_move_effect (g : GameEngine) (source destination : Position) :
    ∃ g' r, g.request_move source destination = .ok (g', r) ∧
      Effect g (.request_move source destination) g' [] := by
  obtain ⟨g', r, hrun, hrequested⟩ := request_move_spec g source destination
  exact ⟨g', r, hrun, hrequested.effect (fun _ => .inl rfl) _⟩

theorem request_jump_effect (g : GameEngine) (cell : Position) :
    ∃ g' r, g.request_jump cell = .ok (g', r) ∧ Effect g (.request_jump cell) g' [] := by
  obtain ⟨g', r, hrun, hrequested⟩ := request_jump_spec g cell
  exact ⟨g', r, hrun, hrequested.effect (fun _ => .inr rfl) _⟩

theorem exec_request_move {g g' : GameEngine} {source destination : Position} {r : MoveResult}
    (h : g.request_move source destination = .ok (g', r)) :
    exec g (.request_move source destination) = .ok (g', []) := by
  unfold exec
  dsimp only
  rw [h]
  rfl

theorem exec_request_jump {g g' : GameEngine} {cell : Position} {r : MoveResult}
    (h : g.request_jump cell = .ok (g', r)) : exec g (.request_jump cell) = .ok (g', []) := by
  unfold exec
  dsimp only
  rw [h]
  rfl

theorem exec_wait (g : GameEngine) (ms : Nat) : exec g (.wait ms) = g.wait ms := rfl

/-- **The inversion of a command.** -/
theorem exec_effect {g g' : GameEngine} {cmd : Command} {es : List ArrivalEvent}
    (h : exec g cmd = .ok (g', es)) : Effect g cmd g' es := by
  cases cmd with
  | request_move source destination =>
      obtain ⟨g₁, r, hrun, heff⟩ := request_move_effect g source destination
      rw [exec_request_move hrun] at h
      obtain ⟨rfl, rfl⟩ := Prod.mk.inj (Except.ok.inj h)
      exact heff
  | request_jump cell =>
      obtain ⟨g₁, r, hrun, heff⟩ := request_jump_effect g cell
      rw [exec_request_jump hrun] at h
      obtain ⟨rfl, rfl⟩ := Prod.mk.inj (Except.ok.inj h)
      exact heff
  | wait ms =>
      rw [exec_wait, GameEngine.wait] at h
      by_cases hover : g.game_over = true
      · rw [if_pos hover] at h
        obtain ⟨rfl, rfl⟩ := Prod.mk.inj (Except.ok.inj h)
        exact .refused _
      · rw [if_neg hover] at h
        obtain ⟨⟨a, es'⟩, hadv, hret⟩ := (bind_ok_iff _ _ _).mp h
        obtain ⟨rfl, rfl⟩ := Prod.mk.inj (Except.ok.inj hret)
        exact .waited ms a es' (Bool.eq_false_iff.mpr hover) hadv

/-! ## Every reachable state is sound -/

/-- `Sound`, of an engine. -/
abbrev GameEngine.Sound (g : GameEngine) : Prop :=
  KungFuChess.Sound g.board g.arbiter.active_motions

/-- In a sound state a tick succeeds and leaves a sound state. -/
theorem sound_advance {a : RealTimeArbiter} (ms : Int) (hs : Sound a.board a.active_motions) :
    ∃ a' es, a.advance_time ms = .ok (a', es) ∧ Sound a'.board a'.active_motions := by
  obtain ⟨b, hrun, hsound, _⟩ := advance_time_rule ms hs (fun _ _ => True) trivial
    (fun _ _ _ _ _ => trivial) (fun _ _ _ _ _ _ _ _ _ _ => trivial)
  exact ⟨_, _, advance_time_of_loop hrun, hsound⟩

/-- In a sound state no command throws. -/
theorem exec_total {g : GameEngine} (hs : g.Sound) (cmd : Command) :
    ∃ g' es, exec g cmd = .ok (g', es) := by
  cases cmd with
  | request_move source destination =>
      obtain ⟨g', r, hrun, _⟩ := request_move_effect g source destination
      exact ⟨g', [], exec_request_move hrun⟩
  | request_jump cell =>
      obtain ⟨g', r, hrun, _⟩ := request_jump_effect g cell
      exact ⟨g', [], exec_request_jump hrun⟩
  | wait ms =>
      rw [exec_wait, GameEngine.wait]
      by_cases hover : g.game_over = true
      · exact ⟨g, [], if_pos hover⟩
      · obtain ⟨a', es, hadv, _⟩ := sound_advance ms hs
        rw [if_neg hover, hadv]
        exact ⟨_, _, rfl⟩

/-- **Every command keeps the engine sound.** -/
theorem GameEngine.Sound.step {g g' : GameEngine} {cmd : Command} {es : List ArrivalEvent}
    (hs : g.Sound) (h : exec g cmd = .ok (g', es)) : g'.Sound := by
  cases exec_effect h with
  | refused => exact hs
  | started _ m x _ hstarts hfree _ => exact hs.starts hstarts (not_busy_iff.mp hfree).1
  | waited ms a es _ hadv =>
      obtain ⟨a', es', hadv', hsound⟩ := sound_advance ms hs
      rw [hadv] at hadv'
      obtain ⟨rfl, rfl⟩ := Prod.mk.inj (Except.ok.inj hadv')
      exact hsound

/-- So does a run of them. -/
theorem GameEngine.Sound.run {cmds : List Command} :
    ∀ {g g' : GameEngine} {es : List ArrivalEvent}, g.Sound →
      Machine.run exec g cmds = .ok (g', es) → g'.Sound := by
  induction cmds with
  | nil =>
      intro g g' es hs h
      obtain ⟨rfl, _⟩ := Prod.mk.inj (Except.ok.inj h)
      exact hs
  | cons cmd cmds ih =>
      intro g g' es hs h
      obtain ⟨g₁, es₁, es₂, hone, hrun, rfl⟩ := run_cons_ok_iff.mp h
      exact ih (hs.step hone) hrun

/-- A game on a fresh board is sound. -/
theorem sound_new {b : Board} (f : MotionFactory) (hb : Fresh b) : (GameEngine.new f b).Sound :=
  sound_nil hb.distinct hb.cell

/-- **Every reachable state is sound**, for all durations and cooldowns and
whatever the run met. -/
theorem sound_of_reach {C : GameEngine → List ArrivalEvent → Command → Prop} {f : MotionFactory}
    {b : Board} {g : GameEngine} {tr : List ArrivalEvent} (hb : Fresh b)
    (h : Reach exec C (GameEngine.new f b) g tr) : g.Sound :=
  Reach.invariant (P := fun g _ => g.Sound) (sound_new f hb)
    (fun _ _ _ _ _ _ hs _ hrun => hs.step hrun) h

/-- The factory is never replaced. -/
theorem factory_of_reach {C : GameEngine → List ArrivalEvent → Command → Prop} {g₀ g : GameEngine}
    {tr : List ArrivalEvent} (h : Reach exec C g₀ g tr) : g.motion_factory = g₀.motion_factory := by
  refine Reach.invariant (P := fun g _ => g.motion_factory = g₀.motion_factory) rfl ?_ h
  intro g tr cmd g' es _ hg _ hrun
  cases exec_effect hrun with
  | refused => exact hg
  | started => exact hg
  | waited => exact hg

end KungFuChess
