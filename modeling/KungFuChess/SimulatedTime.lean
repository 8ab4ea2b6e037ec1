/-
**The integers of simulated time.**

The clock of the arbiter has 64 bits; everything else that `advance_time` computes
is an `int`. In a game driven by a script those numbers stay small for a simple
reason: a motion in flight has been under way for no more than its duration (`OnTime`),
and a rest is never longer than its cooldown (`Bounded`). Only the sum
`motion.elapsed_ms += ms` is not held down by this, since it is formed before it
is compared with the duration: a wait may be as long as an `int` gets, and a
motion that is already under way makes the sum one too many
(`elapsed_overflows`). That is the only way out: the numbers fit exactly as long
as no wait is longer than what the motions in flight leave room for
(`time_fits_iff`).
-/
import KungFuChess.Rests
import KungFuChess.Room
import KungFuChess.Script

set_option autoImplicit false

namespace KungFuChess

open Machine (Reach Meets anyStep bind_ok_iff)
open Numbers (FitsInt)
open RealTimeArbiter GameEngine

/-! ## What a tick computes -/

/-- The numbers that `advance_time` computes, the clock apart. The last two are computed for
the arrivals that happen; here they are asked of all that are due. -/
inductive Computed (a : RealTimeArbiter) (ms : Int) : Int → Prop
  | remaining (i : PieceId) (r : Int) (hr : a.cooldowns_remaining_ms i = some r) :
      Computed a ms (r - ms)
  | until_arrival (m : Motion) (hm : m ∈ a.active_motions) :
      Computed a ms (m.duration_ms - m.elapsed_ms)
  | elapsed (m : Motion) (hm : m ∈ a.active_motions) : Computed a ms (m.elapsed_ms + ms)
  | into_tick (p : PendingArrival) (hp : p ∈ sorted_arrivals ms a.active_motions) :
      Computed a ms p.time_into_tick_ms
  | left_in_tick (p : PendingArrival) (hp : p ∈ sorted_arrivals ms a.active_motions) :
      Computed a ms (ms - p.time_into_tick_ms)
  | cooldown (p : PendingArrival) (hp : p ∈ sorted_arrivals ms a.active_motions) :
      Computed a ms (p.motion.cooldown_ms - (ms - p.time_into_tick_ms))

/-- The line of a script lets time pass, and all that is computed then fits. -/
def ComputesInts (g : Game) (_ : List String) (line : String) : Prop :=
  match parse_line line with
  | .ok (some (.wait ms)) =>
      -- a game that is over lets no time pass
      g.engine.game_over = false → ∀ n, Computed g.engine.arbiter ms n → FitsInt n
  | _ => True

/-- The line of a script lets no more time pass than the motions in flight have room for. -/
def LeavesRoom (g : Game) (_ : List String) (line : String) : Prop :=
  match parse_line line with
  | .ok (some (.wait ms)) => g.engine.game_over = false → g.engine.arbiter.HasRoom ms
  | _ => True

instance (g : Game) (out : List String) (line : String) : Decidable (LeavesRoom g out line) := by
  unfold LeavesRoom
  split <;> infer_instance

/-- The durations and cooldowns of a factory are non-negative `int`s, for the moves there are
on a board. -/
structure MotionFactory.FitsBoard (f : MotionFactory) (board : Board) : Prop where
  move : ∀ kind steps, steps < max board.width board.height →
    f.move_duration_ms kind steps ≤ 2147483647
  standard : 0 ≤ f.standard_cooldown_ms ∧ f.standard_cooldown_ms ≤ 2147483647
  jump : 0 ≤ f.jump_cooldown_ms ∧ f.jump_cooldown_ms ≤ 2147483647

/-! ## What bounds it -/

/-- A motion in flight has not been under way for longer than it takes. -/
structure Motion.Bounded (m : Motion) : Prop extends m.OnTime where
  duration : m.duration_ms ≤ 2147483647
  cooldown : 0 ≤ m.cooldown_ms ∧ m.cooldown_ms ≤ 2147483647

/-- A rest that is left is positive, and no longer than an `int`. -/
def Cooldowns.Bounded (cooldowns : Cooldowns) : Prop :=
  ∀ i r, cooldowns i = some r → 0 < r ∧ r ≤ 2147483647

structure RealTimeArbiter.Bounded (a : RealTimeArbiter) : Prop where
  motions : ∀ m ∈ a.active_motions, m.Bounded
  cooldowns : a.cooldowns_remaining_ms.Bounded

variable {a a' : RealTimeArbiter} {ms : Int} {es : List ArrivalEvent} {p : PendingArrival}

/-- An arrival of a tick is of a motion in flight. -/
theorem mem_sorted_arrivals {motions : List Motion} (hp : p ∈ sorted_arrivals ms motions) :
    ∃ m ∈ motions, p.motion = advanced ms m := by
  obtain ⟨m, hm, rfl⟩ := List.mem_map.mp ((StableSort.mem_stableSort _).mp hp)
  exact ⟨m, List.mem_of_mem_filter hm, rfl⟩

/-- **What a tick computes fits**, if it is not too long for a motion in flight. -/
theorem RealTimeArbiter.Bounded.fits (h : a.Bounded) (hms : 0 ≤ ms ∧ ms ≤ 2147483647)
    (hroom : a.HasRoom ms) {n : Int}
    (hn : Computed a ms n) : FitsInt n := by
  unfold FitsInt
  cases hn with
  | remaining i r hr =>
      have hrest := h.cooldowns i r hr
      omega
  | until_arrival m hm =>
      -- between none and all of the duration
      obtain ⟨⟨helapsed, hpast⟩, hduration, -⟩ := h.motions m hm
      omega
  | elapsed m hm =>
      -- the one number that the bounds alone do not hold: it is added to before it is compared
      have hroom := hroom m hm
      have helapsed := (h.motions m hm).begun
      omega
  | into_tick p hp =>
      have hbetween := arrivals_between hms.1 _ p hp
      omega
  | left_in_tick p hp =>
      have hbetween := arrivals_between hms.1 _ p hp
      omega
  | cooldown p hp =>
      -- a rest less what is left of the tick can be negative, but not by more than a tick
      have hbetween := arrivals_between hms.1 _ p hp
      obtain ⟨m, hm, hmotion⟩ := mem_sorted_arrivals hp
      have hcooldown := (h.motions m hm).cooldown
      rw [hmotion]
      show _ ≤ m.cooldown_ms - _ ∧ m.cooldown_ms - _ ≤ _
      omega

/-- The bounds leave room for nothing else: what fits is not too long. -/
theorem leaves_room_of_computes {g : Game} {out : List String} {line : String}
    (h : ComputesInts g out line) : LeavesRoom g out line := by
  unfold ComputesInts at h
  unfold LeavesRoom
  split at h
  · intro hover m hm
    have hfits := (h hover _ (.elapsed m hm)).2
    omega
  · trivial

/-! ## A tick keeps the bounds -/

theorem Cooldowns.Bounded.count_down {cooldowns : Cooldowns} (h : cooldowns.Bounded)
    (hms : 0 ≤ ms) : Cooldowns.Bounded (count_down ms cooldowns) := by
  intro i r hr
  obtain ⟨before, hbefore, hleft⟩ := Option.bind_eq_some_iff.mp hr
  have hbounds := h i before hbefore
  split_ifs at hleft with hover
  obtain rfl := Option.some.inj hleft
  omega

theorem Cooldowns.Bounded.start_cooldown {cooldowns : Cooldowns} (h : cooldowns.Bounded)
    (hinto : p.time_into_tick_ms ≤ ms) (hcooldown : p.motion.cooldown_ms ≤ 2147483647) :
    Cooldowns.Bounded (start_cooldown ms p cooldowns) := by
  unfold RealTimeArbiter.start_cooldown
  dsimp only
  split_ifs with hstarts
  · intro i r hr
    by_cases hi : i = p.motion.moving_piece.id
    · subst hi
      rw [Function.update_self] at hr
      obtain rfl := Option.some.inj hr
      omega
    · rw [Function.update_of_ne hi] at hr
      exact h i r hr
  · exact h

/-- **A tick keeps the bounds**, and the size of the board. -/
theorem RealTimeArbiter.Bounded.advance (h : a.Bounded) (hms : 0 ≤ ms) (hroom : a.HasRoom ms)
    (hs : Sound a.board a.active_motions) (hrun : a.advance_time ms = .ok (a', es)) :
    a'.Bounded ∧ a'.board.width = a.board.width ∧ a'.board.height = a.board.height := by
  have hon := on_time_tick hms hs (fun m hm => (h.motions m hm).toOnTime) hroom hrun
  -- every arrival to come is within the tick, and its rest is an `int`
  have harrivals : ∀ p ∈ sorted_arrivals ms a.active_motions,
      p.time_into_tick_ms ≤ ms ∧ p.motion.cooldown_ms ≤ 2147483647 := by
    intro p hp
    obtain ⟨m, hm, hmotion⟩ := mem_sorted_arrivals hp
    refine ⟨(arrivals_between hms _ p hp).2, ?_⟩
    rw [hmotion]
    exact (h.motions m hm).cooldown.2
  -- the loop over the arrivals keeps the bounds of the rests and the size of the board
  obtain ⟨b, hloop, -, -, hcooldowns, hwidth, hheight⟩ := advance_time_rule ms hs
    (fun ps b => (∀ p ∈ ps, p.time_into_tick_ms ≤ ms ∧ p.motion.cooldown_ms ≤ 2147483647) ∧
      b.cooldowns.Bounded ∧ b.board.width = a.board.width ∧ b.board.height = a.board.height)
    ⟨harrivals, h.cooldowns.count_down hms, rfl, rfl⟩
    (fun p ps b _ hp => ⟨fun q hq => hp.1 q (List.mem_cons_of_mem _ hq), hp.2⟩)
    (fun p ps b e b' _ _ hp _ hset => by
      obtain ⟨hps, hcooldowns, hwidth, hheight⟩ := hp
      refine ⟨fun q hq => hps q (List.mem_cons_of_mem _ hq), ?_⟩
      obtain ⟨hinto, hcooldown⟩ := hps p List.mem_cons_self
      rcases hset.outcome with ⟨hlanded, hstarts⟩ | ⟨hblocked, hsame⟩
      · rw [hstarts, hlanded.width, hlanded.height]
        exact ⟨hcooldowns.start_cooldown hinto hcooldown, hwidth, hheight⟩
      · rw [hsame, hblocked.width, hblocked.height]
        exact ⟨hcooldowns, hwidth, hheight⟩)
  rw [advance_time_of_loop hloop] at hrun
  obtain ⟨rfl, rfl⟩ := Prod.mk.inj (Except.ok.inj hrun)
  refine ⟨⟨fun m hm => ?_, fun i r hr => ?_⟩, hwidth, hheight⟩
  · have hontime := hon m hm
    obtain ⟨m₀, hm₀, rfl⟩ := List.mem_map.mp (List.mem_of_mem_filter hm)
    obtain ⟨-, hduration, hcooldown⟩ := h.motions m₀ (List.mem_of_mem_filter hm₀)
    exact ⟨hontime, hduration, hcooldown⟩
  · exact hcooldowns i r (erase_cooldowns_eq_some hr)

/-! ## Runs -/

variable {f : MotionFactory} {board : Board}

/-- The bounds of an engine, on a board of a fixed size. -/
structure GameEngine.Bounded (f : MotionFactory) (board : Board) (g : GameEngine) : Prop where
  factory : g.motion_factory = f
  width : g.board.width = board.width
  height : g.board.height = board.height
  arbiter : g.arbiter.Bounded

theorem bounded_new (f : MotionFactory) (board : Board) :
    GameEngine.Bounded f board (.new f board) where
  factory := rfl
  width := rfl
  height := rfl
  arbiter :=
    { motions := fun _ hm => absurd hm List.not_mem_nil
      cooldowns := fun i r hr => by cases hr }

/-- Between two cells of a board there are fewer steps than it is long. -/
theorem cell_step_distance_lt {source destination : Position} (hs : board.in_bounds source)
    (hd : board.in_bounds destination) :
    cell_step_distance source destination < max board.width board.height := by
  obtain ⟨hsrow, hsheight, hscol, hswidth⟩ := hs
  obtain ⟨hdrow, hdheight, hdcol, hdwidth⟩ := hd
  unfold cell_step_distance
  omega

/-- A motion that starts is at its beginning, and its duration is an `int`. -/
theorem made_bounded {g : GameEngine} {m : Motion} {x : Piece} (hf : f.FitsBoard board)
    (h : g.Bounded f board) (hstarts : Starts g.board m x) (hmade : Made g.motion_factory m x) :
    m.Bounded := by
  rw [h.factory] at hmade
  -- a move takes what the factory says, a jump a constant
  rcases hmade with hmade | hmade
  · have hsteps := cell_step_distance_lt (Board.in_bounds_of_piece_at hstarts.at_source)
      hstarts.destination_in
    rw [h.width, h.height] at hsteps
    have hduration := hf.move x.kind _ hsteps
    refine ⟨hstarts.on_time, ?_, ?_⟩
    · rw [hmade]
      exact Int.ofNat_le.mpr hduration
    · rw [hmade]
      exact hf.standard
  · refine ⟨hstarts.on_time, ?_, ?_⟩
    · rw [hmade]
      show kJumpDurationMs ≤ _
      decide
    · rw [hmade]
      exact hf.jump

theorem GameEngine.Bounded.step {g g' : GameEngine} {tr : List ArrivalEvent} {cmd : Command}
    (hf : f.FitsBoard board) (h : g.Bounded f board) (hs : g.Sound) (hfits : g.WaitFits tr cmd)
    (hexec : g.exec cmd = .ok (g', es)) : g'.Bounded f board := by
  cases exec_effect hexec with
  | refused => exact h
  | started _ m x _ starts _ made =>
      refine ⟨h.factory, h.width, h.height, fun m' hm' => ?_, h.arbiter.cooldowns⟩
      rcases List.mem_append.mp hm' with hm' | hm'
      · exact h.arbiter.motions m' hm'
      · rw [List.mem_singleton.mp hm']
        exact made_bounded hf h starts made
  | waited ms a es hopen hadvance =>
      obtain ⟨hbounded, hwidth, hheight⟩ :=
        h.arbiter.advance (Int.natCast_nonneg ms) (hfits hopen) hs hadvance
      exact ⟨h.factory, hwidth.trans h.width, hheight.trans h.height, hbounded⟩

/-- A script whose waits leave room gives the engine no other. -/
theorem wait_fits_of_leaves_room {g : Game} {out : List String} {line : String}
    {tr : List ArrivalEvent} {cmd : Command} (h : LeavesRoom g out line)
    (hwait : ∀ ms : Nat, cmd = .wait ms → parse_line line = .ok (some (.wait ms))) :
    g.engine.WaitFits tr cmd := by
  cases cmd with
  | wait ms =>
      unfold LeavesRoom at h
      rw [hwait ms rfl] at h
      exact h
  | request_move => trivial
  | request_jump => trivial

/-- The engine of a game that such a script comes to is bounded. -/
theorem bounded_of_reach {board_lines : List String} {g : Game} {out : List String}
    (hparse : parse board_lines = .ok board) (hf : f.FitsBoard board)
    (h : Reach run_line LeavesRoom (.new f board) g out) : g.engine.Bounded f board := by
  obtain ⟨-, tr, hreach⟩ := ready_of_reach (D := WaitFits) hparse
    (fun _ _ _ _ _ => wait_fits_of_leaves_room) h
  refine Reach.invariant (P := fun g _ => g.Bounded f board) (bounded_new f board) ?_ hreach
  intro g tr cmd g' es hr hbounded hfits hexec
  exact hbounded.step hf (sound_of_reach (fresh_of_parse hparse) hr) hfits hexec

/-- **Simulated time fits its integers exactly as long as no wait is longer than the motions
in flight leave room for**, at every line that a script comes to. -/
theorem time_fits_iff {board_lines : List String} (hparse : parse board_lines = .ok board)
    (hf : f.FitsBoard board) (command_lines : List String) :
    Meets run_line ComputesInts (.new f board) [] command_lines ↔
      Meets run_line LeavesRoom (.new f board) [] command_lines := by
  constructor
  · exact Meets.of_reach (fun _ _ _ _ h => leaves_room_of_computes h) .init
  · refine Meets.of_reach (fun g out line hr h => ?_) .init
    have hbounded := (bounded_of_reach hparse hf hr).arbiter
    unfold LeavesRoom at h
    unfold ComputesInts
    split at h
    · rename_i ms hline
      intro hover n hn
      exact hbounded.fits (parse_line_wait hline) (h hover) hn
    · trivial

/-- A row of three cells, with a rook at its left end. -/
def rook_alone : Board :=
  ⟨3, 1, [some ⟨⟨1⟩, .White, .Rook, ⟨0, 0⟩, .Idle, false⟩, none, none], rfl⟩

theorem shipped_fits : shipped_factory.FitsBoard rook_alone := by
  refine ⟨fun kind steps hsteps => ?_, by decide, by decide⟩
  have hsteps : steps < 3 := hsteps
  obtain rfl | rfl | rfl : steps = 0 ∨ steps = 1 ∨ steps = 2 := by omega
  · cases kind <;> decide +kernel
  · cases kind <;> decide
  · cases kind <;> decide

/-- The rook sets out for the other end, and the waits add up to the longest there is. -/
theorem time_fits_up_to_the_limit : Meets run_line ComputesInts (.new shipped_factory rook_alone) []
    ["click 50 50", "click 250 50", "wait 300", "wait 2147483347"] := by
  have hparse : parse ["wR . ."] = .ok rook_alone := rfl
  exact (time_fits_iff hparse shipped_fits _).mpr (by decide +kernel)

/-- The rook sets out for the other end, and the waits add up to one more than that. -/
def long_wait : List String := ["click 50 50", "click 250 50", "wait 1", "wait 2147483647"]

/-- **The time a motion has been under way overflows**: after a wait of one millisecond, the
longest wait that is accepted makes it `2 ^ 31`. -/
theorem elapsed_overflows : parse ["wR . ."] = .ok rook_alone ∧
    shipped_factory.FitsBoard rook_alone ∧
    (run_script (.new shipped_factory rook_alone) long_wait).isOk = true ∧
    ¬Meets run_line ComputesInts (.new shipped_factory rook_alone) [] long_wait := by
  refine ⟨rfl, shipped_fits, by decide +kernel, fun h => ?_⟩
  have hroom : Meets run_line LeavesRoom (.new shipped_factory rook_alone) [] long_wait :=
    Meets.of_reach (fun _ _ _ _ h => leaves_room_of_computes h) .init h
  exact absurd hroom (by decide +kernel)

end KungFuChess
