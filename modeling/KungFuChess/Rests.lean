/-
**How long a piece rests.**

A rest is counted down, tick by tick, and an arrival within a tick is credited with what
is left of it. Read off the chronicle, a piece rests until the time of its last
completed arrival and the cooldown of that kind of motion (`rest_until`), and the
arbiter's number is what is left of that (`Rests.resting`), for every piece that was
never captured. The rest of a captured piece is erased, wherever the piece turns up
again.
-/
import KungFuChess.Chronicle
import KungFuChess.Representation

set_option autoImplicit false

namespace KungFuChess

open Machine RealTimeArbiter GameEngine StableSort

/-! ## The arrivals of a tick -/

theorem clamp_bounds (v : Int) {hi : Int} (h : 0 ≤ hi) : 0 ≤ clamp v 0 hi ∧ clamp v 0 hi ≤ hi := by
  unfold clamp
  split_ifs <;> omega

/-- The arrivals of a tick, between its two ends. -/
theorem arrivals_between {ms : Int} (hms : 0 ≤ ms) (motions : List Motion) :
    ∀ p ∈ sorted_arrivals ms motions, 0 ≤ p.time_into_tick_ms ∧ p.time_into_tick_ms ≤ ms := by
  intro p hp
  obtain ⟨m, _, rfl⟩ := List.mem_map.mp ((mem_stableSort _).mp hp)
  exact clamp_bounds _ hms

/-! ## Rests -/

/-- How long a piece rests after a motion of each kind. -/
def MotionFactory.cooldown_ms (f : MotionFactory) : MotionKind → Int
  | .Move => f.standard_cooldown_ms
  | .JumpInPlace => f.jump_cooldown_ms

/-- The piece arrived, and was not turned back. -/
def completes (i : PieceId) (r : ResolvedArrival) : Bool :=
  r.piece_actually_arrived && decide (r.event.moved_piece.id = i)

/-- The piece was captured. -/
def takes (i : PieceId) (r : ResolvedArrival) : Bool :=
  r.event.captured_piece.any fun piece => piece.id = i

/-- When the rest after the piece's last completed arrival ends. -/
def rest_until (f : MotionFactory) (i : PieceId) (tr : List ResolvedArrival) : Option Int :=
  (tr.filter (completes i)).getLast?.map fun r =>
    r.event.arrived_at_ms + f.cooldown_ms r.event.kind

/-- What is left of a rest that ends at a given time. -/
def left_at (ends : Option Int) (clock_ms : Int) : Option Int :=
  ends.bind fun t => if clock_ms < t then some (t - clock_ms) else none

section Rests

variable {f : MotionFactory} {i : PieceId} {tr : List ResolvedArrival} {r : ResolvedArrival}

theorem rest_until_other (h : completes i r = false) :
    rest_until f i (tr ++ [r]) = rest_until f i tr := by
  unfold rest_until
  rw [List.filter_append, List.filter_singleton, h]
  simp

theorem rest_until_completed (h : completes i r = true) :
    rest_until f i (tr ++ [r]) = some (r.event.arrived_at_ms + f.cooldown_ms r.event.kind) := by
  unfold rest_until
  rw [List.filter_append, List.filter_singleton, h]
  simp

/-- Counting a rest down is moving the clock. -/
theorem count_down_left {cooldowns : Cooldowns} {ends : Option Int} {clock_ms ms : Int}
    (hms : 0 ≤ ms) (h : cooldowns i = left_at ends clock_ms) :
    count_down ms cooldowns i = left_at ends (clock_ms + ms) := by
  unfold count_down
  rw [h]
  unfold left_at
  cases ends with
  | none => rfl
  | some t =>
      simp only [Option.bind_some]
      by_cases hnow : clock_ms < t
      · rw [if_pos hnow, Option.bind_some]
        by_cases hthen : clock_ms + ms < t
        · rw [if_neg (by omega), if_pos hthen]
          congr 1
          omega
        · rw [if_pos (by omega), if_neg hthen]
      · rw [if_neg hnow, if_neg (by omega)]
        rfl

/-- The rest that an arrival starts. -/
theorem start_cooldown_left {cooldowns : Cooldowns} {p : PendingArrival} {clock_ms ms c : Int}
    (hlate : p.time_into_tick_ms ≤ ms) (hc : p.motion.cooldown_ms = c)
    (hnone : cooldowns p.id = none) :
    start_cooldown ms p cooldowns p.id
      = left_at (some (clock_ms + p.time_into_tick_ms + c)) (clock_ms + ms) := by
  unfold start_cooldown left_at
  simp only [hc, Option.bind_some]
  by_cases hrests : clock_ms + ms < clock_ms + p.time_into_tick_ms + c
  · rw [if_pos hrests, if_pos ⟨by omega, by omega⟩, Function.update_self]
    congr 1
    omega
  · rw [if_neg hrests, if_neg (by omega)]
    exact hnone

end Rests

/-- **The rests of a game**: a piece on its way is awake, and what a piece still rests is
what is left until the end its last arrival set, unless it has been captured. -/
structure Rests (f : MotionFactory) (motions : List Motion) (cooldowns : Cooldowns) (clock_ms : Int)
    (tr : List ResolvedArrival) : Prop where
  policy : ∀ m ∈ motions, m.cooldown_ms = f.cooldown_ms m.kind
  awake : ∀ m ∈ motions, cooldowns m.id = none
  resting : ∀ i, (∀ r ∈ tr, takes i r = false) →
    cooldowns i = left_at (rest_until f i tr) clock_ms

/-- Whom a batch has captured, its answers say. -/
def Told (b : Batch) (rs : List ResolvedArrival) : Prop :=
  ∀ i ∈ b.captured_this_batch, ∃ r ∈ rs, takes i r = true

theorem Told.turn {tick_start_ms ms : Int} {b b' : Batch} {p : PendingArrival}
    {r : ResolvedArrival} {rs : List ResolvedArrival} (h : Told b rs)
    (hturn : Turn tick_start_ms ms b p r b') : Told b' (rs ++ [r]) := by
  intro i hi
  rw [hturn.settled.captured, List.mem_append] at hi
  rcases hi with hi | hi
  · refine ⟨r, List.mem_append_right _ (List.mem_singleton_self r), ?_⟩
    unfold takes
    unfold captured_ids at hi
    simpa [Option.any_eq_true] using hi
  · obtain ⟨r', hr', htakes⟩ := h i hi
    exact ⟨r', List.mem_append_left _ hr', htakes⟩

namespace Rests

variable {f : MotionFactory} {motions rest : List Motion} {cooldowns : Cooldowns}
  {clock_ms ms : Int} {tr : List ResolvedArrival}

theorem subset (h : Rests f motions cooldowns clock_ms tr) (hsub : rest ⊆ motions) :
    Rests f rest cooldowns clock_ms tr where
  policy m hm := h.policy m (hsub hm)
  awake m hm := h.awake m (hsub hm)
  resting := h.resting

/-- The first loop of a tick. -/
theorem begin_tick (h : Rests f motions cooldowns clock_ms tr) (hms : 0 ≤ ms) :
    Rests f (motions.map (advanced ms)) (count_down ms cooldowns) (clock_ms + ms) tr where
  policy := List.forall_mem_map.mpr h.policy
  awake := by
    rw [List.forall_mem_map]
    intro m hm
    exact count_down_eq_none (h.awake m hm)
  resting i hi := count_down_left hms (h.resting i hi)

/-- A turn of the loop. -/
theorem turn {tick_start_ms : Int} {b b' : Batch} {p : PendingArrival} {r : ResolvedArrival}
    (h : Rests f (p.motion :: rest) b.cooldowns (tick_start_ms + ms) tr)
    (hturn : Turn tick_start_ms ms b p r b') (hne : ∀ m ∈ rest, m.id ≠ p.id)
    (hlate : p.time_into_tick_ms ≤ ms) :
    Rests f rest b'.cooldowns (tick_start_ms + ms) (tr ++ [r]) := by
  have hmoved := hturn.settled.moved_id
  have hother : ∀ i, i ≠ p.id → b'.cooldowns i = b.cooldowns i := by
    intro i hi
    rcases hturn.outcome with ⟨_, _, hcd⟩ | ⟨_, _, hcd⟩
    · rw [hcd, start_cooldown_of_ne hi]
    · rw [hcd]
  refine ⟨fun m hm => h.policy m (List.mem_cons_of_mem _ hm), ?_, ?_⟩
  · intro m hm
    rw [hother _ (hne m hm)]
    exact h.awake m (List.mem_cons_of_mem _ hm)
  · intro i hi
    have hbefore := h.resting i fun r' hr' => hi r' (List.mem_append_left _ hr')
    by_cases hp : i = p.id
    · rcases hturn.outcome with ⟨harrived, hlanded, hcd⟩ | ⟨hstayed, _, hcd⟩
      · have hdone : completes i r = true := by
          unfold completes
          simp [harrived, hmoved, hp]
        rw [rest_until_completed hdone, hcd, hp, hturn.settled.at_ms, hlanded.kind]
        exact start_cooldown_left hlate (h.policy _ List.mem_cons_self)
          (h.awake _ List.mem_cons_self)
      · have hdone : completes i r = false := by
          unfold completes
          rw [hstayed, Bool.false_and]
        rw [rest_until_other hdone, hcd, hbefore]
    · have hdone : completes i r = false := by
        unfold completes
        simp [hmoved, Ne.symm hp]
      rw [rest_until_other hdone, hother i hp, hbefore]

/-- The last loop of a tick. -/
theorem end_tick {captured : List PieceId} {rs : List ResolvedArrival}
    (h : Rests f motions cooldowns clock_ms (tr ++ rs))
    (htold : ∀ i ∈ captured, ∃ r ∈ rs, takes i r = true) :
    Rests f motions (erase_cooldowns captured cooldowns) clock_ms (tr ++ rs) where
  policy := h.policy
  awake m hm := by
    unfold erase_cooldowns
    rw [h.awake m hm, ite_self]
  resting i hi := by
    rw [erase_cooldowns_of_not_mem, h.resting i hi]
    intro hmem
    obtain ⟨r, hr, htakes⟩ := htold i hmem
    rw [hi r (List.mem_append_right _ hr)] at htakes
    cases htakes

/-- A tick. -/
theorem tick {a : RealTimeArbiter} {b : Batch} (hms : 0 ≤ ms) (hs : Sound a.board a.active_motions)
    (h : Rests f a.active_motions a.cooldowns_remaining_ms a.clock_ms tr)
    (hloop : (sorted_arrivals ms a.active_motions).foldlM (resolve_one a.clock_ms ms)
      (a.batch_start ms) = .ok b) :
    Rests f (a.finish_batch ms b).active_motions (a.finish_batch ms b).cooldowns_remaining_ms
      (a.finish_batch ms b).clock_ms (tr ++ a.resolved_in ms) := by
  have hstart : Rests f (live [] (sorted_arrivals ms a.active_motions)
      (still_active ms a.active_motions)) (a.batch_start ms).cooldowns (a.clock_ms + ms)
      (tr ++ []) := by
    rw [List.append_nil]
    exact (h.begin_tick hms).subset (live_start_perm ms a.active_motions).subset
  -- what the batch still answers for is awake, and rests are those at the end of the tick
  obtain ⟨b', hloop', _, _, hrests, htold, _⟩ := chronicle_rule ms hs
    (fun rs ps b => Rests f (live b.captured_this_batch ps (still_active ms a.active_motions))
        b.cooldowns (a.clock_ms + ms) (tr ++ rs) ∧ Told b rs ∧
      ∀ p ∈ ps, p.time_into_tick_ms ≤ ms)
    ⟨hstart, fun _ hi => absurd hi List.not_mem_nil,
      fun p hp => (arrivals_between hms _ p hp).2⟩
    (by
      rintro rs p ps b hc ⟨hrests, htold, hlate⟩
      rw [live_cons_of_mem hc] at hrests
      exact ⟨hrests, htold, fun q hq => hlate q (List.mem_cons_of_mem _ hq)⟩)
    (by
      rintro rs p ps b r b' hc hsound ⟨hrests, htold, hlate⟩ hturn
      rw [live_cons_of_not_mem hc] at hrests
      have hnext := hrests.turn hturn (fun m hm => hsound.id_ne hm) (hlate p List.mem_cons_self)
      rw [List.append_assoc] at hnext
      exact ⟨hnext.subset (hturn.settled.live_sublist ps _).subset, htold.turn hturn,
        fun q hq => hlate q (List.mem_cons_of_mem _ hq)⟩)
  obtain rfl : b' = b := Except.ok.inj (hloop'.symm.trans hloop)
  exact hrests.end_tick htold

end Rests

theorem cooldown_of_made {f : MotionFactory} {m : Motion} {x : Piece} (h : Made f m x) :
    m.cooldown_ms = f.cooldown_ms m.kind := by
  rcases h with h | h
  · rw [h]
    rfl
  · rw [h]
    rfl

/-- The rests of an engine's arbiter. -/
def GameEngine.Rested (g : GameEngine) (tr : List ResolvedArrival) : Prop :=
  Rests g.motion_factory g.arbiter.active_motions g.arbiter.cooldowns_remaining_ms
    g.arbiter.clock_ms tr

theorem GameEngine.Rested.step {g g' : GameEngine} {cmd : Command} {tr rs : List ResolvedArrival}
    (h : g.Rested tr) (hs : g.Sound) (hexec : Chronicled g cmd g' rs) : g'.Rested (tr ++ rs) := by
  cases hexec with
  | refused => rwa [List.append_nil]
  | started _ m x _ _ starts free made =>
      rw [List.append_nil]
      have hfree := (not_busy_iff.mp free).2
      rw [← starts.snapshot] at hfree
      refine ⟨?_, ?_, h.resting⟩
      · intro m' hm'
        rcases List.mem_append.mp hm' with hm' | hm'
        · exact h.policy m' hm'
        · rw [List.mem_singleton.mp hm']
          exact cooldown_of_made made
      · intro m' hm'
        rcases List.mem_append.mp hm' with hm' | hm'
        · exact h.awake m' hm'
        · rw [List.mem_singleton.mp hm']
          exact hfree
  | waited ms b running loop => exact Rests.tick (Int.natCast_nonneg ms) hs h loop

theorem rested_new (f : MotionFactory) (b : Board) : (GameEngine.new f b).Rested [] where
  policy _ hm := absurd hm List.not_mem_nil
  awake _ hm := absurd hm List.not_mem_nil
  resting _ _ := rfl

/-- What a piece that was never captured may do, read off its last completed arrival. -/
theorem GameEngine.Rested.busy_iff {g : GameEngine} {tr : List ResolvedArrival} {i : PieceId}
    (h : g.Rested tr) (hi : ∀ r ∈ tr, takes i r = false) :
    g.arbiter.is_piece_busy i = true ↔ (∃ m ∈ g.arbiter.active_motions, m.id = i) ∨
      ∃ t, rest_until g.motion_factory i tr = some t ∧ g.arbiter.clock_ms < t := by
  unfold is_piece_busy
  rw [Bool.or_eq_true, h.resting i hi]
  refine or_congr (by simp) ?_
  unfold left_at
  cases rest_until g.motion_factory i tr with
  | none => simp
  | some t =>
      simp only [Option.bind_some, Option.some.injEq, exists_eq_left']
      split_ifs with hclock
      · simp [hclock]
      · simp [hclock]

theorem GameEngine.Rested.remaining {g : GameEngine} {tr : List ResolvedArrival} {i : PieceId}
    (h : g.Rested tr) (hi : ∀ r ∈ tr, takes i r = false) :
    g.arbiter.cooldown_remaining_ms i =
      ((rest_until g.motion_factory i tr).map fun t => max 0 (t - g.arbiter.clock_ms)).getD 0 := by
  unfold cooldown_remaining_ms
  rw [h.resting i hi]
  unfold left_at
  cases rest_until g.motion_factory i tr with
  | none => rfl
  | some t =>
      simp only [Option.bind_some, Option.map_some, Option.getD_some]
      split_ifs with hclock
      · simp only [Option.getD_some]
        omega
      · simp only [Option.getD_none]
        omega

end KungFuChess
