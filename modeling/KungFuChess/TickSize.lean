/-
**One coarse tick is many fine ones.**

`advance_time (x + y)` and `advance_time x` followed by `advance_time y` settle
the same arrivals in the same order: sorting the arrivals of the long tick and
cutting them at `x` is sorting the two parts (`StableSort.stableSort_split`). The
loop of the long tick is then followed through the two loops of the short ones.

* In the first part the long tick differs in its cooldowns only, which are
  counted down by `y` more; `Batch.later` is that difference and one turn commutes
  with it (`resolve_one_later`).
* In the second part the long tick still skips what the first part captured,
  while the short one has pruned those flights and forgotten the ids; `Resumes`
  relates the two batches and one turn keeps it (`Resumes.turn`).

Both need what a tick keeps with a standard cooldown no shorter than a jump
(`Ticking`): an arriving piece has no cooldown that its own could replace, and a
captured piece has no jump that the pruning would leave behind.

And both need the long tick to leave room. What arrives within `x` has to arrive within
`x + y`, and a sum that wraps takes it past its end and out of sight (`split_tick_arrives`).
-/
import KungFuChess.Representation

set_option autoImplicit false

namespace KungFuChess

open Machine Numbers RealTimeArbiter GameEngine StableSort

/-! ## Elapsed time -/

theorem advanced_advanced (x y : Int) (m : Motion) :
    advanced y (advanced x m) = advanced (x + y) m := by
  unfold advanced
  rw [to_int_add, add_assoc]

theorem arrives_within_advanced (x y : Int) (m : Motion) :
    arrives_within y (advanced x m) = arrives_within (x + y) m := by
  unfold arrives_within
  rw [advanced_advanced]
  rfl

theorem count_down_count_down {x y : Int} (hy : 0 ≤ y) (cooldowns : Cooldowns) :
    count_down y (count_down x cooldowns) = count_down (x + y) cooldowns := by
  funext i
  unfold count_down
  cases cooldowns i with
  | none => rfl
  | some r =>
      simp only [Option.bind_some]
      by_cases h1 : r - x ≤ 0
      · rw [if_pos h1, if_pos (by omega), Option.bind_none]
      · rw [if_neg h1, Option.bind_some]
        by_cases h2 : r - x - y ≤ 0
        · rw [if_pos h2, if_pos (by omega)]
        · rw [if_neg h2, if_neg (by omega), sub_sub]

/-! ## The first part: the same turns, with cooldowns counted down further -/

/-- An arrival of a tick of `x`, as the tick of `x + y` has it. -/
def RealTimeArbiter.PendingArrival.later (y : Int) (p : PendingArrival) : PendingArrival :=
  { p with motion := advanced y p.motion }

/-- The batch of a tick of `x`, as the tick of `x + y` has it at the same turn. -/
def RealTimeArbiter.Batch.later (y : Int) (b : Batch) : Batch :=
  { b with cooldowns := count_down y b.cooldowns }

/-- Starting a cooldown and counting it down commute, for a piece that had none. -/
theorem count_down_start_cooldown {x y : Int} {p : PendingArrival} {cooldowns : Cooldowns}
    (hy : 0 ≤ y) (hnone : cooldowns p.id = none) :
    start_cooldown (x + y) (p.later y) (count_down y cooldowns)
      = count_down y (start_cooldown x p cooldowns) := by
  funext i
  by_cases hi : i = p.id
  · subst hi
    have hnone' : count_down y cooldowns p.id = none := count_down_eq_none hnone
    have hcd : (p.later y).motion.cooldown_ms = p.motion.cooldown_ms := rfl
    have ht : (p.later y).time_into_tick_ms = p.time_into_tick_ms := rfl
    have hid : (p.later y).motion.moving_piece.id = p.id := rfl
    unfold start_cooldown
    simp only [hcd, ht, hid]
    -- a rest outlasts the long tick, or only the first part of it, or neither
    by_cases hlong : 0 < p.motion.cooldown_ms ∧
        0 < p.motion.cooldown_ms - (x + y - p.time_into_tick_ms)
    · rw [if_pos hlong, if_pos ⟨hlong.1, by omega⟩, Function.update_self, count_down,
        Function.update_self, Option.bind_some, if_neg (by omega)]
      congr 1
      omega
    · rw [if_neg hlong, hnone']
      by_cases hshort : 0 < p.motion.cooldown_ms ∧
          0 < p.motion.cooldown_ms - (x - p.time_into_tick_ms)
      · rw [if_pos hshort, count_down, Function.update_self, Option.bind_some, if_pos (by omega)]
      · rw [if_neg hshort, hnone']
  · rw [start_cooldown_of_ne (p := p.later y) hi]
    simp only [count_down, start_cooldown_of_ne hi]

/-- **A turn of the first part.** -/
theorem resolve_one_later {tick_start_ms x y : Int} {b b' : Batch} {p : PendingArrival}
    (hy : 0 ≤ y) (hp : p.id ∉ b.captured_this_batch) (hnone : b.cooldowns p.id = none)
    (hrun : resolve_one tick_start_ms x b p = .ok b') :
    resolve_one tick_start_ms (x + y) (b.later y) (p.later y) = .ok (b'.later y) := by
  unfold resolve_one at hrun ⊢
  rw [if_neg hp] at hrun
  have hp' : (p.later y).motion.moving_piece.id ∉ (b.later y).captured_this_batch := hp
  rw [if_neg hp']
  obtain ⟨⟨board, r⟩, hres, hret⟩ := (bind_ok_iff _ _ _).mp hrun
  have hres' : resolve_arrival (b.later y).board (p.later y).motion = .ok (board, r) := hres
  rw [hres']
  obtain rfl := Except.ok.inj hret
  refine congrArg Except.ok ?_
  unfold Batch.later
  dsimp only
  rw [count_down_start_cooldown hy hnone]
  cases r.piece_actually_arrived <;> rfl

/-! ## The second part: skipping what was captured, or having pruned it -/

/-- An arrival of the tick of `x + y` past `x`, as the second short tick has it. -/
def RealTimeArbiter.PendingArrival.since (x : Int) (p : PendingArrival) : PendingArrival :=
  { p with time_into_tick_ms := p.time_into_tick_ms - x }

/-- `s` is the batch of the second short tick while `b` is that of the long one,
`first` being the batch the first part ended in. -/
structure Resumes (first b s : Batch) : Prop where
  board : s.board = b.board
  events : b.events = first.events ++ s.events
  captured : b.captured_this_batch = s.captured_this_batch ++ first.captured_this_batch
  cooldowns : s.cooldowns = erase_cooldowns first.captured_this_batch b.cooldowns

theorem start_cooldown_erase {x y : Int} {p : PendingArrival} {cooldowns : Cooldowns}
    {captured : List PieceId} (hp : p.id ∉ captured) :
    start_cooldown y (p.since x) (erase_cooldowns captured cooldowns)
      = erase_cooldowns captured (start_cooldown (x + y) p cooldowns) := by
  have htime : y - (p.since x).time_into_tick_ms = x + y - p.time_into_tick_ms := by
    show y - (p.time_into_tick_ms - x) = _
    omega
  have hcd : (p.since x).motion = p.motion := rfl
  unfold start_cooldown
  simp only [htime, hcd]
  split_ifs with h
  · funext i
    by_cases hi : i = p.id
    · subst hi
      rw [Function.update_self, erase_cooldowns_of_not_mem hp, Function.update_self]
    · rw [Function.update_of_ne hi]
      unfold erase_cooldowns
      rw [Function.update_of_ne hi]
  · rfl

/-- **A turn of the second part.** -/
theorem Resumes.turn {first b s s' : Batch} {p : PendingArrival} {tick_start_ms x y : Int}
    (h : Resumes first b s) (hp : p.id ∉ first.captured_this_batch)
    (hrun : resolve_one (tick_start_ms + x) y s (p.since x) = .ok s') :
    ∃ b', resolve_one tick_start_ms (x + y) b p = .ok b' ∧ Resumes first b' s' := by
  -- captured in the second part: both loops skip it
  by_cases hc : p.id ∈ s.captured_this_batch
  · have hskip : resolve_one (tick_start_ms + x) y s (p.since x) = .ok s := resolve_one_of_mem hc
    rw [hskip] at hrun
    obtain rfl := Except.ok.inj hrun
    exact ⟨b, resolve_one_of_mem (by rw [h.captured]; exact List.mem_append_left _ hc), h⟩
  · have hcb : p.id ∉ b.captured_this_batch := by
      rw [h.captured, List.mem_append]
      exact not_or.mpr ⟨hc, hp⟩
    unfold resolve_one at hrun ⊢
    have hc' : (p.since x).motion.moving_piece.id ∉ s.captured_this_batch := hc
    rw [if_neg hc'] at hrun
    obtain ⟨⟨board, r⟩, hres, hret⟩ := (bind_ok_iff _ _ _).mp hrun
    have hres' : resolve_arrival b.board p.motion = .ok (board, r) := by
      rw [← h.board]
      exact hres
    rw [if_neg hcb, hres']
    refine ⟨_, rfl, ?_⟩
    obtain rfl := Except.ok.inj hret
    have hat : tick_start_ms + x + (p.since x).time_into_tick_ms
        = tick_start_ms + p.time_into_tick_ms := by
      show tick_start_ms + x + (p.time_into_tick_ms - x) = _
      omega
    refine ⟨rfl, ?_, ?_, ?_⟩
    · simp only [h.events, hat, List.append_assoc]
    · dsimp only
      rw [h.captured]
      cases r.event.captured_piece <;> rfl
    · dsimp only
      rw [h.cooldowns, start_cooldown_erase hp]
      split_ifs <;> rfl

/-- The second loop, followed through the long one: what the first part captured
is skipped here and absent there. -/
theorem Resumes.loop {first : Batch} {tick_start_ms x y : Int} :
    ∀ (ps : List PendingArrival) (b s s' : Batch), Resumes first b s →
      (∀ p ∈ ps, p.id ∈ first.captured_this_batch → p.motion.kind = .Move) →
      ((ps.filter fun p => ! is_captured_move first.captured_this_batch p.motion).map
        (PendingArrival.since x)).foldlM (resolve_one (tick_start_ms + x) y) s = .ok s' →
      ∃ b', ps.foldlM (resolve_one tick_start_ms (x + y)) b = .ok b' ∧ Resumes first b' s'
  | [], b, s, s', h, _, hrun => by
      obtain rfl := Except.ok.inj hrun
      exact ⟨b, rfl, h⟩
  | p :: ps, b, s, s', h, hmove, hrun => by
      have hrest := fun p' hp' => hmove p' (List.mem_cons_of_mem _ hp')
      -- captured in the first part: the long loop skips it, the second never had it
      by_cases hp : p.id ∈ first.captured_this_batch
      · have hk := hmove p List.mem_cons_self hp
        have hgone : is_captured_move first.captured_this_batch p.motion = true := by
          simp only [is_captured_move, decide_eq_true_eq]
          exact ⟨hp, hk⟩
        rw [List.filter_cons_of_neg (by simp [hgone])] at hrun
        obtain ⟨b', hloop, hb'⟩ := Resumes.loop ps b s s' h hrest hrun
        refine ⟨b', ?_, hb'⟩
        rw [List.foldlM_cons, resolve_one_of_mem]
        · exact hloop
        · rw [h.captured]
          exact List.mem_append_right _ hp
      · have hstay : is_captured_move first.captured_this_batch p.motion = false := by
          simp only [is_captured_move, decide_eq_false_iff_not, not_and]
          exact fun hmem => absurd hmem hp
        rw [List.filter_cons_of_pos (by simp [hstay]), List.map_cons, List.foldlM_cons] at hrun
        obtain ⟨s₁, hone, htail⟩ := (bind_ok_iff _ _ _).mp hrun
        obtain ⟨b₁, hone', hb₁⟩ := h.turn hp hone
        obtain ⟨b', hloop, hb'⟩ := Resumes.loop ps b₁ s₁ s' hb₁ hrest htail
        refine ⟨b', ?_, hb'⟩
        rw [List.foldlM_cons, hone']
        exact hloop

/-! ## The arrivals of the long tick, cut at `x` -/

theorem clamp_le_iff {v x y : Int} (hx : 0 ≤ x) (h : v ≤ x + y) :
    clamp v 0 (x + y) ≤ x ↔ v ≤ x := by
  unfold clamp
  split_ifs <;> omega

theorem clamp_of_le {v x y : Int} (hy : 0 ≤ y) (h : v ≤ x) :
    clamp v 0 (x + y) = clamp v 0 x := by
  unfold clamp
  split_ifs <;> omega

theorem clamp_past {v x y : Int} (hx : 0 ≤ x) (h : x < v) (hle : v ≤ x + y) :
    clamp v 0 (x + y) - x = clamp (v - x) 0 y := by
  unfold clamp
  split_ifs <;> omega

/-- When a motion that arrives within `ms` does so. -/
abbrev arrival_time (ms : Int) (m : Motion) : Int := clamp (time_until_arrival_ms m) 0 ms

section Roomy

variable {x y : Int} {m : Motion}

theorem Motion.Roomy.arrives_mono (h : m.Roomy (x + y)) (hx : 0 ≤ x) (hy : 0 ≤ y)
    (harrives : arrives_within x m = true) : arrives_within (x + y) m = true := by
  have hwithin := ((h.mono (x := x) (by omega)).arrives_iff hx).mp harrives
  refine (h.arrives_iff (by omega)).mpr ?_
  omega

/-- The long tick dates an arrival before `x` exactly if the first short one has it. -/
theorem Motion.Roomy.arrival_time_le (h : m.Roomy (x + y)) (hx : 0 ≤ x) (hy : 0 ≤ y)
    (harrives : arrives_within (x + y) m = true) :
    arrival_time (x + y) m ≤ x ↔ arrives_within x m = true := by
  have hxy : 0 ≤ x + y := by omega
  unfold arrival_time
  rw [(h.mono (x := x) (by omega)).arrives_iff hx, h.until_arrival hxy harrives]
  exact clamp_le_iff hx ((h.arrives_iff hxy).mp harrives)

theorem Motion.Roomy.arrival_time_first (h : m.Roomy (x + y)) (hx : 0 ≤ x) (hy : 0 ≤ y)
    (harrives : arrives_within x m = true) : arrival_time (x + y) m = arrival_time x m := by
  have hroom := h.mono (x := x) (by omega)
  unfold arrival_time
  rw [hroom.until_arrival hx harrives]
  exact clamp_of_le hy ((hroom.arrives_iff hx).mp harrives)

/-- Past `x`, so its time in the second short tick is the rest of it. -/
theorem Motion.Roomy.arrival_time_second (h : m.Roomy (x + y)) (hx : 0 ≤ x) (hy : 0 ≤ y)
    (hlate : arrives_within x m = false) (harrives : arrives_within (x + y) m = true) :
    arrival_time (x + y) m - x = arrival_time y (advanced x m) := by
  have hxy : 0 ≤ x + y := by omega
  have hroom := h.mono (x := x) (by omega)
  have hlt : x < m.duration_ms - m.elapsed_ms := by
    rw [← not_le, ← hroom.arrives_iff hx, hlate]
    exact Bool.false_ne_true
  have hrest : (advanced x m).duration_ms - (advanced x m).elapsed_ms
      = m.duration_ms - m.elapsed_ms - x := by
    rw [hroom.elapsed_advanced hx]
    show m.duration_ms - (m.elapsed_ms + x) = _
    omega
  have hlater : arrives_within y (advanced x m) = true := by
    rw [arrives_within_advanced]
    exact harrives
  unfold arrival_time
  rw [h.until_arrival hxy harrives, (h.advance hx hy hlate).until_arrival hy hlater, hrest]
  exact clamp_past hx hlt ((h.arrives_iff hxy).mp harrives)

end Roomy

/-- What the long tick settles by `x` is what the first short one settles. -/
theorem pending_arrivals_first {x y : Int} (hx : 0 ≤ x) (hy : 0 ≤ y) {motions : List Motion}
    (hroom : ∀ m ∈ motions, m.Roomy (x + y)) :
    (pending_arrivals (x + y) motions).filter (fun p => decide (p.time_into_tick_ms ≤ x))
      = (pending_arrivals x motions).map (PendingArrival.later y) := by
  -- a motion arrives within `x` exactly when its clamped time is at most `x`
  have hpick : motions.filter (fun m => decide (arrival_time (x + y) m ≤ x)
      && arrives_within (x + y) m) = motions.filter (arrives_within x) := by
    refine List.filter_congr (fun m hm => ?_)
    rw [Bool.eq_iff_iff, Bool.and_eq_true, decide_eq_true_eq]
    constructor
    · rintro ⟨hle, harr⟩
      exact ((hroom m hm).arrival_time_le hx hy harr).mp hle
    · intro h
      have harr := (hroom m hm).arrives_mono hx hy h
      exact ⟨((hroom m hm).arrival_time_le hx hy harr).mpr h, harr⟩
  unfold pending_arrivals
  rw [List.filter_map, List.filter_filter, List.map_map]
  simp only [Function.comp_def]
  rw [hpick]
  refine List.map_congr_left (fun m hm => ?_)
  obtain ⟨hm, harr⟩ := List.mem_filter.mp hm
  simp only [PendingArrival.later, advanced_advanced, (hroom m hm).arrival_time_first hx hy harr]

/-- What the long tick settles after `x` and the first short one did not capture
in flight is what the second one settles. -/
theorem pending_arrivals_second {x y : Int} (hx : 0 ≤ x) (hy : 0 ≤ y) {motions : List Motion}
    (hroom : ∀ m ∈ motions, m.Roomy (x + y)) (captured : List PieceId) :
    (((pending_arrivals (x + y) motions).filter (fun p => ¬ p.time_into_tick_ms ≤ x)).filter
        (fun p => ! is_captured_move captured p.motion)).map (PendingArrival.since x)
      = pending_arrivals y ((still_active x motions).filter
          (fun m => ! is_captured_move captured m)) := by
  have hpick : motions.filter (fun m => ! is_captured_move captured m &&
        (decide (¬ arrival_time (x + y) m ≤ x) && arrives_within (x + y) m))
      = motions.filter (fun m => arrives_within (x + y) m &&
        (! is_captured_move captured m && ! arrives_within x m)) := by
    refine List.filter_congr (fun m hm => ?_)
    rw [Bool.eq_iff_iff]
    simp only [Bool.and_eq_true, decide_eq_true_eq, Bool.not_eq_true', Bool.eq_false_iff, ne_eq]
    constructor
    · rintro ⟨hc, hle, harr⟩
      exact ⟨harr, hc, fun h => hle (((hroom m hm).arrival_time_le hx hy harr).mpr h)⟩
    · rintro ⟨harr, hc, hno⟩
      exact ⟨hc, fun hle => hno (((hroom m hm).arrival_time_le hx hy harr).mp hle), harr⟩
  have hcap : ∀ k m, is_captured_move captured (advanced k m) = is_captured_move captured m :=
    fun _ _ => rfl
  unfold pending_arrivals still_active
  simp only [List.filter_map, List.filter_filter, List.map_map, Function.comp_def,
    arrives_within_advanced, advanced_advanced, hcap]
  rw [hpick]
  refine List.map_congr_left (fun m hm => ?_)
  obtain ⟨hm, hpicked⟩ := List.mem_filter.mp hm
  simp only [Bool.and_eq_true, Bool.not_eq_true'] at hpicked
  obtain ⟨harr, -, hlate⟩ := hpicked
  simp only [PendingArrival.since, (hroom m hm).arrival_time_second hx hy hlate harr]

/-- The arrivals of the long tick, in the order in which it settles them. -/
theorem sorted_arrivals_split {x y : Int} (hx : 0 ≤ x) (hy : 0 ≤ y) {motions : List Motion}
    (hroom : ∀ m ∈ motions, m.Roomy (x + y)) :
    sorted_arrivals (x + y) motions
      = (sorted_arrivals x motions).map (PendingArrival.later y)
        ++ stableSort PendingArrival.time_into_tick_ms
            ((pending_arrivals (x + y) motions).filter (fun p => ¬ p.time_into_tick_ms ≤ x)) := by
  unfold sorted_arrivals
  rw [stableSort_split PendingArrival.time_into_tick_ms x, pending_arrivals_first hx hy hroom,
    map_stableSort PendingArrival.time_into_tick_ms PendingArrival.time_into_tick_ms
      (PendingArrival.later y) _ (fun _ _ _ _ => Iff.rfl)]

theorem sorted_arrivals_second {x y : Int} (hx : 0 ≤ x) (hy : 0 ≤ y) {motions : List Motion}
    (hroom : ∀ m ∈ motions, m.Roomy (x + y)) (captured : List PieceId) :
    ((stableSort PendingArrival.time_into_tick_ms
        ((pending_arrivals (x + y) motions).filter (fun p => ¬ p.time_into_tick_ms ≤ x))).filter
          (fun p => ! is_captured_move captured p.motion)).map (PendingArrival.since x)
      = sorted_arrivals y ((still_active x motions).filter
          (fun m => ! is_captured_move captured m)) := by
  unfold sorted_arrivals
  rw [filter_stableSort, ← pending_arrivals_second hx hy hroom,
    map_stableSort PendingArrival.time_into_tick_ms PendingArrival.time_into_tick_ms
      (PendingArrival.since x)]
  intro a _ b _
  show _ ↔ a.time_into_tick_ms - x ≤ b.time_into_tick_ms - x
  omega

/-- What stays in flight after both short ticks stays in flight after the long one. -/
theorem still_active_twice {x y : Int} (hx : 0 ≤ x) (hy : 0 ≤ y) {motions : List Motion}
    (hroom : ∀ m ∈ motions, m.Roomy (x + y)) (first second : List PieceId) :
    (still_active y ((still_active x motions).filter (fun m => ! is_captured_move first m))).filter
        (fun m => ! is_captured_move second m)
      = (still_active (x + y) motions).filter
          (fun m => ! is_captured_move (second ++ first) m) := by
  have hpick : motions.filter (fun m => ! is_captured_move second m &&
        (! arrives_within (x + y) m && (! is_captured_move first m && ! arrives_within x m)))
      = motions.filter (fun m => ! is_captured_move (second ++ first) m &&
        ! arrives_within (x + y) m) := by
    refine List.filter_congr (fun m hm => ?_)
    have hcap : is_captured_move (second ++ first) m
        = (is_captured_move second m || is_captured_move first m) := by
      unfold is_captured_move
      rw [Bool.eq_iff_iff]
      simp only [decide_eq_true_eq, Bool.or_eq_true, List.mem_append]
      tauto
    -- what has not arrived within both has not arrived within the first
    have hmono : arrives_within x m = true → arrives_within (x + y) m = true :=
      (hroom m hm).arrives_mono hx hy
    rw [hcap]
    revert hmono
    cases is_captured_move second m <;> cases is_captured_move first m <;>
      cases arrives_within x m <;> cases arrives_within (x + y) m <;> simp
  have hcap : ∀ ids k m, is_captured_move ids (advanced k m) = is_captured_move ids m :=
    fun _ _ _ => rfl
  unfold still_active
  simp only [List.filter_map, List.filter_filter, List.map_map, Function.comp_def,
    arrives_within_advanced, advanced_advanced, hcap]
  rw [hpick]

theorem erase_cooldowns_append (first second : List PieceId) (cooldowns : Cooldowns) :
    erase_cooldowns second (erase_cooldowns first cooldowns)
      = erase_cooldowns (second ++ first) cooldowns := by
  funext i
  unfold erase_cooldowns
  by_cases h2 : i ∈ second
  · rw [if_pos h2, if_pos (List.mem_append_left _ h2)]
  · rw [if_neg h2]
    by_cases h1 : i ∈ first
    · rw [if_pos h1, if_pos (List.mem_append_right _ h1)]
    · rw [if_neg h1, if_neg (by rw [List.mem_append]; exact not_or.mpr ⟨h2, h1⟩)]

/-! ## The two runs -/

/-- The first loop of the short ticks is the first part of the long one. -/
theorem first_part {a : RealTimeArbiter} {x y : Int} (hx : 0 ≤ x) (hy : 0 ≤ y)
    (hroom : a.HasRoom x) (h : Represents a) :
    ∃ b, a.advance_time x = .ok (a.finish_batch x b, b.events) ∧
      Represents (a.finish_batch x b) ∧ Ticking x (still_active x a.active_motions) [] b ∧
      ((sorted_arrivals x a.active_motions).map (PendingArrival.later y)).foldlM
        (resolve_one a.clock_ms (x + y)) (a.batch_start (x + y)) = .ok (b.later y) := by
  have hstart : (a.batch_start x).later y = a.batch_start (x + y) := by
    unfold Batch.later batch_start
    rw [count_down_count_down hy]
  obtain ⟨b, hrun, hs, ht, hloop⟩ := advance_time_rule x h.sound
    (fun ps b => Ticking x (still_active x a.active_motions) ps b ∧
      ((sorted_arrivals x a.active_motions).map (PendingArrival.later y)).foldlM
          (resolve_one a.clock_ms (x + y)) (a.batch_start (x + y))
        = (ps.map (PendingArrival.later y)).foldlM (resolve_one a.clock_ms (x + y)) (b.later y))
    ⟨ticking_start hx hroom h, by rw [hstart]⟩
    (fun p ps b hp hP => by
      have hskip : resolve_one a.clock_ms (x + y) (b.later y) (p.later y) = .ok (b.later y) :=
        resolve_one_of_mem hp
      refine ⟨hP.1.skip hp, hP.2.trans ?_⟩
      rw [List.map_cons, List.foldlM_cons, hskip]
      rfl)
    (fun p ps b e b' hp hsound hP hone hset => by
      refine ⟨hset.ticking hp hsound hP.1, hP.2.trans ?_⟩
      -- a piece on its way is not resting, so its rest can be counted down later
      have hawake : b.cooldowns p.id = none := by
        have hrest := hP.1.rested
        rw [live_cons_of_not_mem hp] at hrest
        exact hrest.awake p.motion List.mem_cons_self
      rw [List.map_cons, List.foldlM_cons, resolve_one_later hy hp hawake hone]
      rfl)
  have hon := on_time_tick hx h.sound h.on_time hroom (advance_time_of_loop hrun)
  exact ⟨b, advance_time_of_loop hrun, ht.finish hx hs hon, ht, hloop⟩

/-- Past `x` the long tick starts where the second short one does. -/
theorem resumes_start (a : RealTimeArbiter) (x y : Int) (b : Batch) :
    Resumes b (b.later y) ((a.finish_batch x b).batch_start y) where
  board := rfl
  events := (List.append_nil _).symm
  captured := rfl
  cooldowns := by
    funext i
    show count_down y (erase_cooldowns _ _) i = erase_cooldowns _ (count_down y _) i
    unfold count_down erase_cooldowns
    split_ifs <;> rfl

/-- An arrival past `x` of a piece captured by `x` is a move. -/
theorem moves_past {a : RealTimeArbiter} {x y : Int} {b : Batch}
    (ht : Ticking x (still_active x a.active_motions) [] b) (hx : 0 ≤ x) (hy : 0 ≤ y)
    (hroom : ∀ m ∈ a.active_motions, m.Roomy (x + y)) :
    ∀ p ∈ stableSort PendingArrival.time_into_tick_ms
        ((pending_arrivals (x + y) a.active_motions).filter (fun p => ¬ p.time_into_tick_ms ≤ x)),
      p.id ∈ b.captured_this_batch → p.motion.kind = .Move := by
  intro p hp hc
  rw [mem_stableSort] at hp
  obtain ⟨hpend, htime⟩ := List.mem_filter.mp hp
  unfold pending_arrivals at hpend
  obtain ⟨m, hm, rfl⟩ := List.mem_map.mp hpend
  obtain ⟨hm, harr⟩ := List.mem_filter.mp hm
  have hlate : arrives_within x m = false := by
    rw [Bool.eq_false_iff]
    intro h
    exact of_decide_eq_true htime (((hroom m hm).arrival_time_le hx hy harr).mpr h)
  have hstill : advanced x m ∈ still_active x a.active_motions :=
    List.mem_map_of_mem (List.mem_filter.mpr ⟨hm, by rw [hlate]; rfl⟩)
  cases hk : m.kind with
  | Move => exact hk
  | JumpInPlace =>
      refine absurd rfl (ht.captured_still _ hc (advanced x m) (mem_live.mpr (.inr ⟨hstill, ?_⟩)))
      intro hmove
      rw [show (advanced x m).kind = m.kind from rfl, hk] at hmove
      cases hmove

/-- **Tick-size independence**, from any state that `Represents`. -/
theorem Represents.split_tick {a : RealTimeArbiter} (h : Represents a) {x y : Int} (hx : 0 ≤ x)
    (hy : 0 ≤ y) (hroom : a.HasRoom (x + y)) : ∃ a₁ es₁ a₂ es₂, a.advance_time x = .ok (a₁, es₁) ∧
      a₁.advance_time y = .ok (a₂, es₂) ∧ a.advance_time (x + y) = .ok (a₂, es₁ ++ es₂) := by
  have hroomy := h.roomy hroom
  obtain ⟨first, hrun₁, hrep₁, ht, hfirst⟩ := first_part hx hy (hroom.first hy) h
  obtain ⟨s', hloop₂, _, _⟩ := advance_time_rule y hrep₁.sound (fun _ _ => True) trivial
    (fun _ _ _ _ _ => trivial) (fun _ _ _ _ _ _ _ _ _ _ => trivial)
  have hrun₂ := advance_time_of_loop hloop₂
  -- the second short loop runs over what the long tick settles past `x`
  have hlist : sorted_arrivals y (a.finish_batch x first).active_motions
      = ((stableSort PendingArrival.time_into_tick_ms
          ((pending_arrivals (x + y) a.active_motions).filter
            (fun p => ¬ p.time_into_tick_ms ≤ x))).filter
              (fun p => ! is_captured_move first.captured_this_batch p.motion)).map
                (PendingArrival.since x) :=
    (sorted_arrivals_second hx hy hroomy first.captured_this_batch).symm
  rw [hlist] at hloop₂
  obtain ⟨b', hsecond, hb'⟩ := Resumes.loop _ _ _ s' (resumes_start a x y first)
    (moves_past ht hx hy hroomy) hloop₂
  have hlong : a.advance_time (x + y) = .ok (a.finish_batch (x + y) b', b'.events) := by
    refine advance_time_of_loop ?_
    rw [sorted_arrivals_split hx hy hroomy, List.foldlM_append, hfirst]
    exact hsecond
  have hend : a.finish_batch (x + y) b' = (a.finish_batch x first).finish_batch y s' := by
    unfold finish_batch
    simp only [RealTimeArbiter.mk.injEq]
    refine ⟨hb'.board.symm, ?_, ?_, (add_assoc _ _ _).symm⟩
    · rw [still_active_twice hx hy hroomy, hb'.captured]
    · rw [hb'.cooldowns, hb'.captured, erase_cooldowns_append]
  refine ⟨_, _, _, _, hrun₁, hrun₂, ?_⟩
  rw [hlong, hend, hb'.events]

/-- **One coarse tick is two finer ones**, in every state the game reaches by waits that
leave room, if the coarse one leaves room itself: the same board, motions, cooldowns and
clock, and the same events in the same order. -/
theorem ticks_split {board_lines : List String} {b : Board} {f : MotionFactory} {g : GameEngine}
    {tr : List ArrivalEvent} (hparse : parse board_lines = .ok b)
    (hcd : kJumpDurationMs ≤ f.standard_cooldown_ms)
    (hrun : Reach exec WaitFits (GameEngine.new f b) g tr) {x y : Int} (hx : 0 ≤ x) (hy : 0 ≤ y)
    (hroom : g.arbiter.HasRoom (x + y)) :
    ∃ a₁ es₁ a₂ es₂, g.arbiter.advance_time x = .ok (a₁, es₁) ∧
      a₁.advance_time y = .ok (a₂, es₂) ∧ g.arbiter.advance_time (x + y) = .ok (a₂, es₁ ++ es₂) :=
  (represents_of_reach (fresh_of_parse hparse) hcd hrun).split_tick hx hy hroom

/-- In the shipped game, cutting a second in which a rook flies in under a jump
and the jumper takes it on landing. -/
theorem ticks_split_around_a_jump : ∃ g tr,
    run exec (GameEngine.new shipped_factory three_on_a_row)
      [.request_move ⟨0, 2⟩ ⟨0, 1⟩, .wait 300, .request_jump ⟨0, 1⟩] = .ok (g, tr) ∧
    ∃ a₁ es₁ a₂ es₂, g.arbiter.advance_time 400 = .ok (a₁, es₁) ∧
      a₁.advance_time 600 = .ok (a₂, es₂) ∧
      g.arbiter.advance_time (400 + 600) = .ok (a₂, es₁ ++ es₂) := by
  obtain ⟨⟨g, tr⟩, hrun, hroom⟩ := exists_ok_such
    (p := fun r => decide (r.1.arbiter.HasRoom (400 + 600)))
    (x := run exec (GameEngine.new shipped_factory three_on_a_row)
      [.request_move ⟨0, 2⟩ ⟨0, 1⟩, .wait 300, .request_jump ⟨0, 1⟩]) (by decide)
  exact ⟨g, tr, hrun, ticks_split parse_three_on_a_row (by decide)
    (reach_of_meets (by decide) hrun) (by decide) (by decide) (of_decide_eq_true hroom)⟩

/-- **A tick that wraps is not its parts.** A rook a millisecond on its way arrives within
the two short ticks, and not within the long one. -/
theorem split_tick_arrives : ∃ b g tr a₁ a₂ a es es₁ es₂, parse ["wR . ."] = .ok b ∧
    kJumpDurationMs ≤ shipped_factory.standard_cooldown_ms ∧
    run exec (GameEngine.new shipped_factory b) [.request_move ⟨0, 0⟩ ⟨0, 2⟩, .wait 1]
      = .ok (g, tr) ∧
    g.arbiter.advance_time 798 = .ok (a₁, es₁) ∧ a₁.advance_time 2147482849 = .ok (a₂, es₂) ∧
    g.arbiter.advance_time (798 + 2147482849) = .ok (a, es) ∧
    es₁ ++ es₂ ≠ es ∧ a₂.active_motions ≠ a.active_motions := by
  obtain ⟨b, hparse, hb⟩ := exists_ok_such (p := fun b =>
      (run exec (GameEngine.new shipped_factory b)
        [.request_move ⟨0, 0⟩ ⟨0, 2⟩, .wait 1]).toOption.any fun r =>
          (r.1.arbiter.advance_time 798).toOption.any fun r₁ =>
            (r₁.1.advance_time 2147482849).toOption.any fun r₂ =>
              (r.1.arbiter.advance_time (798 + 2147482849)).toOption.any fun r' =>
                decide (r₁.2 ++ r₂.2 ≠ r'.2 ∧ r₂.1.active_motions ≠ r'.1.active_motions))
    (x := parse ["wR . ."]) (by decide +kernel)
  obtain ⟨⟨g, tr⟩, hrun, hb⟩ := exists_ok_such hb
  obtain ⟨⟨a₁, es₁⟩, h₁, hb⟩ := exists_ok_such hb
  obtain ⟨⟨a₂, es₂⟩, h₂, hb⟩ := exists_ok_such hb
  obtain ⟨⟨a, es⟩, hlong, hb⟩ := exists_ok_such hb
  exact ⟨b, g, tr, a₁, a₂, a, es, es₁, es₂, hparse, by decide, hrun, h₁, h₂, hlong,
    of_decide_eq_true hb⟩

end KungFuChess
