/-
**The representation invariant** of the running game.

Board cells, the motion list and the cooldown map say the same things three
times. That they agree in every reachable state needs one fact about time: while
a jumper is off the board, whatever holds its cell rests there at least as long
as the jumper is still up (`Rested.guarded`). It is what the standard cooldown
buys when it is no shorter than a jump: whoever flies in under a jumper starts a
cooldown that outlasts the rest of the flight. So the piece in the cell of a jumper
cannot move or jump itself, and the landing on an ally, which makes that ally
idle, changes nothing that was not idle.

During a tick cooldowns are already counted down to its end while the motions
still to be settled carry the elapsed time of its end; `Rested` takes that time,
`since`, as a parameter, and is `0` between ticks.

It is bought with time, so it is lost where time wraps: a jump whose elapsed time leaves
the range of an `int` is up for longer than any rest (`ally_idled_in_the_air`). The results
are about runs whose waits leave room (`WaitFits`).
-/
import KungFuChess.Conservation
import KungFuChess.Room

set_option autoImplicit false

namespace KungFuChess

open Machine RealTimeArbiter GameEngine

/-! ## Cooldowns and flights -/

/-- What the cooldown map says about the motions, `since` being the time every
motion has run. -/
structure Rested (board : Board) (motions : List Motion) (cooldowns : Cooldowns) (since : Int) :
    Prop where
  positive : ∀ i r, cooldowns i = some r → 0 < r
  awake : ∀ m ∈ motions, cooldowns m.id = none
  move_cooldown : ∀ m ∈ motions, m.kind = .Move → kJumpDurationMs ≤ m.cooldown_ms
  jump_duration : ∀ m ∈ motions, m.kind = .JumpInPlace → m.duration_ms = kJumpDurationMs
  elapsed : ∀ m ∈ motions, since ≤ m.elapsed_ms
  jumps_apart : ∀ m ∈ motions, ∀ m' ∈ motions, m.kind = .JumpInPlace → m'.kind = .JumpInPlace →
    m.source = m'.source → m.id = m'.id
  /-- What holds the cell of an absent jumper has no motion and rests at least as
  long as the jumper is up. -/
  guarded : ∀ m ∈ motions, m.kind = .JumpInPlace → ∀ x, board.piece_at m.source = some x →
    x.id ≠ m.id → (∀ m' ∈ motions, m'.id ≠ x.id) ∧
      m.duration_ms - m.elapsed_ms ≤ (cooldowns x.id).getD 0

theorem Rested.sublist {board : Board} {motions motions' : List Motion} {cooldowns : Cooldowns}
    {since : Int} (h : Rested board motions cooldowns since) (hsub : motions'.Sublist motions) :
    Rested board motions' cooldowns since where
  positive := h.positive
  awake m hm := h.awake m (hsub.subset hm)
  move_cooldown m hm := h.move_cooldown m (hsub.subset hm)
  jump_duration m hm := h.jump_duration m (hsub.subset hm)
  elapsed m hm := h.elapsed m (hsub.subset hm)
  jumps_apart m hm m' hm' := h.jumps_apart m (hsub.subset hm) m' (hsub.subset hm')
  guarded m hm hk x hx hid := by
    obtain ⟨hno, hle⟩ := h.guarded m (hsub.subset hm) hk x hx hid
    exact ⟨fun m' hm' => hno m' (hsub.subset hm'), hle⟩

theorem Rested.perm {board : Board} {motions motions' : List Motion} {cooldowns : Cooldowns}
    {since : Int} (h : Rested board motions cooldowns since) (hp : motions'.Perm motions) :
    Rested board motions' cooldowns since where
  positive := h.positive
  awake m hm := h.awake m (hp.subset hm)
  move_cooldown m hm := h.move_cooldown m (hp.subset hm)
  jump_duration m hm := h.jump_duration m (hp.subset hm)
  elapsed m hm := h.elapsed m (hp.subset hm)
  jumps_apart m hm m' hm' := h.jumps_apart m (hp.subset hm) m' (hp.subset hm')
  guarded m hm hk x hx hid := by
    obtain ⟨hno, hle⟩ := h.guarded m (hp.subset hm) hk x hx hid
    exact ⟨fun m' hm' => hno m' (hp.subset hm'), hle⟩

/-! ### `count_down`, `start_cooldown`, `erase_cooldowns` -/

theorem count_down_eq_some {ms r : Int} {cooldowns : Cooldowns} {i : PieceId}
    (h : count_down ms cooldowns i = some r) : 0 < r ∧ cooldowns i = some (r + ms) := by
  unfold count_down at h
  cases hc : cooldowns i with
  | none =>
      rw [hc] at h
      cases h
  | some r₀ =>
      rw [hc, Option.bind_some] at h
      split_ifs at h with hle
      have hr : r₀ - ms = r := Option.some.inj h
      exact ⟨by omega, by rw [← hr]; simp⟩

theorem count_down_eq_none {ms : Int} {cooldowns : Cooldowns} {i : PieceId}
    (h : cooldowns i = none) : count_down ms cooldowns i = none := by
  unfold count_down
  rw [h]
  rfl

/-- Counting down takes at most `ms` off a cooldown. -/
theorem le_getD_count_down {ms t : Int} (hms : 0 ≤ ms) {cooldowns : Cooldowns} {i : PieceId}
    (h : t ≤ (cooldowns i).getD 0) : t - ms ≤ (count_down ms cooldowns i).getD 0 := by
  unfold count_down
  cases hc : cooldowns i with
  | none =>
      rw [hc] at h
      simp only [Option.getD_none, Option.bind_none] at h ⊢
      omega
  | some r =>
      rw [hc] at h
      simp only [Option.getD_some, Option.bind_some] at h ⊢
      split_ifs with hle
      · simp only [Option.getD_none]
        omega
      · simp only [Option.getD_some]
        omega

theorem start_cooldown_of_ne {ms : Int} {p : PendingArrival} {cooldowns : Cooldowns} {i : PieceId}
    (h : i ≠ p.id) : start_cooldown ms p cooldowns i = cooldowns i := by
  unfold start_cooldown
  split_ifs
  · exact Function.update_of_ne h _ _
  · rfl

/-- The cooldown an arrival starts covers what is left of a jump that was under
way when the tick began. -/
theorem le_getD_start_cooldown {ms : Int} {p : PendingArrival} {cooldowns : Cooldowns}
    (ht : 0 ≤ p.time_into_tick_ms) (hcd : kJumpDurationMs ≤ p.motion.cooldown_ms)
    (hnone : cooldowns p.id = none) :
    kJumpDurationMs - ms ≤ (start_cooldown ms p cooldowns p.id).getD 0 := by
  have h700 : (0 : Int) < kJumpDurationMs := by decide
  unfold start_cooldown
  split_ifs with h
  · rw [Function.update_self, Option.getD_some]
    omega
  · rw [hnone, Option.getD_none]
    omega

theorem start_cooldown_positive {ms r : Int} {p : PendingArrival} {cooldowns : Cooldowns}
    {i : PieceId} (hpos : ∀ i r, cooldowns i = some r → 0 < r)
    (h : start_cooldown ms p cooldowns i = some r) : 0 < r := by
  by_cases hi : i = p.id
  · unfold start_cooldown at h
    split_ifs at h with hgo
    · rw [hi, Function.update_self] at h
      have := Option.some.inj h
      omega
    · exact hpos i r h
  · rw [start_cooldown_of_ne hi] at h
    exact hpos i r h

theorem erase_cooldowns_of_not_mem {captured : List PieceId} {cooldowns : Cooldowns} {i : PieceId}
    (h : i ∉ captured) : erase_cooldowns captured cooldowns i = cooldowns i := if_neg h

theorem erase_cooldowns_eq_some {captured : List PieceId} {cooldowns : Cooldowns} {i : PieceId}
    {r : Int} (h : erase_cooldowns captured cooldowns i = some r) : cooldowns i = some r := by
  unfold erase_cooldowns at h
  split_ifs at h
  exact h

/-! ## `Rested` is kept -/

/-- A tick begins: cooldowns and motions move to its end together, if it leaves room. -/
theorem Rested.begin {board : Board} {motions : List Motion} {cooldowns : Cooldowns} {ms : Int}
    (hms : 0 ≤ ms) (hroom : ∀ m ∈ motions, m.Roomy ms) (h : Rested board motions cooldowns 0) :
    Rested board (motions.map (advanced ms)) (count_down ms cooldowns) ms where
  positive i r hr := (count_down_eq_some hr).1
  awake := List.forall_mem_map.mpr fun m hm => count_down_eq_none (h.awake m hm)
  move_cooldown := List.forall_mem_map.mpr h.move_cooldown
  jump_duration := List.forall_mem_map.mpr h.jump_duration
  elapsed := List.forall_mem_map.mpr fun m hm => by
    have helapsed := h.elapsed m hm
    rw [(hroom m hm).elapsed_advanced hms]
    omega
  jumps_apart := List.forall_mem_map.mpr fun m hm => List.forall_mem_map.mpr fun m' hm' =>
    h.jumps_apart m hm m' hm'
  guarded := List.forall_mem_map.mpr fun m hm hk x hx hid => by
    obtain ⟨hno, hle⟩ := h.guarded m hm hk x hx hid
    refine ⟨List.forall_mem_map.mpr hno, ?_⟩
    have hrest := le_getD_count_down hms hle
    rw [(hroom m hm).elapsed_advanced hms]
    show m.duration_ms - (m.elapsed_ms + ms) ≤ _
    omega

/-- **A landing keeps `Rested`**: either the cell it takes is no jumper's, or the
cooldown it starts is long enough. -/
theorem Rested.landed {board board' : Board} {p : PendingArrival} {e : ArrivalEvent}
    {rest : List Motion} {cooldowns : Cooldowns} {ms : Int}
    (h : Rested board (p.motion :: rest) cooldowns ms) (hs : Sound board (p.motion :: rest))
    (hl : Landed board p.motion board' e) (ht : 0 ≤ p.time_into_tick_ms) :
    Rested board' rest (start_cooldown ms p cooldowns) ms where
  positive i r hr := start_cooldown_positive h.positive hr
  awake m hm := by
    rw [start_cooldown_of_ne (hs.id_ne hm)]
    exact h.awake m (List.mem_cons_of_mem _ hm)
  move_cooldown m hm := h.move_cooldown m (List.mem_cons_of_mem _ hm)
  jump_duration m hm := h.jump_duration m (List.mem_cons_of_mem _ hm)
  elapsed m hm := h.elapsed m (List.mem_cons_of_mem _ hm)
  jumps_apart m hm m' hm' :=
    h.jumps_apart m (List.mem_cons_of_mem _ hm) m' (List.mem_cons_of_mem _ hm')
  guarded := by
    intro m hm hk x hx hid
    have hm₀ : m ∈ p.motion :: rest := List.mem_cons_of_mem _ hm
    rcases hl.read_cases hx with ⟨hq, rfl⟩ | ⟨_, _, hold⟩
    · rw [hl.moved_id]
      refine ⟨fun m' hm' => hs.id_ne hm', ?_⟩
      cases hpk : p.motion.kind with
      | JumpInPlace =>
          -- two jumps from one cell would be one jump
          have hsame := h.jumps_apart m hm₀ p.motion List.mem_cons_self hk hpk
            (hq.trans (hs.in_place p.motion List.mem_cons_self hpk))
          exact absurd hsame (hs.id_ne hm)
      | Move =>
          have hcd : kJumpDurationMs - ms ≤ (start_cooldown ms p cooldowns p.motion.id).getD 0 :=
            le_getD_start_cooldown ht (h.move_cooldown p.motion List.mem_cons_self hpk)
              (h.awake p.motion List.mem_cons_self)
          have hdur := h.jump_duration m hm₀ hk
          have hel := h.elapsed m hm₀
          omega
    · obtain ⟨hno, hle⟩ := h.guarded m hm₀ hk x hold hid
      refine ⟨fun m' hm' => hno m' (List.mem_cons_of_mem _ hm'), ?_⟩
      rw [start_cooldown_of_ne (fun heq => hno p.motion List.mem_cons_self heq.symm)]
      exact hle

/-- A blocked arrival keeps it, for those that are left. -/
theorem Rested.blocked {board board' : Board} {m : Motion} {e : ArrivalEvent} {rest : List Motion}
    {cooldowns : Cooldowns} {since : Int} (h : Rested board (m :: rest) cooldowns since)
    (hb : Blocked board m board' e) : Rested board' rest cooldowns since where
  positive := h.positive
  awake m' hm' := h.awake m' (List.mem_cons_of_mem _ hm')
  move_cooldown m' hm' := h.move_cooldown m' (List.mem_cons_of_mem _ hm')
  jump_duration m' hm' := h.jump_duration m' (List.mem_cons_of_mem _ hm')
  elapsed m' hm' := h.elapsed m' (List.mem_cons_of_mem _ hm')
  jumps_apart m₁ h₁ m₂ h₂ :=
    h.jumps_apart m₁ (List.mem_cons_of_mem _ h₁) m₂ (List.mem_cons_of_mem _ h₂)
  guarded := by
    intro m' hm' hk x hx hid
    obtain ⟨y, hy, hxy⟩ := hb.read_stateless hx
    have hxid : x.id = y.id := Piece.id_of_stateless hxy
    obtain ⟨hno, hle⟩ := h.guarded m' (List.mem_cons_of_mem _ hm') hk y hy (hxid ▸ hid)
    rw [hxid]
    exact ⟨fun m'' hm'' => hno m'' (List.mem_cons_of_mem _ hm''), hle⟩

/-- The ally a jumper lands on does not move, so making it idle changes nothing. -/
theorem Rested.quiet {board board' : Board} {m : Motion} {e : ArrivalEvent} {rest : List Motion}
    {cooldowns : Cooldowns} {since : Int} (h : Rested board (m :: rest) cooldowns since)
    (hs : Sound board (m :: rest)) (hb : Blocked board m board' e) :
    ∀ x, board.piece_at m.source = some x → ∀ m' ∈ rest, m'.id ≠ x.id := by
  cases hk : m.kind with
  | Move => exact hs.quiet_of_move hk
  | JumpInPlace =>
      intro x hx m' hm'
      obtain ⟨o, ho, hid, _⟩ := hb.ally
      rw [hs.in_place m List.mem_cons_self hk, hx] at ho
      have hxo : x = o := Option.some.inj ho
      exact (h.guarded m List.mem_cons_self hk x hx (hxo ▸ hid)).1 m' (List.mem_cons_of_mem _ hm')

/-! ## Between ticks -/

/-- Everything the simulation keeps, with a standard cooldown no shorter than a
jump. -/
structure Represents (a : RealTimeArbiter) : Prop where
  sound : Sound a.board a.active_motions
  stated : Stated a.board a.active_motions
  rested : Rested a.board a.active_motions a.cooldowns_remaining_ms 0
  /-- A jump in flight has not ended. -/
  jump_up : ∀ m ∈ a.active_motions, m.kind = .JumpInPlace → m.elapsed_ms < m.duration_ms
  on_time : ∀ m ∈ a.active_motions, m.OnTime

/-- A wait that leaves room, as each motion sees it. -/
theorem Represents.roomy {a : RealTimeArbiter} {ms : Int} (h : Represents a)
    (hroom : a.HasRoom ms) : ∀ m ∈ a.active_motions, m.Roomy ms :=
  fun m hm => ⟨h.on_time m hm, hroom m hm⟩

/-- What the loop of a tick keeps on top of `Sound`. -/
structure Ticking (ms : Int) (still : List Motion) (ps : List PendingArrival) (b : Batch) :
    Prop where
  stated : Stated b.board (live b.captured_this_batch ps still)
  rested : Rested b.board (live b.captured_this_batch ps still) b.cooldowns ms
  captured_off : ∀ i ∈ b.captured_this_batch, ¬ OnBoard b.board i
  captured_still : ∀ i ∈ b.captured_this_batch, ∀ m ∈ live b.captured_this_batch ps still, m.id ≠ i
  in_tick : ∀ p ∈ ps, 0 ≤ p.time_into_tick_ms

theorem Settled.ticking {tick_start_ms ms : Int} {still : List Motion} {p : PendingArrival}
    {ps : List PendingArrival} {b b' : Batch} {e : ArrivalEvent}
    (h : Settled tick_start_ms ms b p e b') (hp : p.id ∉ b.captured_this_batch)
    (hs : Sound b.board (p.motion :: live b.captured_this_batch ps still))
    (ht : Ticking ms still (p :: ps) b) : Ticking ms still ps b' := by
  have hst := ht.stated
  have hrest := ht.rested
  rw [live_cons_of_not_mem hp] at hst hrest
  have hsub := h.live_sublist ps still
  refine ⟨h.stated hs hst (fun hb => hrest.quiet hs hb), ?_, ?_, ?_,
    fun p' hp' => ht.in_tick p' (List.mem_cons_of_mem _ hp')⟩
  · rcases h.outcome with ⟨hl, hcd⟩ | ⟨hb, hcd⟩
    · rw [hcd]
      exact (hrest.landed hs hl (ht.in_tick p List.mem_cons_self)).sublist hsub
    · rw [hcd]
      exact (hrest.blocked hb).sublist hsub
  · intro i hi
    rcases h.mem_captured hi with ⟨c, hc, rfl⟩ | hi
    · rintro ⟨q, x, hx, hid⟩
      exact h.captured_gone hs.distinct hc hx hid
    · exact h.off_of_off (fun heq => hp (heq ▸ hi)) (ht.captured_off i hi)
  · intro i hi m hm hid
    have hm₀ := hsub.subset hm
    rcases h.mem_captured hi with ⟨c, hc, rfl⟩ | hi
    · -- what is captured is grounded, so its flight is a move, and called off
      obtain ⟨o, ho, hoc, _, hair⟩ := h.captured_piece hc
      have hk := hst.move_of_grounded ho hair (List.mem_cons_of_mem _ hm₀) (hid.trans hoc.symm)
      exact h.live_keeps hm hk c hc hid.symm
    · refine ht.captured_still i hi m ?_ hid
      rw [live_cons_of_not_mem hp]
      exact List.mem_cons_of_mem _ hm₀

theorem Ticking.skip {ms : Int} {still : List Motion} {p : PendingArrival}
    {ps : List PendingArrival} {b : Batch} (ht : Ticking ms still (p :: ps) b)
    (hp : p.id ∈ b.captured_this_batch) : Ticking ms still ps b := by
  obtain ⟨hst, hrest, hoff, hstill, htime⟩ := ht
  rw [live_cons_of_mem hp] at hst hrest hstill
  exact ⟨hst, hrest, hoff, hstill, fun p' hp' => htime p' (List.mem_cons_of_mem _ hp')⟩

theorem clamp_nonneg (v hi : Int) (h : 0 ≤ hi) : 0 ≤ clamp v 0 hi := by
  unfold clamp
  split_ifs <;> omega

theorem time_into_tick_nonneg {ms : Int} (hms : 0 ≤ ms) {motions : List Motion} :
    ∀ p ∈ sorted_arrivals ms motions, 0 ≤ p.time_into_tick_ms := by
  intro p hp
  unfold sorted_arrivals pending_arrivals at hp
  rw [StableSort.mem_stableSort, List.mem_map] at hp
  obtain ⟨m, _, rfl⟩ := hp
  exact clamp_nonneg _ _ hms

theorem ticking_start {a : RealTimeArbiter} {ms : Int} (hms : 0 ≤ ms) (hroom : a.HasRoom ms)
    (h : Represents a) :
    Ticking ms (still_active ms a.active_motions) (sorted_arrivals ms a.active_motions)
      (a.batch_start ms) where
  stated := (h.stated.map_advanced ms).perm (live_start_perm ms a.active_motions)
  rested := (h.rested.begin hms (h.roomy hroom)).perm (live_start_perm ms a.active_motions)
  captured_off _ hi := absurd hi List.not_mem_nil
  captured_still _ hi := absurd hi List.not_mem_nil
  in_tick := time_into_tick_nonneg hms

/-- The end of a tick: erasing the cooldowns of captured pieces takes none from a
piece on the board. -/
theorem Ticking.finish {a : RealTimeArbiter} {ms : Int} (hms : 0 ≤ ms) {b : Batch}
    (hs : Sound (a.finish_batch ms b).board (a.finish_batch ms b).active_motions)
    (hon : ∀ m ∈ (a.finish_batch ms b).active_motions, m.OnTime)
    (ht : Ticking ms (still_active ms a.active_motions) [] b) :
    Represents (a.finish_batch ms b) where
  sound := hs
  stated := ht.stated
  rested :=
    { positive := fun i r hr => ht.rested.positive i r (erase_cooldowns_eq_some hr)
      awake := fun m hm => by
        cases he : (a.finish_batch ms b).cooldowns_remaining_ms m.id with
        | none => rfl
        | some r => exact absurd (erase_cooldowns_eq_some he) (by rw [ht.rested.awake m hm]; simp)
      move_cooldown := ht.rested.move_cooldown
      jump_duration := ht.rested.jump_duration
      elapsed := fun m hm => le_trans hms (ht.rested.elapsed m hm)
      jumps_apart := ht.rested.jumps_apart
      guarded := fun m hm hk x hx hid => by
        obtain ⟨hno, hle⟩ := ht.rested.guarded m hm hk x hx hid
        refine ⟨hno, ?_⟩
        -- a captured piece is off the board, so it is not the one under the jumper
        have hoff : x.id ∉ b.captured_this_batch := fun hc =>
          ht.captured_off x.id hc ⟨m.source, x, hx, rfl⟩
        show _ ≤ (erase_cooldowns _ _ x.id).getD 0
        rw [erase_cooldowns_of_not_mem hoff]
        exact hle }
  jump_up m hm _ := by
    have hstill : m ∈ still_active ms a.active_motions := List.mem_of_mem_filter hm
    exact still_active_up hstill
  on_time := hon

/-- **Time passing keeps it**, if the wait leaves room. -/
theorem Represents.advance {a a' : RealTimeArbiter} {ms : Int} {es : List ArrivalEvent}
    (hms : 0 ≤ ms) (hroom : a.HasRoom ms) (h : Represents a)
    (hrun : a.advance_time ms = .ok (a', es)) : Represents a' := by
  have hon := on_time_tick hms h.sound h.on_time hroom hrun
  obtain ⟨b, hb, hs, ht⟩ := advance_time_rule ms h.sound
    (Ticking ms (still_active ms a.active_motions)) (ticking_start hms hroom h)
    (fun _ _ _ hp ht => ht.skip hp) (fun _ _ _ _ _ hp hs ht _ hset => hset.ticking hp hs ht)
  rw [advance_time_of_loop hb] at hrun
  obtain ⟨rfl, rfl⟩ := Prod.mk.inj (Except.ok.inj hrun)
  exact ht.finish hms hs hon

section Split

variable {a a₁ : RealTimeArbiter} {x y : Int} {es : List ArrivalEvent}

/-- A long tick that leaves room is one whose first part does. -/
theorem RealTimeArbiter.HasRoom.first (hroom : a.HasRoom (x + y)) (hy : 0 ≤ y) : a.HasRoom x := by
  intro m hm
  have hlong := hroom m hm
  omega

/-- And whose second part does, once the first is over. -/
theorem Represents.room_second (h : Represents a) (hx : 0 ≤ x) (hy : 0 ≤ y)
    (hroom : a.HasRoom (x + y)) (hrun : a.advance_time x = .ok (a₁, es)) : a₁.HasRoom y := by
  intro m hm
  obtain ⟨m₀, hm₀, rfl⟩ := List.mem_map.mp ((mem_still_active_of_tick h.sound hrun).2 m hm)
  obtain ⟨hm₀, hstill⟩ := List.mem_filter.mp hm₀
  exact ((h.roomy hroom m₀ hm₀).advance hx hy (by simpa using hstill)).room

end Split

/-! ## Requests -/

/-- A piece that may start a motion shares its cell with no jumper. -/
theorem Represents.no_jump_above {a : RealTimeArbiter} (h : Represents a) {q : Position}
    {x : Piece} (hx : a.board.piece_at q = some x) (hfree : a.is_piece_busy x.id = false) :
    ∀ m ∈ a.active_motions, m.kind = .JumpInPlace → m.source ≠ q := by
  rintro m hm hk rfl
  obtain ⟨hno, hnone⟩ := not_busy_iff.mp hfree
  have hle := (h.rested.guarded m hm hk x hx (hno m hm).symm).2
  have hup := h.jump_up m hm hk
  rw [hnone, Option.getD_none] at hle
  omega

theorem Rested.starts {a : RealTimeArbiter} {motion : Motion} {x : Piece} (h : Represents a)
    (hs : Starts a.board motion x) (hfree : a.is_piece_busy x.id = false)
    (hmove : motion.kind = .Move → kJumpDurationMs ≤ motion.cooldown_ms)
    (hjump : motion.kind = .JumpInPlace → motion.duration_ms = kJumpDurationMs) :
    Rested (board_after_start a.board motion x) (a.active_motions ++ [motion])
      a.cooldowns_remaining_ms 0 where
  positive := h.rested.positive
  awake := by
    intro m hm
    rcases List.mem_append.mp hm with hm | hm
    · exact h.rested.awake m hm
    · rw [List.mem_singleton.mp hm, Motion.id, hs.snapshot]
      exact (not_busy_iff.mp hfree).2
  move_cooldown := by
    intro m hm
    rcases List.mem_append.mp hm with hm | hm
    · exact h.rested.move_cooldown m hm
    · rw [List.mem_singleton.mp hm]
      exact hmove
  jump_duration := by
    intro m hm
    rcases List.mem_append.mp hm with hm | hm
    · exact h.rested.jump_duration m hm
    · rw [List.mem_singleton.mp hm]
      exact hjump
  elapsed := by
    intro m hm
    rcases List.mem_append.mp hm with hm | hm
    · exact h.rested.elapsed m hm
    · rw [List.mem_singleton.mp hm, hs.elapsed]
  jumps_apart := by
    -- two jumps over one cell: the piece there would have had to be busy
    have habove := h.no_jump_above hs.at_source hfree
    intro m hm m' hm' hk hk' heq
    rcases List.mem_append.mp hm with hm | hm <;> rcases List.mem_append.mp hm' with hm' | hm'
    · exact h.rested.jumps_apart m hm m' hm' hk hk' heq
    · rw [List.mem_singleton.mp hm'] at heq
      exact absurd heq (habove m hm hk)
    · rw [List.mem_singleton.mp hm] at heq
      exact absurd heq.symm (habove m' hm' hk')
    · rw [List.mem_singleton.mp hm, List.mem_singleton.mp hm']
  guarded := by
    intro m hm hk y hy hid
    obtain ⟨z, hz, hyz⟩ := hs.read_stateless hy
    have hyid : y.id = z.id := Piece.id_of_stateless hyz
    rcases List.mem_append.mp hm with hm | hm
    · obtain ⟨hno, hle⟩ := h.rested.guarded m hm hk z hz (hyid ▸ hid)
      rw [hyid]
      refine ⟨fun m' hm' => ?_, hle⟩
      rcases List.mem_append.mp hm' with hm' | hm'
      · exact hno m' hm'
      · rw [List.mem_singleton.mp hm', Motion.id, hs.snapshot]
        intro heq
        exact h.no_jump_above hs.at_source hfree m hm hk
          (h.sound.distinct _ _ _ _ hz hs.at_source heq.symm)
    · rw [List.mem_singleton.mp hm] at hz hid
      rw [hs.at_source] at hz
      exact absurd (hyid.trans ((congrArg Piece.id (Option.some.inj hz)).symm.trans
        (congrArg Piece.id hs.snapshot).symm)) hid

/-- A motion that starts keeps it. -/
theorem Represents.starts {g : GameEngine} {motion : Motion} {x : Piece}
    (hcd : kJumpDurationMs ≤ g.motion_factory.standard_cooldown_ms) (h : Represents g.arbiter)
    (hs : Starts g.board motion x) (hfree : g.arbiter.is_piece_busy x.id = false)
    (hmade : Made g.motion_factory motion x) : Represents (g.with_motion motion x).arbiter where
  sound := h.sound.starts hs (not_busy_iff.mp hfree).1
  stated := h.stated.starts h.sound.distinct hs (not_busy_iff.mp hfree).1
  rested := by
    refine Rested.starts h hs hfree (fun hk => ?_) (fun hk => ?_)
    · rcases hmade with hm | hm
      · rw [hm]
        exact hcd
      · rw [hm] at hk
        cases hk
    · rcases hmade with hm | hm
      · rw [hm] at hk
        cases hk
      · rw [hm]
        rfl
  jump_up := by
    intro m hm hk
    rcases List.mem_append.mp hm with hm | hm
    · exact h.jump_up m hm hk
    · rw [List.mem_singleton.mp hm] at hk ⊢
      rcases hmade with hm | hm
      · rw [hm] at hk
        cases hk
      · rw [hm]
        show (0 : Int) < kJumpDurationMs
        decide
  on_time := by
    intro m hm
    rcases List.mem_append.mp hm with hm | hm
    · exact h.on_time m hm
    · rw [List.mem_singleton.mp hm]
      exact hs.on_time

/-! ## Runs -/

theorem represents_new {f : MotionFactory} {b : Board} (hb : Fresh b) :
    Represents (GameEngine.new f b).arbiter where
  sound := sound_new f hb
  stated := stated_nil hb.idle
  rested :=
    { positive := fun i r hr => by cases hr
      awake := fun m hm => absurd hm List.not_mem_nil
      move_cooldown := fun m hm => absurd hm List.not_mem_nil
      jump_duration := fun m hm => absurd hm List.not_mem_nil
      elapsed := fun m hm => absurd hm List.not_mem_nil
      jumps_apart := fun m hm => absurd hm List.not_mem_nil
      guarded := fun m hm => absurd hm List.not_mem_nil }
  jump_up m hm := absurd hm List.not_mem_nil
  on_time m hm := absurd hm List.not_mem_nil

/-- **The run lemma.** -/
theorem represents_of_reach {f : MotionFactory} {b : Board} {g : GameEngine}
    {tr : List ArrivalEvent} (hb : Fresh b) (hcd : kJumpDurationMs ≤ f.standard_cooldown_ms)
    (h : Reach exec WaitFits (GameEngine.new f b) g tr) : Represents g.arbiter := by
  refine Reach.invariant (P := fun g _ => Represents g.arbiter) (represents_new hb) ?_ h
  intro g tr cmd g' es hr hrep hfits hrun
  cases exec_effect hrun with
  | refused => exact hrep
  | started _ m x _ hs hfree hmade =>
      refine hrep.starts ?_ hs hfree hmade
      rw [factory_of_reach hr]
      exact hcd
  | waited ms a es hopen hadv => exact hrep.advance (Int.natCast_nonneg ms) (hfits hopen) hadv

/-! ## The result -/

/-- What the three representations of the game agree on. -/
structure WellRepresented (a : RealTimeArbiter) : Prop where
  ids_distinct : ∀ p q x y, a.board.piece_at p = some x → a.board.piece_at q = some y →
    x.id = y.id → p = q
  own_cell : ∀ pos x, a.board.piece_at pos = some x → x.cell = pos
  one_motion : (a.active_motions.map fun m => m.moving_piece.id).Nodup
  motion_or_cooldown : ∀ m ∈ a.active_motions, a.cooldowns_remaining_ms m.moving_piece.id = none
  cooldown_positive : ∀ i r, a.cooldowns_remaining_ms i = some r → 0 < r
  moving : ∀ m ∈ a.active_motions, m.kind = .Move →
    a.board.piece_at m.source = some { m.moving_piece with state := .Moving }
  airborne : ∀ m ∈ a.active_motions, m.kind = .JumpInPlace →
    a.board.piece_at m.source = some { m.moving_piece with state := .Airborne } ∨
      ∀ pos x, a.board.piece_at pos = some x → x.id ≠ m.moving_piece.id
  others_idle : ∀ pos x, a.board.piece_at pos = some x →
    (∀ m ∈ a.active_motions, m.moving_piece.id ≠ x.id) → x.state = .Idle

theorem Piece.eq_with_state {x y : Piece} (h : x.stateless = y.stateless) :
    x = { y with state := x.state } := by
  cases x
  cases y
  simp only [Piece.stateless, Piece.mk.injEq] at h ⊢
  tauto

/-- What the caller sees of it. -/
theorem Represents.well_represented {a : RealTimeArbiter} (h : Represents a) :
    WellRepresented a where
  ids_distinct := h.sound.distinct
  own_cell := h.sound.cell
  one_motion := h.sound.nodup
  motion_or_cooldown := h.rested.awake
  cooldown_positive := h.rested.positive
  moving := by
    intro m hm hk
    obtain ⟨x, hx, hxm, _⟩ := h.sound.mover m hm hk
    have hstate := h.stated.under_way m hm _ x hx (Piece.id_of_stateless hxm)
    rw [hk] at hstate
    rw [hx, Piece.eq_with_state hxm, hstate]
    rfl
  airborne := by
    intro m hm hk
    by_cases hon : OnBoard a.board m.moving_piece.id
    · obtain ⟨q, x, hx, hid⟩ := hon
      obtain ⟨rfl, hxm⟩ := h.sound.jumper m hm hk q x hx hid
      have hstate := h.stated.under_way m hm _ x hx hid
      rw [hk] at hstate
      left
      rw [hx, Piece.eq_with_state hxm, hstate]
      rfl
    · exact .inr fun pos x hx hid => hon ⟨pos, x, hx, hid⟩
  others_idle := h.stated.at_rest

/-- **The representation invariant.** With a standard cooldown of at least the
jump duration, and waits that leave room, every reachable state is well represented, and
no command on it makes the board throw. -/
theorem running_game_is_well_represented {board_lines : List String} {b : Board}
    {f : MotionFactory} {g : GameEngine} {tr : List ArrivalEvent}
    (hparse : parse board_lines = .ok b) (hcd : kJumpDurationMs ≤ f.standard_cooldown_ms)
    (hrun : Reach exec WaitFits (GameEngine.new f b) g tr) :
    WellRepresented g.arbiter ∧ ∀ cmd, ∃ r, exec g cmd = .ok r := by
  have hrep := represents_of_reach (fresh_of_parse hparse) hcd hrun
  refine ⟨hrep.well_represented, fun cmd => ?_⟩
  obtain ⟨g', es, h⟩ := exec_total hrep.sound cmd
  exact ⟨_, h⟩

/-- The shipped game, with a capture under way and a jumper in the air. -/
theorem shipped_game_is_well_represented : ∃ g tr,
    run exec (GameEngine.new shipped_factory three_on_a_row)
      [.request_move ⟨0, 2⟩ ⟨0, 1⟩, .wait 300, .request_jump ⟨0, 1⟩, .wait 100] = .ok (g, tr) ∧
    WellRepresented g.arbiter ∧ ∀ cmd, ∃ r, exec g cmd = .ok r := by
  obtain ⟨⟨g, tr⟩, hrun⟩ := exists_ok (x := run exec (GameEngine.new shipped_factory three_on_a_row)
    [.request_move ⟨0, 2⟩ ⟨0, 1⟩, .wait 300, .request_jump ⟨0, 1⟩, .wait 100]) (by decide)
  exact ⟨g, tr, hrun, running_game_is_well_represented parse_three_on_a_row (by decide)
    (reach_of_meets (by decide) hrun)⟩

/-- A king that jumped off its cell is left in the air by a wait that wraps its time. Its
ally has come in under it, and is itself in the air when the king lands at last. -/
def wrapped_jump : List Command :=
  [.request_move ⟨0, 0⟩ ⟨0, 1⟩, .wait 300, .request_jump ⟨0, 1⟩, .wait 100, .wait 2147483647,
    .request_move ⟨0, 1⟩ ⟨0, 0⟩, .wait 400, .request_move ⟨1, 1⟩ ⟨0, 1⟩, .wait 400, .wait 2500,
    .wait 2147480849, .request_jump ⟨0, 1⟩, .wait 100]

/-- **The invariant is lost where time wraps**: the landing king makes its ally idle, though
the ally's own jump is still to end. -/
theorem ally_idled_in_the_air : ∃ b g tr, parse ["bR wK .", ". wR ."] = .ok b ∧
    kJumpDurationMs ≤ shipped_factory.standard_cooldown_ms ∧
    run exec (GameEngine.new shipped_factory b) wrapped_jump = .ok (g, tr) ∧
    ¬WellRepresented g.arbiter := by
  obtain ⟨b, hparse, hb⟩ := exists_ok_such (p := fun b =>
      ((run exec (GameEngine.new shipped_factory b) wrapped_jump).toOption.any fun r =>
        decide (∃ m ∈ r.1.arbiter.active_motions, m.kind = .JumpInPlace ∧
          r.1.board.piece_at m.source = some { m.moving_piece with state := .Idle })) = true)
    (x := parse ["bR wK .", ". wR ."]) (by decide +kernel)
  obtain ⟨⟨g, tr⟩, hrun, hidle⟩ := exists_ok_such (of_decide_eq_true hb)
  obtain ⟨m, hm, hk, hidle⟩ := of_decide_eq_true hidle
  refine ⟨b, g, tr, hparse, by decide, hrun, fun hwell => ?_⟩
  -- its piece is on the board, and not airborne
  rcases hwell.airborne m hm hk with hair | hoff
  · have heq := Option.some.inj (hidle.symm.trans hair)
    cases congrArg Piece.state heq
  · exact hoff _ _ hidle rfl

end KungFuChess
