/-
**Moves and rests follow absolute time.**

The arbiter keeps no times of day: a motion counts up what has elapsed, a rest counts
down what is left, and a tick credits each with a part of itself. Here the clock is put
back. The arrivals of a run come in the order of their times (`InOrder`), and a motion
that starts at `s` and takes `d` arrives at `s + d`: a tick that ends before lets it go
on (`tick_before_due`), the one that reaches it brings it to its end (`tick_at_due`).

The last needs room: a tick that takes the motion past what an `int` holds does not bring
it to its end (`rook_that_never_comes`). The order of arrivals and the rests do not.
-/
import KungFuChess.Rests
import KungFuChess.Room

set_option autoImplicit false

namespace KungFuChess

open Machine RealTimeArbiter GameEngine StableSort

/-! ## The order of arrivals -/

/-- The times of a list of arrivals, in order and from `lo` to `hi`. -/
structure InOrder (lo hi : Int) (tr : List ResolvedArrival) : Prop where
  sorted : (tr.map fun r => r.event.arrived_at_ms).Pairwise (· ≤ ·)
  from_lo : ∀ r ∈ tr, lo ≤ r.event.arrived_at_ms
  to_hi : ∀ r ∈ tr, r.event.arrived_at_ms ≤ hi

theorem InOrder.nil (lo hi : Int) : InOrder lo hi [] := by
  constructor <;> simp

theorem InOrder.append {lo mid hi : Int} {tr tr' : List ResolvedArrival} (hlo : lo ≤ mid)
    (hhi : mid ≤ hi) (h : InOrder lo mid tr) (h' : InOrder mid hi tr') :
    InOrder lo hi (tr ++ tr') := by
  refine ⟨?_, ?_, ?_⟩
  · rw [List.map_append, List.pairwise_append]
    refine ⟨h.sorted, h'.sorted, ?_⟩
    simp only [List.forall_mem_map]
    intro r hr r' hr'
    exact (h.to_hi r hr).trans (h'.from_lo r' hr')
  · intro r hr
    rcases List.mem_append.mp hr with hr | hr
    · exact h.from_lo r hr
    · exact hlo.trans (h'.from_lo r hr)
  · intro r hr
    rcases List.mem_append.mp hr with hr | hr
    · exact (h.to_hi r hr).trans hhi
    · exact h'.to_hi r hr

/-- One more, later than the rest. -/
theorem InOrder.snoc {lo mid hi : Int} {tr : List ResolvedArrival} {r : ResolvedArrival}
    (h : InOrder lo mid tr) (hlo : lo ≤ mid) (hmid : mid ≤ r.event.arrived_at_ms)
    (hhi : r.event.arrived_at_ms ≤ hi) : InOrder lo hi (tr ++ [r]) := by
  refine h.append hlo (hmid.trans hhi) ⟨List.pairwise_singleton _ _, ?_, ?_⟩
  · simpa using hmid
  · simpa using hhi

/-- What has arrived is in order, and what is still to arrive comes later, in order. -/
def Queued (lo hi : Int) (rs : List ResolvedArrival) (ps : List PendingArrival) : Prop :=
  ∃ now, InOrder lo now rs ∧ lo ≤ now ∧ now ≤ hi ∧
    (∀ p ∈ ps, now ≤ lo + p.time_into_tick_ms ∧ lo + p.time_into_tick_ms ≤ hi) ∧
    ps.Pairwise (ByKey PendingArrival.time_into_tick_ms)

theorem Queued.tail {lo hi : Int} {rs : List ResolvedArrival} {p : PendingArrival}
    {ps : List PendingArrival} (h : Queued lo hi rs (p :: ps)) : Queued lo hi rs ps := by
  obtain ⟨now, hrs, hlo, hhi, hps, hsorted⟩ := h
  refine ⟨now, hrs, hlo, hhi, ?_, hsorted.of_cons⟩
  intro q hq
  exact hps q (List.mem_cons_of_mem _ hq)

theorem Queued.turn {lo hi : Int} {rs : List ResolvedArrival} {p : PendingArrival}
    {ps : List PendingArrival} {r : ResolvedArrival} (h : Queued lo hi rs (p :: ps))
    (hr : r.event.arrived_at_ms = lo + p.time_into_tick_ms) : Queued lo hi (rs ++ [r]) ps := by
  obtain ⟨now, hrs, hlo, hhi, hps, hsorted⟩ := h
  obtain ⟨hfirst, hrest⟩ := List.pairwise_cons.mp hsorted
  obtain ⟨hnow, hp⟩ := hps p List.mem_cons_self
  refine ⟨lo + p.time_into_tick_ms, ?_, by omega, hp, ?_, hrest⟩
  · exact hrs.snoc hlo (by omega) (by omega)
  · intro q hq
    have hpq : p.time_into_tick_ms ≤ q.time_into_tick_ms := hfirst q hq
    have hq' := (hps q (List.mem_cons_of_mem _ hq)).2
    omega

/-- **The arrivals of a tick come in order.** -/
theorem tick_in_order {a : RealTimeArbiter} {ms : Int} (hms : 0 ≤ ms)
    (hs : Sound a.board a.active_motions) :
    InOrder a.clock_ms (a.clock_ms + ms) (a.resolved_in ms) := by
  have hstart : Queued a.clock_ms (a.clock_ms + ms) [] (sorted_arrivals ms a.active_motions) := by
    refine ⟨a.clock_ms, .nil _ _, le_refl _, by omega, ?_, stableSort_pairwise _ _⟩
    intro p hp
    have hbetween := arrivals_between hms _ p hp
    omega
  obtain ⟨b, _, _, _, now, hrs, _, hhi, _⟩ := chronicle_rule ms hs
    (fun rs ps _ => Queued a.clock_ms (a.clock_ms + ms) rs ps) hstart
    (fun _ _ _ _ _ h => h.tail) (fun _ _ _ _ _ _ _ _ h hturn => h.turn hturn.settled.at_ms)
  refine ⟨hrs.sorted, hrs.from_lo, ?_⟩
  intro r hr
  exact (hrs.to_hi r hr).trans hhi

/-- A tick moves the clock by what it is told. -/
theorem finish_batch_clock (a : RealTimeArbiter) (ms : Int) (b : Batch) :
    (a.finish_batch ms b).clock_ms = a.clock_ms + ms := rfl

/-- **The arrivals of a run come in order**, none after the clock. -/
theorem InOrder.step {g g' : GameEngine} {cmd : Command} {lo : Int} {tr rs : List ResolvedArrival}
    (h : InOrder lo g.arbiter.clock_ms tr) (hlo : lo ≤ g.arbiter.clock_ms) (hs : g.Sound)
    (hexec : Chronicled g cmd g' rs) :
    InOrder lo g'.arbiter.clock_ms (tr ++ rs) ∧ g.arbiter.clock_ms ≤ g'.arbiter.clock_ms := by
  cases hexec with
  | refused => exact ⟨by rwa [List.append_nil], le_refl _⟩
  | started => exact ⟨by rwa [List.append_nil], le_refl _⟩
  | waited ms b running loop =>
      have hms : (0 : Int) ≤ ms := Int.natCast_nonneg ms
      rw [finish_batch_clock]
      exact ⟨h.append hlo (by omega) (tick_in_order hms hs), by omega⟩

/-! ## Arrivals -/

/-- The piece is captured before any arrival of it. -/
def TakenFirst (i : PieceId) (rs : List ResolvedArrival) : Prop :=
  ∃ pre r post, rs = pre ++ r :: post ∧ takes i r = true ∧
    ∀ r' ∈ pre, r'.event.moved_piece.id ≠ i

/-- The motion ends in one arrival, at that time, and its piece has no other. -/
def ArrivesOnce (m : Motion) (at_ms : Int) (rs : List ResolvedArrival) : Prop :=
  ∃ pre r post, rs = pre ++ r :: post ∧ r.event.moved_piece.id = m.id ∧
    r.event.source = m.source ∧ r.event.kind = m.kind ∧ r.event.arrived_at_ms = at_ms ∧
    ∀ r' ∈ pre ++ post, r'.event.moved_piece.id ≠ m.id

section Arrives

variable {i : PieceId} {m : Motion} {at_ms : Int} {rs rs' : List ResolvedArrival}
  {r : ResolvedArrival}

theorem TakenFirst.append (h : TakenFirst i rs) (rs' : List ResolvedArrival) :
    TakenFirst i (rs ++ rs') := by
  obtain ⟨pre, r, post, rfl, htakes, hpre⟩ := h
  refine ⟨pre, r, post ++ rs', ?_, htakes, hpre⟩
  rw [List.append_assoc, List.cons_append]

/-- Nobody has heard of the piece so far. -/
theorem TakenFirst.after (h : TakenFirst i rs') (hquiet : ∀ r ∈ rs, r.event.moved_piece.id ≠ i) :
    TakenFirst i (rs ++ rs') := by
  obtain ⟨pre, r, post, rfl, htakes, hpre⟩ := h
  refine ⟨rs ++ pre, r, post, ?_, htakes, ?_⟩
  · rw [List.append_assoc]
  · intro r' hr'
    rcases List.mem_append.mp hr' with hr' | hr'
    · exact hquiet r' hr'
    · exact hpre r' hr'

theorem takenFirst_of_mem (hr : r ∈ rs) (htakes : takes i r = true)
    (hquiet : ∀ r ∈ rs, r.event.moved_piece.id ≠ i) : TakenFirst i rs := by
  obtain ⟨pre, post, rfl⟩ := List.append_of_mem hr
  refine ⟨pre, r, post, rfl, htakes, ?_⟩
  intro r' hr'
  exact hquiet r' (List.mem_append_left _ hr')

theorem ArrivesOnce.snoc (h : ArrivesOnce m at_ms rs) (hr : r.event.moved_piece.id ≠ m.id) :
    ArrivesOnce m at_ms (rs ++ [r]) := by
  obtain ⟨pre, r₀, post, rfl, hmoved, hsource, hkind, hat, hother⟩ := h
  refine ⟨pre, r₀, post ++ [r], ?_, hmoved, hsource, hkind, hat, ?_⟩
  · rw [List.append_assoc, List.cons_append]
  · intro r' hr'
    rw [← List.append_assoc] at hr'
    rcases List.mem_append.mp hr' with hr' | hr'
    · exact hother r' hr'
    · rw [List.mem_singleton.mp hr']
      exact hr

end Arrives

section Tick

variable {a : RealTimeArbiter} {ms : Int} {m : Motion}

/-- A piece has one motion at a time. -/
theorem Sound.eq_of_id {board : Board} {motions : List Motion} {m m' : Motion}
    (hs : Sound board motions) (hm : m ∈ motions) (hm' : m' ∈ motions) (hid : m'.id = m.id) :
    m' = m :=
  List.inj_on_of_nodup_map hs.nodup hm' hm hid

theorem sorted_arrivals_nodup (ms : Int) (hs : Sound a.board a.active_motions) :
    ((sorted_arrivals ms a.active_motions).map PendingArrival.id).Nodup := by
  have hperm := (stableSort_perm PendingArrival.time_into_tick_ms
    (pending_arrivals ms a.active_motions)).map PendingArrival.id
  refine hperm.nodup_iff.mpr ?_
  unfold pending_arrivals
  rw [List.map_map]
  exact hs.nodup.sublist (List.Sublist.map _ List.filter_sublist)

/-- **A motion that is not due goes on**, unless its piece is captured. -/
theorem tick_before_due (hs : Sound a.board a.active_motions) (hm : m ∈ a.active_motions)
    (hearly : arrives_within ms m = false) {b : Batch}
    (hloop : (sorted_arrivals ms a.active_motions).foldlM (resolve_one a.clock_ms ms)
      (a.batch_start ms) = .ok b) :
    (∀ r ∈ a.resolved_in ms, r.event.moved_piece.id ≠ m.id) ∧
      ((∃ r ∈ a.resolved_in ms, takes m.id r = true) ∨
        advanced ms m ∈ (a.finish_batch ms b).active_motions) := by
  have hothers : ∀ p ∈ sorted_arrivals ms a.active_motions, p.id ≠ m.id := by
    intro p hp hid
    obtain ⟨m', hm', rfl⟩ := List.mem_map.mp ((mem_stableSort _).mp hp)
    obtain ⟨hm', harrives⟩ := List.mem_filter.mp hm'
    rw [hs.eq_of_id hm hm' hid, hearly] at harrives
    cases harrives
  obtain ⟨b', hloop', _, _, _, hquiet, htold⟩ := chronicle_rule ms hs
    (fun rs ps b => (∀ p ∈ ps, p.id ≠ m.id) ∧ (∀ r ∈ rs, r.event.moved_piece.id ≠ m.id) ∧
      Told b rs)
    ⟨hothers, fun r hr => absurd hr List.not_mem_nil, fun i hi => absurd hi List.not_mem_nil⟩
    (by
      rintro rs p ps b _ ⟨hps, hrest⟩
      exact ⟨fun q hq => hps q (List.mem_cons_of_mem _ hq), hrest⟩)
    (by
      rintro rs p ps b r b' _ _ ⟨hps, hquiet, htold⟩ hturn
      refine ⟨fun q hq => hps q (List.mem_cons_of_mem _ hq), ?_, htold.turn hturn⟩
      intro r' hr'
      rcases List.mem_append.mp hr' with hr' | hr'
      · exact hquiet r' hr'
      · rw [List.mem_singleton.mp hr', hturn.settled.moved_id]
        exact hps p List.mem_cons_self)
  obtain rfl : b' = b := Except.ok.inj (hloop'.symm.trans hloop)
  refine ⟨hquiet, ?_⟩
  by_cases hc : m.id ∈ b'.captured_this_batch
  · exact .inl (htold _ hc)
  · refine .inr (List.mem_filter.mpr ⟨?_, ?_⟩)
    · exact List.mem_map_of_mem (List.mem_filter.mpr ⟨hm, by rw [hearly]; rfl⟩)
    · have hc' : (advanced ms m).moving_piece.id ∉ b'.captured_this_batch := hc
      unfold is_captured_move
      simp [hc']

/-- How far a tick has come with the arrival `p₀` of a motion: its piece was captured,
the arrival is still to come, or it has come. -/
inductive Delivering (m : Motion) (at_ms : Int) (p₀ : PendingArrival) (rs : List ResolvedArrival)
    (ps : List PendingArrival) (b : Batch) : Prop
  | taken (taken : TakenFirst m.id rs)
  | waiting (here : p₀ ∈ ps) (quiet : ∀ r ∈ rs, r.event.moved_piece.id ≠ m.id)
      (free : m.id ∉ b.captured_this_batch)
  | delivered (once : ArrivesOnce m at_ms rs) (nobody : ∀ p ∈ ps, p.id ≠ m.id)

section Delivering

variable {at_ms : Int} {p₀ p : PendingArrival} {rs : List ResolvedArrival}
  {ps : List PendingArrival} {b b' : Batch} {r : ResolvedArrival}

theorem Delivering.skip (h : Delivering m at_ms p₀ rs (p :: ps) b) (hp₀ : p₀.id = m.id)
    (hc : p.id ∈ b.captured_this_batch) : Delivering m at_ms p₀ rs ps b := by
  cases h with
  | taken taken => exact .taken taken
  | waiting here quiet free =>
      refine .waiting ?_ quiet free
      rcases List.mem_cons.mp here with rfl | here
      · rw [hp₀] at hc
        exact absurd hc free
      · exact here
  | delivered once nobody =>
      exact .delivered once fun q hq => nobody q (List.mem_cons_of_mem _ hq)

theorem Delivering.turn (h : Delivering m at_ms p₀ rs (p :: ps) b)
    (hmotion : p₀.motion = advanced ms m) (hat : a.clock_ms + p₀.time_into_tick_ms = at_ms)
    (hnodup : ((p :: ps).map PendingArrival.id).Nodup) (hturn : Turn a.clock_ms ms b p r b') :
    Delivering m at_ms p₀ (rs ++ [r]) ps b' := by
  have hp₀ : p₀.id = m.id := by
    unfold PendingArrival.id
    rw [hmotion]
    rfl
  have hmoved := hturn.settled.moved_id
  rw [List.map_cons, List.nodup_cons] at hnodup
  have hothers : ∀ q ∈ ps, q.id ≠ p.id := by
    intro q hq hid
    exact hnodup.1 (hid ▸ List.mem_map_of_mem hq)
  cases h with
  | taken taken => exact .taken (taken.append [r])
  | waiting here quiet free =>
      rcases List.mem_cons.mp here with rfl | here
      · -- its turn has come
        refine .delivered ⟨rs, r, [], rfl, hmoved.trans hp₀, ?_, ?_, ?_, ?_⟩ ?_
        · have hsource : r.event.source = p₀.motion.source := by
            rcases hturn.outcome with ⟨_, hl, _⟩ | ⟨_, hb, _⟩
            · exact hl.source
            · exact hb.source
          rw [hsource, hmotion]
          rfl
        · have hkind : r.event.kind = p₀.motion.kind := by
            rcases hturn.outcome with ⟨_, hl, _⟩ | ⟨_, hb, _⟩
            · exact hl.kind
            · exact hb.kind
          rw [hkind, hmotion]
          rfl
        · exact hturn.settled.at_ms.trans hat
        · rw [List.append_nil]
          exact quiet
        · rw [← hp₀]
          exact hothers
      · -- somebody else's turn, who may capture the piece
        have hother : p.id ≠ m.id := by
          rw [← hp₀]
          exact (hothers p₀ here).symm
        have hquiet : ∀ r' ∈ rs ++ [r], r'.event.moved_piece.id ≠ m.id := by
          intro r' hr'
          rcases List.mem_append.mp hr' with hr' | hr'
          · exact quiet r' hr'
          · rw [List.mem_singleton.mp hr', hmoved]
            exact hother
        by_cases hc : m.id ∈ captured_ids r.event
        · refine .taken (takenFirst_of_mem (List.mem_append_right _ (List.mem_singleton_self r))
            ?_ hquiet)
          unfold takes
          unfold captured_ids at hc
          simpa [Option.any_eq_true] using hc
        · refine .waiting here hquiet ?_
          rw [hturn.settled.captured, List.mem_append]
          exact not_or.mpr ⟨hc, free⟩
  | delivered once nobody =>
      refine .delivered (once.snoc ?_) fun q hq => nobody q (List.mem_cons_of_mem _ hq)
      rw [hmoved]
      exact nobody p List.mem_cons_self

end Delivering

/-- **A motion that is due arrives**, unless its piece is captured first. -/
theorem tick_at_due (hms : 0 ≤ ms) (hs : Sound a.board a.active_motions)
    (hm : m ∈ a.active_motions) (hroom : m.Roomy ms) (hdue : arrives_within ms m = true) :
    TakenFirst m.id (a.resolved_in ms) ∨
      ArrivesOnce m (a.clock_ms + (m.duration_ms - m.elapsed_ms)) (a.resolved_in ms) := by
  set p₀ : PendingArrival := ⟨advanced ms m, clamp (time_until_arrival_ms m) 0 ms⟩ with hp₀
  have hhere : p₀ ∈ sorted_arrivals ms a.active_motions := by
    refine (mem_stableSort _).mpr (List.mem_map.mpr ⟨m, ?_, rfl⟩)
    exact List.mem_filter.mpr ⟨hm, hdue⟩
  have htime : p₀.time_into_tick_ms = m.duration_ms - m.elapsed_ms := by
    have hwithin := (hroom.arrives_iff hms).mp hdue
    have hon := hroom.not_over
    show clamp (time_until_arrival_ms m) 0 ms = _
    rw [hroom.until_arrival hms hdue]
    unfold clamp
    rw [if_neg (by omega), if_neg (by omega)]
  obtain ⟨b, _, _, _, hdelivering, _⟩ := chronicle_rule ms hs
    (fun rs ps b => Delivering m (a.clock_ms + (m.duration_ms - m.elapsed_ms)) p₀ rs ps b ∧
      (ps.map PendingArrival.id).Nodup)
    ⟨.waiting hhere (fun r hr => absurd hr List.not_mem_nil) List.not_mem_nil,
      sorted_arrivals_nodup ms hs⟩
    (by
      rintro rs p ps b hc ⟨h, hnodup⟩
      exact ⟨h.skip rfl hc, (List.nodup_cons.mp hnodup).2⟩)
    (by
      rintro rs p ps b r b' _ _ ⟨h, hnodup⟩ hturn
      exact ⟨h.turn rfl (by rw [htime]) hnodup hturn, (List.nodup_cons.mp hnodup).2⟩)
  cases hdelivering with
  | taken taken => exact .inl taken
  | waiting here => cases here
  | delivered once => exact .inr once

/-- A motion that is due is over after the tick. -/
theorem over_after_due (hs : Sound a.board a.active_motions) (hm : m ∈ a.active_motions)
    (hdue : arrives_within ms m = true) (b : Batch) :
    ∀ m' ∈ (a.finish_batch ms b).active_motions, m'.id ≠ m.id := by
  intro m' hm' hid
  obtain ⟨m₀, hm₀, rfl⟩ := List.mem_map.mp (List.mem_filter.mp hm').1
  obtain ⟨hm₀, hnot⟩ := List.mem_filter.mp hm₀
  rw [hs.eq_of_id hm hm₀ hid, hdue] at hnot
  cases hnot

end Tick

/-! ## Runs -/

/-- Every wait leaves room, and ends before that time. -/
def EndsBefore (due : Int) (g : GameEngine) (tr : List ResolvedArrival) (cmd : Command) : Prop :=
  g.WaitFits tr cmd ∧
    match cmd with
    | .wait ms => g.game_over = true ∨ g.arbiter.clock_ms + ms < due
    | .request_move _ _ => True
    | .request_jump _ => True

/-- The motion as it is when the clock shows `clock_ms`, if it started at `s`. -/
def Motion.at_clock (m : Motion) (s clock_ms : Int) : Motion :=
  { m with elapsed_ms := clock_ms - s }

/-- A motion that started at `s` is under way, or its piece has been captured. -/
structure UnderWay (m : Motion) (s : Int) (g : GameEngine) (tr : List ResolvedArrival) : Prop where
  begun : s ≤ g.arbiter.clock_ms
  not_late : g.arbiter.clock_ms ≤ s + m.duration_ms
  on : g.arbiter.clock_ms < s + m.duration_ms ∨ g.game_over = false
  way : TakenFirst m.id tr ∨ ((∀ r ∈ tr, r.event.moved_piece.id ≠ m.id) ∧
    m.at_clock s g.arbiter.clock_ms ∈ g.arbiter.active_motions)

/-- The motion itself, in a wait that leaves room. -/
theorem UnderWay.roomy {m : Motion} {s : Int} {g : GameEngine} {tr : List ResolvedArrival}
    {ms : Nat} (h : UnderWay m s g tr) (hfits : g.WaitFits tr (.wait ms))
    (hopen : g.game_over = false)
    (hactive : m.at_clock s g.arbiter.clock_ms ∈ g.arbiter.active_motions) :
    (m.at_clock s g.arbiter.clock_ms).Roomy ms := by
  have hbegun := h.begun
  have hnow := h.not_late
  refine ⟨⟨?_, ?_⟩, hfits hopen _ hactive⟩
  · show 0 ≤ g.arbiter.clock_ms - s
    omega
  · show g.arbiter.clock_ms - s ≤ m.duration_ms
    omega

theorem UnderWay.step {m : Motion} {s : Int} {g g' : GameEngine} {cmd : Command}
    {tr rs : List ResolvedArrival} (h : UnderWay m s g tr) (hs : g.Sound)
    (hbefore : EndsBefore (s + m.duration_ms) g tr cmd) (hexec : Chronicled g cmd g' rs) :
    UnderWay m s g' (tr ++ rs) := by
  cases hexec with
  | refused => rwa [List.append_nil]
  | started =>
      rw [List.append_nil]
      refine ⟨h.begun, h.not_late, h.on, h.way.imp_right ?_⟩
      rintro ⟨hquiet, hactive⟩
      exact ⟨hquiet, List.mem_append_left _ hactive⟩
  | waited ms b running loop =>
      have hearly : g.arbiter.clock_ms + ms < s + m.duration_ms := by
        rcases hbefore.2 with hover | hearly
        · rw [running] at hover
          cases hover
        · exact hearly
      have hms : (0 : Int) ≤ ms := Int.natCast_nonneg ms
      refine ⟨h.begun.trans (by rw [finish_batch_clock]; omega), le_of_lt hearly, .inl hearly, ?_⟩
      rcases h.way with htaken | ⟨hquiet, hactive⟩
      · exact .inl (htaken.append _)
      · have hroom := h.roomy hbefore.1 running hactive
        have hnot : arrives_within ms (m.at_clock s g.arbiter.clock_ms) = false := by
          rw [Bool.eq_false_iff, ne_eq, hroom.arrives_iff hms]
          show ¬ m.duration_ms - (g.arbiter.clock_ms - s) ≤ ms
          omega
        obtain ⟨hquiet', htaken | hactive'⟩ := tick_before_due hs hactive hnot loop
        · obtain ⟨r, hr, htakes⟩ := htaken
          exact .inl ((takenFirst_of_mem hr htakes hquiet').after hquiet)
        · refine .inr ⟨?_, ?_⟩
          · intro r hr
            rcases List.mem_append.mp hr with hr | hr
            · exact hquiet r hr
            · exact hquiet' r hr
          · have hsame : advanced ms (m.at_clock s g.arbiter.clock_ms)
                = m.at_clock s (g.arbiter.clock_ms + ms) := by
              have helapsed := hroom.elapsed_advanced hms
              unfold advanced Motion.at_clock at helapsed ⊢
              congr 1
              refine helapsed.trans ?_
              show g.arbiter.clock_ms - s + ms = g.arbiter.clock_ms + ms - s
              omega
            rw [hsame] at hactive'
            exact hactive'

/-- **The wait that brings the clock to its time** brings the motion to its end. -/
theorem UnderWay.arrives {m : Motion} {s : Int} {g g' : GameEngine} {ms : Nat}
    {tr rs : List ResolvedArrival} (h : UnderWay m s g tr) (hs : g.Sound)
    (hfits : g.WaitFits tr (.wait ms)) (hexec : Chronicled g (.wait ms) g' rs)
    (hdue : s + m.duration_ms ≤ g'.arbiter.clock_ms) :
    TakenFirst m.id (tr ++ rs) ∨
      ((∀ r ∈ tr, r.event.moved_piece.id ≠ m.id) ∧ ArrivesOnce m (s + m.duration_ms) rs ∧
        ∀ m' ∈ g'.arbiter.active_motions, m'.id ≠ m.id) := by
  rcases h.way with htaken | ⟨hquiet, hactive⟩
  · exact .inl (htaken.append _)
  · cases hexec with
    | refused _ idle =>
        -- a wait in a game that is over brings the clock nowhere
        have hover := idle ms rfl
        rcases h.on with hearly | hopen
        · omega
        · rw [hover] at hopen
          cases hopen
    | started _ _ _ request => exact absurd rfl (request ms)
    | waited ms b running loop =>
        have hms : (0 : Int) ≤ ms := Int.natCast_nonneg ms
        have hroom := h.roomy hfits running hactive
        have hthen : s + m.duration_ms ≤ g.arbiter.clock_ms + ms := hdue
        have harrives : arrives_within ms (m.at_clock s g.arbiter.clock_ms) = true := by
          rw [hroom.arrives_iff hms]
          show m.duration_ms - (g.arbiter.clock_ms - s) ≤ ms
          omega
        have hat : g.arbiter.clock_ms + (m.duration_ms - (g.arbiter.clock_ms - s))
            = s + m.duration_ms := by
          omega
        rcases tick_at_due hms hs hactive hroom harrives with htaken | honce
        · exact .inl (htaken.after hquiet)
        · refine .inr ⟨hquiet, ?_, over_after_due hs hactive harrives b⟩
          rw [← hat]
          exact honce

/-- A tick adds no motion. -/
theorem finish_batch_length (a : RealTimeArbiter) (ms : Int) (b : Batch) :
    (a.finish_batch ms b).active_motions.length ≤ a.active_motions.length := by
  unfold finish_batch still_active
  refine (List.length_filter_le _ _).trans ?_
  rw [List.length_map]
  exact List.length_filter_le _ _

/-- Only a start adds a motion, and its clock is at zero. -/
theorem UnderWay.starts {m : Motion} {g g' : GameEngine} {cmd : Command} {rs : List ResolvedArrival}
    (hexec : Chronicled g cmd g' rs)
    (hm : g'.arbiter.active_motions = g.arbiter.active_motions ++ [m]) :
    UnderWay m g.arbiter.clock_ms g' [] := by
  cases hexec with
  | refused =>
      have hlength := congrArg List.length hm
      simp at hlength
  | started _ m' x _ running starts =>
      obtain rfl : m' = m := by simpa using List.append_cancel_left hm
      have hsame : m'.at_clock g.arbiter.clock_ms g.arbiter.clock_ms = m' := by
        unfold Motion.at_clock
        rw [Int.sub_self, ← starts.elapsed]
      have hduration := starts.duration
      refine ⟨le_refl _, ?_, .inr running, .inr ⟨fun r hr => absurd hr List.not_mem_nil, ?_⟩⟩
      · show g.arbiter.clock_ms ≤ g.arbiter.clock_ms + m'.duration_ms
        omega
      · show m'.at_clock g.arbiter.clock_ms g.arbiter.clock_ms ∈ g.arbiter.active_motions ++ [m']
        rw [hsame]
        exact List.mem_append_right _ (List.mem_singleton_self m')
  | waited ms b running loop =>
      have hlength := congrArg List.length hm
      have hle := finish_batch_length g.arbiter ms b
      rw [List.length_append, List.length_singleton] at hlength
      dsimp only at hlength
      omega

/-- What holds in every state of a game, next to soundness. -/
theorem timed_of_reach {f : MotionFactory} {b : Board} {g : GameEngine}
    {tr : List ResolvedArrival} (hb : Fresh b)
    (hrun : Reach exec_resolved anyStep (GameEngine.new f b) g tr) :
    g.Sound ∧ g.Rested tr ∧ InOrder 0 g.arbiter.clock_ms tr ∧ 0 ≤ g.arbiter.clock_ms := by
  refine hrun.invariant (P := fun (g : GameEngine) tr => g.Sound ∧ g.Rested tr ∧
    InOrder 0 g.arbiter.clock_ms tr ∧ 0 ≤ g.arbiter.clock_ms)
    ⟨sound_new f hb, rested_new f b, .nil _ _, le_refl _⟩ ?_
  rintro g tr cmd g' rs _ ⟨hs, hrested, horder, hclock⟩ _ hexec
  obtain ⟨hchronicled, hone⟩ := exec_resolved_spec hs hexec
  obtain ⟨horder', hle⟩ := horder.step hclock hs hchronicled
  exact ⟨hs.step hone, hrested.step hs hchronicled, horder', hclock.trans hle⟩

/-- A motion in a run whose waits end before it is due. -/
theorem underWay_of_reach {m : Motion} {s : Int} {g₀ g : GameEngine} {tr : List ResolvedArrival}
    (h₀ : UnderWay m s g₀ []) (hs : g₀.Sound)
    (hrun : Reach exec_resolved (EndsBefore (s + m.duration_ms)) g₀ g tr) :
    g.Sound ∧ UnderWay m s g tr := by
  refine hrun.invariant (P := fun g tr => g.Sound ∧ UnderWay m s g tr) ⟨hs, h₀⟩ ?_
  rintro g tr cmd g' rs _ ⟨hs, hway⟩ hbefore hexec
  obtain ⟨hchronicled, hone⟩ := exec_resolved_spec hs hexec
  exact ⟨hs.step hone, hway.step hs hbefore hchronicled⟩

/-- **Moves and rests follow the clock.** The arrivals of a run come in the order of
their times. A motion that starts when the clock shows `s` arrives once, at `s` and its
duration, in the first wait that brings the clock there, unless its piece is captured
first, if the waits from its start on leave room. A piece that was never captured is busy
while it is under way and until the end of the rest after its last completed arrival. -/
theorem moves_and_rests_follow_the_clock {board_lines : List String} {b : Board}
    {f : MotionFactory} {g : GameEngine} {tr : List ResolvedArrival}
    (hparse : parse board_lines = .ok b)
    (hrun : Reach exec_resolved anyStep (GameEngine.new f b) g tr) :
    (tr.map fun r => r.event.arrived_at_ms).Pairwise (· ≤ ·) ∧
    (∀ cmd g₁ rs₁ m, exec_resolved g cmd = .ok (g₁, rs₁) →
      g₁.arbiter.active_motions = g.arbiter.active_motions ++ [m] →
      ∀ g₂ rs₂, Reach exec_resolved (EndsBefore (g.arbiter.clock_ms + m.duration_ms)) g₁ g₂ rs₂ →
      ∀ ms g₃ rs₃, g₂.WaitFits rs₂ (.wait ms) → exec_resolved g₂ (.wait ms) = .ok (g₃, rs₃) →
      g.arbiter.clock_ms + m.duration_ms ≤ g₃.arbiter.clock_ms →
      TakenFirst m.id (rs₂ ++ rs₃) ∨
        ((∀ r ∈ rs₂, r.event.moved_piece.id ≠ m.id) ∧
          ArrivesOnce m (g.arbiter.clock_ms + m.duration_ms) rs₃ ∧
          ∀ m' ∈ g₃.arbiter.active_motions, m'.id ≠ m.id)) ∧
    ∀ i, (∀ r ∈ tr, takes i r = false) →
      (g.arbiter.is_piece_busy i = true ↔ (∃ m ∈ g.arbiter.active_motions, m.id = i) ∨
        ∃ t, rest_until f i tr = some t ∧ g.arbiter.clock_ms < t) ∧
      ((∀ m ∈ g.arbiter.active_motions, m.id ≠ i) → g.arbiter.cooldown_remaining_ms i =
        ((rest_until f i tr).map fun t => max 0 (t - g.arbiter.clock_ms)).getD 0) := by
  have hb := fresh_of_parse hparse
  obtain ⟨hs, hrested, horder, _⟩ := timed_of_reach hb hrun
  have hfactory : g.motion_factory = f :=
    factory_of_reach (run_of_chronicle (sound_new f hb) hrun).2
  refine ⟨horder.sorted, ?_, ?_⟩
  · intro cmd g₁ rs₁ m hexec hm g₂ rs₂ hreach ms g₃ rs₃ hfits hwait hdue
    obtain ⟨hchronicled, hone⟩ := exec_resolved_spec hs hexec
    obtain ⟨hs₂, hway⟩ := underWay_of_reach (.starts hchronicled hm) (hs.step hone) hreach
    exact hway.arrives hs₂ hfits (exec_resolved_spec hs₂ hwait).1 hdue
  · intro i hi
    rw [← hfactory]
    exact ⟨hrested.busy_iff hi, fun _ => hrested.remaining hi⟩

/-- A rook sets out at 100 ms, for 799 ms, and rests 2500 ms from 899 ms on. -/
theorem rook_rests_until_3399 : ∃ b g tr,
    parse ["wR . bK"] = .ok b ∧
    run exec_resolved (GameEngine.new shipped_factory b)
      [.wait 100, .request_move ⟨0, 0⟩ ⟨0, 2⟩, .wait 500, .wait 500] = .ok (g, tr) ∧
    (tr.map fun r => r.event.arrived_at_ms).Pairwise (· ≤ ·) ∧
    rest_until shipped_factory ⟨1⟩ tr = some 3399 ∧
    (g.arbiter.is_piece_busy ⟨1⟩ = true ↔ (∃ m ∈ g.arbiter.active_motions, m.id = ⟨1⟩) ∨
      ∃ t, rest_until shipped_factory ⟨1⟩ tr = some t ∧ g.arbiter.clock_ms < t) := by
  obtain ⟨b, hparse, hb⟩ := exists_ok_such (p := fun b =>
      ((run exec_resolved (GameEngine.new shipped_factory b)
        [.wait 100, .request_move ⟨0, 0⟩ ⟨0, 2⟩, .wait 500, .wait 500]).toOption.any fun r =>
          r.2.all (fun answer => ! takes ⟨1⟩ answer) &&
            decide (rest_until shipped_factory ⟨1⟩ r.2 = some 3399)) = true)
    (x := parse ["wR . bK"]) (by decide)
  obtain ⟨⟨g, tr⟩, hrun, htr⟩ := exists_ok_such (of_decide_eq_true hb)
  obtain ⟨hnever, hrest⟩ := Bool.and_eq_true_iff.mp htr
  obtain ⟨hsorted, _, hbusy⟩ := moves_and_rests_follow_the_clock hparse (reach_of_run hrun)
  refine ⟨b, g, tr, hparse, hrun, hsorted, of_decide_eq_true hrest, ?_⟩
  refine (hbusy ⟨1⟩ ?_).1
  intro r hr
  simpa using List.all_eq_true.mp hnever r hr

/-- **An arrival that is missed.** A rook is a millisecond on its way when the longest wait
takes its time past what an `int` holds: the clock passes its arrival, which does not come. -/
theorem rook_that_never_comes : ∃ b m g₁ g₂ g₃, parse ["wR . ."] = .ok b ∧
    exec_resolved (GameEngine.new shipped_factory b) (.request_move ⟨0, 0⟩ ⟨0, 2⟩)
      = .ok (g₁, []) ∧
    g₁.arbiter.active_motions = [m] ∧ g₁.arbiter.clock_ms = 0 ∧
    exec_resolved g₁ (.wait 1) = .ok (g₂, []) ∧ g₂.arbiter.clock_ms < m.duration_ms ∧
    exec_resolved g₂ (.wait 2147483647) = .ok (g₃, []) ∧
    m.duration_ms ≤ g₃.arbiter.clock_ms := by
  obtain ⟨b, hparse, hb⟩ := exists_ok_such (p := fun b =>
      (exec_resolved (GameEngine.new shipped_factory b) (.request_move ⟨0, 0⟩ ⟨0, 2⟩)).toOption.any
        fun r₁ : GameEngine × _ => (exec_resolved r₁.1 (.wait 1)).toOption.any
          fun r₂ : GameEngine × _ => (exec_resolved r₂.1 (.wait 2147483647)).toOption.any
          fun r₃ : GameEngine × _ =>
            decide (r₁.2 = [] ∧ r₂.2 = [] ∧ r₃.2 = [] ∧ r₁.1.arbiter.clock_ms = 0 ∧
              r₁.1.arbiter.active_motions.length = 1 ∧
              ∀ m ∈ r₁.1.arbiter.active_motions, r₂.1.arbiter.clock_ms < m.duration_ms ∧
                m.duration_ms ≤ r₃.1.arbiter.clock_ms))
    (x := parse ["wR . ."]) (by decide +kernel)
  obtain ⟨⟨g₁, rs₁⟩, h₁, hb⟩ := exists_ok_such hb
  obtain ⟨⟨g₂, rs₂⟩, h₂, hb⟩ := exists_ok_such hb
  obtain ⟨⟨g₃, rs₃⟩, h₃, hb⟩ := exists_ok_such hb
  obtain ⟨rfl, rfl, rfl, hclock, hlength, hm⟩ := of_decide_eq_true hb
  obtain ⟨m, hmotions⟩ := List.length_eq_one_iff.mp hlength
  obtain ⟨hearly, hlate⟩ := hm m (by rw [hmotions]; exact List.mem_singleton_self m)
  exact ⟨b, m, g₁, g₂, g₃, hparse, h₁, hmotions, hclock, h₂, hearly, h₃, hlate⟩

end KungFuChess
