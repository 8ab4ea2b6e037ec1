/-
**One tick**: the loop of `advance_time`.

While the arrivals of a tick are resolved one after another, the motions the
simulation still answers for are not a vector of the source but can be read off
its locals: the arrivals still to come, less those of captured pieces, and the
motions that stay in flight, less the flights of captured pieces. That list is
`live`. One turn of the loop takes its head off (`resolve_one_spec`), so
`Machine.foldlM_total` carries `Sound` through the loop together with whatever
else a later file needs (`advance_time_rule`); the tick itself then never
throws.

Of some ticks it is asked that no arrival is of a certain kind, on the board it
finds (`arrivals_avoid`). `advance_time_avoiding` is the rule for these, for what
holds of the motions still live.
-/
import KungFuChess.Arrival
import KungFuChess.Engine

set_option autoImplicit false

namespace KungFuChess

open Machine RealTimeArbiter StableSort

/-! ## The motions a batch still answers for -/

/-- The id of the piece an arrival is about. -/
abbrev RealTimeArbiter.PendingArrival.id (p : PendingArrival) : PieceId := p.motion.id

/-- The arrivals to come and the motions that stay in flight, less what the
captures so far call off. -/
def live (captured : List PieceId) (arrivals : List PendingArrival) (still : List Motion) :
    List Motion :=
  (arrivals.map PendingArrival.motion).filter (fun m => ! decide (m.id ∈ captured))
    ++ still.filter (fun m => ! is_captured_move captured m)

theorem live_cons_of_mem {captured : List PieceId} {p : PendingArrival} {ps : List PendingArrival}
    {still : List Motion} (h : p.id ∈ captured) :
    live captured (p :: ps) still = live captured ps still := by
  unfold live
  rw [List.map_cons, List.filter_cons_of_neg (by simpa using h)]

theorem live_cons_of_not_mem {captured : List PieceId} {p : PendingArrival}
    {ps : List PendingArrival} {still : List Motion} (h : p.id ∉ captured) :
    live captured (p :: ps) still = p.motion :: live captured ps still := by
  unfold live
  rw [List.map_cons, List.filter_cons_of_pos (by simpa using h), List.cons_append]

theorem mem_live {captured : List PieceId} {ps : List PendingArrival} {still : List Motion}
    {m : Motion} : m ∈ live captured ps still ↔
      (m ∈ ps.map PendingArrival.motion ∧ m.id ∉ captured) ∨
        (m ∈ still ∧ (m.kind = .Move → m.id ∉ captured)) := by
  unfold live is_captured_move
  simp only [List.mem_append, List.mem_filter, Bool.not_eq_eq_eq_not, Bool.not_true,
    decide_eq_false_iff_not]
  tauto

/-- A capture calls flights off and adds none. -/
theorem live_sublist (i : PieceId) (captured : List PieceId) (ps : List PendingArrival)
    (still : List Motion) :
    (live (i :: captured) ps still).Sublist (live captured ps still) := by
  refine List.Sublist.append (List.monotone_filter_right _ ?_) (List.monotone_filter_right _ ?_)
  · intro m hm
    simp only [Bool.not_eq_eq_eq_not, Bool.not_true, decide_eq_false_iff_not, List.mem_cons,
      not_or] at hm ⊢
    exact hm.2
  · intro m hm
    simp only [is_captured_move, Bool.not_eq_eq_eq_not, Bool.not_true, decide_eq_false_iff_not,
      List.mem_cons] at hm ⊢
    tauto

/-! ## One turn of the loop -/

/-- The ids an event reports captured. -/
def captured_ids (e : ArrivalEvent) : List PieceId := (e.captured_piece.map Piece.id).toList

theorem captured_ids_append (e : ArrivalEvent) (ids : List PieceId) :
    captured_ids e ++ ids = match e.captured_piece with
      | some captured => captured.id :: ids
      | none => ids := by
  unfold captured_ids
  cases e.captured_piece <;> rfl

/-- What one turn of the loop does to the batch when it resolves an arrival. -/
structure Settled (tick_start_ms ms : Int) (b : Batch) (p : PendingArrival) (e : ArrivalEvent)
    (b' : Batch) : Prop where
  outcome :
    (Landed b.board p.motion b'.board e ∧ b'.cooldowns = start_cooldown ms p b.cooldowns) ∨
      (Blocked b.board p.motion b'.board e ∧ b'.cooldowns = b.cooldowns)
  events : b'.events = b.events ++ [e]
  captured : b'.captured_this_batch = captured_ids e ++ b.captured_this_batch
  at_ms : e.arrived_at_ms = tick_start_ms + p.time_into_tick_ms

/-- Stamping the time on an event changes neither description. -/
theorem Landed.stamped {board board' : Board} {m : Motion} {e : ArrivalEvent}
    (h : Landed board m board' e) (t : Int) :
    Landed board m board' { e with arrived_at_ms := t } :=
  ⟨h.width, h.height, h.read, h.moved, h.source, h.destination, h.kind, h.captured, h.enemy⟩

theorem Blocked.stamped {board board' : Board} {m : Motion} {e : ArrivalEvent}
    (h : Blocked board m board' e) (t : Int) :
    Blocked board m board' { e with arrived_at_ms := t } :=
  ⟨h.width, h.height, h.stays, h.moved, h.source, h.destination, h.kind, h.captured, h.ally⟩

/-- The flights of captured pieces are skipped. -/
theorem resolve_one_of_mem {tick_start_ms ms : Int} {b : Batch} {p : PendingArrival}
    (h : p.id ∈ b.captured_this_batch) : resolve_one tick_start_ms ms b p = .ok b := if_pos h

/-- **The spec of one turn.** An arrival that is not called off is settled. -/
theorem resolve_one_spec (tick_start_ms ms : Int) {b : Batch} {p : PendingArrival}
    {rest : List Motion} (hs : Sound b.board (p.motion :: rest))
    (hp : p.id ∉ b.captured_this_batch) :
    ∃ e b', resolve_one tick_start_ms ms b p = .ok b' ∧ Settled tick_start_ms ms b p e b' := by
  obtain ⟨board', r, hrun, hout⟩ := resolve_arrival_spec hs
  set e : ArrivalEvent := { r.event with arrived_at_ms := tick_start_ms + p.time_into_tick_ms }
    with he
  refine ⟨e, ⟨board', b.events ++ [e], captured_ids e ++ b.captured_this_batch,
    if r.piece_actually_arrived then start_cooldown ms p b.cooldowns else b.cooldowns⟩, ?_, ?_⟩
  · unfold resolve_one
    rw [if_neg hp, hrun, captured_ids_append]
    rfl
  · refine ⟨?_, rfl, rfl, rfl⟩
    rcases hout with ⟨harrived, hl⟩ | ⟨hr, hb⟩
    · exact .inl ⟨hl.stamped _, if_pos harrived⟩
    · refine .inr ⟨hb.stamped _, if_neg ?_⟩
      rw [hr]
      exact Bool.false_ne_true

section Settled

variable {tick_start_ms ms : Int} {b b' : Batch} {p : PendingArrival} {e : ArrivalEvent}

theorem Settled.moved_id (h : Settled tick_start_ms ms b p e b') : e.moved_piece.id = p.id := by
  rcases h.outcome with ⟨hl, _⟩ | ⟨hb, _⟩
  · exact hl.moved_id
  · rw [hb.moved]
    rfl

/-- What survives a turn was live before it. -/
theorem Settled.live_sublist (h : Settled tick_start_ms ms b p e b') (ps : List PendingArrival)
    (still : List Motion) :
    (live b'.captured_this_batch ps still).Sublist (live b.captured_this_batch ps still) := by
  rw [h.captured, captured_ids]
  cases e.captured_piece with
  | none => exact List.Sublist.refl _
  | some c => exact KungFuChess.live_sublist _ _ _ _

/-- No flight of a piece captured in a turn survives it. -/
theorem Settled.live_keeps (h : Settled tick_start_ms ms b p e b') {ps : List PendingArrival}
    {still : List Motion} {m : Motion} (hm : m ∈ live b'.captured_this_batch ps still)
    (hk : m.kind = .Move) (c : Piece) (hc : e.captured_piece = some c) : c.id ≠ m.id := by
  have hmem : c.id ∈ b'.captured_this_batch := by
    rw [h.captured, captured_ids, hc]
    exact List.mem_cons_self
  intro heq
  rcases mem_live.mp hm with ⟨_, hno⟩ | ⟨_, hno⟩
  · exact hno (heq ▸ hmem)
  · exact hno hk (heq ▸ hmem)

/-- A turn keeps `Sound`. -/
theorem Settled.sound (h : Settled tick_start_ms ms b p e b') {ps : List PendingArrival}
    {still : List Motion}
    (hs : Sound b.board (p.motion :: live b.captured_this_batch ps still)) :
    Sound b'.board (live b'.captured_this_batch ps still) := by
  rcases h.outcome with ⟨hl, _⟩ | ⟨hb, _⟩
  · exact hs.landed hl (h.live_sublist ps still) (fun m hm hk c hc => h.live_keeps hm hk c hc)
  · exact (hs.blocked hb).sublist (h.live_sublist ps still)

end Settled

/-! ## The whole tick -/

/-- `Sound` does not read how far the motions have come. -/
theorem Sound.map_advanced {board : Board} {motions : List Motion} (ms : Int)
    (h : Sound board motions) : Sound board (motions.map (advanced ms)) where
  distinct := h.distinct
  cell := h.cell
  nodup := by
    rw [List.map_map]
    exact h.nodup
  source_in := List.forall_mem_map.mpr h.source_in
  destination_in := List.forall_mem_map.mpr h.destination_in
  snapshot := List.forall_mem_map.mpr h.snapshot
  mover := List.forall_mem_map.mpr h.mover
  in_place := List.forall_mem_map.mpr h.in_place
  jumper := List.forall_mem_map.mpr h.jumper

/-- Before the first arrival everything is live. -/
theorem live_start_perm (ms : Int) (motions : List Motion) :
    (live [] (sorted_arrivals ms motions) (still_active ms motions)).Perm
      (motions.map (advanced ms)) := by
  -- sorting and splitting into arriving and active only permute the motions
  have harr : ((sorted_arrivals ms motions).map PendingArrival.motion).Perm
      ((motions.filter (arrives_within ms)).map (advanced ms)) := by
    refine ((stableSort_perm _ _).map _).trans ?_
    rw [pending_arrivals, List.map_map]
    exact List.Perm.refl _
  have hall : live [] (sorted_arrivals ms motions) (still_active ms motions)
      = (sorted_arrivals ms motions).map PendingArrival.motion ++ still_active ms motions := by
    unfold live is_captured_move
    simp
  rw [hall, still_active]
  refine (harr.append_right _).trans ?_
  rw [← List.map_append]
  exact (List.filter_append_perm _ _).map _

/-- A tick whose loop ends in `b` ends in what `finish_batch` makes of it. -/
theorem advance_time_of_loop {a : RealTimeArbiter} {ms : Int} {b : Batch}
    (h : (sorted_arrivals ms a.active_motions).foldlM (resolve_one a.clock_ms ms) (a.batch_start ms)
      = .ok b) : a.advance_time ms = .ok (a.finish_batch ms b, b.events) := by
  unfold advance_time
  rw [h]
  rfl

/-- **The rule for a tick.** From a sound state its loop does not throw, and it
establishes any `P` that holds before the first arrival and that each turn of
the loop hands on. -/
theorem advance_time_rule {a : RealTimeArbiter} (ms : Int) (hs : Sound a.board a.active_motions)
    (P : List PendingArrival → Batch → Prop) (hstart : P (sorted_arrivals ms a.active_motions)
      (a.batch_start ms))
    (hskip : ∀ p ps b, p.id ∈ b.captured_this_batch → P (p :: ps) b → P ps b)
    (hturn : ∀ p ps b e b', p.id ∉ b.captured_this_batch →
      Sound b.board
        (p.motion :: live b.captured_this_batch ps (still_active ms a.active_motions)) →
      P (p :: ps) b → resolve_one a.clock_ms ms b p = .ok b' →
      Settled a.clock_ms ms b p e b' → P ps b') :
    ∃ b, (sorted_arrivals ms a.active_motions).foldlM (resolve_one a.clock_ms ms) (a.batch_start ms)
        = .ok b ∧
      Sound (a.finish_batch ms b).board (a.finish_batch ms b).active_motions ∧ P [] b := by
  -- the invariant of the loop is soundness for what is live, next to the `P` asked for
  have hloop := foldlM_total (f := resolve_one a.clock_ms ms)
    (fun ps b => Sound b.board (live b.captured_this_batch ps (still_active ms a.active_motions)) ∧
      P ps b)
    (fun p ps b h => by
      obtain ⟨hsound, hp⟩ := h
      by_cases hc : p.id ∈ b.captured_this_batch
      · rw [live_cons_of_mem hc] at hsound
        exact ⟨b, resolve_one_of_mem hc, hsound, hskip p ps b hc hp⟩
      · rw [live_cons_of_not_mem hc] at hsound
        obtain ⟨e, b', hrun, hset⟩ := resolve_one_spec a.clock_ms ms hsound hc
        exact ⟨b', hrun, hset.sound hsound, hturn p ps b e b' hc hsound hp hrun hset⟩)
    (sorted_arrivals ms a.active_motions) (a.batch_start ms)
    ⟨(hs.map_advanced ms).perm (live_start_perm ms a.active_motions), hstart⟩
  obtain ⟨b, hrun, hsound, hp⟩ := hloop
  exact ⟨b, hrun, hsound, hp⟩

/-! ## Arrivals to be avoided -/

/-- No arrival left in the loop is one that `bad` describes, on the board it will find. -/
def arrivals_avoid (bad : Board → Motion → Bool) (tick_start_ms ms : Int) :
    Batch → List PendingArrival → Bool
  | _, [] => true
  | b, p :: ps =>
      (decide (p.id ∈ b.captured_this_batch) || ! bad b.board p.motion) &&
        match resolve_one tick_start_ms ms b p with
        | .ok b' => arrivals_avoid bad tick_start_ms ms b' ps
        | .error _ => true

/-- What it says of the arrival at hand, and hands on to the rest. -/
theorem arrivals_avoid_turn {bad : Board → Motion → Bool} {tick_start_ms ms : Int} {b b' : Batch}
    {p : PendingArrival} {ps : List PendingArrival}
    (h : arrivals_avoid bad tick_start_ms ms b (p :: ps) = true)
    (hp : p.id ∉ b.captured_this_batch) (hrun : resolve_one tick_start_ms ms b p = .ok b') :
    bad b.board p.motion = false ∧ arrivals_avoid bad tick_start_ms ms b' ps = true := by
  rw [arrivals_avoid, hrun, Bool.and_eq_true, Bool.or_eq_true] at h
  refine ⟨?_, h.2⟩
  simpa using h.1.resolve_left (by simpa using hp)

theorem arrivals_avoid_skip {bad : Board → Motion → Bool} {tick_start_ms ms : Int} {b : Batch}
    {p : PendingArrival} {ps : List PendingArrival}
    (h : arrivals_avoid bad tick_start_ms ms b (p :: ps) = true)
    (hp : p.id ∈ b.captured_this_batch) : arrivals_avoid bad tick_start_ms ms b ps = true := by
  rw [arrivals_avoid, resolve_one_of_mem hp, Bool.and_eq_true] at h
  exact h.2

/-- **The rule for a tick that avoids some arrivals**, for a `P` of the motions still live
and of the batch so far. A turn that is left out changes neither. -/
theorem advance_time_avoiding {bad : Board → Motion → Bool} {a a' : RealTimeArbiter} {ms : Int}
    {es : List ArrivalEvent} (hs : Sound a.board a.active_motions)
    (havoid : arrivals_avoid bad a.clock_ms ms (a.batch_start ms)
      (sorted_arrivals ms a.active_motions) = true)
    (hrun : a.advance_time ms = .ok (a', es)) (P : List Motion → Batch → Prop)
    (hstart : ∀ motions, motions.Perm (a.active_motions.map (advanced ms)) →
      P motions (a.batch_start ms))
    (hturn : ∀ p ps b e b', p.id ∉ b.captured_this_batch →
      Sound b.board
        (p.motion :: live b.captured_this_batch ps (still_active ms a.active_motions)) →
      bad b.board p.motion = false →
      P (p.motion :: live b.captured_this_batch ps (still_active ms a.active_motions)) b →
      resolve_one a.clock_ms ms b p = .ok b' → Settled a.clock_ms ms b p e b' →
      P (live b'.captured_this_batch ps (still_active ms a.active_motions)) b') :
    ∃ b, a' = a.finish_batch ms b ∧ es = b.events ∧ P a'.active_motions b := by
  obtain ⟨b, hloop, -, -, hp⟩ := advance_time_rule ms hs
    (fun ps b => arrivals_avoid bad a.clock_ms ms b ps = true ∧
      P (live b.captured_this_batch ps (still_active ms a.active_motions)) b)
    ⟨havoid, hstart _ (live_start_perm ms a.active_motions)⟩
    (fun p ps b hc h => by
      rw [live_cons_of_mem hc] at h
      exact ⟨arrivals_avoid_skip h.1 hc, h.2⟩)
    (fun p ps b e b' hc hsound h hone hset => by
      rw [live_cons_of_not_mem hc] at h
      obtain ⟨hnow, hlater⟩ := arrivals_avoid_turn h.1 hc hone
      exact ⟨hlater, hturn p ps b e b' hc hsound hnow h.2 hone hset⟩)
  rw [advance_time_of_loop hloop] at hrun
  obtain ⟨rfl, rfl⟩ := Prod.mk.inj (Except.ok.inj hrun)
  exact ⟨b, rfl, rfl, hp⟩

end KungFuChess
