/-
**The chronicle of a game.**

An `ArrivalEvent` does not say whether its mover arrived or was turned back: a jumper
that comes down on an ally reports the same event as one that comes down well.
`resolve_arrival` knows (`piece_actually_arrived`), and `advance_time` uses it for the
cooldown and then drops it. What a piece has done so far is a matter of the arrivals it
completed, so the files on rests and on identities read the run with the answers kept:
`exec_resolved` takes the same steps as `exec` and emits what `resolve_arrival` said.

`chronicle_rule` is the rule for a tick of it: what holds before the first arrival, and
is handed on by each turn of the loop with the answer it adds, holds at the end.
-/
import KungFuChess.Runs

set_option autoImplicit false

namespace KungFuChess

open Machine RealTimeArbiter GameEngine

/-! ## The answers of a tick -/

namespace RealTimeArbiter

/-- What `resolve_arrival` answers in one turn of the loop, with the time of the
arrival; nothing if the piece was captured earlier in the tick. -/
def resolved (tick_start_ms : Int) (b : Batch) (p : PendingArrival) : List ResolvedArrival :=
  if p.id ∈ b.captured_this_batch then
    []
  else
    match resolve_arrival b.board p.motion with
    | .ok (_, r) =>
        [{ r with event := { r.event with
            arrived_at_ms := tick_start_ms + p.time_into_tick_ms } }]
    | .error _ => []

/-- The answers of the turns still to come. -/
def resolved_arrivals (tick_start_ms ms : Int) : Batch → List PendingArrival → List ResolvedArrival
  | _, [] => []
  | b, p :: ps =>
      resolved tick_start_ms b p ++
        match resolve_one tick_start_ms ms b p with
        | .ok b' => resolved_arrivals tick_start_ms ms b' ps
        | .error _ => []

/-- The answers of a whole tick. -/
def resolved_in (a : RealTimeArbiter) (ms : Int) : List ResolvedArrival :=
  resolved_arrivals a.clock_ms ms (a.batch_start ms) (sorted_arrivals ms a.active_motions)

end RealTimeArbiter

/-- What one turn of the loop does to the batch, with the answer of `resolve_arrival`. -/
structure Turn (tick_start_ms ms : Int) (b : Batch) (p : PendingArrival) (r : ResolvedArrival)
    (b' : Batch) : Prop where
  settled : Settled tick_start_ms ms b p r.event b'
  outcome :
    (r.piece_actually_arrived = true ∧ Landed b.board p.motion b'.board r.event ∧
      b'.cooldowns = start_cooldown ms p b.cooldowns) ∨
    (r.piece_actually_arrived = false ∧ Blocked b.board p.motion b'.board r.event ∧
      b'.cooldowns = b.cooldowns)
  /-- Only a piece that arrives can promote. -/
  promotes : r.event.was_promotion = true → r.piece_actually_arrived = true

section Turn

variable {tick_start_ms ms : Int} {b b' : Batch} {p : PendingArrival}

theorem resolved_of_mem (h : p.id ∈ b.captured_this_batch) :
    resolved tick_start_ms b p = [] := if_pos h

/-- A turn that is not skipped has one answer. -/
theorem resolved_spec {rest : List Motion} (hs : Sound b.board (p.motion :: rest))
    (hp : p.id ∉ b.captured_this_batch) (hrun : resolve_one tick_start_ms ms b p = .ok b') :
    ∃ r, resolved tick_start_ms b p = [r] ∧ Turn tick_start_ms ms b p r b' := by
  obtain ⟨board', r, hresolve, hout⟩ := resolve_arrival_spec hs
  set e : ArrivalEvent := { r.event with arrived_at_ms := tick_start_ms + p.time_into_tick_ms }
    with he
  have hb' : b' = ⟨board', b.events ++ [e], captured_ids e ++ b.captured_this_batch,
      if r.piece_actually_arrived then start_cooldown ms p b.cooldowns else b.cooldowns⟩ := by
    unfold resolve_one at hrun
    rw [if_neg hp, hresolve] at hrun
    rw [captured_ids_append]
    exact (Except.ok.inj hrun).symm
  refine ⟨{ r with event := e }, ?_, ?_⟩
  · unfold resolved
    rw [if_neg hp, hresolve]
  · rw [hb']
    rcases hout with ⟨harrived, hl⟩ | ⟨hr, hb⟩
    · exact ⟨⟨.inl ⟨hl.stamped _, if_pos harrived⟩, rfl, rfl, rfl⟩,
        .inl ⟨harrived, hl.stamped _, if_pos harrived⟩, fun _ => harrived⟩
    · have hstayed : r.piece_actually_arrived = false := by
        rw [hr]
        rfl
      have hrest : (if r.piece_actually_arrived = true then start_cooldown ms p b.cooldowns
          else b.cooldowns) = b.cooldowns := by
        rw [hstayed]
        rfl
      refine ⟨⟨.inr ⟨hb.stamped _, hrest⟩, rfl, rfl, rfl⟩, .inr ⟨hstayed, hb.stamped _, hrest⟩, ?_⟩
      intro hpromoted
      rw [he, hr] at hpromoted
      cases hpromoted

end Turn

/-- **The rule for a tick, with its answers.** -/
theorem chronicle_rule {a : RealTimeArbiter} (ms : Int) (hs : Sound a.board a.active_motions)
    (P : List ResolvedArrival → List PendingArrival → Batch → Prop)
    (hstart : P [] (sorted_arrivals ms a.active_motions) (a.batch_start ms))
    (hskip : ∀ rs p ps b, p.id ∈ b.captured_this_batch → P rs (p :: ps) b → P rs ps b)
    (hturn : ∀ rs p ps b r b', p.id ∉ b.captured_this_batch →
      Sound b.board
        (p.motion :: live b.captured_this_batch ps (still_active ms a.active_motions)) →
      P rs (p :: ps) b → Turn a.clock_ms ms b p r b' → P (rs ++ [r]) ps b') :
    ∃ b, (sorted_arrivals ms a.active_motions).foldlM (resolve_one a.clock_ms ms) (a.batch_start ms)
        = .ok b ∧
      Sound (a.finish_batch ms b).board (a.finish_batch ms b).active_motions ∧
      b.events = (a.resolved_in ms).map ResolvedArrival.event ∧ P (a.resolved_in ms) [] b := by
  -- the answers so far are what the whole tick's answers begin with
  obtain ⟨b, hloop, hsound, rs, hall, hevents, hp⟩ := advance_time_rule ms hs
    (fun ps b => ∃ rs, a.resolved_in ms = rs ++ resolved_arrivals a.clock_ms ms b ps ∧
      b.events = rs.map ResolvedArrival.event ∧ P rs ps b)
    ⟨[], rfl, rfl, hstart⟩
    (by
      rintro p ps b hc ⟨rs, hall, hevents, hp⟩
      refine ⟨rs, ?_, hevents, hskip rs p ps b hc hp⟩
      rw [hall, resolved_arrivals, resolved_of_mem hc, resolve_one_of_mem hc, List.nil_append])
    (by
      rintro p ps b e b' hc hsound ⟨rs, hall, hevents, hp⟩ hrun _
      obtain ⟨r, hr, hturn'⟩ := resolved_spec hsound hc hrun
      refine ⟨rs ++ [r], ?_, ?_, hturn rs p ps b r b' hc hsound hp hturn'⟩
      · rw [hall, resolved_arrivals, hr, hrun, List.append_assoc]
      · rw [hturn'.settled.events, hevents, List.map_append, List.map_singleton])
  rw [resolved_arrivals, List.append_nil] at hall
  rw [hall]
  exact ⟨b, hloop, hsound, hevents, hp⟩

/-! ## The same run, with the answers kept -/

namespace GameEngine

/-- One command; the outputs are the answers it brought. -/
def exec_resolved : Step GameEngine Command ResolvedArrival BoardError := fun g cmd => do
  let (g', _) ← exec g cmd
  return (g', match cmd with
    | .wait ms => if g.game_over then [] else g.arbiter.resolved_in ms
    | _ => [])

end GameEngine

/-- What a command can do, with the answers it brings. -/
inductive Chronicled (g : GameEngine) : Command → GameEngine → List ResolvedArrival → Prop
  /-- A wait is idle only when the game is over. -/
  | refused (cmd : Command) (idle : ∀ ms, cmd = .wait ms → g.game_over = true) :
      Chronicled g cmd g []
  | started (cmd : Command) (m : Motion) (x : Piece) (request : ∀ ms, cmd ≠ .wait ms)
      (running : g.game_over = false) (starts : Starts g.board m x)
      (free : g.arbiter.is_piece_busy x.id = false) (made : Made g.motion_factory m x) :
      Chronicled g cmd (g.with_motion m x) []
  | waited (ms : Nat) (b : Batch) (running : g.game_over = false)
      (loop : (sorted_arrivals ms g.arbiter.active_motions).foldlM
        (resolve_one g.arbiter.clock_ms ms) (g.arbiter.batch_start ms) = .ok b) :
      Chronicled g (.wait ms) { g with
        arbiter := g.arbiter.finish_batch ms b, game_over := b.events.any captured_a_king }
        (g.arbiter.resolved_in ms)

section Chronicled

variable {g g' : GameEngine} {cmd : Command} {rs : List ResolvedArrival} {make : Piece → Motion}

/-- A request brings no answers. -/
theorem Requested.chronicled (hmade : ∀ x, Made g.motion_factory (make x) x)
    (h : Requested g make g') (hrequest : ∀ ms, cmd ≠ .wait ms) : Chronicled g cmd g' [] := by
  cases h with
  | refused => exact .refused _ fun ms hwait => absurd hwait (hrequest ms)
  | started x running starts free => exact .started _ _ x hrequest running starts free (hmade x)

theorem exec_resolved_ok_iff : exec_resolved g cmd = .ok (g', rs) ↔
    ∃ es, exec g cmd = .ok (g', es) ∧ rs = match cmd with
      | .wait ms => if g.game_over then [] else g.arbiter.resolved_in ms
      | _ => [] := by
  unfold exec_resolved
  rw [bind_ok_iff]
  constructor
  · rintro ⟨⟨g₁, es⟩, hexec, hret⟩
    obtain ⟨rfl, rfl⟩ := Prod.mk.inj (Except.ok.inj hret)
    exact ⟨es, hexec, rfl⟩
  · rintro ⟨es, hexec, rfl⟩
    exact ⟨(g', es), hexec, rfl⟩

/-- **The inversion of a command**, and what it does without the answers. -/
theorem exec_resolved_spec (hs : g.Sound) (h : exec_resolved g cmd = .ok (g', rs)) :
    Chronicled g cmd g' rs ∧ exec g cmd = .ok (g', rs.map ResolvedArrival.event) := by
  obtain ⟨es, hexec, hrs⟩ := exec_resolved_ok_iff.mp h
  cases cmd with
  | request_move source destination =>
      obtain ⟨g₁, r, hrun, hrequested⟩ := request_move_spec g source destination
      rw [exec_request_move hrun] at hexec
      obtain ⟨rfl, rfl⟩ := Prod.mk.inj (Except.ok.inj hexec)
      rw [hrs]
      exact ⟨hrequested.chronicled (fun _ => .inl rfl) fun ms h => Command.noConfusion h,
        exec_request_move hrun⟩
  | request_jump cell =>
      obtain ⟨g₁, r, hrun, hrequested⟩ := request_jump_spec g cell
      rw [exec_request_jump hrun] at hexec
      obtain ⟨rfl, rfl⟩ := Prod.mk.inj (Except.ok.inj hexec)
      rw [hrs]
      exact ⟨hrequested.chronicled (fun _ => .inr rfl) fun ms h => Command.noConfusion h,
        exec_request_jump hrun⟩
  | wait ms =>
      dsimp only at hrs
      rw [exec_wait, GameEngine.wait] at hexec ⊢
      by_cases hover : g.game_over = true
      · rw [if_pos hover] at hexec hrs ⊢
        obtain ⟨rfl, rfl⟩ := Prod.mk.inj (Except.ok.inj hexec)
        rw [hrs]
        exact ⟨.refused _ fun _ _ => hover, rfl⟩
      · rw [if_neg hover] at hexec hrs ⊢
        obtain ⟨b, hloop, _, hevents, _⟩ := chronicle_rule (ms : Int) hs (fun _ _ _ => True)
          trivial (fun _ _ _ _ _ _ => trivial) (fun _ _ _ _ _ _ _ _ _ _ => trivial)
        rw [advance_time_of_loop hloop] at hexec ⊢
        obtain ⟨rfl, rfl⟩ := Prod.mk.inj (Except.ok.inj hexec)
        rw [hrs, ← hevents]
        exact ⟨.waited ms b (Bool.eq_false_iff.mpr hover) hloop, rfl⟩

end Chronicled

/-- **Without its answers a chronicle is a run.** -/
theorem run_of_chronicle {C : GameEngine → List ResolvedArrival → Command → Prop}
    {g₀ g : GameEngine} {tr : List ResolvedArrival} (h₀ : g₀.Sound)
    (h : Reach exec_resolved C g₀ g tr) :
    g.Sound ∧ Reach exec anyStep g₀ g (tr.map ResolvedArrival.event) := by
  refine h.invariant (P := fun g tr => g.Sound ∧
    Reach exec anyStep g₀ g (tr.map ResolvedArrival.event)) ⟨h₀, .init⟩ ?_
  rintro g tr cmd g' rs _ ⟨hs, hreach⟩ _ hexec
  have hone := (exec_resolved_spec hs hexec).2
  rw [List.map_append]
  exact ⟨hs.step hone, hreach.step trivial hone⟩

/-- **Every run has its chronicle.** -/
theorem chronicle_of_reach {g₀ g : GameEngine} {es : List ArrivalEvent} (h₀ : g₀.Sound)
    (h : Reach exec anyStep g₀ g es) :
    ∃ tr, Reach exec_resolved anyStep g₀ g tr ∧ tr.map ResolvedArrival.event = es := by
  refine h.invariant (P := fun g es => ∃ tr, Reach exec_resolved anyStep g₀ g tr ∧
    tr.map ResolvedArrival.event = es) ⟨[], .init, rfl⟩ ?_
  rintro g es cmd g' es' _ ⟨tr, hreach, rfl⟩ _ hexec
  have hs := (run_of_chronicle h₀ hreach).1
  have hone := exec_resolved_ok_iff.mpr ⟨es', hexec, rfl⟩
  refine ⟨_, hreach.step trivial hone, ?_⟩
  have hevents := (exec_resolved_spec hs hone).2
  rw [hexec] at hevents
  obtain ⟨_, hsame⟩ := Prod.mk.inj (Except.ok.inj hevents)
  rw [List.map_append, ← hsame]

end KungFuChess
