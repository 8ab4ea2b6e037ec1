/-
**A captured piece never comes back**, and the one way in which one does.

A capture takes a piece off its cell, calls its flight off and erases its rest;
but of the flights only moves are pruned, since a piece in the air cannot be
captured. What makes that true is the board's `Airborne` flag: while a jump lasts
and its piece stands on the board, the flag is up (`Lifted`). One arrival takes it
down, the landing of a jumper in whose cell an ally is in the air itself
(`lands_on_jumper`): the blocked landing writes `Idle` on the ally. That piece can
then be captured with its jump still running, and comes down again
(`captured_piece_returns`). With a standard cooldown shorter than a jump this
happens; in every run without such a landing what is captured is gone.
-/
import KungFuChess.Conservation
import KungFuChess.Representation

set_option autoImplicit false

namespace KungFuChess

open Machine RealTimeArbiter GameEngine

/-! ## The flag of the air -/

/-- While its jump lasts, a piece that stands on the board is marked as in the air. -/
def Lifted (board : Board) (motions : List Motion) : Prop :=
  ∀ m ∈ motions, m.kind = .JumpInPlace → ∀ q x, board.piece_at q = some x → x.id = m.id →
    x.state = .Airborne

theorem Lifted.subset {board : Board} {motions motions' : List Motion} (h : Lifted board motions)
    (hsub : motions' ⊆ motions) : Lifted board motions' :=
  fun m hm => h m (hsub hm)

theorem Lifted.map_advanced {board : Board} {motions : List Motion} (ms : Int)
    (h : Lifted board motions) : Lifted board (motions.map (advanced ms)) :=
  List.forall_mem_map.mpr h

/-- A jump that ends in a cell where a piece of the same colour is in the air itself. -/
def lands_on_jumper (board : Board) (m : Motion) : Bool :=
  lands_on_ally board m && (board.piece_at m.destination).any fun occupant =>
    decide (occupant.state = .Airborne)

/-- A landing leaves the flags of the others alone. -/
theorem Lifted.landed {board board' : Board} {m : Motion} {e : ArrivalEvent} {rest : List Motion}
    (h : Lifted board (m :: rest)) (hs : Sound board (m :: rest)) (hl : Landed board m board' e) :
    Lifted board' rest := by
  intro m' hm' hk q x hx hid
  have hne : x.id ≠ m.id := hid.trans_ne (hs.id_ne hm')
  exact h m' (List.mem_cons_of_mem _ hm') hk q x (hl.frame hx hne) hid

/-- So does a blocked arrival, unless it is the landing of a jumper on a jumper. -/
theorem Lifted.blocked {board board' : Board} {m : Motion} {e : ArrivalEvent} {rest : List Motion}
    (h : Lifted board (m :: rest)) (hs : Sound board (m :: rest)) (hb : Blocked board m board' e)
    (hclear : lands_on_jumper board m = false) : Lifted board' rest := by
  intro m' hm' hk q y hy hid
  rcases hb.read_cases hy with hold | ⟨rfl, x, hx, rfl⟩
  · exact h m' (List.mem_cons_of_mem _ hm') hk q y hold hid
  · exfalso
    have hair := h m' (List.mem_cons_of_mem _ hm') hk _ x hx hid
    cases hmk : m.kind with
    -- a move makes the mover itself idle, and that has no other motion
    | Move => exact hs.quiet_of_move hmk x hx m' hm' hid.symm
    | JumpInPlace =>
        obtain ⟨o, ho, hoid, hcol⟩ := hb.ally
        have hxo : x = o := by
          rw [hs.in_place m List.mem_cons_self hmk] at ho
          exact Option.some.inj (hx.symm.trans ho)
        unfold lands_on_jumper lands_on_ally at hclear
        rw [ho, hmk] at hclear
        rw [hxo] at hair
        simp [hoid, hcol, hair] at hclear

theorem Lifted.starts {board : Board} {motions : List Motion} {motion : Motion} {x : Piece}
    (h : Lifted board motions) (hd : board.Distinct) (hs : Starts board motion x)
    (hfree : ∀ m ∈ motions, m.id ≠ x.id) :
    Lifted (board_after_start board motion x) (motions ++ [motion]) := by
  intro m hm hk q y hy hid
  rcases List.mem_append.mp hm with hm | hm
  · rcases hs.read_cases hy with ⟨_, rfl⟩ | ⟨_, hold⟩
    · exact absurd hid.symm (hfree m hm)
    · exact h m hm hk q y hold hid
  · obtain rfl := List.mem_singleton.mp hm
    rcases hs.read_cases hy with ⟨_, rfl⟩ | ⟨hq, hold⟩
    · rw [hk]
      rfl
    · exact absurd (hd _ _ _ _ hold hs.at_source (hid.trans (congrArg Piece.id hs.snapshot))) hq

/-! ## What is captured is gone -/

/-- The piece was captured in one of these events. -/
def Fallen (events : List ArrivalEvent) (i : PieceId) : Prop :=
  ∃ e ∈ events, ∃ c, e.captured_piece = some c ∧ c.id = i

theorem fallen_append_singleton {events : List ArrivalEvent} {e : ArrivalEvent} {i : PieceId} :
    Fallen (events ++ [e]) i ↔ Fallen events i ∨ ∃ c, e.captured_piece = some c ∧ c.id = i := by
  unfold Fallen
  simp only [List.mem_append, List.mem_singleton]
  constructor
  · rintro ⟨e', he' | rfl, hc⟩
    · exact .inl ⟨e', he', hc⟩
    · exact .inr hc
  · rintro (⟨e', he', hc⟩ | hc)
    · exact ⟨e', .inl he', hc⟩
    · exact ⟨e, .inr rfl, hc⟩

/-- The later event says nothing of the piece that the earlier one captured. -/
def Apart (earlier later : ArrivalEvent) : Prop :=
  ∀ c, earlier.captured_piece = some c → later.moved_piece.id ≠ c.id ∧
    ∀ c', later.captured_piece = some c' → c'.id ≠ c.id

/-- Every captured piece is off the board, under no motion and at no rest, but for the
rests that the tick under way still has to erase; and no event speaks of it again. -/
structure Buried (board : Board) (motions : List Motion) (cooldowns : Cooldowns)
    (to_erase : List PieceId) (events : List ArrivalEvent) : Prop where
  off_board : ∀ i, Fallen events i → ¬ OnBoard board i
  no_flight : ∀ i, Fallen events i → ∀ m ∈ motions, m.id ≠ i
  no_rest : ∀ i, Fallen events i → cooldowns i = none ∨ i ∈ to_erase
  apart : events.Pairwise Apart

theorem buried_nil (board : Board) (motions : List Motion) (cooldowns : Cooldowns)
    (to_erase : List PieceId) : Buried board motions cooldowns to_erase [] where
  off_board i h := by
    obtain ⟨e, he, _⟩ := h
    cases he
  no_flight i h := by
    obtain ⟨e, he, _⟩ := h
    cases he
  no_rest i h := by
    obtain ⟨e, he, _⟩ := h
    cases he
  apart := List.Pairwise.nil

section Turn

variable {tick_start_ms ms : Int} {b b' : Batch} {p : PendingArrival} {e : ArrivalEvent}
  {ps : List PendingArrival} {still : List Motion} {tr : List ArrivalEvent}

/-- A turn keeps the flags, unless it is the landing of a jumper on a jumper. -/
theorem Settled.lifted (h : Settled tick_start_ms ms b p e b')
    (hs : Sound b.board (p.motion :: live b.captured_this_batch ps still))
    (hl : Lifted b.board (p.motion :: live b.captured_this_batch ps still))
    (hclear : lands_on_jumper b.board p.motion = false) :
    Lifted b'.board (live b'.captured_this_batch ps still) := by
  have hall : Lifted b'.board (live b.captured_this_batch ps still) := by
    rcases h.outcome with ⟨hlanded, _⟩ | ⟨hblocked, _⟩
    · exact hl.landed hs hlanded
    · exact hl.blocked hs hblocked hclear
  exact hall.subset (h.live_sublist ps still).subset

/-- The piece captured in a turn has no motion left. -/
theorem Settled.captured_no_flight (h : Settled tick_start_ms ms b p e b')
    (hl : Lifted b.board (p.motion :: live b.captured_this_batch ps still)) {c : Piece}
    (hc : e.captured_piece = some c) : ∀ m ∈ live b'.captured_this_batch ps still, m.id ≠ c.id := by
  intro m hm heq
  cases hk : m.kind with
  | Move => exact h.live_keeps hm hk c hc heq.symm
  | JumpInPlace =>
      -- what is captured stood on the ground, and a jumper on the board does not
      obtain ⟨o, ho, hoc, _, hground⟩ := h.captured_piece hc
      have hbefore := List.mem_cons_of_mem p.motion ((h.live_sublist ps still).subset hm)
      exact hground (hl m hbefore hk _ o ho (hoc.trans heq.symm))

/-- **A turn buries what it captures** and disturbs nothing that is buried. -/
theorem Settled.buried (h : Settled tick_start_ms ms b p e b')
    (hs : Sound b.board (p.motion :: live b.captured_this_batch ps still))
    (hl : Lifted b.board (p.motion :: live b.captured_this_batch ps still))
    (hb : Buried b.board (p.motion :: live b.captured_this_batch ps still) b.cooldowns
      b.captured_this_batch (tr ++ b.events)) :
    Buried b'.board (live b'.captured_this_batch ps still) b'.cooldowns b'.captured_this_batch
      (tr ++ b'.events) := by
  -- the mover is under way, so it has not been captured
  have hmover : ∀ i, Fallen (tr ++ b.events) i → i ≠ p.id := by
    intro i hi heq
    exact hb.no_flight i hi p.motion List.mem_cons_self heq.symm
  rw [h.events, ← List.append_assoc]
  refine ⟨?_, ?_, ?_, ?_⟩
  · intro i hi
    rcases fallen_append_singleton.mp hi with hold | ⟨c, hc, rfl⟩
    · exact h.off_of_off (hmover i hold) (hb.off_board i hold)
    · rintro ⟨q, x, hx, hid⟩
      exact h.captured_gone hs.distinct hc hx hid
  · intro i hi m hm
    rcases fallen_append_singleton.mp hi with hold | ⟨c, hc, rfl⟩
    · have hbefore := List.mem_cons_of_mem p.motion ((h.live_sublist ps still).subset hm)
      exact hb.no_flight i hold m hbefore
    · exact h.captured_no_flight hl hc m hm
  · intro i hi
    rw [h.captured, List.mem_append]
    rcases fallen_append_singleton.mp hi with hold | ⟨c, hc, rfl⟩
    · refine (hb.no_rest i hold).imp ?_ .inr
      intro hnone
      rcases h.outcome with ⟨_, hcd⟩ | ⟨_, hcd⟩
      · rw [hcd, start_cooldown_of_ne (hmover i hold)]
        exact hnone
      · rw [hcd]
        exact hnone
    · right
      left
      unfold captured_ids
      rw [hc]
      exact List.mem_cons_self
  · refine List.pairwise_append.mpr ⟨hb.apart, List.pairwise_singleton _ _, ?_⟩
    intro earlier hmem later hlater c hc
    rw [List.mem_singleton.mp hlater]
    have hfallen : Fallen (tr ++ b.events) c.id := ⟨earlier, hmem, c, hc, rfl⟩
    refine ⟨?_, h.not_captured_of_off (hb.off_board _ hfallen)⟩
    rw [h.moved_id]
    exact fun heq => hmover _ hfallen heq.symm

end Turn

/-! ## The tick and the run -/

/-- The tick lets no jumper come down on a jumper of its own side. -/
def tick_lifted (a : RealTimeArbiter) (ms : Int) : Bool :=
  arrivals_avoid lands_on_jumper a.clock_ms ms (a.batch_start ms)
    (sorted_arrivals ms a.active_motions)

/-- The condition on a step: if it lets time pass, no jumper comes down on a jumper of
its own side. -/
def NoLandingOnJumper (g : GameEngine) (_ : List ArrivalEvent) : Command → Prop
  | .wait ms => g.game_over = true ∨ tick_lifted g.arbiter ms = true
  | _ => True

instance (g : GameEngine) (tr : List ArrivalEvent) : ∀ cmd, Decidable (NoLandingOnJumper g tr cmd)
  | .wait ms =>
      inferInstanceAs (Decidable (g.game_over = true ∨ tick_lifted g.arbiter ms = true))
  | .request_move _ _ | .request_jump _ => .isTrue trivial

/-- What such a run keeps. -/
structure Settling (g : GameEngine) (tr : List ArrivalEvent) : Prop where
  sound : g.Sound
  lifted : Lifted g.board g.arbiter.active_motions
  buried : Buried g.board g.arbiter.active_motions g.arbiter.cooldowns_remaining_ms [] tr

theorem advance_settling {a a' : RealTimeArbiter} {ms : Int} {tr es : List ArrivalEvent}
    (hs : Sound a.board a.active_motions) (hl : Lifted a.board a.active_motions)
    (hb : Buried a.board a.active_motions a.cooldowns_remaining_ms [] tr)
    (hclear : tick_lifted a ms = true) (hrun : a.advance_time ms = .ok (a', es)) :
    Lifted a'.board a'.active_motions ∧
      Buried a'.board a'.active_motions a'.cooldowns_remaining_ms [] (tr ++ es) := by
  obtain ⟨b, rfl, rfl, hl', hb'⟩ := advance_time_avoiding hs hclear hrun
    (fun motions b => Lifted b.board motions ∧
      Buried b.board motions b.cooldowns b.captured_this_batch (tr ++ b.events))
    (fun motions hperm => by
      refine ⟨(hl.map_advanced ms).subset hperm.subset, ?_⟩
      rw [batch_start, List.append_nil]
      refine ⟨hb.off_board, ?_, ?_, hb.apart⟩
      · intro i hi m hm
        obtain ⟨m₀, hm₀, rfl⟩ := List.mem_map.mp (hperm.subset hm)
        exact hb.no_flight i hi m₀ hm₀
      · intro i hi
        refine (hb.no_rest i hi).imp ?_ id
        exact count_down_eq_none)
    (fun p ps b e b' hp hsound hnow h hone hset =>
      ⟨hset.lifted hsound h.1 hnow, hset.buried hsound h.1 h.2⟩)
  refine ⟨hl', hb'.off_board, hb'.no_flight, ?_, hb'.apart⟩
  intro i hi
  left
  show erase_cooldowns _ _ i = none
  -- the rests that were left are those of this tick's captures
  unfold erase_cooldowns
  by_cases hmem : i ∈ b.captured_this_batch
  · rw [if_pos hmem]
  · rw [if_neg hmem]
    exact (hb'.no_rest i hi).resolve_right hmem

/-- Only a piece that stands on the board sets out. -/
theorem Buried.starts {board : Board} {motions : List Motion} {cooldowns : Cooldowns}
    {tr : List ArrivalEvent} {motion : Motion} {x : Piece}
    (h : Buried board motions cooldowns [] tr) (hs : Starts board motion x) :
    Buried (board_after_start board motion x) (motions ++ [motion]) cooldowns [] tr where
  off_board := by
    intro i hi
    rintro ⟨q, y, hy, hid⟩
    obtain ⟨z, hz, hyz⟩ := hs.read_stateless hy
    exact h.off_board i hi ⟨q, z, hz, (Piece.id_of_stateless hyz).symm.trans hid⟩
  no_flight := by
    intro i hi m hm heq
    rcases List.mem_append.mp hm with hm | hm
    · exact h.no_flight i hi m hm heq
    · obtain rfl := List.mem_singleton.mp hm
      exact h.off_board i hi ⟨_, x, hs.at_source, (congrArg Piece.id hs.snapshot).symm.trans heq⟩
  no_rest := h.no_rest
  apart := h.apart

theorem Settling.step {g g' : GameEngine} {tr es : List ArrivalEvent} {cmd : Command}
    (h : Settling g tr) (hclear : NoLandingOnJumper g tr cmd) (hrun : exec g cmd = .ok (g', es)) :
    Settling g' (tr ++ es) := by
  have hsound := h.sound.step hrun
  cases exec_effect hrun with
  | refused =>
      rw [List.append_nil]
      exact h
  | started _ m x _ hs hfree _ =>
      rw [List.append_nil]
      exact ⟨hsound, h.lifted.starts h.sound.distinct hs (not_busy_iff.mp hfree).1,
        h.buried.starts hs⟩
  | waited ms a es hopen hadv =>
      have htick := hclear.resolve_left (by simp [hopen])
      obtain ⟨hl, hb⟩ := advance_settling h.sound h.lifted h.buried htick hadv
      exact ⟨hsound, hl, hb⟩

/-! ## The result -/

/-- The piece is nowhere: not on the board, not under way, not at rest. -/
structure Gone (g : GameEngine) (i : PieceId) : Prop where
  off_board : ∀ q x, g.board.piece_at q = some x → x.id ≠ i
  no_motion : ∀ m ∈ g.arbiter.active_motions, m.moving_piece.id ≠ i
  no_cooldown : g.arbiter.cooldowns_remaining_ms i = none

/-- **A captured piece never comes back.** In every run in which no jumper comes down on
a jumper of its own side, in every state it reaches, the pieces captured so far are
nowhere, and no event speaks of a piece that an earlier one captured. -/
theorem captured_never_returns {board_lines : List String} {b : Board} {f : MotionFactory}
    {g : GameEngine} {tr : List ArrivalEvent} (hparse : parse board_lines = .ok b)
    (hrun : Reach exec NoLandingOnJumper (GameEngine.new f b) g tr) :
    (∀ i, Fallen tr i → Gone g i) ∧ tr.Pairwise Apart := by
  have hsettling : Settling g tr := by
    refine Reach.invariant (P := Settling) ?_ ?_ hrun
    · have hb := fresh_of_parse hparse
      refine ⟨sound_new f hb, ?_, buried_nil _ _ _ _⟩
      intro m hm
      cases hm
    · intro g tr cmd g' es _ h hclear hstep
      exact h.step hclear hstep
  refine ⟨fun i hi => ⟨?_, ?_, ?_⟩, hsettling.buried.apart⟩
  · intro q x hx hid
    exact hsettling.buried.off_board i hi ⟨q, x, hx, hid⟩
  · exact hsettling.buried.no_flight i hi
  · refine (hsettling.buried.no_rest i hi).resolve_right ?_
    exact List.not_mem_nil

/-- The game without any rest. -/
def restless_factory : MotionFactory :=
  { shipped_factory with standard_cooldown_ms := 0, jump_cooldown_ms := 0 }

/-- Without any rest: the black rook flies in under the jumping king, and is gone once
the white rook has recaptured the cell. -/
theorem recaptured_rook_is_gone : ∃ g tr,
    run exec (GameEngine.new restless_factory three_on_a_row)
      [.request_move ⟨0, 2⟩ ⟨0, 1⟩, .wait 300, .request_jump ⟨0, 1⟩, .wait 100,
        .request_move ⟨0, 0⟩ ⟨0, 1⟩, .wait 400, .wait 200] = .ok (g, tr) ∧
    (∀ i, Fallen tr i → Gone g i) ∧ tr.Pairwise Apart := by
  obtain ⟨⟨g, tr⟩, hrun⟩ := exists_ok
    (x := run exec (GameEngine.new restless_factory three_on_a_row)
      [.request_move ⟨0, 2⟩ ⟨0, 1⟩, .wait 300, .request_jump ⟨0, 1⟩, .wait 100,
        .request_move ⟨0, 0⟩ ⟨0, 1⟩, .wait 400, .wait 200]) (by decide)
  exact ⟨g, tr, hrun, captured_never_returns parse_three_on_a_row
    (reach_of_meets (by decide) hrun)⟩

/-- **A captured piece returns.** The white rook that recaptured the cell jumps in its
turn; the king comes down on it and takes its flag; the second black rook captures it;
and its own jump, which is still running, puts it back. -/
theorem captured_piece_returns : ¬ ∀ (board_lines : List String) (b : Board) (f : MotionFactory)
    (g : GameEngine) (tr : List ArrivalEvent), parse board_lines = .ok b →
    Reach exec anyStep (GameEngine.new f b) g tr →
    (∀ i, Fallen tr i → Gone g i) ∧ tr.Pairwise Apart := by
  intro h
  let cmds : List Command := [.request_move ⟨0, 2⟩ ⟨0, 1⟩, .wait 300, .request_jump ⟨0, 1⟩,
    .wait 100, .request_move ⟨0, 0⟩ ⟨0, 1⟩, .wait 400, .request_jump ⟨0, 1⟩,
    .request_move ⟨1, 1⟩ ⟨0, 1⟩, .wait 200, .wait 200, .wait 300]
  obtain ⟨b, hparse, hb⟩ := exists_ok_such (p := fun b =>
      ((run exec (GameEngine.new restless_factory b) cmds).toOption.any fun r =>
        (r.2.any fun e => e.captured_piece.any fun c => decide (c.id = ⟨1⟩)) &&
          (r.1.board.piece_at ⟨0, 1⟩).any fun x => decide (x.id = ⟨1⟩)) = true)
    (x := parse ["wR wK bR", ". bR ."]) (by decide)
  obtain ⟨⟨g, tr⟩, hrun, hback⟩ := exists_ok_such (of_decide_eq_true hb)
  rw [Bool.and_eq_true] at hback
  obtain ⟨e, he, hc⟩ := List.any_eq_true.mp hback.1
  obtain ⟨c, hcap, hcid⟩ := (Option.any_eq_true _ _).mp hc
  obtain ⟨x, hx, hxid⟩ := (Option.any_eq_true _ _).mp hback.2
  have hgone := (h _ b _ g tr hparse (reach_of_run hrun)).1 ⟨1⟩
    ⟨e, he, c, hcap, of_decide_eq_true hcid⟩
  exact hgone.off_board _ x hx (of_decide_eq_true hxid)

end KungFuChess
