/-
**No piece is lost**, and the one way in which one is.

At every moment each piece of the initial board stands on the board, or is in the
air while an enemy that flew in under it holds its cell, or has been reported
captured once (`Accounted`). The argument follows the loop of `advance_time`: a
turn changes the fate of at most two pieces, the mover and what it finds, and
`Stated` decides whether what it finds is captured or only passed through.

The turn that breaks this is the landing of a jumper on an ally. An enemy takes
the jumper's cell, an ally recaptures it before the jump ends, and
`resolve_arrival` then treats the landing as any blocked arrival: the mover
"stays at its source", where it no longer is. `lands_on_ally` is that branch,
`NoLandingOnAlly` says that a command does not reach it, and `lost_king` is a run
of the shipped game in which it costs White the king without a capture.
-/
import KungFuChess.Status

set_option autoImplicit false

namespace KungFuChess

open Machine RealTimeArbiter GameEngine

/-! ## The branch that loses a piece -/

/-- A jump that ends in a cell some other piece of the same colour holds. -/
def lands_on_ally (board : Board) (m : Motion) : Bool :=
  decide (m.kind = .JumpInPlace) && (board.piece_at m.destination).any fun occupant =>
    decide (occupant.id ≠ m.id ∧ occupant.color = m.moving_piece.color)

/-- No arrival of a tick is such a landing, on the board it will find. -/
def tick_clear (a : RealTimeArbiter) (ms : Int) : Bool :=
  arrivals_avoid lands_on_ally a.clock_ms ms (a.batch_start ms)
    (sorted_arrivals ms a.active_motions)

/-- The condition on a step: if it lets time pass, no jumper comes down on an ally. -/
def NoLandingOnAlly (g : GameEngine) (_ : List ArrivalEvent) : Command → Prop
  | .wait ms => g.game_over = true ∨ tick_clear g.arbiter ms = true
  | _ => True

instance (g : GameEngine) (tr : List ArrivalEvent) : ∀ cmd, Decidable (NoLandingOnAlly g tr cmd)
  | .wait ms => inferInstanceAs (Decidable (g.game_over = true ∨ tick_clear g.arbiter ms = true))
  | .request_move _ _ => .isTrue trivial
  | .request_jump _ => .isTrue trivial

/-- A blocked arrival that is not such a landing is a move. -/
theorem Blocked.move_of_clear {board board' : Board} {m : Motion} {e : ArrivalEvent}
    (hb : Blocked board m board' e) (hclear : lands_on_ally board m = false) : m.kind = .Move := by
  obtain ⟨o, ho, hid, hcol⟩ := hb.ally
  cases hk : m.kind with
  | Move => rfl
  | JumpInPlace =>
      unfold lands_on_ally at hclear
      rw [ho, hk] at hclear
      simp [hid, hcol] at hclear

/-! ## The account -/

/-- In how many events the piece is the one captured. -/
def captures (events : List ArrivalEvent) (i : PieceId) : Nat :=
  events.countP fun e => e.captured_piece.any fun c => decide (c.id = i)

def OnBoard (board : Board) (i : PieceId) : Prop := ∃ q x, board.piece_at q = some x ∧ x.id = i

/-- Where a piece is, in a state reached with `events` behind it. -/
inductive Accounted (board : Board) (motions : List Motion) (events : List ArrivalEvent)
    (i : PieceId) : Prop
  | standing (on_board : OnBoard board i) (uncaptured : captures events i = 0)
  | aloft (off_board : ¬ OnBoard board i)
      (flight : ∃ m ∈ motions, m.kind = .JumpInPlace ∧ m.id = i)
      (uncaptured : captures events i = 0)
  | captured (off_board : ¬ OnBoard board i) (no_flight : ∀ m ∈ motions, m.id ≠ i)
      (once : captures events i = 1)

theorem Accounted.perm {board : Board} {motions motions' : List Motion}
    {events : List ArrivalEvent} {i : PieceId} (h : Accounted board motions events i)
    (hp : motions'.Perm motions) : Accounted board motions' events i := by
  cases h with
  | standing hon h0 => exact .standing hon h0
  | aloft hoff hfl h0 =>
      obtain ⟨m, hm, hk, hid⟩ := hfl
      exact .aloft hoff ⟨m, hp.symm.subset hm, hk, hid⟩ h0
  | captured hoff hno h1 => exact .captured hoff (fun m hm => hno m (hp.subset hm)) h1

theorem Accounted.map_advanced {board : Board} {motions : List Motion}
    {events : List ArrivalEvent} {i : PieceId} (ms : Int) (h : Accounted board motions events i) :
    Accounted board (motions.map (advanced ms)) events i := by
  cases h with
  | standing hon h0 => exact .standing hon h0
  | aloft hoff hfl h0 =>
      obtain ⟨m, hm, hk, hid⟩ := hfl
      exact .aloft hoff ⟨advanced ms m, List.mem_map_of_mem hm, hk, hid⟩ h0
  | captured hoff hno h1 => exact .captured hoff (List.forall_mem_map.mpr hno) h1

theorem captures_append (events events' : List ArrivalEvent) (i : PieceId) :
    captures (events ++ events') i = captures events i + captures events' i :=
  List.countP_append

theorem captures_singleton_of_ne {e : ArrivalEvent} {i : PieceId}
    (h : ∀ c, e.captured_piece = some c → c.id ≠ i) : captures [e] i = 0 := by
  unfold captures
  rw [List.countP_eq_zero]
  intro e' he'
  rw [List.mem_singleton.mp he']
  cases hc : e.captured_piece with
  | none => exact Bool.false_ne_true
  | some c => simpa using h c hc

theorem captures_singleton_self {e : ArrivalEvent} {c : Piece} {i : PieceId}
    (h : e.captured_piece = some c) (hid : c.id = i) : captures [e] i = 1 := by
  unfold captures
  rw [List.countP_cons, h]
  simp [hid]

/-! ## One turn of the loop -/

/-- A cell some other piece holds is the mover's source only if it is also its
destination. -/
theorem Sound.destination_of_other {board : Board} {m : Motion} {rest : List Motion} {x : Piece}
    (hs : Sound board (m :: rest)) (hx : board.piece_at m.source = some x) (hid : x.id ≠ m.id) :
    m.destination = m.source := by
  cases hk : m.kind with
  | JumpInPlace => exact hs.in_place m List.mem_cons_self hk
  | Move =>
      obtain ⟨y, hy, hym, _⟩ := hs.mover m List.mem_cons_self hk
      rw [hx] at hy
      exact absurd ((congrArg Piece.id (Option.some.inj hy)).trans (Piece.id_of_stateless hym)) hid

section Turn

variable {tick_start_ms ms : Int} {b b' : Batch} {p : PendingArrival} {e : ArrivalEvent}
  {ps : List PendingArrival} {still : List Motion} {tr : List ArrivalEvent} {i : PieceId}

/-- The account of a turn in which the piece is not captured. -/
theorem Settled.captures_eq (h : Settled tick_start_ms ms b p e b')
    (hno : ∀ c, e.captured_piece = some c → c.id ≠ i) :
    captures (tr ++ b'.events) i = captures (tr ++ b.events) i := by
  rw [h.events, ← List.append_assoc, captures_append _ [e], captures_singleton_of_ne hno,
    Nat.add_zero]

/-- What is off the board is not captured, -/
theorem Settled.not_captured_of_off (h : Settled tick_start_ms ms b p e b')
    (hoff : ¬ OnBoard b.board i) : ∀ c, e.captured_piece = some c → c.id ≠ i := by
  intro c hc heq
  obtain ⟨o, ho, hoc, _⟩ := h.captured_piece hc
  exact hoff ⟨_, o, ho, hoc.trans heq⟩

/-- and stays off the board unless it is the mover. -/
theorem Settled.off_of_off (h : Settled tick_start_ms ms b p e b') (hi : i ≠ p.id)
    (hoff : ¬ OnBoard b.board i) : ¬ OnBoard b'.board i := by
  rintro ⟨q, x, hx, hid⟩
  rcases h.outcome with ⟨hl, _⟩ | ⟨hb, _⟩
  · exact hoff ⟨q, x, hl.frame hx (hid.trans_ne hi), hid⟩
  · obtain ⟨y, hy, hxy⟩ := hb.read_stateless hx
    exact hoff ⟨q, y, hy, (Piece.id_of_stateless hxy).symm.trans hid⟩

/-- The flight of a piece that is not captured goes on. -/
theorem Settled.live_of_not_captured (h : Settled tick_start_ms ms b p e b') {m : Motion}
    (hm : m ∈ live b.captured_this_batch ps still)
    (hno : ∀ c, e.captured_piece = some c → c.id ≠ m.id) :
    m ∈ live b'.captured_this_batch ps still := by
  by_contra hm'
  obtain ⟨c, hc, hid⟩ := h.live_dropped hm hm'
  exact hno c hc hid

/-- The mover lands, or stays where it stands. -/
theorem Settled.accounted_mover (h : Settled tick_start_ms ms b p e b')
    (hs : Sound b.board (p.motion :: live b.captured_this_batch ps still))
    (hclear : lands_on_ally b.board p.motion = false)
    (hacc : Accounted b.board (p.motion :: live b.captured_this_batch ps still)
      (tr ++ b.events) p.id) :
    Accounted b'.board (live b'.captured_this_batch ps still) (tr ++ b'.events) p.id := by
  have h0 : captures (tr ++ b.events) p.id = 0 := by
    cases hacc with
    | standing _ h0 => exact h0
    | aloft _ _ h0 => exact h0
    | captured _ hno _ => exact absurd rfl (hno p.motion List.mem_cons_self)
  have hsame : captures (tr ++ b'.events) p.id = captures (tr ++ b.events) p.id := by
    refine h.captures_eq (fun c hc heq => ?_)
    obtain ⟨o, _, hoc, hop, _⟩ := h.captured_piece hc
    exact hop (hoc.trans heq)
  refine .standing ?_ (hsame.trans h0)
  rcases h.outcome with ⟨hl, _⟩ | ⟨hb, _⟩
  · exact ⟨_, e.moved_piece, hl.read_destination, hl.moved_id⟩
  · -- turned back: the piece on the source is the mover, as it was no jump
    obtain ⟨x, hx, hxm, _⟩ := hs.mover p.motion List.mem_cons_self (hb.move_of_clear hclear)
    obtain ⟨y, hy, hread⟩ := hb.stays
    refine ⟨p.motion.source, y.stateless, by rw [hread, if_pos rfl], ?_⟩
    have hxy : y = x := Option.some.inj (hy.symm.trans hx)
    rw [hxy]
    exact Piece.id_of_stateless hxm

/-- What stood on the destination is captured, or is in the air. -/
theorem Settled.accounted_found (h : Settled tick_start_ms ms b p e b')
    (hs : Sound b.board (p.motion :: live b.captured_this_batch ps still))
    (hst : Stated b.board (p.motion :: live b.captured_this_batch ps still))
    (hl : Landed b.board p.motion b'.board e) {x : Piece}
    (hx : b.board.piece_at p.motion.destination = some x) (hid : x.id ≠ p.id)
    (h0 : captures (tr ++ b.events) x.id = 0) :
    Accounted b'.board (live b'.captured_this_batch ps still) (tr ++ b'.events) x.id := by
  have hoff : ¬ OnBoard b'.board x.id := by
    rintro ⟨q, y, hy, hyx⟩
    rcases hl.read_cases hy with ⟨_, rfl⟩ | ⟨hq, _, hold⟩
    · exact hid (hyx.symm.trans hl.moved_id)
    · exact hq (hs.distinct _ _ _ _ hold hx hyx)
  -- the resolver captures what it finds, unless that is in the air
  by_cases hair : x.state = .Airborne
  · have hnone : e.captured_piece = none := by
      rw [hl.captured, hx, resolve_airborne hid (hl.enemy x hx hid) hair]
    have hno : ∀ j : PieceId, ∀ c, e.captured_piece = some c → c.id ≠ j := by
      intro j c hc
      rw [hnone] at hc
      cases hc
    obtain ⟨m, hm, hk, hmx⟩ := hst.jump_of_airborne hx hair
    have hm' : m ∈ live b.captured_this_batch ps still := by
      rcases List.mem_cons.mp hm with rfl | hm'
      · exact absurd hmx.symm hid
      · exact hm'
    exact .aloft hoff ⟨m, h.live_of_not_captured hm' (hno _), hk, hmx⟩
      ((h.captures_eq (hno _)).trans h0)
  · have hsome : e.captured_piece = some { x with state := .Captured } := by
      rw [hl.captured, hx, resolve_grounded_enemy hid (hl.enemy x hx hid) hair]
    refine .captured hoff (fun m hm hmx => ?_) ?_
    · have hm' := List.mem_cons_of_mem p.motion ((h.live_sublist ps still).subset hm)
      exact h.live_keeps hm (hst.move_of_grounded hx hair hm' hmx) _ hsome hmx.symm
    · have hone : captures [e] x.id = 1 := captures_singleton_self hsome rfl
      rw [h.events, ← List.append_assoc, captures_append _ [e], h0, hone]

/-- **A turn keeps the account**, unless it is a landing on an ally. -/
theorem Settled.accounted (h : Settled tick_start_ms ms b p e b')
    (hs : Sound b.board (p.motion :: live b.captured_this_batch ps still))
    (hst : Stated b.board (p.motion :: live b.captured_this_batch ps still))
    (hclear : lands_on_ally b.board p.motion = false)
    (hacc : Accounted b.board (p.motion :: live b.captured_this_batch ps still)
      (tr ++ b.events) i) :
    Accounted b'.board (live b'.captured_this_batch ps still) (tr ++ b'.events) i := by
  by_cases hi : i = p.id
  · subst hi
    exact h.accounted_mover hs hclear hacc
  cases hacc with
  | standing hon h0 =>
      obtain ⟨q, x, hx, rfl⟩ := hon
      rcases h.outcome with ⟨hl, _⟩ | ⟨hb, _⟩
      · -- only the two cells of the motion change, and the source held the mover
        by_cases hq : q = p.motion.destination
        · subst hq
          exact h.accounted_found hs hst hl hx hi h0
        · have hsource : q ≠ p.motion.source := by
            rintro rfl
            exact hq (hs.destination_of_other hx hi).symm
          refine .standing ⟨q, x, by rw [hl.read, if_neg hq, if_neg hsource]; exact hx, rfl⟩ ?_
          rw [h.captures_eq, h0]
          intro c hc heq
          obtain ⟨o, ho, hoc, _⟩ := h.captured_piece hc
          exact hq (hs.distinct _ _ _ _ hx ho (heq.symm.trans hoc.symm))
      · obtain ⟨y, hy, hread⟩ := hb.stays
        refine .standing ?_ ((h.captures_eq (fun c hc => ?_)).trans h0)
        · by_cases hq : q = p.motion.source
          · subst hq
            refine ⟨_, y.stateless, by rw [hread, if_pos rfl], ?_⟩
            rw [Option.some.inj (hx.symm.trans hy)]
            rfl
          · exact ⟨q, x, by rw [hread, if_neg hq]; exact hx, rfl⟩
        · rw [hb.captured] at hc
          cases hc
  | aloft hoff hfl h0 =>
      obtain ⟨m, hm, hk, rfl⟩ := hfl
      -- a capture is taken off a cell, so what is off the board is not captured
      have hno := h.not_captured_of_off hoff
      have hm' : m ∈ live b.captured_this_batch ps still := by
        rcases List.mem_cons.mp hm with rfl | hm'
        · exact absurd rfl hi
        · exact hm'
      exact .aloft (h.off_of_off hi hoff) ⟨m, h.live_of_not_captured hm' hno, hk, rfl⟩
        ((h.captures_eq hno).trans h0)
  | captured hoff hno h1 =>
      refine .captured (h.off_of_off hi hoff) (fun m hm => ?_)
        ((h.captures_eq (h.not_captured_of_off hoff)).trans h1)
      exact hno m (List.mem_cons_of_mem _ ((h.live_sublist ps still).subset hm))

end Turn

/-! ## The tick and the run -/

/-- What a run without such landings keeps. -/
structure Kept (ids : PieceId → Prop) (g : GameEngine) (tr : List ArrivalEvent) : Prop where
  sound : g.Sound
  stated : Stated g.board g.arbiter.active_motions
  accounted : ∀ i, ids i → Accounted g.board g.arbiter.active_motions tr i

/-- A clear tick keeps the states and every account. -/
theorem advance_kept {ids : PieceId → Prop} {a a' : RealTimeArbiter} {ms : Int}
    {tr es : List ArrivalEvent} (hs : Sound a.board a.active_motions)
    (hst : Stated a.board a.active_motions) (hclear : tick_clear a ms = true)
    (hacc : ∀ i, ids i → Accounted a.board a.active_motions tr i)
    (hrun : a.advance_time ms = .ok (a', es)) :
    Stated a'.board a'.active_motions ∧
      ∀ i, ids i → Accounted a'.board a'.active_motions (tr ++ es) i := by
  -- the account is kept for the motions still live, turn by turn
  obtain ⟨b, rfl, rfl, hkept⟩ := advance_time_avoiding hs hclear hrun
    (fun motions b => Stated b.board motions ∧
      ∀ i, ids i → Accounted b.board motions (tr ++ b.events) i)
    (fun motions hperm => ⟨(hst.map_advanced ms).perm hperm, fun i hi => by
      rw [batch_start, List.append_nil]
      exact ((hacc i hi).map_advanced ms).perm hperm⟩)
    (fun p ps b e b' hp hsound hnow h hone hset => by
      refine ⟨hset.stated hsound h.1 (fun hblocked => ?_), fun i hi =>
        hset.accounted hsound h.1 hnow (h.2 i hi)⟩
      exact hsound.quiet_of_move (hblocked.move_of_clear hnow))
  exact hkept

/-- Starting a motion changes no account. -/
theorem Accounted.starts {board : Board} {motions : List Motion} {motion : Motion} {x : Piece}
    {tr : List ArrivalEvent} {i : PieceId} (h : Accounted board motions tr i)
    (hs : Starts board motion x) :
    Accounted (board_after_start board motion x) (motions ++ [motion]) tr i := by
  have hsame : OnBoard (board_after_start board motion x) i ↔ OnBoard board i := by
    constructor
    · rintro ⟨q, y, hy, hid⟩
      obtain ⟨z, hz, hyz⟩ := hs.read_stateless hy
      exact ⟨q, z, hz, (Piece.id_of_stateless hyz).symm.trans hid⟩
    · rintro ⟨q, y, hy, hid⟩
      by_cases hq : q = motion.source
      · subst hq
        refine ⟨_, { x with state := starting_state motion.kind }, by rw [hs.read, if_pos rfl], ?_⟩
        rw [← hid, Option.some.inj (hy.symm.trans hs.at_source)]
      · exact ⟨q, y, by rw [hs.read, if_neg hq]; exact hy, hid⟩
  cases h with
  | standing hon h0 => exact .standing (hsame.mpr hon) h0
  | aloft hoff hfl h0 =>
      obtain ⟨m, hm, hk, hid⟩ := hfl
      exact .aloft (hsame.not.mpr hoff) ⟨m, List.mem_append_left _ hm, hk, hid⟩ h0
  | captured hoff hno h1 =>
      refine .captured (hsame.not.mpr hoff) (fun m hm => ?_) h1
      rcases List.mem_append.mp hm with hm | hm
      · exact hno m hm
      · -- the piece that moves off stands on the board
        rintro rfl
        rw [List.mem_singleton.mp hm] at hoff
        exact hoff ⟨_, x, hs.at_source, (congrArg Piece.id hs.snapshot).symm⟩

theorem Kept.step {ids : PieceId → Prop} {g g' : GameEngine} {tr es : List ArrivalEvent}
    {cmd : Command} (h : Kept ids g tr) (hclear : NoLandingOnAlly g tr cmd)
    (hrun : exec g cmd = .ok (g', es)) : Kept ids g' (tr ++ es) := by
  refine ⟨h.sound.step hrun, ?_, ?_⟩
  · cases exec_effect hrun with
    | refused => exact h.stated
    | started _ m x _ hs hfree _ =>
        exact h.stated.starts h.sound.distinct hs (not_busy_iff.mp hfree).1
    | waited ms a es hover hadv =>
        exact (advance_kept h.sound h.stated (hclear.resolve_left (by simp [hover])) h.accounted
          hadv).1
  · cases exec_effect hrun with
    | refused =>
        rw [List.append_nil]
        exact h.accounted
    | started _ m x _ hs hfree _ =>
        rw [List.append_nil]
        exact fun i hi => (h.accounted i hi).starts hs
    | waited ms a es hover hadv =>
        exact (advance_kept h.sound h.stated (hclear.resolve_left (by simp [hover])) h.accounted
          hadv).2

theorem kept_of_reach {f : MotionFactory} {b : Board} {g : GameEngine} {tr : List ArrivalEvent}
    (hb : Fresh b) (h : Reach exec NoLandingOnAlly (GameEngine.new f b) g tr) :
    Kept (OnBoard b) g tr := by
  refine Reach.invariant (P := Kept (OnBoard b)) ?_ ?_ h
  · exact ⟨sound_new f hb, stated_nil hb.idle, fun i hi => .standing hi rfl⟩
  · exact fun _ _ _ _ _ _ hk hc hrun => hk.step hc hrun

/-! ## The result -/

/-- Situation one: the piece stands on exactly one cell. -/
def Stands (g : GameEngine) (i : PieceId) : Prop := g.board.count_on i = 1

/-- Situation two: it is off the board and has an active jump. -/
def Aloft (g : GameEngine) (i : PieceId) : Prop :=
  g.board.count_on i = 0 ∧
    ∃ m ∈ g.arbiter.active_motions, m.kind = .JumpInPlace ∧ m.moving_piece.id = i

/-- Exactly one of the three situations, and captured at most once. -/
def OneFate (g : GameEngine) (tr : List ArrivalEvent) (i : PieceId) : Prop :=
  (Stands g i ∧ ¬ Aloft g i ∧ captures tr i = 0) ∨
    (¬ Stands g i ∧ Aloft g i ∧ captures tr i = 0) ∨
    (¬ Stands g i ∧ ¬ Aloft g i ∧ captures tr i = 1)

instance (g : GameEngine) (i : PieceId) : Decidable (Stands g i) :=
  inferInstanceAs (Decidable (_ = _))

instance (g : GameEngine) (i : PieceId) : Decidable (Aloft g i) :=
  inferInstanceAs (Decidable (_ ∧ _))

instance (g : GameEngine) (tr : List ArrivalEvent) (i : PieceId) : Decidable (OneFate g tr i) :=
  inferInstanceAs (Decidable (_ ∨ _ ∨ _))

theorem count_on_of_off {board : Board} {i : PieceId} (h : ¬ OnBoard board i) :
    board.count_on i = 0 :=
  Board.count_on_eq_zero_iff.mpr fun pos x hx hid => h ⟨pos, x, hx, hid⟩

theorem Accounted.one_fate {g : GameEngine} {tr : List ArrivalEvent} {i : PieceId}
    (h : Accounted g.board g.arbiter.active_motions tr i) (hd : g.board.Distinct) :
    OneFate g tr i := by
  cases h with
  | standing hon h0 =>
      obtain ⟨q, x, hx, rfl⟩ := hon
      have hone : g.board.count_on x.id = 1 := Board.count_on_eq_one hd hx
      refine .inl ⟨hone, fun ha => ?_, h0⟩
      have := ha.1
      omega
  | aloft hoff hfl h0 =>
      have hzero := count_on_of_off hoff
      refine .inr (.inl ⟨?_, ⟨hzero, hfl⟩, h0⟩)
      unfold Stands
      omega
  | captured hoff hno h1 =>
      have hzero := count_on_of_off hoff
      refine .inr (.inr ⟨?_, ?_, h1⟩)
      · unfold Stands
        omega
      · rintro ⟨_, m, hm, _, hid⟩
        exact hno m hm hid

/-- **Conservation.** In every run in which no jumper comes down on an ally, in
every state it reaches, each piece of the parsed board is on exactly one cell, or
in the air over a cell it lost, or has been reported captured exactly once. -/
theorem no_piece_is_lost {board_lines : List String} {b : Board} {f : MotionFactory}
    {g : GameEngine} {tr : List ArrivalEvent} (hparse : parse board_lines = .ok b)
    (hrun : Reach exec NoLandingOnAlly (GameEngine.new f b) g tr) {i : PieceId}
    (hi : b.count_on i ≠ 0) : OneFate g tr i := by
  have hkept := kept_of_reach (fresh_of_parse hparse) hrun
  have hon : OnBoard b i := by
    by_contra hno
    exact hi (count_on_of_off hno)
  exact (hkept.accounted i hon).one_fate hkept.sound.distinct

/-- A white rook, the white king and a black rook on one row. -/
def three_on_a_row : Board :=
  ⟨3, 1, [some ⟨⟨1⟩, .White, .Rook, ⟨0, 0⟩, .Idle, false⟩,
    some ⟨⟨2⟩, .White, .King, ⟨0, 1⟩, .Idle, false⟩,
    some ⟨⟨3⟩, .Black, .Rook, ⟨0, 2⟩, .Idle, false⟩], rfl⟩

theorem parse_three_on_a_row : parse ["wR wK bR"] = .ok three_on_a_row := by decide

/-- The result at work: the rook takes the king, which is then captured once. -/
theorem captured_king_is_accounted : ∃ g tr,
    run exec (GameEngine.new shipped_factory three_on_a_row)
      [.request_move ⟨0, 2⟩ ⟨0, 1⟩, .wait 400] = .ok (g, tr) ∧ OneFate g tr ⟨2⟩ := by
  obtain ⟨⟨g, tr⟩, hrun⟩ := exists_ok (x := run exec (GameEngine.new shipped_factory three_on_a_row)
    [.request_move ⟨0, 2⟩ ⟨0, 1⟩, .wait 400]) (by decide)
  exact ⟨g, tr, hrun, no_piece_is_lost parse_three_on_a_row
    (reach_of_meets (by decide) hrun) (by decide)⟩

/-- **The lost king.** Without the condition the account fails: the black rook
flies in under the jumping king, the white rook recaptures the cell, and the king
comes down on it. -/
theorem lost_king : ¬ ∀ (board_lines : List String) (b : Board) (f : MotionFactory)
    (g : GameEngine) (tr : List ArrivalEvent) (i : PieceId), parse board_lines = .ok b →
    Reach exec anyStep (GameEngine.new f b) g tr → b.count_on i ≠ 0 → OneFate g tr i := by
  intro h
  let cmds : List Command := [.request_move ⟨0, 2⟩ ⟨0, 1⟩, .wait 300, .request_jump ⟨0, 1⟩,
    .wait 100, .request_move ⟨0, 0⟩ ⟨0, 1⟩, .wait 400, .wait 200]
  obtain ⟨⟨g, tr⟩, hrun, hlost⟩ := exists_ok_such (p := fun r => ¬ OneFate r.1 r.2 ⟨2⟩)
    (x := run exec (GameEngine.new shipped_factory three_on_a_row) cmds) (by decide)
  exact of_decide_eq_true hlost (h _ _ _ g tr ⟨2⟩ parse_three_on_a_row (reach_of_run hrun)
    (by decide))

end KungFuChess
