/-
**Piece states**: the board's lifecycle flags agree with the motions in flight.

`Stated board motions` reads: a piece with a motion has the state that motion
gave it, and a piece with none is idle. The collision rule depends on it, since
what it finds airborne is not captured. A landing and the start of a motion keep
it unconditionally; a blocked arrival keeps it when the piece that it makes idle
has no other motion, which is where the two kinds of motion differ. For a move
the piece is the mover itself; for a jump it is the ally found in the cell.
-/
import KungFuChess.Runs

set_option autoImplicit false

namespace KungFuChess

open Machine RealTimeArbiter

/-- The state of every piece on the board is the one its motion gave it. -/
structure Stated (board : Board) (motions : List Motion) : Prop where
  under_way : ∀ m ∈ motions, ∀ q x, board.piece_at q = some x → x.id = m.id →
    x.state = starting_state m.kind
  at_rest : ∀ q x, board.piece_at q = some x → (∀ m ∈ motions, m.id ≠ x.id) → x.state = .Idle

theorem stated_nil {board : Board} (h : ∀ q x, board.piece_at q = some x → x.state = .Idle) :
    Stated board [] where
  under_way := by simp
  at_rest q x hx _ := h q x hx

theorem Stated.perm {board : Board} {motions motions' : List Motion} (h : Stated board motions)
    (hp : motions'.Perm motions) : Stated board motions' where
  under_way m hm := h.under_way m (hp.subset hm)
  at_rest q x hx hno := h.at_rest q x hx (fun m hm => hno m (hp.symm.subset hm))

theorem Stated.map_advanced {board : Board} {motions : List Motion} (ms : Int)
    (h : Stated board motions) : Stated board (motions.map (advanced ms)) where
  under_way := List.forall_mem_map.mpr h.under_way
  at_rest q x hx hno := h.at_rest q x hx (fun m hm => hno (advanced ms m) (List.mem_map_of_mem hm))

/-- Motions of pieces that are off the board may be dropped. -/
theorem Stated.thin {board : Board} {motions motions' : List Motion} (h : Stated board motions)
    (hsub : motions'.Sublist motions)
    (hdrop : ∀ m ∈ motions, m ∉ motions' → ∀ q x, board.piece_at q = some x → x.id ≠ m.id) :
    Stated board motions' where
  under_way m hm := h.under_way m (hsub.subset hm)
  at_rest := by
    intro q x hx hno
    refine h.at_rest q x hx (fun m hm heq => ?_)
    by_cases hm' : m ∈ motions'
    · exact hno m hm' heq
    · exact hdrop m hm hm' q x hx heq.symm

/-- A piece in the air is there because of a jump. -/
theorem Stated.jump_of_airborne {board : Board} {motions : List Motion} {q : Position} {x : Piece}
    (h : Stated board motions) (hx : board.piece_at q = some x) (hair : x.state = .Airborne) :
    ∃ m ∈ motions, m.kind = .JumpInPlace ∧ m.id = x.id := by
  by_cases hno : ∀ m ∈ motions, m.id ≠ x.id
  · rw [h.at_rest q x hx hno] at hair
    cases hair
  · push Not at hno
    obtain ⟨m, hm, hid⟩ := hno
    refine ⟨m, hm, ?_, hid⟩
    have hst := h.under_way m hm q x hx hid.symm
    rw [hair] at hst
    cases hk : m.kind with
    | JumpInPlace => rfl
    | Move =>
        rw [hk] at hst
        cases hst

/-- A grounded piece has no jump. -/
theorem Stated.move_of_grounded {board : Board} {motions : List Motion} {q : Position} {x : Piece}
    {m : Motion} (h : Stated board motions) (hx : board.piece_at q = some x)
    (hair : x.state ≠ .Airborne) (hm : m ∈ motions) (hid : m.id = x.id) : m.kind = .Move := by
  cases hk : m.kind with
  | Move => rfl
  | JumpInPlace =>
      have hst := h.under_way m hm q x hx hid.symm
      rw [hk] at hst
      exact absurd hst hair

/-! ## `Stated` is kept -/

theorem Stated.landed {board board' : Board} {m : Motion} {e : ArrivalEvent} {rest : List Motion}
    (h : Stated board (m :: rest)) (hs : Sound board (m :: rest)) (hl : Landed board m board' e) :
    Stated board' rest where
  under_way := by
    intro m' hm' q x hx hid
    exact h.under_way m' (List.mem_cons_of_mem _ hm') q x
      (hl.frame hx (hid.trans_ne (hs.id_ne hm'))) hid
  at_rest := by
    intro q x hx hno
    rcases hl.read_cases hx with ⟨_, rfl⟩ | ⟨_, hsource, hold⟩
    · exact hl.moved_idle
    · refine h.at_rest q x hold (fun m' hm' heq => ?_)
      rcases List.mem_cons.mp hm' with rfl | hm'
      · exact hsource (hs.at_source hold heq.symm)
      · exact hno m' hm' heq

/-- A blocked arrival, when nothing else moves the piece that it makes idle. -/
theorem Stated.blocked {board board' : Board} {m : Motion} {e : ArrivalEvent} {rest : List Motion}
    (h : Stated board (m :: rest)) (hs : Sound board (m :: rest)) (hb : Blocked board m board' e)
    (hquiet : ∀ x, board.piece_at m.source = some x → ∀ m' ∈ rest, m'.id ≠ x.id) :
    Stated board' rest where
  under_way := by
    intro m' hm' q y hy hid
    rcases hb.read_cases hy with hold | ⟨rfl, x, hx, rfl⟩
    · exact h.under_way m' (List.mem_cons_of_mem _ hm') q y hold hid
    · exact absurd hid.symm (hquiet x hx m' hm')
  at_rest := by
    intro q y hy hno
    rcases hb.read_cases hy with hold | ⟨_, x, _, rfl⟩
    · by_cases hq : q = m.source
      · obtain ⟨x, hx, hread⟩ := hb.stays
        rw [hread, if_pos hq] at hy
        rw [← Option.some.inj hy]
        rfl
      · refine h.at_rest q y hold (fun m' hm' heq => ?_)
        rcases List.mem_cons.mp hm' with rfl | hm'
        · exact hq (hs.at_source hold heq.symm)
        · exact hno m' hm' heq
    · rfl

/-- The piece a blocked move makes idle is the mover. -/
theorem Sound.quiet_of_move {board : Board} {m : Motion} {rest : List Motion}
    (hs : Sound board (m :: rest)) (hk : m.kind = .Move) :
    ∀ x, board.piece_at m.source = some x → ∀ m' ∈ rest, m'.id ≠ x.id := by
  intro x hx m' hm' heq
  obtain ⟨y, hy, hym, _⟩ := hs.mover m List.mem_cons_self hk
  have hxy : x = y := Option.some.inj (hx.symm.trans hy)
  exact hs.id_ne hm' (heq.trans (by rw [hxy]; exact Piece.id_of_stateless hym))

theorem Stated.starts {board : Board} {motions : List Motion} {motion : Motion} {x : Piece}
    (h : Stated board motions) (hd : board.Distinct) (hs : Starts board motion x)
    (hfree : ∀ m ∈ motions, m.id ≠ x.id) :
    Stated (board_after_start board motion x) (motions ++ [motion]) where
  under_way := by
    intro m hm q y hy hid
    rcases List.mem_append.mp hm with hm | hm
    · rcases hs.read_cases hy with ⟨_, rfl⟩ | ⟨_, hold⟩
      · exact absurd hid.symm (hfree m hm)
      · exact h.under_way m hm q y hold hid
    · obtain rfl := List.mem_singleton.mp hm
      rcases hs.read_cases hy with ⟨_, rfl⟩ | ⟨hq, hold⟩
      · rfl
      · exact absurd (hd _ _ _ _ hold hs.at_source
          (hid.trans (congrArg Piece.id hs.snapshot))) hq
  at_rest := by
    intro q y hy hno
    rcases hs.read_cases hy with ⟨_, rfl⟩ | ⟨_, hold⟩
    · exact absurd (congrArg Piece.id hs.snapshot)
        (hno motion (List.mem_append_right _ (List.mem_singleton.mpr rfl)))
    · exact h.at_rest q y hold (fun m hm => hno m (List.mem_append_left _ hm))

/-! ## Across one turn of the loop -/

section Settled

variable {tick_start_ms ms : Int} {b b' : Batch} {p : PendingArrival} {e : ArrivalEvent}

/-- A captured piece stood, grounded, on the destination, and is not the mover. -/
theorem Settled.captured_piece (h : Settled tick_start_ms ms b p e b') {c : Piece}
    (hc : e.captured_piece = some c) : ∃ o, b.board.piece_at p.motion.destination = some o ∧
      o.id = c.id ∧ o.id ≠ p.id ∧ o.state ≠ .Airborne := by
  rcases h.outcome with ⟨hl, _⟩ | ⟨hb, _⟩
  · obtain ⟨o, ho, hid, _, hair, rfl⟩ := captured_of_resolve (hl.captured.symm.trans hc)
    exact ⟨o, ho, rfl, hid, hair⟩
  · rw [hb.captured] at hc
    cases hc

/-- The captured ids after a turn: the one it captured, and those before it. -/
theorem Settled.mem_captured (h : Settled tick_start_ms ms b p e b') {i : PieceId}
    (hi : i ∈ b'.captured_this_batch) :
    (∃ c, e.captured_piece = some c ∧ c.id = i) ∨ i ∈ b.captured_this_batch := by
  rw [h.captured, List.mem_append] at hi
  rcases hi with hi | hi
  · unfold captured_ids at hi
    rw [Option.mem_toList, Option.map_eq_some_iff] at hi
    exact .inl hi
  · exact .inr hi

/-- A turn calls off the flights of the piece it captured, and no others. -/
theorem Settled.live_dropped (h : Settled tick_start_ms ms b p e b') {ps : List PendingArrival}
    {still : List Motion} {m : Motion} (hm : m ∈ live b.captured_this_batch ps still)
    (hno : m ∉ live b'.captured_this_batch ps still) :
    ∃ c, e.captured_piece = some c ∧ c.id = m.id := by
  have hmem : m.id ∈ b'.captured_this_batch ∧ m.id ∉ b.captured_this_batch := by
    rw [mem_live] at hm hno
    push Not at hno
    rcases hm with ⟨harr, hc⟩ | ⟨hstill, hc⟩
    · exact ⟨hno.1 harr, hc⟩
    · exact ⟨(hno.2 hstill).2, hc (hno.2 hstill).1⟩
  exact (h.mem_captured hmem.1).resolve_right hmem.2

/-- No piece captured in a turn is on the board after it. -/
theorem Settled.captured_gone (h : Settled tick_start_ms ms b p e b') (hd : b.board.Distinct)
    {c x : Piece} {q : Position} (hc : e.captured_piece = some c)
    (hx : b'.board.piece_at q = some x) : x.id ≠ c.id := by
  obtain ⟨o, ho, hoc, hop, _⟩ := h.captured_piece hc
  rcases h.outcome with ⟨hl, _⟩ | ⟨hb, _⟩
  · rcases hl.read_cases hx with ⟨_, rfl⟩ | ⟨hq, _, hold⟩
    · rw [hl.moved_id, ← hoc]
      exact fun heq => hop heq.symm
    · exact fun heq => hq (hd _ _ _ _ hold ho (heq.trans hoc.symm))
  · rw [hb.captured] at hc
    cases hc

/-- **A turn keeps `Stated`**, if a blocked arrival makes no moving piece idle. -/
theorem Settled.stated (h : Settled tick_start_ms ms b p e b') {ps : List PendingArrival}
    {still : List Motion}
    (hs : Sound b.board (p.motion :: live b.captured_this_batch ps still))
    (hst : Stated b.board (p.motion :: live b.captured_this_batch ps still))
    (hquiet : Blocked b.board p.motion b'.board e → ∀ x, b.board.piece_at p.motion.source = some x →
      ∀ m' ∈ live b.captured_this_batch ps still, m'.id ≠ x.id) :
    Stated b'.board (live b'.captured_this_batch ps still) := by
  have hfull : Stated b'.board (live b.captured_this_batch ps still) := by
    rcases h.outcome with ⟨hl, _⟩ | ⟨hb, _⟩
    · exact hst.landed hs hl
    · exact hst.blocked hs hb (hquiet hb)
  refine hfull.thin (h.live_sublist ps still) (fun m hm hno q x hx => ?_)
  obtain ⟨c, hc, hid⟩ := h.live_dropped hm hno
  rw [← hid]
  exact h.captured_gone hs.distinct hc hx

end Settled

end KungFuChess
