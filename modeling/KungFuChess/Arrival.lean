/-
**One arrival**: everything `resolve_arrival` can do, said once.

`Sound board motions` is what the arrival code relies on and never checks: ids
are distinct, a piece carries its own cell, no id has two motions, a mover still
stands at its source, a jumper stands at its source or nowhere. Under it
`resolve_arrival` does not throw, and it does one of two things, `Landed` or
`Blocked` (`resolve_arrival_spec`). Every invariant of the simulation is then
derived from these two descriptions; no later proof unfolds the source's
branches again.

`Sound` holds under all cooldowns and durations, also after a jumper has come
down on an ally, so it says nothing about `PieceState` beyond the one fact the
collision rule needs: a mover on its way is never airborne.
-/
import KungFuChess.Arbiter
import KungFuChess.Machine
import Mathlib.Tactic.Tauto

set_option autoImplicit false

namespace KungFuChess

open Machine RealTimeArbiter

/-! ## Pieces up to their state -/

/-- A piece without its lifecycle flag: id, colour, kind, cell and `has_moved`. -/
def Piece.stateless (x : Piece) : Piece := { x with state := .Idle }

theorem Piece.id_of_stateless {x y : Piece} (h : x.stateless = y.stateless) : x.id = y.id :=
  show x.stateless.id = y.stateless.id by rw [h]

theorem Piece.cell_of_stateless {x y : Piece} (h : x.stateless = y.stateless) : x.cell = y.cell :=
  show x.stateless.cell = y.stateless.cell by rw [h]

/-! ## The invariant the arrival code relies on -/

/-- The id of the piece a motion moves. -/
abbrev Motion.id (m : Motion) : PieceId := m.moving_piece.id

structure Sound (board : Board) (motions : List Motion) : Prop where
  distinct : board.Distinct
  cell : ∀ pos x, board.piece_at pos = some x → x.cell = pos
  nodup : (motions.map Motion.id).Nodup
  source_in : ∀ m ∈ motions, board.in_bounds m.source
  destination_in : ∀ m ∈ motions, board.in_bounds m.destination
  /-- The snapshot was taken where the motion set out. -/
  snapshot : ∀ m ∈ motions, m.moving_piece.cell = m.source
  /-- A piece under way stands at its source, as the snapshot has it. -/
  mover : ∀ m ∈ motions, m.kind = .Move → ∃ x, board.piece_at m.source = some x ∧
    x.stateless = m.moving_piece.stateless ∧ x.state ≠ .Airborne
  /-- A piece in the air comes down where it left, -/
  in_place : ∀ m ∈ motions, m.kind = .JumpInPlace → m.destination = m.source
  /-- and if it stands anywhere it stands there, as the snapshot has it. -/
  jumper : ∀ m ∈ motions, m.kind = .JumpInPlace → ∀ pos x, board.piece_at pos = some x →
    x.id = m.id → pos = m.source ∧ x.stateless = m.moving_piece.stateless

theorem sound_nil {board : Board} (hd : board.Distinct)
    (hc : ∀ pos x, board.piece_at pos = some x → x.cell = pos) : Sound board [] where
  distinct := hd
  cell := hc
  nodup := List.nodup_nil
  source_in := by simp
  destination_in := by simp
  snapshot := by simp
  mover := by simp
  in_place := by simp
  jumper := by simp

/-- The invariant reads the motions as a set with distinct ids. -/
theorem Sound.sublist {board : Board} {motions motions' : List Motion} (h : Sound board motions)
    (hsub : motions'.Sublist motions) : Sound board motions' where
  distinct := h.distinct
  cell := h.cell
  nodup := h.nodup.sublist (hsub.map _)
  source_in m hm := h.source_in m (hsub.subset hm)
  destination_in m hm := h.destination_in m (hsub.subset hm)
  snapshot m hm := h.snapshot m (hsub.subset hm)
  mover m hm := h.mover m (hsub.subset hm)
  in_place m hm := h.in_place m (hsub.subset hm)
  jumper m hm := h.jumper m (hsub.subset hm)

theorem Sound.perm {board : Board} {motions motions' : List Motion} (h : Sound board motions)
    (hp : motions'.Perm motions) : Sound board motions' where
  distinct := h.distinct
  cell := h.cell
  nodup := (hp.map Motion.id).nodup_iff.mpr h.nodup
  source_in m hm := h.source_in m (hp.subset hm)
  destination_in m hm := h.destination_in m (hp.subset hm)
  snapshot m hm := h.snapshot m (hp.subset hm)
  mover m hm := h.mover m (hp.subset hm)
  in_place m hm := h.in_place m (hp.subset hm)
  jumper m hm := h.jumper m (hp.subset hm)

/-- No other motion carries the head's id. -/
theorem Sound.id_ne {board : Board} {m m' : Motion} {rest : List Motion}
    (h : Sound board (m :: rest)) (hm' : m' ∈ rest) : m'.id ≠ m.id := by
  have hn := h.nodup
  rw [List.map_cons, List.nodup_cons] at hn
  exact fun heq => hn.1 (List.mem_map.mpr ⟨m', hm', heq⟩)

/-! ## The two outcomes -/

/-- The mover took its destination: that cell now holds the moved piece, the
source (if it is another cell) is empty, and nothing else changed. An enemy it
found there is reported captured unless it was airborne. -/
structure Landed (board : Board) (m : Motion) (board' : Board) (e : ArrivalEvent) : Prop where
  width : board'.width = board.width
  height : board'.height = board.height
  read : ∀ q, board'.piece_at q =
    if q = m.destination then some e.moved_piece
    else if q = m.source then none else board.piece_at q
  moved : (e.moved_piece, e.was_promotion) = apply_pawn_promotion (arriving_piece m) board
  source : e.source = m.source
  destination : e.destination = m.destination
  kind : e.kind = m.kind
  captured : e.captured_piece =
    (CollisionResolver.resolve m.moving_piece (board.piece_at m.destination)).captured_piece
  enemy : ∀ o, board.piece_at m.destination = some o → o.id ≠ m.id → o.color ≠ m.moving_piece.color

/-- An ally holds the destination: the mover stays, and the piece at its source
becomes idle. -/
structure Blocked (board : Board) (m : Motion) (board' : Board) (e : ArrivalEvent) : Prop where
  width : board'.width = board.width
  height : board'.height = board.height
  stays : ∃ x, board.piece_at m.source = some x ∧
    ∀ q, board'.piece_at q = if q = m.source then some x.stateless else board.piece_at q
  moved : e.moved_piece = m.moving_piece.stateless
  source : e.source = m.source
  destination : e.destination = m.source
  kind : e.kind = m.kind
  captured : e.captured_piece = none
  ally : ∃ o, board.piece_at m.destination = some o ∧ o.id ≠ m.id ∧ o.color = m.moving_piece.color

/-! ### What `arriving_piece` and promotion leave alone -/

theorem promotion_fields (x : Piece) (board : Board) :
    (apply_pawn_promotion x board).1.id = x.id ∧ (apply_pawn_promotion x board).1.color = x.color ∧
      (apply_pawn_promotion x board).1.cell = x.cell ∧
      (apply_pawn_promotion x board).1.state = x.state ∧
      (apply_pawn_promotion x board).1.has_moved = x.has_moved := by
  unfold apply_pawn_promotion
  dsimp only
  split_ifs <;> exact ⟨rfl, rfl, rfl, rfl, rfl⟩

section Landed

variable {board board' : Board} {m : Motion} {e : ArrivalEvent} (h : Landed board m board' e)

include h

theorem Landed.moved_eq : e.moved_piece = (apply_pawn_promotion (arriving_piece m) board).1 :=
  congrArg Prod.fst h.moved

theorem Landed.moved_id : e.moved_piece.id = m.id := by
  rw [h.moved_eq, (promotion_fields _ _).1]
  rfl

theorem Landed.moved_cell : e.moved_piece.cell = m.destination := by
  rw [h.moved_eq, (promotion_fields _ _).2.2.1]
  rfl

theorem Landed.moved_idle : e.moved_piece.state = .Idle := by
  rw [h.moved_eq, (promotion_fields _ _).2.2.2.1]
  rfl

theorem Landed.read_destination : board'.piece_at m.destination = some e.moved_piece := by
  rw [h.read, if_pos rfl]

/-- Whatever stands on the board afterwards is the moved piece or stood there. -/
theorem Landed.read_cases {q : Position} {x : Piece} (hx : board'.piece_at q = some x) :
    (q = m.destination ∧ x = e.moved_piece) ∨
      (q ≠ m.destination ∧ q ≠ m.source ∧ board.piece_at q = some x) := by
  rw [h.read] at hx
  split_ifs at hx with hq hs
  · exact .inl ⟨hq, (Option.some.inj hx).symm⟩
  · exact .inr ⟨hq, hs, hx⟩

theorem Landed.in_bounds_iff (q : Position) : board'.in_bounds q ↔ board.in_bounds q := by
  unfold Board.in_bounds
  rw [h.width, h.height]

end Landed

theorem Blocked.in_bounds_iff {board board' : Board} {m : Motion} {e : ArrivalEvent}
    (h : Blocked board m board' e) (q : Position) : board'.in_bounds q ↔ board.in_bounds q := by
  unfold Board.in_bounds
  rw [h.width, h.height]

/-! ### The five answers of the collision rule -/

section Resolve

variable {mover o : Piece}

theorem resolve_self (hid : o.id = mover.id) :
    CollisionResolver.resolve mover (some o) = ⟨.VacatedCell, none⟩ := if_pos hid

theorem resolve_ally (hid : o.id ≠ mover.id) (hcol : o.color = mover.color) :
    CollisionResolver.resolve mover (some o) = ⟨.FriendlyBlocked, none⟩ := by
  unfold CollisionResolver.resolve
  dsimp only
  rw [if_neg hid, if_pos hcol]

theorem resolve_airborne (hid : o.id ≠ mover.id) (hcol : o.color ≠ mover.color)
    (hair : o.state = .Airborne) :
    CollisionResolver.resolve mover (some o) = ⟨.PassedThroughAirborne, none⟩ := by
  unfold CollisionResolver.resolve
  dsimp only
  rw [if_neg hid, if_neg hcol, if_pos hair]

theorem resolve_grounded_enemy (hid : o.id ≠ mover.id) (hcol : o.color ≠ mover.color)
    (hair : o.state ≠ .Airborne) :
    CollisionResolver.resolve mover (some o)
      = ⟨.EnemyCaptured, some { o with state := .Captured }⟩ := by
  unfold CollisionResolver.resolve
  dsimp only
  rw [if_neg hid, if_neg hcol, if_neg hair]

/-- A captured piece stood, grounded and hostile, on the destination. -/
theorem captured_of_resolve {c : Piece} {occ : Option Piece}
    (h : (CollisionResolver.resolve mover occ).captured_piece = some c) :
    ∃ o, occ = some o ∧ o.id ≠ mover.id ∧ o.color ≠ mover.color ∧ o.state ≠ .Airborne ∧
      c = { o with state := .Captured } := by
  cases occ with
  | none => cases h
  | some o =>
      unfold CollisionResolver.resolve at h
      dsimp only at h
      split_ifs at h with hid hcol hair
      exact ⟨o, rfl, hid, hcol, hair, (Option.some.inj h).symm⟩

end Resolve

/-! ## `resolve_arrival` does one of the two -/

/-- Putting the mover down works when its destination is empty, or is the cell it
is leaving. -/
theorem land_spec (board : Board) {m : Motion} (captured : Option Piece)
    (hs : board.in_bounds m.source) (hd : board.in_bounds m.destination)
    (hfree : board.piece_at m.destination = none ∨ m.destination = m.source) :
    ∃ board' e, land board m captured = .ok (board', ⟨e, true⟩) ∧
      board'.width = board.width ∧ board'.height = board.height ∧
      (∀ q, board'.piece_at q = if q = m.destination then some e.moved_piece
        else if q = m.source then none else board.piece_at q) ∧
      (e.moved_piece, e.was_promotion) = apply_pawn_promotion (arriving_piece m) board ∧
      e.source = m.source ∧ e.destination = m.destination ∧ e.kind = m.kind ∧
      e.captured_piece = captured := by
  -- promotion keeps the cell, so the piece is put down on the destination
  set arrived := (apply_pawn_promotion (arriving_piece m) board).1 with harrived
  have hcell : arrived.cell = m.destination := (promotion_fields (arriving_piece m) board).2.2.1
  have hremove : board.remove_piece m.source = .ok (board.set_cell m.source none) :=
    Board.remove_piece_ok_iff.mpr ⟨hs, rfl⟩
  have hempty : (board.set_cell m.source none).piece_at arrived.cell = none := by
    rw [hcell, Board.piece_at_set_cell hs]
    split_ifs with heq
    · rfl
    · exact hfree.resolve_right heq
  have hadd : (board.set_cell m.source none).add_piece arrived
      = .ok ((board.set_cell m.source none).set_cell arrived.cell (some arrived)) :=
    Board.add_piece_ok_iff.mpr ⟨by rw [hcell]; exact hd, hempty, rfl⟩
  refine ⟨(board.set_cell m.source none).set_cell arrived.cell (some arrived),
    ⟨arrived, m.source, m.destination, captured, m.kind,
      (apply_pawn_promotion (arriving_piece m) board).2, 0⟩, ?_, rfl, rfl, ?_, rfl, rfl, rfl, rfl,
    rfl⟩
  · unfold land
    rw [hremove]
    exact (bind_ok_iff _ _ _).mpr ⟨_, rfl, (bind_ok_iff _ _ _).mpr ⟨_, hadd, rfl⟩⟩
  · intro q
    rw [Board.piece_at_set_cell (by rw [hcell]; exact hd), hcell, Board.piece_at_set_cell hs]

/-- What both captures and pass-throughs do: clear the destination, then land. -/
theorem clear_and_land_spec {board : Board} {m : Motion} (captured : Option Piece)
    (hs : board.in_bounds m.source) (hd : board.in_bounds m.destination)
    (hcap : captured = (CollisionResolver.resolve m.moving_piece
      (board.piece_at m.destination)).captured_piece)
    (henemy : ∀ o, board.piece_at m.destination = some o → o.id ≠ m.id →
      o.color ≠ m.moving_piece.color) :
    ∃ board' e, (do
        let board ← board.remove_piece m.destination
        land board m captured) = .ok (board', ⟨e, true⟩) ∧ Landed board m board' e := by
  have hremove : board.remove_piece m.destination = .ok (board.set_cell m.destination none) :=
    Board.remove_piece_ok_iff.mpr ⟨hd, rfl⟩
  obtain ⟨board', e, hland, hw, hh, hread, hmoved, he1, he2, he3, he4⟩ :=
    land_spec (board.set_cell m.destination none) captured hs hd
      (.inl (by rw [Board.piece_at_set_cell hd, if_pos rfl]))
  refine ⟨board', e, ?_, hw, hh, fun q => ?_, hmoved, he1, he2, he3, he4.trans hcap, henemy⟩
  · rw [hremove]
    exact hland
  · rw [hread, Board.piece_at_set_cell hd]
    by_cases hq : q = m.destination
    · rw [if_pos hq, if_pos hq]
    · rw [if_neg hq, if_neg hq, if_neg hq]

/-- What a blocked arrival does: whatever stands at the source becomes idle. -/
theorem blocked_spec {board : Board} {m : Motion} {o : Piece} {rest : List Motion}
    (h : Sound board (m :: rest)) (ho : board.piece_at m.destination = some o)
    (hid : o.id ≠ m.id) (hcol : o.color = m.moving_piece.color) :
    ∃ board', (do
        let board ← board.set_piece_state m.source .Idle
        return (board, blocked_arrival m) : Except BoardError _) = .ok (board', blocked_arrival m) ∧
      Blocked board m board' (blocked_arrival m).event := by
  obtain ⟨x, hx⟩ : ∃ x, board.piece_at m.source = some x := by
    -- a jump finds the ally in its own cell; a move still stands on its source
    cases hk : m.kind with
    | JumpInPlace => exact ⟨o, by rw [← h.in_place m List.mem_cons_self hk]; exact ho⟩
    | Move =>
        obtain ⟨x, hx, _⟩ := h.mover m List.mem_cons_self hk
        exact ⟨x, hx⟩
  have hset : board.set_piece_state m.source .Idle
      = .ok (board.set_cell m.source (some x.stateless)) :=
    Board.set_piece_state_ok_iff.mpr ⟨x, hx, rfl⟩
  refine ⟨board.set_cell m.source (some x.stateless), ?_, rfl, rfl, ⟨x, hx, ?_⟩, rfl, rfl, rfl,
    rfl, rfl, o, ho, hid, hcol⟩
  · rw [hset]
    rfl
  · exact fun q => Board.piece_at_set_cell (h.source_in m List.mem_cons_self) _ q

/-- If the mover is found at its own destination, it is already standing there. -/
theorem Sound.destination_eq_source {board : Board} {m : Motion} {o : Piece} {rest : List Motion}
    (h : Sound board (m :: rest)) (ho : board.piece_at m.destination = some o)
    (hid : o.id = m.id) : m.destination = m.source := by
  cases hk : m.kind with
  | JumpInPlace => exact h.in_place m List.mem_cons_self hk
  | Move =>
      obtain ⟨x, hx, hxm, _⟩ := h.mover m List.mem_cons_self hk
      exact h.distinct _ _ _ _ ho hx (hid.trans (Piece.id_of_stateless hxm).symm)

/-- **The spec of `resolve_arrival`.** Under `Sound` it does not throw: the mover
lands, or an ally blocks it. -/
theorem resolve_arrival_spec {board : Board} {m : Motion} {rest : List Motion}
    (h : Sound board (m :: rest)) :
    ∃ board' r, resolve_arrival board m = .ok (board', r) ∧
      ((r.piece_actually_arrived = true ∧ Landed board m board' r.event) ∨
        (r = blocked_arrival m ∧ Blocked board m board' r.event)) := by
  have hs := h.source_in m List.mem_cons_self
  have hd := h.destination_in m List.mem_cons_self
  unfold resolve_arrival
  cases ho : board.piece_at m.destination with
  | none =>
      obtain ⟨board', e, hland, hw, hh, hread, hmoved, he1, he2, he3, he4⟩ :=
        land_spec board none hs hd (.inl ho)
      refine ⟨board', ⟨e, true⟩, hland, .inl ⟨rfl, hw, hh, hread, hmoved, he1, he2, he3, ?_, ?_⟩⟩
      · rw [he4, ho]
        rfl
      · intro o ho'
        rw [ho] at ho'
        cases ho'
  | some o =>
      have hinj : ∀ o', board.piece_at m.destination = some o' → o' = o := fun o' ho' =>
        Option.some.inj (ho'.symm.trans ho)
      -- the resolver's questions, in its order: itself, an ally, a piece in the air
      by_cases hid : o.id = m.id
      · rw [resolve_self hid]
        obtain ⟨board', e, hland, hw, hh, hread, hmoved, he1, he2, he3, he4⟩ :=
          land_spec board none hs hd (.inr (h.destination_eq_source ho hid))
        refine ⟨board', ⟨e, true⟩, hland, .inl ⟨rfl, hw, hh, hread, hmoved, he1, he2, he3, ?_, ?_⟩⟩
        · rw [he4, ho, resolve_self hid]
        · intro o' ho' hne
          rw [hinj o' ho'] at hne
          exact absurd hid hne
      · by_cases hcol : o.color = m.moving_piece.color
        · rw [resolve_ally hid hcol]
          obtain ⟨board', hrun, hblocked⟩ := blocked_spec h ho hid hcol
          exact ⟨board', blocked_arrival m, hrun, .inr ⟨rfl, hblocked⟩⟩
        · have henemy : ∀ o', board.piece_at m.destination = some o' → o'.id ≠ m.id →
              o'.color ≠ m.moving_piece.color := by
            intro o' ho' _
            rw [hinj o' ho']
            exact hcol
          by_cases hair : o.state = .Airborne
          · rw [resolve_airborne hid hcol hair]
            obtain ⟨board', e, hrun, hlanded⟩ := clear_and_land_spec none hs hd
              (by rw [ho, resolve_airborne hid hcol hair]) henemy
            exact ⟨board', ⟨e, true⟩, hrun, .inl ⟨rfl, hlanded⟩⟩
          · rw [resolve_grounded_enemy hid hcol hair]
            obtain ⟨board', e, hrun, hlanded⟩ := clear_and_land_spec
              (some { o with state := .Captured }) hs hd
              (by rw [ho, resolve_grounded_enemy hid hcol hair]) henemy
            exact ⟨board', ⟨e, true⟩, hrun, .inl ⟨rfl, hlanded⟩⟩

/-! ## `Sound` is kept -/

/-- Where the piece of the head motion stands, if it stands anywhere. -/
theorem Sound.at_source {board : Board} {m : Motion} {rest : List Motion} {q : Position} {x : Piece}
    (h : Sound board (m :: rest)) (hx : board.piece_at q = some x) (hid : x.id = m.id) :
    q = m.source := by
  cases hk : m.kind with
  | JumpInPlace => exact (h.jumper m List.mem_cons_self hk q x hx hid).1
  | Move =>
      obtain ⟨y, hy, hym, _⟩ := h.mover m List.mem_cons_self hk
      exact h.distinct _ _ _ _ hx hy (hid.trans (Piece.id_of_stateless hym).symm)

/-- After a landing, a cell that another motion's piece stands on is untouched. -/
theorem Landed.frame {board board' : Board} {m : Motion} {e : ArrivalEvent} {q : Position}
    {x : Piece} (hl : Landed board m board' e) (hx : board'.piece_at q = some x)
    (hid : x.id ≠ m.id) : board.piece_at q = some x := by
  rcases hl.read_cases hx with ⟨_, rfl⟩ | ⟨_, _, hold⟩
  · exact absurd hl.moved_id hid
  · exact hold

/-- **A landing keeps `Sound`** for the motions that are left, once the flights
of a captured piece are dropped. -/
theorem Sound.landed {board board' : Board} {m : Motion} {e : ArrivalEvent}
    {rest rest' : List Motion} (h : Sound board (m :: rest)) (hl : Landed board m board' e)
    (hsub : rest'.Sublist rest)
    (hkeep : ∀ m' ∈ rest', m'.kind = .Move → ∀ c, e.captured_piece = some c → c.id ≠ m'.id) :
    Sound board' rest' where
  distinct := by
    intro p q x y hx hy hxy
    by_cases hid : x.id = m.id
    · -- the moved piece left its source, so its id is on its destination only
      have hone : ∀ r z, board'.piece_at r = some z → z.id = m.id → r = m.destination := by
        intro r z hz hzid
        rcases hl.read_cases hz with ⟨hr, _⟩ | ⟨_, hr, hold⟩
        · exact hr
        · exact absurd (h.at_source hold hzid) hr
      rw [hone p x hx hid, hone q y hy (hxy.symm.trans hid)]
    · exact h.distinct p q x y (hl.frame hx hid)
        (hl.frame hy (fun hy' => hid (hxy.trans hy'))) hxy
  cell := by
    intro q x hx
    rcases hl.read_cases hx with ⟨rfl, rfl⟩ | ⟨_, _, hold⟩
    · exact hl.moved_cell
    · exact h.cell q x hold
  nodup := (h.sublist ((List.sublist_cons_self m rest))).nodup.sublist (hsub.map _)
  source_in m' hm' := (hl.in_bounds_iff _).mpr
    (h.source_in m' (List.mem_cons_of_mem _ (hsub.subset hm')))
  destination_in m' hm' := (hl.in_bounds_iff _).mpr
    (h.destination_in m' (List.mem_cons_of_mem _ (hsub.subset hm')))
  snapshot m' hm' := h.snapshot m' (List.mem_cons_of_mem _ (hsub.subset hm'))
  mover := by
    intro m' hm' hk
    have hne : m'.id ≠ m.id := h.id_ne (hsub.subset hm')
    obtain ⟨x, hx, hxm, hair⟩ := h.mover m' (List.mem_cons_of_mem _ (hsub.subset hm')) hk
    have hxid : x.id = m'.id := Piece.id_of_stateless hxm
    have hdest : m'.source ≠ m.destination := by
      -- standing on the destination it would have been captured
      intro heq
      rw [heq] at hx
      have hcap := hl.captured
      rw [hx, resolve_grounded_enemy (hxid.trans_ne hne) (hl.enemy x hx (hxid.trans_ne hne)) hair]
        at hcap
      exact hkeep m' hm' hk _ hcap hxid
    have hsource : m'.source ≠ m.source := by
      intro heq
      rw [heq] at hx
      cases hmk : m.kind with
      | JumpInPlace => exact hdest (heq.trans (h.in_place m List.mem_cons_self hmk).symm)
      | Move =>
          obtain ⟨y, hy, hym, _⟩ := h.mover m List.mem_cons_self hmk
          rw [hx] at hy
          exact hne (hxid.symm.trans (Option.some.inj hy ▸ Piece.id_of_stateless hym))
    exact ⟨x, by rw [hl.read, if_neg hdest, if_neg hsource]; exact hx, hxm, hair⟩
  in_place m' hm' := h.in_place m' (List.mem_cons_of_mem _ (hsub.subset hm'))
  jumper := by
    intro m' hm' hk q x hx hid
    have hne : m'.id ≠ m.id := h.id_ne (hsub.subset hm')
    exact h.jumper m' (List.mem_cons_of_mem _ (hsub.subset hm')) hk q x
      (hl.frame hx (hid.trans_ne hne)) hid

/-- What a blocked arrival changes is a piece's state, at the mover's source. -/
theorem Blocked.read_cases {board board' : Board} {m : Motion} {e : ArrivalEvent} {q : Position}
    {y : Piece} (hb : Blocked board m board' e) (hy : board'.piece_at q = some y) :
    board.piece_at q = some y ∨
      (q = m.source ∧ ∃ x, board.piece_at q = some x ∧ y = x.stateless) := by
  obtain ⟨x, hx, hread⟩ := hb.stays
  rw [hread] at hy
  split_ifs at hy with hq
  · exact .inr ⟨hq, x, by rw [hq]; exact hx, (Option.some.inj hy).symm⟩
  · exact .inl hy

/-- The same, up to the state. -/
theorem Blocked.read_stateless {board board' : Board} {m : Motion} {e : ArrivalEvent} {q : Position}
    {y : Piece} (hb : Blocked board m board' e) (hy : board'.piece_at q = some y) :
    ∃ x, board.piece_at q = some x ∧ y.stateless = x.stateless := by
  rcases hb.read_cases hy with hold | ⟨_, x, hx, rfl⟩
  · exact ⟨y, hold, rfl⟩
  · exact ⟨x, hx, rfl⟩

/-- **A blocked arrival keeps `Sound`.** -/
theorem Sound.blocked {board board' : Board} {m : Motion} {e : ArrivalEvent} {rest : List Motion}
    (h : Sound board (m :: rest)) (hb : Blocked board m board' e) : Sound board' rest where
  distinct := by
    intro p q x y hx hy hxy
    obtain ⟨x₀, hx₀, hxs⟩ := hb.read_stateless hx
    obtain ⟨y₀, hy₀, hys⟩ := hb.read_stateless hy
    exact h.distinct p q x₀ y₀ hx₀ hy₀
      ((Piece.id_of_stateless hxs).symm.trans (hxy.trans (Piece.id_of_stateless hys)))
  cell := by
    intro q x hx
    obtain ⟨x₀, hx₀, hxs⟩ := hb.read_stateless hx
    exact (Piece.cell_of_stateless hxs).trans (h.cell q x₀ hx₀)
  nodup := (h.sublist (List.sublist_cons_self m rest)).nodup
  source_in m' hm' := (hb.in_bounds_iff _).mpr (h.source_in m' (List.mem_cons_of_mem _ hm'))
  destination_in m' hm' :=
    (hb.in_bounds_iff _).mpr (h.destination_in m' (List.mem_cons_of_mem _ hm'))
  snapshot m' hm' := h.snapshot m' (List.mem_cons_of_mem _ hm')
  mover := by
    intro m' hm' hk
    obtain ⟨x, hx, hxm, hair⟩ := h.mover m' (List.mem_cons_of_mem _ hm') hk
    obtain ⟨y, hy, hread⟩ := hb.stays
    -- the piece the blocked mover leaves idle may be another motion's, if it jumped there
    by_cases hs : m'.source = m.source
    · have hxy : y = x := Option.some.inj (hy.symm.trans (by rw [← hs]; exact hx))
      refine ⟨y.stateless, by rw [hread, if_pos hs], by rw [hxy]; exact hxm, ?_⟩
      exact PieceState.noConfusion
    · exact ⟨x, by rw [hread, if_neg hs]; exact hx, hxm, hair⟩
  in_place m' hm' := h.in_place m' (List.mem_cons_of_mem _ hm')
  jumper := by
    intro m' hm' hk q x hx hid
    obtain ⟨x₀, hx₀, hxs⟩ := hb.read_stateless hx
    obtain ⟨hq, hx₀m⟩ := h.jumper m' (List.mem_cons_of_mem _ hm') hk q x₀ hx₀
      ((Piece.id_of_stateless hxs).symm.trans hid)
    exact ⟨hq, hxs.trans hx₀m⟩

/-! ## A motion starts -/

/-- `motion` sets out from the cell `x` stands on, on board `board`. -/
structure Starts (board : Board) (motion : Motion) (x : Piece) : Prop where
  at_source : board.piece_at motion.source = some x
  snapshot : motion.moving_piece = x
  destination_in : board.in_bounds motion.destination
  in_place : motion.kind = .JumpInPlace → motion.destination = motion.source
  elapsed : motion.elapsed_ms = 0
  duration : 0 ≤ motion.duration_ms

/-- The board once `motion` has started. -/
def board_after_start (board : Board) (motion : Motion) (x : Piece) : Board :=
  board.set_cell motion.source (some { x with state := starting_state motion.kind })

theorem Starts.read {board : Board} {motion : Motion} {x : Piece} (hs : Starts board motion x)
    (q : Position) : (board_after_start board motion x).piece_at q
      = if q = motion.source then some { x with state := starting_state motion.kind }
        else board.piece_at q :=
  Board.piece_at_set_cell (Board.in_bounds_of_piece_at hs.at_source) _ q

theorem Starts.read_cases {board : Board} {motion : Motion} {x y : Piece} {q : Position}
    (hs : Starts board motion x) (hy : (board_after_start board motion x).piece_at q = some y) :
    (q = motion.source ∧ y = { x with state := starting_state motion.kind }) ∨
      (q ≠ motion.source ∧ board.piece_at q = some y) := by
  rw [hs.read] at hy
  split_ifs at hy with hq
  · exact .inl ⟨hq, (Option.some.inj hy).symm⟩
  · exact .inr ⟨hq, hy⟩

theorem Starts.read_stateless {board : Board} {motion : Motion} {x y : Piece} {q : Position}
    (hs : Starts board motion x) (hy : (board_after_start board motion x).piece_at q = some y) :
    ∃ z, board.piece_at q = some z ∧ y.stateless = z.stateless := by
  rcases hs.read_cases hy with ⟨rfl, rfl⟩ | ⟨_, hold⟩
  · exact ⟨x, hs.at_source, rfl⟩
  · exact ⟨y, hold, rfl⟩

/-- **Starting the motion of a piece that has none keeps `Sound`.** -/
theorem Sound.starts {board : Board} {motions : List Motion} {motion : Motion} {x : Piece}
    (h : Sound board motions) (hs : Starts board motion x)
    (hfree : ∀ m ∈ motions, m.id ≠ x.id) :
    Sound (board_after_start board motion x) (motions ++ [motion]) where
  distinct := by
    intro p q y z hy hz hyz
    obtain ⟨y₀, hy₀, hys⟩ := hs.read_stateless hy
    obtain ⟨z₀, hz₀, hzs⟩ := hs.read_stateless hz
    exact h.distinct p q y₀ z₀ hy₀ hz₀
      ((Piece.id_of_stateless hys).symm.trans (hyz.trans (Piece.id_of_stateless hzs)))
  cell := by
    intro q y hy
    obtain ⟨y₀, hy₀, hys⟩ := hs.read_stateless hy
    exact (Piece.cell_of_stateless hys).trans (h.cell q y₀ hy₀)
  nodup := by
    rw [List.map_append, List.map_singleton]
    -- the piece that starts was not under way
    refine List.nodup_append.mpr ⟨h.nodup, List.nodup_singleton _, ?_⟩
    intro i hi j hj heq
    obtain ⟨m, hm, rfl⟩ := List.mem_map.mp hi
    rw [List.mem_singleton] at hj
    exact hfree m hm (heq.trans (hj.trans (congrArg Piece.id hs.snapshot)))
  source_in := by
    intro m hm
    rcases List.mem_append.mp hm with hm | hm
    · exact h.source_in m hm
    · rw [List.mem_singleton.mp hm]
      exact (Board.in_bounds_set_cell _ _ _ _).mpr (Board.in_bounds_of_piece_at hs.at_source)
  destination_in := by
    intro m hm
    rcases List.mem_append.mp hm with hm | hm
    · exact h.destination_in m hm
    · rw [List.mem_singleton.mp hm]
      exact hs.destination_in
  snapshot := by
    intro m hm
    rcases List.mem_append.mp hm with hm | hm
    · exact h.snapshot m hm
    · rw [List.mem_singleton.mp hm, hs.snapshot]
      exact h.cell _ _ hs.at_source
  mover := by
    intro m hm hk
    rcases List.mem_append.mp hm with hm | hm
    · obtain ⟨y, hy, hym, hair⟩ := h.mover m hm hk
      -- a piece that is under way is not the one that starts
      have hne : m.source ≠ motion.source := by
        intro heq
        rw [heq, hs.at_source] at hy
        exact hfree m hm ((Piece.id_of_stateless hym).symm.trans
          (congrArg Piece.id (Option.some.inj hy)).symm)
      exact ⟨y, by rw [hs.read, if_neg hne]; exact hy, hym, hair⟩
    · obtain rfl := List.mem_singleton.mp hm
      refine ⟨_, by rw [hs.read, if_pos rfl], by rw [hs.snapshot]; rfl, ?_⟩
      rw [hk]
      exact PieceState.noConfusion
  in_place := by
    intro m hm hk
    rcases List.mem_append.mp hm with hm | hm
    · exact h.in_place m hm hk
    · obtain rfl := List.mem_singleton.mp hm
      exact hs.in_place hk
  jumper := by
    intro m hm hk q y hy hid
    obtain ⟨z, hz, hyz⟩ := hs.read_stateless hy
    have hzid : z.id = y.id := (Piece.id_of_stateless hyz).symm
    rcases List.mem_append.mp hm with hm | hm
    · obtain ⟨hq, hzm⟩ := h.jumper m hm hk q z hz (hzid.trans hid)
      exact ⟨hq, hyz.trans hzm⟩
    · obtain rfl := List.mem_singleton.mp hm
      have hq : q = m.source := h.distinct _ _ _ _ hz hs.at_source
        (hzid.trans (hid.trans (congrArg Piece.id hs.snapshot)))
      rw [hq, hs.at_source] at hz
      exact ⟨hq, by rw [hyz, hs.snapshot, Option.some.inj hz]⟩

/-- `start_motion` succeeds and does just that. -/
theorem start_motion_spec {a : RealTimeArbiter} {motion : Motion} {x : Piece}
    (hs : Starts a.board motion x) :
    a.start_motion motion = .ok { a with
      board := board_after_start a.board motion x
      active_motions := a.active_motions ++ [motion] } := by
  have hset : a.board.set_piece_state motion.source (starting_state motion.kind)
      = .ok (board_after_start a.board motion x) :=
    Board.set_piece_state_ok_iff.mpr ⟨x, hs.at_source, rfl⟩
  unfold start_motion
  rw [hset]
  rfl

end KungFuChess
