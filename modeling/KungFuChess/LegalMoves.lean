/-
**The rules accept exactly the legal moves.**

`Legal` says which moves the pieces have, over a board without edges: a rook goes
along an open row or column, a knight by one of its jumps, and so on; the board
only has to contain both ends. `validate_move` builds lists of destinations
instead, with rays that stop at the edge and at the first piece. That the two
agree comes down to one fact for each generator: what is on a ray
(`mem_sliding_ray`), and that a line between two cells of a board does not leave it.
-/
import KungFuChess.Rules
import Mathlib.Tactic.Linarith

set_option autoImplicit false

namespace KungFuChess

/-! ## Legal moves -/

/-- The cell `n` steps away. -/
def Position.after (p : Position) (step : Int × Int) (n : Nat) : Position :=
  ⟨p.row + n * step.1, p.col + n * step.2⟩

/-- How far it is from one cell to another. -/
def Position.offset_to (p q : Position) : Int × Int := (q.row - p.row, q.col - p.col)

def Straight (step : Int × Int) : Prop := step.1.natAbs + step.2.natAbs = 1

def Diagonal (step : Int × Int) : Prop := step.1.natAbs = 1 ∧ step.2.natAbs = 1

/-- The destination lies on one of the lines through the source, and nothing stands
between the two. -/
def OnOpenLine (board : Board) (line : Int × Int → Prop) (source destination : Position) : Prop :=
  ∃ step, line step ∧ ∃ n : Nat, 1 ≤ n ∧ destination = source.after step n ∧
    ∀ k, 1 ≤ k → k < n → board.piece_at (source.after step k) = none

/-- A king goes one cell in any direction. -/
def KingStep (offset : Int × Int) : Prop :=
  offset ≠ (0, 0) ∧ offset.1.natAbs ≤ 1 ∧ offset.2.natAbs ≤ 1

def KnightStep (offset : Int × Int) : Prop :=
  (offset.1.natAbs = 1 ∧ offset.2.natAbs = 2) ∨ (offset.1.natAbs = 2 ∧ offset.2.natAbs = 1)

/-- A drone goes one or two cells along a row or a column, over anything. -/
def DroneStep (offset : Int × Int) : Prop :=
  (offset.1 = 0 ∧ (offset.2.natAbs = 1 ∨ offset.2.natAbs = 2)) ∨
    (offset.2 = 0 ∧ (offset.1.natAbs = 1 ∨ offset.1.natAbs = 2))

/-- Which way a pawn goes: white towards row 0, black away from it. -/
def PieceColor.forward : PieceColor → Int × Int
  | .White => (-1, 0)
  | .Black => (1, 0)

/-- An enemy of the colour stands there. -/
def EnemyAt (board : Board) (color : PieceColor) (pos : Position) : Prop :=
  ∃ x, board.piece_at pos = some x ∧ x.color ≠ color

inductive PawnMove (board : Board) (p : Piece) (source : Position) : Position → Prop
  | forward (free : board.piece_at (source.after p.color.forward 1) = none) :
      PawnMove board p source (source.after p.color.forward 1)
  | double (unmoved : p.has_moved = false)
      (passed : board.piece_at (source.after p.color.forward 1) = none)
      (free : board.piece_at (source.after p.color.forward 2) = none) :
      PawnMove board p source (source.after p.color.forward 2)
  | takes (destination : Position)
      (row : (source.offset_to destination).1 = p.color.forward.1)
      (col : (source.offset_to destination).2.natAbs = 1)
      (enemy : EnemyAt board p.color destination) : PawnMove board p source destination

/-- How each kind of piece moves. -/
def Reaches (board : Board) (p : Piece) (source destination : Position) : Prop :=
  match p.kind with
  | .Rook => OnOpenLine board Straight source destination
  | .Bishop => OnOpenLine board Diagonal source destination
  | .Queen => OnOpenLine board (fun step => Straight step ∨ Diagonal step) source destination
  | .King => KingStep (source.offset_to destination)
  | .Knight => KnightStep (source.offset_to destination)
  | .Drone => DroneStep (source.offset_to destination)
  | .Pawn => PawnMove board p source destination

/-- A legal move. -/
structure Legal (board : Board) (source destination : Position) : Prop where
  source_in : board.in_bounds source
  destination_in : board.in_bounds destination
  moves : ∃ p, board.piece_at source = some p ∧ Reaches board p source destination ∧
    ∀ x, board.piece_at destination = some x → x.color ≠ p.color

/-! ## Lines on a board -/

@[simp] theorem Position.after_zero (p : Position) (step : Int × Int) : p.after step 0 = p := by
  simp [Position.after]

theorem Position.after_after (p : Position) (step : Int × Int) (n k : Nat) :
    (p.after step n).after step k = p.after step (n + k) := by
  unfold Position.after
  rw [Position.mk.injEq]
  push_cast
  constructor <;> ring

theorem Position.after_one (p : Position) (step : Int × Int) :
    p.after step 1 = ⟨p.row + step.1, p.col + step.2⟩ := by
  simp [Position.after]

/-- A number on the way lies between the two ends. -/
theorem between_ends {a s lo hi : Int} {k n : Nat} (hk : k ≤ n) (hlo : lo ≤ a) (hhi : a < hi)
    (hlo' : lo ≤ a + n * s) (hhi' : a + n * s < hi) : lo ≤ a + k * s ∧ a + k * s < hi := by
  have hk' : (k : Int) ≤ n := by exact_mod_cast hk
  rcases le_total 0 s with hs | hs
  · have hup : (k : Int) * s ≤ n * s := Int.mul_le_mul_of_nonneg_right hk' hs
    have hpos : 0 ≤ (k : Int) * s := Int.mul_nonneg (Int.natCast_nonneg k) hs
    omega
  · have hdown : (n : Int) * s ≤ k * s := Int.mul_le_mul_of_nonpos_right hk' hs
    have hneg : (k : Int) * s ≤ 0 := Int.mul_nonpos_of_nonneg_of_nonpos (Int.natCast_nonneg k) hs
    omega

/-- A line between two cells of a board does not leave it. -/
theorem Board.in_bounds_between {board : Board} {p : Position} {step : Int × Int} {k n : Nat}
    (hk : k ≤ n) (hp : board.in_bounds p) (hq : board.in_bounds (p.after step n)) :
    board.in_bounds (p.after step k) := by
  obtain ⟨p1, p2, p3, p4⟩ := hp
  obtain ⟨q1, q2, q3, q4⟩ := hq
  obtain ⟨r1, r2⟩ := between_ends hk p1 p2 q1 q2
  obtain ⟨c1, c2⟩ := between_ends hk p3 p4 q3 q4
  exact ⟨r1, r2, c1, c2⟩

/-- A number of steps that is not absorbed is at least one cell each. -/
theorem le_natAbs_mul {s : Int} (hs : s ≠ 0) (n : Nat) : n ≤ ((n : Int) * s).natAbs := by
  rw [Int.natAbs_mul, Int.natAbs_natCast]
  exact Nat.le_mul_of_pos_right n (Int.natAbs_pos.mpr hs)

/-- No line is longer than the board. -/
theorem Board.line_lt {board : Board} {p : Position} {step : Int × Int} {n : Nat}
    (hstep : step ≠ (0, 0)) (hp : board.in_bounds p) (hq : board.in_bounds (p.after step n)) :
    n < board.width + board.height := by
  obtain ⟨p1, p2, p3, p4⟩ := hp
  obtain ⟨q1, q2, q3, q4⟩ := hq
  dsimp only [Position.after] at q1 q2 q3 q4
  by_cases hrow : step.1 = 0
  · have hcol : step.2 ≠ 0 := by
      intro hcol
      exact hstep (Prod.ext hrow hcol)
    have hlong := le_natAbs_mul hcol n
    omega
  · have hlong := le_natAbs_mul hrow n
    omega

/-! ## What the generators generate -/

/-- No ally of the piece stands there. -/
def NoAlly (board : Board) (piece : Piece) (pos : Position) : Prop :=
  ∀ x, board.piece_at pos = some x → x.color ≠ piece.color

/-- The cells from `current` on, up to the first piece, and that one if it can be taken. -/
def OnRay (board : Board) (piece : Piece) (step : Int × Int) (fuel : Nat)
    (current q : Position) : Prop :=
  ∃ n < fuel, q = current.after step n ∧ (∀ k ≤ n, board.in_bounds (current.after step k)) ∧
    (∀ k < n, board.piece_at (current.after step k) = none) ∧ NoAlly board piece q

section Ray

variable {board : Board} {piece : Piece} {step : Int × Int} {fuel : Nat} {current q : Position}

theorem OnRay.here (hin : board.in_bounds current) (hally : NoAlly board piece current) :
    OnRay board piece step (fuel + 1) current current := by
  refine ⟨0, Nat.succ_pos fuel, (current.after_zero step).symm, ?_, ?_, hally⟩
  · intro k hk
    rw [Nat.le_zero.mp hk, Position.after_zero]
    exact hin
  · intro k hk
    exact absurd hk (Nat.not_lt_zero k)

/-- One step later on the same line. -/
theorem after_one_after (p : Position) (step : Int × Int) (k : Nat) :
    (p.after step 1).after step k = p.after step (k + 1) := by
  rw [Position.after_after, Nat.add_comm]

theorem OnRay.further (hin : board.in_bounds current) (hfree : board.piece_at current = none)
    (h : OnRay board piece step fuel (current.after step 1) q) :
    OnRay board piece step (fuel + 1) current q := by
  obtain ⟨n, hn, hq, hins, hnone, hally⟩ := h
  refine ⟨n + 1, Nat.succ_lt_succ hn, hq.trans (after_one_after current step n), ?_, ?_, hally⟩
  · intro k hk
    cases k with
    | zero => simpa using hin
    | succ k =>
        rw [← after_one_after]
        exact hins k (Nat.le_of_succ_le_succ hk)
  · intro k hk
    cases k with
    | zero => simpa using hfree
    | succ k =>
        rw [← after_one_after]
        exact hnone k (Nat.lt_of_succ_lt_succ hk)

theorem OnRay.uncons (h : OnRay board piece step (fuel + 1) current q) :
    board.in_bounds current ∧ ((q = current ∧ NoAlly board piece current) ∨
      (board.piece_at current = none ∧ OnRay board piece step fuel (current.after step 1) q)) := by
  obtain ⟨n, hn, hq, hins, hnone, hally⟩ := h
  have hin : board.in_bounds current := by simpa using hins 0 (Nat.zero_le n)
  refine ⟨hin, ?_⟩
  cases n with
  | zero =>
      rw [Position.after_zero] at hq
      rw [hq] at hally
      exact .inl ⟨hq, hally⟩
  | succ n =>
      have hfree : board.piece_at current = none := by simpa using hnone 0 (Nat.succ_pos n)
      refine .inr ⟨hfree, n, Nat.lt_of_succ_lt_succ hn, ?_, ?_, ?_, hally⟩
      · exact hq.trans (after_one_after current step n).symm
      · intro k hk
        rw [after_one_after]
        exact hins (k + 1) (Nat.succ_le_succ hk)
      · intro k hk
        rw [after_one_after]
        exact hnone (k + 1) (Nat.succ_lt_succ hk)

end Ray

/-- **What is on a ray.** -/
theorem mem_sliding_ray {board : Board} {piece : Piece} {step : Int × Int} {q : Position} :
    ∀ {fuel : Nat} {current : Position},
      q ∈ sliding_ray board piece step fuel current ↔ OnRay board piece step fuel current q := by
  intro fuel
  induction fuel with
  | zero =>
      intro current
      simp [sliding_ray, OnRay]
  | succ fuel ih =>
      intro current
      rw [sliding_ray]
      by_cases hin : board.in_bounds current
      · rw [if_pos hin]
        cases hx : board.piece_at current with
        | none =>
            have hally : NoAlly board piece current := by
              intro x hqx
              rw [hx] at hqx
              cases hqx
            dsimp only
            rw [List.mem_cons, ih, ← Position.after_one]
            constructor
            · rintro (rfl | hfurther)
              · exact .here hin hally
              · exact hfurther.further hin hx
            · intro h
              rcases h.uncons.2 with ⟨hq, _⟩ | ⟨_, hfurther⟩
              · exact .inl hq
              · exact .inr hfurther
        | some occupant =>
            have hally : NoAlly board piece current ↔ occupant.color ≠ piece.color := by
              unfold NoAlly
              simp [hx]
            dsimp only
            constructor
            · intro hq
              split_ifs at hq with hcolor
              · rw [List.mem_singleton.mp hq]
                exact .here hin (hally.mpr hcolor)
              · cases hq
            · intro h
              rcases h.uncons.2 with ⟨rfl, hcolor⟩ | ⟨hfree, _⟩
              · rw [if_pos (hally.mp hcolor)]
                exact List.mem_singleton_self _
              · rw [hx] at hfree
                cases hfree
      · rw [if_neg hin]
        constructor
        · intro hq
          cases hq
        · intro h
          exact absurd h.uncons.1 hin

section Generators

variable {board : Board} {piece : Piece} {q : Position}

/-- **Sliding** along every line of a table. -/
theorem mem_sliding_destinations {directions : List (Int × Int)} {line : Int × Int → Prop}
    (hline : ∀ step, step ∈ directions ↔ line step) (hmoves : ¬ line (0, 0))
    (hp : board.in_bounds piece.cell) (hq : board.in_bounds q) (hally : NoAlly board piece q) :
    q ∈ sliding_destinations board piece directions ↔ OnOpenLine board line piece.cell q := by
  unfold sliding_destinations
  rw [List.mem_flatMap]
  constructor
  · rintro ⟨step, hstep, hray⟩
    rw [← Position.after_one, mem_sliding_ray] at hray
    obtain ⟨n, _, hat, _, hnone, _⟩ := hray
    refine ⟨step, (hline step).mp hstep, n + 1, Nat.succ_pos n, ?_, ?_⟩
    · exact hat.trans (after_one_after piece.cell step n)
    · intro k hk hkn
      obtain ⟨j, rfl⟩ := Nat.exists_eq_succ_of_ne_zero (Nat.one_le_iff_ne_zero.mp hk)
      have hfree := hnone j (Nat.lt_of_succ_lt_succ hkn)
      rwa [after_one_after] at hfree
  · rintro ⟨step, hstep, n, hn, hat, hnone⟩
    refine ⟨step, (hline step).mpr hstep, ?_⟩
    rw [← Position.after_one, mem_sliding_ray]
    obtain ⟨n, rfl⟩ := Nat.exists_eq_succ_of_ne_zero (Nat.one_le_iff_ne_zero.mp hn)
    have hend : board.in_bounds (piece.cell.after step (n + 1)) := by
      rw [← hat]
      exact hq
    have hne : step ≠ (0, 0) := by
      rintro rfl
      exact hmoves hstep
    refine ⟨n, Nat.lt_of_succ_lt (Board.line_lt hne hp hend), ?_, ?_, ?_, hally⟩
    · exact hat.trans (after_one_after piece.cell step n).symm
    · intro k hk
      rw [after_one_after]
      exact Board.in_bounds_between (Nat.succ_le_succ hk) hp hend
    · intro k hk
      rw [after_one_after]
      exact hnone (k + 1) (Nat.succ_pos k) (Nat.succ_lt_succ hk)

/-- **Stepping** by every offset of a table. -/
theorem mem_stepping_destinations {offsets : List (Int × Int)}
    (hq : board.in_bounds q) (hally : NoAlly board piece q) :
    q ∈ stepping_destinations board piece offsets ↔ piece.cell.offset_to q ∈ offsets := by
  unfold stepping_destinations
  rw [List.mem_filterMap]
  constructor
  · rintro ⟨offset, hoffset, hsome⟩
    dsimp only at hsome
    have hat : (⟨piece.cell.row + offset.1, piece.cell.col + offset.2⟩ : Position) = q := by
      split_ifs at hsome
      split at hsome
      · split_ifs at hsome
        exact Option.some.inj hsome
      · exact Option.some.inj hsome
    have hsame : piece.cell.offset_to q = offset := by
      rw [← hat]
      unfold Position.offset_to
      simp
    rw [hsame]
    exact hoffset
  · intro hoffset
    have hat : (⟨piece.cell.row + (piece.cell.offset_to q).1,
        piece.cell.col + (piece.cell.offset_to q).2⟩ : Position) = q := by
      unfold Position.offset_to
      simp
    refine ⟨piece.cell.offset_to q, hoffset, ?_⟩
    dsimp only
    rw [hat, if_neg (not_not.mpr hq)]
    cases hx : board.piece_at q with
    | none => rfl
    | some occupant => exact if_neg (hally occupant hx)

end Generators

/-! ## The tables -/

theorem mem_rook_directions (step : Int × Int) : step ∈ kRookDirections ↔ Straight step := by
  unfold Straight
  simp only [kRookDirections, List.mem_cons, List.not_mem_nil, or_false, Prod.ext_iff]
  omega

theorem mem_bishop_directions (step : Int × Int) : step ∈ kBishopDirections ↔ Diagonal step := by
  unfold Diagonal
  simp only [kBishopDirections, List.mem_cons, List.not_mem_nil, or_false, Prod.ext_iff]
  omega

theorem mem_queen_directions (step : Int × Int) :
    step ∈ kQueenDirections ↔ Straight step ∨ Diagonal step := by
  rw [← mem_rook_directions, ← mem_bishop_directions, ← List.mem_append]
  rfl

theorem mem_king_offsets (offset : Int × Int) : offset ∈ kKingOffsets ↔ KingStep offset := by
  unfold KingStep
  simp only [kKingOffsets, List.mem_cons, List.not_mem_nil, or_false, Prod.ext_iff, ne_eq]
  omega

theorem mem_knight_offsets (offset : Int × Int) :
    offset ∈ kKnightOffsets ↔ KnightStep offset := by
  unfold KnightStep
  simp only [kKnightOffsets, List.mem_cons, List.not_mem_nil, or_false, Prod.ext_iff]
  omega

theorem mem_drone_offsets (offset : Int × Int) : offset ∈ kDroneOffsets ↔ DroneStep offset := by
  unfold DroneStep
  simp only [kDroneOffsets, List.mem_cons, List.not_mem_nil, or_false, Prod.ext_iff]
  omega

/-! ## The pawn -/

section Pawn

variable {board : Board} {piece : Piece} {q : Position}

/-- The source's `forward_step`. -/
theorem forward_step (color : PieceColor) :
    (if color = .White then (-1 : Int) else 1) = color.forward.1 := by
  cases color <;> rfl

theorem forward_col (color : PieceColor) : color.forward.2 = 0 := by
  cases color <;> rfl

theorem pawn_forward (piece : Piece) :
    (⟨piece.cell.row + piece.color.forward.1, piece.cell.col⟩ : Position) =
      piece.cell.after piece.color.forward 1 := by
  rw [Position.after_one, forward_col, Int.add_zero]

theorem pawn_double_forward (piece : Piece) :
    (⟨piece.cell.row + 2 * piece.color.forward.1, piece.cell.col⟩ : Position) =
      piece.cell.after piece.color.forward 2 := by
  unfold Position.after
  rw [forward_col, Int.mul_zero, Int.add_zero]
  rfl

/-- The cells a pawn takes on are the two beside the one before it. -/
theorem pawn_diagonal {row col_offset : Int} :
    (⟨piece.cell.row + row, piece.cell.col + col_offset⟩ : Position) = q ↔
      (piece.cell.offset_to q).1 = row ∧ (piece.cell.offset_to q).2 = col_offset := by
  cases q
  unfold Position.offset_to
  rw [Position.mk.injEq]
  dsimp only
  omega

/-- **A pawn's destinations.** -/
theorem mem_pawn_destinations (hp : board.in_bounds piece.cell) (hq : board.in_bounds q) :
    q ∈ pawn_destinations board piece ↔ PawnMove board piece piece.cell q := by
  unfold pawn_destinations
  simp only [forward_step, pawn_forward, pawn_double_forward, List.mem_append, List.mem_filterMap,
    Option.isNone_iff_eq_none]
  constructor
  · rintro (hstraight | ⟨col_offset, hcol, hdiagonal⟩)
    · split_ifs at hstraight with hclear hdouble
      · rcases List.mem_cons.mp hstraight with rfl | hsecond
        · exact .forward hclear.2
        · rw [List.mem_singleton.mp hsecond]
          exact .double (by simpa using hdouble.1) hclear.2 hdouble.2.2
      · rw [List.mem_singleton.mp hstraight]
        exact .forward hclear.2
      · cases hstraight
    · split_ifs at hdiagonal
      split at hdiagonal
      · rename_i occupant hoccupant
        split_ifs at hdiagonal with hcolor
        have hat := Option.some.inj hdiagonal
        rw [hat] at hoccupant
        obtain ⟨hrow, hoffset⟩ := pawn_diagonal.mp hat
        refine .takes q hrow ?_ ⟨occupant, hoccupant, hcolor⟩
        have htwo : col_offset = -1 ∨ col_offset = 1 := by simpa using hcol
        omega
      · cases hdiagonal
  · intro hmove
    cases hmove with
    | forward free =>
        refine .inl ?_
        rw [if_pos ⟨hq, free⟩]
        exact List.mem_cons_self
    | double unmoved passed free =>
        have hbetween := Board.in_bounds_between (Nat.le_succ 1) hp hq
        refine .inl ?_
        rw [if_pos ⟨hbetween, passed⟩, if_pos ⟨by simp [unmoved], hq, free⟩]
        exact List.mem_cons_of_mem _ (List.mem_singleton_self _)
    | takes _ row col enemy =>
        obtain ⟨occupant, hoccupant, hcolor⟩ := enemy
        refine .inr ⟨(piece.cell.offset_to q).2, ?_, ?_⟩
        · have htwo : (piece.cell.offset_to q).2 = -1 ∨ (piece.cell.offset_to q).2 = 1 := by
            omega
          simpa using htwo
        · rw [pawn_diagonal.mpr ⟨row, rfl⟩, if_neg (not_not.mpr hq), hoccupant]
          exact if_pos hcolor

end Pawn

/-! ## The rules -/

/-- **Each rule generates what its piece reaches.** -/
theorem mem_rule_for {board : Board} {piece : Piece} {q : Position}
    (hp : board.in_bounds piece.cell) (hq : board.in_bounds q) (hally : NoAlly board piece q) :
    q ∈ rule_for piece.kind board piece ↔ Reaches board piece piece.cell q := by
  unfold Reaches
  cases piece.kind with
  | Rook =>
      exact mem_sliding_destinations mem_rook_directions (by simp [Straight]) hp hq hally
  | Bishop =>
      exact mem_sliding_destinations mem_bishop_directions (by simp [Diagonal]) hp hq hally
  | Queen =>
      exact mem_sliding_destinations mem_queen_directions (by simp [Straight, Diagonal]) hp hq hally
  | King => exact (mem_stepping_destinations hq hally).trans (mem_king_offsets _)
  | Knight => exact (mem_stepping_destinations hq hally).trans (mem_knight_offsets _)
  | Drone => exact (mem_stepping_destinations hq hally).trans (mem_drone_offsets _)
  | Pawn => exact mem_pawn_destinations hp hq

/-- `validate_move`'s test for an ally on the destination. -/
theorem any_ally_iff {board : Board} {moving : Piece} {destination : Position} :
    (board.piece_at destination).any (fun occupant => occupant.color = moving.color) = true ↔
      ¬ NoAlly board moving destination := by
  unfold NoAlly
  cases board.piece_at destination <;> simp

/-- Every stored piece carries its own cell. -/
def Board.CarriesCells (board : Board) : Prop :=
  ∀ pos x, board.piece_at pos = some x → x.cell = pos

/-- What `validate_move` checks, one check at a time. -/
theorem validate_move_iff {board : Board} {source destination : Position} :
    (validate_move board source destination).is_valid = true ↔
      board.in_bounds source ∧ board.in_bounds destination ∧
        ∃ moving, board.piece_at source = some moving ∧ NoAlly board moving destination ∧
          destination ∈ rule_for moving.kind board moving := by
  unfold validate_move
  by_cases hin : ¬ board.in_bounds source ∨ ¬ board.in_bounds destination
  · rw [if_pos hin]
    refine iff_of_false Bool.false_ne_true ?_
    rintro ⟨hs, hd, _⟩
    exact hin.elim (absurd hs) (absurd hd)
  · rw [if_neg hin]
    obtain ⟨hs, hd⟩ := not_or.mp hin
    rw [not_not] at hs hd
    cases board.piece_at source with
    | none => simp
    | some moving =>
        dsimp only
        by_cases hally : NoAlly board moving destination
        · rw [if_neg (any_ally_iff.not.mpr (not_not.mpr hally))]
          by_cases hmem : destination ∈ rule_for moving.kind board moving
          · rw [if_neg (not_not.mpr hmem)]
            exact iff_of_true rfl ⟨hs, hd, moving, rfl, hally, hmem⟩
          · rw [if_pos hmem]
            refine iff_of_false Bool.false_ne_true ?_
            rintro ⟨_, _, p, hp, _, hp'⟩
            cases hp
            exact hmem hp'
        · rw [if_pos (any_ally_iff.mpr hally)]
          refine iff_of_false Bool.false_ne_true ?_
          rintro ⟨_, _, p, hp, hp', _⟩
          cases hp
          exact hally hp'

/-! ## No piece stays where it is -/

theorem Position.offset_to_self (p : Position) : p.offset_to p = (0, 0) := by
  simp [Position.offset_to]

/-- A line leaves the cell it starts from. -/
theorem Position.after_ne {p : Position} {step : Int × Int} {n : Nat} (hstep : step ≠ (0, 0))
    (hn : 1 ≤ n) : p.after step n ≠ p := by
  intro heq
  cases p
  unfold Position.after at heq
  rw [Position.mk.injEq] at heq
  have hn' : (n : Int) ≠ 0 := by omega
  have hrow : (n : Int) * step.1 = 0 := by
    have := heq.1
    dsimp only at this
    omega
  have hcol : (n : Int) * step.2 = 0 := by
    have := heq.2
    dsimp only at this
    omega
  exact hstep (Prod.ext ((Int.mul_eq_zero.mp hrow).resolve_left hn')
    ((Int.mul_eq_zero.mp hcol).resolve_left hn'))

theorem OnOpenLine.ne {board : Board} {line : Int × Int → Prop} {source destination : Position}
    (hmoves : ¬ line (0, 0)) (h : OnOpenLine board line source destination) :
    destination ≠ source := by
  obtain ⟨step, hstep, n, hn, rfl, _⟩ := h
  refine Position.after_ne ?_ hn
  rintro rfl
  exact hmoves hstep

theorem PieceColor.forward_ne (color : PieceColor) : color.forward.1 ≠ 0 := by
  cases color <;> decide

theorem PawnMove.ne {board : Board} {p : Piece} {source destination : Position}
    (h : PawnMove board p source destination) : destination ≠ source := by
  have hstep : p.color.forward ≠ (0, 0) := by
    intro h0
    exact p.color.forward_ne (congrArg Prod.fst h0)
  cases h with
  | forward => exact Position.after_ne hstep (le_refl 1)
  | double => exact Position.after_ne hstep one_le_two
  | takes _ row =>
      rintro rfl
      rw [Position.offset_to_self] at row
      exact p.color.forward_ne row.symm

/-- No table has the offset that goes nowhere. -/
theorem offset_ne {step : Int × Int → Prop} {source destination : Position}
    (hmoves : ¬ step (0, 0)) (h : step (source.offset_to destination)) :
    destination ≠ source := by
  rintro rfl
  rw [Position.offset_to_self] at h
  exact hmoves h

/-- A piece does not reach the cell it is on. -/
theorem Reaches.ne {board : Board} {p : Piece} {source destination : Position}
    (h : Reaches board p source destination) : destination ≠ source := by
  unfold Reaches at h
  split at h
  · exact h.ne (by simp [Straight])
  · exact h.ne (by simp [Diagonal])
  · exact h.ne (by simp [Straight, Diagonal])
  · exact offset_ne (by simp [KingStep]) h
  · exact offset_ne (by simp [KnightStep]) h
  · exact offset_ne (by simp [DroneStep]) h
  · exact h.ne

/-! ## The rules are right -/

/-- **`validate_move` accepts exactly the legal moves**, and none that leaves the piece
where it is. -/
theorem validate_move_iff_legal {board : Board} (hcells : board.CarriesCells)
    (source destination : Position) :
    ((validate_move board source destination).is_valid = true ↔
      Legal board source destination) ∧
    ((validate_move board source destination).is_valid = true → destination ≠ source) := by
  have hlegal : (validate_move board source destination).is_valid = true ↔
      Legal board source destination := by
    rw [validate_move_iff]
    constructor
    · rintro ⟨hs, hd, p, hp, hally, hmem⟩
      have hcell := hcells source p hp
      have hmoves := (mem_rule_for (hcell ▸ hs) hd hally).mp hmem
      rw [hcell] at hmoves
      exact ⟨hs, hd, p, hp, hmoves, hally⟩
    · rintro ⟨hs, hd, p, hp, hmoves, hally⟩
      have hcell := hcells source p hp
      refine ⟨hs, hd, p, hp, hally, ?_⟩
      rw [← hcell] at hs hmoves
      exact (mem_rule_for hs hd hally).mpr hmoves
  refine ⟨hlegal, ?_⟩
  intro hvalid
  obtain ⟨_, _, hmoves, _⟩ := (hlegal.mp hvalid).moves
  exact hmoves.ne

/-- A rook in the middle of an empty board. -/
def lone_rook : Board :=
  (Board.empty 8 8).set_cell ⟨4, 4⟩ (some ⟨⟨1⟩, .White, .Rook, ⟨4, 4⟩, .Idle, false⟩)

theorem lone_rook_carries_cells : lone_rook.CarriesCells := by
  intro pos x hx
  unfold lone_rook at hx
  rw [Board.piece_at_set_cell (by decide)] at hx
  split_ifs at hx with hpos
  · cases hx
    exact hpos.symm
  · rw [Board.piece_at_empty] at hx
    cases hx

theorem validate_move_lone_rook :
    lone_rook.CarriesCells ∧
    (((validate_move lone_rook ⟨4, 4⟩ ⟨4, 7⟩).is_valid = true ↔ Legal lone_rook ⟨4, 4⟩ ⟨4, 7⟩) ∧
      ((validate_move lone_rook ⟨4, 4⟩ ⟨4, 7⟩).is_valid = true →
        (⟨4, 7⟩ : Position) ≠ ⟨4, 4⟩)) :=
  ⟨lone_rook_carries_cells, validate_move_iff_legal lone_rook_carries_cells ⟨4, 4⟩ ⟨4, 7⟩⟩

end KungFuChess
