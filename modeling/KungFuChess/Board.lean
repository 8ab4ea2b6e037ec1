/-
The **data model**: `kfc/model/position.hpp`, `piece.hpp` and `board.cpp`.

A `Board` is what the source has: a width, a height and one row-major vector of
optional pieces, with the vector's length carried as a field so that an ill-sized
board cannot be built. The operations index into that vector exactly as
`Board::index` does and fail where the source throws, with the source's texts.

Everything above this file reads a board through `piece_at`, so the second half
is the interface: what `piece_at` returns after each write
(`piece_at_set_cell`), that two boards with the same `piece_at` are the same
board (`Board.ext_piece_at`), and the bridge from `piece_at` to the list of
pieces in storage order (`mem_pieces`, `count_on_eq_one`).
-/
import Mathlib.Data.List.Basic
import Mathlib.Data.List.Count
import Mathlib.Data.List.GetD
import Mathlib.Data.List.Nodup
import Mathlib.Data.Nat.Basic
import Mathlib.Tactic.Ring

set_option autoImplicit false

namespace KungFuChess

/-! ## `position.hpp` and `piece.hpp` -/

/-- Board cell by row and column; bounds checking is the board's business. -/
structure Position where
  row : Int
  col : Int
deriving DecidableEq, Repr

/-- Stable piece identity, wrapped so that it is never a raw number. -/
structure PieceId where
  value : Int
deriving DecidableEq, Repr

/-- The two sides. -/
inductive PieceColor
  | White
  | Black
deriving DecidableEq, Repr

def opposite_of : PieceColor → PieceColor
  | .White => .Black
  | .Black => .White

theorem eq_opposite_of_ne {c d : PieceColor} (h : d ≠ c) : d = opposite_of c := by
  cases c <;> cases d <;> first | rfl | exact absurd rfl h

/-- The six kinds, and the drone. -/
inductive PieceKind
  | King
  | Queen
  | Rook
  | Bishop
  | Knight
  | Pawn
  | Drone
deriving DecidableEq, Repr

/-- Lifecycle flag only: where a piece is going belongs to its motion. -/
inductive PieceState
  | Idle
  | Moving
  | Airborne
  | Captured
deriving DecidableEq, Repr

/-- A piece knows where it stands and what it is doing. -/
structure Piece where
  id : PieceId
  color : PieceColor
  kind : PieceKind
  cell : Position
  state : PieceState
  has_moved : Bool := false
deriving DecidableEq, Repr

/-! ## `board.cpp` -/

/-- The exception classes `Board` throws, each with its text. -/
inductive BoardError
  | invalid_argument (what : String)
  | out_of_range (what : String)
  | logic_error (what : String)
deriving DecidableEq, Repr

/-- Rectangular arrangement of pieces, row-major. -/
structure Board where
  width : Nat
  height : Nat
  cells : List (Option Piece)
  size_eq : cells.length = width * height
deriving DecidableEq

namespace Board

/-- Every cell empty. -/
def empty (width height : Nat) : Board :=
  ⟨width, height, List.replicate (width * height) none, List.length_replicate⟩

/-- `Board::Board`. -/
def new (width height : Int) : Except BoardError Board :=
  if width < 0 ∨ height < 0 then
    .error (.invalid_argument "Board: width and height must be non-negative")
  else
    .ok (empty width.toNat height.toNat)

/-- `pos` falls within `[0, width) x [0, height)`. -/
def in_bounds (b : Board) (pos : Position) : Prop :=
  0 ≤ pos.row ∧ pos.row < b.height ∧ 0 ≤ pos.col ∧ pos.col < b.width

instance (b : Board) (pos : Position) : Decidable (b.in_bounds pos) :=
  inferInstanceAs (Decidable (_ ∧ _))

/-- Row by row. -/
def index (b : Board) (pos : Position) : Nat :=
  pos.row.toNat * b.width + pos.col.toNat

/-- A cell that is not on the board is empty. -/
def piece_at (b : Board) (pos : Position) : Option Piece :=
  if b.in_bounds pos then b.cells.getD (b.index pos) none else none

/-- `cells_[index(pos)] = c`, the one write the three operations below share. -/
def set_cell (b : Board) (pos : Position) (c : Option Piece) : Board :=
  { b with cells := b.cells.set (b.index pos) c, size_eq := by rw [List.length_set, b.size_eq] }

/-- Throws if the cell is not on the board, or taken. -/
def add_piece (b : Board) (piece : Piece) : Except BoardError Board :=
  if ¬ b.in_bounds piece.cell then
    .error (.out_of_range "Board::add_piece: position out of bounds")
  else if (b.piece_at piece.cell).isSome then
    .error (.logic_error "Board::add_piece: cell already occupied")
  else
    .ok (b.set_cell piece.cell (some piece))

def set_piece_state (b : Board) (pos : Position) (state : PieceState) : Except BoardError Board :=
  if ¬ b.in_bounds pos then
    .error (.out_of_range "Board::set_piece_state: position out of bounds")
  else
    match b.piece_at pos with
    | none => .error (.logic_error "Board::set_piece_state: cell is empty")
    | some piece => .ok (b.set_cell pos (some { piece with state := state }))

/-- Throws if the cell is not on the board; otherwise it is empty, whatever it held. -/
def remove_piece (b : Board) (pos : Position) : Except BoardError Board :=
  if ¬ b.in_bounds pos then
    .error (.out_of_range "Board::remove_piece: position out of bounds")
  else
    .ok (b.set_cell pos none)

/-! ## What `piece_at` reads after a write -/

theorem index_lt {b : Board} {pos : Position} (h : b.in_bounds pos) :
    b.index pos < b.cells.length := by
  obtain ⟨h1, h2, h3, h4⟩ := h
  have hrow : pos.row.toNat + 1 ≤ b.height := by omega
  have hcol : pos.col.toNat < b.width := by omega
  calc b.index pos < pos.row.toNat * b.width + b.width := Nat.add_lt_add_left hcol _
    _ = (pos.row.toNat + 1) * b.width := by ring
    _ ≤ b.height * b.width := Nat.mul_le_mul_right _ hrow
    _ = b.cells.length := by rw [b.size_eq, Nat.mul_comm]

/-- Row-major indexing separates the cells of the board. -/
theorem index_inj {b : Board} {p q : Position} (hp : b.in_bounds p) (hq : b.in_bounds q)
    (h : b.index p = b.index q) : p = q := by
  obtain ⟨p1, p2, p3, p4⟩ := hp
  obtain ⟨q1, q2, q3, q4⟩ := hq
  have hpc : p.col.toNat < b.width := by omega
  have hqc : q.col.toNat < b.width := by omega
  have hw : 0 < b.width := by omega
  have hdiv : ∀ r c : Nat, c < b.width → (r * b.width + c) / b.width = r := by
    intro r c hc
    rw [Nat.mul_comm, Nat.mul_add_div hw, Nat.div_eq_of_lt hc, Nat.add_zero]
  have hmod : ∀ r c : Nat, c < b.width → (r * b.width + c) % b.width = c := by
    intro r c hc
    rw [Nat.mul_comm, Nat.mul_add_mod, Nat.mod_eq_of_lt hc]
  have hrow : p.row.toNat = q.row.toNat := by
    rw [← hdiv p.row.toNat _ hpc, ← hdiv q.row.toNat _ hqc]
    exact congrArg (· / b.width) h
  have hcol : p.col.toNat = q.col.toNat := by
    rw [← hmod p.row.toNat _ hpc, ← hmod q.row.toNat _ hqc]
    exact congrArg (· % b.width) h
  obtain ⟨pr, pc⟩ := p
  obtain ⟨qr, qc⟩ := q
  simp only [Position.mk.injEq]
  dsimp only at *
  omega

/-- Nothing stands off the board. -/
theorem piece_at_of_not_in_bounds {b : Board} {pos : Position} (h : ¬ b.in_bounds pos) :
    b.piece_at pos = none := by
  rw [piece_at, if_neg h]

theorem in_bounds_of_piece_at {b : Board} {pos : Position} {x : Piece}
    (h : b.piece_at pos = some x) : b.in_bounds pos := by
  by_contra hn
  rw [piece_at_of_not_in_bounds hn] at h
  cases h

@[simp] theorem in_bounds_set_cell (b : Board) (pos : Position) (c : Option Piece) (q : Position) :
    (b.set_cell pos c).in_bounds q ↔ b.in_bounds q := Iff.rfl

/-- **The one read-after-write law.** -/
theorem piece_at_set_cell {b : Board} {pos : Position} (hpos : b.in_bounds pos)
    (c : Option Piece) (q : Position) :
    (b.set_cell pos c).piece_at q = if q = pos then c else b.piece_at q := by
  by_cases hq : b.in_bounds q
  · have hread : (b.set_cell pos c).piece_at q
        = (b.cells.set (b.index pos) c).getD (b.index q) none := if_pos hq
    have hold : b.piece_at q = b.cells.getD (b.index q) none := if_pos hq
    rw [hread, hold]
    by_cases hqp : q = pos
    · subst hqp
      rw [if_pos rfl, List.getD_eq_getElem _ _ (by rw [List.length_set]; exact index_lt hq),
        List.getElem_set_self]
    · have hne : b.index pos ≠ b.index q := fun h => hqp (index_inj hpos hq h).symm
      rw [if_neg hqp, List.getD_eq_getElem _ _ (by rw [List.length_set]; exact index_lt hq),
        List.getD_eq_getElem _ _ (index_lt hq), List.getElem_set_ne hne]
  · have hqp : q ≠ pos := fun h => hq (h ▸ hpos)
    rw [if_neg hqp, piece_at_of_not_in_bounds hq]
    exact if_neg hq

theorem piece_at_empty (w h : Nat) (pos : Position) : (empty w h).piece_at pos = none := by
  unfold piece_at
  split_ifs with hb
  · rw [List.getD_eq_getElem _ _ (index_lt hb)]
    exact List.getElem_replicate _
  · rfl

/-! ## What each operation does when it does not throw -/

@[simp] theorem new_of_nat (w h : Nat) : new (w : Int) (h : Int) = .ok (empty w h) := by
  unfold new
  rw [if_neg (by omega), Int.toNat_natCast, Int.toNat_natCast]

/-- When a piece can be added, and what that does; the two others alike. -/
theorem add_piece_ok_iff {b b' : Board} {x : Piece} :
    b.add_piece x = .ok b' ↔
      b.in_bounds x.cell ∧ b.piece_at x.cell = none ∧ b' = b.set_cell x.cell (some x) := by
  unfold add_piece
  by_cases hb : b.in_bounds x.cell
  · cases hx : b.piece_at x.cell with
    | none => simp [hb, eq_comm]
    | some y => simp [hb]
  · simp [hb]

theorem remove_piece_ok_iff {b b' : Board} {pos : Position} :
    b.remove_piece pos = .ok b' ↔ b.in_bounds pos ∧ b' = b.set_cell pos none := by
  unfold remove_piece
  by_cases hb : b.in_bounds pos
  · simp [hb, eq_comm]
  · simp [hb]

theorem set_piece_state_ok_iff {b b' : Board} {pos : Position} {st : PieceState} :
    b.set_piece_state pos st = .ok b' ↔
      ∃ x, b.piece_at pos = some x ∧ b' = b.set_cell pos (some { x with state := st }) := by
  unfold set_piece_state
  by_cases hb : b.in_bounds pos
  · cases hx : b.piece_at pos with
    | none => simp [hb]
    | some x => simp [hb, eq_comm]
  · simp [hb, piece_at_of_not_in_bounds hb]

/-! ## Boards are determined by what stands on them -/

/-- The cell a storage index belongs to. -/
def position_of (b : Board) (i : Nat) : Position :=
  ⟨((i / b.width : Nat) : Int), ((i % b.width : Nat) : Int)⟩

theorem in_bounds_position_of {b : Board} {i : Nat} (hi : i < b.cells.length) :
    b.in_bounds (b.position_of i) := by
  rw [b.size_eq] at hi
  have hw : 0 < b.width := Nat.pos_of_ne_zero (by rintro h; simp [h] at hi)
  have hrow : i / b.width < b.height := Nat.div_lt_of_lt_mul hi
  have hcol : i % b.width < b.width := Nat.mod_lt _ hw
  exact ⟨Int.natCast_nonneg _, Int.ofNat_lt.mpr hrow, Int.natCast_nonneg _, Int.ofNat_lt.mpr hcol⟩

theorem index_position_of (b : Board) (i : Nat) : b.index (b.position_of i) = i := by
  simp only [index, position_of, Int.toNat_natCast]
  exact Nat.div_add_mod' i b.width

theorem piece_at_position_of {b : Board} {i : Nat} (hi : i < b.cells.length) :
    b.piece_at (b.position_of i) = b.cells[i] := by
  rw [piece_at, if_pos (in_bounds_position_of hi), index_position_of,
    List.getD_eq_getElem _ _ hi]

/-- A board is its size and what is read of it. -/
theorem ext_piece_at {b c : Board} (hw : b.width = c.width) (hh : b.height = c.height)
    (h : ∀ pos, b.piece_at pos = c.piece_at pos) : b = c := by
  have hlen : b.cells.length = c.cells.length := by rw [b.size_eq, c.size_eq, hw, hh]
  have hcells : b.cells = c.cells := by
    refine List.ext_getElem hlen (fun i hi hi' => ?_)
    rw [← piece_at_position_of hi, ← piece_at_position_of hi', h]
    simp only [position_of, hw]
  cases b
  cases c
  simp_all

/-! ## The pieces of a board, in storage order -/

/-- Every stored piece, row by row. -/
def pieces (b : Board) : List Piece := b.cells.filterMap id

/-- On how many cells a piece with this id stands. -/
def count_on (b : Board) (i : PieceId) : Nat := (b.pieces.map (·.id)).count i

/-- The list of the pieces has what stands on some cell. -/
theorem mem_pieces {b : Board} {x : Piece} : x ∈ b.pieces ↔ ∃ pos, b.piece_at pos = some x := by
  unfold pieces
  rw [List.mem_filterMap]
  constructor
  · rintro ⟨c, hc, rfl⟩
    obtain ⟨i, hi, hx⟩ := List.getElem_of_mem hc
    exact ⟨b.position_of i, by rw [piece_at_position_of hi, hx]⟩
  · rintro ⟨pos, hx⟩
    have hb := in_bounds_of_piece_at hx
    rw [piece_at, if_pos hb, List.getD_eq_getElem _ _ (index_lt hb)] at hx
    exact ⟨some x, hx ▸ List.getElem_mem _, rfl⟩

/-- No id stands on two cells. -/
def Distinct (b : Board) : Prop :=
  ∀ p q x y, b.piece_at p = some x → b.piece_at q = some y → x.id = y.id → p = q

theorem nodup_ids_of_distinct {b : Board} (hd : b.Distinct) : (b.pieces.map (·.id)).Nodup := by
  unfold pieces
  rw [List.Nodup, List.pairwise_map, List.pairwise_filterMap, List.pairwise_iff_getElem]
  intro i j hi hj hij x hx y hy hne
  have hpi : b.piece_at (b.position_of i) = some x := (piece_at_position_of hi).trans hx
  have hpj : b.piece_at (b.position_of j) = some y := (piece_at_position_of hj).trans hy
  have hpos := congrArg b.index (hd _ _ _ _ hpi hpj hne)
  rw [index_position_of, index_position_of] at hpos
  omega

theorem count_on_eq_zero_iff {b : Board} {i : PieceId} :
    b.count_on i = 0 ↔ ∀ pos x, b.piece_at pos = some x → x.id ≠ i := by
  rw [count_on, List.count_eq_zero, List.mem_map]
  constructor
  · intro h pos x hx hi
    exact h ⟨x, mem_pieces.mpr ⟨pos, hx⟩, hi⟩
  · rintro h ⟨x, hx, hi⟩
    obtain ⟨pos, hpos⟩ := mem_pieces.mp hx
    exact h pos x hpos hi

/-- On a board with distinct ids, a piece that stands somewhere stands on exactly
one cell. -/
theorem count_on_eq_one {b : Board} (hd : b.Distinct) {pos : Position} {x : Piece}
    (hx : b.piece_at pos = some x) : b.count_on x.id = 1 :=
  List.count_eq_one_of_mem (nodup_ids_of_distinct hd)
    (List.mem_map_of_mem (mem_pieces.mpr ⟨pos, hx⟩))

end Board

end KungFuChess
