/-
**The game has no favourite.**

A board can be seen from the other side of the table: the rows are turned round and the
colours exchanged. It can also be seen in a mirror, which turns the columns round and
leaves the colours. A `Reflection` does either, both, or nothing. The engine cannot tell:
two engines, one on a board and one on its image, that are given the same commands, seen
so, go on in lockstep (`Alike`), answer every request with the same words and report the
same arrivals, seen so.

Every function of the engine gets one lemma, which says that it commutes with the
reflection. That rows and colours go together is the pawn's doing, which goes one way and
promotes at one end (`pawn_destinations`, `apply_pawn_promotion`).
-/
import KungFuChess.Engine
import KungFuChess.LegalMoves

set_option autoImplicit false

namespace KungFuChess

open Machine StableSort

/-! ## What a caller of the engine hears -/

namespace GameEngine

/-- The answer to a request, or an arrival. -/
inductive Heard
  | answer (result : MoveResult)
  | arrival (event : ArrivalEvent)
deriving DecidableEq, Repr

/-- A command, with the answer to a request among what it puts out. -/
def exec_aloud : Step GameEngine Command Heard BoardError
  | g, .request_move source destination => do
      let (g, result) ← g.request_move source destination
      return (g, [.answer result])
  | g, .request_jump cell => do
      let (g, result) ← g.request_jump cell
      return (g, [.answer result])
  | g, .wait ms => do
      let (g, events) ← g.wait ms
      return (g, events.map .arrival)

/-- The arrivals among what is heard. -/
def arrivals (os : List Heard) : List ArrivalEvent :=
  os.filterMap fun
    | .answer _ => none
    | .arrival e => some e

/-- What the observer makes of what is heard. -/
def verdict (os : List Heard) : GameOverObserver :=
  (arrivals os).foldl GameOverObserver.on_arrival {}

end GameEngine

/-! ## Ways to see a board -/

/-- One of the four, for boards of this size. -/
structure Reflection where
  width : Nat
  height : Nat
  /-- From the other side of the table: rows turned round, colours exchanged. -/
  exchanged : Bool
  /-- In a mirror: columns turned round. -/
  flipped : Bool

namespace Reflection

variable (m : Reflection)

/-- A cell, seen so. -/
def position (pos : Position) : Position where
  row := if m.exchanged then (m.height : Int) - 1 - pos.row else pos.row
  col := if m.flipped then (m.width : Int) - 1 - pos.col else pos.col

/-- A colour, seen so. -/
def color (c : PieceColor) : PieceColor := if m.exchanged then opposite_of c else c

/-- A step on the board. -/
def step (d : Int × Int) : Int × Int :=
  (if m.exchanged then -d.1 else d.1, if m.flipped then -d.2 else d.2)

/-- A piece keeps its number, its kind and its state. -/
def piece (x : Piece) : Piece := { x with color := m.color x.color, cell := m.position x.cell }

/-- A motion keeps its times. -/
def motion (t : Motion) : Motion :=
  { t with
    moving_piece := m.piece t.moving_piece
    source := m.position t.source
    destination := m.position t.destination }

/-- An arrival keeps its time and what it was. -/
def event (e : ArrivalEvent) : ArrivalEvent :=
  { e with
    moved_piece := m.piece e.moved_piece
    source := m.position e.source
    destination := m.position e.destination
    captured_piece := e.captured_piece.map m.piece }

/-- The whole board, seen so: each cell holds the image of what its image holds. -/
def board (b : Board) : Board where
  width := b.width
  height := b.height
  cells := (List.range (b.width * b.height)).map fun i =>
    (b.piece_at (m.position (b.position_of i))).map m.piece
  size_eq := by rw [List.length_map, List.length_range]

open GameEngine in
/-- The same command, given by somebody who sees the board so. -/
def command : Command → Command
  | .request_move source destination =>
      .request_move (m.position source) (m.position destination)
  | .request_jump cell => .request_jump (m.position cell)
  | .wait ms => .wait ms

/-! ## Positions, steps and pieces -/

/-- To look twice is not to have looked. -/
@[simp] theorem position_position (pos : Position) : m.position (m.position pos) = pos := by
  obtain ⟨row, col⟩ := pos
  simp only [position, Position.mk.injEq]
  constructor
  · split_ifs
    · omega
    · rfl
  · split_ifs
    · omega
    · rfl

theorem position_inj {p q : Position} : m.position p = m.position q ↔ p = q := by
  constructor
  · intro h
    rw [← m.position_position p, h, m.position_position]
  · rintro rfl
    rfl

/-- A step from a cell, and the image of the step from the image of the cell. -/
theorem position_step (pos : Position) (d : Int × Int) :
    m.position ⟨pos.row + d.1, pos.col + d.2⟩
      = ⟨(m.position pos).row + (m.step d).1, (m.position pos).col + (m.step d).2⟩ := by
  simp only [position, step, Position.mk.injEq]
  constructor
  · split_ifs
    · omega
    · rfl
  · split_ifs
    · omega
    · rfl

@[simp] theorem color_color (c : PieceColor) : m.color (m.color c) = c := by
  unfold color
  cases c <;> split_ifs <;> rfl

theorem color_inj {c d : PieceColor} : m.color c = m.color d ↔ c = d := by
  constructor
  · intro h
    rw [← m.color_color c, h, m.color_color]
  · rintro rfl
    rfl

@[simp] theorem piece_id (x : Piece) : (m.piece x).id = x.id := rfl
@[simp] theorem piece_kind (x : Piece) : (m.piece x).kind = x.kind := rfl
@[simp] theorem piece_state (x : Piece) : (m.piece x).state = x.state := rfl
@[simp] theorem piece_color (x : Piece) : (m.piece x).color = m.color x.color := rfl
@[simp] theorem piece_cell (x : Piece) : (m.piece x).cell = m.position x.cell := rfl
@[simp] theorem piece_has_moved (x : Piece) : (m.piece x).has_moved = x.has_moved := rfl

/-- The way is as long, seen so: motions take the same time. -/
theorem cell_step_distance_position (p q : Position) :
    cell_step_distance (m.position p) (m.position q) = cell_step_distance p q := by
  unfold cell_step_distance position
  dsimp only
  congr 1
  · split_ifs
    · omega
    · rfl
  · split_ifs
    · omega
    · rfl

/-! ## Boards -/

/-- The one board is the other, seen so. -/
structure Shows (b c : Board) : Prop where
  width : b.width = m.width
  height : b.height = m.height
  width' : c.width = m.width
  height' : c.height = m.height
  pieces : ∀ pos, c.piece_at (m.position pos) = (b.piece_at pos).map m.piece

variable {m} {b c : Board}

/-- Both boards have the cell, or neither. -/
theorem Shows.in_bounds (h : m.Shows b c) (pos : Position) :
    c.in_bounds (m.position pos) ↔ b.in_bounds pos := by
  unfold Board.in_bounds position
  rw [h.width, h.height, h.width', h.height']
  dsimp only
  split_ifs
  all_goals omega

theorem Shows.piece_at (h : m.Shows b c) (pos : Position) :
    c.piece_at pos = (b.piece_at (m.position pos)).map m.piece := by
  rw [← h.pieces, position_position]

/-- Reading the image is reading the board. -/
theorem piece_at_board (hw : b.width = m.width) (hh : b.height = m.height) (pos : Position) :
    (m.board b).piece_at pos = (b.piece_at (m.position pos)).map m.piece := by
  by_cases hpos : b.in_bounds pos
  · have hi : b.index pos < b.width * b.height := b.size_eq ▸ Board.index_lt hpos
    have hback : b.position_of (b.index pos) = pos :=
      Board.index_inj (Board.in_bounds_position_of (Board.index_lt hpos)) hpos
        (b.index_position_of _)
    have hread : (m.board b).piece_at pos
        = (m.board b).cells.getD ((m.board b).index pos) none := if_pos hpos
    have hindex : (m.board b).index pos = b.index pos := rfl
    rw [hread, hindex]
    unfold board
    rw [List.getD_eq_getElem _ _ (by rw [List.length_map, List.length_range]; exact hi),
      List.getElem_map, List.getElem_range, hback]
  · have hnone : ¬ b.in_bounds (m.position pos) := by
      unfold Board.in_bounds position at *
      rw [hw, hh] at *
      dsimp only
      split_ifs
      all_goals omega
    rw [Board.piece_at_of_not_in_bounds hnone]
    exact Board.piece_at_of_not_in_bounds hpos

/-- Every board of the size shows its image. -/
theorem shows_board (hw : b.width = m.width) (hh : b.height = m.height) : m.Shows b (m.board b) :=
  ⟨hw, hh, hw, hh, fun pos => by rw [piece_at_board hw hh, position_position]⟩

/-- A board shows one board only. -/
theorem Shows.eq_board (h : m.Shows b c) : c = m.board b :=
  Board.ext_piece_at (h.width'.trans h.width.symm) (h.height'.trans h.height.symm) fun pos => by
    rw [piece_at_board h.width h.height, h.piece_at]

/-- **Writing a cell commutes with the reflection**; the three changes of a board are made of it. -/
theorem Shows.set_cell (h : m.Shows b c) {pos : Position} (hpos : b.in_bounds pos)
    (x : Option Piece) :
    m.Shows (b.set_cell pos x) (c.set_cell (m.position pos) (x.map m.piece)) := by
  refine ⟨h.width, h.height, h.width', h.height', fun q => ?_⟩
  rw [Board.piece_at_set_cell ((h.in_bounds pos).mpr hpos), Board.piece_at_set_cell hpos]
  by_cases hq : q = pos
  · rw [if_pos hq, if_pos (congrArg m.position hq)]
  · rw [if_neg hq, if_neg fun heq => hq (m.position_inj.mp heq), h.pieces]

theorem Shows.add_piece (h : m.Shows b c) (x : Piece) :
    Alike m.Shows (b.add_piece x) (c.add_piece (m.piece x)) := by
  unfold Board.add_piece
  rw [piece_cell, h.pieces, Option.isSome_map]
  by_cases hb : b.in_bounds x.cell
  · rw [if_neg (not_not.mpr hb), if_neg (not_not.mpr ((h.in_bounds _).mpr hb))]
    split_ifs
    · exact .error _
    · exact .ok (h.set_cell hb (some x))
  · rw [if_pos hb, if_pos fun hc => hb ((h.in_bounds _).mp hc)]
    exact .error _

theorem Shows.set_piece_state (h : m.Shows b c) (pos : Position) (state : PieceState) :
    Alike m.Shows (b.set_piece_state pos state) (c.set_piece_state (m.position pos) state) := by
  unfold Board.set_piece_state
  rw [h.pieces]
  by_cases hb : b.in_bounds pos
  · rw [if_neg (not_not.mpr hb), if_neg (not_not.mpr ((h.in_bounds _).mpr hb))]
    cases b.piece_at pos with
    | none => exact .error _
    | some x => exact .ok (h.set_cell hb (some { x with state := state }))
  · rw [if_pos hb, if_pos fun hc => hb ((h.in_bounds _).mp hc)]
    exact .error _

theorem Shows.remove_piece (h : m.Shows b c) (pos : Position) :
    Alike m.Shows (b.remove_piece pos) (c.remove_piece (m.position pos)) := by
  unfold Board.remove_piece
  by_cases hb : b.in_bounds pos
  · rw [if_neg (not_not.mpr hb), if_neg (not_not.mpr ((h.in_bounds _).mpr hb))]
    exact .ok (h.set_cell hb none)
  · rw [if_pos hb, if_pos fun hc => hb ((h.in_bounds _).mp hc)]
    exact .error _

/-! ## The rules -/

/-- A ray and its image end together: by recursion on the fuel, cell by cell. -/
theorem Shows.sliding_ray (h : m.Shows b c) (x : Piece) (d : Int × Int) :
    ∀ (fuel : Nat) (current : Position),
      KungFuChess.sliding_ray c (m.piece x) (m.step d) fuel (m.position current)
        = (KungFuChess.sliding_ray b x d fuel current).map m.position
  | 0, _ => rfl
  | fuel + 1, current => by
      rw [KungFuChess.sliding_ray, KungFuChess.sliding_ray, h.pieces]
      by_cases hb : b.in_bounds current
      · rw [if_pos hb, if_pos ((h.in_bounds _).mpr hb)]
        cases b.piece_at current with
        | none =>
            have hnext := Shows.sliding_ray h x d fuel ⟨current.row + d.1, current.col + d.2⟩
            rw [position_step] at hnext
            show _ :: _ = List.map m.position (_ :: _)
            rw [List.map_cons, hnext]
        | some occupant =>
            show (if m.color occupant.color ≠ m.color x.color then _ else _)
              = List.map m.position (if occupant.color ≠ x.color then _ else _)
            simp only [ne_eq, m.color_inj]
            split_ifs
            · rfl
            · rfl
      · rw [if_neg hb, if_neg fun hc => hb ((h.in_bounds _).mp hc)]
        rfl

/-- A table of steps that has the image of each. -/
def Closed (m : Reflection) (steps : List (Int × Int)) : Prop := ∀ d ∈ steps, m.step d ∈ steps

@[simp] theorem step_step (d : Int × Int) : m.step (m.step d) = d := by
  unfold step
  dsimp only
  split_ifs
  all_goals simp

theorem step_of_closed {steps : List (Int × Int)} (hclosed : m.Closed steps) {d : Int × Int} :
    m.step d ∈ steps ↔ d ∈ steps := by
  refine ⟨fun h => ?_, hclosed d⟩
  have h := hclosed _ h
  rwa [step_step] at h

/-- Pieces that slide go alike, if their table has the image of each direction. -/
theorem Shows.mem_sliding (h : m.Shows b c) {directions : List (Int × Int)}
    (hclosed : m.Closed directions) (x : Piece) (pos : Position) :
    m.position pos ∈ sliding_destinations c (m.piece x) directions
      ↔ pos ∈ sliding_destinations b x directions := by
  have hsize : c.width + c.height = b.width + b.height := by
    rw [h.width, h.height, h.width', h.height']
  -- the ray of a step and the ray of its image
  have hray : ∀ d, KungFuChess.sliding_ray c (m.piece x) (m.step d) (c.width + c.height)
      ⟨(m.piece x).cell.row + (m.step d).1, (m.piece x).cell.col + (m.step d).2⟩
      = (KungFuChess.sliding_ray b x d (b.width + b.height)
          ⟨x.cell.row + d.1, x.cell.col + d.2⟩).map m.position := by
    intro d
    rw [hsize, ← h.sliding_ray, position_step]
    rfl
  have hinj : Function.Injective m.position := fun p q => m.position_inj.mp
  unfold sliding_destinations
  rw [List.mem_flatMap, List.mem_flatMap]
  constructor
  · rintro ⟨d, hd, hmem⟩
    have hmem' := hray (m.step d)
    rw [step_step] at hmem'
    rw [hmem', List.mem_map_of_injective hinj] at hmem
    exact ⟨m.step d, hclosed d hd, hmem⟩
  · rintro ⟨d, hd, hmem⟩
    refine ⟨m.step d, hclosed d hd, ?_⟩
    rw [hray, List.mem_map_of_injective hinj]
    exact hmem

theorem offset_to_position (p q : Position) :
    (m.position p).offset_to (m.position q) = m.step (p.offset_to q) := by
  unfold Position.offset_to position step
  refine Prod.ext ?_ ?_
  · dsimp only
    split_ifs
    · omega
    · rfl
  · dsimp only
    split_ifs
    · omega
    · rfl

theorem Shows.noAlly (h : m.Shows b c) (x : Piece) (pos : Position) :
    NoAlly c (m.piece x) (m.position pos) ↔ NoAlly b x pos := by
  unfold NoAlly
  rw [h.pieces]
  constructor
  · intro hno y hy heq
    exact hno (m.piece y) (by rw [hy]; rfl) (congrArg m.color heq)
  · intro hno y hy heq
    obtain ⟨z, hz, rfl⟩ := Option.map_eq_some_iff.mp hy
    exact hno z hz (m.color_inj.mp heq)

/-- Pieces that step go alike, if their table has the image of each offset. -/
theorem Shows.mem_stepping (h : m.Shows b c) {offsets : List (Int × Int)}
    (hclosed : m.Closed offsets) {x : Piece} {pos : Position} (hpos : b.in_bounds pos)
    (hally : NoAlly b x pos) :
    m.position pos ∈ stepping_destinations c (m.piece x) offsets
      ↔ pos ∈ stepping_destinations b x offsets := by
  rw [mem_stepping_destinations hpos hally,
    mem_stepping_destinations ((h.in_bounds pos).mpr hpos) ((h.noAlly x pos).mpr hally),
    piece_cell, offset_to_position, step_of_closed hclosed]

/-- What `pawn_destinations` lists, one cell at a time. -/
theorem mem_pawn (b : Board) (x : Piece) (pos : Position) :
    pos ∈ pawn_destinations b x ↔
      (b.in_bounds (x.cell.after x.color.forward 1) ∧
        b.piece_at (x.cell.after x.color.forward 1) = none ∧
        (pos = x.cell.after x.color.forward 1 ∨
          x.has_moved = false ∧ b.in_bounds pos ∧ b.piece_at pos = none ∧
            pos = x.cell.after x.color.forward 2)) ∨
      (b.in_bounds pos ∧ EnemyAt b x.color pos ∧
        (x.cell.offset_to pos).1 = x.color.forward.1 ∧ (x.cell.offset_to pos).2.natAbs = 1) := by
  unfold pawn_destinations
  simp only [forward_step, pawn_forward, pawn_double_forward, List.mem_append, List.mem_filterMap,
    Option.isNone_iff_eq_none]
  refine or_congr ?_ ?_
  · by_cases hclear : b.in_bounds (x.cell.after x.color.forward 1) ∧
        b.piece_at (x.cell.after x.color.forward 1) = none
    · rw [if_pos hclear, List.mem_cons]
      simp only [hclear.1, hclear.2, true_and]
      refine or_congr Iff.rfl ?_
      split_ifs with hdouble
      · rw [List.mem_singleton]
        constructor
        · rintro rfl
          exact ⟨by simpa using hdouble.1, hdouble.2.1, hdouble.2.2, rfl⟩
        · rintro ⟨-, -, -, hpos⟩
          exact hpos
      · refine iff_of_false List.not_mem_nil ?_
        rintro ⟨hmoved, hin, hnone, rfl⟩
        exact hdouble ⟨by simp [hmoved], hin, hnone⟩
    · rw [if_neg hclear]
      exact iff_of_false List.not_mem_nil fun hfree => hclear ⟨hfree.1, hfree.2.1⟩
  · constructor
    · rintro ⟨col_offset, hcol, hdiagonal⟩
      split_ifs at hdiagonal with hin
      split at hdiagonal
      · rename_i occupant hoccupant
        split_ifs at hdiagonal with hcolor
        have hat := Option.some.inj hdiagonal
        rw [hat] at hoccupant hin
        obtain ⟨hrow, hoffset⟩ := pawn_diagonal.mp hat
        refine ⟨hin, ⟨occupant, hoccupant, hcolor⟩, hrow, ?_⟩
        have htwo : col_offset = -1 ∨ col_offset = 1 := by simpa using hcol
        omega
      · cases hdiagonal
    · rintro ⟨hin, ⟨occupant, hoccupant, hcolor⟩, hrow, hcol⟩
      refine ⟨(x.cell.offset_to pos).2, ?_, ?_⟩
      · have htwo : (x.cell.offset_to pos).2 = -1 ∨ (x.cell.offset_to pos).2 = 1 := by omega
        simpa using htwo
      · rw [pawn_diagonal.mpr ⟨hrow, rfl⟩, if_neg (not_not.mpr hin), hoccupant]
        exact if_pos hcolor

/-- The other colour goes forward the other way. -/
theorem forward_color (color : PieceColor) : (m.color color).forward = m.step color.forward := by
  unfold Reflection.color step
  cases color <;> split_ifs <;> rfl

theorem position_after (p : Position) (d : Int × Int) (n : Nat) :
    (m.position p).after (m.step d) n = m.position (p.after d n) := by
  unfold Position.after position step
  rw [Position.mk.injEq]
  dsimp only
  constructor
  · split_ifs
    · rw [Int.mul_neg]
      omega
    · rfl
  · split_ifs
    · rw [Int.mul_neg]
      omega
    · rfl

theorem Shows.enemyAt (h : m.Shows b c) (color : PieceColor) (pos : Position) :
    EnemyAt c (m.color color) (m.position pos) ↔ EnemyAt b color pos := by
  unfold EnemyAt
  rw [h.pieces]
  constructor
  · rintro ⟨y, hy, hne⟩
    obtain ⟨z, hz, rfl⟩ := Option.map_eq_some_iff.mp hy
    exact ⟨z, hz, fun heq => hne (congrArg m.color heq)⟩
  · rintro ⟨y, hy, hne⟩
    exact ⟨m.piece y, by rw [hy]; rfl, fun heq => hne (m.color_inj.mp heq)⟩

/-- Pawns of both colours go alike, each its own way. -/
theorem Shows.mem_pawn (h : m.Shows b c) (x : Piece) (pos : Position) :
    m.position pos ∈ pawn_destinations c (m.piece x) ↔ pos ∈ pawn_destinations b x := by
  have hrow : (m.step (x.cell.offset_to pos)).1 = (m.step x.color.forward).1
      ↔ (x.cell.offset_to pos).1 = x.color.forward.1 := by
    unfold step
    dsimp only
    split_ifs
    · exact Int.neg_inj
    · exact Iff.rfl
  have hcol : (m.step (x.cell.offset_to pos)).2.natAbs = (x.cell.offset_to pos).2.natAbs := by
    unfold step
    dsimp only
    split_ifs
    · exact Int.natAbs_neg _
    · rfl
  rw [Reflection.mem_pawn, Reflection.mem_pawn, piece_cell, piece_color, piece_has_moved,
    forward_color, position_after, position_after, h.in_bounds, h.in_bounds, h.pieces, h.pieces,
    Option.map_eq_none_iff, Option.map_eq_none_iff, position_inj, position_inj, h.enemyAt,
    offset_to_position, hrow, hcol]

/-- Every table of the rules has the image of each of its steps. -/
theorem closed_tables (m : Reflection) : m.Closed kRookDirections ∧ m.Closed kBishopDirections ∧
    m.Closed kQueenDirections ∧ m.Closed kKingOffsets ∧ m.Closed kKnightOffsets ∧
    m.Closed kDroneOffsets := by
  have hall : ∀ exchanged flipped : Bool, ∀ table ∈ [kRookDirections, kBishopDirections,
      kQueenDirections, kKingOffsets, kKnightOffsets, kDroneOffsets], ∀ d ∈ table,
      ((if exchanged then -d.1 else d.1, if flipped then -d.2 else d.2) : Int × Int) ∈ table := by
    decide
  have hclosed := hall m.exchanged m.flipped
  exact ⟨hclosed _ (by simp), hclosed _ (by simp), hclosed _ (by simp), hclosed _ (by simp),
    hclosed _ (by simp), hclosed _ (by simp)⟩

/-- **Each rule, seen so, is the rule.** -/
theorem Shows.mem_rule (h : m.Shows b c) {x : Piece} {pos : Position} (hpos : b.in_bounds pos)
    (hally : NoAlly b x pos) (kind : PieceKind) :
    m.position pos ∈ rule_for kind c (m.piece x) ↔ pos ∈ rule_for kind b x := by
  obtain ⟨hrook, hbishop, hqueen, hking, hknight, hdrone⟩ := m.closed_tables
  cases kind with
  | Rook => exact h.mem_sliding hrook x pos
  | Bishop => exact h.mem_sliding hbishop x pos
  | Queen => exact h.mem_sliding hqueen x pos
  | King => exact h.mem_stepping hking hpos hally
  | Knight => exact h.mem_stepping hknight hpos hally
  | Drone => exact h.mem_stepping hdrone hpos hally
  | Pawn => exact h.mem_pawn x pos

/-- A move is accepted or refused alike, and for the same reason. -/
theorem Shows.validate_move (h : m.Shows b c) (source destination : Position) :
    KungFuChess.validate_move c (m.position source) (m.position destination)
      = KungFuChess.validate_move b source destination := by
  unfold KungFuChess.validate_move
  rw [h.pieces]
  by_cases hin : ¬ b.in_bounds source ∨ ¬ b.in_bounds destination
  · rw [if_pos hin, if_pos (by rwa [h.in_bounds, h.in_bounds])]
  · rw [if_neg hin, if_neg (by rwa [h.in_bounds, h.in_bounds])]
    obtain ⟨-, hdestination⟩ := not_or.mp hin
    cases b.piece_at source with
    | none => rfl
    | some moving =>
        show (if _ then _ else if _ ∉ rule_for moving.kind c (m.piece moving) then _ else _) = _
        dsimp only
        by_cases hally : NoAlly b moving destination
        · rw [if_neg (any_ally_iff.not.mpr (not_not.mpr hally)),
            if_neg (any_ally_iff.not.mpr (not_not.mpr ((h.noAlly _ _).mpr hally)))]
          have hmem := h.mem_rule (not_not.mp hdestination) hally moving.kind
          by_cases hrule : destination ∈ rule_for moving.kind b moving
          · rw [if_neg (not_not.mpr hrule), if_neg (not_not.mpr (hmem.mpr hrule))]
          · rw [if_pos hrule, if_pos (hmem.not.mpr hrule)]
        · rw [if_pos (any_ally_iff.mpr hally),
            if_pos (any_ally_iff.mpr ((h.noAlly _ _).not.mpr hally))]

/-! ## The arbiter -/

section Arbiter

open RealTimeArbiter

variable {a a' : RealTimeArbiter}

/-- What becomes of two pieces that meet does not depend on how they are seen. -/
theorem resolve_piece (mover : Piece) (occupant : Option Piece) :
    CollisionResolver.resolve (m.piece mover) (occupant.map m.piece)
      = ⟨(CollisionResolver.resolve mover occupant).kind,
          (CollisionResolver.resolve mover occupant).captured_piece.map m.piece⟩ := by
  cases occupant with
  | none => rfl
  | some occupant =>
      rw [Option.map_some]
      unfold CollisionResolver.resolve
      dsimp only
      by_cases hid : occupant.id = mover.id
      · rw [if_pos hid, if_pos (by exact hid)]
        rfl
      rw [if_neg hid, if_neg (by exact hid)]
      have hally : (m.piece occupant).color = (m.piece mover).color
          ↔ occupant.color = mover.color := m.color_inj
      by_cases hcolor : occupant.color = mover.color
      · rw [if_pos hcolor, if_pos (hally.mpr hcolor)]
        rfl
      rw [if_neg hcolor, if_neg (hally.not.mpr hcolor)]
      by_cases hstate : occupant.state = .Airborne
      · rw [if_pos hstate, if_pos (by exact hstate)]
        rfl
      · rw [if_neg hstate, if_neg (by exact hstate)]
        rfl

/-- A pawn is promoted on one side when its image is on the other. -/
theorem Shows.apply_pawn_promotion (h : m.Shows b c) (arrived : Piece) :
    KungFuChess.apply_pawn_promotion (m.piece arrived) c
      = (m.piece (KungFuChess.apply_pawn_promotion arrived b).1,
          (KungFuChess.apply_pawn_promotion arrived b).2) := by
  unfold KungFuChess.apply_pawn_promotion
  by_cases hkind : arrived.kind ≠ .Pawn
  · rw [if_pos hkind, if_pos (by exact hkind)]
  · rw [if_neg hkind, if_neg (by exact hkind)]
    -- the far row of a colour is the far row of the other, seen so
    have hrow : (m.piece arrived).cell.row
        = (if (m.piece arrived).color = .White then 0 else (c.height : Int) - 1)
        ↔ arrived.cell.row = (if arrived.color = .White then 0 else (b.height : Int) - 1) := by
      rw [h.height, h.height', piece_color, piece_cell]
      unfold position Reflection.color
      dsimp only
      cases m.exchanged with
      | false => cases arrived.color <;> exact Iff.rfl
      | true =>
          cases arrived.color with
          | White =>
              simp only [opposite_of, if_true, reduceCtorEq, if_false]
              omega
          | Black =>
              simp only [opposite_of, if_true, reduceCtorEq, if_false]
              omega
    dsimp only
    by_cases hfar : arrived.cell.row = (if arrived.color = .White then 0 else (b.height : Int) - 1)
    · rw [if_pos hfar, if_pos (hrow.mpr hfar)]
      rfl
    · rw [if_neg hfar, if_neg (hrow.not.mpr hfar)]

/-- What came of an arrival, seen so. -/
def resolved (r : ResolvedArrival) : ResolvedArrival := { r with event := m.event r.event }

/-- What comes of an arrival, on both sides. -/
def ShowsResolved (m : Reflection) (r q : Board × ResolvedArrival) : Prop :=
  m.Shows r.1 q.1 ∧ q.2 = m.resolved r.2

theorem Shows.land (h : m.Shows b c) (t : Motion) (captured : Option Piece) :
    Alike m.ShowsResolved (RealTimeArbiter.land b t captured)
      (RealTimeArbiter.land c (m.motion t) (captured.map m.piece)) := by
  unfold RealTimeArbiter.land
  refine (h.remove_piece t.source).bind fun b₁ c₁ h₁ => ?_
  have harriving : arriving_piece (m.motion t) = m.piece (arriving_piece t) := rfl
  rw [harriving, h₁.apply_pawn_promotion]
  refine (h₁.add_piece _).bind fun b₂ c₂ h₂ => ?_
  exact .ok ⟨h₂, rfl⟩

/-- **An arrival is resolved alike**, by the kind of the collision. -/
theorem Shows.resolve_arrival (h : m.Shows b c) (t : Motion) :
    Alike m.ShowsResolved (RealTimeArbiter.resolve_arrival b t)
      (RealTimeArbiter.resolve_arrival c (m.motion t)) := by
  have hcollision : CollisionResolver.resolve (m.motion t).moving_piece
      (c.piece_at (m.motion t).destination)
      = ⟨(CollisionResolver.resolve t.moving_piece (b.piece_at t.destination)).kind,
          (CollisionResolver.resolve t.moving_piece
            (b.piece_at t.destination)).captured_piece.map m.piece⟩ := by
    rw [← resolve_piece, ← h.pieces]
    rfl
  unfold RealTimeArbiter.resolve_arrival
  dsimp only
  rw [hcollision]
  dsimp only
  cases (CollisionResolver.resolve t.moving_piece (b.piece_at t.destination)).kind with
  | FriendlyBlocked =>
      exact (h.set_piece_state t.source .Idle).bind fun b₁ c₁ h₁ => .ok ⟨h₁, rfl⟩
  | EnemyCaptured => exact (h.remove_piece t.destination).bind fun b₁ c₁ h₁ => h₁.land t _
  | PassedThroughAirborne =>
      exact (h.remove_piece t.destination).bind fun b₁ c₁ h₁ => h₁.land t _
  | VacatedCell => exact h.land t _

def pending (p : PendingArrival) : PendingArrival := { p with motion := m.motion p.motion }

/-- The state of the loop over the arrivals, on both sides. -/
structure ShowsBatch (m : Reflection) (batch batch' : Batch) : Prop where
  board : m.Shows batch.board batch'.board
  events : batch'.events = batch.events.map m.event
  captured : batch'.captured_this_batch = batch.captured_this_batch
  cooldowns : batch'.cooldowns = batch.cooldowns

/-- One turn of the loop keeps the two batches alike. -/
theorem ShowsBatch.resolve_one {batch batch' : Batch} (h : m.ShowsBatch batch batch')
    (tick_start_ms ms : Int) (p : PendingArrival) :
    Alike m.ShowsBatch (RealTimeArbiter.resolve_one tick_start_ms ms batch p)
      (RealTimeArbiter.resolve_one tick_start_ms ms batch' (m.pending p)) := by
  unfold RealTimeArbiter.resolve_one
  rw [h.captured]
  have hid : (m.pending p).motion.moving_piece.id = p.motion.moving_piece.id := rfl
  rw [hid]
  split_ifs with hcaptured
  · exact .ok h
  · refine (h.board.resolve_arrival p.motion).bind ?_
    rintro ⟨b₁, r⟩ ⟨c₁, q⟩ ⟨h₁, rfl⟩
    refine .ok ⟨h₁, ?_, ?_, ?_⟩
    · show batch'.events ++ _ = List.map m.event (batch.events ++ _)
      rw [List.map_append, h.events]
      rfl
    · have hcapture : (m.resolved r).event.captured_piece
          = r.event.captured_piece.map m.piece := rfl
      dsimp only
      rw [hcapture]
      cases r.event.captured_piece with
      | none => rfl
      | some captured => rfl
    · show (if r.piece_actually_arrived then _ else _) = _
      dsimp only
      rw [h.cooldowns]
      rfl

/-- Two arbiters, the one on the board that the other's is, seen so. -/
structure ShowsArbiter (m : Reflection) (a a' : RealTimeArbiter) : Prop where
  board : m.Shows a.board a'.board
  active_motions : a'.active_motions = a.active_motions.map m.motion
  cooldowns : a'.cooldowns_remaining_ms = a.cooldowns_remaining_ms
  clock : a'.clock_ms = a.clock_ms

theorem pending_arrivals_motion (ms : Int) (motions : List Motion) :
    pending_arrivals ms (motions.map m.motion) = (pending_arrivals ms motions).map m.pending := by
  unfold pending_arrivals
  rw [List.filter_map, List.map_map, List.map_map]
  rfl

theorem still_active_motion (ms : Int) (motions : List Motion) :
    still_active ms (motions.map m.motion) = (still_active ms motions).map m.motion := by
  unfold still_active
  rw [List.filter_map, List.map_map, List.map_map]
  rfl

/-- The arrivals come in the same order, since their times are the same. -/
theorem sorted_arrivals_motion (ms : Int) (motions : List Motion) :
    sorted_arrivals ms (motions.map m.motion) = (sorted_arrivals ms motions).map m.pending := by
  unfold sorted_arrivals
  rw [pending_arrivals_motion]
  exact (map_stableSort _ _ m.pending _ fun _ _ _ _ => Iff.rfl).symm

/-- **Time passes alike** on both sides. -/
theorem ShowsArbiter.advance_time (h : m.ShowsArbiter a a') (ms : Int) :
    Alike (fun r q => m.ShowsArbiter r.1 q.1 ∧ q.2 = r.2.map m.event) (a.advance_time ms)
      (a'.advance_time ms) := by
  unfold RealTimeArbiter.advance_time
  rw [h.active_motions, sorted_arrivals_motion, h.clock]
  have hstart : m.ShowsBatch (a.batch_start ms) (a'.batch_start ms) := by
    refine ⟨h.board, rfl, rfl, ?_⟩
    unfold batch_start
    rw [h.cooldowns]
  refine (Alike.foldlM (fun batch batch' p hbatch => hbatch.resolve_one a.clock_ms ms p) _ _ _
    hstart).bind fun batch batch' hbatch => ?_
  refine .ok ⟨⟨hbatch.board, ?_, ?_, ?_⟩, hbatch.events⟩
  · show List.filter _ (still_active ms a'.active_motions) = List.map m.motion (List.filter _ _)
    rw [h.active_motions, still_active_motion, hbatch.captured, List.filter_map]
    rfl
  · show erase_cooldowns _ _ = erase_cooldowns _ _
    rw [hbatch.captured, hbatch.cooldowns]
  · show a'.clock_ms + ms = a.clock_ms + ms
    rw [h.clock]

theorem ShowsArbiter.is_piece_busy (h : m.ShowsArbiter a a') (i : PieceId) :
    a'.is_piece_busy i = a.is_piece_busy i := by
  unfold RealTimeArbiter.is_piece_busy
  rw [h.active_motions, h.cooldowns, List.any_map]
  rfl

theorem ShowsArbiter.start_motion (h : m.ShowsArbiter a a') (t : Motion) :
    Alike m.ShowsArbiter (a.start_motion t) (a'.start_motion (m.motion t)) := by
  unfold RealTimeArbiter.start_motion
  refine (h.board.set_piece_state t.source _).bind fun b₁ c₁ h₁ =>
    .ok ⟨h₁, ?_, h.cooldowns, h.clock⟩
  rw [h.active_motions, List.map_append]
  rfl

end Arbiter

/-! ## The engine -/

open GameEngine

variable {g g' : GameEngine}

/-- Two engines, the one with the game that the other has, seen so. -/
structure Twins (m : Reflection) (g g' : GameEngine) : Prop where
  arbiter : m.ShowsArbiter g.arbiter g'.arbiter
  motion_factory : g'.motion_factory = g.motion_factory
  game_over : g'.game_over = g.game_over

theorem captured_a_king_event (e : ArrivalEvent) :
    captured_a_king (m.event e) = captured_a_king e := by
  unfold captured_a_king event
  dsimp only
  rw [Option.any_map]
  rfl

theorem create_move_position (f : MotionFactory) (x : Piece) (source destination : Position) :
    f.create_move (m.piece x) (m.position source) (m.position destination)
      = m.motion (f.create_move x source destination) := by
  unfold MotionFactory.create_move motion
  rw [cell_step_distance_position, piece_kind]

/-- The twins accept a move or refuse it with the same words. -/
theorem Twins.request_move (h : m.Twins g g') (source destination : Position) :
    Alike (fun r q => m.Twins r.1 q.1 ∧ q.2 = r.2) (g.request_move source destination)
      (g'.request_move (m.position source) (m.position destination)) := by
  unfold GameEngine.request_move
  rw [h.game_over, h.arbiter.board.pieces, h.arbiter.board.validate_move]
  split_ifs with hover
  · exact .ok ⟨h, rfl⟩
  · cases g.board.piece_at source with
    | none => exact .ok ⟨h, rfl⟩
    | some moving =>
        rw [Option.map_some]
        dsimp only
        rw [piece_id, h.arbiter.is_piece_busy, h.motion_factory, create_move_position]
        split_ifs with hbusy hvalid
        · exact .ok ⟨h, rfl⟩
        · exact (h.arbiter.start_motion _).bind fun a a' ha => .ok ⟨⟨ha, rfl, rfl⟩, rfl⟩
        · exact .ok ⟨h, rfl⟩

/-- The same of a jump. -/
theorem Twins.request_jump (h : m.Twins g g') (cell : Position) :
    Alike (fun r q => m.Twins r.1 q.1 ∧ q.2 = r.2) (g.request_jump cell)
      (g'.request_jump (m.position cell)) := by
  unfold GameEngine.request_jump
  rw [h.game_over, h.arbiter.board.pieces]
  split_ifs with hover
  · exact .ok ⟨h, rfl⟩
  · cases g.board.piece_at cell with
    | none => exact .ok ⟨h, rfl⟩
    | some x =>
        rw [Option.map_some]
        dsimp only
        rw [piece_id, h.arbiter.is_piece_busy, h.motion_factory]
        split_ifs with hbusy
        · exact .ok ⟨h, rfl⟩
        · exact (h.arbiter.start_motion (g.motion_factory.create_jump x cell)).bind fun a a' ha =>
            .ok ⟨⟨ha, rfl, rfl⟩, rfl⟩

/-- The twins wait alike, and end together. -/
theorem Twins.wait (h : m.Twins g g') (ms : Int) :
    Alike (fun r q => m.Twins r.1 q.1 ∧ q.2 = r.2.map m.event) (g.wait ms) (g'.wait ms) := by
  unfold GameEngine.wait
  rw [h.game_over]
  split_ifs with hover
  · exact .ok ⟨h, rfl⟩
  · refine (h.arbiter.advance_time ms).bind ?_
    rintro ⟨a, es⟩ ⟨a', es'⟩ ⟨ha, rfl⟩
    refine .ok ⟨⟨ha, h.motion_factory, ?_⟩, rfl⟩
    dsimp only
    rw [List.any_map]
    exact congrArg es.any (funext captured_a_king_event)

theorem twins_new (f : MotionFactory) (hw : b.width = m.width) (hh : b.height = m.height) :
    m.Twins (.new f b) (.new f (m.board b)) :=
  ⟨⟨shows_board hw hh, rfl, rfl, rfl⟩, rfl, rfl⟩

/-! ## Runs -/

/-- What is heard of the one, seen so, is heard of the other. -/
def heard (m : Reflection) : Heard → Heard
  | .answer result => .answer result
  | .arrival e => .arrival (m.event e)

/-- **The step lemma.** Whatever the command, the twins stay twins. -/
theorem Twins.exec (h : m.Twins g g') (cmd : Command) :
    Alike (fun r q => m.Twins r.1 q.1 ∧ q.2 = r.2.map m.heard) (exec_aloud g cmd)
      (exec_aloud g' (m.command cmd)) := by
  cases cmd with
  | request_move source destination =>
      refine (h.request_move source destination).bind ?_
      rintro ⟨g₁, r⟩ ⟨g₂, q⟩ ⟨h₁, rfl⟩
      exact .ok ⟨h₁, rfl⟩
  | request_jump cell =>
      refine (h.request_jump cell).bind ?_
      rintro ⟨g₁, r⟩ ⟨g₂, q⟩ ⟨h₁, rfl⟩
      exact .ok ⟨h₁, rfl⟩
  | wait ms =>
      refine (h.wait ms).bind ?_
      rintro ⟨g₁, es⟩ ⟨g₂, es'⟩ ⟨h₁, rfl⟩
      refine .ok ⟨h₁, ?_⟩
      show (es.map m.event).map Heard.arrival = (es.map Heard.arrival).map m.heard
      rw [List.map_map, List.map_map]
      rfl

/-! ## The verdict -/

/-- What the observer of the one knows, seen so. -/
def observer (m : Reflection) (o : GameOverObserver) : GameOverObserver :=
  { o with winner := o.winner.map m.color }

theorem on_arrival_event (o : GameOverObserver) (e : ArrivalEvent) :
    (m.observer o).on_arrival (m.event e) = m.observer (o.on_arrival e) := by
  obtain ⟨winner, decided_at, draw⟩ := o
  unfold GameOverObserver.on_arrival
  rw [captured_a_king_event]
  by_cases hquiet : draw = true ∨ ¬ captured_a_king e = true
  · rw [if_pos hquiet, if_pos (by exact hquiet)]
  · rw [if_neg hquiet, if_neg (by exact hquiet)]
    cases winner with
    | none => rfl
    | some winner =>
        have hrival : m.color winner ≠ (m.event e).moved_piece.color
            ↔ winner ≠ e.moved_piece.color := m.color_inj.not
        show (if m.color winner ≠ _ ∧ _ then _ else _) = m.observer (if _ then _ else _)
        by_cases hboth : winner ≠ e.moved_piece.color ∧ e.arrived_at_ms = decided_at
        · rw [if_pos ⟨hrival.mpr hboth.1, hboth.2⟩, if_pos hboth]
          rfl
        · rw [if_neg fun hmirror => hboth ⟨hrival.mp hmirror.1, hmirror.2⟩, if_neg hboth]

theorem verdict_heard (os : List Heard) : verdict (os.map m.heard) = m.observer (verdict os) := by
  have harrivals : arrivals (os.map m.heard) = (arrivals os).map m.event := by
    unfold arrivals
    rw [List.filterMap_map, List.map_filterMap]
    congr 1
    funext o
    cases o <;> rfl
  have hfold : ∀ (es : List ArrivalEvent) (o : GameOverObserver),
      (es.map m.event).foldl GameOverObserver.on_arrival (m.observer o)
        = m.observer (es.foldl GameOverObserver.on_arrival o) := by
    intro es
    induction es with
    | nil => intro o; rfl
    | cons e es ih =>
        intro o
        rw [List.map_cons, List.foldl_cons, List.foldl_cons, on_arrival_event, ih]
  unfold verdict
  rw [harrivals]
  exact hfold _ {}

/-- **No side is favoured, and no hand.** On every board, whatever commands are given: if
the board is turned round and the colours exchanged, or the columns turned round, or both,
and the commands with it, then the engine gives the same answers in the same words, and
reports the same arrivals at the same times, seen so, with the other winner where the
colours are exchanged; what it ends on is what it ends on, seen so. -/
theorem no_side_is_favoured (f : MotionFactory) (b : Board) (exchanged flipped : Bool)
    (cmds : List Command) :
    let m : Reflection := ⟨b.width, b.height, exchanged, flipped⟩
    Alike (fun r q => m.Twins r.1 q.1 ∧ q.1.board = m.board r.1.board ∧ q.2 = r.2.map m.heard ∧
        verdict q.2 = m.observer (verdict r.2))
      (run exec_aloud (.new f b) cmds)
      (run exec_aloud (.new f (m.board b)) (cmds.map m.command)) := by
  intro m
  have hrun := Alike.run (fun g g' cmd (h : m.Twins g g') => h.exec cmd) cmds _ _
    (twins_new f rfl rfl : m.Twins (.new f b) (.new f (m.board b)))
  refine hrun.mono ?_
  rintro ⟨g, os⟩ ⟨g', os'⟩ ⟨h, rfl⟩
  exact ⟨h, h.arbiter.board.eq_board, rfl, verdict_heard os⟩

end Reflection

end KungFuChess
