/-
The **board text**, both ways: `kfc/io/piece_token.cpp`, `board_parser.cpp` and
`board_printer.cpp`.

A cell has one text (`cell_text`), and `parse_cell` reads exactly that
(`parse_cell_iff`): the letter tables of parser and printer are inverse. So `parse`
succeeds exactly on the texts of grids of cells, and the board it makes is known cell by
cell (`parse_iff`). The printer writes the text of the grid that stands on the board
(`print_eq`), and the round trips follow.
-/
import KungFuChess.BoardParser
import KungFuChess.Words
import Mathlib.Data.Set.List

set_option autoImplicit false

namespace KungFuChess

open Machine (bind_ok_iff)

/-! ## `piece_token.cpp` -/

def letter_for_kind : PieceKind → Char
  | .King => 'K'
  | .Queen => 'Q'
  | .Rook => 'R'
  | .Bishop => 'B'
  | .Knight => 'N'
  | .Pawn => 'P'
  | .Drone => 'D'

def piece_token_text (color : PieceColor) (kind : PieceKind) : String :=
  String.ofList [if color = .White then 'w' else 'b', letter_for_kind kind]

/-- The text of a cell. -/
def cell_text : Option PieceToken → String
  | none => "."
  | some token => piece_token_text token.color token.kind

theorem kind_for_letter_eq_some {letter : Char} {kind : PieceKind} :
    kind_for_letter letter = some kind ↔ letter = letter_for_kind kind := by
  constructor
  · intro h
    unfold kind_for_letter at h
    split at h <;> cases h <;> rfl
  · rintro rfl
    cases kind <;> rfl

theorem toList_piece_token_text (color : PieceColor) (kind : PieceKind) :
    (piece_token_text color kind).toList
      = [if color = .White then 'w' else 'b', letter_for_kind kind] :=
  String.toList_ofList

/-- **Parser and printer agree on a token.** -/
theorem parse_piece_token_eq_some {token : String} {t : PieceToken} :
    parse_piece_token token = some t ↔ token = piece_token_text t.color t.kind := by
  rw [← String.toList_inj, toList_piece_token_text]
  unfold parse_piece_token
  generalize token.toList = chars
  constructor
  · intro h
    split at h
    · rename_i c letter
      split_ifs at h with hneither hwhite
      · obtain ⟨kind, hkind, rfl⟩ := Option.map_eq_some_iff.mp h
        rw [kind_for_letter_eq_some.mp hkind, hwhite]
        rfl
      · obtain ⟨kind, hkind, rfl⟩ := Option.map_eq_some_iff.mp h
        have hblack : c = 'b' := by
          by_contra hne
          exact hneither ⟨hwhite, hne⟩
        rw [kind_for_letter_eq_some.mp hkind, hblack]
        rfl
    · cases h
  · rintro rfl
    obtain ⟨color, kind⟩ := t
    cases color <;> cases kind <;> rfl

theorem piece_token_text_ne_dot (color : PieceColor) (kind : PieceKind) :
    piece_token_text color kind ≠ "." := by
  intro h
  have hlength := congrArg (fun s => s.toList.length) h
  rw [toList_piece_token_text] at hlength
  cases hlength

/-- **A cell is read from its text, and from no other.** -/
theorem parse_cell_iff {token : String} {cell : Option PieceToken} :
    parse_cell token = .ok cell ↔ token = cell_text cell := by
  unfold parse_cell
  split_ifs with hdot
  · subst hdot
    cases cell with
    | none => exact iff_of_true rfl rfl
    | some t =>
        refine iff_of_false ?_ (piece_token_text_ne_dot t.color t.kind).symm
        rintro ⟨⟩
  · cases cell with
    | none =>
        refine iff_of_false ?_ hdot
        cases parse_piece_token token with
        | none => rintro ⟨⟩
        | some t => rintro ⟨⟩
    | some t =>
        rw [cell_text, ← parse_piece_token_eq_some]
        cases parse_piece_token token with
        | none => exact iff_of_false (by rintro ⟨⟩) (by rintro ⟨⟩)
        | some t' => simp

/-! ## The grid that is parsed -/

/-- What reads each element from its text reads a list from the list of texts. -/
theorem mapM_ok_iff {ε α β : Type} {read : α → Except ε β} {text : β → α}
    (hread : ∀ {a b}, read a = .ok b ↔ a = text b) {as : List α} {bs : List β} :
    as.mapM read = .ok bs ↔ as = bs.map text := by
  induction as generalizing bs with
  | nil =>
      rw [List.mapM_nil]
      cases bs with
      | nil => exact iff_of_true rfl rfl
      | cons b bs => exact iff_of_false (by rintro ⟨⟩) (by rintro ⟨⟩)
  | cons a as ih =>
      rw [List.mapM_cons, bind_ok_iff]
      constructor
      · rintro ⟨b, hb, hrest⟩
        obtain ⟨bs', hbs, hret⟩ := (bind_ok_iff _ _ _).mp hrest
        cases hret
        rw [List.map_cons, ← hread.mp hb, ← ih.mp hbs]
      · intro h
        cases bs with
        | nil => cases h
        | cons b bs =>
            obtain ⟨hb, hbs⟩ := List.cons.inj h
            exact ⟨b, hread.mpr hb, (bind_ok_iff _ _ _).mpr ⟨bs, ih.mpr hbs, rfl⟩⟩

/-- Rows of cells, as they are stored on a board: row by row. -/
abbrev Grid := List (List (Option PieceToken))

/-- The rows are those of a board of this width. -/
def Uniform (width : Nat) (rows : Grid) : Prop := ∀ row ∈ rows, row.length = width

/-- The texts of the cells. -/
def tokens (rows : Grid) : List (List String) := rows.map fun row => row.map cell_text

theorem mapM_rows_iff {grid : List (List String)} {rows : Grid} :
    (grid.mapM fun row => row.mapM parse_cell) = .ok rows ↔ grid = tokens rows :=
  mapM_ok_iff (mapM_ok_iff parse_cell_iff)

/-- The piece of a token that is the `i`-th cell, row by row. -/
def piece_of (width i : Nat) (n : Int) (token : PieceToken) : Piece :=
  { id := ⟨n⟩, color := token.color, kind := token.kind,
    cell := ⟨(i / width : Nat), (i % width : Nat)⟩, state := .Idle }

theorem piece_of_row_col {width row col : Nat} (hcol : col < width) (n : Int) (t : PieceToken) :
    piece_of width (row * width + col) n t
      = ⟨⟨n⟩, t.color, t.kind, ⟨row, col⟩, .Idle, false⟩ := by
  unfold piece_of
  rw [Nat.mul_comm, Nat.mul_add_div (by omega), Nat.mul_add_mod, Nat.div_eq_of_lt hcol,
    Nat.mod_eq_of_lt hcol, Nat.add_zero]

/-- The cells of the board from the `i`-th on, with `n` the next id. -/
def cells_from (width : Nat) : Nat → Int → List (Option PieceToken) → List (Option Piece)
  | _, _, [] => []
  | i, n, none :: cells => none :: cells_from width (i + 1) n cells
  | i, n, some token :: cells =>
      some (piece_of width i n token) :: cells_from width (i + 1) (n + 1) cells

/-- How many pieces there are. -/
def pieces_in (cells : List (Option PieceToken)) : Nat := cells.countP Option.isSome

theorem length_cells_from (width i : Nat) (n : Int) (cells : List (Option PieceToken)) :
    (cells_from width i n cells).length = cells.length := by
  induction cells generalizing i n with
  | nil => rfl
  | cons cell cells ih =>
      cases cell with
      | none => exact congrArg (· + 1) (ih _ _)
      | some token => exact congrArg (· + 1) (ih _ _)

theorem pieces_in_cons_none (cells : List (Option PieceToken)) :
    pieces_in (none :: cells) = pieces_in cells :=
  List.countP_cons_of_neg (by simp)

theorem pieces_in_cons_some (token : PieceToken) (cells : List (Option PieceToken)) :
    (pieces_in (some token :: cells) : Int) = pieces_in cells + 1 := by
  unfold pieces_in
  rw [List.countP_cons_of_pos (by simp)]
  rfl

theorem cells_from_append (width i : Nat) (n : Int) (cells more : List (Option PieceToken)) :
    cells_from width i n (cells ++ more)
      = cells_from width i n cells
        ++ cells_from width (i + cells.length) (n + pieces_in cells) more := by
  induction cells generalizing i n with
  | nil =>
      rw [List.nil_append, cells_from, List.nil_append, List.length_nil, pieces_in,
        List.countP_nil, Nat.add_zero, Int.natCast_zero, Int.add_zero]
  | cons cell cells ih =>
      have hi : i + (cell :: cells).length = i + 1 + cells.length := by
        rw [List.length_cons]
        omega
      cases cell with
      | none =>
          rw [List.cons_append, cells_from, cells_from, ih, hi, pieces_in_cons_none,
            List.cons_append]
      | some token =>
          have hid : n + pieces_in (some token :: cells) = n + 1 + pieces_in cells := by
            rw [pieces_in_cons_some]
            omega
          rw [List.cons_append, cells_from, cells_from, ih, hi, hid, List.cons_append]

/-! ## The placement -/

variable {b : Board} {row col k : Nat} {n : Int} {before : List (Option Piece)}

/-- The next cell is written. -/
theorem add_piece_next {rest : List (Option Piece)} {t : PieceToken}
    (hcells : b.cells = before ++ none :: rest) (hbefore : before.length = row * b.width + col)
    (hrow : row < b.height) (hcol : col < b.width) :
    ∃ b', b.add_piece
        { id := ⟨n⟩, color := t.color, kind := t.kind, cell := ⟨row, col⟩,
          state := .Idle } = .ok b' ∧
      b'.width = b.width ∧ b'.height = b.height ∧
      b'.cells = before ++ some (piece_of b.width (row * b.width + col) n t) :: rest := by
  have hin : b.in_bounds ⟨row, col⟩ := by
    unfold Board.in_bounds
    dsimp only
    omega
  have hindex : b.index ⟨row, col⟩ = before.length := by
    rw [hbefore]
    rfl
  -- the cells before it are written, it and those behind it are free
  have hnone : b.piece_at ⟨row, col⟩ = none := by
    rw [Board.piece_at, if_pos hin, hindex, hcells, List.getD_eq_getElem?_getD,
      List.getElem?_append_right (le_refl _), Nat.sub_self]
    rfl
  refine ⟨_, Board.add_piece_ok_iff.mpr ⟨hin, hnone, rfl⟩, rfl, rfl, ?_⟩
  show b.cells.set (b.index ⟨row, col⟩) _ = _
  rw [hindex, hcells, List.set_append_right _ _ (le_refl _), Nat.sub_self, List.set_cons_zero,
    piece_of_row_col hcol]

/-- **The inner loop** writes the cells of a row. -/
theorem place_row_eq {cells : List (Option PieceToken)}
    (hcells : b.cells = before ++ List.replicate (cells.length + k) none)
    (hbefore : before.length = row * b.width + col) (hcol : col + cells.length ≤ b.width)
    (hrow : row < b.height) :
    ∃ b', place_row row col cells (n, b) = .ok (n + pieces_in cells, b') ∧
      b'.width = b.width ∧ b'.height = b.height ∧
      b'.cells = before ++ cells_from b.width (row * b.width + col) n cells
        ++ List.replicate k none := by
  induction cells generalizing b col before n with
  | nil =>
      refine ⟨b, ?_, rfl, rfl, ?_⟩
      · rw [place_row, pieces_in, List.countP_nil, Nat.cast_zero, Int.add_zero]
      · rw [hcells, List.length_nil, Nat.zero_add, cells_from, List.append_nil]
  | cons cell cells ih =>
      rw [List.length_cons] at hcol
      have hsucc : (cell :: cells).length + k = cells.length + k + 1 := by
        rw [List.length_cons]
        omega
      rw [hsucc, List.replicate_succ] at hcells
      cases cell with
      | none =>
          -- nothing is written, and one free cell more counts as passed
          have hnext : b.cells = (before ++ [none]) ++ List.replicate (cells.length + k) none := by
            rw [hcells, List.append_assoc, List.singleton_append]
          have hlength : (before ++ [none]).length = row * b.width + (col + 1) := by
            rw [List.length_append, hbefore, List.length_singleton, Nat.add_assoc]
          obtain ⟨b', hplace, hwidth, hheight, hcells'⟩ :=
            ih (n := n) hnext hlength (by omega) hrow
          refine ⟨b', hplace, hwidth, hheight, ?_⟩
          rw [hcells', cells_from, List.append_assoc before, List.singleton_append]
          rfl
      | some token =>
          obtain ⟨b₁, hadd, hwidth₁, hheight₁, hcells₁⟩ :=
            add_piece_next (n := n) (t := token) hcells hbefore hrow (by omega)
          have hnext : b₁.cells = (before ++ [some (piece_of b.width (row * b.width + col) n
              token)]) ++ List.replicate (cells.length + k) none := by
            rw [hcells₁, List.append_assoc, List.singleton_append]
          have hlength : (before ++ [some (piece_of b.width (row * b.width + col) n token)]).length
              = row * b₁.width + (col + 1) := by
            rw [List.length_append, hbefore, hwidth₁, List.length_singleton, Nat.add_assoc]
          obtain ⟨b', hplace, hwidth, hheight, hcells'⟩ :=
            ih (n := n + 1) hnext hlength (by omega) (by omega)
          refine ⟨b', ?_, hwidth.trans hwidth₁, hheight.trans hheight₁, ?_⟩
          · rw [place_row]
            refine (bind_ok_iff _ _ _).mpr ⟨b₁, hadd, ?_⟩
            rw [hplace, pieces_in_cons_some, Int.add_assoc, Int.add_comm 1]
          · rw [hcells', cells_from, hwidth₁, List.append_assoc before, List.singleton_append]
            rfl

theorem length_flatten_of_uniform {width : Nat} {rows : Grid} (h : Uniform width rows) :
    rows.flatten.length = rows.length * width := by
  induction rows with
  | nil => exact (Nat.zero_mul width).symm
  | cons row rows ih =>
      obtain ⟨hrow, hrows⟩ := List.forall_mem_cons.mp h
      rw [List.flatten_cons, List.length_append, hrow, ih hrows, List.length_cons, Nat.succ_mul,
        Nat.add_comm]

theorem pieces_in_append (cells more : List (Option PieceToken)) :
    pieces_in (cells ++ more) = pieces_in cells + pieces_in more :=
  List.countP_append

/-- **The outer loop** writes row after row. -/
theorem place_rows_eq {rows : Grid}
    (hcells : b.cells = before ++ List.replicate rows.flatten.length none)
    (hbefore : before.length = row * b.width) (hrow : row + rows.length ≤ b.height)
    (huniform : Uniform b.width rows) :
    ∃ b', place_rows row rows (n, b) = .ok (n + pieces_in rows.flatten, b') ∧
      b'.width = b.width ∧ b'.height = b.height ∧
      b'.cells = before ++ cells_from b.width (row * b.width) n rows.flatten := by
  induction rows generalizing b row before n with
  | nil =>
      refine ⟨b, ?_, rfl, rfl, hcells⟩
      rw [place_rows, List.flatten_nil, pieces_in, List.countP_nil, Nat.cast_zero, Int.add_zero]
  | cons cells rows ih =>
      obtain ⟨hlength, hrest⟩ := List.forall_mem_cons.mp huniform
      rw [List.length_cons] at hrow
      rw [List.flatten_cons, List.length_append] at hcells
      -- the row is written from its first column, what follows of the board stays free
      have hstart : before.length = row * b.width + 0 := by rw [hbefore, Nat.add_zero]
      obtain ⟨b₁, hplace₁, hwidth₁, hheight₁, hcells₁⟩ :=
        place_row_eq (n := n) hcells hstart (by omega) (by omega)
      rw [Nat.add_zero] at hcells₁
      have hdone : (before ++ cells_from b.width (row * b.width) n cells).length
          = (row + 1) * b₁.width := by
        rw [List.length_append, length_cells_from, hbefore, hlength, hwidth₁, Nat.succ_mul]
      obtain ⟨b', hplace, hwidth, hheight, hcells'⟩ :=
        ih (n := n + pieces_in cells) hcells₁ hdone (by omega) (by rwa [hwidth₁])
      refine ⟨b', ?_, hwidth.trans hwidth₁, hheight.trans hheight₁, ?_⟩
      · rw [place_rows]
        refine (bind_ok_iff _ _ _).mpr ⟨_, hplace₁, ?_⟩
        rw [hplace, List.flatten_cons, pieces_in_append, Nat.cast_add, Int.add_assoc]
      · rw [hcells', hwidth₁, List.flatten_cons, cells_from_append, hlength, Nat.succ_mul,
          List.append_assoc]

/-! ## The board that is parsed -/

/-- **The board of a grid**: its cells row by row, the pieces numbered from one. -/
def board_of (width : Nat) (rows : Grid) (h : Uniform width rows) : Board :=
  ⟨width, rows.length, cells_from width 0 1 rows.flatten, by
    rw [length_cells_from, length_flatten_of_uniform h, Nat.mul_comm]⟩

theorem parse_grid_tokens {width : Nat} {rows : Grid} (h : Uniform width rows) :
    parse_grid width (tokens rows) = .ok (board_of width rows h) := by
  have hlength : (tokens rows).length = rows.length := List.length_map _
  have hempty : (Board.empty width rows.length).cells
      = [] ++ List.replicate rows.flatten.length none := by
    rw [length_flatten_of_uniform h, Nat.mul_comm]
    rfl
  have hstart : ([] : List (Option Piece)).length = 0 * (Board.empty width rows.length).width :=
    (Nat.zero_mul _).symm
  have hrows : 0 + rows.length ≤ (Board.empty width rows.length).height := (Nat.zero_add _).le
  obtain ⟨b', hplace, hwidth, hheight, hcells⟩ := place_rows_eq (n := 1) hempty hstart hrows h
  have hboard : b' = board_of width rows h := by
    rw [Nat.zero_mul, List.nil_append] at hcells
    obtain ⟨w, ht, cs, hsize⟩ := b'
    dsimp only at hwidth hheight hcells
    subst hwidth hheight hcells
    rfl
  unfold parse_grid
  rw [hlength]
  refine (bind_ok_iff _ _ _).mpr ⟨rows, mapM_rows_iff.mpr rfl, ?_⟩
  rw [hplace, hboard]

/-- A grid with cells in every row, of one width. -/
structure Shaped (width : Nat) (rows : Grid) : Prop where
  some_row : rows ≠ []
  some_cell : 0 < width
  uniform : Uniform width rows

theorem uniform_iff_tokens {width : Nat} {rows : Grid} :
    Uniform width rows ↔ ∀ row ∈ tokens rows, row.length = width := by
  unfold tokens Uniform
  rw [List.forall_mem_map]
  simp only [List.length_map]

/-- `parse`, with the checks of the shape as conditions. -/
theorem parse_shape {lines : List String} {front : List String} {rest : List (List String)}
    (hlines : lines.map tokenize = front :: rest) {b : Board} :
    parse lines = .ok b ↔ 0 < front.length ∧
      (∀ row ∈ front :: rest, row.length = front.length) ∧
      parse_grid front.length (front :: rest) = .ok b := by
  unfold parse
  rw [hlines]
  dsimp only
  split_ifs with hblank hragged
  · -- a first line without tokens, and a line of another width, are the two `throw`s here
    exact iff_of_false (by rintro ⟨⟩) fun h => absurd hblank h.1.ne'
  · refine iff_of_false (by rintro ⟨⟩) fun h => ?_
    obtain ⟨row, hrow, hne⟩ := List.any_eq_true.mp hragged
    exact (decide_eq_true_eq.mp hne) (h.2.1 row hrow)
  · have huniform : ∀ row ∈ front :: rest, row.length = front.length := by
      intro row hrow
      by_contra hne
      exact hragged (List.any_eq_true.mpr ⟨row, hrow, decide_eq_true hne⟩)
    rw [and_iff_right (Nat.pos_of_ne_zero hblank), and_iff_right huniform]

/-- **Exactly the texts of grids are parsed**, and into the board of the grid. -/
theorem parse_iff {lines : List String} {b : Board} :
    parse lines = .ok b ↔ ∃ width rows, ∃ h : Shaped width rows,
      lines.map tokenize = tokens rows ∧ b = board_of width rows h.uniform := by
  cases hlines : lines.map tokenize with
  | nil =>
      refine iff_of_false ?_ ?_
      · unfold parse
        rw [hlines]
        rintro ⟨⟩
      · rintro ⟨width, rows, h, htokens, -⟩
        exact h.some_row (List.map_eq_nil_iff.mp htokens.symm)
  | cons front rest =>
      rw [parse_shape hlines]
      constructor
      · rintro ⟨hsome, hshape, hgrid⟩
        obtain ⟨rows, hrows, -⟩ := (bind_ok_iff _ _ _).mp hgrid
        have htokens := mapM_rows_iff.mp hrows
        rw [htokens] at hshape hgrid
        -- once all tokens are read, the placement cannot fail
        have huniform := uniform_iff_tokens.mpr hshape
        rw [parse_grid_tokens huniform] at hgrid
        refine ⟨front.length, rows, ⟨?_, hsome, huniform⟩, htokens, (Except.ok.inj hgrid).symm⟩
        rintro rfl
        cases htokens
      · rintro ⟨width, rows, h, htokens, rfl⟩
        have hshape := uniform_iff_tokens.mp h.uniform
        rw [← htokens] at hshape
        have hwidth : front.length = width := hshape front List.mem_cons_self
        rw [hwidth, htokens]
        exact ⟨h.some_cell, htokens ▸ hshape, parse_grid_tokens h.uniform⟩

/-! ## The grid on a board -/

/-- What a cell shows. -/
def token_at (b : Board) (pos : Position) : Option PieceToken :=
  (b.piece_at pos).map fun piece => ⟨piece.color, piece.kind⟩

/-- What the board shows, row by row. -/
def shown (b : Board) : Grid :=
  (List.range b.height).map fun (row : Nat) =>
    (List.range b.width).map fun (col : Nat) => token_at b ⟨row, col⟩

theorem uniform_shown (b : Board) : Uniform b.width (shown b) := by
  refine List.forall_mem_map.mpr fun row _ => ?_
  rw [List.length_map, List.length_range]

theorem length_shown (b : Board) : (shown b).length = b.height := by
  unfold shown
  rw [List.length_map, List.length_range]

/-- Storage row by row: the cell of a row and a column. -/
theorem getElem?_flatten_of_uniform {width row col : Nat} {rows : Grid} (h : Uniform width rows)
    (hcol : col < width) :
    rows.flatten[row * width + col]? = (rows[row]?).bind (·[col]?) := by
  induction rows generalizing row with
  | nil => rfl
  | cons cells rows ih =>
      obtain ⟨hcells, hrest⟩ := List.forall_mem_cons.mp h
      rw [List.flatten_cons]
      cases row with
      | zero =>
          rw [Nat.zero_mul, Nat.zero_add, List.getElem?_append_left (by omega)]
          rfl
      | succ row =>
          -- the first row is passed, and the place is counted from the second
          have hpast : cells.length ≤ (row + 1) * width + col := by
            rw [hcells, Nat.succ_mul]
            omega
          have hrow : (row + 1) * width + col - cells.length = row * width + col := by
            rw [hcells, Nat.succ_mul]
            omega
          rw [List.getElem?_append_right hpast, hrow, ih hrest]
          rfl

/-- A cell of the board of a grid: where it stands, and how many pieces are before it. -/
theorem getElem?_cells_from (width i j : Nat) (n : Int) (cells : List (Option PieceToken)) :
    (cells_from width i n cells)[j]? = (cells[j]?).map fun cell =>
      cell.map (piece_of width (i + j) (n + pieces_in (cells.take j))) := by
  induction cells generalizing i j n with
  | nil => rfl
  | cons cell cells ih =>
      cases j with
      | zero =>
          rw [List.take_zero, pieces_in, List.countP_nil, Nat.cast_zero, Int.add_zero,
            Nat.add_zero]
          cases cell with
          | none => rfl
          | some token => rfl
      | succ j =>
          have hi : i + 1 + j = i + (j + 1) := by omega
          rw [List.take_succ_cons]
          cases cell with
          | none =>
              rw [cells_from, List.getElem?_cons_succ, List.getElem?_cons_succ, ih, hi,
                pieces_in_cons_none]
          | some token =>
              have hid : n + pieces_in (some token :: cells.take j)
                  = n + 1 + pieces_in (cells.take j) := by
                rw [pieces_in_cons_some]
                omega
              rw [cells_from, List.getElem?_cons_succ, List.getElem?_cons_succ, ih, hi, hid]

/-- The cell of a grid. -/
def cell_at (rows : Grid) (row col : Nat) : Option (Option PieceToken) :=
  (rows[row]?).bind (·[col]?)

theorem piece_at_board_of {width : Nat} {rows : Grid} (h : Uniform width rows) {row col : Nat}
    {cell : Option PieceToken} (hcell : cell_at rows row col = some cell) :
    (board_of width rows h).piece_at ⟨row, col⟩ = cell.map (piece_of width (row * width + col)
      (1 + pieces_in (rows.flatten.take (row * width + col)))) := by
  obtain ⟨cells, hrow, hcol⟩ := Option.bind_eq_some_iff.mp hcell
  have hwidth : col < width := by
    rw [← h cells (List.mem_of_getElem? hrow)]
    exact (List.getElem?_eq_some_iff.mp hcol).1
  have hheight : row < rows.length := (List.getElem?_eq_some_iff.mp hrow).1
  have hin : (board_of width rows h).in_bounds ⟨row, col⟩ :=
    ⟨Int.natCast_nonneg _, Int.ofNat_lt.mpr hheight, Int.natCast_nonneg _, Int.ofNat_lt.mpr hwidth⟩
  rw [Board.piece_at, if_pos hin, List.getD_eq_getElem?_getD]
  show ((cells_from width 0 1 rows.flatten)[row * width + col]?).getD none = _
  rw [getElem?_cells_from, getElem?_flatten_of_uniform h hwidth,
    show (rows[row]?).bind (·[col]?) = some cell from hcell, Nat.zero_add]
  rfl

theorem token_at_board_of {width : Nat} {rows : Grid} (h : Uniform width rows) {row col : Nat}
    {cell : Option PieceToken} (hcell : cell_at rows row col = some cell) :
    token_at (board_of width rows h) ⟨row, col⟩ = cell := by
  rw [token_at, piece_at_board_of h hcell]
  cases cell with
  | none => rfl
  | some token => rfl

/-- **A parsed board shows the grid it was parsed from.** -/
theorem shown_board_of {width : Nat} {rows : Grid} (h : Uniform width rows) :
    shown (board_of width rows h) = rows := by
  -- row by row, and in each row cell by cell
  refine List.ext_getElem (length_shown _) fun row hleft hrow => ?_
  have hwidth := h rows[row] (List.getElem_mem hrow)
  simp only [shown, List.getElem_map, List.getElem_range]
  refine List.ext_getElem ?_ fun col hcol hcol' => ?_
  · rw [List.length_map, List.length_range, hwidth]
    rfl
  · rw [List.getElem_map, List.getElem_range]
    refine token_at_board_of h ?_
    rw [cell_at, List.getElem?_eq_getElem hrow]
    exact List.getElem?_eq_getElem hcol'

/-- The pieces are numbered in the order of the cells. -/
theorem ids_cells_from (width i : Nat) (n : Int) (cells : List (Option PieceToken)) :
    ((cells_from width i n cells).filterMap id).map (·.id.value)
      = (List.range (pieces_in cells)).map fun (k : Nat) => n + k := by
  induction cells generalizing i n with
  | nil => rfl
  | cons cell cells ih =>
      cases cell with
      | none =>
          rw [cells_from, List.filterMap_cons_none (f := id) rfl, ih, pieces_in_cons_none]
      | some token =>
          have hcount : pieces_in (some token :: cells) = pieces_in cells + 1 :=
            List.countP_cons_of_pos (by simp)
          rw [cells_from, List.filterMap_cons_some (f := id) rfl, List.map_cons, ih, hcount,
            List.range_succ_eq_map, List.map_cons, List.map_map]
          refine congrArg₂ _ (Int.add_zero n).symm (List.map_congr_left fun k _ => ?_)
          show n + 1 + (k : Int) = n + ((k + 1 : Nat) : Int)
          omega

/-! ## `board_printer.cpp` -/

/-- What is written for one cell. -/
def print_cell (b : Board) (row : Nat) (out : String) (col : Nat) : String :=
  (if 0 < col then out ++ " " else out) ++
    match b.piece_at ⟨row, col⟩ with
    | some occupant => piece_token_text occupant.color occupant.kind
    | none => "."

/-- One turn of the loop over the rows. -/
def print_row (b : Board) (out : String) (row : Nat) : String :=
  (List.range b.width).foldl (print_cell b row) out ++ "\n"

def print (b : Board) : String := (List.range b.height).foldl (print_row b) ""

/-- The text of a row: its tokens, single spaces between them. -/
def row_text (row : List String) : String := " ".intercalate row

theorem print_cell_eq (b : Board) (row : Nat) (out : String) (col : Nat) :
    print_cell b row out col
      = (if 0 < col then out ++ " " else out) ++ cell_text (token_at b ⟨row, col⟩) := by
  unfold print_cell token_at
  cases b.piece_at ⟨row, col⟩ with
  | none => rfl
  | some occupant => rfl

/-- The texts of the first cells of a row. -/
def texts (b : Board) (row n : Nat) : List String :=
  (List.range n).map fun (col : Nat) => cell_text (token_at b ⟨row, col⟩)

theorem texts_succ (b : Board) (row n : Nat) :
    texts b row (n + 1) = texts b row n ++ [cell_text (token_at b ⟨row, n⟩)] := by
  unfold texts
  rw [List.range_succ, List.map_append, List.map_singleton]

theorem print_cells_eq (b : Board) (row : Nat) (out : String) (n : Nat) :
    (List.range n).foldl (print_cell b row) out = out ++ row_text (texts b row n) := by
  induction n with
  | zero => exact (String.append_empty).symm
  | succ n ih =>
      rw [List.range_succ, List.foldl_append, ih, List.foldl_cons, List.foldl_nil, print_cell_eq,
        texts_succ]
      unfold row_text
      -- the first cell of a row has no space before it
      by_cases hfirst : 0 < n
      · have hsome : texts b row n ≠ [] := by
          rw [texts, Ne, List.map_eq_nil_iff, List.range_eq_nil]
          omega
        rw [if_pos hfirst, String.intercalate_append_of_ne_nil hsome (List.cons_ne_nil _ _),
          String.intercalate_singleton, String.append_assoc, String.append_assoc,
          String.append_assoc]
      · obtain rfl : n = 0 := by omega
        rw [if_neg hfirst, show texts b row 0 = [] from rfl, List.nil_append,
          String.intercalate_nil, String.intercalate_singleton, String.append_empty]

/-- A text of lines, each ended. -/
def lines_text (lines : List String) : String := String.join (lines.map (· ++ "\n"))

theorem tokens_append (rows : Grid) (row : List (Option PieceToken)) :
    tokens (rows ++ [row]) = tokens rows ++ [row.map cell_text] :=
  List.map_append

theorem toList_lines_text (lines : List String) :
    (lines_text lines).toList = (lines.map String.toList).flatMap (· ++ ['\n']) := by
  rw [lines_text, String.toList_join, List.flatMap_map, List.flatMap_map]
  exact List.flatMap_congr fun line _ => String.toList_append

theorem lines_text_append (lines : List String) (line : String) :
    lines_text (lines ++ [line]) = lines_text lines ++ line ++ "\n" := by
  rw [← String.toList_inj, String.toList_append, String.toList_append, toList_lines_text,
    toList_lines_text, List.map_append, List.flatMap_append, List.append_assoc,
    List.map_singleton, List.flatMap_singleton]
  rfl

/-- **The printer writes what the board shows.** -/
theorem print_eq (b : Board) : print b = lines_text ((tokens (shown b)).map row_text) := by
  have hrows : ∀ n, (List.range n).foldl (print_row b) "" = lines_text ((tokens
      ((List.range n).map fun (row : Nat) =>
        (List.range b.width).map fun (col : Nat) => token_at b ⟨row, col⟩)).map row_text) := by
    intro n
    induction n with
    | zero => rfl
    | succ n ih =>
        rw [List.range_succ, List.foldl_append, ih, List.foldl_cons, List.foldl_nil, print_row,
          print_cells_eq, List.map_append, List.map_singleton, tokens_append, List.map_append,
          List.map_singleton, lines_text_append, List.map_map]
        rfl
  exact hrows b.height

/-! ## Round trips -/

/-- The lines of a text: `std::getline` until there is no more. -/
def getlines (text : String) : List String := (Words.lines '\n' text.toList).map String.ofList

theorem tokenize_eq (line : String) :
    tokenize line = (Words.words isspace line.toList).map String.ofList :=
  rfl

/-- **The tokens of a line** are its words, by the grammar of words. -/
theorem tokenize_eq_iff {line : String} {ts : List String} :
    tokenize line = ts ↔ Words.Separated isspace line.toList (ts.map String.toList) := by
  rw [← Words.words_eq_iff, tokenize_eq]
  constructor
  · rintro rfl
    rw [List.map_map]
    exact (List.map_id'' (fun w => String.toList_ofList) _).symm
  · intro h
    rw [h, List.map_map]
    exact List.map_id'' (fun s => String.ofList_toList) _

theorem solid_of_all {word : List Char} (hne : word ≠ []) (hall : word.all (!isspace ·) = true) :
    Words.Solid isspace word := by
  refine ⟨hne, fun c hc => ?_⟩
  simpa using List.all_eq_true.mp hall c hc

/-- The text of a cell is one word. -/
theorem solid_cell_text (cell : Option PieceToken) :
    Words.Solid isspace (cell_text cell).toList := by
  cases cell with
  | none => exact solid_of_all (by decide) (by decide)
  | some t =>
      obtain ⟨color, kind⟩ := t
      rw [cell_text, toList_piece_token_text]
      cases color <;> cases kind <;> exact solid_of_all (by decide) (by decide)

theorem tokenize_row_text (row : List (Option PieceToken)) :
    tokenize (row_text (row.map cell_text)) = row.map cell_text := by
  have hsolid : ∀ w ∈ (row.map cell_text).map String.toList, Words.Solid isspace w := by
    intro w hw
    rw [List.map_map] at hw
    obtain ⟨cell, -, rfl⟩ := List.mem_map.mp hw
    exact solid_cell_text cell
  rw [tokenize_eq, row_text, String.toList_intercalate]
  have hwords : Words.words isspace ([' '].intercalate _) = _ :=
    Words.words_intercalate (by decide) hsolid
  rw [show " ".toList = [' '] from rfl, hwords, List.map_map]
  exact List.map_id'' (fun s => String.ofList_toList) _

/-- A row has no line ends. -/
theorem newline_not_mem_row_text (row : List (Option PieceToken)) :
    '\n' ∉ (row_text (row.map cell_text)).toList := by
  rw [row_text, String.toList_intercalate]
  intro h
  rw [show " ".toList = [' '] from rfl] at h
  -- neither the separators nor the cells have one
  rcases Words.mem_intercalate h with heq | ⟨w, hw, hin⟩
  · cases heq
  · rw [List.map_map] at hw
    obtain ⟨cell, -, rfl⟩ := List.mem_map.mp hw
    exact Bool.false_ne_true ((solid_cell_text cell).2 _ hin).symm

theorem getlines_lines_text (rows : Grid) :
    getlines (lines_text ((tokens rows).map row_text)) = (tokens rows).map row_text := by
  have hlines : ∀ line ∈ ((tokens rows).map row_text).map String.toList, '\n' ∉ line := by
    intro line hline
    rw [tokens, List.map_map, List.map_map] at hline
    obtain ⟨row, -, rfl⟩ := List.mem_map.mp hline
    exact newline_not_mem_row_text row
  rw [getlines, toList_lines_text, Words.lines_of_terminated hlines, List.map_map]
  exact List.map_id'' (fun s => String.ofList_toList) _

theorem tokenize_rows (rows : Grid) :
    ((tokens rows).map row_text).map tokenize = tokens rows := by
  unfold tokens
  rw [List.map_map, List.map_map]
  exact List.map_congr_left fun row _ => tokenize_row_text row

/-- **The printed text of a board is parsed**, into a board that shows the same. -/
theorem parse_print {b : Board} (hwidth : 0 < b.width) (hheight : 0 < b.height) :
    parse (getlines (print b)) = .ok (board_of b.width (shown b) (uniform_shown b)) := by
  have hsome : shown b ≠ [] := by
    rw [← List.length_pos_iff, length_shown]
    exact hheight
  rw [print_eq, getlines_lines_text]
  exact parse_iff.mpr ⟨b.width, shown b, ⟨hsome, hwidth, uniform_shown b⟩, tokenize_rows _, rfl⟩

theorem cell_at_shown {b : Board} {row col : Nat} (hrow : row < b.height) (hcol : col < b.width) :
    cell_at (shown b) row col = some (token_at b ⟨row, col⟩) := by
  rw [cell_at, shown, List.getElem?_map, List.getElem?_range hrow]
  show ((List.range b.width).map _)[col]? = _
  rw [List.getElem?_map, List.getElem?_range hcol]
  rfl

/-- That board shows in every cell what the printed one does. -/
theorem token_at_parsed_print (b : Board) (pos : Position) :
    token_at (board_of b.width (shown b) (uniform_shown b)) pos = token_at b pos := by
  by_cases hin : b.in_bounds pos
  · obtain ⟨row, col⟩ := pos
    obtain ⟨hrow, hrow', hcol, hcol'⟩ := hin
    obtain ⟨r, rfl⟩ := Int.eq_ofNat_of_zero_le hrow
    obtain ⟨c, rfl⟩ := Int.eq_ofNat_of_zero_le hcol
    exact token_at_board_of _ (cell_at_shown (Int.ofNat_lt.mp hrow') (Int.ofNat_lt.mp hcol'))
  · -- off the board neither has a piece
    have hout : ¬ (board_of b.width (shown b) (uniform_shown b)).in_bounds pos := by
      unfold Board.in_bounds
      rw [show (board_of b.width (shown b) (uniform_shown b)).height = b.height from length_shown b]
      exact hin
    rw [token_at, token_at, Board.piece_at_of_not_in_bounds hin,
      Board.piece_at_of_not_in_bounds hout]

/-- The grammar of a cell: a dot, or a colour and a kind. -/
def CellToken (token : String) : Prop :=
  token = "." ∨ ∃ color ∈ ['w', 'b'], ∃ kind ∈ ['K', 'Q', 'R', 'B', 'N', 'P', 'D'],
    token = String.ofList [color, kind]

/-- The grammar of a board: some rows of cells, all of one positive width. -/
structure BoardGrammar (lines : List String) : Prop where
  some_line : lines ≠ []
  one_width : ∃ width, 1 ≤ width ∧ ∀ line ∈ lines, ∃ ts : List String,
    Words.Separated isspace line.toList (ts.map String.toList) ∧ ts.length = width ∧
    ∀ token ∈ ts, CellToken token

theorem cellToken_iff {token : String} : CellToken token ↔ ∃ cell, token = cell_text cell := by
  constructor
  · rintro (hdot | ⟨color, hcolor, kind, hkind, rfl⟩)
    · exact ⟨none, hdot⟩
    · have hletter : ∃ k, kind = letter_for_kind k := by
        simp only [List.mem_cons, List.not_mem_nil, or_false] at hkind
        rcases hkind with rfl | rfl | rfl | rfl | rfl | rfl | rfl
        · exact ⟨.King, rfl⟩
        · exact ⟨.Queen, rfl⟩
        · exact ⟨.Rook, rfl⟩
        · exact ⟨.Bishop, rfl⟩
        · exact ⟨.Knight, rfl⟩
        · exact ⟨.Pawn, rfl⟩
        · exact ⟨.Drone, rfl⟩
      obtain ⟨k, rfl⟩ := hletter
      simp only [List.mem_cons, List.not_mem_nil, or_false] at hcolor
      rcases hcolor with rfl | rfl
      · exact ⟨some ⟨.White, k⟩, rfl⟩
      · exact ⟨some ⟨.Black, k⟩, rfl⟩
  · rintro ⟨cell, rfl⟩
    cases cell with
    | none => exact .inl rfl
    | some t =>
        obtain ⟨color, kind⟩ := t
        refine .inr ⟨if color = .White then 'w' else 'b', ?_, letter_for_kind kind, ?_, rfl⟩
        · cases color <;> decide
        · cases kind <;> decide

/-- Lists of what has a source are those that have one. -/
theorem exists_map_eq {α β : Type} {f : α → β} {bs : List β} (h : ∀ b ∈ bs, ∃ a, f a = b) :
    ∃ as : List α, as.map f = bs :=
  (Set.ext_iff.mp (Set.range_list_map f) bs).mpr h

/-- **A text is parsed exactly when it is one of the grammar.** -/
theorem grammar_iff {lines : List String} :
    BoardGrammar lines ↔ ∃ width rows, Shaped width rows ∧ lines.map tokenize = tokens rows := by
  constructor
  · rintro ⟨hsome, width, hwidth, hlines⟩
    have hrows : ∀ ts ∈ lines.map tokenize, ∃ row : List (Option PieceToken),
        row.map cell_text = ts := by
      refine List.forall_mem_map.mpr fun line hline => exists_map_eq fun token htoken => ?_
      obtain ⟨ts, hsep, -, hcells⟩ := hlines line hline
      rw [tokenize_eq_iff.mpr hsep] at htoken
      obtain ⟨cell, hcell⟩ := cellToken_iff.mp (hcells token htoken)
      exact ⟨cell, hcell.symm⟩
    -- each token is the text of a cell, so the lines are the text of a grid
    obtain ⟨rows, htokens⟩ := exists_map_eq hrows
    refine ⟨width, rows, ⟨?_, hwidth, ?_⟩, htokens.symm⟩
    · rintro rfl
      exact hsome (List.map_eq_nil_iff.mp htokens.symm)
    · rw [uniform_iff_tokens, tokens, htokens]
      refine List.forall_mem_map.mpr fun line hline => ?_
      obtain ⟨ts, hsep, hlength, -⟩ := hlines line hline
      rw [tokenize_eq_iff.mpr hsep, hlength]
  · rintro ⟨width, rows, h, htokens⟩
    have hwidth := uniform_iff_tokens.mp h.uniform
    rw [← htokens, List.forall_mem_map] at hwidth
    refine ⟨?_, width, h.some_cell, fun line hline => ?_⟩
    · rintro rfl
      exact h.some_row (List.map_eq_nil_iff.mp htokens.symm)
    · refine ⟨tokenize line, tokenize_eq_iff.mp rfl, hwidth line hline, fun token htoken => ?_⟩
      have hrow : tokenize line ∈ tokens rows := htokens ▸ List.mem_map_of_mem hline
      obtain ⟨row, -, hrow⟩ := List.mem_map.mp hrow
      rw [← hrow] at htoken
      obtain ⟨cell, -, rfl⟩ := List.mem_map.mp htoken
      exact cellToken_iff.mpr ⟨cell, rfl⟩

/-! ## The board text as a whole -/

/-- What a board is that was parsed: a token is the text of its cell, and a piece stands there
that is idle and has not moved, or none. -/
structure ParsedFrom (lines : List String) (b : Board) : Prop where
  height : b.height = lines.length
  width : ∀ line ∈ lines, (tokenize line).length = b.width
  cells : ∀ (row col : Nat) line token, lines[row]? = some line →
    (tokenize line)[col]? = some token →
    (token = "." ∧ b.piece_at ⟨row, col⟩ = none) ∨
      ∃ id color kind, token = piece_token_text color kind ∧
        b.piece_at ⟨row, col⟩ = some ⟨id, color, kind, ⟨row, col⟩, .Idle, false⟩
  /-- In storage order, which is row by row. -/
  ids : b.pieces.map (·.id.value) = (List.range b.pieces.length).map fun (k : Nat) => 1 + (k : Int)

theorem parsed_from {lines : List String} {b : Board} (h : parse lines = .ok b) :
    ParsedFrom lines b := by
  obtain ⟨width, rows, hshaped, htokens, rfl⟩ := parse_iff.mp h
  have huniform := uniform_iff_tokens.mp hshaped.uniform
  rw [← htokens, List.forall_mem_map] at huniform
  have hlength : lines.length = rows.length := by
    rw [← List.length_map tokenize, htokens, tokens, List.length_map]
  refine ⟨hlength.symm, huniform, ?_, ?_⟩
  · intro row col line token hline htoken
    have hrow : (tokens rows)[row]? = some (tokenize line) := by
      rw [← htokens, List.getElem?_map, hline]
      rfl
    unfold tokens at hrow
    rw [List.getElem?_map] at hrow
    obtain ⟨cells, hcells, htext⟩ := Option.map_eq_some_iff.mp hrow
    rw [← htext, List.getElem?_map] at htoken
    obtain ⟨cell, hcell, rfl⟩ := Option.map_eq_some_iff.mp htoken
    have hcol : col < width := by
      rw [← hshaped.uniform cells (List.mem_of_getElem? hcells)]
      exact (List.getElem?_eq_some_iff.mp hcell).1
    have hcell_at : cell_at rows row col = some cell := by
      rw [cell_at, hcells]
      exact hcell
    have hpiece := piece_at_board_of hshaped.uniform hcell_at
    cases cell with
    | none => exact .inl ⟨rfl, hpiece⟩
    | some t =>
        rw [Option.map_some, piece_of_row_col hcol] at hpiece
        exact .inr ⟨_, t.color, t.kind, rfl, hpiece⟩
  · -- as many numbers as pieces, from one on
    have hids := ids_cells_from width 0 1 rows.flatten
    have hcount : pieces_in rows.flatten
        = (board_of width rows hshaped.uniform).pieces.length := by
      have hlen := congrArg List.length hids
      rw [List.length_map, List.length_map, List.length_range] at hlen
      exact hlen.symm
    rw [← hcount]
    exact hids

/-- The text of a line with its tokens separated by single spaces. -/
def respaced (line : String) : String := row_text (tokenize line)

/-- Text is parsed exactly when it is one of the grammar. -/
theorem parse_ok_iff (lines : List String) : (∃ b, parse lines = .ok b) ↔ BoardGrammar lines := by
  rw [grammar_iff]
  constructor
  · rintro ⟨b, h⟩
    obtain ⟨width, rows, hshaped, htokens, -⟩ := parse_iff.mp h
    exact ⟨width, rows, hshaped, htokens⟩
  · rintro ⟨width, rows, hshaped, htokens⟩
    exact ⟨_, parse_iff.mpr ⟨width, rows, hshaped, htokens, rfl⟩⟩

/-- What is printed of a parsed board is its text with single spaces. -/
theorem print_of_parse {lines : List String} {b : Board} (h : parse lines = .ok b) :
    print b = lines_text (lines.map respaced) := by
  obtain ⟨width, rows, hshaped, htokens, rfl⟩ := parse_iff.mp h
  rw [print_eq, shown_board_of, ← htokens, List.map_map]
  rfl

/-- **Board text.** It is parsed exactly when it is one of the grammar, into the board it
describes; what is printed of a board is parsed into one that shows the same; and what is
printed of a parsed board is its text with single spaces. -/
theorem board_text_round_trips (lines : List String) :
    ((∃ b, parse lines = .ok b) ↔ BoardGrammar lines) ∧
    (∀ b, parse lines = .ok b → ParsedFrom lines b ∧ print b = lines_text (lines.map respaced)) ∧
    ∀ b : Board, 1 ≤ b.width → 1 ≤ b.height →
      ∃ b', parse (getlines (print b)) = .ok b' ∧ b'.width = b.width ∧ b'.height = b.height ∧
        ∀ pos, token_at b' pos = token_at b pos := by
  refine ⟨parse_ok_iff lines, fun b h => ⟨parsed_from h, print_of_parse h⟩, ?_⟩
  intro b hwidth hheight
  exact ⟨_, parse_print hwidth hheight, rfl, length_shown b, token_at_parsed_print b⟩

/-- Two kings and a pawn, with too many spaces. -/
theorem kings_and_pawn_round_trip : ∃ b, parse ["wK   . ", " bP bK"] = .ok b ∧
    print b = lines_text ["wK .", "bP bK"] ∧
    ∃ b', parse (getlines (print b)) = .ok b' ∧ b'.width = b.width ∧ b'.height = b.height ∧
      ∀ pos, token_at b' pos = token_at b pos := by
  obtain ⟨hgrammar, hparsed, hprinted⟩ := board_text_round_trips ["wK   . ", " bP bK"]
  obtain ⟨b, hparse, hsize⟩ := Machine.exists_ok_such
    (p := fun b => decide (1 ≤ b.width ∧ 1 ≤ b.height)) (x := parse ["wK   . ", " bP bK"])
    (by decide)
  obtain ⟨hwidth, hheight⟩ := of_decide_eq_true hsize
  refine ⟨b, hparse, (hparsed b hparse).2.trans ?_, hprinted b hwidth hheight⟩
  exact congrArg lines_text (by decide)

end KungFuChess
