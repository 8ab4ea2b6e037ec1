/-
The **board text**: `kfc/io/text_tokenizer.cpp`, `piece_token.cpp` and
`board_parser.cpp`.

`parse` is the source's three passes in order: tokenize every line and check the
widths, read every token, then place the pieces row by row with ids counted from
one. What the rest of the development needs of a parsed board is `Fresh`: ids
are distinct, every piece carries the cell it stands on, nothing moves yet
(`fresh_of_parse`).
-/
import KungFuChess.Board
import KungFuChess.Machine

set_option autoImplicit false

namespace KungFuChess

open Machine

/-! ## Tokens -/

/-- `std::isspace` in the C locale: blank, tab, newline, vertical tab, form feed
and carriage return. -/
def isspace (c : Char) : Bool :=
  c.toNat == 32 || (9 ≤ c.toNat && c.toNat ≤ 13)

/-- What repeated `stream >> token` reads from a line. -/
def tokenize (line : String) : List String :=
  ((line.toList.splitOnP isspace).filter (· ≠ [])).map String.ofList

def kind_for_letter : Char → Option PieceKind
  | 'K' => some .King
  | 'Q' => some .Queen
  | 'R' => some .Rook
  | 'B' => some .Bishop
  | 'N' => some .Knight
  | 'P' => some .Pawn
  | 'D' => some .Drone
  | _ => none

structure PieceToken where
  color : PieceColor
  kind : PieceKind
deriving DecidableEq, Repr

def parse_piece_token (token : String) : Option PieceToken :=
  match token.toList with
  | [c, letter] =>
      if c ≠ 'w' ∧ c ≠ 'b' then
        none
      else
        (kind_for_letter letter).map fun kind => ⟨if c = 'w' then .White else .Black, kind⟩
  | _ => none

/-! ## `BoardParser::parse` -/

/-- What `parse` can throw: its own `ParseError` with a code, or an exception
passed on from the board it fills. -/
inductive ParseFailure
  | ParseError (code : String)
  | Board (e : BoardError)
deriving DecidableEq, Repr

/-- One token of the grid; `none` is an empty `"."` cell. -/
def parse_cell (token : String) : Except ParseFailure (Option PieceToken) :=
  if token = "." then
    .ok none
  else
    match parse_piece_token token with
    | none => .error (.ParseError "UNKNOWN_TOKEN")
    | some piece => .ok (some piece)

/-- The inner loop of the placement, from column `col` of `row` on. -/
def place_row (row : Nat) : Nat → List (Option PieceToken) → Int × Board →
    Except BoardError (Int × Board)
  | _, [], acc => .ok acc
  | col, none :: rest, acc => place_row row (col + 1) rest acc
  | col, some token :: rest, (next_id, board) => do
      let board ← board.add_piece
        { id := ⟨next_id⟩, color := token.color, kind := token.kind, cell := ⟨row, col⟩,
          state := .Idle }
      place_row row (col + 1) rest (next_id + 1, board)

/-- The outer loop of the placement, from row `row` on. -/
def place_rows : Nat → List (List (Option PieceToken)) → Int × Board →
    Except BoardError (Int × Board)
  | _, [], acc => .ok acc
  | row, cells :: rest, acc => do
      let acc ← place_row row 0 cells acc
      place_rows (row + 1) rest acc

/-- Both passes over the cells once the shape of the grid is settled. -/
def parse_grid (width : Nat) (grid : List (List String)) : Except ParseFailure Board := do
  let parsed ← grid.mapM fun row => row.mapM parse_cell
  match place_rows 0 parsed (1, Board.empty width grid.length) with
  | .error e => .error (.Board e)
  | .ok (_, board) => .ok board

def parse (board_lines : List String) : Except ParseFailure Board :=
  match board_lines.map tokenize with
  | [] => .error (.ParseError "EMPTY_BOARD")
  | front :: rest =>
      -- A blank line tokenizes to nothing, which would build a valid empty board.
      if front.length = 0 then
        .error (.ParseError "EMPTY_BOARD")
      else if (front :: rest).any fun row => row.length ≠ front.length then
        .error (.ParseError "ROW_WIDTH_MISMATCH")
      else
        parse_grid front.length (front :: rest)

/-! ## What a parsed board looks like -/

/-- A board nothing has happened on: ids are distinct, each piece carries its own
cell, and every piece is idle. -/
structure Fresh (b : Board) : Prop where
  distinct : b.Distinct
  cell : ∀ pos x, b.piece_at pos = some x → x.cell = pos
  idle : ∀ pos x, b.piece_at pos = some x → x.state = .Idle

/-- The invariant of the placement loops: fresh so far, every id already used
below the next one. -/
structure Placing (acc : Int × Board) : Prop extends Fresh acc.2 where
  below : ∀ pos x, acc.2.piece_at pos = some x → x.id.value < acc.1

theorem placing_empty (w h : Nat) (n : Int) : Placing (n, Board.empty w h) := by
  have hno : ∀ pos x, (Board.empty w h).piece_at pos ≠ some x := by
    intro pos x hx
    rw [Board.piece_at_empty] at hx
    cases hx
  exact ⟨⟨fun p _ x _ hx => absurd hx (hno p x), fun p x hx => absurd hx (hno p x),
    fun p x hx => absurd hx (hno p x)⟩, fun p x hx => absurd hx (hno p x)⟩

theorem placing_add {n : Int} {b b' : Board} {x : Piece} (h : Placing (n, b))
    (hid : x.id = ⟨n⟩) (hidle : x.state = .Idle) (hadd : b.add_piece x = .ok b') :
    Placing (n + 1, b') := by
  obtain ⟨hb, _, rfl⟩ := Board.add_piece_ok_iff.mp hadd
  have hread : ∀ pos y, (b.set_cell x.cell (some x)).piece_at pos = some y →
      (pos = x.cell ∧ y = x) ∨ b.piece_at pos = some y := by
    intro pos y hy
    rw [Board.piece_at_set_cell hb] at hy
    split_ifs at hy with hpos
    · exact .inl ⟨hpos, (Option.some.inj hy).symm⟩
    · exact .inr hy
  have hbelow : ∀ pos y, b.piece_at pos = some y → y.id.value < n := h.below
  -- ids are handed out in increasing order, so the new one is in use nowhere
  have hold : ∀ pos y, b.piece_at pos = some y → y.id ≠ x.id := by
    intro pos y hy heq
    have := hbelow pos y hy
    rw [heq, hid] at this
    exact lt_irrefl n this
  refine ⟨⟨?_, ?_, ?_⟩, ?_⟩
  · intro p q y z hy hz hyz
    rcases hread p y hy with ⟨hp, hyx⟩ | hy
    · rcases hread q z hz with ⟨hq, _⟩ | hz
      · rw [hp, hq]
      · exact absurd (hyz.symm.trans (congrArg Piece.id hyx)) (hold q z hz)
    · rcases hread q z hz with ⟨_, hzx⟩ | hz
      · exact absurd (hyz.trans (congrArg Piece.id hzx)) (hold p y hy)
      · exact h.distinct p q y z hy hz hyz
  · intro p y hy
    rcases hread p y hy with ⟨rfl, rfl⟩ | hy
    · rfl
    · exact h.cell p y hy
  · intro p y hy
    rcases hread p y hy with ⟨_, rfl⟩ | hy
    · exact hidle
    · exact h.idle p y hy
  · intro p y hy
    show y.id.value < n + 1
    rcases hread p y hy with ⟨_, rfl⟩ | hy
    · rw [hid]
      exact lt_add_one n
    · have := hbelow p y hy
      omega

section ParseRule

-- what each added piece hands on

variable {P : Int × Board → Prop}
  (hadd : ∀ n b b' x, P (n, b) → x.id = ⟨n⟩ → x.state = .Idle → x.has_moved = false →
    b.add_piece x = .ok b' → P (n + 1, b'))

include hadd

theorem place_row_rule (row : Nat) (cells : List (Option PieceToken)) :
    ∀ (col : Nat) (acc acc' : Int × Board), P acc →
      place_row row col cells acc = .ok acc' → P acc' := by
  induction cells with
  | nil =>
      intro col acc acc' h hrun
      cases hrun
      exact h
  | cons c rest ih =>
      intro col acc acc' h hrun
      cases c with
      | none => exact ih _ _ _ h hrun
      | some token =>
          obtain ⟨n, b⟩ := acc
          obtain ⟨b', hone, hrest⟩ := (bind_ok_iff _ _ _).mp hrun
          exact ih _ _ _ (hadd n b b' _ h rfl rfl rfl hone) hrest

theorem place_rows_rule (grid : List (List (Option PieceToken))) :
    ∀ (row : Nat) (acc acc' : Int × Board), P acc →
      place_rows row grid acc = .ok acc' → P acc' := by
  induction grid with
  | nil =>
      intro row acc acc' h hrun
      cases hrun
      exact h
  | cons cells rest ih =>
      intro row acc acc' h hrun
      obtain ⟨acc₁, hrow, hrest⟩ := (bind_ok_iff _ _ _).mp hrun
      exact ih _ _ _ (place_row_rule hadd row cells 0 acc acc₁ h hrow) hrest

/-- **The rule for a parsed board.** -/
theorem parse_rule (hempty : ∀ w h, P (1, Board.empty w h)) {lines : List String} {b : Board}
    (h : parse lines = .ok b) : ∃ n, P (n, b) := by
  unfold parse at h
  split at h
  · cases h
  · split_ifs at h
    obtain ⟨parsed, _, hplace⟩ := (bind_ok_iff _ _ _).mp h
    split at hplace
    · cases hplace
    · rename_i n board hrows
      obtain rfl : board = b := Except.ok.inj hplace
      exact ⟨n, place_rows_rule hadd parsed 0 _ _ (hempty _ _) hrows⟩

end ParseRule

/-- **A parsed board is fresh.** -/
theorem fresh_of_parse {lines : List String} {b : Board} (h : parse lines = .ok b) : Fresh b := by
  obtain ⟨n, hplacing⟩ := parse_rule (P := Placing)
    (fun _ _ _ _ h hid hidle _ hadd => placing_add h hid hidle hadd)
    (fun w h => placing_empty w h 1) h
  exact hplacing.toFresh

/-- No piece of it has moved. -/
theorem unmoved_of_parse {lines : List String} {b : Board} (h : parse lines = .ok b) :
    ∀ pos x, b.piece_at pos = some x → x.has_moved = false := by
  have hrule := parse_rule (P := fun acc : Int × Board =>
    ∀ pos x, acc.2.piece_at pos = some x → x.has_moved = false) ?_ ?_ h
  · obtain ⟨_, hunmoved⟩ := hrule
    exact hunmoved
  · intro n b b' x hunmoved _ _ hx hadd pos y hy
    obtain ⟨hb, _, rfl⟩ := Board.add_piece_ok_iff.mp hadd
    dsimp only at hy
    rw [Board.piece_at_set_cell hb] at hy
    split_ifs at hy
    · rw [← Option.some.inj hy]
      exact hx
    · exact hunmoved pos y hy
  · intro w h pos x hx
    dsimp only at hx
    rw [Board.piece_at_empty] at hx
    cases hx

example : (parse ["wR wK bR"]).map (fun b => b.pieces.map (·.id.value)) = .ok [1, 2, 3] := by
  decide

end KungFuChess
