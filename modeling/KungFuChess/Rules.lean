/-
The **move rules**: `kfc/rules/movement_geometry.cpp`, the seven piece rules,
`piece_rule_registry.cpp` and `rule_engine.cpp`.

The two generators of the source are `sliding_destinations` and
`stepping_destinations`; each piece rule is one of them applied to the piece's
own table, except the pawn's, which keeps its own body. `rule_for` is the
registry `make_full_piece_rule_registry` fills. The ray walk is a `while` loop in
the source; here it counts down from `width + height`, which no ray inside the
board can exhaust.
-/
import KungFuChess.Board

set_option autoImplicit false

namespace KungFuChess

/-! ## `movement_geometry.cpp` -/

/-- The `while` loop of `sliding_destinations`: one ray, from `current` on. -/
def sliding_ray (board : Board) (piece : Piece) (step : Int × Int) : Nat → Position → List Position
  | 0, _ => []
  | fuel + 1, current =>
      if board.in_bounds current then
        match board.piece_at current with
        | none =>
            current :: sliding_ray board piece step fuel
              ⟨current.row + step.1, current.col + step.2⟩
        -- the ray ends at the first piece, on it if it can be taken
        | some occupant => if occupant.color ≠ piece.color then [current] else []
      else
        []

/-- A ray in each direction, one after the other, from the cell next to the piece. -/
def sliding_destinations (board : Board) (piece : Piece) (directions : List (Int × Int)) :
    List Position :=
  directions.flatMap fun step =>
    sliding_ray board piece step (board.width + board.height)
      ⟨piece.cell.row + step.1, piece.cell.col + step.2⟩

/-- The cells at the given offsets that are on the board and hold no ally. -/
def stepping_destinations (board : Board) (piece : Piece) (offsets : List (Int × Int)) :
    List Position :=
  offsets.filterMap fun offset =>
    let candidate : Position := ⟨piece.cell.row + offset.1, piece.cell.col + offset.2⟩
    if ¬ board.in_bounds candidate then
      none
    else
      match board.piece_at candidate with
      | some occupant => if occupant.color = piece.color then none else some candidate
      | none => some candidate

/-! ## The seven rules -/

/-- Along the rows and the columns. -/
def kRookDirections : List (Int × Int) := [(-1, 0), (1, 0), (0, -1), (0, 1)]

/-- Along the diagonals. -/
def kBishopDirections : List (Int × Int) := [(-1, -1), (-1, 1), (1, -1), (1, 1)]

/-- Both. -/
def kQueenDirections : List (Int × Int) :=
  [(-1, 0), (1, 0), (0, -1), (0, 1), (-1, -1), (-1, 1), (1, -1), (1, 1)]

/-- The eight cells around. -/
def kKingOffsets : List (Int × Int) :=
  [(-1, -1), (-1, 0), (-1, 1), (0, -1), (0, 1), (1, -1), (1, 0), (1, 1)]

/-- Two one way and one the other. -/
def kKnightOffsets : List (Int × Int) :=
  [(-2, -1), (-2, 1), (-1, -2), (-1, 2), (1, -2), (1, 2), (2, -1), (2, 1)]

/-- One or two cells along a row or a column, over whatever stands between. -/
def kDroneOffsets : List (Int × Int) :=
  [(-2, 0), (-1, 0), (1, 0), (2, 0), (0, -2), (0, -1), (0, 1), (0, 2)]

/-- `PawnRule::legal_destinations`. -/
def pawn_destinations (board : Board) (piece : Piece) : List Position :=
  let forward_step : Int := if piece.color = .White then -1 else 1
  let forward : Position := ⟨piece.cell.row + forward_step, piece.cell.col⟩
  let double_forward : Position := ⟨piece.cell.row + 2 * forward_step, piece.cell.col⟩
  let is_clear := fun pos => board.in_bounds pos ∧ (board.piece_at pos).isNone
  let straight :=
    if is_clear forward then
      -- the double step needs both cells clear
      forward :: if ¬ piece.has_moved ∧ is_clear double_forward then [double_forward] else []
    else
      []
  let diagonals := ([-1, 1] : List Int).filterMap fun col_offset =>
    let diagonal : Position := ⟨piece.cell.row + forward_step, piece.cell.col + col_offset⟩
    if ¬ board.in_bounds diagonal then
      none
    else
      match board.piece_at diagonal with
      | some occupant => if occupant.color ≠ piece.color then some diagonal else none
      -- a pawn moves diagonally only to take
      | none => none
  straight ++ diagonals

/-- `PieceRuleRegistry::rule_for` on the registry with every rule registered. -/
def rule_for : PieceKind → Board → Piece → List Position
  | .Rook, board, piece => sliding_destinations board piece kRookDirections
  | .Bishop, board, piece => sliding_destinations board piece kBishopDirections
  | .Queen, board, piece => sliding_destinations board piece kQueenDirections
  | .Knight, board, piece => stepping_destinations board piece kKnightOffsets
  | .King, board, piece => stepping_destinations board piece kKingOffsets
  | .Pawn, board, piece => pawn_destinations board piece
  | .Drone, board, piece => stepping_destinations board piece kDroneOffsets

/-! ## `rule_engine.cpp` -/

namespace move_reasons

def kOk : String := "ok"
def kOutsideBoard : String := "outside_board"
def kEmptySource : String := "empty_source"
def kFriendlyDestination : String := "friendly_destination"
def kIllegalPieceMove : String := "illegal_piece_move"
def kGameOver : String := "game_over"
def kMotionInProgress : String := "motion_in_progress"
def kNotYourPiece : String := "not_your_piece"
def kOpponentDisconnected : String := "opponent_disconnected"
def kMatchNotStarted : String := "match_not_started"

end move_reasons

/-- The answer of the rules, with the reason for a refusal. -/
structure MoveValidation where
  is_valid : Bool
  reason : String
deriving DecidableEq, Repr

/-- `RuleEngine::validate_move`. -/
def validate_move (board : Board) (source destination : Position) : MoveValidation :=
  if ¬ board.in_bounds source ∨ ¬ board.in_bounds destination then
    ⟨false, move_reasons.kOutsideBoard⟩
  else
    match board.piece_at source with
    | none => ⟨false, move_reasons.kEmptySource⟩
    | some moving =>
        if (board.piece_at destination).any (fun occupant => occupant.color = moving.color) then
          ⟨false, move_reasons.kFriendlyDestination⟩
        else if destination ∉ rule_for moving.kind board moving then
          ⟨false, move_reasons.kIllegalPieceMove⟩
        else
          ⟨true, move_reasons.kOk⟩

/-- What an accepted move promises its caller, whatever the piece: the source
holds a piece, the destination is on the board and holds no ally of it. -/
theorem validate_move_valid {board : Board} {source destination : Position}
    (h : (validate_move board source destination).is_valid = true) :
    ∃ moving, board.piece_at source = some moving ∧ board.in_bounds destination ∧
      ∀ x, board.piece_at destination = some x → x.color ≠ moving.color := by
  unfold validate_move at h
  split_ifs at h with hb
  · obtain ⟨_, hdest⟩ := not_or.mp hb
    split at h
    · cases h
    · rename_i moving hmoving
      split_ifs at h with hfriend
      refine ⟨moving, hmoving, not_not.mp hdest, fun x hx hcol => hfriend ?_⟩
      rw [hx]
      simpa using hcol

end KungFuChess
