/-
The **wire messages**: `kfc/protocol/messages.hpp`, and the board snapshot of
`json.cpp`.

The two variants are inductive types whose constructors carry the fields of the
source's structs; where a struct has more than one field it stays a structure. A
`Welcome` is the only message that carries a whole board, and `build_board` is
what the client makes of it: the round trip `build_board_snapshot_of` says that a
snapshot gives back the very board it was taken of, as long as each piece carries
its own cell.
-/
import KungFuChess.Arbiter
import KungFuChess.Machine

set_option autoImplicit false

namespace KungFuChess

open Machine

/-- Wire-only flattening of a board's occupancy. -/
structure BoardSnapshot where
  width : Int
  height : Int
  pieces : List Piece
deriving DecidableEq, Repr

/-- Sent once after a successful login. -/
structure Welcome where
  assigned_color : PieceColor
  board : BoardSnapshot
  spectator : Bool
  room : String
  history : List ArrivalEvent
  revision : Nat
  white_username : String
  black_username : String
  white_rating : Int
  black_rating : Int
deriving DecidableEq, Repr

/-- Client to server. -/
inductive ClientMessage
  | Login (username password : String)
  | Play
  | CreateRoom
  | JoinRoom (name : String)
  | MoveRequest (source destination : Position)
  | JumpRequest (cell : Position)
  | Resign
deriving DecidableEq, Repr

/-- Broadcast after any server tick that produced arrivals. -/
structure BoardUpdate where
  arrival_events : List ArrivalEvent
  revision : Nat
deriving DecidableEq, Repr

/-- Broadcast once both seats are filled and play can begin. -/
structure MatchStart where
  white_username : String
  black_username : String
  white_rating : Int
  black_rating : Int
deriving DecidableEq, Repr

/-- Server to client. -/
inductive ServerMessage
  | Welcome (welcome : Welcome)
  | MotionStarted (motion : Motion)
  | BoardUpdate (update : BoardUpdate)
  | MoveRejected (reason : String)
  | GameOver (winner : Option PieceColor)
  | OpponentDisconnected (seconds_remaining : Int)
  | MatchStart (start : MatchStart)
  | JoinFailed (reason : String)
  | JoinRedirect (url : String)
  | LoginFailed (reason : String)
  | OpponentReconnected
deriving DecidableEq, Repr

/-! ## `snapshot_of`, and the board a client builds from it -/

/-- The cells of a board, row by row. -/
def cells_of (width height : Nat) : List Position :=
  (List.range height).flatMap fun row : Nat =>
    (List.range width).map fun col : Nat => ⟨(row : Int), (col : Int)⟩

def snapshot_of (board : Board) : BoardSnapshot :=
  ⟨board.width, board.height, (cells_of board.width board.height).filterMap board.piece_at⟩

/-- The board `wait_for_welcome` fills with the pieces of a snapshot. -/
def build_board (snapshot : BoardSnapshot) : Except BoardError Board := do
  let board ← Board.new snapshot.width snapshot.height
  snapshot.pieces.foldlM Board.add_piece board

theorem mem_cells_of {width height : Nat} {pos : Position} :
    pos ∈ cells_of width height ↔
      0 ≤ pos.row ∧ pos.row < height ∧ 0 ≤ pos.col ∧ pos.col < width := by
  unfold cells_of
  simp only [List.mem_flatMap, List.mem_map, List.mem_range]
  constructor
  · rintro ⟨row, hrow, col, hcol, rfl⟩
    refine ⟨Int.natCast_nonneg _, ?_, Int.natCast_nonneg _, ?_⟩
    · exact Int.ofNat_lt.mpr hrow
    · exact Int.ofNat_lt.mpr hcol
  · rintro ⟨h1, h2, h3, h4⟩
    refine ⟨pos.row.toNat, by omega, pos.col.toNat, by omega, ?_⟩
    obtain ⟨row, col⟩ := pos
    simp only [Position.mk.injEq]
    dsimp only at *
    omega

theorem nodup_cells_of (width height : Nat) : (cells_of width height).Nodup := by
  unfold cells_of
  rw [List.nodup_flatMap]
  constructor
  · intro row _
    refine List.Nodup.map ?_ List.nodup_range
    intro c c' h
    simpa using h
  · refine List.nodup_range.imp ?_
    intro row row' hne pos hpos hpos'
    obtain ⟨c, _, rfl⟩ := List.mem_map.mp hpos
    obtain ⟨c', _, h⟩ := List.mem_map.mp hpos'
    simp only [Position.mk.injEq, Int.natCast_inj] at h
    exact hne h.1.symm

/-- The board agrees with `b` on the cells already visited and is empty elsewhere. -/
structure Filled (b : Board) (todo : List Position) (c : Board) : Prop where
  width : c.width = b.width
  height : c.height = b.height
  read : ∀ pos, c.piece_at pos = if pos ∈ todo then none else b.piece_at pos

theorem Filled.add {b c : Board} {pos : Position} {todo : List Position} {x : Piece}
    (hcell : ∀ pos x, b.piece_at pos = some x → x.cell = pos) (hnew : pos ∉ todo)
    (h : Filled b (pos :: todo) c) (hx : b.piece_at pos = some x) :
    ∃ c', c.add_piece x = .ok c' ∧ Filled b todo c' := by
  have hpos : x.cell = pos := hcell pos x hx
  have hin : c.in_bounds x.cell := by
    have := Board.in_bounds_of_piece_at hx
    unfold Board.in_bounds at this ⊢
    rw [h.width, h.height, hpos]
    exact this
  have hempty : c.piece_at x.cell = none := by
    rw [hpos, h.read, if_pos List.mem_cons_self]
  refine ⟨_, Board.add_piece_ok_iff.mpr ⟨hin, hempty, rfl⟩, h.width, h.height, fun q => ?_⟩
  rw [Board.piece_at_set_cell hin, hpos, h.read]
  by_cases hq : q = pos
  · rw [if_pos hq, hq, if_neg hnew, hx]
  · rw [if_neg hq]
    simp only [List.mem_cons, hq, false_or]

theorem Filled.loop {b : Board} (hcell : ∀ pos x, b.piece_at pos = some x → x.cell = pos) :
    ∀ (todo : List Position) (c : Board), todo.Nodup → Filled b todo c →
      ∃ c', (todo.filterMap b.piece_at).foldlM Board.add_piece c = .ok c' ∧ Filled b [] c'
  | [], c, _, h => ⟨c, rfl, h⟩
  | pos :: todo, c, hnd, h => by
      have hnew := (List.nodup_cons.mp hnd).1
      cases hx : b.piece_at pos with
      | none =>
          rw [List.filterMap_cons_none hx]
          refine Filled.loop hcell todo c hnd.of_cons ⟨h.width, h.height, fun q => ?_⟩
          rw [h.read]
          by_cases hq : q = pos
          · rw [hq, if_pos List.mem_cons_self, if_neg hnew, hx]
          · simp only [List.mem_cons, hq, false_or]
      | some x =>
          obtain ⟨c₁, hadd, h₁⟩ := h.add hcell hnew hx
          obtain ⟨c', hloop, h'⟩ := Filled.loop hcell todo c₁ hnd.of_cons h₁
          refine ⟨c', ?_, h'⟩
          rw [List.filterMap_cons_some hx, List.foldlM_cons, hadd]
          exact hloop

/-- **A snapshot is the board.** -/
theorem build_board_snapshot_of {b : Board}
    (hcell : ∀ pos x, b.piece_at pos = some x → x.cell = pos) :
    build_board (snapshot_of b) = .ok b := by
  have hstart : Filled b (cells_of b.width b.height) (Board.empty b.width b.height) := by
    refine ⟨rfl, rfl, fun pos => ?_⟩
    rw [Board.piece_at_empty]
    split_ifs with hpos
    · rfl
    · exact (Board.piece_at_of_not_in_bounds (fun hb => hpos (mem_cells_of.mpr hb))).symm
  obtain ⟨c, hrun, h⟩ := Filled.loop hcell _ _ (nodup_cells_of _ _) hstart
  have hc : c = b := Board.ext_piece_at h.width h.height (fun pos => by
    rw [h.read, if_neg List.not_mem_nil])
  rw [hc] at hrun
  unfold build_board snapshot_of
  rw [Board.new_of_nat]
  exact hrun

end KungFuChess
