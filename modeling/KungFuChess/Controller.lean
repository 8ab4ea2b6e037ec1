/-
The **controller**: `kfc/input/controller.cpp` and `board_mapper.cpp`.

Clicks become a selection or a request. The selection is two optionals, a cell and the
id of the piece that stood there, and the board changes underneath it: it is looked at
again at the start of `click`, and dropped if another piece stands there or none. An
`assert` and the dereference of an optional are where the model can fail
(`ControllerFault`); what `click` and `jump` ask of the `IMoveRequester` is emitted, and
its answer is only handed on.

`click_clicked` says once what a click can do. That a request is always for the piece
that was selected is an invariant of the machine of clicks, jumps and board changes:
what the controller holds is what was selected last (`Recorded`).
-/
import KungFuChess.Board
import KungFuChess.Machine

set_option autoImplicit false

namespace KungFuChess

open Machine (bind_ok_iff Reach logged logged_ok_iff emitted)

/-! ## `board_mapper.cpp` -/

/-- A cell is a square of these. -/
def kCellSizePixels : Int := 100

/-- The size of the board, in cells. -/
structure BoardMapper where
  board_width : Int
  board_height : Int
deriving DecidableEq, Repr

namespace BoardMapper

/-- The cell under a pixel, if there is one. -/
def pixel_to_cell (mapper : BoardMapper) (x y : Int) : Option Position :=
  if x < 0 ∨ y < 0 then none
  else
    let col := x.tdiv kCellSizePixels
    let row := y.tdiv kCellSizePixels
    if col < 0 ∨ mapper.board_width ≤ col ∨ row < 0 ∨ mapper.board_height ≤ row then none
    else some ⟨row, col⟩

/-- The mapper is made for boards of this size. -/
def Fits (mapper : BoardMapper) (board : Board) : Prop :=
  mapper.board_width = board.width ∧ mapper.board_height = board.height

theorem in_bounds_of_pixel {mapper : BoardMapper} {board : Board} (h : mapper.Fits board)
    {x y : Int} {cell : Position} (hcell : mapper.pixel_to_cell x y = some cell) :
    board.in_bounds cell := by
  unfold pixel_to_cell at hcell
  dsimp only at hcell
  split_ifs at hcell with hneg hout
  obtain rfl := Option.some.inj hcell
  obtain ⟨hwidth, hheight⟩ := h
  rw [hwidth, hheight] at hout
  unfold Board.in_bounds
  dsimp only
  omega

end BoardMapper

/-! ## `controller.cpp` -/

/-- What a click came to. -/
inductive ClickOutcome
  | Ignored
  | Selected
  | SelectionCleared
  | MoveRequested
  | JumpRequested
deriving DecidableEq, Repr

/-- What is asked of the `IMoveRequester`. -/
inductive MoveRequest
  | request_move (source destination : Position)
  | request_jump (cell : Position)
deriving DecidableEq, Repr

structure ControllerResult where
  outcome : ClickOutcome
  /-- The request whose answer is the `move_result`. -/
  request : Option MoveRequest := none
deriving DecidableEq, Repr

inductive ControllerFault
  | assertion_failed
  | empty_optional
deriving DecidableEq, Repr

/-- The selection, and whose pieces can be selected. -/
structure Controller where
  board_mapper : BoardMapper
  controlled_color : Option PieceColor := none
  selected_cell_ : Option Position := none
  selected_piece_id_ : Option PieceId := none
deriving DecidableEq, Repr

/-- `*o`. -/
def deref {α : Type} : Option α → Except ControllerFault α
  | some a => .ok a
  | none => .error .empty_optional

namespace Controller

def can_control (c : Controller) (piece_color : PieceColor) : Bool :=
  match c.controlled_color with
  | none => true
  | some controlled => controlled = piece_color

/-- The board is the one the controller has a reference to. -/
def selection_is_stale (c : Controller) (board : Board) : Except ControllerFault Bool :=
  match c.selected_cell_ with
  | none => .ok false
  | some cell =>
      if c.selected_piece_id_.isNone then .error .assertion_failed
      else
        match board.piece_at cell with
        | none => .ok true
        | some piece => do
            let id ← deref c.selected_piece_id_
            return decide (piece.id ≠ id)

def clear_selection (c : Controller) : Controller :=
  { c with selected_cell_ := none, selected_piece_id_ := none }

def select (c : Controller) (cell : Position) (piece : Piece) : Controller :=
  { c with selected_cell_ := some cell, selected_piece_id_ := some piece.id }

/-- A click on a cell of the board, with nothing selected. -/
def pick_up (c : Controller) (board : Board) (cell : Position) : Controller × ControllerResult :=
  match board.piece_at cell with
  | none => (c, { outcome := .Ignored })
  | some piece =>
      if c.can_control piece.color then (c.select cell piece, { outcome := .Selected })
      else (c, { outcome := .Ignored })

/-- A click on a cell of the board, with a cell selected. -/
def aim (c : Controller) (board : Board) (source cell : Position) :
    Except ControllerFault (Controller × ControllerResult) :=
  let selected_piece := board.piece_at source
  let requested := (c.clear_selection,
    { outcome := .MoveRequested, request := some (.request_move source cell) })
  match board.piece_at cell with
  | none => .ok requested
  | some target_piece => do
      let selected_piece ← deref selected_piece
      if target_piece.color = selected_piece.color then
        return (c.select cell target_piece, { outcome := .Selected })
      else return requested

/-- `click`, once a stale selection is dropped. -/
def press (c : Controller) (board : Board) (x y : Int) :
    Except ControllerFault (Controller × ControllerResult) :=
  match c.board_mapper.pixel_to_cell x y, c.selected_cell_ with
  | none, some _ => .ok (c.clear_selection, { outcome := .SelectionCleared })
  | none, none => .ok (c, { outcome := .Ignored })
  | some cell, none => .ok (c.pick_up board cell)
  | some cell, some source => c.aim board source cell

/-- A click selects, clears, or requests, by what is under it and what is selected. -/
def click (c : Controller) (board : Board) (x y : Int) :
    Except ControllerFault (Controller × ControllerResult) := do
  let stale ← c.selection_is_stale board
  (if stale then c.clear_selection else c).press board x y

def jump (c : Controller) (board : Board) (x y : Int) : Controller × ControllerResult :=
  match c.board_mapper.pixel_to_cell x y with
  | none => (c, { outcome := .Ignored })
  | some cell =>
      match board.piece_at cell with
      | none => (c, { outcome := .Ignored })
      | some piece =>
          if c.can_control piece.color then
            (c, { outcome := .JumpRequested, request := some (.request_jump cell) })
          else (c, { outcome := .Ignored })

def selected_cell (c : Controller) (board : Board) : Except ControllerFault (Option Position) := do
  let stale ← c.selection_is_stale board
  return if stale then none else c.selected_cell_

/-! ## What a click can do -/

/-- The two optionals are a selection, or both empty. -/
def Holds (c : Controller) (selection : Option (Position × PieceId)) : Prop :=
  c.selected_cell_ = selection.map Prod.fst ∧ c.selected_piece_id_ = selection.map Prod.snd

/-- The selection is still what stands on its cell. -/
def Current (board : Board) (selection : Option (Position × PieceId)) : Prop :=
  ∀ source id, selection = some (source, id) →
    ∃ piece, board.piece_at source = some piece ∧ piece.id = id

variable {c : Controller} {board : Board} {selection : Option (Position × PieceId)} {x y : Int}

theorem holds_clear (c : Controller) : c.clear_selection.Holds none := ⟨rfl, rfl⟩

theorem holds_select (c : Controller) (cell : Position) (piece : Piece) :
    (c.select cell piece).Holds (some (cell, piece.id)) := ⟨rfl, rfl⟩

/-- What is stale is found without a fault. -/
theorem selection_is_stale_spec (h : c.Holds selection) (board : Board) :
    ∃ stale, c.selection_is_stale board = .ok stale ∧
      (stale = false → Current board selection) := by
  obtain ⟨hcell, hid⟩ := h
  cases selection with
  | none =>
      refine ⟨false, ?_, ?_⟩
      · -- nothing is selected, so nothing is stale
        rw [selection_is_stale, hcell]
        rfl
      · rintro - _ _ ⟨⟩
  | some held =>
      obtain ⟨cell, id⟩ := held
      rw [Option.map_some] at hcell hid
      -- cell and id are held together, so neither optional is empty
      rw [selection_is_stale, hcell, hid]
      cases hpiece : board.piece_at cell with
      | none =>
          refine ⟨true, by simp [hpiece], ?_⟩
          rintro ⟨⟩
      | some piece =>
          refine ⟨decide (piece.id ≠ id), by simp [hpiece, deref, pure, Except.pure, bind,
            Except.bind], ?_⟩
          rintro hsame _ _ ⟨⟩
          exact ⟨piece, hpiece, by simpa using hsame⟩

/-- The piece may be picked up, or is of the colour of the one that is. -/
def Selectable (c : Controller) (board : Board) (selection : Option (Position × PieceId))
    (piece : Piece) : Prop :=
  c.can_control piece.color = true ∨
    ∃ source selected, selection = some (source, selected.id) ∧
      board.piece_at source = some selected ∧ piece.color = selected.color

/-- What a click does: it selects a piece, or requests a move of the selected one, or
leaves nothing selected. -/
inductive Clicked (c : Controller) (board : Board) (selection : Option (Position × PieceId))
    (c' : Controller) : ControllerResult → Prop
  | selected {cell : Position} {piece : Piece} (hpiece : board.piece_at cell = some piece)
      (hselectable : c.Selectable board selection piece) (hholds : c' = c.select cell piece) :
      Clicked c board selection c' { outcome := .Selected }
  | requested {source cell : Position} {selected : Piece}
      (hselection : selection = some (source, selected.id))
      (hsource : board.piece_at source = some selected)
      (hcell : ∃ x y, c.board_mapper.pixel_to_cell x y = some cell)
      (htarget : ∀ target, board.piece_at cell = some target → target.color ≠ selected.color)
      (hholds : c' = c.clear_selection) :
      Clicked c board selection c'
        { outcome := .MoveRequested, request := some (.request_move source cell) }
  | nothing {outcome : ClickOutcome} (hne : outcome ≠ .Selected)
      (hholds : c' = c.clear_selection) : Clicked c board selection c' { outcome := outcome }

theorem clear_of_holds_none (h : c.Holds none) : c = c.clear_selection := by
  obtain ⟨hcell, hid⟩ := h
  cases c
  simp only [Option.map_none] at hcell hid
  subst hcell hid
  rfl

theorem pick_up_clicked (h : c.Holds none) (selection : Option (Position × PieceId))
    (cell : Position) :
    Clicked c board selection (c.pick_up board cell).1 (c.pick_up board cell).2 := by
  unfold pick_up
  cases hpiece : board.piece_at cell with
  | none => exact .nothing (by decide) (clear_of_holds_none h)
  | some piece =>
      dsimp only
      split_ifs with hcontrol
      · exact .selected hpiece (.inl hcontrol) rfl
      · exact .nothing (by decide) (clear_of_holds_none h)

theorem aim_clicked {source cell : Position} {selected : Piece}
    (hsource : board.piece_at source = some selected)
    (hcell : ∃ x y, c.board_mapper.pixel_to_cell x y = some cell) :
    ∃ c' r, c.aim board source cell = .ok (c', r) ∧
      Clicked c board (some (source, selected.id)) c' r := by
  unfold aim
  cases htarget : board.piece_at cell with
  | none =>
      refine ⟨_, _, rfl, .requested rfl hsource hcell ?_ rfl⟩
      intro target h
      rw [htarget] at h
      cases h
  | some target =>
      rw [hsource]
      -- a friend on the cell is selected in place of the first
      by_cases hcolor : target.color = selected.color
      · refine ⟨_, _, if_pos hcolor, .selected htarget (.inr ?_) rfl⟩
        exact ⟨source, selected, rfl, hsource, hcolor⟩
      · refine ⟨_, _, if_neg hcolor, .requested rfl hsource hcell ?_ rfl⟩
        intro other h
        rw [htarget] at h
        exact Option.some.inj h ▸ hcolor

/-- **What a click does**, with nothing selected or something. -/
theorem press_clicked (h : c.Holds selection) (hcurrent : Current board selection) (x y : Int) :
    ∃ c' r, c.press board x y = .ok (c', r) ∧ Clicked c board selection c' r := by
  obtain ⟨hcell, -⟩ := id h
  unfold press
  cases selection with
  | none =>
      rw [hcell, Option.map_none]
      cases c.board_mapper.pixel_to_cell x y with
      | none => exact ⟨_, _, rfl, .nothing (by decide) (clear_of_holds_none h)⟩
      | some cell => exact ⟨_, _, rfl, pick_up_clicked h none cell⟩
  | some held =>
      obtain ⟨source, id⟩ := held
      -- the piece is still where it was selected: what `aim` asserts
      obtain ⟨selected, hsource, rfl⟩ := hcurrent source id rfl
      rw [hcell, Option.map_some]
      cases hpixel : c.board_mapper.pixel_to_cell x y with
      | none => exact ⟨_, _, rfl, .nothing (by decide) rfl⟩
      | some cell => exact aim_clicked hsource ⟨x, y, hpixel⟩

/-- What a click does after the stale selection was dropped. -/
theorem Clicked.of_clear {c' : Controller} {r : ControllerResult}
    (h : Clicked c.clear_selection board none c' r) : Clicked c board selection c' r := by
  cases h with
  | selected hpiece hselectable hholds =>
      refine .selected hpiece (hselectable.imp id ?_) hholds
      rintro ⟨_, _, ⟨⟩, -⟩
  | requested hselection => cases hselection
  | nothing hne hholds => exact .nothing hne hholds

/-- **What a click can do**, and that it does not fail. -/
theorem click_clicked (h : c.Holds selection) (board : Board) (x y : Int) :
    ∃ c' r, c.click board x y = .ok (c', r) ∧ Clicked c board selection c' r := by
  obtain ⟨stale, hstale, hcurrent⟩ := selection_is_stale_spec h board
  have hclick : c.click board x y = (if stale then c.clear_selection else c).press board x y := by
    rw [click, hstale]
    rfl
  rw [hclick]
  cases stale with
  | false => exact press_clicked h (hcurrent rfl) x y
  | true =>
      have hnone : Current board none := by
        rintro _ _ ⟨⟩
      obtain ⟨c', r, hpress, hclicked⟩ := press_clicked (holds_clear c) hnone x y
      exact ⟨c', r, hpress, hclicked.of_clear⟩

theorem selected_cell_total (h : c.Holds selection) (board : Board) :
    ∃ cell, c.selected_cell board = .ok cell := by
  obtain ⟨stale, hstale, -⟩ := selection_is_stale_spec h board
  refine ⟨_, (bind_ok_iff _ _ _).mpr ⟨stale, hstale, rfl⟩⟩

/-- A jump asks for the piece of its cell if that may be controlled, and else for nothing;
the controller stays as it is. -/
theorem jump_cases (c : Controller) (board : Board) (x y : Int) :
    (c.jump board x y).1 = c ∧ ((c.jump board x y).2 = { outcome := .Ignored } ∨
      ∃ cell piece, (c.jump board x y).2
          = { outcome := .JumpRequested, request := some (.request_jump cell) } ∧
        board.piece_at cell = some piece ∧ c.can_control piece.color = true) := by
  unfold jump
  cases c.board_mapper.pixel_to_cell x y with
  | none => exact ⟨rfl, .inl rfl⟩
  | some cell =>
      dsimp only
      cases hpiece : board.piece_at cell with
      | none => exact ⟨rfl, .inl rfl⟩
      | some piece =>
          dsimp only
          split_ifs with hcontrol
          · exact ⟨rfl, .inr ⟨cell, piece, rfl, hpiece, hcontrol⟩⟩
          · exact ⟨rfl, .inl rfl⟩

/-! ## Clicks, jumps and changes of the board -/

inductive Op
  | click (x y : Int)
  | jump (x y : Int)
  | board_changes (board : Board)

inductive Output
  /-- What is written to the selection. -/
  | selected (cell : Position) (id : PieceId)
  | requested (request : MoveRequest)
deriving DecidableEq, Repr

def Output.chosen : Output → Option (Position × PieceId)
  | .selected cell id => some (cell, id)
  | .requested _ => none

structure State where
  board : Board
  controller : Controller

/-- What is seen of a click: a new selection, and what it asks for. -/
def outputs (c : Controller) (r : ControllerResult) : List Output :=
  (match r.outcome, c.selected_cell_, c.selected_piece_id_ with
    | .Selected, some cell, some id => [.selected cell id]
    | _, _, _ => []) ++ r.request.toList.map .requested

def exec (s : State) : Op → Except ControllerFault (State × List Output)
  | .click x y => do
      let (c, r) ← s.controller.click s.board x y
      return ({ s with controller := c }, outputs c r)
  | .jump x y =>
      let (c, r) := s.controller.jump s.board x y
      .ok ({ s with controller := c }, outputs c r)
  | .board_changes board => .ok ({ s with board := board }, [])

theorem requested_mem_outputs {c : Controller} {r : ControllerResult} {request : MoveRequest} :
    .requested request ∈ outputs c r ↔ r.request = some request := by
  unfold outputs
  rw [List.mem_append, or_iff_right]
  · simp [Option.mem_toList]
  · split <;> simp

/-- What was selected last. -/
def last_selected (log : List (Op × List Output)) : Option (Position × PieceId) :=
  ((emitted log).filterMap Output.chosen).getLast?

/-- A board of the same game: its pieces have the colours of their ids, and its size is the
one the mapper is made for. -/
def SameGame (mapper : BoardMapper) (color_of : PieceId → PieceColor) (board : Board) : Prop :=
  mapper.Fits board ∧ ∀ pos piece, board.piece_at pos = some piece →
    piece.color = color_of piece.id

/-- The board may change into any board of the same game. -/
def SameGameStep (mapper : BoardMapper) (color_of : PieceId → PieceColor) (_ : State)
    (_ : List (Op × List Output)) : Op → Prop
  | .board_changes board => SameGame mapper color_of board
  | _ => True

/-- A controller as it is made. -/
def new (board_mapper : BoardMapper) (controlled_color : Option PieceColor) : Controller :=
  { board_mapper, controlled_color }

/-- **The invariant.** What the controller holds was selected last, and may be controlled. -/
structure Recorded (mapper : BoardMapper) (controlled : Option PieceColor)
    (color_of : PieceId → PieceColor) (s : State) (log : List (Op × List Output)) : Prop where
  mapper_eq : s.controller.board_mapper = mapper
  controlled_eq : s.controller.controlled_color = controlled
  same_game : SameGame mapper color_of s.board
  selection : ∃ selection, s.controller.Holds selection ∧ ∀ held, selection = some held →
    last_selected log = some held ∧ s.controller.can_control (color_of held.2) = true

variable {mapper : BoardMapper} {controlled : Option PieceColor}
  {color_of : PieceId → PieceColor} {s s' : State} {log : List (Op × List Output)}
  {os : List Output}

theorem last_selected_append (log : List (Op × List Output)) (op : Op) (os : List Output) :
    last_selected (log ++ [(op, os)])
      = (os.filterMap Output.chosen).getLast?.or (last_selected log) := by
  unfold last_selected
  rw [Machine.emitted_append, List.filterMap_append, List.getLast?_append,
    Machine.emitted_singleton]

/-- What may be selected may be controlled. -/
theorem Recorded.controls (h : Recorded mapper controlled color_of s log)
    {selection : Option (Position × PieceId)}
    (hcontrol : ∀ held, selection = some held →
      s.controller.can_control (color_of held.2) = true) {cell : Position} {piece : Piece}
    (hpiece : s.board.piece_at cell = some piece)
    (hselectable : s.controller.Selectable s.board selection piece) :
    s.controller.can_control (color_of piece.id) = true := by
  rw [← h.same_game.2 cell piece hpiece]
  rcases hselectable with hown | ⟨source, selected, hselection, hsource, hcolor⟩
  · exact hown
  · -- selected in place of a friend: both are of the colour that was controlled
    rw [hcolor, h.same_game.2 source selected hsource]
    exact hcontrol _ hselection

/-- What a click leaves. -/
theorem Recorded.of_clicked (h : Recorded mapper controlled color_of s log)
    {selection : Option (Position × PieceId)}
    (hcontrol : ∀ held, selection = some held →
      s.controller.can_control (color_of held.2) = true) {c' : Controller} {r : ControllerResult}
    (hclicked : Clicked s.controller s.board selection c' r) (op : Op) :
    Recorded mapper controlled color_of { s with controller := c' }
      (log ++ [(op, outputs c' r)]) := by
  cases hclicked with
  | selected hpiece hselectable hholds =>
      subst hholds
      -- the entry of the log is the selection just made
      refine ⟨h.mapper_eq, h.controlled_eq, h.same_game, _, holds_select _ _ _, ?_⟩
      rintro _ ⟨⟩
      refine ⟨?_, h.controls hcontrol hpiece hselectable⟩
      rw [last_selected_append]
      rfl
  | requested _ _ _ _ hholds =>
      subst hholds
      refine ⟨h.mapper_eq, h.controlled_eq, h.same_game, none, holds_clear _, ?_⟩
      rintro _ ⟨⟩
  | nothing _ hholds =>
      subst hholds
      refine ⟨h.mapper_eq, h.controlled_eq, h.same_game, none, holds_clear _, ?_⟩
      rintro _ ⟨⟩

/-- What a step that selects nothing leaves. -/
theorem Recorded.kept (h : Recorded mapper controlled color_of s log) {board : Board}
    (hboard : SameGame mapper color_of board) {op : Op}
    (hos : os.filterMap Output.chosen = []) :
    Recorded mapper controlled color_of { s with board := board } (log ++ [(op, os)]) := by
  obtain ⟨selection, hholds, hrecorded⟩ := h.selection
  refine ⟨h.mapper_eq, h.controlled_eq, hboard, selection, hholds, fun held hheld => ?_⟩
  rw [last_selected_append, hos]
  exact hrecorded held hheld

theorem exec_click {x y : Int} {c' : Controller} {r : ControllerResult}
    (hclick : s.controller.click s.board x y = .ok (c', r)) :
    exec s (.click x y) = .ok ({ s with controller := c' }, outputs c' r) := by
  rw [exec, hclick]
  rfl

theorem exec_jump (s : State) (x y : Int) :
    exec s (.jump x y) = .ok (s, outputs s.controller (s.controller.jump s.board x y).2) := by
  have hsame := (s.controller.jump_cases s.board x y).1
  show Except.ok ({ s with controller := (s.controller.jump s.board x y).1 },
    outputs (s.controller.jump s.board x y).1 (s.controller.jump s.board x y).2) = _
  rw [hsame]

theorem Recorded.step (h : Recorded mapper controlled color_of s log) {op : Op}
    (hop : SameGameStep mapper color_of s log op) (hexec : exec s op = .ok (s', os)) :
    Recorded mapper controlled color_of s' (log ++ [(op, os)]) := by
  cases op with
  | click x y =>
      obtain ⟨selection, hholds, hrecorded⟩ := h.selection
      obtain ⟨c', r, hclick, hclicked⟩ := click_clicked hholds s.board x y
      rw [exec_click hclick] at hexec
      obtain ⟨rfl, rfl⟩ := Prod.mk.inj (Except.ok.inj hexec)
      exact h.of_clicked (fun held hheld => (hrecorded held hheld).2) hclicked _
  | jump x y =>
      rw [exec_jump] at hexec
      obtain ⟨rfl, rfl⟩ := Prod.mk.inj (Except.ok.inj hexec)
      refine h.kept h.same_game ?_
      rcases (s.controller.jump_cases s.board x y).2 with hr | ⟨cell, piece, hr, -⟩
      · rw [hr]
        rfl
      · rw [hr]
        rfl
  | board_changes board =>
      obtain ⟨rfl, rfl⟩ := Prod.mk.inj (Except.ok.inj hexec)
      exact h.kept hop rfl

theorem reach_recorded {board : Board} (hboard : SameGame mapper color_of board)
    (hr : Reach (logged exec) (SameGameStep mapper color_of) ⟨board, new mapper controlled⟩ s log) :
    Recorded mapper controlled color_of s log := by
  refine hr.invariant ?_ fun s log op s' entries _ h hop hstep => ?_
  · refine ⟨rfl, rfl, hboard, none, ⟨rfl, rfl⟩, ?_⟩
    rintro _ ⟨⟩
  · obtain ⟨os, hexec, rfl⟩ := logged_ok_iff.mp hstep
    exact h.step hop hexec

/-! ## What is asked for -/

/-- The move is one of the piece that was selected last, to a cell where it has no friend. -/
def MovesTheSelected (s : State) (log : List (Op × List Output)) (source destination : Position) :
    Prop :=
  ∃ piece, s.board.piece_at source = some piece ∧
    last_selected log = some (source, piece.id) ∧
    (∀ color, s.controller.controlled_color = some color → piece.color = color) ∧
    s.board.in_bounds destination ∧
    ∀ target, s.board.piece_at destination = some target → target.color ≠ piece.color

/-- The jump is one of a piece that may be controlled. -/
def JumpsTheControlled (s : State) (cell : Position) : Prop :=
  ∃ piece, s.board.piece_at cell = some piece ∧
    ∀ color, s.controller.controlled_color = some color → piece.color = color

theorem eq_of_can_control {c : Controller} {piece_color : PieceColor}
    (h : c.can_control piece_color = true) (color : PieceColor)
    (hcolor : c.controlled_color = some color) : piece_color = color := by
  rw [can_control, hcolor] at h
  exact (of_decide_eq_true h).symm

/-- **Only what was selected is moved.** In whatever order there are clicks, jumps and
changes of the board, no step fails, and what is asked for is asked of the piece that was
selected last, or for a jump of a piece that may be controlled; a jump leaves the selection
as it is. -/
theorem only_the_selected_moves {board : Board} (hboard : SameGame mapper color_of board)
    (hr : Reach (logged exec) (SameGameStep mapper color_of) ⟨board, new mapper controlled⟩ s log)
    (op : Op) :
    s.controller.controlled_color = controlled ∧
    ∃ s' os, exec s op = .ok (s', os) ∧
      (∀ source destination, .requested (.request_move source destination) ∈ os →
        MovesTheSelected s log source destination) ∧
      (∀ cell, .requested (.request_jump cell) ∈ os → JumpsTheControlled s cell) ∧
      ∀ x y, op = .jump x y → s'.controller.selected_cell_ = s.controller.selected_cell_ ∧
        s'.controller.selected_piece_id_ = s.controller.selected_piece_id_ := by
  have h := reach_recorded hboard hr
  refine ⟨h.controlled_eq, ?_⟩
  cases op with
  | click x y =>
      obtain ⟨selection, hholds, hrecorded⟩ := h.selection
      obtain ⟨c', r, hclick, hclicked⟩ := click_clicked hholds s.board x y
      refine ⟨_, _, exec_click hclick, ?_⟩
      cases hclicked with
      | selected _ _ _ =>
          refine ⟨fun source destination hin => ?_, fun cell hin => ?_, by rintro _ _ ⟨⟩⟩
          · cases requested_mem_outputs.mp hin
          · cases requested_mem_outputs.mp hin
      | nothing _ _ =>
          refine ⟨fun source destination hin => ?_, fun cell hin => ?_, by rintro _ _ ⟨⟩⟩
          · cases requested_mem_outputs.mp hin
          · cases requested_mem_outputs.mp hin
      | requested hselection hsource hcell htarget _ =>
          refine ⟨fun source destination hin => ?_, fun cell hin => ?_, by rintro _ _ ⟨⟩⟩
          · obtain ⟨rfl, rfl⟩ := MoveRequest.request_move.inj
              (Option.some.inj (requested_mem_outputs.mp hin))
            obtain ⟨hlast, hcontrol⟩ := hrecorded _ hselection
            -- the board may have changed since, but not the colour of an id
            rw [← h.same_game.2 _ _ hsource] at hcontrol
            obtain ⟨px, py, hpixel⟩ := hcell
            rw [h.mapper_eq] at hpixel
            exact ⟨_, hsource, hlast, eq_of_can_control hcontrol,
              BoardMapper.in_bounds_of_pixel h.same_game.1 hpixel, htarget⟩
          · cases requested_mem_outputs.mp hin
  | jump x y =>
      refine ⟨_, _, exec_jump s x y, fun source destination hin => ?_, fun cell hin => ?_, ?_⟩
      · have hrequest := requested_mem_outputs.mp hin
        rcases (s.controller.jump_cases s.board x y).2 with hr | ⟨cell, piece, hr, -⟩
        · rw [hr] at hrequest
          cases hrequest
        · rw [hr] at hrequest
          cases hrequest
      · have hrequest := requested_mem_outputs.mp hin
        rcases (s.controller.jump_cases s.board x y).2 with hr | ⟨cell', piece, hr, hpiece, hown⟩
        · rw [hr] at hrequest
          cases hrequest
        · rw [hr] at hrequest
          obtain rfl := MoveRequest.request_jump.inj (Option.some.inj hrequest)
          exact ⟨piece, hpiece, eq_of_can_control hown⟩
      · exact fun _ _ _ => ⟨rfl, rfl⟩
  | board_changes board =>
      exact ⟨_, _, rfl, fun _ _ hin => absurd hin List.not_mem_nil,
        fun _ hin => absurd hin List.not_mem_nil, by rintro _ _ ⟨⟩⟩

/-- A white rook beside a black king. -/
def rook_and_king : Board :=
  ⟨2, 1, [some ⟨⟨1⟩, .White, .Rook, ⟨0, 0⟩, .Idle, false⟩,
    some ⟨⟨2⟩, .Black, .King, ⟨0, 1⟩, .Idle, false⟩], rfl⟩

/-- White clicks on the rook and then on the king. -/
theorem only_the_selected_moves_rook :
    ∃ s log s' os,
      Reach (logged exec) (SameGameStep ⟨2, 1⟩ fun id => if id = ⟨1⟩ then .White else .Black)
        ⟨rook_and_king, new ⟨2, 1⟩ (some .White)⟩ s log ∧
      exec s (.click 150 20) = .ok (s', os) ∧
      os = [.requested (.request_move ⟨0, 0⟩ ⟨0, 1⟩)] ∧ MovesTheSelected s log ⟨0, 0⟩ ⟨0, 1⟩ := by
  have hboard : SameGame ⟨2, 1⟩ (fun id => if id = ⟨1⟩ then .White else .Black)
      rook_and_king := by
    refine ⟨⟨rfl, rfl⟩, fun pos piece hpiece => ?_⟩
    have hpieces : ∀ piece ∈ rook_and_king.pieces,
        piece.color = if piece.id = ⟨1⟩ then .White else .Black := by decide
    exact hpieces piece (Board.mem_pieces.mpr ⟨pos, hpiece⟩)
  have hclick : SameGameStep ⟨2, 1⟩ (fun id => if id = ⟨1⟩ then .White else .Black)
      ⟨rook_and_king, new ⟨2, 1⟩ (some .White)⟩ [] (.click 20 20) := trivial
  have hreach : Reach (logged exec) _ ⟨rook_and_king, new ⟨2, 1⟩ (some .White)⟩ _ _ :=
    .step .init hclick rfl
  obtain ⟨-, s', os, hexec, hmoves, -⟩ := only_the_selected_moves hboard hreach (.click 150 20)
  have hos : os = [.requested (.request_move ⟨0, 0⟩ ⟨0, 1⟩)] := by
    cases hexec
    rfl
  refine ⟨_, _, s', os, hreach, hexec, hos, hmoves _ _ ?_⟩
  rw [hos]
  exact List.mem_singleton_self _

end Controller

end KungFuChess
