/-
**The score is the material lost**: `kfc/realtime/piece_value_provider.cpp` and
`score_observer.cpp`.

A `ScoreObserver` sees one arrival after another and never the board; it credits whoever
made a capturing move with what the captured piece is worth. What it shows is still a
fact about the position: in every run without a landing on an ally, what a side has
scored is what the other had on the first board and gained by promotion, less what it has
on the board and in the air. The values may be any: those of the standard provider or
those of a configuration.

The account goes turn by turn, as that of `Conservation` does. A landing takes the mover
off one cell and what it finds off another, and puts the mover down: what it finds is
captured, and credited, or is in the air, where `aloft` counts it from then on.
-/
import KungFuChess.Conservation
import Mathlib.Algebra.BigOperators.Group.List.Basic

set_option autoImplicit false

namespace KungFuChess

open Machine RealTimeArbiter GameEngine

/-! ## Sums over a list -/

/-- A sum in which one entry changed, and the entries are told apart by a key. -/
theorem sum_map_changed {α β : Type*} {l : List α} {key : α → β} {f g : α → Int} {a : α}
    (hnodup : (l.map key).Nodup) (ha : a ∈ l)
    (hsame : ∀ x ∈ l, key x ≠ key a → g x = f x) :
    (l.map g).sum + f a = (l.map f).sum + g a := by
  obtain ⟨l₁, l₂, rfl⟩ := List.append_of_mem ha
  rw [List.map_append, List.map_cons, List.nodup_append, List.nodup_cons] at hnodup
  obtain ⟨-, ⟨hafter, -⟩, hbefore⟩ := hnodup
  have h₁ : l₁.map g = l₁.map f := by
    refine List.map_congr_left fun x hx => hsame x (List.mem_append_left _ hx) fun heq => ?_
    exact hbefore _ (List.mem_map_of_mem hx) _ List.mem_cons_self heq
  have h₂ : l₂.map g = l₂.map f := by
    refine List.map_congr_left fun x hx => hsame x (by simp [hx]) fun heq => ?_
    exact hafter (heq ▸ List.mem_map_of_mem hx)
  rw [List.map_append, List.map_append, List.map_cons, List.map_cons, List.sum_append,
    List.sum_append, List.sum_cons, List.sum_cons, h₁, h₂]
  omega

/-- Entries that count for nothing may be dropped. -/
theorem sum_map_sublist {α : Type*} {l' l : List α} {f : α → Int} (h : l'.Sublist l)
    (hnodup : l.Nodup) (hzero : ∀ x ∈ l, x ∉ l' → f x = 0) : (l'.map f).sum = (l.map f).sum := by
  induction h with
  | slnil => rfl
  | cons x h ih =>
      rw [List.nodup_cons] at hnodup
      rw [List.map_cons, List.sum_cons, hzero x List.mem_cons_self fun hx => hnodup.1 (h.subset hx),
        ih hnodup.2 fun y hy hy' => hzero y (List.mem_cons_of_mem x hy) hy']
      omega
  | cons_cons x h ih =>
      rw [List.nodup_cons] at hnodup
      rw [List.map_cons, List.map_cons, List.sum_cons, List.sum_cons,
        ih hnodup.2 fun y hy hy' => hzero y (List.mem_cons_of_mem x hy) fun hmem => ?_]
      rcases List.mem_cons.mp hmem with rfl | hmem
      · exact hnodup.1 hy
      · exact hy' hmem

/-! ## `piece_value_provider.cpp` and `score_observer.cpp` -/

/-- `IPieceValueProvider`, by its one function. -/
abbrev PieceValueProvider := PieceKind → Int

/-- `StandardPieceValueProvider`. The king is worth nothing: losing it ends the game. -/
def kDefaultPieceValueProvider : PieceValueProvider
  | .Pawn => 1
  | .Knight | .Bishop => 3
  | .Rook => 5
  | .Queen => 9
  | .King => 0
  | .Drone => 1

structure ScoreObserver where
  values : PieceValueProvider
  white_score : Int := 0
  black_score : Int := 0

namespace ScoreObserver

def on_arrival (s : ScoreObserver) (event : ArrivalEvent) : ScoreObserver :=
  match event.captured_piece with
  | none => s
  | some captured =>
      let value := s.values captured.kind
      if event.moved_piece.color = .White then { s with white_score := s.white_score + value }
      else { s with black_score := s.black_score + value }

def score (s : ScoreObserver) : PieceColor → Int
  | .White => s.white_score
  | .Black => s.black_score

/-- What an arrival adds to the score of a colour. -/
def credit (values : PieceValueProvider) (color : PieceColor) (event : ArrivalEvent) : Int :=
  if event.moved_piece.color = color then
    (event.captured_piece.map fun captured => values captured.kind).getD 0
  else 0

theorem on_arrival_spec (s : ScoreObserver) (event : ArrivalEvent) :
    (s.on_arrival event).values = s.values ∧
      ∀ color, (s.on_arrival event).score color = s.score color + credit s.values color event := by
  unfold on_arrival credit
  cases event.captured_piece with
  | none => simp
  | some captured =>
      by_cases hw : event.moved_piece.color = .White
      · refine ⟨by simp [hw], fun color => ?_⟩
        cases color <;> simp [hw, score]
      · have hb : event.moved_piece.color = .Black := eq_opposite_of_ne hw
        refine ⟨by simp [hb], fun color => ?_⟩
        cases color <;> simp [hb, score]

/-- What the observer has counted of some arrivals. -/
theorem foldl_on_arrival (events : List ArrivalEvent) : ∀ s : ScoreObserver,
    (events.foldl on_arrival s).values = s.values ∧ ∀ color,
      (events.foldl on_arrival s).score color
        = s.score color + (events.map (credit s.values color)).sum := by
  induction events with
  | nil => simp
  | cons event events ih =>
      intro s
      obtain ⟨hvalues, hscore⟩ := s.on_arrival_spec event
      obtain ⟨hvalues', hscore'⟩ := ih (s.on_arrival event)
      refine ⟨hvalues'.trans hvalues, fun color => ?_⟩
      rw [List.foldl_cons, hscore', hscore, hvalues, List.map_cons, List.sum_cons]
      omega

end ScoreObserver

/-! ## Material -/

/-- What a piece is worth to a colour. -/
def worth (values : PieceValueProvider) (color : PieceColor) (x : Piece) : Int :=
  if x.color = color then values x.kind else 0

/-- What stands on a cell. -/
def cell_worth (values : PieceValueProvider) (color : PieceColor) (cell : Option Piece) : Int :=
  (cell.map (worth values color)).getD 0

@[simp] theorem cell_worth_none (values : PieceValueProvider) (color : PieceColor) :
    cell_worth values color none = 0 := rfl

@[simp] theorem cell_worth_some (values : PieceValueProvider) (color : PieceColor) (x : Piece) :
    cell_worth values color (some x) = worth values color x := rfl

/-- What stands on the board. -/
def Board.material (board : Board) (values : PieceValueProvider) (color : PieceColor) : Int :=
  (board.pieces.map (worth values color)).sum

/-- What a motion carries, if it is a jump whose piece has lost its cell. -/
def hovering (board : Board) (values : PieceValueProvider) (color : PieceColor) (m : Motion) :
    Int :=
  if m.kind = .JumpInPlace ∧ board.count_on m.id = 0 then worth values color m.moving_piece else 0

/-- What is in the air over a cell it lost. -/
def aloft (board : Board) (motions : List Motion) (values : PieceValueProvider)
    (color : PieceColor) : Int :=
  (motions.map (hovering board values color)).sum

/-- What an arrival takes from a colour. -/
def taken (values : PieceValueProvider) (color : PieceColor) (e : ArrivalEvent) : Int :=
  cell_worth values color e.captured_piece

/-- What an arrival makes a colour gain by promotion. -/
def promoted (values : PieceValueProvider) (color : PieceColor) (e : ArrivalEvent) : Int :=
  if e.was_promotion ∧ e.moved_piece.color = color then values .Queen - values .Pawn else 0

section Material

variable {values : PieceValueProvider} {color : PieceColor} {board board' : Board}

theorem Board.material_eq (values : PieceValueProvider) (color : PieceColor) (board : Board) :
    board.material values color = (board.cells.map (cell_worth values color)).sum := by
  unfold Board.material Board.pieces
  induction board.cells with
  | nil => rfl
  | cons cell cells ih =>
      cases cell with
      | none =>
          rw [List.filterMap_cons_none rfl, ih]
          simp [cell_worth]
      | some x =>
          rw [List.filterMap_cons_some (show id (some x) = some x from rfl), List.map_cons,
            List.sum_cons, ih]
          simp [cell_worth]

/-- **Writing a cell** replaces what stood there. -/
theorem Board.material_set_cell (values : PieceValueProvider) (color : PieceColor) {pos : Position}
    (hpos : board.in_bounds pos) (cell : Option Piece) :
    (board.set_cell pos cell).material values color + cell_worth values color (board.piece_at pos)
      = board.material values color + cell_worth values color cell := by
  have hi := Board.index_lt hpos
  have hread : board.piece_at pos = board.cells[board.index pos] := by
    rw [Board.piece_at, if_pos hpos, List.getD_eq_getElem _ _ hi]
  rw [Board.material_eq, Board.material_eq, hread]
  unfold Board.set_cell
  dsimp only
  rw [List.map_set, List.sum_set', dif_pos (by rwa [List.length_map]), List.getElem_map]
  omega

theorem count_on_zero_iff {i : PieceId} : board.count_on i = 0 ↔ ¬ OnBoard board i := by
  refine ⟨?_, count_on_of_off⟩
  rintro hzero ⟨q, x, hx, hid⟩
  exact Board.count_on_eq_zero_iff.mp hzero q x hx hid

theorem hovering_of_on {m : Motion} (h : OnBoard board m.id) :
    hovering board values color m = 0 :=
  if_neg fun hc => count_on_zero_iff.mp hc.2 h

theorem hovering_of_move {m : Motion} (hk : m.kind = .Move) :
    hovering board values color m = 0 := by
  refine if_neg fun hc => ?_
  rw [hk] at hc
  cases hc.1

theorem hovering_of_off {m : Motion} (hk : m.kind = .JumpInPlace) (h : ¬ OnBoard board m.id) :
    hovering board values color m = worth values color m.moving_piece :=
  if_pos ⟨hk, count_on_zero_iff.mpr h⟩

theorem hovering_congr {m : Motion} (h : OnBoard board' m.id ↔ OnBoard board m.id) :
    hovering board' values color m = hovering board values color m := by
  cases hk : m.kind with
  | Move => rw [hovering_of_move hk, hovering_of_move hk]
  | JumpInPlace =>
      by_cases hon : OnBoard board m.id
      · rw [hovering_of_on hon, hovering_of_on (h.mpr hon)]
      · rw [hovering_of_off hk hon, hovering_of_off hk fun hon' => hon (h.mp hon')]

theorem worth_of_stateless (values : PieceValueProvider) (color : PieceColor) {x y : Piece}
    (h : x.stateless = y.stateless) :
    worth values color x = worth values color y :=
  show worth values color x.stateless = worth values color y.stateless by rw [h]

end Material

/-! ## One turn of the loop -/

section Turn

variable {values : PieceValueProvider} {color : PieceColor} {board board' : Board} {m : Motion}
  {e : ArrivalEvent} {rest : List Motion}

/-- What a landing finds on its destination, if that is not the mover itself. -/
def found (board : Board) (m : Motion) : Option Piece :=
  (board.piece_at m.destination).filter fun x => decide (x.id ≠ m.id)

theorem found_eq_some {x : Piece} :
    found board m = some x ↔ board.piece_at m.destination = some x ∧ x.id ≠ m.id := by
  unfold found
  rw [Option.filter_eq_some_iff, decide_eq_true_eq]

theorem found_of_self {x : Piece} (hx : board.piece_at m.destination = some x) (hid : x.id = m.id) :
    found board m = none := by
  simp [found, hx, hid]

theorem found_of_other (h : ∀ x, board.piece_at m.destination = some x → x.id ≠ m.id) :
    found board m = board.piece_at m.destination := by
  cases hx : board.piece_at m.destination with
  | none => simp [found, hx]
  | some x => simp [found, hx, h x hx]

/-- A landing writes two cells. -/
theorem Landed.board_eq (hl : Landed board m board' e) (hsource : board.in_bounds m.source)
    (hdestination : board.in_bounds m.destination) :
    board' = (board.set_cell m.source none).set_cell m.destination (some e.moved_piece) := by
  refine Board.ext_piece_at hl.width hl.height fun q => ?_
  rw [hl.read, Board.piece_at_set_cell ((Board.in_bounds_set_cell _ _ _ _).mpr hdestination),
    Board.piece_at_set_cell hsource]

theorem promotion_kind (x : Piece) (board : Board) :
    ((apply_pawn_promotion x board).2 = false ∧ (apply_pawn_promotion x board).1.kind = x.kind) ∨
      ((apply_pawn_promotion x board).2 = true ∧ x.kind = .Pawn ∧
        (apply_pawn_promotion x board).1.kind = .Queen) := by
  unfold apply_pawn_promotion
  by_cases hpawn : x.kind = .Pawn
  · rw [if_neg (not_not.mpr hpawn)]
    dsimp only
    split_ifs
    · exact .inr ⟨rfl, hpawn, rfl⟩
    · exact .inl ⟨rfl, rfl⟩
    · exact .inr ⟨rfl, hpawn, rfl⟩
    · exact .inl ⟨rfl, rfl⟩
  · rw [if_pos hpawn]
    exact .inl ⟨rfl, rfl⟩

/-- The mover as it lands, by its promotion. -/
theorem Landed.worth_moved (values : PieceValueProvider) (color : PieceColor)
    (hl : Landed board m board' e) :
    worth values color e.moved_piece
      = worth values color m.moving_piece + promoted values color e := by
  have hcolor : e.moved_piece.color = m.moving_piece.color := by
    rw [hl.moved_eq, (promotion_fields _ _).2.1]
    rfl
  have hflag : e.was_promotion = (apply_pawn_promotion (arriving_piece m) board).2 :=
    congrArg Prod.snd hl.moved
  unfold worth promoted
  rw [hcolor]
  by_cases hc : m.moving_piece.color = color
  · rw [if_pos hc, if_pos hc]
    rcases promotion_kind (arriving_piece m) board with ⟨hno, hkind⟩ | ⟨hyes, hpawn, hkind⟩
    · rw [if_neg (by simp [hflag, hno]), hl.moved_eq, hkind, Int.add_zero]
      rfl
    · have hpawn : m.moving_piece.kind = .Pawn := hpawn
      rw [if_pos ⟨hflag.trans hyes, hc⟩, hl.moved_eq, hkind, hpawn]
      omega
  · rw [if_neg hc, if_neg hc, if_neg fun h => hc h.2]
    rfl

/-- **What a landing does to the board**, with the mover counted where it was: it takes off
what it finds, and gains by promotion. -/
theorem Landed.material (values : PieceValueProvider) (color : PieceColor)
    (hl : Landed board m board' e) (hs : Sound board (m :: rest)) :
    board'.material values color + cell_worth values color (found board m)
      = board.material values color + hovering board values color m
        + promoted values color e := by
  have hin := hs.source_in m List.mem_cons_self
  have hout := hs.destination_in m List.mem_cons_self
  have h₁ := Board.material_set_cell values color hin none
  have hout' := (Board.in_bounds_set_cell board m.source none m.destination).mpr hout
  have h₂ := Board.material_set_cell values color hout' (some e.moved_piece)
  have hmoved := hl.worth_moved values color
  rw [← hl.board_eq hin hout, Board.piece_at_set_cell hin] at h₂
  simp only [cell_worth_none, cell_worth_some] at h₁ h₂
  cases hk : m.kind with
  | Move =>
      -- the mover stands on its source
      obtain ⟨x, hx, hxm, -⟩ := hs.mover m List.mem_cons_self hk
      have hid : x.id = m.id := Piece.id_of_stateless hxm
      have hworth := worth_of_stateless values color hxm
      rw [hx, cell_worth_some] at h₁
      rw [hovering_of_move hk]
      by_cases hsame : m.destination = m.source
      · rw [if_pos hsame, cell_worth_none] at h₂
        rw [found_of_self (hsame ▸ hx) hid, cell_worth_none]
        omega
      · rw [if_neg hsame] at h₂
        rw [found_of_other fun y hy hyid => hsame (hs.destination_eq_source hy hyid)]
        omega
  | JumpInPlace =>
      have hsame := hs.in_place m List.mem_cons_self hk
      have hstands := hs.jumper m List.mem_cons_self hk
      rw [if_pos hsame, cell_worth_none] at h₂
      rw [← congrArg board.piece_at hsame] at h₁
      rw [← hsame] at hstands
      by_cases hon : OnBoard board m.id
      · -- nobody has taken its cell
        obtain ⟨q, x, hx, hid⟩ := hon
        obtain ⟨rfl, hxm⟩ := hstands q x hx hid
        have hworth := worth_of_stateless values color hxm
        rw [hx, cell_worth_some] at h₁
        rw [found_of_self hx hid, hovering_of_on ⟨_, x, hx, hid⟩, cell_worth_none]
        omega
      · rw [found_of_other fun y hy hyid => hon ⟨_, y, hy, hyid⟩, hovering_of_off hk hon]
        omega

/-- What a landing captures is what it finds, unless that is in the air. -/
theorem Landed.captured_found (hl : Landed board m board' e) :
    e.captured_piece = (found board m).bind fun x =>
      if x.state = .Airborne then none else some { x with state := .Captured } := by
  rw [hl.captured]
  cases hx : board.piece_at m.destination with
  | none => simp [found, hx, CollisionResolver.resolve]
  | some x =>
      by_cases hid : x.id = m.id
      · rw [resolve_self hid, found_of_self hx hid]
        rfl
      · rw [found_eq_some.mpr ⟨hx, hid⟩, Option.bind_some]
        by_cases hair : x.state = .Airborne
        · rw [resolve_airborne hid (hl.enemy x hx hid) hair, if_pos hair]
        · rw [resolve_grounded_enemy hid (hl.enemy x hx hid) hair, if_neg hair]

/-- What is found has lost its cell. -/
theorem Landed.found_off (hl : Landed board m board' e) (hs : Sound board (m :: rest)) {x : Piece}
    (hx : found board m = some x) : ¬ OnBoard board' x.id := by
  obtain ⟨hx, hid⟩ := found_eq_some.mp hx
  rintro ⟨q, y, hy, hyx⟩
  rcases hl.read_cases hy with ⟨-, rfl⟩ | ⟨hq, -, hold⟩
  · exact hid (hyx.symm.trans hl.moved_id)
  · exact hq (hs.distinct _ _ _ _ hold hx hyx)

/-- Every other piece stays on the board, or off it. -/
theorem Landed.on_board_iff (hl : Landed board m board' e) (hs : Sound board (m :: rest))
    {i : PieceId} (hi : i ≠ m.id) (hfound : ∀ x, found board m = some x → x.id ≠ i) :
    OnBoard board' i ↔ OnBoard board i := by
  constructor
  · rintro ⟨q, x, hx, hid⟩
    exact ⟨q, x, hl.frame hx (hid.trans_ne hi), hid⟩
  · rintro ⟨q, x, hx, hid⟩
    have hxm : x.id ≠ m.id := hid.trans_ne hi
    have hdestination : q ≠ m.destination := by
      rintro rfl
      exact hfound x (found_eq_some.mpr ⟨hx, hxm⟩) hid
    have hsource : q ≠ m.source := by
      rintro rfl
      exact hdestination (hs.destination_of_other hx hxm).symm
    exact ⟨q, x, by rw [hl.read, if_neg hdestination, if_neg hsource, hx], hid⟩

/-- A blocked arrival writes a state. -/
theorem Blocked.material (values : PieceValueProvider) (color : PieceColor)
    (hb : Blocked board m board' e) :
    board'.material values color = board.material values color := by
  obtain ⟨x, hx, hread⟩ := hb.stays
  have hin := Board.in_bounds_of_piece_at hx
  have hboard : board' = board.set_cell m.source (some x.stateless) := by
    refine Board.ext_piece_at hb.width hb.height fun q => ?_
    rw [hread, Board.piece_at_set_cell hin]
  have hset := Board.material_set_cell values color hin (some x.stateless)
  have hsame : worth values color x.stateless = worth values color x := rfl
  rw [← hboard, hx, cell_worth_some, cell_worth_some, hsame] at hset
  omega

theorem Blocked.on_board_iff (hb : Blocked board m board' e) {i : PieceId} :
    OnBoard board' i ↔ OnBoard board i := by
  constructor
  · rintro ⟨q, y, hy, hid⟩
    obtain ⟨x, hx, hxy⟩ := hb.read_stateless hy
    exact ⟨q, x, hx, (Piece.id_of_stateless hxy).symm.trans hid⟩
  · rintro ⟨q, y, hy, hid⟩
    obtain ⟨x, hx, hread⟩ := hb.stays
    by_cases hq : q = m.source
    · have hyx : y = x := Option.some.inj (hy.symm.trans (hq ▸ hx))
      exact ⟨q, x.stateless, by rw [hread, if_pos hq], hyx ▸ hid⟩
    · exact ⟨q, y, by rw [hread, if_neg hq, hy], hid⟩

end Turn

section Settled

variable {values : PieceValueProvider} {color : PieceColor} {tick_start_ms ms : Int} {b b' : Batch}
  {p : PendingArrival} {e : ArrivalEvent} {ps : List PendingArrival} {still : List Motion}

/-- What a capture calls off carried nothing over the board. -/
theorem Settled.aloft_live (values : PieceValueProvider) (color : PieceColor)
    (h : Settled tick_start_ms ms b p e b')
    (hs : Sound b.board (p.motion :: live b.captured_this_batch ps still)) :
    aloft b.board (live b'.captured_this_batch ps still) values color
      = aloft b.board (live b.captured_this_batch ps still) values color := by
  have hnodup := (hs.sublist (List.sublist_cons_self _ _)).nodup
  refine sum_map_sublist (h.live_sublist ps still) (List.Nodup.of_map _ hnodup) ?_
  intro m hm hno
  obtain ⟨c, hc, hid⟩ := h.live_dropped hm hno
  obtain ⟨o, ho, hoc, -⟩ := h.captured_piece hc
  exact hovering_of_on ⟨_, o, ho, hoc.trans hid⟩

/-- Where a landing takes no cell from under a motion still live, what is aloft stays so. -/
theorem Settled.aloft_landed (values : PieceValueProvider) (color : PieceColor)
    (h : Settled tick_start_ms ms b p e b')
    (hs : Sound b.board (p.motion :: live b.captured_this_batch ps still))
    (hl : Landed b.board p.motion b'.board e)
    (hfound : ∀ x, found b.board p.motion = some x →
      ∀ m ∈ live b'.captured_this_batch ps still, m.id ≠ x.id) :
    aloft b'.board (live b'.captured_this_batch ps still) values color
      = aloft b.board (live b'.captured_this_batch ps still) values color := by
  refine congrArg List.sum (List.map_congr_left fun m hm => hovering_congr ?_)
  have hother : m.id ≠ p.id := hs.id_ne ((h.live_sublist ps still).subset hm)
  exact hl.on_board_iff hs hother fun x hx hid => hfound x hx m hm hid.symm

/-- A jumper whose cell is taken from under it is carried by its jump from then on. -/
theorem Settled.aloft_jumper (values : PieceValueProvider) (color : PieceColor)
    (h : Settled tick_start_ms ms b p e b')
    (hs : Sound b.board (p.motion :: live b.captured_this_batch ps still))
    (hst : Stated b.board (p.motion :: live b.captured_this_batch ps still))
    (hl : Landed b.board p.motion b'.board e) {x : Piece}
    (hfound : found b.board p.motion = some x) (hair : x.state = .Airborne) :
    aloft b'.board (live b'.captured_this_batch ps still) values color
      = aloft b.board (live b'.captured_this_batch ps still) values color
        + worth values color x := by
  obtain ⟨hx, hxm⟩ := found_eq_some.mp hfound
  have hcaptured := hl.captured_found
  rw [hfound, Option.bind_some, if_pos hair] at hcaptured
  obtain ⟨m, hm, hk, hid⟩ := hst.jump_of_airborne hx hair
  have hm : m ∈ live b.captured_this_batch ps still := by
    refine (List.mem_cons.mp hm).resolve_left ?_
    rintro rfl
    exact hxm hid.symm
  have hm' := h.live_of_not_captured hm fun c hc => by
    rw [hcaptured] at hc
    cases hc
  have hsum := sum_map_changed (f := hovering b.board values color)
    (g := hovering b'.board values color) (h.sound hs).nodup hm' fun m' hm' hne => by
      have hother : m'.id ≠ p.id := hs.id_ne ((h.live_sublist ps still).subset hm')
      refine hovering_congr (hl.on_board_iff hs hother fun y hy => ?_)
      rw [← Option.some.inj (hfound.symm.trans hy), ← hid]
      exact hne.symm
  have hoff := hl.found_off hs hfound
  have hworth := worth_of_stateless values color
    (hs.jumper m (List.mem_cons_of_mem _ hm) hk _ x hx hid.symm).2
  rw [hovering_of_on ⟨_, x, hx, hid.symm⟩, hovering_of_off hk (hid ▸ hoff)] at hsum
  unfold aloft
  omega

/-- **A turn balances.** -/
theorem Settled.balanced (values : PieceValueProvider) (color : PieceColor)
    (h : Settled tick_start_ms ms b p e b')
    (hs : Sound b.board (p.motion :: live b.captured_this_batch ps still))
    (hst : Stated b.board (p.motion :: live b.captured_this_batch ps still))
    (hclear : lands_on_ally b.board p.motion = false)
    (hblocked : Blocked b.board p.motion b'.board e → e.was_promotion = false) :
    b'.board.material values color
        + aloft b'.board (live b'.captured_this_batch ps still) values color
        + taken values color e
      = b.board.material values color
        + aloft b.board (p.motion :: live b.captured_this_batch ps still) values color
        + promoted values color e := by
  have hcons : aloft b.board (p.motion :: live b.captured_this_batch ps still) values color
      = hovering b.board values color p.motion
        + aloft b.board (live b.captured_this_batch ps still) values color := by
    unfold aloft
    rw [List.map_cons, List.sum_cons]
  rw [hcons, ← h.aloft_live values color hs]
  rcases h.outcome with ⟨hl, -⟩ | ⟨hb, -⟩
  · have hboard := hl.material values color hs
    have hcaptured := hl.captured_found
    unfold taken
    cases hfound : found b.board p.motion with
    | none =>
        -- nobody is found
        rw [hfound, cell_worth_none] at hboard
        rw [hfound, Option.bind_none] at hcaptured
        rw [hcaptured, cell_worth_none, h.aloft_landed values color hs hl (by simp [hfound])]
        omega
    | some x =>
        obtain ⟨hx, -⟩ := found_eq_some.mp hfound
        rw [hfound, cell_worth_some] at hboard
        rw [hfound, Option.bind_some] at hcaptured
        by_cases hair : x.state = .Airborne
        · -- it is in the air: its jump carries it from now on
          rw [if_pos hair] at hcaptured
          rw [hcaptured, cell_worth_none, h.aloft_jumper values color hs hst hl hfound hair]
          omega
        · -- it is captured, and with it what it was about
          rw [if_neg hair] at hcaptured
          have hsame := h.aloft_landed values color hs hl fun y hy m hm hid => by
            obtain rfl := Option.some.inj (hfound.symm.trans hy)
            have hmem := List.mem_cons_of_mem p.motion ((h.live_sublist ps still).subset hm)
            have hk := hst.move_of_grounded hx hair hmem hid
            exact h.live_keeps hm hk _ hcaptured hid.symm
          have hworth : worth values color { x with state := .Captured } = worth values color x :=
            rfl
          rw [hcaptured, hsame, cell_worth_some, hworth]
          omega
  · have hsame : aloft b'.board (live b'.captured_this_batch ps still) values color
        = aloft b.board (live b'.captured_this_batch ps still) values color :=
      congrArg List.sum (List.map_congr_left fun m _ => hovering_congr hb.on_board_iff)
    have hflag : promoted values color e = 0 := if_neg fun hc => by
      rw [hblocked hb] at hc
      cases hc.1
    unfold taken
    rw [hb.captured, cell_worth_none, hsame, hb.material values color, hflag,
      hovering_of_move (hb.move_of_clear hclear)]
    omega

/-- A piece that is turned back is not promoted. -/
theorem Settled.not_promoted (h : Settled tick_start_ms ms b p e b')
    (hs : Sound b.board (p.motion :: live b.captured_this_batch ps still))
    (hp : p.id ∉ b.captured_this_batch) (hrun : resolve_one tick_start_ms ms b p = .ok b')
    (hb : Blocked b.board p.motion b'.board e) : e.was_promotion = false := by
  obtain ⟨board', r, hresolve, hout⟩ := resolve_arrival_spec hs
  unfold resolve_one at hrun
  rw [if_neg hp, hresolve] at hrun
  obtain rfl := Except.ok.inj hrun
  have he : e = { r.event with arrived_at_ms := tick_start_ms + p.time_into_tick_ms } := by
    obtain ⟨-, hlast⟩ := List.append_inj' h.events rfl
    exact (List.singleton_inj.mp hlast).symm
  rcases hout with ⟨-, hl⟩ | ⟨hr, -⟩
  · -- an ally on the destination blocks
    obtain ⟨o, ho, hid, hcolor⟩ := hb.ally
    exact absurd hcolor (hl.enemy o ho hid)
  · rw [he, hr]
    rfl

/-- What is captured is hostile to what moved. -/
theorem Settled.hostile (h : Settled tick_start_ms ms b p e b') :
    ∀ c, e.captured_piece = some c → c.color ≠ e.moved_piece.color := by
  intro c hc
  rcases h.outcome with ⟨hl, -⟩ | ⟨hb, -⟩
  · obtain ⟨o, ho, hid, hcolor, -, rfl⟩ := captured_of_resolve (hl.captured.symm.trans hc)
    rw [hl.moved_eq, (promotion_fields _ _).2.1]
    exact hcolor
  · rw [hb.captured] at hc
    cases hc

end Settled

/-! ## The tick and the run -/

variable {values : PieceValueProvider} {color : PieceColor}

theorem aloft_perm {board : Board} {motions motions' : List Motion}
    (h : motions'.Perm motions) :
    aloft board motions' values color = aloft board motions values color :=
  (h.map _).sum_eq

theorem aloft_advanced (board : Board) (motions : List Motion) (ms : Int) :
    aloft board (motions.map (advanced ms)) values color = aloft board motions values color := by
  unfold aloft
  rw [List.map_map]
  rfl

/-- What a colour has on the board and in the air. -/
def GameEngine.holdings (g : GameEngine) (values : PieceValueProvider) (color : PieceColor) : Int :=
  g.board.material values color + aloft g.board g.arbiter.active_motions values color

/-- What the events took is missing, and what they promoted is there. -/
def Balanced (values : PieceValueProvider) (color : PieceColor) (before after : Int)
    (events : List ArrivalEvent) : Prop :=
  after + (events.map (taken values color)).sum
    = before + (events.map (promoted values color)).sum

def Hostile (e : ArrivalEvent) : Prop :=
  ∀ c, e.captured_piece = some c → c.color ≠ e.moved_piece.color

/-- A clear tick balances. -/
theorem advance_balanced {a a' : RealTimeArbiter} {ms : Int} {es : List ArrivalEvent}
    (hs : Sound a.board a.active_motions) (hst : Stated a.board a.active_motions)
    (hclear : tick_clear a ms = true) (hrun : a.advance_time ms = .ok (a', es)) :
    Balanced values color
        (a.board.material values color + aloft a.board a.active_motions values color)
        (a'.board.material values color + aloft a'.board a'.active_motions values color) es ∧
      ∀ e ∈ es, Hostile e := by
  obtain ⟨b, rfl, rfl, -, hsum, hhostile⟩ := advance_time_avoiding hs hclear hrun
    (fun motions b => Stated b.board motions ∧
      Balanced values color
        (a.board.material values color + aloft a.board a.active_motions values color)
        (b.board.material values color + aloft b.board motions values color) b.events ∧
      ∀ e ∈ b.events, Hostile e)
    (fun motions hperm => by
      refine ⟨(hst.map_advanced ms).perm hperm, ?_, fun e he => absurd he List.not_mem_nil⟩
      unfold Balanced batch_start
      dsimp only
      rw [aloft_perm hperm, aloft_advanced]
      rfl)
    (fun p ps b e b' hp hsound hnow h hone hset => by
      have hstated := hset.stated hsound h.1 fun hblocked =>
        hsound.quiet_of_move (hblocked.move_of_clear hnow)
      have hturn := hset.balanced values color hsound h.1 hnow fun hb =>
        hset.not_promoted hsound hp hone hb
      refine ⟨hstated, ?_, ?_⟩
      · have hbefore := h.2.1
        unfold Balanced at hbefore ⊢
        rw [hset.events, List.map_append, List.map_append, List.sum_append, List.sum_append,
          List.map_singleton, List.map_singleton, List.sum_singleton, List.sum_singleton]
        omega
      · intro e' he'
        rw [hset.events, List.mem_append, List.mem_singleton] at he'
        rcases he' with he' | rfl
        · exact h.2.2 e' he'
        · exact hset.hostile)
  exact ⟨hsum, hhostile⟩

theorem Starts.on_board_iff {board : Board} {m : Motion} {x : Piece} (hs : Starts board m x)
    {i : PieceId} : OnBoard (board_after_start board m x) i ↔ OnBoard board i := by
  constructor
  · rintro ⟨q, y, hy, hid⟩
    obtain ⟨z, hz, hyz⟩ := hs.read_stateless hy
    exact ⟨q, z, hz, (Piece.id_of_stateless hyz).symm.trans hid⟩
  · rintro ⟨q, y, hy, hid⟩
    by_cases hq : q = m.source
    · have hyx : y = x := Option.some.inj (hy.symm.trans (hq ▸ hs.at_source))
      exact ⟨q, { x with state := starting_state m.kind }, by rw [hs.read, if_pos hq], hyx ▸ hid⟩
    · exact ⟨q, y, by rw [hs.read, if_neg hq, hy], hid⟩

/-- A motion that starts takes nothing off the board. -/
theorem holdings_with_motion {g : GameEngine} {m : Motion} {x : Piece}
    (hs : Starts g.board m x) :
    (g.with_motion m x).holdings values color = g.holdings values color := by
  have hin := Board.in_bounds_of_piece_at hs.at_source
  have hset := Board.material_set_cell values color hin
    (some { x with state := starting_state m.kind })
  have hsame : worth values color { x with state := starting_state m.kind }
      = worth values color x := rfl
  rw [hs.at_source, cell_worth_some, cell_worth_some, hsame] at hset
  have haloft : aloft (board_after_start g.board m x) (g.arbiter.active_motions ++ [m]) values color
      = aloft g.board g.arbiter.active_motions values color := by
    unfold aloft
    rw [List.map_append, List.sum_append, List.map_singleton, List.sum_singleton,
      hovering_of_on (hs.on_board_iff.mpr
        ⟨_, x, hs.at_source, (congrArg Piece.id hs.snapshot).symm⟩),
      List.map_congr_left fun m' _ => hovering_congr hs.on_board_iff]
    exact Int.add_zero _
  show (board_after_start g.board m x).material values color
      + aloft (board_after_start g.board m x) (g.arbiter.active_motions ++ [m]) values color = _
  rw [haloft]
  unfold GameEngine.holdings board_after_start
  omega

/-- **Every step balances.** -/
theorem holdings_step (values : PieceValueProvider) (color : PieceColor)
    {ids : PieceId → Prop} {g g' : GameEngine} {tr es : List ArrivalEvent} {cmd : Command}
    (h : Kept ids g tr) (hclear : NoLandingOnAlly g tr cmd)
    (hrun : exec g cmd = .ok (g', es)) :
    Balanced values color (g.holdings values color) (g'.holdings values color) es ∧
      ∀ e ∈ es, Hostile e := by
  cases exec_effect hrun with
  | refused => exact ⟨rfl, fun e he => absurd he List.not_mem_nil⟩
  | started _ m x _ hs _ _ =>
      refine ⟨?_, fun e he => absurd he List.not_mem_nil⟩
      unfold Balanced
      rw [holdings_with_motion hs]
      rfl
  | waited ms a es hover hadv =>
      exact advance_balanced h.sound h.stated (hclear.resolve_left (by simp [hover])) hadv

theorem balanced_of_reach (values : PieceValueProvider) (color : PieceColor)
    {f : MotionFactory} {b : Board} {g : GameEngine} {tr : List ArrivalEvent} (hb : Fresh b)
    (h : Reach exec NoLandingOnAlly (GameEngine.new f b) g tr) :
    Balanced values color (b.material values color) (g.holdings values color) tr ∧
      ∀ e ∈ tr, Hostile e := by
  refine Reach.invariant (P := fun g tr =>
    Balanced values color (b.material values color) (g.holdings values color) tr ∧
      ∀ e ∈ tr, Hostile e) ⟨?_, fun e he => absurd he List.not_mem_nil⟩ ?_ h
  · unfold Balanced GameEngine.holdings
    exact congrArg (· + 0) (Int.add_zero _)
  · rintro g tr cmd g' es hr ⟨hsum, hhostile⟩ hclear hrun
    obtain ⟨hstep, hes⟩ := holdings_step values color (kept_of_reach hb hr) hclear hrun
    refine ⟨?_, ?_⟩
    · unfold Balanced at hsum hstep ⊢
      rw [List.map_append, List.map_append, List.sum_append, List.sum_append]
      omega
    · intro e he
      exact (List.mem_append.mp he).elim (hhostile e) (hes e)

/-- Whoever moved is credited with what the other side lost. -/
theorem Hostile.credit_eq {e : ArrivalEvent} (h : Hostile e) (color : PieceColor) :
    ScoreObserver.credit values color e = taken values (opposite_of color) e := by
  unfold ScoreObserver.credit taken cell_worth worth
  cases hc : e.captured_piece with
  | none => simp
  | some c =>
      have hcolor := h c hc
      by_cases hmoved : e.moved_piece.color = color
      · have hlost : c.color = opposite_of color := eq_opposite_of_ne (hmoved ▸ hcolor)
        simp [hmoved, hlost]
      · have hown : c.color ≠ opposite_of color := by
          rw [← eq_opposite_of_ne hmoved]
          exact hcolor
        simp [hmoved, hown]

/-- What has been credited, from a first board on. -/
theorem score_of_reach (values : PieceValueProvider) {f : MotionFactory} {b : Board}
    {g : GameEngine} {tr : List ArrivalEvent} (hb : Fresh b)
    (hrun : Reach exec NoLandingOnAlly (GameEngine.new f b) g tr) (color : PieceColor) :
    (tr.foldl ScoreObserver.on_arrival { values := values }).score color
        + g.holdings values (opposite_of color)
      = b.material values (opposite_of color)
        + (tr.map (promoted values (opposite_of color))).sum := by
  obtain ⟨hsum, hhostile⟩ := balanced_of_reach values (opposite_of color) hb hrun
  have hcredits : tr.map (ScoreObserver.credit values color)
      = tr.map (taken values (opposite_of color)) :=
    List.map_congr_left fun e he => (hhostile e he).credit_eq color
  have hzero : ({ values := values } : ScoreObserver).score color = 0 := by
    cases color <;> rfl
  rw [(ScoreObserver.foldl_on_arrival tr { values := values }).2, hzero, hcredits]
  unfold Balanced at hsum
  omega

/-- **The score is the material lost.** In every run in which no jumper comes down on an
ally, in every state it reaches, what a side has scored and what the other has left, on the
board and in the air, make up what the other began with and gained by promotion. -/
theorem score_is_material_lost (values : PieceValueProvider) {board_lines : List String}
    {b : Board} {f : MotionFactory} {g : GameEngine} {tr : List ArrivalEvent}
    (hparse : parse board_lines = .ok b)
    (hrun : Reach exec NoLandingOnAlly (GameEngine.new f b) g tr) (color : PieceColor) :
    (tr.foldl ScoreObserver.on_arrival { values := values }).score color
        + g.holdings values (opposite_of color)
      = b.material values (opposite_of color)
        + (tr.map (promoted values (opposite_of color))).sum :=
  score_of_reach values (fresh_of_parse hparse) hrun color

/-- The white king takes the rook that was to take it. -/
theorem five_for_the_rook : ∃ g tr,
    run exec (GameEngine.new shipped_factory three_on_a_row)
      [.request_move ⟨0, 1⟩ ⟨0, 2⟩, .wait 1000] = .ok (g, tr) ∧
    (tr.map (ScoreObserver.credit kDefaultPieceValueProvider .White)).sum = 5 ∧
    (tr.foldl ScoreObserver.on_arrival { values := kDefaultPieceValueProvider }).score .White
        + g.holdings kDefaultPieceValueProvider .Black
      = three_on_a_row.material kDefaultPieceValueProvider .Black
        + (tr.map (promoted kDefaultPieceValueProvider .Black)).sum := by
  obtain ⟨⟨g, tr⟩, hrun, hscore⟩ := exists_ok_such (p := fun r =>
      (r.2.map (ScoreObserver.credit kDefaultPieceValueProvider .White)).sum = 5)
    (x := run exec (GameEngine.new shipped_factory three_on_a_row)
      [.request_move ⟨0, 1⟩ ⟨0, 2⟩, .wait 1000]) (by decide)
  exact ⟨g, tr, hrun, of_decide_eq_true hscore, score_is_material_lost kDefaultPieceValueProvider
    parse_three_on_a_row (reach_of_meets (by decide) hrun) .White⟩

end KungFuChess
