/-
**A piece keeps its identity.**

An arriving piece is put down from the snapshot its motion took when it started, not
from the board, so what it is after the arrival is what it was when it set out. It is
the right piece all the same: a piece has one motion at a time, and what it is changes
only when a motion of it arrives. So every record of a piece, on the board or in a
motion, is the initial one as the completed arrivals of the piece have left it (`Same`):
a pawn that has promoted is a queen, and `has_moved` says whether a move has ended.
-/
import KungFuChess.Rests
import Mathlib.Data.List.Induction

set_option autoImplicit false

namespace KungFuChess

open Machine RealTimeArbiter GameEngine

/-! ## What a piece has become -/

/-- The row a pawn promotes on. -/
def far_row (height : Nat) : PieceColor → Int
  | .White => 0
  | .Black => height - 1

def promotes (i : PieceId) (r : ResolvedArrival) : Bool :=
  r.event.was_promotion && decide (r.event.moved_piece.id = i)

def completes_move (i : PieceId) (r : ResolvedArrival) : Bool :=
  completes i r && decide (r.event.kind = .Move)

/-- The kind of a piece that was `x` at first. -/
def kind_after (x : Piece) (tr : List ResolvedArrival) : PieceKind :=
  if tr.any (promotes x.id) then .Queen else x.kind

/-- `y` is the piece that was `x` at first. -/
structure Same (x : Piece) (tr : List ResolvedArrival) (y : Piece) : Prop where
  id : y.id = x.id
  color : y.color = x.color
  kind : y.kind = kind_after x tr
  has_moved : y.has_moved = tr.any (completes_move x.id)

/-- One of the initial pieces. -/
def Origin (b₀ : Board) (tr : List ResolvedArrival) (y : Piece) : Prop :=
  ∃ pos x, b₀.piece_at pos = some x ∧ Same x tr y

/-- What the chronicle says of the piece that was `x` at first, up to each arrival: who
moved and who was captured, and that it promotes once, from a pawn, on its far row. -/
structure Recorded (height : Nat) (x : Piece) (tr : List ResolvedArrival) : Prop where
  moved : ∀ pre r, pre ++ [r] <+: tr → r.event.moved_piece.id = x.id →
    Same x (pre ++ [r]) r.event.moved_piece
  captured : ∀ pre r, pre ++ [r] <+: tr → ∀ c, r.event.captured_piece = some c → c.id = x.id →
    Same x pre c
  promoted : ∀ pre r, pre ++ [r] <+: tr → promotes x.id r = true →
    r.piece_actually_arrived = true ∧ x.kind = .Pawn ∧ r.event.moved_piece.kind = .Queen ∧
      r.event.moved_piece.cell.row = far_row height x.color ∧ pre.any (promotes x.id) = false

section Same

variable {x y : Piece} {tr : List ResolvedArrival} {r : ResolvedArrival}

theorem Same.quiet (h : Same x tr y) (hpromotes : promotes x.id r = false)
    (hmove : completes_move x.id r = false) : Same x (tr ++ [r]) y where
  id := h.id
  color := h.color
  kind := by
    rw [h.kind]
    unfold kind_after
    rw [List.any_append, List.any_cons, List.any_nil, hpromotes, Bool.or_false, Bool.or_false]
  has_moved := by
    rw [h.has_moved, List.any_append, List.any_cons, List.any_nil, hmove, Bool.or_false,
      Bool.or_false]

/-- An arrival of another piece. -/
theorem Same.other (h : Same x tr y) (hother : r.event.moved_piece.id ≠ x.id) :
    Same x (tr ++ [r]) y := by
  refine h.quiet ?_ ?_
  · unfold promotes
    simp [hother]
  · unfold completes_move completes
    simp [hother]

/-- A piece that was turned back. -/
theorem Same.stayed (h : Same x tr y) (hstayed : r.piece_actually_arrived = false)
    (hpromoted : r.event.was_promotion = false) : Same x (tr ++ [r]) y := by
  refine h.quiet ?_ ?_
  · unfold promotes
    rw [hpromoted, Bool.false_and]
  · unfold completes_move completes
    rw [hstayed, Bool.false_and, Bool.false_and]

/-- Nothing of it lies in the state. -/
theorem Same.with_state (h : Same x tr y) (state : PieceState) :
    Same x tr { y with state := state } := ⟨h.id, h.color, h.kind, h.has_moved⟩

theorem Origin.with_state {b₀ : Board} (h : Origin b₀ tr y) (state : PieceState) :
    Origin b₀ tr { y with state := state } := by
  obtain ⟨pos, x, hx, hsame⟩ := h
  exact ⟨pos, x, hx, hsame.with_state state⟩

/-- The piece of that id is the one it was. -/
theorem Origin.same {b₀ : Board} (h : Origin b₀ tr y) (hd : b₀.Distinct) {pos : Position}
    (hx : b₀.piece_at pos = some x) (hid : y.id = x.id) : Same x tr y := by
  obtain ⟨pos', x', hx', hsame⟩ := h
  obtain rfl : pos' = pos := hd pos' pos x' x hx' hx (hsame.id.symm.trans hid)
  obtain rfl : x' = x := Option.some.inj (hx'.symm.trans hx)
  exact hsame

end Same

/-! ## Promotion -/

/-- What promotion makes of a piece. -/
theorem promotion_spec (y : Piece) (board : Board) :
    ((apply_pawn_promotion y board).2 = true ∧ y.kind = .Pawn ∧
      (apply_pawn_promotion y board).1.kind = .Queen ∧
      y.cell.row = far_row board.height y.color) ∨
    ((apply_pawn_promotion y board).2 = false ∧
      (apply_pawn_promotion y board).1.kind = y.kind) := by
  unfold apply_pawn_promotion
  dsimp only
  split_ifs with hkind hwhite hrow hrow
  · exact .inr ⟨rfl, rfl⟩
  · refine .inl ⟨rfl, not_not.mp hkind, rfl, ?_⟩
    rw [hwhite]
    exact hrow
  · exact .inr ⟨rfl, rfl⟩
  · refine .inl ⟨rfl, not_not.mp hkind, rfl, ?_⟩
    have hblack : y.color = .Black := by
      cases hcolor : y.color with
      | White => exact absurd hcolor hwhite
      | Black => rfl
    rw [hblack]
    exact hrow
  · exact .inr ⟨rfl, rfl⟩

section Landed

variable {board board' : Board} {m : Motion} {r : ResolvedArrival} {x : Piece}
  {tr : List ResolvedArrival}

theorem Landed.moved_color (hl : Landed board m board' r.event) :
    r.event.moved_piece.color = m.moving_piece.color := by
  rw [hl.moved_eq, (promotion_fields _ _).2.1]
  rfl

theorem Landed.moved_has_moved (hl : Landed board m board' r.event) :
    r.event.moved_piece.has_moved
      = (m.moving_piece.has_moved || decide (r.event.kind = .Move)) := by
  rw [hl.moved_eq, (promotion_fields _ _).2.2.2.2, hl.kind]
  show (if m.kind = .Move then true else m.moving_piece.has_moved) = _
  by_cases hkind : m.kind = .Move
  · simp [hkind]
  · simp [hkind]

/-- What a landing does to the kind. -/
theorem Landed.moved_kind (hl : Landed board m board' r.event) :
    (r.event.was_promotion = true ∧ m.moving_piece.kind = .Pawn ∧
      r.event.moved_piece.kind = .Queen ∧
      r.event.moved_piece.cell.row = far_row board.height m.moving_piece.color) ∨
    (r.event.was_promotion = false ∧ r.event.moved_piece.kind = m.moving_piece.kind) := by
  have hpromoted : r.event.was_promotion = (apply_pawn_promotion (arriving_piece m) board).2 :=
    congrArg Prod.snd hl.moved
  rw [hpromoted, hl.moved_cell, hl.moved_eq]
  exact promotion_spec (arriving_piece m) board

/-- **A landing changes the kind and `has_moved` as the chronicle says.** -/
theorem Same.landed (h : Same x tr m.moving_piece) (hl : Landed board m board' r.event)
    (harrived : r.piece_actually_arrived = true) : Same x (tr ++ [r]) r.event.moved_piece where
  id := hl.moved_id.trans h.id
  color := hl.moved_color.trans h.color
  kind := by
    have hid : r.event.moved_piece.id = x.id := hl.moved_id.trans h.id
    unfold kind_after
    rw [List.any_append, List.any_cons, List.any_nil, Bool.or_false]
    rcases hl.moved_kind with ⟨hpromoted, _, hqueen, _⟩ | ⟨hpromoted, hkind⟩
    · have hnow : promotes x.id r = true := by
        unfold promotes
        rw [hpromoted, hid]
        simp
      rw [hqueen, hnow, Bool.or_true, if_pos rfl]
    · have hnow : promotes x.id r = false := by
        unfold promotes
        rw [hpromoted, Bool.false_and]
      rw [hkind, hnow, Bool.or_false, h.kind]
      rfl
  has_moved := by
    have hid : r.event.moved_piece.id = x.id := hl.moved_id.trans h.id
    have hnow : completes_move x.id r = decide (r.event.kind = .Move) := by
      unfold completes_move completes
      rw [harrived, hid]
      simp
    rw [hl.moved_has_moved, h.has_moved, List.any_append, List.any_cons, List.any_nil, hnow,
      Bool.or_false]

/-- **Who promotes was a pawn so far**, and stands on its far row. -/
theorem Same.promoted (h : Same x tr m.moving_piece) (hl : Landed board m board' r.event)
    (hpromotes : promotes x.id r = true) :
    x.kind = .Pawn ∧ r.event.moved_piece.kind = .Queen ∧
      r.event.moved_piece.cell.row = far_row board.height x.color ∧
      tr.any (promotes x.id) = false := by
  have hflag : r.event.was_promotion = true := (Bool.and_eq_true_iff.mp hpromotes).1
  rcases hl.moved_kind with ⟨_, hpawn, hqueen, hrow⟩ | ⟨hno, _⟩
  · rw [h.kind] at hpawn
    rw [h.color] at hrow
    unfold kind_after at hpawn
    split_ifs at hpawn with hbefore
    exact ⟨hpawn, hqueen, hrow, Bool.eq_false_iff.mpr hbefore⟩
  · rw [hno] at hflag
    cases hflag

end Landed

/-- A chronicle goes on with one arrival. -/
theorem Recorded.snoc {height : Nat} {x : Piece} {tr : List ResolvedArrival} {r : ResolvedArrival}
    (h : Recorded height x tr)
    (hmoved : r.event.moved_piece.id = x.id → Same x (tr ++ [r]) r.event.moved_piece)
    (hcaptured : ∀ c, r.event.captured_piece = some c → c.id = x.id → Same x tr c)
    (hpromoted : promotes x.id r = true → r.piece_actually_arrived = true ∧ x.kind = .Pawn ∧
      r.event.moved_piece.kind = .Queen ∧ r.event.moved_piece.cell.row = far_row height x.color ∧
      tr.any (promotes x.id) = false) : Recorded height x (tr ++ [r]) := by
  have hcases : ∀ pre r', pre ++ [r'] <+: tr ++ [r] →
      (pre = tr ∧ r' = r) ∨ pre ++ [r'] <+: tr := by
    intro pre r' hpre
    rcases List.prefix_concat_iff.mp hpre with heq | hpre
    · obtain ⟨rfl, hr⟩ := List.append_inj' heq rfl
      exact .inl ⟨rfl, by simpa using hr⟩
    · exact .inr hpre
  refine ⟨?_, ?_, ?_⟩
  · intro pre r' hpre
    rcases hcases pre r' hpre with ⟨rfl, rfl⟩ | hpre
    · exact hmoved
    · exact h.moved pre r' hpre
  · intro pre r' hpre
    rcases hcases pre r' hpre with ⟨rfl, rfl⟩ | hpre
    · exact hcaptured
    · exact h.captured pre r' hpre
  · intro pre r' hpre
    rcases hcases pre r' hpre with ⟨rfl, rfl⟩ | hpre
    · exact hpromoted
    · exact h.promoted pre r' hpre

/-! ## Turns, ticks and commands -/

/-- **Every record is of an initial piece**, as the chronicle has left it. -/
structure Identified (b₀ board : Board) (motions : List Motion) (tr : List ResolvedArrival) :
    Prop where
  height : board.height = b₀.height
  on_board : ∀ q y, board.piece_at q = some y → Origin b₀ tr y
  on_way : ∀ m ∈ motions, Origin b₀ tr m.moving_piece
  recorded : ∀ pos x, b₀.piece_at pos = some x → Recorded b₀.height x tr

namespace Identified

variable {b₀ board : Board} {motions rest : List Motion} {tr : List ResolvedArrival}

theorem subset (h : Identified b₀ board motions tr) (hsub : rest ⊆ motions) :
    Identified b₀ board rest tr :=
  ⟨h.height, h.on_board, fun m hm => h.on_way m (hsub hm), h.recorded⟩

theorem map_advanced (h : Identified b₀ board motions tr) (ms : Int) :
    Identified b₀ board (motions.map (advanced ms)) tr :=
  ⟨h.height, h.on_board, List.forall_mem_map.mpr h.on_way, h.recorded⟩

/-- A turn of the loop. -/
theorem turn {tick_start_ms ms : Int} {b b' : Batch} {p : PendingArrival} {r : ResolvedArrival}
    (h : Identified b₀ b.board (p.motion :: rest) tr) (hd₀ : b₀.Distinct)
    (hd' : b'.board.Distinct) (hne : ∀ m ∈ rest, m.id ≠ p.id)
    (hturn : Turn tick_start_ms ms b p r b') :
    Identified b₀ b'.board rest (tr ++ [r]) := by
  have hmover := h.on_way p.motion List.mem_cons_self
  have hmoved := hturn.settled.moved_id
  -- records of other pieces stay true
  have hother : ∀ y, Origin b₀ tr y → y.id ≠ p.id → Origin b₀ (tr ++ [r]) y := by
    rintro y ⟨pos, x, hx, hsame⟩ hy
    refine ⟨pos, x, hx, hsame.other ?_⟩
    rw [hmoved, ← hsame.id]
    exact hy.symm
  have hon_way : ∀ m ∈ rest, Origin b₀ (tr ++ [r]) m.moving_piece := by
    intro m hm
    exact hother _ (h.on_way m (List.mem_cons_of_mem _ hm)) (hne m hm)
  rcases hturn.outcome with ⟨harrived, hlanded, _⟩ | ⟨hstayed, hblocked, _⟩
  · have hnow : Origin b₀ (tr ++ [r]) r.event.moved_piece := by
      obtain ⟨pos, x, hx, hsame⟩ := hmover
      exact ⟨pos, x, hx, hsame.landed hlanded harrived⟩
    refine ⟨hlanded.height.trans h.height, ?_, hon_way, ?_⟩
    · intro q y hy
      rcases hlanded.read_cases hy with ⟨_, rfl⟩ | ⟨hq, _, hold⟩
      · exact hnow
      · refine hother y (h.on_board q y hold) ?_
        intro hid
        -- ids are distinct, so it would stand where the mover landed
        exact hq (hd' q _ y _ hy hlanded.read_destination (hid.trans hmoved.symm))
    · intro pos x hx
      refine (h.recorded pos x hx).snoc ?_ ?_ ?_
      · intro hid
        exact hnow.same hd₀ hx hid
      · intro c hc hid
        rw [hlanded.captured] at hc
        obtain ⟨o, ho, _, _, _, rfl⟩ := captured_of_resolve hc
        exact ((h.on_board _ o ho).with_state .Captured).same hd₀ hx hid
      · intro hpromotes
        have hid : r.event.moved_piece.id = x.id := by
          simpa using (Bool.and_eq_true_iff.mp hpromotes).2
        have hsame := hmover.same hd₀ hx (hmoved.symm.trans hid)
        rw [← h.height]
        exact ⟨harrived, hsame.promoted hlanded hpromotes⟩
  · have hunpromoted : r.event.was_promotion = false := by
      rw [← Bool.not_eq_true]
      intro hpromoted
      rw [hturn.promotes hpromoted] at hstayed
      cases hstayed
    have hkeep : ∀ y, Origin b₀ tr y → Origin b₀ (tr ++ [r]) y := by
      rintro y ⟨pos, x, hx, hsame⟩
      exact ⟨pos, x, hx, hsame.stayed hstayed hunpromoted⟩
    refine ⟨hblocked.height.trans h.height, ?_, hon_way, ?_⟩
    · intro q y hy
      obtain ⟨z, hz, hread⟩ := hblocked.stays
      rw [hread] at hy
      split_ifs at hy
      · rw [← Option.some.inj hy]
        exact (hkeep z (h.on_board _ z hz)).with_state .Idle
      · exact hkeep y (h.on_board q y hy)
    · intro pos x hx
      refine (h.recorded pos x hx).snoc ?_ ?_ ?_
      · intro hid
        rw [hblocked.moved] at hid ⊢
        exact ((hkeep _ hmover).with_state .Idle).same hd₀ hx hid
      · intro c hc
        rw [hblocked.captured] at hc
        cases hc
      · intro hpromotes
        unfold promotes at hpromotes
        rw [hunpromoted, Bool.false_and] at hpromotes
        cases hpromotes

/-- A tick. -/
theorem tick {a : RealTimeArbiter} {b : Batch} {ms : Int}
    (h : Identified b₀ a.board a.active_motions tr) (hd₀ : b₀.Distinct)
    (hs : Sound a.board a.active_motions)
    (hloop : (sorted_arrivals ms a.active_motions).foldlM (resolve_one a.clock_ms ms)
      (a.batch_start ms) = .ok b) :
    Identified b₀ (a.finish_batch ms b).board (a.finish_batch ms b).active_motions
      (tr ++ a.resolved_in ms) := by
  have hstart : Identified b₀ (a.batch_start ms).board
      (live [] (sorted_arrivals ms a.active_motions) (still_active ms a.active_motions))
      (tr ++ []) := by
    rw [List.append_nil]
    exact (h.map_advanced ms).subset (live_start_perm ms a.active_motions).subset
  obtain ⟨b', hloop', _, _, hend⟩ := chronicle_rule ms hs
    (fun rs ps b => Identified b₀ b.board
      (live b.captured_this_batch ps (still_active ms a.active_motions)) (tr ++ rs))
    hstart
    (by
      intro rs p ps b hc h
      rw [live_cons_of_mem hc] at h
      exact h)
    (by
      intro rs p ps b r b' hc hsound h hturn
      rw [live_cons_of_not_mem hc] at h
      have hnext := h.turn hd₀ (hturn.settled.sound hsound).distinct
        (fun m hm => hsound.id_ne hm) hturn
      rw [List.append_assoc] at hnext
      exact hnext.subset (hturn.settled.live_sublist ps _).subset)
  obtain rfl : b' = b := Except.ok.inj (hloop'.symm.trans hloop)
  exact hend

/-- A command. -/
theorem step {g g' : GameEngine} {cmd : Command} {rs : List ResolvedArrival}
    (h : Identified b₀ g.board g.arbiter.active_motions tr) (hd₀ : b₀.Distinct) (hs : g.Sound)
    (hexec : Chronicled g cmd g' rs) :
    Identified b₀ g'.board g'.arbiter.active_motions (tr ++ rs) := by
  cases hexec with
  | refused => rwa [List.append_nil]
  | started _ m x _ _ starts =>
      rw [List.append_nil]
      have horigin := h.on_board _ x starts.at_source
      refine ⟨h.height, ?_, ?_, h.recorded⟩
      · intro q y hy
        have hy : (board_after_start g.board m x).piece_at q = some y := hy
        unfold board_after_start at hy
        rw [Board.piece_at_set_cell (Board.in_bounds_of_piece_at starts.at_source)] at hy
        split_ifs at hy
        · rw [← Option.some.inj hy]
          exact horigin.with_state _
        · exact h.on_board q y hy
      · intro m' hm'
        rcases List.mem_append.mp hm' with hm' | hm'
        · exact h.on_way m' hm'
        · rw [List.mem_singleton.mp hm', starts.snapshot]
          exact horigin
  | waited ms b running loop => exact h.tick hd₀ hs loop

end Identified

/-- A board nothing has happened on. -/
theorem identified_start {b : Board}
    (hunmoved : ∀ pos x, b.piece_at pos = some x → x.has_moved = false) :
    Identified b b [] [] where
  height := rfl
  on_board q y hy := ⟨q, y, hy, rfl, rfl, rfl, hunmoved q y hy⟩
  on_way _ hm := absurd hm List.not_mem_nil
  recorded pos x _ := by
    have hnone : ∀ (pre : List ResolvedArrival) r, ¬ pre ++ [r] <+: [] := by
      intro pre r hpre
      simpa using List.prefix_nil.mp hpre
    exact ⟨fun pre r hpre => absurd hpre (hnone pre r), fun pre r hpre => absurd hpre (hnone pre r),
      fun pre r hpre => absurd hpre (hnone pre r)⟩

theorem identified_of_reach {board_lines : List String} {b : Board} {f : MotionFactory}
    {g : GameEngine} {tr : List ResolvedArrival} (hparse : parse board_lines = .ok b)
    (hrun : Reach exec_resolved anyStep (GameEngine.new f b) g tr) :
    g.Sound ∧ Identified b g.board g.arbiter.active_motions tr := by
  have hb := fresh_of_parse hparse
  refine hrun.invariant (P := fun (g : GameEngine) tr => g.Sound ∧
    Identified b g.board g.arbiter.active_motions tr)
    ⟨sound_new f hb, identified_start (unmoved_of_parse hparse)⟩ ?_
  rintro g tr cmd g' rs _ ⟨hs, hidentified⟩ _ hexec
  obtain ⟨hchronicled, hone⟩ := exec_resolved_spec hs hexec
  exact ⟨hs.step hone, hidentified.step hb.distinct hs hchronicled⟩

theorem Recorded.of_prefix {height : Nat} {x : Piece} {tr tr' : List ResolvedArrival}
    (h : Recorded height x tr) (hpre : tr' <+: tr) : Recorded height x tr' where
  moved pre r hr := h.moved pre r (hr.trans hpre)
  captured pre r hr := h.captured pre r (hr.trans hpre)
  promoted pre r hr := h.promoted pre r (hr.trans hpre)

/-- A piece promotes at most once. -/
theorem Recorded.promotes_once {height : Nat} {x : Piece} {tr : List ResolvedArrival}
    (h : Recorded height x tr) : (tr.filter (promotes x.id)).length ≤ 1 := by
  induction tr using List.reverseRecOn with
  | nil => exact Nat.zero_le 1
  | append_singleton tr r ih =>
      rw [List.filter_append, List.length_append]
      by_cases hr : promotes x.id r = true
      · have hnone : tr.any (promotes x.id) = false :=
          (h.promoted tr r (List.prefix_refl _) hr).2.2.2.2
        have hempty : tr.filter (promotes x.id) = [] := by
          rw [List.filter_eq_nil_iff]
          exact List.any_eq_false.mp hnone
        rw [hempty, List.length_nil, Nat.zero_add]
        exact List.length_filter_le (promotes x.id) [r]
      · have hempty : [r].filter (promotes x.id) = [] := by
          rw [List.filter_cons_of_neg hr]
          rfl
        rw [hempty]
        exact ih (h.of_prefix (List.prefix_append tr [r]))

/-- **A piece keeps its identity.** Every record of it, on the board or in a motion or in
an event, has the initial colour and, but for a promotion, the initial kind; it promotes
at most once, from a pawn, by arriving on its far row; and `has_moved` is set when a
move of it has been completed. -/
theorem a_piece_keeps_its_identity {board_lines : List String} {b : Board} {f : MotionFactory}
    {g : GameEngine} {tr : List ResolvedArrival} (hparse : parse board_lines = .ok b)
    (hrun : Reach exec_resolved anyStep (GameEngine.new f b) g tr) {pos : Position} {x : Piece}
    (hx : b.piece_at pos = some x) :
    (∀ y, (∃ q, g.board.piece_at q = some y) ∨
        (∃ m ∈ g.arbiter.active_motions, m.moving_piece = y) → y.id = x.id →
      y.color = x.color ∧ y.kind = kind_after x tr ∧
        (y.has_moved = true ↔ ∃ r ∈ tr, completes_move x.id r = true)) ∧
    (∀ pre r, pre ++ [r] <+: tr →
      (r.event.moved_piece.id = x.id → r.event.moved_piece.color = x.color ∧
        r.event.moved_piece.kind = kind_after x (pre ++ [r])) ∧
      (∀ c, r.event.captured_piece = some c → c.id = x.id →
        c.color = x.color ∧ c.kind = kind_after x pre)) ∧
    (tr.filter (promotes x.id)).length ≤ 1 ∧
    ∀ r ∈ tr, promotes x.id r = true → r.piece_actually_arrived = true ∧ x.kind = .Pawn ∧
      r.event.moved_piece.kind = .Queen ∧
      r.event.moved_piece.cell.row = far_row b.height x.color := by
  obtain ⟨_, hidentified⟩ := identified_of_reach hparse hrun
  have hd := (fresh_of_parse hparse).distinct
  have hrecorded := hidentified.recorded pos x hx
  refine ⟨?_, ?_, hrecorded.promotes_once, ?_⟩
  · intro y hy hid
    have horigin : Origin b tr y := by
      rcases hy with ⟨q, hy⟩ | ⟨m, hm, rfl⟩
      · exact hidentified.on_board q y hy
      · exact hidentified.on_way m hm
    have hsame := horigin.same hd hx hid
    refine ⟨hsame.color, hsame.kind, ?_⟩
    rw [hsame.has_moved, List.any_eq_true]
  · intro pre r hpre
    constructor
    · intro hid
      have hsame := hrecorded.moved pre r hpre hid
      exact ⟨hsame.color, hsame.kind⟩
    · intro c hc hid
      have hsame := hrecorded.captured pre r hpre c hc hid
      exact ⟨hsame.color, hsame.kind⟩
  · intro r hr hpromotes
    obtain ⟨pre, post, rfl⟩ := List.append_of_mem hr
    obtain ⟨harrived, hpawn, hqueen, hrow, _⟩ := hrecorded.promoted pre r ⟨post, by simp⟩ hpromotes
    exact ⟨harrived, hpawn, hqueen, hrow⟩

/-- A pawn that promotes is a queen wherever it is recorded. -/
theorem promoted_pawn_is_a_queen : ∃ b g tr x,
    parse ["bK .", ". wP", ". ."] = .ok b ∧
    run exec_resolved (GameEngine.new shipped_factory b)
      [.request_move ⟨1, 1⟩ ⟨0, 1⟩, .wait 500] = .ok (g, tr) ∧
    b.piece_at ⟨1, 1⟩ = some x ∧ x.kind = .Pawn ∧
    (∀ q y, g.board.piece_at q = some y → y.id = x.id → y.kind = .Queen) ∧
    (tr.filter (promotes x.id)).length ≤ 1 := by
  obtain ⟨b, hparse, hb⟩ := exists_ok_such (p := fun b : Board =>
      (b.piece_at ⟨1, 1⟩).any fun x : Piece => decide (x.kind = .Pawn) &&
        ((run exec_resolved (GameEngine.new shipped_factory b)
          [.request_move ⟨1, 1⟩ ⟨0, 1⟩, .wait 500]).toOption.any fun r =>
            r.2.any (promotes x.id)))
    (x := parse ["bK .", ". wP", ". ."]) (by decide)
  obtain ⟨x, hx, hkind⟩ := (Option.any_eq_true _ _).mp hb
  obtain ⟨hpawn, hrun⟩ := Bool.and_eq_true_iff.mp hkind
  obtain ⟨⟨g, tr⟩, hrun, hpromotes⟩ := exists_ok_such hrun
  obtain ⟨hrecord, _, honce, _⟩ := a_piece_keeps_its_identity hparse (reach_of_run hrun) hx
  refine ⟨b, g, tr, x, hparse, hrun, hx, of_decide_eq_true hpawn, ?_, honce⟩
  intro q y hy hid
  rw [(hrecord y (.inl ⟨q, hy⟩) hid).2.1]
  exact if_pos hpromotes

end KungFuChess
