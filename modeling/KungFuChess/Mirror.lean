/-
**The client's board simulates the server's.**

The server decides each arrival by what the mover finds; the client blindly clears
two cells and puts a piece down. `replay_arrival_spec` says what that does to a
board, in the terms in which `Landed` says what the server did, and the two agree:
for a landing they are the same three cell writes, and for a blocked move the
piece is lifted and put back where it stood. Boards are compared up to
`PieceState` (`Agrees`), which the client does not track.

A jumper that lands on an ally is again the exception: the server leaves the ally
in the cell, the event says that the jumper is there (`split_mirror`).
-/
import KungFuChess.Conservation
import KungFuChess.ServerLink

set_option autoImplicit false

namespace KungFuChess

open Machine RealTimeArbiter GameEngine ServerLink

/-- Two boards with the same pieces in the same cells, up to `PieceState`. -/
structure Agrees (client server : Board) : Prop where
  width : client.width = server.width
  height : client.height = server.height
  read : ∀ pos,
    (client.piece_at pos).map Piece.stateless = (server.piece_at pos).map Piece.stateless

theorem agrees_self (board : Board) : Agrees board board := ⟨rfl, rfl, fun _ => rfl⟩

theorem Agrees.in_bounds_iff {client server : Board} (h : Agrees client server) (pos : Position) :
    client.in_bounds pos ↔ server.in_bounds pos := by
  unfold Board.in_bounds
  rw [h.width, h.height]

/-- The events of a client's replay, one after another. -/
def replay (board : Board) (events : List ArrivalEvent) : Except BoardError Board :=
  events.foldlM replay_arrival board

theorem replay_append {board board' : Board} {events later : List ArrivalEvent}
    (h : replay board events = .ok board') :
    replay board (events ++ later) = replay board' later := by
  unfold replay at h ⊢
  rw [List.foldlM_append, h]
  rfl

/-- An arrival a client can replay: its cells are on the board, and the moved
piece carries its destination. -/
structure Placed (board : Board) (e : ArrivalEvent) : Prop where
  source_in : board.in_bounds e.source
  destination_in : board.in_bounds e.destination
  cell : e.moved_piece.cell = e.destination

/-- **What a replay does.** -/
theorem replay_arrival_spec {board : Board} {e : ArrivalEvent} (h : Placed board e) :
    ∃ board', replay_arrival board e = .ok board' ∧ board'.width = board.width ∧
      board'.height = board.height ∧ ∀ q, board'.piece_at q =
        if q = e.destination then some e.moved_piece
        else if q = e.source then none else board.piece_at q := by
  have hd : board.remove_piece e.destination = .ok (board.set_cell e.destination none) :=
    Board.remove_piece_ok_iff.mpr ⟨h.destination_in, rfl⟩
  have hs : (board.set_cell e.destination none).remove_piece e.source
      = .ok ((board.set_cell e.destination none).set_cell e.source none) :=
    Board.remove_piece_ok_iff.mpr ⟨h.source_in, rfl⟩
  have hsource_in : (board.set_cell e.destination none).in_bounds e.source := h.source_in
  -- both cells are cleared before `add_piece`, so it finds its own empty
  have hempty : ((board.set_cell e.destination none).set_cell e.source none).piece_at
      e.moved_piece.cell = none := by
    rw [h.cell, Board.piece_at_set_cell hsource_in, Board.piece_at_set_cell h.destination_in,
      if_pos rfl, ite_self]
  have hcell_in : ((board.set_cell e.destination none).set_cell e.source none).in_bounds
      e.moved_piece.cell := by
    rw [h.cell]
    exact h.destination_in
  have hadd := Board.add_piece_ok_iff.mpr ⟨hcell_in, hempty, rfl⟩
  refine ⟨((board.set_cell e.destination none).set_cell e.source none).set_cell e.moved_piece.cell
    (some e.moved_piece), ?_, rfl, rfl, fun q => ?_⟩
  · unfold replay_arrival
    rw [hd]
    exact (bind_ok_iff _ _ _).mpr ⟨_, rfl, (bind_ok_iff _ _ _).mpr ⟨_, hs, hadd⟩⟩
  · rw [Board.piece_at_set_cell hcell_in, h.cell, Board.piece_at_set_cell hsource_in,
      Board.piece_at_set_cell h.destination_in]
    by_cases hq : q = e.destination
    · rw [if_pos hq, if_pos hq]
    · rw [if_neg hq, if_neg hq, if_neg hq]

/-- Placement is about the size of the board only. -/
theorem Placed.congr {board board' : Board} {e : ArrivalEvent} (h : Placed board e)
    (hw : board'.width = board.width) (hh : board'.height = board.height) : Placed board' e := by
  have hiff : ∀ pos, board'.in_bounds pos ↔ board.in_bounds pos := by
    intro pos
    unfold Board.in_bounds
    rw [hw, hh]
  exact ⟨(hiff _).mpr h.source_in, (hiff _).mpr h.destination_in, h.cell⟩

/-! ## One turn of the loop -/

section Turn

variable {tick_start_ms ms : Int} {b b' : Batch} {p : PendingArrival} {e : ArrivalEvent}
  {rest : List Motion}

/-- Every event of the server is one a client can replay. -/
theorem Settled.placed (h : Settled tick_start_ms ms b p e b')
    (hs : Sound b.board (p.motion :: rest)) : Placed b.board e := by
  have hsource := hs.source_in p.motion List.mem_cons_self
  have hdest := hs.destination_in p.motion List.mem_cons_self
  rcases h.outcome with ⟨hl, _⟩ | ⟨hb, _⟩
  · refine ⟨by rw [hl.source]; exact hsource, by rw [hl.destination]; exact hdest, ?_⟩
    rw [hl.moved_cell, hl.destination]
  · refine ⟨by rw [hb.source]; exact hsource, by rw [hb.destination]; exact hsource, ?_⟩
    rw [hb.moved, hb.destination]
    exact hs.snapshot p.motion List.mem_cons_self

/-- A turn changes no size. -/
theorem Settled.same_size (h : Settled tick_start_ms ms b p e b') :
    b'.board.width = b.board.width ∧ b'.board.height = b.board.height := by
  rcases h.outcome with ⟨hl, _⟩ | ⟨hb, _⟩
  · exact ⟨hl.width, hl.height⟩
  · exact ⟨hb.width, hb.height⟩

/-- **Replaying a turn** keeps the agreement, unless it is a landing on an ally. -/
theorem Settled.agrees (h : Settled tick_start_ms ms b p e b')
    (hs : Sound b.board (p.motion :: rest)) (hclear : lands_on_ally b.board p.motion = false)
    {client : Board} (hagree : Agrees client b.board) :
    ∃ client', replay_arrival client e = .ok client' ∧ Agrees client' b'.board := by
  obtain ⟨client', hrun, hw, hh, hread⟩ :=
    replay_arrival_spec ((h.placed hs).congr hagree.width hagree.height)
  refine ⟨client', hrun, hw.trans (hagree.width.trans h.same_size.1.symm),
    hh.trans (hagree.height.trans h.same_size.2.symm), fun q => ?_⟩
  rw [hread]
  rcases h.outcome with ⟨hl, _⟩ | ⟨hb, _⟩
  · -- replay and landing write the same two cells
    rw [hl.read, hl.destination, hl.source]
    split_ifs
    · rfl
    · rfl
    · exact hagree.read q
  · -- the mover is put back where it stands
    obtain ⟨x, hx, hxm, _⟩ := hs.mover p.motion List.mem_cons_self (hb.move_of_clear hclear)
    obtain ⟨y, hy, hyread⟩ := hb.stays
    have hyx : y = x := Option.some.inj (hy.symm.trans hx)
    rw [hyread, hb.destination, hb.source, hb.moved]
    split_ifs
    · rw [hyx]
      exact congrArg some hxm.symm
    · exact hagree.read q

end Turn

/-! ## Nothing a client is sent makes it throw -/

/-- Two boards of one size. -/
structure SameSize (board board' : Board) : Prop where
  width : board'.width = board.width
  height : board'.height = board.height

theorem SameSize.rfl' (board : Board) : SameSize board board := ⟨rfl, rfl⟩

theorem SameSize.trans {b₁ b₂ b₃ : Board} (h : SameSize b₁ b₂) (h' : SameSize b₂ b₃) :
    SameSize b₁ b₃ := ⟨h'.width.trans h.width, h'.height.trans h.height⟩

theorem SameSize.symm {b₁ b₂ : Board} (h : SameSize b₁ b₂) : SameSize b₂ b₁ :=
  ⟨h.width.symm, h.height.symm⟩

theorem SameSize.placed {b₁ b₂ : Board} (h : SameSize b₁ b₂) {e : ArrivalEvent}
    (he : Placed b₁ e) : Placed b₂ e := he.congr h.width h.height

/-- Replaying placed arrivals succeeds. -/
theorem replay_placed (events : List ArrivalEvent) :
    ∀ {board : Board}, (∀ e ∈ events, Placed board e) →
      ∃ board', replay board events = .ok board' ∧ SameSize board board' := by
  induction events with
  | nil => exact fun {board} _ => ⟨board, rfl, .rfl' board⟩
  | cons e events ih =>
      intro board h
      obtain ⟨board₁, hone, hw, hh, _⟩ := replay_arrival_spec (h e List.mem_cons_self)
      have hsize : SameSize board board₁ := ⟨hw, hh⟩
      -- a replay keeps the size, and placement is about nothing else
      have hlater : ∀ e' ∈ events, Placed board₁ e' :=
        fun e' he' => hsize.placed (h e' (List.mem_cons_of_mem e he'))
      obtain ⟨board', hrun, hsize'⟩ := ih hlater
      refine ⟨board', ?_, hsize.trans hsize'⟩
      unfold replay
      rw [List.foldlM_cons, hone]
      exact hrun

/-- What a tick reports can be replayed. -/
theorem advance_placed {a a' : RealTimeArbiter} {ms : Int} {es : List ArrivalEvent}
    (hs : Sound a.board a.active_motions) (hrun : a.advance_time ms = .ok (a', es)) :
    SameSize a.board a'.board ∧ ∀ e ∈ es, Placed a.board e := by
  obtain ⟨b, hb, _, hsize, hplaced⟩ := advance_time_rule ms hs
    (fun _ b => SameSize a.board b.board ∧ ∀ e ∈ b.events, Placed a.board e)
    ⟨.rfl' _, fun e he => absurd he List.not_mem_nil⟩
    (fun _ _ _ _ h => h)
    (fun p ps b e b' _ hsound h _ hset => by
      refine ⟨h.1.trans ⟨hset.same_size.1, hset.same_size.2⟩, fun e' he' => ?_⟩
      rw [hset.events] at he'
      rcases List.mem_append.mp he' with he' | he'
      · exact h.2 e' he'
      · rw [List.mem_singleton.mp he']
        exact h.1.symm.placed (hset.placed hsound))
  rw [advance_time_of_loop hb] at hrun
  obtain ⟨rfl, rfl⟩ := Prod.mk.inj (Except.ok.inj hrun)
  exact ⟨hsize, hplaced⟩

theorem run_placed {cmds : List Command} :
    ∀ {g g' : GameEngine} {es : List ArrivalEvent}, g.Sound →
      Machine.run exec g cmds = .ok (g', es) →
      SameSize g.board g'.board ∧ ∀ e ∈ es, Placed g.board e := by
  induction cmds with
  | nil =>
      intro g g' es _ h
      obtain ⟨rfl, rfl⟩ := Prod.mk.inj (Except.ok.inj h)
      exact ⟨.rfl' _, fun e he => absurd he List.not_mem_nil⟩
  | cons cmd cmds ih =>
      intro g g' es hs h
      obtain ⟨g₁, es₁, es₂, hone, hrun, rfl⟩ := run_cons_ok_iff.mp h
      have h₁ : SameSize g.board g₁.board ∧ ∀ e ∈ es₁, Placed g.board e := by
        cases exec_effect hone with
        | refused => exact ⟨.rfl' _, fun e he => absurd he List.not_mem_nil⟩
        | started => exact ⟨⟨rfl, rfl⟩, fun e he => absurd he List.not_mem_nil⟩
        | waited ms a es _ hadv => exact advance_placed hs hadv
      obtain ⟨hsize, hplaced⟩ := ih (hs.step hone) hrun
      refine ⟨h₁.1.trans hsize, fun e he => ?_⟩
      rcases List.mem_append.mp he with he | he
      · exact h₁.2 e he
      · exact h₁.1.symm.placed (hplaced e he)

/-! ## Ticks and runs -/

/-- A clear tick, replayed. -/
theorem advance_agrees {a a' : RealTimeArbiter} {ms : Int} {es : List ArrivalEvent} {client : Board}
    (hs : Sound a.board a.active_motions) (hclear : tick_clear a ms = true)
    (hrun : a.advance_time ms = .ok (a', es)) (hagree : Agrees client a.board) :
    ∃ client', replay client es = .ok client' ∧ Agrees client' a'.board := by
  obtain ⟨b, rfl, rfl, hagree'⟩ := advance_time_avoiding hs hclear hrun
    (fun _ b => ∃ client', replay client b.events = .ok client' ∧ Agrees client' b.board)
    (fun _ _ => ⟨client, rfl, hagree⟩)
    (fun p ps b e b' hp hsound hnow h hone hset => by
      obtain ⟨client₁, hreplay, h₁⟩ := h
      obtain ⟨client', hstep, h'⟩ := hset.agrees hsound hnow h₁
      refine ⟨client', ?_, h'⟩
      rw [hset.events, replay_append hreplay]
      unfold replay
      rw [List.foldlM_cons, hstep]
      rfl)
  exact hagree'

/-- Starting a motion changes a state and nothing a client compares. -/
theorem Agrees.starts {client board : Board} {motion : Motion} {x : Piece}
    (h : Agrees client board) (hs : Starts board motion x) :
    Agrees client (board_after_start board motion x) := by
  refine ⟨h.width, h.height, fun q => ?_⟩
  rw [h.read, hs.read]
  split_ifs with hq
  · rw [hq, hs.at_source]
    rfl
  · rfl

/-- A command without a landing on an ally, replayed. -/
theorem exec_agrees {g g' : GameEngine} {tr es : List ArrivalEvent} {cmd : Command} {client : Board}
    (hs : g.Sound) (hclear : NoLandingOnAlly g tr cmd) (hrun : exec g cmd = .ok (g', es))
    (hagree : Agrees client g.board) :
    ∃ client', replay client es = .ok client' ∧ Agrees client' g'.board := by
  cases exec_effect hrun with
  | refused => exact ⟨client, rfl, hagree⟩
  | started _ m x _ hstarts _ _ => exact ⟨client, rfl, hagree.starts hstarts⟩
  | waited ms a es hover hadv =>
      exact advance_agrees hs (hclear.resolve_left (by simp [hover])) hadv hagree

/-- **The mirror step.** Take any state the server reaches and any client board
that agrees with it. Over every tick in which no jumper comes down on an ally, and
over every run whose ticks are such, replaying the events never throws and ends in
agreement with the server. -/
theorem client_mirrors_server {board_lines : List String} {b : Board} {f : MotionFactory}
    {g : GameEngine} {tr : List ArrivalEvent} (hparse : parse board_lines = .ok b)
    (hrun : Reach exec anyStep (GameEngine.new f b) g tr) {client : Board}
    (hagree : Agrees client g.board) :
    (∀ ms, tick_clear g.arbiter ms = true → ∃ a' es client',
      g.arbiter.advance_time ms = .ok (a', es) ∧ replay client es = .ok client' ∧
        Agrees client' a'.board) ∧
    ∀ g' es, Reach exec NoLandingOnAlly g g' es →
      ∃ client', replay client es = .ok client' ∧ Agrees client' g'.board := by
  have hs : g.Sound := sound_of_reach (fresh_of_parse hparse) hrun
  constructor
  · intro ms hclear
    obtain ⟨a', es, hadv, _⟩ := sound_advance ms hs
    obtain ⟨client', hreplay, h'⟩ := advance_agrees hs hclear hadv hagree
    exact ⟨a', es, client', hadv, hreplay, h'⟩
  · intro g' es hreach
    have hkept : g'.Sound ∧
        ∃ client', replay client es = .ok client' ∧ Agrees client' g'.board := by
      refine Reach.invariant (P := fun g' es => g'.Sound ∧
        ∃ client', replay client es = .ok client' ∧ Agrees client' g'.board)
        ⟨hs, client, rfl, hagree⟩ ?_ hreach
      intro g₁ tr₁ cmd g₂ es₂ _ h₁ hclear hrun
      obtain ⟨hs₁, client₁, hreplay, hagree₁⟩ := h₁
      obtain ⟨client₂, hstep, hagree₂⟩ := exec_agrees hs₁ hclear hrun hagree₁
      exact ⟨hs₁.step hrun, client₂, by rw [replay_append hreplay]; exact hstep, hagree₂⟩
    exact hkept.2

/-- A client that starts from the server's own board, over the tick of a capture. -/
theorem client_mirrors_a_capture : ∃ g tr,
    run exec (GameEngine.new shipped_factory three_on_a_row) [.request_move ⟨0, 2⟩ ⟨0, 1⟩]
      = .ok (g, tr) ∧
    ∃ a' es client', g.arbiter.advance_time 400 = .ok (a', es) ∧
      replay g.board es = .ok client' ∧ Agrees client' a'.board := by
  obtain ⟨⟨g, tr⟩, hrun, hclear⟩ := exists_ok_such (p := fun r => tick_clear r.1.arbiter 400)
    (x := run exec (GameEngine.new shipped_factory three_on_a_row)
      [.request_move ⟨0, 2⟩ ⟨0, 1⟩]) (by decide)
  exact ⟨g, tr, hrun, (client_mirrors_server parse_three_on_a_row (reach_of_run hrun)
    (agrees_self g.board)).1 400 hclear⟩

/-- **The split mirror.** Without the condition the boards part: when the king
comes down on the rook, the client shows the king and the server has the rook. -/
theorem split_mirror : ¬ ∀ (board_lines : List String) (b : Board) (f : MotionFactory)
    (g : GameEngine) (tr : List ArrivalEvent) (client : Board) (ms : Nat) (a' : RealTimeArbiter)
    (es : List ArrivalEvent), parse board_lines = .ok b →
    Reach exec anyStep (GameEngine.new f b) g tr → Agrees client g.board →
    g.arbiter.advance_time ms = .ok (a', es) →
    ∃ client', replay client es = .ok client' ∧ Agrees client' a'.board := by
  intro h
  let parted : RealTimeArbiter × List ArrivalEvent → Board → Bool := fun r client =>
    match replay client r.2 with
    | .ok client' => decide ((client'.piece_at ⟨0, 1⟩).map Piece.stateless
        ≠ (r.1.board.piece_at ⟨0, 1⟩).map Piece.stateless)
    | .error _ => true
  obtain ⟨⟨g, tr⟩, hrun, hparts⟩ := exists_ok_such
    (p := fun r => (r.1.arbiter.advance_time 200).toOption.any (fun r' => parted r' r.1.board))
    (x := run exec (GameEngine.new shipped_factory three_on_a_row)
      [.request_move ⟨0, 2⟩ ⟨0, 1⟩, .wait 300, .request_jump ⟨0, 1⟩, .wait 100,
        .request_move ⟨0, 0⟩ ⟨0, 1⟩, .wait 400]) (by decide)
  obtain ⟨⟨a', es⟩, hadv, hpart⟩ := exists_ok_such hparts
  obtain ⟨client', hreplay, hagree⟩ := h _ _ _ g tr g.board 200 a' es parse_three_on_a_row
    (reach_of_run hrun) (agrees_self g.board) hadv
  have hne : parted (a', es) g.board = true := hpart
  simp only [parted, hreplay] at hne
  exact of_decide_eq_true hne (hagree.read ⟨0, 1⟩)

end KungFuChess
