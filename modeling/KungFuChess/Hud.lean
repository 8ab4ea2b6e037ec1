/-
**The HUD of a client**: `kfc/realtime/move_log_observer.cpp`, and the lines of
`kfc_gui_app/main.cpp` that keep it.

When a game opens, the client makes a move log and a score, feeds them the history of its
`Welcome`, and from then on everything the `ServerLink` publishes. Whoever joins late has
seen part of the game as history and the rest as updates, and the server may be ahead of
what either says; still the HUD is the one of somebody who has watched from the first
move up to the client's revision, and its score is the material missing from the position
the engine was in then, whose board is the one on the client's screen.
-/
import KungFuChess.BoardText
import KungFuChess.DecidingWait
import KungFuChess.Score
import KungFuChess.Viewer

set_option autoImplicit false

namespace KungFuChess

open Machine

/-! ## `move_log_observer.cpp` -/

/-- `to_string`, as in "(2,3)". -/
def Position.to_string (pos : Position) : String :=
  "(" ++ toString pos.row ++ "," ++ toString pos.col ++ ")"

structure MoveLogEntry where
  time_ms : Int
  notation_text : String
deriving DecidableEq, Repr

structure MoveLogObserver where
  board_height : Int := 8
  white_moves : List String := []
  black_moves : List String := []
  white_entries : List MoveLogEntry := []
  black_entries : List MoveLogEntry := []
deriving DecidableEq, Repr

namespace MoveLogObserver

/-- The letter of a piece, and nothing for a pawn. -/
def algebraic_piece_prefix (kind : PieceKind) : String :=
  if kind = .Pawn then "" else String.singleton (letter_for_kind kind)

/-- One `char`: the byte is read as a code point. -/
def algebraic_file (col : Int) : String :=
  String.singleton (Char.ofNat (('a'.toNat + col) % 256).toNat)

def algebraic_square (pos : Position) (board_height : Int) : String :=
  algebraic_file pos.col ++ toString (board_height - pos.row)

def algebraic_notation (event : ArrivalEvent) (board_height : Int) : String :=
  let destination := algebraic_square event.destination board_height
  let pawn_text := if event.captured_piece.isSome then
    algebraic_file event.source.col ++ "x" ++ destination else destination
  if event.kind = .JumpInPlace then
    algebraic_piece_prefix event.moved_piece.kind ++ destination ++ "(J)"
  else if event.was_promotion then
    pawn_text ++ "=" ++ String.singleton (letter_for_kind event.moved_piece.kind)
  -- a pawn's capture begins with the file it came from
  else if event.moved_piece.kind = .Pawn then pawn_text
  else
    algebraic_piece_prefix event.moved_piece.kind
      ++ (if event.captured_piece.isSome then "x" else "") ++ destination

/-- The line of an arrival in `moves`. -/
def move_text (event : ArrivalEvent) : String :=
  piece_token_text event.moved_piece.color event.moved_piece.kind ++ " "
    ++ event.source.to_string ++ "->" ++ event.destination.to_string
    ++ (match event.captured_piece with
      | some captured => " x" ++ piece_token_text captured.color captured.kind
      | none => "")
    ++ (if event.kind = .JumpInPlace then " (jump)"
      else if event.was_promotion then " (promoted)" else "")

def on_arrival (log : MoveLogObserver) (event : ArrivalEvent) : MoveLogObserver :=
  let entry : MoveLogEntry := ⟨event.arrived_at_ms, algebraic_notation event log.board_height⟩
  if event.moved_piece.color = .White then
    { log with
      white_moves := log.white_moves ++ [move_text event]
      white_entries := log.white_entries ++ [entry] }
  else
    { log with
      black_moves := log.black_moves ++ [move_text event]
      black_entries := log.black_entries ++ [entry] }

def moves (log : MoveLogObserver) : PieceColor → List String
  | .White => log.white_moves
  | .Black => log.black_moves

def entries (log : MoveLogObserver) : PieceColor → List MoveLogEntry
  | .White => log.white_entries
  | .Black => log.black_entries

/-- When the arrivals of a colour that are logged happened. -/
def times (log : MoveLogObserver) (color : PieceColor) : List Int :=
  (log.entries color).map MoveLogEntry.time_ms

theorem times_on_arrival (log : MoveLogObserver) (event : ArrivalEvent) (color : PieceColor) :
    (log.on_arrival event).times color = log.times color
      ++ if event.moved_piece.color = color then [event.arrived_at_ms] else [] := by
  unfold on_arrival times
  by_cases hw : event.moved_piece.color = .White
  · cases color <;> simp [hw, entries]
  · have hb : event.moved_piece.color = .Black := eq_opposite_of_ne hw
    cases color <;> simp [hb, entries]

/-- A log of arrivals that come in order is in order. -/
theorem times_foldl (events : List ArrivalEvent) (color : PieceColor) :
    ∀ log : MoveLogObserver, (events.foldl on_arrival log).times color = log.times color
      ++ (events.filter fun e => e.moved_piece.color = color).map ArrivalEvent.arrived_at_ms := by
  induction events with
  | nil => simp
  | cons event events ih =>
      intro log
      rw [List.foldl_cons, ih, times_on_arrival]
      by_cases hc : event.moved_piece.color = color
      · simp [hc]
      · simp [hc]

end MoveLogObserver

/-! ## What `kfc_gui_app` keeps of a game -/

structure Hud where
  move_log : MoveLogObserver
  score : ScoreObserver

namespace Hud

/-- The two observers as they are made. -/
def new (board_height : Int) (values : PieceValueProvider) : Hud :=
  ⟨{ board_height := board_height }, { values := values }⟩

def on_arrival (hud : Hud) (event : ArrivalEvent) : Hud :=
  ⟨hud.move_log.on_arrival event, hud.score.on_arrival event⟩

def watch (hud : Hud) (events : List ArrivalEvent) : Hud := events.foldl on_arrival hud

/-- A game opens: the arrivals of the past are fed straight into the observers. -/
def opened (values : PieceValueProvider) (welcome : Welcome) : Hud :=
  (new welcome.board.height values).watch welcome.history

/-- What the main thread sees changes what it shows. -/
def see (values : PieceValueProvider) (hud : Option Hud) : Seen → Option Hud
  | .built welcome => some (opened values welcome)
  | .applied update => hud.map fun hud => hud.watch update.arrival_events
  | .updated _ => hud

/-- The HUD after a run, once a game is open. -/
def shown (values : PieceValueProvider) (tr : List Seen) : Option Hud :=
  tr.foldl (see values) none

theorem watch_append (hud : Hud) (events events' : List ArrivalEvent) :
    hud.watch (events ++ events') = (hud.watch events).watch events' := List.foldl_append

theorem watch_eq (events : List ArrivalEvent) : ∀ hud : Hud, hud.watch events =
    ⟨events.foldl MoveLogObserver.on_arrival hud.move_log,
      events.foldl ScoreObserver.on_arrival hud.score⟩ := by
  induction events with
  | nil => exact fun _ => rfl
  | cons event events ih => exact fun hud => ih (hud.on_arrival event)

theorem shown_append (values : PieceValueProvider) (tr os : List Seen) :
    shown values (tr ++ os) = os.foldl (see values) (shown values tr) := List.foldl_append

/-- Updates that are applied are watched. -/
theorem foldl_see_applied (values : PieceValueProvider) (updates : List BoardUpdate) :
    ∀ hud : Hud, (updates.map Seen.applied).foldl (see values) (some hud)
      = some (hud.watch (updates.flatMap BoardUpdate.arrival_events)) := by
  induction updates with
  | nil => exact fun _ => rfl
  | cons update updates ih =>
      intro hud
      rw [List.map_cons, List.foldl_cons, List.flatMap_cons, watch_append]
      exact ih _

end Hud

/-! ## The engine of the match -/

namespace Match

/-- A command is a request to the engine, or does not come to it. -/
theorem reach_apply {first : GameEngine} {m m' : Match} {source : PieceColor}
    {message : ClientMessage} {os : List MatchEvent} {tr : List ArrivalEvent}
    (hreach : Reach GameEngine.exec NoLandingOnAlly first m.engine tr)
    (h : m.apply source message = .ok (m', os)) :
    Reach GameEngine.exec NoLandingOnAlly first m'.engine tr := by
  have hrequest : ∀ (cmd : GameEngine.Command) {cell : Position}
      {call : GameEngine → Except BoardError (GameEngine × MoveResult)},
      NoLandingOnAlly m.engine tr cmd →
      (∀ g g' r, call g = .ok (g', r) → GameEngine.exec g cmd = .ok (g', [])) →
      m.request source cell call = .ok (m', os) →
      Reach GameEngine.exec NoLandingOnAlly first m'.engine tr := by
    intro cmd cell call hclear hcall hrequest
    unfold request at hrequest
    split_ifs at hrequest
    · obtain ⟨⟨engine, result⟩, hrun, hret⟩ := (bind_ok_iff _ _ _).mp hrequest
      obtain ⟨rfl, rfl⟩ := Prod.mk.inj (Except.ok.inj hret)
      have hstep := hreach.step hclear (hcall _ _ _ hrun)
      rwa [List.append_nil] at hstep
    · obtain ⟨rfl, rfl⟩ := Prod.mk.inj (Except.ok.inj hrequest)
      exact hreach
  unfold apply at h
  split at h
  -- a move and a jump; nothing else comes to the engine
  case h_5 => exact hrequest (.request_move _ _) trivial (fun g g' r hr => exec_request_move hr) h
  case h_6 => exact hrequest (.request_jump _) trivial (fun g g' r hr => exec_request_jump hr) h
  all_goals
    obtain ⟨rfl, rfl⟩ := Prod.mk.inj (Except.ok.inj h)
    exact hreach

theorem reach_apply_all {first : GameEngine} {tr : List ArrivalEvent}
    (commands : List (PieceColor × ClientMessage)) : ∀ {m m' : Match} {os : List MatchEvent},
    Reach GameEngine.exec NoLandingOnAlly first m.engine tr →
    run apply_all m commands = .ok (m', os) →
    Reach GameEngine.exec NoLandingOnAlly first m'.engine tr := by
  induction commands with
  | nil =>
      intro m m' os hreach h
      obtain ⟨rfl, rfl⟩ := Prod.mk.inj (Except.ok.inj h)
      exact hreach
  | cons command commands ih =>
      intro m m' os hreach h
      obtain ⟨m₁, os₁, os₂, hone, hrun, rfl⟩ := run_cons_ok_iff.mp h
      exact ih (reach_apply hreach hone) hrun

/-- **The critical section** of a clear tick is a run of the engine without a landing on an
ally, and its arrivals are those of the run. -/
theorem reach_advance_board {first : GameEngine} {m m' : Match} {elapsed_ms : Nat}
    {answers : List MatchEvent} {events tr : List ArrivalEvent}
    (hreach : Reach GameEngine.exec NoLandingOnAlly first m.engine tr)
    (hclear : m.clear_tick elapsed_ms = true)
    (h : m.advance_board elapsed_ms = .ok (m', answers, events)) :
    Reach GameEngine.exec NoLandingOnAlly first m'.engine (tr ++ events) := by
  obtain ⟨m₁, hrun, hcases⟩ := advance_board_cases h
  unfold clear_tick at hclear
  rw [hrun] at hclear
  have hreach₁ := reach_apply_all m.queue (m := m.drain) hreach hrun
  rcases hcases with ⟨hstate, hpass⟩ | ⟨_, rfl, rfl⟩
  · exact hreach₁.step (a := GameEngine.Command.wait elapsed_ms)
      (of_decide_eq_true hclear hstate) (let_time_pass_waits hpass).1
  · rw [List.append_nil]
    exact hreach₁

end Match

namespace Joiner

/-! ## Steps -/

/-- What a step does to the engine, and what is seen of it. -/
inductive Does (s s' : Joiner) : Label → List Seen → Prop
  | quiet (label : Label) (engine : s'.server.engine = s.server.engine) : Does s s' label []
  | advances (now : Int) (elapsed_ms : Nat) (m : Match) (answers : List MatchEvent)
      (events : List ArrivalEvent)
      (step : s.server.advance_board elapsed_ms = .ok (m, answers, events))
      (engine : s'.server.engine = m.engine) :
      Does s s' (.advance now elapsed_ms)
        (if events.isEmpty then [] else [.updated ⟨events, m.revision⟩])
  | builds (label : Label) (w : Welcome) (engine : s'.server.engine = s.server.engine)
      (closed : s.client.board = none) : Does s s' label [.built w]
  | applies (label : Label) (updates : List BoardUpdate)
      (engine : s'.server.engine = s.server.engine) (opened : s.client.board ≠ none) :
      Does s s' label (updates.map .applied)

theorem applied_of_eq (os : List UiEvent) :
    applied_of os = (applied (applied_of os)).map .applied := by
  unfold applied applied_of
  rw [List.filterMap_filterMap, List.map_filterMap]
  congr 1
  funext event
  cases event <;> rfl

variable {s s' : Joiner} {tr os : List Seen} {label : Label}

theorem exec_does (helse : OthersElsewhere s tr label) (h : exec s label = .ok (s', os)) :
    Does s s' label os := by
  have hquiet : ∀ {t : Joiner},
      (pure (t, []) : Except BoardError (Joiner × List Seen)) = .ok (s', os) →
      t.server.engine = s.server.engine → Does s s' label os := by
    rintro t ⟨⟩ ht
    exact .quiet label ht
  cases label with
  | register request =>
      unfold exec at h
      dsimp only at h
      split at h
      · exact hquiet h (register_spec s.server s.connection request).1
      · exact hquiet h rfl
  | snapshot =>
      unfold exec at h
      dsimp only at h
      split at h <;> exact hquiet h rfl
  | send_welcome =>
      unfold exec at h
      dsimp only at h
      split at h <;> exact hquiet h rfl
  | send_start =>
      unfold exec at h
      dsimp only at h
      split at h <;> exact hquiet h rfl
  | other call =>
      obtain ⟨r, hcall, hret⟩ := (bind_ok_iff _ _ _).mp h
      exact hquiet hret (exec_elsewhere helse hcall).1
  | advance now elapsed_ms =>
      unfold exec at h
      dsimp only at h
      split at h
      · obtain ⟨⟨m, answers, events⟩, hadv, hret⟩ := (bind_ok_iff _ _ _).mp h
        obtain ⟨rfl, rfl⟩ := Prod.mk.inj (Except.ok.inj hret)
        exact .advances now elapsed_ms m answers events hadv rfl
      · exact hquiet h rfl
  | announce_arrivals =>
      unfold exec at h
      dsimp only at h
      split at h
      · rename_i now events at_revision htick
        have hsame := congrArg Match.engine
          (Match.announce_arrivals_announced s.server events at_revision).rest
        exact hquiet h hsame
      · exact hquiet h rfl
  | announce_rest =>
      unfold exec at h
      dsimp only at h
      split at h
      · rename_i now htick
        have hannounced : Match.Announced s.server (s.server.announce_rest now).1 :=
          (Match.announce_resignation_announced s.server).trans
            ((Match.advance_disconnect_countdown_announced _ now).trans
              (Match.release_if_due_announced _ now))
        have hsame := congrArg Match.engine hannounced.rest
        exact hquiet h hsame
      · exact hquiet h rfl
  | receive =>
      unfold exec at h
      dsimp only at h
      split at h <;> exact hquiet h rfl
  | wait_for_welcome =>
      unfold exec at h
      dsimp only at h
      split_ifs at h with hb
      · exact hquiet h rfl
      · obtain ⟨⟨client, outcome⟩, hrun, hret⟩ := (bind_ok_iff _ _ _).mp h
        obtain ⟨rfl, rfl⟩ := Prod.mk.inj (Except.ok.inj hret)
        dsimp only
        by_cases hw : outcome = .Welcomed
        · rw [if_pos hw]
          cases s.client.pending_welcome with
          | none => exact .quiet _ rfl
          | some w => exact .builds _ w rfl (by simpa using hb)
        · rw [if_neg hw]
          exact .quiet _ rfl
  | wait =>
      unfold exec at h
      dsimp only at h
      split_ifs at h with hb
      · exact hquiet h rfl
      · obtain ⟨⟨client, ui⟩, hrun, hret⟩ := (bind_ok_iff _ _ _).mp h
        obtain ⟨rfl, rfl⟩ := Prod.mk.inj (Except.ok.inj hret)
        rw [applied_of_eq]
        exact .applies _ _ rfl (by simpa using hb)

/-! ## Runs -/

/-- The states the engine has been in, and what the client shows. -/
structure Told (values : PieceValueProvider) (first : GameEngine) (s : Joiner) (tr : List Seen) :
    Prop where
  engine : Reach GameEngine.exec NoLandingOnAlly first s.server.engine
    ((updated tr).flatMap BoardUpdate.arrival_events)
  /-- At each revision so far the engine was in some state. -/
  stages : ∀ k ≤ (updated tr).length, ∃ g, Reach GameEngine.exec NoLandingOnAlly first g
    (((updated tr).take k).flatMap BoardUpdate.arrival_events)
  hud : ∀ w, built tr = [w] → Hud.shown values tr = some ((Hud.opened values w).watch
    ((applied tr).flatMap BoardUpdate.arrival_events))

variable {values : PieceValueProvider} {first : GameEngine}

/-- Until the client has a board it shows nothing, and afterwards it has one `Welcome`. -/
theorem built_of_board (hsees : Sees s tr) :
    (s.client.board = none → built tr = [] ∧ applied tr = []) ∧
      (s.client.board ≠ none → ∃ w, built tr = [w]) := by
  obtain ⟨n, d, hpos⟩ := hsees.position
  cases hpos.greeting with
  | unsent _ _ h3 h4 h5 => exact ⟨fun _ => ⟨h4, h5⟩, fun h => absurd h3 h⟩
  | sent w _ _ _ h4 h5 h6 => exact ⟨fun _ => ⟨h5, h6⟩, fun h => absurd h4 h⟩
  | built w _ _ _ h4 h5 =>
      obtain ⟨b, hb, -⟩ := h4
      exact ⟨fun h => absurd (hb.symm.trans h) nofun, fun _ => ⟨w, h5⟩⟩

/-- A step that records nothing. -/
theorem Told.unrecorded (h : Told values first s tr)
    (hengine : s'.server.engine = s.server.engine) (hupdated : updated os = [])
    (hhud : ∀ w, built (tr ++ os) = [w] → Hud.shown values (tr ++ os) = some
      ((Hud.opened values w).watch ((applied (tr ++ os)).flatMap BoardUpdate.arrival_events))) :
    Told values first s' (tr ++ os) := by
  have hsame : updated (tr ++ os) = updated tr := by
    rw [updated_append, hupdated, List.append_nil]
  refine ⟨?_, ?_, hhud⟩
  · rw [hsame, hengine]
    exact h.engine
  · rw [hsame]
    exact h.stages

/-- **Every step keeps them.** -/
theorem Told.exec (hsees : Sees s tr) (h : Told values first s tr)
    (hclear : ClearElsewhere s tr label) (hexec : Joiner.exec s label = .ok (s', os)) :
    Told values first s' (tr ++ os) := by
  cases exec_does hclear.1 hexec with
  | quiet _ hengine =>
      refine h.unrecorded hengine rfl ?_
      rw [List.append_nil]
      exact h.hud
  | advances now elapsed_ms m answers events hstep hengine =>
      have hreach := Match.reach_advance_board h.engine hclear.2 hstep
      rw [← hengine] at hreach
      by_cases hempty : events.isEmpty = true
      · -- the engine goes on, and nothing is recorded of it
        rw [if_pos hempty, List.append_nil]
        rw [List.isEmpty_iff.mp hempty, List.append_nil] at hreach
        exact ⟨hreach, h.stages, h.hud⟩
      · rw [if_neg hempty]
        have hupdated : updated (tr ++ [.updated ⟨events, m.revision⟩])
            = updated tr ++ [⟨events, m.revision⟩] := updated_append _ _
        have happlied : applied (tr ++ [.updated ⟨events, m.revision⟩]) = applied tr := by
          rw [applied_append]
          exact List.append_nil _
        have hbuilt : built (tr ++ [.updated ⟨events, m.revision⟩]) = built tr := by
          rw [built_append]
          exact List.append_nil _
        have hall : (updated tr ++ [(⟨events, m.revision⟩ : BoardUpdate)]).flatMap
              BoardUpdate.arrival_events
            = (updated tr).flatMap BoardUpdate.arrival_events ++ events := by
          rw [List.flatMap_append, List.flatMap_singleton]
        refine ⟨?_, ?_, ?_⟩
        · rw [hupdated, hall]
          exact hreach
        · rw [hupdated]
          intro k hk
          by_cases hlast : k ≤ (updated tr).length
          · rw [List.take_append_of_le_length hlast]
            exact h.stages k hlast
          · rw [List.take_of_length_le (by simp; omega), hall]
            exact ⟨_, hreach⟩
        · rw [hbuilt, happlied, Hud.shown_append]
          exact h.hud
  | builds _ w hengine hclosed =>
      obtain ⟨hbuilt, happlied⟩ := (built_of_board hsees).1 hclosed
      refine h.unrecorded hengine rfl fun w' hw' => ?_
      rw [built_append, hbuilt] at hw'
      obtain rfl := List.singleton_inj.mp hw'
      rw [applied_append, happlied, Hud.shown_append]
      rfl
  | applies _ updates hengine hopened =>
      obtain ⟨w, hw⟩ := (built_of_board hsees).2 hopened
      have hupdated : updated (updates.map Seen.applied) = [] := by
        simp [updated, List.filterMap_map]
      have hbuilt : built (updates.map Seen.applied) = [] := by
        simp [built, List.filterMap_map]
      have happlied : applied (updates.map Seen.applied) = updates := by
        simp [applied, List.filterMap_map]
      refine h.unrecorded hengine hupdated fun w' hw' => ?_
      rw [built_append, hbuilt, List.append_nil, hw] at hw'
      obtain rfl := List.singleton_inj.mp hw'
      rw [Hud.shown_append, h.hud w hw, Hud.foldl_see_applied, applied_append, happlied,
        List.flatMap_append, Hud.watch_append]

theorem told_of_reach (values : PieceValueProvider) {board : Board} (hb : Fresh board)
    {config : MotionFactory} {on_result : Bool} {disconnect_grace_ms release_delay_ms : Int}
    {room_name : String} {connection : Connection} (hrun : Reach exec ClearElsewhere (initial
      (Match.new board config on_result disconnect_grace_ms release_delay_ms room_name)
      connection) s tr) :
    Sees s tr ∧ Told values (.new config board) s tr := by
  refine Reach.invariant (P := fun s tr => Sees s tr ∧ Told values (.new config board) s tr)
    ⟨sees_initial hb _ _ _ _ _ _, .init, fun k _ => ⟨.new config board, ?_⟩, nofun⟩ ?_ hrun
  · rw [show updated [] = [] from rfl, List.take_nil]
    exact .init
  · rintro s tr label s' os - ⟨hsees, h⟩ hclear hstep
    obtain ⟨s₁, os₁, hstep₁, hs₁⟩ := sees_exec hsees label hclear.1
    obtain ⟨rfl, rfl⟩ := Prod.mk.inj (Except.ok.inj (hstep₁.symm.trans hstep))
    exact ⟨hs₁, h.exec hsees hclear hstep⟩

end Joiner

/-! ## The HUD and the screen -/

theorem cell_worth_stateless (values : PieceValueProvider) (color : PieceColor)
    (cell : Option Piece) :
    cell_worth values color (cell.map Piece.stateless) = cell_worth values color cell := by
  cases cell <;> rfl

/-- Boards that agree have the same material. -/
theorem Agrees.material {b c : Board} (h : Agrees b c) (values : PieceValueProvider)
    (color : PieceColor) : b.material values color = c.material values color := by
  have hlength : b.cells.length = c.cells.length := by
    rw [b.size_eq, c.size_eq, h.width, h.height]
  rw [Board.material_eq, Board.material_eq]
  refine congrArg List.sum (List.ext_getElem (by simpa using hlength) fun i hi hi' => ?_)
  rw [List.length_map] at hi hi'
  have hposition : b.position_of i = c.position_of i := by
    simp only [Board.position_of, h.width]
  rw [List.getElem_map, List.getElem_map, ← Board.piece_at_position_of hi,
    ← Board.piece_at_position_of hi', ← cell_worth_stateless, ← cell_worth_stateless values color
      (c.piece_at _), hposition, h.read]

theorem height_foldlM_add_piece (pieces : List Piece) : ∀ {b b' : Board},
    pieces.foldlM Board.add_piece b = .ok b' → b'.height = b.height := by
  induction pieces with
  | nil =>
      intro b b' h
      rw [← Except.ok.inj h]
  | cons x pieces ih =>
      intro b b' h
      obtain ⟨b₁, hone, hrest⟩ := (bind_ok_iff _ _ _).mp h
      rw [ih hrest, (Board.add_piece_ok_iff.mp hone).2.2]
      rfl

/-- The board a client builds is as high as the snapshot says. -/
theorem height_build_board {snapshot : BoardSnapshot} {b : Board}
    (h : build_board snapshot = .ok b) : snapshot.height = b.height := by
  obtain ⟨b₀, hnew, hrest⟩ := (bind_ok_iff _ _ _).mp h
  have hheight := height_foldlM_add_piece _ hrest
  unfold Board.new at hnew
  split_ifs at hnew with hnegative
  obtain rfl := Except.ok.inj hnew
  have hfirst : (Board.empty snapshot.width.toNat snapshot.height.toNat).height
      = snapshot.height.toNat := rfl
  omega

/-- A run of the engine is replayed on its first board, and no board changes its size. -/
theorem replayed_of_reach {f : MotionFactory} {board : Board} {g : GameEngine}
    {arrivals : List ArrivalEvent} (hb : Fresh board)
    (hrun : Reach GameEngine.exec NoLandingOnAlly (.new f board) g arrivals) :
    Replayed board arrivals g.board ∧ SameSize board g.board := by
  refine Reach.invariant (P := fun (g : GameEngine) arrivals =>
    Replayed board arrivals g.board ∧ SameSize board g.board)
    ⟨⟨board, rfl, agrees_self board⟩, .rfl' board⟩ ?_ hrun
  rintro g arrivals cmd g' es hreach ⟨hreplayed, hsize⟩ hclear hexec
  have hs := sound_of_reach hb hreach
  refine ⟨hreplayed.more fun c hagree => exec_agrees hs hclear hexec hagree, ?_⟩
  exact hsize.trans (run_placed hs (run_singleton hexec)).1

open Joiner in
/-- **The HUD tells the score of the position on the screen.** Take any interleaving of the
steps of a join, of ticks that bring no jumper down on an ally, of calls on other
connections and of the client, from the opening of a match on. A client that has a board
shows the HUD of one who has watched everything that was recorded up to its revision, with
the arrivals of each side in order of time. Some state the engine can be in after just
these arrivals has the board on the screen, and what the HUD says a side has scored is what
the other is short of there: what it began with and gained by promotion, less what it has
on that board and in the air. -/
theorem hud_tells_the_score (values : PieceValueProvider) {board_lines : List String}
    {board : Board} {config : MotionFactory} {on_result : Bool}
    {disconnect_grace_ms release_delay_ms : Int} {room_name : String} {connection : Connection}
    {s : Joiner} {tr : List Seen} (hparse : parse board_lines = .ok board)
    (hrun : Reach Joiner.exec ClearElsewhere (initial (Match.new board config on_result
      disconnect_grace_ms release_delay_ms room_name) connection) s tr)
    {b : Board} (hb : s.client.board = some b) :
    ∃ hud g arrivals, Hud.shown values tr = some hud ∧
      arrivals = ((updated tr).take s.client.revision).flatMap BoardUpdate.arrival_events ∧
      hud = (Hud.new board.height values).watch arrivals ∧
      (∀ color, (hud.move_log.times color).Pairwise (· ≤ ·)) ∧
      Reach GameEngine.exec NoLandingOnAlly (.new config board) g arrivals ∧ Agrees b g.board ∧
      ∀ color, hud.score.score color + b.material values (opposite_of color)
          + aloft g.board g.arbiter.active_motions values (opposite_of color)
        = board.material values (opposite_of color)
          + (arrivals.map (promoted values (opposite_of color))).sum := by
  have hfresh := fresh_of_parse hparse
  obtain ⟨hsees, htold⟩ := told_of_reach values hfresh hrun
  obtain ⟨-, hmirrors⟩ := mirrors_of_reach hfresh hrun
  obtain ⟨w, hw, hreplayed⟩ := hmirrors.client b hb
  obtain ⟨n, d, hpos⟩ := hsees.position
  cases hpos.greeting with
  | unsent _ _ h3 => exact absurd (h3.symm.trans hb) nofun
  | sent _ _ _ _ h4 => exact absurd (h4.symm.trans hb) nofun
  | built w' _ h2 _ _ hbuilt hfollowed =>
      obtain rfl := Option.some.inj (hw.symm.trans h2)
      have htaken := hsees.taken w hw
      have harrivals := history_at_revision htaken hfollowed
      have hle : s.client.revision ≤ (updated tr).length := by
        rw [hfollowed.revision]
        exact max_le htaken.revision_le (hpos.queued.le.trans hpos.queued.le_length)
      obtain ⟨g, hreach⟩ := htold.stages _ hle
      obtain ⟨hstage, hsize⟩ := replayed_of_reach hfresh hreach
      rw [harrivals] at hreplayed
      have hagree := hreplayed.agrees hstage
      -- the board of the snapshot is as high as the first one
      have hheight : w.board.height = board.height := by
        obtain ⟨c, hc, hserver⟩ := htaken.board
        rw [height_build_board hc, hserver.height,
          (replayed_of_reach hfresh htold.engine).2.height]
      have hhud : Hud.shown values tr = some ((Hud.new board.height values).watch
          (((updated tr).take s.client.revision).flatMap BoardUpdate.arrival_events)) := by
        rw [htold.hud w hbuilt, Hud.opened, ← Hud.watch_append, harrivals, hheight]
      refine ⟨_, g, _, hhud, rfl, rfl, fun color => ?_, hreach, hagree, fun color => ?_⟩
      · rw [Hud.watch_eq, MoveLogObserver.times_foldl]
        have horder := (in_order_of_reach hfresh hreach.any).1
        have hlogged := horder.sublist
          ((List.filter_sublist (p := fun e => e.moved_piece.color = color)).map _)
        have hempty : (Hud.new board.height values).move_log.times color = [] := by
          cases color <;> rfl
        rw [hempty]
        exact hlogged
      · have hscore := score_of_reach values hfresh hreach color
        rw [Hud.watch_eq, hagree.material]
        unfold GameEngine.holdings at hscore
        rw [← hscore, Int.add_assoc]
        rfl

open Joiner in
/-- A viewer that comes in after the capture is told of it by the history. -/
theorem viewer_hears_of_the_rook : ∃ s tr b hud,
    run Joiner.exec (initial (Match.new three_on_a_row shipped_factory true 20000 3000 "") ⟨3⟩)
      [.other (.join "white" 1200 ⟨1⟩), .other (.join "black" 1200 ⟨2⟩),
        .other (.enqueue .White (.MoveRequest ⟨0, 1⟩ ⟨0, 2⟩)),
        .advance 2000 2000, .announce_arrivals, .register .join_spectator, .announce_rest,
        .snapshot, .send_welcome, .send_start, .receive, .receive, .wait_for_welcome, .wait]
      = .ok (s, tr) ∧
    s.client.board = some b ∧ Hud.shown kDefaultPieceValueProvider tr = some hud ∧
    hud.move_log.entries .White = [⟨399, "Kxc1"⟩] ∧ hud.score.score .White = 5 ∧
    hud = (Hud.new 1 kDefaultPieceValueProvider).watch
      (((updated tr).take s.client.revision).flatMap BoardUpdate.arrival_events) := by
  obtain ⟨⟨s, tr⟩, hrun, hp⟩ := exists_ok_such (p := fun r => r.1.client.board.isSome ∧
      (Hud.shown kDefaultPieceValueProvider r.2).map (fun hud =>
        (hud.move_log.entries .White, hud.score.score .White))
          = some ([⟨399, "Kxc1"⟩], 5)) (x :=
    run Joiner.exec (initial (Match.new three_on_a_row shipped_factory true 20000 3000 "") ⟨3⟩)
      [.other (.join "white" 1200 ⟨1⟩), .other (.join "black" 1200 ⟨2⟩),
        .other (.enqueue .White (.MoveRequest ⟨0, 1⟩ ⟨0, 2⟩)),
        .advance 2000 2000, .announce_arrivals, .register .join_spectator, .announce_rest,
        .snapshot, .send_welcome, .send_start, .receive, .receive, .wait_for_welcome, .wait])
    (by decide)
  obtain ⟨hsome, hpair⟩ := of_decide_eq_true hp
  obtain ⟨b, hb⟩ := Option.isSome_iff_exists.mp hsome
  obtain ⟨hud, g, arrivals, hshown, harrivals, hwatched, -⟩ := hud_tells_the_score
    kDefaultPieceValueProvider parse_three_on_a_row (reach_of_meets (by decide) hrun) hb
  rw [hshown, Option.map_some, Option.some.injEq, Prod.mk.injEq] at hpair
  exact ⟨s, tr, b, hud, hrun, hb, hshown, hpair.1, hpair.2, harrivals ▸ hwatched⟩

end KungFuChess
