/-
How long a `Welcome` is.

A `Welcome` carries every arrival the match has seen, and nothing on the writing
side asks how many there are; a reader refuses what is longer than
`kMaxMessageBytes`. How long the text is can be read off the match
(`Match.welcome_bytes`): the pieces on its board, the arrivals its run has reported,
the names and numbers of its players. So a `Welcome` is read back exactly while that
is not too much (`welcome_is_readable`), and a game that goes on for long enough is
one that nobody can join any more (`unreadable_welcome`).
-/
import KungFuChess.Conservation
import KungFuChess.MatchSteps
import KungFuChess.RoundTrip
import KungFuChess.Stillness

set_option autoImplicit false

namespace KungFuChess

open Json Machine

/-! ## How long things are, written out -/

/-- A number: its sign and its digits. -/
def number_bytes (n : Int) : Nat := byte_count (decimal n)

/-- A text: its characters, those that are escaped, and the quotes. -/
def text_bytes (s : String) : Nat := byte_count (quoted s)

def flag_bytes (b : Bool) : Nat := if b then 4 else 5

/-- A list of things of these lengths. -/
def array_bytes (items : List Nat) : Nat := 2 + items.sum + commas items.length

/-- A field: its name, the colon and what it holds. -/
def field_bytes (key : String) (value : Nat) : Nat := text_bytes key + 1 + value

/-- An object of fields that hold things of these lengths. -/
def object_bytes (fields : List (String × Nat)) : Nat :=
  2 + (fields.map fun field => field_bytes field.1 field.2).sum + commas fields.length

/-- The bytes of each type, with those of its field names. -/
def Position.bytes (pos : Position) : Nat :=
  object_bytes [("row", number_bytes pos.row), ("col", number_bytes pos.col)]

def Piece.bytes (piece : Piece) : Nat := object_bytes [
  ("id", number_bytes piece.id.value),
  ("color", text_bytes (kPieceColorNames.name_of piece.color)),
  ("kind", text_bytes (kPieceKindNames.name_of piece.kind)),
  ("cell", piece.cell.bytes),
  ("state", text_bytes (kPieceStateNames.name_of piece.state)),
  ("has_moved", flag_bytes piece.has_moved)]

def ArrivalEvent.bytes (event : ArrivalEvent) : Nat :=
  object_bytes [
    ("moved_piece", event.moved_piece.bytes),
    ("source", event.source.bytes),
    ("destination", event.destination.bytes),
    ("kind", text_bytes (kMotionKindNames.name_of event.kind)),
    ("was_promotion", flag_bytes event.was_promotion),
    ("arrived_at_ms", number_bytes event.arrived_at_ms)]
  + match event.captured_piece with
    | some captured => field_bytes "captured_piece" captured.bytes + 1
    | none => 0

def BoardSnapshot.bytes (snapshot : BoardSnapshot) : Nat := object_bytes [
  ("width", number_bytes snapshot.width), ("height", number_bytes snapshot.height),
  ("pieces", array_bytes (snapshot.pieces.map Piece.bytes))]

/-- The `Welcome` of a match that has seen these arrivals. -/
def Match.welcome_bytes (m : Match) (arrivals : List ArrivalEvent) (color : PieceColor)
    (spectator : Bool) : Nat :=
  object_bytes [("type", text_bytes "Welcome"), ("payload", object_bytes [
    ("assigned_color", text_bytes (kPieceColorNames.name_of color)),
    ("board", (snapshot_of m.engine.board).bytes),
    ("spectator", flag_bytes spectator),
    ("room", text_bytes m.room_name),
    ("history", array_bytes (arrivals.map ArrivalEvent.bytes)),
    ("revision", number_bytes m.revision),
    ("white_username", text_bytes (m.audience.username_of .White)),
    ("black_username", text_bytes (m.audience.username_of .Black)),
    ("white_rating", number_bytes (m.audience.rating_of .White)),
    ("black_rating", number_bytes (m.audience.rating_of .Black))])]

/-! ## They are that long -/

@[simp] theorem size_number (n : Int) : (Json.number n).compact_size = number_bytes n := rfl

@[simp] theorem size_string (s : String) : (Json.string s).compact_size = text_bytes s := rfl

@[simp] theorem size_boolean (b : Bool) : (Json.boolean b).compact_size = flag_bytes b := by
  cases b <;> rfl

@[simp] theorem size_named {Enum : Type} [DecidableEq Enum] (names : EnumNames Enum)
    (value : Enum) :
    (write_named names value).compact_size = text_bytes (names.name_of value) := rfl

/-- A list: its items, its commas and two brackets. -/
theorem size_array {α : Type} {write : α → Json} {bytes : α → Nat}
    (h : ∀ x, (write x).compact_size = bytes x) (xs : List α) :
    (Json.array (xs.map write)).compact_size = array_bytes (xs.map bytes) := by
  have hsizes : (xs.map write).map compact_size = xs.map bytes := by
    rw [List.map_map]
    exact List.map_congr_left fun x _ => h x
  rw [compact_size_array, hsizes, array_bytes, List.length_map, List.length_map]

theorem size_of_pairs {ps : List (String × Json)} (h : (ps.map Prod.fst).Nodup) :
    compact_size (of_pairs ps) = object_bytes (ps.map fun p => (p.1, p.2.compact_size)) := by
  rw [compact_size_of_pairs h, object_bytes, List.map_map, List.length_map]
  rfl

namespace Position

@[simp] theorem size_to_json (pos : Position) : pos.to_json.compact_size = pos.bytes := by
  rw [to_json, size_of_pairs (by simp)]
  simp [bytes]

end Position

namespace Piece

@[simp] theorem size_to_json (piece : Piece) : piece.to_json.compact_size = piece.bytes := by
  rw [to_json, size_of_pairs (by simp)]
  simp [bytes]

end Piece

namespace ArrivalEvent

@[simp] theorem size_to_json (event : ArrivalEvent) : event.to_json.compact_size = event.bytes := by
  unfold to_json bytes
  dsimp only
  cases event.captured_piece with
  | some captured =>
      dsimp only
      rw [compact_size_set (by simp) (by simp) (by simp), size_of_pairs (by simp), member_size,
        Piece.size_to_json, Nat.add_assoc]
      simp [field_bytes, text_bytes]
  | none =>
      rw [size_of_pairs (by simp)]
      simp

end ArrivalEvent

@[simp] theorem BoardSnapshot.size_to_json (snapshot : BoardSnapshot) :
    snapshot.to_json.compact_size = snapshot.bytes := by
  rw [to_json, size_of_pairs (by simp)]
  simp [bytes, size_array Piece.size_to_json]

/-- **The length of a `Welcome`** is that of the match. -/
theorem Match.size_welcome (m : Match) (color : PieceColor) (spectator : Bool) :
    (ServerMessage.Welcome (m.welcome_for color spectator)).to_json.compact_size
      = m.welcome_bytes m.history color spectator := by
  have hpayload : ∀ w : Welcome, w.to_json.compact_size = _ := fun w => size_of_pairs (by simp)
  rw [ServerMessage.to_json, envelope, size_of_pairs (by simp), welcome_bytes]
  simp [hpayload, size_array ArrivalEvent.size_to_json, welcome_for]

/-! ## What a run has reported -/

namespace Match

/-- The arrivals of the updates that were broadcast, in their order. -/
def reported_arrivals (os : List MatchEvent) : List ArrivalEvent :=
  os.flatMap fun
    | .broadcast _ (.BoardUpdate update) => update.arrival_events
    | _ => []

@[simp] theorem reported_arrivals_append (os os' : List MatchEvent) :
    reported_arrivals (os ++ os') = reported_arrivals os ++ reported_arrivals os' :=
  List.flatMap_append

theorem no_arrivals {os : List MatchEvent}
    (h : ∀ e ∈ os, ∀ receivers update, e ≠ .broadcast receivers (.BoardUpdate update)) :
    reported_arrivals os = [] := by
  refine List.flatMap_eq_nil_iff.mpr ?_
  intro e he
  split
  · exact absurd rfl (h _ he _ _)
  · rfl

theorem no_arrivals_in_answers {os : List MatchEvent} (h : ∀ e ∈ os, IsAnswer e) :
    reported_arrivals os = [] := by
  apply no_arrivals
  rintro e he receivers update rfl
  exact h _ he

theorem no_arrivals_in_result (m : Match) (reason : GameEndReason) (winner : Option PieceColor) :
    reported_arrivals (m.report_result reason winner).2 = [] := by
  unfold report_result
  split_ifs <;> rfl

/-- What a tick announces of the board is what it reports; nothing else in a tick does. -/
theorem arrivals_announced (m : Match) (events : List ArrivalEvent) (at_revision : Nat) :
    reported_arrivals (m.announce_arrivals events at_revision).2 = events := by
  unfold announce_arrivals
  by_cases hempty : events.isEmpty = true
  · rw [if_pos hempty, List.isEmpty_iff.mp hempty]
    rfl
  · rw [if_neg hempty]
    cases verdict_of events with
    | none => simp [reported_arrivals, broadcast]
    | some winner =>
        have hreport := no_arrivals_in_result { m with game_over := true }
          (if winner.isSome then .Decisive else .Draw) winner
        simp only [reported_arrivals, broadcast, List.flatMap_cons, List.nil_append] at hreport ⊢
        rw [hreport, List.append_nil]

theorem no_arrivals_in_resignation (m : Match) :
    reported_arrivals m.announce_resignation.2 = [] := by
  unfold announce_resignation
  split
  · rfl
  · exact no_arrivals_in_result m _ _

theorem no_arrivals_in_countdown (m : Match) (now : Int) :
    reported_arrivals (m.advance_disconnect_countdown now).2 = [] := by
  unfold advance_disconnect_countdown
  split_ifs
  · rfl
  · dsimp only
    split
    · exact no_arrivals_in_result _ _ _
    · split <;> rfl

theorem no_arrivals_in_release (m : Match) (now : Int) :
    reported_arrivals (m.release_if_due now).2 = [] := by
  have hcloses : reported_arrivals (m.audience.all_closes.map MatchEvent.closed) = [] := by
    apply no_arrivals
    intro e he receivers update
    obtain ⟨c, _, rfl⟩ := List.mem_map.mp he
    simp
  unfold release_if_due
  dsimp only
  split_ifs
  · exact hcloses
  · rfl
  · exact hcloses
  · rfl

/-- What is announced after a critical section is what arrived in it. -/
theorem arrivals_in_announce (m : Match) (now : Int) (events : List ArrivalEvent)
    (at_revision : Nat) :
    reported_arrivals (m.announce now events at_revision).2 = events := by
  unfold announce
  simp [arrivals_announced, no_arrivals_in_resignation, no_arrivals_in_countdown,
    no_arrivals_in_release]

/-- **Each step records what it reports.** -/
theorem exec_reported {m m' : Match} {call : Call} {os : List MatchEvent}
    (h : exec m call = .ok (m', os)) : m'.history = m.history ++ reported_arrivals os := by
  obtain ⟨now, elapsed_ms, rfl⟩ | hother := tick_or_not call
  · obtain ⟨m₁, answers, events, hadv, rfl, rfl⟩ := tick_ok h
    have hspec := advance_board_spec hadv
    have hhistory : m₁.history = m.history ++ events := by rw [hspec.rest]
    have hstill := (announce_announced m₁ now events m₁.revision).still
    rw [hstill.history, hhistory, reported_arrivals_append, no_arrivals_in_answers hspec.answers,
      arrivals_in_announce, List.nil_append]
  · have hnothing : reported_arrivals os = [] := by
      cases call with
      | tick now elapsed_ms => exact absurd rfl (hother now elapsed_ms)
      | join username rating connection =>
          obtain ⟨_, rfl⟩ := Prod.mk.inj (Except.ok.inj h)
          unfold join
          dsimp only
          split
          · rfl
          · split_ifs <;> rfl
      | join_spectator connection =>
          obtain ⟨_, rfl⟩ := Prod.mk.inj (Except.ok.inj h)
          unfold join_spectator
          dsimp only
          split_ifs <;> rfl
      | leave_spectator watcher =>
          obtain ⟨_, rfl⟩ := Prod.mk.inj (Except.ok.inj h)
          rfl
      | enqueue source message =>
          obtain ⟨_, rfl⟩ := Prod.mk.inj (Except.ok.inj h)
          rfl
      | on_disconnect color =>
          obtain ⟨_, rfl⟩ := Prod.mk.inj (Except.ok.inj h)
          rfl
      | reconnect color connection =>
          obtain ⟨_, rfl⟩ := Prod.mk.inj (Except.ok.inj h)
          unfold reconnect
          dsimp only
          split_ifs <;> rfl
    rw [call_frame hother h, hnothing, List.append_nil]

/-- **The history is what was reported**, over any run. -/
theorem history_reported {board : Board} {config : MotionFactory} {on_result : Bool}
    {disconnect_grace_ms release_delay_ms : Int} {room_name : String} {m : Match}
    {tr : List MatchEvent} (hr : Reach exec anyStep
      (.new board config on_result disconnect_grace_ms release_delay_ms room_name) m tr) :
    m.history = reported_arrivals tr := by
  refine Reach.invariant (P := fun m tr => m.history = reported_arrivals tr) rfl ?_ hr
  intro s tr call s' os _ ih _ hstep
  rw [exec_reported hstep, ih, reported_arrivals_append]

end Match

/-! ## Long games -/

theorem two_le_text_bytes (s : String) : 2 ≤ text_bytes s := by
  have hquote : Char.utf8Size '"' = 1 := rfl
  unfold text_bytes quoted
  simp only [byte_count_append, byte_count_cons, byte_count_nil, hquote]
  omega

theorem four_le_flag_bytes (b : Bool) : 4 ≤ flag_bytes b := by
  unfold flag_bytes
  split_ifs <;> omega

theorem Position.le_bytes (pos : Position) : 15 ≤ pos.bytes := by
  have hrow : text_bytes "row" = 5 := by decide
  have hcol : text_bytes "col" = 5 := by decide
  simp only [bytes, object_bytes, field_bytes, commas, List.map_cons, List.map_nil, List.sum_cons,
    List.sum_nil, List.length_cons, List.length_nil, hrow, hcol]
  omega

/-- A piece takes at least this, a history therefore as many times. -/
theorem Piece.le_bytes (piece : Piece) : 79 ≤ piece.bytes := by
  have hid : text_bytes "id" = 4 := by decide
  have hcolor : text_bytes "color" = 7 := by decide
  have hkind : text_bytes "kind" = 6 := by decide
  have hcell : text_bytes "cell" = 6 := by decide
  have hstate : text_bytes "state" = 7 := by decide
  have hmoved : text_bytes "has_moved" = 11 := by decide
  have h1 := piece.cell.le_bytes
  have h2 := two_le_text_bytes (kPieceColorNames.name_of piece.color)
  have h3 := two_le_text_bytes (kPieceKindNames.name_of piece.kind)
  have h4 := two_le_text_bytes (kPieceStateNames.name_of piece.state)
  have h5 := four_le_flag_bytes piece.has_moved
  simp only [bytes, object_bytes, field_bytes, commas, List.map_cons, List.map_nil, List.sum_cons,
    List.sum_nil, List.length_cons, List.length_nil, hid, hcolor, hkind, hcell, hstate, hmoved]
  omega

/-- No arrival is written in less. -/
theorem ArrivalEvent.le_bytes (event : ArrivalEvent) : 198 ≤ event.bytes := by
  have hpiece : text_bytes "moved_piece" = 13 := by decide
  have hsource : text_bytes "source" = 8 := by decide
  have hdestination : text_bytes "destination" = 13 := by decide
  have hkind : text_bytes "kind" = 6 := by decide
  have hpromotion : text_bytes "was_promotion" = 15 := by decide
  have hat : text_bytes "arrived_at_ms" = 15 := by decide
  have h1 := event.moved_piece.le_bytes
  have h2 := event.source.le_bytes
  have h3 := event.destination.le_bytes
  have h4 := two_le_text_bytes (kMotionKindNames.name_of event.kind)
  have h5 := four_le_flag_bytes event.was_promotion
  simp only [bytes, object_bytes, field_bytes, commas, List.map_cons, List.map_nil, List.sum_cons,
    List.sum_nil, List.length_cons, List.length_nil, hpiece, hsource, hdestination, hkind,
    hpromotion, hat]
  omega

/-- A game of `n` arrivals does not fit in less than `198 * n` bytes. -/
theorem Match.le_welcome_bytes (m : Match) (arrivals : List ArrivalEvent) (color : PieceColor)
    (spectator : Bool) : 198 * arrivals.length ≤ m.welcome_bytes arrivals color spectator := by
  have hsum : 198 * arrivals.length ≤ (arrivals.map ArrivalEvent.bytes).sum := by
    induction arrivals with
    | nil => simp
    | cons event events ih =>
        have hevent := event.le_bytes
        rw [List.length_cons, List.map_cons, List.sum_cons]
        omega
  unfold welcome_bytes
  simp only [object_bytes, field_bytes, array_bytes, List.map_cons, List.map_nil, List.sum_cons,
    List.sum_nil]
  omega

/-! ## A king that jumps up and down -/

namespace Match

/-- Two players, and nobody has moved yet. -/
def before_jumps : Match :=
  let m := Match.new three_on_a_row shipped_factory true 20000 3000 ""
  let m := (m.join "alice" 1200 ⟨1⟩).1.1
  (m.join "bob" 1200 ⟨2⟩).1.1

/-- The king is back where it was. -/
def jump_at (clock_ms : Int) : ArrivalEvent where
  moved_piece := ⟨⟨2⟩, .White, .King, ⟨0, 1⟩, .Idle, false⟩
  source := ⟨0, 1⟩
  destination := ⟨0, 1⟩
  captured_piece := none
  kind := .JumpInPlace
  arrived_at_ms := clock_ms + kJumpDurationMs

/-- The match with its king rested, after so many ticks and these arrivals. -/
def after_jumps (n : Nat) (clock_ms : Int) (history : List ArrivalEvent) : Match :=
  { before_jumps with
    engine := ⟨⟨three_on_a_row, [], fun _ => none, clock_ms⟩, shipped_factory, false⟩
    revision := n
    history := history }

/-- One more jump, and ten seconds. -/
theorem one_more_jump (n : Nat) (clock_ms : Int) (history : List ArrivalEvent) : ∃ os,
    run exec (after_jumps n clock_ms history)
        [.enqueue .White (.JumpRequest ⟨0, 1⟩), .tick 0 10000]
      = .ok (after_jumps (n + 1) (clock_ms + 10000) (history ++ [jump_at clock_ms]), os) :=
  ⟨_, rfl⟩

/-- Any number of jumps is reached. -/
theorem jumps_reached (n : Nat) : ∃ tr history,
    Reach exec anyStep (.new three_on_a_row shipped_factory true 20000 3000 "")
      (after_jumps n (10000 * n) history) tr ∧ history.length = n ∧
      ∀ event ∈ history, ∃ clock_ms : Int, 0 ≤ clock_ms ∧ clock_ms ≤ 10000 * n ∧
        event = jump_at clock_ms := by
  induction n with
  | zero =>
      have hjoins : ∃ os, run exec (.new three_on_a_row shipped_factory true 20000 3000 "")
          [.join "alice" 1200 ⟨1⟩, .join "bob" 1200 ⟨2⟩] = .ok (after_jumps 0 0 [], os) := ⟨_, rfl⟩
      obtain ⟨os, hrun⟩ := hjoins
      exact ⟨os, [], reach_of_run hrun, rfl, by simp⟩
  | succ n ih =>
      obtain ⟨tr, history, hreach, hlength, hjumps⟩ := ih
      obtain ⟨os, hrun⟩ := one_more_jump n (10000 * n) history
      have hclock : (10000 * n + 10000 : Int) = 10000 * (n + 1 : Nat) := by omega
      rw [hclock] at hrun
      refine ⟨tr ++ os, _, hreach.of_run (meets_anyStep _ _ _) hrun, by simp [hlength], ?_⟩
      intro event hevent
      rcases List.mem_append.mp hevent with hold | hnew
      · obtain ⟨clock_ms, h0, hn, hjump⟩ := hjumps event hold
        exact ⟨clock_ms, h0, by omega, hjump⟩
      · exact ⟨10000 * n, by omega, by omega, List.mem_singleton.mp hnew⟩

/-- All its numbers are in range, for as long as anybody will play. -/
theorem after_jumps_fits {n : Nat} (hn : n ≤ 1000000) {history : List ArrivalEvent}
    (hjumps : ∀ event ∈ history, ∃ clock_ms : Int, 0 ≤ clock_ms ∧ clock_ms ≤ 10000 * n ∧
      event = jump_at clock_ms) (color : PieceColor) (spectator : Bool) :
    ((after_jumps n (10000 * n) history).welcome_for color spectator).Fits := by
  have hboard : (snapshot_of three_on_a_row).Fits := by
    have hsnapshot : snapshot_of three_on_a_row = ⟨3, 1, [
        ⟨⟨1⟩, .White, .Rook, ⟨0, 0⟩, .Idle, false⟩, ⟨⟨2⟩, .White, .King, ⟨0, 1⟩, .Idle, false⟩,
        ⟨⟨3⟩, .Black, .Rook, ⟨0, 2⟩, .Idle, false⟩]⟩ := by decide
    rw [hsnapshot]
    simp [BoardSnapshot.Fits, Piece.Fits, Position.Fits, FitsSigned]
  refine ⟨hboard, ?_, ?_, ?_, ?_⟩
  · intro event hevent
    obtain ⟨clock_ms, h0, hlast, rfl⟩ := hjumps event hevent
    simp [ArrivalEvent.Fits, Piece.Fits, Position.Fits, FitsSigned, jump_at, kJumpDurationMs]
    omega
  · change n < 2 ^ 64
    omega
  · change FitsSigned 32 1200
    exact ⟨by decide, by decide⟩
  · change FitsSigned 32 1200
    exact ⟨by decide, by decide⟩

end Match

/-! ## Reading it back -/

/-- The writer wastes no bytes. -/
def DumpsCompactly (dump : Json → String) : Prop :=
  ∀ j, WellFormed j → (dump j).utf8ByteSize = j.compact_size

/-- The text is as long as the match says. -/
theorem encoded_welcome_size {dump : Json → String} (hcompact : DumpsCompactly dump) {m : Match}
    {color : PieceColor} {spectator : Bool} (hfits : (m.welcome_for color spectator).Fits) :
    ((ServerMessage.Welcome (m.welcome_for color spectator)).encode dump).utf8ByteSize
      = m.welcome_bytes m.history color spectator :=
  (hcompact _ (ServerMessage.undoes.well_formed (.Welcome _) hfits)).trans
    (m.size_welcome color spectator)

/-- A reader gives up on a long text before it parses. -/
theorem long_text_refused {parse : String → Option Json} {text : String}
    (hlong : kMaxMessageBytes < text.utf8ByteSize) : decode_server_message parse text = none := by
  unfold decode_server_message parse_envelope
  rw [if_pos hlong]
  rfl

/-- **A `Welcome` is read back as long as it is short enough**, which the board, the
arrivals the run has reported and the two players say; and that is when its text is
within the limit. -/
theorem welcome_is_readable {dump : Json → String} {parse : String → Option Json}
    (hjson : ParsesWhatIsDumped dump parse) (hcompact : DumpsCompactly dump) {board : Board}
    {config : MotionFactory} {on_result : Bool} {disconnect_grace_ms release_delay_ms : Int}
    {room_name : String} {m : Match} {tr : List MatchEvent}
    (hr : Reach Match.exec anyStep
      (.new board config on_result disconnect_grace_ms release_delay_ms room_name) m tr)
    (color : PieceColor) (spectator : Bool) (hfits : (m.welcome_for color spectator).Fits) :
    let sent := ServerMessage.Welcome (m.welcome_for color spectator)
    let bytes := m.welcome_bytes (Match.reported_arrivals tr) color spectator
    (decode_server_message parse (sent.encode dump) = some sent ↔ bytes ≤ kMaxMessageBytes) ∧
      ((sent.encode dump).utf8ByteSize ≤ kMaxMessageBytes ↔ bytes ≤ kMaxMessageBytes) := by
  intro sent bytes
  have hsize : (sent.encode dump).utf8ByteSize = bytes := by
    have hlength := encoded_welcome_size hcompact hfits
    rw [Match.history_reported hr] at hlength
    exact hlength
  rw [hsize]
  refine ⟨⟨?_, ?_⟩, .rfl⟩
  · intro hread
    by_contra hlong
    rw [← hsize] at hlong
    rw [long_text_refused (Nat.lt_of_not_le hlong)] at hread
    exact absurd hread (by simp)
  · intro hshort
    exact read_back hjson ServerMessage.undoes hfits (by rw [← hsize] at hshort; exact hshort)

set_option maxRecDepth 4000 in
/-- A viewer who comes after the first jump reads what the board and the jump are. -/
theorem readable_after_a_jump : ∃ tr,
    Reach Match.exec anyStep (.new three_on_a_row shipped_factory true 20000 3000 "")
      (.after_jumps 1 10000 [Match.jump_at 0]) tr ∧
    let sent := ServerMessage.Welcome
      ((Match.after_jumps 1 10000 [Match.jump_at 0]).welcome_for .White true)
    decode_server_message read_text (sent.encode text) = some sent := by
  have hrun : ∃ os, run Match.exec (.new three_on_a_row shipped_factory true 20000 3000 "")
      [.join "alice" 1200 ⟨1⟩, .join "bob" 1200 ⟨2⟩, .enqueue .White (.JumpRequest ⟨0, 1⟩),
        .tick 0 10000] = .ok (.after_jumps 1 10000 [Match.jump_at 0], os) := ⟨_, rfl⟩
  obtain ⟨tr, hrun⟩ := hrun
  have hreach := reach_of_run hrun
  have hjump : ∀ event ∈ [Match.jump_at 0], ∃ clock_ms : Int, 0 ≤ clock_ms ∧
      clock_ms ≤ 10000 * (1 : Nat) ∧ event = Match.jump_at clock_ms := by
    intro event hevent
    exact ⟨0, by omega, by omega, List.mem_singleton.mp hevent⟩
  have hfits := Match.after_jumps_fits (by omega) hjump .White true
  refine ⟨tr, hreach, ?_⟩
  apply ((welcome_is_readable (fun _ hj => read_text_text hj) (fun j _ => utf8ByteSize_text j)
    hreach .White true hfits).1).mpr
  rw [← Match.history_reported hreach]
  decide

/-- After 5300 jumps nobody reads a `Welcome` any more. -/
theorem unreadable_welcome : ¬ ∀ (dump : Json → String) (parse : String → Option Json),
    ParsesWhatIsDumped dump parse → DumpsCompactly dump →
    ∀ (rows : List String) (board : Board) (config : MotionFactory) (on_result : Bool)
      (disconnect_grace_ms release_delay_ms : Int) (room_name : String) (m : Match)
      (tr : List MatchEvent), KungFuChess.parse rows = .ok board →
    Reach Match.exec anyStep
      (.new board config on_result disconnect_grace_ms release_delay_ms room_name) m tr →
    ∀ (color : PieceColor) (spectator : Bool), (m.welcome_for color spectator).Fits →
      decode_server_message parse
          ((ServerMessage.Welcome (m.welcome_for color spectator)).encode dump)
        = some (.Welcome (m.welcome_for color spectator)) := by
  intro h
  obtain ⟨tr, history, hreach, hlength, hjumps⟩ := Match.jumps_reached 5300
  have hfits := Match.after_jumps_fits (by omega) hjumps .White true
  have hread := h text read_text (fun _ hj => read_text_text hj) (fun j _ => utf8ByteSize_text j)
    _ _ _ _ _ _ _ _ tr parse_three_on_a_row hreach .White true hfits
  have hsize := encoded_welcome_size (fun j _ => utf8ByteSize_text j) hfits
  have hlong := (Match.after_jumps 5300 (10000 * (5300 : Nat)) history).le_welcome_bytes history
    .White true
  rw [hlength] at hlong
  have hhistory : (Match.after_jumps 5300 (10000 * (5300 : Nat)) history).history = history := rfl
  rw [hhistory] at hsize
  rw [long_text_refused (by rw [hsize, kMaxMessageBytes]; omega)] at hread
  exact absurd hread (by simp)

end KungFuChess
