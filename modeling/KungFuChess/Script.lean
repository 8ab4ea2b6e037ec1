/-
**Command scripts**: `kfc/texttests/game.cpp` and `command_processor.cpp`.

`Game` is the local game: an engine, a controller without a colour of its own, and
the observer that ends it. `CommandProcessor::run` reads a script line by line
and drives the game with it; it throws a `ParseError` at the first line it does
not accept, after the lines before it have been carried out.

The game asks nothing of the engine that is not one of its commands
(`answer_obeyed`), so whatever is said of the engine's runs is said of scripts
(`ready_of_reach`). On a parsed board nothing but the text of a line can stop a
script (`script_fails_by_its_text`).
-/
import KungFuChess.BoardText
import KungFuChess.Controller
import KungFuChess.Runs

set_option autoImplicit false

namespace KungFuChess

open Machine (Step Reach bind_ok_iff anyStep)

/-! ## `game.cpp` -/

/-- What ends a script early. -/
inductive ScriptFault
  | ParseError (code : String)
  | board (e : BoardError)
  | controller (e : ControllerFault)
deriving DecidableEq, Repr

/-- What is published on the bus of the game. -/
inductive GameEvent
  | started
  | arrival (event : ArrivalEvent)
  | ended (winner : Option PieceColor)
deriving DecidableEq, Repr

/-- The engine with its controller, and what has been published of the game. -/
structure Game where
  engine : GameEngine
  controller : Controller
  game_over : GameOverObserver := {}
  started : Bool := false
  ended : Bool := false

namespace Game

def new (f : MotionFactory) (board : Board) : Game where
  engine := .new f board
  controller := .new ⟨board.width, board.height⟩ none

/-- The engine answers the request of the controller, if there is one. -/
def answer (engine : GameEngine) :
    Option MoveRequest → Except BoardError (GameEngine × Option MoveResult)
  | none => .ok (engine, none)
  | some (.request_move source destination) => do
      let (engine, result) ← engine.request_move source destination
      return (engine, some result)
  | some (.request_jump cell) => do
      let (engine, result) ← engine.request_jump cell
      return (engine, some result)

/-- A click, and the request that it makes, if it makes one. -/
def click (g : Game) (x y : Int) :
    Except ScriptFault (Game × ClickOutcome × Option MoveResult) := do
  let (controller, result) ← (g.controller.click g.engine.board x y).mapError .controller
  let (engine, move_result) ← (answer g.engine result.request).mapError .board
  return ({ g with engine := engine, controller := controller }, result.outcome, move_result)

def jump (g : Game) (x y : Int) :
    Except ScriptFault (Game × ClickOutcome × Option MoveResult) := do
  let (controller, result) := g.controller.jump g.engine.board x y
  let (engine, move_result) ← (answer g.engine result.request).mapError .board
  return ({ g with engine := engine, controller := controller }, result.outcome, move_result)

/-- The engine waits, and the end of the game is published. -/
def wait (g : Game) (ms : Int) : Except ScriptFault (Game × List GameEvent) := do
  let (engine, events) ← (g.engine.wait ms).mapError .board
  let game_over := events.foldl GameOverObserver.on_arrival g.game_over
  -- the end is published once
  let ends := !g.ended && game_over.is_game_over
  return ({ g with
      engine := engine
      game_over := game_over
      started := true
      ended := g.ended || ends },
    (if g.started then [] else [.started]) ++ events.map .arrival
      ++ if ends then [.ended (if game_over.draw then none else game_over.winner)] else [])

def print_board (g : Game) : String := print g.engine.board

end Game

/-! ## `command_processor.cpp` -/

inductive NumberFault
  | invalid_argument
  | out_of_range
deriving DecidableEq, Repr

/-- The sign of a number, and how many characters it takes. -/
def sign_of : List Char → Int × Nat
  | '-' :: _ => (-1, 1)
  | '+' :: _ => (1, 1)
  | _ => (1, 0)

/-- What the decimal digits say. -/
def digits_value (digits : List Char) : Int :=
  digits.foldl (fun n c => 10 * n + ((c.toNat : Int) - 48)) 0

/-- `std::stoi`: blanks, a sign and digits; the value, and how much of the text it took. -/
def stoi (text : List Char) : Except NumberFault (Int × Nat) :=
  let blanks := text.takeWhile isspace
  let (sign, signs) := sign_of (text.drop blanks.length)
  let digits := (text.drop (blanks.length + signs)).takeWhile Char.isDigit
  if digits = [] then .error .invalid_argument
  else
    let value := sign * digits_value digits
    if value < -2147483648 ∨ 2147483647 < value then .error .out_of_range
    else .ok (value, blanks.length + signs + digits.length)

/-- Trailing junk is refused. -/
def parse_int (token : String) : Except ScriptFault Int :=
  match stoi token.toList with
  | .error _ => .error (.ParseError "INVALID_NUMBER")
  | .ok (value, consumed) =>
      if consumed ≠ token.toList.length then .error (.ParseError "INVALID_NUMBER")
      else .ok value

/-- A line of a script, parsed. -/
inductive ScriptCommand
  | click (x y : Int)
  | jump (x y : Int)
  | wait (ms : Int)
  | print_board
deriving DecidableEq, Repr

/-- The two pixels of a "click" or a "jump". -/
def parse_pixels (command : Int → Int → ScriptCommand) :
    List String → Except ScriptFault (Option ScriptCommand)
  | [x, y] => do
      let x ← parse_int x
      let y ← parse_int y
      return some (command x y)
  | _ => .error (.ParseError "INVALID_ARGUMENT_COUNT")

/-- The milliseconds of a "wait". -/
def parse_ms : List String → Except ScriptFault (Option ScriptCommand)
  | [ms] => do
      let ms ← parse_int ms
      if ms < 0 then .error (.ParseError "INVALID_NUMBER") else return some (.wait ms)
  | _ => .error (.ParseError "INVALID_ARGUMENT_COUNT")

/-- What a line asks for: the tests of the loop body of `run`, in its order. A line of
blanks asks for nothing. -/
def parse_line (line : String) : Except ScriptFault (Option ScriptCommand) :=
  match tokenize line with
  | [] => .ok none
  | command :: arguments =>
      if command = "click" ∨ command = "jump" then
        parse_pixels (if command = "click" then .click else .jump) arguments
      else if command = "wait" then parse_ms arguments
      else if command = "print" then
        if arguments = ["board"] then .ok (some .print_board)
        else .error (.ParseError "INVALID_ARGUMENT_COUNT")
      else .error (.ParseError "UNKNOWN_COMMAND")

/-- What the command does to the game, and what it prints. -/
def carry_out (g : Game) : Option ScriptCommand → Except ScriptFault (Game × List String)
  | none => .ok (g, [])
  | some (.click x y) => do
      let (g, _) ← g.click x y
      return (g, [])
  | some (.jump x y) => do
      let (g, _) ← g.jump x y
      return (g, [])
  | some (.wait ms) => do
      let (g, _) ← g.wait ms
      return (g, [])
  | some .print_board => .ok (g, [g.print_board])

/-- One turn of the loop of `run`. -/
def run_line : Step Game String String ScriptFault := fun g line => do
  let command ← parse_line line
  carry_out g command

/-- Line by line, until one fails; what was printed is the output. -/
def run_script (g : Game) (command_lines : List String) : Except ScriptFault (Game × String) := do
  let (g, printed) ← Machine.run run_line g command_lines
  return (g, String.join printed)

/-! ## What a line says -/

/-- What `stoi` gives is an `int`. -/
theorem stoi_fits {text : List Char} {value : Int} {consumed : Nat}
    (h : stoi text = .ok (value, consumed)) : -2147483648 ≤ value ∧ value ≤ 2147483647 := by
  unfold stoi at h
  dsimp only at h
  split_ifs at h with hdigits hrange
  obtain ⟨rfl, -⟩ := Prod.mk.inj (Except.ok.inj h)
  omega

theorem parse_int_fits {token : String} {value : Int} (h : parse_int token = .ok value) :
    -2147483648 ≤ value ∧ value ≤ 2147483647 := by
  unfold parse_int at h
  cases hstoi : stoi token.toList with
  | error e =>
      rw [hstoi] at h
      cases h
  | ok r =>
      obtain ⟨read, consumed⟩ := r
      -- with nothing left over the value is that of `stoi`
      rw [hstoi] at h
      dsimp only at h
      split_ifs at h
      obtain rfl := Except.ok.inj h
      exact stoi_fits hstoi

theorem parse_pixels_ok {command : Int → Int → ScriptCommand} {arguments : List String}
    {c : Option ScriptCommand} (h : parse_pixels command arguments = .ok c) :
    ∃ x y, c = some (command x y) := by
  unfold parse_pixels at h
  split at h
  · obtain ⟨x, -, hx⟩ := (bind_ok_iff _ _ _).mp h
    obtain ⟨y, -, hy⟩ := (bind_ok_iff _ _ _).mp hx
    exact ⟨x, y, (Except.ok.inj hy).symm⟩
  · cases h

theorem parse_ms_ok {arguments : List String} {c : Option ScriptCommand}
    (h : parse_ms arguments = .ok c) : ∃ ms, c = some (.wait ms) ∧ 0 ≤ ms ∧ ms ≤ 2147483647 := by
  unfold parse_ms at h
  split at h
  · obtain ⟨ms, hms, hret⟩ := (bind_ok_iff _ _ _).mp h
    split_ifs at hret with hneg
    exact ⟨ms, (Except.ok.inj hret).symm, not_lt.mp hneg, (parse_int_fits hms).2⟩
  · cases h

/-- A wait that is accepted takes a non-negative `int` of milliseconds. -/
theorem parse_line_wait {line : String} {ms : Int}
    (h : parse_line line = .ok (some (.wait ms))) : 0 ≤ ms ∧ ms ≤ 2147483647 := by
  unfold parse_line at h
  cases htokens : tokenize line with
  | nil =>
      rw [htokens] at h
      cases h
  | cons command arguments =>
      rw [htokens] at h
      dsimp only at h
      split_ifs at h
      -- a click and a jump are no waits
      · obtain ⟨x, y, hxy⟩ := parse_pixels_ok h
        cases hxy
      · obtain ⟨x, y, hxy⟩ := parse_pixels_ok h
        cases hxy
      · obtain ⟨value, hvalue, hfits⟩ := parse_ms_ok h
        cases hvalue
        exact hfits
      · cases h

/-- A failure that is a `ParseError`. -/
def ByText {α : Type} (x : Except ScriptFault α) : Prop :=
  ∀ e, x = .error e → ∃ code, e = .ParseError code

theorem by_text_ok {α : Type} (a : α) : ByText (.ok a : Except ScriptFault α) := by
  rintro e ⟨⟩

theorem by_text_parse_error {α : Type} (code : String) :
    ByText (.error (.ParseError code) : Except ScriptFault α) := by
  rintro e ⟨⟩
  exact ⟨code, rfl⟩

theorem ByText.bind {α β : Type} {x : Except ScriptFault α} {f : α → Except ScriptFault β}
    (hx : ByText x) (hf : ∀ a, x = .ok a → ByText (f a)) : ByText (x >>= f) := by
  cases x with
  | error e =>
      rintro e' ⟨⟩
      exact hx e rfl
  | ok a => exact hf a rfl

theorem by_text_parse_int (token : String) : ByText (parse_int token) := by
  unfold parse_int
  split
  · exact by_text_parse_error _
  · split_ifs
    · exact by_text_parse_error _
    · exact by_text_ok _

theorem by_text_parse_pixels (command : Int → Int → ScriptCommand) (arguments : List String) :
    ByText (parse_pixels command arguments) := by
  unfold parse_pixels
  split
  · exact (by_text_parse_int _).bind fun x _ => (by_text_parse_int _).bind fun y _ => by_text_ok _
  · exact by_text_parse_error _

theorem by_text_parse_ms (arguments : List String) : ByText (parse_ms arguments) := by
  unfold parse_ms
  split
  · refine (by_text_parse_int _).bind fun ms _ => ?_
    split_ifs
    · exact by_text_parse_error _
    · exact by_text_ok _
  · exact by_text_parse_error _

/-- What is wrong with a line is its text. -/
theorem by_text_parse_line (line : String) : ByText (parse_line line) := by
  unfold parse_line
  split
  · exact by_text_ok _
  · split_ifs
    · exact by_text_parse_pixels _ _
    · exact by_text_parse_pixels _ _
    · exact by_text_parse_ms _
    · exact by_text_ok _
    · exact by_text_parse_error _
    · exact by_text_parse_error _

/-! ## What a line does -/

/-- The engine did nothing, or carried out one of its commands, which is a wait only if the
line asks for that wait. -/
def Obeyed (c : Option ScriptCommand) (engine engine' : GameEngine) : Prop :=
  engine' = engine ∨ ∃ cmd es, engine.exec cmd = .ok (engine', es) ∧
    ∀ ms : Nat, cmd = .wait ms → c = some (.wait ms)

theorem answer_obeyed (c : Option ScriptCommand) (engine : GameEngine)
    (request : Option MoveRequest) :
    ∃ engine' r, Game.answer engine request = .ok (engine', r) ∧ Obeyed c engine engine' := by
  cases request with
  | none => exact ⟨engine, none, rfl, .inl rfl⟩
  | some request =>
      cases request with
      | request_move source destination =>
          obtain ⟨engine', r, hrun, -⟩ := request_move_effect engine source destination
          refine ⟨engine', some r, ?_, .inr ⟨_, _, exec_request_move hrun, fun ms h => by cases h⟩⟩
          rw [Game.answer, hrun]
          rfl
      | request_jump cell =>
          obtain ⟨engine', r, hrun, -⟩ := request_jump_effect engine cell
          refine ⟨engine', some r, ?_, .inr ⟨_, _, exec_request_jump hrun, fun ms h => by cases h⟩⟩
          rw [Game.answer, hrun]
          rfl

/-- No assertion of the controller and no exception of the board is in reach. -/
structure Ready (g : Game) : Prop where
  sound : g.engine.Sound
  holds : ∃ selection, g.controller.Holds selection

theorem ready_new {board_lines : List String} {board : Board}
    (hparse : parse board_lines = .ok board) (f : MotionFactory) : Ready (.new f board) :=
  ⟨sound_new f (fresh_of_parse hparse), none, rfl, rfl⟩

theorem Obeyed.sound {c : Option ScriptCommand} {engine engine' : GameEngine}
    (h : Obeyed c engine engine') (hsound : engine.Sound) : engine'.Sound := by
  rcases h with rfl | ⟨cmd, es, hexec, -⟩
  · exact hsound
  · exact hsound.step hexec

/-- A click keeps the game ready, and asks at most one thing of the engine. -/
theorem Ready.click {g : Game} (h : Ready g) (x y : Int) (c : Option ScriptCommand) :
    ∃ g' r, g.click x y = .ok (g', r) ∧ Ready g' ∧ Obeyed c g.engine g'.engine := by
  obtain ⟨selection, hholds⟩ := h.holds
  -- the controller answers, the engine answers its request, and neither can fail
  obtain ⟨controller, result, hclick, hclicked⟩ :=
    Controller.click_clicked hholds g.engine.board x y
  obtain ⟨engine, r, hanswer, hobeyed⟩ := answer_obeyed c g.engine result.request
  refine ⟨{ g with engine := engine, controller := controller }, (result.outcome, r), ?_,
    ⟨hobeyed.sound h.sound, ?_⟩, hobeyed⟩
  · rw [Game.click, hclick]
    refine (bind_ok_iff _ _ _).mpr ⟨_, rfl, ?_⟩
    dsimp only
    rw [hanswer]
    rfl
  · cases hclicked with
    | selected hpiece hselectable heq =>
        rw [heq]
        exact ⟨_, Controller.holds_select _ _ _⟩
    | requested hselection hsource hcell htarget heq =>
        rw [heq]
        exact ⟨_, Controller.holds_clear _⟩
    | nothing hne heq =>
        rw [heq]
        exact ⟨_, Controller.holds_clear _⟩

theorem Ready.jump {g : Game} (h : Ready g) (x y : Int) (c : Option ScriptCommand) :
    ∃ g' r, g.jump x y = .ok (g', r) ∧ Ready g' ∧ Obeyed c g.engine g'.engine := by
  have hsame := (g.controller.jump_cases g.engine.board x y).1
  obtain ⟨engine, r, hanswer, hobeyed⟩ :=
    answer_obeyed c g.engine (g.controller.jump g.engine.board x y).2.request
  refine ⟨{ g with engine := engine, controller := (g.controller.jump g.engine.board x y).1 },
    ((g.controller.jump g.engine.board x y).2.outcome, r), ?_,
    ⟨hobeyed.sound h.sound, ?_⟩, hobeyed⟩
  · rw [Game.jump]
    dsimp only
    rw [hanswer]
    rfl
  · obtain ⟨selection, hholds⟩ := h.holds
    exact ⟨selection, by rwa [hsame]⟩

/-- A wait keeps it ready. -/
theorem Ready.wait {g : Game} (h : Ready g) {ms : Int} (hms : 0 ≤ ms) :
    ∃ g' r, g.wait ms = .ok (g', r) ∧ Ready g' ∧
      Obeyed (some (.wait ms)) g.engine g'.engine := by
  -- `parse_ms` accepts no negative time, which is what the engine's `wait` asks for
  obtain ⟨n, rfl⟩ := Int.eq_ofNat_of_zero_le hms
  obtain ⟨engine, es, hexec⟩ := exec_total h.sound (.wait n)
  have hwait : g.engine.wait n = .ok (engine, es) := hexec
  have hrun : ∃ g' r, g.wait n = .ok (g', r) ∧ g'.engine = engine ∧
      g'.controller = g.controller := by
    rw [Game.wait, hwait]
    exact ⟨_, _, rfl, rfl, rfl⟩
  obtain ⟨g', r, hgame, rfl, hsame⟩ := hrun
  refine ⟨g', r, hgame, ⟨h.sound.step hexec, by rw [hsame]; exact h.holds⟩, .inr ⟨_, _, hexec, ?_⟩⟩
  rintro ms ⟨⟩
  rfl

/-- **A line that is accepted is carried out**, by at most one command of the engine. -/
theorem Ready.obeys {g : Game} (h : Ready g) {line : String} {c : Option ScriptCommand}
    (hline : parse_line line = .ok c) :
    ∃ g' out, run_line g line = .ok (g', out) ∧ Ready g' ∧ Obeyed c g.engine g'.engine := by
  unfold run_line
  rw [hline]
  show ∃ g' out, carry_out g c = .ok (g', out) ∧ Ready g' ∧ Obeyed c g.engine g'.engine
  cases c with
  | none => exact ⟨g, [], rfl, h, .inl rfl⟩
  | some c =>
      cases c with
      | click x y =>
          obtain ⟨g', r, hclick, hready, hobeyed⟩ := h.click x y _
          refine ⟨g', [], ?_, hready, hobeyed⟩
          rw [carry_out, hclick]
          rfl
      | jump x y =>
          obtain ⟨g', r, hjump, hready, hobeyed⟩ := h.jump x y _
          refine ⟨g', [], ?_, hready, hobeyed⟩
          rw [carry_out, hjump]
          rfl
      | wait ms =>
          obtain ⟨g', r, hwait, hready, hobeyed⟩ := h.wait (parse_line_wait hline).1
          refine ⟨g', [], ?_, hready, hobeyed⟩
          rw [carry_out, hwait]
          rfl
      | print_board => exact ⟨g, [g.print_board], rfl, h, .inl rfl⟩

/-! ## Scripts -/

section Scripts

variable {board_lines : List String} {board : Board} {f : MotionFactory} {g : Game}
  {out : List String} {C : Game → List String → String → Prop}

/-- A game that a script on a parsed board comes to is ready for the next line, and its
engine is in a state that its own commands reach. What the lines meet (`C`) the commands
meet in their way (`D`). -/
theorem ready_of_reach {D : GameEngine → List ArrivalEvent → GameEngine.Command → Prop}
    (hparse : parse board_lines = .ok board)
    (hCD : ∀ (g : Game) out line tr cmd, C g out line →
      (∀ ms : Nat, cmd = .wait ms → parse_line line = .ok (some (.wait ms))) → D g.engine tr cmd)
    (h : Reach run_line C (.new f board) g out) :
    Ready g ∧ ∃ tr, Reach GameEngine.exec D (.new f board) g.engine tr := by
  refine Reach.invariant (P := fun g _ => Ready g ∧
    ∃ tr, Reach GameEngine.exec D (.new f board) g.engine tr)
    ⟨ready_new hparse f, [], .init⟩ ?_ h
  rintro g out line g' printed - ⟨hready, tr, hreach⟩ hc hrun
  obtain ⟨c, hline, -⟩ := (bind_ok_iff _ _ _).mp hrun
  obtain ⟨g₁, out₁, hrun₁, hready₁, hobeyed⟩ := hready.obeys hline
  rw [hrun] at hrun₁
  obtain ⟨rfl, -⟩ := Prod.mk.inj (Except.ok.inj hrun₁)
  refine ⟨hready₁, ?_⟩
  -- the engine has made the same step, or none
  rcases hobeyed with hsame | ⟨cmd, es, hexec, hwait⟩
  · exact ⟨tr, by rwa [hsame]⟩
  · refine ⟨_, hreach.step (hCD g out line tr cmd hc fun ms hms => ?_) hexec⟩
    rw [hline, hwait ms hms]

end Scripts

/-- **Only the text can make a script fail.** -/
theorem Ready.by_text {g : Game} (h : Ready g) (command_lines : List String) :
    ByText (Machine.run run_line g command_lines) := by
  induction command_lines generalizing g with
  | nil => exact by_text_ok _
  | cons line command_lines ih =>
      -- once the text is read, the line is carried out (`Ready.obeys`)
      have hone : ByText (run_line g line) := by
        refine (by_text_parse_line line).bind fun c hline => ?_
        obtain ⟨g', out, hrun, -, -⟩ := h.obeys hline
        have hcarry : carry_out g c = .ok (g', out) := by
          rwa [run_line, hline] at hrun
        rw [hcarry]
        exact by_text_ok _
      rw [Machine.run]
      refine hone.bind fun r hr => ?_
      obtain ⟨c, hline, -⟩ := (bind_ok_iff _ _ _).mp hr
      obtain ⟨g', out, hrun, hready, -⟩ := h.obeys hline
      rw [hr] at hrun
      obtain rfl := Except.ok.inj hrun
      exact (ih hready).bind fun _ _ => by_text_ok _

/-- **Nothing but the text of a line stops a script** on a parsed board: no assertion, and no
exception of the board. -/
theorem script_fails_by_its_text {board_lines : List String} {board : Board}
    (hparse : parse board_lines = .ok board) (f : MotionFactory) (command_lines : List String) :
    ByText (run_script (.new f board) command_lines) :=
  ((ready_new hparse f).by_text command_lines).bind fun _ _ => by_text_ok _

end KungFuChess
