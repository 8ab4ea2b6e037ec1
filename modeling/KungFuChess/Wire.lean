/-
The **wire format**: `kfc/protocol/json.cpp`.

Each type that goes over the wire has its `to_json` and its `from_json`, as the
source writes them, field names and all. A read that throws is `none`, and so is
what a decoder makes of it. The numbers of a message are unbounded here; `Fits` says
that each one is a value of its C++ type, which is what a typed read gives back.

The JSON library is a parameter: `dump` writes a value as text, and `parse` reads a
text.
-/
import KungFuChess.Json
import KungFuChess.Messages

set_option autoImplicit false

namespace KungFuChess

open Json

/-! ## `enum_names.hpp` and the tables -/

/-- One enum's enumerators paired with written names. -/
structure EnumNames (Enum : Type) where
  entries : List (Enum × String)

namespace EnumNames

variable {Enum : Type} [DecidableEq Enum]

/-- The name an enumerator is written as; empty if the table has none. -/
def name_of (names : EnumNames Enum) (value : Enum) : String :=
  ((names.entries.find? fun entry => entry.1 = value).map Prod.snd).getD ""

/-- The enumerator of a name, if the table has it. -/
def value_of (names : EnumNames Enum) (name : String) : Option Enum :=
  (names.entries.find? fun entry => entry.2 = name).map Prod.fst

end EnumNames

/-- The names of the kinds. -/
def kPieceKindNames : EnumNames PieceKind where
  entries := [(.King, "King"), (.Queen, "Queen"), (.Rook, "Rook"), (.Bishop, "Bishop"),
    (.Knight, "Knight"), (.Pawn, "Pawn"), (.Drone, "Drone")]

/-- The names of the colours. -/
def kPieceColorNames : EnumNames PieceColor where
  entries := [(.White, "White"), (.Black, "Black")]

/-- The names of the states. -/
def kPieceStateNames : EnumNames PieceState where
  entries := [(.Idle, "Idle"), (.Moving, "Moving"), (.Airborne, "Airborne"),
    (.Captured, "Captured")]

/-- The names of the two kinds of motion. -/
def kMotionKindNames : EnumNames MotionKind where
  entries := [(.Move, "Move"), (.JumpInPlace, "JumpInPlace")]

/-- One enum written as its name. -/
def write_named {Enum : Type} [DecidableEq Enum] (names : EnumNames Enum) (value : Enum) : Json :=
  .string (names.name_of value)

/-- Reads one enum written as its name; an unknown name throws. -/
def read_named {Enum : Type} [DecidableEq Enum] (names : EnumNames Enum) (j : Json) :
    Option Enum := do
  let text ← j.get_string
  names.value_of text

/-! ## `int`, `long long` and `std::uint64_t` -/

/-- `get<int>`: a number in its range. -/
def get_int : Json → Option Int := get_signed 32

/-- `get<long long>`. -/
def get_long_long : Json → Option Int := get_signed 64

/-- `get<std::uint64_t>`. -/
def get_uint64 : Json → Option Nat := get_unsigned 64

/-! ## The model's types -/

namespace Position

def to_json (pos : Position) : Json :=
  .of_pairs [("row", .number pos.row), ("col", .number pos.col)]

def from_json (j : Json) : Option Position := do
  let row ← j.get_at "row" get_int
  let col ← j.get_at "col" get_int
  return ⟨row, col⟩

/-- Its row and column are `int`s. -/
def Fits (pos : Position) : Prop := FitsSigned 32 pos.row ∧ FitsSigned 32 pos.col

end Position

namespace Piece

def to_json (piece : Piece) : Json := .of_pairs [
  ("id", .number piece.id.value),
  ("color", write_named kPieceColorNames piece.color),
  ("kind", write_named kPieceKindNames piece.kind),
  ("cell", piece.cell.to_json),
  ("state", write_named kPieceStateNames piece.state),
  ("has_moved", .boolean piece.has_moved)]

def from_json (j : Json) : Option Piece := do
  let id ← j.get_at "id" get_int
  let color ← j.get_at "color" (read_named kPieceColorNames)
  let kind ← j.get_at "kind" (read_named kPieceKindNames)
  let cell ← j.get_at "cell" Position.from_json
  let state ← j.get_at "state" (read_named kPieceStateNames)
  let has_moved ← j.get_at "has_moved" get_bool
  return ⟨⟨id⟩, color, kind, cell, state, has_moved⟩

/-- Its id is an `int`, and so is what its cell has. -/
def Fits (piece : Piece) : Prop := FitsSigned 32 piece.id.value ∧ piece.cell.Fits

end Piece

namespace ArrivalEvent

def to_json (event : ArrivalEvent) : Json :=
  let j := .of_pairs [
    ("moved_piece", event.moved_piece.to_json),
    ("source", event.source.to_json),
    ("destination", event.destination.to_json),
    ("kind", write_named kMotionKindNames event.kind),
    ("was_promotion", .boolean event.was_promotion),
    ("arrived_at_ms", .number event.arrived_at_ms)]
  match event.captured_piece with
  | some captured => j.set "captured_piece" captured.to_json
  | none => j

def from_json (j : Json) : Option ArrivalEvent := do
  let moved_piece ← j.get_at "moved_piece" Piece.from_json
  let source ← j.get_at "source" Position.from_json
  let destination ← j.get_at "destination" Position.from_json
  let kind ← j.get_at "kind" (read_named kMotionKindNames)
  let was_promotion ← j.get_at "was_promotion" get_bool
  let arrived_at_ms ← j.get_at "arrived_at_ms" get_long_long
  let captured_piece ← j.get_optional "captured_piece" Piece.from_json
  return ⟨moved_piece, source, destination, captured_piece, kind, was_promotion, arrived_at_ms⟩

/-- Its pieces and cells fit, and its time is a `long long`. -/
def Fits (event : ArrivalEvent) : Prop :=
  event.moved_piece.Fits ∧ event.source.Fits ∧ event.destination.Fits ∧
    (∀ captured, event.captured_piece = some captured → captured.Fits) ∧
    FitsSigned 64 event.arrived_at_ms

end ArrivalEvent

namespace Motion

def to_json (motion : Motion) : Json := .of_pairs [
  ("moving_piece", motion.moving_piece.to_json), ("source", motion.source.to_json),
  ("destination", motion.destination.to_json),
  ("kind", write_named kMotionKindNames motion.kind),
  ("duration_ms", .number motion.duration_ms), ("elapsed_ms", .number motion.elapsed_ms),
  ("cooldown_ms", .number motion.cooldown_ms)]

def from_json (j : Json) : Option Motion := do
  let moving_piece ← j.get_at "moving_piece" Piece.from_json
  let source ← j.get_at "source" Position.from_json
  let destination ← j.get_at "destination" Position.from_json
  let kind ← j.get_at "kind" (read_named kMotionKindNames)
  let duration_ms ← j.get_at "duration_ms" get_int
  let elapsed_ms ← j.get_at "elapsed_ms" get_int
  let cooldown_ms ← j.get_at "cooldown_ms" get_int
  return ⟨moving_piece, source, destination, kind, duration_ms, elapsed_ms, cooldown_ms⟩

/-- Its three times are `int`s. -/
def Fits (motion : Motion) : Prop :=
  motion.moving_piece.Fits ∧ motion.source.Fits ∧ motion.destination.Fits ∧
    FitsSigned 32 motion.duration_ms ∧ FitsSigned 32 motion.elapsed_ms ∧
    FitsSigned 32 motion.cooldown_ms

end Motion

namespace BoardSnapshot

def to_json (snapshot : BoardSnapshot) : Json := .of_pairs [
  ("width", .number snapshot.width), ("height", .number snapshot.height),
  ("pieces", .array (snapshot.pieces.map Piece.to_json))]

def from_json (j : Json) : Option BoardSnapshot := do
  let width ← j.get_at "width" get_int
  let height ← j.get_at "height" get_int
  let pieces ← j.get_at "pieces" (get_array Piece.from_json)
  return ⟨width, height, pieces⟩

/-- Its sides are `int`s, and each piece fits. -/
def Fits (snapshot : BoardSnapshot) : Prop :=
  FitsSigned 32 snapshot.width ∧ FitsSigned 32 snapshot.height ∧
    ∀ piece ∈ snapshot.pieces, piece.Fits

end BoardSnapshot

/-! ## Messages -/

/-- Every message is an object of its type and its payload. -/
def envelope (type : String) (payload : Json) : Json :=
  .of_pairs [("type", .string type), ("payload", payload)]

/-- The type of a message, if it is written as a string. -/
def type_of (j : Json) : Option String := j.get_at "type" get_string

/-- `{}`. -/
def empty_object : Json := .of_pairs []

/-- Longer texts are not parsed. -/
def kMaxMessageBytes : Nat := 1024 * 1024

/-- A message to the server, in its envelope. -/
def ClientMessage.to_json : ClientMessage → Json
  | .Login username password => envelope "Login" (.of_pairs [("username", .string username),
      ("password", .string password)])
  | .MoveRequest source destination => envelope "Move" (.of_pairs [("source", source.to_json),
      ("destination", destination.to_json)])
  | .JumpRequest cell => envelope "Jump" (.of_pairs [("cell", cell.to_json)])
  | .Resign => envelope "Resign" empty_object
  | .Play => envelope "Play" empty_object
  | .CreateRoom => envelope "CreateRoom" empty_object
  | .JoinRoom name => envelope "JoinRoom" (.of_pairs [("name", .string name)])

/-- The payload of a `Welcome`, every field written. -/
def Welcome.to_json (m : Welcome) : Json := .of_pairs [
  ("assigned_color", write_named kPieceColorNames m.assigned_color),
  ("board", m.board.to_json),
  ("spectator", .boolean m.spectator),
  ("room", .string m.room),
  ("history", .array (m.history.map ArrivalEvent.to_json)),
  ("revision", .number m.revision),
  ("white_username", .string m.white_username),
  ("black_username", .string m.black_username),
  ("white_rating", .number m.white_rating),
  ("black_rating", .number m.black_rating)]

def BoardUpdate.to_json (m : BoardUpdate) : Json := .of_pairs [
  ("arrival_events", .array (m.arrival_events.map ArrivalEvent.to_json)),
  ("revision", .number m.revision)]

def MatchStart.to_json (m : MatchStart) : Json := .of_pairs [
  ("white_username", .string m.white_username), ("black_username", .string m.black_username),
  ("white_rating", .number m.white_rating), ("black_rating", .number m.black_rating)]

/-- The payload of a `GameOver`: a draw has no winner. -/
def write_winner : Option PieceColor → Json
  | some color => empty_object.set "winner" (write_named kPieceColorNames color)
  | none => empty_object

/-- A message to a client, in its envelope. -/
def ServerMessage.to_json : ServerMessage → Json
  | .Welcome m => envelope "Welcome" m.to_json
  | .MotionStarted motion => envelope "MotionStarted" (.of_pairs [("motion", motion.to_json)])
  | .BoardUpdate m => envelope "BoardUpdate" m.to_json
  | .MoveRejected reason => envelope "MoveRejected" (.of_pairs [("reason", .string reason)])
  | .GameOver winner => envelope "GameOver" (write_winner winner)
  | .OpponentDisconnected seconds_remaining => envelope "OpponentDisconnected"
      (.of_pairs [("seconds_remaining", .number seconds_remaining)])
  | .MatchStart m => envelope "MatchStart" m.to_json
  | .JoinFailed reason => envelope "JoinFailed" (.of_pairs [("reason", .string reason)])
  | .JoinRedirect url => envelope "JoinRedirect" (.of_pairs [("url", .string url)])
  | .LoginFailed reason => envelope "LoginFailed" (.of_pairs [("reason", .string reason)])
  | .OpponentReconnected => envelope "OpponentReconnected" empty_object

/-- What `decode_client_message` makes of a message that is parsed. -/
def ClientMessage.from_json (j : Json) : Option ClientMessage := do
  let type ← type_of j
  let payload ← j.at_ "payload"
  if type = "Login" then
    let username ← payload.get_at "username" get_string
    let password ← payload.get_at "password" get_string
    return .Login username password
  else if type = "Move" then
    let source ← payload.get_at "source" Position.from_json
    let destination ← payload.get_at "destination" Position.from_json
    return .MoveRequest source destination
  else if type = "Jump" then
    let cell ← payload.get_at "cell" Position.from_json
    return .JumpRequest cell
  else if type = "Resign" then
    return .Resign
  else if type = "Play" then
    return .Play
  else if type = "CreateRoom" then
    return .CreateRoom
  else if type = "JoinRoom" then
    let name ← payload.get_at "name" get_string
    return .JoinRoom name
  else
    none

/-- Its fields; those that older servers leave out have a default. -/
def Welcome.from_json (payload : Json) : Option Welcome := do
  let assigned_color ← payload.get_at "assigned_color" (read_named kPieceColorNames)
  let board ← payload.get_at "board" BoardSnapshot.from_json
  -- absent means "a player"
  let spectator ← payload.value "spectator" get_bool false
  let room ← payload.value "room" get_string ""
  let history ← payload.get_optional "history" (get_array ArrivalEvent.from_json)
  let revision ← payload.value "revision" get_uint64 0
  let white_username ← payload.value "white_username" get_string ""
  let black_username ← payload.value "black_username" get_string ""
  let white_rating ← payload.value "white_rating" get_int 0
  let black_rating ← payload.value "black_rating" get_int 0
  return ⟨assigned_color, board, spectator, room, history.getD [], revision, white_username,
    black_username, white_rating, black_rating⟩

/-- The arrivals are required, the revision is not. -/
def BoardUpdate.from_json (payload : Json) : Option BoardUpdate := do
  let arrival_events ← payload.get_at "arrival_events" (get_array ArrivalEvent.from_json)
  let revision ← payload.value "revision" get_uint64 0
  return ⟨arrival_events, revision⟩

/-- All four have a default. -/
def MatchStart.from_json (payload : Json) : Option MatchStart := do
  let white_username ← payload.value "white_username" get_string ""
  let black_username ← payload.value "black_username" get_string ""
  let white_rating ← payload.value "white_rating" get_int 0
  let black_rating ← payload.value "black_rating" get_int 0
  return ⟨white_username, black_username, white_rating, black_rating⟩

/-- What `decode_server_message` makes of a message that is parsed. -/
def ServerMessage.from_json (j : Json) : Option ServerMessage := do
  let type ← type_of j
  let payload ← j.at_ "payload"
  if type = "Welcome" then
    let welcome ← Welcome.from_json payload
    return .Welcome welcome
  else if type = "MotionStarted" then
    let motion ← payload.get_at "motion" Motion.from_json
    return .MotionStarted motion
  else if type = "BoardUpdate" then
    let update ← BoardUpdate.from_json payload
    return .BoardUpdate update
  else if type = "MoveRejected" then
    let reason ← payload.get_at "reason" get_string
    return .MoveRejected reason
  else if type = "GameOver" then
    let winner ← payload.get_optional "winner" (read_named kPieceColorNames)
    return .GameOver winner
  else if type = "OpponentDisconnected" then
    let seconds_remaining ← payload.get_at "seconds_remaining" get_int
    return .OpponentDisconnected seconds_remaining
  else if type = "MatchStart" then
    let start ← MatchStart.from_json payload
    return .MatchStart start
  else if type = "JoinFailed" then
    let reason ← payload.get_at "reason" get_string
    return .JoinFailed reason
  else if type = "JoinRedirect" then
    let url ← payload.get_at "url" get_string
    return .JoinRedirect url
  else if type = "LoginFailed" then
    let reason ← payload.get_at "reason" get_string
    return .LoginFailed reason
  else if type = "OpponentReconnected" then
    return .OpponentReconnected
  else
    none

/-- The numbers of a message to the server are those of its cells. -/
def ClientMessage.Fits : ClientMessage → Prop
  | .MoveRequest source destination => source.Fits ∧ destination.Fits
  | .JumpRequest cell => cell.Fits
  | _ => True

/-- The board, the history, the revision and the two ratings fit. -/
def Welcome.Fits (m : Welcome) : Prop :=
  m.board.Fits ∧ (∀ event ∈ m.history, event.Fits) ∧ FitsUnsigned 64 m.revision ∧
    FitsSigned 32 m.white_rating ∧ FitsSigned 32 m.black_rating

def BoardUpdate.Fits (m : BoardUpdate) : Prop :=
  (∀ event ∈ m.arrival_events, event.Fits) ∧ FitsUnsigned 64 m.revision

def MatchStart.Fits (m : MatchStart) : Prop :=
  FitsSigned 32 m.white_rating ∧ FitsSigned 32 m.black_rating

/-- Each number of a message to a client is a value of its C++ type. -/
def ServerMessage.Fits : ServerMessage → Prop
  | .Welcome m => m.Fits
  | .MotionStarted motion => motion.Fits
  | .BoardUpdate m => m.Fits
  | .OpponentDisconnected seconds_remaining => FitsSigned 32 seconds_remaining
  | .MatchStart m => m.Fits
  | _ => True

section Text

variable (dump : Json → String) (parse : String → Option Json)

/-- `encode(ClientMessage)`: the text of a message. -/
def ClientMessage.encode (message : ClientMessage) : String := dump message.to_json

/-- `encode(ServerMessage)`. -/
def ServerMessage.encode (message : ServerMessage) : String := dump message.to_json

/-- The length is checked before anything is parsed. -/
def parse_envelope (text : String) : Option Json :=
  if kMaxMessageBytes < text.utf8ByteSize then none else parse text

/-- What the server makes of a text, if it can. -/
def decode_client_message (text : String) : Option ClientMessage :=
  parse_envelope parse text >>= ClientMessage.from_json

/-- What a client makes of a text, if it can. -/
def decode_server_message (text : String) : Option ServerMessage :=
  parse_envelope parse text >>= ServerMessage.from_json

end Text

end KungFuChess
