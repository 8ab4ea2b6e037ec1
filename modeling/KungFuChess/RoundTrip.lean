/-
**What is sent is what is read.**

Eighteen kinds of messages are written in one place and read in another, by field
names that nothing checks. For each type `undoes` says that its `from_json` undoes
its `to_json` on the values of the C++ type; a message is an object of such fields,
and its text is read back as long as it is short enough (`decode_encode`).
-/
import KungFuChess.Wire
import KungFuChess.JsonText

set_option autoImplicit false

namespace KungFuChess

open Json

/-! ## Names and numbers -/

/-- A table that gives every enumerator its own name. -/
theorem undoes_named {Enum : Type} [DecidableEq Enum] {names : EnumNames Enum}
    (h : ∀ value, names.value_of (names.name_of value) = some value) :
    Undoes (write_named names) (read_named names) fun _ => True where
  well_formed _ _ := .string _
  get_put value _ := h value

/-- The four enumerations are read back by their names. -/
theorem undoes_kind : Undoes (write_named kPieceKindNames) (read_named kPieceKindNames)
    fun _ => True :=
  undoes_named fun value => by cases value <;> rfl

theorem undoes_color : Undoes (write_named kPieceColorNames) (read_named kPieceColorNames)
    fun _ => True :=
  undoes_named fun value => by cases value <;> rfl

theorem undoes_state : Undoes (write_named kPieceStateNames) (read_named kPieceStateNames)
    fun _ => True :=
  undoes_named fun value => by cases value <;> rfl

theorem undoes_motion_kind : Undoes (write_named kMotionKindNames) (read_named kMotionKindNames)
    fun _ => True :=
  undoes_named fun value => by cases value <;> rfl

/-- The integers are read back when they are in range. -/
theorem undoes_int : Undoes number get_int (FitsSigned 32) := undoes_signed (by decide) (by decide)

theorem undoes_long_long : Undoes number get_long_long (FitsSigned 64) :=
  undoes_signed (by decide) (by decide)

theorem undoes_uint64 : Undoes (fun n : Nat => number n) get_uint64 (FitsUnsigned 64) :=
  undoes_unsigned (by decide)

/-! ## The model's types -/

/-- **The model's types are read back**, each field by its own lemma. -/
theorem Position.undoes : Undoes Position.to_json Position.from_json Position.Fits where
  well_formed pos h := by
    refine .of_pairs ?_
    simp only [List.forall_mem_cons]
    exact ⟨undoes_int.well_formed _ h.1, undoes_int.well_formed _ h.2, by simp⟩
  get_put pos h := by
    have hrow : pos.to_json.get_at "row" get_int = some pos.row :=
      get_at_of_pairs (by simp) (undoes_int.get_put _ h.1)
    have hcol : pos.to_json.get_at "col" get_int = some pos.col :=
      get_at_of_pairs (by simp) (undoes_int.get_put _ h.2)
    unfold Position.from_json
    rw [hrow, hcol]
    rfl

/-- A piece, from its six fields. -/
theorem Piece.undoes : Undoes Piece.to_json Piece.from_json Piece.Fits where
  well_formed piece h := by
    refine .of_pairs ?_
    simp only [List.forall_mem_cons]
    exact ⟨undoes_int.well_formed _ h.1, .string _, .string _, Position.undoes.well_formed _ h.2,
      .string _, .boolean _, by simp⟩
  get_put piece h := by
    have hid : piece.to_json.get_at "id" get_int = some piece.id.value :=
      get_at_of_pairs (by simp) (undoes_int.get_put _ h.1)
    have hcolor : piece.to_json.get_at "color" (read_named kPieceColorNames) = some piece.color :=
      get_at_of_pairs (by simp) (undoes_color.get_put _ trivial)
    have hkind : piece.to_json.get_at "kind" (read_named kPieceKindNames) = some piece.kind :=
      get_at_of_pairs (by simp) (undoes_kind.get_put _ trivial)
    have hcell : piece.to_json.get_at "cell" Position.from_json = some piece.cell :=
      get_at_of_pairs (by simp) (Position.undoes.get_put _ h.2)
    have hstate : piece.to_json.get_at "state" (read_named kPieceStateNames) = some piece.state :=
      get_at_of_pairs (by simp) (undoes_state.get_put _ trivial)
    have hmoved : piece.to_json.get_at "has_moved" get_bool = some piece.has_moved :=
      get_at_of_pairs (by simp) (undoes_bool.get_put _ trivial)
    unfold Piece.from_json
    rw [hid, hcolor, hkind, hcell, hstate, hmoved]
    rfl

theorem Motion.undoes : Undoes Motion.to_json Motion.from_json Motion.Fits where
  well_formed motion h := by
    obtain ⟨hpiece, hsource, hdestination, hduration, helapsed, hcooldown⟩ := h
    refine .of_pairs ?_
    simp only [List.forall_mem_cons]
    exact ⟨Piece.undoes.well_formed _ hpiece, Position.undoes.well_formed _ hsource,
      Position.undoes.well_formed _ hdestination, .string _, undoes_int.well_formed _ hduration,
      undoes_int.well_formed _ helapsed, undoes_int.well_formed _ hcooldown, by simp⟩
  get_put motion h := by
    obtain ⟨hpiece, hsource, hdestination, hduration, helapsed, hcooldown⟩ := h
    have hpiece : motion.to_json.get_at "moving_piece" Piece.from_json = some motion.moving_piece :=
      get_at_of_pairs (by simp) (Piece.undoes.get_put _ hpiece)
    have hsource : motion.to_json.get_at "source" Position.from_json = some motion.source :=
      get_at_of_pairs (by simp) (Position.undoes.get_put _ hsource)
    have hdestination : motion.to_json.get_at "destination" Position.from_json
        = some motion.destination :=
      get_at_of_pairs (by simp) (Position.undoes.get_put _ hdestination)
    have hkind : motion.to_json.get_at "kind" (read_named kMotionKindNames) = some motion.kind :=
      get_at_of_pairs (by simp) (undoes_motion_kind.get_put _ trivial)
    have hduration : motion.to_json.get_at "duration_ms" get_int = some motion.duration_ms :=
      get_at_of_pairs (by simp) (undoes_int.get_put _ hduration)
    have helapsed : motion.to_json.get_at "elapsed_ms" get_int = some motion.elapsed_ms :=
      get_at_of_pairs (by simp) (undoes_int.get_put _ helapsed)
    have hcooldown : motion.to_json.get_at "cooldown_ms" get_int = some motion.cooldown_ms :=
      get_at_of_pairs (by simp) (undoes_int.get_put _ hcooldown)
    unfold Motion.from_json
    rw [hpiece, hsource, hdestination, hkind, hduration, helapsed, hcooldown]
    rfl

/-- The fields that every event has. -/
def ArrivalEvent.fields (event : ArrivalEvent) : List (String × Json) := [
  ("moved_piece", event.moved_piece.to_json),
  ("source", event.source.to_json),
  ("destination", event.destination.to_json),
  ("kind", write_named kMotionKindNames event.kind),
  ("was_promotion", .boolean event.was_promotion),
  ("arrived_at_ms", .number event.arrived_at_ms)]

/-- A captured piece is a field if there is one. -/
theorem ArrivalEvent.at_to_json (event : ArrivalEvent) (key : String) :
    event.to_json.at_ key = if key = "captured_piece" then event.captured_piece.map Piece.to_json
      else event.fields.lookup key := by
  unfold ArrivalEvent.to_json
  cases hcaptured : event.captured_piece with
  | some captured => exact at_set_of_pairs event.fields "captured_piece" key captured.to_json
  | none =>
      refine (at_of_pairs event.fields key).trans ?_
      split_ifs with hkey
      · rw [hkey]
        simp [ArrivalEvent.fields]
      · rfl

theorem ArrivalEvent.get_at_to_json {α : Type} {event : ArrivalEvent} {key : String} {found : Json}
    {get : Json → Option α} {x : α} (hkey : key ≠ "captured_piece")
    (h : event.fields.lookup key = some found) (hget : get found = some x) :
    event.to_json.get_at key get = some x := by
  unfold Json.get_at
  rw [ArrivalEvent.at_to_json, if_neg hkey, h, Option.bind_some, hget]

/-- An arrival: whether something was captured is whether the field is there. -/
theorem ArrivalEvent.undoes :
    Undoes ArrivalEvent.to_json ArrivalEvent.from_json ArrivalEvent.Fits where
  well_formed event h := by
    obtain ⟨hpiece, hsource, hdestination, hcaptured, harrived⟩ := h
    have hfields : WellFormed (.of_pairs event.fields) := by
      refine .of_pairs ?_
      simp only [ArrivalEvent.fields, List.forall_mem_cons]
      exact ⟨Piece.undoes.well_formed _ hpiece, Position.undoes.well_formed _ hsource,
        Position.undoes.well_formed _ hdestination, .string _, .boolean _,
        undoes_long_long.well_formed _ harrived, by simp⟩
    unfold ArrivalEvent.to_json
    cases hsome : event.captured_piece with
    | some captured => exact hfields.set _ (Piece.undoes.well_formed _ (hcaptured captured hsome))
    | none => exact hfields
  get_put event h := by
    obtain ⟨hpiece, hsource, hdestination, hcaptured, harrived⟩ := h
    have hpiece : event.to_json.get_at "moved_piece" Piece.from_json = some event.moved_piece :=
      ArrivalEvent.get_at_to_json (by decide) (by simp [fields])
        (Piece.undoes.get_put _ hpiece)
    have hsource : event.to_json.get_at "source" Position.from_json = some event.source :=
      ArrivalEvent.get_at_to_json (by decide) (by simp [fields])
        (Position.undoes.get_put _ hsource)
    have hdestination : event.to_json.get_at "destination" Position.from_json
        = some event.destination :=
      ArrivalEvent.get_at_to_json (by decide) (by simp [fields])
        (Position.undoes.get_put _ hdestination)
    have hkind : event.to_json.get_at "kind" (read_named kMotionKindNames) = some event.kind :=
      ArrivalEvent.get_at_to_json (by decide) (by simp [fields])
        (undoes_motion_kind.get_put _ trivial)
    have hpromotion : event.to_json.get_at "was_promotion" get_bool = some event.was_promotion :=
      ArrivalEvent.get_at_to_json (by decide) (by simp [fields])
        (undoes_bool.get_put _ trivial)
    have harrived : event.to_json.get_at "arrived_at_ms" get_long_long
        = some event.arrived_at_ms :=
      ArrivalEvent.get_at_to_json (by decide) (by simp [fields])
        (undoes_long_long.get_put _ harrived)
    have hcaptured : event.to_json.get_optional "captured_piece" Piece.from_json
        = some event.captured_piece := by
      refine get_optional_of_at Piece.to_json ?_ ?_
      · rw [ArrivalEvent.at_to_json, if_pos rfl]
      · intro captured hsome
        exact Piece.undoes.get_put _ (hcaptured captured hsome)
    unfold ArrivalEvent.from_json
    rw [hpiece, hsource, hdestination, hkind, hpromotion, harrived, hcaptured]
    rfl

/-- A board, from its sizes and the list of its pieces. -/
theorem BoardSnapshot.undoes :
    Undoes BoardSnapshot.to_json BoardSnapshot.from_json BoardSnapshot.Fits where
  well_formed snapshot h := by
    obtain ⟨hwidth, hheight, hpieces⟩ := h
    refine .of_pairs ?_
    simp only [List.forall_mem_cons]
    exact ⟨undoes_int.well_formed _ hwidth, undoes_int.well_formed _ hheight,
      (undoes_array Piece.undoes).well_formed _ hpieces, by simp⟩
  get_put snapshot h := by
    obtain ⟨hwidth, hheight, hpieces⟩ := h
    have hwidth : snapshot.to_json.get_at "width" get_int = some snapshot.width :=
      get_at_of_pairs (by simp) (undoes_int.get_put _ hwidth)
    have hheight : snapshot.to_json.get_at "height" get_int = some snapshot.height :=
      get_at_of_pairs (by simp) (undoes_int.get_put _ hheight)
    have hpieces : snapshot.to_json.get_at "pieces" (get_array Piece.from_json)
        = some snapshot.pieces :=
      get_at_of_pairs (by simp) ((undoes_array Piece.undoes).get_put _ hpieces)
    unfold BoardSnapshot.from_json
    rw [hwidth, hheight, hpieces]
    rfl

/-! ## Messages -/

/-- Each message is told by its type. -/
theorem type_of_envelope (type : String) (payload : Json) :
    type_of (envelope type payload) = some type :=
  get_at_of_pairs (by simp) (undoes_string.get_put _ trivial)

theorem payload_of_envelope (type : String) (payload : Json) :
    (envelope type payload).at_ "payload" = some payload := by
  simp [envelope]

theorem envelope_well_formed {payload : Json} (h : WellFormed payload) (type : String) :
    WellFormed (envelope type payload) := by
  refine .of_pairs ?_
  simp only [List.forall_mem_cons]
  exact ⟨.string type, h, by simp⟩

theorem empty_object_well_formed : WellFormed empty_object := .of_pairs (by simp)

/-- A payload that is one text. -/
theorem get_text {key text : String} :
    (Json.of_pairs [(key, .string text)]).get_at key get_string = some text :=
  get_at_of_pairs (by simp) (undoes_string.get_put _ trivial)

theorem text_well_formed (key text : String) : WellFormed (.of_pairs [(key, .string text)]) := by
  refine .of_pairs ?_
  simp only [List.forall_mem_cons]
  exact ⟨.string text, by simp⟩

/-- **Every message to the server is read back.** -/
theorem ClientMessage.undoes :
    Undoes ClientMessage.to_json ClientMessage.from_json ClientMessage.Fits where
  well_formed m h := by
    cases m with
    | Login username password =>
        refine envelope_well_formed (.of_pairs ?_) _
        simp only [List.forall_mem_cons]
        exact ⟨.string _, .string _, by simp⟩
    | MoveRequest source destination =>
        refine envelope_well_formed (.of_pairs ?_) _
        simp only [List.forall_mem_cons]
        exact ⟨Position.undoes.well_formed _ h.1, Position.undoes.well_formed _ h.2, by simp⟩
    | JumpRequest cell =>
        refine envelope_well_formed (.of_pairs ?_) _
        simp only [List.forall_mem_cons]
        exact ⟨Position.undoes.well_formed _ h, by simp⟩
    | JoinRoom name => exact envelope_well_formed (text_well_formed _ _) _
    | Resign => exact envelope_well_formed empty_object_well_formed _
    | Play => exact envelope_well_formed empty_object_well_formed _
    | CreateRoom => exact envelope_well_formed empty_object_well_formed _
  get_put m h := by
    unfold ClientMessage.from_json ClientMessage.to_json
    cases m with
    | Login username password =>
        have husername : (Json.of_pairs [("username", .string username),
            ("password", .string password)]).get_at "username" get_string = some username :=
          get_at_of_pairs (by simp) (undoes_string.get_put _ trivial)
        have hpassword : (Json.of_pairs [("username", .string username),
            ("password", .string password)]).get_at "password" get_string = some password :=
          get_at_of_pairs (by simp) (undoes_string.get_put _ trivial)
        simp [type_of_envelope, payload_of_envelope, husername, hpassword]
    | MoveRequest source destination =>
        have hsource : (Json.of_pairs [("source", source.to_json),
            ("destination", destination.to_json)]).get_at "source" Position.from_json
              = some source :=
          get_at_of_pairs (by simp) (Position.undoes.get_put _ h.1)
        have hdestination : (Json.of_pairs [("source", source.to_json),
            ("destination", destination.to_json)]).get_at "destination" Position.from_json
              = some destination :=
          get_at_of_pairs (by simp) (Position.undoes.get_put _ h.2)
        simp [type_of_envelope, payload_of_envelope, hsource, hdestination]
    | JumpRequest cell =>
        have hcell : (Json.of_pairs [("cell", cell.to_json)]).get_at "cell" Position.from_json
            = some cell := get_at_of_pairs (by simp) (Position.undoes.get_put _ h)
        simp [type_of_envelope, payload_of_envelope, hcell]
    | JoinRoom name => simp [type_of_envelope, payload_of_envelope, get_text]
    | Resign => simp [type_of_envelope, payload_of_envelope]
    | Play => simp [type_of_envelope, payload_of_envelope]
    | CreateRoom => simp [type_of_envelope, payload_of_envelope]

/-- A `Welcome`, field by field: no default is used on what the server has written. -/
theorem Welcome.undoes : Undoes Welcome.to_json Welcome.from_json Welcome.Fits where
  well_formed m h := by
    obtain ⟨hboard, hhistory, hrevision, hwhite, hblack⟩ := h
    refine .of_pairs ?_
    simp only [List.forall_mem_cons]
    exact ⟨.string _, BoardSnapshot.undoes.well_formed _ hboard, .boolean _, .string _,
      (undoes_array ArrivalEvent.undoes).well_formed _ hhistory,
      undoes_uint64.well_formed _ hrevision, .string _, .string _,
      undoes_int.well_formed _ hwhite, undoes_int.well_formed _ hblack, by simp⟩
  get_put m h := by
    obtain ⟨hboard, hhistory, hrevision, hwhite, hblack⟩ := h
    have hcolor : m.to_json.get_at "assigned_color" (read_named kPieceColorNames)
        = some m.assigned_color :=
      get_at_of_pairs (by simp) (undoes_color.get_put _ trivial)
    have hboard : m.to_json.get_at "board" BoardSnapshot.from_json = some m.board :=
      get_at_of_pairs (by simp) (BoardSnapshot.undoes.get_put _ hboard)
    have hspectator : m.to_json.value "spectator" get_bool false = some m.spectator :=
      value_of_pairs (by simp) (undoes_bool.get_put _ trivial)
    have hroom : m.to_json.value "room" get_string "" = some m.room :=
      value_of_pairs (by simp) (undoes_string.get_put _ trivial)
    have hhistory : m.to_json.get_optional "history" (get_array ArrivalEvent.from_json)
        = some (some m.history) := by
      refine get_optional_of_at (fun events => .array (events.map ArrivalEvent.to_json)) ?_ ?_
      · refine (at_of_pairs _ _).trans ?_
        simp
      · intro events hevents
        obtain rfl := Option.some.inj hevents
        exact (undoes_array ArrivalEvent.undoes).get_put _ hhistory
    have hrevision : m.to_json.value "revision" get_uint64 0 = some m.revision :=
      value_of_pairs (by simp) (undoes_uint64.get_put _ hrevision)
    have hwhite_name : m.to_json.value "white_username" get_string "" = some m.white_username :=
      value_of_pairs (by simp) (undoes_string.get_put _ trivial)
    have hblack_name : m.to_json.value "black_username" get_string "" = some m.black_username :=
      value_of_pairs (by simp) (undoes_string.get_put _ trivial)
    have hwhite : m.to_json.value "white_rating" get_int 0 = some m.white_rating :=
      value_of_pairs (by simp) (undoes_int.get_put _ hwhite)
    have hblack : m.to_json.value "black_rating" get_int 0 = some m.black_rating :=
      value_of_pairs (by simp) (undoes_int.get_put _ hblack)
    unfold Welcome.from_json
    rw [hcolor, hboard, hspectator, hroom, hhistory, hrevision, hwhite_name,
      hblack_name, hwhite, hblack]
    rfl

theorem BoardUpdate.undoes : Undoes BoardUpdate.to_json BoardUpdate.from_json BoardUpdate.Fits where
  well_formed m h := by
    refine .of_pairs ?_
    simp only [List.forall_mem_cons]
    exact ⟨(undoes_array ArrivalEvent.undoes).well_formed _ h.1, undoes_uint64.well_formed _ h.2,
      by simp⟩
  get_put m h := by
    have hevents : m.to_json.get_at "arrival_events" (get_array ArrivalEvent.from_json)
        = some m.arrival_events :=
      get_at_of_pairs (by simp) ((undoes_array ArrivalEvent.undoes).get_put _ h.1)
    have hrevision : m.to_json.value "revision" get_uint64 0 = some m.revision :=
      value_of_pairs (by simp) (undoes_uint64.get_put _ h.2)
    unfold BoardUpdate.from_json
    rw [hevents, hrevision]
    rfl

theorem MatchStart.undoes : Undoes MatchStart.to_json MatchStart.from_json MatchStart.Fits where
  well_formed m h := by
    refine .of_pairs ?_
    simp only [List.forall_mem_cons]
    exact ⟨.string _, .string _, undoes_int.well_formed _ h.1, undoes_int.well_formed _ h.2,
      by simp⟩
  get_put m h := by
    have hwhite_name : m.to_json.value "white_username" get_string "" = some m.white_username :=
      value_of_pairs (by simp) (undoes_string.get_put _ trivial)
    have hblack_name : m.to_json.value "black_username" get_string "" = some m.black_username :=
      value_of_pairs (by simp) (undoes_string.get_put _ trivial)
    have hwhite : m.to_json.value "white_rating" get_int 0 = some m.white_rating :=
      value_of_pairs (by simp) (undoes_int.get_put _ h.1)
    have hblack : m.to_json.value "black_rating" get_int 0 = some m.black_rating :=
      value_of_pairs (by simp) (undoes_int.get_put _ h.2)
    unfold MatchStart.from_json
    rw [hwhite_name, hblack_name, hwhite, hblack]
    rfl

/-- A winner is a field if there is one. -/
theorem get_winner (winner : Option PieceColor) :
    (write_winner winner).get_optional "winner" (read_named kPieceColorNames) = some winner := by
  refine get_optional_of_at (write_named kPieceColorNames) ?_ ?_
  · cases winner with
    | none => exact (at_of_pairs [] "winner").trans rfl
    | some color => exact (at_set_of_pairs [] "winner" "winner" _).trans (if_pos rfl)
  · intro color _
    exact undoes_color.get_put color trivial

/-- **Every message to a client is read back.** -/
theorem ServerMessage.undoes :
    Undoes ServerMessage.to_json ServerMessage.from_json ServerMessage.Fits where
  well_formed m h := by
    cases m with
    | Welcome m => exact envelope_well_formed (Welcome.undoes.well_formed _ h) _
    | BoardUpdate m => exact envelope_well_formed (BoardUpdate.undoes.well_formed _ h) _
    | MatchStart m => exact envelope_well_formed (MatchStart.undoes.well_formed _ h) _
    | MotionStarted motion =>
        refine envelope_well_formed (.of_pairs ?_) _
        simp only [List.forall_mem_cons]
        exact ⟨Motion.undoes.well_formed _ h, by simp⟩
    | GameOver winner =>
        refine envelope_well_formed ?_ _
        cases winner with
        | none => exact empty_object_well_formed
        | some color => exact empty_object_well_formed.set _ (.string _)
    | OpponentDisconnected seconds_remaining =>
        refine envelope_well_formed (.of_pairs ?_) _
        simp only [List.forall_mem_cons]
        exact ⟨undoes_int.well_formed _ h, by simp⟩
    | MoveRejected reason => exact envelope_well_formed (text_well_formed _ _) _
    | JoinFailed reason => exact envelope_well_formed (text_well_formed _ _) _
    | JoinRedirect url => exact envelope_well_formed (text_well_formed _ _) _
    | LoginFailed reason => exact envelope_well_formed (text_well_formed _ _) _
    | OpponentReconnected => exact envelope_well_formed empty_object_well_formed _
  get_put m h := by
    unfold ServerMessage.from_json ServerMessage.to_json
    cases m with
    | Welcome m =>
        have hwelcome := Welcome.undoes.get_put m h
        simp [type_of_envelope, payload_of_envelope, hwelcome]
    | BoardUpdate m =>
        have hupdate := BoardUpdate.undoes.get_put m h
        simp [type_of_envelope, payload_of_envelope, hupdate]
    | MatchStart m =>
        have hstart := MatchStart.undoes.get_put m h
        simp [type_of_envelope, payload_of_envelope, hstart]
    | MotionStarted motion =>
        have hmotion : (Json.of_pairs [("motion", motion.to_json)]).get_at "motion"
            Motion.from_json = some motion :=
          get_at_of_pairs (by simp) (Motion.undoes.get_put _ h)
        simp [type_of_envelope, payload_of_envelope, hmotion]
    | GameOver winner => simp [type_of_envelope, payload_of_envelope, get_winner]
    | OpponentDisconnected seconds_remaining =>
        have hseconds : (Json.of_pairs [("seconds_remaining", .number seconds_remaining)]).get_at
            "seconds_remaining" get_int = some seconds_remaining :=
          get_at_of_pairs (by simp) (undoes_int.get_put _ h)
        simp [type_of_envelope, payload_of_envelope, hseconds]
    | MoveRejected reason => simp [type_of_envelope, payload_of_envelope, get_text]
    | JoinFailed reason => simp [type_of_envelope, payload_of_envelope, get_text]
    | JoinRedirect url => simp [type_of_envelope, payload_of_envelope, get_text]
    | LoginFailed reason => simp [type_of_envelope, payload_of_envelope, get_text]
    | OpponentReconnected => simp [type_of_envelope, payload_of_envelope]

/-! ## Text -/

/-- The parser is sound for the writer: it reads back every value in range. -/
def ParsesWhatIsDumped (dump : Json → String) (parse : String → Option Json) : Prop :=
  ∀ j, WellFormed j → parse (dump j) = some j

/-- A text that is not too long is parsed to what was dumped, and read to what was
written. -/
theorem read_back {α : Type} {put : α → Json} {get : Json → Option α} {Fits : α → Prop}
    {dump : Json → String} {parse : String → Option Json} (hjson : ParsesWhatIsDumped dump parse)
    (h : Undoes put get Fits) {x : α} (hx : Fits x)
    (hsize : (dump (put x)).utf8ByteSize ≤ kMaxMessageBytes) :
    parse_envelope parse (dump (put x)) >>= get = some x := by
  unfold parse_envelope
  rw [if_neg (Nat.not_lt.mpr hsize), hjson _ (h.well_formed x hx)]
  exact h.get_put x hx

/-- **What is sent is what is read**, for every message in either direction whose
numbers are values of their types and whose text is not too long. -/
theorem decode_encode {dump : Json → String} {parse : String → Option Json}
    (hjson : ParsesWhatIsDumped dump parse) :
    (∀ m : ClientMessage, m.Fits → (m.encode dump).utf8ByteSize ≤ kMaxMessageBytes →
      decode_client_message parse (m.encode dump) = some m) ∧
    ∀ m : ServerMessage, m.Fits → (m.encode dump).utf8ByteSize ≤ kMaxMessageBytes →
      decode_server_message parse (m.encode dump) = some m := by
  constructor
  · intro m hfits hsize
    exact read_back hjson ClientMessage.undoes hfits hsize
  · intro m hfits hsize
    exact read_back hjson ServerMessage.undoes hfits hsize

set_option maxRecDepth 4000 in
/-- A move, and the capture by a jumper that followed it, at the last revision there is. -/
theorem decode_encode_a_capture :
    let move := ClientMessage.MoveRequest ⟨6, 4⟩ ⟨4, 4⟩
    let pawn : Piece := ⟨⟨12⟩, .White, .Pawn, ⟨4, 4⟩, .Captured, true⟩
    let knight : Piece := ⟨⟨3⟩, .Black, .Knight, ⟨4, 4⟩, .Idle, false⟩
    let update := ServerMessage.BoardUpdate
      ⟨[⟨knight, ⟨4, 4⟩, ⟨4, 4⟩, some pawn, .JumpInPlace, false, -2⟩], 2 ^ 64 - 1⟩
    decode_client_message read_text (move.encode text) = some move ∧
      decode_server_message read_text (update.encode text) = some update := by
  have hjson : ParsesWhatIsDumped text read_text := fun _ hj => read_text_text hj
  have hboth := decode_encode hjson
  refine ⟨hboth.1 _ ?_ ?_, hboth.2 _ ?_ ?_⟩
  · simp [ClientMessage.Fits, Position.Fits, FitsSigned]
  · simp only [ClientMessage.encode, utf8ByteSize_text]
    decide
  · simp [ServerMessage.Fits, BoardUpdate.Fits, ArrivalEvent.Fits, Piece.Fits, Position.Fits,
      FitsSigned, FitsUnsigned]
  · simp only [ServerMessage.encode, utf8ByteSize_text]
    decide

end KungFuChess
