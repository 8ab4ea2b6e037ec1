/-
**Every match is a game.**

Three machines stand on one another: the sessions call the rooms, the rooms call
their matches, and a match calls its engine. Each is simulated by the one below, so
whatever the clients send, the engine of every match has got where it is by a run of
its own, and the history of the match is what that run has put out. What is proved
of the runs of the engine therefore holds in every match of a server.

For the same reason no step of a server fails: a match that is a game on a parsed
board ticks without an exception, and whom matchmaking finds is there.
-/
import KungFuChess.Authority
import KungFuChess.Reaping
import KungFuChess.Representation
import KungFuChess.Routing

set_option autoImplicit false

namespace KungFuChess

open Machine

/-! ## A match and its engine -/

namespace Match

/-- What a call does to the engine, it does by commands of the engine, and what these
put out is what the call records. -/
theorem exec_engine {m m' : Match} {call : Call} {os : List MatchEvent}
    (h : exec m call = .ok (m', os)) :
    ∃ cmds events, run GameEngine.exec m.engine cmds = .ok (m'.engine, events) ∧
      m'.history = m.history ++ events := by
  obtain ⟨now, elapsed_ms, rfl⟩ | hcall := tick_or_not call
  · obtain ⟨m₁, answers, events, hadv, rfl, -⟩ := tick_ok h
    have hspec := advance_board_spec hadv
    obtain ⟨cmds, hrun⟩ := hspec.engine
    rw [(announce_announced m₁ now events m₁.revision).rest]
    refine ⟨cmds, events, hrun, ?_⟩
    rw [hspec.rest]
  · rw [call_frame hcall h]
    exact ⟨[], [], rfl, (List.append_nil _).symm⟩

/-- **A match is a game**: its history is the trace of a run of its engine. -/
theorem engine_of_reach {board : Board} {config : MotionFactory} {on_result : Bool}
    {disconnect_grace_ms release_delay_ms : Int} {room_name : String} {m : Match}
    {tr : List MatchEvent} (hrun : Reach exec anyStep
      (new board config on_result disconnect_grace_ms release_delay_ms room_name) m tr) :
    Reach GameEngine.exec anyStep (.new config board) m.engine m.history := by
  obtain ⟨g, events, hgame, rfl, rfl⟩ := hrun.simulated GameEngine.exec
    (.new config board) (R := fun m _ g events => m.engine = g ∧ m.history = events) ⟨rfl, rfl⟩ (by
      rintro m tr call m' os g events ⟨rfl, rfl⟩ - hexec
      obtain ⟨cmds, later, hcmds, hhistory⟩ := exec_engine hexec
      exact ⟨cmds, _, later, hcmds, rfl, hhistory⟩)
  exact hgame

/-- **A tick does not fail** on a sound game. -/
theorem tick_total {m : Match} (hs : m.engine.Sound) (now : Int) (elapsed_ms : Nat) :
    ∃ r, m.tick now elapsed_ms = .ok r := by
  obtain ⟨⟨m₁, answers, events⟩, hadv⟩ := advance_board_total hs elapsed_ms
  unfold tick
  rw [hadv]
  exact ⟨_, rfl⟩

end Match

/-! ## The rooms and their matches -/

namespace RoomManager

variable {s : RoomManager}

theorem with_match_total {id : RoomId}
    {part : Match → Except RoomError (RoomManager × List RoomEvent)}
    (h : ∀ m, s.match_of id = some m → ∃ r, part m = .ok r) :
    ∃ r, s.with_match id part = .ok r := by
  unfold with_match
  cases hm : s.match_of id with
  | none => exact ⟨_, rfl⟩
  | some m => exact h m hm

/-- Joining a match of a room that is there does not fail. -/
theorem join_match_total (id : RoomId) (username : String) (rating : Int) (connection : Connection)
    (seated refused : RoomManager → Seat → RoomManager × List RoomEvent) :
    ∃ r, s.join_match id username rating connection seated refused = .ok r := by
  refine with_match_total fun m _ => ?_
  dsimp only
  split <;> exact ⟨_, rfl⟩

/-- The rest of a call does not fail, whatever has come in between. -/
theorem resume_total (s : RoomManager) (p : Pending) : ∃ r, s.resume p = .ok r := by
  cases p with
  | join_any id username rating connection =>
      rw [resume]
      exact join_match_total ..
  | create_room id key username rating connection =>
      rw [resume]
      exact join_match_total ..
  | join id username rating connection =>
      rw [resume]
      exact join_match_total ..
  | register_room key seat => exact ⟨_, rfl⟩
  | forget_room name => exact ⟨_, rfl⟩
  | undo_join_any id =>
      rw [resume]
      split
      · exact ⟨_, rfl⟩
      · dsimp only
        split_ifs <;> exact ⟨_, rfl⟩
  | owner_of name =>
      rw [resume]
      split <;> exact ⟨_, rfl⟩
  | reconnect id color connection =>
      rw [resume]
      refine with_match_total fun m _ => ?_
      dsimp only
      split_ifs <;> exact ⟨_, rfl⟩
  | join_spectator id connection =>
      rw [resume]
      refine with_match_total fun m _ => ?_
      dsimp only
      split_ifs <;> exact ⟨_, rfl⟩
  | give_back id reason =>
      rw [resume]
      split <;> exact ⟨_, rfl⟩
  | enqueue id source message =>
      rw [resume]
      exact with_match_total fun m _ => ⟨_, rfl⟩
  | leave seat =>
      rw [resume]
      exact with_match_total fun m _ => ⟨_, rfl⟩
  | reap id =>
      rw [resume]
      split
      · exact ⟨_, rfl⟩
      · dsimp only
        split_ifs <;> exact ⟨_, rfl⟩
  | unschedule id name =>
      rw [resume]
      dsimp only
      split_ifs <;> exact ⟨_, rfl⟩

/-- With exact indexes and sound games **no step of the rooms fails**. -/
theorem exec_total (hrouted : Routed s) (hsound : ∀ id m, s.match_of id = some m → m.engine.Sound)
    (op : Op) : ∃ r, exec s op = .ok r := by
  cases op with
  | join_any username rating connection => exact hrouted.start_join_any username rating connection
  | create_room key username rating connection =>
      rw [exec]
      split_ifs <;> exact ⟨_, rfl⟩
  | join_room name username rating connection =>
      rw [exec]
      split
      · unfold start_join_found
        split
        · exact ⟨_, rfl⟩
        · refine with_match_total fun m _ => ?_
          -- over, or joined in one of the three ways
          split_ifs
          · exact ⟨_, rfl⟩
          · split <;> exact ⟨_, rfl⟩
          · split <;> exact ⟨_, rfl⟩
      · split_ifs <;> exact ⟨_, rfl⟩
  | enqueue id source message =>
      rw [exec]
      split <;> exact ⟨_, rfl⟩
  | on_disconnect seat =>
      rw [exec]
      split_ifs
      · dsimp only
        split <;> exact ⟨_, rfl⟩
      · exact ⟨_, rfl⟩
  | proceed call =>
      rw [exec]
      split
      · exact ⟨_, rfl⟩
      · exact resume_total _ _
  | tick id now elapsed_ms =>
      rw [exec]
      split_ifs
      · refine with_match_total fun m hm => ?_
        obtain ⟨r, htick⟩ := Match.tick_total (hsound id m hm) now elapsed_ms
        rw [htick]
        exact ⟨_, rfl⟩
      · exact ⟨_, rfl⟩
  | directory_changes name owner => exact ⟨_, rfl⟩

/-- The match of a room is a game on the board the factory made for it. -/
theorem match_of_reach {board_factory : RoomId → Board} {config : MotionFactory}
    {on_result : Bool} {disconnect_grace_ms : Int} {directory : Option (String → Option String)}
    {self_url : String} {tr : List RoomEvent}
    (hrun : Reach exec anyStep
      (new board_factory config on_result disconnect_grace_ms directory self_url) s tr)
    {id : RoomId} {m : Match} (hm : s.match_of id = some m) :
    Reach Match.exec anyStep (Match.new (board_factory id) config on_result disconnect_grace_ms
      kDefaultReleaseDelayMs m.room_name) m (events_of id tr) := by
  have hnew := accounted_new board_factory config on_result disconnect_grace_ms directory self_url
  have hplayed := (played_of_reach hnew (fun _ => rfl) hrun id).1 m hm
  rw [new_match_of_reach hnew hrun] at hplayed
  exact hplayed

end RoomManager

/-! ## The server and its rooms -/

namespace Server

variable {parse : String → Option Json} {input : Op} {s s' : Server} {os : List ServerEvent}

/-- What the rooms do, among what a server does. -/
def events_of_rooms (os : List ServerEvent) : List RoomEvent :=
  os.filterMap fun
    | .of_rooms event => some event
    | _ => none

theorem events_of_rooms_append (os os' : List ServerEvent) :
    events_of_rooms (os ++ os') = events_of_rooms os ++ events_of_rooms os' :=
  List.filterMap_append

theorem events_of_rooms_map (os : List RoomEvent) :
    events_of_rooms (os.map .of_rooms) = os := by
  unfold events_of_rooms
  rw [List.filterMap_map]
  exact List.filterMap_some

theorem events_of_rooms_hushed (h : Hushed os) : events_of_rooms os = [] := by
  refine List.filterMap_eq_nil_iff.mpr fun e he => ?_
  have hsilent := h e he
  cases e with
  | of_rooms event => exact hsilent.elim
  | _ => rfl

theorem events_of_rooms_settled {i : SessionId} {a a' : ClientSession} {answer : Option Answer}
    (h : Settled i a a' answer os) : events_of_rooms os = [] := by
  rcases h with ⟨-, hquiet⟩ | ⟨seat, -, -, -, rfl⟩
  · exact events_of_rooms_hushed hquiet
  · rfl

theorem events_of_rooms_deliveries (s : Server) (i : SessionId) (call : Nat) :
    events_of_rooms (s.deliveries i call) = [] := by
  unfold deliveries
  split
  · split_ifs <;> rfl
  · rfl

/-- A step of a server is a step of its rooms, or none. -/
theorem exec_rooms (h : exec parse s input = .ok (s', os)) :
    ∃ ops, run RoomManager.exec s.rooms ops = .ok (s'.rooms, events_of_rooms os) := by
  cases exec_does h with
  | nothing hushed =>
      rw [events_of_rooms_hushed hushed]
      exact ⟨[], rfl⟩
  | connects connection => exact ⟨[], rfl⟩
  | leases op => exact ⟨[], rfl⟩
  | acts here acts alone same hushed =>
      rw [events_of_rooms_hushed hushed]
      exact ⟨[], rfl⟩
  | rooms exec other =>
      rw [events_of_rooms_map]
      exact ⟨_, run_singleton exec⟩
  | answered here asks exec at_once acts settled =>
      rw [events_of_rooms_append, events_of_rooms_settled settled, List.append_nil]
      refine ⟨_, (run_singleton exec).trans ?_⟩
      exact congrArg _ (congrArg _ (events_of_rooms_map _).symm)
  | began here asks exec pending acts same busy =>
      refine ⟨_, (run_singleton exec).trans ?_⟩
      exact congrArg _ (congrArg _ (events_of_rooms_map _).symm)
  | waits caller here exec pending =>
      rw [events_of_rooms_append, events_of_rooms_deliveries, List.nil_append, events_of_rooms_map]
      exact ⟨_, run_singleton exec⟩
  | comes_back caller here exec finished acts returned settled =>
      rw [events_of_rooms_append, events_of_rooms_append, events_of_rooms_deliveries,
        events_of_rooms_settled settled, List.nil_append, List.append_nil, events_of_rooms_map]
      exact ⟨_, run_singleton exec⟩

/-- **The rooms of a server** have run as rooms by themselves do. -/
theorem rooms_of_reach {rooms : RoomManager} {tr : List ServerEvent}
    (hrun : Reach (exec parse) anyStep (new rooms) s tr) :
    Reach RoomManager.exec anyStep rooms s.rooms (events_of_rooms tr) := by
  obtain ⟨r, events, hrooms, rfl, rfl⟩ := hrun.simulated RoomManager.exec rooms
    (R := fun s tr r events => s.rooms = r ∧ events_of_rooms tr = events) ⟨rfl, rfl⟩ (by
      rintro s tr input s' os r events ⟨rfl, rfl⟩ - hexec
      obtain ⟨ops, hops⟩ := exec_rooms hexec
      exact ⟨ops, _, _, hops, rfl, events_of_rooms_append tr os⟩)
  exact hrooms

/-! ## No step of a server fails -/

theorem with_session_total {i : SessionId}
    {call : ClientSession → Except RoomError (Server × List ServerEvent)}
    (h : ∀ a, ∃ r, call a = .ok r) : ∃ r, s.with_session i call = .ok r := by
  unfold with_session
  split
  · exact ⟨_, rfl⟩
  · exact h _

section Total

-- as long as the rooms do not fail
variable (hrooms : ∀ op, ∃ r, RoomManager.exec s.rooms op = .ok r)
include hrooms

/-- Whatever is asked of the rooms, they do not fail. -/
theorem rooms_step_total (op : RoomManager.Op) : ∃ r, s.rooms_step op = .ok r :=
  bind_total (hrooms op) fun _ _ => ⟨_, rfl⟩

theorem call_rooms_total (i : SessionId) (op : RoomManager.Op) (busy : ClientSession)
    (finish : Server → Option Answer → Server × List ServerEvent) :
    ∃ r, s.call_rooms i op busy finish = .ok r := by
  refine bind_total (hrooms op) fun r _ => ?_
  dsimp only
  split_ifs <;> exact ⟨_, rfl⟩

theorem handle_seating_total (i : SessionId) (a : ClientSession) (message : ClientMessage)
    (outside : Outside) : ∃ r, s.handle_seating i a message outside = .ok r := by
  unfold handle_seating
  split
  · exact ⟨_, rfl⟩
  · split_ifs
    · exact ⟨_, rfl⟩
    · split
      · exact ⟨_, rfl⟩
      · exact call_rooms_total hrooms ..
    · exact ⟨_, rfl⟩

theorem handle_gameplay_total (i : SessionId) (a : ClientSession) (message : ClientMessage) :
    ∃ r, s.handle_gameplay i a message = .ok r := by
  unfold handle_gameplay
  split
  · exact ⟨_, rfl⟩
  · split_ifs
    · exact ⟨_, rfl⟩
    · exact call_rooms_total hrooms ..

/-- Whatever message a client sends, it is handled. -/
theorem handle_total (i : SessionId) (a : ClientSession) (message : ClientMessage)
    (outside : Outside) : ∃ r, s.handle i a message outside = .ok r := by
  cases message with
  | Login username password => exact ⟨_, rfl⟩
  | CreateRoom =>
      unfold handle
      split_ifs
      · exact handle_seating_total hrooms ..
      · exact ⟨_, rfl⟩
  | Play =>
      unfold handle
      exact handle_seating_total hrooms ..
  | JoinRoom name =>
      unfold handle
      exact handle_seating_total hrooms ..
  | MoveRequest source destination =>
      unfold handle
      exact handle_gameplay_total hrooms ..
  | JumpRequest cell =>
      unfold handle
      exact handle_gameplay_total hrooms ..
  | Resign =>
      unfold handle
      exact handle_gameplay_total hrooms ..

/-- Whatever text. -/
theorem on_text_total (parse : String → Option Json) (i : SessionId) (a : ClientSession)
    (text : String) (outside : Outside) : ∃ r, s.on_text parse i a text outside = .ok r := by
  unfold on_text
  split_ifs
  · exact ⟨_, rfl⟩
  · dsimp only
    split_ifs
    · exact ⟨_, rfl⟩
    · split
      · exact ⟨_, rfl⟩
      · exact handle_total hrooms ..

theorem on_close_total (i : SessionId) (a : ClientSession) : ∃ r, s.on_close i a = .ok r := by
  unfold on_close
  split
  · exact ⟨_, rfl⟩
  · exact call_rooms_total hrooms ..

theorem proceed_total (call : Nat) (i : SessionId) (a : ClientSession) :
    ∃ r, s.proceed call i a = .ok r := by
  refine bind_total (hrooms (.proceed call)) fun r _ => ?_
  dsimp only
  split_ifs <;> exact ⟨_, rfl⟩

/-- The server fails only where its rooms do. -/
theorem exec_total (parse : String → Option Json) (input : Op) :
    ∃ r, exec parse s input = .ok r := by
  cases input with
  | connect connection => exact ⟨_, rfl⟩
  | on_text i text outside =>
      refine with_session_total fun a => ?_
      split_ifs
      · exact on_text_total hrooms ..
      · exact ⟨_, rfl⟩
  | on_close i =>
      refine with_session_total fun a => ?_
      split_ifs
      · exact on_close_total hrooms ..
      · exact ⟨_, rfl⟩
  | destroy i =>
      refine with_session_total fun a => ?_
      split_ifs <;> exact ⟨_, rfl⟩
  | go_on i left => exact with_session_total fun a => ⟨_, rfl⟩
  | proceed call =>
      rw [exec]
      split
      · exact ⟨_, rfl⟩
      · exact with_session_total fun a => proceed_total hrooms ..
  | tick room now elapsed_ms => exact rooms_step_total hrooms _
  | directory_changes name owner => exact rooms_step_total hrooms _
  | lease op => exact ⟨_, rfl⟩

end Total

/-! ## The results -/

section Results

variable {board_factory : RoomId → Board} {config : MotionFactory} {on_result : Bool}
  {disconnect_grace_ms : Int} {directory : Option (String → Option String)} {self_url : String}
  {tr : List ServerEvent}

/-- **Every match is a game.** Whatever sessions, rooms and matches have done, a match of
the server has run as a match by itself does, its engine has run as an engine by itself
does, from the board the factory made, and the history of the match is what this run of the
engine has put out. If the board was parsed, it and the motions on it agree. -/
theorem hosts_games (hrun : Reach (exec parse) anyStep (new (.new board_factory config on_result
      disconnect_grace_ms directory self_url)) s tr)
    (id : RoomId) (m : Match) (hm : s.rooms.match_of id = some m) :
    Reach Match.exec anyStep (Match.new (board_factory id) config on_result disconnect_grace_ms
      kDefaultReleaseDelayMs m.room_name) m (RoomManager.events_of id (events_of_rooms tr)) ∧
    Reach GameEngine.exec anyStep (.new config (board_factory id)) m.engine m.history ∧
    ∀ board_lines, KungFuChess.parse board_lines = .ok (board_factory id) → m.engine.Sound := by
  have hmatch := RoomManager.match_of_reach (rooms_of_reach hrun) hm
  have hgame := Match.engine_of_reach hmatch
  exact ⟨hmatch, hgame, fun board_lines hparse => sound_of_reach (fresh_of_parse hparse) hgame⟩

/-- **No step of a server fails**: no text a client sends, no close, and no order in which
calls, ticks and the directory go on, brings the board of a match to throw, or the rooms to
look for a room that is gone. -/
theorem never_fails (hboards : ∀ id, ∃ board_lines, KungFuChess.parse board_lines
      = .ok (board_factory id))
    (hrun : Reach (exec parse) anyStep (new (.new board_factory config on_result
      disconnect_grace_ms directory self_url)) s tr)
    (input : Op) : ∃ r, exec parse s input = .ok r := by
  have hrooms := rooms_of_reach hrun
  obtain ⟨hacc, hlisted⟩ := RoomManager.listed_of_reach hrooms
  refine exec_total (RoomManager.exec_total (hacc.routed hlisted) fun id m hm => ?_) parse input
  obtain ⟨board_lines, hparse⟩ := hboards id
  exact sound_of_reach (fresh_of_parse hparse)
    (Match.engine_of_reach (RoomManager.match_of_reach hrooms hm))

/-- Alice's game, when her jump has come to it and it has ticked. -/
theorem hosts_the_game_of_alice : ∃ s tr m,
    run (exec parse_alice) (new (.new (fun _ => three_on_a_row) shipped_factory true 20000 none ""))
      (alice_jumps ++ [.proceed 0, .tick 1 0 16]) = .ok (s, tr) ∧
    s.rooms.match_of 1 = some m ∧
    Reach GameEngine.exec anyStep (.new shipped_factory three_on_a_row) m.engine m.history ∧
    m.engine.Sound := by
  obtain ⟨⟨s, tr⟩, hrun, hseen⟩ := exists_ok_such (p := fun r => (r.1.rooms.match_of 1).isSome)
    (x := run (exec parse_alice)
      (new (.new (fun _ => three_on_a_row) shipped_factory true 20000 none ""))
      (alice_jumps ++ [.proceed 0, .tick 1 0 16])) (by decide)
  obtain ⟨m, hm⟩ := Option.isSome_iff_exists.mp hseen
  obtain ⟨-, hgame, hsound⟩ := hosts_games (reach_of_run hrun) 1 m hm
  exact ⟨s, tr, m, hrun, hm, hgame, hsound _ parse_three_on_a_row⟩

/-- The same game, and whatever comes next. -/
theorem never_fails_with_alice : ∃ s tr,
    run (exec parse_alice) (new (.new (fun _ => three_on_a_row) shipped_factory true 20000 none ""))
      (alice_jumps ++ [.proceed 0, .tick 1 0 16]) = .ok (s, tr) ∧
    ∀ input, ∃ r, exec parse_alice s input = .ok r := by
  obtain ⟨⟨s, tr⟩, hrun⟩ := exists_ok (x := run (exec parse_alice)
      (new (.new (fun _ => three_on_a_row) shipped_factory true 20000 none ""))
      (alice_jumps ++ [.proceed 0, .tick 1 0 16])) (by decide)
  exact ⟨s, tr, hrun, never_fails (fun _ => ⟨_, parse_three_on_a_row⟩) (reach_of_run hrun)⟩

end Results

end Server

end KungFuChess
