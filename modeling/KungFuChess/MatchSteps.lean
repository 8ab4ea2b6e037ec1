/-
**What a step of a match can do**: one spec for each phase of `tick`.

The critical section is described by `BoardAdvanced`: it empties the queue, takes
the engine through a run whose events are what it appends to the history, and, if
a resignation was queued, latches the end of the game without announcing it. The
announcements change no board. Later files argue from these descriptions and
leave `apply` and `tick` folded.
-/
import KungFuChess.Match
import KungFuChess.Runs

set_option autoImplicit false

namespace KungFuChess

open Machine

namespace Match

/-! ## Applying the queue -/

/-- The messages `apply` sends: a rejection for one, a motion for all. -/
def IsAnswer : MatchEvent → Prop
  | .sent _ (.MoveRejected _) => True
  | .broadcast _ (.MotionStarted _) => True
  | _ => False

/-- What becomes of a match whose commands are applied, one or many. `resigned` is
the colour whose resignation was taken, if one was. -/
structure Applied (m m' : Match) (answers : List MatchEvent) (resigned : Option PieceColor) :
    Prop where
  rest : m' = { m with
    engine := m'.engine
    game_over := m.game_over || resigned.isSome
    pending_game_over := match resigned with
      | some color => some (some (opposite_of color))
      | none => m.pending_game_over }
  engine : ∃ cmds, run GameEngine.exec m.engine cmds = .ok (m'.engine, [])
  answers : ∀ e ∈ answers, IsAnswer e
  unresigned : m.game_over = true → resigned = none

theorem applied_refl (m : Match) : Applied m m [] none where
  rest := by simp
  engine := ⟨[], rfl⟩
  answers := by simp
  unresigned _ := rfl

theorem Applied.trans {m m₁ m₂ : Match} {os₁ os₂ : List MatchEvent} {r₁ r₂ : Option PieceColor}
    (h₁ : Applied m m₁ os₁ r₁) (h₂ : Applied m₁ m₂ os₂ r₂) :
    Applied m m₂ (os₁ ++ os₂) (r₁.or r₂) where
  rest := by
    have hover : m₁.game_over = (m.game_over || r₁.isSome) := by rw [h₁.rest]
    rw [h₂.rest, h₁.rest]
    cases r₁ with
    | none => simp
    | some c =>
        -- a resignation ends the game, so the later commands take none
        have hnone : r₂ = none := h₂.unresigned (by rw [hover]; simp)
        simp [hnone]
  engine := by
    obtain ⟨cmds₁, hrun₁⟩ := h₁.engine
    obtain ⟨cmds₂, hrun₂⟩ := h₂.engine
    exact ⟨cmds₁ ++ cmds₂, run_append hrun₁ hrun₂⟩
  answers := by
    intro e he
    rcases List.mem_append.mp he with he | he
    · exact h₁.answers e he
    · exact h₂.answers e he
  unresigned := by
    intro hover
    have h1 := h₁.unresigned hover
    have h2 := h₂.unresigned (by rw [h₁.rest]; simp [hover])
    rw [h1, h2]
    rfl

/-- An answer without a change. -/
theorem applied_of_answers {m : Match} {os : List MatchEvent} (h : ∀ e ∈ os, IsAnswer e) :
    Applied m m os none :=
  { applied_refl m with answers := h }

theorem isAnswer_send_to (m : Match) (color : PieceColor) (reason : String) :
    ∀ e ∈ m.send_to color (.MoveRejected reason), IsAnswer e := by
  intro e he
  unfold send_to at he
  rw [Option.mem_toList, Option.map_eq_some_iff] at he
  obtain ⟨c, _, rfl⟩ := he
  trivial

theorem isAnswer_answer (m : Match) (source : PieceColor) (piece_id : Option PieceId)
    (result : MoveResult) : ∀ e ∈ m.answer source piece_id result, IsAnswer e := by
  intro e he
  unfold answer at he
  split_ifs at he
  · split at he
    · cases he
    · rw [List.mem_singleton.mp he]
      trivial
  · exact isAnswer_send_to m source _ e he

/-- A request takes the engine through the one command it is. -/
theorem request_applied {m m' : Match} {source : PieceColor} {cell : Position}
    {call : GameEngine → Except BoardError (GameEngine × MoveResult)} {cmd : GameEngine.Command}
    {os : List MatchEvent}
    (hcall : ∀ g g' r, call g = .ok (g', r) → GameEngine.exec g cmd = .ok (g', []))
    (h : m.request source cell call = .ok (m', os)) : Applied m m' os none := by
  unfold request at h
  split_ifs at h
  · obtain ⟨⟨engine, result⟩, hrun, hret⟩ := (bind_ok_iff _ _ _).mp h
    obtain ⟨rfl, rfl⟩ := Prod.mk.inj (Except.ok.inj hret)
    exact ⟨by simp, ⟨[cmd], run_singleton (hcall _ _ _ hrun)⟩, isAnswer_answer _ source _ _,
      fun _ => rfl⟩
  · obtain ⟨rfl, rfl⟩ := Prod.mk.inj (Except.ok.inj h)
    exact applied_of_answers (isAnswer_answer m source none _)

/-- The colour a command resigns for, if it is taken in this state. -/
def resigns (m : Match) (command : PieceColor × ClientMessage) : Option PieceColor :=
  if command.2 = .Resign ∧ (m.state = .Running ∨ m.state = .Frozen) then some command.1 else none

/-- **What `apply` does.** -/
theorem apply_applied {m m' : Match} {source : PieceColor} {message : ClientMessage}
    {os : List MatchEvent} (h : m.apply source message = .ok (m', os)) :
    Applied m m' os (m.resigns (source, message)) := by
  -- one case for each branch of `apply`, in its order
  have hover : m.state ≠ .Finished → m.game_over = false := by
    intro hne
    rw [Bool.eq_false_iff]
    exact fun ht => hne (if_pos ht)
  unfold apply at h
  unfold resigns
  split at h
  · rename_i hstate
    rw [hstate, if_neg (by simp)]
    obtain ⟨rfl, rfl⟩ := Prod.mk.inj (Except.ok.inj h)
    exact applied_refl m
  · rename_i hstate
    rw [hstate, if_neg (by simp)]
    obtain ⟨rfl, rfl⟩ := Prod.mk.inj (Except.ok.inj h)
    exact applied_of_answers (isAnswer_send_to m source _)
  · rename_i hfin hwait
    have hstate : m.state = .Running ∨ m.state = .Frozen := by
      cases hs : m.state with
      | Waiting => exact absurd hs hwait
      | Running => exact .inl rfl
      | Frozen => exact .inr rfl
      | Finished => exact absurd hs hfin
    -- the only branch that touches the latches
    rw [if_pos ⟨rfl, hstate⟩]
    obtain ⟨rfl, rfl⟩ := Prod.mk.inj (Except.ok.inj h)
    refine ⟨by simp, ⟨[], rfl⟩, by simp, fun ht => ?_⟩
    rw [hover hfin] at ht
    cases ht
  · rename_i hmsg
    rw [if_neg (fun hc => hmsg hc.1)]
    obtain ⟨rfl, rfl⟩ := Prod.mk.inj (Except.ok.inj h)
    exact applied_of_answers (isAnswer_send_to m source _)
  · rw [if_neg (by simp)]
    exact request_applied (fun g g' r hr => exec_request_move hr) h
  · rw [if_neg (by simp)]
    exact request_applied (fun g g' r hr => exec_request_jump hr) h
  · rename_i hmsg _ _
    rw [if_neg (fun hc => hmsg hc.1)]
    obtain ⟨rfl, rfl⟩ := Prod.mk.inj (Except.ok.inj h)
    exact applied_of_answers (isAnswer_answer m source none _)

/-- The colour that resigns first among some commands, in a state that takes it. -/
def first_resign (m : Match) (commands : List (PieceColor × ClientMessage)) : Option PieceColor :=
  (commands.find? fun command => (m.resigns command).isSome).map Prod.fst

/-- Answering changes no state that decides whether a resignation is taken. -/
theorem Applied.resigns_eq {m m' : Match} {os : List MatchEvent} (h : Applied m m' os none)
    (command : PieceColor × ClientMessage) : m'.resigns command = m.resigns command := by
  have hstate : m'.state = m.state := by
    rw [h.rest]
    unfold state
    simp
  unfold resigns
  rw [hstate]

/-- **What the drained queue does**: the first resignation that is taken is the
only one. -/
theorem run_apply_all_applied (commands : List (PieceColor × ClientMessage)) :
    ∀ {m m' : Match} {os : List MatchEvent}, run apply_all m commands = .ok (m', os) →
      Applied m m' os (m.first_resign commands) := by
  induction commands with
  | nil =>
      intro m m' os h
      obtain ⟨rfl, rfl⟩ := Prod.mk.inj (Except.ok.inj h)
      exact applied_refl m
  | cons command commands ih =>
      intro m m' os h
      obtain ⟨m₁, os₁, os₂, hone, hrun, rfl⟩ := run_cons_ok_iff.mp h
      have h₁ := apply_applied hone
      have h₂ := ih hrun
      -- the first of the list, or the first of the rest: an answer in between changes no state
      have hfirst : (m.resigns command).or (m₁.first_resign commands)
          = m.first_resign (command :: commands) := by
        unfold first_resign
        cases hr : m.resigns command with
        | some c =>
            have hc : command.1 = c := by
              unfold resigns at hr
              split_ifs at hr
              exact Option.some.inj hr
            rw [List.find?_cons_of_pos (by rw [hr]; rfl), Option.map_some, hc]
            rfl
        | none =>
            have h₁' : Applied m m₁ os₁ none := by rw [← hr]; exact h₁
            rw [List.find?_cons_of_neg (by rw [hr]; simp)]
            simp only [h₁'.resigns_eq]
            rfl
      rw [← hfirst]
      exact h₁.trans h₂

/-! ## The critical section -/

/-- What `tick` does to a match under `board_mutex_`. -/
structure BoardAdvanced (m : Match) (m' : Match) (answers : List MatchEvent)
    (events : List ArrivalEvent) : Prop where
  rest : m' = { m with
    engine := m'.engine
    history := m.history ++ events
    revision := if events.isEmpty then m.revision else m.revision + 1
    queue := []
    dropped_commands := 0
    game_over := m.game_over || (m.first_resign m.queue).isSome
    pending_game_over := match m.first_resign m.queue with
      | some color => some (some (opposite_of color))
      | none => m.pending_game_over }
  engine : ∃ cmds, run GameEngine.exec m.engine cmds = .ok (m'.engine, events)
  answers : ∀ e ∈ answers, IsAnswer e
  running : events ≠ [] → m.state = .Running
  unresigned : m.game_over = true → m.first_resign m.queue = none

theorem first_resign_drain (m : Match) (commands : List (PieceColor × ClientMessage)) :
    m.drain.first_resign commands = m.first_resign commands := rfl

/-- Time passes for the engine, and what arrives goes into the history. -/
theorem let_time_pass_waits {m m' : Match} {elapsed_ms : Nat} {events : List ArrivalEvent}
    (h : m.let_time_pass elapsed_ms = .ok (m', events)) :
    GameEngine.exec m.engine (.wait elapsed_ms) = .ok (m'.engine, events) ∧
    m' = { m with
      engine := m'.engine
      history := m.history ++ events
      revision := if events.isEmpty then m.revision else m.revision + 1 } := by
  obtain ⟨⟨engine, events'⟩, hwait, hret⟩ := (bind_ok_iff _ _ _).mp h
  obtain ⟨rfl, rfl⟩ := Prod.mk.inj (Except.ok.inj hret)
  exact ⟨hwait, rfl⟩

/-- The critical section is the commands of the queue and, for a match that was running
before them, the passing of time. -/
theorem advance_board_cases {m m' : Match} {elapsed_ms : Int} {answers : List MatchEvent}
    {events : List ArrivalEvent} (h : m.advance_board elapsed_ms = .ok (m', answers, events)) :
    ∃ m₁, run apply_all m.drain m.queue = .ok (m₁, answers) ∧
      (m.state = .Running ∧ m₁.let_time_pass elapsed_ms = .ok (m', events) ∨
        m.state ≠ .Running ∧ m' = m₁ ∧ events = []) := by
  unfold advance_board at h
  obtain ⟨⟨m₁, os⟩, hrun, hrest⟩ := (bind_ok_iff _ _ _).mp h
  split_ifs at hrest with hstate
  · obtain ⟨⟨m₂, es⟩, hpass, hret⟩ := (bind_ok_iff _ _ _).mp hrest
    obtain ⟨rfl, hpair⟩ := Prod.mk.inj (Except.ok.inj hret)
    obtain ⟨rfl, rfl⟩ := Prod.mk.inj hpair
    exact ⟨m₁, hrun, .inl ⟨hstate, hpass⟩⟩
  · obtain ⟨rfl, hpair⟩ := Prod.mk.inj (Except.ok.inj hrest)
    obtain ⟨rfl, rfl⟩ := Prod.mk.inj hpair
    exact ⟨m₁, hrun, .inr ⟨hstate, rfl, rfl⟩⟩

/-- **The spec of the critical section.** -/
theorem advance_board_spec {m m' : Match} {elapsed_ms : Nat} {answers : List MatchEvent}
    {events : List ArrivalEvent} (h : m.advance_board elapsed_ms = .ok (m', answers, events)) :
    BoardAdvanced m m' answers events := by
  obtain ⟨m₁, hrun, hcases⟩ := advance_board_cases h
  have happ := run_apply_all_applied m.queue hrun
  rw [first_resign_drain] at happ
  obtain ⟨cmds, hcmds⟩ := happ.engine
  rcases hcases with ⟨hstate, hpass⟩ | ⟨_, rfl, rfl⟩
  · obtain ⟨hwait, hm'⟩ := let_time_pass_waits hpass
    -- the commands, and then the `wait` of the tick
    refine ⟨?_, ⟨cmds ++ [.wait elapsed_ms], run_append hcmds (run_singleton hwait)⟩,
      happ.answers, fun _ => hstate, fun hover => happ.unresigned hover⟩
    rw [hm', happ.rest]
    rfl
  · refine ⟨?_, ⟨cmds, hcmds⟩, happ.answers, fun hne => absurd rfl hne, happ.unresigned⟩
    rw [List.append_nil]
    exact happ.rest

/-! ## The announcements -/

/-- `report_result` only latches that it reported. -/
theorem report_result_rest (m : Match) (reason : GameEndReason) (winner : Option PieceColor) :
    (m.report_result reason winner).1
      = { m with result_reported := m.result_reported || m.on_result } := by
  unfold report_result
  split_ifs with h
  · have hsame : (m.result_reported || m.on_result) = m.result_reported := by
      rcases h with h | h
      · rw [h, Bool.true_or]
      · rw [Bool.eq_false_iff.mpr h, Bool.or_false]
    rw [hsame]
  · have hres := not_or.mp h
    rw [not_not.mp hres.2, Bool.or_true]

/-- The announcements leave the board, the seats and the queue as they are. -/
structure Announced (m m' : Match) : Prop where
  rest : m' = { m with
    game_over := m'.game_over
    pending_game_over := m'.pending_game_over
    result_reported := m'.result_reported
    disconnect_watch := m'.disconnect_watch
    release_at := m'.release_at
    released := m'.released }
  latched : m.game_over = true → m'.game_over = true

theorem Announced.trans {m m₁ m₂ : Match} (h₁ : Announced m m₁) (h₂ : Announced m₁ m₂) :
    Announced m m₂ where
  rest := by
    rw [h₂.rest, h₁.rest]
  latched h := h₂.latched (h₁.latched h)

theorem announce_arrivals_announced (m : Match) (events : List ArrivalEvent) (at_revision : Nat) :
    Announced m (m.announce_arrivals events at_revision).1 := by
  unfold announce_arrivals
  split_ifs
  · exact ⟨rfl, id⟩
  · dsimp only
    split
    · exact ⟨rfl, id⟩
    · refine ⟨?_, fun _ => ?_⟩ <;> dsimp only <;> rw [report_result_rest]

theorem announce_resignation_announced (m : Match) : Announced m m.announce_resignation.1 := by
  unfold announce_resignation
  split
  · exact ⟨rfl, id⟩
  · refine ⟨?_, fun h => ?_⟩ <;> dsimp only <;> rw [report_result_rest]
    exact h

theorem advance_disconnect_countdown_announced (m : Match) (now : Int) :
    Announced m (m.advance_disconnect_countdown now).1 := by
  unfold advance_disconnect_countdown
  split_ifs with hover
  · exact ⟨rfl, id⟩
  · dsimp only
    split
    · refine ⟨?_, fun _ => ?_⟩ <;> dsimp only <;> rw [report_result_rest]
    · split <;> exact ⟨rfl, id⟩

theorem release_if_due_announced (m : Match) (now : Int) :
    Announced m (m.release_if_due now).1 := by
  unfold release_if_due
  dsimp only
  split_ifs <;> exact ⟨rfl, id⟩

theorem announce_announced (m : Match) (now : Int) (events : List ArrivalEvent)
    (at_revision : Nat) : Announced m (m.announce now events at_revision).1 :=
  (((announce_arrivals_announced m events at_revision).trans
    (announce_resignation_announced _)).trans
      (advance_disconnect_countdown_announced _ now)).trans (release_if_due_announced _ now)

/-- A tick is its critical section and its announcements. -/
theorem tick_ok {m m' : Match} {now elapsed_ms : Int} {os : List MatchEvent}
    (h : m.tick now elapsed_ms = .ok (m', os)) :
    ∃ m₁ answers events, m.advance_board elapsed_ms = .ok (m₁, answers, events) ∧
      m' = (m₁.announce now events m₁.revision).1 ∧
      os = answers ++ (m₁.announce now events m₁.revision).2 := by
  unfold tick at h
  obtain ⟨⟨m₁, answers, events⟩, hadv, hret⟩ := (bind_ok_iff _ _ _).mp h
  obtain ⟨rfl, rfl⟩ := Prod.mk.inj (Except.ok.inj hret)
  exact ⟨m₁, answers, events, hadv, rfl, rfl⟩

/-! ## No tick throws -/

theorem apply_total (m : Match) (source : PieceColor) (message : ClientMessage) :
    ∃ r, m.apply source message = .ok r := by
  have hrequest : ∀ cell (call : GameEngine → Except BoardError (GameEngine × MoveResult)),
      (∃ g r, call m.engine = .ok (g, r)) → ∃ r, m.request source cell call = .ok r := by
    rintro cell call ⟨g, r, hcall⟩
    unfold request
    split_ifs
    · rw [hcall]
      exact ⟨_, rfl⟩
    · exact ⟨_, rfl⟩
  unfold apply
  split
  · exact ⟨_, rfl⟩
  · exact ⟨_, rfl⟩
  · exact ⟨_, rfl⟩
  · exact ⟨_, rfl⟩
  · obtain ⟨g, r, hcall, _⟩ := request_move_effect m.engine _ _
    exact hrequest _ _ ⟨g, r, hcall⟩
  · obtain ⟨g, r, hcall, _⟩ := request_jump_effect m.engine _
    exact hrequest _ _ ⟨g, r, hcall⟩
  · exact ⟨_, rfl⟩

theorem run_apply_all_total (commands : List (PieceColor × ClientMessage)) :
    ∀ m : Match, ∃ r, run apply_all m commands = .ok r := by
  induction commands with
  | nil => exact fun _ => ⟨_, rfl⟩
  | cons command commands ih =>
      intro m
      refine bind_total (m.apply_total command.1 command.2) (fun r _ => ?_)
      exact bind_total (ih r.1) (fun _ _ => ⟨_, rfl⟩)

/-- **The critical section of a tick succeeds** in a sound state. -/
theorem advance_board_total {m : Match} (hs : m.engine.Sound) (elapsed_ms : Nat) :
    ∃ r, m.advance_board elapsed_ms = .ok r := by
  unfold advance_board
  refine bind_total (run_apply_all_total m.queue m.drain) (fun r hrun => ?_)
  obtain ⟨cmds, hcmds⟩ := (run_apply_all_applied m.queue hrun).engine
  -- the commands are a run of the engine, which keeps it sound for the `wait`
  have hs₁ : r.1.engine.Sound := hs.run hcmds
  obtain ⟨engine, events, hwait⟩ := exec_total hs₁ (.wait elapsed_ms)
  rw [exec_wait] at hwait
  by_cases hstate : m.state = .Running
  · dsimp only
    rw [if_pos hstate]
    unfold let_time_pass
    rw [hwait]
    exact ⟨_, rfl⟩
  · dsimp only
    rw [if_neg hstate]
    exact ⟨_, rfl⟩

/-! ## The calls of connections -/

/-- A call other than `tick` reaches the audience, the queue and the watch only. -/
theorem call_frame {m m' : Match} {call : Call} {os : List MatchEvent}
    (hcall : ∀ now elapsed_ms, call ≠ .tick now elapsed_ms) (h : exec m call = .ok (m', os)) :
    m' = { m with
      audience := m'.audience
      queue := m'.queue
      dropped_commands := m'.dropped_commands
      disconnect_watch := m'.disconnect_watch } := by
  cases call with
  | tick now elapsed_ms => exact absurd rfl (hcall now elapsed_ms)
  | join username rating connection =>
      obtain ⟨rfl, _⟩ := Prod.mk.inj (Except.ok.inj h)
      unfold join
      dsimp only
      split <;> rfl
  | join_spectator connection =>
      obtain ⟨rfl, _⟩ := Prod.mk.inj (Except.ok.inj h)
      unfold join_spectator
      dsimp only
      split_ifs <;> rfl
  | leave_spectator watcher =>
      obtain ⟨rfl, _⟩ := Prod.mk.inj (Except.ok.inj h)
      rfl
  | enqueue source message =>
      obtain ⟨rfl, _⟩ := Prod.mk.inj (Except.ok.inj h)
      unfold enqueue
      split_ifs <;> rfl
  | on_disconnect color =>
      obtain ⟨rfl, _⟩ := Prod.mk.inj (Except.ok.inj h)
      rfl
  | reconnect color connection =>
      obtain ⟨rfl, _⟩ := Prod.mk.inj (Except.ok.inj h)
      unfold reconnect
      dsimp only
      split_ifs <;> rfl

/-- The worker's call, or one of a connection. -/
theorem tick_or_not (call : Call) :
    (∃ now elapsed_ms, call = .tick now elapsed_ms) ∨
      ∀ now elapsed_ms, call ≠ .tick now elapsed_ms := by
  cases call with
  | tick now elapsed_ms => exact .inl ⟨now, elapsed_ms, rfl⟩
  | _ => exact .inr fun _ _ => nofun

/-- What a match is made with stays: the callback is never replaced, and the room
keeps its name. -/
theorem exec_settings {m m' : Match} {call : Call} {os : List MatchEvent}
    (h : exec m call = .ok (m', os)) :
    m'.on_result = m.on_result ∧ m'.room_name = m.room_name := by
  obtain ⟨now, elapsed_ms, rfl⟩ | hcall := tick_or_not call
  · obtain ⟨m₁, answers, events, hadv, rfl, _⟩ := tick_ok h
    rw [(announce_announced m₁ now events m₁.revision).rest, (advance_board_spec hadv).rest]
    exact ⟨rfl, rfl⟩
  · rw [call_frame hcall h]
    exact ⟨rfl, rfl⟩

end Match

end KungFuChess
