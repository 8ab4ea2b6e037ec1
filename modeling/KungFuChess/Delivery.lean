/-
What a joiner is sent.

The server's log is the list of updates it has recorded, in the order of their
revisions (`ServerLog`), and only the critical section of a tick adds to it.
Everything else the server does says nothing about the board to the connection
that joins (`Chatter`), but for one broadcast of each recorded update to everybody
on the roster (`delivered_announce_arrivals`). Calls on other connections neither
add the joiner to the roster nor take it off (`exec_elsewhere`).
-/
import KungFuChess.Joiner
import KungFuChess.LogFollower
import KungFuChess.Mirror

set_option autoImplicit false

namespace KungFuChess

open Machine LogFollower

/-! ## What an observer has seen -/

/-- The updates the server has recorded. -/
def updated (tr : List Seen) : List BoardUpdate :=
  tr.filterMap fun
    | .updated update => some update
    | _ => none

/-- The updates the client has applied. -/
def applied (tr : List Seen) : List BoardUpdate :=
  tr.filterMap fun
    | .applied update => some update
    | _ => none

/-- The `Welcome`s the client has built its board from. -/
def built (tr : List Seen) : List Welcome :=
  tr.filterMap fun
    | .built welcome => some welcome
    | _ => none

@[simp] theorem updated_append (tr os : List Seen) :
    updated (tr ++ os) = updated tr ++ updated os := List.filterMap_append

@[simp] theorem applied_append (tr os : List Seen) :
    applied (tr ++ os) = applied tr ++ applied os := List.filterMap_append

@[simp] theorem built_append (tr os : List Seen) : built (tr ++ os) = built tr ++ built os :=
  List.filterMap_append

/-! ## Messages -/

/-- The board updates among some messages, in order. -/
def updates_of (messages : List ServerMessage) : List BoardUpdate :=
  messages.filterMap fun
    | .BoardUpdate update => some update
    | _ => none

/-- The welcomes among them. -/
def welcomes_of (messages : List ServerMessage) : List Welcome :=
  messages.filterMap fun
    | .Welcome welcome => some welcome
    | _ => none

@[simp] theorem updates_of_append (ms ms' : List ServerMessage) :
    updates_of (ms ++ ms') = updates_of ms ++ updates_of ms' := List.filterMap_append

@[simp] theorem welcomes_of_append (ms ms' : List ServerMessage) :
    welcomes_of (ms ++ ms') = welcomes_of ms ++ welcomes_of ms' := List.filterMap_append

/-- A message that `wait_for_welcome` does not give up on. -/
def Fine : ServerMessage → Prop
  | .JoinFailed _ => False
  | .JoinRedirect _ => False
  | .LoginFailed _ => False
  | _ => True

/-- A message without a board or an arrival. -/
def Plain : ServerMessage → Prop
  | .Welcome _ => False
  | .BoardUpdate _ => False
  | message => Fine message

theorem Plain.fine {message : ServerMessage} (h : Plain message) : Fine message := by
  cases message <;> first | exact h | trivial

/-- Plain messages bring no update. -/
theorem updates_of_plain {ms : List ServerMessage} (h : ∀ m ∈ ms, Plain m) :
    updates_of ms = [] := by
  refine List.filterMap_eq_nil_iff.mpr (fun m hm => ?_)
  have := h m hm
  cases m <;> first | rfl | exact this.elim

theorem welcomes_of_plain {ms : List ServerMessage} (h : ∀ m ∈ ms, Plain m) :
    welcomes_of ms = [] := by
  refine List.filterMap_eq_nil_iff.mpr (fun m hm => ?_)
  have := h m hm
  cases m <;> first | rfl | exact this.elim

/-! ## The server's log of updates -/

/-- The updates are the server's history, numbered by its revision. -/
structure ServerLog (m : Match) (updates : List BoardUpdate) : Prop where
  sound : m.engine.Sound
  numbered : Numbered BoardUpdate.revision updates
  revision : m.revision = updates.length
  history : m.history = updates.flatMap BoardUpdate.arrival_events
  placed : ∀ u ∈ updates, ∀ e ∈ u.arrival_events, Placed m.engine.board e

/-- A call that leaves the board alone keeps the log. -/
theorem ServerLog.frame {m m' : Match} {updates : List BoardUpdate} (h : ServerLog m updates)
    (hengine : m'.engine = m.engine) (hrevision : m'.revision = m.revision)
    (hhistory : m'.history = m.history) : ServerLog m' updates where
  sound := by rw [hengine]; exact h.sound
  numbered := h.numbered
  revision := hrevision.trans h.revision
  history := hhistory.trans h.history
  placed := by rw [hengine]; exact h.placed

/-- The update a critical section records, if it records one. -/
def recorded (events : List ArrivalEvent) (at_revision : Nat) : List BoardUpdate :=
  if events.isEmpty then [] else [⟨events, at_revision⟩]

/-- **A tick of the board** appends what it announces to the log. -/
theorem ServerLog.advance {m m' : Match} {updates : List BoardUpdate} {answers : List MatchEvent}
    {events : List ArrivalEvent} (h : ServerLog m updates)
    (hadv : Match.BoardAdvanced m m' answers events) :
    ServerLog m' (updates ++ recorded events m'.revision) ∧
      SameSize m.engine.board m'.engine.board := by
  obtain ⟨cmds, hcmds⟩ := hadv.engine
  -- the critical section is a run of the engine, whatever the queue held
  obtain ⟨hsize, hplaced⟩ := run_placed h.sound hcmds
  have hrev : m'.revision = if events.isEmpty then m.revision else m.revision + 1 := by
    rw [hadv.rest]
  have hhist : m'.history = m.history ++ events := by rw [hadv.rest]
  refine ⟨⟨h.sound.run hcmds, ?_, ?_, ?_, fun u hu e he => hsize.placed ?_⟩, hsize⟩
  · unfold recorded
    split_ifs with hempty
    · rw [List.append_nil]
      exact h.numbered
    · -- the revision is raised exactly when something arrived
      refine h.numbered.append_one ?_
      rw [hrev, if_neg hempty, h.revision]
  · rw [hrev]
    unfold recorded
    split_ifs
    · rw [List.append_nil]
      exact h.revision
    · rw [List.length_append, List.length_singleton, h.revision]
  · rw [hhist, List.flatMap_append, ← h.history]
    unfold recorded
    split_ifs with hempty
    · rw [List.isEmpty_iff.mp hempty]
      rfl
    · rw [List.flatMap_singleton]
  · rcases List.mem_append.mp hu with hu | hu
    · exact h.placed u hu e he
    · unfold recorded at hu
      split_ifs at hu
      · cases hu
      · rw [List.mem_singleton.mp hu] at he
        exact hplaced e he

/-! ## What the joiner is sent -/

namespace Joiner

theorem delivered_append (c : Connection) (os os' : List MatchEvent) :
    delivered c (os ++ os') = delivered c os ++ delivered c os' := List.flatMap_append

/-- Nothing in it says anything about the board. -/
def Chatter (c : Connection) (os : List MatchEvent) : Prop := ∀ m ∈ delivered c os, Plain m

theorem chatter_nil (c : Connection) : Chatter c [] := fun _ h => absurd h List.not_mem_nil

theorem chatter_cons {c : Connection} {e : MatchEvent} {os : List MatchEvent}
    (he : Chatter c [e]) (hos : Chatter c os) : Chatter c (e :: os) := by
  intro m hm
  have hsplit : delivered c (e :: os) = delivered c [e] ++ delivered c os := by
    rw [← delivered_append]
    rfl
  rw [hsplit] at hm
  rcases List.mem_append.mp hm with hm | hm
  · exact he m hm
  · exact hos m hm

/-- Chatter after chatter is chatter. -/
theorem Chatter.append {c : Connection} {os os' : List MatchEvent} (h : Chatter c os)
    (h' : Chatter c os') : Chatter c (os ++ os') := by
  intro m hm
  rw [delivered_append] at hm
  rcases List.mem_append.mp hm with hm | hm
  · exact h m hm
  · exact h' m hm

theorem chatter_broadcast (c : Connection) (m : Match) {message : ServerMessage}
    (h : Plain message) : Chatter c [m.broadcast message] := by
  intro message' hm
  unfold delivered Match.broadcast at hm
  rw [List.flatMap_singleton] at hm
  rw [List.eq_of_mem_replicate hm]
  exact h

theorem chatter_sent (c receiver : Connection) {message : ServerMessage}
    (h : receiver = c → Plain message) : Chatter c [.sent receiver message] := by
  intro message' hm
  unfold delivered at hm
  rw [List.flatMap_singleton] at hm
  dsimp only at hm
  split_ifs at hm with hc
  · rw [List.mem_singleton.mp hm]
    exact h hc
  · cases hm

/-- Events that send nothing. -/
theorem chatter_unsent (c : Connection) {e : MatchEvent} (h : delivered c [e] = []) :
    Chatter c [e] := by
  intro m hm
  rw [h] at hm
  cases hm

theorem chatter_answers (c : Connection) {os : List MatchEvent}
    (h : ∀ e ∈ os, Match.IsAnswer e) : Chatter c os := by
  induction os with
  | nil => exact chatter_nil c
  | cons e os ih =>
      refine chatter_cons ?_ (ih fun e' he' => h e' (List.mem_cons_of_mem e he'))
      have he := h e List.mem_cons_self
      unfold Match.IsAnswer at he
      split at he
      · exact chatter_sent c _ (fun _ => trivial)
      · intro m hm
        unfold delivered at hm
        rw [List.flatMap_singleton] at hm
        rw [List.eq_of_mem_replicate hm]
        trivial
      · cases he

/-- Nothing else that a tick says is more than chatter; first the verdict. -/
theorem chatter_report_result (c : Connection) (m : Match) (reason : GameEndReason)
    (winner : Option PieceColor) : Chatter c (m.report_result reason winner).2 := by
  unfold Match.report_result
  split_ifs
  · exact chatter_nil c
  · exact chatter_unsent c rfl

theorem chatter_announce_resignation (c : Connection) (m : Match) :
    Chatter c m.announce_resignation.2 := by
  unfold Match.announce_resignation
  split
  · exact chatter_nil c
  · exact chatter_cons (chatter_broadcast c m trivial) (chatter_report_result c _ _ _)

theorem chatter_countdown (c : Connection) (m : Match) (now : Int) :
    Chatter c (m.advance_disconnect_countdown now).2 := by
  unfold Match.advance_disconnect_countdown
  split_ifs
  · exact chatter_nil c
  · dsimp only
    split
    · exact chatter_cons (chatter_broadcast c _ trivial) (chatter_report_result c _ _ _)
    · split
      · exact chatter_broadcast c _ trivial
      · exact chatter_nil c

theorem chatter_release (c : Connection) (m : Match) (now : Int) :
    Chatter c (m.release_if_due now).2 := by
  have hcloses : ∀ cs : List Connection, Chatter c (cs.map MatchEvent.closed) := by
    intro cs
    induction cs with
    | nil => exact chatter_nil c
    | cons x cs ih => exact chatter_cons (chatter_unsent c rfl) ih
  unfold Match.release_if_due
  dsimp only
  split_ifs <;> first | exact hcloses _ | exact chatter_nil c

/-- The whole end of a tick. -/
theorem chatter_announce_rest (c : Connection) (m : Match) (now : Int) :
    Chatter c (m.announce_rest now).2 :=
  ((chatter_announce_resignation c m).append (chatter_countdown c _ now)).append
    (chatter_release c _ now)

theorem chatter_start_messages (c : Connection) (m : Match) (request : JoinRequest)
    (color : PieceColor) (already_started : Bool) (welcome : Welcome) :
    Chatter c (m.start_messages c request color already_started welcome) := by
  unfold Match.start_messages
  split
  · split_ifs
    · exact chatter_broadcast c m trivial
    · exact chatter_nil c
  · split_ifs
    · exact chatter_sent c c (fun _ => trivial)
    · exact chatter_nil c
  · exact chatter_cons (chatter_sent c c (fun _ => trivial)) (chatter_broadcast c m trivial)

/-- The broadcast of the arrivals is the one message with a board update. -/
theorem delivered_announce_arrivals (c : Connection) (m : Match) (events : List ArrivalEvent)
    (at_revision : Nat) :
    updates_of (delivered c (m.announce_arrivals events at_revision).2)
        = (recorded events at_revision).flatMap (List.replicate (m.audience.everyone.count c)) ∧
      welcomes_of (delivered c (m.announce_arrivals events at_revision).2) = [] ∧
      ∀ message ∈ delivered c (m.announce_arrivals events at_revision).2, Fine message := by
  -- whatever verdict follows the update, none of it is about the board
  have hupdate : ∀ rest : List MatchEvent, Chatter c rest →
      updates_of (delivered c (m.broadcast (.BoardUpdate ⟨events, at_revision⟩) :: rest))
          = List.replicate (m.audience.everyone.count c) ⟨events, at_revision⟩ ∧
        welcomes_of (delivered c (m.broadcast (.BoardUpdate ⟨events, at_revision⟩) :: rest)) = [] ∧
        ∀ message ∈ delivered c (m.broadcast (.BoardUpdate ⟨events, at_revision⟩) :: rest),
          Fine message := by
    intro rest hrest
    have hsplit : delivered c (m.broadcast (.BoardUpdate ⟨events, at_revision⟩) :: rest)
        = List.replicate (m.audience.everyone.count c) (.BoardUpdate ⟨events, at_revision⟩)
          ++ delivered c rest := rfl
    have hplain := updates_of_plain hrest
    have hplain' := welcomes_of_plain hrest
    rw [hsplit, updates_of_append, welcomes_of_append, hplain, hplain']
    refine ⟨?_, ?_, fun message hm => ?_⟩
    · rw [List.append_nil]
      exact List.filterMap_replicate_of_some rfl
    · rw [List.append_nil]
      exact List.filterMap_replicate_of_none rfl
    · rcases List.mem_append.mp hm with hm | hm
      · rw [List.eq_of_mem_replicate hm]
        trivial
      · exact (hrest message hm).fine
  unfold Match.announce_arrivals recorded
  split_ifs
  · exact ⟨rfl, rfl, fun _ h => absurd h List.not_mem_nil⟩
  · dsimp only
    rw [List.flatMap_singleton]
    split
    · exact hupdate [] (chatter_nil c)
    · exact hupdate _ (chatter_cons (chatter_broadcast c m trivial) (chatter_report_result c _ _ _))

/-! ## Who is attached -/

/-- How many times a broadcast is sent to the joiner. -/
def attached (s : Joiner) : Nat := s.server.audience.everyone.count s.connection

/-- What calls on other connections leave as it is. -/
theorem exec_elsewhere {m : Match} {c : Connection} {call : Match.Call}
    {r : Match × List MatchEvent} (helse : Elsewhere c call) (h : m.exec call = .ok r) :
    r.1.engine = m.engine ∧ r.1.revision = m.revision ∧ r.1.history = m.history ∧
      r.1.audience.everyone.count c ≤ m.audience.everyone.count c ∧ Chatter c r.2 := by
  -- another connection adds nothing to the count of this one
  have hone : ∀ other, other ≠ c → MatchAudience.one other c = 0 := fun other hne => if_neg hne
  have htick : ∀ now elapsed_ms, call ≠ .tick now elapsed_ms := by
    rintro now elapsed_ms rfl
    exact helse
  have hframe := Match.call_frame htick h
  refine ⟨by rw [hframe], by rw [hframe], by rw [hframe], ?_⟩
  cases call with
  | tick now elapsed_ms => exact absurd rfl (htick now elapsed_ms)
  | join username rating other =>
      obtain rfl := Except.ok.inj h
      unfold Match.join
      cases hs : m.audience.seat username rating other other with
      | mk audience assigned =>
      cases assigned with
      | none => exact ⟨le_refl _, chatter_nil c⟩
      | some color =>
          have hcount := MatchAudience.count_seat hs c
          rw [hone other helse] at hcount
          refine ⟨Nat.le_of_eq hcount, chatter_cons (chatter_unsent c rfl) (chatter_cons
            (chatter_sent c other fun hc => absurd hc helse) ?_)⟩
          split_ifs
          · exact chatter_broadcast c _ trivial
          · exact chatter_nil c
  | join_spectator other =>
      obtain rfl := Except.ok.inj h
      have hcount := MatchAudience.count_watch_le m.audience other c
      rw [hone other helse] at hcount
      unfold Match.join_spectator
      dsimp only
      split
      · exact ⟨le_refl _, chatter_nil c⟩
      · refine ⟨hcount, chatter_cons (chatter_sent c other fun hc => absurd hc helse) ?_⟩
        split_ifs
        · exact chatter_sent c other fun _ => trivial
        · exact chatter_nil c
  | leave_spectator watcher =>
      obtain rfl := Except.ok.inj h
      exact ⟨MatchAudience.count_unwatch_le _ _ _, chatter_nil c⟩
  | enqueue source message =>
      obtain rfl := Except.ok.inj h
      unfold Match.enqueue
      split_ifs <;> exact ⟨le_refl _, chatter_nil c⟩
  | on_disconnect color =>
      obtain rfl := Except.ok.inj h
      exact ⟨le_refl _, chatter_unsent c rfl⟩
  | reconnect color other =>
      obtain rfl := Except.ok.inj h
      have hcount := MatchAudience.count_reseat_le m.audience color other c
      rw [hone other helse] at hcount
      unfold Match.reconnect
      dsimp only
      split
      · exact ⟨le_refl _, chatter_nil c⟩
      · split
        · exact ⟨le_refl _, chatter_nil c⟩
        · refine ⟨hcount, chatter_cons (chatter_unsent c rfl) (chatter_cons
            (chatter_sent c other fun _ => ?_) (chatter_cons
            (chatter_sent c other fun _ => trivial) (chatter_broadcast c _ trivial)))⟩
          exact absurd ‹_› helse

/-- What registering does: the joiner is refused, or it is on the roster. -/
theorem register_spec (m : Match) (c : Connection) (request : JoinRequest) :
    (m.register c request).1.1.engine = m.engine ∧
      (m.register c request).1.1.revision = m.revision ∧
      (m.register c request).1.1.history = m.history ∧
      delivered c (m.register c request).1.2 = [] ∧
      (((m.register c request).2 = .refused ∧ (m.register c request).1.1 = m) ∨
        ∃ color already_started, (m.register c request).2
            = .registered request color already_started ∧
          (m.register c request).1.1.audience.everyone.count c
            ≤ m.audience.everyone.count c + 1) := by
  have hone : MatchAudience.one c c = 1 := if_pos rfl
  cases request with
  | join username rating =>
      unfold Match.register
      dsimp only
      cases hs : m.audience.seat username rating c c with
      | mk audience assigned =>
      cases assigned with
      | none => exact ⟨rfl, rfl, rfl, rfl, .inl ⟨rfl, rfl⟩⟩
      | some color =>
          have hcount := MatchAudience.count_seat hs c
          rw [hone] at hcount
          exact ⟨rfl, rfl, rfl, rfl, .inr ⟨color, false, rfl, Nat.le_of_eq hcount⟩⟩
  | join_spectator =>
      have hcount := MatchAudience.count_watch_le m.audience c c
      rw [hone] at hcount
      unfold Match.register
      dsimp only
      split_ifs
      · exact ⟨rfl, rfl, rfl, rfl, .inl ⟨rfl, rfl⟩⟩
      · exact ⟨rfl, rfl, rfl, rfl, .inr ⟨_, _, rfl, hcount⟩⟩
  | reconnect color =>
      have hcount := MatchAudience.count_reseat_le m.audience color c c
      rw [hone] at hcount
      unfold Match.register
      dsimp only
      split_ifs
      · exact ⟨rfl, rfl, rfl, rfl, .inl ⟨rfl, rfl⟩⟩
      · exact ⟨rfl, rfl, rfl, rfl, .inr ⟨_, _, rfl, hcount⟩⟩
      · exact ⟨rfl, rfl, rfl, rfl, .inl ⟨rfl, rfl⟩⟩

end Joiner

end KungFuChess
