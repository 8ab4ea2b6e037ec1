/-
**What a connection is told of motions.**

Two kinds of message speak of them, and two steps of a match send these: a command that
starts a motion, and the broadcast of what has arrived. Everything else the server does
is `Motionless`. `news_of` reads a message as an announcement of `Following`; a client that
has its board takes the messages just as a follower takes the announcements
(`run_handle_view`).
-/
import KungFuChess.Following
import KungFuChess.JoinerView
import KungFuChess.Moving

set_option autoImplicit false

namespace KungFuChess

open Machine Following

/-! ## Messages as announcements -/

/-- What an update says of motions. -/
def end_of (update : BoardUpdate) : News PieceId :=
  .ended {i | i ∈ ended_ids update.arrival_events} update.revision

/-- What a message says of motions. -/
def news_of : ServerMessage → Option (News PieceId)
  | .MotionStarted motion => some (.started motion.moving_piece.id)
  | .BoardUpdate update => some (end_of update)
  | _ => none

/-- The news in some messages, in order. -/
def news (messages : List ServerMessage) : List (News PieceId) := messages.filterMap news_of

@[simp] theorem news_append (ms ms' : List ServerMessage) :
    news (ms ++ ms') = news ms ++ news ms' :=
  List.filterMap_append

theorem news_cons (m : ServerMessage) (ms : List ServerMessage) :
    news (m :: ms) = (news_of m).toList ++ news ms := by
  unfold news
  cases hm : news_of m with
  | none => simp [hm]
  | some n => simp [hm]

/-- What an event says of motions, to whom it is sent. -/
def MatchEvent.news : MatchEvent → Option (News PieceId)
  | .sent _ message => news_of message
  | .broadcast _ message => news_of message
  | _ => none

/-- Events that say nothing of motions. -/
def Motionless (os : List MatchEvent) : Prop := ∀ e ∈ os, e.news = none

theorem mem_delivered {c : Connection} {os : List MatchEvent} {message : ServerMessage}
    (h : message ∈ Joiner.delivered c os) : ∃ e ∈ os, e.news = news_of message := by
  unfold Joiner.delivered at h
  obtain ⟨e, he, hm⟩ := List.mem_flatMap.mp h
  refine ⟨e, he, ?_⟩
  cases e with
  | sent receiver message' =>
      dsimp only at hm
      split_ifs at hm
      · rw [List.mem_singleton.mp hm]
        rfl
      · cases hm
  | broadcast receivers message' =>
      rw [List.eq_of_mem_replicate hm]
      rfl
  | _ => cases hm

/-- What brings no motions brings no news of them. -/
theorem Motionless.news {os : List MatchEvent} (h : Motionless os) (c : Connection) :
    news (Joiner.delivered c os) = [] := by
  refine List.filterMap_eq_nil_iff.mpr fun message hm => ?_
  obtain ⟨e, he, hnews⟩ := mem_delivered hm
  rw [← hnews]
  exact h e he

/-! ## The steps of a match -/

namespace Match

theorem motionless_report_result (m : Match) (reason : GameEndReason) (winner : Option PieceColor) :
    Motionless (m.report_result reason winner).2 := by
  unfold report_result
  split_ifs <;> simp [Motionless, MatchEvent.news]

theorem motionless_announce_resignation (m : Match) : Motionless m.announce_resignation.2 := by
  unfold announce_resignation
  split
  · simp [Motionless]
  · exact List.forall_mem_cons.mpr ⟨rfl, motionless_report_result m _ _⟩

theorem motionless_countdown (m : Match) (now : Int) :
    Motionless (m.advance_disconnect_countdown now).2 := by
  unfold advance_disconnect_countdown
  split_ifs
  · simp [Motionless]
  · dsimp only
    split
    · exact List.forall_mem_cons.mpr ⟨rfl, motionless_report_result _ _ _⟩
    · split <;> simp [Motionless, MatchEvent.news, broadcast, news_of]

theorem motionless_release (m : Match) (now : Int) : Motionless (m.release_if_due now).2 := by
  unfold release_if_due
  dsimp only
  split_ifs <;> simp [Motionless, MatchEvent.news]

theorem motionless_announce_rest (m : Match) (now : Int) : Motionless (m.announce_rest now).2 := by
  unfold announce_rest
  intro e he
  rcases List.mem_append.mp he with he | he
  · rcases List.mem_append.mp he with he | he
    · exact motionless_announce_resignation m e he
    · exact motionless_countdown _ now e he
  · exact motionless_release _ now e he

theorem motionless_start_messages (m : Match) (c : Connection) (request : JoinRequest)
    (color : PieceColor) (already_started : Bool) (welcome : Welcome) :
    Motionless (m.start_messages c request color already_started welcome) := by
  unfold start_messages
  split
  · split_ifs <;> simp [Motionless, MatchEvent.news, broadcast, news_of]
  · split_ifs <;> simp [Motionless, MatchEvent.news, news_of]
  · simp [Motionless, MatchEvent.news, broadcast, news_of]

/-- Only a tick speaks of motions. -/
theorem motionless_call {m m' : Match} {call : Call} {os : List MatchEvent}
    (hcall : ∀ now elapsed_ms, call ≠ .tick now elapsed_ms) (h : exec m call = .ok (m', os)) :
    Motionless os := by
  cases call with
  | tick now elapsed_ms => exact absurd rfl (hcall now elapsed_ms)
  | join username rating connection =>
      obtain ⟨_, rfl⟩ := Prod.mk.inj (Except.ok.inj h)
      unfold join
      dsimp only
      split
      · simp [Motionless]
      · split_ifs <;> simp [Motionless, MatchEvent.news, broadcast, news_of]
  | join_spectator connection =>
      obtain ⟨_, rfl⟩ := Prod.mk.inj (Except.ok.inj h)
      unfold join_spectator
      dsimp only
      split_ifs <;> simp [Motionless, MatchEvent.news, news_of]
  | leave_spectator watcher =>
      obtain ⟨_, rfl⟩ := Prod.mk.inj (Except.ok.inj h)
      simp [Motionless]
  | enqueue source message =>
      obtain ⟨_, rfl⟩ := Prod.mk.inj (Except.ok.inj h)
      simp [Motionless]
  | on_disconnect color =>
      obtain ⟨_, rfl⟩ := Prod.mk.inj (Except.ok.inj h)
      simp [Motionless, MatchEvent.news]
  | reconnect color connection =>
      obtain ⟨_, rfl⟩ := Prod.mk.inj (Except.ok.inj h)
      unfold reconnect
      dsimp only
      split_ifs <;> simp [Motionless, MatchEvent.news, broadcast, news_of]

/-- **The broadcast of what arrived**, to whom it goes. -/
theorem news_announce_arrivals (c : Connection) (m : Match) (events : List ArrivalEvent)
    (at_revision : Nat) :
    news (Joiner.delivered c (m.announce_arrivals events at_revision).2)
      = (recorded events at_revision).flatMap fun update =>
          List.replicate (m.audience.everyone.count c) (end_of update) := by
  have hupdate : ∀ rest : List MatchEvent, Motionless rest →
      news (Joiner.delivered c (m.broadcast (.BoardUpdate ⟨events, at_revision⟩) :: rest))
        = List.replicate (m.audience.everyone.count c) (end_of ⟨events, at_revision⟩) := by
    intro rest hrest
    have hsplit : Joiner.delivered c (m.broadcast (.BoardUpdate ⟨events, at_revision⟩) :: rest)
        = List.replicate (m.audience.everyone.count c) (.BoardUpdate ⟨events, at_revision⟩)
          ++ Joiner.delivered c rest := rfl
    rw [hsplit, news_append, hrest.news c, List.append_nil]
    exact List.filterMap_replicate_of_some rfl
  unfold announce_arrivals recorded
  split_ifs
  · rfl
  · dsimp only
    rw [List.flatMap_singleton]
    split
    · exact hupdate [] (by simp [Motionless])
    · exact hupdate _ (List.forall_mem_cons.mpr ⟨rfl, motionless_report_result _ _ _⟩)

end Match

/-! ## The client -/

/-- What a client believes is in motion, and the revision it is at. -/
def ServerLink.view (link : ServerLink) : View PieceId :=
  ⟨{i | link.predicted_motions i ≠ none}, link.revision⟩

/-- A prediction is over when its piece has arrived or been captured. -/
theorem foldl_end_prediction (events : List ArrivalEvent) (i : PieceId) :
    ∀ predicted : PieceId → Option Motion,
      events.foldl ServerLink.end_prediction predicted i
        = if i ∈ ended_ids events then none else predicted i := by
  induction events with
  | nil => simp [ended_ids]
  | cons e events ih =>
      intro predicted
      have hmem : i ∈ ended_ids (e :: events) ↔ i ∈ ended_ids [e] ∨ i ∈ ended_ids events := by
        rw [← List.mem_append, ← ended_ids_append]
        rfl
      have hone : (i = e.moved_piece.id ∨ e.captured_piece.any (fun x => x.id = i)) ↔
          i ∈ ended_ids [e] := by
        rw [mem_ended_ids_singleton, captured_ids]
        cases e.captured_piece <;> simp [eq_comm]
      rw [List.foldl_cons, ih, ServerLink.end_prediction]
      simp only [hone, hmem]
      by_cases hlater : i ∈ ended_ids events
      · simp [hlater]
      · simp [hlater]

/-- **A client with its board takes a message as a follower takes the announcement.** -/
theorem handle_view {link link' : ServerLink} {message : ServerMessage} {os : List UiEvent}
    (hboard : link.board ≠ none) (h : ServerLink.handle_message link message = .ok (link', os)) :
    link'.board ≠ none ∧ Joiner.Handled link link' ∧
      link'.view = link.view.after (news_of message).toList := by
  cases message with
  | MotionStarted motion =>
      obtain ⟨rfl, rfl⟩ := Prod.mk.inj (Except.ok.inj h)
      refine ⟨hboard, ⟨rfl, rfl, rfl, rfl⟩, ?_⟩
      have hgoing : {i | Function.update link.predicted_motions motion.moving_piece.id
          (some motion) i ≠ none} = insert motion.moving_piece.id
            {i | link.predicted_motions i ≠ none} := by
        ext i
        by_cases hi : i = motion.moving_piece.id <;> simp [Function.update_apply, hi]
      exact congrArg (fun s => (⟨s, link.revision⟩ : View PieceId)) hgoing
  | BoardUpdate update =>
      change link.apply_board_update update = .ok (link', os) at h
      unfold ServerLink.apply_board_update at h
      obtain ⟨board, hb⟩ := Option.ne_none_iff_exists'.mp hboard
      rw [hb] at h
      dsimp only at h
      split_ifs at h with hcovered
      · obtain ⟨rfl, rfl⟩ := Prod.mk.inj (Except.ok.inj h)
        have hpast : update.revision ≠ 0 ∧ update.revision ≤ link.view.covered := hcovered
        exact ⟨hboard, .refl link, (View.hear_covered hpast).symm⟩
      · obtain ⟨board', _, hret⟩ := (bind_ok_iff _ _ _).mp h
        obtain ⟨rfl, rfl⟩ := Prod.mk.inj (Except.ok.inj hret)
        have hnew : ¬ (update.revision ≠ 0 ∧ update.revision ≤ link.view.covered) := hcovered
        refine ⟨by simp, ⟨rfl, rfl, rfl, rfl⟩, ?_⟩
        have hgoing : {i | update.arrival_events.foldl ServerLink.end_prediction
            link.predicted_motions i ≠ none} = {i | link.predicted_motions i ≠ none}
              \ {i | i ∈ ended_ids update.arrival_events} := by
          ext i
          rw [Set.mem_sdiff]
          simp [foldl_end_prediction, and_comm]
        exact (congrArg (fun s => (⟨s, update.revision⟩ : View PieceId)) hgoing).trans
          (View.hear_ended hnew).symm
  | _ =>
      obtain ⟨rfl, rfl⟩ := Prod.mk.inj (Except.ok.inj h)
      exact ⟨hboard, ⟨rfl, rfl, rfl, rfl⟩, rfl⟩

/-- **The drained queue.** -/
theorem run_handle_view (messages : List ServerMessage) : ∀ {link link' : ServerLink}
    {os : List UiEvent}, link.board ≠ none →
      run ServerLink.handle_message link messages = .ok (link', os) →
      link'.board ≠ none ∧ Joiner.Handled link link' ∧
        link'.view = link.view.after (news messages) := by
  induction messages with
  | nil =>
      intro link link' os hboard h
      obtain ⟨rfl, rfl⟩ := Prod.mk.inj (Except.ok.inj h)
      exact ⟨hboard, .refl link, rfl⟩
  | cons message messages ih =>
      intro link link' os hboard h
      obtain ⟨link₁, os₁, os₂, hone, hrun, rfl⟩ := run_cons_ok_iff.mp h
      obtain ⟨hboard₁, hhandled₁, hview₁⟩ := handle_view hboard hone
      obtain ⟨hboard₂, hhandled₂, hview₂⟩ := ih hboard₁ hrun
      refine ⟨hboard₂, hhandled₁.trans hhandled₂, ?_⟩
      rw [hview₂, hview₁, news_cons, View.after_append]

end KungFuChess
