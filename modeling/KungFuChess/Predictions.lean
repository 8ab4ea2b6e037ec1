/-
**What a joiner's predictions are worth.**

A client takes every `MotionStarted` it is sent, and skips the updates its snapshot
covers. `Aware` says of a state what keeps that from doing harm: the client, once it has
its board and has heard what is on its way, will believe in no motion that is not there
(`Following.Faithful`). Each step of either end keeps it, but the snapshot: there it
holds just when the motions that the connection has been told of are still there
(`aware_snapshot`).
-/
import KungFuChess.Interleaved
import KungFuChess.Tidings

set_option autoImplicit false

namespace KungFuChess

open Machine Following

namespace Joiner

/-! ## The invariant -/

/-- The announcement a tick has yet to make. -/
def unheard (tick : TickStage) : List (News PieceId) := (unannounced tick).map end_of

/-- The announcements on their way to the client, oldest first. -/
def tidings (s : Joiner) : List (News PieceId) :=
  news (s.client.incoming_queue ++ s.wire) ++ unheard s.tick

/-- What the client goes by: its predictions, or the snapshot that is on its way. -/
def outlook (s : Joiner) : Option (View PieceId) :=
  if s.client.board = none then s.stage.welcome.map fun w => ⟨∅, w.revision⟩
  else some s.client.view

structure Aware (s : Joiner) : Prop where
  sound : s.server.engine.Sound
  numbered : ∀ ids number, .ended ids number ∈ s.tidings →
    number ≠ 0 ∧ number ≤ s.server.revision
  unwelcomed : s.stage.welcome = none → s.client.board = none
  welcomes : ∀ w ∈ s.welcomes, s.stage.welcome = some w
  unbuilt : s.client.board = none → s.client.view.going = ∅
  faithful : s.connection ∈ s.server.audience.everyone → ∀ v, s.outlook = some v →
    Faithful v s.tidings s.server.moving s.server.revision

/-! ## Steps of the server -/

section Server

variable {s : Joiner} {r : Match × List MatchEvent}

theorem tidings_hears (tick : TickStage) (stage : JoinStage) :
    ({ s.hears r with tick := tick, stage := stage } : Joiner).tidings
      = news (s.client.incoming_queue ++ s.wire) ++ news (delivered s.connection r.2)
        ++ unheard tick := by
  unfold tidings hears
  dsimp only
  rw [← List.append_assoc, news_append _ (delivered _ _)]

theorem welcomes_hears {message_welcomes : List Welcome} (tick : TickStage) (stage : JoinStage)
    (h : welcomes_of (delivered s.connection r.2) = message_welcomes) :
    ∀ w ∈ ({ s.hears r with tick := tick, stage := stage } : Joiner).welcomes,
      w ∈ s.welcomes ∨ w ∈ message_welcomes := by
  intro w hw
  unfold welcomes hears at hw
  dsimp only at hw
  rw [welcomes_of_append, h] at hw
  unfold welcomes
  simp only [List.mem_append] at hw ⊢
  tauto

/-- **A step that says nothing of motions**, and takes nobody new on. -/
theorem Aware.quiet (h : Aware s) (tick : TickStage) (stage : JoinStage)
    (hengine : r.1.engine = s.server.engine) (hrevision : r.1.revision = s.server.revision)
    (hroster : s.outlook ≠ none → s.connection ∈ r.1.audience.everyone →
      s.connection ∈ s.server.audience.everyone)
    (hnews : news (delivered s.connection r.2) = [])
    (hwelcomes : welcomes_of (delivered s.connection r.2) = [])
    (htick : unannounced tick = unannounced s.tick) (hstage : stage.welcome = s.stage.welcome) :
    Aware { s.hears r with tick := tick, stage := stage } := by
  have htidings : ({ s.hears r with tick := tick, stage := stage } : Joiner).tidings
      = s.tidings := by
    rw [tidings_hears, hnews, List.append_nil, unheard, htick]
    rfl
  have houtlook : ({ s.hears r with tick := tick, stage := stage } : Joiner).outlook
      = s.outlook := by
    unfold outlook hears
    dsimp only
    rw [hstage]
  have hmoving : r.1.moving = s.server.moving := by
    unfold Match.moving
    rw [hengine]
  refine ⟨?_, ?_, ?_, ?_, h.unbuilt, ?_⟩
  · change r.1.engine.Sound
    rw [hengine]
    exact h.sound
  · rw [htidings]
    change ∀ ids number, _ → number ≠ 0 ∧ number ≤ r.1.revision
    rw [hrevision]
    exact h.numbered
  · intro hnone
    exact h.unwelcomed (hstage.symm.trans hnone)
  · intro w hw
    rcases welcomes_hears tick stage hwelcomes w hw with hw | hw
    · exact hstage.trans (h.welcomes w hw)
    · cases hw
  · intro hatt v hv
    rw [htidings]
    rw [houtlook] at hv
    have hold := hroster (by simp [hv]) hatt
    change Faithful v s.tidings r.1.moving r.1.revision
    rw [hmoving, hrevision]
    exact h.faithful hold v hv

/-- The worker gets on without an announcement to make. -/
theorem Aware.at_tick (h : Aware s) {tick : TickStage}
    (htick : unannounced tick = unannounced s.tick) : Aware { s with tick := tick } := by
  have htidings : ({ s with tick := tick } : Joiner).tidings = s.tidings := by
    unfold tidings unheard
    dsimp only
    rw [htick]
  refine ⟨h.sound, ?_, h.unwelcomed, h.welcomes, h.unbuilt, fun hatt v hv => ?_⟩
  · exact htidings.symm ▸ h.numbered
  · exact htidings.symm ▸ h.faithful hatt v hv

/-- **Registering**: the client has no board and no snapshot to go by. -/
theorem aware_register (h : Aware s) (hstage : s.stage = .outside) (request : JoinRequest) :
    Aware { s.hears (s.server.register s.connection request).1 with
      stage := (s.server.register s.connection request).2 } := by
  obtain ⟨hengine, hrevision, _, hnone, hcase⟩ := register_spec s.server s.connection request
  have hwelcome : s.stage.welcome = none := by rw [hstage]; rfl
  have houtlook : s.outlook = none := by
    unfold outlook
    rw [if_pos (h.unwelcomed hwelcome), hwelcome]
    rfl
  refine h.quiet s.tick _ hengine hrevision (fun hne => absurd houtlook hne) (by rw [hnone]; rfl)
    (by rw [hnone]; rfl) rfl ?_
  rw [hwelcome]
  obtain ⟨href, _⟩ | ⟨color, already_started, hreg, _⟩ := hcase
  · rw [href]
    rfl
  · rw [hreg]
    rfl

/-- The motion that a message announces is there. -/
def StillMoving (m : Match) : ServerMessage → Prop
  | .MotionStarted motion =>
      (m.engine.arbiter.motion_for motion.moving_piece.id).isSome = true
  | _ => True

instance (m : Match) : ∀ message, Decidable (StillMoving m message)
  | .MotionStarted _ => inferInstanceAs (Decidable (_ = true))
  | .Welcome _ | .BoardUpdate _ | .MoveRejected _ | .JoinFailed _ | .JoinRedirect _
  | .LoginFailed _ | .OpponentDisconnected _ | .OpponentReconnected | .MatchStart _
  | .GameOver _ => .isTrue trivial

/-- All the motions the connection has been told of are there. The client processes
nothing before its board is built, so the messages of the time before are still waiting. -/
def NoneEnded (s : Joiner) : Prop :=
  ∀ message ∈ s.client.incoming_queue ++ s.wire, StillMoving s.server message

instance (s : Joiner) : Decidable s.NoneEnded :=
  inferInstanceAs (Decidable (∀ message ∈ s.client.incoming_queue ++ s.wire, _))

theorem started_mem_tidings {i : PieceId} : .started i ∈ s.tidings ↔
    ∃ motion : Motion, .MotionStarted motion ∈ s.client.incoming_queue ++ s.wire ∧
      motion.moving_piece.id = i := by
  have hunheard : .started i ∉ unheard s.tick := by
    intro hmem
    obtain ⟨update, _, hend⟩ := List.mem_map.mp hmem
    cases hend
  constructor
  · intro hmem
    obtain ⟨message, hm, hnews⟩ := List.mem_filterMap.mp
      ((List.mem_append.mp hmem).resolve_right hunheard)
    cases message with
    | MotionStarted motion =>
        exact ⟨motion, hm, News.started.inj (Option.some.inj hnews)⟩
    | _ => cases hnews
  · rintro ⟨motion, hm, rfl⟩
    exact List.mem_append_left _ (List.mem_filterMap.mpr ⟨_, hm, rfl⟩)

/-- **What a snapshot taken now is worth.** -/
theorem snapshot_faithful_iff (h : Aware s) :
    Faithful ⟨∅, s.server.revision⟩ s.tidings s.server.moving s.server.revision ↔
      s.NoneEnded := by
  rw [faithful_snapshot_iff h.numbered]
  constructor
  · intro hall message hm
    cases message with
    | MotionStarted motion => exact hall _ (started_mem_tidings.mpr ⟨motion, hm, rfl⟩)
    | _ => trivial
  · intro hall i hi
    obtain ⟨motion, hm, rfl⟩ := started_mem_tidings.mp hi
    exact hall _ hm

/-- **The snapshot**, while all that was announced to the joiner is there. -/
theorem aware_snapshot {request : JoinRequest} {color : PieceColor} {already_started : Bool}
    (h : Aware s) (hstage : s.stage = .registered request color already_started)
    (hnone : s.NoneEnded) :
    Aware { s with
      stage := .snapshotted request color already_started
        (s.server.welcome_for color request.spectator) } := by
  have hwelcome : s.stage.welcome = none := by rw [hstage]; rfl
  have hboard := h.unwelcomed hwelcome
  refine ⟨h.sound, h.numbered, fun _ => hboard, fun w hw => ?_, h.unbuilt, fun _ v hv => ?_⟩
  · -- there was no snapshot, and so no `Welcome`
    have hsome := h.welcomes w hw
    rw [hwelcome] at hsome
    cases hsome
  · unfold outlook at hv
    rw [if_pos hboard] at hv
    obtain rfl := Option.some.inj hv
    exact (snapshot_faithful_iff h).mpr hnone

theorem aware_send_welcome {request : JoinRequest} {color : PieceColor} {already_started : Bool}
    {welcome : Welcome} (h : Aware s)
    (hstage : s.stage = .snapshotted request color already_started welcome) :
    Aware { s.hears (s.server, [.sent s.connection (.Welcome welcome)]) with
      stage := .welcomed request color already_started welcome } := by
  have hdelivered : delivered s.connection [.sent s.connection (.Welcome welcome)]
      = [.Welcome welcome] := by
    unfold delivered
    rw [List.flatMap_singleton]
    exact if_pos rfl
  have hsome : s.stage.welcome = some welcome := by rw [hstage]; rfl
  have htidings := tidings_hears (s := s)
    (r := (s.server, [.sent s.connection (.Welcome welcome)])) s.tick
    (.welcomed request color already_started welcome)
  rw [hdelivered] at htidings
  have hsame : news (s.client.incoming_queue ++ s.wire) ++ news [.Welcome welcome]
      ++ unheard s.tick = s.tidings := by
    rw [show news [.Welcome welcome] = [] from rfl, List.append_nil]
    rfl
  rw [hsame] at htidings
  have hone : welcomes_of (delivered s.connection [.sent s.connection (.Welcome welcome)])
      = [welcome] := by
    rw [hdelivered]
    rfl
  refine ⟨h.sound, ?_, fun hnot => ?_, fun w hw => ?_, h.unbuilt, fun hatt v hv => ?_⟩
  · exact htidings.symm ▸ h.numbered
  · cases hnot
  · rcases welcomes_hears s.tick _ hone w hw with hw | hw
    · exact hsome.symm.trans (h.welcomes w hw)
    · rw [List.mem_singleton.mp hw]
      rfl
  · have hv' : s.outlook = some v := by
      unfold outlook at hv ⊢
      rw [hsome]
      exact hv
    exact htidings.symm ▸ h.faithful hatt v hv'

theorem aware_send_start {request : JoinRequest} {color : PieceColor} {already_started : Bool}
    {welcome : Welcome} (h : Aware s)
    (hstage : s.stage = .welcomed request color already_started welcome) :
    Aware { s.hears (s.server, s.server.start_messages s.connection request color already_started
      welcome) with stage := .returned welcome } := by
  refine h.quiet s.tick _ rfl rfl (fun _ hatt => hatt)
    ((Match.motionless_start_messages _ _ _ _ _ _).news _)
    (welcomes_of_plain (chatter_start_messages _ _ _ _ _ _)) rfl ?_
  rw [hstage]
  rfl

theorem aware_other {call : Match.Call} (h : Aware s) (helse : Elsewhere s.connection call)
    (hr : s.server.exec call = .ok r) : Aware (s.hears r) := by
  obtain ⟨hengine, hrevision, _, hcount, hchat⟩ := exec_elsewhere helse hr
  have htick : ∀ now elapsed_ms, call ≠ .tick now elapsed_ms := by
    rintro now elapsed_ms rfl
    exact helse
  refine h.quiet s.tick s.stage hengine hrevision (fun _ hatt => ?_)
    ((Match.motionless_call htick hr).news _) (welcomes_of_plain hchat) rfl rfl
  have hpos := List.count_pos_iff.mpr hatt
  exact List.count_pos_iff.mp (by omega)

theorem aware_announce_rest {now : Int} (h : Aware s) (htick : s.tick = .announced now) :
    Aware { s.hears (s.server.announce_rest now) with tick := .idle } := by
  have hannounced : Match.Announced s.server (s.server.announce_rest now).1 :=
    (Match.announce_resignation_announced s.server).trans
      ((Match.advance_disconnect_countdown_announced _ now).trans
        (Match.release_if_due_announced _ now))
  refine h.quiet .idle s.stage ?_ ?_ (fun _ => ?_) ((Match.motionless_announce_rest _ _).news _)
    (welcomes_of_plain (chatter_announce_rest _ _ now)) ?_ rfl
  · rw [hannounced.rest]
  · rw [hannounced.rest]
  · rw [hannounced.rest]
    exact id
  · rw [htick]
    rfl

/-- **The broadcast of the arrivals** makes the announcement that is due. -/
theorem aware_announce_arrivals {events : List ArrivalEvent} {at_revision : Nat} {now : Int}
    (h : Aware s) (htick : s.tick = .advanced now events at_revision) :
    Aware { s.hears (s.server.announce_arrivals events at_revision) with
      tick := .announced now } := by
  have hrest := (Match.announce_arrivals_announced s.server events at_revision).rest
  have hengine : (s.server.announce_arrivals events at_revision).1.engine = s.server.engine := by
    rw [hrest]
  have hrevision : (s.server.announce_arrivals events at_revision).1.revision
      = s.server.revision := by
    rw [hrest]
  have haudience : (s.server.announce_arrivals events at_revision).1.audience
      = s.server.audience := by
    rw [hrest]
  have htidings : ({ s.hears (s.server.announce_arrivals events at_revision) with
      tick := .announced now } : Joiner).tidings
        = news (s.client.incoming_queue ++ s.wire) ++ (recorded events at_revision).flatMap
            fun update => List.replicate (s.server.audience.everyone.count s.connection)
              (end_of update) := by
    rw [← Match.news_announce_arrivals]
    exact (tidings_hears (.announced now) s.stage).trans (List.append_nil _)
  have hwelcomes := (delivered_announce_arrivals s.connection s.server events at_revision).2.1
  have hold : s.tidings = news (s.client.incoming_queue ++ s.wire)
      ++ (recorded events at_revision).map end_of := by
    unfold tidings unheard
    rw [htick]
    rfl
  refine ⟨?_, fun ids number hmem => ?_, h.unwelcomed, fun w hw => ?_, h.unbuilt,
    fun hatt v hv => ?_⟩
  · rw [hears, hengine]
    exact h.sound
  · change number ≠ 0 ∧ number ≤ (s.server.announce_arrivals events at_revision).1.revision
    rw [hrevision]
    -- it was due before
    refine h.numbered ids number ?_
    rw [htidings] at hmem
    rw [hold]
    rcases List.mem_append.mp hmem with hmem | hmem
    · exact List.mem_append_left _ hmem
    · obtain ⟨update, hupdate, hmem⟩ := List.mem_flatMap.mp hmem
      exact List.mem_append_right _
        (List.mem_map.mpr ⟨update, hupdate, (List.eq_of_mem_replicate hmem).symm⟩)
  · rcases welcomes_hears (.announced now) s.stage hwelcomes w hw with hw | hw
    · exact h.welcomes w hw
    · cases hw
  · have hatt' : s.connection ∈ s.server.audience.everyone := by
      rw [← haudience]
      exact hatt
    have hfaithful := h.faithful hatt' v hv
    rw [hold] at hfaithful
    rw [htidings]
    change Faithful v _ (s.server.announce_arrivals events at_revision).1.moving
      (s.server.announce_arrivals events at_revision).1.revision
    rw [Match.moving, hengine, hrevision]
    unfold recorded at hfaithful ⊢
    split_ifs at hfaithful ⊢
    · exact hfaithful
    · -- whoever is on the roster is sent it at least once
      obtain ⟨k, hk⟩ := Nat.exists_eq_succ_of_ne_zero
        (Nat.pos_iff_ne_zero.mp (List.count_pos_iff.mpr hatt'))
      rw [List.flatMap_singleton, hk]
      exact hfaithful.replicate k

theorem tidings_idle (htick : s.tick = .idle) :
    s.tidings = news (s.client.incoming_queue ++ s.wire) := by
  unfold tidings unheard
  rw [htick]
  exact List.append_nil _

/-- **A command**: what it announces is in motion. -/
theorem aware_apply {source : PieceColor} {message : ClientMessage} (h : Aware s)
    (htick : s.tick = .idle) (hr : s.server.apply source message = .ok r) :
    Aware (s.hears r) := by
  obtain ⟨m, os⟩ := r
  have happlied := Match.apply_applied hr
  obtain ⟨hsound, hmoving⟩ := Match.apply_moving h.sound hr
  have hrevision : m.revision = s.server.revision := by rw [happlied.rest]
  have haudience : m.audience = s.server.audience := by rw [happlied.rest]
  have hstarts : ∀ n ∈ news (delivered s.connection os), ∃ i ∈ m.moving, n = .started i := by
    intro n hn
    obtain ⟨message', hm, hnews⟩ := List.mem_filterMap.mp hn
    obtain ⟨e, he, hsame⟩ := mem_delivered hm
    have hannounces := Match.apply_announces hr e he
    rw [← hsame] at hnews
    unfold Match.Announces at hannounces
    split at hannounces
    · cases hnews
    · rename_i motion
      exact ⟨_, hannounces, (Option.some.inj hnews).symm⟩
    · cases hannounces
  have hwelcomes := welcomes_of_plain (chatter_answers s.connection happlied.answers)
  have htidings : (s.hears (m, os)).tidings = s.tidings ++ news (delivered s.connection os) := by
    rw [tidings_idle htick, tidings_idle (s := s.hears (m, os)) htick, ← news_append]
    unfold hears
    rw [List.append_assoc]
  refine ⟨hsound, fun ids number hmem => ?_, h.unwelcomed, fun w hw => ?_, h.unbuilt,
    fun hatt v hv => ?_⟩
  · change number ≠ 0 ∧ number ≤ m.revision
    rw [hrevision]
    rw [htidings] at hmem
    rcases List.mem_append.mp hmem with hmem | hmem
    · exact h.numbered ids number hmem
    · obtain ⟨i, _, hstarted⟩ := hstarts _ hmem
      cases hstarted
  · rcases welcomes_hears s.tick s.stage hwelcomes w hw with hw | hw
    · exact h.welcomes w hw
    · cases hw
  · have hatt' : s.connection ∈ s.server.audience.everyone := by
      rw [← haudience]
      exact hatt
    rw [htidings]
    change Faithful v _ m.moving m.revision
    rw [hrevision]
    exact ((h.faithful hatt' v hv).mono hmoving).starts hstarts

/-- **The passing of time** makes an announcement due, of all that it ended. -/
theorem aware_let_time_pass {elapsed_ms : Nat} {m : Match} {events : List ArrivalEvent}
    {now : Int} (h : Aware s) (htick : s.tick = .idle)
    (hr : s.server.let_time_pass elapsed_ms = .ok (m, events)) :
    Aware { s with server := m, tick := .advanced now events m.revision } := by
  obtain ⟨hrest, hsound, hmoving⟩ := Match.let_time_pass_spec h.sound hr
  have hrevision : m.revision
      = if events.isEmpty then s.server.revision else s.server.revision + 1 := by
    rw [hrest]
  have haudience : m.audience = s.server.audience := by rw [hrest]
  have hdue : ({ s with server := m, tick := .advanced now events m.revision } : Joiner).tidings
      = s.tidings ++ (recorded events m.revision).map end_of := by
    rw [tidings_idle htick]
    rfl
  by_cases hempty : events.isEmpty = true
  · -- nothing has arrived, and nothing is due
    obtain rfl := List.isEmpty_iff.mp hempty
    have htidings : ({ s with server := m, tick := .advanced now [] m.revision } : Joiner).tidings
        = s.tidings := hdue.trans (List.append_nil _)
    have hmore : s.server.moving ⊆ m.moving := fun i hi => hmoving ⟨hi, by simp [ended_ids]⟩
    refine ⟨hsound, ?_, h.unwelcomed, h.welcomes, h.unbuilt, fun hatt v hv => ?_⟩
    · rw [htidings]
      change ∀ ids number, _ → number ≠ 0 ∧ number ≤ m.revision
      rw [hrevision]
      exact h.numbered
    · rw [htidings]
      change Faithful v _ m.moving m.revision
      rw [hrevision]
      exact (h.faithful (haudience ▸ hatt) v hv).mono hmore
  · have hnext : m.revision = s.server.revision + 1 := hrevision.trans (if_neg hempty)
    have htidings :
        ({ s with server := m, tick := .advanced now events m.revision } : Joiner).tidings
          = s.tidings ++ [.ended {i | i ∈ ended_ids events} (s.server.revision + 1)] := by
      rw [hdue, recorded, if_neg hempty, List.map_singleton, end_of, hnext]
    refine ⟨hsound, fun ids number hmem => ?_, h.unwelcomed, h.welcomes, h.unbuilt,
      fun hatt v hv => ?_⟩
    · change number ≠ 0 ∧ number ≤ m.revision
      rw [htidings] at hmem
      rcases List.mem_append.mp hmem with hmem | hmem
      · have hold := h.numbered ids number hmem
        omega
      · obtain ⟨rfl, rfl⟩ := News.ended.inj (List.mem_singleton.mp hmem)
        omega
    · rw [htidings]
      change Faithful v _ m.moving m.revision
      rw [hnext]
      exact (h.faithful (haudience ▸ hatt) v hv).ended hmoving

end Server

/-! ## Steps of the client -/

section Client

variable {s : Joiner}

/-- What `on_message` leaves as it is. -/
theorem on_message_frame (link : ServerLink) (message : ServerMessage) :
    (link.on_message message).board = link.board ∧ (link.on_message message).view = link.view ∧
      (∀ wire, news ((link.on_message message).incoming_queue ++ wire)
        = news (link.incoming_queue ++ message :: wire)) ∧
      ∀ w, (link.on_message message).pending_welcome = some w →
        message = .Welcome w ∨ link.pending_welcome = some w := by
  -- a message that is filed elsewhere says nothing of motions
  have hfiled : news_of message = none → ∀ wire,
      news (link.incoming_queue ++ wire) = news (link.incoming_queue ++ message :: wire) := by
    intro hnone wire
    rw [news_append, news_append, news_cons, hnone]
    rfl
  cases message with
  | Welcome welcome =>
      exact ⟨rfl, rfl, hfiled rfl, fun w hw => .inl (by rw [Option.some.inj hw])⟩
  | JoinFailed reason => exact ⟨rfl, rfl, hfiled rfl, fun w hw => .inr hw⟩
  | JoinRedirect url => exact ⟨rfl, rfl, hfiled rfl, fun w hw => .inr hw⟩
  | LoginFailed reason => exact ⟨rfl, rfl, hfiled rfl, fun w hw => .inr hw⟩
  | _ =>
      refine ⟨rfl, rfl, fun wire => ?_, fun w hw => .inr hw⟩
      unfold ServerLink.on_message
      dsimp only
      rw [List.append_assoc]
      rfl

theorem aware_receive {message : ServerMessage} {wire : List ServerMessage} (h : Aware s)
    (hwire : s.wire = message :: wire) :
    Aware { s with wire := wire, client := s.client.on_message message } := by
  obtain ⟨hboard, hview, hnews, hpending⟩ := on_message_frame s.client message
  have htidings : ({ s with wire := wire, client := s.client.on_message message } : Joiner).tidings
      = s.tidings := by
    unfold tidings
    dsimp only
    rw [hnews wire, ← hwire]
  have houtlook : ({ s with wire := wire, client := s.client.on_message message } : Joiner).outlook
      = s.outlook := by
    unfold outlook
    dsimp only
    rw [hboard, hview]
  refine ⟨h.sound, ?_, fun hnone => hboard.trans (h.unwelcomed hnone), fun w hw => ?_,
    fun hnone => ?_, fun hatt v hv => ?_⟩
  · exact htidings.symm ▸ h.numbered
  · refine h.welcomes w ?_
    unfold welcomes at hw ⊢
    rw [hwire]
    have hhead : welcomes_of (message :: wire) = welcomes_of [message] ++ welcomes_of wire := by
      rw [← welcomes_of_append]
      rfl
    rw [hhead]
    rcases List.mem_append.mp hw with hw | hw
    · exact List.mem_append_left _ (List.mem_append_right _ hw)
    · rcases hpending w (Option.mem_toList.mp hw) with rfl | hold
      · exact List.mem_append_left _ (List.mem_append_left _ (List.mem_singleton_self w))
      · exact List.mem_append_right _ (Option.mem_toList.mpr hold)
  · change (s.client.on_message message).view.going = ∅
    rw [hview]
    exact h.unbuilt (hboard.symm.trans hnone)
  · exact htidings.symm ▸ h.faithful hatt v (houtlook.symm.trans hv)

/-- **The board is built**: the client goes on from its snapshot. -/
theorem aware_wait_for_welcome {client : ServerLink} {outcome : WelcomeOutcome} (h : Aware s)
    (hboard : s.client.board = none)
    (hr : s.client.wait_for_welcome 0 = .ok (client, outcome)) :
    Aware { s with client := client } := by
  unfold ServerLink.wait_for_welcome at hr
  split at hr
  · rw [if_neg (by decide)] at hr
    obtain ⟨rfl, rfl⟩ := Prod.mk.inj (Except.ok.inj hr)
    exact ⟨h.sound, h.numbered, h.unwelcomed, h.welcomes, h.unbuilt, h.faithful⟩
  · obtain ⟨rfl, rfl⟩ := Prod.mk.inj (Except.ok.inj hr)
    exact h
  · obtain ⟨rfl, rfl⟩ := Prod.mk.inj (Except.ok.inj hr)
    exact h
  · rename_i w hredirect hfailed hpending
    obtain ⟨board, _, hret⟩ := (bind_ok_iff _ _ _).mp hr
    obtain ⟨rfl, rfl⟩ := Prod.mk.inj (Except.ok.inj hret)
    have hsome : s.stage.welcome = some w := by
      refine h.welcomes w (List.mem_append_right _ ?_)
      rw [hpending]
      exact List.mem_singleton_self w
    refine ⟨h.sound, h.numbered, fun hnone => ?_, fun w' hw' => ?_, fun hnone => ?_,
      fun hatt v hv => h.faithful hatt v ?_⟩
    · rw [hsome] at hnone
      cases hnone
    · refine h.welcomes w' (List.mem_append_left _ ?_)
      unfold welcomes at hw'
      simpa using hw'
    · cases hnone
    · -- no prediction yet, and the revision of the snapshot
      unfold outlook at hv ⊢
      rw [if_pos hboard, hsome]
      rw [if_neg (by simp)] at hv
      obtain rfl := Option.some.inj hv
      have hgoing := h.unbuilt hboard
      unfold ServerLink.view at hgoing ⊢
      exact congrArg (fun going => some (⟨going, w.revision⟩ : View PieceId)) hgoing.symm

/-- **The queue is drained**: what was announced is believed. -/
theorem aware_wait {client : ServerLink} {os : List UiEvent} (h : Aware s)
    (hboard : s.client.board ≠ none) (hr : s.client.wait = .ok (client, os)) :
    Aware { s with client := client } := by
  have hstart : ({ s.client with incoming_queue := [] } : ServerLink).board ≠ none := hboard
  obtain ⟨hbuilt, hhandled, hview⟩ := run_handle_view s.client.incoming_queue hstart hr
  have hqueue : client.incoming_queue = [] := hhandled.incoming_queue
  have hpending : client.pending_welcome = s.client.pending_welcome := hhandled.pending_welcome
  have hheard : client.view = s.client.view.after (news s.client.incoming_queue) := hview
  have htidings : s.tidings
      = news s.client.incoming_queue ++ ({ s with client := client } : Joiner).tidings := by
    unfold tidings
    dsimp only
    rw [hqueue, List.nil_append, news_append, List.append_assoc]
  refine ⟨h.sound, fun ids number hmem => ?_, fun hnone => ?_, fun w hw => ?_, fun hnone => ?_,
    fun hatt v hv => ?_⟩
  · refine h.numbered ids number ?_
    rw [htidings]
    exact List.mem_append_right _ hmem
  · exact absurd (h.unwelcomed hnone) hboard
  · refine h.welcomes w ?_
    unfold welcomes at hw ⊢
    dsimp only at hw
    rwa [hpending] at hw
  · exact absurd hnone hbuilt
  · unfold outlook at hv
    rw [if_neg hbuilt] at hv
    obtain rfl := Option.some.inj hv
    have hold := h.faithful hatt s.client.view (by
      unfold outlook
      rw [if_neg hboard])
    rw [htidings] at hold
    have hnew := faithful_append.mp hold
    change Faithful client.view _ _ _
    rw [hheard]
    exact hnew

end Client

end Joiner

end KungFuChess
