/-
What holds a joiner's view together.

It is one number, how many of the server's updates the joiner has been past: the
updates on their way to it are a window of the server's log that begins there
(`LogFollower.Queued`), registration fixes the beginning of the window, and the
snapshot, taken later, covers at least all that came before it. The client skips
what its snapshot covers and applies the rest (`LogFollower.Followed`). `Sees` says
this of a state, and each step of either end keeps it.
-/
import KungFuChess.Delivery

set_option autoImplicit false

namespace KungFuChess

open Machine LogFollower

namespace Joiner

/-! ## The invariant -/

/-- The update a tick has recorded and not yet broadcast. -/
def unannounced : TickStage → List BoardUpdate
  | .advanced _ events at_revision => recorded events at_revision
  | _ => []

/-- The updates on their way to the client's board, oldest first. -/
def incoming (s : Joiner) : List BoardUpdate :=
  updates_of s.client.incoming_queue ++ updates_of s.wire

/-- The `Welcome`s on their way to the client. -/
def welcomes (s : Joiner) : List Welcome :=
  welcomes_of s.wire ++ s.client.pending_welcome.toList

end Joiner

/-- The snapshot a join has taken. -/
def JoinStage.welcome : JoinStage → Option Welcome
  | .snapshotted _ _ _ welcome => some welcome
  | .welcomed _ _ _ welcome => some welcome
  | .returned welcome => some welcome
  | _ => none

/-- The snapshot is on its way. -/
def JoinStage.sent : JoinStage → Bool
  | .welcomed _ _ _ _ => true
  | .returned _ => true
  | _ => false

/-- The joiner is not on the roster yet, or never will be. -/
def JoinStage.unregistered : JoinStage → Bool
  | .outside => true
  | .refused => true
  | _ => false

namespace Joiner

/-- A snapshot of the first `w.revision` updates. -/
structure Taken (m : Match) (updates : List BoardUpdate) (w : Welcome) : Prop where
  revision_le : w.revision ≤ updates.length
  history : w.history = (updates.take w.revision).flatMap BoardUpdate.arrival_events
  board : ∃ b, build_board w.board = .ok b ∧ SameSize m.engine.board b

theorem Taken.mono {m m' : Match} {updates : List BoardUpdate} {w : Welcome}
    (h : Taken m updates w) (hsize : SameSize m.engine.board m'.engine.board)
    (later : List BoardUpdate) : Taken m' (updates ++ later) w where
  revision_le := by
    rw [List.length_append]
    exact Nat.le_add_right_of_le h.revision_le
  history := by rw [List.take_append_of_le_length h.revision_le, h.history]
  board := by
    obtain ⟨b, hb, hs⟩ := h.board
    exact ⟨b, hb, hsize.symm.trans hs⟩

/-- How far the joiner's snapshot has got, when the client has been past `n` updates. -/
inductive Greeting (s : Joiner) (tr : List Seen) (n : ℕ) : Prop
  | unsent (stage : s.stage.sent = false) (welcomes : s.welcomes = [])
      (board : s.client.board = none) (built : built tr = []) (applied : applied tr = [])
      (covered : ∀ w, s.stage.welcome = some w → n ≤ w.revision)
  | sent (w : Welcome) (stage : s.stage.sent = true) (welcome : s.stage.welcome = some w)
      (welcomes : s.welcomes = [w]) (board : s.client.board = none) (built : built tr = [])
      (applied : applied tr = []) (covered : n ≤ w.revision)
  | built (w : Welcome) (stage : s.stage.sent = true) (welcome : s.stage.welcome = some w)
      (welcomes : s.welcomes = []) (board : ∃ b, s.client.board = some b ∧
        SameSize s.server.engine.board b) (built : built tr = [w])
      (followed : Followed (updated tr) (applied tr) w.revision s.client.revision n)

/-- Where the joiner stands in the server's log: it has been past `n` updates, and
it has been sent `d` of them. -/
structure Position (s : Joiner) (tr : List Seen) (n d : ℕ) : Prop where
  queued : Queued (updated tr) s.incoming n d
  complete : s.attached = 1 → d + (unannounced s.tick).length = (updated tr).length
  greeting : Greeting s tr n

/-- What every state of a run satisfies. -/
structure Sees (s : Joiner) (tr : List Seen) : Prop where
  log : ServerLog s.server (updated tr)
  pending : unannounced s.tick <:+ updated tr
  once : s.attached ≤ 1
  unregistered : s.stage.unregistered = true → s.attached = 0 ∧ s.incoming = []
  fine : ∀ message ∈ s.wire, Fine message
  admitted : s.client.join_failure = none ∧ s.client.pending_redirect_url = none
  taken : ∀ w, s.stage.welcome = some w → Taken s.server (updated tr) w
  position : ∃ n d, Position s tr n d

/-! ## Steps of the server -/

section Server

variable {s : Joiner} {tr : List Seen} {n d : ℕ} {r : Match × List MatchEvent}

/-- The messages of a step that says nothing about the board. -/
theorem incoming_hears (tick : TickStage) (stage : JoinStage) (hchat : Chatter s.connection r.2) :
    ({ s.hears r with tick := tick, stage := stage } : Joiner).incoming = s.incoming ∧
      ({ s.hears r with tick := tick, stage := stage } : Joiner).welcomes = s.welcomes := by
  unfold incoming welcomes hears
  dsimp only
  rw [updates_of_append, welcomes_of_append, updates_of_plain hchat, welcomes_of_plain hchat,
    List.append_nil, List.append_nil]
  exact ⟨rfl, rfl⟩

theorem fine_hears (h : ∀ message ∈ s.wire, Fine message) (hchat : Chatter s.connection r.2) :
    ∀ message ∈ (s.hears r).wire, Fine message := by
  intro message hm
  rcases List.mem_append.mp hm with hm | hm
  · exact h message hm
  · exact (hchat message hm).fine

/-- A greeting goes on while the server does other things. -/
theorem Greeting.hears {stage : JoinStage} (h : Greeting s tr n) (tick : TickStage)
    (hchat : Chatter s.connection r.2)
    (hengine : r.1.engine = s.server.engine) (hwelcome : stage.welcome = s.stage.welcome)
    (hsent : stage.sent = s.stage.sent) :
    Greeting { s.hears r with tick := tick, stage := stage } tr n := by
  have hw := (incoming_hears tick stage hchat).2
  cases h with
  | unsent h1 h2 h3 h4 h5 h6 =>
      refine .unsent (hsent.trans h1) (hw.trans h2) h3 h4 h5 (fun w hcov => h6 w ?_)
      rw [← hwelcome]
      exact hcov
  | sent w h1 h2 h3 h4 h5 h6 h7 =>
      exact .sent w (hsent.trans h1) (hwelcome.trans h2) (hw.trans h3) h4 h5 h6 h7
  | built w h1 h2 h3 h4 h5 h6 =>
      refine .built w (hsent.trans h1) (hwelcome.trans h2) (hw.trans h3) ?_ h5 h6
      unfold Joiner.hears
      dsimp only
      rw [hengine]
      exact h4

/-- **A step that says nothing about the board**, and takes nobody new on. -/
theorem Sees.quiet (h : Sees s tr) (tick : TickStage) (stage : JoinStage)
    (hengine : r.1.engine = s.server.engine)
    (hrevision : r.1.revision = s.server.revision) (hhistory : r.1.history = s.server.history)
    (hattached : r.1.audience.everyone.count s.connection ≤ s.attached)
    (hchat : Chatter s.connection r.2) (htick : unannounced tick = unannounced s.tick)
    (hwelcome : stage.welcome = s.stage.welcome) (hsent : stage.sent = s.stage.sent)
    (hunreg : stage.unregistered = true → s.stage.unregistered = true) :
    Sees { s.hears r with tick := tick, stage := stage } tr := by
  have hin := (incoming_hears tick stage hchat).1
  obtain ⟨n, d, hpos⟩ := h.position
  refine ⟨h.log.frame hengine hrevision hhistory, ?_, hattached.trans h.once, fun hu => ?_,
    fine_hears h.fine hchat, h.admitted, fun w hw => ?_, n, d, ?_, fun hone => ?_, ?_⟩
  · rw [htick]
    exact h.pending
  · -- whoever is not registered is sent nothing, and still is not
    obtain ⟨hzero, hnone⟩ := h.unregistered (hunreg hu)
    exact ⟨Nat.le_zero.mp (hzero ▸ hattached), hin.trans hnone⟩
  · have htaken := h.taken w (hwelcome.symm.trans hw)
    have hsize : SameSize s.server.engine.board r.1.engine.board := by
      rw [hengine]
      exact .rfl' _
    have := htaken.mono hsize []
    rwa [List.append_nil] at this
  · rw [hin]
    exact hpos.queued
  · rw [htick]
    refine hpos.complete (le_antisymm h.once ?_)
    rw [← hone]
    exact hattached
  · exact hpos.greeting.hears tick hchat hengine hwelcome hsent

/-- **Registering** fixes where the window begins: at the update that is still to
be broadcast, if there is one. -/
theorem sees_register (h : Sees s tr) (hstage : s.stage = .outside) (request : JoinRequest) :
    Sees { s.hears (s.server.register s.connection request).1 with
      stage := (s.server.register s.connection request).2 } tr := by
  obtain ⟨hengine, hrevision, hhistory, hnone, hcase⟩ :=
    register_spec s.server s.connection request
  have hchat : Chatter s.connection (s.server.register s.connection request).1.2 := by
    intro m hm
    rw [hnone] at hm
    cases hm
  have hunreg : s.stage.unregistered = true := by rw [hstage]; rfl
  obtain ⟨hzero, hempty⟩ := h.unregistered hunreg
  obtain ⟨href, hsame⟩ | ⟨color, already_started, hreg, hcount⟩ := hcase
  · refine h.quiet s.tick _ hengine hrevision hhistory ?_ hchat rfl ?_ ?_ fun _ => hunreg
    · rw [hsame]
      exact le_refl _
    · rw [href, hstage]
      rfl
    · rw [href, hstage]
      rfl
  · rw [hreg]
    have hatt : (s.server.register s.connection request).1.1.audience.everyone.count s.connection
        ≤ 1 := by
      have hz : s.server.audience.everyone.count s.connection = 0 := hzero
      rwa [hz] at hcount
    obtain ⟨hin, hwel⟩ := incoming_hears (s := s) s.tick
      (.registered request color already_started) hchat
    obtain ⟨n, d, hpos⟩ := h.position
    -- the update still to be broadcast will reach the joiner, so the window begins before it
    have hlen : (unannounced s.tick).length ≤ (updated tr).length := h.pending.length_le
    refine ⟨h.log.frame hengine hrevision hhistory, h.pending, hatt, nofun,
      fine_hears h.fine hchat, h.admitted, nofun,
      (updated tr).length - (unannounced s.tick).length,
      (updated tr).length - (unannounced s.tick).length, ?_, fun _ => ?_, ?_⟩
    · have hnil := Queued.nil (Nat.sub_le (updated tr).length (unannounced s.tick).length)
      rw [← hempty, ← hin] at hnil
      exact hnil
    · exact Nat.sub_add_cancel hlen
    · cases hpos.greeting with
      | unsent _ h2 h3 h4 h5 _ => exact .unsent rfl (hwel.trans h2) h3 h4 h5 nofun
      | sent _ h1 => rw [hstage] at h1; cases h1
      | built _ h1 => rw [hstage] at h1; cases h1

/-- **The snapshot** covers all that the joiner has not been sent. -/
theorem sees_snapshot {request : JoinRequest} {color : PieceColor} {already_started : Bool}
    (h : Sees s tr) (hstage : s.stage = .registered request color already_started) :
    Sees { s with
      stage := .snapshotted request color already_started
        (s.server.welcome_for color request.spectator) } tr := by
  obtain ⟨n, d, hpos⟩ := h.position
  have hn : n ≤ s.server.revision := by
    rw [h.log.revision]
    exact hpos.queued.le.trans hpos.queued.le_length
  refine ⟨h.log, h.pending, h.once, nofun, h.fine, h.admitted, fun w hw => ?_, n, d,
    hpos.queued, hpos.complete, ?_⟩
  · obtain rfl := Option.some.inj hw
    refine ⟨Nat.le_of_eq h.log.revision, ?_, s.server.engine.board,
      build_board_snapshot_of h.log.sound.cell, .rfl' _⟩
    -- the revision counts the log, so the snapshot covers all of it
    have hall : (updated tr).take s.server.revision = updated tr :=
      List.take_of_length_le (Nat.le_of_eq h.log.revision.symm)
    rw [show (s.server.welcome_for color request.spectator).revision = s.server.revision from rfl,
      hall]
    exact h.log.history
  · cases hpos.greeting with
    | unsent _ h2 h3 h4 h5 _ =>
        refine .unsent rfl h2 h3 h4 h5 (fun w hw => ?_)
        obtain rfl := Option.some.inj hw
        exact hn
    | sent _ h1 => rw [hstage] at h1; cases h1
    | built _ h1 => rw [hstage] at h1; cases h1

theorem sees_send_welcome {request : JoinRequest} {color : PieceColor} {already_started : Bool}
    {welcome : Welcome} (h : Sees s tr)
    (hstage : s.stage = .snapshotted request color already_started welcome) :
    Sees { s.hears (s.server, [.sent s.connection (.Welcome welcome)]) with
      stage := .welcomed request color already_started welcome } tr := by
  have hdel : delivered s.connection [.sent s.connection (.Welcome welcome)]
      = [.Welcome welcome] := by
    unfold delivered
    rw [List.flatMap_singleton]
    exact if_pos rfl
  have hsome : s.stage.welcome = some welcome := by rw [hstage]; rfl
  obtain ⟨n, d, hpos⟩ := h.position
  refine ⟨h.log, h.pending, h.once, nofun, fun m hm => ?_, h.admitted, fun w hw => ?_, n, d,
    ?_, hpos.complete, ?_⟩
  · rw [hears, hdel] at hm
    rcases List.mem_append.mp hm with hm | hm
    · exact h.fine m hm
    · rw [List.mem_singleton.mp hm]
      trivial
  · exact h.taken w (hsome.trans hw)
  · have hin : updates_of (s.wire ++ delivered s.connection [.sent s.connection (.Welcome welcome)])
        = updates_of s.wire := by
      rw [hdel, updates_of_append]
      exact List.append_nil _
    unfold incoming hears
    dsimp only
    rw [hin]
    exact hpos.queued
  · cases hpos.greeting with
    | unsent _ h2 h3 h4 h5 h6 =>
        refine .sent welcome rfl rfl ?_ h3 h4 h5 (h6 welcome hsome)
        -- no `Welcome` was sent before this one
        obtain ⟨hwire, hpend⟩ := List.append_eq_nil_iff.mp h2
        unfold welcomes hears
        dsimp only
        rw [hdel, welcomes_of_append, hwire, hpend]
        rfl
    | sent _ h1 => rw [hstage] at h1; cases h1
    | built _ h1 => rw [hstage] at h1; cases h1

/-- The `MatchStart` that follows says nothing about the board. -/
theorem sees_send_start {request : JoinRequest} {color : PieceColor} {already_started : Bool}
    {welcome : Welcome} (h : Sees s tr)
    (hstage : s.stage = .welcomed request color already_started welcome) :
    Sees { s.hears (s.server, s.server.start_messages s.connection request color already_started
      welcome) with stage := .returned welcome } tr := by
  refine h.quiet s.tick _ rfl rfl rfl (le_refl _) (chatter_start_messages _ _ _ _ _ _) rfl ?_ ?_
    nofun
  · rw [hstage]
    rfl
  · rw [hstage]
    rfl

/-- Nor do calls on other connections. -/
theorem sees_other {call : Match.Call} (h : Sees s tr) (helse : Elsewhere s.connection call)
    (hr : s.server.exec call = .ok r) : Sees (s.hears r) tr := by
  obtain ⟨hengine, hrevision, hhistory, hcount, hchat⟩ := exec_elsewhere helse hr
  exact h.quiet s.tick s.stage hengine hrevision hhistory hcount hchat rfl rfl rfl id

/-- Nor does what a tick announces after the arrivals. -/
theorem sees_announce_rest {now : Int} (h : Sees s tr) (htick : s.tick = .announced now) :
    Sees { s.hears (s.server.announce_rest now) with tick := .idle } tr := by
  have hannounced : Match.Announced s.server (s.server.announce_rest now).1 :=
    (Match.announce_resignation_announced s.server).trans
      ((Match.advance_disconnect_countdown_announced _ now).trans
        (Match.release_if_due_announced _ now))
  refine h.quiet .idle s.stage ?_ ?_ ?_ ?_ (chatter_announce_rest _ _ now) ?_ rfl rfl id
  · rw [hannounced.rest]
  · rw [hannounced.rest]
  · rw [hannounced.rest]
  · rw [hannounced.rest]
    exact le_refl _
  · rw [htick]
    rfl

/-- **The critical section of a tick** appends to the log what it will broadcast. -/
theorem sees_advance {m : Match} {answers : List MatchEvent} {events : List ArrivalEvent}
    {now : Int} (h : Sees s tr) (htick : s.tick = .idle)
    (hadv : Match.BoardAdvanced s.server m answers events) :
    Sees { s.hears (m, answers) with tick := .advanced now events m.revision }
      (tr ++ if events.isEmpty then [] else [.updated ⟨events, m.revision⟩]) := by
  -- a tick without arrivals is not seen, and records nothing
  have hseen : ∀ os : List Seen, os = (if events.isEmpty then [] else
      [.updated ⟨events, m.revision⟩]) →
      updated os = recorded events m.revision ∧ applied os = [] ∧ built os = [] := by
    rintro os rfl
    unfold recorded
    split_ifs <;> exact ⟨rfl, rfl, rfl⟩
  generalize hos : (if events.isEmpty then [] else [Seen.updated ⟨events, m.revision⟩]) = os
  obtain ⟨hup, happ, hbuilt⟩ := hseen os hos.symm
  have hchat := chatter_answers s.connection hadv.answers
  have haud : m.audience = s.server.audience := by rw [hadv.rest]
  obtain ⟨hin, hwel⟩ := incoming_hears (s := s) (r := (m, answers))
    (.advanced now events m.revision) s.stage hchat
  obtain ⟨hlog, hsize⟩ := h.log.advance hadv
  obtain ⟨n, d, hpos⟩ := h.position
  have hatt : m.audience.everyone.count s.connection = s.attached := by
    rw [haud]
    rfl
  refine ⟨?_, ?_, hatt.trans_le h.once, fun hu => ?_, fine_hears h.fine hchat, h.admitted,
    fun w hw => ?_, n, d, ?_, fun hone => ?_, ?_⟩
  · rw [updated_append, hup]
    exact hlog
  · rw [updated_append, hup]
    exact List.suffix_append _ _
  · obtain ⟨hzero, hnone⟩ := h.unregistered hu
    exact ⟨hatt.trans hzero, hin.trans hnone⟩
  · rw [updated_append, hup]
    exact (h.taken w hw).mono hsize _
  · rw [updated_append]
    exact hin.symm ▸ hpos.queued.log_append _
  · have hd := hpos.complete (hatt.symm.trans hone)
    rw [htick] at hd
    rw [updated_append, hup, List.length_append, ← hd]
    rfl
  · have hn : n ≤ (updated tr).length := hpos.queued.le.trans hpos.queued.le_length
    cases hpos.greeting with
    | unsent h1 h2 h3 h4 h5 h6 =>
        refine .unsent h1 (hwel.trans h2) h3 ?_ ?_ h6
        · rw [built_append, h4, hbuilt]; rfl
        · rw [applied_append, h5, happ]; rfl
    | sent w h1 h2 h3 h4 h5 h6 h7 =>
        refine .sent w h1 h2 (hwel.trans h3) h4 ?_ ?_ h7
        · rw [built_append, h5, hbuilt]; rfl
        · rw [applied_append, h6, happ]; rfl
    | built w h1 h2 h3 h4 h5 h6 =>
        obtain ⟨b, hb, hbsize⟩ := h4
        refine .built w h1 h2 (hwel.trans h3) ⟨b, hb, hsize.symm.trans hbsize⟩ ?_ ?_
        · rw [built_append, h5, hbuilt]; rfl
        · rw [updated_append, applied_append, happ, List.append_nil]
          exact h6.log_append hn _

/-- **The broadcast** sends the next update of the log, if the joiner is on the
roster it goes to. -/
theorem sees_announce_arrivals {events : List ArrivalEvent} {at_revision : Nat} {now : Int}
    (h : Sees s tr) (htick : s.tick = .advanced now events at_revision) :
    Sees { s.hears (s.server.announce_arrivals events at_revision) with
      tick := .announced now } tr := by
  obtain ⟨hup, hwel, hfine⟩ := delivered_announce_arrivals s.connection s.server events at_revision
  have hrest := (Match.announce_arrivals_announced s.server events at_revision).rest
  have hengine : (s.server.announce_arrivals events at_revision).1.engine = s.server.engine := by
    rw [hrest]
  have haud : (s.server.announce_arrivals events at_revision).1.audience = s.server.audience := by
    rw [hrest]
  have hatt : (s.server.announce_arrivals events at_revision).1.audience.everyone.count s.connection
      = s.attached := by
    rw [haud]
    rfl
  have hun : unannounced s.tick = recorded events at_revision := by rw [htick]; rfl
  have hin : ({ s.hears (s.server.announce_arrivals events at_revision) with
      tick := .announced now } : Joiner).incoming
        = s.incoming ++ (recorded events at_revision).flatMap (List.replicate s.attached) := by
    unfold incoming hears
    dsimp only
    rw [updates_of_append, hup, List.append_assoc]
    rfl
  have hwelcomes : ({ s.hears (s.server.announce_arrivals events at_revision) with
      tick := .announced now } : Joiner).welcomes = s.welcomes := by
    unfold welcomes hears
    dsimp only
    rw [welcomes_of_append, hwel, List.append_nil]
  obtain ⟨n, d, hpos⟩ := h.position
  -- the new end of the window
  have hqueued : ∃ d', Queued (updated tr)
      (s.incoming ++ (recorded events at_revision).flatMap (List.replicate s.attached)) n d' ∧
      (s.attached = 1 → d' = (updated tr).length) := by
    have hun' := h.pending
    have hcomplete := hpos.complete
    rw [hun] at hun' hcomplete
    unfold recorded at hun' hcomplete ⊢
    split_ifs at hun' hcomplete ⊢ with hempty
    · rw [List.flatMap_nil, List.append_nil]
      exact ⟨d, hpos.queued, hcomplete⟩
    · rw [List.flatMap_singleton]
      rcases Nat.le_one_iff_eq_zero_or_eq_one.mp h.once with hzero | hone
      · rw [hzero, List.replicate_zero, List.append_nil]
        exact ⟨d, hpos.queued, fun hc => absurd hc (by omega)⟩
      · have hd : d + 1 = (updated tr).length := hcomplete hone
        obtain ⟨before, hbefore⟩ := hun'
        have hnext : (updated tr)[d]? = some ⟨events, at_revision⟩ := by
          have hlen : before.length = d := by
            have := congrArg List.length hbefore
            rw [List.length_append, List.length_singleton] at this
            omega
          rw [← hbefore, ← hlen]
          exact List.getElem?_concat_length
        rw [hone, List.replicate_one]
        exact ⟨d + 1, hpos.queued.send hnext, fun _ => hd⟩
  obtain ⟨d', hq, hd'⟩ := hqueued
  refine ⟨h.log.frame hengine (by rw [hears, hrest]) (by rw [hears, hrest]), ?_,
    hatt.trans_le h.once, fun hu => ?_, fun m hm => ?_, h.admitted, fun w hw => ?_, n, d', ?_,
    fun hone => ?_, ?_⟩
  · exact List.nil_suffix
  · obtain ⟨hzero, hnone⟩ := h.unregistered hu
    refine ⟨hatt.trans hzero, ?_⟩
    rw [hin, hnone, hzero]
    unfold recorded
    split_ifs <;> rfl
  · rcases List.mem_append.mp hm with hm | hm
    · exact h.fine m hm
    · exact hfine m hm
  · have hsize : SameSize s.server.engine.board
        (s.server.announce_arrivals events at_revision).1.engine.board := by
      rw [hengine]
      exact .rfl' _
    have := (h.taken w hw).mono hsize []
    rwa [List.append_nil] at this
  · rw [hin]
    exact hq
  · exact hd' (hatt.symm.trans hone)
  · cases hpos.greeting with
    | unsent h1 h2 h3 h4 h5 h6 => exact .unsent h1 (hwelcomes.trans h2) h3 h4 h5 h6
    | sent w h1 h2 h3 h4 h5 h6 h7 => exact .sent w h1 h2 (hwelcomes.trans h3) h4 h5 h6 h7
    | built w h1 h2 h3 h4 h5 h6 =>
        refine .built w h1 h2 (hwelcomes.trans h3) ?_ h5 h6
        unfold hears
        dsimp only
        rw [hengine]
        exact h4

end Server

/-! ## Steps of the client -/

section Client

variable {s : Joiner} {tr : List Seen}

/-- **Receiving** moves a message along, from the wire to where it waits. -/
theorem sees_receive {message : ServerMessage} {wire : List ServerMessage} (h : Sees s tr)
    (hwire : s.wire = message :: wire) :
    Sees { s with wire := wire, client := s.client.on_message message } tr := by
  have hfine := h.fine message (by rw [hwire]; exact List.mem_cons_self)
  obtain ⟨hjoin, hredirect⟩ := h.admitted
  -- what is on its way stays on its way
  have hsame : ∀ client, client = s.client.on_message message →
      ({ s with wire := wire, client := client } : Joiner).incoming = s.incoming ∧
      (s.welcomes.length ≤ 1 →
        ({ s with wire := wire, client := client } : Joiner).welcomes = s.welcomes) ∧
      client.board = s.client.board ∧ client.revision = s.client.revision ∧
      client.join_failure = none ∧ client.pending_redirect_url = none := by
    rintro client rfl
    unfold incoming welcomes
    rw [hwire]
    cases message with
    | Welcome w =>
        refine ⟨rfl, fun hlen => ?_, rfl, rfl, hjoin, hredirect⟩
        rw [show welcomes_of (.Welcome w :: wire) = w :: welcomes_of wire from rfl,
          List.cons_append, List.length_cons] at hlen
        have hnil := List.length_eq_zero_iff.mp (Nat.le_zero.mp (Nat.le_of_succ_le_succ hlen))
        obtain ⟨hw, hp⟩ := List.append_eq_nil_iff.mp hnil
        rw [show welcomes_of (.Welcome w :: wire) = w :: welcomes_of wire from rfl, hw, hp]
        rfl
    | BoardUpdate u =>
        refine ⟨?_, fun _ => rfl, rfl, rfl, hjoin, hredirect⟩
        dsimp only [ServerLink.on_message]
        rw [updates_of_append, List.append_assoc]
        rfl
    | JoinFailed reason => exact hfine.elim
    | JoinRedirect url => exact hfine.elim
    | LoginFailed reason => exact hfine.elim
    | _ =>
        refine ⟨?_, fun _ => rfl, rfl, rfl, hjoin, hredirect⟩
        dsimp only [ServerLink.on_message]
        rw [updates_of_append, List.append_assoc]
        rfl
  obtain ⟨hin, hwel, hboard, hrev, hfail, hred⟩ := hsame _ rfl
  obtain ⟨n, d, hpos⟩ := h.position
  refine ⟨h.log, h.pending, h.once, fun hu => ?_, fun m hm => ?_, ⟨hfail, hred⟩, h.taken, n, d, ?_,
    hpos.complete, ?_⟩
  · obtain ⟨hzero, hnone⟩ := h.unregistered hu
    exact ⟨hzero, hin.trans hnone⟩
  · refine h.fine m ?_
    rw [hwire]
    exact List.mem_cons_of_mem _ hm
  · rw [hin]
    exact hpos.queued
  · cases hpos.greeting with
    | unsent h1 h2 h3 h4 h5 h6 =>
        refine .unsent h1 ((hwel ?_).trans h2) (hboard.trans h3) h4 h5 h6
        rw [h2]
        exact Nat.zero_le 1
    | sent w h1 h2 h3 h4 h5 h6 h7 =>
        refine .sent w h1 h2 ((hwel ?_).trans h3) (hboard.trans h4) h5 h6 h7
        rw [h3]
        exact le_refl 1
    | built w h1 h2 h3 h4 h5 h6 =>
        obtain ⟨b, hb, hsize⟩ := h4
        refine .built w h1 h2 ((hwel ?_).trans h3) ⟨b, hboard.trans hb, hsize⟩ h5 ?_
        · rw [h3]
          exact Nat.zero_le 1
        · rw [hrev]
          exact h6

/-- **The board is built** from the snapshot, and the client starts behind it. -/
theorem sees_wait_for_welcome (h : Sees s tr) (hboard : s.client.board = none) :
    ∃ client outcome, s.client.wait_for_welcome 0 = .ok (client, outcome) ∧
      Sees { s with client := client } (tr ++
        if outcome = .Welcomed then (s.client.pending_welcome.map Seen.built).toList else []) := by
  obtain ⟨hjoin, hredirect⟩ := h.admitted
  obtain ⟨n, d, hpos⟩ := h.position
  unfold ServerLink.wait_for_welcome
  rw [hjoin, hredirect]
  cases hp : s.client.pending_welcome with
  | none =>
      refine ⟨s.client, .TimedOut, rfl, ?_⟩
      rw [if_neg (by decide), List.append_nil]
      exact h
  | some w =>
      cases hpos.greeting with
      | unsent _ h2 =>
          unfold welcomes at h2
          rw [hp] at h2
          cases (List.append_eq_nil_iff.mp h2).2
      -- this client has a board already
      | built _ _ _ _ h4 =>
          obtain ⟨b, hb, _⟩ := h4
          rw [hboard] at hb
          cases hb
      | sent w' h1 h2 h3 h4 h5 h6 h7 =>
          have hw : welcomes_of s.wire = [] ∧ w = w' := by
            have hlast : welcomes_of s.wire ++ [w] = [] ++ [w'] := by
              have := h3
              unfold welcomes at this
              rwa [hp] at this
            obtain ⟨hnil, hone⟩ := List.append_inj' hlast rfl
            exact ⟨hnil, (List.cons.inj hone).1⟩
          obtain ⟨hnil, rfl⟩ := hw
          have htaken := h.taken w h2
          obtain ⟨b, hb, hsize⟩ := htaken.board
          dsimp only
          rw [hb]
          refine ⟨_, .Welcomed, rfl, ?_⟩
          rw [if_pos rfl]
          have hup : updated (tr ++ [Seen.built w]) = updated tr := by
            rw [updated_append]
            exact List.append_nil _
          have happ : applied (tr ++ [Seen.built w]) = [] := by
            rw [applied_append, h6]
            rfl
          refine ⟨?_, ?_, h.once, h.unregistered, h.fine, ⟨rfl, rfl⟩, ?_, n, d, ?_, ?_, ?_⟩
          · exact hup.symm ▸ h.log
          · exact hup.symm ▸ h.pending
          · exact hup.symm ▸ h.taken
          · exact hup.symm ▸ hpos.queued
          · exact hup.symm ▸ hpos.complete
          · refine .built w h1 h2 ?_ ⟨b, rfl, hsize⟩ ?_ ?_
            · unfold welcomes
              rw [hnil]
              rfl
            · rw [built_append, h5]
              rfl
            · exact hup.symm ▸ happ.symm ▸ Followed.start h7

/-- What the main thread leaves alone when it handles messages. -/
structure Handled (link link' : ServerLink) : Prop where
  incoming_queue : link'.incoming_queue = link.incoming_queue
  pending_welcome : link'.pending_welcome = link.pending_welcome
  join_failure : link'.join_failure = link.join_failure
  pending_redirect_url : link'.pending_redirect_url = link.pending_redirect_url

theorem Handled.refl (link : ServerLink) : Handled link link := ⟨rfl, rfl, rfl, rfl⟩

theorem Handled.trans {l₁ l₂ l₃ : ServerLink} (h : Handled l₁ l₂) (h' : Handled l₂ l₃) :
    Handled l₁ l₃ :=
  ⟨h'.incoming_queue.trans h.incoming_queue, h'.pending_welcome.trans h.pending_welcome,
    h'.join_failure.trans h.join_failure,
    h'.pending_redirect_url.trans h.pending_redirect_url⟩

/-- Where a client stands: its board can replay the log, and it has been past `n`
updates, `waiting` being the ones on their way. -/
structure Stands (log waiting done : List BoardUpdate) (base : ℕ) (link : ServerLink)
    (n d : ℕ) : Prop where
  board : ∃ b, link.board = some b ∧ ∀ u ∈ log, ∀ e ∈ u.arrival_events, Placed b e
  numbered : Numbered BoardUpdate.revision log
  queued : Queued log waiting n d
  followed : Followed log done base link.revision n

/-- **One update**: skipped if the snapshot covers it, replayed otherwise. -/
theorem Stands.update {log waiting done : List BoardUpdate} {base n d : ℕ} {link : ServerLink}
    {u : BoardUpdate} (h : Stands log (u :: waiting) done base link n d) :
    ∃ link' os, link.apply_board_update u = .ok (link', os) ∧ Handled link link' ∧
      Stands log waiting (done ++ applied (applied_of os)) base link' (n + 1) d ∧
      ∀ b, link.board = some b → ∃ b', link'.board = some b' ∧ SameSize b b' := by
  obtain ⟨b, hb, hplaced⟩ := h.board
  obtain ⟨hnext, hqueued⟩ := h.queued.receive
  have hrev : u.revision = n + 1 := h.numbered.getElem? hnext
  have hmem : u ∈ log := List.mem_of_getElem? hnext
  unfold ServerLink.apply_board_update
  rw [hb]
  dsimp only
  -- the updates are numbered from 1, so the test is a comparison of places in the log
  by_cases hcov : link.already_covered u
  · rw [if_pos hcov]
    refine ⟨link, [], rfl, .refl link, ⟨⟨b, hb, hplaced⟩, h.numbered, hqueued, ?_⟩, ?_⟩
    · rw [show applied (applied_of []) = [] from rfl, List.append_nil]
      exact h.followed.skip (hrev ▸ hcov.2)
    · exact fun b' hb' => ⟨b', hb ▸ hb', .rfl' _⟩
  · rw [if_neg hcov]
    obtain ⟨b', hreplay, hsize⟩ := replay_placed u.arrival_events (hplaced u hmem)
    unfold replay at hreplay
    rw [hreplay]
    have hlt : link.revision < n + 1 := by
      unfold ServerLink.already_covered at hcov
      rw [hrev] at hcov
      by_contra hle
      exact hcov ⟨Nat.succ_ne_zero n, not_lt.mp hle⟩
    refine ⟨_, _, rfl, ⟨rfl, rfl, rfl, rfl⟩,
      ⟨⟨b', rfl, fun v hv e he => hsize.placed (hplaced v hv e he)⟩, h.numbered, hqueued, ?_⟩, ?_⟩
    · dsimp only
      rw [hrev]
      exact h.followed.apply hlt hnext
    · rintro b₁ ⟨⟩
      exact ⟨b', rfl, hsize⟩

/-- **The drained queue**, message by message. -/
theorem Stands.handle (messages : List ServerMessage) :
    ∀ {log waiting done : List BoardUpdate} {base n d : ℕ} {link : ServerLink},
      Stands log (updates_of messages ++ waiting) done base link n d →
      ∃ link' os n', run ServerLink.handle_message link messages = .ok (link', os) ∧
        Handled link link' ∧ Stands log waiting (done ++ applied (applied_of os)) base link' n' d ∧
        ∀ b, link.board = some b → ∃ b', link'.board = some b' ∧ SameSize b b' := by
  induction messages with
  | nil =>
      intro log waiting done base n d link h
      refine ⟨link, [], n, rfl, .refl link, ?_, fun b hb => ⟨b, hb, .rfl' _⟩⟩
      rw [show applied (applied_of []) = [] from rfl, List.append_nil]
      exact h
  | cons message messages ih =>
      intro log waiting done base n d link h
      have hone : ∃ link₁ os₁ n₁, ServerLink.handle_message link message = .ok (link₁, os₁) ∧
          Handled link link₁ ∧
          Stands log (updates_of messages ++ waiting) (done ++ applied (applied_of os₁)) base link₁
            n₁ d ∧
          ∀ b, link.board = some b → ∃ b', link₁.board = some b' ∧ SameSize b b' := by
        have hkept : ∀ b, link.board = some b → ∃ b', link.board = some b' ∧ SameSize b b' :=
          fun b hb => ⟨b, hb, .rfl' _⟩
        have hdone : done ++ applied (applied_of []) = done := List.append_nil _
        cases message with
        -- every other message leaves the board and the revision alone
        | BoardUpdate u =>
            obtain ⟨link₁, os₁, hrun, hh, hs, hb⟩ := Stands.update h
            exact ⟨link₁, os₁, n + 1, hrun, hh, hs, hb⟩
        | _ =>
            refine ⟨_, _, n, rfl, ⟨rfl, rfl, rfl, rfl⟩, ?_, hkept⟩
            have hstands : Stands log (updates_of messages ++ waiting) done base link n d := h
            exact hdone.symm ▸ ⟨hstands.board, hstands.numbered, hstands.queued, hstands.followed⟩
      obtain ⟨link₁, os₁, n₁, hrun₁, hh₁, hs₁, hb₁⟩ := hone
      obtain ⟨link', os', n', hrun, hh, hs, hb⟩ := ih hs₁
      refine ⟨link', os₁ ++ os', n', ?_, hh₁.trans hh, ?_, fun b hbb => ?_⟩
      · exact (bind_ok_iff _ _ _).mpr ⟨(link₁, os₁), hrun₁, (bind_ok_iff _ _ _).mpr
          ⟨(link', os'), hrun, rfl⟩⟩
      · have hsplit : applied_of (os₁ ++ os') = applied_of os₁ ++ applied_of os' :=
          List.filterMap_append
        rw [hsplit, applied_append, ← List.append_assoc]
        exact hs
      · obtain ⟨b₁, hb₁', hsize₁⟩ := hb₁ b hbb
        obtain ⟨b', hb', hsize'⟩ := hb b₁ hb₁'
        exact ⟨b', hb', hsize₁.trans hsize'⟩

theorem seen_applied_of (os : List UiEvent) :
    updated (applied_of os) = [] ∧ built (applied_of os) = [] := by
  constructor <;> refine List.filterMap_eq_nil_iff.mpr (fun e he => ?_)
  · obtain ⟨u, _, hu⟩ := List.mem_filterMap.mp he
    split at hu
    · obtain rfl := Option.some.inj hu
      rfl
    · cases hu
  · obtain ⟨u, _, hu⟩ := List.mem_filterMap.mp he
    split at hu
    · obtain rfl := Option.some.inj hu
      rfl
    · cases hu

theorem sees_wait (h : Sees s tr) (hboard : s.client.board ≠ none) :
    ∃ client os, s.client.wait = .ok (client, os) ∧
      Sees { s with client := client } (tr ++ applied_of os) := by
  obtain ⟨n, d, hpos⟩ := h.position
  cases hpos.greeting with
  -- the main thread waits for messages only once it has its board
  | unsent _ _ h3 => exact absurd h3 hboard
  | sent _ _ _ _ h4 => exact absurd h4 hboard
  | built w h1 h2 h3 h4 h5 h6 =>
      obtain ⟨b, hb, hsize⟩ := h4
      have hstands : Stands (updated tr) (updates_of s.client.incoming_queue ++ updates_of s.wire)
          (applied tr) w.revision { s.client with incoming_queue := [] } n d :=
        ⟨⟨b, hb, fun u hu e he => hsize.placed (h.log.placed u hu e he)⟩, h.log.numbered,
          hpos.queued, h6⟩
      obtain ⟨client, os, n', hrun, hh, hs, hboard'⟩ := hstands.handle s.client.incoming_queue
      obtain ⟨hupnil, hbuiltnil⟩ := seen_applied_of os
      have hup : updated (tr ++ applied_of os) = updated tr := by
        rw [updated_append, hupnil, List.append_nil]
      have hin : ({ s with client := client } : Joiner).incoming = updates_of s.wire := by
        unfold incoming
        rw [show client.incoming_queue = [] from hh.incoming_queue]
        rfl
      obtain ⟨b', hb', hsize'⟩ := hboard' b hb
      refine ⟨client, os, hrun, ?_, ?_, h.once, fun hu => ?_, h.fine, ?_, ?_, n', d, ?_, ?_, ?_⟩
      · exact hup.symm ▸ h.log
      · exact hup.symm ▸ h.pending
      · obtain ⟨hzero, hnone⟩ := h.unregistered hu
        exact ⟨hzero, hin.trans (List.append_eq_nil_iff.mp hnone).2⟩
      · exact ⟨hh.join_failure.trans h.admitted.1, hh.pending_redirect_url.trans h.admitted.2⟩
      · exact hup.symm ▸ h.taken
      · exact hin.symm ▸ hup.symm ▸ hs.queued
      · exact hup.symm ▸ hpos.complete
      · refine .built w h1 h2 ?_ ⟨b', hb', hsize.trans hsize'⟩ ?_ ?_
        · unfold welcomes
          rw [show client.pending_welcome = s.client.pending_welcome from hh.pending_welcome]
          exact h3
        · rw [built_append, hbuiltnil, List.append_nil]
          exact h5
        · rw [hup, applied_append]
          exact hs.followed

end Client

end Joiner

end KungFuChess
