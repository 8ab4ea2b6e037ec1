/-
**What a joiner sees is the server's board.**

`Mirror` carries agreement over the ticks of an engine, and `ExactlyOnce` says which
updates reach a client, in any interleaving of a join with the ticks of the match.
Here the two meet. Every board in sight is the first board with some of the history
replayed on it: the server's with all of it, the snapshot's with what it covers, the
client's with what the snapshot covers and what it has applied since. Replaying is a
function of what the boards agree on (`Agrees.replay`), so the client's board is the
server's as it was some updates ago, and is the server's once nothing is on its way.

A jumper that comes down on an ally is left out again: `clear_tick` asks it of the
engine as it is when the queue has been applied, which is when the clock moves on.
-/
import KungFuChess.ExactlyOnce

set_option autoImplicit false

namespace KungFuChess

open Machine LogFollower ServerLink

/-! ## Replaying on boards that agree -/

theorem Agrees.symm {b c : Board} (h : Agrees b c) : Agrees c b :=
  ⟨h.width.symm, h.height.symm, fun pos => (h.read pos).symm⟩

theorem Agrees.trans {b c d : Board} (h : Agrees b c) (h' : Agrees c d) : Agrees b d :=
  ⟨h.width.trans h'.width, h.height.trans h'.height, fun pos => (h.read pos).trans (h'.read pos)⟩

/-- The same write on both. -/
theorem Agrees.set_cell {b c : Board} (h : Agrees b c) {pos : Position} (hpos : b.in_bounds pos)
    (x : Option Piece) : Agrees (b.set_cell pos x) (c.set_cell pos x) := by
  refine ⟨h.width, h.height, fun q => ?_⟩
  rw [Board.piece_at_set_cell hpos, Board.piece_at_set_cell ((h.in_bounds_iff pos).mp hpos)]
  split_ifs
  · rfl
  · exact h.read q

theorem Agrees.remove_piece {b b' c : Board} {pos : Position} (h : Agrees b c)
    (hb : b.remove_piece pos = .ok b') : ∃ c', c.remove_piece pos = .ok c' ∧ Agrees b' c' := by
  obtain ⟨hpos, rfl⟩ := Board.remove_piece_ok_iff.mp hb
  exact ⟨_, Board.remove_piece_ok_iff.mpr ⟨(h.in_bounds_iff pos).mp hpos, rfl⟩,
    h.set_cell hpos none⟩

theorem Agrees.add_piece {b b' c : Board} {x : Piece} (h : Agrees b c)
    (hb : b.add_piece x = .ok b') : ∃ c', c.add_piece x = .ok c' ∧ Agrees b' c' := by
  obtain ⟨hpos, hempty, rfl⟩ := Board.add_piece_ok_iff.mp hb
  have hread := h.read x.cell
  rw [hempty] at hread
  exact ⟨_, Board.add_piece_ok_iff.mpr ⟨(h.in_bounds_iff _).mp hpos,
    Option.map_eq_none_iff.mp hread.symm, rfl⟩, h.set_cell hpos (some x)⟩

/-- **Replaying keeps agreement.** -/
theorem Agrees.replay (events : List ArrivalEvent) : ∀ {b b' c : Board}, Agrees b c →
    replay b events = .ok b' → ∃ c', replay c events = .ok c' ∧ Agrees b' c' := by
  induction events with
  | nil =>
      intro b b' c h hb
      obtain rfl := Except.ok.inj hb
      exact ⟨c, rfl, h⟩
  | cons e events ih =>
      intro b b' c h hb
      obtain ⟨b₁, hone, hrest⟩ := (bind_ok_iff _ _ _).mp hb
      obtain ⟨d, hd, hone⟩ := (bind_ok_iff _ _ _).mp hone
      obtain ⟨f, hf, hadd⟩ := (bind_ok_iff _ _ _).mp hone
      -- the three operations of one arrival, each on the other board
      obtain ⟨d', hd', h₁⟩ := h.remove_piece hd
      obtain ⟨f', hf', h₂⟩ := h₁.remove_piece hf
      obtain ⟨c₁, hc₁, h₃⟩ := h₂.add_piece hadd
      obtain ⟨c', hc', h'⟩ := ih h₃ hrest
      have hreplayed : replay_arrival c e = .ok c₁ :=
        (bind_ok_iff _ _ _).mpr ⟨d', hd', (bind_ok_iff _ _ _).mpr ⟨f', hf', hc₁⟩⟩
      exact ⟨c', (bind_ok_iff _ _ _).mpr ⟨c₁, hreplayed, hc'⟩, h'⟩

/-- A board that agrees with the first board after some events. -/
def Replayed (first : Board) (events : List ArrivalEvent) (b : Board) : Prop :=
  ∃ c, replay first events = .ok c ∧ Agrees c b

theorem Replayed.more {first b b' : Board} {events later : List ArrivalEvent}
    (h : Replayed first events b)
    (hb : ∀ c, Agrees c b → ∃ c', KungFuChess.replay c later = .ok c' ∧ Agrees c' b') :
    Replayed first (events ++ later) b' := by
  obtain ⟨c, hc, hagree⟩ := h
  obtain ⟨c', hc', hagree'⟩ := hb c hagree
  exact ⟨c', by rw [replay_append hc]; exact hc', hagree'⟩

theorem Replayed.replay {first b b' : Board} {events later : List ArrivalEvent}
    (h : Replayed first events b) (hb : KungFuChess.replay b later = .ok b') :
    Replayed first (events ++ later) b' := by
  refine h.more fun c hagree => ?_
  obtain ⟨c', hc', hagree'⟩ := hagree.symm.replay later hb
  exact ⟨c', hc', hagree'.symm⟩

/-- Two boards after the same events. -/
theorem Replayed.agrees {first b c : Board} {events : List ArrivalEvent}
    (hb : Replayed first events b) (hc : Replayed first events c) : Agrees b c := by
  obtain ⟨b', hb', hb⟩ := hb
  obtain ⟨c', hc', hc⟩ := hc
  obtain rfl := Except.ok.inj (hb'.symm.trans hc')
  exact hb.symm.trans hc

/-! ## A tick of the match -/

namespace Match

/-- When the clock of this tick moves on, no jumper comes down on an ally. -/
def clear_tick (m : Match) (elapsed_ms : Nat) : Bool :=
  match run apply_all m.drain m.queue with
  | .ok (applied, _) => decide (m.state = .Running →
      NoLandingOnAlly applied.engine [] (.wait elapsed_ms))
  | .error _ => true

/-- A request starts a motion at most. -/
theorem agrees_request {m m' : Match} {source : PieceColor} {cell : Position}
    {call : GameEngine → Except BoardError (GameEngine × MoveResult)} {cmd : GameEngine.Command}
    {os : List MatchEvent} {c : Board} (hs : m.engine.Sound)
    (hcall : ∀ g g' r, call g = .ok (g', r) → GameEngine.exec g cmd = .ok (g', []))
    (hcmd : NoLandingOnAlly m.engine [] cmd)
    (h : m.request source cell call = .ok (m', os)) (hagree : Agrees c m.engine.board) :
    m'.engine.Sound ∧ Agrees c m'.engine.board := by
  unfold request at h
  split_ifs at h
  · obtain ⟨⟨engine, result⟩, hrun, hret⟩ := (bind_ok_iff _ _ _).mp h
    obtain ⟨rfl, rfl⟩ := Prod.mk.inj (Except.ok.inj hret)
    have hexec := hcall _ _ _ hrun
    obtain ⟨c', hc', hagree'⟩ := exec_agrees hs hcmd hexec hagree
    obtain rfl := Except.ok.inj hc'
    exact ⟨hs.step hexec, hagree'⟩
  · obtain ⟨rfl, rfl⟩ := Prod.mk.inj (Except.ok.inj h)
    exact ⟨hs, hagree⟩

theorem agrees_apply {m m' : Match} {source : PieceColor} {message : ClientMessage}
    {os : List MatchEvent} {c : Board} (hs : m.engine.Sound)
    (h : m.apply source message = .ok (m', os)) (hagree : Agrees c m.engine.board) :
    m'.engine.Sound ∧ Agrees c m'.engine.board := by
  unfold apply at h
  split at h
  -- a move and a jump; nothing else comes to the engine
  case h_5 => exact agrees_request hs (fun g g' r hr => exec_request_move hr) trivial h hagree
  case h_6 => exact agrees_request hs (fun g g' r hr => exec_request_jump hr) trivial h hagree
  all_goals
    obtain ⟨rfl, rfl⟩ := Prod.mk.inj (Except.ok.inj h)
    exact ⟨hs, hagree⟩

theorem agrees_apply_all (commands : List (PieceColor × ClientMessage)) : ∀ {m m' : Match}
    {os : List MatchEvent} {c : Board}, m.engine.Sound → run apply_all m commands = .ok (m', os) →
    Agrees c m.engine.board → m'.engine.Sound ∧ Agrees c m'.engine.board := by
  induction commands with
  | nil =>
      intro m m' os c hs h hagree
      obtain ⟨rfl, rfl⟩ := Prod.mk.inj (Except.ok.inj h)
      exact ⟨hs, hagree⟩
  | cons command commands ih =>
      intro m m' os c hs h hagree
      obtain ⟨m₁, os₁, os₂, hone, hrun, rfl⟩ := run_cons_ok_iff.mp h
      obtain ⟨hs₁, hagree₁⟩ := agrees_apply hs hone hagree
      exact ih hs₁ hrun hagree₁

/-- **The critical section, replayed.** -/
theorem agrees_advance_board {m m' : Match} {elapsed_ms : Nat} {answers : List MatchEvent}
    {events : List ArrivalEvent} {c : Board} (hs : m.engine.Sound)
    (hclear : m.clear_tick elapsed_ms = true)
    (h : m.advance_board elapsed_ms = .ok (m', answers, events))
    (hagree : Agrees c m.engine.board) :
    ∃ c', replay c events = .ok c' ∧ Agrees c' m'.engine.board := by
  obtain ⟨m₁, hrun, hcases⟩ := advance_board_cases h
  unfold clear_tick at hclear
  rw [hrun] at hclear
  obtain ⟨hs₁, hagree₁⟩ := agrees_apply_all m.queue (m := m.drain) hs hrun hagree
  rcases hcases with ⟨hstate, hpass⟩ | ⟨_, rfl, rfl⟩
  · exact exec_agrees hs₁ (of_decide_eq_true hclear hstate) (let_time_pass_waits hpass).1
      hagree₁
  · exact ⟨c, rfl, hagree₁⟩

end Match

/-! ## The client's queue -/

theorem updates_applied_append (os os' : List UiEvent) :
    applied (Joiner.applied_of (os ++ os'))
      = applied (Joiner.applied_of os) ++ applied (Joiner.applied_of os') := by
  rw [← applied_append]
  exact congrArg _ List.filterMap_append

/-- One message: the board is what it was, with the update it may have been replayed. -/
theorem replays_handle_message {link link' : ServerLink} {message : ServerMessage}
    {os : List UiEvent} {b : Board} (hb : link.board = some b)
    (h : link.handle_message message = .ok (link', os)) :
    ∃ b', link'.board = some b' ∧
      replay b ((applied (Joiner.applied_of os)).flatMap BoardUpdate.arrival_events) = .ok b' := by
  cases message with
  | BoardUpdate update =>
      have hupdate : link.apply_board_update update = .ok (link', os) := h
      unfold apply_board_update at hupdate
      rw [hb] at hupdate
      dsimp only at hupdate
      split_ifs at hupdate
      · obtain ⟨rfl, rfl⟩ := Prod.mk.inj (Except.ok.inj hupdate)
        exact ⟨b, hb, rfl⟩
      · obtain ⟨b', hrun, hret⟩ := (bind_ok_iff _ _ _).mp hupdate
        obtain ⟨rfl, rfl⟩ := Prod.mk.inj (Except.ok.inj hret)
        refine ⟨b', rfl, ?_⟩
        have hone : (applied (Joiner.applied_of [.Arrivals update])).flatMap
            BoardUpdate.arrival_events = update.arrival_events :=
          List.flatMap_singleton _ _
        rw [hone]
        exact hrun
  | _ =>
      obtain ⟨rfl, rfl⟩ := Prod.mk.inj (Except.ok.inj h)
      exact ⟨b, hb, rfl⟩

/-- **The drained queue** replays what it applies. -/
theorem replays_handle (messages : List ServerMessage) : ∀ {link link' : ServerLink}
    {os : List UiEvent} {b : Board}, link.board = some b →
    run handle_message link messages = .ok (link', os) → ∃ b', link'.board = some b' ∧
      replay b ((applied (Joiner.applied_of os)).flatMap BoardUpdate.arrival_events) = .ok b' := by
  induction messages with
  | nil =>
      intro link link' os b hb h
      obtain ⟨rfl, rfl⟩ := Prod.mk.inj (Except.ok.inj h)
      exact ⟨b, hb, rfl⟩
  | cons message messages ih =>
      intro link link' os b hb h
      obtain ⟨link₁, os₁, os₂, hone, hrun, rfl⟩ := run_cons_ok_iff.mp h
      obtain ⟨b₁, hb₁, hreplay₁⟩ := replays_handle_message hb hone
      obtain ⟨b', hb', hreplay⟩ := ih hb₁ hrun
      refine ⟨b', hb', ?_⟩
      rw [updates_applied_append, List.flatMap_append, replay_append hreplay₁]
      exact hreplay

namespace Joiner

/-! ## The boards of a run -/

/-- The condition on a step: others act on connections of their own, and no tick brings
a jumper down on an ally. -/
def ClearElsewhere (s : Joiner) (tr : List Seen) (label : Label) : Prop :=
  OthersElsewhere s tr label ∧ match label with
    | .advance _ elapsed_ms => s.server.clear_tick elapsed_ms = true
    | _ => True

instance (s : Joiner) (tr : List Seen) (label : Label) :
    Decidable (ClearElsewhere s tr label) := by
  unfold ClearElsewhere
  cases label <;> infer_instance

/-- What the boards of the server, of the snapshot and of the client are. -/
structure Mirrors (first : Board) (s : Joiner) (tr : List Seen) : Prop where
  server : Replayed first s.server.history s.server.engine.board
  snapshot : ∀ w, s.stage.welcome = some w → ∃ b, build_board w.board = .ok b ∧
    Replayed first w.history b
  client : ∀ b, s.client.board = some b → ∃ w, s.stage.welcome = some w ∧
    Replayed first (w.history ++ (applied tr).flatMap BoardUpdate.arrival_events) b

variable {first : Board} {s s' : Joiner} {tr tr' os : List Seen} {label : Label}

/-- A step that is no news to any of the three. -/
theorem Mirrors.frame (h : Mirrors first s tr) (hhistory : s'.server.history = s.server.history)
    (hengine : s'.server.engine = s.server.engine)
    (hwelcome : s'.stage.welcome = s.stage.welcome) (hclient : s'.client.board = s.client.board)
    (happlied : applied tr' = applied tr) : Mirrors first s' tr' where
  server := by
    rw [hhistory, hengine]
    exact h.server
  snapshot w hw := h.snapshot w (hwelcome.symm.trans hw)
  client b hb := by
    obtain ⟨w, hw, hb⟩ := h.client b (hclient.symm.trans hb)
    rw [happlied]
    exact ⟨w, hwelcome.trans hw, hb⟩

/-- A snapshot is of a board that all of the history has been replayed on. -/
theorem mirrors_snapshot {request : JoinRequest} {color : PieceColor} {already_started : Bool}
    (hsees : Sees s tr) (h : Mirrors first s tr)
    (hstage : s.stage = .registered request color already_started) :
    Mirrors first { s with
      stage := .snapshotted request color already_started
        (s.server.welcome_for color request.spectator) } tr where
  server := h.server
  snapshot w hw := by
    obtain rfl := Option.some.inj hw
    exact ⟨s.server.engine.board, build_board_snapshot_of hsees.log.sound.cell, h.server⟩
  client b hb := by
    obtain ⟨w, hw, -⟩ := h.client b hb
    rw [hstage] at hw
    cases hw

/-- **A tick** is replayed on the server's board; the others lag behind. -/
theorem mirrors_advance {m : Match} {answers : List MatchEvent} {events : List ArrivalEvent}
    {now : Int} {elapsed_ms : Nat} (hsees : Sees s tr) (h : Mirrors first s tr)
    (hclear : s.server.clear_tick elapsed_ms = true)
    (hadv : s.server.advance_board elapsed_ms = .ok (m, answers, events))
    (happlied : applied tr' = applied tr) :
    Mirrors first { s.hears (m, answers) with tick := .advanced now events m.revision } tr' where
  server := by
    have hhistory : m.history = s.server.history ++ events := by
      rw [(Match.advance_board_spec hadv).rest]
    exact hhistory.symm ▸ h.server.more fun c hagree =>
      Match.agrees_advance_board hsees.log.sound hclear hadv hagree
  snapshot := h.snapshot
  client b hb := by
    rw [happlied]
    exact h.client b hb

/-- The client starts from the snapshot it has been sent. -/
theorem mirrors_wait_for_welcome {client : ServerLink} {outcome : WelcomeOutcome}
    (hsees : Sees s tr) (h : Mirrors first s tr) (hboard : s.client.board = none)
    (hrun : s.client.wait_for_welcome 0 = .ok (client, outcome)) :
    Mirrors first { s with client := client } (tr ++
      if outcome = .Welcomed then (s.client.pending_welcome.map Seen.built).toList else []) := by
  have hnothing : applied (if outcome = .Welcomed then
      (s.client.pending_welcome.map Seen.built).toList else []) = [] := by
    split_ifs
    · cases s.client.pending_welcome <;> rfl
    · rfl
  have hsame : ∀ os, applied os = [] → applied (tr ++ os) = applied tr := by
    intro os hos
    rw [applied_append, hos, List.append_nil]
  obtain ⟨hjoin, hredirect⟩ := hsees.admitted
  unfold wait_for_welcome at hrun
  rw [hjoin, hredirect] at hrun
  cases hp : s.client.pending_welcome with
  | none =>
      rw [hp] at hrun
      obtain ⟨rfl, rfl⟩ := Prod.mk.inj (Except.ok.inj hrun)
      exact h.frame rfl rfl rfl rfl (List.append_nil _ ▸ rfl)
  | some w =>
      rw [hp] at hrun
      obtain ⟨b, hb, hret⟩ := (bind_ok_iff _ _ _).mp hrun
      obtain ⟨rfl, rfl⟩ := Prod.mk.inj (Except.ok.inj hret)
      obtain ⟨n, d, hpos⟩ := hsees.position
      -- the one `Welcome` there is
      obtain ⟨hw, hnone⟩ : s.stage.welcome = some w ∧ applied tr = [] := by
        cases hpos.greeting with
        | unsent _ h2 =>
            unfold welcomes at h2
            rw [hp] at h2
            cases (List.append_eq_nil_iff.mp h2).2
        | sent w' _ h2 h3 _ _ h6 =>
            unfold welcomes at h3
            rw [hp] at h3
            have hlast : welcomes_of s.wire ++ [w] = [] ++ [w'] := h3
            obtain ⟨-, hone⟩ := List.append_inj' hlast rfl
            obtain rfl := List.singleton_inj.mp hone
            exact ⟨h2, h6⟩
        | built _ _ _ _ h4 =>
            obtain ⟨b', hb', _⟩ := h4
            rw [hboard] at hb'
            cases hb'
      refine ⟨h.server, h.snapshot, ?_⟩
      rintro b' ⟨⟩
      obtain ⟨b', hb', hreplayed⟩ := h.snapshot w hw
      obtain rfl := Except.ok.inj (hb.symm.trans hb')
      refine ⟨w, hw, ?_⟩
      rw [applied_append, hnone]
      exact (List.append_nil w.history).symm ▸ hreplayed

/-- **Every step keeps the three boards together.** -/
theorem mirrors_exec (hsees : Sees s tr) (h : Mirrors first s tr)
    (hclear : ClearElsewhere s tr label) (hexec : exec s label = .ok (s', os)) :
    Mirrors first s' (tr ++ os) := by
  have hunseen : ∀ {t : Joiner},
      (pure (t, []) : Except BoardError (Joiner × List Seen)) = .ok (s', os) →
      Mirrors first t tr → Mirrors first s' (tr ++ os) := by
    rintro t ⟨⟩ ht
    rw [List.append_nil]
    exact ht
  obtain ⟨helse, hclear⟩ := hclear
  cases label with
  | register request =>
      unfold exec at hexec
      dsimp only at hexec
      split at hexec
      · rename_i hstage
        obtain ⟨hengine, -, hhistory, -, hcase⟩ := register_spec s.server s.connection request
        refine hunseen hexec (h.frame hhistory hengine ?_ rfl rfl)
        rw [hstage]
        obtain ⟨href, -⟩ | ⟨color, already_started, hreg, -⟩ := hcase
        · exact (congrArg JoinStage.welcome href).trans rfl
        · exact (congrArg JoinStage.welcome hreg).trans rfl
      · exact hunseen hexec h
  | snapshot =>
      unfold exec at hexec
      dsimp only at hexec
      split at hexec
      · exact hunseen hexec (mirrors_snapshot hsees h ‹_›)
      · exact hunseen hexec h
  | send_welcome =>
      unfold exec at hexec
      dsimp only at hexec
      split at hexec
      · rename_i hstage
        exact hunseen hexec (h.frame rfl rfl (by rw [hstage]; rfl) rfl rfl)
      · exact hunseen hexec h
  | send_start =>
      unfold exec at hexec
      dsimp only at hexec
      split at hexec
      · rename_i hstage
        exact hunseen hexec (h.frame rfl rfl (by rw [hstage]; rfl) rfl rfl)
      · exact hunseen hexec h
  | other call =>
      obtain ⟨r, hcall, hret⟩ := (bind_ok_iff _ _ _).mp hexec
      obtain ⟨hengine, -, hhistory, -⟩ := exec_elsewhere helse hcall
      exact hunseen hret (h.frame hhistory hengine rfl rfl rfl)
  | advance now elapsed_ms =>
      unfold exec at hexec
      dsimp only at hexec
      split at hexec
      · obtain ⟨⟨m, answers, events⟩, hadv, hret⟩ := (bind_ok_iff _ _ _).mp hexec
        obtain ⟨rfl, rfl⟩ := Prod.mk.inj (Except.ok.inj hret)
        refine mirrors_advance hsees h hclear hadv ?_
        rw [applied_append]
        split_ifs <;> exact List.append_nil _
      · exact hunseen hexec h
  | announce_arrivals =>
      unfold exec at hexec
      dsimp only at hexec
      split at hexec
      · rename_i now events at_revision htick
        have hrest := (Match.announce_arrivals_announced s.server events at_revision).rest
        exact hunseen hexec (h.frame (by rw [hears, hrest]) (by rw [hears, hrest]) rfl rfl rfl)
      · exact hunseen hexec h
  | announce_rest =>
      unfold exec at hexec
      dsimp only at hexec
      split at hexec
      · rename_i now htick
        have hannounced : Match.Announced s.server (s.server.announce_rest now).1 :=
          (Match.announce_resignation_announced s.server).trans
            ((Match.advance_disconnect_countdown_announced _ now).trans
              (Match.release_if_due_announced _ now))
        refine hunseen hexec (h.frame ?_ ?_ rfl rfl rfl)
        · exact (congrArg Match.history hannounced.rest).trans rfl
        · exact (congrArg Match.engine hannounced.rest).trans rfl
      · exact hunseen hexec h
  | receive =>
      unfold exec at hexec
      dsimp only at hexec
      split at hexec
      · exact hunseen hexec h
      · -- the socket's thread only files what it is handed
        have hfiled : ∀ message, (s.client.on_message message).board = s.client.board := by
          intro message
          cases message <;> rfl
        exact hunseen hexec (h.frame rfl rfl rfl (hfiled _) rfl)
  | wait_for_welcome =>
      unfold exec at hexec
      dsimp only at hexec
      split_ifs at hexec with hb
      · exact hunseen hexec h
      · obtain ⟨⟨client, outcome⟩, hrun, hret⟩ := (bind_ok_iff _ _ _).mp hexec
        obtain ⟨rfl, rfl⟩ := Prod.mk.inj (Except.ok.inj hret)
        exact mirrors_wait_for_welcome hsees h (by simpa using hb) hrun
  | wait =>
      unfold exec at hexec
      dsimp only at hexec
      split_ifs at hexec with hb
      · exact hunseen hexec h
      · obtain ⟨⟨client, ui⟩, hrun, hret⟩ := (bind_ok_iff _ _ _).mp hexec
        obtain ⟨rfl, rfl⟩ := Prod.mk.inj (Except.ok.inj hret)
        refine ⟨h.server, h.snapshot, fun b' hb' => ?_⟩
        obtain ⟨b, hb⟩ := Option.ne_none_iff_exists'.mp (by simpa using hb)
        have hempty : ({ s.client with incoming_queue := [] } : ServerLink).board = some b := hb
        obtain ⟨b₁, hb₁, hreplay⟩ := replays_handle s.client.incoming_queue hempty hrun
        obtain rfl := Option.some.inj (hb₁.symm.trans hb')
        obtain ⟨w, hw, hreplayed⟩ := h.client b hb
        refine ⟨w, hw, ?_⟩
        rw [applied_append, List.flatMap_append, ← List.append_assoc]
        exact hreplayed.replay hreplay

/-- **The run lemma.** -/
theorem mirrors_of_reach {board : Board} (hb : Fresh board) {config : MotionFactory}
    {on_result : Bool} {disconnect_grace_ms release_delay_ms : Int} {room_name : String}
    {connection : Connection} (hrun : Reach exec ClearElsewhere (initial (Match.new board config
      on_result disconnect_grace_ms release_delay_ms room_name) connection) s tr) :
    Sees s tr ∧ Mirrors board s tr := by
  refine Reach.invariant (P := fun s tr => Sees s tr ∧ Mirrors board s tr)
    ⟨sees_initial hb _ _ _ _ _ _, ⟨board, rfl, agrees_self board⟩, nofun, nofun⟩ ?_ hrun
  rintro s tr label s' os - ⟨hsees, h⟩ hclear hstep
  obtain ⟨s₁, os₁, hstep₁, hs₁⟩ := sees_exec hsees label hclear.1
  obtain ⟨rfl, rfl⟩ := Prod.mk.inj (Except.ok.inj (hstep₁.symm.trans hstep))
  exact ⟨hs₁, mirrors_exec hsees h hclear hstep⟩

/-- The revision of a client is how much of the server's log it has on its board. -/
theorem history_at_revision {w : Welcome} {n : ℕ} (htaken : Taken s.server (updated tr) w)
    (hfollowed : Followed (updated tr) (applied tr) w.revision s.client.revision n) :
    w.history ++ (applied tr).flatMap BoardUpdate.arrival_events
      = ((updated tr).take s.client.revision).flatMap BoardUpdate.arrival_events := by
  rw [htaken.history, ← List.flatMap_append, hfollowed.applied, hfollowed.revision]
  rcases le_total n w.revision with hle | hle
  · -- it has not been past its snapshot yet
    rw [max_eq_left hle, List.drop_eq_nil_of_le ((List.length_take_le _ _).trans hle),
      List.append_nil]
  · have hprefix : ((updated tr).take n).take w.revision = (updated tr).take w.revision := by
      rw [List.take_take, min_eq_left hle]
    rw [max_eq_right hle, ← hprefix, List.take_append_drop]

end Joiner

open Joiner in
/-- **A joiner sees the board of the match.** Take any interleaving of the steps of a join,
of ticks that bring no jumper down on an ally, of calls on other connections and of the
client, from the opening of a match on. The server's board is the first board with the
server's history replayed on it. A client that has a board has, up to `PieceState`, the
first board with the updates replayed on it that were recorded up to its revision; and
when it is still on the roster and nothing is on its way, it has the server's board. -/
theorem joiner_sees_the_board {board_lines : List String} {board : Board}
    {config : MotionFactory} {on_result : Bool} {disconnect_grace_ms release_delay_ms : Int}
    {room_name : String} {connection : Connection} {s : Joiner} {tr : List Seen}
    (hparse : parse board_lines = .ok board)
    (hrun : Reach Joiner.exec ClearElsewhere (initial (Match.new board config on_result
      disconnect_grace_ms release_delay_ms room_name) connection) s tr) :
    Replayed board s.server.history s.server.engine.board ∧
    ∀ b, s.client.board = some b →
      Replayed board (((updated tr).take s.client.revision).flatMap BoardUpdate.arrival_events) b ∧
      s.client.revision ≤ s.server.revision ∧
      (s.connection ∈ s.server.audience.everyone → s.Settled →
        Agrees b s.server.engine.board) := by
  obtain ⟨hsees, h⟩ := mirrors_of_reach (fresh_of_parse hparse) hrun
  refine ⟨h.server, fun b hb => ?_⟩
  obtain ⟨w, hw, hreplayed⟩ := h.client b hb
  obtain ⟨n, d, hpos⟩ := hsees.position
  cases hpos.greeting with
  | unsent _ _ h3 => exact absurd (h3.symm.trans hb) nofun
  | sent _ _ _ _ h4 => exact absurd (h4.symm.trans hb) nofun
  | built w' _ h2 _ _ _ hfollowed =>
      obtain rfl := Option.some.inj (hw.symm.trans h2)
      have htaken := hsees.taken w hw
      rw [history_at_revision htaken hfollowed] at hreplayed
      have hle : s.client.revision ≤ (updated tr).length := by
        rw [hfollowed.revision]
        exact max_le htaken.revision_le (hpos.queued.le.trans hpos.queued.le_length)
      refine ⟨hreplayed, hsees.log.revision.symm ▸ hle, fun hatt hsettled => ?_⟩
      -- on the roster once, so it has been sent all that was recorded
      have hone : s.attached = 1 := le_antisymm hsees.once (List.count_pos_iff.mpr hatt)
      have hd : d = (updated tr).length := by
        have := hpos.complete hone
        rwa [hsettled.1] at this
      -- and nothing is waiting, so it has been past all that it was sent
      have hn : (updated tr).length ≤ n := by
        have hnil := hpos.queued.queue
        rw [hsettled.2, hd, List.take_length] at hnil
        exact List.drop_eq_nil_iff.mp hnil.symm
      have hall : (updated tr).take s.client.revision = updated tr := by
        refine List.take_of_length_le ?_
        rw [hfollowed.revision]
        exact le_max_of_le_right hn
      rw [hall, ← hsees.log.history] at hreplayed
      exact hreplayed.agrees h.server

open Joiner in
/-- A viewer that comes in the middle of a tick, and then sees a move of the rook. -/
theorem viewer_sees_the_rook_move : ∃ s tr b,
    run Joiner.exec (initial (Match.new three_on_a_row shipped_factory true 20000 3000 "") ⟨3⟩)
      [.other (.join "white" 1200 ⟨1⟩), .other (.join "black" 1200 ⟨2⟩),
        .advance 0 0, .announce_arrivals, .register .join_spectator, .announce_rest, .snapshot,
        .send_welcome, .send_start, .receive, .receive, .wait_for_welcome, .wait,
        .other (.enqueue .White (.MoveRequest ⟨0, 1⟩ ⟨0, 2⟩)),
        .advance 2000 2000, .announce_arrivals, .announce_rest, .receive, .receive, .wait]
      = .ok (s, tr) ∧
    s.client.board = some b ∧ (updated tr).length = 1 ∧ Agrees b s.server.engine.board := by
  obtain ⟨⟨s, tr⟩, hrun, hp⟩ := exists_ok_such (p := fun r => r.1.client.board.isSome ∧
      (updated r.2).length = 1 ∧ r.1.connection ∈ r.1.server.audience.everyone ∧ r.1.Settled) (x :=
    run Joiner.exec (initial (Match.new three_on_a_row shipped_factory true 20000 3000 "") ⟨3⟩)
      [.other (.join "white" 1200 ⟨1⟩), .other (.join "black" 1200 ⟨2⟩),
        .advance 0 0, .announce_arrivals, .register .join_spectator, .announce_rest, .snapshot,
        .send_welcome, .send_start, .receive, .receive, .wait_for_welcome, .wait,
        .other (.enqueue .White (.MoveRequest ⟨0, 1⟩ ⟨0, 2⟩)),
        .advance 2000 2000, .announce_arrivals, .announce_rest, .receive, .receive, .wait])
    (by decide)
  obtain ⟨hsome, hup, hatt, hsettled⟩ := of_decide_eq_true hp
  obtain ⟨b, hb⟩ := Option.isSome_iff_exists.mp hsome
  have hsees := joiner_sees_the_board parse_three_on_a_row (reach_of_meets (by decide) hrun)
  exact ⟨s, tr, b, hrun, hb, hup, (hsees.2 b hb).2.2 hatt hsettled⟩

end KungFuChess
