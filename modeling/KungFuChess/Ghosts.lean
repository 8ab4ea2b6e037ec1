/-
**No ghost prediction**, or one.

A client that keeps predicting a motion that is over has been told of its start and not
of its end. Between registering and its snapshot a connection is sent both; the client
then takes the start, which has no revision, and skips the update that ends it, which its
snapshot covers (`ghost_prediction`). In every run whose snapshot is taken before any of
the motions the connection has been told of is over, no client does
(`no_ghost_prediction`).
-/
import KungFuChess.Predictions

set_option autoImplicit false

namespace KungFuChess

open Machine Following

namespace Interleaved

/-! ## Runs -/

/-- The next step of the joiner's thread is to take its snapshot, and it can. -/
def takes_snapshot (s : Interleaved) : Bool :=
  match s.joiner.stage with
  | .registered _ _ _ => ! s.holds_board
  | _ => false

/-- The condition on a step: as before, and the motions a connection has been told of
are there when its snapshot is taken. -/
def SnapshotInTime (s : Interleaved) (tr : List Seen) : Label → Prop
  | .joiner .snapshot => s.takes_snapshot = true → s.joiner.NoneEnded
  | label => OthersElsewhere s tr label

instance (s : Interleaved) (tr : List Seen) : ∀ label, Decidable (SnapshotInTime s tr label)
  | .joiner .snapshot => inferInstanceAs (Decidable (_ → _))
  | .joiner (.register request) =>
      inferInstanceAs (Decidable (OthersElsewhere s tr (.joiner (.register request))))
  | .joiner (.other call) =>
      inferInstanceAs (Decidable (OthersElsewhere s tr (.joiner (.other call))))
  | .joiner (.advance now elapsed_ms) =>
      inferInstanceAs (Decidable (OthersElsewhere s tr (.joiner (.advance now elapsed_ms))))
  | .joiner .send_welcome | .joiner .send_start | .joiner .announce_arrivals
  | .joiner .announce_rest | .joiner .receive | .joiner .wait_for_welcome | .joiner .wait
  | .drain _ _ | .read_state | .lock | .apply | .let_time_pass => .isTrue trivial

/-- What every state of a run satisfies. -/
structure Holds (s : Interleaved) : Prop where
  aware : s.joiner.Aware
  idle : s.critical ≠ none → s.joiner.tick = .idle

/-- **A step of the other threads.** -/
theorem aware_joiner_exec {s s' : Joiner} {tr os : List Seen} {label : Joiner.Label}
    (h : s.Aware) (helse : Joiner.OthersElsewhere s tr label)
    (hadvance : ∀ now elapsed_ms, label ≠ .advance now elapsed_ms)
    (hsnapshot : label = .snapshot → ∀ request color already_started,
      s.stage = .registered request color already_started → s.NoneEnded)
    (hstep : s.exec label = .ok (s', os)) :
    s'.Aware ∧ (s.tick = .idle → s'.tick = .idle) := by
  unfold Joiner.exec at hstep
  cases label with
  | advance now elapsed_ms => exact absurd rfl (hadvance now elapsed_ms)
  | register request =>
      dsimp only at hstep
      split at hstep
      · rename_i hstage
        obtain ⟨rfl, _⟩ := Prod.mk.inj (Except.ok.inj hstep)
        exact ⟨Joiner.aware_register h hstage request, id⟩
      · obtain ⟨rfl, _⟩ := Prod.mk.inj (Except.ok.inj hstep)
        exact ⟨h, id⟩
  | snapshot =>
      dsimp only at hstep
      split at hstep
      · rename_i request color already_started hstage
        obtain ⟨rfl, _⟩ := Prod.mk.inj (Except.ok.inj hstep)
        exact ⟨Joiner.aware_snapshot h hstage (hsnapshot rfl _ _ _ hstage), id⟩
      · obtain ⟨rfl, _⟩ := Prod.mk.inj (Except.ok.inj hstep)
        exact ⟨h, id⟩
  | send_welcome =>
      dsimp only at hstep
      split at hstep
      · rename_i hstage
        obtain ⟨rfl, _⟩ := Prod.mk.inj (Except.ok.inj hstep)
        exact ⟨Joiner.aware_send_welcome h hstage, id⟩
      · obtain ⟨rfl, _⟩ := Prod.mk.inj (Except.ok.inj hstep)
        exact ⟨h, id⟩
  | send_start =>
      dsimp only at hstep
      split at hstep
      · rename_i hstage
        obtain ⟨rfl, _⟩ := Prod.mk.inj (Except.ok.inj hstep)
        exact ⟨Joiner.aware_send_start h hstage, id⟩
      · obtain ⟨rfl, _⟩ := Prod.mk.inj (Except.ok.inj hstep)
        exact ⟨h, id⟩
  | other call =>
      obtain ⟨r, hcall, hret⟩ := (bind_ok_iff _ _ _).mp hstep
      obtain ⟨rfl, _⟩ := Prod.mk.inj (Except.ok.inj hret)
      exact ⟨Joiner.aware_other h helse hcall, id⟩
  | announce_arrivals =>
      dsimp only at hstep
      split at hstep
      · rename_i htick
        obtain ⟨rfl, _⟩ := Prod.mk.inj (Except.ok.inj hstep)
        refine ⟨Joiner.aware_announce_arrivals h htick, fun hidle => ?_⟩
        rw [htick] at hidle
        cases hidle
      · obtain ⟨rfl, _⟩ := Prod.mk.inj (Except.ok.inj hstep)
        exact ⟨h, id⟩
  | announce_rest =>
      dsimp only at hstep
      split at hstep
      · rename_i htick
        obtain ⟨rfl, _⟩ := Prod.mk.inj (Except.ok.inj hstep)
        exact ⟨Joiner.aware_announce_rest h htick, fun _ => rfl⟩
      · obtain ⟨rfl, _⟩ := Prod.mk.inj (Except.ok.inj hstep)
        exact ⟨h, id⟩
  | receive =>
      dsimp only at hstep
      split at hstep
      · obtain ⟨rfl, _⟩ := Prod.mk.inj (Except.ok.inj hstep)
        exact ⟨h, id⟩
      · rename_i hwire
        obtain ⟨rfl, _⟩ := Prod.mk.inj (Except.ok.inj hstep)
        exact ⟨Joiner.aware_receive h hwire, id⟩
  | wait_for_welcome =>
      dsimp only at hstep
      split_ifs at hstep with hboard
      · obtain ⟨rfl, _⟩ := Prod.mk.inj (Except.ok.inj hstep)
        exact ⟨h, id⟩
      · obtain ⟨⟨client, outcome⟩, hrun, hret⟩ := (bind_ok_iff _ _ _).mp hstep
        obtain ⟨rfl, _⟩ := Prod.mk.inj (Except.ok.inj hret)
        exact ⟨Joiner.aware_wait_for_welcome h (by simpa using hboard) hrun, id⟩
  | wait =>
      dsimp only at hstep
      split_ifs at hstep with hboard
      · obtain ⟨rfl, _⟩ := Prod.mk.inj (Except.ok.inj hstep)
        exact ⟨h, id⟩
      · obtain ⟨⟨client, events⟩, hrun, hret⟩ := (bind_ok_iff _ _ _).mp hstep
        obtain ⟨rfl, _⟩ := Prod.mk.inj (Except.ok.inj hret)
        exact ⟨Joiner.aware_wait h (by simpa using hboard) hrun, id⟩

/-- A step of the other threads, while the worker is where it is. -/
theorem Holds.joiner {s : Interleaved} (h : Holds s) {joiner : Joiner}
    (hjoiner : joiner.Aware ∧ (s.joiner.tick = .idle → joiner.tick = .idle)) :
    Holds { s with joiner := joiner } :=
  ⟨hjoiner.1, fun hcritical => hjoiner.2 (h.idle hcritical)⟩

/-- **Every step of either end.** -/
theorem holds_exec {s s' : Interleaved} {tr os : List Seen} {label : Label} (h : Holds s)
    (hcond : SnapshotInTime s tr label) (hstep : exec s label = .ok (s', os)) : Holds s' := by
  cases label with
  | drain now elapsed_ms =>
      unfold exec at hstep
      dsimp only at hstep
      split at hstep
      · rename_i hidle
        obtain ⟨rfl, _⟩ := Prod.mk.inj (Except.ok.inj hstep)
        -- the queue says nothing of the board
        have haware := h.aware.quiet (r := (s.joiner.server.drain, [])) s.joiner.tick
          s.joiner.stage rfl rfl (fun _ hatt => hatt) rfl rfl rfl rfl
        exact ⟨haware, fun _ => hidle⟩
      · obtain ⟨rfl, _⟩ := Prod.mk.inj (Except.ok.inj hstep)
        exact h
  | read_state =>
      unfold exec at hstep
      dsimp only at hstep
      split at hstep
      · rename_i hcritical
        obtain ⟨rfl, _⟩ := Prod.mk.inj (Except.ok.inj hstep)
        exact ⟨h.aware, fun _ => h.idle (by rw [hcritical]; simp)⟩
      · obtain ⟨rfl, _⟩ := Prod.mk.inj (Except.ok.inj hstep)
        exact h
  | lock =>
      unfold exec at hstep
      dsimp only at hstep
      split at hstep
      · rename_i hcritical
        obtain ⟨rfl, _⟩ := Prod.mk.inj (Except.ok.inj hstep)
        exact ⟨h.aware, fun _ => h.idle (by rw [hcritical]; simp)⟩
      · obtain ⟨rfl, _⟩ := Prod.mk.inj (Except.ok.inj hstep)
        exact h
  | apply =>
      unfold exec at hstep
      dsimp only at hstep
      split at hstep
      · rename_i hcritical
        have hidle := h.idle (by rw [hcritical]; simp)
        obtain ⟨r, happly, hret⟩ := (bind_ok_iff _ _ _).mp hstep
        obtain ⟨rfl, _⟩ := Prod.mk.inj (Except.ok.inj hret)
        exact ⟨Joiner.aware_apply h.aware hidle happly, fun _ => hidle⟩
      · obtain ⟨rfl, _⟩ := Prod.mk.inj (Except.ok.inj hstep)
        exact h
  | let_time_pass =>
      unfold exec at hstep
      dsimp only at hstep
      split at hstep
      · rename_i hcritical
        have hidle := h.idle (by rw [hcritical]; simp)
        obtain ⟨⟨m, events⟩, htime, hret⟩ := (bind_ok_iff _ _ _).mp hstep
        obtain ⟨rfl, _⟩ := Prod.mk.inj (Except.ok.inj hret)
        exact ⟨Joiner.aware_let_time_pass h.aware hidle htime, fun hne => absurd rfl hne⟩
      · rename_i now elapsed_ms hcritical
        have hidle := h.idle (by rw [hcritical]; simp)
        obtain ⟨rfl, _⟩ := Prod.mk.inj (Except.ok.inj hstep)
        refine ⟨h.aware.at_tick ?_, fun hne => absurd rfl hne⟩
        rw [hidle]
        rfl
      · obtain ⟨rfl, _⟩ := Prod.mk.inj (Except.ok.inj hstep)
        exact h
  | joiner label =>
      -- a step of the joiner, but for the two that the worker is in the way of
      have hother : (∀ now elapsed_ms, label ≠ .advance now elapsed_ms) → label ≠ .snapshot →
          Joiner.OthersElsewhere s.joiner tr label →
          (s.joiner.exec label >>= fun r => .ok ({ s with joiner := r.1 }, r.2)) = .ok (s', os) →
          Holds s' := by
        intro hadvance hsnapshot helse hrun
        obtain ⟨⟨joiner, os⟩, hone, hret⟩ := (bind_ok_iff _ _ _).mp hrun
        obtain ⟨rfl, _⟩ := Prod.mk.inj (Except.ok.inj hret)
        exact h.joiner (aware_joiner_exec h.aware helse hadvance
          (fun heq => absurd heq hsnapshot) hone)
      cases label with
      | advance now elapsed_ms =>
          obtain ⟨rfl, _⟩ := Prod.mk.inj (Except.ok.inj hstep)
          exact h
      | snapshot =>
          unfold exec at hstep
          dsimp only at hstep
          split_ifs at hstep with hholds
          · obtain ⟨rfl, _⟩ := Prod.mk.inj (Except.ok.inj hstep)
            exact h
          · obtain ⟨r, hone, hret⟩ := (bind_ok_iff _ _ _).mp hstep
            obtain ⟨rfl, _⟩ := Prod.mk.inj (Except.ok.inj hret)
            have helse : Joiner.OthersElsewhere s.joiner tr .snapshot := trivial
            refine h.joiner (aware_joiner_exec h.aware helse (by simp) ?_ hone)
            intro _ request color already_started hstage
            refine hcond ?_
            unfold takes_snapshot
            rw [hstage]
            simpa using hholds
      | other call => exact hother (by simp) (by simp) hcond hstep
      | _ => exact hother (by simp) (by simp) trivial hstep

theorem holds_initial {board : Board} (hb : Fresh board) (config : MotionFactory)
    (on_result : Bool) (disconnect_grace_ms release_delay_ms : Int) (room_name : String)
    (connection : Connection) :
    Holds (initial (Match.new board config on_result disconnect_grace_ms release_delay_ms room_name)
      connection) where
  aware := {
    sound := sound_new config hb
    numbered := fun _ _ hmem => absurd hmem List.not_mem_nil
    unwelcomed := fun _ => rfl
    welcomes := fun _ hw => absurd hw List.not_mem_nil
    unbuilt := fun _ => by simp [initial, ServerLink.view]
    faithful := fun _ _ hv => by cases hv }
  idle := fun hne => absurd rfl hne

end Interleaved

open Interleaved in
/-- **No ghost prediction.** Take any interleaving of the steps of a join, of ticks, cut
where another thread can come in, of calls on other connections and of the client, from
the opening of a match on, in which the joiner's snapshot is taken while every motion the
connection has been told of is there. Once the client has built its board from the
`Welcome` and has processed every message sent to it, each of its predictions is of a
piece with an active motion; when a tick has recorded arrivals and is still to broadcast
them, it may be of one that they end. -/
theorem no_ghost_prediction {board_lines : List String} {board : Board} {config : MotionFactory}
    {on_result : Bool} {disconnect_grace_ms release_delay_ms : Int} {room_name : String}
    {connection : Connection} {s : Interleaved} {tr : List Seen}
    (hparse : parse board_lines = .ok board)
    (hrun : Reach Interleaved.exec SnapshotInTime (initial (Match.new board config on_result
      disconnect_grace_ms release_delay_ms room_name) connection) s tr)
    (hroster : s.joiner.connection ∈ s.joiner.server.audience.everyone)
    (hbuilt : s.joiner.client.board ≠ none) (hqueue : s.joiner.client.incoming_queue = [])
    (hwire : s.joiner.wire = []) (piece_id : PieceId)
    (hpredicted : s.joiner.client.predicted_motions piece_id ≠ none) :
    s.joiner.server.engine.arbiter.motion_for piece_id ≠ none ∨
      ∃ update ∈ Joiner.unannounced s.joiner.tick, piece_id ∈ ended_ids update.arrival_events := by
  have hholds : Holds s := by
    refine hrun.invariant (P := fun (s : Interleaved) (_ : List Seen) => Holds s)
      (holds_initial (fresh_of_parse hparse) _ _ _ _ _ _) ?_
    intro s tr label s' os _ h hcond hstep
    exact holds_exec h hcond hstep
  by_contra hnot
  obtain ⟨hghost, hunended⟩ := not_or.mp hnot
  have houtlook : s.joiner.outlook = some s.joiner.client.view := if_neg hbuilt
  have hfaithful := hholds.aware.faithful hroster _ houtlook
  have htidings : s.joiner.tidings = Joiner.unheard s.joiner.tick := by
    unfold Joiner.tidings
    rw [hqueue, hwire]
    rfl
  rw [htidings] at hfaithful
  -- nothing that is still to come takes the prediction away, so it is to be believed
  have hpast : piece_id ∈ (s.joiner.client.view.after (Joiner.unheard s.joiner.tick)).going := by
    refine View.mem_after (fun ids number hmem => ?_) hpredicted
    obtain ⟨update, hupdate, hend⟩ := List.mem_map.mp hmem
    obtain ⟨rfl, -⟩ := News.ended.inj hend
    exact fun hi => hunended ⟨update, hupdate, hi⟩
  have hmoving : (s.joiner.server.engine.arbiter.motion_for piece_id).isSome = true :=
    hfaithful.subset hpast
  rw [not_not.mp hghost] at hmoving
  cases hmoving

namespace Interleaved

/-- Two players, and a viewer that registers before the first move. -/
def viewer_registers : List Label :=
  [.joiner (.other (.join "white" 1200 ⟨1⟩)), .joiner (.other (.join "black" 1200 ⟨2⟩)),
    .joiner (.register .join_spectator),
    .joiner (.other (.enqueue .White (.MoveRequest ⟨0, 1⟩ ⟨0, 2⟩)))]

/-- A tick that nothing comes between, with at most one command. -/
def whole_tick (now : Int) (elapsed_ms : Nat) : List Label :=
  [.drain now elapsed_ms, .read_state, .lock, .apply, .let_time_pass, .joiner .announce_arrivals,
    .joiner .announce_rest]

/-- The viewer's snapshot, and all that the client does about it. -/
def viewer_enters : List Label :=
  [.joiner .snapshot, .joiner .send_welcome, .joiner .send_start, .joiner .receive,
    .joiner .receive, .joiner .receive, .joiner .receive, .joiner .wait_for_welcome, .joiner .wait]

end Interleaved

open Interleaved in
/-- A snapshot between the start of a motion and its end. -/
theorem viewer_predicts_what_moves : ∃ s tr,
    run Interleaved.exec (initial (Match.new three_on_a_row shipped_factory true 20000 3000 "") ⟨3⟩)
      (viewer_registers ++ whole_tick 0 0 ++ viewer_enters) = .ok (s, tr) ∧
    s.joiner.client.predicted_motions ⟨2⟩ ≠ none ∧
    s.joiner.server.engine.arbiter.motion_for ⟨2⟩ ≠ none := by
  obtain ⟨⟨s, tr⟩, hrun, hp⟩ := exists_ok_such (p := fun r =>
      r.1.joiner.connection ∈ r.1.joiner.server.audience.everyone ∧
      r.1.joiner.client.board ≠ none ∧ r.1.joiner.client.incoming_queue = [] ∧
      r.1.joiner.wire = [] ∧ r.1.joiner.client.predicted_motions ⟨2⟩ ≠ none ∧
      Joiner.unannounced r.1.joiner.tick = []) (x :=
    run Interleaved.exec (initial (Match.new three_on_a_row shipped_factory true 20000 3000 "") ⟨3⟩)
      (viewer_registers ++ whole_tick 0 0 ++ viewer_enters)) (by decide)
  obtain ⟨hroster, hbuilt, hqueue, hwire, hpredicted, hnone⟩ := of_decide_eq_true hp
  refine ⟨s, tr, hrun, hpredicted, ?_⟩
  obtain hmoving | ⟨update, hupdate, _⟩ := no_ghost_prediction parse_three_on_a_row
    (reach_of_meets (by decide) hrun) hroster hbuilt hqueue hwire ⟨2⟩ hpredicted
  · exact hmoving
  · rw [hnone] at hupdate
    cases hupdate

open Interleaved in
/-- **A ghost.** The king moves and arrives between the viewer's registration and its
snapshot: the viewer takes the start, skips the end and predicts the king's motion for
good. -/
theorem ghost_prediction : ¬ ∀ (board_lines : List String) (board : Board)
    (config : MotionFactory) (on_result : Bool) (disconnect_grace_ms release_delay_ms : Int)
    (room_name : String) (connection : Connection) (s : Interleaved) (tr : List Seen),
    parse board_lines = .ok board →
    Reach Interleaved.exec OthersElsewhere (initial (Match.new board config on_result
      disconnect_grace_ms release_delay_ms room_name) connection) s tr →
    s.joiner.connection ∈ s.joiner.server.audience.everyone →
    s.joiner.client.board ≠ none → s.joiner.client.incoming_queue = [] → s.joiner.wire = [] →
    Joiner.unannounced s.joiner.tick = [] → ∀ piece_id : PieceId,
      s.joiner.client.predicted_motions piece_id ≠ none →
        s.joiner.server.engine.arbiter.motion_for piece_id ≠ none := by
  intro h
  obtain ⟨⟨s, tr⟩, hrun, hp⟩ := exists_ok_such (p := fun r =>
      r.1.joiner.connection ∈ r.1.joiner.server.audience.everyone ∧
      r.1.joiner.client.board ≠ none ∧ r.1.joiner.client.incoming_queue = [] ∧
      r.1.joiner.wire = [] ∧ Joiner.unannounced r.1.joiner.tick = [] ∧
      r.1.joiner.client.predicted_motions ⟨2⟩ ≠ none ∧
      r.1.joiner.server.engine.arbiter.motion_for ⟨2⟩ = none) (x :=
    run Interleaved.exec (initial (Match.new three_on_a_row shipped_factory true 20000 3000 "") ⟨3⟩)
      (viewer_registers ++ whole_tick 0 0 ++ whole_tick 400 400 ++ viewer_enters)) (by decide)
  obtain ⟨hroster, hbuilt, hqueue, hwire, hnone, hpredicted, hgone⟩ := of_decide_eq_true hp
  exact h _ _ _ _ _ _ _ _ s tr parse_three_on_a_row (reach_of_meets (by decide) hrun) hroster
    hbuilt hqueue hwire hnone ⟨2⟩ hpredicted hgone

end KungFuChess
