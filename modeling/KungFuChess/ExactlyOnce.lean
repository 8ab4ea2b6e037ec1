/-
**A joiner sees every update exactly once.**

Registration, snapshot and broadcast are three critical sections on two threads, and
the client reads what they send on a third. `sees_exec` collects what `JoinerView`
says of each of their steps, and a run is the invariant rule away.
-/
import KungFuChess.JoinerView

set_option autoImplicit false

namespace KungFuChess

open Machine LogFollower

namespace Joiner

/-! ## Runs -/

/-- **Every step of either end** succeeds, and keeps the joiner's view together. -/
theorem sees_exec {s : Joiner} {tr : List Seen} (h : Sees s tr) (label : Label)
    (helse : OthersElsewhere s tr label) :
    ∃ s' os, exec s label = .ok (s', os) ∧ Sees s' (tr ++ os) := by
  have hunseen : ∀ t, Sees t tr →
      ∃ s' os, (pure (t, []) : Except BoardError (Joiner × List Seen)) = .ok (s', os) ∧
        Sees s' (tr ++ os) := by
    intro t ht
    refine ⟨t, [], rfl, ?_⟩
    rw [List.append_nil]
    exact ht
  -- a thread that is at another point of its code has nothing to do
  cases label with
  | register request =>
      unfold exec
      dsimp only
      split
      · exact hunseen _ (sees_register h ‹_› request)
      · exact hunseen s h
  | snapshot =>
      unfold exec
      dsimp only
      split
      · exact hunseen _ (sees_snapshot h ‹_›)
      · exact hunseen s h
  | send_welcome =>
      unfold exec
      dsimp only
      split
      · exact hunseen _ (sees_send_welcome h ‹_›)
      · exact hunseen s h
  | send_start =>
      unfold exec
      dsimp only
      split
      · rename_i request color already_started welcome hstage
        exact hunseen _ (sees_send_start h hstage)
      · exact hunseen s h
  | other call =>
      have hcall : ∃ r, s.server.exec call = .ok r := by
        -- only a tick can throw, and ticks are steps of their own here
        cases call with
        | tick now elapsed_ms => exact helse.elim
        | _ => exact ⟨_, rfl⟩
      obtain ⟨r, hr⟩ := hcall
      refine ⟨s.hears r, [], ?_, ?_⟩
      · unfold exec
        dsimp only
        rw [hr]
        rfl
      · rw [List.append_nil]
        exact sees_other h helse hr
  | advance now elapsed_ms =>
      unfold exec
      dsimp only
      split
      · obtain ⟨⟨m, answers, events⟩, hrun⟩ := Match.advance_board_total h.log.sound elapsed_ms
        rw [hrun]
        exact ⟨_, _, rfl, sees_advance h ‹_› (Match.advance_board_spec hrun)⟩
      · exact hunseen s h
  | announce_arrivals =>
      unfold exec
      dsimp only
      split
      · exact hunseen _ (sees_announce_arrivals h ‹_›)
      · exact hunseen s h
  | announce_rest =>
      unfold exec
      dsimp only
      split
      · exact hunseen _ (sees_announce_rest h ‹_›)
      · exact hunseen s h
  | receive =>
      unfold exec
      dsimp only
      split
      · exact hunseen s h
      · exact hunseen _ (sees_receive h ‹_›)
  | wait_for_welcome =>
      unfold exec
      dsimp only
      by_cases hb : s.client.board.isSome = true
      · rw [if_pos hb]
        exact hunseen s h
      · rw [if_neg hb]
        have hnone : s.client.board = none := by simpa using hb
        obtain ⟨client, outcome, hrun, hs⟩ := sees_wait_for_welcome h hnone
        rw [hrun]
        exact ⟨_, _, rfl, hs⟩
  | wait =>
      unfold exec
      dsimp only
      by_cases hb : s.client.board.isNone = true
      · rw [if_pos hb]
        exact hunseen s h
      · rw [if_neg hb]
        have hsome : s.client.board ≠ none := by simpa using hb
        obtain ⟨client, os, hrun, hs⟩ := sees_wait h hsome
        rw [hrun]
        exact ⟨_, _, rfl, hs⟩

/-- A match that has just been opened, and a connection that is not in it. -/
def initial (m : Match) (connection : Connection) : Joiner :=
  { connection := connection, server := m }

theorem sees_initial {board : Board} (hb : Fresh board) (config : MotionFactory)
    (on_result : Bool) (disconnect_grace_ms release_delay_ms : Int) (room_name : String)
    (connection : Connection) :
    Sees (initial (Match.new board config on_result disconnect_grace_ms release_delay_ms room_name)
      connection) [] where
  log := ⟨sound_new config hb, rfl, rfl, rfl, fun _ hu => absurd hu List.not_mem_nil⟩
  pending := List.nil_suffix
  once := Nat.zero_le 1
  unregistered _ := ⟨rfl, rfl⟩
  fine _ hm := absurd hm List.not_mem_nil
  admitted := ⟨rfl, rfl⟩
  taken := nofun
  position := ⟨0, 0, Queued.nil (le_refl 0), fun _ => rfl, .unsent rfl rfl rfl rfl rfl nofun⟩

/-- Nothing is on its way to the joiner: every update recorded is broadcast, and
every update sent is handled. -/
def Settled (s : Joiner) : Prop := unannounced s.tick = [] ∧ s.incoming = []

instance (s : Joiner) : Decidable s.Settled := inferInstanceAs (Decidable (_ ∧ _))

end Joiner

open Joiner in
/-- **A joiner sees every update exactly once.** Take any interleaving of the steps
of a join, of ticks, of calls on other connections and of the client, from the
opening of a match on. The server's updates are numbered 1, 2, ... and are its
history. Once the client has built its board from a `Welcome`, the updates it has
applied are the first of those the `Welcome` lacks, each once and in order; and
when the joiner is still on the roster and nothing is on its way, they are all of
them, and with the history of the `Welcome` they are the server's history. No step
throws. -/
theorem joiner_sees_every_update_once {board_lines : List String} {board : Board}
    {config : MotionFactory} {on_result : Bool} {disconnect_grace_ms release_delay_ms : Int}
    {room_name : String} {connection : Connection} {s : Joiner} {tr : List Seen}
    (hparse : parse board_lines = .ok board)
    (hrun : Reach Joiner.exec OthersElsewhere (initial (Match.new board config on_result
      disconnect_grace_ms release_delay_ms room_name) connection) s tr) :
    (updated tr).map BoardUpdate.revision = List.range' 1 (updated tr).length ∧
    (updated tr).flatMap BoardUpdate.arrival_events = s.server.history ∧
    (∀ w ∈ built tr,
      applied tr <+: (updated tr).filter (fun u => w.revision < u.revision) ∧
      (s.connection ∈ s.server.audience.everyone → s.Settled →
        applied tr = (updated tr).filter (fun u => w.revision < u.revision) ∧
        w.history ++ (applied tr).flatMap BoardUpdate.arrival_events = s.server.history)) ∧
    ∀ label, OthersElsewhere s tr label → ∃ r, Joiner.exec s label = .ok r := by
  have hsees : Sees s tr := by
    refine Reach.invariant (P := Sees) (sees_initial (fresh_of_parse hparse) _ _ _ _ _ _) ?_ hrun
    intro s tr label s' os _ h helse hstep
    obtain ⟨s₁, os₁, hstep₁, hs₁⟩ := sees_exec h label helse
    rw [hstep] at hstep₁
    obtain ⟨rfl, rfl⟩ := Prod.mk.inj (Except.ok.inj hstep₁)
    exact hs₁
  refine ⟨hsees.log.numbered, hsees.log.history.symm, fun w hw => ?_, fun label helse => ?_⟩
  · obtain ⟨n, d, hpos⟩ := hsees.position
    cases hpos.greeting with
    | unsent _ _ _ h4 => rw [h4] at hw; cases hw
    | sent _ _ _ _ _ h5 => rw [h5] at hw; cases hw
    | built w' _ h2 _ _ h5 h6 =>
        rw [h5] at hw
        obtain rfl := List.mem_singleton.mp hw
        rw [← hsees.log.numbered.drop_eq_filter]
        refine ⟨h6.applied_prefix, fun hatt hsettled => ?_⟩
        -- on the roster once, so the window reaches to the end of what was announced
        have hone : s.attached = 1 :=
          le_antisymm hsees.once (List.count_pos_iff.mpr hatt)
        have hd : d = (updated tr).length := by
          have := hpos.complete hone
          rwa [hsettled.1] at this
        -- and nothing is waiting, so the client has been past all of it
        have hn : (updated tr).length ≤ n := by
          have hnil := hpos.queued.queue
          rw [hsettled.2, hd, List.take_length] at hnil
          exact List.drop_eq_nil_iff.mp hnil.symm
        have hall := h6.applied_all hn
        refine ⟨hall, ?_⟩
        rw [hall, (hsees.taken w h2).history, hsees.log.history, ← List.flatMap_append,
          List.take_append_drop]
  · obtain ⟨s', os, hstep, _⟩ := sees_exec hsees label helse
    exact ⟨_, hstep⟩

open Joiner in
/-- A viewer that registers between the critical section and the broadcast of the
first update: the snapshot has it and the broadcast brings it again, and only the
second update is applied. -/
theorem viewer_skips_the_covered_update : ∃ s tr,
    run Joiner.exec (initial (Match.new three_on_a_row shipped_factory true 20000 3000 "") ⟨3⟩)
      [.other (.join "white" 1200 ⟨1⟩), .other (.join "black" 1200 ⟨2⟩),
        .other (.enqueue .White (.MoveRequest ⟨0, 1⟩ ⟨0, 2⟩)),
        .advance 0 0, .announce_arrivals, .announce_rest,
        .advance 2000 2000, .register .join_spectator, .announce_arrivals, .snapshot,
        .send_welcome, .announce_rest, .send_start,
        .receive, .receive, .wait_for_welcome, .receive, .wait,
        .other (.enqueue .White (.MoveRequest ⟨0, 0⟩ ⟨0, 1⟩)),
        .advance 2000 0, .announce_arrivals, .announce_rest,
        .advance 4000 2000, .announce_arrivals, .announce_rest,
        .receive, .receive, .wait] = .ok (s, tr) ∧
    (updated tr).length = 2 ∧ (applied tr).length = 1 ∧ ∃ w ∈ built tr, w.revision = 1 ∧
      applied tr = (updated tr).filter (fun u => w.revision < u.revision) ∧
      w.history ++ (applied tr).flatMap BoardUpdate.arrival_events = s.server.history := by
  obtain ⟨⟨s, tr⟩, hrun, hp⟩ := exists_ok_such (p := fun r =>
      (updated r.2).length = 2 ∧ (applied r.2).length = 1 ∧
      (built r.2).map Welcome.revision = [1] ∧
      r.1.connection ∈ r.1.server.audience.everyone ∧ r.1.Settled) (x :=
    run Joiner.exec (initial (Match.new three_on_a_row shipped_factory true 20000 3000 "") ⟨3⟩)
      [.other (.join "white" 1200 ⟨1⟩), .other (.join "black" 1200 ⟨2⟩),
        .other (.enqueue .White (.MoveRequest ⟨0, 1⟩ ⟨0, 2⟩)),
        .advance 0 0, .announce_arrivals, .announce_rest,
        .advance 2000 2000, .register .join_spectator, .announce_arrivals, .snapshot,
        .send_welcome, .announce_rest, .send_start,
        .receive, .receive, .wait_for_welcome, .receive, .wait,
        .other (.enqueue .White (.MoveRequest ⟨0, 0⟩ ⟨0, 1⟩)),
        .advance 2000 0, .announce_arrivals, .announce_rest,
        .advance 4000 2000, .announce_arrivals, .announce_rest,
        .receive, .receive, .wait]) (by decide)
  obtain ⟨hup, happ, hbuilt, hatt, hsettled⟩ := of_decide_eq_true hp
  obtain ⟨w, hw, hrev⟩ : ∃ w ∈ built tr, w.revision = 1 :=
    List.mem_map.mp (by rw [hbuilt]; exact List.mem_singleton_self 1)
  have hsees := joiner_sees_every_update_once parse_three_on_a_row
    (reach_of_meets (by decide) hrun)
  exact ⟨s, tr, hrun, hup, happ, w, hw, hrev, (hsees.2.2.1 w hw).2 hatt hsettled⟩

end KungFuChess
