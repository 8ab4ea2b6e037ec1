/-
**What becomes of the game in a room that is reaped.**

A room goes with its last connection, a game ends by a tick, and neither waits for
the other. A game that is over has been reported, exactly once
(`Reported`); a game that is not, has not. So a started game is thrown away
without a result exactly when the last connection goes before a tick has ended it
(`result_iff_over`), as when both players leave within the grace of the first
(`game_thrown_away`).
-/
import KungFuChess.Accounts
import KungFuChess.Verdict

set_option autoImplicit false

namespace KungFuChess

open Machine

namespace Match

/-! ## The result of one match -/

/-- What the latches of a match with a callback say of the results reported. -/
structure Reported (m : Match) (tr : List MatchEvent) : Prop where
  callback : m.on_result = true
  once : (results tr).length = if m.result_reported then 1 else 0
  decided : m.result_reported = true → m.game_over = true
  announced : m.game_over = true → m.result_reported = true ∨ m.pending_game_over.isSome

/-- A step that reports nothing and changes none of the latches. -/
theorem Reported.quiet {m m' : Match} {tr os : List MatchEvent} (h : Reported m tr)
    (hover : m'.game_over = m.game_over) (hpending : m'.pending_game_over = m.pending_game_over)
    (hrep : m'.result_reported = m.result_reported) (hon : m'.on_result = m.on_result)
    (ho : results os = []) : Reported m' (tr ++ os) where
  callback := hon.trans h.callback
  once := by
    rw [results_append, ho, List.append_nil, hrep]
    exact h.once
  decided hr := hover.trans (h.decided (hrep.symm.trans hr))
  announced ho := by
    rw [hrep, hpending]
    exact h.announced (hover.symm.trans ho)

/-- A game that ends is reported, unless it has been. -/
theorem Reported.report {m m' n : Match} {tr : List MatchEvent} {reason : GameEndReason}
    {winner : Option PieceColor} (h : Reported m tr) (os : List MatchEvent) (hos : results os = [])
    (hn : n.on_result = m.on_result ∧ n.result_reported = m.result_reported)
    (hon : m'.on_result = m.on_result) (hover : m'.game_over = true)
    (hrep : m'.result_reported = true) :
    Reported m' (tr ++ (os ++ (n.report_result reason winner).2)) where
  callback := hon.trans h.callback
  once := by
    have honce := h.once
    rw [results_append, results_append, hos, List.nil_append, List.length_append, honce, hrep]
    cases hr : m.result_reported with
    | true =>
        -- the latch is closed
        have hlatch : n.result_reported = true ∨ ¬ n.on_result = true := .inl (hn.2.trans hr)
        unfold report_result
        rw [if_pos hlatch]
        rfl
    | false =>
        rw [(report_result_spec (hn.2.trans hr) reason winner).2, hn.1, h.callback]
        rfl
  decided _ := hover
  announced _ := .inl hrep

/-- With a callback, `report_result` leaves the latch closed. -/
theorem result_reported_report {m : Match} (hon : m.on_result = true) (reason : GameEndReason)
    (winner : Option PieceColor) : (m.report_result reason winner).1.result_reported = true := by
  rw [report_result_rest, hon]
  exact Bool.or_true _

/-! ## The phases of a tick -/

theorem reported_advance_board {m m' : Match} {tr answers : List MatchEvent}
    {events : List ArrivalEvent} (h : Reported m tr) (hadv : BoardAdvanced m m' answers events) :
    Reported m' (tr ++ answers) := by
  have hover : m'.game_over = (m.game_over || (m.first_resign m.queue).isSome) := by rw [hadv.rest]
  have hrep : m'.result_reported = m.result_reported := by rw [hadv.rest]
  have hon : m'.on_result = m.on_result := by rw [hadv.rest]
  have hsilent := silent_of_answers hadv.answers
  cases hfirst : m.first_resign m.queue with
  | none =>
      have hpending : m'.pending_game_over = m.pending_game_over := by
        rw [hadv.rest]
        dsimp only
        rw [hfirst]
      rw [hfirst, Option.isSome_none, Bool.or_false] at hover
      exact h.quiet hover hpending hrep hon hsilent.results
  | some color =>
      have hpending : m'.pending_game_over = some (some (opposite_of color)) := by
        rw [hadv.rest]
        dsimp only
        rw [hfirst]
      rw [hfirst, Option.isSome_some, Bool.or_true] at hover
      refine ⟨hon.trans h.callback, ?_, fun _ => hover, fun _ => .inr ?_⟩
      · rw [results_append, hsilent.results, List.append_nil, hrep]
        exact h.once
      · rw [hpending]
        rfl

theorem reported_announce_arrivals {m : Match} {tr : List MatchEvent} (events : List ArrivalEvent)
    (at_revision : Nat) (h : Reported m tr) :
    Reported (m.announce_arrivals events at_revision).1
      (tr ++ (m.announce_arrivals events at_revision).2) := by
  unfold announce_arrivals
  split_ifs
  · exact h.quiet rfl rfl rfl rfl rfl
  · dsimp only
    split
    · exact h.quiet rfl rfl rfl rfl rfl
    · refine h.report (n := { m with game_over := true }) [_, _] rfl ⟨rfl, rfl⟩ ?_ ?_ ?_
      · dsimp only
        rw [report_result_rest]
      · dsimp only
        rw [report_result_rest]
      · exact result_reported_report (by exact h.callback) _ _

theorem announce_arrivals_pending (m : Match) (events : List ArrivalEvent) (at_revision : Nat) :
    (m.announce_arrivals events at_revision).1.pending_game_over = m.pending_game_over := by
  unfold announce_arrivals
  split_ifs
  · rfl
  · dsimp only
    split
    · rfl
    · dsimp only
      rw [report_result_rest]

/-- Nothing is left to announce. -/
theorem reported_announce_resignation {m : Match} {tr : List MatchEvent} (h : Reported m tr)
    (hpending : m.pending_game_over.isSome → m.game_over = true) :
    Reported m.announce_resignation.1 (tr ++ m.announce_resignation.2) ∧
      m.announce_resignation.1.pending_game_over = none := by
  unfold announce_resignation
  cases hp : m.pending_game_over with
  | none => exact ⟨h.quiet rfl rfl rfl rfl rfl, hp⟩
  | some winner =>
      refine ⟨h.report [_] rfl ⟨rfl, rfl⟩ ?_ ?_ ?_, rfl⟩
      · dsimp only
        rw [report_result_rest]
      · dsimp only
        rw [report_result_rest]
        exact hpending (by rw [hp]; rfl)
      · exact result_reported_report h.callback _ _

theorem reported_countdown {m : Match} {tr : List MatchEvent} (now : Int) (h : Reported m tr)
    (hpending : m.pending_game_over = none) :
    Reported (m.advance_disconnect_countdown now).1
      (tr ++ (m.advance_disconnect_countdown now).2) ∧
      (m.advance_disconnect_countdown now).1.pending_game_over = none := by
  unfold advance_disconnect_countdown
  split_ifs
  · exact ⟨h.quiet rfl rfl rfl rfl rfl, hpending⟩
  · dsimp only
    split
    · refine ⟨h.report [_] rfl ⟨rfl, rfl⟩ ?_ ?_ ?_, ?_⟩
      · dsimp only
        rw [report_result_rest]
      · dsimp only
        rw [report_result_rest]
      · exact result_reported_report (by exact h.callback) _ _
      · dsimp only
        rw [report_result_rest]
        exact hpending
    · split
      · exact ⟨h.quiet rfl rfl rfl rfl rfl, hpending⟩
      · exact ⟨h.quiet rfl rfl rfl rfl rfl, hpending⟩

theorem reported_release {m : Match} {tr : List MatchEvent} (now : Int) (h : Reported m tr)
    (hpending : m.pending_game_over = none) :
    Reported (m.release_if_due now).1 (tr ++ (m.release_if_due now).2) ∧
      (m.release_if_due now).1.pending_game_over = none := by
  unfold release_if_due
  dsimp only
  split_ifs
  · exact ⟨h.quiet rfl rfl rfl rfl (silent_closes _).results, hpending⟩
  · exact ⟨h.quiet rfl rfl rfl rfl rfl, hpending⟩
  · exact ⟨h.quiet rfl rfl rfl rfl (silent_closes _).results, hpending⟩
  · exact ⟨h.quiet rfl rfl rfl rfl rfl, hpending⟩

/-- **The step lemma.** Between calls nothing waits to be announced. -/
theorem reported_exec {m m' : Match} {tr os : List MatchEvent} {call : Call}
    (h : Reported m tr ∧ m.pending_game_over = none) (hexec : exec m call = .ok (m', os)) :
    Reported m' (tr ++ os) ∧ m'.pending_game_over = none := by
  obtain ⟨now, elapsed_ms, rfl⟩ | hcall := tick_or_not call
  · obtain ⟨m₁, answers, events, hadv, rfl, rfl⟩ := tick_ok hexec
    have hspec := advance_board_spec hadv
    have hpending : m₁.pending_game_over.isSome → m₁.game_over = true := by
      rw [hspec.rest]
      dsimp only
      cases m.first_resign m.queue with
      | none =>
          rw [h.2]
          exact nofun
      | some color => exact fun _ => Bool.or_true _
    unfold announce
    dsimp only
    -- each announcement in turn, with what has been sent so far behind it
    have hboard := reported_advance_board h.1 hspec
    have harrivals := reported_announce_arrivals events m₁.revision hboard
    obtain ⟨hresign, hnone⟩ := reported_announce_resignation harrivals (by
      intro hsome
      refine (announce_arrivals_announced m₁ events m₁.revision).latched (hpending ?_)
      rwa [announce_arrivals_pending] at hsome)
    obtain ⟨hcount, hnone⟩ := reported_countdown now hresign hnone
    obtain ⟨hrelease, hnone⟩ := reported_release now hcount hnone
    simp only [List.append_assoc] at hrelease ⊢
    exact ⟨hrelease, hnone⟩
  · have hsilent := call_silent hcall hexec
    rw [call_frame hcall hexec]
    exact ⟨h.1.quiet rfl rfl rfl rfl hsilent.results, h.2⟩

/-- **A game is over exactly when its result has been reported, once.** -/
theorem result_iff_over {board : Board} {config : MotionFactory}
    {disconnect_grace_ms release_delay_ms : Int} {room_name : String} {m : Match}
    {tr : List MatchEvent} (hrun : Reach exec anyStep (Match.new board config true
      disconnect_grace_ms release_delay_ms room_name) m tr) :
    (results tr).length = 1 ↔ m.game_over = true := by
  obtain ⟨hrep, hnone⟩ : Reported m tr ∧ m.pending_game_over = none := by
    refine Reach.invariant (P := fun m tr => Reported m tr ∧ m.pending_game_over = none)
      ⟨⟨rfl, rfl, fun h => absurd h Bool.false_ne_true, fun h => absurd h Bool.false_ne_true⟩, rfl⟩
      ?_ hrun
    intro m tr call m' os _ h _ hexec
    exact reported_exec h hexec
  rw [hrep.once]
  constructor
  · intro hone
    split_ifs at hone with hreported
    exact hrep.decided hreported
  · intro hover
    rcases hrep.announced hover with hreported | hpending
    · rw [if_pos hreported]
    · rw [hnone] at hpending
      cases hpending

end Match

namespace RoomManager

/-! ## The match of a room -/

variable {l l' : Ledger} {owns : RoomId → PieceColor → Prop} {found : Option Int}

/-- The match of a room has got where it is by its own events. -/
def PlayedAt (l : Ledger) (id : RoomId) (tr : List MatchEvent) : Prop :=
  (∀ m, l.match_of id = some m → Reach Match.exec anyStep (l.new_match id m.room_name) m tr) ∧
    (l.match_of id = none → tr = [])

theorem PlayedAt.silent {id : RoomId} {tr : List MatchEvent} (h : PlayedAt l id tr)
    (hnew : l'.new_match = l.new_match) (hmatch : l'.match_of id = l.match_of id) :
    PlayedAt l' id (tr ++ []) := by
  unfold PlayedAt
  rw [hnew, hmatch, List.append_nil]
  exact h

/-- A match that starts has done nothing. -/
theorem PlayedAt.grow (hh : Homes l) (hb : l.Born) {past : RoomId → List MatchEvent}
    (h : ∀ id, PlayedAt l id (past id)) (hnew : l'.new_match = l.new_match) (name : String)
    (hmatch : l'.match_of
      = Function.update l.match_of l.next_room_id (some (l.new_match l.next_room_id name)))
    (id : RoomId) : PlayedAt l' id (past id ++ []) := by
  by_cases hid : id = l.next_room_id
  · have hnone := (h id).2 (hid ▸ hh.fresh _ (Nat.le_refl _))
    unfold PlayedAt
    rw [hnone, hnew, hmatch, hid, Function.update_self]
    refine ⟨fun m hm => ?_, fun hm => absurd hm nofun⟩
    rw [← Option.some.inj hm, (hb _ _).1]
    exact .init
  · refine (h id).silent hnew ?_
    rw [hmatch, Function.update_of_ne hid]

/-- A match that steps has done what it did, and the others nothing. -/
theorem PlayedAt.step {past : RoomId → List MatchEvent} (h : ∀ id, PlayedAt l id (past id))
    (hnew : l'.new_match = l.new_match) {j : RoomId} {m : Match} {call : Match.Call}
    {r : Match × List MatchEvent} (here : l.match_of j = some m) (hexec : Match.exec m call = .ok r)
    (hmatch : l'.match_of = Function.update l.match_of j (some r.1)) (id : RoomId) :
    PlayedAt l' id (past id ++ only j r.2 id) := by
  unfold only
  split_ifs with hid
  · rw [← hid]
    unfold PlayedAt
    rw [hnew, hmatch, Function.update_self]
    refine ⟨fun m' hm' => ?_, fun hm => absurd hm nofun⟩
    rw [← Option.some.inj hm', (Match.exec_settings hexec).2]
    exact ((h j).1 m here).step trivial hexec
  · refine (h id).silent hnew ?_
    rw [hmatch, Function.update_of_ne fun h => hid h.symm]

theorem played_change {os past : RoomId → List MatchEvent} (hh : Homes l) (hb : l.Born)
    (h : ∀ id, PlayedAt l id (past id)) (he : Effect owns found l l' os) (id : RoomId) :
    PlayedAt l' id (past id ++ os id) := by
  cases he with
  | opened rating closest =>
      refine PlayedAt.grow hh hb h ?_ "" ?_ id
      · rfl
      · rfl
  | created key drawn free =>
      refine PlayedAt.grow hh hb h ?_ key ?_ id
      · rfl
      · rfl
  | joined j m username rating connection color here about taken =>
      have hexec : Match.exec m (.join username rating connection)
          = .ok (m.join username rating connection).1 := rfl
      refine PlayedAt.step h ?_ here hexec ?_ id
      · rfl
      · rfl
  | stepped j m call r here step other owner =>
      refine PlayedAt.step h ?_ here step ?_ id
      · rfl
      · rfl
  | kept | paired | counted | reserved | given_back | left | reaped | lost =>
      exact (h id).silent rfl rfl

/-- **The match of a room runs as a match by itself does**: what the room's trace says
of it is a run of its own. -/
theorem played_of_reach {s₀ s : RoomManager} {tr : List RoomEvent}
    (h₀ : Accounted s₀) (hempty : ∀ id, s₀.match_of id = none) (hrun : Reach exec anyStep s₀ s tr)
    (id : RoomId) : PlayedAt s.ledger id (events_of id tr) := by
  have hkept : Accounted s ∧ ∀ id, PlayedAt s.ledger id (events_of id tr) := by
    refine hrun.invariant
      (P := fun s tr => Accounted s ∧ ∀ id, PlayedAt s.ledger id (events_of id tr))
      ⟨h₀, fun id => ⟨fun m hm => ?_, fun _ => rfl⟩⟩ ?_
    · cases (hempty id).symm.trans hm
    · intro s tr op s' os _ h _ hexec
      refine ⟨h.1.exec hexec, fun id => ?_⟩
      rw [events_of_append]
      exact played_change h.1.homes (born s) h.2 (h.1.effect hexec) id
  exact hkept.2 id

/-- The settings that matches are made with stay. -/
theorem new_match_of_reach {s₀ s : RoomManager} {tr : List RoomEvent} (h₀ : Accounted s₀)
    (hrun : Reach exec anyStep s₀ s tr) : s.ledger.new_match = s₀.ledger.new_match := by
  have hkept : Accounted s ∧ s.ledger.new_match = s₀.ledger.new_match := by
    refine hrun.invariant (P := fun s _ => Accounted s ∧ s.ledger.new_match = s₀.ledger.new_match)
      ⟨h₀, rfl⟩ ?_
    intro s tr op s' os _ h _ hexec
    exact ⟨h.1.exec hexec, (h.1.effect hexec).new_match.trans h.2⟩
  exact hkept.2

/-! ## Rooms reaped -/

/-- The rooms that a step reaps. -/
def reaps (s : RoomManager) (op : Op) : List RoomId :=
  match exec s op with
  | .ok (_, os) => os.filterMap fun
      | .reaped id => some id
      | _ => none
  | .error _ => []

/-- No game that has started is thrown away by this step without its result. -/
def ReportsWhatItReaps (s : RoomManager) (tr : List RoomEvent) (op : Op) : Prop :=
  ∀ id ∈ s.reaps op, ∀ m ∈ s.match_of id, m.audience.both_seats_taken = true →
    (Match.results (events_of id tr)).length = 1

/-- Every game that has started, in a room the step reaps, is over. -/
def ReapsWhatIsOver (s : RoomManager) (op : Op) : Prop :=
  ∀ id ∈ s.reaps op, ∀ m ∈ s.match_of id, m.audience.both_seats_taken = true → m.is_over = true

instance (s : RoomManager) (tr : List RoomEvent) (op : Op) :
    Decidable (ReportsWhatItReaps s tr op) :=
  inferInstanceAs (Decidable (∀ id ∈ s.reaps op, ∀ m ∈ s.match_of id,
    m.audience.both_seats_taken = true → (Match.results (events_of id tr)).length = 1))

instance (s : RoomManager) (op : Op) : Decidable (ReapsWhatIsOver s op) :=
  inferInstanceAs (Decidable (∀ id ∈ s.reaps op, ∀ m ∈ s.match_of id,
    m.audience.both_seats_taken = true → m.is_over = true))

/-- **When a started game leaves a result.** In every state reached, what a step reaps
has reported its result, exactly once, if and only if the games it reaps are over. -/
theorem reports_iff_over {board_factory : RoomId → Board} {config : MotionFactory}
    {disconnect_grace_ms : Int} {directory : Option (String → Option String)}
    {self_url : String} {s : RoomManager} {tr : List RoomEvent}
    (hrun : Reach exec anyStep
      (new board_factory config true disconnect_grace_ms directory self_url) s tr) (op : Op) :
    ReportsWhatItReaps s tr op ↔ ReapsWhatIsOver s op := by
  have hnew := accounted_new board_factory config true disconnect_grace_ms directory self_url
  have hresult : ∀ id, ∀ m ∈ s.match_of id,
      ((Match.results (events_of id tr)).length = 1 ↔ m.is_over = true) := by
    intro id m hm
    have hplayed := (played_of_reach hnew (fun _ => rfl) hrun id).1 m hm
    rw [new_match_of_reach hnew hrun] at hplayed
    exact Match.result_iff_over hplayed
  unfold ReportsWhatItReaps ReapsWhatIsOver
  refine forall₄_congr fun id _ m hm => ?_
  rw [hresult id m hm]

/-- White's grace runs out, and then Black leaves. -/
theorem result_before_reaping : ∃ s tr,
    run exec (new (fun _ => three_on_a_row) shipped_factory true 20000 none "")
      [.join_any "a" 1200 ⟨1⟩, .proceed 0, .join_any "b" 1210 ⟨2⟩, .proceed 0,
        .on_disconnect ⟨1, .White, false, 0⟩, .proceed 0, .proceed 0, .tick 1 0 0, .tick 1 20000 0,
        .on_disconnect ⟨1, .Black, false, 0⟩, .proceed 0] = .ok (s, tr) ∧
    s.reaps (.proceed 0) = [1] ∧ ReportsWhatItReaps s tr (.proceed 0) := by
  obtain ⟨⟨s, tr⟩, hrun, hp⟩ := exists_ok_such (p := fun r => r.1.reaps (.proceed 0) = [1] ∧
      ReapsWhatIsOver r.1 (.proceed 0)) (x :=
    run exec (new (fun _ => three_on_a_row) shipped_factory true 20000 none "")
      [.join_any "a" 1200 ⟨1⟩, .proceed 0, .join_any "b" 1210 ⟨2⟩, .proceed 0,
        .on_disconnect ⟨1, .White, false, 0⟩, .proceed 0, .proceed 0, .tick 1 0 0, .tick 1 20000 0,
        .on_disconnect ⟨1, .Black, false, 0⟩, .proceed 0]) (by decide)
  obtain ⟨hreaps, hover⟩ := of_decide_eq_true hp
  exact ⟨s, tr, hrun, hreaps, (reports_iff_over (reach_of_run hrun) _).mpr hover⟩

/-- **A game thrown away.** Both players leave, and no tick comes in between. -/
theorem game_thrown_away : ¬ ∀ (board_factory : RoomId → Board) (config : MotionFactory)
    (disconnect_grace_ms : Int) (directory : Option (String → Option String))
    (self_url : String) (s : RoomManager) (tr : List RoomEvent) (op : Op),
    Reach exec anyStep (new board_factory config true disconnect_grace_ms directory self_url)
      s tr → ReportsWhatItReaps s tr op := by
  intro h
  obtain ⟨⟨s, tr⟩, hrun, hp⟩ := exists_ok_such (p := fun r =>
      ¬ ReportsWhatItReaps r.1 r.2 (.proceed 0)) (x :=
    run exec (new (fun _ => three_on_a_row) shipped_factory true 20000 none "")
      [.join_any "a" 1200 ⟨1⟩, .proceed 0, .join_any "b" 1210 ⟨2⟩, .proceed 0,
        .on_disconnect ⟨1, .White, false, 0⟩, .proceed 0, .proceed 0,
        .on_disconnect ⟨1, .Black, false, 0⟩, .proceed 0]) (by decide)
  exact of_decide_eq_true hp (h _ _ _ _ _ s tr _ (reach_of_run hrun))

end RoomManager

end KungFuChess
