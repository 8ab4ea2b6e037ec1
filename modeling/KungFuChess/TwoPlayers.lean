/-
**No result without two players.**

Resigning and forfeiting are kept from an empty game by the `Waiting` state, but
`Frozen` comes before it: a lone player who drops freezes the match, and a
resignation queued before the drop is taken, or the grace runs out. Both end a
match in which a seat is still free (`result_without_two_players`). A tick does so
exactly when it is `Orphaned`, which is read off the state before it; in every run
without such a tick a verdict comes after both seats were taken, and is reported
under the two names they were taken by.
-/
import KungFuChess.Seating
import KungFuChess.Verdict

set_option autoImplicit false

namespace KungFuChess

open Machine Numbers

namespace DisconnectWatch

/-- The next `advance` finds a grace that has run out. -/
def due (w : DisconnectWatch) (now : Int) : Prop :=
  (w.watching.isSome ∧ to_int (w.deadline - now) ≤ 0) ∨
    (w.watching.isNone ∧ w.pending.isSome ∧ to_int w.grace_ms ≤ 0)

instance (w : DisconnectWatch) (now : Int) : Decidable (w.due now) :=
  inferInstanceAs (Decidable (_ ∨ _))

theorem expired_iff_due (w : DisconnectWatch) (now : Int) :
    (w.advance now).2.expired_for.isSome ↔ w.due now := by
  have hcount : ∀ (w : DisconnectWatch) (c : PieceColor),
      (w.count now c).2.expired_for.isSome ↔ to_int (w.deadline - now) ≤ 0 := by
    intro w c
    unfold count
    dsimp only
    split_ifs with hdue
    · simp only [Option.isSome_some, true_iff]
      exact hdue
    · simp only [Option.isSome_none, Bool.false_eq_true, false_iff]
      exact hdue
    · simp only [Option.isSome_none, Bool.false_eq_true, false_iff]
      exact hdue
  unfold due advance open_countdown
  cases hw : w.watching with
  | some c => simp [hcount]
  | none =>
      cases hp : w.pending with
      | none => simp
      | some c =>
          -- the countdown opens now, so it is due when there is no grace at all
          simp [hcount]

end DisconnectWatch

namespace Match

/-! ## Who took the seats -/

/-- The name under which a call took the seat of a colour. -/
def Call.seats_as (color : PieceColor) (os : List MatchEvent) : Call → Option String
  | .join username _ _ => if .seated color ∈ os then some username else none
  | _ => none

/-- The name under which the seat of a colour was taken, by the log of a run. -/
def seated_as (log : List (Call × List MatchEvent)) (color : PieceColor) : Option String :=
  log.findSome? fun entry => entry.1.seats_as color entry.2

theorem seated_as_append (log : List (Call × List MatchEvent)) (call : Call)
    (os : List MatchEvent) (color : PieceColor) :
    seated_as (log ++ [(call, os)]) color
      = (seated_as log color).or (call.seats_as color os) := by
  unfold seated_as
  simp [List.findSome?_append]

/-- The seats of a match are those that the log has seen taken. -/
structure Signed (m : Match) (log : List (Call × List MatchEvent)) : Prop where
  named : ∀ c username, seated_as log c = some username →
    (m.audience.player c).isSome ∧ m.audience.username_of c = username
  filled : m.audience.seats_filled
    = (seated_as log .White).toList.length + (seated_as log .Black).toList.length

theorem Signed.full {m : Match} {log : List (Call × List MatchEvent)} (h : Signed m log)
    (hfull : m.audience.both_seats_taken = true) :
    ∀ c, seated_as log c = some (m.audience.username_of c) := by
  have htwo : m.audience.seats_filled = 2 := of_decide_eq_true hfull
  have hfilled := h.filled
  rw [htwo, MatchAudience.length_toList, MatchAudience.length_toList] at hfilled
  have hsome : ∀ c, (seated_as log c).isSome := by
    intro c
    cases c <;> split_ifs at hfilled <;> first | assumption | omega
  intro c
  obtain ⟨username, hname⟩ := Option.isSome_iff_exists.mp (hsome c)
  rw [hname, (h.named c username hname).2]

theorem signed_exec {m m' : Match} {log : List (Call × List MatchEvent)} {call : Call}
    {os : List MatchEvent} (h : Signed m log) (hexec : exec m call = .ok (m', os)) :
    Signed m' (log ++ [(call, os)]) := by
  by_cases hjoin : ∃ username rating connection, call = .join username rating connection
  · obtain ⟨username, rating, connection, rfl⟩ := hjoin
    obtain ⟨rfl, rfl⟩ := Prod.mk.inj (Except.ok.inj hexec)
    obtain hrefused | ⟨color, rest, _, htaken, hquiet, hos⟩ :=
      m.join_spec username rating connection
    · have hsame : ∀ c, seated_as (log ++ [(Call.join username rating connection,
          (m.join username rating connection).1.2)]) c = seated_as log c := by
        intro c
        rw [seated_as_append, hrefused]
        simp [Call.seats_as]
      rw [hrefused] at hsame ⊢
      exact ⟨fun c name hname => h.named c name (by rwa [hsame] at hname),
        by rw [hsame, hsame]; exact h.filled⟩
    · have hseats : ∀ c, Call.seats_as c (m.join username rating connection).1.2
          (.join username rating connection) = if c = color then some username else none := by
        intro c
        have hseated : .seated c ∈ (m.join username rating connection).1.2 ↔ c = color := by
          rw [hos, List.mem_cons, MatchEvent.seated.injEq, or_iff_left]
          intro hmem
          cases hquiet _ hmem
        exact if_congr hseated rfl rfl
      -- a seat that is free has never been taken
      have hnever : seated_as log color = none := by
        cases hold : seated_as log color with
        | none => rfl
        | some name =>
            have hplays := (h.named color name hold).1
            rw [htaken.free] at hplays
            cases hplays
      refine ⟨fun c name hname => ?_, ?_⟩
      · rw [seated_as_append, hseats] at hname
        rw [htaken.player, htaken.username_of]
        by_cases hc : c = color
        · subst hc
          rw [hnever, if_pos rfl, Option.none_or] at hname
          rw [if_pos rfl, if_pos rfl]
          exact ⟨rfl, Option.some.inj hname⟩
        · rw [if_neg hc, Option.or_none] at hname
          rw [if_neg hc, if_neg hc]
          exact h.named c name hname
      · rw [htaken.seats_filled, h.filled, seated_as_append, seated_as_append, hseats, hseats]
        cases color with
        | White =>
            rw [hnever]
            simp
            omega
        | Black =>
            rw [hnever]
            simp
  · have hother : ∀ username rating connection, call ≠ .join username rating connection :=
      fun u r c hc => hjoin ⟨u, r, c, hc⟩
    have hkept := exec_seats_same hother hexec
    have hnone : ∀ c, call.seats_as c os = none := by
      intro c
      unfold Call.seats_as
      split
      · exact absurd rfl (hother _ _ _)
      · rfl
    have hsame : ∀ c, seated_as (log ++ [(call, os)]) c = seated_as log c := by
      intro c
      rw [seated_as_append, hnone, Option.or_none]
    refine ⟨fun c name hname => ?_, ?_⟩
    · rw [hsame] at hname
      rw [hkept.username_of]
      exact ⟨hkept.player c (h.named c name hname).1, (h.named c name hname).2⟩
    · rw [hkept.filled, hsame, hsame]
      exact h.filled

/-! ## What a tick decides -/

/-- The condition that goes wrong: a seat is still free, and the tick finds a
resignation in a frozen match, or a grace that has run out. -/
def Orphaned (m : Match) : Call → Prop
  | .tick now _ => m.audience.both_seats_taken = false ∧ m.game_over = false ∧
      ((m.state = .Frozen ∧ m.resign_queued = true) ∨ m.disconnect_watch.due now)
  | _ => False

instance (m : Match) : ∀ call, Decidable (Orphaned m call)
  | .tick now _ => inferInstanceAs (Decidable (m.audience.both_seats_taken = false ∧
      m.game_over = false ∧
      ((m.state = .Frozen ∧ m.resign_queued = true) ∨ m.disconnect_watch.due now)))
  | .join _ _ _ | .join_spectator _ | .leave_spectator _ | .enqueue _ _ | .on_disconnect _
  | .reconnect _ _ => .isFalse not_false

/-- A tick leaves no verdict to be announced. -/
theorem tick_pending {m m' : Match} {now : Int} {elapsed_ms : Nat} {os : List MatchEvent}
    (h : m.tick now elapsed_ms = .ok (m', os)) : m'.pending_game_over = none := by
  obtain ⟨m₁, answers, events, hadv, rfl, _⟩ := tick_ok h
  have hresigned : ∀ n : Match, n.announce_resignation.1.pending_game_over = none := by
    intro n
    unfold announce_resignation
    cases hp : n.pending_game_over with
    | none => exact hp
    | some winner => rfl
  have hcountdown : ∀ n : Match, (n.advance_disconnect_countdown now).1.pending_game_over
      = n.pending_game_over := by
    intro n
    unfold advance_disconnect_countdown
    split_ifs
    · rfl
    · dsimp only
      split
      · dsimp only
        rw [report_result_rest]
      · split <;> rfl
  have hrelease : ∀ n : Match, (n.release_if_due now).1.pending_game_over
      = n.pending_game_over := by
    intro n
    unfold release_if_due
    dsimp only
    split_ifs <;> rfl
  unfold announce
  dsimp only
  rw [hrelease, hcountdown, hresigned]

theorem exec_pending {m m' : Match} {call : Call} {os : List MatchEvent}
    (h : exec m call = .ok (m', os)) (hnone : m.pending_game_over = none) :
    m'.pending_game_over = none := by
  obtain ⟨now, elapsed_ms, rfl⟩ | hcall := tick_or_not call
  · exact tick_pending h
  · rw [call_frame hcall h]
    exact hnone

/-- Announcements with nothing to announce. -/
theorem silent_announce {m : Match} {now : Int} {at_revision : Nat}
    (hpending : m.pending_game_over = none)
    (hdue : m.game_over = false → ¬ m.disconnect_watch.due now) :
    Silent (m.announce now [] at_revision).2 := by
  have harrivals : m.announce_arrivals [] at_revision = (m, []) := rfl
  have hresignation : m.announce_resignation = (m, []) := by
    unfold announce_resignation
    rw [hpending]
  have hcountdown : Silent (m.advance_disconnect_countdown now).2 := by
    unfold advance_disconnect_countdown
    split_ifs with hover
    · exact silent_nil
    · have hnone : (m.disconnect_watch.advance now).2.expired_for = none := by
        rw [← Option.not_isSome_iff_eq_none, DisconnectWatch.expired_iff_due]
        exact hdue (Bool.eq_false_iff.mpr hover)
      dsimp only
      rw [hnone]
      dsimp only
      split
      · exact ⟨rfl, rfl⟩
      · exact silent_nil
  have hrelease : ∀ n : Match, Silent (n.release_if_due now).2 := by
    intro n
    unfold release_if_due
    dsimp only
    split_ifs <;> first | exact silent_closes _ | exact silent_nil
  unfold announce
  rw [harrivals]
  dsimp only
  rw [hresignation]
  exact ((silent_nil.append silent_nil).append hcountdown).append (hrelease _)

/-- A resignation is taken exactly where one is queued and the state takes it. -/
theorem first_resign_isSome (m : Match) :
    (m.first_resign m.queue).isSome ↔
      m.resign_queued = true ∧ (m.state = .Running ∨ m.state = .Frozen) := by
  unfold first_resign resign_queued resigns
  rw [Option.isSome_map, List.find?_isSome, List.any_eq_true]
  constructor
  · rintro ⟨command, hmem, htaken⟩
    by_cases hc : command.2 = .Resign ∧ (m.state = .Running ∨ m.state = .Frozen)
    · exact ⟨⟨command, hmem, by simpa using hc.1⟩, hc.2⟩
    · rw [if_neg hc] at htaken
      cases htaken
  · rintro ⟨⟨command, hmem, hresign⟩, hstate⟩
    refine ⟨command, hmem, ?_⟩
    rw [if_pos ⟨by simpa using hresign, hstate⟩]
    rfl

theorem not_running_of_free {m : Match} (hfree : m.audience.both_seats_taken = false) :
    m.state ≠ .Running := by
  unfold state
  rw [hfree]
  split_ifs <;> simp_all

/-- **A tick with a seat free** decides nothing, unless it is orphaned. -/
theorem silent_tick {m m' : Match} {now : Int} {elapsed_ms : Nat} {os : List MatchEvent}
    (hpending : m.pending_game_over = none) (hfree : m.audience.both_seats_taken = false)
    (hnot : ¬ Orphaned m (.tick now elapsed_ms)) (h : m.tick now elapsed_ms = .ok (m', os)) :
    Silent os := by
  obtain ⟨m₁, answers, events, hadv, _, rfl⟩ := tick_ok h
  have hspec := advance_board_spec hadv
  have hstate := not_running_of_free hfree
  have hnil : events = [] := by
    by_contra hne
    exact hstate (hspec.running hne)
  have hunresigned : m.first_resign m.queue = none := by
    rw [← Option.not_isSome_iff_eq_none, first_resign_isSome]
    rintro ⟨hqueued, hrunning | hfrozen⟩
    · exact hstate hrunning
    · have hopen : m.game_over = false := by
        rw [Bool.eq_false_iff]
        intro hover
        unfold state at hfrozen
        rw [if_pos hover] at hfrozen
        cases hfrozen
      exact hnot ⟨hfree, hopen, .inl ⟨hfrozen, hqueued⟩⟩
  refine (silent_of_answers hspec.answers).append ?_
  subst hnil
  refine silent_announce ?_ ?_
  · rw [hspec.rest, hunresigned]
    exact hpending
  · intro hopen hdue
    rw [hspec.rest] at hopen hdue
    exact hnot ⟨hfree, (Bool.or_eq_false_iff.mp hopen).1, .inr hdue⟩

theorem verdicts_resignation {m : Match} (h : m.pending_game_over.isSome) :
    verdicts m.announce_resignation.2 ≠ [] := by
  obtain ⟨winner, hw⟩ := Option.isSome_iff_exists.mp h
  unfold announce_resignation
  rw [hw]
  simp

theorem verdicts_expiry {m : Match} {now : Int} (hopen : m.game_over = false)
    (hdue : m.disconnect_watch.due now) :
    verdicts (m.advance_disconnect_countdown now).2 ≠ [] := by
  obtain ⟨loser, hl⟩ := Option.isSome_iff_exists.mp
    ((DisconnectWatch.expired_iff_due m.disconnect_watch now).mpr hdue)
  unfold advance_disconnect_countdown
  rw [if_neg (by rw [hopen]; exact Bool.false_ne_true)]
  dsimp only
  rw [hl]
  simp

/-- **An orphaned tick does decide the match**: the condition leaves out no other. -/
theorem orphaned_tick_decides {m m' : Match} {now : Int} {elapsed_ms : Nat}
    {os : List MatchEvent} (horphaned : Orphaned m (.tick now elapsed_ms))
    (h : m.tick now elapsed_ms = .ok (m', os)) : verdicts os ≠ [] := by
  obtain ⟨hfree, hopen, hcause⟩ := horphaned
  obtain ⟨m₁, answers, events, hadv, _, rfl⟩ := tick_ok h
  have hspec := advance_board_spec hadv
  have hnil : events = [] := by
    by_contra hne
    exact not_running_of_free hfree (hspec.running hne)
  subst hnil
  have harrivals : m₁.announce_arrivals [] m₁.revision = (m₁, []) := rfl
  have hparts : verdicts (answers ++ (m₁.announce now [] m₁.revision).2) = [] →
      verdicts m₁.announce_resignation.2 = [] ∧
      verdicts (m₁.announce_resignation.1.advance_disconnect_countdown now).2 = [] := by
    unfold announce
    rw [harrivals]
    intro hall
    simp only [verdicts_append, List.append_eq_nil_iff] at hall
    exact ⟨hall.2.1.1.2, hall.2.1.2⟩
  intro hall
  obtain ⟨hresignation, hcountdown⟩ := hparts hall
  cases hresigned : m.first_resign m.queue with
  | some color =>
      refine verdicts_resignation ?_ hresignation
      rw [hspec.rest, hresigned]
      rfl
  | none =>
      rcases hcause with ⟨hfrozen, hqueued⟩ | hdue
      -- a resignation that is queued and can be taken is taken
      · have htaken := (first_resign_isSome m).mpr ⟨hqueued, .inr hfrozen⟩
        rw [hresigned] at htaken
        cases htaken
      · have hwatch : m₁.announce_resignation.1.disconnect_watch = m.disconnect_watch := by
          rw [announce_resignation_watch, hspec.rest]
        have hstill : m₁.announce_resignation.1.game_over = false := by
          have hover : m₁.game_over = false := by
            rw [hspec.rest, hresigned, hopen]
            rfl
          unfold announce_resignation
          cases m₁.pending_game_over with
          | none => exact hover
          | some winner =>
              dsimp only
              rw [report_result_rest]
              exact hover
        exact verdicts_expiry hstill (by rwa [hwatch]) hcountdown

/-! ## Under which names -/

/-- Every report of an output names the two players of this audience. -/
def Names (a : MatchAudience) (os : List MatchEvent) : Prop :=
  ∀ reason winner white black, .result reason winner white black ∈ os →
    white = a.username_of .White ∧ black = a.username_of .Black

theorem Names.append {a : MatchAudience} {os₁ os₂ : List MatchEvent} (h₁ : Names a os₁)
    (h₂ : Names a os₂) : Names a (os₁ ++ os₂) := by
  intro reason winner white black hmem
  rcases List.mem_append.mp hmem with hmem | hmem
  · exact h₁ _ _ _ _ hmem
  · exact h₂ _ _ _ _ hmem

theorem names_of_silent {a : MatchAudience} {os : List MatchEvent} (h : Silent os) :
    Names a os := by
  intro reason winner white black hmem
  have hin := mem_results hmem
  rw [h.results] at hin
  cases hin

theorem names_cons_broadcast {a : MatchAudience} {os : List MatchEvent} (h : Names a os)
    (m : Match) (message : ServerMessage) : Names a (m.broadcast message :: os) := by
  intro reason winner white black hmem
  rcases List.mem_cons.mp hmem with heq | hmem
  · cases heq
  · exact h _ _ _ _ hmem

theorem names_report (m : Match) (reason : GameEndReason) (winner : Option PieceColor) :
    Names m.audience (m.report_result reason winner).2 := by
  unfold report_result
  split_ifs
  · exact names_of_silent silent_nil
  · intro reason' winner' white black hmem
    obtain ⟨_, _, rfl, rfl⟩ := MatchEvent.result.inj (List.mem_singleton.mp hmem)
    exact ⟨rfl, rfl⟩

theorem names_announce (m : Match) (now : Int) (events : List ArrivalEvent)
    (at_revision : Nat) : Names m.audience (m.announce now events at_revision).2 := by
  have harrivals : Names m.audience (m.announce_arrivals events at_revision).2 := by
    unfold announce_arrivals
    split_ifs
    · exact names_of_silent silent_nil
    · dsimp only
      split
      · exact names_of_silent ⟨rfl, rfl⟩
      · exact names_cons_broadcast (names_cons_broadcast (names_report _ _ _) _ _) m _
  have hresignation : ∀ n : Match, Names n.audience n.announce_resignation.2 := by
    intro n
    unfold announce_resignation
    split
    · exact names_of_silent silent_nil
    · exact names_cons_broadcast (names_report _ _ _) n _
  have hcountdown : ∀ n : Match, Names n.audience (n.advance_disconnect_countdown now).2 := by
    intro n
    unfold advance_disconnect_countdown
    split_ifs
    · exact names_of_silent silent_nil
    · dsimp only
      split
      · exact names_cons_broadcast (names_report _ _ _) _ _
      · split <;> exact names_of_silent ⟨rfl, rfl⟩
  have hrelease : ∀ n : Match, Names n.audience (n.release_if_due now).2 := by
    intro n
    unfold release_if_due
    dsimp only
    split_ifs <;> first | exact names_of_silent (silent_closes _) | exact names_of_silent silent_nil
  -- no announcement changes the audience
  have h₁ := announce_arrivals_announced m events at_revision
  have h₂ := h₁.trans (announce_resignation_announced _)
  have h₃ := h₂.trans (advance_disconnect_countdown_announced _ now)
  have hsame : ∀ {n : Match} {os : List MatchEvent}, Announced m n → Names n.audience os →
      Names m.audience os := by
    intro n os hn hnames
    have haud : n.audience = m.audience := by rw [hn.rest]
    rwa [haud] at hnames
  exact ((harrivals.append (hsame h₁ (hresignation _))).append (hsame h₂ (hcountdown _))).append
    (hsame h₃ (hrelease _))

theorem names_tick {m m' : Match} {now : Int} {elapsed_ms : Nat} {os : List MatchEvent}
    (h : m.tick now elapsed_ms = .ok (m', os)) : Names m.audience os := by
  obtain ⟨m₁, answers, events, hadv, _, rfl⟩ := tick_ok h
  have hspec := advance_board_spec hadv
  have haud : m₁.audience = m.audience := by rw [hspec.rest]
  refine (names_of_silent (silent_of_answers hspec.answers)).append ?_
  rw [← haud]
  exact names_announce _ _ _ _

/-! ## Runs -/

theorem signed_of_reach {board : Board} {config : MotionFactory} {on_result : Bool}
    {disconnect_grace_ms release_delay_ms : Int} {room_name : String} {m : Match}
    {log : List (Call × List MatchEvent)} {C : Match → List (Call × List MatchEvent) → Call → Prop}
    (hrun : Reach (logged exec) C (Match.new board config on_result disconnect_grace_ms
      release_delay_ms room_name) m log) :
    Signed m log ∧ m.pending_game_over = none := by
  refine Reach.invariant (P := fun m log => Signed m log ∧ m.pending_game_over = none) ?_ ?_ hrun
  · refine ⟨⟨fun c username hname => ?_, rfl⟩, rfl⟩
    cases hname
  · intro m log call m' entries _ hkept _ hstep
    obtain ⟨os, hexec, rfl⟩ := logged_ok_iff.mp hstep
    exact ⟨signed_exec hkept.1 hexec, exec_pending hexec hkept.2⟩

/-- What a call says of a verdict, coming after `before`, is about two players. -/
structure Founded (before : List (Call × List MatchEvent)) (os : List MatchEvent) : Prop where
  seats : verdicts os ≠ [] → ∀ c, (seated_as before c).isSome
  names : ∀ reason winner white black, .result reason winner white black ∈ os →
    seated_as before .White = some white ∧ seated_as before .Black = some black

theorem founded_of_silent {before : List (Call × List MatchEvent)} {os : List MatchEvent}
    (h : Silent os) : Founded before os where
  seats hv := absurd h.verdicts hv
  names reason winner white black hmem := by
    have hin := mem_results hmem
    rw [h.results] at hin
    cases hin

/-- **No result without two players.** In every run none of whose ticks is orphaned, a
call that broadcasts a `GameOver` comes after both seats were taken, and one that
reports a result reports it under the two names they were taken by. -/
theorem no_result_without_two_players {board : Board} {config : MotionFactory}
    {on_result : Bool} {disconnect_grace_ms release_delay_ms : Int} {room_name : String}
    {m : Match} {log before after : List (Call × List MatchEvent)} {call : Call}
    {os : List MatchEvent}
    (hrun : Reach (logged exec) (fun m _ call => ¬ Orphaned m call) (Match.new board config
      on_result disconnect_grace_ms release_delay_ms room_name) m log)
    (hentry : log = before ++ (call, os) :: after) : Founded before os := by
  refine Reach.entries (Q := fun before _ os => Founded before os) ?_ hrun hentry
  intro m log call m' os hreach hnot hexec
  obtain ⟨hsigned, hpending⟩ := signed_of_reach hreach
  obtain ⟨now, elapsed_ms, rfl⟩ | hcall := tick_or_not call
  · cases hfull : m.audience.both_seats_taken with
    | false => exact founded_of_silent (silent_tick hpending hfull hnot hexec)
    | true =>
        have hseated := hsigned.full hfull
        refine ⟨fun _ c => by rw [hseated]; rfl, fun reason winner white black hmem => ?_⟩
        obtain ⟨hwhite, hblack⟩ := names_tick hexec reason winner white black hmem
        rw [hseated, hseated, hwhite, hblack]
        exact ⟨rfl, rfl⟩
  · exact founded_of_silent (call_silent hcall hexec)

/-- Black drops and the grace runs out. -/
theorem a_forfeit_of_two_players : ∃ m before os,
    run (logged exec) (Match.new three_on_a_row shipped_factory true 20000 3000 "")
      [.join "white" 1200 ⟨1⟩, .join "black" 1200 ⟨2⟩, .on_disconnect .Black, .tick 0 0,
        .tick 20000 400] = .ok (m, before ++ [(.tick 20000 400, os)]) ∧ verdicts os ≠ [] ∧
    Founded before os := by
  obtain ⟨⟨m, log⟩, hrun, hp⟩ := exists_ok_such (p := fun r => ∃ h : r.2 ≠ [],
      (r.2.getLast h).1 = .tick 20000 400 ∧ verdicts (r.2.getLast h).2 ≠ []) (x :=
    run (logged exec) (Match.new three_on_a_row shipped_factory true 20000 3000 "")
      [.join "white" 1200 ⟨1⟩, .join "black" 1200 ⟨2⟩, .on_disconnect .Black, .tick 0 0,
        .tick 20000 400]) (by decide)
  obtain ⟨hne, hlast, hverdict⟩ := of_decide_eq_true hp
  have hentry : log = log.dropLast ++ [(.tick 20000 400, (log.getLast hne).2)] := by
    rw [← hlast, List.dropLast_concat_getLast]
  refine ⟨m, log.dropLast, (log.getLast hne).2, ?_, hverdict, ?_⟩
  · rw [← hentry]
    exact hrun
  · exact no_result_without_two_players (reach_of_meets (by decide) hrun) hentry

/-- Drops and commands are those of players: the colour has been seated. -/
def FromPlayers (_ : Match) (log : List (Call × List MatchEvent)) : Call → Prop
  | .on_disconnect color => (seated_as log color).isSome
  | .enqueue source _ => (seated_as log source).isSome
  | _ => True

instance (m : Match) (log : List (Call × List MatchEvent)) :
    ∀ call, Decidable (FromPlayers m log call)
  | .on_disconnect color => inferInstanceAs (Decidable ((seated_as log color).isSome = true))
  | .enqueue source _ => inferInstanceAs (Decidable ((seated_as log source).isSome = true))
  | .join _ _ _ | .join_spectator _ | .leave_spectator _ | .reconnect _ _ | .tick _ _ =>
      .isTrue trivial

/-- **A result without two players.** White, alone in the match, drops with a
resignation queued: the match is frozen, not waiting, and Black, who is not there,
wins it. -/
theorem result_without_two_players : ¬ ∀ (board : Board) (config : MotionFactory)
    (on_result : Bool) (disconnect_grace_ms release_delay_ms : Int) (room_name : String)
    (m : Match) (log before after : List (Call × List MatchEvent)) (call : Call)
    (os : List MatchEvent),
    Reach (logged exec) FromPlayers (Match.new board config on_result disconnect_grace_ms
      release_delay_ms room_name) m log →
    log = before ++ (call, os) :: after → Founded before os := by
  intro h
  obtain ⟨⟨m, log⟩, hrun, hp⟩ := exists_ok_such (p := fun r => ∃ h : r.2 ≠ [],
      verdicts (r.2.getLast h).2 ≠ [] ∧ seated_as r.2.dropLast .Black = none) (x :=
    run (logged exec) (Match.new three_on_a_row shipped_factory true 20000 3000 "")
      [.join "white" 1200 ⟨1⟩, .enqueue .White .Resign, .on_disconnect .White, .tick 0 0])
    (by decide)
  obtain ⟨hne, hverdict, hnobody⟩ := of_decide_eq_true hp
  have hfounded := h _ _ _ _ _ _ m log log.dropLast [] (log.getLast hne).1 (log.getLast hne).2
    (reach_of_meets (by decide) hrun) (List.dropLast_concat_getLast hne).symm
  have hblack := hfounded.seats hverdict .Black
  rw [hnobody] at hblack
  cases hblack

end Match

end KungFuChess
