/-
**Spectators change nothing.**

`MatchAudience` keeps watchers and players on one roster, a broadcast goes to all of
them in one loop, and the cap counts watchers; still a match is the same match whoever
watches it. `unseen` takes the watchers out of a state and `shown` takes what is sent to
spectators out of a trace; every call of the match commutes with the two, and the calls
of spectators are invisible through them. So a run and the same run without its
spectators differ in nothing a player, the engine or the ratings could tell.

Who is a spectator is decided by the connection: `V` holds those that watch, and a call
keeps to its side of `V` when a seat is taken by a connection outside it and a watcher
comes from inside.
-/
import KungFuChess.Conservation
import KungFuChess.MatchSteps

set_option autoImplicit false

namespace KungFuChess

open Machine

/-! ## The roster without its watchers -/

namespace MatchAudience

/-- An audience nobody has ever watched from. -/
def unwatched (a : MatchAudience) : MatchAudience :=
  { a with
    roster := { a.roster with watchers := [], watcher_count := 0 }
    next_watcher_id := 1 }

/-- The players' connections are outside `V`, the watchers' inside. -/
structure Divided (V : Connection → Bool) (a : MatchAudience) : Prop where
  white_send : ∀ c ∈ a.roster.white_send, V c = false
  black_send : ∀ c ∈ a.roster.black_send, V c = false
  white_close : ∀ c ∈ a.roster.white_close, V c = false
  black_close : ∀ c ∈ a.roster.black_close, V c = false
  watcher_send : ∀ w ∈ a.roster.watchers, V w.send = true
  watcher_close : ∀ w ∈ a.roster.watchers, V w.close = true

variable {V : Connection → Bool} {a : MatchAudience}

theorem filter_toList {c : Option Connection} (h : ∀ x ∈ c, V x = false) :
    c.toList.filter (fun x => ! V x) = c.toList := by
  refine List.filter_eq_self.mpr fun x hx => ?_
  rw [h x (Option.mem_toList.mp hx), Bool.not_false]

theorem filter_watchers {f : Watcher → Connection} (h : ∀ w ∈ a.roster.watchers, V (f w) = true) :
    (a.roster.watchers.map f).filter (fun x => ! V x) = [] := by
  refine List.filter_eq_nil_iff.mpr fun x hx => ?_
  obtain ⟨w, hw, rfl⟩ := List.mem_map.mp hx
  rw [h w hw]
  exact Bool.false_ne_true

/-- A broadcast reaches the players whoever else it reaches, -/
theorem Divided.everyone (h : a.Divided V) :
    a.unwatched.everyone = a.everyone.filter fun c => ! V c := by
  unfold MatchAudience.everyone
  rw [List.filter_append, List.filter_append, filter_toList h.white_send,
    filter_toList h.black_send, filter_watchers h.watcher_send]
  rfl

/-- and so does the release. -/
theorem Divided.all_closes (h : a.Divided V) :
    a.unwatched.all_closes = a.all_closes.filter fun c => ! V c := by
  unfold MatchAudience.all_closes
  rw [List.filter_append, List.filter_append, filter_toList h.white_close,
    filter_toList h.black_close, filter_watchers h.watcher_close]
  rfl

theorem Divided.player (h : a.Divided V) (color : PieceColor) :
    ∀ c ∈ a.player color, V c = false := by
  cases color with
  | White => exact h.white_send
  | Black => exact h.black_send

theorem divided_new : Divided V {} where
  white_send := nofun
  black_send := nofun
  white_close := nofun
  black_close := nofun
  watcher_send := nofun
  watcher_close := nofun

/-! ## What becomes of it -/

/-- Taking a seat does not depend on who watches. -/
theorem seat_unwatched (a : MatchAudience) (username : String) (rating : Int) (c : Connection) :
    a.unwatched.seat username rating c c
      = ((a.seat username rating c c).1.unwatched, (a.seat username rating c c).2) := by
  by_cases hw : a.roster.white_send.isNone = true
  · simp [seat, unwatched, hw]
  · by_cases hb : a.roster.black_send.isNone = true
    · simp [seat, unwatched, hw, hb]
    · simp [seat, unwatched, hw, hb]

theorem reseat_unwatched (a : MatchAudience) (color : PieceColor) (c : Connection) :
    a.unwatched.reseat color c c = (a.reseat color c c).unwatched := by
  cases color <;> rfl

theorem unwatched_watch (a : MatchAudience) (c : Connection) :
    (a.watch c c).1.unwatched = a.unwatched := by
  unfold watch
  split_ifs <;> rfl

theorem unwatched_unwatch (a : MatchAudience) (id : WatcherId) :
    (a.unwatch id).unwatched = a.unwatched := by
  unfold unwatch
  split_ifs <;> rfl

/-- Players take seats, and watchers do not. -/
theorem Divided.seat (h : a.Divided V) (username : String) (rating : Int) {c : Connection}
    (hc : V c = false) : (a.seat username rating c c).1.Divided V := by
  have hone : ∀ x ∈ some c, V x = false := by
    rintro x hx
    rwa [← Option.some.inj hx]
  unfold MatchAudience.seat
  split_ifs
  · exact { h with white_send := hone, white_close := hone }
  · exact { h with black_send := hone, black_close := hone }
  · exact h

theorem Divided.reseat (h : a.Divided V) (color : PieceColor) {c : Connection}
    (hc : V c = false) : (a.reseat color c c).Divided V := by
  have hone : ∀ x ∈ some c, V x = false := by
    rintro x hx
    rwa [← Option.some.inj hx]
  cases color with
  | White => exact { h with white_send := hone, white_close := hone }
  | Black => exact { h with black_send := hone, black_close := hone }

theorem Divided.watch (h : a.Divided V) {c : Connection} (hc : V c = true) :
    (a.watch c c).1.Divided V := by
  unfold MatchAudience.watch
  split_ifs
  · exact h
  · exact { h with
      watcher_send := List.forall_mem_cons.mpr ⟨hc, h.watcher_send⟩
      watcher_close := List.forall_mem_cons.mpr ⟨hc, h.watcher_close⟩ }

theorem Divided.unwatch (h : a.Divided V) (id : WatcherId) : (a.unwatch id).Divided V := by
  unfold MatchAudience.unwatch
  split_ifs
  · exact { h with
      watcher_send := fun w hw => h.watcher_send w (List.mem_of_mem_eraseP hw)
      watcher_close := fun w hw => h.watcher_close w (List.mem_of_mem_eraseP hw) }
  · exact h

end MatchAudience

/-! ## The match without its watchers -/

namespace Match

variable {V : Connection → Bool} {m : Match}

/-- The match without its watchers. -/
def unseen (m : Match) : Match := { m with audience := m.audience.unwatched }

/-- An event as it is without the spectators. -/
def shown (V : Connection → Bool) : MatchEvent → Option MatchEvent
  | .sent receiver message => if V receiver then none else some (.sent receiver message)
  | .broadcast receivers message => some (.broadcast (receivers.filter fun c => ! V c) message)
  | .closed connection => if V connection then none else some (.closed connection)
  | event => some event

/-- A state and what was put out, as they are without the spectators. -/
def without (V : Connection → Bool) (r : Match × List MatchEvent) : Match × List MatchEvent :=
  (r.1.unseen, r.2.filterMap (shown V))

/-- The second is the first without its spectators, who keep to their side of `V`. -/
def Unseen (V : Connection → Bool) (m t : Match) : Prop :=
  m.audience.Divided V ∧ t = m.unseen

@[simp] theorem state_unseen (m : Match) : m.unseen.state = m.state := rfl

@[simp] theorem welcome_for_unseen (m : Match) (color : PieceColor) (spectator : Bool) :
    m.unseen.welcome_for color spectator = m.welcome_for color spectator := by
  cases color <;> rfl

/-- A broadcast, for those who do not watch. -/
theorem shown_broadcast (h : m.audience.Divided V) (message : ServerMessage) :
    shown V (m.broadcast message) = some (m.unseen.broadcast message) := by
  unfold broadcast shown unseen
  rw [h.everyone]

/-- What a broadcast is followed by is shown after it. -/
theorem shown_cons (h : m.audience.Divided V) (message : ServerMessage) (os : List MatchEvent) :
    (m.broadcast message :: os).filterMap (shown V)
      = m.unseen.broadcast message :: os.filterMap (shown V) :=
  List.filterMap_cons_some (shown_broadcast h message)

theorem shown_sent {c : Connection} (hc : V c = false) (message : ServerMessage) :
    shown V (.sent c message) = some (.sent c message) := by
  simp [shown, hc]

theorem send_to_shown (h : m.audience.Divided V) (color : PieceColor) (message : ServerMessage) :
    m.unseen.send_to color message = (m.send_to color message).filterMap (shown V) := by
  have hplayer : m.unseen.audience.player color = m.audience.player color := by
    cases color <;> rfl
  unfold send_to
  rw [hplayer]
  cases hp : m.audience.player color with
  | none => rfl
  | some c =>
      rw [Option.map_some, Option.toList_some, List.filterMap_cons,
        shown_sent (h.player color c hp)]
      rfl

/-! ## What a tick does -/

theorem report_result_unseen (m : Match) (reason : GameEndReason) (winner : Option PieceColor) :
    m.unseen.report_result reason winner = without V (m.report_result reason winner) := by
  unfold report_result unseen
  dsimp only
  split_ifs <;> rfl

/-- A verdict, as it is broadcast and reported. -/
theorem verdict_unseen (h : m.audience.Divided V) (reason : GameEndReason)
    (winner : Option PieceColor) :
    ((m.unseen.report_result reason winner).1,
      m.unseen.broadcast (.GameOver winner) :: (m.unseen.report_result reason winner).2)
      = without V ((m.report_result reason winner).1,
        m.broadcast (.GameOver winner) :: (m.report_result reason winner).2) := by
  rw [report_result_unseen (V := V)]
  unfold without
  rw [shown_cons h]

theorem answer_unseen (h : m.audience.Divided V) (source : PieceColor) (piece_id : Option PieceId)
    (result : MoveResult) :
    m.unseen.answer source piece_id result
      = (m.answer source piece_id result).filterMap (shown V) := by
  unfold answer
  by_cases hr : ¬ result.is_accepted
  · rw [if_pos hr, if_pos hr, send_to_shown h]
  · rw [if_neg hr, if_neg hr, show m.unseen.engine = m.engine from rfl]
    cases piece_id.bind m.engine.arbiter.motion_for with
    | none => rfl
    | some motion => simp [shown_broadcast h]

/-- What `apply` does it does without the spectators too. -/
theorem alike_apply {t : Match} (h : Unseen V m t) (source : PieceColor)
    (message : ClientMessage) :
    Alike (fun r q => Unseen V r.1 q.1 ∧ q.2 = r.2.filterMap (shown V)) (m.apply source message)
      (t.apply source message) := by
  obtain ⟨hd, rfl⟩ := h
  have hrequest : ∀ cell (call : GameEngine → Except BoardError (GameEngine × MoveResult)),
      Alike (fun r q => Unseen V r.1 q.1 ∧ q.2 = r.2.filterMap (shown V))
        (m.request source cell call) (m.unseen.request source cell call) := by
    intro cell call
    unfold request
    by_cases hown : ¬ m.owns_piece_at source cell
    · rw [if_pos hown, if_pos (show ¬ m.unseen.owns_piece_at source cell from hown)]
      exact .ok ⟨⟨hd, rfl⟩, answer_unseen hd source none ⟨false, _⟩⟩
    · rw [if_neg hown, if_neg (show ¬ ¬ m.unseen.owns_piece_at source cell from hown)]
      refine (Alike.refl (call m.engine)).bind ?_
      rintro ⟨engine, result⟩ _ rfl
      exact .ok ⟨⟨hd, rfl⟩, answer_unseen (m := { m with engine := engine }) hd source _ result⟩
  unfold apply
  rw [state_unseen]
  split
  · exact .ok ⟨⟨hd, rfl⟩, rfl⟩
  · exact .ok ⟨⟨hd, rfl⟩, send_to_shown hd source _⟩
  · exact .ok ⟨⟨hd, rfl⟩, rfl⟩
  · exact .ok ⟨⟨hd, rfl⟩, send_to_shown hd source _⟩
  · exact hrequest _ _
  · exact hrequest _ _
  · exact .ok ⟨⟨hd, rfl⟩, answer_unseen hd source none ⟨true, "ok"⟩⟩

/-- The critical section, too, which no spectator has a part in. -/
theorem alike_advance_board {t : Match} (h : Unseen V m t) (elapsed_ms : Int) :
    Alike (fun r q => Unseen V r.1 q.1 ∧ q.2.1 = r.2.1.filterMap (shown V) ∧ q.2.2 = r.2.2)
      (m.advance_board elapsed_ms) (t.advance_board elapsed_ms) := by
  obtain ⟨hd, rfl⟩ := h
  have hqueue : Alike (fun r q => Unseen V r.1 q.1 ∧ q.2 = r.2.filterMap (shown V))
      (run apply_all m.drain m.queue) (run apply_all m.unseen.drain m.unseen.queue) := by
    have hall := Alike.run_filterMap (R := Unseen V) (C := fun _ => True) (f := apply_all)
      (g := apply_all) (φ := some) (ψ := shown V)
      (fun s t a b hst _ hb => by
        rw [← Option.some.inj hb]
        exact alike_apply hst a.1 a.2)
      (fun s t a _ _ hnone => absurd hnone (Option.some_ne_none a))
      m.queue m.drain m.drain.unseen ⟨hd, rfl⟩ (fun _ _ => trivial)
    rwa [List.filterMap_some] at hall
  unfold advance_board
  rw [state_unseen]
  refine hqueue.bind ?_
  rintro ⟨m₁, answers⟩ ⟨_, _⟩ ⟨⟨hd₁, rfl⟩, rfl⟩
  dsimp only
  by_cases hstate : m.state = .Running
  · rw [if_pos hstate, if_pos hstate]
    unfold let_time_pass
    refine Alike.bind (R := fun r q => Unseen V r.1 q.1 ∧ q.2 = r.2) ?_ ?_
    · refine (Alike.refl (m₁.engine.wait elapsed_ms)).bind ?_
      rintro ⟨engine, events⟩ _ rfl
      exact .ok ⟨⟨hd₁, rfl⟩, rfl⟩
    · rintro ⟨m₂, events⟩ ⟨_, _⟩ ⟨hm₂, rfl⟩
      exact .ok ⟨hm₂, rfl, rfl⟩
  · rw [if_neg hstate, if_neg hstate]
    exact .ok ⟨⟨hd₁, rfl⟩, rfl, rfl⟩

theorem announce_arrivals_unseen (h : m.audience.Divided V) (events : List ArrivalEvent)
    (at_revision : Nat) :
    m.unseen.announce_arrivals events at_revision
      = without V (m.announce_arrivals events at_revision) := by
  unfold announce_arrivals
  by_cases hempty : events.isEmpty
  · rw [if_pos hempty, if_pos hempty]
    rfl
  · rw [if_neg hempty, if_neg hempty]
    cases verdict_of events with
    | none =>
        unfold without
        dsimp only
        rw [shown_cons h]
        rfl
    | some winner =>
        have hverdict := verdict_unseen (m := { m with game_over := true }) h
          (if winner.isSome then .Decisive else .Draw) winner
        unfold without at hverdict ⊢
        dsimp only at hverdict ⊢
        rw [shown_cons h, ← (Prod.mk.inj hverdict).2, ← (Prod.mk.inj hverdict).1]
        rfl

theorem announce_resignation_unseen (h : m.audience.Divided V) :
    m.unseen.announce_resignation = without V m.announce_resignation := by
  unfold announce_resignation
  rw [show m.unseen.pending_game_over = m.pending_game_over from rfl]
  cases m.pending_game_over with
  | none => rfl
  | some winner =>
      have hverdict := verdict_unseen h .Decisive winner
      unfold without at hverdict ⊢
      dsimp only at hverdict ⊢
      rw [← (Prod.mk.inj hverdict).2, (Prod.mk.inj hverdict).1]
      rfl

theorem advance_disconnect_countdown_unseen (h : m.audience.Divided V) (now : Int) :
    m.unseen.advance_disconnect_countdown now
      = without V (m.advance_disconnect_countdown now) := by
  unfold advance_disconnect_countdown
  by_cases hover : m.game_over = true
  · rw [if_pos hover, if_pos (show m.unseen.game_over = true from hover)]
    rfl
  · rw [if_neg hover, if_neg (show ¬ m.unseen.game_over = true from hover)]
    rw [show m.unseen.disconnect_watch = m.disconnect_watch from rfl]
    obtain ⟨watch, seconds_remaining, expired_for⟩ := m.disconnect_watch.advance now
    cases expired_for with
    | some loser => exact verdict_unseen (m := { m with
        disconnect_watch := watch, game_over := true }) h .Disconnect (some (opposite_of loser))
    | none =>
        cases seconds_remaining with
        | none => rfl
        | some seconds =>
            unfold without
            dsimp only
            rw [shown_cons (m := { m with disconnect_watch := watch }) h]
            rfl

theorem shown_closed (connections : List Connection) :
    (connections.map MatchEvent.closed).filterMap (shown V)
      = (connections.filter fun c => ! V c).map .closed := by
  induction connections with
  | nil => rfl
  | cons c cs ih =>
      cases hc : V c
      · simp [shown, hc, ih]
      · simp [shown, hc, ih]

/-- The connections of the players are closed at the same time. -/
theorem release_if_due_unseen (h : m.audience.Divided V) (now : Int) :
    m.unseen.release_if_due now = without V (m.release_if_due now) := by
  have hcloses : (m.audience.all_closes.map MatchEvent.closed).filterMap (shown V)
      = m.audience.unwatched.all_closes.map .closed := by
    rw [shown_closed, h.all_closes]
  unfold release_if_due unseen
  dsimp only
  split_ifs
  · rw [without, hcloses]
    rfl
  · rfl
  · rw [without, hcloses]
    rfl
  · rfl

/-- The announcements are those made to the players alone. -/
theorem announce_unseen (h : m.audience.Divided V) (now : Int) (events : List ArrivalEvent)
    (at_revision : Nat) :
    m.unseen.announce now events at_revision = without V (m.announce now events at_revision) := by
  have h₁ := announce_arrivals_announced m events at_revision
  have h₂ := h₁.trans (announce_resignation_announced _)
  have h₃ := h₂.trans (advance_disconnect_countdown_announced _ now)
  have hd : ∀ {m' : Match}, Announced m m' → m'.audience.Divided V := by
    intro m' hm'
    rw [hm'.rest]
    exact h
  unfold announce
  dsimp only
  rw [announce_arrivals_unseen h, without, announce_resignation_unseen (hd h₁), without,
    advance_disconnect_countdown_unseen (hd h₂), without, release_if_due_unseen (hd h₃)]
  simp only [without, List.filterMap_append]

/-- **A tick is the same**, for those who do not watch. -/
theorem alike_tick {t : Match} (h : Unseen V m t) (now elapsed_ms : Int) :
    Alike (fun r q => Unseen V r.1 q.1 ∧ q.2 = r.2.filterMap (shown V)) (m.tick now elapsed_ms)
      (t.tick now elapsed_ms) := by
  unfold tick
  refine (alike_advance_board h elapsed_ms).bind ?_
  rintro ⟨m₁, answers, events⟩ ⟨t₁, answers₁, events₁⟩ ⟨⟨hd, ht⟩, hanswers, hevents⟩
  dsimp only at hd ht hanswers hevents
  subst t₁ answers₁ events₁
  have hannounce := announce_unseen hd now events m₁.revision
  have hsame := (announce_announced m₁ now events m₁.revision).rest
  dsimp only
  rw [show m₁.unseen.revision = m₁.revision from rfl, hannounce]
  generalize m₁.announce now events m₁.revision = r at hsame
  obtain ⟨m₂, announcements⟩ := r
  refine .ok ⟨⟨?_, rfl⟩, (List.filterMap_append).symm⟩
  rw [hsame]
  exact hd

/-! ## What players call -/

/-- The `Welcome` of a player, with what is said before and after it. -/
theorem shown_welcome {c : Connection} (hc : V c = false) {e : MatchEvent}
    (he : shown V e = some e) (color : PieceColor) (os : List MatchEvent) :
    (e :: .sent c (.Welcome (m.welcome_for color false)) :: os).filterMap (shown V)
      = e :: .sent c (.Welcome (m.unseen.welcome_for color false)) :: os.filterMap (shown V) := by
  rw [List.filterMap_cons_some he, List.filterMap_cons_some (shown_sent hc _),
    welcome_for_unseen]

/-- A join is the same. -/
theorem join_unseen (h : m.audience.Divided V) (username : String) (rating : Int) {c : Connection}
    (hc : V c = false) :
    (m.unseen.join username rating c).1 = without V (m.join username rating c).1 := by
  have hd := h.seat username rating hc
  unfold join
  rw [show m.unseen.audience.seat username rating c c = _ from
    m.audience.seat_unwatched username rating c]
  generalize m.audience.seat username rating c c = r at hd
  obtain ⟨audience, assigned⟩ := r
  cases assigned with
  | none => rfl
  | some color =>
      unfold without
      dsimp only
      rw [shown_welcome hc rfl]
      by_cases hblack : color = .Black
      · rw [if_pos hblack, if_pos hblack, shown_cons (m := { m with audience := audience }) hd]
        rfl
      · rw [if_neg hblack, if_neg hblack]
        rfl

/-- So is coming back. -/
theorem reconnect_unseen (h : m.audience.Divided V) (color : PieceColor) {c : Connection}
    (hc : V c = false) :
    (m.unseen.reconnect color c).1 = without V (m.reconnect color c).1 := by
  have hd := h.reseat color hc
  unfold reconnect
  by_cases hover : m.game_over = true
  · rw [if_pos hover, if_pos (show m.unseen.game_over = true from hover)]
    rfl
  · rw [if_neg hover, if_neg (show ¬ m.unseen.game_over = true from hover),
      show m.unseen.disconnect_watch = m.disconnect_watch from rfl]
    obtain ⟨watch, cancelled⟩ := m.disconnect_watch.cancel color
    cases cancelled with
    | false => rfl
    | true =>
        unfold without
        dsimp only
        rw [if_neg (by decide), if_neg (by decide), shown_welcome hc rfl,
          List.filterMap_cons_some (shown_sent hc _),
          shown_cons (m := { m with
            disconnect_watch := watch, audience := m.audience.reseat color c c }) hd]
        have hwelcome := welcome_for_unseen { m with
          disconnect_watch := watch, audience := m.audience.reseat color c c } color false
        rw [← hwelcome]
        unfold unseen
        dsimp only
        rw [m.audience.reseat_unwatched color c]
        rfl

/-! ## Runs -/

/-- A call that is not a spectator's: a player's, or the worker's. -/
def Call.of_match : Call → Bool
  | .join_spectator _ => false
  | .leave_spectator _ => false
  | _ => true

/-- Seats are taken from outside `V`, and watchers come from inside. -/
def Call.keeps_apart (V : Connection → Bool) : Call → Bool
  | .join _ _ connection => ! V connection
  | .reconnect _ connection => ! V connection
  | .join_spectator connection => V connection
  | _ => true

/-- A call that is not a spectator's does the same without them, -/
theorem alike_exec {t : Match} (h : Unseen V m t) {call : Call} (hcall : call.of_match = true)
    (hapart : call.keeps_apart V = true) :
    Alike (fun r q => Unseen V r.1 q.1 ∧ q.2 = r.2.filterMap (shown V)) (exec m call)
      (exec t call) := by
  obtain ⟨hd, rfl⟩ := h
  cases call with
  | join username rating c =>
      have hc : V c = false := by simpa [Call.keeps_apart] using hapart
      have hjoin := join_unseen hd username rating hc
      refine .ok ⟨⟨?_, congrArg Prod.fst hjoin⟩, congrArg Prod.snd hjoin⟩
      have hseat := hd.seat username rating hc
      unfold join
      generalize m.audience.seat username rating c c = r at hseat
      obtain ⟨audience, assigned⟩ := r
      cases assigned with
      | none => exact hd
      | some color => exact hseat
  | join_spectator c => cases hcall
  | leave_spectator watcher => cases hcall
  | enqueue source message =>
      refine .ok ⟨?_, rfl⟩
      unfold enqueue unseen
      dsimp only
      split_ifs
      · exact ⟨hd, rfl⟩
      · exact ⟨hd, rfl⟩
  | on_disconnect color => exact .ok ⟨⟨hd, rfl⟩, rfl⟩
  | reconnect color c =>
      have hc : V c = false := by simpa [Call.keeps_apart] using hapart
      have hreconnect := reconnect_unseen hd color hc
      refine .ok ⟨⟨?_, congrArg Prod.fst hreconnect⟩, congrArg Prod.snd hreconnect⟩
      have hreseat := hd.reseat color hc
      unfold reconnect
      dsimp only
      split_ifs
      · exact hd
      · exact hreseat
      · exact hd
  | tick now elapsed_ms => exact alike_tick ⟨hd, rfl⟩ now elapsed_ms

/-- and one that is a spectator's is not noticed. -/
theorem exec_unnoticed {t : Match} (h : Unseen V m t) {call : Call}
    (hcall : call.of_match = false) (hapart : call.keeps_apart V = true) :
    ∃ m' os, exec m call = .ok (m', os) ∧ Unseen V m' t ∧ os.filterMap (shown V) = [] := by
  obtain ⟨hd, rfl⟩ := h
  cases call with
  | join_spectator c =>
      have hc : V c = true := hapart
      have hseen : Unseen V { m with audience := (m.audience.watch c c).1 } m.unseen := by
        refine ⟨hd.watch hc, ?_⟩
        simp [unseen, m.audience.unwatched_watch c]
      unfold exec join_spectator
      dsimp only
      by_cases hfull : (m.audience.watch c c).2 = 0
      · rw [if_pos hfull]
        exact ⟨m, [], rfl, ⟨hd, rfl⟩, rfl⟩
      · rw [if_neg hfull]
        refine ⟨_, _, rfl, hseen, ?_⟩
        by_cases hstarted : m.audience.both_seats_taken = true
        · simp [shown, hc, hstarted]
        · simp [shown, hc, hstarted]
  | leave_spectator watcher =>
      refine ⟨_, _, rfl, ⟨hd.unwatch watcher, ?_⟩, rfl⟩
      simp [unseen, leave_spectator, m.audience.unwatched_unwatch watcher]
  | _ => cases hcall

/-- **Spectators change nothing.** A match played before spectators, who come and go as they
like, is the match played without them: it fails when that one does, and else comes to the
same state, gives the same verdicts and reports, and says the same to the players. -/
theorem spectators_change_nothing (board : Board) (config : MotionFactory) (on_result : Bool)
    (disconnect_grace_ms release_delay_ms : Int) (room_name : String) {V : Connection → Bool}
    {calls : List Call} (hapart : ∀ call ∈ calls, call.keeps_apart V = true) :
    run exec (.new board config on_result disconnect_grace_ms release_delay_ms room_name)
        (calls.filter Call.of_match)
      = (run exec (.new board config on_result disconnect_grace_ms release_delay_ms room_name)
          calls).map (without V) := by
  have halike := Alike.run_filterMap (R := Unseen V) (f := exec) (g := exec)
    (C := fun call => call.keeps_apart V = true) (φ := Option.guard Call.of_match) (ψ := shown V)
    (fun s t a b hst ha hb => by
      obtain ⟨rfl, hcall⟩ := Option.guard_eq_some_iff.mp hb
      exact alike_exec hst hcall ha)
    (fun s t a hst ha hnone => exec_unnoticed hst (by simpa [Option.guard] using hnone) ha)
    calls (.new board config on_result disconnect_grace_ms release_delay_ms room_name)
    (.new board config on_result disconnect_grace_ms release_delay_ms room_name)
    ⟨MatchAudience.divided_new, rfl⟩ hapart
  rw [List.filterMap_eq_filter] at halike
  generalize run exec (new board config on_result disconnect_grace_ms release_delay_ms room_name)
    calls = x at halike ⊢
  generalize run exec (new board config on_result disconnect_grace_ms release_delay_ms room_name)
    (calls.filter Call.of_match) = y at halike ⊢
  cases halike with
  | error e => rfl
  | ok related =>
      obtain ⟨⟨-, hstate⟩, htold⟩ := related
      exact congrArg Except.ok (Prod.ext hstate htold)

/-- Somebody watches from before the first player on, leaves, and watches again. -/
def a_watched_move : List Call :=
  [.join_spectator ⟨3⟩, .join "white" 1200 ⟨1⟩, .join "black" 1200 ⟨2⟩,
    .enqueue .White (.MoveRequest ⟨0, 1⟩ ⟨0, 2⟩), .tick 0 0, .leave_spectator 1,
    .on_disconnect .Black, .tick 2000 2000, .join_spectator ⟨3⟩, .reconnect .Black ⟨4⟩,
    .tick 4000 2000]

theorem nobody_notices :
    run exec (.new three_on_a_row shipped_factory true 20000 3000 "")
        [.join "white" 1200 ⟨1⟩, .join "black" 1200 ⟨2⟩,
          .enqueue .White (.MoveRequest ⟨0, 1⟩ ⟨0, 2⟩), .tick 0 0, .on_disconnect .Black,
          .tick 2000 2000, .reconnect .Black ⟨4⟩, .tick 4000 2000]
      = (run exec (.new three_on_a_row shipped_factory true 20000 3000 "") a_watched_move).map
          (without fun c => decide (c = ⟨3⟩)) := by
  have hapart : ∀ call ∈ a_watched_move, call.keeps_apart (fun c => decide (c = ⟨3⟩)) = true := by
    decide
  exact spectators_change_nothing three_on_a_row shipped_factory true 20000 3000 "" hapart

end Match

end KungFuChess
