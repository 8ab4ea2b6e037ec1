/-
**A command acts for the account that owns the seat.**

Over a whole run: what reaches a match under a colour was sent by a session that is
logged in under the name the match has for that colour. The chain is kept link by
link. A session that has a user has logged in (`Rightful.known`), one that has a
player's seat has its name there (`Rightful.seated`), and of a call that is under way
`Serves` says for whom it is. No step looks at more than one link, so the order in
which sessions, rooms and matches go on does not matter.
-/
import KungFuChess.OneSession
import KungFuChess.SeatNames

set_option autoImplicit false

namespace KungFuChess

open Machine

/-! ## Two lists side by side -/

section Beside

variable {α β : Type*}

/-- The two stand at the same place. -/
def Beside (xs : List α) (ys : List β) (x : α) (y : β) : Prop :=
  ∃ k : Nat, xs[k]? = some x ∧ ys[k]? = some y

theorem beside_append {xs : List α} {ys : List β} {x a : α} {y b : β}
    (hlen : xs.length = ys.length) (h : Beside (xs ++ [a]) (ys ++ [b]) x y) :
    Beside xs ys x y ∨ (x = a ∧ y = b) := by
  obtain ⟨k, hx, hy⟩ := h
  by_cases hk : k < xs.length
  · rw [List.getElem?_append_left hk] at hx
    rw [List.getElem?_append_left (hlen ▸ hk)] at hy
    exact .inl ⟨k, hx, hy⟩
  · have hle := Nat.le_of_not_lt hk
    rw [List.getElem?_append_right hle] at hx
    rw [List.getElem?_append_right (hlen ▸ hle)] at hy
    exact .inr ⟨List.mem_singleton.mp (List.mem_of_getElem? hx),
      List.mem_singleton.mp (List.mem_of_getElem? hy)⟩

/-- One is taken out, and it was there once. -/
theorem beside_eraseIdx {xs : List α} {ys : List β} {k : Nat} {x a : α} {y : β}
    (hnodup : xs.Nodup) (ha : xs[k]? = some a)
    (h : Beside (xs.eraseIdx k) (ys.eraseIdx k) x y) : Beside xs ys x y ∧ x ≠ a := by
  obtain ⟨j, hx, hy⟩ := h
  have hother : ∀ n, n ≠ k → xs[n]? = some x → x ≠ a := by
    intro n hn hxn hxa
    obtain ⟨hlt, -⟩ := List.getElem?_eq_some_iff.mp hxn
    rw [hxa, ← ha] at hxn
    exact hn ((List.getElem?_inj hlt hnodup).mp hxn)
  rw [List.getElem?_eraseIdx] at hx hy
  by_cases hj : j < k
  · rw [if_pos hj] at hx hy
    exact ⟨⟨j, hx, hy⟩, hother j (by omega) hx⟩
  · rw [if_neg hj] at hx hy
    exact ⟨⟨j + 1, hx, hy⟩, hother (j + 1) (by omega) hx⟩

/-- What is taken out can be put at the end. -/
theorem nodup_take {xs : List α} {k : Nat} {a : α} (hnodup : xs.Nodup) (ha : xs[k]? = some a) :
    (xs.eraseIdx k ++ [a]).Nodup := by
  obtain ⟨hk, rfl⟩ := List.getElem?_eq_some_iff.mp ha
  rw [List.nodup_append_comm]
  exact (List.getElem_cons_eraseIdx_perm hk).nodup_iff.mpr hnodup

end Beside

namespace Server

/-! ## What is in the log -/

abbrev Log := List (Op × List ServerEvent)

/-- The session has sent the message. -/
def HasSaid (parse : String → Option Json) (log : Log) (i : SessionId) (message : ClientMessage) :
    Prop := ∃ entry ∈ log, Said parse entry.1 i message

/-- The session has logged in, and the user store has vouched for it. -/
def HasLoggedIn (parse : String → Option Json) (log : Log) (i : SessionId) (user : AuthedUser) :
    Prop := ∃ entry ∈ log, LogsIn parse entry.1 i user

/-- The seats that a session has got. -/
def seats_of (i : SessionId) (tr : List ServerEvent) : List Seat :=
  tr.filterMap fun
    | .seated j seat => if j = i then some seat else none
    | _ => none

variable {parse : String → Option Json} {input : Op} {log log' : Log}

theorem HasSaid.mono {i : SessionId} {message : ClientMessage} (h : HasSaid parse log i message)
    (hlog : log ⊆ log') : HasSaid parse log' i message := by
  obtain ⟨entry, hentry, hsaid⟩ := h
  exact ⟨entry, hlog hentry, hsaid⟩

theorem HasLoggedIn.mono {i : SessionId} {user : AuthedUser} (h : HasLoggedIn parse log i user)
    (hlog : log ⊆ log') : HasLoggedIn parse log' i user := by
  obtain ⟨entry, hentry, hlogs⟩ := h
  exact ⟨entry, hlog hentry, hlogs⟩

@[simp] theorem seats_of_append (i : SessionId) (tr os : List ServerEvent) :
    seats_of i (tr ++ os) = seats_of i tr ++ seats_of i os := List.filterMap_append

@[simp] theorem seats_of_called (i j : SessionId) (op : RoomManager.Op) (os : List ServerEvent) :
    seats_of i (.called j op :: os) = seats_of i os := rfl

@[simp] theorem seats_of_seated (i j : SessionId) (seat : Seat) :
    seats_of j [.seated i seat] = if i = j then [seat] else [] := by
  unfold seats_of
  by_cases hj : i = j
  · simp [hj]
  · simp [hj]

@[simp] theorem seats_of_rooms (i : SessionId) (os : List RoomEvent) :
    seats_of i (os.map .of_rooms) = [] := by
  unfold seats_of
  rw [List.filterMap_map]
  exact List.filterMap_eq_nil_iff.mpr fun _ _ => rfl

@[simp] theorem seats_of_deliveries (i j : SessionId) (s : Server) (call : Nat) :
    seats_of i (s.deliveries j call) = [] := by
  unfold deliveries
  split
  · split_ifs <;> rfl
  · rfl

theorem Hushed.seats_of {os : List ServerEvent} (h : Hushed os) (i : SessionId) :
    seats_of i os = [] := by
  apply List.filterMap_eq_nil_iff.mpr
  intro e he
  have hquiet := h e he
  cases e with
  | seated j seat => exact hquiet.elim
  | _ => rfl

/-- An answer that is a seat is the one that the rooms return. -/
theorem returned_of_answer {os : List RoomEvent} {seat : Seat}
    (h : answer_of os = some (.seat seat)) : RoomManager.returned os = some seat := by
  unfold answer_of at h
  unfold RoomManager.returned
  induction os with
  | nil => cases h
  | cons e os ih =>
      rw [List.findSome?_cons] at h ⊢
      cases e with
      | returned seat' =>
          obtain rfl := Answer.seat.inj (Option.some.inj h)
          rfl
      | refused reason => cases h
      | redirected url => cases h
      | reaped room => exact ih h
      | of_match room event => exact ih h

/-! ## One session -/

/-- Whom a session is logging in, or has. -/
def Whose (a : ClientSession) (user : AuthedUser) : Prop :=
  a.pending = some user ∨ a.stage = .claiming user ∨ a.stage = .claimed user ∨
    a.stage = .holding user

/-- A user was there before, or has just logged in. -/
theorem acts_whose {leases leases' : SessionRegistry} {i : SessionId} {a a' : ClientSession}
    (hacts : Acts parse input leases i a leases' a') {user : AuthedUser} (h : Whose a' user) :
    Whose a user ∨ LogsIn parse input i user := by
  unfold Whose at h ⊢
  cases hacts with
  | listens free same =>
      rw [same] at h
      exact .inl h
  | asks known free same stranger vouched =>
      rw [same] at h
      by_cases hsame : known = user
      · rw [← hsame]
        exact .inr vouched
      · left
        left
        simpa [hsame] using h
  | claims known stage free =>
      left
      simpa [stage] using h
  | moves known left stage =>
      left
      simpa [stage] using h
  | enters known stage =>
      left
      right
      simpa [stage] using h
  | turned_away known stage =>
      left
      left
      simpa using h
  | seeks free same seatless =>
      rw [same] at h
      left
      left
      simpa using h
  | sits seat same asking =>
      rw [same] at h
      left
      left
      simpa using h
  | stands same asking =>
      rw [same] at h
      left
      left
      simpa using h
  | plays free same seated =>
      rw [same] at h
      left
      left
      simpa using h
  | closes stage free next =>
      left
      left
      rcases next with rfl | rfl
      · simpa using h
      · simpa using h
  | waits answer =>
      left
      unfold ClientSession.hear at h
      split at h
      · left
        simpa using h
      · exact h
  | unwinds | played | left | releases =>
      left
      left
      simpa using h
  | ends there stage =>
      left
      exact h

/-- A session that has a user keeps it. -/
theorem acts_pending {leases leases' : SessionRegistry} {i : SessionId} {a a' : ClientSession}
    (hkept : Kept leases i a) (hacts : Acts parse input leases i a leases' a') {user : AuthedUser}
    (h : a.pending = some user) : a'.pending = some user := by
  cases hacts with
  | enters known stage =>
      -- nobody enters who has a user already
      obtain ⟨-, -, hnone, -⟩ := hkept.holding stage
      rw [h] at hnone
      cases hnone
  | waits answer =>
      unfold ClientSession.hear
      split <;> exact h
  | listens free same => rw [same]; exact h
  | asks known free same stranger vouched => rw [same]; exact h
  | seeks free same seatless => rw [same]; exact h
  | sits seat same asking => rw [same]; exact h
  | stands same asking => rw [same]; exact h
  | plays free same seated => rw [same]; exact h
  | claims | turned_away | moves | unwinds | played | closes | left | releases | ends => exact h

/-- Who begins to wait for a seat has none, and no answer yet. -/
theorem acts_waiting {leases leases' : SessionRegistry} {i : SessionId} {a a' : ClientSession}
    (hacts : Acts parse input leases i a leases' a') (halone : ¬ Calling a)
    {earlier : Option Answer} (h : a'.stage = .seating earlier) :
    a'.seat = none ∧ earlier = none := by
  have hnot : ∀ answer, a.stage ≠ .seating answer := by
    intro answer hstage
    exact halone (.inl ⟨answer, hstage⟩)
  cases hacts with
  | listens free same =>
      rw [same] at h
      exact absurd h (hnot earlier)
  | seeks free same seatless =>
      rw [same]
      exact ⟨seatless.2, (Stage.seating.inj h).symm⟩
  | waits answer =>
      unfold ClientSession.hear at h
      split at h
      · exact absurd ‹_› (hnot _)
      · exact absurd h (hnot earlier)
  | closes stage free next =>
      rcases next with rfl | rfl
      · cases h
      · cases h
  | ends there stage => exact absurd h (hnot earlier)
  | asks | claims | turned_away | moves | enters | unwinds | sits | stands | plays | played | left
  | releases => cases h

/-- What a session has it has by right: its user has logged in, and a player's seat has
the name of that user. -/
structure Rightful (parse : String → Option Json) (log : Log) (matches_ : RoomManager.Matches)
    (i : SessionId) (a : ClientSession) : Prop where
  known : ∀ user, Whose a user → HasLoggedIn parse log i user
  seated : ∀ seat, a.seat = some seat → seat.spectator = false →
    ∃ user, a.pending = some user ∧
      RoomManager.Named matches_ seat.room seat.color user.username
  waiting : ∀ earlier, a.stage = .seating earlier →
    a.seat = none ∧ ∀ seat, earlier ≠ some (.seat seat)

/-- For whom a call of the rooms is: a command for the session whose seat it names, and
what grants a seat for the user that is waiting for one. -/
structure Serves (parse : String → Option Json) (log : Log) (matches_ : RoomManager.Matches)
    (i : SessionId) (a : ClientSession) (p : Pending) : Prop where
  calling : Calling a
  plays : ∀ id color message, p = .enqueue id color message → a.stage = .enqueueing ∧
    HasSaid parse log i message ∧
    ∃ seat, a.seat = some seat ∧ seat.spectator = false ∧ seat.room = id ∧ seat.color = color
  seeks : ∀ earlier, a.stage = .seating earlier →
    ∃ user, a.pending = some user ∧ RoomManager.MadeFor matches_ user.username p

variable {matches_ matches' : RoomManager.Matches}

/-- No name is taken away. -/
def NamesStay (matches_ matches' : RoomManager.Matches) : Prop := ∀ id color username,
  RoomManager.Named matches_ id color username → RoomManager.Named matches' id color username

theorem Rightful.mono {i : SessionId} {a : ClientSession} (h : Rightful parse log matches_ i a)
    (hlog : log ⊆ log') (hnames : NamesStay matches_ matches') :
    Rightful parse log' matches' i a where
  known user huser := (h.known user huser).mono hlog
  seated seat hseat hplays := by
    obtain ⟨user, hpending, hnamed⟩ := h.seated seat hseat hplays
    exact ⟨user, hpending, hnames _ _ _ hnamed⟩
  waiting := h.waiting

theorem Serves.mono {i : SessionId} {a : ClientSession} {p : Pending}
    (h : Serves parse log matches_ i a p) (hlog : log ⊆ log')
    (hnames : NamesStay matches_ matches') : Serves parse log' matches' i a p where
  calling := h.calling
  plays id color message hp := by
    obtain ⟨hstage, hsaid, hseat⟩ := h.plays id color message hp
    exact ⟨hstage, hsaid.mono hlog, hseat⟩
  seeks earlier hstage := by
    obtain ⟨user, hpending, hmade⟩ := h.seeks earlier hstage
    exact ⟨user, hpending, hmade.mono fun id color => hnames id color user.username⟩

/-- What a session does leaves it what it has by right, if a seat that it gets is its
user's. -/
theorem Rightful.acts {leases leases' : SessionRegistry} {i : SessionId} {a a' : ClientSession}
    {os : List ServerEvent} (h : Rightful parse log matches_ i a) (hkept : Kept leases i a)
    (hacts : Acts parse input leases i a leases' a') (hnames : NamesStay matches_ matches')
    (hseat : a'.seat = a.seat ∨ ∃ seat, a'.seat = some seat ∧ (seat.spectator = false →
      ∃ user, a.pending = some user ∧
        RoomManager.Named matches' seat.room seat.color user.username))
    (hwaiting : ∀ earlier, a'.stage = .seating earlier →
      a'.seat = none ∧ ∀ seat, earlier ≠ some (.seat seat)) :
    Rightful parse (log ++ [(input, os)]) matches' i a' where
  known user huser := by
    rcases acts_whose hacts huser with hbefore | hnew
    · exact (h.known user hbefore).mono (List.subset_append_left _ _)
    · exact ⟨(input, os), List.mem_append_right _ (List.mem_singleton_self _), hnew⟩
  seated seat hthere hplays := by
    rcases hseat with hsame | ⟨seat', hnew, hnamed⟩
    · rw [hsame] at hthere
      obtain ⟨user, hpending, hnamed⟩ := h.seated seat hthere hplays
      exact ⟨user, acts_pending hkept hacts hpending, hnames _ _ _ hnamed⟩
    · rw [hnew] at hthere
      obtain rfl := Option.some.inj hthere
      obtain ⟨user, hpending, hseat⟩ := hnamed hplays
      exact ⟨user, acts_pending hkept hacts hpending, hseat⟩
  waiting := hwaiting

/-- A session that begins by itself gets no seat, and waits for one without an answer. -/
theorem Rightful.alone {leases leases' : SessionRegistry} {i : SessionId} {a a' : ClientSession}
    {os : List ServerEvent} (h : Rightful parse log matches_ i a) (hkept : Kept leases i a)
    (hacts : Acts parse input leases i a leases' a') (halone : ¬ Calling a)
    (hnames : NamesStay matches_ matches') (hsame : a'.seat = a.seat) :
    Rightful parse (log ++ [(input, os)]) matches' i a' := by
  refine h.acts hkept hacts hnames (.inl hsame) ?_
  intro earlier hstage
  obtain ⟨hnone, hearlier⟩ := acts_waiting hacts halone hstage
  refine ⟨hnone, ?_⟩
  intro seat hanswer
  rw [hearlier] at hanswer
  cases hanswer

/-! ## All sessions -/

/-- **Everything is somebody's**, and by right. -/
structure Lawful (parse : String → Option Json) (log : Log) (s : Server) : Prop where
  tidy : Tidy s.leases s.sessions
  accounted : s.rooms.Accounted
  lengths : s.callers.length = s.rooms.calls.length
  nodup : s.callers.Nodup
  sessions : ∀ i a, s.sessions[i]? = some a → Rightful parse log s.rooms.match_of i a
  calls : ∀ i p, Beside s.callers s.rooms.calls i p →
    ∃ a, s.sessions[i]? = some a ∧ Serves parse log s.rooms.match_of i a p
  queued : ∀ id m command, s.rooms.match_of id = some m → command ∈ m.queue →
    ∃ i, .delivered i id command.1 command.2 ∈ emitted log
  seats : ∀ i, seats_of i (emitted log) = (s.sessions[i]?.bind ClientSession.seat).toList

theorem lawful_new (board_factory : RoomId → Board) (config : MotionFactory) (on_result : Bool)
    (disconnect_grace_ms : Int) (directory : Option (String → Option String))
    (self_url : String) :
    Lawful parse [] (new (.new board_factory config on_result disconnect_grace_ms directory
      self_url)) where
  tidy := by
    refine ⟨Leases.Exact.empty, ?_, fun _ _ => ⟨rfl, rfl⟩⟩
    intro i a ha
    simp [new] at ha
  accounted := RoomManager.accounted_new board_factory config on_result disconnect_grace_ms
    directory self_url
  lengths := rfl
  nodup := List.nodup_nil
  sessions i a ha := by simp [new] at ha
  calls i p h := by
    obtain ⟨k, hk, -⟩ := h
    simp [new] at hk
  queued id m command hm := by cases hm
  seats i := by simp [new, seats_of, emitted]

/-- The rooms go on, and what they queue is seen. -/
structure RoomsGo (s : Server) (rooms' : RoomManager) (os : List ServerEvent) : Prop where
  accounted : rooms'.Accounted
  names : NamesStay s.rooms.match_of rooms'.match_of
  queued : ∀ id m' command, rooms'.match_of id = some m' → command ∈ m'.queue →
    (∃ m, s.rooms.match_of id = some m ∧ command ∈ m.queue) ∨
      ∃ i, .delivered i id command.1 command.2 ∈ os

variable {s : Server} {rooms' : RoomManager} {leases' : SessionRegistry} {os : List ServerEvent}
  {i : SessionId} {a a' : ClientSession}

theorem rooms_rest (h : s.rooms.Accounted) (os : List ServerEvent) : RoomsGo s s.rooms os where
  accounted := h
  names _ _ _ hnamed := hnamed
  queued _ m _ hm hin := .inl ⟨m, hm, hin⟩

theorem rooms_go {op : RoomManager.Op} {r : RoomManager × List RoomEvent} (h : s.rooms.Accounted)
    (hexec : RoomManager.exec s.rooms op = .ok r) (hop : ∀ call, op ≠ .proceed call)
    (os : List ServerEvent) : RoomsGo s r.1 os where
  accounted := h.exec hexec
  names _ _ _ hnamed := hnamed.exec h hexec
  queued id m command hm hin := by
    rcases RoomManager.exec_queued hexec hm hin with hbefore | ⟨call, hcall, -⟩
    · exact .inl hbefore
    · exact absurd hcall (hop call)

/-- What a session's call brings to a match is delivered in that step. -/
theorem rooms_proceed {call : Nat} {r : RoomManager × List RoomEvent} (h : s.rooms.Accounted)
    (hexec : RoomManager.exec s.rooms (.proceed call) = .ok r) (i : SessionId)
    (os : List ServerEvent) : RoomsGo s r.1 (s.deliveries i call ++ os) where
  accounted := h.exec hexec
  names _ _ _ hnamed := hnamed.exec h hexec
  queued id m command hm hin := by
    rcases RoomManager.exec_queued hexec hm hin with hbefore | ⟨call', hcall, hp, hmatch⟩
    · exact .inl hbefore
    · obtain rfl := RoomManager.Op.proceed.inj hcall
      refine .inr ⟨i, List.mem_append_left _ ?_⟩
      unfold deliveries
      rw [hp]
      dsimp only
      rw [if_pos hmatch]
      exact List.mem_singleton_self _

theorem Lawful.queued_step (h : Lawful parse log s) (hgo : RoomsGo s rooms' os) (id : RoomId)
    (m : Match) (command : PieceColor × ClientMessage) (hm : rooms'.match_of id = some m)
    (hin : command ∈ m.queue) :
    ∃ i, .delivered i id command.1 command.2 ∈ emitted (log ++ [(input, os)]) := by
  rw [emitted_append, emitted_singleton]
  rcases hgo.queued id m command hm hin with ⟨m', hm', hin'⟩ | ⟨i, hnew⟩
  · obtain ⟨i, hbefore⟩ := h.queued id m' command hm' hin'
    exact ⟨i, List.mem_append_left _ hbefore⟩
  · exact ⟨i, List.mem_append_right _ hnew⟩

/-- One session changes. -/
theorem Lawful.sessions_set (h : Lawful parse log s) (here : s.sessions[i]? = some a)
    (hnew : Rightful parse log' matches' i a') (hlog : log ⊆ log')
    (hnames : NamesStay s.rooms.match_of matches') (j : SessionId) (b : ClientSession)
    (hb : (s.sessions.set i a')[j]? = some b) : Rightful parse log' matches' j b := by
  by_cases hj : i = j
  · subst hj
    rw [List.getElem?_set_self (List.getElem?_eq_some_iff.mp here).1] at hb
    rw [← Option.some.inj hb]
    exact hnew
  · rw [List.getElem?_set_ne hj] at hb
    exact (h.sessions j b hb).mono hlog hnames

/-- The calls of the other sessions are where they were. -/
theorem Lawful.calls_set (h : Lawful parse log s) (hlog : log ⊆ log')
    (hnames : NamesStay s.rooms.match_of matches') {j : SessionId} {p : Pending}
    (hbeside : Beside s.callers s.rooms.calls j p) (hj : j ≠ i) :
    ∃ b, (s.sessions.set i a')[j]? = some b ∧ Serves parse log' matches' j b p := by
  obtain ⟨b, hb, hserves⟩ := h.calls j p hbeside
  refine ⟨b, ?_, hserves.mono hlog hnames⟩
  rw [List.getElem?_set_ne (Ne.symm hj)]
  exact hb

/-- A session that is by itself has no call under way. -/
theorem Lawful.alone_ne (h : Lawful parse log s) (here : s.sessions[i]? = some a)
    (halone : ¬ Calling a) {j : SessionId} {p : Pending}
    (hbeside : Beside s.callers s.rooms.calls j p) : j ≠ i := by
  rintro rfl
  obtain ⟨b, hb, hserves⟩ := h.calls j p hbeside
  obtain rfl := Option.some.inj (here.symm.trans hb)
  exact halone hserves.calling

theorem Lawful.alone_notMem (h : Lawful parse log s) (here : s.sessions[i]? = some a)
    (halone : ¬ Calling a) : i ∉ s.callers := by
  intro hi
  obtain ⟨k, hk, hget⟩ := List.mem_iff_getElem.mp hi
  have hk' : k < s.rooms.calls.length := h.lengths ▸ hk
  have hbeside : Beside s.callers s.rooms.calls i s.rooms.calls[k] :=
    ⟨k, by rw [List.getElem?_eq_getElem hk, hget], List.getElem?_eq_getElem hk'⟩
  exact h.alone_ne here halone hbeside rfl

/-- The seats that are seen are those that the sessions have. -/
theorem Lawful.seats_set (h : Lawful parse log s) (here : s.sessions[i]? = some a)
    (hos : (a'.seat = a.seat ∧ ∀ j, seats_of j os = []) ∨
      (a.seat = none ∧ ∀ j, seats_of j os = if i = j then a'.seat.toList else [])) (j : SessionId) :
    seats_of j (emitted (log ++ [(input, os)]))
      = ((s.sessions.set i a')[j]?.bind ClientSession.seat).toList := by
  rw [emitted_append, emitted_singleton, seats_of_append, h.seats]
  by_cases hj : i = j
  · subst hj
    rw [List.getElem?_set_self (List.getElem?_eq_some_iff.mp here).1, here]
    rcases hos with ⟨hsame, hnone⟩ | ⟨hfree, hnew⟩
    · simp [hsame, hnone]
    · simp [hfree, hnew]
  · rw [List.getElem?_set_ne hj]
    rcases hos with ⟨-, hnone⟩ | ⟨-, hnew⟩
    · rw [hnone, List.append_nil]
    · rw [hnew, if_neg hj, List.append_nil]

theorem Lawful.seats_same (h : Lawful parse log s) (hos : ∀ j, seats_of j os = [])
    (j : SessionId) : seats_of j (emitted (log ++ [(input, os)]))
      = (s.sessions[j]?.bind ClientSession.seat).toList := by
  rw [emitted_append, emitted_singleton, seats_of_append, h.seats, hos, List.append_nil]

/-- A step that no session takes part in. -/
theorem Lawful.aside (h : Lawful parse log s) (htidy : Tidy leases' s.sessions)
    (hgo : RoomsGo s rooms' os) (hcalls : rooms'.calls = s.rooms.calls)
    (hos : ∀ j, seats_of j os = []) :
    Lawful parse (log ++ [(input, os)]) { s with rooms := rooms', leases := leases' } where
  tidy := htidy
  accounted := hgo.accounted
  lengths := h.lengths.trans (congrArg List.length hcalls.symm)
  nodup := h.nodup
  sessions i a here := (h.sessions i a here).mono (List.subset_append_left _ _) hgo.names
  calls i p hbeside := by
    dsimp only at hbeside
    rw [hcalls] at hbeside
    obtain ⟨a, here, hserves⟩ := h.calls i p hbeside
    exact ⟨a, here, hserves.mono (List.subset_append_left _ _) hgo.names⟩
  queued := h.queued_step hgo
  seats := h.seats_same hos

theorem Lawful.connects (h : Lawful parse log s) (connection : Connection) :
    Lawful parse (log ++ [(input, [])])
      { s with sessions := s.sessions ++ [{ connection := connection }] } where
  tidy := h.tidy.connects connection
  accounted := h.accounted
  lengths := h.lengths
  nodup := h.nodup
  sessions i a here := by
    by_cases hold : i < s.sessions.length
    · rw [List.getElem?_append_left hold] at here
      exact (h.sessions i a here).mono (List.subset_append_left _ _)
        (rooms_rest h.accounted []).names
    · rw [List.getElem?_append_right (Nat.le_of_not_lt hold)] at here
      rw [List.mem_singleton.mp (List.mem_of_getElem? here)]
      exact ⟨by simp [Whose], by simp, by simp⟩
  calls i p hbeside := by
    obtain ⟨a, here, hserves⟩ := h.calls i p hbeside
    refine ⟨a, ?_, hserves.mono (List.subset_append_left _ _) (rooms_rest h.accounted []).names⟩
    rw [List.getElem?_append_left (List.getElem?_eq_some_iff.mp here).1]
    exact here
  queued := h.queued_step (rooms_rest h.accounted [])
  seats i := by
    rw [h.seats_same fun _ => rfl]
    by_cases hold : i < s.sessions.length
    · rw [List.getElem?_append_left hold]
    · have hle := Nat.le_of_not_lt hold
      rw [List.getElem?_append_right hle, List.getElem?_eq_none hle]
      cases i - s.sessions.length <;> rfl

/-- A session does something by itself, or with a call that is back at once. -/
theorem Lawful.acts (h : Lawful parse log s) (here : s.sessions[i]? = some a)
    (hacts : Acts parse input s.leases i a leases' a') (halone : ¬ Calling a)
    (hsame : a'.seat = a.seat) (hgo : RoomsGo s rooms' os) (hcalls : rooms'.calls = s.rooms.calls)
    (hos : ∀ j, seats_of j os = []) :
    Lawful parse (log ++ [(input, os)])
      ({ s with rooms := rooms', leases := leases' }.set i a') where
  tidy := h.tidy.acts here hacts
  accounted := hgo.accounted
  lengths := h.lengths.trans (congrArg List.length hcalls.symm)
  nodup := h.nodup
  sessions := h.sessions_set here ((h.sessions i a here).alone (h.tidy.kept i a here) hacts halone
    hgo.names hsame) (List.subset_append_left _ _) hgo.names
  calls j p hbeside := by
    have hbefore : Beside s.callers s.rooms.calls j p := by
      rw [← hcalls]
      exact hbeside
    exact h.calls_set (List.subset_append_left _ _) hgo.names hbefore
      (h.alone_ne here halone hbefore)
  queued := h.queued_step hgo
  seats := h.seats_set here (.inl ⟨hsame, hos⟩)

/-- A session begins a call of the rooms. -/
theorem Lawful.began (h : Lawful parse log s) {p : Pending} (here : s.sessions[i]? = some a)
    (hacts : Acts parse input s.leases i a s.leases a') (halone : ¬ Calling a)
    (hsame : a'.seat = a.seat) (hgo : RoomsGo s rooms' os)
    (hcalls : rooms'.calls = s.rooms.calls ++ [p])
    (hserves : Serves parse (log ++ [(input, os)]) rooms'.match_of i a' p)
    (hos : ∀ j, seats_of j os = []) :
    Lawful parse (log ++ [(input, os)])
      ({ s with rooms := rooms', callers := s.callers ++ [i] }.set i a') where
  tidy := h.tidy.acts here hacts
  accounted := hgo.accounted
  lengths := by
    show (s.callers ++ [i]).length = rooms'.calls.length
    rw [hcalls, List.length_append, List.length_append, h.lengths]
    rfl
  nodup := by
    show (s.callers ++ [i]).Nodup
    rw [List.nodup_append_comm]
    exact List.nodup_cons.mpr ⟨h.alone_notMem here halone, h.nodup⟩
  sessions := h.sessions_set here ((h.sessions i a here).alone (h.tidy.kept i a here) hacts halone
    hgo.names hsame) (List.subset_append_left _ _) hgo.names
  calls j q hbeside := by
    have hbeside : Beside (s.callers ++ [i]) (s.rooms.calls ++ [p]) j q := by
      rw [← hcalls]
      exact hbeside
    rcases beside_append h.lengths hbeside with hbefore | ⟨rfl, rfl⟩
    · exact h.calls_set (List.subset_append_left _ _) hgo.names hbefore
        (h.alone_ne here halone hbefore)
    · exact ⟨a', List.getElem?_set_self (List.getElem?_eq_some_iff.mp here).1, hserves⟩
  queued := h.queued_step hgo
  seats := h.seats_set here (.inl ⟨hsame, hos⟩)

/-! ## Calls -/

theorem Asks.alone {op : RoomManager.Op} (h : Asks parse input i a op) : ¬ Calling a := by
  cases h with
  | join_any user connection free seatless pending => exact free.alone
  | create_room user key connection free seatless pending => exact free.alone
  | join_room user name connection free seatless pending => exact free.alone
  | enqueue seat message free seated plays said => exact free.alone
  | on_disconnect seat free seated => exact free.alone

theorem Asks.not_proceed {op : RoomManager.Op} (h : Asks parse input i a op) (call : Nat) :
    op ≠ .proceed call := by
  cases h <;> simp

/-- The call of a session is for that session. -/
theorem Asks.serves {op : RoomManager.Op} {p : Pending} (h : Asks parse input i a op)
    (ha : s.rooms.Accounted) (hnames : NamesStay s.rooms.match_of matches')
    (hp : RoomManager.Begins s.rooms op p ∨ ∃ seat, op = .on_disconnect seat ∧ p = .leave seat)
    (hseat : a'.seat = a.seat) (hpending : a'.pending = a.pending)
    (hbusy : a'.stage = busy_stage op) :
    Serves parse (log ++ [(input, os)]) matches' i a' p := by
  have hasks : ∀ user, a.pending = some user → RoomManager.asker op = some user.username →
      busy_stage op = .seating none → RoomManager.Begins s.rooms op p →
      Serves parse (log ++ [(input, os)]) matches' i a' p := by
    intro user huser hasker hseating hbegins
    refine ⟨.inl ⟨none, hbusy.trans hseating⟩, ?_, ?_⟩
    · intro id color message hp
      rw [hp] at hbegins
      cases hbegins
      cases hasker
    · intro earlier hstage
      refine ⟨user, hpending.trans huser, ?_⟩
      exact (hbegins.made_for ha hasker).mono fun id color => hnames id color user.username
  rcases hp with hbegins | ⟨seat, rfl, rfl⟩
  · cases h with
    | join_any user connection free seatless pending => exact hasks user pending rfl rfl hbegins
    | create_room user key connection free seatless pending =>
        exact hasks user pending rfl rfl hbegins
    | join_room user name connection free seatless pending =>
        exact hasks user pending rfl rfl hbegins
    | enqueue seat message free seated plays said =>
        refine ⟨.inr (.inl hbusy), ?_, ?_⟩
        · intro id color message' hp
          rw [hp] at hbegins
          cases hbegins
          have hsaid : HasSaid parse (log ++ [(input, os)]) i message :=
            ⟨(input, os), List.mem_append_right _ (List.mem_singleton_self _), said⟩
          exact ⟨hbusy, hsaid, seat, hseat.trans seated, plays, rfl, rfl⟩
        · intro earlier hstage
          cases hbusy.symm.trans hstage
    | on_disconnect seat free seated => cases hbegins
  · refine ⟨.inr (.inr hbusy), ?_, ?_⟩
    · intro id color message hp
      cases hp
    · intro earlier hstage
      cases hbusy.symm.trans hstage

theorem hear_seat (a : ClientSession) (answer : Option Answer) : (a.hear answer).seat = a.seat := by
  unfold ClientSession.hear
  split <;> rfl

theorem hear_pending (a : ClientSession) (answer : Option Answer) :
    (a.hear answer).pending = a.pending := by
  unfold ClientSession.hear
  split <;> rfl

/-- What a session hears does not take it out of its call. -/
theorem hear_calling {answer : Option Answer} (h : Calling a) : Calling (a.hear answer) := by
  rcases h with ⟨earlier, hstage⟩ | hstage | hstage
  · refine .inl ⟨earlier.or answer, ?_⟩
    rw [ClientSession.hear, hstage]
  · right
    left
    rw [ClientSession.hear, hstage]
    exact hstage
  · right
    right
    rw [ClientSession.hear, hstage]
    exact hstage

theorem hear_stage {answer later : Option Answer} (h : (a.hear answer).stage = .seating later) :
    ∃ earlier, a.stage = .seating earlier ∧ later = earlier.or answer := by
  unfold ClientSession.hear at h
  split at h
  · exact ⟨_, ‹_›, (Stage.seating.inj h).symm⟩
  · rename_i hnot
    exact absurd h (hnot later)

/-- The rest of a call serves whom the call serves. -/
theorem Serves.goes {p q : Pending} {rest : RoomManager.Rest} {answer : Option Answer}
    (h : Serves parse log matches_ i a p) (hgoes : RoomManager.Goes matches_ p rest matches')
    (hq : rest.call = some q) (hlater : RoomManager.later q = true) :
    Serves parse log' matches' i (a.hear answer) q where
  calling := hear_calling h.calling
  plays id color message hp := by
    rw [hp] at hlater
    cases hlater
  seeks earlier hstage := by
    obtain ⟨before, hbefore, -⟩ := hear_stage hstage
    obtain ⟨user, huser, hmade⟩ := h.seeks before hbefore
    exact ⟨user, (hear_pending a answer).trans huser, hmade.goes hgoes hq hlater⟩

/-- The pending call whose turn it is. -/
theorem Lawful.pending (h : Lawful parse log s) {call : Nat} (caller : s.callers[call]? = some i)
    (here : s.sessions[i]? = some a) :
    ∃ p, s.rooms.calls[call]? = some p ∧ Serves parse log s.rooms.match_of i a p := by
  obtain ⟨hlt, -⟩ := List.getElem?_eq_some_iff.mp caller
  rw [h.lengths] at hlt
  have hp := List.getElem?_eq_getElem hlt
  obtain ⟨b, hb, hserves⟩ := h.calls i _ ⟨call, caller, hp⟩
  obtain rfl := Option.some.inj (here.symm.trans hb)
  exact ⟨_, hp, hserves⟩

/-- A call is back when there is no part of it left. -/
theorem call_left {call : Nat} {calls calls' : List Pending} {rest : RoomManager.Rest}
    (hlt : call < calls.length) (hcalls : calls' = calls.eraseIdx call ++ rest.call.toList) :
    calls'.length = calls.length ↔ ∃ q, rest = .goes_on q := by
  rw [hcalls, List.length_append, List.length_eraseIdx_of_lt hlt]
  cases rest with
  | goes_on q =>
      simp only [RoomManager.Rest.call, Option.toList_some, List.length_singleton]
      refine iff_of_true ?_ ⟨q, rfl⟩
      omega
  | nothing | returns seat =>
      simp only [RoomManager.Rest.call, Option.toList_none, List.length_nil]
      refine iff_of_false ?_ ?_
      · omega
      · simp

/-- A seat comes only to who waits for one, and it is the one that the part has granted. -/
theorem Serves.granted {p : Pending} {rest : RoomManager.Rest} {rs : List RoomEvent} {seat : Seat}
    (h : Serves parse log matches_ i a p) (hmine : Rightful parse log matches_ i a)
    (hgoes : RoomManager.Goes matches_ p rest matches')
    (hreturned : RoomManager.returned rs = rest.seat) (hasking : Asking a)
    (hanswer : heard a (answer_of rs) = some (.seat seat)) :
    a.seat = none ∧ (seat.spectator = false → ∃ user, a.pending = some user ∧
      RoomManager.Named matches' seat.room seat.color user.username) := by
  obtain ⟨earlier, hstage⟩ : ∃ earlier, a.stage = .seating earlier := by
    rcases hasking with ⟨hfree, -⟩ | hstage
    · exact absurd h.calling hfree.alone
    · exact hstage
  obtain ⟨hseatless, hunanswered⟩ := hmine.waiting earlier hstage
  refine ⟨hseatless, ?_⟩
  intro hplays
  rw [heard, hstage] at hanswer
  have hnow : answer_of rs = some (.seat seat) := by
    rcases Option.or_eq_some_iff.mp hanswer with hbefore | ⟨-, hnow⟩
    · exact absurd hbefore (hunanswered seat)
    · exact hnow
  obtain ⟨user, huser, hmade⟩ := h.seeks earlier hstage
  refine ⟨user, huser, hmade.granted hgoes ?_ hplays⟩
  have hseat : rest.seat = some seat := hreturned.symm.trans (returned_of_answer hnow)
  rw [RoomManager.Rest.granted, hseat]
  rfl

/-- A call goes on. -/
theorem Lawful.waits (h : Lawful parse log s) {call : Nat} {r : RoomManager × List RoomEvent}
    (caller : s.callers[call]? = some i) (here : s.sessions[i]? = some a)
    (hexec : RoomManager.exec s.rooms (.proceed call) = .ok r)
    (hlen : r.1.calls.length = s.rooms.calls.length) :
    Lawful parse (log ++ [(input, s.deliveries i call ++ r.2.map .of_rooms)])
      ({ s with rooms := r.1, callers := s.callers.eraseIdx call ++ [i] }.set i
        (a.hear (answer_of r.2))) := by
  obtain ⟨p, hp, hserves⟩ := h.pending caller here
  obtain ⟨rest, hgoes, hreturned, hcalls, hfollows⟩ := RoomManager.exec_goes hexec hp
  have hgo := rooms_proceed h.accounted hexec i (r.2.map .of_rooms)
  have hlt : call < s.rooms.calls.length := (List.getElem?_eq_some_iff.mp hp).1
  have hlt' : call < s.callers.length := (List.getElem?_eq_some_iff.mp caller).1
  -- the call is not back, so there is more of it, and no seat yet
  obtain ⟨q, hrest⟩ := (call_left hlt hcalls).mp hlen
  have hq : rest.call = some q := by rw [hrest]; rfl
  have hnone : ∀ seat, answer_of r.2 ≠ some (.seat seat) := by
    intro seat hanswer
    have hseat := hreturned.symm.trans (returned_of_answer hanswer)
    rw [hrest] at hseat
    cases hseat
  have hacts : Acts parse input s.leases i a s.leases (a.hear (answer_of r.2)) := .waits _
  have hrightful : Rightful parse (log ++ [(input, s.deliveries i call ++ r.2.map .of_rooms)])
      r.1.match_of i (a.hear (answer_of r.2)) := by
    refine (h.sessions i a here).acts (h.tidy.kept i a here) hacts hgo.names
      (.inl (hear_seat a _)) ?_
    intro later hstage
    obtain ⟨earlier, hearlier, rfl⟩ := hear_stage hstage
    obtain ⟨hseat, hunanswered⟩ := (h.sessions i a here).waiting earlier hearlier
    refine ⟨(hear_seat a _).trans hseat, ?_⟩
    intro seat hor
    rcases Option.or_eq_some_iff.mp hor with hbefore | ⟨-, hnow⟩
    · exact hunanswered seat hbefore
    · exact hnone seat hnow
  exact {
    tidy := h.tidy.acts here hacts
    accounted := hgo.accounted
    lengths := by
      show (s.callers.eraseIdx call ++ [i]).length = r.1.calls.length
      rw [hlen, ← h.lengths, List.length_append, List.length_eraseIdx_of_lt hlt']
      simp only [List.length_singleton]
      omega
    nodup := by
      show (s.callers.eraseIdx call ++ [i]).Nodup
      exact nodup_take h.nodup caller
    sessions := h.sessions_set here hrightful (List.subset_append_left _ _) hgo.names
    calls := by
      intro j q' hbeside
      have hbeside : Beside (s.callers.eraseIdx call ++ [i]) (s.rooms.calls.eraseIdx call ++ [q])
          j q' := by
        rw [hq] at hcalls
        rw [← Option.toList_some q, ← hcalls]
        exact hbeside
      have hlens : (s.callers.eraseIdx call).length = (s.rooms.calls.eraseIdx call).length := by
        rw [List.length_eraseIdx, List.length_eraseIdx, h.lengths]
      rcases beside_append hlens hbeside with hbefore | ⟨rfl, rfl⟩
      · obtain ⟨hbefore, hj⟩ := beside_eraseIdx h.nodup caller hbefore
        exact h.calls_set (List.subset_append_left _ _) hgo.names hbefore hj
      · exact ⟨_, List.getElem?_set_self (List.getElem?_eq_some_iff.mp here).1,
          hserves.goes hgoes hq (hfollows _ hq)⟩
    queued := h.queued_step hgo
    seats := h.seats_set here (.inl ⟨hear_seat a _, by simp⟩) }

/-- A call is back, and with it the seat that was asked for, or none. -/
theorem Lawful.comes_back (h : Lawful parse log s) {call : Nat}
    {r : RoomManager × List RoomEvent} (caller : s.callers[call]? = some i)
    (here : s.sessions[i]? = some a) (hexec : RoomManager.exec s.rooms (.proceed call) = .ok r)
    (hlen : r.1.calls.length ≠ s.rooms.calls.length)
    (hacts : Acts parse input s.leases i a s.leases a') (hback : ¬ Calling a')
    (hsettled : Settled i a a' (heard a (answer_of r.2)) os) :
    Lawful parse (log ++ [(input, s.deliveries i call ++ r.2.map .of_rooms ++ os)])
      ({ s with rooms := r.1, callers := s.callers.eraseIdx call }.set i a') := by
  obtain ⟨p, hp, hserves⟩ := h.pending caller here
  obtain ⟨rest, hgoes, hreturned, hcalls, hfollows⟩ := RoomManager.exec_goes hexec hp
  have hlt : call < s.rooms.calls.length := (List.getElem?_eq_some_iff.mp hp).1
  have hgo : RoomsGo s r.1 (s.deliveries i call ++ r.2.map .of_rooms ++ os) := by
    rw [List.append_assoc]
    exact rooms_proceed h.accounted hexec i _
  have hmine := h.sessions i a here
  have hrest : rest.call = none := by
    cases rest with
    | goes_on q => exact absurd ((call_left hlt hcalls).mpr ⟨q, rfl⟩) hlen
    | nothing | returns seat => rfl
  have hgranted : ∀ seat, Asking a → heard a (answer_of r.2) = some (.seat seat) →
      a.seat = none ∧ (seat.spectator = false → ∃ user, a.pending = some user ∧
        RoomManager.Named r.1.match_of seat.room seat.color user.username) := by
    intro seat
    exact hserves.granted hmine hgoes hreturned
  have hrightful : Rightful parse
      (log ++ [(input, s.deliveries i call ++ r.2.map .of_rooms ++ os)]) r.1.match_of i a' := by
    refine hmine.acts (h.tidy.kept i a here) hacts hgo.names ?_ ?_
    · rcases hsettled with ⟨hsame, -⟩ | ⟨seat, hasking, hanswer, hseat, -⟩
      · exact .inl hsame
      · exact .inr ⟨seat, hseat, (hgranted seat hasking hanswer).2⟩
    · intro earlier hstage
      exact absurd (.inl ⟨earlier, hstage⟩) hback
  exact {
    tidy := h.tidy.acts here hacts
    accounted := hgo.accounted
    lengths := by
      show (s.callers.eraseIdx call).length = r.1.calls.length
      rw [hcalls, hrest, List.length_eraseIdx, h.lengths, List.length_append, List.length_eraseIdx]
      rfl
    nodup := h.nodup.eraseIdx call
    sessions := h.sessions_set here hrightful (List.subset_append_left _ _) hgo.names
    calls := by
      intro j q hbeside
      have hbeside : Beside (s.callers.eraseIdx call) (s.rooms.calls.eraseIdx call) j q := by
        rw [hrest, Option.toList_none, List.append_nil] at hcalls
        rw [← hcalls]
        exact hbeside
      obtain ⟨hbefore, hj⟩ := beside_eraseIdx h.nodup caller hbeside
      exact h.calls_set (List.subset_append_left _ _) hgo.names hbefore hj
    queued := h.queued_step hgo
    seats := by
      refine h.seats_set here ?_
      rcases hsettled with ⟨hsame, hquiet⟩ | ⟨seat, hasking, hanswer, hseat, rfl⟩
      · exact .inl ⟨hsame, fun j => by simp [hquiet.seats_of]⟩
      · refine .inr ⟨(hgranted seat hasking hanswer).1, ?_⟩
        intro j
        rw [hseat]
        by_cases hj : i = j
        · simp [hj]
        · simp [hj] }

/-! ## Runs -/

/-- **The step lemma.** -/
theorem Lawful.exec {s s' : Server} (h : Lawful parse log s)
    (hexec : exec parse s input = .ok (s', os)) : Lawful parse (log ++ [(input, os)]) s' := by
  have hrest := fun os => rooms_rest h.accounted os
  cases exec_does hexec with
  | nothing hushed => exact h.aside h.tidy (hrest os) rfl hushed.seats_of
  | connects connection => exact h.connects connection
  | leases op => exact h.aside (h.tidy.leases op) (hrest []) rfl fun _ => rfl
  | acts here acts alone same hushed =>
      exact h.acts here acts alone same (hrest os) rfl hushed.seats_of
  | @rooms op r exec other =>
      have hop : ∀ call, op ≠ .proceed call := by
        rcases other with ⟨room, now, elapsed_ms, rfl⟩ | ⟨name, owner, rfl⟩
        · simp
        · simp
      have hcalls : r.1.calls = s.rooms.calls := by
        rcases RoomManager.exec_begins exec hop with ⟨-, hsame | ⟨p, -, hp⟩⟩
        · exact hsame
        · -- neither a tick nor a change of the directory is a call
          rcases other with ⟨room, now, elapsed_ms, rfl⟩ | ⟨name, owner, rfl⟩
          · rcases hp with hbegins | ⟨seat, hop, -⟩
            · cases hbegins
            · cases hop
          · rcases hp with hbegins | ⟨seat, hop, -⟩
            · cases hbegins
            · cases hop
      exact h.aside h.tidy (rooms_go h.accounted exec hop _) hcalls (by simp)
  | @answered i a a' op r os here asks exec at_once acts settled =>
      obtain ⟨hreturned, hcalls⟩ := RoomManager.exec_begins exec asks.not_proceed
      have hsame : r.1.calls = s.rooms.calls := by
        rcases hcalls with hsame | ⟨p, hmore, -⟩
        · exact hsame
        · rw [hmore, List.length_append, List.length_singleton] at at_once
          omega
      rcases settled with ⟨hseat, hquiet⟩ | ⟨seat, -, hanswer, -⟩
      · exact h.acts here acts asks.alone hseat (rooms_go h.accounted exec asks.not_proceed _) hsame
          (by simp [hquiet.seats_of])
      · -- no call gives a seat at once
        rw [returned_of_answer hanswer] at hreturned
        cases hreturned
  | began here asks exec pending acts same busy =>
      obtain ⟨-, hsame | ⟨p, hcalls, hp⟩⟩ := RoomManager.exec_begins exec asks.not_proceed
      · exact absurd (congrArg List.length hsame) pending
      · have hgo := fun os => rooms_go h.accounted exec asks.not_proceed os
        exact h.began here acts asks.alone same.1 (hgo _) hcalls
          (asks.serves h.accounted (hgo []).names hp same.1 same.2 busy) (by simp)
  | waits caller here exec pending => exact h.waits caller here exec pending
  | comes_back caller here exec finished acts returned settled =>
      exact h.comes_back caller here exec finished acts returned settled

/-- **Everything is somebody's, in every state reached.** -/
theorem lawful_of_reach {board_factory : RoomId → Board} {config : MotionFactory}
    {on_result : Bool} {disconnect_grace_ms : Int} {directory : Option (String → Option String)}
    {self_url : String} {s : Server} {log : Log}
    (hr : Reach (logged (exec parse)) anyStep (new (.new board_factory config on_result
      disconnect_grace_ms directory self_url)) s log) : Lawful parse log s := by
  refine Reach.invariant (P := fun s log => Lawful parse log s) ?_ ?_ hr
  · exact lawful_new board_factory config on_result disconnect_grace_ms directory self_url
  · intro s log input s' entries _ h _ hstep
    obtain ⟨os, hexec, rfl⟩ := logged_ok_iff.mp hstep
    exact h.exec hexec

/-- Where it comes from that a session calls the rooms, and that something reaches a
match. -/
def Explained (parse : String → Option Json) (input : Op) (s : Server) : ServerEvent → Prop
  | .called i op => ∃ a, s.sessions[i]? = some a ∧ Asks parse input i a op
  | .delivered i id color message => ∃ call : Nat, s.callers[call]? = some i ∧
      s.rooms.calls[call]? = some (.enqueue id color message)
  | _ => True

theorem explained_hushed (hquiet : Hushed os) : ∀ e ∈ os, Explained parse input s e := by
  intro e he
  have hsilent := hquiet e he
  cases e with
  | called i op => exact hsilent.elim
  | delivered i id color message => exact hsilent.elim
  | _ => trivial

theorem explained_settled {answer : Option Answer} (h : Settled i a a' answer os) :
    ∀ e ∈ os, Explained parse input s e := by
  rcases h with ⟨-, hquiet⟩ | ⟨seat, -, -, -, rfl⟩
  · exact explained_hushed hquiet
  · intro e he
    rw [List.mem_singleton.mp he]
    trivial

theorem explained_rooms (os : List RoomEvent) :
    ∀ e ∈ os.map ServerEvent.of_rooms, Explained parse input s e := by
  intro e he
  obtain ⟨event, -, rfl⟩ := List.mem_map.mp he
  trivial

theorem explained_deliveries {call : Nat} (caller : s.callers[call]? = some i) :
    ∀ e ∈ s.deliveries i call, Explained parse input s e := by
  intro e he
  unfold deliveries at he
  split at he
  · split_ifs at he
    · rw [List.mem_singleton.mp he]
      exact ⟨call, caller, ‹_›⟩
    · cases he
  · cases he

theorem does_explained {s' : Server} (h : Does parse input s s' os) :
    ∀ e ∈ os, Explained parse input s e := by
  cases h with
  | nothing hushed => exact explained_hushed hushed
  | connects connection => simp
  | leases op => simp
  | acts here acts alone same hushed => exact explained_hushed hushed
  | rooms exec other => exact explained_rooms _
  | answered here asks exec at_once acts settled =>
      rw [List.cons_append, List.forall_mem_cons, List.forall_mem_append]
      exact ⟨⟨_, here, asks⟩, explained_rooms _, explained_settled settled⟩
  | began here asks exec pending acts same busy =>
      rw [List.forall_mem_cons]
      exact ⟨⟨_, here, asks⟩, explained_rooms _⟩
  | waits caller here exec pending =>
      rw [List.forall_mem_append]
      exact ⟨explained_deliveries caller, explained_rooms _⟩
  | comes_back caller here exec finished acts returned settled =>
      rw [List.forall_mem_append, List.forall_mem_append]
      exact ⟨⟨explained_deliveries caller, explained_rooms _⟩, explained_settled settled⟩

/-- **A command only ever acts for the account that owns the seat.** In every step that
a server takes from a state it reaches, whatever its sessions do in between and in
whatever order the parts of their calls, the matches and the other holders of leases go
on: what a match is given to queue under a colour comes from a session that has sent it,
has logged in, and holds the lease of the username that the match has for the colour; a
match queues nothing else; only a session that is logged in and has a player's seat
calls `RoomManager::enqueue`, with the room and the colour of that seat; a session gets
at most one seat; and what a command starts to move is of the colour it came under. -/
theorem commands_of_the_owner {board_factory : RoomId → Board} {config : MotionFactory}
    {on_result : Bool} {disconnect_grace_ms : Int} {directory : Option (String → Option String)}
    {self_url : String} {s s' : Server} {log : Log} {input : Op} {os : List ServerEvent}
    (hr : Reach (logged (exec parse)) anyStep (new (.new board_factory config on_result
      disconnect_grace_ms directory self_url)) s log)
    (hexec : exec parse s input = .ok (s', os)) :
    (∀ i id color message, .delivered i id color message ∈ os → ∃ a user m,
      s.sessions[i]? = some a ∧ HasSaid parse log i message ∧
      a.pending = some user ∧ HasLoggedIn parse log i user ∧
      s.leases.Holds (.username_lease i) user.username ∧
      s.rooms.match_of id = some m ∧ (m.audience.player color).isSome ∧
      m.audience.username_of color = user.username) ∧
    (∀ id m command, s.rooms.match_of id = some m → command ∈ m.queue →
      ∃ i, .delivered i id command.1 command.2 ∈ emitted log) ∧
    (∀ i id color message, .called i (.enqueue id color message) ∈ os → ∃ a user seat,
      s.sessions[i]? = some a ∧ a.life = .opened ∧ a.pending = some user ∧
      HasLoggedIn parse log i user ∧ a.seat = some seat ∧ seat.spectator = false ∧
      seat.room = id ∧ seat.color = color) ∧
    (∀ i, (seats_of i (emitted log ++ os)).length ≤ 1) ∧
    ∀ (m m' : Match) (source : PieceColor) (message : ClientMessage) (answers : List MatchEvent),
      m.apply source message = .ok (m', answers) → Match.Begun source m.engine m'.engine := by
  have h := lawful_of_reach hr
  have hexplained := does_explained (exec_does hexec)
  refine ⟨?_, h.queued, ?_, ?_, ?_⟩
  · intro i id color message hin
    obtain ⟨call, caller, hp⟩ := hexplained _ hin
    obtain ⟨a, here, hserves⟩ := h.calls i _ ⟨call, caller, hp⟩
    obtain ⟨hstage, hsaid, seat, hseat, hplays, rfl, rfl⟩ := hserves.plays id color message rfl
    obtain ⟨user, huser, m, hm, hplayer, hname⟩ := (h.sessions i a here).seated seat hseat hplays
    have hkept := h.tidy.kept i a here
    have hopen : a.life = .opened := (hkept.enqueueing hstage).2.2
    exact ⟨a, user, m, here, hsaid, huser, (h.sessions i a here).known user (.inl huser),
      hkept.holds hopen huser, hm, hplayer, hname⟩
  · intro i id color message hin
    obtain ⟨a, here, hasks⟩ := hexplained _ hin
    cases hasks with
    | enqueue seat message free seated plays said =>
        obtain ⟨user, huser, -⟩ := (h.sessions i a here).seated seat seated plays
        exact ⟨a, user, seat, here, free.1, huser, (h.sessions i a here).known user (.inl huser),
          seated, plays, rfl, rfl⟩
  · intro i
    have hseats := (h.exec hexec).seats i
    rw [emitted_append, emitted_singleton] at hseats
    rw [hseats, MatchAudience.length_toList]
    split_ifs <;> simp
  · intro m m' source message answers happly
    exact Match.apply_begun happly

def play_text : String := "\x7b\"payload\":\x7b\x7d,\"type\":\"Play\"\x7d"

def jump_text : String :=
  "\x7b\"payload\":\x7b\"cell\":\x7b\"col\":0,\"row\":0\x7d\x7d,\"type\":\"Jump\"\x7d"

/-- Three texts that a client of alice sends. -/
def parse_alice (text : String) : Option Json :=
  if text = login_text then some (ClientMessage.Login "alice" "secret").to_json
  else if text = play_text then some ClientMessage.Play.to_json
  else if text = jump_text then some (ClientMessage.JumpRequest ⟨0, 0⟩).to_json
  else none

/-- She logs in, is seated as White and asks for a jump. -/
def alice_jumps : List Op :=
  [.connect ⟨1⟩, .on_text 0 login_text ⟨0, true, ⟨true, "", 1200⟩, ""⟩, .go_on 0 "", .go_on 0 "",
    .go_on 0 "", .go_on 0 "", .on_text 0 play_text ⟨0, true, {}, ""⟩, .proceed 0,
    .on_text 0 jump_text ⟨0, true, {}, ""⟩]

/-- The jump reaches the match, and the account that White plays for has sent it. -/
theorem the_jump_is_delivered : ∃ s log s' os,
    run (logged (exec parse_alice))
      (new (.new (fun _ => three_on_a_row) shipped_factory true 20000 none "")) alice_jumps
      = .ok (s, log) ∧
    exec parse_alice s (.proceed 0) = .ok (s', os) ∧
    ServerEvent.delivered 0 1 .White (.JumpRequest ⟨0, 0⟩) ∈ os ∧
    HasSaid parse_alice log 0 (.JumpRequest ⟨0, 0⟩) ∧
    ∃ user m, HasLoggedIn parse_alice log 0 user ∧
      s.leases.Holds (.username_lease 0) user.username ∧ s.rooms.match_of 1 = some m ∧
      m.audience.username_of .White = user.username := by
  obtain ⟨⟨s, log⟩, hrun, hseen⟩ := exists_ok_such
    (p := fun r => (exec parse_alice r.1 (.proceed 0)).toOption.any
      fun r' : Server × List ServerEvent =>
        decide (ServerEvent.delivered 0 1 .White (.JumpRequest ⟨0, 0⟩) ∈ r'.2))
    (x := run (logged (exec parse_alice))
      (new (.new (fun _ => three_on_a_row) shipped_factory true 20000 none "")) alice_jumps)
    (by decide)
  obtain ⟨⟨s', os⟩, hexec, hdelivered⟩ := exists_ok_such hseen
  have hin := of_decide_eq_true hdelivered
  obtain ⟨a, user, m, -, hsaid, -, hlogged, hholds, hm, -, hname⟩ :=
    (commands_of_the_owner (reach_of_run hrun) hexec).1 0 1 .White _ hin
  exact ⟨s, log, s', os, hrun, hexec, hin, hsaid, user, m, hlogged, hholds, hm, hname⟩

end Server

end KungFuChess
