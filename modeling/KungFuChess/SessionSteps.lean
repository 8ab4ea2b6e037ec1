/-
**What a step of a session does.**

`Acts` lists what one session and the leases go through, stage by stage; `Does` adds
the rooms, whose call the session may be in, and what is seen of it. `exec_does` reads
a step of the server as one of these, and later proofs go by their cases.
-/
import KungFuChess.ClientSession
import KungFuChess.Holders

set_option autoImplicit false

namespace KungFuChess

open Machine

namespace Server

/-- The same session, but for its count of messages. -/
def Counted (a b : ClientSession) : Prop :=
  b = { a with
    rate_window_start := b.rate_window_start
    messages_in_window := b.messages_in_window }

theorem counted_message (a : ClientSession) (now : Int) : Counted a (a.count_message now) := by
  unfold Counted ClientSession.count_message
  split_ifs <;> rfl

/-- The session begins a call. -/
def Free (a : ClientSession) : Prop := a.life = .opened ∧ a.stage = .idle

/-- It asks for a seat: it is logged in and has none. -/
def Seatless (a : ClientSession) : Prop := a.pending.isSome ∧ a.seat = none

/-- It is about to ask for a seat, or has asked. -/
def Asking (a : ClientSession) : Prop :=
  (Free a ∧ Seatless a) ∨ ∃ earlier, a.stage = .seating earlier

/-- The input is a message that a session sends. -/
def Said (parse : String → Option Json) (input : Op) (i : SessionId) (message : ClientMessage) :
    Prop :=
  ∃ text outside, input = .on_text i text outside ∧
    decode_client_message parse text = some message

/-- The input is a login that the user store vouches for. -/
def LogsIn (parse : String → Option Json) (input : Op) (i : SessionId) (user : AuthedUser) :
    Prop :=
  ∃ text outside password, input = .on_text i text outside ∧
    decode_client_message parse text = some (.Login user.username password) ∧
    outside.auth.ok = true ∧ outside.auth.rating = user.rating

/-- A call of the rooms is under way. -/
def Calling (a : ClientSession) : Prop :=
  (∃ earlier, a.stage = .seating earlier) ∨ a.stage = .enqueueing ∨ a.stage = .leaving

/-- **What becomes of a session** and of the leases. -/
inductive Acts (parse : String → Option Json) (input : Op) (leases : SessionRegistry)
    (i : SessionId) (a : ClientSession) : SessionRegistry → ClientSession → Prop
  | listens {b : ClientSession} (free : Free a) (same : Counted a b) :
      Acts parse input leases i a leases b
  | asks {b : ClientSession} (user : AuthedUser) (free : Free a) (same : Counted a b)
      (stranger : a.authenticated = false) (vouched : LogsIn parse input i user) :
      Acts parse input leases i a leases { b with stage := .claiming user }
  | claims (user : AuthedUser) (stage : a.stage = .claiming user)
      (free : (leases.claim (.login i) user.username).2 = true) :
      Acts parse input leases i a (leases.claim (.login i) user.username).1
        { a with stage := .claimed user }
  | turned_away (user : AuthedUser) (stage : a.stage = .claiming user) :
      Acts parse input leases i a leases { a with stage := .idle }
  | moves (user : AuthedUser) (left : String) (stage : a.stage = .claimed user) :
      Acts parse input leases i a (leases.assign (.username_lease i) (.login i) left)
        { a with stage := .holding user }
  | enters (user : AuthedUser) (stage : a.stage = .holding user) :
      Acts parse input leases i a leases { a with pending := some user, stage := .unwinding }
  | unwinds (stage : a.stage = .unwinding) :
      Acts parse input leases i a (leases.destroy (.login i)) { a with stage := .idle }
  | seeks {b : ClientSession} (free : Free a) (same : Counted a b) (seatless : Seatless a) :
      Acts parse input leases i a leases { b with stage := .seating none }
  | waits (answer : Option Answer) : Acts parse input leases i a leases (a.hear answer)
  | sits {b : ClientSession} (seat : Seat) (same : Counted a b) (asking : Asking a) :
      Acts parse input leases i a leases { b with seat := some seat, stage := .idle }
  | stands {b : ClientSession} (same : Counted a b) (asking : Asking a) :
      Acts parse input leases i a leases { b with stage := .idle }
  | plays {b : ClientSession} (free : Free a) (same : Counted a b) (seated : a.seat.isSome) :
      Acts parse input leases i a leases { b with stage := .enqueueing }
  | played (stage : a.stage = .enqueueing) :
      Acts parse input leases i a leases { a with stage := .idle }
  | closes (stage : Stage) (free : Free a) (next : stage = .leaving ∨ stage = .releasing)
      (about : input = .on_close i) :
      Acts parse input leases i a leases { a with life := .closed, stage := stage }
  | left (stage : a.stage = .leaving) :
      Acts parse input leases i a leases { a with stage := .releasing }
  | releases (stage : a.stage = .releasing) :
      Acts parse input leases i a (leases.destroy (.username_lease i)) { a with stage := .idle }
  | ends (there : a.life ≠ .destroyed) (stage : a.stage = .idle) (about : input = .destroy i) :
      Acts parse input leases i a (leases.destroy (.username_lease i)) { a with life := .destroyed }

/-- Nobody plays, calls the rooms or is given a seat. -/
def Hushed (os : List ServerEvent) : Prop := ∀ e ∈ os, match e with
  | .sent _ _ | .dropped _ => True
  | _ => False

/-- What a session asks of the rooms. -/
inductive Asks (parse : String → Option Json) (input : Op) (i : SessionId) (a : ClientSession) :
    RoomManager.Op → Prop
  | join_any (user : AuthedUser) (connection : Connection) (free : Free a)
      (seatless : a.seat = none) (pending : a.pending = some user) :
      Asks parse input i a (.join_any user.username user.rating connection)
  | create_room (user : AuthedUser) (key : String) (connection : Connection) (free : Free a)
      (seatless : a.seat = none) (pending : a.pending = some user) :
      Asks parse input i a (.create_room key user.username user.rating connection)
  | join_room (user : AuthedUser) (name : String) (connection : Connection) (free : Free a)
      (seatless : a.seat = none) (pending : a.pending = some user) :
      Asks parse input i a (.join_room name user.username user.rating connection)
  | enqueue (seat : Seat) (message : ClientMessage) (free : Free a) (seated : a.seat = some seat)
      (plays : seat.spectator = false) (said : Said parse input i message) :
      Asks parse input i a (.enqueue seat.room seat.color message)
  | on_disconnect (seat : Seat) (free : Free a) (seated : a.seat = some seat) :
      Asks parse input i a (.on_disconnect seat)

/-- The stage of a session whose call is under way. -/
def busy_stage : RoomManager.Op → Stage
  | .enqueue _ _ _ => .enqueueing
  | .on_disconnect _ => .leaving
  | _ => .seating none

/-- What is seen when a call of the rooms is back: the seat that was asked for, or
nothing. -/
def Settled (i : SessionId) (a a' : ClientSession) (answer : Option Answer)
    (os : List ServerEvent) : Prop :=
  (a'.seat = a.seat ∧ Hushed os) ∨ ∃ seat, Asking a ∧ answer = some (.seat seat) ∧
    a'.seat = some seat ∧ os = [.seated i seat]

/-- The answer there was before, or the one that is there now. -/
def heard (a : ClientSession) (answer : Option Answer) : Option Answer :=
  match a.stage with
  | .seating earlier => earlier.or answer
  | _ => answer

/-- **What a step does.** -/
inductive Does (parse : String → Option Json) (input : Op) (s : Server) :
    Server → List ServerEvent → Prop
  | nothing {os : List ServerEvent} (hushed : Hushed os) : Does parse input s s os
  | connects (connection : Connection) :
      Does parse input s { s with sessions := s.sessions ++ [{ connection := connection }] } []
  | leases (op : Leases.Op Nat String) :
      Does parse input s { s with leases := s.leases.step (op.map .variable) } []
  | acts {i : SessionId} {a a' : ClientSession} {leases : SessionRegistry} {os : List ServerEvent}
      (here : s.sessions[i]? = some a) (acts : Acts parse input s.leases i a leases a')
      (alone : ¬ Calling a) (same : a'.seat = a.seat) (hushed : Hushed os) :
      Does parse input s ({ s with leases := leases }.set i a') os
  /-- A match ticks, or the directory changes. -/
  | rooms {op : RoomManager.Op} {r : RoomManager × List RoomEvent}
      (exec : RoomManager.exec s.rooms op = .ok r)
      (other : (∃ room now elapsed_ms, op = .tick room now elapsed_ms) ∨
        ∃ name owner, op = .directory_changes name owner) :
      Does parse input s { s with rooms := r.1 } (r.2.map .of_rooms)
  /-- A call of the rooms that is back at once. -/
  | answered {i : SessionId} {a a' : ClientSession} {op : RoomManager.Op}
      {r : RoomManager × List RoomEvent} {os : List ServerEvent}
      (here : s.sessions[i]? = some a) (asks : Asks parse input i a op)
      (exec : RoomManager.exec s.rooms op = .ok r)
      (at_once : r.1.calls.length = s.rooms.calls.length)
      (acts : Acts parse input s.leases i a s.leases a')
      (settled : Settled i a a' (answer_of r.2) os) :
      Does parse input s ({ s with rooms := r.1 }.set i a')
        (.called i op :: r.2.map .of_rooms ++ os)
  /-- A call of the rooms that is under way. -/
  | began {i : SessionId} {a a' : ClientSession} {op : RoomManager.Op}
      {r : RoomManager × List RoomEvent} (here : s.sessions[i]? = some a)
      (asks : Asks parse input i a op)
      (exec : RoomManager.exec s.rooms op = .ok r)
      (pending : r.1.calls.length ≠ s.rooms.calls.length)
      (acts : Acts parse input s.leases i a s.leases a')
      (same : a'.seat = a.seat ∧ a'.pending = a.pending)
      (busy : a'.stage = busy_stage op) :
      Does parse input s ({ s with rooms := r.1, callers := s.callers ++ [i] }.set i a')
        (.called i op :: r.2.map .of_rooms)
  | waits {call : Nat} {i : SessionId} {a : ClientSession} {r : RoomManager × List RoomEvent}
      (caller : s.callers[call]? = some i) (here : s.sessions[i]? = some a)
      (exec : RoomManager.exec s.rooms (.proceed call) = .ok r)
      (pending : r.1.calls.length = s.rooms.calls.length) :
      Does parse input s ({ s with rooms := r.1, callers := s.callers.eraseIdx call ++ [i] }.set i
        (a.hear (answer_of r.2))) (s.deliveries i call ++ r.2.map .of_rooms)
  | comes_back {call : Nat} {i : SessionId} {a a' : ClientSession}
      {r : RoomManager × List RoomEvent} {os : List ServerEvent}
      (caller : s.callers[call]? = some i) (here : s.sessions[i]? = some a)
      (exec : RoomManager.exec s.rooms (.proceed call) = .ok r)
      (finished : r.1.calls.length ≠ s.rooms.calls.length)
      (acts : Acts parse input s.leases i a s.leases a')
      (returned : ¬ Calling a') (settled : Settled i a a' (heard a (answer_of r.2)) os)
      (sits : ∀ seat, a.stage = .seating none → answer_of r.2 = some (.seat seat) →
        a'.seat = some seat) :
      Does parse input s ({ s with rooms := r.1, callers := s.callers.eraseIdx call }.set i a')
        (s.deliveries i call ++ r.2.map .of_rooms ++ os)

/-! ## Reading a step -/

variable {parse : String → Option Json} {input : Op}

theorem hushed_nil : Hushed [] := by
  intro e he
  cases he

theorem hushed_refusal (i : SessionId) (message : ServerMessage) :
    Hushed [.sent i message, .dropped i] := by
  intro e he
  rcases List.mem_cons.mp he with rfl | he
  · trivial
  · rw [List.mem_singleton.mp he]
    trivial

theorem set_self {s : Server} {i : SessionId} {a : ClientSession} (h : s.sessions[i]? = some a) :
    s.set i a = s := by
  obtain ⟨hlt, hget⟩ := List.getElem?_eq_some_iff.mp h
  unfold set
  rw [← hget, List.set_getElem_self]

theorem Free.alone {a : ClientSession} (h : Free a) : ¬ Calling a := by
  unfold Calling
  rw [h.2]
  simp

/-- A session that only listens. -/
theorem does_listen {s : Server} {i : SessionId} {a b : ClientSession} {os : List ServerEvent}
    (here : s.sessions[i]? = some a) (hfree : Free a) (hsame : Counted a b) (hos : Hushed os) :
    Does parse input s (s.set i b) os := by
  refine .acts here (.listens hfree hsame) hfree.alone ?_ hos
  rw [hsame]

/-- The answer to a session that was asking for a seat. -/
theorem take_answer_acts (i : SessionId) (leases : SessionRegistry) {a b : ClientSession}
    (hsame : Counted a b) (hasking : Asking a) (answer : Answer) :
    ∃ b' os, (∀ s : Server, s.take_answer i b answer = (s.set i b', os)) ∧
      Acts parse input leases i a leases b' ∧ ¬ Calling b' ∧
      ((b'.seat = a.seat ∧ Hushed os) ∨
        ∃ seat, answer = .seat seat ∧ b'.seat = some seat ∧ os = [.seated i seat]) := by
  have hseat : b.seat = a.seat := by rw [hsame]
  cases answer with
  | seat seat =>
      exact ⟨_, _, fun s => rfl, .sits seat hsame hasking, by simp [Calling],
        .inr ⟨seat, rfl, rfl, rfl⟩⟩
  | failed reason =>
      exact ⟨_, _, fun s => rfl, .stands hsame hasking, by simp [Calling],
        .inl ⟨hseat, hushed_refusal i _⟩⟩
  | redirect url =>
      exact ⟨_, _, fun s => rfl, .stands hsame hasking, by simp [Calling],
        .inl ⟨hseat, hushed_refusal i _⟩⟩

/-- A call of the rooms, at once or under way. -/
theorem call_rooms_does {s s' : Server} {i : SessionId} {a busy : ClientSession}
    {op : RoomManager.Op} {os : List ServerEvent}
    {finish : Server → Option Answer → Server × List ServerEvent}
    (here : s.sessions[i]? = some a) (hasks : Asks parse input i a op)
    (h : s.call_rooms i op busy finish = .ok (s', os))
    (hbusy : Acts parse input s.leases i a s.leases busy ∧
      (busy.seat = a.seat ∧ busy.pending = a.pending) ∧ busy.stage = busy_stage op)
    (hfinish : ∀ answer, ∃ b' os', (∀ t : Server, finish t answer = (t.set i b', os')) ∧
      Acts parse input s.leases i a s.leases b' ∧ Settled i a b' answer os') :
    Does parse input s s' os := by
  obtain ⟨r, hexec, hrest⟩ := (bind_ok_iff _ _ _).mp h
  dsimp only at hrest
  obtain ⟨hacts, hsame, hstage⟩ := hbusy
  by_cases hlen : r.1.calls.length = s.rooms.calls.length
  · rw [if_pos hlen] at hrest
    obtain ⟨b', os', hb, hacts', hsettled⟩ := hfinish (answer_of r.2)
    rw [hb] at hrest
    obtain ⟨rfl, rfl⟩ := Prod.mk.inj (Except.ok.inj hrest)
    exact .answered here hasks hexec hlen hacts' hsettled
  · rw [if_neg hlen] at hrest
    obtain ⟨rfl, rfl⟩ := Prod.mk.inj (Except.ok.inj hrest)
    exact .began here hasks hexec hlen hacts hsame hstage

theorem handle_login_does {s s' : Server} {i : SessionId} {a b : ClientSession}
    {text username password : String} {outside : Outside} {os : List ServerEvent}
    (hinput : input = .on_text i text outside)
    (hmessage : decode_client_message parse text = some (.Login username password))
    (here : s.sessions[i]? = some a) (hfree : Free a) (hsame : Counted a b)
    (h : s.handle_login i b username outside = (s', os)) : Does parse input s s' os := by
  have hseat : b.seat = a.seat := by rw [hsame]
  have hauth : b.authenticated = a.authenticated := by rw [hsame]; rfl
  unfold handle_login at h
  by_cases hknown : b.authenticated = true
  · rw [if_pos hknown] at h
    obtain ⟨rfl, rfl⟩ := Prod.mk.inj h
    exact does_listen here hfree hsame hushed_nil
  · rw [if_neg hknown] at h
    by_cases hallowed : outside.allowed = true
    · rw [if_neg (not_not.mpr hallowed)] at h
      by_cases hok : outside.auth.ok = true
      · rw [if_neg (not_not.mpr hok)] at h
        obtain ⟨rfl, rfl⟩ := Prod.mk.inj h
        rw [hauth] at hknown
        have hvouched : LogsIn parse input i ⟨username, outside.auth.rating⟩ :=
          ⟨text, outside, password, hinput, hmessage, hok, rfl⟩
        exact .acts here (.asks _ hfree hsame (Bool.eq_false_of_not_eq_true hknown) hvouched)
          hfree.alone hseat hushed_nil
      · rw [if_pos hok] at h
        obtain ⟨rfl, rfl⟩ := Prod.mk.inj h
        exact does_listen here hfree hsame (hushed_refusal i _)
    · rw [if_pos hallowed] at h
      obtain ⟨rfl, rfl⟩ := Prod.mk.inj h
      exact does_listen here hfree hsame (hushed_refusal i _)

/-- What a session with a user asks for. -/
theorem seat_for_asks {i : SessionId} {a b : ClientSession} {message : ClientMessage}
    {user : AuthedUser} {key : String} {op : RoomManager.Op} (hfree : Free a)
    (hpending : a.pending = some user) (hseat : a.seat = none)
    (h : b.seat_for message user key = some op) :
    Asks parse input i a op ∧ busy_stage op = .seating none := by
  unfold ClientSession.seat_for at h
  split at h
  · obtain rfl := Option.some.inj h
    exact ⟨.join_any user _ hfree hseat hpending, rfl⟩
  · obtain rfl := Option.some.inj h
    exact ⟨.create_room user _ _ hfree hseat hpending, rfl⟩
  · split_ifs at h
    obtain rfl := Option.some.inj h
    exact ⟨.join_room user _ _ hfree hseat hpending, rfl⟩
  · cases h

theorem handle_seating_does {s s' : Server} {i : SessionId} {a b : ClientSession}
    {message : ClientMessage} {outside : Outside} {os : List ServerEvent}
    (here : s.sessions[i]? = some a) (hfree : Free a) (hsame : Counted a b)
    (h : s.handle_seating i b message outside = .ok (s', os)) : Does parse input s s' os := by
  have hseat : b.seat = a.seat := by rw [hsame]
  have hpending : b.pending = a.pending := by rw [hsame]
  unfold handle_seating at h
  split at h
  · obtain ⟨rfl, rfl⟩ := Prod.mk.inj (Except.ok.inj h)
    exact does_listen here hfree hsame hushed_nil
  · rename_i user huser
    by_cases hseated : b.seat.isSome = true
    · rw [if_pos hseated] at h
      obtain ⟨rfl, rfl⟩ := Prod.mk.inj (Except.ok.inj h)
      exact does_listen here hfree hsame hushed_nil
    · rw [if_neg hseated] at h
      by_cases hallowed : outside.allowed = true
      · rw [if_neg (not_not.mpr hallowed)] at h
        have huser' : a.pending = some user := by rw [← hpending, huser]
        have hnone : a.seat = none := by
          rw [← hseat]
          exact Option.not_isSome_iff_eq_none.mp hseated
        have hseatless : Seatless a := ⟨by rw [huser']; rfl, hnone⟩
        have hasking : Asking a := .inl ⟨hfree, hseatless⟩
        split at h
        · obtain ⟨b', os', hb, hacts, -, htold⟩ := take_answer_acts i s.leases
            hsame hasking (.failed join_reasons.kNoSuchRoom)
          rw [hb] at h
          obtain ⟨rfl, rfl⟩ := Prod.mk.inj (Except.ok.inj h)
          rcases htold with ⟨hkept, hquiet⟩ | ⟨seat, hanswer, _⟩
          · exact .acts here hacts hfree.alone hkept hquiet
          · cases hanswer
        · rename_i op hop
          obtain ⟨hasks, hstage⟩ := seat_for_asks hfree huser' hnone hop
          refine call_rooms_does here hasks h
            ⟨.seeks hfree hsame hseatless, ⟨hseat, hpending⟩, hstage.symm⟩ ?_
          intro answer
          obtain ⟨b', os', hb, hacts, -, htold⟩ := take_answer_acts i s.leases
            hsame hasking (answer.getD (.failed ""))
          refine ⟨b', os', hb, hacts, ?_⟩
          rcases htold with hquiet | ⟨seat, hanswer, hb', hos⟩
          · exact .inl hquiet
          · refine .inr ⟨seat, hasking, ?_, hb', hos⟩
            cases answer with
            | none => cases hanswer
            | some answer => exact congrArg some hanswer
      · rw [if_pos hallowed] at h
        obtain ⟨rfl, rfl⟩ := Prod.mk.inj (Except.ok.inj h)
        exact does_listen here hfree hsame (hushed_refusal i _)

theorem handle_gameplay_does {s s' : Server} {i : SessionId} {a b : ClientSession}
    {message : ClientMessage} {os : List ServerEvent} (hsaid : Said parse input i message)
    (here : s.sessions[i]? = some a) (hfree : Free a) (hsame : Counted a b)
    (h : s.handle_gameplay i b message = .ok (s', os)) : Does parse input s s' os := by
  have hseat : b.seat = a.seat := by rw [hsame]
  have hpending : b.pending = a.pending := by rw [hsame]
  unfold handle_gameplay at h
  split at h
  · obtain ⟨rfl, rfl⟩ := Prod.mk.inj (Except.ok.inj h)
    exact does_listen here hfree hsame hushed_nil
  · rename_i seat hsome
    by_cases hwatches : seat.spectator = true
    · rw [if_pos hwatches] at h
      obtain ⟨rfl, rfl⟩ := Prod.mk.inj (Except.ok.inj h)
      exact does_listen here hfree hsame hushed_nil
    · rw [if_neg hwatches] at h
      have hseated : a.seat = some seat := by rw [← hseat, hsome]
      have hplays := Bool.eq_false_of_not_eq_true hwatches
      refine call_rooms_does here (.enqueue seat message hfree hseated hplays hsaid) h
        ⟨.plays hfree hsame (by rw [hseated]; rfl), ⟨hseat, hpending⟩, rfl⟩ ?_
      intro answer
      exact ⟨b, [], fun _ => rfl, .listens hfree hsame, .inl ⟨hseat, hushed_nil⟩⟩

theorem handle_does {s s' : Server} {i : SessionId} {a b : ClientSession} {text : String}
    {message : ClientMessage} {outside : Outside} {os : List ServerEvent}
    (hinput : input = .on_text i text outside)
    (hmessage : decode_client_message parse text = some message)
    (here : s.sessions[i]? = some a) (hfree : Free a) (hsame : Counted a b)
    (h : s.handle i b message outside = .ok (s', os)) : Does parse input s s' os := by
  have hsaid : Said parse input i message := ⟨text, outside, hinput, hmessage⟩
  unfold handle at h
  split at h
  · exact handle_login_does hinput hmessage here hfree hsame (Except.ok.inj h)
  · split_ifs at h
    · exact handle_seating_does here hfree hsame h
    · obtain ⟨rfl, rfl⟩ := Prod.mk.inj (Except.ok.inj h)
      exact .nothing hushed_nil
  · exact handle_seating_does here hfree hsame h
  · exact handle_seating_does here hfree hsame h
  · exact handle_gameplay_does hsaid here hfree hsame h
  · exact handle_gameplay_does hsaid here hfree hsame h
  · exact handle_gameplay_does hsaid here hfree hsame h

theorem on_text_does {s s' : Server} {i : SessionId} {a : ClientSession} {text : String}
    {outside : Outside} {os : List ServerEvent} (hinput : input = .on_text i text outside)
    (here : s.sessions[i]? = some a) (hfree : Free a)
    (h : on_text parse s i a text outside = .ok (s', os)) : Does parse input s s' os := by
  have hdrop : Hushed [.dropped i] := by
    intro e he
    rw [List.mem_singleton.mp he]
    trivial
  have hsame := counted_message a outside.now
  unfold on_text at h
  dsimp only at h
  split_ifs at h
  · obtain ⟨rfl, rfl⟩ := Prod.mk.inj (Except.ok.inj h)
    exact .nothing hdrop
  · obtain ⟨rfl, rfl⟩ := Prod.mk.inj (Except.ok.inj h)
    exact does_listen here hfree hsame hdrop
  · split at h
    · obtain ⟨rfl, rfl⟩ := Prod.mk.inj (Except.ok.inj h)
      exact does_listen here hfree hsame hushed_nil
    · exact handle_does hinput ‹_› here hfree hsame h

theorem on_close_does {s s' : Server} {i : SessionId} {a : ClientSession} {os : List ServerEvent}
    (hinput : input = .on_close i) (here : s.sessions[i]? = some a) (hfree : Free a)
    (h : s.on_close i a = .ok (s', os)) : Does parse input s s' os := by
  unfold on_close at h
  split at h
  · obtain ⟨rfl, rfl⟩ := Prod.mk.inj (Except.ok.inj h)
    exact .acts here (.closes .releasing hfree (.inr rfl) hinput) hfree.alone rfl hushed_nil
  · rename_i seat hseat
    refine call_rooms_does here (.on_disconnect seat hfree hseat) h
      ⟨.closes .leaving hfree (.inl rfl) hinput, ⟨rfl, rfl⟩, rfl⟩ ?_
    intro answer
    exact ⟨_, [], fun _ => rfl, .closes .releasing hfree (.inr rfl) hinput, .inl ⟨rfl, hushed_nil⟩⟩

theorem go_on_does {s s' : Server} {i : SessionId} {a : ClientSession} {left : String}
    {os : List ServerEvent} (here : s.sessions[i]? = some a)
    (h : s.go_on i a left = (s', os)) : Does parse input s s' os := by
  unfold go_on at h
  split at h
  · rename_i user hstage
    dsimp only at h
    split_ifs at h with hfree
    · obtain ⟨rfl, rfl⟩ := Prod.mk.inj h
      exact .acts here (.claims user hstage hfree) (by simp [Calling, hstage]) rfl hushed_nil
    · obtain ⟨rfl, rfl⟩ := Prod.mk.inj h
      exact .acts here (.turned_away user hstage) (by simp [Calling, hstage]) rfl
        (hushed_refusal i _)
  · obtain ⟨rfl, rfl⟩ := Prod.mk.inj h
    exact .acts here (.moves _ left ‹_›) (by simp [Calling, *]) rfl hushed_nil
  · obtain ⟨rfl, rfl⟩ := Prod.mk.inj h
    exact .acts here (.enters _ ‹_›) (by simp [Calling, *]) rfl hushed_nil
  · obtain ⟨rfl, rfl⟩ := Prod.mk.inj h
    exact .acts here (.unwinds ‹_›) (by simp [Calling, *]) rfl hushed_nil
  · obtain ⟨rfl, rfl⟩ := Prod.mk.inj h
    exact .acts here (.releases ‹_›) (by simp [Calling, *]) rfl hushed_nil
  · obtain ⟨rfl, rfl⟩ := Prod.mk.inj h
    exact .nothing hushed_nil

/-- What a session does when its call is back. -/
theorem come_back_acts (leases : SessionRegistry) {i : SessionId} {a : ClientSession} {s : Server}
    (here : s.sessions[i]? = some a) (answer : Option Answer) :
    ∃ b os, s.come_back i a answer = (s.set i b, os) ∧ Acts parse input leases i a leases b ∧
      ¬ Calling b ∧ Settled i a b (heard a answer) os ∧
      ∀ seat, a.stage = .seating none → answer = some (.seat seat) → b.seat = some seat := by
  have hself : Counted a a := rfl
  cases hstage : a.stage with
  | seating earlier =>
      obtain ⟨b, os, hb, hacts, hidle, htold⟩ := take_answer_acts i leases hself
        (.inr ⟨earlier, hstage⟩) ((earlier.or answer).getD (.failed ""))
      refine ⟨b, os, ?_, hacts, hidle, ?_, ?_⟩
      · rw [come_back, hstage]
        exact hb s
      · rcases htold with hquiet | ⟨seat, hanswer, hb', hos⟩
        · exact .inl hquiet
        · refine .inr ⟨seat, .inr ⟨earlier, hstage⟩, ?_, hb', hos⟩
          rw [heard, hstage]
          dsimp only
          cases hor : earlier.or answer with
          | none =>
              rw [hor] at hanswer
              cases hanswer
          | some answer =>
              rw [hor] at hanswer
              exact congrArg some hanswer
      · -- without an answer before, it is this one that is taken
        intro seat hnone hseat
        obtain rfl := Stage.seating.inj hnone
        rcases htold with ⟨-, hquiet⟩ | ⟨seat', hanswer, hb', -⟩
        · have hseated := (hb s).symm
          rw [hseat] at hseated
          have hsent := (Prod.mk.inj hseated).2
          exact absurd (hquiet (.seated i seat) (by rw [hsent]; exact List.mem_singleton_self _)) id
        · rw [hseat] at hanswer
          obtain rfl := Answer.seat.inj hanswer
          exact hb'
  | enqueueing =>
      exact ⟨_, [], by rw [come_back, hstage], .played hstage, by simp [Calling],
        .inl ⟨rfl, hushed_nil⟩, by simp⟩
  | leaving =>
      exact ⟨_, [], by rw [come_back, hstage], .left hstage, by simp [Calling],
        .inl ⟨rfl, hushed_nil⟩, by simp⟩
  | idle | claiming _ | claimed _ | holding _ | unwinding | releasing =>
      have hhear : a.hear none = a := by rw [ClientSession.hear, hstage]
      have hacts : Acts parse input leases i a leases (a.hear none) := .waits none
      rw [hhear] at hacts
      refine ⟨a, [], ?_, hacts, by simp [Calling, hstage], .inl ⟨rfl, hushed_nil⟩, by simp⟩
      rw [set_self here, come_back, hstage]

theorem proceed_does {s s' : Server} {call : Nat} {i : SessionId} {a : ClientSession}
    {os : List ServerEvent} (caller : s.callers[call]? = some i) (here : s.sessions[i]? = some a)
    (h : s.proceed call i a = .ok (s', os)) : Does parse input s s' os := by
  obtain ⟨r, hexec, hrest⟩ := (bind_ok_iff _ _ _).mp h
  dsimp only at hrest
  by_cases hlen : r.1.calls.length = s.rooms.calls.length
  · rw [if_pos hlen] at hrest
    obtain ⟨rfl, rfl⟩ := Prod.mk.inj (Except.ok.inj hrest)
    exact .waits caller here hexec hlen
  · rw [if_neg hlen] at hrest
    obtain ⟨b, os', hb, hacts, hover, hsettled, hsits⟩ := come_back_acts s.leases
      (s := { s with rooms := r.1, callers := s.callers.eraseIdx call }) here (answer_of r.2)
    rw [hb] at hrest
    obtain ⟨rfl, rfl⟩ := Prod.mk.inj (Except.ok.inj hrest)
    exact .comes_back caller here hexec hlen hacts hover hsettled hsits

theorem rooms_step_does {s s' : Server} {op : RoomManager.Op} {os : List ServerEvent}
    (h : s.rooms_step op = .ok (s', os))
    (hother : (∃ room now elapsed_ms, op = .tick room now elapsed_ms) ∨
      ∃ name owner, op = .directory_changes name owner) : Does parse input s s' os := by
  obtain ⟨r, hexec, hrest⟩ := (bind_ok_iff _ _ _).mp h
  obtain ⟨rfl, rfl⟩ := Prod.mk.inj (Except.ok.inj hrest)
  exact .rooms hexec hother

theorem with_session_does {s s' : Server} {i : SessionId} {os : List ServerEvent}
    {call : ClientSession → Except RoomError (Server × List ServerEvent)}
    (h : s.with_session i call = .ok (s', os))
    (hcall : ∀ a, s.sessions[i]? = some a → call a = .ok (s', os) → Does parse input s s' os) :
    Does parse input s s' os := by
  unfold with_session at h
  split at h
  · obtain ⟨rfl, rfl⟩ := Prod.mk.inj (Except.ok.inj h)
    exact .nothing hushed_nil
  · exact hcall _ ‹_› h

/-- **Every step is one of these.** -/
theorem exec_does {s s' : Server} {os : List ServerEvent}
    (h : exec parse s input = .ok (s', os)) : Does parse input s s' os := by
  cases input with
  | connect connection =>
      obtain ⟨rfl, rfl⟩ := Prod.mk.inj (Except.ok.inj h)
      exact .connects connection
  | on_text i text outside =>
      refine with_session_does h ?_
      intro a here hcall
      split_ifs at hcall with hfree
      · exact on_text_does rfl here hfree hcall
      · obtain ⟨rfl, rfl⟩ := Prod.mk.inj (Except.ok.inj hcall)
        exact .nothing hushed_nil
  | on_close i =>
      refine with_session_does h ?_
      intro a here hcall
      split_ifs at hcall with hfree
      · exact on_close_does rfl here hfree hcall
      · obtain ⟨rfl, rfl⟩ := Prod.mk.inj (Except.ok.inj hcall)
        exact .nothing hushed_nil
  | destroy i =>
      refine with_session_does h ?_
      intro a here hcall
      split_ifs at hcall with hthere
      · obtain ⟨rfl, rfl⟩ := Prod.mk.inj (Except.ok.inj hcall)
        exact .acts here (.ends hthere.1 hthere.2 rfl) (by simp [Calling, hthere.2]) rfl hushed_nil
      · obtain ⟨rfl, rfl⟩ := Prod.mk.inj (Except.ok.inj hcall)
        exact .nothing hushed_nil
  | go_on i left =>
      refine with_session_does h ?_
      intro a here hcall
      exact go_on_does here (Except.ok.inj hcall)
  | proceed call =>
      rw [exec] at h
      split at h
      · obtain ⟨rfl, rfl⟩ := Prod.mk.inj (Except.ok.inj h)
        exact .nothing hushed_nil
      · rename_i i caller
        refine with_session_does h ?_
        intro a here hcall
        exact proceed_does caller here hcall
  | tick room now elapsed_ms => exact rooms_step_does h (.inl ⟨room, now, elapsed_ms, rfl⟩)
  | directory_changes name owner => exact rooms_step_does h (.inr ⟨name, owner, rfl⟩)
  | lease op =>
      obtain ⟨rfl, rfl⟩ := Prod.mk.inj (Except.ok.inj h)
      exact .leases op

end Server

end KungFuChess
