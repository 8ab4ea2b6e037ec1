/-
**One account, one live session.**

A session that is logged in holds the lease of its username, from the moment
`handle_login` moves it there until `on_close` or the destructor gives it back; on
the way its token is in the local of `handle_login`. So where the tokens of a session
are is said by its stage (`Kept`), the registry knows the names of the tokens that
are not spent, and two sessions with one username would be two tokens of one name.
-/
import KungFuChess.Conservation
import KungFuChess.SessionSteps

set_option autoImplicit false

namespace KungFuChess

open Machine Leases

namespace ClientSession

/-- The lease of whoever is logged in. -/
def claim_of (a : ClientSession) : Option (Token String) :=
  a.pending.map fun user => ⟨true, user.username⟩

end ClientSession

namespace Server

/-- Where the tokens of a session are. Login comes first, then a seat, and leaving is
last. -/
def Kept (leases : SessionRegistry) (i : SessionId) (a : ClientSession) : Prop :=
  (a.seat.isSome → a.pending.isSome) ∧
  match a.stage with
  | .idle =>
      leases.tokens (.username_lease i) = (if a.life = .opened then a.claim_of else none) ∧
        leases.tokens (.login i) = none
  | .claiming _ =>
      leases.tokens (.username_lease i) = none ∧ leases.tokens (.login i) = none ∧
        a.pending = none ∧ a.life = .opened
  | .claimed user =>
      leases.tokens (.username_lease i) = none ∧
        leases.tokens (.login i) = some ⟨true, user.username⟩ ∧ a.pending = none ∧ a.life = .opened
  | .holding user =>
      leases.tokens (.username_lease i) = some ⟨true, user.username⟩ ∧
        (∃ left, leases.tokens (.login i) = some ⟨false, left⟩) ∧ a.pending = none ∧
        a.life = .opened
  | .unwinding =>
      leases.tokens (.username_lease i) = a.claim_of ∧
        (∃ left, leases.tokens (.login i) = some ⟨false, left⟩) ∧ a.life = .opened
  | .seating _ =>
      leases.tokens (.username_lease i) = a.claim_of ∧ leases.tokens (.login i) = none ∧
        a.life = .opened ∧ a.pending.isSome
  | .enqueueing =>
      leases.tokens (.username_lease i) = a.claim_of ∧ leases.tokens (.login i) = none ∧
        a.life = .opened
  | .leaving | .releasing =>
      leases.tokens (.username_lease i) = a.claim_of ∧ leases.tokens (.login i) = none ∧
        a.life = .closed

/-- The count of messages is nobody's concern. -/
theorem Kept.counted {leases : SessionRegistry} {i : SessionId} {a b : ClientSession}
    (h : Kept leases i a) (hsame : Counted a b) : Kept leases i b := by
  rw [hsame]
  exact h

section Stages

variable {leases : SessionRegistry} {i : SessionId} {a : ClientSession} {user : AuthedUser}
  (h : Kept leases i a)

include h

/-- An idle session has its lease if it is logged in. -/
theorem Kept.free (hfree : Free a) :
    leases.tokens (.username_lease i) = a.claim_of ∧ leases.tokens (.login i) = none := by
  obtain ⟨hlife, hstage⟩ := hfree
  unfold Kept at h
  rw [hstage] at h
  obtain ⟨-, hlease, hlogin⟩ := h
  rw [if_pos hlife] at hlease
  exact ⟨hlease, hlogin⟩

theorem Kept.claiming (stage : a.stage = .claiming user) :
    leases.tokens (.username_lease i) = none ∧ leases.tokens (.login i) = none ∧
      a.pending = none ∧ a.life = .opened := by
  unfold Kept at h
  rw [stage] at h
  exact h.2

theorem Kept.claimed (stage : a.stage = .claimed user) :
    leases.tokens (.username_lease i) = none ∧
      leases.tokens (.login i) = some ⟨true, user.username⟩ ∧ a.pending = none ∧
      a.life = .opened := by
  unfold Kept at h
  rw [stage] at h
  exact h.2

theorem Kept.holding (stage : a.stage = .holding user) :
    leases.tokens (.username_lease i) = some ⟨true, user.username⟩ ∧
      (∃ left, leases.tokens (.login i) = some ⟨false, left⟩) ∧ a.pending = none ∧
      a.life = .opened := by
  unfold Kept at h
  rw [stage] at h
  exact h.2

theorem Kept.unwinding (stage : a.stage = .unwinding) :
    leases.tokens (.username_lease i) = a.claim_of ∧
      (∃ left, leases.tokens (.login i) = some ⟨false, left⟩) ∧ a.life = .opened := by
  unfold Kept at h
  rw [stage] at h
  exact h.2

theorem Kept.seating {earlier : Option Answer} (stage : a.stage = .seating earlier) :
    leases.tokens (.username_lease i) = a.claim_of ∧ leases.tokens (.login i) = none ∧
      a.life = .opened ∧ a.pending.isSome := by
  unfold Kept at h
  rw [stage] at h
  exact h.2

theorem Kept.enqueueing (stage : a.stage = .enqueueing) :
    leases.tokens (.username_lease i) = a.claim_of ∧ leases.tokens (.login i) = none ∧
      a.life = .opened := by
  unfold Kept at h
  rw [stage] at h
  exact h.2

theorem Kept.closing (stage : a.stage = .leaving ∨ a.stage = .releasing) :
    leases.tokens (.username_lease i) = a.claim_of ∧ leases.tokens (.login i) = none ∧
      a.life = .closed := by
  unfold Kept at h
  rcases stage with stage | stage
  · rw [stage] at h
    exact h.2
  · rw [stage] at h
    exact h.2

theorem Kept.no_login (stage : a.stage = .idle) : leases.tokens (.login i) = none := by
  unfold Kept at h
  rw [stage] at h
  exact h.2.2

end Stages

/-- An open session comes to rest with its lease. -/
theorem kept_idle {leases : SessionRegistry} {i : SessionId} {a : ClientSession}
    (stage : a.stage = .idle) (hlife : a.life = .opened)
    (hseated : a.seat.isSome → a.pending.isSome)
    (hlease : leases.tokens (.username_lease i) = a.claim_of)
    (hlogin : leases.tokens (.login i) = none) : Kept leases i a := by
  unfold Kept
  rw [stage]
  refine ⟨hseated, ?_, hlogin⟩
  rw [if_pos hlife]
  exact hlease

variable {parse : String → Option Json} {input : Op}

theorem login_ne {i : SessionId} : Place.username_lease i ≠ Place.login i := by simp

/-- **A step of a session keeps its own lease** in its stage. -/
theorem acts_kept {leases leases' : SessionRegistry} {i : SessionId} {a a' : ClientSession}
    (h : Kept leases i a) (hacts : Acts parse input leases i a leases' a') : Kept leases' i a' := by
  have hseated := h.1
  cases hacts with
  | listens free same => exact h.counted same
  | @asks b user free same stranger vouched =>
      have hnone : a.pending = none ∧ a.seat = none := by
        unfold ClientSession.authenticated at stranger
        simpa using stranger
      obtain ⟨hlease, hlogin⟩ := h.free free
      rw [ClientSession.claim_of, hnone.1] at hlease
      rw [same]
      exact ⟨hseated, hlease, hlogin, hnone.1, free.1⟩
  | claims user stage free =>
      obtain ⟨hlease, hlogin, hnone, hlife⟩ := h.claiming stage
      have hfree : user.username ∉ leases.live := by
        unfold Store.claim at free
        split_ifs at free with hlive
        exact hlive
      refine ⟨hseated, ?_, ?_, hnone, hlife⟩
      · rw [leases.tokens_claim login_ne]
        exact hlease
      · unfold Store.claim
        rw [if_neg hfree]
        exact Function.update_self _ _ _
  | turned_away user stage =>
      obtain ⟨hlease, hlogin, hnone, hlife⟩ := h.claiming stage
      refine kept_idle rfl hlife hseated ?_ hlogin
      have hclaim : a.claim_of = none := by
        rw [ClientSession.claim_of, hnone]
        rfl
      exact hlease.trans hclaim.symm
  | moves user left stage =>
      obtain ⟨hlease, hlogin, hnone, hlife⟩ := h.claimed stage
      have hassign : leases.assign (.username_lease i) (.login i) left = { leases with
          tokens := Function.update (Function.update leases.tokens (.username_lease i)
            (some ⟨true, user.username⟩)) (.login i) (some ⟨false, left⟩) } := by
        unfold Store.assign Store.move_construct
        simp [hlease, hlogin]
      rw [hassign]
      refine ⟨hseated, ?_, ⟨left, ?_⟩, hnone, hlife⟩
      · dsimp only
        rw [Function.update_of_ne login_ne, Function.update_self]
      · exact Function.update_self _ _ _
  | enters user stage =>
      obtain ⟨hlease, hlogin, -, hlife⟩ := h.holding stage
      exact ⟨fun _ => rfl, hlease, hlogin, hlife⟩
  | unwinds stage =>
      obtain ⟨hlease, -, hlife⟩ := h.unwinding stage
      refine kept_idle rfl hlife hseated ?_ (Function.update_self _ _ _)
      rw [leases.tokens_destroy login_ne]
      exact hlease
  | @seeks b free same seatless =>
      obtain ⟨hlease, hlogin⟩ := h.free free
      rw [same]
      exact ⟨hseated, hlease, hlogin, free.1, seatless.1⟩
  | waits answer =>
      unfold ClientSession.hear
      cases hstage : a.stage with
      | seating earlier => exact ⟨hseated, h.seating hstage⟩
      | _ => exact h
  | @sits b seat same asking =>
      rw [same]
      rcases asking with ⟨free, seatless⟩ | ⟨earlier, stage⟩
      · obtain ⟨hlease, hlogin⟩ := h.free free
        exact kept_idle rfl free.1 (fun _ => seatless.1) hlease hlogin
      · obtain ⟨hlease, hlogin, hlife, huser⟩ := h.seating stage
        exact kept_idle rfl hlife (fun _ => huser) hlease hlogin
  | @stands b same asking =>
      rw [same]
      rcases asking with ⟨free, -⟩ | ⟨earlier, stage⟩
      · obtain ⟨hlease, hlogin⟩ := h.free free
        exact kept_idle rfl free.1 hseated hlease hlogin
      · obtain ⟨hlease, hlogin, hlife, -⟩ := h.seating stage
        exact kept_idle rfl hlife hseated hlease hlogin
  | @plays b free same seated =>
      obtain ⟨hlease, hlogin⟩ := h.free free
      rw [same]
      exact ⟨hseated, hlease, hlogin, free.1⟩
  | played stage =>
      obtain ⟨hlease, hlogin, hlife⟩ := h.enqueueing stage
      exact kept_idle rfl hlife hseated hlease hlogin
  | closes stage free next =>
      obtain ⟨hlease, hlogin⟩ := h.free free
      rcases next with rfl | rfl
      · exact ⟨hseated, hlease, hlogin, rfl⟩
      · exact ⟨hseated, hlease, hlogin, rfl⟩
  | left stage => exact ⟨hseated, h.closing (.inl stage)⟩
  | releases stage =>
      obtain ⟨-, hlogin, hlife⟩ := h.closing (.inr stage)
      refine ⟨hseated, ?_, ?_⟩
      · simp [Store.destroy, hlife]
      · rw [leases.tokens_destroy login_ne.symm]
        exact hlogin
  | ends there stage =>
      have hlogin := h.no_login stage
      unfold Kept
      dsimp only
      rw [stage]
      refine ⟨hseated, ?_, ?_⟩
      · simp [Store.destroy]
      · rw [leases.tokens_destroy login_ne.symm]
        exact hlogin

/-- No other token is touched. -/
theorem acts_elsewhere {leases leases' : SessionRegistry} {i : SessionId} {a a' : ClientSession}
    (hacts : Acts parse input leases i a leases' a') {place : Place}
    (hlease : place ≠ .username_lease i) (hlogin : place ≠ .login i) :
    leases'.tokens place = leases.tokens place := by
  cases hacts with
  | claims user stage free => exact leases.tokens_claim hlogin user.username
  | moves user left stage => exact leases.tokens_assign hlease hlogin left
  | unwinds stage => exact leases.tokens_destroy hlogin
  | releases stage => exact leases.tokens_destroy hlease
  | ends there stage => exact leases.tokens_destroy hlease
  | listens | asks | turned_away | enters | seeks | waits | sits | stands | plays | played | closes
  | left => rfl

theorem acts_exact {leases leases' : SessionRegistry} {i : SessionId} {a a' : ClientSession}
    (h : Kept leases i a) (hexact : Exact leases) (hacts : Acts parse input leases i a leases' a') :
    Exact leases' := by
  cases hacts with
  | claims user stage free =>
      -- the local is empty before the claim
      exact hexact.claim (h.claiming stage).2.1 user.username
  | moves user left stage => exact hexact.assign _ _ left
  | unwinds stage => exact hexact.destroy _
  | releases stage => exact hexact.destroy _
  | ends there stage => exact hexact.destroy _
  | listens | asks | turned_away | enters | seeks | waits | sits | stands | plays | played | closes
  | left => exact hexact

/-! ## All sessions -/

/-- The tokens of the sessions are where their stages say, and there are no others of
sessions to come. -/
structure Tidy (leases : SessionRegistry) (sessions : List ClientSession) : Prop where
  exact : Exact leases
  kept : ∀ i a, sessions[i]? = some a → Kept leases i a
  fresh : ∀ i, sessions.length ≤ i →
    leases.tokens (.username_lease i) = none ∧ leases.tokens (.login i) = none

/-- And leaves the leases of the others alone. -/
theorem Tidy.acts {leases leases' : SessionRegistry} {sessions : List ClientSession}
    {i : SessionId} {a a' : ClientSession} (h : Tidy leases sessions)
    (here : sessions[i]? = some a) (hacts : Acts parse input leases i a leases' a') :
    Tidy leases' (sessions.set i a') := by
  have hi : i < sessions.length := (List.getElem?_eq_some_iff.mp here).1
  have helse : ∀ j, j ≠ i → leases'.tokens (.username_lease j) = leases.tokens (.username_lease j) ∧
      leases'.tokens (.login j) = leases.tokens (.login j) := by
    intro j hj
    exact ⟨acts_elsewhere hacts (by simp [hj]) (by simp), acts_elsewhere hacts (by simp)
      (by simp [hj])⟩
  constructor
  · exact acts_exact (h.kept i a here) h.exact hacts
  · intro j b hb
    by_cases hj : i = j
    · subst hj
      rw [List.getElem?_set_self hi] at hb
      rw [← Option.some.inj hb]
      exact acts_kept (h.kept i a here) hacts
    · rw [List.getElem?_set_ne hj] at hb
      obtain ⟨hlease, hlogin⟩ := helse j (Ne.symm hj)
      unfold Kept
      rw [hlease, hlogin]
      exact h.kept j b hb
  · intro j hj
    rw [List.length_set] at hj
    obtain ⟨hlease, hlogin⟩ := helse j (Nat.ne_of_gt (Nat.lt_of_lt_of_le hi hj))
    rw [hlease, hlogin]
    exact h.fresh j hj

theorem Tidy.connects {leases : SessionRegistry} {sessions : List ClientSession}
    (h : Tidy leases sessions) (connection : Connection) :
    Tidy leases (sessions ++ [{ connection := connection }]) where
  exact := h.exact
  kept i a ha := by
    by_cases hold : i < sessions.length
    · rw [List.getElem?_append_left hold] at ha
      exact h.kept i a ha
    · rw [List.getElem?_append_right (Nat.le_of_not_lt hold)] at ha
      obtain ⟨hlease, hlogin⟩ := h.fresh i (Nat.le_of_not_lt hold)
      rw [List.mem_singleton.mp (List.mem_of_getElem? ha)]
      exact ⟨by simp, hlease, hlogin⟩
  fresh i hi := by
    rw [List.length_append, List.length_singleton] at hi
    exact h.fresh i (Nat.le_of_succ_le hi)

/-- Other code does what it likes with its own leases. -/
theorem Tidy.leases {leases : SessionRegistry} {sessions : List ClientSession}
    (h : Tidy leases sessions) (op : Leases.Op Nat String) :
    Tidy (leases.step (op.map .variable)) sessions := by
  have helse : ∀ place, (∀ n, place ≠ Place.variable n) →
      (leases.step (op.map .variable)).tokens place = leases.tokens place := by
    intro place hplace
    apply leases.tokens_step
    cases op <;> simp [Op.map, Store.about, hplace]
  constructor
  · exact h.exact.step _
  · intro i a ha
    unfold Kept
    rw [helse _ (by simp), helse _ (by simp)]
    exact h.kept i a ha
  · intro i hi
    rw [helse _ (by simp), helse _ (by simp)]
    exact h.fresh i hi

/-- **The step lemma.** -/
theorem Tidy.exec {s s' : Server} {os : List ServerEvent} (h : Tidy s.leases s.sessions)
    (hexec : exec parse s input = .ok (s', os)) : Tidy s'.leases s'.sessions := by
  cases exec_does hexec with
  | nothing hushed => exact h
  | connects connection => exact h.connects connection
  | leases op => exact h.leases op
  | acts here acts alone same hushed => exact h.acts here acts
  | rooms exec other => exact h
  | answered here asks exec at_once acts settled => exact h.acts here acts
  | began here asks exec pending acts same busy => exact h.acts here acts
  | @waits call i a r caller here exec pending =>
      have hacts : Acts parse input s.leases i a s.leases (a.hear (answer_of r.2)) := .waits _
      exact h.acts here hacts
  | comes_back caller here exec finished acts returned settled => exact h.acts here acts

/-- **The leases are where they should be, in every state reached.** -/
theorem tidy_of_reach {C : Server → List ServerEvent → Op → Prop}
    {rooms : RoomManager} {s : Server} {tr : List ServerEvent}
    (hr : Reach (exec parse) C (new rooms) s tr) : Tidy s.leases s.sessions := by
  refine Reach.invariant (P := fun s _ => Tidy s.leases s.sessions) ?_ ?_ hr
  · exact ⟨Exact.empty, fun i a ha => absurd ha (by simp [new]), fun i _ => ⟨rfl, rfl⟩⟩
  · intro s tr op s' os _ h _ hexec
    exact h.exec hexec

/-- Whoever is logged in and open holds the lease of its username. -/
theorem Kept.holds {leases : SessionRegistry} {i : SessionId} {a : ClientSession}
    {user : AuthedUser} (h : Kept leases i a) (hlife : a.life = .opened)
    (huser : a.pending = some user) : leases.Holds (.username_lease i) user.username := by
  have hclaim : a.claim_of = some ⟨true, user.username⟩ := by
    rw [ClientSession.claim_of, huser]
    rfl
  have hlacks : a.pending ≠ none := by simp [huser]
  unfold Store.Holds
  rw [← hclaim]
  cases hstage : a.stage with
  | idle => exact (h.free ⟨hlife, hstage⟩).1
  | claiming _ => exact absurd (h.claiming hstage).2.2.1 hlacks
  | claimed _ => exact absurd (h.claimed hstage).2.2.1 hlacks
  | holding _ => exact absurd (h.holding hstage).2.2.1 hlacks
  | unwinding => exact (h.unwinding hstage).1
  | seating _ => exact (h.seating hstage).1
  | enqueueing => exact (h.enqueueing hstage).1
  | leaving =>
      have hclosed := (h.closing (.inl hstage)).2.2
      rw [hlife] at hclosed
      cases hclosed
  | releasing =>
      have hclosed := (h.closing (.inr hstage)).2.2
      rw [hlife] at hclosed
      cases hclosed

/-- **One account, one live session.** In every state that a server reaches, whatever
its sessions, its rooms and the other holders of leases do in between: a name is live
exactly if some lease holds it, and then only one does; a session that is logged in and
neither closed nor destroyed holds the lease of its username; and no two such sessions
have the same. -/
theorem one_account_one_session {parse : String → Option Json} {rooms : RoomManager} {s : Server}
    {tr : List ServerEvent} (hr : Reach (exec parse) anyStep (new rooms) s tr) :
    (∀ name, name ∈ s.leases.live ↔
      ∃ place, s.leases.Holds place name ∧ ∀ q, s.leases.Holds q name → q = place) ∧
    (∀ (i : SessionId) (a : ClientSession), s.sessions[i]? = some a → a.life = .opened →
      a.authenticated = true →
      ∃ user, a.pending = some user ∧ s.leases.Holds (.username_lease i) user.username) ∧
    ∀ (i j : SessionId) (a b : ClientSession), s.sessions[i]? = some a → s.sessions[j]? = some b →
      a.life = .opened → b.life = .opened → a.authenticated = true → b.authenticated = true →
      a.pending.map AuthedUser.username = b.pending.map AuthedUser.username → i = j := by
  have htidy := tidy_of_reach hr
  have hholds : ∀ (i : SessionId) (a : ClientSession), s.sessions[i]? = some a →
      a.life = .opened → a.authenticated = true →
      ∃ user, a.pending = some user ∧ s.leases.Holds (.username_lease i) user.username := by
    intro i a ha hopen hauth
    have hkept := htidy.kept i a ha
    have hknown : a.pending.isSome := by
      unfold ClientSession.authenticated at hauth
      rcases Bool.or_eq_true_iff.mp hauth with hpending | hseat
      · exact hpending
      · exact hkept.1 hseat
    obtain ⟨user, huser⟩ := Option.isSome_iff_exists.mp hknown
    exact ⟨user, huser, hkept.holds hopen huser⟩
  refine ⟨htidy.exact.exists_unique, hholds, ?_⟩
  intro i j a b ha hb hopen hopen' hauth hauth' hsame
  obtain ⟨user, huser, hi⟩ := hholds i a ha hopen hauth
  obtain ⟨user', huser', hj⟩ := hholds j b hb hopen' hauth'
  have hname : user.username = user'.username := by
    rw [huser, huser'] at hsame
    exact Option.some.inj hsame
  rw [← hname] at hj
  -- the two sessions hold the one lease of the name
  simpa using htidy.exact.once _ _ _ hi hj

/-- How alice logs in. -/
def login_text : String :=
  "\x7b\"payload\":\x7b\"password\":\"secret\",\"username\":\"alice\"\x7d,\"type\":\"Login\"\x7d"

def parse_login (text : String) : Option Json :=
  if text = login_text then some (ClientMessage.Login "alice" "secret").to_json else none

/-- Alice logs in from two places at once: the second to get to the registry is refused,
and while the first is there, one lease holds her name. -/
theorem second_login_is_refused : ∃ s tr,
    run (exec parse_login)
      (new (.new (fun _ => three_on_a_row) shipped_factory true 20000 none ""))
      [.connect ⟨1⟩, .connect ⟨2⟩, .on_text 0 login_text ⟨0, true, ⟨true, "", 1200⟩, ""⟩,
        .on_text 1 login_text ⟨0, true, ⟨true, "", 1200⟩, ""⟩, .go_on 1 "", .go_on 0 "",
        .go_on 1 "", .go_on 1 "", .go_on 1 ""] = .ok (s, tr) ∧
    ServerEvent.sent 0 (.LoginFailed login_reasons.kAlreadyLoggedIn) ∈ tr ∧
    s.leases.Holds (.username_lease 1) "alice" ∧
    ∀ name, name ∈ s.leases.live ↔
      ∃ place, s.leases.Holds place name ∧ ∀ q, s.leases.Holds q name → q = place := by
  obtain ⟨⟨s, tr⟩, hrun, hseen⟩ := exists_ok_such
    (p := fun r => decide (ServerEvent.sent 0 (.LoginFailed login_reasons.kAlreadyLoggedIn) ∈ r.2 ∧
      r.1.leases.tokens (.username_lease 1) = some ⟨true, "alice"⟩))
    (x := run (exec parse_login)
      (new (.new (fun _ => three_on_a_row) shipped_factory true 20000 none ""))
      [.connect ⟨1⟩, .connect ⟨2⟩, .on_text 0 login_text ⟨0, true, ⟨true, "", 1200⟩, ""⟩,
        .on_text 1 login_text ⟨0, true, ⟨true, "", 1200⟩, ""⟩, .go_on 1 "", .go_on 0 "",
        .go_on 1 "", .go_on 1 "", .go_on 1 ""]) (by decide)
  obtain ⟨hrefused, hholds⟩ := of_decide_eq_true hseen
  exact ⟨s, tr, hrun, hrefused, hholds, (one_account_one_session (reach_of_run hrun)).1⟩

end Server

end KungFuChess
