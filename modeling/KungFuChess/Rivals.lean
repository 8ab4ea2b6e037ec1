/-
**Nobody is matched against themselves.**

No code compares the names of the two players of a match. While one seat of a room is
taken, the session that has taken it is there (`First`): it waits for the seat, or has
it, or is on its way out, and holds the lease of its name all that time, since
`on_close` passes the seat on before it gives up the lease, and the room goes with the
seat. Whoever takes the second seat is another session with a lease of its own, and two
leases have two names. Nobody comes back to a room with one seat taken, for the name it
is taken under is in use.
-/
import KungFuChess.Authority
import KungFuChess.Takers

set_option autoImplicit false

namespace KungFuChess

open Machine

section Places

variable {α β : Type*}

/-- Two places of a list that are counted. -/
theorem two_le_countP {xs : List α} {P : α → Bool} {j k : Nat} {x y : α} (hj : xs[j]? = some x)
    (hk : xs[k]? = some y) (hne : j ≠ k) (hx : P x = true) (hy : P y = true) :
    2 ≤ xs.countP P := by
  obtain ⟨hlt, rfl⟩ := List.getElem?_eq_some_iff.mp hk
  have hperm := (List.getElem_cons_eraseIdx_perm hlt).countP_eq P
  have hpos : 0 < (xs.eraseIdx k).countP P := by
    refine List.countP_pos_iff.mpr ⟨x, ?_, hx⟩
    exact List.mem_eraseIdx_iff_getElem?.mpr ⟨j, hne, hj⟩
  rw [List.countP_cons, if_pos hy] at hperm
  omega

/-- What is taken out is not the one that is asked for. -/
theorem beside_of_ne {xs : List α} {ys : List β} {k : Nat} {x a : α} {y : β}
    (h : Beside xs ys x y) (ha : xs[k]? = some a) (hne : x ≠ a) :
    Beside (xs.eraseIdx k) (ys.eraseIdx k) x y := by
  obtain ⟨j, hx, hy⟩ := h
  have hj : j ≠ k := by
    rintro rfl
    exact hne (Option.some.inj (hx.symm.trans ha))
  by_cases hlt : j < k
  · refine ⟨j, ?_, ?_⟩
    · rw [List.getElem?_eraseIdx_of_lt hlt]
      exact hx
    · rw [List.getElem?_eraseIdx_of_lt hlt]
      exact hy
  · obtain ⟨n, rfl⟩ :=
      Nat.exists_eq_add_of_lt (Nat.lt_of_le_of_ne (Nat.le_of_not_lt hlt) (Ne.symm hj))
    refine ⟨k + n, ?_, ?_⟩
    · rw [List.getElem?_eraseIdx_of_ge (Nat.le_add_right _ _)]
      exact hx
    · rw [List.getElem?_eraseIdx_of_ge (Nat.le_add_right _ _)]
      exact hy

theorem Beside.append {xs : List α} {ys : List β} {x : α} {y : β} (h : Beside xs ys x y)
    (as : List α) (bs : List β) : Beside (xs ++ as) (ys ++ bs) x y := by
  obtain ⟨k, hx, hy⟩ := h
  refine ⟨k, ?_, ?_⟩
  · rw [List.getElem?_append_left (List.getElem?_eq_some_iff.mp hx).1]
    exact hx
  · rw [List.getElem?_append_left (List.getElem?_eq_some_iff.mp hy).1]
    exact hy

theorem beside_last {xs : List α} {ys : List β} (hlen : xs.length = ys.length) (x : α) (y : β) :
    Beside (xs ++ [x]) (ys ++ [y]) x y := by
  refine ⟨xs.length, List.getElem?_concat_length, ?_⟩
  rw [hlen]
  exact List.getElem?_concat_length

end Places

namespace Server

/-! ## The first taker -/

/-- A call of the session is attached to the room, on its way in or out. -/
def Passing (s : Server) (id : RoomId) (i : SessionId) : Prop :=
  ∃ a p, s.sessions[i]? = some a ∧ Beside s.callers s.rooms.calls i p ∧
    RoomManager.attached p = some id ∧ RoomManager.visits p = false ∧
    a.stage = if RoomManager.leaving p = true then .leaving else .seating none

/-- The session has a seat of the room. -/
def Sitting (s : Server) (id : RoomId) (i : SessionId) : Prop :=
  ∃ a seat, s.sessions[i]? = some a ∧ a.life = .opened ∧ a.seat = some seat ∧ seat.room = id ∧
    seat ∈ s.rooms.seats

/-- Of a room with one seat taken: the session that has taken it. -/
structure First (s : Server) (id : RoomId) (i : SessionId) : Prop where
  held : s.rooms.held id = 1
  attached : Passing s id i ∨ Sitting s id i
  others : ∀ (j : SessionId) (b : ClientSession) (seat : Seat), s.sessions[j]? = some b →
    b.seat = some seat → seat.room = id → j = i
  named : ∃ a user, s.sessions[i]? = some a ∧ a.pending = some user ∧
    ∀ name ∈ s.rooms.takers id, name = user.username

variable {parse : String → Option Json} {input : Op} {log : Log} {s : Server} {id : RoomId}
  {i j : SessionId} {a b : ClientSession}

/-- No other call is attached to the room. -/
theorem First.call (h : First s id i) {p : Pending} (hbeside : Beside s.callers s.rooms.calls j p)
    (hp : RoomManager.attached p = some id) :
    j = i ∧ RoomManager.visits p = false ∧ ∃ a, s.sessions[i]? = some a ∧
      a.stage = if RoomManager.leaving p = true then .leaving else .seating none := by
  obtain ⟨k, hcaller, hcall⟩ := hbeside
  have hheld : s.rooms.seats.countP (fun seat => seat.room = id)
      + s.rooms.calls.countP (fun p => RoomManager.attached p = some id) = 1 := h.held
  rcases h.attached with ⟨a, p₀, ha, ⟨k₀, hcaller₀, hcall₀⟩, hp₀, hvisits, hstage⟩ |
    ⟨a, seat, -, -, -, hroom, hmem⟩
  · by_cases hk : k = k₀
    · subst hk
      obtain rfl := Option.some.inj (hcall.symm.trans hcall₀)
      exact ⟨Option.some.inj (hcaller.symm.trans hcaller₀), hvisits, a, ha, hstage⟩
    · have htwo := two_le_countP (P := fun p => decide (RoomManager.attached p = some id)) hcall
        hcall₀ hk (decide_eq_true hp) (decide_eq_true hp₀)
      omega
  · have hseat : 0 < s.rooms.seats.countP fun seat => seat.room = id :=
      List.countP_pos_iff.mpr ⟨seat, hmem, decide_eq_true hroom⟩
    have hcalls : 0 < s.rooms.calls.countP fun p => RoomManager.attached p = some id :=
      List.countP_pos_iff.mpr ⟨p, List.mem_of_getElem? hcall, decide_eq_true hp⟩
    omega

theorem First.visits (hl : Lawful parse log s) (h : First s id i) (p : Pending)
    (hp : p ∈ s.rooms.calls) (hattached : RoomManager.attached p = some id) :
    RoomManager.visits p = false := by
  obtain ⟨k, hk, hget⟩ := List.mem_iff_getElem.mp hp
  have hlt : k < s.callers.length := hl.lengths ▸ hk
  have hbeside : Beside s.callers s.rooms.calls s.callers[k] p :=
    ⟨k, List.getElem?_eq_getElem hlt, by rw [List.getElem?_eq_getElem hk, hget]⟩
  exact (h.call hbeside hattached).2.1

/-- **The first taker is logged in** under its name, and does not ask for a seat. -/
theorem First.holds (hl : Lawful parse log s) (h : First s id i) : ∃ a user,
    s.sessions[i]? = some a ∧ a.pending = some user ∧
      s.leases.Holds (.username_lease i) user.username ∧
      (∀ name ∈ s.rooms.takers id, name = user.username) ∧ ¬ (Free a ∧ a.seat = none) := by
  obtain ⟨a, user, ha, huser, hnames⟩ := h.named
  have hkept := hl.tidy.kept i a ha
  have hclaim : a.claim_of = some ⟨true, user.username⟩ := by
    rw [ClientSession.claim_of, huser]
    rfl
  refine ⟨a, user, ha, huser, ?_, hnames, ?_⟩
  · unfold Leases.Store.Holds
    rw [← hclaim]
    rcases h.attached with ⟨a', p, ha', -, -, -, hstage⟩ | ⟨a', seat, ha', hlife, -⟩
    · obtain rfl := Option.some.inj (ha.symm.trans ha')
      split_ifs at hstage
      · exact (hkept.closing (.inl hstage)).1
      · exact (hkept.seating hstage).1
    · obtain rfl := Option.some.inj (ha.symm.trans ha')
      rw [hclaim]
      exact hkept.holds hlife huser
  · rintro ⟨hfree, hseatless⟩
    rcases h.attached with ⟨a', p, ha', -, -, -, hstage⟩ | ⟨a', seat, ha', -, hseat, -⟩
    · obtain rfl := Option.some.inj (ha.symm.trans ha')
      rw [hfree.2] at hstage
      split_ifs at hstage
    · obtain rfl := Option.some.inj (ha.symm.trans ha')
      rw [hseatless] at hseat
      cases hseat

/-- **Who asks for a seat is not the first taker**, and has another name. -/
theorem First.stranger (hl : Lawful parse log s) (h : First s id i)
    (here : s.sessions[j]? = some b) (free : Free b) (seatless : b.seat = none)
    {user : AuthedUser} (pending : b.pending = some user) :
    user.username ∉ s.rooms.takers id := by
  intro hmem
  obtain ⟨a, first, ha, -, hholds, hnames, hnot⟩ := h.holds hl
  have hmine := (hl.tidy.kept j b here).holds free.1 pending
  rw [hnames _ hmem] at hmine
  -- one lease of the name, and so one session
  have hsame := hl.tidy.exact.once _ _ _ hholds hmine
  simp only [Place.username_lease.injEq] at hsame
  subst hsame
  obtain rfl := Option.some.inj (ha.symm.trans here)
  exact hnot ⟨free, seatless⟩

/-- Nobody comes back to a room with one seat taken. -/
theorem First.no_return (hl : Lawful parse log s) (h : First s id i)
    (here : s.sessions[j]? = some b) {op : RoomManager.Op} (hasks : Asks parse input j b op)
    (color : PieceColor) (connection : Connection) :
    ¬ RoomManager.Begins s.rooms op (.reconnect id color connection) := by
  intro hbegins
  cases hbegins with
  | @reconnect _ m _ _ _ _ _ match_ reclaims =>
      cases hasks with
      | join_room user name connection free seatless pending =>
          refine h.stranger hl here free seatless pending ?_
          obtain ⟨hwatching, hname⟩ := Match.reclaimable_named reclaims
          have hplayer := (hl.accounted.promises.seating id m match_).present color (.inr hwatching)
          have hnamed : m.audience.name color = some user.username := by
            obtain ⟨connection', hconnection⟩ := Option.isSome_iff_exists.mp hplayer
            rw [MatchAudience.name, hconnection, ← hname]
            rfl
          refine List.mem_append_left _ ?_
          unfold RoomManager.names_in MatchAudience.names
          rw [match_, Option.elim_some]
          cases color with
          | White =>
              rw [hnamed]
              exact List.mem_append_left _ (List.mem_singleton_self _)
          | Black =>
              rw [hnamed]
              exact List.mem_append_right _ (List.mem_singleton_self _)

/-! ## All rooms -/

/-- Every room with one seat taken has its first taker, and no name takes two seats of a match. -/
structure Paired (s : Server) : Prop where
  taken : RoomManager.Taken s.rooms.ledger
  placed : ∀ (i : SessionId) (a : ClientSession) (seat : Seat), s.sessions[i]? = some a →
    a.seat = some seat →
    (s.rooms.match_of seat.room).isSome
  first : ∀ id room, s.rooms.rooms id = some room → room.seats_taken = 1 → ∃ i, First s id i
  distinct : ∀ id, (s.rooms.takers id).Nodup

variable {s' : Server}

/-- A step that leaves the rooms alone, and whoever was first is. -/
theorem Paired.aside (h : Paired s) (hrooms : s'.rooms = s.rooms)
    (hsessions : ∀ (i : SessionId) (a : ClientSession) (seat : Seat), s'.sessions[i]? = some a →
      a.seat = some seat →
      ∃ b, s.sessions[i]? = some b ∧ b.seat = some seat)
    (hfirst : ∀ id i, First s id i → First s' id i) : Paired s' where
  taken := hrooms ▸ h.taken
  placed i a seat ha hseat := by
    obtain ⟨b, hb, hseat'⟩ := hsessions i a seat ha hseat
    rw [hrooms]
    exact h.placed i b seat hb hseat'
  first id room hroom hone := by
    rw [hrooms] at hroom
    obtain ⟨i, hi⟩ := h.first id room hroom hone
    exact ⟨i, hfirst id i hi⟩
  distinct id := by
    rw [hrooms]
    exact h.distinct id

/-- **A step of the rooms**: where nobody comes back to a room with one seat taken, and who is
let in has another name than the first taker. -/
theorem Paired.moves (h : Paired s) (hl : Lawful parse log s) {op : RoomManager.Op}
    {r : RoomManager × List RoomEvent} (hexec : RoomManager.exec s.rooms op = .ok r)
    (hrooms : s'.rooms = r.1)
    (hplaced : ∀ (i : SessionId) (a : ClientSession) (seat : Seat), s'.sessions[i]? = some a →
      a.seat = some seat →
      (s.rooms.match_of seat.room).isSome)
    (hback : ∀ id i, First s id i → ∀ color connection,
      ¬ RoomManager.Begins s.rooms op (.reconnect id color connection))
    (hrival : ∀ id i p j, First s id i → RoomManager.Begins s.rooms op p →
      RoomManager.joins_as p = some j → j.username ∉ s.rooms.takers id)
    (hopens : ∀ p j, RoomManager.Begins s.rooms op p → RoomManager.joins_as p = some j →
      r.1.calls = s.rooms.calls ++ [p] → j.room = s.rooms.next_room_id →
      r.1.held j.room = 1 → r.1.takers j.room = [j.username] → ∃ i, First s' j.room i)
    (hkeeps : ∀ id i, First s id i → (s.rooms.rooms id).isSome → r.1.held id = 1 →
      (∀ name ∈ r.1.takers id, name ∈ s.rooms.takers id) → First s' id i) : Paired s' := by
  have ha := hl.accounted
  have ha' : r.1.Accounted := ha.exec hexec
  have he := ha.effect hexec
  have hwho : ∀ id room, s.rooms.rooms id = some room → room.seats_taken = 1 →
      ∃ i, First s id i := h.first
  constructor
  · rw [hrooms]
    exact h.taken.change he
  · intro i b seat hb hseat
    rw [hrooms]
    exact RoomManager.match_stays ha hexec (hplaced i b seat hb hseat)
  · intro id room' hroom' hone
    rw [hrooms] at hroom'
    have halone : ∀ room, s.rooms.ledger.rooms id = some room → room.seats_taken = 1 →
        s.rooms.ledger.held id = 1 := by
      intro room hroom htaken
      obtain ⟨i, hi⟩ := hwho id room hroom htaken
      exact hi.held
    have hstays : ∀ room, s.rooms.rooms id = some room → room.seats_taken = 1 →
        ∃ i, First s' id i := by
      intro room hroom htaken
      obtain ⟨i, hi⟩ := hwho id room hroom htaken
      obtain ⟨-, hheld⟩ := RoomManager.stays_alone ha h.taken hexec hroom hroom' hone hi.held
        (hi.visits hl) (hback id i hi)
      refine ⟨i, hkeeps id i hi (by rw [hroom]; rfl) hheld ?_⟩
      cases RoomManager.exec_lets ha hexec id with
      | nobody fewer => exact fun name hname => fewer.subset hname
      | somebody p j begins joins about calls more =>
          -- one more taker would be one more seat
          have hbefore := RoomManager.takers_length ha hroom
          have hafter := RoomManager.takers_length ha' hroom'
          rw [more, List.length_append, List.length_singleton] at hafter
          push_cast at hafter
          omega
    cases he.one_taken ha.homes h.taken ha.counted hroom' hone halone with
    | opened fresh held more_joins =>
        cases RoomManager.exec_lets ha hexec id with
        | nobody fewer =>
            -- the one seat has a taker
            have hlength := RoomManager.takers_length ha' hroom'
            have hnone := RoomManager.takers_fresh ha
            rw [fresh, show s.rooms.ledger.next_room_id = s.rooms.next_room_id from rfl] at fewer
            rw [hnone] at fewer
            rw [fresh, show s.rooms.ledger.next_room_id = s.rooms.next_room_id from rfl,
              List.subperm_nil.mp fewer, hone] at hlength
            cases hlength
        | somebody p j begins joins about calls more =>
            subst about
            refine hopens p j begins joins calls fresh held ?_
            rw [more, fresh, show s.rooms.ledger.next_room_id = s.rooms.next_room_id from rfl,
              RoomManager.takers_fresh ha]
            rfl
    | same room live taken held => exact hstays room live taken
    | counted room live taken held joins => exact hstays room live taken
    | given_back room live taken held found => exact hstays room live taken
  · intro id
    rw [hrooms]
    cases RoomManager.exec_lets ha hexec id with
    | nobody fewer =>
        obtain ⟨xs, hperm, hsub⟩ := fewer
        exact hperm.nodup_iff.mp (hsub.nodup (h.distinct id))
    | somebody p j begins joins about calls more =>
        rw [more]
        refine List.Nodup.append (h.distinct id) (List.nodup_singleton _) ?_
        refine List.disjoint_singleton.mpr ?_
        have hjoining : RoomManager.joining p = some id := by
          rw [← about]
          cases p <;> cases joins <;> rfl
        have hjoins : r.1.joins id = s.rooms.joins id + 1 := by
          rw [RoomManager.joins_began calls, hjoining, RoomManager.one_self]
        rcases he.more_joins h.taken ha.waits hjoins with hfresh | ⟨room, live, taken⟩
        · rw [hfresh, show s.rooms.ledger.next_room_id = s.rooms.next_room_id from rfl,
            RoomManager.takers_fresh ha]
          exact List.not_mem_nil
        · obtain ⟨i, hi⟩ := hwho id room live taken
          exact hrival id i p j hi begins joins

/-! ## What a session does -/

/-- The session whose destructor runs. -/
def destroyed : Op → Option SessionId
  | .destroy i => some i
  | _ => none

/-- No session is destroyed that is still open. -/
def ClosedFirst (s : Server) (op : Op) : Prop :=
  ∀ i ∈ destroyed op, ∀ a ∈ s.sessions[i]?, a.life ≠ .opened

instance (s : Server) (op : Op) : Decidable (ClosedFirst s op) :=
  inferInstanceAs (Decidable (∀ i ∈ destroyed op, ∀ a ∈ s.sessions[i]?, a.life ≠ .opened))

variable {leases leases' : SessionRegistry} {a' : ClientSession} {k : SessionId}

theorem hear_life (a : ClientSession) (answer : Option Answer) : (a.hear answer).life = a.life := by
  unfold ClientSession.hear
  split <;> rfl

/-- An open session stays open, unless it is closed or destroyed. -/
theorem acts_life (hacts : Acts parse input leases k a leases' a') (hlife : a.life = .opened)
    (hclose : Free a → input ≠ .on_close k) (hends : a.stage = .idle → input ≠ .destroy k) :
    a'.life = .opened := by
  cases hacts with
  | closes stage free next about => exact absurd about (hclose free)
  | ends there stage about => exact absurd about (hends stage)
  | waits answer => exact (hear_life a answer).trans hlife
  | listens free same => rw [same]; exact hlife
  | asks known free same stranger vouched => rw [same]; exact hlife
  | seeks free same seatless => rw [same]; exact hlife
  | sits seat same asking => rw [same]; exact hlife
  | stands same asking => rw [same]; exact hlife
  | plays free same seated => rw [same]; exact hlife
  | claims | turned_away | moves | enters | unwinds | played | left | releases => exact hlife

/-- What a call answers that turns nobody away. -/
theorem answer_of_welcomes {os : List RoomEvent} (h : RoomManager.Welcomes os) :
    answer_of os = (RoomManager.returned os).map .seat := by
  unfold answer_of RoomManager.returned
  induction os with
  | nil => rfl
  | cons e os ih =>
      obtain ⟨hrefused, hredirected⟩ := h
      have hrest : RoomManager.Welcomes os :=
        ⟨fun reason hmem => hrefused reason (List.mem_cons_of_mem _ hmem),
          fun url hmem => hredirected url (List.mem_cons_of_mem _ hmem)⟩
      rw [List.findSome?_cons, List.findSome?_cons]
      cases e with
      | returned seat => rfl
      | refused reason => exact absurd List.mem_cons_self (hrefused reason)
      | redirected url => exact absurd List.mem_cons_self (hredirected url)
      | reaped room => exact ih hrest
      | of_match room event => exact ih hrest

/-- The first taker is still there, whatever session has acted. -/
theorem First.keep (h : First s id i) (hl : Lawful parse log s) (here : s.sessions[k]? = some a)
    (hacts : Acts parse input s.leases k a leases' a')
    (hsessions : s'.sessions = s.sessions.set k a') (hheld : s'.rooms.held id = 1)
    (htakers : ∀ name ∈ s'.rooms.takers id, name ∈ s.rooms.takers id)
    (hseat : a'.seat = a.seat ∨ ∃ seat, a'.seat = some seat ∧ (seat.room = id → k = i))
    (hattached : Passing s' id i ∨ Sitting s' id i) : First s' id i where
  held := hheld
  attached := hattached
  others j b seat hb hbseat hroom := by
    rw [hsessions] at hb
    by_cases hj : k = j
    · subst hj
      rw [List.getElem?_set_self (List.getElem?_eq_some_iff.mp here).1] at hb
      obtain rfl := Option.some.inj hb
      rcases hseat with hsame | ⟨seat', hnew, hmine⟩
      · exact h.others k a seat here (hsame.symm.trans hbseat) hroom
      · obtain rfl := Option.some.inj (hnew.symm.trans hbseat)
        exact hmine hroom
    · rw [List.getElem?_set_ne hj] at hb
      exact h.others j b seat hb hbseat hroom
  named := by
    obtain ⟨first, user, hfirst, huser, hnames⟩ := h.named
    by_cases hi : k = i
    · subst hi
      obtain rfl := Option.some.inj (here.symm.trans hfirst)
      refine ⟨a', user, ?_, acts_pending (hl.tidy.kept k a here) hacts huser,
        fun name hname => hnames name (htakers name hname)⟩
      rw [hsessions, List.getElem?_set_self (List.getElem?_eq_some_iff.mp here).1]
    · refine ⟨first, user, ?_, huser, fun name hname => hnames name (htakers name hname)⟩
      rw [hsessions, List.getElem?_set_ne hi]
      exact hfirst

/-- A session that acts is not the one whose call is passing. -/
theorem Passing.keep (h : Passing s id i) (hne : k ≠ i)
    (hsessions : s'.sessions = s.sessions.set k a')
    (hbeside : ∀ p, Beside s.callers s.rooms.calls i p → RoomManager.attached p = some id →
      Beside s'.callers s'.rooms.calls i p) : Passing s' id i := by
  obtain ⟨b, p, hb, hcall, hp, hvisits, hstage⟩ := h
  refine ⟨b, p, ?_, hbeside p hcall hp, hp, hvisits, hstage⟩
  rw [hsessions, List.getElem?_set_ne hne]
  exact hb

theorem Sitting.keep (h : Sitting s id i) (here : s.sessions[k]? = some a)
    (hacts : Acts parse input s.leases k a leases' a')
    (hsessions : s'.sessions = s.sessions.set k a') (hclose : input ≠ .on_close i)
    (hended : ClosedFirst s input) (hseat : a.seat.isSome → a'.seat = a.seat)
    (hseats : ∀ seat, seat.room = id → seat ∈ s.rooms.seats → seat ∈ s'.rooms.seats) :
    Sitting s' id i := by
  obtain ⟨b, seat, hb, hlife, hbseat, hroom, hmem⟩ := h
  by_cases hi : k = i
  · subst hi
    obtain rfl := Option.some.inj (here.symm.trans hb)
    refine ⟨a', seat, ?_, ?_, ?_, hroom, hseats seat hroom hmem⟩
    · rw [hsessions, List.getElem?_set_self (List.getElem?_eq_some_iff.mp here).1]
    · refine acts_life hacts hlife (fun _ => hclose) ?_
      rintro - rfl
      exact hended k rfl a here hlife
    · rw [hseat (by rw [hbseat]; rfl)]
      exact hbseat
  · refine ⟨b, seat, ?_, hlife, hbseat, hroom, hseats seat hroom hmem⟩
    rw [hsessions, List.getElem?_set_ne hi]
    exact hb

/-- Who closes passes its seat on. -/
theorem Sitting.closes {os : List ServerEvent} (hl : Lawful parse log s) (h : Sitting s id i)
    (hlive : (s.rooms.rooms id).isSome) (hexec : exec parse s (.on_close i) = .ok (s', os)) :
    Passing s' id i ∨ Sitting s' id i := by
  have hsitting := h
  obtain ⟨a, seat, here, hlife, hseat, rfl, hmem⟩ := hsitting
  obtain ⟨room, hroom⟩ := Option.isSome_iff_exists.mp hlive
  rw [exec, with_session, here] at hexec
  dsimp only at hexec
  by_cases hfree : a.life = .opened ∧ a.stage = .idle
  · rw [if_pos hfree, on_close, hseat] at hexec
    dsimp only at hexec
    obtain ⟨r, hr, hrest⟩ := (bind_ok_iff _ _ _).mp hexec
    rw [RoomManager.exec, if_pos hmem] at hr
    dsimp only at hr
    rw [hroom] at hr
    obtain rfl := Except.ok.inj hr
    have hlonger : ¬ ({ s.rooms with seats := s.rooms.seats.erase seat }.then_do
        (.leave seat)).calls.length = s.rooms.calls.length := by
      simp [RoomManager.then_do]
    dsimp only at hrest
    rw [if_neg hlonger] at hrest
    obtain ⟨rfl, -⟩ := Prod.mk.inj (Except.ok.inj hrest)
    have hthere := List.getElem?_set_self (a :=
      { a with seat := some seat, life := .closed, stage := .leaving })
      (List.getElem?_eq_some_iff.mp here).1
    exact .inl ⟨_, .leave seat, hthere, beside_last hl.lengths _ _, rfl, rfl, rfl⟩
  · rw [if_neg hfree] at hexec
    obtain ⟨rfl, -⟩ := Prod.mk.inj (Except.ok.inj hexec)
    exact .inr h

/-- Who has a seat keeps it, or passes it on. -/
theorem Sitting.step {os : List ServerEvent} (hl : Lawful parse log s) (h : Sitting s id i)
    (hlive : (s.rooms.rooms id).isSome) (hexec : exec parse s input = .ok (s', os))
    (hended : ClosedFirst s input) (here : s.sessions[k]? = some a)
    (hacts : Acts parse input s.leases k a leases' a')
    (hsessions : s'.sessions = s.sessions.set k a') (hseat : a.seat.isSome → a'.seat = a.seat)
    (hseats : ∀ seat, seat.room = id → seat ∈ s.rooms.seats → seat ∈ s'.rooms.seats) :
    Passing s' id i ∨ Sitting s' id i := by
  by_cases hclose : input = .on_close i
  · subst hclose
    exact h.closes hl hlive hexec
  · exact .inr (h.keep here hacts hsessions hclose hended hseat hseats)

/-! ## One step -/

/-- Who is let in asks for a seat, under its own name. -/
theorem Asks.joins {op : RoomManager.Op} (h : Asks parse input k a op) (ha : s.rooms.Accounted)
    {p : Pending} (hbegins : RoomManager.Begins s.rooms op p) {j : RoomManager.Joiner}
    (hjoins : RoomManager.joins_as p = some j) : busy_stage op = .seating none ∧ Free a ∧
      a.seat = none ∧ ∃ user, a.pending = some user ∧ j.username = user.username := by
  cases h with
  | join_any user connection free seatless pending =>
      exact ⟨rfl, free, seatless, user, pending, (hbegins.made_for ha rfl).joins j hjoins⟩
  | create_room user key connection free seatless pending =>
      exact ⟨rfl, free, seatless, user, pending, (hbegins.made_for ha rfl).joins j hjoins⟩
  | join_room user name connection free seatless pending =>
      exact ⟨rfl, free, seatless, user, pending, (hbegins.made_for ha rfl).joins j hjoins⟩
  | enqueue seat message free seated plays said =>
      cases hbegins
      cases hjoins
  | on_disconnect seat free seated => cases hbegins

/-- Who is let in has another name than the first taker. -/
theorem First.rival (hl : Lawful parse log s) (h : First s id i) (here : s.sessions[k]? = some a)
    {op : RoomManager.Op} (hasks : Asks parse input k a op) {p : Pending}
    (hbegins : RoomManager.Begins s.rooms op p) {j : RoomManager.Joiner}
    (hjoins : RoomManager.joins_as p = some j) : j.username ∉ s.rooms.takers id := by
  obtain ⟨-, free, seatless, user, pending, hname⟩ := hasks.joins hl.accounted hbegins hjoins
  rw [hname]
  exact h.stranger hl here free seatless pending

theorem attached_of_joins {p : Pending} {j : RoomManager.Joiner}
    (h : RoomManager.joins_as p = some j) :
    RoomManager.attached p = some j.room ∧ RoomManager.visits p = false ∧
      RoomManager.leaving p = false := by
  cases p <;> first | (cases h; exact ⟨rfl, rfl, rfl⟩) | cases h

/-- A room that has a first taker is there. -/
theorem First.live (hl : Lawful parse log s) (h : First s id i) : (s.rooms.rooms id).isSome := by
  have hheld : 0 < s.rooms.ledger.held id := by
    rw [show s.rooms.ledger.held id = s.rooms.held id from rfl, h.held]
    exact Nat.one_pos
  obtain ⟨n, hn⟩ := hl.accounted.counted.open_of_held hheld
  obtain ⟨room, hroom, -⟩ := Option.map_eq_some_iff.mp hn
  rw [show s.rooms.rooms id = some room from hroom]
  rfl

/-- A session does something by itself. -/
theorem Paired.acts {os : List ServerEvent} (h : Paired s) (hl : Lawful parse log s)
    (hended : ClosedFirst s input) (here : s.sessions[k]? = some a)
    (hexec : exec parse s input = .ok ({ s with leases := leases' }.set k a', os))
    (hacts : Acts parse input s.leases k a leases' a') (halone : ¬ Calling a)
    (hsame : a'.seat = a.seat) : Paired ({ s with leases := leases' }.set k a') := by
  refine h.aside rfl ?_ ?_
  · intro j b seat hb hseat
    by_cases hj : k = j
    · subst hj
      have hlt := (List.getElem?_eq_some_iff.mp here).1
      obtain rfl := Option.some.inj ((List.getElem?_set_self hlt).symm.trans hb)
      exact ⟨a, here, hsame.symm.trans hseat⟩
    · exact ⟨b, (List.getElem?_set_ne hj).symm.trans hb, hseat⟩
  · intro id i hi
    refine hi.keep hl here hacts rfl hi.held (fun _ hname => hname) (.inl hsame) ?_
    rcases hi.attached with hpassing | hsitting
    · have hpassing' := hpassing
      obtain ⟨b, p, hb, hcall, hp⟩ := hpassing'
      exact .inl (hpassing.keep (hl.alone_ne here halone hcall).symm rfl fun _ hbeside _ => hbeside)
    · exact hsitting.step hl (hi.live hl) hexec hended here hacts rfl (fun _ => hsame)
        fun _ _ hmem => hmem

/-- A match ticks, or the directory changes. -/
theorem Paired.rooms_aside (h : Paired s) (hl : Lawful parse log s) {op : RoomManager.Op}
    {r : RoomManager × List RoomEvent} (hexec : RoomManager.exec s.rooms op = .ok r)
    (hop : (∃ room now elapsed_ms, op = .tick room now elapsed_ms) ∨
      ∃ name owner, op = .directory_changes name owner) : Paired { s with rooms := r.1 } := by
  obtain ⟨hcalls, hseats, hnone⟩ := RoomManager.exec_aside hexec hop
  refine h.moves hl hexec rfl h.placed (fun _ _ _ _ _ => hnone _)
    (fun _ _ p _ _ hbegins => absurd hbegins (hnone p))
    (fun p _ hbegins => absurd hbegins (hnone p)) ?_
  intro id i hi _ hheld htakers
  refine ⟨hheld, ?_, hi.others, ?_⟩
  · rcases hi.attached with ⟨b, p, hb, hcall, hrest⟩ | ⟨b, seat, hb, hlife, hseat, hroom, hmem⟩
    · refine .inl ⟨b, p, hb, ?_, hrest⟩
      show Beside s.callers r.1.calls i p
      rw [hcalls]
      exact hcall
    · refine .inr ⟨b, seat, hb, hlife, hseat, hroom, ?_⟩
      show seat ∈ r.1.seats
      rw [hseats]
      exact hmem
  · obtain ⟨b, user, hb, huser, hnames⟩ := hi.named
    exact ⟨b, user, hb, huser, fun name hname => hnames name (htakers name hname)⟩

end Server

end KungFuChess
