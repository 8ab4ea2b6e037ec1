/-
**The two players of a match are two accounts.**

The steps of the server go one by one through what a first taker may meet: another
session asks for a seat and is answered at once or later, its own call goes on, and its
own call comes back with the seat. In each the room has its first taker afterwards, or
it is gone, or a second account is let in.
-/
import KungFuChess.Rivals

set_option autoImplicit false

namespace KungFuChess

open Machine

namespace RoomManager

section Seats

variable {s s' : RoomManager} {op : Op} {os : List RoomEvent} {id : RoomId}

/-- The seats of a room stay where they are, unless one of them is passed on. -/
theorem seats_kept (hexec : exec s op = .ok (s', os))
    (hpasses : ∀ seat, op = .on_disconnect seat → seat ∈ s.seats → seat.room ≠ id) :
    ∀ seat, seat.room = id → seat ∈ s.seats → seat ∈ s'.seats := by
  intro seat hroom hmem
  cases exec_turn hexec with
  | passed other rest held about leaving answer calls seats matches_ =>
      rw [seats]
      refine (List.mem_erase_of_ne ?_).mpr hmem
      rintro rfl
      exact hpasses seat about held hroom
  | went call p rest about pending goes answer calls seats follows =>
      rw [seats]
      exact List.mem_append_left _ hmem
  | idle gone unheld answer calls seats matches_ => rwa [seats]
  | began p begins answer calls seats matches_ => rwa [seats]
  | opened p name begins answer calls seats matches_ => rwa [seats]
  | ticked j m now elapsed_ms r about here step answer calls seats matches_ => rwa [seats]

/-- A seat that is passed on without a call counts no more. -/
theorem passed_elsewhere {seat : Seat} (hexec : exec s (.on_disconnect seat) = .ok (s', os))
    (hmem : seat ∈ s.seats) (hcalls : s'.calls = s.calls) (hheld : s'.held id = s.held id) :
    seat.room ≠ id := by
  rintro rfl
  cases exec_turn hexec with
  | idle gone unheld answer calls seats matches_ => exact unheld seat rfl hmem
  | began p begins answer calls seats matches_ => cases begins
  | opened p name begins answer calls seats matches_ => cases begins
  | passed other rest held about leaving answer calls seats matches_ =>
      obtain rfl := Op.on_disconnect.inj about
      have hcount := held_passed held leaving calls seats seat.room
      rw [one_self] at hcount
      rcases leaving with rfl | rfl
      · simp [calls, Rest.call] at hcalls
      · have hnone : one ((Rest.nothing.call).bind attached) seat.room = 0 := one_none _
        omega
  | went call p rest about pending goes answer calls seats follows => cases about
  | ticked j m now elapsed_ms r about here step answer calls seats matches_ => cases about

end Seats

end RoomManager

namespace Server

variable {parse : String → Option Json} {input : Op} {log : Log} {s s' : Server} {id : RoomId}
  {i k : SessionId} {a a' : ClientSession} {os told : List ServerEvent} {call : Nat}
  {op : RoomManager.Op} {r : RoomManager × List RoomEvent}

/-! ## Asking -/

/-- A session's seat is in a room whose match is there. -/
theorem Paired.placed_set (h : Paired s) (here : s.sessions[k]? = some a)
    (hseat : a'.seat = a.seat ∨
      ∃ seat, a'.seat = some seat ∧ (s.rooms.match_of seat.room).isSome)
    (j : SessionId) (b : ClientSession) (seat : Seat)
    (hb : (s.sessions.set k a')[j]? = some b) (hbseat : b.seat = some seat) :
    (s.rooms.match_of seat.room).isSome := by
  by_cases hj : k = j
  · subst hj
    rw [List.getElem?_set_self (List.getElem?_eq_some_iff.mp here).1] at hb
    obtain rfl := Option.some.inj hb
    rcases hseat with hsame | ⟨new, hnew, hmatch⟩
    · exact h.placed k a seat here (hsame.symm.trans hbseat)
    · obtain rfl := Option.some.inj (hnew.symm.trans hbseat)
      exact hmatch
  · rw [List.getElem?_set_ne hj] at hb
    exact h.placed j b seat hb hbseat

/-- A call of the rooms that is back at once. -/
theorem Paired.answered (h : Paired s) (hl : Lawful parse log s) (hended : ClosedFirst s input)
    (here : s.sessions[k]? = some a) (hasks : Asks parse input k a op)
    (hrooms : RoomManager.exec s.rooms op = .ok r)
    (hlen : r.1.calls.length = s.rooms.calls.length)
    (hacts : Acts parse input s.leases k a s.leases a')
    (hsettled : Settled k a a' (answer_of r.2) told)
    (hexec : exec parse s input = .ok ({ s with rooms := r.1 }.set k a', os)) :
    Paired ({ s with rooms := r.1 }.set k a') := by
  obtain ⟨hreturned, hmore⟩ := RoomManager.exec_begins hrooms hasks.not_proceed
  have hcalls : r.1.calls = s.rooms.calls := by
    rcases hmore with hsame | ⟨p, hp, -⟩
    · exact hsame
    · rw [hp, List.length_append, List.length_singleton] at hlen
      omega
  have hseat : a'.seat = a.seat := by
    rcases hsettled with ⟨hsame, -⟩ | ⟨seat, -, hanswer, -⟩
    · exact hsame
    · rw [returned_of_answer hanswer] at hreturned
      cases hreturned
  refine h.moves hl hrooms rfl (h.placed_set here (.inl hseat))
    (fun _ _ hi => hi.no_return hl here hasks)
    (fun _ _ _ _ hi hbegins hjoins => hi.rival hl here hasks hbegins hjoins) ?_ ?_
  · intro p j _ _ hp
    simp [hcalls] at hp
  · intro id i hi hlive hheld htakers
    refine hi.keep hl here hacts rfl hheld htakers (.inl hseat) ?_
    rcases hi.attached with hpassing | hsitting
    · have hpassing' := hpassing
      obtain ⟨b, p, -, hcall, -⟩ := hpassing'
      refine .inl (hpassing.keep (hl.alone_ne here hasks.alone hcall).symm rfl ?_)
      intro q hbeside _
      show Beside s.callers r.1.calls i q
      rw [hcalls]
      exact hbeside
    · refine hsitting.step hl hlive hexec hended here hacts rfl (fun _ => hseat) ?_
      refine RoomManager.seats_kept hrooms ?_
      rintro seat rfl hmem
      exact RoomManager.passed_elsewhere hrooms hmem hcalls (hheld.trans hi.held.symm)

/-- **A call of the rooms begins**, and with it perhaps a room, or the first taker's way out. -/
theorem Paired.began (h : Paired s) (hl : Lawful parse log s) (hended : ClosedFirst s input)
    (here : s.sessions[k]? = some a) (hasks : Asks parse input k a op)
    (hrooms : RoomManager.exec s.rooms op = .ok r)
    (hlen : r.1.calls.length ≠ s.rooms.calls.length)
    (hacts : Acts parse input s.leases k a s.leases a')
    (hsame : a'.seat = a.seat ∧ a'.pending = a.pending) (hbusy : a'.stage = busy_stage op)
    (hexec : exec parse s input
      = .ok ({ s with rooms := r.1, callers := s.callers ++ [k] }.set k a', os)) :
    Paired ({ s with rooms := r.1, callers := s.callers ++ [k] }.set k a') := by
  obtain ⟨-, hnone | ⟨p, hcalls, hp⟩⟩ := RoomManager.exec_begins hrooms hasks.not_proceed
  · exact absurd (congrArg List.length hnone) hlen
  have hself : (s.sessions.set k a')[k]? = some a' :=
    List.getElem?_set_self (List.getElem?_eq_some_iff.mp here).1
  have hlast : Beside (s.callers ++ [k]) r.1.calls k p := by
    rw [hcalls]
    exact beside_last hl.lengths k p
  have hplaced := h.placed_set here (.inl hsame.1)
  refine h.moves hl hrooms rfl hplaced (fun _ _ hi => hi.no_return hl here hasks)
    (fun _ _ _ _ hi hbegins hjoins => hi.rival hl here hasks hbegins hjoins) ?_ ?_
  · intro q j hbegins hjoins hmore hroom hheld htakers
    obtain rfl : p = q := List.singleton_inj.mp (List.append_cancel_left (hcalls.symm.trans hmore))
    obtain ⟨hseating, -, -, user, huser, hname⟩ := hasks.joins hl.accounted hbegins hjoins
    obtain ⟨hattached, hvisits, hleaving⟩ := attached_of_joins hjoins
    refine ⟨k, hheld, .inl ⟨a', p, hself, hlast, hattached, hvisits, ?_⟩, ?_, ?_⟩
    · rw [hbusy, hseating, hleaving]
      rfl
    · intro i b seat hb hbseat hthere
      have hmatch := hplaced i b seat hb hbseat
      rw [hthere, hroom, hl.accounted.fresh] at hmatch
      cases hmatch
    · refine ⟨a', user, hself, hsame.2.trans huser, ?_⟩
      intro name hmem
      have hmem : name ∈ r.1.takers j.room := hmem
      rw [htakers] at hmem
      rw [List.mem_singleton.mp hmem, hname]
  · intro id i hi hlive hheld htakers
    refine hi.keep hl here hacts rfl hheld htakers (.inl hsame.1) ?_
    by_cases hpass : ∃ seat, op = .on_disconnect seat ∧ seat.room = id
    · -- the first taker leaves
      obtain ⟨seat, rfl, hroom⟩ := hpass
      obtain rfl : p = .leave seat := by
        rcases hp with hbegins | ⟨other, hop, hleave⟩
        · cases hbegins
        · rw [hleave, RoomManager.Op.on_disconnect.inj hop]
      cases hasks with
      | on_disconnect _ free seated =>
          obtain rfl := hi.others k a seat here seated hroom
          exact .inl ⟨a', .leave seat, hself, hlast, congrArg some hroom, rfl, hbusy⟩
    · rcases hi.attached with hpassing | hsitting
      · have hpassing' := hpassing
        obtain ⟨b, q, -, hcall, -⟩ := hpassing'
        refine .inl (hpassing.keep (hl.alone_ne here hasks.alone hcall).symm rfl ?_)
        intro q hbeside _
        show Beside (s.callers ++ [k]) r.1.calls i q
        rw [hcalls]
        exact hbeside.append [k] [p]
      · refine hsitting.step hl hlive hexec hended here hacts rfl (fun _ => hsame.1) ?_
        refine RoomManager.seats_kept hrooms ?_
        intro seat hop _ hroom
        exact hpass ⟨seat, hop, hroom⟩

/-! ## A call goes on -/

/-- A session has one call under way. -/
theorem Lawful.one_call (hl : Lawful parse log s) (caller : s.callers[call]? = some i)
    {p q : Pending} (hp : s.rooms.calls[call]? = some p)
    (hbeside : Beside s.callers s.rooms.calls i q) : q = p := by
  obtain ⟨n, hn, hq⟩ := hbeside
  obtain ⟨hlt, -⟩ := List.getElem?_eq_some_iff.mp hn
  obtain rfl := (List.getElem?_inj hlt hl.nodup).mp (hn.trans caller.symm)
  exact Option.some.inj (hq.symm.trans hp)

/-- A call that is about another room is not the first taker's. -/
theorem Passing.other (h : Passing s id i) (hl : Lawful parse log s)
    (caller : s.callers[call]? = some k) {p : Pending} (hp : s.rooms.calls[call]? = some p)
    (hother : RoomManager.attached p ≠ some id) : k ≠ i := by
  rintro rfl
  obtain ⟨b, q, -, hcall, hattached, -⟩ := h
  rw [hl.one_call caller hp hcall] at hattached
  exact hother hattached

theorem hear_none (a : ClientSession) : a.hear none = a := by
  unfold ClientSession.hear
  split
  · rename_i earlier hstage
    rw [Option.or_none, ← hstage]
  · rfl

/-- No call begins where one goes on. -/
theorem not_begins_proceed {s : RoomManager} {call : Nat} (p : Pending) :
    ¬ RoomManager.Begins s (.proceed call) p := by
  rintro hbegins
  cases hbegins

/-- **A call goes on**, and is the first taker's afterwards if it was before. -/
theorem Paired.waits (h : Paired s) (hl : Lawful parse log s) (hended : ClosedFirst s input)
    (caller : s.callers[call]? = some k) (here : s.sessions[k]? = some a)
    (hrooms : RoomManager.exec s.rooms (.proceed call) = .ok r)
    (hlen : r.1.calls.length = s.rooms.calls.length)
    (hexec : exec parse s input = .ok ({ s with
      rooms := r.1, callers := s.callers.eraseIdx call ++ [k] }.set k (a.hear (answer_of r.2)),
      os)) :
    Paired ({ s with rooms := r.1, callers := s.callers.eraseIdx call ++ [k] }.set k
      (a.hear (answer_of r.2))) := by
  obtain ⟨p, hp, -⟩ := hl.pending caller here
  obtain ⟨rest, hattends, hreturned⟩ := RoomManager.proceed_attends hrooms hp
  obtain ⟨q, rfl⟩ := (call_left (List.getElem?_eq_some_iff.mp hp).1 hattends.calls).mp hlen
  have hcalls : r.1.calls = s.rooms.calls.eraseIdx call ++ [q] := hattends.calls
  have hacts : Acts parse input s.leases k a s.leases (a.hear (answer_of r.2)) := .waits _
  refine h.moves hl hrooms rfl (h.placed_set here (.inl (hear_seat a _)))
    (fun _ _ _ _ _ => not_begins_proceed _)
    (fun _ _ p _ _ hbegins => absurd hbegins (not_begins_proceed p))
    (fun p _ hbegins => absurd hbegins (not_begins_proceed p)) ?_
  intro id i hi hlive hheld htakers
  refine hi.keep hl here hacts rfl hheld htakers (.inl (hear_seat a _)) ?_
  have hcount := RoomManager.held_attends hp hattends id
  have hnone : RoomManager.one (((RoomManager.Rest.goes_on q).seat).map Seat.room) id = 0 :=
    RoomManager.one_none id
  by_cases hattached : RoomManager.attached p = some id
  · -- the rest of the call is attached where the call was
    obtain ⟨rfl, hvisits, b, hb, hstage⟩ := hi.call ⟨call, caller, hp⟩ hattached
    obtain rfl := Option.some.inj (here.symm.trans hb)
    rw [hattached, RoomManager.one_self] at hcount
    have hq : RoomManager.attached q = some id := by
      by_contra hne
      have hgone : RoomManager.one (((RoomManager.Rest.goes_on q).call).bind
        RoomManager.attached) id = 0 := RoomManager.one_of_ne hne
      have hone := hi.held
      omega
    rcases hattends.call q rfl with hfree | ⟨-, hvisits', hleaving, hwelcome⟩
    · rw [hfree] at hq
      cases hq
    · have hanswer : answer_of r.2 = none := by
        rw [answer_of_welcomes hwelcome, hreturned]
        rfl
      have hself : (s.sessions.set k (a.hear (answer_of r.2)))[k]? = some a := by
        rw [List.getElem?_set_self (List.getElem?_eq_some_iff.mp here).1, hanswer, hear_none]
      refine .inl ⟨a, q, hself, ?_, hq, hvisits'.trans hvisits, ?_⟩
      · show Beside (s.callers.eraseIdx call ++ [k]) r.1.calls k q
        rw [hcalls]
        refine beside_last ?_ k q
        rw [List.length_eraseIdx, List.length_eraseIdx, hl.lengths]
      · rw [hleaving]
        exact hstage
  · rcases hi.attached with hpassing | hsitting
    · have hne := hpassing.other hl caller hp hattached
      refine .inl (hpassing.keep hne rfl ?_)
      intro q' hbeside _
      show Beside (s.callers.eraseIdx call ++ [k]) r.1.calls i q'
      rw [hcalls]
      exact (beside_of_ne hbeside caller hne.symm).append [k] [q]
    · refine hsitting.step hl hlive hexec hended here hacts rfl (fun _ => hear_seat a _) ?_
      exact RoomManager.seats_kept hrooms (by simp)

/-- **A call comes back**: the first taker has its seat, or somebody else's call is over. -/
theorem Paired.comes_back (h : Paired s) (hl : Lawful parse log s) (hended : ClosedFirst s input)
    (caller : s.callers[call]? = some k) (here : s.sessions[k]? = some a)
    (hrooms : RoomManager.exec s.rooms (.proceed call) = .ok r)
    (hlen : r.1.calls.length ≠ s.rooms.calls.length)
    (hacts : Acts parse input s.leases k a s.leases a')
    (hsettled : Settled k a a' (heard a (answer_of r.2)) told)
    (hsits : ∀ seat, a.stage = .seating none → answer_of r.2 = some (.seat seat) →
      a'.seat = some seat)
    (hexec : exec parse s input
      = .ok ({ s with rooms := r.1, callers := s.callers.eraseIdx call }.set k a', os)) :
    Paired ({ s with rooms := r.1, callers := s.callers.eraseIdx call }.set k a') := by
  obtain ⟨p, hp, hserves⟩ := hl.pending caller here
  obtain ⟨rest, hattends, hreturned⟩ := RoomManager.proceed_attends hrooms hp
  have hover : rest.call = none := by
    cases rest with
    | goes_on q =>
        exact absurd ((call_left (List.getElem?_eq_some_iff.mp hp).1 hattends.calls).mpr ⟨q, rfl⟩)
          hlen
    | nothing | returns seat => rfl
  have hcalls : r.1.calls = s.rooms.calls.eraseIdx call := by
    rw [hattends.calls, hover]
    exact List.append_nil _
  -- a seat that is new is the one that the call returns, in the room it was about
  have hnew : ∀ seat, Asking a → heard a (answer_of r.2) = some (.seat seat) →
      a.seat = none ∧ RoomManager.attached p = some seat.room := by
    intro seat hasking hanswer
    obtain ⟨earlier, hstage⟩ : ∃ earlier, a.stage = .seating earlier := by
      rcases hasking with ⟨hfree, -⟩ | hstage
      · exact absurd hserves.calling hfree.alone
      · exact hstage
    obtain ⟨hseatless, hunanswered⟩ := (hl.sessions k a here).waiting earlier hstage
    refine ⟨hseatless, ?_⟩
    rw [heard, hstage] at hanswer
    rcases Option.or_eq_some_iff.mp hanswer with hbefore | ⟨-, hnow⟩
    · exact absurd hbefore (hunanswered seat)
    · exact (hattends.seat seat (hreturned.symm.trans (returned_of_answer hnow))).1
  have hseat : a'.seat = a.seat ∨ ∃ seat, a'.seat = some seat ∧ a.seat = none ∧
      RoomManager.attached p = some seat.room := by
    rcases hsettled with ⟨hsame, -⟩ | ⟨seat, hasking, hanswer, hgot, -⟩
    · exact .inl hsame
    · exact .inr ⟨seat, hgot, hnew seat hasking hanswer⟩
  have hplaced : a'.seat = a.seat ∨
      ∃ seat, a'.seat = some seat ∧ (s.rooms.match_of seat.room).isSome := by
    refine hseat.imp_right ?_
    rintro ⟨seat, hgot, -, hattached⟩
    refine ⟨seat, hgot, hl.accounted.homes.here _ ?_⟩
    have hpos : 0 < s.rooms.ledger.held seat.room := by
      refine Nat.add_pos_right _ ?_
      exact List.countP_pos_iff.mpr ⟨p, List.mem_of_getElem? hp, decide_eq_true hattached⟩
    obtain ⟨n, hn⟩ := hl.accounted.counted.open_of_held hpos
    obtain ⟨room, hroom, -⟩ := Option.map_eq_some_iff.mp hn
    rw [hroom]
    rfl
  refine h.moves hl hrooms rfl (h.placed_set here hplaced)
    (fun _ _ _ _ _ => not_begins_proceed _)
    (fun _ _ p _ _ hbegins => absurd hbegins (not_begins_proceed p))
    (fun p _ hbegins => absurd hbegins (not_begins_proceed p)) ?_
  intro id i hi hlive hheld htakers
  have hcount := RoomManager.held_attends hp hattends id
  have hnone : RoomManager.one (rest.call.bind RoomManager.attached) id = 0 := by
    rw [hover]
    exact RoomManager.one_none id
  by_cases hattached : RoomManager.attached p = some id
  · -- the first taker is back with its seat
    obtain ⟨rfl, -, b, hb, hstage⟩ := hi.call ⟨call, caller, hp⟩ hattached
    obtain rfl := Option.some.inj (here.symm.trans hb)
    refine hi.keep hl here hacts rfl hheld htakers (hseat.imp_right ?_) ?_
    · rintro ⟨seat, hgot, -⟩
      exact ⟨seat, hgot, fun _ => rfl⟩
    · rw [hattached, RoomManager.one_self] at hcount
      cases hrest : rest.seat with
      | none =>
          rw [hrest] at hcount
          have hgone : RoomManager.one ((none : Option Seat).map Seat.room) id = 0 :=
            RoomManager.one_none id
          have hone := hi.held
          omega
      | some seat =>
          obtain ⟨hroom, hleaving, hwelcome⟩ := hattends.seat seat hrest
          rw [hleaving] at hstage
          have hseating : a.stage = .seating none := hstage
          have hanswer : answer_of r.2 = some (.seat seat) := by
            rw [answer_of_welcomes hwelcome, hreturned, hrest]
            rfl
          have hlife : a'.life = .opened := by
            refine acts_life hacts ((hl.tidy.kept k a here).seating hseating).2.2.1 ?_ ?_
            · intro hfree
              cases hseating.symm.trans hfree.2
            · intro hidle
              cases hseating.symm.trans hidle
          refine .inr ⟨a', seat, ?_, hlife, hsits seat hseating hanswer,
            Option.some.inj (hroom.symm.trans hattached), ?_⟩
          · exact List.getElem?_set_self (List.getElem?_eq_some_iff.mp here).1
          · show seat ∈ r.1.seats
            rw [hattends.seats, hrest]
            exact List.mem_append_right _ (List.mem_singleton_self _)
  · refine hi.keep hl here hacts rfl hheld htakers (hseat.imp_right ?_) ?_
    · rintro ⟨seat, hgot, -, hroom⟩
      exact ⟨seat, hgot, fun hid => absurd (hid ▸ hroom) hattached⟩
    · rcases hi.attached with hpassing | hsitting
      · have hne := hpassing.other hl caller hp hattached
        refine .inl (hpassing.keep hne rfl ?_)
        intro q hbeside _
        show Beside (s.callers.eraseIdx call) r.1.calls i q
        rw [hcalls]
        exact beside_of_ne hbeside caller hne.symm
      · refine hsitting.step hl hlive hexec hended here hacts rfl ?_ ?_
        · intro hseated
          rcases hseat with hsame | ⟨seat, -, hseatless, -⟩
          · exact hsame
          · rw [hseatless] at hseated
            cases hseated
        · exact RoomManager.seats_kept hrooms (by simp)

/-! ## Runs -/

/-- A session that connects takes nothing. -/
theorem Paired.connects (h : Paired s) (connection : Connection) :
    Paired { s with sessions := s.sessions ++ [{ connection := connection }] } := by
  have hold : ∀ (j : SessionId) (b : ClientSession), s.sessions[j]? = some b →
      (s.sessions ++ [{ connection := connection }])[j]? = some b := by
    intro j b hb
    rw [List.getElem?_append_left (List.getElem?_eq_some_iff.mp hb).1]
    exact hb
  have hnew : ∀ (j : SessionId) (b : ClientSession) (seat : Seat),
      (s.sessions ++ [{ connection := connection }])[j]? = some b → b.seat = some seat →
      ∃ c, s.sessions[j]? = some c ∧ c.seat = some seat := by
    intro j b seat hb hbseat
    by_cases hj : j < s.sessions.length
    · rw [List.getElem?_append_left hj] at hb
      exact ⟨b, hb, hbseat⟩
    · rw [List.getElem?_append_right (Nat.le_of_not_lt hj)] at hb
      rw [List.mem_singleton.mp (List.mem_of_getElem? hb)] at hbseat
      cases hbseat
  refine h.aside rfl hnew ?_
  intro id i hi
  refine ⟨hi.held, ?_, ?_, ?_⟩
  · rcases hi.attached with ⟨b, p, hb, hrest⟩ | ⟨b, seat, hb, hrest⟩
    · exact .inl ⟨b, p, hold i b hb, hrest⟩
    · exact .inr ⟨b, seat, hold i b hb, hrest⟩
  · intro j b seat hb hbseat hroom
    obtain ⟨c, hc, hcseat⟩ := hnew j b seat hb hbseat
    exact hi.others j c seat hc hcseat hroom
  · obtain ⟨b, user, hb, hrest⟩ := hi.named
    exact ⟨b, user, hold i b hb, hrest⟩

/-- **The step lemma.** -/
theorem Paired.exec (h : Paired s) (hl : Lawful parse log s) (hended : ClosedFirst s input)
    (hexec : exec parse s input = .ok (s', os)) : Paired s' := by
  cases exec_does hexec with
  | nothing hushed => exact h
  | connects connection => exact h.connects connection
  | leases op =>
      refine h.aside rfl (fun _ b _ hb hseat => ⟨b, hb, hseat⟩) ?_
      intro id i hi
      exact ⟨hi.held, hi.attached, hi.others, hi.named⟩
  | acts here acts alone same hushed => exact h.acts hl hended here hexec acts alone same
  | rooms exec other => exact h.rooms_aside hl exec other
  | answered here asks exec at_once acts settled =>
      exact h.answered hl hended here asks exec at_once acts settled hexec
  | began here asks exec pending acts same busy =>
      exact h.began hl hended here asks exec pending acts same busy hexec
  | waits caller here exec pending => exact h.waits hl hended caller here exec pending hexec
  | comes_back caller here exec finished acts returned settled sits =>
      exact h.comes_back hl hended caller here exec finished acts settled sits hexec

variable {board_factory : RoomId → Board} {config : MotionFactory} {on_result : Bool}
  {disconnect_grace_ms : Int} {directory : Option (String → Option String)} {self_url : String}

theorem paired_new : Paired (new (.new board_factory config on_result disconnect_grace_ms directory
    self_url)) where
  taken id room hroom := by cases hroom
  placed i a seat ha := by simp [new] at ha
  first id room hroom := by cases hroom
  distinct id := List.nodup_nil

/-- **Every room with one seat taken has its first taker, in every state reached.** -/
theorem paired_of_reach (hr : Reach (logged (exec parse)) (fun s _ op => ClosedFirst s op)
    (new (.new board_factory config on_result disconnect_grace_ms directory self_url)) s log) :
    Lawful parse log s ∧ Paired s := by
  refine Reach.invariant (P := fun s log => Lawful parse log s ∧ Paired s) ?_ ?_ hr
  · exact ⟨lawful_new board_factory config on_result disconnect_grace_ms directory self_url,
      paired_new⟩
  · rintro s log input s' entries _ ⟨hl, h⟩ hended hstep
    obtain ⟨os, hexec, rfl⟩ := logged_ok_iff.mp hstep
    exact ⟨hl.exec hexec, h.exec hl hended hexec⟩

/-- **Nobody is matched against themselves.** However the calls of the sessions, the parts of
these calls, the ticks of the matches and the other holders of leases are interleaved, as long
as `on_close` is the last call of a session before it is destroyed: the two players of a match
have different usernames. -/
theorem never_against_oneself {m : Match}
    (hr : Reach (logged (exec parse)) (fun s _ op => ClosedFirst s op)
      (new (.new board_factory config on_result disconnect_grace_ms directory self_url)) s log)
    (hm : s.rooms.match_of id = some m) (hwhite : (m.audience.player .White).isSome)
    (hblack : (m.audience.player .Black).isSome) :
    m.audience.username_of .White ≠ m.audience.username_of .Black := by
  have hdistinct := (paired_of_reach hr).2.distinct id
  unfold RoomManager.takers RoomManager.names_in at hdistinct
  rw [hm, Option.elim_some] at hdistinct
  exact MatchAudience.ne_of_nodup hdistinct.of_append_left hwhite hblack

/-- The text of another login. -/
def bob_text : String :=
  "\x7b\"payload\":\x7b\"password\":\"secret\",\"username\":\"bob\"\x7d,\"type\":\"Login\"\x7d"

/-- A parser for the texts of this run. -/
def parse_two (text : String) : Option Json :=
  if text = login_text then some (ClientMessage.Login "alice" "secret").to_json
  else if text = bob_text then some (ClientMessage.Login "bob" "secret").to_json
  else if text = play_text then some ClientMessage.Play.to_json
  else none

/-- A session connects, logs in and asks to play. -/
def comes_to_play (i : SessionId) (text : String) : List Op :=
  [.connect ⟨i⟩, .on_text i text ⟨0, true, ⟨true, "", 1200⟩, ""⟩, .go_on i "", .go_on i "",
    .go_on i "", .go_on i "", .on_text i play_text ⟨0, true, {}, ""⟩]

/-- Alice waits and drops; she is back before her seat is passed on, is turned away while
her lease is held, and waits again afterwards; Bob is matched with her. -/
def alice_meets_bob : List Op :=
  comes_to_play 0 login_text ++ [.proceed 0, .on_close 0] ++ comes_to_play 1 login_text ++
    [.proceed 0, .proceed 0, .proceed 0, .go_on 0 "", .destroy 0] ++
    comes_to_play 2 login_text ++ [.proceed 0] ++ comes_to_play 3 bob_text ++ [.proceed 0]

theorem alice_is_not_alone : ∃ s log m,
    run (logged (exec parse_two))
      (new (.new (fun _ => three_on_a_row) shipped_factory true 20000 none "")) alice_meets_bob
      = .ok (s, log) ∧
    s.rooms.match_of 2 = some m ∧ (m.audience.player .White).isSome ∧
    (m.audience.player .Black).isSome ∧
    m.audience.username_of .White ≠ m.audience.username_of .Black := by
  obtain ⟨⟨s, log⟩, hrun, hseen⟩ := exists_ok_such
    (p := fun r => (r.1.rooms.match_of 2).any fun m =>
      (m.audience.player .White).isSome && (m.audience.player .Black).isSome)
    (x := run (logged (exec parse_two))
      (new (.new (fun _ => three_on_a_row) shipped_factory true 20000 none "")) alice_meets_bob)
    (by decide)
  obtain ⟨m, hm, hplayers⟩ := Option.any_eq_true _ _ |>.mp hseen
  obtain ⟨hwhite, hblack⟩ := Bool.and_eq_true_iff.mp hplayers
  exact ⟨s, log, m, hrun, hm, hwhite, hblack,
    never_against_oneself (reach_of_meets (by decide) hrun) hm hwhite hblack⟩

end Server

end KungFuChess
