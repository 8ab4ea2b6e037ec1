/-
**Redirects.**

The rooms and the directory are two stores, written one after the other: a room is
registered after it can be found, and forgotten after it is gone. `join_room` looks
into both, one after the other, so what it finds need not be of one moment. A worker
sends a client to itself if at its second look a room of its own is there after all,
or is gone and not yet forgotten.

What stands in the directory under this worker's address is accounted for by its rooms
and by its pending calls (`Posting`): every such name is `posted`.
-/
import KungFuChess.Accounts

set_option autoImplicit false

namespace KungFuChess

open Machine

namespace RoomManager

/-! ## What this worker has in the directory -/

/-- The room that the call is to register, with its key. -/
def registering : Pending → Option (String × RoomId)
  | .create_room id key _ _ _ => some (key, id)
  | .register_room key seat => some (key, seat.room)
  | _ => none

/-- The name that the call is to forget. -/
def forgetting : Pending → Option String
  | .unschedule _ name | .forget_room name => if name = "" then none else some name
  | _ => none

/-- The name that the call is to look up in the directory. -/
def looking_up : Pending → Option String
  | .owner_of name => some name
  | _ => none

def registrations (s : RoomManager) : List (String × RoomId) := s.calls.filterMap registering

def removals (s : RoomManager) : List String := s.calls.filterMap forgetting

/-- A room of that name is here, and registered, or it is gone, and not yet forgotten. -/
def posted (s : RoomManager) (name : String) : Bool :=
  (s.named_rooms name).any (fun id => (name, id) ∉ s.registrations) || name ∈ s.removals

theorem posted_iff {s : RoomManager} {name : String} : s.posted name = true ↔
    (∃ id, s.named_rooms name = some id ∧ (name, id) ∉ s.registrations) ∨ name ∈ s.removals := by
  rw [posted, Bool.or_eq_true, Option.any_eq_true]
  simp

/-- What another worker writes into the directory. -/
def written : Op → Option (Option String)
  | .directory_changes _ owner => some owner
  | _ => none

/-- Only this worker writes its own address. -/
def OthersWrite (s : RoomManager) (op : Op) : Prop := ∀ owner ∈ written op, owner ≠ some s.self_url

/-- The name that the step looks up in the directory. -/
def looked_up (s : RoomManager) : Op → Option String
  | .proceed call => s.calls[call]?.bind looking_up
  | _ => none

/-- No name is looked up in the directory while it is posted. -/
def LooksElsewhere (s : RoomManager) (op : Op) : Prop :=
  ∀ name ∈ s.looked_up op, s.posted name = false

instance (s : RoomManager) (op : Op) : Decidable (OthersWrite s op) :=
  inferInstanceAs (Decidable (∀ owner ∈ written op, owner ≠ some s.self_url))

instance (s : RoomManager) (op : Op) : Decidable (LooksElsewhere s op) :=
  inferInstanceAs (Decidable (∀ name ∈ s.looked_up op, s.posted name = false))

/-! ## One part -/

/-- The tables after a part that leaves the calls `rest` to be made, and redirects nobody. -/
structure Stays (s s' : RoomManager) (os : List RoomEvent) (rest : List Pending) : Prop where
  url : s'.self_url = s.self_url
  named : s'.named_rooms = s.named_rooms
  directory : s'.directory = s.directory
  calls : s'.calls = s.calls ++ rest
  answer : ∀ url, .redirected url ∉ os

/-- What follows of a part that writes neither table: nothing more is to be registered, and
nothing is forgotten silently. -/
def Passes (s : RoomManager) (p : Pending) (s' : RoomManager) (os : List RoomEvent) : Prop :=
  ∃ rest, Stays s s' os rest ∧
    (rest.filterMap registering).Sublist (registering p).toList ∧
    (s.directory.isSome → (forgetting p).toList ⊆ rest.filterMap forgetting)

theorem passes_nothing {s s' : RoomManager} {p : Pending} {os : List RoomEvent}
    (hp : forgetting p = none) (hstays : Stays s s' os []) : Passes s p s' os := by
  refine ⟨[], hstays, List.nil_sublist _, ?_⟩
  intro _
  rw [hp]
  exact List.nil_subset _

theorem passes_call {s s' : RoomManager} {p q : Pending} {os : List RoomEvent}
    (hp : forgetting p = none) (hq : registering q = none) (hstays : Stays s s' os [q]) :
    Passes s p s' os := by
  refine ⟨[q], hstays, ?_, ?_⟩
  · simp [hq]
  · simp [hp]

/-- A part that asks its match has nothing to forget. -/
theorem forgetting_of_asks {p : Pending} {id : RoomId} (h : asks_match p = some id) :
    forgetting p = none := by
  cases p with
  | unschedule => cases h
  | forget_room => cases h
  | _ => rfl

/-- The answer of `join` is followed by a part that writes neither table. -/
theorem join_match_passes {s s' : RoomManager} {p : Pending} {id : RoomId} {username : String}
    {rating : Int} {connection : Connection} {os : List RoomEvent}
    {seated refused : RoomManager → Seat → RoomManager × List RoomEvent}
    (h : s.join_match id username rating connection seated refused = .ok (s', os))
    (hp : forgetting p = none)
    (hseated : ∀ t color, Passes t p (seated t ⟨id, color, false, 0⟩).1
      (seated t ⟨id, color, false, 0⟩).2)
    (hrefused : ∀ t seat, Passes t p (refused t seat).1 (refused t seat).2) :
    Passes s p s' os := by
  -- what `after_match` changes is in neither table
  have hafter : ∀ r t answer, Passes (s.after_match id r).1 p t answer →
      Passes s p t ((s.after_match id r).2 ++ answer) := by
    rintro r t answer ⟨rest, hstays, hregister, hforget⟩
    refine ⟨rest, ⟨hstays.url, hstays.named, hstays.directory, hstays.calls, ?_⟩, hregister,
      hforget⟩
    intro url hmem
    rcases List.mem_append.mp hmem with hmem | hmem
    · obtain ⟨e, -, he⟩ := List.mem_map.mp hmem
      cases he
    · exact hstays.answer url hmem
  obtain ⟨-, rfl, rfl⟩ | ⟨m, r, -, -, rfl, rfl⟩ | ⟨m, r, color, -, -, rfl, rfl⟩ :=
    join_match_cases h
  · exact passes_nothing hp ⟨rfl, rfl, rfl, (List.append_nil _).symm, by simp⟩
  · exact hafter r _ _ (hrefused _ _)
  · exact hafter r _ _ (hseated _ _)

/-- **One part of a call** writes a table only if it registers, reaps or forgets a room. -/
theorem resume_passes {s s' : RoomManager} {p : Pending} {os : List RoomEvent}
    (h : s.resume p = .ok (s', os)) (hlook : ∀ name, p ≠ .owner_of name)
    (hreg : ∀ key seat, p ≠ .register_room key seat) (hreap : ∀ id, p ≠ .reap id)
    (hforget : ∀ name, p ≠ .forget_room name) : Passes s p s' os := by
  have hreturn : ∀ (t : RoomManager) (seat : Seat) {q : Pending}, forgetting q = none →
      Passes t q (t.return_seat seat).1 (t.return_seat seat).2 := by
    intro t seat q hq
    exact passes_nothing hq ⟨rfl, rfl, rfl, (List.append_nil _).symm, by simp [return_seat]⟩
  have hrefuse : ∀ (t : RoomManager) (reason : String) {q : Pending}, forgetting q = none →
      Passes t q t [.refused reason] := by
    intro t reason q hq
    exact passes_nothing hq ⟨rfl, rfl, rfl, (List.append_nil _).symm, by simp⟩
  cases resume_cases h with
  | join_any id username rating connection s' os joins =>
      refine join_match_passes joins rfl (fun t color => hreturn t _ rfl) ?_
      intro t seat
      exact passes_call rfl rfl ⟨rfl, rfl, rfl, rfl, by simp⟩
  | create_room id key username rating connection s' os joins =>
      refine join_match_passes joins rfl ?_ (fun t seat => hrefuse t _ rfl)
      intro t color
      by_cases hdir : t.directory.isSome
      · rw [if_pos hdir]
        refine ⟨[.register_room key ⟨id, color, false, 0⟩], ⟨rfl, rfl, rfl, rfl, by simp⟩, ?_, ?_⟩
        · exact List.Sublist.refl _
        · simp [forgetting]
      · rw [if_neg hdir]
        exact hreturn t _ rfl
  | join id username rating connection s' os joins =>
      exact join_match_passes joins rfl (fun t color => hreturn t _ rfl)
        (fun t seat => hrefuse t _ rfl)
  | nowhere p id asks =>
      exact passes_nothing (forgetting_of_asks asks)
        ⟨rfl, rfl, rfl, (List.append_nil _).symm, by simp⟩
  | reconnected =>
      exact passes_nothing rfl ⟨rfl, rfl, rfl, (List.append_nil _).symm, by simp [after_match]⟩
  | not_reconnected => exact passes_call rfl rfl ⟨rfl, rfl, rfl, rfl, by simp [after_match]⟩
  | watches =>
      exact passes_nothing rfl ⟨rfl, rfl, rfl, (List.append_nil _).symm, by simp [after_match]⟩
  | full => exact passes_call rfl rfl ⟨rfl, rfl, rfl, rfl, by simp [after_match]⟩
  | enqueued => exact passes_nothing rfl ⟨rfl, rfl, rfl, (List.append_nil _).symm, by simp⟩
  | viewer_left => exact passes_call rfl rfl ⟨rfl, rfl, rfl, rfl, by simp [after_match]⟩
  | player_left => exact passes_call rfl rfl ⟨rfl, rfl, rfl, rfl, by simp [after_match]⟩
  | registered key seat => exact absurd rfl (hreg key seat)
  | redirected name => exact absurd rfl (hlook name)
  | unowned name => exact absurd rfl (hlook name)
  | undo_gone => exact hrefuse s _ rfl
  | undo_last => exact passes_call rfl rfl ⟨rfl, rfl, rfl, rfl, by simp⟩
  | undo_waits => exact passes_nothing rfl ⟨rfl, rfl, rfl, (List.append_nil _).symm, by simp⟩
  | undo_stays => exact passes_nothing rfl ⟨rfl, rfl, rfl, (List.append_nil _).symm, by simp⟩
  | give_back_gone => exact hrefuse s _ rfl
  | given_back => exact passes_nothing rfl ⟨rfl, rfl, rfl, (List.append_nil _).symm, by simp⟩
  | reap_gone id => exact absurd rfl (hreap id)
  | reap_stays id => exact absurd rfl (hreap id)
  | reaped id => exact absurd rfl (hreap id)
  | unscheduled id name silent =>
      refine ⟨[], ⟨rfl, rfl, rfl, (List.append_nil _).symm, by simp⟩, List.nil_sublist _, ?_⟩
      intro hdir
      -- without a name there is nothing to forget
      have hname : name = "" := by
        by_contra hne
        exact silent ⟨hdir, hne⟩
      simp [forgetting, hname]
  | forgets id name told =>
      refine ⟨[.forget_room name], ⟨rfl, rfl, rfl, rfl, by simp⟩, List.nil_sublist _, ?_⟩
      intro _
      simp [forgetting, told.2]
  | forgotten name => exact absurd rfl (hforget name)

/-! ## One step -/

/-- **What a step does** to the two tables, and to the calls that are to write them. -/
inductive Posts (s : RoomManager) (op : Op) (s' : RoomManager) : Prop
  | kept (named : s'.named_rooms = s.named_rooms) (directory : s'.directory = s.directory)
      (registrations : s'.registrations.Subperm s.registrations)
      (removals : s.directory.isSome → s.removals ⊆ s'.removals)
  /-- A room opens under a key nobody has, -/
  | created (key : String) (id : RoomId) (free : s.named_rooms key = none)
      (named : s'.named_rooms = Function.update s.named_rooms key (some id))
      (directory : s'.directory = s.directory)
      (registrations : s'.registrations = s.registrations ++ [(key, id)])
      (removals : s.removals ⊆ s'.removals)
  /-- and is registered, -/
  | registered (key : String) (id : RoomId) (named : s'.named_rooms = s.named_rooms)
      (directory : s'.directory = s.directory.map fun d => Function.update d key (some s.self_url))
      (registrations : (s'.registrations ++ [(key, id)]).Perm s.registrations)
      (removals : s.removals ⊆ s'.removals)
  /-- and is gone, -/
  | reaped (name : String) (id : RoomId) (live : s.named_rooms name = some id)
      (done : (name, id) ∉ s.registrations)
      (named : s'.named_rooms = Function.update s.named_rooms name none)
      (directory : s'.directory = s.directory)
      (registrations : s'.registrations.Subperm s.registrations)
      (removals : name :: s.removals ⊆ s'.removals)
  /-- and is forgotten; or another worker writes. -/
  | wrote (name : String) (owner : Option String)
      (other : owner = none ∨ op = .directory_changes name owner)
      (named : s'.named_rooms = s.named_rooms)
      (directory : s'.directory = s.directory.map fun d => Function.update d name owner)
      (registrations : s'.registrations.Subperm s.registrations)
      (removals : ∀ n ∈ s.removals, n ≠ name → n ∈ s'.removals)

/-- The whole of a step: only what the directory answers is passed on. -/
structure Notices (s : RoomManager) (op : Op) (s' : RoomManager) (os : List RoomEvent) : Prop where
  url : s'.self_url = s.self_url
  posts : Posts s op s'
  answer : ∀ url, .redirected url ∈ os →
    ∃ name ∈ s.looked_up op, ∃ d, s.directory = some d ∧ d name = some url

/-- A call goes on with something that registers no room, or there is nothing more to do. -/
theorem notices_of_stays {s s' : RoomManager} {op : Op} {os : List RoomEvent} {rest : List Pending}
    (hstays : Stays s s' os rest) (hrest : rest.filterMap registering = []) :
    Notices s op s' os := by
  refine ⟨hstays.url, .kept hstays.named hstays.directory ?_ ?_,
    fun url hmem => absurd hmem (hstays.answer url)⟩
  · rw [registrations, hstays.calls, List.filterMap_append, hrest, List.append_nil]
    exact List.Subperm.refl _
  · intro _
    rw [removals, removals, hstays.calls, List.filterMap_append]
    exact List.subset_append_left _ _

/-- What the calls are to do, with one of them set apart. -/
theorem take_filterMap {α : Type*} {s : RoomManager} {call : Nat} {p : Pending}
    (hc : s.calls[call]? = some p) (f : Pending → Option α) :
    ((s.calls.eraseIdx call).filterMap f ++ (f p).toList).Perm (s.calls.filterMap f) := by
  have hperm := (take_perm hc).filterMap f
  have hone : [p].filterMap f = (f p).toList := by
    cases hf : f p <;> simp [hf]
  rwa [List.filterMap_append, hone]
    at hperm

theorem take_subperm {α : Type*} {s : RoomManager} {call : Nat} {p : Pending}
    (hc : s.calls[call]? = some p) (f : Pending → Option α) :
    ((s.calls.eraseIdx call).filterMap f).Subperm (s.calls.filterMap f) :=
  ((List.sublist_append_left _ _).subperm).trans (take_filterMap hc f).subperm

/-- What the others are to do is in what all are to do, but for the one set apart. -/
theorem mem_take {α : Type*} {s : RoomManager} {call : Nat} {p : Pending} {x : α}
    (hc : s.calls[call]? = some p) (f : Pending → Option α) (hx : x ∈ s.calls.filterMap f)
    (hp : f p ≠ some x) : x ∈ (s.calls.eraseIdx call).filterMap f := by
  rcases List.mem_append.mp ((take_filterMap hc f).mem_iff.mpr hx) with h | h
  · exact h
  · exact absurd (Option.mem_toList.mp h) hp

/-- A part that writes neither table. -/
theorem notices_of_passes {s s' : RoomManager} {call : Nat} {p : Pending} {op : Op}
    {os : List RoomEvent} (hc : s.calls[call]? = some p)
    (h : Passes { s with calls := s.calls.eraseIdx call } p s' os) : Notices s op s' os := by
  obtain ⟨rest, hstays, hregister, hforget⟩ := h
  refine ⟨hstays.url, .kept hstays.named hstays.directory ?_ ?_,
    fun url hmem => absurd hmem (hstays.answer url)⟩
  · rw [registrations, hstays.calls, List.filterMap_append]
    exact ((List.Sublist.append_left hregister _).subperm).trans
      (take_filterMap hc registering).subperm
  · intro hdir name hname
    rw [removals, hstays.calls, List.filterMap_append]
    rcases List.mem_append.mp ((take_filterMap hc forgetting).mem_iff.mpr hname) with hothers | hp
    · exact List.mem_append_left _ hothers
    · exact List.mem_append_right _ (hforget hdir hp)

theorem attached_of_registering {p : Pending} {key : String} {id : RoomId}
    (h : registering p = some (key, id)) : attached p = some id := by
  cases p with
  | create_room id' key' username rating connection =>
      rw [← (Prod.mk.inj (Option.some.inj h)).2]
      rfl
  | register_room key' seat =>
      rw [← (Prod.mk.inj (Option.some.inj h)).2]
      rfl
  | _ => cases h

/-- A room that is yet to be registered is not left by its last connection. -/
theorem registered_of_last {s : RoomManager} (hacc : Accounted s) {call : Nat} {id : RoomId}
    {room : Room} (hc : s.calls[call]? = some (.reap id)) (hroom : s.rooms id = some room)
    (hlast : room.connected - 1 ≤ 0) (key : String) : (key, id) ∉ s.registrations := by
  intro hmem
  obtain ⟨p, hp, hreg⟩ := List.mem_filterMap.mp hmem
  have hcount : room.connected = s.held id := by
    have h := hacc.counted id
    rw [Ledger.counts, Function.comp_apply, show s.ledger.rooms id = some room from hroom] at h
    exact h
  -- the call that leaves counts, and so does the one that is to register the room
  have hperm := take_perm hc
  have hother : p ∈ s.calls.eraseIdx call := by
    rcases List.mem_append.mp (hperm.mem_iff.mpr hp) with h | h
    · exact h
    · rw [List.mem_singleton.mp h] at hreg
      cases hreg
  have hpos : 0 < (s.calls.eraseIdx call).countP fun p => attached p = some id := by
    refine List.countP_pos_iff.mpr ⟨p, hother, ?_⟩
    exact decide_eq_true (attached_of_registering hreg)
  have hself : [Pending.reap id].countP (fun p => attached p = some id) = 1 := by
    simp [attached]
  have hcalls := hperm.countP_eq fun p => decide (attached p = some id)
  rw [List.countP_append, hself] at hcalls
  have hheld : s.held id = s.seats.countP (fun seat => seat.room = id)
      + s.calls.countP (fun p => attached p = some id) := rfl
  omega

/-- With the room goes its name, and the call that reaps it is to forget it. -/
theorem reap_notices {s s' : RoomManager} (hacc : Accounted s) {call : Nat} {id : RoomId}
    {os : List RoomEvent} {op : Op} (hc : s.calls[call]? = some (.reap id))
    (h : Resumed { s with calls := s.calls.eraseIdx call } (.reap id) s' os) :
    Notices s op s' os := by
  have hidle : ∀ t os rest, Stays { s with calls := s.calls.eraseIdx call } t os rest →
      rest.filterMap registering = [] → Notices s op t os := by
    intro t os rest hstays hrest
    refine notices_of_passes hc ⟨rest, hstays, ?_, fun _ => List.nil_subset _⟩
    rw [hrest]
    exact List.nil_sublist _
  cases h with
  | nowhere _ _ asks => cases asks
  | reap_gone => exact hidle _ _ [] ⟨rfl, rfl, rfl, (List.append_nil _).symm, by simp⟩ rfl
  | reap_stays => exact hidle _ _ [] ⟨rfl, rfl, rfl, (List.append_nil _).symm, by simp⟩ rfl
  | reaped _ room here last =>
      by_cases hname : room.name = ""
      · rw [if_pos hname]
        exact hidle _ _ [.unschedule id room.name] ⟨rfl, rfl, rfl, rfl, by simp⟩ rfl
      · rw [if_neg hname]
        have hnamed : s.named_rooms room.name = some id :=
          (hacc.names.named _ _).mpr ⟨hname, congrArg (Option.map Room.name) here⟩
        refine ⟨rfl, .reaped room.name id hnamed (registered_of_last hacc hc here last _) rfl rfl
          ?_ ?_, by simp⟩
        · show (List.filterMap registering (s.calls.eraseIdx call ++ [_])).Subperm _
          rw [List.filterMap_append, show [_].filterMap registering = [] from rfl,
            List.append_nil]
          exact take_subperm hc registering
        · show _ ⊆ List.filterMap forgetting (s.calls.eraseIdx call ++ [_])
          rw [List.filterMap_append]
          refine List.cons_subset.mpr ⟨?_, ?_⟩
          · simp [forgetting, hname]
          · intro n hn
            exact List.mem_append_left _ (mem_take hc forgetting hn (by simp [forgetting]))

/-- Only what the directory says is passed on. -/
theorem owner_of_notices {s s' : RoomManager} {call : Nat} {name : String} {os : List RoomEvent}
    (hc : s.calls[call]? = some (.owner_of name))
    (h : Resumed { s with calls := s.calls.eraseIdx call } (.owner_of name) s' os) :
    Notices s (.proceed call) s' os := by
  have hkept : Posts s (.proceed call) { s with calls := s.calls.eraseIdx call } :=
    .kept rfl rfl (take_subperm hc registering) fun _ n hn =>
      mem_take hc forgetting hn (by simp [forgetting])
  cases h with
  | nowhere _ _ asks => cases asks
  | unowned => exact ⟨rfl, hkept, by simp⟩
  | redirected _ url owned =>
      obtain ⟨d, hdir, howner⟩ := Option.bind_eq_some_iff.mp owned
      refine ⟨rfl, hkept, ?_⟩
      intro url' hmem
      obtain rfl := RoomEvent.redirected.inj (List.mem_singleton.mp hmem)
      refine ⟨name, ?_, d, hdir, howner⟩
      rw [looked_up, hc]
      rfl

/-- One of the pending calls goes on. -/
theorem resumes_notices {s s' : RoomManager} (hacc : Accounted s) {call : Nat} {p : Pending}
    {os : List RoomEvent} (hc : s.calls[call]? = some p)
    (h : ({ s with calls := s.calls.eraseIdx call } : RoomManager).resume p = .ok (s', os)) :
    Notices s (.proceed call) s' os := by
  cases p with
  | owner_of name => exact owner_of_notices hc (resume_cases h)
  | register_room key seat =>
      obtain ⟨rfl, rfl⟩ := Prod.mk.inj (Except.ok.inj h)
      refine ⟨rfl, .registered key seat.room rfl rfl (take_filterMap hc registering) ?_, by simp⟩
      intro n hn
      exact mem_take hc forgetting hn (by simp [forgetting])
  | reap id => exact reap_notices hacc hc (resume_cases h)
  | forget_room name =>
      obtain ⟨rfl, rfl⟩ := Prod.mk.inj (Except.ok.inj h)
      refine ⟨rfl, .wrote name none (.inl rfl) rfl rfl (take_subperm hc registering) ?_, by simp⟩
      intro n hn hne
      refine mem_take hc forgetting hn ?_
      rw [forgetting]
      split_ifs
      · simp
      · simpa using hne.symm
  | _ => exact notices_of_passes hc (resume_passes h (by simp) (by simp) (by simp) (by simp))

theorem exec_notices {s s' : RoomManager} (hacc : Accounted s) {op : Op} {os : List RoomEvent}
    (h : exec s op = .ok (s', os)) : Notices s op s' os := by
  have hidle : Stays s s' os [] → Notices s op s' os := fun hstays => notices_of_stays hstays rfl
  have hstart : ∀ q, registering q = none → Stays s s' os [q] → Notices s op s' os := by
    intro q hq hstays
    refine notices_of_stays hstays ?_
    simp [hq]
  cases exec_cases h with
  | opens => exact hstart _ rfl ⟨rfl, rfl, rfl, rfl, by simp⟩
  | pairs => exact hstart _ rfl ⟨rfl, rfl, rfl, rfl, by simp⟩
  | creates key username rating connection drawn =>
      refine ⟨rfl, .created key s.next_room_id drawn.2 rfl rfl ?_ ?_, by simp⟩
      · exact List.filterMap_append
      · show _ ⊆ List.filterMap forgetting (s.calls ++ [_])
        rw [List.filterMap_append]
        exact List.subset_append_left _ _
  | draws_again => exact hidle ⟨rfl, rfl, rfl, (List.append_nil _).symm, by simp⟩
  | enters name username rating connection id s' os named enters =>
      cases enters with
      | nowhere => exact hidle ⟨rfl, rfl, rfl, (List.append_nil _).symm, by simp⟩
      | refused reason => exact hidle ⟨rfl, rfl, rfl, (List.append_nil _).symm, by simp⟩
      | back => exact hstart _ rfl ⟨rfl, rfl, rfl, rfl, by simp⟩
      | viewer => exact hstart _ rfl ⟨rfl, rfl, rfl, rfl, by simp⟩
      | player => exact hstart _ rfl ⟨rfl, rfl, rfl, rfl, by simp⟩
  | looks_up => exact hstart _ rfl ⟨rfl, rfl, rfl, rfl, by simp⟩
  | no_such_room => exact hidle ⟨rfl, rfl, rfl, (List.append_nil _).symm, by simp⟩
  | sends => exact hstart _ rfl ⟨rfl, rfl, rfl, rfl, by simp⟩
  | sends_nowhere => exact hidle ⟨rfl, rfl, rfl, (List.append_nil _).symm, by simp⟩
  | leaves => exact hstart _ rfl ⟨rfl, rfl, rfl, rfl, by simp⟩
  | leaves_nowhere => exact hidle ⟨rfl, rfl, rfl, (List.append_nil _).symm, by simp⟩
  | unheld => exact hidle ⟨rfl, rfl, rfl, (List.append_nil _).symm, by simp⟩
  | resumes call p s' os pending resumes => exact resumes_notices hacc pending resumes
  | no_call => exact hidle ⟨rfl, rfl, rfl, (List.append_nil _).symm, by simp⟩
  | ticks => exact hidle ⟨rfl, rfl, rfl, (List.append_nil _).symm, by simp [after_match]⟩
  | ticks_nothing => exact hidle ⟨rfl, rfl, rfl, (List.append_nil _).symm, by simp⟩
  | directory_changes name owner =>
      exact ⟨rfl, .wrote name owner (.inr rfl) rfl rfl (List.Subperm.refl _) (fun _ hn _ => hn),
        by simp⟩

/-! ## A whole run -/

/-- The calls that are to register a room are about rooms that are here, each about its own,
and what stands in the directory under this worker's address is posted. -/
structure Posting (s : RoomManager) : Prop where
  named : ∀ key id, (key, id) ∈ s.registrations → s.named_rooms key = some id
  once : s.registrations.Nodup
  posted : ∀ d name, s.directory = some d → d name = some s.self_url → s.posted name = true

variable {s s' : RoomManager} {op : Op}

theorem nodup_of_subperm {α : Type*} {xs ys : List α} (h : xs.Subperm ys) (hys : ys.Nodup) :
    xs.Nodup := by
  obtain ⟨zs, hperm, hsub⟩ := h
  exact hperm.nodup_iff.mp (hsub.nodup hys)

/-- What is posted stays so, where the room stays and the calls forget as much as before. -/
theorem posted_mono {name : String} (hnamed : s'.named_rooms name = s.named_rooms name)
    (hregistrations : ∀ id, (name, id) ∈ s'.registrations → (name, id) ∈ s.registrations)
    (hremovals : name ∈ s.removals → name ∈ s'.removals) (h : s.posted name = true) :
    s'.posted name = true := by
  rw [posted_iff] at h ⊢
  rcases h with ⟨id, hid, hdone⟩ | hforget
  · exact .inl ⟨id, hnamed.trans hid, fun hmem => hdone (hregistrations id hmem)⟩
  · exact .inr (hremovals hforget)

theorem Posting.step (h : Posting s) (hothers : OthersWrite s op) {os : List RoomEvent}
    (hn : Notices s op s' os) : Posting s' := by
  have hurl := hn.url
  cases hn.posts with
  | kept named directory registrations removals =>
      refine ⟨?_, nodup_of_subperm registrations h.once, ?_⟩
      · intro key id hmem
        rw [named]
        exact h.named key id (registrations.subset hmem)
      · intro d name hd howner
        rw [directory] at hd
        rw [hurl] at howner
        refine posted_mono (congrFun named name) (fun id hmem => registrations.subset hmem) ?_
          (h.posted d name hd howner)
        exact fun hn => removals (by rw [hd]; rfl) hn
  | created key id free named directory registrations removals =>
      have hfree : ∀ j, (key, j) ∉ s.registrations := by
        intro j hj
        rw [h.named key j hj] at free
        cases free
      refine ⟨?_, ?_, ?_⟩
      · intro k j hmem
        rw [registrations, List.mem_append, List.mem_singleton] at hmem
        rw [named]
        rcases hmem with hmem | hnew
        · have hk : k ≠ key := by
            rintro rfl
            exact hfree j hmem
          rw [Function.update_of_ne hk]
          exact h.named k j hmem
        · obtain ⟨rfl, rfl⟩ := Prod.mk.inj hnew
          exact Function.update_self ..
      · rw [registrations]
        refine List.Nodup.append h.once (List.nodup_singleton _) ?_
        exact List.disjoint_singleton.mpr (hfree id)
      · intro d name hd howner
        rw [directory] at hd
        rw [hurl] at howner
        have hposted := h.posted d name hd howner
        by_cases hname : name = key
        · -- no room had the key, so the one that was registered is to be forgotten
          subst hname
          rw [posted_iff] at hposted ⊢
          rcases hposted with ⟨j, hj, -⟩ | hforget
          · rw [free] at hj
            cases hj
          · exact .inr (removals hforget)
        · refine posted_mono ?_ ?_ (fun hn => removals hn) hposted
          · rw [named, Function.update_of_ne hname]
          · intro j hj
            rw [registrations, List.mem_append, List.mem_singleton] at hj
            exact hj.resolve_right fun hnew => hname (Prod.mk.inj hnew).1
  | registered key id named directory registrations removals =>
      have hsub : s'.registrations ⊆ s.registrations := fun x hx =>
        registrations.mem_iff.mp (List.mem_append_left _ hx)
      have hnodup := registrations.nodup_iff.mpr h.once
      have hmem : (key, id) ∈ s.registrations :=
        registrations.mem_iff.mp (List.mem_append_right _ (List.mem_singleton_self _))
      refine ⟨?_, hnodup.of_append_left, ?_⟩
      · intro k j hkj
        rw [named]
        exact h.named k j (hsub hkj)
      · intro d name hd howner
        rw [directory] at hd
        obtain ⟨d', hd', rfl⟩ := Option.map_eq_some_iff.mp hd
        by_cases hname : name = key
        · rw [hname, posted_iff]
          refine .inl ⟨id, ?_, ?_⟩
          · rw [named]
            exact h.named key id hmem
          · -- the call was the only one to register the room
            exact List.disjoint_singleton.mp (List.disjoint_of_nodup_append hnodup)
        · rw [Function.update_of_ne hname, hurl] at howner
          exact posted_mono (congrFun named name) (fun j hj => hsub hj) (fun hn => removals hn)
            (h.posted d' name hd' howner)
  | reaped gone id live done named directory registrations removals =>
      refine ⟨?_, nodup_of_subperm registrations h.once, ?_⟩
      · intro key j hmem
        have hj := h.named key j (registrations.subset hmem)
        have hkey : key ≠ gone := by
          rintro rfl
          obtain rfl := Option.some.inj (live.symm.trans hj)
          exact done (registrations.subset hmem)
        rw [named, Function.update_of_ne hkey]
        exact hj
      · intro d name hd howner
        rw [directory] at hd
        rw [hurl] at howner
        by_cases hname : name = gone
        · rw [posted_iff, hname]
          exact .inr (removals List.mem_cons_self)
        · refine posted_mono ?_ (fun j hj => registrations.subset hj)
            (fun hn => removals (List.mem_cons_of_mem _ hn)) (h.posted d name hd howner)
          rw [named, Function.update_of_ne hname]
  | wrote written owner other named directory registrations removals =>
      have hforeign : owner ≠ some s.self_url := by
        rcases other with rfl | rfl
        · simp
        · exact hothers owner rfl
      refine ⟨?_, nodup_of_subperm registrations h.once, ?_⟩
      · intro key j hmem
        rw [named]
        exact h.named key j (registrations.subset hmem)
      · intro d name hd howner
        rw [directory] at hd
        rw [hurl] at howner
        obtain ⟨d', hd', rfl⟩ := Option.map_eq_some_iff.mp hd
        have hname : name ≠ written := by
          rintro rfl
          rw [Function.update_self] at howner
          exact hforeign howner
        rw [Function.update_of_ne hname] at howner
        exact posted_mono (congrFun named name) (fun j hj => registrations.subset hj)
          (fun hn => removals name hn hname) (h.posted d' name hd' howner)

theorem posting_of_reach {s₀ : RoomManager} {tr : List RoomEvent} (hacc : Accounted s₀)
    (h₀ : Posting s₀) (hrun : Reach exec (fun s _ op => OthersWrite s op) s₀ s tr) :
    Accounted s ∧ Posting s := by
  refine hrun.invariant (P := fun s _ => Accounted s ∧ Posting s) ⟨hacc, h₀⟩ ?_
  rintro s _ op s' os _ ⟨hacc, hposting⟩ hothers hexec
  exact ⟨hacc.exec hexec, hposting.step hothers (exec_notices hacc hexec)⟩

/-- The address of a server is never changed. -/
theorem self_url_of_reach {s₀ : RoomManager} {tr : List RoomEvent} (hacc : Accounted s₀)
    (hrun : Reach exec anyStep s₀ s tr) : s.self_url = s₀.self_url := by
  have hkept : Accounted s ∧ s.self_url = s₀.self_url := by
    refine hrun.invariant (P := fun s _ => Accounted s ∧ s.self_url = s₀.self_url) ⟨hacc, rfl⟩ ?_
    rintro s _ op s' os _ ⟨hacc, hurl⟩ _ hexec
    exact ⟨hacc.exec hexec, (exec_notices hacc hexec).url.trans hurl⟩
  exact hkept.2

/-- **When a worker redirects a client to itself**: in no run that looks up no name which is
posted. -/
theorem never_to_itself {board_factory : RoomId → Board} {config : MotionFactory}
    {on_result : Bool} {disconnect_grace_ms : Int} {directory : Option (String → Option String)}
    {self_url : String} {s : RoomManager} {tr : List RoomEvent}
    (hfresh : ∀ d ∈ directory, ∀ name, d name ≠ some self_url)
    (hrun : Reach exec (fun s _ op => OthersWrite s op ∧ LooksElsewhere s op)
      (new board_factory config on_result disconnect_grace_ms directory self_url) s tr) :
    .redirected self_url ∉ tr := by
  have hacc := accounted_new board_factory config on_result disconnect_grace_ms directory self_url
  have hposting :
      Posting (new board_factory config on_result disconnect_grace_ms directory self_url) := by
    refine ⟨fun _ _ hmem => absurd hmem List.not_mem_nil, List.nodup_nil, ?_⟩
    intro d name hd howner
    exact absurd howner (hfresh d hd name)
  refine hrun.invariant (P := fun _ tr => .redirected self_url ∉ tr) List.not_mem_nil ?_
  rintro s tr op s' os hs hnever ⟨-, helse⟩ hexec hmem
  rcases List.mem_append.mp hmem with hbefore | hnow
  · exact hnever hbefore
  · obtain ⟨hacc', hposting'⟩ := posting_of_reach hacc hposting (hs.mono fun _ _ _ h => h.1)
    obtain ⟨name, hname, d, hd, howner⟩ := (exec_notices hacc' hexec).answer self_url hnow
    have hurl : s.self_url = self_url := self_url_of_reach hacc hs.any
    rw [← hurl] at howner
    have hposted := hposting'.posted d name hd howner
    rw [helse name hname] at hposted
    cases hposted

/-- A name that another worker has registered is redirected there. -/
theorem to_the_other_worker : ∃ s tr,
    run exec
      (new (fun _ => three_on_a_row) shipped_factory true 20000 (some fun _ => none) "ws://a")
      [.create_room "34679A" "a" 1200 ⟨1⟩, .proceed 0, .proceed 0,
        .directory_changes "34679C" (some "ws://b"), .join_room "34679C" "b" 1200 ⟨2⟩, .proceed 0]
      = .ok (s, tr) ∧
    .redirected "ws://b" ∈ tr ∧ .redirected "ws://a" ∉ tr := by
  obtain ⟨⟨s, tr⟩, hrun, hp⟩ := exists_ok_such (p := fun r => RoomEvent.redirected "ws://b" ∈ r.2)
    (x := run exec
      (new (fun _ => three_on_a_row) shipped_factory true 20000 (some fun _ => none) "ws://a")
      [.create_room "34679A" "a" 1200 ⟨1⟩, .proceed 0, .proceed 0,
        .directory_changes "34679C" (some "ws://b"), .join_room "34679C" "b" 1200 ⟨2⟩, .proceed 0])
    (by decide)
  refine ⟨s, tr, hrun, of_decide_eq_true hp, never_to_itself ?_ (reach_of_meets (by decide) hrun)⟩
  intro d hd name
  rw [← Option.some.inj hd]
  simp

/-- **A client sent back.** Its name is looked up after the room is gone, and before it is
forgotten. -/
theorem redirected_to_itself : ¬ ∀ (board_factory : RoomId → Board) (config : MotionFactory)
    (on_result : Bool) (disconnect_grace_ms : Int) (directory : Option (String → Option String))
    (self_url : String) (s : RoomManager) (tr : List RoomEvent),
    (∀ d ∈ directory, ∀ name, d name ≠ some self_url) →
    Reach exec (fun s _ op => OthersWrite s op)
      (new board_factory config on_result disconnect_grace_ms directory self_url) s tr →
    .redirected self_url ∉ tr := by
  intro h
  obtain ⟨⟨s, tr⟩, hrun, hp⟩ := exists_ok_such (p := fun r => RoomEvent.redirected "ws://a" ∈ r.2)
    (x := run exec
      (new (fun _ => three_on_a_row) shipped_factory true 20000 (some fun _ => none) "ws://a")
      [.create_room "34679A" "a" 1200 ⟨1⟩, .proceed 0, .proceed 0,
        .on_disconnect ⟨1, .White, false, 0⟩, .proceed 0, .proceed 0,
        .join_room "34679A" "b" 1200 ⟨2⟩, .proceed 1]) (by decide)
  refine h _ _ _ _ _ _ s tr ?_ (reach_of_meets (by decide) hrun) (of_decide_eq_true hp)
  intro d hd name
  rw [← Option.some.inj hd]
  simp

end RoomManager

end KungFuChess
