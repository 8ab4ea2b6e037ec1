/-
**The life of a room key.**

A key is drawn, its room is registered, found by its name, reaped, and forgotten, in
that order and each by a part of a call of its own. `Redirects` bounds what a part may
do to the calls that are to register or forget a room; here it is said exactly
(`Lifecycle`), for a worker that has a directory.
-/
import KungFuChess.Fleet
import KungFuChess.Redirects

set_option autoImplicit false

namespace KungFuChess

open Machine

namespace RoomManager

/-- The command, if it writes. -/
def written_by (s : RoomManager) (op : Op) : Option DirectoryCommand :=
  (s.command_of op).filter fun
    | .owner_of _ => false
    | _ => true

/-- **What a step does** to the names, and to the calls that are to register or forget one. -/
inductive Lifecycle (s : RoomManager) (op : Op) (s' : RoomManager) : Prop
  | kept (unwritten : s.written_by op = none) (undrawn : s.draws op = none)
      (named : s'.named_rooms = s.named_rooms)
      (registrations : s'.registrations.Perm s.registrations)
      (removals : s'.removals.Perm s.removals)
  | created (key : String) (id : RoomId) (unwritten : s.written_by op = none)
      (drawn : s.draws op = some key)
      (named : s'.named_rooms = Function.update s.named_rooms key (some id))
      (registrations : s'.registrations = s.registrations ++ [(key, id)])
      (removals : s'.removals.Perm s.removals)
  | registered (key : String) (id : RoomId)
      (written : s.written_by op = some (.register_room key s.self_url))
      (undrawn : s.draws op = none) (named : s'.named_rooms = s.named_rooms)
      (registrations : ((key, id) :: s'.registrations).Perm s.registrations)
      (removals : s'.removals.Perm s.removals)
  | reaped (name : String) (id : RoomId) (unwritten : s.written_by op = none)
      (undrawn : s.draws op = none) (live : s.named_rooms name = some id)
      (done : (name, id) ∉ s.registrations)
      (named : s'.named_rooms = Function.update s.named_rooms name none)
      (registrations : s'.registrations.Perm s.registrations)
      (removals : s'.removals.Perm (name :: s.removals))
  | forgotten (name : String) (written : s.written_by op = some (.forget_room name))
      (undrawn : s.draws op = none) (named : s'.named_rooms = s.named_rooms)
      (registrations : s'.registrations.Perm s.registrations)
      (removals : (if name = "" then s'.removals else name :: s'.removals).Perm s.removals)

/-- What a part leaves to be done in its place. -/
structure Hands (s s' : RoomManager) (p : Pending) (rest : List Pending) : Prop where
  named : s'.named_rooms = s.named_rooms
  calls : s'.calls = s.calls ++ rest
  registrations : rest.filterMap registering = (registering p).toList
  removals : rest.filterMap forgetting = (forgetting p).toList

variable {s s' : RoomManager}

theorem hands_nothing {p : Pending} (hr : registering p = none) (hf : forgetting p = none)
    (named : s'.named_rooms = s.named_rooms) (calls : s'.calls = s.calls) : Hands s s' p [] := by
  refine ⟨named, calls.trans (List.append_nil _).symm, ?_, ?_⟩
  · rw [hr]
    rfl
  · rw [hf]
    rfl

theorem hands_on {p q : Pending} (named : s'.named_rooms = s.named_rooms)
    (calls : s'.calls = s.calls ++ [q]) (hr : registering q = registering p)
    (hf : forgetting q = forgetting p) : Hands s s' p [q] := by
  refine ⟨named, calls, ?_, ?_⟩
  · rw [← hr]
    cases h : registering q <;> simp [h]
  · rw [← hf]
    cases h : forgetting q <;> simp [h]

/-- Some part that joins leaves nothing to register, and nothing to forget. -/
theorem join_match_hands {p : Pending} {id : RoomId} {username : String} {rating : Int}
    {connection : Connection} {os : List RoomEvent}
    {seated refused : RoomManager → Seat → RoomManager × List RoomEvent}
    (h : s.join_match id username rating connection seated refused = .ok (s', os))
    (hr : registering p = none) (hf : forgetting p = none)
    (hseated : ∀ t seat, ∃ rest, Hands t (seated t seat).1 p rest)
    (hrefused : ∀ t seat, ∃ rest, Hands t (refused t seat).1 p rest) :
    ∃ rest, Hands s s' p rest := by
  obtain ⟨-, rfl, -⟩ | ⟨m, r, -, -, rfl, -⟩ | ⟨m, r, color, -, -, rfl, -⟩ := join_match_cases h
  · exact ⟨[], hands_nothing hr hf rfl rfl⟩
  · obtain ⟨rest, h⟩ := hrefused (s.after_match id r).1 ⟨id, .White, false, 0⟩
    exact ⟨rest, h.named, h.calls, h.registrations, h.removals⟩
  · obtain ⟨rest, h⟩ := hseated (s.after_match id r).1 ⟨id, color, false, 0⟩
    exact ⟨rest, h.named, h.calls, h.registrations, h.removals⟩

/-- A part that is not about a name hands on what it is to register or forget. -/
theorem resume_hands {p : Pending} {os : List RoomEvent} (h : s.resume p = .ok (s', os))
    (hdir : s.directory.isSome) (hcreate : ∀ id key username rating connection,
      p ≠ .create_room id key username rating connection)
    (hreg : ∀ key seat, p ≠ .register_room key seat) (hreap : ∀ id, p ≠ .reap id)
    (hforget : ∀ name, p ≠ .forget_room name) : ∃ rest, Hands s s' p rest := by
  cases resume_cases h with
  | join_any id username rating connection s' os joins =>
      exact join_match_hands joins rfl rfl (fun t seat => ⟨[], hands_nothing rfl rfl rfl rfl⟩)
        fun t seat => ⟨_, hands_on rfl rfl rfl rfl⟩
  | create_room id key username rating connection => exact absurd rfl (hcreate id key _ _ _)
  | join id username rating connection s' os joins =>
      exact join_match_hands joins rfl rfl (fun t seat => ⟨[], hands_nothing rfl rfl rfl rfl⟩)
        fun t seat => ⟨[], hands_nothing rfl rfl rfl rfl⟩
  | nowhere p id asks =>
      refine ⟨[], hands_nothing ?_ (forgetting_of_asks asks) rfl rfl⟩
      cases p <;> first | rfl | cases asks
  | reconnected => exact ⟨[], hands_nothing rfl rfl rfl rfl⟩
  | not_reconnected => exact ⟨_, hands_on rfl rfl rfl rfl⟩
  | watches => exact ⟨[], hands_nothing rfl rfl rfl rfl⟩
  | full => exact ⟨_, hands_on rfl rfl rfl rfl⟩
  | enqueued => exact ⟨[], hands_nothing rfl rfl rfl rfl⟩
  | viewer_left => exact ⟨_, hands_on rfl rfl rfl rfl⟩
  | player_left => exact ⟨_, hands_on rfl rfl rfl rfl⟩
  | registered key seat => exact absurd rfl (hreg key seat)
  | redirected name => exact ⟨[], hands_nothing rfl rfl rfl rfl⟩
  | unowned name => exact ⟨[], hands_nothing rfl rfl rfl rfl⟩
  | undo_gone => exact ⟨[], hands_nothing rfl rfl rfl rfl⟩
  | undo_last => exact ⟨_, hands_on rfl rfl rfl rfl⟩
  | undo_waits => exact ⟨[], hands_nothing rfl rfl rfl rfl⟩
  | undo_stays => exact ⟨[], hands_nothing rfl rfl rfl rfl⟩
  | give_back_gone => exact ⟨[], hands_nothing rfl rfl rfl rfl⟩
  | given_back => exact ⟨[], hands_nothing rfl rfl rfl rfl⟩
  | reap_gone id => exact absurd rfl (hreap id)
  | reap_stays id => exact absurd rfl (hreap id)
  | reaped id => exact absurd rfl (hreap id)
  | unscheduled id name silent =>
      -- without a name there is nothing to forget
      have hname : name = "" := by
        by_contra hne
        exact silent ⟨hdir, hne⟩
      refine ⟨[], hands_nothing rfl ?_ rfl rfl⟩
      rw [forgetting, if_pos hname]
  | forgets id name told => exact ⟨_, hands_on rfl rfl rfl rfl⟩
  | forgotten name => exact absurd rfl (hforget name)

/-- What the calls are to do is handed on with them. -/
theorem Hands.perm {call : Nat} {p : Pending} {rest : List Pending} {α : Type*}
    (h : Hands { s with calls := s.calls.eraseIdx call } s' p rest)
    (hc : s.calls[call]? = some p) {f : Pending → Option α}
    (hrest : rest.filterMap f = (f p).toList) :
    (s'.calls.filterMap f).Perm (s.calls.filterMap f) := by
  rw [h.calls, List.filterMap_append, hrest]
  exact take_filterMap hc f

theorem Hands.lifecycle {call : Nat} {p : Pending} {rest : List Pending}
    (h : Hands { s with calls := s.calls.eraseIdx call } s' p rest)
    (hc : s.calls[call]? = some p) (hp : s.written_by (.proceed call) = none) :
    Lifecycle s (.proceed call) s' :=
  .kept hp rfl h.named (h.perm hc h.registrations) (h.perm hc h.removals)

/-- What a call of a given kind writes. -/
theorem written_by_proceed {call : Nat} {p : Pending} (hc : s.calls[call]? = some p) :
    s.written_by (.proceed call) = (s.command p).filter fun
      | .owner_of _ => false
      | _ => true := by
  unfold written_by command_of
  dsimp only
  rw [hc, Option.bind_some]

/-- The creator of a room is let in, and registers it next. -/
theorem create_room_hands {call : Nat} {id : RoomId} {key username : String} {rating : Int}
    {connection : Connection} {os : List RoomEvent} (hacc : Accounted s)
    (hdir : s.directory.isSome)
    (hc : s.calls[call]? = some (.create_room id key username rating connection))
    (h : ({ s with calls := s.calls.eraseIdx call } : RoomManager).resume
      (.create_room id key username rating connection) = .ok (s', os)) :
    ∃ rest, Hands { s with calls := s.calls.eraseIdx call } s'
      (.create_room id key username rating connection) rest := by
  have hjoins : 0 < s.ledger.joins id := List.countP_pos_iff.mpr ⟨_, List.mem_of_getElem? hc, by
    exact decide_eq_true rfl⟩
  have hheld : 0 < s.ledger.held id := Nat.lt_of_lt_of_le hjoins (joins_le_held s id)
  cases resume_cases h with
  | create_room _ _ _ _ _ _ _ joins =>
      obtain ⟨hgone, -, -⟩ | ⟨m, r, hm, hjoin, -, -⟩ | ⟨m, r, color, -, -, rfl, -⟩ :=
        join_match_cases joins
      · exact absurd (.nowhere id hgone hheld) hacc.regular
      · refine absurd (.join_refused id m username rating connection hm hjoins ?_) hacc.regular
        rw [hjoin]
      · refine ⟨[.register_room key ⟨id, color, false, 0⟩], ?_⟩
        rw [if_pos (by exact hdir)]
        exact hands_on rfl rfl rfl rfl
  | nowhere _ _ asks => cases asks

/-- A room is reaped with its name, if it has one. -/
theorem reap_lifecycle {call : Nat} {id : RoomId} {os : List RoomEvent} (hacc : Accounted s)
    (hc : s.calls[call]? = some (.reap id))
    (h : Resumed { s with calls := s.calls.eraseIdx call } (.reap id) s' os) :
    Lifecycle s (.proceed call) s' := by
  have hunwritten : s.written_by (.proceed call) = none := written_by_proceed hc
  cases h with
  | nowhere _ _ asks => cases asks
  | reap_gone => exact Hands.lifecycle (hands_nothing rfl rfl rfl rfl) hc hunwritten
  | reap_stays => exact Hands.lifecycle (hands_nothing rfl rfl rfl rfl) hc hunwritten
  | reaped _ room here last =>
      by_cases hname : room.name = ""
      · rw [if_pos hname]
        have hforget : forgetting (.unschedule id room.name) = none := if_pos hname
        exact Hands.lifecycle (p := .reap id) (hands_on rfl rfl rfl hforget) hc hunwritten
      · rw [if_neg hname]
        have hnamed : s.named_rooms room.name = some id :=
          (hacc.names.named _ _).mpr ⟨hname, congrArg (Option.map Room.name) here⟩
        refine .reaped room.name id hunwritten rfl hnamed
          (registered_of_last hacc hc here last _) rfl ?_ ?_
        · show (List.filterMap registering (s.calls.eraseIdx call ++ [_])).Perm _
          rw [List.filterMap_append]
          exact take_filterMap hc registering
        · show (List.filterMap forgetting (s.calls.eraseIdx call ++ [_])).Perm _
          have hone : [Pending.unschedule id room.name].filterMap forgetting = [room.name] := by
            simp [forgetting, hname]
          rw [List.filterMap_append, hone]
          refine (List.perm_append_singleton _ _).trans (.cons _ ?_)
          have hperm := take_filterMap hc forgetting
          rwa [show (forgetting (.reap id)).toList = [] from rfl, List.append_nil] at hperm

/-- One of the pending calls goes on. -/
theorem resumes_lifecycle {call : Nat} {p : Pending} {os : List RoomEvent} (hacc : Accounted s)
    (hdir : s.directory.isSome) (hc : s.calls[call]? = some p)
    (h : ({ s with calls := s.calls.eraseIdx call } : RoomManager).resume p = .ok (s', os)) :
    Lifecycle s (.proceed call) s' := by
  have hwritten := written_by_proceed hc
  cases p with
  | create_room id key username rating connection =>
      obtain ⟨rest, hhands⟩ := create_room_hands hacc hdir hc h
      exact hhands.lifecycle hc hwritten
  | register_room key seat =>
      obtain ⟨rfl, rfl⟩ := Prod.mk.inj (Except.ok.inj h)
      refine .registered key seat.room hwritten rfl rfl ?_ ?_
      · exact (List.perm_append_singleton _ _).symm.trans (take_filterMap hc registering)
      · have hperm := take_filterMap hc forgetting
        rwa [show (forgetting (.register_room key seat)).toList = [] from rfl,
          List.append_nil] at hperm
  | reap id => exact reap_lifecycle hacc hc (resume_cases h)
  | forget_room name =>
      obtain ⟨rfl, rfl⟩ := Prod.mk.inj (Except.ok.inj h)
      refine .forgotten name hwritten rfl rfl ?_ ?_
      · have hperm := take_filterMap hc registering
        rwa [show (registering (.forget_room name)).toList = [] from rfl, List.append_nil] at hperm
      · have hperm := take_filterMap hc forgetting
        rw [forgetting] at hperm
        split_ifs at hperm ⊢ with hname
        · rwa [Option.toList_none, List.append_nil] at hperm
        · exact (List.perm_append_singleton _ _).symm.trans hperm
  | _ =>
      obtain ⟨rest, hhands⟩ := resume_hands h hdir (by simp) (by simp) (by simp) (by simp)
      exact hhands.lifecycle hc hwritten

/-- A call begins, with nothing to register or to forget. -/
theorem lifecycle_begins {op : Op} {q : Pending} (hwritten : s.written_by op = none)
    (hdrawn : s.draws op = none) (named : s'.named_rooms = s.named_rooms)
    (calls : s'.calls = s.calls ++ [q]) (hr : registering q = none) (hf : forgetting q = none) :
    Lifecycle s op s' := by
  refine .kept hwritten hdrawn named ?_ ?_
  · rw [registrations, calls, List.filterMap_append]
    simp [hr, registrations]
  · rw [removals, calls, List.filterMap_append]
    simp [hf, removals]

theorem lifecycle_idle {op : Op} (hwritten : s.written_by op = none) (hdrawn : s.draws op = none)
    (named : s'.named_rooms = s.named_rooms) (calls : s'.calls = s.calls) : Lifecycle s op s' := by
  refine .kept hwritten hdrawn named ?_ ?_
  · rw [registrations, registrations, calls]
  · rw [removals, removals, calls]

/-- **The inversion of a step**, as far as names go. -/
theorem exec_lifecycle {op : Op} {os : List RoomEvent} (hacc : Accounted s)
    (hdir : s.directory.isSome) (h : exec s op = .ok (s', os)) : Lifecycle s op s' := by
  cases exec_cases h with
  | opens => exact lifecycle_begins rfl rfl rfl rfl rfl rfl
  | pairs => exact lifecycle_begins rfl rfl rfl rfl rfl rfl
  | creates key username rating connection drawn =>
      refine .created key s.next_room_id rfl (if_pos drawn) rfl List.filterMap_append ?_
      show (List.filterMap forgetting (s.calls ++ [_])).Perm _
      rw [List.filterMap_append]
      exact .of_eq (List.append_nil _)
  | draws_again key username rating connection taken =>
      exact lifecycle_idle rfl (if_neg taken) rfl rfl
  | enters name username rating connection id s' os named enters =>
      cases enters with
      | nowhere => exact lifecycle_idle rfl rfl rfl rfl
      | refused reason => exact lifecycle_idle rfl rfl rfl rfl
      | back => exact lifecycle_begins rfl rfl rfl rfl rfl rfl
      | viewer => exact lifecycle_begins rfl rfl rfl rfl rfl rfl
      | player => exact lifecycle_begins rfl rfl rfl rfl rfl rfl
  | looks_up => exact lifecycle_begins rfl rfl rfl rfl rfl rfl
  | no_such_room => exact lifecycle_idle rfl rfl rfl rfl
  | sends => exact lifecycle_begins rfl rfl rfl rfl rfl rfl
  | sends_nowhere => exact lifecycle_idle rfl rfl rfl rfl
  | leaves => exact lifecycle_begins rfl rfl rfl rfl rfl rfl
  | leaves_nowhere => exact lifecycle_idle rfl rfl rfl rfl
  | unheld => exact lifecycle_idle rfl rfl rfl rfl
  | resumes call p s' os pending resumes => exact resumes_lifecycle hacc hdir pending resumes
  | no_call call answered =>
      refine lifecycle_idle ?_ rfl rfl rfl
      unfold written_by command_of
      dsimp only
      rw [answered]
      rfl
  | ticks => exact lifecycle_idle rfl rfl rfl rfl
  | ticks_nothing => exact lifecycle_idle rfl rfl rfl rfl
  | directory_changes => exact lifecycle_idle rfl rfl rfl rfl

end RoomManager

end KungFuChess
