/-
**The rooms' books.**

What holds of a ledger at any moment, however the calls are interleaved
(`Accounted`): `connected` counts the seats and calls attached to a room, a name
finds exactly the live room that bears it, a waiting room has one seat taken, and
the seats taken are the players in the match plus the calls about to join it. So a
call that has taken a seat is never refused one (`Accounted.regular`), and the
branches that undo a reservation are not taken.
-/
import KungFuChess.RoomSteps
import KungFuChess.Seating
import KungFuChess.RefCount

set_option autoImplicit false

namespace KungFuChess

open Machine

namespace RoomManager

/-! ## Readings of a ledger -/

/-- The counters of the rooms that are there. -/
def Ledger.counts (l : Ledger) : RoomId → Option Int := Option.map Room.connected ∘ l.rooms

/-- The names of the rooms that are there. -/
def Ledger.name_of (l : Ledger) : RoomId → Option String := Option.map Room.name ∘ l.rooms

/-- A match starts empty, under the name of its room. -/
def Ledger.Born (l : Ledger) : Prop := ∀ id name,
  (l.new_match id name).room_name = name ∧ (l.new_match id name).Seating ∧
    (l.new_match id name).audience.seats_filled = 0

theorem born (s : RoomManager) : s.ledger.Born := fun _ _ =>
  ⟨rfl, Match.seating_new _ _ _ _ _ _, rfl⟩

theorem joins_le_held (s : RoomManager) (id : RoomId) : s.ledger.joins id ≤ s.ledger.held id := by
  refine Nat.le_trans (List.countP_mono_left fun p _ hp => ?_) (Nat.le_add_left _ _)
  cases p <;> first | exact hp | simp [joining] at hp

/-- Whom `closest_waiting_room` finds is waiting. -/
theorem closest_mem {waiting : List (Int × RoomId)} {rating : Int} {id : RoomId}
    (h : closest_in waiting rating = some id) : ∃ entry ∈ waiting, entry.2 = id := by
  have hconsider : ∀ (best entry : Option (Int × RoomId)) (b : Int × RoomId),
      consider rating best entry = some b → best = some b ∨ ∃ e, entry = some e ∧ e.2 = b.2 := by
    intro best entry b hb
    unfold consider at hb
    cases entry with
    | none => exact .inl hb
    | some e =>
        dsimp only at hb
        split_ifs at hb
        · exact .inr ⟨e, rfl, by rw [← Option.some.inj hb]⟩
        · exact .inl hb
  unfold closest_in at h
  obtain ⟨b, hb, rfl⟩ := Option.map_eq_some_iff.mp h
  rcases hconsider _ _ _ hb with hlower | ⟨e, he, hid⟩
  · rcases hconsider _ _ _ hlower with hnone | ⟨e, he, hid⟩
    · cases hnone
    · exact ⟨e, List.mem_of_find?_eq_some he, hid⟩
  · exact ⟨e, List.takeWhile_subset _ (List.mem_of_getLast? he), hid⟩

/-! ## Rooms and matches -/

/-- A room has a match, and no number is used twice. -/
structure Homes (l : Ledger) : Prop where
  fresh : ∀ id, l.next_room_id ≤ id → l.match_of id = none
  here : ∀ id, (l.rooms id).isSome → (l.match_of id).isSome

variable {l l' : Ledger} {owns owns' : RoomId → PieceColor → Prop} {found : Option Int}
  {os : RoomId → List MatchEvent}

theorem Homes.closed (h : Homes l) : l.rooms l.next_room_id = none := by
  cases hr : l.rooms l.next_room_id with
  | none => rfl
  | some room =>
      have hm := h.here _ (by rw [hr]; rfl)
      rw [h.fresh _ (Nat.le_refl _)] at hm
      cases hm

/-- The rooms change where there is a match already. -/
theorem Homes.update (h : Homes l) {id : RoomId} (hlive : (l.rooms id).isSome) (room : Option Room)
    {j : RoomId} (hj : (Function.update l.rooms id room j).isSome) : (l.match_of j).isSome := by
  rw [Function.update_apply] at hj
  split_ifs at hj with hid
  · rw [hid]
    exact h.here id hlive
  · exact h.here j hj

/-- A new room with its match. -/
theorem Homes.grow (h : Homes l) (room : Room) (m : Match) :
    (∀ id, l.next_room_id + 1 ≤ id →
      Function.update l.match_of l.next_room_id (some m) id = none) ∧
    ∀ id, (Function.update l.rooms l.next_room_id (some room) id).isSome →
      (Function.update l.match_of l.next_room_id (some m) id).isSome := by
  refine ⟨fun id hid => ?_, fun id hid => ?_⟩
  · rw [Function.update_of_ne (Nat.ne_of_gt hid)]
    exact h.fresh id (Nat.le_of_lt hid)
  · rw [Function.update_apply] at hid ⊢
    split_ifs at hid ⊢
    · rfl
    · exact h.here id hid

/-- A match that steps is still there. -/
theorem Homes.step (h : Homes l) {id : RoomId} {m : Match} (hm : l.match_of id = some m)
    (m' : Match) :
    (∀ j, l.next_room_id ≤ j → Function.update l.match_of id (some m') j = none) ∧
    ∀ j, (l.rooms j).isSome → (Function.update l.match_of id (some m') j).isSome := by
  refine ⟨fun j hj => ?_, fun j hj => ?_⟩
  · rw [Function.update_of_ne]
    · exact h.fresh j hj
    · rintro rfl
      cases hm.symm.trans (h.fresh j hj)
  · rw [Function.update_apply]
    split_ifs
    · rfl
    · exact h.here j hj

theorem Homes.change (h : Homes l) (he : Effect owns found l l' os) : Homes l' := by
  cases he with
  | kept => exact h
  | opened rating closest =>
      obtain ⟨hfresh, hhere⟩ := h.grow ⟨1, 1, rating, ""⟩ (l.new_match l.next_room_id "")
      exact ⟨hfresh, hhere⟩
  | created key drawn free =>
      obtain ⟨hfresh, hhere⟩ := h.grow ⟨1, 1, 0, key⟩ (l.new_match l.next_room_id key)
      exact ⟨hfresh, hhere⟩
  | paired id room rating closest live =>
      exact ⟨h.fresh, fun j => h.update (by rw [live]; rfl) _⟩
  | counted id room name named live => exact ⟨h.fresh, fun j => h.update (by rw [live]; rfl) _⟩
  | reserved id room name named live free =>
      exact ⟨h.fresh, fun j => h.update (by rw [live]; rfl) _⟩
  | joined id m username rating connection color here about taken =>
      obtain ⟨hfresh, hhere⟩ := h.step here (m.join username rating connection).1.1
      exact ⟨hfresh, hhere⟩
  | stepped id m call r here step other owns =>
      obtain ⟨hfresh, hhere⟩ := h.step here r.1
      exact ⟨hfresh, hhere⟩
  | given_back id room live held found => exact ⟨h.fresh, fun j => h.update (by rw [live]; rfl) _⟩
  | left id room live held more => exact ⟨h.fresh, fun j => h.update (by rw [live]; rfl) _⟩
  | reaped id room live held last => exact ⟨h.fresh, fun j => h.update (by rw [live]; rfl) _⟩
  | lost id gone held => exact ⟨h.fresh, h.here⟩

/-! ## Counters -/

/-- Nobody holds the room that comes next. -/
theorem Homes.unheld (hh : Homes l) (hc : RefCount.Counted l.counts l.held) :
    l.held l.next_room_id = 0 := by
  have hcount := hc l.next_room_id
  rw [Ledger.counts, Function.comp_apply, hh.closed] at hcount
  exact Int.natCast_eq_zero.mp hcount.symm

/-- **What a step does to the counters** is a change of reference counts; the only
one that is not checked is the giving back of a connection. -/
theorem counts_change (hh : Homes l) (hc : RefCount.Counted l.counts l.held)
    (he : Effect owns found l l' os) :
    ∃ unchecked, RefCount.Change l.counts l.held l'.counts l'.held unchecked ∧
      (unchecked = none ∨ unchecked = found) := by
  have hlive : ∀ {id : RoomId} {room : Room}, l.rooms id = some room →
      l.counts id = some room.connected := fun h => congrArg (Option.map Room.connected) h
  have hclosed : l.counts l.next_room_id = none := congrArg (Option.map Room.connected) hh.closed
  have hupdate : ∀ {id : RoomId} {room : Option Room} {held' : RoomId → Nat} {u : Option Int},
      RefCount.Change l.counts l.held
        (Function.update l.counts id (room.map Room.connected)) held' u →
      RefCount.Change l.counts l.held
        (Option.map Room.connected ∘ Function.update l.rooms id room) held' u := by
    intro id room held' u h
    rw [Function.comp_update]
    exact h
  cases he with
  | kept => exact ⟨none, .keep, .inl rfl⟩
  | opened rating closest => exact ⟨none, hupdate (.opened _ hclosed), .inl rfl⟩
  | created key drawn free => exact ⟨none, hupdate (.opened _ hclosed), .inl rfl⟩
  | paired id room rating closest live =>
      exact ⟨none, hupdate (.acquire id _ (hlive live)), .inl rfl⟩
  | counted id room name named live => exact ⟨none, hupdate (.acquire id _ (hlive live)), .inl rfl⟩
  | reserved id room name named live free =>
      exact ⟨none, hupdate (.acquire id _ (hlive live)), .inl rfl⟩
  | joined id m username rating connection color here about taken => exact ⟨none, .keep, .inl rfl⟩
  | stepped id m call r here step other owns => exact ⟨none, .keep, .inl rfl⟩
  | given_back id room live held hfound =>
      exact ⟨_, hupdate (.unchecked id _ (hlive live) held), .inr hfound.symm⟩
  | left id room live held more =>
      have h := RefCount.Change.release id _ (hlive live) held
      rw [if_neg more] at h
      exact ⟨none, hupdate h, .inl rfl⟩
  | reaped id room live held last =>
      have h := RefCount.Change.release id _ (hlive live) held
      rw [if_pos last] at h
      exact ⟨none, hupdate h, .inl rfl⟩
  | lost id gone held =>
      -- whoever holds a room holds a live one
      obtain ⟨n, hn⟩ := hc.open_of_held held
      rw [Ledger.counts, Function.comp_apply, gone] at hn
      cases hn

/-! ## Names -/

/-- A name finds exactly the live room that bears it. -/
structure Names (l : Ledger) : Prop where
  named : ∀ name id, l.named_rooms name = some id ↔ name ≠ "" ∧ l.name_of id = some name
  room_name : ∀ id m name, l.match_of id = some m → l.name_of id = some name → m.room_name = name

/-- A room that stays changes its counters only. -/
theorem name_of_update {id : RoomId} {room room' : Room} (live : l.rooms id = some room)
    (hname : room'.name = room.name) :
    Option.map Room.name ∘ Function.update l.rooms id (some room') = l.name_of := by
  rw [Function.comp_update]
  refine (Function.update_eq_self_iff).mpr ?_
  show some room'.name = Option.map Room.name (l.rooms id)
  rw [live, hname]
  rfl

theorem key_ne_empty {key : String} (h : is_room_key key = true) : key ≠ "" := by
  rintro rfl
  revert h
  decide

/-- A new room, with a name nobody has or with none. -/
theorem Names.grow (h : Names l) (hb : l.Born) (room : Room)
    (named_rooms : String → Option RoomId)
    (hnew : ∀ name, named_rooms name = some l.next_room_id ↔ name ≠ "" ∧ room.name = name)
    (hold : ∀ name id, id ≠ l.next_room_id →
      (named_rooms name = some id ↔ l.named_rooms name = some id)) :
    (∀ name id, named_rooms name = some id ↔
      name ≠ "" ∧
        (Function.update l.rooms l.next_room_id (some room) id).map Room.name = some name) ∧
    ∀ id m name, Function.update l.match_of l.next_room_id
        (some (l.new_match l.next_room_id room.name)) id = some m →
      (Function.update l.rooms l.next_room_id (some room) id).map Room.name = some name →
        m.room_name = name := by
  refine ⟨fun name id => ?_, fun id m name hm hname => ?_⟩
  · by_cases hid : id = l.next_room_id
    · rw [hid, Function.update_self, hnew]
      exact and_congr_right fun _ => Option.some_inj.symm
    · rw [Function.update_of_ne hid, hold name id hid]
      exact h.named name id
  · by_cases hid : id = l.next_room_id
    · rw [hid, Function.update_self] at hm hname
      rw [← Option.some.inj hm, (hb _ _).1]
      exact Option.some.inj hname
    · rw [Function.update_of_ne hid] at hm hname
      exact h.room_name id m name hm hname

/-- The rooms keep their names. -/
theorem Names.keep (h : Names l) {l' : Ledger} (hname : l'.name_of = l.name_of)
    (hnamed : l'.named_rooms = l.named_rooms) (hmatch : l'.match_of = l.match_of) : Names l' where
  named name id := by
    rw [hnamed, hname]
    exact h.named name id
  room_name id m name := by
    rw [hmatch, hname]
    exact h.room_name id m name

/-- A match that steps keeps its name. -/
theorem Names.step (h : Names l) {id : RoomId} {m m' : Match} (hm : l.match_of id = some m)
    (hname : m'.room_name = m.room_name) (j : RoomId) (n : Match) (name : String)
    (hn : Function.update l.match_of id (some m') j = some n) (hj : l.name_of j = some name) :
    n.room_name = name := by
  rw [Function.update_apply] at hn
  split_ifs at hn with hid
  · rw [← Option.some.inj hn, hname]
    exact h.room_name id m name hm (hid ▸ hj)
  · exact h.room_name j n name hn hj

/-- What is left of the names when a room goes. -/
theorem Names.forget (h : Names l) {id : RoomId} {gone : String} (hname : l.name_of id = some gone)
    (name : String) (j : RoomId) :
    (if gone = "" then l.named_rooms else Function.update l.named_rooms gone none) name = some j ↔
      l.named_rooms name = some j ∧ j ≠ id := by
  have hid : l.named_rooms name = some id → gone ≠ "" ∧ name = gone := by
    intro hn
    obtain ⟨hne, hn⟩ := (h.named name id).mp hn
    obtain rfl := Option.some.inj (hname.symm.trans hn)
    exact ⟨hne, rfl⟩
  split_ifs with hempty
  · refine ⟨fun hn => ⟨hn, ?_⟩, fun hn => hn.1⟩
    rintro rfl
    exact (hid hn).1 hempty
  · rw [Function.update_apply]
    split_ifs with hgone
    · refine ⟨nofun, fun hn => absurd ?_ hn.2⟩
      -- the name can only have found the room that goes
      have hfound : l.named_rooms name = some id :=
        (h.named name id).mpr ⟨hgone ▸ hempty, hgone ▸ hname⟩
      exact Option.some.inj (hn.1.symm.trans hfound)
    · refine ⟨fun hn => ⟨hn, ?_⟩, fun hn => hn.1⟩
      rintro rfl
      exact hgone (hid hn).2

theorem Names.change (h : Names l) (hh : Homes l) (hb : l.Born) (he : Effect owns found l l' os) :
    Names l' := by
  cases he with
  | kept => exact h
  | opened rating closest =>
      have hgrow := h.grow hb ⟨1, 1, rating, ""⟩ l.named_rooms
        (fun name => ?_) (fun _ _ _ => Iff.rfl)
      · exact ⟨hgrow.1, hgrow.2⟩
      · -- the new room's number finds no name, and it has none
        rw [h.named, Ledger.name_of, Function.comp_apply, hh.closed]
        exact ⟨fun hn => absurd hn.2 nofun, fun hn => absurd hn.2.symm hn.1⟩
  | created key drawn free =>
      have hgrow := h.grow hb ⟨1, 1, 0, key⟩
        (Function.update l.named_rooms key (some l.next_room_id))
        (fun name => ?_) (fun name id hid => ?_)
      · exact ⟨hgrow.1, hgrow.2⟩
      · rw [Function.update_apply]
        split_ifs with hkey
        · exact ⟨fun _ => ⟨hkey ▸ key_ne_empty drawn, hkey.symm⟩, fun _ => rfl⟩
        · rw [h.named, Ledger.name_of, Function.comp_apply, hh.closed]
          exact ⟨fun hn => absurd hn.2 nofun, fun hn => absurd hn.2.symm hkey⟩
      · rw [Function.update_apply]
        split_ifs with hkey
        · rw [hkey, free]
          exact ⟨fun hn => absurd (Option.some.inj hn).symm hid, nofun⟩
        · exact Iff.rfl
  | paired id room rating closest live => exact h.keep (name_of_update live rfl) rfl rfl
  | counted id room name named live => exact h.keep (name_of_update live rfl) rfl rfl
  | reserved id room name named live free => exact h.keep (name_of_update live rfl) rfl rfl
  | joined id m username rating connection color here about taken =>
      have hexec : Match.exec m (.join username rating connection)
          = .ok (m.join username rating connection).1 := rfl
      exact ⟨h.named, fun j n name hn hj =>
        h.step here (Match.exec_settings hexec).2 j n name hn hj⟩
  | stepped id m call r here step other owns =>
      exact ⟨h.named, fun j n name hn hj => h.step here (Match.exec_settings step).2 j n name hn hj⟩
  | given_back id room live held found => exact h.keep (name_of_update live rfl) rfl rfl
  | left id room live held more => exact h.keep (name_of_update live rfl) rfl rfl
  | reaped id room live held last =>
      have hname : l.name_of id = some room.name := congrArg (Option.map Room.name) live
      refine ⟨fun name j => ?_, fun j m name hm hj => ?_⟩
      · show _ ↔ name ≠ "" ∧ (Function.update l.rooms id none j).map Room.name = some name
        rw [h.forget hname name j, h.named, Function.update_apply]
        split_ifs with hj
        · exact ⟨fun hn => absurd hj hn.2, fun hn => absurd hn.2 nofun⟩
        · exact ⟨fun hn => hn.1, fun hn => ⟨hn, hj⟩⟩
      · have hj : (Function.update l.rooms id none j).map Room.name = some name := hj
        rw [Function.update_apply] at hj
        split_ifs at hj
        · cases hj
        · exact h.room_name j m name hm hj
  | lost id gone held => exact ⟨h.named, h.room_name⟩

/-! ## Waiting rooms -/

/-- A room in the waiting index has no name and one seat taken, and is there once. -/
structure Waits (l : Ledger) : Prop where
  nodup : l.waiting.Nodup
  waiting : ∀ entry ∈ l.waiting, ∃ room, l.rooms entry.2 = some room ∧
    room.waiting_rating = entry.1 ∧ room.seats_taken = 1 ∧ room.name = ""

/-- The waiting rooms but the one that no longer waits. -/
theorem Waits.erase (h : Waits l) {id : RoomId} {room : Room} (live : l.rooms id = some room)
    (room' : Option Room) :
    (l.waiting.erase (room.waiting_rating, id)).Nodup ∧
    ∀ entry ∈ l.waiting.erase (room.waiting_rating, id), ∃ r,
      Function.update l.rooms id room' entry.2 = some r ∧ r.waiting_rating = entry.1 ∧
        r.seats_taken = 1 ∧ r.name = "" := by
  refine ⟨h.nodup.erase _, fun entry hmem => ?_⟩
  obtain ⟨hne, hmem⟩ := (h.nodup.mem_erase_iff).mp hmem
  obtain ⟨r, hr, hrating, htaken, hname⟩ := h.waiting entry hmem
  refine ⟨r, ?_, hrating, htaken, hname⟩
  rw [Function.update_of_ne]
  · exact hr
  · -- the room waits under its own rating only
    rintro rfl
    obtain rfl := Option.some.inj (live.symm.trans hr)
    exact hne (Prod.ext hrating.symm rfl)

/-- A room where connections come and go waits as before. -/
theorem Waits.keep (h : Waits l) {id : RoomId} {room : Room} (live : l.rooms id = some room)
    (connected : Int) (entry : Int × RoomId) (hmem : entry ∈ l.waiting) :
    ∃ r, Function.update l.rooms id (some { room with connected := connected }) entry.2 = some r ∧
      r.waiting_rating = entry.1 ∧ r.seats_taken = 1 ∧ r.name = "" := by
  obtain ⟨r, hr, hrest⟩ := h.waiting entry hmem
  by_cases hid : entry.2 = id
  · rw [hid] at hr ⊢
    obtain rfl := Option.some.inj (live.symm.trans hr)
    exact ⟨_, Function.update_self .., hrest⟩
  · exact ⟨r, by rw [Function.update_of_ne hid, hr], hrest⟩

/-- A new room is not among those that wait. -/
theorem Waits.grow (h : Waits l) (hh : Homes l) (room : Room) (entry : Int × RoomId)
    (hmem : entry ∈ l.waiting) :
    entry.2 ≠ l.next_room_id ∧ ∃ r,
      Function.update l.rooms l.next_room_id (some room) entry.2 = some r ∧
        r.waiting_rating = entry.1 ∧ r.seats_taken = 1 ∧ r.name = "" := by
  obtain ⟨r, hr, hrest⟩ := h.waiting entry hmem
  have hne : entry.2 ≠ l.next_room_id := by
    intro hid
    rw [hid, hh.closed] at hr
    cases hr
  exact ⟨hne, r, by rw [Function.update_of_ne hne, hr], hrest⟩

theorem Waits.change (h : Waits l) (hh : Homes l) (hn : Names l) (he : Effect owns found l l' os) :
    Waits l' := by
  cases he with
  | kept => exact h
  | opened rating closest =>
      have hperm := List.perm_orderedInsert (fun a b : Int × RoomId => a.1 < b.1)
        (rating, l.next_room_id) l.waiting
      refine ⟨hperm.nodup_iff.mpr (List.nodup_cons.mpr ⟨fun hmem => ?_, h.nodup⟩),
        fun entry hmem => ?_⟩
      · exact (h.grow hh ⟨1, 1, rating, ""⟩ _ hmem).1 rfl
      · rcases List.mem_cons.mp (hperm.mem_iff.mp hmem) with rfl | hmem
        · exact ⟨_, Function.update_self .., rfl, rfl, rfl⟩
        · exact (h.grow hh _ entry hmem).2
  | created key drawn free => exact ⟨h.nodup, fun entry hmem => (h.grow hh _ entry hmem).2⟩
  | paired id room rating closest live =>
      obtain ⟨hnodup, hwaiting⟩ := h.erase live (some { room with
        seats_taken := room.seats_taken + 1, connected := room.connected + 1 })
      exact ⟨hnodup, hwaiting⟩
  | counted id room name named live => exact ⟨h.nodup, h.keep live _⟩
  | reserved id room name named live free =>
      refine ⟨h.nodup, fun entry hmem => ?_⟩
      obtain ⟨r, hr, hrest⟩ := h.waiting entry hmem
      have hne : entry.2 ≠ id := by
        -- a room that is found by a name does not wait
        rintro rfl
        obtain ⟨hne, hname⟩ := (hn.named _ _).mp named
        rw [Ledger.name_of, Function.comp_apply, hr] at hname
        exact hne ((Option.some.inj hname).symm.trans hrest.2.2)
      exact ⟨r, (Function.update_of_ne hne _ _).trans hr, hrest⟩
  | joined id m username rating connection color here about taken => exact ⟨h.nodup, h.waiting⟩
  | stepped id m call r here step other owns => exact ⟨h.nodup, h.waiting⟩
  | given_back id room live held found => exact ⟨h.nodup, h.keep live _⟩
  | left id room live held more => exact ⟨h.nodup, h.keep live _⟩
  | reaped id room live held last =>
      obtain ⟨hnodup, hwaiting⟩ := h.erase live none
      exact ⟨hnodup, hwaiting⟩
  | lost id gone held => exact ⟨h.nodup, h.waiting⟩

/-! ## Seats promised -/

/-- The seats taken are the players, and the calls that are about to be. -/
structure Promises (l : Ledger) : Prop where
  seating : ∀ id m, l.match_of id = some m → m.Seating
  seats : ∀ id room m, l.rooms id = some room → l.match_of id = some m →
    room.seats_taken = m.audience.seats_filled + l.joins id ∧ room.seats_taken ≤ 2

/-- Another room than the one that changes. -/
theorem plus_of_ne (f : RoomId → Nat) {id j : RoomId} (h : j ≠ id) : plus f id j = f j :=
  Function.update_of_ne h _ _

theorem minus_of_ne (f : RoomId → Nat) {id j : RoomId} (h : j ≠ id) : minus f id j = f j :=
  Function.update_of_ne h _ _

theorem plus_self (f : RoomId → Nat) (id : RoomId) : plus f id id = f id + 1 :=
  Function.update_self ..

theorem minus_self (f : RoomId → Nat) (id : RoomId) : minus f id id = f id - 1 :=
  Function.update_self ..

/-- A room where connections come and go has promised what it had. -/
theorem Promises.keep (h : Promises l) {id : RoomId} {room : Room} (live : l.rooms id = some room)
    (connected : Int) (j : RoomId) (r : Room) (m : Match)
    (hr : Function.update l.rooms id (some { room with connected := connected }) j = some r)
    (hm : l.match_of j = some m) :
    r.seats_taken = m.audience.seats_filled + l.joins j ∧ r.seats_taken ≤ 2 := by
  rw [Function.update_apply] at hr
  split_ifs at hr with hid
  · obtain rfl := Option.some.inj hr
    rw [hid] at hm ⊢
    exact h.seats id room m live hm
  · exact h.seats j r m hr hm

/-- A second player is promised a seat. -/
theorem Promises.promise (h : Promises l) {id : RoomId} {room : Room}
    (live : l.rooms id = some room) (free : room.seats_taken < 2) (connected : Int) (j : RoomId)
    (r : Room) (m : Match)
    (hr : Function.update l.rooms id (some { room with
      seats_taken := room.seats_taken + 1, connected := connected }) j = some r)
    (hm : l.match_of j = some m) :
    r.seats_taken = m.audience.seats_filled + plus l.joins id j ∧ r.seats_taken ≤ 2 := by
  rw [Function.update_apply] at hr
  split_ifs at hr with hid
  · obtain rfl := Option.some.inj hr
    rw [hid] at hm ⊢
    have hseats := (h.seats id room m live hm).1
    rw [plus_self]
    dsimp only
    push_cast
    omega
  · rw [plus_of_ne _ hid]
    exact h.seats j r m hr hm

/-- A new room has promised its first seat. -/
theorem Promises.grow (h : Promises l) (hb : l.Born) (room : Room) (htaken : room.seats_taken = 1)
    (hnone : l.joins l.next_room_id = 0) :
    (∀ id m, Function.update l.match_of l.next_room_id
      (some (l.new_match l.next_room_id room.name)) id = some m → m.Seating) ∧
    ∀ id r m, Function.update l.rooms l.next_room_id (some room) id = some r →
      Function.update l.match_of l.next_room_id
        (some (l.new_match l.next_room_id room.name)) id = some m →
      r.seats_taken = m.audience.seats_filled + plus l.joins l.next_room_id id ∧
        r.seats_taken ≤ 2 := by
  obtain ⟨-, hseating, hempty⟩ := hb l.next_room_id room.name
  refine ⟨fun id m hm => ?_, fun id r m hr hm => ?_⟩
  · rw [Function.update_apply] at hm
    split_ifs at hm
    · rw [← Option.some.inj hm]
      exact hseating
    · exact h.seating id m hm
  · by_cases hid : id = l.next_room_id
    · rw [hid, Function.update_self] at hr hm
      rw [← Option.some.inj hr, ← Option.some.inj hm, hid, plus_self, hempty, hnone, htaken]
      exact ⟨rfl, by decide⟩
    · rw [Function.update_of_ne hid] at hr hm
      rw [plus_of_ne _ hid]
      exact h.seats id r m hr hm

theorem Promises.change (h : Promises l) (hb : l.Born) (hw : Waits l)
    (hnone : l.joins l.next_room_id = 0)
    (howns : ∀ id color, owns id color →
      ∃ m, l.match_of id = some m ∧ (m.audience.player color).isSome)
    (he : Effect owns found l l' os) : Promises l' := by
  cases he with
  | kept => exact h
  | opened rating closest =>
      obtain ⟨hseating, hseats⟩ := h.grow hb ⟨1, 1, rating, ""⟩ rfl hnone
      exact ⟨hseating, hseats⟩
  | created key drawn free =>
      obtain ⟨hseating, hseats⟩ := h.grow hb ⟨1, 1, 0, key⟩ rfl hnone
      exact ⟨hseating, hseats⟩
  | paired id room rating closest live =>
      refine ⟨h.seating, fun j r m hr hm => ?_⟩
      -- the room waited, so one seat was taken
      obtain ⟨entry, hmem, rfl⟩ := closest_mem closest
      obtain ⟨r', hr', -, htaken, -⟩ := hw.waiting entry hmem
      obtain rfl := Option.some.inj (live.symm.trans hr')
      exact h.promise live (by rw [htaken]; decide) _ j r m hr hm
  | counted id room name named live => exact ⟨h.seating, h.keep live _⟩
  | reserved id room name named live free => exact ⟨h.seating, h.promise live free _⟩
  | joined id m username rating connection color here about taken =>
      have hjoin := Match.seating_join (h.seating id m here) taken
      refine ⟨fun j n hn => ?_, fun j r n hr hn => ?_⟩
      · have hn : Function.update l.match_of id _ j = some n := hn
        rw [Function.update_apply] at hn
        split_ifs at hn
        · rw [← Option.some.inj hn]
          exact hjoin.seating
        · exact h.seating j n hn
      · have hn : Function.update l.match_of id _ j = some n := hn
        dsimp only at hr ⊢
        by_cases hid : j = id
        · rw [hid] at hr hn ⊢
          rw [Function.update_self] at hn
          have hseats := h.seats id r m hr here
          rw [← Option.some.inj hn, hjoin.taken.seats_filled, minus_self]
          omega
        · rw [Function.update_of_ne hid] at hn
          rw [minus_of_ne _ hid]
          exact h.seats j r n hr hn
  | stepped id m call r here step other owner =>
      have hkept := Match.seating_exec (h.seating id m here) other (fun color hcolor => by
        obtain ⟨n, hn, hplayer⟩ := howns id color (owner color hcolor)
        obtain rfl := Option.some.inj (here.symm.trans hn)
        exact hplayer) step
      refine ⟨fun j n hn => ?_, fun j room n hr hn => ?_⟩
      · have hn : Function.update l.match_of id _ j = some n := hn
        rw [Function.update_apply] at hn
        split_ifs at hn
        · rw [← Option.some.inj hn]
          exact hkept.seating
        · exact h.seating j n hn
      · have hn : Function.update l.match_of id _ j = some n := hn
        rw [Function.update_apply] at hn
        split_ifs at hn with hid
        · rw [← Option.some.inj hn, hkept.filled]
          exact h.seats j room m hr (hid ▸ here)
        · exact h.seats j room n hr hn
  | given_back id room live held found => exact ⟨h.seating, h.keep live _⟩
  | left id room live held more => exact ⟨h.seating, h.keep live _⟩
  | reaped id room live held last =>
      refine ⟨h.seating, fun j r m hr hm => ?_⟩
      have hr : Function.update l.rooms id none j = some r := hr
      rw [Function.update_apply] at hr
      split_ifs at hr
      exact h.seats j r m hr hm
  | lost id gone held => exact ⟨h.seating, h.seats⟩

/-- Whoever plays goes on playing. -/
theorem player_stays (hh : Homes l) (h : Promises l)
    (howns : ∀ id color, owns id color →
      ∃ m, l.match_of id = some m ∧ (m.audience.player color).isSome)
    (he : Effect owns found l l' os) {id : RoomId} {color : PieceColor}
    (hplays : ∃ m, l.match_of id = some m ∧ (m.audience.player color).isSome) :
    ∃ m, l'.match_of id = some m ∧ (m.audience.player color).isSome := by
  obtain ⟨m, hm, hplayer⟩ := hplays
  -- a room that has a match is not the one about to be opened
  have hne : id ≠ l.next_room_id := by
    rintro rfl
    cases hm.symm.trans (hh.fresh _ (Nat.le_refl _))
  have hstep : ∀ {j : RoomId} {n n' : Match}, l.match_of j = some n →
      (∀ c, (n.audience.player c).isSome → (n'.audience.player c).isSome) →
      ∃ m, Function.update l.match_of j (some n') id = some m ∧
        (m.audience.player color).isSome := by
    intro j n n' hn hstays
    rw [Function.update_apply]
    split_ifs with hid
    · rw [← hid] at hn
      obtain rfl := Option.some.inj (hm.symm.trans hn)
      exact ⟨n', rfl, hstays color hplayer⟩
    · exact ⟨m, hm, hplayer⟩
  cases he with
  | opened rating closest => exact ⟨m, (Function.update_of_ne hne _ _).trans hm, hplayer⟩
  | created key drawn free => exact ⟨m, (Function.update_of_ne hne _ _).trans hm, hplayer⟩
  | joined j n username rating connection c here about taken =>
      exact hstep here fun _ => (Match.seating_join (h.seating j n here) taken).taken.player_stays
  | stepped j n call r here step other owner =>
      refine hstep here (Match.seating_exec (h.seating j n here) other (fun c hc => ?_) step).player
      -- the seat whose colour drops is held, so it is played
      obtain ⟨n', hn', hc'⟩ := howns j c (owner c hc)
      obtain rfl := Option.some.inj (here.symm.trans hn')
      exact hc'
  | kept | paired | counted | reserved | given_back | left | reaped | lost => exact ⟨m, hm, hplayer⟩

/-! ## The books -/

/-- What holds of the rooms at any moment. -/
structure Accounted (s : RoomManager) : Prop where
  homes : Homes s.ledger
  counted : RefCount.Counted s.ledger.counts s.ledger.held
  names : Names s.ledger
  waits : Waits s.ledger
  promises : Promises s.ledger
  undos : s.ledger.undos = 0
  owners : ∀ id color, s.owned id color → s.plays id color

/-- The room that comes next has no match yet. -/
theorem Accounted.fresh {s : RoomManager} (h : Accounted s) : s.match_of s.next_room_id = none :=
  h.homes.fresh _ (Nat.le_refl _)

/-- The settings that matches are made with are never changed. -/
theorem Effect.new_match (he : Effect owns found l l' os) : l'.new_match = l.new_match := by
  cases he <;> rfl

/-- No step that has an effect adds a call that undoes a promise. -/
theorem Effect.undos (he : Effect owns found l l' os) : l'.undos = l.undos := by
  cases he <;> rfl

/-- **Nothing irregular comes up.** -/
theorem Accounted.regular {s : RoomManager} (h : Accounted s) : ¬ Irregular s.ledger := by
  rintro (⟨id, m, username, rating, connection, here, about, refused⟩ | undoing |
    ⟨id, absent, held⟩)
  · -- a call that is to join counts for its room, which has promised it one of two seats
    obtain ⟨n, hn⟩ := h.counted.open_of_held (Nat.lt_of_lt_of_le about (joins_le_held s id))
    obtain ⟨room, hroom, -⟩ := Option.map_eq_some_iff.mp hn
    have hseats := h.promises.seats id room m hroom here
    have hfull := Match.seats_full_of_refused (h.promises.seating id m here) refused
    omega
  · rw [h.undos] at undoing
    exact absurd undoing (Nat.lt_irrefl 0)
  · obtain ⟨n, hn⟩ := h.counted.open_of_held held
    obtain ⟨room, hroom, -⟩ := Option.map_eq_some_iff.mp hn
    have hhere := h.homes.here id (by rw [hroom]; rfl)
    rw [absent] at hhere
    cases hhere

/-- What a step does, when the books are right. -/
theorem Accounted.effect {s s' : RoomManager} {op : Op} {tr : List RoomEvent} (h : Accounted s)
    (hexec : exec s op = .ok (s', tr)) :
    Effect s.owned (s.unreaped op) s.ledger s'.ledger (did tr) :=
  (exec_steps hexec).effect.resolve_left h.regular

/-- **The step lemma.** -/
theorem Accounted.exec {s s' : RoomManager} {op : Op} {tr : List RoomEvent} (h : Accounted s)
    (hexec : exec s op = .ok (s', tr)) : Accounted s' := by
  have he := h.effect hexec
  have hclosed : s.ledger.joins s.ledger.next_room_id = 0 :=
    Nat.le_zero.mp (h.homes.unheld h.counted ▸ joins_le_held s _)
  obtain ⟨u, hchange, -⟩ := counts_change h.homes h.counted he
  exact {
    homes := h.homes.change he
    counted := h.counted.change hchange
    names := h.names.change h.homes (born s) he
    waits := h.waits.change h.homes h.names he
    promises := h.promises.change (born s) h.waits hclosed h.owners he
    undos := he.undos.trans h.undos
    owners := fun id color howned => by
      rcases (exec_steps hexec).owned id color howned with hbefore | hplays
      · exact player_stays h.homes h.promises h.owners he (h.owners id color hbefore)
      · exact hplays }

theorem accounted_new (board_factory : RoomId → Board) (config : MotionFactory) (on_result : Bool)
    (disconnect_grace_ms : Int) (directory : Option (String → Option String))
    (self_url : String) :
    Accounted (new board_factory config on_result disconnect_grace_ms directory self_url) where
  homes := ⟨fun _ _ => rfl, fun _ h => absurd h Bool.false_ne_true⟩
  counted _ := rfl
  names := ⟨fun _ _ => ⟨fun h => absurd h nofun, fun h => absurd h.2 nofun⟩,
    fun _ _ _ h => absurd h nofun⟩
  waits := ⟨List.nodup_nil, fun _ h => absurd h List.not_mem_nil⟩
  promises := ⟨fun _ _ h => absurd h nofun, fun _ _ _ h => absurd h nofun⟩
  undos := rfl
  owners := fun _ _ ⟨_, h⟩ => absurd h List.not_mem_nil

/-- **The books are right in every state reached.** -/
theorem accounted_of_reach {s₀ s : RoomManager} {tr : List RoomEvent}
    {C : RoomManager → List RoomEvent → Op → Prop} (h₀ : Accounted s₀)
    (h : Reach exec C s₀ s tr) : Accounted s :=
  h.invariant (P := fun s _ => Accounted s) h₀
    fun _ _ _ _ _ _ h _ hexec => h.exec hexec

end RoomManager

end KungFuChess
