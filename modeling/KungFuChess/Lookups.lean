/-
**Every room is found.**

If Redis is reached, its clock does not go back, and no key is drawn twice, then the
directory is exact: what it says of a name is who has the room, for six hours from when
the room was registered. Each name is in one stage of its life at a time, on the worker
that drew its key (`Exact.load`), and while it is posted it is entered (`Exact.entered`).
-/
import KungFuChess.SharedDirectory

set_option autoImplicit false

namespace KungFuChess

open Machine ExpiringMap RedisRoomDirectory

/-! ## One worker -/

namespace RoomManager

variable {s s' : RoomManager} {op : Op} {name : String}

/-- How often the name is in use: as that of a room, and in a call that is to forget it. -/
def load (s : RoomManager) (name : String) : Nat :=
  s.removals.count name + if (s.named_rooms name).isSome then 1 else 0

theorem load_pos_of_posted (h : s.posted name = true) : 0 < s.load name := by
  unfold load
  rcases posted_iff.mp h with ⟨id, hid, -⟩ | hmem
  · rw [hid, Option.isSome_some, if_pos rfl]
    omega
  · have hpos := List.count_pos_iff.mpr hmem
    omega

theorem load_pos_of_registering {d : String → Option String} (h : Lists d s) {id : RoomId}
    (hmem : (name, id) ∈ s.registrations) : 0 < s.load name := by
  unfold load
  rw [h.registering name id hmem, Option.isSome_some, if_pos rfl]
  omega

/-- A name is taken up when its key is drawn. -/
theorem Lifecycle.load_le (h : Lifecycle s op s') (name : String) :
    s'.load name ≤ s.load name + if s.draws op = some name then 1 else 0 := by
  unfold load
  cases h with
  | kept unwritten undrawn named registrations removals =>
      rw [named, removals.count_eq]
      omega
  | created key id unwritten drawn named registrations removals =>
      rw [named, removals.count_eq, drawn]
      by_cases hkey : name = key
      · subst hkey
        rw [Function.update_self, Option.isSome_some, if_pos rfl, if_pos rfl]
        omega
      · rw [Function.update_of_ne hkey]
        omega
  | registered key id written undrawn named registrations removals =>
      rw [named, removals.count_eq]
      omega
  | reaped gone id unwritten undrawn live done named registrations removals =>
      rw [named, removals.count_eq, List.count_cons]
      by_cases hgone : name = gone
      · subst hgone
        rw [Function.update_self, live]
        simp
      · rw [Function.update_of_ne hgone]
        have hne : (gone == name) = false := beq_eq_false_iff_ne.mpr fun heq => hgone heq.symm
        rw [hne]
        simp
  | forgotten gone written undrawn named registrations removals =>
      rw [named, ← removals.count_eq]
      split_ifs <;> simp [List.count_cons] <;> omega

/-- With the command to forget it a name is given up. -/
theorem Lifecycle.load_lt (h : Lifecycle s op s')
    (hforget : s.written_by op = some (.forget_room name)) (hname : name ≠ "") :
    s'.load name + 1 = s.load name := by
  cases h with
  | forgotten gone written undrawn named registrations removals =>
      obtain rfl := DirectoryCommand.forget_room.inj (Option.some.inj (written.symm.trans hforget))
      rw [if_neg hname] at removals
      unfold load
      rw [named, ← removals.count_eq, List.count_cons_self]
      omega
  | kept unwritten => exact absurd (unwritten.symm.trans hforget) nofun
  | created _ _ unwritten => exact absurd (unwritten.symm.trans hforget) nofun
  | registered key id written => exact absurd (written.symm.trans hforget) nofun
  | reaped _ _ unwritten => exact absurd (unwritten.symm.trans hforget) nofun

/-- What is posted after a step is registered by it, or was posted and is not forgotten. -/
theorem Lifecycle.posted_before (h : Lifecycle s op s') (hposted : s'.posted name = true)
    (honce : s.load name ≤ 1) (hdrawn : s.draws op = some name → s.load name = 0)
    (hname : name ≠ "") :
    s.written_by op = some (.register_room name s.self_url) ∨
      s.posted name = true ∧ s.written_by op ≠ some (.forget_room name) := by
  have hkept : s.written_by op ≠ some (.forget_room name) := by
    intro hforget
    have hlt := h.load_lt hforget hname
    have hpos := load_pos_of_posted hposted
    omega
  cases h with
  | kept unwritten undrawn named registrations removals =>
      refine .inr ⟨?_, hkept⟩
      exact posted_mono (congrFun named name).symm (fun id hmem => registrations.mem_iff.mpr hmem)
        (fun hmem => removals.mem_iff.mp hmem) hposted
  | created key id unwritten drawn named registrations removals =>
      refine .inr ⟨?_, hkept⟩
      by_cases hkey : name = key
      · -- the room is yet to be registered, and nothing is left of another one
        subst hkey
        rcases posted_iff.mp hposted with ⟨j, hj, hdone⟩ | hmem
        · rw [named, Function.update_self] at hj
          obtain rfl := Option.some.inj hj
          refine absurd ?_ hdone
          rw [registrations]
          exact List.mem_append_right _ (List.mem_singleton_self _)
        · have hbefore : s.posted name = true := posted_iff.mpr (.inr (removals.mem_iff.mp hmem))
          exact absurd (hdrawn drawn) (load_pos_of_posted hbefore).ne'
      · refine posted_mono ?_ ?_ (fun hmem => removals.mem_iff.mp hmem) hposted
        · rw [named, Function.update_of_ne hkey]
        · intro j hj
          rw [registrations]
          exact List.mem_append_left _ hj
  | registered key id written undrawn named registrations removals =>
      by_cases hkey : name = key
      · rw [hkey]
        exact .inl written
      · refine .inr ⟨?_, hkept⟩
        refine posted_mono (congrFun named name).symm (fun j hj => ?_)
          (fun hmem => removals.mem_iff.mp hmem) hposted
        refine (List.mem_cons.mp (registrations.mem_iff.mpr hj)).resolve_left fun heq => ?_
        exact hkey (Prod.mk.inj heq).1
  | reaped gone id unwritten undrawn live done named registrations removals =>
      refine .inr ⟨?_, hkept⟩
      by_cases hgone : name = gone
      · rw [hgone, posted_iff]
        exact .inl ⟨id, live, done⟩
      · refine posted_mono ?_ (fun id hmem => registrations.mem_iff.mpr hmem) (fun hmem => ?_)
          hposted
        · rw [named, Function.update_of_ne hgone]
        · exact (List.mem_cons.mp (removals.mem_iff.mp hmem)).resolve_left hgone
  | forgotten gone written undrawn named registrations removals =>
      refine .inr ⟨?_, hkept⟩
      refine posted_mono (congrFun named name).symm (fun id hmem => registrations.mem_iff.mpr hmem)
        (fun hmem => removals.mem_iff.mp ?_) hposted
      split_ifs
      · exact hmem
      · exact List.mem_cons_of_mem _ hmem

end RoomManager

namespace Fleet

variable {urls : List String} {s s' : Fleet} {tr os : List FleetEvent} {op : Op}

/-! ## The keys -/

/-- When Redis was used. -/
def times (tr : List FleetEvent) : List Int :=
  tr.filterMap fun
    | .sent _ _ now _ => some now
    | .evicted _ now => some now
    | _ => none

def drawn (tr : List FleetEvent) : List String :=
  tr.filterMap fun
    | .drew _ key => some key
    | _ => none

/-- Redis is reached, its clock does not go back, and no key is drawn that has been drawn. -/
def Orderly (s : Fleet) (tr : List FleetEvent) : Op → Prop
  | .worker i op now through => through = true ∧ (∀ t ∈ times tr, t ≤ now) ∧
      ∀ w ∈ s.workers[i]?, ∀ key ∈ w.draws op, key ∉ drawn tr
  | .evict _ now => ∀ t ∈ times tr, t ≤ now

instance (s : Fleet) (tr : List FleetEvent) (op : Op) : Decidable (Orderly s tr op) := by
  unfold Orderly
  cases op <;> infer_instance

theorem mem_drawn {name : String} : name ∈ drawn tr ↔ ∃ i, .drew i name ∈ tr := by
  unfold drawn
  rw [List.mem_filterMap]
  constructor
  · rintro ⟨e, hmem, he⟩
    cases e with
    | drew i key =>
        obtain rfl := Option.some.inj he
        exact ⟨i, hmem⟩
    | _ => cases he
  · rintro ⟨i, hmem⟩
    exact ⟨_, hmem, rfl⟩

/-- Each key is drawn once, by the worker that has its name in use, and in one way. -/
structure Drawn (s : Fleet) (tr : List FleetEvent) : Prop where
  load : ∀ i w, s.workers[i]? = some w → ∀ name, w.load name ≤ tr.count (.drew i name)
  once : ∀ i name, tr.count (.drew i name) ≤ 1
  owner : ∀ i j name, .drew i name ∈ tr → .drew j name ∈ tr → i = j
  keys : ∀ i name, .drew i name ∈ tr → RoomManager.is_room_key name = true

theorem Drawn.load_le_one (h : Drawn s tr) {i : Nat} {w : RoomManager}
    (hw : s.workers[i]? = some w) (name : String) : w.load name ≤ 1 :=
  (h.load i w hw name).trans (h.once i name)

theorem Drawn.drew (h : Drawn s tr) {i : Nat} {w : RoomManager} (hw : s.workers[i]? = some w)
    {name : String} (hload : 0 < w.load name) : .drew i name ∈ tr :=
  List.count_pos_iff.mp (Nat.lt_of_lt_of_le hload (h.load i w hw name))

theorem count_said (i j : Nat) (w : RoomManager) (op : RoomManager.Op) (now : Int) (through : Bool)
    (events : List RoomEvent) (name : String) :
    (said i w op now through events).count (.drew j name)
      = if w.draws op = some name ∧ i = j then 1 else 0 := by
  have hsent : ((w.command_of op).toList.map (FleetEvent.sent i · now through)).count
      (.drew j name) = 0 := by
    refine List.count_eq_zero.mpr fun hmem => ?_
    obtain ⟨command, -, hcommand⟩ := List.mem_map.mp hmem
    cases hcommand
  have hown : (events.map (FleetEvent.of_worker i)).count (.drew j name) = 0 := by
    refine List.count_eq_zero.mpr fun hmem => ?_
    obtain ⟨event, -, hevent⟩ := List.mem_map.mp hmem
    cases hevent
  unfold said
  rw [List.count_append, List.count_append, hsent, hown]
  cases w.draws op with
  | none => simp
  | some key => simp [List.count_singleton, and_comm]

/-- **The step lemma** for the keys. -/
theorem Drawn.works (h : Drawn s tr) {i : Nat} {op : RoomManager.Op} {now : Int} {through : Bool}
    {w w' : RoomManager} {redis : Redis} {events : List RoomEvent} (here : s.workers[i]? = some w)
    (hfresh : ∀ key ∈ w.draws op, key ∉ drawn tr) (hlife : w.Lifecycle op w') :
    Drawn ⟨s.workers.set i w', redis⟩ (tr ++ said i w op now through events) where
  load := by
    intro j v hv name
    rw [List.count_append, count_said]
    dsimp only at hv
    rw [List.getElem?_set] at hv
    split_ifs at hv with hij hlt
    · obtain rfl := Option.some.inj hv
      have hle := hlife.load_le name
      have hbefore := h.load i w here name
      subst hij
      simp only [and_true]
      omega
    · have hbefore := h.load j v hv name
      omega
  once := by
    intro j name
    rw [List.count_append, count_said]
    split_ifs with hdraws
    · have hnone : tr.count (.drew j name) = 0 := by
        refine List.count_eq_zero.mpr fun hmem => ?_
        exact hfresh name hdraws.1 (mem_drawn.mpr ⟨j, hmem⟩)
      omega
    · exact h.once j name
  owner := by
    intro j k name hj hk
    rcases List.mem_append.mp hj with hj | hj <;> rcases List.mem_append.mp hk with hk | hk
    · exact h.owner j k name hj hk
    · exact absurd (mem_drawn.mpr ⟨j, hj⟩) (hfresh name (drew_mem.mp hk).1)
    · exact absurd (mem_drawn.mpr ⟨k, hk⟩) (hfresh name (drew_mem.mp hj).1)
    · exact (drew_mem.mp hj).2.symm.trans (drew_mem.mp hk).2
  keys := by
    intro j name hj
    rcases List.mem_append.mp hj with hj | hj
    · exact h.keys j name hj
    · exact (RoomManager.free_of_draws (drew_mem.mp hj).1).1

/-! ## The directory -/

/-- What the directory says is so. -/
structure Exact (s : Fleet) (tr : List FleetEvent) : Prop where
  /-- What is posted is entered. -/
  entered : ∀ i w, s.workers[i]? = some w → ∀ name, w.posted name = true →
    ∃ t, entries tr (key name) = some ⟨w.self_url, t + time_to_live⟩ ∧
      .sent i (.register_room name w.self_url) t true ∈ tr
  /-- A name is registered by who drew it, -/
  registered : ∀ i name url t through, .sent i (.register_room name url) t through ∈ tr →
    .drew i name ∈ tr ∧ ∀ w, s.workers[i]? = some w → ∀ id, (name, id) ∉ w.registrations
  /-- and once. -/
  unique : ∀ i j name url url' t t', .sent i (.register_room name url) t true ∈ tr →
    .sent j (.register_room name url') t' true ∈ tr → i = j ∧ t = t'
  tracks : ∀ last, (∀ t ∈ times tr, t ≤ last) → Tracks s.redis (entries tr) last
  through : ∀ i command t, .sent i command t false ∉ tr

/-- The name that a command writes. -/
def Writes (w : RoomManager) (op : RoomManager.Op) (name : String) : Prop :=
  (∃ url, w.command_of op = some (.register_room name url)) ∨
    w.command_of op = some (.forget_room name)

/-- A worker writes a name that it has in use. -/
theorem load_pos_of_writes {d : String → Option String} {w : RoomManager} {op : RoomManager.Op}
    {name : String} (hlists : w.Lists d) (h : Writes w op name) : name = "" ∨ 0 < w.load name := by
  rcases h with ⟨url, hcommand⟩ | hcommand
  · obtain ⟨-, id, hregister⟩ := RoomManager.registering_of_command hcommand
    exact .inr (RoomManager.load_pos_of_registering hlists hregister)
  · cases op with
    | proceed call =>
        obtain ⟨p, hc, hp⟩ := Option.bind_eq_some_iff.mp hcommand
        cases p with
        | forget_room name' =>
            obtain rfl := DirectoryCommand.forget_room.inj (Option.some.inj hp)
            by_cases hname : name' = ""
            · exact .inl hname
            · refine .inr (RoomManager.load_pos_of_posted (RoomManager.posted_iff.mpr (.inr ?_)))
              exact List.mem_filterMap.mpr ⟨_, List.mem_of_getElem? hc, if_neg hname⟩
        | _ => cases hp
    | _ => cases hcommand

theorem Drawn.whole_of_writes (h : Drawn s tr) {d : String → Option String} {i : Nat}
    {w : RoomManager} (here : s.workers[i]? = some w) (hlists : w.Lists d) {op : RoomManager.Op}
    {name : String} (hwrites : Writes w op name) : c_str name = name := by
  rcases load_pos_of_writes hlists hwrites with rfl | hload
  · rfl
  · exact c_str_room_key (h.keys i name (h.drew here hload))

/-- An entry is changed only by a step that writes its name. -/
theorem Drawn.entries_said (h : Drawn s tr) {d : String → Option String} {i : Nat}
    {w : RoomManager} (here : s.workers[i]? = some w) (hlists : w.Lists d) {op : RoomManager.Op}
    {name : String} (hname : c_str name = name) (hother : ¬ Writes w op name) (now : Int)
    (through : Bool) (events : List RoomEvent) :
    entries (tr ++ said i w op now through events) (key name) = entries tr (key name) := by
  have hkey : ∀ other, Writes w op other → key name ≠ key other := by
    intro other hwrites heq
    have hsame := key_inj.mp heq
    rw [hname, h.whole_of_writes here hlists hwrites] at hsame
    exact hother (hsame ▸ hwrites)
  rw [Fleet.entries_said]
  cases hcommand : w.command_of op with
  | none => rfl
  | some command =>
      cases command with
      | owner_of other => rfl
      | register_room other url =>
          cases through with
          | false => rfl
          | true => exact put_other _ (hkey other (.inl ⟨url, hcommand⟩)) _ _
      | forget_room other => exact Function.update_of_ne (hkey other (.inr hcommand)) _ _

section Works

variable {i : Nat} {w w' : RoomManager} {op : RoomManager.Op} {now : Int} {answer : Option String}
  {events : List RoomEvent}

/-- What the worker that makes the step has posted is entered. -/
theorem Exact.entered_own (h : Exact s tr) (hd : Drawn s tr) (hlists : w.Lists (listing tr))
    (here : s.workers[i]? = some w) (hurl : c_str w.self_url = w.self_url)
    (hfresh : ∀ key ∈ w.draws op, key ∉ drawn tr)
    (step : RoomManager.exec (w.on_redis fun _ => answer) op = .ok (w', events)) {name : String}
    (hposted : w'.posted name = true) :
    ∃ t, entries (tr ++ said i w op now true events) (key name)
        = some ⟨w.self_url, t + time_to_live⟩ ∧
      .sent i (.register_room name w.self_url) t true ∈ tr ++ said i w op now true events := by
  have hlife := hlists.lifecycle step
  have hdrawn : w.draws op = some name → w.load name = 0 := by
    intro hdraws
    by_contra hload
    exact hfresh name hdraws (mem_drawn.mpr ⟨i, hd.drew here (Nat.pos_of_ne_zero hload)⟩)
  have hkey : RoomManager.is_room_key name = true := by
    have hpos := RoomManager.load_pos_of_posted hposted
    have hle := hlife.load_le name
    by_cases hdraws : w.draws op = some name
    · exact (RoomManager.free_of_draws hdraws).1
    · rw [if_neg hdraws] at hle
      exact hd.keys i name (hd.drew here (by omega))
  have hset : w.command_of op = some (.register_room name w.self_url) →
      ∃ t, entries (tr ++ said i w op now true events) (key name)
          = some ⟨w.self_url, t + time_to_live⟩ ∧
        .sent i (.register_room name w.self_url) t true ∈ tr ++ said i w op now true events := by
    intro hcommand
    refine ⟨now, ?_, List.mem_append_right _ (sent_mem.mpr ⟨hcommand, rfl, rfl, rfl⟩)⟩
    rw [Fleet.entries_said, hcommand]
    refine (put_same ..).trans ?_
    rw [hurl]
  rcases hlife.posted_before hposted (hd.load_le_one here name) hdrawn
    (RoomManager.key_ne_empty hkey) with hwritten | ⟨hbefore, hkept⟩
  · exact hset (Option.mem_filter_iff.mp hwritten).1
  · by_cases hwrites : Writes w op name
    · rcases hwrites with ⟨url, hcommand⟩ | hcommand
      · obtain ⟨rfl, -⟩ := RoomManager.registering_of_command hcommand
        exact hset hcommand
      · exact absurd (Option.mem_filter_iff.mpr ⟨hcommand, rfl⟩) hkept
    · obtain ⟨t, hentry, hsent⟩ := h.entered i w here name hbefore
      refine ⟨t, ?_, List.mem_append_left _ hsent⟩
      rw [hd.entries_said here hlists (c_str_room_key hkey) hwrites]
      exact hentry

/-- What another worker has posted stays entered. -/
theorem Exact.entered_other (h : Exact s tr) (hd : Drawn s tr) (hlists : w.Lists (listing tr))
    (here : s.workers[i]? = some w) {j : Nat} {v : RoomManager} (hv : s.workers[j]? = some v)
    (hij : i ≠ j) {name : String} (hposted : v.posted name = true) :
    ∃ t, entries (tr ++ said i w op now true events) (key name)
        = some ⟨v.self_url, t + time_to_live⟩ ∧
      .sent j (.register_room name v.self_url) t true ∈ tr ++ said i w op now true events := by
  have hdrew := hd.drew hv (RoomManager.load_pos_of_posted hposted)
  have hkey := hd.keys j name hdrew
  have hwrites : ¬ Writes w op name := by
    intro hwrites
    rcases load_pos_of_writes hlists hwrites with hempty | hload
    · exact RoomManager.key_ne_empty hkey hempty
    · exact hij (hd.owner i j name (hd.drew here hload) hdrew)
  obtain ⟨t, hentry, hsent⟩ := h.entered j v hv name hposted
  refine ⟨t, ?_, List.mem_append_left _ hsent⟩
  rw [hd.entries_said here hlists (c_str_room_key hkey) hwrites]
  exact hentry

/-- A name that is registered was drawn here, and is registered once. -/
theorem Exact.registered_works (h : Exact s tr) (hd : Drawn s tr) (hlists : w.Lists (listing tr))
    (here : s.workers[i]? = some w) (hfresh : ∀ key ∈ w.draws op, key ∉ drawn tr)
    (step : RoomManager.exec (w.on_redis fun _ => answer) op = .ok (w', events)) {j : Nat}
    {name url : String} {t : Int} {through : Bool}
    (hsent : .sent j (.register_room name url) t through ∈ tr ++ said i w op now true events) :
    .drew j name ∈ tr ++ said i w op now true events ∧
      ∀ v, (s.workers.set i w')[j]? = some v → ∀ id, (name, id) ∉ v.registrations := by
  have hlife := hlists.lifecycle step
  obtain ⟨hregistering, honce⟩ := hlists.registering_step hlife
  rcases List.mem_append.mp hsent with hbefore | hnow
  · obtain ⟨hdrew, hdone⟩ := h.registered j name url t through hbefore
    refine ⟨List.mem_append_left _ hdrew, fun v hv id hmem => ?_⟩
    rw [List.getElem?_set] at hv
    split_ifs at hv with hij hlt
    · obtain rfl := Option.some.inj hv
      subst hij
      cases hlife with
      | kept _ _ _ registrations => exact hdone w here id (registrations.mem_iff.mp hmem)
      | created key id' _ hdrawn _ registrations =>
          rw [registrations] at hmem
          rcases List.mem_append.mp hmem with hmem | hmem
          · exact hdone w here id hmem
          · -- a key that has been drawn is not drawn again
            obtain ⟨rfl, -⟩ := Prod.mk.inj (List.mem_singleton.mp hmem)
            exact hfresh name hdrawn (mem_drawn.mpr ⟨i, hdrew⟩)
      | registered _ _ _ _ _ registrations =>
          exact hdone w here id (registrations.mem_iff.mp (List.mem_cons_of_mem _ hmem))
      | reaped _ _ _ _ _ _ _ registrations =>
          exact hdone w here id (registrations.mem_iff.mp hmem)
      | forgotten _ _ _ _ registrations => exact hdone w here id (registrations.mem_iff.mp hmem)
    · exact hdone v hv id hmem
  · obtain ⟨hcommand, rfl, -⟩ := sent_mem.mp hnow
    obtain ⟨rfl, id, hregister⟩ := RoomManager.registering_of_command hcommand
    have hdrew := hd.drew here (RoomManager.load_pos_of_registering hlists hregister)
    refine ⟨List.mem_append_left _ hdrew, fun v hv id' hmem => ?_⟩
    obtain ⟨hi, -⟩ := List.getElem?_eq_some_iff.mp here
    rw [List.getElem?_set_self hi] at hv
    obtain rfl := Option.some.inj hv
    have hwritten : w.written_by op = some (.register_room name w.self_url) :=
      Option.mem_filter_iff.mpr ⟨hcommand, rfl⟩
    cases hlife with
    | registered key id₀ written undrawn named registrations =>
        obtain ⟨rfl, -⟩ :=
          DirectoryCommand.register_room.inj (Option.some.inj (written.symm.trans hwritten))
        -- the call that registers it was the only one
        have hkey := hlists.registering key id₀ (registrations.mem_iff.mp List.mem_cons_self)
        have hsame := hregistering key id' hmem
        rw [named, hkey] at hsame
        obtain rfl := Option.some.inj hsame
        exact (List.nodup_cons.mp (registrations.nodup_iff.mpr hlists.once)).1 hmem
    | kept unwritten => exact absurd (unwritten.symm.trans hwritten) nofun
    | created _ _ unwritten => exact absurd (unwritten.symm.trans hwritten) nofun
    | reaped _ _ unwritten => exact absurd (unwritten.symm.trans hwritten) nofun
    | forgotten _ written => exact absurd (written.symm.trans hwritten) nofun

theorem Exact.unique_works (h : Exact s tr) (hd : Drawn s tr) (hlists : w.Lists (listing tr))
    (here : s.workers[i]? = some w) {j k : Nat} {name url url' : String} {t t' : Int}
    (hj : .sent j (.register_room name url) t true ∈ tr ++ said i w op now true events)
    (hk : .sent k (.register_room name url') t' true ∈ tr ++ said i w op now true events) :
    j = k ∧ t = t' := by
  -- what is registered now has not been registered before
  have hnew : ∀ {j : Nat} {url url' : String} {t t' : Int},
      .sent j (.register_room name url) t true ∈ tr →
      .sent i (.register_room name url') t' true ∉ said i w op now true events := by
    intro j url url' t t' hbefore hnow
    obtain ⟨hcommand, -⟩ := sent_mem.mp hnow
    obtain ⟨-, id, hregister⟩ := RoomManager.registering_of_command hcommand
    obtain ⟨hdrew, hdone⟩ := h.registered j name url t true hbefore
    have hown := hd.drew here (RoomManager.load_pos_of_registering hlists hregister)
    obtain rfl := hd.owner i j name hown hdrew
    exact hdone w here id hregister
  rcases List.mem_append.mp hj with hj | hj <;> rcases List.mem_append.mp hk with hk | hk
  · exact h.unique j k name url url' t t' hj hk
  · obtain ⟨-, rfl, -⟩ := sent_mem.mp hk
    exact absurd hk (hnew hj)
  · obtain ⟨-, rfl, -⟩ := sent_mem.mp hj
    exact absurd hj (hnew hk)
  · obtain ⟨-, rfl, rfl, -⟩ := sent_mem.mp hj
    obtain ⟨-, rfl, rfl, -⟩ := sent_mem.mp hk
    exact ⟨rfl, rfl⟩

end Works

theorem times_append (tr os : List FleetEvent) : times (tr ++ os) = times tr ++ times os :=
  List.filterMap_append

/-- Redis answers as if it kept every entry until its time is over. -/
theorem Exact.tracks_works (h : Exact s tr) {i : Nat} {w : RoomManager} {op : RoomManager.Op}
    {now last : Int} {events : List RoomEvent}
    (hlast : ∀ t ∈ times (tr ++ said i w op now true events), t ≤ last) :
    Tracks (after_command s.redis now true (w.command_of op)).1
      (entries (tr ++ said i w op now true events)) last := by
  have hbefore : Tracks s.redis (entries tr) last := by
    refine h.tracks last fun t ht => hlast t ?_
    rw [times_append]
    exact List.mem_append_left _ ht
  rw [Fleet.entries_said]
  cases hcommand : w.command_of op with
  | none => exact hbefore
  | some command =>
      have hnow : now ≤ last := by
        refine hlast now (List.mem_filterMap.mpr ⟨.sent i command now true, ?_, rfl⟩)
        exact List.mem_append_right _ (sent_mem.mpr ⟨hcommand, rfl, rfl, rfl⟩)
      cases command with
      | register_room name url => exact hbefore.put _ _ _
      | forget_room name => exact hbefore.drop _
      | owner_of name =>
          have hfind := hbefore.find (key name) now
          rwa [max_eq_left hnow] at hfind

/-- **The step lemma** for the directory. -/
theorem Exact.works (h : Exact s tr) (hd : Drawn s tr) (hkept : Kept urls s tr)
    (hurls : ∀ url ∈ urls, c_str url = url) {i : Nat} {op : RoomManager.Op} {now : Int}
    {w w' : RoomManager} {events : List RoomEvent} (here : s.workers[i]? = some w)
    (hfresh : ∀ key ∈ w.draws op, key ∉ drawn tr)
    (step : RoomManager.exec
      (w.on_redis fun _ => (after_command s.redis now true (w.command_of op)).2) op
        = .ok (w', events)) :
    Exact ⟨s.workers.set i w', (after_command s.redis now true (w.command_of op)).1⟩
      (tr ++ said i w op now true events) where
  entered := by
    intro j v hv name hposted
    have hlists := hkept.lists w (List.mem_of_getElem? here)
    dsimp only at hv
    rw [List.getElem?_set] at hv
    split_ifs at hv with hij hlt
    · obtain rfl := Option.some.inj hv
      subst hij
      have hurl : w'.self_url = w.self_url :=
        (hlists.step (follows_said hlists i now true events) step).1
      rw [hurl]
      exact h.entered_own hd hlists here (hurls _ (hkept.address_mem here)) hfresh step hposted
    · exact h.entered_other hd hlists here hv hij hposted
  registered _ _ _ _ _ hsent :=
    h.registered_works hd (hkept.lists w (List.mem_of_getElem? here)) here hfresh step hsent
  unique _ _ _ _ _ _ _ hj hk :=
    h.unique_works hd (hkept.lists w (List.mem_of_getElem? here)) here hj hk
  tracks _ hlast := h.tracks_works hlast
  through := by
    intro j command t hmem
    rcases List.mem_append.mp hmem with hmem | hmem
    · exact h.through j command t hmem
    · exact absurd (sent_mem.mp hmem).2.2.2 nofun

/-- Redis takes out what is over, and nothing else changes. -/
theorem Exact.evicts (h : Exact s tr) (k : String) (now : Int) :
    Exact { s with redis := (find s.redis k now).1 } (tr ++ [.evicted k now]) := by
  have hentries : entries (tr ++ [.evicted k now]) = entries tr := entries_append tr _
  have hsent : ∀ {j : Nat} {command : DirectoryCommand} {t : Int} {through : Bool},
      .sent j command t through ∈ tr ++ [FleetEvent.evicted k now] →
      .sent j command t through ∈ tr := by
    intro j command t through hmem
    refine (List.mem_append.mp hmem).resolve_right fun hlast => ?_
    exact absurd (List.mem_singleton.mp hlast) nofun
  refine ⟨?_, ?_, ?_, ?_, ?_⟩
  · intro j v hv name hposted
    rw [hentries]
    obtain ⟨t, hentry, hmem⟩ := h.entered j v hv name hposted
    exact ⟨t, hentry, List.mem_append_left _ hmem⟩
  · intro j name url t through hmem
    obtain ⟨hdrew, hdone⟩ := h.registered j name url t through (hsent hmem)
    exact ⟨List.mem_append_left _ hdrew, hdone⟩
  · intro j l name url url' t t' hj hl
    exact h.unique j l name url url' t t' (hsent hj) (hsent hl)
  · intro last hlast
    rw [hentries]
    have hnow : now ≤ last := by
      refine hlast now ?_
      rw [times_append]
      exact List.mem_append_right _ (List.mem_singleton_self now)
    have hfind := (h.tracks last fun t ht => hlast t (by
      rw [times_append]
      exact List.mem_append_left _ ht)).find k now
    rwa [max_eq_left hnow] at hfind
  · intro j command t hmem
    exact h.through j command t (hsent hmem)

theorem Drawn.evicts (h : Drawn s tr) (redis : Redis) (k : String) (now : Int) :
    Drawn { s with redis := redis } (tr ++ [.evicted k now]) := by
  have hcount : ∀ j name, (tr ++ [FleetEvent.evicted k now]).count (.drew j name)
      = tr.count (.drew j name) := by
    intro j name
    rw [List.count_append]
    rfl
  have hmem : ∀ {j : Nat} {name : String},
      .drew j name ∈ tr ++ [FleetEvent.evicted k now] → .drew j name ∈ tr := by
    intro j name hmem
    refine (List.mem_append.mp hmem).resolve_right fun hlast => ?_
    exact absurd (List.mem_singleton.mp hlast) nofun
  refine ⟨?_, ?_, ?_, ?_⟩
  · intro j v hv name
    rw [hcount]
    exact h.load j v hv name
  · intro j name
    rw [hcount]
    exact h.once j name
  · exact fun i j name hi hj => h.owner i j name (hmem hi) (hmem hj)
  · exact fun j name hj => h.keys j name (hmem hj)

theorem exact_of_reach {board_factory : RoomId → Board} {config : MotionFactory} {on_result : Bool}
    {disconnect_grace_ms : Int} {worker_urls : List String}
    (hurls : (worker_urls.map c_str).Nodup)
    (hrun : Reach exec Orderly
      (.new board_factory config on_result disconnect_grace_ms worker_urls) s tr) :
    Drawn s tr ∧ Exact s tr := by
  refine hrun.invariant (P := fun s tr => Drawn s tr ∧ Exact s tr) ⟨⟨?_, ?_, ?_, ?_⟩, ?_⟩ ?_
  · intro i w hw name
    obtain ⟨url, -, rfl⟩ := List.mem_map.mp (List.mem_of_getElem? hw)
    exact Nat.le_refl 0
  · exact fun i name => Nat.zero_le 1
  · exact fun i j name hmem => absurd hmem List.not_mem_nil
  · exact fun i name hmem => absurd hmem List.not_mem_nil
  · refine ⟨fun i w hw name hposted => ?_, ?_, ?_, fun last _ => Tracks.empty last, ?_⟩
    · obtain ⟨url, -, rfl⟩ := List.mem_map.mp (List.mem_of_getElem? hw)
      cases hposted
    · exact fun i name url t through hmem => absurd hmem List.not_mem_nil
    · exact fun i j name url url' t t' hmem => absurd hmem List.not_mem_nil
    · exact fun i command t => List.not_mem_nil
  · rintro s tr op s' os hs ⟨hd, hexact⟩ horderly hexec
    have hkept := kept_of_reach hurls hs.any
    have hwhole : ∀ url ∈ worker_urls.map c_str, c_str url = url := by
      intro url hurl
      obtain ⟨url, -, rfl⟩ := List.mem_map.mp hurl
      exact c_str_c_str url
    cases exec_does hexec with
    | idle op =>
        rw [List.append_nil]
        exact ⟨hd, hexact⟩
    | evicts k now => exact ⟨hd.evicts _ k now, hexact.evicts k now⟩
    | works i op now through w w' events here own step =>
        obtain ⟨rfl, -, hfresh⟩ := horderly
        have hlists := hkept.lists w (List.mem_of_getElem? here)
        exact ⟨hd.works here (hfresh w here) (hlists.lifecycle step),
          hexact.works hd hkept hwhole here (hfresh w here) step⟩

/-- **Every room is found.** A look-up is redirected to whoever has the room, or has just
reaped it, if no six hours have passed since it was registered, and nowhere else. -/
theorem every_room_is_found {board_factory : RoomId → Board} {config : MotionFactory}
    {on_result : Bool} {disconnect_grace_ms : Int} {worker_urls : List String}
    (hurls : (worker_urls.map c_str).Nodup)
    (hrun : Reach exec Orderly
      (.new board_factory config on_result disconnect_grace_ms worker_urls) s tr)
    {i : Nat} {op : RoomManager.Op} {now : Int}
    (horderly : Orderly s tr (.worker i op now true))
    (hexec : exec s (.worker i op now true) = .ok (s', os)) {name : String}
    (hlook : .sent i (.owner_of name) now true ∈ os) (url : String) :
    .of_worker i (.redirected url) ∈ os ↔
      ∃ j w t, s.workers[j]? = some w ∧ w.self_url = url ∧ w.posted (c_str name) = true ∧
        .sent j (.register_room (c_str name) url) t true ∈ tr ∧ now < t + time_to_live := by
  have hkept := kept_of_reach hurls hrun.any
  obtain ⟨hd, hexact⟩ := exact_of_reach hurls hrun
  cases exec_does hexec with
  | idle op => exact absurd hlook List.not_mem_nil
  | works i op now through w w' events here own step =>
      have hlists := hkept.lists w (List.mem_of_getElem? here)
      obtain ⟨hcommand, -⟩ := sent_mem.mp hlook
      have htracks := hexact.tracks now horderly.2.1
      rw [of_worker_mem, redirected_iff hlists.accounted hlists.shared step,
        and_iff_right ⟨name, hcommand⟩, hcommand]
      constructor
      · intro hanswer
        obtain ⟨j, v, t, hv, hurl, hsent, hlive, hposted | ⟨k, other, t', -, hlost⟩⟩ :=
          hkept.found hanswer
        · exact ⟨j, v, t, hv, hurl, hposted, hsent, hlive⟩
        · exact absurd hlost (hexact.through k _ t')
      · rintro ⟨j, v, t, hv, rfl, hposted, hsent, hlive⟩
        obtain ⟨t', hentry, hsent'⟩ := hexact.entered j v hv _ hposted
        obtain ⟨-, rfl⟩ := hexact.unique _ _ _ _ _ _ _ hsent hsent'
        rw [key_c_str] at hentry
        refine (find_eq (hexact.tracks now horderly.2.1) (le_refl now)).trans ?_
        unfold ExpiringMap.live
        rw [hentry, Option.filter_some, if_pos (decide_eq_true hlive)]
        rfl

/-- The second worker looks the room up. -/
theorem bob_is_told : ∃ s tr s' os, run exec two_workers asks_elsewhere = .ok (s, tr) ∧
    exec s (.worker 1 (.proceed 0) 7 true) = .ok (s', os) ∧
    (.of_worker 1 (.redirected "ws://a") ∈ os ↔
      ∃ j w t, s.workers[j]? = some w ∧ w.self_url = "ws://a" ∧
        w.posted (c_str "34679A") = true ∧
        .sent j (.register_room (c_str "34679A") "ws://a") t true ∈ tr ∧ 7 < t + time_to_live) := by
  obtain ⟨⟨s, tr⟩, hrun, hnext⟩ := exists_ok_such (p := fun r =>
      decide (Orderly r.1 r.2 (.worker 1 (.proceed 0) 7 true)) &&
      (exec r.1 (.worker 1 (.proceed 0) 7 true)).toOption.any fun q =>
        FleetEvent.sent 1 (.owner_of "34679A") 7 true ∈ q.2)
    (x := run exec two_workers asks_elsewhere) (by decide)
  obtain ⟨horderly, hnext⟩ := Bool.and_eq_true_iff.mp hnext
  obtain ⟨⟨s', os⟩, hexec, hmem⟩ := exists_ok_such hnext
  exact ⟨s, tr, s', os, hrun, hexec, every_room_is_found (by decide)
    (reach_of_meets (C := Orderly) (by decide) hrun) (of_decide_eq_true horderly) hexec
    (of_decide_eq_true hmem) "ws://a"⟩

end Fleet

end KungFuChess
