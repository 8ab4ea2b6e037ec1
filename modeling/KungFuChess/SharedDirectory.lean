/-
**What the fleet has in its directory.**

What stands in the directory under a worker's address was put there by that worker,
within the last six hours, and is posted (`RoomManager.posted`), unless a command to
delete it was lost: a client that is redirected is sent to a worker that has, or has just
had, the room.
-/
import KungFuChess.Lifecycle
import Mathlib.Data.List.TakeWhile

set_option autoImplicit false

namespace KungFuChess

open Machine

namespace RoomManager

variable {d : String → Option String} {s s' : RoomManager}

/-! ## One worker -/

/-- Whether a directory is shared, and under what address, is settled at the start. -/
theorem isSome_directory_of_posts {op : Op} (h : Posts s op s') :
    s'.directory.isSome = s.directory.isSome := by
  cases h with
  | kept named directory => rw [directory]
  | created key id free named directory => rw [directory]
  | registered key id named directory => rw [directory, Option.isSome_map]
  | reaped name id live done named directory => rw [directory]
  | wrote name owner other named directory => rw [directory, Option.isSome_map]

/-- Every name is a key that was drawn. -/
theorem names_are_keys {l l' : Ledger} {owns : RoomId → PieceColor → Prop} {found : Option Int}
    {did : RoomId → List MatchEvent} (he : Effect owns found l l' did)
    (h : ∀ name id, l.named_rooms name = some id → is_room_key name = true) :
    ∀ name id, l'.named_rooms name = some id → is_room_key name = true := by
  cases he with
  | created key drawn free =>
      intro name id hname
      dsimp only at hname
      by_cases hkey : name = key
      · rw [hkey]
        exact drawn
      · rw [Function.update_of_ne hkey] at hname
        exact h name id hname
  | reaped id room live held last =>
      intro name j hname
      dsimp only at hname
      split_ifs at hname
      · exact h name j hname
      · by_cases hgone : name = room.name
        · rw [hgone, Function.update_self] at hname
          cases hname
        · rw [Function.update_of_ne hgone] at hname
          exact h name j hname
  | _ => exact h

/-- A call that is to register a room is pending. -/
theorem registering_of_command {op : Op} {name url : String}
    (h : s.command_of op = some (.register_room name url)) :
    url = s.self_url ∧ ∃ id, (name, id) ∈ s.registrations := by
  cases op with
  | proceed call =>
      obtain ⟨p, hc, hp⟩ := Option.bind_eq_some_iff.mp h
      cases p with
      | register_room key seat =>
          obtain ⟨rfl, rfl⟩ := DirectoryCommand.register_room.inj (Option.some.inj hp)
          exact ⟨rfl, seat.room, List.mem_filterMap.mpr ⟨_, List.mem_of_getElem? hc, rfl⟩⟩
      | _ => cases hp
  | _ => cases h

theorem Accounted.on_redis (h : Accounted s) (d : String → Option String) :
    Accounted (s.on_redis d) :=
  ⟨h.homes, h.counted, h.names, h.waits, h.promises, h.undos, h.owners⟩

/-- What is known of a worker whose directory says `d`. -/
structure Lists (d : String → Option String) (s : RoomManager) : Prop where
  shared : s.directory.isSome = true
  accounted : Accounted s
  keys : ∀ name id, s.named_rooms name = some id → is_room_key name = true
  registering : ∀ key id, (key, id) ∈ s.registrations → s.named_rooms key = some id
  once : s.registrations.Nodup
  posted : ∀ name, d name = some s.self_url → s.posted name = true

theorem lifecycle_on_redis {op : Op} {a : String → Option String}
    (h : Lifecycle (s.on_redis a) op s') : Lifecycle s op s' :=
  match h with
  | .kept unwritten undrawn named registrations removals =>
      .kept unwritten undrawn named registrations removals
  | .created key id unwritten drawn named registrations removals =>
      .created key id unwritten drawn named registrations removals
  | .registered key id written undrawn named registrations removals =>
      .registered key id written undrawn named registrations removals
  | .reaped name id unwritten undrawn live done named registrations removals =>
      .reaped name id unwritten undrawn live done named registrations removals
  | .forgotten name written undrawn named registrations removals =>
      .forgotten name written undrawn named registrations removals

/-- What the directory says after a step, as far as this worker's address goes: what the
step registers, or what it said before and the step does not forget. -/
def Follows (d d' : String → Option String) (s : RoomManager) (op : Op) : Prop :=
  ∀ name, d' name = some s.self_url → s.written_by op = some (.register_room name s.self_url) ∨
    d name = some s.self_url ∧ s.written_by op ≠ some (.forget_room name)

theorem isSome_on_redis (s : RoomManager) : (s.on_redis d).directory.isSome = s.directory.isSome :=
  Option.isSome_map

theorem free_of_draws {op : Op} {key : String} (h : s.draws op = some key) :
    is_room_key key = true ∧ s.named_rooms key = none := by
  cases op with
  | create_room key' username rating connection =>
      unfold draws at h
      dsimp only at h
      split_ifs at h with hdrawn
      obtain rfl := Option.some.inj h
      exact hdrawn
  | _ => cases h

theorem Lists.mono {d' : String → Option String} (h : Lists d s)
    (hle : ∀ name, d' name = some s.self_url → d name = some s.self_url) : Lists d' s :=
  ⟨h.shared, h.accounted, h.keys, h.registering, h.once,
    fun name hname => h.posted name (hle name hname)⟩

/-- The calls that are to register a room are about rooms that are here, each about its own. -/
theorem Lists.registering_step {op : Op} (h : Lists d s) (hl : Lifecycle s op s') :
    (∀ key id, (key, id) ∈ s'.registrations → s'.named_rooms key = some id) ∧
      s'.registrations.Nodup := by
  cases hl with
  | kept unwritten undrawn named registrations removals =>
      refine ⟨fun key id hmem => ?_, registrations.nodup_iff.mpr h.once⟩
      rw [named]
      exact h.registering key id (registrations.mem_iff.mp hmem)
  | created key id unwritten drawn named registrations removals =>
      have hfree : ∀ j, (key, j) ∉ s.registrations := by
        intro j hj
        have hnone := (free_of_draws drawn).2
        rw [h.registering key j hj] at hnone
        cases hnone
      rw [registrations, named]
      refine ⟨fun k j hmem => ?_, List.nodup_append.mpr ⟨h.once, List.nodup_singleton _, ?_⟩⟩
      · rcases List.mem_append.mp hmem with hbefore | hnew
        · have hk : k ≠ key := by
            rintro rfl
            exact hfree j hbefore
          rw [Function.update_of_ne hk]
          exact h.registering k j hbefore
        · obtain ⟨rfl, rfl⟩ := Prod.mk.inj (List.mem_singleton.mp hnew)
          exact Function.update_self ..
      · rintro entry hentry _ hnew rfl
        rw [List.mem_singleton.mp hnew] at hentry
        exact hfree id hentry
  | registered key id written undrawn named registrations removals =>
      refine ⟨fun k j hmem => ?_, (List.nodup_cons.mp (registrations.nodup_iff.mpr h.once)).2⟩
      rw [named]
      exact h.registering k j (registrations.mem_iff.mp (List.mem_cons_of_mem _ hmem))
  | reaped name id unwritten undrawn live done named registrations removals =>
      refine ⟨fun k j hmem => ?_, registrations.nodup_iff.mpr h.once⟩
      have hbefore := registrations.mem_iff.mp hmem
      have hj := h.registering k j hbefore
      have hk : k ≠ name := by
        rintro rfl
        obtain rfl := Option.some.inj (live.symm.trans hj)
        exact done hbefore
      rw [named, Function.update_of_ne hk]
      exact hj
  | forgotten name written undrawn named registrations removals =>
      refine ⟨fun key id hmem => ?_, registrations.nodup_iff.mpr h.once⟩
      rw [named]
      exact h.registering key id (registrations.mem_iff.mp hmem)

/-- What is posted stays so until it is forgotten; what is registered is posted. -/
theorem Lists.posted_step {op : Op} {name : String} (h : Lists d s) (hl : Lifecycle s op s')
    (hname : s.written_by op = some (.register_room name s.self_url) ∨
      s.posted name = true ∧ s.written_by op ≠ some (.forget_room name)) :
    s'.posted name = true := by
  cases hl with
  | kept unwritten undrawn named registrations removals =>
      rcases hname with hset | ⟨hposted, -⟩
      · rw [unwritten] at hset
        cases hset
      · exact posted_mono (congrFun named name) (fun id hmem => registrations.mem_iff.mp hmem)
          (fun hmem => removals.mem_iff.mpr hmem) hposted
  | created key id unwritten drawn named registrations removals =>
      rcases hname with hset | ⟨hposted, -⟩
      · rw [unwritten] at hset
        cases hset
      · by_cases hkey : name = key
        · -- no room had the key, so the one that was registered is to be forgotten
          rw [hkey, posted_iff] at hposted ⊢
          rcases hposted with ⟨j, hj, -⟩ | hforget
          · rw [(free_of_draws drawn).2] at hj
            cases hj
          · exact .inr (removals.mem_iff.mpr hforget)
        · refine posted_mono ?_ ?_ (fun hmem => removals.mem_iff.mpr hmem) hposted
          · rw [named, Function.update_of_ne hkey]
          · intro j hj
            rw [registrations, List.mem_append, List.mem_singleton] at hj
            exact hj.resolve_right fun hnew => hkey (Prod.mk.inj hnew).1
  | registered key id written undrawn named registrations removals =>
      have hmem : (key, id) ∈ s.registrations := registrations.mem_iff.mp List.mem_cons_self
      have hdone := (List.nodup_cons.mp (registrations.nodup_iff.mpr h.once)).1
      by_cases hkey : name = key
      · rw [hkey, posted_iff]
        refine .inl ⟨id, ?_, hdone⟩
        rw [named]
        exact h.registering key id hmem
      · rcases hname with hset | ⟨hposted, -⟩
        · rw [written] at hset
          exact absurd (DirectoryCommand.register_room.inj (Option.some.inj hset)).1.symm hkey
        · exact posted_mono (congrFun named name)
            (fun j hj => registrations.mem_iff.mp (List.mem_cons_of_mem _ hj))
            (fun hmem => removals.mem_iff.mpr hmem) hposted
  | reaped gone id unwritten undrawn live done named registrations removals =>
      rcases hname with hset | ⟨hposted, -⟩
      · rw [unwritten] at hset
        cases hset
      · by_cases hgone : name = gone
        · rw [hgone, posted_iff]
          exact .inr (removals.mem_iff.mpr List.mem_cons_self)
        · refine posted_mono ?_ (fun id hmem => registrations.mem_iff.mp hmem)
            (fun hmem => removals.mem_iff.mpr (List.mem_cons_of_mem _ hmem)) hposted
          rw [named, Function.update_of_ne hgone]
  | forgotten gone written undrawn named registrations removals =>
      rcases hname with hset | ⟨hposted, hkept⟩
      · rw [written] at hset
        cases hset
      · refine posted_mono (congrFun named name) (fun id hmem => registrations.mem_iff.mp hmem)
          (fun hmem => ?_) hposted
        have hbefore := removals.mem_iff.mpr hmem
        split_ifs at hbefore
        · exact hbefore
        · refine (List.mem_cons.mp hbefore).resolve_left ?_
          rintro rfl
          exact hkept written

theorem Lists.lifecycle {op : Op} {os : List RoomEvent} {answer : Option String} (h : Lists d s)
    (hexec : exec (s.on_redis fun _ => answer) op = .ok (s', os)) : Lifecycle s op s' :=
  lifecycle_on_redis
    (exec_lifecycle (h.accounted.on_redis _) ((isSome_on_redis s).trans h.shared) hexec)

/-- **The step lemma.** Whatever a look-up was answered, a step keeps what is known. -/
theorem Lists.step {op : Op} {os : List RoomEvent} {answer : Option String}
    {d' : String → Option String} (h : Lists d s) (hd : Follows d d' s op)
    (hexec : exec (s.on_redis fun _ => answer) op = .ok (s', os)) :
    s'.self_url = s.self_url ∧ Lists d' s' := by
  have hacc := h.accounted.on_redis fun _ => answer
  have hnotices := exec_notices hacc hexec
  have hurl : s'.self_url = s.self_url := hnotices.url
  have hshared : s'.directory.isSome = true := by
    have hsome := isSome_directory_of_posts hnotices.posts
    rw [isSome_on_redis] at hsome
    exact hsome.trans h.shared
  have hlifecycle := h.lifecycle hexec
  obtain ⟨hregistering, honce⟩ := h.registering_step hlifecycle
  refine ⟨hurl, hshared, hacc.exec hexec, names_are_keys (hacc.effect hexec) h.keys, hregistering,
    honce, fun name hname => ?_⟩
  rw [hurl] at hname
  exact h.posted_step hlifecycle ((hd name hname).imp_right (.imp_left (h.posted name)))

/-- A name is looked up with a command. -/
theorem command_of_looked_up {op : Op} {name : String} (h : s.looked_up op = some name) :
    s.command_of op = some (.owner_of name) := by
  cases op with
  | proceed call =>
      obtain ⟨p, hc, hp⟩ := Option.bind_eq_some_iff.mp h
      cases p with
      | owner_of name' =>
          obtain rfl := Option.some.inj hp
          exact Option.bind_eq_some_iff.mpr ⟨_, hc, rfl⟩
      | _ => cases hp
  | _ => cases h

end RoomManager

namespace Fleet

open ExpiringMap RedisRoomDirectory

/-! ## Strings and keys -/

theorem c_str_c_str (s : String) : c_str (c_str s) = c_str s := by
  unfold c_str
  rw [String.toList_ofList, List.takeWhile_idem]

theorem key_c_str (name : String) : key (c_str name) = key name := by
  unfold key
  rw [c_str_c_str]

theorem key_inj {a b : String} : key a = key b ↔ c_str a = c_str b := by
  unfold key
  constructor
  · intro h
    have hlists := congrArg String.toList h
    rw [String.toList_append, String.toList_append] at hlists
    exact String.toList_inj.mp (List.append_cancel_left hlists)
  · intro h
    rw [h]

/-- A key that is drawn is passed on whole. -/
theorem c_str_room_key {name : String} (h : RoomManager.is_room_key name = true) :
    c_str name = name := by
  unfold RoomManager.is_room_key at h
  obtain ⟨-, hall⟩ := Bool.and_eq_true_iff.mp h
  unfold c_str
  rw [List.takeWhile_eq_self_iff.mpr]
  · exact String.ofList_toList
  · intro c hc
    have hmem := of_decide_eq_true (List.all_eq_true.mp hall c hc)
    refine decide_eq_true ?_
    rintro rfl
    exact absurd hmem (by decide)

/-! ## What the commands make of the directory -/

/-- An entry is taken out with the command to delete it, whether it gets through or not. -/
def note (entries : Redis) : FleetEvent → Redis
  | .sent _ (.register_room room_name worker_url) now true =>
      put entries (key room_name) (c_str worker_url) (now + time_to_live)
  | .sent _ (.forget_room room_name) _ _ => drop entries (key room_name)
  | _ => entries

/-- What was set and not deleted since. -/
def entries (tr : List FleetEvent) : Redis := tr.foldl note empty

/-- The room that is entered under a name, with the address. -/
def listing (tr : List FleetEvent) (name : String) : Option String :=
  if c_str name = name then (entries tr (key name)).map Entry.value else none

/-- A command to delete the entry did not get through. -/
def Lost (tr : List FleetEvent) (k : String) : Prop :=
  ∃ worker name now, k = key name ∧ .sent worker (.forget_room name) now false ∈ tr

theorem Lost.mono {tr : List FleetEvent} {k : String} (h : Lost tr k) (os : List FleetEvent) :
    Lost (tr ++ os) k := by
  obtain ⟨worker, name, now, hk, hmem⟩ := h
  exact ⟨worker, name, now, hk, List.mem_append_left os hmem⟩

theorem entries_append (tr os : List FleetEvent) :
    entries (tr ++ os) = os.foldl note (entries tr) := List.foldl_append

/-- What a step says of its worker is what the worker does. -/
theorem of_worker_mem {i : Nat} {w : RoomManager} {op : RoomManager.Op} {now : Int} {through : Bool}
    {events : List RoomEvent} {event : RoomEvent} :
    .of_worker i event ∈ said i w op now through events ↔ event ∈ events := by
  unfold said
  simp

theorem sent_mem {i j : Nat} {w : RoomManager} {op : RoomManager.Op} {now t : Int}
    {through sent : Bool} {events : List RoomEvent} {command : DirectoryCommand} :
    .sent j command t sent ∈ said i w op now through events ↔
      w.command_of op = some command ∧ i = j ∧ now = t ∧ through = sent := by
  unfold said
  simp

theorem drew_mem {i j : Nat} {w : RoomManager} {op : RoomManager.Op} {now : Int} {through : Bool}
    {events : List RoomEvent} {name : String} :
    .drew j name ∈ said i w op now through events ↔ w.draws op = some name ∧ i = j := by
  unfold said
  simp

/-- What a step makes of the entries. -/
theorem entries_said (tr : List FleetEvent) (i : Nat) (w : RoomManager) (op : RoomManager.Op)
    (now : Int) (through : Bool) (os : List RoomEvent) :
    entries (tr ++ said i w op now through os) = (w.command_of op).elim (entries tr)
      fun command => note (entries tr) (.sent i command now through) := by
  have hsilent : ∀ (t : Redis) (es : List FleetEvent), (∀ e ∈ es, ∀ u, note u e = u) →
      es.foldl note t = t := by
    intro t es hes
    induction es generalizing t with
    | nil => rfl
    | cons e es ih =>
        rw [List.foldl_cons, hes e List.mem_cons_self]
        exact ih t fun e' he' => hes e' (List.mem_cons_of_mem e he')
  have hdrew : ∀ t, ((w.draws op).toList.map (.drew i)).foldl note t = t := by
    intro t
    refine hsilent t _ fun e he u => ?_
    obtain ⟨key, -, rfl⟩ := List.mem_map.mp he
    rfl
  have hown : ∀ t, (os.map (.of_worker i)).foldl note t = t := by
    intro t
    refine hsilent t _ fun e he u => ?_
    obtain ⟨event, -, rfl⟩ := List.mem_map.mp he
    rfl
  rw [entries_append, said, List.foldl_append, List.foldl_append, hdrew, hown]
  cases w.command_of op <;> rfl

/-! ## One step -/

/-- What holds of a fleet with these addresses, whatever is lost on the way. -/
structure Kept (urls : List String) (s : Fleet) (tr : List FleetEvent) : Prop where
  addresses : s.workers.map RoomManager.self_url = urls
  /-- What is entered under a worker's address is posted there. -/
  lists : ∀ w ∈ s.workers, w.Lists (listing tr)
  listed : ∀ k e, s.redis k = some e → entries tr k = some e ∨ Lost tr k
  /-- What is in Redis a worker has set. -/
  written : ∀ k e, s.redis k = some e → ∃ i url name now, urls[i]? = some url ∧
    k = key name ∧ c_str name = name ∧ e = ⟨url, now + time_to_live⟩ ∧
    .sent i (.register_room name url) now true ∈ tr

variable {urls : List String} {s s' : Fleet} {tr os : List FleetEvent} {op : Op}

/-- The address that is entered under a name after a step: what the step set, or what was
there. -/
theorem listing_said {i : Nat} {w : RoomManager} {op : RoomManager.Op} {now : Int} {through : Bool}
    {events : List RoomEvent} {name url : String}
    (h : listing (tr ++ said i w op now through events) name = some url) :
    c_str name = name ∧
    ((∃ room_name, w.command_of op = some (.register_room room_name w.self_url) ∧
        c_str room_name = name ∧ url = c_str w.self_url) ∨
      listing tr name = some url ∧ ∀ room_name, w.command_of op = some (.forget_room room_name) →
        c_str room_name ≠ name) := by
  unfold listing at h
  split_ifs at h with hname
  rw [entries_said] at h
  refine ⟨hname, ?_⟩
  have hkept : (entries tr (key name)).map Entry.value = some url → listing tr name = some url := by
    intro hentry
    rw [listing, if_pos hname]
    exact hentry
  cases hcommand : w.command_of op with
  | none =>
      rw [hcommand] at h
      exact .inr ⟨hkept h, nofun⟩
  | some command =>
      rw [hcommand] at h
      cases command with
      | owner_of room_name => exact .inr ⟨hkept h, nofun⟩
      | forget_room room_name =>
          obtain ⟨e, he, hvalue⟩ := Option.map_eq_some_iff.mp h
          obtain ⟨hne, he⟩ := drop_eq_some.mp he
          refine .inr ⟨hkept (by rw [he, Option.map_some, hvalue]), ?_⟩
          rintro room_name' hsame rfl
          obtain rfl := DirectoryCommand.forget_room.inj (Option.some.inj hsame)
          exact hne (key_c_str room_name)
      | register_room room_name worker_url =>
          obtain ⟨rfl, -⟩ := RoomManager.registering_of_command hcommand
          cases through with
          | false => exact .inr ⟨hkept h, nofun⟩
          | true =>
              by_cases hkey : key name = key room_name
              · have hput : note (entries tr)
                    (.sent i (.register_room room_name w.self_url) now true) (key name)
                      = some ⟨c_str w.self_url, now + time_to_live⟩ := by
                  rw [hkey]
                  exact put_same ..
                rw [Option.elim_some, hput] at h
                refine .inl ⟨room_name, rfl, ?_, (Option.some.inj h).symm⟩
                rw [← key_inj.mp hkey, hname]
              · have hput : note (entries tr)
                    (.sent i (.register_room room_name w.self_url) now true) (key name)
                      = entries tr (key name) := put_other _ hkey _ _
                rw [Option.elim_some, hput] at h
                exact .inr ⟨hkept h, nofun⟩

/-- The worker's own step: what bears its address it has registered, or not forgotten. -/
theorem follows_said {w : RoomManager} {op : RoomManager.Op} (h : w.Lists (listing tr)) (i : Nat)
    (now : Int) (through : Bool) (events : List RoomEvent) :
    w.Follows (listing tr) (listing (tr ++ said i w op now through events)) op := by
  intro name hname
  obtain ⟨hcname, ⟨room_name, hcommand, hroom, -⟩ | ⟨hbefore, hforget⟩⟩ := listing_said hname
  · -- a key that was drawn is passed on whole
    obtain ⟨-, id, hregister⟩ := RoomManager.registering_of_command hcommand
    have hkey := h.keys _ _ (h.registering room_name id hregister)
    rw [c_str_room_key hkey] at hroom
    refine .inl ?_
    rw [RoomManager.written_by, hcommand, hroom]
    rfl
  · refine .inr ⟨hbefore, fun hwritten => ?_⟩
    exact hforget name (Option.mem_filter_iff.mp hwritten).1 hcname

/-- What a step leaves in Redis was there, or the step has set it. -/
theorem of_after_command {redis : Redis} {now : Int} {through : Bool}
    {command : Option DirectoryCommand} {k : String} {e : Entry String Int}
    (h : (after_command redis now through command).1 k = some e) :
    redis k = some e ∨ through = true ∧ ∃ name url, command = some (.register_room name url) ∧
      k = key name ∧ e = ⟨c_str url, now + time_to_live⟩ := by
  cases command with
  | none => exact .inl h
  | some command =>
      cases through with
      | false => exact .inl h
      | true =>
          cases command with
          | owner_of name => exact .inl (of_find h)
          | forget_room name => exact .inl (drop_eq_some.mp h).2
          | register_room name url =>
              by_cases hk : k = key name
              · subst hk
                exact .inr ⟨rfl, name, url, rfl, rfl, Option.some.inj (h.symm.trans (put_same ..))⟩
              · exact .inl ((put_other _ hk _ _).symm.trans h)

/-- What is in Redis is entered, but for what a lost command has left. -/
theorem listed_step (hlisted : ∀ k e, s.redis k = some e → entries tr k = some e ∨ Lost tr k)
    {i : Nat} {w : RoomManager} {op : RoomManager.Op} {now : Int} {through : Bool}
    {events : List RoomEvent} {k : String} {e : Entry String Int}
    (h : (after_command s.redis now through (w.command_of op)).1 k = some e) :
    entries (tr ++ said i w op now through events) k = some e ∨
      Lost (tr ++ said i w op now through events) k := by
  rw [entries_said]
  have hold : s.redis k = some e → entries tr k = some e ∨
      Lost (tr ++ said i w op now through events) k :=
    fun hk => (hlisted k e hk).imp_right fun hlost => hlost.mono _
  cases hcommand : w.command_of op with
  | none =>
      rw [hcommand] at h
      exact hold h
  | some command =>
      rw [hcommand] at h
      cases command with
      | owner_of name =>
          cases through with
          | false => exact hold h
          | true => exact hold (of_find h)
      | register_room name url =>
          cases through with
          | false => exact hold h
          | true =>
              by_cases hk : k = key name
              · subst hk
                exact .inl ((put_same ..).trans ((put_same ..).symm.trans h))
              · exact (hold ((put_other _ hk _ _).symm.trans h)).imp_left fun hentry =>
                  (put_other _ hk _ _).trans hentry
      | forget_room name =>
          by_cases hk : k = key name
          · cases through with
            | true => exact absurd hk (drop_eq_some.mp h).1
            | false =>
                exact .inr ⟨i, name, now, hk,
                  List.mem_append_right _ (sent_mem.mpr ⟨hcommand, rfl, rfl, rfl⟩)⟩
          · have hredis : s.redis k = some e := by
              cases through with
              | true => exact (drop_eq_some.mp h).2
              | false => exact h
            exact (hold hredis).imp_left fun hentry => drop_eq_some.mpr ⟨hk, hentry⟩

theorem Kept.address (h : Kept urls s tr) {i : Nat} {w : RoomManager}
    (here : s.workers[i]? = some w) : urls[i]? = some w.self_url := by
  rw [← h.addresses, List.getElem?_map, here]
  rfl

theorem Kept.address_mem (h : Kept urls s tr) {i : Nat} {w : RoomManager}
    (here : s.workers[i]? = some w) : w.self_url ∈ urls :=
  List.mem_of_getElem? (h.address here)

/-- **The step lemma** of the fleet. -/
theorem Kept.step (h : Kept urls s tr) (hnodup : urls.Nodup) (hurls : ∀ url ∈ urls, c_str url = url)
    (hdoes : Does s op s' os) : Kept urls s' (tr ++ os) := by
  cases hdoes with
  | idle op =>
      rw [List.append_nil]
      exact h
  | evicts k now =>
      have hentries : entries (tr ++ [.evicted k now]) = entries tr := entries_append tr _
      refine ⟨h.addresses, fun w hw => ?_, fun k' e he => ?_, fun k' e he => ?_⟩
      · refine (h.lists w hw).mono fun name hname => ?_
        unfold listing at hname ⊢
        rwa [hentries] at hname
      · rw [hentries]
        exact (h.listed k' e (of_find he)).imp_right (·.mono _)
      · obtain ⟨i, url, name, t, hi, hk, hname, he, hsent⟩ := h.written k' e (of_find he)
        exact ⟨i, url, name, t, hi, hk, hname, he, List.mem_append_left _ hsent⟩
  | works i op now through w w' events here own step =>
      have hmem := List.mem_of_getElem? here
      have hlists := h.lists w hmem
      obtain ⟨hurl, hlists'⟩ := hlists.step (follows_said hlists i now through events) step
      have hcurl : c_str w.self_url = w.self_url := hurls _ (h.address_mem here)
      refine ⟨?_, ?_, fun k e he => listed_step h.listed he, ?_⟩
      · obtain ⟨hi, hw⟩ := List.getElem?_eq_some_iff.mp here
        have hset : (s.workers.map RoomManager.self_url).set i w.self_url
            = s.workers.map RoomManager.self_url := by
          rw [← hw, ← List.map_set, List.set_getElem_self]
        rw [List.map_set, hurl, hset]
        exact h.addresses
      · intro v hv
        obtain ⟨j, hj⟩ := List.getElem?_of_mem hv
        dsimp only at hj
        rw [List.getElem?_set] at hj
        split_ifs at hj with hij hlt
        · obtain rfl := Option.some.inj hj
          exact hlists'
        · -- another worker: what is set bears another address
          have hne : v.self_url ≠ w.self_url := by
            intro hsame
            have hj' := h.address hj
            rw [hsame, ← h.address here] at hj'
            have hlt := (List.getElem?_eq_some_iff.mp (h.address here)).1
            exact hij ((List.getElem?_inj hlt hnodup).mp hj'.symm)
          refine (h.lists v (List.mem_of_getElem? hj)).mono fun name hname => ?_
          obtain ⟨-, ⟨room_name, -, -, hset⟩ | ⟨hbefore, -⟩⟩ := listing_said hname
          · exact absurd (hset.trans hcurl) hne
          · exact hbefore
      · intro k e he
        rcases of_after_command he with hbefore | ⟨rfl, name, url, hcommand, hk, rfl⟩
        · obtain ⟨j, url, name, t, hj, hk, hname, he, hsent⟩ := h.written k e hbefore
          exact ⟨j, url, name, t, hj, hk, hname, he, List.mem_append_left _ hsent⟩
        · obtain ⟨rfl, id, hregister⟩ := RoomManager.registering_of_command hcommand
          have hkey := hlists.keys _ _ (hlists.registering name id hregister)
          refine ⟨i, w.self_url, name, now, h.address here, hk, c_str_room_key hkey, ?_, ?_⟩
          · rw [hcurl]
          · exact List.mem_append_right _ (sent_mem.mpr ⟨hcommand, rfl, rfl, rfl⟩)

/-! ## Whole runs -/

theorem kept_of_reach {board_factory : RoomId → Board} {config : MotionFactory} {on_result : Bool}
    {disconnect_grace_ms : Int} {worker_urls : List String}
    (hurls : (worker_urls.map c_str).Nodup)
    (hrun : Reach exec anyStep
      (.new board_factory config on_result disconnect_grace_ms worker_urls) s tr) :
    Kept (worker_urls.map c_str) s tr := by
  refine hrun.invariant (P := fun s tr => Kept (worker_urls.map c_str) s tr) ⟨?_, ?_, ?_, ?_⟩ ?_
  · unfold new
    rw [List.map_map]
    rfl
  · intro w hw
    obtain ⟨url, -, rfl⟩ := List.mem_map.mp hw
    refine ⟨rfl, RoomManager.accounted_new .., nofun, nofun, List.nodup_nil, ?_⟩
    intro name hname
    have hnone : listing [] name = none := by
      unfold listing
      split_ifs <;> rfl
    exact absurd (hnone.symm.trans hname) nofun
  · exact fun k e he => nomatch he
  · exact fun k e he => nomatch he
  · intro s tr op s' os _ hkept _ hexec
    refine hkept.step hurls ?_ (exec_does hexec)
    intro url hurl
    obtain ⟨url, -, rfl⟩ := List.mem_map.mp hurl
    exact c_str_c_str url

/-- What a look-up is answered, the client is told. -/
theorem redirected_iff {w w' : RoomManager} {op : RoomManager.Op} {answer : Option String}
    {events : List RoomEvent} (hacc : RoomManager.Accounted w) (hshared : w.directory.isSome)
    (step : RoomManager.exec (w.on_redis fun _ => answer) op = .ok (w', events)) (url : String) :
    .redirected url ∈ events ↔
      (∃ name, w.command_of op = some (.owner_of name)) ∧ answer = some url := by
  obtain ⟨d₀, hd₀⟩ := Option.isSome_iff_exists.mp hshared
  have hdirectory : (w.on_redis fun _ => answer).directory = some fun _ => answer := by
    unfold RoomManager.on_redis
    rw [hd₀]
    rfl
  constructor
  · intro hmem
    obtain ⟨name, hname, d, hd, howner⟩ :=
      (RoomManager.exec_notices (hacc.on_redis _) step).answer url hmem
    obtain rfl := Option.some.inj (hdirectory.symm.trans hd)
    exact ⟨⟨name, RoomManager.command_of_looked_up hname⟩, howner⟩
  · rintro ⟨⟨name, hcommand⟩, rfl⟩
    cases op with
    | proceed call =>
        obtain ⟨p, hc, hp⟩ := Option.bind_eq_some_iff.mp hcommand
        cases p with
        | owner_of name' =>
            rw [RoomManager.exec, show (w.on_redis _).calls = w.calls from rfl, hc] at step
            dsimp only at step
            rw [RoomManager.resume] at step
            dsimp only at step
            rw [hdirectory] at step
            obtain ⟨-, rfl⟩ := Prod.mk.inj (Except.ok.inj step)
            exact List.mem_singleton_self _
        | _ => cases hp
    | _ => cases hcommand

/-- What Redis answers a worker has entered, and has posted if no command was lost. -/
theorem Kept.found (h : Kept urls s tr) {name url : String} {now : Int}
    (hanswer : (find s.redis (key name) now).2 = some url) :
    ∃ j w t, s.workers[j]? = some w ∧ w.self_url = url ∧
      .sent j (.register_room (c_str name) url) t true ∈ tr ∧ now < t + time_to_live ∧
      (w.posted (c_str name) = true ∨ Lost tr (key name)) := by
  obtain ⟨e, hentry, rfl, hlive⟩ := find_some (Tracks.refl s.redis now) hanswer
  obtain ⟨j, url, written, t, hj, hkey, hwritten, rfl, hsent⟩ := h.written _ e hentry
  have hname : c_str name = written := (key_inj.mp hkey).trans hwritten
  rw [← h.addresses, List.getElem?_map] at hj
  obtain ⟨w, hw, rfl⟩ := Option.map_eq_some_iff.mp hj
  refine ⟨j, w, t, hw, rfl, hname ▸ hsent, hlive, ?_⟩
  refine (h.listed _ _ hentry).imp_left fun hlisted => ?_
  refine (h.lists w (List.mem_of_getElem? hw)).posted _ ?_
  unfold listing
  rw [if_pos (c_str_c_str name), key_c_str, hlisted]
  rfl

/-- **Redirected to the room.** A client is redirected to a worker that has entered the name
within the last six hours, and has the room now, or has reaped it and not yet deleted the
entry, or has lost the command that deletes it. -/
theorem redirected_to_the_room {board_factory : RoomId → Board} {config : MotionFactory}
    {on_result : Bool} {disconnect_grace_ms : Int} {worker_urls : List String}
    (hurls : (worker_urls.map c_str).Nodup)
    (hrun : Reach exec anyStep
      (.new board_factory config on_result disconnect_grace_ms worker_urls) s tr)
    {i : Nat} {op : RoomManager.Op} {now : Int} {through : Bool} {url : String}
    (hexec : exec s (.worker i op now through) = .ok (s', os))
    (hredirect : .of_worker i (.redirected url) ∈ os) :
    ∃ name, .sent i (.owner_of name) now true ∈ os ∧ ∃ j w t,
      s.workers[j]? = some w ∧ w.self_url = url ∧
      .sent j (.register_room (c_str name) url) t true ∈ tr ∧ now < t + time_to_live ∧
      (w.posted (c_str name) = true ∨ Lost tr (key name)) := by
  have hkept := kept_of_reach hurls hrun
  cases exec_does hexec with
  | idle op => cases hredirect
  | works i op now through w w' events here own step =>
      have hlists := hkept.lists w (List.mem_of_getElem? here)
      obtain ⟨⟨name, hcommand⟩, hanswer⟩ := (redirected_iff hlists.accounted hlists.shared step
        url).mp (of_worker_mem.mp hredirect)
      rw [hcommand] at hanswer
      cases through with
      | false => cases hanswer
      | true =>
          obtain ⟨j, v, t, hv, hurl, hsent, hlive, hposted⟩ := hkept.found hanswer
          exact ⟨name, sent_mem.mpr ⟨hcommand, rfl, rfl, rfl⟩, j, v, t, hv, hurl, hsent, hlive,
            hposted⟩

/-- Two workers. A room is created on the first, and a client asks the second for it. -/
def two_workers : Fleet :=
  new (fun _ => three_on_a_row) shipped_factory true 20000 ["ws://a", "ws://b"]

def asks_elsewhere : List Op :=
  [.worker 0 (.create_room "34679A" "alice" 1200 ⟨1⟩) 0 true, .worker 0 (.proceed 0) 0 true,
    .worker 0 (.proceed 0) 5 true, .worker 1 (.join_room "34679A" "bob" 1200 ⟨2⟩) 6 true]

/-- She is sent to the first. -/
theorem redirected_to_the_first : ∃ s tr s' os, run exec two_workers asks_elsewhere = .ok (s, tr) ∧
    exec s (.worker 1 (.proceed 0) 7 true) = .ok (s', os) ∧
    .of_worker 1 (.redirected "ws://a") ∈ os ∧
    ∃ name, .sent 1 (.owner_of name) 7 true ∈ os ∧ ∃ j w t,
      s.workers[j]? = some w ∧ w.self_url = "ws://a" ∧
      .sent j (.register_room (c_str name) "ws://a") t true ∈ tr ∧ 7 < t + time_to_live ∧
      (w.posted (c_str name) = true ∨ Lost tr (key name)) := by
  obtain ⟨⟨s, tr⟩, hrun, hnext⟩ := exists_ok_such (p := fun r =>
      (exec r.1 (.worker 1 (.proceed 0) 7 true)).toOption.any fun q =>
        FleetEvent.of_worker 1 (.redirected "ws://a") ∈ q.2)
    (x := run exec two_workers asks_elsewhere) (by decide)
  obtain ⟨⟨s', os⟩, hexec, hmem⟩ := exists_ok_such hnext
  have hredirect := of_decide_eq_true hmem
  exact ⟨s, tr, s', os, hrun, hexec, hredirect,
    redirected_to_the_room (by decide) (reach_of_run hrun) hexec hredirect⟩

end Fleet

end KungFuChess
