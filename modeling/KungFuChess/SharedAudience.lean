/-
The audience as it is in memory: `kfc/server/match_audience.hpp`.

The watchers are a list of nodes that several versions of the roster share: `watch`
makes one node, and `unwatch` makes the nodes before the one it takes out again and
keeps the rest. A version lives as long as somebody holds it; `roster_` is one holder,
and a reader that has asked for it is another, under the number of its request. What a
version held is dropped with it, by the loop of `~WatcherNode`.

`MatchAudience` has the list as a value. It is what the memory means (`Represents`), the
calls keep the two in step (`exec_represents`), and so what its counters say holds of
the memory. What only the memory can tell is that a version that is still held does not
change (`Represents.publish`).
-/
import KungFuChess.AudienceCounts
import KungFuChess.Machine
import KungFuChess.SharedList

set_option autoImplicit false

namespace KungFuChess

open Machine (Reach logged logged_ok_iff emitted)
open SharedList (Heap Reads)

/-- A `Roster`, with the head of its list. -/
structure SharedRoster where
  white_send : Option Connection := none
  black_send : Option Connection := none
  white_close : Option Connection := none
  black_close : Option Connection := none
  white_username : String := ""
  black_username : String := ""
  white_rating : Int := 0
  black_rating : Int := 0
  watchers : Option Nat := none
  watcher_count : Nat := 0
deriving DecidableEq, Repr

/-- What is seen of it, with its list read. -/
def SharedRoster.seen (r : SharedRoster) (watchers : List Watcher) : Roster :=
  ⟨r.white_send, r.black_send, r.white_close, r.black_close, r.white_username, r.black_username,
    r.white_rating, r.black_rating, watchers, r.watcher_count⟩

structure SharedAudience where
  heap : Heap Watcher := {}
  seats_filled : Nat := 0
  roster : SharedRoster := {}
  next_watcher_id : WatcherId := 1
  /-- The versions that readers hold, each under the number of its request. -/
  held : List (Nat × SharedRoster) := []
  requests : Nat := 0

/-- A pointer to a node that is not there. -/
inductive HeapFault
  | dangling
deriving DecidableEq, Repr

/-- What brings a connection to a match. -/
inductive Attachment
  | seat (color : PieceColor)
  | watcher (id : WatcherId)
deriving DecidableEq, Repr

namespace SharedAudience

open MatchAudience (kMaxSpectators)

/-- The lists that are held. -/
def roots (s : SharedAudience) : List (Option Nat) :=
  s.roster.watchers :: s.held.map fun version => version.2.watchers

/-- A walk is never longer. -/
def fuel (s : SharedAudience) : Nat := s.heap.size + 1

/-- What is seen of a version. -/
def look (s : SharedAudience) (r : SharedRoster) : Except HeapFault Roster :=
  match SharedList.read s.heap s.fuel r.watchers with
  | none => .error .dangling
  | some watchers => .ok (r.seen watchers)

/-- What nothing holds any more is freed, from a head that was held. -/
def release (s : SharedAudience) (head : Option Nat) : SharedAudience :=
  { s with heap := SharedList.unlink s.roots s.fuel s.heap head }

/-- `roster_ = std::move(next)`. -/
def publish (s : SharedAudience) (next : SharedRoster) : SharedAudience :=
  { s with roster := next }.release s.roster.watchers

def seat (s : SharedAudience) (username : String) (rating : Int) (send close : Connection) :
    SharedAudience × Option PieceColor :=
  if s.roster.white_send.isNone then
    ({ s with seats_filled := s.seats_filled + 1 }.publish { s.roster with
      white_send := some send
      white_close := some close
      white_username := username
      white_rating := rating }, some .White)
  else if s.roster.black_send.isNone then
    ({ s with seats_filled := s.seats_filled + 1 }.publish { s.roster with
      black_send := some send
      black_close := some close
      black_username := username
      black_rating := rating }, some .Black)
  else
    (s, none)

def watch (s : SharedAudience) (send close : Connection) : SharedAudience × WatcherId :=
  if kMaxSpectators ≤ s.roster.watcher_count then
    (s, 0)
  else
    let id := s.next_watcher_id
    let (heap, node) := SharedList.cons s.heap ⟨id, send, close⟩ s.roster.watchers
    ({ s with heap, next_watcher_id := s.next_watcher_id + 1 }.publish { s.roster with
      watchers := node
      watcher_count := s.roster.watcher_count + 1 }, id)

def unwatch (s : SharedAudience) (id : WatcherId) : Except HeapFault SharedAudience :=
  match SharedList.search s.heap (fun watcher => watcher.id = id) s.fuel s.roster.watchers with
  | none => .error .dangling
  | some none => .ok s
  | some (some (before, after)) =>
      let (heap, rebuilt) := SharedList.prepend s.heap before after
      .ok ({ s with heap }.publish { s.roster with
        watchers := rebuilt
        watcher_count := s.roster.watcher_count - 1 })

def reseat (s : SharedAudience) (color : PieceColor) (send close : Connection) : SharedAudience :=
  match color with
  | .White => s.publish { s.roster with white_send := some send, white_close := some close }
  | .Black => s.publish { s.roster with black_send := some send, black_close := some close }

def both_seats_taken (s : SharedAudience) : Bool := s.seats_filled = 2

/-- Each call of a `send`, with what brought it there. -/
def sends (r : Roster) : List (Attachment × Connection) :=
  r.white_send.toList.map (.seat .White, ·) ++ r.black_send.toList.map (.seat .Black, ·) ++
    r.watchers.map fun watcher => (.watcher watcher.id, watcher.send)

/-! ## Calls and readers -/

inductive Op
  | seat (username : String) (rating : Int) (send close : Connection)
  | watch (send close : Connection)
  | unwatch (id : WatcherId)
  | reseat (color : PieceColor) (send close : Connection)
  | broadcast
  /-- A reader asks for `current()`. -/
  | obtain
  /-- A reader drops the version it holds under this number. -/
  | let_go (request : Nat)
deriving DecidableEq, Repr

inductive Output
  | seated (color : Option PieceColor)
  | watching (id : WatcherId)
  | sent (calls : List (Attachment × Connection))
  | obtained (request : Nat) (seen : Roster)
deriving DecidableEq, Repr

def exec (s : SharedAudience) : Op → Except HeapFault (SharedAudience × List Output)
  | .seat username rating send close =>
      let (s, color) := s.seat username rating send close
      .ok (s, [.seated color])
  | .watch send close =>
      let (s, id) := s.watch send close
      .ok (s, [.watching id])
  | .unwatch id => do return (← s.unwatch id, [])
  | .reseat color send close => .ok (s.reseat color send close, [])
  | .broadcast => do return (s, [.sent (sends (← s.look s.roster))])
  | .obtain => do
      let seen ← s.look s.roster
      return ({ s with held := (s.requests, s.roster) :: s.held, requests := s.requests + 1 },
        [.obtained s.requests seen])
  | .let_go request =>
      match s.held.find? fun version => version.1 = request with
      | none => .ok (s, [])
      | some version =>
          .ok ({ s with held := s.held.eraseP fun version => version.1 = request }.release
            version.2.watchers, [])

/-! ## What the memory means -/

/-- The memory means this audience: the list of its roster is the list of nodes, and every
node is one that something refers to. -/
structure Represents (s : SharedAudience) (a : MatchAudience) : Prop where
  sound : SharedList.Sound s.heap s.roots
  referred : SharedList.ReferredBut s.heap s.roots none
  reads : Reads s.heap s.roster.watchers a.roster.watchers
  roster : s.roster.seen a.roster.watchers = a.roster
  seats_filled : s.seats_filled = a.seats_filled
  next_watcher_id : s.next_watcher_id = a.next_watcher_id

/-- The lists of the versions that both hold are as they were. -/
def KeepsHeld (s s' : SharedAudience) : Prop :=
  ∀ {version watchers}, version ∈ s.held → version ∈ s'.held →
    Reads s.heap version.2.watchers watchers → Reads s'.heap version.2.watchers watchers

variable {s s' : SharedAudience} {a : MatchAudience} {next : SharedRoster}
  {watchers : List Watcher} {head : Option Nat}

theorem mem_roots_of_held {version : Nat × SharedRoster} (h : version ∈ s.held) :
    version.2.watchers ∈ s.roots :=
  List.mem_cons_of_mem _ (List.mem_map_of_mem h)

/-- **What is dropped is freed, and nothing else**: of the lists that were held, one is not
held any more. -/
theorem release_spec {before : List (Option Nat)} (hs : SharedList.Sound s.heap before)
    (hreferred : SharedList.ReferredBut s.heap before none) (hhead : head ∈ before)
    (hsub : s.roots ⊆ before) (hothers : ∀ other ∈ before, other = head ∨ other ∈ s.roots) :
    SharedList.Sound (s.release head).heap s.roots ∧
      SharedList.ReferredBut (s.release head).heap s.roots none ∧
      ∀ {kept watchers}, kept ∈ s.roots → Reads s.heap kept watchers →
        Reads (s.release head).heap kept watchers := by
  have hsound := hs.mono hsub
  obtain ⟨hsound', hkeep⟩ := hsound.unlink s.fuel head
  refine ⟨hsound', hsound.referred_unlink (hreferred.drop hs hsub hothers) ?_, hkeep⟩
  rintro address rfl
  obtain ⟨xs, hx⟩ := hs.rooted _ hhead
  cases hx with
  | cons hnode _ => exact Nat.lt_succ_of_lt (hs.below hnode)

/-- **A new version is published**: the memory means it, and versions that are held stay as
they are. -/
theorem publish_spec (hs : SharedList.Sound s.heap s.roots)
    (hreferred : SharedList.ReferredBut s.heap s.roots next.watchers)
    (hreads : Reads s.heap next.watchers watchers) :
    SharedList.Sound (s.publish next).heap (s.publish next).roots ∧
      SharedList.ReferredBut (s.publish next).heap (s.publish next).roots none ∧
      Reads (s.publish next).heap next.watchers watchers ∧ KeepsHeld s (s.publish next) := by
  have hs' : SharedList.Sound s.heap (next.watchers :: s.roots) :=
    ⟨hs.below, hs.down, hs.closed, List.forall_mem_cons.mpr ⟨⟨_, hreads⟩, hs.rooted⟩⟩
  -- of the old roots and the new one, the old head is the one that goes
  have hothers : ∀ other ∈ next.watchers :: s.roots, other = s.roster.watchers ∨
      other ∈ ({ s with roster := next } : SharedAudience).roots := by
    intro other hother
    rcases List.mem_cons.mp hother with rfl | hother
    · exact .inr List.mem_cons_self
    · rcases List.mem_cons.mp hother with rfl | hother
      · exact .inl rfl
      · exact .inr (List.mem_cons_of_mem _ hother)
  obtain ⟨hsound, hfreed, hkeep⟩ := release_spec (s := { s with roster := next }) hs'
    (hreferred.root hs hreads) (List.mem_cons_of_mem _ List.mem_cons_self)
    (List.cons_subset_cons _ (List.subset_cons_self _ _)) hothers
  exact ⟨hsound, hfreed, hkeep List.mem_cons_self hreads,
    fun hheld _ hx => hkeep (mem_roots_of_held (s := { s with roster := next }) hheld) hx⟩

/-! ## The calls keep memory and meaning in step -/

/-- A call went from `s` to a memory that means `a'`, and no reader noticed. -/
structure Follows (s s' : SharedAudience) (a' : MatchAudience) : Prop where
  represents : Represents s' a'
  keeps : KeepsHeld s s'
  held : s'.held = s.held
  requests : s'.requests = s.requests

theorem Represents.follows (h : Represents s a) : Follows s s a :=
  ⟨h, fun _ _ hx => hx, rfl, rfl⟩

/-- A version made of new nodes and old ones is published. -/
theorem follows_publish {mid : SharedAudience} {a' : MatchAudience}
    (hframe : ∀ {address node}, s.heap.node address = some node →
      mid.heap.node address = some node)
    (hheld : mid.held = s.held) (hrequests : mid.requests = s.requests)
    (hs : SharedList.Sound mid.heap mid.roots)
    (hreferred : SharedList.ReferredBut mid.heap mid.roots next.watchers)
    (hreads : Reads mid.heap next.watchers a'.roster.watchers)
    (hroster : next.seen a'.roster.watchers = a'.roster)
    (hseats : mid.seats_filled = a'.seats_filled)
    (hnext : mid.next_watcher_id = a'.next_watcher_id) :
    Follows s (mid.publish next) a' := by
  obtain ⟨hsound, hfreed, hreads', hkeeps⟩ := publish_spec hs hreferred hreads
  refine ⟨⟨hsound, hfreed, hreads', hroster, hseats, hnext⟩, ?_, hheld, hrequests⟩
  intro version watchers hin hstill hx
  rw [← hheld] at hin
  exact hkeeps hin hstill (hx.frame hframe)

/-- A version with the same list is published. -/
theorem Represents.republish (h : Represents s a) {a' : MatchAudience} {seats_filled : Nat}
    (hsame : next.watchers = s.roster.watchers)
    (hwatchers : a'.roster.watchers = a.roster.watchers)
    (hroster : next.seen a.roster.watchers = a'.roster) (hseats : seats_filled = a'.seats_filled)
    (hnext : a'.next_watcher_id = a.next_watcher_id) :
    Follows s ({ s with seats_filled := seats_filled }.publish next) a' := by
  refine follows_publish id rfl rfl h.sound ?_ ?_ ?_ hseats (h.next_watcher_id.trans hnext.symm)
  · intro address node hnode
    exact .inl ((h.referred hnode).resolve_right (Option.some_ne_none address).symm)
  · rw [hsame, hwatchers]
    exact h.reads
  · rw [hwatchers]
    exact hroster

theorem Represents.seat (h : Represents s a) (username : String) (rating : Int)
    (send close : Connection) :
    Follows s (s.seat username rating send close).1 (a.seat username rating send close).1 ∧
      (s.seat username rating send close).2 = (a.seat username rating send close).2 := by
  have hwhite : s.roster.white_send = a.roster.white_send := congrArg Roster.white_send h.roster
  have hblack : s.roster.black_send = a.roster.black_send := congrArg Roster.black_send h.roster
  unfold SharedAudience.seat MatchAudience.seat
  rw [hwhite, hblack]
  have hseats := congrArg (· + 1) h.seats_filled
  -- White's seat, or else Black's, is written to a copy that keeps the list
  split_ifs
  · refine ⟨h.republish rfl rfl ?_ hseats rfl, rfl⟩
    exact congrArg (fun r : Roster => { r with
      white_send := some send, white_close := some close, white_username := username,
      white_rating := rating }) h.roster
  · refine ⟨h.republish rfl rfl ?_ hseats rfl, rfl⟩
    exact congrArg (fun r : Roster => { r with
      black_send := some send, black_close := some close, black_username := username,
      black_rating := rating }) h.roster
  · exact ⟨h.follows, rfl⟩

theorem Represents.reseat (h : Represents s a) (color : PieceColor) (send close : Connection) :
    Follows s (s.reseat color send close) (a.reseat color send close) := by
  cases color with
  | White =>
      refine h.republish rfl rfl ?_ h.seats_filled rfl
      exact congrArg (fun r : Roster =>
        { r with white_send := some send, white_close := some close }) h.roster
  | Black =>
      refine h.republish rfl rfl ?_ h.seats_filled rfl
      exact congrArg (fun r : Roster =>
        { r with black_send := some send, black_close := some close }) h.roster

/-- `watch` makes one node in front of the list. -/
theorem Represents.watch (h : Represents s a) (send close : Connection) :
    Follows s (s.watch send close).1 (a.watch send close).1 ∧
      (s.watch send close).2 = (a.watch send close).2 := by
  have hcount : s.roster.watcher_count = a.roster.watcher_count :=
    congrArg Roster.watcher_count h.roster
  unfold SharedAudience.watch MatchAudience.watch
  rw [hcount, h.next_watcher_id]
  split_ifs
  · exact ⟨h.follows, rfl⟩
  · refine ⟨?_, rfl⟩
    have hreferred : SharedList.ReferredBut s.heap s.roots s.roster.watchers := fun hnode =>
      .inl ((h.referred hnode).resolve_right (Option.some_ne_none _).symm)
    refine follows_publish (h.sound.node_cons _ _) rfl rfl
      ((h.sound.cons h.reads _).mono (List.subset_cons_self _ _))
      (hreferred.cons h.sound h.reads _) (h.sound.reads_cons h.reads) ?_ h.seats_filled rfl
    exact congrArg (fun r : Roster => { r with
      watchers := ⟨a.next_watcher_id, send, close⟩ :: a.roster.watchers
      watcher_count := a.roster.watcher_count + 1 }) h.roster

/-- `unwatch` makes the nodes before the one that goes again, and keeps those behind it. -/
theorem Represents.unwatch (h : Represents s a) (id : WatcherId) :
    ∃ s', s.unwatch id = .ok s' ∧ Follows s s' (a.unwatch id) ∧
      ((∀ w ∈ a.roster.watchers, w.id ≠ id) → s' = s) := by
  have hlength : a.roster.watchers.length < s.fuel := h.sound.length_lt h.reads
  unfold SharedAudience.unwatch MatchAudience.unwatch
  by_cases hany : a.roster.watchers.any (fun watcher => watcher.id = id) = true
  · obtain ⟨w, hw, hid⟩ := List.any_eq_true.mp hany
    obtain ⟨x, before, rest, hbefore, hx, hsplit, herase⟩ :=
      List.exists_of_eraseP (p := fun watcher => watcher.id = id) hw hid
    have hreads := h.reads
    rw [hsplit] at hreads hlength
    have hfuel : before.length < s.fuel := by
      rw [List.length_append] at hlength
      omega
    -- `search` stops at the node that goes; those before it are made again in front of the rest
    obtain ⟨after, hsearch, hafter⟩ := SharedList.search_found hreads
      (fun y hy => Bool.eq_false_iff.mpr (hbefore y hy)) hx hfuel
    obtain ⟨hsound, hrebuilt, hframe⟩ := h.sound.prepend hafter before
    have hreferred : SharedList.ReferredBut s.heap s.roots after := fun hnode =>
      .inl ((h.referred hnode).resolve_right (Option.some_ne_none _).symm)
    rw [hsearch, if_pos hany]
    refine ⟨_, rfl, follows_publish hframe rfl rfl hsound
      (hreferred.prepend h.sound hafter before) ?_ ?_ h.seats_filled h.next_watcher_id,
      fun hunknown => ?_⟩
    · show Reads _ _ (a.roster.watchers.eraseP _)
      rw [herase]
      exact hrebuilt
    · exact congrArg (fun r : Roster => { r with
        watchers := a.roster.watchers.eraseP fun watcher => watcher.id = id
        watcher_count := r.watcher_count - 1 }) h.roster
    · exact absurd (of_decide_eq_true hid) (hunknown w hw)
  · have hnone : ∀ y ∈ a.roster.watchers, decide (y.id = id) = false := by
      intro y hy
      by_contra hyes
      exact hany (List.any_eq_true.mpr ⟨y, hy, by simpa using hyes⟩)
    rw [SharedList.search_not_found h.reads hnone hlength, if_neg hany]
    exact ⟨s, rfl, h.follows, fun _ => rfl⟩

/-- What is seen of the version that is published. -/
theorem Represents.look (h : Represents s a) : s.look s.roster = .ok a.roster := by
  have hread : SharedList.read s.heap s.fuel s.roster.watchers = some a.roster.watchers :=
    SharedList.read_eq h.reads (h.sound.length_lt h.reads)
  unfold SharedAudience.look
  rw [hread]
  exact congrArg Except.ok h.roster

/-- A reader holds the version that is published. -/
theorem Represents.obtain (h : Represents s a) (request requests : Nat) :
    Represents { s with held := (request, s.roster) :: s.held, requests := requests } a := by
  -- the new holder refers to a list that is held already
  have hsub : ({ s with held := (request, s.roster) :: s.held } : SharedAudience).roots
      ⊆ s.roots := by
    refine List.cons_subset.mpr ⟨List.mem_cons_self, List.cons_subset.mpr ⟨List.mem_cons_self, ?_⟩⟩
    exact List.subset_cons_self _ _
  have hmore : s.roots
      ⊆ ({ s with held := (request, s.roster) :: s.held } : SharedAudience).roots :=
    List.cons_subset_cons _ (List.subset_cons_self _ _)
  have hsound := h.sound.mono hsub
  refine ⟨hsound, fun hnode => .inl ?_, h.reads, h.roster, h.seats_filled, h.next_watcher_id⟩
  have hreferred := (h.referred hnode).resolve_right (Option.some_ne_none _).symm
  exact hsound.referred_iff.mpr ((h.sound.referred_iff.mp hreferred).imp (@hmore _) id)

/-- A reader drops the version it holds. -/
theorem Represents.let_go (h : Represents s a) {version : Nat × SharedRoster}
    {held : List (Nat × SharedRoster)} (hheld : ∀ v, v ∈ s.held ↔ v = version ∨ v ∈ held) :
    Represents ({ s with held := held }.release version.2.watchers) a ∧
      KeepsHeld s ({ s with held := held }.release version.2.watchers) := by
  have hsub : ({ s with held := held } : SharedAudience).roots ⊆ s.roots := by
    refine List.cons_subset_cons _ (List.map_subset _ fun v hv => ?_)
    exact (hheld v).mpr (.inr hv)
  have hothers : ∀ other ∈ s.roots, other = version.2.watchers ∨
      other ∈ ({ s with held := held } : SharedAudience).roots := by
    intro other hother
    rcases List.mem_cons.mp hother with rfl | hother
    · exact .inr List.mem_cons_self
    · obtain ⟨v, hv, rfl⟩ := List.mem_map.mp hother
      rcases (hheld v).mp hv with rfl | hv
      · exact .inl rfl
      · exact .inr (mem_roots_of_held (s := { s with held := held }) hv)
  have hhead : version.2.watchers ∈ s.roots := mem_roots_of_held ((hheld version).mpr (.inl rfl))
  obtain ⟨hsound, hfreed, hkeep⟩ := release_spec (s := { s with held := held }) h.sound h.referred
    hhead hsub hothers
  refine ⟨⟨hsound, hfreed, hkeep List.mem_cons_self h.reads, h.roster, h.seats_filled,
    h.next_watcher_id⟩, fun _ hstill hx => ?_⟩
  exact hkeep (mem_roots_of_held (s := { s with held := held }) hstill) hx

/-! ## Runs -/

/-- What a call makes of the audience. -/
def called (a : MatchAudience) : Op → MatchAudience
  | .seat username rating send close => (a.seat username rating send close).1
  | .watch send close => (a.watch send close).1
  | .unwatch id => a.unwatch id
  | .reseat color send close => a.reseat color send close
  | _ => a

/-- What a call is answered, with the number of the next request. -/
def answer (a : MatchAudience) (requests : Nat) : Op → List Output
  | .seat username rating send close => [.seated (a.seat username rating send close).2]
  | .watch send close => [.watching (a.watch send close).2]
  | .broadcast => [.sent (sends a.roster)]
  | .obtain => [.obtained requests a.roster]
  | _ => []

/-- A reader holds only what it held before, and what it has just asked for. -/
def HeldAfter (s s' : SharedAudience) : Op → Prop
  | .obtain => s'.requests = s.requests + 1 ∧ s'.heap = s.heap ∧
      ∀ version ∈ s'.held, version = (s.requests, s.roster) ∨ version ∈ s.held
  | _ => s'.requests = s.requests ∧ ∀ version ∈ s'.held, version ∈ s.held

/-- **Every call works, and memory and meaning stay in step.** -/
theorem exec_represents (h : Represents s a) (op : Op) :
    ∃ s', exec s op = .ok (s', answer a s.requests op) ∧ Represents s' (called a op) ∧
      KeepsHeld s s' ∧ HeldAfter s s' op := by
  have hquiet : ∀ {s' a'}, Follows s s' a' → Represents s' a' ∧ KeepsHeld s s' ∧
      s'.requests = s.requests ∧ ∀ version ∈ s'.held, version ∈ s.held := fun hf =>
    ⟨hf.represents, hf.keeps, hf.requests, fun _ hin => hf.held ▸ hin⟩
  cases op with
  | seat username rating send close =>
      obtain ⟨hfollows, hanswer⟩ := h.seat username rating send close
      refine ⟨_, ?_, hquiet hfollows⟩
      rw [answer, ← hanswer]
      rfl
  | watch send close =>
      obtain ⟨hfollows, hanswer⟩ := h.watch send close
      refine ⟨_, ?_, hquiet hfollows⟩
      rw [answer, ← hanswer]
      rfl
  | unwatch id =>
      obtain ⟨s', hunwatch, hfollows, -⟩ := h.unwatch id
      refine ⟨s', ?_, hquiet hfollows⟩
      rw [exec, hunwatch]
      rfl
  | reseat color send close => exact ⟨_, rfl, hquiet (h.reseat color send close)⟩
  | broadcast =>
      refine ⟨s, ?_, hquiet h.follows⟩
      rw [exec, h.look]
      rfl
  | obtain =>
      refine ⟨{ s with held := (s.requests, s.roster) :: s.held, requests := s.requests + 1 },
        ?_, h.obtain _ _, fun _ _ hx => hx, rfl, rfl, fun version hin => List.mem_cons.mp hin⟩
      rw [exec, h.look]
      rfl
  | let_go request =>
      cases hfind : s.held.find? fun version => version.1 = request with
      | none =>
          refine ⟨s, ?_, hquiet h.follows⟩
          rw [exec, hfind]
          rfl
      | some version =>
          -- the version found by its number is the one taken out
          obtain ⟨hnumber, before, rest, hsplit, hbefore⟩ := List.find?_eq_some_iff_append.mp hfind
          have herase : (s.held.eraseP fun version => version.1 = request) = before ++ rest := by
            rw [hsplit, List.eraseP_append_right _ (by simpa using hbefore),
              List.eraseP_cons_of_pos (p := fun v : Nat × SharedRoster => v.1 = request) hnumber]
          have hheld : ∀ v, v ∈ s.held ↔ v = version ∨ v ∈ before ++ rest := by
            intro v
            rw [hsplit, List.mem_append, List.mem_cons, List.mem_append]
            tauto
          obtain ⟨hrepresents, hkeeps⟩ := h.let_go hheld
          refine ⟨_, ?_, hrepresents, hkeeps, rfl, fun v hv => (hheld v).mpr (.inr hv)⟩
          rw [exec, hfind]
          exact congrArg (fun held => Except.ok (release { s with held := held } _, [])) herase

/-- `0` is no id. -/
def Output.issue : Output → Option WatcherId
  | .watching id => if id = 0 then none else some id
  | _ => none

/-- The ids that `watch` has issued. -/
def issued (log : List (Op × List Output)) : List WatcherId := (emitted log).filterMap Output.issue

/-- Only a colour that `seat` has returned is reseated. -/
def ReseatsTheSeated (_ : SharedAudience) (log : List (Op × List Output)) : Op → Prop
  | .reseat color _ _ => .seated (some color) ∈ emitted log
  | _ => True

instance (s : SharedAudience) (log : List (Op × List Output)) :
    ∀ op, Decidable (ReseatsTheSeated s log op)
  | .reseat color _ _ => inferInstanceAs (Decidable (.seated (some color) ∈ emitted log))
  | .seat .. | .watch .. | .unwatch _ | .broadcast | .obtain | .let_go _ => .isTrue trivial

/-- **The invariant.** -/
structure Faithful (s : SharedAudience) (a : MatchAudience) (log : List (Op × List Output)) :
    Prop where
  represents : Represents s a
  counted : a.Counted
  issued_below : ∀ id ∈ issued log, id < a.next_watcher_id
  issued_once : (issued log).Nodup
  seated : ∀ {color}, .seated (some color) ∈ emitted log → (a.player color).isSome
  asked : ∀ {request seen}, .obtained request seen ∈ emitted log → request < s.requests
  unchanged : ∀ {request r}, (request, r) ∈ s.held → request < s.requests ∧
    ∃ watchers, Reads s.heap r.watchers watchers ∧
      ∀ {seen}, .obtained request seen ∈ emitted log → seen = r.seen watchers

variable {log : List (Op × List Output)} {op : Op}

theorem called_counted (h : a.Counted)
    (htaken : ∀ color send close, op = .reseat color send close → (a.player color).isSome) :
    (called a op).Counted := by
  cases op with
  | seat username rating send close => exact h.seat username rating send close
  | watch send close => exact h.watch send close
  | unwatch id => exact h.unwatch id
  | reseat color send close => exact h.reseat (htaken color send close rfl) send close
  | broadcast => exact h
  | obtain => exact h
  | let_go request => exact h

/-- A seat that is taken, or just has been. -/
theorem isSome_player_called {color : PieceColor} {requests : Nat} (h : (a.player color).isSome ∨
    .seated (some color) ∈ answer a requests op) : ((called a op).player color).isSome := by
  cases op with
  | seat username rating send close =>
      refine MatchAudience.isSome_player_seat (h.imp id fun hin => ?_)
      exact (Output.seated.inj (List.mem_singleton.mp hin)).symm
  | watch send close =>
      show ((a.watch send close).1.player color).isSome
      rw [MatchAudience.player_watch_eq]
      exact h.resolve_right (by simp [answer])
  | unwatch id =>
      show ((a.unwatch id).player color).isSome
      rw [MatchAudience.player_unwatch]
      exact h.resolve_right (by simp [answer])
  | reseat c send close =>
      exact MatchAudience.isSome_player_reseat (h.resolve_right (by simp [answer]))
  | broadcast => exact h.resolve_right (by simp [answer])
  | obtain => exact h.resolve_right (by simp [answer])
  | let_go request => exact h.resolve_right (by simp [answer])

theorem issued_append (log : List (Op × List Output)) (op : Op) (os : List Output) :
    issued (log ++ [(op, os)]) = issued log ++ os.filterMap Output.issue := by
  unfold issued
  rw [Machine.emitted_append, List.filterMap_append, Machine.emitted_singleton]

/-- What is issued is the next id, or nothing. -/
theorem issued_answer (h : a.Counted) (requests : Nat) (op : Op) :
    ((answer a requests op).filterMap Output.issue = [] ∧
        (called a op).next_watcher_id = a.next_watcher_id) ∨
      (answer a requests op).filterMap Output.issue = [a.next_watcher_id] ∧
        (called a op).next_watcher_id = a.next_watcher_id + 1 := by
  cases op with
  | seat username rating send close =>
      refine .inl ⟨rfl, ?_⟩
      show (a.seat username rating send close).1.next_watcher_id = _
      unfold MatchAudience.seat
      split_ifs <;> rfl
  | watch send close =>
      rcases a.watch_id send close with ⟨hid, hsame⟩ | ⟨hid, hnext⟩
      · refine .inl ⟨?_, congrArg MatchAudience.next_watcher_id hsame⟩
        rw [answer, hid]
        rfl
      · refine .inr ⟨?_, hnext⟩
        rw [answer, hid, List.filterMap_cons_some (b := a.next_watcher_id), List.filterMap_nil]
        exact if_neg h.issues.ne'
  | unwatch id => exact .inl ⟨rfl, (a.unwatch_rest id).1⟩
  | reseat color send close =>
      refine .inl ⟨rfl, ?_⟩
      cases color <;> rfl
  | broadcast => exact .inl ⟨rfl, rfl⟩
  | obtain => exact .inl ⟨rfl, rfl⟩
  | let_go request => exact .inl ⟨rfl, rfl⟩

theorem obtained_answer {requests request : Nat} {seen : Roster}
    (h : .obtained request seen ∈ answer a requests op) :
    op = .obtain ∧ request = requests ∧ seen = a.roster := by
  cases op with
  | obtain =>
      obtain ⟨hrequest, hseen⟩ := Output.obtained.inj (List.mem_singleton.mp h)
      exact ⟨rfl, hrequest, hseen⟩
  | seat username rating send close => cases List.mem_singleton.mp h
  | watch send close => cases List.mem_singleton.mp h
  | unwatch id => cases h
  | reseat color send close => cases h
  | broadcast => cases List.mem_singleton.mp h
  | let_go request => cases h

/-- Only `obtain` gives a reader something to hold. -/
theorem HeldAfter.other (h : HeldAfter s s' op) (hop : op ≠ .obtain) :
    s'.requests = s.requests ∧ ∀ version ∈ s'.held, version ∈ s.held := by
  cases op with
  | obtain => exact absurd rfl hop
  | seat | watch | unwatch | reseat | broadcast | let_go => exact h

theorem HeldAfter.cases (h : HeldAfter s s' op) {version : Nat × SharedRoster}
    (hin : version ∈ s'.held) :
    (version = (s.requests, s.roster) ∧ s'.heap = s.heap ∧ s'.requests = s.requests + 1) ∨
      version ∈ s.held := by
  by_cases hop : op = .obtain
  · subst hop
    exact (h.2.2 version hin).imp (fun heq => ⟨heq, h.2.1, h.1⟩) id
  · exact .inr ((h.other hop).2 version hin)

theorem HeldAfter.requests (h : HeldAfter s s' op) :
    s'.requests = if op = .obtain then s.requests + 1 else s.requests := by
  by_cases hop : op = .obtain
  · subst hop
    rw [if_pos rfl]
    exact h.1
  · rw [if_neg hop]
    exact (h.other hop).1

theorem HeldAfter.le (h : HeldAfter s s' op) : s.requests ≤ s'.requests := by
  rw [h.requests]
  split_ifs
  · exact Nat.le_succ _
  · exact le_refl _

theorem emitted_step (log : List (Op × List Output)) (op : Op) (os : List Output) {o : Output} :
    o ∈ emitted (log ++ [(op, os)]) ↔ o ∈ emitted log ∨ o ∈ os := by
  rw [Machine.emitted_append, Machine.emitted_singleton, List.mem_append]

/-- **A version that is held reads as it did when it was asked for.** -/
theorem Faithful.unchanged_step (h : Faithful s a log) (hkeeps : KeepsHeld s s')
    (hheld : HeldAfter s s' op) {request : Nat} {r : SharedRoster} (hin : (request, r) ∈ s'.held) :
    request < s'.requests ∧ ∃ watchers, Reads s'.heap r.watchers watchers ∧
      ∀ {seen}, .obtained request seen ∈ emitted (log ++ [(op, answer a s.requests op)]) →
        seen = r.seen watchers := by
  rcases hheld.cases hin with ⟨heq, hheap, hrequests⟩ | hold
  · -- it has just been asked for, under a number that was not given before
    obtain ⟨rfl, rfl⟩ := Prod.mk.inj heq
    refine ⟨hrequests ▸ Nat.lt_succ_self _, a.roster.watchers, hheap ▸ h.represents.reads,
      fun {seen} hseen => ?_⟩
    rcases (emitted_step log op _).mp hseen with hlog | hnow
    · exact absurd (h.asked hlog) (lt_irrefl _)
    · rw [(obtained_answer hnow).2.2, h.represents.roster]
  · obtain ⟨hlt, watchers, hreads, hseen⟩ := h.unchanged hold
    refine ⟨hlt.trans_le hheld.le, watchers, hkeeps hold hin hreads, fun {seen} hlater => ?_⟩
    rcases (emitted_step log op _).mp hlater with hlog | hnow
    · exact hseen hlog
    · exact absurd ((obtained_answer hnow).2.1) hlt.ne

theorem Faithful.step (h : Faithful s a log) (hop : ReseatsTheSeated s log op)
    (hrepresents : Represents s' (called a op)) (hkeeps : KeepsHeld s s')
    (hheld : HeldAfter s s' op) :
    Faithful s' (called a op) (log ++ [(op, answer a s.requests op)]) := by
  have hcounted : (called a op).Counted := by
    refine called_counted h.counted fun color send close hreseat => ?_
    subst hreseat
    exact h.seated hop
  refine ⟨hrepresents, hcounted, ?_, ?_, fun {color} hin => ?_, fun {request seen} hin => ?_,
    h.unchanged_step hkeeps hheld⟩
  · intro id hid
    rw [issued_append, List.mem_append] at hid
    -- an id that is issued now is the next one, above all that were issued
    rcases issued_answer h.counted s.requests op with ⟨hnone, hnext⟩ | ⟨hone, hnext⟩
    · rw [hnone] at hid
      rw [hnext]
      exact h.issued_below id (hid.resolve_right List.not_mem_nil)
    · rw [hone, List.mem_singleton] at hid
      rw [hnext]
      rcases hid with hold | rfl
      · exact Nat.lt_succ_of_lt (h.issued_below id hold)
      · exact Nat.lt_succ_self _
  · rw [issued_append]
    rcases issued_answer h.counted s.requests op with ⟨hnone, -⟩ | ⟨hone, -⟩
    · rw [hnone, List.append_nil]
      exact h.issued_once
    · rw [hone]
      refine List.nodup_append.mpr ⟨h.issued_once, List.nodup_singleton _, ?_⟩
      intro id hid other hother
      rw [List.mem_singleton.mp hother]
      exact (h.issued_below id hid).ne
  · rcases (emitted_step log op _).mp hin with hlog | hnow
    · have hseated : (a.player color).isSome ∨
          .seated (some color) ∈ answer a s.requests op := .inl (h.seated hlog)
      exact isSome_player_called hseated
    · exact isSome_player_called (.inr hnow)
  · -- requests are numbered in order
    rcases (emitted_step log op _).mp hin with hlog | hnow
    · exact (h.asked hlog).trans_le hheld.le
    · obtain ⟨rfl, rfl, -⟩ := obtained_answer hnow
      rw [hheld.requests, if_pos rfl]
      exact Nat.lt_succ_self _

theorem represents_new : Represents {} {} := by
  have hnone : ∀ {address : Nat} {node : SharedList.Node Watcher},
      (({} : SharedAudience).heap.node address = some node) → False := by
    rintro _ _ ⟨⟩
  refine ⟨⟨fun h => (hnone h).elim, fun h => (hnone h).elim, fun h => (hnone h).elim, ?_⟩,
    fun h => (hnone h).elim, .nil, rfl, rfl, rfl⟩
  exact List.forall_mem_singleton.mpr ⟨[], .nil⟩

theorem faithful_new : Faithful {} {} [] where
  represents := represents_new
  counted := MatchAudience.counted_new
  issued_below := fun _ hid => absurd hid List.not_mem_nil
  issued_once := List.nodup_nil
  seated := fun hin => absurd hin List.not_mem_nil
  asked := fun hin => absurd hin List.not_mem_nil
  unchanged := fun hin => absurd hin List.not_mem_nil

theorem reach_faithful (hr : Reach (logged exec) ReseatsTheSeated {} s log) :
    ∃ a, Faithful s a log := by
  refine Reach.invariant (P := fun s log => ∃ a, Faithful s a log) ⟨{}, faithful_new⟩ ?_ hr
  rintro s log op s' entries - ⟨a, h⟩ hop hstep
  obtain ⟨os, hexec, rfl⟩ := logged_ok_iff.mp hstep
  obtain ⟨s₁, hone, hrepresents, hkeeps, hheld⟩ := exec_represents h.represents op
  rw [hone] at hexec
  obtain ⟨rfl, rfl⟩ := Prod.mk.inj (Except.ok.inj hexec)
  exact ⟨called a op, h.step hop hrepresents hkeeps hheld⟩

/-! ## The audience as its users see it -/

/-- Who is attached, with the `send` that they brought. -/
def Attached (r : Roster) : Attachment → Connection → Prop
  | .seat .White, connection => r.white_send = some connection
  | .seat .Black, connection => r.black_send = some connection
  | .watcher id, connection => ∃ w ∈ r.watchers, w.id = id ∧ w.send = connection

theorem mem_sends {r : Roster} {attachment : Attachment} {connection : Connection} :
    (attachment, connection) ∈ sends r ↔ Attached r attachment connection := by
  unfold sends
  rw [List.mem_append, List.mem_append, List.mem_map, List.mem_map, List.mem_map]
  cases attachment with
  | seat color => cases color <;> simp [Attached, Option.mem_toList]
  | watcher id => simp [Attached]

theorem sends_nodup {r : Roster} (hids : (r.watchers.map Watcher.id).Nodup) :
    ((sends r).map Prod.fst).Nodup := by
  have hwatchers : ((r.watchers.map Watcher.id).map Attachment.watcher).Nodup :=
    hids.map fun _ _ heq => Attachment.watcher.inj heq
  have hfst : (sends r).map Prod.fst
      = (r.white_send.toList.map fun _ => .seat .White)
        ++ (r.black_send.toList.map fun _ => .seat .Black)
        ++ (r.watchers.map Watcher.id).map Attachment.watcher := by
    simp [sends, Function.comp_def]
  rw [hfst]
  -- a seat is no watcher, and the two seats are two
  cases r.white_send with
  | none =>
      cases r.black_send with
      | none => exact hwatchers
      | some b => exact List.nodup_cons.mpr ⟨by simp, hwatchers⟩
  | some w =>
      cases r.black_send with
      | none => exact List.nodup_cons.mpr ⟨by simp, hwatchers⟩
      | some b =>
          exact List.nodup_cons.mpr ⟨by simp, List.nodup_cons.mpr ⟨by simp, hwatchers⟩⟩

/-- What holds of an audience in memory, after the calls of the log. -/
structure AudienceKept (s : SharedAudience) (log : List (Op × List Output)) : Prop where
  /-- What is seen of the roster: the counter, the ceiling and the ids. -/
  counted : ∃ r, s.look s.roster = .ok r ∧ r.watcher_count = r.watchers.length ∧
    r.watchers.length ≤ kMaxSpectators ∧
    r.watchers.Pairwise fun newer older => older.id < newer.id
  issued_once : (issued log).Nodup
  /-- The watcher with the id goes, and no other; if there is none nothing changes. -/
  unwatch : ∀ id r, s.look s.roster = .ok r → ∃ s' r', exec s (.unwatch id) = .ok (s', []) ∧
    s'.look s'.roster = .ok r' ∧ r'.watchers = r.watchers.filter (fun w => w.id ≠ id) ∧
    ((∀ w ∈ r.watchers, w.id ≠ id) → s' = s)
  /-- What was asked for and is still held is seen as it was then. -/
  unchanged : ∀ request r seen, (request, r) ∈ s.held → .obtained request seen ∈ emitted log →
    s.look r = .ok seen
  seats : s.both_seats_taken = true ↔
    s.roster.white_send.isSome ∧ s.roster.black_send.isSome
  /-- Whoever is attached is sent to once. -/
  broadcast : ∃ calls r, exec s .broadcast = .ok (s, [.sent calls]) ∧
    s.look s.roster = .ok r ∧ (calls.map Prod.fst).Nodup ∧
    ∀ attachment connection, (attachment, connection) ∈ calls ↔
      Attached r attachment connection
  /-- No call fails. -/
  total : ∀ op, ∃ s' os, exec s op = .ok (s', os)

/-- **The audience list is what its counters say.** -/
theorem audience_kept (hr : Reach (logged exec) ReseatsTheSeated {} s log) :
    AudienceKept s log := by
  obtain ⟨a, h⟩ := reach_faithful hr
  have hlook := h.represents.look
  refine ⟨⟨a.roster, hlook, h.counted.count, h.counted.limit, h.counted.down⟩, h.issued_once,
    fun id r hr => ?_, fun request r seen hin hseen => ?_, ?_, ?_, fun op => ?_⟩
  · obtain rfl := Except.ok.inj (hlook.symm.trans hr)
    obtain ⟨s', hunwatch, hfollows, hsame⟩ := h.represents.unwatch id
    refine ⟨s', _, ?_, hfollows.represents.look, h.counted.watchers_unwatch id, hsame⟩
    rw [exec, hunwatch]
    rfl
  · obtain ⟨-, watchers, hreads, hunchanged⟩ := h.unchanged hin
    have hread : SharedList.read s.heap s.fuel r.watchers = some watchers :=
      SharedList.read_eq hreads (h.represents.sound.length_lt hreads)
    rw [look, hread, hunchanged hseen]
  · have hwhite : s.roster.white_send = a.player .White :=
      congrArg Roster.white_send h.represents.roster
    have hblack : s.roster.black_send = a.player .Black :=
      congrArg Roster.black_send h.represents.roster
    rw [hwhite, hblack, ← h.counted.both_seats_taken, both_seats_taken, h.represents.seats_filled]
    rfl
  · refine ⟨sends a.roster, a.roster, ?_, hlook, sends_nodup h.counted.ids_nodup,
      fun _ _ => mem_sends⟩
    rw [exec, hlook]
    rfl
  · obtain ⟨s', hexec, -⟩ := exec_represents h.represents op
    exact ⟨s', _, hexec⟩

/-- A player and two watchers; a version is asked for before the older watcher goes. -/
theorem audience_kept_three : ∃ s log,
    Machine.run (logged exec) {} [.seat "a" 1200 ⟨1⟩ ⟨1⟩, .watch ⟨2⟩ ⟨2⟩, .watch ⟨3⟩ ⟨3⟩, .obtain,
      .unwatch 1, .reseat .White ⟨4⟩ ⟨4⟩, .unwatch 7] = .ok (s, log) ∧
    s.roster.watcher_count = 1 ∧ AudienceKept s log := by
  obtain ⟨⟨s, log⟩, hrun, hcount⟩ := Machine.exists_ok_such
    (x := Machine.run (logged exec) {} [.seat "a" 1200 ⟨1⟩ ⟨1⟩, .watch ⟨2⟩ ⟨2⟩, .watch ⟨3⟩ ⟨3⟩,
      .obtain, .unwatch 1, .reseat .White ⟨4⟩ ⟨4⟩, .unwatch 7])
    (p := fun r => r.1.roster.watcher_count = 1) (by decide)
  have hmeets : Machine.Meets (logged exec) ReseatsTheSeated {} [] [.seat "a" 1200 ⟨1⟩ ⟨1⟩,
      .watch ⟨2⟩ ⟨2⟩, .watch ⟨3⟩ ⟨3⟩, .obtain, .unwatch 1, .reseat .White ⟨4⟩ ⟨4⟩, .unwatch 7] := by
    decide
  exact ⟨s, log, hrun, of_decide_eq_true hcount,
    audience_kept (Machine.reach_of_meets hmeets hrun)⟩

/-- **Nothing leaks**: every node is part of a version that is held, or the next of a node. -/
theorem nothing_leaks (hr : Reach (logged exec) ReseatsTheSeated {} s log) :
    SharedList.ReferredBut s.heap s.roots none := by
  obtain ⟨a, h⟩ := reach_faithful hr
  exact h.represents.referred

end SharedAudience

end KungFuChess
