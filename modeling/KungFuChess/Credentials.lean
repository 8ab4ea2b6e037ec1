/-
**Names, passwords and tokens.**

`Honest` says what the store, the tokens and the handlers are, in terms of what has
been said so far: the hash under a name is of the password it was registered with, the
tokens are those issued, less some that have expired, the games are those recorded, and
a handler that is about to hand out a token or a history has itself seen the password or
the token for it. No two handlers have one number (`Numbered`), so that what a handler has
done can be told by its number. Each step keeps it, and every answer is read off it.
-/
import KungFuChess.AccountSteps
import Mathlib.Order.Directed

set_option autoImplicit false

namespace KungFuChess

open Machine http_api password_hash ExpiringMap

/-! ## What has been said -/

/-- The salt and the password that a name was registered with. -/
def registration (tr : List AccountEvent) (username : String) : Option (List UInt8 × String) :=
  tr.findSome? fun
    | .checked _ salt name password outcome =>
        if name = username ∧ outcome.newly_registered = true then some (salt, password) else none
    | _ => none

/-- The checks that a handler has made. -/
def checks_of (tr : List AccountEvent) (id : Nat) : List AccountEvent :=
  tr.filter fun
    | .checked thread _ _ _ _ => thread.id = id
    | _ => false

/-- The handler of the request has made one check, of the name and the password in the
request's body, and the password was accepted. -/
def Earned {R : Type*} (env : Outsiders R) (tr : List AccountEvent) (id : Nat)
    (request : HttpRequest) (username : String) : Prop :=
  ∃ thread salt password outcome,
    checks_of tr id = [.checked thread salt username password outcome] ∧
      thread.call.posted = some request ∧
      credentials (env.parse request.body) = some (username, password) ∧ outcome.ok = true

def note_issue (t : AuthTokenStore) : AccountEvent → AuthTokenStore
  | .issued _ token username now => put t token username (now + AuthTokenStore.kTokenLifetime)
  | _ => t

/-- Every token, as it was issued last. -/
def issues (tr : List AccountEvent) : AuthTokenStore := tr.foldl note_issue empty

/-- The row that a recorded result is. -/
def game_of (id : Nat) (r : Report) (ended_at : Int) : GameRecord where
  id := id
  white_username := r.white
  black_username := r.black
  winner_username := r.winner.map fun color => if color = .White then r.white else r.black
  end_reason := match r.reason with
    | .Decisive => "decisive"
    | .Draw => "draw"
    | .Disconnect => "disconnect"
  started_at := to_iso8601 r.started_at
  ended_at := to_iso8601 ended_at

def recordings (tr : List AccountEvent) : List (Report × Int) :=
  tr.filterMap fun
    | .recorded r ended_at => some (r, ended_at)
    | _ => none

def recorded_games (tr : List AccountEvent) : List GameRecord :=
  (recordings tr).mapIdx fun i x => game_of (i + 1) x.1 x.2

/-- The games of a player. -/
def games_of (tr : List AccountEvent) (username : String) : List GameRecord :=
  (recorded_games tr).filter fun game =>
    game.white_username = username || game.black_username = username

section Said

variable {tr os : List AccountEvent} {token username : String}

theorem registration_append (tr os : List AccountEvent) (username : String) :
    registration (tr ++ os) username = (registration tr username).or (registration os username) :=
  List.findSome?_append

theorem checks_of_append (tr os : List AccountEvent) (id : Nat) :
    checks_of (tr ++ os) id = checks_of tr id ++ checks_of os id := List.filter_append ..

theorem issues_append (tr os : List AccountEvent) :
    issues (tr ++ os) = os.foldl note_issue (issues tr) := List.foldl_append ..

/-- A token's entry is its last issue. -/
theorem issues_spec {e : Entry String Int} (h : issues tr token = some e) :
    ∃ first id mid now, tr = first ++ .issued id token e.value now :: mid ∧
      (∀ id name at_, .issued id token name at_ ∉ mid) ∧
      e.expires_at = now + AuthTokenStore.kTokenLifetime := by
  induction tr using List.reverseRecOn with
  | nil => cases h
  | append_singleton tr x ih =>
      -- the last event issues this token, or leaves its entry alone
      have hold : issues tr token = some e → (∀ id name at_, x ≠ .issued id token name at_) →
          ∃ first id mid now, tr ++ [x] = first ++ .issued id token e.value now :: mid ∧
            (∀ id name at_, .issued id token name at_ ∉ mid) ∧
            e.expires_at = now + AuthTokenStore.kTokenLifetime := by
        intro hold hx
        obtain ⟨first, id, mid, now, rfl, hmid, hexpires⟩ := ih hold
        refine ⟨first, id, mid ++ [x], now, by simp, fun other name at_ hmem => ?_, hexpires⟩
        rcases List.mem_append.mp hmem with hmem | hmem
        · exact hmid other name at_ hmem
        · exact hx other name at_ (List.mem_singleton.mp hmem).symm
      rw [issues_append] at h
      cases x with
      | issued id other name now =>
          have hput : put (issues tr) other name (now + AuthTokenStore.kTokenLifetime) token
              = some e := h
          by_cases htoken : token = other
          · subst htoken
            rw [put_same] at hput
            obtain rfl := Option.some.inj hput
            exact ⟨tr, id, [], now, rfl, fun _ _ _ => List.not_mem_nil, rfl⟩
          · rw [put_other _ htoken] at hput
            exact hold hput fun _ _ _ heq => htoken (AccountEvent.issued.inj heq).2.1.symm
      | _ => exact hold h fun _ _ _ => nofun

theorem record_result_games (users : UserRepository) (r : Report) (ended_at : Int) :
    (record_result users r ended_at).games
      = users.games ++ [game_of (users.games.length + 1) r ended_at] := rfl

theorem recordings_append (tr os : List AccountEvent) :
    recordings (tr ++ os) = recordings tr ++ recordings os := List.filterMap_append

/-- Events without a recorded result. -/
theorem recorded_games_append (tr : List AccountEvent) {os : List AccountEvent}
    (hos : recordings os = []) : recorded_games (tr ++ os) = recorded_games tr := by
  unfold recorded_games
  rw [recordings_append, hos, List.append_nil]

theorem recorded_games_append_one (tr : List AccountEvent) (r : Report) (ended_at : Int) :
    recorded_games (tr ++ [.recorded r ended_at])
      = recorded_games tr ++ [game_of ((recorded_games tr).length + 1) r ended_at] := by
  unfold recorded_games
  rw [recordings_append, show recordings [.recorded r ended_at] = [(r, ended_at)] from rfl,
    List.mapIdx_append, List.length_mapIdx, List.mapIdx_singleton,
    Nat.zero_add]

end Said

/-! ## What the handlers know -/

namespace AccountServer

variable {R : Type*}

/-- A handler has a name and a password from the body of its request, and has not checked
them yet. -/
structure Holds (env : Outsiders R) (tr : List AccountEvent) (id : Nat) (request : HttpRequest)
    (username password : String) : Prop where
  method : request.method = "POST"
  body : credentials (env.parse request.body) = some (username, password)
  unchecked : checks_of tr id = []

/-- What a handler has seen before it goes on. -/
def Justified (env : Outsiders R) (tr : List AccountEvent) (thread : AccountThread) : Prop :=
  match thread.call with
  | .registering request username password => Holds env tr thread.id request username password
  | .looking_up request username password => Holds env tr thread.id request username password
  | .logging_in request username password =>
      Holds env tr thread.id request username password ∧ (registration tr username).isSome = true
  | .issuing request _ username _ =>
      request.method = "POST" ∧ Earned env tr thread.id request username
  | .reading request username => request.AsksHistory username ∧ ∃ token now,
      bearer_token request = some token ∧
        .presented thread.id token now (some username) ∈ tr
  | .session_login _ _ => True

variable {env : Outsiders R} {s s' : AccountServer} {tr os : List AccountEvent}
  {thread : AccountThread} {call : AccountCall} {i : Nat}

theorem registration_mono {username : String} (h : (registration tr username).isSome = true)
    (os : List AccountEvent) : (registration (tr ++ os) username).isSome = true := by
  rw [registration_append, Option.isSome_or, h]
  rfl

theorem checks_of_append_nil {id : Nat} (hos : checks_of os id = []) :
    checks_of (tr ++ os) id = checks_of tr id := by
  rw [checks_of_append, hos, List.append_nil]

/-- A handler goes on knowing what it knows, while others make their checks. -/
theorem Justified.mono (h : Justified env tr thread) (hos : checks_of os thread.id = []) :
    Justified env (tr ++ os) thread := by
  have hholds : ∀ {request username password}, Holds env tr thread.id request username password →
      Holds env (tr ++ os) thread.id request username password := fun h =>
    ⟨h.method, h.body, (checks_of_append_nil hos).trans h.unchecked⟩
  unfold Justified at h ⊢
  split at h
  · exact hholds h
  · exact hholds h
  · exact ⟨hholds h.1, registration_mono h.2 os⟩
  · refine ⟨h.1, ?_⟩
    obtain ⟨asker, salt, password, outcome, hchecks, hrest⟩ := h.2
    exact ⟨asker, salt, password, outcome, (checks_of_append_nil hos).trans hchecks, hrest⟩
  · obtain ⟨hasks, token, now, hbearer, hmem⟩ := h
    exact ⟨hasks, token, now, hbearer, List.mem_append_left os hmem⟩
  · trivial

/-- A handler that shows no history. -/
theorem Justified.post {request : HttpRequest} (h : Justified env tr thread)
    (hposted : thread.call.posted = some request) : request.method = "POST" := by
  unfold Justified at h
  cases hcall : thread.call <;> rw [hcall] at h hposted
  case registering => exact Option.some.inj hposted ▸ h.method
  case looking_up => exact Option.some.inj hposted ▸ h.method
  case logging_in => exact Option.some.inj hposted ▸ h.1.method
  case issuing => exact Option.some.inj hposted ▸ h.1
  case reading => cases hposted
  case session_login => cases hposted

theorem Justified.of_begins {remote_ip : String} {now : Int} {id : Nat} (h : call.Begins env)
    (hnew : checks_of tr id = []) : Justified env tr ⟨id, remote_ip, now, call⟩ := by
  cases h with
  | registering request username password method body => exact ⟨method, body, hnew⟩
  | looking_up request username password method body => exact ⟨method, body, hnew⟩
  | session_login username password => trivial

/-- Who may check a password for a request has not done so yet. -/
theorem Justified.holds {request : HttpRequest} {username password : String}
    (h : Justified env tr thread) (hchecks : thread.call.checks = some (username, password))
    (hposted : thread.call.posted = some request) :
    Holds env tr thread.id request username password := by
  unfold Justified at h
  cases hcall : thread.call <;> rw [hcall] at h hchecks hposted
  case registering =>
    obtain ⟨rfl, rfl⟩ := Prod.mk.inj (Option.some.inj hchecks)
    exact Option.some.inj hposted ▸ h
  case logging_in =>
    obtain ⟨rfl, rfl⟩ := Prod.mk.inj (Option.some.inj hchecks)
    exact Option.some.inj hposted ▸ h.1
  case looking_up => cases hchecks
  case issuing => cases hchecks
  case reading => cases hchecks
  case session_login => cases hposted

/-- A check is a transaction of the store. -/
theorem authenticates_eq {salt : List UInt8} {username password : String}
    {outcome : FullAuthOutcome} {checked : AccountEvent}
    (h : s.authenticates env thread salt username password = (s', outcome, checked)) :
    ∃ users, s.users.authenticate env.argon2 salt username password = (users, outcome) ∧
      s' = { s with users := users } ∧
      checked = .checked thread salt username password outcome := by
  unfold authenticates at h
  generalize s.users.authenticate env.argon2 salt username password = r at h ⊢
  obtain ⟨users, outcome'⟩ := r
  obtain ⟨rfl, hpair⟩ := Prod.mk.inj h
  obtain ⟨rfl, rfl⟩ := Prod.mk.inj hpair
  exact ⟨users, rfl, rfl, rfl⟩

/-! ## The numbers -/

/-- Events that are no news to the store and the tokens. -/
def Idle (os : List AccountEvent) : Prop := ∀ e ∈ os, match e with
  | .limited _ _ _ => True
  | .responded _ _ _ => True
  | _ => False

theorem idle_nil : Idle [] := fun _ he => absurd he List.not_mem_nil

theorem idle_responded (id : Nat) (request : HttpRequest) (response : HttpResponse) :
    Idle [.responded id request response] := by
  intro e he
  rw [List.mem_singleton.mp he]
  trivial

theorem idle_limited {remote_ip : String} {now : Int} {id : Nat} {rest : List AccountEvent}
    (hrest : rest = [] ∨ ∃ request response, request.method = "POST" ∧
      rest = [.responded id request response]) : Idle ((s.asks remote_ip now).2.2 :: rest) := by
  intro e he
  rcases List.mem_cons.mp he with rfl | he
  · trivial
  · rcases hrest with rfl | ⟨request, response, -, rfl⟩
    · exact absurd he List.not_mem_nil
    · exact idle_responded id request response e he

theorem idle_asked (s : AccountServer) (remote_ip : String) (now : Int) :
    Idle [(s.asks remote_ip now).2.2] := by
  intro e he
  rw [List.mem_singleton.mp he]
  trivial

theorem Replies.idle {rest : List AccountEvent} (h : Replies thread rest) : Idle rest := by
  rcases h with rfl | ⟨request, response, -, rfl⟩
  · exact idle_nil
  · exact idle_responded _ _ _

theorem Checked.idle {username : String} {outcome : FullAuthOutcome} {rest : List AccountEvent}
    (h : Checked i thread username outcome s s' rest) : Idle rest := by
  cases h with
  | passed => exact idle_nil
  | ended rest reply => exact reply.idle

theorem Idle.checks (h : Idle os) (id : Nat) : checks_of os id = [] := by
  refine List.filter_eq_nil_iff.mpr fun e he => ?_
  have := h e he
  cases e <;> first | exact Bool.false_ne_true | exact this.elim

/-- The checks of a step that checks. -/
theorem checks_of_checked {salt : List UInt8} {username password : String}
    {outcome : FullAuthOutcome} {rest : List AccountEvent} (hrest : Idle rest) (id : Nat) :
    checks_of (.checked thread salt username password outcome :: rest) id
      = if thread.id = id then [.checked thread salt username password outcome] else [] := by
  have hnone := hrest.checks id
  unfold checks_of at hnone ⊢
  by_cases hid : thread.id = id
  · rw [if_pos hid, List.filter_cons_of_pos (by simpa using hid), hnone]
  · rw [if_neg hid, List.filter_cons_of_neg (by simpa using hid), hnone]

def ids (s : AccountServer) : List Nat := s.threads.map AccountThread.id

/-- The handlers have numbers of their own, and whoever has none yet has checked nothing. -/
structure Numbered (s : AccountServer) (tr : List AccountEvent) : Prop where
  below : ∀ id ∈ s.ids, id < s.begun
  distinct : s.ids.Nodup
  past : ∀ id, s.begun ≤ id → checks_of tr id = []

theorem numbered_new : Numbered {} [] :=
  ⟨fun _ hid => absurd hid List.not_mem_nil, List.nodup_nil, fun _ _ => rfl⟩

theorem ids_starts (s : AccountServer) (thread : AccountThread) :
    (s.starts thread).ids = s.ids ++ [thread.id] := List.map_append

theorem ids_done (s : AccountServer) (i : Nat) : (s.done i).ids.Sublist s.ids :=
  (List.eraseIdx_sublist ..).map _

theorem ids_goes_on (here : s.threads[i]? = some thread) (call : AccountCall) :
    (s.goes_on i thread call).ids.Sublist s.ids := by
  have hsame : (s.goes_on i thread call).ids = s.ids := by
    obtain ⟨hi, rfl⟩ := List.getElem?_eq_some_iff.mp here
    unfold ids goes_on
    rw [List.map_set]
    dsimp only
    rw [← List.getElem_map AccountThread.id (h := by simpa using hi), List.set_getElem_self]
  rw [hsame]

theorem Numbered.here (h : Numbered s tr) (here : s.threads[i]? = some thread) :
    thread.id < s.begun :=
  h.below _ (List.mem_map_of_mem (List.mem_of_getElem? here))

/-- Another handler has another number. -/
theorem Numbered.other (h : Numbered s tr) (here : s.threads[i]? = some thread)
    {j : Nat} {other : AccountThread} (hj : s.threads[j]? = some other) (hne : j ≠ i) :
    other.id ≠ thread.id := by
  intro heq
  have hget : ∀ {k : Nat} {t : AccountThread}, s.threads[k]? = some t → s.ids[k]? = some t.id := by
    intro k t hk
    rw [ids, List.getElem?_map, hk]
    rfl
  have hlt := (List.getElem?_eq_some_iff.mp (hget hj)).1
  exact hne ((List.getElem?_inj hlt h.distinct).mp (by rw [hget hj, hget here, heq]))

/-- A step in which no handler begins. -/
theorem Numbered.kept (h : Numbered s tr) (hbegun : s'.begun = s.begun)
    (hids : s'.ids.Sublist s.ids) (hos : ∀ id, s.begun ≤ id → checks_of os id = []) :
    Numbered s' (tr ++ os) := by
  refine ⟨fun id hid => ?_, h.distinct.sublist hids, fun id hle => ?_⟩
  · rw [hbegun]
    exact h.below id (hids.subset hid)
  · rw [hbegun] at hle
    rw [checks_of_append_nil (hos id hle), h.past id hle]

/-- A step in which one begins. -/
theorem Numbered.more (h : Numbered s tr) (hbegun : s'.begun = s.begun + 1)
    (hids : s'.ids.Sublist (s.ids ++ [s.begun])) (hos : ∀ id, checks_of os id = []) :
    Numbered s' (tr ++ os) := by
  refine ⟨fun id hid => ?_, ?_, fun id hle => ?_⟩
  · rw [hbegun]
    rcases List.mem_append.mp (hids.subset hid) with hid | hid
    · exact Nat.lt_succ_of_lt (h.below id hid)
    · rw [List.mem_singleton.mp hid]
      exact Nat.lt_succ_self _
  · refine List.Nodup.sublist hids
      (List.nodup_append.mpr ⟨h.distinct, List.nodup_singleton _, ?_⟩)
    intro id hid other hother
    rw [List.mem_singleton.mp hother]
    exact (h.below id hid).ne
  · rw [checks_of_append_nil (hos id), h.past id (by omega)]

section Steps

variable {R : Type*} [Field R] [LinearOrder R] [FloorRing R] {env : Outsiders R}
  {s s' : AccountServer} {tr os : List AccountEvent}

/-- **Every step keeps the numbers.** -/
theorem Numbered.step {clock : Option Int} (h : Numbered s tr) (hdoes : Does env clock s s' os) :
    Numbered s' (tr ++ os) := by
  cases hdoes with
  | idle => exact h.kept rfl (.refl _) fun _ _ => rfl
  | answers request response closed => exact h.more rfl (List.sublist_append_left ..) fun _ => rfl
  | refuses remote_ip now time rest refusal =>
      exact h.more rfl (List.sublist_append_left ..) (idle_limited refusal).checks
  | begins remote_ip now time call allowed begins =>
      refine h.more rfl ?_ (s.idle_asked remote_ip now).checks
      rw [ids_starts]
      exact .refl _
  | turned_away token now time request response status =>
      exact h.more rfl (List.sublist_append_left ..) fun _ => rfl
  | let_in remote_ip request username token now time asks bearer owner =>
      refine h.more rfl ?_ fun _ => rfl
      rw [ids_starts]
      exact .refl _
  | checks i thread salt username password s₁ s₂ outcome checked rest here call run next =>
      obtain ⟨users, -, rfl, rfl⟩ := authenticates_eq run
      have hpast : ∀ id, s.begun ≤ id →
          checks_of (.checked thread salt username password outcome :: rest) id = [] := by
        intro id hle
        have hlt := h.here here
        rw [checks_of_checked next.idle, if_neg (by omega)]
      cases next with
      | passed request status ok posted =>
          exact h.kept rfl (ids_goes_on (s := { s with users := users }) here _) hpast
      | ended rest reply => exact h.kept rfl (ids_done _ i) hpast
  | finds i thread request username password here call found =>
      exact h.kept rfl (ids_goes_on here _) fun _ _ => rfl
  | misses i thread rest here reply =>
      exact h.kept rfl (ids_done s i) fun id _ => reply.idle.checks id
  | issues i thread request status username rating now raw here call =>
      exact h.kept rfl (ids_done _ i) fun _ _ => rfl
  | reads i thread request username here call =>
      exact h.kept rfl (ids_done s i) fun _ _ => rfl
  | rates r => exact h.kept rfl (.refl _) fun _ _ => rfl
  | records i r now here => exact h.kept rfl (.refl _) fun _ _ => rfl

end Steps

/-! ## The invariant -/

/-- The store, the tokens and the handlers, in terms of what has been said. -/
structure Honest (env : Outsiders R) (s : AccountServer) (tr : List AccountEvent) : Prop where
  hashes : ∀ username, s.users.password_hash username
    = (registration tr username).map fun r => hash_password env.argon2 r.1 r.2
  games : s.users.repository.games = recorded_games tr
  /-- Once the clock has passed every look-up. -/
  tokens : ∀ now, (∀ id token t owner, .presented id token t owner ∈ tr → t ≤ now) →
    Tracks s.tokens (issues tr) now
  threads : ∀ thread ∈ s.threads, Justified env tr thread
  numbered : Numbered s tr

theorem honest_new (env : Outsiders R) : Honest env {} [] where
  hashes _ := rfl
  games := rfl
  tokens _ _ := Tracks.empty _
  threads _ h := absurd h List.not_mem_nil
  numbered := numbered_new

theorem Honest.here (h : Honest env s tr) (here : s.threads[i]? = some thread) :
    Justified env tr thread := h.threads thread (List.mem_of_getElem? here)

/-- Nobody checks a password: the handlers that are left are justified. -/
theorem Honest.unchecked (h : Honest env s tr) (hos : ∀ id, checks_of os id = []) :
    ∀ t ∈ s.threads, Justified env (tr ++ os) t :=
  fun t ht => (h.threads t ht).mono (hos t.id)

/-- The same when a handler begins. -/
theorem Honest.starts (h : Honest env s tr) (hos : ∀ id, checks_of os id = [])
    (hthreads : s'.threads = s.threads) (hthread : Justified env (tr ++ os) thread) :
    ∀ t ∈ (s'.starts thread).threads, Justified env (tr ++ os) t := by
  intro t ht
  rcases List.mem_append.mp ht with ht | ht
  · exact h.unchecked hos t (hthreads ▸ ht)
  · rw [List.mem_singleton.mp ht]
    exact hthread

/-- When one handler checks a password, the others are justified. -/
theorem Honest.others (h : Honest env s tr) (here : s.threads[i]? = some thread)
    (hos : ∀ id, id ≠ thread.id → checks_of os id = []) :
    ∀ t ∈ (s.done i).threads, Justified env (tr ++ os) t := by
  intro t ht
  obtain ⟨j, hne, hj⟩ := List.mem_eraseIdx_iff_getElem?.mp ht
  exact (h.here hj).mono (hos t.id (h.numbered.other here hj hne))

/-- The same with what the one goes on to do. -/
theorem Honest.goes_on (h : Honest env s tr) (here : s.threads[i]? = some thread)
    (hos : ∀ id, id ≠ thread.id → checks_of os id = [])
    (hcall : Justified env (tr ++ os) { thread with call := call }) :
    ∀ t ∈ (s.goes_on i thread call).threads, Justified env (tr ++ os) t := by
  intro t ht
  obtain ⟨j, hj⟩ := List.mem_iff_getElem?.mp ht
  by_cases hne : j = i
  · obtain rfl := hne
    have hlt := (List.getElem?_eq_some_iff.mp here).1
    have hset : (s.threads.set j { thread with call := call })[j]? = some t := hj
    rw [List.getElem?_set_self hlt] at hset
    rw [← Option.some.inj hset]
    exact hcall
  · have hset : (s.threads.set i { thread with call := call })[j]? = some t := hj
    rw [List.getElem?_set_ne (Ne.symm hne)] at hset
    exact (h.here hset).mono (hos t.id (h.numbered.other here hset hne))

theorem Idle.said (h : Idle os) (tr : List AccountEvent) :
    (∀ username, registration (tr ++ os) username = registration tr username) ∧
      recorded_games (tr ++ os) = recorded_games tr ∧ issues (tr ++ os) = issues tr := by
  have hregistration : registration os = fun _ => none := by
    funext username
    refine List.findSome?_eq_none_iff.mpr fun e he => ?_
    have := h e he
    cases e <;> first | rfl | exact this.elim
  have hrecordings : recordings os = [] := by
    refine List.filterMap_eq_nil_iff.mpr fun e he => ?_
    have := h e he
    cases e <;> first | rfl | exact this.elim
  have hissues : ∀ t, os.foldl note_issue t = t := by
    intro t
    refine List.foldlRecOn (motive := (· = t)) os note_issue rfl ?_
    rintro _ rfl e he
    have := h e he
    cases e <;> first | rfl | exact this.elim
  refine ⟨fun username => ?_, recorded_games_append tr hrecordings, ?_⟩
  · rw [registration_append, hregistration, Option.or_none]
  · rw [issues_append, hissues]

/-- A step that is no news to the store and the tokens. -/
theorem Honest.idle (h : Honest env s tr) (hos : Idle os) (husers : s'.users = s.users)
    (htokens : s'.tokens = s.tokens) (hthreads : ∀ t ∈ s'.threads, Justified env (tr ++ os) t)
    (hnumbered : Numbered s' (tr ++ os)) : Honest env s' (tr ++ os) := by
  obtain ⟨hregistration, hgames, hissues⟩ := hos.said tr
  refine ⟨fun username => ?_, ?_, fun now hnow => ?_, hthreads, hnumbered⟩
  · rw [husers, hregistration]
    exact h.hashes username
  · rw [husers, hgames]
    exact h.games
  · rw [htokens, hissues]
    exact h.tokens now fun id token t owner hmem =>
      hnow id token t owner (List.mem_append_left os hmem)

/-! ## Steps -/

/-- What `authenticate` answers, by what is under the name. -/
def AnswersTo (argon2 : Argon2) (username password : String) (outcome : FullAuthOutcome) :
    Option String → Prop
  | some stored => outcome.newly_registered = false ∧
      outcome.ok = verify_password argon2 password stored ∧
      (outcome.ok = false → outcome.reason = auth_reasons.kWrongPassword)
  | none => outcome.ok = outcome.newly_registered ∧ outcome.newly_registered
      = (is_valid_new_username username && is_valid_new_password password)

/-- **The spec of `authenticate`.** -/
theorem authenticate_spec {argon2 : Argon2} {t t' : UserTable} {salt : List UInt8}
    {username password : String} {outcome : FullAuthOutcome}
    (h : t.authenticate argon2 salt username password = (t', outcome)) :
    AnswersTo argon2 username password outcome (t.password_hash username) ∧
      t'.repository.games = t.repository.games ∧
      ∀ name, t'.password_hash name
        = if username = name ∧ outcome.newly_registered = true then
          some (hash_password argon2 salt password)
        else t.password_hash name := by
  unfold UserTable.authenticate at h
  split at h
  · rename_i stored hstored
    rw [hstored]
    split_ifs at h with hverified <;> obtain ⟨rfl, rfl⟩ := Prod.mk.inj h
    · exact ⟨⟨rfl, hverified.symm, nofun⟩, rfl, fun name => (if_neg (by simp)).symm⟩
    · exact ⟨⟨rfl, (Bool.eq_false_iff.mpr hverified).symm, fun _ => rfl⟩, rfl,
        fun name => (if_neg (by simp)).symm⟩
  · rename_i hnone
    rw [hnone]
    split_ifs at h with hname hpassword <;> obtain ⟨rfl, rfl⟩ := Prod.mk.inj h
    · refine ⟨⟨rfl, by rw [hname, hpassword]; rfl⟩, rfl, fun name => ?_⟩
      by_cases heq : username = name
      · rw [if_pos ⟨heq, rfl⟩, ← heq]
        exact Function.update_self ..
      · rw [if_neg fun h => heq h.1]
        exact Function.update_of_ne (Ne.symm heq) ..
    · exact ⟨⟨rfl, by rw [Bool.eq_false_iff.mpr hpassword, Bool.and_false]⟩, rfl,
        fun name => (if_neg (by simp)).symm⟩
    · exact ⟨⟨rfl, by rw [Bool.eq_false_iff.mpr hname, Bool.false_and]⟩, rfl,
        fun name => (if_neg (by simp)).symm⟩

theorem registration_of_checked (salt : List UInt8) (username password name : String)
    (outcome : FullAuthOutcome) (rest : List AccountEvent) (hrest : Idle rest) :
    registration (.checked thread salt username password outcome :: rest) name
      = if username = name ∧ outcome.newly_registered = true then some (salt, password)
        else none := by
  have hnone : registration rest name = none := by
    have := (hrest.said []).1 name
    rwa [List.nil_append] at this
  unfold registration at hnone ⊢
  rw [List.findSome?_cons, hnone]
  dsimp only
  split_ifs <;> rfl

/-- A check leaves everything but the hashes alone. -/
theorem Honest.checks {s₂ : AccountServer} {salt : List UInt8} {username password : String}
    {rest : List AccountEvent} {outcome : FullAuthOutcome} {checked : AccountEvent}
    (h : Honest env s tr) (here : s.threads[i]? = some thread)
    (hchecks : thread.call.checks = some (username, password))
    (hrun : s.authenticates env thread salt username password = (s', outcome, checked))
    (hnext : Checked i thread username outcome s' s₂ rest)
    (hnumbered : Numbered s₂ (tr ++ checked :: rest)) : Honest env s₂ (tr ++ checked :: rest) := by
  obtain ⟨users, hauth, rfl, rfl⟩ := authenticates_eq hrun
  obtain ⟨hanswer, hgames, hhash⟩ := authenticate_spec hauth
  obtain ⟨husers, htokens⟩ : s₂.users = users ∧ s₂.tokens = s.tokens := by
    cases hnext <;> exact ⟨rfl, rfl⟩
  have hsplit : tr ++ AccountEvent.checked thread salt username password outcome :: rest
      = (tr ++ [.checked thread salt username password outcome]) ++ rest := by simp
  obtain ⟨-, hrecorded, hissues⟩ :=
    hnext.idle.said (tr ++ [.checked thread salt username password outcome])
  refine ⟨fun name => ?_, ?_, fun now hnow => ?_, ?_, hnumbered⟩
  · rw [husers, hhash, registration_append, registration_of_checked _ _ _ _ _ _ hnext.idle]
    by_cases hnew : username = name ∧ outcome.newly_registered = true
    · rw [if_pos hnew, if_pos hnew]
      obtain ⟨rfl, hnew⟩ := hnew
      -- a name that is registered now had no registration before
      have hnone : registration tr username = none := by
        rw [h.hashes username] at hanswer
        cases hr : registration tr username with
        | none => rfl
        | some r =>
            rw [hr] at hanswer
            exact absurd (hanswer.1.symm.trans hnew) nofun
      rw [hnone]
      rfl
    · rw [if_neg hnew, if_neg hnew, Option.or_none]
      exact h.hashes name
  · rw [husers, hgames, hsplit, hrecorded, h.games, recorded_games_append tr rfl]
  · rw [htokens, hsplit, hissues, issues_append]
    exact h.tokens now fun id token t owner hmem =>
      hnow id token t owner (List.mem_append_left _ hmem)
  · -- nobody else has checked anything
    have hothers : ∀ id, id ≠ thread.id →
        checks_of (.checked thread salt username password outcome :: rest) id = [] :=
      fun id hne => by rw [checks_of_checked hnext.idle, if_neg (Ne.symm hne)]
    cases hnext with
    | passed request status ok posted =>
        have hholds := (h.here here).holds hchecks posted
        refine h.goes_on here hothers ⟨hholds.method, thread, salt, password, outcome, ?_, posted,
          hholds.body, ok⟩
        rw [checks_of_append, hholds.unchecked, checks_of_checked idle_nil, if_pos rfl]
        rfl
    | ended rest reply => exact h.others here hothers

/-- The tokens after a look-up. -/
theorem Honest.presented (h : Honest env s tr) (id : Nat) (token : String) (now : Int)
    {rest : List AccountEvent} (hrest : Idle rest) (owner : Option String)
    (hthreads : ∀ t ∈ s'.threads, Justified env (tr ++ .presented id token now owner :: rest) t)
    (hnumbered : Numbered s' (tr ++ .presented id token now owner :: rest))
    (husers : s'.users = s.users)
    (htokens : s'.tokens = (AuthTokenStore.username_for s.tokens token now).1) :
    Honest env s' (tr ++ .presented id token now owner :: rest) := by
  have hsplit : tr ++ .presented id token now owner :: rest
      = (tr ++ [.presented id token now owner]) ++ rest := by simp
  obtain ⟨hregistration, hrecorded, hissues⟩ :=
    hrest.said (tr ++ [.presented id token now owner])
  refine ⟨fun name => ?_, ?_, fun later hlater => ?_, hthreads, hnumbered⟩
  · rw [husers, hsplit, hregistration, registration_append,
      show registration [.presented id token now owner] name = none from rfl, Option.or_none]
    exact h.hashes name
  · rw [husers, hsplit, hrecorded, h.games, recorded_games_append tr rfl]
  · rw [htokens, hsplit, hissues, issues_append]
    have htracks := h.tokens later fun id token t owner hmem =>
      hlater id token t owner (List.mem_append_left _ hmem)
    have hnow : now ≤ later :=
      hlater id token now owner (List.mem_append_right _ List.mem_cons_self)
    have hfound := htracks.find token now
    rwa [max_eq_left hnow] at hfound

variable [Field R] [LinearOrder R] [FloorRing R]

theorem apply_result_games (expected_score : Int → Int → R) (users : UserRepository) (r : Report) :
    (apply_result expected_score users r).games = users.games := by
  unfold apply_result apply_forfeit apply_game_result UserRepository.rerate
    UserRepository.rerate_pair
  split_ifs <;> split <;> rfl

/-- **Every step keeps it.** -/
theorem Honest.step {clock : Option Int} (h : Honest env s tr) (hdoes : Does env clock s s' os) :
    Honest env s' (tr ++ os) := by
  have hnumbered := h.numbered.step hdoes
  -- what was looked up before was looked up
  have hbefore : ∀ later, (∀ id token t owner, .presented id token t owner ∈ tr ++ os →
      t ≤ later) → Tracks s.tokens (issues tr) later := fun later hlater =>
    h.tokens later fun id token t owner hmem =>
      hlater id token t owner (List.mem_append_left _ hmem)
  cases hdoes with
  | idle =>
      rw [List.append_nil]
      exact h
  | answers request response closed =>
      exact h.idle (idle_responded _ _ _) rfl rfl (h.unchecked fun _ => rfl) hnumbered
  | refuses remote_ip now time rest refusal =>
      exact h.idle (idle_limited refusal) rfl rfl (h.unchecked (idle_limited refusal).checks)
        hnumbered
  | begins remote_ip now time call allowed begins =>
      have hidle := s.idle_asked remote_ip now
      have hnew : checks_of (tr ++ [(s.asks remote_ip now).2.2]) s.begun = [] :=
        (checks_of_append_nil (hidle.checks _)).trans (h.numbered.past _ (Nat.le_refl _))
      exact h.idle hidle rfl rfl (h.starts hidle.checks rfl (.of_begins begins hnew)) hnumbered
  | turned_away token now time request response status =>
      exact h.presented s.begun token now (idle_responded _ _ _) _ (h.unchecked fun _ => rfl)
        hnumbered rfl rfl
  | let_in remote_ip request username token now time asks bearer owner =>
      have hreads : Justified env (tr ++ [.presented s.begun token now (some username)])
          ⟨s.begun, remote_ip, now, .reading request username⟩ :=
        ⟨asks, token, now, bearer, List.mem_append_right _ List.mem_cons_self⟩
      exact h.presented s.begun token now idle_nil _ (h.starts (fun _ => rfl) rfl hreads)
        hnumbered rfl rfl
  | checks i thread salt username password s₁ s₂ outcome checked rest here call run next =>
      exact h.checks here call run next hnumbered
  | finds i thread request username password here call found =>
      have hthread := h.here here
      unfold Justified at hthread
      rw [call] at hthread
      have hregistered : (registration tr username).isSome = true := by
        have hsome : (s.users.password_hash username).isSome = true := found
        rw [h.hashes, Option.isSome_map] at hsome
        exact hsome
      have hfinds : Justified env tr
          { thread with call := .logging_in request username password } := ⟨hthread, hregistered⟩
      exact h.idle idle_nil rfl rfl (h.goes_on here (fun _ _ => rfl) (hfinds.mono rfl)) hnumbered
  | misses i thread rest here reply =>
      exact h.idle reply.idle rfl rfl (h.others here fun id _ => reply.idle.checks id) hnumbered
  | issues i thread request status username rating now raw here call =>
      set token := AuthTokenStore.random_hex_token raw
      set response := json_response status (auth_body username rating token)
      have hsplit : tr ++ [.issued thread.id token username now,
          .responded thread.id request response] = (tr ++ [.issued thread.id token username now]) ++
            [.responded thread.id request response] := by simp
      obtain ⟨hregistration, hrecorded, hissues⟩ := (idle_responded thread.id request response).said
        (tr ++ [.issued thread.id token username now])
      refine ⟨fun name => ?_, ?_, fun later hlater => ?_, h.others here fun _ _ => rfl, hnumbered⟩
      · rw [hsplit, hregistration, registration_append,
          show registration [.issued thread.id token username now] name = none from rfl,
          Option.or_none]
        exact h.hashes name
      · rw [hsplit, hrecorded, recorded_games_append tr rfl]
        exact h.games
      · rw [hsplit, hissues, issues_append]
        exact (hbefore later hlater).put token username _
  | reads i thread request username here call =>
      exact h.idle (idle_responded _ _ _) rfl rfl (h.others here fun _ _ => rfl) hnumbered
  | rates r =>
      refine ⟨fun name => ?_, ?_, fun later hlater => ?_, h.unchecked fun _ => rfl, hnumbered⟩
      · rw [registration_append, show registration [.rated r] name = none from rfl, Option.or_none]
        exact h.hashes name
      · rw [recorded_games_append tr rfl]
        exact (apply_result_games env.expected_score _ r).trans h.games
      · rw [issues_append]
        exact hbefore later hlater
  | records i r now here =>
      refine ⟨fun name => ?_, ?_, fun later hlater => ?_, h.unchecked fun _ => rfl, hnumbered⟩
      · rw [registration_append, show registration [.recorded r now] name = none from rfl,
          Option.or_none]
        exact h.hashes name
      · rw [recorded_games_append_one, ← h.games]
        exact record_result_games s.users.repository r now
      · rw [issues_append]
        exact hbefore later hlater

/-- **The run lemma.** -/
theorem honest_of_reach {C : AccountServer → List AccountEvent → Op → Prop}
    (hrun : Reach (exec env) C {} s tr) : Honest env s tr := by
  refine hrun.invariant (P := Honest env) (honest_new env) ?_
  intro s tr op s' os _ h _ hexec
  exact h.step (exec_does hexec)

end AccountServer

end KungFuChess
