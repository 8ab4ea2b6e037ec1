/-
**Who is told what.**

`Credentials` says what the store, the tokens and the handlers are, at any time. Here
it is said of the answers, one by one, with what has been said before them: a password
is accepted if it verifies against the one the name was registered with
(`one_password_each`), a token is issued by a handler that has accepted a password and told
in its answer (`issued_of_reach`), it is honoured for the account it was issued to and for
a day (`a_token_for_a_day`), and a history is shown to who holds such a token
(`history_is_private`). Between the calls of one handler any others may come.
-/
import KungFuChess.Credentials

set_option autoImplicit false

namespace KungFuChess

open Machine http_api password_hash ExpiringMap

namespace AccountServer

/-- What a step says that is no mere response, and what it says after that. -/
inductive News {R : Type*} (env : Outsiders R) (clock : Option Int) (s : AccountServer) :
    AccountEvent → List AccountEvent → Prop
  | presented (id : Nat) (token : String) (now : Int) (time : clock = some now)
      (rest : List AccountEvent) : News env clock s
        (.presented id token now (AuthTokenStore.username_for s.tokens token now).2) rest
  | checked (i : Nat) (thread : AccountThread) (salt : List UInt8) (username password : String)
      (users : UserTable) (outcome : FullAuthOutcome) (rest : List AccountEvent)
      (here : s.threads[i]? = some thread)
      (call : thread.call.checks = some (username, password))
      (auth : s.users.authenticate env.argon2 salt username password = (users, outcome)) :
      News env clock s (.checked thread salt username password outcome) rest
  | issued (i : Nat) (thread : AccountThread) (request : HttpRequest) (status : Nat)
      (token username : String) (rating now : Int) (here : s.threads[i]? = some thread)
      (call : thread.call = .issuing request status username rating) :
      News env clock s (.issued thread.id token username now)
        [.responded thread.id request
          (json_response status (auth_body username rating token))]
  | rated (r : Report) : News env clock s (.rated r) []
  | recorded (r : Report) (now : Int) : News env clock s (.recorded r now) []

section Steps

variable {R : Type*} [Field R] [LinearOrder R] [FloorRing R] {env : Outsiders R}
  {s s' : AccountServer} {tr os before after : List AccountEvent} {e : AccountEvent}
  {clock : Option Int}

/-- A step has at most one piece of news. -/
theorem Does.news (h : Does env clock s s' os) :
    Idle os ∨ ∃ e rest, os = e :: rest ∧ Idle rest ∧ News env clock s e rest := by
  cases h with
  | idle => exact .inl idle_nil
  | answers request response closed => exact .inl (idle_responded _ _ _)
  | refuses remote_ip now time rest refusal => exact .inl (idle_limited refusal)
  | begins remote_ip now time call allowed begins => exact .inl (s.idle_asked remote_ip now)
  | turned_away token now time request response status =>
      exact .inr ⟨_, _, rfl, idle_responded _ _ _, .presented s.begun token now time _⟩
  | let_in remote_ip request username token now time asks bearer owner =>
      rw [← owner]
      exact .inr ⟨_, _, rfl, idle_nil, .presented s.begun token now time _⟩
  | checks i thread salt username password s₁ s₂ outcome checked rest here call run next =>
      obtain ⟨users, hauth, rfl, rfl⟩ := authenticates_eq run
      exact .inr ⟨_, _, rfl, next.idle,
        .checked i thread salt username password users outcome rest here call hauth⟩
  | finds => exact .inl idle_nil
  | misses i thread rest here reply => exact .inl reply.idle
  | issues i thread request status username rating now raw here call =>
      exact .inr ⟨_, _, rfl, idle_responded _ _ _,
        .issued i thread request status _ username rating now here call⟩
  | reads => exact .inl (idle_responded _ _ _)
  | rates r => exact .inr ⟨_, _, rfl, idle_nil, .rated r⟩
  | records i r now here => exact .inr ⟨_, _, rfl, idle_nil, .recorded r now⟩

/-- The news of a step come first. -/
theorem Does.news_of_split (h : Does env clock s s' os) (hsplit : os = before ++ e :: after)
    (he : ¬ Idle [e]) : before = [] ∧ News env clock s e after := by
  have hnot : ∀ rest, Idle rest → e ∉ rest := by
    intro rest hrest hmem
    refine he fun x hx => ?_
    rw [List.mem_singleton.mp hx]
    exact hrest e hmem
  have hmem : e ∈ os := hsplit ▸ List.mem_append_right before List.mem_cons_self
  obtain hidle | ⟨x, rest, hos, hrest, hnews⟩ := h.news
  · exact absurd hmem (hnot os hidle)
  · cases before with
    | nil =>
        obtain ⟨rfl, rfl⟩ := List.cons.inj (hos.symm.trans hsplit)
        exact ⟨rfl, hnews⟩
    | cons y before =>
        obtain ⟨-, hlater⟩ := List.cons.inj (hos.symm.trans hsplit)
        exact absurd (hlater ▸ List.mem_append_right before List.mem_cons_self) (hnot rest hrest)

/-- **The rule for news**, over honest states. -/
theorem honest_events {C : AccountServer → List AccountEvent → Op → Prop}
    {Q : List AccountEvent → AccountEvent → List AccountEvent → Prop}
    (hrun : Reach (exec env) C {} s tr)
    (hmore : ∀ before e after os, Q before e after → Q before e (after ++ os))
    (hquiet : ∀ before e after, Idle [e] → Q before e after)
    (hnews : ∀ s before op, Honest env s before → C s before op → ∀ e after,
      News env op.clock s e after → Q before e after)
    (hsplit : tr = before ++ e :: after) : Q before e after := by
  refine hrun.events_between hmore ?_ hsplit
  intro s tr op s' os hr hc hexec before e after hos
  by_cases he : Idle [e]
  · exact hquiet _ e after he
  · obtain ⟨rfl, hn⟩ := (exec_does hexec).news_of_split hos he
    rw [List.append_nil]
    exact hnews s tr op (honest_of_reach hr) hc e after hn

/-- A history is shown by a handler that reads it. -/
theorem Does.shown {id : Nat} {request : HttpRequest} {response : HttpResponse} {username : String}
    (h : Does env clock s s' os) (hs : Honest env s tr)
    (hsplit : os = before ++ .responded id request response :: after)
    (hasks : request.AsksHistory username) (hok : response.status = 200) :
    before = [] ∧ (∃ token now, bearer_token request = some token ∧
        .presented id token now (some username) ∈ tr) ∧
      response = json_response 200
        (.array ((s.users.history_for env.order_by username).map game_entry)) := by
  have hmem : AccountEvent.responded id request response ∈ os :=
    hsplit ▸ List.mem_append_right before List.mem_cons_self
  -- whoever shows no history was asked by `POST`
  have hpost : request.method ≠ "POST" := by
    rw [hasks.1]
    decide
  have hreply : ∀ {i : Nat} {thread : AccountThread} {rest : List AccountEvent},
      s.threads[i]? = some thread → Replies thread rest →
      AccountEvent.responded id request response ∉ rest := by
    rintro i thread rest here (rfl | ⟨other, reply, hposted, rfl⟩) hmem
    · exact List.not_mem_nil hmem
    · obtain ⟨-, rfl, rfl⟩ := AccountEvent.responded.inj (List.mem_singleton.mp hmem)
      exact hpost ((hs.here here).post hposted)
  cases h with
  | idle => exact absurd hmem List.not_mem_nil
  | answers request' response' closed =>
      obtain ⟨-, rfl, rfl⟩ := AccountEvent.responded.inj (List.mem_singleton.mp hmem)
      exact absurd hok (closed username hasks)
  | refuses remote_ip now time rest refusal =>
      have hrest := (List.mem_cons.mp hmem).resolve_left nofun
      rcases refusal with rfl | ⟨other, reply, hmethod, rfl⟩
      · exact absurd hrest List.not_mem_nil
      · obtain ⟨-, rfl, rfl⟩ := AccountEvent.responded.inj (List.mem_singleton.mp hrest)
        exact absurd hmethod hpost
  | begins remote_ip now time call allowed begins =>
      exact absurd (List.mem_singleton.mp hmem) nofun
  | turned_away token now time request' response' status =>
      have hrest := (List.mem_cons.mp hmem).resolve_left nofun
      obtain ⟨-, rfl, rfl⟩ := AccountEvent.responded.inj (List.mem_singleton.mp hrest)
      exact absurd hok status
  | let_in remote_ip request' username' token now time asks bearer owner =>
      exact absurd (List.mem_singleton.mp hmem) nofun
  | checks i thread salt username' password s₁ s₂ outcome checked rest here call run next =>
      obtain ⟨users, -, -, rfl⟩ := authenticates_eq run
      have hrest := (List.mem_cons.mp hmem).resolve_left nofun
      cases next with
      | passed => exact absurd hrest List.not_mem_nil
      | ended rest reply => exact absurd hrest (hreply here reply)
  | finds => exact absurd hmem List.not_mem_nil
  | misses i thread rest here reply => exact absurd hmem (hreply here reply)
  | issues i thread request' status username' rating now raw here call =>
      have hrest := (List.mem_cons.mp hmem).resolve_left nofun
      obtain ⟨-, rfl, rfl⟩ := AccountEvent.responded.inj (List.mem_singleton.mp hrest)
      exact absurd ((hs.here here).post (by rw [call]; rfl)) hpost
  | reads i thread request' username' here call =>
      obtain ⟨rfl, rfl, rfl⟩ := AccountEvent.responded.inj (List.mem_singleton.mp hmem)
      have hjustified := hs.here here
      unfold Justified at hjustified
      rw [call] at hjustified
      obtain rfl : username' = username :=
        Option.some.inj (hjustified.1.2.symm.trans hasks.2)
      refine ⟨?_, hjustified.2, rfl⟩
      cases before with
      | nil => rfl
      | cons x before => exact absurd (List.cons.inj hsplit).2 (by simp)
  | rates r => exact absurd (List.mem_singleton.mp hmem) nofun
  | records i r now here => exact absurd (List.mem_singleton.mp hmem) nofun

/-! ## Tokens -/

/-- The token's last issue so far was to this account, less than a day ago. -/
def IssuedTo (tr : List AccountEvent) (token username : String) (now : Int) : Prop :=
  ∃ first id mid issued_at, tr = first ++ .issued id token username issued_at :: mid ∧
    (∀ other name at_, .issued other token name at_ ∉ mid) ∧
    now < issued_at + AuthTokenStore.kTokenLifetime

theorem issuedTo_iff {token username : String} {now : Int} :
    IssuedTo tr token username now ↔
      ∃ e, issues tr token = some e ∧ e.value = username ∧ now < e.expires_at := by
  constructor
  · rintro ⟨first, id, mid, issued_at, rfl, hmid, hlive⟩
    refine ⟨⟨username, issued_at + AuthTokenStore.kTokenLifetime⟩, ?_, rfl, hlive⟩
    rw [issues_append, List.foldl_cons]
    -- nothing after the issue touches the token
    refine List.foldlRecOn (motive := fun t : AuthTokenStore => t token
      = some ⟨username, issued_at + AuthTokenStore.kTokenLifetime⟩) mid note_issue
      (put_same _ _ _ _) ?_
    intro t ht e he
    cases e with
    | issued id other name at_ =>
        have hne : token ≠ other := fun heq => hmid id name at_ (heq ▸ he)
        exact (put_other t hne _ _).trans ht
    | _ => exact ht
  · rintro ⟨e, he, rfl, hlive⟩
    obtain ⟨first, id, mid, issued_at, htr, hmid, hexpires⟩ := issues_spec he
    exact ⟨first, id, mid, issued_at, htr, hmid, hexpires ▸ hlive⟩

/-- A token that is honoured was issued, whatever the clock does. -/
theorem honoured_of_reach {C : AccountServer → List AccountEvent → Op → Prop}
    (hrun : Reach (exec env) C {} s tr) {id : Nat} {token username : String} {now : Int}
    (hsplit : tr = before ++ .presented id token now (some username) :: after) :
    IssuedTo before token username now := by
  refine honest_events (Q := fun before e _ => ∀ id token now username,
    e = .presented id token now (some username) → IssuedTo before token username now)
    hrun (fun _ _ _ _ h => h) ?_ ?_ hsplit id token now username rfl
  · rintro before e after he id token now username rfl
    exact (he _ (List.mem_singleton_self _)).elim
  · rintro s before op hs - e after hn id token now username rfl
    generalize howner : some username = owner at hn
    cases hn with
    | presented =>
        -- some time after every look-up so far
        obtain ⟨last, hlast⟩ := (before.filterMap fun
          | .presented _ _ t _ => some t
          | _ => none).toFinset.exists_le
        have htracks := hs.tokens last fun id token t owner hmem => hlast t
          (List.mem_toFinset.mpr (List.mem_filterMap.mpr ⟨_, hmem, rfl⟩))
        exact issuedTo_iff.mpr (find_some htracks howner.symm)

/-- **A token is issued by a handler that has accepted a password**: the only one it has
checked, which came with the name in the body of its request. The answer to that request
has the token. -/
theorem issued_of_reach {C : AccountServer → List AccountEvent → Op → Prop}
    (hrun : Reach (exec env) C {} s tr) {id : Nat} {token username : String} {now : Int}
    (hsplit : tr = before ++ .issued id token username now :: after) :
    ∃ request status rating rest, Earned env before id request username ∧
      after = .responded id request
        (json_response status (auth_body username rating token)) :: rest := by
  refine honest_events (Q := fun before e after => ∀ id token username now,
    e = .issued id token username now → ∃ request status rating rest,
      Earned env before id request username ∧ after = .responded id request
        (json_response status (auth_body username rating token)) :: rest)
    hrun ?_ ?_ ?_ hsplit id token username now rfl
  · rintro before e after os h id token username now he
    obtain ⟨request, status, rating, rest, hearned, rfl⟩ := h id token username now he
    exact ⟨request, status, rating, rest ++ os, hearned, rfl⟩
  · rintro before e after he id token username now rfl
    exact (he _ (List.mem_singleton_self _)).elim
  · rintro s before op hs - e after hn id token username now rfl
    cases hn with
    | issued i thread request status _ _ rating _ here call =>
        have hjustified := hs.here here
        unfold Justified at hjustified
        rw [call] at hjustified
        exact ⟨request, status, rating, [], hjustified.2, rfl⟩

/-! ## The clock -/

/-- The steady clock has not gone back since the limiter was last asked, or a token last
looked up. -/
def Clocked (_ : AccountServer) (tr : List AccountEvent) (op : Op) : Prop :=
  ∀ now ∈ op.clock, ∀ e ∈ tr, match e with
    | .limited _ t _ => t ≤ now
    | .presented _ _ t _ => t ≤ now
    | _ => True

instance (s : AccountServer) (tr : List AccountEvent) (op : Op) : Decidable (Clocked s tr op) := by
  unfold Clocked
  have : ∀ (now : Int) (e : AccountEvent), Decidable (match e with
      | .limited _ t _ => t ≤ now
      | .presented _ _ t _ => t ≤ now
      | _ => True) := by
    intro now e
    cases e <;> infer_instance
  infer_instance

end Steps

/-- The answer to a check, by what the name was registered with. -/
def AnswersBy (argon2 : Argon2) (thread : AccountThread) (username password : String)
    (outcome : FullAuthOutcome) : Option (List UInt8 × String) → Prop
  | none => outcome.newly_registered
        = (is_valid_new_username username && is_valid_new_password password) ∧
      outcome.ok = outcome.newly_registered ∧
      ∀ request, thread.call ≠ .logging_in request username password
  | some (salt₀, password₀) => outcome.newly_registered = false ∧
      outcome.ok = verify_password argon2 password (hash_password argon2 salt₀ password₀) ∧
      (password = password₀ → outcome.ok = true)

/-! ## The results -/

section Results

variable {R : Type*} [Field R] [LinearOrder R] [FloorRing R] {env : Outsiders R}
  {s : AccountServer} {tr before after : List AccountEvent}

/-- **One password for each name.** In every run, whoever else is registered, logs in or is
rated in between: the first password that a valid name comes with registers it, and from
then on a password is accepted, on whichever way it comes, exactly if it verifies against
that one. A login over HTTP never registers. -/
theorem one_password_each (hargon2 : env.argon2.Documented)
    (hrun : Reach (exec env) anyStep {} s tr) {thread : AccountThread} {salt : List UInt8}
    {username password : String} {outcome : FullAuthOutcome}
    (hsplit : tr = before ++ .checked thread salt username password outcome :: after) :
    AnswersBy env.argon2 thread username password outcome (registration before username) := by
  refine honest_events (Q := fun before e _ => ∀ thread salt username password outcome,
    e = .checked thread salt username password outcome →
      AnswersBy env.argon2 thread username password outcome (registration before username))
    hrun (fun _ _ _ _ h => h) ?_ ?_ hsplit thread salt username password outcome rfl
  · rintro before e after he thread salt username password outcome rfl
    exact (he _ (List.mem_singleton_self _)).elim
  · rintro s before op hs - e after hn thread salt username password outcome rfl
    cases hn with
    | checked i thread salt username password users outcome rest here call auth =>
        obtain ⟨hanswer, -, -⟩ := authenticate_spec auth
        rw [hs.hashes] at hanswer
        cases hr : registration before username with
        | none =>
            rw [hr] at hanswer
            refine ⟨hanswer.2, hanswer.1, fun request hcall => ?_⟩
            -- a login over HTTP has found the name
            have hjustified := hs.here here
            unfold Justified at hjustified
            rw [hcall] at hjustified
            exact absurd hjustified.2 (by rw [hr]; decide)
        | some r =>
            rw [hr] at hanswer
            refine ⟨hanswer.1, hanswer.2.1, ?_⟩
            rintro rfl
            rw [hanswer.2.1]
            exact verify_password_hash_password hargon2 r.1 r.2

/-- **A token for a day.** While the clock does not go back, a token is honoured for an
account exactly if it was last issued to it, and less than a day ago; that tokens are
taken out only when they are looked up makes no difference. -/
theorem a_token_for_a_day (hrun : Reach (exec env) Clocked {} s tr) {id : Nat} {token : String}
    {now : Int} {owner : Option String}
    (hsplit : tr = before ++ .presented id token now owner :: after) (username : String) :
    owner = some username ↔ IssuedTo before token username now := by
  refine honest_events (Q := fun before e _ => ∀ id token now owner,
    e = .presented id token now owner →
      (owner = some username ↔ IssuedTo before token username now))
    hrun (fun _ _ _ _ h => h) ?_ ?_ hsplit id token now owner rfl
  · rintro before e after he id token now owner rfl
    exact (he _ (List.mem_singleton_self _)).elim
  · rintro s before op hs hclock e after hn id token now owner rfl
    cases hn with
    | presented _ _ _ time =>
        have htracks := hs.tokens now fun id token t owner hmem => hclock now time _ hmem
        have hfound : (AuthTokenStore.username_for s.tokens token now).2
            = ExpiringMap.live (issues before) token now := find_eq htracks (le_refl now)
        rw [hfound, issuedTo_iff]
        unfold ExpiringMap.live
        simp only [Option.map_eq_some_iff, Option.filter_eq_some_iff, decide_eq_true_eq]
        constructor
        · rintro ⟨e, ⟨he, hlive⟩, hvalue⟩
          exact ⟨e, he, hvalue, hlive⟩
        · rintro ⟨e, he, hvalue, hlive⟩
          exact ⟨e, ⟨he, hlive⟩, hvalue⟩

/-- **A history is private**, and all there is. In every run, a history is shown only for a
token that the handler has itself looked up, less than a day after it was last issued, and
that to the very account; the handler that issued it had accepted a password for the
account, the only one it had checked, which had come with the name in the body of the
request it then answered with the token. What is shown is the games recorded of the account
so far, each once, the latest first. -/
theorem history_is_private (horder : env.OrdersByEnd) (hrun : Reach (exec env) anyStep {} s tr)
    {reader : Nat} {request : HttpRequest} {response : HttpResponse} {username : String}
    (hsplit : tr = before ++ .responded reader request response :: after)
    (hasks : request.AsksHistory username) (hok : response.status = 200) :
    (∃ token first writer asked status rating mid later issued_at now,
      bearer_token request = some token ∧
      before = (first ++ .issued writer token username issued_at ::
          .responded writer asked (json_response status (auth_body username rating token)) :: mid)
        ++ .presented reader token now (some username) :: later ∧
      (∀ id name at_, .issued id token name at_ ∉ mid) ∧
      now < issued_at + AuthTokenStore.kTokenLifetime ∧ Earned env first writer asked username) ∧
    ∃ games : List GameRecord, games.Perm (games_of before username) ∧
      games.Pairwise (fun game next => next.ended_at ≤ game.ended_at) ∧
      response = json_response 200 (.array (games.map game_entry)) := by
  have hshown : (∃ token now, bearer_token request = some token ∧
        .presented reader token now (some username) ∈ before) ∧
      response = json_response 200
        (.array ((env.order_by (games_of before username)).map game_entry)) := by
    refine hrun.events (Q := fun before e => ∀ response, e = .responded reader request response →
      response.status = 200 → (∃ token now, bearer_token request = some token ∧
        .presented reader token now (some username) ∈ before) ∧
          response = json_response 200
            (.array ((env.order_by (games_of before username)).map game_entry)))
      ?_ hsplit response rfl hok
    rintro s tr op s' os hr - hexec before e after hos response rfl hok
    have hs := honest_of_reach hr
    obtain ⟨rfl, hpresented, rfl⟩ := (exec_does hexec).shown hs hos hasks hok
    rw [List.append_nil]
    refine ⟨hpresented, ?_⟩
    unfold games_of UserTable.history_for
    rw [hs.games]
  obtain ⟨⟨token, now, hbearer, hmem⟩, hresponse⟩ := hshown
  refine ⟨?_, _, horder.rows _, horder.latest_first _, hresponse⟩
  obtain ⟨earlier, later, rfl⟩ := List.append_of_mem hmem
  -- the look-up, the issue before it, and the check before that
  have hlooked : tr = earlier ++ .presented reader token now (some username)
      :: (later ++ .responded reader request response :: after) := by
    rw [hsplit, List.append_assoc, List.cons_append]
  obtain ⟨first, writer, mid, issued_at, rfl, hmid, hlive⟩ := honoured_of_reach hrun hlooked
  have hissued : tr = first ++ .issued writer token username issued_at
      :: (mid ++ .presented reader token now (some username)
        :: (later ++ .responded reader request response :: after)) := by
    rw [hlooked, List.append_assoc, List.cons_append]
  obtain ⟨asked, status, rating, rest, hearned, hanswer⟩ := issued_of_reach hrun hissued
  -- the answer with the token is the first thing after the issue
  cases mid with
  | nil => exact absurd (List.cons.inj hanswer).1 nofun
  | cons answer mid =>
      obtain ⟨rfl, -⟩ := List.cons.inj hanswer
      exact ⟨token, first, writer, asked, status, rating, mid, later, issued_at, now, hbearer, rfl,
        fun id name at_ h => hmid id name at_ (List.mem_cons_of_mem _ h), hlive, hearned⟩

/-! ### Alice -/

def alice_body : String := "\x7b\"username\":\"alice\",\"password\":\"wonderland\"\x7d"

def alice_registers : HttpRequest := ⟨"POST", "/api/auth/register", none, alice_body⟩

def alice_asks : HttpRequest := ⟨"GET", "/api/history/alice", some "Bearer 1f", ""⟩

/-- An account server on which one body is read, and passwords are kept as they are. -/
def alice_online : Outsiders ℚ where
  parse text := if text = alice_body then
      some (.of_pairs [("username", .string "alice"), ("password", .string "wonderland")])
    else none
  argon2 := ⟨fun _ password => "$argon2id$" ++ password,
    fun stored password => stored = "$argon2id$" ++ password⟩
  order_by rows := rows.insertionSort fun a b => b.ended_at ≤ a.ended_at
  expected_score _ _ := 1 / 2

theorem alice_online_documented : alice_online.argon2.Documented where
  encoded _ password := by
    show _ <+: ("$argon2id$" ++ password).toList
    rw [String.toList_append]
    exact List.prefix_append _ _
  verifies _ _ := decide_eq_true rfl

theorem alice_online_orders : alice_online.OrdersByEnd where
  rows := List.perm_insertionSort _
  latest_first rows :=
    have : Std.Total fun a b : GameRecord => b.ended_at ≤ a.ended_at :=
      ⟨fun a b => le_total b.ended_at a.ended_at⟩
    have : IsTrans GameRecord fun a b => b.ended_at ≤ a.ended_at :=
      ⟨fun _ _ _ h₁ h₂ => le_trans h₂ h₁⟩
    List.pairwise_insertionSort _ rows

/-- She registers and is issued a token, wins a game, and asks for her history; then
somebody tries another password. -/
def alice_plays : List Op :=
  [.request "::1" alice_registers 0 "", .proceed 0 1 [] [], .proceed 0 2 [] [0x1f],
    .on_result ⟨.Decisive, some .White, "alice", "bob", 0⟩, .record_game 0 60,
    .request "::1" alice_asks 3 "", .proceed 0 4 [] [],
    .login "::2" "alice" "queen" 5, .proceed 0 6 [] []]

theorem split_of_any {α : Type*} {p : α → Bool} {l : List α} (h : l.any p = true) :
    ∃ before e after, l = before ++ e :: after ∧ p e = true := by
  obtain ⟨e, hmem, he⟩ := List.any_eq_true.mp h
  obtain ⟨before, after, rfl⟩ := List.append_of_mem hmem
  exact ⟨before, e, after, rfl, he⟩

/-- Her history is shown for the token she was told when she had given her password. -/
theorem alice_sees_her_history : ∃ s tr before after reader response,
    run (exec alice_online) {} alice_plays = .ok (s, tr) ∧
    tr = before ++ .responded reader alice_asks response :: after ∧
    (∃ games : List GameRecord, games.Perm (games_of before "alice") ∧
      response = json_response 200 (.array (games.map game_entry))) ∧
    ∃ token first writer asked issued_at later,
      before = first ++ .issued writer token "alice" issued_at :: later ∧
      Earned alice_online first writer asked "alice" := by
  obtain ⟨⟨s, tr⟩, hrun, hp⟩ := exists_ok_such (p := fun r => r.2.any fun
      | .responded _ request response => request = alice_asks ∧ response.status = 200
      | _ => false)
    (x := run (exec alice_online) {} alice_plays) (by decide)
  obtain ⟨before, e, after, htr, he⟩ := split_of_any hp
  cases e with
  | responded reader request response =>
      obtain ⟨rfl, hok⟩ := of_decide_eq_true he
      have hasks : alice_asks.AsksHistory "alice" := ⟨rfl, by decide⟩
      obtain ⟨⟨token, first, writer, asked, status, rating, mid, later, issued_at, now, -, rfl, -,
        -, hearned⟩, games, hgames, -, hresponse⟩ :=
        history_is_private alice_online_orders (reach_of_run hrun) htr hasks hok
      exact ⟨s, tr, _, after, reader, response, hrun, htr, ⟨games, hgames, hresponse⟩, token,
        first, writer, asked, issued_at, _, List.append_assoc .., hearned⟩
  | _ => cases he

/-- Her token is honoured. -/
theorem alice_has_a_token : ∃ s tr before after id token now,
    run (exec alice_online) {} alice_plays = .ok (s, tr) ∧
    tr = before ++ .presented id token now (some "alice") :: after ∧
    IssuedTo before token "alice" now := by
  obtain ⟨⟨s, tr⟩, hrun, hp⟩ := exists_ok_such (p := fun r => r.2.any fun
      | .presented _ _ _ owner => owner = some "alice"
      | _ => false)
    (x := run (exec alice_online) {} alice_plays) (by decide)
  obtain ⟨before, e, after, htr, he⟩ := split_of_any hp
  cases e with
  | presented id token now owner =>
      obtain rfl := of_decide_eq_true he
      have hreach := reach_of_meets (C := Clocked) (by decide) hrun
      exact ⟨s, tr, before, after, id, token, now, hrun, htr,
        (a_token_for_a_day hreach htr "alice").mp rfl⟩
  | _ => cases he

def is_refusal (username password : String) : AccountEvent → Bool
  | .checked _ _ tried_username tried_password outcome =>
      outcome.ok = false ∧ tried_username = username ∧ tried_password = password
  | _ => false

/-- Another password is not accepted. -/
theorem alice_keeps_her_password : ∃ s tr before after thread salt outcome,
    run (exec alice_online) {} alice_plays = .ok (s, tr) ∧
    tr = before ++ .checked thread salt "alice" "queen" outcome :: after ∧
    AnswersBy alice_online.argon2 thread "alice" "queen" outcome (registration before "alice") ∧
    outcome.ok = false := by
  obtain ⟨⟨s, tr⟩, hrun, hp⟩ := exists_ok_such (p := fun r => r.2.any (is_refusal "alice" "queen"))
    (x := run (exec alice_online) {} alice_plays) (by decide)
  obtain ⟨before, e, after, htr, he⟩ := split_of_any hp
  cases e with
  | checked thread salt username password outcome =>
      obtain ⟨hrefused, rfl, rfl⟩ := of_decide_eq_true he
      exact ⟨s, tr, before, after, thread, salt, outcome, hrun, htr,
        one_password_each alice_online_documented (reach_of_run hrun) htr, hrefused⟩
  | _ => cases he

end Results

end AccountServer

end KungFuChess
