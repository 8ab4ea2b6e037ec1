/-
What a step of the accounts can do.

`Does` has one case for each way a handler goes from one mutex to the next: it is
refused, it is let in, it checks a password, it issues a token, it reads. Later files
argue from it and leave the handlers folded.
-/
import KungFuChess.HttpApi

set_option autoImplicit false

namespace KungFuChess

open Machine http_api

/-- A request for the history of a user. -/
def HttpRequest.AsksHistory (request : HttpRequest) (username : String) : Prop :=
  request.method = "GET" ∧ after_head kHistoryPrefix request.uri = some username

namespace AccountCall

/-- The password a handler is about to check, and whose. -/
def checks : AccountCall → Option (String × String)
  | .registering _ username password => some (username, password)
  | .logging_in _ username password => some (username, password)
  | .session_login username password => some (username, password)
  | _ => none

/-- The request of a handler that will not show a history. -/
def posted : AccountCall → Option HttpRequest
  | .registering request _ _ => some request
  | .looking_up request _ _ => some request
  | .logging_in request _ _ => some request
  | .issuing request _ _ _ => some request
  | .reading _ _ => none
  | .session_login _ _ => none

/-- What the limiter lets begin. A handler has its name and password from the body. -/
inductive Begins {R : Type*} (env : Outsiders R) : AccountCall → Prop
  | registering (request : HttpRequest) (username password : String)
      (method : request.method = "POST")
      (body : credentials (env.parse request.body) = some (username, password)) :
      Begins env (.registering request username password)
  | looking_up (request : HttpRequest) (username password : String)
      (method : request.method = "POST")
      (body : credentials (env.parse request.body) = some (username, password)) :
      Begins env (.looking_up request username password)
  | session_login (username password : String) : Begins env (.session_login username password)

end AccountCall

namespace AccountServer

variable {R : Type*} [Field R] [LinearOrder R] [FloorRing R]

/-- The time a step is given, if it asks the limiter or looks a token up. -/
def Op.clock : Op → Option Int
  | .request _ _ now _ => some now
  | .login _ _ _ now => some now
  | _ => none

/-- What a handler says when it is done, if it says anything. -/
def Replies (thread : AccountThread) (rest : List AccountEvent) : Prop :=
  rest = [] ∨ ∃ request response, thread.call.posted = some request ∧
    rest = [.responded thread.id request response]

/-- What comes of a check: the next call is for the token, or there is none. -/
inductive Checked (i : Nat) (thread : AccountThread) (username : String)
    (outcome : FullAuthOutcome) (s : AccountServer) : AccountServer → List AccountEvent → Prop
  | passed (request : HttpRequest) (status : Nat) (ok : outcome.ok = true)
      (posted : thread.call.posted = some request) :
      Checked i thread username outcome s
        (s.goes_on i thread (.issuing request status username outcome.rating)) []
  | ended (rest : List AccountEvent) (reply : Replies thread rest) :
      Checked i thread username outcome s (s.done i) rest

/-- The tokens after a look-up. -/
def looks_up (s : AccountServer) (token : String) (now : Int) : AccountServer :=
  { s with tokens := (AuthTokenStore.username_for s.tokens token now).1 }

/-- The tokens after an issue. -/
def issues_token (s : AccountServer) (raw : List UInt8) (username : String) (now : Int) :
    AccountServer :=
  { s with tokens := (AuthTokenStore.issue s.tokens raw username now).1 }

/-- **What a step does**, at the time it is given. -/
inductive Does (env : Outsiders R) (clock : Option Int) (s : AccountServer) :
    AccountServer → List AccountEvent → Prop
  | idle : Does env clock s s []
  | answers (request : HttpRequest) (response : HttpResponse)
      (closed : ∀ username, request.AsksHistory username → response.status ≠ 200) :
      Does env clock s s.counted [.responded s.begun request response]
  | refuses (remote_ip : String) (now : Int) (time : clock = some now) (rest : List AccountEvent)
      (refusal : rest = [] ∨ ∃ request response, request.method = "POST" ∧
        rest = [.responded s.begun request response]) :
      Does env clock s (s.counted.asks remote_ip now).1 ((s.asks remote_ip now).2.2 :: rest)
  | begins (remote_ip : String) (now : Int) (time : clock = some now) (call : AccountCall)
      (allowed : (s.asks remote_ip now).2.1 = true) (begins : call.Begins env) :
      Does env clock s ((s.counted.asks remote_ip now).1.starts ⟨s.begun, remote_ip, now, call⟩)
        [(s.asks remote_ip now).2.2]
  | turned_away (token : String) (now : Int) (time : clock = some now) (request : HttpRequest)
      (response : HttpResponse) (status : response.status ≠ 200) :
      Does env clock s (s.counted.looks_up token now)
        [.presented s.begun token now (AuthTokenStore.username_for s.tokens token now).2,
          .responded s.begun request response]
  | let_in (remote_ip : String) (request : HttpRequest) (username token : String) (now : Int)
      (time : clock = some now) (asks : request.AsksHistory username)
      (bearer : bearer_token request = some token)
      (owner : (AuthTokenStore.username_for s.tokens token now).2 = some username) :
      Does env clock s
        ((s.counted.looks_up token now).starts
          ⟨s.begun, remote_ip, now, .reading request username⟩)
        [.presented s.begun token now (some username)]
  | checks (i : Nat) (thread : AccountThread) (salt : List UInt8) (username password : String)
      (s₁ s₂ : AccountServer) (outcome : FullAuthOutcome) (checked : AccountEvent)
      (rest : List AccountEvent) (here : s.threads[i]? = some thread)
      (call : thread.call.checks = some (username, password))
      (run : s.authenticates env thread salt username password = (s₁, outcome, checked))
      (next : Checked i thread username outcome s₁ s₂ rest) : Does env clock s s₂ (checked :: rest)
  | finds (i : Nat) (thread : AccountThread) (request : HttpRequest) (username password : String)
      (here : s.threads[i]? = some thread)
      (call : thread.call = .looking_up request username password)
      (found : s.users.user_exists username = true) :
      Does env clock s (s.goes_on i thread (.logging_in request username password)) []
  | misses (i : Nat) (thread : AccountThread) (rest : List AccountEvent)
      (here : s.threads[i]? = some thread) (reply : Replies thread rest) :
      Does env clock s (s.done i) rest
  | issues (i : Nat) (thread : AccountThread) (request : HttpRequest) (status : Nat)
      (username : String) (rating now : Int) (raw : List UInt8)
      (here : s.threads[i]? = some thread)
      (call : thread.call = .issuing request status username rating) :
      Does env clock s ((s.issues_token raw username now).done i)
        [.issued thread.id (AuthTokenStore.random_hex_token raw) username now,
          .responded thread.id request (json_response status
            (auth_body username rating (AuthTokenStore.random_hex_token raw)))]
  | reads (i : Nat) (thread : AccountThread) (request : HttpRequest) (username : String)
      (here : s.threads[i]? = some thread) (call : thread.call = .reading request username) :
      Does env clock s (s.done i) [.responded thread.id request (json_response 200
        (.array ((s.users.history_for env.order_by username).map game_entry)))]
  | rates (r : Report) :
      Does env clock s { s with
        users := s.users.updated (apply_result env.expected_score · r)
          (usernames_apply_result env.expected_score · r)
        results := s.results ++ [r] } [.rated r]
  | records (i : Nat) (r : Report) (now : Int) (here : s.results[i]? = some r) :
      Does env clock s { s with
        users := s.users.updated (record_result · r now) (usernames_record_result · r now)
        results := s.results.eraseIdx i } [.recorded r now]

variable {env : Outsiders R} {s s' : AccountServer} {os : List AccountEvent}

/-! ## The handlers -/

theorem handle_auth_does {remote_ip : String} {request : HttpRequest} {now : Int}
    {handler : HttpRequest → String → String → AccountCall} (hmethod : request.method = "POST")
    (hhandler : ∀ username password,
      credentials (env.parse request.body) = some (username, password) →
        (handler request username password).Begins env) :
    Does env (some now) s (s.counted.handle_auth env s.begun remote_ip request now handler).1
      (s.counted.handle_auth env s.begun remote_ip request now handler).2 := by
  have hrefused : ∀ status, Does env (some now) s (s.counted.asks remote_ip now).1
      [(s.asks remote_ip now).2.2, .responded s.begun request (empty_response status)] :=
    fun status => .refuses remote_ip now rfl _ (.inr ⟨request, _, hmethod, rfl⟩)
  unfold handle_auth
  dsimp only
  split_ifs with hallowed hsize
  · exact hrefused 413
  · split
    · exact hrefused 400
    · exact .begins remote_ip now rfl _ hallowed (hhandler _ _ ‹_›)
  · exact hrefused 429

theorem handle_history_does {remote_ip : String} {request : HttpRequest} {username : String}
    {now : Int} (hasks : request.AsksHistory username) :
    Does env (some now) s (s.counted.handle_history s.begun remote_ip request username now).1
      (s.counted.handle_history s.begun remote_ip request username now).2 := by
  unfold handle_history
  split
  · exact .answers request _ fun _ _ => by decide
  · rename_i token hbearer
    dsimp only
    cases howner : (AuthTokenStore.username_for s.counted.tokens token now).2 with
    | none =>
        have h : Does env (some now) s _ [.presented s.begun token now
            (AuthTokenStore.username_for s.counted.tokens token now).2, _] :=
          .turned_away token now rfl request (empty_response 401) (by decide)
        rwa [howner] at h
    | some owner =>
        dsimp only
        split_ifs with hne
        · have h : Does env (some now) s _ [.presented s.begun token now
              (AuthTokenStore.username_for s.counted.tokens token now).2, _] :=
            .turned_away token now rfl request (empty_response 403) (by decide)
          rwa [howner] at h
        · obtain rfl := not_not.mp hne
          exact .let_in remote_ip request owner token now rfl hasks hbearer howner

theorem dispatch_does {remote_ip : String} {request : HttpRequest} {now : Int}
    {rendered : String} :
    Does env (some now) s (s.counted.dispatch env s.begun remote_ip request now rendered).1
      (s.counted.dispatch env s.begun remote_ip request now rendered).2 := by
  unfold dispatch
  split_ifs with hhealth hmetrics hregister hlogin hget
  · refine .answers request _ fun username hasks => ?_
    obtain ⟨-, huri⟩ := hasks
    rw [hhealth.2] at huri
    exact absurd huri (by simp [after_head, kHistoryPrefix])
  · refine .answers request _ fun username hasks => ?_
    obtain ⟨-, huri⟩ := hasks
    rw [hmetrics.2] at huri
    exact absurd huri (by simp [after_head, kHistoryPrefix])
  · exact handle_auth_does hregister.1 fun username password hbody =>
      .registering request username password hregister.1 hbody
  · exact handle_auth_does hlogin.1 fun username password hbody =>
      .looking_up request username password hlogin.1 hbody
  · split
    · exact handle_history_does ⟨hget, ‹_›⟩
    · exact .answers request _ fun _ _ => by decide
  · exact .answers request _ fun _ _ => by decide

theorem session_login_does {remote_ip username password : String} {now : Int} :
    Does env (some now) s (s.counted.session_login s.begun remote_ip username password now).1
      (s.counted.session_login s.begun remote_ip username password now).2 := by
  unfold session_login
  dsimp only
  split_ifs with hallowed
  · exact .begins remote_ip now rfl _ hallowed (.session_login username password)
  · exact .refuses remote_ip now rfl [] (.inl rfl)

/-- A new account is one whose password was accepted. -/
theorem newly_registered_ok {argon2 : Argon2} {t : UserTable} {salt : List UInt8}
    {username password : String}
    (h : (t.authenticate argon2 salt username password).2.newly_registered = true) :
    (t.authenticate argon2 salt username password).2.ok = true := by
  unfold UserTable.authenticate at h ⊢
  split at h
  · split_ifs at h
  · split_ifs at h ⊢
    rfl

theorem proceed_does {i : Nat} {thread : AccountThread} {now : Int} {salt raw : List UInt8}
    (here : s.threads[i]? = some thread) :
    Does env none s (s.proceed env i thread now salt raw).1
      (s.proceed env i thread now salt raw).2 := by
  unfold proceed
  split
  · rename_i request username password hcall
    have hposted : thread.call.posted = some request := by rw [hcall]; rfl
    dsimp only
    split_ifs with hnew hreason
    · exact .checks i thread salt username password _ _ _ _ [] here (by rw [hcall]; rfl) rfl
        (.passed request 201 (newly_registered_ok hnew) hposted)
    · exact .checks i thread salt username password _ _ _ _ _ here (by rw [hcall]; rfl) rfl
        (.ended _ (.inr ⟨request, _, hposted, rfl⟩))
    · exact .checks i thread salt username password _ _ _ _ _ here (by rw [hcall]; rfl) rfl
        (.ended _ (.inr ⟨request, _, hposted, rfl⟩))
  · rename_i request username password hcall
    split_ifs with hfound
    · exact .finds i thread request username password here hcall hfound
    · exact .misses i thread _ here (.inr ⟨request, _, by rw [hcall]; rfl, rfl⟩)
  · rename_i request username password hcall
    have hposted : thread.call.posted = some request := by rw [hcall]; rfl
    dsimp only
    split_ifs with hok
    · exact .checks i thread salt username password _ _ _ _ [] here (by rw [hcall]; rfl) rfl
        (.passed request 200 hok hposted)
    · exact .checks i thread salt username password _ _ _ _ _ here (by rw [hcall]; rfl) rfl
        (.ended _ (.inr ⟨request, _, hposted, rfl⟩))
  · rename_i request status username rating hcall
    exact .issues i thread request status username rating now raw here hcall
  · rename_i request username hcall
    exact .reads i thread request username here hcall
  · rename_i username password hcall
    exact .checks i thread salt username password _ _ _ _ [] here (by rw [hcall]; rfl) rfl
      (.ended [] (.inl rfl))

/-- **The inversion of a step.** -/
theorem exec_does {op : Op} (h : exec env s op = .ok (s', os)) : Does env op.clock s s' os := by
  cases op with
  | request remote_ip request now rendered =>
      obtain ⟨rfl, rfl⟩ := Prod.mk.inj (Except.ok.inj h)
      exact dispatch_does
  | login remote_ip username password now =>
      obtain ⟨rfl, rfl⟩ := Prod.mk.inj (Except.ok.inj h)
      exact session_login_does
  | proceed i now salt raw =>
      rw [exec] at h
      split at h
      · obtain ⟨rfl, rfl⟩ := Prod.mk.inj (Except.ok.inj h)
        exact .idle
      · obtain ⟨rfl, rfl⟩ := Prod.mk.inj (Except.ok.inj h)
        exact proceed_does ‹_›
  | on_result r =>
      obtain ⟨rfl, rfl⟩ := Prod.mk.inj (Except.ok.inj h)
      exact .rates r
  | record_game i now =>
      rw [exec] at h
      split at h
      · obtain ⟨rfl, rfl⟩ := Prod.mk.inj (Except.ok.inj h)
        exact .idle
      · obtain ⟨rfl, rfl⟩ := Prod.mk.inj (Except.ok.inj h)
        exact .records i _ now ‹_›

end AccountServer

end KungFuChess
