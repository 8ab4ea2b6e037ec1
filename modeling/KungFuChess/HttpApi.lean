/-
**The HTTP API**: `kfc/server/http_api.cpp`, over the accounts, the tokens and the
limiter, with the other callers of these: the sessions' `handle_login` and the results
of the matches.

Every request has a thread of its own. A handler takes the mutex of the limiter, of the
store or of the tokens for one call at a time, and in between any other handler may go
on. A step is what one handler does from taking a mutex to taking the next:
`AccountCall` is what it still has to do.

What was said to whom is the output of a step, with the number of the handler that says
it: the handlers are numbered as they begin. The body of a request is parsed by the JSON
library, a parameter; the text of `/metrics` is an input; the headers of a request are
left out but for the one that is read.
-/
import KungFuChess.RateLimiter
import KungFuChess.UserTable

set_option autoImplicit false

namespace KungFuChess

open Machine

/-- `ix::HttpRequest`, as far as it is read. -/
structure HttpRequest where
  method : String
  uri : String
  /-- `headers.find("Authorization")`. -/
  authorization : Option String := none
  body : String := ""
deriving DecidableEq

/-- A body is text; what is dumped from a value is kept as the value. -/
inductive HttpBody
  | json (value : Json)
  | text (value : String)

/-- `ix::HttpResponse`. -/
structure HttpResponse where
  status : Nat
  description : String
  content_type : String
  body : HttpBody

namespace http_api

def kHistoryPrefix : String := "/api/history/"
def kMaxHttpBodyBytes : Nat := 64 * 1024
def kBearerPrefix : String := "Bearer "

def reason_phrase : Nat → String
  | 200 => "OK"
  | 201 => "Created"
  | 400 => "Bad Request"
  | 401 => "Unauthorized"
  | 403 => "Forbidden"
  | 404 => "Not Found"
  | 409 => "Conflict"
  | 413 => "Payload Too Large"
  | 429 => "Too Many Requests"
  | 503 => "Service Unavailable"
  | _ => ""

/-- The answers, by what their body is. -/
def json_response (status : Nat) (body : Json) : HttpResponse :=
  ⟨status, reason_phrase status, "application/json", .json body⟩

def empty_response (status : Nat) : HttpResponse :=
  ⟨status, reason_phrase status, "application/json", .text ""⟩

def text_response (body : String) : HttpResponse :=
  ⟨200, "OK", "text/plain; version=0.0.4", .text body⟩

/-- Whom the token is of, and the token. -/
def auth_body (username : String) (rating : Int) (token : String) : Json :=
  .of_pairs [("username", .string username), ("rating", .number rating), ("token", .string token)]

def reason_response (status : Nat) (reason : String) : HttpResponse :=
  json_response status (.of_pairs [("reason", .string reason)])

/-- `s.rfind(head, 0) == 0`, and the rest of `s`. -/
def after_head (head s : String) : Option String :=
  if head.toList.isPrefixOf s.toList then some (String.ofList (s.toList.drop head.length))
  else none

/-- The token a request shows; an empty one is none. -/
def bearer_token (request : HttpRequest) : Option String :=
  (request.authorization.bind (after_head kBearerPrefix)).filter (· ≠ "")

/-- What both handlers read of a body, if it parses. -/
def credentials (parsed : Option Json) : Option (String × String) := do
  let request ← parsed
  let username ← request.get_at "username" Json.get_string
  let password ← request.get_at "password" Json.get_string
  return (username, password)

/-- A row of a history, as it is shown. -/
def game_entry (game : GameRecord) : Json :=
  .of_pairs [("id", .number game.id),
    ("whiteUsername", .string game.white_username),
    ("blackUsername", .string game.black_username),
    ("winnerUsername", (game.winner_username.map Json.string).getD .null),
    ("endReason", .string game.end_reason),
    ("startedAt", .string game.started_at),
    ("endedAt", .string game.ended_at)]

end http_api

/-- What is not the program's: the JSON parser, Argon2, the order in which the database
has the rows of a query, and the expected score. -/
structure Outsiders (R : Type*) where
  parse (text : String) : Option Json
  argon2 : Argon2
  order_by (rows : List GameRecord) : List GameRecord
  expected_score (rating opponent_rating : Int) : R

/-- `ORDER BY ended_at DESC`: the same rows, and none before one that ended later. -/
structure Outsiders.OrdersByEnd {R : Type*} (env : Outsiders R) : Prop where
  rows : ∀ rows, (env.order_by rows).Perm rows
  latest_first : ∀ rows, (env.order_by rows).Pairwise fun a b => b.ended_at ≤ a.ended_at

/-- What a handler has still to do. -/
inductive AccountCall
  /-- `handle_register`, before `authenticate`. -/
  | registering (request : HttpRequest) (username password : String)
  /-- `handle_login`, before `user_exists`, and then before `authenticate`. -/
  | looking_up (request : HttpRequest) (username password : String)
  | logging_in (request : HttpRequest) (username password : String)
  /-- Either, before `issue`. -/
  | issuing (request : HttpRequest) (status : Nat) (username : String) (rating : Int)
  /-- `handle_history`, before `history_for`. -/
  | reading (request : HttpRequest) (username : String)
  /-- `ClientSession::handle_login`, before `authenticate`. -/
  | session_login (username password : String)
deriving DecidableEq

/-- A handler: its number, for whom and when the limiter was asked, and what is to do. -/
structure AccountThread where
  id : Nat
  remote_ip : String
  asked_at : Int
  call : AccountCall
deriving DecidableEq

/-- What is said, by which handler; only the limiter's answers and the results of the
matches need no number. -/
inductive AccountEvent
  /-- The limiter is asked. -/
  | limited (remote_ip : String) (now : Int) (allowed : Bool)
  /-- `authenticate` is called. -/
  | checked (thread : AccountThread) (salt : List UInt8) (username password : String)
      (outcome : FullAuthOutcome)
  /-- `issue` is called. -/
  | issued (id : Nat) (token username : String) (now : Int)
  /-- `username_for` is called. -/
  | presented (id : Nat) (token : String) (now : Int) (owner : Option String)
  | responded (id : Nat) (request : HttpRequest) (response : HttpResponse)
  | rated (r : Report)
  | recorded (r : Report) (ended_at : Int)

/-- The store, the tokens and the limiter, and the handlers at work on them. -/
structure AccountServer where
  users : UserTable := .empty
  tokens : AuthTokenStore := ExpiringMap.empty
  auth_limiter : RateLimiter := .new 10 (60 * kSecond)
  threads : List AccountThread := []
  /-- How many handlers have begun: the number of the next one. -/
  begun : Nat := 0
  /-- The calls of `on_result` still to record their game. -/
  results : List Report := []

namespace AccountServer

open http_api

/-- A call from outside, or a handler that goes on. -/
inductive Op
  /-- `rendered` is what `Metrics` would show. -/
  | request (remote_ip : String) (request : HttpRequest) (now : Int) (rendered : String)
  /-- A session that is not authenticated gets a `Login`. -/
  | login (remote_ip username password : String) (now : Int)
  /-- One of the handlers goes on; `salt` and `raw` are what it draws, if it does. -/
  | proceed (thread : Nat) (now : Int) (salt raw : List UInt8)
  | on_result (r : Report)
  | record_game (result : Nat) (now : Int)
deriving DecidableEq

variable {R : Type*} [Field R] [LinearOrder R] [FloorRing R]

/-- One more handler has begun. -/
def counted (s : AccountServer) : AccountServer := { s with begun := s.begun + 1 }

/-- The handler has come to its first call for the store. -/
def starts (s : AccountServer) (thread : AccountThread) : AccountServer :=
  { s with threads := s.threads ++ [thread] }

/-- The handler has come to its next call, or is done. -/
def goes_on (s : AccountServer) (i : Nat) (thread : AccountThread) (call : AccountCall) :
    AccountServer :=
  { s with threads := s.threads.set i { thread with call := call } }

/-- The handler is done. -/
def done (s : AccountServer) (i : Nat) : AccountServer :=
  { s with threads := s.threads.eraseIdx i }

/-- `auth_limiter_.allow`. -/
def asks (s : AccountServer) (remote_ip : String) (now : Int) :
    AccountServer × Bool × AccountEvent :=
  let (limiter, allowed) := s.auth_limiter.allow remote_ip now
  ({ s with auth_limiter := limiter }, allowed, .limited remote_ip now allowed)

/-- `users.authenticate`. -/
def authenticates (env : Outsiders R) (s : AccountServer) (thread : AccountThread)
    (salt : List UInt8) (username password : String) :
    AccountServer × FullAuthOutcome × AccountEvent :=
  let (users, outcome) := s.users.authenticate env.argon2 salt username password
  ({ s with users := users }, outcome, .checked thread salt username password outcome)

/-! ## The handlers -/

/-- `handle_history`, up to the store. -/
def handle_history (s : AccountServer) (id : Nat) (remote_ip : String) (request : HttpRequest)
    (username : String) (now : Int) : AccountServer × List AccountEvent :=
  match bearer_token request with
  -- no credentials at all
  | none => (s, [.responded id request (empty_response 401)])
  | some token =>
      let (tokens, owner) := AuthTokenStore.username_for s.tokens token now
      let s := { s with tokens := tokens }
      let presented := .presented id token now owner
      match owner with
      -- credentials, but not ones anyone issued
      | none => (s, [presented, .responded id request (empty_response 401)])
      | some owner =>
          if owner ≠ username then (s, [presented, .responded id request (empty_response 403)])
          else (s.starts ⟨id, remote_ip, now, .reading request username⟩, [presented])

/-- `handle_register` or `handle_login`, up to the store. -/
def handle_auth (env : Outsiders R) (s : AccountServer) (id : Nat) (remote_ip : String)
    (request : HttpRequest) (now : Int)
    (handler : HttpRequest → String → String → AccountCall) :
    AccountServer × List AccountEvent :=
  -- before the body is parsed: malformed floods count too
  let (s, allowed, limited) := s.asks remote_ip now
  if ¬ allowed then (s, [limited, .responded id request (empty_response 429)])
  else if kMaxHttpBodyBytes < request.body.utf8ByteSize then
    (s, [limited, .responded id request (empty_response 413)])
  else
    match credentials (env.parse request.body) with
    | none => (s, [limited, .responded id request (empty_response 400)])
    | some (username, password) =>
        (s.starts ⟨id, remote_ip, now, handler request username password⟩, [limited])

/-- Which handler a request is for. -/
def dispatch (env : Outsiders R) (s : AccountServer) (id : Nat) (remote_ip : String)
    (request : HttpRequest) (now : Int) (rendered : String) : AccountServer × List AccountEvent :=
  if request.method = "GET" ∧ request.uri = "/health" then
    -- `handle_health`: the store answers
    (s, [.responded id request (json_response 200 (.of_pairs [("status", .string "ok")]))])
  else if request.method = "GET" ∧ request.uri = "/metrics" then
    (s, [.responded id request (text_response rendered)])
  else if request.method = "POST" ∧ request.uri = "/api/auth/register" then
    s.handle_auth env id remote_ip request now .registering
  else if request.method = "POST" ∧ request.uri = "/api/auth/login" then
    s.handle_auth env id remote_ip request now .looking_up
  else if request.method = "GET" then
    match after_head kHistoryPrefix request.uri with
    | some username => s.handle_history id remote_ip request username now
    | none => (s, [.responded id request (empty_response 404)])
  else (s, [.responded id request (empty_response 404)])

/-- `ClientSession::handle_login`, up to the store. -/
def session_login (s : AccountServer) (id : Nat) (remote_ip username password : String)
    (now : Int) : AccountServer × List AccountEvent :=
  let (s, allowed, limited) := s.asks remote_ip now
  if ¬ allowed then (s, [limited])
  else (s.starts ⟨id, remote_ip, now, .session_login username password⟩, [limited])

/-- What a handler does from one call for the store or the tokens to the next. -/
def proceed (env : Outsiders R) (s : AccountServer) (i : Nat) (thread : AccountThread) (now : Int)
    (salt raw : List UInt8) : AccountServer × List AccountEvent :=
  match thread.call with
  | .registering request username password =>
      let (s, auth, checked) := s.authenticates env thread salt username password
      if auth.newly_registered then
        (s.goes_on i thread (.issuing request 201 username auth.rating), [checked])
      else if auth.reason = auth_reasons.kInvalidUsername ∨
          auth.reason = auth_reasons.kWeakPassword then
        (s.done i, [checked, .responded thread.id request (reason_response 400 auth.reason)])
      else (s.done i, [checked, .responded thread.id request (empty_response 409)])
  | .looking_up request username password =>
      if ¬ s.users.user_exists username then
        (s.done i, [.responded thread.id request (empty_response 401)])
      else (s.goes_on i thread (.logging_in request username password), [])
  | .logging_in request username password =>
      let (s, auth, checked) := s.authenticates env thread salt username password
      if ¬ auth.ok then (s.done i, [checked, .responded thread.id request (empty_response 401)])
      else (s.goes_on i thread (.issuing request 200 username auth.rating), [checked])
  | .issuing request status username rating =>
      let (tokens, token) := AuthTokenStore.issue s.tokens raw username now
      ({ s with tokens := tokens }.done i, [.issued thread.id token username now,
        .responded thread.id request (json_response status (auth_body username rating token))])
  | .reading request username =>
      (s.done i, [.responded thread.id request (json_response 200
        (.array ((s.users.history_for env.order_by username).map game_entry)))])
  | .session_login username password =>
      let (s, _, checked) := s.authenticates env thread salt username password
      (s.done i, [checked])

theorem usernames_write_rating (users : UserRepository) (username : String) (rating : Int) :
    (users.write_rating username rating).users.map User.username
      = users.users.map User.username :=
  UserRepository.map_updated_username username rating users.users

/-- A result changes ratings, and nobody's name. -/
theorem usernames_apply_result (expected_score : Int → Int → R) (users : UserRepository)
    (r : Report) : (apply_result expected_score users r).users.map User.username
      = users.users.map User.username := by
  unfold apply_result apply_forfeit apply_game_result UserRepository.rerate
    UserRepository.rerate_pair
  split_ifs
  · split
    · exact usernames_write_rating ..
    · rfl
  · split
    · exact usernames_write_rating ..
    · rfl
  · split
    · exact (usernames_write_rating ..).trans (usernames_write_rating ..)
    · rfl

theorem usernames_record_result (users : UserRepository) (r : Report) (ended_at : Int) :
    (record_result users r ended_at).users.map User.username
      = users.users.map User.username := rfl

/-- A step: a new handler up to the store, a handler from one call to the next, or one of
the two calls that a finished match makes. -/
def exec (env : Outsiders R) : Step AccountServer Op AccountEvent Empty
  | s, .request remote_ip request now rendered =>
      return s.counted.dispatch env s.begun remote_ip request now rendered
  | s, .login remote_ip username password now =>
      return s.counted.session_login s.begun remote_ip username password now
  | s, .proceed i now salt raw =>
      match s.threads[i]? with
      | none => return (s, [])
      | some thread => return s.proceed env i thread now salt raw
  | s, .on_result r =>
      return ({ s with
        users := s.users.updated (apply_result env.expected_score · r)
          (usernames_apply_result env.expected_score · r)
        results := s.results ++ [r] }, [.rated r])
  | s, .record_game i now =>
      match s.results[i]? with
      | none => return (s, [])
      | some r => return ({ s with
          users := s.users.updated (record_result · r now) (usernames_record_result · r now)
          results := s.results.eraseIdx i }, [.recorded r now])

end AccountServer

end KungFuChess
