/-
**Guessing passwords.**

Every check of a password, on whichever way it comes, has been let in by the one limiter,
and nobody is let in twice for it: the checks made and the handlers that may still make
one are no more than the times the limiter said yes. What the limiter has been asked, in
the order it was asked, is a run of `RateLimiter` from a new one, so the bound on what it
allows in a minute is a bound on the passwords that one address can try.
-/
import KungFuChess.Placement
import KungFuChess.Secrets

set_option autoImplicit false

namespace KungFuChess

open Machine Placement http_api

namespace RateLimiter

/-- One more call. -/
theorem answered_append_one (l : RateLimiter) (calls : List (String × Int)) (call : String × Int) :
    l.answered (calls ++ [call])
      = l.answered calls ++ [(call, ((l.after calls).allow call.1 call.2).2)] := by
  induction calls generalizing l with
  | nil => rfl
  | cons first calls ih =>
      have h := ih (l.allow first.1 first.2).1
      unfold answered at h ⊢
      rw [List.cons_append, answers, answers, List.zip_cons_cons, List.zip_cons_cons, h,
        List.cons_append]
      rfl

theorem after_append_one (l : RateLimiter) (calls : List (String × Int)) (call : String × Int) :
    l.after (calls ++ [call]) = ((l.after calls).allow call.1 call.2).1 := by
  unfold after
  rw [List.foldl_append]
  rfl

end RateLimiter

namespace AccountServer

/-! ## What is counted -/

/-- The limiter was asked, and this is what it said. -/
def limits (tr : List AccountEvent) : List ((String × Int) × Bool) :=
  tr.filterMap fun
    | .limited remote_ip now allowed => some ((remote_ip, now), allowed)
    | _ => none

/-- The checks, by who asked for them and when. -/
def checks (tr : List AccountEvent) : List (String × Int) :=
  tr.filterMap fun
    | .checked thread _ _ _ _ => some (thread.remote_ip, thread.asked_at)
    | _ => none

theorem limits_append (tr os : List AccountEvent) : limits (tr ++ os) = limits tr ++ limits os :=
  List.filterMap_append

theorem checks_append (tr os : List AccountEvent) : checks (tr ++ os) = checks tr ++ checks os :=
  List.filterMap_append

/-- A handler that has not checked a password yet, and may. -/
def MayCheck : AccountCall → Bool
  | .registering _ _ _ => true
  | .looking_up _ _ _ => true
  | .logging_in _ _ _ => true
  | .issuing _ _ _ _ => false
  | .reading _ _ => false
  | .session_login _ _ => true

/-- Among the handlers of these, the ones that may check. -/
def waiting (p : String × Int → Bool) (thread : AccountThread) : Bool :=
  MayCheck thread.call && p (thread.remote_ip, thread.asked_at)

def new_limiter : RateLimiter := .new 10 (60 * kSecond)

/-- No more checks than the limiter has allowed. -/
structure Limited (s : AccountServer) (tr : List AccountEvent) : Prop where
  limiter : s.auth_limiter = new_limiter.after ((limits tr).map Prod.fst)
  answered : limits tr = new_limiter.answered ((limits tr).map Prod.fst)
  counted : ∀ p : String × Int → Bool, (checks tr).countP p + s.threads.countP (waiting p)
    ≤ (limits tr).countP fun entry => entry.2 && p entry.1

variable {s s' : AccountServer} {tr os : List AccountEvent}

theorem limited_new : Limited {} [] where
  limiter := rfl
  answered := rfl
  counted _ := Nat.le_refl 0

/-- The limiter is asked once more. -/
theorem limits_asks (h : Limited s tr) (remote_ip : String) (now : Int) (rest : List AccountEvent)
    (hrest : limits rest = []) :
    let said := limits (tr ++ (s.asks remote_ip now).2.2 :: rest)
    said = limits tr ++ [((remote_ip, now), (s.asks remote_ip now).2.1)] ∧
      (s.asks remote_ip now).1.auth_limiter = new_limiter.after (said.map Prod.fst) ∧
      said = new_limiter.answered (said.map Prod.fst) := by
  have hsaid : limits (tr ++ (s.asks remote_ip now).2.2 :: rest)
      = limits tr ++ [((remote_ip, now), (s.asks remote_ip now).2.1)] := by
    rw [limits_append]
    exact congrArg (limits tr ++ _ :: ·) hrest
  have hasked : (s.asks remote_ip now).1.auth_limiter = (s.auth_limiter.allow remote_ip now).1 ∧
      (s.asks remote_ip now).2.1 = (s.auth_limiter.allow remote_ip now).2 := ⟨rfl, rfl⟩
  dsimp only
  rw [hsaid, List.map_append, List.map_singleton]
  refine ⟨rfl, ?_, ?_⟩
  · rw [RateLimiter.after_append_one, ← h.limiter]
    exact hasked.1
  · rw [RateLimiter.answered_append_one, ← h.answered, ← h.limiter, hasked.2]

/-- A step in which nobody asks. -/
theorem Limited.unasked (h : Limited s tr) (hlimiter : s'.auth_limiter = s.auth_limiter)
    (hos : limits os = [])
    (hcounted : ∀ p, (checks os).countP p + s'.threads.countP (waiting p)
      ≤ s.threads.countP (waiting p)) : Limited s' (tr ++ os) := by
  refine ⟨?_, ?_, fun p => ?_⟩
  · rw [hlimiter, limits_append, hos, List.append_nil]
    exact h.limiter
  · rw [limits_append, hos, List.append_nil]
    exact h.answered
  · rw [limits_append, hos, List.append_nil, checks_append, List.countP_append]
    have := h.counted p
    have := hcounted p
    omega

theorem Replies.unsaid {thread : AccountThread} {rest : List AccountEvent}
    (h : Replies thread rest) : limits rest = [] ∧ checks rest = [] := by
  rcases h with rfl | ⟨request, response, -, rfl⟩ <;> exact ⟨rfl, rfl⟩

theorem waiting_goes_on {p : String × Int → Bool} {thread : AccountThread} {call : AccountCall} :
    waiting p { thread with call := call }
      = (MayCheck call && p (thread.remote_ip, thread.asked_at)) := rfl

section Steps

variable {R : Type*} [Field R] [LinearOrder R] [FloorRing R] {env : Outsiders R}
  {clock : Option Int}

/-- **Every step keeps it.** -/
theorem Limited.step (h : Limited s tr) (hdoes : Does env clock s s' os) :
    Limited s' (tr ++ os) := by
  have hdone : ∀ (i : Nat) (p : String × Int → Bool),
      (s.done i).threads.countP (waiting p) ≤ s.threads.countP (waiting p) :=
    fun i p => (List.eraseIdx_sublist ..).countP_le
  cases hdoes with
  | idle => exact h.unasked rfl rfl fun _ => (Nat.zero_add _).le
  | answers request response closed =>
      exact h.unasked rfl rfl fun _ => (Nat.zero_add _).le
  | refuses remote_ip now time rest refusal =>
      have hrest : limits rest = [] ∧ checks rest = [] := by
        rcases refusal with rfl | ⟨request, response, -, rfl⟩ <;> exact ⟨rfl, rfl⟩
      obtain ⟨hsaid, hlimiter, hanswered⟩ := limits_asks h remote_ip now rest hrest.1
      refine ⟨hlimiter, hanswered, fun p => ?_⟩
      rw [hsaid, List.countP_append, checks_append,
        show checks ((s.asks remote_ip now).2.2 :: rest) = checks rest from rfl, hrest.2,
        List.append_nil]
      exact (h.counted p).trans (Nat.le_add_right _ _)
  | begins remote_ip now time call allowed begins =>
      obtain ⟨hsaid, hlimiter, hanswered⟩ := limits_asks h remote_ip now [] rfl
      refine ⟨hlimiter, hanswered, fun p => ?_⟩
      rw [hsaid, List.countP_append, checks_append,
        show checks [(s.asks remote_ip now).2.2] = [] from rfl, List.append_nil]
      have hmore : ((s.counted.asks remote_ip now).1.starts
          ⟨s.begun, remote_ip, now, call⟩).threads
            = s.threads ++ [⟨s.begun, remote_ip, now, call⟩] := rfl
      have hmay : MayCheck call = true := by
        cases begins <;> rfl
      -- one more handler, and one more yes
      rw [hmore, List.countP_append, List.countP_singleton, List.countP_singleton, allowed]
      have := h.counted p
      unfold waiting at this ⊢
      rw [hmay]
      dsimp only
      omega
  | turned_away token now time request response status =>
      exact h.unasked rfl rfl fun _ => (Nat.zero_add _).le
  | let_in remote_ip request username token now time asks bearer owner =>
      refine h.unasked rfl rfl fun p => ?_
      have hmore : ((s.counted.looks_up token now).starts
          ⟨s.begun, remote_ip, now, .reading request username⟩).threads
            = s.threads ++ [⟨s.begun, remote_ip, now, .reading request username⟩] := rfl
      rw [hmore, List.countP_append]
      simp [checks, waiting, MayCheck]
  | checks i thread salt username password s₁ s₂ outcome checked rest here call run next =>
      obtain ⟨users, -, rfl, rfl⟩ := authenticates_eq run
      have hmay : MayCheck thread.call = true := by
        revert call
        cases thread.call <;> first | exact fun _ => rfl | exact nofun
      have hwaits : ∀ p, waiting p thread = p (thread.remote_ip, thread.asked_at) := by
        intro p
        unfold waiting
        rw [hmay]
        rfl
      cases next with
      | passed request status ok posted =>
          refine h.unasked rfl rfl fun p => ?_
          have hset := countP_set_add (p := waiting p)
            (y := { thread with call := .issuing request status username outcome.rating }) here
          rw [hwaits, waiting_goes_on] at hset
          show List.countP p [(thread.remote_ip, thread.asked_at)]
            + (s.threads.set i _).countP _ ≤ _
          rw [List.countP_singleton]
          simp only [MayCheck, Bool.false_and, Bool.false_eq_true, if_false] at hset
          omega
      | ended rest reply =>
          obtain ⟨hlimits, hchecks⟩ := reply.unsaid
          refine h.unasked rfl hlimits fun p => ?_
          have herase := countP_eraseIdx_add (p := waiting p) here
          rw [hwaits] at herase
          have hone : checks (.checked thread salt username password outcome :: rest)
              = [(thread.remote_ip, thread.asked_at)] := congrArg (_ :: ·) hchecks
          show List.countP p _ + (s.threads.eraseIdx i).countP _ ≤ _
          rw [hone, List.countP_singleton]
          omega
  | finds i thread request username password here call found =>
      refine h.unasked rfl rfl fun p => ?_
      have hset := countP_set_add (p := waiting p)
        (y := { thread with call := .logging_in request username password }) here
      have hwaits : waiting p thread = p (thread.remote_ip, thread.asked_at) := by
        unfold waiting
        rw [call]
        rfl
      rw [hwaits, waiting_goes_on] at hset
      show List.countP p [] + (s.threads.set i _).countP _ ≤ _
      rw [List.countP_nil]
      simp only [MayCheck, Bool.true_and] at hset
      omega
  | misses i thread rest here reply =>
      obtain ⟨hlimits, hchecks⟩ := reply.unsaid
      refine h.unasked rfl hlimits fun p => ?_
      rw [hchecks, List.countP_nil, Nat.zero_add]
      exact hdone i p
  | issues i thread request status username rating now raw here call =>
      refine h.unasked rfl rfl fun p => ?_
      show List.countP p [] + _ ≤ _
      rw [List.countP_nil, Nat.zero_add]
      exact hdone i p
  | reads i thread request username here call =>
      refine h.unasked rfl rfl fun p => ?_
      show List.countP p [] + _ ≤ _
      rw [List.countP_nil, Nat.zero_add]
      exact hdone i p
  | rates r => exact h.unasked rfl rfl fun _ => (Nat.zero_add _).le
  | records i r now here => exact h.unasked rfl rfl fun _ => (Nat.zero_add _).le

/-- A step asks the limiter at most once, at its own time. -/
theorem Does.asked (hdoes : Does env clock s s' os) :
    limits os = [] ∨ ∃ remote_ip now allowed, limits os = [((remote_ip, now), allowed)] ∧
      clock = some now := by
  cases hdoes with
  | refuses remote_ip now time rest refusal =>
      have hrest : limits rest = [] := by
        rcases refusal with rfl | ⟨request, response, -, rfl⟩ <;> rfl
      exact .inr ⟨remote_ip, now, _, congrArg (_ :: ·) hrest, time⟩
  | begins remote_ip now time call allowed begins => exact .inr ⟨remote_ip, now, _, rfl, time⟩
  | checks i thread salt username password s₁ s₂ outcome checked rest here call run next =>
      obtain ⟨users, -, rfl, rfl⟩ := authenticates_eq run
      cases next with
      | passed => exact .inl rfl
      | ended rest reply => exact .inl reply.unsaid.1
  | misses i thread rest here reply => exact .inl reply.unsaid.1
  | _ => exact .inl rfl

/-- Asked in order, while the clock does not go back. -/
theorem sorted_of_reach (hrun : Reach (exec env) Clocked {} s tr) :
    Limited s tr ∧ ((limits tr).map fun entry => entry.1.2).Pairwise (· ≤ ·) := by
  refine hrun.invariant (P := fun s tr =>
    Limited s tr ∧ ((limits tr).map fun entry => entry.1.2).Pairwise (· ≤ ·))
    ⟨limited_new, List.Pairwise.nil⟩ ?_
  rintro s tr op s' os - ⟨h, hsorted⟩ hclock hexec
  have hdoes := exec_does hexec
  refine ⟨h.step hdoes, ?_⟩
  rw [limits_append, List.map_append]
  obtain hnone | ⟨remote_ip, now, allowed, hone, htime⟩ := hdoes.asked
  · rw [hnone, List.map_nil, List.append_nil]
    exact hsorted
  · rw [hone, List.map_singleton]
    refine List.pairwise_append.mpr ⟨hsorted, List.pairwise_singleton _ _, fun t ht t' ht' => ?_⟩
    rw [List.mem_singleton.mp ht']
    obtain ⟨entry, hentry, rfl⟩ := List.mem_map.mp ht
    obtain ⟨e, he, hlimit⟩ := List.mem_filterMap.mp hentry
    have hle := hclock now htime e he
    cases e with
    | limited ip t allowed =>
        obtain rfl := Option.some.inj hlimit
        exact hle
    | _ => cases hlimit

/-- **Twenty guesses a minute.** While the clock does not go back, no more than twenty of
the passwords that are checked for one address were asked for within one minute: over HTTP
and the sessions together, registering or logging in, and in whatever order the handlers
go on. -/
theorem twenty_guesses_a_minute (hrun : Reach (exec env) Clocked {} s tr) (remote_ip : String)
    (a : Int) : tr.countP (fun
      | .checked thread _ _ _ _ => thread.remote_ip = remote_ip ∧ a ≤ thread.asked_at ∧
          thread.asked_at < a + 60 * kSecond
      | _ => false) ≤ 20 := by
  obtain ⟨h, hsorted⟩ := sorted_of_reach hrun
  have hcounted := h.counted fun call =>
    call.1 = remote_ip ∧ a ≤ call.2 ∧ call.2 < a + 60 * kSecond
  have hcalls : (((limits tr).map Prod.fst).map Prod.snd).Pairwise (· ≤ ·) := by
    rw [List.map_map]
    exact hsorted
  have hallowed := RateLimiter.allowed_of_new 10 (60 * kSecond) (by decide) hcalls
    remote_ip a
  rw [← new_limiter, ← h.answered] at hallowed
  have hchecks : tr.countP (fun
      | .checked thread _ _ _ _ => thread.remote_ip = remote_ip ∧ a ≤ thread.asked_at ∧
          thread.asked_at < a + 60 * kSecond
      | _ => false) = (checks tr).countP fun call =>
        call.1 = remote_ip ∧ a ≤ call.2 ∧ call.2 < a + 60 * kSecond := by
    unfold checks
    rw [List.countP_filterMap]
    refine List.countP_congr fun e _ => ?_
    cases e <;> simp
  have hsame : (limits tr).countP (fun entry => entry.2 &&
      decide (entry.1.1 = remote_ip ∧ a ≤ entry.1.2 ∧ entry.1.2 < a + 60 * kSecond))
      = (limits tr).countP fun entry => entry.1.1 = remote_ip ∧ a ≤ entry.1.2 ∧
        entry.1.2 < a + 60 * kSecond ∧ entry.2 := by
    refine List.countP_congr fun entry _ => ?_
    simp only [decide_eq_true_eq, Bool.and_eq_true]
    tauto
  rw [hchecks]
  omega

/-- One of the passwords of `alice_plays` is counted. -/
theorem alice_is_checked_once : ∃ s tr n, run (exec alice_online) {} alice_plays = .ok (s, tr) ∧
    n = tr.countP (fun
      | .checked thread _ _ _ _ => thread.remote_ip = "::1" ∧ 0 ≤ thread.asked_at ∧
          thread.asked_at < 0 + 60 * kSecond
      | _ => false) ∧ n = 1 ∧ n ≤ 20 := by
  obtain ⟨⟨s, tr⟩, hrun, hn⟩ := exists_ok_such (p := fun r => r.2.countP (fun
      | .checked thread _ _ _ _ => thread.remote_ip = "::1" ∧ 0 ≤ thread.asked_at ∧
          thread.asked_at < 0 + 60 * kSecond
      | _ => false) = 1)
    (x := run (exec alice_online) {} alice_plays) (by decide)
  have hreach := reach_of_meets (C := Clocked) (by decide) hrun
  exact ⟨s, tr, _, hrun, rfl, of_decide_eq_true hn, twenty_guesses_a_minute hreach "::1" 0⟩

end Steps

end AccountServer

end KungFuChess
