/-
The **rate limiter**: `kfc/server/rate_limiter.cpp`.

One table holds a bucket for each key, and one counter of the calls of all keys says
when the buckets whose window is over are swept out of it, which can be in the middle
of any call. Times are whole units of the clock, whose epoch is `0`.

Each bucket is a fixed-window counter. Neither the sweep nor the sharing can be told
from the answers (`sweeping_is_invisible`): a bucket that is swept would have begun
again at its next call, and so does the fresh one that takes its place, whose window
began at the epoch.
-/
import KungFuChess.FixedWindow
import Mathlib.Data.List.Induction
import Mathlib.Logic.Function.Basic

set_option autoImplicit false

namespace KungFuChess

open FixedWindow

structure Bucket where
  count : Int := 0
  /-- Of a new bucket: the epoch. -/
  window_start : Int := 0
deriving DecidableEq, Repr

structure RateLimiter where
  max_attempts : Int
  window : Int
  /-- `unordered_map<string, Bucket>`, read by lookup. -/
  buckets : String → Option Bucket := fun _ => none
  calls_since_sweep : Nat := 0

namespace RateLimiter

def kSweepEveryNCalls : Nat := 1000

def evict_expired (l : RateLimiter) (now : Int) : RateLimiter :=
  { l with buckets := fun key =>
      (l.buckets key).filter fun bucket => ¬ l.window ≤ now - bucket.window_start }

/-- What `allow` begins with: one more call, and a sweep when it is time. -/
def count_call (l : RateLimiter) (now : Int) : RateLimiter :=
  if kSweepEveryNCalls ≤ l.calls_since_sweep + 1 then
    { l with calls_since_sweep := 0 }.evict_expired now
  else
    { l with calls_since_sweep := l.calls_since_sweep + 1 }

/-- `buckets_[key]`: a new bucket if the key has none. -/
def bucket (l : RateLimiter) (key : String) : Bucket := (l.buckets key).getD {}

/-- The bucket of the key is written back, as the reference to it does. -/
def write (l : RateLimiter) (key : String) (b : Bucket) : RateLimiter :=
  { l with buckets := Function.update l.buckets key (some b) }

def allow (l : RateLimiter) (key : String) (now : Int) : RateLimiter × Bool :=
  let l := l.count_call now
  let bucket := l.bucket key
  let bucket :=
    if l.window ≤ now - bucket.window_start then { bucket with count := 0, window_start := now }
    else bucket
  let bucket := { bucket with count := bucket.count + 1 }
  (l.write key bucket, decide (bucket.count ≤ l.max_attempts))

def new (max_attempts window : Int) : RateLimiter := { max_attempts, window }

/-- What a sequence of calls is answered. -/
def answers : RateLimiter → List (String × Int) → List Bool
  | _, [] => []
  | l, (key, now) :: calls => (l.allow key now).2 :: answers (l.allow key now).1 calls

/-- The calls with their answers. -/
def answered (l : RateLimiter) (calls : List (String × Int)) : List ((String × Int) × Bool) :=
  calls.zip (l.answers calls)

/-! ## A bucket is a fixed-window counter -/

def counter (b : Bucket) : Counter Int := ⟨b.count, b.window_start⟩

/-- The counter of a key that has not called. -/
def fresh : Counter Int := ⟨0, 0⟩

variable {l : RateLimiter} {key : String} {now later last : Int}

theorem counter_expired {b : Bucket} {window : Int} :
    (counter b).Expired window now ↔ window ≤ now - b.window_start :=
  Iff.rfl

theorem count_call_settings (l : RateLimiter) (now : Int) :
    (l.count_call now).window = l.window ∧ (l.count_call now).max_attempts = l.max_attempts := by
  unfold count_call evict_expired
  split_ifs <;> exact ⟨rfl, rfl⟩

theorem allow_settings (l : RateLimiter) (key : String) (now : Int) :
    (l.allow key now).1.window = l.window ∧
      (l.allow key now).1.max_attempts = l.max_attempts :=
  l.count_call_settings now

theorem write_own (l : RateLimiter) (key : String) (b : Bucket) :
    (l.write key b).bucket key = b := by
  show (Function.update l.buckets key (some b) key).getD {} = b
  rw [Function.update_self, Option.getD_some]

theorem write_other (l : RateLimiter) {key other : String} (hne : other ≠ key) (b : Bucket) :
    (l.write key b).bucket other = l.bucket other := by
  show (Function.update l.buckets key (some b) other).getD {} = _
  rw [Function.update_of_ne hne]
  rfl

/-- **A call is a hit** of the bucket of its key, as the sweep has left it. -/
theorem allow_hit (l : RateLimiter) (key : String) (now : Int) :
    counter ((l.allow key now).1.bucket key)
      = hit l.window (counter ((l.count_call now).bucket key)) now := by
  have hlook : (l.allow key now).1.bucket key = _ := (l.count_call now).write_own key _
  rw [hlook, hit, ← (l.count_call_settings now).1]
  by_cases hover : (counter ((l.count_call now).bucket key)).Expired
      (l.count_call now).window now
  · rw [if_pos hover, if_pos (counter_expired.mp hover)]
    rfl
  · rw [if_neg hover, if_neg (hover ∘ counter_expired.mpr)]
    rfl

theorem allow_answer (l : RateLimiter) (key : String) (now : Int) :
    (l.allow key now).2 = decide ((counter ((l.allow key now).1.bucket key)).count
      ≤ l.max_attempts) := by
  have hlook : (l.allow key now).1.bucket key = _ := (l.count_call now).write_own key _
  rw [hlook, ← (l.count_call_settings now).2]
  rfl

theorem allow_other (l : RateLimiter) {key other : String} (hne : other ≠ key) (now : Int) :
    (l.allow key now).1.bucket other = (l.count_call now).bucket other :=
  (l.count_call now).write_other hne _

/-! ## The sweep -/

/-- No window began before the epoch. -/
def SinceEpoch (l : RateLimiter) : Prop := ∀ key, 0 ≤ (l.bucket key).window_start

/-- A bucket is as it was, or its window was over and it is new. -/
theorem count_call_bucket (l : RateLimiter) (key : String) (now : Int) :
    (l.count_call now).bucket key = l.bucket key ∨
      (counter (l.bucket key)).Expired l.window now ∧ (l.count_call now).bucket key = {} := by
  unfold count_call
  split_ifs
  · unfold evict_expired bucket
    dsimp only
    cases hb : l.buckets key with
    | none => exact .inl rfl
    | some b =>
        rw [Option.filter_some, Option.getD_some]
        by_cases hover : l.window ≤ now - b.window_start
        · rw [if_neg (by simpa using hover)]
          exact .inr ⟨hover, rfl⟩
        · rw [if_pos (by simpa using hover)]
          exact .inl rfl
  · exact .inl rfl

/-- What holds of every bucket, and of a new one, holds after a sweep. -/
theorem count_call_each {P : Bucket → Prop} (h : ∀ key, P (l.bucket key)) (hnew : P {})
    (now : Int) (key : String) : P ((l.count_call now).bucket key) := by
  rcases l.count_call_bucket key now with hsame | ⟨-, hempty⟩
  · rw [hsame]
    exact h key
  · rw [hempty]
    exact hnew

/-- **The sweep cannot be told from what follows.** -/
theorem count_call_hit (hepoch : SinceEpoch l) (hle : now ≤ later) :
    hit l.window (counter ((l.count_call now).bucket key)) later
      = hit l.window (counter (l.bucket key)) later := by
  rcases l.count_call_bucket key now with hsame | ⟨hover, hnew⟩
  · rw [hsame]
  · rw [hnew]
    refine hit_of_expired ?_ (hover.mono hle)
    -- the window of a new bucket began no later than that of the one swept
    have hstart := hepoch key
    have hpast := counter_expired.mp (hover.mono hle)
    show l.window ≤ later - 0
    omega

theorem SinceEpoch.allow (hepoch : SinceEpoch l) (hwindow : 0 < l.window) (key : String)
    (now : Int) : SinceEpoch (l.allow key now).1 := by
  have hswept := count_call_each (P := fun b => 0 ≤ b.window_start) hepoch (le_refl 0) now
  intro other
  by_cases hkey : other = key
  · rw [hkey]
    have hhit : ((l.allow key now).1.bucket key).window_start = _ :=
      congrArg Counter.start (l.allow_hit key now)
    have hold := hswept key
    rw [hhit, hit]
    split_ifs with hover
    · -- a window that is over, and began at the epoch or later, is over after the epoch
      have hpast := counter_expired.mp hover
      show 0 ≤ now
      omega
    · exact hold
  · rw [l.allow_other hkey]
    exact hswept other

/-! ## Each key by itself -/

/-- From `last` on, the bucket of the key is hit as the counter would be. -/
def HitAs (l : RateLimiter) (key : String) (c : Counter Int) (last : Int) : Prop :=
  ∀ now, last ≤ now → hit l.window (counter (l.bucket key)) now = hit l.window c now

variable {c : Counter Int}

/-- A call of the key itself. -/
theorem HitAs.own (h : HitAs l key c last) (hepoch : SinceEpoch l) (hle : last ≤ now) :
    counter ((l.allow key now).1.bucket key) = hit l.window c now := by
  rw [l.allow_hit, count_call_hit hepoch (le_refl now)]
  exact h now hle

/-- A call of another key. -/
theorem HitAs.other (h : HitAs l key c last) (hepoch : SinceEpoch l) (hle : last ≤ now)
    {other : String} (hne : key ≠ other) : HitAs (l.allow other now).1 key c now := by
  intro later hlater
  rw [(l.allow_settings other now).1, l.allow_other hne, count_call_hit hepoch hlater]
  exact h later (hle.trans hlater)

/-- The calls of one key. -/
def times_of (key : String) (calls : List (String × Int)) : List Int :=
  (calls.filter fun call => call.1 = key).map Prod.snd

/-- What the calls of one key are answered. -/
def answers_to (key : String) (log : List ((String × Int) × Bool)) : List Bool :=
  (log.filter fun entry => entry.1.1 = key).map Prod.snd

/-- Answered from any state, a key is answered as its counter would answer it. -/
theorem answers_alone {calls : List (String × Int)} :
    ∀ {l : RateLimiter} {c : Counter Int} {last : Int},
      (last :: calls.map Prod.snd).Pairwise (· ≤ ·) → 0 < l.window → SinceEpoch l →
      HitAs l key c last →
      answers_to key (l.answered calls)
        = verdicts l.window l.max_attempts c (times_of key calls) := by
  induction calls with
  | nil =>
      intro l c last _ _ _ _
      rfl
  | cons call calls ih =>
      obtain ⟨caller, now⟩ := call
      intro l c last hsorted hwindow hepoch hhit
      rw [List.map_cons] at hsorted
      have hle : last ≤ now := List.rel_of_pairwise_cons hsorted List.mem_cons_self
      have hrest := List.Pairwise.of_cons hsorted
      obtain ⟨hsame, hmax⟩ := l.allow_settings caller now
      have hepoch' := hepoch.allow hwindow caller now
      rw [answered, answers, List.zip_cons_cons, answers_to, times_of]
      by_cases hkey : caller = key
      · subst hkey
        have hown := hhit.own hepoch hle
        -- from its own call on the bucket is the counter itself
        have hnext : HitAs (l.allow caller now).1 caller (hit l.window c now) now := by
          intro later _
          rw [hown]
        have htail := ih hrest (by rwa [hsame]) hepoch' hnext
        rw [List.filter_cons_of_pos (by simp), List.filter_cons_of_pos (by simp), List.map_cons,
          List.map_cons, verdicts, l.allow_answer, hown]
        rw [hsame, hmax] at htail
        exact congrArg _ htail
      · have htail := ih hrest (by rwa [hsame]) hepoch' (hhit.other hepoch hle (Ne.symm hkey))
        rw [List.filter_cons_of_neg (by simpa using hkey),
          List.filter_cons_of_neg (by simpa using hkey)]
        rw [hsame, hmax] at htail
        exact htail

/-! ## The bound -/

theorem length_answers (l : RateLimiter) (calls : List (String × Int)) :
    (l.answers calls).length = calls.length := by
  induction calls generalizing l with
  | nil => rfl
  | cons call calls ih =>
      rw [answers, List.length_cons, ih, List.length_cons]

theorem calls_answered (l : RateLimiter) (calls : List (String × Int)) :
    (l.answered calls).map Prod.fst = calls :=
  List.map_fst_zip (l.length_answers calls).ge

/-- A key's calls with its answers. -/
theorem times_answered (l : RateLimiter) (key : String) (calls : List (String × Int)) :
    (times_of key calls).zip (answers_to key (l.answered calls))
      = ((l.answered calls).filter fun entry => entry.1.1 = key).map
          fun entry => (entry.1.2, entry.2) := by
  have htimes : times_of key calls
      = ((l.answered calls).filter fun entry => entry.1.1 = key).map fun entry => entry.1.2 := by
    conv_lhs => rw [← l.calls_answered calls]
    unfold times_of
    rw [List.filter_map, List.map_map]
    rfl
  rw [htimes, answers_to, List.zip_map']

/-- What a key is allowed in an interval is what its counter admits. -/
theorem allowed_eq {key : String} {calls : List (String × Int)}
    (halone : answers_to key (l.answered calls)
      = verdicts l.window l.max_attempts c (times_of key calls)) (a : Int) :
    (l.answered calls).countP (fun entry => entry.1.1 = key ∧ a ≤ entry.1.2 ∧
        entry.1.2 < a + l.window ∧ entry.2)
      = admitted l.window l.max_attempts a c (times_of key calls) := by
  unfold admitted
  rw [← halone, times_answered, List.countP_map, List.countP_filter]
  refine List.countP_congr fun entry _ => ?_
  simp only [decide_eq_true_eq, Function.comp_apply, Bool.and_eq_true]
  tauto

theorem sorted_times_of {key : String} {calls : List (String × Int)}
    (hsorted : (calls.map Prod.snd).Pairwise (· ≤ ·)) :
    (times_of key calls).Pairwise (· ≤ ·) :=
  hsorted.sublist (List.filter_sublist.map Prod.snd)

theorem SinceEpoch.new (max_attempts window : Int) : SinceEpoch (new max_attempts window) :=
  fun _ => le_refl 0

/-- A new limiter answers every key as the key's own counter would. -/
theorem answers_of_new (max_attempts : Int) {window : Int} (hwindow : 0 < window)
    {calls : List (String × Int)} (hsorted : (calls.map Prod.snd).Pairwise (· ≤ ·))
    (key : String) :
    answers_to key ((new max_attempts window).answered calls)
      = verdicts window max_attempts fresh (times_of key calls) := by
  cases calls with
  | nil => rfl
  | cons call calls =>
      -- the first call may be taken for the last one before
      have hfirst : (call.2 :: (call :: calls).map Prod.snd).Pairwise (· ≤ ·) := by
        refine List.pairwise_cons.mpr ⟨fun t ht => ?_, hsorted⟩
        rcases List.mem_cons.mp ht with rfl | ht
        · exact le_refl _
        · exact List.rel_of_pairwise_cons hsorted ht
      exact answers_alone hfirst hwindow (SinceEpoch.new _ _) fun _ _ => rfl

/-- What a new limiter allows a key in an interval as long as a window. -/
theorem allowed_of_new (max_attempts window : Int) (hwindow : 0 < window)
    {calls : List (String × Int)} (hsorted : (calls.map Prod.snd).Pairwise (· ≤ ·))
    (key : String) (a : Int) :
    ((new max_attempts window).answered calls).countP
        (fun entry => entry.1.1 = key ∧ a ≤ entry.1.2 ∧ entry.1.2 < a + window ∧ entry.2)
      ≤ 2 * max_attempts.toNat := by
  have halone := answers_of_new max_attempts hwindow hsorted key
  have hbound : admitted window max_attempts a fresh (times_of key calls)
      ≤ 2 * max_attempts.toNat := admitted_le (sorted_times_of hsorted) (le_refl 0)
  exact (allowed_eq (l := new max_attempts window) halone a).le.trans hbound

/-- **Sweeping and sharing are invisible.** Every key is answered as its own counter that is
never swept answers that key's calls alone, and is allowed at most twice the maximum in an
interval as long as a window. -/
theorem sweeping_is_invisible (max_attempts window : Int) (hwindow : 0 < window)
    (calls : List (String × Int)) (hsorted : (calls.map Prod.snd).Pairwise (· ≤ ·)) :
    (∀ key, answers_to key ((new max_attempts window).answered calls)
        = verdicts window max_attempts fresh (times_of key calls)) ∧
    (0 ≤ max_attempts → ∀ key a, ((new max_attempts window).answered calls).countP
        (fun entry => entry.1.1 = key ∧ a ≤ entry.1.2 ∧ entry.1.2 < a + window ∧ entry.2)
      ≤ 2 * max_attempts) := by
  refine ⟨answers_of_new max_attempts hwindow hsorted, fun hmax key a => ?_⟩
  have hallowed := allowed_of_new max_attempts window hwindow hsorted key a
  exact (Int.ofNat_le.mpr hallowed).trans (by omega)

/-- Two keys, a limit of one, and a call that begins the next window. -/
theorem sweeping_is_invisible_two_keys :
    answers_to "b" ((new 1 10).answered [("a", 3), ("b", 5), ("b", 9), ("a", 20), ("b", 21)])
        = verdicts 10 1 fresh (times_of "b" [("a", 3), ("b", 5), ("b", 9), ("a", 20), ("b", 21)]) ∧
      (((new 1 10).answered [("a", 3), ("b", 5), ("b", 9), ("a", 20), ("b", 21)]).countP
        (fun entry => entry.1.1 = "b" ∧ 12 ≤ entry.1.2 ∧ entry.1.2 < 12 + 10 ∧ entry.2) : Int)
      ≤ 2 * 1 := by
  have h := sweeping_is_invisible 1 10 (by decide)
    [("a", 3), ("b", 5), ("b", 9), ("a", 20), ("b", 21)] (by decide)
  exact ⟨h.1 "b", h.2 (by decide) "b" 12⟩

/-! ## How far it counts -/

/-- The limiter after some calls. -/
def after (l : RateLimiter) (calls : List (String × Int)) : RateLimiter :=
  calls.foldl (fun l call => (l.allow call.1 call.2).1) l

theorem allow_count {n : Int} (h : ∀ key, (l.bucket key).count ≤ n) (hn : 0 ≤ n)
    (key : String) (now : Int) (other : String) :
    ((l.allow key now).1.bucket other).count ≤ n + 1 := by
  have hswept := count_call_each (P := fun b => b.count ≤ n) h hn now
  by_cases hkey : other = key
  · rw [hkey]
    have hhit : ((l.allow key now).1.bucket key).count = _ :=
      congrArg Counter.count (l.allow_hit key now)
    rw [hhit, hit]
    split_ifs
    · show (1 : Int) ≤ n + 1
      omega
    · have := hswept key
      show ((l.count_call now).bucket key).count + 1 ≤ n + 1
      omega
  · rw [l.allow_other hkey]
    have := hswept other
    omega

/-- No bucket counts more calls than there were: short of `2^31` of them, `int` holds it. -/
theorem count_after (max_attempts window : Int) (calls : List (String × Int)) (key : String) :
    (((new max_attempts window).after calls).bucket key).count ≤ calls.length := by
  induction calls using List.reverseRecOn generalizing key with
  | nil => exact le_refl 0
  | append_singleton calls call ih =>
      unfold after
      rw [List.foldl_append, List.length_append, Int.natCast_add]
      exact allow_count ih (Int.natCast_nonneg _) call.1 call.2 key

end RateLimiter

end KungFuChess
