/-
**The ratings**: `kfc/database/elo.cpp`, `rating_service.cpp`, the ratings and games of
`user_repository.cpp`, and the callback `on_result` of `kfc_server`.

A result changes two ratings in one transaction and is then recorded, in a second
one. Results come from many matches at once, so a step of the machine is one
transaction, and any call's recording may come after other calls' steps.

An exchange moves points from one player to the other and makes none. That is a fact
about `lround`, which rounds both ways alike (`lround_neg`), and about the two expected
scores, which add up to one; what rating each player has does not matter.

The expected score is a parameter of the definitions, over any ordered field with a
floor. The curve of the source is `elo_expected_score`, over the reals.
-/
import KungFuChess.Match
import Mathlib.Algebra.BigOperators.Group.List.Basic
import Mathlib.Algebra.Order.Round
import Mathlib.Analysis.SpecialFunctions.Pow.Real

set_option autoImplicit false

namespace KungFuChess

open Machine

/-! ## `elo.cpp` -/

def kStartingRating : Int := 1200
def kDefaultKFactor : Int := 32

/-- Instead of an exchange. -/
def kDisconnectPenalty : Int := 10

/-- The logistic curve. -/
noncomputable def elo_expected_score (rating opponent_rating : Int) : ℝ :=
  1 / (1 + (10 : ℝ) ^ (((opponent_rating - rating : Int) : ℝ) / 400))

section Elo

variable {R : Type*} [Field R] [LinearOrder R] [FloorRing R]

/-- `std::lround`: halves go away from zero. -/
def lround (x : R) : Int := if 0 ≤ x then ⌊x + 1 / 2⌋ else -⌊-x + 1 / 2⌋

def elo_updated_rating (expected_score : Int → Int → R) (rating opponent_rating : Int)
    (score : R) (k : Int) : Int :=
  rating + lround ((k : R) * (score - expected_score rating opponent_rating))

end Elo

/-! ## `user_repository.cpp` -/

/-- A row of `users`, without the columns only `authenticate` reads. -/
structure User where
  username : String
  rating : Int
deriving DecidableEq, Repr

/-- Two digits. -/
def two_digits (n : Nat) : String :=
  if n < 10 then "0" ++ toString n else toString n

def four_digits (n : Nat) : String :=
  String.ofList (List.replicate (4 - (toString n).length) '0') ++ toString n

/-- `std::format` of a time, in seconds since the epoch, as year, month, day and
time of day; the years before our era are left out. -/
def to_iso8601 (tp : Int) : String :=
  let days := tp / 86400 + 719468
  let time := (tp % 86400).toNat
  let era := days / 146097
  let day_of_era := days % 146097
  let year_of_era := (day_of_era - day_of_era / 1460 + day_of_era / 36524
    - day_of_era / 146096) / 365
  let day_of_year := day_of_era - (365 * year_of_era + year_of_era / 4 - year_of_era / 100)
  -- counted from March, so that a leap day comes last
  let month_from_march := (5 * day_of_year + 2) / 153
  let day := (day_of_year - (153 * month_from_march + 2) / 5 + 1).toNat
  let month := (if month_from_march < 10 then month_from_march + 3 else month_from_march - 9).toNat
  let year := (year_of_era + era * 400 + if month ≤ 2 then 1 else 0).toNat
  four_digits year ++ "-" ++ two_digits month ++ "-" ++ two_digits day ++ "T" ++
    two_digits (time / 3600) ++ ":" ++ two_digits (time % 3600 / 60) ++ ":" ++
    two_digits (time % 60) ++ "Z"

example : to_iso8601 1786284201 = "2026-08-09T14:03:21Z" := by decide

/-- A row of `games`. -/
structure GameRecord where
  id : Nat
  white_username : String
  black_username : String
  winner_username : Option String
  end_reason : String
  started_at : String
  ended_at : String
deriving DecidableEq, Repr

structure UserRepository where
  users : List User
  games : List GameRecord
  primary_key : (users.map User.username).Nodup

namespace UserRepository

def read_rating (s : UserRepository) (username : String) : Option Int :=
  (s.users.find? fun user => user.username = username).map User.rating

/-- `UPDATE users SET rating = ? WHERE username = ?`, on one row. -/
def updated (username : String) (rating : Int) (user : User) : User :=
  if user.username = username then { user with rating := rating } else user

theorem updated_username (username : String) (rating : Int) (user : User) :
    (updated username rating user).username = user.username := by
  unfold updated
  split_ifs <;> rfl

theorem map_updated_username (username : String) (rating : Int) (users : List User) :
    (users.map (updated username rating)).map User.username = users.map User.username := by
  rw [List.map_map]
  exact List.map_congr_left fun user _ => updated_username username rating user

def write_rating (s : UserRepository) (username : String) (rating : Int) : UserRepository where
  users := s.users.map (updated username rating)
  games := s.games
  primary_key := by
    rw [map_updated_username]
    exact s.primary_key

/-- Both ratings, in one transaction. False if either user is unknown. -/
def rerate_pair (s : UserRepository) (first second : String) (compute : Int → Int → Int × Int) :
    UserRepository × Bool :=
  match s.read_rating first, s.read_rating second with
  | some before_first, some before_second =>
      let after := compute before_first before_second
      ((s.write_rating first after.1).write_rating second after.2, true)
  -- rolled back: nothing was written yet
  | _, _ => (s, false)

def rerate (s : UserRepository) (username : String) (compute : Int → Int) :
    UserRepository × Bool :=
  match s.read_rating username with
  | some before => (s.write_rating username (compute before), true)
  | none => (s, false)

/-- The ids of `games` count up from one. -/
def record_game (s : UserRepository) (white_username black_username : String)
    (winner_username : Option String) (end_reason : String) (started_at ended_at : Int) :
    UserRepository :=
  { s with games := s.games ++ [{
      id := s.games.length + 1
      white_username := white_username
      black_username := black_username
      winner_username := winner_username
      end_reason := end_reason
      started_at := to_iso8601 started_at
      ended_at := to_iso8601 ended_at }] }

end UserRepository

/-! ## `rating_service.cpp` -/

section Results

variable {R : Type*} [Field R] [LinearOrder R] [FloorRing R]

/-- The score from White's point of view. -/
def white_score (R : Type*) [Field R] (winner : Option PieceColor) : R :=
  match winner with
  | none => 1 / 2
  | some .White => 1
  | some .Black => 0

def apply_game_result (expected_score : Int → Int → R) (users : UserRepository)
    (winner : Option PieceColor) (white_username black_username : String) : UserRepository :=
  (users.rerate_pair white_username black_username fun white black =>
    (elo_updated_rating expected_score white black (white_score R winner) kDefaultKFactor,
      elo_updated_rating expected_score black white (1 - white_score R winner) kDefaultKFactor)).1

def apply_forfeit (users : UserRepository) (loser_username : String) : UserRepository :=
  (users.rerate loser_username fun rating => rating - kDisconnectPenalty).1

/-! ## `on_result` -/

/-- What `on_result` is called with. -/
structure Report where
  reason : GameEndReason
  winner : Option PieceColor
  white : String
  black : String
  started_at : Int
deriving DecidableEq, Repr

/-- The first half of `on_result`. -/
def apply_result (expected_score : Int → Int → R) (users : UserRepository) (r : Report) :
    UserRepository :=
  if r.reason = .Disconnect then
    -- the loser is whoever is not the winner
    apply_forfeit users (if r.winner = some .White then r.black else r.white)
  else
    apply_game_result expected_score users r.winner r.white r.black

/-- The second half. -/
def record_result (users : UserRepository) (r : Report) (ended_at : Int) : UserRepository :=
  let winner_username := r.winner.map fun color => if color = .White then r.white else r.black
  let end_reason := match r.reason with
    | .Decisive => "decisive"
    | .Draw => "draw"
    | .Disconnect => "disconnect"
  users.record_game r.white r.black winner_username end_reason r.started_at ended_at

/-- The store, and the calls of `on_result` still to record their game. -/
structure ResultDesk where
  users : UserRepository
  calls : List Report := []

inductive DeskEvent
  | rated (r : Report)
  | recorded (r : Report)
deriving DecidableEq, Repr

inductive DeskOp
  /-- A match reports. -/
  | on_result (r : Report)
  /-- One of the calls goes on. -/
  | proceed (call : Nat) (now : Int)
deriving DecidableEq, Repr

def ResultDesk.exec (expected_score : Int → Int → R) :
    Step ResultDesk DeskOp DeskEvent Empty
  | s, .on_result r =>
      return (⟨apply_result expected_score s.users r, s.calls ++ [r]⟩, [.rated r])
  | s, .proceed call now =>
      match s.calls[call]? with
      | none => return (s, [])
      | some r => return (⟨record_result s.users r now, s.calls.eraseIdx call⟩, [.recorded r])

end Results

/-! ## Rounding -/

section Rounding

variable {R : Type*} [Field R] [LinearOrder R] [IsStrictOrderedRing R] [FloorRing R]

/-- **Both ways alike.** -/
theorem lround_neg (x : R) : lround (-x) = -lround x := by
  unfold lround
  rcases lt_trichotomy x 0 with hneg | rfl | hpos
  · rw [if_pos (by linarith), if_neg (by linarith), neg_neg]
  · have hhalf : ⌊(0 : R) + 1 / 2⌋ = 0 := by
      rw [Int.floor_eq_zero_iff]
      constructor <;> norm_num
    simp only [neg_zero, le_refl, if_true, hhalf]
  · rw [if_neg (by linarith), if_pos (le_of_lt hpos), neg_neg]

/-- **An exchange makes no points.** -/
theorem elo_exchange {expected_score : Int → Int → R} {white black : Int}
    (hexpected : expected_score white black + expected_score black white = 1) (score : R)
    (k : Int) :
    elo_updated_rating expected_score white black score k +
      elo_updated_rating expected_score black white (1 - score) k = white + black := by
  have hmirror : (k : R) * (1 - score - expected_score black white)
      = -((k : R) * (score - expected_score white black)) := by
    have hblack : expected_score black white = 1 - expected_score white black := by
      linarith
    rw [hblack]
    ring
  unfold elo_updated_rating
  rw [hmirror, lround_neg]
  ring

end Rounding

/-- Two players expect one point between them. -/
theorem elo_expected_score_add (a b : Int) :
    elo_expected_score a b + elo_expected_score b a = 1 := by
  unfold elo_expected_score
  have hopposite : ((a - b : Int) : ℝ) / 400 = -(((b - a : Int) : ℝ) / 400) := by
    push_cast
    ring
  rw [hopposite, Real.rpow_neg (by norm_num)]
  have hpos : (0 : ℝ) < (10 : ℝ) ^ (((b - a : Int) : ℝ) / 400) :=
    Real.rpow_pos_of_pos (by norm_num) _
  field_simp
  ring

/-! ## The sum of the ratings -/

namespace UserRepository

def total (s : UserRepository) : Int := (s.users.map User.rating).sum

variable {s : UserRepository} {username : String}

/-- Rows of other users are not written. -/
theorem map_updated_of_notMem {users : List User} (h : username ∉ users.map User.username)
    (rating : Int) : users.map (updated username rating) = users := by
  conv_rhs => rw [← List.map_id users]
  refine List.map_congr_left ?_
  intro user hmem
  unfold updated
  rw [if_neg]
  · rfl
  · rintro rfl
    exact h (List.mem_map_of_mem hmem)

/-- One row changes the sum by what its rating changes. -/
theorem sum_updated {users : List User} (hkey : (users.map User.username).Nodup) {before : Int}
    (hread : (users.find? fun user => user.username = username).map User.rating = some before)
    (after : Int) :
    ((users.map (updated username after)).map User.rating).sum
      = (users.map User.rating).sum - before + after := by
  induction users with
  | nil => cases hread
  | cons user rest ih =>
      obtain ⟨hnotin, hrest⟩ := List.nodup_cons.mp hkey
      simp only [List.map_cons, List.sum_cons]
      by_cases huser : user.username = username
      · rw [List.find?_cons_of_pos (by simpa using huser)] at hread
        rw [huser] at hnotin
        obtain rfl : user.rating = before := Option.some.inj hread
        rw [map_updated_of_notMem hnotin, updated, if_pos huser]
        dsimp only
        omega
      · rw [List.find?_cons_of_neg (by simpa using huser)] at hread
        rw [ih hrest hread, updated, if_neg huser]
        omega

theorem total_write_rating {before : Int} (hread : s.read_rating username = some before)
    (after : Int) : (s.write_rating username after).total = s.total - before + after :=
  sum_updated s.primary_key hread after

/-- A user's rating is not changed by writing another's. -/
theorem read_rating_write_of_ne {other : String} (hne : other ≠ username) (rating : Int) :
    (s.write_rating username rating).read_rating other = s.read_rating other := by
  unfold read_rating write_rating
  dsimp only
  rw [List.find?_map]
  have hsame : ((fun user : User => decide (user.username = other)) ∘ updated username rating)
      = fun user : User => decide (user.username = other) := by
    funext user
    rw [Function.comp_apply, updated_username]
  rw [hsame]
  cases hfind : s.users.find? fun user => decide (user.username = other) with
  | none => rfl
  | some user =>
      have hother : user.username = other := by simpa using List.find?_some hfind
      rw [Option.map_some, Option.map_some, Option.map_some, updated, if_neg]
      rw [hother]
      exact hne

/-- **A pair is rated as one.** -/
theorem total_rerate_pair {first second : String} (hne : first ≠ second) {a b : Int}
    (hfirst : s.read_rating first = some a) (hsecond : s.read_rating second = some b)
    (compute : Int → Int → Int × Int) :
    (s.rerate_pair first second compute).1.total
      = s.total - a - b + ((compute a b).1 + (compute a b).2) := by
  unfold rerate_pair
  rw [hfirst, hsecond]
  dsimp only
  rw [total_write_rating ((read_rating_write_of_ne hne.symm _).trans hsecond),
    total_write_rating hfirst]
  ring

theorem total_rerate {a : Int} (hread : s.read_rating username = some a)
    (compute : Int → Int) :
    (s.rerate username compute).1.total = s.total - a + compute a := by
  unfold rerate
  rw [hread]
  exact total_write_rating hread _

end UserRepository

/-! ## Conservation -/

section Conservation

variable {R : Type*} [Field R] [LinearOrder R] [IsStrictOrderedRing R] [FloorRing R]
  {expected_score : Int → Int → R}

/-- Between two users, each with an account. -/
def Report.BetweenUsers (users : UserRepository) (r : Report) : Prop :=
  (users.read_rating r.white).isSome ∧ (users.read_rating r.black).isSome ∧ r.white ≠ r.black

/-- What a result costs, all users together. -/
def Report.penalty (r : Report) : Int := if r.reason = .Disconnect then kDisconnectPenalty else 0

/-- **One result**: points change hands, and only a penalty takes any away. -/
theorem total_apply_result (hexpected : ∀ a b, expected_score a b + expected_score b a = 1)
    {users : UserRepository} {r : Report} (hr : r.BetweenUsers users) :
    (apply_result expected_score users r).total = users.total - r.penalty := by
  obtain ⟨hwhite, hblack, hne⟩ := hr
  obtain ⟨a, ha⟩ := Option.isSome_iff_exists.mp hwhite
  obtain ⟨b, hb⟩ := Option.isSome_iff_exists.mp hblack
  unfold apply_result Report.penalty
  by_cases hreason : r.reason = .Disconnect
  · rw [if_pos hreason, if_pos hreason]
    unfold apply_forfeit
    by_cases hwinner : r.winner = some .White
    · rw [if_pos hwinner, UserRepository.total_rerate hb]
      ring
    · rw [if_neg hwinner, UserRepository.total_rerate ha]
      ring
  · rw [if_neg hreason, if_neg hreason]
    unfold apply_game_result
    rw [UserRepository.total_rerate_pair hne ha hb]
    dsimp only
    rw [elo_exchange (hexpected a b)]
    ring

theorem total_record_result (users : UserRepository) (r : Report) (ended_at : Int) :
    (record_result users r ended_at).total = users.total := rfl

end Conservation

namespace ResultDesk

/-- Every match is between two users. -/
def BetweenUsers (s : ResultDesk) (_ : List DeskEvent) : DeskOp → Prop
  | .on_result r => r.BetweenUsers s.users
  | .proceed _ _ => True

instance (s : ResultDesk) (tr : List DeskEvent) : DecidablePred (BetweenUsers s tr)
  | .on_result _ => inferInstanceAs (Decidable (_ ∧ _))
  | .proceed _ _ => inferInstanceAs (Decidable True)

/-- A result that came of a player who did not return. -/
def forfeited : DeskEvent → Bool
  | .rated r => r.reason = .Disconnect
  | .recorded _ => false

variable {R : Type*} [Field R] [LinearOrder R] [IsStrictOrderedRing R] [FloorRing R]
  {expected_score : Int → Int → R}

/-- **Ratings are conserved**, but for the penalties. -/
theorem ratings_are_conserved (hexpected : ∀ a b, expected_score a b + expected_score b a = 1)
    {s₀ s : ResultDesk} {tr : List DeskEvent}
    (hrun : Reach (exec expected_score) BetweenUsers s₀ s tr) :
    s.users.total = s₀.users.total - kDisconnectPenalty * tr.countP forfeited := by
  refine hrun.invariant (P := fun s tr =>
    s.users.total = s₀.users.total - kDisconnectPenalty * tr.countP forfeited) ?_ ?_
  · simp
  · intro s tr op s' os _ ih hmeets hexec
    rw [List.countP_append]
    cases op with
    | on_result r =>
        cases hexec
        show (apply_result expected_score s.users r).total = _
        rw [total_apply_result hexpected hmeets, ih, List.countP_singleton]
        unfold Report.penalty forfeited
        by_cases hreason : r.reason = .Disconnect
        · simp only [hreason, if_true, decide_true]
          push_cast
          ring
        · simp [hreason]
    | proceed call now =>
        unfold exec at hexec
        dsimp only at hexec
        split at hexec
        · cases hexec
          simpa using ih
        · cases hexec
          simpa [total_record_result, forfeited] using ih

/-- Two users at the starting rating. -/
def two_users : ResultDesk where
  users := ⟨[⟨"white", kStartingRating⟩, ⟨"black", kStartingRating⟩], [], by decide⟩

/-- A draw, a win and a forfeit, on the curve of the source; the first two games are
recorded in the other order. -/
theorem three_results : ∃ s tr,
    run (exec elo_expected_score) two_users
      [.on_result ⟨.Draw, none, "white", "black", 0⟩,
        .on_result ⟨.Decisive, some .Black, "black", "white", 0⟩, .proceed 1 60, .proceed 0 61,
        .on_result ⟨.Disconnect, some .White, "white", "black", 90⟩] = .ok (s, tr) ∧
    s.users.total = 2390 := by
  obtain ⟨⟨s, tr⟩, hrun, hp⟩ := exists_ok_such (p := fun r => r.2.countP forfeited = 1) (x :=
    run (exec elo_expected_score) two_users
      [.on_result ⟨.Draw, none, "white", "black", 0⟩,
        .on_result ⟨.Decisive, some .Black, "black", "white", 0⟩, .proceed 1 60, .proceed 0 61,
        .on_result ⟨.Disconnect, some .White, "white", "black", 90⟩]) (by decide)
  have hone : tr.countP forfeited = 1 := of_decide_eq_true hp
  refine ⟨s, tr, hrun, ?_⟩
  rw [ratings_are_conserved elo_expected_score_add (reach_of_meets (by decide) hrun), hone]
  decide

end ResultDesk

end KungFuChess
