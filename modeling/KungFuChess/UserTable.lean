/-
**Accounts**: the other half of `kfc/database/user_repository.cpp`, `password_hash.cpp`,
and `kfc/server/auth_token_store.cpp`.

A row of `users` has a password hash beside its rating. `UserTable` keeps that column
next to the repository of `Ratings`, with the proof that the two have the same names,
so that whatever changes ratings or records games can be run on the repository as it
is (`UserTable.updated`).

Argon2 and the random numbers are not the program's: what they do and draw are
parameters and inputs.
-/
import KungFuChess.ClientSession
import KungFuChess.ExpiringMap
import KungFuChess.Ratings

set_option autoImplicit false

namespace KungFuChess

/-! ## `password_hash.cpp` -/

/-- The two functions of the Argon2 library, at the costs the program calls them with. -/
structure Argon2 where
  hash_encoded (salt : List UInt8) (password : String) : String
  verify (stored password : String) : Bool

/-- What its documentation promises of them. -/
structure Argon2.Documented (argon2 : Argon2) : Prop where
  encoded : ∀ salt password, "$argon2id$".toList <+: (argon2.hash_encoded salt password).toList
  verifies : ∀ salt password, argon2.verify (argon2.hash_encoded salt password) password = true

namespace password_hash

/-- The stored text begins as a hash does. -/
def is_argon2 (stored : String) : Bool := "$argon2id$".toList.isPrefixOf stored.toList

/-- The salt is drawn for each hash. -/
def hash_password (argon2 : Argon2) (salt : List UInt8) (password : String) : String :=
  argon2.hash_encoded salt password

/-- Only a hash is verified. -/
def verify_password (argon2 : Argon2) (password stored : String) : Bool :=
  is_argon2 stored && argon2.verify stored password

/-- One's own password is verified. -/
theorem verify_password_hash_password {argon2 : Argon2} (h : argon2.Documented)
    (salt : List UInt8) (password : String) :
    verify_password argon2 password (hash_password argon2 salt password) = true := by
  unfold verify_password hash_password is_argon2
  rw [List.isPrefixOf_iff_prefix.mpr (h.encoded salt password), h.verifies]
  rfl

end password_hash

open password_hash

/-! ## `user_repository.cpp` -/

/-- `std::isalnum` of a byte, in the "C" locale; a letter of more than one byte is none. -/
def is_valid_new_username (username : String) : Bool :=
  3 ≤ username.utf8ByteSize && username.utf8ByteSize ≤ 24 &&
    username.toList.all fun c => c.isAlphanum || c = '_'

/-- 6 to 128 bytes. -/
def is_valid_new_password (password : String) : Bool :=
  6 ≤ password.utf8ByteSize && password.utf8ByteSize ≤ 128

namespace auth_reasons

def kWrongPassword : String := "wrong_password"
def kInvalidUsername : String := "invalid_username"
def kWeakPassword : String := "weak_password"

end auth_reasons

/-- `IUserStore::AuthOutcome`, with what a session does not read. -/
structure FullAuthOutcome extends AuthOutcome where
  newly_registered : Bool := false
deriving DecidableEq

/-- The table `users`, with both of its columns beside the name. -/
structure UserTable where
  repository : UserRepository
  /-- The column of `users`, by its primary key. -/
  password_hash : String → Option String
  hashed : ∀ username, (password_hash username).isSome = true ↔
    username ∈ repository.users.map User.username

namespace UserTable

def empty : UserTable := ⟨⟨[], [], List.nodup_nil⟩, fun _ => none, by simp⟩

/-- A transaction that leaves the names of the users as they are. -/
def updated (t : UserTable) (f : UserRepository → UserRepository)
    (hf : ∀ r, (f r).users.map User.username = r.users.map User.username) : UserTable where
  repository := f t.repository
  password_hash := t.password_hash
  hashed username := by
    rw [hf]
    exact t.hashed username

def user_exists (t : UserTable) (username : String) : Bool := (t.password_hash username).isSome

/-- `INSERT INTO users`. -/
def insert (t : UserTable) (username stored : String) (rating : Int)
    (hnew : t.password_hash username = none) : UserTable where
  repository :=
    { t.repository with
      users := t.repository.users ++ [⟨username, rating⟩]
      primary_key := by
        have hfresh : username ∉ t.repository.users.map User.username := by
          rw [← t.hashed, hnew]
          exact Bool.false_ne_true
        rw [List.map_append, List.map_singleton]
        refine List.nodup_append.mpr ⟨t.repository.primary_key, List.nodup_singleton _, ?_⟩
        intro name hname other hother heq
        obtain rfl : name = username := heq.trans (List.mem_singleton.mp hother ▸ rfl)
        exact hfresh hname }
  password_hash := Function.update t.password_hash username (some stored)
  hashed name := by
    dsimp only
    rw [List.map_append, List.map_singleton, List.mem_append, List.mem_singleton, ← t.hashed]
    by_cases hname : name = username
    · rw [hname, Function.update_self]
      exact ⟨fun _ => .inr rfl, fun _ => rfl⟩
    · rw [Function.update_of_ne hname]
      exact ⟨.inl, fun h => h.resolve_right hname⟩

/-- One transaction: a name is registered on first sight, and verified from then on. -/
def authenticate (argon2 : Argon2) (t : UserTable) (salt : List UInt8)
    (username password : String) : UserTable × FullAuthOutcome :=
  match hstored : t.password_hash username with
  | some stored =>
      if ¬ verify_password argon2 password stored then
        (t, { ok := false, reason := auth_reasons.kWrongPassword })
      else
        (t, { ok := true, rating := (t.repository.read_rating username).getD 0 })
  | none =>
      if ¬ is_valid_new_username username then
        (t, { ok := false, reason := auth_reasons.kInvalidUsername })
      else if ¬ is_valid_new_password password then
        (t, { ok := false, reason := auth_reasons.kWeakPassword })
      else
        (t.insert username (hash_password argon2 salt password) kStartingRating hstored,
          { ok := true, rating := kStartingRating, newly_registered := true })

/-- The rows of a player, as `ORDER BY ended_at DESC` has them; rows that ended in the
same second come in whatever order the database has. -/
def history_for (order_by : List GameRecord → List GameRecord) (t : UserTable)
    (username : String) : List GameRecord :=
  order_by (t.repository.games.filter fun game =>
    game.white_username = username || game.black_username = username)

end UserTable

/-! ## `auth_token_store.cpp` -/

/-- The tokens that have been issued and not been found expired. -/
abbrev AuthTokenStore := ExpiringMap.Table String String Int

namespace AuthTokenStore

/-- A day. -/
def kTokenLifetime : Int := 24 * 60 * 60 * kSecond

def kHexDigits : List Char := "0123456789abcdef".toList

def hex_digit (n : Nat) : Char := kHexDigits.getD n '0'

/-- Two digits for each byte that was drawn. -/
def random_hex_token (raw : List UInt8) : String :=
  String.ofList (raw.flatMap fun byte => [hex_digit (byte.toNat / 16), hex_digit (byte.toNat % 16)])

/-- A token is kept under its own text, with whom it is for and when it is over. -/
def issue (t : AuthTokenStore) (raw : List UInt8) (username : String) (now : Int) :
    AuthTokenStore × String :=
  (ExpiringMap.put t (random_hex_token raw) username (now + kTokenLifetime), random_hex_token raw)

/-- A token that is over is taken out when it is looked up. -/
def username_for (t : AuthTokenStore) (token : String) (now : Int) :
    AuthTokenStore × Option String :=
  ExpiringMap.find t token now

end AuthTokenStore

end KungFuChess
