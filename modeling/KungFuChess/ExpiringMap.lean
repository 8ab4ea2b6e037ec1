/-
Maps whose entries expire.

An entry is put under a key with the time it expires, and a look-up that finds it
expired takes it out. Whether it has been taken out yet cannot be told from the
answers: a map agrees with the one that never takes anything out (`Tracks`), putting
and finding keep that, and a look-up answers what the other map has under the key,
if it has not expired (`find_eq`). An answer is right whatever the clock does
(`find_some`); that a live entry is found takes a clock that does not go back.

Nothing here is about a particular program.
-/
import Mathlib.Logic.Function.Basic
import Mathlib.Order.Lattice

set_option autoImplicit false

namespace ExpiringMap

variable {K V T : Type*}

/-- A value, and when it is over. -/
structure Entry (V T : Type*) where
  value : V
  expires_at : T
deriving DecidableEq, Repr

/-- A map, read by lookup. -/
abbrev Table (K V T : Type*) := K → Option (Entry V T)

def empty : Table K V T := fun _ => none

variable [DecidableEq K]

/-- Whatever was under the key is written over. -/
def put (t : Table K V T) (k : K) (v : V) (expires_at : T) : Table K V T :=
  Function.update t k (some ⟨v, expires_at⟩)

theorem put_same (t : Table K V T) (k : K) (v : V) (expires_at : T) :
    put t k v expires_at k = some ⟨v, expires_at⟩ := Function.update_self ..

theorem put_other (t : Table K V T) {k k' : K} (hne : k' ≠ k) (v : V) (expires_at : T) :
    put t k v expires_at k' = t k' := Function.update_of_ne hne ..

/-- The key is taken out. -/
def drop (t : Table K V T) (k : K) : Table K V T := Function.update t k none

theorem drop_eq_some {t : Table K V T} {k k' : K} {e : Entry V T} :
    drop t k k' = some e ↔ k' ≠ k ∧ t k' = some e := by
  unfold drop
  by_cases hk : k' = k
  · rw [hk, Function.update_self]
    exact iff_of_false nofun fun h => h.1 rfl
  · rw [Function.update_of_ne hk, and_iff_right hk]

variable [LinearOrder T]

/-- What is found, and the table without it if it has expired. -/
def find (t : Table K V T) (k : K) (now : T) : Table K V T × Option V :=
  match t k with
  | none => (t, none)
  | some e => if e.expires_at ≤ now then (Function.update t k none, none) else (t, some e.value)

/-- What a table that takes nothing out would answer. -/
def live (spec : Table K V T) (k : K) (now : T) : Option V :=
  ((spec k).filter fun e => now < e.expires_at).map Entry.value

/-- The entries of `spec`, but for some that had expired by `last`. -/
def Tracks (t spec : Table K V T) (last : T) : Prop :=
  ∀ k, t k = spec k ∨ t k = none ∧ ∀ e, spec k = some e → e.expires_at ≤ last

variable {t spec : Table K V T} {k : K} {v : V} {last now : T}

/-- Looking up puts nothing in. -/
theorem of_find {k' : K} {e : Entry V T} (h : (find t k now).1 k' = some e) : t k' = some e := by
  unfold find at h
  cases ht : t k with
  | none =>
      rw [ht] at h
      exact h
  | some e' =>
      rw [ht] at h
      dsimp only at h
      split_ifs at h
      · exact (drop_eq_some.mp h).2
      · exact h

omit [DecidableEq K] in
theorem Tracks.empty (last : T) : Tracks (empty : Table K V T) empty last := fun _ => .inl rfl

omit [DecidableEq K] in
theorem Tracks.refl (t : Table K V T) (last : T) : Tracks t t last := fun _ => .inl rfl

omit [DecidableEq K] in
/-- Later on, more may have expired. -/
theorem Tracks.mono (h : Tracks t spec last) (hle : last ≤ now) : Tracks t spec now := by
  intro k
  rcases h k with heq | ⟨hnone, hexpired⟩
  · exact .inl heq
  · exact .inr ⟨hnone, fun e he => (hexpired e he).trans hle⟩

/-- Putting keeps the two alike. -/
theorem Tracks.put (h : Tracks t spec last) (k : K) (v : V) (expires_at : T) :
    Tracks (put t k v expires_at) (put spec k v expires_at) last := by
  intro k'
  by_cases hk : k' = k
  · rw [hk, put_same, put_same]
    exact .inl rfl
  · rw [put_other t hk, put_other spec hk]
    exact h k'

/-- So does dropping. -/
theorem Tracks.drop (h : Tracks t spec last) (k : K) : Tracks (drop t k) (drop spec k) last := by
  intro k'
  unfold ExpiringMap.drop
  by_cases hk : k' = k
  · rw [hk, Function.update_self, Function.update_self]
    exact .inl rfl
  · rw [Function.update_of_ne hk, Function.update_of_ne hk]
    exact h k'

/-- **What is found is there**, whatever the clock does. -/
theorem find_some (h : Tracks t spec last) (hfind : (find t k now).2 = some v) :
    ∃ e, spec k = some e ∧ e.value = v ∧ now < e.expires_at := by
  unfold find at hfind
  cases ht : t k with
  | none =>
      rw [ht] at hfind
      cases hfind
  | some e =>
      rw [ht] at hfind
      dsimp only at hfind
      split_ifs at hfind with hexpired
      obtain rfl := Option.some.inj hfind
      rcases h k with heq | ⟨hnone, _⟩
      · exact ⟨e, heq ▸ ht, rfl, not_le.mp hexpired⟩
      · exact absurd (ht.symm.trans hnone) nofun

/-- **Taking out is invisible** to a clock that does not go back. -/
theorem find_eq (h : Tracks t spec last) (hle : last ≤ now) :
    (find t k now).2 = live spec k now := by
  unfold find live
  rcases h k with heq | ⟨hnone, hexpired⟩
  · rw [heq]
    cases spec k with
    | none => rfl
    | some e =>
        rw [Option.filter_some]
        dsimp only
        by_cases he : e.expires_at ≤ now
        · rw [if_pos he, if_neg (by simpa using he)]
          rfl
        · rw [if_neg he, if_pos (by simpa using he)]
          rfl
  · rw [hnone]
    cases hs : spec k with
    | none => rfl
    | some e =>
        rw [Option.filter_some, if_neg (by simpa using (hexpired e hs).trans hle)]
        rfl

/-- Looking up keeps track, and what it takes out had expired by then. -/
theorem Tracks.find (h : Tracks t spec last) (k : K) (now : T) :
    Tracks (find t k now).1 spec (max last now) := by
  unfold ExpiringMap.find
  cases ht : t k with
  | none => exact h.mono (le_max_left _ _)
  | some e =>
      dsimp only
      split_ifs with hexpired
      · intro k'
        dsimp only
        by_cases hk : k' = k
        · rw [hk, Function.update_self]
          refine .inr ⟨rfl, fun e' he' => ?_⟩
          rcases h k with heq | ⟨hnone, _⟩
          · obtain rfl := Option.some.inj (ht.symm.trans (heq.trans he'))
            exact hexpired.trans (le_max_right _ _)
          · exact absurd (ht.symm.trans hnone) nofun
        · rw [Function.update_of_ne hk]
          exact h.mono (le_max_left _ _) k'
      · exact h.mono (le_max_left _ _)

end ExpiringMap
