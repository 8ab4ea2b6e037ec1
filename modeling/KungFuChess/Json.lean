/-
**JSON values**, as a C++ program handles them: built from pairs, read back field
by field.

An object is an ordered map: its members are kept sorted by key, one for each key.
`of_pairs` builds one as an initializer list does, `at_`, `contains` and `value`
read it, and the typed reads convert as the language converts between integer
types. A read that would throw is `none`.

What a program wants to know of a type it writes and reads is `Undoes`: reading what
was written gives the value back, for the values in range. The rules for numbers,
texts, lists and enumerations are here, and the rule for looking up the fields of an
object that was built from pairs (`at_of_pairs`).
-/
import Mathlib.Algebra.Ring.Int.Defs
import Mathlib.Data.List.Basic
import Mathlib.Data.String.Basic

set_option autoImplicit false

/-- A value, as it is in memory: the members of an object are sorted by key. -/
inductive Json
  | null
  | boolean (value : Bool)
  /-- A number without a fraction or an exponent. -/
  | number (value : Int)
  /-- Any other number, by the integer it is cast to. -/
  | real (truncated : Int)
  | string (value : String)
  | array (items : List Json)
  | object (members : List (String × Json))

namespace Json

/-! ## Ordered maps -/

section Members

variable {α : Type*}

/-- The keys go up along the members, as in `std::map`. -/
def Sorted (ms : List (String × α)) : Prop := ms.Pairwise fun m m' => m.1 < m'.1

/-- Inserts a new key; a key that is there keeps its value. -/
def emplace (key : String) (value : α) : List (String × α) → List (String × α)
  | [] => [(key, value)]
  | m :: ms =>
      if key < m.1 then (key, value) :: m :: ms
      else if m.1 < key then m :: emplace key value ms
      else m :: ms

/-- Inserts a key or gives it a new value. -/
def assign (key : String) (value : α) : List (String × α) → List (String × α)
  | [] => [(key, value)]
  | m :: ms =>
      if key < m.1 then (key, value) :: m :: ms
      else if m.1 < key then m :: assign key value ms
      else (key, value) :: ms

theorem sorted_nil : Sorted ([] : List (String × α)) := List.Pairwise.nil

theorem mem_emplace {key : String} {value : α} {ms : List (String × α)} {m : String × α}
    (h : m ∈ emplace key value ms) : m = (key, value) ∨ m ∈ ms := by
  induction ms with
  | nil => simpa [emplace] using h
  | cons m' ms ih =>
      rw [emplace] at h
      split_ifs at h
      · simpa using h
      · rcases List.mem_cons.mp h with rfl | h
        · exact .inr List.mem_cons_self
        · exact (ih h).imp_right (List.mem_cons_of_mem _)
      · exact .inr h

theorem mem_assign {key : String} {value : α} {ms : List (String × α)} {m : String × α}
    (h : m ∈ assign key value ms) : m = (key, value) ∨ m ∈ ms := by
  induction ms with
  | nil => simpa [assign] using h
  | cons m' ms ih =>
      rw [assign] at h
      split_ifs at h
      · simpa using h
      · rcases List.mem_cons.mp h with rfl | h
        · exact .inr List.mem_cons_self
        · exact (ih h).imp_right (List.mem_cons_of_mem _)
      · rcases List.mem_cons.mp h with rfl | h
        · exact .inl rfl
        · exact .inr (List.mem_cons_of_mem _ h)

theorem sorted_emplace {key : String} {value : α} {ms : List (String × α)} (h : Sorted ms) :
    Sorted (emplace key value ms) := by
  induction ms with
  | nil => simp [emplace, Sorted]
  | cons m ms ih =>
      obtain ⟨hm, hms⟩ := List.pairwise_cons.mp h
      rw [emplace]
      split_ifs with hlt hgt
      · refine List.pairwise_cons.mpr ⟨?_, h⟩
        intro m' hm'
        rcases List.mem_cons.mp hm' with rfl | hm'
        · exact hlt
        · exact hlt.trans (hm m' hm')
      · refine List.pairwise_cons.mpr ⟨?_, ih hms⟩
        intro m' hm'
        rcases mem_emplace hm' with rfl | hm'
        · exact hgt
        · exact hm m' hm'
      · exact h

theorem sorted_assign {key : String} {value : α} {ms : List (String × α)} (h : Sorted ms) :
    Sorted (assign key value ms) := by
  induction ms with
  | nil => simp [assign, Sorted]
  | cons m ms ih =>
      obtain ⟨hm, hms⟩ := List.pairwise_cons.mp h
      rw [assign]
      split_ifs with hlt hgt
      · refine List.pairwise_cons.mpr ⟨?_, h⟩
        intro m' hm'
        rcases List.mem_cons.mp hm' with rfl | hm'
        · exact hlt
        · exact hlt.trans (hm m' hm')
      · refine List.pairwise_cons.mpr ⟨?_, ih hms⟩
        intro m' hm'
        rcases mem_assign hm' with rfl | hm'
        · exact hgt
        · exact hm m' hm'
      · have hsame : m.1 = key := le_antisymm (not_lt.mp hlt) (not_lt.mp hgt)
        refine List.pairwise_cons.mpr ⟨?_, hms⟩
        intro m' hm'
        have hlater := hm m' hm'
        rwa [hsame] at hlater

@[simp] theorem lookup_pair (k key : String) (value : α) (ms : List (String × α)) :
    ((key, value) :: ms).lookup k = if k = key then some value else ms.lookup k := by
  rw [List.lookup_cons]
  by_cases hk : k = key
  · simp [hk]
  · rw [beq_false_of_ne hk, if_neg hk]

/-- A key before all others is not there. -/
theorem lookup_before {key : String} {ms : List (String × α)}
    (h : ∀ m ∈ ms, key < m.1) : ms.lookup key = none := by
  induction ms with
  | nil => rfl
  | cons m ms ih =>
      have hne : (key == m.1) = false := beq_false_of_ne (h m List.mem_cons_self).ne
      rw [List.lookup_cons, hne]
      exact ih fun m' hm' => h m' (List.mem_cons_of_mem _ hm')

/-- Reading after an insertion that gives way to what is there. -/
theorem lookup_emplace {key : String} {value : α} {ms : List (String × α)} (h : Sorted ms)
    (k : String) :
    (emplace key value ms).lookup k
      = if k = key then some ((ms.lookup key).getD value) else ms.lookup k := by
  induction ms with
  | nil =>
      by_cases hk : k = key
      · simp [emplace, hk]
      · simp [emplace, hk]
  | cons m ms ih =>
      obtain ⟨hm, hms⟩ := List.pairwise_cons.mp h
      rw [emplace]
      rcases lt_trichotomy key m.1 with hlt | hsame | hgt
      · -- a new least key
        have hnone : (m :: ms).lookup key = none := by
          refine lookup_before ?_
          intro m' hm'
          rcases List.mem_cons.mp hm' with rfl | hm'
          · exact hlt
          · exact hlt.trans (hm m' hm')
        rw [if_pos hlt, hnone, List.lookup_cons]
        by_cases hk : k = key
        · simp [hk]
        · rw [beq_false_of_ne hk, if_neg hk]
      · rw [if_neg hsame.not_lt, if_neg hsame.not_gt, List.lookup_cons, List.lookup_cons]
        by_cases hk : k = key
        · simp [hk, hsame]
        · rw [if_neg hk]
      · rw [if_neg hgt.not_gt, if_pos hgt, List.lookup_cons, List.lookup_cons, List.lookup_cons,
          ih hms]
        by_cases hk : k = key
        · rw [hk, if_pos rfl, beq_false_of_ne hgt.ne', if_pos rfl]
        · rw [if_neg hk, if_neg hk]

/-- Reading after an assignment. -/
theorem lookup_assign {key : String} {value : α} {ms : List (String × α)} (h : Sorted ms)
    (k : String) :
    (assign key value ms).lookup k = if k = key then some value else ms.lookup k := by
  induction ms with
  | nil =>
      by_cases hk : k = key
      · simp [assign, hk]
      · simp [assign, hk]
  | cons m ms ih =>
      obtain ⟨hm, hms⟩ := List.pairwise_cons.mp h
      rw [assign]
      rcases lt_trichotomy key m.1 with hlt | hsame | hgt
      · rw [if_pos hlt, List.lookup_cons]
        by_cases hk : k = key
        · simp [hk]
        · rw [beq_false_of_ne hk, if_neg hk]
      · rw [if_neg hsame.not_lt, if_neg hsame.not_gt, List.lookup_cons, List.lookup_cons]
        by_cases hk : k = key
        · simp [hk]
        · rw [if_neg hk, ← hsame, beq_false_of_ne hk]
      · rw [if_neg hgt.not_gt, if_pos hgt, List.lookup_cons, List.lookup_cons, ih hms]
        by_cases hk : k = key
        · simp [hk, beq_false_of_ne hgt.ne']
        · rw [if_neg hk, if_neg hk]

/-- The pairs inserted one after another. -/
def members_of (ps : List (String × α)) : List (String × α) :=
  ps.foldl (fun ms p => emplace p.1 p.2 ms) []

theorem members_of_spec (ps : List (String × α)) : ∀ ms : List (String × α), Sorted ms →
    Sorted (ps.foldl (fun ms p => emplace p.1 p.2 ms) ms) ∧
    (∀ m ∈ ps.foldl (fun ms p => emplace p.1 p.2 ms) ms, m ∈ ms ∨ m ∈ ps) ∧
    ∀ k, (ps.foldl (fun ms p => emplace p.1 p.2 ms) ms).lookup k
      = (ms.lookup k).or (ps.lookup k) := by
  induction ps with
  | nil =>
      intro ms h
      refine ⟨h, fun m hm => .inl hm, fun k => ?_⟩
      simp
  | cons p ps ih =>
      intro ms h
      obtain ⟨hsorted, hmem, hlookup⟩ := ih (emplace p.1 p.2 ms) (sorted_emplace h)
      refine ⟨hsorted, fun m hm => ?_, fun k => ?_⟩
      · rcases hmem m hm with hm | hm
        · rcases mem_emplace hm with rfl | hm
          · exact .inr List.mem_cons_self
          · exact .inl hm
        · exact .inr (List.mem_cons_of_mem _ hm)
      · rw [List.foldl_cons, hlookup, lookup_emplace h, List.lookup_cons]
        by_cases hk : k = p.1
        · rw [if_pos hk, hk, beq_self_eq_true]
          cases ms.lookup p.1 <;> rfl
        · rw [if_neg hk, beq_false_of_ne hk]

theorem sorted_members_of (ps : List (String × α)) : Sorted (members_of ps) :=
  (members_of_spec ps [] sorted_nil).1

theorem mem_members_of {ps : List (String × α)} {m : String × α} (h : m ∈ members_of ps) :
    m ∈ ps := by
  simpa using (members_of_spec ps [] sorted_nil).2.1 m h

@[simp] theorem lookup_members_of (ps : List (String × α)) (k : String) :
    (members_of ps).lookup k = ps.lookup k := by
  unfold members_of
  rw [(members_of_spec ps [] sorted_nil).2.2 k]
  rfl

end Members

/-! ## Values in range -/

/-- What a parser can give back: integers of 64 bits, and sorted objects. -/
inductive WellFormed : Json → Prop
  | null : WellFormed null
  | boolean (value : Bool) : WellFormed (boolean value)
  | number {value : Int} (low : -2 ^ 63 ≤ value) (high : value < 2 ^ 64) :
      WellFormed (number value)
  | string (value : String) : WellFormed (string value)
  | array {items : List Json} (items_ok : ∀ j ∈ items, WellFormed j) : WellFormed (array items)
  | object {members : List (String × Json)} (sorted : Sorted members)
      (members_ok : ∀ m ∈ members, WellFormed m.2) : WellFormed (object members)

/-- An object from an initializer list. -/
def of_pairs (ps : List (String × Json)) : Json := object (members_of ps)

theorem WellFormed.of_pairs {ps : List (String × Json)} (h : ∀ p ∈ ps, WellFormed p.2) :
    WellFormed (Json.of_pairs ps) := by
  refine .object (sorted_members_of ps) ?_
  intro m hm
  exact h m (mem_members_of hm)

/-- `j[key] = value`, of an object. -/
def set (j : Json) (key : String) (value : Json) : Json :=
  match j with
  | object members => object (assign key value members)
  | _ => j

theorem WellFormed.set {j : Json} (h : WellFormed j) (key : String) {value : Json}
    (hvalue : WellFormed value) : WellFormed (j.set key value) := by
  cases h with
  | object sorted members_ok =>
      refine .object (sorted_assign sorted) ?_
      intro m hm
      rcases mem_assign hm with rfl | hm
      · exact hvalue
      · exact members_ok m hm
  | null => exact .null
  | boolean value => exact .boolean value
  | number low high => exact .number low high
  | string value => exact .string value
  | array items_ok => exact .array items_ok

/-! ## Reading -/

/-- `j.at(key)`: throws on what is no object, and on a key that is not there. -/
def at_ (j : Json) (key : String) : Option Json :=
  match j with
  | object members => members.lookup key
  | _ => none

/-- `j.at(key).get_to(…)`. -/
def get_at {α : Type*} (j : Json) (key : String) (get : Json → Option α) : Option α :=
  (j.at_ key).bind get

/-- `j.contains(key)`. -/
def contains (j : Json) (key : String) : Bool := (j.at_ key).isSome

/-- A field that is read if `j.contains(key)`. -/
def get_optional {α : Type*} (j : Json) (key : String) (get : Json → Option α) :
    Option (Option α) :=
  if j.contains key then (j.get_at key get).map some else some none

/-- `j.value(key, absent)`: throws on what is no object, or is of another type. -/
def value {α : Type*} (j : Json) (key : String) (get : Json → Option α) (absent : α) : Option α :=
  match j with
  | object members =>
      match members.lookup key with
      | some found => get found
      | none => some absent
  | _ => none

@[simp] theorem at_of_pairs (ps : List (String × Json)) (key : String) :
    (of_pairs ps).at_ key = ps.lookup key := lookup_members_of ps key

/-- A field that was written is read. -/
theorem get_at_of_pairs {α : Type*} {ps : List (String × Json)} {key : String} {found : Json}
    {get : Json → Option α} {x : α} (h : ps.lookup key = some found) (hget : get found = some x) :
    (of_pairs ps).get_at key get = some x := by
  unfold get_at
  rw [at_of_pairs, h, Option.bind_some, hget]

/-- A field that was written if there was something to write. -/
theorem get_optional_of_at {α : Type*} (put : α → Json) {j : Json} {key : String}
    {get : Json → Option α} {x : Option α} (h : j.at_ key = x.map put)
    (hget : ∀ y, x = some y → get (put y) = some y) : j.get_optional key get = some x := by
  unfold get_optional contains get_at
  rw [h]
  cases x with
  | none => rfl
  | some y =>
      rw [Option.map_some, Option.isSome_some, if_pos rfl, Option.bind_some, hget y rfl]
      rfl

theorem value_of_pairs {α : Type*} {ps : List (String × Json)} {key : String} {found : Json}
    {get : Json → Option α} {x absent : α} (h : ps.lookup key = some found)
    (hget : get found = some x) : (of_pairs ps).value key get absent = some x := by
  unfold value of_pairs
  dsimp only
  rw [lookup_members_of, h]
  exact hget

theorem at_set_of_pairs (ps : List (String × Json)) (key k : String) (value : Json) :
    ((of_pairs ps).set key value).at_ k = if k = key then some value else ps.lookup k := by
  show (assign key value (members_of ps)).lookup k = _
  rw [lookup_assign (sorted_members_of ps), lookup_members_of]

/-- `get<bool>`. -/
def get_bool : Json → Option Bool
  | boolean value => some value
  | _ => none

/-- `get<std::string>`. -/
def get_string : Json → Option String
  | string value => some value
  | _ => none

/-- A signed integer type of `bits`, from whatever number is there. -/
def get_signed (bits : Nat) : Json → Option Int
  | number value => some (value.bmod (2 ^ bits))
  | real truncated => some (truncated.bmod (2 ^ bits))
  | boolean value => some (if value then 1 else 0)
  | _ => none

/-- The unsigned type in which the parser itself keeps numbers. -/
def get_unsigned (bits : Nat) : Json → Option Nat
  | number value => some (value % 2 ^ bits).toNat
  | real truncated => some (truncated % 2 ^ bits).toNat
  | _ => none

/-- `get<std::vector<T>>`, with the read of an item. -/
def get_array {α : Type*} (get : Json → Option α) : Json → Option (List α)
  | array items => items.mapM get
  | _ => none

/-! ## What was written is read -/

/-- `get` undoes `put` on the values in range, and what `put` writes is well formed. -/
structure Undoes {α : Type*} (put : α → Json) (get : Json → Option α) (Fits : α → Prop) : Prop where
  well_formed : ∀ x, Fits x → WellFormed (put x)
  get_put : ∀ x, Fits x → get (put x) = some x

/-- A value of the signed type of this many bits. -/
def FitsSigned (bits : Nat) (n : Int) : Prop := -2 ^ (bits - 1) ≤ n ∧ n < 2 ^ (bits - 1)

/-- A value of the unsigned type of this many bits. -/
def FitsUnsigned (bits n : Nat) : Prop := n < 2 ^ bits

theorem undoes_bool : Undoes boolean get_bool fun _ => True where
  well_formed b _ := .boolean b
  get_put _ _ := rfl

theorem undoes_string : Undoes string get_string fun _ => True where
  well_formed s _ := .string s
  get_put _ _ := rfl

theorem undoes_signed {bits : Nat} (hpos : 0 < bits) (hbits : bits ≤ 64) :
    Undoes number (get_signed bits) (FitsSigned bits) where
  well_formed n h := by
    have hle : (2 : Int) ^ (bits - 1) ≤ 2 ^ 63 := by
      exact_mod_cast Nat.pow_le_pow_right (by decide) (by omega)
    obtain ⟨hlow, hhigh⟩ := h
    exact .number (by omega) (by omega)
  get_put n h := by
    obtain ⟨hlow, hhigh⟩ := h
    have hdouble : (2 : Int) ^ bits = 2 ^ (bits - 1) * 2 := by
      obtain ⟨k, rfl⟩ := Nat.exists_eq_add_one.mpr hpos
      exact Int.pow_succ 2 k
    have hsame : n.bmod (2 ^ bits) = n := by
      refine Int.bmod_eq_of_le ?_ ?_
      · push_cast
        omega
      · push_cast
        omega
    rw [get_signed, hsame]

theorem undoes_unsigned {bits : Nat} (hbits : bits ≤ 64) :
    Undoes (fun n : Nat => number n) (get_unsigned bits) (FitsUnsigned bits) where
  well_formed n h := by
    have hle : 2 ^ bits ≤ 2 ^ 64 := Nat.pow_le_pow_right (by decide) hbits
    have hlt : n < 2 ^ 64 := Nat.lt_of_lt_of_le h hle
    exact .number (by omega) (by exact_mod_cast hlt)
  get_put n h := by
    have hsame : ((n : Int) % 2 ^ bits).toNat = n := by
      have hmod : (n : Int) % 2 ^ bits = n := Int.emod_eq_of_lt (by omega) (by exact_mod_cast h)
      rw [hmod]
      exact Int.toNat_natCast n
    rw [get_unsigned, hsame]

/-- A list is read back if each of its items is. -/
theorem undoes_array {α : Type*} {put : α → Json} {get : Json → Option α} {Fits : α → Prop}
    (h : Undoes put get Fits) :
    Undoes (fun xs => array (xs.map put)) (get_array get) fun xs => ∀ x ∈ xs, Fits x where
  well_formed xs hxs := by
    refine .array ?_
    intro j hj
    obtain ⟨x, hx, rfl⟩ := List.mem_map.mp hj
    exact h.well_formed x (hxs x hx)
  get_put xs hxs := by
    show (xs.map put).mapM get = some xs
    induction xs with
    | nil => rfl
    | cons x xs ih =>
        have hx := h.get_put x (hxs x List.mem_cons_self)
        have htail := ih fun y hy => hxs y (List.mem_cons_of_mem _ hy)
        rw [List.map_cons, List.mapM_cons, hx, htail]
        rfl

end Json
