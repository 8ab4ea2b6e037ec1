/-
**JSON text**, compact: no whitespace, characters beyond ASCII as they are.

`compact` writes a value and `read` reads it back (`read_compact`), as long as it is
well formed: an object that is read is built by assigning its members one by one,
so it comes out sorted. Nobody asks more of `read` than to read such texts.

The second half says how long a text is, in bytes (`compact_size`): a list or an
object is as long as what is in it, with its brackets, commas and keys, in whatever
order an object was built.
-/
import KungFuChess.Json
import Mathlib.Algebra.BigOperators.Group.List.Basic
import Mathlib.Data.Nat.Digits.Defs

set_option autoImplicit false

namespace Json

/-! ## Writing -/

def hex_digit (n : Nat) : Char := Nat.digitChar n

/-- What a character is written as, between quotes. -/
def escape (c : Char) : List Char :=
  if c = '"' then ['\\', '"']
  else if c = '\\' then ['\\', '\\']
  else if c = '\n' then ['\\', 'n']
  else if c = '\r' then ['\\', 'r']
  else if c = '\t' then ['\\', 't']
  else if c.toNat = 8 then ['\\', 'b']
  else if c.toNat = 12 then ['\\', 'f']
  else if c.toNat < 32 then
    ['\\', 'u', '0', '0', hex_digit (c.toNat / 16), hex_digit (c.toNat % 16)]
  else [c]

def quoted (s : String) : List Char := '"' :: s.toList.flatMap escape ++ ['"']

/-- A number, without leading zeros. -/
def decimal (n : Int) : List Char :=
  if n < 0 then '-' :: Nat.toDigits 10 n.natAbs else Nat.toDigits 10 n.natAbs

mutual

/-- The text of a value, with nothing between the tokens. -/
def compact : Json → List Char
  | null => ['n', 'u', 'l', 'l']
  | boolean value => if value then ['t', 'r', 'u', 'e'] else ['f', 'a', 'l', 's', 'e']
  | number value => decimal value
  | real truncated => decimal truncated ++ ['.', '0']
  | string value => quoted value
  | array items => '[' :: List.intercalate [','] (compact_items items) ++ [']']
  | object members => '{' :: List.intercalate [','] (compact_members members) ++ ['}']
termination_by structural j => j

def compact_items : List Json → List (List Char)
  | [] => []
  | j :: js => compact j :: compact_items js
termination_by structural js => js

def compact_members : List (String × Json) → List (List Char)
  | [] => []
  | m :: ms => (quoted m.1 ++ ':' :: compact m.2) :: compact_members ms
termination_by structural ms => ms

end

/-- One member of an object. -/
def compact_member (m : String × Json) : List Char := quoted m.1 ++ ':' :: compact m.2

theorem compact_items_eq (items : List Json) : compact_items items = items.map compact := by
  induction items with
  | nil => rfl
  | cons j js ih => rw [compact_items, List.map_cons, ih]

theorem compact_members_eq (members : List (String × Json)) :
    compact_members members = members.map compact_member := by
  induction members with
  | nil => rfl
  | cons m ms ih =>
      rw [compact_members, List.map_cons, ih]
      rfl

/-! ## Reading -/

/-- A list up to its closing bracket. It is not empty. -/
def read_list {α : Type*} (close : Char) (item : List Char → Option (α × List Char)) :
    Nat → List Char → Option (List α × List Char)
  | 0, _ => none
  | n + 1, cs =>
      match item cs with
      | some (x, c :: rest) =>
          if c = close then some ([x], rest)
          else if c = ',' then (read_list close item n rest).map fun r => (x :: r.1, r.2)
          else none
      | _ => none

def hex_value (c : Char) : Option Nat :=
  (List.range 16).find? fun n => hex_digit n = c

def unescape (c : Char) : Option Char :=
  if c = '"' ∨ c = '\\' ∨ c = '/' then some c
  else if c = 'n' then some '\n'
  else if c = 'r' then some '\r'
  else if c = 't' then some '\t'
  else if c = 'b' then some (Char.ofNat 8)
  else if c = 'f' then some (Char.ofNat 12)
  else none

/-- The characters of a string up to its closing quote. -/
def read_quoted : List Char → Option (List Char × List Char)
  | [] => none
  | c :: cs =>
      if c = '"' then some ([], cs)
      else if c = '\\' then
        match cs with
        | 'u' :: '0' :: '0' :: high :: low :: rest => do
            let h ← hex_value high
            let l ← hex_value low
            let r ← read_quoted rest
            return (Char.ofNat (16 * h + l) :: r.1, r.2)
        | e :: rest => do
            let d ← unescape e
            let r ← read_quoted rest
            return (d :: r.1, r.2)
        | [] => none
      else do
        let r ← read_quoted cs
        return (c :: r.1, r.2)

def read_digits (cs : List Char) : Option (Nat × List Char) :=
  if cs.takeWhile Char.isDigit = [] then none
  else some (Nat.ofDigitChars 10 (cs.takeWhile Char.isDigit) 0, cs.dropWhile Char.isDigit)

def read_number : List Char → Option (Json × List Char)
  | [] => none
  | c :: cs =>
      if c = '-' then (read_digits cs).map fun r => (number (-r.1), r.2)
      else (read_digits (c :: cs)).map fun r => (number r.1, r.2)

/-- A key and its value. -/
def read_member (value : List Char → Option (Json × List Char)) :
    List Char → Option ((String × Json) × List Char)
  | '"' :: cs =>
      match read_quoted cs with
      | some (key, ':' :: rest) => (value rest).map fun r => ((String.ofList key, r.1), r.2)
      | _ => none
  | _ => none

/-- The members of an object, the last of each key. -/
def assigned (ms : List (String × Json)) : List (String × Json) :=
  ms.foldl (fun done m => assign m.1 m.2 done) []

/-- One value off the front of a text; the fuel is at least its length. -/
def read : Nat → List Char → Option (Json × List Char)
  | 0, _ => none
  | _ + 1, [] => none
  | n + 1, c :: cs =>
      if c = 'n' then if cs.take 3 = ['u', 'l', 'l'] then some (null, cs.drop 3) else none
      else if c = 't' then
        if cs.take 3 = ['r', 'u', 'e'] then some (boolean true, cs.drop 3) else none
      else if c = 'f' then
        if cs.take 4 = ['a', 'l', 's', 'e'] then some (boolean false, cs.drop 4) else none
      else if c = '"' then (read_quoted cs).map fun r => (string (String.ofList r.1), r.2)
      else if c = '[' then
        if cs.head? = some ']' then some (array [], cs.drop 1)
        else (read_list ']' (read n) n cs).map fun r => (array r.1, r.2)
      else if c = '{' then
        if cs.head? = some '}' then some (object [], cs.drop 1)
        else (read_list '}' (read_member (read n)) n cs).map fun r => (object (assigned r.1), r.2)
      else read_number (c :: cs)

/-- A text that is one value. -/
def read_text (text : String) : Option Json :=
  match read text.toList.length text.toList with
  | some (j, []) => some j
  | _ => none

/-! ## What is written is read -/

/-- What may follow a value. -/
def Ends : List Char → Prop
  | [] => True
  | c :: _ => c = ',' ∨ c = ']' ∨ c = '}'

theorem Ends.not_digit {cs : List Char} (h : Ends cs) : cs.takeWhile Char.isDigit = [] := by
  cases cs with
  | nil => rfl
  | cons c cs =>
      have hdigit : c.isDigit = false := by
        rcases h with rfl | rfl | rfl <;> decide
      simp [hdigit]

theorem toDigits_all_digits (n : Nat) : ∀ c ∈ Nat.toDigits 10 n, c.isDigit = true := by
  intro c hc
  exact Nat.isDigit_of_mem_toDigits (by decide) (by decide) hc

theorem read_digits_toDigits (n : Nat) {r : List Char} (hr : Ends r) :
    read_digits (Nat.toDigits 10 n ++ r) = some (n, r) := by
  have htake : (Nat.toDigits 10 n ++ r).takeWhile Char.isDigit = Nat.toDigits 10 n := by
    rw [List.takeWhile_append_of_pos (toDigits_all_digits n), hr.not_digit, List.append_nil]
  have hdrop : (Nat.toDigits 10 n ++ r).dropWhile Char.isDigit = r := by
    have hsplit := List.takeWhile_append_dropWhile (p := Char.isDigit) (l := Nat.toDigits 10 n ++ r)
    rw [htake] at hsplit
    exact List.append_cancel_left hsplit
  unfold read_digits
  rw [htake, hdrop, if_neg Nat.toDigits_ne_nil, Nat.ofDigitChars_ten_toDigits]

/-- A number is read back. -/
theorem read_number_decimal (n : Int) {r : List Char} (hr : Ends r) :
    read_number (decimal n ++ r) = some (number n, r) := by
  have hdigits := read_digits_toDigits n.natAbs hr
  unfold decimal
  by_cases hneg : n < 0
  · rw [if_pos hneg, List.cons_append, read_number, if_pos rfl, hdigits]
    simp only [Option.map_some, Option.some.injEq, Prod.mk.injEq, number.injEq, and_true]
    omega
  · rw [if_neg hneg]
    cases hds : Nat.toDigits 10 n.natAbs with
    | nil => exact absurd hds Nat.toDigits_ne_nil
    | cons d ds =>
        have hd : d.isDigit = true := toDigits_all_digits n.natAbs d (by simp [hds])
        have hminus : d ≠ '-' := by
          rintro rfl
          cases hd
        rw [hds] at hdigits
        rw [List.cons_append, read_number, if_neg hminus, ← List.cons_append, hdigits]
        simp only [Option.map_some, Option.some.injEq, Prod.mk.injEq, number.injEq, and_true]
        omega

theorem hex_value_hex_digit : ∀ n < 16, hex_value (hex_digit n) = some n := by
  decide

/-- One character, however it is written. -/
theorem read_quoted_escape (c : Char) (rest : List Char) :
    read_quoted (escape c ++ rest) = (read_quoted rest).map fun r => (c :: r.1, r.2) := by
  have hmap : ∀ d : Char, (do
      let r ← read_quoted rest
      return (d :: r.1, r.2) : Option (List Char × List Char))
        = (read_quoted rest).map fun r => (d :: r.1, r.2) := by
    intro d
    cases read_quoted rest <;> rfl
  unfold escape
  split_ifs with h1 h2 h3 h4 h5 h6 h7 h8
  · subst h1
    exact hmap '"'
  · subst h2
    exact hmap '\\'
  · subst h3
    exact hmap '\n'
  · subst h4
    exact hmap '\r'
  · subst h5
    exact hmap '\t'
  · have hc : c = Char.ofNat 8 := by rw [← h6, Char.ofNat_toNat]
    subst hc
    exact hmap _
  · have hc : c = Char.ofNat 12 := by rw [← h7, Char.ofNat_toNat]
    subst hc
    exact hmap _
  · have hhigh := hex_value_hex_digit (c.toNat / 16) (by omega)
    have hlow := hex_value_hex_digit (c.toNat % 16) (by omega)
    have hc : Char.ofNat (16 * (c.toNat / 16) + c.toNat % 16) = c := by
      rw [Nat.div_add_mod, Char.ofNat_toNat]
    simp only [List.cons_append, List.nil_append]
    rw [read_quoted, if_neg (by decide), if_pos rfl]
    simp only [hhigh, hlow, Option.bind_eq_bind, Option.bind_some, hc]
    exact hmap c
  · simp only [List.cons_append, List.nil_append]
    rw [read_quoted.eq_def]
    simp only [if_neg h1, if_neg h2]
    exact hmap c

/-- A string is read back, whatever follows it. -/
theorem read_quoted_string (s : String) (r : List Char) :
    read_quoted (s.toList.flatMap escape ++ '"' :: r) = some (s.toList, r) := by
  induction s.toList with
  | nil =>
      rw [List.flatMap_nil, List.nil_append, read_quoted.eq_def]
      simp
  | cons c cs ih => rw [List.flatMap_cons, List.append_assoc, read_quoted_escape, ih]; rfl

theorem read_list_intercalate {α : Type*} {close : Char} (hclose : close ≠ ',')
    {item : List Char → Option (α × List Char)} {text : α → List Char} (xs : List α)
    (hne : xs ≠ [])
    (hitem : ∀ x ∈ xs, ∀ c r, c = ',' ∨ c = close → item (text x ++ c :: r) = some (x, c :: r)) :
    ∀ n, xs.length ≤ n → ∀ r,
      read_list close item n (List.intercalate [','] (xs.map text) ++ close :: r)
        = some (xs, r) := by
  induction xs with
  | nil => exact absurd rfl hne
  | cons x xs ih =>
      intro n hn r
      obtain ⟨n, rfl⟩ : ∃ k, n = k + 1 := ⟨n - 1, by simp at hn; omega⟩
      have hx := hitem x List.mem_cons_self
      cases xs with
      | nil =>
          rw [List.map_singleton, List.intercalate_singleton, read_list, hx close r (.inr rfl)]
          simp
      | cons y ys =>
          have htail := ih (by simp) (fun z hz => hitem z (List.mem_cons_of_mem _ hz)) n
            (by simpa using hn) r
          rw [List.map_cons, List.map_cons, List.intercalate_cons_cons, List.append_assoc,
            List.append_assoc, List.singleton_append, read_list, hx ',' _ (.inl rfl)]
          simp only [if_neg hclose.symm, if_true]
          rw [← List.map_cons, htail]
          rfl

/-- Members that are sorted are assigned in their order. -/
theorem assigned_of_sorted {ms : List (String × Json)} (h : Sorted ms) : assigned ms = ms := by
  have hlast : ∀ (done : List (String × Json)) (m : String × Json), (∀ d ∈ done, d.1 < m.1) →
      assign m.1 m.2 done = done ++ [m] := by
    intro done m hbefore
    induction done with
    | nil => rfl
    | cons d ds ih =>
        have hd := hbefore d List.mem_cons_self
        have hlater := fun e he => hbefore e (List.mem_cons_of_mem _ he)
        rw [assign, if_neg hd.not_gt, if_pos hd, ih hlater]
        rfl
  have hall : ∀ (ms done : List (String × Json)), Sorted (done ++ ms) →
      ms.foldl (fun done m => assign m.1 m.2 done) done = done ++ ms := by
    intro ms
    induction ms with
    | nil => simp
    | cons m ms ih =>
        intro done hsorted
        have hbefore := (List.pairwise_append.mp hsorted).2.2
        rw [List.foldl_cons, hlast done m fun d hd => hbefore d hd m List.mem_cons_self, ih]
        · simp
        · simpa using hsorted
  exact hall ms [] h

/-- No text in a list is longer than the list, nor are there more of them. -/
theorem intercalate_bounds {xs : List (List Char)} (hne : ∀ x ∈ xs, x ≠ []) :
    (∀ x ∈ xs, x.length ≤ (List.intercalate [','] xs).length) ∧
      xs.length ≤ (List.intercalate [','] xs).length := by
  induction xs with
  | nil => simp
  | cons x xs ih =>
      have hx : 0 < x.length := List.length_pos_iff.mpr (hne x List.mem_cons_self)
      cases xs with
      | nil =>
          rw [List.intercalate_singleton]
          refine ⟨?_, hx⟩
          intro y hy
          rw [List.mem_singleton.mp hy]
      | cons y ys =>
          obtain ⟨hlong, hmany⟩ := ih fun z hz => hne z (List.mem_cons_of_mem _ hz)
          have hlen : (List.intercalate [','] (x :: y :: ys)).length
              = x.length + (1 + (List.intercalate [','] (y :: ys)).length) := by
            rw [List.intercalate_cons_cons]
            simp only [List.length_append, List.length_singleton]
            omega
          refine ⟨?_, ?_⟩
          · intro z hz
            rcases List.mem_cons.mp hz with rfl | hz
            · omega
            · have hz := hlong z hz
              omega
          · simp only [List.length_cons] at hmany ⊢
            omega

/-- How a number begins. -/
theorem decimal_head (n : Int) : ∃ c cs, decimal n = c :: cs ∧ (c = '-' ∨ c.isDigit = true) := by
  unfold decimal
  split_ifs
  · exact ⟨_, _, rfl, .inl rfl⟩
  · cases hds : Nat.toDigits 10 n.natAbs with
    | nil => exact absurd hds Nat.toDigits_ne_nil
    | cons d ds => exact ⟨d, ds, rfl, .inr (toDigits_all_digits n.natAbs d (by simp [hds]))⟩

/-- A value does not begin with a closing bracket. -/
theorem compact_head (j : Json) : ∃ c cs, compact j = c :: cs ∧ c ≠ ']' ∧ c ≠ '}' := by
  have hdecimal : ∀ (n : Int) (more : List Char), ∃ c cs, decimal n ++ more = c :: cs ∧
      c ≠ ']' ∧ c ≠ '}' := by
    intro n more
    obtain ⟨c, cs, hcs, hc⟩ := decimal_head n
    refine ⟨c, cs ++ more, by rw [hcs]; rfl, ?_⟩
    rcases hc with rfl | hc
    · decide
    · constructor
      · rintro rfl
        cases hc
      · rintro rfl
        cases hc
  cases j with
  | null => exact ⟨_, _, rfl, by decide⟩
  | boolean value => cases value <;> exact ⟨_, _, rfl, by decide⟩
  | number value => simpa [compact] using hdecimal value []
  | real truncated => exact hdecimal truncated ['.', '0']
  | string value => exact ⟨_, _, rfl, by decide⟩
  | array items => exact ⟨_, _, rfl, by decide⟩
  | object members => exact ⟨_, _, rfl, by decide⟩

theorem compact_ne_nil (j : Json) : compact j ≠ [] := by
  obtain ⟨c, cs, hcs, _⟩ := compact_head j
  simp [hcs]

theorem read_string {n : Nat} (s : String) (r : List Char) :
    read (n + 1) (quoted s ++ r) = some (string s, r) := by
  have hquoted := read_quoted_string s r
  unfold quoted
  simp only [List.cons_append, List.append_assoc, List.nil_append]
  rw [read]
  simp only [Char.reduceEq, if_false, if_true, hquoted, Option.map_some, String.ofList_toList]

/-- A member, followed by anything its value may be followed by. -/
theorem read_member_compact {value : List Char → Option (Json × List Char)} {m : String × Json}
    {r : List Char} (h : value (compact m.2 ++ r) = some (m.2, r)) :
    read_member value (compact_member m ++ r) = some (m, r) := by
  have hquoted := read_quoted_string m.1 (':' :: (compact m.2 ++ r))
  unfold compact_member quoted
  simp only [List.cons_append, List.append_assoc, List.nil_append]
  rw [read_member, hquoted]
  simp only [h, Option.map_some, String.ofList_toList]

/-- Between its brackets a list is read item by item, and an empty one at once. -/
theorem read_between {α β : Type*} {close : Char} (hclose : close ≠ ',')
    {item : List Char → Option (α × List Char)} {text : α → List Char} {xs : List α} {n : Nat}
    (hbegin : ∀ x ∈ xs, ∃ c cs, text x = c :: cs ∧ c ≠ close)
    (hn : (List.intercalate [','] (xs.map text)).length ≤ n)
    (hitem : ∀ x ∈ xs, (text x).length ≤ n → ∀ c r, c = ',' ∨ c = close →
      item (text x ++ c :: r) = some (x, c :: r)) (make : List α → β) (r : List Char) :
    (if (List.intercalate [','] (xs.map text) ++ close :: r).head? = some close then
        some (make [], (List.intercalate [','] (xs.map text) ++ close :: r).drop 1)
      else (read_list close item n (List.intercalate [','] (xs.map text) ++ close :: r)).map
        fun p => (make p.1, p.2)) = some (make xs, r) := by
  have hne : ∀ s ∈ xs.map text, s ≠ [] := by
    intro s hs
    obtain ⟨x, hx, rfl⟩ := List.mem_map.mp hs
    obtain ⟨c, cs, hcs, -⟩ := hbegin x hx
    simp [hcs]
  obtain ⟨hlong, hmany⟩ := intercalate_bounds hne
  rw [List.length_map] at hmany
  by_cases hempty : xs = []
  · subst hempty
    simp
  · -- what is read first is not the closing bracket
    have hhead : (List.intercalate [','] (xs.map text) ++ close :: r).head? ≠ some close := by
      obtain ⟨x, rest, rfl⟩ := List.exists_cons_of_ne_nil hempty
      obtain ⟨c, cs, hcs, hc⟩ := hbegin x List.mem_cons_self
      cases rest with
      | nil => simpa [hcs] using hc
      | cons y ys =>
          rw [List.map_cons, List.map_cons, List.intercalate_cons_cons, hcs]
          simpa using hc
    have hitem : ∀ x ∈ xs, ∀ c r, c = ',' ∨ c = close →
        item (text x ++ c :: r) = some (x, c :: r) := by
      intro x hx
      exact hitem x hx ((hlong _ (List.mem_map_of_mem hx)).trans hn)
    rw [if_neg hhead, read_list_intercalate hclose xs hempty hitem n (hmany.trans hn) r]
    rfl

/-- The fuel of a text that fits it. -/
theorem fuel_succ {j : Json} {n : Nat} (hn : (compact j).length ≤ n) : ∃ k, n = k + 1 := by
  have hpos := List.length_pos_iff.mpr (compact_ne_nil j)
  exact Nat.exists_eq_succ_of_ne_zero (by omega)

/-- **A value that was written is read**, whatever follows it. -/
theorem read_compact {j : Json} (hj : WellFormed j) : ∀ n r, (compact j).length ≤ n → Ends r →
    read n (compact j ++ r) = some (j, r) := by
  induction hj with
  | null =>
      intro n r hn _
      obtain ⟨n, rfl⟩ := fuel_succ hn
      rfl
  | boolean value =>
      intro n r hn _
      obtain ⟨n, rfl⟩ := fuel_succ hn
      cases value <;> rfl
  | @number value low high =>
      intro n r hn hr
      obtain ⟨c, cs, hcs, hc⟩ := decimal_head value
      obtain ⟨n, rfl⟩ := fuel_succ hn
      have hread := read_number_decimal value hr
      rw [hcs, List.cons_append] at hread
      rw [compact, hcs, List.cons_append, read, ← hread]
      have hother : ∀ d : Char, d.isDigit = false → d ≠ '-' → c ≠ d := by
        rintro d hd hminus rfl
        rcases hc with hc | hc
        · exact hminus hc
        · rw [hd] at hc
          cases hc
      simp only [hother 'n' rfl (by decide), hother 't' rfl (by decide), hother 'f' rfl (by decide),
        hother '"' rfl (by decide), hother '[' rfl (by decide), hother '\x7b' rfl (by decide),
        if_false]
  | string value =>
      intro n r hn _
      obtain ⟨n, rfl⟩ := fuel_succ hn
      exact read_string value r
  | @array items items_ok ih =>
      intro n r hn _
      obtain ⟨n, rfl⟩ := fuel_succ hn
      rw [compact, compact_items_eq] at hn ⊢
      simp only [List.length_append, List.length_cons, List.length_nil] at hn
      rw [List.append_assoc, List.cons_append, List.singleton_append, read]
      simp only [Char.reduceEq, if_false, if_true]
      refine read_between (by decide) ?_ (by omega) ?_ array r
      · intro j _
        obtain ⟨c, cs, hcs, hc, -⟩ := compact_head j
        exact ⟨c, cs, hcs, hc⟩
      · intro j hj hlen c r' hc
        apply ih j hj n (c :: r') hlen
        rcases hc with rfl | rfl
        · exact .inl rfl
        · exact .inr (.inl rfl)
  | @object members sorted members_ok ih =>
      intro n r hn _
      obtain ⟨n, rfl⟩ := fuel_succ hn
      rw [compact, compact_members_eq] at hn ⊢
      simp only [List.length_append, List.length_cons, List.length_nil] at hn
      rw [List.append_assoc, List.cons_append, List.singleton_append, read]
      simp only [Char.reduceEq, if_false, if_true]
      have hmake : object members = object (assigned members) := by rw [assigned_of_sorted sorted]
      rw [hmake]
      refine read_between (by decide) ?_ (by omega) ?_ (fun ms => object (assigned ms)) r
      · intro m _
        exact ⟨_, _, rfl, by decide⟩
      · intro m hm hlen c r' hc
        have hmember : (compact_member m).length
            = (quoted m.1).length + ((compact m.2).length + 1) := List.length_append
        apply read_member_compact
        apply ih m hm n (c :: r') (by omega)
        rcases hc with rfl | rfl
        · exact .inl rfl
        · exact .inr (.inr rfl)

/-- The text of a value. -/
def text (j : Json) : String := String.ofList (compact j)

/-- **The round trip.** -/
theorem read_text_text {j : Json} (hj : WellFormed j) : read_text (text j) = some j := by
  have hread := read_compact hj (compact j).length [] (Nat.le_refl _) trivial
  unfold read_text text
  rw [List.append_nil] at hread
  rw [String.toList_ofList, hread]

/-! ## How long a text is -/

/-- The bytes of a text in UTF-8. -/
def byte_count (cs : List Char) : Nat := (cs.map Char.utf8Size).sum

@[simp] theorem byte_count_nil : byte_count [] = 0 := rfl

@[simp] theorem byte_count_cons (c : Char) (cs : List Char) :
    byte_count (c :: cs) = c.utf8Size + byte_count cs := rfl

@[simp] theorem byte_count_append (cs cs' : List Char) :
    byte_count (cs ++ cs') = byte_count cs + byte_count cs' := by
  unfold byte_count
  rw [List.map_append, List.sum_append]

theorem utf8ByteSize_ofList (cs : List Char) :
    (String.ofList cs).utf8ByteSize = byte_count cs := by
  induction cs with
  | nil => rfl
  | cons c cs ih =>
      rw [← List.singleton_append, String.ofList_append, String.utf8ByteSize_append, ih,
        ← String.singleton_eq_ofList, String.utf8ByteSize_singleton]
      rfl

/-- How long a value is, written compactly. -/
def compact_size (j : Json) : Nat := byte_count (compact j)

/-- The size of the text is computed without writing it. -/
theorem utf8ByteSize_text (j : Json) : (text j).utf8ByteSize = j.compact_size :=
  utf8ByteSize_ofList _

/-- The commas between so many things. -/
def commas (n : Nat) : Nat := n - 1

theorem byte_count_intercalate (xs : List (List Char)) :
    byte_count (List.intercalate [','] xs) = (xs.map byte_count).sum + commas xs.length := by
  induction xs with
  | nil => rfl
  | cons x xs ih =>
      cases xs with
      | nil => simp [List.intercalate_singleton, commas]
      | cons y ys =>
          rw [List.intercalate_cons_cons, byte_count_append, byte_count_append, ih]
          have hcomma : byte_count [','] = 1 := rfl
          simp only [List.map_cons, List.sum_cons, List.length_cons, commas, hcomma]
          omega

theorem compact_size_array (items : List Json) :
    compact_size (array items) = 2 + (items.map compact_size).sum + commas items.length := by
  have hopen : Char.utf8Size '[' = 1 := rfl
  have hclose : Char.utf8Size ']' = 1 := rfl
  have hitems : byte_count (List.intercalate [','] (items.map compact))
      = (items.map compact_size).sum + commas items.length := by
    rw [byte_count_intercalate, List.map_map, List.length_map]
    rfl
  unfold compact_size
  rw [compact, compact_items_eq]
  simp only [byte_count_append, byte_count_cons, byte_count_nil, hitems, hopen, hclose]
  unfold compact_size
  omega

/-- How long a member is. -/
def member_size (m : String × Json) : Nat := byte_count (quoted m.1) + 1 + m.2.compact_size

theorem compact_size_object (members : List (String × Json)) :
    compact_size (object members)
      = 2 + (members.map member_size).sum + commas members.length := by
  have hopen : Char.utf8Size '\x7b' = 1 := rfl
  have hclose : Char.utf8Size '\x7d' = 1 := rfl
  have hmember : byte_count ∘ compact_member = member_size := by
    funext m
    have hcolon : Char.utf8Size ':' = 1 := rfl
    simp only [Function.comp_apply, compact_member, byte_count_append, byte_count_cons, hcolon,
      member_size, compact_size]
    omega
  have hmembers : byte_count (List.intercalate [','] (members.map compact_member))
      = (members.map member_size).sum + commas members.length := by
    rw [byte_count_intercalate, List.map_map, List.length_map, hmember]
  unfold compact_size
  rw [compact, compact_members_eq]
  simp only [byte_count_append, byte_count_cons, byte_count_nil, hmembers, hopen, hclose]
  omega

/-- A new key, wherever it goes. -/
theorem emplace_perm {α : Type*} {key : String} {value : α} {ms : List (String × α)}
    (h : ∀ m ∈ ms, m.1 ≠ key) : (emplace key value ms).Perm ((key, value) :: ms) := by
  induction ms with
  | nil => exact .refl _
  | cons m ms ih =>
      rw [emplace]
      rcases lt_trichotomy key m.1 with hlt | hsame | hgt
      · rw [if_pos hlt]
      · exact absurd hsame.symm (h m List.mem_cons_self)
      · rw [if_neg hgt.not_gt, if_pos hgt]
        have htail := ih fun m' hm' => h m' (List.mem_cons_of_mem _ hm')
        exact (htail.cons m).trans (.swap _ _ _)

theorem assign_perm {α : Type*} {key : String} {value : α} {ms : List (String × α)}
    (h : ∀ m ∈ ms, m.1 ≠ key) : (assign key value ms).Perm ((key, value) :: ms) := by
  induction ms with
  | nil => exact .refl _
  | cons m ms ih =>
      rw [assign]
      rcases lt_trichotomy key m.1 with hlt | hsame | hgt
      · rw [if_pos hlt]
      · exact absurd hsame.symm (h m List.mem_cons_self)
      · rw [if_neg hgt.not_gt, if_pos hgt]
        have htail := ih fun m' hm' => h m' (List.mem_cons_of_mem _ hm')
        exact (htail.cons m).trans (.swap _ _ _)

theorem members_of_perm {α : Type*} {ps : List (String × α)} (h : (ps.map Prod.fst).Nodup) :
    (members_of ps).Perm ps := by
  have hall : ∀ (ps ms : List (String × α)), ((ms ++ ps).map Prod.fst).Nodup →
      (ps.foldl (fun ms p => emplace p.1 p.2 ms) ms).Perm (ms ++ ps) := by
    intro ps
    induction ps with
    | nil => simp
    | cons p ps ih =>
        intro ms hnd
        have hp : ∀ m ∈ ms, m.1 ≠ p.1 := by
          intro m hm
          rw [List.map_append, List.nodup_append] at hnd
          exact hnd.2.2 m.1 (List.mem_map_of_mem hm) p.1 (by simp)
        have hperm : (emplace p.1 p.2 ms ++ ps).Perm (ms ++ p :: ps) :=
          ((emplace_perm hp).append_right ps).trans List.perm_middle.symm
        refine (ih _ ?_).trans hperm
        exact ((hperm.map Prod.fst).nodup_iff).mpr hnd
  exact hall ps [] h

/-- An object is as long as the pairs it was built from. -/
theorem compact_size_of_pairs {ps : List (String × Json)} (h : (ps.map Prod.fst).Nodup) :
    compact_size (of_pairs ps) = 2 + (ps.map member_size).sum + commas ps.length := by
  have hperm := members_of_perm h
  unfold of_pairs
  rw [compact_size_object, (hperm.map member_size).sum_eq, hperm.length_eq]

/-- A new field, and the comma before it. -/
theorem compact_size_set {ps : List (String × Json)} (h : (ps.map Prod.fst).Nodup)
    (hne : ps ≠ []) {key : String} (hkey : key ∉ ps.map Prod.fst) (value : Json) :
    compact_size ((of_pairs ps).set key value)
      = compact_size (of_pairs ps) + member_size (key, value) + 1 := by
  have hperm := members_of_perm h
  have hnew : ∀ m ∈ members_of ps, m.1 ≠ key := by
    rintro m hm rfl
    exact hkey (List.mem_map_of_mem (mem_members_of hm))
  have hset : ((of_pairs ps).set key value) = object (assign key value (members_of ps)) := rfl
  have hpos : 0 < (members_of ps).length := by
    rw [hperm.length_eq]
    exact List.length_pos_iff.mpr hne
  have hassign : (assign key value (members_of ps)).Perm ((key, value) :: members_of ps) :=
    assign_perm hnew
  rw [hset, of_pairs, compact_size_object, compact_size_object,
    (hassign.map member_size).sum_eq, hassign.length_eq, List.map_cons, List.sum_cons,
    List.length_cons]
  unfold commas
  omega

end Json
