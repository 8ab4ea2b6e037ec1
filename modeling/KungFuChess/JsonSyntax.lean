/-
**JSON as it is written**: whitespace, escapes, the order of the members and members of
one key kept as they stand in a text.

`Syntax` is a JSON text with its structure, `text` writes it out and `meaning` is the
value it has. A member is looked up as a parser does that keeps the last of each key
(`at_meaning`), and what a change of that member does to the text is said by
`text_update`: one place of it changes.
-/
import KungFuChess.JsonText

set_option autoImplicit false

namespace Json

/-! ## Strings -/

/-- One of the sixteen digits, in either case. -/
def nibble (c : Char) : Option Nat :=
  if '0' ≤ c ∧ c ≤ '9' then some (c.toNat - '0'.toNat)
  else if 'a' ≤ c ∧ c ≤ 'f' then some (c.toNat - 'a'.toNat + 10)
  else if 'A' ≤ c ∧ c ≤ 'F' then some (c.toNat - 'A'.toNat + 10)
  else none

/-- Four hexadecimal digits. -/
structure Hex where
  digits : List Char
  four : digits.length = 4
  digits_ok : ∀ c ∈ digits, (nibble c).isSome

/-- The code unit that the four digits write. -/
def Hex.code (h : Hex) : Nat := h.digits.foldl (fun n c => 16 * n + (nibble c).getD 0) 0

/-- One character of a string, as it is written. -/
inductive Glyph
  | plain (c : Char) (ok : c ≠ '"' ∧ c ≠ '\\' ∧ 32 ≤ c.toNat)
  | short (c : Char) (ok : (unescape c).isSome)
  | unicode (code : Hex) (ok : code.code < 0xD800 ∨ 0xE000 ≤ code.code)
  /-- A character beyond the first 65536. -/
  | surrogates (high low : Hex) (high_ok : 0xD800 ≤ high.code ∧ high.code < 0xDC00)
      (low_ok : 0xDC00 ≤ low.code ∧ low.code < 0xE000)

namespace Glyph

def text : Glyph → List Char
  | plain c _ => [c]
  | short c _ => ['\\', c]
  | unicode code _ => '\\' :: 'u' :: code.digits
  | surrogates high low _ _ => '\\' :: 'u' :: high.digits ++ '\\' :: 'u' :: low.digits

def meaning : Glyph → Char
  | plain c _ => c
  | short c ok => (unescape c).get ok
  | unicode code _ => Char.ofNat code.code
  | surrogates high low _ _ =>
      Char.ofNat (0x10000 + 0x400 * (high.code - 0xD800) + (low.code - 0xDC00))

end Glyph

/-- A string literal. -/
abbrev Literal := List Glyph

namespace Literal

/-- What follows the opening quote. -/
def inside (l : Literal) : List Char := l.flatMap Glyph.text ++ ['"']

def text (l : Literal) : List Char := '"' :: inside l

def meaning (l : Literal) : String := String.ofList (l.map Glyph.meaning)

theorem inside_cons (g : Glyph) (gs : Literal) : inside (g :: gs) = g.text ++ inside gs := by
  unfold inside
  rw [List.flatMap_cons, List.append_assoc]

theorem toList_of_meaning {l : Literal} {s : String} (h : l.meaning = s) :
    l.map Glyph.meaning = s.toList := by
  rw [← h, meaning, String.toList_ofList]

end Literal

/-! ## Numbers and whitespace -/

/-- What the parser skips. -/
def is_space (c : Char) : Bool := c = ' ' || c = '\t' || c = '\n' || c = '\r'

/-- Some of it. -/
abbrev Space := { cs : List Char // ∀ c ∈ cs, is_space c = true }

def all_digits (cs : List Char) : Prop := cs ≠ [] ∧ ∀ c ∈ cs, c.isDigit = true

/-- A number as it is written, in its parts. -/
structure Numeral where
  negative : Bool
  whole : List Char
  fraction : Option (List Char)
  /-- The letter and the sign, and the digits. -/
  exponent : Option (List Char × List Char)
  whole_ok : all_digits whole
  no_zero : whole.head? = some '0' → whole = ['0']
  fraction_ok : ∀ ds ∈ fraction, all_digits ds
  exponent_ok : ∀ e ∈ exponent,
    e.1 ∈ [['e'], ['E'], ['e', '+'], ['E', '+'], ['e', '-'], ['E', '-']] ∧ all_digits e.2

namespace Numeral

def text (n : Numeral) : List Char :=
  (if n.negative then ['-'] else []) ++ n.whole ++
    (n.fraction.elim [] fun ds => '.' :: ds) ++ n.exponent.elim [] fun e => e.1 ++ e.2

def integer (n : Numeral) : Int :=
  if n.negative then -Nat.ofDigitChars 10 n.whole 0 else Nat.ofDigitChars 10 n.whole 0

/-- An integer that fits, or what the number is cast to. -/
def meaning (cast : Numeral → Int) (n : Numeral) : Json :=
  if n.fraction = none ∧ n.exponent = none ∧ -2 ^ 63 ≤ n.integer ∧ n.integer < 2 ^ 64 then
    number n.integer
  else real (cast n)

end Numeral

/-! ## Values -/

/-- The key of a member, with the whitespace around it. -/
structure Key where
  before : Space
  name : Literal
  after : Space

/-- A key, with what stands around it and its colon. -/
def Key.text (k : Key) : List Char := k.before.1 ++ k.name.text ++ k.after.1 ++ [':']

/-- **A text, as the grammar has it**, blanks, escapes and all. -/
inductive Syntax
  | null
  | boolean (value : Bool)
  | number (n : Numeral)
  | string (l : Literal)
  | array (items : List Syntax)
  | object (members : List (Key × Syntax))
  /-- Brackets with nothing but whitespace between them. -/
  | empty_array (blank : Space)
  | empty_object (blank : Space)
  | spaced (before : Space) (v : Syntax) (after : Space)

namespace Syntax

mutual

def text : Syntax → List Char
  | null => ['n', 'u', 'l', 'l']
  | boolean value => if value then ['t', 'r', 'u', 'e'] else ['f', 'a', 'l', 's', 'e']
  | number n => n.text
  | string l => l.text
  | array items => '[' :: List.intercalate [','] (item_texts items) ++ [']']
  | object members => '{' :: List.intercalate [','] (member_texts members) ++ ['}']
  | empty_array blank => '[' :: blank.1 ++ [']']
  | empty_object blank => '{' :: blank.1 ++ ['}']
  | spaced before v after => before.1 ++ text v ++ after.1
termination_by structural v => v

def item_texts : List Syntax → List (List Char)
  | [] => []
  | v :: vs => text v :: item_texts vs
termination_by structural vs => vs

def member_texts : List (Key × Syntax) → List (List Char)
  | [] => []
  | m :: ms => (m.1.text ++ text m.2) :: member_texts ms
termination_by structural ms => ms

end

mutual

/-- The value. Of members of one key the last one counts. -/
def meaning (cast : Numeral → Int) : Syntax → Json
  | null => .null
  | boolean value => .boolean value
  | number n => n.meaning cast
  | string l => .string l.meaning
  | array items => .array (item_meanings cast items)
  | object members => .object (assigned (member_meanings cast members))
  | empty_array _ => .array []
  | empty_object _ => .object []
  | spaced _ v _ => meaning cast v
termination_by structural v => v

def item_meanings (cast : Numeral → Int) : List Syntax → List Json
  | [] => []
  | v :: vs => meaning cast v :: item_meanings cast vs
termination_by structural vs => vs

def member_meanings (cast : Numeral → Int) : List (Key × Syntax) → List (String × Json)
  | [] => []
  | m :: ms => (m.1.name.meaning, meaning cast m.2) :: member_meanings cast ms
termination_by structural ms => ms

end

/-! ## Members -/

/-- The last member of a key. -/
def find_last (key : String) : List (Key × Syntax) → Option (Key × Syntax)
  | [] => none
  | m :: ms => (find_last key ms).or (if m.1.name.meaning = key then some m else none)

/-- Changes the value of the last member of a key. -/
def update_last (key : String) (change : Syntax → Syntax) :
    List (Key × Syntax) → List (Key × Syntax)
  | [] => []
  | m :: ms =>
      if (find_last key ms).isSome then m :: update_last key change ms
      else if m.1.name.meaning = key then (m.1, change m.2) :: ms
      else m :: ms

/-- The member that `at` finds. -/
def field (key : String) : Syntax → Option (Key × Syntax)
  | object members => find_last key members
  | spaced _ v _ => field key v
  | _ => none

def update (key : String) (change : Syntax → Syntax) : Syntax → Syntax
  | object members => object (update_last key change members)
  | spaced before v after => spaced before (update key change v) after
  | v => v

/-- The literal, if the value is a string. -/
def literal : Syntax → Option Literal
  | string l => some l
  | spaced _ v _ => literal v
  | _ => none

/-- Another literal in the place of the one there is. -/
def with_literal (l : Literal) : Syntax → Syntax
  | string _ => string l
  | spaced before v after => spaced before (with_literal l v) after
  | v => v

end Syntax

/-! ## What a key stands for -/

section Fields

variable {cast : Numeral → Int} {key : String} {v w : Syntax} {members : List (Key × Syntax)}
  {m : Key × Syntax}

namespace Syntax

theorem lookup_assigned (members : List (Key × Syntax)) : ∀ done : List (String × Json),
    Sorted done → ((member_meanings cast members).foldl (fun done m => assign m.1 m.2 done)
      done).lookup key
      = ((find_last key members).map fun m => m.2.meaning cast).or (done.lookup key) := by
  induction members with
  | nil =>
      intro done _
      simp [member_meanings, find_last]
  | cons m ms ih =>
      intro done hsorted
      rw [member_meanings, List.foldl_cons, ih _ (sorted_assign hsorted), lookup_assign hsorted,
        find_last]
      cases find_last key ms with
      | some last => simp
      | none =>
          by_cases hkey : m.1.name.meaning = key
          · simp [hkey]
          · simp [hkey, Ne.symm hkey]

/-- **A member is found as it is written**: the last one of its key. -/
theorem at_meaning (cast : Numeral → Int) (key : String) : ∀ v : Syntax,
    (v.meaning cast).at_ key = (v.field key).map fun m => m.2.meaning cast
  | object members => by
      rw [meaning, field, at_, assigned, lookup_assigned members [] sorted_nil, List.lookup_nil,
        Option.or_none]
  | spaced _ v _ => by
      rw [meaning, field]
      exact at_meaning cast key v
  | number n => by
      show (n.meaning cast).at_ key = none
      unfold Numeral.meaning
      split_ifs <;> rfl
  | null => rfl
  | boolean _ => rfl
  | string _ => rfl
  | array _ => rfl
  | empty_array _ => rfl
  | empty_object _ => rfl

/-- What is found has the key. -/
theorem find_last_called (h : find_last key members = some m) : m.1.name.meaning = key := by
  induction members with
  | nil => cases h
  | cons n ns ih =>
      rw [find_last] at h
      rcases Option.or_eq_some_iff.mp h with hlast | ⟨-, hthis⟩
      · exact ih hlast
      · split_ifs at hthis with hkey
        rw [← Option.some.inj hthis]
        exact hkey

/-- **The rule for a member that is found**: the value is an object, with whitespace
around it any number of times. -/
theorem field_rule {P : Syntax → Prop}
    (hobject : ∀ members, find_last key members = some m → P (object members))
    (hspaced : ∀ before v after, P v → P (spaced before v after)) :
    ∀ {v : Syntax}, v.field key = some m → P v
  | object members => fun h => hobject members h
  | spaced before v after => fun h =>
      hspaced before v after (field_rule hobject hspaced (v := v) h)
  | null => fun h => by cases h
  | boolean _ => fun h => by cases h
  | number _ => fun h => by cases h
  | string _ => fun h => by cases h
  | array _ => fun h => by cases h
  | empty_array _ => fun h => by cases h
  | empty_object _ => fun h => by cases h

theorem field_called (h : v.field key = some m) : m.1.name.meaning = key :=
  field_rule (P := fun _ => m.1.name.meaning = key) (fun _ hlast => find_last_called hlast)
    (fun _ _ _ ih => ih) h

/-- **The rule for a literal that is found.** -/
theorem literal_rule {P : Syntax → Prop} {l : Literal} (hstring : P (string l))
    (hspaced : ∀ before v after, P v → P (spaced before v after)) :
    ∀ {v : Syntax}, v.literal = some l → P v
  | string _ => fun h => by
      obtain rfl := Option.some.inj h
      exact hstring
  | spaced before v after => fun h =>
      hspaced before v after (literal_rule hstring hspaced (v := v) h)
  | null => fun h => by cases h
  | boolean _ => fun h => by cases h
  | number _ => fun h => by cases h
  | array _ => fun h => by cases h
  | object _ => fun h => by cases h
  | empty_array _ => fun h => by cases h
  | empty_object _ => fun h => by cases h

/-- A string is written as a literal. -/
theorem literal_of_meaning (cast : Numeral → Int) {s : String} : ∀ v : Syntax,
    v.meaning cast = .string s → ∃ l, v.literal = some l ∧ l.meaning = s
  | string l => fun h => ⟨l, rfl, Json.string.inj h⟩
  | spaced _ v _ => fun h => by
      rw [meaning] at h
      exact literal_of_meaning cast v h
  | number n => fun h => by
      rw [meaning, Numeral.meaning] at h
      split_ifs at h
  | null => fun h => by cases h
  | boolean _ => fun h => by cases h
  | array _ => fun h => by cases h
  | object _ => fun h => by cases h
  | empty_array _ => fun h => by cases h
  | empty_object _ => fun h => by cases h

/-! ## What changes in the text -/

/-- One member of an object. -/
def member_text (m : Key × Syntax) : List Char := m.1.text ++ m.2.text

theorem member_texts_eq (members : List (Key × Syntax)) :
    member_texts members = members.map member_text := by
  induction members with
  | nil => rfl
  | cons m ms ih =>
      rw [member_texts, List.map_cons, ih]
      rfl

/-- What stands before one of a list and what stands after it. -/
theorem intercalate_middle (xs : List (List Char)) (y : List Char) (zs : List (List Char)) :
    List.intercalate [','] (xs ++ y :: zs)
      = xs.flatMap (· ++ [',']) ++ y ++ zs.flatMap (',' :: ·) := by
  induction xs with
  | nil =>
      rw [List.nil_append, List.flatMap_nil, List.nil_append]
      induction zs generalizing y with
      | nil => simp
      | cons z zs ih => rw [List.intercalate_cons_cons, ih, List.flatMap_cons]; simp
  | cons x xs ih =>
      cases hrest : xs ++ y :: zs with
      | nil => simp at hrest
      | cons r rs =>
          rw [List.cons_append, hrest, List.intercalate_cons_cons, ← hrest, ih, List.flatMap_cons]
          simp

theorem find_last_split (h : find_last key members = some m) : ∃ before after,
    members = before ++ m :: after ∧
    ∀ change, update_last key change members = before ++ (m.1, change m.2) :: after := by
  induction members with
  | nil => cases h
  | cons n ns ih =>
      rw [find_last] at h
      cases hlast : find_last key ns with
      | some last =>
          rw [hlast] at h ih
          obtain rfl : last = m := by simpa using h
          obtain ⟨before, after, hns, hupdate⟩ := ih rfl
          refine ⟨n :: before, after, by rw [hns]; rfl, ?_⟩
          intro change
          rw [update_last, hlast, Option.isSome_some, if_pos rfl, hupdate]
          rfl
      | none =>
          rw [hlast, Option.none_or] at h
          split_ifs at h with hkey
          · obtain rfl := Option.some.inj h
            refine ⟨[], ns, rfl, ?_⟩
            intro change
            simp [update_last, hlast, hkey]

/-- A member that stays as it is. -/
theorem update_self {change : Syntax → Syntax} (h : v.field key = some m)
    (hsame : change m.2 = m.2) : v.update key change = v := by
  refine field_rule (P := fun v => v.update key change = v) ?_ ?_ h
  · intro members hlast
    obtain ⟨before, after, hmembers, hupdate⟩ := find_last_split hlast
    rw [update, hupdate change, hsame, hmembers]
  · intro before v after ih
    rw [update, ih]

theorem with_literal_self {l : Literal} (h : v.literal = some l) : v.with_literal l = v := by
  refine literal_rule (P := fun v => v.with_literal l = v) rfl ?_ h
  intro before v after ih
  rw [with_literal, ih]

/-- A literal stands between whitespace, and another one would as well. -/
theorem text_with_literal {l : Literal} (h : v.literal = some l) :
    ∃ before after : Space, ∀ l' : Literal,
      (v.with_literal l').text = before.1 ++ (l'.text ++ after.1) := by
  refine literal_rule (P := fun v => ∃ before after : Space, ∀ l' : Literal,
    (v.with_literal l').text = before.1 ++ (l'.text ++ after.1)) ?_ ?_ h
  · refine ⟨⟨[], by simp⟩, ⟨[], by simp⟩, fun l' => ?_⟩
    rw [with_literal, text, List.append_nil, List.nil_append]
  · rintro before v after ⟨inner, outer, htext⟩
    refine ⟨⟨before.1 ++ inner.1, List.forall_mem_append.mpr ⟨before.2, inner.2⟩⟩,
      ⟨outer.1 ++ after.1, List.forall_mem_append.mpr ⟨outer.2, after.2⟩⟩, ?_⟩
    intro l'
    rw [with_literal, text, htext l']
    simp only [List.append_assoc]

end Syntax

end Fields

end Json
