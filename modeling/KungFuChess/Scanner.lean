/-
**The scanner on JSON text.**

A round of the scan may stop inside a string: a value that is no string is skipped up to
the first comma or closing bracket, wherever it is. So what the scan has before it is
the rest of a JSON text from outside its strings or from inside one (`Lexes`), and it
stays so (`after_key_lexes`). What it makes of the text in front of a comma does not
depend on what follows the comma (`scan_to_comma`); strings that are no keys are
copied (`copy_name`, `copy_value`).
-/
import KungFuChess.Redaction

set_option autoImplicit false

namespace KungFuChess

open Json

/-- A fact about each character of a fixed text. -/
theorem forall_char {p : Char → Prop} [DecidablePred p] {cs : List Char}
    (h : (cs.all fun c => decide (p c)) = true) : ∀ c ∈ cs, p c := by
  simpa using h

/-! ## Strings and what is between them -/

/-- The rest of a JSON text, from inside a string or from outside. No string is followed by the
letter that the key begins with. -/
inductive Lexes : Bool → List Char → Prop
  | finished : Lexes false []
  | mark {c : Char} {cs : List Char} (c_ok : c ≠ '"') (rest : Lexes false cs) :
      Lexes false (c :: cs)
  | opening {cs : List Char} (rest : Lexes true cs) : Lexes false ('"' :: cs)
  | plain {c : Char} {cs : List Char} (c_ok : c ≠ '"' ∧ c ≠ '\\') (rest : Lexes true cs) :
      Lexes true (c :: cs)
  | escape {c : Char} {cs : List Char} (c_ok : ends_value c = false) (rest : Lexes true cs) :
      Lexes true ('\\' :: c :: cs)
  | closing {cs : List Char} (apart : cs.head? ≠ some 'p') (rest : Lexes false cs) :
      Lexes true ('"' :: cs)

section Suffixes

variable {cs : List Char}

theorem lexes_behind {spaces rest : List Char} (hspaces : ∀ c ∈ spaces, is_space c = true)
    (h : Lexes false (spaces ++ rest)) : Lexes false rest := by
  induction spaces with
  | nil => exact h
  | cons c cs ih =>
      obtain ⟨hc, hcs⟩ := List.forall_mem_cons.mp hspaces
      cases h with
      | mark c_ok more => exact ih hcs more
      | opening more => cases hc

/-- Where a value ends that is no string, the scan is inside a string or outside. -/
theorem lexes_ends_value {inside : Bool} (h : Lexes inside cs) :
    ∃ inside', Lexes inside' (cs.dropWhile fun c => !ends_value c) := by
  have hstay : ∀ {b : Bool} {c : Char} {cs : List Char}, Lexes b (c :: cs) →
      (∃ b', Lexes b' (cs.dropWhile fun c => !ends_value c)) →
      ∃ b', Lexes b' ((c :: cs).dropWhile fun c => !ends_value c) := by
    intro b c cs hthis hrest
    by_cases hc : ends_value c = true
    · rw [List.dropWhile_cons_of_neg (by simp [hc])]
      exact ⟨b, hthis⟩
    · rw [List.dropWhile_cons_of_pos (by simp [hc])]
      exact hrest
  induction h with
  | finished => exact ⟨false, .finished⟩
  | mark c_ok rest ih => exact hstay (.mark c_ok rest) ih
  | opening rest ih => exact hstay (.opening rest) ih
  | plain c_ok rest ih => exact hstay (.plain c_ok rest) ih
  | closing apart rest ih => exact hstay (.closing apart rest) ih
  | escape c_ok rest ih =>
      -- no escape is cut in two
      rw [List.dropWhile_cons_of_pos (by decide), List.dropWhile_cons_of_pos (by simp [c_ok])]
      exact ih

/-- The end of a string, whatever follows. -/
theorem lexes_end_of_string (h : Lexes true cs) : ∃ rest, Lexes true ('"' :: rest) ∧
    rest.length < cs.length ∧ ∀ R, end_of_string (cs ++ R) = '"' :: rest ++ R := by
  generalize hinside : true = inside at h
  induction h with
  | finished => cases hinside
  | mark c_ok rest ih => cases hinside
  | opening rest ih => cases hinside
  | @plain c cs c_ok rest ih =>
      obtain ⟨tail, htail, hlen, hend⟩ := ih rfl
      refine ⟨tail, htail, Nat.lt_succ_of_lt hlen, ?_⟩
      intro R
      rw [List.cons_append, end_of_string_plain c_ok.1 c_ok.2, hend]
  | @escape c cs c_ok rest ih =>
      obtain ⟨tail, htail, hlen, hend⟩ := ih rfl
      refine ⟨tail, htail, Nat.lt_succ_of_lt (Nat.lt_succ_of_lt hlen), ?_⟩
      intro R
      rw [List.cons_append, List.cons_append, end_of_string_escape, hend]
  | @closing cs apart rest ih =>
      refine ⟨cs, .closing apart rest, Nat.lt_succ_self _, ?_⟩
      intro R
      rw [List.cons_append, end_of_string_quote]

theorem dropWhile_to {p : Char → Bool} {c : Char} (hc : p c = false) (xs R : List Char) :
    (xs ++ c :: R).dropWhile p = xs.dropWhile p ++ c :: R := by
  induction xs with
  | nil => simp [hc]
  | cons x xs ih =>
      by_cases hx : p x = true
      · rw [List.cons_append, List.dropWhile_cons_of_pos hx, List.dropWhile_cons_of_pos hx, ih]
      · rw [List.cons_append, List.dropWhile_cons_of_neg hx, List.dropWhile_cons_of_neg hx]
        rfl

/-- In front of a comma, what does not go on with whitespace does not either. -/
theorem NoLeadingSpace.comma {rest : List Char} (h : NoLeadingSpace rest) (R : List Char) :
    NoLeadingSpace (rest ++ ',' :: R) := by
  cases rest with
  | nil =>
      intro c hc
      obtain rfl := Option.some.inj hc
      decide
  | cons c cs => exact h

theorem head_comma {rest : List Char} {c : Char} (hc : ',' ≠ c) (h : rest.head? ≠ some c)
    (R : List Char) : (rest ++ ',' :: R).head? ≠ some c := by
  cases rest with
  | nil => simpa using hc
  | cons d ds => exact h

/-- **Behind a key**: the scan goes on before the comma, or at it. -/
theorem after_key_lexes (h : Lexes false cs) : ∃ out next inside, Lexes inside next ∧
    next.length ≤ cs.length ∧ ∀ R, after_key (cs ++ ',' :: R) = (out, some (next ++ ',' :: R)) := by
  obtain ⟨spaces, rest, rfl, hspaces, hrest⟩ := split_spaces cs
  have hcursor := lexes_behind hspaces h
  rw [List.length_append]
  by_cases hcolon : rest.head? = some ':'
  · obtain ⟨after, rfl⟩ := List.head?_eq_some_iff.mp hcolon
    have hafter : Lexes false after := by
      cases hcursor with
      | mark c_ok more => exact more
    obtain ⟨gap, value, rfl, hgap, hvalue⟩ := split_spaces after
    have hstart := lexes_behind hgap hafter
    rw [List.length_cons, List.length_append]
    by_cases hquote : value.head? = some '"'
    · -- a string
      obtain ⟨ws, rfl⟩ := List.head?_eq_some_iff.mp hquote
      have hinside : Lexes true ws := by
        cases hstart with
        | mark c_ok more => exact absurd rfl c_ok
        | opening more => exact more
      obtain ⟨tail, htail, hlt, hend⟩ := lexes_end_of_string hinside
      refine ⟨spaces ++ ':' :: gap ++ '"' :: kStars, '"' :: tail, true, htail, ?_, ?_⟩
      · simp only [List.length_cons]
        omega
      · intro R
        have hstring := after_key_string hspaces hgap (hend (',' :: R))
        simpa using hstring
    · -- any other value
      obtain ⟨inside, hnext⟩ := lexes_ends_value hstart
      have hdrop := (List.dropWhile_sublist (l := value) fun c => !ends_value c).length_le
      refine ⟨spaces ++ ':' :: gap ++ kStars, _, inside, hnext, by omega, ?_⟩
      intro R
      have hother := after_key_colon hspaces hgap (hvalue.comma R)
      rw [if_neg (head_comma (by decide) hquote R), dropWhile_to (by decide)] at hother
      simpa using hother
  · -- no key
    refine ⟨spaces, rest, false, hcursor, by omega, ?_⟩
    intro R
    rw [List.append_assoc]
    exact after_key_other hspaces (hrest.comma R) (head_comma (by decide) hcolon R)

end Suffixes

/-! ## In front of a comma -/

section Keys

theorem not_key {c : Char} (hc : c ≠ '"') (cs : List Char) : ¬ kKey <+: c :: cs := by
  intro h
  exact hc (List.cons_prefix_cons.mp (show '"' :: kKey.tail <+: c :: cs from h)).1.symm

theorem key_iff (cs : List Char) : kKey <+: '"' :: cs ↔ kKey.tail <+: cs := by
  rw [show kKey = '"' :: kKey.tail from rfl, List.cons_prefix_cons]
  exact ⟨fun h => h.2, fun h => ⟨rfl, h⟩⟩

/-- What is no part of a key is copied. -/
theorem copy_marks {cs : List Char} (h : ∀ c ∈ cs, c ≠ '"') (R : List Char) :
    redacted (cs ++ R) = cs ++ redacted R := by
  induction cs with
  | nil => rfl
  | cons c cs ih =>
      obtain ⟨hc, hcs⟩ := List.forall_mem_cons.mp h
      rw [List.cons_append, redacted_cons (not_key hc _), ih hcs]
      rfl

/-- A quote with no key behind it is copied. -/
theorem copy_quote {cs : List Char} (h : ¬ kKey.tail <+: cs) :
    redacted ('"' :: cs) = '"' :: redacted cs :=
  redacted_cons (mt (key_iff cs).mp h)

theorem not_key_tail {cs : List Char} (h : cs.head? ≠ some 'p') : ¬ kKey.tail <+: cs := by
  rintro ⟨rest, rfl⟩
  exact h rfl

/-- Inside a string, the letters of the key end with the string. -/
theorem lexes_word {w : List Char} (hw : ∀ c ∈ w, c ≠ '"' ∧ c ≠ '\\') :
    ∀ {cs R : List Char}, Lexes true cs → w ++ ['"'] <+: cs ++ R →
      ∃ rest, cs = w ++ '"' :: rest ∧ Lexes false rest := by
  induction w with
  | nil =>
      intro cs R h hprefix
      cases h with
      | plain c_ok rest => exact absurd (List.cons_prefix_cons.mp hprefix).1.symm c_ok.1
      | escape c_ok rest => exact absurd (List.cons_prefix_cons.mp hprefix).1 (by decide)
      | closing apart rest => exact ⟨_, rfl, rest⟩
  | cons d w ih =>
      intro cs R h hprefix
      obtain ⟨hd, hw⟩ := List.forall_mem_cons.mp hw
      cases h with
      | plain c_ok rest =>
          obtain ⟨rfl, hmore⟩ := List.cons_prefix_cons.mp hprefix
          obtain ⟨tail, rfl, htail⟩ := ih hw rest hmore
          exact ⟨tail, rfl, htail⟩
      | escape c_ok rest => exact absurd (List.cons_prefix_cons.mp hprefix).1 hd.2
      | closing apart rest => exact absurd (List.cons_prefix_cons.mp hprefix).1 hd.1

theorem lexes_key {cs R : List Char} (h : Lexes true cs) (hkey : kKey.tail <+: cs ++ R) :
    ∃ rest, cs = kKey.tail ++ rest ∧ Lexes false rest := by
  obtain ⟨rest, hrest, hlexes⟩ :=
    lexes_word (w := "password".toList) (forall_char (by decide)) h hkey
  exact ⟨rest, hrest, hlexes⟩

/-- What comes out for the text in front of a comma. -/
def ScansTo (cs : List Char) : Prop :=
  ∃ out, ∀ R, redacted (cs ++ ',' :: R) = out ++ redacted (',' :: R)

theorem ScansTo.copy {c : Char} {cs : List Char} (h : ScansTo cs)
    (hkey : ∀ R, ¬ kKey <+: c :: (cs ++ ',' :: R)) : ScansTo (c :: cs) := by
  obtain ⟨out, hout⟩ := h
  refine ⟨c :: out, ?_⟩
  intro R
  rw [List.cons_append, redacted_cons (hkey R), hout]
  rfl

/-- A quote, and a string behind it. -/
theorem ScansTo.quote {cs : List Char} (h : Lexes true cs)
    (hshorter : ∀ inside next, Lexes inside next → next.length ≤ cs.length → ScansTo next) :
    ScansTo ('"' :: cs) := by
  by_cases hkey : ∃ rest, cs = kKey.tail ++ rest ∧ Lexes false rest
  · obtain ⟨rest, rfl, hrest⟩ := hkey
    obtain ⟨said, next, inside, hnext, hlen, hafter⟩ := after_key_lexes hrest
    rw [List.length_append] at hshorter
    obtain ⟨out, hout⟩ := hshorter inside next hnext (by omega)
    refine ⟨kKey ++ said ++ out, ?_⟩
    intro R
    have hround := redacted_key (rest ++ ',' :: R)
    rw [hafter R, Option.elim_some, hout] at hround
    rw [List.append_assoc, ← hround]
    rfl
  · have hcopied := hshorter true cs h (Nat.le_refl _)
    refine hcopied.copy ?_
    intro R hprefix
    exact hkey (lexes_key h ((key_iff _).mp hprefix))

/-- **In front of a comma** the scan does what it does whatever follows. -/
theorem scan_to_comma (n : Nat) : ∀ {inside : Bool} {cs : List Char}, cs.length ≤ n →
    Lexes inside cs → ScansTo cs := by
  induction n with
  | zero =>
      intro inside cs hlen h
      rw [List.eq_nil_of_length_eq_zero (Nat.le_zero.mp hlen)]
      exact ⟨[], fun R => rfl⟩
  | succ n ih =>
      intro inside cs hlen h
      have hmark : ∀ {c : Char} {cs : List Char}, c ≠ '"' → ScansTo cs → ScansTo (c :: cs) :=
        fun hc hcs => hcs.copy fun R => not_key hc _
      cases h with
      | finished => exact ⟨[], fun R => rfl⟩
      | mark c_ok rest => exact hmark c_ok (ih (Nat.le_of_succ_le_succ hlen) rest)
      | plain c_ok rest => exact hmark c_ok.1 (ih (Nat.le_of_succ_le_succ hlen) rest)
      | opening rest =>
          refine .quote rest ?_
          intro inside next hnext hle
          exact ih (hle.trans (Nat.le_of_succ_le_succ hlen)) hnext
      | @closing cs apart rest =>
          refine (ih (Nat.le_of_succ_le_succ hlen) rest).copy ?_
          intro R hprefix
          exact not_key_tail (head_comma (by decide) apart R) ((key_iff _).mp hprefix)
      | @escape c cs c_ok rest =>
          have hle : cs.length ≤ n := Nat.le_of_succ_le (Nat.le_of_succ_le_succ hlen)
          refine hmark (by decide) ?_
          by_cases hc : c = '"'
          · -- the escaped quote may begin the key as well
            rw [hc]
            refine .quote rest ?_
            intro inside next hnext hle'
            exact ih (hle'.trans hle) hnext
          · exact hmark hc (ih hle rest)

end Keys

/-! ## Strings that are copied -/

section Strings

theorem nibble_ok {c : Char} (h : (nibble c).isSome) :
    c ≠ '"' ∧ c ≠ '\\' ∧ ends_value c = false := by
  refine ⟨?_, ?_, ?_⟩
  · rintro rfl
    cases h
  · rintro rfl
    cases h
  · by_contra hends
    simp only [ends_value, Bool.not_eq_false, Bool.or_eq_true, decide_eq_true_eq] at hends
    rcases hends with (rfl | rfl) | rfl
    · cases h
    · cases h
    · cases h

theorem unescape_ok {c : Char} (h : (unescape c).isSome) : ends_value c = false := by
  by_contra hends
  simp only [ends_value, Bool.not_eq_false, Bool.or_eq_true, decide_eq_true_eq] at hends
  rcases hends with (rfl | rfl) | rfl
  · revert h
    decide
  · revert h
    decide
  · revert h
    decide

/-- The letters of a key are a whole string. -/
theorem inside_word {w : List Char} (hw : ∀ c ∈ w, c ≠ '"' ∧ c ≠ '\\') : ∀ {l : Literal}
    {R : List Char}, w ++ ['"'] <+: l.inside ++ R →
      l.inside = w ++ ['"'] ∧ l.map Glyph.meaning = w := by
  induction w with
  | nil =>
      intro l R hprefix
      cases l with
      | nil => exact ⟨rfl, rfl⟩
      | cons g gs =>
          cases g with
          | plain c ok => exact absurd (List.cons_prefix_cons.mp hprefix).1.symm ok.1
          | short c ok => exact absurd (List.cons_prefix_cons.mp hprefix).1 (by decide)
          | unicode code ok => exact absurd (List.cons_prefix_cons.mp hprefix).1 (by decide)
          | surrogates high low high_ok low_ok =>
              exact absurd (List.cons_prefix_cons.mp hprefix).1 (by decide)
  | cons d w ih =>
      intro l R hprefix
      obtain ⟨hd, hw⟩ := List.forall_mem_cons.mp hw
      cases l with
      | nil => exact absurd (List.cons_prefix_cons.mp hprefix).1 hd.1
      | cons g gs =>
          cases g with
          | plain c ok =>
              obtain ⟨rfl, hmore⟩ := List.cons_prefix_cons.mp hprefix
              obtain ⟨hinside, hmeaning⟩ := ih hw hmore
              exact ⟨congrArg (List.cons d) hinside, congrArg (List.cons d) hmeaning⟩
          | short c ok => exact absurd (List.cons_prefix_cons.mp hprefix).1 hd.2
          | unicode code ok => exact absurd (List.cons_prefix_cons.mp hprefix).1 hd.2
          | surrogates high low high_ok low_ok =>
              exact absurd (List.cons_prefix_cons.mp hprefix).1 hd.2

theorem inside_key {l : Literal} {R : List Char} (h : kKey.tail <+: l.inside ++ R) :
    l.inside = kKey.tail ∧ l.map Glyph.meaning = "password".toList :=
  inside_word (w := "password".toList) (forall_char (by decide)) h

/-- A string is copied up to its end, if what looks like a key in it is copied. -/
theorem copy_inside {R : List Char} (hR : R.head? ≠ some 'p') (l : Literal)
    (hkey : '"' ∉ l.map Glyph.meaning ∨ ∀ l' : Literal, kKey.tail <+: l'.inside ++ R →
      redacted ('"' :: (l'.inside ++ R)) = '"' :: (l'.inside ++ redacted R)) :
    redacted (l.inside ++ R) = l.inside ++ redacted R := by
  induction l with
  | nil => exact copy_quote (not_key_tail hR)
  | cons g gs ih =>
      have hgs : redacted (Literal.inside gs ++ R) = Literal.inside gs ++ redacted R := by
        apply ih
        refine hkey.imp_left ?_
        intro hnone hmem
        exact hnone (List.mem_cons_of_mem _ hmem)
      have hmarks : (∀ c ∈ g.text, c ≠ '"') →
          redacted (Literal.inside (g :: gs) ++ R) = Literal.inside (g :: gs) ++ redacted R := by
        intro hmarks
        rw [Literal.inside_cons, List.append_assoc, copy_marks hmarks, hgs, List.append_assoc]
      have hdigits : ∀ code : Hex, ∀ c ∈ '\\' :: 'u' :: code.digits, c ≠ '"' := by
        intro code
        refine List.forall_mem_cons.mpr ⟨by decide, List.forall_mem_cons.mpr ⟨by decide, ?_⟩⟩
        exact fun c hc => (nibble_ok (code.digits_ok c hc)).1
      cases g with
      | plain c ok => exact hmarks (by simpa [Glyph.text] using ok.1)
      | unicode code ok => exact hmarks (hdigits code)
      | surrogates high low high_ok low_ok =>
          exact hmarks (List.forall_mem_append.mpr ⟨hdigits high, hdigits low⟩)
      | short c ok =>
          by_cases hc : c = '"'
          · subst hc
            show redacted ('\\' :: '"' :: (Literal.inside gs ++ R)) = _
            rw [redacted_cons (not_key (by decide) _)]
            refine congrArg (List.cons '\\') ?_
            by_cases hthere : kKey.tail <+: Literal.inside gs ++ R
            · rcases hkey with hnone | hcopied
              · exact absurd List.mem_cons_self hnone
              · exact hcopied gs hthere
            · rw [copy_quote hthere, hgs]
              rfl
          · refine hmarks ?_
            simpa [Glyph.text] using hc

/-- **A name other than the key** is copied. -/
theorem copy_name {R : List Char} (hR : R.head? ≠ some 'p') {l : Literal}
    (hquote : '"' ∉ l.map Glyph.meaning) (hkey : l.text ≠ kKey) :
    redacted (l.text ++ R) = l.text ++ redacted R := by
  have hnot : ¬ kKey.tail <+: l.inside ++ R := by
    intro hprefix
    exact hkey (congrArg (List.cons '"') (inside_key hprefix).1)
  show redacted ('"' :: (l.inside ++ R)) = _
  rw [copy_quote hnot, copy_inside hR l (.inl hquote)]
  rfl

/-- What follows a member's value. -/
def Follows (R : List Char) : Prop := ∃ spaces c rest, R = spaces ++ c :: rest ∧
  (∀ d ∈ spaces, is_space d = true) ∧ (c = ',' ∨ c = '\x7d')

theorem space_ne_quote {spaces : List Char} (h : ∀ c ∈ spaces, is_space c = true) :
    ∀ c ∈ spaces, c ≠ '"' := by
  rintro c hc rfl
  exact absurd (h '"' hc) (by decide)

/-- **A value that is a string** is copied, even one that looks like the key. -/
theorem copy_value {R : List Char} (hR : Follows R) (l : Literal) :
    redacted (l.text ++ R) = l.text ++ redacted R := by
  obtain ⟨spaces, c, rest, rfl, hspaces, hc⟩ := hR
  have hlead : NoLeadingSpace (c :: rest) := by
    intro d hd
    obtain rfl := Option.some.inj hd
    rcases hc with rfl | rfl
    · decide
    · decide
  have hcolon : (c :: rest).head? ≠ some ':' := by
    rcases hc with rfl | rfl
    · simp
    · simp
  have hhead : (spaces ++ c :: rest).head? ≠ some 'p' := by
    cases spaces with
    | nil =>
        rcases hc with rfl | rfl
        · simp
        · simp
    | cons d ds =>
        rintro h
        obtain rfl := Option.some.inj h
        exact absurd (hspaces 'p' List.mem_cons_self) (by decide)
  have hkey : ∀ l' : Literal, kKey.tail <+: l'.inside ++ (spaces ++ c :: rest) →
      redacted ('"' :: (l'.inside ++ (spaces ++ c :: rest)))
        = '"' :: (l'.inside ++ redacted (spaces ++ c :: rest)) := by
    intro l' hprefix
    rw [(inside_key hprefix).1]
    show redacted (kKey ++ (spaces ++ c :: rest)) = kKey ++ redacted (spaces ++ c :: rest)
    rw [redacted_key, after_key_other hspaces hlead hcolon, Option.elim_some,
      copy_marks (space_ne_quote hspaces), List.append_assoc]
  by_cases hthere : kKey.tail <+: l.inside ++ (spaces ++ c :: rest)
  · exact hkey l hthere
  · show redacted ('"' :: (l.inside ++ (spaces ++ c :: rest))) = _
    rw [copy_quote hthere, copy_inside hhead l (.inr hkey)]
    rfl

theorem end_of_string_inside (l : Literal) (R : List Char) :
    end_of_string (l.inside ++ R) = '"' :: R := by
  induction l with
  | nil => exact end_of_string_quote R
  | cons g gs ih =>
      have hdigits : ∀ (ds : List Char) (T : List Char), (∀ c ∈ ds, (nibble c).isSome) →
          end_of_string (ds ++ T) = end_of_string T := by
        intro ds T hds
        induction ds with
        | nil => rfl
        | cons d ds ih =>
            obtain ⟨hd, hds⟩ := List.forall_mem_cons.mp hds
            obtain ⟨hquote, hescape, -⟩ := nibble_ok hd
            rw [List.cons_append, end_of_string_plain hquote hescape, ih hds]
      rw [Literal.inside_cons, List.append_assoc]
      cases g with
      | plain c ok =>
          rw [Glyph.text, List.singleton_append, end_of_string_plain ok.1 ok.2.1, ih]
      | short c ok =>
          show end_of_string ('\\' :: c :: (Literal.inside gs ++ R)) = _
          rw [end_of_string_escape, ih]
      | unicode code ok =>
          show end_of_string ('\\' :: 'u' :: (code.digits ++ (Literal.inside gs ++ R))) = _
          rw [end_of_string_escape, hdigits _ _ code.digits_ok, ih]
      | surrogates high low high_ok low_ok =>
          show end_of_string ('\\' :: 'u' :: (high.digits ++ '\\' :: 'u' :: low.digits ++
            (Literal.inside gs ++ R))) = _
          rw [end_of_string_escape, List.append_assoc, hdigits _ _ high.digits_ok]
          show end_of_string ('\\' :: 'u' :: (low.digits ++ (Literal.inside gs ++ R))) = _
          rw [end_of_string_escape, hdigits _ _ low.digits_ok, ih]

/-- **The value of the key** is not copied, and where it ends the scan goes on. -/
theorem redact_value {spaces gap : List Char} (hspaces : ∀ c ∈ spaces, is_space c = true)
    (hgap : ∀ c ∈ gap, is_space c = true) (l : Literal) (R : List Char) :
    redacted (kKey ++ (spaces ++ ':' :: (gap ++ (l.text ++ R))))
      = kKey ++ (spaces ++ ':' :: gap ++ '"' :: kStars) ++ redacted ('"' :: R) := by
  rw [redacted_key]
  show _ ++ (after_key (spaces ++ ':' :: (gap ++ '"' :: (l.inside ++ R)))).1 ++ _ = _
  rw [after_key_string hspaces hgap (end_of_string_inside l R)]
  show _ ++ (after_key (spaces ++ ':' :: (gap ++ '"' :: (l.inside ++ R)))).2.elim [] redacted = _
  rw [after_key_string hspaces hgap (end_of_string_inside l R)]
  rfl

end Strings

end KungFuChess
