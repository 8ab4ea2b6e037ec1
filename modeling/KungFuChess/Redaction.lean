/-
**`redact_for_log`**, as a scanner over characters.

The scan looks for the key, decides by what follows it whether it is one, and goes on
behind the value. `redact` is its loop, with fuel for each round; a round takes at least
the key away, so a text has fuel enough (`redact_total`), and `redacted` is what comes
out. What a round does is said by two equations: a character where no key begins is
copied (`redacted_cons`), and a key is answered by `after_key` (`redacted_key`).

A text is a list of characters here, and could as well be one of bytes, each read as
a character: the scan looks for ASCII characters only, and copies all others.
-/
import KungFuChess.JsonSyntax

set_option autoImplicit false

namespace KungFuChess

open Json (is_space)

/-- The ten characters that are searched. -/
def kKey : List Char := "\"password\"".toList

/-- What is written in place of a password. -/
def kStars : List Char := "***".toList

/-- `text.find(kKey, at)`: what is before the key, and what is behind it. -/
def find_key : List Char → Option (List Char × List Char)
  | [] => none
  | c :: cs =>
      if kKey <+: c :: cs then some ([], (c :: cs).drop kKey.length)
      else (find_key cs).map fun r => (c :: r.1, r.2)

/-- Past the blanks. -/
def skip_whitespace (cs : List Char) : List Char := cs.dropWhile is_space

/-- From behind the opening quote on to the quote that ends the string, stepping over
backslash escapes. -/
def end_of_string : List Char → List Char
  | [] => []
  | c :: cs =>
      if c = '"' then c :: cs
      else if c = '\\' then
        match cs with
        | [] => []
        | _ :: rest => end_of_string rest
      else end_of_string cs

/-- Whatever ends a value that is no string. -/
def ends_value (c : Char) : Bool := c = ',' || c = '}' || c = ']'

/-- Behind the key: what is written to the log, and where the scan goes on, if it does. -/
def after_key (rest : List Char) : List Char × Option (List Char) :=
  let spaces := rest.takeWhile is_space
  let cursor := skip_whitespace rest
  if cursor.head? ≠ some ':' then
    -- "password" as a value, not a key: nothing to redact
    (spaces, some cursor)
  else
    let gap := cursor.tail.takeWhile is_space
    let value := skip_whitespace cursor.tail
    if value.head? = some '"' then
      let at_end := end_of_string value.tail
      -- truncated message: drop the remainder
      (spaces ++ ':' :: gap ++ '"' :: kStars, if at_end = [] then none else some at_end)
    else
      (spaces ++ ':' :: gap ++ kStars, some (value.dropWhile fun c => !ends_value c))

/-- The loop. -/
def redact : Nat → List Char → Option (List Char)
  | 0, _ => none
  | n + 1, text =>
      match find_key text with
      | none => some text
      | some (before, rest) =>
          let r := after_key rest
          match r.2 with
          | none => some (before ++ kKey ++ r.1)
          | some next => (redact n next).map fun out => before ++ kKey ++ r.1 ++ out

/-- The log line of a text, if the loop ends in so many rounds as the text has characters. -/
def redact_for_log (text : String) : Option String :=
  (redact (text.toList.length + 1) text.toList).map String.ofList

/-! ## The loop ends -/

theorem end_of_string_quote (cs : List Char) : end_of_string ('"' :: cs) = '"' :: cs := by
  rw [end_of_string.eq_def]
  simp

theorem end_of_string_escape (c : Char) (cs : List Char) :
    end_of_string ('\\' :: c :: cs) = end_of_string cs := by
  rw [end_of_string.eq_def]
  simp

theorem end_of_string_plain {c : Char} (hquote : c ≠ '"') (hescape : c ≠ '\\') (cs : List Char) :
    end_of_string (c :: cs) = end_of_string cs := by
  rw [end_of_string.eq_def]
  simp [hquote, hescape]

theorem length_end_of_string : ∀ cs : List Char, (end_of_string cs).length ≤ cs.length
  | [] => Nat.le_refl _
  | [c] => by
      rw [end_of_string.eq_def]
      dsimp only
      split_ifs
      · exact Nat.le_refl _
      · exact Nat.zero_le _
      · exact Nat.zero_le _
  | c :: d :: cs => by
      by_cases hquote : c = '"'
      · rw [hquote, end_of_string_quote]
      · by_cases hescape : c = '\\'
        · have hle := length_end_of_string cs
          rw [hescape, end_of_string_escape, List.length_cons, List.length_cons]
          omega
        · have hle := length_end_of_string (d :: cs)
          rw [end_of_string_plain hquote hescape, List.length_cons]
          omega

theorem length_skip_whitespace (cs : List Char) : (skip_whitespace cs).length ≤ cs.length :=
  (List.dropWhile_sublist _).length_le

/-- The scan goes on behind the key. -/
theorem length_after_key {rest next : List Char} (h : (after_key rest).2 = some next) :
    next.length ≤ rest.length := by
  have hcursor := length_skip_whitespace rest
  have hvalue := length_skip_whitespace (skip_whitespace rest).tail
  rw [List.length_tail] at hvalue
  unfold after_key at h
  dsimp only at h
  split_ifs at h with h1 h2 h3
  · obtain rfl := Option.some.inj h
    exact hcursor
  · obtain rfl := Option.some.inj h
    have hend := length_end_of_string (skip_whitespace (skip_whitespace rest).tail).tail
    rw [List.length_tail] at hend
    omega
  · obtain rfl := Option.some.inj h
    have hdrop := (List.dropWhile_sublist (l := skip_whitespace (skip_whitespace rest).tail)
      fun c => !ends_value c).length_le
    omega

/-- What comes before the first key, and after it. -/
theorem find_key_spec {text before rest : List Char} (h : find_key text = some (before, rest)) :
    text = before ++ kKey ++ rest := by
  induction text generalizing before with
  | nil => cases h
  | cons c cs ih =>
      rw [find_key] at h
      split_ifs at h with hkey
      · obtain ⟨rfl, rfl⟩ := Prod.mk.inj (Option.some.inj h)
        obtain ⟨tail, htail⟩ := hkey
        rw [← htail, List.drop_left, List.nil_append]
      · obtain ⟨⟨before', rest'⟩, hfound, heq⟩ := Option.map_eq_some_iff.mp h
        obtain ⟨rfl, rfl⟩ := Prod.mk.inj heq
        rw [ih hfound]
        rfl

/-- **The loop ends on every text**, and more fuel changes nothing. -/
theorem redact_total (n : Nat) : ∀ text : List Char, text.length < n →
    ∃ out, ∀ m, n ≤ m → redact m text = some out := by
  induction n with
  | zero => exact fun text h => absurd h (Nat.not_lt_zero _)
  | succ n ih =>
      intro text hlen
      have hround : ∀ m, n + 1 ≤ m → ∃ k, m = k + 1 ∧ n ≤ k :=
        fun m hm => ⟨m - 1, by omega, by omega⟩
      cases hfind : find_key text with
      | none =>
          refine ⟨text, ?_⟩
          intro m hm
          obtain ⟨k, rfl, -⟩ := hround m hm
          rw [redact, hfind]
      | some found =>
          obtain ⟨before, rest⟩ := found
          cases hnext : (after_key rest).2 with
          | none =>
              refine ⟨before ++ kKey ++ (after_key rest).1, ?_⟩
              intro m hm
              obtain ⟨k, rfl, -⟩ := hround m hm
              rw [redact, hfind]
              dsimp only
              rw [hnext]
          | some next =>
              have hle := length_after_key hnext
              have htext := congrArg List.length (find_key_spec hfind)
              have hkey : kKey.length = 10 := rfl
              simp only [List.length_append, hkey] at htext
              obtain ⟨out, hout⟩ := ih next (by omega)
              refine ⟨before ++ kKey ++ (after_key rest).1 ++ out, ?_⟩
              intro m hm
              obtain ⟨k, rfl, hk⟩ := hround m hm
              rw [redact, hfind]
              dsimp only
              rw [hnext]
              dsimp only
              rw [hout k hk]
              rfl

/-- What comes out. -/
def redacted (text : List Char) : List Char := (redact (text.length + 1) text).getD []

theorem redact_eq (text : List Char) {n : Nat} (h : text.length < n) :
    redact n text = some (redacted text) := by
  obtain ⟨out, hout⟩ := redact_total (text.length + 1) text (Nat.lt_succ_self _)
  rw [redacted, hout n h, hout _ (Nat.le_refl _)]
  rfl

/-- **The loop ends**: the fuel is more than the text. -/
theorem redact_for_log_eq (text : String) :
    redact_for_log text = some (String.ofList (redacted text.toList)) := by
  rw [redact_for_log, redact_eq _ (Nat.lt_succ_self _)]
  rfl

/-! ## Two equations -/

@[simp] theorem redacted_nil : redacted [] = [] := rfl

/-- A character where no key begins is copied. -/
theorem redacted_cons {c : Char} {cs : List Char} (h : ¬ kKey <+: c :: cs) :
    redacted (c :: cs) = c :: redacted cs := by
  have hlong := redact_eq (c :: cs) (n := cs.length + 2) (by simp)
  have hshort := redact_eq cs (n := cs.length + 2) (by omega)
  have hfind : find_key (c :: cs) = (find_key cs).map fun r => (c :: r.1, r.2) := by
    rw [find_key, if_neg h]
  rw [redact, hfind] at hlong
  rw [redact] at hshort
  cases hcs : find_key cs with
  | none =>
      rw [hcs] at hlong hshort
      rw [← Option.some.inj hlong, ← Option.some.inj hshort]
  | some found =>
      rw [hcs] at hlong hshort
      dsimp only [Option.map_some] at hlong hshort
      cases hnext : (after_key found.2).2 with
      | none =>
          rw [hnext] at hlong hshort
          rw [← Option.some.inj hlong, ← Option.some.inj hshort]
          rfl
      | some next =>
          rw [hnext] at hlong hshort
          dsimp only at hlong hshort
          obtain ⟨out, hout, hthis⟩ := Option.map_eq_some_iff.mp hlong
          rw [hout, Option.map_some] at hshort
          rw [← hthis, ← Option.some.inj hshort]
          rfl

/-- A key is followed by what `after_key` says. -/
theorem redacted_key (rest : List Char) :
    redacted (kKey ++ rest)
      = kKey ++ (after_key rest).1 ++ ((after_key rest).2.elim [] redacted) := by
  have hlen : (kKey ++ rest).length = rest.length + 10 := by
    rw [List.length_append, Nat.add_comm]
    rfl
  have hall := redact_eq (kKey ++ rest) (n := rest.length + 11) (by omega)
  have hfind : find_key (kKey ++ rest) = some ([], rest) := by
    have hcons : kKey ++ rest = '"' :: (kKey.tail ++ rest) := rfl
    rw [hcons, find_key, if_pos (by rw [← hcons]; exact List.prefix_append _ _), ← hcons,
      List.drop_left]
  rw [redact, hfind] at hall
  dsimp only at hall
  cases hnext : (after_key rest).2 with
  | none =>
      rw [hnext] at hall
      rw [← Option.some.inj hall, Option.elim_none, List.append_nil]
      rfl
  | some next =>
      rw [hnext] at hall
      have hle := length_after_key hnext
      dsimp only at hall
      rw [redact_eq next (by omega), Option.map_some] at hall
      rw [← Option.some.inj hall, Option.elim_some]
      rfl

/-! ## Behind a key -/

/-- What does not go on with whitespace. -/
def NoLeadingSpace (cs : List Char) : Prop := ∀ c ∈ cs.head?, is_space c = false

theorem split_spaces (cs : List Char) : ∃ spaces rest, cs = spaces ++ rest ∧
    (∀ c ∈ spaces, is_space c = true) ∧ NoLeadingSpace rest := by
  induction cs with
  | nil => exact ⟨[], [], rfl, by simp, by simp [NoLeadingSpace]⟩
  | cons c cs ih =>
      by_cases hc : is_space c = true
      · obtain ⟨spaces, rest, rfl, hspaces, hrest⟩ := ih
        exact ⟨c :: spaces, rest, rfl, List.forall_mem_cons.mpr ⟨hc, hspaces⟩, hrest⟩
      · exact ⟨[], c :: cs, rfl, by simp, by simpa [NoLeadingSpace] using hc⟩

theorem skip_spaces {spaces rest : List Char} (hspaces : ∀ c ∈ spaces, is_space c = true)
    (hrest : NoLeadingSpace rest) : (spaces ++ rest).takeWhile is_space = spaces ∧
      skip_whitespace (spaces ++ rest) = rest := by
  have hnone : rest.takeWhile is_space = [] ∧ rest.dropWhile is_space = rest := by
    cases rest with
    | nil => exact ⟨rfl, rfl⟩
    | cons c cs =>
        have hc : ¬ is_space c = true := by simp [hrest c rfl]
        exact ⟨List.takeWhile_cons_of_neg hc, List.dropWhile_cons_of_neg hc⟩
  unfold skip_whitespace
  rw [List.takeWhile_append_of_pos hspaces, List.dropWhile_append_of_pos hspaces, hnone.1, hnone.2,
    List.append_nil]
  exact ⟨rfl, rfl⟩

variable {spaces gap rest : List Char}

/-- It is no key after all. -/
theorem after_key_other (hspaces : ∀ c ∈ spaces, is_space c = true) (hrest : NoLeadingSpace rest)
    (hcolon : rest.head? ≠ some ':') : after_key (spaces ++ rest) = (spaces, some rest) := by
  obtain ⟨htake, hskip⟩ := skip_spaces hspaces hrest
  unfold after_key
  dsimp only
  rw [htake, hskip, if_pos hcolon]

theorem after_key_colon (hspaces : ∀ c ∈ spaces, is_space c = true)
    (hgap : ∀ c ∈ gap, is_space c = true) (hrest : NoLeadingSpace rest) :
    after_key (spaces ++ ':' :: (gap ++ rest)) =
      if rest.head? = some '"' then
        (spaces ++ ':' :: gap ++ '"' :: kStars,
          if end_of_string rest.tail = [] then none else some (end_of_string rest.tail))
      else (spaces ++ ':' :: gap ++ kStars, some (rest.dropWhile fun c => !ends_value c)) := by
  have hlead : NoLeadingSpace (':' :: (gap ++ rest)) := by
    intro c hc
    obtain rfl := Option.some.inj hc
    decide
  obtain ⟨htake, hskip⟩ := skip_spaces hspaces hlead
  obtain ⟨htake', hskip'⟩ := skip_spaces hgap hrest
  have hcolon : ¬ (':' :: (gap ++ rest)).head? ≠ some ':' := not_not.mpr rfl
  unfold after_key
  dsimp only
  rw [htake, hskip, if_neg hcolon, List.tail_cons, htake', hskip']

/-- The value is a string. -/
theorem after_key_string (hspaces : ∀ c ∈ spaces, is_space c = true)
    (hgap : ∀ c ∈ gap, is_space c = true) {next : List Char}
    (hend : end_of_string rest = '"' :: next) :
    after_key (spaces ++ ':' :: (gap ++ '"' :: rest))
      = (spaces ++ ':' :: gap ++ '"' :: kStars, some ('"' :: next)) := by
  have hlead : NoLeadingSpace ('"' :: rest) := by
    intro c hc
    obtain rfl := Option.some.inj hc
    decide
  have hne : ('"' :: next) ≠ [] := by simp
  rw [after_key_colon hspaces hgap hlead, List.head?_cons, if_pos rfl, List.tail_cons, hend,
    if_neg hne]

end KungFuChess
