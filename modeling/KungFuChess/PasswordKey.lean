/-
**Whether the password reaches the log.**

A text that is decoded as a login has the password in the last member `password` of the
last member `payload` (`password_literal`). What stands in front of that member the scan
treats alike whatever the password is (`Opens.copies`): another member ends in a comma,
and the first member of an object comes behind marks and the key of the payload. So
all depends on the key itself. Written with the letters the scan looks for, the value
is left out; written with an escape, which the parser reads as the same key, it is
copied.
-/
import KungFuChess.Scanner
import KungFuChess.Wire

set_option autoImplicit false

namespace KungFuChess

open Json

/-! ## Texts in front of a key -/

/-- A text with whole strings, that may stand behind a string. -/
structure Lexical (t : List Char) : Prop where
  apart : t.head? ≠ some 'p'
  lexes : ∀ cs, Lexes false cs → cs.head? ≠ some 'p' → Lexes false (t ++ cs)

section Lexical

variable {s t : List Char}

theorem Lexical.append (hs : Lexical s) (ht : Lexical t) : Lexical (s ++ t) where
  apart := by
    cases s with
    | nil => exact ht.apart
    | cons c cs => exact hs.apart
  lexes cs hcs hapart := by
    have hboth : (t ++ cs).head? ≠ some 'p' := by
      cases t with
      | nil => exact hapart
      | cons c ds => exact ht.apart
    rw [List.append_assoc]
    exact hs.lexes _ (ht.lexes cs hcs hapart) hboth

theorem lexical_marks (hmarks : ∀ c ∈ t, c ≠ '"') (hapart : t.head? ≠ some 'p') : Lexical t where
  apart := hapart
  lexes cs hcs _ := by
    clear hapart
    induction t with
    | nil => exact hcs
    | cons c ds ih =>
        obtain ⟨hc, hds⟩ := List.forall_mem_cons.mp hmarks
        exact .mark hc (ih hds)

theorem lexical_spaces (h : ∀ c ∈ t, is_space c = true) : Lexical t := by
  refine lexical_marks (space_ne_quote h) ?_
  intro hp
  exact absurd (h 'p' (List.mem_of_mem_head? hp)) (by decide)

theorem lexical_mark {c : Char} (hquote : c ≠ '"') (hp : c ≠ 'p') : Lexical [c] :=
  lexical_marks (by simpa using hquote) (by simpa using hp)

theorem lexes_inside (l : Literal) {cs : List Char} (hcs : Lexes false cs)
    (hapart : cs.head? ≠ some 'p') : Lexes true (l.inside ++ cs) := by
  induction l with
  | nil => exact .closing hapart hcs
  | cons g gs ih =>
      have hdigits : ∀ (ds : List Char) (T : List Char), (∀ c ∈ ds, (nibble c).isSome) →
          Lexes true T → Lexes true (ds ++ T) := by
        intro ds T hds hT
        induction ds with
        | nil => exact hT
        | cons d ds ih =>
            obtain ⟨hd, hds⟩ := List.forall_mem_cons.mp hds
            obtain ⟨hquote, hescape, -⟩ := nibble_ok hd
            exact .plain ⟨hquote, hescape⟩ (ih hds)
      have hu : ends_value 'u' = false := by decide
      rw [Literal.inside_cons, List.append_assoc]
      cases g with
      | plain c ok => exact .plain ⟨ok.1, ok.2.1⟩ ih
      | short c ok => exact .escape (unescape_ok ok) ih
      | unicode code ok => exact .escape hu (hdigits _ _ code.digits_ok ih)
      | surrogates high low high_ok low_ok =>
          show Lexes true ('\\' :: 'u' :: (high.digits ++ '\\' :: 'u' :: low.digits ++
            (Literal.inside gs ++ cs)))
          rw [List.append_assoc]
          exact .escape hu (hdigits _ _ high.digits_ok (.escape hu (hdigits _ _ low.digits_ok ih)))

theorem lexical_literal (l : Literal) : Lexical l.text where
  apart := by simp [Literal.text]
  lexes _ hcs hapart := .opening (lexes_inside l hcs hapart)

theorem lexical_key (k : Key) : Lexical k.text :=
  (((lexical_spaces k.before.2).append (lexical_literal k.name)).append
    (lexical_spaces k.after.2)).append (lexical_mark (by decide) (by decide))

theorem lexical_intercalate {xs : List (List Char)} (h : ∀ x ∈ xs, Lexical x) :
    Lexical (List.intercalate [','] xs) := by
  induction xs with
  | nil => exact lexical_marks (by simp) (by simp)
  | cons x xs ih =>
      obtain ⟨hx, hxs⟩ := List.forall_mem_cons.mp h
      cases xs with
      | nil =>
          rw [List.intercalate_singleton]
          exact hx
      | cons y ys =>
          rw [List.intercalate_cons_cons]
          exact (hx.append (lexical_mark (by decide) (by decide))).append (ih hxs)

/-- A number is written without quotes. -/
theorem numeral_marks (n : Numeral) : ∀ c ∈ n.text, c ≠ '"' ∧ c ≠ 'p' := by
  have hdigits : ∀ {ds : List Char}, all_digits ds → ∀ c ∈ ds, c ≠ '"' ∧ c ≠ 'p' := by
    intro ds hds c hc
    have hdigit := hds.2 c hc
    constructor
    · rintro rfl
      exact absurd hdigit (by decide)
    · rintro rfl
      exact absurd hdigit (by decide)
  intro c hc
  unfold Numeral.text at hc
  simp only [List.mem_append] at hc
  rcases hc with ((hc | hc) | hc) | hc
  · split_ifs at hc
    · rw [List.mem_singleton.mp hc]
      decide
    · cases hc
  · exact hdigits n.whole_ok c hc
  · cases hfraction : n.fraction with
    | none =>
        rw [hfraction] at hc
        cases hc
    | some ds =>
        rw [hfraction] at hc
        rcases List.mem_cons.mp hc with rfl | hc
        · decide
        · exact hdigits (n.fraction_ok ds hfraction) c hc
  · cases hexponent : n.exponent with
    | none =>
        rw [hexponent] at hc
        cases hc
    | some e =>
        rw [hexponent] at hc
        obtain ⟨hletter, hds⟩ := n.exponent_ok e hexponent
        rcases List.mem_append.mp hc with hc | hc
        · revert c
          have hall : ∀ letter ∈ [['e'], ['E'], ['e', '+'], ['E', '+'], ['e', '-'], ['E', '-']],
              ∀ c ∈ letter, c ≠ '"' ∧ c ≠ 'p' := by simp
          exact fun c _ hc => hall e.1 hletter c hc
        · exact hdigits hds c hc

mutual

/-- **A value is written with whole strings.** -/
theorem lexical_text : ∀ v : Syntax, Lexical v.text
  | .null => lexical_marks (forall_char (by decide)) (by decide)
  | .boolean true => lexical_marks (forall_char (by decide)) (by decide)
  | .boolean false => lexical_marks (forall_char (by decide)) (by decide)
  | .number n => by
      refine lexical_marks (fun c hc => (numeral_marks n c hc).1) ?_
      intro hp
      exact (numeral_marks n 'p' (List.mem_of_mem_head? hp)).2 rfl
  | .string l => lexical_literal l
  | .array items =>
      ((lexical_mark (by decide) (by decide)).append
        (lexical_intercalate (lexical_items items))).append (lexical_mark (by decide) (by decide))
  | .object members =>
      ((lexical_mark (by decide) (by decide)).append
        (lexical_intercalate (lexical_members members))).append
          (lexical_mark (by decide) (by decide))
  | .empty_array blank =>
      ((lexical_mark (by decide) (by decide)).append (lexical_spaces blank.2)).append
        (lexical_mark (by decide) (by decide))
  | .empty_object blank =>
      ((lexical_mark (by decide) (by decide)).append (lexical_spaces blank.2)).append
        (lexical_mark (by decide) (by decide))
  | .spaced before v after =>
      ((lexical_spaces before.2).append (lexical_text v)).append (lexical_spaces after.2)

theorem lexical_items : ∀ items : List Syntax, ∀ x ∈ Syntax.item_texts items, Lexical x
  | [] => fun _ hx => absurd hx List.not_mem_nil
  | v :: vs => List.forall_mem_cons.mpr ⟨lexical_text v, lexical_items vs⟩

theorem lexical_members : ∀ members : List (Key × Syntax),
    ∀ x ∈ Syntax.member_texts members, Lexical x
  | [] => fun _ hx => absurd hx List.not_mem_nil
  | (k, v) :: ms =>
      List.forall_mem_cons.mpr ⟨(lexical_key k).append (lexical_text v), lexical_members ms⟩

end

end Lexical

/-! ## In front of a member -/

/-- What stands in front of a member: a member that ends in a comma, or no string at all. -/
structure Opens (pre : List Char) : Prop where
  lexical : Lexical pre
  begins : (∀ c ∈ pre, c ≠ '"') ∨ ∃ X, Lexical X ∧ pre = X ++ [',']

/-- What the scan makes of a text does not depend on what follows it. -/
def Copies (pre : List Char) : Prop := ∃ out, ∀ R, redacted (pre ++ R) = out ++ redacted R

section Members

variable {pre : List Char} {key : String} {m : Key × Syntax} {v : Syntax}

theorem Copies.append {more : List Char} (h : Copies pre) (hmore : Copies more) :
    Copies (pre ++ more) := by
  obtain ⟨out, hout⟩ := h
  obtain ⟨out', hout'⟩ := hmore
  refine ⟨out ++ out', ?_⟩
  intro R
  rw [List.append_assoc, hout, hout', List.append_assoc]

theorem copies_marks (h : ∀ c ∈ pre, c ≠ '"') : Copies pre := ⟨pre, copy_marks h⟩

theorem copies_comma (h : Lexical pre) : Copies (pre ++ [',']) := by
  have hlexes := h.lexes [] .finished (by simp)
  rw [List.append_nil] at hlexes
  obtain ⟨out, hout⟩ := scan_to_comma pre.length (Nat.le_refl _) hlexes
  refine ⟨out ++ [','], ?_⟩
  intro R
  rw [List.append_assoc, List.singleton_append, hout, redacted_cons (not_key (by decide) _)]
  simp

theorem Opens.copies (h : Opens pre) : Copies pre := by
  rcases h.begins with hmarks | ⟨X, hX, rfl⟩
  · exact copies_marks hmarks
  · exact copies_comma hX

/-- The key of another member. -/
theorem copies_key {k : Key} (hquote : '"' ∉ k.name.map Glyph.meaning)
    (hkey : k.name.map Glyph.meaning ≠ "password".toList) : Copies k.text := by
  refine ⟨k.text, ?_⟩
  intro R
  have hname : k.name.text ≠ kKey := by
    intro htext
    have hinside : k.name.inside = kKey.tail := List.tail_eq_of_cons_eq htext
    have hprefix : kKey.tail <+: k.name.inside ++ [] := by simp [hinside]
    exact hkey (inside_key hprefix).2
  have hcolon : ∀ c ∈ k.after.1 ++ [':'], c ≠ '"' :=
    List.forall_mem_append.mpr ⟨space_ne_quote k.after.2, by simp⟩
  have hapart : (k.after.1 ++ [':'] ++ R).head? ≠ some 'p' := by
    cases hafter : k.after.1 with
    | nil => simp
    | cons c cs =>
        intro hp
        obtain rfl := Option.some.inj hp
        exact absurd (k.after.2 'p' (by rw [hafter]; exact List.mem_cons_self)) (by decide)
  have htext : k.text ++ R = k.before.1 ++ (k.name.text ++ (k.after.1 ++ [':'] ++ R)) := by
    simp [Key.text]
  rw [htext, copy_marks (space_ne_quote k.before.2), copy_name hapart hquote hname,
    copy_marks hcolon]
  simp [Key.text]

theorem opens_members (xs : List (List Char)) (h : ∀ x ∈ xs, Lexical x) :
    Opens ('{' :: xs.flatMap (· ++ [','])) := by
  have hopen : Lexical ['{'] := lexical_mark (by decide) (by decide)
  have hcomma : Lexical [','] := lexical_mark (by decide) (by decide)
  have hall : ∀ ys : List (List Char), (∀ y ∈ ys, Lexical y) →
      Lexical (['{'] ++ ys.flatMap (· ++ [','])) := by
    intro ys hys
    refine hopen.append ?_
    induction ys with
    | nil => exact lexical_marks (by simp) (by simp)
    | cons y ys ih =>
        obtain ⟨hy, hys⟩ := List.forall_mem_cons.mp hys
        rw [List.flatMap_cons]
        exact (hy.append hcomma).append (ih hys)
  refine ⟨hall xs h, ?_⟩
  rcases List.eq_nil_or_concat xs with rfl | ⟨ys, y, rfl⟩
  · left
    simp
  · rw [List.concat_eq_append] at h ⊢
    obtain ⟨hys, hy⟩ := List.forall_mem_append.mp h
    refine .inr ⟨['{'] ++ ys.flatMap (· ++ [',']) ++ y, (hall ys hys).append (hy y (by simp)), ?_⟩
    simp

theorem follows_members (zs : List (List Char)) : Follows (zs.flatMap (',' :: ·) ++ ['}']) := by
  cases zs with
  | nil => exact ⟨[], '}', [], rfl, by simp, .inr rfl⟩
  | cons z zs => exact ⟨[], ',', z ++ zs.flatMap (',' :: ·) ++ ['}'], by simp, by simp, .inl rfl⟩

/-- **What a change of a member does to the text**: its value is another one. -/
theorem text_update {v : Syntax} (h : v.field key = some m) : ∃ pre post, Opens pre ∧
    Follows post ∧ ∀ change : Syntax → Syntax,
      (v.update key change).text = pre ++ (m.1.text ++ ((change m.2).text ++ post)) := by
  refine Syntax.field_rule (P := fun v => ∃ pre post, Opens pre ∧ Follows post ∧
    ∀ change : Syntax → Syntax,
      (v.update key change).text = pre ++ (m.1.text ++ ((change m.2).text ++ post))) ?_ ?_ h
  · intro members hlast
    obtain ⟨before, after, hmembers, hupdate⟩ := Syntax.find_last_split hlast
    refine ⟨_, _, opens_members (before.map Syntax.member_text) ?_,
      follows_members (after.map Syntax.member_text), ?_⟩
    · intro x hx
      obtain ⟨n, -, rfl⟩ := List.mem_map.mp hx
      exact (lexical_key n.1).append (lexical_text n.2)
    · intro change
      rw [Syntax.update, Syntax.text, hupdate, Syntax.member_texts_eq, List.map_append,
        List.map_cons, Syntax.intercalate_middle]
      simp [Syntax.member_text]
  · rintro before v after ⟨pre, post, hpre, ⟨spaces, c, rest, rfl, hspaces, hc⟩, htext⟩
    refine ⟨before.1 ++ pre, spaces ++ c :: (rest ++ after.1), ⟨?_, ?_⟩,
      ⟨spaces, c, _, rfl, hspaces, hc⟩, ?_⟩
    · exact (lexical_spaces before.2).append hpre.lexical
    · rcases hpre.begins with hmarks | ⟨X, hX, rfl⟩
      · exact .inl (List.forall_mem_append.mpr ⟨space_ne_quote before.2, hmarks⟩)
      · exact .inr ⟨before.1 ++ X, (lexical_spaces before.2).append hX, by simp⟩
    · intro change
      rw [Syntax.update, Syntax.text, htext]
      simp

end Members

/-! ## The password of a login -/

/-- `payload.password`, if it is a string: the key and the value as they are written. -/
def password_literal (d : Syntax) : Option (Literal × Literal) := do
  let payload ← d.field "payload"
  let password ← payload.2.field "password"
  let literal ← password.2.literal
  return (password.1.name, literal)

/-- The same text with another password. -/
def with_password (l : Literal) (d : Syntax) : Syntax :=
  d.update "payload" fun payload => payload.update "password" fun password =>
    password.with_literal l

section Password

variable {d : Syntax} {name l : Literal}

/-- What is around the password in the text. -/
structure Around (d : Syntax) (name l : Literal) (pre spaces gap post : List Char) : Prop where
  copies : Copies pre
  spaces_ok : ∀ c ∈ spaces, is_space c = true
  gap_ok : ∀ c ∈ gap, is_space c = true
  follows : Follows post
  text : ∀ l', (with_password l' d).text
    = pre ++ (name.text ++ (spaces ++ ':' :: (gap ++ (l'.text ++ post))))
  self : with_password l d = d
  called : name.meaning = "password"

/-- **Around the password.** What stands in front of it is treated alike, whatever it is. -/
theorem around_password (h : password_literal d = some (name, l)) :
    ∃ pre spaces gap post, Around d name l pre spaces gap post := by
  obtain ⟨payload, hpayload, h⟩ := Option.bind_eq_some_iff.mp h
  obtain ⟨password, hpassword, h⟩ := Option.bind_eq_some_iff.mp h
  obtain ⟨literal, hliteral, h⟩ := Option.bind_eq_some_iff.mp h
  obtain ⟨rfl, rfl⟩ := Prod.mk.inj (Option.some.inj h)
  obtain ⟨pre, post, hpre, -, htext⟩ := text_update hpayload
  obtain ⟨pre', post', hpre', ⟨spaces', c, rest, rfl, hspaces', hc⟩, htext'⟩ :=
    text_update hpassword
  obtain ⟨before, after, hwith⟩ := Syntax.text_with_literal hliteral
  have hpayload_name := Literal.toList_of_meaning (Syntax.field_called hpayload)
  have hspaces := copies_marks (space_ne_quote password.1.before.2)
  refine ⟨pre ++ payload.1.text ++ pre' ++ password.1.before.1, password.1.after.1, before.1,
    after.1 ++ (spaces' ++ c :: rest ++ post), ?_, password.1.after.2, before.2, ?_, ?_, ?_,
    Syntax.field_called hpassword⟩
  · rcases hpre'.begins with hmarks | ⟨X, hX, rfl⟩
    · -- the first member of the payload
      have hkey : Copies payload.1.text := by
        refine copies_key ?_ ?_
        · rw [hpayload_name]
          decide
        · rw [hpayload_name]
          decide
      exact ((hpre.copies.append hkey).append (copies_marks hmarks)).append hspaces
    · have hcomma := copies_comma ((hpre.lexical.append (lexical_key payload.1)).append hX)
      rw [List.append_assoc] at hcomma
      exact hcomma.append hspaces
  · refine ⟨after.1 ++ spaces', c, rest ++ post, by simp, ?_, hc⟩
    exact List.forall_mem_append.mpr ⟨after.2, hspaces'⟩
  · intro l'
    rw [with_password, htext, htext', hwith]
    simp [Key.text]
  · refine Syntax.update_self hpayload ?_
    exact Syntax.update_self hpassword (Syntax.with_literal_self hliteral)

/-- **The key as it is written** decides whether the password is copied. -/
theorem redacted_password {pre spaces gap post : List Char}
    (h : Around d name l pre spaces gap post) :
    (name.text = kKey → ∀ l', redacted (with_password l' d).text = redacted d.text) ∧
    (name.text ≠ kKey → ∀ l', redacted (with_password l' d).text = redacted d.text →
      l'.text = l.text) := by
  obtain ⟨out, hout⟩ := h.copies
  have hself : d.text = pre ++ (name.text ++ (spaces ++ ':' :: (gap ++ (l.text ++ post)))) := by
    rw [← h.text l, h.self]
  constructor
  · intro hkey l'
    rw [hself, h.text l', hout, hout, hkey, redact_value h.spaces_ok h.gap_ok,
      redact_value h.spaces_ok h.gap_ok]
  · intro hkey l' hsame
    have hquote : '"' ∉ name.map Glyph.meaning := by
      rw [Literal.toList_of_meaning h.called]
      decide
    have hcopied : ∀ l'' : Literal,
        redacted (pre ++ (name.text ++ (spaces ++ ':' :: (gap ++ (l''.text ++ post)))))
          = out ++ (name.text ++ (spaces ++ ':' :: (gap ++ (l''.text ++ redacted post)))) := by
      intro l''
      have hmarks : ∀ c ∈ spaces ++ ':' :: gap, c ≠ '"' := by
        refine List.forall_mem_append.mpr ⟨space_ne_quote h.spaces_ok, ?_⟩
        exact List.forall_mem_cons.mpr ⟨by decide, space_ne_quote h.gap_ok⟩
      have hapart : (spaces ++ ':' :: (gap ++ (l''.text ++ post))).head? ≠ some 'p' := by
        cases hcase : spaces with
        | nil => simp
        | cons c cs =>
            intro hp
            obtain rfl := Option.some.inj hp
            exact absurd (h.spaces_ok 'p' (by rw [hcase]; exact List.mem_cons_self)) (by decide)
      rw [hout, copy_name hapart hquote hkey, ← List.cons_append, ← List.append_assoc spaces,
        copy_marks hmarks, copy_value h.follows]
      simp
    rw [hself, h.text l', hcopied, hcopied] at hsame
    simpa using hsame

/-- A login has the password in its payload. -/
theorem password_of_login {cast : Numeral → Int} {parse : String → Option Json}
    {username password : String}
    (hparse : parse (String.ofList d.text) = some (d.meaning cast))
    (hlogin : decode_client_message parse (String.ofList d.text)
      = some (.Login username password)) :
    ∃ name l, password_literal d = some (name, l) ∧ l.meaning = password := by
  unfold decode_client_message parse_envelope at hlogin
  rw [hparse] at hlogin
  obtain ⟨j, hj, hmessage⟩ := Option.bind_eq_some_iff.mp hlogin
  split_ifs at hj
  obtain rfl := Option.some.inj hj
  unfold ClientMessage.from_json at hmessage
  obtain ⟨type, -, hmessage⟩ := Option.bind_eq_some_iff.mp hmessage
  obtain ⟨payload, hpayload, hmessage⟩ := Option.bind_eq_some_iff.mp hmessage
  have hget : payload.get_at "password" get_string = some password := by
    split_ifs at hmessage
    · obtain ⟨_, -, hmessage⟩ := Option.bind_eq_some_iff.mp hmessage
      obtain ⟨found, hfound, hmessage⟩ := Option.bind_eq_some_iff.mp hmessage
      obtain ⟨-, rfl⟩ := ClientMessage.Login.inj (Option.some.inj hmessage)
      exact hfound
    all_goals simp [Option.bind_eq_some_iff] at hmessage
  rw [Syntax.at_meaning] at hpayload
  obtain ⟨m, hm, rfl⟩ := Option.map_eq_some_iff.mp hpayload
  obtain ⟨value, hvalue, hstring⟩ := Option.bind_eq_some_iff.mp hget
  rw [Syntax.at_meaning] at hvalue
  obtain ⟨m', hm', rfl⟩ := Option.map_eq_some_iff.mp hvalue
  have hmeaning : m'.2.meaning cast = .string password := by
    cases hcase : m'.2.meaning cast with
    | string s =>
        rw [hcase] at hstring
        rw [Option.some.inj hstring]
    | _ =>
        rw [hcase] at hstring
        cases hstring
  obtain ⟨l, hl, hpassword⟩ := Syntax.literal_of_meaning cast m'.2 hmeaning
  refine ⟨m'.1.name, l, ?_, hpassword⟩
  simp [password_literal, hm, hm', hl]

/-- Two literals are written differently. -/
theorem other_literal (l : Literal) : ∃ l' : Literal, l'.text ≠ l.text := by
  by_cases hempty : l.text = Literal.text []
  · refine ⟨[.plain 'x' (by decide)], ?_⟩
    rw [hempty]
    decide
  · exact ⟨[], Ne.symm hempty⟩

/-- **When the password is kept out of the log.** The scan ends on every text. For a text that
is decoded as a login, every other literal in the place of the password leaves the log line as
it is exactly when the key of the password is written with the letters that the scan looks
for. The parser is assumed to read a JSON text as it is written, the last one of each key. -/
theorem password_redacted_iff {cast : Numeral → Int} {parse : String → Option Json}
    {username password : String}
    (hparse : parse (String.ofList d.text) = some (d.meaning cast))
    (hlogin : decode_client_message parse (String.ofList d.text)
      = some (.Login username password)) :
    (∀ text, ∃ line, redact_for_log text = some line) ∧
    ∃ name l, password_literal d = some (name, l) ∧ l.meaning = password ∧
      ((∀ l', redact_for_log (String.ofList (with_password l' d).text)
          = redact_for_log (String.ofList d.text)) ↔ name.text = kKey) := by
  refine ⟨fun text => ⟨_, redact_for_log_eq text⟩, ?_⟩
  obtain ⟨name, l, hliteral, hpassword⟩ := password_of_login hparse hlogin
  obtain ⟨pre, spaces, gap, post, haround⟩ := around_password hliteral
  obtain ⟨hleft_out, hcopied⟩ := redacted_password haround
  have hline : ∀ cs : List Char,
      redact_for_log (String.ofList cs) = some (String.ofList (redacted cs)) := by
    intro cs
    rw [redact_for_log_eq, String.toList_ofList]
  refine ⟨name, l, hliteral, hpassword, ?_, ?_⟩
  · intro hsame
    by_contra hkey
    obtain ⟨l', hne⟩ := other_literal l
    have hlines := hsame l'
    rw [hline, hline] at hlines
    exact hne (hcopied hkey l' (String.ofList_injective (Option.some.inj hlines)))
  · intro hkey l'
    rw [hline, hline, hleft_out hkey l']

/-- A literal without escapes. -/
def literal_of (s : String)
    (h : (s.toList.all fun c => c ≠ '"' ∧ c ≠ '\\' ∧ 32 ≤ c.toNat) = true := by decide +kernel) :
    Literal :=
  s.toList.pmap Glyph.plain (forall_char h)

def key_of (name : Literal) : Key := ⟨⟨[], by simp⟩, name, ⟨[], by simp⟩⟩

/-- A login of alice, whose password has the key `name`. -/
def login_under (name : Literal) : Syntax :=
  .object [
    (key_of (literal_of "type"), .string (literal_of "Login")),
    (key_of (literal_of "payload"), .object [
      (key_of (literal_of "username"), .string (literal_of "alice")),
      (key_of name, .string (literal_of "hunter2"))])]

/-- The key with its `o` written as an escape. -/
def escaped_key : Literal :=
  literal_of "passw" ++
    [.unicode ⟨"006f".toList, rfl, forall_char (by decide +kernel)⟩ (by decide +kernel)] ++
    literal_of "rd"

/-- A parser for one text. -/
def parse_only (d : Syntax) (text : String) : Option Json :=
  if text = String.ofList d.text then some (d.meaning fun _ => 0) else none

theorem plain_key_is_redacted : ∃ d : Syntax,
    decode_client_message (parse_only d) (String.ofList d.text)
      = some (.Login "alice" "hunter2") ∧
    ∀ l', redact_for_log (String.ofList (with_password l' d).text)
      = redact_for_log (String.ofList d.text) := by
  have hlogin : decode_client_message (parse_only (login_under (literal_of "password")))
      (String.ofList (login_under (literal_of "password")).text)
        = some (.Login "alice" "hunter2") := by
    decide +kernel
  obtain ⟨-, name, l, hliteral, -, hiff⟩ := password_redacted_iff (if_pos rfl) hlogin
  obtain ⟨rfl, -⟩ := Prod.mk.inj (Option.some.inj hliteral)
  exact ⟨_, hlogin, hiff.mpr (by decide)⟩

/-- **An escaped key is logged with its password.** -/
theorem escaped_key_is_logged : ∃ d : Syntax,
    decode_client_message (parse_only d) (String.ofList d.text)
      = some (.Login "alice" "hunter2") ∧
    redact_for_log (String.ofList d.text) = some (String.ofList d.text) ∧
    ∃ l', redact_for_log (String.ofList (with_password l' d).text)
      ≠ redact_for_log (String.ofList d.text) := by
  refine ⟨login_under escaped_key, by decide +kernel, by decide +kernel, [], ?_⟩
  decide +kernel

end Password

end KungFuChess
