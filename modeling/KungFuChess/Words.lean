/-
Words and lines of a text, over any alphabet.

The words of a text are what stands between its separators, where several separators
in a row are as good as one. `Separated` says so as a grammar, without splitting
anything, and `words_eq_iff` that the words are those of the grammar. The lines of a
text are ended, not separated, by their terminator.

Two round trips: words put together with one separator between any two
(`words_intercalate`), and lines with a terminator behind each
(`lines_of_terminated`).
-/
import Mathlib.Data.List.Basic

set_option autoImplicit false

namespace Words

variable {α : Type*}

/-! ## Words -/

/-- What stands between separators, the empty ones left out. -/
def words [DecidableEq α] (p : α → Bool) (text : List α) : List (List α) :=
  (text.splitOnP p).filter (· ≠ [])

/-- No letter is a separator. -/
def Solid (p : α → Bool) (word : List α) : Prop := word ≠ [] ∧ ∀ c ∈ word, p c = false

/-- A text and its words, from the left. -/
inductive Separated (p : α → Bool) : List α → List (List α) → Prop
  | nil : Separated p [] []
  | blank {c : α} {text : List α} {ws : List (List α)} (hc : p c = true)
      (hrest : Separated p text ws) : Separated p (c :: text) ws
  | last {word : List α} (hword : Solid p word) : Separated p word [word]
  | word {word : List α} {c : α} {text : List α} {ws : List (List α)} (hword : Solid p word)
      (hc : p c = true) (hrest : Separated p text ws) :
      Separated p (word ++ c :: text) (word :: ws)

variable {p : α → Bool} {c : α} {text word : List α} {ws : List (List α)}

/-- A text goes up to its first separator, or has none. -/
theorem first_separator (p : α → Bool) (text : List α) :
    (∀ c ∈ text, p c = false) ∨ ∃ word c rest, text = word ++ c :: rest ∧
      (∀ d ∈ word, p d = false) ∧ p c = true := by
  induction text with
  | nil => exact .inl fun c hc => absurd hc List.not_mem_nil
  | cons d text ih =>
      cases hd : p d with
      | true => exact .inr ⟨[], d, text, rfl, fun c hc => absurd hc List.not_mem_nil, hd⟩
      | false =>
          rcases ih with hnone | ⟨word, c, rest, rfl, hword, hc⟩
          · exact .inl (List.forall_mem_cons.mpr ⟨hd, hnone⟩)
          · exact .inr ⟨d :: word, c, rest, rfl, List.forall_mem_cons.mpr ⟨hd, hword⟩, hc⟩

variable [DecidableEq α]

theorem words_nil (p : α → Bool) : words p [] = [] := by
  unfold words
  rw [List.splitOnP_nil, List.filter_cons_of_neg (by simp), List.filter_nil]

theorem words_blank (hc : p c = true) (text : List α) : words p (c :: text) = words p text := by
  have hnil : ∀ d ∈ ([] : List α), p d = false := fun d hd => absurd hd List.not_mem_nil
  have hsplit := List.splitOnP_append_cons_of_forall_mem hnil c hc text
  rw [List.nil_append] at hsplit
  unfold words
  rw [hsplit, List.filter_cons_of_neg (by simp)]

theorem words_last (hword : Solid p word) : words p word = [word] := by
  unfold words
  rw [List.splitOnP_eq_singleton hword.2, List.filter_cons_of_pos (by simpa using hword.1),
    List.filter_nil]

theorem words_word (hword : Solid p word) (hc : p c = true) (text : List α) :
    words p (word ++ c :: text) = word :: words p text := by
  unfold words
  rw [List.splitOnP_append_cons_of_forall_mem hword.2 c hc,
    List.filter_cons_of_pos (by simpa using hword.1)]

theorem separated_words (text : List α) : Separated p text (words p text) := by
  -- induction on the length: what follows the first separator is shorter
  induction hlength : text.length using Nat.strongRecOn generalizing text with
  | ind n ih =>
      rcases first_separator p text with hnone | ⟨word, c, rest, rfl, hword, hc⟩
      · by_cases hempty : text = []
        · rw [hempty, words_nil]
          exact .nil
        · rw [words_last ⟨hempty, hnone⟩]
          exact .last ⟨hempty, hnone⟩
      · have hshorter : rest.length < n := by
          rw [← hlength, List.length_append, List.length_cons]
          omega
        have hrest := ih rest.length hshorter rest rfl
        by_cases hempty : word = []
        · rw [hempty, List.nil_append, words_blank hc]
          exact .blank hc hrest
        · rw [words_word ⟨hempty, hword⟩ hc]
          exact .word ⟨hempty, hword⟩ hc hrest

/-- **The words of a text are those of the grammar.** -/
theorem words_eq_iff : words p text = ws ↔ Separated p text ws := by
  constructor
  · rintro rfl
    exact separated_words text
  · intro h
    induction h with
    | nil => exact words_nil p
    | blank hc _ ih => rw [words_blank hc, ih]
    | last hword => exact words_last hword
    | word hword hc _ ih => rw [words_word hword hc, ih]

/-- **Words put together again.** -/
theorem words_intercalate {sep : α} (hsep : p sep = true) (hws : ∀ w ∈ ws, Solid p w) :
    words p ([sep].intercalate ws) = ws := by
  induction ws with
  | nil => exact words_nil p
  | cons w ws ih =>
      obtain ⟨hw, hrest⟩ := List.forall_mem_cons.mp hws
      cases ws with
      | nil =>
          rw [List.intercalate_singleton]
          exact words_last hw
      | cons w' ws =>
          rw [List.intercalate_cons_cons, List.append_assoc, List.singleton_append,
            words_word hw hsep, ih hrest]

omit [DecidableEq α] in
theorem mem_intercalate {sep : α} (h : c ∈ [sep].intercalate ws) : c = sep ∨ ∃ w ∈ ws, c ∈ w := by
  induction ws with
  | nil => exact absurd h List.not_mem_nil
  | cons w ws ih =>
      cases ws with
      | nil =>
          rw [List.intercalate_singleton] at h
          exact .inr ⟨w, List.mem_singleton_self w, h⟩
      | cons w' ws =>
          rw [List.intercalate_cons_cons, List.append_assoc, List.singleton_append,
            List.mem_append, List.mem_cons] at h
          rcases h with hw | rfl | hrest
          · exact .inr ⟨w, List.mem_cons_self, hw⟩
          · exact .inl rfl
          · refine (ih hrest).imp id ?_
            rintro ⟨v, hv, hc⟩
            exact ⟨v, List.mem_cons_of_mem _ hv, hc⟩

/-! ## Lines -/

/-- The lines up to each terminator, and what is behind the last one unless it is empty. -/
def lines (terminator : α) (text : List α) : List (List α) :=
  let pieces := text.splitOn terminator
  if pieces.getLast? = some [] then pieces.dropLast else pieces

/-- **Lines put together again.** -/
theorem lines_of_terminated {terminator : α} {ls : List (List α)}
    (hls : ∀ line ∈ ls, terminator ∉ line) :
    lines terminator (ls.flatMap (· ++ [terminator])) = ls := by
  have hpieces : (ls.flatMap (· ++ [terminator])).splitOn terminator = ls ++ [[]] := by
    induction ls with
    | nil => exact List.splitOn_nil terminator
    | cons line ls ih =>
        obtain ⟨hline, hrest⟩ := List.forall_mem_cons.mp hls
        rw [List.flatMap_cons, List.append_assoc, List.singleton_append,
          List.splitOn_append_cons_self_of_not_mem hline, ih hrest, List.cons_append]
  unfold lines
  dsimp only
  rw [hpieces, List.getLast?_concat, if_pos rfl, List.dropLast_concat]

end Words
