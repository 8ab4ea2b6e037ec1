/-
Items in a row of bins.

A map says which bin an item is in. The bins and the map are kept in step
(`Sound`): each bin holds the items that the map puts there, and each of them once.
-/
import Mathlib.Algebra.GroupWithZero.Nat
import Mathlib.Data.List.Nodup
import Mathlib.Logic.Function.Basic

set_option autoImplicit false

namespace Placement

variable {α : Type*}

/-- The bins hold what the map says, each item once. -/
structure Sound (bins : List (List α)) (owner : α → Option Nat) : Prop where
  nodup : ∀ bin ∈ bins, bin.Nodup
  held : ∀ {i bin}, bins[i]? = some bin → ∀ a, a ∈ bin ↔ owner a = some i
  inside : ∀ {a i}, owner a = some i → i < bins.length

variable {bins : List (List α)} {owner : α → Option Nat} {a : α} {i : Nat}

theorem Sound.empty (n : Nat) : Sound (α := α) (List.replicate n []) fun _ => none where
  nodup := by
    intro bin hbin
    rw [List.eq_of_mem_replicate hbin]
    exact List.nodup_nil
  held := by
    intro i bin hbin a
    rw [List.eq_of_mem_replicate (List.mem_of_getElem? hbin)]
    exact iff_of_false List.not_mem_nil (Option.some_ne_none i).symm
  inside := by
    intro a i howner
    cases howner

/-- An item that is placed is in one bin, once, and in no other. -/
theorem Sound.placed [BEq α] [LawfulBEq α] (h : Sound bins owner) (howner : owner a = some i) :
    ∃ bin, bins[i]? = some bin ∧ bin.count a = 1 ∧
      ∀ {j other}, bins[j]? = some other → a ∈ other → j = i := by
  have hi : i < bins.length := h.inside howner
  have hbin : bins[i]? = some bins[i] := List.getElem?_eq_getElem hi
  refine ⟨bins[i], hbin, ?_, ?_⟩
  · exact List.count_eq_one_of_mem (h.nodup _ (List.mem_of_getElem? hbin))
      ((h.held hbin a).mpr howner)
  · intro j other hother hmem
    have hthere := (h.held hother a).mp hmem
    exact Option.some.inj (hthere.symm.trans howner)

/-- An item that is not placed is in no bin. -/
theorem Sound.nowhere (h : Sound bins owner) (howner : owner a = none) :
    ∀ bin ∈ bins, a ∉ bin := by
  intro bin hbin hmem
  obtain ⟨i, hi, rfl⟩ := List.getElem_of_mem hbin
  have hthere := (h.held (List.getElem?_eq_getElem hi) a).mp hmem
  rw [howner] at hthere
  cases hthere

/-- No item is in two bins. -/
theorem Sound.disjoint (h : Sound bins owner) : bins.Pairwise List.Disjoint := by
  rw [List.pairwise_iff_getElem]
  intro i j hi hj hlt a hai haj
  have hone := (h.held (List.getElem?_eq_getElem hi) a).mp hai
  have hother := (h.held (List.getElem?_eq_getElem hj) a).mp haj
  exact Nat.ne_of_lt hlt (Option.some.inj (hone.symm.trans hother))

/-- The bins hold as many items as are placed. -/
theorem Sound.size (h : Sound bins owner) {placed : List α} (hnodup : placed.Nodup)
    (hplaced : ∀ a, a ∈ placed ↔ ∃ i, owner a = some i) :
    (bins.map List.length).sum = placed.length := by
  have hflat : bins.flatten.Nodup := List.nodup_flatten.mpr ⟨h.nodup, h.disjoint⟩
  rw [← List.length_flatten]
  refine List.Perm.length_eq ((List.perm_ext_iff_of_nodup hflat hnodup).mpr fun a => ?_)
  rw [hplaced, List.mem_flatten]
  constructor
  · rintro ⟨bin, hbin, hmem⟩
    obtain ⟨i, hi, rfl⟩ := List.getElem_of_mem hbin
    exact ⟨i, (h.held (List.getElem?_eq_getElem hi) a).mp hmem⟩
  · rintro ⟨i, howner⟩
    -- the bin that the map names is one of the row
    have hbin := List.getElem?_eq_getElem (h.inside howner)
    exact ⟨_, List.mem_of_getElem? hbin, (h.held hbin a).mpr howner⟩

/-- A bin of a row in which one bin was changed. -/
theorem getElem?_modify_cases {f : List α → List α} {j : Nat} {bin : List α}
    (h : (bins.modify i f)[j]? = some bin) :
    (j = i ∧ ∃ old, bins[i]? = some old ∧ bin = f old) ∨ (j ≠ i ∧ bins[j]? = some bin) := by
  by_cases hji : j = i
  · subst hji
    rw [List.getElem?_modify_eq, Option.map_eq_map, Option.map_eq_some_iff] at h
    obtain ⟨old, hold, rfl⟩ := h
    exact .inl ⟨rfl, old, hold, rfl⟩
  · rw [List.getElem?_modify_ne f bins (Ne.symm hji)] at h
    exact .inr ⟨hji, h⟩

variable [DecidableEq α]

/-- A new item is put into a bin. -/
theorem Sound.place (h : Sound bins owner) (hnew : owner a = none) (hi : i < bins.length) :
    Sound (bins.modify i (· ++ [a])) (Function.update owner a (some i)) where
  nodup := by
    intro bin hbin
    obtain ⟨j, hj, rfl⟩ := List.getElem_of_mem hbin
    rcases getElem?_modify_cases (List.getElem?_eq_getElem hj) with
      ⟨-, old, hold, hbin⟩ | ⟨-, hsame⟩
    · -- what is new in the bin was in none
      rw [hbin]
      have hold := List.mem_of_getElem? hold
      rw [← List.concat_eq_append]
      exact (h.nodup old hold).concat (h.nowhere hnew old hold)
    · exact h.nodup _ (List.mem_of_getElem? hsame)
  held := by
    intro j bin hbin b
    rcases getElem?_modify_cases hbin with ⟨rfl, old, hold, rfl⟩ | ⟨hji, hsame⟩
    · rw [List.mem_append, List.mem_singleton]
      by_cases hba : b = a
      · subst hba
        rw [Function.update_self]
        exact iff_of_true (.inr rfl) rfl
      · rw [Function.update_of_ne hba, or_iff_left hba]
        exact h.held hold b
    · by_cases hba : b = a
      · subst hba
        rw [Function.update_self, h.held hsame b, hnew]
        exact iff_of_false (Option.some_ne_none j).symm fun heq => hji (Option.some.inj heq).symm
      · rw [Function.update_of_ne hba]
        exact h.held hsame b
  inside := by
    intro b j howner
    rw [List.length_modify]
    by_cases hba : b = a
    · rw [hba, Function.update_self] at howner
      exact Option.some.inj howner ▸ hi
    · rw [Function.update_of_ne hba] at howner
      exact h.inside howner

/-- An item is taken out of its bin. -/
theorem Sound.displace (h : Sound bins owner) (howner : owner a = some i) :
    Sound (bins.modify i (·.erase a)) (Function.update owner a none) where
  nodup := by
    intro bin hbin
    obtain ⟨j, hj, rfl⟩ := List.getElem_of_mem hbin
    rcases getElem?_modify_cases (List.getElem?_eq_getElem hj) with
      ⟨-, old, hold, hbin⟩ | ⟨-, hsame⟩
    · rw [hbin]
      exact (h.nodup old (List.mem_of_getElem? hold)).erase a
    · exact h.nodup _ (List.mem_of_getElem? hsame)
  held := by
    intro j bin hbin b
    rcases getElem?_modify_cases hbin with ⟨rfl, old, hold, rfl⟩ | ⟨hji, hsame⟩
    · -- the item was in its bin once, so erasing it takes it out
      rw [(h.nodup old (List.mem_of_getElem? hold)).mem_erase_iff]
      by_cases hba : b = a
      · subst hba
        rw [Function.update_self]
        exact iff_of_false (fun hmem => hmem.1 rfl) (Option.some_ne_none j).symm
      · rw [Function.update_of_ne hba, and_iff_right hba]
        exact h.held hold b
    · by_cases hba : b = a
      · subst hba
        rw [Function.update_self, h.held hsame b, howner]
        exact iff_of_false (fun heq => hji (Option.some.inj heq).symm) (Option.some_ne_none j).symm
      · rw [Function.update_of_ne hba]
        exact h.held hsame b
  inside := by
    intro b j hthere
    rw [List.length_modify]
    by_cases hba : b = a
    · rw [hba, Function.update_self] at hthere
      cases hthere
    · rw [Function.update_of_ne hba] at hthere
      exact h.inside hthere

/-! ## One element of a list -/

section Count

variable {β : Type*} {p : β → Bool} {l : List β} {x y : β} {j : Nat}

theorem eq_take_cons_drop (h : l[j]? = some x) : l = l.take j ++ x :: l.drop (j + 1) := by
  obtain ⟨hj, rfl⟩ := List.getElem?_eq_some_iff.mp h
  rw [List.getElem_cons_drop, List.take_append_drop]

theorem countP_set_add (h : l[j]? = some x) :
    (l.set j y).countP p + (if p x then 1 else 0) = l.countP p + if p y then 1 else 0 := by
  obtain ⟨hj, -⟩ := List.getElem?_eq_some_iff.mp h
  conv_rhs => rw [eq_take_cons_drop h]
  rw [List.set_eq_take_append_cons_drop, if_pos hj, List.countP_append, List.countP_append,
    List.countP_cons, List.countP_cons]
  omega

theorem countP_eraseIdx_add (h : l[j]? = some x) :
    (l.eraseIdx j).countP p + (if p x then 1 else 0) = l.countP p := by
  conv_rhs => rw [eq_take_cons_drop h]
  rw [List.eraseIdx_eq_take_drop_succ, List.countP_append, List.countP_append, List.countP_cons]
  omega

end Count

end Placement
