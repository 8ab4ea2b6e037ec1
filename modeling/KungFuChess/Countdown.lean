/-
**The countdown in the code's integers.**

`advance` casts what is left of a countdown to an `int`. The cast keeps every
value from the opening of a countdown to its deadline, and for the `2 ^ 31`
milliseconds behind it; from then on the value wraps around, and a deadline that
was missed by more looks like one that is still to come. So a watch that is
polled often enough counts down from the whole grace to its expiry
(`counts_down_iff`), and one that is left alone for too long comes back to life
(`missed_deadline`).

Everything else about the countdown needs no such condition: reports and
cancellations of any colour may come in any order, and the times of the advances
may jump by any amount.
-/
import KungFuChess.DisconnectWatch
import Mathlib.Data.List.Induction

set_option autoImplicit false

namespace KungFuChess

open Numbers

namespace DisconnectWatch

/-! ## Calls -/

/-- The four calls of a watch. -/
inductive Call
  | report_disconnect (color : PieceColor)
  | advance (now : Int)
  | cancel (color : PieceColor)
  | clear
deriving DecidableEq, Repr

def call (w : DisconnectWatch) : Call → DisconnectWatch
  | .report_disconnect color => w.report_disconnect color
  | .advance now => (w.advance now).1
  | .cancel color => (w.cancel color).1
  | .clear => w.clear

/-- The watch after some calls. -/
def after (w : DisconnectWatch) (calls : List Call) : DisconnectWatch := calls.foldl call w

/-- What the advances among some calls have to say. -/
def ticks : DisconnectWatch → List Call → List Tick
  | _, [] => []
  | w, .advance now :: calls => (w.advance now).2 :: ticks (w.advance now).1 calls
  | w, c :: calls => ticks (w.call c) calls

/-- The seconds they report. -/
def seconds (w : DisconnectWatch) (calls : List Call) : List Int :=
  (w.ticks calls).filterMap Tick.seconds_remaining

/-- The times of the advances among some calls. -/
def times (calls : List Call) : List Int :=
  calls.filterMap fun
    | .advance now => some now
    | _ => none

def new (grace_ms : Int) : DisconnectWatch := { grace_ms }

/-- The calls that end the countdown for a colour, whatever the time. -/
def Call.Ends (color : PieceColor) : Call → Prop
  | .cancel other => other = color
  | .clear => True
  | _ => False

/-- A countdown for `color` was opened at `opened`, after the calls `before`, and neither
ended nor overdue in the calls `during`. -/
structure Life (grace_ms : Int) (before : List Call) (opened : Int) (during : List Call)
    (color : PieceColor) : Prop where
  unwatched : ((new grace_ms).after before).watching = none
  pending : ((new grace_ms).after before).pending = some color
  unended : ∀ c ∈ during, ¬c.Ends color
  in_time : ∀ now ∈ times during, now < opened + grace_ms

/-- The seconds in which a grace is displayed, rounded up. -/
def ceil_seconds (ms : Int) : Int := (ms + 999) / 1000

/-- **The countdown counts down.** -/
structure CountsDown (grace_ms : Int) (calls : List Call) : Prop where
  /-- Frozen as long as a drop is pending or watched. -/
  frozen : ∀ before, before <+: calls →
    (((new grace_ms).after before).is_frozen = true ↔ ((new grace_ms).after before).active)
  /-- The seconds of a countdown start at the whole grace and fall, and it does not expire. -/
  counts : ∀ before opened during color, before ++ .advance opened :: during <+: calls →
    Life grace_ms before opened during color →
      (∀ tick ∈ ((new grace_ms).after before).ticks (.advance opened :: during),
        tick.expired_for = none) ∧
      (((new grace_ms).after before).seconds (.advance opened :: during)).head?
        = some (ceil_seconds grace_ms) ∧
      (((new grace_ms).after before).seconds (.advance opened :: during)).Pairwise (· > ·) ∧
      ∀ s ∈ ((new grace_ms).after before).seconds (.advance opened :: during),
        1 ≤ s ∧ s ≤ ceil_seconds grace_ms
  /-- The first advance at or past the deadline expires it, and nothing is left of it. -/
  expires : ∀ before opened during color now,
    before ++ .advance opened :: during ++ [.advance now] <+: calls →
    Life grace_ms before opened during color → opened + grace_ms ≤ now →
      (((new grace_ms).after (before ++ .advance opened :: during)).advance now).2
        = { expired_for := some color } ∧
      ¬((new grace_ms).after (before ++ .advance opened :: during ++ [.advance now])).active
  /-- What is said is said of a countdown that opens then, or was opened and has not ended. -/
  speaks : ∀ before now, before ++ [.advance now] <+: calls →
    (((new grace_ms).after before).advance now).2 ≠ {} →
      ∃ color, Life grace_ms before now [] color ∨
        ∃ earlier opened during, before = earlier ++ .advance opened :: during ∧
          Life grace_ms earlier opened during color

/-! ## One call -/

variable {w : DisconnectWatch} {color : PieceColor} {now last due grace_ms : Int}
  {c : Call} {calls before during : List Call}

theorem after_append (w : DisconnectWatch) (xs ys : List Call) :
    w.after (xs ++ ys) = (w.after xs).after ys :=
  List.foldl_append

/-- Where the sum does not wrap, the seconds are rounded up. -/
theorem seconds_left_eq {remaining_ms : Int} (hleft : 0 < remaining_ms)
    (hfits : remaining_ms ≤ 2147483648 - 1000) :
    seconds_left remaining_ms = ceil_seconds remaining_ms := by
  unfold seconds_left ceil_seconds
  rw [to_int_of_fits ⟨by omega, by omega⟩, Int.tdiv_eq_ediv_of_nonneg (by omega)]

/-- The grace is over. -/
theorem count_expires (h : to_int (w.deadline - now) ≤ 0) (color : PieceColor) :
    w.count now color
      = ({ w with watching := none, frozen := false }, { expired_for := some color }) := by
  unfold count
  dsimp only
  rw [if_pos h]

/-- The grace goes on, and the seconds are reported when they change. -/
theorem count_counts (h : 0 < to_int (w.deadline - now)) (color : PieceColor) :
    w.count now color
      = ({ w with last_reported_second := seconds_left (to_int (w.deadline - now)) },
        { seconds_remaining :=
            if seconds_left (to_int (w.deadline - now)) = w.last_reported_second then none
            else some (seconds_left (to_int (w.deadline - now))) }) := by
  unfold count
  dsimp only
  rw [if_neg (not_le_of_gt h)]
  by_cases hsame : seconds_left (to_int (w.deadline - now)) = w.last_reported_second
  · rw [if_pos hsame, hsame, if_pos rfl]
  · rw [if_neg hsame, if_neg hsame]

theorem open_countdown_opens (hw : w.watching = none) (hp : w.pending = some color) (now : Int) :
    w.open_countdown now = { w with
      watching := some color
      deadline := now + w.grace_ms
      last_reported_second := -1
      pending := none } := by
  unfold open_countdown
  rw [hw, hp]
  rfl

theorem open_countdown_keeps (hw : w.watching = some color) (now : Int) :
    w.open_countdown now = { w with pending := none } := by
  unfold open_countdown
  rw [hw]
  exact if_neg fun h => Bool.false_ne_true h.2

theorem advance_watching (hw : w.watching = some color) (now : Int) :
    w.advance now = { w with pending := none }.count now color := by
  unfold advance
  rw [open_countdown_keeps hw]
  simp only [hw]

theorem advance_opens (hw : w.watching = none) (hp : w.pending = some color) (now : Int)
    (hgrace : 0 < w.grace_ms) (hfits : w.grace_ms ≤ 2147483648 - 1000) :
    w.advance now = ({ w with
      watching := some color
      deadline := now + w.grace_ms
      last_reported_second := ceil_seconds w.grace_ms
      pending := none }, { seconds_remaining := some (ceil_seconds w.grace_ms) }) := by
  have hfirst : ceil_seconds w.grace_ms ≠ -1 := by
    unfold ceil_seconds
    omega
  have hleft : to_int (now + w.grace_ms - now) = w.grace_ms := by
    rw [add_sub_cancel_left]
    exact to_int_of_fits ⟨by omega, by omega⟩
  unfold advance
  rw [open_countdown_opens hw hp]
  dsimp only
  rw [count_counts (by dsimp only; omega)]
  dsimp only
  rw [hleft, seconds_left_eq hgrace hfits, if_neg hfirst]

theorem advance_idle (hw : w.watching = none) (hp : w.pending = none) (now : Int) :
    w.advance now = (w, {}) := by
  unfold advance open_countdown
  rw [hw, hp]
  obtain ⟨_, _, _, _, _, _⟩ := w
  cases hp
  cases hw
  rfl

theorem grace_count (w : DisconnectWatch) (now : Int) (color : PieceColor) :
    (w.count now color).1.grace_ms = w.grace_ms := by
  unfold count
  dsimp only
  split_ifs <;> rfl

theorem grace_call (w : DisconnectWatch) (c : Call) : (w.call c).grace_ms = w.grace_ms := by
  cases c with
  | report_disconnect color => rfl
  | clear => rfl
  | cancel color =>
      show (w.cancel color).1.grace_ms = _
      unfold cancel
      split_ifs <;> rfl
  | advance now =>
      have hopen : (w.open_countdown now).grace_ms = w.grace_ms := by
        unfold open_countdown
        split_ifs <;> rfl
      rw [← hopen]
      show (w.advance now).1.grace_ms = _
      unfold advance
      dsimp only
      split
      · rfl
      · exact grace_count _ _ _

theorem grace_after (w : DisconnectWatch) (calls : List Call) :
    (w.after calls).grace_ms = w.grace_ms := by
  induction calls generalizing w with
  | nil => rfl
  | cons c calls ih => exact (ih (w.call c)).trans (w.grace_call c)

/-! ## The flag -/

theorem mirrors_count (h : w.Mirrors) (hw : w.watching = some color)
    (hp : w.pending = none) (now : Int) : (w.count now color).1.Mirrors := by
  by_cases hleft : to_int (w.deadline - now) ≤ 0
  · rw [count_expires hleft]
    simp [Mirrors, active, hp]
  · rw [count_counts (lt_of_not_ge hleft)]
    simpa [Mirrors, active, hw] using h

theorem mirrors_call (h : w.Mirrors) (c : Call) : (w.call c).Mirrors := by
  cases c with
  | report_disconnect color => exact mirrors_report w color
  | clear => exact mirrors_clear w
  | cancel color =>
      show (w.cancel color).1.Mirrors
      unfold cancel
      split_ifs
      · exact mirrors_clear w
      · exact h
  | advance now =>
      show (w.advance now).1.Mirrors
      cases hw : w.watching with
      | some color =>
          rw [advance_watching hw]
          refine mirrors_count (w := { w with pending := none }) ?_ hw rfl _
          simpa [Mirrors, active, hw] using h
      | none =>
          cases hp : w.pending with
          | none =>
              rw [advance_idle hw hp]
              exact h
          | some color =>
              -- the countdown opens; the flag has been set since the drop was reported
              have hfrozen : w.frozen = true := h.mpr (.inl (by rw [hp]; rfl))
              unfold advance
              rw [open_countdown_opens hw hp]
              refine mirrors_count ?_ rfl rfl _
              simpa [Mirrors, active] using hfrozen

theorem mirrors_after (h : w.Mirrors) (calls : List Call) : (w.after calls).Mirrors := by
  induction calls generalizing w with
  | nil => exact h
  | cons c calls ih => exact ih (mirrors_call h c)

/-! ## A running countdown -/

/-- The countdown for `color` runs to `due`, and shows what was left at `last`. -/
structure Running (w : DisconnectWatch) (color : PieceColor) (due last : Int) : Prop where
  watching : w.watching = some color
  deadline : w.deadline = due
  shown : w.last_reported_second = ceil_seconds (due - last)

theorem Running.call (h : w.Running color due last) (hc : ¬c.Ends color)
    (htimes : times [c] = []) : (w.call c).Running color due last := by
  cases c with
  | report_disconnect other => exact ⟨h.watching, h.deadline, h.shown⟩
  | advance now => cases htimes
  | clear => exact absurd trivial hc
  | cancel other =>
      have hother : w.watching ≠ some other := by
        rw [h.watching]
        exact fun heq => hc (Option.some.inj heq).symm
      show (w.cancel other).1.Running color due last
      unfold cancel
      rw [if_neg hother]
      exact h

/-- An advance before the due. -/
theorem Running.advance (h : w.Running color due last) (hin : now < due)
    (hfits : due - now ≤ 2147483648 - 1000) :
    (w.advance now).1.Running color due now ∧
      (w.advance now).2
        = ⟨if ceil_seconds (due - now) = ceil_seconds (due - last) then none
            else some (ceil_seconds (due - now)), none⟩ := by
  have hleft : to_int (w.deadline - now) = due - now := by
    rw [h.deadline]
    exact to_int_of_fits ⟨by omega, by omega⟩
  rw [advance_watching h.watching, count_counts (by dsimp only; omega)]
  dsimp only
  rw [hleft, seconds_left_eq (by omega) hfits, ← h.shown]
  exact ⟨⟨h.watching, h.deadline, rfl⟩, rfl⟩

/-- An advance that sees the due missed. -/
theorem Running.expire (h : w.Running color due last)
    (hseen : (now - due) % 4294967296 ≤ 2147483648) :
    w.advance now = ({ w with pending := none, watching := none, frozen := false },
      { expired_for := some color }) := by
  have hmissed : to_int (w.deadline - now) ≤ 0 := by
    rw [h.deadline, to_int_nonpos_iff, neg_sub]
    exact hseen
  rw [advance_watching h.watching, count_expires (by dsimp only; exact hmissed)]

/-- An advance that does not. -/
theorem Running.not_expire (h : w.Running color due last)
    (hunseen : ¬(now - due) % 4294967296 ≤ 2147483648) :
    (w.advance now).2.expired_for = none := by
  have hleft : 0 < to_int (w.deadline - now) := by
    rw [h.deadline, ← not_le, to_int_nonpos_iff, neg_sub]
    exact hunseen
  rw [advance_watching h.watching, count_counts (by dsimp only; exact hleft)]

/-- What a running countdown has said after some calls that do not end it. -/
structure Counted (w : DisconnectWatch) (color : PieceColor) (due last : Int)
    (calls : List Call) : Prop where
  unexpired : ∀ tick ∈ w.ticks calls, tick.expired_for = none
  falls : (w.seconds calls).Pairwise (· > ·)
  bounds : ∀ s ∈ w.seconds calls, 1 ≤ s ∧ s < ceil_seconds (due - last)
  running : ∃ last', (w.after calls).Running color due last'

theorem seconds_cons (w : DisconnectWatch) (now : Int) (calls : List Call) :
    w.seconds (.advance now :: calls) = (w.advance now).2.seconds_remaining.toList
      ++ (w.advance now).1.seconds calls := by
  unfold seconds
  rw [ticks, List.filterMap_cons]
  cases (w.advance now).2.seconds_remaining <;> rfl

theorem ticks_cons (w : DisconnectWatch) (htimes : times [c] = []) (calls : List Call) :
    w.ticks (c :: calls) = (w.call c).ticks calls := by
  cases c with
  | advance now => cases htimes
  | report_disconnect color => rfl
  | cancel color => rfl
  | clear => rfl

theorem times_cons (c : Call) (calls : List Call) : times (c :: calls) = times [c] ++ times calls :=
  List.filterMap_append (l := [c])

/-- **The countdown counts down**, from what it showed at `last`. -/
theorem Running.counted (h : w.Running color due last)
    (hfits : due - last ≤ 2147483648 - 1000) (hsorted : (last :: times during).Pairwise (· ≤ ·))
    (hunended : ∀ c ∈ during, ¬c.Ends color) (hin : ∀ now ∈ times during, now < due) :
    w.Counted color due last during := by
  induction during generalizing w last with
  | nil =>
      have hnone : ∀ s ∈ w.seconds [], 1 ≤ s ∧ s < ceil_seconds (due - last) := by
        intro s hs
        cases hs
      exact ⟨fun tick htick => absurd htick List.not_mem_nil, List.Pairwise.nil, hnone, last, h⟩
  | cons c during ih =>
      obtain ⟨hc, hrest⟩ := List.forall_mem_cons.mp hunended
      rw [times_cons] at hsorted hin
      by_cases htimes : times [c] = []
      · rw [htimes, List.nil_append] at hsorted hin
        obtain ⟨hunexpired, hfalls, hbounds, hrunning⟩ :=
          ih (h.call hc htimes) hfits hsorted hrest hin
        have hsame := w.ticks_cons htimes during
        refine ⟨?_, ?_, ?_, hrunning⟩
        · rw [hsame]
          exact hunexpired
        · rw [seconds, hsame]
          exact hfalls
        · rw [seconds, hsame]
          exact hbounds
      · -- a call with a time is an advance
        obtain ⟨now, rfl⟩ : ∃ now, c = .advance now := by
          cases c with
          | advance now => exact ⟨now, rfl⟩
          | report_disconnect color => exact absurd rfl htimes
          | cancel color => exact absurd rfl htimes
          | clear => exact absurd rfl htimes
        have hle : last ≤ now := List.rel_of_pairwise_cons hsorted List.mem_cons_self
        have hnow : now < due := hin now List.mem_cons_self
        obtain ⟨hnext, htick⟩ := h.advance hnow (by omega)
        obtain ⟨hunexpired, hfalls, hbounds, hrunning⟩ := ih hnext (by omega)
          (List.Pairwise.of_cons hsorted) hrest
          fun t ht => hin t (List.mem_cons_of_mem _ ht)
        -- what was shown at `last` bounds what is shown now, which bounds what follows
        have hshown : 1 ≤ ceil_seconds (due - now) ∧
            ceil_seconds (due - now) ≤ ceil_seconds (due - last) := by
          unfold ceil_seconds
          omega
        refine ⟨?_, ?_, ?_, hrunning⟩
        · rw [ticks, htick]
          exact List.forall_mem_cons.mpr ⟨rfl, hunexpired⟩
        · rw [seconds_cons, htick]
          dsimp only
          split_ifs with hsame
          · exact hfalls
          · exact List.pairwise_cons.mpr ⟨fun s hs => (hbounds s hs).2, hfalls⟩
        · rw [seconds_cons, htick]
          dsimp only
          intro s hs
          split_ifs at hs with hsame
          · have := hbounds s hs
            omega
          · rcases List.mem_cons.mp hs with rfl | hs
            · omega
            · have := hbounds s hs
              omega

/-! ## Whole runs -/

/-- When an advance finds the deadline of the countdown behind it, its distance is in the
half of the integers that looks behind. -/
def Noticed (w : DisconnectWatch) : Call → Prop
  | .advance now => w.watching.isSome → w.deadline ≤ now →
      (now - w.deadline) % 4294967296 ≤ 2147483648
  | _ => True

/-- So it is at every advance of a run. -/
def AllNoticed : DisconnectWatch → List Call → Prop
  | _, [] => True
  | w, c :: calls => w.Noticed c ∧ AllNoticed (w.call c) calls

instance (w : DisconnectWatch) : ∀ c, Decidable (w.Noticed c)
  | .advance _ => inferInstanceAs (Decidable (_ → _ → _))
  | .report_disconnect _ => inferInstanceAs (Decidable True)
  | .cancel _ => inferInstanceAs (Decidable True)
  | .clear => inferInstanceAs (Decidable True)

instance AllNoticed.decidable : ∀ (w : DisconnectWatch) calls, Decidable (w.AllNoticed calls)
  | _, [] => inferInstanceAs (Decidable True)
  | w, c :: calls =>
      have := AllNoticed.decidable (w.call c) calls
      inferInstanceAs (Decidable (w.Noticed c ∧ AllNoticed (w.call c) calls))

theorem all_noticed_append (w : DisconnectWatch) (xs ys : List Call) :
    w.AllNoticed (xs ++ ys) ↔ w.AllNoticed xs ∧ (w.after xs).AllNoticed ys := by
  induction xs generalizing w with
  | nil => exact (true_and _).symm.to_iff
  | cons c xs ih =>
      rw [List.cons_append, AllNoticed, AllNoticed, ih, and_assoc]
      rfl

theorem all_noticed_concat (w : DisconnectWatch) (calls : List Call) (c : Call) :
    w.AllNoticed (calls ++ [c]) ↔ w.AllNoticed calls ∧ (w.after calls).Noticed c := by
  rw [all_noticed_append, AllNoticed, AllNoticed, and_true]

theorem after_concat (w : DisconnectWatch) (calls : List Call) (c : Call) :
    w.after (calls ++ [c]) = (w.after calls).call c :=
  w.after_append calls [c]

theorem times_append (xs ys : List Call) : times (xs ++ ys) = times xs ++ times ys :=
  List.filterMap_append

/-- The times of some calls of a run do not decrease. -/
theorem sorted_middle {xs ys : List Call} (hsorted : (times calls).Pairwise (· ≤ ·))
    (h : xs ++ ys <+: calls) : (times ys).Pairwise (· ≤ ·) := by
  have hall : (times (xs ++ ys)).Pairwise (· ≤ ·) := hsorted.sublist (h.sublist.filterMap _)
  rw [times_append] at hall
  exact (List.pairwise_append.mp hall).2.1

variable {opened : Int}

/-- A countdown that opened runs on as long as nothing ends it. -/
theorem Life.counted (h : Life grace_ms before opened during color) (hgrace : 0 < grace_ms)
    (hfits : grace_ms ≤ 2147483648 - 1000)
    (hsorted : (times (.advance opened :: during)).Pairwise (· ≤ ·)) :
    (((new grace_ms).after before).advance opened).2 = ⟨some (ceil_seconds grace_ms), none⟩ ∧
      (((new grace_ms).after before).advance opened).1.Counted color (opened + grace_ms)
        opened during := by
  have hsame : ((new grace_ms).after before).grace_ms = grace_ms := grace_after _ _
  have hopens := advance_opens h.unwatched h.pending opened (by rwa [hsame]) (by rwa [hsame])
  rw [hopens, hsame]
  refine ⟨rfl, Running.counted ⟨rfl, rfl, ?_⟩ (by omega) hsorted h.unended h.in_time⟩
  rw [add_sub_cancel_left]

/-- A drop that is pending opens its countdown with the next advance. -/
theorem Life.of_opening (hwatching : ((new grace_ms).after before).watching = none)
    (hpending : ((new grace_ms).after before).pending = some color) (opened : Int) :
    Life grace_ms before opened [] color :=
  ⟨hwatching, hpending, fun _ hc => absurd hc List.not_mem_nil,
    fun _ ht => absurd ht List.not_mem_nil⟩

/-- **A countdown that nobody ends runs**, with its own deadline. -/
theorem Life.running (h : Life grace_ms before opened during color) (hgrace : 0 < grace_ms)
    (hfits : grace_ms ≤ 2147483648 - 1000)
    (hsorted : (times (.advance opened :: during)).Pairwise (· ≤ ·)) :
    ∃ last, ((new grace_ms).after (before ++ .advance opened :: during)).Running color
      (opened + grace_ms) last := by
  obtain ⟨last, hrunning⟩ := (h.counted hgrace hfits hsorted).2.running
  refine ⟨last, ?_⟩
  rw [after_append]
  exact hrunning

/-- One more call that does not end it. -/
theorem Life.extend (h : Life grace_ms before opened during color) (hc : ¬c.Ends color)
    (hin : ∀ now ∈ times [c], now < opened + grace_ms) :
    Life grace_ms before opened (during ++ [c]) color := by
  refine ⟨h.unwatched, h.pending, fun d hd => ?_, fun now hnow => ?_⟩
  · rcases List.mem_append.mp hd with hd | hd
    · exact h.unended d hd
    · rwa [List.mem_singleton.mp hd]
  · rw [times_append] at hnow
    exact (List.mem_append.mp hnow).elim (h.in_time now) (hin now)

/-- Whoever is watched after a look at the time left was watched, with time left. -/
theorem watching_count {watched : PieceColor}
    (h : (w.count now watched).1.watching = some color) :
    w.watching = some color ∧ ¬to_int (w.deadline - now) ≤ 0 := by
  by_cases hleft : to_int (w.deadline - now) ≤ 0
  · rw [count_expires hleft] at h
    cases h
  · rw [count_counts (lt_of_not_ge hleft)] at h
    exact ⟨h, hleft⟩

/-- **What a call leaves watched**: what was watched and has neither ended nor become due, or
a drop that was pending. -/
theorem watching_of_call (h : (w.call c).watching = some color) :
    (w.watching = some color ∧ ¬c.Ends color ∧
      ∀ now ∈ times [c], ¬to_int (w.deadline - now) ≤ 0) ∨
    (w.watching = none ∧ w.pending = some color ∧ ∃ now, c = .advance now) := by
  cases c with
  | report_disconnect other => exact .inl ⟨h, not_false, fun now hnow => by cases hnow⟩
  | clear => cases h
  | cancel other =>
      change (w.cancel other).1.watching = some color at h
      by_cases hother : w.watching = some other
      · rw [cancel, if_pos hother] at h
        cases h
      · rw [cancel, if_neg hother] at h
        refine .inl ⟨h, fun heq => hother ?_, fun now hnow => by cases hnow⟩
        exact h.trans (congrArg some (Eq.symm heq))
  | advance now =>
      change (w.advance now).1.watching = some color at h
      cases hw : w.watching with
      | some watched =>
          rw [advance_watching hw] at h
          obtain ⟨hwatched, hleft⟩ := watching_count h
          refine .inl ⟨hw.symm.trans hwatched, not_false, fun t ht => ?_⟩
          rwa [List.mem_singleton.mp ht]
      | none =>
          refine .inr ⟨rfl, ?_, now, rfl⟩
          cases hp : w.pending with
          | none =>
              rw [advance_idle hw hp, hw] at h
              cases h
          | some dropped =>
              rw [advance, open_countdown_opens hw hp] at h
              exact (watching_count h).1

/-- A deadline that is noticed is not yet there as long as something seems to be left. -/
theorem Noticed.in_time (h : w.Noticed c) (hwatching : w.watching = some color) :
    (∀ now ∈ times [c], ¬to_int (w.deadline - now) ≤ 0) → ∀ now ∈ times [c], now < w.deadline := by
  intro hleft now hnow
  cases c with
  | report_disconnect other => cases hnow
  | clear => cases hnow
  | cancel other => cases hnow
  | advance t =>
      obtain rfl := List.mem_singleton.mp hnow
      -- behind by a noticed distance, nothing would be left
      by_contra hmissed
      refine hleft now hnow ?_
      rw [to_int_nonpos_iff, neg_sub]
      exact h (by rw [hwatching]; rfl) (not_lt.mp hmissed)

/-- **A countdown that is watched was opened**, and has neither ended nor become due. -/
theorem life_of_watching (hgrace : 0 < grace_ms) (hfits : grace_ms ≤ 2147483648 - 1000)
    (hsorted : (times calls).Pairwise (· ≤ ·)) (hnoticed : (new grace_ms).AllNoticed calls)
    (hwatching : ((new grace_ms).after calls).watching = some color) :
    ∃ before opened during, calls = before ++ .advance opened :: during ∧
      Life grace_ms before opened during color := by
  induction calls using List.reverseRecOn with
  | nil => cases hwatching
  | append_singleton calls c ih =>
      obtain ⟨hall, hlast⟩ := ((new grace_ms).all_noticed_concat calls c).mp hnoticed
      rw [after_concat] at hwatching
      rcases watching_of_call hwatching with ⟨hwas, hc, hleft⟩ | ⟨hnone, hpending, now, rfl⟩
      · -- it was watched before the call
        have hsorted_calls : (times calls).Pairwise (· ≤ ·) := by
          rw [times_append] at hsorted
          exact (List.pairwise_append.mp hsorted).1
        obtain ⟨before, opened, during, hcalls, hlife⟩ := ih hsorted_calls hall hwas
        have hmiddle : before ++ .advance opened :: during <+: calls :=
          ⟨[], by rw [List.append_nil, hcalls]⟩
        obtain ⟨last, hrunning⟩ := hlife.running hgrace hfits (sorted_middle hsorted_calls hmiddle)
        rw [← hcalls] at hrunning
        refine ⟨before, opened, during ++ [c], ?_, hlife.extend hc ?_⟩
        · rw [hcalls, List.append_assoc]
          rfl
        · rw [← hrunning.deadline]
          exact hlast.in_time hwas hleft
      · -- it opens with the call
        exact ⟨calls, now, [], rfl, .of_opening hnone hpending now⟩

/-! ## When it counts down -/

/-- What is said is said by a countdown. -/
theorem speaks_of_advance (hspeaks : (w.advance now).2 ≠ {}) :
    (∃ color, w.watching = some color) ∨ ∃ color, w.watching = none ∧ w.pending = some color := by
  cases hw : w.watching with
  | some color => exact .inl ⟨color, rfl⟩
  | none =>
      cases hp : w.pending with
      | some color => exact .inr ⟨color, rfl, rfl⟩
      | none =>
          rw [advance_idle hw hp] at hspeaks
          exact absurd rfl hspeaks

theorem AllNoticed.of_before (h : w.AllNoticed calls) (hpre : before <+: calls) :
    w.AllNoticed before := by
  obtain ⟨rest, rfl⟩ := hpre
  exact ((w.all_noticed_append before rest).mp h).1

theorem sorted_before (hsorted : (times calls).Pairwise (· ≤ ·)) (hpre : before <+: calls) :
    (times before).Pairwise (· ≤ ·) := by
  have hmiddle : [] ++ before <+: calls := hpre
  exact sorted_middle hsorted hmiddle

theorem CountsDown.of_before (h : CountsDown grace_ms calls) (hpre : before <+: calls) :
    CountsDown grace_ms before :=
  ⟨fun xs hxs => h.frozen xs (hxs.trans hpre),
    fun xs t ys color hxs => h.counts xs t ys color (hxs.trans hpre),
    fun xs t ys color now hxs => h.expires xs t ys color now (hxs.trans hpre),
    fun xs now hxs => h.speaks xs now (hxs.trans hpre)⟩

/-- Every deadline noticed, the countdown counts down. -/
theorem counts_down_of_noticed (hgrace : 0 < grace_ms) (hfits : grace_ms ≤ 2147483648 - 1000)
    (hsorted : (times calls).Pairwise (· ≤ ·)) (hnoticed : (new grace_ms).AllNoticed calls) :
    CountsDown grace_ms calls := by
  refine ⟨fun before _ => mirrors_after (mirrors_new grace_ms) before, ?_, ?_, ?_⟩
  · intro before opened during color hpre hlife
    obtain ⟨hfirst, hunexpired, hfalls, hbounds, -⟩ :=
      hlife.counted hgrace hfits (sorted_middle hsorted hpre)
    rw [add_sub_cancel_left] at hbounds
    have hone : 1 ≤ ceil_seconds grace_ms := by
      unfold ceil_seconds
      omega
    rw [ticks, seconds_cons, hfirst]
    refine ⟨List.forall_mem_cons.mpr ⟨rfl, hunexpired⟩, rfl, ?_, ?_⟩
    · exact List.pairwise_cons.mpr ⟨fun s hs => (hbounds s hs).2, hfalls⟩
    · intro s hs
      rcases List.mem_cons.mp hs with rfl | hs
      · exact ⟨hone, le_refl _⟩
      · exact ⟨(hbounds s hs).1, (hbounds s hs).2.le⟩
  · intro before opened during color now hpre hlife hdue
    have hinit := (List.prefix_append _ [Call.advance now]).trans hpre
    obtain ⟨last, hrunning⟩ := hlife.running hgrace hfits (sorted_middle hsorted hinit)
    -- the last advance notices the deadline it has reached
    have hlast := ((new grace_ms).all_noticed_concat _ _).mp (hnoticed.of_before hpre)
    have hseen := hlast.2 (by rw [hrunning.watching]; rfl) (by rwa [hrunning.deadline])
    rw [hrunning.deadline] at hseen
    rw [after_concat, call, hrunning.expire hseen]
    exact ⟨rfl, by simp [active]⟩
  · intro before now hpre hspeaks
    have hinit := (List.prefix_append _ [Call.advance now]).trans hpre
    rcases speaks_of_advance hspeaks with ⟨color, hwatching⟩ | ⟨color, hnone, hpending⟩
    · exact ⟨color, .inr (life_of_watching hgrace hfits (sorted_before hsorted hinit)
        (hnoticed.of_before hinit) hwatching)⟩
    · exact ⟨color, .inl (.of_opening hnone hpending now)⟩

/-- **The countdown counts down exactly when every advance that finds a deadline behind it
notices.** -/
theorem counts_down_iff (grace_ms : Int) (hgrace : 0 < grace_ms)
    (hfits : grace_ms ≤ 2147483648 - 1000) (calls : List Call)
    (hsorted : (times calls).Pairwise (· ≤ ·)) :
    CountsDown grace_ms calls ↔ (new grace_ms).AllNoticed calls := by
  refine ⟨fun h => ?_, counts_down_of_noticed hgrace hfits hsorted⟩
  induction calls using List.reverseRecOn with
  | nil => trivial
  | append_singleton calls c ih =>
      have hpre := List.prefix_append calls [c]
      have hall := ih (sorted_before hsorted hpre) (h.of_before hpre)
      refine ((new grace_ms).all_noticed_concat calls c).mpr ⟨hall, ?_⟩
      cases c with
      | report_disconnect other => trivial
      | cancel other => trivial
      | clear => trivial
      | advance now =>
          intro hsome hmissed
          obtain ⟨color, hwatching⟩ := Option.isSome_iff_exists.mp hsome
          obtain ⟨before, opened, during, rfl, hlife⟩ := life_of_watching hgrace hfits
            (sorted_before hsorted hpre) hall hwatching
          obtain ⟨last, hrunning⟩ := hlife.running hgrace hfits (sorted_middle hsorted hpre)
          -- it expired, so it was noticed
          obtain ⟨hexpires, -⟩ := h.expires before opened during color now (List.prefix_refl _)
            hlife (by rwa [hrunning.deadline] at hmissed)
          by_contra hunseen
          rw [hrunning.deadline] at hunseen
          have hnone := hrunning.not_expire hunseen
          rw [hexpires] at hnone
          cases hnone

/-- A drop, an advance that opens its countdown, one that reports nineteen seconds, a report
and a cancellation of the other colour, and one that finds the deadline an hour behind it. -/
theorem counts_down_an_hour_late :
    CountsDown 20000 [.report_disconnect .White, .advance 0, .advance 1500,
      .report_disconnect .Black, .cancel .Black, .advance 3620000] :=
  (counts_down_iff 20000 (by decide) (by decide) _ (by decide)).mpr (by decide)

/-- A drop, an advance that opens its countdown, and one that comes `2 ^ 32 - 5000`
milliseconds after the deadline. -/
def missed : List Call :=
  [.report_disconnect .White, .advance 0, .advance (20000 + 4294967296 - 5000)]

/-- **A deadline that was missed by too much comes back**: instead of the expiry of a
countdown of twenty seconds, five seconds are reported to be left. -/
theorem missed_deadline : (times missed).Pairwise (· ≤ ·) ∧ ¬CountsDown 20000 missed := by
  refine ⟨by decide, fun h => ?_⟩
  have hlife : Life 20000 [.report_disconnect .White] 0 [] .White := .of_opening rfl rfl 0
  obtain ⟨hexpires, -⟩ := h.expires [.report_disconnect .White] 0 [] .White
    (20000 + 4294967296 - 5000) (List.prefix_refl _) hlife (by decide)
  exact absurd hexpires (by decide)

end DisconnectWatch

end KungFuChess
