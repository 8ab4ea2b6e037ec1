/-
The **disconnect grace**: `kfc/server/disconnect_watch.cpp`.

A drop is reported from a connection's thread into `pending` and becomes a
countdown, `watching`, at the next tick. There is one slot of each, for two
players; what follows from that is the subject of `Presence`. Times are whole
milliseconds of 64 bits; what is left of a countdown is an `int`, as are the seconds.
-/
import KungFuChess.Board
import KungFuChess.Numbers

set_option autoImplicit false

namespace KungFuChess

open Numbers

/-- Who has dropped and not been noticed, who is counted down, and until when. -/
structure DisconnectWatch where
  grace_ms : Int
  frozen : Bool := false
  pending : Option PieceColor := none
  watching : Option PieceColor := none
  deadline : Int := 0
  last_reported_second : Int := -1
deriving DecidableEq, Repr

namespace DisconnectWatch

/-- What one `advance` has to say. -/
structure Tick where
  seconds_remaining : Option Int := none
  expired_for : Option PieceColor := none
deriving DecidableEq, Repr

/-- Another thread reports a drop; the next `advance` takes it up. -/
def report_disconnect (w : DisconnectWatch) (color : PieceColor) : DisconnectWatch :=
  { w with pending := some color, frozen := true }

/-- The first half of `advance`: a fresh drop becomes the live countdown, unless
one is running. -/
def open_countdown (w : DisconnectWatch) (now : Int) : DisconnectWatch :=
  if w.pending.isSome ∧ w.watching.isNone then
    { w with
      watching := w.pending
      deadline := now + w.grace_ms
      last_reported_second := -1
      pending := none }
  else
    -- a drop reported while another countdown runs is forgotten
    { w with pending := none }

/-- `(remaining_ms + 999) / 1000`: a sum that wraps, divided towards zero. -/
def seconds_left (remaining_ms : Int) : Int := (to_int (remaining_ms + 999)).tdiv 1000

/-- The second half: what is left of the countdown for `color`. -/
def count (w : DisconnectWatch) (now : Int) (color : PieceColor) : DisconnectWatch × Tick :=
  let remaining_ms := to_int (w.deadline - now)
  if remaining_ms ≤ 0 then
    -- no longer watching by the time the expiry is handed over
    ({ w with watching := none, frozen := false }, { expired_for := some color })
  else
    -- rounded up: the display ends at 1
    let seconds_remaining := seconds_left remaining_ms
    -- nothing new to say within one second
    if seconds_remaining = w.last_reported_second then
      (w, {})
    else
      ({ w with last_reported_second := seconds_remaining },
        { seconds_remaining := some seconds_remaining })

/-- What a tick does: opens the countdown, or counts. -/
def advance (w : DisconnectWatch) (now : Int) : DisconnectWatch × Tick :=
  let w := w.open_countdown now
  match w.watching with
  | none => (w, {})
  | some color => w.count now color

def is_frozen (w : DisconnectWatch) : Bool := w.frozen

/-- The countdown of this player is over, and any drop that has not been noticed is forgotten. -/
def cancel (w : DisconnectWatch) (color : PieceColor) : DisconnectWatch × Bool :=
  if w.watching = some color then
    ({ w with watching := none, pending := none, frozen := false }, true)
  else
    (w, false)

def clear (w : DisconnectWatch) : DisconnectWatch :=
  { w with watching := none, pending := none, frozen := false }

/-! ## What the flag mirrors -/

/-- A drop has been reported or is being counted down. -/
def active (w : DisconnectWatch) : Prop := w.pending.isSome ∨ w.watching.isSome

instance (w : DisconnectWatch) : Decidable w.active := inferInstanceAs (Decidable (_ ∨ _))

/-- `frozen_` mirrors `pending_ || watching_`. -/
def Mirrors (w : DisconnectWatch) : Prop := w.frozen = true ↔ w.active

theorem mirrors_new (grace_ms : Int) : Mirrors { grace_ms := grace_ms } := by
  simp [Mirrors, active]

theorem mirrors_report (w : DisconnectWatch) (c : PieceColor) :
    Mirrors (w.report_disconnect c) := by
  simp [Mirrors, active, report_disconnect]

theorem mirrors_clear (w : DisconnectWatch) : Mirrors w.clear := by
  simp [Mirrors, active, clear]

/-- Opening a countdown loses no drop, unless another one is running. -/
theorem open_countdown_spec (w : DisconnectWatch) (now : Int) :
    (w.open_countdown now).pending = none ∧ (w.open_countdown now).frozen = w.frozen ∧
      (w.open_countdown now).watching = if w.watching.isSome then w.watching else w.pending := by
  unfold open_countdown
  cases w.watching <;> cases w.pending <;> simp

/-- **What an advance does**: it expires, or it goes on counting the countdown that
was running, or else the drop that was pending. -/
theorem advance_spec (w : DisconnectWatch) (now : Int) :
    (∃ c, (w.advance now).2.expired_for = some c) ∨
      ((w.advance now).2.expired_for = none ∧ (w.advance now).1.pending = none ∧
        (w.advance now).1.frozen = w.frozen ∧
        (w.advance now).1.watching = if w.watching.isSome then w.watching else w.pending) := by
  obtain ⟨hp, hf, hw⟩ := w.open_countdown_spec now
  unfold advance
  dsimp only
  rw [← hw, ← hf]
  cases hc : (w.open_countdown now).watching with
  | none => exact .inr ⟨rfl, hp, rfl, hc⟩
  | some c =>
      unfold count
      dsimp only
      split_ifs
      · exact .inl ⟨c, rfl⟩
      · exact .inr ⟨rfl, hp, rfl, hc⟩
      · exact .inr ⟨rfl, hp, rfl, hc⟩

end DisconnectWatch

end KungFuChess
