/-
What the counters of an audience say: `watcher_count` is the length of the list, the
ids go down along it and stay below the next one, and `seats_filled` counts the seats
that have a connection (`Counted`). Each call keeps this, and `unwatch` takes out the
watcher with the id and no other (`watchers_unwatch`).
-/
import KungFuChess.Audience

set_option autoImplicit false

namespace KungFuChess

namespace MatchAudience

variable {a a' : MatchAudience} {send close : Connection} {color : PieceColor}

/-- `1` for a seat that has a connection. -/
def taken (connection : Option Connection) : Nat := if connection.isSome then 1 else 0

/-- The counters and the ids say what the lists say. -/
structure Counted (a : MatchAudience) : Prop where
  count : a.roster.watcher_count = a.roster.watchers.length
  limit : a.roster.watchers.length ≤ kMaxSpectators
  /-- Newest first. -/
  down : a.roster.watchers.Pairwise fun newer older => older.id < newer.id
  below : ∀ w ∈ a.roster.watchers, w.id < a.next_watcher_id
  issues : 0 < a.next_watcher_id
  seats : a.seats_filled = taken (a.player .White) + taken (a.player .Black)

theorem counted_new : Counted {} :=
  ⟨rfl, Nat.zero_le _, List.Pairwise.nil, fun _ hw => absurd hw List.not_mem_nil, Nat.one_pos, rfl⟩

/-- **The seats are counted.** -/
theorem Counted.both_seats_taken (h : Counted a) :
    a.both_seats_taken = true ↔ (a.player .White).isSome ∧ (a.player .Black).isSome := by
  rw [MatchAudience.both_seats_taken, h.seats, decide_eq_true_eq]
  unfold taken
  cases (a.player .White).isSome <;> cases (a.player .Black).isSome <;> simp

/-- No two watchers have one id. -/
theorem Counted.ids_nodup (h : Counted a) : (a.roster.watchers.map Watcher.id).Nodup := by
  rw [List.Nodup, List.pairwise_map]
  exact h.down.imp fun hlt => (Nat.ne_of_lt hlt).symm

/-- **Exactly the watcher with the id is taken out.** -/
theorem Counted.watchers_unwatch (h : Counted a) (id : WatcherId) :
    (a.unwatch id).roster.watchers = a.roster.watchers.filter fun w => w.id ≠ id := by
  have herase : ∀ {ws : List Watcher}, (ws.map Watcher.id).Nodup →
      ws.eraseP (fun w => w.id = id) = ws.filter fun w => w.id ≠ id := by
    intro ws hnodup
    induction ws with
    | nil => rfl
    | cons w ws ih =>
        obtain ⟨hnot, hrest⟩ := List.nodup_cons.mp hnodup
        by_cases hid : w.id = id
        · subst hid
          rw [List.eraseP_cons_of_pos (by simp), List.filter_cons_of_neg (by simp)]
          have hother : ∀ v ∈ ws, v.id ≠ w.id := fun v hv heq =>
            hnot (heq ▸ List.mem_map_of_mem hv)
          exact (List.filter_eq_self.mpr (by simpa using hother)).symm
        · rw [List.eraseP_cons_of_neg (by simpa using hid),
            List.filter_cons_of_pos (by simpa using hid), ih hrest]
  unfold unwatch
  split_ifs with hany
  · exact herase h.ids_nodup
  · have hother : ∀ w ∈ a.roster.watchers, w.id ≠ id := fun w hw heq =>
      hany (List.any_eq_true.mpr ⟨w, hw, decide_eq_true heq⟩)
    exact (List.filter_eq_self.mpr (by simpa using hother)).symm

theorem unwatch_rest (a : MatchAudience) (id : WatcherId) :
    (a.unwatch id).next_watcher_id = a.next_watcher_id ∧
      (a.unwatch id).seats_filled = a.seats_filled := by
  unfold unwatch
  split_ifs <;> exact ⟨rfl, rfl⟩

/-- Taking a watcher out keeps the count. -/
theorem Counted.unwatch (h : Counted a) (id : WatcherId) : Counted (a.unwatch id) := by
  obtain ⟨hnext, hseats⟩ := a.unwatch_rest id
  have hsub : (a.unwatch id).roster.watchers.Sublist a.roster.watchers := by
    rw [h.watchers_unwatch]
    exact List.filter_sublist
  refine ⟨?_, hsub.length_le.trans h.limit, h.down.sublist hsub, fun w hw => ?_, ?_, ?_⟩
  · unfold MatchAudience.unwatch
    split_ifs with hany
    · obtain ⟨w, hw, hid⟩ := List.any_eq_true.mp hany
      show a.roster.watcher_count - 1 = (a.roster.watchers.eraseP _).length
      rw [List.length_eraseP_of_mem hw hid, h.count]
    · exact h.count
  · rw [hnext]
    exact h.below w (hsub.subset hw)
  · rw [hnext]
    exact h.issues
  · rw [hseats, player_unwatch, player_unwatch]
    exact h.seats

/-- So does letting one in, which stops at the limit. -/
theorem Counted.watch (h : Counted a) (send close : Connection) :
    Counted (a.watch send close).1 := by
  unfold MatchAudience.watch
  split_ifs with hfull
  · exact h
  · have hlimit := h.limit
    have hcount := h.count
    refine ⟨?_, ?_, ?_, ?_, Nat.succ_pos _, h.seats⟩
    · show a.roster.watcher_count + 1 = a.roster.watchers.length + 1
      rw [hcount]
    · show a.roster.watchers.length + 1 ≤ kMaxSpectators
      omega
    · exact List.pairwise_cons.mpr ⟨h.below, h.down⟩
    · refine List.forall_mem_cons.mpr ⟨Nat.lt_succ_self _, fun w hw => ?_⟩
      exact Nat.lt_succ_of_lt (h.below w hw)

/-- A new id, or `0` for nobody. -/
theorem watch_id (a : MatchAudience) (send close : Connection) :
    (a.watch send close).2 = 0 ∧ (a.watch send close).1 = a ∨
      (a.watch send close).2 = a.next_watcher_id ∧
        (a.watch send close).1.next_watcher_id = a.next_watcher_id + 1 := by
  unfold MatchAudience.watch
  split_ifs
  · exact .inl ⟨rfl, rfl⟩
  · exact .inr ⟨rfl, rfl⟩

/-- So does a player who comes back to a seat that is taken. -/
theorem Counted.reseat (h : Counted a) (htaken : (a.player color).isSome)
    (send close : Connection) : Counted (a.reseat color send close) := by
  have hseats := h.seats
  unfold taken at hseats
  cases color with
  | White =>
      rw [if_pos htaken] at hseats
      exact ⟨h.count, h.limit, h.down, h.below, h.issues, hseats⟩
  | Black =>
      rw [if_pos htaken] at hseats
      exact ⟨h.count, h.limit, h.down, h.below, h.issues, hseats⟩

/-- So does taking a seat, which is counted once. -/
theorem Counted.seat (h : Counted a) (username : String) (rating : Int)
    (send close : Connection) : Counted (a.seat username rating send close).1 := by
  have hseats := h.seats
  unfold MatchAudience.seat
  split_ifs with hwhite hblack
  · refine ⟨h.count, h.limit, h.down, h.below, h.issues, ?_⟩
    rw [show a.player .White = none from Option.isNone_iff_eq_none.mp hwhite] at hseats
    show a.seats_filled + 1 = 1 + taken (a.player .Black)
    rw [hseats, Nat.add_comm 1]
    exact congrArg (· + 1) (Nat.zero_add _)
  · refine ⟨h.count, h.limit, h.down, h.below, h.issues, ?_⟩
    rw [show a.player .Black = none from Option.isNone_iff_eq_none.mp hblack] at hseats
    show a.seats_filled + 1 = taken (a.player .White) + 1
    rw [hseats]
    rfl
  · exact h

/-! ## Seats that are taken stay taken -/

/-- A seat that is taken stays so when another is. -/
theorem isSome_player_seat {username : String} {rating : Int} {c : PieceColor}
    (h : (a.player c).isSome ∨ (a.seat username rating send close).2 = some c) :
    ((a.seat username rating send close).1.player c).isSome := by
  unfold seat at h ⊢
  split_ifs at h ⊢ with hwhite hblack
  · cases c with
    | White => rfl
    | Black => exact h.resolve_right (by rintro ⟨⟩)
  · cases c with
    | White => exact h.resolve_right (by rintro ⟨⟩)
    | Black => rfl
  · exact h.resolve_right (by rintro ⟨⟩)

theorem isSome_player_reseat {c : PieceColor} (h : (a.player c).isSome) :
    ((a.reseat color send close).player c).isSome := by
  cases color with
  | White =>
      cases c with
      | White => rfl
      | Black => exact h
  | Black =>
      cases c with
      | White => exact h
      | Black => rfl

theorem player_watch_eq (a : MatchAudience) (send close : Connection) (c : PieceColor) :
    (a.watch send close).1.player c = a.player c := by
  unfold watch
  split_ifs
  · rfl
  · cases c <;> rfl

end MatchAudience

end KungFuChess
