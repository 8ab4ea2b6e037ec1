/-
The **audience** of a match: `kfc/server/match_audience.cpp`.

`MatchAudience` publishes immutable versions of its roster; a version is a value
here, so a reader that keeps one keeps it unchanged. The two callbacks a
connection brings, `SendFn` and `CloseFn`, are named by the connection they
belong to, and what they do appears in the output of a match as messages to, and
closes of, that connection.
-/
import KungFuChess.Board

set_option autoImplicit false

namespace KungFuChess

/-- One client connection, by which its two callbacks are named. -/
structure Connection where
  id : Nat
deriving DecidableEq, Repr

/-- `0` means "not a watcher". -/
abbrev WatcherId := Nat

/-- A spectator, with the two callbacks it brought. -/
structure Watcher where
  id : WatcherId
  send : Connection
  close : Connection
deriving DecidableEq, Repr

/-- One version of who is there. -/
structure Roster where
  white_send : Option Connection := none
  black_send : Option Connection := none
  white_close : Option Connection := none
  black_close : Option Connection := none
  white_username : String := ""
  black_username : String := ""
  white_rating : Int := 0
  black_rating : Int := 0
  /-- Newest first. -/
  watchers : List Watcher := []
  watcher_count : Nat := 0
deriving DecidableEq, Repr

/-- The current version, and the counters beside it. -/
structure MatchAudience where
  seats_filled : Nat := 0
  roster : Roster := {}
  next_watcher_id : WatcherId := 1
deriving DecidableEq, Repr

namespace MatchAudience

def kMaxSpectators : Nat := 5000

/-- The first free seat, White before Black, or none. -/
def seat (a : MatchAudience) (username : String) (rating : Int) (send close : Connection) :
    MatchAudience × Option PieceColor :=
  if a.roster.white_send.isNone then
    ({ a with
      roster := { a.roster with
        white_send := some send
        white_close := some close
        white_username := username
        white_rating := rating }
      seats_filled := a.seats_filled + 1 }, some .White)
  else if a.roster.black_send.isNone then
    ({ a with
      roster := { a.roster with
        black_send := some send
        black_close := some close
        black_username := username
        black_rating := rating }
      seats_filled := a.seats_filled + 1 }, some .Black)
  else
    (a, none)

/-- A new watcher in front of the others, unless there are too many. -/
def watch (a : MatchAudience) (send close : Connection) : MatchAudience × WatcherId :=
  if kMaxSpectators ≤ a.roster.watcher_count then
    (a, 0)
  else
    ({ a with
      roster := { a.roster with
        watchers := ⟨a.next_watcher_id, send, close⟩ :: a.roster.watchers
        watcher_count := a.roster.watcher_count + 1 }
      next_watcher_id := a.next_watcher_id + 1 }, a.next_watcher_id)

/-- The watcher with the id is taken out, if it is still there. -/
def unwatch (a : MatchAudience) (id : WatcherId) : MatchAudience :=
  if a.roster.watchers.any (fun watcher => watcher.id = id) then
    { a with
      roster := { a.roster with
        watchers := a.roster.watchers.eraseP fun watcher => watcher.id = id
        watcher_count := a.roster.watcher_count - 1 } }
  else
    a

/-- The callbacks of a player who comes back; the name and the rating stay. -/
def reseat (a : MatchAudience) (color : PieceColor) (send close : Connection) : MatchAudience :=
  match color with
  | .White => { a with
      roster := { a.roster with white_send := some send, white_close := some close } }
  | .Black => { a with
      roster := { a.roster with black_send := some send, black_close := some close } }

def both_seats_taken (a : MatchAudience) : Bool := a.seats_filled = 2

def username_of (a : MatchAudience) : PieceColor → String
  | .White => a.roster.white_username
  | .Black => a.roster.black_username

def rating_of (a : MatchAudience) : PieceColor → Int
  | .White => a.roster.white_rating
  | .Black => a.roster.black_rating

/-- Whom `broadcast` sends to, in order. -/
def everyone (a : MatchAudience) : List Connection :=
  a.roster.white_send.toList ++ a.roster.black_send.toList ++ a.roster.watchers.map Watcher.send

/-- Whom `send_to` sends to. -/
def player (a : MatchAudience) : PieceColor → Option Connection
  | .White => a.roster.white_send
  | .Black => a.roster.black_send

/-- Whom `release_all` closes, in order. -/
def all_closes (a : MatchAudience) : List Connection :=
  a.roster.white_close.toList ++ a.roster.black_close.toList ++ a.roster.watchers.map Watcher.close

/-! ## What the calls change -/

/-- What taking a seat changes. White is the first to be taken. -/
structure SeatTaken (a a' : MatchAudience) (color : PieceColor) (username : String)
    (connection : Connection) : Prop where
  free : a.player color = none
  white_first : color = .Black → (a.player .White).isSome
  player : ∀ c, a'.player c = if c = color then some connection else a.player c
  username_of : ∀ c, a'.username_of c = if c = color then username else a.username_of c
  seats_filled : a'.seats_filled = a.seats_filled + 1

/-- **What `seat` does** when it finds a free one. -/
theorem seat_spec {a a' : MatchAudience} {username : String} {rating : Int}
    {connection : Connection} {color : PieceColor}
    (h : a.seat username rating connection connection = (a', some color)) :
    SeatTaken a a' color username connection := by
  unfold seat at h
  split_ifs at h with hw hb
  · obtain ⟨rfl, hc⟩ := Prod.mk.inj h
    obtain rfl := Option.some.inj hc
    refine ⟨Option.isNone_iff_eq_none.mp hw, nofun, fun c => ?_, fun c => ?_, rfl⟩ <;>
      cases c <;> rfl
  · obtain ⟨rfl, hc⟩ := Prod.mk.inj h
    obtain rfl := Option.some.inj hc
    refine ⟨Option.isNone_iff_eq_none.mp hb, fun _ => ?_, fun c => ?_, fun c => ?_, rfl⟩
    · exact Option.isSome_iff_ne_none.mpr (by simpa [player] using hw)
    · cases c <;> rfl
    · cases c <;> rfl
  · cases (Prod.mk.inj h).2

/-- Nobody is seated only when both seats are taken, and nothing changes then. -/
theorem seat_refused {a a' : MatchAudience} {username : String} {rating : Int}
    {connection : Connection} (h : a.seat username rating connection connection = (a', none)) :
    a' = a ∧ ∀ c, (a.player c).isSome := by
  unfold seat at h
  split_ifs at h with hw hb
  · cases (Prod.mk.inj h).2
  · cases (Prod.mk.inj h).2
  · obtain ⟨rfl, _⟩ := Prod.mk.inj h
    refine ⟨rfl, fun c => ?_⟩
    cases c with
    | White => exact Option.isSome_iff_ne_none.mpr (by simpa [player] using hw)
    | Black => exact Option.isSome_iff_ne_none.mpr (by simpa [player] using hb)

/-- Only the one seat gets another connection. -/
theorem player_reseat (a : MatchAudience) (color : PieceColor) (connection : Connection)
    (c : PieceColor) :
    (a.reseat color connection connection).player c
      = if c = color then some connection else a.player c := by
  cases color <;> cases c <;> rfl

theorem username_of_reseat (a : MatchAudience) (color : PieceColor) (connection : Connection)
    (c : PieceColor) :
    (a.reseat color connection connection).username_of c = a.username_of c := by
  cases color <;> cases c <;> rfl

theorem player_watch (a : MatchAudience) (connection : Connection) (c : PieceColor) :
    (a.watch connection connection).1.player c = a.player c := by
  unfold watch
  split_ifs <;> cases c <;> rfl

theorem player_unwatch (a : MatchAudience) (id : WatcherId) (c : PieceColor) :
    (a.unwatch id).player c = a.player c := by
  unfold unwatch
  split_ifs <;> cases c <;> rfl

/-! ## Who is on the roster -/

/-- How often a broadcast reaches a connection. -/
theorem count_everyone (a : MatchAudience) (c : Connection) :
    a.everyone.count c = (a.player .White).toList.count c + (a.player .Black).toList.count c
      + (a.roster.watchers.map Watcher.send).count c := by
  unfold everyone
  rw [List.count_append, List.count_append]
  rfl

/-- One connection, once. -/
def one (connection c : Connection) : Nat := if connection = c then 1 else 0

theorem count_some (connection c : Connection) :
    (some connection).toList.count c = one connection c := by
  unfold one
  rw [Option.toList_some, List.count_singleton]
  simp only [beq_iff_eq]

/-- Who takes a seat is reached once more. -/
theorem count_seat {a a' : MatchAudience} {username : String} {rating : Int}
    {connection : Connection} {color : PieceColor}
    (h : a.seat username rating connection connection = (a', some color)) (c : Connection) :
    a'.everyone.count c = a.everyone.count c + one connection c := by
  have hspec := seat_spec h
  have hwatchers : a'.roster.watchers = a.roster.watchers := by
    unfold seat at h
    split_ifs at h
    · rw [← (Prod.mk.inj h).1]
    · rw [← (Prod.mk.inj h).1]
    · cases (Prod.mk.inj h).2
  rw [count_everyone, count_everyone, hspec.player, hspec.player, hwatchers]
  have hfree := hspec.free
  cases color with
  | White =>
      rw [if_pos rfl, if_neg (by decide), count_some, hfree]
      simp only [Option.toList_none, List.count_nil]
      omega
  | Black =>
      rw [if_neg (by decide), if_pos rfl, count_some, hfree]
      simp only [Option.toList_none, List.count_nil]
      omega

/-- Who watches is reached at most once more. -/
theorem count_watch_le (a : MatchAudience) (connection c : Connection) :
    (a.watch connection connection).1.everyone.count c
      ≤ a.everyone.count c + one connection c := by
  rw [count_everyone, count_everyone, player_watch, player_watch]
  unfold watch
  split_ifs
  · exact Nat.le_add_right _ _
  · dsimp only
    rw [List.map_cons, List.count_cons]
    unfold one
    simp only [beq_iff_eq]
    omega

/-- Nobody is reached more often when a watcher leaves. -/
theorem count_unwatch_le (a : MatchAudience) (id : WatcherId) (c : Connection) :
    (a.unwatch id).everyone.count c ≤ a.everyone.count c := by
  rw [count_everyone, count_everyone, player_unwatch, player_unwatch]
  unfold unwatch
  split_ifs
  · exact Nat.add_le_add_left ((List.eraseP_sublist.map Watcher.send).count_le c) _
  · exact le_refl _

theorem count_reseat_le (a : MatchAudience) (color : PieceColor) (connection c : Connection) :
    (a.reseat color connection connection).everyone.count c
      ≤ a.everyone.count c + one connection c := by
  have hwatchers : (a.reseat color connection connection).roster.watchers = a.roster.watchers := by
    cases color <;> rfl
  rw [count_everyone, count_everyone, player_reseat, player_reseat, hwatchers]
  cases color with
  | White =>
      rw [if_pos rfl, if_neg (by decide), count_some]
      omega
  | Black =>
      rw [if_neg (by decide), if_pos rfl, count_some]
      omega

end MatchAudience

end KungFuChess
