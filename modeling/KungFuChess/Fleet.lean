/-
**A fleet of workers**: several servers that share one directory,
`kfc/server/redis_room_directory.cpp`.

Each worker is a `RoomManager`. The rooms it creates it registers in Redis under its own
address, and a name it does not know it looks up there; its own `directory` field only
holds the answer that a step gets. Redis keeps an entry for six hours, as long as nobody
deletes it, and may take it out any time after that. A command that does not get through
is dropped, and a look-up that does not is answered as if there were nothing.

A step of the fleet is a step of one worker, or of Redis; the time is that of Redis, in
milliseconds. What is sent to Redis, and whether it gets through, is recorded
(`FleetEvent`), and so is which worker draws which key.
-/
import KungFuChess.ExpiringMap
import KungFuChess.RoomManager

set_option autoImplicit false

namespace KungFuChess

open Machine ExpiringMap

/-! ## The directory -/

/-- What is left of a string that is passed on as a `const char*`. -/
def c_str (s : String) : String := String.ofList (s.toList.takeWhile fun c => c ≠ '\x00')

inductive DirectoryCommand
  | register_room (room_name worker_url : String)
  | owner_of (room_name : String)
  | forget_room (room_name : String)
deriving DecidableEq, Repr

abbrev Redis := Table String String Int

namespace RedisRoomDirectory

/-- Six hours. -/
def kEntryTtlSeconds : Int := 6 * 60 * 60

/-- How long an entry is kept, in milliseconds. -/
def time_to_live : Int := kEntryTtlSeconds * 1000

/-- `room:%s` -/
def key (room_name : String) : String := "room:" ++ c_str room_name

/-- What Redis does with a command, and the answer to a `GET`. -/
def perform (redis : Redis) (now : Int) : DirectoryCommand → Redis × Option String
  | .register_room room_name worker_url =>
      (put redis (key room_name) (c_str worker_url) (now + time_to_live), none)
  | .owner_of room_name => find redis (key room_name) now
  | .forget_room room_name => (drop redis (key room_name), none)

end RedisRoomDirectory

namespace RoomManager

/-- The same worker, with another directory. -/
def on_redis (d : String → Option String) (s : RoomManager) : RoomManager :=
  { s with directory := s.directory.map fun _ => d }

/-- What a part of a call asks of the directory. -/
def command (s : RoomManager) : Pending → Option DirectoryCommand
  | .register_room key _ => some (.register_room key s.self_url)
  | .owner_of name => some (.owner_of name)
  | .forget_room name => some (.forget_room name)
  | _ => none

def command_of (s : RoomManager) : Op → Option DirectoryCommand
  | .proceed call => (s.calls[call]?).bind s.command
  | _ => none

/-- The key of the room that the step opens. -/
def draws (s : RoomManager) : Op → Option String
  | .create_room key _ _ _ => if is_room_key key ∧ s.named_rooms key = none then some key else none
  | _ => none

end RoomManager

/-! ## The fleet -/

inductive FleetEvent
  | of_worker (worker : Nat) (event : RoomEvent)
  /-- A worker opens a room under this key. -/
  | drew (worker : Nat) (key : String)
  /-- A command, and whether it gets through. -/
  | sent (worker : Nat) (command : DirectoryCommand) (now : Int) (through : Bool)
  | evicted (key : String) (now : Int)
deriving DecidableEq, Repr

structure Fleet where
  workers : List RoomManager
  redis : Redis := empty

namespace Fleet

inductive Op
  /-- A step of a worker; what it sends to Redis gets through, or does not. -/
  | worker (i : Nat) (op : RoomManager.Op) (now : Int) (through : Bool)
  /-- Redis takes out an entry, if its time is over. -/
  | evict (key : String) (now : Int)
deriving DecidableEq, Repr

/-- Redis after a step that may send it a command, and the answer to a `GET`. -/
def after_command (redis : Redis) (now : Int) (through : Bool) :
    Option DirectoryCommand → Redis × Option String
  | none => (redis, none)
  | some command => if through then RedisRoomDirectory.perform redis now command else (redis, none)

/-- What is recorded of a step of a worker. -/
def said (i : Nat) (w : RoomManager) (op : RoomManager.Op) (now : Int) (through : Bool)
    (os : List RoomEvent) : List FleetEvent :=
  (w.draws op).toList.map (.drew i) ++ (w.command_of op).toList.map (.sent i · now through)
    ++ os.map (.of_worker i)

def exec : Step Fleet Op FleetEvent RoomError
  -- nobody but the workers writes the directory
  | s, .worker _ (.directory_changes _ _) _ _ => return (s, [])
  | s, .worker i op now through =>
      match s.workers[i]? with
      | none => return (s, [])
      | some w => do
          let (redis, answer) := after_command s.redis now through (w.command_of op)
          let (w', os) ← RoomManager.exec (w.on_redis fun _ => answer) op
          return ({ workers := s.workers.set i w', redis := redis }, said i w op now through os)
  | s, .evict key now =>
      return ({ s with redis := (find s.redis key now).1 }, [.evicted key now])

/-- Everything a step can do. -/
inductive Does (s : Fleet) : Op → Fleet → List FleetEvent → Prop
  | idle (op : Op) : Does s op s []
  | works (i : Nat) (op : RoomManager.Op) (now : Int) (through : Bool) (w w' : RoomManager)
      (os : List RoomEvent) (here : s.workers[i]? = some w)
      (own : ∀ name owner, op ≠ .directory_changes name owner)
      (step : RoomManager.exec
        (w.on_redis fun _ => (after_command s.redis now through (w.command_of op)).2) op
          = .ok (w', os)) :
      Does s (.worker i op now through)
        ⟨s.workers.set i w', (after_command s.redis now through (w.command_of op)).1⟩
        (said i w op now through os)
  | evicts (key : String) (now : Int) :
      Does s (.evict key now) { s with redis := (find s.redis key now).1 } [.evicted key now]

/-- The only place where `exec` is unfolded. -/
theorem exec_does {s s' : Fleet} {op : Op} {os : List FleetEvent} (h : exec s op = .ok (s', os)) :
    Does s op s' os := by
  cases op with
  | evict key now =>
      obtain ⟨rfl, rfl⟩ := Prod.mk.inj (Except.ok.inj h)
      exact .evicts key now
  | worker i op now through =>
      by_cases hown : ∃ name owner, op = .directory_changes name owner
      · obtain ⟨name, owner, rfl⟩ := hown
        obtain ⟨rfl, rfl⟩ := Prod.mk.inj (Except.ok.inj h)
        exact .idle _
      · have hown' : ∀ name owner, op ≠ .directory_changes name owner :=
          fun name owner heq => hown ⟨name, owner, heq⟩
        rw [exec] at h
        swap
        · exact hown'
        cases hw : s.workers[i]? with
        | none =>
            rw [hw] at h
            obtain ⟨rfl, rfl⟩ := Prod.mk.inj (Except.ok.inj h)
            exact .idle _
        | some w =>
            rw [hw] at h
            obtain ⟨⟨w', os'⟩, hstep, hret⟩ := (bind_ok_iff _ _ _).mp h
            obtain ⟨rfl, rfl⟩ := Prod.mk.inj (Except.ok.inj hret)
            exact .works i op now through w w' os' hw hown' hstep

/-- Workers that have just started, each with its `--worker-url`. -/
def new (board_factory : RoomId → Board) (config : MotionFactory) (on_result : Bool)
    (disconnect_grace_ms : Int) (worker_urls : List String) : Fleet where
  workers := worker_urls.map fun url =>
    .new board_factory config on_result disconnect_grace_ms (some fun _ => none) (c_str url)

end Fleet

end KungFuChess
