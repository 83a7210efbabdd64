import JavaDebug.Session
import Mathlib.Logic.Function.Basic

/-!
The sessions of one server, and the calls that open, close and choose them.
Requests run concurrently: each goes on from one `await` to the next, and
whatever the others did in between is what it finds. A session object outlives
its registration while a call still has its guard, so objects are kept apart
from the map of registered sessions. What a connection answers, whether a
session is dead, and the clock are left open.
-/
namespace JavaDebug.SessionCalls

open Session

section Sessions

/-- The text of an id is these two numbers; no two ids share a counter. -/
structure SessionId where
  timestamp : ℕ
  counter : ℕ
  deriving DecidableEq

/-- Everything a new session takes from the call that opened it. -/
structure SessionSeed where
  read_only : Bool
  source_roots : List String
  class_roots : List String
  trace_exprs : List String
  step_exclude_classes : Option (List String)
  step_only_classes : Option (List String)
  deriving DecidableEq

structure LaunchedJvm where
  pid : Option ℕ
  command : String
  detach_on_disconnect : Bool
  deriving DecidableEq

/-- A task is named by the session id it was spawned for. -/
structure DebugSession where
  endpoint : String
  seed : SessionSeed
  event_listener_task : Option SessionId
  watchdog_task : Option SessionId
  pending_step : Option ℕ
  suspensions : Suspensions
  launched : Option LaunchedJvm

def DebugSession.new (endpoint : String) (seed : SessionSeed) : DebugSession :=
  ⟨endpoint, seed, none, none, none, .new, none⟩

/-- `objects` are the session objects ever made, `sessions` the ids in the map. -/
structure SessionManager where
  objects : SessionId → Option DebugSession
  sessions : List SessionId
  current_session : Option SessionId
  counter : ℕ

namespace SessionManager

def new : SessionManager := ⟨fun _ => none, [], none, 1⟩

variable (m : SessionManager)

def next_id (timestamp : ℕ) : SessionId := ⟨timestamp, m.counter⟩

/-- The first half of `create_session`: the map lock is let go before the current session is set. -/
def register (timestamp : ℕ) (endpoint : String) (seed : SessionSeed) : SessionManager :=
  { m with
    objects := Function.update m.objects (m.next_id timestamp) (some (.new endpoint seed))
    sessions := m.next_id timestamp :: m.sessions
    counter := m.counter + 1 }

variable (id : SessionId)

def make_current : SessionManager :=
  { m with current_session := some id }

def get_session_by_id : Option SessionId :=
  if id ∈ m.sessions then some id else none

def get_current_session : Option SessionId :=
  m.current_session.bind m.get_session_by_id

/-- An explicit `session_id`, else the current session. -/
def resolve_session (session_id : Option SessionId) : Option SessionId :=
  match session_id with
  | some id => m.get_session_by_id id
  | none => m.get_current_session

/-- What a call does to a session while it has its lock. -/
def edit (f : DebugSession → DebugSession) : SessionManager :=
  { m with objects := Function.update m.objects id ((m.objects id).map f) }

def stop_tasks (s : DebugSession) : DebugSession :=
  { s with event_listener_task := none, watchdog_task := none }

/-- The first half of `remove_session`: the tasks of a session that is still in the map end. -/
def unregister : SessionManager :=
  let m := if id ∈ m.sessions then m.edit id stop_tasks else m
  { m with sessions := m.sessions.filter fun j => j ≠ id }

def clear_current : SessionManager :=
  if m.current_session = some id then { m with current_session := none } else m

end SessionManager

/-- `open_session` starts the event pump and the watchdog. -/
def start_tasks (id : SessionId) (s : DebugSession) : DebugSession :=
  { s with event_listener_task := some id, watchdog_task := some id }

/-- `handle_launch` keeps the child; with `suspend=y` the VM is held from the start. -/
def hold_child (jvm : LaunchedJvm) (suspend : Bool) (now : ℕ) (s : DebugSession) : DebugSession :=
  { s with
    launched := some jvm
    suspensions :=
      if suspend then s.suspensions.mark_suspended .manual_pause now else s.suspensions }

/-- `handle_disconnect` lets everything go that the session holds. -/
def let_go (s : DebugSession) : DebugSession :=
  { s with
    pending_step := none
    suspensions := s.suspensions.forget_all_threads.mark_resumed
    launched := none }

end Sessions

section Calls

inductive Request
  | attach (endpoint : String) (seed : SessionSeed) (session_id : Option SessionId)
  | launch (port : ℕ) (seed : SessionSeed) (session_id : Option SessionId) (jvm : LaunchedJvm)
      (suspend : Bool)
  | disconnect (session_id : Option SessionId)
  | set_current_session (session_id : Option SessionId)

/-- Where a call has got to, with what it still holds. `returned` keeps the session it opened. -/
inductive Stage
  | start
  | registered (id : SessionId)
  | current (id : SessionId)
  | guarded (id : SessionId)
  | vanished (id : SessionId)
  | unregistered (id : SessionId)
  | opened (id : SessionId)
  | resolved (id guard : SessionId)
  | named (target : SessionId)
  | locked (target : SessionId)
  | released (target : SessionId)
  | removed (target : SessionId)
  | selected (target : SessionId)
  | returned (id : Option SessionId)
  deriving DecidableEq

/-- The session a call has opened. -/
def Stage.created : Stage → Option SessionId
  | .registered id | .current id | .guarded id | .vanished id | .unregistered id | .opened id
  | .resolved id _ => some id
  | .returned id => id
  | _ => none

/-- What the step finds outside of the server: the clock, whether the connection and the checks
before it succeed, whether the session that was looked up is dead. -/
structure Outside where
  now : ℕ
  timestamp : ℕ
  connected : Bool
  dead : Bool

variable (m : SessionManager)

/-- `handle_attach` and `handle_launch` as far as `create_session`, and how the others start. -/
def begin_call (x : Outside) : Request → SessionManager × Stage
  | .attach endpoint seed _ =>
    if x.connected then (m.register x.timestamp endpoint seed, .registered (m.next_id x.timestamp))
    else (m, .returned none)
  | .launch port seed _ _ _ =>
    if x.connected then
      (m.register x.timestamp ("127.0.0.1:" ++ toString port) seed,
        .registered (m.next_id x.timestamp))
    else (m, .returned none)
  | .disconnect session_id =>
    match session_id.or m.current_session with
    | some target => (m, .named target)
    | none => (m, .returned none)
  | .set_current_session session_id =>
    match session_id.bind m.get_session_by_id with
    | some target => if x.dead then (m, .returned none) else (m, .selected target)
    | none => (m, .returned none)

/-- After `open_session`: an attach replies, a launch looks for the session to keep the child on. -/
def after_open (id : SessionId) : Request → SessionManager × Stage
  | .launch _ _ session_id _ _ =>
    match m.resolve_session session_id with
    | some guard => (m, .resolved id guard)
    | none => (m, .returned (some id))
  | _ => (m, .returned (some id))

def keep_child (x : Outside) (guard : SessionId) : Request → SessionManager
  | .launch _ _ _ jvm suspend => m.edit guard (hold_child jvm suspend x.now)
  | _ => m

/-- A call goes on to its next `await`. -/
def advance (x : Outside) (r : Request) : Stage → SessionManager × Stage
  | .start => begin_call m x r
  | .registered id => (m.make_current id, .current id)
  | .current id =>
    match m.get_session_by_id id with
    | some _ => (m, .guarded id)
    | none => (m, .vanished id)
  | .guarded id => (m.edit id (start_tasks id), .opened id)
  | .vanished id => (m.unregister id, .unregistered id)
  | .unregistered id => (m.clear_current id, .returned (some id))
  | .opened id => after_open m id r
  | .resolved id guard => (keep_child m x guard r, .returned (some id))
  | .named target =>
    match m.get_session_by_id target with
    | some _ => (m, .locked target)
    | none => (m, .released target)
  | .locked target => (m.edit target let_go, .released target)
  | .released target => (m.unregister target, .removed target)
  | .removed target => (m.clear_current target, .returned none)
  | .selected target => (m.make_current target, .returned none)
  | .returned id => (m, .returned id)

/-- The server with every call that it will ever be sent, none of them begun at first. -/
structure Server where
  manager : SessionManager
  stages : ℕ → Stage

def Server.start : Server := ⟨.new, fun _ => .start⟩

/-- Call `c` goes on. -/
def step (requests : ℕ → Request) (s : Server) (c : ℕ) (x : Outside) : Server :=
  let r := advance s.manager x (requests c) (s.stages c)
  ⟨r.1, Function.update s.stages c r.2⟩

end Calls

end JavaDebug.SessionCalls
