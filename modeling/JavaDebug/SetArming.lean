import JavaDebug.CurrentSessions
import JavaDebug.SetTexts

/-!
A stop-point set that is armed while other calls open, close and choose sessions. The
session is looked up once before the first entry, and again by the tool of every entry,
from the arguments that entry is given: its own `session_id`, else the one of the call,
else none, which is whatever session is current by then.
-/
namespace JavaDebug.SetArming

open SessionCalls SetTexts

section Arming

def NO_SESSION_REFUSAL : String := "No active debug session. Use debug.attach first."

inductive EventPump
  | unstarted
  | running
  | ended
  deriving DecidableEq

def event_pump (s : DebugSession) (finished : Bool) : EventPump :=
  match s.event_listener_task with
  | none => .unstarted
  | some _ => if finished then .ended else .running

def no_event_pump_refusal (endpoint : String) : EventPump → String
  | .running => ""
  | .ended =>
    "The JVM at " ++ endpoint ++ " is gone — its event pump exited when the connection closed, " ++
    "so there is nothing left to arm a stop point in. Nothing was armed and nothing was sent. " ++
    "debug.list_sessions marks this session DEAD; debug.disconnect removes it, and debug.attach " ++
    "opens a session against a JVM that is running."
  | .unstarted =>
    "The session attached to " ++ endpoint ++ " has no event pump — nothing is reading this " ++
    "JVM's events, so a stop point armed on it would suspend the debuggee at its first hit and " ++
    "stay that way, whatever trace says. Nothing was armed and nothing was sent. Use " ++
    "debug.disconnect on it and debug.attach again; debug.list_sessions marks it NO EVENT PUMP."

/-- `get` on arguments that are no object finds nothing. -/
def get (args : Value) (key : String) : Option Value := args.as_object.bind (Map.get key)

/-- The session that a text names, if it is the text of an id. -/
abbrev Names := String → Option SessionId

def resolve_session (names : Names) (m : SessionManager) (session_id : Option Value) :
    Option SessionId :=
  match session_id.bind Value.as_str with
  | some sid => (names sid).bind m.get_session_by_id
  | none => m.get_current_session

def route_to_session (args : Value) (session_id : Option Value) : Value :=
  match args, session_id with
  | .object o, some sid =>
    .object (if (Map.get "session_id" o).isSome then o else Map.insert "session_id" sid o)
  | _, _ => args

inductive Outcome
  | armed
  | deferred
  deriving DecidableEq

inductive ArmOutcome
  | armed
  | deferred
  | refused (why : String)
  | skipped_disabled
  deriving DecidableEq

def Outcome.row : Outcome → ArmOutcome
  | .armed => .armed
  | .deferred => .deferred

/-- Where the call is; what it holds is the session that was found. -/
inductive ArmStage
  | start
  | found (session : SessionId)
  | entry (i : ℕ)
  | entry_found (i : ℕ) (session : SessionId)
  | entry_guarded (i : ℕ) (session : SessionId)
  | replied
  | refused (why : String)

structure Arming where
  entry : ℕ
  session : SessionId
  outcome : Outcome

/-- The call, with the rows of its reply, and, for the record, the session it resolved at its
start, what its entries armed, and the map and the pointer that each entry's tool looked at. -/
structure ArmCall where
  stage : ArmStage
  session : Option SessionId
  outcomes : List (ℕ × ArmOutcome)
  suspending : ℕ
  lookups : List (ℕ × SessionManager)
  armings : List Arming

def ArmCall.new : ArmCall := ⟨.start, none, [], 0, [], []⟩

/-- What a step finds: what the tool says to its arguments, whether the event pump has ended, and
what the tool does in the session it has locked. -/
structure Found where
  parsed : Except String Unit
  finished : Bool
  body : Except String Outcome

/-- The refusal of `require_session_for_arming` once the session is found. -/
def pump_refusal (m : SessionManager) (x : Found) (session : SessionId) : Option String :=
  (m.objects session).bind fun s =>
    match event_pump s x.finished with
    | .running => none
    | pump => some (no_event_pump_refusal s.endpoint pump)

namespace ArmCall

def row (a : ArmCall) (i : ℕ) (outcome : ArmOutcome) : ArmCall :=
  { a with stage := .entry (i + 1), outcomes := a.outcomes ++ [(i, outcome)] }

def counted (a : ArmCall) (e : SetEntry) : ArmCall :=
  if (get e.args "trace").bind Value.as_bool = some false then
    { a with suspending := a.suspending + 1 }
  else a

/-- The tool of an entry, as far as its own lookup of the session. -/
def dispatch_armable (names : Names) (session_id : Option Value) (m : SessionManager) (x : Found)
    (a : ArmCall) (i : ℕ) (e : SetEntry) : ArmCall :=
  if e.tool ∈ ARMABLE_TOOLS then
    match x.parsed with
    | .error why => a.row i (.refused why)
    | .ok () =>
      let a := { a with lookups := a.lookups ++ [(i, m)] }
      match resolve_session names m (get (route_to_session e.args session_id) "session_id") with
      | none => a.row i (.refused NO_SESSION_REFUSAL)
      | some session => { a with stage := .entry_found i session }
  else a.row i (.refused ("`" ++ e.tool ++ "` is not a tool this build can arm."))

def advance (names : Names) (set : Except String (List SetEntry)) (session_id : Option Value)
    (m : SessionManager) (x : Found) (a : ArmCall) : ArmCall :=
  match a.stage with
  | .start =>
    match set with
    | .error why => { a with stage := .refused why }
    | .ok _ =>
      match resolve_session names m session_id with
      | none => { a with stage := .refused NO_SESSION_REFUSAL }
      | some session => { a with stage := .found session, session := some session }
  | .found session =>
    match pump_refusal m x session with
    | some why => { a with stage := .refused why }
    | none => { a with stage := .entry 0 }
  | .entry i =>
    match (set.toOption.getD [])[i]? with
    | none => { a with stage := .replied }
    | some e =>
      if e.enabled then (a.counted e).dispatch_armable names session_id m x i e
      else a.row i .skipped_disabled
  | .entry_found i session =>
    match pump_refusal m x session with
    | some why => a.row i (.refused why)
    | none => { a with stage := .entry_guarded i session }
  | .entry_guarded i session =>
    match x.body with
    | .error why => a.row i (.refused why)
    | .ok outcome =>
      { a with armings := a.armings ++ [Arming.mk i session outcome] }.row i outcome.row
  | .replied => a
  | .refused _ => a

end ArmCall

/-- One call that arms a set, among the calls that open, close and choose sessions. -/
structure World where
  server : Server
  arm : ArmCall

inductive Turn
  | session (c : ℕ) (x : Outside)
  | arm (x : Found)

/-- What the server is sent: the other calls, and the text of a set, or what is wrong with the
arguments it came in, with the `session_id` of its call. -/
structure Sent where
  requests : ℕ → SessionCalls.Request
  args : Except String String
  session_id : Option Value

def Sent.set (sent : Sent) (serde : SerdeJson) : Except String (List SetEntry) :=
  sent.args.bind (parse serde)

def step (names : Names) (serde : SerdeJson) (sent : Sent) (w : World) : Turn → World
  | .session c x => { w with server := SessionCalls.step sent.requests w.server c x }
  | .arm x =>
    { w with arm := w.arm.advance names (sent.set serde) sent.session_id w.server.manager x }

def run (names : Names) (serde : SerdeJson) (sent : Sent) (turns : List Turn) : World :=
  turns.foldl (step names serde sent) ⟨.start, .new⟩

end Arming

end JavaDebug.SetArming
