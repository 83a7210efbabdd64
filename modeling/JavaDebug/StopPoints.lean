import JavaDebug.Jdwp
import JavaDebug.Table

/-!
The records in which a session remembers what it has armed: stop points of the
five kinds, deferred breakpoints, and wildcard families. Display-only data
(timing costs, source drift, loader names) is left out. An id is the source's
string with its two halves kept apart.
-/
namespace JavaDebug.StopPoints

open Jdwp

/-- The string `tag ++ seq`; the counter alone makes it unique. -/
structure StopId where
  tag : String
  seq : ℕ
  deriving DecidableEq

inductive StopPointKind
  | line
  | exception
  | watchpoint
  | method_exit
  | monitor
  deriving DecidableEq

def StopPointKind.takes_condition (k : StopPointKind) : Bool := k ≠ .monitor

structure ArmedLocation where
  class_id : ClassId
  method_id : ℕ
  bytecode_index : ℕ
  deriving DecidableEq

/-- Where a line stop is armed, and the policy every one of its requests is sent with. -/
structure BreakpointArm where
  class_id : ClassId
  method_id : ℕ
  bytecode_index : ℕ
  extra_locations : List ArmedLocation
  suspend_policy : SuspendPolicy
  deriving DecidableEq

structure ReArmWatch where
  request_id : RequestId
  signature : String
  line : Option ℤ
  method : Option String
  deriving DecidableEq

inductive RearmState
  | watching (w : ReArmWatch)
  | covered_by_family
  | unwatched
  deriving DecidableEq

def RearmState.watch : RearmState → Option ReArmWatch
  | .watching w => some w
  | .covered_by_family | .unwatched => none

structure LineBreakpoint where
  class_pattern : String
  line : ℤ
  method : Option String
  arm_line : Option ℤ
  arm_method : Option String
  arm : BreakpointArm
  rearm : RearmState
  deriving DecidableEq

structure ExceptionBreakpoint where
  class_pattern : String
  caught : Bool
  uncaught : Bool
  deriving DecidableEq

structure Watchpoint where
  kind : WatchKind
  class_name : String
  field_name : String
  is_static : Bool
  deriving DecidableEq

structure MethodExitRequest where
  discarded : ℕ
  class_pattern : String
  exclude_classes : List String
  method : Option String
  with_return_value : Bool
  deriving DecidableEq

structure MonitorStop where
  kind : MonitorKind
  paired : Bool
  monitor_class : Option String
  min_duration_ms : Option ℕ
  deriving DecidableEq

inductive ArmedOn
  | line (bp : LineBreakpoint)
  | exception (er : ExceptionBreakpoint)
  | watchpoint (wp : Watchpoint)
  | method_exit (me : MethodExitRequest)
  | monitor (mon : MonitorStop)
  deriving DecidableEq

namespace ArmedOn

def kind : ArmedOn → StopPointKind
  | .line _ => .line
  | .exception _ => .exception
  | .watchpoint _ => .watchpoint
  | .method_exit _ => .method_exit
  | .monitor _ => .monitor

/-- The event kind `clear_stop_point_requests` sends with each Clear. -/
def code : ArmedOn → EventCode
  | .line _ => .breakpoint
  | .exception _ => .exception
  | .watchpoint w => w.kind.event_kind
  | .method_exit m => method_exit_event_kind m.with_return_value
  | .monitor m => .monitor m.kind

end ArmedOn

structure StopPoint where
  id : StopId
  request_ids : List RequestId
  enabled : Bool
  spent : Bool
  hit_count : Option ℕ
  hits : ℕ
  condition : Option String
  trace : Bool
  trace_expr : List String
  trace_budget : Option ℕ
  trace_frames : ℕ
  trace_max_length : Option ℕ
  thread_filter : Option ThreadId
  instance_filter : Option ObjectId
  armed_on : ArmedOn
  deriving DecidableEq

namespace StopPoint

variable (sp : StopPoint)

def kind : StopPointKind := sp.armed_on.kind

def owns_request (req : RequestId) : Bool := req ∈ sp.request_ids

def line : Option LineBreakpoint :=
  match sp.armed_on with
  | .line bp => some bp
  | _ => none

def method_exit : Option MethodExitRequest :=
  match sp.armed_on with
  | .method_exit me => some me
  | _ => none

def monitor : Option MonitorStop :=
  match sp.armed_on with
  | .monitor mon => some mon
  | _ => none

/-- The id of the class-prepare request that re-arms later copies of the class. -/
def watch_request : Option RequestId :=
  sp.line.bind fun bp => bp.rearm.watch.map ReArmWatch.request_id

def filters : EventFilters :=
  ⟨sp.hit_count, sp.thread_filter, sp.instance_filter⟩

end StopPoint

structure PendingBreakpoint where
  bp_id : StopId
  class_prepare_request_id : RequestId
  class_pattern : String
  signature : String
  line : Option ℤ
  method : Option String
  hit_count : Option ℕ
  instance_filter : Option ObjectId
  thread_filter : Option ThreadId
  condition : Option String
  trace : Bool
  trace_expr : List String
  trace_budget : Option ℕ
  trace_frames : ℕ
  trace_max_length : Option ℕ
  deriving DecidableEq

inductive ClassLoadWatch
  | watching (req : RequestId)
  | parked
  | disabled
  | failed
  deriving DecidableEq

def ClassLoadWatch.request_id : ClassLoadWatch → Option RequestId
  | .watching req => some req
  | .parked | .disabled | .failed => none

structure PatternStopSet where
  id : StopId
  class_pattern : String
  watch : ClassLoadWatch
  enabled : Bool
  members : List StopId
  method : Option String
  hit_count : Option ℕ
  instance_filter : Option ObjectId
  thread_filter : Option ThreadId
  condition : Option String
  trace : Bool
  trace_expr : List String
  trace_budget : Option ℕ
  trace_frames : ℕ
  trace_max_length : Option ℕ
  max_classes : ℕ
  skipped_at_cap : ℕ
  no_method : ℕ
  deriving DecidableEq

def PatternStopSet.has_room (s : PatternStopSet) : Bool := s.members.length < s.max_classes

/-- A traced stop holds the hit thread while it is recorded; a suspending one holds the VM. -/
def suspend_policy_for (trace : Bool) : SuspendPolicy :=
  if trace then .eventThread else .all

def suspend_policy_for_line (trace conditional : Bool) : SuspendPolicy :=
  if conditional then .eventThread else suspend_policy_for trace

theorem suspend_policy_for_line_ne_none (trace conditional : Bool) :
    suspend_policy_for_line trace conditional ≠ .none := by
  cases trace <;> cases conditional <;> decide

theorem suspend_policy_for_ne_none (trace : Bool) : suspend_policy_for trace ≠ .none :=
  suspend_policy_for_line_ne_none trace false

end JavaDebug.StopPoints
