import JavaDebug.Disarming

/-!
Putting requests into the debuggee: the five arming tools, deferred
breakpoints, wildcard families, and what a class-prepare event arms. A line
stop holds one request per location, and its suspend policy is fixed here,
from the condition it has when it is armed.
-/
namespace JavaDebug.Arming

open Jdwp StopPoints Wire Disarming

/-- The options every arming tool takes. -/
structure StopOptions where
  hit_count : Option ℕ
  thread_filter : Option ThreadId
  instance_filter : Option ObjectId
  condition : Option String
  trace : Bool
  trace_expr : List String
  trace_budget : Option ℕ
  trace_frames : ℕ
  trace_max_length : Option ℕ
  deriving DecidableEq

namespace StopOptions

def filters (o : StopOptions) : EventFilters := ⟨o.hit_count, o.thread_filter, o.instance_filter⟩

/-- A freshly armed stop point. -/
def stop_point (o : StopOptions) (id : StopId) (request_ids : List RequestId) (on : ArmedOn) :
    StopPoint where
  id := id
  request_ids := request_ids
  enabled := true
  spent := false
  hit_count := o.hit_count
  hits := 0
  condition := o.condition
  trace := o.trace
  trace_expr := o.trace_expr
  trace_budget := o.trace_budget
  trace_frames := o.trace_frames
  trace_max_length := o.trace_max_length
  thread_filter := o.thread_filter
  instance_filter := o.instance_filter
  armed_on := on

end StopOptions

def PendingBreakpoint.options (p : PendingBreakpoint) : StopOptions :=
  ⟨p.hit_count, p.thread_filter, p.instance_filter, p.condition, p.trace, p.trace_expr,
    p.trace_budget, p.trace_frames, p.trace_max_length⟩

def PatternStopSet.options (s : PatternStopSet) : StopOptions :=
  ⟨s.hit_count, s.thread_filter, s.instance_filter, s.condition, s.trace, s.trace_expr,
    s.trace_budget, s.trace_frames, s.trace_max_length⟩

structure BreakpointSpec where
  class_pattern : String
  signature : String
  line_opt : Option ℤ
  method_hint : Option String
  options : StopOptions
  suspend_policy : SuspendPolicy
  deriving DecidableEq

inductive ArmError
  | no_such_method
  | other (f : Failure)
  deriving DecidableEq

def ArmError.into_failure : ArmError → Failure
  | .no_such_method => .location (.no_such_method "")
  | .other f => f

def ArmError.from_location : BpLocationError → ArmError
  | .no_such_method _ => .no_such_method
  | e => .other (.location e)

section Lines

def ArmedLocation.wire (l : ArmedLocation) : Location := ⟨l.class_id, l.method_id, l.bytecode_index⟩

def BreakpointArm.primary (a : BreakpointArm) : Location :=
  ⟨a.class_id, a.method_id, a.bytecode_index⟩

def resolve_bp_location (class_id : ClassId) (line : Option ℤ) (method : Option String) :
    Handler (Except BpLocationError ResolvedLocation) :=
  lookup fun a n => a.resolve_bp_location n class_id line method

def classes_by_signature (sig : String) : Handler (Except JdwpError (List ClassId)) :=
  lookup fun a n => a.classes_by_signature n sig

/-- The other locations a line compiles to in one copy of the class. -/
def extra_in (class_id : ClassId) (loc : ResolvedLocation) : List ArmedLocation :=
  loc.extra_code_indices.map fun i => ⟨class_id, loc.method_id, i⟩

/-- Arm every further location; one that is refused is left out, the rest go on. -/
def arm_extra_line_locations (p : SuspendPolicy) (f : EventFilters) :
    List ArmedLocation → Handler (List (RequestId × ArmedLocation))
  | [] => pure []
  | loc :: rest => do
    let sent ← set_breakpoint_ex (ArmedLocation.wire loc) p f
    let others ← arm_extra_line_locations p f rest
    pure (match sent with
      | .ok req => (req, loc) :: others
      | .error _ => others)

/-- The first copy that resolves, and the copies left over. -/
def resolve_primary_copy (all : List ClassId) (spec : BreakpointSpec) :
    List ClassId → Handler (Except ArmError (ClassId × ResolvedLocation × List ClassId))
  | [] => pure (.error .no_such_method)
  | class_id :: rest => do
    match ← resolve_bp_location class_id spec.line_opt spec.method_hint with
    | .ok loc => pure (.ok (class_id, loc, all.filter fun o => o ≠ class_id))
    | .error (.no_such_method _) => resolve_primary_copy all spec rest
    | .error e => pure (.error (.from_location e))

def resolve_other_classloader_copies (spec : BreakpointSpec) :
    List ClassId → Handler (List ArmedLocation)
  | [] => pure []
  | other :: rest => do
    let found ← resolve_bp_location other spec.line_opt spec.method_hint
    let others ← resolve_other_classloader_copies spec rest
    pure (match found with
      | .ok o => ⟨other, o.method_id, o.code_index⟩ :: extra_in other o ++ others
      | .error _ => others)

def arm_and_insert (copies : List ClassId) (spec : BreakpointSpec) (bp_id : StopId)
    (rearm : RearmState) : Handler (Except ArmError StopId) := do
  if copies.isEmpty then pure (.error (.other .class_not_loaded))
  else
    match ← resolve_primary_copy copies spec copies with
    | .error e => pure (.error e)
    | .ok (class_id, loc, other_copies) =>
      if spec.options.instance_filter.isSome && loc.is_static then
        pure (.error (.other .instance_filter_without_this))
      else
        let filters := spec.options.filters
        match ← set_breakpoint_ex ⟨class_id, loc.method_id, loc.code_index⟩
            spec.suspend_policy filters with
        | .error e => pure (.error (.other (.failed_to_arm e)))
        | .ok req =>
          let copies ← resolve_other_classloader_copies spec other_copies
          let extra ← arm_extra_line_locations spec.suspend_policy filters
            (extra_in class_id loc ++ copies)
          let arm : BreakpointArm := ⟨class_id, loc.method_id, loc.code_index,
            extra.map Prod.snd, spec.suspend_policy⟩
          let bp : LineBreakpoint := ⟨spec.class_pattern, max loc.line 0, some loc.method_name,
            spec.line_opt, spec.method_hint, arm, rearm⟩
          edit fun s => s.register_stop_point
            (spec.options.stop_point bp_id (req :: extra.map Prod.fst) (.line bp))
          pure (.ok bp_id)

def fresh_id (tag : String) : Handler StopId := do
  let (id, s) := (← get).session.next_stop_id tag
  modify fun w => { w with session := s }
  pure id

def watching (req : RequestId) (spec : BreakpointSpec) : RearmState :=
  .watching ⟨req, spec.signature, spec.line_opt, spec.method_hint⟩

variable (spec : BreakpointSpec)

/-- The class-load watch of an exact class; a refused one leaves the stop point unwatched. -/
def register_rearm_watch : Handler RearmState := do
  match ← set_class_prepare spec.class_pattern with
  | .ok req => pure (watching req spec)
  | .error _ => pure .unwatched

def pending (bp_id : StopId) (cp_req : RequestId) : PendingBreakpoint where
  bp_id := bp_id
  class_prepare_request_id := cp_req
  class_pattern := spec.class_pattern
  signature := spec.signature
  line := spec.line_opt
  method := spec.method_hint
  hit_count := spec.options.hit_count
  instance_filter := spec.options.instance_filter
  thread_filter := spec.options.thread_filter
  condition := spec.options.condition
  trace := spec.options.trace
  trace_expr := spec.options.trace_expr
  trace_budget := spec.options.trace_budget
  trace_frames := spec.options.trace_frames
  trace_max_length := spec.options.trace_max_length

/-- Watch for the class; if it loaded meanwhile, arm at once on the watch just made. -/
def defer_breakpoint (bp_id : StopId) :
    Handler (Except Failure StopId) := do
  if spec.options.instance_filter.isSome then
    pure (.error .instance_filter_on_unloaded_class)
  else
    match ← set_class_prepare spec.class_pattern with
    | .error e => pure (.error (.failed_to_arm e))
    | .ok cp_req =>
      let recheck := ((← classes_by_signature spec.signature).toOption).getD []
      if recheck.isEmpty then
        edit fun s => { s with
          pending_breakpoints := s.pending_breakpoints ++ [pending spec bp_id cp_req] }
        pure (.ok bp_id)
      else
        match ← arm_and_insert recheck spec bp_id (watching cp_req spec) with
        | .error e => pure (.error e.into_failure)
        | .ok id => pure (.ok id)

/-- One exact class name: `arm_single_named`, and the exact case of `arm_one_pattern`. -/
def arm_exact : Handler (Except Failure StopId) := do
  let bp_id ← fresh_id "bp_"
  match ← classes_by_signature spec.signature with
  | .error e => pure (.error (.failed_to_arm e))
  | .ok classes =>
    if classes.isEmpty then defer_breakpoint spec bp_id
    else
      let plan ← register_rearm_watch spec
      match ← arm_and_insert classes spec bp_id plan with
      | .error e => pure (.error e.into_failure)
      | .ok id => pure (.ok id)

end Lines

section Families

structure Armed where
  members : List StopId
  skipped : ℕ
  no_method : ℕ

/-- Arm each matching class until `max_classes` are armed. -/
def arm_members (spec : BreakpointSpec) (max_classes : ℕ) (got : Armed) :
    List (String × ClassId) → Handler Armed
  | [] => pure got
  | (fqn, type_id) :: rest => do
    if max_classes ≤ got.members.length then
      arm_members spec max_classes { got with skipped := got.skipped + 1 } rest
    else
      let signature := (← get).answers.signature_for_dotted fqn
      let bp_id ← fresh_id "bp_"
      match ← arm_and_insert [type_id] { spec with class_pattern := fqn, signature := signature }
          bp_id .covered_by_family with
      | .ok id => arm_members spec max_classes { got with members := got.members ++ [id] } rest
      | .error .no_such_method =>
        arm_members spec max_classes { got with no_method := got.no_method + 1 } rest
      | .error (.other _) => arm_members spec max_classes got rest

def family_watch (class_pattern : String) : Handler ClassLoadWatch := do
  let pattern := (← get).answers.jdwp_class_match_for class_pattern
  match ← set_class_prepare pattern with
  | .ok req => pure (.watching req)
  | .error _ => pure .failed

/-- A family that is full from the start is not watched. -/
def initial_watch (full : Bool) (class_pattern : String) : Handler ClassLoadWatch :=
  if full then pure .parked else family_watch class_pattern

variable (spec : BreakpointSpec)

def family (set_id : StopId) (watch : ClassLoadWatch) (armed : Armed) (max_classes : ℕ) :
    PatternStopSet where
  id := set_id
  class_pattern := spec.class_pattern
  watch := watch
  enabled := true
  members := armed.members
  method := spec.method_hint
  hit_count := spec.options.hit_count
  instance_filter := spec.options.instance_filter
  thread_filter := spec.options.thread_filter
  condition := spec.options.condition
  trace := spec.options.trace
  trace_expr := spec.options.trace_expr
  trace_budget := spec.options.trace_budget
  trace_frames := spec.options.trace_frames
  trace_max_length := spec.options.trace_max_length
  max_classes := max_classes
  skipped_at_cap := armed.skipped
  no_method := armed.no_method

def arm_pattern_family (index : List (String × ClassId)) (max_classes : ℕ) : Handler StopId := do
  let set_id ← fresh_id "bpset_"
  let matcher := (← get).answers.class_matches
  let hits := index.filter fun c => matcher c.1 spec.class_pattern
  let armed ← arm_members spec max_classes ⟨[], 0, 0⟩ hits
  let watch ← initial_watch (max_classes ≤ armed.members.length) spec.class_pattern
  let set := family spec set_id watch armed max_classes
  edit fun s => { s with pattern_sets := s.pattern_sets.insert set }
  pure set_id

def arm_one_pattern (index : List (String × ClassId)) (max_classes : ℕ) : Handler Unit := do
  if (← get).answers.is_wildcard spec.class_pattern then
    let _ ← arm_pattern_family spec index max_classes
  else
    let _ ← arm_exact spec

/-- `debug.set_line_stop`: a pattern that is not armed is a row of the reply, not an error. -/
def handle_set_line_stop (patterns : List String) (line : Option ℤ) (method : Option String)
    (o : StopOptions) (index : List (String × ClassId)) (max_classes : ℕ) : Handler Unit := do
  if (← get).answers.admitted then
    patterns.forM fun p => do
      let signature := (← get).answers.signature_for_dotted p
      arm_one_pattern ⟨p, signature, line, method, o,
        suspend_policy_for_line o.trace o.condition.isSome⟩ index max_classes

end Families

section OtherKinds

/-- Send one request and register the stop point it arms, of the given kind. -/
def arm_request (kind : RequestKind) (f : EventFilters) (o : StopOptions) (tag : String)
    (on : ArmedOn) : Handler (Except Failure (StopId × RequestId)) := do
  match ← set_request kind (suspend_policy_for o.trace) f with
  | .error e => pure (.error (.failed_to_arm e))
  | .ok req =>
    let id ← fresh_id tag
    edit fun s => s.register_stop_point (o.stop_point id [req] on)
    pure (.ok (id, req))

def arm_one_exception (ref_type : Option ClassId) (class_pattern : String) (caught uncaught : Bool)
    (o : StopOptions) : Handler (Except Failure (StopId × RequestId)) :=
  arm_request (.exception ref_type caught uncaught) o.filters o "exc_"
    (.exception ⟨class_pattern, caught, uncaught⟩)

def watch_tag : WatchKind → String
  | .access => "watch_access_"
  | .modify => "watch_modify_"

def arm_one_field_watch (declaring : ClassId) (field : ℕ) (is_static : Bool) (class_name : String)
    (field_name : String) (o : StopOptions) (kind : WatchKind) :
    Handler (Except Failure (StopId × RequestId)) := do
  if o.instance_filter.isSome && is_static then pure (.error .instance_filter_without_this)
  else
    arm_request (.field_watch declaring field kind) o.filters o (watch_tag kind)
      (.watchpoint ⟨kind, class_name, field_name, is_static⟩)

def arm_one_method_exit (class_pattern : String) (method : Option String) (with_return_value : Bool)
    (exclude : List String) (o : StopOptions) : Handler (Except Failure (StopId × RequestId)) :=
  arm_request (.method_exit class_pattern with_return_value exclude) o.filters o "mexit_"
    (.method_exit ⟨0, class_pattern, exclude, method, with_return_value⟩)

def monitor_tag : MonitorKind → String
  | .blocked => "mon_blocked_"
  | .acquired => "mon_acquired_"
  | .wait => "mon_wait_"
  | .waited => "mon_waited_"

structure MonitorArm where
  monitor_class : Option String
  monitor_class_id : Option ClassId
  min_duration_ms : Option ℕ

/-- A monitor stop takes no condition and no instance filter. -/
def monitor_options (o : StopOptions) : StopOptions :=
  { o with condition := none, instance_filter := none }

def arm_one_monitor (all_kinds : List MonitorKind) (arm : MonitorArm) (o : StopOptions)
    (kind : MonitorKind) : Handler (Except Failure (StopId × RequestId)) :=
  let class_filter := arm.monitor_class_id.filter fun _ => kind.class_filter_tests_monitor
  arm_request (.monitor kind class_filter) (monitor_options o).filters (monitor_options o)
    (monitor_tag kind)
    (.monitor ⟨kind, decide (kind.partner ∈ all_kinds), arm.monitor_class, arm.min_duration_ms⟩)

/-- All the kinds or none: a refusal takes back the ones already armed. -/
def arm_monitor_kinds (all_kinds : List MonitorKind) (arm : MonitorArm) (o : StopOptions)
    (armed : List (StopId × RequestId × MonitorKind)) :
    List MonitorKind → Handler (Except Failure Unit)
  | [] => pure (.ok ())
  | kind :: rest => do
    match ← arm_one_monitor all_kinds arm o kind with
    | .ok (id, req) => arm_monitor_kinds all_kinds arm o (armed ++ [(id, req, kind)]) rest
    | .error e =>
      armed.forM fun one => do
        let _ ← clear_request (.monitor one.2.2) one.2.1
        edit fun s => { s with stop_points := s.stop_points.erase one.1 }
      pure (.error e)

/-- Arm targets in turn until `max_classes` are armed; a failed one is a row of the reply. -/
def arm_targets {τ : Type} (arm : τ → Handler (Except Failure Unit)) (max_classes : ℕ) (armed : ℕ) :
    List τ → Handler Unit
  | [] => pure ()
  | t :: rest => do
    if max_classes ≤ armed then arm_targets arm max_classes armed rest
    else
      match ← arm t with
      | .ok () => arm_targets arm max_classes (armed + 1) rest
      | .error _ => arm_targets arm max_classes armed rest

def forget_ids {α : Type} (r : Except Failure α) : Except Failure Unit := r.map fun _ => ()

def handle_set_exception_stop (targets : List (String × Option ClassId)) (caught uncaught : Bool)
    (o : StopOptions) (max_classes : ℕ) : Handler (Except Failure Unit) := do
  if !caught && !uncaught then pure (.error .nothing_reported)
  else
    if (← get).answers.admitted then
      arm_targets (fun t => forget_ids <$> arm_one_exception t.2 t.1 caught uncaught o)
        max_classes 0 targets
    pure (.ok ())

/-- The watch kinds of one field, up to the first that is refused. -/
def arm_field_kinds (declaring : ClassId) (field : ℕ) (is_static : Bool) (class_name : String)
    (field_name : String) (o : StopOptions) : List WatchKind → Handler (Except Failure Unit)
  | [] => pure (.ok ())
  | kind :: rest => do
    match ← arm_one_field_watch declaring field is_static class_name field_name o kind with
    | .error e => pure (.error e)
    | .ok _ => arm_field_kinds declaring field is_static class_name field_name o rest

def arm_field_on_one_class (field_name : String) (kinds : List WatchKind) (o : StopOptions)
    (target : String × ClassId) : Handler (Except Failure Unit) := do
  match ← lookup fun a n => a.find_field_info n target.2 field_name with
  | .ok (some (declaring, field, is_static)) =>
    arm_field_kinds declaring field is_static target.1 field_name o kinds
  | .ok none => pure (.error .no_such_field)
  | .error e => pure (.error (.failed_to_arm e))

def handle_set_field_stop (targets : List (String × ClassId)) (field_name : String)
    (kinds : List WatchKind) (o : StopOptions) (max_classes : ℕ) : Handler Unit := do
  if (← get).answers.admitted then
    arm_targets (arm_field_on_one_class field_name kinds o) max_classes 0 targets

def handle_set_method_exit_stop (patterns : List String) (method : Option String)
    (with_return_value : Bool) (exclude : List String) (o : StopOptions) : Handler Unit := do
  if (← get).answers.admitted then
    patterns.forM fun p => do
      let _ ← arm_one_method_exit p method with_return_value exclude o

def handle_set_monitor_stop (kinds : List MonitorKind) (arm : MonitorArm) (o : StopOptions) :
    Handler (Except Failure Unit) := do
  if (← get).answers.admitted then arm_monitor_kinds kinds arm o [] kinds
  else pure (.ok ())

end OtherKinds

end JavaDebug.Arming
