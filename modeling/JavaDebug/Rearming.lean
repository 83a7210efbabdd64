import JavaDebug.Arming
import JavaDebug.Hits

/-!
Arming again under the same id: `debug.toggle_stop_point`,
`debug.update_stop_point`, and the class-prepare events that arm deferred
breakpoints, family members and later copies of a class. Re-arming keeps the
suspend policy a line stop was first armed with. `listen` is one turn of the
event listener.
-/
namespace JavaDebug.Rearming

open Jdwp StopPoints Wire Disarming
open Arming Hits

section Rearm

/-- The request ids a re-arm obtained, and the new location data where that changes. -/
structure ReArmed where
  request_ids : List RequestId
  arm : Option BreakpointArm

def DEFAULT_TRACE_BUDGET : ℕ := 200

def refreshed_budget : Option ℕ → Option ℕ
  | some 0 => some DEFAULT_TRACE_BUDGET
  | other => other

/-- Look the class up again; when the location no longer resolves, the old one is kept. -/
def rearm_breakpoint_location (bp : LineBreakpoint) : Handler (Except Failure BreakpointArm) := do
  let signature := (← get).answers.signature_for_dotted bp.class_pattern
  match ← classes_by_signature signature with
  | .error e => pure (.error (.failed_to_arm e))
  | .ok [] => pure (.error .class_not_loaded)
  | .ok (class_id :: _) =>
    let line := if bp.line < 2 ^ 31 then some bp.line else none
    match ← resolve_bp_location class_id line bp.method with
    | .ok loc => pure (.ok { bp.arm with
        class_id := class_id, method_id := loc.method_id, bytecode_index := loc.code_index
        extra_locations := extra_in class_id loc })
    | .error _ => pure (.ok bp.arm)

variable (sp : StopPoint)

def rearm_line_breakpoint (bp : LineBreakpoint) :
    Handler (Except Failure ReArmed) := do
  match ← rearm_breakpoint_location bp with
  | .error e => pure (.error e)
  | .ok arm =>
    match ← set_breakpoint_ex (BreakpointArm.primary arm) arm.suspend_policy sp.filters with
    | .error e => pure (.error (.failed_to_arm e))
    | .ok req =>
      let extra ← arm_extra_line_locations arm.suspend_policy sp.filters arm.extra_locations
      pure (.ok ⟨req :: extra.map Prod.fst,
        some { arm with extra_locations := extra.map Prod.snd }⟩)

/-- The other kinds send one request with the policy of their `trace` flag. -/
def rearm_request (kind : RequestKind) (sp : StopPoint) (f : EventFilters) :
    Handler (Except Failure ReArmed) := do
  match ← set_request kind (suspend_policy_for sp.trace) f with
  | .error e => pure (.error (.failed_to_arm e))
  | .ok req => pure (.ok ⟨[req], none⟩)

def rearm_exception_request (er : ExceptionBreakpoint) :
    Handler (Except Failure ReArmed) := do
  if er.class_pattern = "*" then
    rearm_request (.exception none er.caught er.uncaught) sp sp.filters
  else
    match ← lookup fun a n => a.resolve_class_by_dotted n er.class_pattern with
    | .error e => pure (.error (.failed_to_arm e))
    | .ok none => pure (.error .class_not_loaded)
    | .ok (some type_id) =>
      rearm_request (.exception (some type_id) er.caught er.uncaught) sp sp.filters

def rearm_watchpoint (wp : Watchpoint) : Handler (Except Failure ReArmed) := do
  match ← lookup fun a n => a.resolve_class_by_dotted n wp.class_name with
  | .error e => pure (.error (.failed_to_arm e))
  | .ok none => pure (.error .class_not_loaded)
  | .ok (some type_id) =>
    match ← lookup fun a n => a.find_field_info n type_id wp.field_name with
    | .error e => pure (.error (.failed_to_arm e))
    | .ok none => pure (.error .no_such_field)
    | .ok (some (declaring, field, _)) =>
      rearm_request (.field_watch declaring field wp.kind) sp sp.filters

def rearm_method_exit (me : MethodExitRequest) : Handler (Except Failure ReArmed) :=
  rearm_request (.method_exit me.class_pattern me.with_return_value me.exclude_classes) sp
    sp.filters

def rearm_monitor_request (mon : MonitorStop) :
    Handler (Except Failure ReArmed) := do
  let filters : EventFilters := ⟨sp.hit_count, sp.thread_filter, none⟩
  match mon.monitor_class with
  | none => rearm_request (.monitor mon.kind none) sp filters
  | some name =>
    match ← lookup fun a n => a.resolve_monitor_class n name with
    | .error e => pure (.error (.failed_to_arm e))
    | .ok id =>
      let class_filter := if mon.kind.class_filter_tests_monitor then some id else none
      rearm_request (.monitor mon.kind class_filter) sp filters

def with_arm (on : ArmedOn) (arm : Option BreakpointArm) : ArmedOn :=
  match on, arm with
  | .line bp, some arm => .line { bp with arm := arm }
  | on, _ => on

def set_rearmed (r : ReArmed) (sp : StopPoint) : StopPoint :=
  { sp with
    request_ids := r.request_ids
    enabled := true
    spent := false
    trace_budget := refreshed_budget sp.trace_budget
    armed_on := with_arm sp.armed_on r.arm }

def rearm_requests : Handler (Except Failure ReArmed) :=
  match sp.armed_on with
  | .line bp => rearm_line_breakpoint sp bp
  | .exception er => rearm_exception_request sp er
  | .watchpoint wp => rearm_watchpoint sp wp
  | .method_exit me => rearm_method_exit sp me
  | .monitor mon => rearm_monitor_request sp mon

/-- The new ids replace the old ones, whatever those were. -/
def rearm_stop_point (id : StopId) : Handler (Except Failure Unit) := do
  match (← get).session.stop_points.get? id with
  | none => pure (.error (.not_found id))
  | some sp =>
    match ← rearm_requests sp with
    | .error e => pure (.error e)
    | .ok armed =>
      edit fun s => s.edit_stop_point id (set_rearmed armed)
      pure (.ok ())

end Rearm

section Toggle

variable (set_id : StopId)

/-- A family that is full is not watched again until a slot frees. -/
def rewatch_family (pattern : String) : Handler Unit := do
  let full := ((← get).session.pattern_sets.get? set_id).any fun s => !s.has_room
  if full then edit fun s => s.edit_pattern_set set_id fun p => { p with watch := .parked }
  else
    let watch ← family_watch pattern
    edit fun s => s.edit_pattern_set set_id fun p => { p with watch := watch }

def unwatch_family : Handler Unit := do
  match ((← get).session.pattern_sets.get? set_id).bind fun s => s.watch.request_id with
  | none => pure ()
  | some req => let _ ← clear_class_prepare req
  edit fun s => s.edit_pattern_set set_id fun p => { p with watch := .disabled }

def toggle_pattern_family (want : Bool) : Handler (Except Failure Unit) := do
  match (← get).session.pattern_sets.get? set_id with
  | none => pure (.error (.not_found set_id))
  | some set =>
    set.members.forM fun member => do
      let _ ← if want then rearm_stop_point member else disable_stop_point member
    if want then rewatch_family set_id set.class_pattern else unwatch_family set_id
    edit fun s => s.edit_pattern_set set_id fun p => { p with enabled := want }
    pure (.ok ())

def enabled_state_of (s : DebugSession) (id : StopId) : Except Failure Bool :=
  match s.stop_points.get? id with
  | some sp => .ok sp.enabled
  | none =>
    if s.pending_breakpoints.any fun p => p.bp_id = id then .error (.deferred_not_toggled id)
    else .error (.not_found id)

def check_instance_filter_still_live (id : StopId) : Handler (Except Failure Unit) := do
  match ((← get).session.stop_points.get? id).bind StopPoint.instance_filter with
  | none => pure (.ok ())
  | some oid =>
    if ← lookup fun a n => a.object_is_gone n oid then pure (.error (.object_collected id))
    else pure (.ok ())

def handle_toggle_stop_point (id : StopId) (enabled : Option Bool) :
    Handler (Except Failure Unit) := do
  match (← get).session.pattern_sets.get? id with
  | some set =>
    if enabled.getD (!set.enabled) = set.enabled then pure (.ok ())
    else toggle_pattern_family id (enabled.getD (!set.enabled))
  | none =>
    match enabled_state_of (← get).session id with
    | .error e => pure (.error e)
    | .ok current =>
      if enabled.getD (!current) = current then pure (.ok ())
      else if current then disable_stop_point id
      else
        match ← check_instance_filter_still_live id with
        | .error e => pure (.error e)
        | .ok () => rearm_stop_point id

end Toggle

section Update

inductive FieldEdit (α : Type)
  | leave
  | clear
  | set (v : α)
  deriving DecidableEq

namespace FieldEdit

variable {α : Type}

def asked : FieldEdit α → Bool
  | .leave => false
  | .clear | .set _ => true

def put (dst : Option α) : FieldEdit α → Option α
  | .leave => dst
  | .clear => none
  | .set v => some v

end FieldEdit

variable (condition : FieldEdit String)

def edit_conditions (hit_count : FieldEdit ℕ) (sp : StopPoint) : StopPoint :=
  { sp with
    condition := if sp.kind.takes_condition then condition.put sp.condition else sp.condition
    hit_count := hit_count.put sp.hit_count }

def edit_pending (hit_count : FieldEdit ℕ) (p : PendingBreakpoint) : PendingBreakpoint :=
  { p with condition := condition.put p.condition, hit_count := hit_count.put p.hit_count }

def edit_family (hit_count : FieldEdit ℕ) (s : PatternStopSet) : PatternStopSet :=
  { s with condition := condition.put s.condition, hit_count := hit_count.put s.hit_count }

def edit_first (id : StopId) (f : PendingBreakpoint → PendingBreakpoint) :
    List PendingBreakpoint → List PendingBreakpoint
  | [] => []
  | p :: rest => if p.bp_id = id then f p :: rest else p :: edit_first id f rest

variable (s : DebugSession)

variable (id : StopId)

/-- Only the record changes; the requests in the debuggee are left as they are. -/
def apply_stop_point_edit (condition : FieldEdit String) (hit_count : FieldEdit ℕ) : DebugSession :=
  if (s.stop_points.get? id).isSome then
    s.edit_stop_point id (edit_conditions condition hit_count)
  else if s.pending_breakpoints.any fun p => p.bp_id = id then
    { s with
      pending_breakpoints :=
        edit_first id (edit_pending condition hit_count) s.pending_breakpoints }
  else
    s.edit_pattern_set id (edit_family condition hit_count)

/-- What an update is checked against; a family lists the members the edit is copied to. -/
structure EditableStopPoint where
  spent : Bool
  supports_condition : Bool
  family_members : List StopId

def read_editable_stop_point : Except Failure EditableStopPoint :=
  match s.stop_points.get? id with
  | some sp => .ok ⟨sp.spent, sp.kind.takes_condition, []⟩
  | none =>
    match s.pattern_sets.get? id with
    | some set => .ok ⟨false, true, set.members⟩
    | none =>
      if s.pending_breakpoints.any fun p => p.bp_id = id then .ok ⟨false, true, []⟩
      else .error (.not_found id)

def is_armed : Bool :=
  (s.stop_points.get? id).any StopPoint.enabled

def push_hit_count_to_the_wire (targets : List StopId) : Handler Unit :=
  targets.forM fun t => do
    if is_armed (← get).session t then
      let _ ← disable_stop_point t
      let _ ← rearm_stop_point t

def handle_update_stop_point (condition : FieldEdit String) (hit_count : FieldEdit ℕ) :
    Handler (Except Failure Unit) := do
  if !condition.asked && !hit_count.asked then pure (.error (.nothing_to_update id))
  else
    match read_editable_stop_point (← get).session id with
    | .error e => pure (.error e)
    | .ok before =>
      if before.spent then pure (.error (.spent id))
      else if condition.asked && !before.supports_condition then
        pure (.error (.takes_no_condition id))
      else
        edit fun s => (id :: before.family_members).foldl
          (fun s m => apply_stop_point_edit s m condition hit_count) s
        if hit_count.asked then
          push_hit_count_to_the_wire
            (if before.family_members.isEmpty then [id] else before.family_members)
        pure (.ok ())

end Update

section ClassPrepare

variable (cp_ref : ClassId)

/-- One deferred breakpoint on its freshly loaded class; its watch becomes the re-arm watch. -/
def arm_deferred (pend : PendingBreakpoint) : Handler Unit := do
  match ← resolve_bp_location cp_ref pend.line pend.method with
  | .error _ => pure ()
  | .ok loc =>
    let o := PendingBreakpoint.options pend
    let policy := suspend_policy_for_line pend.trace pend.condition.isSome
    match ← set_breakpoint_ex ⟨cp_ref, loc.method_id, loc.code_index⟩ policy o.filters with
    | .error _ => pure ()
    | .ok req =>
      let extra ← arm_extra_line_locations policy o.filters (extra_in cp_ref loc)
      let arm : BreakpointArm := ⟨cp_ref, loc.method_id, loc.code_index, extra.map Prod.snd, policy⟩
      let rearm : RearmState :=
        .watching ⟨pend.class_prepare_request_id, pend.signature, pend.line, pend.method⟩
      let bp : LineBreakpoint := ⟨pend.class_pattern, max loc.line 0, some loc.method_name,
        pend.line, pend.method, arm, rearm⟩
      edit fun s => s.resolve_pending
        (o.stop_point pend.bp_id (req :: extra.map Prod.fst) (.line bp))

def park_family_watch_if_full (set_id : StopId) : Handler Unit := do
  match (← get).session.pattern_sets.get? set_id with
  | none => pure ()
  | some set =>
    match set.has_room, set.watch.request_id with
    | false, some req =>
      match ← clear_class_prepare req with
      | .error _ => pure ()
      | .ok () => edit fun s => s.edit_pattern_set set_id fun p => { p with watch := .parked }
    | _, _ => pure ()

def spec_from_pattern_set (set : PatternStopSet) (fqn signature : String) : BreakpointSpec where
  class_pattern := fqn
  signature := signature
  line_opt := none
  method_hint := set.method
  options := PatternStopSet.options set
  suspend_policy := suspend_policy_for_line set.trace set.condition.isSome

def is_watching (set : PatternStopSet) : Bool := set.watch.request_id.isSome

def arm_pattern_set_member (class_ref : ClassId) (signature fqn : String) (set_id : StopId) :
    Handler Unit := do
  match (← get).session.pattern_sets.get? set_id with
  | none => pure ()
  | some set =>
    if !set.has_room then
      if is_watching set then
        edit fun s => s.edit_pattern_set set_id fun p =>
          { p with skipped_at_cap := p.skipped_at_cap + 1 }
      park_family_watch_if_full set_id
    else
      let bp_id ← fresh_id "bp_"
      match ← arm_and_insert [class_ref] (spec_from_pattern_set set fqn signature) bp_id
          .covered_by_family with
      | .ok id =>
        edit fun s => s.edit_pattern_set set_id fun p => { p with members := p.members ++ [id] }
        park_family_watch_if_full set_id
      | .error .no_such_method =>
        edit fun s => s.edit_pattern_set set_id fun p => { p with no_method := p.no_method + 1 }
      | .error (.other _) => pure ()

def arm_pattern_set_members (class_ref : ClassId) (signature : String) : Handler Unit := do
  let w ← get
  let fqn := w.answers.decode_signature signature
  let candidates := (w.session.pattern_sets.rows.filter fun s =>
    s.enabled && w.answers.class_matches fqn s.class_pattern).map PatternStopSet.id
  candidates.forM (arm_pattern_set_member class_ref signature fqn)

structure LaterCopyTarget where
  bp_id : StopId
  line : Option ℤ
  method : Option String
  arm : BreakpointArm
  filters : EventFilters

/-- The armed line stops that watch for this signature and are not armed in this copy yet. -/
def later_copy_target (cp_sig : String) (sp : StopPoint) : Option LaterCopyTarget :=
  match sp.line with
  | none => none
  | some bp =>
    match bp.rearm.watch with
    | none => none
    | some w =>
      if sp.enabled && !sp.spent && w.signature = cp_sig && bp.arm.class_id ≠ cp_ref &&
          !(bp.arm.extra_locations.any fun l => l.class_id = cp_ref) then
        some ⟨sp.id, w.line, w.method, bp.arm, sp.filters⟩
      else none

def add_copy (req_ids : List RequestId) (locs : List ArmedLocation) (sp : StopPoint) : StopPoint :=
  { sp with
    request_ids := sp.request_ids ++ req_ids
    armed_on := match sp.armed_on with
      | .line bp => .line { bp with
          arm := { bp.arm with extra_locations := bp.arm.extra_locations ++ locs } }
      | on => on }

def rearm_later_copy (t : LaterCopyTarget) : Handler Unit := do
  match ← resolve_bp_location cp_ref t.line t.method with
  | .error _ => pure ()
  | .ok loc =>
    let policy := t.arm.suspend_policy
    match ← set_breakpoint_ex ⟨cp_ref, loc.method_id, loc.code_index⟩ policy t.filters with
    | .error _ => pure ()
    | .ok req =>
      let extra ← arm_extra_line_locations policy t.filters (extra_in cp_ref loc)
      edit fun s => s.edit_stop_point t.bp_id
        (add_copy (req :: extra.map Prod.fst)
          (⟨cp_ref, loc.method_id, loc.code_index⟩ :: extra.map Prod.snd))

def rearm_later_copies (cp_sig : String) : Handler Unit := do
  let targets := (← get).session.stop_points.rows.filterMap (later_copy_target cp_ref cp_sig)
  targets.forM (rearm_later_copy cp_ref)

def class_prepare_of : EventKind → Option (ThreadId × ClassId × String)
  | .class_prepare t c s => some (t, c, s)
  | _ => none

def try_arm_deferred_breakpoints (es : EventSet) : Handler Bool := do
  match es.events.findSome? fun e => class_prepare_of e.details with
  | none => pure false
  | some (cp_thread, cp_ref, cp_sig) =>
    let pending := (← get).session.pending_breakpoints.filter fun p => p.signature = cp_sig
    pending.forM (arm_deferred cp_ref)
    arm_pattern_set_members cp_ref cp_sig
    rearm_later_copies cp_ref cp_sig
    let _ ← resume_thread cp_thread
    pure true

end ClassPrepare

/-- One turn of the event listener on a composite it received. -/
def listen (es : EventSet) : Handler Unit := do
  if ← try_arm_deferred_breakpoints es then pure ()
  else if ← try_record_trace es then pure ()
  else store_reportable_event es

end JavaDebug.Rearming
