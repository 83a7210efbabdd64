import JavaDebug.Wire

/-!
Taking requests out of the debuggee: clearing, disabling and spending a stop
point, the watchdog's disarm, families and their class-load watches, and
`debug.panic`. Each function is the handler's code without its reply text; an
error keeps only which step failed.
-/
namespace JavaDebug.Disarming

open Jdwp StopPoints Wire StateProgram

inductive Failure
  | not_found (id : StopId)
  | deferred_not_toggled (id : StopId)
  | failed_to_clear (e : JdwpError)
  | failed_to_arm (e : JdwpError)
  | class_not_loaded
  | no_such_field
  | location (e : BpLocationError)
  | instance_filter_without_this
  | instance_filter_on_unloaded_class
  | object_collected (id : StopId)
  | spent (id : StopId)
  | takes_no_condition (id : StopId)
  | nothing_to_update (id : StopId)
  | contradictory_edit
  | nothing_reported
  deriving DecidableEq

/-- Clear one request after another; the first refusal ends the walk. -/
def clear_requests (code : EventCode) : List RequestId → Handler (Except JdwpError Unit)
  | [] => pure (.ok ())
  | req :: rest => do
    match ← clear_request code req with
    | .error e => pure (.error e)
    | .ok () => clear_requests code rest

def clear_stop_point_requests (sp : StopPoint) : Handler (Except JdwpError Unit) :=
  clear_requests sp.armed_on.code sp.request_ids

def set_disabled (sp : StopPoint) : StopPoint := { sp with request_ids := [], enabled := false }

def find_traced_request (s : DebugSession) (req : RequestId) : Option StopPoint :=
  s.stop_points.rows.find? fun sp => sp.owns_request req && sp.trace

/-- The watchdog's and the trace budget's disarm: only the request that fired is remembered. -/
def disarm_request (req : RequestId) : Handler (Option StopId) := do
  if (find_traced_request (← get).session req).isSome then
    edit fun s => s.note_disarmed_traced req
  match (← get).session.owner? req with
  | none => pure none
  | some sp =>
    let _ ← clear_stop_point_requests sp
    edit fun s => s.edit_stop_point sp.id set_disabled
    pure (some sp.id)

def disable_stop_point (id : StopId) : Handler (Except Failure Unit) := do
  match (← get).session.stop_points.get? id with
  | none => pure (.error (.not_found id))
  | some sp =>
    match ← clear_stop_point_requests sp with
    | .error e => pure (.error (.failed_to_clear e))
    | .ok () =>
      edit fun s => s.edit_stop_point id set_disabled
      pure (.ok ())

def set_spent (sp : StopPoint) : StopPoint :=
  { sp with request_ids := [], enabled := false, spent := true }

/-- A counted request fired: the debuggee deleted it, so its siblings go too. -/
def spend_if_counted (req : RequestId) : Handler Unit := do
  match (← get).session.owner? req with
  | none => pure ()
  | some sp =>
    if sp.hit_count.isNone then pure ()
    else
      let survivors := sp.request_ids.filter fun r => r ≠ req
      edit fun s => (s.edit_stop_point sp.id set_spent).note_traced_in_flight sp.trace survivors
      survivors.forM fun r => do
        let _ ← clear_request .breakpoint r

section Families

def unpark_family_watch (set_id : StopId) : Handler Unit := do
  match (← get).session.pattern_sets.get? set_id with
  | none => pure ()
  | some set =>
    if set.watch ≠ .parked || !set.enabled || !set.has_room then pure ()
    else
      let pattern := (← get).answers.jdwp_class_match_for set.class_pattern
      match ← set_class_prepare pattern with
      | .ok req => edit fun s => s.edit_pattern_set set_id fun p =>
        { p with watch := .watching req }
      | .error _ => edit fun s => s.edit_pattern_set set_id fun p => { p with watch := .failed }

/-- Take `id` out of every family; a family that was full starts watching again. -/
def release_family_slot (id : StopId) : Handler Unit := do
  let freed := ((← get).session.pattern_sets.rows.filter fun set => id ∈ set.members).map
    PatternStopSet.id
  freed.forM fun set_id =>
    edit fun s => s.edit_pattern_set set_id fun p =>
      { p with members := p.members.filter fun m => m ≠ id }
  freed.forM unpark_family_watch

def clear_watch (sp : StopPoint) : Handler Unit := do
  match sp.watch_request with
  | none => pure ()
  | some req => let _ ← clear_class_prepare req

/-- `clear_one_stop_point`: only a line stop reports a refused Clear, and keeps its record. -/
def clear_one_stop_point (sp : StopPoint) : Handler (Except Failure Unit) := do
  edit fun s => s.note_traced_in_flight sp.trace sp.request_ids
  let cleared ← clear_stop_point_requests sp
  match sp.armed_on with
  | .line _ =>
    match cleared with
    | .error e => pure (.error (.failed_to_clear e))
    | .ok () =>
      clear_watch sp
      release_family_slot sp.id
      pure (.ok ())
  | .exception _ | .watchpoint _ | .method_exit _ | .monitor _ => pure (.ok ())

/-- The members' own class-prepare watches are not sent a Clear: a member is covered by the
family's watch and has none. -/
def clear_pattern_family (set : PatternStopSet) : Handler Unit := do
  match set.watch.request_id with
  | none => pure ()
  | some req => let _ ← clear_class_prepare req
  set.members.forM fun member => do
    match (← get).session.stop_points.get? member with
    | none => pure ()
    | some sp =>
      edit fun s => { s with stop_points := s.stop_points.erase member }
      edit fun s => s.note_traced_in_flight sp.trace sp.request_ids
      let _ ← clear_stop_point_requests sp

def handle_clear_stop_point (id : StopId) : Handler (Except Failure Unit) := do
  let s := (← get).session
  match s.pattern_sets.get? id with
  | some set =>
    edit fun s => { s with pattern_sets := s.pattern_sets.erase id }
    clear_pattern_family set
    pure (.ok ())
  | none =>
    match s.pending_breakpoints.find? fun p => p.bp_id = id with
    | some pb =>
      edit fun s => { s with pending_breakpoints := s.pending_breakpoints.erase pb }
      let _ ← clear_class_prepare pb.class_prepare_request_id
      pure (.ok ())
    | none =>
      match s.stop_points.get? id with
      | none => pure (.error (.not_found id))
      | some sp =>
        match ← clear_one_stop_point sp with
        | .error e => pure (.error e)
        | .ok () =>
          edit fun s => { s with stop_points := s.stop_points.erase id }
          pure (.ok ())

end Families

section Panic

def note_every_traced_request_in_flight (s : DebugSession) : DebugSession :=
  s.stop_points.rows.foldl (fun s sp => s.note_traced_in_flight sp.trace sp.request_ids) s

theorem note_every_eq (s : DebugSession) :
    ∃ q, note_every_traced_request_in_flight s = { s with disarmed_traced_requests := q } := by
  unfold note_every_traced_request_in_flight
  generalize s.stop_points.rows = rows
  induction rows generalizing s with
  | nil => exact ⟨_, rfl⟩
  | cons sp rest ih =>
    obtain ⟨q, hq⟩ := s.note_traced_in_flight_eq sp.trace sp.request_ids
    obtain ⟨q', hq'⟩ := ih (s.note_traced_in_flight sp.trace sp.request_ids)
    exact ⟨q', hq'.trans (by rw [hq])⟩

def clear_class_prepares (reqs : List RequestId) : Handler Unit :=
  reqs.forM fun req => do
    let _ ← clear_class_prepare req

def disarm_everything : Handler Unit := do
  edit note_every_traced_request_in_flight
  let _ ← clear_all_breakpoints
  clear_class_prepares ((← get).session.stop_points.rows.filterMap StopPoint.watch_request)
  let pend := (← get).session.pending_breakpoints.map PendingBreakpoint.class_prepare_request_id
  edit fun s => { s with pending_breakpoints := [] }
  clear_class_prepares pend
  let sets := (← get).session.pattern_sets.rows.filterMap fun set => set.watch.request_id
  edit fun s => { s with pattern_sets := .empty }
  clear_class_prepares sets
  let survivors := (← get).session.stop_points.rows.filter fun sp => sp.kind ≠ .line
  edit fun s => { s with stop_points := .empty }
  survivors.forM fun sp => do
    let _ ← clear_stop_point_requests sp

/-- Drop the pending single step, whose request lives in no stop point. -/
def clear_pending_step : Handler Unit := do
  match (← get).session.pending_step with
  | none => pure ()
  | some (req, _) =>
    edit fun s => { s with pending_step := none }
    let _ ← clear_request .single_step req

end Panic

section Walks

variable {P : World → Prop}

theorem clears_preserve {code : EventCode} (h : ∀ id, Preserves P (clear_request code id))
    (ids : List RequestId) : Preserves P (clear_requests code ids) := by
  induction ids with
  | nil => exact Preserves.pure _
  | cons id rest ih =>
    refine Preserves.bind (h id) fun r => ?_
    split
    · exact Preserves.pure _
    · exact ih

theorem disable_preserves {id : StopId} (h : ∀ code id, Preserves P (clear_request code id))
    (hedit : Preserves P (edit fun s => s.edit_stop_point id set_disabled)) :
    Preserves P (disable_stop_point id) := by
  refine Preserves.get_bind fun w _ => ?_
  split
  · exact Preserves.pure _
  refine Preserves.bind (clears_preserve (h _) _) fun r => ?_
  split
  · exact Preserves.pure _
  · exact Preserves.bind hedit fun _ => Preserves.pure _

end Walks

end JavaDebug.Disarming
