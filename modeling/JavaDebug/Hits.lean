import JavaDebug.Disarming

/-!
What the event listener does with one composite: the traced path, which
records every event of it and lets the thread go, and the suspending path,
which judges the composite by its first event and either surfaces it or
releases what it holds. A condition is a question put to the debuggee; its
evaluation changes no suspend count, so its outcome is taken from the wire.
-/
namespace JavaDebug.Hits

open Jdwp StopPoints Session Wire Disarming

def method_name_matches (a : Answers) (filter : Option String) (loc : Location) : Bool :=
  match filter with
  | none => true
  | some want => a.method_name loc = want

/-- The method filter a method-exit stop applies on this side of the wire. -/
def method_filter (sp : StopPoint) : Option String := sp.method_exit.bind MethodExitRequest.method

section Tallies

variable (sp : StopPoint)

def add_hit : StopPoint := { sp with hits := saturating_succ sp.hits }

def add_discarded : StopPoint :=
  match sp.armed_on with
  | .method_exit me =>
    { sp with armed_on := .method_exit { me with discarded := saturating_succ me.discarded } }
  | _ => sp

theorem add_discarded_id : (add_discarded sp).id = sp.id := by
  unfold add_discarded
  split <;> rfl

variable (req : RequestId)

/-- Rewrite the stop point that owns `req`, if any. -/
def edit_owner (f : StopPoint → StopPoint) (hf : ∀ sp, (f sp).id = sp.id) : Handler Unit :=
  edit fun s =>
    match s.owner? req with
    | none => s
    | some sp => s.edit_stop_point sp.id f hf

def record_stop_point_hit : Handler Unit :=
  edit_owner req add_hit fun _ => rfl

def record_discarded_exit : Handler Unit :=
  edit_owner req add_discarded add_discarded_id

def lower_budget : StopPoint :=
  { sp with trace_budget := sp.trace_budget.map fun n => n - 1 }

/-- The budget that is left, when the stop point has one. -/
def decrement_trace_budget : Handler (Option ℕ) := do
  match (← get).session.owner? req with
  | none => pure none
  | some sp =>
    edit fun s => s.edit_stop_point sp.id lower_budget
    pure (sp.trace_budget.map fun n => n - 1)

end Tallies

section Traced

def charge_trace_budget (req : RequestId) : Handler Unit := do
  match ← decrement_trace_budget req with
  | some 0 =>
    match ← disarm_request req with
    | some id => edit fun s => { s with traces := s.traces.note_disarm id }
    | none => pure ()
  | _ => pure ()

def exception_instance : EventKind → Option ObjectId
  | .exception _ _ exc => some exc
  | _ => none

/-- Keeping a hit out of the buffer: the wrong method, a monitor wait below its threshold, a
condition that does not hold. -/
def skips (a : Answers) (sp : StopPoint) (thread : ThreadId) (loc : Location) (details : EventKind)
    : Bool :=
  !method_name_matches a (method_filter sp) loc ||
  (sp.monitor.isSome && !a.monitor_recordable details) ||
  match sp.condition with
  | some cond => !a.condition_holds cond thread details
  | none => false

/-- The thread to let go, when the event belongs to a traced stop point, live or just removed. -/
def record_one_traced_event (e : Event) : Handler (Option ThreadId) := do
  match event_location e.details with
  | none => pure none
  | some (thread, loc) =>
    let w ← get
    match find_traced_request w.session e.request_id with
    | none =>
      if w.session.was_traced_and_disarmed e.request_id then pure (some thread) else pure none
    | some sp =>
      if !method_name_matches w.answers (method_filter sp) loc then
        record_discarded_exit e.request_id
      else
        record_stop_point_hit e.request_id
      if !skips w.answers sp thread loc e.details then
        let filed := w.session.traces.push sp.id e.request_id thread (exception_instance e.details)
        edit fun s => { s with traces := filed.2 }
        if filed.1 = .first then charge_trace_budget e.request_id
      spend_if_counted e.request_id
      pure (some thread)

/-- An event that no traced stop point owns is handled when one that is gone may have fired it. -/
theorem record_unfound {e : Event} {w : World}
    (h : find_traced_request w.session e.request_id = none) :
    (record_one_traced_event e).run w =
      (if w.session.was_traced_and_disarmed e.request_id then
        (event_location e.details).map Prod.fst else none, w) := by
  unfold record_one_traced_event
  cases event_location e.details with
  | none => exact congrArg (·, w) (ite_self none).symm
  | some p =>
    dsimp only
    rw [StateProgram.run_get_bind, h]
    dsimp only
    split <;> rfl

/-- The walk over a composite: the last thread named, and whether every event was traced. -/
def record_traced_events (handled : Option ThreadId) (all_ours : Bool) :
    List Event → Handler (Option ThreadId × Bool)
  | [] => pure (handled, all_ours)
  | e :: rest => do
    match ← record_one_traced_event e with
    | some thread => record_traced_events (some thread) all_ours rest
    | none => record_traced_events handled false rest

def try_record_trace (es : EventSet) : Handler Bool := do
  match ← record_traced_events none (!es.events.isEmpty) es.events with
  | (some thread, true) =>
    let _ ← resume_thread thread
    pure true
  | _ => pure false

end Traced

section Suspending

def release_dropped_hit (thread : ThreadId) (held_thread_only : Bool) : Handler Unit := do
  if held_thread_only then
    let _ ← resume_thread thread
  else
    let _ ← resume_all

/-- At most three other threads are asked; `none` when nothing could be read. -/
def sample_threads (hit : ThreadId) (held : List ThreadId) (sampled : ℕ) :
    List ThreadId → Handler (Option Bool)
  | [] => pure (if 0 < sampled then some true else none)
  | tid :: rest => do
    if tid = hit ∨ tid ∈ held then sample_threads hit held sampled rest
    else
      match ← suspend_count tid with
      | .error _ => pure none
      | .ok n =>
        if n = 0 then pure (some false)
        else if sampled + 1 = 3 then pure (some true)
        else sample_threads hit held (sampled + 1) rest

def another_thread_is_suspended (hit : ThreadId) : Handler (Option Bool) := do
  match ← get_all_threads with
  | .error _ => pure none
  | .ok all =>
    let held := (← get).session.suspensions.threads.rows.map ThreadSuspend.tid
    sample_threads hit held 0 all

def escalate_to_vm_suspend (thread : ThreadId) : Handler (Option FailedEscalation) := do
  match ← suspend_all with
  | .ok () => pure none
  | .error _ =>
    match ← another_thread_is_suspended thread with
    | some true => pure (some ⟨false⟩)
    | _ => pure (some ⟨true⟩)

/-- The verdict on a hit: `none` when it was dropped and released, otherwise how the escalation
to a VM-wide suspend went. -/
def judge_hit (e : Event) (thread : ThreadId) (loc : Location) (held_thread_only : Bool) :
    Handler (Option (Option FailedEscalation)) := do
  let w ← get
  let owner := w.session.owner? e.request_id
  if !method_name_matches w.answers (owner.bind method_filter) loc then
    release_dropped_hit thread held_thread_only
    record_discarded_exit e.request_id
    pure none
  else
    record_stop_point_hit e.request_id
    match owner.bind StopPoint.condition with
    | none => pure (some none)
    | some cond =>
      if w.answers.condition_holds cond thread e.details then
        if held_thread_only then
          let escalation ← escalate_to_vm_suspend thread
          pure (some escalation)
        else pure (some none)
      else
        release_dropped_hit thread held_thread_only
        pure none

variable (es : EventSet)

def hit_cause : SuspendCause :=
  match es.events.head? with
  | none => .manual_pause
  | some e => .stop_point e.request_id

def note_last_thread : Handler Unit :=
  match es.event_thread with
  | some tid => edit fun s => { s with last_thread := some tid }
  | none => pure ()

/-- The VM goes on the books, unless the escalation failed and only the hit thread is held. -/
def book_suspension (escalation : Option FailedEscalation) : Handler Unit := do
  if es.event_suspends then
    let at_ ← now
    match escalation.any FailedEscalation.vm_running, es.event_thread, es.events.head? with
    | true, some tid, some e =>
      let _ ← send (.thread_name tid)
      edit fun s => { s with
        suspensions := s.suspensions.hold_thread_for_failed_escalation tid at_ e.request_id }
    | _, _, _ =>
      edit fun s => { s with suspensions := s.suspensions.mark_suspended (hit_cause es) at_ }

/-- File the composite in the books and in the ring. -/
def surface (escalation : Option FailedEscalation) : Handler Unit := do
  note_last_thread es
  book_suspension es escalation
  edit fun s => { s with events := s.events.push es escalation }

/-- Only the first event of the composite is read, tallied and spent. -/
def store_reportable_event : Handler Unit := do
  let held_thread_only := decide (es.suspend_policy = .eventThread)
  match es.events.head? with
  | none => surface es none
  | some e =>
    match event_location e.details with
    | none => surface es none
    | some (thread, loc) =>
      match ← judge_hit e thread loc held_thread_only with
      | none => pure ()
      | some escalation => surface es escalation
      spend_if_counted e.request_id

end Suspending

end JavaDebug.Hits
