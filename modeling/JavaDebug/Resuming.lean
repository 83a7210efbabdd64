import JavaDebug.Hits

/-!
Suspending and resuming: `debug.pause`, `debug.continue`, the three steps,
`debug.panic`, a thread dump that suspends, the single-thread pair, and the
watchdog's tick. Suspends are counted per thread, so each path resumes in its
own way and then decides what the books and the reply say. A reply keeps what
it claims about the debuggee, not its wording.
-/
namespace JavaDebug.Resuming

open Jdwp StopPoints Session Wire Disarming

def MAX_RESUME_ATTEMPTS : ℕ := 8

/-- A count that cannot be read is taken for zero. -/
def suspend_count_or_zero (t : ThreadId) : Handler ℕ := do
  match ← suspend_count t with
  | .ok n => pure n
  | .error _ => pure 0

/-- Resume until the probe thread reads zero: how many resumes were sent, and what is left. -/
def resume_all_fully (probe : ThreadId) (issued : ℕ) :
    ℕ → Handler (Except JdwpError (ℕ × ℕ))
  | 0 => do
    let left ← suspend_count_or_zero probe
    pure (.ok (issued, left))
  | attempts + 1 => do
    match ← resume_all with
    | .error e => pure (.error e)
    | .ok () =>
      let left ← suspend_count_or_zero probe
      if left = 0 then pure (.ok (issued + 1, 0))
      else resume_all_fully probe (issued + 1) attempts

inductive ResumeNote
  | resumed
  | cleared (issued : ℕ)
  | still_suspended (issued left : ℕ)
  deriving DecidableEq

/-- The reply calls the VM running. -/
def ResumeNote.runs : ResumeNote → Bool
  | .resumed | .cleared _ => true
  | .still_suspended _ _ => false

def resume_and_verify : Handler (Except JdwpError ResumeNote) := do
  match (← get).session.last_thread with
  | none =>
    match ← resume_all with
    | .error e => pure (.error e)
    | .ok () => pure (.ok .resumed)
  | some probe =>
    match ← resume_all_fully probe 0 MAX_RESUME_ATTEMPTS with
    | .error e => pure (.error e)
    | .ok (issued, left) =>
      if 0 < left then pure (.ok (.still_suspended issued left))
      else if 1 < issued then pure (.ok (.cleared issued))
      else pure (.ok .resumed)

def edit_suspensions (f : Suspensions → Suspensions) : Handler Unit :=
  edit fun s => { s with suspensions := f s.suspensions }

section Threads

/-- Re-read every held thread: the ones that read zero are forgotten, the rest are named. -/
def verify_threads : List ThreadId → Handler (List (ThreadId × ℕ))
  | [] => pure []
  | tid :: rest => do
    let left ← suspend_count_or_zero tid
    if left = 0 then edit_suspensions fun s => s.forget_thread tid
    let still ← verify_threads rest
    pure (if left = 0 then still else (tid, left) :: still)

def verify_thread_suspends : Handler (List (ThreadId × ℕ)) := do
  verify_threads ((← get).session.suspensions.threads.rows.map ThreadSuspend.tid)

/-- Resume one thread until it reads zero; a refused resume counts as gone. -/
def resume_until_zero (tid : ThreadId) (left : ℕ) : ℕ → Handler ℕ
  | 0 => pure left
  | attempts + 1 => do
    if left = 0 then pure 0
    else
      match ← resume_thread tid with
      | .error _ => pure 0
      | .ok () =>
        let left ← suspend_count_or_zero tid
        resume_until_zero tid left attempts

def release_threads : List ThreadId → Handler (List ThreadId × List ThreadId)
  | [] => pure ([], [])
  | tid :: rest => do
    let left ← suspend_count_or_zero tid
    let left ← resume_until_zero tid left MAX_RESUME_ATTEMPTS
    if left = 0 then edit_suspensions fun s => s.forget_thread tid
    let (freed, stuck) ← release_threads rest
    pure (if left = 0 then (tid :: freed, stuck) else (freed, tid :: stuck))

def release_thread_suspends (only : Option (List ThreadId)) :
    Handler (List ThreadId × List ThreadId) := do
  let held := (← get).session.suspensions.threads.rows.map ThreadSuspend.tid
  release_threads (held.filter fun t => only.all fun ids => t ∈ ids)

inductive ThreadLiveness
  | live
  | finished
  | vanished
  | unreadable (e : JdwpError)
  deriving DecidableEq

variable (tid : ThreadId)

def classify_thread : Handler ThreadLiveness := do
  match ← get_thread_status tid with
  | .ok (status, _) => pure (if status = 0 then .finished else .live)
  | .error (.code c) => pure (if c = 20 ∨ c = 10 then .vanished else .unreadable (.code c))
  | .error .io => pure (.unreadable .io)

inductive ThreadFailure
  | gone (held : Bool)
  | unreadable (e : JdwpError)
  | refused (e : JdwpError)
  | nothing_held
  | which_thread
  deriving DecidableEq

/-- The depth read back after the suspend; `none` when it could not be read. -/
def handle_suspend_thread : Handler (Except ThreadFailure (Option ℕ)) := do
  let _ ← send (.thread_name tid)
  match ← classify_thread tid with
  | .vanished | .finished => pure (.error (.gone false))
  | .unreadable e => pure (.error (.unreadable e))
  | .live =>
    match ← suspend_thread tid with
    | .error e => pure (.error (.refused e))
    | .ok () =>
      let depth ← suspend_count tid
      let at_ ← now
      edit_suspensions fun s => s.hold_thread tid at_
      pure (.ok depth.toOption)

inductive ThreadResumeReply
  | running
  | still_suspended (left : ℕ)
  deriving DecidableEq

/-- A step pending on this thread would stop it again, so its request goes first. -/
def drop_step_of : Handler Unit := do
  match (← get).session.pending_step with
  | some (req, owner) =>
    if owner = tid then
      let _ ← clear_request .single_step req
      edit fun s => { s with pending_step := none }
  | none => pure ()

/-- The thread a resume is about: the one named, or the only one held. -/
def pick_thread (s : Suspensions) : Option ThreadId → Except ThreadFailure ThreadId
  | some tid => .ok tid
  | none =>
    match s.threads.rows with
    | [] => .error .nothing_held
    | [r] => .ok r.tid
    | _ => .error .which_thread

def resume_one_thread : Handler (Except ThreadFailure ThreadResumeReply) := do
  drop_step_of tid
  match ← resume_thread tid with
  | .error e => pure (.error (.refused e))
  | .ok () =>
    let left ← suspend_count_or_zero tid
    edit_suspensions fun s => s.release_thread tid
    pure (.ok (if left = 0 then .running else .still_suspended left))

def handle_resume_thread (thread_id : Option ThreadId) :
    Handler (Except ThreadFailure ThreadResumeReply) := do
  match pick_thread (← get).session.suspensions thread_id with
  | .error e => pure (.error e)
  | .ok tid =>
    match ← classify_thread tid with
    | .vanished | .finished =>
      let held := ((← get).session.suspensions.threads.get? tid).isSome
      edit_suspensions fun s => s.forget_thread tid
      pure (.error (.gone held))
    | .live | .unreadable _ => resume_one_thread tid

end Threads

section WholeVm

inductive PauseReply
  | already_suspended
  | paused
  deriving DecidableEq

def handle_pause : Handler (Except JdwpError PauseReply) := do
  if (← get).session.suspensions.vm.isSome then pure (.ok .already_suspended)
  else
    match ← suspend_all with
    | .error e => pure (.error e)
    | .ok () =>
      let at_ ← now
      edit_suspensions fun s => s.mark_suspended .manual_pause at_
      pure (.ok .paused)

structure ContinueReply where
  note : ResumeNote
  still_held : List (ThreadId × ℕ)
  deriving DecidableEq

def handle_continue : Handler (Except JdwpError ContinueReply) := do
  clear_pending_step
  match ← resume_and_verify with
  | .error e => pure (.error e)
  | .ok note =>
    edit_suspensions Suspensions.mark_resumed
    let held ← verify_thread_suspends
    pure (.ok ⟨note, held⟩)

inductive StepFailure
  | no_thread
  | failed_to_set (e : JdwpError)
  | failed_to_resume (e : JdwpError)
  deriving DecidableEq

def handle_step (thread_id : Option ThreadId) (depth : ℕ) (exclude only : List String) :
    Handler (Except StepFailure ThreadId) := do
  match thread_id.or (← get).session.last_thread with
  | none => pure (.error .no_thread)
  | some tid =>
    clear_pending_step
    match ← set_request (.step tid depth exclude only) .all no_filters with
    | .error e => pure (.error (.failed_to_set e))
    | .ok req =>
      edit fun s => { s with pending_step := some (req, tid) }
      edit_suspensions Suspensions.mark_resumed
      match ← resume_all with
      | .error e => pure (.error (.failed_to_resume e))
      | .ok () => pure (.ok tid)

structure PanicReply where
  note : ResumeNote
  freed : List ThreadId
  stuck : List ThreadId
  deriving DecidableEq

def handle_panic : Handler (Except JdwpError PanicReply) := do
  clear_pending_step
  disarm_everything
  match ← resume_and_verify with
  | .error e => pure (.error e)
  | .ok note =>
    edit_suspensions Suspensions.mark_resumed
    let (freed, stuck) ← release_thread_suspends none
    pure (.ok ⟨note, freed, stuck⟩)

inductive DumpReply
  | no_threads
  | not_suspended
  | verified_running (issued : ℕ)
  | still_suspended (issued left : ℕ)
  | resume_failed (e : JdwpError)
  deriving DecidableEq

/-- A dump with `suspend: true` takes one VM-wide suspend for itself, unless one is held. -/
def handle_thread_dump (suspend : Bool) : Handler (Except JdwpError DumpReply) := do
  match ← get_all_threads with
  | .error e => pure (.error e)
  | .ok all =>
    if all.isEmpty then pure (.ok .no_threads)
    else if !suspend || (← get).session.suspensions.vm.isSome then pure (.ok .not_suspended)
    else
      match ← suspend_all with
      | .error e => pure (.error e)
      | .ok () =>
        let at_ ← now
        edit_suspensions fun s => s.mark_suspended .manual_pause at_
        let rows := (← get).answers.dump_rows all
        let probe := (rows.head?.or all.head?).getD 0
        match ← resume_all_fully probe 0 MAX_RESUME_ATTEMPTS with
        | .error e => pure (.ok (.resume_failed e))
        | .ok (issued, 0) =>
          edit_suspensions Suspensions.mark_resumed
          pure (.ok (.verified_running issued))
        | .ok (issued, left) => pure (.ok (.still_suspended issued left))

end WholeVm

section Watchdog

def note_watchdog (note : WatchdogOutcome) : Handler Unit :=
  edit fun s => { s with events := s.events.note_watchdog note }

/-- What holds the VM is disarmed before the resume, so that it cannot freeze it again. -/
def disarm_cause (cause : SuspendCause) : Handler (List StopId) := do
  match cause with
  | .manual_pause => pure []
  | .stop_point req => return (← disarm_request req).toList

/-- The books change only when the resume was verified. -/
def resume_for_rescue (disarmed : List StopId) : Handler WatchdogOutcome := do
  match ← resume_and_verify with
  | .ok (.still_suspended _ left) => pure (.still_suspended left disarmed)
  | .ok _ =>
    edit_suspensions Suspensions.mark_resumed
    pure (.resumed disarmed)
  | .error _ => pure (.resume_failed disarmed)

def rescue_vm (cause : SuspendCause) : Handler WatchdogOutcome := do
  clear_pending_step
  let disarmed ← disarm_cause cause
  let outcome ← resume_for_rescue disarmed
  note_watchdog outcome
  pure outcome

def disarm_requests : List RequestId → Handler (List StopId)
  | [] => pure []
  | req :: rest => do
    let this ← disarm_request req
    let others ← disarm_requests rest
    pure (this.toList ++ others)

/-- The stop point behind a thread that is held because its escalation failed. -/
def armed_behind (s : Suspensions) (tid : ThreadId) : Option RequestId :=
  (s.threads.get? tid).bind fun r =>
    match r.hold with
    | .failed_escalation req => some req
    | .requested => none

def rescue_overdue_thread_suspends (secs : ℕ) : Handler (Option WatchdogOutcome) := do
  let s := (← get).session.suspensions
  let overdue := s.overdue_threads secs (← now)
  if overdue.isEmpty then pure none
  else
    let disarmed ← disarm_requests (overdue.filterMap (armed_behind s))
    let (freed, stuck) ← release_thread_suspends (some overdue)
    let outcome : WatchdogOutcome :=
      if stuck.isEmpty then .released freed disarmed else .threads_stuck freed stuck disarmed
    note_watchdog outcome
    pure (some outcome)

def rescue_overdue_vm (secs : ℕ) : Handler (Option WatchdogOutcome) := do
  match (← get).session.suspensions.vm with
  | none => pure none
  | some vm =>
    if secs ≤ (← now) - vm.since then
      let outcome ← rescue_vm vm.cause
      pure (some outcome)
    else pure none

/-- One turn of the watchdog's loop, for a limit of `secs` seconds: the alerts it raises. -/
def watchdog_tick (secs : ℕ) : Handler (Option WatchdogOutcome × Option WatchdogOutcome) := do
  let vm_alert ← rescue_overdue_vm secs
  let thread_alert ← rescue_overdue_thread_suspends secs
  pure (vm_alert, thread_alert)

end Watchdog

end JavaDebug.Resuming
