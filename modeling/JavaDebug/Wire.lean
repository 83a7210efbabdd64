import JavaDebug.Session

/-!
The programs a handler is made of. `World` joins the session's records to the
debuggee; `send` logs a command and lets the wire refuse it; every function of
the connection that the handlers call is one `send` followed by its effect on
the debuggee. A refused command has no effect.
-/
namespace JavaDebug.Wire

open Jdwp StopPoints Session StateProgram

inductive Command
  | suspend_all
  | resume_all
  | suspend_thread (t : ThreadId)
  | resume_thread (t : ThreadId)
  | suspend_count (t : ThreadId)
  | thread_name (t : ThreadId)
  | thread_status (t : ThreadId)
  | all_threads
  | set (kind : RequestKind) (policy : SuspendPolicy) (filters : EventFilters)
  | clear (code : EventCode) (id : RequestId)
  | clear_all_breakpoints
  | lookup
  deriving DecidableEq

inductive BpLocationError
  | no_such_method (name : String)
  | no_such_line (line : ℤ)
  | unreadable
  deriving DecidableEq

structure ResolvedLocation where
  method_id : ℕ
  method_name : String
  is_static : Bool
  code_index : ℕ
  extra_code_indices : List ℕ
  line : ℤ
  deriving DecidableEq

/-- Everything the debuggee and the clock decide during one operation. The index of a lookup is
the number of commands sent before it, so the same question may be answered differently later.
`admitted` says that a request passed the checks made before the session is touched. -/
structure Answers where
  refused : Command → ℕ → Option JdwpError
  zombie : ThreadId → Bool
  classes_by_signature : ℕ → String → Except JdwpError (List ClassId)
  resolve_bp_location :
    ℕ → ClassId → Option ℤ → Option String → Except BpLocationError ResolvedLocation
  resolve_class_by_dotted : ℕ → String → Except JdwpError (Option ClassId)
  find_field_info : ℕ → ClassId → String → Except JdwpError (Option (ClassId × ℕ × Bool))
  resolve_monitor_class : ℕ → String → Except JdwpError ClassId
  object_is_gone : ℕ → ObjectId → Bool
  method_name : Location → String
  condition_holds : String → ThreadId → EventKind → Bool
  monitor_recordable : EventKind → Bool
  admitted : Bool
  is_wildcard : String → Bool
  signature_for_dotted : String → String
  decode_signature : String → String
  class_matches : String → String → Bool
  jdwp_class_match_for : String → String
  dump_rows : List ThreadId → List ThreadId
  now : ℕ

structure DebugSession where
  stop_points : Table StopPoint.id
  pending_breakpoints : List PendingBreakpoint
  disarmed_traced_requests : List RequestId
  stop_seq : ℕ
  pattern_sets : Table PatternStopSet.id
  pending_step : Option (RequestId × ThreadId)
  last_thread : Option ThreadId
  suspensions : Suspensions
  events : EventRing
  traces : TraceBuffer

namespace DebugSession

def new : DebugSession :=
  ⟨.empty, [], [], 0, .empty, none, none, .new, .new, .new⟩

variable (s : DebugSession)

variable (req : RequestId)

/-- The stop point an event belongs to: the first one found that owns its request. -/
def owner? : Option StopPoint :=
  s.stop_points.rows.find? fun sp => sp.owns_request req

def owns_live_request : Bool :=
  (s.stop_points.rows.any fun sp => sp.owns_request req) ||
  (s.pending_breakpoints.any fun p => p.class_prepare_request_id = req) ||
  (s.stop_points.rows.any fun sp => sp.watch_request = some req)

def was_traced_and_disarmed : Bool :=
  req ∈ s.disarmed_traced_requests ∧ ¬ s.owns_live_request req

/-- `remember_bounded` at `MAX_DISARMED_TRACED`: the oldest id makes room. -/
def note_disarmed_traced : DebugSession :=
  let q := s.disarmed_traced_requests
  if req ∈ q then s
  else
    let q := if MAX_DISARMED_TRACED ≤ q.length then q.drop 1 else q
    { s with disarmed_traced_requests := q ++ [req] }

def note_traced_in_flight (traced : Bool) (reqs : List RequestId) : DebugSession :=
  if traced then reqs.foldl note_disarmed_traced s else s

theorem note_disarmed_traced_eq :
    ∃ q, s.note_disarmed_traced req = { s with disarmed_traced_requests := q } := by
  unfold note_disarmed_traced
  by_cases h : req ∈ s.disarmed_traced_requests
  · exact ⟨_, if_pos h⟩
  · exact ⟨_, if_neg h⟩

theorem note_traced_in_flight_eq (traced : Bool) (reqs : List RequestId) :
    ∃ q, s.note_traced_in_flight traced reqs = { s with disarmed_traced_requests := q } := by
  cases traced with
  | false => exact ⟨_, rfl⟩
  | true =>
    change ∃ q, reqs.foldl note_disarmed_traced s = { s with disarmed_traced_requests := q }
    induction reqs generalizing s with
    | nil => exact ⟨_, rfl⟩
    | cons r rest ih =>
      obtain ⟨q, hq⟩ := note_disarmed_traced_eq s r
      obtain ⟨q', hq'⟩ := ih (s.note_disarmed_traced r)
      exact ⟨q', hq'.trans (by rw [hq])⟩

def next_stop_id (tag : String) : StopId × DebugSession :=
  (⟨tag, s.stop_seq + 1⟩, { s with stop_seq := s.stop_seq + 1 })

def register_stop_point (sp : StopPoint) : DebugSession :=
  { s with stop_points := s.stop_points.insert sp }

def resolve_pending (armed : StopPoint) : DebugSession :=
  { s with pending_breakpoints := s.pending_breakpoints.filter fun p => p.bp_id ≠ armed.id }
    |>.register_stop_point armed

/-- Rewrite the stop point under `id`, if there is one. -/
def edit_stop_point (id : StopId) (f : StopPoint → StopPoint)
    (hf : ∀ sp, (f sp).id = sp.id := by intro _; rfl) : DebugSession :=
  { s with stop_points := s.stop_points.modify id f hf }

def edit_pattern_set (id : StopId) (f : PatternStopSet → PatternStopSet)
    (hf : ∀ set, (f set).id = set.id := by intro _; rfl) : DebugSession :=
  { s with pattern_sets := s.pattern_sets.modify id f hf }

end DebugSession

structure World where
  session : DebugSession
  jvm : Jvm
  queue : List EventSet
  answers : Answers
  sent : List Command

abbrev Handler := StateM World

/-- Log a command; the wire decides whether the debuggee carries it out. -/
def send (c : Command) : Handler (Except JdwpError Unit) := do
  let w ← get
  set { w with sent := w.sent ++ [c] }
  match w.answers.refused c (w.sent.count c) with
  | some e => pure (.error e)
  | none => pure (.ok ())

/-- Send a command whose acceptance changes the debuggee by `f`. -/
def perform (c : Command) (f : Jvm → Jvm) : Handler (Except JdwpError Unit) := do
  match ← send c with
  | .error e => pure (.error e)
  | .ok () =>
    modify fun w => { w with jvm := f w.jvm }
    pure (.ok ())

def lookup {α : Type} (f : Answers → ℕ → α) : Handler α := do
  let w ← get
  set { w with sent := w.sent ++ [Command.lookup] }
  pure (f w.answers w.sent.length)

def edit (f : DebugSession → DebugSession) : Handler Unit :=
  modify fun w => { w with session := f w.session }

namespace World

def log (w : World) (c : Command) : World := { w with sent := w.sent ++ [c] }

/-- The wire's verdict on the next occurrence of `c`. -/
def refuses (w : World) (c : Command) : Option JdwpError :=
  w.answers.refused c (w.sent.count c)

/-- A new operation starts: its own answers, an empty log. -/
def begin (w : World) (a : Answers) : World := { w with answers := a, sent := [] }

end World

theorem send_run (c : Command) (w : World) :
    (send c).run w =
      (match w.refuses c with
        | some e => .error e
        | none => .ok (), w.log c) := by
  unfold send World.refuses World.log
  simp only [run_bind, run_get]
  cases w.answers.refused c (w.sent.count c) <;> rfl

theorem perform_run (c : Command) (f : Jvm → Jvm) (w : World) :
    (perform c f).run w =
      match w.refuses c with
      | some e => (.error e, w.log c)
      | none => (.ok (), { w.log c with jvm := f w.jvm }) := by
  simp only [perform, run_bind, send_run]
  cases w.refuses c <;> rfl

theorem lookup_run {α : Type} (f : Answers → ℕ → α) (w : World) :
    (lookup f).run w = (f w.answers w.sent.length, w.log .lookup) := rfl

theorem edit_run (f : DebugSession → DebugSession) (w : World) :
    (edit f).run w = (⟨⟩, { w with session := f w.session }) := rfl

section Connection

def suspend_all : Handler (Except JdwpError Unit) := perform .suspend_all Jvm.suspend_all

def resume_all : Handler (Except JdwpError Unit) := perform .resume_all Jvm.resume_all

variable (t : ThreadId)

def suspend_thread : Handler (Except JdwpError Unit) :=
  perform (.suspend_thread t) fun j => j.suspend_thread t

def resume_thread : Handler (Except JdwpError Unit) :=
  perform (.resume_thread t) fun j => j.resume_thread t

def suspend_count : Handler (Except JdwpError ℕ) := do
  match ← send (.suspend_count t) with
  | .error e => pure (.error e)
  | .ok () => pure (.ok ((← get).jvm.suspend_count t))

def get_all_threads : Handler (Except JdwpError (List ThreadId)) := do
  match ← send .all_threads with
  | .error e => pure (.error e)
  | .ok () => pure (.ok (← get).jvm.threads)

/-- Status 0 is ZOMBIE; 1 stands for every other one. Error 20 is INVALID_OBJECT. -/
def get_thread_status : Handler (Except JdwpError (ℕ × ℕ)) := do
  match ← send (.thread_status t) with
  | .error e => pure (.error e)
  | .ok () =>
    let w ← get
    if t ∈ w.jvm.threads then pure (.ok (1, if w.jvm.suspend_count t = 0 then 0 else 1))
    else if w.answers.zombie t then pure (.ok (0, 0))
    else pure (.error (.code 20))

def set_request (k : RequestKind) (p : SuspendPolicy) (f : EventFilters) :
    Handler (Except JdwpError RequestId) := do
  match ← send (.set k p f) with
  | .error e => pure (.error e)
  | .ok () =>
    let id := (← get).jvm.next_request
    modify fun w => { w with jvm := w.jvm.set_request k p f }
    pure (.ok id)

def clear_request (code : EventCode) (id : RequestId) : Handler (Except JdwpError Unit) :=
  perform (.clear code id) fun j => j.clear_request (code, id)

def clear_all_breakpoints : Handler (Except JdwpError Unit) :=
  perform .clear_all_breakpoints Jvm.clear_all_breakpoints

def no_filters : EventFilters := ⟨none, none, none⟩

def set_class_prepare (pattern : String) : Handler (Except JdwpError RequestId) :=
  set_request (.class_prepare pattern) .eventThread no_filters

def clear_class_prepare (id : RequestId) : Handler (Except JdwpError Unit) :=
  clear_request .class_prepare id

def set_breakpoint_ex (loc : Location) (p : SuspendPolicy) (f : EventFilters) :
    Handler (Except JdwpError RequestId) :=
  set_request (.breakpoint loc) p f

end Connection

theorem set_request_run (k : RequestKind) (p : SuspendPolicy) (f : EventFilters) (w : World) :
    (set_request k p f).run w =
      match w.refuses (.set k p f) with
      | some e => (.error e, w.log (.set k p f))
      | none => (.ok w.jvm.next_request,
          { w.log (.set k p f) with jvm := w.jvm.set_request k p f }) := by
  simp only [set_request, run_bind, send_run]
  cases w.refuses (.set k p f) <;> rfl

theorem suspend_count_run (t : ThreadId) (w : World) :
    (suspend_count t).run w =
      match w.refuses (.suspend_count t) with
      | some e => (.error e, w.log (.suspend_count t))
      | none => (.ok (w.jvm.suspend_count t), w.log (.suspend_count t)) := by
  simp only [suspend_count, run_bind, send_run]
  cases w.refuses (.suspend_count t) <;> rfl

def now : Handler ℕ := do return (← get).answers.now

end JavaDebug.Wire
