import Mathlib.Data.List.Sort
import Mathlib.Data.Prod.Lex
import Mathlib.Data.String.Basic
import JavaDebug.Grouping
import JavaDebug.Rearming

/-!
The stop-point set that `debug.list_stop_points {export: true}` returns: one
entry for each call that would arm the session again. A wildcard family is one
entry, its members none; monitor stops that agree on their settings share one.
An id stands with the collection it is looked up in; the reply shows the ids of
an entry joined by "+". An argument that is absent is `none`, and an absent
`trace_expr` is the empty list.
-/
namespace JavaDebug.StopPointSet

open Jdwp StopPoints Wire Grouping

section Format

inductive RecordId
  | family (id : StopId)
  | pending (id : StopId)
  | stop_point (id : StopId)
  deriving DecidableEq

/-- The arguments by which a call says where it arms. -/
inductive Locator
  | line_stop (class_pattern : String) (line : Option ℤ) (method : Option String)
      (max_classes : Option ℕ)
  | exception_stop (class_pattern : Option String) (caught uncaught : Bool)
  | field_stop (class_name field_name : String) (modify access : Bool)
  | method_exit_stop (class_pattern : String) (method : Option String)
      (exclude_classes : List String)
  | monitor_stop (kinds : List MonitorKind) (monitor_class : Option String)
      (min_duration_ms : Option ℕ)
  deriving DecidableEq

def Locator.tool : Locator → String
  | .line_stop _ _ _ _ => "debug.set_line_stop"
  | .exception_stop _ _ _ => "debug.set_exception_stop"
  | .field_stop _ _ _ _ => "debug.set_field_stop"
  | .method_exit_stop _ _ _ => "debug.set_method_exit_stop"
  | .monitor_stop _ _ _ => "debug.set_monitor_stop"

/-- The arguments that every kind shares. -/
structure CommonArgs where
  trace : Bool
  trace_frames : ℕ
  hit_count : Option ℕ
  condition : Option String
  trace_expr : List String
  trace_max_hits : Option ℕ
  trace_max_length : Option ℕ
  deriving DecidableEq

structure Entry where
  from_ : List RecordId
  enabled : Bool
  locator : Locator
  args : CommonArgs
  deriving DecidableEq

structure Dropped where
  instance_ : List RecordId
  thread : List RecordId
  undescribable : List RecordId
  deriving DecidableEq

structure Builder where
  entries : List Entry
  dropped : Dropped
  disabled : ℕ
  suspending : ℕ
  deriving DecidableEq

def FORMAT_VERSION : ℕ := 1

structure SetValue where
  version : ℕ
  entries : List Entry
  deriving DecidableEq

structure Export where
  set : SetValue
  entries : ℕ
  disabled : ℕ
  suspending : ℕ
  dropped : Dropped
  deriving DecidableEq

end Format

section Order

def id_order (id : StopId) : String ×ₗ ℕ := toLex (id.tag, id.seq)

variable {ν : Type}

def sorted_by_id (id : ν → StopId) (rows : List ν) : List ν :=
  rows.insertionSort fun a b => id_order (id a) ≤ id_order (id b)

theorem sorted_by_id_perm (id : ν → StopId) (rows : List ν) :
    (sorted_by_id id rows).Perm rows := List.perm_insertionSort _ _

def sorted_of_kind (s : DebugSession) (kind : StopPointKind) : List StopPoint :=
  sorted_by_id StopPoint.id (s.stop_points.rows.filter fun sp => sp.kind = kind)

theorem mem_sorted_of_kind (s : DebugSession) (kind : StopPointKind) (sp : StopPoint) :
    sp ∈ sorted_of_kind s kind ↔ sp ∈ s.stop_points.rows ∧ sp.kind = kind := by
  rw [sorted_of_kind, (sorted_by_id_perm _ _).mem_iff, List.mem_filter, decide_eq_true_eq]

end Order

section Building

namespace Builder

def new : Builder := ⟨[], ⟨[], [], []⟩, 0, 0⟩

variable (b : Builder)

def push (e : Entry) : Builder :=
  { b with
    disabled := if e.enabled then b.disabled else b.disabled + 1
    suspending := if e.args.trace then b.suspending else b.suspending + 1
    entries := b.entries ++ [e] }

def drop_filters (id : RecordId) (instance_ : Option ObjectId) (thread : Option ThreadId) :
    Builder :=
  { b with
    dropped := { b.dropped with
      instance_ := b.dropped.instance_ ++ if instance_.isSome then [id] else []
      thread := b.dropped.thread ++ if thread.isSome then [id] else [] } }

def drop_undescribable (id : RecordId) : Builder :=
  { b with dropped := { b.dropped with undescribable := b.dropped.undescribable ++ [id] } }

def finish : Export :=
  ⟨⟨FORMAT_VERSION, b.entries⟩, b.entries.length, b.disabled, b.suspending, b.dropped⟩

end Builder

/-- The budget written is the one that is left. -/
def write_common (hit_count : Option ℕ) (condition : Option String) (trace : Bool)
    (trace_expr : List String) (trace_budget : Option ℕ) (trace_frames : ℕ)
    (trace_max_length : Option ℕ) : CommonArgs :=
  ⟨trace, trace_frames, hit_count, condition, trace_expr, trace_budget, trace_max_length⟩

variable (s : DebugSession)

/-- The requested line of a family, which only its live members carry. -/
def family_line (fam : PatternStopSet) : Option ℤ := do
  let sp ← fam.members.findSome? fun m => s.stop_points.get? m
  let bp ← sp.line
  bp.arm_line

def family_entry (fam : PatternStopSet) (line : Option ℤ) : Entry where
  from_ := [.family fam.id]
  enabled := fam.enabled
  locator := .line_stop fam.class_pattern line fam.method (some fam.max_classes)
  args := write_common fam.hit_count fam.condition fam.trace fam.trace_expr fam.trace_budget
    fam.trace_frames fam.trace_max_length

variable (b : Builder)

def push_family (fam : PatternStopSet) : Builder :=
  if family_line s fam = none ∧ fam.method = none then b.drop_undescribable (.family fam.id)
  else
    (b.drop_filters (.family fam.id) fam.instance_filter fam.thread_filter).push
      (family_entry fam (family_line s fam))

/-- The families' entries, and the ids of all members. -/
def push_families : List StopId × Builder :=
  (sorted_by_id PatternStopSet.id s.pattern_sets.rows).foldl
    (fun acc fam => (acc.1 ++ fam.members, push_family s acc.2 fam)) ([], b)

def pending_entry (pb : PendingBreakpoint) : Entry where
  from_ := [.pending pb.bp_id]
  enabled := true
  locator := .line_stop pb.class_pattern pb.line pb.method none
  args := write_common pb.hit_count pb.condition pb.trace pb.trace_expr pb.trace_budget
    pb.trace_frames pb.trace_max_length

def push_pending : Builder :=
  s.pending_breakpoints.foldl (fun b pb =>
    (b.drop_filters (.pending pb.bp_id) pb.instance_filter pb.thread_filter).push
      (pending_entry pb)) b

/-- One stop point by itself, under the locator of its kind. -/
def stop_point_entry (sp : StopPoint) (locator : Locator) : Entry where
  from_ := [.stop_point sp.id]
  enabled := sp.enabled && !sp.spent
  locator := locator
  args := write_common sp.hit_count sp.condition sp.trace sp.trace_expr sp.trace_budget
    sp.trace_frames sp.trace_max_length

def push_armed (sp : StopPoint) (locator : Locator) : Builder :=
  (b.drop_filters (.stop_point sp.id) sp.instance_filter sp.thread_filter).push
    (stop_point_entry sp locator)

/-- A family's member is exported with its family, and a monitor stop with its group. -/
def push_stop_point (members : List StopId) (b : Builder) (sp : StopPoint) : Builder :=
  match sp.armed_on with
  | .line bp =>
    if sp.id ∈ members then b
    else if bp.arm_line = none ∧ bp.arm_method = none then
      b.drop_undescribable (.stop_point sp.id)
    else push_armed b sp (.line_stop bp.class_pattern bp.arm_line bp.arm_method none)
  | .exception er =>
    push_armed b sp (.exception_stop
      (if er.class_pattern = "" then none else some er.class_pattern) er.caught er.uncaught)
  | .watchpoint wp =>
    push_armed b sp (.field_stop wp.class_name wp.field_name (wp.kind = .modify)
      (wp.kind = .access))
  | .method_exit me =>
    push_armed b sp (.method_exit_stop me.class_pattern me.method me.exclude_classes)
  | .monitor _ => b

/-- What monitor stops must agree on to share an entry. -/
structure MonitorSettings where
  thread_filter : Option ThreadId
  monitor_class : Option String
  min_duration_ms : Option ℕ
  trace : Bool
  hit_count : Option ℕ
  trace_frames : ℕ
  trace_max_length : Option ℕ
  trace_expr : List String
  deriving DecidableEq

def monitor_settings (row : StopPoint × MonitorStop) : MonitorSettings :=
  ⟨row.1.thread_filter, row.2.monitor_class, row.2.min_duration_ms, row.1.trace, row.1.hit_count,
    row.1.trace_frames, row.1.trace_max_length, row.1.trace_expr⟩

def monitor_rows : List (StopPoint × MonitorStop) :=
  (sorted_of_kind s .monitor).filterMap fun sp => sp.monitor.map fun mon => (sp, mon)

def monitors_entry (first : StopPoint × MonitorStop) (rows : List (StopPoint × MonitorStop)) :
    Entry where
  from_ := rows.map fun row => .stop_point row.1.id
  enabled := rows.all fun row => row.1.enabled && !row.1.spent
  locator := .monitor_stop (rows.map fun row => row.2.kind) first.2.monitor_class
    first.2.min_duration_ms
  args := write_common first.1.hit_count none first.1.trace first.1.trace_expr
    first.1.trace_budget first.1.trace_frames first.1.trace_max_length

def push_group : List (StopPoint × MonitorStop) → Builder
  | [] => b
  | first :: rest => b.push (monitors_entry first (first :: rest))

def push_monitors : Builder :=
  let rows := monitor_rows s
  let b := rows.foldl (fun b row =>
    b.drop_filters (.stop_point row.1.id) none row.1.thread_filter) b
  (group monitor_settings rows).foldl (fun b g => push_group b g.2) b

def LISTING_ORDER : List StopPointKind := [.line, .exception, .watchpoint, .method_exit, .monitor]

def push_kind (members : List StopId) (b : Builder) (kind : StopPointKind) : Builder :=
  let b :=
    if kind = .monitor then push_monitors s b
    else (sorted_of_kind s kind).foldl (push_stop_point members) b
  if kind = .line then push_pending s b else b

def export_ : Export :=
  let (members, b) := push_families s .new
  (LISTING_ORDER.foldl (push_kind s members) b).finish

end Building

section Replay

open Rearming

/-- The budget a call arms with: absent is the default, and zero is no bound. -/
def trace_budget_for (trace : Bool) (trace_max_hits : Option ℕ) : Option ℕ :=
  if trace then
    match trace_max_hits with
    | some 0 => none
    | some n => some n
    | none => some DEFAULT_TRACE_BUDGET
  else none

def Entry.budget (e : Entry) : Option ℕ := trace_budget_for e.args.trace e.args.trace_max_hits

/-- The kinds a call arms, each of them once. -/
def parse_monitor_kinds (list : List MonitorKind) : List MonitorKind :=
  if list = [] then [.blocked, .acquired]
  else list.foldl (fun out kind => if kind ∈ out then out else out ++ [kind]) []

/-- The entries that `debug.arm_stop_points` dispatches. -/
def replayed (set : SetValue) : List Entry := set.entries.filter Entry.enabled

end Replay

end JavaDebug.StopPointSet
