import JavaDebug.Addressing
import JavaDebug.HiddenCalls
import JavaDebug.RecordTerms

/-!
The combinations that the arming tools refuse, and what a session refuses to
arm when it is read-only. `Lawful` says that no record has one. Arming, toggling
and class loads keep it; an update keeps it except where it sets a hit count on
a stop point whose hits are filtered on this side of the wire.
-/
namespace JavaDebug.ArmingRules

open Jdwp StopPoints Wire
open Arming Rearming Runs Addressing
open HiddenCalls RecordTerms

section Checks

def counted_method_filter (n : ℕ) (m : String) : String :=
  "hit_count and method cannot be combined on a method-exit stop point. JDWP applies the Count " ++
    "modifier to the REQUEST, which fires for every method of the class — there is no " ++
    "method-name modifier, which is why `method` is filtered on this side in the first place. " ++
    "So hit_count:" ++ toString n ++ " with method:\"" ++ m ++
    "\" would ask the JVM for exit number " ++ toString n ++ " of ANY method of this class, " ++
    "drop it here as the wrong method, and leave the stop point spent having reported " ++
    "nothing. Either drop `method` (hit_count:" ++ toString n ++
    " then means return number " ++ toString n ++ " out of the class, whichever method produced " ++
    "it), or drop `hit_count` and use trace_max_hits to bound how many exits of `" ++ m ++
    "` are recorded — that is a server-side count of the FIRST N, which is what you usually " ++
    "want anyway."

def refuse_counted_method_filter (hit_count : Option ℕ) (method : Option String) :
    Except String Unit :=
  match hit_count, method with
  | some n, some m => .error (counted_method_filter n m)
  | _, _ => .ok ()

def counted_min_duration (n min : ℕ) : String :=
  "hit_count and min_duration_ms cannot both be set, and the combination yields nothing rather " ++
    "than something imprecise. hit_count is JDWP's Count: the JVM reports the " ++ toString n ++
    "th event and then DELETES the request, and it applies that per request — so it would spend " ++
    "the count on the " ++ toString n ++ "th `blocked` and the " ++ toString n ++
    "th `acquired`, which are not the two halves of one pair. Both requests would then be gone, " ++
    "leaving no closing event to measure against " ++ toString min ++ "ms.\n   Pick one: " ++
    "min_duration_ms to see every block over a threshold (bounded by trace_max_hits instead), " ++
    "or hit_count to catch the Nth event whatever its duration."

def refuse_counted_min_duration (hit_count min_duration_ms : Option ℕ) : Except String Unit :=
  match hit_count, min_duration_ms with
  | some n, some min => .error (counted_min_duration n min)
  | _, _ => .ok ()

def MAX_TRACE_EXPRS : ℕ := 4

def clamp_trace_exprs (exprs : List String) : List String := exprs.take MAX_TRACE_EXPRS

def resolve_trace_exprs (asked session_default : List String) : List String :=
  if asked.isEmpty && !session_default.isEmpty then session_default else clamp_trace_exprs asked

/-- The check on what a session or a stop point is to evaluate on every hit. -/
def readonly_check (read_only : Bool) (condition : Option String) (trace_expr : List String) :
    Except String Unit :=
  check_readonly_exprs read_only (condition.map String.toList) (trace_expr.map String.toList)

/-- What a session fixes for its stop points when it is opened. -/
structure Attached where
  read_only : Bool
  trace_exprs : List String
  passed : readonly_check read_only none trace_exprs = .ok ()

def attach (read_only : Bool) (trace_exprs : List String) : Except String Attached :=
  let session_exprs := clamp_trace_exprs trace_exprs
  match h : readonly_check read_only none session_exprs with
  | .ok () => .ok ⟨read_only, session_exprs, h⟩
  | .error e => .error e

variable (s : Attached)

/-- The refusals of the arming tool of each kind that concern combinations and calls. -/
def check_arming (o : StopOptions) : Target → Except String Unit
  | .line _ _ _ _ _ =>
    readonly_check s.read_only o.condition (resolve_trace_exprs o.trace_expr s.trace_exprs)
  | .exception _ _ _ _ | .field _ _ _ _ => readonly_check s.read_only o.condition o.trace_expr
  | .method_exit _ method _ _ => do
    refuse_counted_method_filter o.hit_count method
    readonly_check s.read_only o.condition o.trace_expr
  | .monitor kinds arm => do
    refuse_counted_min_duration o.hit_count arm.min_duration_ms
    refuse_invoking_expr_on_the_unowned_kind (o.trace_expr.map String.toList) kinds
    readonly_check s.read_only none o.trace_expr

/-- What a caller may ask of the records, as it arrives. -/
inductive Demand
  | arm (t : Target) (o : StopOptions)
  | toggle_stop_point (id : StopId) (enabled : Option Bool)
  | update_stop_point (id : StopId) (condition : FieldEdit String) (hit_count : FieldEdit ℕ)

def check_condition_edit : FieldEdit String → Except String Unit
  | .set new => readonly_check s.read_only (some new) []
  | .leave | .clear => .ok ()

/-- The call that a demand becomes, unless it is refused. -/
def Demand.call : Demand → Except String Call
  | .arm t o => do
    check_arming s o t
    pure (t.call { o with trace_expr := resolve_trace_exprs o.trace_expr s.trace_exprs })
  | .toggle_stop_point id enabled => pure (.toggle_stop_point id enabled)
  | .update_stop_point id condition hit_count => do
    check_condition_edit s condition
    pure (.update_stop_point id condition hit_count)

inductive Step
  | demand (d : Demand) (a : Answers)
  | class_load (es : EventSet) (a : Answers)

def Step.next (w : World) : Step → World
  | .demand d a =>
    match d.call s with
    | .ok c => (Move.call c a).next w
    | .error _ => w
  | .class_load es a => ((try_arm_deferred_breakpoints es).run (w.begin a)).2

def run (w : World) (steps : List Step) : World := steps.foldl (Step.next s) w

end Checks

section Rules

/-- None of these texts calls a method. -/
def Quiet (condition : Option String) (trace_expr : List String) : Prop :=
  ∀ e ∈ condition.toList ++ trace_expr, expr_invokes e.toList = false

structure Law (read_only : Bool) (t : Terms) : Prop where
  counted : t.hit_count.isSome → t.method = none ∧ t.min_duration_ms = none
  monitor : t.kind = .monitor → t.condition = none
  quiet : read_only = true → Quiet t.condition t.trace_expr

/-- Every record satisfies the rules that the arming tools enforce. -/
structure Lawful (read_only : Bool) (w : World) : Prop where
  stop_points : ∀ sp ∈ w.session.stop_points.rows, Law read_only (terms sp)
  deferrals : read_only = true → ∀ p ∈ w.session.pending_breakpoints, Quiet p.condition p.trace_expr
  families : read_only = true → ∀ set ∈ w.session.pattern_sets.rows,
    Quiet set.condition set.trace_expr

/-- The records whose terms an update rewrites; none, if it is refused. -/
def rewritten (s : Attached) (w : World) (id : StopId) (condition : FieldEdit String)
    (hit_count : FieldEdit ℕ) : List StopId :=
  if (check_condition_edit s condition).isOk && (condition.asked || hit_count.asked) then
    match read_editable_stop_point w.session id with
    | .error _ => []
    | .ok before =>
      if before.spent || (condition.asked && !before.supports_condition) then []
      else id :: before.family_members
  else []

/-- The hits of the stop point are filtered on this side of the wire, after they are counted. -/
def Filtered (sp : StopPoint) : Prop :=
  (terms sp).method ≠ none ∨ (terms sp).min_duration_ms ≠ none

/-- The step sets no hit count on a stop point whose hits are filtered. -/
def Step.Spares (s : Attached) (w : World) (step : Step) : Prop :=
  ∀ id condition n a, step = .demand (.update_stop_point id condition (.set n)) a →
    ∀ m ∈ rewritten s w id condition (.set n), ∀ sp,
      w.session.stop_points.get? m = some sp → ¬ Filtered sp

end Rules

end JavaDebug.ArmingRules
