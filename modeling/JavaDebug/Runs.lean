import Mathlib.Logic.Relation
import JavaDebug.Rearming
import JavaDebug.Resuming

/-!
Whole runs. The debuggee generates a composite from requests that are live and
suspends by the strongest of their policies; the session's listener takes the
oldest composite; a tool call or a watchdog turn runs to its end under the
session lock. A run is any interleaving of these moves, each with its own
answers from the wire.
-/
namespace JavaDebug.Runs

open Jdwp StopPoints Wire Disarming
open Arming Rearming Resuming

inductive Call
  | set_line_stop (patterns : List String) (line : Option ℤ) (method : Option String)
      (o : StopOptions) (index : List (String × ClassId)) (max_classes : ℕ)
  | set_exception_stop (targets : List (String × Option ClassId)) (caught uncaught : Bool)
      (o : StopOptions) (max_classes : ℕ)
  | set_field_stop (targets : List (String × ClassId)) (field_name : String)
      (kinds : List WatchKind) (o : StopOptions) (max_classes : ℕ)
  | set_method_exit_stop (patterns : List String) (method : Option String)
      (with_return_value : Bool) (exclude : List String) (o : StopOptions)
  | set_monitor_stop (kinds : List MonitorKind) (arm : MonitorArm) (o : StopOptions)
  | clear_stop_point (id : StopId)
  | toggle_stop_point (id : StopId) (enabled : Option Bool)
  | update_stop_point (id : StopId) (condition : FieldEdit String) (hit_count : FieldEdit ℕ)
  | continue_
  | step (thread_id : Option ThreadId) (depth : ℕ) (exclude only : List String)
  | panic
  | pause
  | suspend_thread (tid : ThreadId)
  | resume_thread (thread_id : Option ThreadId)
  | thread_dump (suspend : Bool)
  | watchdog (secs : ℕ)

def Call.run : Call → Handler Unit
  | .set_line_stop patterns line method o index cap =>
    handle_set_line_stop patterns line method o index cap
  | .set_exception_stop targets caught uncaught o cap => do
    let _ ← handle_set_exception_stop targets caught uncaught o cap
  | .set_field_stop targets field kinds o cap => handle_set_field_stop targets field kinds o cap
  | .set_method_exit_stop patterns method ret exclude o =>
    handle_set_method_exit_stop patterns method ret exclude o
  | .set_monitor_stop kinds arm o => do let _ ← handle_set_monitor_stop kinds arm o
  | .clear_stop_point id => do let _ ← handle_clear_stop_point id
  | .toggle_stop_point id enabled => do let _ ← handle_toggle_stop_point id enabled
  | .update_stop_point id condition hit_count => do
    let _ ← handle_update_stop_point id condition hit_count
  | .continue_ => do let _ ← handle_continue
  | .step tid depth exclude only => do let _ ← handle_step tid depth exclude only
  | .panic => do let _ ← handle_panic
  | .pause => do let _ ← handle_pause
  | .suspend_thread tid => do let _ ← handle_suspend_thread tid
  | .resume_thread tid => do let _ ← handle_resume_thread tid
  | .thread_dump suspend => do let _ ← handle_thread_dump suspend
  | .watchdog secs => do let _ ← watchdog_tick secs

def EventKind.thread : EventKind → Option ThreadId
  | .class_prepare t _ _ => some t
  | details => (event_location details).map Prod.fst

/-- The composite `es` of thread `t` is one the debuggee can generate from its live requests. -/
def Fires (j : Jvm) (es : EventSet) (t : ThreadId) : Prop :=
  es.events ≠ [] ∧ t ∈ j.threads ∧ (es.events.map Event.request_id).Nodup ∧
  (∀ e ∈ es.events, EventKind.thread e.details = some t ∧
    ∃ q ∈ j.requests, q.id = e.request_id ∧ e.details.reports q.kind.code ∧
      q.policy.rank ≤ es.suspend_policy.rank) ∧
  ∃ e ∈ es.events, ∃ q ∈ j.requests, q.id = e.request_id ∧ e.details.reports q.kind.code ∧
    q.policy = es.suspend_policy

instance (j : Jvm) (es : EventSet) (t : ThreadId) : Decidable (Fires j es t) := by
  unfold Fires
  infer_instance

namespace EventSet

def request_ids (es : EventSet) : List RequestId := es.events.map Event.request_id

end EventSet

def World.start (threads : List ThreadId) (a : Answers) : World :=
  ⟨.new, .started threads, [], a, []⟩

/-- The debuggee suspends, drops the counted requests that fired, and sends the composite. -/
def World.fire (w : World) (es : EventSet) (t : ThreadId) : World :=
  { w with
    jvm := (w.jvm.suspend_for es.suspend_policy t).expire (EventSet.request_ids es)
    queue := w.queue ++ [es] }

def World.listen (w : World) (a : Answers) : World :=
  match w.queue with
  | [] => w
  | es :: rest => ((Rearming.listen es).run ({ w with queue := rest }.begin a)).2

/-- `hit` is a composite that is processed as soon as it is generated. -/
inductive Move
  | call (c : Call) (a : Answers)
  | fire (es : EventSet) (t : ThreadId)
  | listen (a : Answers)
  | hit (es : EventSet) (t : ThreadId) (a : Answers)

namespace Move

def next (w : World) : Move → World
  | .call c a => (c.run.run (w.begin a)).2
  | .fire es t => World.fire w es t
  | .listen a => World.listen w a
  | .hit es t a => World.listen (World.fire w es t) a

def Allowed (w : World) : Move → Prop
  | .fire es t => Fires w.jvm es t
  | .hit es t _ => Fires w.jvm es t ∧ w.queue = []
  | .call _ _ | .listen _ => True

end Move

/-- One move that the debuggee allows and that meets `ok`. -/
def Step (ok : World → Move → Prop) (w w' : World) : Prop :=
  ∃ m : Move, m.Allowed w ∧ ok w m ∧ w' = m.next w

variable {w : World}

theorem Step.intro {ok : World → Move → Prop} (m : Move) (hallowed : m.Allowed w) (hok : ok w m) :
    Step ok w (m.next w) := ⟨m, hallowed, hok, rfl⟩

abbrev Run (ok : World → Move → Prop) : World → World → Prop := Relation.ReflTransGen (Step ok)

theorem Run.invariant {ok : World → Move → Prop} {I : World → Prop}
    (hstep : ∀ w m, I w → m.Allowed w → ok w m → I (m.next w)) {w' : World} (hrun : Run ok w w')
    (hw : I w) : I w' := by
  induction hrun with
  | refl => exact hw
  | tail _ hlast ih =>
    obtain ⟨m, hallowed, hok, rfl⟩ := hlast
    exact hstep _ m ih hallowed hok

/-- The world in which the listener meets the composite `es` of thread `t`. -/
def met (w : World) (es : EventSet) (t : ThreadId) (a : Answers) : World :=
  { World.fire w es t with queue := [] }.begin a

theorem hit_next (hq : w.queue = []) (es : EventSet) (t : ThreadId) (a : Answers) :
    (Move.hit es t a).next w = ((listen es).run (met w es t a)).2 := by
  simp only [Move.next, World.fire, World.listen, hq, List.nil_append]
  rfl

/-- Every command is carried out. -/
def Obliging (a : Answers) : Prop := ∀ c n, a.refused c n = none

/-- A wire that carries out everything: one copy of every class, with the line at index 0 of
one method, every condition true. -/
def plain : Answers where
  refused := fun _ _ => none
  zombie := fun _ => false
  classes_by_signature := fun _ _ => .ok [1]
  resolve_bp_location := fun _ _ _ _ => .ok ⟨1, "run", false, 0, [], 10⟩
  resolve_class_by_dotted := fun _ _ => .ok (some 1)
  find_field_info := fun _ _ _ => .ok (some (1, 1, false))
  resolve_monitor_class := fun _ _ => .ok 1
  object_is_gone := fun _ _ => false
  method_name := fun _ => "run"
  condition_holds := fun _ _ _ => true
  monitor_recordable := fun _ => true
  admitted := true
  is_wildcard := fun _ => false
  signature_for_dotted := id
  decode_signature := id
  class_matches := fun _ _ => true
  jdwp_class_match_for := id
  dump_rows := id
  now := 0

theorem obliging_plain : Obliging plain := fun _ _ => rfl

/-- The options of a stop that is neither counted nor filtered nor traced. -/
def plain_options (condition : Option String) : StopOptions :=
  ⟨none, none, none, condition, false, [], none, 0, none⟩

/-- A line stop is armed with `condition`, in a VM of two threads. Its request has id 2. -/
def line_armed (condition : Option String) : World :=
  (Move.call (.set_line_stop ["A"] (some 10) none (plain_options condition) [] 1) plain).next
    (World.start [1, 2] plain)

/-- A hit of thread `t` on the line stop that `line_armed` arms. -/
def line_hit (policy : SuspendPolicy) (t : ThreadId) : EventSet :=
  ⟨policy, [⟨2, .breakpoint t ⟨1, 1, 0⟩⟩]⟩

theorem Obliging.refuses (h : Obliging w.answers) (c : Command) :
    w.refuses c = none := h c _

end JavaDebug.Runs
