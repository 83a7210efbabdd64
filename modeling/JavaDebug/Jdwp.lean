import Mathlib.Data.List.Basic
import Mathlib.Data.List.Count

/-!
The debuggee as a debugger sees it over JDWP: live threads with one suspend
count each, the live event requests, and the effect of the commands the
session sends. Ids are natural numbers. Filters and modifiers of a request are
kept as sent; which events pass them is the debuggee's business and is left
open, so a run may deliver any event of a live request.
-/
namespace JavaDebug.Jdwp

abbrev ThreadId := ℕ
abbrev RequestId := ℕ
abbrev ClassId := ℕ
abbrev ObjectId := ℕ

inductive SuspendPolicy
  | none
  | eventThread
  | all
  deriving DecidableEq

/-- The policies in the order in which a composite takes the strongest of its requests'. -/
def SuspendPolicy.rank : SuspendPolicy → ℕ
  | .none => 0
  | .eventThread => 1
  | .all => 2

inductive WatchKind
  | access
  | modify
  deriving DecidableEq

inductive MonitorKind
  | blocked
  | acquired
  | wait
  | waited
  deriving DecidableEq

def MonitorKind.partner : MonitorKind → MonitorKind
  | .blocked => .acquired
  | .acquired => .blocked
  | .wait => .waited
  | .waited => .wait

def MonitorKind.class_filter_tests_monitor : MonitorKind → Bool
  | .wait | .waited => true
  | .blocked | .acquired => false

structure Location where
  class_id : ClassId
  method_id : ℕ
  index : ℕ
  deriving DecidableEq

/-- `saturating_add(1)` on a `u32` tally. -/
def saturating_succ (n : ℕ) : ℕ := min (n + 1) 4294967295

/-- The filters every stop point may carry. `count` is the JDWP Count modifier: the request
reports one event and is then deleted by the debuggee. -/
structure FiltersOf (Count Id : Type) where
  count : Option Count
  thread : Option Id
  instance_ : Option Id
  deriving DecidableEq

abbrev EventFilters := FiltersOf ℕ ObjectId

/-- What an `EventRequest.Set` asks for, besides its policy and filters. -/
inductive RequestKind
  | breakpoint (at_ : Location)
  | exception (class_ : Option ClassId) (caught uncaught : Bool)
  | field_watch (declaring : ClassId) (field : ℕ) (kind : WatchKind)
  | method_exit (pattern : String) (with_return_value : Bool) (exclude : List String)
  | monitor (kind : MonitorKind) (class_ : Option ClassId)
  | class_prepare (pattern : String)
  | step (thread : ThreadId) (depth : ℕ) (exclude only : List String)
  deriving DecidableEq

/-- The event kind byte that `EventRequest.Clear` must repeat. -/
inductive EventCode
  | breakpoint
  | exception
  | field_access
  | field_modification
  | method_exit
  | method_exit_with_return_value
  | monitor (kind : MonitorKind)
  | class_prepare
  | single_step
  deriving DecidableEq

def WatchKind.event_kind : WatchKind → EventCode
  | .access => .field_access
  | .modify => .field_modification

def method_exit_event_kind (with_return_value : Bool) : EventCode :=
  if with_return_value then .method_exit_with_return_value else .method_exit

def RequestKind.code : RequestKind → EventCode
  | .breakpoint _ => .breakpoint
  | .exception _ _ _ => .exception
  | .field_watch _ _ k => k.event_kind
  | .method_exit _ r _ => method_exit_event_kind r
  | .monitor k _ => .monitor k
  | .class_prepare _ => .class_prepare
  | .step _ _ _ _ => .single_step

structure EventRequest where
  id : RequestId
  kind : RequestKind
  policy : SuspendPolicy
  filters : EventFilters
  deriving DecidableEq

namespace EventRequest

/-- A Clear names a request by its event kind and its id together. -/
def handle (r : EventRequest) : EventCode × RequestId := (r.kind.code, r.id)

def counted (r : EventRequest) : Bool := r.filters.count.isSome

end EventRequest

/-- The payload of one event; `other` stands for the kinds that carry no location. -/
inductive EventKind
  | class_prepare (thread : ThreadId) (ref_type : ClassId) (signature : String)
  | breakpoint (thread : ThreadId) (location : Location)
  | step (thread : ThreadId) (location : Location)
  | exception (thread : ThreadId) (location : Location) (exception : ObjectId)
  | method_exit (thread : ThreadId) (location : Location)
  | field_access (thread : ThreadId) (location : Location)
  | field_modification (thread : ThreadId) (location : Location)
  | monitor (kind : MonitorKind) (thread : ThreadId) (location : Location) (monitor : ObjectId)
  | other
  deriving DecidableEq

namespace EventKind

/-- Events of this kind come from requests with this event code. -/
def reports : EventKind → EventCode → Bool
  | .class_prepare _ _ _, c => c = .class_prepare
  | .breakpoint _ _, c => c = .breakpoint
  | .step _ _, c => c = .single_step
  | .exception _ _ _, c => c = .exception
  | .method_exit _ _, c => c = .method_exit ∨ c = .method_exit_with_return_value
  | .field_access _ _, c => c = .field_access
  | .field_modification _ _, c => c = .field_modification
  | .monitor k _ _ _, c => c = .monitor k
  | .other, _ => false

end EventKind

def event_location : EventKind → Option (ThreadId × Location)
  | .breakpoint t l | .step t l | .method_exit t l | .exception t l _ => some (t, l)
  | .field_access t l | .field_modification t l => some (t, l)
  | .monitor _ t l _ => some (t, l)
  | .class_prepare _ _ _ | .other => none

structure Event where
  request_id : RequestId
  details : EventKind
  deriving DecidableEq

/-- One composite: the events of one thread at one place, under one suspend policy. -/
structure EventSet where
  suspend_policy : SuspendPolicy
  events : List Event
  deriving DecidableEq

namespace EventSet

def event_thread (es : EventSet) : Option ThreadId :=
  es.events.head?.bind fun e => (event_location e.details).map Prod.fst

def event_suspends (es : EventSet) : Bool :=
  es.suspend_policy ≠ .none ∧ es.events.any fun e => (event_location e.details).isSome

end EventSet

inductive JdwpError
  | code (n : ℕ)
  | io
  deriving DecidableEq

/-- `stray_clears` are the Clears the debuggee received for a request it does not have. -/
structure Jvm where
  threads : List ThreadId
  suspend_count : ThreadId → ℕ
  requests : List EventRequest
  next_request : RequestId
  stray_clears : List (EventCode × RequestId)

namespace Jvm

variable (j : Jvm)

def suspend_all : Jvm :=
  { j with suspend_count := fun t =>
      if t ∈ j.threads then j.suspend_count t + 1 else j.suspend_count t }

def resume_all : Jvm :=
  { j with suspend_count := fun t => j.suspend_count t - 1 }

def suspend_thread (u : ThreadId) : Jvm :=
  { j with suspend_count := fun t =>
      if t = u ∧ t ∈ j.threads then j.suspend_count t + 1 else j.suspend_count t }

def resume_thread (u : ThreadId) : Jvm :=
  { j with suspend_count := fun t =>
      if t = u then j.suspend_count t - 1 else j.suspend_count t }

/-- Suspend as an event of policy `p` on thread `u` does. -/
def suspend_for (p : SuspendPolicy) (u : ThreadId) : Jvm :=
  match p with
  | .none => j
  | .eventThread => j.suspend_thread u
  | .all => j.suspend_all

def set_request (k : RequestKind) (p : SuspendPolicy) (f : EventFilters) : Jvm :=
  { j with
    requests := j.requests ++ [⟨j.next_request, k, p, f⟩]
    next_request := j.next_request + 1 }

def clear_request (h : EventCode × RequestId) : Jvm :=
  if h ∈ j.requests.map EventRequest.handle then
    { j with requests := j.requests.filter fun r => r.handle ≠ h }
  else { j with stray_clears := j.stray_clears ++ [h] }

def clear_all_breakpoints : Jvm :=
  { j with requests := j.requests.filter fun r => r.kind.code ≠ .breakpoint }

/-- The debuggee forgets a counted request together with the event it reports. -/
def expire (fired : List RequestId) : Jvm :=
  { j with requests := j.requests.filter fun r => ¬ (r.id ∈ fired ∧ r.counted) }

def running : Prop := ∀ t ∈ j.threads, j.suspend_count t = 0

instance (j : Jvm) : Decidable j.running :=
  inferInstanceAs (Decidable (∀ t ∈ j.threads, j.suspend_count t = 0))

/-- Before any session: every thread runs and nothing is armed. -/
def started (threads : List ThreadId) : Jvm := ⟨threads, fun _ => 0, [], 1, []⟩

end Jvm

end JavaDebug.Jdwp
