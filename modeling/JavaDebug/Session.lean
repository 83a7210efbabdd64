import JavaDebug.StateProgram
import JavaDebug.StopPoints
import Mathlib.Data.List.MinMax

/-!
One debug session: its bookkeeping, and the world its handlers run in. A
handler is a program over `World`: the session's records, the debuggee, the
composites generated but not yet processed, and the answers the wire will
give. Any command may be refused: `Wire.refused` decides it per command and per
occurrence within one operation. The lookups the handlers make (classes,
locations, fields, conditions) answer whatever the wire says.
-/
namespace JavaDebug.Session

open Jdwp StopPoints

inductive SuspendCause
  | stop_point (req : RequestId)
  | manual_pause
  deriving DecidableEq

inductive ThreadHold
  | requested
  | failed_escalation (req : RequestId)
  deriving DecidableEq

structure ThreadSuspend where
  tid : ThreadId
  since : ℕ
  issued : ℕ
  hold : ThreadHold
  deriving DecidableEq

structure VmSuspend where
  since : ℕ
  cause : SuspendCause
  deriving DecidableEq

/-- What this session believes it is holding: the VM, and single threads. -/
structure Suspensions where
  vm : Option VmSuspend
  threads : Table ThreadSuspend.tid

namespace Suspensions

def new : Suspensions := ⟨none, .empty⟩

variable (s : Suspensions)

def mark_suspended (cause : SuspendCause) (now : ℕ) : Suspensions :=
  { s with vm := some ⟨now, cause⟩ }

def mark_resumed : Suspensions := { s with vm := none }

variable (tid : ThreadId)

def hold_thread (now : ℕ) : Suspensions :=
  match s.threads.get? tid with
  | some _ =>
    { s with threads := s.threads.modify tid fun r =>
        { r with issued := saturating_succ r.issued } }
  | none => { s with threads := s.threads.insert ⟨tid, now, 1, .requested⟩ }

def hold_thread_for_failed_escalation (now : ℕ) (req : RequestId) : Suspensions :=
  match s.threads.get? tid with
  | some _ =>
    { s with threads := s.threads.modify tid fun r => { r with hold := .failed_escalation req } }
  | none => { s with threads := s.threads.insert ⟨tid, now, 0, .failed_escalation req⟩ }

/-- One `debug.suspend_thread` is undone; the record goes when none is left. -/
def release_thread : Suspensions :=
  match s.threads.get? tid with
  | none => s
  | some r =>
    if r.issued - 1 = 0 then { s with threads := s.threads.erase tid }
    else { s with threads := s.threads.modify tid fun r => { r with issued := r.issued - 1 } }

def forget_thread : Suspensions :=
  { s with threads := s.threads.erase tid }

def forget_all_threads : Suspensions := { s with threads := .empty }

def overdue_threads (secs now : ℕ) : List ThreadId :=
  (s.threads.rows.filter fun r => secs ≤ now - r.since).map ThreadSuspend.tid

/-- The records say that thread `t` may be held. -/
def Books (t : ThreadId) : Prop :=
  s.vm.isSome ∨ (s.threads.get? t).isSome

theorem get?_hold (t tid : ThreadId) (now : ℕ) :
    (s.hold_thread t now).threads.get? tid =
      if tid = t then some ((s.threads.get? t).elim ⟨t, now, 1, .requested⟩ fun r =>
        { r with issued := saturating_succ r.issued })
      else s.threads.get? tid := by
  refine Eq.trans ?_ (Table.get?_change_or_make s.threads t tid
    (fun r => { r with issued := saturating_succ r.issued }) (fun _ => rfl) rfl)
  unfold hold_thread
  cases s.threads.get? t <;> rfl

theorem get?_fail (t tid : ThreadId) (now : ℕ) (req : RequestId) :
    (s.hold_thread_for_failed_escalation t now req).threads.get? tid =
      if tid = t then some ((s.threads.get? t).elim ⟨t, now, 0, .failed_escalation req⟩ fun r =>
        { r with hold := .failed_escalation req })
      else s.threads.get? tid := by
  refine Eq.trans ?_ (Table.get?_change_or_make s.threads t tid
    (fun r => { r with hold := .failed_escalation req }) (fun _ => rfl) rfl)
  unfold hold_thread_for_failed_escalation
  cases s.threads.get? t <;> rfl

theorem get?_release (t tid : ThreadId) :
    (s.release_thread t).threads.get? tid =
      if tid = t then (s.threads.get? t).bind fun r =>
        if r.issued - 1 = 0 then none else some { r with issued := r.issued - 1 }
      else s.threads.get? tid := by
  unfold release_thread
  cases hget : s.threads.get? t with
  | none =>
    dsimp only
    by_cases ht : tid = t
    · rw [if_pos ht, ht, hget]
      rfl
    · rw [if_neg ht]
  | some r =>
    dsimp only
    rw [Option.bind_some]
    split
    · rw [Table.get?_erase]
    · rw [Table.get?_modify]
      by_cases ht : tid = t
      · rw [if_pos ht, if_pos ht, ht, hget]
        rfl
      · rw [if_neg ht, if_neg ht]

end Suspensions

/-- Why a VM-wide suspend was not obtained for a hit whose condition matched. -/
structure FailedEscalation where
  vm_running : Bool
  deriving DecidableEq

structure EventRecord where
  seq : ℕ
  set : EventSet
  escalation : Option FailedEscalation
  deriving DecidableEq

/-- What the watchdog last did, as its note reports it. -/
inductive WatchdogOutcome
  | resumed (disarmed : List StopId)
  | still_suspended (left : ℕ) (disarmed : List StopId)
  | resume_failed (disarmed : List StopId)
  | released (freed : List ThreadId) (disarmed : List StopId)
  | threads_stuck (freed stuck : List ThreadId) (disarmed : List StopId)
  deriving DecidableEq

structure EventRing where
  held : List EventRecord
  seq : ℕ
  dropped : ℕ
  watchdog_note : Option WatchdogOutcome
  watchdog_seq : Option ℕ
  deriving DecidableEq

def MAX_EVENTS : ℕ := 100

namespace EventRing

def new : EventRing := ⟨[], 0, 0, none, none⟩

def push (r : EventRing) (set : EventSet) (escalation : Option FailedEscalation) : EventRing :=
  let record : EventRecord := ⟨r.seq + 1, set, escalation⟩
  if MAX_EVENTS ≤ r.held.length then
    { r with seq := r.seq + 1, held := r.held.drop 1 ++ [record], dropped := r.dropped + 1 }
  else
    { r with seq := r.seq + 1, held := r.held ++ [record] }

def note_watchdog (r : EventRing) (note : WatchdogOutcome) : EventRing :=
  { r with watchdog_note := some note, watchdog_seq := some r.seq }

theorem push_seq (r : EventRing) (set : EventSet) (escalation : Option FailedEscalation) :
    (r.push set escalation).seq = r.seq + 1 := by
  unfold push
  split <;> rfl

end EventRing

def MAX_TRACES : ℕ := 500
def MAX_RETHROW_CHAINS : ℕ := 64
def MAX_DISARMED_TRACED : ℕ := 32

def MAX_TRACE_DISARMS : ℕ := 32

/-- A request, the thread it fired on, and the exception instance. -/
abbrev ChainKey := RequestId × ThreadId × ObjectId

structure RethrowChain where
  key : ChainKey
  first_seq : ℕ
  rolling_seq : Option ℕ
  collapsed : ℕ
  deriving DecidableEq

structure RethrowFold where
  collapsed : ℕ
  first_seq : ℕ
  deriving DecidableEq

structure TraceRecord where
  seq : ℕ
  bp_id : StopId
  thread : ThreadId
  rethrow : Option RethrowFold
  deriving DecidableEq

inductive ThrowKind
  | first
  | rethrow (fold : RethrowFold) (supersedes : Option ℕ)
  deriving DecidableEq

def ThrowKind.fold : ThrowKind → Option RethrowFold
  | .first => none
  | .rethrow fold _ => some fold

/-- That a stop point disarmed itself, and how often. -/
structure DisarmNote where
  note : StopId
  times : ℕ
  deriving DecidableEq

structure TraceBuffer where
  held : List TraceRecord
  filed : ℕ
  rethrow_chains : Table RethrowChain.key
  disarms : Table DisarmNote.note
  disarms_dropped : ℕ

namespace TraceBuffer

def new : TraceBuffer := ⟨[], 0, .empty, .empty, 0⟩

/-- The chain that is forgotten when the table is full: the one whose first throw is oldest. -/
def oldest_chain (chains : Table RethrowChain.key) : Option RethrowChain :=
  if MAX_RETHROW_CHAINS ≤ chains.rows.length then chains.rows.argmin RethrowChain.first_seq
  else none

def make_room (chains : Table RethrowChain.key) : Table RethrowChain.key :=
  match oldest_chain chains with
  | some oldest => chains.erase oldest.key
  | none => chains

variable (b : TraceBuffer)

def classify_throw (req_id : RequestId) (thread : ThreadId) (exception : Option ObjectId)
    (next_seq : ℕ) : ThrowKind × TraceBuffer :=
  match exception with
  | none => (.first, b)
  | some exc =>
    let key := (req_id, thread, exc)
    match b.rethrow_chains.get? key with
    | some chain =>
      (.rethrow ⟨saturating_succ chain.collapsed - 1, chain.first_seq⟩ chain.rolling_seq,
        { b with rethrow_chains := b.rethrow_chains.modify key fun c =>
            { c with collapsed := saturating_succ c.collapsed, rolling_seq := some next_seq } })
    | none =>
      (.first, { b with
        rethrow_chains := (make_room b.rethrow_chains).insert ⟨key, next_seq, none, 0⟩ })

/-- The records that stay when a hit of this kind is filed. -/
def keep (kind : ThrowKind) (held : List TraceRecord) : List TraceRecord :=
  match kind with
  | .rethrow _ (some old) => held.filter fun r => r.seq ≠ old
  | _ => held

def push (bp_id : StopId) (req_id : RequestId) (thread : ThreadId) (exception : Option ObjectId) :
    ThrowKind × TraceBuffer :=
  let seq := b.filed + 1
  let (kind, b) := { b with filed := seq }.classify_throw req_id thread exception seq
  let held := keep kind b.held
  let held := if MAX_TRACES ≤ held.length then held.drop 1 else held
  (kind, { b with held := held ++ [⟨seq, bp_id, thread, kind.fold⟩] })

def note_disarm (note : StopId) : TraceBuffer :=
  if (b.disarms.get? note).isSome then
    { b with disarms := b.disarms.modify note fun n => { n with times := n.times + 1 } }
  else if b.disarms.rows.length < MAX_TRACE_DISARMS then
    { b with disarms := b.disarms.insert ⟨note, 1⟩ }
  else { b with disarms_dropped := b.disarms_dropped + 1 }

/-- The chains and the number of records ever filed are kept. -/
def clear : TraceBuffer :=
  { b with held := [], disarms := .empty, disarms_dropped := 0 }

end TraceBuffer

end JavaDebug.Session
