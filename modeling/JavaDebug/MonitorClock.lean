import JavaDebug.Jdwp
import JavaDebug.Table
import Mathlib.Data.List.MinMax

/-!
The stopwatch over monitor pairs. A run logs what each operation did to the
open halves, evictions included; what a close measures is read off the log, as
the last thing that happened to its key. Which of several earliest halves an
eviction takes is left to the iteration order of the map.
-/
namespace JavaDebug.MonitorClock

open Jdwp

def MAX_MONITOR_PENDING : ℕ := 256

inductive MonitorPair
  | contended
  | wait
  deriving DecidableEq

/-- The pair an event kind belongs to, and whether it opens it. -/
def MonitorPair.of : MonitorKind → MonitorPair × Bool
  | .blocked => (.contended, true)
  | .acquired => (.contended, false)
  | .wait => (.wait, true)
  | .waited => (.wait, false)

structure MonitorPairKey where
  thread : ThreadId
  monitor : ObjectId
  pair : MonitorPair
  deriving DecidableEq

structure Half where
  key : MonitorPairKey
  since : ℕ
  deriving DecidableEq

structure Clock where
  pending : Table Half.key
  dropped : ℕ

/-- The order in which a hash map happens to be walked. -/
structure Iteration where
  order : List Half → List Half
  perm : ∀ halves, (order halves).Perm halves

def u64_saturating_succ (n : ℕ) : ℕ := min (n + 1) 18446744073709551615

namespace Clock

def new : Clock := ⟨.empty, 0⟩

/-- The half that has to make room for this key. -/
def oldest (c : Clock) (key : MonitorPairKey) (i : Iteration) : Option Half :=
  if MAX_MONITOR_PENDING ≤ c.pending.rows.length ∧ c.pending.get? key = none then
    (i.order c.pending.rows).argmin Half.since
  else none

def make_room (c : Clock) (key : MonitorPairKey) (i : Iteration) : Clock :=
  match c.oldest key i with
  | some h => ⟨c.pending.erase h.key, u64_saturating_succ c.dropped⟩
  | none => c

def open_ (c : Clock) (key : MonitorPairKey) (now : ℕ) (i : Iteration) : Clock :=
  { c.make_room key i with pending := (c.make_room key i).pending.insert ⟨key, now⟩ }

def close (c : Clock) (key : MonitorPairKey) (now : ℕ) : Option ℕ × Clock :=
  match c.pending.get? key with
  | some h => (some (now - h.since), { c with pending := c.pending.erase key })
  | none => (none, c)

def forget_pair (c : Clock) (pair : MonitorPair) : Clock :=
  { c with pending := c.pending.retain fun h => h.key.pair ≠ pair }

def clear (_ : Clock) : Clock := ⟨.empty, 0⟩

end Clock

inductive MonitorSpan
  | opened
  | closed (duration : Option ℕ)
  deriving DecidableEq

def MonitorKind.key (kind : MonitorKind) (thread : ThreadId) (monitor : ObjectId) :
    MonitorPairKey :=
  ⟨thread, monitor, (MonitorPair.of kind).1⟩

def span_monitor_event (c : Clock) (kind : MonitorKind) (thread : ThreadId) (monitor : ObjectId)
    (now : ℕ) (i : Iteration) : MonitorSpan × Clock :=
  let key := MonitorKind.key kind thread monitor
  if (MonitorPair.of kind).2 then (.opened, c.open_ key now i)
  else (.closed (c.close key now).1, (c.close key now).2)

section Runs

inductive Op
  | open_ (key : MonitorPairKey) (now : ℕ) (i : Iteration)
  | close (key : MonitorPairKey) (now : ℕ)
  | forget_pair (pair : MonitorPair)
  | clear

/-- What happened to the open halves. -/
inductive Effect
  | opened (h : Half)
  | closed (key : MonitorPairKey)
  | forgotten (pair : MonitorPair)
  | cleared
  | evicted (h : Half)
  deriving DecidableEq

def Effect.affects (k : MonitorPairKey) : Effect → Bool
  | .opened h | .evicted h => h.key = k
  | .closed key => key = k
  | .forgotten pair => k.pair = pair
  | .cleared => true

namespace Clock

def apply (c : Clock) : Op → Clock
  | .open_ key now i => c.open_ key now i
  | .close key now => (c.close key now).2
  | .forget_pair pair => c.forget_pair pair
  | .clear => c.clear

def effects (c : Clock) : Op → List Effect
  | .open_ key now i => ((c.oldest key i).map .evicted).toList ++ [.opened ⟨key, now⟩]
  | .close key _ => [.closed key]
  | .forget_pair pair => [.forgotten pair]
  | .clear => [.cleared]

def undergo (c : Clock) : Effect → Clock
  | .opened h => { c with pending := c.pending.insert h }
  | .closed key => { c with pending := c.pending.erase key }
  | .forgotten pair => c.forget_pair pair
  | .cleared => c.clear
  | .evicted h => ⟨c.pending.erase h.key, u64_saturating_succ c.dropped⟩

theorem apply_eq (c : Clock) (op : Op) : c.apply op = (c.effects op).foldl undergo c := by
  cases op with
  | open_ key now i =>
    simp only [apply, open_, make_room, effects]
    cases c.oldest key i <;> rfl
  | close key now =>
    simp only [apply, close, effects]
    cases hget : c.pending.get? key with
    | some h => rfl
    | none =>
      show c = { c with pending := c.pending.erase key }
      rw [c.pending.erase_eq_self hget]
  | forget_pair pair => rfl
  | clear => rfl

end Clock

/-- A clock and everything that happened to it. -/
structure Watch where
  clock : Clock
  log : List Effect

def Watch.step (w : Watch) (op : Op) : Watch :=
  ⟨w.clock.apply op, w.log ++ w.clock.effects op⟩

def run (ops : List Op) : Watch := ops.foldl Watch.step ⟨.new, []⟩

/-- The last thing that happened to `k`. -/
def latest (log : List Effect) (k : MonitorPairKey) : Option Effect :=
  log.reverse.find? (Effect.affects k)

def count (n : ℕ) : Effect → ℕ
  | .cleared => 0
  | .evicted _ => n + 1
  | _ => n

def evictions (log : List Effect) : ℕ := log.foldl count 0

end Runs

section Agreement

theorem latest_concat (log : List Effect) (e : Effect) (k : MonitorPairKey) :
    latest (log ++ [e]) k = if e.affects k then some e else latest log k := by
  unfold latest
  rw [List.reverse_append, List.reverse_singleton, List.singleton_append, List.find?_cons]
  cases e.affects k <;> rfl

/-- The half that is left open when `e` was the last thing that happened. -/
def standing : Option Effect → Option Half
  | some (.opened h) => some h
  | _ => none

structure Agrees (c : Clock) (log : List Effect) : Prop where
  held : ∀ k, c.pending.get? k = standing (latest log k)
  dropped : c.dropped = min (evictions log) 18446744073709551615

theorem agrees_new : Agrees .new [] := ⟨fun _ => rfl, rfl⟩

theorem Agrees.undergo {c : Clock} {log : List Effect} (h : Agrees c log) (e : Effect) :
    Agrees (c.undergo e) (log ++ [e]) := by
  have hcount : evictions (log ++ [e]) = count (evictions log) e := by
    rw [evictions, List.foldl_append]
    rfl
  refine ⟨fun k => ?_, ?_⟩
  · rw [latest_concat]
    cases e with
    | opened o =>
      show (c.pending.insert o).get? k = _
      rw [Table.get?_insert, h.held]
      by_cases hk : k = o.key
      · simp [Effect.affects, hk, standing]
      · simp [Effect.affects, hk, Ne.symm hk]
    | closed key =>
      show (c.pending.erase key).get? k = _
      rw [Table.get?_erase, h.held]
      by_cases hk : k = key
      · simp [Effect.affects, hk, standing]
      · simp [Effect.affects, hk, Ne.symm hk]
    | forgotten pair =>
      show (c.pending.retain fun o => o.key.pair ≠ pair).get? k = _
      rw [Table.get?_retain]
      cases hget : c.pending.get? k with
      | none =>
        rw [h.held] at hget
        by_cases hk : k.pair = pair
        · simp [Effect.affects, hk, standing]
        · simp [Effect.affects, hk, hget]
      | some o =>
        have hkey : o.key = k := ((Table.get?_eq_some _ _ _).mp hget).2
        rw [h.held] at hget
        by_cases hk : k.pair = pair
        · simp [Effect.affects, hk, standing, hkey]
        · simp [Effect.affects, hk, hget, hkey]
    | cleared => rfl
    | evicted o =>
      show (c.pending.erase o.key).get? k = _
      rw [Table.get?_erase, h.held]
      by_cases hk : k = o.key
      · simp [Effect.affects, hk, standing]
      · simp [Effect.affects, hk, Ne.symm hk]
  · rw [hcount]
    have hdropped := h.dropped
    cases e with
    | evicted o =>
      simp only [Clock.undergo, u64_saturating_succ, count]
      omega
    | cleared => rfl
    | opened o => exact hdropped
    | closed key => exact hdropped
    | forgotten pair => exact hdropped

theorem Agrees.undergo_all {c : Clock} {log : List Effect} (h : Agrees c log) (es : List Effect) :
    Agrees (es.foldl Clock.undergo c) (log ++ es) := by
  induction es generalizing c log with
  | nil => simpa using h
  | cons e es ih => simpa using ih (h.undergo e)

theorem Agrees.step {w : Watch} (h : Agrees w.clock w.log) (op : Op) :
    Agrees (w.step op).clock (w.step op).log := by
  have hall := h.undergo_all (w.clock.effects op)
  rwa [← Clock.apply_eq] at hall

theorem agrees_run (ops : List Op) : Agrees (run ops).clock (run ops).log := by
  induction ops using List.reverseRecOn with
  | nil => exact agrees_new
  | append_singleton ops op ih =>
    rw [run, List.foldl_append]
    exact ih.step op

end Agreement

section Bound

variable {c : Clock} {h : Half}

theorem oldest_some {key : MonitorPairKey} {i : Iteration} (ho : c.oldest key i = some h) :
    MAX_MONITOR_PENDING ≤ c.pending.rows.length ∧ c.pending.get? key = none ∧
      h ∈ c.pending.rows ∧ ∀ h' ∈ c.pending.rows, h.since ≤ h'.since := by
  unfold Clock.oldest at ho
  split at ho
  · rename_i hfull
    have hperm := i.perm c.pending.rows
    refine ⟨hfull.1, hfull.2, hperm.mem_iff.mp (List.argmin_mem ho), fun h' hh' => ?_⟩
    exact List.le_of_mem_argmin (hperm.mem_iff.mpr hh') ho
  · cases ho

theorem oldest_none {key : MonitorPairKey} {i : Iteration} (ho : c.oldest key i = none) :
    c.pending.rows.length < MAX_MONITOR_PENDING ∨ (c.pending.get? key).isSome := by
  unfold Clock.oldest at ho
  split at ho
  · rename_i hfull
    rw [List.argmin_eq_none] at ho
    have hempty := (i.perm c.pending.rows).length_eq
    rw [ho, List.length_nil] at hempty
    exact absurd hfull.1 (by rw [← hempty]; decide)
  · rename_i hroom
    rw [not_and_or, not_le, ← ne_eq, Option.ne_none_iff_isSome] at hroom
    exact hroom

variable (t : Table Half.key)

theorem length_eq_total : t.rows.length = t.total fun _ => 1 := by
  simp [Table.total]

theorem length_insert_le (h : Half) : (t.insert h).rows.length ≤ t.rows.length + 1 := by
  have hinsert := Table.total_insert (fun _ => 1) t h
  have herase := Table.total_erase_le (fun _ => 1) t h.key
  simp only [length_eq_total]
  omega

theorem length_erase {k : MonitorPairKey} (h : (t.get? k).isSome) :
    (t.erase k).rows.length + 1 = t.rows.length := by
  obtain ⟨v, hv⟩ := Option.isSome_iff_exists.mp h
  simpa only [length_eq_total] using Table.total_erase (fun _ => 1) t k hv

theorem length_insert_held (hh : (t.get? h.key).isSome) :
    (t.insert h).rows.length = t.rows.length := by
  have hinsert := Table.total_insert (fun _ => 1) t h
  have herase := length_erase t hh
  simp only [length_eq_total] at *
  omega

theorem held_of_mem (hh : h ∈ t.rows) : (t.get? h.key).isSome := by
  rw [(Table.get?_eq_some t h.key h).mpr ⟨hh, rfl⟩]
  rfl

theorem bounded_apply (h : c.pending.rows.length ≤ MAX_MONITOR_PENDING) (op : Op) :
    (c.apply op).pending.rows.length ≤ MAX_MONITOR_PENDING := by
  cases op with
  | open_ key now i =>
    simp only [Clock.apply, Clock.open_, Clock.make_room]
    cases ho : c.oldest key i with
    | some o =>
      obtain ⟨-, -, hmem, -⟩ := oldest_some ho
      have herase := length_erase c.pending (held_of_mem _ hmem)
      have hinsert := length_insert_le (c.pending.erase o.key) ⟨key, now⟩
      show ((c.pending.erase o.key).insert ⟨key, now⟩).rows.length ≤ _
      omega
    | none =>
      rcases oldest_none ho with hroom | hheld
      · exact (length_insert_le c.pending ⟨key, now⟩).trans hroom
      · exact (length_insert_held c.pending (h := ⟨key, now⟩) hheld).trans_le h
  | close key now =>
    simp only [Clock.apply, Clock.close]
    cases c.pending.get? key with
    | some o => exact (List.length_filter_le _ _).trans h
    | none => exact h
  | forget_pair pair => exact (List.length_filter_le _ _).trans h
  | clear => exact Nat.zero_le _

theorem bounded_run (ops : List Op) :
    (run ops).clock.pending.rows.length ≤ MAX_MONITOR_PENDING := by
  induction ops using List.reverseRecOn with
  | nil => exact Nat.zero_le _
  | append_singleton ops op ih =>
    rw [run, List.foldl_append]
    exact bounded_apply ih op

end Bound

section Measured

/-- A close measures from the last open of its key, if nothing else happened to the key since. -/
theorem close_measures {w : Watch} (h : Agrees w.clock w.log) (k : MonitorPairKey) (now d : ℕ) :
    (w.clock.close k now).1 = some d ↔
      ∃ t, latest w.log k = some (.opened ⟨k, t⟩) ∧ d = now - t := by
  have hclose : (w.clock.close k now).1 = (w.clock.pending.get? k).map fun o => now - o.since := by
    unfold Clock.close
    cases w.clock.pending.get? k <;> rfl
  rw [hclose, Option.map_eq_some_iff]
  constructor
  · rintro ⟨o, hget, rfl⟩
    have hkey := ((Table.get?_eq_some _ _ _).mp hget).2
    rw [h.held] at hget
    refine ⟨o.since, ?_, rfl⟩
    cases hlatest : latest w.log k with
    | none => simp [hlatest, standing] at hget
    | some e =>
      cases e <;> simp only [hlatest, standing, Option.some.injEq, reduceCtorEq] at hget
      rw [hget, ← hkey]
  · rintro ⟨t, hlatest, rfl⟩
    refine ⟨⟨k, t⟩, ?_, rfl⟩
    rw [h.held, hlatest]
    rfl

/-- A closing event measures from the opening event of its own pair, thread and monitor. -/
theorem span_measures {w : Watch} (h : Agrees w.clock w.log) (kind : MonitorKind)
    (thread : ThreadId) (monitor : ObjectId) (now d : ℕ) (i : Iteration) :
    (span_monitor_event w.clock kind thread monitor now i).1 = .closed (some d) ↔
      (MonitorPair.of kind).2 = false ∧
      ∃ t, latest w.log (MonitorKind.key kind thread monitor) =
        some (.opened ⟨MonitorKind.key kind thread monitor, t⟩) ∧ d = now - t := by
  rw [← close_measures h]
  unfold span_monitor_event
  cases (MonitorPair.of kind).2 <;> simp

/-- What an `open_` evicts: one of the earliest halves, to make room for a key that is not held. -/
def EvictsEarliest (c : Clock) (op : Op) : Prop :=
  ∀ h, .evicted h ∈ c.effects op → ∃ key now i, op = .open_ key now i ∧
    c.pending.get? key = none ∧ c.pending.rows.length = MAX_MONITOR_PENDING ∧
    h ∈ c.pending.rows ∧ ∀ h' ∈ c.pending.rows, h.since ≤ h'.since

theorem evicts_earliest {c : Clock} (hc : c.pending.rows.length ≤ MAX_MONITOR_PENDING) (op : Op) :
    EvictsEarliest c op := by
  intro h hh
  cases op with
  | open_ key now i =>
    simp only [Clock.effects, List.mem_append, Option.mem_toList, Option.map_eq_some_iff,
      List.mem_singleton, reduceCtorEq, or_false, Effect.evicted.injEq] at hh
    obtain ⟨o, ho, rfl⟩ := hh
    obtain ⟨hfull, habsent, hmem, hleast⟩ := oldest_some ho
    exact ⟨key, now, i, rfl, habsent, le_antisymm hc hfull, hmem, hleast⟩
  | close key now => simp [Clock.effects] at hh
  | forget_pair pair => simp [Clock.effects] at hh
  | clear => simp [Clock.effects] at hh

/-- The count of evictions is a `u64` that stops at its maximum. -/
theorem stopwatch_meets_spec (ops : List Op) :
    (∀ k now d, ((run ops).clock.close k now).1 = some d ↔
      ∃ t, latest (run ops).log k = some (.opened ⟨k, t⟩) ∧ d = now - t) ∧
    (∀ op, EvictsEarliest (run ops).clock op) ∧
    (run ops).clock.pending.rows.length ≤ MAX_MONITOR_PENDING ∧
    (run ops).clock.dropped = min (evictions (run ops).log) 18446744073709551615 :=
  ⟨close_measures (agrees_run ops), evicts_earliest (bounded_run ops), bounded_run ops,
    (agrees_run ops).dropped⟩

def walk : Iteration := ⟨fun halves => halves, fun _ => List.Perm.rfl⟩

/-- Threads block one after another, and none of them ever acquires the monitor. -/
def blocked (n : ℕ) : List Op :=
  (List.range n).map fun t => .open_ ⟨t, 0, .contended⟩ 0 walk

theorem length_insert_new (t : Table Half.key) {h : Half} (hh : t.get? h.key = none) :
    (t.insert h).rows.length = t.rows.length + 1 := by
  have hinsert := Table.total_insert (fun _ => 1) t h
  rw [t.erase_eq_self hh] at hinsert
  simpa only [length_eq_total] using hinsert

theorem blocked_evictions (n : ℕ) :
    (∀ h ∈ (run (blocked n)).clock.pending.rows, h.key.thread < n) ∧
    (run (blocked n)).clock.pending.rows.length = min n 256 ∧
    evictions (run (blocked n)).log = n - 256 := by
  induction n with
  | zero => exact ⟨fun h hh => absurd hh List.not_mem_nil, rfl, rfl⟩
  | succ n ih =>
    obtain ⟨hthreads, hlength, hcount⟩ := ih
    have hrun : run (blocked (n + 1)) =
        (run (blocked n)).step (.open_ ⟨n, 0, .contended⟩ 0 walk) := by
      simp only [run, blocked, List.range_succ, List.map_append, List.foldl_append]
      rfl
    rw [hrun]
    generalize run (blocked n) = w at hthreads hlength hcount
    have hnew : w.clock.pending.get? ⟨n, 0, .contended⟩ = none := by
      rw [Table.get?_eq_none]
      intro h hh hkey
      have hlt := hthreads h hh
      rw [hkey] at hlt
      exact absurd hlt (lt_irrefl n)
    simp only [Watch.step, Clock.apply, Clock.open_, Clock.make_room, Clock.effects]
    cases ho : w.clock.oldest ⟨n, 0, .contended⟩ walk with
    | none =>
      have hroom := (oldest_none ho).resolve_right (by simp [hnew])
      simp only [MAX_MONITOR_PENDING] at hroom
      refine ⟨fun h hh => ?_, ?_, ?_⟩
      · rcases (Table.mem_insert _ _ _).mp hh with ⟨hh, -⟩ | rfl
        · exact (hthreads h hh).trans n.lt_succ_self
        · exact n.lt_succ_self
      · dsimp only
        rw [length_insert_new _ hnew]
        omega
      · have hsame : evictions (w.log ++ [Effect.opened ⟨⟨n, 0, .contended⟩, 0⟩]) =
            evictions w.log := by
          rw [evictions, List.foldl_append]
          rfl
        have hcount' : n - 256 = n + 1 - 256 := by omega
        exact hsame.trans (hcount.trans hcount')
    | some o =>
      obtain ⟨hfull, -, hmem, -⟩ := oldest_some ho
      simp only [MAX_MONITOR_PENDING] at hfull
      have herase := length_erase w.clock.pending (held_of_mem _ hmem)
      have hnew' : (w.clock.pending.erase o.key).get? ⟨n, 0, .contended⟩ = none := by
        rw [Table.get?_erase, hnew, ite_self]
      refine ⟨fun h hh => ?_, ?_, ?_⟩
      · rcases (Table.mem_insert _ _ _).mp hh with ⟨hh, -⟩ | rfl
        · exact (hthreads h ((Table.mem_erase _ _ _).mp hh).1).trans n.lt_succ_self
        · exact n.lt_succ_self
      · dsimp only
        rw [length_insert_new _ hnew']
        omega
      · have hmore : evictions (w.log ++ [.evicted o, .opened ⟨⟨n, 0, .contended⟩, 0⟩]) =
            evictions w.log + 1 := by
          rw [evictions, List.foldl_append]
          rfl
        have hcount' : n - 256 + 1 = n + 1 - 256 := by omega
        exact hmore.trans ((congrArg (· + 1) hcount).trans hcount')

/-- After as many evictions as a `u64` can hold, one more is not counted. -/
theorem dropped_saturates :
    (run (blocked 18446744073709551872)).clock.dropped ≠
      evictions (run (blocked 18446744073709551872)).log := by
  have hdropped := (agrees_run (blocked 18446744073709551872)).dropped
  have hcount := (blocked_evictions 18446744073709551872).2.2
  rw [hdropped, hcount]
  omega

end Measured

end JavaDebug.MonitorClock
