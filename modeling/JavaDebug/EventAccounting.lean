import JavaDebug.Session
import Mathlib.Data.List.Range
import Mathlib.Data.List.Perm.Basic

/-!
The event ring over whole runs. A run pushes hits, drains the ring and writes
rescue notes in any order. `Account` keeps beside the ring every number that a
push gave out, every record it filed, what the drains threw away, and which
numbers were out when the latest note was written.
-/
namespace JavaDebug.EventAccounting

open Jdwp Session

section Ring

structure EventTail where
  shown : List EventRecord
  unshown : ℕ
  dropped : ℕ
  deriving DecidableEq

variable (r : EventRing)

/-- `EventRing::push` with the number it returns. -/
def push_numbered (set : EventSet) (escalation : Option FailedEscalation) : ℕ × EventRing :=
  let r := r.push set escalation
  (r.seq, r)

def tail (limit : ℕ) : EventTail :=
  let total := r.held.length
  let take := min (max limit 1) total
  let unshown := total - take
  ⟨r.held.drop unshown, unshown, r.dropped⟩

def clear : EventRing := { r with held := [] }

def watchdog_note_for (newest_seq : Option ℕ) : Option WatchdogOutcome :=
  match r.watchdog_note, r.watchdog_seq, newest_seq with
  | some note, some at_, some newest => if newest ≤ at_ then some note else none
  | _, _, _ => none

end Ring

section Runs

inductive Op
  | push (set : EventSet) (escalation : Option FailedEscalation)
  | clear
  | note_watchdog (note : WatchdogOutcome)

structure Account where
  ring : EventRing
  given : List ℕ
  filed : List EventRecord
  drained : List EventRecord
  noted : Option (List ℕ)

def Account.new : Account := ⟨.new, [], [], [], none⟩

def Account.step (a : Account) : Op → Account
  | .push set escalation =>
    let pushed := push_numbered a.ring set escalation
    { a with
      ring := pushed.2
      given := a.given ++ [pushed.1]
      filed := a.filed ++ [⟨pushed.1, set, escalation⟩] }
  | .clear => { a with ring := EventAccounting.clear a.ring, drained := a.drained ++ a.ring.held }
  | .note_watchdog note => { a with ring := a.ring.note_watchdog note, noted := some a.given }

def run (ops : List Op) : Account := ops.foldl Account.step .new

/-- The numbers that were given out after the latest note. -/
def Account.since_note (a : Account) : List ℕ :=
  match a.noted with
  | some before => a.given.drop before.length
  | none => a.given

end Runs

section Invariant

/-- What every run leaves. -/
structure Balanced (a : Account) : Prop where
  seq : a.ring.seq = a.given.length
  given : a.given = List.range' 1 a.given.length
  numbered : a.filed.map EventRecord.seq = a.given
  held : a.ring.held.map EventRecord.seq =
    List.range' (a.ring.seq + 1 - a.ring.held.length) a.ring.held.length
  bounded : a.ring.held.length ≤ MAX_EVENTS
  within : a.ring.held.length ≤ a.ring.seq
  accounted : ∃ evicted : List EventRecord, evicted.length = a.ring.dropped ∧
    (evicted ++ a.drained ++ a.ring.held).Perm a.filed
  stamped : a.ring.watchdog_seq = a.noted.map List.length
  written : a.ring.watchdog_note.isSome = a.noted.isSome
  before : ∀ l, a.noted = some l → l.length ≤ a.given.length

theorem balanced_new : Balanced .new :=
  ⟨rfl, rfl, rfl, rfl, Nat.zero_le _, Nat.zero_le _, ⟨[], rfl, List.Perm.refl _⟩, rfl, rfl,
    fun _ h => by cases h⟩

variable (r : EventRing) {held : List EventRecord}

theorem push_held (set : EventSet) (escalation : Option FailedEscalation) :
    (r.push set escalation).held =
      (if MAX_EVENTS ≤ r.held.length then r.held.drop 1 else r.held) ++
        [⟨r.seq + 1, set, escalation⟩] := by
  unfold EventRing.push
  split <;> rfl

theorem push_dropped (set : EventSet) (escalation : Option FailedEscalation) :
    (r.push set escalation).dropped =
      r.dropped + if MAX_EVENTS ≤ r.held.length then 1 else 0 := by
  unfold EventRing.push
  split <;> rfl

theorem push_note (set : EventSet) (escalation : Option FailedEscalation) :
    (r.push set escalation).watchdog_note = r.watchdog_note ∧
      (r.push set escalation).watchdog_seq = r.watchdog_seq := by
  unfold EventRing.push
  split <;> exact ⟨rfl, rfl⟩

/-- A record more, and one that may have gone at the front: the numbers stay consecutive. -/
theorem consecutive_push {seq : ℕ} (record : EventRecord) (hseq : record.seq = seq + 1)
    (hlen : held.length ≤ seq)
    (h : held.map EventRecord.seq = List.range' (seq + 1 - held.length) held.length) :
    (held ++ [record]).map EventRecord.seq =
      List.range' (seq + 1 + 1 - (held ++ [record]).length) (held ++ [record]).length := by
  have hstart : seq + 1 + 1 - (held.length + 1) = seq + 1 - held.length := by omega
  rw [List.map_append, h, List.length_append, List.length_singleton, hstart,
    List.range'_concat, List.map_singleton, hseq]
  congr 2
  omega

theorem consecutive_drop {seq : ℕ} (hlen : held.length ≤ seq)
    (h : held.map EventRecord.seq = List.range' (seq + 1 - held.length) held.length) :
    (held.drop 1).map EventRecord.seq =
      List.range' (seq + 1 - (held.drop 1).length) (held.drop 1).length := by
  cases held with
  | nil => rfl
  | cons record rest =>
    have hpos : seq + 1 - (rest.length + 1) + 1 = seq + 1 - rest.length := by
      rw [List.length_cons] at hlen
      omega
    rw [List.length_cons, List.range'_succ, List.map_cons, hpos] at h
    exact (List.cons.inj h).2

theorem make_room (h : held.length ≤ MAX_EVENTS) :
    ∃ evicted kept, held = evicted ++ kept ∧
      (if MAX_EVENTS ≤ held.length then held.drop 1 else held) = kept ∧
      evicted.length = (if MAX_EVENTS ≤ held.length then 1 else 0) ∧ kept.length < MAX_EVENTS := by
  have hmax : MAX_EVENTS = 100 := rfl
  by_cases hfull : MAX_EVENTS ≤ held.length
  · refine ⟨held.take 1, held.drop 1, (List.take_append_drop 1 held).symm, if_pos hfull, ?_, ?_⟩
    · rw [if_pos hfull, List.length_take]
      omega
    · rw [List.length_drop]
      omega
  · exact ⟨[], held, rfl, if_neg hfull, (if_neg hfull).symm, by omega⟩

theorem balanced_push {a : Account} (h : Balanced a) (set : EventSet)
    (escalation : Option FailedEscalation) : Balanced (a.step (.push set escalation)) := by
  obtain ⟨evicted, kept, hsplit, hkept, hone, hroom⟩ := make_room h.bounded
  have hseq := EventRing.push_seq a.ring set escalation
  have hheld := push_held a.ring set escalation
  rw [hkept] at hheld
  have hlen : a.ring.held.length = evicted.length + kept.length := by
    rw [hsplit, List.length_append]
  have hwithin := h.within
  have hgiven : (a.step (.push set escalation)).given = a.given ++ [a.ring.seq + 1] := by
    show a.given ++ [(a.ring.push set escalation).seq] = _
    rw [hseq]
  have hlast : (a.given ++ [a.ring.seq + 1]).length = a.given.length + 1 := by
    rw [List.length_append, List.length_singleton]
  refine ⟨?_, ?_, ?_, ?_, ?_, ?_, ?_, ?_, ?_, fun l hl => ?_⟩
  · rw [hgiven, hlast, ← h.seq]
    exact hseq
  · rw [hgiven, hlast, List.range'_concat, ← h.given, ← h.seq]
    congr 2
    omega
  · show (a.filed ++ [_]).map EventRecord.seq = _
    rw [List.map_append, h.numbered]
    rfl
  · show (a.ring.push set escalation).held.map EventRecord.seq = _
    have hconsecutive : kept.map EventRecord.seq =
        List.range' (a.ring.seq + 1 - kept.length) kept.length := by
      rw [← hkept]
      split
      · exact consecutive_drop h.within h.held
      · exact h.held
    have hnext := consecutive_push ⟨a.ring.seq + 1, set, escalation⟩ rfl (by omega) hconsecutive
    rw [hheld, hnext]
    show _ = List.range' ((a.ring.push set escalation).seq + 1 -
      (a.ring.push set escalation).held.length) (a.ring.push set escalation).held.length
    rw [hseq, hheld]
  · show (a.ring.push set escalation).held.length ≤ _
    rw [hheld, List.length_append, List.length_singleton]
    omega
  · show (a.ring.push set escalation).held.length ≤ (a.ring.push set escalation).seq
    rw [hheld, hseq, List.length_append, List.length_singleton]
    omega
  · obtain ⟨gone, hgone, hperm⟩ := h.accounted
    refine ⟨gone ++ evicted, ?_, ?_⟩
    · show _ = (a.ring.push set escalation).dropped
      rw [push_dropped, List.length_append, hgone, hone]
    · show (gone ++ evicted ++ a.drained ++ (a.ring.push set escalation).held).Perm
        (a.filed ++ [⟨(a.ring.push set escalation).seq, set, escalation⟩])
      rw [hheld, hseq, ← List.append_assoc]
      refine List.Perm.append_right _ (List.Perm.trans ?_ hperm)
      rw [hsplit]
      simp only [List.append_assoc]
      refine List.Perm.append_left gone ?_
      rw [← List.append_assoc, ← List.append_assoc]
      exact List.perm_append_comm.append_right kept
  · exact (push_note a.ring set escalation).2.trans h.stamped
  · show (a.ring.push set escalation).watchdog_note.isSome = _
    rw [(push_note a.ring set escalation).1]
    exact h.written
  · rw [hgiven, hlast]
    exact Nat.le_succ_of_le (h.before l hl)

theorem balanced_clear {a : Account} (h : Balanced a) : Balanced (a.step .clear) := by
  refine ⟨h.seq, h.given, h.numbered, rfl, Nat.zero_le _, Nat.zero_le _, ?_, h.stamped, h.written,
    h.before⟩
  obtain ⟨gone, hgone, hperm⟩ := h.accounted
  refine ⟨gone, hgone, ?_⟩
  show (gone ++ (a.drained ++ a.ring.held) ++ []).Perm a.filed
  rw [List.append_nil, ← List.append_assoc]
  exact hperm

theorem balanced_note {a : Account} (h : Balanced a) (note : WatchdogOutcome) :
    Balanced (a.step (.note_watchdog note)) := by
  refine ⟨h.seq, h.given, h.numbered, h.held, h.bounded, h.within, h.accounted, ?_, rfl,
    fun l hl => ?_⟩
  · exact congrArg some h.seq
  · rw [← Option.some.inj hl]
    exact le_rfl

theorem balanced_run (ops : List Op) : Balanced (run ops) := by
  have hstep : ∀ a, Balanced a → Balanced (ops.foldl Account.step a) := by
    induction ops with
    | nil => exact fun _ h => h
    | cons op rest ih =>
      intro a h
      refine ih _ ?_
      cases op with
      | push set escalation => exact balanced_push h set escalation
      | clear => exact balanced_clear h
      | note_watchdog note => exact balanced_note h note
  exact hstep _ balanced_new

end Invariant

section Spec

variable {a : Account}

theorem tail_counts (r : EventRing) (limit : ℕ) :
    (tail r limit).shown.length = min (max limit 1) r.held.length ∧
      (tail r limit).shown.length + (tail r limit).unshown = r.held.length := by
  unfold tail
  simp only [List.length_drop]
  omega

theorem tail_newest (r : EventRing) (limit : ℕ) : ∃ older, r.held = older ++ (tail r limit).shown ∧
    older.length = (tail r limit).unshown := by
  refine ⟨r.held.take (tail r limit).unshown, (List.take_append_drop _ _).symm, ?_⟩
  rw [List.length_take]
  simp only [tail]
  omega

theorem note_for (h : Balanced a) (n : ℕ) :
    (watchdog_note_for a.ring (some n)).isSome ↔ ∃ l, a.noted = some l ∧ n ≤ l.length := by
  have hstamp := h.stamped
  have hwritten := h.written
  unfold watchdog_note_for
  cases hnoted : a.noted with
  | none =>
    rw [hnoted] at hstamp hwritten
    rw [Option.isSome_none, Option.isSome_eq_false_iff, Option.isNone_iff_eq_none] at hwritten
    simp [hwritten]
  | some l =>
    rw [hnoted] at hstamp hwritten
    obtain ⟨note, hnote⟩ := Option.isSome_iff_exists.mp hwritten
    rw [hnote, hstamp]
    simp only [Option.map_some]
    by_cases hle : n ≤ l.length
    · simp [hle]
    · simp [hle]

/-- A number that is out: the note is shown unless it, or an earlier one, came after the note. -/
theorem superseded_iff (h : Balanced a) {l : List ℕ} (hl : a.noted = some l) {n : ℕ}
    (hn : n ≤ a.given.length) : n ≤ l.length ↔ ∀ m ∈ a.since_note, ¬ m ≤ n := by
  have hafter : a.since_note = List.range' (1 + l.length) (a.given.length - l.length) := by
    unfold Account.since_note
    rw [hl]
    show a.given.drop l.length = _
    rw [h.given, List.drop_range', Nat.mul_one, List.length_range']
  rw [hafter]
  constructor
  · intro hle m hm hmn
    have hlow := (List.mem_range'_1.mp hm).1
    omega
  · intro hall
    by_contra hlt
    exact hall n (List.mem_range'_1.mpr (by omega)) le_rfl

end Spec

section Accounting

/-- The ring at one moment of a run. -/
structure Accounts (a : Account) : Prop where
  counted : a.ring.seq = a.given.length
  fresh : a.given.Nodup
  numbered : a.filed.map EventRecord.seq = a.given
  consecutive : a.ring.held.map EventRecord.seq =
    List.range' (a.ring.seq + 1 - a.ring.held.length) a.ring.held.length
  bounded : a.ring.held.length ≤ MAX_EVENTS
  accounted : ∃ evicted : List EventRecord, evicted.length = a.ring.dropped ∧
    (evicted ++ a.drained ++ a.ring.held).Perm a.filed
  shown : ∀ limit, (tail a.ring limit).shown.length = min (max limit 1) a.ring.held.length ∧
    (tail a.ring limit).shown.length + (tail a.ring limit).unshown = a.ring.held.length ∧
    (tail a.ring limit).dropped = a.ring.dropped ∧
    ∃ older, a.ring.held = older ++ (tail a.ring limit).shown
  note : ∀ n ≤ a.ring.seq, (watchdog_note_for a.ring (some n)).isSome ↔
    a.noted.isSome ∧ ∀ m ∈ a.since_note, ¬ m ≤ n

theorem event_ring_accounts (ops : List Op) : Accounts (run ops) := by
  have h := balanced_run ops
  refine ⟨h.seq, ?_, h.numbered, h.held, h.bounded, h.accounted, fun limit => ?_, fun n hn => ?_⟩
  · rw [h.given]
    exact List.nodup_range'
  · obtain ⟨hshown, hsum⟩ := tail_counts (run ops).ring limit
    obtain ⟨older, holder, -⟩ := tail_newest (run ops).ring limit
    exact ⟨hshown, hsum, rfl, older, holder⟩
  · rw [note_for h, h.seq] at *
    constructor
    · rintro ⟨l, hl, hle⟩
      exact ⟨by rw [hl]; rfl, (superseded_iff h hl hn).mp hle⟩
    · rintro ⟨hsome, hall⟩
      obtain ⟨l, hl⟩ := Option.isSome_iff_exists.mp hsome
      exact ⟨l, hl, (superseded_iff h hl hn).mpr hall⟩

/-- The number is not out yet: the note is withheld although nothing came after it. -/
theorem unborn_number_unnoted : ¬ ∀ (ops : List Op) (n : ℕ),
    (watchdog_note_for (run ops).ring (some n)).isSome ↔
      (run ops).noted.isSome ∧ ∀ m ∈ (run ops).since_note, ¬ m ≤ n := by
  intro h
  have hnone := h [.note_watchdog (.resumed [])] 1
  have hshown := hnone.mpr ⟨rfl, fun m hm => by cases hm⟩
  cases hshown

end Accounting

end JavaDebug.EventAccounting
