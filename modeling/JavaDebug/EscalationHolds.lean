import JavaDebug.Session

/-!
What the records of held threads stand for. A thread may be held by suspends
the caller asked for and, besides, by the event of a hit whose escalation
failed; a release gives back one of the caller's suspends first. The record is
kept as long as anything is left, except that a release which gives back the
caller's last suspend drops the event's hold with it.
-/
namespace JavaDebug.EscalationHolds

open Jdwp Session

inductive Op
  | hold_thread (tid : ThreadId) (now : ℕ)
  | hold_thread_for_failed_escalation (tid : ThreadId) (now : ℕ) (req : RequestId)
  | release_thread (tid : ThreadId)
  | forget_thread (tid : ThreadId)
  | forget_all_threads
  deriving DecidableEq

def step (s : Suspensions) : Op → Suspensions
  | .hold_thread tid now => s.hold_thread tid now
  | .hold_thread_for_failed_escalation tid now req =>
    s.hold_thread_for_failed_escalation tid now req
  | .release_thread tid => s.release_thread tid
  | .forget_thread tid => s.forget_thread tid
  | .forget_all_threads => s.forget_all_threads

def run (s : Suspensions) (ops : List Op) : Suspensions := ops.foldl step s

/-- What holds a thread: the caller's suspends, and the event of a failed escalation. -/
structure Standing where
  own : ℕ
  event : Option RequestId
  since : ℕ
  deriving DecidableEq

namespace Standing

/-- One suspend is given back, the caller's first; `none` when nothing is left. -/
def give_back (st : Standing) : Option Standing :=
  if st.own = 0 then none
  else if st.own = 1 ∧ st.event = none then none
  else some { st with own := st.own - 1 }

def follow (tid : ThreadId) (st : Option Standing) : Op → Option Standing
  | .hold_thread t now =>
    if t = tid then
      some (st.elim ⟨1, none, now⟩ fun st => { st with own := st.own + 1 })
    else st
  | .hold_thread_for_failed_escalation t now req =>
    if t = tid then
      some (st.elim ⟨0, some req, now⟩ fun st => { st with event := some req })
    else st
  | .release_thread t => if t = tid then st.bind give_back else st
  | .forget_thread t => if t = tid then none else st
  | .forget_all_threads => none

/-- The record that a thread held in this way should have. -/
def record (tid : ThreadId) (st : Standing) : ThreadSuspend :=
  ⟨tid, st.since, st.own, st.event.elim .requested .failed_escalation⟩

end Standing

def standing (tid : ThreadId) (ops : List Op) : Option Standing :=
  ops.foldl (Standing.follow tid) none

/-- The step neither gives back the last of the caller's suspends of a thread that an event holds
too, nor counts more suspends than a `u32` can. -/
def Fine (s : Suspensions) : Op → Prop
  | .release_thread tid => ∀ r, s.threads.get? tid = some r →
    ∀ req, r.hold = .failed_escalation req → r.issued ≠ 1
  | .hold_thread tid _ => ∀ r, s.threads.get? tid = some r → r.issued < 4294967295
  | _ => True

def AllFine (s : Suspensions) : List Op → Prop
  | [] => True
  | op :: ops => Fine s op ∧ AllFine (step s op) ops

section Agreement

/-- Every record says what its thread is held by. -/
def Agrees (s : Suspensions) (g : ThreadId → Option Standing) : Prop :=
  ∀ tid, s.threads.get? tid = (g tid).map (Standing.record tid)

variable {s : Suspensions} {g : ThreadId → Option Standing}

theorem agrees_iff_at {s' : Suspensions} {g' : ThreadId → Option Standing} (h : Agrees s g)
    (t : ThreadId) (hs : ∀ tid, tid ≠ t → s'.threads.get? tid = s.threads.get? tid)
    (hg : ∀ tid, tid ≠ t → g' tid = g tid) :
    Agrees s' g' ↔ s'.threads.get? t = (g' t).map (Standing.record t) := by
  refine ⟨fun h' => h' t, fun h' tid => ?_⟩
  by_cases ht : tid = t
  · rw [ht]
    exact h'
  · rw [hs tid ht, hg tid ht]
    exact h tid

theorem hold_agrees_iff (h : Agrees s g) (t : ThreadId) (now : ℕ) :
    Agrees (s.hold_thread t now) (fun tid => Standing.follow tid (g tid) (.hold_thread t now)) ↔
      Fine s (.hold_thread t now) := by
  refine (agrees_iff_at h t (fun tid ht => ?_) fun tid ht => if_neg (Ne.symm ht)).trans ?_
  · rw [Suspensions.get?_hold, if_neg ht]
  rw [Suspensions.get?_hold, if_pos rfl]
  simp only [Fine, if_true, h t]
  cases g t with
  | none => simp [Standing.record]
  | some st =>
    simp only [Option.map_some, Option.elim_some, Standing.record, Option.some.injEq,
      ThreadSuspend.mk.injEq, true_and, and_true, forall_eq', saturating_succ]
    omega

theorem fail_agrees (h : Agrees s g) (t : ThreadId) (now : ℕ) (req : RequestId) :
    Agrees (s.hold_thread_for_failed_escalation t now req) (fun tid =>
      Standing.follow tid (g tid) (.hold_thread_for_failed_escalation t now req)) := by
  refine (agrees_iff_at h t (fun tid ht => ?_) fun tid ht => if_neg (Ne.symm ht)).mpr ?_
  · rw [Suspensions.get?_fail, if_neg ht]
  rw [Suspensions.get?_fail, if_pos rfl]
  simp only [if_true, h t]
  cases g t <;> rfl

theorem release_agrees_iff (h : Agrees s g) (t : ThreadId) :
    Agrees (s.release_thread t) (fun tid => Standing.follow tid (g tid) (.release_thread t)) ↔
      Fine s (.release_thread t) := by
  refine (agrees_iff_at h t (fun tid ht => ?_) fun tid ht => if_neg (Ne.symm ht)).trans ?_
  · rw [Suspensions.get?_release, if_neg ht]
  rw [Suspensions.get?_release, if_pos rfl]
  simp only [Fine, if_true, h t]
  cases g t with
  | none => simp
  | some st =>
    obtain ⟨own, event, since⟩ := st
    simp only [Option.map_some, Option.bind_some, Standing.record, Standing.give_back,
      Option.some.injEq, forall_eq']
    cases event with
    | none =>
      simp only [Option.elim_none, reduceCtorEq, false_implies, implies_true, iff_true, and_true]
      by_cases hzero : own - 1 = 0
      · rw [if_pos hzero]
        split
        · rfl
        · rw [if_pos (by omega)]
          rfl
      · rw [if_neg hzero, if_neg (by omega), if_neg (by omega)]
        rfl
    | some req =>
      simp only [Option.elim_some, ThreadHold.failed_escalation.injEq, forall_eq', reduceCtorEq,
        and_false, if_false]
      by_cases hone : own = 1
      · simp [hone]
      · simp only [hone, ne_eq, not_false_eq_true, iff_true]
        by_cases hzero : own = 0
        · simp [hzero]
        · rw [if_neg (by omega), if_neg hzero]
          rfl

theorem step_agrees_iff (h : Agrees s g) (op : Op) :
    Agrees (step s op) (fun tid => Standing.follow tid (g tid) op) ↔ Fine s op := by
  cases op with
  | hold_thread t now => exact hold_agrees_iff h t now
  | hold_thread_for_failed_escalation t now req =>
    exact iff_of_true (fail_agrees h t now req) trivial
  | release_thread t => exact release_agrees_iff h t
  | forget_thread t =>
    refine iff_of_true ?_ trivial
    refine (agrees_iff_at h t (fun tid ht => (Table.get?_erase _ _ _).trans (if_neg ht))
      fun tid ht => if_neg (Ne.symm ht)).mpr ?_
    show (s.threads.erase t).get? t = (if t = t then none else g t).map _
    rw [Table.get?_erase, if_pos rfl, if_pos rfl]
    rfl
  | forget_all_threads => exact iff_of_true (fun _ => rfl) trivial

theorem run_agrees (h : Agrees s g) {ops : List Op} (hfine : AllFine s ops) :
    Agrees (run s ops) fun tid => ops.foldl (Standing.follow tid) (g tid) := by
  induction ops generalizing s g with
  | nil => exact h
  | cons op ops ih => exact ih ((step_agrees_iff h op).mpr hfine.1) hfine.2

end Agreement

section Claimed

theorem since_stays (s : Suspensions) (op : Op) {tid : ThreadId} {r r' : ThreadSuspend}
    (h : s.threads.get? tid = some r) (h' : (step s op).threads.get? tid = some r') :
    r'.since = r.since := by
  cases op with
  | hold_thread t now =>
    simp only [step, Suspensions.get?_hold] at h'
    split at h'
    · rename_i ht
      rw [← ht, h] at h'
      cases h'
      rfl
    · rw [h] at h'
      cases h'
      rfl
  | hold_thread_for_failed_escalation t now req =>
    simp only [step, Suspensions.get?_fail] at h'
    split at h'
    · rename_i ht
      rw [← ht, h] at h'
      cases h'
      rfl
    · rw [h] at h'
      cases h'
      rfl
  | release_thread t =>
    simp only [step, Suspensions.get?_release] at h'
    split at h'
    · rename_i ht
      rw [← ht, h, Option.bind_some] at h'
      split at h' <;> cases h'
      rfl
    · rw [h] at h'
      cases h'
      rfl
  | forget_thread t =>
    change (s.threads.erase t).get? tid = some r' at h'
    rw [Table.get?_erase] at h'
    split at h'
    · cases h'
    · rw [h] at h'
      cases h'
      rfl
  | forget_all_threads => cases h'

/-- The record and the watchdog's list know the thread, under the request that holds it. -/
def Rescuable (s : Suspensions) (tid : ThreadId) (st : Standing) : Prop :=
  (∃ r, s.threads.get? tid = some r ∧ r.since = st.since ∧
    ∀ req, st.event = some req → r.hold = .failed_escalation req) ∧
  ∀ secs now, secs ≤ now - st.since → tid ∈ s.overdue_threads secs now

/-- A thread that anything still holds can be rescued, as long as no release gives back the
caller's last suspend of a thread that an event holds too. -/
theorem held_threads_rescuable (ops : List Op) :
    (AllFine .new ops → ∀ tid st, standing tid ops = some st → Rescuable (run .new ops) tid st) ∧
    ∀ op tid r r', (run .new ops).threads.get? tid = some r →
      (run .new (ops ++ [op])).threads.get? tid = some r' → r'.since ≤ r.since := by
  refine ⟨fun hfine tid st hst => ?_, fun op tid r r' h h' => ?_⟩
  · have hagrees := run_agrees (g := fun _ => none) (fun _ => rfl) hfine tid
    change _ = (standing tid ops).map _ at hagrees
    rw [hst, Option.map_some] at hagrees
    refine ⟨⟨_, hagrees, rfl, fun req hreq => ?_⟩, fun secs now hsecs => ?_⟩
    · simp [Standing.record, hreq]
    · obtain ⟨hmem, -⟩ := (Table.get?_eq_some _ _ _).mp hagrees
      exact List.mem_map.mpr ⟨_, List.mem_filter.mpr ⟨hmem, decide_eq_true hsecs⟩, rfl⟩
  · rw [run, List.foldl_append] at h'
    exact (since_stays _ op h h').le

/-- The caller suspends a thread, a stop point that fails to escalate holds it too, and the caller
gives it back: the record goes, and the event holds the thread still. -/
theorem release_drops_event :
    (run .new [.hold_thread 5 0, .hold_thread_for_failed_escalation 5 1 7,
      .release_thread 5]).threads.get? 5 = none ∧
    standing 5 [.hold_thread 5 0, .hold_thread_for_failed_escalation 5 1 7,
      .release_thread 5] = some ⟨0, some 7, 0⟩ := by
  decide

/-- Two suspends by the caller, one of them given back. -/
def given_back : List Op :=
  [.hold_thread 5 0, .hold_thread 5 1, .hold_thread_for_failed_escalation 5 2 7,
    .release_thread 5]

theorem rescuable_after_release : Rescuable (run .new given_back) 5 ⟨1, some 7, 0⟩ := by
  have hfine : AllFine .new given_back := by
    refine ⟨fun r hr => ?_, fun r hr => ?_, trivial, fun r hr req hreq => ?_, trivial⟩
    · cases hr
    · cases hr
      decide
    · cases hr
      decide
  exact (held_threads_rescuable given_back).1 hfine 5 _ (by decide)

end Claimed

end JavaDebug.EscalationHolds
