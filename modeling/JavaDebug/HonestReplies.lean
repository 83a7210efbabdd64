import JavaDebug.Replies
import JavaDebug.Runs

/-!
When a reply that says "it runs" is true. The tools that resume the VM look at
one thread, or at none, so the answer depends on how deep the others are; the
ones that resume a single thread take an unanswered read for a zero.
-/
namespace JavaDebug.HonestReplies

open Jdwp Wire
open Resuming NestedSuspend ResumeLoops
open Replies Runs

inductive Resumer
  | continue_
  | step (thread_id : Option ThreadId) (depth : ℕ) (exclude only : List String)
  | panic
  | thread_dump
  | watchdog (secs : ℕ)
  | resume_thread (thread_id : Option ThreadId)

variable (w : World)

/-- Every live thread runs, but for those the reply names. -/
def RunsExcept (named : List ThreadId) : Prop :=
  ∀ t ∈ w.jvm.threads, w.jvm.suspend_count t = 0 ∨ t ∈ named

/-- If the reply says that the VM (or the thread) runs, it does. -/
def Honest : Resumer → Prop
  | .continue_ => ∀ r, (handle_continue.run w).1 = .ok r → r.note.runs = true →
      RunsExcept (handle_continue.run w).2 (r.still_held.map Prod.fst)
  | .step thread_id depth exclude only =>
    (∃ tid, ((handle_step thread_id depth exclude only).run w).1 = .ok tid) →
      RunsExcept ((handle_step thread_id depth exclude only).run w).2 []
  | .panic => ∀ r, (handle_panic.run w).1 = .ok r → r.note.runs = true →
      RunsExcept (handle_panic.run w).2 r.stuck
  | .thread_dump =>
    (∃ n, ((handle_thread_dump true).run w).1 = .ok (.verified_running n)) →
      RunsExcept ((handle_thread_dump true).run w).2 []
  | .watchdog secs => (∃ d, ((rescue_overdue_vm secs).run w).1 = some (.resumed d)) →
      RunsExcept ((rescue_overdue_vm secs).run w).2 []
  | .resume_thread thread_id => ∀ tid, pick_thread w.session.suspensions thread_id = .ok tid →
      ((handle_resume_thread thread_id).run w).1 = .ok .running →
      ((handle_resume_thread thread_id).run w).2.jvm.suspend_count tid = 0

variable (s : Stage)

variable (k : ℕ)

/-- Of the depths and the answers: the first `k` resumes of the VM are granted, and `k` is the
first number at which the probe thread is no deeper, its read goes unanswered, or the limit is
reached. Without a probe thread it is 1. -/
def LastResume : Prop :=
  match s.last_thread with
  | none => k = 1 ∧ s.resume_all 0 = true
  | some p => 0 < k ∧ k ≤ MAX_RESUME_ATTEMPTS ∧ (∀ i < k, s.resume_all i = true) ∧
      (∀ i, 0 < i → i < k → i < s.depth p ∧ s.read p (i - 1) = true) ∧
      (k = MAX_RESUME_ATTEMPTS ∨ s.depth p ≤ k ∨ s.read p (k - 1) = false)

/-- There the probe thread reads zero: it is no deeper, or a read of it goes unanswered. -/
def ReadsZero : Prop :=
  ∀ p, s.last_thread = some p → s.depth p ≤ k ∨ s.read p (k - 1) = false ∨ s.read p k = false

/-- The number of the first re-read of thread `t` after that. -/
def reread (t : ThreadId) : ℕ :=
  if s.last_thread = some t then
    if s.depth t ≤ k ∨ s.read t (k - 1) = false then k else k + 1
  else 0

theorem stops_iff (p : ThreadId) (k : ℕ) :
    (s.line p).stops (s.depth p) k ↔ s.depth p ≤ k ∨ s.read p (k - 1) = false :=
  or_comm

theorem ends_after_iff (p : ThreadId) (k : ℕ) :
    EndsAfter (s.line p) (s.depth p) 0 MAX_RESUME_ATTEMPTS k ↔
      0 < k ∧ k ≤ MAX_RESUME_ATTEMPTS ∧ (∀ i < k, s.resume_all i = true) ∧
      (∀ i, 0 < i → i < k → i < s.depth p ∧ s.read p (i - 1) = true) ∧
      (k = MAX_RESUME_ATTEMPTS ∨ s.depth p ≤ k ∨ s.read p (k - 1) = false) := by
  have hgo : ∀ i, ¬ (s.line p).stops (s.depth p) i ↔ i < s.depth p ∧ s.read p (i - 1) = true :=
    fun i => by rw [stops_iff, not_or, not_le, Bool.not_eq_false]
  constructor
  · intro h
    have hpos : 0 < k := by
      rcases h.ended with rfl | hk
      · decide
      · exact hk.1
    refine ⟨hpos, h.limit, fun i hi => h.resumed i (Nat.zero_le i) hi,
      fun i h1 h2 => (hgo i).mp (h.needed i h1 h2), ?_⟩
    exact h.ended.imp_right fun hk => (stops_iff s p k).mp hk.2
  · rintro ⟨hpos, hlimit, hres, hneed, hend⟩
    exact ⟨Nat.zero_le k, hlimit, fun i _ hi => hres i hi,
      fun i h1 h2 => (hgo i).mpr (hneed i h1 h2),
      hend.imp_right fun hk => ⟨hpos, (stops_iff s p k).mpr hk⟩⟩

theorem asked_reread {s : Stage} {p : ThreadId} (hp : s.last_thread = some p) {k : ℕ} (hk : 0 < k) :
    (fun t => if t = p then asked_after (s.line p) (s.depth p) 0 k else 0) = reread s k := by
  funext t
  simp only [reread, hp, Option.some.injEq, eq_comm (a := p)]
  by_cases ht : t = p
  · subst ht
    simp only [if_true, asked_after, hk, true_and, stops_iff]
  · simp only [ht, if_false]

/-- A verified resume of the VM comes to an end where the depths and the answers say so. -/
theorem resumes_iff (asked : ThreadId → ℕ) :
    (∃ left, Resumes s k asked left) ↔ LastResume s k ∧ asked = reread s k := by
  unfold Resumes LastResume
  cases hp : s.last_thread with
  | none =>
    have hno : reread s k = fun _ => 0 := by
      funext t
      simp only [reread, hp, reduceCtorEq, if_false]
    rw [hno]
    constructor
    · rintro ⟨left, hg, hk, -, ha⟩
      exact ⟨⟨hk, hg⟩, ha⟩
    · rintro ⟨⟨hk, hg⟩, ha⟩
      exact ⟨0, hg, hk, rfl, ha⟩
  | some p =>
    simp only [ends_after_iff]
    constructor
    · rintro ⟨left, h, ha, -⟩
      exact ⟨h, ha.trans (asked_reread hp h.1)⟩
    · rintro ⟨h, ha⟩
      exact ⟨_, h, ha.trans (asked_reread hp h.1).symm, rfl⟩

theorem resumes_zero_iff (asked : ThreadId → ℕ) :
    Resumes s k asked 0 ↔ LastResume s k ∧ ReadsZero s k ∧ asked = reread s k := by
  have hzero : ∀ {left}, Resumes s k asked left → (left = 0 ↔ ReadsZero s k) := by
    intro left h
    unfold Resumes at h
    unfold ReadsZero
    cases hp : s.last_thread with
    | none =>
      simp only [hp] at h
      simp only [h.2.2.1, reduceCtorEq, false_implies, implies_true]
    | some p =>
      simp only [hp] at h
      obtain ⟨hends, -, rfl⟩ := h
      have hpos := ((ends_after_iff s p k).mp hends).1
      simp only [Option.some.injEq, forall_eq']
      by_cases hs : (s.line p).stops (s.depth p) k
      · simp only [left_after, hpos, hs, true_and, if_true, true_iff]
        exact ((stops_iff s p k).mp hs).imp_right Or.inl
      · have hnot := hs
        rw [stops_iff, not_or] at hnot
        rw [left_after, if_neg fun h => hs h.2, shows_eq_zero]
        constructor
        · exact fun h => h.elim (fun hr => Or.inr (Or.inr hr)) fun hd => absurd hd hnot.1
        · exact fun h => h.elim (fun hd => absurd hd hnot.1) fun h =>
            h.elim (fun hr => absurd hr hnot.2) Or.inl
  constructor
  · intro h
    obtain ⟨hlast, hasked⟩ := (resumes_iff s k asked).mp ⟨0, h⟩
    exact ⟨hlast, (hzero h).mp rfl, hasked⟩
  · rintro ⟨hlast, hreads, hasked⟩
    obtain ⟨left, h⟩ := (resumes_iff s k asked).mpr ⟨hlast, hasked⟩
    exact (hzero h).mpr hreads ▸ h

/-- Where the first `k` resumes of the VM are granted and the probe thread then reads zero, every
live thread is at most that deep, but for those in `spared`. -/
def DeepEnough (spared : ℕ → ThreadId → Prop) : Prop :=
  ∀ k, LastResume s k → ReadsZero s k → ∀ t ∈ s.threads, s.depth t ≤ k ∨ spared k t

theorem asked_eq_reread {s : Stage} {k left : ℕ} {asked : ThreadId → ℕ} (h : Resumes s k asked left)
    : asked = reread s k :=
  ((resumes_iff s k asked).mp ⟨left, h⟩).2

theorem deep_enough_at {s : Stage} {k left : ℕ} {asked : ThreadId → ℕ} (h : Resumes s k asked left)
    (spared : ℕ → ThreadId → Prop) :
    DeepEnough s spared ↔ (left = 0 → ∀ t ∈ s.threads, s.depth t ≤ k ∨ spared k t) := by
  constructor
  · rintro hdeep rfl
    obtain ⟨hlast, hreads, -⟩ := (resumes_zero_iff s k asked).mp h
    exact hdeep k hlast hreads
  · intro hdeep j hlast hreads
    obtain ⟨rfl, -, hz⟩ := h.unique ((resumes_zero_iff s j _).mpr ⟨hlast, hreads, rfl⟩)
    exact hdeep hz

theorem deep_enough_refused {s : Stage} (h : ∀ k asked left, ¬ Resumes s k asked left)
    (spared : ℕ → ThreadId → Prop) : DeepEnough s spared := fun k hlast hreads =>
  absurd ((resumes_zero_iff s k _).mpr ⟨hlast, hreads, rfl⟩) (h k _ 0)

/-- The release of a held thread, `k` VM resumes later, meets no refusal before it is done. -/
def Released (asked : ThreadId → ℕ) (k : ℕ) (t : ThreadId) : Prop :=
  ∀ i ≤ MAX_RESUME_ATTEMPTS, i + k < s.depth t →
    s.read t (asked t + i) = true ∧ (i < MAX_RESUME_ATTEMPTS → s.resume t i = true)

/-- The answers and depths under which each reply is honest. -/
def HonestWhen : Resumer → Prop
  | .continue_ => DeepEnough (stage w) fun k t =>
      Stage.Held (stage w) t ∧ (stage w).read t (reread (stage w) k t) = true
  | .step thread_id depth exclude only => ∀ tid, Steps w tid thread_id depth exclude only →
      grants w .resume_all 0 → ∀ t ∈ w.jvm.threads, w.jvm.suspend_count t ≤ 1
  | .panic => DeepEnough (stage w) fun k t =>
      Stage.Held (stage w) t ∧ Released (stage w) (reread (stage w) k) k t
  | .thread_dump => Dumps w → DeepEnough (dump_stage w) fun _ _ => False
  | .watchdog secs => Overdue w secs → DeepEnough (stage w) fun _ _ => False
  | .resume_thread thread_id => ∀ tid, pick_thread w.session.suspensions thread_id = .ok tid →
      ¬ Gone w tid → grants w (.resume_thread tid) 0 →
        w.jvm.suspend_count tid ≤ 1 ∨ grants w (.suspend_count tid) 0

theorem honest_continue_iff : Honest w .continue_ ↔ HonestWhen w .continue_ := by
  rcases continue_cases w with ⟨k, asked, left, r, hres, hok, hruns, hnames, hset⟩ |
    ⟨hno, ⟨e, he⟩, -⟩
  · obtain rfl := asked_eq_reread hres
    simp only [Honest, HonestWhen, deep_enough_at hres, hok, Except.ok.injEq, forall_eq']
    have hdepth : (handle_continue.run w).2.jvm.suspend_count =
        fun t => w.jvm.suspend_count t - k := hset.depth
    have hth : (handle_continue.run w).2.jvm.threads = w.jvm.threads := hset.threads
    simp only [RunsExcept, hdepth, hth, hnames, Named, hruns]
    refine imp_congr_right fun hz => forall_congr' fun t => forall_congr' fun ht => ?_
    constructor
    · rintro (h | h)
      · exact Or.inl (by simp only [stage]; omega)
      · exact Or.inr ⟨h.1, h.2.1⟩
    · rintro (h | h)
      · exact Or.inl (by simp only [stage] at h; omega)
      · by_cases hk : k < (stage w).depth t
        · exact Or.inr ⟨h.1, h.2, hk⟩
        · exact Or.inl (by simp only [stage] at hk; omega)
  · simp only [Honest, HonestWhen, he, reduceCtorEq, false_implies, implies_true, true_iff]
    exact deep_enough_refused hno _

theorem honest_step_iff (thread_id : Option ThreadId) (depth : ℕ) (exclude only : List String) :
    Honest w (.step thread_id depth exclude only) ↔
      HonestWhen w (.step thread_id depth exclude only) := by
  simp only [Honest, HonestWhen]
  rcases step_cases w thread_id depth exclude only with ⟨tid, hs, hok, hset⟩ | ⟨hno, ⟨e, he⟩, -⟩
  · rw [hok]
    have hdepth : ((handle_step thread_id depth exclude only).run w).2.jvm.suspend_count = fun t =>
        w.jvm.suspend_count t - if grants w .resume_all 0 then 1 else 0 := hset.depth
    have hth : ((handle_step thread_id depth exclude only).run w).2.jvm.threads = w.jvm.threads :=
      hset.threads
    simp only [RunsExcept, hdepth, hth, List.not_mem_nil, or_false]
    constructor
    · intro h u _ hg t ht
      have := h hg t ht
      rw [if_pos hg] at this
      omega
    · intro h hg t ht
      have := h tid hs hg t ht
      rw [if_pos hg]
      omega
  · rw [he]
    simp only [reduceCtorEq, exists_false, false_implies, true_iff]
    exact fun tid h => absurd h (hno tid)

theorem released_after_iff (asked : ThreadId → ℕ) (t : ThreadId) :
    ((released_after s k asked t).2 = 0 → s.depth t - k ≤ (released_after s k asked t).1) ↔
      Released s asked k t := by
  refine (relax_honest_iff _ _ 0 MAX_RESUME_ATTEMPTS).trans ?_
  simp only [Nat.zero_le, forall_const, Nat.zero_add, Released, Nat.lt_sub_iff_add_lt]

theorem panicked_iff (asked : ThreadId → ℕ) (t : ThreadId) :
    (panicked s k asked t = 0 ∨ Stage.Held s t ∧ (released_after s k asked t).2 ≠ 0) ↔
      (s.depth t ≤ k ∨ Stage.Held s t ∧ Released s asked k t) := by
  have hr := released_after_iff s k asked t
  unfold panicked
  by_cases hh : Stage.Held s t
  · rw [if_pos (show (s.books.threads.get? t).isSome = true from hh), ← hr]
    simp only [hh, true_and]
    constructor
    · rintro (h | h)
      · by_cases hk : s.depth t ≤ k
        · exact Or.inl hk
        · exact Or.inr fun _ => by omega
      · exact Or.inr fun hz => absurd hz h
    · intro h
      by_cases hz : (released_after s k asked t).2 = 0
      · rcases h with h | h
        · exact Or.inl (by omega)
        · have := h hz
          exact Or.inl (by omega)
      · exact Or.inr hz
  · rw [if_neg (show ¬ (s.books.threads.get? t).isSome = true from hh)]
    simp only [hh, false_and, or_false]
    omega

theorem honest_panic_iff : Honest w .panic ↔ HonestWhen w .panic := by
  rcases panic_cases w with ⟨k, asked, left, r, hres, hok, hruns, hstuck, hset⟩ | ⟨hno, ⟨e, he⟩, -⟩
  · obtain rfl := asked_eq_reread hres
    have hreply : Honest w .panic ↔ (r.note.runs = true →
        RunsExcept (handle_panic.run w).2 r.stuck) := by
      unfold Honest
      rw [hok]
      exact ⟨fun h => h r rfl, fun h r' hr' => by cases hr'; exact h⟩
    rw [hreply, hruns]
    clear hreply hok
    generalize (handle_panic.run w).2 = w' at hset ⊢
    have hdepth : w'.jvm.suspend_count = panicked (stage w) k (reread (stage w) k) := hset.depth
    have hth : w'.jvm.threads = w.jvm.threads := hset.threads
    simp only [RunsExcept, hdepth, hth, hstuck, panicked_iff, HonestWhen, deep_enough_at hres]
    rfl
  · simp only [Honest, HonestWhen, he, reduceCtorEq, false_implies, implies_true, true_iff]
    exact deep_enough_refused hno _

theorem honest_dump_iff : Honest w .thread_dump ↔ HonestWhen w .thread_dump := by
  simp only [Honest, HonestWhen]
  by_cases hd : Dumps w
  · rcases dump_cases hd with ⟨k, asked, left, hres, hok, hth, hdepth, -, -⟩ | ⟨hno, ⟨e, he⟩, -⟩
    · change ((handle_thread_dump true).run w).2.jvm.threads = _ at hth
      change ((handle_thread_dump true).run w).2.jvm.suspend_count = _ at hdepth
      rw [hok]
      simp only [RunsExcept, hth, hdepth, List.not_mem_nil, or_false, hd, forall_const,
        deep_enough_at hres]
      constructor
      · rintro h rfl t ht
        have := h ⟨k, by simp⟩ t ht
        simp only [dump_stage]
        omega
      · rintro h ⟨n, hn⟩ t ht
        have hz : left = 0 := by
          by_contra hz
          simp [hz] at hn
        have := h hz t ht
        simp only [dump_stage] at this
        omega
    · rw [he]
      simp only [Except.ok.injEq, reduceCtorEq, exists_false, false_implies, hd, forall_const,
        true_iff]
      exact deep_enough_refused hno _
  · have hnone : ¬ ∃ n, ((handle_thread_dump true).run w).1 = .ok (.verified_running n) := by
      rintro ⟨n, h⟩
      exact (no_dump hd).1 n h
    simp only [hnone, false_implies, hd]

theorem honest_watchdog_iff (secs : ℕ) :
    Honest w (.watchdog secs) ↔ HonestWhen w (.watchdog secs) := by
  simp only [Honest, HonestWhen]
  by_cases hd : Overdue w secs
  · rcases rescue_cases hd with ⟨k, asked, left, s, hres, hok, hafter, hout⟩ | ⟨hno, hne, -⟩
    · have hth : ((rescue_overdue_vm secs).run w).2.jvm.threads = w.jvm.threads :=
        (congrArg Stage.threads hout).trans hafter.ground.threads
      have hdepth : ((rescue_overdue_vm secs).run w).2.jvm.suspend_count =
          fun t => w.jvm.suspend_count t - k := (congrArg Stage.depth hout).trans hafter.depth
      rw [hok]
      simp only [RunsExcept, hth, hdepth, List.not_mem_nil, or_false, hd, forall_const,
        deep_enough_at hres, Nat.sub_eq_zero_iff_le]
      rfl
    · have hnone : ¬ ∃ d, ((rescue_overdue_vm secs).run w).1 = some (.resumed d) := by
        rintro ⟨d, h⟩
        exact hne d h
      simp only [hnone, false_implies, hd, forall_const, true_iff]
      exact deep_enough_refused hno _
  · simp only [no_rescue hd, reduceCtorEq, exists_false, false_implies, hd]

theorem honest_resume_thread_iff (thread_id : Option ThreadId) :
    Honest w (.resume_thread thread_id) ↔ HonestWhen w (.resume_thread thread_id) := by
  simp only [Honest, HonestWhen]
  refine forall_congr' fun tid => forall_congr' fun hp => ?_
  rcases resume_thread_picked hp with ⟨hgone, ⟨held, he⟩, -⟩ | ⟨hgone, hrun⟩
  · simp [he, hgone]
  have hg : grants (w.log (.thread_status tid)) (.resume_thread tid) 0 =
      grants w (.resume_thread tid) 0 := grants_log_ne w (by simp) 0
  have hr : grants (w.log (.thread_status tid)) (.suspend_count tid) 0 =
      grants w (.suspend_count tid) 0 := grants_log_ne w (by simp) 0
  have hc : (w.log (.thread_status tid)).jvm.suspend_count = w.jvm.suspend_count := rfl
  have hcases := resume_one_thread_cases (w.log (.thread_status tid)) tid
  rw [hg, hr, hc, ← hrun] at hcases
  simp only [hgone, not_false_eq_true, forall_const]
  rcases hcases with ⟨hgo, hok, hlow⟩ | ⟨hgo, ⟨e, he⟩, -⟩
  · have hdepth : ((handle_resume_thread thread_id).run w).2.jvm.suspend_count tid =
        w.jvm.suspend_count tid - 1 := by
      refine (congrFun hlow.depth tid).trans ?_
      rw [if_pos rfl]
      rfl
    simp only [hok, hgo, forall_const, hdepth]
    by_cases hdeep : 1 < w.jvm.suspend_count tid
    · cases hread : grants w (.suspend_count tid) 0 <;> simp [hdeep]
      omega
    · simp [hdeep]
      omega
  · simp [he, hgo]

/-- The reply is honest exactly under the answers and depths of `HonestWhen`. -/
theorem runs_reply_honest_iff (r : Resumer) : Honest w r ↔ HonestWhen w r := by
  cases r with
  | continue_ => exact honest_continue_iff w
  | step thread_id depth exclude only => exact honest_step_iff w thread_id depth exclude only
  | panic => exact honest_panic_iff w
  | thread_dump => exact honest_dump_iff w
  | watchdog secs => exact honest_watchdog_iff w secs
  | resume_thread thread_id => exact honest_resume_thread_iff w thread_id

/-- Two threads hit the same line before either hit is processed. -/
def both_hit : World :=
  World.begin
    ((Move.listen plain).next ((Move.listen plain).next ((Move.fire (line_hit .all 2) 2).next
      ((Move.fire (line_hit .all 1) 1).next (line_armed none))))) plain

/-- A step resumes once where two hits suspended the VM twice: its reply says that the VM runs,
and every thread is still suspended. -/
theorem step_reply_dishonest :
    (∃ w, Run (fun _ _ => True) (World.start [1, 2] plain) w ∧ both_hit = w.begin plain) ∧
    both_hit.queue = [] ∧ ¬ Honest both_hit (.step (some 1) 0 [] []) := by
  refine ⟨⟨_, ?_, rfl⟩, by decide, fun h => ?_⟩
  · refine .tail (.tail (.tail (.tail (.single (Step.intro (.call _ _) trivial trivial))
      (Step.intro (.fire _ _) ?_ trivial)) (Step.intro (.fire _ _) ?_ trivial))
      (Step.intro (.listen _) trivial trivial)) (Step.intro (.listen _) trivial trivial)
    · change Fires _ _ _
      decide
    · change Fires _ _ _
      decide
  · have hcount := h ⟨1, rfl⟩ 2 (by decide)
    revert hcount
    decide

end JavaDebug.HonestReplies
