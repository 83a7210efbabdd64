import JavaDebug.NestedSuspend
import JavaDebug.HitEffects
import JavaDebug.Resuming

/-!
The resume loops as instances of `drain` and `relax`: what each does to the
counts, to the books and to the log of commands, and which answers of the wire
decide it. The number of an answer counts the commands of its own kind, so the
reads of one thread are numbered apart from those of another.
-/
namespace JavaDebug.ResumeLoops

open Jdwp StopPoints Session Wire Disarming
open Resuming StateProgram
open NestedSuspend

/-- The wire carries out the `i`-th of the commands `c` still to come. -/
def grants (w : World) (c : Command) (i : ℕ) : Bool :=
  (w.answers.refused c (w.sent.count c + i)).isNone

/-- The answers a loop gets that sends `resume` and reads thread `t`, from `w` on. -/
def line (w : World) (resume : Command) (t : ThreadId) : Line :=
  ⟨grants w resume, grants w (.suspend_count t)⟩

variable (w : World)

theorem grants_zero (c : Command) : grants w c 0 = (w.refuses c).isNone := rfl

theorem grants_log_self (c : Command) (i : ℕ) : grants (w.log c) c i = grants w c (i + 1) := by
  simp only [grants, World.log, List.count_append, List.count_singleton_self]
  congr 2
  omega

theorem grants_log_ne {c d : Command} (h : d ≠ c) (i : ℕ) :
    grants (w.log d) c i = grants w c i := by
  simp [grants, World.log, List.count_append, h]

/-- What decides how a resume goes: the counts, the books, and the answers still to come. -/
structure Stage where
  threads : List ThreadId
  depth : ThreadId → ℕ
  books : Suspensions
  last_thread : Option ThreadId
  clock : ℕ
  resume_all : ℕ → Bool
  read : ThreadId → ℕ → Bool
  resume : ThreadId → ℕ → Bool

def stage (w : World) : Stage :=
  ⟨w.jvm.threads, w.jvm.suspend_count, w.session.suspensions, w.session.last_thread,
    w.answers.now, grants w .resume_all, fun t => grants w (.suspend_count t),
    fun t => grants w (.resume_thread t)⟩

/-- What no resume or read changes. -/
structure SameGround (s s' : Stage) : Prop where
  threads : s'.threads = s.threads
  books : s'.books = s.books
  last_thread : s'.last_thread = s.last_thread
  clock : s'.clock = s.clock

/-- After resumes of the VM and `asked t` reads of each thread `t`. -/
structure After (s s' : Stage) (depth : ThreadId → ℕ) (asked : ThreadId → ℕ) : Prop where
  ground : SameGround s s'
  depth : s'.depth = depth
  read : ∀ t i, s'.read t i = s.read t (asked t + i)
  resume : ∀ t i, s'.resume t i = s.resume t i

theorem suspend_count_or_zero_run (t : ThreadId) (w : World) :
    (suspend_count_or_zero t).run w =
      (if grants w (.suspend_count t) 0 then w.jvm.suspend_count t else 0,
        w.log (.suspend_count t)) := by
  rw [grants_zero]
  cases hr : w.refuses (.suspend_count t) <;>
    simp only [suspend_count_or_zero, run_bind, suspend_count_run, hr] <;> rfl

/-- `w` is where a loop stands that has `issued` resumes and `asked` reads behind it. -/
structure Stands (l : Line) (depth issued asked : ℕ) (resume : Command) (t : ThreadId)
    (w : World) : Prop where
  resume : ∀ i, grants w resume i = l.resume (issued + i)
  read : ∀ i, grants w (.suspend_count t) i = l.read (asked + i)
  depth : w.jvm.suspend_count t = depth - issued

theorem stands_start (resume : Command) (t : ThreadId) :
    Stands (line w resume t) (w.jvm.suspend_count t) 0 0 resume t w :=
  ⟨fun i => by rw [Nat.zero_add]; rfl, fun i => by rw [Nat.zero_add]; rfl, rfl⟩

/-- Where the loop stands one resume and one read later. -/
theorem stands_next {l : Line} {depth issued asked : ℕ} {resume : Command} {t : ThreadId}
    {w : World} (h : Stands l depth issued asked resume t w) (hne : resume ≠ .suspend_count t)
    {f : Jvm → Jvm} (hf : (f w.jvm).suspend_count t = w.jvm.suspend_count t - 1) :
    Stands l depth (issued + 1) (asked + 1) resume t
      (World.log { w.log resume with jvm := f w.jvm } (.suspend_count t)) := by
  refine ⟨fun i => ?_, fun i => ?_, ?_⟩
  · rw [grants_log_ne _ (Ne.symm hne)]
    refine (grants_log_self w resume i).trans ?_
    rw [h.resume, Nat.add_assoc, Nat.add_comm 1]
  · rw [grants_log_self]
    refine (grants_log_ne w hne (i + 1)).trans ?_
    rw [h.read, Nat.add_assoc, Nat.add_comm 1]
  · exact hf.trans (by rw [h.depth]; omega)

section Vm

theorem resume_all_run (w : World) :
    resume_all.run w =
      match w.refuses .resume_all with
      | some e => (.error e, w.log .resume_all)
      | none => (.ok (), { w.log .resume_all with jvm := w.jvm.resume_all }) :=
  perform_run _ _ _

/-- `resume_all_fully` does what `drain` says. -/
theorem resume_all_fully_drains {l : Line} {depth : ℕ} {p : ThreadId} (attempts issued : ℕ)
    {w : World} (h : Stands l depth issued issued .resume_all p w) :
    (match (drain l depth issued attempts).left with
      | none => ∃ e, ((resume_all_fully p issued attempts).run w).1 = .error e
      | some left => ((resume_all_fully p issued attempts).run w).1 =
          .ok ((drain l depth issued attempts).issued, left)) ∧
    After (stage w) (stage ((resume_all_fully p issued attempts).run w).2)
      (fun t => w.jvm.suspend_count t - ((drain l depth issued attempts).issued - issued))
      (fun t => if t = p then (drain l depth issued attempts).asked - issued else 0) := by
  induction attempts generalizing issued w with
  | zero =>
    have hread : grants w (.suspend_count p) 0 = l.read issued := h.read 0
    simp only [resume_all_fully, run_bind, suspend_count_or_zero_run, run_pure, drain, hread,
      h.depth]
    refine ⟨by unfold Line.shows; rfl, ⟨rfl, rfl, rfl, rfl⟩, ?_, fun t i => ?_, fun t i => ?_⟩
    · funext t
      simp [stage, World.log]
    · change grants (w.log (.suspend_count p)) (.suspend_count t) i = grants w (.suspend_count t) _
      by_cases ht : t = p
      · subst ht
        rw [grants_log_self]
        simp [Nat.add_comm]
      · rw [grants_log_ne _ (by simpa using Ne.symm ht)]
        simp [ht]
    · exact grants_log_ne _ (by simp) i
  | succ n ih =>
    have hres : (w.refuses .resume_all).isNone = l.resume issued := h.resume 0
    simp only [resume_all_fully, run_bind, resume_all_run, drain]
    cases hr : w.refuses .resume_all with
    | some e =>
      rw [hr] at hres
      have hfalse : l.resume issued = false := by simpa using hres.symm
      simp only [hfalse, Bool.false_eq_true, if_false, run_pure]
      refine ⟨⟨e, rfl⟩, ⟨rfl, rfl, rfl, rfl⟩, ?_, fun t i => ?_, fun t i => ?_⟩
      · funext t
        simp [stage, World.log]
      · refine (grants_log_ne w (by simp) i).trans ?_
        simp [stage]
      · exact grants_log_ne _ (by simp) i
    | none =>
      rw [hr] at hres
      have htrue : l.resume issued = true := by simpa using hres.symm
      have hnext := stands_next h (by simp) (f := Jvm.resume_all) rfl
      have hshow : (if grants { w.log .resume_all with jvm := w.jvm.resume_all }
          (.suspend_count p) 0 then w.jvm.resume_all.suspend_count p else 0) =
          l.shows depth issued (issued + 1) := by
        have hg : grants { w.log .resume_all with jvm := w.jvm.resume_all } (.suspend_count p) 0 =
            l.read issued := (grants_log_ne w (by simp) 0).trans (h.read 0)
        rw [hg]
        change (if l.read issued then w.jvm.suspend_count p - 1 else 0) = _
        rw [h.depth, Line.shows, Nat.sub_sub]
      simp only [htrue, if_true, run_bind, suspend_count_or_zero_run, hshow, run_ite, run_pure]
      have hask : ∀ t i, grants (World.log { w.log .resume_all with jvm := w.jvm.resume_all }
          (.suspend_count p)) (.suspend_count t) i =
          grants w (.suspend_count t) ((if t = p then 1 else 0) + i) := by
        intro t i
        by_cases ht : t = p
        · subst ht
          rw [grants_log_self, if_pos rfl, Nat.add_comm 1]
          exact grants_log_ne w (by simp) _
        · rw [grants_log_ne _ (by simpa using Ne.symm ht), if_neg ht, Nat.zero_add]
          exact grants_log_ne w (by simp) _
      have hrt : ∀ t i, grants (World.log { w.log .resume_all with jvm := w.jvm.resume_all }
          (.suspend_count p)) (.resume_thread t) i = grants w (.resume_thread t) i := by
        intro t i
        rw [grants_log_ne _ (by simp)]
        exact grants_log_ne w (by simp) i
      by_cases hz : l.shows depth issued (issued + 1) = 0
      · simp only [hz, if_true]
        refine ⟨trivial, ⟨rfl, rfl, rfl, rfl⟩, ?_, fun t i => ?_, hrt⟩
        · funext t
          simp [stage, Jvm.resume_all, World.log]
        · refine (hask t i).trans ?_
          simp [stage]
      · simp only [hz, if_false]
        obtain ⟨hval, hafter⟩ := ih (issued + 1) hnext
        have hbounds := drain_bounds l depth (issued + 1) n
        obtain ⟨⟨hth, hbk, hlast, hck⟩, hdepth, hreads, hresumes⟩ := hafter
        refine ⟨hval, ⟨hth, hbk, hlast, hck⟩, ?_, fun t i => ?_, fun t i => ?_⟩
        · rw [hdepth]
          funext t
          simp only [World.log, Jvm.resume_all]
          omega
        · refine (hreads t i).trans ((hask t _).trans ?_)
          rw [← Nat.add_assoc]
          change grants w _ _ = grants w _ _
          congr 2
          split <;> omega
        · exact (hresumes t i).trans (hrt t i)

def Stage.line (s : Stage) (p : ThreadId) : Line := ⟨s.resume_all, s.read p⟩

/-- A verified VM resume can end so: `k` resumes were carried out, each thread `t` was read
`asked t` times, and the last read showed `left`. Without a probe thread nothing is read. -/
def Resumes (s : Stage) (k : ℕ) (asked : ThreadId → ℕ) (left : ℕ) : Prop :=
  match s.last_thread with
  | none => s.resume_all 0 = true ∧ k = 1 ∧ left = 0 ∧ asked = fun _ => 0
  | some p =>
    EndsAfter (s.line p) (s.depth p) 0 MAX_RESUME_ATTEMPTS k ∧
      asked = (fun t => if t = p then asked_after (s.line p) (s.depth p) 0 k else 0) ∧
      left = left_after (s.line p) (s.depth p) 0 k

theorem ends_after_unique {l : Line} {depth n k j : ℕ} (hk : EndsAfter l depth 0 n k)
    (hj : EndsAfter l depth 0 n j) : k = j := by
  have h1 := (drain_eq_iff l depth 0 n k _ _).mpr ⟨by rwa [Nat.zero_add], rfl, rfl⟩
  have h2 := (drain_eq_iff l depth 0 n j _ _).mpr ⟨by rwa [Nat.zero_add], rfl, rfl⟩
  rw [h1] at h2
  exact congrArg Drained.issued h2

theorem Resumes.unique {s : Stage} {k j left left' : ℕ} {asked asked' : ThreadId → ℕ}
    (h : Resumes s k asked left) (h' : Resumes s j asked' left') :
    k = j ∧ asked = asked' ∧ left = left' := by
  unfold Resumes at h h'
  split at h
  · rename_i hnone
    simp only [hnone] at h'
    exact ⟨h.2.1.trans h'.2.1.symm, h.2.2.2.trans h'.2.2.2.symm, h.2.2.1.trans h'.2.2.1.symm⟩
  · rename_i p hp
    simp only [hp] at h'
    obtain ⟨h1, rfl, rfl⟩ := h
    obtain ⟨h2, rfl, rfl⟩ := h'
    have hkj : k = j := ends_after_unique h1 h2
    subst hkj
    exact ⟨rfl, rfl, rfl⟩

theorem resume_all_granted {w : World} (h : grants w .resume_all 0) :
    (resume_all.run w).1 = .ok () ∧
      After (stage w) (stage (resume_all.run w).2) (fun t => w.jvm.suspend_count t - 1)
        (fun _ => 0) := by
  have hr : w.refuses .resume_all = none := by simpa [grants_zero] using h
  rw [resume_all_run, hr]
  exact ⟨rfl, ⟨rfl, rfl, rfl, rfl⟩, rfl, fun t i => by
    rw [Nat.zero_add]; exact grants_log_ne w (by simp) i, fun t i => grants_log_ne w (by simp) i⟩

theorem resume_all_refused {w : World} (h : ¬ grants w .resume_all 0) :
    (∃ e, (resume_all.run w).1 = .error e) ∧
      After (stage w) (stage (resume_all.run w).2) (fun t => w.jvm.suspend_count t - 0)
        (fun _ => 0) := by
  obtain ⟨e, hr⟩ : ∃ e, w.refuses .resume_all = some e := by
    rw [grants_zero, Option.isNone_iff_eq_none] at h
    exact Option.ne_none_iff_exists'.mp h
  rw [resume_all_run, hr]
  exact ⟨⟨e, rfl⟩, ⟨rfl, rfl, rfl, rfl⟩, rfl, fun t i => by
    rw [Nat.zero_add]; exact grants_log_ne w (by simp) i, fun t i => grants_log_ne w (by simp) i⟩

/-- The same loop with another probe, as the thread dump runs it. -/
theorem resume_all_fully_cases (p : ThreadId) (w : World) :
    (∃ k, EndsAfter ((stage w).line p) (w.jvm.suspend_count p) 0 MAX_RESUME_ATTEMPTS k ∧
      ((resume_all_fully p 0 MAX_RESUME_ATTEMPTS).run w).1 =
        .ok (k, left_after ((stage w).line p) (w.jvm.suspend_count p) 0 k) ∧
      After (stage w) (stage ((resume_all_fully p 0 MAX_RESUME_ATTEMPTS).run w).2)
        (fun t => w.jvm.suspend_count t - k)
        (fun t => if t = p then
          asked_after ((stage w).line p) (w.jvm.suspend_count p) 0 k else 0)) ∨
    ((∀ k, ¬ EndsAfter ((stage w).line p) (w.jvm.suspend_count p) 0 MAX_RESUME_ATTEMPTS k) ∧
      (∃ e, ((resume_all_fully p 0 MAX_RESUME_ATTEMPTS).run w).1 = .error e) ∧
      ∃ k asked, After (stage w) (stage ((resume_all_fully p 0 MAX_RESUME_ATTEMPTS).run w).2)
        (fun t => w.jvm.suspend_count t - k) asked) := by
  obtain ⟨hval, hafter⟩ := resume_all_fully_drains MAX_RESUME_ATTEMPTS 0
    (stands_start w .resume_all p)
  generalize hd : drain (line w .resume_all p) (w.jvm.suspend_count p) 0 MAX_RESUME_ATTEMPTS = d
    at hval hafter
  rcases d with ⟨k, a, left⟩
  cases left with
  | none =>
    refine Or.inr ⟨fun j hj => ?_, hval, k, _, hafter⟩
    have := (drain_eq_iff _ _ 0 MAX_RESUME_ATTEMPTS j _ _).mpr ⟨by simpa using hj, rfl, rfl⟩
    rw [show drain ((stage w).line p) (w.jvm.suspend_count p) 0 MAX_RESUME_ATTEMPTS = _ from hd]
      at this
    simp at this
  | some left =>
    obtain ⟨hends, rfl, rfl⟩ := (drain_eq_iff _ _ 0 MAX_RESUME_ATTEMPTS k a left).mp hd
    rw [Nat.zero_add] at hends
    exact Or.inl ⟨k, hends, hval, hafter⟩

theorem resume_and_verify_cases (w : World) :
    (∃ k asked left note, Resumes (stage w) k asked left ∧
      (resume_and_verify.run w).1 = .ok note ∧ (note.runs = true ↔ left = 0) ∧
      After (stage w) (stage (resume_and_verify.run w).2)
        (fun t => w.jvm.suspend_count t - k) asked) ∨
    ((∀ k asked left, ¬ Resumes (stage w) k asked left) ∧
      (∃ e, (resume_and_verify.run w).1 = .error e) ∧
      ∃ k asked, After (stage w) (stage (resume_and_verify.run w).2)
        (fun t => w.jvm.suspend_count t - k) asked) := by
  cases hp : w.session.last_thread with
  | none =>
    have hprobe : (stage w).last_thread = none := hp
    simp only [resume_and_verify, run_bind, run_get, hp, Resumes, hprobe]
    by_cases hg : grants w .resume_all 0
    · obtain ⟨hok, hafter⟩ := resume_all_granted hg
      rw [hok]
      exact Or.inl ⟨1, _, 0, .resumed, ⟨hg, rfl, rfl, rfl⟩, rfl, by simp [ResumeNote.runs], hafter⟩
    · obtain ⟨⟨e, he⟩, hafter⟩ := resume_all_refused hg
      rw [he]
      exact Or.inr ⟨fun _ _ _ h => hg h.1, ⟨e, rfl⟩, 0, _, hafter⟩
  | some p =>
    have hprobe : (stage w).last_thread = some p := hp
    simp only [resume_and_verify, run_bind, run_get, hp, Resumes, hprobe]
    rcases resume_all_fully_cases p w with ⟨k, hends, hval, hafter⟩ | ⟨hno, ⟨e, he⟩, hafter⟩
    · rw [hval]
      by_cases hleft : 0 < left_after ((stage w).line p) (w.jvm.suspend_count p) 0 k
      · refine Or.inl ⟨k, _, _, .still_suspended k
          (left_after ((stage w).line p) (w.jvm.suspend_count p) 0 k), ⟨hends, rfl, rfl⟩, ?_, ?_,
            ?_⟩
        · simp only [hleft, if_true, run_pure]
        · simpa [ResumeNote.runs, stage] using Nat.ne_of_gt hleft
        · simp only [hleft, if_true, run_pure]
          exact hafter
      · have hz : left_after ((stage w).line p) (w.jvm.suspend_count p) 0 k = 0 := by omega
        refine Or.inl ⟨k, _, _, if 1 < k then .cleared k else .resumed, ⟨hends, rfl, rfl⟩,
          ?_, ?_, ?_⟩
        · simp only [hleft, if_false]
          split <;> rfl
        · split <;> simpa [ResumeNote.runs, stage] using hz
        · simp only [hleft, if_false]
          split <;> exact hafter
    · rw [he]
      exact Or.inr ⟨fun k _ _ h => hno k h.1, ⟨e, rfl⟩, hafter⟩

end Vm

section Threads

theorem get_forget (s : Suspensions) (t u : ThreadId) :
    ((s.forget_thread u).threads.get? t) = if t = u then none else s.threads.get? t :=
  Table.get?_erase _ _ _

/-- The re-read of thread `t` shows that it is still held. -/
def still_held (s : Stage) (t : ThreadId) : Prop := s.read t 0 = true ∧ s.depth t ≠ 0

instance (s : Stage) (t : ThreadId) : Decidable (still_held s t) := by
  unfold still_held
  infer_instance

/-- Only the books change: they forget exactly the threads in `ids` that are not `kept`. -/
structure Forgets (s s' : Stage) (ids : List ThreadId) (kept : ThreadId → Prop) : Prop where
  threads : s'.threads = s.threads
  last_thread : s'.last_thread = s.last_thread
  clock : s'.clock = s.clock
  vm : s'.books.vm = s.books.vm
  books : ∀ t, (s'.books.threads.get? t).isSome ↔
    (s.books.threads.get? t).isSome ∧ (t ∈ ids → kept t)

variable {w : World} {t u : ThreadId}

/-- Reading thread `u`, and forgetting it when the read shows zero, leaves the other threads'
readings as they were. -/
theorem still_held_congr {w' : World} (hne : t ≠ u) (hans : w'.answers = w.answers)
    (hsent : w'.sent = w.sent ++ [.suspend_count u]) (hjvm : w'.jvm = w.jvm) :
    still_held (stage w') t ↔ still_held (stage w) t := by
  have hg : grants w' (.suspend_count t) 0 = grants w (.suspend_count t) 0 := by
    simp [grants, hans, hsent, List.count_append, Ne.symm hne]
  simp only [still_held, stage, hg, hjvm]

theorem still_held_iff (w : World) (u : ThreadId) :
    (if grants w (.suspend_count u) 0 then w.jvm.suspend_count u else 0) ≠ 0 ↔
      still_held (stage w) u := by
  by_cases hg : grants w (.suspend_count u) 0 <;> simp [still_held, stage, hg]

theorem Forgets.cons {s s₁ s₂ : Stage} {rest : List ThreadId} {kept kept₁ : ThreadId → Prop}
    (h : Forgets s s₁ [u] kept) (h₁ : Forgets s₁ s₂ rest kept₁)
    (hsame : ∀ t ∈ rest, kept₁ t ↔ kept t) : Forgets s s₂ (u :: rest) kept := by
  refine ⟨h₁.threads.trans h.threads, h₁.last_thread.trans h.last_thread, h₁.clock.trans h.clock,
    h₁.vm.trans h.vm, fun t => ?_⟩
  rw [h₁.books, h.books, and_assoc]
  refine and_congr Iff.rfl ?_
  simp only [List.mem_cons, List.not_mem_nil, or_false]
  constructor
  · rintro ⟨hu, hr⟩ (ht | ht)
    · exact hu ht
    · exact (hsame t ht).mp (hr ht)
  · exact fun hall => ⟨fun ht => hall (Or.inl ht), fun ht => (hsame t ht).mpr (hall (Or.inr ht))⟩

theorem forgets_one {w₂ : World} {kept : ThreadId → Prop} (hjvm : w₂.jvm.threads = w.jvm.threads)
    (hlast : w₂.session.last_thread = w.session.last_thread) (hans : w₂.answers = w.answers)
    (hbooks : w₂.session.suspensions = w.session.suspensions ∧ kept u ∨ w₂.session.suspensions =
      w.session.suspensions.forget_thread u ∧ ¬ kept u) :
    Forgets (stage w) (stage w₂) [u] kept := by
  refine ⟨hjvm, hlast, congrArg Answers.now hans, ?_, fun t => ?_⟩
  · rcases hbooks with ⟨h, -⟩ | ⟨h, -⟩ <;> simp only [stage, h]
    rfl
  · simp only [stage, List.mem_singleton]
    rcases hbooks with ⟨h, hk⟩ | ⟨h, hk⟩
    · rw [h]
      exact ⟨fun h => ⟨h, fun ht => ht ▸ hk⟩, And.left⟩
    · rw [h, get_forget]
      by_cases ht : t = u
      · simp [ht, hk]
      · simp [ht]

theorem verify_threads_cons (u : ThreadId) (rest : List ThreadId) (w : World) :
    ∃ w₂ left, w₂.jvm = w.jvm ∧ w₂.answers = w.answers ∧
      w₂.sent = w.sent ++ [.suspend_count u] ∧ (left ≠ 0 ↔ still_held (stage w) u) ∧
      Forgets (stage w) (stage w₂) [u] (still_held (stage w)) ∧
      (verify_threads (u :: rest)).run w =
        (if left = 0 then ((verify_threads rest).run w₂).1
           else (u, left) :: ((verify_threads rest).run w₂).1,
            ((verify_threads rest).run w₂).2) := by
  have hheld := still_held_iff w u
  simp only [verify_threads, run_bind, suspend_count_or_zero_run]
  generalize (if grants w (.suspend_count u) 0 then w.jvm.suspend_count u else 0) = left at hheld ⊢
  by_cases hz : left = 0
  · refine ⟨{ w.log (.suspend_count u) with session := { w.session with
      suspensions := w.session.suspensions.forget_thread u } }, 0, rfl, rfl, rfl, hz ▸ hheld, ?_,
        ?_⟩
    · exact forgets_one rfl rfl rfl (Or.inr ⟨rfl, fun h => hheld.mpr h hz⟩)
    · simp only [hz, if_true]
      rfl
  · refine ⟨w.log (.suspend_count u), left, rfl, rfl, rfl, hheld, ?_, ?_⟩
    · exact forgets_one rfl rfl rfl (Or.inl ⟨rfl, hheld.mp hz⟩)
    · simp only [hz, if_false]
      rfl

/-- The first thread joins the names of the others when it is kept. -/
theorem mem_names_cons (kept : ThreadId → Prop) {kept' : ThreadId → Prop} {u : ThreadId}
    {rest names : List ThreadId} {n : ℕ} (hu : n ≠ 0 ↔ kept u)
    (hsame : ∀ t ∈ rest, kept' t ↔ kept t) (hn : ∀ t, t ∈ names ↔ t ∈ rest ∧ kept' t) (t : ThreadId)
    : t ∈ (if n = 0 then names else u :: names) ↔ t ∈ u :: rest ∧ kept t := by
  have hrest : t ∈ names ↔ t ∈ rest ∧ kept t := by
    rw [hn]
    exact and_congr_right (hsame t)
  rw [List.mem_cons]
  by_cases hz : n = 0
  · have hnot : ¬ kept u := fun h => hu.mpr h hz
    rw [if_pos hz, hrest]
    refine ⟨fun h => ⟨Or.inr h.1, h.2⟩, ?_⟩
    rintro ⟨rfl | ht, h⟩
    · exact absurd h hnot
    · exact ⟨ht, h⟩
  · rw [if_neg hz, List.mem_cons, hrest]
    constructor
    · rintro (rfl | h)
      · exact ⟨Or.inl rfl, hu.mp hz⟩
      · exact ⟨Or.inr h.1, h.2⟩
    · rintro ⟨rfl | ht, h⟩
      · exact Or.inl rfl
      · exact Or.inr ⟨ht, h⟩

theorem verify_threads_spec (ids : List ThreadId) (hids : ids.Nodup) (w : World) :
    Forgets (stage w) (stage ((verify_threads ids).run w).2) ids (still_held (stage w)) ∧
    ((verify_threads ids).run w).2.jvm = w.jvm ∧
    ∀ t, t ∈ ((verify_threads ids).run w).1.map Prod.fst ↔ t ∈ ids ∧ still_held (stage w) t := by
  induction ids generalizing w with
  | nil =>
    refine ⟨⟨rfl, rfl, rfl, rfl, fun t => ?_⟩, rfl, fun t => ?_⟩
    · exact ⟨fun h => ⟨h, fun hmem => by cases hmem⟩, And.left⟩
    · exact ⟨fun h => absurd h (by simp [show ((verify_threads []).run w).1 = [] from rfl]),
        fun h => by cases h.1⟩
  | cons u rest ih =>
    obtain ⟨hu, hrest⟩ := List.nodup_cons.mp hids
    obtain ⟨w₂, left, hjvm, hans, hsent, hleft, hone, hrun⟩ := verify_threads_cons u rest w
    obtain ⟨hf, hj, hn⟩ := ih hrest w₂
    have hsame : ∀ t ∈ rest, still_held (stage w₂) t ↔ still_held (stage w) t := fun t ht =>
      still_held_congr (by rintro rfl; exact hu ht) hans hsent hjvm
    rw [hrun]
    refine ⟨hone.cons hf hsame, hj.trans hjvm, fun t => ?_⟩
    rw [apply_ite (List.map Prod.fst)]
    exact mem_names_cons _ hleft hsame hn t

/-- What a loop on thread `t` leaves alone: the records, and every other thread. -/
structure Apart (w w' : World) (t : ThreadId) : Prop where
  session : w'.session = w.session
  answers : w'.answers = w.answers
  threads : w'.jvm.threads = w.jvm.threads
  counts : ∀ u ≠ t, w'.jvm.suspend_count u = w.jvm.suspend_count u
  reads : ∀ u ≠ t, ∀ i, grants w' (.suspend_count u) i = grants w (.suspend_count u) i
  resumes : ∀ u ≠ t, ∀ i, grants w' (.resume_thread u) i = grants w (.resume_thread u) i

theorem Apart.refl (w : World) (t : ThreadId) : Apart w w t :=
  ⟨rfl, rfl, rfl, fun _ _ => rfl, fun _ _ _ => rfl, fun _ _ _ => rfl⟩

theorem Apart.trans {w₁ w₂ : World} (h : Apart w w₁ t) (h₁ : Apart w₁ w₂ t) : Apart w w₂ t :=
  ⟨h₁.session.trans h.session, h₁.answers.trans h.answers, h₁.threads.trans h.threads,
    fun u hu => (h₁.counts u hu).trans (h.counts u hu),
    fun u hu i => (h₁.reads u hu i).trans (h.reads u hu i),
    fun u hu i => (h₁.resumes u hu i).trans (h.resumes u hu i)⟩

theorem apart_log (w : World) {c : Command} (hc : c = .suspend_count t ∨ c = .resume_thread t) :
    Apart w (w.log c) t := by
  refine ⟨rfl, rfl, rfl, fun _ _ => rfl, fun u hu i => ?_, fun u hu i => ?_⟩ <;>
    rcases hc with rfl | rfl <;>
    exact grants_log_ne _ (by simp [Ne.symm hu]) i

theorem apart_resume (w : World) (t : ThreadId) :
    Apart w { w.log (.resume_thread t) with jvm := w.jvm.resume_thread t } t := by
  obtain ⟨-, -, -, -, hr, hs⟩ := apart_log w (t := t) (Or.inr rfl)
  exact ⟨rfl, rfl, rfl, fun u hu => by simp [Jvm.resume_thread, hu], hr, hs⟩

theorem resume_thread_run (t : ThreadId) (w : World) :
    (resume_thread t).run w =
      match w.refuses (.resume_thread t) with
      | some e => (.error e, w.log (.resume_thread t))
      | none => (.ok (), { w.log (.resume_thread t) with jvm := w.jvm.resume_thread t }) :=
  perform_run _ _ _

/-- `resume_until_zero` does what `relax` says. -/
theorem resume_until_zero_relaxes {l : Line} {depth : ℕ} (attempts issued left : ℕ)
    (h : Stands l depth issued (issued + 1) (.resume_thread t) t w) :
    ((resume_until_zero t left attempts).run w).1 = (relax l depth issued left attempts).2 ∧
    ((resume_until_zero t left attempts).run w).2.jvm.suspend_count t =
      depth - (relax l depth issued left attempts).1 ∧
    Apart w ((resume_until_zero t left attempts).run w).2 t := by
  induction attempts generalizing issued left w with
  | zero => exact ⟨rfl, h.depth, .refl w t⟩
  | succ n ih =>
    have hres : (w.refuses (.resume_thread t)).isNone = l.resume issued := h.resume 0
    unfold resume_until_zero relax
    by_cases hz : left = 0
    · simp only [hz, if_true]
      exact ⟨rfl, h.depth, .refl w t⟩
    simp only [hz, if_false, run_bind, resume_thread_run]
    cases hr : w.refuses (.resume_thread t) with
    | some e =>
      have hfalse : l.resume issued = false := by simpa [hr] using hres.symm
      simp only [hfalse, Bool.false_eq_true, if_false]
      exact ⟨rfl, h.depth, apart_log w (Or.inr rfl)⟩
    | none =>
      have htrue : l.resume issued = true := by simpa [hr] using hres.symm
      have hnext := stands_next h (by simp) (f := fun j => j.resume_thread t)
        (by simp [Jvm.resume_thread])
      have hshow : (if grants { w.log (.resume_thread t) with jvm := w.jvm.resume_thread t }
          (.suspend_count t) 0 then (w.jvm.resume_thread t).suspend_count t else 0) =
          l.shows depth (issued + 1) (issued + 1) := by
        have hg : grants { w.log (.resume_thread t) with jvm := w.jvm.resume_thread t }
            (.suspend_count t) 0 = l.read (issued + 1) :=
          (grants_log_ne w (by simp) 0).trans (h.read 0)
        rw [hg, Line.shows]
        simp only [Jvm.resume_thread, if_true, h.depth, Nat.sub_sub]
      simp only [htrue, if_true, run_bind, suspend_count_or_zero_run, hshow]
      have hapart : Apart w (World.log { w.log (.resume_thread t) with
          jvm := w.jvm.resume_thread t } (.suspend_count t)) t :=
        (apart_resume w t).trans (apart_log _ (Or.inl rfl))
      obtain ⟨h1, h2, h3⟩ := ih (issued + 1) (l.shows depth (issued + 1) (issued + 1)) hnext
      exact ⟨h1, h2, hapart.trans h3⟩

/-- How the release of one thread goes: the resumes carried out, and what is thought left. -/
def released (s : Stage) (t : ThreadId) : ℕ × ℕ :=
  relax ⟨s.resume t, s.read t⟩ (s.depth t) 0
    (Line.shows ⟨s.resume t, s.read t⟩ (s.depth t) 0 0) MAX_RESUME_ATTEMPTS

theorem released_congr {w' : World} (h : Apart w w' u) (hne : t ≠ u) :
    released (stage w') t = released (stage w) t := by
  have h1 : grants w' (.suspend_count t) = grants w (.suspend_count t) := funext (h.reads t hne)
  have h2 : grants w' (.resume_thread t) = grants w (.resume_thread t) := funext (h.resumes t hne)
  simp only [released, stage, h1, h2, h.counts t hne]

theorem release_one (u : ThreadId) (w : World) :
    ((suspend_count_or_zero u >>= fun left =>
        resume_until_zero u left MAX_RESUME_ATTEMPTS).run w).1 = (released (stage w) u).2 ∧
    ((suspend_count_or_zero u >>= fun left =>
        resume_until_zero u left MAX_RESUME_ATTEMPTS).run w).2.jvm.suspend_count u =
      w.jvm.suspend_count u - (released (stage w) u).1 ∧
    Apart w ((suspend_count_or_zero u >>= fun left =>
        resume_until_zero u left MAX_RESUME_ATTEMPTS).run w).2 u := by
  have hstands : Stands (line w (.resume_thread u) u) (w.jvm.suspend_count u) 0 1
      (.resume_thread u) u (w.log (.suspend_count u)) := by
    refine ⟨fun i => ?_, fun i => ?_, rfl⟩
    · rw [Nat.zero_add]
      exact grants_log_ne w (by simp) i
    · rw [grants_log_self, Nat.add_comm]
      rfl
  simp only [run_bind, suspend_count_or_zero_run]
  obtain ⟨h1, h2, h3⟩ := resume_until_zero_relaxes MAX_RESUME_ATTEMPTS 0
    (if grants w (.suspend_count u) 0 then w.jvm.suspend_count u else 0) hstands
  exact ⟨h1, h2, (apart_log w (Or.inl rfl)).trans h3⟩

/-- The threads in `ids` are lowered as `released` says, the others are left alone. -/
def lowered (s : Stage) (ids : List ThreadId) (t : ThreadId) : ℕ :=
  if t ∈ ids then s.depth t - (released s t).1 else s.depth t

theorem release_threads_cons (u : ThreadId) (rest : List ThreadId) (w : World) :
    ∃ w₂, w₂.jvm.suspend_count u = w.jvm.suspend_count u - (released (stage w) u).1 ∧
      (∀ t ≠ u, w₂.jvm.suspend_count t = w.jvm.suspend_count t ∧
        released (stage w₂) t = released (stage w) t) ∧
      Forgets (stage w) (stage w₂) [u] (fun t => (released (stage w) t).2 ≠ 0) ∧
      (release_threads (u :: rest)).run w =
        (if (released (stage w) u).2 = 0 then
          (u :: ((release_threads rest).run w₂).1.1, ((release_threads rest).run w₂).1.2)
        else (((release_threads rest).run w₂).1.1, u :: ((release_threads rest).run w₂).1.2),
          ((release_threads rest).run w₂).2) := by
  obtain ⟨h1, h2, h3⟩ := release_one u w
  simp only [run_bind] at h1 h2 h3
  simp only [release_threads, run_bind, h1]
  generalize hw₁ : ((resume_until_zero u _ MAX_RESUME_ATTEMPTS).run _).2 = w₁ at h2 h3 ⊢
  by_cases hz : (released (stage w) u).2 = 0
  · refine ⟨{ w₁ with session := { w₁.session with
      suspensions := w₁.session.suspensions.forget_thread u } }, h2, fun t ht =>
        ⟨h3.counts t ht, show released (stage w₁) t = _ from released_congr h3 ht⟩, ?_, ?_⟩
    · refine forgets_one h3.threads ?_ h3.answers (Or.inr ⟨?_, fun h => h hz⟩)
      · change w₁.session.last_thread = _
        rw [h3.session]
      · change w₁.session.suspensions.forget_thread u = _
        rw [h3.session]
    · simp only [hz, if_true]
      rfl
  · refine ⟨w₁, h2, fun t ht => ⟨h3.counts t ht, released_congr h3 ht⟩, ?_, ?_⟩
    · refine forgets_one h3.threads ?_ h3.answers (Or.inl ⟨?_, hz⟩)
      · rw [h3.session]
      · rw [h3.session]
    · simp only [hz, if_false]
      rfl

theorem release_threads_spec (ids : List ThreadId) (hids : ids.Nodup) (w : World) :
    Forgets (stage w) (stage ((release_threads ids).run w).2) ids
      (fun t => (released (stage w) t).2 ≠ 0) ∧
    ((release_threads ids).run w).2.jvm.suspend_count = lowered (stage w) ids ∧
    ∀ t, t ∈ ((release_threads ids).run w).1.2 ↔ t ∈ ids ∧ (released (stage w) t).2 ≠ 0 := by
  induction ids generalizing w with
  | nil =>
    refine ⟨⟨rfl, rfl, rfl, rfl, fun t => ?_⟩, rfl, fun t => ?_⟩
    · exact ⟨fun h => ⟨h, fun hmem => by cases hmem⟩, And.left⟩
    · exact ⟨fun h => absurd h (by simp [show ((release_threads []).run w).1 = ([], []) from rfl]),
        fun h => by cases h.1⟩
  | cons u rest ih =>
    obtain ⟨hu, hrest⟩ := List.nodup_cons.mp hids
    obtain ⟨w₂, hcount, hothers, hone, hrun⟩ := release_threads_cons u rest w
    obtain ⟨hf, hc, hs⟩ := ih hrest w₂
    have hne : ∀ t ∈ rest, t ≠ u := fun t ht => by
      rintro rfl
      exact hu ht
    have hsame : ∀ t ∈ rest, (released (stage w₂) t).2 ≠ 0 ↔ (released (stage w) t).2 ≠ 0 :=
      fun t ht => by rw [(hothers t (hne t ht)).2]
    rw [hrun]
    refine ⟨hone.cons hf hsame, ?_, fun t => ?_⟩
    · refine hc.trans (funext fun t => ?_)
      by_cases htu : t = u
      · subst htu
        simp only [lowered, hu, if_false, List.mem_cons_self, if_true]
        exact hcount
      · simp only [lowered, List.mem_cons, htu, false_or]
        split
        · rw [(hothers t htu).2]
          exact congrArg (· - _) (hothers t htu).1
        · exact (hothers t htu).1
    · rw [apply_ite Prod.snd]
      exact mem_names_cons (fun t => (released (stage w) t).2 ≠ 0) Iff.rfl hsame hs t

end Threads

section Before

theorem stage_edit {f : DebugSession → DebugSession}
    (hbooks : ∀ s, (f s).suspensions = s.suspensions)
    (hlast : ∀ s, (f s).last_thread = s.last_thread) : Keeps stage (edit f) := by
  intro w
  change stage { w with session := f w.session } = stage w
  simp only [stage, hbooks, hlast]
  rfl

theorem stage_log (w : World) {c : Command} (hall : c ≠ .resume_all)
    (hread : ∀ t, c ≠ .suspend_count t) (hone : ∀ t, c ≠ .resume_thread t) :
    stage (w.log c) = stage w := by
  have h1 : grants (w.log c) .resume_all = grants w .resume_all := funext (grants_log_ne w hall)
  have h2 : ∀ t, grants (w.log c) (.suspend_count t) = grants w (.suspend_count t) :=
    fun t => funext (grants_log_ne w (hread t))
  have h3 : ∀ t, grants (w.log c) (.resume_thread t) = grants w (.resume_thread t) :=
    fun t => funext (grants_log_ne w (hone t))
  simp only [stage, h1, h2, h3]
  rfl

theorem stage_perform {c : Command} {f : Jvm → Jvm} (hall : c ≠ .resume_all)
    (hread : ∀ t, c ≠ .suspend_count t) (hone : ∀ t, c ≠ .resume_thread t)
    (hf : ∀ j, (f j).threads = j.threads ∧ (f j).suspend_count = j.suspend_count) :
    Keeps stage (perform c f) := by
  intro w
  rw [perform_run]
  split
  · exact stage_log w hall hread hone
  · refine Eq.trans ?_ (stage_log w hall hread hone)
    simp only [stage, (hf w.jvm).1, (hf w.jvm).2]
    rfl

theorem stage_clear_request (code : EventCode) (id : RequestId) :
    Keeps stage (clear_request code id) := by
  refine stage_perform (by simp) (by simp) (by simp) fun j => ?_
  unfold Jvm.clear_request
  split <;> exact ⟨rfl, rfl⟩

theorem stage_set_request (k : RequestKind) (p : SuspendPolicy) (f : EventFilters) :
    Keeps stage (set_request k p f) := by
  intro w
  rw [set_request_run]
  split
  · exact stage_log w (by simp) (by simp) (by simp)
  · exact stage_log w (by simp) (by simp) (by simp)

theorem stage_clear_requests (code : EventCode) (ids : List RequestId) :
    Keeps stage (clear_requests code ids) :=
  Keeps.of_preserves fun t => clears_preserve (fun _ => (stage_clear_request _ _).preserves t) ids

theorem set_disabled_id (sp : StopPoint) : (set_disabled sp).id = sp.id := rfl

/-- The part of a disarm that takes the owner's requests out. -/
def disarm_owner (req : RequestId) : Handler (Option StopId) := do
  match (← get).session.owner? req with
  | none => pure none
  | some sp =>
    let _ ← clear_stop_point_requests sp
    edit fun s => s.edit_stop_point sp.id set_disabled set_disabled_id
    pure (some sp.id)

theorem stage_disarm_request (req : RequestId) : Keeps stage (disarm_request req) := by
  have hrest : Keeps stage (disarm_owner req) := by
    refine Keeps.bind Keeps.get fun w => ?_
    split
    · exact Keeps.pure _
    · exact Keeps.bind (stage_clear_requests _ _) fun _ =>
        Keeps.bind (stage_edit (fun _ => rfl) fun _ => rfl) fun _ => Keeps.pure _
  refine Keeps.bind Keeps.get fun w => ?_
  split
  · refine Keeps.bind (stage_edit (fun s => ?_) fun s => ?_) fun _ => hrest <;>
      obtain ⟨q, hq⟩ := s.note_disarmed_traced_eq req <;> rw [hq]
  · exact hrest

theorem stage_disarm_requests (reqs : List RequestId) : Keeps stage (disarm_requests reqs) := by
  induction reqs with
  | nil => exact Keeps.pure _
  | cons r rest ih =>
    exact Keeps.bind (stage_disarm_request r) fun _ => Keeps.bind ih fun _ => Keeps.pure _

theorem stage_disarm_cause (cause : SuspendCause) : Keeps stage (disarm_cause cause) := by
  unfold disarm_cause
  split
  · exact Keeps.pure _
  · exact Keeps.bind (stage_disarm_request _) fun _ => Keeps.pure _

theorem stage_clear_pending_step : Keeps stage clear_pending_step := by
  refine Keeps.bind Keeps.get fun w => ?_
  split
  · exact Keeps.pure _
  · exact Keeps.bind (stage_edit (fun _ => rfl) fun _ => rfl) fun _ =>
      Keeps.bind (stage_clear_request _ _) fun _ => Keeps.pure _

theorem stage_clear_class_prepares (reqs : List RequestId) :
    Keeps stage (clear_class_prepares reqs) :=
  Keeps.forM (fun _ => Keeps.bind (stage_clear_request _ _) fun _ => Keeps.pure _) _

theorem stage_disarm_everything : Keeps stage disarm_everything := by
  refine Keeps.bind (stage_edit (fun s => ?_) fun s => ?_) fun _ => Keeps.bind ?_ fun _ =>
    Keeps.bind Keeps.get fun w => Keeps.bind (stage_clear_class_prepares _) fun _ =>
    Keeps.bind Keeps.get fun w => Keeps.bind (stage_edit (fun _ => rfl) fun _ => rfl) fun _ =>
    Keeps.bind (stage_clear_class_prepares _) fun _ => Keeps.bind Keeps.get fun w =>
    Keeps.bind (stage_edit (fun _ => rfl) fun _ => rfl) fun _ =>
    Keeps.bind (stage_clear_class_prepares _) fun _ => Keeps.bind Keeps.get fun w =>
    Keeps.bind (stage_edit (fun _ => rfl) fun _ => rfl) fun _ =>
    Keeps.forM (fun sp => Keeps.bind (stage_clear_requests _ _) fun _ => Keeps.pure _) _
  · exact (note_every_eq s).choose_spec ▸ rfl
  · exact (note_every_eq s).choose_spec ▸ rfl
  · exact stage_perform (by simp) (by simp) (by simp) fun _ => ⟨rfl, rfl⟩

end Before

end JavaDebug.ResumeLoops
