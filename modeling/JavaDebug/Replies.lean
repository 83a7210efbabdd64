import JavaDebug.ResumeLoops

/-!
What each tool that resumes leaves behind, and what its reply says. A case of
these theorems is one way the wire can answer; the counts and the books after
it are read off the stage before it.
-/
namespace JavaDebug.Replies

open Jdwp Session Wire Disarming
open Resuming StateProgram NestedSuspend ResumeLoops

namespace Stage

/-- The books hold a record for this thread. -/
def Held (s : Stage) (t : ThreadId) : Prop := (s.books.threads.get? t).isSome

end Stage

theorem stage_edit_suspensions (f : Suspensions → Suspensions) (w : World) :
    stage ((edit_suspensions f).run w).2 = { stage w with books := f w.session.suspensions } := rfl

/-- The VM is off the books, and the threads on them are exactly those of `kept`. -/
structure Settled (s s' : Stage) (depth : ThreadId → ℕ) (kept : ThreadId → Prop) : Prop where
  threads : s'.threads = s.threads
  depth : s'.depth = depth
  vm : s'.books.vm = none
  held : ∀ t, Stage.Held s' t ↔ kept t

/-- The resume was refused part of the way: what was resumed is resumed, the books stay. -/
structure Aborted (s s' : Stage) : Prop where
  threads : s'.threads = s.threads
  depth : ∃ k, s'.depth = fun t => s.depth t - k
  books : s'.books = s.books

section Marking

/-- What `k` resumes leave, once they are marked in the books. -/
structure Marked (w : World) (k : ℕ) (asked : ThreadId → ℕ) (w' : World) : Prop where
  threads : (stage w').threads = w.jvm.threads
  depth : (stage w').depth = fun t => w.jvm.suspend_count t - k
  books : w'.session.suspensions = w.session.suspensions.mark_resumed
  read : ∀ t i, (stage w').read t i = (stage w).read t (asked t + i)
  resume : ∀ t i, (stage w').resume t i = (stage w).resume t i

theorem marked_cases {w w₁ : World} (h0 : stage w₁ = stage w) :
    (∃ k asked left note, Resumes (stage w) k asked left ∧
      (resume_and_verify.run w₁).1 = .ok note ∧ (note.runs = true ↔ left = 0) ∧
      Marked w k asked
        ((edit_suspensions Suspensions.mark_resumed).run (resume_and_verify.run w₁).2).2) ∨
    ((∀ k asked left, ¬ Resumes (stage w) k asked left) ∧
      (∃ e, (resume_and_verify.run w₁).1 = .error e) ∧
      Aborted (stage w) (stage (resume_and_verify.run w₁).2)) := by
  have hcount : w₁.jvm.suspend_count = w.jvm.suspend_count := congrArg Stage.depth h0
  have hc := resume_and_verify_cases w₁
  rw [h0, hcount] at hc
  rcases hc with ⟨k, asked, left, note, hres, hok, hruns, hafter⟩ | ⟨hno, he, k, asked, hafter⟩
  · exact Or.inl ⟨k, asked, left, note, hres, hok, hruns, hafter.ground.threads, hafter.depth,
      congrArg Suspensions.mark_resumed hafter.ground.books, hafter.read, hafter.resume⟩
  · exact Or.inr ⟨hno, he, hafter.ground.threads, ⟨k, hafter.depth⟩, hafter.ground.books⟩

end Marking

section Continue

/-- After `k` resumes the thread is still suspended, and its re-read says so. -/
def Named (s : Stage) (k : ℕ) (asked : ThreadId → ℕ) (t : ThreadId) : Prop :=
  Stage.Held s t ∧ s.read t (asked t) = true ∧ k < s.depth t

theorem continue_cases (w : World) :
    (∃ k asked left r, Resumes (stage w) k asked left ∧ (handle_continue.run w).1 = .ok r ∧
      (r.note.runs = true ↔ left = 0) ∧
      (∀ t, t ∈ r.still_held.map Prod.fst ↔ Named (stage w) k asked t) ∧
      Settled (stage w) (stage (handle_continue.run w).2) (fun t => w.jvm.suspend_count t - k)
        (Named (stage w) k asked)) ∨
    ((∀ k asked left, ¬ Resumes (stage w) k asked left) ∧
      (∃ e, (handle_continue.run w).1 = .error e) ∧
      Aborted (stage w) (stage (handle_continue.run w).2)) := by
  have h0 := stage_clear_pending_step w
  generalize hw₁ : (clear_pending_step.run w).2 = w₁ at h0
  rcases marked_cases h0 with ⟨k, asked, left, note, hres, hok, hruns, hm⟩ | ⟨hno, ⟨e, he⟩, habort⟩
  · generalize hw₃ : ((edit_suspensions Suspensions.mark_resumed).run
      (resume_and_verify.run w₁).2).2 = w₃ at hm
    have hstill : ∀ t, (t ∈ w₃.session.suspensions.threads.rows.map ThreadSuspend.tid ∧
        still_held (stage w₃) t) ↔ Named (stage w) k asked t := fun t => by
      rw [Table.mem_keys, still_held, hm.read, hm.depth, hm.books, Named]
      exact and_congr Iff.rfl (and_congr Iff.rfl (by simp only [stage]; omega))
    obtain ⟨hf, hjvm, hnames⟩ := verify_threads_spec
      (w₃.session.suspensions.threads.rows.map ThreadSuspend.tid)
      w₃.session.suspensions.threads.nodup w₃
    have hrun : handle_continue.run w = (.ok ⟨note, ((verify_threads
        (w₃.session.suspensions.threads.rows.map ThreadSuspend.tid)).run w₃).1⟩, ((verify_threads
        (w₃.session.suspensions.threads.rows.map ThreadSuspend.tid)).run w₃).2) := by
      simp only [handle_continue, run_bind, hw₁, hok, hw₃, verify_thread_suspends, run_get,
        run_pure]
    rw [hrun]
    refine Or.inl ⟨k, asked, left, _, hres, rfl, hruns, fun t => (hnames t).trans (hstill t), ?_⟩
    refine ⟨?_, ?_, ?_, fun t => (hf.books t).trans ?_⟩
    · exact hf.threads.trans hm.threads
    · exact (congrArg Jvm.suspend_count hjvm).trans hm.depth
    · exact hf.vm.trans (congrArg Suspensions.vm hm.books)
    · rw [← hstill t]
      exact ⟨fun h => ⟨(Table.mem_keys _ _).mpr h.1, h.2 ((Table.mem_keys _ _).mpr h.1)⟩,
        fun h => ⟨(Table.mem_keys _ _).mp h.1, fun _ => h.2⟩⟩
  · have hrun : handle_continue.run w = (.error e, (resume_and_verify.run w₁).2) := by
      simp only [handle_continue, run_bind, hw₁, he, run_pure]
    rw [hrun]
    exact Or.inr ⟨hno, ⟨e, rfl⟩, habort⟩

end Continue

section Panic

/-- The depth that `k` VM resumes leave, and the answers a release of the thread gets after
`asked` reads. -/
def released_after (s : Stage) (k : ℕ) (asked : ThreadId → ℕ) (t : ThreadId) : ℕ × ℕ :=
  released { s with depth := fun u => s.depth u - k, read := fun u i => s.read u (asked u + i) } t

/-- The depth at which a panic leaves a thread: its record is released besides the VM. -/
def panicked (s : Stage) (k : ℕ) (asked : ThreadId → ℕ) (t : ThreadId) : ℕ :=
  s.depth t - k - if (s.books.threads.get? t).isSome then (released_after s k asked t).1 else 0

theorem panic_cases (w : World) :
    (∃ k asked left r, Resumes (stage w) k asked left ∧ (handle_panic.run w).1 = .ok r ∧
      (r.note.runs = true ↔ left = 0) ∧
      (∀ t, t ∈ r.stuck ↔
        Stage.Held (stage w) t ∧ (released_after (stage w) k asked t).2 ≠ 0) ∧
      Settled (stage w) (stage (handle_panic.run w).2)
        (panicked (stage w) k asked)
        (fun t => Stage.Held (stage w) t ∧ (released_after (stage w) k asked t).2 ≠ 0)) ∨
    ((∀ k asked left, ¬ Resumes (stage w) k asked left) ∧
      (∃ e, (handle_panic.run w).1 = .error e) ∧
      Aborted (stage w) (stage (handle_panic.run w).2)) := by
  have h0 : stage (disarm_everything.run (clear_pending_step.run w).2).2 = stage w :=
    (stage_disarm_everything _).trans (stage_clear_pending_step w)
  generalize hw₁ : (disarm_everything.run (clear_pending_step.run w).2).2 = w₁ at h0
  rcases marked_cases h0 with ⟨k, asked, left, note, hres, hok, hruns, hm⟩ | ⟨hno, ⟨e, he⟩, habort⟩
  · generalize hw₃ : ((edit_suspensions Suspensions.mark_resumed).run
      (resume_and_verify.run w₁).2).2 = w₃ at hm
    have hrel : ∀ t, released (stage w₃) t = released_after (stage w) k asked t := fun t => by
      simp only [released, released_after, funext (hm.read t), funext (hm.resume t), hm.depth]
      rfl
    obtain ⟨hf, hcounts, hstuck⟩ := release_threads_spec
      ((w₃.session.suspensions.threads.rows.map ThreadSuspend.tid).filter
        fun t => (none : Option (List ThreadId)).all fun ids => t ∈ ids)
      (w₃.session.suspensions.threads.nodup.filter _) w₃
    simp only [Option.all_none, List.filter_true] at hf hcounts hstuck
    have hmem : ∀ t, t ∈ w₃.session.suspensions.threads.rows.map ThreadSuspend.tid ↔
        Stage.Held (stage w) t := fun t => by
      rw [Table.mem_keys, hm.books]
      rfl
    generalize hids : w₃.session.suspensions.threads.rows.map ThreadSuspend.tid = ids
      at hf hcounts hstuck hmem
    have hrun : handle_panic.run w = (.ok ⟨note, ((release_threads ids).run w₃).1.1,
        ((release_threads ids).run w₃).1.2⟩, ((release_threads ids).run w₃).2) := by
      simp only [handle_panic, run_bind, hw₁, hok, hw₃, release_thread_suspends, run_get,
        run_pure, hids, Option.all_none, List.filter_true]
    rw [hrun]
    refine Or.inl ⟨k, asked, left, _, hres, rfl, hruns, fun t => ?_, ?_⟩
    · rw [hstuck, hmem, hrel]
    refine ⟨?_, ?_, ?_, fun t => (hf.books t).trans ?_⟩
    · exact hf.threads.trans hm.threads
    · refine hcounts.trans (funext fun t => ?_)
      simp only [lowered, hrel, hm.depth]
      by_cases hh : ((stage w).books.threads.get? t).isSome = true
      · rw [if_pos ((hmem t).mpr hh), panicked, if_pos hh]
        rfl
      · rw [if_neg fun h => hh ((hmem t).mp h), panicked, if_neg hh, Nat.sub_zero]
        rfl
    · exact hf.vm.trans (congrArg Suspensions.vm hm.books)
    · have hheld : (((stage w₃).books.threads.get? t).isSome = true) ↔ Stage.Held (stage w) t := by
        change ((w₃.session.suspensions.threads.get? t).isSome = true) ↔ _
        rw [hm.books]
        rfl
      rw [hheld, hmem, hrel]
      exact ⟨fun h => ⟨h.1, h.2 h.1⟩, fun h => ⟨h.1, fun _ => h.2⟩⟩
  · have hrun : handle_panic.run w = (.error e, (resume_and_verify.run w₁).2) := by
      simp only [handle_panic, run_bind, hw₁, he, run_pure]
    rw [hrun]
    exact Or.inr ⟨hno, ⟨e, rfl⟩, habort⟩

end Panic

section Dump

/-- The stage on which a dump resumes: every thread one deeper, the first row as the probe. -/
def dump_stage (w : World) : Stage :=
  { stage w with
    depth := w.jvm.suspend_all.suspend_count
    last_thread :=
      some (((w.answers.dump_rows w.jvm.threads).head?.or w.jvm.threads.head?).getD 0) }

/-- The dump takes a VM-wide suspend of its own. -/
def Dumps (w : World) : Prop :=
  w.jvm.threads ≠ [] ∧ w.session.suspensions.vm = none ∧
    grants w .all_threads 0 ∧ grants w .suspend_all 0

/-- The last part of a suspending dump: resume, and say what came of it. -/
def finish_dump (p : ThreadId) : Handler (Except JdwpError DumpReply) := do
  match ← resume_all_fully p 0 MAX_RESUME_ATTEMPTS with
  | .error e => pure (.ok (.resume_failed e))
  | .ok (issued, 0) =>
    edit_suspensions Suspensions.mark_resumed
    pure (.ok (.verified_running issued))
  | .ok (issued, left) => pure (.ok (.still_suspended issued left))

theorem dump_cases {w : World} (hd : Dumps w) :
    (∃ k asked left, Resumes (dump_stage w) k asked left ∧
      ((handle_thread_dump true).run w).1 =
        .ok (if left = 0 then .verified_running k else .still_suspended k left) ∧
      (stage ((handle_thread_dump true).run w).2).threads = w.jvm.threads ∧
      (stage ((handle_thread_dump true).run w).2).depth =
        (fun t => w.jvm.suspend_all.suspend_count t - k) ∧
      (∀ t, Stage.Held (stage ((handle_thread_dump true).run w).2) t ↔ Stage.Held (stage w) t) ∧
      (left ≠ 0 → (stage ((handle_thread_dump true).run w).2).books.vm.isSome)) ∨
    ((∀ k asked left, ¬ Resumes (dump_stage w) k asked left) ∧
      (∃ e, ((handle_thread_dump true).run w).1 = .ok (.resume_failed e)) ∧
      (stage ((handle_thread_dump true).run w).2).books.vm.isSome) := by
  obtain ⟨hthreads, hvm, hall, hsus⟩ := hd
  have hall' : w.refuses .all_threads = none := by simpa [grants_zero] using hall
  have hsus' : (w.log .all_threads).refuses .suspend_all = none := by
    have := (grants_log_ne w (c := .suspend_all) (d := .all_threads) (by simp) 0).trans hsus
    simpa [grants_zero] using this
  have hempty : w.jvm.threads.isEmpty = false := by simpa using hthreads
  generalize hp : ((w.answers.dump_rows w.jvm.threads).head?.or w.jvm.threads.head?).getD 0 = p
  -- the world in which the dump starts to resume
  generalize hw₁ : ((edit_suspensions fun s => s.mark_suspended .manual_pause w.answers.now).run
    { (w.log .all_threads).log .suspend_all with jvm := w.jvm.suspend_all }).2 = w₁
  have hrun : (handle_thread_dump true).run w = (finish_dump p).run w₁ := by
    subst hw₁ hp
    simp only [handle_thread_dump, get_all_threads, run_bind, send_run, hall', run_get, run_pure]
    simp only [World.log, hempty, hvm, Bool.not_true, Option.isSome_none, Bool.or_self,
      Bool.false_eq_true, if_false, run_bind, run_get]
    simp only [suspend_all, perform_run]
    simp only [show World.refuses { w with sent := w.sent ++ [Command.all_threads] } .suspend_all =
      none from hsus']
    rfl
  have hline : (stage w₁).line p = (dump_stage w).line p := by
    have hg : ∀ c, c ≠ .all_threads → c ≠ .suspend_all → grants w₁ c = grants w c := by
      intro c h1 h2
      subst hw₁
      funext i
      exact (grants_log_ne (w.log .all_threads) (Ne.symm h2) i).trans
        (grants_log_ne w (Ne.symm h1) i)
    simp [Stage.line, stage, dump_stage, hg]
  have hjvm : w₁.jvm = w.jvm.suspend_all := by rw [← hw₁]; rfl
  have hth : w₁.jvm.threads = w.jvm.threads := by rw [hjvm]; rfl
  have hbooks : w₁.session.suspensions =
      w.session.suspensions.mark_suspended .manual_pause w.answers.now := by rw [← hw₁]; rfl
  have hprobe : (dump_stage w).last_thread = some p := by rw [← hp]; rfl
  have hdepth : (dump_stage w).depth p = w₁.jvm.suspend_count p := by rw [hjvm]; rfl
  rw [hrun]
  unfold finish_dump
  simp only [Resumes, hprobe, hdepth, ← hline]
  rcases resume_all_fully_cases p w₁ with ⟨k, hends, hval, hafter⟩ |
    ⟨hno, ⟨e, he⟩, k, asked, hafter⟩
  · refine Or.inl ⟨k, _, _, ⟨hends, rfl, rfl⟩, ?_⟩
    simp only [run_bind, hval]
    generalize left_after ((stage w₁).line p) (w₁.jvm.suspend_count p) 0 k = left
    have hthreads' := hafter.ground.threads
    have hdepths := hafter.depth
    have hbooks' := hafter.ground.books
    rw [hjvm] at hdepths
    generalize ((resume_all_fully p 0 MAX_RESUME_ATTEMPTS).run w₁).2 = w₂ at *
    cases left with
    | zero =>
      refine ⟨rfl, ?_, hdepths, fun t => ?_, fun h => absurd rfl h⟩
      · exact hthreads'.trans hth
      · change ((w₂.session.suspensions.threads.get? t).isSome = true) ↔ _
        rw [show w₂.session.suspensions = _ from hbooks'.trans hbooks]
        rfl
    | succ n =>
      refine ⟨rfl, hthreads'.trans hth, hdepths, fun t => ?_, fun _ => ?_⟩
      · change ((w₂.session.suspensions.threads.get? t).isSome = true) ↔ _
        rw [show w₂.session.suspensions = _ from hbooks'.trans hbooks]
        rfl
      · change w₂.session.suspensions.vm.isSome = true
        rw [show w₂.session.suspensions = _ from hbooks'.trans hbooks]
        rfl
  · refine Or.inr ⟨fun k _ _ h => hno k h.1, ?_, ?_⟩
    · simp only [run_bind, he]
      exact ⟨e, rfl⟩
    · simp only [run_bind, he]
      exact (congrArg (fun b : Suspensions => b.vm.isSome)
        (hafter.ground.books.trans hbooks)).trans rfl

theorem no_dump {w : World} (hd : ¬ Dumps w) :
    (∀ n, ((handle_thread_dump true).run w).1 ≠ .ok (.verified_running n)) ∧
      stage ((handle_thread_dump true).run w).2 = stage w := by
  have hlog : stage (w.log .all_threads) = stage w := stage_log w (by simp) (by simp) (by simp)
  simp only [handle_thread_dump, get_all_threads, run_bind, send_run]
  cases hall : w.refuses .all_threads with
  | some e => exact ⟨(by intro n h; cases h), hlog⟩
  | none =>
    simp only [run_bind, run_get, run_pure]
    have hth : (w.log .all_threads).jvm.threads = w.jvm.threads := rfl
    have hvm : (w.log .all_threads).session.suspensions.vm = w.session.suspensions.vm := rfl
    rw [hth]
    by_cases hempty : w.jvm.threads.isEmpty
    · simp only [hempty, if_true]
      exact ⟨(by intro n h; cases h), hlog⟩
    · simp only [hempty, if_false, run_bind, run_get, hvm, Bool.not_true, Bool.false_or,
        Bool.false_eq_true]
      by_cases hsome : w.session.suspensions.vm.isSome
      · simp only [hsome, if_true]
        exact ⟨(by intro n h; cases h), hlog⟩
      · simp only [hsome, if_false, run_bind, suspend_all, perform_run, Bool.false_eq_true]
        have hne : ((w.log .all_threads).refuses .suspend_all).isSome := by
          by_contra hnone
          refine hd ⟨by simpa using hempty, by simpa using hsome, ?_, ?_⟩
          · rw [grants_zero, hall]
            rfl
          · rw [← grants_log_ne w (d := .all_threads) (by simp), grants_zero]
            simpa using hnone
        obtain ⟨e, he⟩ := Option.isSome_iff_exists.mp hne
        simp only [he]
        exact ⟨(by intro n h; cases h),
          (stage_log _ (by simp) (by simp) (by simp)).trans hlog⟩

end Dump

section Step

/-- A step goes ahead: it has a thread, and its request is set. -/
def Steps (w : World) (tid : ThreadId) (thread_id : Option ThreadId) (depth : ℕ)
    (exclude only : List String) : Prop :=
  thread_id.or w.session.last_thread = some tid ∧
    grants w (.set (.step tid depth exclude only) .all no_filters) 0

theorem clear_pending_step_sent (w : World) {c : Command} (hc : ∀ k i, c ≠ .clear k i) (i : ℕ) :
    grants (clear_pending_step.run w).2 c i = grants w c i := by
  simp only [clear_pending_step, run_bind, run_get]
  split
  · rfl
  · rename_i req _ _
    simp only [run_bind, edit_run, clear_request, perform_run, run_pure]
    split
    · exact grants_log_ne _ (Ne.symm (hc _ _)) i
    · exact grants_log_ne w (Ne.symm (hc .single_step req)) i

theorem step_cases (w : World) (thread_id : Option ThreadId) (depth : ℕ)
    (exclude only : List String) :
    (∃ tid, Steps w tid thread_id depth exclude only ∧
      ((∃ r, ((handle_step thread_id depth exclude only).run w).1 = .ok r) ↔
        grants w .resume_all 0) ∧
      Settled (stage w) (stage ((handle_step thread_id depth exclude only).run w).2)
        (fun t => w.jvm.suspend_count t - if grants w .resume_all 0 then 1 else 0)
        (Stage.Held (stage w))) ∨
    ((∀ tid, ¬ Steps w tid thread_id depth exclude only) ∧
      (∃ e, ((handle_step thread_id depth exclude only).run w).1 = .error e) ∧
      stage ((handle_step thread_id depth exclude only).run w).2 = stage w) := by
  cases htid : thread_id.or w.session.last_thread with
  | none =>
    refine Or.inr ⟨fun tid h => by simp [Steps, htid] at h, ?_⟩
    simp only [handle_step, run_bind, run_get, htid, run_pure]
    exact ⟨⟨_, rfl⟩, trivial⟩
  | some tid =>
    have h0 := stage_clear_pending_step w
    have hset := clear_pending_step_sent w (c :=
      .set (.step tid depth exclude only) .all no_filters) (by simp) 0
    simp only [handle_step, run_bind, run_get, htid, set_request_run]
    generalize (clear_pending_step.run w).2 = w₁ at h0 hset ⊢
    rw [grants_zero] at hset
    cases hr : w₁.refuses (.set (.step tid depth exclude only) .all no_filters) with
    | some e =>
      refine Or.inr ⟨fun t h => ?_, ⟨_, rfl⟩, ?_⟩
      · obtain ⟨ht, hg⟩ := h
        rw [htid, Option.some.injEq] at ht
        subst ht
        simp [hr, hg] at hset
      · exact (stage_log w₁ (by simp) (by simp) (by simp)).trans h0
    | none =>
      have hs : Steps w tid thread_id depth exclude only := by
        refine ⟨htid, ?_⟩
        rw [← hset, hr]
        rfl
      refine Or.inl ⟨tid, hs, ?_⟩
      simp only [run_bind, edit_run]
      generalize hw₃ : ((edit_suspensions Suspensions.mark_resumed).run _).2 = w₃
      have h3 : stage w₃ = { stage w with books := w.session.suspensions.mark_resumed } := by
        have hlog : stage (w₁.log (.set (.step tid depth exclude only) .all no_filters)) =
            stage w :=
          (stage_log w₁ (by simp) (by simp) (by simp)).trans h0
        have hbk : w₁.session.suspensions = w.session.suspensions := congrArg Stage.books h0
        rw [← hw₃, stage_edit_suspensions, ← hbk, ← hlog]
        rfl
      have hg : grants w₃ .resume_all 0 = grants w .resume_all 0 :=
        congrFun (congrArg Stage.resume_all h3) 0
      have hth : (stage w₃).threads = w.jvm.threads := congrArg Stage.threads h3
      have hdepth : w₃.jvm.suspend_count = w.jvm.suspend_count := congrArg Stage.depth h3
      have hbooks : w₃.session.suspensions = w.session.suspensions.mark_resumed :=
        congrArg Stage.books h3
      have hend : ∀ k, After (stage w₃) (stage (resume_all.run w₃).2)
            (fun t => w₃.jvm.suspend_count t - k) (fun _ => 0) →
          Settled (stage w) (stage (resume_all.run w₃).2) (fun t => w.jvm.suspend_count t - k)
            (Stage.Held (stage w)) := by
        intro k hafter
        have hb : (stage (resume_all.run w₃).2).books = w.session.suspensions.mark_resumed :=
          hafter.ground.books.trans hbooks
        refine ⟨hafter.ground.threads.trans hth, hafter.depth.trans (by rw [hdepth]),
          congrArg Suspensions.vm hb, fun t => ?_⟩
        change ((stage (resume_all.run w₃).2).books.threads.get? t).isSome = true ↔ _
        rw [hb]
        rfl
      by_cases hgo : grants w .resume_all 0
      · obtain ⟨hok, hafter⟩ := resume_all_granted (hg.trans hgo)
        rw [hok, if_pos hgo]
        exact ⟨⟨fun _ => hgo, fun _ => ⟨tid, rfl⟩⟩, hend 1 hafter⟩
      · obtain ⟨⟨e, he⟩, hafter⟩ := resume_all_refused (fun h => hgo (hg.symm.trans h))
        rw [he, if_neg hgo]
        exact ⟨⟨fun h => by simp at h, fun h => absurd h hgo⟩, hend 0 hafter⟩

end Step

section Rescue

/-- The watchdog's VM rescue is due. -/
def Overdue (w : World) (secs : ℕ) : Prop :=
  ∃ vm, w.session.suspensions.vm = some vm ∧ secs ≤ w.answers.now - vm.since

/-- After a due rescue the VM leaves the books exactly when the reply says that it runs. -/
theorem rescue_cases {w : World} {secs : ℕ} (hd : Overdue w secs) :
    (∃ k asked left s, Resumes (stage w) k asked left ∧
      ((∃ d, ((rescue_overdue_vm secs).run w).1 = some (.resumed d)) ↔ left = 0) ∧
      After (stage w) s (fun t => w.jvm.suspend_count t - k) asked ∧
      stage ((rescue_overdue_vm secs).run w).2 =
        { s with books := if left = 0 then s.books.mark_resumed else s.books }) ∨
    ((∀ k asked left, ¬ Resumes (stage w) k asked left) ∧
      (∀ d, ((rescue_overdue_vm secs).run w).1 ≠ some (.resumed d)) ∧
      ∃ k asked, After (stage w) (stage ((rescue_overdue_vm secs).run w).2)
        (fun t => w.jvm.suspend_count t - k) asked) := by
  obtain ⟨vm, hvm, hsince⟩ := hd
  have h0 : stage ((disarm_cause vm.cause).run (clear_pending_step.run w).2).2 = stage w :=
    (stage_disarm_cause _ _).trans (stage_clear_pending_step w)
  simp only [rescue_overdue_vm, run_bind, run_get, hvm, now, run_pure, hsince, if_true, rescue_vm]
  generalize (disarm_cause vm.cause).run (clear_pending_step.run w).2 = d at h0 ⊢
  rcases d with ⟨disarmed, w₁⟩
  have hcount : w₁.jvm.suspend_count = w.jvm.suspend_count := congrArg Stage.depth h0
  have hc := resume_and_verify_cases w₁
  simp only at h0
  rw [h0, hcount] at hc
  simp only [resume_for_rescue, run_bind]
  generalize resume_and_verify.run w₁ = out at hc ⊢
  rcases out with ⟨r, w₂⟩
  have hnote : ∀ o (w₃ : World), stage ((note_watchdog o).run w₃).2 = stage w₃ := fun o w₃ =>
    stage_edit (fun _ => rfl) (fun _ => rfl) w₃
  rcases hc with ⟨k, asked, left, note, hres, hok, hruns, hafter⟩ | ⟨hno, ⟨e, he⟩, k, asked, hafter⟩
  · simp only at hok hafter
    subst hok
    refine Or.inl ⟨k, asked, left, stage w₂, hres, ?_⟩
    cases note with
    | still_suspended issued rest =>
      have hne : left ≠ 0 := fun h => by simp [ResumeNote.runs, h] at hruns
      rw [if_neg hne]
      refine ⟨⟨?_, fun h => absurd h hne⟩, hafter, hnote _ _⟩
      rintro ⟨d, h⟩
      simp at h
    | resumed =>
      have hz : left = 0 := hruns.mp rfl
      rw [if_pos hz]
      exact ⟨⟨fun _ => hz, fun _ => ⟨disarmed, rfl⟩⟩, hafter, hnote _ _⟩
    | cleared n =>
      have hz : left = 0 := hruns.mp rfl
      rw [if_pos hz]
      exact ⟨⟨fun _ => hz, fun _ => ⟨disarmed, rfl⟩⟩, hafter, hnote _ _⟩
  · simp only at he hafter
    subst he
    obtain ⟨⟨h1, h2, h3, h4⟩, hdepth, hread, hresume⟩ := hafter
    have hs := hnote (.resume_failed disarmed) w₂
    refine Or.inr ⟨hno, fun d h => ?_, k, asked, ?_⟩
    · simp at h
    · change After _ (stage ((note_watchdog (.resume_failed disarmed)).run w₂).2) _ _
      rw [hs]
      exact ⟨⟨h1, h2, h3, h4⟩, hdepth, hread, hresume⟩

theorem no_rescue {w : World} {secs : ℕ} (hd : ¬ Overdue w secs) :
    (rescue_overdue_vm secs).run w = (none, w) := by
  simp only [rescue_overdue_vm, run_bind, run_get]
  cases hvm : w.session.suspensions.vm with
  | none => rfl
  | some vm =>
    have hsince : ¬ secs ≤ w.answers.now - vm.since := fun h => hd ⟨vm, hvm, h⟩
    simp only [now, run_bind, run_get, run_pure, hsince, if_false]

/-- The watchdog's second half: the overdue threads are released one by one. -/
theorem thread_rescue_spec (w : World) (secs : ℕ) :
    ∃ ids : List ThreadId,
      (∀ t, t ∈ ids ↔ t ∈ w.session.suspensions.overdue_threads secs w.answers.now) ∧
      Forgets (stage w) (stage ((rescue_overdue_thread_suspends secs).run w).2) ids
        (fun t => (released (stage w) t).2 ≠ 0) ∧
      (stage ((rescue_overdue_thread_suspends secs).run w).2).depth = lowered (stage w) ids := by
  simp only [rescue_overdue_thread_suspends, run_bind, run_get, now, run_pure]
  by_cases hempty : (w.session.suspensions.overdue_threads secs w.answers.now).isEmpty
  · simp only [hempty, if_true]
    refine ⟨[], fun t => ?_, ⟨rfl, rfl, rfl, rfl, fun t => ?_⟩, rfl⟩
    · rw [List.isEmpty_iff] at hempty
      rw [hempty]
    · exact ⟨fun h => ⟨h, fun hmem => by cases hmem⟩, And.left⟩
  · have hsub : ∀ t ∈ w.session.suspensions.overdue_threads secs w.answers.now,
        t ∈ w.session.suspensions.threads.rows.map ThreadSuspend.tid := fun t ht =>
      (List.filter_sublist.map ThreadSuspend.tid).subset ht
    simp only [hempty, if_false, run_bind, Bool.false_eq_true]
    generalize w.session.suspensions.overdue_threads secs w.answers.now = overdue at hsub ⊢
    have h0 := stage_disarm_requests (overdue.filterMap (armed_behind w.session.suspensions)) w
    generalize ((disarm_requests (overdue.filterMap (armed_behind w.session.suspensions))).run w).2
      = w₁ at h0 ⊢
    have hbooks : w₁.session.suspensions = w.session.suspensions := congrArg Stage.books h0
    refine ⟨(w.session.suspensions.threads.rows.map ThreadSuspend.tid).filter fun t => t ∈ overdue,
      fun t => ?_, ?_⟩
    · simp only [List.mem_filter, decide_eq_true_eq]
      exact ⟨And.right, fun h => ⟨hsub t h, h⟩⟩
    · obtain ⟨hf, hc, -⟩ := release_threads_spec
        ((w.session.suspensions.threads.rows.map ThreadSuspend.tid).filter fun t => t ∈ overdue)
        (w.session.suspensions.threads.nodup.filter _) w₁
      rw [h0] at hf hc
      have hnote : ∀ o (w₃ : World), stage ((note_watchdog o).run w₃).2 = stage w₃ := fun o w₃ =>
        stage_edit (fun _ => rfl) (fun _ => rfl) w₃
      simp only [release_thread_suspends, run_bind, run_get, hbooks, Option.all_some]
      refine ⟨?_, ?_⟩
      · refine Eq.mp (congrArg (fun s => Forgets (stage w) s _ _) ?_) hf
        exact (hnote _ _).symm
      · exact (congrArg Stage.depth (hnote _ _)).trans hc

end Rescue

section ResumeThread

/-- The thread's status is read as that of a thread that no longer exists. -/
def Gone (w : World) (tid : ThreadId) : Prop :=
  match w.refuses (.thread_status tid) with
  | some (.code c) => c = 20 ∨ c = 10
  | some .io => False
  | none => tid ∉ w.jvm.threads

theorem get_thread_status_run (tid : ThreadId) (w : World) :
    (get_thread_status tid).run w =
      (match w.refuses (.thread_status tid) with
        | some e => .error e
        | none =>
          if tid ∈ w.jvm.threads then .ok (1, if w.jvm.suspend_count tid = 0 then 0 else 1)
          else if w.answers.zombie tid then .ok (0, 0)
          else .error (.code 20), w.log (.thread_status tid)) := by
  simp only [get_thread_status, run_bind, send_run]
  cases w.refuses (.thread_status tid) with
  | some e => rfl
  | none =>
    simp only [run_bind, run_get, World.log]
    by_cases ht : tid ∈ w.jvm.threads
    · simp only [ht, if_true]
      rfl
    · by_cases hz : w.answers.zombie tid
      · simp only [ht, if_false, hz, if_true]
        rfl
      · simp only [ht, if_false, hz]
        rfl

theorem classify_thread_gone (w : World) (tid : ThreadId) :
    (((classify_thread tid).run w).1 = .finished ∨ ((classify_thread tid).run w).1 = .vanished ↔
      Gone w tid) ∧
    ((classify_thread tid).run w).2 = w.log (.thread_status tid) := by
  simp only [classify_thread, run_bind, get_thread_status_run, Gone]
  cases w.refuses (.thread_status tid) with
  | some e =>
    cases e with
    | code c =>
      refine ⟨?_, rfl⟩
      change (if _ then ThreadLiveness.vanished else _) = _ ∨
        (if _ then ThreadLiveness.vanished else _) = _ ↔ _
      split <;> simp_all
    | io =>
      refine ⟨?_, rfl⟩
      change ThreadLiveness.unreadable .io = _ ∨ ThreadLiveness.unreadable .io = _ ↔ False
      simp
  | none =>
    by_cases ht : tid ∈ w.jvm.threads
    · simp only [ht, if_true, not_true_eq_false, iff_false]
      refine ⟨?_, rfl⟩
      change ¬ (ThreadLiveness.live = _ ∨ ThreadLiveness.live = _)
      simp
    · simp only [ht, if_false, not_false_eq_true, iff_true]
      cases w.answers.zombie tid
      · exact ⟨Or.inr rfl, rfl⟩
      · exact ⟨Or.inl rfl, rfl⟩

theorem stage_drop_step_of (tid : ThreadId) : Keeps stage (drop_step_of tid) := by
  refine Keeps.bind Keeps.get fun w => ?_
  split
  · split
    · exact Keeps.bind (stage_clear_request _ _) fun _ => stage_edit (fun _ => rfl) fun _ => rfl
    · exact Keeps.pure _
  · exact Keeps.pure _

/-- The stage once one resume of `tid` was carried out and its count read back. -/
structure Lowered (s s' : Stage) (tid : ThreadId) : Prop where
  threads : s'.threads = s.threads
  depth : s'.depth = fun t => if t = tid then s.depth t - 1 else s.depth t
  books : s'.books = s.books.release_thread tid

theorem resume_one_thread_cases (w : World) (tid : ThreadId) :
    (grants w (.resume_thread tid) 0 ∧
      ((resume_one_thread tid).run w).1 =
        .ok (if grants w (.suspend_count tid) 0 = true ∧ 1 < w.jvm.suspend_count tid then
          .still_suspended (w.jvm.suspend_count tid - 1) else .running) ∧
      Lowered (stage w) (stage ((resume_one_thread tid).run w).2) tid) ∨
    (¬ grants w (.resume_thread tid) 0 ∧
      (∃ e, ((resume_one_thread tid).run w).1 = .error (.refused e)) ∧
      (stage ((resume_one_thread tid).run w).2).threads = w.jvm.threads ∧
      (stage ((resume_one_thread tid).run w).2).depth = w.jvm.suspend_count ∧
      (stage ((resume_one_thread tid).run w).2).books = w.session.suspensions) := by
  have h0 := stage_drop_step_of tid w
  simp only [resume_one_thread, run_bind, resume_thread_run]
  generalize ((drop_step_of tid).run w).2 = w₁ at h0 ⊢
  have hcount : w₁.jvm.suspend_count = w.jvm.suspend_count := congrArg Stage.depth h0
  have hresume : grants w₁ (.resume_thread tid) 0 = grants w (.resume_thread tid) 0 :=
    congrFun (congrFun (congrArg Stage.resume h0) tid) 0
  have hread : grants w₁ (.suspend_count tid) 0 = grants w (.suspend_count tid) 0 :=
    congrFun (congrFun (congrArg Stage.read h0) tid) 0
  have hth : w₁.jvm.threads = w.jvm.threads := congrArg Stage.threads h0
  have hbooks : w₁.session.suspensions = w.session.suspensions := congrArg Stage.books h0
  rw [← hresume, ← hread, grants_zero]
  cases hr : w₁.refuses (.resume_thread tid) with
  | some e =>
    refine Or.inr ⟨by simp, ⟨e, rfl⟩, hth, hcount, hbooks⟩
  | none =>
    have hg : grants { w₁.log (.resume_thread tid) with jvm := w₁.jvm.resume_thread tid }
        (.suspend_count tid) 0 = grants w₁ (.suspend_count tid) 0 :=
      grants_log_ne w₁ (by simp) 0
    dsimp only at hg
    refine Or.inl ⟨rfl, ?_, ?_⟩
    · simp only [run_bind, suspend_count_or_zero_run, hg]
      simp only [run_pure, Jvm.resume_thread, if_true, hcount]
      cases grants w₁ (.suspend_count tid) 0
      · simp
      · by_cases hz : 1 < w.jvm.suspend_count tid
        · simp [hz]
          omega
        · simp [hz]
          omega
    · simp only [run_bind, suspend_count_or_zero_run]
      refine ⟨?_, ?_, ?_⟩
      · change (w₁.jvm.resume_thread tid).threads = _
        exact hth
      · funext t
        change (w₁.jvm.resume_thread tid).suspend_count t = _
        simp only [Jvm.resume_thread, hcount, stage]
      · change w₁.session.suspensions.release_thread tid = _
        rw [hbooks]
        rfl

theorem resume_thread_picked {w : World} {thread_id : Option ThreadId} {tid : ThreadId}
    (hp : pick_thread w.session.suspensions thread_id = .ok tid) :
    (Gone w tid ∧ (∃ held, ((handle_resume_thread thread_id).run w).1 = .error (.gone held)) ∧
      stage ((handle_resume_thread thread_id).run w).2 =
        { stage w with books := w.session.suspensions.forget_thread tid }) ∨
    (¬ Gone w tid ∧ (handle_resume_thread thread_id).run w =
      (resume_one_thread tid).run (w.log (.thread_status tid))) := by
  obtain ⟨hgone, hlog⟩ := classify_thread_gone w tid
  simp only [handle_resume_thread, run_bind, run_get, hp]
  generalize (classify_thread tid).run w = r at hgone hlog ⊢
  rcases r with ⟨alive, w₁⟩
  simp only at hgone hlog
  subst hlog
  have hstage : stage (w.log (.thread_status tid)) = stage w :=
    stage_log w (by simp) (by simp) (by simp)
  cases alive with
  | finished =>
    refine Or.inl ⟨hgone.mp (Or.inl rfl), ⟨_, rfl⟩, ?_⟩
    rw [← hstage]
    rfl
  | vanished =>
    refine Or.inl ⟨hgone.mp (Or.inr rfl), ⟨_, rfl⟩, ?_⟩
    rw [← hstage]
    rfl
  | live => exact Or.inr ⟨fun h => by simpa using hgone.mpr h, rfl⟩
  | unreadable e => exact Or.inr ⟨fun h => by simpa using hgone.mpr h, rfl⟩

theorem resume_thread_unpicked {w : World} {thread_id : Option ThreadId} {e : ThreadFailure}
    (hp : pick_thread w.session.suspensions thread_id = .error e) :
    (handle_resume_thread thread_id).run w = (.error e, w) := by
  simp only [handle_resume_thread, run_bind, run_get, hp]
  rfl

end ResumeThread

end JavaDebug.Replies
