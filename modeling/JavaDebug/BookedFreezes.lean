import JavaDebug.HonestReplies

/-!
Who can still be rescued. A thread is on the books when the VM is, or when it
has a record of its own; the watchdog rescues what is on the books. Each
operation keeps every suspended thread there under a condition on the depths
and the answers before it.
-/
namespace JavaDebug.BookedFreezes

open Jdwp Session Wire
open Hits HitEffects Rearming Resuming
open StateProgram ResumeLoops Replies
open HonestReplies Runs

/-- Every suspended thread is on the books. -/
def Booked (s : Stage) : Prop := ∀ t, 0 < s.depth t → s.books.Books t

section Operations

/-- Where the first `k` resumes of the VM are granted and come to an end, every thread is at most
that deep, but for those in `spared`. -/
def Covered (s : Stage) (spared : ℕ → ThreadId → Prop) : Prop :=
  ∀ k, LastResume s k → ∀ t, s.depth t ≤ k ∨ spared k t

theorem Covered.at_end {s : Stage} {spared : ℕ → ThreadId → Prop} (h : Covered s spared)
    {k left : ℕ} {asked : ThreadId → ℕ} (hres : Resumes s k asked left) (t : ThreadId) :
    s.depth t ≤ k ∨ spared k t :=
  h k ((resumes_iff s k asked).mp ⟨left, hres⟩).1 t

theorem booked_settled {s s' : Stage} {depth : ThreadId → ℕ} {kept : ThreadId → Prop}
    (h : Settled s s' depth kept) (hkept : ∀ t, 0 < depth t → kept t) : Booked s' := by
  intro t ht
  rw [h.depth] at ht
  exact Or.inr ((h.held t).mpr (hkept t ht))

theorem booked_aborted {s s' : Stage} (h : Aborted s s') (hs : Booked s) : Booked s' := by
  intro t ht
  obtain ⟨k, hk⟩ := h.depth
  have hpos : 0 < s.depth t - k := by rwa [hk] at ht
  rw [h.books]
  exact hs t (by omega)

variable {w : World} (s : Suspensions)

theorem booked_continue (hw : Booked (stage w))
    (h : Covered (stage w) fun k t => Stage.Held (stage w) t ∧
      (stage w).read t (reread (stage w) k t) = true) :
    Booked (stage (handle_continue.run w).2) := by
  rcases continue_cases w with ⟨k, asked, left, r, hres, -, -, -, hset⟩ | ⟨-, -, hab⟩
  · obtain rfl := asked_eq_reread hres
    refine booked_settled hset fun t ht => ?_
    have hk : k < (stage w).depth t := by simp only [stage]; omega
    rcases h.at_end hres t with h | h
    · omega
    · exact ⟨h.1, h.2, hk⟩
  · exact booked_aborted hab hw

theorem booked_step (hw : Booked (stage w)) {thread_id : Option ThreadId} {depth : ℕ}
    {exclude only : List String}
    (h : ∀ tid, Steps w tid thread_id depth exclude only → ∀ t, w.jvm.suspend_count t ≤
      (if grants w .resume_all 0 then 1 else 0) ∨ Stage.Held (stage w) t) :
    Booked (stage ((handle_step thread_id depth exclude only).run w).2) := by
  rcases step_cases w thread_id depth exclude only with ⟨tid, hs, -, hset⟩ | ⟨-, -, hsame⟩
  · refine booked_settled hset fun t ht => ?_
    rcases h tid hs t with h | h
    · omega
    · exact h
  · rw [hsame]
    exact hw

theorem booked_panic (hw : Booked (stage w)) (h : Covered (stage w) fun k t =>
      Stage.Held (stage w) t ∧ Released (stage w) (reread (stage w) k) k t) :
    Booked (stage (handle_panic.run w).2) := by
  rcases panic_cases w with ⟨k, asked, left, r, hres, -, -, -, hset⟩ | ⟨-, -, hab⟩
  · obtain rfl := asked_eq_reread hres
    refine booked_settled hset fun t ht => ?_
    rcases (panicked_iff (stage w) k _ t).mpr (h.at_end hres t) with h | h
    · omega
    · exact h
  · exact booked_aborted hab hw

theorem resumes_pos {s : Stage} {k left : ℕ} {asked : ThreadId → ℕ} (h : Resumes s k asked left) :
    0 < k := by
  unfold Resumes at h
  split at h
  · omega
  · rcases h.1.ended with h | h
    · rw [h]
      decide
    · exact h.1

theorem booked_dump (hw : Booked (stage w)) :
    Booked (stage ((handle_thread_dump true).run w).2) := by
  by_cases hd : Dumps w
  · rcases dump_cases hd with ⟨k, asked, left, hres, -, -, hdepth, hheld, hvm⟩ | ⟨-, -, hvm⟩
    · intro t ht
      by_cases hz : left = 0
      · have hk := resumes_pos hres
        rw [hdepth] at ht
        have hpos : 0 < w.jvm.suspend_count t := by
          simp only [Jvm.suspend_all] at ht
          split at ht <;> omega
        rcases hw t hpos with hb | hb
        · simp [stage, hd.2.1] at hb
        · exact Or.inr ((hheld t).mpr hb)
      · exact Or.inl (hvm hz)
    · exact fun _ _ => Or.inl hvm
  · rw [(no_dump hd).2]
    exact hw

theorem booked_pause (hw : Booked (stage w)) : Booked (stage (handle_pause.run w).2) := by
  simp only [handle_pause, run_bind, run_get]
  by_cases hvm : w.session.suspensions.vm.isSome
  · simp only [hvm, if_true]
    exact hw
  · simp only [hvm, if_false, run_bind, suspend_all, perform_run, Bool.false_eq_true]
    cases w.refuses .suspend_all with
    | some e => exact hw
    | none => exact fun _ _ => Or.inl rfl

theorem held_hold_thread (tid t : ThreadId) (at_ : ℕ) :
    ((s.hold_thread tid at_).threads.get? t).isSome ↔
      t = tid ∨ (s.threads.get? t).isSome := by
  rw [Suspensions.get?_hold]
  by_cases ht : t = tid <;> simp [ht]

theorem booked_suspend_thread (hw : Booked (stage w)) (tid : ThreadId) :
    Booked (stage ((handle_suspend_thread tid).run w).2) := by
  have h0 : stage ((w.log (.thread_name tid)).log (.thread_status tid)) = stage w :=
    (stage_log _ (by simp) (by simp) (by simp)).trans (stage_log _ (by simp) (by simp) (by simp))
  have hlog := (classify_thread_gone (w.log (.thread_name tid)) tid).2
  simp only [handle_suspend_thread, run_bind, send_run]
  generalize (classify_thread tid).run (w.log (.thread_name tid)) = r at hlog ⊢
  rcases r with ⟨alive, w₁⟩
  simp only at hlog
  subst hlog
  generalize (w.log (.thread_name tid)).log (.thread_status tid) = w₁ at h0 ⊢
  rw [← h0] at hw
  cases alive with
  | vanished => exact hw
  | finished => exact hw
  | unreadable e => exact hw
  | live =>
    simp only [run_bind, suspend_thread, perform_run]
    cases w₁.refuses (.suspend_thread tid) with
    | some e =>
      change Booked (stage (w₁.log (.suspend_thread tid)))
      rw [stage_log _ (by simp) (by simp) (by simp)]
      exact hw
    | none =>
      simp only [run_bind, suspend_count_run]
      intro t ht
      have hdepth : 0 < (w₁.jvm.suspend_thread tid).suspend_count t := by
        revert ht
        cases World.refuses _ (.suspend_count tid) <;> exact id
      have hbooks : ∀ s : Suspensions, w₁.session.suspensions.hold_thread tid w₁.answers.now = s →
          s.Books t := by
        rintro s rfl
        by_cases htt : t = tid
        · exact Or.inr ((held_hold_thread _ _ _ _).mpr (Or.inl htt))
        · have hpos : 0 < w₁.jvm.suspend_count t := by
            simpa [Jvm.suspend_thread, htt] using hdepth
          rcases hw t hpos with hb | hb
          · refine Or.inl ?_
            unfold Suspensions.hold_thread
            cases w₁.session.suspensions.threads.get? tid <;> exact hb
          · exact Or.inr ((held_hold_thread _ _ _ _).mpr (Or.inr hb))
      refine hbooks _ ?_
      cases World.refuses _ (.suspend_count tid) <;> rfl

theorem release_thread_vm (tid : ThreadId) : (s.release_thread tid).vm = s.vm := by
  unfold Suspensions.release_thread
  split
  · rfl
  · split <;> rfl

theorem held_release_thread (tid t : ThreadId) :
    ((s.release_thread tid).threads.get? t).isSome ↔
      (s.threads.get? t).isSome ∧ (t = tid → ∃ r, s.threads.get? t = some r ∧ 1 < r.issued) := by
  rw [Suspensions.get?_release]
  by_cases ht : t = tid
  · subst ht
    cases h : s.threads.get? t with
    | none => simp
    | some r =>
      by_cases hz : r.issued - 1 = 0
      · simp [hz]
        omega
      · simp [hz]
        omega
  · simp [ht]

theorem booked_resume_thread (hw : Booked (stage w)) {thread_id : Option ThreadId}
    (h : ∀ tid, pick_thread w.session.suspensions thread_id = .ok tid →
      (Gone w tid → w.session.suspensions.vm.isSome ∨ w.jvm.suspend_count tid = 0) ∧
      (¬ Gone w tid → grants w (.resume_thread tid) 0 → w.session.suspensions.vm.isSome ∨
        w.jvm.suspend_count tid ≤ 1 ∨
        ∃ r, w.session.suspensions.threads.get? tid = some r ∧ 1 < r.issued)) :
    Booked (stage ((handle_resume_thread thread_id).run w).2) := by
  cases hp : pick_thread w.session.suspensions thread_id with
  | error e =>
    rw [resume_thread_unpicked hp]
    exact hw
  | ok tid =>
    rcases resume_thread_picked hp with ⟨hgone, -, hout⟩ | ⟨hgone, hrun⟩
    · rw [hout]
      intro t ht
      rcases (h tid hp).1 hgone with hv | hz
      · exact Or.inl hv
      · rcases hw t ht with hb | hb
        · exact Or.inl hb
        · have hne : t ≠ tid := by
            rintro rfl
            simp only [stage] at ht
            omega
          refine Or.inr ?_
          simp only [get_forget, if_neg hne]
          exact hb
    · have h0 : stage (w.log (.thread_status tid)) = stage w :=
        stage_log w (by simp) (by simp) (by simp)
      have hcases := resume_one_thread_cases (w.log (.thread_status tid)) tid
      rw [h0, grants_log_ne w (by simp), ← hrun] at hcases
      rcases hcases with ⟨hgo, -, hlow⟩ | ⟨-, -, -, hdepth, hbooks⟩
      · intro t ht
        rw [hlow.depth] at ht
        rw [hlow.books]
        have hpos : 0 < (stage w).depth t := by
          simp only at ht
          split at ht <;> omega
        rcases hw t hpos with hb | hb
        · exact Or.inl ((release_thread_vm _ _).symm ▸ hb)
        · rcases (h tid hp).2 hgone hgo with hv | hone | hrec
          · exact Or.inl ((release_thread_vm _ _).symm ▸ hv)
          · refine Or.inr ((held_release_thread _ _ _).mpr ⟨hb, fun htt => ?_⟩)
            subst htt
            simp only [if_true, stage] at ht
            omega
          · exact Or.inr ((held_release_thread _ _ _).mpr ⟨hb, fun htt => htt ▸ hrec⟩)
      · intro t ht
        rw [hdepth] at ht
        rw [hbooks]
        exact hw t ht

/-- The thread is on the watchdog's list: its record is older than `secs`. -/
def OverdueThread (s : Stage) (secs : ℕ) (t : ThreadId) : Prop :=
  t ∈ s.books.overdue_threads secs s.clock

/-- The release of the overdue threads, on a stage where `k` VM resumes have been made. -/
theorem booked_thread_rescue {w₁ : World} {secs : ℕ}
    (h : (stage w₁).books.vm.isSome ∨ ∀ t, 0 < (stage w₁).depth t → Stage.Held (stage w₁) t ∧
      (OverdueThread (stage w₁) secs t → (released (stage w₁) t).2 = 0 →
        (stage w₁).depth t ≤ (released (stage w₁) t).1)) :
    Booked (stage ((rescue_overdue_thread_suspends secs).run w₁).2) := by
  obtain ⟨ids, hids, hf, hdepth⟩ := thread_rescue_spec w₁ secs
  intro t ht
  rcases h with hv | h
  · exact Or.inl (hf.vm.symm ▸ hv)
  · rw [hdepth] at ht
    have hpos : 0 < (stage w₁).depth t := by
      unfold lowered at ht
      split at ht <;> omega
    refine Or.inr ((hf.books t).mpr ⟨(h t hpos).1, fun hmem hz => ?_⟩)
    have hle := (h t hpos).2 ((hids t).mp hmem) hz
    simp only [lowered, hmem, if_true] at ht
    omega

theorem booked_watchdog (hw : Booked (stage w)) {secs : ℕ}
    (hvm : Overdue w secs → ∀ k, LastResume (stage w) k → ReadsZero (stage w) k → ∀ t,
      (stage w).depth t ≤ k ∨ Stage.Held (stage w) t ∧ (OverdueThread (stage w) secs t →
        Released (stage w) (reread (stage w) k) k t))
    (hthreads : w.session.suspensions.vm = none → ∀ t, Stage.Held (stage w) t →
      OverdueThread (stage w) secs t → Released (stage w) (fun _ => 0) 0 t) :
    Booked (stage ((watchdog_tick secs).run w).2) := by
  have hrun : ((watchdog_tick secs).run w).2 = ((rescue_overdue_thread_suspends secs).run
      ((rescue_overdue_vm secs).run w).2).2 := by
    simp only [watchdog_tick, run_bind, run_pure]
  rw [hrun]
  refine booked_thread_rescue ?_
  by_cases hd : Overdue w secs
  · have hsome : w.session.suspensions.vm.isSome := by
      obtain ⟨vm, hvm, -⟩ := hd
      simp [hvm]
    rcases rescue_cases hd with ⟨k, asked, left, s, hres, -, hafter, hout⟩ |
      ⟨-, -, k, asked, hafter⟩
    · by_cases hz : left = 0
      · subst hz
        obtain ⟨hlast, hreads, rfl⟩ := (resumes_zero_iff _ _ _).mp hres
        refine Or.inr fun t ht => ?_
        rw [hout, if_pos rfl] at ht ⊢
        have hdepth : s.depth t = (stage w).depth t - k := congrFun hafter.depth t
        have hpos : k < (stage w).depth t := by
          simp only at ht
          omega
        rcases hvm hd k hlast hreads t with h | ⟨hheld, hrel⟩
        · omega
        · refine ⟨?_, fun hover => ?_⟩
          · change (s.books.threads.get? t).isSome = true
            rw [hafter.ground.books]
            exact hheld
          · have hover' : OverdueThread (stage w) secs t := by
              have : t ∈ s.books.overdue_threads secs s.clock := hover
              rwa [hafter.ground.books, hafter.ground.clock] at this
            have hr := (released_after_iff (stage w) k _ t).mpr (hrel hover')
            have hsame : released { s with books := s.books.mark_resumed } t =
                released_after (stage w) k (reread (stage w) k) t := by
              have h1 : s.read t = fun i => (stage w).read t (reread (stage w) k t + i) :=
                funext (hafter.read t)
              have h2 : s.resume t = (stage w).resume t := funext (hafter.resume t)
              simp only [released, released_after, h1, h2, hdepth]
            rw [hsame]
            simp only [hdepth]
            exact hr
      · refine Or.inl ?_
        rw [hout, if_neg hz]
        change s.books.vm.isSome = true
        rw [hafter.ground.books]
        exact hsome
    · refine Or.inl ?_
      rw [hafter.ground.books]
      exact hsome
  · rw [no_rescue hd]
    cases hv : w.session.suspensions.vm with
    | some vm => exact Or.inl (by simp [stage, hv])
    | none =>
      refine Or.inr fun t ht => ?_
      have hheld : Stage.Held (stage w) t := by
        rcases hw t ht with hb | hb
        · simp [stage, hv] at hb
        · exact hb
      refine ⟨hheld, fun hover => ?_⟩
      have hr := (released_after_iff (stage w) 0 (fun _ => 0) t).mpr (hthreads hv t hheld hover)
      simpa [released, released_after] using hr

end Operations

section Hits

theorem failed_escalation_vm (s : Suspensions) (tid : ThreadId) (at_ : ℕ) (req : RequestId) :
    (s.hold_thread_for_failed_escalation tid at_ req).vm = s.vm := by
  unfold Suspensions.hold_thread_for_failed_escalation
  cases s.threads.get? tid <;> rfl

theorem held_failed_escalation (s : Suspensions) (tid t : ThreadId) (at_ : ℕ) (req : RequestId) :
    ((s.hold_thread_for_failed_escalation tid at_ req).threads.get? t).isSome ↔
      t = tid ∨ (s.threads.get? t).isSome := by
  rw [Suspensions.get?_fail]
  by_cases ht : t = tid <;> simp [ht]

/-- The first event of the composite is a stop point's, and nothing in it is traced. -/
def Reportable (w : World) (es : EventSet) (t : ThreadId) (e : Event) (loc : Location) : Prop :=
  es.events.head? = some e ∧ event_location e.details = some (t, loc) ∧ Untraced w es

variable {w : World} {es : EventSet} {t : ThreadId} {a : Answers} {e : Event} {loc : Location}

theorem event_suspends_iff (hr : Reportable w es t e loc) :
    es.event_suspends ↔ es.suspend_policy ≠ .none := by
  have hany : (es.events.any fun e => (event_location e.details).isSome) = true :=
    List.any_eq_true.mpr ⟨e, List.mem_of_mem_head? (Option.mem_def.mpr hr.1), by simp [hr.2.1]⟩
  simp [EventSet.event_suspends, hany]

theorem booked_of_scene {w' : World} {counts : ThreadId → ℕ} {books : Suspensions}
    {events : EventRing} {m : World} (h : scene w' = { scene m with
      suspend_count := counts, suspensions := books, events := events })
    (hb : ∀ u, 0 < counts u → books.Books u) : Booked (stage w') := by
  intro u hu
  have hc : w'.jvm.suspend_count = counts := congrArg Scene.suspend_count h
  have hs : w'.session.suspensions = books := congrArg Scene.suspensions h
  simp only [stage, hc, hs] at hu ⊢
  exact hb u hu

theorem let_go_le (w : World) (es : EventSet) (t : ThreadId) (u : ThreadId) :
    (let_go (w.jvm.suspend_for es.suspend_policy t) t
      (decide (es.suspend_policy = .eventThread))).suspend_count u ≤ w.jvm.suspend_count u := by
  cases es.suspend_policy with
  | none =>
    simp only [let_go, reduceCtorEq, decide_false, Bool.false_eq_true, if_false, Jvm.resume_all,
      Jvm.suspend_for]
    omega
  | eventThread =>
    simp only [let_go, decide_true, if_true, Jvm.resume_thread, Jvm.suspend_for,
      Jvm.suspend_thread]
    split
    · split <;> omega
    · rename_i hne
      simp [hne]
  | all =>
    simp only [let_go, reduceCtorEq, decide_false, Bool.false_eq_true, if_false, Jvm.resume_all,
      Jvm.suspend_for, Jvm.suspend_all]
    split <;> omega

theorem booked_hit (hw : Booked (stage w)) (hq : w.queue = []) (hr : Reportable w es t e loc)
    (h : verdict w.session a e t loc = .dropped →
      (a.refused (let_go_command t (decide (es.suspend_policy = .eventThread))) 0).isSome →
      ∀ u, 0 < (w.jvm.suspend_for es.suspend_policy t).suspend_count u →
        w.session.suspensions.Books u) : Booked (stage ((Move.hit es t a).next w)) := by
  obtain ⟨he, hl, hun⟩ := hr
  have hun' : Untraced (met w es t a) es := hun
  rw [hit_next hq, listen_untraced hun']
  have hcount : (met w es t a).jvm.suspend_count =
      (w.jvm.suspend_for es.suspend_policy t).suspend_count := rfl
  have hvm : ∀ u, (w.session.suspensions.mark_suspended (hit_cause es) a.now).Books u :=
    fun _ => Or.inl rfl
  have hquiet : es.suspend_policy = .none → ∀ u,
      0 < (w.jvm.suspend_for es.suspend_policy t).suspend_count u →
      w.session.suspensions.Books u := fun hp u hu => by
    rw [hp] at hu
    exact hw u hu
  have hunescalated : verdict w.session a e t loc ≠ .dropped →
      (es.suspend_policy = .eventThread → verdict w.session a e t loc = .unconditional) →
      Booked (stage ((store_reportable_event es).run (met w es t a)).2) := fun hne hp => by
    refine booked_of_scene (store_unescalated (w := met w es t a) he hl hne hp) fun u hu => ?_
    by_cases hpol : es.suspend_policy = .none
    · have hno : es.event_suspends = false := by
        simpa [hpol] using (event_suspends_iff ⟨he, hl, hun⟩)
      simp only [booked, hno, Bool.false_eq_true, if_false]
      exact hquiet hpol u hu
    · rw [booked_none ((event_suspends_iff ⟨he, hl, hun⟩).mpr hpol)]
      exact hvm u
  cases hv : verdict w.session a e t loc with
  | dropped =>
    have hv' : verdict (met w es t a).session (met w es t a).answers e t loc = .dropped := hv
    have hscene := store_dropped he hl hv'
    refine booked_of_scene hscene fun u hu => ?_
    simp only [after_drop] at hu
    change w.session.suspensions.Books u
    cases hrf : (met w es t a).refuses
        (let_go_command t (decide (es.suspend_policy = .eventThread))) with
    | some err =>
      rw [hrf] at hu
      have href : (a.refused (let_go_command t (decide (es.suspend_policy = .eventThread)))
          0).isSome := by
        rw [show a.refused _ 0 = some err from hrf]
        rfl
      exact h hv href u hu
    | none =>
      rw [hrf] at hu
      have hu' : 0 < (let_go (w.jvm.suspend_for es.suspend_policy t) t
          (decide (es.suspend_policy = .eventThread))).suspend_count u := by
        revert hu
        simp only [let_go]
        split <;> exact id
      exact hw u (Nat.lt_of_lt_of_le hu' (let_go_le w es t u))
  | unconditional => exact hunescalated (by simp [hv]) fun _ => hv
  | matched =>
    by_cases hpol : es.suspend_policy = .eventThread
    · have hv' : verdict (met w es t a).session (met w es t a).answers e t loc = .matched := hv
      have hsus : es.event_suspends := (event_suspends_iff ⟨he, hl, hun⟩).mpr (by simp [hpol])
      cases hg : (met w es t a).refuses .suspend_all with
      | none =>
        refine booked_of_scene (store_escalated he hl hv' hpol hg) fun u _ => ?_
        rw [booked_none hsus]
        exact hvm u
      | some err =>
        obtain ⟨f, hscene⟩ := store_refused he hl hv' hpol (by simp [hg])
        refine booked_of_scene hscene fun u hu => ?_
        have hthread : es.event_thread = some t := by simp [EventSet.event_thread, he, hl]
        change (booked w.session.suspensions es (some f) a.now).Books u
        simp only [booked, hsus, if_true, Option.any_some, hthread, he]
        cases f.vm_running
        · exact hvm u
        · by_cases hut : u = t
          · exact Or.inr ((held_failed_escalation _ _ _ _ _).mpr (Or.inl hut))
          · have hpos : 0 < w.jvm.suspend_count u := by
              have hu' : 0 < (w.jvm.suspend_for es.suspend_policy t).suspend_count u := hu
              simpa [hpol, Jvm.suspend_for, Jvm.suspend_thread, hut] using hu'
            rcases hw u hpos with hb | hb
            · exact Or.inl ((failed_escalation_vm _ _ _ _).symm ▸ hb)
            · exact Or.inr ((held_failed_escalation _ _ _ _ _).mpr (Or.inr hb))
    · exact hunescalated (by simp [hv]) fun hp => absurd hp hpol

end Hits

section Runs

/-- The operations a run is made of: hits of stop points that are not traced, and what suspends
or resumes. -/
def Listed (w : World) : Move → Prop
  | .call c _ =>
    match c with
    | .pause | .continue_ | .step _ _ _ _ | .panic | .suspend_thread _ | .resume_thread _
    | .thread_dump true | .watchdog _ => True
    | _ => False
  | .hit es t _ => ∃ e loc, Reportable w es t e loc
  | .fire _ _ | .listen _ => False

/-- The depths and answers under which an operation leaves no thread behind. -/
def KeepsBooked (w : World) : Move → Prop
  | .call .continue_ a => Covered (stage (w.begin a)) fun k t => Stage.Held (stage w) t ∧
      (stage (w.begin a)).read t (reread (stage (w.begin a)) k t) = true
  | .call (.step thread_id depth exclude only) a =>
    ∀ tid, Steps (w.begin a) tid thread_id depth exclude only → ∀ t, w.jvm.suspend_count t ≤
      (if grants (w.begin a) .resume_all 0 then 1 else 0) ∨ Stage.Held (stage w) t
  | .call .panic a => Covered (stage (w.begin a)) fun k t => Stage.Held (stage w) t ∧
      Released (stage (w.begin a)) (reread (stage (w.begin a)) k) k t
  | .call (.resume_thread thread_id) a =>
    ∀ tid, pick_thread w.session.suspensions thread_id = .ok tid →
      (Gone (w.begin a) tid → w.session.suspensions.vm.isSome ∨ w.jvm.suspend_count tid = 0) ∧
      (¬ Gone (w.begin a) tid → grants (w.begin a) (.resume_thread tid) 0 →
        w.session.suspensions.vm.isSome ∨ w.jvm.suspend_count tid ≤ 1 ∨
        ∃ r, w.session.suspensions.threads.get? tid = some r ∧ 1 < r.issued)
  | .call (.watchdog secs) a =>
    (Overdue (w.begin a) secs → ∀ k, LastResume (stage (w.begin a)) k →
      ReadsZero (stage (w.begin a)) k → ∀ t, w.jvm.suspend_count t ≤ k ∨ Stage.Held (stage w) t ∧
        (OverdueThread (stage (w.begin a)) secs t →
          Released (stage (w.begin a)) (reread (stage (w.begin a)) k) k t)) ∧
    (w.session.suspensions.vm = none → ∀ t, Stage.Held (stage w) t →
      OverdueThread (stage (w.begin a)) secs t →
        Released (stage (w.begin a)) (fun _ => 0) 0 t)
  | .hit es t a => ∀ e loc, Reportable w es t e loc →
      verdict w.session a e t loc = .dropped →
      (a.refused (let_go_command t (decide (es.suspend_policy = .eventThread))) 0).isSome →
      ∀ u, 0 < (w.jvm.suspend_for es.suspend_policy t).suspend_count u →
        w.session.suspensions.Books u
  | _ => True

theorem booked_move {w : World} {m : Move} (hw : Booked (stage w)) (hm : m.Allowed w)
    (hl : Listed w m) (hk : KeepsBooked w m) : Booked (stage (m.next w)) := by
  cases m with
  | fire _ _ => exact hl.elim
  | listen _ => exact hl.elim
  | hit es t a =>
    obtain ⟨e, loc, hr⟩ := hl
    exact booked_hit hw hm.2 hr (hk e loc hr)
  | call c a =>
    have hw' : Booked (stage (w.begin a)) := hw
    simp only [Move.next]
    cases c with
    | pause =>
      simp only [Call.run, run_bind, run_pure]
      exact booked_pause hw'
    | continue_ =>
      simp only [Call.run, run_bind, run_pure]
      exact booked_continue hw' hk
    | step thread_id depth exclude only =>
      simp only [Call.run, run_bind, run_pure]
      exact booked_step hw' hk
    | panic =>
      simp only [Call.run, run_bind, run_pure]
      exact booked_panic hw' hk
    | suspend_thread tid =>
      simp only [Call.run, run_bind, run_pure]
      exact booked_suspend_thread hw' tid
    | resume_thread thread_id =>
      simp only [Call.run, run_bind, run_pure]
      exact booked_resume_thread hw' hk
    | thread_dump suspend =>
      cases suspend with
      | true =>
        simp only [Call.run, run_bind, run_pure]
        exact booked_dump hw'
      | false => exact hl.elim
    | watchdog secs =>
      simp only [Call.run, run_bind, run_pure]
      exact booked_watchdog hw' hk.1 hk.2
    | _ => exact hl.elim

/-- From any session that holds nothing, whatever it has armed: a run whose operations all meet
`KeepsBooked` keeps every suspended thread on the books. -/
theorem suspended_threads_stay_booked {w₀ w : World} (hstart : ∀ t, w₀.jvm.suspend_count t = 0)
    (hrun : Run (fun w m => Listed w m ∧ KeepsBooked w m) w₀ w) (t : ThreadId)
    (ht : 0 < w.jvm.suspend_count t) : w.session.suspensions.Books t := by
  refine Run.invariant (I := fun w => Booked (stage w)) (fun w m hw hm hok => ?_) hrun ?_ t ht
  · exact booked_move hw hm hok.1 hok.2
  · intro t ht
    simp [stage, hstart t] at ht

/-- The whole VM is stopped at the line, on thread 1. -/
def line_surfaced : World := (Move.hit (line_hit .all 1) 1 plain).next (line_armed none)

theorem line_hit_listed : Listed (line_armed none) (.hit (line_hit .all 1) 1 plain) := by
  refine ⟨_, _, rfl, rfl, ?_⟩
  unfold Untraced
  decide

theorem suspended_threads_stay_booked_line : line_surfaced.session.suspensions.Books 2 := by
  refine @suspended_threads_stay_booked (line_armed none) line_surfaced (fun _ => rfl)
    (.single (Step.intro (.hit (line_hit .all 1) 1 plain) ?_ ⟨line_hit_listed, ?_⟩)) 2 (by decide)
  · change Fires _ _ _ ∧ _
    decide
  · intro _ _ _ _ h
    cases h

/-- A wire that refuses to resume the VM. -/
def resume_refused : Answers :=
  { plain with refused := fun c _ => if c = .resume_all then some .io else none }

/-- A step takes the VM off the books before it asks for the resume: when that is refused, both
threads stay suspended and neither is on the books. -/
theorem refused_step_unbooked :
    ∃ w, Run Listed (line_armed none) w ∧ (∀ t, (line_armed none).jvm.suspend_count t = 0) ∧
      0 < w.jvm.suspend_count 2 ∧ ¬ w.session.suspensions.Books 2 := by
  refine ⟨_, .tail (.single (Step.intro (.hit (line_hit .all 1) 1 plain) ?_ line_hit_listed))
    (Step.intro (.call (.step (some 1) 0 [] []) resume_refused) trivial trivial),
    fun _ => rfl, by decide, ?_⟩
  · change Fires _ _ _ ∧ _
    decide
  · unfold Suspensions.Books
    decide

end Runs

end JavaDebug.BookedFreezes
