import JavaDebug.SuspendingOnly
import JavaDebug.HitEffects
import JavaDebug.HitWalks

/-!
What a hit leaves behind. For sessions without traced stop points, one hit at
a time, every command carried out: a surfaced hit stops every thread and is on
the books, a dropped one stops nothing, unless its request holds only the hit
thread while its stop point has no condition any more. The policy is the one
the request was armed with; the condition is the one the record has now.
-/
namespace JavaDebug.SurfacedHits

open Jdwp StopPoints Session Wire Disarming
open Arming Hits Rearming Resuming StateProgram
open Runs HitWalks SuspendingOnly HitEffects

section Histories

/-- The tool calls of a history that only arms, toggles, updates and resumes. -/
def Editing : Call → Prop
  | .set_line_stop _ _ _ o _ _ | .set_exception_stop _ _ _ o _ | .set_field_stop _ _ _ o _
  | .set_method_exit_stop _ _ _ _ o | .set_monitor_stop _ _ o => o.trace = false
  | .toggle_stop_point _ _ | .update_stop_point _ _ _ | .continue_ => True
  | _ => False

/-- Single events, delivered while every thread runs; every command is carried out. -/
def History (w : World) : Move → Prop
  | .call c a => Editing c ∧ Obliging a
  | .hit es _ a => es.events.length = 1 ∧ w.jvm.running ∧ Obliging a
  | .fire _ _ | .listen _ => False

/-- Nothing is traced, no single thread is held, and the VM is on the books only when some
thread is suspended. -/
structure Ready (w : World) : Prop where
  suspending : Suspending w
  drained : w.queue = []
  no_thread : w.session.suspensions.threads.rows = []
  booked : w.jvm.running → w.session.suspensions.vm = none

theorem ready_of_quiet {w w' : World} (hw : Ready w) (h : Quiet (holds w) w') : Ready w' := by
  have hh := h.2
  simp only [holds, Holds.mk.injEq] at hh
  obtain ⟨hthreads, hcount, hsus, hqueue, -⟩ := hh
  refine ⟨h.1, hqueue.trans hw.drained, by rw [hsus]; exact hw.no_thread, fun hrun => ?_⟩
  rw [hsus]
  refine hw.booked fun t ht => ?_
  rw [← hcount]
  exact hrun t (by rw [hthreads]; exact ht)

theorem suspending_begin {w : World} (hw : Suspending w) (a : Answers) : Suspending (w.begin a) :=
  ⟨hw.stop_points, hw.pending, hw.families, hw.forgotten, hw.requests⟩

theorem ready_start (threads : List ThreadId) (a : Answers) : Ready (World.start threads a) := by
  refine ⟨⟨?_, ?_, ?_, rfl, ?_⟩, rfl, rfl, fun _ => rfl⟩ <;> intro _ h <;> cases h

theorem quiet_editing {c : Call} (hc : Editing c) (hne : c ≠ .continue_) {h : Holds} :
    Preserves (Quiet h) c.run := by
  have hother : ∀ {o : StopOptions} {on : ArmedOn}, o.trace = false → (∀ bp, on ≠ .line bp) →
      ∀ id ids, Stops (o.stop_point id ids on) :=
    fun ht hon _ _ => ⟨ht, fun bp hbp => absurd hbp (hon bp)⟩
  cases c with
  | set_line_stop patterns line method o index cap =>
    exact quiet_survives.set_line_stop _ _ _ _ _ hc
  | set_exception_stop targets caught uncaught o cap =>
    exact Preserves.bind (quiet_survives.set_exception_stop _ _ _ _ fun ex =>
      hother hc fun _ => by simp) fun _ => Preserves.pure _
  | set_field_stop targets field kinds o cap =>
    exact quiet_survives.set_field_stop _ _ _ _ fun wp => hother hc fun _ => by simp
  | set_method_exit_stop patterns method ret exclude o =>
    exact quiet_survives.set_method_exit_stop _ _ _ fun _ => hother hc fun _ => by simp
  | set_monitor_stop kinds arm o =>
    refine Preserves.bind (Preserves.get_bind fun w _ => ?_) fun _ => Preserves.pure _
    split
    · exact quiet_survives.monitor_kinds _ (fun _ _ => hother hc fun _ => by simp) _ _
    · exact Preserves.pure _
  | toggle_stop_point id enabled =>
    exact Preserves.bind (quiet_toggle id enabled) fun _ => Preserves.pure _
  | update_stop_point id condition hit_count =>
    exact Preserves.bind (quiet_update id condition hit_count) fun _ => Preserves.pure _
  | continue_ => exact absurd rfl hne
  | clear_stop_point _ | step _ _ _ _ | panic | pause | suspend_thread _ | resume_thread _
  | thread_dump _ | watchdog _ => exact hc.elim

end Histories

section Continue

/-- Nothing is traced or queued, no single thread is held, and no command is refused. -/
structure Served (w : World) : Prop where
  suspending : Suspending w
  drained : w.queue = []
  no_thread : w.session.suspensions.threads.rows = []
  obliging : Obliging w.answers

theorem served_log {w : World} (hw : Served w) (c : Command) : Served (w.log c) :=
  ⟨(quiet_log ⟨hw.suspending, rfl⟩ c).1, hw.drained, hw.no_thread, hw.obliging⟩

theorem served_resume_all : Ensures Served resume_all fun r w => r = .ok () ∧ Served w := by
  intro w hw
  rw [resume_all, perform_run, Obliging.refuses hw.obliging]
  have h := served_log hw .resume_all
  exact ⟨rfl, ⟨h.suspending.stop_points, h.suspending.pending, h.suspending.families,
    h.suspending.forgotten, h.suspending.requests⟩, h.drained, h.no_thread, h.obliging⟩

theorem served_count (t : ThreadId) : Preserves Served (suspend_count_or_zero t) := by
  intro w hw
  simp only [suspend_count_or_zero, run_bind, suspend_count_run, Obliging.refuses hw.obliging]
  exact served_log hw _

theorem served_resume_all_fully (probe : ThreadId) (attempts issued : ℕ) :
    Ensures Served (resume_all_fully probe issued attempts)
      fun r w => (∃ n, r = .ok n) ∧ Served w := by
  induction attempts generalizing issued with
  | zero =>
    refine Preserves.bind_ensures (served_count probe) fun left => ?_
    exact fun _ hw => ⟨⟨_, rfl⟩, hw⟩
  | succ n ih =>
    refine Ensures.bind served_resume_all fun r w hw => ?_
    obtain ⟨rfl, hw⟩ := hw
    have hread : Ensures Served
        (do
          let left ← suspend_count_or_zero probe
          if left = 0 then pure (.ok (issued + 1, 0))
          else resume_all_fully probe (issued + 1) n)
        fun r w => (∃ n, r = .ok n) ∧ Served w := by
      refine Preserves.bind_ensures (served_count probe) fun left => ?_
      split
      · exact fun _ hw => ⟨⟨_, rfl⟩, hw⟩
      · exact ih _
    exact hread w hw

theorem served_resume_and_verify :
    Ensures Served resume_and_verify fun r w => (∃ n, r = .ok n) ∧ Served w := by
  refine Preserves.bind_ensures (fun _ hw => hw) fun w => ?_
  split
  · refine Ensures.bind served_resume_all fun r w hw => ?_
    obtain ⟨rfl, hw⟩ := hw
    exact ⟨⟨_, rfl⟩, hw⟩
  · refine Ensures.bind (served_resume_all_fully _ _ _) fun r w hw => ?_
    obtain ⟨⟨n, rfl⟩, hw⟩ := hw
    simp only
    split
    · exact ⟨⟨_, rfl⟩, hw⟩
    · split <;> exact ⟨⟨_, rfl⟩, hw⟩

theorem served_clear_pending_step : Preserves Served clear_pending_step := by
  intro w hw
  simp only [clear_pending_step, run_bind, run_get]
  split
  · exact hw
  · rename_i req tid _
    have hq : Quiet (holds w) { w with session := { w.session with pending_step := none } } :=
      ⟨⟨hw.suspending.stop_points, hw.suspending.pending, hw.suspending.families,
        hw.suspending.forgotten, hw.suspending.requests⟩, rfl⟩
    have hc := quiet_clear_request .single_step req _ hq
    have hh := hc.2
    simp only [holds, Holds.mk.injEq] at hh
    obtain ⟨-, -, hsus, hqueue, hans⟩ := hh
    refine ⟨hc.1, hqueue.trans hw.drained, ?_, ?_⟩
    · rw [← hw.no_thread, ← hsus]
      rfl
    · exact fun c n => (congrArg (fun a => a.refused c n) hans).trans (hw.obliging c n)

theorem ready_continue {w : World} (hw : Ready w) {a : Answers} (ha : Obliging a) :
    Ready ((Move.call .continue_ a).next w) := by
  have h0 : Served (w.begin a) :=
    ⟨suspending_begin hw.suspending a, hw.drained, hw.no_thread, ha⟩
  have h1 := served_clear_pending_step _ h0
  obtain ⟨⟨note, hr⟩, h2⟩ := served_resume_and_verify _ h1
  have hrows := h2.no_thread
  simp only [Move.next, Call.run, run_bind, handle_continue, hr]
  simp only [edit_suspensions, edit_run, run_bind, verify_thread_suspends, run_get,
    Suspensions.mark_resumed, hrows, List.map_nil, verify_threads, run_pure]
  exact ⟨⟨h2.suspending.stop_points, h2.suspending.pending, h2.suspending.families,
    h2.suspending.forgotten, h2.suspending.requests⟩, h2.drained, hrows, fun _ => rfl⟩

end Continue

section Hit

theorem suspending_of_quiet {m : Handler PUnit} (hm : ∀ h, Preserves (Quiet h) m) :
    Preserves Suspending m :=
  fun w hw => (hm (holds w) w ⟨hw, rfl⟩).1

theorem suspending_of_records {w w' : World} (hw : Suspending w)
    (hsp : w'.session.stop_points = w.session.stop_points)
    (hp : w'.session.pending_breakpoints = w.session.pending_breakpoints)
    (hf : w'.session.pattern_sets = w.session.pattern_sets)
    (hd : w'.session.disarmed_traced_requests = w.session.disarmed_traced_requests)
    (hr : w'.jvm.requests = w.jvm.requests) : Suspending w' := by
  refine ⟨?_, ?_, ?_, ?_, ?_⟩
  · rw [hsp]
    exact hw.stop_points
  · rw [hp]
    exact hw.pending
  · rw [hf]
    exact hw.families
  · rw [hd]
    exact hw.forgotten
  · rw [hr]
    exact hw.requests

variable (req : RequestId)

theorem quiet_edit_owner {h : Holds} (f : StopPoint → StopPoint) (hf : ∀ sp, (f sp).id = sp.id)
    (hs : ∀ sp, Stops sp → Stops (f sp)) : Preserves (Quiet h) (edit_owner req f hf) := by
  intro w hw
  simp only [edit_owner, edit_run]
  cases w.session.owner? req with
  | none => exact hw
  | some sp => exact quiet_edit_stop_point sp.id f hf hs w hw

theorem stops_add_discarded {sp : StopPoint} (hs : Stops sp) : Stops (add_discarded sp) := by
  unfold add_discarded
  split
  · exact ⟨hs.1, fun bp hbp => by cases hbp⟩
  · exact hs

theorem suspending_record_hit : Preserves Suspending (record_stop_point_hit req) :=
  suspending_of_quiet fun _ => quiet_edit_owner req add_hit _ fun _ hs => hs

theorem suspending_record_discarded : Preserves Suspending (record_discarded_exit req) :=
  suspending_of_quiet fun _ => quiet_edit_owner req add_discarded _ fun _ => stops_add_discarded

theorem suspending_perform (c : Command) {f : Jvm → Jvm} (hf : ∀ j, (f j).requests = j.requests) :
    Preserves Suspending (perform c f) := by
  intro w hw
  rw [perform_run]
  split
  · exact suspending_of_records hw rfl rfl rfl rfl rfl
  · exact suspending_of_records hw rfl rfl rfl rfl (hf w.jvm)

theorem suspending_release (thread : ThreadId) (held_thread_only : Bool) :
    Preserves Suspending (release_dropped_hit thread held_thread_only) :=
  release_preserves (fun _ => suspending_perform _ fun _ => rfl)
    (suspending_perform _ fun _ => rfl) thread held_thread_only

theorem suspending_send (c : Command) : Preserves Suspending (send c) := by
  intro w hw
  rw [send_run]
  exact suspending_of_records hw rfl rfl rfl rfl rfl

theorem suspending_escalate (thread : ThreadId) :
    Preserves Suspending (escalate_to_vm_suspend thread) :=
  escalate_preserves (suspending_perform _ fun _ => rfl)
    (Preserves.bind (suspending_send _) fun r => by split <;> exact fun _ hw => hw)
    (fun _ => Preserves.bind (suspending_send _) fun r => by split <;> exact fun _ hw => hw) thread

theorem suspending_judge_hit (e : Event) (thread : ThreadId) (loc : Location) (b : Bool) :
    Preserves Suspending (judge_hit e thread loc b) :=
  judge_preserves (suspending_record_discarded _) (suspending_record_hit _) suspending_release
    suspending_escalate thread loc b

theorem suspending_surface (es : EventSet) (escalation : Option FailedEscalation) :
    Preserves Suspending (surface es escalation) :=
  surface_preserves (fun _ _ _ _ hw => suspending_of_records hw rfl rfl rfl rfl rfl)
    (fun _ hw => hw) suspending_send es escalation

theorem suspending_spend : Preserves Suspending (spend_if_counted req) := by
  refine suspending_of_quiet fun h => Preserves.get_bind fun w hw => ?_
  split
  · exact Preserves.pure _
  rename_i sp hsp
  have ht : sp.trace = false := (hw.1.stop_points sp (List.mem_of_find?_eq_some hsp)).1
  split
  · exact Preserves.pure _
  · refine Preserves.bind ?_ fun _ => Preserves.forM_mem _ fun r _ =>
      Preserves.bind (quiet_clear_request _ _) fun _ => Preserves.pure _
    simp only [DebugSession.note_traced_in_flight, ht, Bool.false_eq_true, if_false]
    exact quiet_edit_stop_point _ _ _ fun _ hs => hs

theorem suspending_store (es : EventSet) : Preserves Suspending (store_reportable_event es) := by
  unfold store_reportable_event
  simp only
  split
  · exact suspending_surface _ _
  split
  · exact suspending_surface _ _
  refine Preserves.bind (suspending_judge_hit _ _ _ _) fun r => ?_
  split
  · exact suspending_spend _
  · exact Preserves.bind (suspending_surface _ _) fun _ => suspending_spend _

end Hit

section Judged

theorem suspending_met {w : World} (hw : Suspending w) (es : EventSet) (t : ThreadId) (a : Answers)
    : Suspending (met w es t a) := by
  refine ⟨hw.stop_points, hw.pending, hw.families, hw.forgotten, fun q hq => ?_⟩
  have hmem : q ∈ (w.jvm.suspend_for es.suspend_policy t).requests := (List.mem_filter.mp hq).1
  refine hw.requests q ?_
  cases hp : es.suspend_policy <;> rw [hp] at hmem <;> exact hmem

theorem met_count (w : World) (es : EventSet) (t : ThreadId) (a : Answers) :
    (met w es t a).jvm.suspend_count = (w.jvm.suspend_for es.suspend_policy t).suspend_count :=
  rfl

/-- Nothing being traced, a composite without a class-prepare event goes to the suspending path. -/
theorem listen_suspending {w : World} (hw : Suspending w) {es : EventSet} {e : Event}
    (hes : es.events = [e]) (hc : class_prepare_of e.details = none) :
    (listen es).run w = (store_reportable_event es).run w := by
  refine listen_untraced fun e' he' => ?_
  rw [hes, List.mem_singleton] at he'
  subst he'
  refine ⟨hc, List.find?_eq_none.mpr fun sp hsp => ?_, ?_⟩
  · simp [(hw.stop_points sp hsp).1]
  · simp [DebugSession.was_traced_and_disarmed, hw.forgotten]

/-- Every thread is stopped, and the books name the request that stopped the VM. -/
def Frozen (w : World) (req : RequestId) : Prop :=
  (∀ u ∈ w.jvm.threads, 0 < w.jvm.suspend_count u) ∧
    ∃ since, w.session.suspensions.vm = some ⟨since, .stop_point req⟩

/-- Nothing is held, and nothing is on the books. -/
def Free (w : World) : Prop :=
  w.jvm.running ∧ w.session.suspensions.vm = none ∧ w.session.suspensions.threads.rows = []

/-- A hit that was filed froze the VM; one that was not left it free. -/
def Faithful (w w' : World) (req : RequestId) : Prop :=
  if w'.session.events.seq = w.session.events.seq then Free w' else Frozen w' req

/-- The hit holds its own thread only, its stop point has no condition that would escalate it,
and another thread runs on. -/
def HeldAlone (w : World) (a : Answers) (es : EventSet) (e : Event) (t : ThreadId) (loc : Location)
    : Prop :=
  es.suspend_policy = .eventThread ∧
  (w.session.owner? e.request_id).bind StopPoint.condition = none ∧
  method_name_matches a ((w.session.owner? e.request_id).bind method_filter) loc ∧
  ∃ u ∈ w.jvm.threads, u ≠ t

theorem suspends_located {es : EventSet} {e : Event} {t : ThreadId} {loc : Location}
    (hes : es.events = [e]) (hl : event_location e.details = some (t, loc))
    (hp : es.suspend_policy ≠ .none) : es.event_suspends := by
  simp [EventSet.event_suspends, hes, hl, hp]

variable {w : World} {es : EventSet} {e : Event} {t : ThreadId} {loc : Location} {a : Answers}

variable {w' : World}

/-- A dropped hit is undone by the one resume that its policy calls for. -/
theorem free_after_drop (hw : Ready w) (hrunning : w.jvm.running) (ha : Obliging a)
    (hp : es.suspend_policy ≠ .none) (hscene : scene w' = { scene (met w es t a) with
      suspend_count := after_drop (met w es t a) t (decide (es.suspend_policy = .eventThread)) }) :
    Free w' := by
  have hthreads : w'.jvm.threads = w.jvm.threads := by
    refine (congrArg Scene.threads hscene).trans ?_
    change (w.jvm.suspend_for es.suspend_policy t).threads = w.jvm.threads
    cases es.suspend_policy <;> rfl
  have hcount := congrArg Scene.suspend_count hscene
  have hsus : w'.session.suspensions = w.session.suspensions := congrArg Scene.suspensions hscene
  refine ⟨fun u hu => ?_, by rw [hsus]; exact hw.booked hrunning, by rw [hsus]; exact hw.no_thread⟩
  rw [hthreads] at hu
  have hzero := hrunning u hu
  have hany : (met w es t a).refuses
      (let_go_command t (decide (es.suspend_policy = .eventThread))) = none := ha _ _
  simp only [scene, after_drop, hany] at hcount
  rw [hcount]
  cases hpol : es.suspend_policy with
  | none => exact absurd hpol hp
  | eventThread =>
    simp only [decide_true, let_go, if_true, Jvm.resume_thread, met_count, hpol, Jvm.suspend_for,
      Jvm.suspend_thread]
    by_cases hut : u = t
    · subst hut
      simp [hu, hzero]
    · simp [hut, hzero]
  | all =>
    simp only [reduceCtorEq, decide_false, Bool.false_eq_true, let_go, if_false, Jvm.resume_all,
      met_count, hpol, Jvm.suspend_for, Jvm.suspend_all, hu, if_true, hzero]

/-- A filed hit is booked under its request; it froze the VM if its counts say so. -/
theorem frozen_after_filing (hes : es.events = [e]) (hl : event_location e.details = some (t, loc))
    (hp : es.suspend_policy ≠ .none) {m : World} (counts : ThreadId → ℕ)
    (hscene : scene w' = { scene m with
      suspend_count := counts
      suspensions := booked m.session.suspensions es none m.answers.now
      events := m.session.events.push es none }) :
    Frozen w' e.request_id ↔ ∀ u ∈ m.jvm.threads, 0 < counts u := by
  have hthreads : w'.jvm.threads = m.jvm.threads := congrArg Scene.threads hscene
  have hcount : w'.jvm.suspend_count = counts := congrArg Scene.suspend_count hscene
  have hsus := congrArg Scene.suspensions hscene
  simp only [scene, booked_none (suspends_located hes hl hp)] at hsus
  have hcause : hit_cause es = .stop_point e.request_id := by simp [hit_cause, hes]
  unfold Frozen
  rw [hthreads, hcount, hsus]
  exact and_iff_left ⟨m.answers.now, by rw [Suspensions.mark_suspended, hcause]⟩

theorem verdict_met (m : World) (e : Event) (t : ThreadId) (loc : Location) :
    verdict m.session m.answers e t loc = .unconditional ↔
      (m.session.owner? e.request_id).bind StopPoint.condition = none ∧
      method_name_matches m.answers ((m.session.owner? e.request_id).bind method_filter) loc := by
  unfold verdict
  cases (m.session.owner? e.request_id).bind StopPoint.condition <;>
    cases method_name_matches m.answers ((m.session.owner? e.request_id).bind method_filter) loc <;>
    simp
  all_goals split <;> simp

/-- An event of policy `p` on a running VM stops every thread, unless it stops only its own. -/
theorem stops_every_thread (hrunning : w.jvm.running) (ht : t ∈ w.jvm.threads) {p : SuspendPolicy}
    (hp : p ≠ .none) :
    (∀ u ∈ w.jvm.threads, 0 < (w.jvm.suspend_for p t).suspend_count u) ↔
      ¬ (p = .eventThread ∧ ∃ u ∈ w.jvm.threads, u ≠ t) := by
  cases p with
  | none => exact absurd rfl hp
  | all =>
    simp only [reduceCtorEq, false_and, not_false_eq_true, iff_true]
    intro u hu
    simp [Jvm.suspend_for, Jvm.suspend_all, hu]
  | eventThread =>
    constructor
    · rintro h ⟨-, u, hu, hne⟩
      have hpos := h u hu
      simp [Jvm.suspend_for, Jvm.suspend_thread, hne, hrunning u hu] at hpos
    · intro h u hu
      have hut : u = t := by_contra fun hne => h ⟨rfl, u, hu, hne⟩
      subst hut
      simp [Jvm.suspend_for, Jvm.suspend_thread, hu]

theorem suspended_by_event (ht : t ∈ w.jvm.threads) {p : SuspendPolicy} (hp : p ≠ .none) :
    0 < (w.jvm.suspend_for p t).suspend_count t := by
  cases p with
  | none => exact absurd rfl hp
  | eventThread => simp [Jvm.suspend_for, Jvm.suspend_thread, ht]
  | all => simp [Jvm.suspend_for, Jvm.suspend_all, ht]

/-- A hit is either dropped, and released, or filed; filed, it stops its own thread at least. -/
theorem located_cases (hrunning : w.jvm.running) (ha : Obliging a) (hes : es.events = [e])
    (hl : event_location e.details = some (t, loc)) (hp : es.suspend_policy ≠ .none)
    (ht : t ∈ w.jvm.threads) (hw' : w' = ((store_reportable_event es).run (met w es t a)).2) :
    (¬ HeldAlone w a es e t loc ∧ scene w' = { scene (met w es t a) with
      suspend_count := after_drop (met w es t a) t (decide (es.suspend_policy = .eventThread)) }) ∨
    ∃ counts : ThreadId → ℕ, scene w' = { scene (met w es t a) with
        suspend_count := counts
        suspensions := booked w.session.suspensions es none a.now
        events := w.session.events.push es none } ∧
      0 < counts t ∧ ((∀ u ∈ w.jvm.threads, 0 < counts u) ↔ ¬ HeldAlone w a es e t loc) := by
  have hhead : es.events.head? = some e := by rw [hes]; rfl
  have hmet := verdict_met (met w es t a) e t loc
  have hpos : 0 < (met w es t a).jvm.suspend_count t := suspended_by_event ht hp
  have hevery := stops_every_thread hrunning ht hp
  cases hv : verdict (met w es t a).session (met w es t a).answers e t loc with
  | dropped =>
    refine Or.inl ⟨fun h => ?_, hw' ▸ store_dropped hhead hl hv⟩
    have := hmet.mpr ⟨h.2.1, h.2.2.1⟩
    simp [hv] at this
  | unconditional =>
    obtain ⟨hcond, hmethod⟩ := hmet.mp hv
    refine Or.inr ⟨_, hw' ▸ store_unescalated hhead hl (by simp [hv]) fun _ => hv, hpos, ?_⟩
    exact hevery.trans
      (not_congr ⟨fun h => ⟨h.1, hcond, hmethod, h.2⟩, fun h => ⟨h.1, h.2.2.2⟩⟩)
  | matched =>
    have hnot : ¬ HeldAlone w a es e t loc := fun h => by
      have := hmet.mpr ⟨h.2.1, h.2.2.1⟩
      simp [hv] at this
    simp only [hnot, not_false_eq_true, iff_true]
    by_cases hpol : es.suspend_policy = .eventThread
    · refine Or.inr ⟨_, hw' ▸ store_escalated hhead hl hv hpol (ha _ _), ?_, fun u hu => ?_⟩
      · simp only [Jvm.suspend_all]
        split <;> omega
      · have hmem : u ∈ (met w es t a).jvm.threads := by
          change u ∈ (w.jvm.suspend_for es.suspend_policy t).threads
          rw [hpol]
          exact hu
        simp [Jvm.suspend_all, hmem]
    · have hne : verdict (met w es t a).session (met w es t a).answers e t loc ≠ .dropped := by
        simp [hv]
      exact Or.inr ⟨_, hw' ▸ store_unescalated hhead hl hne fun h => absurd h hpol, hpos,
        hevery.mpr fun h => hpol h.1⟩

theorem met_threads (w : World) (es : EventSet) (t : ThreadId) (a : Answers) :
    (met w es t a).jvm.threads = w.jvm.threads := by
  change (w.jvm.suspend_for es.suspend_policy t).threads = w.jvm.threads
  cases es.suspend_policy <;> rfl

theorem faithful_located (hw : Ready w) (hrunning : w.jvm.running) (ha : Obliging a)
    (hes : es.events = [e]) (hl : event_location e.details = some (t, loc))
    (hp : es.suspend_policy ≠ .none) (ht : t ∈ w.jvm.threads)
    (hw' : w' = ((store_reportable_event es).run (met w es t a)).2) :
    Faithful w w' e.request_id ↔ ¬ HeldAlone w a es e t loc := by
  rcases located_cases hrunning ha hes hl hp ht hw' with ⟨hnot, hscene⟩ | ⟨counts, hscene, -, hall⟩
  · have hseq : w'.session.events.seq = w.session.events.seq :=
      congrArg (fun s : Scene => s.events.seq) hscene
    simp only [Faithful, hseq, if_true, hnot, not_false_eq_true, iff_true]
    exact free_after_drop hw hrunning ha hp hscene
  · have hseq : w'.session.events.seq = w.session.events.seq + 1 :=
      (congrArg (fun s : Scene => s.events.seq) hscene).trans (EventRing.push_seq _ _ _)
    have hfrozen := frozen_after_filing (m := met w es t a) hes hl hp counts hscene
    rw [Faithful, hseq, if_neg (by simp), hfrozen, met_threads]
    exact hall

theorem ready_located (hw : Ready w) (hrunning : w.jvm.running) (ha : Obliging a)
    (hes : es.events = [e]) (hl : event_location e.details = some (t, loc))
    (hp : es.suspend_policy ≠ .none) (ht : t ∈ w.jvm.threads)
    (hw' : w' = ((store_reportable_event es).run (met w es t a)).2) : Ready w' := by
  have hsus : Suspending w' := hw' ▸ suspending_store es _ (suspending_met hw.suspending es t a)
  rcases located_cases hrunning ha hes hl hp ht hw' with ⟨-, hscene⟩ | ⟨counts, hscene, hpos, -⟩
  · have hfree := free_after_drop hw hrunning ha hp hscene
    exact ⟨hsus, congrArg Scene.queue hscene, hfree.2.2, fun _ => hfree.2.1⟩
  · have hbooks : w'.session.suspensions = booked w.session.suspensions es none a.now :=
      congrArg Scene.suspensions hscene
    rw [booked_none (suspends_located hes hl hp)] at hbooks
    refine ⟨hsus, congrArg Scene.queue hscene, ?_, fun hrun => ?_⟩
    · rw [hbooks]
      exact hw.no_thread
    · have hthreads : w'.jvm.threads = w.jvm.threads :=
        (congrArg Scene.threads hscene).trans (met_threads w es t a)
      have hzero := hrun t (hthreads ▸ ht)
      rw [show w'.jvm.suspend_count = counts from congrArg Scene.suspend_count hscene] at hzero
      omega

theorem ready_class_prepare (hw : Ready w) (hrunning : w.jvm.running) (ha : Obliging a)
    (hes : es.events = [e]) {c : ClassId} {sig : String}
    (hc : class_prepare_of e.details = some (t, c, sig)) (hp : es.suspend_policy = .eventThread) :
    Ready ((listen es).run (met w es t a)).2 := by
  have hsus := suspending_met hw.suspending es t a
  have hpending : ∀ p ∈ (met w es t a).session.pending_breakpoints.filter
      fun p => p.signature = sig, p.trace = false :=
    fun p hmem => hsus.pending p (List.mem_filter.mp hmem).1
  have hquiet := quiet_survives.class_prepared hpending (quiet_rearm_later_copies c sig) _
    ⟨hsus, (rfl : holds (met w es t a) = _)⟩
  simp only [run_bind] at hquiet
  simp only [Rearming.listen, try_arm_deferred_breakpoints, hes, List.findSome?_cons, hc, run_bind,
    run_get, run_pure, if_true]
  generalize hm : ((rearm_later_copies c sig).run _).2 = m at hquiet ⊢
  obtain ⟨hm', hh⟩ := hquiet
  have hans : m.answers = a := congrArg Holds.answers hh
  have hcount : m.jvm.suspend_count = (w.jvm.suspend_thread t).suspend_count := by
    refine (congrArg Holds.suspend_count hh).trans ?_
    change (w.jvm.suspend_for es.suspend_policy t).suspend_count = _
    rw [hp]
    rfl
  have hsusp : m.session.suspensions = w.session.suspensions := congrArg Holds.suspensions hh
  have hr : m.refuses (.resume_thread t) = none := by
    rw [World.refuses, hans]
    exact ha _ _
  simp only [resume_thread, perform_run, hr]
  refine ⟨suspending_of_records hm' rfl rfl rfl rfl rfl, congrArg Holds.queue hh, ?_, fun _ => ?_⟩
  · exact (congrArg (fun s : Suspensions => s.threads.rows) hsusp).trans hw.no_thread
  · exact (congrArg Suspensions.vm hsusp).trans (hw.booked hrunning)

end Judged

section Runs

variable {w : World}

theorem fires_single {es : EventSet} {e : Event} {t : ThreadId} (hw : Ready w)
    (hes : es.events = [e]) (hf : Fires w.jvm es t) :
    es.suspend_policy ≠ .none ∧ t ∈ w.jvm.threads ∧
    ((∃ loc, event_location e.details = some (t, loc)) ∨
      (∃ c sig, class_prepare_of e.details = some (t, c, sig)) ∧
        es.suspend_policy = .eventThread) := by
  obtain ⟨-, ht, -, hall, e', he', q, hq, hid, hrep, hpol⟩ := hf
  rw [hes, List.mem_singleton] at he'
  subst he'
  have harm := hw.suspending.requests q hq
  have hthread := (hall e' (by rw [hes]; exact List.mem_singleton_self _)).1
  refine ⟨hpol ▸ harm.1, ht, ?_⟩
  cases hd : e'.details with
  | class_prepare t' c sig =>
    rw [hd] at hthread hrep
    cases hthread
    exact Or.inr ⟨⟨c, sig, rfl⟩, hpol ▸ harm.2 (by simpa [EventKind.reports] using hrep)⟩
  | other =>
    rw [hd] at hrep
    simp [EventKind.reports] at hrep
  | breakpoint _ loc | step _ loc | exception _ loc _ | method_exit _ loc | field_access _ loc
  | field_modification _ loc | monitor _ _ loc _ =>
    rw [hd] at hthread
    cases hthread
    exact Or.inl ⟨loc, rfl⟩

theorem located_not_class_prepare {k : EventKind} {x : ThreadId × Location}
    (h : event_location k = some x) : class_prepare_of k = none := by
  cases k with
  | class_prepare _ _ _ => cases h
  | _ => rfl

theorem ready_history {m : Move} (hw : Ready w) (hm : m.Allowed w) (hok : History w m) :
    Ready (m.next w) := by
  cases m with
  | fire _ _ => exact hok.elim
  | listen _ => exact hok.elim
  | call c a =>
    by_cases hc : c = .continue_
    · subst hc
      exact ready_continue hw hok.2
    · have h0 : Ready (w.begin a) :=
        ⟨suspending_begin hw.suspending a, hw.drained, hw.no_thread, hw.booked⟩
      exact ready_of_quiet h0 (quiet_editing hok.1 hc _ ⟨h0.suspending, rfl⟩)
  | hit es t a =>
    obtain ⟨hlen, hrunning, ha⟩ := hok
    obtain ⟨e, hes⟩ := List.length_eq_one_iff.mp hlen
    obtain ⟨hp, ht, hkind⟩ := fires_single hw hes hm.1
    rw [hit_next hw.drained]
    rcases hkind with ⟨loc, hl⟩ | ⟨⟨c, sig, hc⟩, hthread⟩
    · rw [listen_suspending (suspending_met hw.suspending es t a) hes
        (located_not_class_prepare hl)]
      exact ready_located hw hrunning ha hes hl hp ht rfl
    · exact ready_class_prepare hw hrunning ha hes hc hthread

/-- A hit of a stop point, anywhere in a history: it is surfaced with every thread stopped and
the stop on the books, or dropped with nothing held, exactly when it is not held alone. -/
theorem single_hit_faithful {threads : List ThreadId} {a₀ a : Answers}
    (hrun : Run History (World.start threads a₀) w) {es : EventSet} {e : Event} {t : ThreadId}
    {loc : Location} (hes : es.events = [e]) (hl : event_location e.details = some (t, loc))
    (hfires : Fires w.jvm es t) (hrunning : w.jvm.running) (ha : Obliging a) :
    Faithful w ((Move.hit es t a).next w) e.request_id ↔ ¬ HeldAlone w a es e t loc := by
  have hw : Ready w := Run.invariant (fun _ _ hw hm hok => ready_history hw hm hok) hrun
    (ready_start threads a₀)
  obtain ⟨hp, ht, -⟩ := fires_single hw hes hfires
  refine faithful_located hw hrunning ha hes hl hp ht ?_
  rw [hit_next hw.drained,
    listen_suspending (suspending_met hw.suspending es t a) hes (located_not_class_prepare hl)]

def condition_cleared : World :=
  (Move.call (.update_stop_point ⟨"bp_", 1⟩ .clear .leave) plain).next (line_armed (some "x"))

theorem history_line_armed (condition : Option String) :
    Run History (World.start [1, 2] plain) (line_armed condition) :=
  Relation.ReflTransGen.single (Step.intro (.call _ _) trivial ⟨rfl, obliging_plain⟩)

theorem single_hit_faithful_unconditional :
    Faithful (line_armed none) ((Move.hit (line_hit .all 1) 1 plain).next (line_armed none)) 2 :=
  (single_hit_faithful (history_line_armed none) (rfl : (line_hit .all 1).events = [_])
    (rfl : _ = some (1, _)) (by decide) (by decide) obliging_plain).mpr fun h => by cases h.1

/-- The condition is cleared after arming: the next hit is filed as a stop of the whole VM while
thread 2 runs on. -/
theorem condition_cleared_unfaithful :
    Run History (World.start [1, 2] plain) condition_cleared ∧
    Fires condition_cleared.jvm (line_hit .eventThread 1) 1 ∧ condition_cleared.jvm.running ∧
    ¬ Faithful condition_cleared
      ((Move.hit (line_hit .eventThread 1) 1 plain).next condition_cleared) 2 := by
  refine ⟨.tail (history_line_armed (some "x"))
    (Step.intro (.call _ _) trivial ⟨trivial, obliging_plain⟩), by decide, by decide, fun h => ?_⟩
  have hcount : 0 <
      ((Move.hit (line_hit .eventThread 1) 1 plain).next condition_cleared).jvm.suspend_count 2 :=
    h.1 2 (by decide)
  revert hcount
  decide

end Runs

end JavaDebug.SurfacedHits
