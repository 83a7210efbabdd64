import JavaDebug.Rearming

/-!
What one hit does to the counts, the books and the ring. The verdict on a hit
is a function of the records and of the answers; the tallies and the spending
of a counted request change neither a count nor the books.
-/
namespace JavaDebug.HitEffects

open Jdwp StopPoints Session Wire Disarming
open Hits Rearming StateProgram

inductive Verdict
  | dropped
  | unconditional
  | matched
  deriving DecidableEq

/-- How a hit is judged by the stop point that owns its request now. -/
def verdict (s : DebugSession) (a : Answers) (e : Event) (thread : ThreadId) (loc : Location) :
    Verdict :=
  if !method_name_matches a ((s.owner? e.request_id).bind method_filter) loc then .dropped
  else
    match (s.owner? e.request_id).bind StopPoint.condition with
    | none => .unconditional
    | some cond => if a.condition_holds cond thread e.details then .matched else .dropped

section Tallies

/-- A world without the parts a tally, a spend or a read may change. -/
structure Scene where
  threads : List ThreadId
  suspend_count : ThreadId → ℕ
  suspensions : Suspensions
  queue : List EventSet
  events : EventRing
  pending_step : Option (RequestId × ThreadId)
  answers : Answers

def scene (w : World) : Scene :=
  ⟨w.jvm.threads, w.jvm.suspend_count, w.session.suspensions, w.queue, w.session.events,
    w.session.pending_step, w.answers⟩

theorem scene_edit_owner (req : RequestId) (f : StopPoint → StopPoint)
    (hf : ∀ sp, (f sp).id = sp.id) : Keeps scene (edit_owner req f hf) := by
  intro w
  simp only [edit_owner, edit_run]
  cases w.session.owner? req <;> rfl

theorem scene_note_in_flight (traced : Bool) (reqs : List RequestId) :
    Keeps scene (edit fun s => s.note_traced_in_flight traced reqs) := by
  intro w
  obtain ⟨q, hq⟩ := w.session.note_traced_in_flight_eq traced reqs
  simp only [edit_run, hq]
  rfl

theorem scene_clear_request (code : EventCode) (id : RequestId) :
    Keeps scene (clear_request code id) := by
  intro w
  rw [clear_request, perform_run]
  split
  · rfl
  · change scene { w.log (.clear code id) with jvm := w.jvm.clear_request (code, id) } = scene w
    unfold Jvm.clear_request
    split <;> rfl

theorem scene_spend_if_counted (req : RequestId) : Keeps scene (spend_if_counted req) := by
  refine Keeps.bind Keeps.get fun w => ?_
  split
  · exact Keeps.pure _
  split
  · exact Keeps.pure _
  · refine Keeps.bind (fun w => ?_) fun _ => Keeps.forM (fun r => ?_) _
    · rename_i sp _ _
      exact scene_note_in_flight sp.trace _
        { w with session := w.session.edit_stop_point sp.id set_spent }
    · exact Keeps.bind (scene_clear_request _ _) fun _ => Keeps.pure _

end Tallies

section Judged

/-- What a dropped hit held is let go. -/
def let_go (j : Jvm) (thread : ThreadId) (held_thread_only : Bool) : Jvm :=
  if held_thread_only then j.resume_thread thread else j.resume_all

def let_go_command (thread : ThreadId) (held_thread_only : Bool) : Command :=
  if held_thread_only then .resume_thread thread else .resume_all

theorem release_dropped_hit_run (thread : ThreadId) (held_thread_only : Bool) (w : World) :
    ((release_dropped_hit thread held_thread_only).run w).2 =
      match w.refuses (let_go_command thread held_thread_only) with
      | some _ => w.log (let_go_command thread held_thread_only)
      | none => { w.log (let_go_command thread held_thread_only) with
          jvm := let_go w.jvm thread held_thread_only } := by
  unfold release_dropped_hit let_go_command let_go
  cases held_thread_only
  · simp only [Bool.false_eq_true, if_false, run_bind, resume_all, perform_run, run_pure]
    cases w.refuses .resume_all <;> rfl
  · simp only [if_true, run_bind, resume_thread, perform_run, run_pure]
    cases w.refuses (.resume_thread thread) <;> rfl

theorem sample_threads_keeps (hit : ThreadId) (held all : List ThreadId) (sampled : ℕ) :
    Keeps (fun w => (scene w, w.jvm)) (sample_threads hit held sampled all) := by
  induction all generalizing sampled with
  | nil => exact Keeps.pure _
  | cons t rest ih =>
    unfold sample_threads
    split
    · exact ih _
    refine Keeps.bind (fun w => ?_) fun r => ?_
    · rw [suspend_count_run]
      split <;> rfl
    · split
      · exact Keeps.pure _
      split
      · exact Keeps.pure _
      split
      · exact Keeps.pure _
      · exact ih _

theorem another_thread_keeps (hit : ThreadId) :
    Keeps (fun w => (scene w, w.jvm)) (another_thread_is_suspended hit) := by
  refine Keeps.bind (fun w => ?_) fun r => ?_
  · simp only [get_all_threads, run_bind, send_run]
    cases w.refuses .all_threads <;> rfl
  · split
    · exact Keeps.pure _
    · exact Keeps.bind Keeps.get fun w => sample_threads_keeps _ _ _ _

theorem escalate_granted {w : World} (h : w.refuses .suspend_all = none) (thread : ThreadId) :
    (escalate_to_vm_suspend thread).run w =
      (none, { w.log .suspend_all with jvm := w.jvm.suspend_all }) := by
  simp only [escalate_to_vm_suspend, run_bind, suspend_all, perform_run, h]
  rfl

theorem escalate_refused {w : World} (h : (w.refuses .suspend_all).isSome) (thread : ThreadId) :
    (∃ f, ((escalate_to_vm_suspend thread).run w).1 = some f) ∧
    scene ((escalate_to_vm_suspend thread).run w).2 = scene w ∧
    ((escalate_to_vm_suspend thread).run w).2.jvm = w.jvm := by
  obtain ⟨err, herr⟩ := Option.isSome_iff_exists.mp h
  simp only [escalate_to_vm_suspend, run_bind, suspend_all, perform_run, herr]
  have hk := another_thread_keeps thread (w.log .suspend_all)
  simp only [Prod.mk.injEq] at hk
  split <;> exact ⟨⟨_, rfl⟩, hk.1, hk.2⟩

theorem edit_owner_run (req : RequestId) (f : StopPoint → StopPoint) (hf : ∀ sp, (f sp).id = sp.id)
    (w : World) :
    ∃ s : DebugSession, ((edit_owner req f hf).run w).2 = { w with session := s } ∧
      scene { w with session := s } = scene w := by
  refine ⟨_, rfl, ?_⟩
  exact scene_edit_owner req f hf w

/-- The counts after a dropped hit, whose release may be refused. -/
def after_drop (w : World) (thread : ThreadId) (held_thread_only : Bool) : ThreadId → ℕ :=
  match w.refuses (let_go_command thread held_thread_only) with
  | some _ => w.jvm.suspend_count
  | none => (let_go w.jvm thread held_thread_only).suspend_count

theorem scene_release (thread : ThreadId) (held_thread_only : Bool) (w : World) :
    scene ((release_dropped_hit thread held_thread_only).run w).2 =
      { scene w with suspend_count := after_drop w thread held_thread_only } := by
  rw [release_dropped_hit_run, after_drop]
  split
  · rfl
  · unfold let_go
    split <;> rfl

variable {w : World} {e : Event} {thread : ThreadId} {loc : Location} (held_thread_only : Bool)

theorem judge_hit_dropped (h : verdict w.session w.answers e thread loc = .dropped) :
    ((judge_hit e thread loc held_thread_only).run w).1 = none ∧
    scene ((judge_hit e thread loc held_thread_only).run w).2 =
      { scene w with suspend_count := after_drop w thread held_thread_only } := by
  unfold verdict at h
  simp only [judge_hit, run_bind, run_get]
  split at h
  · rename_i hm
    simp only [hm, if_true, run_bind, run_pure]
    exact ⟨trivial, (scene_edit_owner _ _ _ _).trans (scene_release _ _ _)⟩
  · rename_i hm
    simp only [hm, if_false, run_bind, Bool.false_eq_true]
    cases hc : (w.session.owner? e.request_id).bind StopPoint.condition with
    | none =>
      rw [hc] at h
      cases h
    | some cond =>
      simp only [hc] at h
      split at h
      · cases h
      · rename_i hf
        simp only [hf, if_false, run_bind, run_pure, Bool.false_eq_true]
        obtain ⟨s, hs, hscene⟩ := edit_owner_run e.request_id add_hit (fun _ => rfl) w
        refine ⟨trivial, ?_⟩
        rw [record_stop_point_hit, hs, scene_release, hscene]
        rfl

theorem judge_hit_unconditional (h : verdict w.session w.answers e thread loc = .unconditional) :
    ((judge_hit e thread loc held_thread_only).run w).1 = some none ∧
    scene ((judge_hit e thread loc held_thread_only).run w).2 = scene w := by
  unfold verdict at h
  simp only [judge_hit, run_bind, run_get]
  split at h
  · cases h
  · rename_i hm
    simp only [hm, if_false, run_bind, Bool.false_eq_true]
    cases hc : (w.session.owner? e.request_id).bind StopPoint.condition with
    | none => exact ⟨rfl, scene_edit_owner _ _ _ _⟩
    | some cond =>
      simp only [hc] at h
      split at h <;> cases h

theorem judge_hit_matched (h : verdict w.session w.answers e thread loc = .matched) :
    ∃ s : DebugSession, scene { w with session := s } = scene w ∧
    (judge_hit e thread loc held_thread_only).run w =
      if held_thread_only then
        (some ((escalate_to_vm_suspend thread).run { w with session := s }).1,
          ((escalate_to_vm_suspend thread).run { w with session := s }).2)
      else (some none, { w with session := s }) := by
  unfold verdict at h
  simp only [judge_hit, run_bind, run_get]
  split at h
  · cases h
  · rename_i hm
    simp only [hm, if_false, run_bind, Bool.false_eq_true]
    cases hc : (w.session.owner? e.request_id).bind StopPoint.condition with
    | none =>
      rw [hc] at h
      cases h
    | some cond =>
      simp only [hc] at h
      split at h
      · rename_i hf
        obtain ⟨s, hs, hscene⟩ := edit_owner_run e.request_id add_hit (fun _ => rfl) w
        refine ⟨s, hscene, ?_⟩
        simp only [hf, run_ite, if_true, record_stop_point_hit, hs]
        split <;> rfl
      · cases h

end Judged

section Surfaced

/-- The books after a surfaced hit. -/
def booked (s : Suspensions) (es : EventSet) (escalation : Option FailedEscalation) (at_ : ℕ) :
    Suspensions :=
  if es.event_suspends then
    match escalation.any FailedEscalation.vm_running, es.event_thread, es.events.head? with
    | true, some tid, some e => s.hold_thread_for_failed_escalation tid at_ e.request_id
    | _, _, _ => s.mark_suspended (hit_cause es) at_
  else s

theorem scene_surface (es : EventSet) (escalation : Option FailedEscalation) (w : World) :
    scene ((surface es escalation).run w).2 =
      { scene w with
        suspensions := booked w.session.suspensions es escalation w.answers.now
        events := w.session.events.push es escalation } := by
  unfold surface note_last_thread book_suspension booked
  generalize escalation.any FailedEscalation.vm_running = failed
  cases es.event_thread <;> cases es.event_suspends <;> cases failed <;>
    cases es.events.head? <;> try rfl
  simp only [if_true, run_bind, now, run_get, run_pure, edit_run, send_run]
  rfl

theorem booked_none {es : EventSet} (h : es.event_suspends) (s : Suspensions) (at_ : ℕ) :
    booked s es none at_ = s.mark_suspended (hit_cause es) at_ := by
  simp [booked, h]

end Surfaced

section Stored

variable {w : World} {es : EventSet} {e : Event} {thread : ThreadId} {loc : Location}

/-- What is left once the judgement is in: file the hit or not, then spend its request. -/
def conclude (es : EventSet) (e : Event) (judged : Option (Option FailedEscalation)) :
    Handler Unit := do
  match judged with
  | none => pure ()
  | some escalation => surface es escalation
  spend_if_counted e.request_id

theorem store_located (he : es.events.head? = some e)
    (hl : event_location e.details = some (thread, loc)) :
    store_reportable_event es =
      judge_hit e thread loc (decide (es.suspend_policy = .eventThread)) >>= conclude es e := by
  simp only [store_reportable_event, he, hl]
  rfl

theorem scene_conclude_dropped : Keeps scene (conclude es e none) :=
  scene_spend_if_counted e.request_id

theorem scene_conclude_surfaced (escalation : Option FailedEscalation) (w : World) :
    scene ((conclude es e (some escalation)).run w).2 =
      { scene w with
        suspensions := booked w.session.suspensions es escalation w.answers.now
        events := w.session.events.push es escalation } := by
  simp only [conclude, run_bind]
  exact (scene_spend_if_counted e.request_id _).trans (scene_surface es escalation w)

theorem conclude_surfaced {v : World} (hv : scene v = scene w)
    (escalation : Option FailedEscalation) :
    scene ((conclude es e (some escalation)).run v).2 =
      { scene w with
        suspensions := booked w.session.suspensions es escalation w.answers.now
        events := w.session.events.push es escalation } := by
  have hs := congrArg Scene.suspensions hv
  have he := congrArg Scene.events hv
  have ha := congrArg Scene.answers hv
  simp only [scene] at hs he ha
  rw [scene_conclude_surfaced, hv, hs, he, ha]

theorem store_dropped (he : es.events.head? = some e)
    (hl : event_location e.details = some (thread, loc))
    (h : verdict w.session w.answers e thread loc = .dropped) :
    scene ((store_reportable_event es).run w).2 =
      { scene w with
        suspend_count := after_drop w thread (decide (es.suspend_policy = .eventThread)) } := by
  rw [store_located he hl, run_bind]
  obtain ⟨hr, hs⟩ := judge_hit_dropped (decide (es.suspend_policy = .eventThread)) h
  rw [hr]
  exact (scene_conclude_dropped _).trans hs

/-- Filed without an escalation: no condition, or the whole VM is held already. -/
theorem store_unescalated (he : es.events.head? = some e)
    (hl : event_location e.details = some (thread, loc))
    (h : verdict w.session w.answers e thread loc ≠ .dropped)
    (hp : es.suspend_policy = .eventThread →
      verdict w.session w.answers e thread loc = .unconditional) :
    scene ((store_reportable_event es).run w).2 =
      { scene w with
        suspensions := booked w.session.suspensions es none w.answers.now
        events := w.session.events.push es none } := by
  rw [store_located he hl, run_bind]
  have hj : ((judge_hit e thread loc (decide (es.suspend_policy = .eventThread))).run w).1 =
        some none ∧
      scene ((judge_hit e thread loc (decide (es.suspend_policy = .eventThread))).run w).2 =
        scene w := by
    cases hv : verdict w.session w.answers e thread loc with
    | dropped => exact absurd hv h
    | unconditional => exact judge_hit_unconditional _ hv
    | matched =>
      have hne : es.suspend_policy ≠ .eventThread := fun hc => by simp [hp hc] at hv
      obtain ⟨s, hs, hrun⟩ := judge_hit_matched (decide (es.suspend_policy = .eventThread)) hv
      rw [hrun]
      simp only [hne, decide_false, Bool.false_eq_true, if_false]
      exact ⟨trivial, hs⟩
  rw [hj.1]
  exact conclude_surfaced hj.2 none

variable (he : es.events.head? = some e) (hl : event_location e.details = some (thread, loc))
  (h : verdict w.session w.answers e thread loc = .matched) (hp : es.suspend_policy = .eventThread)

include he hl h hp

/-- A matched hit that holds one thread is filed once the escalation has answered. -/
theorem store_matched :
    ∃ s : DebugSession, scene { w with session := s } = scene w ∧
      (store_reportable_event es).run w = (conclude es e (some
        ((escalate_to_vm_suspend thread).run { w with session := s }).1)).run
          ((escalate_to_vm_suspend thread).run { w with session := s }).2 := by
  obtain ⟨s, hs, hrun⟩ := judge_hit_matched (decide (es.suspend_policy = .eventThread)) h
  refine ⟨s, hs, ?_⟩
  rw [store_located he hl, run_bind, hrun]
  simp only [hp, decide_true, if_true]

/-- A condition matched on a hit that holds one thread, and the escalation was obtained. -/
theorem store_escalated (hg : w.refuses .suspend_all = none) :
    scene ((store_reportable_event es).run w).2 =
      { scene w with
        suspend_count := w.jvm.suspend_all.suspend_count
        suspensions := booked w.session.suspensions es none w.answers.now
        events := w.session.events.push es none } := by
  obtain ⟨s, hs, hrun⟩ := store_matched he hl h hp
  have hg' : World.refuses { w with session := s } .suspend_all = none := hg
  rw [hrun, escalate_granted hg', scene_conclude_surfaced]
  have hsus := congrArg Scene.suspensions hs
  have hev := congrArg Scene.events hs
  have hstep := congrArg Scene.pending_step hs
  simp only [scene] at hsus hev hstep
  simp only [scene, World.log, Jvm.suspend_all, hsus, hev, hstep]

/-- The escalation was refused: the hit thread alone stays suspended. -/
theorem store_refused (hg : (w.refuses .suspend_all).isSome) :
    ∃ f, scene ((store_reportable_event es).run w).2 =
      { scene w with
        suspensions := booked w.session.suspensions es (some f) w.answers.now
        events := w.session.events.push es (some f) } := by
  obtain ⟨s, hs, hrun⟩ := store_matched he hl h hp
  have hg' : (World.refuses { w with session := s } .suspend_all).isSome := hg
  obtain ⟨⟨f, hf⟩, hsc, -⟩ := escalate_refused hg' thread
  refine ⟨f, ?_⟩
  rw [hrun, hf]
  exact conclude_surfaced (hsc.trans hs) (some f)

end Stored

section Listened

/-- No event of the composite arms anything or belongs to a traced stop point. -/
def Untraced (w : World) (es : EventSet) : Prop :=
  ∀ e ∈ es.events, class_prepare_of e.details = none ∧
    find_traced_request w.session e.request_id = none ∧
    w.session.was_traced_and_disarmed e.request_id = false

variable {w : World}

theorem walk_untraced {events : List Event}
    (h : ∀ e ∈ events, find_traced_request w.session e.request_id = none ∧
      w.session.was_traced_and_disarmed e.request_id = false) (all_ours : Bool) :
    ((record_traced_events none all_ours events).run w).2 = w ∧
      ((record_traced_events none all_ours events).run w).1.1 = none := by
  induction events generalizing all_ours with
  | nil => exact ⟨rfl, rfl⟩
  | cons e rest ih =>
    have he := h e List.mem_cons_self
    simp only [record_traced_events, run_bind, record_unfound he.1, he.2, Bool.false_eq_true,
      if_false]
    exact ih (fun e he => h e (List.mem_cons_of_mem _ he)) false

theorem try_record_untraced {es : EventSet} (h : Untraced w es) :
    (try_record_trace es).run w = (false, w) := by
  obtain ⟨hs, hr⟩ := walk_untraced (fun e he => (h e he).2) (!es.events.isEmpty)
  simp only [try_record_trace, run_bind]
  split
  · rename_i heq
    rw [heq] at hr
    cases hr
  · rw [hs]
    rfl

/-- Such a composite goes to the suspending path as it is. -/
theorem listen_untraced {es : EventSet} (h : Untraced w es) :
    (listen es).run w = (store_reportable_event es).run w := by
  have hfind : es.events.findSome? (fun e => class_prepare_of e.details) = none :=
    List.findSome?_eq_none_iff.mpr fun e he => (h e he).1
  simp only [Rearming.listen, try_arm_deferred_breakpoints, hfind, run_bind, run_pure,
    try_record_untraced h, Bool.false_eq_true, if_false]

end Listened

end JavaDebug.HitEffects
