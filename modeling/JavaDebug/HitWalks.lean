import JavaDebug.Hits

/-!
What a hit preserves. A property of the world survives a traced event when it
survives the tally, the push to the ring, the charge and the spend; it survives a
reported one when it survives the verdict and what is filed of it. One walk through
the code of a hit then serves every such property.
-/
namespace JavaDebug.HitWalks

open Jdwp Session Wire Disarming
open Hits StateProgram

variable {P Q : World → Prop} {e : Event} {r : RequestId}

/-- The last unit of the budget disarms the stop point, and the ring takes a note. -/
theorem charge_preserves (hlower : ∀ w sp, w.session.owner? r = some sp → P w →
      P { w with session := w.session.edit_stop_point sp.id lower_budget })
    (hdisarm : Preserves P (disarm_request r))
    (hnote : ∀ id, Preserves P (edit fun s => { s with traces := s.traces.note_disarm id })) :
    Preserves P (charge_trace_budget r) := by
  unfold charge_trace_budget decrement_trace_budget
  intro w h
  simp only [run_bind, run_get]
  cases ho : w.session.owner? r with
  | none => exact h
  | some sp =>
    have hlow := hlower w sp ho h
    simp only [run_bind, edit_run, run_pure]
    split
    · have hoff := hdisarm _ hlow
      simp only [run_bind]
      split
      · exact hnote _ _ hoff
      · exact hoff
    · exact hlow

/-- A traced event ends in the spend, after the charge when a new snapshot was taken. -/
theorem record_ensures {w : World} (h : P w) (hidle : event_location e.details = none ∨
      find_traced_request w.session e.request_id = none → Q w)
    (hdiscarded : Preserves P (record_discarded_exit e.request_id))
    (hhit : Preserves P (record_stop_point_hit e.request_id))
    (hpush : ∀ id thread, Preserves P (edit fun s => { s with
      traces := (w.session.traces.push id e.request_id thread (exception_instance e.details)).2 }))
    (hcharge : Ensures P (do charge_trace_budget e.request_id; spend_if_counted e.request_id)
      fun _ => Q) (hspend : Ensures P (spend_if_counted e.request_id) fun _ => Q) :
    Q ((record_one_traced_event e).run w).2 := by
  unfold record_one_traced_event
  cases hloc : event_location e.details with
  | none => exact hidle (Or.inl hloc)
  | some p =>
    obtain ⟨thread, loc⟩ := p
    dsimp only
    rw [run_get_bind]
    cases hf : find_traced_request w.session e.request_id with
    | none =>
      dsimp only
      split <;> exact hidle (Or.inr hf)
    | some sp =>
      have hfile : Ensures P (do
          if !skips w.answers sp thread loc e.details then
            let filed := w.session.traces.push sp.id e.request_id thread
              (exception_instance e.details)
            edit fun s => { s with traces := filed.2 }
            if filed.1 = .first then charge_trace_budget e.request_id
          spend_if_counted e.request_id
          pure (some thread) : Handler (Option ThreadId)) fun _ => Q := by
        dsimp only
        split
        · refine Preserves.bind_ensures (hpush sp.id thread) fun _ => ?_
          split
          · exact hcharge
          · exact hspend
        · exact hspend
      dsimp only
      split
      · exact Preserves.bind_ensures hdiscarded (fun _ => hfile) w h
      · exact Preserves.bind_ensures hhit (fun _ => hfile) w h

theorem record_preserves (hdiscarded : Preserves P (record_discarded_exit e.request_id))
    (hhit : Preserves P (record_stop_point_hit e.request_id))
    (hpush : ∀ u, P u → ∀ id thread, Preserves P (edit fun s => { s with
      traces := (u.session.traces.push id e.request_id thread (exception_instance e.details)).2 }))
    (hcharge : Preserves P (charge_trace_budget e.request_id))
    (hspend : Preserves P (spend_if_counted e.request_id)) :
    Preserves P (record_one_traced_event e) := fun w h =>
  record_ensures h (fun _ => h) hdiscarded hhit (hpush w h) (hcharge.bind fun _ => hspend) hspend

theorem release_preserves (hthread : ∀ t, Preserves P (resume_thread t))
    (hall : Preserves P resume_all) (thread : ThreadId) (only : Bool) :
    Preserves P (release_dropped_hit thread only) := by
  unfold release_dropped_hit
  split
  · exact Preserves.bind (hthread thread) fun _ => Preserves.pure _
  · exact Preserves.bind hall fun _ => Preserves.pure _

theorem sample_preserves (hcount : ∀ t, Preserves P (suspend_count t)) (hit : ThreadId)
    (held all : List ThreadId) (sampled : ℕ) :
    Preserves P (sample_threads hit held sampled all) := by
  induction all generalizing sampled with
  | nil => exact Preserves.pure _
  | cons t rest ih =>
    unfold sample_threads
    split
    · exact ih _
    refine Preserves.bind (hcount t) fun r => ?_
    split
    · exact Preserves.pure _
    split
    · exact Preserves.pure _
    split
    · exact Preserves.pure _
    · exact ih _

theorem escalate_preserves (hsuspend : Preserves P suspend_all)
    (hlist : Preserves P get_all_threads) (hcount : ∀ t, Preserves P (suspend_count t))
    (thread : ThreadId) : Preserves P (escalate_to_vm_suspend thread) := by
  refine Preserves.bind hsuspend fun r => ?_
  split
  · exact Preserves.pure _
  refine Preserves.bind (Preserves.bind hlist fun r => ?_) fun r => ?_
  · split
    · exact Preserves.pure _
    · exact Preserves.get_bind fun w _ => sample_preserves hcount _ _ _ _
  · split <;> exact Preserves.pure _

/-- A dropped hit is released, a kept one may be escalated. -/
theorem judge_preserves (hdiscarded : Preserves P (record_discarded_exit e.request_id))
    (hhit : Preserves P (record_stop_point_hit e.request_id))
    (hrelease : ∀ thread only, Preserves P (release_dropped_hit thread only))
    (hescalate : ∀ thread, Preserves P (escalate_to_vm_suspend thread)) (thread : ThreadId)
    (loc : Location) (only : Bool) : Preserves P (judge_hit e thread loc only) := by
  unfold judge_hit
  refine Preserves.get_bind fun w _ => ?_
  dsimp only
  split
  · exact Preserves.bind (hrelease thread only) fun _ =>
      Preserves.bind hdiscarded fun _ => Preserves.pure _
  · refine Preserves.bind hhit fun _ => ?_
    split
    · exact Preserves.pure _
    · split
      · split
        · exact Preserves.bind (hescalate thread) fun _ => Preserves.pure _
        · exact Preserves.pure _
      · exact Preserves.bind (hrelease thread only) fun _ => Preserves.pure _

/-- Filing a composite changes the last thread, the books and the event ring. -/
theorem surface_preserves
    (hfile : ∀ w last suspensions events, P w → P { w with session := { w.session with
      last_thread := last, suspensions := suspensions, events := events } })
    (hnow : Preserves P now) (hsend : ∀ c, Preserves P (send c)) (es : EventSet)
    (escalation : Option FailedEscalation) : Preserves P (surface es escalation) := by
  refine Preserves.bind ?_ fun _ => Preserves.bind ?_ fun _ => fun w => hfile w _ _ _
  · unfold note_last_thread
    split
    · exact fun w => hfile w _ _ _
    · exact Preserves.pure _
  · unfold book_suspension
    split
    · refine Preserves.bind hnow fun at_ => ?_
      split
      · exact Preserves.bind (hsend _) fun _ => fun w => hfile w _ _ _
      · exact fun w => hfile w _ _ _
    · exact Preserves.pure _

end JavaDebug.HitWalks
