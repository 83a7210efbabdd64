import JavaDebug.AgreedBooks
import JavaDebug.HitEffects

/-!
One composite in every order of its events. The traced path walks all of them,
each for the stop point that owns it; the suspending path reads the first
alone. So the order is irrelevant when every event is traced or there is only
one, and otherwise some order leaves a suspending stop point without its tally.
-/
namespace JavaDebug.CompositeOrder

open Jdwp StopPoints Session Wire Disarming
open Hits Rearming StateProgram Runs Ownership
open Withdrawing HitWalks LedgerRuns HitEffects AgreedBooks

section Enduring

/-- What is read off the records of the stop points alone, and survives an edit of the owner of
`r` that gives it no request. -/
structure Endures (P : World → Prop) (r : RequestId) : Prop where
  shelf : ∀ {w w' : World}, w'.session.stop_points = w.session.stop_points → P w → P w'
  edit : ∀ {w : World} {sp : StopPoint} {f : StopPoint → StopPoint}
    (hf : ∀ sp, (f sp).id = sp.id),
    (∀ sp, (f sp).request_ids = sp.request_ids ∨ (f sp).request_ids = []) →
    w.session.owner? r = some sp → P w →
    P { w with session := w.session.edit_stop_point sp.id f hf }

variable {P : World → Prop} {r : RequestId}

theorem endures_tally (hP : Endures P r) (f : StopPoint → StopPoint) (hf : ∀ sp, (f sp).id = sp.id)
    (hr : ∀ sp, (f sp).request_ids = sp.request_ids) : Preserves P (edit_owner r f hf) := by
  intro w h
  simp only [edit_owner, edit_run]
  cases ho : w.session.owner? r with
  | none => exact h
  | some sp => exact hP.edit hf (fun sp => Or.inl (hr sp)) ho h

theorem endures_disarm (hP : Endures P r) : Preserves P (disarm_request r) := by
  intro w h
  obtain ⟨q, hq⟩ := noted_eq w.session r
  rw [disarm_request_run]
  cases ho : w.session.owner? r with
  | none => exact hP.shelf (by rw [hq]) h
  | some sp =>
    have hoff := hP.edit (f := set_disabled) (fun _ => rfl) (fun _ => Or.inr rfl) ho h
    refine hP.shelf ?_ hoff
    show ((noted w.session r).edit_stop_point sp.id set_disabled).stop_points = _
    rw [hq]
    rfl

theorem endures_charge (hP : Endures P r) : Preserves P (charge_trace_budget r) := by
  refine charge_preserves (fun _ _ ho h => ?_) (endures_disarm hP) fun _ _ h => ?_
  · exact hP.edit (f := lower_budget) (fun _ => rfl) (fun _ => Or.inl rfl) ho h
  · refine hP.shelf ?_ h
    rfl

theorem endures_spend (hP : Endures P r) : Preserves P (spend_if_counted r) := by
  unfold spend_if_counted
  intro w h
  simp only [run_bind, run_get]
  cases ho : w.session.owner? r with
  | none => exact h
  | some sp =>
    simp only
    rw [run_ite]
    split
    · exact h
    have hout := clear_each_withdrawn .breakpoint (sp.request_ids.filter fun q => q ≠ r)
      { w with session := spent_session w.session sp r }
    have hoff := hP.edit (f := set_spent) (fun _ => rfl) (fun _ => Or.inr rfl) ho h
    refine hP.shelf ?_ hoff
    exact (congrArg DebugSession.stop_points hout.session).trans (spent_session_stop_points _ _ _)

theorem add_discarded_requests (sp : StopPoint) :
    (add_discarded sp).request_ids = sp.request_ids := by
  unfold add_discarded
  split <;> rfl

variable {e : Event}

theorem endures_record (hP : Endures P e.request_id) : Preserves P (record_one_traced_event e) := by
  refine record_preserves (endures_tally hP _ _ add_discarded_requests)
    (endures_tally hP _ _ fun _ => rfl) (fun _ _ _ _ _ h => ?_) (endures_charge hP)
    (endures_spend hP)
  refine hP.shelf ?_ h
  rfl

theorem endures_bench {α : Type} {m : Handler α} (hP : Endures P r) (hm : Keeps bench m) :
    Preserves P m :=
  fun w h => hP.shelf (congrArg (fun b => b.1.stop_points) (hm w)) h

theorem endures_judge (hP : Endures P e.request_id) (thread : ThreadId) (loc : Location)
    (only : Bool) : Preserves P (judge_hit e thread loc only) :=
  judge_preserves (endures_tally hP _ _ add_discarded_requests) (endures_tally hP _ _ fun _ => rfl)
    (fun _ _ => endures_bench hP (release_hit_bench _ _))
    (fun _ => endures_bench hP (escalate_bench _)) thread loc only

theorem surface_stop_points (es : EventSet) (escalation : Option FailedEscalation) :
    Keeps (fun w => w.session.stop_points) (surface es escalation) :=
  Keeps.of_preserves fun _ => surface_preserves (fun _ _ _ _ h => h) (fun _ h => h)
    (fun c w h => (congrArg (fun b => b.1.stop_points) (send_bench c w)).trans h) es escalation

/-- The suspending path works on the owner of the first event alone. -/
theorem endures_store {es : EventSet} (hhead : es.events.head? = some e)
    (hP : Endures P e.request_id) : Preserves P (store_reportable_event es) := by
  have hsurface : ∀ escalation, Preserves P (surface es escalation) :=
    fun escalation w h => hP.shelf (surface_stop_points es escalation w) h
  cases hloc : event_location e.details with
  | none =>
    simp only [store_reportable_event, hhead, hloc]
    exact hsurface none
  | some p =>
    obtain ⟨thread, loc⟩ := p
    rw [store_located hhead hloc]
    refine Preserves.bind (endures_judge hP thread loc _) fun judged => ?_
    unfold conclude
    split
    · exact endures_spend hP
    · exact Preserves.bind (hsurface _) fun _ => endures_spend hP

end Enduring

section Left

variable {v : StopPoint} {r : RequestId} {w : World}

/-- The stop point `v` is on the books as it stands, and does not own `r`. -/
def Left (v : StopPoint) (r : RequestId) (w : World) : Prop :=
  v ∈ w.session.stop_points.rows ∧ r ∉ v.request_ids

theorem left_endures (v : StopPoint) (r : RequestId) : Endures (Left v r) r := by
  refine ⟨fun hs h => ?_, fun {w sp f} hf _ ho h => ?_⟩
  · unfold Left
    rw [hs]
    exact h
  · obtain ⟨hmem, hr⟩ := owner_some ho
    have hne : v.id ≠ sp.id := fun hid => h.2 (by
      rwa [List.inj_on_of_nodup_map w.session.stop_points.nodup h.1 hmem hid])
    exact ⟨(Table.mem_modify _ _ f hf _).mpr ⟨v, h.1, if_neg hne⟩, h.2⟩

theorem walk_leaves {events : List Event} (hr : ∀ e ∈ events, e.request_id ∉ v.request_ids)
    (h : v ∈ w.session.stop_points.rows) : v ∈ (walk events w).session.stop_points.rows := by
  induction events generalizing w with
  | nil => exact h
  | cons e rest ih =>
    refine ih (fun e' he' => hr e' (List.mem_cons_of_mem e he')) ?_
    exact (endures_record (left_endures v _) w ⟨h, hr e List.mem_cons_self⟩).1

variable {hand : List Handle} {gone : Handle → Prop}

theorem record_loose (e : Event) (L : Ledger False hand gone w) :
    Ledger False hand gone ((record_one_traced_event e).run w).2 :=
  record_one_ledger e w ⟨L, False.elim⟩

theorem walk_loose (events : List Event) (L : Ledger False hand gone w) :
    Ledger False hand gone (walk events w) := by
  induction events generalizing w with
  | nil => exact L
  | cons e rest ih => exact ih (record_loose e L)

theorem walk_leaves_untraced (events : List Event) (L : Ledger False hand gone w)
    (h : v ∈ w.session.stop_points.rows) (ht : v.trace = false) :
    v ∈ (walk events w).session.stop_points.rows := by
  induction events generalizing w with
  | nil => exact h
  | cons e rest ih =>
    refine ih (record_loose e L) ?_
    by_cases hin : e.request_id ∈ v.request_ids
    · rw [AgreedBooks.record_untraced L (owner_eq L h hin) ht]
      exact h
    · exact (endures_record (left_endures v _) w ⟨h, hin⟩).1

end Left

section Recorded

variable {hand : List Handle} {gone : Handle → Prop} {w : World} {r : RequestId} {sp q : StopPoint}

/-- What a hit leaves of the stop point's record, whatever else happens to it. -/
structure Stands (q v : StopPoint) : Prop where
  request_ids : v.request_ids ⊆ q.request_ids
  hits : v.hits = q.hits
  armed_on : v.armed_on = q.armed_on

theorem Stands.refl (q : StopPoint) : Stands q q := ⟨List.Subset.refl _, rfl, rfl⟩

theorem get_of_owner (ho : w.session.owner? r = some q) :
    w.session.stop_points.get? q.id = some q :=
  (Table.get?_eq_some _ _ _).mpr ⟨(owner_some ho).1, rfl⟩

theorem edit_row {s : DebugSession} {id : StopId} (f : StopPoint → StopPoint)
    (hf : ∀ sp, (f sp).id = sp.id) (h : s.stop_points.get? id = some q) :
    (s.edit_stop_point id f hf).stop_points.get? id = some (f q) := by
  show (s.stop_points.modify id f hf).get? id = _
  rw [Table.get?_modify, if_pos rfl, h]
  rfl

theorem spend_row (ho : w.session.owner? r = some q) :
    ((spend_if_counted r).run w).2.session.stop_points.get? q.id =
      some (if q.hit_count.isSome then set_spent q else q) := by
  unfold spend_if_counted
  simp only [run_bind, run_get, ho]
  rw [run_ite]
  by_cases hc : q.hit_count.isNone = true
  · have hnone : q.hit_count.isSome = false := by
      rw [← Option.not_isNone, hc]
      rfl
    rw [if_pos hc, hnone]
    exact get_of_owner ho
  · have hsome : q.hit_count.isSome = true :=
      Option.isSome_iff_ne_none.mpr fun hnone => hc (Option.isNone_iff_eq_none.mpr hnone)
    rw [if_neg hc, hsome]
    have hout := clear_each_withdrawn .breakpoint (q.request_ids.filter fun i => i ≠ r)
      { w with session := spent_session w.session q r }
    have hrow : (spent_session w.session q r).stop_points.get? q.id = some (set_spent q) := by
      rw [spent_session_stop_points]
      exact edit_row set_spent (fun _ => rfl) (get_of_owner ho)
    exact (congrArg (fun s => DebugSession.stop_points s |>.get? q.id) hout.session).trans hrow

theorem spent_stands (q : StopPoint) : Stands q (if q.hit_count.isSome then set_spent q else q) ∧
    (q.hit_count.isSome → (if q.hit_count.isSome then set_spent q else q).spent = true) := by
  split
  · exact ⟨⟨List.nil_subset _, rfl, rfl⟩, fun _ => rfl⟩
  · rename_i hnone
    exact ⟨Stands.refl q, fun hc => absurd hc hnone⟩

theorem spend_idle (ho : w.session.owner? r = none) : (spend_if_counted r).run w = ((), w) := by
  unfold spend_if_counted
  simp only [run_bind, run_get, ho]
  rfl

theorem charge_row (L : Ledger False hand gone w) (ho : w.session.owner? r = some q) :
    (runs_out q → ((charge_trace_budget r).run w).2.session.owner? r = none ∧
      ((charge_trace_budget r).run w).2.session.stop_points.get? q.id =
        some (set_disabled (lower_budget q))) ∧
    (¬ runs_out q →
      ((charge_trace_budget r).run w).2.session.owner? r = some (lower_budget q)) := by
  have howner : (w.session.edit_stop_point q.id lower_budget).owner? r =
      some (lower_budget q) := by
    rw [tally_budget.owner, ho, Option.map_some, if_pos rfl]
  have L1 := tally_budget.ledger L q.id
  have hnone := disarmed_owner L1 r
  have hrow : ((disarm_request r).run
      { w with session := w.session.edit_stop_point q.id lower_budget }).2.session.stop_points.get?
        q.id = some (set_disabled (lower_budget q)) := by
    obtain ⟨l, hl⟩ := noted_eq (w.session.edit_stop_point q.id lower_budget) r
    rw [disarm_request_run, howner]
    refine edit_row set_disabled (fun _ => rfl) ?_
    rw [hl]
    exact edit_row lower_budget (fun _ => rfl) (get_of_owner ho)
  unfold charge_trace_budget decrement_trace_budget runs_out
  simp only [run_bind, run_get, ho, edit_run, run_pure]
  refine ⟨fun hout => ?_, fun hout => ?_⟩
  · simp only [hout, run_bind]
    split
    · exact ⟨hnone, hrow⟩
    · exact ⟨hnone, hrow⟩
  · split
    · rename_i hzero
      exact absurd hzero hout
    · exact howner

/-- No throw of the request is on file: it has not fired before. -/
def Unfiled (r : RequestId) (b : TraceBuffer) : Prop :=
  ∀ c ∈ b.rethrow_chains.rows, c.key.1 ≠ r

theorem first_of_unfiled {b : TraceBuffer} (h : Unfiled r b) (id : StopId) (thread : ThreadId)
    (exception : Option ObjectId) : (b.push id r thread exception).1 = .first := by
  unfold TraceBuffer.push TraceBuffer.classify_throw
  cases exception with
  | none => rfl
  | some exc =>
    have hnone : b.rethrow_chains.get? (r, thread, exc) = none := by
      refine (Table.get?_eq_none _ _).mpr fun c hc heq => h c hc ?_
      rw [heq]
    simp only [hnone]

/-- The traced path after the tally: the hit goes into the buffer unless it is skipped, and its
request is spent. -/
def file_hit (traces : TraceBuffer) (id : StopId) (r : RequestId) (thread : ThreadId)
    (exception : Option ObjectId) (skipped : Bool) : Handler (Option ThreadId) := do
  if !skipped then
    let filed := traces.push id r thread exception
    edit fun s => { s with traces := filed.2 }
    if filed.1 = .first then charge_trace_budget r
  spend_if_counted r
  pure (some thread)

variable (traces : TraceBuffer) (id : StopId) (thread : ThreadId) (exception : Option ObjectId)

theorem file_skipped : file_hit traces id r thread exception true =
    spend_if_counted r >>= fun _ => pure (some thread) := rfl

theorem file_kept : file_hit traces id r thread exception false =
    (edit fun s => { s with traces := (traces.push id r thread exception).2 }) >>= fun _ =>
      (if (traces.push id r thread exception).1 = .first then charge_trace_budget r else pure ())
        >>= fun _ => spend_if_counted r >>= fun _ => pure (some thread) := by
  unfold file_hit
  simp only [Bool.not_false, if_true]
  refine congrArg _ (funext fun _ => ?_)
  split <;> rfl

/-- The row after a filed hit: disabled by the charge of a kept one, else spent if counted. -/
theorem file_row (L : Ledger False hand gone w) (ho : w.session.owner? r = some q) (skipped : Bool)
    :
    ((file_hit traces id r thread exception skipped).run w).2.session.stop_points.get? q.id =
      some (if !skipped && decide ((traces.push id r thread exception).1 = .first) then
        if q.trace_budget.map (fun n => n - 1) = some 0 then set_disabled (lower_budget q)
        else if q.hit_count.isSome then set_spent (lower_budget q) else lower_budget q
      else if q.hit_count.isSome then set_spent q else q) := by
  cases skipped with
  | true =>
    rw [file_skipped]
    exact spend_row ho
  | false =>
    rw [file_kept, run_bind, edit_run]
    have L1 : Ledger False hand gone { w with
        session := { w.session with traces := (traces.push id r thread exception).2 } } :=
      L.of_shelf rfl
    have ho1 : ({ w.session with
        traces := (traces.push id r thread exception).2 } : DebugSession).owner? r = some q := ho
    by_cases hfirst : (traces.push id r thread exception).1 = .first
    · rw [if_pos hfirst, decide_eq_true hfirst, run_bind]
      obtain ⟨hout, hin⟩ := charge_row L1 ho1
      by_cases hruns : q.trace_budget.map (fun n => n - 1) = some 0
      · obtain ⟨hnone, hrow⟩ := hout hruns
        rw [Bool.not_false, Bool.true_and, if_pos rfl, if_pos hruns, run_bind, spend_idle hnone]
        exact hrow
      · rw [Bool.not_false, Bool.true_and, if_pos rfl, if_neg hruns]
        exact spend_row (hin hruns)
    · rw [if_neg hfirst, decide_eq_false hfirst]
      exact spend_row (w := { w with
        session := { w.session with traces := (traces.push id r thread exception).2 } }) ho1

theorem file_thread (skipped : Bool) :
    ((file_hit traces id r thread exception skipped).run w).1 = some thread := by
  cases skipped with
  | true => rfl
  | false =>
    rw [file_kept]
    rfl

/-- A counted stop point is spent, unless the charge took it. -/
theorem filed_stands (kept : Bool) (q : StopPoint) {v : StopPoint} (hv : (if kept then
        if q.trace_budget.map (fun n => n - 1) = some 0 then set_disabled (lower_budget q)
        else if q.hit_count.isSome then set_spent (lower_budget q) else lower_budget q
      else if q.hit_count.isSome then set_spent q else q) = v) :
    Stands q v ∧ (q.hit_count.isSome → q.spent = false →
      (v.spent = true ↔ ¬ (kept = true ∧ runs_out q))) := by
  subst hv
  obtain ⟨hst, hspent⟩ := spent_stands q
  obtain ⟨hlow, hlowspent⟩ := spent_stands (lower_budget q)
  by_cases hk : kept = true
  · rw [if_pos hk]
    by_cases hruns : q.trace_budget.map (fun n => n - 1) = some 0
    · rw [if_pos hruns]
      refine ⟨⟨List.nil_subset _, rfl, rfl⟩, fun _ hs => ?_⟩
      show q.spent = true ↔ _
      simp [hs, hk, runs_out, hruns]
    · rw [if_neg hruns]
      refine ⟨⟨hlow.request_ids, hlow.hits, hlow.armed_on⟩, fun hc _ => ?_⟩
      exact iff_of_true (hlowspent hc) fun h => hruns h.2
  · rw [if_neg hk]
    exact ⟨hst, fun hc _ => iff_of_true (hspent hc) fun h => hk h.1⟩

/-- The stop point with the hit in its tally: a hit of its own, or one its method filter drops. -/
def tallied (a : Answers) (loc : Location) (sp : StopPoint) : StopPoint :=
  if method_name_matches a (method_filter sp) loc then add_hit sp else add_discarded sp

theorem tallied_same (a : Answers) (loc : Location) (sp : StopPoint) :
    (tallied a loc sp).id = sp.id ∧ (tallied a loc sp).request_ids = sp.request_ids ∧
      (tallied a loc sp).hit_count = sp.hit_count ∧ (tallied a loc sp).spent = sp.spent ∧
      (tallied a loc sp).trace_budget = sp.trace_budget := by
  unfold tallied add_discarded
  split
  · exact ⟨rfl, rfl, rfl, rfl, rfl⟩
  · split <;> exact ⟨rfl, rfl, rfl, rfl, rfl⟩

variable {thread : ThreadId} {loc : Location} {e : Event}

theorem find_traced (L : Ledger False hand gone w) (ho : w.session.owner? r = some sp)
    (ht : sp.trace = true) : find_traced_request w.session r = some sp := by
  obtain ⟨hmem, hreq⟩ := owner_some ho
  cases hf : find_traced_request w.session r with
  | none =>
    have := List.find?_eq_none.mp hf sp hmem
    simp [StopPoint.owns_request, hreq, ht] at this
  | some v =>
    have hown := List.find?_some hf
    rw [Bool.and_eq_true] at hown
    have hin : r ∈ v.request_ids := by simpa [StopPoint.owns_request] using hown.1
    exact congrArg some (Option.some.inj
      ((owner_eq L (List.mem_of_find?_eq_some hf) hin).symm.trans ho))

theorem record_found (hf : find_traced_request w.session e.request_id = some sp)
    (hloc : event_location e.details = some (thread, loc)) :
    (record_one_traced_event e).run w =
      (file_hit w.session.traces sp.id e.request_id thread (exception_instance e.details)
        (skips w.answers sp thread loc e.details)).run
      ((if method_name_matches w.answers (method_filter sp) loc then
          record_stop_point_hit e.request_id else record_discarded_exit e.request_id).run w).2 := by
  unfold record_one_traced_event
  simp only [hloc]
  rw [run_get_bind, hf]
  dsimp only
  cases method_name_matches w.answers (method_filter sp) loc <;> rfl

theorem owner_tally {f : StopPoint → StopPoint} (hf : Tally f) (ho : w.session.owner? r = some sp) :
    ((edit_owner r f hf.id).run w).2.session.owner? r = some (f sp) := by
  simp only [edit_owner, edit_run, ho, hf.owner, Option.map_some, if_true]

/-- The tally of the owner of `r`, by the method filter. -/
def tally_owner (a : Answers) (sp : StopPoint) (loc : Location) (r : RequestId) : Handler Unit :=
  if method_name_matches a (method_filter sp) loc then record_stop_point_hit r
  else record_discarded_exit r

theorem tally_owner_spec (L : Ledger False hand gone w) (ho : w.session.owner? r = some sp)
    (a : Answers) (loc : Location) :
    Ledger False hand gone ((tally_owner a sp loc r).run w).2 ∧
      ((tally_owner a sp loc r).run w).2.session.owner? r = some (tallied a loc sp) := by
  unfold tally_owner tallied
  split
  · exact ⟨tally_hit.edit_owner_ledger r w L, owner_tally tally_hit ho⟩
  · exact ⟨tally_discarded.edit_owner_ledger r w L, owner_tally tally_discarded ho⟩

theorem owner_unspent (L : Ledger False hand gone w) (ho : w.session.owner? r = some sp) :
    sp.spent = false := by
  obtain ⟨hmem, hr⟩ := owner_some ho
  have hs := L.shaped sp hmem
  refine Bool.eq_false_iff.mpr fun hspent => ?_
  rw [hs.off (hs.spent hspent)] at hr
  exact absurd hr List.not_mem_nil

/-- One traced event: its thread is named, its stop point has the tally, and it is spent, if it is
counted, unless its hit is kept and uses up the budget. -/
theorem record_row (L : Ledger False hand gone w) (ho : w.session.owner? e.request_id = some sp)
    (ht : sp.trace = true) (hloc : event_location e.details = some (thread, loc)) :
    ((record_one_traced_event e).run w).1 = some thread ∧
    ∃ v, ((record_one_traced_event e).run w).2.session.stop_points.get? sp.id = some v ∧
      Stands (tallied w.answers loc sp) v ∧
      (sp.hit_count.isSome → Unfiled e.request_id w.session.traces →
        (v.spent = true ↔ ¬ (skips w.answers sp thread loc e.details = false ∧ runs_out sp))) := by
  obtain ⟨L1, ho1⟩ := tally_owner_spec L ho w.answers loc
  obtain ⟨hid, -, hc, hs, hb⟩ := tallied_same w.answers loc sp
  have hv := file_row w.session.traces sp.id thread
    (exception_instance e.details) L1 ho1 (skips w.answers sp thread loc e.details)
  obtain ⟨hst, hspent⟩ := filed_stands _ (tallied w.answers loc sp) rfl
  rw [record_found (find_traced L ho ht) hloc]
  refine ⟨file_thread _ _ _ _ _, _, ?_, hst, fun hcount hnew => ?_⟩
  · rw [hid] at hv
    exact hv
  · refine (hspent (hc.symm ▸ hcount) (hs.trans (owner_unspent L ho))).trans ?_
    rw [decide_eq_true (first_of_unfiled hnew _ _ _), Bool.and_true, Bool.not_eq_true']
    unfold runs_out
    rw [hb]

end Recorded

section Kept

theorem scene_clear_requests (code : EventCode) (ids : List RequestId) :
    Keeps scene (clear_requests code ids) :=
  Keeps.of_preserves fun t => clears_preserve (fun _ => (scene_clear_request _ _).preserves t) ids

theorem scene_disarm (r : RequestId) : Keeps scene (disarm_request r) := by
  intro w
  obtain ⟨q, hq⟩ := noted_eq w.session r
  rw [disarm_request_run]
  cases w.session.owner? r with
  | none =>
    rw [hq]
    rfl
  | some sp =>
    have hclear := scene_clear_requests sp.armed_on.code sp.request_ids
      { w with session := noted w.session r }
    rw [hq] at hclear ⊢
    simp only [scene, Scene.mk.injEq] at hclear ⊢
    obtain ⟨h1, h2, -, h4, -, -, h7⟩ := hclear
    exact ⟨h1, h2, rfl, h4, rfl, rfl, h7⟩

theorem scene_charge (r : RequestId) : Keeps scene (charge_trace_budget r) :=
  Keeps.of_preserves fun t => charge_preserves (fun _ _ _ h => h) ((scene_disarm r).preserves t)
    fun _ _ h => h

theorem scene_record (e : Event) : Keeps scene (record_one_traced_event e) :=
  Keeps.of_preserves fun t => record_preserves ((scene_edit_owner _ _ _).preserves t)
    ((scene_edit_owner _ _ _).preserves t) (fun _ _ _ _ _ h => h) ((scene_charge _).preserves t)
    ((scene_spend_if_counted _).preserves t)

theorem scene_walk (events : List Event) (w : World) : scene (walk events w) = scene w := by
  induction events generalizing w with
  | nil => rfl
  | cons e rest ih => exact (ih _).trans (scene_record e w)

/-- The throws on file. -/
def chains (w : World) : Table RethrowChain.key := w.session.traces.rethrow_chains

theorem chains_note (b : TraceBuffer) (id : StopId) :
    (b.note_disarm id).rethrow_chains = b.rethrow_chains := by
  unfold TraceBuffer.note_disarm
  split
  · rfl
  · split <;> rfl

section Traces

variable {τ : Type} (g : TraceBuffer → τ)

theorem traces_edit_owner (r : RequestId) (f : StopPoint → StopPoint) (hf : ∀ sp, (f sp).id = sp.id)
    : Keeps (fun w => g w.session.traces) (edit_owner r f hf) := by
  intro w
  simp only [edit_owner, edit_run]
  cases w.session.owner? r <;> rfl

theorem traces_disarm (r : RequestId) : Keeps (fun w => g w.session.traces) (disarm_request r) := by
  intro w
  obtain ⟨q, hq⟩ := noted_eq w.session r
  rw [disarm_request_run, hq]
  cases w.session.owner? r <;> rfl

theorem traces_charge (hnote : ∀ b id, g (b.note_disarm id) = g b) (r : RequestId) :
    Keeps (fun w => g w.session.traces) (charge_trace_budget r) :=
  Keeps.of_preserves fun t => charge_preserves (fun _ _ _ h => h)
    ((traces_disarm g r).preserves t) fun id _ h => (hnote _ id).trans h

theorem traces_spend (r : RequestId) :
    Keeps (fun w => g w.session.traces) (spend_if_counted r) := by
  intro w
  unfold spend_if_counted
  simp only [run_bind, run_get]
  cases w.session.owner? r with
  | none => rfl
  | some sp =>
    simp only
    rw [run_ite]
    split
    · rfl
    have hout := clear_each_withdrawn .breakpoint (sp.request_ids.filter fun q => q ≠ r)
      { w with session := spent_session w.session sp r }
    obtain ⟨q, hq⟩ := (w.session.edit_stop_point sp.id set_spent).note_traced_in_flight_eq
      sp.trace (sp.request_ids.filter fun q => q ≠ r)
    have hsame : (spent_session w.session sp r).traces = w.session.traces := by
      unfold spent_session
      rw [hq]
      rfl
    exact (congrArg (fun s => g s.traces) hout.session).trans (congrArg g hsame)

end Traces

variable {r : RequestId}

theorem make_room_sub (t : Table RethrowChain.key) :
    ∀ c ∈ (TraceBuffer.make_room t).rows, c ∈ t.rows := by
  intro c hc
  unfold TraceBuffer.make_room at hc
  split at hc
  · exact ((Table.mem_erase _ _ _).mp hc).1
  · exact hc

theorem unfiled_push {b : TraceBuffer} (h : Unfiled r b) {q : RequestId} (hne : q ≠ r) (id : StopId)
    (thread : ThreadId) (exception : Option ObjectId) :
    Unfiled r (b.push id q thread exception).2 := by
  unfold TraceBuffer.push TraceBuffer.classify_throw
  cases exception with
  | none => exact h
  | some exc =>
    dsimp only
    cases hg : b.rethrow_chains.get? (q, thread, exc) with
    | some chain =>
      intro c hc
      dsimp only at hc
      obtain ⟨u, hu, rfl⟩ := (Table.mem_modify _ _ _ (by intro _; rfl) _).mp hc
      split
      · exact h u hu
      · exact h u hu
    | none =>
      intro c hc
      rcases (Table.mem_insert _ _ _).mp hc with ⟨hc, -⟩ | rfl
      · exact h c (make_room_sub _ c hc)
      · exact hne

theorem unfiled_record {e : Event} (hne : e.request_id ≠ r) :
    Preserves (fun w => Unfiled r w.session.traces) (record_one_traced_event e) := by
  have hkeep : ∀ {α : Type} {m : Handler α}, Keeps chains m →
      Preserves (fun w => Unfiled r w.session.traces) m := by
    intro α m hm w hw
    have := hm w
    unfold chains at this
    show Unfiled r _
    unfold Unfiled
    rw [this]
    exact hw
  exact record_preserves (hkeep (traces_edit_owner _ _ _ _)) (hkeep (traces_edit_owner _ _ _ _))
    (fun u hu id thread w _ => unfiled_push hu hne id thread _)
    (hkeep (traces_charge _ chains_note _)) (hkeep (traces_spend _ _))

theorem unfiled_walk {events : List Event} (hne : ∀ e ∈ events, e.request_id ≠ r) {w : World}
    (h : Unfiled r w.session.traces) : Unfiled r (walk events w).session.traces := by
  induction events generalizing w with
  | nil => exact h
  | cons e rest ih =>
    refine ih (fun e' he' => hne e' (List.mem_cons_of_mem e he')) ?_
    exact unfiled_record (hne e List.mem_cons_self) w h

end Kept

section Paths

variable {hand : List Handle} {gone : Handle → Prop} {w : World} {sp : StopPoint} {e : Event}
  {thread : ThreadId} {loc : Location} {es : EventSet}

theorem owner_kept (L : Ledger False hand gone w) {r : RequestId}
    (ho : w.session.owner? r = some sp) (hne : e.request_id ∉ sp.request_ids) :
    ((record_one_traced_event e).run w).2.session.owner? r = some sp := by
  obtain ⟨hmem, hr⟩ := owner_some ho
  exact owner_eq (record_loose e L) (endures_record (left_endures _ _) w ⟨hmem, hne⟩).1 hr

/-- Every event is of a traced stop point, each of its own. -/
def AllTraced (w : World) (events : List Event) : Prop :=
  (∀ e ∈ events, ∃ sp, w.session.owner? e.request_id = some sp ∧ sp.trace = true) ∧
    events.Pairwise fun e e' =>
      w.session.owner? e.request_id ≠ w.session.owner? e'.request_id

theorem foreign (L : Ledger False hand gone w) {r : RequestId} (ho : w.session.owner? r = some sp)
    (hne : w.session.owner? e.request_id ≠ w.session.owner? r) :
    e.request_id ∉ sp.request_ids := fun hin =>
  hne ((owner_eq L (owner_some ho).1 hin).trans ho.symm)

theorem AllTraced.record {rest : List Event} (L : Ledger False hand gone w)
    (h : AllTraced w (e :: rest)) : AllTraced ((record_one_traced_event e).run w).2 rest := by
  obtain ⟨hall, hpair⟩ := h
  obtain ⟨hfirst, hrest⟩ := List.pairwise_cons.mp hpair
  have hkept : ∀ e' ∈ rest, ∃ sp, w.session.owner? e'.request_id = some sp ∧ sp.trace = true ∧
      ((record_one_traced_event e).run w).2.session.owner? e'.request_id = some sp := by
    intro e' he'
    obtain ⟨sp, ho, ht⟩ := hall e' (List.mem_cons_of_mem e he')
    exact ⟨sp, ho, ht, owner_kept L ho (foreign L ho (hfirst e' he'))⟩
  refine ⟨fun e' he' => ?_, hrest.imp_of_mem fun {a b} ha hb hne => ?_⟩
  · obtain ⟨sp, -, ht, ho⟩ := hkept e' he'
    exact ⟨sp, ho, ht⟩
  · obtain ⟨sp, ho, -, ho'⟩ := hkept a ha
    obtain ⟨sp', hb, -, hb'⟩ := hkept b hb
    rw [ho', hb']
    rwa [ho, hb] at hne

/-- A walk over traced events ends with their thread, and finds them all its own. -/
theorem record_events_traced {events : List Event} (L : Ledger False hand gone w)
    (h : AllTraced w events) (hloc : ∀ e ∈ events, event_location e.details = some (thread, loc))
    (handled : Option ThreadId) (hsome : events ≠ [] ∨ handled = some thread) :
    ((record_traced_events handled true events).run w).1 = (some thread, true) := by
  induction events generalizing w handled with
  | nil =>
    rw [hsome.resolve_left fun hne => hne rfl]
    rfl
  | cons e rest ih =>
    obtain ⟨sp, ho, ht⟩ := h.1 e List.mem_cons_self
    have hr := (record_row L ho ht (hloc e List.mem_cons_self)).1
    have hnext := ih (record_loose e L) (h.record L)
      (fun e' he' => hloc e' (List.mem_cons_of_mem e he')) (some thread) (Or.inr rfl)
    unfold record_traced_events
    rw [run_bind, hr]
    exact hnext

theorem record_trace_session (es : EventSet) (w : World) :
    ((try_record_trace es).run w).2.session = (walk es.events w).session := by
  rcases record_trace_walked es w with h | ⟨t, h⟩
  · rw [h]
  · rw [h, resume_thread, perform_run]
    split <;> rfl

theorem record_trace_all (hne : es.events ≠ []) (L : Ledger False hand gone w)
    (h : AllTraced w es.events)
    (hloc : ∀ e ∈ es.events, event_location e.details = some (thread, loc)) :
    ((try_record_trace es).run w).1 = true := by
  have hours : (!es.events.isEmpty) = true := by
    simpa using hne
  have hr := record_events_traced L h hloc none (Or.inl hne)
  unfold try_record_trace
  rw [run_bind, hours]
  revert hr
  generalize (record_traced_events none true es.events).run w = res
  obtain ⟨t, w1⟩ := res
  intro hr
  dsimp only at hr
  subst hr
  rfl

theorem plain_of_placed (h : ∀ e ∈ es.events, event_location e.details = some (thread, loc)) :
    es.events.findSome? (fun e => class_prepare_of e.details) = none := by
  refine List.findSome?_eq_none_iff.mpr fun e he => ?_
  have := h e he
  cases hd : e.details <;> rw [hd] at this <;> first | rfl | cases this

theorem walk_row {events : List Event} (L : Ledger False hand gone w) (h : AllTraced w events)
    (hloc : ∀ e ∈ events, event_location e.details = some (thread, loc)) (he : e ∈ events)
    (ho : w.session.owner? e.request_id = some sp) :
    ∃ v, (walk events w).session.stop_points.get? sp.id = some v ∧
      Stands (tallied w.answers loc sp) v ∧
      (sp.hit_count.isSome → Unfiled e.request_id w.session.traces →
        (v.spent = true ↔ ¬ (skips w.answers sp thread loc e.details = false ∧ runs_out sp))) := by
  obtain ⟨pre, post, rfl⟩ := List.append_of_mem he
  obtain ⟨hpre, hpost, hcross⟩ := List.pairwise_append.mp h.2
  have hbefore : ∀ a ∈ pre, a.request_id ∉ sp.request_ids := fun a ha =>
    foreign L ho (hcross a ha e List.mem_cons_self)
  have hafter : ∀ a ∈ post, a.request_id ∉ sp.request_ids := fun a ha =>
    foreign L ho ((List.pairwise_cons.mp hpost).1 a ha).symm
  obtain ⟨hmem, hreq⟩ := owner_some ho
  have L1 := walk_loose pre L
  have ho1 := owner_eq L1 (walk_leaves hbefore hmem) hreq
  have ht : sp.trace = true := by
    obtain ⟨sp', ho', ht⟩ := h.1 e he
    rwa [Option.some.inj (ho.symm.trans ho')]
  obtain ⟨-, v, hv, hst, hspent⟩ := record_row L1 ho1 ht (hloc e he)
  have hans : (walk pre w).answers = w.answers := congrArg Scene.answers (scene_walk pre w)
  rw [hans] at hst hspent
  obtain ⟨hvmem, hid⟩ := (Table.get?_eq_some _ _ _).mp hv
  refine ⟨v, ?_, hst, fun hc hnew => hspent hc (unfiled_walk (fun a ha heq => ?_) hnew)⟩
  · rw [walk_append, walk]
    refine (Table.get?_eq_some _ _ _).mpr ⟨walk_leaves (fun a ha hin => ?_) hvmem, hid⟩
    have hin' := hst.request_ids hin
    rw [(tallied_same w.answers loc sp).2.1] at hin'
    exact hafter a ha hin'
  · exact hbefore a ha (heq ▸ hreq)

theorem judge_owner (ho : w.session.owner? e.request_id = some sp) (thread : ThreadId)
    (loc : Location) (only : Bool) :
    ((judge_hit e thread loc only).run w).2.session.owner? e.request_id =
      some (tallied w.answers loc sp) := by
  have hbench : ∀ {α : Type} {m : Handler α} (q : StopPoint) (u : World), Keeps bench m →
      u.session.owner? e.request_id = some q →
      (m.run u).2.session.owner? e.request_id = some q := by
    intro α m q u hm hu
    have hsame := congrArg (fun b => b.1.stop_points) (hm u)
    simp only [bench, shelf] at hsame
    rw [← hu]
    unfold DebugSession.owner?
    rw [hsame]
  unfold judge_hit tallied
  simp only [run_bind, run_get, ho, Option.bind_some]
  by_cases hm : method_name_matches w.answers (method_filter sp) loc = true
  · have hhit := owner_tally tally_hit ho
    simp only [hm, Bool.not_true, Bool.false_eq_true, if_false, if_true, run_bind]
    cases sp.condition with
    | none => exact hhit
    | some cond =>
      dsimp only
      by_cases hcond : w.answers.condition_holds cond thread e.details = true
      · simp only [hcond, if_true]
        cases only with
        | true => exact hbench _ _ (escalate_bench thread) hhit
        | false => exact hhit
      · simp only [hcond, if_false, Bool.false_eq_true]
        exact hbench _ _ (release_hit_bench thread only) hhit
  · simp only [hm, Bool.not_false, if_true, if_false, run_bind, Bool.false_eq_true]
    exact owner_tally tally_discarded (hbench _ _ (release_hit_bench thread only) ho)

theorem store_row (hhead : es.events.head? = some e)
    (hloc : event_location e.details = some (thread, loc))
    (ho : w.session.owner? e.request_id = some sp) :
    ((store_reportable_event es).run w).2.session.stop_points.get? sp.id =
      some (if (tallied w.answers loc sp).hit_count.isSome then
        set_spent (tallied w.answers loc sp) else tallied w.answers loc sp) := by
  have hjudged := judge_owner ho thread loc (decide (es.suspend_policy = .eventThread))
  rw [store_located hhead hloc, run_bind, ← (tallied_same w.answers loc sp).1]
  revert hjudged
  generalize (judge_hit e thread loc (decide (es.suspend_policy = .eventThread))).run w = res
  obtain ⟨judged, u⟩ := res
  intro hjudged
  cases judged with
  | none => exact spend_row hjudged
  | some escalation =>
    refine spend_row (w := ((surface es escalation).run u).2) ?_
    have hsame := surface_stop_points es escalation u
    unfold DebugSession.owner? at hjudged ⊢
    rw [← hjudged]
    exact congrArg (fun t => Table.rows t |>.find? fun sp => sp.owns_request e.request_id) hsame

/-- The stop point takes the hit: by its method filter and its condition. -/
def Holds (a : Answers) (sp : StopPoint) (e : Event) (thread : ThreadId) (loc : Location) : Prop :=
  method_name_matches a (method_filter sp) loc = true ∧
    ∀ cond, sp.condition = some cond → a.condition_holds cond thread e.details = true

theorem push_ne (r : EventRing) (es : EventSet) (escalation : Option FailedEscalation) :
    r.push es escalation ≠ r := by
  intro h
  have hseq := congrArg EventRing.seq h
  unfold EventRing.push at hseq
  split at hseq <;> simp at hseq

theorem verdict_dropped (ho : w.session.owner? e.request_id = some sp) :
    verdict w.session w.answers e thread loc = .dropped ↔ ¬ Holds w.answers sp e thread loc := by
  unfold verdict Holds
  rw [ho]
  simp only [Option.bind_some]
  by_cases hm : method_name_matches w.answers (method_filter sp) loc = true
  · simp only [hm, Bool.not_true, Bool.false_eq_true, if_false, true_and]
    cases hcond : sp.condition with
    | none => simp
    | some cond =>
      simp only [Option.some.injEq, forall_eq']
      cases w.answers.condition_holds cond thread e.details <;> simp
  · simp [hm]

/-- The suspending path files the composite exactly when the first event's stop point takes it. -/
theorem store_files (hhead : es.events.head? = some e)
    (hloc : event_location e.details = some (thread, loc))
    (ho : w.session.owner? e.request_id = some sp) :
    ((store_reportable_event es).run w).2.session.events ≠ w.session.events ↔
      Holds w.answers sp e thread loc := by
  have hevents : ∀ {S : Scene}, scene ((store_reportable_event es).run w).2 = S →
      ((store_reportable_event es).run w).2.session.events = S.events := fun h =>
    congrArg Scene.events h
  by_cases hv : verdict w.session w.answers e thread loc = .dropped
  · have hsame := hevents (store_dropped hhead hloc hv)
    exact ⟨fun hne => absurd hsame hne, fun hh => absurd hh ((verdict_dropped ho).mp hv)⟩
  · have hholds : Holds w.answers sp e thread loc := by
      by_contra hh
      exact hv ((verdict_dropped ho).mpr hh)
    refine ⟨fun _ => hholds, fun _ => ?_⟩
    by_cases hp : es.suspend_policy = .eventThread →
        verdict w.session w.answers e thread loc = .unconditional
    · rw [hevents (store_unescalated hhead hloc hv hp)]
      exact push_ne _ _ _
    · rw [Classical.not_imp] at hp
      have hmatched : verdict w.session w.answers e thread loc = .matched := by
        cases h : verdict w.session w.answers e thread loc with
        | dropped => exact absurd h hv
        | unconditional => exact absurd h hp.2
        | matched => rfl
      cases hg : w.refuses .suspend_all with
      | none =>
        rw [hevents (store_escalated hhead hloc hmatched hp.1 hg)]
        exact push_ne _ _ _
      | some err =>
        obtain ⟨f, hf⟩ := store_refused hhead hloc hmatched hp.1 (by rw [hg]; rfl)
        rw [hevents hf]
        exact push_ne _ _ _

end Paths

section Orders

variable {w : World} {es : EventSet} {thread : ThreadId} {loc : Location}

/-- The debuggee reports live requests of different stop points at one place. A counted request
fires once, so no throw of it is on file. -/
structure Reported (w : World) (es : EventSet) (thread : ThreadId) (loc : Location) : Prop where
  some_event : es.events ≠ []
  placed : ∀ e ∈ es.events, event_location e.details = some (thread, loc)
  owned : ∀ e ∈ es.events, (w.session.owner? e.request_id).isSome
  apart : es.events.Pairwise fun e e' =>
    w.session.owner? e.request_id ≠ w.session.owner? e'.request_id
  fresh : ∀ e ∈ es.events, ∀ sp, w.session.owner? e.request_id = some sp →
    sp.hit_count.isSome → Unfiled e.request_id w.session.traces

def accepts (w : World) (loc : Location) (sp : StopPoint) : Prop :=
  method_name_matches w.answers (method_filter sp) loc = true

def discarded (sp : StopPoint) : Option ℕ := sp.method_exit.map MethodExitRequest.discarded

/-- The stop point has one more hit, or one more discarded exit, and is spent if it is counted. -/
def Counted (w w' : World) (loc : Location) (sp : StopPoint) : Prop :=
  ∃ v, w'.session.stop_points.get? sp.id = some v ∧
    (accepts w loc sp → v.hits = sp.hits + 1 ∧ discarded v = discarded sp) ∧
    (¬ accepts w loc sp → v.hits = sp.hits ∧ discarded v = (discarded sp).map fun n => n + 1) ∧
    (sp.hit_count.isSome → v.spent = true)

/-- Every stop point of the composite is tallied and spent, and the composite is filed when a
suspending one takes it. -/
structure Outcome (w : World) (es : EventSet) (thread : ThreadId) (loc : Location) : Prop where
  counted : ∀ e ∈ es.events, ∀ sp, w.session.owner? e.request_id = some sp →
    Counted w ((listen es).run w).2 loc sp
  surfaced : ((listen es).run w).2.session.events ≠ w.session.events ↔
    ∃ e ∈ es.events, ∃ sp, w.session.owner? e.request_id = some sp ∧ sp.trace = false ∧
      Holds w.answers sp e thread loc

/-- The outcome is the same in every order. -/
def Orderless (w : World) (es : EventSet) (thread : ThreadId) (loc : Location) : Prop :=
  ∀ l : List Event, l.Perm es.events → Outcome w { es with events := l } thread loc

/-- Every event is of a traced stop point, or there is only one. -/
def Uniform (w : World) (es : EventSet) : Prop :=
  (∀ e ∈ es.events, ∀ sp, w.session.owner? e.request_id = some sp → sp.trace = true) ∨
    es.events.length = 1

/-- The tally that the hit belongs in can still grow. -/
def Room (w : World) (loc : Location) (sp : StopPoint) : Prop :=
  (accepts w loc sp → sp.hits < 4294967295) ∧
    (¬ accepts w loc sp → ∀ n, discarded sp = some n → n < 4294967295)

/-- The hit of a counted traced stop point is kept and uses up its trace budget. -/
def Exhausts (w : World) (thread : ThreadId) (loc : Location) (sp : StopPoint) (e : Event) : Prop :=
  sp.trace = true ∧ sp.hit_count.isSome ∧ skips w.answers sp thread loc e.details = false ∧
    runs_out sp

variable {l : List Event} {sp : StopPoint}

theorem Reported.perm (h : Reported w es thread loc) (hl : l.Perm es.events) :
    Reported w { es with events := l } thread loc := by
  refine ⟨fun hnil => ?_, fun e he => h.placed e (hl.subset he),
    fun e he => h.owned e (hl.subset he), ?_, fun e he => h.fresh e (hl.subset he)⟩
  · have hlen := hl.length_eq
    rw [show l = [] from hnil] at hlen
    exact h.some_event (List.length_eq_zero_iff.mp hlen.symm)
  · exact (hl.pairwise_iff fun hne => hne.symm).mpr h.apart

theorem Uniform.perm (h : Uniform w es) (hl : l.Perm es.events) :
    Uniform w { es with events := l } :=
  h.imp (fun h e he => h e (hl.subset he)) fun h => hl.length_eq.trans h

/-- A stop point whose method filter rejects a method is a method-exit stop. -/
theorem discarded_some (h : ¬ accepts w loc sp) : ∃ n, discarded sp = some n := by
  unfold accepts method_name_matches at h
  cases hf : method_filter sp with
  | none => simp [hf] at h
  | some want =>
    unfold method_filter at hf
    obtain ⟨me, hme, -⟩ := Option.bind_eq_some_iff.mp hf
    exact ⟨me.discarded, by rw [discarded, hme]; rfl⟩

theorem discarded_tallied (a : Answers) (sp : StopPoint) :
    discarded (tallied a loc sp) = if method_name_matches a (method_filter sp) loc then discarded sp
      else (discarded sp).map saturating_succ := by
  unfold tallied
  split
  · rfl
  · unfold add_discarded discarded StopPoint.method_exit
    cases h : sp.armed_on <;> simp [h]

theorem hits_tallied (a : Answers) (sp : StopPoint) :
    (tallied a loc sp).hits =
      if method_name_matches a (method_filter sp) loc then saturating_succ sp.hits
      else sp.hits := by
  unfold tallied add_discarded
  split
  · rfl
  · split <;> rfl

theorem succ_room (n : ℕ) : saturating_succ n = n + 1 ↔ n < 4294967295 := by
  unfold saturating_succ
  omega

theorem counted_iff {w' : World} {v : StopPoint} (hv : w'.session.stop_points.get? sp.id = some v)
    (hst : Stands (tallied w.answers loc sp) v) :
    Counted w w' loc sp ↔ Room w loc sp ∧ (sp.hit_count.isSome → v.spent = true) := by
  have hhits := hst.hits.trans (hits_tallied w.answers sp)
  have hdis : discarded v = discarded (tallied w.answers loc sp) := by
    unfold discarded StopPoint.method_exit
    rw [hst.armed_on]
  rw [discarded_tallied] at hdis
  unfold Counted Room accepts
  constructor
  · rintro ⟨u, hu, hyes, hno, hspent⟩
    rw [hv, Option.some.injEq] at hu
    subst hu
    refine ⟨⟨fun ha => ?_, fun ha n hn => ?_⟩, hspent⟩
    · rw [if_pos ha] at hhits
      exact (succ_room _).mp (hhits.symm.trans (hyes ha).1)
    · rw [if_neg ha, hn] at hdis
      have hnext := (hno ha).2
      rw [hdis, hn, Option.map_some, Option.map_some, Option.some.injEq] at hnext
      exact (succ_room _).mp hnext
  · rintro ⟨⟨hyes, hno⟩, hspent⟩
    refine ⟨v, hv, fun ha => ?_, fun ha => ?_, hspent⟩
    · rw [if_pos ha] at hhits hdis
      exact ⟨hhits.trans ((succ_room _).mpr (hyes ha)), hdis⟩
    · rw [if_neg ha] at hhits hdis
      obtain ⟨n, hn⟩ := discarded_some ha
      refine ⟨hhits, hdis.trans ?_⟩
      rw [hn, Option.map_some, Option.map_some, (succ_room n).mpr (hno ha n hn)]

theorem Reported.all_traced (h : Reported w es thread loc)
    (ht : ∀ e ∈ es.events, ∀ sp, w.session.owner? e.request_id = some sp → sp.trace = true) :
    AllTraced w es.events := by
  refine ⟨fun e he => ?_, h.apart⟩
  obtain ⟨sp, ho⟩ := Option.isSome_iff_exists.mp (h.owned e he)
  exact ⟨sp, ho, ht e he sp ho⟩

/-- All events traced: every row has its tally, and nothing is filed. -/
theorem traced_outcome (L : Ledger False [] nothing w) (h : Reported w es thread loc)
    (ht : ∀ e ∈ es.events, ∀ sp, w.session.owner? e.request_id = some sp → sp.trace = true) :
    (∀ e ∈ es.events, ∀ sp, w.session.owner? e.request_id = some sp →
      (Counted w ((listen es).run w).2 loc sp ↔ Room w loc sp ∧ ¬ Exhausts w thread loc sp e)) ∧
    ((listen es).run w).2.session.events = w.session.events := by
  have hall := h.all_traced ht
  have htrue := record_trace_all h.some_event L hall h.placed
  have hlisten : ((listen es).run w).2.session = (walk es.events w).session := by
    rw [listen_plain (plain_of_placed h.placed), run_bind, htrue]
    exact record_trace_session es w
  refine ⟨fun e he sp ho => ?_, ?_⟩
  · obtain ⟨v, hv, hst, hspent⟩ := walk_row L hall h.placed he ho
    have hv' : ((listen es).run w).2.session.stop_points.get? sp.id = some v := by
      rw [hlisten]
      exact hv
    rw [counted_iff hv' hst]
    refine and_congr_right fun _ => ?_
    unfold Exhausts
    constructor
    · rintro hs ⟨-, hc, hk, hr⟩
      exact (hspent hc (h.fresh e he sp ho hc)).mp (hs hc) ⟨hk, hr⟩
    · intro hx hc
      refine (hspent hc (h.fresh e he sp ho hc)).mpr fun hkr => hx ?_
      exact ⟨ht e he sp ho, hc, hkr.1, hkr.2⟩
  · rw [hlisten]
    exact congrArg Scene.events (scene_walk es.events w)

/-- A single suspending event: its row has its tally, and it is filed when it is taken. -/
theorem single_outcome (L : Ledger False [] nothing w) (h : Reported w es thread loc) {e : Event}
    (hev : es.events = [e]) (ho : w.session.owner? e.request_id = some sp) (ht : sp.trace = false) :
    (Counted w ((listen es).run w).2 loc sp ↔ Room w loc sp) ∧
    (((listen es).run w).2.session.events ≠ w.session.events ↔
      Holds w.answers sp e thread loc) := by
  have hrec := AgreedBooks.record_untraced L ho ht
  have hhead : es.events.head? = some e := by rw [hev]; rfl
  have hloc := h.placed e (by rw [hev]; exact List.mem_singleton.mpr rfl)
  have hrun : (try_record_trace es).run w = (false, w) := by
    unfold try_record_trace
    rw [hev]
    simp only [record_traced_events, run_bind, hrec, run_pure]
  have hlisten : (listen es).run w = (store_reportable_event es).run w := by
    rw [listen_plain (plain_of_placed h.placed), run_bind, hrun]
    rfl
  rw [hlisten]
  obtain ⟨hst, hspent⟩ := spent_stands (tallied w.answers loc sp)
  have hcount := (tallied_same w.answers loc sp).2.2.1
  exact ⟨(counted_iff (store_row hhead hloc ho) hst).trans
    (and_iff_left fun hc => hspent (hcount.symm ▸ hc)), store_files hhead hloc ho⟩

theorem late_untouched (L : Ledger False [] nothing w) (h : Reported w es thread loc)
    {first e : Event} (hhead : es.events.head? = some first)
    (ho : w.session.owner? e.request_id = some sp) (ht : sp.trace = false)
    (hne : w.session.owner? first.request_id ≠ w.session.owner? e.request_id) :
    ((listen es).run w).2.session.stop_points.get? sp.id = some sp := by
  obtain ⟨hmem, -⟩ := owner_some ho
  have hrows : sp ∈ ((try_record_trace es).run w).2.session.stop_points.rows := by
    rw [record_trace_session]
    exact walk_leaves_untraced es.events L hmem ht
  refine (Table.get?_eq_some _ _ _).mpr ⟨?_, rfl⟩
  rw [listen_plain (plain_of_placed h.placed), run_bind]
  split
  · exact hrows
  · exact (endures_store hhead (left_endures sp _) _ ⟨hrows, foreign L ho hne⟩).1

theorem not_counted {w' : World} (hv : w'.session.stop_points.get? sp.id = some sp) :
    ¬ Counted w w' loc sp := by
  rintro ⟨v, hv', hyes, hno, -⟩
  rw [hv, Option.some.injEq] at hv'
  subst hv'
  by_cases ha : accepts w loc sp
  · have := (hyes ha).1
    omega
  · obtain ⟨n, hn⟩ := discarded_some ha
    have := (hno ha).2
    rw [hn, Option.map_some, Option.some.injEq] at this
    omega

theorem uniform_of_orderless (L : Ledger False [] nothing w) (h : Reported w es thread loc)
    (hall : Orderless w es thread loc) : Uniform w es := by
  by_contra hmixed
  obtain ⟨hsome, hlen⟩ := not_or.mp hmixed
  simp only [not_forall] at hsome
  obtain ⟨e, he, sp, ho, ht⟩ := hsome
  have hl : (es.events.erase e ++ [e]).Perm es.events :=
    (List.perm_append_singleton e _).trans (List.perm_cons_erase he).symm
  have hrest : es.events.erase e ≠ [] := fun hnil => hlen (by
    rw [← hl.length_eq, hnil]
    rfl)
  obtain ⟨first, rest, hfirst⟩ := List.exists_cons_of_ne_nil hrest
  have hrep := h.perm hl
  have hne : w.session.owner? first.request_id ≠ w.session.owner? e.request_id := by
    have hpair := hrep.apart
    simp only [hfirst, List.cons_append] at hpair
    exact (List.pairwise_cons.mp hpair).1 e (List.mem_append_right _ (List.mem_singleton.mpr rfl))
  have hhead : (es.events.erase e ++ [e]).head? = some first := by
    rw [hfirst]
    rfl
  have hkept := late_untouched L hrep hhead ho (Bool.eq_false_iff.mpr ht) hne
  exact not_counted hkept ((hall _ hl).counted e
    (List.mem_append_right _ (List.mem_singleton.mpr rfl)) sp ho)

/-- Nothing stands in the way of the stop point's tally: it can grow, and the hit is not one that
turns the stop point off. -/
def Countable (w : World) (es : EventSet) (thread : ThreadId) (loc : Location) : Prop :=
  ∀ e ∈ es.events, ∀ sp, w.session.owner? e.request_id = some sp →
    Room w loc sp ∧ ¬ Exhausts w thread loc sp e

theorem Countable.perm (h : Countable w es thread loc) (hl : l.Perm es.events) :
    Countable w { es with events := l } thread loc :=
  fun e he => h e (hl.subset he)

/-- In one order, a uniform composite comes out right exactly when all its tallies can. -/
theorem outcome_iff (L : Ledger False [] nothing w) (h : Reported w es thread loc)
    (hu : Uniform w es) : Outcome w es thread loc ↔ Countable w es thread loc := by
  have htraced : (∀ e ∈ es.events, ∀ sp, w.session.owner? e.request_id = some sp →
      sp.trace = true) → (Outcome w es thread loc ↔ Countable w es thread loc) := by
    intro ht
    obtain ⟨hcount, hfiled⟩ := traced_outcome L h ht
    refine ⟨fun hout e he sp ho => (hcount e he sp ho).mp (hout.counted e he sp ho),
      fun hc => ⟨fun e he sp ho => (hcount e he sp ho).mpr (hc e he sp ho), ?_⟩⟩
    refine ⟨fun hne => absurd hfiled hne, ?_⟩
    rintro ⟨e, he, sp, ho, hsuspending, -⟩
    rw [ht e he sp ho] at hsuspending
    cases hsuspending
  rcases hu with ht | hlen
  · exact htraced ht
  obtain ⟨e, hev⟩ := List.length_eq_one_iff.mp hlen
  have hmem : ∀ {e'}, e' ∈ es.events → e' = e := by
    intro e' he'
    rw [hev] at he'
    exact List.mem_singleton.mp he'
  have he : e ∈ es.events := by
    rw [hev]
    exact List.mem_singleton.mpr rfl
  obtain ⟨sp, ho⟩ := Option.isSome_iff_exists.mp (h.owned e he)
  have hsp : ∀ {p}, w.session.owner? e.request_id = some p → p = sp := fun hp =>
    Option.some.inj (hp.symm.trans ho)
  by_cases ht : sp.trace = true
  · refine htraced fun e' he' p hp => ?_
    rw [hmem he'] at hp
    rw [hsp hp]
    exact ht
  have hoff : sp.trace = false := Bool.eq_false_iff.mpr ht
  obtain ⟨hcount, hfiled⟩ := single_outcome L h hev ho hoff
  refine ⟨fun hout e' he' p hp => ?_, fun hc => ⟨fun e' he' p hp => ?_, ?_⟩⟩
  · obtain rfl := hmem he'
    rw [hsp hp]
    exact ⟨hcount.mp (hout.counted e' he sp ho), fun hx => ht hx.1⟩
  · obtain rfl := hmem he'
    rw [hsp hp]
    exact hcount.mpr (hc e' he sp ho).1
  · rw [hfiled]
    refine ⟨fun hh => ⟨e, he, sp, ho, hoff, hh⟩, ?_⟩
    rintro ⟨e', he', p, hp, -, hh⟩
    obtain rfl := hmem he'
    rw [hsp hp] at hh
    exact hh

/-- The world in which the listener takes a composite off the queue, `rest` being behind it. -/
def taken (w : World) (rest : List EventSet) (b : Answers) : World :=
  { w with queue := rest }.begin b

theorem taken_ledger (rest : List EventSet) (b : Answers) (L : Ledger False [] nothing w) :
    Ledger False [] nothing (taken w rest b) :=
  ⟨L.named, L.shaped, L.custody, L.lasting, False.elim⟩

/-- The order does not matter, and every member gets its due, exactly when the composite is
uniform and its tallies can grow. -/
theorem orderless_iff {ok : World → Move → Prop} {threads : List ThreadId} {a : Answers}
    (hrun : Run ok (World.start threads a) w) (rest : List EventSet) (b : Answers)
    (h : Reported (taken w rest b) es thread loc) :
    Orderless (taken w rest b) es thread loc ↔
      Uniform (taken w rest b) es ∧ Countable (taken w rest b) es thread loc := by
  have L := taken_ledger rest b (run_ledger hrun)
  refine ⟨fun hall => ?_, fun ⟨hu, hc⟩ l hl => ?_⟩
  · have hu := uniform_of_orderless L h hall
    exact ⟨hu, (outcome_iff L h hu).mp (hall es.events (List.Perm.refl _))⟩
  · exact (outcome_iff L (h.perm hl) (hu.perm hl)).mpr (hc.perm hl)

/-- Two stops on one line, traced or not, in a VM of one thread. -/
def line_pair (first second : Bool) : World :=
  let arm := fun trace => Move.call (.set_line_stop ["A"] (some 10) none
    { plain_options none with trace := trace } [] 1) plain
  (arm second).next ((arm first).next (World.start [1] plain))

/-- One hit of both. -/
def pair_hit (policy : SuspendPolicy) : EventSet :=
  ⟨policy, [⟨2, .breakpoint 1 ⟨1, 1, 0⟩⟩, ⟨4, .breakpoint 1 ⟨1, 1, 0⟩⟩]⟩

/-- The debuggee has sent the hit. -/
def pair_fired (second : Bool) (policy : SuspendPolicy) : World :=
  World.fire (line_pair true second) (pair_hit policy) 1

theorem pair_run {second : Bool} {policy : SuspendPolicy}
    (hfires : Fires (line_pair true second).jvm (pair_hit policy) 1) :
    Run (fun _ _ => True) (World.start [1] plain) (pair_fired second policy) := by
  have hpair : Run (fun _ _ => True) (World.start [1] plain) (line_pair true second) :=
    Relation.ReflTransGen.tail
      (Relation.ReflTransGen.single (Step.intro (.call _ plain) trivial trivial))
      (Step.intro (.call _ plain) trivial trivial)
  exact hpair.tail (Step.intro (.fire (pair_hit policy) 1) hfires trivial)

theorem owned_row {w : World} {es : EventSet} {t : ThreadId} {rest : List EventSet} {b : Answers}
    {id : RequestId} {sp : StopPoint}
    (h : (taken (World.fire w es t) rest b).session.owner? id = some sp) :
    sp ∈ w.session.stop_points.rows :=
  (owner_some h).1

theorem pair_reported {w : World} {policy : SuspendPolicy}
    (howned : ∀ e ∈ (pair_hit policy).events, (w.session.owner? e.request_id).isSome)
    (hne : w.session.owner? 2 ≠ w.session.owner? 4)
    (hplain : ∀ sp ∈ w.session.stop_points.rows, sp.hit_count = none) :
    Reported (taken (World.fire w (pair_hit policy) 1) [] plain) (pair_hit policy) 1
      ⟨1, 1, 0⟩ := by
  refine ⟨List.cons_ne_nil _ _, fun e he => ?_, howned, ?_, fun e _ sp ho hc => ?_⟩
  · simp only [pair_hit, List.mem_cons, List.not_mem_nil, or_false] at he
    rcases he with rfl | rfl
    · rfl
    · rfl
  · refine List.pairwise_cons.mpr ⟨fun e he => ?_, List.pairwise_singleton _ _⟩
    obtain rfl := List.mem_singleton.mp he
    exact hne
  · rw [hplain sp (owned_row ho)] at hc
    cases hc

theorem orderless_iff_traced_pair :
    Orderless (taken (pair_fired true .eventThread) [] plain) (pair_hit .eventThread) 1
      ⟨1, 1, 0⟩ := by
  have hrows : ∀ sp ∈ (line_pair true true).session.stop_points.rows,
      sp.trace = true ∧ sp.hit_count = none ∧ sp.hits = 0 ∧ discarded sp = none := by
    decide +kernel
  have hreported := @pair_reported (line_pair true true) .eventThread (by decide +kernel)
    (by decide +kernel)
    fun sp hsp => (hrows sp hsp).2.1
  refine (orderless_iff (pair_run (by decide +kernel)) [] plain hreported).mpr ⟨Or.inl ?_, ?_⟩
  · intro e _ sp ho
    exact (hrows sp (owned_row ho)).1
  · intro e _ sp ho
    obtain ⟨-, hcount, hhits, hdis⟩ := hrows sp (owned_row ho)
    refine ⟨⟨fun _ => ?_, fun _ n hn => ?_⟩, fun hx => ?_⟩
    · rw [hhits]
      decide
    · rw [hdis] at hn
      cases hn
    · have hc := hx.2.1
      rw [hcount] at hc
      cases hc

/-- The tracing stop is hit first: the suspending one gets no tally. -/
theorem mixed_pair_not_orderless : ¬ ∀ (threads : List ThreadId) (a b : Answers) (w : World)
    (rest : List EventSet) (es : EventSet) (thread : ThreadId) (loc : Location),
    Run (fun _ _ => True) (World.start threads a) w → w.queue = es :: rest →
      Reported (taken w rest b) es thread loc → Orderless (taken w rest b) es thread loc := by
  intro h
  have hrun := @pair_run false .all (by decide +kernel)
  have hreported := @pair_reported (line_pair true false) .all (by decide +kernel)
    (by decide +kernel) (by decide +kernel)
  have hall := h [1] plain plain _ [] (pair_hit .all) 1 ⟨1, 1, 0⟩ hrun rfl hreported
  have huniform := uniform_of_orderless (taken_ledger [] plain (run_ledger hrun)) hreported hall
  rcases huniform with htraced | hlen
  · have hsome : ∃ sp, (line_pair true false).session.owner? 4 = some sp ∧ sp.trace = false :=
      ⟨_, rfl, rfl⟩
    obtain ⟨sp, ho, hoff⟩ := hsome
    have ht := htraced ⟨4, .breakpoint 1 ⟨1, 1, 0⟩⟩ (by decide) sp ho
    rw [hoff] at ht
    cases ht
  · cases hlen

end Orders

end JavaDebug.CompositeOrder
