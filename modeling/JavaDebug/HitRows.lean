import JavaDebug.CompositeOrder

/-!
The record of a stop point after one hit, exactly. A kept hit lowers the trace
budget; the one that uses it up disables the stop point, and takes its requests
off the books before a counted one is spent. Any other hit of a counted stop
point spends it. No other record changes, and the ring gets one snapshot or none.
-/
namespace JavaDebug.HitRows

open Jdwp StopPoints Session Wire Disarming
open Hits Rearming StateProgram Ownership
open Withdrawing HitEffects AgreedBooks
open HitWalks CompositeOrder

/-- A composite of one event, at a location. -/
structure Hit where
  policy : SuspendPolicy
  event : Event
  thread : ThreadId
  loc : Location
  placed : event_location event.details = some (thread, loc)

def Hit.composite (h : Hit) : EventSet := ⟨h.policy, [h.event]⟩

def spent_if (q : StopPoint) : StopPoint := if q.hit_count.isSome then set_spent q else q

def charged (q : StopPoint) : StopPoint :=
  if q.trace_budget.map (fun n => n - 1) = some 0 then set_disabled (lower_budget q)
  else spent_if (lower_budget q)

/-- What a hit leaves of a tallied record. -/
def settled (kept : Bool) (q : StopPoint) : StopPoint := if kept then charged q else spent_if q

/-- How the ring files the hit: a first throw, or a fold into an earlier one. -/
def filing (w : World) (h : Hit) (sp : StopPoint) : ThrowKind × TraceBuffer :=
  w.session.traces.push sp.id h.event.request_id h.thread (exception_instance h.event.details)

/-- The hit is recorded, as a snapshot of its own. -/
def keeps (w : World) (h : Hit) (sp : StopPoint) : Bool :=
  sp.trace && !skips w.answers sp h.thread h.loc h.event.details &&
    decide ((filing w h sp).1 = .first)

section Rows

variable {hand : List Handle} {gone : Handle → Prop} {w : World} {r : RequestId}
  {sp q : StopPoint} {h : Hit}

theorem record_settles (L : Ledger False hand gone w)
    (ho : w.session.owner? h.event.request_id = some sp) (ht : sp.trace = true) :
    ((record_one_traced_event h.event).run w).2.session.stop_points.get? sp.id =
      some (settled (keeps w h sp) (tallied w.answers h.loc sp)) := by
  obtain ⟨L1, ho1⟩ := tally_owner_spec L ho w.answers h.loc
  rw [record_found (find_traced L ho ht) h.placed]
  have hrow := file_row w.session.traces sp.id h.thread (exception_instance h.event.details) L1
    ho1 (skips w.answers sp h.thread h.loc h.event.details)
  rw [(tallied_same w.answers h.loc sp).1] at hrow
  unfold keeps filing
  rw [ht, Bool.true_and]
  exact hrow

theorem store_settles (ho : w.session.owner? h.event.request_id = some sp) :
    ((store_reportable_event h.composite).run w).2.session.stop_points.get? sp.id =
      some (spent_if (tallied w.answers h.loc sp)) :=
  store_row (e := h.event) rfl h.placed ho

/-- The listener reports a hit when it recorded none of it. -/
theorem listen_hit (h : Hit) (w : World) :
    ((listen h.composite).run w).2.session =
      if ((record_one_traced_event h.event).run w).1.isSome then
        ((record_one_traced_event h.event).run w).2.session
      else ((store_reportable_event h.composite).run
        ((record_one_traced_event h.event).run w).2).2.session := by
  have hplaced : ∀ e ∈ h.composite.events, event_location e.details = some (h.thread, h.loc) := by
    intro e he
    rw [List.mem_singleton.mp he]
    exact h.placed
  rw [listen_plain (plain_of_placed hplaced), run_bind]
  unfold try_record_trace
  simp only [Hit.composite, record_traced_events, run_bind]
  generalize (record_one_traced_event h.event).run w = res
  obtain ⟨thread, u⟩ := res
  cases thread with
  | none => rfl
  | some t =>
    simp only [run_pure, List.isEmpty_cons, Bool.not_false, run_bind, resume_thread, perform_run]
    cases u.refuses (.resume_thread t) <;> rfl

theorem hit_row (L : Ledger False [] nothing w) (ho : w.session.owner? h.event.request_id = some sp)
    :
    ((listen h.composite).run w).2.session.stop_points.get? sp.id =
      some (settled (keeps w h sp) (tallied w.answers h.loc sp)) := by
  rw [listen_hit]
  by_cases ht : sp.trace = true
  · rw [(record_row L ho ht h.placed).1]
    exact record_settles L ho ht
  · have hoff : sp.trace = false := Bool.eq_false_iff.mpr ht
    rw [AgreedBooks.record_untraced L ho hoff]
    refine (store_settles ho).trans ?_
    unfold keeps settled
    rw [hoff]
    rfl

end Rows

section Others

variable {w : World} {r : RequestId} {id : StopId} {x : Option StopPoint} {h : Hit}

/-- The record under `id` is `x`, which does not own `r`. -/
def Stays (id : StopId) (x : Option StopPoint) (r : RequestId) (w : World) : Prop :=
  w.session.stop_points.get? id = x ∧ ∀ v, x = some v → r ∉ v.request_ids

theorem stays_endures (id : StopId) (x : Option StopPoint) (r : RequestId) :
    Endures (Stays id x r) r := by
  refine ⟨fun hs h => ?_, fun {w sp f} hf _ ho h => ⟨?_, h.2⟩⟩
  · unfold Stays
    rw [hs]
    exact h
  · have hne : id ≠ sp.id := fun hid => by
      have hget := get_of_owner ho
      rw [← hid, h.1] at hget
      exact h.2 sp hget (owner_some ho).2
    exact (others_edit w.session sp.id f hf hne).trans h.1

theorem hit_others (L : Ledger False [] nothing w)
    (hne : ∀ sp, w.session.owner? h.event.request_id = some sp → sp.id ≠ id) :
    ((listen h.composite).run w).2.session.stop_points.get? id =
      w.session.stop_points.get? id := by
  have hstart : Stays id (w.session.stop_points.get? id) h.event.request_id w := by
    refine ⟨rfl, fun v hv hr => ?_⟩
    obtain ⟨hmem, hid⟩ := (Table.get?_eq_some _ _ _).mp hv
    exact hne v (owner_eq L hmem hr) hid
  have hend := stays_endures id (w.session.stop_points.get? id) h.event.request_id
  have hrec := endures_record hend w hstart
  rw [listen_hit]
  split
  · exact hrec.1
  · exact (endures_store rfl hend _ hrec).1

end Others

section Filed

variable {hand : List Handle} {gone : Handle → Prop} {w : World} {sp : StopPoint} {h : Hit}

/-- The records of the ring, and how many were ever filed. -/
def ring (w : World) : ℕ × List TraceRecord := (w.session.traces.filed, w.session.traces.held)

theorem ring_note (b : TraceBuffer) (id : StopId) :
    ((b.note_disarm id).filed, (b.note_disarm id).held) = (b.filed, b.held) := by
  unfold TraceBuffer.note_disarm
  split
  · rfl
  · split <;> rfl

theorem ring_edit_owner (r : RequestId) (f : StopPoint → StopPoint) (hf : ∀ sp, (f sp).id = sp.id) :
    Keeps ring (edit_owner r f hf) :=
  traces_edit_owner (fun b => (b.filed, b.held)) r f hf

theorem ring_charge (r : RequestId) : Keeps ring (charge_trace_budget r) :=
  traces_charge (fun b => (b.filed, b.held)) ring_note r

theorem ring_spend (r : RequestId) : Keeps ring (spend_if_counted r) :=
  traces_spend (fun b => (b.filed, b.held)) r

theorem ring_perform (c : Command) (f : Jvm → Jvm) : Keeps ring (perform c f) := by
  intro w
  rw [perform_run]
  cases w.refuses c <;> rfl

theorem ring_send (c : Command) : Keeps ring (send c) := by
  intro w
  rw [send_run]
  rfl

theorem ring_escalate (thread : ThreadId) : Keeps ring (escalate_to_vm_suspend thread) :=
  Keeps.of_preserves fun t => escalate_preserves ((ring_perform _ _).preserves t)
    (Preserves.bind ((ring_send _).preserves t) fun r => by
      cases r with
      | error e => exact Preserves.pure _
      | ok _ => exact Preserves.get_bind fun _ _ => Preserves.pure _)
    (fun u => Keeps.preserves (fun w => by
      rw [suspend_count_run]
      cases w.refuses (.suspend_count u) <;> rfl) t) thread

theorem ring_release (thread : ThreadId) (only : Bool) :
    Keeps ring (release_dropped_hit thread only) :=
  Keeps.of_preserves fun t => release_preserves (fun _ => (ring_perform _ _).preserves t)
    ((ring_perform _ _).preserves t) thread only

theorem ring_judge (e : Event) (thread : ThreadId) (loc : Location) (only : Bool) :
    Keeps ring (judge_hit e thread loc only) :=
  Keeps.of_preserves fun t => judge_preserves ((ring_edit_owner _ _ _).preserves t)
    ((ring_edit_owner _ _ _).preserves t) (fun _ _ => (ring_release _ _).preserves t)
    (fun _ => (ring_escalate _).preserves t) thread loc only

theorem ring_surface (es : EventSet) (escalation : Option FailedEscalation) :
    Keeps ring (surface es escalation) :=
  Keeps.of_preserves fun t => surface_preserves (fun _ _ _ _ h => h) (fun _ h => h)
    (fun c => (ring_send c).preserves t) es escalation

theorem ring_store (h : Hit) : Keeps ring (store_reportable_event h.composite) := by
  rw [store_located (e := h.event) rfl h.placed]
  refine Keeps.bind (ring_judge _ _ _ _) fun judged => ?_
  unfold conclude
  split
  · exact ring_spend _
  · exact Keeps.bind (ring_surface _ _) fun _ => ring_spend _

theorem ring_file (traces : TraceBuffer) (id : StopId) (r : RequestId) (thread : ThreadId)
    (exception : Option ObjectId) (skipped : Bool) (w : World) :
    ring ((file_hit traces id r thread exception skipped).run w).2 =
      if skipped then ring w
      else ((traces.push id r thread exception).2.filed,
        (traces.push id r thread exception).2.held) := by
  have hspend : Keeps ring
      (spend_if_counted r >>= fun _ => (pure (some thread) : Handler (Option ThreadId))) :=
    Keeps.bind (ring_spend r) fun _ => Keeps.pure _
  cases skipped with
  | true =>
    rw [file_skipped]
    exact hspend w
  | false =>
    rw [file_kept, run_bind, edit_run]
    exact Keeps.bind (Keeps.ite (ring_charge r) (Keeps.pure _)) (fun _ => hspend)
      { w with session := { w.session with traces := (traces.push id r thread exception).2 } }

theorem push_newest (b : TraceBuffer) (id : StopId) (r : RequestId) (thread : ThreadId)
    (exception : Option ObjectId) :
    (b.push id r thread exception).2.filed = b.filed + 1 ∧
    (b.push id r thread exception).2.held.getLast? =
      some ⟨b.filed + 1, id, thread, (b.push id r thread exception).1.fold⟩ := by
  refine ⟨?_, List.getLast?_concat⟩
  unfold TraceBuffer.push TraceBuffer.classify_throw
  cases exception with
  | none => rfl
  | some exc =>
    dsimp only
    cases b.rethrow_chains.get? (r, thread, exc) <;> rfl

theorem fold_none (k : ThrowKind) : k.fold.isNone = decide (k = .first) := by
  cases k with
  | first => rfl
  | rethrow fold supersedes =>
    refine (decide_eq_false ?_).symm
    rintro ⟨⟩

/-- The newest record was filed in between, by `id`, and is no fold. -/
def snapshot_taken (w w' : World) (id : StopId) : Bool :=
  decide (w.session.traces.filed < w'.session.traces.filed) &&
    w'.session.traces.held.getLast?.any fun r => decide (r.bp_id = id) && r.rethrow.isNone

theorem taken_ring {w w' : World} (id : StopId) (b : TraceBuffer) (hr : ring w' = (b.filed, b.held))
    : snapshot_taken w w' id =
      (decide (w.session.traces.filed < b.filed) &&
        b.held.getLast?.any fun r => decide (r.bp_id = id) && r.rethrow.isNone) := by
  obtain ⟨hf, hh⟩ := Prod.mk.inj hr
  unfold snapshot_taken
  rw [hf, hh]

theorem taken_quiet {w w' : World} (hr : ring w' = ring w) (id : StopId) :
    snapshot_taken w w' id = false := by
  rw [taken_ring id w.session.traces hr, decide_eq_false (lt_irrefl _)]
  rfl

theorem taken_pushed {w w' : World} (bp_id id : StopId) (r : RequestId) (thread : ThreadId)
    (exception : Option ObjectId)
    (hr : ring w' = ((w.session.traces.push bp_id r thread exception).2.filed,
      (w.session.traces.push bp_id r thread exception).2.held)) :
    snapshot_taken w w' id = (decide (bp_id = id) &&
      decide ((w.session.traces.push bp_id r thread exception).1 = .first)) := by
  obtain ⟨hf, hh⟩ := push_newest w.session.traces bp_id r thread exception
  rw [taken_ring id _ hr, hf, hh, decide_eq_true (Nat.lt_succ_self _), Option.any_some, fold_none]
  rfl

theorem record_unowned (ho : w.session.owner? h.event.request_id = none) :
    (record_one_traced_event h.event).run w =
      (if w.session.was_traced_and_disarmed h.event.request_id then some h.thread else none,
        w) := by
  rw [record_unfound (find_traced_none ho), h.placed, Option.map_some]

/-- A hit leaves a snapshot of its owner alone, and only when it is kept. -/
theorem hit_snapshot (L : Ledger False [] nothing w) (id : StopId) :
    snapshot_taken w ((listen h.composite).run w).2 id =
      (w.session.owner? h.event.request_id).any fun sp =>
        decide (sp.id = id) && keeps w h sp := by
  have hquiet : ∀ {t : Option ThreadId},
      (record_one_traced_event h.event).run w = (t, w) →
      snapshot_taken w ((listen h.composite).run w).2 id = false := by
    intro t hrec
    refine taken_quiet ?_ id
    have hs := listen_hit h w
    unfold ring
    rw [hs, hrec]
    split
    · rfl
    · exact ring_store h w
  cases ho : w.session.owner? h.event.request_id with
  | none => exact hquiet (record_unowned ho)
  | some sp =>
    rw [Option.any_some]
    by_cases ht : sp.trace = true
    · have hs : ring ((listen h.composite).run w).2 =
          ring ((record_one_traced_event h.event).run w).2 := by
        unfold ring
        rw [listen_hit, (record_row L ho ht h.placed).1]
        rfl
      rw [record_found (find_traced L ho ht) h.placed, ring_file] at hs
      unfold keeps
      rw [ht, Bool.true_and]
      cases hskip : skips w.answers sp h.thread h.loc h.event.details with
      | true =>
        rw [hskip, if_pos rfl] at hs
        rw [taken_quiet (hs.trans ?_) id, Bool.not_true, Bool.false_and, Bool.and_false]
        split <;> exact ring_edit_owner _ _ _ _
      | false =>
        rw [hskip, if_neg Bool.false_ne_true] at hs
        rw [taken_pushed sp.id id h.event.request_id h.thread
          (exception_instance h.event.details) hs, Bool.not_false, Bool.true_and]
        rfl
    · have hoff : sp.trace = false := Bool.eq_false_iff.mpr ht
      rw [hquiet (AgreedBooks.record_untraced L ho hoff)]
      unfold keeps
      simp [hoff]

end Filed

end JavaDebug.HitRows
