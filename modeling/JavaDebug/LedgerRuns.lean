import JavaDebug.ClassLoads
import JavaDebug.HitWalks
import JavaDebug.Resuming

/-!
The ledger along whole runs. A hit changes tallies, may use up a trace budget,
and spends a counted stop point; a resume path clears the pending step; the
watchdog disarms what it holds responsible. Without conditions the ledger
survives every move. A strict session needs one for each place where the code
clears a request the debuggee may have deleted, or loses one that is live.
-/
namespace JavaDebug.LedgerRuns

open Jdwp StopPoints Session Wire Disarming
open Hits Rearming Resuming StateProgram
open Runs Ownership Withdrawing Granting
open Renewing ClassLoads HitWalks

variable {strict : Prop} {hand : List Handle} {gone : Handle → Prop} {w w' : World}

section Neutral

/-- The requests and their records, and what the books say is held. -/
def bench (w : World) : Shelf × Suspensions := (shelf w, w.session.suspensions)

theorem perform_bench (c : Command) {f : Jvm → Jvm} (hreq : ∀ j, (f j).requests = j.requests)
    (hnext : ∀ j, (f j).next_request = j.next_request)
    (hstray : ∀ j, (f j).stray_clears = j.stray_clears) : Keeps bench (perform c f) := by
  intro w
  rw [perform_run]
  cases w.refuses c with
  | some e => rfl
  | none => simp only [bench, shelf, World.log, hreq, hnext, hstray]

theorem send_bench (c : Command) : Keeps bench (send c) := by
  intro w
  rw [send_run]
  rfl

theorem suspend_all_bench : Keeps bench suspend_all :=
  perform_bench _ (fun _ => rfl) (fun _ => rfl) fun _ => rfl

theorem resume_all_bench : Keeps bench resume_all :=
  perform_bench _ (fun _ => rfl) (fun _ => rfl) fun _ => rfl

variable (t : ThreadId)

theorem suspend_thread_bench : Keeps bench (suspend_thread t) :=
  perform_bench _ (fun _ => rfl) (fun _ => rfl) fun _ => rfl

theorem resume_thread_bench : Keeps bench (resume_thread t) :=
  perform_bench _ (fun _ => rfl) (fun _ => rfl) fun _ => rfl

theorem suspend_count_bench : Keeps bench (suspend_count t) := by
  intro w
  rw [suspend_count_run]
  cases w.refuses (.suspend_count t) <;> rfl

theorem count_or_zero_bench : Keeps bench (suspend_count_or_zero t) := by
  refine Keeps.bind (suspend_count_bench t) fun r => ?_
  cases r <;> exact Keeps.pure _

theorem all_threads_bench : Keeps bench get_all_threads := by
  refine Keeps.bind (send_bench _) fun r => ?_
  cases r with
  | error e => exact Keeps.pure _
  | ok _ => exact Keeps.bind Keeps.get fun _ => Keeps.pure _

theorem thread_status_bench : Keeps bench (get_thread_status t) := by
  refine Keeps.bind (send_bench _) fun r => ?_
  cases r with
  | error e => exact Keeps.pure _
  | ok _ =>
    refine Keeps.bind Keeps.get fun w => ?_
    exact Keeps.ite (Keeps.pure _) (Keeps.ite (Keeps.pure _) (Keeps.pure _))

theorem now_bench : Keeps bench now := fun _ => rfl

theorem resume_fully_bench (probe : ThreadId) (issued attempts : ℕ) :
    Keeps bench (resume_all_fully probe issued attempts) := by
  induction attempts generalizing issued with
  | zero => exact Keeps.bind (count_or_zero_bench probe) fun _ => Keeps.pure _
  | succ n ih =>
    refine Keeps.bind resume_all_bench fun r => ?_
    cases r with
    | error e => exact Keeps.pure _
    | ok _ => exact Keeps.bind (count_or_zero_bench probe) fun _ => Keeps.ite (Keeps.pure _) (ih _)

theorem resume_and_verify_bench : Keeps bench resume_and_verify := by
  refine Keeps.bind Keeps.get fun w => ?_
  split
  · refine Keeps.bind resume_all_bench fun r => ?_
    cases r <;> exact Keeps.pure _
  · refine Keeps.bind (resume_fully_bench _ _ _) fun r => ?_
    split
    · exact Keeps.pure _
    · exact Keeps.ite (Keeps.pure _) (Keeps.ite (Keeps.pure _) (Keeps.pure _))

theorem bench_shelf {α : Type} {m : Handler α} (h : Keeps bench m) : Keeps shelf m :=
  fun w => congrArg Prod.fst (h w)

/-- What leaves the requests and their records alone leaves the ledger alone. -/
theorem shelf_ledger {α : Type} {m : Handler α} (h : Keeps shelf m) :
    Preserves (Ledger strict hand gone) m := fun w L => L.of_shelf (h w)

theorem bench_ledger {α : Type} {m : Handler α} (h : Keeps bench m) :
    Preserves (Ledger strict hand gone) m := shelf_ledger (bench_shelf h)

theorem edit_ledger {f : DebugSession → DebugSession}
    (h : ∀ w : World, shelf { w with session := f w.session } = shelf w) :
    Preserves (Ledger strict hand gone) (edit f) := fun _ L => L.of_shelf (h _)

theorem books_shelf (f : Suspensions → Suspensions) : Keeps shelf (edit_suspensions f) :=
  fun _ => rfl

theorem verify_threads_shelf (ids : List ThreadId) : Keeps shelf (verify_threads ids) := by
  induction ids with
  | nil => exact Keeps.pure _
  | cons t rest ih =>
    refine Keeps.bind (bench_shelf (count_or_zero_bench t)) fun left => ?_
    split
    · exact Keeps.bind (books_shelf _) fun _ => Keeps.bind ih fun _ => Keeps.pure _
    · exact Keeps.bind ih fun _ => Keeps.pure _

theorem until_zero_shelf (left attempts : ℕ) : Keeps shelf (resume_until_zero t left attempts) := by
  induction attempts generalizing left with
  | zero => exact Keeps.pure _
  | succ n ih =>
    unfold resume_until_zero
    split
    · exact Keeps.pure _
    · refine Keeps.bind (bench_shelf (resume_thread_bench t)) fun r => ?_
      cases r with
      | error e => exact Keeps.pure _
      | ok _ => exact Keeps.bind (bench_shelf (count_or_zero_bench t)) fun left => ih left

theorem release_suspends_shelf (only : Option (List ThreadId)) :
    Keeps shelf (release_thread_suspends only) := by
  have hthreads : ∀ ids, Keeps shelf (release_threads ids) := fun ids => by
    induction ids with
    | nil => exact Keeps.pure _
    | cons t rest ih =>
      refine Keeps.bind (bench_shelf (count_or_zero_bench t)) fun _ =>
        Keeps.bind (until_zero_shelf t _ _) fun left => ?_
      split
      · exact Keeps.bind (books_shelf _) fun _ => Keeps.bind ih fun _ => Keeps.pure _
      · exact Keeps.bind ih fun _ => Keeps.pure _
  exact Keeps.bind Keeps.get fun _ => hthreads _

theorem pause_shelf : Keeps shelf handle_pause := by
  refine Keeps.bind Keeps.get fun w => ?_
  split
  · exact Keeps.pure _
  · refine Keeps.bind (bench_shelf suspend_all_bench) fun r => ?_
    cases r with
    | error e => exact Keeps.pure _
    | ok _ => exact Keeps.bind (bench_shelf now_bench) fun _ =>
        Keeps.bind (books_shelf _) fun _ => Keeps.pure _

theorem classify_shelf : Keeps shelf (classify_thread t) := by
  refine Keeps.bind (bench_shelf (thread_status_bench t)) fun r => ?_
  split <;> exact Keeps.pure _

theorem suspend_one_shelf : Keeps shelf (handle_suspend_thread t) := by
  refine Keeps.bind (bench_shelf (send_bench _)) fun _ =>
    Keeps.bind (classify_shelf t) fun r => ?_
  split
  case h_4 =>
    refine Keeps.bind (bench_shelf (suspend_thread_bench t)) fun r => ?_
    cases r with
    | error e => exact Keeps.pure _
    | ok _ => exact Keeps.bind (bench_shelf (suspend_count_bench t)) fun _ =>
        Keeps.bind (bench_shelf now_bench) fun _ => Keeps.bind (books_shelf _) fun _ =>
          Keeps.pure _
  all_goals exact Keeps.pure _

theorem dump_shelf (suspend : Bool) : Keeps shelf (handle_thread_dump suspend) := by
  refine Keeps.bind (bench_shelf all_threads_bench) fun r => ?_
  cases r with
  | error e => exact Keeps.pure _
  | ok all =>
    dsimp only
    split
    · exact Keeps.pure _
    · refine Keeps.bind Keeps.get fun w => ?_
      split
      · exact Keeps.pure _
      · refine Keeps.bind (bench_shelf suspend_all_bench) fun r => ?_
        cases r with
        | error e => exact Keeps.pure _
        | ok _ =>
          refine Keeps.bind (bench_shelf now_bench) fun _ => Keeps.bind (books_shelf _) fun _ =>
            Keeps.bind Keeps.get fun w => Keeps.bind (bench_shelf (resume_fully_bench _ _ _))
              fun r => ?_
          split
          · exact Keeps.pure _
          · exact Keeps.bind (books_shelf _) fun _ => Keeps.pure _
          · exact Keeps.pure _

section Steps

variable {P : World → Prop} (hshelf : ∀ {α : Type} {m : Handler α}, Keeps shelf m → Preserves P m)

include hshelf

theorem continue_preserves (hstep : Preserves P clear_pending_step) :
    Preserves P handle_continue := by
  refine Preserves.bind hstep fun _ =>
    Preserves.bind (hshelf (bench_shelf resume_and_verify_bench)) fun r => ?_
  cases r with
  | error e => exact Preserves.pure _
  | ok note =>
    refine Preserves.bind (hshelf (books_shelf _)) fun _ => Preserves.bind ?_ fun _ =>
      Preserves.pure _
    exact Preserves.get_bind fun _ _ => hshelf (verify_threads_shelf _)

theorem resume_one_preserves (hdrop : ∀ t, Preserves P (drop_step_of t))
    (thread_id : Option ThreadId) : Preserves P (handle_resume_thread thread_id) := by
  refine Preserves.get_bind fun w _ => ?_
  split
  · exact Preserves.pure _
  · rename_i tid _
    have hone : Preserves P (resume_one_thread tid) := by
      refine Preserves.bind (hdrop tid) fun _ =>
        Preserves.bind (hshelf (bench_shelf (resume_thread_bench tid))) fun r => ?_
      cases r with
      | error e => exact Preserves.pure _
      | ok _ => exact Preserves.bind (hshelf (bench_shelf (count_or_zero_bench tid))) fun _ =>
          Preserves.bind (hshelf (books_shelf _)) fun _ => Preserves.pure _
    have hgone : Preserves P (do
        let held := ((← get).session.suspensions.threads.get? tid).isSome
        edit_suspensions fun s => s.forget_thread tid
        pure (.error (.gone held) : Except ThreadFailure ThreadResumeReply)) :=
      Preserves.get_bind fun _ _ => Preserves.bind (hshelf (books_shelf _)) fun _ =>
        Preserves.pure _
    refine Preserves.bind (hshelf (classify_shelf tid)) fun r => ?_
    split
    · exact hgone
    · exact hgone
    · exact hone
    · exact hone

end Steps

end Neutral

section Hits

/-- What spending and disarming a request look at. -/
def spending (req : RequestId) (w : World) :
    Option (Option ℕ × List RequestId × EventCode) × List Handle :=
  ((w.session.owner? req).map fun sp => (sp.hit_count, sp.request_ids, sp.armed_on.code),
    live w.jvm)

/-- A tally of a stop point changes; its requests, and what they are for, stay. -/
structure Tally (f : StopPoint → StopPoint) : Prop where
  id : ∀ sp, (f sp).id = sp.id
  ids : ∀ sp, (f sp).request_ids = sp.request_ids
  code : ∀ sp, (f sp).armed_on.code = sp.armed_on.code
  kind : ∀ sp, (f sp).kind = sp.kind
  watch : ∀ sp, (f sp).watch_request = sp.watch_request
  enabled : ∀ sp, (f sp).enabled = sp.enabled
  spent : ∀ sp, (f sp).spent = sp.spent
  count : ∀ sp, (f sp).hit_count = sp.hit_count

theorem tally_hit : Tally add_hit := by
  constructor <;> intro sp <;> rfl

theorem tally_budget : Tally lower_budget := by
  constructor <;> intro sp <;> rfl

theorem tally_discarded : Tally add_discarded := by
  refine ⟨add_discarded_id, ?_, ?_, ?_, ?_, ?_, ?_, ?_⟩ <;> intro sp <;> unfold add_discarded <;>
    split <;> simp_all [ArmedOn.code, StopPoint.kind, ArmedOn.kind, StopPoint.watch_request,
      StopPoint.line]

namespace Tally

variable {f : StopPoint → StopPoint}

theorem handles_eq (h : Tally f) (sp : StopPoint) : handles (f sp) = handles sp := by
  simp only [handles, hit_handles, h.ids, h.code, h.watch]

theorem shaped (h : Tally f) {sp : StopPoint} (hsp : Shaped sp) : Shaped (f sp) := by
  refine ⟨fun hoff => ?_, fun hs => ?_, fun hk => ?_⟩
  · rw [h.ids]
    exact hsp.off ((h.enabled sp).symm.trans hoff)
  · rw [h.enabled]
    exact hsp.spent ((h.spent sp).symm.trans hs)
  · rw [h.ids]
    exact hsp.single ((h.kind sp) ▸ hk)

theorem ledger (h : Tally f) (L : Ledger strict hand gone w) (id : StopId) :
    Ledger strict hand gone { w with session := w.session.edit_stop_point id f h.id } := by
  cases hsp : w.session.stop_points.get? id with
  | none =>
    rw [edit_absent _ hsp]
    exact L
  | some sp =>
    refine L.shift (named_edit L.named h.watch) (shaped_edit L.shaped fun v hv _ =>
      h.shaped (L.shaped v hv)) (fun x => ?_) fun _ _ => Or.inr
    have := owned_edit_stop_point w.session f h.id hsp x
    rw [h.handles_eq] at this
    omega

theorem owner (h : Tally f) (s : DebugSession) (id : StopId) (req : RequestId) :
    (s.edit_stop_point id f h.id).owner? req =
      (s.owner? req).map fun sp => if sp.id = id then f sp else sp := by
  unfold DebugSession.owner? DebugSession.edit_stop_point Table.modify
  rw [List.find?_map]
  congr 2
  funext sp
  simp only [Function.comp, StopPoint.owns_request]
  split
  · rw [h.ids]
  · rfl

theorem spending (h : Tally f) (id : StopId) (req : RequestId) :
    Keeps (spending req) (edit fun s => s.edit_stop_point id f h.id) := by
  intro w
  simp only [LedgerRuns.spending, edit_run, h.owner, Option.map_map]
  refine congrArg (fun g => (Option.map g _, _)) (funext fun sp => ?_)
  simp only [Function.comp]
  split
  · rw [h.ids, h.code, h.count]
  · rfl

theorem edit_owner_ledger (h : Tally f) (req : RequestId) :
    Preserves (Ledger strict hand gone) (edit_owner req f h.id) := by
  intro w L
  simp only [edit_owner, edit_run]
  cases w.session.owner? req with
  | none => exact L
  | some sp => exact h.ledger L sp.id

theorem edit_owner_spending (h : Tally f) (r req : RequestId) :
    Keeps (LedgerRuns.spending req) (edit_owner r f h.id) := by
  intro w
  simp only [edit_owner, edit_run]
  cases hr : w.session.owner? r with
  | none => rfl
  | some sp => exact h.spending sp.id req w

end Tally

theorem spendable_congr {req : RequestId} (h : spending req w' = spending req w)
    (hs : Spendable w req) : Spendable w' req := by
  intro sp hsp hcount r hr
  simp only [spending, Prod.mk.injEq] at h
  obtain ⟨hown, hlive⟩ := h
  rw [hsp, Option.map_some] at hown
  obtain ⟨v, hv, heq⟩ := Option.map_eq_some_iff.mp hown.symm
  simp only [Prod.mk.injEq] at heq
  obtain ⟨hc, hids, hcode⟩ := heq
  rw [hlive, ← hcode]
  exact hs v hv (hc ▸ hcount) r (hids ▸ hr)

/-- One more recorded hit uses up the trace budget. -/
def runs_out (sp : StopPoint) : Prop := sp.trace_budget.map (fun n => n - 1) = some 0

/-- A budget that runs out on this hit belongs to a stop point whose requests are all live. -/
def Chargeable (w : World) (req : RequestId) : Prop :=
  ∀ sp, w.session.owner? req = some sp → runs_out sp → Standing w sp

theorem disarmed_owner (L : Ledger strict hand gone w) (req : RequestId) :
    ((disarm_request req).run w).2.session.owner? req = none := by
  rw [disarm_request_run]
  obtain ⟨q, hq⟩ := noted_eq w.session req
  cases ho : w.session.owner? req with
  | none =>
    change (noted w.session req).owner? req = none
    rw [hq]
    exact ho
  | some sp =>
    obtain ⟨hmem, hreq⟩ := owner_some ho
    change ((noted w.session req).edit_stop_point sp.id set_disabled).owner? req = none
    refine List.find?_eq_none.mpr fun v hv hown => ?_
    obtain ⟨u, hu, rfl⟩ := (Table.mem_modify _ _ set_disabled (fun _ => rfl) _).mp hv
    rw [hq] at hu
    have hown' : req ∈ (if u.id = sp.id then set_disabled u else u).request_ids := by
      simpa [StopPoint.owns_request] using hown
    split at hown'
    · exact absurd hown' List.not_mem_nil
    · rename_i hne
      exact apart L hmem hu (fun h => hne (by rw [h])) hreq hown'

variable (req : RequestId) (es : EventSet)

theorem charge_ledger (L : Ledger strict hand gone w) (hc : strict → Chargeable w req) :
    Ledger strict hand gone ((charge_trace_budget req).run w).2 ∧
    (Spendable w req → Spendable ((charge_trace_budget req).run w).2 req) := by
  unfold charge_trace_budget decrement_trace_budget
  simp only [run_bind, run_get]
  cases ho : w.session.owner? req with
  | none => exact ⟨L, id⟩
  | some sp =>
    have L1 := tally_budget.ledger L sp.id
    have hs1 := tally_budget.spending sp.id req w
    simp only [run_bind, edit_run, run_pure] at hs1 ⊢
    by_cases hout : sp.trace_budget.map (fun n => n - 1) = some 0
    · have hstand : strict → ∀ v, (w.session.edit_stop_point sp.id lower_budget).owner? req =
          some v → Standing { w with
            session := w.session.edit_stop_point sp.id lower_budget } v := by
        intro hs v hv
        have hv' := (tally_budget.owner w.session sp.id req).symm.trans hv
        rw [ho, Option.map_some, if_pos rfl, Option.some.injEq] at hv'
        rw [← hv']
        exact hc hs sp ho hout
      have L2 := disarm_ledger req L1 hstand
      have hnone := disarmed_owner L1 req
      simp only [hout, run_bind]
      revert L2 hnone
      generalize (disarm_request req).run
        { w with session := w.session.edit_stop_point sp.id lower_budget } = res
      obtain ⟨r, w2⟩ := res
      intro L2 hnone
      cases r with
      | none => exact ⟨L2, fun _ v hv => by rw [run_pure, hnone] at hv; cases hv⟩
      | some id =>
        refine ⟨L2.of_shelf rfl, fun _ v hv => ?_⟩
        exact absurd (hnone.symm.trans hv) (by simp)
    · have hrest : ∀ m : Handler Unit, (∀ v, (pure () : Handler Unit).run v = m.run v) →
          Ledger strict hand gone (m.run { w with
            session := w.session.edit_stop_point sp.id lower_budget }).2 ∧
          (Spendable w req → Spendable (m.run { w with
            session := w.session.edit_stop_point sp.id lower_budget }).2 req) := fun m hm => by
        rw [← hm]
        exact ⟨L1, spendable_congr hs1⟩
      cases hb : sp.trace_budget.map (fun n => n - 1) with
      | none => exact hrest _ fun _ => rfl
      | some n =>
        cases n with
        | zero => exact absurd hb hout
        | succ n => exact hrest _ fun _ => rfl

/-- What a strict session needs of one traced event. -/
def Recordable (w : World) (e : Event) : Prop :=
  Spendable w e.request_id ∧ Chargeable w e.request_id

/-- One traced event is still to be recorded. -/
def Recording (strict : Prop) (hand : List Handle) (gone : Handle → Prop) (e : Event) (w : World) :
    Prop := Ledger strict hand gone w ∧ (strict → Recordable w e)

theorem Tally.recording {f : StopPoint → StopPoint} (h : Tally f)
    (hb : ∀ sp, (f sp).trace_budget = sp.trace_budget) (e : Event) :
    Preserves (Recording strict hand gone e) (edit_owner e.request_id f h.id) := by
  rintro w ⟨L, hc⟩
  refine ⟨h.edit_owner_ledger e.request_id w L, fun hs => ?_⟩
  obtain ⟨hspend, hcharge⟩ := hc hs
  refine ⟨spendable_congr (h.edit_owner_spending _ _ w) hspend, fun v hv hout => ?_⟩
  simp only [edit_owner, edit_run] at hv ⊢
  cases ho : w.session.owner? e.request_id with
  | none =>
    simp only [ho] at hv
    cases hv
  | some u =>
    simp only [ho] at hv ⊢
    rw [h.owner, ho, Option.map_some, if_pos rfl, Option.some.injEq] at hv
    subst hv
    unfold runs_out at hout
    rw [hb] at hout
    have hst := hcharge u ho hout
    unfold Standing hit_handles at hst ⊢
    rw [h.ids, h.code]
    exact hst

theorem record_one_ledger (e : Event) :
    Ensures (Recording strict hand gone e) (record_one_traced_event e)
      fun _ => Ledger strict hand gone := by
  intro w h
  refine record_ensures h (fun _ => h.1) (tally_discarded.recording (fun sp => ?_) e)
    (tally_hit.recording (fun _ => rfl) e) (fun _ _ w hw => ⟨hw.1.of_shelf rfl, hw.2⟩)
    (fun w hw => ?_) fun w hw => spend_ledger _ hw.1 fun hs => (hw.2 hs).1
  · unfold add_discarded
    split <;> rfl
  · obtain ⟨L, hkeep⟩ := charge_ledger e.request_id hw.1 fun hs => (hw.2 hs).2
    exact spend_ledger _ L fun hs => hkeep (hw.2 hs).1

/-- Every event of a composite can be recorded when its turn comes. -/
def Walkable : List Event → World → Prop
  | [], _ => True
  | e :: rest, w => Recordable w e ∧ Walkable rest ((record_one_traced_event e).run w).2

theorem record_events_ledger (events : List Event) (handled : Option ThreadId) (ours : Bool)
    (L : Ledger strict hand gone w) (hc : strict → Walkable events w) :
    Ledger strict hand gone ((record_traced_events handled ours events).run w).2 := by
  induction events generalizing w handled ours with
  | nil => exact L
  | cons e rest ih =>
    have L1 := record_one_ledger e w ⟨L, fun hs => (hc hs).1⟩
    replace hc := fun hs => (hc hs).2
    unfold record_traced_events
    rw [run_bind]
    revert L1 hc
    generalize (record_one_traced_event e).run w = res
    obtain ⟨r, w1⟩ := res
    intro L1 hc
    cases r with
    | none => exact ih handled false L1 hc
    | some t => exact ih (some t) ours L1 hc

theorem record_trace_ledger (L : Ledger strict hand gone w) (hc : strict → Walkable es.events w) :
    Ledger strict hand gone ((try_record_trace es).run w).2 := by
  have L1 := record_events_ledger es.events none (!es.events.isEmpty) L hc
  unfold try_record_trace
  rw [run_bind]
  revert L1
  generalize (record_traced_events none (!es.events.isEmpty) es.events).run w = res
  obtain ⟨r, w1⟩ := res
  intro L1
  dsimp only
  split
  · exact resume_thread_ledger _ w1 L1
  · exact L1

theorem escalate_bench (thread : ThreadId) : Keeps bench (escalate_to_vm_suspend thread) :=
  Keeps.of_preserves fun t => escalate_preserves (suspend_all_bench.preserves t)
    (all_threads_bench.preserves t) (fun u => (suspend_count_bench u).preserves t) thread

theorem release_hit_bench (thread : ThreadId) (only : Bool) :
    Keeps bench (release_dropped_hit thread only) :=
  Keeps.of_preserves fun t => release_preserves (fun u => (resume_thread_bench u).preserves t)
    (resume_all_bench.preserves t) thread only

theorem judge_ledger (e : Event) (thread : ThreadId) (loc : Location) (only : Bool) :
    Preserves (Ledger strict hand gone) (judge_hit e thread loc only) :=
  judge_preserves (tally_discarded.edit_owner_ledger e.request_id)
    (tally_hit.edit_owner_ledger e.request_id)
    (fun thread only => bench_ledger (release_hit_bench thread only))
    (fun thread => bench_ledger (escalate_bench thread)) thread loc only

theorem surface_ledger (escalation : Option FailedEscalation) :
    Preserves (Ledger strict hand gone) (surface es escalation) :=
  surface_preserves (fun _ _ _ _ L => L.of_shelf rfl) (bench_ledger now_bench)
    (fun _ => bench_ledger (send_bench _)) es escalation

/-- What spending will look at stays as it is while the hit is judged and filed. -/
theorem bench_spending {α : Type} {m : Handler α} (h : Keeps bench m) (req : RequestId) :
    Keeps (spending req) m := by
  intro w
  have hb := congrArg Prod.fst (h w)
  simp only [bench, shelf, Shelf.mk.injEq] at hb
  simp only [spending, DebugSession.owner?, live, hb.1, hb.2.2.2.2.2.1]

theorem judge_spending (e : Event) (thread : ThreadId) (loc : Location) (only : Bool) :
    Keeps (spending req) (judge_hit e thread loc only) :=
  Keeps.of_preserves fun t =>
    judge_preserves ((tally_discarded.edit_owner_spending _ req).preserves t)
      ((tally_hit.edit_owner_spending _ req).preserves t)
      (fun thread only => (bench_spending (release_hit_bench thread only) req).preserves t)
      (fun thread => (bench_spending (escalate_bench thread) req).preserves t) thread loc only

theorem surface_spending (es : EventSet) (escalation : Option FailedEscalation) :
    Keeps (spending req) (surface es escalation) :=
  Keeps.of_preserves fun t => surface_preserves (fun _ _ _ _ h => h) (fun _ h => h)
    (fun _ => (bench_spending (send_bench _) req).preserves t) es escalation

/-- What a strict session needs of a composite that is not recorded: the first event's request,
if it is counted, is the one the debuggee deleted. -/
def Reportable (w : World) (es : EventSet) : Prop :=
  ∀ e, es.events.head? = some e → Spendable w e.request_id

theorem store_ledger (L : Ledger strict hand gone w) (hc : strict → Reportable w es) :
    Ledger strict hand gone ((store_reportable_event es).run w).2 := by
  unfold store_reportable_event
  cases hhead : es.events.head? with
  | none => exact surface_ledger es none w L
  | some e =>
    simp only
    cases event_location e.details with
    | none => exact surface_ledger es none w L
    | some p =>
      obtain ⟨thread, loc⟩ := p
      have L1 := judge_ledger e thread loc (decide (es.suspend_policy = .eventThread)) w L
      have hk := judge_spending e.request_id e thread loc
        (decide (es.suspend_policy = .eventThread)) w
      simp only [run_bind]
      revert L1 hk
      generalize (judge_hit e thread loc (decide (es.suspend_policy = .eventThread))).run w = res
      obtain ⟨r, w1⟩ := res
      intro L1 hk
      cases r with
      | none => exact spend_ledger _ L1 fun hs => spendable_congr hk (hc hs e hhead)
      | some escalation =>
        exact spend_ledger _ (surface_ledger es escalation w1 L1) fun hs =>
          spendable_congr ((surface_spending _ es escalation w1).trans hk) (hc hs e hhead)

end Hits

section Rescues

/-- Stop points may have given up their requests; what the others own is as it was. -/
def Culled (w w' : World) : Prop :=
  ∀ req sp, w'.session.owner? req = some sp →
    w.session.owner? req = some sp ∧ (Standing w sp → Standing w' sp)

theorem Culled.refl (w : World) : Culled w w := fun _ _ h => ⟨h, id⟩

theorem Culled.trans {w w' w'' : World} (h : Culled w w') (h' : Culled w' w'') :
    Culled w w'' := fun req sp hsp =>
  ⟨(h req sp (h' req sp hsp).1).1, fun hst =>
    (h' req sp hsp).2 ((h req sp (h' req sp hsp).1).2 hst)⟩

theorem Culled.of_same (hsp : w'.session.stop_points = w.session.stop_points)
    (hreq : w'.jvm.requests = w.jvm.requests) : Culled w w' := by
  intro req sp h
  unfold DebugSession.owner? at h
  rw [hsp] at h
  refine ⟨h, fun hst x hx => ?_⟩
  unfold live
  rw [hreq]
  exact hst x hx

theorem disarm_culls (L : Ledger strict hand gone w) (req : RequestId) :
    Culled w ((disarm_request req).run w).2 := by
  rw [disarm_request_run]
  obtain ⟨q, hq⟩ := noted_eq w.session req
  cases ho : w.session.owner? req with
  | none => exact Culled.of_same (by rw [hq]) rfl
  | some sp =>
    obtain ⟨hmem, -⟩ := owner_some ho
    have hout := (clear_stop_point_withdrawn sp { w with session := noted w.session req }).1
    intro r v hv
    change ((noted w.session req).edit_stop_point sp.id set_disabled).owner? r = some v at hv
    obtain ⟨hv, hr⟩ := owner_some hv
    obtain ⟨u, hu, rfl⟩ := (Table.mem_modify _ _ set_disabled (fun _ => rfl) _).mp hv
    rw [hq] at hu
    split at hr
    · exact absurd hr List.not_mem_nil
    · rename_i hne
      rw [if_neg hne]
      refine ⟨owner_eq L hu hr, fun hst x hx => hout.rest x (hst x hx) fun hx' => ?_⟩
      exact handles_apart L hu hmem (fun h => hne (by rw [h])) (List.mem_append_left _ hx)
        (List.mem_append_left _ hx')

/-- The stop points that the books hold responsible for what is held, as `blamed` names them. -/
def Answerable (blamed : RequestId → Prop) (w : World) : Prop :=
  ∀ req, blamed req → ∀ sp, w.session.owner? req = some sp → Standing w sp

theorem Answerable.culled {blamed : RequestId → Prop} (h : Answerable blamed w) (hc : Culled w w') :
    Answerable blamed w' := fun req hb sp hsp =>
  (hc req sp hsp).2 (h req hb sp (hc req sp hsp).1)

theorem disarm_requests_ledger (reqs : List RequestId) (L : Ledger strict hand gone w)
    (hc : strict → Answerable (fun r => r ∈ reqs) w) :
    Ledger strict hand gone ((disarm_requests reqs).run w).2 := by
  induction reqs generalizing w with
  | nil => exact L
  | cons r rest ih =>
    have L1 := disarm_ledger r L fun hs sp hsp => hc hs r List.mem_cons_self sp hsp
    have hcull := disarm_culls L r
    exact ih L1 fun hs => Answerable.culled (fun req hm => hc hs req (List.mem_cons_of_mem r hm))
      hcull

theorem clear_step_session (w : World) : ((clear_pending_step).run w).2.session =
    { w.session with pending_step := none } := by
  unfold clear_pending_step
  simp only [run_bind, run_get]
  cases hstep : w.session.pending_step with
  | none => exact (by rw [← hstep] : w.session = { w.session with pending_step := none })
  | some p =>
    obtain ⟨req, tid⟩ := p
    exact (clear_request_withdrawn .single_step req
      { w with session := { w.session with pending_step := none } }).1.session

theorem clear_step_culls (w : World) : Culled w ((clear_pending_step).run w).2 := by
  unfold clear_pending_step
  simp only [run_bind, run_get]
  cases w.session.pending_step with
  | none => exact Culled.refl w
  | some p =>
    obtain ⟨req, tid⟩ := p
    have hout := (clear_request_withdrawn .single_step req
      { w with session := { w.session with pending_step := none } }).1
    intro r v hv
    have hsess := congrArg DebugSession.stop_points hout.session
    unfold DebugSession.owner? at hv
    simp only [run_bind, edit_run, run_pure] at hv
    rw [hsess] at hv
    refine ⟨hv, fun hst x hx => hout.rest x (hst x hx) fun hm => ?_⟩
    rw [List.mem_singleton] at hm
    obtain ⟨q, -, heq⟩ := List.mem_map.mp hx
    have hcode : v.armed_on.code = .single_step := congrArg Prod.fst (heq.trans hm)
    revert hcode
    unfold ArmedOn.code
    cases v.armed_on with
    | watchpoint wp => cases hk : wp.kind <;> simp [WatchKind.event_kind, hk]
    | method_exit me => cases hr : me.with_return_value <;> simp [method_exit_event_kind, hr]
    | line _ | exception _ | monitor _ => simp

/-- The step's request goes on the books, where none was pending. -/
theorem step_ledger (thread_id : Option ThreadId) (depth : ℕ) (exclude only : List String) :
    Preserves (Ledger strict [] nothing) (handle_step thread_id depth exclude only) := by
  unfold handle_step
  refine Preserves.get_bind fun w _ => ?_
  split
  · exact Preserves.pure _
  rename_i tid _
  intro w1 L1
  obtain ⟨L2, hstep⟩ := clear_pending_step_ledger L1
  rw [run_bind]
  revert L2 hstep
  generalize (clear_pending_step).run w1 = res
  obtain ⟨-, w2⟩ := res
  intro L2 hstep
  have hset := set_desk w2.session (k := .step tid depth exclude only) (p := .all)
    (f := no_filters) (fun _ => rfl) w2 (⟨L2, rfl⟩ : Desk w2.session strict [] nothing w2)
  rw [run_bind]
  revert hset
  dsimp only
  generalize (set_request (.step tid depth exclude only) .all no_filters).run w2 = res
  obtain ⟨r, w3⟩ := res
  intro hset
  cases r with
  | error e => exact hset.1
  | ok req =>
    obtain ⟨L3, hs⟩ := hset
    change w3.session = w2.session at hs
    change Ledger strict ([(EventCode.single_step, req)] ++ []) nothing w3 at L3
    have L4 : Ledger strict [] nothing
        { w3 with session := { w3.session with pending_step := some (req, tid) } } :=
      L3.file (s := { w3.session with pending_step := some (req, tid) })
        (L3.named.congr rfl rfl rfl le_rfl) L3.shaped
        fun h => owned_with_step (by rw [hs]; exact hstep) req tid h
    dsimp only
    rw [run_bind, edit_run]
    refine Preserves.bind (shelf_ledger (books_shelf _)) (fun _ => ?_) _ L4
    refine Preserves.bind (bench_ledger resume_all_bench) fun r => ?_
    cases r <;> exact Preserves.pure _

theorem panic_shelf (w : World) : shelf ((handle_panic).run w).2 =
    shelf (disarm_everything.run ((clear_pending_step).run w).2).2 := by
  unfold handle_panic
  rw [run_bind, run_bind]
  refine Keeps.bind (bench_shelf resume_and_verify_bench) (fun r => ?_) _
  cases r with
  | error e => exact Keeps.pure _
  | ok note =>
    refine Keeps.bind (books_shelf _) fun _ => ?_
    exact Keeps.bind (release_suspends_shelf none) fun _ => Keeps.pure _

/-- Panic clears what is no line stop one by one, so none of that may have fired away. -/
theorem panic_ledger (L : Ledger strict [] nothing w)
    (hc : strict → ∀ sp ∈ w.session.stop_points.rows, sp.kind ≠ .line → Standing w sp) :
    Ledger strict [] nothing ((handle_panic).run w).2 ∧
      ∀ h, owned ((handle_panic).run w).2.session h = 0 := by
  obtain ⟨L1, hstep⟩ := clear_pending_step_ledger L
  have hcull := clear_step_culls w
  have hsame := congrArg DebugSession.stop_points (clear_step_session w)
  obtain ⟨L2, hzero⟩ := disarm_everything_ledger L1 hstep fun hs sp hsp hk x hx => by
    have hmem : sp ∈ w.session.stop_points.rows := by rwa [← hsame]
    obtain ⟨q, hq, rfl⟩ := List.mem_map.mp hx
    exact (hcull q sp (owner_eq L1 hsp hq)).2 (hc hs sp hmem hk) _ hx
  have hshelf := panic_shelf w
  refine ⟨L2.of_shelf hshelf, ?_⟩
  simp only [shelf, Shelf.mk.injEq] at hshelf
  obtain ⟨hsp, hp, hset, hpend, -⟩ := hshelf
  rw [owned_congr hsp hp hset hpend]
  exact hzero

/-- The books hold the request responsible for a hold that has lasted `secs` seconds. -/
def Overdue (s : Suspensions) (secs now : ℕ) (req : RequestId) : Prop :=
  (∃ vm, s.vm = some vm ∧ secs ≤ now - vm.since ∧ vm.cause = .stop_point req) ∨
    ∃ tid ∈ s.overdue_threads secs now, armed_behind s tid = some req

theorem Culled.of_bench (h : bench w' = bench w) : Culled w w' := by
  simp only [bench, shelf, Prod.mk.injEq, Shelf.mk.injEq] at h
  exact Culled.of_same h.1.1 h.1.2.2.2.2.2.1

theorem disarm_threads (req : RequestId) :
    Keeps (fun w => w.session.suspensions) (disarm_request req) := by
  intro w
  obtain ⟨q, hq⟩ := noted_eq w.session req
  simp only [disarm_request_run]
  cases w.session.owner? req with
  | none => simp only [hq]
  | some sp => simp only [hq, DebugSession.edit_stop_point]

/-- The VM-wide rescue: what caused the hold is disarmed, and nothing else. -/
theorem rescue_vm_ledger (cause : SuspendCause) (L : Ledger strict [] nothing w)
    (hc : strict → Answerable (fun r => cause = .stop_point r) w) :
    Ledger strict [] nothing ((rescue_vm cause).run w).2 ∧
    Culled w ((rescue_vm cause).run w).2 ∧
    ((rescue_vm cause).run w).2.session.suspensions.threads = w.session.suspensions.threads := by
  have L1 := (clear_pending_step_ledger L).1
  have hc1 := clear_step_culls w
  have ht1 := congrArg (fun s => s.suspensions.threads) (clear_step_session w)
  unfold rescue_vm
  rw [run_bind]
  revert L1 hc1 ht1
  generalize (clear_pending_step).run w = res
  obtain ⟨-, w1⟩ := res
  intro L1 hc1 ht1
  simp only at L1 hc1 ht1 ⊢
  have hcause : Ledger strict [] nothing ((disarm_cause cause).run w1).2 ∧
      Culled w1 ((disarm_cause cause).run w1).2 ∧
      ((disarm_cause cause).run w1).2.session.suspensions = w1.session.suspensions := by
    cases cause with
    | manual_pause => exact ⟨L1, Culled.refl w1, rfl⟩
    | stop_point req =>
      refine ⟨disarm_ledger req L1 fun hs => ?_, disarm_culls L1 req, disarm_threads req w1⟩
      exact Answerable.culled (hc hs) hc1 req rfl
  obtain ⟨L2, hc2, ht2⟩ := hcause
  rw [run_bind]
  revert L2 hc2 ht2
  generalize (disarm_cause cause).run w1 = res
  obtain ⟨disarmed, w2⟩ := res
  intro L2 hc2 ht2
  simp only at L2 hc2 ht2 ⊢
  have hb := resume_and_verify_bench w2
  have hresume : Ledger strict [] nothing ((resume_for_rescue disarmed).run w2).2 ∧
      Culled w2 ((resume_for_rescue disarmed).run w2).2 ∧
      ((resume_for_rescue disarmed).run w2).2.session.suspensions.threads =
        w2.session.suspensions.threads := by
    have L3 := bench_ledger resume_and_verify_bench w2 L2
    have ht3 := congrArg (fun b => b.2.threads) hb
    have hc3 := Culled.of_bench hb
    unfold resume_for_rescue
    rw [run_bind]
    revert L3 ht3 hc3
    generalize (resume_and_verify).run w2 = res
    obtain ⟨r, w3⟩ := res
    intro L3 ht3 hc3
    dsimp only
    split
    · exact ⟨L3, hc3, ht3⟩
    · exact ⟨L3.of_shelf rfl, hc3.trans (Culled.of_same rfl rfl), ht3⟩
    · exact ⟨L3, hc3, ht3⟩
  obtain ⟨L3, hc3, ht3⟩ := hresume
  refine ⟨L3.of_shelf rfl, (hc1.trans hc2).trans (hc3.trans (Culled.of_same rfl rfl)), ?_⟩
  exact ht3.trans ((congrArg Suspensions.threads ht2).trans ht1)

theorem perform_answers (c : Command) (f : Jvm → Jvm) : Keeps World.answers (perform c f) := by
  intro w
  rw [perform_run]
  cases w.refuses c <;> rfl

theorem clear_requests_answers (code : EventCode) (ids : List RequestId) :
    Keeps World.answers (clear_requests code ids) :=
  Keeps.of_preserves fun t => clears_preserve (fun _ => (perform_answers _ _).preserves t) ids

theorem rescue_vm_answers (cause : SuspendCause) : Keeps World.answers (rescue_vm cause) := by
  unfold rescue_vm
  refine Keeps.bind ?_ fun _ => Keeps.bind ?_ fun _ => Keeps.bind ?_ fun _ =>
    Keeps.bind (fun _ => rfl) fun _ => Keeps.pure _
  · unfold clear_pending_step
    refine Keeps.bind Keeps.get fun w => ?_
    split
    · exact Keeps.pure _
    · exact Keeps.bind (fun _ => rfl) fun _ => Keeps.bind (perform_answers _ _) fun _ =>
        Keeps.pure _
  · unfold disarm_cause
    split
    · exact Keeps.pure _
    · refine Keeps.bind (fun w => ?_) fun _ => Keeps.pure _
      rw [disarm_request_run]
      cases w.session.owner? _ with
      | none => rfl
      | some sp => exact clear_requests_answers _ _ _
  · unfold resume_for_rescue
    refine Keeps.bind (fun w => ?_) fun r => ?_
    · exact congrArg (fun b => b.1.answers) (resume_and_verify_bench w)
    · split
      · exact Keeps.pure _
      · exact Keeps.bind (fun _ => rfl) fun _ => Keeps.pure _
      · exact Keeps.pure _

theorem rescue_overdue_vm_ledger (secs : ℕ) (L : Ledger strict [] nothing w)
    (hc : strict → Answerable (Overdue w.session.suspensions secs w.answers.now) w) :
    Ledger strict [] nothing ((rescue_overdue_vm secs).run w).2 ∧
    Culled w ((rescue_overdue_vm secs).run w).2 ∧
    ((rescue_overdue_vm secs).run w).2.session.suspensions.threads =
      w.session.suspensions.threads ∧
    ((rescue_overdue_vm secs).run w).2.answers = w.answers := by
  unfold rescue_overdue_vm
  simp only [run_bind, run_get]
  cases hvm : w.session.suspensions.vm with
  | none => exact ⟨L, Culled.refl w, rfl, rfl⟩
  | some vm =>
    simp only [now, run_bind, run_get, run_pure]
    by_cases hdue : secs ≤ w.answers.now - vm.since
    · simp only [hdue, if_true]
      obtain ⟨L1, hcull, ht⟩ := rescue_vm_ledger vm.cause L fun hs req hb sp hsp =>
        hc hs req (Or.inl ⟨vm, hvm, hdue, hb⟩) sp hsp
      exact ⟨L1, hcull, ht, rescue_vm_answers vm.cause w⟩
    · simp only [hdue, if_false]
      exact ⟨L, Culled.refl w, rfl, rfl⟩

theorem note_watchdog_ledger (note : WatchdogOutcome) :
    Preserves (Ledger strict hand gone) (note_watchdog note) := edit_ledger fun _ => rfl

theorem rescue_threads_ledger (secs : ℕ) (L : Ledger strict [] nothing w)
    (hc : strict → Answerable (fun req => ∃ tid ∈ w.session.suspensions.overdue_threads secs
      w.answers.now, armed_behind w.session.suspensions tid = some req) w) :
    Ledger strict [] nothing ((rescue_overdue_thread_suspends secs).run w).2 := by
  unfold rescue_overdue_thread_suspends
  simp only [now, run_bind, run_get, run_pure]
  by_cases hnone : (w.session.suspensions.overdue_threads secs w.answers.now).isEmpty = true
  · simp only [hnone, if_true]
    exact L
  have L1 := disarm_requests_ledger
    ((w.session.suspensions.overdue_threads secs w.answers.now).filterMap
      (armed_behind w.session.suspensions)) L fun hs req hreq sp hsp => by
    exact hc hs req (List.mem_filterMap.mp hreq) sp hsp
  simp only [hnone, Bool.false_eq_true, if_false, run_bind]
  have L2 := shelf_ledger (release_suspends_shelf
    (some (w.session.suspensions.overdue_threads secs w.answers.now))) _ L1
  revert L2
  generalize (release_thread_suspends _).run _ = res
  intro L2
  exact note_watchdog_ledger _ _ L2

theorem watchdog_ledger (secs : ℕ) (L : Ledger strict [] nothing w)
    (hc : strict → Answerable (Overdue w.session.suspensions secs w.answers.now) w) :
    Ledger strict [] nothing ((watchdog_tick secs).run w).2 := by
  obtain ⟨L1, hcull, ht, hnow⟩ := rescue_overdue_vm_ledger secs L hc
  unfold watchdog_tick
  rw [run_bind, run_bind, run_pure]
  refine rescue_threads_ledger secs L1 fun hs req hb => ?_
  unfold Suspensions.overdue_threads armed_behind at hb
  rw [ht, hnow] at hb
  exact Answerable.culled (hc hs) hcull req (Or.inr hb)

end Rescues

section Moves

/-- The wire carries out every Clear. -/
def ClearsAccepted (a : Answers) : Prop :=
  (∀ code id n, a.refused (.clear code id) n = none) ∧
    ∀ n, a.refused .clear_all_breakpoints n = none

/-- What a strict session needs of a tool call. -/
def Orderly (w : World) : Call → Prop
  | .set_line_stop patterns line method o index cap =>
    w.answers.admitted → KeepsWatches line method o index cap patterns w
  | .clear_stop_point id => ∀ m ∈ targets w.session id, StandingAt w m
  | .toggle_stop_point id enabled => Toggleable w id enabled
  | .update_stop_point id _ hit_count =>
    hit_count.asked → ∀ m ∈ pushed_to w.session id, StandingAt w m
  | .panic => ∀ sp ∈ w.session.stop_points.rows, sp.kind ≠ .line → Standing w sp
  | .watchdog secs => Answerable (Overdue w.session.suspensions secs w.answers.now) w
  | _ => True

theorem discard_ledger {α : Type} {m : Handler α} (h : Ledger strict hand gone (m.run w).2) :
    Ledger strict hand gone ((do let _ ← m : Handler Unit).run w).2 := h

theorem call_ledger (c : Call) (L : Ledger strict [] nothing w) (hc : strict → Orderly w c) :
    Ledger strict [] nothing (c.run.run w).2 := by
  cases c with
  | set_line_stop patterns line method o index cap =>
    exact set_line_stop_ledger patterns line method o index cap L hc
  | set_exception_stop targets caught uncaught o cap =>
    exact discard_ledger (set_exception_stop_ledger targets caught uncaught o cap w L)
  | set_field_stop targets field kinds o cap =>
    exact set_field_stop_ledger targets field kinds o cap w L
  | set_method_exit_stop patterns method ret exclude o =>
    exact set_method_exit_stop_ledger patterns method ret exclude o w L
  | set_monitor_stop kinds arm o =>
    exact discard_ledger (set_monitor_stop_ledger kinds arm o w L)
  | clear_stop_point id => exact discard_ledger (handle_clear_ledger id L hc)
  | toggle_stop_point id enabled => exact discard_ledger (handle_toggle_ledger id enabled L hc)
  | update_stop_point id condition hit_count =>
    exact discard_ledger (handle_update_ledger id condition hit_count L hc)
  | continue_ =>
    exact discard_ledger (continue_preserves shelf_ledger (fun _ L =>
      (clear_pending_step_ledger L).1) w L)
  | step tid depth exclude only => exact discard_ledger (step_ledger tid depth exclude only w L)
  | panic => exact discard_ledger (panic_ledger L hc).1
  | pause => exact discard_ledger (shelf_ledger pause_shelf w L)
  | suspend_thread tid => exact discard_ledger (shelf_ledger (suspend_one_shelf tid) w L)
  | resume_thread tid =>
    exact discard_ledger (resume_one_preserves shelf_ledger (fun t _ L => drop_step_ledger t L) tid
      w L)
  | thread_dump suspend => exact discard_ledger (shelf_ledger (dump_shelf suspend) w L)
  | watchdog secs => exact discard_ledger (watchdog_ledger secs L hc)

theorem begin_ledger (a : Answers) (L : Ledger strict hand gone w) (ha : strict → ClearsAccepted a)
    : Ledger strict hand gone (w.begin a) := by
  refine ⟨L.named, L.shaped, L.custody, L.lasting, fun hs => ?_⟩
  have hx := L.exact_ hs
  exact ⟨hx.covered, hx.standing, hx.in_hand, hx.dead, hx.no_stray, (ha hs).1, (ha hs).2⟩

theorem suspend_for_requests (j : Jvm) (p : SuspendPolicy) (t : ThreadId) :
    (j.suspend_for p t).requests = j.requests ∧
    (j.suspend_for p t).next_request = j.next_request ∧
    (j.suspend_for p t).stray_clears = j.stray_clears := by
  cases p <;> exact ⟨rfl, rfl, rfl⟩

/-- A composite is generated: its counted requests leave the debuggee and stay on the books. -/
theorem fire_ledger (es : EventSet) (t : ThreadId) (L : Ledger strict [] nothing w) :
    Ledger strict [] nothing (World.fire w es t) := by
  obtain ⟨hreq, hnext, hstray⟩ := suspend_for_requests w.jvm es.suspend_policy t
  have hsub : (World.fire w es t).jvm.requests.Sublist w.jvm.requests := by
    simp only [World.fire, Jvm.expire, hreq]
    exact List.filter_sublist
  have hlive : (live (World.fire w es t).jvm).Sublist (live w.jvm) := hsub.map _
  refine ⟨L.named, L.shaped, ?_, fun q hq => L.lasting q (hsub.subset hq), fun hs => ?_⟩
  · have := L.custody.sublist hlive
    simpa only [World.fire, Jvm.expire, hnext] using this
  have hx := L.exact_ hs
  have hkept : ∀ h ∈ live w.jvm, h ∈ live (World.fire w es t).jvm ∨
      (h.2 ∈ EventSet.request_ids es ∧ ¬ Lasting h.1) := by
    intro h hl
    obtain ⟨q, hq, rfl⟩ := List.mem_map.mp hl
    by_cases hout : q.id ∈ EventSet.request_ids es ∧ q.counted = true
    · refine Or.inr ⟨hout.1, fun hlast => ?_⟩
      have := L.lasting q hq hlast
      rw [hout.2] at this
      cases this
    · refine Or.inl (List.mem_map_of_mem (List.mem_filter.mpr ⟨?_, decide_eq_true hout⟩))
      rw [hreq]
      exact hq
  have hflight : ∀ r, InFlight w r → InFlight (World.fire w es t) r := fun r hr => by
    obtain ⟨es', hes, hm⟩ := hr
    exact ⟨es', List.mem_append_left _ hes, hm⟩
  refine ⟨fun h hl => hx.covered h (hlive.subset hl), fun h ho => ?_, fun h hh => (by cases hh),
    fun h hg => False.elim hg, ?_, hx.clears, hx.clears_all⟩
  · rcases hx.standing h ho with hl | hg | ⟨hfl, hlast⟩
    · refine (hkept h hl).imp_right fun hout => Or.inr ⟨?_, hout.2⟩
      exact ⟨es, List.mem_append_right _ (List.mem_singleton.mpr rfl), hout.1⟩
    · exact Or.inr (Or.inl hg)
    · exact Or.inr (Or.inr ⟨hflight _ hfl, hlast⟩)
  · simpa only [World.fire, Jvm.expire, hstray] using hx.no_stray

/-- A handle on the books whose request the debuggee deleted when it generated `es`. -/
def Fallen (w : World) (es : EventSet) (h : Handle) : Prop :=
  0 < owned w.session h ∧ h ∉ live w.jvm ∧ h.2 ∈ EventSet.request_ids es ∧ ¬ Lasting h.1

theorem take_ledger {es : EventSet} {rest : List EventSet} (hq : w.queue = es :: rest)
    (L : Ledger strict [] nothing w) :
    Ledger strict [] (Fallen { w with queue := rest } es) { w with queue := rest } := by
  refine ⟨L.named, L.shaped, L.custody, L.lasting, fun hs => ?_⟩
  have hx := L.exact_ hs
  refine ⟨hx.covered, fun h ho => ?_, fun h hh => (by cases hh), fun h hg => ⟨hg.2.1, ?_⟩,
    hx.no_stray, hx.clears, hx.clears_all⟩
  · rcases hx.standing h ho with hl | hg | ⟨⟨es', hes, hm⟩, hlast⟩
    · exact Or.inl hl
    · exact hg.elim
    · rw [hq] at hes
      rcases List.mem_cons.mp hes with rfl | hes
      · by_cases hl : h ∈ live w.jvm
        · exact Or.inl hl
        · exact Or.inr (Or.inl ⟨ho, hl, hm, hlast⟩)
      · exact Or.inr (Or.inr ⟨⟨es', hes, hm⟩, hlast⟩)
  · exact L.custody.granted h (Nat.add_pos_left hg.1 _)

/-- No handle that `gone` calls dead is on the books any more. -/
theorem settle_ledger (L : Ledger strict [] gone w)
    (h : strict → ∀ x, gone x → owned w.session x = 0) : Ledger strict [] nothing w := by
  refine ⟨L.named, L.shaped, L.custody, L.lasting, fun hs => ?_⟩
  have hx := L.exact_ hs
  refine ⟨hx.covered, fun x ho => ?_, fun x hh => (by cases hh), fun x hg => False.elim hg,
    hx.no_stray, hx.clears, hx.clears_all⟩
  rcases hx.standing x ho with hl | hg | hfl
  · exact Or.inl hl
  · have := h hs x hg
    omega
  · exact Or.inr (Or.inr hfl)

/-- What a strict session needs of the composite that the listener takes. -/
structure Landable (w : World) (es : EventSet) : Prop where
  /-- A class-prepare event does not come with a counted hit. -/
  apart : (es.events.findSome? fun e => class_prepare_of e.details).isSome → ∀ h, ¬ Fallen w es h
  walk : Walkable es.events w
  report : Reportable ((try_record_trace es).run w).2 es
  /-- Every counted request that fired is off the books afterwards. -/
  settled : ∀ h, Fallen w es h → owned ((listen es).run w).2.session h = 0

theorem listen_ledger (es : EventSet) (L : Ledger strict [] (Fallen w es) w)
    (hc : strict → Landable w es) : Ledger strict [] nothing ((Rearming.listen es).run w).2 := by
  have hsettle : Ledger strict [] (Fallen w es) ((Rearming.listen es).run w).2 →
      Ledger strict [] nothing ((Rearming.listen es).run w).2 := fun h =>
    settle_ledger h fun hs x hx => (hc hs).settled x hx
  cases hcp : es.events.findSome? fun e => class_prepare_of e.details with
  | some c =>
    have hnone : strict → ∀ h, ¬ Fallen w es h := fun hs => (hc hs).apart (by rw [hcp]; rfl)
    have L0 : Ledger strict [] nothing w := settle_ledger L fun hs x hx => absurd hx (hnone hs x)
    have L1 := class_prepare_ledger es L0
    have htrue : ((try_arm_deferred_breakpoints es).run w).1 = true := by
      unfold try_arm_deferred_breakpoints
      rw [hcp]
      rfl
    unfold Rearming.listen
    rw [run_bind, htrue]
    exact L1
  | none =>
    refine hsettle ?_
    have hrun : (try_arm_deferred_breakpoints es).run w = (false, w) := by
      unfold try_arm_deferred_breakpoints
      rw [hcp]
      rfl
    have L1 := record_trace_ledger es L fun hs => (hc hs).walk
    have hrep := fun hs => (hc hs).report
    unfold Rearming.listen
    simp only [run_bind, hrun, Bool.false_eq_true, if_false]
    revert L1 hrep
    generalize (try_record_trace es).run w = res
    obtain ⟨r, w1⟩ := res
    intro L1 hrep
    cases r with
    | true => exact L1
    | false => exact store_ledger es L1 hrep

/-- What a strict session needs of each move. -/
def Kept (w : World) : Move → Prop
  | .call c a => ClearsAccepted a ∧ Orderly (w.begin a) c
  | .fire _ _ => True
  | .listen a => ClearsAccepted a ∧ ∀ es rest, w.queue = es :: rest →
    Landable ({ w with queue := rest }.begin a) es
  | .hit es t a => ClearsAccepted a ∧ Landable (met w es t a) es

theorem world_listen_ledger (a : Answers) (L : Ledger strict [] nothing w)
    (hc : strict → ClearsAccepted a ∧ ∀ es rest, w.queue = es :: rest →
      Landable ({ w with queue := rest }.begin a) es) :
    Ledger strict [] nothing (World.listen w a) := by
  unfold World.listen
  cases hq : w.queue with
  | nil => exact L
  | cons es rest =>
    exact listen_ledger es (begin_ledger a (take_ledger (w := w) hq L) fun hs => (hc hs).1)
      fun hs => (hc hs).2 es rest hq

theorem move_ledger (m : Move) (hallowed : m.Allowed w) (L : Ledger strict [] nothing w)
    (hc : strict → Kept w m) : Ledger strict [] nothing (m.next w) := by
  cases m with
  | call c a =>
    exact call_ledger c (begin_ledger a L fun hs => (hc hs).1) fun hs => (hc hs).2
  | fire es t => exact fire_ledger es t L
  | listen a => exact world_listen_ledger a L hc
  | hit es t a =>
    refine world_listen_ledger a (fire_ledger es t L) fun hs => ⟨(hc hs).1, fun es' rest hq => ?_⟩
    have hqueue : w.queue = [] := hallowed.2
    simp only [World.fire, hqueue, List.nil_append, List.cons.injEq] at hq
    obtain ⟨rfl, rfl⟩ := hq
    exact (hc hs).2

theorem start_ledger (threads : List ThreadId) (a : Answers) (ha : strict → ClearsAccepted a) :
    Ledger strict [] nothing (World.start threads a) := by
  have hown : ∀ h, owned (World.start threads a).session h = 0 := fun h => rfl
  refine ⟨?_, fun sp h => (by cases h), ?_, fun q h => (by cases h), fun hs => ?_⟩
  · refine ⟨?_, ?_, ?_, ?_, List.nodup_nil, ?_, ?_, ?_, ?_, ?_⟩ <;> intro x hx <;> cases hx
  · refine ⟨fun h => ?_, fun h h' hh => ?_, fun h hh => ?_, fun h hh => (by cases hh),
      List.nodup_nil, fun h hh => (by cases hh)⟩
    · exact Nat.zero_le 1
    · exact absurd hh (Nat.lt_irrefl 0)
    · exact absurd hh (Nat.lt_irrefl 0)
  · refine ⟨fun h hh => (by cases hh), fun h hh => ?_, fun h hh => (by cases hh),
      fun h hg => False.elim hg,
      rfl, (ha hs).1, (ha hs).2⟩
    exact absurd hh (Nat.lt_irrefl 0)

variable {ok : World → Move → Prop} {threads : List ThreadId} {a : Answers}

/-- Whatever is refused and however the moves interleave, no id is owned twice. -/
theorem run_ledger (hrun : Run ok (World.start threads a) w) : Ledger False [] nothing w :=
  Run.invariant (fun _ m L hallowed _ => move_ledger m hallowed L False.elim) hrun
    (start_ledger threads a False.elim)

/-- The names in the records are in order, and no request stands in two of them. -/
theorem records_in_order (hrun : Run ok (World.start threads a) w) : Named w.session ∧
      (∀ sp ∈ w.session.stop_points.rows, Shaped sp) ∧ (∀ h, owned w.session h ≤ 1) ∧
      ∀ h h', 0 < owned w.session h → 0 < owned w.session h' → h.2 = h'.2 → h = h' := by
  have L := run_ledger hrun
  exact ⟨L.named, L.shaped, L.custody.once, L.custody.sole⟩

/-- The stop point that a firing event is counted for is on and asked for that kind of event. -/
theorem fired_event_asked_for (hrun : Run ok (World.start threads a) w) {es : EventSet}
    {t : ThreadId} (hf : Fires w.jvm es t) {e : Event} (he : e ∈ es.events) {sp : StopPoint}
    (ho : w.session.owner? e.request_id = some sp) :
    e.details.reports sp.armed_on.code = true ∧ sp.enabled = true ∧ sp.spent = false := by
  have L := run_ledger hrun
  obtain ⟨hmem, hr⟩ := owner_some ho
  obtain ⟨-, q, hq, hid, hrep, -⟩ := hf.2.2.2.1 e he
  have hown := owned_of_handle hmem (List.mem_append_left _ (List.mem_map_of_mem hr))
  have heq := L.custody.genuine q.handle (List.mem_map_of_mem hq) _ (Nat.add_pos_left hown _)
    hid.symm
  have hon : sp.enabled = true := by
    by_contra hoff
    rw [(L.shaped sp hmem).off (Bool.eq_false_iff.mpr hoff)] at hr
    cases hr
  have hcode : sp.armed_on.code = q.kind.code := congrArg Prod.fst heq
  refine ⟨hcode ▸ hrep, hon, Bool.eq_false_iff.mpr fun hs => ?_⟩
  rw [(L.shaped sp hmem).spent hs] at hon
  cases hon

theorem line_armed_run : Run (fun _ _ => True) (World.start [1, 2] plain) (line_armed none) :=
  Relation.ReflTransGen.single (Step.intro (.call _ _) trivial trivial)

theorem records_in_order_line : Named (line_armed none).session ∧
    ∀ sp ∈ (line_armed none).session.stop_points.rows, Shaped sp :=
  (records_in_order line_armed_run).imp_right And.left

theorem fired_event_asked_for_line : ∃ sp, (line_armed none).session.owner? 2 = some sp ∧
    (EventKind.breakpoint 1 ⟨1, 1, 0⟩).reports sp.armed_on.code = true ∧ sp.enabled = true ∧
      sp.spent = false := by
  have hf : Fires (line_armed none).jvm (line_hit .all 1) 1 := by decide +kernel
  have ho : ((line_armed none).session.owner? 2).isSome := by decide +kernel
  obtain ⟨sp, hsp⟩ := Option.isSome_iff_exists.mp ho
  exact ⟨sp, hsp, fired_event_asked_for line_armed_run hf List.mem_cons_self hsp⟩

end Moves

end JavaDebug.LedgerRuns
