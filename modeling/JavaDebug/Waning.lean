import JavaDebug.LedgerRuns

/-!
Operations that arm nothing. Whatever is refused, they leave every record with
the requests and filters it had, or with fewer requests, or drop it; the only
requests they add are class-load watches and a step. `Wanes` says this of two
worlds, and every handler but the arming, toggling and updating ones, and every
hit, leads from a world to one that it wanes to.
-/
namespace JavaDebug.Waning

open Jdwp StopPoints Session Wire Disarming
open Hits Resuming StateProgram Runs
open Ownership Withdrawing HitWalks LedgerRuns

/-- What is left of a stop point: the same one, with no request it did not have. -/
structure Remains (sp sp' : StopPoint) : Prop where
  id : sp'.id = sp.id
  kind : sp'.kind = sp.kind
  request_ids : sp'.request_ids ⊆ sp.request_ids
  thread_filter : sp'.thread_filter = sp.thread_filter
  instance_filter : sp'.instance_filter = sp.instance_filter
  condition : sp.kind.takes_condition = false → sp'.condition = sp.condition

theorem Remains.refl (sp : StopPoint) : Remains sp sp :=
  ⟨rfl, rfl, List.Subset.refl _, rfl, rfl, fun _ => rfl⟩

theorem Remains.trans {a b c : StopPoint} (h : Remains a b) (h' : Remains b c) : Remains a c :=
  ⟨h'.id.trans h.id, h'.kind.trans h.kind, List.Subset.trans h'.request_ids h.request_ids,
    h'.thread_filter.trans h.thread_filter, h'.instance_filter.trans h.instance_filter,
    fun hk => (h'.condition (by rw [h.kind]; exact hk)).trans (h.condition hk)⟩

/-- The same deferral, up to its condition and count. -/
structure Awaits (p p' : PendingBreakpoint) : Prop where
  bp_id : p'.bp_id = p.bp_id
  thread_filter : p'.thread_filter = p.thread_filter
  instance_filter : p'.instance_filter = p.instance_filter

theorem Awaits.refl (p : PendingBreakpoint) : Awaits p p := ⟨rfl, rfl, rfl⟩

theorem Awaits.trans {a b c : PendingBreakpoint} (h : Awaits a b) (h' : Awaits b c) : Awaits a c :=
  ⟨h'.bp_id.trans h.bp_id, h'.thread_filter.trans h.thread_filter,
    h'.instance_filter.trans h.instance_filter⟩

/-- What is left of a family: the same one, with no member it did not have. -/
structure Thins (set set' : PatternStopSet) : Prop where
  id : set'.id = set.id
  members : set'.members ⊆ set.members
  thread_filter : set'.thread_filter = set.thread_filter
  instance_filter : set'.instance_filter = set.instance_filter

theorem Thins.refl (set : PatternStopSet) : Thins set set := ⟨rfl, List.Subset.refl _, rfl, rfl⟩

theorem Thins.trans {a b c : PatternStopSet} (h : Thins a b) (h' : Thins b c) : Thins a c :=
  ⟨h'.id.trans h.id, List.Subset.trans h'.members h.members, h'.thread_filter.trans h.thread_filter,
    h'.instance_filter.trans h.instance_filter⟩

structure Wanes (w w' : World) : Prop where
  stop_seq : w'.session.stop_seq = w.session.stop_seq
  stop_points : ∀ sp' ∈ w'.session.stop_points.rows,
    ∃ sp ∈ w.session.stop_points.rows, Remains sp sp'
  pending : ∀ p' ∈ w'.session.pending_breakpoints,
    ∃ p ∈ w.session.pending_breakpoints, Awaits p p'
  families : ∀ set' ∈ w'.session.pattern_sets.rows,
    ∃ set ∈ w.session.pattern_sets.rows, Thins set set'
  next_request : w.jvm.next_request ≤ w'.jvm.next_request
  requests : ∀ q ∈ w'.jvm.requests, q ∈ w.jvm.requests ∨
    (Lasting q.kind.code ∧ w.jvm.next_request ≤ q.id ∧ q.id < w'.jvm.next_request)

theorem Wanes.of_session {w w' : World} (h : w'.session = w.session)
    (hnext : w.jvm.next_request ≤ w'.jvm.next_request)
    (hreq : ∀ q ∈ w'.jvm.requests, q ∈ w.jvm.requests ∨
      (Lasting q.kind.code ∧ w.jvm.next_request ≤ q.id ∧ q.id < w'.jvm.next_request)) :
    Wanes w w' :=
  ⟨by rw [h], fun sp hsp => ⟨sp, h ▸ hsp, Remains.refl sp⟩, fun p hp => ⟨p, h ▸ hp, Awaits.refl p⟩,
    fun set hset => ⟨set, h ▸ hset, Thins.refl set⟩, hnext, hreq⟩

theorem Wanes.of_shelf {w w' : World} (h : shelf w' = shelf w) : Wanes w w' := by
  simp only [shelf, Shelf.mk.injEq] at h
  obtain ⟨hsp, hp, hset, -, hseq, hreq, hnext, -⟩ := h
  refine ⟨hseq, fun sp h => ⟨sp, hsp ▸ h, Remains.refl sp⟩, fun p h => ⟨p, hp ▸ h, Awaits.refl p⟩,
    fun set h => ⟨set, hset ▸ h, Thins.refl set⟩, hnext.ge, fun q h => Or.inl (hreq ▸ h)⟩

theorem Wanes.trans {w w' w'' : World} (h : Wanes w w') (h' : Wanes w' w'') : Wanes w w'' where
  stop_seq := h'.stop_seq.trans h.stop_seq
  stop_points sp'' hsp'' := by
    obtain ⟨sp', hsp', hr'⟩ := h'.stop_points sp'' hsp''
    obtain ⟨sp, hsp, hr⟩ := h.stop_points sp' hsp'
    exact ⟨sp, hsp, hr.trans hr'⟩
  pending p'' hp'' := by
    obtain ⟨p', hp', ha'⟩ := h'.pending p'' hp''
    obtain ⟨p, hp, ha⟩ := h.pending p' hp'
    exact ⟨p, hp, ha.trans ha'⟩
  families set'' hset'' := by
    obtain ⟨set', hset', ht'⟩ := h'.families set'' hset''
    obtain ⟨set, hset, ht⟩ := h.families set' hset'
    exact ⟨set, hset, ht.trans ht'⟩
  next_request := h.next_request.trans h'.next_request
  requests q hq := by
    rcases h'.requests q hq with hq | ⟨hl, hlo, hhi⟩
    · rcases h.requests q hq with hq | ⟨hl, hlo, hhi⟩
      · exact Or.inl hq
      · exact Or.inr ⟨hl, hlo, hhi.trans_le h'.next_request⟩
    · exact Or.inr ⟨hl, h.next_request.trans hlo, hhi⟩

instance : IsPreorder World Wanes where
  refl _ := Wanes.of_shelf rfl
  trans _ _ _ := Wanes.trans

theorem shelf_wanes {α : Type} {m : Handler α} (h : Keeps shelf m) : Leads Wanes m :=
  fun w => Wanes.of_shelf (h w)

theorem bench_wanes {α : Type} {m : Handler α} (h : Keeps bench m) : Leads Wanes m :=
  shelf_wanes (bench_shelf h)

section Primitives

variable {f : DebugSession → DebugSession}

theorem edit_wanes (hseq : ∀ s, (f s).stop_seq = s.stop_seq)
    (hsp : ∀ s, ∀ sp' ∈ (f s).stop_points.rows, ∃ sp ∈ s.stop_points.rows, Remains sp sp')
    (hp : ∀ s, ∀ p' ∈ (f s).pending_breakpoints, ∃ p ∈ s.pending_breakpoints, Awaits p p')
    (hset : ∀ s, ∀ set' ∈ (f s).pattern_sets.rows, ∃ set ∈ s.pattern_sets.rows, Thins set set') :
    Leads Wanes (edit f) := fun w =>
  ⟨hseq w.session, hsp _, hp _, hset _, le_rfl, fun _ h => Or.inl h⟩

theorem drop_wanes (hseq : ∀ s, (f s).stop_seq = s.stop_seq)
    (hsp : ∀ s, (f s).stop_points.rows ⊆ s.stop_points.rows)
    (hp : ∀ s, (f s).pending_breakpoints ⊆ s.pending_breakpoints)
    (hset : ∀ s, (f s).pattern_sets.rows ⊆ s.pattern_sets.rows) : Leads Wanes (edit f) :=
  edit_wanes hseq (fun s sp h => ⟨sp, hsp s h, Remains.refl sp⟩)
    (fun s p h => ⟨p, hp s h, Awaits.refl p⟩) fun s set h => ⟨set, hset s h, Thins.refl set⟩

theorem edit_elsewhere_wanes (h : ∀ w : World, shelf { w with session := f w.session } = shelf w) :
    Leads Wanes (edit f) := fun w => Wanes.of_shelf (h w)

variable (id : StopId)

theorem edit_stop_point_wanes (f : StopPoint → StopPoint) (hf : ∀ sp, (f sp).id = sp.id)
    (h : ∀ sp, Remains sp (f sp)) : Leads Wanes (edit fun s => s.edit_stop_point id f hf) := by
  refine edit_wanes (fun _ => rfl) (fun s sp' hsp' => ?_) (fun _ p h => ⟨p, h, Awaits.refl p⟩)
    fun _ set h => ⟨set, h, Thins.refl set⟩
  obtain ⟨sp, hsp, rfl⟩ := (Table.mem_modify _ _ _ hf _).mp hsp'
  refine ⟨sp, hsp, ?_⟩
  split
  · exact h sp
  · exact Remains.refl sp

theorem edit_pattern_set_wanes (f : PatternStopSet → PatternStopSet)
    (hf : ∀ set, (f set).id = set.id) (h : ∀ set, Thins set (f set)) :
    Leads Wanes (edit fun s => s.edit_pattern_set id f hf) := by
  refine edit_wanes (fun _ => rfl) (fun _ sp h => ⟨sp, h, Remains.refl sp⟩)
    (fun _ p h => ⟨p, h, Awaits.refl p⟩)
    fun s set' hset' => ?_
  obtain ⟨set, hset, rfl⟩ := (Table.mem_modify _ _ _ hf _).mp hset'
  refine ⟨set, hset, ?_⟩
  split
  · exact h set
  · exact Thins.refl set

theorem rewatch_wanes (watch : ClassLoadWatch) :
    Leads Wanes (edit fun s => s.edit_pattern_set id fun p => { p with watch := watch }) :=
  edit_pattern_set_wanes id (fun p => { p with watch := watch }) (fun _ => rfl)
    fun _ => ⟨rfl, List.Subset.refl _, rfl, rfl⟩

theorem note_in_flight_wanes (traced : Bool) (reqs : List RequestId) :
    Leads Wanes (edit fun s => s.note_traced_in_flight traced reqs) := by
  refine edit_elsewhere_wanes fun w => ?_
  obtain ⟨q, hq⟩ := w.session.note_traced_in_flight_eq traced reqs
  rw [hq]
  rfl

theorem erase_wanes :
    Leads Wanes (edit fun s => { s with stop_points := s.stop_points.erase id }) :=
  drop_wanes (fun _ => rfl) (fun _ _ h => ((Table.mem_erase _ _ _).mp h).1) (fun _ _ h => h)
    fun _ _ h => h

theorem clear_request_wanes (code : EventCode) (id : RequestId) :
    Leads Wanes (clear_request code id) := by
  intro w
  rw [clear_request, perform_run]
  cases w.refuses (.clear code id) with
  | some e => exact Wanes.of_shelf rfl
  | none =>
    change Wanes w { w.log (.clear code id) with jvm := w.jvm.clear_request (code, id) }
    unfold Jvm.clear_request
    split
    · exact Wanes.of_session rfl le_rfl fun q hq => Or.inl (List.mem_filter.mp hq).1
    · exact Wanes.of_session rfl le_rfl fun q hq => Or.inl hq

theorem clear_all_breakpoints_wanes : Leads Wanes clear_all_breakpoints := by
  intro w
  rw [clear_all_breakpoints, perform_run]
  cases w.refuses .clear_all_breakpoints with
  | some e => exact Wanes.of_shelf rfl
  | none => exact Wanes.of_session rfl le_rfl fun q hq => Or.inl (List.mem_filter.mp hq).1

theorem set_lasting_wanes {k : RequestKind} (hk : Lasting k.code) (p : SuspendPolicy)
    (f : EventFilters) : Leads Wanes (set_request k p f) := by
  intro w
  rw [set_request_run]
  cases w.refuses (.set k p f) with
  | some e => exact Wanes.of_shelf rfl
  | none =>
    refine Wanes.of_session rfl (Nat.le_succ _) fun q hq => ?_
    rcases List.mem_append.mp hq with hq | hq
    · exact Or.inl hq
    · rw [List.mem_singleton.mp hq]
      exact Or.inr ⟨hk, le_rfl, Nat.lt_succ_self _⟩

theorem set_class_prepare_wanes (pattern : String) : Leads Wanes (set_class_prepare pattern) :=
  set_lasting_wanes (Or.inl rfl) _ _

end Primitives

section Clearing

theorem clear_requests_wanes (code : EventCode) (ids : List RequestId) :
    Leads Wanes (clear_requests code ids) :=
  Leads.of_preserves fun w => clears_preserve (fun _ => (clear_request_wanes _ _).preserves w) ids

variable (sp : StopPoint)

theorem clear_stop_point_wanes : Leads Wanes (clear_stop_point_requests sp) :=
  clear_requests_wanes _ _

theorem discard_wanes {α : Type} {m : Handler α} (h : Leads Wanes m) :
    Leads Wanes (do let _ ← m) := Leads.bind h fun _ => Leads.pure _

theorem remains_disabled : Remains sp (set_disabled sp) :=
  ⟨rfl, rfl, List.nil_subset _, rfl, rfl, fun _ => rfl⟩

theorem disarm_request_wanes (req : RequestId) : Leads Wanes (disarm_request req) := by
  intro w
  rw [disarm_request_run]
  obtain ⟨q, hq⟩ := noted_eq w.session req
  have hnote : Wanes w { w with session := noted w.session req } := by
    rw [hq]
    exact Wanes.of_shelf rfl
  cases w.session.owner? req with
  | none => exact hnote
  | some sp =>
    refine hnote.trans ((clear_stop_point_wanes sp _).trans ?_)
    have hsame := (clear_stop_point_withdrawn sp
      { w with session := noted w.session req }).1.session
    have hedit := edit_stop_point_wanes sp.id set_disabled (fun _ => rfl) remains_disabled
      ((clear_stop_point_requests sp).run { w with session := noted w.session req }).2
    rw [edit_run, hsame] at hedit
    exact hedit

theorem disable_wanes (id : StopId) : Leads Wanes (disable_stop_point id) :=
  Leads.of_preserves fun w => disable_preserves (fun c r => (clear_request_wanes c r).preserves w)
    ((edit_stop_point_wanes _ _ _ remains_disabled).preserves w)

theorem spend_wanes (req : RequestId) : Leads Wanes (spend_if_counted req) := by
  refine Leads.get_bind fun w => ?_
  split
  · exact Leads.pure _
  · split
    · exact Leads.pure _
    rename_i sp _ _
    refine Leads.bind ?_ fun _ => Leads.forM_mem _ fun r _ =>
      discard_wanes (clear_request_wanes _ _)
    intro w
    have hspent := edit_stop_point_wanes sp.id set_spent (fun _ => rfl)
      (fun _ => ⟨rfl, rfl, List.nil_subset _, rfl, rfl, fun _ => rfl⟩) w
    exact hspent.trans (note_in_flight_wanes sp.trace _ { w with
      session := w.session.edit_stop_point sp.id set_spent })

theorem unpark_wanes (set_id : StopId) : Leads Wanes (unpark_family_watch set_id) := by
  refine Leads.get_bind fun w => ?_
  split
  · exact Leads.pure _
  · split
    · exact Leads.pure _
    · refine Leads.get_bind fun w => Leads.bind (set_class_prepare_wanes _) fun r => ?_
      cases r <;> exact rewatch_wanes _ _

theorem release_slot_wanes (id : StopId) : Leads Wanes (release_family_slot id) := by
  refine Leads.get_bind fun w => Leads.bind (Leads.forM_mem _ fun set_id _ => ?_) fun _ =>
    Leads.forM_mem _ fun set_id _ => unpark_wanes set_id
  exact edit_pattern_set_wanes set_id (fun p =>
    { p with members := p.members.filter fun m => m ≠ id }) (fun _ => rfl)
    fun _ => ⟨rfl, List.filter_sublist.subset, rfl, rfl⟩

theorem clear_watch_wanes : Leads Wanes (clear_watch sp) := by
  unfold clear_watch
  split
  · exact Leads.pure _
  · exact discard_wanes (clear_request_wanes _ _)

theorem clear_one_wanes : Leads Wanes (clear_one_stop_point sp) := by
  refine Leads.bind (note_in_flight_wanes _ _) fun _ =>
    Leads.bind (clear_stop_point_wanes sp) fun r => ?_
  split
  · split
    · exact Leads.pure _
    · exact Leads.bind (clear_watch_wanes sp) fun _ =>
        Leads.bind (release_slot_wanes _) fun _ => Leads.pure _
  all_goals exact Leads.pure _

theorem clear_member_wanes (member : StopId) : Leads Wanes (clear_member member) := by
  refine Leads.get_bind fun w => ?_
  split
  · exact Leads.pure _
  · exact Leads.bind (erase_wanes member) fun _ => Leads.bind (note_in_flight_wanes _ _) fun _ =>
      discard_wanes (clear_stop_point_wanes _)

theorem clear_pattern_family_wanes (set : PatternStopSet) :
    Leads Wanes (clear_pattern_family set) := by
  have hmembers : Leads Wanes (set.members.forM clear_member) :=
    Leads.forM_mem _ fun m _ => clear_member_wanes m
  unfold clear_pattern_family
  split
  · exact hmembers
  · exact Leads.bind (clear_request_wanes _ _) fun _ => hmembers

theorem handle_clear_wanes (id : StopId) : Leads Wanes (handle_clear_stop_point id) := by
  refine Leads.get_bind fun w => ?_
  dsimp only
  split
  · refine Leads.bind (drop_wanes (fun _ => rfl) (fun _ _ h => h) (fun _ _ h => h)
      fun _ _ h => ((Table.mem_erase _ _ _).mp h).1) fun _ => ?_
    exact Leads.bind (clear_pattern_family_wanes _) fun _ => Leads.pure _
  · split
    · refine Leads.bind (drop_wanes (fun _ => rfl) (fun _ _ h => h)
        (fun _ _ h => List.mem_of_mem_erase h) fun _ _ h => h) fun _ => ?_
      exact Leads.bind (clear_request_wanes _ _) fun _ => Leads.pure _
    · split
      · exact Leads.pure _
      · refine Leads.bind (clear_one_wanes _) fun r => ?_
        split
        · exact Leads.pure _
        · exact Leads.bind (erase_wanes id) fun _ => Leads.pure _

theorem clear_class_prepares_wanes (reqs : List RequestId) :
    Leads Wanes (clear_class_prepares reqs) :=
  Leads.forM_mem _ fun _ _ => discard_wanes (clear_request_wanes _ _)

theorem disarm_everything_wanes : Leads Wanes disarm_everything := by
  refine Leads.bind ?_ fun _ => Leads.bind clear_all_breakpoints_wanes fun _ =>
    Leads.get_bind fun _ => Leads.bind (clear_class_prepares_wanes _) fun _ =>
    Leads.get_bind fun _ => Leads.bind ?_ fun _ => Leads.bind (clear_class_prepares_wanes _)
      fun _ =>
    Leads.get_bind fun _ => Leads.bind ?_ fun _ => Leads.bind (clear_class_prepares_wanes _)
      fun _ =>
    Leads.get_bind fun _ => Leads.bind ?_ fun _ => Leads.forM_mem _ fun sp _ =>
      discard_wanes (clear_stop_point_wanes sp)
  · intro w
    obtain ⟨q, hq⟩ := note_every_eq w.session
    rw [edit_run, hq]
    exact Wanes.of_shelf rfl
  · exact drop_wanes (fun _ => rfl) (fun _ _ h => h) (fun _ => List.nil_subset _) fun _ _ h => h
  · exact drop_wanes (fun _ => rfl) (fun _ _ h => h) (fun _ _ h => h) fun _ => List.nil_subset _
  · exact drop_wanes (fun _ => rfl) (fun _ => List.nil_subset _) (fun _ _ h => h) fun _ _ h => h

theorem clear_pending_step_wanes : Leads Wanes clear_pending_step := by
  refine Leads.get_bind fun w => ?_
  split
  · exact Leads.pure _
  · refine Leads.bind ?_ fun _ => discard_wanes (clear_request_wanes _ _)
    exact drop_wanes (fun _ => rfl) (fun _ _ h => h) (fun _ _ h => h) fun _ _ h => h

end Clearing

section Hits

variable (req : RequestId) (es : EventSet)

theorem edit_owner_wanes (f : StopPoint → StopPoint) (hf : ∀ sp, (f sp).id = sp.id)
    (h : ∀ sp, Remains sp (f sp)) : Leads Wanes (edit_owner req f hf) := by
  intro w
  simp only [edit_owner, edit_run]
  cases w.session.owner? req with
  | none => exact Wanes.of_shelf rfl
  | some sp => exact edit_stop_point_wanes sp.id f hf h w

theorem record_hit_wanes : Leads Wanes (record_stop_point_hit req) :=
  edit_owner_wanes req add_hit _ fun _ => ⟨rfl, rfl, List.Subset.refl _, rfl, rfl, fun _ => rfl⟩

theorem record_discarded_wanes : Leads Wanes (record_discarded_exit req) := by
  refine edit_owner_wanes req add_discarded _ fun sp => ?_
  refine ⟨add_discarded_id sp, tally_discarded.kind sp, ?_, ?_, ?_, fun _ => ?_⟩ <;>
    unfold add_discarded <;> split <;> simp

theorem charge_wanes : Leads Wanes (charge_trace_budget req) :=
  Leads.of_preserves fun w₀ => charge_preserves
    (fun w sp _ h => h.trans (edit_stop_point_wanes sp.id lower_budget (fun _ => rfl)
      (fun _ => ⟨rfl, rfl, List.Subset.refl _, rfl, rfl, fun _ => rfl⟩) w))
    ((disarm_request_wanes req).preserves w₀)
    fun _ => (edit_elsewhere_wanes fun _ => rfl).preserves w₀

theorem record_one_wanes (e : Event) : Leads Wanes (record_one_traced_event e) :=
  Leads.of_preserves fun w₀ => record_preserves ((record_discarded_wanes _).preserves w₀)
    ((record_hit_wanes _).preserves w₀)
    (fun _ _ _ _ => (edit_elsewhere_wanes fun _ => rfl).preserves w₀)
    ((charge_wanes _).preserves w₀) ((spend_wanes _).preserves w₀)

theorem record_events_wanes (events : List Event) (handled : Option ThreadId) (ours : Bool) :
    Leads Wanes (record_traced_events handled ours events) := by
  induction events generalizing handled ours with
  | nil => exact Leads.pure _
  | cons e rest ih =>
    refine Leads.bind (record_one_wanes e) fun r => ?_
    split <;> exact ih _ _

theorem record_trace_wanes : Leads Wanes (try_record_trace es) := by
  refine Leads.bind (record_events_wanes _ _ _) fun r => ?_
  split
  · exact Leads.bind (bench_wanes (resume_thread_bench _)) fun _ => Leads.pure _
  · exact Leads.pure _

theorem judge_wanes (e : Event) (thread : ThreadId) (loc : Location) (only : Bool) :
    Leads Wanes (judge_hit e thread loc only) :=
  Leads.of_preserves fun w₀ => judge_preserves ((record_discarded_wanes _).preserves w₀)
    ((record_hit_wanes _).preserves w₀)
    (fun _ _ => (bench_wanes (release_hit_bench _ _)).preserves w₀)
    (fun _ => (bench_wanes (escalate_bench _)).preserves w₀) thread loc only

theorem surface_wanes (escalation : Option FailedEscalation) :
    Leads Wanes (surface es escalation) :=
  Leads.of_preserves fun w₀ => surface_preserves
    (fun _ _ _ _ h => h.trans (Wanes.of_shelf rfl))
    ((bench_wanes now_bench).preserves w₀) (fun _ => (bench_wanes (send_bench _)).preserves w₀)
    es escalation

theorem store_wanes : Leads Wanes (store_reportable_event es) := by
  unfold store_reportable_event
  dsimp only
  split
  · exact surface_wanes _ _
  · split
    · exact surface_wanes _ _
    · refine Leads.bind (judge_wanes _ _ _ _) fun r => ?_
      split
      · exact spend_wanes _
      · exact Leads.bind (surface_wanes _ _) fun _ => spend_wanes _

/-- The listener's turn on a composite that reports no class load. -/
theorem report_wanes :
    Leads Wanes (do if ← try_record_trace es then pure () else store_reportable_event es) := by
  refine Leads.bind (record_trace_wanes es) fun recorded => ?_
  split
  · exact Leads.pure _
  · exact store_wanes es

end Hits

section Resuming

theorem continue_wanes : Leads Wanes handle_continue :=
  Leads.of_preserves fun w => continue_preserves (fun h => (shelf_wanes h).preserves w)
    (clear_pending_step_wanes.preserves w)

theorem step_wanes (thread_id : Option ThreadId) (depth : ℕ) (exclude only : List String) :
    Leads Wanes (handle_step thread_id depth exclude only) := by
  refine Leads.get_bind fun w => ?_
  split
  · exact Leads.pure _
  · refine Leads.bind clear_pending_step_wanes fun _ =>
      Leads.bind (set_lasting_wanes (Or.inr rfl) _ _) fun r => ?_
    cases r with
    | error e => exact Leads.pure _
    | ok req =>
      refine Leads.bind ?_ fun _ => Leads.bind (shelf_wanes (books_shelf _)) fun _ =>
        Leads.bind (bench_wanes resume_all_bench) fun r => ?_
      · exact drop_wanes (fun _ => rfl) (fun _ _ h => h) (fun _ _ h => h) fun _ _ h => h
      · cases r <;> exact Leads.pure _

theorem panic_wanes : Leads Wanes handle_panic := by
  refine Leads.bind clear_pending_step_wanes fun _ => Leads.bind disarm_everything_wanes fun _ =>
    Leads.bind (bench_wanes resume_and_verify_bench) fun r => ?_
  cases r with
  | error e => exact Leads.pure _
  | ok note =>
    exact Leads.bind (shelf_wanes (books_shelf _)) fun _ =>
      Leads.bind (shelf_wanes (release_suspends_shelf none)) fun _ => Leads.pure _

theorem drop_step_wanes (tid : ThreadId) : Leads Wanes (drop_step_of tid) := by
  refine Leads.get_bind fun w => ?_
  split
  · split
    · refine Leads.bind (clear_request_wanes _ _) fun _ => ?_
      exact drop_wanes (fun _ => rfl) (fun _ _ h => h) (fun _ _ h => h) fun _ _ h => h
    · exact Leads.pure _
  · exact Leads.pure _

theorem resume_one_wanes (thread_id : Option ThreadId) :
    Leads Wanes (handle_resume_thread thread_id) :=
  Leads.of_preserves fun w => resume_one_preserves (fun h => (shelf_wanes h).preserves w)
    (fun t => (drop_step_wanes t).preserves w) thread_id

theorem rescue_vm_wanes (cause : SuspendCause) : Leads Wanes (rescue_vm cause) := by
  refine Leads.bind clear_pending_step_wanes fun _ => Leads.bind ?_ fun disarmed =>
    Leads.bind ?_ fun _ => Leads.bind (edit_elsewhere_wanes fun _ => rfl) fun _ => Leads.pure _
  · unfold disarm_cause
    split
    · exact Leads.pure _
    · exact Leads.bind (disarm_request_wanes _) fun _ => Leads.pure _
  · refine Leads.bind (bench_wanes resume_and_verify_bench) fun r => ?_
    split
    · exact Leads.pure _
    · exact Leads.bind (shelf_wanes (books_shelf _)) fun _ => Leads.pure _
    · exact Leads.pure _

theorem disarm_requests_wanes (reqs : List RequestId) : Leads Wanes (disarm_requests reqs) := by
  induction reqs with
  | nil => exact Leads.pure _
  | cons r rest ih =>
    exact Leads.bind (disarm_request_wanes r) fun _ => Leads.bind ih fun _ => Leads.pure _

theorem watchdog_wanes (secs : ℕ) : Leads Wanes (watchdog_tick secs) := by
  refine Leads.bind ?_ fun _ => Leads.bind ?_ fun _ => Leads.pure _
  · refine Leads.get_bind fun w => ?_
    split
    · exact Leads.pure _
    · refine Leads.bind (bench_wanes now_bench) fun _ => ?_
      split
      · exact Leads.bind (rescue_vm_wanes _) fun _ => Leads.pure _
      · exact Leads.pure _
  · refine Leads.get_bind fun w => Leads.bind (bench_wanes now_bench) fun _ => ?_
    dsimp only
    split
    · exact Leads.pure _
    · exact Leads.bind (disarm_requests_wanes _) fun _ =>
        Leads.bind (shelf_wanes (release_suspends_shelf _)) fun _ =>
        Leads.bind (edit_elsewhere_wanes fun _ => rfl) fun _ => Leads.pure _

end Resuming

section Runs

/-- The calls that put no request of a stop point into the debuggee. -/
def Call.arms_nothing : Call → Bool
  | .set_line_stop _ _ _ _ _ _ | .set_exception_stop _ _ _ _ _ | .set_field_stop _ _ _ _ _
  | .set_method_exit_stop _ _ _ _ _ | .set_monitor_stop _ _ _
  | .toggle_stop_point _ _ | .update_stop_point _ _ _ => false
  | _ => true

theorem call_wanes {c : Call} (hc : Call.arms_nothing c = true) : Leads Wanes c.run := by
  cases c with
  | clear_stop_point id => exact discard_wanes (handle_clear_wanes id)
  | continue_ => exact discard_wanes continue_wanes
  | step tid depth exclude only => exact discard_wanes (step_wanes tid depth exclude only)
  | panic => exact discard_wanes panic_wanes
  | pause => exact discard_wanes (shelf_wanes pause_shelf)
  | suspend_thread tid => exact discard_wanes (shelf_wanes (suspend_one_shelf tid))
  | resume_thread tid => exact discard_wanes (resume_one_wanes tid)
  | thread_dump suspend => exact discard_wanes (shelf_wanes (dump_shelf suspend))
  | watchdog secs => exact discard_wanes (watchdog_wanes secs)
  | _ => simp [Call.arms_nothing] at hc

theorem begin_wanes (w : World) (a : Answers) : Wanes w (w.begin a) :=
  Wanes.of_session rfl le_rfl fun _ h => Or.inl h

theorem fire_wanes (w : World) (es : EventSet) (t : ThreadId) : Wanes w (World.fire w es t) := by
  have hsame := suspend_for_requests w.jvm es.suspend_policy t
  refine Wanes.of_session rfl hsame.2.1.ge fun q hq => Or.inl ?_
  exact hsame.1 ▸ (List.mem_filter.mp hq).1

def Loadless (es : EventSet) : Prop := ∀ e ∈ es.events, Rearming.class_prepare_of e.details = none

/-- The call arms nothing, and the event listener meets no class load. -/
def Unarming (w : World) : Move → Prop
  | .call c _ => Call.arms_nothing c = true
  | .fire _ _ => True
  | .listen _ => ∀ es ∈ w.queue.head?, Loadless es
  | .hit es _ _ => Loadless es

theorem listen_wanes (h : Loadless es) : Leads Wanes (Rearming.listen es) := by
  unfold Rearming.listen Rearming.try_arm_deferred_breakpoints
  rw [List.findSome?_eq_none_iff.mpr h]
  refine Leads.bind (Leads.pure false) fun loaded => ?_
  split
  · exact Leads.pure _
  · refine Leads.bind (record_trace_wanes es) fun traced => ?_
    split
    · exact Leads.pure _
    · exact store_wanes es

variable {w : World}

theorem world_listen_wanes (a : Answers) (h : ∀ es ∈ w.queue.head?, Loadless es) :
    Wanes w (World.listen w a) := by
  unfold World.listen
  split
  · exact Wanes.of_shelf rfl
  · rename_i es rest hq
    have hw : Wanes w ({ w with queue := rest }.begin a) :=
      Wanes.of_session rfl le_rfl fun _ h => Or.inl h
    exact hw.trans (listen_wanes (h es (by rw [hq]; rfl)) _)

theorem move_wanes {m : Move} (hm : m.Allowed w) (h : Unarming w m) : Wanes w (m.next w) := by
  cases m with
  | call c a => exact (begin_wanes w a).trans (call_wanes h _)
  | fire es t => exact fire_wanes w es t
  | listen a => exact world_listen_wanes a h
  | hit es t a =>
    refine (fire_wanes w es t).trans (world_listen_wanes a fun es' hes => ?_)
    simp only [World.fire, hm.2, List.nil_append, List.head?_cons, Option.mem_some] at hes
    exact hes ▸ h

/-- As long as no call arms anything and no class loads, no stop point gains a request, none
changes what it asks for, and only steps and class-load watches are newly requested. -/
theorem nothing_arms_itself {w' : World} (hrun : Run Unarming w w') : Wanes w w' :=
  Run.invariant (fun _ _ h hm hok => h.trans (move_wanes hm hok)) hrun (Wanes.of_shelf rfl)

theorem nothing_arms_itself_hit : (line_armed none).jvm.requests ≠ [] ∧
    Wanes (line_armed none) ((Move.hit (line_hit .all 1) 1 plain).next (line_armed none)) := by
  refine ⟨by decide +kernel, nothing_arms_itself (Relation.ReflTransGen.single ?_)⟩
  exact Step.intro (.hit (line_hit .all 1) 1 plain) (by unfold Move.Allowed; decide +kernel)
    (by unfold Unarming Loadless; decide +kernel)

end Runs

end JavaDebug.Waning
