import JavaDebug.Renewing

/-!
The ledger through a class-prepare event. A deferral hands its watch to the
stop point it becomes, a family takes a member or gives up its own watch, and
a line stop gains the requests of one more copy. The records the event found
when it came are still there when their turn comes.
-/
namespace JavaDebug.ClassLoads

open Jdwp StopPoints Wire
open Arming Rearming StateProgram Runs
open Ownership Withdrawing Granting Renewing

variable {strict : Prop} {hand : List Handle} {gone : Handle → Prop} {w w' : World}

section Deferrals

/-- Deferrals of the class just loaded, each still on the books. -/
structure Arriving (strict : Prop) (gone : Handle → Prop) (l : List PendingBreakpoint)
    (w : World) : Prop where
  ledger : Ledger strict [] gone w
  deferred : ∀ p ∈ l, p ∈ w.session.pending_breakpoints
  distinct : (l.map PendingBreakpoint.bp_id).Nodup

variable {p : PendingBreakpoint}

variable {s : DebugSession}

theorem filter_deferral (hs : Named s) (hp : p ∈ s.pending_breakpoints) :
    (s.pending_breakpoints.filter fun q => q.bp_id ≠ p.bp_id) = s.pending_breakpoints.erase p := by
  have hnd : s.pending_breakpoints.Nodup := List.Nodup.of_map _ hs.once
  rw [hnd.erase_eq_filter]
  refine List.filter_congr fun q hq => ?_
  have hiff : q.bp_id = p.bp_id ↔ q = p :=
    ⟨fun h => List.inj_on_of_nodup_map hs.once hq hp h, fun h => h ▸ rfl⟩
  by_cases h : q = p
  · simp [h]
  · simp [h, hiff]

theorem named_resolve (hs : Named s) (hp : p ∈ s.pending_breakpoints) {sp : StopPoint}
    (hid : sp.id = p.bp_id) : Named (s.resolve_pending sp) := by
  refine named_register (named_deferrals hs List.filter_sublist) ⟨?_, ?_, ?_, ?_⟩
  · rw [hid]
    exact hs.deferrals p hp
  · rw [hid]
    exact hs.unarmed p hp
  · intro q hq
    simpa using (List.mem_filter.mp hq).2
  · rw [hid]
    exact hs.outside p hp

theorem owned_resolve (hs : Named s) (hp : p ∈ s.pending_breakpoints) {sp : StopPoint}
    (hid : sp.id = p.bp_id) (hwatch : sp.watch_request = some p.class_prepare_request_id)
    (h : Handle) : owned (s.resolve_pending sp) h = owned s h + (hit_handles sp).count h := by
  have hfree : s.stop_points.get? sp.id = none := by
    rw [hid]
    exact hs.unarmed p hp
  have hreg := owned_register
    { s with pending_breakpoints := s.pending_breakpoints.erase p } hfree h
  have hout := owned_without_deferral s hp h
  have heq : s.resolve_pending sp = DebugSession.register_stop_point
      { s with pending_breakpoints := s.pending_breakpoints.erase p } sp := by
    simp only [DebugSession.resolve_pending, hid, filter_deferral hs hp]
  rw [heq, hreg]
  simp only [handles, hwatch, Option.map_some, Option.toList_some, List.count_append]
  omega

variable (strict gone) in
/-- One deferred breakpoint is armed on the loaded class, or stays deferred. -/
theorem arm_deferred_ledger (cp_ref : ClassId) (p : PendingBreakpoint)
    (rest : List PendingBreakpoint) :
    Ensures (Arriving strict gone (p :: rest)) (arm_deferred cp_ref p)
      fun _ => Arriving strict gone rest := by
  rintro w ⟨L, hdef, hd⟩
  obtain ⟨hout, hd⟩ := List.nodup_cons.mp hd
  have hp := hdef p List.mem_cons_self
  have hstay : ∀ w1 : World, Desk w.session strict [] gone w1 → Arriving strict gone rest w1 :=
    fun w1 h => ⟨h.1, fun q hq => by rw [h.2]; exact hdef q (List.mem_cons_of_mem p hq), hd⟩
  have hprog : Ensures (Desk w.session strict [] gone) (arm_deferred cp_ref p)
      fun _ => Arriving strict gone rest := by
    unfold arm_deferred
    refine Preserves.bind_ensures (resolve_desk w.session cp_ref _ _) fun r => ?_
    cases r with
    | error e => exact fun w1 h => hstay w1 h
    | ok loc =>
      refine Ensures.bind (set_desk w.session (k := .breakpoint _) (by rintro (h | h) <;> cases h))
        fun r => ?_
      cases r with
      | error e => exact fun w1 h => hstay w1 h
      | ok req =>
        refine Ensures.bind (arm_extra_desk w.session _ _ _ _) fun extra w1 h => ?_
        obtain ⟨L1, hs⟩ := h
        have hp1 : p ∈ w1.session.pending_breakpoints := by rwa [hs]
        replace L1 : Ledger strict (extra_handles extra ++ [(.breakpoint, req)] ++ []) gone w1 := by
          rw [List.append_nil]
          exact L1
        refine ⟨?_, fun q hq => ?_, hd⟩
        · refine Ledger.file L1
            (named_resolve L1.named hp1 rfl) (shaped_register L1.shaped
              (shaped_on rfl rfl fun h => absurd rfl h)) fun x => ?_
          rw [owned_resolve L1.named hp1 rfl rfl]
          simp only [hit_handles, StopOptions.stop_point, List.map_cons, List.map_map,
            List.count_cons, List.count_append, extra_handles, ArmedOn.code, List.count_nil]
          exact congrArg _ (congrArg _ (Nat.zero_add _).symm)
        · refine List.mem_filter.mpr ⟨?_, ?_⟩
          · rw [hs]
            exact hdef q (List.mem_cons_of_mem p hq)
          · have hne : q.bp_id ≠ p.bp_id := fun heq => hout (heq ▸ List.mem_map_of_mem hq)
            exact decide_eq_true hne
  exact hprog w ⟨L, rfl⟩

theorem arm_deferrals_ledger (cp_ref : ClassId) (p : PendingBreakpoint → Bool)
    (L : Ledger strict [] gone w) :
    Ledger strict [] gone
      (((w.session.pending_breakpoints.filter p).forM (arm_deferred cp_ref)).run w).2 := by
  have hloop := Ensures.forM (fun q rest => arm_deferred_ledger strict gone
    cp_ref q rest) (w.session.pending_breakpoints.filter p) w
  refine (hloop ⟨L, fun q hq => (List.mem_filter.mp hq).1, ?_⟩).ledger
  exact L.named.once.sublist (List.filter_sublist.map _)

end Deferrals

section Families

def enlist (id : StopId) (p : PatternStopSet) : PatternStopSet :=
  { p with members := p.members ++ [id] }

theorem named_enlist {s : DebugSession} {id : StopId} {sp : StopPoint} (hid : sp.id = id)
    (hu : Unused s id) (set_id : StopId) (hs : Named s) (hwatch : sp.watch_request = none) :
    Named ((s.register_stop_point sp).edit_pattern_set set_id (enlist id)) := by
  have hrow : ∀ v ∈ ((s.register_stop_point sp).edit_pattern_set set_id
      (enlist id)).pattern_sets.rows,
      ∃ u ∈ s.pattern_sets.rows, v.id = u.id ∧ v.enabled = u.enabled ∧ v.watch = u.watch ∧
        (v.members = u.members ∨ v.members = u.members ++ [id]) := by
    intro v hv
    obtain ⟨u, hu, rfl⟩ := (Table.mem_modify _ _ (enlist id) (fun _ => rfl) _).mp hv
    refine ⟨u, hu, ?_⟩
    split
    · exact ⟨rfl, rfl, rfl, Or.inr rfl⟩
    · exact ⟨rfl, rfl, rfl, Or.inl rfl⟩
  have hmem : ∀ v ∈ ((s.register_stop_point sp).edit_pattern_set set_id
      (enlist id)).pattern_sets.rows, ∀ m ∈ v.members,
      m = id ∨ ∃ u ∈ s.pattern_sets.rows, m ∈ u.members := by
    intro v hv m hm
    obtain ⟨u, hu, -, -, -, heq⟩ := hrow v hv
    rcases heq with heq | heq <;> rw [heq] at hm
    · exact Or.inr ⟨u, hu, hm⟩
    · rcases List.mem_append.mp hm with hm | hm
      · exact Or.inr ⟨u, hu, hm⟩
      · exact Or.inl (List.mem_singleton.mp hm)
  have hfree : Unused s sp.id := hid ▸ hu
  have hreg := named_register hs hfree
  refine ⟨hreg.stops, hreg.deferrals, fun v hv => ?_, fun v hv m hm => ?_, hreg.once,
    hreg.unarmed, fun q hq v hv hm => ?_, fun v hv m hm u hu' => ?_, fun v hv => ?_,
    fun v hv => ?_⟩
  · obtain ⟨u, hu', heq, -⟩ := hrow v hv
    rw [heq]
    exact hs.families u hu'
  · rcases hmem v hv m hm with rfl | ⟨u, hu', hm'⟩
    · exact hu.seq
    · exact hs.members u hu' m hm'
  · rcases hmem v hv _ hm with heq | ⟨u, hu', hm'⟩
    · exact hu.deferral q hq heq
    · exact hs.outside q hq u hu' hm'
  · rcases hmem v hv m hm with rfl | ⟨x, hx, hm'⟩
    · have hget : (s.register_stop_point sp).stop_points.get? m = some sp := by
        simp only [DebugSession.register_stop_point, Table.get?_insert, hid, if_pos]
      obtain rfl := Option.some.inj (hget.symm.trans hu')
      exact hwatch
    · exact hreg.covered x hx m hm' u hu'
  · obtain ⟨u, hu', -, -, -, heq⟩ := hrow v hv
    rcases heq with heq | heq <;> rw [heq]
    · exact hs.distinct u hu'
    · rw [List.nodup_append]
      refine ⟨hs.distinct u hu', List.nodup_singleton _, fun a ha b hb => ?_⟩
      rw [List.mem_singleton.mp hb]
      rintro rfl
      exact hu.member u hu' ha
  · obtain ⟨u, hu', -, hen, hw, -⟩ := hrow v hv
    rw [hen, hw]
    exact hs.unwatched u hu'

theorem ledger_enlist {s : DebugSession} {id : StopId} (set_id : StopId)
    (L : Ledger strict [] gone w) {sp : StopPoint} (hid : sp.id = id)
    (hw : w.session = s.register_stop_point sp) (hs : Named s) (hu : Unused s id)
    (hwatch : sp.watch_request = none) :
    Ledger strict [] gone
      { w with session := w.session.edit_pattern_set set_id (enlist id) } := by
  refine L.shift (by rw [hw]; exact named_enlist hid hu set_id hs hwatch) L.shaped (fun h => ?_)
    fun _ _ => Or.inr
  cases hset : w.session.pattern_sets.get? set_id with
  | none => exact congrArg (fun s => owned s h) (edit_absent_set w.session (enlist id) _ hset)
  | some set =>
    have := owned_edit_pattern_set w.session (enlist id) (fun _ => rfl) hset h
    have heq : family_handles (enlist id set) = family_handles set := rfl
    rw [heq] at this
    omega

theorem park_ledger (set_id : StopId) (L : Ledger strict [] nothing w) :
    Ledger strict [] nothing ((park_family_watch_if_full set_id).run w).2 := by
  unfold park_family_watch_if_full
  simp only [run_bind, run_get]
  cases hset : w.session.pattern_sets.get? set_id with
  | none => exact L
  | some set =>
    simp only
    split
    · rename_i req hroom hreq
      have hmem := ((Table.get?_eq_some _ _ _).mp hset).1
      have hone : family_handles set = [watch_handle req] := by simp [family_handles, hreq]
      obtain ⟨Lc, hok⟩ := clear_request_ledger .class_prepare req L fun hs =>
        family_live L hs hmem (by rw [hone]; exact List.mem_cons_self)
      have hs := (clear_request_withdrawn .class_prepare req w).1.session
      simp only [clear_class_prepare, run_bind]
      revert Lc hs hok
      generalize (clear_request .class_prepare req).run w = res
      obtain ⟨r, w1⟩ := res
      intro Lc hok hs
      simp only at Lc hok hs
      cases r with
      | error e =>
        have hno : ¬ strict := fun hst => by cases hok hst
        exact Lc.lax hno
      | ok _ =>
        rw [← hs] at hset
        have Lf : Ledger strict [] (fun h => nothing h ∨ h ∈ family_handles set) w1 :=
          Lc.recall fun x => by rw [hone, List.mem_singleton]; rfl
        refine Lf.strike (named_edit_set Lf.named (fun p => { p with watch := .parked })
          (fun _ => rfl) (fun _ => List.Sublist.refl _) fun _ _ _ => rfl) Lf.shaped fun h => ?_
        exact owned_edit_pattern_set w1.session (fun p => { p with watch := .parked })
          (fun _ => rfl) hset h
    · exact L

theorem arm_member_ledger (class_ref : ClassId) (signature fqn : String) (set_id : StopId) :
    Preserves (Ledger strict [] nothing)
      (arm_pattern_set_member class_ref signature fqn set_id) := by
  intro w L
  unfold arm_pattern_set_member
  simp only [run_bind, run_get]
  cases hset : w.session.pattern_sets.get? set_id with
  | none => exact L
  | some set =>
    simp only [run_ite]
    split
    · split
      · exact park_ledger set_id (ledger_edit_set L set_id
          (fun p => { p with skipped_at_cap := p.skipped_at_cap + 1 }) (fun _ => rfl)
          (fun _ => List.Sublist.refl _) (fun _ => rfl) fun _ => rfl)
      · exact park_ledger set_id L
    · obtain ⟨Lf, hu⟩ := fresh_id_ledger "bp_" L
      simp only [run_bind]
      revert Lf hu
      generalize (fresh_id "bp_").run w = res
      obtain ⟨bp_id, w1⟩ := res
      intro Lf hu
      simp only at Lf hu ⊢
      have hins := arm_and_insert_ledger [class_ref] (spec_from_pattern_set set fqn signature)
        .covered_by_family hu w1 ⟨Lf, rfl⟩
      revert hins
      generalize (arm_and_insert [class_ref] (spec_from_pattern_set set fqn signature) bp_id
        .covered_by_family).run w1 = out
      obtain ⟨out, w2⟩ := out
      intro hins
      rcases out with (_ | f) | id
      · exact ledger_edit_set hins.1 set_id (fun p => { p with no_method := p.no_method + 1 })
          (fun _ => rfl) (fun _ => List.Sublist.refl _) (fun _ => rfl) fun _ => rfl
      · exact hins.1
      · obtain ⟨rfl, L2, sp, hsp, hs, hw⟩ := hins
        exact park_ledger set_id (ledger_enlist set_id L2 hsp hs Lf.named hu hw)

theorem arm_members_of_class_ledger (class_ref : ClassId) (signature : String) :
    Preserves (Ledger strict [] nothing) (arm_pattern_set_members class_ref signature) := by
  unfold arm_pattern_set_members
  refine Preserves.get_bind fun w _ => Preserves.forM_mem _ fun set_id _ => ?_
  exact arm_member_ledger class_ref signature _ set_id

end Families

section Copies

/-- Line stops that watch for the loaded class, each still enabled. -/
structure Copying (strict : Prop) (gone : Handle → Prop) (l : List LaterCopyTarget)
    (w : World) : Prop where
  ledger : Ledger strict [] gone w
  armed : ∀ t ∈ l, ∃ sp, w.session.stop_points.get? t.bp_id = some sp ∧
    sp.enabled = true ∧ sp.spent = false ∧ sp.kind = .line
  distinct : (l.map LaterCopyTarget.bp_id).Nodup

variable (req_ids : List RequestId)

theorem add_copy_handles (locs : List ArmedLocation) {sp : StopPoint} (hline : sp.kind = .line) :
    handles (add_copy req_ids locs sp) =
      hit_handles sp ++ req_ids.map (fun r => (.breakpoint, r)) ++
        (sp.watch_request.map watch_handle).toList := by
  obtain ⟨bp, hbp⟩ : ∃ bp, sp.armed_on = .line bp := by
    revert hline
    unfold StopPoint.kind ArmedOn.kind
    cases sp.armed_on <;> simp
  simp only [handles, hit_handles, add_copy, StopPoint.watch_request, StopPoint.line, hbp,
    ArmedOn.code, List.map_append, Option.bind_some]

theorem add_copy_watch (locs : List ArmedLocation) (sp : StopPoint) :
    (add_copy req_ids locs sp).watch_request = sp.watch_request := by
  unfold StopPoint.watch_request StopPoint.line add_copy
  cases sp.armed_on <;> rfl

theorem add_copy_kind (locs : List ArmedLocation) (sp : StopPoint) :
    (add_copy req_ids locs sp).kind = sp.kind := by
  unfold StopPoint.kind add_copy
  cases sp.armed_on <;> rfl

variable (strict gone) in
theorem later_copy_ledger (cp_ref : ClassId) (t : LaterCopyTarget) (rest : List LaterCopyTarget) :
    Ensures (Copying strict gone (t :: rest)) (rearm_later_copy cp_ref t)
      fun _ => Copying strict gone rest := by
  rintro w ⟨L, harm, hd⟩
  obtain ⟨hout, hd⟩ := List.nodup_cons.mp hd
  have hstay : ∀ w1 : World, Desk w.session strict [] gone w1 → Copying strict gone rest w1 :=
    fun w1 h => ⟨h.1, fun u hu => by rw [h.2]; exact harm u (List.mem_cons_of_mem t hu), hd⟩
  obtain ⟨sp, hsp, hon, hspent, hline⟩ := harm t List.mem_cons_self
  have hprog : Ensures (Desk w.session strict [] gone) (rearm_later_copy cp_ref t)
      fun _ => Copying strict gone rest := by
    unfold rearm_later_copy
    refine Preserves.bind_ensures (resolve_desk w.session cp_ref _ _) fun r => ?_
    cases r with
    | error e => exact fun w1 h => hstay w1 h
    | ok loc =>
      refine Ensures.bind (set_desk w.session (k := .breakpoint _) (by rintro (h | h) <;> cases h))
        fun r => ?_
      cases r with
      | error e => exact fun w1 h => hstay w1 h
      | ok req =>
        refine Ensures.bind (arm_extra_desk w.session _ _ _ _) fun extra w1 h => ?_
        obtain ⟨L1, hs⟩ := h
        replace L1 : Ledger strict (extra_handles extra ++ [(.breakpoint, req)] ++ []) gone w1 := by
          rw [List.append_nil]
          exact L1
        rw [← hs] at hsp
        refine ⟨L1.file (named_edit L1.named fun _ => add_copy_watch _ _ _)
          (shaped_edit L1.shaped fun v hv hid => ?_) fun x => ?_, fun u hu => ?_, hd⟩
        · obtain rfl := Option.some.inj (((Table.get?_eq_some _ _ _).mpr ⟨hv, hid⟩).symm.trans hsp)
          exact shaped_on hon hspent fun hk => absurd ((add_copy_kind _ _ _).trans hline) hk
        · have := owned_edit_stop_point w1.session (add_copy (req :: extra.map Prod.fst)
            (⟨cp_ref, loc.method_id, loc.code_index⟩ :: extra.map Prod.snd)) (fun _ => rfl) hsp x
          rw [add_copy_handles _ _ hline] at this
          simp only [handles, List.count_append, List.map_cons, List.count_cons, extra_handles_eq,
            List.count_nil] at this ⊢
          omega
        · have hne : u.bp_id ≠ t.bp_id := fun heq => hout (heq ▸ List.mem_map_of_mem hu)
          obtain ⟨v, hv, hrest⟩ := harm u (List.mem_cons_of_mem t hu)
          rw [← hs] at hv
          exact ⟨v, (others_edit _ _ _ _ hne).trans hv, hrest⟩
  exact hprog w ⟨L, rfl⟩

theorem later_copy_target_some {cp_ref : ClassId} {cp_sig : String} {sp : StopPoint}
    {t : LaterCopyTarget} (h : later_copy_target cp_ref cp_sig sp = some t) :
    t.bp_id = sp.id ∧ sp.enabled = true ∧ sp.spent = false ∧ sp.kind = .line := by
  unfold later_copy_target at h
  cases hline : sp.line with
  | none => rw [hline] at h; cases h
  | some bp =>
    simp only [hline] at h
    split at h
    · cases h
    · split at h
      · rename_i hcond
        simp only [Bool.and_eq_true, Bool.not_eq_true', decide_eq_true_eq] at hcond
        cases h
        refine ⟨rfl, hcond.1.1.1.1, hcond.1.1.1.2, ?_⟩
        revert hline
        unfold StopPoint.line StopPoint.kind
        cases sp.armed_on <;> simp [ArmedOn.kind]
      · cases h

theorem later_copies_ledger (cp_ref : ClassId) (cp_sig : String) (L : Ledger strict [] gone w) :
    Ledger strict [] gone ((rearm_later_copies cp_ref cp_sig).run w).2 := by
  unfold rearm_later_copies
  rw [run_bind, run_get]
  have hids : (w.session.stop_points.rows.filterMap (later_copy_target cp_ref cp_sig)).map
      LaterCopyTarget.bp_id |>.Sublist (w.session.stop_points.rows.map StopPoint.id) := by
    generalize w.session.stop_points.rows = rows
    induction rows with
    | nil => exact List.Sublist.refl _
    | cons sp rest ih =>
      rw [List.filterMap_cons]
      split
      · exact ih.cons _
      · rename_i t ht
        rw [List.map_cons, List.map_cons, (later_copy_target_some ht).1]
        exact ih.cons_cons _
  refine (Ensures.forM (fun t rest => later_copy_ledger strict gone
    cp_ref t rest) _ w ⟨L, fun t ht => ?_, w.session.stop_points.nodup.sublist hids⟩).ledger
  obtain ⟨sp, hsp, heq⟩ := List.mem_filterMap.mp ht
  obtain ⟨hid, hrest⟩ := later_copy_target_some heq
  exact ⟨sp, (Table.get?_eq_some _ _ _).mpr ⟨hsp, hid.symm⟩, hrest⟩

end Copies

theorem resume_thread_ledger (t : ThreadId) :
    Preserves (Ledger strict hand gone) (resume_thread t) := by
  intro w L
  rw [resume_thread, perform_run]
  cases w.refuses (.resume_thread t) <;> exact L.of_shelf rfl

theorem class_prepare_ledger (es : EventSet) (L : Ledger strict [] nothing w) :
    Ledger strict [] nothing ((try_arm_deferred_breakpoints es).run w).2 := by
  unfold try_arm_deferred_breakpoints
  split
  · exact L
  · rename_i cp_thread cp_ref cp_sig _
    simp only [run_bind, run_get]
    have L1 := arm_deferrals_ledger cp_ref (fun p => decide (p.signature = cp_sig)) L
    have L2 := arm_members_of_class_ledger cp_ref cp_sig _ L1
    exact resume_thread_ledger cp_thread _ (later_copies_ledger cp_ref cp_sig L2)

end JavaDebug.ClassLoads
