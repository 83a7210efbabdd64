import JavaDebug.ArmingWalks
import JavaDebug.Withdrawing

/-!
The ledger through the functions that put requests in: the arming tools,
deferred breakpoints and families. What a Set grants is in hand until a record
takes it; a line stop that fails to arm leaves its class-load watch in hand,
and that is the one place where a strict session needs a condition.
-/
namespace JavaDebug.Granting

open Jdwp StopPoints Wire Disarming
open Arming StateProgram Runs Ownership
open Withdrawing ArmingWalks

variable {strict : Prop} {hand : List Handle} {gone : Handle → Prop} {w w' : World}

section Lines

variable (s : DebugSession)

theorem resolve_desk (class_id : ClassId) (line : Option ℤ) (method : Option String) :
    Preserves (Desk s strict hand gone) (resolve_bp_location class_id line method) :=
  lookup_desk s _

theorem classes_desk (sig : String) :
    Preserves (Desk s strict hand gone) (classes_by_signature sig) := lookup_desk s _

def extra_handles (extra : List (RequestId × ArmedLocation)) : List Handle :=
  extra.map fun e => (.breakpoint, e.1)

theorem arm_extra_desk (p : SuspendPolicy) (f : EventFilters) (locs : List ArmedLocation)
    (hand : List Handle) :
    Ensures (Desk s strict hand gone) (arm_extra_line_locations p f locs) fun extra =>
      Desk s strict (extra_handles extra ++ hand) gone := by
  induction locs generalizing hand with
  | nil => exact fun w hw => hw
  | cons loc rest ih =>
    refine Ensures.bind (set_desk s (k := .breakpoint (ArmedLocation.wire loc))
      (by rintro (h | h) <;> cases h)) fun sent => ?_
    cases sent with
    | error e => exact Ensures.bind (ih hand) fun others w hw => hw
    | ok req =>
      refine Ensures.bind (ih _) fun others w hw => ⟨hw.1.permute fun x => ?_, hw.2⟩
      simp only [run_pure, extra_handles, List.map_cons, List.cons_append, List.count_cons,
        List.count_append, RequestKind.code]
      omega

/-- No record bears the name. -/
structure Unused (s : DebugSession) (id : StopId) : Prop where
  seq : id.seq ≤ s.stop_seq
  stop : s.stop_points.get? id = none
  deferral : ∀ p ∈ s.pending_breakpoints, p.bp_id ≠ id
  member : ∀ set ∈ s.pattern_sets.rows, id ∉ set.members

variable {sp : StopPoint}

theorem named_register {s : DebugSession} (hs : Named s) (hu : Unused s sp.id) :
    Named (s.register_stop_point sp) := by
  refine ⟨fun v hv => ?_, hs.deferrals, hs.families, hs.members, hs.once, fun p hp => ?_,
    hs.outside, fun set hset m hm v hv => ?_, hs.distinct, hs.unwatched⟩
  · rcases (Table.mem_insert _ _ _).mp hv with hv | rfl
    · exact hs.stops v hv.1
    · exact hu.seq
  · simp only [DebugSession.register_stop_point, Table.get?_insert, hu.deferral p hp, if_false]
    exact hs.unarmed p hp
  · simp only [DebugSession.register_stop_point, Table.get?_insert] at hv
    split at hv
    · rename_i heq
      exact absurd (heq ▸ hm) (hu.member set hset)
    · exact hs.covered set hset m hm v hv

theorem shaped_register {s : DebugSession} (hs : ∀ v ∈ s.stop_points.rows, Shaped v)
    (hsp : Shaped sp) : ∀ v ∈ (s.register_stop_point sp).stop_points.rows, Shaped v := by
  intro v hv
  rcases (Table.mem_insert _ _ _).mp hv with hv | rfl
  · exact hs v hv.1
  · exact hsp

theorem ledger_register (sp : StopPoint) (L : Ledger strict (handles sp ++ hand) gone w)
    (hu : Unused w.session sp.id) (hsp : Shaped sp) :
    Ledger strict hand gone { w with session := w.session.register_stop_point sp } :=
  L.file (named_register L.named hu) (shaped_register L.shaped hsp)
    (owned_register w.session hu.stop)

theorem shaped_on (hon : sp.enabled = true) (hspent : sp.spent = false)
    (hone : sp.kind ≠ .line → sp.request_ids.length ≤ 1) : Shaped sp :=
  ⟨fun h => (by rw [hon] at h; cases h), fun h => (by rw [hspent] at h; cases h), hone⟩

def rearm_handles (rearm : RearmState) : List Handle :=
  (rearm.watch.map fun r => watch_handle r.request_id).toList

/-- What `arm_and_insert` leaves: a new stop point that took the watch, or nothing but the watch
in hand. -/
def Inserted (s : DebugSession) (strict : Prop) (gone : Handle → Prop) (bp_id : StopId)
    (rearm : RearmState) (r : Except ArmError StopId) (w : World) : Prop :=
  match r with
  | .ok id => id = bp_id ∧ Ledger strict [] gone w ∧
      ∃ sp : StopPoint, sp.id = bp_id ∧ w.session = s.register_stop_point sp ∧
        sp.watch_request = rearm.watch.map ReArmWatch.request_id
  | .error _ => Desk s strict (rearm_handles rearm) gone w

theorem arm_and_insert_ledger {s : DebugSession} (copies : List ClassId) (spec : BreakpointSpec)
    {bp_id : StopId} (rearm : RearmState) (hu : Unused s bp_id) :
    Ensures (Desk s strict (rearm_handles rearm) gone) (arm_and_insert copies spec bp_id rearm)
      (Inserted s strict gone bp_id rearm) := by
  unfold arm_and_insert
  split
  · exact fun w hw => hw
  refine Preserves.bind_ensures (primary_reads (lookup_desk s) copies copies spec) fun r => ?_
  split
  · exact fun w hw => hw
  rename_i class_id loc other_copies
  split
  · exact fun w hw => hw
  refine Ensures.bind (set_desk s (k := .breakpoint _) (by rintro (h | h) <;> cases h)) fun r => ?_
  cases r with
  | error e => exact fun w hw => hw
  | ok req =>
    refine Preserves.bind_ensures (others_read (lookup_desk s) _ spec) fun copies => ?_
    refine Ensures.bind (arm_extra_desk s _ _ _ _) fun extra => ?_
    rintro w ⟨L, rfl⟩
    refine ⟨rfl, ledger_register _ (L.permute fun x => ?_) hu (shaped_on rfl rfl ?_), _, rfl, rfl,
      ?_⟩
    · simp only [handles, hit_handles, StopOptions.stop_point, StopPoint.watch_request,
        StopPoint.line, Option.bind_some, Option.map_map, List.map_cons, List.map_map,
        List.append_nil, List.cons_append, List.count_cons, List.count_append, extra_handles,
        rearm_handles, RequestKind.code, ArmedOn.code]
      exact Nat.add_assoc _ _ _
    · exact fun h => absurd rfl h
    · rfl

theorem fresh_id_ledger (tag : String) (L : Ledger strict hand gone w) :
    Ledger strict hand gone ((fresh_id tag).run w).2 ∧
    Unused ((fresh_id tag).run w).2.session ((fresh_id tag).run w).1 := by
  refine ⟨⟨L.named.congr rfl rfl rfl (Nat.le_succ _), L.shaped, L.custody, L.lasting,
    fun hs => ?_⟩, le_rfl, ?_, ?_, ?_⟩
  · have hx := L.exact_ hs
    exact ⟨hx.covered, hx.standing, hx.in_hand, hx.dead, hx.no_stray, hx.clears, hx.clears_all⟩
  · refine (Table.get?_eq_none _ _).mpr fun sp hsp heq => ?_
    have := L.named.stops sp hsp
    rw [heq] at this
    exact absurd this (Nat.not_succ_le_self _)
  · intro p hp heq
    have := L.named.deferrals p hp
    rw [heq] at this
    exact absurd this (Nat.not_succ_le_self _)
  · intro set hset hm
    exact absurd (L.named.members set hset _ hm) (Nat.not_succ_le_self _)

/-- Arming at these copies would fail: no copy has the location, an instance filter meets a static
method, or the Set is refused. -/
def Unarmable (w : World) (copies : List ClassId) (spec : BreakpointSpec) : Prop :=
  match (resolve_primary_copy copies spec copies).run w with
  | (.error _, _) => True
  | (.ok (class_id, loc, _), w') =>
    (spec.options.instance_filter.isSome && loc.is_static) = true ∨
      (w'.refuses (.set (.breakpoint ⟨class_id, loc.method_id, loc.code_index⟩)
        spec.suspend_policy spec.options.filters)).isSome

theorem arm_and_insert_error {copies : List ClassId} (hne : copies ≠ []) (spec : BreakpointSpec)
    (bp_id : StopId) (rearm : RearmState) (w : World) (e : ArmError)
    (h : ((arm_and_insert copies spec bp_id rearm).run w).1 = .error e) :
    Unarmable w copies spec := by
  unfold arm_and_insert at h
  rw [if_neg (by simpa using hne), run_bind] at h
  unfold Unarmable
  revert h
  generalize (resolve_primary_copy copies spec copies).run w = res
  obtain ⟨r, w'⟩ := res
  intro h
  rcases r with e' | ⟨class_id, loc, rest⟩
  · trivial
  · simp only [run_ite] at h
    split at h
    · rename_i hstatic
      exact Or.inl hstatic
    · refine Or.inr ?_
      simp only [run_bind, set_breakpoint_ex, set_request_run] at h
      cases hr : w'.refuses (.set (.breakpoint ⟨class_id, loc.method_id, loc.code_index⟩)
        spec.suspend_policy spec.options.filters) with
      | some e' => rfl
      | none =>
        rw [hr] at h
        cases h

/-- The class-load watch is accepted and then no location can be armed, whether the class was
loaded at once or turned out to be when the watch was made: the watch is left without a record. -/
def LosesWatch (w : World) (spec : BreakpointSpec) : Prop :=
  match (classes_by_signature spec.signature).run w with
  | (.error _, _) => False
  | (.ok [], w') =>
    w'.refuses (.set (.class_prepare spec.class_pattern) .eventThread no_filters) = none ∧
      let found := (classes_by_signature spec.signature).run
        ((set_class_prepare spec.class_pattern).run w').2
      found.1.toOption.getD [] ≠ [] ∧ Unarmable found.2 (found.1.toOption.getD []) spec
  | (.ok classes, w') =>
    w'.refuses (.set (.class_prepare spec.class_pattern) .eventThread no_filters) = none ∧
      Unarmable ((register_rearm_watch spec).run w').2 classes spec

theorem owned_deferral (p : PendingBreakpoint) (h : Handle) :
    owned { s with pending_breakpoints := s.pending_breakpoints ++ [p] } h =
      owned s h + [watch_handle p.class_prepare_request_id].count h := by
  simp only [owned, deferral_handles, List.map_append, List.map_cons, List.map_nil,
    List.count_append]
  omega

theorem named_deferral {s : DebugSession} (hn : Named s) {p : PendingBreakpoint}
    (hu : Unused s p.bp_id) :
    Named { s with pending_breakpoints := s.pending_breakpoints ++ [p] } := by
  have hall : ∀ {P : PendingBreakpoint → Prop}, (∀ q ∈ s.pending_breakpoints, P q) → P p →
      ∀ q ∈ s.pending_breakpoints ++ [p], P q := fun h hp q hq =>
    (List.mem_append.mp hq).elim (h q) fun hq => List.mem_singleton.mp hq ▸ hp
  refine ⟨hn.stops, hall hn.deferrals hu.seq, hn.families, hn.members, ?_,
    hall hn.unarmed hu.stop, hall hn.outside hu.member, hn.covered, hn.distinct, hn.unwatched⟩
  rw [List.map_append, List.nodup_append]
  refine ⟨hn.once, List.nodup_singleton _, fun a ha b hb => ?_⟩
  obtain ⟨q, hq, rfl⟩ := List.mem_map.mp ha
  rw [List.mem_singleton.mp hb]
  exact hu.deferral q hq

theorem defer_ledger {s : DebugSession} {spec : BreakpointSpec} {bp_id : StopId}
    (hw : Desk s strict [] nothing w) (hu : Unused s bp_id)
    (hc : strict → ¬ (w.refuses (.set (.class_prepare spec.class_pattern) .eventThread no_filters) =
        none ∧
      let found := (classes_by_signature spec.signature).run
        ((set_class_prepare spec.class_pattern).run w).2
      found.1.toOption.getD [] ≠ [] ∧ Unarmable found.2 (found.1.toOption.getD []) spec)) :
    Ledger strict [] nothing ((defer_breakpoint spec bp_id).run w).2 := by
  unfold defer_breakpoint
  rw [run_ite]
  split
  · exact hw.1
  have hset := watch_desk s spec.class_pattern w hw
  have hrun := set_request_run (.class_prepare spec.class_pattern) .eventThread no_filters w
  simp only [run_bind]
  cases hr : w.refuses (.set (.class_prepare spec.class_pattern) .eventThread no_filters) with
  | some e =>
    rw [hr] at hrun
    have hres : ((set_class_prepare spec.class_pattern).run w).1 = .error e :=
      congrArg Prod.fst hrun
    rw [hres] at hset
    simp only [hres]
    exact hset.1
  | none =>
    rw [hr] at hrun
    have hres : ((set_class_prepare spec.class_pattern).run w).1 = .ok w.jvm.next_request :=
      congrArg Prod.fst hrun
    rw [hres] at hset
    simp only [hres, run_bind, run_ite]
    replace hc := fun hs => not_and.mp (hc hs) hr
    have hfound := classes_desk s spec.signature _ hset
    revert hc hfound
    generalize (classes_by_signature spec.signature).run
      ((set_class_prepare spec.class_pattern).run w).2 = found
    obtain ⟨r, w'⟩ := found
    intro hc hfound
    simp only
    split
    · obtain ⟨L, rfl⟩ := hfound
      exact L.file (s := { w'.session with pending_breakpoints :=
          w'.session.pending_breakpoints ++ [pending spec bp_id w.jvm.next_request] })
        (named_deferral L.named hu) L.shaped (owned_deferral _ _)
    · rename_i hne
      have hins := arm_and_insert_ledger (r.toOption.getD []) spec
        (watching w.jvm.next_request spec) hu w' (hfound : Desk s strict _ nothing w')
      revert hins
      have hne' : r.toOption.getD [] ≠ [] := by simpa using hne
      have herr := arm_and_insert_error hne' spec bp_id (watching w.jvm.next_request spec) w'
      revert herr
      generalize (arm_and_insert (r.toOption.getD []) spec bp_id
        (watching w.jvm.next_request spec)).run w' = res
      obtain ⟨out, w''⟩ := res
      intro herr hins
      rcases out with e | id
      · have hno : ¬ strict := fun hs => hc hs ⟨hne', herr e rfl⟩
        exact (hins.1).drop hno
      · exact hins.2.1

theorem rearm_watch_desk (spec : BreakpointSpec) :
    Ensures (Desk s strict [] gone) (register_rearm_watch spec) fun plan =>
      Desk s strict (rearm_handles plan) gone := by
  refine Ensures.bind (watch_desk s spec.class_pattern) fun r => ?_
  cases r with
  | ok req => exact fun w hw => hw
  | error e => exact fun w hw => hw

/-- One exact name is armed or deferred, unless the watch made for it is lost. -/
theorem arm_exact_ledger (spec : BreakpointSpec) (L : Ledger strict [] nothing w)
    (hc : strict → ¬ LosesWatch ((fresh_id "bp_").run w).2 spec) :
    Ledger strict [] nothing ((arm_exact spec).run w).2 := by
  obtain ⟨Lf, hu⟩ := fresh_id_ledger "bp_" L
  unfold arm_exact
  simp only [run_bind]
  revert hc Lf hu
  generalize (fresh_id "bp_").run w = res
  obtain ⟨bp_id, w1⟩ := res
  intro hc Lf hu
  simp only at hc Lf hu ⊢
  have hfound := classes_desk w1.session spec.signature w1 ⟨Lf, rfl⟩
  unfold LosesWatch at hc
  revert hc hfound
  generalize (classes_by_signature spec.signature).run w1 = found
  obtain ⟨r, w2⟩ := found
  intro hc hfound
  cases r with
  | error e => exact hfound.1
  | ok classes =>
    simp only [run_ite]
    cases classes with
    | nil => exact defer_ledger hfound hu hc
    | cons c rest =>
      simp only [List.isEmpty_cons, Bool.false_eq_true, if_false, run_bind]
      have hplan := rearm_watch_desk w1.session spec w2 hfound
      simp only at hc
      have hrun : w2.refuses (.set (.class_prepare spec.class_pattern) .eventThread no_filters) ≠
          none → ((register_rearm_watch spec).run w2).1 = .unwatched := fun hr => by
        obtain ⟨e, he⟩ := Option.ne_none_iff_exists'.mp hr
        have := set_request_run (.class_prepare spec.class_pattern) .eventThread no_filters w2
        rw [he] at this
        simp only [register_rearm_watch, run_bind, set_class_prepare, this, run_pure]
      revert hc hplan hrun
      generalize (register_rearm_watch spec).run w2 = res
      obtain ⟨plan, w3⟩ := res
      intro hc hplan hrun
      have hins := arm_and_insert_ledger (c :: rest) spec plan hu w3 hplan
      have herr := arm_and_insert_error (List.cons_ne_nil c rest) spec bp_id plan w3
      revert hins herr
      generalize (arm_and_insert (c :: rest) spec bp_id plan).run w3 = out
      obtain ⟨out, w4⟩ := out
      intro hins herr
      cases out with
      | ok id => exact hins.2.1
      | error e =>
        by_cases hr : w2.refuses (.set (.class_prepare spec.class_pattern) .eventThread
            no_filters) = none
        · exact hins.1.drop fun hs => hc hs ⟨hr, herr e rfl⟩
        · have hplan' : plan = .unwatched := hrun hr
          subst hplan'
          exact hins.1

end Lines

section Families

/-- Names that a family about to be made may take for its members. -/
structure Members (s : DebugSession) (got : List StopId) : Prop where
  seq : ∀ m ∈ got, m.seq ≤ s.stop_seq
  outside : ∀ p ∈ s.pending_breakpoints, p.bp_id ∉ got
  covered : ∀ m ∈ got, ∀ sp, s.stop_points.get? m = some sp → sp.watch_request = none
  distinct : got.Nodup

theorem Members.add {s : DebugSession} {got : List StopId} (h : Members s got) {id : StopId}
    (hu : Unused s id) (hid : id ∉ got) {sp : StopPoint} (hsp : sp.id = id)
    (hw : sp.watch_request = none) : Members (s.register_stop_point sp) (got ++ [id]) := by
  have hget : ∀ m v, (s.register_stop_point sp).stop_points.get? m = some v →
      (m = id ∧ v = sp) ∨ (m ≠ id ∧ s.stop_points.get? m = some v) := fun m v hv => by
    simp only [DebugSession.register_stop_point, Table.get?_insert, hsp] at hv
    split at hv
    · exact Or.inl ⟨‹_›, (Option.some.inj hv).symm⟩
    · exact Or.inr ⟨‹_›, hv⟩
  refine ⟨fun m hm => ?_, fun p hp hm => ?_, fun m hm v hv => ?_, ?_⟩
  · rcases List.mem_append.mp hm with hm | hm
    · exact h.seq m hm
    · rw [List.mem_singleton.mp hm]
      exact hu.seq
  · rcases List.mem_append.mp hm with hm | hm
    · exact h.outside p hp hm
    · exact hu.deferral p hp (List.mem_singleton.mp hm)
  · rcases hget m v hv with ⟨-, rfl⟩ | ⟨hne, hv⟩
    · exact hw
    · rcases List.mem_append.mp hm with hm | hm
      · exact h.covered m hm v hv
      · exact absurd (List.mem_singleton.mp hm) hne
  · rw [List.nodup_append]
    refine ⟨h.distinct, List.nodup_singleton _, fun a ha b hb => ?_⟩
    rw [List.mem_singleton.mp hb]
    rintro rfl
    exact hid ha

/-- A family is being armed: its members so far, in a session whose families and deferrals stay
as they are. -/
structure Recruiting (strict : Prop) (gone : Handle → Prop) (s : DebugSession)
    (got : List StopId) (w : World) : Prop where
  ledger : Ledger strict [] gone w
  members : Members w.session got
  families : w.session.pattern_sets = s.pattern_sets
  seq : s.stop_seq ≤ w.session.stop_seq

variable (spec : BreakpointSpec) (s : DebugSession)

theorem arm_members_ledger {s : DebugSession} (max_classes : ℕ) (classes : List (String × ClassId))
    (got : Armed) :
    Ensures (Recruiting strict gone s got.members) (arm_members spec max_classes got classes)
      fun armed => Recruiting strict gone s armed.members := by
  induction classes generalizing got with
  | nil => exact fun w hw => hw
  | cons c rest ih =>
    obtain ⟨fqn, type_id⟩ := c
    unfold arm_members
    split
    · exact ih { got with skipped := got.skipped + 1 }
    rintro w ⟨L, hm, hsets, hseq⟩
    obtain ⟨Lf, hu⟩ := fresh_id_ledger "bp_" L
    have hid : ((fresh_id "bp_").run w).1 ∉ got.members := fun h =>
      absurd (hm.seq _ h) (Nat.not_succ_le_self _)
    have hm1 : Members ((fresh_id "bp_").run w).2.session got.members :=
      ⟨fun m h => (hm.seq m h).trans (Nat.le_succ _), hm.outside, hm.covered, hm.distinct⟩
    have hsets1 : ((fresh_id "bp_").run w).2.session.pattern_sets = s.pattern_sets := hsets
    have hseq1 : s.stop_seq ≤ ((fresh_id "bp_").run w).2.session.stop_seq :=
      hseq.trans (Nat.le_succ _)
    simp only [run_bind, run_get]
    revert Lf hu hid hm1 hsets1 hseq1
    generalize (fresh_id "bp_").run w = res
    obtain ⟨bp_id, w1⟩ := res
    intro Lf hu hid hm1 hsets1 hseq1
    have hins := arm_and_insert_ledger [type_id] { spec with
      class_pattern := fqn
      signature := w.answers.signature_for_dotted fqn } .covered_by_family hu w1 ⟨Lf, rfl⟩
    simp only
    revert hins
    generalize (arm_and_insert [type_id] _ bp_id .covered_by_family).run w1 = out
    obtain ⟨out, w2⟩ := out
    intro hins
    rcases out with (_ | f) | id
    · obtain ⟨L2, hs⟩ := hins
      change w2.session = w1.session at hs
      exact ih { got with no_method := got.no_method + 1 } w2
        ⟨L2, by rw [hs]; exact hm1, by rw [hs]; exact hsets1, by rw [hs]; exact hseq1⟩
    · obtain ⟨L2, hs⟩ := hins
      change w2.session = w1.session at hs
      exact ih got w2
        ⟨L2, by rw [hs]; exact hm1, by rw [hs]; exact hsets1, by rw [hs]; exact hseq1⟩
    · obtain ⟨rfl, L2, sp, hsp, hs, hw⟩ := hins
      change w2.session = w1.session.register_stop_point sp at hs
      refine ih { got with members := got.members ++ [_] } w2
        ⟨L2, ?_, by rw [hs]; exact hsets1, by rw [hs]; exact hseq1⟩
      rw [hs]
      exact hm1.add hu hid hsp hw

theorem owned_family {set : PatternStopSet} (hset : s.pattern_sets.get? set.id = none) (h : Handle)
    :
    owned { s with pattern_sets := s.pattern_sets.insert set } h =
      owned s h + (family_handles set).count h := by
  have := Table.total_insert (fun set => (family_handles set).count h) s.pattern_sets set
  rw [Table.erase_eq_self _ hset] at this
  simp only [owned] at this ⊢
  omega

theorem named_family {s : DebugSession} (hs : Named s) {set : PatternStopSet}
    (hid : set.id.seq ≤ s.stop_seq) (hm : Members s set.members) (hon : set.enabled = true) :
    Named { s with pattern_sets := s.pattern_sets.insert set } := by
  have hall : ∀ {P : PatternStopSet → Prop}, (∀ v ∈ s.pattern_sets.rows, P v) → P set →
      ∀ v ∈ (s.pattern_sets.insert set).rows, P v := fun h hp v hv =>
    ((Table.mem_insert _ _ _).mp hv).elim (fun hv => h v hv.1) fun hv => hv ▸ hp
  refine ⟨hs.stops, hs.deferrals, hall hs.families hid, hall hs.members hm.seq, hs.once, hs.unarmed,
    fun p hp => hall (hs.outside p hp) (hm.outside p hp), hall hs.covered hm.covered,
    hall hs.distinct hm.distinct, hall hs.unwatched fun hoff => ?_⟩
  rw [hon] at hoff
  cases hoff

theorem family_watch_desk (pattern : String) :
    Ensures (Desk s strict [] gone) (family_watch pattern) fun watch =>
      Desk s strict (watch.request_id.map watch_handle).toList gone := by
  unfold family_watch
  refine Preserves.bind_ensures (fun w hw => hw) fun w => ?_
  refine Ensures.bind (watch_desk s _) fun r => ?_
  cases r with
  | ok req => exact fun w hw => hw
  | error e => exact fun w hw => hw

theorem initial_watch_desk (full : Bool) (pattern : String) :
    Ensures (Desk s strict [] gone) (initial_watch full pattern) fun watch =>
      Desk s strict (watch.request_id.map watch_handle).toList gone := by
  unfold initial_watch
  split
  · exact fun w hw => hw
  · exact family_watch_desk s pattern

theorem arm_family_ledger (index : List (String × ClassId)) (max_classes : ℕ)
    (L : Ledger strict [] gone w) :
    Ledger strict [] gone ((arm_pattern_family spec index max_classes).run w).2 := by
  obtain ⟨Lf, hu⟩ := fresh_id_ledger "bpset_" L
  have hnew : ((fresh_id "bpset_").run w).2.session.pattern_sets.get?
      ((fresh_id "bpset_").run w).1 = none := by
    refine (Table.get?_eq_none _ _).mpr fun set hset heq => ?_
    have := L.named.families set hset
    rw [heq] at this
    exact absurd this (Nat.not_succ_le_self _)
  unfold arm_pattern_family
  simp only [run_bind, run_get]
  revert Lf hu hnew
  generalize (fresh_id "bpset_").run w = res
  obtain ⟨set_id, w1⟩ := res
  intro Lf hu hnew
  simp only at Lf hu hnew ⊢
  have hrec := arm_members_ledger (s := w1.session) spec max_classes
    (index.filter fun c => w1.answers.class_matches c.1 spec.class_pattern) ⟨[], 0, 0⟩ w1
    ⟨Lf, ⟨by simp, by simp, by simp, List.nodup_nil⟩, rfl, le_rfl⟩
  revert hrec
  generalize (arm_members spec max_classes ⟨[], 0, 0⟩ _).run w1 = res
  obtain ⟨armed, w2⟩ := res
  rintro ⟨L2, hm, hsets, hseq⟩
  simp only
  have hwatch := initial_watch_desk w2.session (decide (max_classes ≤ armed.members.length))
    spec.class_pattern w2 ⟨L2, rfl⟩
  revert hwatch
  generalize (initial_watch _ spec.class_pattern).run w2 = res
  obtain ⟨watch, w3⟩ := res
  rintro ⟨L3, hs3⟩
  change w3.session = w2.session at hs3
  replace L3 : Ledger strict (family_handles (family spec set_id watch armed max_classes) ++ [])
    gone w3 := by rwa [List.append_nil]
  simp only at hm hsets hseq
  rw [← hs3] at hm hsets hseq
  refine L3.file (s := { w3.session with
      pattern_sets := w3.session.pattern_sets.insert (family spec set_id watch armed max_classes) })
    ?_ L3.shaped (owned_family _ ?_)
  · exact named_family L3.named (hu.seq.trans hseq) hm rfl
  · rw [hsets]
    exact hnew

/-- What one name of a call asks for. -/
def line_spec (a : Answers) (line : Option ℤ) (method : Option String) (o : StopOptions)
    (p : String) : BreakpointSpec :=
  ⟨p, a.signature_for_dotted p, line, method, o, suspend_policy_for_line o.trace o.condition.isSome⟩

/-- No exact name among the patterns loses its class-load watch when its turn comes. -/
def KeepsWatches (line : Option ℤ) (method : Option String) (o : StopOptions)
    (index : List (String × ClassId)) (max_classes : ℕ) : List String → World → Prop
  | [], _ => True
  | p :: rest, w =>
    (w.answers.is_wildcard p = false →
      ¬ LosesWatch ((fresh_id "bp_").run w).2 (line_spec w.answers line method o p)) ∧
    KeepsWatches line method o index max_classes rest
      ((arm_one_pattern (line_spec w.answers line method o p) index max_classes).run w).2

theorem arm_one_pattern_ledger (index : List (String × ClassId)) (max_classes : ℕ)
    (L : Ledger strict [] nothing w)
    (hc : strict → w.answers.is_wildcard spec.class_pattern = false →
      ¬ LosesWatch ((fresh_id "bp_").run w).2 spec) :
    Ledger strict [] nothing ((arm_one_pattern spec index max_classes).run w).2 := by
  unfold arm_one_pattern
  rw [run_bind, run_get]
  cases hw : w.answers.is_wildcard spec.class_pattern with
  | true => exact arm_family_ledger spec index max_classes L
  | false => exact arm_exact_ledger spec L fun hs => hc hs hw

theorem set_line_stop_ledger (patterns : List String) (line : Option ℤ) (method : Option String)
    (o : StopOptions) (index : List (String × ClassId)) (max_classes : ℕ)
    (L : Ledger strict [] nothing w) (hc : strict → w.answers.admitted →
      KeepsWatches line method o index max_classes patterns w) :
    Ledger strict [] nothing
      ((handle_set_line_stop patterns line method o index max_classes).run w).2 := by
  unfold handle_set_line_stop
  rw [run_bind, run_get]
  cases hadm : w.answers.admitted with
  | false => exact L
  | true =>
    replace hc := fun hs => hc hs hadm
    clear hadm
    induction patterns generalizing w with
    | nil => exact L
    | cons p rest ih =>
      exact ih (arm_one_pattern_ledger (line_spec w.answers line method o p) index max_classes L
        fun hs => (hc hs).1) fun hs => (hc hs).2

end Families

section OtherKinds

/-- `id` names a stop point that owns the live request `h` and nothing else. -/
def Holds (strict : Prop) (w : World) (id : StopId) (h : Handle) : Prop :=
  (∃ sp, w.session.stop_points.get? id = some sp ∧ handles sp = [h]) ∧ (strict → h ∈ live w.jvm)

/-- One request was refused, or a new stop point holds it; the others are as they were. -/
structure Joined (strict : Prop) (code : EventCode) (w : World)
    (r : Except Failure (StopId × RequestId)) (w' : World) : Prop where
  kept : ∀ j sp, w.session.stop_points.get? j = some sp → w'.session.stop_points.get? j = some sp
  live : ∀ h ∈ live w.jvm, h ∈ live w'.jvm
  armed : ∀ id req, r = .ok (id, req) →
    w.session.stop_points.get? id = none ∧ Holds strict w' id (code, req)

theorem Joined.holds {code : EventCode} {r : Except Failure (StopId × RequestId)}
    (J : Joined strict code w r w') {id : StopId} {h : Handle} (hh : Holds strict w id h) :
    Holds strict w' id h := by
  obtain ⟨⟨sp, hsp, hone⟩, hl⟩ := hh
  exact ⟨⟨sp, J.kept id sp hsp, hone⟩, fun hs => J.live h (hl hs)⟩

theorem handles_single {on : ArmedOn} (hline : on.kind ≠ .line) (o : StopOptions) (id : StopId)
    (req : RequestId) : handles (o.stop_point id [req] on) = [(on.code, req)] := by
  have hnone : (o.stop_point id [req] on).watch_request = none := by
    cases on <;> first | rfl | exact absurd rfl hline
  exact handles_eq_hits hnone

theorem arm_request_ledger (kind : RequestKind) (on : ArmedOn) (f : EventFilters) (o : StopOptions)
    (tag : String) (hcode : kind.code = on.code) (hl : ¬ Lasting kind.code)
    (hline : on.kind ≠ .line) (L : Ledger strict [] nothing w) :
    Ledger strict [] nothing ((arm_request kind f o tag on).run w).2 ∧
    Joined strict on.code w ((arm_request kind f o tag on).run w).1
      ((arm_request kind f o tag on).run w).2 := by
  have hset := set_desk (k := kind) w.session (p := suspend_policy_for o.trace) (f := f)
    (fun h => absurd h hl) w ⟨L, rfl⟩
  have hkept : ∀ h ∈ live w.jvm,
      h ∈ live ((set_request kind (suspend_policy_for o.trace) f).run w).2.jvm := fun h hm => by
    rw [set_request_run]
    cases w.refuses (.set kind (suspend_policy_for o.trace) f) with
    | some e => exact hm
    | none =>
      simp only [live, Jvm.set_request, List.map_append, List.mem_append]
      exact Or.inl hm
  unfold arm_request
  simp only [run_bind]
  revert hset hkept
  generalize (set_request kind (suspend_policy_for o.trace) f).run w = res
  obtain ⟨r, w1⟩ := res
  intro hset hkept
  cases r with
  | error e =>
    obtain ⟨L1, hs⟩ := hset
    change w1.session = w.session at hs
    exact ⟨L1, fun _ _ h => by rw [← hs] at h; exact h, hkept, fun _ _ h => by cases h⟩
  | ok req =>
    obtain ⟨L1, hs⟩ := hset
    change w1.session = w.session at hs
    obtain ⟨Lf, hu⟩ := fresh_id_ledger tag L1
    have hnew : w.session.stop_points.get? ((fresh_id tag).run w1).1 = none := by
      rw [← hs]
      exact hu.stop
    refine ⟨ledger_register (o.stop_point _ [req] on) ?_ hu (shaped_on rfl rfl fun _ =>
      le_rfl), fun j sp hj => ?_, hkept, fun id req' h => ?_⟩
    · rw [handles_single hline, ← hcode]
      exact Lf
    · change (w1.session.stop_points.insert (o.stop_point _ _ on)).get? j = some sp
      rw [Table.get?_insert, if_neg, hs, hj]
      rintro rfl
      exact absurd (hnew.symm.trans hj) (by simp)
    · cases h
      refine ⟨hnew, ⟨o.stop_point ((fresh_id tag).run w1).1 [req] on, ?_,
        handles_single hline o _ req⟩, fun hstrict => ?_⟩
      · change (w1.session.stop_points.insert (o.stop_point _ _ on)).get? _ = some _
        rw [Table.get?_insert]
        exact if_pos rfl
      · rw [← hcode]
        exact ((L1.exact_ hstrict).in_hand _ List.mem_cons_self).resolve_right id

theorem arm_request_run_ledger {kind : RequestKind} {on : ArmedOn} (f : EventFilters)
    (o : StopOptions) (tag : String) (hcode : kind.code = on.code) (hl : ¬ Lasting kind.code)
    (hline : on.kind ≠ .line) :
    Preserves (Ledger strict [] nothing) (arm_request kind f o tag on) :=
  fun _ L => (arm_request_ledger kind on f o tag hcode hl hline L).1

theorem set_exception_stop_ledger (targets : List (String × Option ClassId))
    (caught uncaught : Bool) (o : StopOptions) (max_classes : ℕ) :
    Preserves (Ledger strict [] nothing)
      (handle_set_exception_stop targets caught uncaught o max_classes) :=
  exceptions_preserve (fun _ _ => arm_request_run_ledger _ _ _ rfl
    (by rintro (h | h) <;> cases h) (by intro h; cases h)) _ _

theorem arm_field_request_ledger (declaring : ClassId) (field : ℕ) (is_static : Bool)
    (class_name field_name : String) (o : StopOptions) (kind : WatchKind) :
    Preserves (Ledger strict [] nothing) (arm_request (.field_watch declaring field kind) o.filters
      o (watch_tag kind) (.watchpoint ⟨kind, class_name, field_name, is_static⟩)) :=
  arm_request_run_ledger _ _ _ rfl (by cases kind <;> rintro (h | h) <;> cases h)
    (by intro h; cases h)

theorem arm_field_ledger (field_name : String) (kinds : List WatchKind) (o : StopOptions)
    (target : String × ClassId) :
    Preserves (Ledger strict [] nothing) (arm_field_on_one_class field_name kinds o target) :=
  field_on_class_preserves (fun _ _ L => L.log _)
    (fun _ _ _ _ _ => arm_field_request_ledger _ _ _ _ _ _ _) _ _

theorem set_field_stop_ledger (targets : List (String × ClassId)) (field_name : String)
    (kinds : List WatchKind) (o : StopOptions) (max_classes : ℕ) :
    Preserves (Ledger strict [] nothing)
      (handle_set_field_stop targets field_name kinds o max_classes) :=
  fields_preserve (fun _ _ L => L.log _)
    (fun _ _ _ _ _ => arm_field_request_ledger _ _ _ _ _ _ _) _ _ _

theorem method_exit_lasting (r : Bool) : ¬ Lasting (method_exit_event_kind r) := by
  cases r <;> rintro (h | h) <;> cases h

theorem set_method_exit_stop_ledger (patterns : List String) (method : Option String)
    (with_return_value : Bool) (exclude : List String) (o : StopOptions) :
    Preserves (Ledger strict [] nothing)
      (handle_set_method_exit_stop patterns method with_return_value exclude o) :=
  method_exits_preserve (fun _ => arm_request_run_ledger _ _ _ rfl (method_exit_lasting _)
    (by intro h; cases h)) _

/-- The monitor stops armed so far, each with its one request. -/
structure MonitorsArmed (strict : Prop) (armed : List (StopId × RequestId × MonitorKind))
    (w : World) : Prop where
  ledger : Ledger strict [] nothing w
  holds : ∀ one ∈ armed, Holds strict w one.1 (.monitor one.2.2, one.2.1)
  distinct : (armed.map Prod.fst).Nodup

theorem take_back_ledger (armed : List (StopId × RequestId × MonitorKind)) :
    Ensures (MonitorsArmed strict armed)
      (armed.forM fun one => do
        let _ ← clear_request (.monitor one.2.2) one.2.1
        edit fun s => { s with stop_points := s.stop_points.erase one.1 })
      fun _ w => Ledger strict [] nothing w := by
  refine Ensures.mono (Ensures.forM (fun one rest w M => ?_) armed) (fun _ h => h)
    fun _ _ h => MonitorsArmed.ledger h
  obtain ⟨L, hh, hd⟩ := M
  obtain ⟨hout, hd⟩ := List.nodup_cons.mp hd
  obtain ⟨⟨sp, hsp, hone⟩, hl⟩ := hh one List.mem_cons_self
  obtain ⟨hmem, hid⟩ := (Table.get?_eq_some _ _ _).mp hsp
  have hframe := (clear_request_withdrawn (.monitor one.2.2) one.2.1 w).1
  have Lc := (clear_request_ledger (.monitor one.2.2) one.2.1 L hl).1
  simp only [run_bind, edit_run]
  have hses := hframe.session
  revert hframe Lc hses
  generalize ((clear_request (.monitor one.2.2) one.2.1).run w).2 = w1
  intro hframe Lc hses
  rw [← hses] at hsp
  rw [← hid] at hsp ⊢
  refine ⟨ledger_erase sp (Lc.recall fun x => by rw [hone, List.mem_singleton]) hsp,
    fun other ho => ?_, hd⟩
  obtain ⟨⟨v, hv, hvone⟩, hvl⟩ := hh other (List.mem_cons_of_mem one ho)
  obtain ⟨hvmem, hvid⟩ := (Table.get?_eq_some _ _ _).mp hv
  have hne : other.1 ≠ sp.id := fun heq => hout (by
    rw [← hid, ← heq]
    exact List.mem_map_of_mem ho)
  refine ⟨⟨v, ?_, hvone⟩, fun hs => hframe.rest _ (hvl hs) ?_⟩
  · simp only [Table.get?_erase, hses, if_neg hne, hv]
  · rw [← hone]
    refine handles_apart L hvmem hmem (fun heq => hne ?_) (by rw [hvone]; exact List.mem_cons_self)
    rw [← hvid, heq]

theorem arm_monitor_kinds_ledger (all_kinds : List MonitorKind) (arm : MonitorArm) (o : StopOptions)
    (armed : List (StopId × RequestId × MonitorKind)) (kinds : List MonitorKind) :
    Ensures (MonitorsArmed strict armed) (arm_monitor_kinds all_kinds arm o armed kinds)
      fun _ w => Ledger strict [] nothing w := by
  induction kinds generalizing armed with
  | nil => exact fun w M => M.ledger
  | cons kind rest ih =>
    intro w M
    have hone := arm_request_ledger (.monitor kind (arm.monitor_class_id.filter fun _ =>
        kind.class_filter_tests_monitor)) (.monitor ⟨kind, decide (kind.partner ∈ all_kinds),
        arm.monitor_class, arm.min_duration_ms⟩) (monitor_options o).filters (monitor_options o)
      (monitor_tag kind) rfl (by rintro (h | h) <;> cases h) (by intro h; cases h) M.ledger
    unfold arm_monitor_kinds
    rw [run_bind]
    change Ledger strict [] nothing ((arm_one_monitor all_kinds arm o kind).run w).2 ∧
      Joined strict (.monitor kind) w ((arm_one_monitor all_kinds arm o kind).run w).1
        ((arm_one_monitor all_kinds arm o kind).run w).2 at hone
    revert hone
    generalize (arm_one_monitor all_kinds arm o kind).run w = res
    obtain ⟨r, w1⟩ := res
    rintro ⟨L1, J⟩
    cases r with
    | error e =>
      exact take_back_ledger armed w1 ⟨L1, fun one h => J.holds (M.holds one h), M.distinct⟩
    | ok got =>
      obtain ⟨id, req⟩ := got
      obtain ⟨hnew, hh⟩ := J.armed id req rfl
      refine ih _ w1 ⟨L1, fun one h => ?_, ?_⟩
      · rcases List.mem_append.mp h with h | h
        · exact J.holds (M.holds one h)
        · rw [List.mem_singleton.mp h]
          exact hh
      · rw [List.map_append, List.nodup_append]
        refine ⟨M.distinct, List.nodup_singleton _, fun a ha b hb => ?_⟩
        obtain ⟨one, hone, rfl⟩ := List.mem_map.mp ha
        obtain ⟨⟨sp, hsp, -⟩, -⟩ := M.holds one hone
        rw [List.mem_singleton.mp hb]
        rintro rfl
        rw [hnew] at hsp
        cases hsp

theorem set_monitor_stop_ledger (kinds : List MonitorKind) (arm : MonitorArm) (o : StopOptions) :
    Preserves (Ledger strict [] nothing) (handle_set_monitor_stop kinds arm o) := by
  refine Preserves.get_bind fun w _ => ?_
  cases w.answers.admitted with
  | false => exact Preserves.pure _
  | true =>
    intro w L
    exact arm_monitor_kinds_ledger kinds arm o [] kinds w ⟨L, by simp, List.nodup_nil⟩

end OtherKinds

end JavaDebug.Granting
