import JavaDebug.ArmingRules
import JavaDebug.LedgerRuns

/-!
An update of a stop point. The edit is written first; then, if a hit count was
given, every stop point that is on is switched off and armed again, and neither
outcome is looked at. The update does what it says exactly when the debuggee
grants the first request of each of them. A hit count is the word that is stored
and sent; nothing is computed from it.
-/
namespace JavaDebug.PushedCounts

open Jdwp StopPoints Wire Disarming
open Arming Rearming Ownership Withdrawing
open Renewing LedgerRuns StateProgram Runs
open RecordTerms ArmingRules ArmingWalks

section Update

/-- The record can be looked up, and takes the edit. -/
def editable (s : DebugSession) (id : StopId) (condition : FieldEdit String)
    (hit_count : FieldEdit ℕ) : Bool :=
  (condition.asked || hit_count.asked) &&
    match read_editable_stop_point s id with
    | .error _ => false
    | .ok before => !before.spent && !(condition.asked && !before.supports_condition)

inductive Refused
  | readonly (text : String)
  | failed (f : Failure)
  deriving DecidableEq

/-- `debug.update_stop_point` in a session: a condition it may not evaluate is refused after the
record was looked up and before anything is changed. -/
def update_stop_point (s : Attached) (id : StopId) (condition : FieldEdit String)
    (hit_count : FieldEdit ℕ) : Handler (Except Refused Unit) := do
  if editable (← get).session id condition hit_count then
    match check_condition_edit s condition with
    | .error text => pure (.error (.readonly text))
    | .ok () => (Except.mapError .failed) <$> handle_update_stop_point id condition hit_count
  else (Except.mapError .failed) <$> handle_update_stop_point id condition hit_count

/-- The stop point has requests, and all of them are live and carry its hit count. -/
structure Wired (w : World) (sp : StopPoint) : Prop where
  armed : sp.request_ids ≠ []
  counted : ∀ r ∈ sp.request_ids,
    ∃ q ∈ w.jvm.requests, q.handle = (sp.armed_on.code, r) ∧ q.filters.count = sp.hit_count

/-- The stop point under `t` has the new values, and is on if it was on, with requests that carry
the new hit count if there is one. -/
def Renewed (condition : FieldEdit String) (hit_count : FieldEdit ℕ) (t : StopId) (w w' : World) :
    Prop :=
  ∀ sp, w.session.stop_points.get? t = some sp → ∃ sp', w'.session.stop_points.get? t = some sp' ∧
    sp'.condition = (edit_conditions condition hit_count sp).condition ∧
    sp'.hit_count = (edit_conditions condition hit_count sp).hit_count ∧
    (sp.enabled = true → sp'.enabled = true ∧
      (hit_count.asked = true → Wired w' sp') ∧
      (hit_count.asked = false → sp'.request_ids = sp.request_ids ∧ w'.jvm = w.jvm))

/-- The record under `id`, and each member if it is a family, took the edit. -/
structure Effective (condition : FieldEdit String) (hit_count : FieldEdit ℕ) (id : StopId)
    (w w' : World) : Prop where
  stop_points : ∀ t ∈ pushed_to w.session id, Renewed condition hit_count t w w'
  deferral : w.session.stop_points.get? id = none → ∀ p,
    w.session.pending_breakpoints.find? (fun p => p.bp_id = id) = some p →
      edit_pending condition hit_count p ∈ w'.session.pending_breakpoints
  family : w.session.stop_points.get? id = none →
    w.session.pending_breakpoints.find? (fun p => p.bp_id = id) = none → ∀ set,
      w.session.pattern_sets.get? id = some set →
        w'.session.pattern_sets.get? id = some (edit_family condition hit_count set)

/-- An accepted update takes effect; a refused one changes no record and no request. -/
structure Honest (s : Attached) (id : StopId) (condition : FieldEdit String)
    (hit_count : FieldEdit ℕ) (w : World) : Prop where
  effect : ((update_stop_point s id condition hit_count).run w).1 = .ok () →
    Effective condition hit_count id w ((update_stop_point s id condition hit_count).run w).2
  nothing : ∀ e, ((update_stop_point s id condition hit_count).run w).1 = .error e →
    ((update_stop_point s id condition hit_count).run w).2.session = w.session ∧
    ((update_stop_point s id condition hit_count).run w).2.jvm = w.jvm

end Update

section Grants

/-- Where a line is found in the class now; where it was, if it is no longer found. -/
def located (class_id : ClassId) (arm : BreakpointArm) :
    Except BpLocationError ResolvedLocation → BreakpointArm
  | .ok loc => { arm with
      class_id := class_id, method_id := loc.method_id, bytecode_index := loc.code_index
      extra_locations := extra_in class_id loc }
  | .error _ => arm

/-- The first request that arms the stop point again, if its class and field are found; `n`
commands were sent before. -/
def first_set (a : Answers) (n : ℕ) (sp : StopPoint) : Option Command :=
  let policy := suspend_policy_for sp.trace
  match sp.armed_on with
  | .line bp =>
    match a.classes_by_signature n (a.signature_for_dotted bp.class_pattern) with
    | .ok (class_id :: _) =>
      let line := if bp.line < 2 ^ 31 then some bp.line else none
      let arm := located class_id bp.arm (a.resolve_bp_location (n + 1) class_id line bp.method)
      some (.set (.breakpoint (BreakpointArm.primary arm)) arm.suspend_policy sp.filters)
    | _ => none
  | .exception er =>
    if er.class_pattern = "*" then
      some (.set (.exception none er.caught er.uncaught) policy sp.filters)
    else
      match a.resolve_class_by_dotted n er.class_pattern with
      | .ok (some type_id) =>
        some (.set (.exception (some type_id) er.caught er.uncaught) policy sp.filters)
      | _ => none
  | .watchpoint wp =>
    match a.resolve_class_by_dotted n wp.class_name with
    | .ok (some type_id) =>
      match a.find_field_info (n + 1) type_id wp.field_name with
      | .ok (some (declaring, field, _)) =>
        some (.set (.field_watch declaring field wp.kind) policy sp.filters)
      | _ => none
    | _ => none
  | .method_exit me =>
    some (.set (.method_exit me.class_pattern me.with_return_value me.exclude_classes) policy
      sp.filters)
  | .monitor mon =>
    let filters : EventFilters := ⟨sp.hit_count, sp.thread_filter, none⟩
    match mon.monitor_class with
    | none => some (.set (.monitor mon.kind none) policy filters)
    | some name =>
      match a.resolve_monitor_class n name with
      | .ok id =>
        let class_filter := if mon.kind.class_filter_tests_monitor then some id else none
        some (.set (.monitor mon.kind class_filter) policy filters)
      | .error _ => none

/-- The debuggee grants the request on which arming `sp` again depends. -/
def Grants (w : World) (sp : StopPoint) : Prop :=
  ∃ c, first_set w.answers w.sent.length sp = some c ∧ w.refuses c = none

/-- The stop points that are on are granted their requests, each when its turn comes. -/
def Granted : List StopId → World → Prop
  | [], _ => True
  | t :: rest, w =>
    (is_armed w.session t = true → ∀ sp,
      ((disable_stop_point t).run w).2.session.stop_points.get? t = some sp →
        Grants ((disable_stop_point t).run w).2 sp) ∧
    Granted rest ((push_one t).run w).2

/-- Of arming `sp` again: nothing is taken out, it succeeds where `granted` says so, and what it
obtains is live with the hit count of `sp`. -/
structure Rearms (sp : StopPoint) (granted : Prop) (w : World)
    (out : Except Failure ReArmed × World) : Prop where
  kept : w.jvm.requests ⊆ out.2.jvm.requests
  refused : ¬ granted → ∃ e, out.1 = .error e
  armed : granted → ∃ r, out.1 = .ok r
  ids : ∀ r, out.1 = .ok r → r.request_ids ≠ [] ∧ ∀ id ∈ r.request_ids,
    ∃ q ∈ out.2.jvm.requests, q.handle = (sp.armed_on.code, id) ∧ q.filters.count = sp.hit_count

theorem refuses_after_lookup (w : World) (k : RequestKind) (p : SuspendPolicy) (f : EventFilters) :
    (w.log .lookup).refuses (.set k p f) = w.refuses (.set k p f) := by
  simp [World.refuses, World.log]

variable {sp : StopPoint} {w : World}

theorem rearms_failed {granted : Prop} (h : ¬ granted) {out : Except Failure ReArmed × World}
    {e : Failure} (he : out.1 = .error e) (hw : out.2.jvm = w.jvm) : Rearms sp granted w out := by
  refine ⟨?_, fun _ => ⟨e, he⟩, fun hg => absurd hg h, fun r hr => ?_⟩
  · rw [hw]
    exact List.Subset.refl _
  · rw [he] at hr
    cases hr

theorem set_kept (k : RequestKind) (p : SuspendPolicy) (f : EventFilters) (w : World) :
    w.jvm.requests ⊆ ((set_request k p f).run w).2.jvm.requests := by
  rw [set_request_run]
  cases w.refuses (.set k p f) with
  | some e => exact List.Subset.refl _
  | none => exact List.subset_append_left _ _

theorem rearms_request {kind : RequestKind} {f : EventFilters}
    (hcode : kind.code = sp.armed_on.code) (hcount : f.count = sp.hit_count) {w' : World}
    (hw : w'.jvm = w.jvm) (hsame : w'.refuses (.set kind (suspend_policy_for sp.trace) f) =
      w.refuses (.set kind (suspend_policy_for sp.trace) f)) :
    Rearms sp (w.refuses (.set kind (suspend_policy_for sp.trace) f) = none) w
      ((rearm_request kind sp f).run w') := by
  have hkept := set_kept kind (suspend_policy_for sp.trace) f w'
  rw [hw] at hkept
  unfold rearm_request
  simp only [run_bind]
  rw [set_request_run, hsame] at hkept ⊢
  cases hr : w.refuses (.set kind (suspend_policy_for sp.trace) f) with
  | some e => exact rearms_failed (Option.some_ne_none e) rfl hw
  | none =>
    rw [hr] at hkept
    refine ⟨hkept, fun h => absurd rfl h, fun _ => ⟨_, rfl⟩, fun r hr => ?_⟩
    cases hr
    refine ⟨List.cons_ne_nil _ _, fun id hid => ?_⟩
    rw [List.mem_singleton.mp hid]
    exact ⟨_, List.mem_append_right _ List.mem_cons_self, by rw [← hcode]; rfl, hcount⟩

theorem extra_kept (p : SuspendPolicy) (f : EventFilters) (locs : List ArmedLocation) (w : World) :
    w.jvm.requests ⊆ ((arm_extra_line_locations p f locs).run w).2.jvm.requests ∧
    ∀ e ∈ ((arm_extra_line_locations p f locs).run w).1,
      ∃ q ∈ ((arm_extra_line_locations p f locs).run w).2.jvm.requests,
        q.handle = (.breakpoint, e.1) ∧ q.filters.count = f.count := by
  induction locs generalizing w with
  | nil => exact ⟨List.Subset.refl _, fun e he => by cases he⟩
  | cons loc rest ih =>
    have hone := set_kept (.breakpoint (ArmedLocation.wire loc)) p f w
    simp only [arm_extra_line_locations, set_breakpoint_ex, run_bind, run_pure]
    obtain ⟨hrest, hids⟩ := ih ((set_request (.breakpoint (ArmedLocation.wire loc)) p f).run w).2
    refine ⟨List.Subset.trans hone hrest, fun e he => ?_⟩
    rw [set_request_run] at he hids hrest ⊢
    cases hr : w.refuses (.set (.breakpoint (ArmedLocation.wire loc)) p f) with
    | some _ =>
      rw [hr] at he hids
      exact hids e he
    | none =>
      rw [hr] at he hids hrest
      rcases List.mem_cons.mp he with rfl | he
      · exact ⟨_, hrest (List.mem_append_right _ List.mem_cons_self), rfl, rfl⟩
      · exact hids e he

/-- A line stop sends its first location, then the others, of which any may be refused. -/
def send_locations (sp : StopPoint) (arm : BreakpointArm) : Handler (Except Failure ReArmed) := do
  match ← set_breakpoint_ex (BreakpointArm.primary arm) arm.suspend_policy sp.filters with
  | .error e => pure (.error (.failed_to_arm e))
  | .ok req =>
    let extra ← arm_extra_line_locations arm.suspend_policy sp.filters arm.extra_locations
    pure (.ok ⟨req :: extra.map Prod.fst, some { arm with extra_locations := extra.map Prod.snd }⟩)

theorem rearms_line (hcode : sp.armed_on.code = .breakpoint) (arm : BreakpointArm) (w' : World)
    (hw : w'.jvm = w.jvm)
    (hsame : w'.refuses (.set (.breakpoint (BreakpointArm.primary arm)) arm.suspend_policy
      sp.filters) = w.refuses (.set (.breakpoint (BreakpointArm.primary arm)) arm.suspend_policy
        sp.filters)) :
    Rearms sp (w.refuses (.set (.breakpoint (BreakpointArm.primary arm)) arm.suspend_policy
      sp.filters) = none) w ((send_locations sp arm).run w') := by
  unfold send_locations
  have hkept := set_kept (.breakpoint (BreakpointArm.primary arm)) arm.suspend_policy sp.filters w'
  rw [hw] at hkept
  simp only [set_breakpoint_ex, run_bind]
  rw [set_request_run, hsame] at hkept ⊢
  cases hr : w.refuses (.set (.breakpoint (BreakpointArm.primary arm)) arm.suspend_policy
      sp.filters) with
  | some e => exact rearms_failed (Option.some_ne_none e) rfl hw
  | none =>
    rw [hr] at hkept
    simp only [run_bind, run_pure]
    obtain ⟨hmore, hids⟩ := extra_kept arm.suspend_policy sp.filters arm.extra_locations
      { w'.log (.set (.breakpoint (BreakpointArm.primary arm)) arm.suspend_policy sp.filters) with
        jvm := w'.jvm.set_request (.breakpoint (BreakpointArm.primary arm)) arm.suspend_policy
          sp.filters }
    refine ⟨List.Subset.trans hkept hmore, fun h => absurd trivial h, fun _ => ⟨_, rfl⟩,
      fun r hr => ?_⟩
    cases hr
    refine ⟨List.cons_ne_nil _ _, fun id hid => ?_⟩
    rw [hcode]
    rcases List.mem_cons.mp hid with rfl | hid
    · exact ⟨_, hmore (List.mem_append_right _ List.mem_cons_self), rfl, rfl⟩
    · obtain ⟨e, he, rfl⟩ := List.mem_map.mp hid
      exact hids e he

/-- Every kind of stop point is armed again where its first request is granted. -/
theorem rearms_requests (sp : StopPoint) (w : World) :
    Rearms sp (Grants w sp) w ((rearm_requests sp).run w) := by
  have hnone : first_set w.answers w.sent.length sp = none → ¬ Grants w sp := by
    rintro h ⟨c, hc, -⟩
    rw [h] at hc
    cases hc
  have hgrants : ∀ c, first_set w.answers w.sent.length sp = some c →
      (Grants w sp ↔ w.refuses c = none) := by
    refine fun c hc => ⟨?_, fun h => ⟨c, hc, h⟩⟩
    rintro ⟨c', hc', h⟩
    rw [hc] at hc'
    cases hc'
    exact h
  have hsend : ∀ (kind : RequestKind) (f : EventFilters) (w' : World),
      kind.code = sp.armed_on.code → f.count = sp.hit_count → w'.jvm = w.jvm →
      w'.refuses (.set kind (suspend_policy_for sp.trace) f) =
        w.refuses (.set kind (suspend_policy_for sp.trace) f) →
      first_set w.answers w.sent.length sp =
        some (.set kind (suspend_policy_for sp.trace) f) →
      Rearms sp (Grants w sp) w ((rearm_request kind sp f).run w') := by
    intro kind f w' hcode hcount hw hsame hfirst
    have h := rearms_request hcode hcount hw hsame
    rwa [← propext (hgrants _ hfirst)] at h
  unfold rearm_requests
  cases hon : sp.armed_on with
  | line bp =>
    change Rearms sp (Grants w sp) w ((rearm_line_breakpoint sp bp).run w)
    unfold rearm_line_breakpoint rearm_breakpoint_location classes_by_signature
    simp only [run_bind, run_get, lookup_run]
    rcases hclass : w.answers.classes_by_signature w.sent.length
      (w.answers.signature_for_dotted bp.class_pattern) with e | _ | ⟨class_id, others⟩
    · exact rearms_failed (hnone (by simp [first_set, hon, hclass])) rfl rfl
    · exact rearms_failed (hnone (by simp [first_set, hon, hclass])) rfl rfl
    · have hlength : (w.log .lookup).sent.length = w.sent.length + 1 := by simp [World.log]
      have hfirst : first_set w.answers w.sent.length sp =
          some (.set (.breakpoint (BreakpointArm.primary (located class_id bp.arm
            (w.answers.resolve_bp_location (w.sent.length + 1) class_id
              (if bp.line < 2 ^ 31 then some bp.line else none) bp.method))))
            (located class_id bp.arm (w.answers.resolve_bp_location (w.sent.length + 1) class_id
              (if bp.line < 2 ^ 31 then some bp.line else none) bp.method)).suspend_policy
            sp.filters) := by
        simp [first_set, hon, hclass]
      rw [propext (hgrants _ hfirst)]
      have hanswers : (w.log .lookup).answers = w.answers := rfl
      simp only [resolve_bp_location, run_bind, lookup_run, hlength, hanswers]
      cases w.answers.resolve_bp_location (w.sent.length + 1) class_id
        (if bp.line < 2 ^ 31 then some bp.line else none) bp.method with
      | ok loc =>
        exact rearms_line (by rw [hon]; rfl) (located class_id bp.arm (.ok loc))
          ((w.log .lookup).log .lookup) rfl (by simp [World.refuses, World.log])
      | error e =>
        exact rearms_line (by rw [hon]; rfl) bp.arm ((w.log .lookup).log .lookup) rfl
          (by simp [World.refuses, World.log])
  | exception er =>
    change Rearms sp (Grants w sp) w ((rearm_exception_request sp er).run w)
    unfold rearm_exception_request
    rw [run_ite]
    by_cases hall : er.class_pattern = "*"
    · rw [if_pos hall]
      exact hsend _ _ w (by rw [hon]; rfl) rfl rfl rfl (by simp [first_set, hon, hall])
    · rw [if_neg hall, run_bind, lookup_run]
      rcases hfound : w.answers.resolve_class_by_dotted w.sent.length er.class_pattern with
        e | _ | type_id
      · exact rearms_failed (hnone (by simp [first_set, hon, hall, hfound])) rfl rfl
      · exact rearms_failed (hnone (by simp [first_set, hon, hall, hfound])) rfl rfl
      · exact hsend _ _ (w.log .lookup) (by rw [hon]; rfl) rfl rfl (refuses_after_lookup _ _ _ _)
          (by simp [first_set, hon, hall, hfound])
  | watchpoint wp =>
    change Rearms sp (Grants w sp) w ((rearm_watchpoint sp wp).run w)
    unfold rearm_watchpoint
    rw [run_bind, lookup_run]
    rcases hclass : w.answers.resolve_class_by_dotted w.sent.length wp.class_name with
      e | _ | type_id
    · exact rearms_failed (hnone (by simp [first_set, hon, hclass])) rfl rfl
    · exact rearms_failed (hnone (by simp [first_set, hon, hclass])) rfl rfl
    · have hlength : (w.log .lookup).sent.length = w.sent.length + 1 := by simp [World.log]
      have hanswers : (w.log .lookup).answers = w.answers := rfl
      simp only [run_bind, lookup_run, hlength, hanswers]
      rcases hfield : w.answers.find_field_info (w.sent.length + 1) type_id wp.field_name with
        e | _ | ⟨declaring, field, is_static⟩
      · exact rearms_failed (hnone (by simp [first_set, hon, hclass, hfield])) rfl rfl
      · exact rearms_failed (hnone (by simp [first_set, hon, hclass, hfield])) rfl rfl
      · refine hsend _ _ ((w.log .lookup).log .lookup) (by rw [hon]; rfl) rfl rfl ?_
          (by simp [first_set, hon, hclass, hfield])
        rw [refuses_after_lookup, refuses_after_lookup]
  | method_exit me =>
    exact hsend _ _ w (by rw [hon]; rfl) rfl rfl rfl (by simp [first_set, hon])
  | monitor mon =>
    change Rearms sp (Grants w sp) w ((rearm_monitor_request sp mon).run w)
    unfold rearm_monitor_request
    cases hname : mon.monitor_class with
    | none =>
      exact hsend _ ⟨sp.hit_count, sp.thread_filter, none⟩ w (by rw [hon]; rfl) rfl rfl rfl
        (by simp [first_set, hon, hname])
    | some name =>
      simp only [run_bind, lookup_run]
      rcases hclass : w.answers.resolve_monitor_class w.sent.length name with e | id
      · exact rearms_failed (hnone (by simp [first_set, hon, hname, hclass])) rfl rfl
      · exact hsend _ ⟨sp.hit_count, sp.thread_filter, none⟩ (w.log .lookup) (by rw [hon]; rfl) rfl
          rfl (refuses_after_lookup _ _ _ _) (by simp [first_set, hon, hname, hclass])

end Grants

section Turns

variable {w : World}

/-- A stop point that is on, with requests that carry its hit count. -/
def On (w : World) (j : StopId) : Prop :=
  ∃ sp, w.session.stop_points.get? j = some sp ∧ sp.enabled = true ∧ Wired w sp

theorem is_armed_iff (s : DebugSession) (t : StopId) :
    is_armed s t = true ↔ ∃ sp, s.stop_points.get? t = some sp ∧ sp.enabled = true := by
  unfold is_armed
  cases s.stop_points.get? t <;> simp

theorem clears_accepted (code : EventCode) (ids : List RequestId) (ha : ClearsAccepted w.answers) :
    ((clear_requests code ids).run w).1 = .ok () := by
  induction ids generalizing w with
  | nil => rfl
  | cons r rest ih =>
    have hnone : w.refuses (.clear code r) = none := ha.1 code r _
    simp only [clear_requests, run_bind, clear_request, perform_run, hnone]
    exact ih ha

theorem clears_kept (code : EventCode) (ids : List RequestId) {q : EventRequest}
    (hq : q ∈ w.jvm.requests) (hout : q.handle ∉ ids.map fun r => (code, r)) :
    q ∈ ((clear_requests code ids).run w).2.jvm.requests := by
  induction ids generalizing w with
  | nil => exact hq
  | cons r rest ih =>
    simp only [List.map_cons, List.mem_cons, not_or] at hout
    simp only [clear_requests, run_bind, clear_request, perform_run]
    cases w.refuses (.clear code r) with
    | some e => exact hq
    | none =>
      refine ih ?_ hout.2
      dsimp only [World.log, Jvm.clear_request]
      split
      · exact List.mem_filter.mpr ⟨hq, by simpa using hout.1⟩
      · exact hq

variable {t : StopId}

variable {sp : StopPoint}

theorem disabled_world (ha : ClearsAccepted w.answers)
    (hsp : w.session.stop_points.get? t = some sp) :
    ((disable_stop_point t).run w).2.session.stop_points.get? t = some (set_disabled sp) ∧
    ∀ q ∈ w.jvm.requests, q.handle ∉ hit_handles sp →
      q ∈ ((disable_stop_point t).run w).2.jvm.requests := by
  have hok := clears_accepted sp.armed_on.code sp.request_ids ha
  have hout := (clear_stop_point_withdrawn sp w).1
  unfold disable_stop_point
  simp only [run_bind, run_get, hsp]
  unfold clear_stop_point_requests at hout ⊢
  simp only [run_bind, hok, edit_run, run_pure]
  refine ⟨?_, fun q hq hn => clears_kept _ _ hq hn⟩
  refine (get?_edit _ t set_disabled fun _ => rfl).trans ?_
  rw [hout.session, hsp]
  rfl

theorem rearmed_world (hsp : w.session.stop_points.get? t = some sp) (hoff : sp.enabled = false) :
    w.jvm.requests ⊆ ((rearm_stop_point t).run w).2.jvm.requests ∧
    (Grants w sp → On ((rearm_stop_point t).run w).2 t) ∧
    (¬ Grants w sp → is_armed ((rearm_stop_point t).run w).2.session t = false) := by
  have h := rearms_requests sp w
  have htalk := congrArg Prod.fst (rearm_requests_talks sp w)
  change ((rearm_requests sp).run w).2.session = w.session at htalk
  unfold rearm_stop_point
  simp only [run_bind, run_get, hsp]
  cases hr : ((rearm_requests sp).run w).1 with
  | error e =>
    refine ⟨h.kept, fun hg => ?_, fun _ => ?_⟩
    · obtain ⟨r, hok⟩ := h.armed hg
      rw [hr] at hok
      cases hok
    · simp only [run_pure, htalk, is_armed, hsp, Option.any_some, hoff]
  | ok r =>
    obtain ⟨hsome, hids⟩ := h.ids r hr
    refine ⟨h.kept, fun _ => ?_, fun hg => ?_⟩
    · refine ⟨set_rearmed r sp, ?_, rfl, hsome, fun q hq => ?_⟩
      · simp only [run_bind, edit_run, run_pure, htalk]
        refine (get?_edit _ t (set_rearmed r) fun _ => rfl).trans ?_
        rw [hsp]
        rfl
      · rw [set_rearmed, with_arm_code]
        exact hids q hq
    · obtain ⟨e, he⟩ := h.refused hg
      rw [hr] at he
      cases he

/-- A target that was on was switched off and armed again. -/
structure Turned (t : StopId) (granted : Prop) (w w' : World) : Prop where
  ledger : Ledger False [] nothing w'
  answers : w'.answers = w.answers
  others : ∀ j, j ≠ t → w'.session.stop_points.get? j = w.session.stop_points.get? j
  kept : ∀ q ∈ w.jvm.requests,
    (∀ sp, w.session.stop_points.get? t = some sp → q.handle ∉ hit_handles sp) →
      q ∈ w'.jvm.requests
  on : granted → On w' t
  off : ¬ granted → is_armed w'.session t = false

theorem push_one_turned (L : Ledger False [] nothing w) (ha : ClearsAccepted w.answers)
    (hsp : w.session.stop_points.get? t = some sp) (hon : sp.enabled = true) :
    Turned t (Grants ((disable_stop_point t).run w).2 (set_disabled sp)) w
      ((push_one t).run w).2 := by
  have harmed : is_armed w.session t = true := (is_armed_iff _ _).mpr ⟨sp, hsp, hon⟩
  obtain ⟨L1, hoff, -⟩ := disable_ledger t L False.elim
  obtain ⟨L2, hrearm⟩ := rearm_stop_point_ledger t L1 False.elim
  obtain ⟨hsp1, hkept1⟩ := disabled_world ha hsp
  obtain ⟨hkept2, hgranted, hrefused⟩ := rearmed_world hsp1 rfl
  have hanswers := (rearm_answers t ((disable_stop_point t).run w).2).trans (disable_answers t w)
  unfold push_one
  simp only [run_bind, run_get, harmed, if_true, run_pure]
  exact ⟨L2, hanswers, fun j hj => (hrearm.others j hj).trans (hoff.others j hj),
    fun q hq hn => hkept2 (hkept1 q hq (hn sp hsp)), hgranted, hrefused⟩

theorem push_one_idle (h : is_armed w.session t = false) : (push_one t).run w = (⟨⟩, w) := by
  unfold push_one
  simp only [run_bind, run_get, h, Bool.false_eq_true, if_false, run_pure]

/-- The turn of one stop point leaves the requests of every other one. -/
theorem Turned.spares {j : StopId} {granted : Prop} {w' : World} (h : Turned t granted w w')
    (L : Ledger False [] nothing w) (hj : j ≠ t) (hon : On w j) : On w' j := by
  obtain ⟨sp, hsp, hen, hwired⟩ := hon
  refine ⟨sp, (h.others j hj).trans hsp, hen, hwired.armed, fun r hr => ?_⟩
  obtain ⟨q, hq, hhandle, hcount⟩ := hwired.counted r hr
  refine ⟨q, h.kept q hq fun v hv hv' => ?_, hhandle, hcount⟩
  obtain ⟨hmem, hid⟩ := (Table.get?_eq_some _ _ _).mp hsp
  obtain ⟨hmem', hid'⟩ := (Table.get?_eq_some _ _ _).mp hv
  refine handles_apart L hmem hmem' (fun heq => hj ?_) (hit_mem_handles hr) ?_
  · rw [← hid, ← hid', heq]
  · rw [← hhandle]
    exact List.mem_append_left _ hv'

end Turns

section Pushes

variable {w : World}

/-- A stop point that is off is not switched on by a push. -/
theorem push_one_armed (L : Ledger False [] nothing w) (ha : ClearsAccepted w.answers)
    (t j : StopId) (h : is_armed ((push_one t).run w).2.session j = true) :
    is_armed w.session j = true := by
  cases harmed : is_armed w.session t with
  | false => rwa [push_one_idle harmed] at h
  | true =>
    obtain ⟨sp, hsp, hon⟩ := (is_armed_iff _ _).mp harmed
    by_cases hj : j = t
    · rwa [hj]
    · rw [is_armed, (push_one_turned L ha hsp hon).others j hj] at h
      exact h

/-- What a push may be begun in, and leaves. -/
structure Ready (w : World) : Prop where
  ledger : Ledger False [] nothing w
  clears : ClearsAccepted w.answers

theorem push_one_ready (t : StopId) : Preserves Ready (push_one t) := by
  intro w hw
  cases harmed : is_armed w.session t with
  | false => rwa [push_one_idle harmed]
  | true =>
    obtain ⟨sp, hsp, hon⟩ := (is_armed_iff _ _).mp harmed
    have hturn := push_one_turned hw.ledger hw.clears hsp hon
    exact ⟨hturn.ledger, by rw [hturn.answers]; exact hw.clears⟩

theorem push_cons (t : StopId) (rest : List StopId) (w : World) :
    (push_hit_count_to_the_wire (t :: rest)).run w =
      (push_hit_count_to_the_wire rest).run ((push_one t).run w).2 := rfl

variable (targets : List StopId)

theorem push_armed (hw : Ready w) (j : StopId)
    (h : is_armed ((push_hit_count_to_the_wire targets).run w).2.session j = true) :
    is_armed w.session j = true := by
  induction targets generalizing w with
  | nil => exact h
  | cons t rest ih =>
    rw [push_cons] at h
    exact push_one_armed hw.ledger hw.clears t j (ih (push_one_ready t w hw) h)

/-- With its request granted, a target that was on is on again; whatever else was on stays on. -/
theorem push_one_on (hw : Ready w) (t : StopId) (hgrant : is_armed w.session t = true → ∀ sp,
      ((disable_stop_point t).run w).2.session.stop_points.get? t = some sp →
        Grants ((disable_stop_point t).run w).2 sp) :
    (∀ j, On w j → On ((push_one t).run w).2 j) ∧
    (is_armed w.session t = true → On ((push_one t).run w).2 t) := by
  cases harmed : is_armed w.session t with
  | false =>
    rw [push_one_idle harmed]
    exact ⟨fun _ h => h, fun h => by cases h⟩
  | true =>
    obtain ⟨sp, hsp, hon⟩ := (is_armed_iff _ _).mp harmed
    have hturn := push_one_turned hw.ledger hw.clears hsp hon
    have hback := hturn.on (hgrant harmed _ (disabled_world hw.clears hsp).1)
    refine ⟨fun j hj => ?_, fun _ => hback⟩
    by_cases heq : j = t
    · rwa [heq]
    · exact hturn.spares hw.ledger heq hj

theorem push_granted (hw : Ready w) (hg : Granted targets w) :
    (∀ j, On w j → On ((push_hit_count_to_the_wire targets).run w).2 j) ∧
    ∀ j ∈ targets, is_armed w.session j = true →
      On ((push_hit_count_to_the_wire targets).run w).2 j := by
  induction targets generalizing w with
  | nil => exact ⟨fun _ h => h, fun _ h => by cases h⟩
  | cons t rest ih =>
    obtain ⟨hgrant, hlater⟩ := hg
    obtain ⟨hstay, hback⟩ := push_one_on hw t hgrant
    obtain ⟨hstay', hback'⟩ := ih (push_one_ready t w hw) hlater
    simp only [push_cons]
    refine ⟨fun j hj => hstay' j (hstay j hj), fun j hj harmed => ?_⟩
    by_cases heq : j = t
    · subst heq
      exact hstay' j (hback harmed)
    · refine hback' j ((List.mem_cons.mp hj).resolve_left heq) ?_
      cases hturn : is_armed w.session t with
      | false => rwa [push_one_idle hturn]
      | true =>
        obtain ⟨sp, hsp, hon⟩ := (is_armed_iff _ _).mp hturn
        rw [is_armed, (push_one_turned hw.ledger hw.clears hsp hon).others j heq]
        exact harmed

/-- A target whose request is refused is off afterwards. -/
theorem push_refused (hw : Ready w) (hg : ¬ Granted targets w) :
    ∃ t ∈ targets, is_armed w.session t = true ∧
      is_armed ((push_hit_count_to_the_wire targets).run w).2.session t = false := by
  induction targets generalizing w with
  | nil => exact absurd trivial hg
  | cons t rest ih =>
    simp only [push_cons]
    by_cases hgrant : is_armed w.session t = true → ∀ sp,
      ((disable_stop_point t).run w).2.session.stop_points.get? t = some sp →
        Grants ((disable_stop_point t).run w).2 sp
    · have hlater : ¬ Granted rest ((push_one t).run w).2 := fun h => hg ⟨hgrant, h⟩
      obtain ⟨j, hj, harmed, hoff⟩ := ih (push_one_ready t w hw) hlater
      exact ⟨j, List.mem_cons_of_mem t hj, push_one_armed hw.ledger hw.clears t j harmed, hoff⟩
    · push Not at hgrant
      obtain ⟨harmed, v, hv, hno⟩ := hgrant
      obtain ⟨sp, hsp, hon⟩ := (is_armed_iff _ _).mp harmed
      rw [(disabled_world hw.clears hsp).1] at hv
      cases hv
      have hoff := (push_one_turned hw.ledger hw.clears hsp hon).off hno
      refine ⟨t, List.mem_cons_self, harmed, ?_⟩
      cases hlast : is_armed ((push_hit_count_to_the_wire rest).run
          ((push_one t).run w).2).2.session t with
      | false => rfl
      | true =>
        rw [push_armed rest (push_one_ready t w hw) t hlast] at hoff
        cases hoff

end Pushes

section Edits

variable (condition : FieldEdit String) (hit_count : FieldEdit ℕ)

/-- The members a family's edit is copied to. -/
def members_of (s : DebugSession) (id : StopId) : List StopId :=
  match read_editable_stop_point s id with
  | .ok before => before.family_members
  | .error _ => []

/-- The records after the edit, before anything is sent. -/
def edited (w : World) (id : StopId) : World :=
  { w with session := apply_edits condition hit_count (id :: members_of w.session id) w.session }

theorem members_pushed (s : DebugSession) (id : StopId) :
    (if (members_of s id).isEmpty then [id] else members_of s id) = pushed_to s id := by
  unfold members_of read_editable_stop_point pushed_to
  cases s.stop_points.get? id with
  | some sp => rfl
  | none =>
    cases s.pattern_sets.get? id with
    | some set => rfl
    | none =>
      dsimp only
      split <;> rfl

variable {id : StopId} (w : World) {p : PendingBreakpoint}

theorem pushed_edited {s : DebugSession} {t : StopId} (ht : t ∈ pushed_to s id) :
    t ∈ id :: members_of s id := by
  rw [← members_pushed] at ht
  split at ht
  · exact List.mem_cons.mpr (Or.inl (List.mem_singleton.mp ht))
  · exact List.mem_cons_of_mem _ ht

theorem edited_get (id t : StopId) (ht : t ∈ pushed_to w.session id) :
    (edited condition hit_count w id).session.stop_points.get? t =
      (w.session.stop_points.get? t).map (edit_conditions condition hit_count) := by
  refine (apply_edits_get condition hit_count _ w.session t).trans ?_
  simp only [pushed_edited ht, if_true]

theorem edited_armed (id t : StopId) (ht : t ∈ pushed_to w.session id) :
    is_armed (edited condition hit_count w id).session t = is_armed w.session t := by
  unfold is_armed
  rw [edited_get condition hit_count w id t ht]
  cases w.session.stop_points.get? t <;> rfl

theorem update_run (id : StopId) (h : editable w.session id condition hit_count = true) :
    (handle_update_stop_point id condition hit_count).run w =
      (.ok (), if hit_count.asked then
        ((push_hit_count_to_the_wire (pushed_to w.session id)).run
          (edited condition hit_count w id)).2 else edited condition hit_count w id) := by
  rw [← members_pushed]
  unfold editable at h
  unfold handle_update_stop_point edited members_of
  obtain ⟨hasked, hbefore⟩ := Bool.and_eq_true_iff.mp h
  have hsome : ¬ ((!condition.asked && !hit_count.asked) = true) := by
    revert hasked
    cases condition.asked <;> cases hit_count.asked <;> simp
  rw [run_ite, if_neg hsome]
  simp only [run_bind, run_get]
  cases hread : read_editable_stop_point w.session id with
  | error e =>
    rw [hread] at hbefore
    cases hbefore
  | ok before =>
    rw [hread] at hbefore
    simp only [Bool.and_eq_true, Bool.not_eq_eq_eq_not, Bool.not_true] at hbefore
    simp only [run_ite, hbefore.1, hbefore.2, Bool.false_eq_true, if_false, run_bind, edit_run]
    cases hit_count.asked <;> rfl

theorem update_refused (id : StopId) (h : editable w.session id condition hit_count = false) :
    ∃ e, (handle_update_stop_point id condition hit_count).run w = (.error e, w) := by
  unfold editable at h
  unfold handle_update_stop_point
  rw [run_ite]
  by_cases hnone : (!condition.asked && !hit_count.asked) = true
  · rw [if_pos hnone]
    exact ⟨_, rfl⟩
  · have hasked : (condition.asked || hit_count.asked) = true := by
      revert hnone
      cases condition.asked <;> cases hit_count.asked <;> simp
    rw [hasked, Bool.true_and] at h
    rw [if_neg hnone]
    simp only [run_bind, run_get]
    cases hread : read_editable_stop_point w.session id with
    | error e => exact ⟨e, rfl⟩
    | ok before =>
      rw [hread] at h
      simp only [run_ite]
      by_cases hspent : before.spent = true
      · rw [if_pos hspent]
        exact ⟨_, rfl⟩
      · have hno : (condition.asked && !before.supports_condition) = true := by
          simpa [Bool.not_eq_true _ |>.mp hspent] using h
        rw [if_neg hspent, if_pos hno]
        exact ⟨_, rfl⟩

theorem edit_first_found {f : PendingBreakpoint → PendingBreakpoint} {l : List PendingBreakpoint}
    (h : l.find? (fun p => p.bp_id = id) = some p) : f p ∈ edit_first id f l := by
  induction l with
  | nil => cases h
  | cons q rest ih =>
    unfold edit_first
    rw [List.find?_cons] at h
    by_cases hq : q.bp_id = id
    · simp only [hq, decide_true, Option.some.injEq] at h
      rw [if_pos hq, h]
      exact List.mem_cons_self
    · simp only [hq, decide_false] at h
      rw [if_neg hq]
      exact List.mem_cons_of_mem q (ih h)

theorem edit_first_fixed {f : PendingBreakpoint → PendingBreakpoint} {l : List PendingBreakpoint}
    (hp : p ∈ l) (hf : f p = p) : p ∈ edit_first id f l := by
  induction l with
  | nil => cases hp
  | cons q rest ih =>
    unfold edit_first
    split
    · rcases List.mem_cons.mp hp with rfl | hp
      · rw [hf]
        exact List.mem_cons_self
      · exact List.mem_cons_of_mem _ hp
    · rcases List.mem_cons.mp hp with rfl | hp
      · exact List.mem_cons_self
      · exact List.mem_cons_of_mem q (ih hp)

/-- What the edit of some record leaves in place of a record that has taken it already. -/
theorem apply_edits_keep {P : DebugSession → Prop}
    (hone : ∀ s m, P s → P (apply_stop_point_edit s m condition hit_count)) (ids : List StopId)
    {s : DebugSession} (h : P s) : P (apply_edits condition hit_count ids s) := by
  induction ids generalizing s with
  | nil => exact h
  | cons m rest ih => exact ih (hone s m h)

theorem edited_deferral {w : World} (hnone : w.session.stop_points.get? id = none)
    (hp : w.session.pending_breakpoints.find? (fun p => p.bp_id = id) = some p) :
    edit_pending condition hit_count p ∈
      (edited condition hit_count w id).session.pending_breakpoints := by
  refine apply_edits_keep condition hit_count (P := fun s =>
    edit_pending condition hit_count p ∈ s.pending_breakpoints) (fun s m h => ?_)
    (members_of w.session id) (s := apply_stop_point_edit w.session id condition hit_count) ?_
  · dsimp only [apply_stop_point_edit]
    split
    · exact h
    · split
      · exact edit_first_fixed h (by simp [edit_pending, put_put])
      · exact h
  · have hany : w.session.pending_breakpoints.any (fun p => p.bp_id = id) = true := by
      rw [← List.isSome_find?, hp]
      rfl
    dsimp only [apply_stop_point_edit]
    rw [hnone, if_neg (by simp), if_pos hany]
    exact edit_first_found hp

theorem edited_family {w : World} {set : PatternStopSet}
    (hnone : w.session.stop_points.get? id = none)
    (hpend : w.session.pending_breakpoints.find? (fun p => p.bp_id = id) = none)
    (hset : w.session.pattern_sets.get? id = some set) :
    (edited condition hit_count w id).session.pattern_sets.get? id =
      some (edit_family condition hit_count set) := by
  have hedit : ∀ (s : DebugSession) m, (s.edit_pattern_set m
      (edit_family condition hit_count)).pattern_sets.get? id =
        if id = m then (s.pattern_sets.get? id).map (edit_family condition hit_count)
        else s.pattern_sets.get? id := fun s m =>
    Table.get?_modify s.pattern_sets m id (edit_family condition hit_count) fun _ => rfl
  refine apply_edits_keep condition hit_count (P := fun s => s.pattern_sets.get? id =
    some (edit_family condition hit_count set)) (fun s m h => ?_) (members_of w.session id)
    (s := apply_stop_point_edit w.session id condition hit_count) ?_
  · dsimp only [apply_stop_point_edit]
    split
    · exact h
    · split
      · exact h
      · rw [hedit, h]
        split
        · simp [edit_family, put_put]
        · rfl
  · have hany : w.session.pending_breakpoints.any (fun p => p.bp_id = id) = false := by
      rw [← List.isSome_find?, hpend]
      rfl
    dsimp only [apply_stop_point_edit]
    rw [hnone, if_neg (by simp), if_neg (by simp [hany]), hedit, if_pos rfl, hset]
    rfl

end Edits

section Outcome

variable {w : World}

theorem rearm_keeps_sets (id : StopId) :
    Keeps (fun w => w.session.pattern_sets) (rearm_stop_point id) :=
  Keeps.of_preserves fun _ => stop_point_preserves (fun sp w hw =>
    (congrArg (fun d => d.1.pattern_sets) (rearm_requests_talks sp w)).trans hw) fun _ _ hw => hw

theorem push_keeps_sets (targets : List StopId) :
    Keeps (fun w => w.session.pattern_sets) (push_hit_count_to_the_wire targets) := by
  refine Keeps.forM (fun t => Keeps.bind Keeps.get fun w => Keeps.ite ?_ (Keeps.pure _)) targets
  exact Keeps.bind (disable_keeps_sets t) fun _ => Keeps.bind (rearm_keeps_sets t) fun _ =>
    Keeps.pure _

/-- The record that a push leaves under a name has the terms it had. -/
theorem push_terms (targets : List StopId) {t : StopId} {sp : StopPoint}
    (hsp : w.session.stop_points.get? t = some sp) :
    ∃ sp', ((push_hit_count_to_the_wire targets).run w).2.session.stop_points.get? t = some sp' ∧
      sp'.condition = sp.condition ∧ sp'.hit_count = sp.hit_count := by
  have hterms := terms_of_roster (push_roster targets w) t
  rw [hsp] at hterms
  obtain ⟨sp', hsp', heq⟩ := Option.map_eq_some_iff.mp hterms
  exact ⟨sp', hsp', congrArg Terms.condition heq, congrArg Terms.hit_count heq⟩

theorem edited_ready (hw : Ready w) (condition : FieldEdit String) (hit_count : FieldEdit ℕ)
    (id : StopId) : Ready (edited condition hit_count w id) :=
  ⟨(apply_edits_ledger _ condition hit_count hw.ledger).1, hw.clears⟩

/-- What an accepted update leaves. -/
def updated (w : World) (id : StopId) (condition : FieldEdit String) (hit_count : FieldEdit ℕ) :
    World :=
  if hit_count.asked then
    ((push_hit_count_to_the_wire (pushed_to w.session id)).run (edited condition hit_count w id)).2
  else edited condition hit_count w id

theorem updated_renewed (hw : Ready w) (id : StopId) (condition : FieldEdit String)
    (hit_count : FieldEdit ℕ) (hg : hit_count.asked = true →
      Granted (pushed_to w.session id) (edited condition hit_count w id)) {t : StopId}
    (ht : t ∈ pushed_to w.session id) :
    Renewed condition hit_count t w (updated w id condition hit_count) := by
  intro sp hsp
  have hedit := edited_get condition hit_count w id t ht
  rw [hsp, Option.map_some] at hedit
  unfold updated
  cases hasked : hit_count.asked with
  | false =>
    rw [if_neg (by simp)]
    exact ⟨_, hedit, rfl, rfl, fun hon => ⟨hon, fun h => (by cases h), fun _ => ⟨rfl, rfl⟩⟩⟩
  | true =>
    rw [if_pos rfl]
    obtain ⟨sp', hsp', hcondition, hcount⟩ := push_terms (pushed_to w.session id) hedit
    refine ⟨sp', hsp', hcondition, hcount, fun hon => ?_⟩
    have harmed : is_armed (edited condition hit_count w id).session t = true :=
      (is_armed_iff _ _).mpr ⟨_, hedit, hon⟩
    obtain ⟨v, hv, hen, hwired⟩ := (push_granted _ (edited_ready hw condition hit_count id)
      (hg hasked)).2 t ht harmed
    rw [hsp'] at hv
    cases hv
    exact ⟨hen, fun _ => hwired, fun h => (by cases h)⟩

theorem updated_effective (hw : Ready w) (id : StopId) (condition : FieldEdit String)
    (hit_count : FieldEdit ℕ) (hg : hit_count.asked = true →
      Granted (pushed_to w.session id) (edited condition hit_count w id)) :
    Effective condition hit_count id w (updated w id condition hit_count) := by
  refine ⟨fun t ht => updated_renewed hw id condition hit_count hg ht, fun hnone p hp => ?_,
    fun hnone hpend set hset => ?_⟩
  · have hmem := edited_deferral condition hit_count hnone hp
    unfold updated
    split
    · rw [show ∀ v : World, v.session.pending_breakpoints = (roster v).pending from fun _ => rfl,
        push_roster]
      exact hmem
    · exact hmem
  · have hget := edited_family condition hit_count hnone hpend hset
    unfold updated
    split
    · exact (congrArg (fun t => t.get? id) (push_keeps_sets _ _)).trans hget
    · exact hget

/-- A refused request switches its stop point off under a reply of success. -/
theorem updated_refused (hw : Ready w) (id : StopId) (condition : FieldEdit String)
    (hit_count : FieldEdit ℕ) (hasked : hit_count.asked = true)
    (hg : ¬ Granted (pushed_to w.session id) (edited condition hit_count w id)) :
    ¬ Effective condition hit_count id w (updated w id condition hit_count) := by
  intro heff
  obtain ⟨t, ht, harmed, hoff⟩ := push_refused _ (edited_ready hw condition hit_count id) hg
  rw [edited_armed condition hit_count w id t ht] at harmed
  obtain ⟨sp, hsp, hon⟩ := (is_armed_iff _ _).mp harmed
  obtain ⟨sp', hsp', -, -, hback⟩ := heff.stop_points t ht sp hsp
  have hstill := (is_armed_iff _ _).mpr ⟨sp', hsp', (hback hon).1⟩
  unfold updated at hstill
  rw [if_pos hasked, hoff] at hstill
  cases hstill

theorem update_honest (hw : Ready w) (s : Attached) (id : StopId) (condition : FieldEdit String)
    (hit_count : FieldEdit ℕ) :
    Honest s id condition hit_count w ↔
      (editable w.session id condition hit_count = true →
        check_condition_edit s condition = .ok () → hit_count.asked = true →
          Granted (pushed_to w.session id) (edited condition hit_count w id)) := by
  cases hed : editable w.session id condition hit_count with
  | false =>
    obtain ⟨e, hrun⟩ := update_refused condition hit_count w id hed
    have hout : (update_stop_point s id condition hit_count).run w = (.error (.failed e), w) := by
      unfold update_stop_point
      simp only [run_bind, run_get, hed, Bool.false_eq_true, if_false]
      change (Except.mapError _ ((handle_update_stop_point id condition hit_count).run w).1,
        ((handle_update_stop_point id condition hit_count).run w).2) = _
      rw [hrun]
      rfl
    refine iff_of_true ⟨fun h => ?_, fun _ _ => ?_⟩ fun h => by cases h
    · rw [hout] at h
      cases h
    · rw [hout]
      exact ⟨rfl, rfl⟩
  | true =>
    cases hcheck : check_condition_edit s condition with
    | error text =>
      have hout : (update_stop_point s id condition hit_count).run w =
          (.error (.readonly text), w) := by
        unfold update_stop_point
        simp only [run_bind, run_get, hed, if_true, hcheck]
        rfl
      refine iff_of_true ⟨fun h => ?_, fun _ _ => ?_⟩ fun _ h => by cases h
      · rw [hout] at h
        cases h
      · rw [hout]
        exact ⟨rfl, rfl⟩
    | ok _ =>
      have hout : (update_stop_point s id condition hit_count).run w =
          (.ok (), updated w id condition hit_count) := by
        unfold update_stop_point
        simp only [run_bind, run_get, hed, if_true, hcheck]
        change (Except.mapError _ ((handle_update_stop_point id condition hit_count).run w).1,
          ((handle_update_stop_point id condition hit_count).run w).2) = _
        rw [update_run condition hit_count w id hed]
        rfl
      constructor
      · intro h _ _ hasked
        have heff := h.effect (congrArg Prod.fst hout)
        rw [hout] at heff
        by_contra hg
        exact updated_refused hw id condition hit_count hasked hg heff
      · intro hg
        refine ⟨fun _ => ?_, fun e he => ?_⟩
        · rw [hout]
          exact updated_effective hw id condition hit_count (hg rfl rfl)
        · rw [hout] at he
          cases he

end Outcome

section Runs

/-- In every state that a session reaches, with a wire that carries out every Clear, an update
takes effect or changes nothing exactly when the request on which each of the stop points it
pushes to depends is granted. -/
theorem update_effective_iff {threads : List ThreadId} {a₀ a : Answers} {w : World}
    (hrun : Run (fun _ _ => True) (World.start threads a₀) w) (ha : ClearsAccepted a) (s : Attached)
    (id : StopId) (condition : FieldEdit String) (hit_count : FieldEdit ℕ) :
    Honest s id condition hit_count (w.begin a) ↔
      (editable w.session id condition hit_count = true →
        check_condition_edit s condition = .ok () → hit_count.asked = true →
          Granted (pushed_to w.session id)
          (edited condition hit_count (w.begin a) id)) :=
  update_honest ⟨begin_ledger a (run_ledger hrun) False.elim, ha⟩ s id condition hit_count

def watch_exits : Move :=
  .call (.set_method_exit_stop ["A"] none false [] (plain_options none)) plain

/-- A session with one stop point, on the exits of a class. -/
def exits_watched : World := watch_exits.next (World.start [1] plain)

theorem update_effective_exits :
    Honest ⟨false, [], rfl⟩ ⟨"mexit_", 1⟩ .leave (.set 5) (exits_watched.begin plain) ↔
      (editable exits_watched.session ⟨"mexit_", 1⟩ .leave (.set 5) = true →
        check_condition_edit ⟨false, [], rfl⟩ .leave = .ok () →
          (FieldEdit.set 5).asked = true →
            Granted (pushed_to exits_watched.session ⟨"mexit_", 1⟩)
              (edited .leave (.set 5) (exits_watched.begin plain) ⟨"mexit_", 1⟩)) :=
  update_effective_iff (Relation.ReflTransGen.single (Step.intro watch_exits trivial trivial))
    ⟨fun _ _ _ => rfl, fun _ => rfl⟩ _ _ _ _

/-- INVALID_COUNT: the debuggee takes no count of zero. -/
def count_checked : Answers :=
  { plain with refused := fun c _ => match c with
    | .set _ _ f => if f.count = some 0 then some (.code 512) else none
    | _ => none }

/-- The count of a stop point that is on is set to zero; the stop point is off afterwards, under a
reply that says it was updated. -/
theorem update_leaves_off :
    ¬ Honest ⟨false, [], rfl⟩ ⟨"mexit_", 1⟩ .leave (.set 0)
      (exits_watched.begin count_checked) := by
  intro h
  have hok : ((update_stop_point ⟨false, [], rfl⟩ ⟨"mexit_", 1⟩ .leave (.set 0)).run
      (exits_watched.begin count_checked)).1 = .ok () := by decide +kernel
  have hon : is_armed exits_watched.session ⟨"mexit_", 1⟩ = true := by decide +kernel
  have hoff : is_armed ((update_stop_point ⟨false, [], rfl⟩ ⟨"mexit_", 1⟩ .leave (.set 0)).run
      (exits_watched.begin count_checked)).2.session ⟨"mexit_", 1⟩ = false := by decide +kernel
  have hpushed : pushed_to exits_watched.session ⟨"mexit_", 1⟩ = [⟨"mexit_", 1⟩] := by
    decide +kernel
  obtain ⟨sp, hsp, hen⟩ := (is_armed_iff _ _).mp hon
  obtain ⟨sp', hsp', -, -, hback⟩ := (h.effect hok).stop_points ⟨"mexit_", 1⟩
    (by rw [show (exits_watched.begin count_checked).session = exits_watched.session from rfl,
      hpushed]; exact List.mem_cons_self) sp hsp
  rw [(is_armed_iff _ _).mpr ⟨sp', hsp', (hback hen).1⟩] at hoff
  cases hoff

end Runs

end JavaDebug.PushedCounts
