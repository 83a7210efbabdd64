import JavaDebug.LedgerRuns

/-!
A refused arming and what it leaves. `Target` is one target of an arming call,
the way a call that names it alone and a row of a batch both arm it. Monitor
kinds are taken back when one of them is refused; a class-load watch and the
first watch of a field are not, so nothing is left exactly when the refusal
comes before the first grant.
-/
namespace JavaDebug.RefusedArming

open Jdwp StopPoints Wire Disarming
open Arming StateProgram Runs Ownership
open Granting LedgerRuns

/-- What is armed: the debuggee's live requests and the session's records. -/
structure Armament where
  requests : List EventRequest
  stop_points : List StopPoint
  pending_breakpoints : List PendingBreakpoint
  pattern_sets : List PatternStopSet
  deriving DecidableEq

def armament (w : World) : Armament :=
  ⟨w.jvm.requests, w.session.stop_points.rows, w.session.pending_breakpoints,
    w.session.pattern_sets.rows⟩

/-- One class of a wildcard family. -/
def arm_member (spec : BreakpointSpec) (fqn : String) (type_id : ClassId) :
    Handler (Except ArmError StopId) := do
  let signature := (← get).answers.signature_for_dotted fqn
  let bp_id ← fresh_id "bp_"
  arm_and_insert [type_id] { spec with class_pattern := fqn, signature := signature } bp_id
    .covered_by_family

/-- A field of a class given by its exact name: the call that names it alone, and its row in a
batch. -/
def arm_field_on_named_class (class_name field_name : String) (kinds : List WatchKind)
    (o : StopOptions) : Handler (Except Failure Unit) := do
  match ← lookup fun a n => a.resolve_class_by_dotted n class_name with
  | .error e => pure (.error (.failed_to_arm e))
  | .ok none => pure (.error .class_not_loaded)
  | .ok (some type_id) => arm_field_on_one_class field_name kinds o (class_name, type_id)

inductive Target
  | line (spec : BreakpointSpec)
  | member (spec : BreakpointSpec) (fqn : String) (type_id : ClassId)
  | named_field (class_name field_name : String) (kinds : List WatchKind) (o : StopOptions)
  | matched_field (fqn : String) (type_id : ClassId) (field_name : String)
      (kinds : List WatchKind) (o : StopOptions)
  | monitor (kinds : List MonitorKind) (arm : MonitorArm) (o : StopOptions)

def Target.arm : Target → Handler (Except Failure Unit)
  | .line spec => forget_ids <$> arm_exact spec
  | .member spec fqn type_id =>
    (fun r => forget_ids (r.mapError ArmError.into_failure)) <$> arm_member spec fqn type_id
  | .named_field class_name field_name kinds o =>
    arm_field_on_named_class class_name field_name kinds o
  | .matched_field fqn type_id field_name kinds o =>
    arm_field_on_one_class field_name kinds o (fqn, type_id)
  | .monitor kinds arm o => arm_monitor_kinds kinds arm o [] kinds

section Conditions

def refuses_watch (w : World) (pattern : String) : Prop :=
  (w.refuses (.set (.class_prepare pattern) .eventThread no_filters)).isSome

/-- The class has no such field, or its first watch is the one that is refused. -/
def FieldRefusedEarly (w : World) (type_id : ClassId) (field_name : String) (kinds : List WatchKind)
    (o : StopOptions) : Prop :=
  match w.answers.find_field_info w.sent.length type_id field_name with
  | .ok (some (declaring, field, is_static)) =>
    (o.instance_filter.isSome && is_static) = true ∨ ∃ kind, kinds.head? = some kind ∧
      (w.refuses (.set (.field_watch declaring field kind) (suspend_policy_for o.trace)
        o.filters)).isSome
  | _ => True

/-- The refusal comes before the first grant that is not taken back. -/
def RefusedEarly (w : World) : Target → Prop
  | .line spec =>
    match w.answers.classes_by_signature w.sent.length spec.signature with
    | .error _ => True
    | .ok classes => classes = [] ∧ spec.options.instance_filter.isSome ∨
      refuses_watch w spec.class_pattern
  | .named_field class_name field_name kinds o =>
    match w.answers.resolve_class_by_dotted w.sent.length class_name with
    | .ok (some type_id) => FieldRefusedEarly (w.log .lookup) type_id field_name kinds o
    | _ => True
  | .matched_field _ type_id field_name kinds o => FieldRefusedEarly w type_id field_name kinds o
  | .member _ _ _ | .monitor _ _ _ => True

end Conditions

section Lines

/-- The records and the debuggee as they were. -/
def Untouched (w w' : World) : Prop :=
  w'.jvm = w.jvm ∧ w'.session = w.session ∧ w'.answers = w.answers

variable {w : World}

variable {w' : World}

theorem Untouched.trans {w'' : World} (h : Untouched w w') (h' : Untouched w' w'') :
    Untouched w w'' := ⟨h'.1.trans h.1, h'.2.1.trans h.2.1, h'.2.2.trans h.2.2⟩

theorem Untouched.armament (h : Untouched w w') : armament w' = armament w := by
  simp only [RefusedArming.armament, h.1, h.2.1]

theorem resolve_primary_untouched (all : List ClassId) (spec : BreakpointSpec)
    (copies : List ClassId) (w : World) :
    Untouched w ((resolve_primary_copy all spec copies).run w).2 := by
  induction copies generalizing w with
  | nil => exact ⟨rfl, rfl, rfl⟩
  | cons c rest ih =>
    unfold resolve_primary_copy
    simp only [run_bind, resolve_bp_location, lookup_run]
    split
    · exact ⟨rfl, rfl, rfl⟩
    · exact Untouched.trans ⟨rfl, rfl, rfl⟩ (ih _)
    · exact ⟨rfl, rfl, rfl⟩

/-- Only its first Set can fail an arming, so a failed one has granted nothing. -/
theorem arm_and_insert_untouched (copies : List ClassId) (spec : BreakpointSpec) (bp_id : StopId)
    (rearm : RearmState) (w : World) (e : ArmError)
    (h : ((arm_and_insert copies spec bp_id rearm).run w).1 = .error e) :
    Untouched w ((arm_and_insert copies spec bp_id rearm).run w).2 := by
  unfold arm_and_insert at h ⊢
  rw [run_ite] at h ⊢
  split at h
  · rename_i hempty
    rw [if_pos hempty]
    exact ⟨rfl, rfl, rfl⟩
  rename_i hne
  rw [if_neg hne]
  have hres := resolve_primary_untouched copies spec copies w
  simp only [run_bind] at h ⊢
  revert hres h
  generalize (resolve_primary_copy copies spec copies).run w = res
  obtain ⟨r, w1⟩ := res
  intro hres h
  rcases r with e' | ⟨class_id, loc, others⟩
  · exact hres
  simp only [run_ite] at h ⊢
  split at h
  · rename_i hstatic
    rw [if_pos hstatic]
    exact hres
  rename_i hnot
  rw [if_neg hnot]
  simp only [run_bind, set_breakpoint_ex, set_request_run] at h ⊢
  cases hr : w1.refuses (.set (.breakpoint ⟨class_id, loc.method_id, loc.code_index⟩)
      spec.suspend_policy spec.options.filters) with
  | some e' =>
    simp only [hr] at h ⊢
    exact hres.trans ⟨rfl, rfl, rfl⟩
  | none =>
    rw [hr] at h
    cases h

/-- The world after a class-load watch was granted. -/
theorem watch_granted {pattern : String} (h : ¬ refuses_watch w pattern) :
    (set_class_prepare pattern).run w = (.ok w.jvm.next_request,
      { w.log (.set (.class_prepare pattern) .eventThread no_filters) with
        jvm := w.jvm.set_request (.class_prepare pattern) .eventThread no_filters }) := by
  have hr : w.refuses (.set (.class_prepare pattern) .eventThread no_filters) = none := by
    simpa [refuses_watch] using h
  simp only [set_class_prepare, set_request_run, hr]

theorem watch_refused {pattern : String} (h : refuses_watch w pattern) :
    ∃ e, (set_class_prepare pattern).run w =
      (.error e, w.log (.set (.class_prepare pattern) .eventThread no_filters)) := by
  obtain ⟨e, he⟩ := Option.isSome_iff_exists.mp h
  exact ⟨e, by simp only [set_class_prepare, set_request_run, he]⟩

/-- A watch that was granted and then left shows among the live requests. -/
theorem watch_left (pattern : String)
    (h : w'.jvm = w.jvm.set_request (.class_prepare pattern) .eventThread no_filters) :
    armament w' ≠ armament w := by
  intro heq
  have hlen := congrArg (fun a => a.requests.length) heq
  simp [armament, h, Jvm.set_request] at hlen

theorem defer_refused {spec : BreakpointSpec} {bp_id : StopId} {e : Failure}
    (h : ((defer_breakpoint spec bp_id).run w).1 = .error e) :
    armament ((defer_breakpoint spec bp_id).run w).2 = armament w ↔
      spec.options.instance_filter.isSome ∨ refuses_watch w spec.class_pattern := by
  unfold defer_breakpoint at h ⊢
  rw [run_ite] at h ⊢
  by_cases hinst : spec.options.instance_filter.isSome = true
  · rw [if_pos hinst]
    exact ⟨fun _ => Or.inl hinst, fun _ => rfl⟩
  rw [if_neg hinst] at h ⊢
  by_cases hr : refuses_watch w spec.class_pattern
  · obtain ⟨e', he⟩ := watch_refused hr
    simp only [run_bind, he]
    exact ⟨fun _ => Or.inr hr, fun _ => rfl⟩
  have hno : ¬ (spec.options.instance_filter.isSome ∨ refuses_watch w spec.class_pattern) :=
    not_or.mpr ⟨hinst, hr⟩
  refine iff_of_false ?_ hno
  simp only [run_bind, watch_granted hr] at h ⊢
  generalize hwg : World.mk _ _ _ _ _ = wg at h ⊢
  have hjvm : ((classes_by_signature spec.signature).run wg).2.jvm = w.jvm.set_request
      (.class_prepare spec.class_pattern) .eventThread no_filters := by
    rw [← hwg]
    rfl
  revert h hjvm
  generalize (classes_by_signature spec.signature).run wg = found
  obtain ⟨r, w1⟩ := found
  intro h hjvm
  dsimp only at h hjvm ⊢
  rw [run_ite] at h ⊢
  split at h
  · cases h
  rename_i hne
  rw [if_neg hne]
  have hun := arm_and_insert_untouched (r.toOption.getD []) spec bp_id
    (watching w.jvm.next_request spec) w1
  simp only [run_bind] at h ⊢
  revert h hun
  generalize (arm_and_insert _ spec bp_id (watching w.jvm.next_request spec)).run w1 = res
  obtain ⟨r, w2⟩ := res
  intro h hun
  cases r with
  | ok id => cases h
  | error e' => exact watch_left spec.class_pattern ((hun e' rfl).1.trans hjvm)

theorem arm_exact_refused {spec : BreakpointSpec} {e : Failure}
    (h : ((arm_exact spec).run w).1 = .error e) :
    armament ((arm_exact spec).run w).2 = armament w ↔ RefusedEarly w (.line spec) := by
  unfold arm_exact at h ⊢
  obtain ⟨bp_id, w1, hfresh, hw1, hsent⟩ : ∃ bp_id w1, (fresh_id "bp_").run w = (bp_id, w1) ∧
      armament w1 = armament w ∧ w1.sent = w.sent ∧ w1.answers = w.answers ∧ w1.jvm = w.jvm :=
    ⟨_, _, rfl, rfl, rfl, rfl, rfl⟩
  obtain ⟨hsent, hans, hjvm⟩ := hsent
  have hwatch : refuses_watch (w1.log .lookup) spec.class_pattern ↔
      refuses_watch w spec.class_pattern := by
    simp [refuses_watch, World.refuses, World.log, hsent, hans, List.count_append]
  simp only [run_bind, hfresh, classes_by_signature, lookup_run, hans, hsent] at h ⊢
  cases hc : w.answers.classes_by_signature w.sent.length spec.signature with
  | error e' =>
    simp only [hc, RefusedEarly]
    exact iff_of_true hw1 trivial
  | ok classes =>
    simp only [hc, run_ite, RefusedEarly] at h ⊢
    rw [← hw1, ← hwatch]
    cases classes with
    | nil =>
      have hlog : armament (w1.log .lookup) = armament w1 := rfl
      have := defer_refused h
      rw [hlog] at this
      simpa using this
    | cons c rest =>
      simp only [List.isEmpty_cons, Bool.false_eq_true, if_false, run_bind] at h ⊢
      by_cases hr : refuses_watch (w1.log .lookup) spec.class_pattern
      · obtain ⟨e', he⟩ := watch_refused hr
        refine iff_of_true ?_ (Or.inr hr)
        simp only [register_rearm_watch, run_bind, he, run_pure] at h ⊢
        generalize hw2 : World.log _ (Command.set _ _ _) = w2 at h ⊢
        have hun := arm_and_insert_untouched (c :: rest) spec bp_id .unwatched w2
        revert h hun
        generalize (arm_and_insert (c :: rest) spec bp_id .unwatched).run w2 = res
        obtain ⟨r, w3⟩ := res
        intro h hun
        cases r with
        | ok id => cases h
        | error e' => exact (hun e' rfl).armament.trans (by rw [← hw2]; rfl)
      · refine iff_of_false ?_ (by simpa using hr)
        simp only [register_rearm_watch, run_bind, watch_granted hr, run_pure] at h ⊢
        generalize hw2 : World.mk _ _ _ _ _ = w2 at h ⊢
        have hun := arm_and_insert_untouched (c :: rest) spec bp_id
          (watching (w1.log .lookup).jvm.next_request spec) w2
        revert h hun
        generalize (arm_and_insert (c :: rest) spec bp_id _).run w2 = res
        obtain ⟨r, w3⟩ := res
        intro h hun
        cases r with
        | ok id => cases h
        | error e' =>
          refine watch_left spec.class_pattern ((hun e' rfl).1.trans ?_)
          rw [← hw2]
          rfl

end Lines

section Fields

variable {declaring : ClassId} {field : ℕ} {is_static : Bool} {class_name field_name : String}
  {o : StopOptions}

/-- The watch of one kind is refused. -/
def WatchRefused (w : World) (declaring : ClassId) (field : ℕ) (is_static : Bool) (o : StopOptions)
    (kind : WatchKind) : Prop :=
  (o.instance_filter.isSome && is_static) = true ∨
    (w.refuses (.set (.field_watch declaring field kind) (suspend_policy_for o.trace)
      o.filters)).isSome

variable (declaring field is_static class_name field_name o) in
/-- One kind is refused and leaves nothing, or is armed with one more request. -/
theorem field_watch_cases (w : World) (kind : WatchKind) :
    (WatchRefused w declaring field is_static o kind ∧
      (∃ e, ((arm_one_field_watch declaring field is_static class_name field_name o kind).run
        w).1 = .error e) ∧
      Untouched w ((arm_one_field_watch declaring field is_static class_name field_name o
        kind).run w).2) ∨
    (¬ WatchRefused w declaring field is_static o kind ∧
      (∃ a, ((arm_one_field_watch declaring field is_static class_name field_name o kind).run
        w).1 = .ok a) ∧
      ((arm_one_field_watch declaring field is_static class_name field_name o kind).run
        w).2.jvm.requests.length = w.jvm.requests.length + 1) := by
  unfold arm_one_field_watch
  rw [run_ite]
  by_cases hstatic : (o.instance_filter.isSome && is_static) = true
  · rw [if_pos hstatic]
    exact Or.inl ⟨Or.inl hstatic, ⟨_, rfl⟩, rfl, rfl, rfl⟩
  rw [if_neg hstatic]
  simp only [arm_request, run_bind, set_request_run, WatchRefused]
  cases hr : w.refuses (.set (.field_watch declaring field kind) (suspend_policy_for o.trace)
      o.filters) with
  | some e => exact Or.inl ⟨Or.inr rfl, ⟨_, rfl⟩, rfl, rfl, rfl⟩
  | none =>
    refine Or.inr ⟨fun h => ?_, ⟨_, rfl⟩, ?_⟩
    · rcases h with h | h
      · exact hstatic h
      · cases h
    · exact List.length_append

variable (declaring field is_static class_name field_name o) in
theorem field_kinds_grow (kinds : List WatchKind) (w : World) :
    w.jvm.requests.length ≤ ((arm_field_kinds declaring field is_static class_name field_name o
      kinds).run w).2.jvm.requests.length := by
  induction kinds generalizing w with
  | nil => exact le_rfl
  | cons kind rest ih =>
    unfold arm_field_kinds
    rw [run_bind]
    rcases field_watch_cases declaring field is_static class_name field_name o w kind with
      ⟨-, ⟨e, he⟩, hun⟩ | ⟨-, ⟨a, ha⟩, hlen⟩
    · rw [he]
      exact (congrArg (fun j => j.requests.length) hun.1).ge
    · rw [ha]
      exact Nat.le_trans (by omega) (ih _)

theorem field_kinds_refused {kinds : List WatchKind} {w : World} {e : Failure}
    (h : ((arm_field_kinds declaring field is_static class_name field_name o kinds).run w).1 =
      .error e) :
    armament ((arm_field_kinds declaring field is_static class_name field_name o kinds).run w).2 =
      armament w ↔ ∃ kind, kinds.head? = some kind ∧
        WatchRefused w declaring field is_static o kind := by
  cases kinds with
  | nil => cases h
  | cons kind rest =>
    unfold arm_field_kinds at h ⊢
    rw [run_bind] at h ⊢
    rcases field_watch_cases declaring field is_static class_name field_name o w kind with
      ⟨hr, ⟨e, he⟩, hun⟩ | ⟨hr, ⟨a, ha⟩, hlen⟩
    · rw [he]
      exact iff_of_true hun.armament ⟨kind, rfl, hr⟩
    · rw [ha]
      refine iff_of_false (fun heq => ?_) ?_
      · have hgrow := field_kinds_grow declaring field is_static class_name field_name o rest
          ((arm_one_field_watch declaring field is_static class_name field_name o kind).run w).2
        have hsame := congrArg (fun a => a.requests.length) heq
        simp only [armament] at hsame
        omega
      · simpa using hr

theorem field_refused {kinds : List WatchKind} {type_id : ClassId} {w : World} {e : Failure}
    (h : ((arm_field_on_one_class field_name kinds o (class_name, type_id)).run w).1 = .error e) :
    armament ((arm_field_on_one_class field_name kinds o (class_name, type_id)).run w).2 =
      armament w ↔ FieldRefusedEarly w type_id field_name kinds o := by
  unfold arm_field_on_one_class at h ⊢
  simp only [run_bind, lookup_run] at h ⊢
  cases hf : w.answers.find_field_info w.sent.length type_id field_name with
  | error e' =>
    simp only [hf, FieldRefusedEarly]
    exact iff_of_true rfl trivial
  | ok found =>
    cases found with
    | none =>
      simp only [hf, FieldRefusedEarly]
      exact iff_of_true rfl trivial
    | some f =>
      obtain ⟨declaring, field, is_static⟩ := f
      simp only [hf, FieldRefusedEarly] at h ⊢
      have hlog : armament (w.log .lookup) = armament w := rfl
      rw [← hlog, field_kinds_refused h]
      cases kinds with
      | nil => cases h
      | cons kind rest =>
        simp [WatchRefused, World.refuses, World.log, List.count_append]

end Fields

section Monitors

/-- The handle of a monitor stop's one request. -/
def monitor_handle (one : StopId × RequestId × MonitorKind) : Handle :=
  (.monitor one.2.2, one.2.1)

/-- Since `w₀`, the monitor kinds in `armed` were armed and nothing else changed. -/
structure Since (w₀ : World) (armed : List (StopId × RequestId × MonitorKind)) (w : World) :
    Prop where
  requests : ∃ qs, w.jvm.requests = w₀.jvm.requests ++ qs ∧
    qs.map EventRequest.handle = armed.map monitor_handle
  rows : ∃ sps, w.session.stop_points.rows = w₀.session.stop_points.rows ++ sps ∧
    sps.map StopPoint.id = armed.map Prod.fst
  deferrals : w.session.pending_breakpoints = w₀.session.pending_breakpoints
  families : w.session.pattern_sets = w₀.session.pattern_sets
  answers : w.answers = w₀.answers
  granted : ∀ one ∈ armed, w₀.jvm.next_request ≤ one.2.1 ∧ one.2.1 < w.jvm.next_request
  named : ∀ one ∈ armed, w₀.session.stop_seq < one.1.seq ∧ one.1.seq ≤ w.session.stop_seq
  later : w₀.jvm.next_request ≤ w.jvm.next_request ∧ w₀.session.stop_seq ≤ w.session.stop_seq
  distinct : (armed.map fun one => one.2.1).Nodup ∧ (armed.map Prod.fst).Nodup

variable {w₀ : World} {armed : List (StopId × RequestId × MonitorKind)} {w : World}

theorem Since.refl (w₀ : World) : Since w₀ [] w₀ where
  requests := ⟨[], (List.append_nil _).symm, rfl⟩
  rows := ⟨[], (List.append_nil _).symm, rfl⟩
  deferrals := rfl
  families := rfl
  answers := rfl
  granted _ h := by cases h
  named _ h := by cases h
  later := ⟨le_rfl, le_rfl⟩
  distinct := ⟨List.nodup_nil, List.nodup_nil⟩

theorem Since.none_left (S : Since w₀ [] w) : armament w = armament w₀ := by
  obtain ⟨qs, hqs, hmap⟩ := S.requests
  obtain ⟨sps, hsps, hids⟩ := S.rows
  rw [List.map_nil, List.map_eq_nil_iff] at hmap hids
  simp only [RefusedArming.armament, hqs, hsps, hmap, hids, S.deferrals, S.families,
    List.append_nil]

/-- One kind is refused, or joins the others. -/
theorem Since.add (S : Since w₀ armed w) (L : Ledger False [] nothing w)
    (all_kinds : List MonitorKind) (arm : MonitorArm) (o : StopOptions) (kind : MonitorKind) :
    ((∃ e, ((arm_one_monitor all_kinds arm o kind).run w).1 = .error e) ∧
      Since w₀ armed ((arm_one_monitor all_kinds arm o kind).run w).2) ∨
    ∃ id req, ((arm_one_monitor all_kinds arm o kind).run w).1 = .ok (id, req) ∧
      Since w₀ (armed ++ [(id, req, kind)]) ((arm_one_monitor all_kinds arm o kind).run w).2 := by
  simp only [arm_one_monitor, arm_request, run_bind, set_request_run]
  cases hr : w.refuses (.set (.monitor kind (arm.monitor_class_id.filter fun _ =>
      kind.class_filter_tests_monitor)) (suspend_policy_for (monitor_options o).trace)
      (monitor_options o).filters) with
  | some e =>
    refine Or.inl ⟨⟨.failed_to_arm e, rfl⟩, ?_⟩
    exact ⟨S.requests, S.rows, S.deferrals, S.families, S.answers, S.granted, S.named, S.later,
      S.distinct⟩
  | none =>
    refine Or.inr ⟨⟨monitor_tag kind, w.session.stop_seq + 1⟩, w.jvm.next_request, rfl, ?_⟩
    obtain ⟨qs, hqs, hmap⟩ := S.requests
    obtain ⟨sps, hsps, hids⟩ := S.rows
    have hnew : ∀ sp ∈ w.session.stop_points.rows, sp.id ≠
        ⟨monitor_tag kind, w.session.stop_seq + 1⟩ := fun sp hsp heq => by
      have := L.named.stops sp hsp
      rw [heq] at this
      exact absurd this (Nat.not_succ_le_self _)
    have hall : ∀ {P : StopId × RequestId × MonitorKind → Prop}, (∀ one ∈ armed, P one) →
        P (⟨monitor_tag kind, w.session.stop_seq + 1⟩, w.jvm.next_request, kind) →
        ∀ one ∈ armed ++ [(⟨monitor_tag kind, w.session.stop_seq + 1⟩, w.jvm.next_request,
          kind)], P one := fun h hone one hm =>
      (List.mem_append.mp hm).elim (h one) fun hm => List.mem_singleton.mp hm ▸ hone
    refine ⟨⟨qs ++ [⟨w.jvm.next_request, .monitor kind (arm.monitor_class_id.filter fun _ =>
        kind.class_filter_tests_monitor), suspend_policy_for (monitor_options o).trace,
        (monitor_options o).filters⟩], ?_, ?_⟩,
      ⟨sps ++ [(monitor_options o).stop_point ⟨monitor_tag kind, w.session.stop_seq + 1⟩
        [w.jvm.next_request] (.monitor ⟨kind, decide (kind.partner ∈ all_kinds),
          arm.monitor_class, arm.min_duration_ms⟩)], ?_, ?_⟩, S.deferrals, S.families, S.answers,
      hall (fun one hm => ?_) ?_, hall (fun one hm => ?_) ?_, ?_, ?_⟩
    · change w.jvm.requests ++ [_] = _
      rw [hqs, List.append_assoc]
    · rw [List.map_append, hmap, List.map_append]
      rfl
    · refine (congrArg (fun l => l ++ [_]) (List.filter_eq_self.mpr fun sp hsp =>
        decide_eq_true (hnew sp hsp))).trans ?_
      rw [hsps, List.append_assoc]
      rfl
    · rw [List.map_append, hids, List.map_append]
      rfl
    · exact ⟨(S.granted one hm).1, Nat.lt_succ_of_lt (S.granted one hm).2⟩
    · exact ⟨S.later.1, Nat.lt_succ_self _⟩
    · exact ⟨(S.named one hm).1, Nat.le_succ_of_le (S.named one hm).2⟩
    · exact ⟨Nat.lt_succ_of_le S.later.2, le_rfl⟩
    · exact ⟨Nat.le_succ_of_le S.later.1, Nat.le_succ_of_le S.later.2⟩
    · rw [List.map_append, List.map_append, List.nodup_append, List.nodup_append]
      refine ⟨⟨S.distinct.1, List.nodup_singleton _, fun a ha b hb => ?_⟩, S.distinct.2,
        List.nodup_singleton _, fun a ha b hb => ?_⟩
      · obtain ⟨one, hm, rfl⟩ := List.mem_map.mp ha
        rw [List.mem_singleton.mp hb]
        exact Nat.ne_of_lt (S.granted one hm).2
      · obtain ⟨one, hm, rfl⟩ := List.mem_map.mp ha
        rw [List.mem_singleton.mp hb]
        intro heq
        have := (S.named one hm).2
        rw [heq] at this
        exact absurd this (Nat.not_succ_le_self _)

theorem Since.take_back {one : StopId × RequestId × MonitorKind}
    (hids : ∀ sp ∈ w₀.session.stop_points.rows, sp.id.seq ≤ w₀.session.stop_seq)
    (hreqs : ∀ q ∈ w₀.jvm.requests, q.id < w₀.jvm.next_request) (ha : ClearsAccepted w₀.answers)
    (S : Since w₀ (one :: armed) w) :
    Since w₀ armed ((do
      let _ ← clear_request (.monitor one.2.2) one.2.1
      edit fun s => { s with stop_points := s.stop_points.erase one.1 } :
        Handler Unit).run w).2 := by
  obtain ⟨qs, hqs, hmap⟩ := S.requests
  obtain ⟨sps, hsps, hmap'⟩ := S.rows
  obtain ⟨q, qs, rfl⟩ : ∃ q rest, qs = q :: rest := by
    cases qs with
    | nil => cases hmap
    | cons q rest => exact ⟨q, rest, rfl⟩
  obtain ⟨sp, sps, rfl⟩ : ∃ sp rest, sps = sp :: rest := by
    cases sps with
    | nil => cases hmap'
    | cons sp rest => exact ⟨sp, rest, rfl⟩
  simp only [List.map_cons, List.cons.injEq] at hmap hmap'
  have hgranted := S.granted one List.mem_cons_self
  have hnamed := S.named one List.mem_cons_self
  obtain ⟨hd, hd'⟩ := S.distinct
  simp only [List.map_cons, List.nodup_cons] at hd hd'
  have hr : w.refuses (.clear (.monitor one.2.2) one.2.1) = none := by
    rw [World.refuses, S.answers]
    exact ha.1 _ _ _
  have hq : q.handle = (.monitor one.2.2, one.2.1) := hmap.1
  have hl : (EventCode.monitor one.2.2, one.2.1) ∈ live w.jvm := by
    rw [← hq]
    refine List.mem_map_of_mem ?_
    rw [hqs]
    exact List.mem_append_right _ List.mem_cons_self
  have hafter : (w.jvm.requests.filter fun r => r.handle ≠ (.monitor one.2.2, one.2.1)) =
      w₀.jvm.requests ++ qs := by
    rw [hqs, List.filter_append, List.filter_cons_of_neg (by simp [hq])]
    congr 1
    · refine List.filter_eq_self.mpr fun r hr => decide_eq_true fun heq => ?_
      have hid : r.id = one.2.1 := congrArg Prod.snd heq
      exact absurd (hid ▸ hreqs r hr) (Nat.not_lt_of_le hgranted.1)
    · refine List.filter_eq_self.mpr fun r hr => decide_eq_true fun heq => hd.1 ?_
      have hm := List.mem_map_of_mem (f := EventRequest.handle) hr
      rw [hmap.2] at hm
      obtain ⟨x, hx, hxr⟩ := List.mem_map.mp hm
      have hid : x.2.1 = one.2.1 := congrArg Prod.snd (hxr.trans heq)
      exact hid ▸ List.mem_map_of_mem (f := fun one => one.2.1) hx
  have hrows : (w.session.stop_points.rows.filter fun v => v.id ≠ one.1) =
      w₀.session.stop_points.rows ++ sps := by
    rw [hsps, List.filter_append, List.filter_cons_of_neg (by simp [hmap'.1])]
    congr 1
    · refine List.filter_eq_self.mpr fun v hv => decide_eq_true fun heq => ?_
      have hle := hids v hv
      rw [heq] at hle
      exact absurd hnamed.1 (Nat.not_lt_of_le hle)
    · refine List.filter_eq_self.mpr fun v hv => decide_eq_true fun heq => hd'.1 ?_
      have hm := List.mem_map_of_mem (f := StopPoint.id) hv
      rwa [hmap'.2, heq] at hm
  simp only [run_bind, clear_request, perform_run, hr, edit_run, clear_request_live hl]
  refine ⟨⟨qs, hafter, hmap.2⟩, ⟨sps, hrows, hmap'.2⟩, S.deferrals, S.families, S.answers,
    fun x hx => S.granted x (List.mem_cons_of_mem one hx),
    fun x hx => S.named x (List.mem_cons_of_mem one hx), S.later, hd.2, hd'.2⟩

theorem monitors_refused (all_kinds : List MonitorKind) (arm : MonitorArm) (o : StopOptions)
    (hids : ∀ sp ∈ w₀.session.stop_points.rows, sp.id.seq ≤ w₀.session.stop_seq)
    (hreqs : ∀ q ∈ w₀.jvm.requests, q.id < w₀.jvm.next_request) (ha : ClearsAccepted w₀.answers)
    {kinds : List MonitorKind} (S : Since w₀ armed w) (L : Ledger False [] nothing w) {e : Failure}
    (h : ((arm_monitor_kinds all_kinds arm o armed kinds).run w).1 = .error e) :
    armament ((arm_monitor_kinds all_kinds arm o armed kinds).run w).2 = armament w₀ := by
  induction kinds generalizing armed w with
  | nil => cases h
  | cons kind rest ih =>
    have L1 : Ledger False [] nothing ((arm_one_monitor all_kinds arm o kind).run w).2 :=
      arm_request_run_ledger _ _ _ rfl (by rintro (h | h) <;> cases h) (by intro h; cases h) w L
    have hadd := S.add L all_kinds arm o kind
    unfold arm_monitor_kinds at h ⊢
    rw [run_bind] at h ⊢
    revert h L1 hadd
    generalize (arm_one_monitor all_kinds arm o kind).run w = res
    obtain ⟨r, w1⟩ := res
    intro L1 hadd h
    rcases hadd with ⟨⟨e', rfl⟩, S1⟩ | ⟨id, req, rfl, S1⟩
    · have hloop := Ensures.forM (I := fun l => Since w₀ l)
        (fun one rest w S => Since.take_back hids hreqs ha S) _ _ S1
      exact Since.none_left hloop
    · exact ih S1 L1 h

end Monitors

section Targets

/-- The worlds in which an arming may start: those between operations of any run, and those
between the targets of one call. -/
inductive Arising : World → Prop
  | start (threads : List ThreadId) (a : Answers) : Arising (World.start threads a)
  | move {w : World} (m : Move) : Arising w → m.Allowed w → Arising (m.next w)
  | call {w : World} (a : Answers) : Arising w → Arising (w.begin a)
  | target {w : World} (t : Target) : Arising w → Arising (t.arm.run w).2
  | pattern {w : World} (spec : BreakpointSpec) (index : List (String × ClassId)) (cap : ℕ) :
      Arising w → Arising ((arm_one_pattern spec index cap).run w).2

variable {w : World}

theorem target_ledger (t : Target) (L : Ledger False [] nothing w) :
    Ledger False [] nothing (t.arm.run w).2 := by
  cases t with
  | line spec => exact Preserves.map (fun w L => arm_exact_ledger spec L False.elim) w L
  | member spec fqn type_id =>
    refine Preserves.map (fun w L => ?_) w L
    unfold arm_member
    obtain ⟨Lf, hu⟩ := fresh_id_ledger "bp_" L
    simp only [run_bind, run_get]
    revert Lf hu
    generalize (fresh_id "bp_").run w = res
    obtain ⟨bp_id, w1⟩ := res
    intro Lf hu
    have hins := arm_and_insert_ledger [type_id] { spec with
      class_pattern := fqn
      signature := w.answers.signature_for_dotted fqn } .covered_by_family hu w1 ⟨Lf, rfl⟩
    revert hins
    dsimp only
    generalize (arm_and_insert [type_id] _ bp_id .covered_by_family).run w1 = out
    obtain ⟨out, w2⟩ := out
    intro hins
    cases out with
    | error e => exact hins.1
    | ok id => exact hins.2.1
  | named_field class_name field_name kinds o =>
    have hnamed : Preserves (Ledger False [] nothing)
        (arm_field_on_named_class class_name field_name kinds o) := by
      refine Preserves.bind (fun w L => L.log _) fun r => ?_
      split
      · exact Preserves.pure _
      · exact Preserves.pure _
      · exact arm_field_ledger _ _ _ _
    exact hnamed w L
  | matched_field fqn type_id field_name kinds o =>
    exact arm_field_ledger _ _ _ _ w L
  | monitor kinds arm o =>
    exact arm_monitor_kinds_ledger kinds arm o [] kinds w ⟨L, by simp, List.nodup_nil⟩

theorem arising_ledger (h : Arising w) : Ledger False [] nothing w := by
  induction h with
  | start threads a => exact start_ledger threads a False.elim
  | move m _ hallowed ih => exact move_ledger m hallowed ih False.elim
  | call a _ ih => exact begin_ledger a ih False.elim
  | target t _ ih => exact target_ledger t ih
  | pattern spec index cap _ ih => exact arm_one_pattern_ledger spec index cap ih False.elim

/-- The name of a batch whose turn it is starts from such a world. -/
theorem line_turn (line : Option ℤ) (method : Option String) (o : StopOptions)
    (index : List (String × ClassId)) (cap : ℕ) (before : List String) (hw : Arising w) :
    Arising ((before.forM fun p => do
      let signature := (← get).answers.signature_for_dotted p
      arm_one_pattern ⟨p, signature, line, method, o,
        suspend_policy_for_line o.trace o.condition.isSome⟩ index cap : Handler Unit).run w).2 := by
  induction before generalizing w with
  | nil => exact hw
  | cons p rest ih => exact ih (.pattern (line_spec w.answers line method o p) index cap hw)

variable (spec : BreakpointSpec)

theorem exact_turn (index : List (String × ClassId)) (cap : ℕ)
    (h : w.answers.is_wildcard spec.class_pattern = false) :
    ((arm_one_pattern spec index cap).run w).2 = ((Target.line spec).arm.run w).2 := by
  unfold arm_one_pattern
  rw [run_bind, run_get, h]
  rfl

/-- A family goes on after one class was tried. -/
def members_after (cap : ℕ) (got : Armed) (rest : List (String × ClassId)) :
    Except ArmError StopId → Handler Armed
  | .ok id => arm_members spec cap { got with members := got.members ++ [id] } rest
  | .error .no_such_method =>
    arm_members spec cap { got with no_method := got.no_method + 1 } rest
  | .error (.other _) => arm_members spec cap got rest

theorem member_turn (cap : ℕ) (got : Armed) (c : String × ClassId) (rest : List (String × ClassId))
    (h : got.members.length < cap) :
    arm_members spec cap got (c :: rest) =
      arm_member spec c.1 c.2 >>= members_after spec cap got rest := by
  rw [arm_members, if_neg (Nat.not_le_of_lt h)]
  funext w
  rfl

def fields_after (field_name : String) (kinds : List WatchKind) (o : StopOptions) (cap armed : ℕ)
    (rest : List (String × ClassId)) (r : Except Failure Unit) : Handler Unit :=
  arm_targets (arm_field_on_one_class field_name kinds o) cap
    (if r.isOk then armed + 1 else armed) rest

theorem field_turn (field_name : String) (kinds : List WatchKind) (o : StopOptions) (cap armed : ℕ)
    (t : String × ClassId) (rest : List (String × ClassId)) (h : armed < cap) :
    arm_targets (arm_field_on_one_class field_name kinds o) cap armed (t :: rest) =
      (Target.matched_field t.1 t.2 field_name kinds o).arm >>=
        fields_after field_name kinds o cap armed rest := by
  rw [arm_targets, if_neg (Nat.not_le_of_lt h)]
  refine bind_congr fun r => ?_
  cases r <;> rfl

/-- A refused target leaves nothing armed exactly when its refusal came before the first grant
that is not taken back. -/
theorem refused_target_leaves_nothing {w : World} (hw : Arising w) (ha : ClearsAccepted w.answers)
    (t : Target) {e : Failure} (h : (t.arm.run w).1 = .error e) :
    armament (t.arm.run w).2 = armament w ↔ RefusedEarly w t := by
  have L := arising_ledger hw
  cases t with
  | line spec =>
    have hmap : forget_ids ((arm_exact spec).run w).1 = .error e := h
    obtain ⟨e', he⟩ : ∃ e', ((arm_exact spec).run w).1 = .error e' := by
      cases hr : ((arm_exact spec).run w).1 with
      | error e' => exact ⟨e', rfl⟩
      | ok id => rw [hr] at hmap; cases hmap
    exact arm_exact_refused he
  | member spec fqn type_id =>
    refine iff_of_true ?_ trivial
    have hmap : forget_ids (((arm_member spec fqn type_id).run w).1.mapError
      ArmError.into_failure) = .error e := h
    change armament ((arm_member spec fqn type_id).run w).2 = armament w
    obtain ⟨e', he⟩ : ∃ e', ((arm_member spec fqn type_id).run w).1 = .error e' := by
      cases hr : ((arm_member spec fqn type_id).run w).1 with
      | error e' => exact ⟨e', rfl⟩
      | ok id => rw [hr] at hmap; cases hmap
    exact (arm_and_insert_untouched [type_id] _ _ .covered_by_family _ e' he).armament
  | named_field class_name field_name kinds o =>
    change ((arm_field_on_named_class class_name field_name kinds o).run w).1 = _ at h
    change armament ((arm_field_on_named_class class_name field_name kinds o).run w).2 = _ ↔ _
    unfold arm_field_on_named_class at h ⊢
    simp only [run_bind, lookup_run] at h ⊢
    cases hf : w.answers.resolve_class_by_dotted w.sent.length class_name with
    | error e' =>
      simp only [hf, RefusedEarly]
      exact iff_of_true rfl trivial
    | ok found =>
      cases found with
      | none =>
        simp only [hf, RefusedEarly]
        exact iff_of_true rfl trivial
      | some type_id =>
        simp only [hf, RefusedEarly] at h ⊢
        have hlog : armament (w.log .lookup) = armament w := rfl
        rw [← hlog]
        exact field_refused h
  | matched_field fqn type_id field_name kinds o => exact field_refused h
  | monitor kinds arm o =>
    refine iff_of_true (monitors_refused kinds arm o L.named.stops (fun q hq => ?_) ha
      (Since.refl w) L h) trivial
    exact L.custody.live_granted q.handle (List.mem_map_of_mem hq)

/-- The second of two monitor kinds is refused. -/
def acquired_refused : Answers :=
  { plain with refused := fun c _ => match c with
      | .set (.monitor .acquired _) _ _ => some .io
      | _ => none }

theorem clears_acquired_refused : ClearsAccepted acquired_refused :=
  ⟨fun _ _ _ => rfl, fun _ => rfl⟩

theorem refused_monitor_leaves_nothing :
    armament ((Target.monitor [.blocked, .acquired] ⟨none, none, none⟩ (plain_options none)).arm.run
      ((World.start [1] plain).begin acquired_refused)).2 =
        armament ((World.start [1] plain).begin acquired_refused) :=
  (refused_target_leaves_nothing (.call acquired_refused (.start [1] plain))
    clears_acquired_refused _ rfl).mpr trivial

/-- The class is loaded and has no line 99. -/
def no_such_line : Answers :=
  { plain with resolve_bp_location := fun _ _ _ _ => .error (.no_such_line 99) }

/-- A call that names a line the class does not have leaves its class-load watch in the
debuggee. -/
theorem refused_line_leaves_watch :
    ¬ ∀ (w : World), Arising w → ClearsAccepted w.answers → ∀ (t : Target) (e : Failure),
      (t.arm.run w).1 = .error e → armament (t.arm.run w).2 = armament w := by
  intro h
  have heq := h _ (.call no_such_line (.start [1] plain)) ⟨fun _ _ _ => rfl, fun _ => rfl⟩
    (.line ⟨"A", "A", some 99, none, plain_options none, .all⟩) _ rfl
  revert heq
  decide

end Targets

end JavaDebug.RefusedArming
