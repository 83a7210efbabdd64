import JavaDebug.ArmingRules
import JavaDebug.ArmingWalks

/-!
Which runs keep every record within the rules of the arming tools. One lemma
for each way in which a record is made or changed: an arming call, a deferral,
a family, a class load and a toggle keep the rules because of what was checked
before; an update that sets a hit count is the one exception.
-/
namespace JavaDebug.LawfulRecords

open Jdwp StopPoints Wire
open Arming Rearming Renewing StateProgram Runs
open Addressing HiddenCalls RecordTerms ArmingRules
open ArmingWalks

variable {read_only : Bool} {w w' : World}

section Checked

theorem readonly_quiet {condition : Option String} {trace_expr : List String}
    (h : readonly_check read_only condition trace_expr = .ok ()) (hro : read_only = true) :
    Quiet condition trace_expr := by
  rw [hro] at h
  intro e he
  refine readonly_passed _ _ h e.toList ?_
  have hm := List.mem_map_of_mem (f := String.toList) he
  cases condition with
  | none => simpa using hm
  | some c => simpa using hm

theorem quiet_resolved {condition : Option String} {asked session_default : List String}
    (h : Quiet condition asked) (hdefault : Quiet none session_default) :
    Quiet condition (resolve_trace_exprs asked session_default) := by
  intro e he
  unfold resolve_trace_exprs at he
  split at he
  · rcases List.mem_append.mp he with hc | hd
    · exact h e (List.mem_append_left _ hc)
    · exact hdefault e hd
  · rcases List.mem_append.mp he with hc | ha
    · exact h e (List.mem_append_left _ hc)
    · exact h e (List.mem_append_right _ (List.mem_of_mem_take ha))

/-- Options that a read-only session may arm. -/
def QuietOptions (read_only : Bool) (o : StopOptions) : Prop :=
  read_only = true → Quiet o.condition o.trace_expr

/-- A stop point of these options, armed there, is within the rules. -/
def Grantable (read_only : Bool) (o : StopOptions) (on : ArmedOn) : Prop :=
  ∀ id ids, Law read_only (terms (o.stop_point id ids on))

theorem grantable_plain {o : StopOptions} (h : QuietOptions read_only o) {on : ArmedOn}
    (hon : on.kind ≠ .method_exit ∧ on.kind ≠ .monitor) : Grantable read_only o on := by
  intro id ids
  refine ⟨fun _ => ?_, fun hk => absurd hk hon.2, h⟩
  cases on with
  | method_exit me => exact absurd rfl hon.1
  | monitor mon => exact absurd rfl hon.2
  | _ => exact ⟨rfl, rfl⟩

end Checked

section Frames

theorem lawful_of_roster (h : Lawful read_only w) (hr : roster w' = roster w) :
    Lawful read_only w' := by
  refine ⟨fun sp' hsp' => ?_, fun hro p hp => ?_, fun hro set' hset' => ?_⟩
  · obtain ⟨sp, hsp, -, hterms⟩ := member_of_roster hr hsp'
    rw [← hterms]
    exact h.stop_points sp hsp
  · have hpending : w'.session.pending_breakpoints = w.session.pending_breakpoints :=
      congrArg Roster.pending hr
    rw [hpending] at hp
    exact h.deferrals hro p hp
  · obtain ⟨set, hset, hterms⟩ := family_of_roster hr hset'
    have hcondition : (family_terms set).condition = (family_terms set').condition := by rw [hterms]
    have htrace : (family_terms set).trace_expr = (family_terms set').trace_expr := by rw [hterms]
    change Quiet (family_terms set').condition (family_terms set').trace_expr
    rw [← hcondition, ← htrace]
    exact h.families hro set hset

theorem lawful_keeps {α : Type} {m : Handler α} (h : Keeps roster m) :
    Preserves (Lawful read_only) m := fun w hw => lawful_of_roster hw (h w)

theorem lawful_talks {α : Type} {m : Handler α} (h : Talks m) : Preserves (Lawful read_only) m :=
  lawful_keeps (talks_roster h)

theorem lawful_records (w : World) : Lawful read_only w ↔
    Records (fun sp => Law read_only (terms sp)) (QuietOptions read_only) w :=
  ⟨fun h => ⟨h.stop_points, fun p hp hro => h.deferrals hro p hp,
    fun set hset hro => h.families hro set hset⟩,
   fun h => ⟨h.stop_points, fun hro p hp => h.pending p hp hro,
    fun hro set hset => h.families set hset hro⟩⟩

theorem lawful_survives : Survives (fun sp => Law read_only (terms sp)) (QuietOptions read_only)
    (Lawful read_only) := by
  refine (records_survive fun ho _ => ?_).of_iff lawful_records
  exact grantable_plain ho ⟨by simp [ArmedOn.kind], by simp [ArmedOn.kind]⟩

end Frames

section Arming

theorem grantable_exit {o : StopOptions} {me : MethodExitRequest}
    (hcounted : refuse_counted_method_filter o.hit_count me.method = .ok ())
    (h : QuietOptions read_only o) : Grantable read_only o (.method_exit me) := by
  refine fun id ids => ⟨fun hsome => ⟨?_, rfl⟩, fun hk => (by cases hk), h⟩
  change o.hit_count.isSome at hsome
  change me.method = none
  cases hcount : o.hit_count with
  | none => simp [hcount] at hsome
  | some n =>
    cases hmethod : me.method with
    | none => rfl
    | some m => simp [hcount, hmethod, refuse_counted_method_filter] at hcounted

theorem grantable_monitor {o : StopOptions} {mon : MonitorStop}
    (hcounted : refuse_counted_min_duration o.hit_count mon.min_duration_ms = .ok ())
    (h : read_only = true → Quiet none o.trace_expr) :
    Grantable read_only (monitor_options o) (.monitor mon) := by
  refine fun id ids => ⟨fun hsome => ⟨rfl, ?_⟩, fun _ => rfl, h⟩
  change o.hit_count.isSome at hsome
  change mon.min_duration_ms = none
  cases hcount : o.hit_count with
  | none => simp [hcount] at hsome
  | some n =>
    cases hmin : mon.min_duration_ms with
    | none => rfl
    | some min => simp [hcount, hmin, refuse_counted_min_duration] at hcounted

/-- What the checks admit, the arming tools may make. -/
theorem lawful_arming (s : Attached) (t : Target) (o : StopOptions)
    (h : check_arming s o t = .ok ()) : Preserves (Lawful s.read_only)
      (t.call { o with trace_expr := resolve_trace_exprs o.trace_expr s.trace_exprs }).run := by
  have hdefault : s.read_only = true → Quiet none s.trace_exprs := readonly_quiet s.passed
  have hasked : readonly_check s.read_only o.condition o.trace_expr = .ok () →
      QuietOptions s.read_only
        { o with trace_expr := resolve_trace_exprs o.trace_expr s.trace_exprs } :=
    fun hok hro => quiet_resolved (readonly_quiet hok hro) (hdefault hro)
  cases t with
  | line patterns line method index cap =>
    exact lawful_survives.set_line_stop _ _ _ _ _ (readonly_quiet h)
  | exception targets caught uncaught cap =>
    exact Preserves.bind (lawful_survives.set_exception_stop _ _ _ _ fun _ => grantable_plain
      (hasked h) ⟨by simp [ArmedOn.kind], by simp [ArmedOn.kind]⟩) fun _ => Preserves.pure _
  | field targets field_name kinds cap =>
    exact lawful_survives.set_field_stop _ _ _ _ fun _ => grantable_plain (hasked h)
      ⟨by simp [ArmedOn.kind], by simp [ArmedOn.kind]⟩
  | method_exit patterns method ret exclude =>
    change (refuse_counted_method_filter o.hit_count method >>= fun _ =>
      readonly_check s.read_only o.condition o.trace_expr) = .ok () at h
    cases hcounted : refuse_counted_method_filter o.hit_count method with
    | error e =>
      rw [hcounted] at h
      cases h
    | ok _ =>
      rw [hcounted] at h
      exact lawful_survives.set_method_exit_stop _ _ _ fun _ => grantable_exit hcounted (hasked h)
  | monitor kinds arm =>
    change (refuse_counted_min_duration o.hit_count arm.min_duration_ms >>= fun _ =>
      refuse_invoking_expr_on_the_unowned_kind (o.trace_expr.map String.toList) kinds >>= fun _ =>
        readonly_check s.read_only none o.trace_expr) = .ok () at h
    cases hcounted : refuse_counted_min_duration o.hit_count arm.min_duration_ms with
    | error e =>
      rw [hcounted] at h
      cases h
    | ok _ =>
      rw [hcounted] at h
      have hquiet : readonly_check s.read_only none o.trace_expr = .ok () := by
        cases hunowned : refuse_invoking_expr_on_the_unowned_kind
            (o.trace_expr.map String.toList) kinds with
        | error e =>
          rw [hunowned] at h
          cases h
        | ok _ =>
          rw [hunowned] at h
          exact h
      refine Preserves.bind (Preserves.get_bind fun w _ => ?_) fun _ => Preserves.pure _
      split
      · exact lawful_survives.monitor_kinds _
          (o := { o with trace_expr := resolve_trace_exprs o.trace_expr s.trace_exprs })
          (fun _ _ => grantable_monitor hcounted
            fun hro => quiet_resolved (readonly_quiet hquiet hro) (hdefault hro)) _ _
      · exact Preserves.pure _

/-- A class load arms what was asked for before, and no more. -/
theorem lawful_class_load (es : EventSet) :
    Preserves (Lawful read_only) (try_arm_deferred_breakpoints es) := by
  intro w hw
  unfold try_arm_deferred_breakpoints
  split
  · exact hw
  rename_i cp_thread cp_ref cp_sig _
  have hpending : ∀ p ∈ w.session.pending_breakpoints.filter fun p => decide (p.signature = cp_sig),
      QuietOptions read_only (PendingBreakpoint.options p) :=
    fun p hp hro => hw.deferrals hro p (List.mem_filter.mp hp).1
  have hend := lawful_survives.class_prepared hpending
    (lawful_keeps (later_copies_roster cp_ref cp_sig)) w hw
  simp only [run_bind, run_get] at hend ⊢
  exact lawful_talks (perform_talks _ _) _ hend

end Arming

section Updates

variable {condition : FieldEdit String} {hit_count : FieldEdit ℕ}

variable {s : Attached}

theorem put_quiet (h : check_condition_edit s condition = .ok ()) (hro : s.read_only = true)
    {old : Option String} {trace_expr : List String} (hold : Quiet old trace_expr) :
    Quiet (condition.put old) trace_expr := by
  have htrace : ∀ e ∈ trace_expr, expr_invokes e.toList = false :=
    fun e he => hold e (List.mem_append_right _ he)
  cases condition with
  | leave => exact hold
  | clear => exact fun e he => htrace e (by simpa [FieldEdit.put] using he)
  | set new =>
    intro e he
    rcases List.mem_append.mp he with hc | ht
    · exact readonly_quiet h hro e (List.mem_append_left _ hc)
    · exact htrace e ht

theorem law_edited (h : check_condition_edit s condition = .ok ()) {sp : StopPoint}
    (hlaw : Law s.read_only (terms sp)) (hspared : ∀ n, hit_count = .set n → ¬ Filtered sp) :
    Law s.read_only (terms (edit_conditions condition hit_count sp)) := by
  refine ⟨fun hsome => ?_, fun hk => ?_, fun hro => ?_⟩
  · change (hit_count.put sp.hit_count).isSome at hsome
    change (terms sp).method = none ∧ (terms sp).min_duration_ms = none
    cases hit_count with
    | leave => exact hlaw.counted hsome
    | clear => cases hsome
    | set n =>
      have hnot := hspared n rfl
      unfold Filtered at hnot
      push Not at hnot
      exact hnot
  · change sp.kind = .monitor at hk
    change (if sp.kind.takes_condition then condition.put sp.condition else sp.condition) = none
    rw [hk]
    exact hlaw.monitor hk
  · change Quiet (if sp.kind.takes_condition then condition.put sp.condition else sp.condition)
      sp.trace_expr
    split
    · exact put_quiet h hro (hlaw.quiet hro)
    · exact hlaw.quiet hro

/-- Rewriting records keeps the rules where no hit count is set on a filtered stop point. -/
theorem lawful_edits (h : check_condition_edit s condition = .ok ()) (ids : List StopId)
    (hw : Lawful s.read_only w) (hspared : ∀ n, hit_count = .set n → ∀ m ∈ ids, ∀ sp,
      w.session.stop_points.get? m = some sp → ¬ Filtered sp) :
    Lawful s.read_only ((edit (apply_edits condition hit_count ids)).run w).2 := by
  refine ⟨fun sp' hsp' => ?_, fun hro p' hp' => ?_, fun hro set' hset' => ?_⟩
  · have hget := (Table.get?_eq_some _ _ _).mpr ⟨hsp', rfl⟩
    change (apply_edits condition hit_count ids w.session).stop_points.get? sp'.id = _ at hget
    rw [apply_edits_get] at hget
    obtain ⟨sp, hsp, heq⟩ := Option.map_eq_some_iff.mp hget
    have hlaw := hw.stop_points sp ((Table.get?_eq_some _ _ _).mp hsp).1
    split at heq
    · rename_i hmem
      rw [← heq]
      exact law_edited h hlaw fun n hn => hspared n hn sp'.id hmem sp hsp
    · rw [← heq]
      exact hlaw
  · obtain ⟨p, hp, rfl | rfl⟩ := apply_edits_deferral condition hit_count ids hp'
    · exact hw.deferrals hro p' hp
    · exact put_quiet h hro (hw.deferrals hro p hp)
  · obtain ⟨set, hset, rfl | rfl⟩ := apply_edits_family condition hit_count ids hset'
    · exact hw.families hro set' hset
    · exact put_quiet h hro (hw.families hro set hset)

theorem update_roster (s : Attached) (w : World) (id : StopId) (a : Answers) :
    roster ((Step.demand (.update_stop_point id condition hit_count) a).next s w) =
      roster ((edit (apply_edits condition hit_count
        (rewritten s w id condition hit_count))).run w).2 := by
  unfold rewritten
  cases hcheck : check_condition_edit s condition with
  | error e =>
    have hrefused : (Demand.update_stop_point id condition hit_count).call s = .error e := by
      simp only [Demand.call, hcheck]
      rfl
    simp only [Step.next, hrefused]
    rfl
  | ok _ =>
    have hcall : (Demand.update_stop_point id condition hit_count).call s =
        .ok (.update_stop_point id condition hit_count) := by
      simp only [Demand.call, hcheck]
      rfl
    simp only [Step.next, hcall]
    change roster ((handle_update_stop_point id condition hit_count).run (w.begin a)).2 = _
    unfold handle_update_stop_point
    rw [run_ite]
    by_cases hasked : (!condition.asked && !hit_count.asked) = true
    · have hnone : (condition.asked || hit_count.asked) = false := by
        revert hasked
        cases condition.asked <;> cases hit_count.asked <;> simp
      rw [if_pos hasked, hnone]
      rfl
    · have hsome : (condition.asked || hit_count.asked) = true := by
        revert hasked
        cases condition.asked <;> cases hit_count.asked <;> simp
      rw [if_neg hasked, hsome]
      simp only [run_bind, run_get, World.begin]
      cases hbefore : read_editable_stop_point w.session id with
      | error e => rfl
      | ok before =>
        simp only [run_ite]
        by_cases hspent : before.spent = true
        · simp only [hspent, if_true, Bool.true_or]
          rfl
        · by_cases hunsupported : (condition.asked && !before.supports_condition) = true
          · simp only [hspent, hunsupported, if_true, Bool.or_true]
            rfl
          · simp only [hspent, hunsupported, Bool.false_eq_true, if_false, Bool.or_self,
              Except.isOk, Except.toBool, Bool.true_and, if_true, run_bind, edit_run]
            split
            · exact push_roster _ _
            · rfl

end Updates

section Runs

theorem lawful_begin (a : Answers) (hw : Lawful read_only w) : Lawful read_only (w.begin a) :=
  ⟨hw.stop_points, hw.deferrals, hw.families⟩

/-- A hit count on a filtered stop point is against the rules. -/
theorem spares_of_lawful {s : Attached} {step : ArmingRules.Step}
    (h : Lawful s.read_only (step.next s w)) : step.Spares s w := by
  rintro id condition n a rfl m hm sp hsp hfiltered
  have hroster : roster ((Step.demand (.update_stop_point id condition (.set n)) a).next s w) =
      roster ((edit (apply_edits condition (.set n)
        (rewritten s w id condition (.set n)))).run w).2 := update_roster s w id a
  have hterms := terms_of_roster hroster m
  change _ = ((apply_edits condition (.set n) (rewritten s w id condition (.set n))
    w.session).stop_points.get? m).map terms at hterms
  rw [apply_edits_get, hsp, Option.map_some, if_pos hm, Option.map_some] at hterms
  obtain ⟨sp', hsp', heq⟩ := Option.map_eq_some_iff.mp hterms
  have hlaw := h.stop_points sp' ((Table.get?_eq_some _ _ _).mp hsp').1
  rw [heq] at hlaw
  obtain ⟨hmethod, hmin⟩ := hlaw.counted rfl
  exact hfiltered.elim (fun hne => hne hmethod) fun hne => hne hmin

/-- A step keeps the rules exactly when it sets no hit count on a filtered stop point. -/
theorem lawful_step {s : Attached} (step : ArmingRules.Step) (hw : Lawful s.read_only w) :
    Lawful s.read_only (step.next s w) ↔ step.Spares s w := by
  refine ⟨spares_of_lawful, fun hspared => ?_⟩
  cases step with
  | class_load es a => exact lawful_class_load es _ (lawful_begin a hw)
  | demand d a =>
    cases d with
    | arm t o =>
      cases hcheck : check_arming s o t with
      | error e =>
        have hrefused : (Demand.arm t o).call s = .error e := by
          simp only [Demand.call, hcheck]
          rfl
        simpa only [Step.next, hrefused] using hw
      | ok _ =>
        have hcall : (Demand.arm t o).call s = .ok (t.call
            { o with trace_expr := resolve_trace_exprs o.trace_expr s.trace_exprs }) := by
          simp only [Demand.call, hcheck]
          rfl
        simp only [Step.next, hcall]
        exact lawful_arming s t o hcheck _ (lawful_begin a hw)
    | toggle_stop_point id enabled =>
      exact Preserves.bind (lawful_keeps (toggle_roster id enabled)) (fun _ => Preserves.pure _)
        _ (lawful_begin a hw)
    | update_stop_point id condition hit_count =>
      refine lawful_of_roster ?_ (update_roster s w id a)
      cases hcheck : check_condition_edit s condition with
      | ok _ =>
        refine lawful_edits hcheck _ hw fun n hn m hm sp hsp => ?_
        subst hn
        exact hspared id condition n a rfl m hm sp hsp
      | error e =>
        have hnone : rewritten s w id condition hit_count = [] := by
          simp only [rewritten, hcheck]
          rfl
        rw [hnone]
        exact hw

theorem lawful_start (threads : List ThreadId) (a : Answers) :
    Lawful read_only (World.start threads a) :=
  ⟨fun _ h => (by cases h), fun _ _ h => (by cases h), fun _ _ h => (by cases h)⟩

/-- Every state of a run is within the rules of the arming tools exactly when no update of the run
sets a hit count on a stop point that filters its hits. -/
theorem run_lawful_iff (s : Attached) (threads : List ThreadId) (a : Answers)
    (steps : List ArmingRules.Step) :
    (∀ n, Lawful s.read_only (run s (World.start threads a) (steps.take n))) ↔
      ∀ (n : ℕ) (step : ArmingRules.Step), steps[n]? = some step →
        step.Spares s (run s (World.start threads a) (steps.take n)) := by
  have hnext : ∀ (n : ℕ) (step : ArmingRules.Step), steps[n]? = some step →
      run s (World.start threads a) (steps.take (n + 1)) =
        step.next s (run s (World.start threads a) (steps.take n)) := by
    intro n step hstep
    rw [List.take_add_one, hstep, run, List.foldl_append]
    rfl
  constructor
  · intro h n step hstep
    have hlaw := h (n + 1)
    rw [hnext n step hstep] at hlaw
    exact spares_of_lawful hlaw
  · intro h n
    induction n with
    | zero => exact lawful_start threads a
    | succ n ih =>
      cases hstep : steps[n]? with
      | none =>
        rw [List.take_add_one, hstep]
        simpa using ih
      | some step =>
        rw [hnext n step hstep]
        exact (lawful_step step ih).mpr (h n step hstep)

/-- The exits of `save` are counted after all. -/
def counted_exits : List ArmingRules.Step :=
  [.demand (.arm (.method_exit ["A"] (some "save") true []) (plain_options none)) plain,
    .demand (.update_stop_point ⟨"mexit_", 1⟩ .leave (.set 3)) plain]

/-- The tool that arms method exits refuses a hit count with a method; an update sets it. -/
theorem update_counts_filtered :
    ¬ ∀ (s : Attached) (threads : List ThreadId) (a : Answers) (steps : List ArmingRules.Step),
      Lawful s.read_only (run s (World.start threads a) steps) := by
  intro h
  have hlaw := h ⟨false, [], rfl⟩ [1] plain counted_exits
  have hcount : ((run ⟨false, [], rfl⟩ (World.start [1] plain)
      counted_exits).session.stop_points.get? ⟨"mexit_", 1⟩).map
        (fun sp => ((terms sp).hit_count, (terms sp).method)) = some (some 3, some "save") := by
    decide
  obtain ⟨sp, hsp, heq⟩ := Option.map_eq_some_iff.mp hcount
  obtain ⟨hhit, hmethod⟩ := Prod.mk.inj heq
  have hcounted := (hlaw.stop_points sp ((Table.get?_eq_some _ _ _).mp hsp).1).counted
  rw [hhit, hmethod] at hcounted
  exact absurd (hcounted rfl).1 (by simp)

end Runs

end JavaDebug.LawfulRecords
