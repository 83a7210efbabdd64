import JavaDebug.Runs

/-!
What arming preserves, whatever is armed. A property of the world survives
arming when it survives requests, reads and edits of the records that enter only
stop points and options of a given kind. One walk through the arming tools and
through a class load then serves every such property.
-/
namespace JavaDebug.ArmingWalks

open Jdwp StopPoints Wire Disarming
open Arming Rearming StateProgram

variable {P : World → Prop} {R : StopPoint → Prop} {O : StopOptions → Prop} {α : Type}

section Walks

theorem primary_reads (h : ∀ {β : Type} (f : Answers → ℕ → β), Preserves P (lookup f))
    (all copies : List ClassId) (spec : BreakpointSpec) :
    Preserves P (resolve_primary_copy all spec copies) := by
  induction copies with
  | nil => exact Preserves.pure _
  | cons c rest ih =>
    refine Preserves.bind (h _) fun found => ?_
    split
    · exact Preserves.pure _
    · exact ih
    · exact Preserves.pure _

theorem others_read (h : ∀ {β : Type} (f : Answers → ℕ → β), Preserves P (lookup f))
    (copies : List ClassId) (spec : BreakpointSpec) :
    Preserves P (resolve_other_classloader_copies spec copies) := by
  induction copies with
  | nil => exact Preserves.pure _
  | cons c rest ih =>
    exact Preserves.bind (h _) fun _ => Preserves.bind ih fun _ => Preserves.pure _

theorem targets_preserve {τ : Type} {arm : τ → Handler (Except Failure Unit)}
    (h : ∀ t, Preserves P (arm t)) (max_classes armed : ℕ) (targets : List τ) :
    Preserves P (arm_targets arm max_classes armed targets) := by
  induction targets generalizing armed with
  | nil => exact Preserves.pure _
  | cons t rest ih =>
    unfold arm_targets
    split
    · exact ih _
    · refine Preserves.bind (h t) fun r => ?_
      split <;> exact ih _

variable {o : StopOptions}

theorem exceptions_preserve {caught uncaught : Bool}
    (h : ∀ c name, Preserves P (arm_one_exception c name caught uncaught o))
    (targets : List (String × Option ClassId)) (max_classes : ℕ) :
    Preserves P (handle_set_exception_stop targets caught uncaught o max_classes) := by
  unfold handle_set_exception_stop
  split
  · exact Preserves.pure _
  · refine Preserves.get_bind fun w _ => ?_
    split
    · exact Preserves.bind (targets_preserve (fun t => Preserves.map (h _ _)) _ _ _)
        fun _ => Preserves.pure _
    · exact Preserves.pure _

theorem field_kinds_preserve (declaring : ClassId) (field : ℕ) (is_static : Bool)
    (class_name field_name : String)
    (h : ∀ kind, Preserves P (arm_request (.field_watch declaring field kind) o.filters o
      (watch_tag kind) (.watchpoint ⟨kind, class_name, field_name, is_static⟩)))
    (kinds : List WatchKind) :
    Preserves P (arm_field_kinds declaring field is_static class_name field_name o kinds) := by
  induction kinds with
  | nil => exact Preserves.pure _
  | cons k rest ih =>
    refine Preserves.bind ?_ fun r => ?_
    · unfold arm_one_field_watch
      split
      · exact Preserves.pure _
      · exact h k
    · split
      · exact Preserves.pure _
      · exact ih

section Fields

variable {field_name : String} (hlookup : ∀ {β : Type} (f : Answers → ℕ → β),
  Preserves P (lookup f)) (h : ∀ declaring field is_static class_name kind, Preserves P (arm_request
    (.field_watch declaring field kind) o.filters o (watch_tag kind)
    (.watchpoint ⟨kind, class_name, field_name, is_static⟩)))

include hlookup h

theorem field_on_class_preserves (kinds : List WatchKind) (target : String × ClassId) :
    Preserves P (arm_field_on_one_class field_name kinds o target) := by
  refine Preserves.bind (hlookup _) fun r => ?_
  split
  · exact field_kinds_preserve _ _ _ _ _ (h _ _ _ _) _
  · exact Preserves.pure _
  · exact Preserves.pure _

theorem fields_preserve (targets : List (String × ClassId)) (kinds : List WatchKind)
    (max_classes : ℕ) :
    Preserves P (handle_set_field_stop targets field_name kinds o max_classes) := by
  refine Preserves.get_bind fun w _ => ?_
  split
  · exact targets_preserve (field_on_class_preserves hlookup h kinds) _ _ _
  · exact Preserves.pure _

end Fields

theorem method_exits_preserve {method : Option String} {with_return_value : Bool}
    {exclude : List String}
    (h : ∀ pattern, Preserves P (arm_one_method_exit pattern method with_return_value exclude o))
    (patterns : List String) :
    Preserves P (handle_set_method_exit_stop patterns method with_return_value exclude o) := by
  refine Preserves.get_bind fun w _ => ?_
  split
  · exact Preserves.forM_mem _ fun p _ => Preserves.bind (h p) fun _ => Preserves.pure _
  · exact Preserves.pure _

/-- A refused kind takes back the kinds armed before it. -/
theorem monitor_kinds_preserve {all_kinds : List MonitorKind} {arm : MonitorArm}
    (h : ∀ kind, Preserves P (arm_one_monitor all_kinds arm o kind))
    (hclear : ∀ code id, Preserves P (clear_request code id))
    (herase : ∀ id, Preserves P (edit fun s => { s with stop_points := s.stop_points.erase id }))
    (armed : List (StopId × RequestId × MonitorKind)) (kinds : List MonitorKind) :
    Preserves P (arm_monitor_kinds all_kinds arm o armed kinds) := by
  induction kinds generalizing armed with
  | nil => exact Preserves.pure _
  | cons k rest ih =>
    refine Preserves.bind (h k) fun r => ?_
    split
    · exact ih _
    · exact Preserves.bind (Preserves.forM_mem _ fun one _ => Preserves.bind (hclear _ _)
        fun _ => herase _) fun _ => Preserves.pure _

theorem extra_preserves {p : SuspendPolicy} {f : EventFilters}
    (h : ∀ loc : ArmedLocation, Preserves P (set_breakpoint_ex (ArmedLocation.wire loc) p f))
    (locs : List ArmedLocation) : Preserves P (arm_extra_line_locations p f locs) := by
  induction locs with
  | nil => exact Preserves.pure _
  | cons loc rest ih =>
    exact Preserves.bind (h loc) fun _ => Preserves.bind ih fun _ => Preserves.pure _

theorem stop_point_preserves {id : StopId} (h : ∀ sp, Preserves P (rearm_requests sp))
    (hedit : ∀ r, Preserves P (edit fun s => s.edit_stop_point id (set_rearmed r))) :
    Preserves P (rearm_stop_point id) := by
  refine Preserves.get_bind fun w _ => ?_
  split
  · exact Preserves.pure _
  refine Preserves.bind (h _) fun r => ?_
  split
  · exact Preserves.pure _
  · exact Preserves.bind (hedit _) fun _ => Preserves.pure _

theorem edit_first_mem {id : StopId} {f : PendingBreakpoint → PendingBreakpoint}
    {l : List PendingBreakpoint} {p' : PendingBreakpoint} (h : p' ∈ edit_first id f l) :
    ∃ p ∈ l, p' = p ∨ p' = f p := by
  induction l with
  | nil => cases h
  | cons p rest ih =>
    unfold edit_first at h
    split at h
    · rcases List.mem_cons.mp h with rfl | hr
      · exact ⟨p, List.mem_cons_self, Or.inr rfl⟩
      · exact ⟨p', List.mem_cons_of_mem _ hr, Or.inl rfl⟩
    · rcases List.mem_cons.mp h with rfl | hr
      · exact ⟨p', List.mem_cons_self, Or.inl rfl⟩
      · obtain ⟨q, hq, hor⟩ := ih hr
        exact ⟨q, List.mem_cons_of_mem _ hq, hor⟩

/-- An update edits the records of an id and of the members of its family, and pushes to them. -/
theorem update_preserves {id : StopId} {condition : FieldEdit String} {hit_count : FieldEdit ℕ}
    (hedit : ∀ ids : List StopId, Preserves P (edit fun s =>
      ids.foldl (fun s m => apply_stop_point_edit s m condition hit_count) s))
    (hdisable : ∀ m, Preserves P (disable_stop_point m)) (hrearm : ∀ m, (m = id ∨ ∃ w before, P w ∧
      read_editable_stop_point w.session id = .ok before ∧ m ∈ before.family_members) →
      Preserves P (rearm_stop_point m)) :
    Preserves P (handle_update_stop_point id condition hit_count) := by
  unfold handle_update_stop_point
  split
  · exact Preserves.pure _
  refine Preserves.get_bind fun w hw => ?_
  split
  · exact Preserves.pure _
  rename_i before hread
  split
  · exact Preserves.pure _
  split
  · exact Preserves.pure _
  refine Preserves.bind (hedit _) fun _ => ?_
  split
  · refine Preserves.bind (Preserves.forM_mem _ fun t ht => Preserves.get_bind fun w' _ => ?_)
      fun _ => Preserves.pure _
    split
    · refine Preserves.bind (hdisable t) fun _ => Preserves.bind (hrearm t ?_) fun _ =>
        Preserves.pure _
      split at ht
      · exact Or.inl (List.mem_singleton.mp ht)
      · exact Or.inr ⟨w, before, hw, hread, ht⟩
    · exact Preserves.pure _
  · exact Preserves.pure _

end Walks

section Rearming

variable (hlookup : ∀ {β : Type} (f : Answers → ℕ → β), Preserves P (lookup f))

include hlookup

theorem location_preserves (bp : LineBreakpoint) : Preserves P (rearm_breakpoint_location bp) := by
  refine Preserves.get_bind fun w _ => Preserves.bind (hlookup _) fun found => ?_
  split
  · exact Preserves.pure _
  · exact Preserves.pure _
  · refine Preserves.bind (hlookup _) fun r => ?_
    split <;> exact Preserves.pure _

/-- A re-arm reads classes and fields, and sends one request with the stop point's filters; a
monitor stop leaves the instance filter out. -/
theorem rearm_ensures {Q : Except Failure ReArmed → World → Prop} {sp : StopPoint}
    (herror : ∀ e w, P w → Q (.error e) w)
    (hline : ∀ bp, sp.armed_on = .line bp → Ensures P (rearm_line_breakpoint sp bp) Q)
    (hone : ∀ k f, k.code = sp.armed_on.code → k.code ≠ .class_prepare → k.code ≠ .single_step →
      (f = sp.filters ∨ sp.kind = .monitor ∧ f = ⟨sp.hit_count, sp.thread_filter, none⟩) →
      Ensures P (rearm_request k sp f) Q) : Ensures P (rearm_requests sp) Q := by
  have hfailed : ∀ e, Ensures P (pure (.error e)) Q := fun e w hw => herror e w hw
  unfold rearm_requests
  cases hon : sp.armed_on with
  | line bp => exact hline bp hon
  | exception er =>
    have hsend : ∀ t, Ensures P
        (rearm_request (.exception t er.caught er.uncaught) sp sp.filters) Q :=
      fun t => hone _ _ (by rw [hon]; rfl) (by simp [RequestKind.code])
        (by simp [RequestKind.code]) (Or.inl rfl)
    change Ensures P (rearm_exception_request sp er) Q
    unfold rearm_exception_request
    split
    · exact hsend _
    · refine Preserves.bind_ensures (hlookup _) fun r => ?_
      split
      · exact hfailed _
      · exact hfailed _
      · exact hsend _
  | watchpoint wp =>
    refine Preserves.bind_ensures (hlookup _) fun r => ?_
    split
    · exact hfailed _
    · exact hfailed _
    · refine Preserves.bind_ensures (hlookup _) fun r => ?_
      split
      · exact hfailed _
      · exact hfailed _
      · exact hone _ _ (by rw [hon]; rfl)
          (by cases wp.kind <;> simp [RequestKind.code, WatchKind.event_kind])
          (by cases wp.kind <;> simp [RequestKind.code, WatchKind.event_kind]) (Or.inl rfl)
  | method_exit me =>
    exact hone _ _ (by rw [hon]; rfl)
      (by cases me.with_return_value <;> simp [RequestKind.code, method_exit_event_kind])
      (by cases me.with_return_value <;> simp [RequestKind.code, method_exit_event_kind])
        (Or.inl rfl)
  | monitor mon =>
    have hsend : ∀ c, Ensures P (rearm_request (.monitor mon.kind c) sp
        ⟨sp.hit_count, sp.thread_filter, none⟩) Q :=
      fun c => hone _ _ (by rw [hon]; rfl) (by simp [RequestKind.code])
        (by simp [RequestKind.code]) (Or.inr ⟨by rw [StopPoint.kind, hon]; rfl, rfl⟩)
    change Ensures P (rearm_monitor_request sp mon) Q
    unfold rearm_monitor_request
    dsimp only
    split
    · exact hsend _
    · refine Preserves.bind_ensures (hlookup _) fun r => ?_
      split
      · exact hfailed _
      · exact hsend _

theorem rearm_preserves (hset : ∀ k p f, Preserves P (set_request k p f)) (sp : StopPoint) :
    Preserves P (rearm_requests sp) := by
  refine rearm_ensures (Q := fun _ => P) hlookup (fun _ _ hw => hw) (fun bp _ => ?_)
    fun k f _ _ _ _ => ?_
  · refine Preserves.bind (location_preserves hlookup bp) fun r => ?_
    split
    · exact Preserves.pure _
    · refine Preserves.bind (hset _ _ _) fun sent => ?_
      split
      · exact Preserves.pure _
      · exact Preserves.bind (extra_preserves (fun _ => hset _ _ _) _) fun _ => Preserves.pure _
  · refine Preserves.bind (hset _ _ _) fun sent => ?_
    split <;> exact Preserves.pure _

variable (hprepare : ∀ pattern, Preserves P (set_class_prepare pattern))
  (hclear : ∀ code id, Preserves P (clear_request code id))
  (hwatch : ∀ id watch, Preserves P (edit fun s => s.edit_pattern_set id fun p =>
    { p with watch := watch }))

include hprepare hclear hwatch

/-- A toggle re-arms `id` itself, or the members of the family under `id`. -/
theorem toggle_preserves {id : StopId} (hdisable : ∀ m, Preserves P (disable_stop_point m))
    (hrearm : ∀ m, (m = id ∨ ∃ w set, P w ∧ w.session.pattern_sets.get? id = some set ∧
      m ∈ set.members) → Preserves P (rearm_stop_point m))
    (henabled : ∀ want, Preserves P (edit fun s => s.edit_pattern_set id fun p =>
      { p with enabled := want })) (enabled : Option Bool) :
    Preserves P (handle_toggle_stop_point id enabled) := by
  have hrewatch : ∀ pattern, Preserves P (rewatch_family id pattern) := fun pattern => by
    refine Preserves.get_bind fun w _ => ?_
    dsimp only
    split
    · exact hwatch _ _
    · refine Preserves.bind (Preserves.get_bind fun w _ => Preserves.bind (hprepare _) fun r => ?_)
        fun watch => hwatch _ watch
      split <;> exact Preserves.pure _
  have hunwatch : Preserves P (unwatch_family id) := by
    refine Preserves.get_bind fun w _ => ?_
    split
    · exact hwatch _ _
    · exact Preserves.bind (hclear _ _) fun _ => hwatch _ _
  refine Preserves.get_bind fun w _ => ?_
  split
  · split
    · exact Preserves.pure _
    refine Preserves.get_bind fun w hw => ?_
    split
    · exact Preserves.pure _
    rename_i set hset
    refine Preserves.bind (Preserves.forM_mem _ fun m hm => ?_) fun _ => ?_
    · split
      · exact Preserves.bind (hrearm m (Or.inr ⟨w, set, hw, hset, hm⟩)) fun _ => Preserves.pure _
      · exact Preserves.bind (hdisable m) fun _ => Preserves.pure _
    · split
      · exact Preserves.bind (hrewatch _) fun _ =>
          Preserves.bind (henabled _) fun _ => Preserves.pure _
      · exact Preserves.bind hunwatch fun _ => Preserves.bind (henabled _) fun _ => Preserves.pure _
  · refine Preserves.get_bind fun w _ => ?_
    split
    · exact Preserves.pure _
    split
    · exact Preserves.pure _
    split
    · exact hdisable id
    refine Preserves.bind (Preserves.get_bind fun w _ => ?_) fun r => ?_
    · split
      · exact Preserves.pure _
      refine Preserves.bind (hlookup _) fun gone => ?_
      split <;> exact Preserves.pure _
    · split
      · exact Preserves.pure _
      · exact hrearm id (Or.inl rfl)

end Rearming

/-- An edit that enters nothing into the records but what `R` and `O` allow. -/
structure Enters (R : StopPoint → Prop) (O : StopOptions → Prop)
    (f : DebugSession → DebugSession) : Prop where
  stop_points : ∀ s, (∀ sp ∈ s.stop_points.rows, R sp) → ∀ sp ∈ (f s).stop_points.rows, R sp
  pending : ∀ s, (∀ p ∈ s.pending_breakpoints, O (PendingBreakpoint.options p)) →
    ∀ p ∈ (f s).pending_breakpoints, O (PendingBreakpoint.options p)
  families : ∀ s, (∀ p ∈ s.pattern_sets.rows, O (PatternStopSet.options p)) →
    ∀ p ∈ (f s).pattern_sets.rows, O (PatternStopSet.options p)
  forgotten : ∀ s, (f s).disarmed_traced_requests = s.disarmed_traced_requests
  suspensions : ∀ s, (f s).suspensions = s.suspensions

/-- `P` survives arming that enters only stop points of `R`, from options of `O`. -/
structure Survives (R : StopPoint → Prop) (O : StopOptions → Prop) (P : World → Prop) : Prop where
  families : ∀ {w}, P w → ∀ set ∈ w.session.pattern_sets.rows, O (PatternStopSet.options set)
  lines : ∀ {o : StopOptions} {bp : LineBreakpoint}, O o → bp.arm.suspend_policy ≠ .none →
    ∀ id ids, R (o.stop_point id ids (.line bp))
  lookup : ∀ {β : Type} (f : Answers → ℕ → β), Preserves P (lookup f)
  fresh : ∀ tag, Preserves P (fresh_id tag)
  set : ∀ {k p} f, p ≠ .none → (k.code = .class_prepare → p = .eventThread) →
    Preserves P (set_request k p f)
  clear : ∀ code id, Preserves P (clear_request code id)
  edit : ∀ {f}, Enters R O f → Preserves P (edit f)

section Edits

theorem enters_stop_point (id : StopId) (f : StopPoint → StopPoint) (hf : ∀ sp, (f sp).id = sp.id)
    (h : ∀ sp, R sp → R (f sp)) : Enters R O fun s => s.edit_stop_point id f hf := by
  refine ⟨fun s hrows sp hsp => ?_, fun _ h => h, fun _ h => h, fun _ => rfl, fun _ => rfl⟩
  obtain ⟨v, hv, rfl⟩ := (Table.mem_modify _ _ _ hf _).mp hsp
  split
  · exact h v (hrows v hv)
  · exact hrows v hv

theorem enters_pattern_set (id : StopId) (f : PatternStopSet → PatternStopSet)
    (hf : ∀ s, (f s).id = s.id)
    (h : ∀ s, O (PatternStopSet.options s) → O (PatternStopSet.options (f s))) :
    Enters R O fun s => s.edit_pattern_set id f hf := by
  refine ⟨fun _ h => h, fun _ h => h, fun s hrows p hp => ?_, fun _ => rfl, fun _ => rfl⟩
  obtain ⟨v, hv, rfl⟩ := (Table.mem_modify _ _ _ hf _).mp hp
  split
  · exact h v (hrows v hv)
  · exact hrows v hv

theorem enters_register {sp : StopPoint} (h : R sp) :
    Enters R O fun s => s.register_stop_point sp := by
  refine ⟨fun s hrows q hq => ?_, fun _ h => h, fun _ h => h, fun _ => rfl, fun _ => rfl⟩
  rcases (Table.mem_insert _ _ _).mp hq with hq | rfl
  · exact hrows q hq.1
  · exact h

theorem enters_resolve {sp : StopPoint} (h : R sp) : Enters R O fun s => s.resolve_pending sp := by
  refine ⟨fun s hrows q hq => ?_, fun s hrows p hp => ?_, fun _ h => h, fun _ => rfl,
    fun _ => rfl⟩
  · rcases (Table.mem_insert _ _ _).mp hq with hq | rfl
    · exact hrows q hq.1
    · exact h
  · exact hrows p (List.mem_filter.mp hp).1

end Edits

namespace Survives

variable {spec : BreakpointSpec} {o : StopOptions}

section Lines

variable (h : Survives R O P)

include h

theorem class_prepare (pattern : String) :
    Preserves P (set_class_prepare pattern) := h.set _ (by decide) fun _ => rfl

theorem breakpoint (loc : Location) {p : SuspendPolicy} (f : EventFilters) (hp : p ≠ .none) :
    Preserves P (set_breakpoint_ex loc p f) :=
  h.set f hp fun hk => by cases hk

theorem extra {p : SuspendPolicy} (f : EventFilters) (hp : p ≠ .none) (locs : List ArmedLocation) :
    Preserves P (arm_extra_line_locations p f locs) :=
  extra_preserves (fun _ => h.breakpoint _ f hp) locs

theorem insert (copies : List ClassId) (bp_id : StopId) (rearm : RearmState) (ho : O spec.options)
    (hp : spec.suspend_policy ≠ .none) : Preserves P (arm_and_insert copies spec bp_id rearm) := by
  unfold arm_and_insert
  split
  · exact Preserves.pure _
  refine Preserves.bind (primary_reads h.lookup _ _ _) fun primary => ?_
  split
  · exact Preserves.pure _
  split
  · exact Preserves.pure _
  refine Preserves.bind (h.breakpoint _ _ hp) fun sent => ?_
  split
  · exact Preserves.pure _
  exact Preserves.bind (others_read h.lookup _ _) fun _ => Preserves.bind (h.extra _ hp _) fun _ =>
    Preserves.bind (h.edit (enters_register (h.lines ho hp _ _))) fun _ => Preserves.pure _

theorem defer (bp_id : StopId) (ho : O spec.options) (hp : spec.suspend_policy ≠ .none) :
    Preserves P (defer_breakpoint spec bp_id) := by
  unfold defer_breakpoint
  split
  · exact Preserves.pure _
  refine Preserves.bind (h.class_prepare _) fun sent => ?_
  split
  · exact Preserves.pure _
  refine Preserves.bind (h.lookup _) fun recheck => ?_
  simp only
  split
  · refine Preserves.bind (h.edit ⟨fun _ h => h, fun s hrows p hpend => ?_, fun _ h => h,
      fun _ => rfl, fun _ => rfl⟩) fun _ => Preserves.pure _
    rcases List.mem_append.mp hpend with hpend | hpend
    · exact hrows p hpend
    · rw [List.mem_singleton.mp hpend]
      exact ho
  · refine Preserves.bind (h.insert _ _ _ ho hp) fun armed => ?_
    split <;> exact Preserves.pure _

theorem exact_ (ho : O spec.options) (hp : spec.suspend_policy ≠ .none) :
    Preserves P (arm_exact spec) := by
  refine Preserves.bind (h.fresh _) fun bp_id => Preserves.bind (h.lookup _) fun r => ?_
  split
  · exact Preserves.pure _
  split
  · exact h.defer _ ho hp
  · refine Preserves.bind (Preserves.bind (h.class_prepare _) fun sent => ?_) fun plan =>
      Preserves.bind (h.insert _ _ _ ho hp) fun armed => ?_
    · split <;> exact Preserves.pure _
    · split <;> exact Preserves.pure _

theorem members (max_classes : ℕ) (ho : O spec.options) (hp : spec.suspend_policy ≠ .none)
    (classes : List (String × ClassId)) (got : Armed) :
    Preserves P (arm_members spec max_classes got classes) := by
  induction classes generalizing got with
  | nil => exact Preserves.pure _
  | cons c rest ih =>
    unfold arm_members
    split
    · exact ih _
    refine Preserves.get_bind fun w _ => Preserves.bind (h.fresh _) fun bp_id =>
      Preserves.bind (h.insert _ _ _ ho hp) fun armed => ?_
    split <;> exact ih _

theorem watch (pattern : String) : Preserves P (family_watch pattern) := by
  refine Preserves.get_bind fun w _ => Preserves.bind (h.class_prepare _) fun sent => ?_
  split <;> exact Preserves.pure _

theorem family (index : List (String × ClassId)) (max_classes : ℕ) (ho : O spec.options)
    (hp : spec.suspend_policy ≠ .none) :
    Preserves P (arm_pattern_family spec index max_classes) := by
  refine Preserves.bind (h.fresh _) fun set_id => Preserves.get_bind fun w _ =>
    Preserves.bind (h.members _ ho hp _ _) fun armed => Preserves.bind ?_ fun watch =>
    Preserves.bind (h.edit ⟨fun _ h => h, fun _ h => h, fun s hrows p hin => ?_, fun _ => rfl,
      fun _ => rfl⟩) fun _ => Preserves.pure _
  · unfold initial_watch
    split
    · exact Preserves.pure _
    · exact h.watch _
  · rcases (Table.mem_insert _ _ _).mp hin with hin | rfl
    · exact hrows p hin.1
    · exact ho

theorem set_line_stop (patterns : List String) (line : Option ℤ) (method : Option String)
    (index : List (String × ClassId)) (max_classes : ℕ) (ho : O o) :
    Preserves P (handle_set_line_stop patterns line method o index max_classes) := by
  have hp := suspend_policy_for_line_ne_none o.trace o.condition.isSome
  refine Preserves.get_bind fun w _ => ?_
  split
  · refine Preserves.forM_mem _ fun p _ => Preserves.get_bind fun w _ => ?_
    refine Preserves.get_bind fun w _ => ?_
    split
    · exact Preserves.bind (h.family _ _ ho hp) fun _ => Preserves.pure _
    · exact Preserves.bind (h.exact_ ho hp) fun _ => Preserves.pure _
  · exact Preserves.pure _

end Lines

section OtherKinds

theorem request (h : Survives R O P) {kind : RequestKind} (hk : kind.code ≠ .class_prepare)
    (f : EventFilters) (tag : String) {on : ArmedOn} (hr : ∀ id ids, R (o.stop_point id ids on)) :
    Preserves P (arm_request kind f o tag on) := by
  refine Preserves.bind (h.set _ (suspend_policy_for_ne_none _) fun hc => absurd hc hk)
    fun sent => ?_
  split
  · exact Preserves.pure _
  · exact Preserves.bind (h.fresh _) fun id =>
      Preserves.bind (h.edit (enters_register (hr _ _))) fun _ => Preserves.pure _

theorem set_exception_stop (h : Survives R O P) (targets : List (String × Option ClassId))
    (caught uncaught : Bool) (max_classes : ℕ)
    (hr : ∀ ex id ids, R (o.stop_point id ids (.exception ex))) :
    Preserves P (handle_set_exception_stop targets caught uncaught o max_classes) :=
  exceptions_preserve (fun _ _ => h.request (by simp [RequestKind.code]) _ _ (hr _)) _ _

theorem set_field_stop (h : Survives R O P) (targets : List (String × ClassId))
    (field_name : String) (kinds : List WatchKind) (max_classes : ℕ)
    (hr : ∀ wp id ids, R (o.stop_point id ids (.watchpoint wp))) :
    Preserves P (handle_set_field_stop targets field_name kinds o max_classes) := by
  refine fields_preserve h.lookup (fun _ _ _ _ k => h.request ?_ _ _ (hr _)) _ _ _
  cases k <;> simp [RequestKind.code, WatchKind.event_kind]

theorem set_method_exit_stop (h : Survives R O P) (patterns : List String) {method : Option String}
    (with_return_value : Bool) (exclude : List String)
    (hr : ∀ pattern id ids, R (o.stop_point id ids
      (.method_exit ⟨0, pattern, exclude, method, with_return_value⟩))) :
    Preserves P (handle_set_method_exit_stop patterns method with_return_value exclude o) := by
  refine method_exits_preserve (fun p => h.request ?_ _ _ (hr p)) _
  cases with_return_value <;> simp [RequestKind.code, method_exit_event_kind]

theorem monitor_kinds (h : Survives R O P) (all_kinds : List MonitorKind) {arm : MonitorArm}
    (hr : ∀ kind partnered id ids, R ((monitor_options o).stop_point id ids
      (.monitor ⟨kind, partnered, arm.monitor_class, arm.min_duration_ms⟩)))
    (armed : List (StopId × RequestId × MonitorKind)) (kinds : List MonitorKind) :
    Preserves P (arm_monitor_kinds all_kinds arm o armed kinds) :=
  monitor_kinds_preserve (fun _ => h.request (by simp [RequestKind.code]) _ _ (hr _ _)) h.clear
    (fun _ => h.edit ⟨fun _ hrows sp hsp => hrows sp ((Table.mem_erase _ _ _).mp hsp).1,
      fun _ h => h, fun _ h => h, fun _ => rfl, fun _ => rfl⟩) _ _

end OtherKinds

section ClassLoads

theorem deferred (h : Survives R O P) (cp_ref : ClassId) {pend : PendingBreakpoint}
    (ho : O (PendingBreakpoint.options pend)) : Preserves P (arm_deferred cp_ref pend) := by
  have hp := suspend_policy_for_line_ne_none pend.trace pend.condition.isSome
  refine Preserves.bind (h.lookup _) fun found => ?_
  split
  · exact Preserves.pure _
  refine Preserves.bind (h.breakpoint _ _ hp) fun sent => ?_
  split
  · exact Preserves.pure _
  exact Preserves.bind (h.extra _ hp _) fun extra => h.edit (enters_resolve (h.lines ho hp _ _))

theorem park (h : Survives R O P) (set_id : StopId) :
    Preserves P (park_family_watch_if_full set_id) := by
  refine Preserves.get_bind fun w _ => ?_
  split
  · exact Preserves.pure _
  split
  · refine Preserves.bind (h.clear _ _) fun r => ?_
    split
    · exact Preserves.pure _
    · exact h.edit (enters_pattern_set _ _ _ fun _ ho => ho)
  · exact Preserves.pure _

theorem member (h : Survives R O P) (c : ClassId) (sig fqn : String) (set_id : StopId) :
    Preserves P (arm_pattern_set_member c sig fqn set_id) := by
  refine Preserves.get_bind fun w hw => ?_
  split
  · exact Preserves.pure _
  rename_i set hset
  have ho := h.families hw set ((Table.get?_eq_some _ _ _).mp hset).1
  split
  · split
    · exact Preserves.bind (h.edit (enters_pattern_set _ _ _ fun _ ho => ho)) fun _ => h.park _
    · exact h.park _
  refine Preserves.bind (h.fresh _) fun id => Preserves.bind
    (h.insert _ _ _ ho (suspend_policy_for_line_ne_none _ _)) fun r => ?_
  split
  · exact Preserves.bind (h.edit (enters_pattern_set _ _ _ fun _ ho => ho)) fun _ => h.park _
  · exact h.edit (enters_pattern_set _ _ _ fun _ ho => ho)
  · exact Preserves.pure _

/-- What a class load arms, before its thread is let go; the copies of what is armed are a matter
of their own. -/
theorem class_prepared (h : Survives R O P) {c : ClassId} {sig : String}
    {pending : List PendingBreakpoint} (ho : ∀ p ∈ pending, O (PendingBreakpoint.options p))
    (hlater : Preserves P (rearm_later_copies c sig)) : Preserves P (do
      pending.forM (arm_deferred c)
      arm_pattern_set_members c sig
      rearm_later_copies c sig) := by
  refine Preserves.bind (Preserves.forM_mem _ fun p hmem => h.deferred c (ho p hmem))
    fun _ => Preserves.bind ?_ fun _ => hlater
  exact Preserves.get_bind fun w _ => Preserves.forM_mem _ fun id _ => h.member c sig _ id

end ClassLoads

end Survives

/-- Every stop point satisfies `R`, and what a deferral or a family arms satisfies `O`. -/
structure Records (R : StopPoint → Prop) (O : StopOptions → Prop) (w : World) : Prop where
  stop_points : ∀ sp ∈ w.session.stop_points.rows, R sp
  pending : ∀ p ∈ w.session.pending_breakpoints, O (PendingBreakpoint.options p)
  families : ∀ set ∈ w.session.pattern_sets.rows, O (PatternStopSet.options set)

theorem Records.same {w w' : World} (h : Records R O w) (hs : w'.session = w.session) :
    Records R O w' := by
  refine ⟨?_, ?_, ?_⟩ <;> rw [hs]
  · exact h.stop_points
  · exact h.pending
  · exact h.families

/-- Arming keeps every record as it should be, when the line stops it makes are. -/
theorem records_survive (h : ∀ {o : StopOptions} {bp : LineBreakpoint}, O o →
    bp.arm.suspend_policy ≠ .none → ∀ id ids, R (o.stop_point id ids (.line bp))) :
    Survives R O (Records R O) where
  families hw := hw.families
  lines := h
  lookup _ _ hw := hw.same rfl
  fresh _ _ hw := ⟨hw.stop_points, hw.pending, hw.families⟩
  set f _ _ w hw := by
    rw [set_request_run]
    cases w.refuses _ <;> exact hw.same rfl
  clear code id w hw := by
    rw [clear_request, perform_run]
    cases w.refuses _ <;> exact hw.same rfl
  edit hf w hw := ⟨hf.stop_points _ hw.stop_points, hf.pending _ hw.pending,
    hf.families _ hw.families⟩

theorem Survives.of_iff {P' : World → Prop} (h : Survives R O P) (hiff : ∀ w, P' w ↔ P w) :
    Survives R O P' := by
  have heq : P' = P := funext fun w => propext (hiff w)
  rwa [heq]

end JavaDebug.ArmingWalks
