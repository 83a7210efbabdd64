import JavaDebug.ArmingWalks

/-!
Sessions in which nothing is traced. Arming, toggling and updating suspending
stop points keeps every record suspending and every request of it armed to
suspend something, and touches neither a suspend count nor the books.
-/
namespace JavaDebug.SuspendingOnly

open Jdwp StopPoints Session Wire Disarming
open Arming Rearming StateProgram Runs
open ArmingWalks

/-- A stop point that is not traced and whose re-arm would suspend something. -/
def Stops (sp : StopPoint) : Prop :=
  sp.trace = false ∧ ∀ bp, sp.armed_on = .line bp → bp.arm.suspend_policy ≠ .none

/-- A request for `k` under policy `p` suspends something; a class-load watch only its thread. -/
def Armable (k : RequestKind) (p : SuspendPolicy) : Prop :=
  p ≠ .none ∧ (k.code = .class_prepare → p = .eventThread)

structure Suspending (w : World) : Prop where
  stop_points : ∀ sp ∈ w.session.stop_points.rows, Stops sp
  pending : ∀ p ∈ w.session.pending_breakpoints, p.trace = false
  families : ∀ s ∈ w.session.pattern_sets.rows, s.trace = false
  forgotten : w.session.disarmed_traced_requests = []
  requests : ∀ q ∈ w.jvm.requests, Armable q.kind q.policy

/-- The part of the world that decides who is held, and who can be. -/
structure Holds where
  threads : List ThreadId
  suspend_count : ThreadId → ℕ
  suspensions : Suspensions
  queue : List EventSet
  answers : Answers

def holds (w : World) : Holds :=
  ⟨w.jvm.threads, w.jvm.suspend_count, w.session.suspensions, w.queue, w.answers⟩

/-- Nothing is traced, and what is held is still `h`. -/
def Quiet (h : Holds) (w : World) : Prop :=
  Suspending w ∧ holds w = h

variable {h : Holds}

theorem quiet_log {w : World} (hw : Quiet h w) (c : Command) : Quiet h (w.log c) :=
  ⟨⟨hw.1.stop_points, hw.1.pending, hw.1.families, hw.1.forgotten, hw.1.requests⟩, hw.2⟩

theorem armable_breakpoint {p : SuspendPolicy} (hp : p ≠ .none) (loc : Location) :
    Armable (.breakpoint loc) p := ⟨hp, fun h => by cases h⟩

theorem armable_for {k : RequestKind} (hk : k.code ≠ .class_prepare) (trace : Bool) :
    Armable k (suspend_policy_for trace) :=
  ⟨suspend_policy_for_ne_none trace, fun h => absurd h hk⟩

section Primitives

theorem quiet_lookup {α : Type} (f : Answers → ℕ → α) : Preserves (Quiet h) (lookup f) :=
  fun _ hw => quiet_log hw .lookup

theorem quiet_set_request {k : RequestKind} {p : SuspendPolicy} (f : EventFilters)
    (hp : Armable k p) : Preserves (Quiet h) (set_request k p f) := by
  intro w hw
  rw [set_request_run]
  cases w.refuses (.set k p f) with
  | some e => exact quiet_log hw _
  | none =>
    refine ⟨⟨hw.1.stop_points, hw.1.pending, hw.1.families, hw.1.forgotten, ?_⟩, hw.2⟩
    intro q hq
    rcases List.mem_append.mp hq with hq | hq
    · exact hw.1.requests q hq
    · rw [List.mem_singleton.mp hq]
      exact hp

theorem quiet_clear_request (code : EventCode) (id : RequestId) :
    Preserves (Quiet h) (clear_request code id) := by
  intro w hw
  rw [clear_request, perform_run]
  cases w.refuses (.clear code id) with
  | some e => exact quiet_log hw _
  | none =>
    change Quiet h { w.log (.clear code id) with jvm := w.jvm.clear_request (code, id) }
    unfold Jvm.clear_request
    split
    · refine ⟨⟨hw.1.stop_points, hw.1.pending, hw.1.families, hw.1.forgotten, ?_⟩, hw.2⟩
      exact fun q hq => hw.1.requests q (List.mem_filter.mp hq).1
    · exact ⟨⟨hw.1.stop_points, hw.1.pending, hw.1.families, hw.1.forgotten, hw.1.requests⟩, hw.2⟩

theorem quiet_fresh_id (tag : String) : Preserves (Quiet h) (fresh_id tag) :=
  fun _ hw => ⟨⟨hw.1.stop_points, hw.1.pending, hw.1.families, hw.1.forgotten, hw.1.requests⟩, hw.2⟩

theorem quiet_edit {f : DebugSession → DebugSession}
    (hf : Enters Stops (fun o => o.trace = false) f) : Preserves (Quiet h) (edit f) := by
  intro w hw
  refine ⟨⟨hf.stop_points _ hw.1.stop_points, hf.pending _ hw.1.pending,
    hf.families _ hw.1.families, (hf.forgotten _).trans hw.1.forgotten, hw.1.requests⟩, ?_⟩
  rw [← hw.2]
  simp only [holds, edit_run, hf.suspensions]

theorem quiet_edit_stop_point (id : StopId) (f : StopPoint → StopPoint)
    (hf : ∀ sp, (f sp).id = sp.id) (hs : ∀ sp, Stops sp → Stops (f sp)) :
    Preserves (Quiet h) (edit fun s => s.edit_stop_point id f hf) :=
  quiet_edit (enters_stop_point id f hf hs)

theorem quiet_edit_pattern_set (id : StopId) (f : PatternStopSet → PatternStopSet)
    (hf : ∀ s, (f s).id = s.id) (ht : ∀ s, (f s).trace = s.trace) :
    Preserves (Quiet h) (edit fun s => s.edit_pattern_set id f hf) :=
  quiet_edit (enters_pattern_set id f hf fun s hs => (ht s).trans hs)

/-- Suspending stop points are armed by requests that suspend something. -/
theorem quiet_survives : Survives Stops (fun o => o.trace = false) (Quiet h) where
  families hw := hw.1.families
  lines ht hp _ _ := ⟨ht, fun bp hbp => by
    cases hbp
    exact hp⟩
  lookup := quiet_lookup
  fresh := quiet_fresh_id
  set f hp hk := quiet_set_request f ⟨hp, hk⟩
  clear := quiet_clear_request
  edit := quiet_edit

end Primitives

section Rearming

variable (id : StopId)

theorem quiet_disable : Preserves (Quiet h) (disable_stop_point id) :=
  disable_preserves quiet_clear_request (quiet_edit_stop_point _ _ _ fun _ hs => hs)

/-- A re-arm's new location data keep the policy, which is never `none`. -/
def Policed (r : ReArmed) : Prop := ∀ arm, r.arm = some arm → arm.suspend_policy ≠ .none

/-- Like `Preserves`, for a re-arm whose location data are policed. -/
def Rearms (m : Handler (Except Failure ReArmed)) : Prop :=
  ∀ h, Ensures (Quiet h) m fun r w => Quiet h w ∧ ∀ armed, r = .ok armed → Policed armed

theorem rearms_error (e : Failure) : Rearms (pure (.error e)) :=
  fun _ _ hw => ⟨hw, fun _ hr => by cases hr⟩

theorem rearms_bind {α : Type} {m : Handler α} {f : α → Handler (Except Failure ReArmed)}
    (hm : ∀ h, Preserves (Quiet h) m) (hf : ∀ a, Rearms (f a)) : Rearms (m >>= f) :=
  fun h w hw => hf _ h _ (hm h w hw)

theorem rearms_request {k : RequestKind} (hk : k.code ≠ .class_prepare) (sp : StopPoint)
    (f : EventFilters) : Rearms (rearm_request k sp f) := by
  refine rearms_bind (fun _ => quiet_set_request _ (armable_for hk _)) fun sent => ?_
  split
  · exact rearms_error _
  · exact fun _ _ hw => ⟨hw, fun _ hr _ harm => by cases hr; cases harm⟩

theorem rearms_line (sp : StopPoint) {bp : LineBreakpoint} (hp : bp.arm.suspend_policy ≠ .none) :
    Rearms (rearm_line_breakpoint sp bp) := by
  have hloc : ∀ h, Ensures (Quiet h) (rearm_breakpoint_location bp) fun r w =>
      Quiet h w ∧ ∀ arm, r = .ok arm → arm.suspend_policy = bp.arm.suspend_policy := by
    intro h
    refine Preserves.bind_ensures (fun _ hw => hw) fun w => ?_
    refine Preserves.bind_ensures (quiet_lookup _) fun found => ?_
    split
    · exact fun _ hw => ⟨hw, fun _ hr => by cases hr⟩
    · exact fun _ hw => ⟨hw, fun _ hr => by cases hr⟩
    · refine Preserves.bind_ensures (quiet_lookup _) fun r => ?_
      split
      · exact fun _ hw => ⟨hw, fun _ hr => by cases hr; rfl⟩
      · exact fun _ hw => ⟨hw, fun _ hr => by cases hr; rfl⟩
  intro h w hw
  obtain ⟨hw1, harm⟩ := hloc h w hw
  simp only [rearm_line_breakpoint, run_bind]
  split
  · exact ⟨hw1, fun _ hr => by cases hr⟩
  · rename_i arm hfound
    have hpol : arm.suspend_policy ≠ .none := by rw [harm arm hfound]; exact hp
    refine rearms_bind (fun _ => quiet_set_request _ (armable_breakpoint hpol _))
      (fun sent => ?_) h _ hw1
    split
    · exact rearms_error _
    · refine rearms_bind (fun _ => quiet_survives.extra _ hpol _) fun extra => ?_
      exact fun _ _ hw => ⟨hw, fun _ hr _ harm => by cases hr; cases harm; exact hpol⟩

theorem rearms_requests {sp : StopPoint} (hs : Stops sp) : Rearms (rearm_requests sp) :=
  fun h => rearm_ensures quiet_lookup (fun _ _ hw => ⟨hw, fun _ hr => by cases hr⟩)
    (fun bp hbp => rearms_line sp (hs.2 bp hbp) h) fun _ f _ hk _ _ => rearms_request hk sp f h

theorem stops_set_rearmed {sp : StopPoint} (hs : Stops sp) {r : ReArmed} (hr : Policed r) :
    Stops (set_rearmed r sp) := by
  refine ⟨hs.1, fun bp hbp => ?_⟩
  simp only [set_rearmed, with_arm] at hbp
  split at hbp
  · rename_i arm hon harm
    cases hbp
    exact hr arm harm
  · exact hs.2 bp hbp

theorem quiet_rearm : Preserves (Quiet h) (rearm_stop_point id) := by
  refine Preserves.get_bind fun w hw => ?_
  split
  · exact Preserves.pure _
  · rename_i sp hsp
    have hs := hw.1.stop_points sp ((Table.get?_eq_some _ _ _).mp hsp).1
    intro u hu
    obtain ⟨hu1, hpol⟩ := rearms_requests hs h u hu
    simp only [run_bind]
    split
    · exact hu1
    · rename_i armed harmed
      exact quiet_edit_stop_point id _ _ (fun _ hs => stops_set_rearmed hs (hpol armed harmed)) _
        hu1

theorem quiet_toggle (enabled : Option Bool) :
    Preserves (Quiet h) (handle_toggle_stop_point id enabled) :=
  toggle_preserves quiet_lookup quiet_survives.class_prepare quiet_clear_request
    (fun _ _ => quiet_edit_pattern_set _ _ _ fun _ => rfl) quiet_disable
    (fun m _ => quiet_rearm m) (fun _ => quiet_edit_pattern_set _ _ _ fun _ => rfl) enabled

theorem quiet_apply_edit (condition : FieldEdit String) (hit_count : FieldEdit ℕ) :
    Preserves (Quiet h) (edit fun s => apply_stop_point_edit s id condition hit_count) := by
  intro w hw
  rw [edit_run]
  unfold apply_stop_point_edit
  split
  · exact quiet_edit_stop_point id (edit_conditions condition hit_count) (fun _ => rfl)
      (fun _ hs => hs) w hw
  · split
    · refine quiet_edit (f := fun s => { s with
          pending_breakpoints :=
            edit_first id (edit_pending condition hit_count) s.pending_breakpoints })
        ⟨fun _ h => h, fun s hrows p hp => ?_, fun _ h => h, fun _ => rfl, fun _ => rfl⟩ w hw
      obtain ⟨q, hq, rfl | rfl⟩ := edit_first_mem hp
      · exact hrows p hq
      · exact hrows q hq
    · exact quiet_edit_pattern_set id (edit_family condition hit_count) (fun _ => rfl)
        (fun _ => rfl) w hw

theorem quiet_update (condition : FieldEdit String) (hit_count : FieldEdit ℕ) :
    Preserves (Quiet h) (handle_update_stop_point id condition hit_count) := by
  refine update_preserves (fun ids => ?_) quiet_disable fun m _ => quiet_rearm m
  induction ids with
  | nil => exact fun _ hw => hw
  | cons m rest ih => exact fun w hw => ih _ (quiet_apply_edit m condition hit_count w hw)

end Rearming

section ClassPrepare

theorem stops_add_copy (ids : List RequestId) (locs : List ArmedLocation) {sp : StopPoint}
    (hs : Stops sp) : Stops (add_copy ids locs sp) := by
  refine ⟨hs.1, fun bp hbp => ?_⟩
  simp only [add_copy] at hbp
  split at hbp
  · rename_i old hon
    cases hbp
    exact hs.2 old hon
  · exact hs.2 bp hbp

theorem quiet_rearm_later_copies (c : ClassId) (sig : String) :
    Preserves (Quiet h) (rearm_later_copies c sig) := by
  refine Preserves.get_bind fun w hw => Preserves.forM_mem _ fun t ht => ?_
  obtain ⟨sp, hsp, htarget⟩ := List.mem_filterMap.mp ht
  have hp : t.arm.suspend_policy ≠ .none := by
    unfold later_copy_target at htarget
    split at htarget
    · cases htarget
    rename_i bp hline
    have hon : sp.armed_on = .line bp := by
      unfold StopPoint.line at hline
      split at hline
      · cases hline
        assumption
      · cases hline
    split at htarget
    · cases htarget
    split at htarget
    · cases htarget
      exact (hw.1.stop_points sp hsp).2 bp hon
    · cases htarget
  refine Preserves.bind (quiet_lookup _) fun found => ?_
  split
  · exact Preserves.pure _
  refine Preserves.bind (quiet_set_request _ (armable_breakpoint hp _)) fun sent => ?_
  split
  · exact Preserves.pure _
  exact Preserves.bind (quiet_survives.extra _ hp _) fun extra =>
    quiet_edit_stop_point _ _ _ fun _ hs => stops_add_copy _ _ hs

end ClassPrepare

end JavaDebug.SuspendingOnly
