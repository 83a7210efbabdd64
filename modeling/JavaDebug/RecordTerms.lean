import JavaDebug.Renewing

/-!
What the records of a session were asked for, apart from where they are armed
at the moment. The roster lists it. Switching a stop point or a family off and
on again, and sending its requests again, leave the roster as it was.
-/
namespace JavaDebug.RecordTerms

open Jdwp StopPoints Wire Disarming
open Arming ArmingWalks Rearming Withdrawing Renewing
open StateProgram

section Sessions

variable {α : Type}

/-- What a command does not touch. -/
def desk (w : World) : DebugSession × Answers := (w.session, w.answers)

/-- A program that only talks to the debuggee. -/
abbrev Talks (m : Handler α) : Prop := Keeps desk m

theorem perform_talks (c : Command) (f : Jvm → Jvm) : Talks (perform c f) := by
  intro w
  rw [perform_run]
  cases w.refuses c <;> rfl

theorem lookup_talks (f : Answers → ℕ → α) : Talks (lookup f) := fun _ => rfl

theorem set_request_talks (k : RequestKind) (p : SuspendPolicy) (f : EventFilters) :
    Talks (set_request k p f) := by
  intro w
  rw [set_request_run]
  cases w.refuses (.set k p f) <;> rfl

theorem arm_extra_talks (p : SuspendPolicy) (f : EventFilters) (locs : List ArmedLocation) :
    Talks (arm_extra_line_locations p f locs) :=
  Keeps.of_preserves fun t => extra_preserves (fun _ => (set_request_talks _ _ _).preserves t) locs

theorem rearm_requests_talks (sp : StopPoint) : Talks (rearm_requests sp) :=
  Keeps.of_preserves fun t => rearm_preserves (fun f => (lookup_talks f).preserves t)
    (fun k p f => (set_request_talks k p f).preserves t) sp

end Sessions

/-- What a stop point was asked for, apart from where it is armed. -/
structure Terms where
  kind : StopPointKind
  hit_count : Option ℕ
  condition : Option String
  trace_expr : List String
  method : Option String
  min_duration_ms : Option ℕ
  deriving DecidableEq

def terms (sp : StopPoint) : Terms where
  kind := sp.kind
  hit_count := sp.hit_count
  condition := sp.condition
  trace_expr := sp.trace_expr
  method := sp.method_exit.bind MethodExitRequest.method
  min_duration_ms := sp.monitor.bind MonitorStop.min_duration_ms

/-- A family apart from whether it is on and watched. -/
def family_terms (set : PatternStopSet) : PatternStopSet :=
  { set with watch := .disabled, enabled := true }

structure Roster where
  stop_points : List (StopId × Terms)
  pending : List PendingBreakpoint
  families : List PatternStopSet

def roster (w : World) : Roster where
  stop_points := w.session.stop_points.rows.map fun sp => (sp.id, terms sp)
  pending := w.session.pending_breakpoints
  families := w.session.pattern_sets.rows.map family_terms

section Reading

variable {w w' : World}

theorem member_of_roster (h : roster w' = roster w) {sp' : StopPoint}
    (hsp : sp' ∈ w'.session.stop_points.rows) :
    ∃ sp ∈ w.session.stop_points.rows, sp.id = sp'.id ∧ terms sp = terms sp' := by
  have hrows := congrArg Roster.stop_points h
  have hm := List.mem_map_of_mem (f := fun sp : StopPoint => (sp.id, terms sp)) hsp
  change _ ∈ (roster w').stop_points at hm
  rw [hrows] at hm
  obtain ⟨sp, hsp, heq⟩ := List.mem_map.mp hm
  exact ⟨sp, hsp, congrArg Prod.fst heq, congrArg Prod.snd heq⟩

theorem family_of_roster (h : roster w' = roster w) {set' : PatternStopSet}
    (hset : set' ∈ w'.session.pattern_sets.rows) :
    ∃ set ∈ w.session.pattern_sets.rows, family_terms set = family_terms set' := by
  have hrows := congrArg Roster.families h
  have hm := List.mem_map_of_mem (f := family_terms) hset
  change _ ∈ (roster w').families at hm
  rw [hrows] at hm
  exact List.mem_map.mp hm

theorem find_terms {id : StopId} {l l' : List StopPoint}
    (h : l'.map (fun sp => (sp.id, terms sp)) = l.map fun sp => (sp.id, terms sp)) :
    (l'.find? fun sp => sp.id = id).map terms = (l.find? fun sp => sp.id = id).map terms := by
  induction l' generalizing l with
  | nil =>
    rw [List.map_nil, eq_comm, List.map_eq_nil_iff] at h
    rw [h]
  | cons sp' rest' ih =>
    cases l with
    | nil => cases h
    | cons sp rest =>
      simp only [List.map_cons, List.cons.injEq, Prod.mk.injEq] at h
      obtain ⟨⟨hid, hterms⟩, hrest⟩ := h
      simp only [List.find?_cons, hid]
      by_cases hi : sp.id = id
      · simp [hi, hterms]
      · simp only [hi, decide_false]
        exact ih hrest

theorem terms_of_roster (h : roster w' = roster w) (id : StopId) :
    (w'.session.stop_points.get? id).map terms = (w.session.stop_points.get? id).map terms :=
  find_terms (congrArg Roster.stop_points h)

end Reading

section Keeping

variable (id : StopId)

theorem disable_answers : Keeps World.answers (disable_stop_point id) :=
  Keeps.of_preserves fun _ => disable_preserves
    (fun _ _ w hw => (congrArg Prod.snd (perform_talks _ _ w)).trans hw) fun _ hw => hw

theorem rearm_answers : Keeps World.answers (rearm_stop_point id) :=
  Keeps.of_preserves fun _ => stop_point_preserves
    (fun sp w hw => (congrArg Prod.snd (rearm_requests_talks sp w)).trans hw) fun _ _ hw => hw

theorem talks_roster {α : Type} {m : Handler α} (h : Talks m) : Keeps roster m := by
  intro w
  have hsession : (m.run w).2.session = w.session := congrArg Prod.fst (h w)
  unfold roster
  rw [hsession]

theorem edit_stop_point_roster (f : StopPoint → StopPoint) (hf : ∀ sp, (f sp).id = sp.id)
    (ht : ∀ sp, terms (f sp) = terms sp) :
    Keeps roster (edit fun s => s.edit_stop_point id f hf) := by
  intro w
  have hrows : (w.session.stop_points.modify id f hf).rows.map (fun sp => (sp.id, terms sp)) =
      w.session.stop_points.rows.map fun sp => (sp.id, terms sp) := by
    rw [Table.modify, List.map_map]
    refine List.map_congr_left fun sp _ => ?_
    simp only [Function.comp]
    split
    · rw [hf, ht]
    · rfl
  simp only [roster, edit_run, DebugSession.edit_stop_point, hrows]

theorem edit_pattern_set_roster (f : PatternStopSet → PatternStopSet)
    (hf : ∀ set, (f set).id = set.id) (ht : ∀ set, family_terms (f set) = family_terms set) :
    Keeps roster (edit fun s => s.edit_pattern_set id f hf) := by
  intro w
  have hrows : (w.session.pattern_sets.modify id f hf).rows.map family_terms =
      w.session.pattern_sets.rows.map family_terms := by
    rw [Table.modify, List.map_map]
    refine List.map_congr_left fun set _ => ?_
    simp only [Function.comp]
    split
    · exact ht set
    · rfl
  simp only [roster, edit_run, DebugSession.edit_pattern_set, hrows]

theorem set_rearmed_terms (r : ReArmed) (sp : StopPoint) : terms (set_rearmed r sp) = terms sp := by
  unfold terms StopPoint.kind StopPoint.method_exit StopPoint.monitor set_rearmed
  cases sp.armed_on <;> cases r.arm <;> rfl

theorem disable_roster : Keeps roster (disable_stop_point id) :=
  Keeps.of_preserves fun t => disable_preserves
    (fun _ _ => (talks_roster (perform_talks _ _)).preserves t)
    ((edit_stop_point_roster _ set_disabled (fun _ => rfl) fun _ => rfl).preserves t)

theorem rearm_roster : Keeps roster (rearm_stop_point id) :=
  Keeps.of_preserves fun t => stop_point_preserves
    (fun sp => (talks_roster (rearm_requests_talks sp)).preserves t) fun armed =>
      (edit_stop_point_roster _ (set_rearmed armed) (fun _ => rfl)
        (set_rearmed_terms armed)).preserves t

/-- One target of a push of the hit count. -/
def push_one (t : StopId) : Handler Unit := do
  if is_armed (← get).session t then
    let _ ← disable_stop_point t
    let _ ← rearm_stop_point t

theorem push_one_roster (t : StopId) : Keeps roster (push_one t) := by
  refine Keeps.bind Keeps.get fun w => Keeps.ite ?_ (Keeps.pure _)
  exact Keeps.bind (disable_roster t) fun _ => Keeps.bind (rearm_roster t) fun _ => Keeps.pure _

theorem push_roster (targets : List StopId) :
    Keeps roster (push_hit_count_to_the_wire targets) := Keeps.forM push_one_roster targets

/-- A copy that loads later changes where a stop point is armed, not what it was asked for. -/
theorem later_copies_roster (c : ClassId) (sig : String) :
    Keeps roster (rearm_later_copies c sig) := by
  refine Keeps.bind Keeps.get fun w => Keeps.forM (fun t => ?_) _
  refine Keeps.bind (talks_roster (lookup_talks _)) fun found => ?_
  split
  · exact Keeps.pure _
  refine Keeps.bind (talks_roster (set_request_talks _ _ _)) fun sent => ?_
  split
  · exact Keeps.pure _
  refine Keeps.bind (talks_roster (arm_extra_talks _ _ _)) fun extra =>
    edit_stop_point_roster _ (add_copy _ _) (fun _ => rfl) fun sp => ?_
  unfold terms StopPoint.kind StopPoint.method_exit StopPoint.monitor add_copy
  cases sp.armed_on <;> rfl

theorem toggle_roster (enabled : Option Bool) :
    Keeps roster (handle_toggle_stop_point id enabled) :=
  Keeps.of_preserves fun t => toggle_preserves
    (fun _ => (talks_roster (lookup_talks _)).preserves t)
    (fun _ => (talks_roster (set_request_talks _ _ _)).preserves t)
    (fun _ _ => (talks_roster (perform_talks _ _)).preserves t)
    (fun m watch => (edit_pattern_set_roster m (fun p => { p with watch := watch }) (fun _ => rfl)
      fun _ => rfl).preserves t)
    (fun m => (disable_roster m).preserves t) (fun m _ => (rearm_roster m).preserves t)
    (fun want => (edit_pattern_set_roster id (fun p => { p with enabled := want }) (fun _ => rfl)
      fun _ => rfl).preserves t) enabled

end Keeping

section Edits

variable (condition : FieldEdit String) (hit_count : FieldEdit ℕ)

theorem put_put {α : Type} (dst : Option α) (e : FieldEdit α) : e.put (e.put dst) = e.put dst := by
  cases e <;> rfl

theorem edit_conditions_twice (sp : StopPoint) :
    edit_conditions condition hit_count (edit_conditions condition hit_count sp) =
      edit_conditions condition hit_count sp := by
  have hkind : (edit_conditions condition hit_count sp).kind = sp.kind := rfl
  unfold edit_conditions at hkind ⊢
  simp only [hkind, put_put]
  split <;> simp [put_put]

theorem apply_edit_get (s : DebugSession) (m j : StopId) :
    (apply_stop_point_edit s m condition hit_count).stop_points.get? j =
      (s.stop_points.get? j).map fun sp =>
        if j = m then edit_conditions condition hit_count sp else sp := by
  unfold apply_stop_point_edit
  split
  · by_cases h : j = m
    · subst h
      simpa using get?_edit s j (edit_conditions condition hit_count) fun _ => rfl
    · simpa [h] using others_edit s m (edit_conditions condition hit_count) (fun _ => rfl) h
  · rename_i hnone
    have hrecord : (s.stop_points.get? j).map (fun sp =>
        if j = m then edit_conditions condition hit_count sp else sp) = s.stop_points.get? j := by
      by_cases h : j = m
      · rw [h, Option.not_isSome_iff_eq_none.mp hnone]
        rfl
      · simp only [h, if_false, Option.map_id']
    rw [hrecord]
    split <;> rfl

variable (ids : List StopId)

theorem apply_edits_get (s : DebugSession) (j : StopId) :
    (apply_edits condition hit_count ids s).stop_points.get? j =
      (s.stop_points.get? j).map fun sp =>
        if j ∈ ids then edit_conditions condition hit_count sp else sp := by
  induction ids generalizing s with
  | nil => simp [apply_edits]
  | cons m rest ih =>
    have hstep := ih (apply_stop_point_edit s m condition hit_count)
    rw [apply_edit_get, Option.map_map] at hstep
    refine hstep.trans (congrArg (fun f => (s.stop_points.get? j).map f) (funext fun sp => ?_))
    simp only [Function.comp, List.mem_cons]
    by_cases hm : j = m
    · by_cases hr : m ∈ rest <;> simp [hm, hr, edit_conditions_twice]
    · simp [hm]

theorem same_or_edited {α : Type} {f : α → α} (htwice : ∀ a, f (f a) = f a) {a b c : α}
    (h : c = b ∨ c = f b) (h' : b = a ∨ b = f a) : c = a ∨ c = f a := by
  rcases h with rfl | rfl
  · exact h'
  · rcases h' with rfl | rfl
    · exact Or.inr rfl
    · exact Or.inr (htwice a)

theorem apply_edits_deferral {s : DebugSession} {p' : PendingBreakpoint}
    (h : p' ∈ (apply_edits condition hit_count ids s).pending_breakpoints) :
    ∃ p ∈ s.pending_breakpoints, p' = p ∨ p' = edit_pending condition hit_count p := by
  have htwice : ∀ p, edit_pending condition hit_count (edit_pending condition hit_count p) =
      edit_pending condition hit_count p := fun p => by simp [edit_pending, put_put]
  induction ids generalizing s with
  | nil => exact ⟨p', h, Or.inl rfl⟩
  | cons m rest ih =>
    obtain ⟨q, hq, hor⟩ := ih h
    have hfrom : ∃ p ∈ s.pending_breakpoints, q = p ∨ q = edit_pending condition hit_count p := by
      dsimp only [apply_stop_point_edit] at hq
      split at hq
      · exact ⟨q, hq, Or.inl rfl⟩
      · split at hq
        · exact edit_first_mem hq
        · exact ⟨q, hq, Or.inl rfl⟩
    obtain ⟨p, hp, hqp⟩ := hfrom
    exact ⟨p, hp, same_or_edited htwice hor hqp⟩

theorem apply_edits_family {s : DebugSession} {set' : PatternStopSet}
    (h : set' ∈ (apply_edits condition hit_count ids s).pattern_sets.rows) :
    ∃ set ∈ s.pattern_sets.rows, set' = set ∨ set' = edit_family condition hit_count set := by
  have htwice : ∀ set, edit_family condition hit_count (edit_family condition hit_count set) =
      edit_family condition hit_count set := fun set => by simp [edit_family, put_put]
  induction ids generalizing s with
  | nil => exact ⟨set', h, Or.inl rfl⟩
  | cons m rest ih =>
    obtain ⟨q, hq, hor⟩ := ih h
    have hfrom : ∃ set ∈ s.pattern_sets.rows, q = set ∨
        q = edit_family condition hit_count set := by
      dsimp only [apply_stop_point_edit] at hq
      split at hq
      · exact ⟨q, hq, Or.inl rfl⟩
      · split at hq
        · exact ⟨q, hq, Or.inl rfl⟩
        · obtain ⟨set, hset, rfl⟩ := (Table.mem_modify _ _ (edit_family condition hit_count)
            (fun _ => rfl) _).mp hq
          refine ⟨set, hset, ?_⟩
          split
          · exact Or.inr rfl
          · exact Or.inl rfl
    obtain ⟨set, hset, hqs⟩ := hfrom
    exact ⟨set, hset, same_or_edited htwice hor hqs⟩

end Edits

end JavaDebug.RecordTerms
