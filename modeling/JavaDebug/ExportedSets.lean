import JavaDebug.StopPointSet

/-!
What an exported set says of the session. Every pass appends to the set, so the
entries are those of the families, the stop points kind by kind, the deferrals
and the monitor groups. An entry describes the record it is named after and a
family's entry the members; it describes them truly exactly when the records
that share an entry agree on what the entry says once for all of them.
-/
namespace JavaDebug.ExportedSets

open StopPoints Wire Grouping StopPointSet

section Passes

variable {α β γ : Type}

/-- A pass whose steps each append at most one item appends those items in order. -/
theorem foldl_appends (g : β → List γ) (f : β → α → β) (e : α → Option γ)
    (h : ∀ b a, g (f b a) = g b ++ (e a).toList) (l : List α) (b : β) :
    g (l.foldl f b) = g b ++ l.filterMap e := by
  induction l generalizing b with
  | nil => simp
  | cons a rest ih =>
    rw [List.foldl_cons, ih, h, List.append_assoc]
    cases he : e a with
    | none => simp [he]
    | some c => simp [he]

theorem foldl_same (g : β → γ) (f : β → α → β) (h : ∀ b a, g (f b a) = g b) (l : List α) (b : β) :
    g (l.foldl f b) = g b := by
  induction l generalizing b with
  | nil => rfl
  | cons a rest ih => rw [List.foldl_cons, ih, h]

/-- The records that are named and not exported. -/
def named (b : Builder) : List RecordId := b.dropped.undescribable

def families (s : DebugSession) : List PatternStopSet :=
  sorted_by_id PatternStopSet.id s.pattern_sets.rows

variable (s : DebugSession) (members : List StopId)

theorem mem_families (fam : PatternStopSet) :
    fam ∈ families s ↔ fam ∈ s.pattern_sets.rows := (sorted_by_id_perm _ _).mem_iff

/-- The family names a line or a method to arm again from. -/
def Describable (s : DebugSession) (fam : PatternStopSet) : Prop :=
  ¬ (family_line s fam = none ∧ fam.method = none)

instance (s : DebugSession) (fam : PatternStopSet) : Decidable (Describable s fam) := by
  unfold Describable
  infer_instance

def entry_of_family (s : DebugSession) (fam : PatternStopSet) : Option Entry :=
  if Describable s fam then some (family_entry fam (family_line s fam)) else none

def name_of_family (s : DebugSession) (fam : PatternStopSet) : Option RecordId :=
  if Describable s fam then none else some (.family fam.id)

def member_ids (s : DebugSession) : List StopId := (families s).flatMap PatternStopSet.members

theorem mem_member_ids (id : StopId) :
    id ∈ member_ids s ↔ ∃ fam ∈ s.pattern_sets.rows, id ∈ fam.members := by
  simp only [member_ids, List.mem_flatMap, mem_families]

theorem push_family_entries (b : Builder) (fam : PatternStopSet) :
    (push_family s b fam).entries = b.entries ++ (entry_of_family s fam).toList := by
  unfold push_family entry_of_family
  by_cases h : Describable s fam
  · rw [if_neg h, if_pos h]
    rfl
  · rw [if_pos (not_not.mp h), if_neg h]
    exact (List.append_nil _).symm

theorem push_family_named (b : Builder) (fam : PatternStopSet) :
    named (push_family s b fam) = named b ++ (name_of_family s fam).toList := by
  unfold push_family name_of_family
  by_cases h : Describable s fam
  · rw [if_neg h, if_pos h]
    exact (List.append_nil _).symm
  · rw [if_pos (not_not.mp h), if_neg h]
    rfl

theorem push_families_members (b : Builder) : (push_families s b).1 = member_ids s := by
  have hfold : ∀ (l : List PatternStopSet) (acc : List StopId × Builder),
      (l.foldl (fun acc fam => (acc.1 ++ fam.members, push_family s acc.2 fam)) acc).1 =
        acc.1 ++ l.flatMap PatternStopSet.members := by
    intro l
    induction l with
    | nil => exact fun acc => (List.append_nil _).symm
    | cons fam rest ih =>
      intro acc
      rw [List.foldl_cons, ih, List.flatMap_cons, List.append_assoc]
  exact hfold _ _

theorem push_families_entries (b : Builder) :
    (push_families s b).2.entries = b.entries ++ (families s).filterMap (entry_of_family s) :=
  foldl_appends (fun acc : List StopId × Builder => acc.2.entries) _ _
    (fun acc fam => push_family_entries s acc.2 fam) _ _

theorem push_families_named (b : Builder) :
    named (push_families s b).2 = named b ++ (families s).filterMap (name_of_family s) :=
  foldl_appends (fun acc : List StopId × Builder => named acc.2) _ _
    (fun acc fam => push_family_named s acc.2 fam) _ _

theorem push_pending_entries (b : Builder) :
    (push_pending s b).entries = b.entries ++ s.pending_breakpoints.map pending_entry := by
  rw [← List.filterMap_eq_map]
  exact foldl_appends Builder.entries _ _ (fun _ _ => rfl) _ _

theorem push_pending_named (b : Builder) : named (push_pending s b) = named b := by
  unfold push_pending
  apply foldl_same named
  exact fun _ _ => rfl

/-- The entry a stop point has to itself. -/
def own_entry (members : List StopId) (sp : StopPoint) : Option Entry :=
  match sp.armed_on with
  | .line bp =>
    if sp.id ∈ members ∨ (bp.arm_line = none ∧ bp.arm_method = none) then none
    else some (stop_point_entry sp (.line_stop bp.class_pattern bp.arm_line bp.arm_method none))
  | .exception er =>
    some (stop_point_entry sp (.exception_stop
      (if er.class_pattern = "" then none else some er.class_pattern) er.caught er.uncaught))
  | .watchpoint wp =>
    some (stop_point_entry sp (.field_stop wp.class_name wp.field_name (wp.kind = .modify)
      (wp.kind = .access)))
  | .method_exit me =>
    some (stop_point_entry sp (.method_exit_stop me.class_pattern me.method me.exclude_classes))
  | .monitor _ => none

/-- A line stop outside the families that was armed by no line and no method. -/
def Bare (members : List StopId) (sp : StopPoint) : Prop :=
  sp.id ∉ members ∧ ∃ bp, sp.armed_on = .line bp ∧ bp.arm_line = none ∧ bp.arm_method = none

theorem push_stop_point_entries (b : Builder) (sp : StopPoint) :
    (push_stop_point members b sp).entries = b.entries ++ (own_entry members sp).toList := by
  unfold push_stop_point own_entry
  cases sp.armed_on with
  | line bp =>
    simp only
    by_cases hm : sp.id ∈ members
    · rw [if_pos hm, if_pos (Or.inl hm)]
      exact (List.append_nil _).symm
    · rw [if_neg hm]
      by_cases hb : bp.arm_line = none ∧ bp.arm_method = none
      · rw [if_pos hb, if_pos (Or.inr hb)]
        exact (List.append_nil _).symm
      · rw [if_neg hb, if_neg (by tauto)]
        rfl
  | exception er => rfl
  | watchpoint wp => rfl
  | method_exit me => rfl
  | monitor mon => exact (List.append_nil _).symm

theorem mem_push_stop_point_named (b : Builder) (sp : StopPoint) (r : RecordId) :
    r ∈ named (push_stop_point members b sp) ↔
      r ∈ named b ∨ (r = .stop_point sp.id ∧ Bare members sp) := by
  unfold push_stop_point Bare
  cases sp.armed_on with
  | line bp =>
    simp only [ArmedOn.line.injEq, exists_eq_left']
    by_cases hm : sp.id ∈ members
    · rw [if_pos hm]
      tauto
    · rw [if_neg hm]
      by_cases hb : bp.arm_line = none ∧ bp.arm_method = none
      · rw [if_pos hb]
        show r ∈ named b ++ [.stop_point sp.id] ↔ _
        rw [List.mem_append, List.mem_singleton]
        tauto
      · rw [if_neg hb]
        show r ∈ named b ↔ _
        tauto
  | exception er => simp [push_armed, Builder.push, Builder.drop_filters, named]
  | watchpoint wp => simp [push_armed, Builder.push, Builder.drop_filters, named]
  | method_exit me => simp [push_armed, Builder.push, Builder.drop_filters, named]
  | monitor mon => simp

def group_entry (g : MonitorSettings × List (StopPoint × MonitorStop)) : Option Entry :=
  match g.2 with
  | [] => none
  | first :: rest => some (monitors_entry first (first :: rest))

def monitor_groups (s : DebugSession) : List (MonitorSettings × List (StopPoint × MonitorStop)) :=
  group monitor_settings (monitor_rows s)

theorem push_monitors_entries (b : Builder) :
    (push_monitors s b).entries = b.entries ++ (monitor_groups s).filterMap group_entry := by
  unfold push_monitors
  rw [foldl_appends Builder.entries (fun b g => push_group b g.2) group_entry]
  · congr 1
    apply foldl_same Builder.entries
    exact fun _ _ => rfl
  · intro b g
    unfold push_group group_entry
    cases g.2 with
    | nil => exact (List.append_nil _).symm
    | cons first rest => rfl

theorem push_monitors_named (b : Builder) : named (push_monitors s b) = named b := by
  refine (foldl_same named _ (fun b g => ?_) _ _).trans ?_
  · cases g.2 <;> rfl
  · apply foldl_same named
    exact fun _ _ => rfl

theorem push_stop_points_entries (l : List StopPoint) (b : Builder) :
    (l.foldl (push_stop_point members) b).entries =
      b.entries ++ l.filterMap (own_entry members) :=
  foldl_appends Builder.entries _ _ (push_stop_point_entries members) l b

theorem mem_push_stop_points_named (l : List StopPoint) (b : Builder) (r : RecordId) :
    r ∈ named (l.foldl (push_stop_point members) b) ↔
      r ∈ named b ∨ ∃ sp ∈ l, r = .stop_point sp.id ∧ Bare members sp := by
  induction l generalizing b with
  | nil => simp
  | cons sp rest ih =>
    rw [List.foldl_cons, ih, mem_push_stop_point_named, List.exists_mem_cons_iff, or_assoc]

/-- The entries of a session's stop points of one kind. -/
def kind_entries (s : DebugSession) (kind : StopPointKind) : List Entry :=
  (sorted_of_kind s kind).filterMap (own_entry (member_ids s))

theorem export_entries : (export_ s).set.entries =
    (families s).filterMap (entry_of_family s) ++ kind_entries s .line ++
      s.pending_breakpoints.map pending_entry ++ kind_entries s .exception ++
      kind_entries s .watchpoint ++ kind_entries s .method_exit ++
      (monitor_groups s).filterMap group_entry := by
  show (LISTING_ORDER.foldl (push_kind s (push_families s .new).1)
    (push_families s .new).2).entries = _
  rw [push_families_members]
  simp only [LISTING_ORDER, List.foldl_cons, List.foldl_nil, push_kind, reduceCtorEq, if_true,
    if_false, push_monitors_entries, push_stop_points_entries, push_pending_entries,
    push_families_entries, kind_entries]
  rfl

theorem bare_kind {members : List StopId} {sp : StopPoint} (h : Bare members sp) :
    sp.kind = .line := by
  obtain ⟨-, bp, hon, -⟩ := h
  rw [StopPoint.kind, hon]
  rfl

theorem mem_named (r : RecordId) : r ∈ (export_ s).dropped.undescribable ↔
    (∃ fam ∈ s.pattern_sets.rows, r = .family fam.id ∧ ¬ Describable s fam) ∨
      ∃ sp ∈ s.stop_points.rows, r = .stop_point sp.id ∧ Bare (member_ids s) sp := by
  have hother : ∀ kind : StopPointKind, kind ≠ .line →
      ¬ ∃ sp ∈ sorted_of_kind s kind, r = .stop_point sp.id ∧ Bare (member_ids s) sp := by
    rintro kind hkind ⟨sp, hsp, -, hbare⟩
    exact hkind (((mem_sorted_of_kind s kind sp).mp hsp).2.symm.trans (bare_kind hbare))
  have hline : (∃ sp ∈ sorted_of_kind s .line, r = .stop_point sp.id ∧ Bare (member_ids s) sp) ↔
      ∃ sp ∈ s.stop_points.rows, r = .stop_point sp.id ∧ Bare (member_ids s) sp := by
    simp only [mem_sorted_of_kind]
    exact exists_congr fun sp => ⟨fun h => ⟨h.1.1, h.2⟩, fun h => ⟨⟨h.1, bare_kind h.2.2⟩, h.2⟩⟩
  have hfamilies : r ∈ (families s).filterMap (name_of_family s) ↔
      ∃ fam ∈ s.pattern_sets.rows, r = .family fam.id ∧ ¬ Describable s fam := by
    simp only [List.mem_filterMap, mem_families]
    refine exists_congr fun fam => and_congr_right fun _ => ?_
    unfold name_of_family
    by_cases h : Describable s fam
    · rw [if_pos h]
      exact ⟨fun he => absurd he (Option.some_ne_none r).symm, fun hn => absurd h hn.2⟩
    · rw [if_neg h, Option.some.injEq]
      exact ⟨fun he => ⟨he.symm, h⟩, fun hn => hn.1.symm⟩
  show r ∈ named (LISTING_ORDER.foldl (push_kind s (push_families s .new).1)
    (push_families s .new).2) ↔ _
  rw [push_families_members]
  simp only [LISTING_ORDER, List.foldl_cons, List.foldl_nil, push_kind, reduceCtorEq, if_true,
    if_false, push_monitors_named, mem_push_stop_points_named, push_pending_named,
    push_families_named, List.mem_append, hline, hfamilies]
  have hnew : r ∉ named .new := List.not_mem_nil
  simp only [hnew, hother .exception (by decide), hother .watchpoint (by decide),
    hother .method_exit (by decide), false_or, or_false]

end Passes

section Descriptions

/-- An entry named after `o` describes `r`: the record itself, or a member of the family. -/
def covers (s : DebugSession) : RecordId → RecordId → Bool
  | .family f, .stop_point id => s.pattern_sets.rows.any fun fam => fam.id = f ∧ id ∈ fam.members
  | o, r => o = r

def describes (s : DebugSession) (r : RecordId) (e : Entry) : Bool :=
  e.from_.any fun o => covers s o r

variable (s : DebugSession)

theorem family_describes {fam : PatternStopSet} (hfam : fam ∈ s.pattern_sets.rows) (line : Option ℤ)
    (id : StopId) :
    describes s (.stop_point id) (family_entry fam line) = true ↔ id ∈ fam.members := by
  simp only [describes, family_entry, List.any_cons, List.any_nil, Bool.or_false, covers,
    List.any_eq_true, decide_eq_true_eq]
  constructor
  · rintro ⟨fam', hfam', hid, hm⟩
    rw [List.inj_on_of_nodup_map s.pattern_sets.nodup hfam' hfam hid] at hm
    exact hm
  · exact fun hm => ⟨fam, hfam, rfl, hm⟩

theorem stop_point_describes (sp : StopPoint) (l : Locator) (r : RecordId) :
    describes s r (stop_point_entry sp l) = true ↔ r = .stop_point sp.id := by
  simp [describes, stop_point_entry, covers, eq_comm]

theorem pending_describes (pb : PendingBreakpoint) (r : RecordId) :
    describes s r (pending_entry pb) = true ↔ r = .pending pb.bp_id := by
  simp [describes, pending_entry, covers, eq_comm]

theorem monitors_describes (first : StopPoint × MonitorStop) (rows : List (StopPoint × MonitorStop))
    (r : RecordId) :
    describes s r (monitors_entry first rows) = true ↔ ∃ row ∈ rows, r = .stop_point row.1.id := by
  simp only [describes, monitors_entry, List.any_map, List.any_eq_true, Function.comp, covers]
  refine exists_congr fun row => and_congr_right fun _ => ?_
  rw [decide_eq_true_eq, eq_comm]

theorem own_entry_eq {members : List StopId} {sp : StopPoint} {e : Entry}
    (h : own_entry members sp = some e) : ∃ l, e = stop_point_entry sp l := by
  unfold own_entry at h
  cases hon : sp.armed_on with
  | line bp =>
    rw [hon] at h
    simp only at h
    split at h
    · cases h
    · exact ⟨_, (Option.some.inj h).symm⟩
  | exception er =>
    rw [hon] at h
    exact ⟨_, (Option.some.inj h).symm⟩
  | watchpoint wp =>
    rw [hon] at h
    exact ⟨_, (Option.some.inj h).symm⟩
  | method_exit me =>
    rw [hon] at h
    exact ⟨_, (Option.some.inj h).symm⟩
  | monitor mon =>
    rw [hon] at h
    cases h

/-- Outside the families and the monitors, a stop point is exported unless it is bare. -/
theorem own_entry_isSome (members : List StopId) (sp : StopPoint) :
    (own_entry members sp).isSome = true ↔
      sp.kind ≠ .monitor ∧ (sp.kind = .line → sp.id ∉ members) ∧ ¬ Bare members sp := by
  unfold own_entry Bare StopPoint.kind
  cases sp.armed_on with
  | line bp =>
    simp only [ArmedOn.kind, ArmedOn.line.injEq, exists_eq_left']
    by_cases hm : sp.id ∈ members
    · simp [hm]
    · by_cases hb : bp.arm_line = none ∧ bp.arm_method = none
      · simp [hm, hb]
      · rw [if_neg (by tauto)]
        simp only [Option.isSome_some, true_iff]
        exact ⟨by decide, fun _ => hm, fun h => hb h.2⟩
  | exception er => simp [ArmedOn.kind]
  | watchpoint wp => simp [ArmedOn.kind]
  | method_exit me => simp [ArmedOn.kind]
  | monitor mon => simp [ArmedOn.kind]

theorem mem_monitor_rows (row : StopPoint × MonitorStop) :
    row ∈ monitor_rows s ↔ row.1 ∈ s.stop_points.rows ∧ row.1.armed_on = .monitor row.2 := by
  obtain ⟨sp, mon⟩ := row
  simp only [monitor_rows, List.mem_filterMap, mem_sorted_of_kind, Option.map_eq_some_iff,
    Prod.mk.injEq]
  constructor
  · rintro ⟨sp', ⟨hsp, -⟩, mon', hmon, rfl, rfl⟩
    refine ⟨hsp, ?_⟩
    unfold StopPoint.monitor at hmon
    cases hon : sp'.armed_on with
    | monitor m =>
      rw [hon] at hmon
      rw [Option.some.inj hmon]
    | line _ | exception _ | watchpoint _ | method_exit _ =>
      rw [hon] at hmon
      cases hmon
  · rintro ⟨hsp, hon⟩
    refine ⟨sp, ⟨hsp, ?_⟩, mon, ?_, rfl, rfl⟩
    · rw [StopPoint.kind, hon]
      rfl
    · rw [StopPoint.monitor, hon]

theorem groups_of :
    Groups monitor_settings (monitor_rows s) (monitor_groups s) := groups_group _ _

theorem kind_monitor {sp : StopPoint} (h : sp.kind = .monitor) :
    ∃ mon, sp.armed_on = .monitor mon := by
  unfold StopPoint.kind at h
  cases hon : sp.armed_on with
  | monitor mon => exact ⟨mon, rfl⟩
  | line _ | exception _ | watchpoint _ | method_exit _ =>
    rw [hon] at h
    cases h

end Descriptions

section Counts

theorem countP_row {ν κ : Type} [DecidableEq κ] {key : ν → κ} {rows : List ν}
    (h : (rows.map key).Nodup) {v : ν} (hv : v ∈ rows) (p : ν → Bool) :
    rows.countP (fun u => key u = key v && p u) = if p v then 1 else 0 := by
  have heq : ∀ u ∈ rows, key u = key v → u = v := fun u hu hk =>
    List.inj_on_of_nodup_map h hu hv hk
  cases hp : p v with
  | false =>
    refine List.countP_eq_zero.mpr fun u hu hu' => ?_
    rw [Bool.and_eq_true, decide_eq_true_eq] at hu'
    rw [heq u hu hu'.1, hp] at hu'
    exact absurd hu'.2 Bool.false_ne_true
  | true =>
    have hcount : (rows.map key).count (key v) = 1 :=
      List.count_eq_one_of_mem h (List.mem_map_of_mem hv)
    rw [if_pos rfl, ← hcount, List.count, List.countP_map]
    refine List.countP_congr fun u hu => ?_
    simp only [Bool.and_eq_true, decide_eq_true_eq, Function.comp, beq_iff_eq]
    exact ⟨fun hk => hk.1, fun hk => ⟨hk, heq u hu hk ▸ hp⟩⟩

/-- How many entries describe the record. -/
def times (s : DebugSession) (r : RecordId) : ℕ := (export_ s).set.entries.countP (describes s r)

variable (s : DebugSession)

theorem times_eq (r : RecordId) : times s r =
    ((families s).filterMap (entry_of_family s)).countP (describes s r) +
      (kind_entries s .line).countP (describes s r) +
      (s.pending_breakpoints.map pending_entry).countP (describes s r) +
      (kind_entries s .exception).countP (describes s r) +
      (kind_entries s .watchpoint).countP (describes s r) +
      (kind_entries s .method_exit).countP (describes s r) +
      ((monitor_groups s).filterMap group_entry).countP (describes s r) := by
  unfold times
  rw [export_entries]
  simp only [List.countP_append]

variable {sp : StopPoint}

theorem kind_count {s : DebugSession} (hsp : sp ∈ s.stop_points.rows) (kind : StopPointKind) :
    (kind_entries s kind).countP (describes s (.stop_point sp.id)) =
      if sp.kind = kind ∧ (own_entry (member_ids s) sp).isSome = true then 1 else 0 := by
  have hentry : ∀ u : StopPoint, (((own_entry (member_ids s) u).map
      (describes s (.stop_point sp.id))).getD false = true) ↔
        (u.id = sp.id ∧ (own_entry (member_ids s) u).isSome = true) := by
    intro u
    cases hu : own_entry (member_ids s) u with
    | none => simp
    | some e =>
      obtain ⟨l, rfl⟩ := own_entry_eq hu
      simp only [Option.map_some, Option.getD_some, stop_point_describes, RecordId.stop_point.injEq,
        Option.isSome_some, and_true]
      exact eq_comm
  have hrows := countP_row s.stop_points.nodup hsp
    fun u => u.kind = kind && (own_entry (member_ids s) u).isSome
  rw [kind_entries, List.countP_filterMap, sorted_of_kind, (sorted_by_id_perm _ _).countP_eq,
    List.countP_filter]
  simp only [Bool.and_eq_true, decide_eq_true_eq] at hrows
  rw [← hrows]
  refine List.countP_congr fun u _ => ?_
  simp only [Bool.and_eq_true, decide_eq_true_eq, hentry]
  tauto

theorem family_count (id : StopId) :
    ((families s).filterMap (entry_of_family s)).countP (describes s (.stop_point id)) =
      s.pattern_sets.rows.countP fun fam => Describable s fam ∧ id ∈ fam.members := by
  rw [List.countP_filterMap, families, (sorted_by_id_perm _ _).countP_eq]
  refine List.countP_congr fun fam hfam => ?_
  unfold entry_of_family
  by_cases h : Describable s fam
  · simp [h, family_describes s hfam]
  · simp [h]

theorem group_count {s : DebugSession} (hsp : sp ∈ s.stop_points.rows) :
    ((monitor_groups s).filterMap group_entry).countP (describes s (.stop_point sp.id)) =
      if sp.kind = .monitor then 1 else 0 := by
  have hentry : ∀ g ∈ monitor_groups s, (((group_entry g).map
      (describes s (.stop_point sp.id))).getD false = true) ↔ ∃ row ∈ g.2, row.1 = sp := by
    intro g hg
    have hrow : ∀ row ∈ g.2, (RecordId.stop_point sp.id = .stop_point row.1.id ↔ row.1 = sp) := by
      intro row hrow
      have hmem := ((mem_monitor_rows s row).mp (((groups_of s).mem_iff hg row).mp hrow).1).1
      rw [RecordId.stop_point.injEq]
      exact ⟨fun he => List.inj_on_of_nodup_map s.stop_points.nodup hmem hsp he.symm,
        fun he => by rw [he]⟩
    cases hg2 : g.2 with
    | nil => simp [group_entry, hg2]
    | cons first rest =>
      rw [hg2] at hrow
      simp only [group_entry, hg2, Option.map_some, Option.getD_some, monitors_describes]
      exact exists_congr fun row => and_congr_right fun hm => hrow row hm
  rw [List.countP_filterMap]
  by_cases hk : sp.kind = .monitor
  · obtain ⟨mon, hon⟩ := kind_monitor hk
    have hmem : (sp, mon) ∈ monitor_rows s := (mem_monitor_rows s _).mpr ⟨hsp, hon⟩
    rw [if_pos hk]
    refine (groups_of s).countP_mem hmem fun g hg => ?_
    rw [hentry g hg]
    constructor
    · rintro ⟨⟨sp', mon'⟩, hrow, rfl⟩
      have hon' := ((mem_monitor_rows s _).mp (((groups_of s).mem_iff hg _).mp hrow).1).2
      rw [hon, ArmedOn.monitor.injEq] at hon'
      rw [hon']
      exact hrow
    · exact fun hrow => ⟨_, hrow, rfl⟩
  · rw [if_neg hk]
    refine List.countP_eq_zero.mpr fun g hg hg' => hk ?_
    obtain ⟨row, hrow, rfl⟩ := (hentry g hg).mp hg'
    rw [StopPoint.kind, ((mem_monitor_rows s row).mp (((groups_of s).mem_iff hg row).mp hrow).1).2]
    rfl

/-- A stop point is described by its own entry or its group's, and by each family it is in. -/
theorem times_stop_point {s : DebugSession} (hsp : sp ∈ s.stop_points.rows) :
    times s (.stop_point sp.id) =
      (s.pattern_sets.rows.countP fun fam => Describable s fam ∧ sp.id ∈ fam.members) +
        if sp.kind = .monitor ∨ (own_entry (member_ids s) sp).isSome = true then 1 else 0 := by
  have hpending : (s.pending_breakpoints.map pending_entry).countP
      (describes s (.stop_point sp.id)) = 0 := by
    rw [List.countP_map]
    refine List.countP_eq_zero.mpr fun pb _ hpb => ?_
    cases (pending_describes s pb _).mp hpb
  have hmon : sp.kind = .monitor → (own_entry (member_ids s) sp).isSome = false := by
    intro hk
    rw [← Bool.not_eq_true, own_entry_isSome]
    exact fun h => h.1 hk
  rw [times_eq, family_count, group_count hsp, hpending]
  simp only [kind_count hsp]
  cases hk : sp.kind <;> cases ho : (own_entry (member_ids s) sp).isSome <;>
    simp_all

theorem times_pending (id : StopId) : times s (.pending id) =
    (s.pending_breakpoints.map PendingBreakpoint.bp_id).count id := by
  have hfamily : ((families s).filterMap (entry_of_family s)).countP
      (describes s (.pending id)) = 0 := by
    refine List.countP_eq_zero.mpr fun e he hd => ?_
    obtain ⟨fam, -, hfam⟩ := List.mem_filterMap.mp he
    unfold entry_of_family at hfam
    split at hfam
    · rw [← Option.some.inj hfam] at hd
      simp [describes, family_entry, covers] at hd
    · cases hfam
  have hkind : ∀ kind, (kind_entries s kind).countP (describes s (.pending id)) = 0 := by
    refine fun kind => List.countP_eq_zero.mpr fun e he hd => ?_
    obtain ⟨sp, -, hsp⟩ := List.mem_filterMap.mp he
    obtain ⟨l, rfl⟩ := own_entry_eq hsp
    cases (stop_point_describes s sp l _).mp hd
  have hgroup : ((monitor_groups s).filterMap group_entry).countP
      (describes s (.pending id)) = 0 := by
    refine List.countP_eq_zero.mpr fun e he hd => ?_
    obtain ⟨g, -, hg⟩ := List.mem_filterMap.mp he
    unfold group_entry at hg
    split at hg
    · cases hg
    · rw [← Option.some.inj hg, monitors_describes] at hd
      obtain ⟨row, -, hrow⟩ := hd
      cases hrow
  rw [times_eq, hfamily, hgroup]
  simp only [hkind, List.countP_map, List.count]
  simp only [Nat.zero_add, Nat.add_zero]
  refine List.countP_congr fun pb _ => ?_
  simp only [Function.comp, pending_describes, RecordId.pending.injEq, beq_iff_eq]
  exact eq_comm

end Counts

end JavaDebug.ExportedSets
