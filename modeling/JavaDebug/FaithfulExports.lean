import JavaDebug.ExportedSets

/-!
Whether a set arms the session again as it stands. An entry has one enabled
flag, one budget and one condition for all the records it describes, so it is
true of each of them exactly when they agree. Monitor stops share an entry
without agreeing on the budget or on being enabled, a family's members spend
budgets of their own, and a budget without bound is written by leaving it out,
which a call reads as the default.
-/
namespace JavaDebug.FaithfulExports

open Jdwp StopPoints Wire StopPointSet
open ExportedSets

section Terms

/-- What a set has to say of each stop point. -/
structure Terms where
  enabled : Bool
  trace : Bool
  trace_budget : Option ℕ
  hit_count : Option ℕ
  condition : Option String
  deriving DecidableEq

def stop_terms (sp : StopPoint) : Terms :=
  ⟨sp.enabled && !sp.spent, sp.trace, sp.trace_budget, sp.hit_count, sp.condition⟩

/-- A deferral waits to be armed: nothing turns it off. -/
def pending_terms (pb : PendingBreakpoint) : Terms :=
  ⟨true, pb.trace, pb.trace_budget, pb.hit_count, pb.condition⟩

def family_terms (fam : PatternStopSet) : Terms :=
  ⟨fam.enabled, fam.trace, fam.trace_budget, fam.hit_count, fam.condition⟩

def entry_terms (e : Entry) : Terms :=
  ⟨e.enabled, e.args.trace, e.args.trace_max_hits, e.args.hit_count, e.args.condition⟩

/-- The stop points and deferrals of a session, each with its terms. -/
def targets (s : DebugSession) : List (RecordId × Terms) :=
  (s.stop_points.rows.map fun sp => (.stop_point sp.id, stop_terms sp)) ++
    s.pending_breakpoints.map fun pb => (.pending pb.bp_id, pending_terms pb)

theorem stop_target {s : DebugSession} {sp : StopPoint} (h : sp ∈ s.stop_points.rows) :
    (.stop_point sp.id, stop_terms sp) ∈ targets s :=
  List.mem_append_left _ (List.mem_map_of_mem h)

theorem pending_target {s : DebugSession} {pb : PendingBreakpoint} (h : pb ∈ s.pending_breakpoints)
    : (.pending pb.bp_id, pending_terms pb) ∈ targets s :=
  List.mem_append_right _ (List.mem_map_of_mem h)

/-- Every target is described once or named, by an entry with its terms; the entries that are
replayed are those of the enabled targets, and each call arms with the budget that was left and as
many monitor stops as its entry describes. -/
structure KeptAsItStands (s : DebugSession) : Prop where
  once : ∀ t ∈ targets s, t.1 ∈ (export_ s).dropped.undescribable ∨ times s t.1 = 1
  own : ∀ t ∈ targets s, ∀ e ∈ (export_ s).set.entries, describes s t.1 e = true →
    entry_terms e = t.2
  rearmed : ∀ t ∈ targets s, t.1 ∉ (export_ s).dropped.undescribable → ∀ budget,
    (∃ e ∈ replayed (export_ s).set, describes s t.1 e = true ∧ e.budget = budget) ↔
      t.2.enabled = true ∧ t.2.trace_budget = budget
  kinds : ∀ e ∈ replayed (export_ s).set, ∀ kinds class_ ms,
    e.locator = .monitor_stop kinds class_ ms → (parse_monitor_kinds kinds).Perm kinds

def InFamily (s : DebugSession) (id : StopId) : Prop :=
  ∃ fam ∈ s.pattern_sets.rows, id ∈ fam.members

def IsMonitor (s : DebugSession) (row : StopPoint × MonitorStop) : Prop :=
  row.1 ∈ s.stop_points.rows ∧ row.1.armed_on = .monitor row.2

/-- A budget that a call can ask for. -/
def Bounded (trace : Bool) (budget : Option ℕ) : Prop :=
  (trace = true → ∃ n, 0 < n ∧ budget = some n) ∧ (trace = false → budget = none)

/-- The records that share an entry agree on what it says once for all of them. -/
structure Foldable (s : DebugSession) : Prop where
  deferrals : (s.pending_breakpoints.map PendingBreakpoint.bp_id).Nodup
  members : ∀ sp ∈ s.stop_points.rows, sp.kind = .line → InFamily s sp.id →
    (s.pattern_sets.rows.countP fun fam => Describable s fam ∧ sp.id ∈ fam.members) = 1
  strangers : ∀ sp ∈ s.stop_points.rows, sp.kind ≠ .line → ∀ fam ∈ s.pattern_sets.rows,
    Describable s fam → sp.id ∉ fam.members
  families : ∀ sp ∈ s.stop_points.rows, ∀ fam ∈ s.pattern_sets.rows, Describable s fam →
    sp.id ∈ fam.members → family_terms fam = stop_terms sp
  unconditional : ∀ row, IsMonitor s row → row.1.condition = none
  grouped : ∀ row row', IsMonitor s row → IsMonitor s row' →
    monitor_settings row = monitor_settings row' →
      (stop_terms row.1).enabled = (stop_terms row'.1).enabled ∧
        row.1.trace_budget = row'.1.trace_budget
  distinct : ∀ row row', IsMonitor s row → IsMonitor s row' →
    monitor_settings row = monitor_settings row' → (stop_terms row.1).enabled = true →
      row.2.kind = row'.2.kind → row = row'
  bounded : ∀ sp ∈ s.stop_points.rows, ¬ Bare (member_ids s) sp →
    (stop_terms sp).enabled = true → Bounded sp.trace sp.trace_budget
  deferred : ∀ pb ∈ s.pending_breakpoints, Bounded pb.trace pb.trace_budget

end Terms

section Entries

variable {s : DebugSession}

theorem inFamily_iff (s : DebugSession) (id : StopId) : InFamily s id ↔ id ∈ member_ids s :=
  (mem_member_ids s id).symm

theorem isMonitor_iff (s : DebugSession) (row : StopPoint × MonitorStop) :
    IsMonitor s row ↔ row ∈ monitor_rows s := (mem_monitor_rows s row).symm

theorem trace_budget_for_eq_iff (trace : Bool) (budget : Option ℕ) :
    trace_budget_for trace budget = budget ↔ Bounded trace budget := by
  unfold Bounded
  cases trace with
  | false => simp [trace_budget_for, eq_comm]
  | true =>
    cases budget with
    | none => simp [trace_budget_for]
    | some n => cases n <;> simp [trace_budget_for]

theorem mem_entries (s : DebugSession) (e : Entry) : e ∈ (export_ s).set.entries ↔
    (∃ fam ∈ s.pattern_sets.rows, Describable s fam ∧ e = family_entry fam (family_line s fam)) ∨
      (∃ sp ∈ s.stop_points.rows, own_entry (member_ids s) sp = some e) ∨
      (∃ pb ∈ s.pending_breakpoints, e = pending_entry pb) ∨
      ∃ g ∈ monitor_groups s, group_entry g = some e := by
  have hfamily : e ∈ (ExportedSets.families s).filterMap (entry_of_family s) ↔
      ∃ fam ∈ s.pattern_sets.rows, Describable s fam ∧
        e = family_entry fam (family_line s fam) := by
    simp only [List.mem_filterMap, mem_families]
    refine exists_congr fun fam => and_congr_right fun _ => ?_
    unfold entry_of_family
    by_cases h : Describable s fam
    · simp [h, eq_comm]
    · simp [h]
  have hkind : ∀ kind, e ∈ kind_entries s kind ↔
      ∃ sp ∈ s.stop_points.rows, sp.kind = kind ∧ own_entry (member_ids s) sp = some e := by
    intro kind
    simp only [kind_entries, List.mem_filterMap, mem_sorted_of_kind, and_assoc]
  have hpending : e ∈ s.pending_breakpoints.map pending_entry ↔
      ∃ pb ∈ s.pending_breakpoints, e = pending_entry pb := by
    simp only [List.mem_map, eq_comm]
  rw [export_entries]
  simp only [List.mem_append, hfamily, hkind, hpending, List.mem_filterMap]
  constructor
  · rintro ((((((h | ⟨sp, hsp, -, h⟩) | h) | ⟨sp, hsp, -, h⟩) | ⟨sp, hsp, -, h⟩) |
      ⟨sp, hsp, -, h⟩) | h)
    · exact Or.inl h
    · exact Or.inr (Or.inl ⟨sp, hsp, h⟩)
    · exact Or.inr (Or.inr (Or.inl h))
    · exact Or.inr (Or.inl ⟨sp, hsp, h⟩)
    · exact Or.inr (Or.inl ⟨sp, hsp, h⟩)
    · exact Or.inr (Or.inl ⟨sp, hsp, h⟩)
    · exact Or.inr (Or.inr (Or.inr h))
  · rintro (h | ⟨sp, hsp, h⟩ | h | h)
    · exact Or.inl (Or.inl (Or.inl (Or.inl (Or.inl (Or.inl h)))))
    · cases hk : sp.kind with
      | line => exact Or.inl (Or.inl (Or.inl (Or.inl (Or.inl (Or.inr ⟨sp, hsp, hk, h⟩)))))
      | exception => exact Or.inl (Or.inl (Or.inl (Or.inr ⟨sp, hsp, hk, h⟩)))
      | watchpoint => exact Or.inl (Or.inl (Or.inr ⟨sp, hsp, hk, h⟩))
      | method_exit => exact Or.inl (Or.inr ⟨sp, hsp, hk, h⟩)
      | monitor =>
        have hsome : (own_entry (member_ids s) sp).isSome = true := by rw [h]; rfl
        exact absurd hk ((own_entry_isSome _ _).mp hsome).1
    · exact Or.inl (Or.inl (Or.inl (Or.inl (Or.inr h))))
    · exact Or.inr h

theorem named_stop_point {sp : StopPoint} (hsp : sp ∈ s.stop_points.rows) :
    .stop_point sp.id ∈ (export_ s).dropped.undescribable ↔ Bare (member_ids s) sp := by
  rw [mem_named]
  constructor
  · rintro (⟨fam, -, h, -⟩ | ⟨sp', hsp', hid, hbare⟩)
    · cases h
    · rw [List.inj_on_of_nodup_map s.stop_points.nodup hsp hsp' (RecordId.stop_point.inj hid)]
      exact hbare
  · exact fun h => Or.inr ⟨sp, hsp, rfl, h⟩

theorem not_named_pending (id : StopId) : .pending id ∉ (export_ s).dropped.undescribable := by
  rw [mem_named]
  rintro (⟨_, -, h, -⟩ | ⟨_, -, h, -⟩) <;> cases h

theorem not_bare_of_kind {sp : StopPoint} (hk : sp.kind ≠ .line) : ¬ Bare (member_ids s) sp :=
  fun h => hk (bare_kind h)

/-- A stop point has an entry besides its families' unless it is a bare line stop or a member. -/
theorem alone_iff (s : DebugSession) (sp : StopPoint) :
    (sp.kind = .monitor ∨ (own_entry (member_ids s) sp).isSome = true) ↔
      (sp.kind = .line → sp.id ∉ member_ids s ∧ ¬ Bare (member_ids s) sp) := by
  rw [own_entry_isSome]
  by_cases hk : sp.kind = .line
  · simp [hk]
  · constructor
    · exact fun _ hl => absurd hl hk
    · intro _
      by_cases hmon : sp.kind = .monitor
      · exact Or.inl hmon
      · exact Or.inr ⟨hmon, fun hl => absurd hl hk, not_bare_of_kind hk⟩

theorem monitor_rows_nodup (s : DebugSession) : (monitor_rows s).Nodup := by
  have hsorted : (sorted_of_kind s .monitor).Nodup :=
    (sorted_by_id_perm _ _).nodup_iff.mpr (s.stop_points.nodup.of_map.filter _)
  refine hsorted.filterMap fun sp sp' row hrow hrow' => ?_
  obtain ⟨mon, -, rfl⟩ := Option.map_eq_some_iff.mp hrow
  obtain ⟨mon', -, heq⟩ := Option.map_eq_some_iff.mp hrow'
  exact (congrArg Prod.fst heq).symm

/-- The rows of a group, in the order of its entry: the monitor stops of one setting. -/
structure IsGroup (s : DebugSession) (first : StopPoint × MonitorStop)
    (rest : List (StopPoint × MonitorStop)) : Prop where
  nodup : (first :: rest).Nodup
  mem_iff : ∀ row, row ∈ first :: rest ↔
    IsMonitor s row ∧ monitor_settings row = monitor_settings first

theorem isGroup_of {g : MonitorSettings × List (StopPoint × MonitorStop)}
    (hg : g ∈ monitor_groups s) {first : StopPoint × MonitorStop}
    {rest : List (StopPoint × MonitorStop)} (h : g.2 = first :: rest) : IsGroup s first rest := by
  have hmem : ∀ row, row ∈ first :: rest ↔ row ∈ monitor_rows s ∧ monitor_settings row = g.1 := by
    intro row
    rw [← h]
    exact (groups_of s).mem_iff hg row
  have hfirst : monitor_settings first = g.1 := ((hmem first).mp List.mem_cons_self).2
  constructor
  · rw [← h, (groups_of s).rows g hg]
    exact (monitor_rows_nodup s).filter _
  · intro row
    rw [hmem, isMonitor_iff, hfirst]

theorem group_entry_eq_some {g : MonitorSettings × List (StopPoint × MonitorStop)} {e : Entry}
    (h : group_entry g = some e) :
    ∃ first rest, g.2 = first :: rest ∧ e = monitors_entry first (first :: rest) := by
  unfold group_entry at h
  cases hg : g.2 with
  | nil =>
    rw [hg] at h
    cases h
  | cons first rest =>
    rw [hg] at h
    exact ⟨first, rest, rfl, (Option.some.inj h).symm⟩

theorem exists_group {row : StopPoint × MonitorStop} (h : IsMonitor s row) :
    ∃ first rest, IsGroup s first rest ∧ row ∈ first :: rest ∧
      monitors_entry first (first :: rest) ∈ (export_ s).set.entries := by
  obtain ⟨g, hg, -, hrow⟩ := (groups_of s).exists_group ((isMonitor_iff s row).mp h)
  cases hg2 : g.2 with
  | nil =>
    rw [hg2] at hrow
    cases hrow
  | cons first rest =>
    rw [hg2] at hrow
    refine ⟨first, rest, isGroup_of hg hg2, hrow, (mem_entries s _).mpr ?_⟩
    refine Or.inr (Or.inr (Or.inr ⟨g, hg, ?_⟩))
    rw [group_entry, hg2]

theorem group_describes {first : StopPoint × MonitorStop} {rest : List (StopPoint × MonitorStop)}
    {row : StopPoint × MonitorStop} (hrow : row ∈ first :: rest) :
    describes s (.stop_point row.1.id) (monitors_entry first (first :: rest)) = true :=
  (monitors_describes s _ _ _).mpr ⟨row, hrow, rfl⟩

end Entries

section Kinds

/-- The kinds collected so far, and the rest of a call's kinds. -/
def collect (out kinds : List MonitorKind) : List MonitorKind :=
  kinds.foldl (fun out kind => if kind ∈ out then out else out ++ [kind]) out

theorem collect_nodup (kinds : List MonitorKind) {out : List MonitorKind} (h : out.Nodup) :
    (collect out kinds).Nodup := by
  induction kinds generalizing out with
  | nil => exact h
  | cons kind rest ih =>
    show (collect (if kind ∈ out then out else out ++ [kind]) rest).Nodup
    split
    · exact ih h
    · exact ih (List.nodup_append.mpr ⟨h, List.nodup_singleton _, fun a ha b hb => by
        rw [List.mem_singleton.mp hb]
        rintro rfl
        contradiction⟩)

theorem collect_eq (kinds : List MonitorKind) {out : List MonitorKind} (h : (out ++ kinds).Nodup) :
    collect out kinds = out ++ kinds := by
  induction kinds generalizing out with
  | nil => exact (List.append_nil _).symm
  | cons kind rest ih =>
    have hnew : kind ∉ out := fun hm =>
      (List.nodup_append.mp h).2.2 kind hm kind List.mem_cons_self rfl
    show collect (if kind ∈ out then out else out ++ [kind]) rest = _
    rw [if_neg hnew, ih (by simpa using h), List.append_assoc]
    rfl

/-- A call arms as many monitor stops as it names kinds exactly when it repeats none. -/
theorem parse_monitor_kinds_perm {kinds : List MonitorKind} (h : kinds ≠ []) :
    (parse_monitor_kinds kinds).Perm kinds ↔ kinds.Nodup := by
  unfold parse_monitor_kinds
  rw [if_neg h]
  constructor
  · exact fun hp => hp.nodup_iff.mp (collect_nodup kinds List.nodup_nil)
  · exact fun hn => List.Perm.of_eq (collect_eq kinds hn)

end Kinds

section Necessary

variable {s : DebugSession} (h : KeptAsItStands s)
include h

variable {sp : StopPoint}

theorem stop_point_once (hsp : sp ∈ s.stop_points.rows) (hb : ¬ Bare (member_ids s) sp) :
    times s (.stop_point sp.id) = 1 :=
  (h.once _ (stop_target hsp)).resolve_left fun hn => hb ((named_stop_point hsp).mp hn)

theorem kept_deferrals : (s.pending_breakpoints.map PendingBreakpoint.bp_id).Nodup := by
  rw [List.nodup_iff_count_le_one]
  intro id
  by_cases hid : id ∈ s.pending_breakpoints.map PendingBreakpoint.bp_id
  · obtain ⟨pb, hpb, rfl⟩ := List.mem_map.mp hid
    have honce := (h.once _ (pending_target hpb)).resolve_left (not_named_pending _)
    rw [times_pending] at honce
    exact honce.le
  · rw [List.count_eq_zero_of_not_mem hid]
    exact Nat.zero_le 1

theorem kept_members (hsp : sp ∈ s.stop_points.rows) (hk : sp.kind = .line) (hin : InFamily s sp.id)
    : (s.pattern_sets.rows.countP fun fam => Describable s fam ∧ sp.id ∈ fam.members) = 1 := by
  have hm := (inFamily_iff s sp.id).mp hin
  have honce := stop_point_once h hsp fun hb => hb.1 hm
  rw [times_stop_point hsp, if_neg fun ha => ((alone_iff s sp).mp ha hk).1 hm] at honce
  exact honce

theorem kept_strangers (hsp : sp ∈ s.stop_points.rows) (hk : sp.kind ≠ .line) {fam : PatternStopSet}
    (hfam : fam ∈ s.pattern_sets.rows) (hd : Describable s fam) : sp.id ∉ fam.members := by
  intro hm
  have honce := stop_point_once h hsp (not_bare_of_kind hk)
  rw [times_stop_point hsp, if_pos ((alone_iff s sp).mpr fun hl => absurd hl hk),
    Nat.add_eq_right, List.countP_eq_zero] at honce
  exact honce fam hfam (decide_eq_true ⟨hd, hm⟩)

theorem kept_families (hsp : sp ∈ s.stop_points.rows) {fam : PatternStopSet}
    (hfam : fam ∈ s.pattern_sets.rows) (hd : Describable s fam) (hm : sp.id ∈ fam.members) :
    family_terms fam = stop_terms sp :=
  h.own _ (stop_target hsp) _ ((mem_entries s _).mpr (Or.inl ⟨fam, hfam, hd, rfl⟩))
    ((family_describes s hfam _ _).mpr hm)

/-- Two monitor stops of one setting share an entry, so they have the same terms. -/
theorem kept_groups {row row' : StopPoint × MonitorStop} (hrow : IsMonitor s row)
    (hrow' : IsMonitor s row') (heq : monitor_settings row = monitor_settings row') :
    stop_terms row.1 = stop_terms row'.1 ∧ row.1.condition = none := by
  obtain ⟨first, rest, hg, hmem, he⟩ := exists_group hrow
  have hmem' : row' ∈ first :: rest :=
    (hg.mem_iff row').mpr ⟨hrow', heq.symm.trans ((hg.mem_iff row).mp hmem).2⟩
  have hterms := h.own _ (stop_target hrow.1) _ he (group_describes hmem)
  have hterms' := h.own _ (stop_target hrow'.1) _ he (group_describes hmem')
  exact ⟨hterms.symm.trans hterms', (congrArg Terms.condition hterms).symm⟩

theorem kept_distinct {row row' : StopPoint × MonitorStop} (hrow : IsMonitor s row)
    (hrow' : IsMonitor s row') (heq : monitor_settings row = monitor_settings row')
    (hon : (stop_terms row.1).enabled = true) (hkind : row.2.kind = row'.2.kind) : row = row' := by
  obtain ⟨first, rest, hg, hmem, he⟩ := exists_group hrow
  have hmem' : row' ∈ first :: rest :=
    (hg.mem_iff row').mpr ⟨hrow', heq.symm.trans ((hg.mem_iff row).mp hmem).2⟩
  have henabled : (monitors_entry first (first :: rest)).enabled = true := by
    rw [← hon]
    exact congrArg Terms.enabled (h.own _ (stop_target hrow.1) _ he (group_describes hmem))
  have hkinds : ((first :: rest).map fun row => row.2.kind).Nodup :=
    (parse_monitor_kinds_perm (List.cons_ne_nil _ _)).mp
      (h.kinds _ (List.mem_filter.mpr ⟨he, henabled⟩) _ _ _ rfl)
  exact List.inj_on_of_nodup_map hkinds hmem hmem' hkind

/-- A replayed entry arms with the budget it was written with, so that is one to ask for. -/
theorem kept_bounded {t : RecordId × Terms} (ht : t ∈ targets s)
    (hn : t.1 ∉ (export_ s).dropped.undescribable) (hon : t.2.enabled = true) :
    Bounded t.2.trace t.2.trace_budget := by
  obtain ⟨e, he, hd, hbudget⟩ := (h.rearmed t ht hn t.2.trace_budget).mpr ⟨hon, rfl⟩
  have hterms := h.own t ht e (List.mem_filter.mp he).1 hd
  have htrace : e.args.trace = t.2.trace := congrArg Terms.trace hterms
  have hhits : e.args.trace_max_hits = t.2.trace_budget := congrArg Terms.trace_budget hterms
  rw [Entry.budget, htrace, hhits] at hbudget
  exact (trace_budget_for_eq_iff _ _).mp hbudget

theorem foldable_of_kept : Foldable s where
  deferrals := kept_deferrals h
  members _ hsp hk hin := kept_members h hsp hk hin
  strangers _ hsp hk _ hfam hd := kept_strangers h hsp hk hfam hd
  families _ hsp _ hfam hd hm := kept_families h hsp hfam hd hm
  unconditional _ hrow := (kept_groups h hrow hrow rfl).2
  grouped _ _ hrow hrow' heq := by
    have hterms := (kept_groups h hrow hrow' heq).1
    exact ⟨congrArg Terms.enabled hterms, congrArg Terms.trace_budget hterms⟩
  distinct _ _ hrow hrow' heq hon hkind := kept_distinct h hrow hrow' heq hon hkind
  bounded _ hsp hb hon :=
    kept_bounded h (stop_target hsp) (fun hn => hb ((named_stop_point hsp).mp hn)) hon
  deferred _ hpb := kept_bounded h (pending_target hpb) (not_named_pending _) rfl

end Necessary

section Sufficient

variable {s : DebugSession} (h : Foldable s)
include h

variable {t : RecordId × Terms}

theorem foldable_once (ht : t ∈ targets s) :
    t.1 ∈ (export_ s).dropped.undescribable ∨ times s t.1 = 1 := by
  rcases List.mem_append.mp ht with ht | ht
  · obtain ⟨sp, hsp, rfl⟩ := List.mem_map.mp ht
    rw [named_stop_point hsp, times_stop_point hsp]
    by_cases hb : Bare (member_ids s) sp
    · exact Or.inl hb
    refine Or.inr ?_
    by_cases hm : sp.kind = .line ∧ sp.id ∈ member_ids s
    · rw [h.members sp hsp hm.1 ((inFamily_iff s sp.id).mpr hm.2),
        if_neg fun ha => ((alone_iff s sp).mp ha hm.1).1 hm.2]
    · have hnone : ∀ fam ∈ s.pattern_sets.rows, Describable s fam → sp.id ∉ fam.members := by
        intro fam hfam hd hin
        by_cases hk : sp.kind = .line
        · exact hm ⟨hk, (mem_member_ids s sp.id).mpr ⟨fam, hfam, hin⟩⟩
        · exact h.strangers sp hsp hk fam hfam hd hin
      rw [List.countP_eq_zero.mpr fun fam hfam hin =>
          hnone fam hfam (of_decide_eq_true hin).1 (of_decide_eq_true hin).2,
        if_pos ((alone_iff s sp).mpr fun hk => ⟨fun hin => hm ⟨hk, hin⟩, hb⟩)]
  · obtain ⟨pb, hpb, rfl⟩ := List.mem_map.mp ht
    refine Or.inr ?_
    rw [times_pending]
    exact List.count_eq_one_of_mem h.deferrals (List.mem_map_of_mem hpb)

theorem foldable_group {first row : StopPoint × MonitorStop} {rest : List (StopPoint × MonitorStop)}
    (hg : IsGroup s first rest) (hrow : row ∈ first :: rest) :
    entry_terms (monitors_entry first (first :: rest)) = stop_terms row.1 := by
  obtain ⟨hmon, heq⟩ := (hg.mem_iff row).mp hrow
  obtain ⟨hfirst, -⟩ := (hg.mem_iff first).mp List.mem_cons_self
  obtain ⟨hon, hbudget⟩ := h.grouped first row hfirst hmon heq.symm
  have hall : ((first :: rest).all fun row => row.1.enabled && !row.1.spent) =
      (stop_terms row.1).enabled := by
    rw [Bool.eq_iff_iff, List.all_eq_true]
    constructor
    · exact fun ha => ha row hrow
    · intro hr row' hrow'
      obtain ⟨hmon', heq'⟩ := (hg.mem_iff row').mp hrow'
      have hsame := (h.grouped row row' hmon hmon' (heq.trans heq'.symm)).1
      exact hsame.symm.trans hr
  have htrace : first.1.trace = row.1.trace := (congrArg MonitorSettings.trace heq).symm
  have hcount : first.1.hit_count = row.1.hit_count :=
    (congrArg MonitorSettings.hit_count heq).symm
  show Terms.mk _ first.1.trace first.1.trace_budget first.1.hit_count none = _
  rw [htrace, hcount, hbudget, ← h.unconditional row hmon]
  exact congrArg (fun b => Terms.mk b row.1.trace row.1.trace_budget row.1.hit_count
    row.1.condition) hall

theorem foldable_own (ht : t ∈ targets s) {e : Entry} (he : e ∈ (export_ s).set.entries)
    (hd : describes s t.1 e = true) : entry_terms e = t.2 := by
  rcases List.mem_append.mp ht with ht | ht
  · obtain ⟨sp, hsp, rfl⟩ := List.mem_map.mp ht
    rcases (mem_entries s e).mp he with ⟨fam, hfam, hdesc, rfl⟩ | ⟨sp', hsp', ho⟩ | ⟨pb, -, rfl⟩ |
      ⟨g, hg, hge⟩
    · exact h.families sp hsp fam hfam hdesc ((family_describes s hfam _ _).mp hd)
    · obtain ⟨l, rfl⟩ := own_entry_eq ho
      have hid := RecordId.stop_point.inj ((stop_point_describes s sp' l _).mp hd)
      rw [List.inj_on_of_nodup_map s.stop_points.nodup hsp hsp' hid]
      rfl
    · cases (pending_describes s pb _).mp hd
    · obtain ⟨first, rest, hg2, rfl⟩ := group_entry_eq_some hge
      have hisg := isGroup_of hg hg2
      obtain ⟨row, hrow, hid⟩ := (monitors_describes s _ _ _).mp hd
      have hmon := ((hisg.mem_iff row).mp hrow).1
      rw [foldable_group h hisg hrow,
        List.inj_on_of_nodup_map s.stop_points.nodup hmon.1 hsp (RecordId.stop_point.inj hid).symm]
  · obtain ⟨pb, hpb, rfl⟩ := List.mem_map.mp ht
    rcases (mem_entries s e).mp he with ⟨fam, -, -, rfl⟩ | ⟨sp', -, ho⟩ | ⟨pb', hpb', rfl⟩ |
      ⟨g, -, hge⟩
    · simp [describes, family_entry, covers] at hd
    · obtain ⟨l, rfl⟩ := own_entry_eq ho
      cases (stop_point_describes s sp' l _).mp hd
    · have hid := RecordId.pending.inj ((pending_describes s pb' _).mp hd)
      rw [List.inj_on_of_nodup_map h.deferrals hpb hpb' hid]
      rfl
    · obtain ⟨first, rest, -, rfl⟩ := group_entry_eq_some hge
      obtain ⟨row, -, hid⟩ := (monitors_describes s _ _ _).mp hd
      cases hid

theorem foldable_bounded (ht : t ∈ targets s) (hn : t.1 ∉ (export_ s).dropped.undescribable)
    (hon : t.2.enabled = true) : Bounded t.2.trace t.2.trace_budget := by
  rcases List.mem_append.mp ht with ht | ht
  · obtain ⟨sp, hsp, rfl⟩ := List.mem_map.mp ht
    exact h.bounded sp hsp (fun hb => hn ((named_stop_point hsp).mpr hb)) hon
  · obtain ⟨pb, hpb, rfl⟩ := List.mem_map.mp ht
    exact h.deferred pb hpb

theorem foldable_rearmed (ht : t ∈ targets s) (hn : t.1 ∉ (export_ s).dropped.undescribable)
    (budget : Option ℕ) :
    (∃ e ∈ replayed (export_ s).set, describes s t.1 e = true ∧ e.budget = budget) ↔
      t.2.enabled = true ∧ t.2.trace_budget = budget := by
  have hbudget : ∀ e ∈ (export_ s).set.entries, describes s t.1 e = true →
      t.2.enabled = true → e.budget = t.2.trace_budget := by
    intro e he hd hon
    have hterms := foldable_own h ht he hd
    have htrace : e.args.trace = t.2.trace := congrArg Terms.trace hterms
    have hhits : e.args.trace_max_hits = t.2.trace_budget := congrArg Terms.trace_budget hterms
    rw [Entry.budget, htrace, hhits]
    exact (trace_budget_for_eq_iff _ _).mpr (foldable_bounded h ht hn hon)
  constructor
  · rintro ⟨e, he, hd, rfl⟩
    obtain ⟨he, hon⟩ := List.mem_filter.mp he
    have hon' : t.2.enabled = true := by
      rw [← foldable_own h ht he hd]
      exact hon
    exact ⟨hon', (hbudget e he hd hon').symm⟩
  · rintro ⟨hon, rfl⟩
    have honce := (foldable_once h ht).resolve_left hn
    obtain ⟨e, he, hd⟩ := List.countP_pos_iff.mp (honce.symm ▸ Nat.one_pos : 0 < times s t.1)
    refine ⟨e, List.mem_filter.mpr ⟨he, ?_⟩, hd, hbudget e he hd hon⟩
    rw [← hon, ← foldable_own h ht he hd]
    rfl

theorem foldable_kinds {e : Entry} (he : e ∈ replayed (export_ s).set) {kinds : List MonitorKind}
    {class_ : Option String} {ms : Option ℕ} (hl : e.locator = .monitor_stop kinds class_ ms) :
    (parse_monitor_kinds kinds).Perm kinds := by
  obtain ⟨he, hon⟩ := List.mem_filter.mp he
  rcases (mem_entries s e).mp he with ⟨fam, -, -, rfl⟩ | ⟨sp, -, ho⟩ | ⟨pb, -, rfl⟩ | ⟨g, hg, hge⟩
  · cases hl
  · unfold own_entry at ho
    split at ho <;> try split at ho
    all_goals cases ho <;> cases hl
  · cases hl
  · obtain ⟨first, rest, hg2, rfl⟩ := group_entry_eq_some hge
    have hisg := isGroup_of hg hg2
    obtain ⟨rfl, -, -⟩ := Locator.monitor_stop.inj hl
    refine (parse_monitor_kinds_perm (List.cons_ne_nil _ _)).mpr ?_
    show ((first :: rest).map fun row => row.2.kind).Nodup
    refine hisg.nodup.map_on fun row hrow row' hrow' hkind => ?_
    obtain ⟨hmon, heq⟩ := (hisg.mem_iff row).mp hrow
    obtain ⟨hmon', heq'⟩ := (hisg.mem_iff row').mp hrow'
    exact h.distinct row row' hmon hmon' (heq.trans heq'.symm)
      (List.all_eq_true.mp hon row hrow) hkind

theorem kept_of_foldable : KeptAsItStands s where
  once _ ht := foldable_once h ht
  own _ ht _ he hd := foldable_own h ht he hd
  rearmed _ ht hn budget := foldable_rearmed h ht hn budget
  kinds _ he _ _ _ hl := foldable_kinds h he hl

end Sufficient

/-- Export keeps each stop point as it stands exactly in the sessions whose shared entries are
true of every record they stand for. -/
theorem export_keeps_iff (s : DebugSession) : KeptAsItStands s ↔ Foldable s :=
  ⟨foldable_of_kept, kept_of_foldable⟩

section SharedEntry

def pair_options : Arming.StopOptions :=
  ⟨none, none, none, none, true, [], some 1, 0, none⟩

/-- One hit has been charged to the budget of one. -/
def spent_half : StopPoint :=
  { pair_options.stop_point ⟨"mon_blocked_", 1⟩ [] (.monitor ⟨.blocked, true, none, none⟩) with
    enabled := false, trace_budget := some 0, hits := 1 }

def live_half : StopPoint :=
  pair_options.stop_point ⟨"mon_acquired_", 2⟩ [2] (.monitor ⟨.acquired, true, none, none⟩)

/-- `debug.set_monitor_stop` with `trace_max_hits: 1` arms the contended pair; one thread has
begun to wait for a lock, and the stop point that saw it has used up its budget. -/
def half_spent : DebugSession :=
  { DebugSession.new with
    stop_points := (Table.empty.insert spent_half).insert live_half, stop_seq := 2 }

/-- The other half of the pair is enabled with one hit left, and its entry is disabled. -/
theorem half_spent_not_kept : ¬ KeptAsItStands half_spent := by
  intro h
  have hspent : IsMonitor half_spent (spent_half, ⟨.blocked, true, none, none⟩) :=
    ⟨by decide, rfl⟩
  have hlive : IsMonitor half_spent (live_half, ⟨.acquired, true, none, none⟩) := ⟨by decide, rfl⟩
  have hsame := (kept_groups h hspent hlive rfl).1
  exact absurd (congrArg Terms.enabled hsame) (by decide)

end SharedEntry

end JavaDebug.FaithfulExports
