import JavaDebug.Forecasts

/-!
When the forecast is exact. The JVM reports a class as it was loaded, but an
interface without its superclass and a nested class with the modifiers of its
InnerClasses entry. Then the predicted codes are those of the aspects in which
the files differ, as long as both conventions leave the shape alone and no name
is taken for one that the JVM made up.
-/
namespace JavaDebug.ForecastAspects

open ClassFiles Forecasts
open ClassNames (descriptor_of dot_to_slash decode_segments decode_internal_name
  begins_with_digit is_ascii_digit decode_no_dot)

section Aspects

inductive Aspect
  | class_modifiers
  | hierarchy
  | fields
  | added
  | removed
  | method_modifiers
  deriving DecidableEq

def Aspect.code : Aspect → ℕ
  | class_modifiers => 70
  | hierarchy => 66
  | fields => 64
  | added => 63
  | removed => 67
  | method_modifiers => 71

/-- The name and the descriptor of a member, and the modifiers that are compared. -/
abbrev Trait := (String × String) × UInt16

def class_modifiers (f : ClassFile) : UInt16 := f.access_flags &&& CLASS_MODIFIER_MASK

def field_traits (f : ClassFile) : List Trait :=
  f.fields.map fun m => ((m.name, m.descriptor), m.access_flags &&& FIELD_MODIFIER_MASK)

def method_traits (f : ClassFile) : List Trait :=
  f.methods.map fun m => ((m.name, m.descriptor), m.access_flags &&& METHOD_MODIFIER_MASK)

/-- A member of `after` that `before` has not. -/
def Gains (before after : List Trait) : Prop := ∃ t ∈ after, ∀ u ∈ before, u.1 ≠ t.1

/-- A member of both whose modifiers differ. -/
def Remodifies (before after : List Trait) : Prop :=
  ∃ t ∈ after, ∃ u ∈ before, u.1 = t.1 ∧ u.2 ≠ t.2

/-- The files differ in this aspect. -/
def Differs (l b : ClassFile) : Aspect → Prop
  | .class_modifiers => class_modifiers l ≠ class_modifiers b
  | .hierarchy => l.super_class ≠ b.super_class ∨ ¬ ∀ n, n ∈ l.interfaces ↔ n ∈ b.interfaces
  | .fields => ¬ ∀ t, t ∈ field_traits l ↔ t ∈ field_traits b
  | .added => Gains (method_traits l) (method_traits b)
  | .removed => Gains (method_traits b) (method_traits l)
  | .method_modifiers => Remodifies (method_traits l) (method_traits b)

end Aspects

section Reports

def is_interface (f : ClassFile) : Bool := f.access_flags &&& 0x0200 ≠ 0

def named_classes (f : ClassFile) : List String := f.super_class.toList ++ f.interfaces

/-- A class file as a class can be loaded from it. -/
structure Declared where
  file : ClassFile
  rooted : file.super_class = none ↔ file.this_class = "java.lang.Object"
  interface_root : is_interface file = true → file.super_class = some "java.lang.Object"
  dotted : ∀ name ∈ named_classes file, '/' ∉ name.toList
  interfaces_once : file.interfaces.Nodup
  fields_once : ((field_traits file).map Prod.fst).Nodup
  methods_once : ((method_traits file).map Prod.fst).Nodup

def signature_of (name : String) : String :=
  String.ofList (descriptor_of (name.toList.map dot_to_slash))

def reported (mask : UInt16) (m : MemberInfo) : Trait :=
  ((m.name, m.signature), mod_bits_u16 m.mod_bits &&& mask)

/-- The JVM's answers about a class loaded from `file`, whose own InnerClasses entry, if it has
one, has the modifiers `inner`. -/
structure Reports (file : ClassFile) (inner : Option UInt16) (r : ClassReads) : Prop where
  modifiers : ∃ bits, r.get_modifiers = .ok bits ∧
    mod_bits_u16 bits &&& CLASS_MODIFIER_MASK =
      inner.getD file.access_flags &&& CLASS_MODIFIER_MASK
  superclass : ∃ parent : Option TypeId, r.get_superclass = .ok parent ∧
    parent.toList.map r.get_signature =
      (if is_interface file then [] else file.super_class.toList).map fun s =>
        .ok (signature_of s)
  interfaces : ∃ (ids : List TypeId) (names : List String), r.get_interfaces = .ok ids ∧
    names.Perm file.interfaces ∧
    ids.map r.get_signature = names.map fun s => .ok (signature_of s)
  fields : ∃ l, r.get_fields = .ok l ∧
    (l.map (reported FIELD_MODIFIER_MASK)).Perm (field_traits file)
  methods : ∃ l, r.get_methods = .ok l ∧
    (l.map (reported METHOD_MODIFIER_MASK)).Perm (method_traits file)

structure LoadedClass where
  declared : Declared
  inner : Option UInt16
  reads : ClassReads
  reports : Reports declared.file inner reads

/-- A build of the same class. -/
structure Rebuild (l : LoadedClass) where
  declared : Declared
  same_class : declared.file.this_class = l.declared.file.this_class

/-- The codes that are predicted are those of the aspects in which the files differ. -/
def Exact (l : LoadedClass) (b : Rebuild l) : Prop :=
  ∃ shape, loaded_class_shape l.reads = .ok shape ∧
    ∀ code, code ∈ (forecast_redefine shape
        (built_class_shape b.declared.file)).refusals.map PredictedRefusal.code ↔
      ∃ a : Aspect, a.code = code ∧ Differs l.declared.file b.declared.file a

end Reports

section Members

def trait (m : DeclaredMember) : Trait := (m.key, m.modifiers)

theorem gained_iff (before after : List DeclaredMember) : members_gained before after ≠ [] ↔
    Gains (before.map trait) (after.map trait) := by
  unfold members_gained Gains
  rw [ne_eq, List.map_eq_nil_iff, List.filter_eq_nil_iff]
  simp only [not_forall, Bool.not_eq_true', exists_prop, List.any_eq_false, decide_eq_true_eq]
  constructor
  · rintro ⟨m, hm, hno⟩
    refine ⟨trait m, List.mem_map_of_mem hm, fun u hu heq => ?_⟩
    obtain ⟨b, hb, rfl⟩ := List.mem_map.mp hu
    exact hno ⟨b, hb, not_not.mpr heq⟩
  · rintro ⟨t, ht, hno⟩
    obtain ⟨m, hm, rfl⟩ := List.mem_map.mp ht
    refine ⟨m, hm, ?_⟩
    rintro ⟨b, hb, heq⟩
    exact hno (trait b) (List.mem_map_of_mem hb) (not_not.mp heq)

/-- With each member listed once, the first of a key is the only one. -/
theorem find_key {loaded : List DeclaredMember} (h : ((loaded.map trait).map Prod.fst).Nodup)
    (k : String × String) (was : DeclaredMember) :
    loaded.find? (fun l => l.key = k) = some was ↔ was ∈ loaded ∧ was.key = k := by
  induction loaded with
  | nil => simp
  | cons m rest ih =>
    rw [List.map_cons, List.map_cons, List.nodup_cons] at h
    by_cases hk : m.key = k
    · rw [List.find?_cons_of_pos (by simpa using hk), Option.some.injEq]
      constructor
      · rintro rfl
        exact ⟨List.mem_cons_self, hk⟩
      · rintro ⟨hm, hw⟩
        rcases List.mem_cons.mp hm with rfl | hm
        · rfl
        · refine absurd ?_ h.1
          refine List.mem_map.mpr ⟨trait was, List.mem_map_of_mem hm, ?_⟩
          exact hw.trans hk.symm
    · rw [List.find?_cons_of_neg (by simpa using hk), ih h.2]
      constructor
      · exact fun hw => ⟨List.mem_cons_of_mem m hw.1, hw.2⟩
      · rintro ⟨hm, hw⟩
        rcases List.mem_cons.mp hm with rfl | hm
        · exact absurd hw hk
        · exact ⟨hm, hw⟩

theorem remodified_iff {loaded : List DeclaredMember} (built : List DeclaredMember)
    (h : ((loaded.map trait).map Prod.fst).Nodup) : members_remodified loaded built ≠ [] ↔
      Remodifies (loaded.map trait) (built.map trait) := by
  unfold members_remodified Remodifies
  rw [ne_eq, List.filterMap_eq_nil_iff]
  simp only [not_forall, Option.bind_eq_none_iff, find_key h, exists_prop]
  constructor
  · rintro ⟨b, hb, was, ⟨hwas, hkey⟩, hmod⟩
    refine ⟨trait b, List.mem_map_of_mem hb, trait was, List.mem_map_of_mem hwas, hkey, ?_⟩
    intro heq
    have hsame : was.modifiers = b.modifiers := heq
    rw [if_neg (not_not.mpr hsame)] at hmod
    exact hmod rfl
  · rintro ⟨t, ht, u, hu, hkey, hmod⟩
    obtain ⟨b, hb, rfl⟩ := List.mem_map.mp ht
    obtain ⟨was, hwas, rfl⟩ := List.mem_map.mp hu
    have hother : was.modifiers ≠ b.modifiers := hmod
    refine ⟨b, hb, was, ⟨hwas, hkey⟩, ?_⟩
    rw [if_pos hother]
    exact Option.some_ne_none _

variable {before after : List Trait}

theorem gains_perm {before' after' : List Trait} (hb : before'.Perm before) (ha : after'.Perm after)
    : Gains before' after' ↔ Gains before after := by
  unfold Gains
  simp only [hb.mem_iff, ha.mem_iff]

theorem remodifies_perm {before' after' : List Trait} (hb : before'.Perm before)
    (ha : after'.Perm after) : Remodifies before' after' ↔ Remodifies before after := by
  unfold Remodifies
  simp only [hb.mem_iff, ha.mem_iff]

theorem same_of_key {l : List Trait} (h : (l.map Prod.fst).Nodup) {t u : Trait} (ht : t ∈ l)
    (hu : u ∈ l) (hk : t.1 = u.1) : t = u := List.inj_on_of_nodup_map h ht hu hk

/-- Two sets of members differ when one gains a member or a common one is remodified. -/
theorem schema_iff (hb : (before.map Prod.fst).Nodup) :
    (Gains before after ∨ Gains after before ∨ Remodifies before after) ↔
      ¬ ∀ t, t ∈ before ↔ t ∈ after := by
  constructor
  · rintro (⟨t, ht, hno⟩ | ⟨t, ht, hno⟩ | ⟨t, ht, u, hu, hk, hm⟩) hall
    · exact hno t ((hall t).mpr ht) rfl
    · exact hno t ((hall t).mp ht) rfl
    · exact hm (congrArg Prod.snd (same_of_key hb hu ((hall t).mpr ht) hk))
  · intro hne
    by_contra hnone
    obtain ⟨hadd, hnone⟩ := not_or.mp hnone
    obtain ⟨hdel, hmod⟩ := not_or.mp hnone
    unfold Gains at hadd hdel
    unfold Remodifies at hmod
    push Not at hadd hdel hmod
    refine hne fun t => ⟨fun ht => ?_, fun ht => ?_⟩
    · obtain ⟨u, hu, hk⟩ := hdel t ht
      rwa [Prod.ext hk.symm (hmod u hu t ht hk.symm)]
    · obtain ⟨u, hu, hk⟩ := hadd t ht
      rwa [← Prod.ext hk (hmod t ht u hu hk)]

end Members

section Codes

theorem counted_nil (head kind : String) (labels : List String) :
    counted head kind labels = [] ↔ labels = [] := by
  unfold counted
  cases labels <;> simp

theorem refusal_code (code c : ℕ) (name : String) (details : List String) :
    c ∈ (refusal code name details).map PredictedRefusal.code ↔ details ≠ [] ∧ code = c := by
  unfold refusal
  cases details with
  | nil => simp
  | cons d rest => simp [eq_comm]

theorem modifier_changes_iff (loaded built : ClassShape) :
    modifier_changes loaded built ≠ [] ↔ loaded.access_flags ≠ built.access_flags := by
  unfold modifier_changes
  split <;> simp_all

theorem hierarchy_changes_iff (loaded built : ClassShape) : hierarchy_changes loaded built ≠ [] ↔
    loaded.super_class ≠ built.super_class ∨ loaded.interfaces ≠ built.interfaces := by
  unfold hierarchy_changes
  by_cases hs : loaded.super_class = built.super_class
  · by_cases hi : loaded.interfaces = built.interfaces
    · simp [hs, hi]
    · simp [hs, hi]
  · simp [hs]

/-- What the shapes say of an aspect. -/
def Predicted (loaded built : ClassShape) : Aspect → Prop
  | .class_modifiers => loaded.access_flags ≠ built.access_flags
  | .hierarchy => loaded.super_class ≠ built.super_class ∨ loaded.interfaces ≠ built.interfaces
  | .fields => ¬ ∀ t, t ∈ loaded.fields.map trait ↔ t ∈ built.fields.map trait
  | .added => Gains (loaded.methods.map trait) (built.methods.map trait)
  | .removed => Gains (built.methods.map trait) (loaded.methods.map trait)
  | .method_modifiers => Remodifies (loaded.methods.map trait) (built.methods.map trait)

/-- Every member is listed once. -/
structure Distinct (s : ClassShape) : Prop where
  fields : ((s.fields.map trait).map Prod.fst).Nodup
  methods : ((s.methods.map trait).map Prod.fst).Nodup

theorem forecast_codes {loaded : ClassShape} (hl : Distinct loaded) (built : ClassShape) (code : ℕ)
    :
    code ∈ (forecast_redefine loaded built).refusals.map PredictedRefusal.code ↔
      ∃ a : Aspect, a.code = code ∧ Predicted loaded built a := by
  have hfields : field_changes loaded.fields built.fields ≠ [] ↔
      Predicted loaded built .fields := by
    unfold field_changes
    rw [ne_eq, List.append_eq_nil_iff, List.append_eq_nil_iff, counted_nil, counted_nil,
      counted_nil, not_and_or, not_and_or, or_assoc]
    exact ((or_congr (gained_iff _ _) (or_congr (gained_iff _ _)
      (remodified_iff _ hl.fields))).trans (schema_iff hl.fields))
  unfold forecast_redefine
  simp only [List.map_append, List.mem_append, refusal_code, modifier_changes_iff,
    hierarchy_changes_iff, hfields, ne_eq, counted_nil]
  rw [← ne_eq (members_gained loaded.methods built.methods), gained_iff,
    ← ne_eq (members_gained built.methods loaded.methods), gained_iff,
    ← ne_eq (members_remodified loaded.methods built.methods), remodified_iff _ hl.methods]
  constructor
  · rintro (((((⟨h, hc⟩ | ⟨h, hc⟩) | ⟨h, hc⟩) | ⟨h, hc⟩) | ⟨h, hc⟩) | ⟨h, hc⟩)
    · exact ⟨.class_modifiers, hc, h⟩
    · exact ⟨.hierarchy, hc, h⟩
    · exact ⟨.fields, hc, h⟩
    · exact ⟨.added, hc, h⟩
    · exact ⟨.removed, hc, h⟩
    · exact ⟨.method_modifiers, hc, h⟩
  · rintro ⟨a, hc, h⟩
    cases a with
    | class_modifiers => exact Or.inl (Or.inl (Or.inl (Or.inl (Or.inl ⟨h, hc⟩))))
    | hierarchy => exact Or.inl (Or.inl (Or.inl (Or.inl (Or.inr ⟨h, hc⟩))))
    | fields => exact Or.inl (Or.inl (Or.inl (Or.inr ⟨h, hc⟩)))
    | added => exact Or.inl (Or.inl (Or.inr ⟨h, hc⟩))
    | removed => exact Or.inl (Or.inr ⟨h, hc⟩)
    | method_modifiers => exact Or.inr ⟨h, hc⟩

end Codes

section Names

/-- No segment after the first begins with a digit. -/
def Plain (s : List Char) : Prop :=
  ∀ pre rest, s = pre ++ '.' :: rest → begins_with_digit rest = false

theorem plain_cons (c : Char) (s : List Char) :
    Plain (c :: s) ↔ (c = '.' → begins_with_digit s = false) ∧ Plain s := by
  constructor
  · intro h
    refine ⟨fun hc => h [] s (by rw [hc]; rfl), fun pre rest hs => h (c :: pre) rest ?_⟩
    rw [hs]
    rfl
  · rintro ⟨hc, h⟩ pre rest hs
    cases pre with
    | nil =>
      obtain ⟨rfl, rfl⟩ := List.cons.inj hs
      exact hc rfl
    | cons d pre => exact h pre rest (List.cons.inj hs).2

theorem digit_slashed (s : List Char) :
    begins_with_digit (s.map dot_to_slash) = begins_with_digit s := by
  cases s with
  | nil => rfl
  | cons c rest =>
    show is_ascii_digit (dot_to_slash c) = is_ascii_digit c
    unfold dot_to_slash
    split
    · rename_i hc
      rw [hc]
      rfl
    · rfl

/-- A name comes back from its signature with its dots, if it is plain, and else with a slash. -/
theorem decode_slashed {s : List Char} (h : '/' ∉ s) :
    (Plain s → decode_segments (s.map dot_to_slash) = s) ∧
    (¬ Plain s → '/' ∈ decode_segments (s.map dot_to_slash)) := by
  induction s with
  | nil => exact ⟨fun _ => rfl, fun hp => absurd (fun pre rest hs => by simp at hs) hp⟩
  | cons c rest ih =>
    obtain ⟨hc, hrest⟩ := not_or.mp (mt List.mem_cons.mpr h)
    obtain ⟨hyes, hno⟩ := ih hrest
    rw [plain_cons, List.map_cons]
    by_cases hdot : c = '.'
    · have hslash : dot_to_slash c = '/' := by
        rw [dot_to_slash, if_pos hdot]
      rw [hslash, decode_segments, if_pos rfl, digit_slashed, hdot]
      cases hd : begins_with_digit rest with
      | true =>
        refine ⟨fun hp => ?_, fun _ => List.mem_cons_self⟩
        cases hp.1 rfl
      | false =>
        refine ⟨fun hp => congrArg _ (hyes hp.2), fun hp => List.mem_cons_of_mem _ (hno ?_)⟩
        exact fun hplain => hp ⟨fun _ => rfl, hplain⟩
    · have hsame : dot_to_slash c = c := by
        rw [dot_to_slash, if_neg hdot]
      rw [hsame, decode_segments, if_neg (Ne.symm hc)]
      refine ⟨fun hp => congrArg _ (hyes hp.2), fun hp => List.mem_cons_of_mem _ (hno ?_)⟩
      exact fun hplain => hp ⟨fun hc => absurd hc hdot, hplain⟩

/-- The name that the loaded side reads for a class. -/
def spelled (name : String) : String := dotted_from_signature (signature_of name)

theorem spelled_eq (name : String) :
    (spelled name).toList = decode_segments (name.toList.map dot_to_slash) := by
  have hdot : '.' ∉ name.toList.map dot_to_slash := by
    intro hm
    obtain ⟨c, -, hc⟩ := List.mem_map.mp hm
    unfold dot_to_slash at hc
    split at hc
    · cases hc
    · exact absurd hc ‹_›
  have hbody : (name.toList.map dot_to_slash ++ [';']).getLast? = some ';' := List.getLast?_concat
  unfold spelled dotted_from_signature signature_of descriptor_of
  simp only [String.toList_ofList, hbody, if_true, List.dropLast_concat]
  exact decode_no_dot _ hdot

theorem spelled_plain {name : String} (h : '/' ∉ name.toList) (hp : Plain name.toList) :
    spelled name = name :=
  String.toList_inj.mp ((spelled_eq name).trans ((decode_slashed h).1 hp))

theorem spelled_marked {name : String} (h : '/' ∉ name.toList) (hp : ¬ Plain name.toList) :
    '/' ∈ (spelled name).toList := by
  rw [spelled_eq]
  exact (decode_slashed h).2 hp

end Names

section LoadedShape

theorem named_all {r : ClassReads} (failure : String) {ids : List TypeId} {names : List String}
    (h : ids.map r.get_signature = names.map fun s => .ok (signature_of s)) :
    ids.mapM (named r failure) = .ok (names.map spelled) := by
  induction ids generalizing names with
  | nil =>
    cases names with
    | nil => rfl
    | cons n rest => cases h
  | cons id ids ih =>
    cases names with
    | nil => cases h
    | cons n rest =>
      rw [List.map_cons, List.map_cons, List.cons.injEq] at h
      rw [List.mapM_cons, ih h.2, named, h.1]
      rfl

theorem named_parent {r : ClassReads} (failure : String) {parent : Option TypeId} {f : ClassFile}
    (h : parent.toList.map r.get_signature =
      (if is_interface f then [] else f.super_class.toList).map fun s => .ok (signature_of s)) :
    parent.mapM (named r failure) =
      .ok (if is_interface f then none else f.super_class.map spelled) := by
  cases hi : is_interface f with
  | true =>
    rw [hi, if_pos rfl] at h
    cases parent with
    | none => rfl
    | some id => cases h
  | false =>
    rw [hi, if_neg Bool.false_ne_true] at h
    cases hs : f.super_class with
    | none =>
      rw [hs] at h
      cases parent with
      | none => rfl
      | some id => cases h
    | some s =>
      rw [hs] at h
      cases parent with
      | none => cases h
      | some id =>
        have hsig : r.get_signature id = .ok (signature_of s) := (List.cons.inj h).1
        show (named r failure id).map some = _
        rw [named, hsig]
        rfl

theorem loaded_shape (l : LoadedClass) : ∃ shape, loaded_class_shape l.reads = .ok shape ∧
    shape.access_flags = l.inner.getD l.declared.file.access_flags &&& CLASS_MODIFIER_MASK ∧
    shape.super_class = (if is_interface l.declared.file then none
      else l.declared.file.super_class.map spelled) ∧
    (∃ names : List String, names.Perm l.declared.file.interfaces ∧
      shape.interfaces = (names.map spelled).insertionSort (· ≤ ·)) ∧
    (shape.fields.map trait).Perm (field_traits l.declared.file) ∧
    (shape.methods.map trait).Perm (method_traits l.declared.file) := by
  obtain ⟨bits, hbits, hmod⟩ := l.reports.modifiers
  obtain ⟨parent, hparent, hsuper⟩ := l.reports.superclass
  obtain ⟨ids, names, hids, hperm, hnames⟩ := l.reports.interfaces
  obtain ⟨fs, hfs, hfields⟩ := l.reports.fields
  obtain ⟨ms, hms, hmethods⟩ := l.reports.methods
  have hsup := named_parent "Failed to read the loaded superclass's name: " hsuper
  have hint := named_all "Failed to read a loaded interface's name: " hnames
  refine ⟨{
    access_flags := mod_bits_u16 bits &&& CLASS_MODIFIER_MASK
    super_class := if is_interface l.declared.file then none
      else l.declared.file.super_class.map spelled
    interfaces := (names.map spelled).insertionSort (· ≤ ·)
    fields := fs.map fun f => .field f.name f.signature (mod_bits_u16 f.mod_bits)
    methods := ms.map fun m => .method m.name m.signature (mod_bits_u16 m.mod_bits) },
    ?_, hmod, rfl, ⟨names, hperm, rfl⟩, ?_, ?_⟩
  · unfold loaded_class_shape
    simp only [hbits, hparent, hids, hfs, hms, Except.mapError]
    simp only [bind, Except.bind, hsup, hint]
    rfl
  · rw [List.map_map]
    exact hfields
  · rw [List.map_map]
    exact hmethods

end LoadedShape

section Exactness

variable {l : LoadedClass} (b : Rebuild l)

theorem sorted_perm {a c : List String} (h : a.insertionSort (· ≤ ·) = c.insertionSort (· ≤ ·)) :
    a.Perm c :=
  (List.perm_insertionSort _ a).symm.trans (h ▸ List.perm_insertionSort _ c)

theorem perm_sorted {a c : List String} (h : a.Perm c) :
    a.insertionSort (· ≤ ·) = c.insertionSort (· ≤ ·) :=
  List.Perm.eq_of_pairwise' (List.pairwise_insertionSort _ a) (List.pairwise_insertionSort _ c)
    (((List.perm_insertionSort _ a).trans h).trans (List.perm_insertionSort _ c).symm)

/-- Every superclass and interface is spelled as the class file spells it. -/
def AllPlain (f : ClassFile) : Prop := ∀ name ∈ named_classes f, Plain name.toList

theorem spelled_all {names : List String} {f : Declared}
    (hsub : ∀ n ∈ names, n ∈ named_classes f.file) (h : AllPlain f.file) :
    names.map spelled = names := by
  refine (List.map_congr_left fun n hn => ?_).trans (List.map_id names)
  exact spelled_plain (f.dotted n (hsub n hn)) (h n (hsub n hn))

/-- The hierarchy is predicted to change where it does, for every interface, and for a name that
is taken for one that the JVM made up. -/
theorem hierarchy_predicted {shape : ClassShape}
    (hsup : shape.super_class = (if is_interface l.declared.file then none
      else l.declared.file.super_class.map spelled)) {names : List String}
    (hperm : names.Perm l.declared.file.interfaces)
    (hint : shape.interfaces = (names.map spelled).insertionSort (· ≤ ·)) :
    Predicted shape (built_class_shape b.declared.file) .hierarchy ↔
      Differs l.declared.file b.declared.file .hierarchy ∨
        is_interface l.declared.file = true ∨ ¬ AllPlain l.declared.file := by
  have hslash : ∀ n ∈ named_classes b.declared.file, '/' ∉ n.toList := b.declared.dotted
  show shape.super_class ≠ b.declared.file.super_class ∨ shape.interfaces ≠
    b.declared.file.interfaces.insertionSort (· ≤ ·) ↔ _
  by_cases hi : is_interface l.declared.file = true
  · rw [if_pos hi] at hsup
    refine iff_of_true (Or.inl fun heq => ?_) (Or.inr (Or.inl hi))
    rw [hsup] at heq
    have hroot := b.declared.rooted.mp heq.symm
    rw [b.same_class, ← l.declared.rooted, l.declared.interface_root hi] at hroot
    cases hroot
  rw [if_neg hi] at hsup
  by_cases hplain : AllPlain l.declared.file
  · have hs : shape.super_class = l.declared.file.super_class := by
      rw [hsup]
      cases hc : l.declared.file.super_class with
      | none => rfl
      | some s =>
        have hm : s ∈ named_classes l.declared.file :=
          List.mem_append_left _ (Option.mem_toList.mpr hc)
        exact congrArg some (spelled_plain (l.declared.dotted s hm) (hplain s hm))
    rw [spelled_all (f := l.declared)
      (fun n hn => List.mem_append_right _ (hperm.mem_iff.mp hn)) hplain] at hint
    rw [hs, hint]
    have hsets : names.insertionSort (· ≤ ·) =
        b.declared.file.interfaces.insertionSort (· ≤ ·) ↔
        ∀ n, n ∈ l.declared.file.interfaces ↔ n ∈ b.declared.file.interfaces := by
      constructor
      · exact fun h n => hperm.symm.mem_iff.trans (sorted_perm h).mem_iff
      · intro h
        refine perm_sorted (hperm.trans ?_)
        exact (List.perm_ext_iff_of_nodup l.declared.interfaces_once
          b.declared.interfaces_once).mpr h
    unfold Differs
    rw [ne_eq (names.insertionSort _), hsets]
    exact ⟨Or.inl, fun h => h.elim id fun h => h.elim (absurd · hi) (absurd hplain)⟩
  · refine iff_of_true ?_ (Or.inr (Or.inr hplain))
    unfold AllPlain at hplain
    simp only [not_forall] at hplain
    obtain ⟨n, hn, hp⟩ := hplain
    have hmark := spelled_marked (l.declared.dotted n hn) hp
    rcases List.mem_append.mp hn with hs | hn
    · refine Or.inl fun heq => ?_
      rw [hsup, Option.mem_toList.mp hs] at heq
      exact hslash (spelled n) (List.mem_append_left _ (Option.mem_toList.mpr heq.symm)) hmark
    · refine Or.inr fun heq => ?_
      rw [hint] at heq
      have hm : spelled n ∈ names.map spelled :=
        List.mem_map_of_mem (hperm.mem_iff.mpr hn)
      exact hslash (spelled n)
        (List.mem_append_right _ ((sorted_perm heq).mem_iff.mp hm)) hmark

/-- The modifiers that the JVM reports. -/
def reported_modifiers (l : LoadedClass) : UInt16 :=
  l.inner.getD l.declared.file.access_flags &&& CLASS_MODIFIER_MASK

/-- The InnerClasses entry has the modifiers of the class itself, or the build has neither; and
the hierarchy changes, or the class is not an interface and has no superclass or interface with a
segment that begins with a digit. -/
def Readable (l : LoadedClass) (b : Rebuild l) : Prop :=
  (reported_modifiers l = class_modifiers l.declared.file ∨
    (class_modifiers b.declared.file ≠ reported_modifiers l ∧
      class_modifiers b.declared.file ≠ class_modifiers l.declared.file)) ∧
  (Differs l.declared.file b.declared.file .hierarchy ∨
    (is_interface l.declared.file = false ∧ AllPlain l.declared.file))

theorem code_injective {a c : Aspect} (h : a.code = c.code) : a = c := by
  cases a <;> cases c <;> first | rfl | cases h

theorem agree_iff (r f g : UInt16) : (r ≠ g ↔ f ≠ g) ↔ (r = f ∨ (g ≠ r ∧ g ≠ f)) := by
  by_cases hrf : r = f
  · simp [hrf]
  · by_cases hrg : r = g
    · subst hrg
      refine iff_of_false (fun h => h.mpr (Ne.symm hrf) rfl) ?_
      rintro (h | h)
      · exact hrf h
      · exact h.1 rfl
    · simp only [ne_eq, hrg, not_false_eq_true, true_iff, hrf, false_or]
      exact ⟨fun h => ⟨fun h' => hrg h'.symm, fun h' => h h'.symm⟩, fun h h' => h.2 h'.symm⟩

theorem exact_aspects {shape : ClassShape} (hshape : loaded_class_shape l.reads = .ok shape)
    (hdistinct : Distinct shape) : Exact l b ↔ ∀ a : Aspect,
      (Predicted shape (built_class_shape b.declared.file) a ↔
        Differs l.declared.file b.declared.file a) := by
  constructor
  · rintro ⟨s, hs, hcodes⟩ a
    obtain rfl := Except.ok.inj (hshape.symm.trans hs)
    have := (forecast_codes hdistinct (built_class_shape b.declared.file) a.code).symm.trans
      (hcodes a.code)
    constructor
    · intro h
      obtain ⟨c, hc, hd⟩ := this.mp ⟨a, rfl, h⟩
      rwa [← code_injective hc]
    · intro h
      obtain ⟨c, hc, hd⟩ := this.mpr ⟨a, rfl, h⟩
      rwa [← code_injective hc]
  · intro h
    refine ⟨shape, hshape, fun code => ?_⟩
    rw [forecast_codes hdistinct]
    exact exists_congr fun a => and_congr_right fun _ => h a

/-- The forecast is exact precisely when the loaded class is read as its file has it. -/
theorem forecast_exact_iff (l : LoadedClass) (b : Rebuild l) : Exact l b ↔ Readable l b := by
  obtain ⟨shape, hshape, hmod, hsup, ⟨names, hperm, hint⟩, hfields, hmethods⟩ := loaded_shape l
  have hbf : (built_class_shape b.declared.file).fields.map trait =
      field_traits b.declared.file := List.map_map
  have hbm : (built_class_shape b.declared.file).methods.map trait =
      method_traits b.declared.file := List.map_map
  have hdistinct : Distinct shape :=
    ⟨(hfields.map Prod.fst).nodup_iff.mpr l.declared.fields_once,
      (hmethods.map Prod.fst).nodup_iff.mpr l.declared.methods_once⟩
  have hsame : ∀ a : Aspect, a ≠ .class_modifiers → a ≠ .hierarchy →
      (Predicted shape (built_class_shape b.declared.file) a ↔
        Differs l.declared.file b.declared.file a) := by
    intro a hc hh
    cases a with
    | class_modifiers => exact absurd rfl hc
    | hierarchy => exact absurd rfl hh
    | fields =>
      unfold Predicted Differs
      simp only [hbf, hfields.mem_iff]
    | added =>
      unfold Predicted Differs
      rw [hbm]
      exact gains_perm hmethods (List.Perm.refl _)
    | removed =>
      unfold Predicted Differs
      rw [hbm]
      exact gains_perm (List.Perm.refl _) hmethods
    | method_modifiers =>
      unfold Predicted Differs
      rw [hbm]
      exact remodifies_perm hmethods (List.Perm.refl _)
  have hmods : (Predicted shape (built_class_shape b.declared.file) .class_modifiers ↔
      Differs l.declared.file b.declared.file .class_modifiers) ↔
      (reported_modifiers l = class_modifiers l.declared.file ∨
        (class_modifiers b.declared.file ≠ reported_modifiers l ∧
          class_modifiers b.declared.file ≠ class_modifiers l.declared.file)) := by
    show (shape.access_flags ≠ class_modifiers b.declared.file ↔
      class_modifiers l.declared.file ≠ class_modifiers b.declared.file) ↔ _
    rw [hmod]
    show (reported_modifiers l ≠ _ ↔ _) ↔ _
    exact agree_iff _ _ _
  rw [exact_aspects b hshape hdistinct]
  unfold Readable
  rw [← hmods]
  constructor
  · intro h
    refine ⟨h .class_modifiers, ?_⟩
    have hh := (hierarchy_predicted b hsup hperm hint).symm.trans (h .hierarchy)
    by_cases hd : Differs l.declared.file b.declared.file .hierarchy
    · exact Or.inl hd
    · refine Or.inr ⟨Bool.eq_false_iff.mpr fun hi => hd (hh.mp (Or.inr (Or.inl hi))), ?_⟩
      by_contra hp
      exact hd (hh.mp (Or.inr (Or.inr hp)))
  · rintro ⟨hc, hh⟩ a
    by_cases ha : a = .class_modifiers
    · rw [ha]
      exact hc
    by_cases ha' : a = .hierarchy
    · rw [ha', hierarchy_predicted b hsup hperm hint]
      refine ⟨fun h => ?_, Or.inl⟩
      rcases hh with hd | ⟨hi, hp⟩
      · exact hd
      · rcases h with hd | hi' | hp'
        · exact hd
        · rw [hi] at hi'
          cases hi'
        · exact absurd hp hp'
    · exact hsame a ha ha'

/-- A member-free public interface, as `java.io.Serializable` is one. -/
def marker : ClassFile := ⟨"demo.Marker", 0x0601, some "java.lang.Object", [], [], []⟩

def marker_declared : Declared where
  file := marker
  rooted := by decide
  interface_root := fun _ => rfl
  dotted := by decide
  interfaces_once := List.nodup_nil
  fields_once := List.nodup_nil
  methods_once := List.nodup_nil

def marker_loaded : LoadedClass where
  declared := marker_declared
  inner := none
  reads := ⟨.ok 0x0601, .ok none, fun _ => .error "INVALID_OBJECT", .ok [], .ok [], .ok []⟩
  reports :=
    ⟨⟨0x0601, rfl, rfl⟩, ⟨none, rfl, rfl⟩, ⟨[], [], rfl, List.Perm.refl _, rfl⟩,
      ⟨[], rfl, List.Perm.refl _⟩, ⟨[], rfl, List.Perm.refl _⟩⟩

/-- The very file that was loaded, and a hierarchy change is predicted. -/
theorem interface_forecast_wrong : ¬ ∀ (l : LoadedClass) (b : Rebuild l), Exact l b := by
  intro h
  obtain ⟨shape, hshape, hcodes⟩ := h marker_loaded ⟨marker_declared, rfl⟩
  cases hshape
  obtain ⟨a, hc, hd⟩ := (hcodes 66).mp (by decide)
  cases a with
  | hierarchy =>
    rcases hd with hs | hi
    · exact hs rfl
    · exact hi fun _ => Iff.rfl
  | class_modifiers => cases hc
  | fields => cases hc
  | added => cases hc
  | removed => cases hc
  | method_modifiers => cases hc

end Exactness

end JavaDebug.ForecastAspects
