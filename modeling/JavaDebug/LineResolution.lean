import JavaDebug.Connection
import Mathlib.Data.List.Sort

/-!
Where a line of a class is armed. The methods are asked in order, and the first
whose line table answers anything decides. With a method named, a table without
the line answers its first location, so an overload without the line keeps the
search from the one that has it: the line is found where it exists exactly when the
first method that answers has it, and gives no index of it twice.
-/
namespace JavaDebug.LineResolution

open Connection

section Code

/-- The first of the entries with the lowest index. -/
def min_by_code_index : List LineTableEntry → Option LineTableEntry
  | [] => none
  | e :: rest =>
    match min_by_code_index rest with
    | none => some e
    | some m => if e.line_code_index ≤ m.line_code_index then some e else some m

def indices_of (line : Int32) (t : LineTable) : List UInt64 :=
  (t.lines.filter fun e => e.line_number = line).map LineTableEntry.line_code_index

def first_location (t : LineTable) : Option (UInt64 × List UInt64 × Int32) :=
  (min_by_code_index t.lines).map fun e => (e.line_code_index, [], e.line_number)

def locations_in_method (t : LineTable) (line_opt : Option Int32) (method_hint : Option String) :
    Option (UInt64 × List UInt64 × Int32) :=
  match line_opt with
  | none => first_location t
  | some want =>
    match (indices_of want t).insertionSort (· ≤ ·) with
    | first :: hits => some (first, hits, want)
    | [] => if method_hint.isSome then first_location t else none

inductive BpLocationError
  | no_such_method (name : String)
  | no_such_line (line : Int32)
  | unreadable (why : String)
  deriving DecidableEq

structure ResolvedLocation where
  method : MethodInfo
  code_index : UInt64
  extra_code_indices : List UInt64
  line : Int32
  lines : List (UInt64 × Int32)
  deriving DecidableEq

/-- What the debuggee answers about a class; a table may be absent or unreadable. -/
structure ClassAnswers where
  methods : Except String (List MethodInfo)
  line_table : MethodId → Option LineTable

variable (ans : ClassAnswers) (line_opt : Option Int32) (method_hint : Option String)

def allows (method : MethodInfo) : Bool := method_hint.all fun hint => method.name = hint

def location_in (method : MethodInfo) : Option ResolvedLocation :=
  if !allows method_hint method then none
  else
    match ans.line_table method.method_id with
    | none => none
    | some t => (locations_in_method t line_opt method_hint).map fun found =>
        ⟨method, found.1, found.2.1, found.2.2,
          t.lines.map fun e => (e.line_code_index, e.line_number)⟩

def resolve_bp_location : Except BpLocationError ResolvedLocation :=
  match ans.methods with
  | .error e => .error (.unreadable ("Failed to get methods: " ++ e))
  | .ok methods =>
    match methods.findSome? (location_in ans line_opt method_hint) with
    | some found => .ok found
    | none => .error (match line_opt with
      | none => .no_such_method (method_hint.getD "")
      | some line => .no_such_line line)

end Code

section Purpose

variable (tables : MethodId → Option LineTable) (line : Int32) (hint : Option String)

/-- A method that the hint allows has the line in its readable table. -/
def HasLine (method : MethodInfo) : Prop :=
  allows hint method = true ∧ ∃ t, tables method.method_id = some t ∧ indices_of line t ≠ []

/-- The location is the line in a table: its lowest index, and every other one once. -/
structure OnLine (t : LineTable) (r : ResolvedLocation) : Prop where
  asked : r.line = line
  primary : r.code_index ∈ indices_of line t
  lowest : ∀ i ∈ indices_of line t, r.code_index ≤ i
  once : r.extra_code_indices.Nodup
  extras : ∀ i, i ∈ r.extra_code_indices ↔ i ∈ indices_of line t ∧ i ≠ r.code_index

/-- The line is found where it exists. -/
structure FindsLine (methods : List MethodInfo)
    (out : Except BpLocationError ResolvedLocation) : Prop where
  found : (∃ m ∈ methods, HasLine tables line hint m) → ∃ r, out = .ok r ∧ r.method ∈ methods ∧
    allows hint r.method = true ∧ ∃ t, tables r.method.method_id = some t ∧ OnLine line t r
  fallback : ∀ r, out = .ok r → (∀ t, tables r.method.method_id = some t → ¬ OnLine line t r) →
    hint.isSome = true ∧ ∀ m ∈ methods, ¬ HasLine tables line hint m
  missing : hint = none → (∀ m ∈ methods, ¬ HasLine tables line hint m) →
    out = .error (.no_such_line line)

/-- A method whose table answers a search for the line. -/
def Answering (method : MethodInfo) : Prop :=
  allows hint method = true ∧ ∃ t, tables method.method_id = some t ∧
    (indices_of line t ≠ [] ∨ hint.isSome = true ∧ t.lines ≠ [])

/-- The first method that answers, if any that is allowed has the line, has it itself and gives
each of its indices once. -/
def FirstHasLine (methods : List MethodInfo) : Prop :=
  (∃ m ∈ methods, HasLine tables line hint m) → ∀ before m after,
    methods = before ++ m :: after → Answering tables line hint m →
      (∀ m' ∈ before, ¬ Answering tables line hint m') →
        ∀ t, tables m.method_id = some t → indices_of line t ≠ [] ∧ (indices_of line t).Nodup

end Purpose

section Tables

theorem min_by_code_index_none (lines : List LineTableEntry) :
    min_by_code_index lines = none ↔ lines = [] := by
  cases lines with
  | nil => simp [min_by_code_index]
  | cons e rest =>
    rw [min_by_code_index]
    rcases min_by_code_index rest with _ | m
    · simp
    · dsimp only
      split_ifs <;> simp

variable (line : Int32) (hint : Option String) (t : LineTable)

theorem locations_none : locations_in_method t (some line) hint = none ↔
    indices_of line t = [] ∧ (hint.isSome = true → t.lines = []) := by
  have hperm := List.perm_insertionSort (fun i j : UInt64 => i ≤ j) (indices_of line t)
  rw [locations_in_method]
  rcases hsort : (indices_of line t).insertionSort (· ≤ ·) with _ | ⟨first, hits⟩
  · rw [hsort] at hperm
    have hnil := hperm.nil_eq.symm
    cases hhint : hint.isSome with
    | false => simp [hnil]
    | true => simp [hnil, first_location, min_by_code_index_none]
  · refine iff_of_false (by simp) fun h => ?_
    rw [h.1] at hsort
    simp at hsort

/-- A table that has the line answers it. -/
theorem locations_some (h : indices_of line t ≠ []) : ∃ first hits,
    locations_in_method t (some line) hint = some (first, hits, line) ∧
      (first :: hits).Perm (indices_of line t) ∧ ∀ i ∈ hits, first ≤ i := by
  have hperm := List.perm_insertionSort (fun i j : UInt64 => i ≤ j) (indices_of line t)
  have hsorted := List.pairwise_insertionSort (fun i j : UInt64 => i ≤ j) (indices_of line t)
  rcases hsort : (indices_of line t).insertionSort (· ≤ ·) with _ | ⟨first, hits⟩
  · rw [hsort] at hperm
    exact absurd hperm.nil_eq.symm h
  · rw [hsort] at hperm hsorted
    refine ⟨first, hits, ?_, hperm, (List.pairwise_cons.mp hsorted).1⟩
    rw [locations_in_method, hsort]

/-- The indices that a search returns are those of the line, each once, when the table gives none
twice. -/
theorem on_line_iff (first : UInt64) (hits : List UInt64) (r : ResolvedLocation)
    (hperm : (first :: hits).Perm (indices_of line t)) (hlow : ∀ i ∈ hits, first ≤ i)
    (hcode : r.code_index = first) (hextra : r.extra_code_indices = hits) (hline : r.line = line) :
    OnLine line t r ↔ (indices_of line t).Nodup := by
  rw [← hperm.nodup_iff, List.nodup_cons]
  have hmem : ∀ i, i ∈ indices_of line t ↔ i = first ∨ i ∈ hits := fun i => by
    rw [← hperm.mem_iff, List.mem_cons]
  constructor
  · intro h
    have hextras := h.extras first
    rw [hextra, hcode] at hextras
    exact ⟨fun hin => (hextras.mp hin).2 rfl, hextra ▸ h.once⟩
  · rintro ⟨hno, hnodup⟩
    refine ⟨hline, (hmem _).mpr (.inl hcode), fun i hi => ?_, hextra ▸ hnodup, fun i => ?_⟩
    · rw [hcode]
      rcases (hmem i).mp hi with rfl | hin
      · exact UInt64.le_refl i
      · exact hlow i hin
    · rw [hextra, hcode, hmem]
      constructor
      · intro hin
        exact ⟨.inr hin, fun heq => hno (heq ▸ hin)⟩
      · exact fun h => h.1.resolve_left h.2

end Tables

section Search

variable (ans : ClassAnswers) (line : Int32) (hint : Option String)

variable (m : MethodInfo)

/-- The methods that the search stops at. -/
theorem location_none :
    location_in ans (some line) hint m = none ↔ ¬ Answering ans.line_table line hint m := by
  rw [location_in, Answering]
  by_cases hallow : allows hint m = true
  · rcases htable : ans.line_table m.method_id with _ | t
    · simp [hallow]
    · simp only [hallow, Bool.not_true, Bool.false_eq_true, if_false, Option.map_eq_none_iff,
        locations_none, true_and, Option.some.injEq, exists_eq_left']
      tauto
  · simp [hallow]

theorem answering_of_location (r : ResolvedLocation)
    (h : location_in ans (some line) hint m = some r) : Answering ans.line_table line hint m := by
  by_contra hno
  rw [(location_none ans line hint m).mpr hno] at h
  simp at h

theorem location_some (r : ResolvedLocation) (h : location_in ans (some line) hint m = some r) :
    r.method = m ∧ allows hint m = true ∧ ∃ t, ans.line_table m.method_id = some t ∧
      locations_in_method t (some line) hint =
        some (r.code_index, r.extra_code_indices, r.line) := by
  rw [location_in] at h
  split_ifs at h with hallow
  rcases htable : ans.line_table m.method_id with _ | t
  · simp [htable] at h
  · simp only [htable] at h
    obtain ⟨found, hfound, rfl⟩ := Option.map_eq_some_iff.mp h
    exact ⟨rfl, by simpa using hallow, t, rfl, hfound⟩

/-- What the search returns is the line in the method where it stopped, when that method has the
line and gives each of its indices once. -/
theorem stopped_iff (r : ResolvedLocation) (h : location_in ans (some line) hint m = some r) :
    (∃ t, ans.line_table m.method_id = some t ∧ OnLine line t r) ↔
      ∀ t, ans.line_table m.method_id = some t →
        indices_of line t ≠ [] ∧ (indices_of line t).Nodup := by
  obtain ⟨-, -, t, htable, hlocs⟩ := location_some ans line hint m r h
  have hsome : indices_of line t ≠ [] → (OnLine line t r ↔ (indices_of line t).Nodup) := by
    intro hne
    obtain ⟨first, hits, heq, hperm, hlow⟩ := locations_some line hint t hne
    obtain ⟨hcode, hrest⟩ := Prod.mk.inj (Option.some.inj (hlocs.symm.trans heq))
    obtain ⟨hextra, hline⟩ := Prod.mk.inj hrest
    exact on_line_iff line t first hits r hperm hlow hcode hextra hline
  rw [htable]
  constructor
  · rintro ⟨t', ht', hon⟩ t'' ht''
    obtain rfl := Option.some.inj ht'
    obtain rfl := Option.some.inj ht''
    have hne : indices_of line t ≠ [] := List.ne_nil_of_mem hon.primary
    exact ⟨hne, (hsome hne).mp hon⟩
  · intro hall
    obtain ⟨hne, hnodup⟩ := hall t rfl
    exact ⟨t, rfl, (hsome hne).mpr hnodup⟩

variable (methods : List MethodInfo) (hmethods : ans.methods = .ok methods)

include hmethods

theorem resolve_ok (r : ResolvedLocation) :
    resolve_bp_location ans (some line) hint = .ok r ↔ ∃ before m after,
      methods = before ++ m :: after ∧ location_in ans (some line) hint m = some r ∧
        ∀ m' ∈ before, ¬ Answering ans.line_table line hint m' := by
  have hsearch : resolve_bp_location ans (some line) hint = .ok r ↔
      methods.findSome? (location_in ans (some line) hint) = some r := by
    rw [resolve_bp_location, hmethods]
    dsimp only
    rcases methods.findSome? (location_in ans (some line) hint) with _ | found
    · simp
    · simp
  rw [hsearch, List.findSome?_eq_some_iff]
  simp only [location_none]

theorem resolve_error (h : ∀ m ∈ methods, ¬ Answering ans.line_table line hint m) :
    resolve_bp_location ans (some line) hint = .error (.no_such_line line) := by
  have hnone : methods.findSome? (location_in ans (some line) hint) = none :=
    List.findSome?_eq_none_iff.mpr fun m hm => (location_none ans line hint m).mpr (h m hm)
  rw [resolve_bp_location, hmethods]
  dsimp only
  rw [hnone]

omit hmethods in
theorem answering_of_line (h : HasLine ans.line_table line hint m) :
    Answering ans.line_table line hint m := by
  obtain ⟨hallow, t, htable, hne⟩ := h
  exact ⟨hallow, t, htable, .inl hne⟩

/-- A search that meets a method with the line stops. -/
theorem resolve_stops (h : ∃ m ∈ methods, Answering ans.line_table line hint m) :
    ∃ r, resolve_bp_location ans (some line) hint = .ok r := by
  obtain ⟨m, hm, hanswer⟩ := h
  have hsome : (methods.findSome? (location_in ans (some line) hint)).isSome = true := by
    refine List.findSome?_isSome_iff.mpr ⟨m, hm, ?_⟩
    rw [Option.isSome_iff_ne_none]
    exact fun hnone => (location_none ans line hint m).mp hnone hanswer
  obtain ⟨r, hr⟩ := Option.isSome_iff_exists.mp hsome
  refine ⟨r, ?_⟩
  rw [resolve_bp_location, hmethods]
  dsimp only
  rw [hr]

end Search

/-- A line is found where it exists exactly when the first method that answers the search has it,
if any has, with each of its indices once. -/
theorem finds_line_iff (tables : MethodId → Option LineTable) (methods : List MethodInfo)
    (line : Int32) (hint : Option String) :
    FindsLine tables line hint methods
        (resolve_bp_location ⟨.ok methods, tables⟩ (some line) hint) ↔
      FirstHasLine tables line hint methods := by
  set ans : ClassAnswers := ⟨.ok methods, tables⟩ with hans
  have hok := resolve_ok ans line hint methods rfl
  constructor
  · intro h hexists before m after hsplit hanswer hbefore
    obtain ⟨r, hr, -, -, t, htable, hon⟩ := h.found hexists
    have hlocation : ∃ r', location_in ans (some line) hint m = some r' := by
      rw [← Option.ne_none_iff_exists']
      exact fun hnone => (location_none ans line hint m).mp hnone hanswer
    obtain ⟨r', hr'⟩ := hlocation
    have hsame := (hok r').mpr ⟨before, m, after, hsplit, hr', hbefore⟩
    obtain rfl := Except.ok.inj (hr.symm.trans hsame)
    obtain ⟨hmethod, -⟩ := location_some ans line hint m r hr'
    rw [hmethod] at htable
    exact (stopped_iff ans line hint m r hr').mp ⟨t, htable, hon⟩
  · intro h
    have hstop : ∀ r, resolve_bp_location ans (some line) hint = .ok r →
        (∃ m ∈ methods, HasLine tables line hint m) →
          r.method ∈ methods ∧ allows hint r.method = true ∧
            ∃ t, tables r.method.method_id = some t ∧ OnLine line t r := by
      intro r hr hexists
      obtain ⟨before, m, after, hsplit, hlocation, hbefore⟩ := (hok r).mp hr
      obtain ⟨hmethod, hallow, -⟩ := location_some ans line hint m r hlocation
      have hanswer := answering_of_location ans line hint m r hlocation
      have hhas := h hexists before m after hsplit hanswer hbefore
      rw [hmethod]
      exact ⟨by simp [hsplit], hallow, (stopped_iff ans line hint m r hlocation).mpr hhas⟩
    refine ⟨fun hexists => ?_, fun r hr hoff => ?_, fun hnone hmissing => ?_⟩
    · obtain ⟨m, hm, hhas⟩ := hexists
      obtain ⟨r, hr⟩ := resolve_stops ans line hint methods rfl
        ⟨m, hm, answering_of_line ans line hint m hhas⟩
      exact ⟨r, hr, hstop r hr ⟨m, hm, hhas⟩⟩
    · have hmissing : ∀ m ∈ methods, ¬ HasLine tables line hint m := by
        intro m hm hhas
        obtain ⟨-, -, t, htable, hon⟩ := hstop r hr ⟨m, hm, hhas⟩
        exact hoff t htable hon
      refine ⟨?_, hmissing⟩
      obtain ⟨before, m, after, hsplit, hlocation, -⟩ := (hok r).mp hr
      obtain ⟨hallow, t, htable, hne | hhint⟩ := answering_of_location ans line hint m r hlocation
      · exact absurd ⟨hallow, t, htable, hne⟩ (hmissing m (by simp [hsplit]))
      · exact hhint.1
    · refine resolve_error ans line hint methods rfl fun m hm hanswer => ?_
      obtain ⟨hallow, t, htable, hne | hhint⟩ := hanswer
      · exact hmissing m hm ⟨hallow, t, htable, hne⟩
      · rw [hnone] at hhint
        simp at hhint

/-- Two overloads of `run`, and the line is in the second. -/
def overloads : List MethodInfo := [⟨1, "run", "()V", none, 1⟩, ⟨2, "run", "(I)V", none, 1⟩]

def overload_table (m : MethodId) : Option LineTable :=
  if m = 1 then some ⟨0, 4, [⟨0, 5⟩]⟩ else some ⟨0, 4, [⟨0, 9⟩]⟩

/-- The first overload answers its own first location. -/
theorem overload_missed : ¬ ∀ (tables : MethodId → Option LineTable) (methods : List MethodInfo)
    (line : Int32) (hint : Option String), FindsLine tables line hint methods
      (resolve_bp_location ⟨.ok methods, tables⟩ (some line) hint) := by
  intro hall
  obtain ⟨r, hr, -, -, t, -, hon⟩ := (hall overload_table overloads 9 (some "run")).found
    ⟨⟨2, "run", "(I)V", none, 1⟩, by decide, by decide, ⟨0, 4, [⟨0, 9⟩]⟩, rfl, by decide⟩
  have hanswer : resolve_bp_location ⟨.ok overloads, overload_table⟩ (some 9) (some "run") =
      .ok ⟨⟨1, "run", "()V", none, 1⟩, 0, [], 5, [(0, 5)]⟩ := by decide
  obtain rfl := Except.ok.inj (hr.symm.trans hanswer)
  exact absurd hon.asked (by decide)

end JavaDebug.LineResolution
