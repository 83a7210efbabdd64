import JavaDebug.StaleChecks
import JavaDebug.EncodedClasses

/-!
What silence about staleness means. Tables are compared where both sides have
one and code where both have it, so the report says stale exactly for a method
of one side alone or for a pair that really differs; the arming check says
nothing only of a method whose two tables are equal. A class file with its lines
in one table is never stale against itself.
-/
namespace JavaDebug.StaleVerdicts

open ClassFiles StaleChecks Octets Cursors

section Sides

/-- A loaded method. Its line table may be absent or empty, and it may have no code. -/
structure RunningMethod where
  info : MethodInfo
  table : Option Lines
  code : Option Bytes

def RunningMethod.lines (m : RunningMethod) : Lines := m.table.getD []

structure Running where
  methods : List RunningMethod
  can_get_bytecodes : Bool
  ids_once : (methods.map fun m => m.info.method_id).Nodup
  once : (methods.map fun m => m.info.key).Nodup

def answer {α : Type} : Option α → Except ReadError α
  | some a => .ok a
  | none => .error (.jdwp_error_code ERR_ABSENT_INFORMATION "ABSENT_INFORMATION")

namespace Running

def method? (r : Running) (id : MethodId) : Option RunningMethod :=
  r.methods.find? fun m => m.info.method_id = id

/-- The JVM's answers about it. -/
def reads (r : Running) : ClassReads where
  get_methods := .ok (r.methods.map RunningMethod.info)
  get_line_table id := answer ((r.method? id).bind RunningMethod.table)
  can_get_bytecodes := .ok r.can_get_bytecodes
  get_bytecodes id := answer ((r.method? id).bind RunningMethod.code)

end Running

def file_key (m : ClassFileMethod) : String × String := (m.name, m.descriptor)

/-- A class file on disk, with every method declared once. -/
structure Build where
  class_name : String
  bytes : Bytes
  file : ClassFile
  parsed : parse bytes = .ok file
  named : file.this_class = class_name
  once : (file.methods.map file_key).Nodup

/-- Class roots under which the build is found. -/
structure Found (b : Build) where
  roots : ClassRoots
  path : String
  some_root : roots.class_roots ≠ []
  resolved : roots.resolve_class_file b.class_name = .ok path
  readable : roots.read path = .ok b.bytes

/-- A method of one side alone. -/
def MethodsDiffer (r : Running) (f : ClassFile) : Prop :=
  ¬ ∀ key, (∃ m ∈ r.methods, m.info.key = key) ↔ ∃ m ∈ f.methods, file_key m = key

/-- A method of both sides, with two tables that are not the same. -/
def LinesDiffer (r : Running) (f : ClassFile) : Prop :=
  ∃ m ∈ r.methods, ∃ d ∈ f.methods, m.info.key = file_key d ∧
    m.lines ≠ [] ∧ d.lines ≠ [] ∧ m.lines ≠ d.lines

/-- A method of both sides, with code on both that is not the same. -/
def CodeDiffers (r : Running) (f : ClassFile) : Prop :=
  ∃ m ∈ r.methods, ∃ d ∈ f.methods, m.info.key = file_key d ∧ d.has_code = true ∧
    ∃ code, m.code = some code ∧ code ≠ d.code

inductive Standing
  | only_in_jvm
  | skipped
  | matched
  | differing
  deriving DecidableEq

/-- How a running method stands to the build. -/
def standing (f : ClassFile) (m : RunningMethod) : Standing :=
  match f.methods.find? fun d => file_key d = m.info.key with
  | none => .only_in_jvm
  | some d =>
    if m.lines = [] ∨ d.lines = [] then .skipped
    else if m.lines = d.lines then .matched
    else .differing

def count_of (r : StaleReport) : Standing → ℕ
  | .only_in_jvm => r.only_in_jvm.length
  | .skipped => r.skipped
  | .matched => r.matched
  | .differing => r.differing.length

end Sides

section Parsed

/-- Lines come with a table. -/
def Tabled (a : CodeAttribute) : Prop := a.lines ≠ [] → a.has_line_table = true

variable {data rest : Bytes} {pool : List Constant}

variable {α : Type}

theorem pure_ok {a b : α} (h : (pure a : Parse α) data = .ok (b, rest)) : a = b :=
  congrArg Prod.fst (Except.ok.inj h)

theorem lift_ok {e : Except String α} {a : α} (h : (StateT.lift e : Parse α) data = .ok (a, rest)) :
    e = .ok a := by
  cases e with
  | error text => cases h
  | ok b => exact congrArg _ (congrArg Prod.fst (Except.ok.inj h))

theorem times_ok {p : Parse α} {P : α → Prop} (hp : ∀ data a rest, p data = .ok (a, rest) → P a)
    {n : ℕ} {l : List α} (h : times p n data = .ok (l, rest)) : ∀ a ∈ l, P a := by
  induction n generalizing data rest l with
  | zero =>
    obtain rfl := pure_ok h
    exact fun a ha => absurd ha List.not_mem_nil
  | succ n ih =>
    obtain ⟨a, d, ha, h⟩ := ok_of_bind h
    obtain ⟨as, d', has, h⟩ := ok_of_bind h
    obtain rfl := pure_ok h
    intro x hx
    rcases List.mem_cons.mp hx with rfl | hx
    · exact hp _ _ _ ha
    · exact ih has x hx

theorem ok_of_map {ε β : Type} {f : α → β} {e : Except ε α} {b : β} (h : e.map f = .ok b) :
    ∃ a, e = .ok a ∧ f a = b := by
  cases e with
  | error text => cases h
  | ok a => exact ⟨a, rfl, Except.ok.inj h⟩

theorem code_tabled {body : Bytes} {a : CodeAttribute} (h : parse_code_body body pool = .ok a) :
    Tabled a := by
  obtain ⟨⟨attr, rest⟩, hc, rfl⟩ := ok_of_map h
  obtain ⟨-, d1, -, hc⟩ := ok_of_bind hc
  obtain ⟨len, d2, -, hc⟩ := ok_of_bind hc
  obtain ⟨code, d3, -, hc⟩ := ok_of_bind hc
  obtain ⟨exceptions, d4, -, hc⟩ := ok_of_bind hc
  obtain ⟨-, d5, -, hc⟩ := ok_of_bind hc
  obtain ⟨attrs, d6, -, hc⟩ := ok_of_bind hc
  obtain ⟨lines, d7, -, hc⟩ := ok_of_bind hc
  obtain rfl := pure_ok hc
  intro hne
  cases lines with
  | none => exact absurd rfl hne
  | some l => rfl

theorem attributes_tabled {size : ℕ} {n : ℕ} {found r : Option CodeAttribute}
    (hfound : ∀ a ∈ found, Tabled a) (h : method_attributes size pool n found data = .ok (r, rest))
    : ∀ a ∈ r, Tabled a := by
  induction n generalizing found data with
  | zero =>
    obtain rfl := pure_ok h
    exact hfound
  | succ n ih =>
    obtain ⟨name, d1, -, h⟩ := ok_of_bind h
    obtain ⟨len, d2, -, h⟩ := ok_of_bind h
    by_cases hname : name = "Code"
    · rw [if_pos hname] at h
      obtain ⟨body, d3, -, h⟩ := ok_of_bind h
      obtain ⟨attr, d4, hattr, h⟩ := ok_of_bind h
      refine ih ?_ h
      rintro a ⟨⟩
      exact code_tabled (lift_ok hattr)
    · rw [if_neg hname] at h
      obtain ⟨-, d3, -, h⟩ := ok_of_bind h
      exact ih hfound h

theorem method_comparable {size : ℕ} {m : ClassFileMethod}
    (h : parse_one_method size pool data = .ok (m, rest)) :
    (built_lines m).comparable = !m.lines.isEmpty := by
  obtain ⟨flags, d1, -, h⟩ := ok_of_bind h
  obtain ⟨name, d2, -, h⟩ := ok_of_bind h
  obtain ⟨descriptor, d3, -, h⟩ := ok_of_bind h
  obtain ⟨attrs, d4, -, h⟩ := ok_of_bind h
  obtain ⟨attr, d5, hattr, h⟩ := ok_of_bind h
  obtain rfl := pure_ok h
  cases attr with
  | none => rfl
  | some a =>
    have ht := attributes_tabled (fun _ ha => absurd ha (Option.not_mem_none _)) hattr a rfl
    cases hl : a.lines with
    | nil => simp [built_lines, method_of, hl]
    | cons l ls => simp [built_lines, method_of, hl, ht (by simp [hl])]

/-- A method of a parsed class file can be compared when it has lines. -/
theorem comparable_of_parsed {bytes : Bytes} {f : ClassFile} (h : parse bytes = .ok f) :
    ∀ m ∈ f.methods, (built_lines m).comparable = !m.lines.isEmpty := by
  obtain ⟨⟨file, rest⟩, hf, rfl⟩ := ok_of_map h
  obtain ⟨magic, d1, -, hf⟩ := ok_of_bind hf
  by_cases hm : magic ≠ 0xCAFEBABE
  · rw [if_pos hm] at hf
    cases hf
  · rw [if_neg hm] at hf
    obtain ⟨-, d2, -, hf⟩ := ok_of_bind hf
    obtain ⟨pool, d3, -, hf⟩ := ok_of_bind hf
    obtain ⟨header, d4, -, hf⟩ := ok_of_bind hf
    obtain ⟨fields, d5, -, hf⟩ := ok_of_bind hf
    obtain ⟨methods, d6, hmethods, hf⟩ := ok_of_bind hf
    obtain rfl := pure_ok hf
    obtain ⟨count, d7, -, hmethods⟩ := ok_of_bind hmethods
    exact times_ok (fun _ _ _ => method_comparable) hmethods

end Parsed

section Tables

variable {r : Running} {f : ClassFile}

def method_lines (m : RunningMethod) : MethodLines :=
  ⟨m.info.name, m.info.signature, m.lines, !m.lines.isEmpty⟩

variable {α κ : Type}

variable {key : α → κ} {k : κ}

theorem find_by_key [DecidableEq κ] {l : List α} {a : α} (hl : (l.map key).Nodup) (ha : a ∈ l)
    (hk : key a = k) : l.find? (fun b => key b = k) = some a := by
  induction l with
  | nil => cases ha
  | cons b l ih =>
    obtain ⟨hb, hl⟩ := List.nodup_cons.mp hl
    rcases List.mem_cons.mp ha with rfl | ha
    · exact List.find?_cons_of_pos (decide_eq_true hk)
    · have hne : key b ≠ k := fun h =>
        hb (List.mem_map.mpr ⟨a, ha, hk.trans h.symm⟩)
      rw [List.find?_cons_of_neg (by simpa using hne)]
      exact ih hl ha

theorem find_none [DecidableEq κ] {l : List α} :
    l.find? (fun b => key b = k) = none ↔ ∀ b ∈ l, key b ≠ k := by
  simp

theorem find_some [DecidableEq κ] {l : List α} {b : α} (h : l.find? (fun b => key b = k) = some b) :
    b ∈ l ∧ key b = k :=
  ⟨List.mem_of_find?_eq_some h, by simpa using List.find?_some h⟩

theorem method_found {m : RunningMethod} (hm : m ∈ r.methods) :
    r.method? m.info.method_id = some m :=
  find_by_key r.ids_once hm rfl

theorem read_one_ok {m : RunningMethod} (hm : m ∈ r.methods) :
    read_one_method r.reads m.info = .ok (method_lines m) := by
  have ht : r.reads.get_line_table m.info.method_id = answer m.table := by
    show answer ((r.method? m.info.method_id).bind RunningMethod.table) = _
    rw [method_found hm]
    rfl
  rw [read_one_method, one_line_table, ht, method_lines, RunningMethod.lines]
  cases m.table <;> rfl

theorem mapM_ok {ε β : Type} {g : α → Except ε β} {h : α → β} {l : List α}
    (hl : ∀ a ∈ l, g a = .ok (h a)) : l.mapM g = .ok (l.map h) := by
  induction l with
  | nil => rfl
  | cons a l ih =>
    rw [List.mapM_cons, hl a List.mem_cons_self, ih fun b hb => hl b (List.mem_cons_of_mem a hb)]
    rfl

theorem read_tables (r : Running) :
    read_jvm_line_tables r.reads = .ok (r.methods.map method_lines) := by
  show (r.methods.map RunningMethod.info).mapM (read_one_method r.reads) = _
  rw [List.mapM_map]
  exact mapM_ok fun m hm => read_one_ok hm

/-- One running method adds one to the count of its standing. -/
theorem count_compare (hf : ∀ d ∈ f.methods, (built_lines d).comparable = !d.lines.isEmpty)
    (report : StaleReport) (m : RunningMethod) (s : Standing) :
    count_of (compare_method (f.methods.map built_lines) report (method_lines m)) s =
      count_of report s + if standing f m = s then 1 else 0 := by
  have hfind : (f.methods.map built_lines).find? (fun b => b.key = (method_lines m).key) =
      (f.methods.find? fun d => file_key d = m.info.key).map built_lines := by
    rw [List.find?_map]
    rfl
  rw [compare_method, standing, hfind]
  cases hd : f.methods.find? (fun d => file_key d = m.info.key) with
  | none => cases s <;> simp [count_of]
  | some d =>
    have hc := hf d (find_some hd).1
    by_cases hskip : m.lines = [] ∨ d.lines = []
    · have hcond : (!(method_lines m).comparable || !(built_lines d).comparable) = true := by
        rw [hc]
        rcases hskip with h | h <;> simp [method_lines, h]
      simp only [Option.map_some, if_pos hcond, if_pos hskip]
      cases s <;> simp [count_of]
    · have hcond : ¬ (!(method_lines m).comparable || !(built_lines d).comparable) = true := by
        rw [hc]
        push Not at hskip
        simp [method_lines, hskip]
      simp only [Option.map_some, if_neg hcond, if_neg hskip]
      by_cases heq : m.lines = d.lines
      · have heq' : (method_lines m).lines = (built_lines d).lines := heq
        rw [if_pos heq', if_pos heq]
        cases s <;> simp [count_of]
      · have heq' : ¬ (method_lines m).lines = (built_lines d).lines := heq
        rw [if_neg heq', if_neg heq]
        cases s <;> simp [count_of]

theorem count_fold (hf : ∀ d ∈ f.methods, (built_lines d).comparable = !d.lines.isEmpty)
    (methods : List RunningMethod) (report : StaleReport) (s : Standing) :
    count_of ((methods.map method_lines).foldl (compare_method (f.methods.map built_lines)) report)
      s = count_of report s + methods.countP fun m => standing f m = s := by
  induction methods generalizing report with
  | nil => rfl
  | cons m methods ih =>
    rw [List.map_cons, List.foldl_cons, ih, count_compare hf, List.countP_cons]
    simp only [decide_eq_true_eq]
    omega

theorem count_tables (hf : ∀ d ∈ f.methods, (built_lines d).comparable = !d.lines.isEmpty)
    (methods : List RunningMethod) (s : Standing) :
    count_of (compare_line_tables (methods.map method_lines) f.methods) s =
      methods.countP fun m => standing f m = s := by
  have h := count_fold hf methods .new s
  have hnew : count_of .new s = 0 := by
    cases s <;> rfl
  rw [hnew, Nat.zero_add] at h
  rw [← h]
  cases s <;> rfl

/-- Every running method stands in one way. -/
theorem standings_sum (f : ClassFile) (methods : List RunningMethod) :
    (methods.countP fun m => standing f m = .matched) +
      (methods.countP fun m => standing f m = .differing) +
      (methods.countP fun m => standing f m = .skipped) +
      (methods.countP fun m => standing f m = .only_in_jvm) = methods.length := by
  induction methods with
  | nil => rfl
  | cons m methods ih =>
    simp only [List.countP_cons, List.length_cons]
    cases standing f m <;> simp <;> omega

end Tables

section Verdict

variable {r : Running} {f : ClassFile}

theorem only_in_jvm_iff {m : RunningMethod} :
    standing f m = .only_in_jvm ↔ ∀ d ∈ f.methods, file_key d ≠ m.info.key := by
  rw [← find_none, standing]
  cases f.methods.find? (fun d => file_key d = m.info.key) with
  | none => simp
  | some d => simp only [reduceCtorEq, iff_false]; split_ifs <;> simp

theorem differing_iff (hf : (f.methods.map file_key).Nodup) {m : RunningMethod} :
    standing f m = .differing ↔
      ∃ d ∈ f.methods, m.info.key = file_key d ∧ m.lines ≠ [] ∧ d.lines ≠ [] ∧
        m.lines ≠ d.lines := by
  constructor
  · intro h
    rw [standing] at h
    cases hd : f.methods.find? (fun d => file_key d = m.info.key) with
    | none => rw [hd] at h; cases h
    | some d =>
      rw [hd] at h
      obtain ⟨hmem, hkey⟩ := find_some hd
      refine ⟨d, hmem, hkey.symm, ?_⟩
      by_contra hnot
      push Not at hnot
      by_cases hskip : m.lines = [] ∨ d.lines = []
      · simp [hskip] at h
      · push Not at hskip
        simp [hskip, hnot hskip.1 hskip.2] at h
  · rintro ⟨d, hd, hkey, hm, hdl, hne⟩
    rw [standing, find_by_key hf hd hkey.symm]
    simp [hm, hdl, hne]

theorem methods_differ_iff : MethodsDiffer r f ↔
    (∃ m ∈ r.methods, ∀ d ∈ f.methods, file_key d ≠ m.info.key) ∨
      ∃ d ∈ f.methods, ∀ m ∈ r.methods, m.info.key ≠ file_key d := by
  constructor
  · intro h
    by_contra hnot
    push Not at hnot
    obtain ⟨hjvm, hbuild⟩ := hnot
    refine h fun key => ⟨?_, ?_⟩
    · rintro ⟨m, hm, rfl⟩
      exact hjvm m hm
    · rintro ⟨d, hd, rfl⟩
      exact hbuild d hd
  · rintro (⟨m, hm, hnone⟩ | ⟨d, hd, hnone⟩) h
    · obtain ⟨d, hd, hkey⟩ := (h m.info.key).mp ⟨m, hm, rfl⟩
      exact hnone d hd hkey
    · obtain ⟨m, hm, hkey⟩ := (h (file_key d)).mpr ⟨d, hd, rfl⟩
      exact hnone m hm hkey

theorem ne_nil_iff {α β : Type} {p : α → Prop} [DecidablePred p] {l : List α} {names : List β}
    (h : names.length = l.countP fun a => p a) : names ≠ [] ↔ ∃ a ∈ l, p a := by
  rw [← List.length_pos_iff, h, List.countP_pos_iff]
  simp

theorem tables_bytecode (running : List MethodLines) (built : List ClassFileMethod) :
    (compare_line_tables running built).bytecode = none := by
  have hkeep (report : StaleReport) (h : report.bytecode = none) :
      (running.foldl (compare_method (built.map built_lines)) report).bytecode = none := by
    induction running generalizing report with
    | nil => exact h
    | cons m running ih =>
      refine ih _ ?_
      rw [compare_method]
      split
      · exact h
      · split_ifs <;> exact h
  exact hkeep _ rfl

/-- The code adds its own differences to what the tables tell. -/
theorem stale_with_code (running : List MethodLines) (built : List ClassFileMethod)
    (code : BytecodeReport) :
    { compare_line_tables running built with bytecode := some code }.is_stale = true ↔
      (compare_line_tables running built).is_stale = true ∨ code.differing ≠ [] := by
  rw [StaleReport.is_stale, StaleReport.is_stale, tables_bytecode]
  simp

theorem tables_stale_iff (hparsed : ∀ d ∈ f.methods, (built_lines d).comparable = !d.lines.isEmpty)
    (hf : (f.methods.map file_key).Nodup) :
    (compare_line_tables (r.methods.map method_lines) f.methods).is_stale = true ↔
      MethodsDiffer r f ∨ LinesDiffer r f := by
  have hdiffering := ne_nil_iff (count_tables hparsed r.methods .differing)
  have hjvm := ne_nil_iff (count_tables hparsed r.methods .only_in_jvm)
  have hbuild : (compare_line_tables (r.methods.map method_lines) f.methods).only_in_build ≠ [] ↔
      ∃ d ∈ f.methods, ∀ m ∈ r.methods, m.info.key ≠ file_key d := by
    have hkey (m : RunningMethod) (d : ClassFileMethod) :
        (method_lines m).key = (built_lines d).key ↔ m.info.key = file_key d := Iff.rfl
    simp [compare_line_tables, List.filter_eq_nil_iff, hkey]
  rw [StaleReport.is_stale, tables_bytecode]
  simp only [Option.any_none, Bool.or_false, Bool.or_eq_true, Bool.not_eq_true',
    List.isEmpty_eq_false_iff, hdiffering, hjvm, hbuild, only_in_jvm_iff, differing_iff hf]
  rw [methods_differ_iff]
  exact or_assoc.trans or_comm

end Verdict

section CodeVerdict

variable {r : Running} {f : ClassFile}

def CodeDiffersAt (f : ClassFile) (m : RunningMethod) : Prop :=
  ∃ d ∈ f.methods, m.info.key = file_key d ∧ d.has_code = true ∧
    ∃ code, m.code = some code ∧ code ≠ d.code

theorem code_read {m : RunningMethod} (hm : m ∈ r.methods) :
    r.reads.get_bytecodes m.info.method_id = answer m.code := by
  show answer ((r.method? m.info.method_id).bind RunningMethod.code) = _
  rw [method_found hm]
  rfl

theorem code_differs_of_find (hf : (f.methods.map file_key).Nodup) {m : RunningMethod}
    {d : ClassFileMethod} (hd : f.methods.find? (fun d => file_key d = m.info.key) = some d) :
    CodeDiffersAt f m ↔ d.has_code = true ∧ ∃ code, m.code = some code ∧ code ≠ d.code := by
  obtain ⟨hmem, hkey⟩ := find_some hd
  constructor
  · rintro ⟨d', hd', hkey', h⟩
    have hsame := find_by_key hf hd' hkey'.symm
    rw [hd] at hsame
    rwa [← Option.some.inj hsame] at h
  · exact fun h => ⟨d, hmem, hkey.symm, h⟩

theorem compare_code_ok (hf : (f.methods.map file_key).Nodup) (methods : List RunningMethod)
    (hin : ∀ m ∈ methods, m ∈ r.methods) (report : BytecodeReport) :
    ∃ out, compare_code r.reads f.methods report (methods.map RunningMethod.info) = .ok out ∧
      (out.differing ≠ [] ↔ report.differing ≠ [] ∨ ∃ m ∈ methods, CodeDiffersAt f m) := by
  induction methods generalizing report with
  | nil => exact ⟨report, rfl, by simp⟩
  | cons m methods ih =>
    have hrest := fun b hb => hin b (List.mem_cons_of_mem m hb)
    have hstep (next : BytecodeReport)
        (hnext : next.differing ≠ [] ↔ report.differing ≠ [] ∨ CodeDiffersAt f m) :
        ∃ out, compare_code r.reads f.methods next (methods.map RunningMethod.info) = .ok out ∧
          (out.differing ≠ [] ↔
            report.differing ≠ [] ∨ ∃ m' ∈ m :: methods, CodeDiffersAt f m') := by
      obtain ⟨out, hout, hiff⟩ := ih hrest next
      refine ⟨out, hout, ?_⟩
      rw [hiff, hnext, or_assoc, List.exists_mem_cons_iff]
    rw [List.map_cons, compare_code]
    cases hd : f.methods.find? (fun d => (d.name, d.descriptor) = m.info.key) with
    | none =>
      refine hstep report ?_
      have hnot : ¬ CodeDiffersAt f m := by
        rintro ⟨d, hmem, hkey, -⟩
        exact find_none.mp hd d hmem hkey.symm
      simp [hnot]
    | some d =>
      have hiff := code_differs_of_find hf hd
      by_cases hcode : d.has_code = true
      · simp only [hcode, Bool.not_true, Bool.false_eq_true, if_false,
          code_read (hin m List.mem_cons_self)]
        cases hc : m.code with
        | none =>
          refine hstep { report with skipped := report.skipped + 1 } ?_
          simp [hiff, hc]
        | some code =>
          refine hstep _ ?_
          by_cases hne : code = d.code
          · simp [hiff, hc, hne]
          · simp [hiff, hc, hne, hcode]
      · simp only [hcode, Bool.not_false, if_true]
        refine hstep { report with skipped := report.skipped + 1 } ?_
        simp [hiff, hcode]

theorem bytecode_ok (hf : (f.methods.map file_key).Nodup) :
    ∃ out, bytecode_report r.reads f.methods = .ok out ∧
      (out.differing ≠ [] ↔ r.can_get_bytecodes = true ∧ CodeDiffers r f) := by
  have hreads : r.reads.can_get_bytecodes = .ok r.can_get_bytecodes := rfl
  rw [bytecode_report, hreads]
  cases hcan : r.can_get_bytecodes with
  | false => exact ⟨_, rfl, by simp⟩
  | true =>
    obtain ⟨out, hout, hiff⟩ := compare_code_ok hf r.methods (fun _ h => h) ⟨[], 0, 0, false⟩
    refine ⟨out, hout, ?_⟩
    rw [hiff]
    simp [CodeDiffers, CodeDiffersAt]

end CodeVerdict

section Checks

variable {b : Build}

theorem ok_bind {ε α β : Type} (a : α) (f : α → Except ε β) : (Except.ok a >>= f) = f a := rfl

theorem check_verdict (r : Running) (at_ : Found b) (bytecode : Bool) :
    ∃ report, check_stale_report r.reads at_.roots b.class_name bytecode = .ok report ∧
      (report.is_stale = true ↔ MethodsDiffer r b.file ∨ LinesDiffer r b.file ∨
        (bytecode = true ∧ r.can_get_bytecodes = true ∧ CodeDiffers r b.file)) ∧
      ∀ s, count_of report s = r.methods.countP fun m => standing b.file m = s := by
  have hparsed := comparable_of_parsed b.parsed
  have htables := tables_stale_iff (r := r) hparsed b.once
  have hcount := count_tables (f := b.file) hparsed r.methods
  have hresolved : check_stale_report r.reads at_.roots b.class_name bytecode =
      if bytecode = true then do
        let code ← bytecode_report r.reads b.file.methods
        pure { compare_line_tables (r.methods.map method_lines) b.file.methods with
          bytecode := some code }
      else pure (compare_line_tables (r.methods.map method_lines) b.file.methods) := by
    rw [check_stale_report, at_.resolved]
    simp only [at_.readable, b.parsed, b.named, read_tables, Except.mapError, ok_bind,
      ne_eq, not_true_eq_false, if_false]
  rw [hresolved]
  cases bytecode with
  | false => exact ⟨_, rfl, by simpa using htables, hcount⟩
  | true =>
    obtain ⟨code, hcode, hiff⟩ := bytecode_ok (r := r) b.once
    rw [if_pos rfl, hcode]
    refine ⟨_, rfl, ?_, fun s => ?_⟩
    · rw [stale_with_code, htables, hiff, or_assoc]
      simp
    · rw [← hcount s]
      cases s <;> rfl

theorem filter_by_key {α κ : Type} [DecidableEq κ] {key : α → κ} {l : List α}
    (hl : (l.map key).Nodup) (k : κ) :
    l.filter (fun a => key a = k) = (l.find? fun a => key a = k).toList := by
  induction l with
  | nil => rfl
  | cons a l ih =>
    obtain ⟨ha, hl⟩ := List.nodup_cons.mp hl
    by_cases hk : key a = k
    · rw [List.filter_cons_of_pos (by simpa using hk), List.find?_cons_of_pos (by simpa using hk)]
      have hnone : l.filter (fun b => key b = k) = [] := by
        refine List.filter_eq_nil_iff.mpr fun b hb hkb => ha ?_
        exact List.mem_map.mpr ⟨b, hb, (of_decide_eq_true hkb).trans hk.symm⟩
      rw [hnone]
      rfl
    · rw [List.filter_cons_of_neg (by simpa using hk), List.find?_cons_of_neg (by simpa using hk)]
      exact ih hl

def compared_with (jvm : MethodLines) (d : ClassFileMethod) : StaleReport :=
  if d.lines = [] then { StaleReport.new with skipped := 1 }
  else if jvm.lines = d.lines then { StaleReport.new with matched := 1 }
  else { StaleReport.new with differing :=
    [jvm.name ++ jvm.descriptor ++ " — " ++ first_difference jvm (built_lines d)] }

variable {jvm : MethodLines}

theorem compare_one {d : ClassFileMethod} (hkey : file_key d = jvm.key)
    (hd : (built_lines d).comparable = !d.lines.isEmpty) (hjvm : jvm.comparable = true) :
    compare_line_tables [jvm] [d] = compared_with jvm d := by
  have hkey' : (built_lines d).key = jvm.key := hkey
  have hlines : (built_lines d).lines = d.lines := rfl
  have honly : (([d].map built_lines).filter fun file =>
      !([jvm].any fun j => j.key = file.key)) = [] := by
    simp [hkey']
  have hfind : ([d].map built_lines).find? (fun b => b.key = jvm.key) = some (built_lines d) := by
    simp [hkey']
  rw [compare_line_tables, honly, List.foldl_cons, List.foldl_nil, compare_method, hfind,
    compared_with]
  simp only [hjvm, hd, hlines, Bool.not_true, Bool.false_or, Bool.not_not, List.isEmpty_iff]
  split_ifs <;> rfl

theorem caveat_none {methods : List ClassFileMethod} (path : String)
    (h : methods.filter (fun d => (d.name, d.descriptor) = jvm.key) = []) :
    (drift_caveat_from_tables jvm methods path).is_stale = true := by
  rw [drift_caveat_from_tables]
  simp only [h]
  rfl

theorem caveat_one (jvm : MethodLines) {d : ClassFileMethod} {methods : List ClassFileMethod}
    (path : String) (h : methods.filter (fun d => (d.name, d.descriptor) = jvm.key) = [d])
    (hkey : file_key d = jvm.key) (hd : (built_lines d).comparable = !d.lines.isEmpty)
    (hjvm : jvm.comparable = true) :
    (drift_caveat_from_tables jvm methods path = .current ↔ d.lines ≠ [] ∧ d.lines = jvm.lines) ∧
      ((drift_caveat_from_tables jvm methods path).is_stale = true ↔
        d.lines ≠ [] ∧ d.lines ≠ jvm.lines) := by
  rw [drift_caveat_from_tables]
  simp only [h, compare_one hkey hd hjvm, compared_with]
  by_cases hnil : d.lines = []
  · simp [hnil, StaleReport.is_stale, StaleReport.new, DriftCheck.is_stale]
  · by_cases heq : jvm.lines = d.lines
    · simp [hnil, heq, StaleReport.is_stale, StaleReport.new, DriftCheck.is_stale]
    · simp [hnil, heq, Ne.symm heq, StaleReport.is_stale, StaleReport.new, DriftCheck.is_stale]

theorem arming_verdict (at_ : Found b) (method : MethodInfo) {lines : Lines} (hlines : lines ≠ []) :
    let check := drift_check_for_armed_method at_.roots b.class_name method lines
    (check = .current ↔ ∃ d ∈ b.file.methods, file_key d = method.key ∧ d.lines = lines) ∧
      (check.is_stale = true ↔ (∀ d ∈ b.file.methods, file_key d ≠ method.key) ∨
        ∃ d ∈ b.file.methods, file_key d = method.key ∧ d.lines ≠ [] ∧ d.lines ≠ lines) := by
  have hparsed := comparable_of_parsed b.parsed
  have hdrift : drift_check_for_armed_method at_.roots b.class_name method lines =
      drift_caveat_from_tables ⟨method.name, method.signature, lines, true⟩ b.file.methods
        at_.path := by
    rw [drift_check_for_armed_method, if_neg (by simpa using at_.some_root),
      if_neg (by simpa using hlines), at_.resolved]
    simp only [at_.readable, b.parsed, b.named, ne_eq, not_true_eq_false, if_false]
  have hsame : b.file.methods.filter (fun d => (d.name, d.descriptor) = method.key) =
      (b.file.methods.find? fun d => file_key d = method.key).toList :=
    filter_by_key b.once method.key
  show (drift_check_for_armed_method _ _ _ _ = _ ↔ _) ∧ (_ ↔ _)
  rw [hdrift]
  cases hd : b.file.methods.find? (fun d => file_key d = method.key) with
  | none =>
    rw [hd] at hsame
    have hstale : (drift_caveat_from_tables ⟨method.name, method.signature, lines, true⟩
        b.file.methods at_.path).is_stale = true := caveat_none at_.path hsame
    have hnone := find_none.mp hd
    refine ⟨⟨fun h => ?_, ?_⟩, ⟨fun _ => .inl hnone, fun _ => hstale⟩⟩
    · rw [h] at hstale
      cases hstale
    · rintro ⟨d, hmem, hkey, -⟩
      exact absurd hkey (hnone d hmem)
  | some d =>
    rw [hd] at hsame
    obtain ⟨hmem, hkey⟩ := find_some hd
    obtain ⟨hcurrent, hstale⟩ := caveat_one ⟨method.name, method.signature, lines, true⟩
      at_.path hsame hkey (hparsed d hmem) rfl
    have honly {P : ClassFileMethod → Prop} :
        (∃ d ∈ b.file.methods, file_key d = method.key ∧ P d) ↔ P d := by
      constructor
      · rintro ⟨d', hmem', hkey', h⟩
        have hd' := find_by_key b.once hmem' hkey'
        rw [hd] at hd'
        rwa [Option.some.inj hd']
      · exact fun h => ⟨d, hmem, hkey, h⟩
    rw [hcurrent, hstale, honly, honly]
    refine ⟨⟨And.right, fun h => ⟨?_, h⟩⟩, ⟨.inr, ?_⟩⟩
    · rwa [h]
    · rintro (hnone | h)
      · exact absurd hkey (hnone d hmem)
      · exact h

end Checks

section Deployed

open EncodedClasses

/-- The lines of a method's tables in their order, as the JVM merges them. -/
def merged_lines {pool : Pool} (m : Method pool) : Lines :=
  (m.body.map fun b => (b.attributes.val.filterMap CodeItem.lines?).flatten).getD []

def declared_key {pool : Pool} (m : Method pool) : String × String :=
  (m.name.text, m.descriptor.text)

/-- A running class together with the class file it was loaded from. -/
structure Deployed where
  class_file : AbstractClass
  build : Build
  running : Running
  written : build.bytes = class_file.encode
  same_methods : ∀ key, (∃ m ∈ running.methods, m.info.key = key) ↔
    ∃ d ∈ class_file.methods.val, declared_key d = key
  same : ∀ m ∈ running.methods, ∀ d ∈ class_file.methods.val, m.info.key = declared_key d →
    m.lines = merged_lines d ∧ ∀ body ∈ d.body, m.code = some body.code

variable {pool : Pool}

variable (m : Method pool)

theorem declared_file_key : file_key m.declared = declared_key m := by
  rw [Method.declared]
  cases m.body <;> rfl

/-- With one table at most, what is read is what the JVM merges. -/
theorem declared_lines : m.declared.lines = merged_lines m := by
  rw [Method.declared, merged_lines]
  cases m.body with
  | none => rfl
  | some b =>
    show ((b.attributes.val.filterMap CodeItem.lines?).head?).getD [] =
      (b.attributes.val.filterMap CodeItem.lines?).flatten
    have honce := b.once
    cases htables : b.attributes.val.filterMap CodeItem.lines? with
    | nil => rfl
    | cons t ts =>
      rw [htables, List.length_cons] at honce
      rw [List.eq_nil_of_length_eq_zero (by omega : ts.length = 0)]
      exact (List.append_nil t).symm

theorem declared_code (h : m.declared.has_code = true) :
    ∃ body ∈ m.body, body.code = m.declared.code := by
  rw [Method.declared] at h ⊢
  cases hb : m.body with
  | none =>
    rw [hb] at h
    cases h
  | some b => exact ⟨b, rfl, rfl⟩

namespace Deployed

variable (l : Deployed)

theorem file_methods : l.build.file.methods = l.class_file.methods.val.map Method.declared := by
  have h := l.build.parsed
  rw [l.written, parse_encode] at h
  rw [← Except.ok.inj h]
  rfl

theorem of_file {d : ClassFileMethod} (hd : d ∈ l.build.file.methods) :
    ∃ m ∈ l.class_file.methods.val, m.declared = d := by
  rw [l.file_methods] at hd
  exact List.mem_map.mp hd

theorem methods_same : ¬ MethodsDiffer l.running l.build.file := by
  refine not_not.mpr fun key => ?_
  rw [l.same_methods, l.file_methods]
  simp only [List.mem_map, exists_exists_and_eq_and, declared_file_key]

theorem lines_same {m : RunningMethod} (hm : m ∈ l.running.methods) {d : ClassFileMethod}
    (hd : d ∈ l.build.file.methods) (hkey : m.info.key = file_key d) : m.lines = d.lines := by
  obtain ⟨d, hmem, rfl⟩ := l.of_file hd
  rw [declared_file_key] at hkey
  rw [declared_lines, (l.same m hm d hmem hkey).1]

theorem code_same : ¬ CodeDiffers l.running l.build.file := by
  rintro ⟨m, hm, d, hd, hkey, hcode, code, hmc, hne⟩
  obtain ⟨d, hmem, rfl⟩ := l.of_file hd
  rw [declared_file_key] at hkey
  obtain ⟨body, hbody, hsame⟩ := declared_code d hcode
  have hm' := (l.same m hm d hmem hkey).2 body hbody
  rw [hmc] at hm'
  exact hne ((Option.some.inj hm').trans hsame)

end Deployed

/-- What each answer means; a deployed class is not stale against its own class file. -/
theorem silence_is_proof :
    (∀ (b : Build) (at_ : Found b) (method : MethodInfo) (lines : Lines),
      (lines = [] → ∃ why,
        drift_check_for_armed_method at_.roots b.class_name method lines = .not_checked why) ∧
      (lines ≠ [] →
        (drift_check_for_armed_method at_.roots b.class_name method lines = .current ↔
          ∃ d ∈ b.file.methods, file_key d = method.key ∧ d.lines = lines) ∧
        ((drift_check_for_armed_method at_.roots b.class_name method lines).is_stale = true ↔
          (∀ d ∈ b.file.methods, file_key d ≠ method.key) ∨
            ∃ d ∈ b.file.methods, file_key d = method.key ∧ d.lines ≠ [] ∧ d.lines ≠ lines))) ∧
    (∀ (r : Running) (b : Build) (at_ : Found b) (bytecode : Bool),
      ∃ report, check_stale_report r.reads at_.roots b.class_name bytecode = .ok report ∧
        (report.is_stale = true ↔ MethodsDiffer r b.file ∨ LinesDiffer r b.file ∨
          (bytecode = true ∧ r.can_get_bytecodes = true ∧ CodeDiffers r b.file)) ∧
        (∀ s, count_of report s = r.methods.countP fun m => standing b.file m = s) ∧
        report.matched + report.differing.length + report.skipped + report.only_in_jvm.length =
          r.methods.length) ∧
    (∀ (l : Deployed) (at_ : Found l.build) (bytecode : Bool),
      (∃ report, check_stale_report l.running.reads at_.roots l.build.class_name bytecode =
        .ok report ∧ report.is_stale = false) ∧
      ∀ m ∈ l.running.methods, (drift_check_for_armed_method at_.roots l.build.class_name m.info
        m.lines).is_stale = false) := by
  have hempty {b : Build} (at_ : Found b) (method : MethodInfo) : ∃ why,
      drift_check_for_armed_method at_.roots b.class_name method [] = .not_checked why := by
    rw [drift_check_for_armed_method, if_neg (by simpa using at_.some_root)]
    exact ⟨_, rfl⟩
  refine ⟨fun b at_ method lines => ⟨?_, arming_verdict at_ method⟩, ?_,
    fun l at_ bytecode => ⟨?_, ?_⟩⟩
  · rintro rfl
    exact hempty at_ method
  · intro r b at_ bytecode
    obtain ⟨report, hreport, hstale, hcount⟩ := check_verdict r at_ bytecode
    refine ⟨report, hreport, hstale, hcount, ?_⟩
    have hsum := standings_sum b.file r.methods
    simp only [← hcount] at hsum
    exact hsum
  · obtain ⟨report, hreport, hstale, -⟩ := check_verdict l.running at_ bytecode
    refine ⟨report, hreport, Bool.eq_false_iff.mpr fun h => ?_⟩
    rcases hstale.mp h with h | ⟨m, hm, d, hd, hkey, -, -, hne⟩ | ⟨-, -, h⟩
    · exact l.methods_same h
    · exact hne (l.lines_same hm hd hkey)
    · exact l.code_same h
  · intro m hm
    by_cases hlines : m.lines = []
    · obtain ⟨why, hwhy⟩ := hempty at_ m.info
      rw [hlines, hwhy]
      rfl
    · obtain ⟨-, hstale⟩ := arming_verdict at_ m.info hlines
      refine Bool.eq_false_iff.mpr fun h => ?_
      rcases hstale.mp h with hnone | ⟨d, hd, hkey, -, hne⟩
      · have hboth := not_not.mp l.methods_same m.info.key
        obtain ⟨d, hd, hkey⟩ := hboth.mp ⟨m, hm, rfl⟩
        exact hnone d hd hkey
      · exact hne (l.lines_same hm hd hkey.symm).symm

end Deployed

section Unchecked

/-- Class `A` with one method, `m()V`, whose two lines are in two tables. -/
def split_class : Bytes :=
  [0xCA, 0xFE, 0xBA, 0xBE, 0, 0, 0, 52, 0, 7, 1, 0, 1, 65, 7, 0, 1, 1, 0, 1, 109, 1, 0, 3, 40, 41,
    86, 1, 0, 4, 67, 111, 100, 101, 1, 0, 15, 76, 105, 110, 101, 78, 117, 109, 98, 101, 114, 84,
    97, 98, 108, 101, 0, 33, 0, 2, 0, 0, 0, 0, 0, 0, 0, 1, 0, 1, 0, 3, 0, 4, 0, 1, 0, 5, 0, 0, 0,
    38, 0, 1, 0, 1, 0, 0, 0, 2, 0, 177, 0, 0, 0, 2, 0, 6, 0, 0, 0, 6, 0, 1, 0, 0, 0, 7, 0, 6, 0, 0,
    0, 6, 0, 1, 0, 1, 0, 8, 0, 0]

def split_file : ClassFile :=
  ⟨"A", 33, none, [], [], [⟨1, "m", "()V", [(0, 7)], true, true, [0, 177]⟩]⟩

def split_build : Build where
  class_name := "A"
  bytes := split_class
  file := split_file
  parsed := by decide +kernel
  named := rfl
  once := by decide

def split_found : Found split_build where
  roots := ⟨["target/classes"], fun _ => .ok "target/classes/A.class", fun _ => .ok split_class⟩
  path := "target/classes/A.class"
  some_root := by decide
  resolved := rfl
  readable := rfl

/-- The same class from a build without debug information. -/
def stripped : Running where
  methods := [⟨⟨1, "m", "()V"⟩, none, some [0, 177]⟩]
  can_get_bytecodes := true
  ids_once := by decide
  once := by decide

/-- The class as the JVM runs it, with the lines of both tables. -/
def running_class : Running where
  methods := [⟨⟨1, "m", "()V"⟩, some ([(0, 7)] ++ [(1, 8)]), some [0, 177]⟩]
  can_get_bytecodes := true
  ids_once := by decide
  once := by decide

/-- A method that the build lacks passes for unchecked when the JVM has no table for it, a table
on one side only is passed over, and a class with split tables is stale against itself. -/
theorem silence_is_no_proof :
    (∃ (b : Build) (at_ : Found b) (method : MethodInfo),
      (∀ d ∈ b.file.methods, file_key d ≠ method.key) ∧
      (drift_check_for_armed_method at_.roots b.class_name method []).is_stale = false) ∧
    (∃ (r : Running) (b : Build) (at_ : Found b) (report : StaleReport),
      (∃ m ∈ r.methods, ∃ d ∈ b.file.methods, m.info.key = file_key d ∧ m.lines ≠ d.lines) ∧
      check_stale_report r.reads at_.roots b.class_name false = .ok report ∧
      report.is_stale = false) ∧
    ∃ report : StaleReport, check_stale_report running_class.reads split_found.roots
      split_build.class_name false = .ok report ∧ report.is_stale = true := by
  refine ⟨⟨split_build, split_found, ⟨2, "n", "()V"⟩, ?_, by decide⟩, ⟨stripped, split_build,
    split_found, ⟨0, [], [], [], 1, none⟩, ?_, by decide +kernel, rfl⟩, ?_⟩
  · rintro d (_ | ⟨_, ⟨⟩⟩)
    decide
  · exact ⟨_, List.mem_singleton_self _, _, List.mem_singleton_self _, rfl, by decide⟩
  · obtain ⟨report, hreport, hstale, -⟩ := check_verdict running_class split_found false
    refine ⟨report, hreport, hstale.mpr (.inr (.inl ?_))⟩
    exact ⟨_, List.mem_singleton_self _, _, List.mem_singleton_self _, rfl, by decide⟩

end Unchecked

end JavaDebug.StaleVerdicts
