import JavaDebug.FloatValues
import JavaDebug.MapWalks

/-!
A comparison's right side is a literal or a value read before. Numbers compare
on the scale of doubles, booleans and `null` for equality, strings by contents
and other references by identity. The two ways agree on the value a literal
denotes, but a string literal is compared with strings alone.
-/
namespace JavaDebug.Comparisons

open WireReader JavaValues MapWalks FloatValues

section Code

variable (d : Heap)

def value_as_f64 : ValueData → Option FloatValue
  | .int v => some (of_int 53 v.toInt)
  | .long v => some (of_int 53 v.toInt)
  | .short v => some (of_int 53 v.toInt)
  | .byte v => some (of_int 53 v.toInt)
  | .char v => some (of_int 53 v.toNat)
  | .float bits => some (of_bits 8 23 bits.toNat)
  | .double bits => some (of_bits 11 52 bits.toNat)
  | _ => none

def arglit_as_f64 : ArgLit → Option FloatValue
  | .int v => some (of_int 53 v.toInt)
  | .long v => some (of_int 53 v.toInt)
  | .float bits => some (of_bits 8 23 bits.toNat)
  | .double bits => some (of_bits 11 52 bits.toNat)
  | .char v => some (of_int 53 v.toNat)
  | _ => none

def compare_f64 (l r : FloatValue) (op : String) : Except String Bool :=
  let order := partial_cmp l r
  if op = "==" then .ok (order = some .eq)
  else if op = "!=" then .ok (order ≠ some .eq)
  else if op = "<" then .ok (order = some .lt)
  else if op = ">" then .ok (order = some .gt)
  else if op = "<=" then .ok (order = some .lt ∨ order = some .eq)
  else if op = ">=" then .ok (order = some .gt ∨ order = some .eq)
  else .error "bad operator"

/-- What is compared for equality alone. -/
def equality (equal : Bool) (op only : String) : Except String Bool :=
  if op = "==" then .ok equal
  else if op = "!=" then .ok !equal
  else .error only

def UNSUPPORTED : String :=
  "Unsupported comparison (numbers, booleans, null, or String value compares only)"

/-- The operator is not looked at where a reference is `null` and the literal is a string. -/
def compare_object (id : UInt64) (op : String) (rlit : ArgLit) : Except String Bool :=
  match rlit with
  | .null => equality (id = 0) op "only == / != with null"
  | .str s =>
    if id = 0 then .ok (op = "!=")
    else
      match d.get_object_reference_type id with
      | .error e => .error ("Failed to resolve type: " ++ e)
      | .ok t =>
        if (d.get_signature t).toOption.getD "" = "Ljava/lang/String;" then
          match d.get_string_value id with
          | .error e => .error ("Failed to read string: " ++ e)
          | .ok sv => equality (sv = s) op "only == / != for strings"
        else .error "Left side is not a String"
  | _ => .error UNSUPPORTED

def compare_values (lv : Value) (op : String) (rlit : ArgLit) : Except String Bool :=
  match value_as_f64 lv.data, arglit_as_f64 rlit with
  | some l, some r => compare_f64 l r op
  | _, _ =>
    match lv.data, rlit with
    | .boolean l, .bool r => equality (l = r) op "only == / != for booleans"
    | .object id, _ => compare_object d id op rlit
    | _, _ => .error UNSUPPORTED

/-- The contents of a live string. -/
def string_value_of (id : UInt64) : Option String :=
  if id = 0 then none
  else
    match d.get_object_reference_type id with
    | .error _ => none
    | .ok t =>
      match d.get_signature t with
      | .error _ => none
      | .ok sig => if sig = "Ljava/lang/String;" then (d.get_string_value id).toOption else none

def same_contents (l r : UInt64) : Bool :=
  match string_value_of d l, string_value_of d r with
  | some a, some b => a = b
  | _, _ => l = r

def compare_resolved (lv : Value) (op : String) (rv : Value) : Except String Bool :=
  match value_as_f64 lv.data, value_as_f64 rv.data with
  | some l, some r => compare_f64 l r op
  | _, _ =>
    match lv.data, rv.data with
    | .boolean l, .boolean r => equality (l = r) op "only == / != for booleans"
    | .object l, .object r =>
      equality (same_contents d l r) op "only == / != when comparing objects"
    | _, _ =>
      .error ("Unsupported comparison (compare numbers with numbers, booleans with booleans, or " ++
        "objects with objects)")

end Code

section Meaning

variable (d : Heap)

/-- The values a literal denotes; for a string, any live one with its contents. -/
def Denotes (rlit : ArgLit) (rv : Value) : Prop :=
  match rlit with
  | .int v => rv.data = .int v
  | .long v => rv.data = .long v
  | .float bits => rv.data = .float bits
  | .double bits => rv.data = .double bits
  | .char v => rv.data = .char v
  | .bool b => rv.data = .boolean b
  | .null => rv.data = .object 0
  | .str s => ∃ id, rv.data = .object id ∧ string_value_of d id = some s
  | .expr _ => False

/-- The left side is a reference that no contents are read from, and the literal is a string. -/
def NoContents (lv : Value) (rlit : ArgLit) : Prop :=
  ∃ id s, lv.data = .object id ∧ rlit = .str s ∧ string_value_of d id = none

theorem toOption_equality (equal : Bool) (op only only' : String) :
    (equality equal op only).toOption = (equality equal op only').toOption := by
  unfold equality
  split_ifs <;> rfl

theorem string_value_of_null : string_value_of d 0 = none := by
  rw [string_value_of, if_pos rfl]

variable (id : UInt64)

/-- What a string literal comes to, by the reads that its contents are read with. -/
theorem compare_object_str (op s : String) (hid : id ≠ 0) :
    (compare_object d id op (.str s)).toOption =
      (string_value_of d id).bind fun contents =>
        (equality (contents = s) op "only == / != for strings").toOption := by
  rw [compare_object, if_neg hid, string_value_of, if_neg hid]
  rcases d.get_object_reference_type id with e | t
  · rfl
  · dsimp only
    rcases d.get_signature t with e | sig
    · rfl
    · change (if sig = "Ljava/lang/String;" then _ else _ : Except String Bool).toOption = _
      dsimp only
      by_cases hstring : sig = "Ljava/lang/String;"
      · rw [if_pos hstring, if_pos hstring]
        rcases d.get_string_value id with e | contents <;> rfl
      · rw [if_neg hstring, if_neg hstring]
        rfl

theorem compare_resolved_objects (l r : UInt64) (lv rv : Value) (op : String)
    (hl : lv.data = .object l) (hr : rv.data = .object r) : compare_resolved d lv op rv =
      equality (same_contents d l r) op "only == / != when comparing objects" := by
  simp only [compare_resolved, hl, hr, value_as_f64]

theorem compare_values_object (lv : Value) (op : String) (rlit : ArgLit) (hl : lv.data = .object id)
    : compare_values d lv op rlit = compare_object d id op rlit := by
  simp only [compare_values, hl, value_as_f64]

theorem same_contents_null : same_contents d id 0 = decide (id = 0) := by
  rw [same_contents, string_value_of_null]
  rcases string_value_of d id <;> rfl

theorem same_contents_live (l r : UInt64) (a b : String) (hl : string_value_of d l = some a)
    (hr : string_value_of d r = some b) : same_contents d l r = decide (a = b) := by
  rw [same_contents, hl, hr]

theorem same_contents_unread (l r : UInt64) (b : String) (hl : string_value_of d l = none)
    (hr : string_value_of d r = some b) : same_contents d l r = false := by
  rw [same_contents, hl]
  apply decide_eq_false
  rintro rfl
  simp [hl] at hr

theorem compare_object_null (l : UInt64) (op : String) :
    (compare_object d l op .null).toOption =
      (equality (same_contents d l 0) op "only == / != when comparing objects").toOption := by
  rw [same_contents_null]
  exact toOption_equality _ op _ _

/-- A literal is compared as the value it denotes, except with a reference without contents. -/
theorem compare_denoted (lv : Value) (op : String) (rlit : ArgLit) (rv : Value)
    (h : Denotes d rlit rv) (hleft : ¬ NoContents d lv rlit) :
    (compare_values d lv op rlit).toOption = (compare_resolved d lv op rv).toOption := by
  rcases lv with ⟨ltag, ldata⟩
  rcases rv with ⟨rtag, rdata⟩
  rcases rlit with v | v | bits | bits | v | b | - | s | e
  case null =>
    obtain rfl : rdata = .object 0 := h
    cases ldata with
    | object l => exact compare_object_null d l op
    | _ => rfl
  case str =>
    obtain ⟨r, rfl, hr⟩ : ∃ r, rdata = .object r ∧ string_value_of d r = some s := h
    cases ldata with
    | object l =>
      rcases hl : string_value_of d l with _ | contents
      · exact absurd ⟨l, s, rfl, rfl, hl⟩ hleft
      · have hid : l ≠ 0 := by
          rintro rfl
          simp [string_value_of_null] at hl
        show (compare_object d l op (.str s)).toOption =
          (equality (same_contents d l r) op _).toOption
        rw [compare_object_str d l op s hid, hl, same_contents_live d l r contents s hl hr]
        exact toOption_equality _ op _ _
    | _ => rfl
  case expr => exact h.elim
  case bool =>
    obtain rfl : rdata = .boolean b := h
    cases ldata <;> rfl
  all_goals
    simp only [Denotes] at h
    subst h
    cases ldata <;> rfl

/-- Where nothing is read of a reference, a string literal is refused, and a string value is told
apart from it by identity. -/
theorem compare_without_contents (lv : Value) (op s : String) (rv : Value)
    (hl : lv.data = .object id) (hid : id ≠ 0) (hnone : string_value_of d id = none)
    (h : Denotes d (.str s) rv) :
    (compare_values d lv op (.str s)).toOption = none ∧
      (compare_resolved d lv op rv).toOption =
        (equality false op "only == / != when comparing objects").toOption := by
  obtain ⟨r, hr, hcontents⟩ := h
  constructor
  · rw [compare_values_object d id lv op _ hl, compare_object_str d id op s hid, hnone]
    rfl
  · rw [compare_resolved_objects d id r lv rv op hl hr,
      same_contents_unread d id r s hnone hcontents]

/-- `null` is told apart from a string by `==` and `!=`, whichever way the string arrived. -/
theorem compare_null_with_string (lv : Value) (op s : String) (rv : Value)
    (hl : lv.data = .object 0) (hop : op = "==" ∨ op = "!=") (h : Denotes d (.str s) rv) :
    (compare_values d lv op (.str s)).toOption = (compare_resolved d lv op rv).toOption := by
  obtain ⟨r, hr, hcontents⟩ := h
  rw [compare_values_object d 0 lv op _ hl, compare_resolved_objects d 0 r lv rv op hl hr,
    same_contents_unread d 0 r s (string_value_of_null d) hcontents]
  rcases hop with rfl | rfl <;> rfl

end Meaning

section Integers

variable (d : Heap)

def int_of : ValueData → Option ℤ
  | .byte v => some v.toInt
  | .short v => some v.toInt
  | .char v => some v.toNat
  | .int v => some v.toInt
  | .long v => some v.toInt
  | _ => none

def int_of_lit : ArgLit → Option ℤ
  | .int v => some v.toInt
  | .long v => some v.toInt
  | .char v => some v.toNat
  | _ => none

/-- What an operator says of two integers. -/
def int_compare (a b : ℤ) (op : String) : Except String Bool :=
  if op = "==" then .ok (a = b)
  else if op = "!=" then .ok (a ≠ b)
  else if op = "<" then .ok (a < b)
  else if op = ">" then .ok (b < a)
  else if op = "<=" then .ok (a ≤ b)
  else if op = ">=" then .ok (b ≤ a)
  else .error "bad operator"

theorem value_as_f64_of_int (data : ValueData) (a : ℤ) (h : int_of data = some a) :
    value_as_f64 data = some (of_int 53 a) := by
  cases data <;> simp only [int_of, Option.some.injEq, reduceCtorEq] at h <;> rw [← h] <;> rfl

theorem arglit_as_f64_of_int (rlit : ArgLit) (b : ℤ) (h : int_of_lit rlit = some b) :
    arglit_as_f64 rlit = some (of_int 53 b) := by
  cases rlit <;> simp only [int_of_lit, Option.some.injEq, reduceCtorEq] at h <;> rw [← h] <;> rfl

/-- On the scale, integers of at most 53 bits keep their order. -/
theorem compare_f64_of_int (a b : ℤ) (op : String) (ha : a.natAbs ≤ 2 ^ 53) (hb : b.natAbs ≤ 2 ^ 53)
    : compare_f64 (of_int 53 a) (of_int 53 b) op = int_compare a b op := by
  unfold compare_f64 int_compare
  rw [partial_cmp_of_int 53 a b (by omega) ha hb]
  rcases lt_trichotomy a b with h | rfl | h
  · have hne : a ≠ b := by omega
    have hle : ¬ b ≤ a := by omega
    have hlt : ¬ b < a := by omega
    simp [h, hne, hle, hlt, le_of_lt h]
  · simp
  · have hne : a ≠ b := by omega
    have hle : ¬ a ≤ b := by omega
    have hlt : ¬ a < b := by omega
    simp [h, hne, hle, hlt, le_of_lt h]

theorem compare_values_of_int (lv : Value) (op : String) (rlit : ArgLit) (a b : ℤ)
    (hl : int_of lv.data = some a) (hr : int_of_lit rlit = some b) (ha : a.natAbs ≤ 2 ^ 53)
    (hb : b.natAbs ≤ 2 ^ 53) : compare_values d lv op rlit = int_compare a b op := by
  unfold compare_values
  rw [value_as_f64_of_int _ a hl, arglit_as_f64_of_int _ b hr]
  exact compare_f64_of_int a b op ha hb

theorem compare_resolved_of_int (lv : Value) (op : String) (rv : Value) (a b : ℤ)
    (hl : int_of lv.data = some a) (hr : int_of rv.data = some b) (ha : a.natAbs ≤ 2 ^ 53)
    (hb : b.natAbs ≤ 2 ^ 53) : compare_resolved d lv op rv = int_compare a b op := by
  unfold compare_resolved
  rw [value_as_f64_of_int _ a hl, value_as_f64_of_int _ b hr]
  exact compare_f64_of_int a b op ha hb

end Integers

section Results

/-- A literal is compared as the value it denotes. A string literal is compared with live strings
and, by `==` and `!=`, with `null`; any other reference is refused. Integers of at most 53 bits
compare exactly, whether the right side is a literal or any value at all. -/
theorem literal_compared_as_denoted (d : Heap) (lv : Value) (op : String) (rlit : ArgLit) :
    (∀ rv, Denotes d rlit rv →
      (¬ NoContents d lv rlit ∨ lv.data = .object 0 ∧ (op = "==" ∨ op = "!=") →
        (compare_values d lv op rlit).toOption = (compare_resolved d lv op rv).toOption) ∧
      (∀ id, lv.data = .object id → id ≠ 0 → NoContents d lv rlit →
        (compare_values d lv op rlit).toOption = none ∧
          (compare_resolved d lv op rv).toOption =
            (equality false op "only == / != when comparing objects").toOption)) ∧
    (∀ a b, int_of lv.data = some a → a.natAbs ≤ 2 ^ 53 → b.natAbs ≤ 2 ^ 53 →
      (int_of_lit rlit = some b → compare_values d lv op rlit = int_compare a b op) ∧
      (∀ rv : Value, int_of rv.data = some b →
        compare_resolved d lv op rv = int_compare a b op)) := by
  refine ⟨fun rv h => ⟨?_, ?_⟩, ?_⟩
  · intro hcase
    by_cases hleft : NoContents d lv rlit
    · obtain ⟨hl, hop⟩ := hcase.resolve_left (not_not.mpr hleft)
      obtain ⟨id, s, hid, rfl, hnone⟩ := hleft
      exact compare_null_with_string d lv op s rv hl hop h
    · exact compare_denoted d lv op rlit rv h hleft
  · rintro id hl hid ⟨id', s, hid', rfl, hnone⟩
    obtain rfl : id = id' := by
      rw [hl] at hid'
      exact ValueData.object.inj hid'
    exact compare_without_contents d id lv op s rv hl hid hnone h
  · intro a b hl ha hb
    exact ⟨fun hr => compare_values_of_int d lv op rlit a b hl hr ha hb,
      fun rv hr => compare_resolved_of_int d lv op rv a b hl hr ha hb⟩

/-- Object 1 is of a class of its own, every other object the string `x`. -/
def two_kinds : Heap where
  get_object_reference_type id := .ok (if id = 1 then 10 else 20)
  get_signature type_id := .ok (if type_id = 10 then "Lshop/Cart;" else "Ljava/lang/String;")
  get_superclass _ := .ok none
  get_interfaces _ := .ok []
  get_fields _ := .ok []
  get_methods _ := .ok []
  get_object_values _ _ := .ok []
  get_array_length _ := .ok 0
  get_array_values _ _ _ := .ok []
  get_string_value _ := .ok "x"

/-- A string literal against a string compares contents both ways, and 5 as an `int` is less than
7 as a `byte`. -/
theorem literal_compared_with_string :
    (compare_values two_kinds (value_object 2) "==" (.str "x")).toOption = some true ∧
      compare_resolved two_kinds (value_int 5) "<" (value_byte 7) = .ok true := by
  constructor
  · have hboth := ((literal_compared_as_denoted two_kinds (value_object 2) "==" (.str "x")).1
      (value_object 3) ⟨3, rfl, by decide⟩).1 (.inl ?_)
    · rw [hboth]
      decide
    · rintro ⟨id, s, hid, -, hnone⟩
      obtain rfl : 2 = id := ValueData.object.inj hid
      revert hnone
      decide
  · have hexact := ((literal_compared_as_denoted two_kinds (value_int 5) "<" .null).2 5 7 rfl
      (by decide) (by decide)).2 (value_byte 7) rfl
    rw [hexact]
    decide

/-- An object that is no string differs from a string value, and not from a string literal. -/
theorem literal_refused_for_object :
    ¬ ∀ (d : Heap) (lv : Value) (op : String) (rlit : ArgLit) (rv : Value), Denotes d rlit rv →
      (compare_values d lv op rlit).toOption = (compare_resolved d lv op rv).toOption := by
  intro hall
  have h := hall two_kinds (value_object 1) "==" (.str "x") (value_object 2)
    ⟨2, rfl, by decide⟩
  revert h
  decide

end Results

end JavaDebug.Comparisons
