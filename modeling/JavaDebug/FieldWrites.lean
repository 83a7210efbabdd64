import JavaDebug.FloatCasts
import JavaDebug.Invocations

/-!
Writes to fields and array elements. A value to write is a literal turned to the
declared type by one table for each kind of literal, or the value of an
expression; what it is checked against is the first byte of the declared type,
and `SetValues` sends its bytes without a tag. `write_holds` says what a written
value is for the place it is written to.
-/
namespace JavaDebug.FieldWrites

open Jdwp Octets WireReader JavaValues
  Overloads Invocations FloatValues FloatCasts

section Bytes

theorem tagged_width {v : Value} (h : Tagged v) :
    value_width v.tag = .ok (write_untagged_value v).length := by
  obtain ⟨tag, data⟩ := v
  unfold write_untagged_value
  cases data with
  | object id =>
    simp only [Tagged, List.mem_cons, List.not_mem_nil, or_false] at h
    simp only [length_put]
    rcases h with rfl | rfl | rfl | rfl | rfl | rfl | rfl
    all_goals rfl
  | _ =>
    simp only [Tagged] at h
    subst h
    simp only [length_put]
    rfl

end Bytes

section Literals

/-- `display` is how a double is printed. -/
def no_truncating_write (display : UInt64 → String) (kind : String) (v : UInt64) (sig_byte : UInt8)
    : String :=
  "the " ++ kind ++ " literal " ++ display v ++ " cannot be written to a field of Java type '" ++
    String.singleton (Char.ofNat sig_byte.toNat) ++ "' — it would be truncated rather than " ++
    "rounded, so write the whole number you mean if that is what you intended"

def int_literal_to_value (n : Int32) (sig_byte : UInt8) : Value :=
  match sig_byte with
  | 74 => value_long n.toInt64
  | 90 => value_bool (n ≠ 0)
  | 66 => value_byte n.toInt8
  | 83 => value_short n.toInt16
  | 67 => value_char n.toUInt32.toUInt16
  | 70 => value_float (f32_of_int n.toInt)
  | 68 => value_double (f64_of_int n.toInt)
  | _ => value_int n

def float_literal_to_value (display : UInt64 → String) (v : UInt64) (is_float : Bool)
    (sig_byte : UInt8) : Except String Value :=
  let refused : Except String Value :=
    .error (no_truncating_write display (if is_float then "float" else "double") v sig_byte)
  match sig_byte with
  | 70 => .ok (value_float (f32_of_f64 v))
  | 68 => .ok (value_double v)
  | 74 => refused
  | 73 => refused
  | 83 => refused
  | 66 => refused
  | 67 => refused
  | _ => .ok (if is_float then value_float (f32_of_f64 v) else value_double v)

def char_literal_to_value (c : UInt16) (sig_byte : UInt8) : Value :=
  match sig_byte with
  | 73 => value_int c.toUInt32.toInt32
  | 74 => value_long c.toUInt64.toInt64
  | 83 => value_short c.toInt16
  | 66 => value_byte c.toUInt8.toInt8
  | 70 => value_float (f32_of_int c.toNat)
  | 68 => value_double (f64_of_int c.toNat)
  | _ => value_char c

end Literals

section Values

inductive Place
  | element (array : UInt64) (index : Int32)
  | instance (object : UInt64) (field : ℕ)
  | static (class_id : ClassId) (field : ℕ)
  deriving DecidableEq

/-- A `SetValues` command; what goes out is the value's bytes. -/
structure SetValues where
  place : Place
  value : Value
  deriving DecidableEq

/-- The debuggee, and how the server reads texts: as a literal, and as the value of an expression
on a frame of the thread. -/
structure Debuggee extends Types where
  parse_lit : String → Except String ArgLit
  resolve_expression : Option ThreadId → ℕ → String → Except String Value
  resolve_class_by_dotted : String → Except String (Option ClassId)
  create_string : String → Except String UInt64
  get_array_length : UInt64 → Except String Int32
  send : SetValues → Except String Unit
  rendered_element : UInt64 → Int32 → Option String
  decode_signature : String → String
  format : Value → String
  debug : ArgLit → String
  display : UInt64 → String

variable (d : Debuggee)

def literal_to_value (s : String) (sig_byte : UInt8) : Except String Value :=
  match d.parse_lit s with
  | .error e => .error e
  | .ok (.str st) =>
    match d.create_string st with
    | .error e => .error ("Failed to create string: " ++ e)
    | .ok id => .ok (value_object id)
  | .ok .null => .ok value_null
  | .ok (.bool b) => .ok (value_bool b)
  | .ok (.long n) => .ok (value_long n)
  | .ok (.expr e) =>
    .error ("'" ++ e ++ "' is not a literal — set_value takes a literal (int, 123L, 1.5, 2.0f, " ++
      "'a', true/false, null, \"string\")")
  | .ok (.float v) => float_literal_to_value d.display (f64_of_f32 v) true sig_byte
  | .ok (.double v) => float_literal_to_value d.display v false sig_byte
  | .ok (.char c) => .ok (char_literal_to_value c sig_byte)
  | .ok (.int n) => .ok (int_literal_to_value n sig_byte)

def validate_ref_assignable (declared_sig : String) (v : Value) : Except String Unit :=
  if is_reference declared_sig then
    match v.data with
    | .object id =>
      if id = 0 then .ok ()
      else
        match d.get_object_reference_type id with
        | .error e => .error ("Failed to resolve the source value's type: " ++ e)
        | .ok rt =>
          let ok := if starts_with declared_sig '[' then
              match d.get_signature rt with
              | .ok s => starts_with s '['
              | .error _ => false
            else implements_interface d.toTypes rt declared_sig
          if ok then .ok ()
          else .error ("Type mismatch: the source is " ++
            d.decode_signature ((d.get_signature rt).toOption.getD "") ++ ", but the target is " ++
            d.decode_signature declared_sig ++ " — a reference of the wrong type is refused, " ++
            "because the JVM would not catch it.")
    | _ => .error ("The target is " ++ d.decode_signature declared_sig ++
        " (a reference), but the source resolved to a primitive.")
  else .ok ()

def trimmed (s : String) : String := String.ofList (Addressing.trim s.toList)

variable (thread_opt : Option ThreadId)

variable (frame_index : ℕ)

def value_to_write (value_str declared_sig how_to_suspend : String) : Except String Value :=
  let sig_byte := (first_byte declared_sig).getD 76
  match d.parse_lit (trimmed value_str) with
  | .error e => .error e
  | .ok (.expr e) =>
    match thread_opt with
    | none => .error ("Copying the live value '" ++ e ++ "' needs a suspended thread — " ++
        how_to_suspend)
    | some tid =>
      match d.resolve_expression (some tid) frame_index e with
      | .error e => .error e
      | .ok v => (validate_ref_assignable d declared_sig v).map fun _ => v
  | .ok _ => literal_to_value d value_str sig_byte

def type_mismatch_err (name field_sig : String) (value : Value) : String :=
  "Type mismatch: '" ++ name ++ "' is declared " ++ d.decode_signature field_sig ++
    ", but the value " ++ d.format value ++ " is not assignable — pass a compatible literal."

/-- Check the value against the declared type's first byte, then send it. -/
def write_checked (value_str declared_sig how_to_suspend : String) (sig_byte : UInt8)
    (place : Place) (mismatch : Value → String) (failed done : String) :
    Option SetValues × Except String String :=
  match value_to_write d thread_opt frame_index value_str declared_sig how_to_suspend with
  | .error e => (none, .error e)
  | .ok v =>
    if tag_compatible sig_byte v.tag then
      match d.send ⟨place, v⟩ with
      | .error e => (some ⟨place, v⟩, .error (failed ++ e))
      | .ok _ => (some ⟨place, v⟩, .ok done)
    else (none, .error (mismatch v))

/-- The component type of an array type; the empty text stands for one that could not be read. -/
def component_of (sig : String) : String :=
  if starts_with sig '[' then String.ofList (sig.toList.drop 1) else sig

def set_array_element (thread_opt : ThreadId) (frame_index : ℕ) (id : UInt64)
    (container_expr : String) (key : ArgLit) (raw_value how_to_suspend : String) :
    Option SetValues × Except String String :=
  match key with
  | .int i =>
    match d.get_array_length id with
    | .error e => (none, .error ("Failed to read length of '" ++ container_expr ++ "': " ++ e))
    | .ok len =>
      if i < 0 ∨ len ≤ i then
        (none, .error ("Index " ++ toString i ++ " is out of bounds for '" ++ container_expr ++
          "' (length " ++ toString len ++ ")"))
      else
        match d.get_object_reference_type id with
        | .error e =>
          (none, .error ("Failed to resolve type of '" ++ container_expr ++ "': " ++ e))
        | .ok type_id =>
          let component := component_of ((d.get_signature type_id).toOption.getD "")
          let was :=
            match d.rendered_element id i with
            | some old => " (was " ++ old ++ ")"
            | none => ""
          write_checked d (some thread_opt) frame_index raw_value component how_to_suspend
            ((first_byte component).getD 76) (.element id i)
            (fun v => "'" ++ container_expr ++ "[" ++ toString i ++ "]' is " ++
              d.decode_signature component ++ " — a " ++
              d.decode_signature (String.singleton (Char.ofNat v.tag.toNat)) ++
              " literal can't be written to it")
            ("Failed to write '" ++ container_expr ++ "[" ++ toString i ++ "]': ")
            ("✅ Set " ++ container_expr ++ "[" ++ toString i ++ "] = " ++ raw_value ++ was)
  | _ => (none, .error ("An array index must be an int, got " ++ d.debug key ++ " on '" ++
      container_expr ++ "'"))

/-- A field found by name and the check of its signature, shared by both kinds of field. -/
def write_field (found : Except String (Option (ClassId × FieldInfo))) (absent : String)
    (place : ℕ → Place) (field_name value_str how_to_suspend failed done : String) :
    Option SetValues × Except String String :=
  match found with
  | .error e => (none, .error e)
  | .ok none => (none, .error absent)
  | .ok (some (_, f)) =>
    match first_byte f.signature with
    | none => (none, .error "Bad field signature")
    | some sig_byte =>
      write_checked d thread_opt frame_index value_str f.signature how_to_suspend sig_byte
        (place f.field_id) (type_mismatch_err d field_name f.signature) failed done

inductive FieldWrite
  | done (message : String)
  | fallthrough (reason : Option String)

/-- `container` is what the container's expression comes to. -/
def set_instance_field (container : Except String Value)
    (container_expr field_name value_str how_to_suspend : String) :
    Option SetValues × Except String FieldWrite :=
  match thread_opt with
  | none => (none, .ok (.fallthrough none))
  | some thread_id =>
    match container with
    | .error e => (none, .ok (.fallthrough (some e)))
    | .ok v =>
      match v.data with
      | .object obj_id =>
        if obj_id = 0 then
          (none, .error ("Cannot set '." ++ field_name ++ "' — '" ++ container_expr ++ "' is null"))
        else
          match d.get_object_reference_type obj_id with
          | .error e => (none, .error ("Failed to resolve object type: " ++ e))
          | .ok type_id =>
            let written := write_field d (some thread_id) frame_index
              (find_field_info d.toTypes type_id field_name (some false))
              ("No instance field '" ++ field_name ++ "' on the resolved object")
              (.instance obj_id) field_name value_str how_to_suspend
              "Failed to set instance field: "
              ("✅ Set instance field " ++ container_expr ++ "." ++ field_name ++ " = " ++ value_str)
            (written.1, written.2.map .done)
      | _ =>
        (none, .ok (.fallthrough (some ("'" ++ container_expr ++
          "' is a primitive, not an object"))))

def set_static_field (container_expr field_name value_str how_to_suspend : String) :
    Option SetValues × Except String (Option String) :=
  match d.resolve_class_by_dotted container_expr with
  | .error e => (none, .error e)
  | .ok none => (none, .ok none)
  | .ok (some class_id) =>
    let written := write_field d thread_opt frame_index
      (find_field_info d.toTypes class_id field_name (some true))
      ("class '" ++ container_expr ++ "' has no static field '" ++ field_name ++ "'")
      (.static class_id) field_name value_str how_to_suspend "Failed to set static field: "
      ("✅ Set static field " ++ container_expr ++ "." ++ field_name ++ " = " ++ value_str)
    (written.1, written.2.map some)

/-- `raws` is what the target's text splits into; the instance field is tried first. -/
def set_field_by_path (target : String) (field_seg : Seg) (raws : Except String (List String))
    (resolve_container : String → Except String Value) (value_str how_to_suspend : String) :
    Option SetValues × Except String String :=
  if field_seg.args.isSome then
    (none, .error "The last segment must be a field, not a method call")
  else
    match raws with
    | .error e => (none, .error e)
    | .ok raws =>
      let container_expr := ".".intercalate raws.dropLast
      match set_instance_field d thread_opt frame_index (resolve_container container_expr)
          container_expr field_seg.name value_str how_to_suspend with
      | (sent, .error e) => (sent, .error e)
      | (sent, .ok (.done msg)) => (sent, .ok msg)
      | (_, .ok (.fallthrough instance_err)) =>
        match set_static_field d thread_opt frame_index container_expr field_seg.name value_str
            how_to_suspend with
        | (sent, .error e) => (sent, .error e)
        | (sent, .ok (some msg)) => (sent, .ok msg)
        | (_, .ok none) =>
          (none, .error (match instance_err with
            | none => "Could not write '" ++ target ++ "': '" ++ container_expr ++ "' is not a " ++
                "loaded class, and there's no suspended thread to resolve it as an object. " ++
                how_to_suspend ++ "."
            | some e => "Could not write '" ++ target ++ "': '" ++ container_expr ++ "' didn't " ++
                "resolve to an object (" ++ e ++ ") and isn't a loaded class."))

end Values

section Conversions

/-- The number an integral value or a `char` is. -/
def integer : ValueData → Option ℤ
  | .byte v => some v.toInt
  | .short v => some v.toInt
  | .char v => some v.toNat
  | .int v => some v.toInt
  | .long v => some v.toInt
  | _ => none

/-- An integer as a value of an integral type, which keeps its lowest bits. -/
def of_integer (n : ℤ) (b : UInt8) : Option ValueData :=
  match b with
  | 66 => some (.byte (Int8.ofInt n))
  | 83 => some (.short (Int16.ofInt n))
  | 67 => some (.char (UInt16.ofInt n))
  | 73 => some (.int (Int32.ofInt n))
  | 74 => some (.long (Int64.ofInt n))
  | _ => none

/-- The number a value is, and its sign, which a zero of a floating-point type has too. -/
def IsNumber (x : ValueData) (v : FloatValue) (negative : Bool) : Prop :=
  match x with
  | .float bits => Means 8 23 bits.toNat v negative
  | .double bits => Means 11 52 bits.toNat v negative
  | x => ∃ n, integer x = some n ∧ v = .finite (n * 2 ^ SCALE) ∧ negative = decide (n < 0)

/-- Java's assignment and narrowing conversions, but for those from a floating-point type to an
integral one: an integral type keeps the lowest bits, a floating-point type the nearest number. -/
inductive Casts (x : ValueData) : UInt8 → ValueData → Prop
  | integral {n : ℤ} {b : UInt8} {y : ValueData} : integer x = some n → of_integer n b = some y →
      Casts x b y
  | float {v : FloatValue} {negative : Bool} {bits : UInt32} : IsNumber x v negative →
      IsNumber (.float bits) (round 8 23 v) negative → Casts x 70 (.float bits)
  | double {v : FloatValue} {negative : Bool} {bits : UInt64} : IsNumber x v negative →
      IsNumber (.double bits) (round 11 52 v) negative → Casts x 68 (.double bits)
  | boolean {v : Bool} : x = .boolean v → Casts x 90 (.boolean v)

def literal_data : ArgLit → Option ValueData
  | .int n => some (.int n)
  | .long n => some (.long n)
  | .float v => some (.float v)
  | .double v => some (.double v)
  | .char c => some (.char c)
  | .bool b => some (.boolean b)
  | _ => none

theorem int_to_char (n : Int32) : UInt16.ofInt n.toInt = n.toUInt32.toUInt16 := by
  apply UInt16.toBitVec_inj.1
  simp only [UInt16.ofInt, UInt16.toBitVec_ofNat', UInt32.toBitVec_toUInt16]
  apply BitVec.eq_of_toNat_eq
  have hcond := n.toBitVec.toInt_eq_toNat_cond
  have hint : n.toInt = n.toBitVec.toInt := rfl
  have hnat : n.toUInt32.toBitVec = n.toBitVec := rfl
  rw [hint, hcond, hnat, BitVec.toNat_ofNat, BitVec.toNat_setWidth]
  split
  · omega
  · omega

variable (c : UInt16)

theorem char_to_int : Int32.ofInt c.toNat = c.toUInt32.toInt32 := by
  apply Int32.toBitVec.inj
  apply BitVec.eq_of_toNat_eq
  simp

theorem char_to_long : Int64.ofInt c.toNat = c.toUInt64.toInt64 := by
  apply Int64.toBitVec.inj
  apply BitVec.eq_of_toNat_eq
  simp

theorem char_to_short : Int16.ofInt c.toNat = c.toInt16 := by
  apply Int16.toBitVec.inj
  simp

theorem char_to_byte : Int8.ofInt c.toNat = c.toUInt8.toInt8 := by
  apply Int8.toBitVec.inj
  apply BitVec.eq_of_toNat_eq
  simp

theorem char_to_char : UInt16.ofInt c.toNat = c := by
  apply UInt16.toNat_inj.1
  have := c.toNat_lt
  simp only [UInt16.ofInt, UInt16.toNat_ofNat']
  omega

theorem casts_tagged {x y : ValueData} {b : UInt8} (h : Casts x b y) : Tagged ⟨b, y⟩ := by
  cases h with
  | integral _ hof =>
    unfold of_integer at hof
    split at hof
    all_goals first
      | obtain rfl := Option.some.inj hof; rfl
      | cases hof
  | float _ _ => rfl
  | double _ _ => rfl
  | boolean _ => rfl

theorem int_to_float {x : ValueData} {n : ℤ} (hx : IsNumber x (.finite (n * 2 ^ SCALE)) (n < 0)) :
    Casts x 70 (.float (f32_of_int n)) ∧ Casts x 68 (.double (f64_of_int n)) :=
  ⟨.float hx (f32_of_int_means n), .double hx (f64_of_int_means n)⟩

theorem bits_mean (e m bits : ℕ) :
    Means e m bits (of_bits e m bits) (decide (bits / 2 ^ (m + e) % 2 = 1)) :=
  ⟨rfl, fun _ => rfl⟩

/-- A `float` literal reaches the table as a double. -/
theorem float_through_double (bits : UInt32) :
    Casts (.float bits) 70 (.float (f32_of_f64 (f64_of_f32 bits))) := by
  have hmeans := bits_mean 8 23 bits.toNat
  refine .float hmeans ?_
  rw [round_of_bits single (le_refl 8) (le_refl 23) bits.toNat_lt]
  exact f32_through_f64 hmeans

theorem double_kept (bits : UInt64) : Casts (.double bits) 68 (.double bits) := by
  have hmeans := bits_mean 11 52 bits.toNat
  refine .double hmeans ?_
  rw [round_of_bits double (le_refl 11) (le_refl 52) bits.toNat_lt]
  exact hmeans

end Conversions

section Storing

/-- A field's type: a primitive, a class or an array. -/
def FieldDescriptor (s : String) : Prop :=
  ∃ b, first_byte s = some b ∧ (b ∈ [66, 67, 68, 70, 73, 74, 83, 90] ∧ is_reference s = false ∨
    b ∈ [76, 91] ∧ is_reference s = true)

/-- What the text to write stands for. -/
inductive Source
  | literal (a : ArgLit)
  | live (v : Value)

def SourceOf (d : Debuggee) (thread_opt : Option ThreadId) (frame_index : ℕ) (value_str : String) :
    Source → Prop
  | .literal a => d.parse_lit value_str = .ok a
  | .live v => ∃ e tid, d.parse_lit (trimmed value_str) = .ok (.expr e) ∧ thread_opt = some tid ∧
      d.resolve_expression (some tid) frame_index e = .ok v

/-- The value is the source's as the declared type has it. -/
inductive Stores (d : Types) (declared : String) (b : UInt8) : Source → Value → Prop
  | converted {a : ArgLit} {x y : ValueData} : literal_data a = some x → Casts x b y →
      Stores d declared b (.literal a) ⟨b, y⟩
  | flag {n : Int32} : b = 90 → Stores d declared b (.literal (.int n)) (value_bool (n ≠ 0))
  | null : is_reference declared = true → Stores d declared b (.literal .null) value_null
  | string {s : String} {id : UInt64} : is_reference declared = true →
      Instance d declared (value_object id) →
      Stores d declared b (.literal (.str s)) (value_object id)
  | same {v : Value} : v.tag = b → is_primitive v = true → Stores d declared b (.live v) v
  | reference {v : Value} : is_reference declared = true → Instance d declared v →
      Stores d declared b (.live v) v

/-- A number of another type than the declared one that no table converts, or a string for a type
that it is no instance of. -/
inductive Unconverted (d : Debuggee) (declared : String) (b : UInt8) : Source → Prop
  | long {n : Int64} : is_num b = true → b ≠ 74 → Unconverted d declared b (.literal (.long n))
  | number {v : Value} : is_num b = true → is_num v.tag = true → v.tag ≠ b →
      Unconverted d declared b (.live v)
  | string {s : String} {id : UInt64} : d.create_string s = .ok id →
      ¬ Instance d.toTypes declared (value_object id) →
      Unconverted d declared b (.literal (.str s))

variable {b : UInt8} {s declared : String} {v : Value}

theorem int_converted (n : Int32) (hb : b ∈ [66, 67, 68, 70, 73, 74, 83]) :
    ∃ y, int_literal_to_value n b = ⟨b, y⟩ ∧ Casts (.int n) b y := by
  obtain ⟨hfloat, hdouble⟩ := int_to_float (x := .int n) (n := n.toInt) ⟨n.toInt, rfl, rfl, rfl⟩
  simp only [List.mem_cons, List.not_mem_nil, or_false] at hb
  rcases hb with rfl | rfl | rfl | rfl | rfl | rfl | rfl
  · exact ⟨_, rfl, .integral rfl rfl⟩
  · exact ⟨_, rfl, .integral rfl (congrArg (fun c => some (ValueData.char c)) (int_to_char n))⟩
  · exact ⟨_, rfl, hdouble⟩
  · exact ⟨_, rfl, hfloat⟩
  · exact ⟨_, rfl, .integral rfl (congrArg (fun c => some (ValueData.int c)) (Int32.ofInt_toInt n))⟩
  · exact ⟨_, rfl, .integral rfl rfl⟩
  · exact ⟨_, rfl, .integral rfl rfl⟩

theorem char_converted (c : UInt16) (hb : b ∈ [66, 67, 68, 70, 73, 74, 83]) :
    ∃ y, char_literal_to_value c b = ⟨b, y⟩ ∧ Casts (.char c) b y := by
  obtain ⟨hfloat, hdouble⟩ := int_to_float (x := .char c) (n := c.toNat) ⟨c.toNat, rfl, rfl, rfl⟩
  simp only [List.mem_cons, List.not_mem_nil, or_false] at hb
  rcases hb with rfl | rfl | rfl | rfl | rfl | rfl | rfl
  · exact ⟨_, rfl, .integral rfl (congrArg (fun c => some (ValueData.byte c)) (char_to_byte c))⟩
  · exact ⟨_, rfl, .integral rfl (congrArg (fun c => some (ValueData.char c)) (char_to_char c))⟩
  · exact ⟨_, rfl, hdouble⟩
  · exact ⟨_, rfl, hfloat⟩
  · exact ⟨_, rfl, .integral rfl (congrArg (fun c => some (ValueData.int c)) (char_to_int c))⟩
  · exact ⟨_, rfl, .integral rfl (congrArg (fun c => some (ValueData.long c)) (char_to_long c))⟩
  · exact ⟨_, rfl, .integral rfl (congrArg (fun c => some (ValueData.short c)) (char_to_short c))⟩

/-- What may be written to a descriptor by its first byte: a number, a `boolean`, a reference. -/
theorem descriptor_cases (h : FieldDescriptor s) (hb : first_byte s = some b) :
    (b ∈ [66, 67, 68, 70, 73, 74, 83] ∧ is_reference s = false) ∨
    (b = 90 ∧ is_reference s = false) ∨ (b = 76 ∨ b = 91) ∧ is_reference s = true := by
  obtain ⟨b', hb', hcases⟩ := h
  rw [hb', Option.some.injEq] at hb
  subst hb
  simp only [List.mem_cons, List.not_mem_nil, or_false] at hcases ⊢
  tauto

theorem number_facts (hb : b ∈ [66, 67, 68, 70, 73, 74, 83]) :
    is_num b = true ∧ is_obj b = false ∧ b ≠ 90 := by
  simp only [List.mem_cons, List.not_mem_nil, or_false] at hb
  rcases hb with rfl | rfl | rfl | rfl | rfl | rfl | rfl
  all_goals exact ⟨by decide, by decide, by decide⟩

theorem compatible_object (hd : FieldDescriptor s) {t : UInt8} (hb : first_byte s = some b)
    (ht : is_obj t = true) (h : tag_compatible b t = true) : is_reference s = true := by
  have hnum : is_num t = false ∧ t ≠ 90 := by
    simp only [is_obj, Bool.or_eq_true, decide_eq_true_eq] at ht
    rcases ht with (((((rfl | rfl) | rfl) | rfl) | rfl) | rfl) | rfl
    all_goals exact ⟨by decide, by decide⟩
  rcases descriptor_cases hd hb with ⟨hmem, -⟩ | ⟨rfl, -⟩ | ⟨-, href⟩
  · obtain ⟨-, hobj, -⟩ := number_facts hmem
    have hne : b ≠ t := by
      rintro rfl
      rw [ht] at hobj
      cases hobj
    simp [tag_compatible, hne, hobj, hnum.1] at h
  · simp [tag_compatible, Ne.symm hnum.2, hnum.1, show is_obj 90 = false from rfl] at h
  · exact href

theorem compatible_number (hd : FieldDescriptor s) {t : UInt8} (hb : first_byte s = some b)
    (ht : t ∈ [66, 67, 68, 70, 73, 74, 83]) (h : tag_compatible b t = true) :
    b ∈ [66, 67, 68, 70, 73, 74, 83] ∧ is_reference s = false := by
  obtain ⟨htnum, htobj, htflag⟩ := number_facts ht
  rcases descriptor_cases hd hb with hmem | ⟨rfl, -⟩ | ⟨hobj, -⟩
  · exact hmem
  · simp [tag_compatible, Ne.symm htflag, htobj, show is_num 90 = false from rfl] at h
  · have hne : b ≠ t := by
      rintro rfl
      rcases hobj with rfl | rfl
      · exact absurd htobj (by decide)
      · exact absurd htobj (by decide)
    have hnum : is_num b = false := by
      rcases hobj with rfl | rfl
      all_goals decide
    simp [tag_compatible, hne, htobj, hnum] at h

theorem compatible_flag (h : tag_compatible b 90 = true) : b = 90 := by
  simpa [tag_compatible, show is_obj 90 = false from rfl, show is_num 90 = false from rfl] using h

/-- A floating-point literal is written to a floating-point type, or refused. -/
theorem float_converted {display : UInt64 → String} (v : UInt64) (is_float : Bool) {w : Value}
    (hd : FieldDescriptor s) (hb : first_byte s = some b)
    (h : float_literal_to_value display v is_float b = .ok w) (hc : tag_compatible b w.tag = true) :
    b = 70 ∧ w = value_float (f32_of_f64 v) ∨ b = 68 ∧ w = value_double v := by
  have htag : w.tag ∈ [66, 67, 68, 70, 73, 74, 83] := by
    have hw : w = value_float (f32_of_f64 v) ∨ w = value_double v := by
      unfold float_literal_to_value at h
      dsimp only at h
      split at h
      · exact Or.inl (Except.ok.inj h).symm
      · exact Or.inr (Except.ok.inj h).symm
      · cases h
      · cases h
      · cases h
      · cases h
      · cases h
      · rw [← Except.ok.inj h]
        split
        · exact Or.inl rfl
        · exact Or.inr rfl
    rcases hw with rfl | rfl
    · show (70 : UInt8) ∈ _
      decide
    · show (68 : UInt8) ∈ _
      decide
  obtain ⟨hmem, -⟩ := compatible_number hd hb htag hc
  simp only [List.mem_cons, List.not_mem_nil, or_false] at hmem
  rcases hmem with rfl | rfl | rfl | rfl | rfl | rfl | rfl
  · cases h
  · cases h
  · exact Or.inr ⟨rfl, (Except.ok.inj h).symm⟩
  · exact Or.inl ⟨rfl, (Except.ok.inj h).symm⟩
  · cases h
  · cases h
  · cases h

variable {d : Debuggee}

theorem literal_stores {value_str : String} (hd : FieldDescriptor declared)
    (hb : first_byte declared = some b) (h : literal_to_value d value_str b = .ok v)
    (hc : tag_compatible b v.tag = true) :
    ∃ a, d.parse_lit value_str = .ok a ∧ (¬ Unconverted d declared b (.literal a) →
      Stores d.toTypes declared b (.literal a) v) := by
  unfold literal_to_value at h
  split at h
  · cases h
  · rename_i st hlit
    refine ⟨_, hlit, fun hno => ?_⟩
    split at h
    · cases h
    · rename_i id hid
      obtain rfl := Except.ok.inj h
      have href := compatible_object hd hb (t := 76) rfl hc
      by_cases hinst : Instance d.toTypes declared (value_object id)
      · exact .string href hinst
      · exact absurd (.string hid hinst) hno
  · rename_i hlit
    obtain rfl := Except.ok.inj h
    exact ⟨_, hlit, fun _ => .null (compatible_object hd hb (t := 76) rfl hc)⟩
  · rename_i x hlit
    obtain rfl := Except.ok.inj h
    obtain rfl := compatible_flag hc
    exact ⟨_, hlit, fun _ => .converted rfl (.boolean rfl)⟩
  · rename_i n hlit
    obtain rfl := Except.ok.inj h
    refine ⟨_, hlit, fun hno => ?_⟩
    obtain ⟨hmem, -⟩ := compatible_number hd hb (t := 74) (by decide) hc
    obtain rfl : b = 74 := by
      by_contra hne
      exact hno (.long (number_facts hmem).1 hne)
    exact .converted rfl (.integral rfl
      (congrArg (fun x => some (ValueData.long x)) (Int64.ofInt_toInt n)))
  · cases h
  · rename_i bits hlit
    refine ⟨_, hlit, fun _ => ?_⟩
    rcases float_converted (f64_of_f32 bits) true hd hb h hc with ⟨rfl, rfl⟩ | ⟨rfl, rfl⟩
    · exact .converted rfl (float_through_double bits)
    · have hmeans := bits_mean 8 23 bits.toNat
      exact .converted rfl (.double hmeans (f64_of_f32_means hmeans))
  · rename_i bits hlit
    refine ⟨_, hlit, fun _ => ?_⟩
    rcases float_converted bits false hd hb h hc with ⟨rfl, rfl⟩ | ⟨rfl, rfl⟩
    · have hmeans := bits_mean 11 52 bits.toNat
      exact .converted rfl (.float hmeans (f32_of_f64_means hmeans))
    · exact .converted rfl (double_kept bits)
  · rename_i c hlit
    refine ⟨_, hlit, fun _ => ?_⟩
    obtain rfl := Except.ok.inj h
    rcases descriptor_cases hd hb with ⟨hmem, -⟩ | ⟨rfl, -⟩ | ⟨hobj, href⟩
    · obtain ⟨y, hy, hcast⟩ := char_converted c hmem
      rw [hy]
      exact .converted rfl hcast
    · exact absurd (show tag_compatible 90 67 = true from hc) (by decide)
    · rcases hobj with rfl | rfl
      · exact absurd (show tag_compatible 76 67 = true from hc) (by decide)
      · exact absurd (show tag_compatible 91 67 = true from hc) (by decide)
  · rename_i n hlit
    refine ⟨_, hlit, fun _ => ?_⟩
    obtain rfl := Except.ok.inj h
    rcases descriptor_cases hd hb with ⟨hmem, -⟩ | ⟨rfl, -⟩ | ⟨hobj, href⟩
    · obtain ⟨y, hy, hcast⟩ := int_converted n hmem
      rw [hy]
      exact .converted rfl hcast
    · exact .flag rfl
    · rcases hobj with rfl | rfl
      · exact absurd (show tag_compatible 76 73 = true from hc) (by decide)
      · exact absurd (show tag_compatible 91 73 = true from hc) (by decide)

/-- A value read off the wire is of the kind of its tag. -/
def LiveTagged (d : Debuggee) : Prop :=
  ∀ t n e v, d.resolve_expression t n e = .ok v → Tagged v

theorem primitive_of_tag (h : Tagged v) (ht : is_obj v.tag = false) : is_primitive v = true := by
  obtain ⟨tag, data⟩ := v
  cases data with
  | object id =>
    simp only [Tagged, List.mem_cons, List.not_mem_nil, or_false] at h
    rcases h with rfl | rfl | rfl | rfl | rfl | rfl | rfl
    all_goals cases ht
  | _ => rfl

/-- The check of a reference lets null and instances through. -/
theorem reference_instance (href : is_reference declared = true)
    (h : validate_ref_assignable d declared v = .ok ()) : Instance d.toTypes declared v := by
  unfold validate_ref_assignable at h
  rw [if_pos href] at h
  split at h
  · rename_i id hdata
    refine ⟨id, hdata, ?_⟩
    split at h
    · rename_i hnull
      exact Or.inl hnull
    · right
      split at h
      · cases h
      · rename_i rt hrt
        have hrun : runtime_type d.toTypes id = rt := by
          rw [runtime_type, hrt]
        dsimp only at h
        split at h
        · rename_i harr
          cases hs : d.get_signature rt with
          | error e =>
            rw [hs] at h
            cases h
          | ok s =>
            rw [hs] at h
            by_cases hok : starts_with s '[' = true
            · rw [← hrun] at hs
              exact .array harr hs hok
            · rw [if_neg hok] at h
              cases h
        · by_cases hok : implements_interface d.toTypes rt declared = true
          · obtain ⟨c, hc, t, ht, hsig⟩ := lattice_reaches hok
            rw [List.mem_singleton.mp hc, ← hrun] at ht
            exact .type ht hsig
          · rw [if_neg hok] at h
            cases h
  · cases h

theorem live_stores (hd : FieldDescriptor declared) (hb : first_byte declared = some b)
    (htag : Tagged v) (h : validate_ref_assignable d declared v = .ok ())
    (hc : tag_compatible b v.tag = true) (hno : ¬ Unconverted d declared b (.live v)) :
    Stores d.toTypes declared b (.live v) v := by
  have hsame (hobj : is_obj b = false) (heq : b = v.tag) :
      Stores d.toTypes declared b (.live v) v :=
    .same heq.symm (primitive_of_tag htag (heq ▸ hobj))
  rcases descriptor_cases hd hb with ⟨hmem, -⟩ | ⟨rfl, -⟩ | ⟨-, href⟩
  · obtain ⟨hnum, hobj, -⟩ := number_facts hmem
    by_cases heq : b = v.tag
    · exact hsame hobj heq
    · have htnum : is_num v.tag = true := by
        simpa [tag_compatible, heq, hobj, hnum] using hc
      exact absurd (.number hnum htnum (Ne.symm heq)) hno
  · have heq : (90 : UInt8) = v.tag := by
      simpa [tag_compatible, show is_obj 90 = false from rfl,
        show is_num 90 = false from rfl] using hc
    exact hsame rfl heq
  · exact .reference href (reference_instance href h)

/-- A stored value is of the kind of its tag, and that kind is as wide as the declared type. -/
theorem stores_width {src : Source} (hd : FieldDescriptor declared)
    (hb : first_byte declared = some b) (htag : ∀ w, src = .live w → Tagged w)
    (h : Stores d.toTypes declared b src v) :
    value_width b = .ok (write_untagged_value v).length := by
  have hwide (href : is_reference declared = true) {v : Value} {id : UInt64}
      (hdata : v.data = .object id) : value_width b = .ok (write_untagged_value v).length := by
    rw [write_untagged_value, hdata, length_put]
    rcases descriptor_cases hd hb with ⟨-, hprim⟩ | ⟨-, hprim⟩ | ⟨hobj, -⟩
    · rw [href] at hprim
      cases hprim
    · rw [href] at hprim
      cases hprim
    · rcases hobj with rfl | rfl
      all_goals rfl
  cases h with
  | converted _ hcast => exact tagged_width (casts_tagged hcast)
  | flag hflag =>
    rw [hflag]
    exact tagged_width (v := value_bool _) rfl
  | null href => exact hwide href rfl
  | string href _ => exact hwide href rfl
  | same heq _ =>
    rw [← heq]
    exact tagged_width (htag v rfl)
  | reference href hinst =>
    obtain ⟨id, hdata, -⟩ := hinst
    exact hwide href hdata

/-- The value sent for a place of a declared type. -/
def Written (d : Debuggee) (thread_opt : Option ThreadId) (frame_index : ℕ)
    (value_str declared : String) (v : Value) : Prop :=
  ∃ b src, first_byte declared = some b ∧ SourceOf d thread_opt frame_index value_str src ∧
    (¬ Unconverted d declared b src → Stores d.toTypes declared b src v ∧
      value_width b = .ok (write_untagged_value v).length)

theorem value_to_write_written {thread_opt : Option ThreadId} {frame_index : ℕ}
    {value_str how_to_suspend : String} (hlive : LiveTagged d) (hd : FieldDescriptor declared)
    (hb : first_byte declared = some b)
    (h : value_to_write d thread_opt frame_index value_str declared how_to_suspend = .ok v)
    (hc : tag_compatible b v.tag = true) :
    Written d thread_opt frame_index value_str declared v := by
  unfold value_to_write at h
  rw [hb] at h
  dsimp only [Option.getD] at h
  split at h
  · cases h
  · rename_i e hlit
    split at h
    · cases h
    · rename_i tid
      split at h
      · cases h
      · rename_i w hw
        cases hval : validate_ref_assignable d declared w with
        | error e =>
          rw [hval] at h
          cases h
        | ok u =>
          rw [hval] at h
          obtain rfl := Except.ok.inj h
          refine ⟨b, .live w, hb, ⟨e, tid, hlit, rfl, hw⟩, fun hno => ?_⟩
          have hstores : Stores d.toTypes declared b (.live w) w :=
            live_stores hd hb (hlive _ _ _ _ hw) hval hc hno
          refine ⟨hstores, stores_width hd hb ?_ hstores⟩
          intro w' hw'
          obtain rfl := Source.live.inj hw'
          exact hlive _ _ _ _ hw
  · obtain ⟨a, ha, hstores⟩ := literal_stores hd hb h hc
    refine ⟨b, .literal a, hb, ha, fun hno => ⟨hstores hno, stores_width hd hb ?_ (hstores hno)⟩⟩
    intro w hw
    cases hw

/-- How an attempt to write ends: what it sends fits the place, and it reports success of nothing
but a value that was sent and taken. -/
inductive Attempt (d : Debuggee) {α : Type} (fits : SetValues → Prop) (idle : α → Prop) :
    Option SetValues × Except String α → Prop
  | refused (e : String) : Attempt d fits idle (none, .error e)
  | passed {a : α} : idle a → Attempt d fits idle (none, .ok a)
  | failed {w : SetValues} (e : String) : fits w → Attempt d fits idle (some w, .error e)
  | done {w : SetValues} {a : α} : fits w → d.send w = .ok () → ¬ idle a →
      Attempt d fits idle (some w, .ok a)

/-- No report but of a write. -/
def NoneIdle {α : Type} : α → Prop := fun _ => False

namespace Attempt

variable {α : Type} {fits : SetValues → Prop} {idle : α → Prop}
  {r : Option SetValues × Except String α}

theorem sent_fits (h : Attempt d fits idle r) {w : SetValues} (hw : r.1 = some w) : fits w := by
  cases h with
  | refused e => cases hw
  | passed _ => cases hw
  | failed e hfits => exact Option.some.inj hw ▸ hfits
  | done hfits _ _ => exact Option.some.inj hw ▸ hfits

theorem done_sent (h : Attempt d fits idle r) {a : α} (ha : r.2 = .ok a) (hidle : ¬ idle a) :
    ∃ w, r.1 = some w ∧ d.send w = .ok () := by
  cases h with
  | refused e => cases ha
  | passed hpassed => exact absurd (Except.ok.inj ha ▸ hpassed) hidle
  | failed e _ => cases ha
  | done _ hsend _ => exact ⟨_, rfl, hsend⟩

theorem mono {fits' : SetValues → Prop} (h : Attempt d fits idle r) (hfits : ∀ w, fits w → fits' w)
    : Attempt d fits' idle r := by
  cases h with
  | refused e => exact .refused e
  | passed hidle => exact .passed hidle
  | failed e hw => exact .failed e (hfits _ hw)
  | done hw hsend hidle => exact .done (hfits _ hw) hsend hidle

theorem map {β : Type} {idle' : β → Prop} (h : Attempt d fits NoneIdle r) (f : α → β)
    (hidle : ∀ a, ¬ idle' (f a)) : Attempt d fits idle' (r.1, r.2.map f) := by
  cases h with
  | refused e => exact .refused e
  | passed hpassed => cases hpassed
  | failed e hw => exact .failed e hw
  | done hw hsend _ => exact .done hw hsend (hidle _)

end Attempt

theorem write_checked_attempt {thread_opt : Option ThreadId} {frame_index : ℕ}
    {value_str how_to_suspend failed done : String} {place : Place} {mismatch : Value → String}
    (hlive : LiveTagged d) (hd : FieldDescriptor declared) (hb : first_byte declared = some b) :
    Attempt d (fun w => w.place = place ∧
        Written d thread_opt frame_index value_str declared w.value) NoneIdle
      (write_checked d thread_opt frame_index value_str declared how_to_suspend b place mismatch
        failed done) := by
  unfold write_checked
  split
  · exact .refused _
  · rename_i v hv
    split
    · rename_i hc
      have hwritten := value_to_write_written hlive hd hb hv hc
      split
      · exact .failed _ ⟨rfl, hwritten⟩
      · rename_i hsend
        exact .done ⟨rfl, hwritten⟩ hsend False.elim
    · exact .refused _

/-- Every field's type is a descriptor, and so is the component of every array type. -/
structure WellTyped (d : Types) : Prop where
  fields : ∀ c fs f, d.get_fields c = .ok fs → f ∈ fs → FieldDescriptor f.signature
  components : ∀ c s, d.get_signature c = .ok s → starts_with s '[' →
    FieldDescriptor (component_of s)

theorem found_descriptor {d : Types} (hd : WellTyped d) {name : String} {want_static : Option Bool}
    {fuel : ℕ} {type_id owner : ClassId} {f : FieldInfo}
    (h : field_walk d name want_static fuel type_id = .ok (some (owner, f))) :
    FieldDescriptor f.signature := by
  induction fuel generalizing type_id with
  | zero => cases h
  | succ fuel ih =>
    rw [field_walk] at h
    split at h
    · cases h
    · rename_i fs hfs
      split at h
      · rename_i g hg
        obtain ⟨-, rfl⟩ := Prod.mk.inj (Option.some.inj (Except.ok.inj h))
        exact hd.fields type_id fs g hfs (List.mem_of_find?_eq_some hg)
      · split at h
        · exact ih h
        · cases h

section Fields

variable {thread_opt : Option ThreadId} {frame_index : ℕ} {value_str how_to_suspend : String}

theorem write_field_attempt (hd : WellTyped d.toTypes) (hlive : LiveTagged d) {type_id : ClassId}
    {want_static : Option Bool} {place : ℕ → Place} {absent field_name failed done : String} :
    Attempt d (fun w => ∃ owner f,
        find_field_info d.toTypes type_id field_name want_static = .ok (some (owner, f)) ∧
        w.place = place f.field_id ∧
        Written d thread_opt frame_index value_str f.signature w.value) NoneIdle
      (write_field d thread_opt frame_index
        (find_field_info d.toTypes type_id field_name want_static) absent place field_name value_str
        how_to_suspend failed done) := by
  unfold write_field
  split
  · exact .refused _
  · exact .refused _
  · rename_i owner f hfound
    split
    · exact .refused _
    · rename_i b hb
      refine (write_checked_attempt hlive (found_descriptor hd hfound) hb).mono fun w hw => ?_
      exact ⟨owner, f, hfound, hw⟩

/-- The field that a target names, and its declared type. -/
inductive FieldTarget (d : Debuggee) (container : Except String Value)
    (container_expr field_name : String) : Place → String → Prop
  | instance {v : Value} {obj : UInt64} {t owner : ClassId} {f : FieldInfo} :
      container = .ok v → v.data = .object obj → obj ≠ 0 →
      d.get_object_reference_type obj = .ok t →
      find_field_info d.toTypes t field_name (some false) = .ok (some (owner, f)) →
      FieldTarget d container container_expr field_name (.instance obj f.field_id) f.signature
  | static {c owner : ClassId} {f : FieldInfo} :
      d.resolve_class_by_dotted container_expr = .ok (some c) →
      find_field_info d.toTypes c field_name (some true) = .ok (some (owner, f)) →
      FieldTarget d container container_expr field_name (.static c f.field_id) f.signature

variable {container : Except String Value} {container_expr field_name : String}

variable (d thread_opt frame_index container container_expr field_name value_str) in
def FieldWritten (w : SetValues) : Prop :=
  ∃ declared, FieldTarget d container container_expr field_name w.place declared ∧
    Written d thread_opt frame_index value_str declared w.value

theorem set_instance_field_attempt (hd : WellTyped d.toTypes) (hlive : LiveTagged d) :
    Attempt d (FieldWritten d thread_opt frame_index value_str container container_expr field_name)
      (fun a => ∃ reason, a = .fallthrough reason)
      (set_instance_field d thread_opt frame_index container container_expr field_name value_str
        how_to_suspend) := by
  unfold set_instance_field
  split
  · exact .passed ⟨_, rfl⟩
  · split
    · exact .passed ⟨_, rfl⟩
    · split
      · rename_i obj hdata
        split
        · exact .refused _
        · rename_i hnull
          split
          · exact .refused _
          · rename_i t ht
            refine ((write_field_attempt hd hlive).mono ?_).map FieldWrite.done (by simp)
            rintro w ⟨owner, f, hfound, hplace, hwritten⟩
            exact ⟨f.signature, hplace ▸ .instance rfl hdata hnull ht hfound, hwritten⟩
      · exact .passed ⟨_, rfl⟩

theorem set_static_field_attempt (hd : WellTyped d.toTypes) (hlive : LiveTagged d) :
    Attempt d (FieldWritten d thread_opt frame_index value_str container container_expr field_name)
      (fun a => a = none)
      (set_static_field d thread_opt frame_index container_expr field_name value_str
        how_to_suspend) := by
  unfold set_static_field
  split
  · exact .refused _
  · exact .passed rfl
  · rename_i c hc
    refine ((write_field_attempt hd hlive).mono ?_).map some (by simp)
    rintro w ⟨owner, f, hfound, hplace, hwritten⟩
    exact ⟨f.signature, hplace ▸ .static hc hfound, hwritten⟩

/-- The field that is written is the one its target names. -/
theorem set_field_by_path_attempt (hd : WellTyped d.toTypes) (hlive : LiveTagged d)
    {target : String} {field_seg : Seg} {raws : List String}
    {resolve_container : String → Except String Value} :
    Attempt d (FieldWritten d thread_opt frame_index value_str
        (resolve_container (".".intercalate raws.dropLast)) (".".intercalate raws.dropLast)
        field_seg.name) NoneIdle
      (set_field_by_path d thread_opt frame_index target field_seg (.ok raws) resolve_container
        value_str how_to_suspend) := by
  unfold set_field_by_path
  split
  · exact .refused _
  · dsimp only
    generalize hinstance : set_instance_field d thread_opt frame_index _ _ _ _ _ = first
    have h : Attempt d _ _ first := hinstance ▸ set_instance_field_attempt hd hlive
    cases h with
    | refused e => exact .refused e
    | failed e hw => exact .failed e hw
    | @done w a hw hsend hidle =>
      cases a with
      | done msg => exact .done hw hsend False.elim
      | fallthrough reason => exact absurd ⟨reason, rfl⟩ hidle
    | passed hidle =>
      obtain ⟨reason, rfl⟩ := hidle
      dsimp only
      generalize hstatic : set_static_field d thread_opt frame_index _ _ _ _ = second
      have h : Attempt d (FieldWritten d thread_opt frame_index value_str
          (resolve_container (".".intercalate raws.dropLast)) _ _) _ second :=
        hstatic ▸ set_static_field_attempt hd hlive
      cases h with
      | refused e => exact .refused e
      | failed e hw => exact .failed e hw
      | @done w a hw hsend hidle =>
        cases a with
        | none => exact absurd rfl hidle
        | some msg => exact .done hw hsend False.elim
      | passed hidle =>
        obtain rfl := hidle
        exact .refused _

end Fields

theorem set_array_element_attempt (hd : WellTyped d.toTypes) (hlive : LiveTagged d) {tid : ThreadId}
    {frame_index : ℕ} {id : UInt64} {key : ArgLit}
    {container_expr value_str how_to_suspend : String} {t : ClassId} {sig : String}
    (ht : d.get_object_reference_type id = .ok t) (hsig : d.get_signature t = .ok sig)
    (harr : starts_with sig '[') :
    Attempt d (fun w => ∃ i, key = .int i ∧ w.place = .element id i ∧
        Written d (some tid) frame_index value_str (component_of sig) w.value) NoneIdle
      (set_array_element d tid frame_index id container_expr key value_str how_to_suspend) := by
  unfold set_array_element
  split
  · rename_i i
    split
    · exact .refused _
    · split
      · exact .refused _
      · have hcomp := hd.components t sig hsig harr
        obtain ⟨b, hb, -⟩ := hd.components t sig hsig harr
        rw [ht]
        dsimp only
        rw [hsig]
        dsimp only [Except.toOption, Option.getD]
        rw [hb]
        exact (write_checked_attempt hlive hcomp hb).mono fun w hw => ⟨i, rfl, hw⟩
  · exact .refused _

/-- What is sent for a field or an element of a declared type is the source's value as that type
has it, as wide as the type, unless it is of those that no table converts; a success is reported
only of a value that was sent. -/
theorem write_holds (d : Debuggee) (hd : WellTyped d.toTypes) (hlive : LiveTagged d)
    (frame_index : ℕ) (value_str how_to_suspend : String) :
    (∀ thread_opt target field_seg raws resolve_container,
      (∀ w, (set_field_by_path d thread_opt frame_index target field_seg (.ok raws)
          resolve_container value_str how_to_suspend).1 = some w →
        ∃ declared, FieldTarget d (resolve_container (".".intercalate raws.dropLast))
            (".".intercalate raws.dropLast) field_seg.name w.place declared ∧
          Written d thread_opt frame_index value_str declared w.value) ∧
      (∀ msg, (set_field_by_path d thread_opt frame_index target field_seg (.ok raws)
          resolve_container value_str how_to_suspend).2 = .ok msg →
        ∃ w, (set_field_by_path d thread_opt frame_index target field_seg (.ok raws)
          resolve_container value_str how_to_suspend).1 = some w ∧ d.send w = .ok ())) ∧
    (∀ tid id container_expr key t sig, d.get_object_reference_type id = .ok t →
      d.get_signature t = .ok sig → starts_with sig '[' →
      (∀ w, (set_array_element d tid frame_index id container_expr key value_str
          how_to_suspend).1 = some w →
        ∃ i, key = .int i ∧ w.place = .element id i ∧
          Written d (some tid) frame_index value_str (component_of sig) w.value) ∧
      (∀ msg, (set_array_element d tid frame_index id container_expr key value_str
          how_to_suspend).2 = .ok msg →
        ∃ w, (set_array_element d tid frame_index id container_expr key value_str
          how_to_suspend).1 = some w ∧ d.send w = .ok ())) := by
  constructor
  · intro thread_opt target field_seg raws resolve_container
    constructor
    · exact fun w => (set_field_by_path_attempt hd hlive).sent_fits
    · exact fun msg hmsg => (set_field_by_path_attempt hd hlive).done_sent hmsg False.elim
  · intro tid id container_expr key t sig ht hsig harr
    constructor
    · exact fun w => (set_array_element_attempt hd hlive ht hsig harr).sent_fits
    · intro msg hmsg
      exact (set_array_element_attempt hd hlive ht hsig harr).done_sent hmsg False.elim

end Storing

section Runs

/-- Object 5 has an `int`, a `boolean` and a `String[]` field; `squares` is object 6, an `int[]`. -/
def host : Debuggee where
  get_object_reference_type := fun id => .ok (if id = 6 then 2 else 1)
  get_signature := fun c => .ok (if c = 2 then "[I" else "LHost;")
  get_superclass := fun _ => .ok none
  get_interfaces := fun _ => .ok []
  get_fields := fun c => .ok (if c = 1 then [⟨1, "count", "I", 0⟩, ⟨2, "done", "Z", 0⟩,
    ⟨3, "names", "[Ljava/lang/String;", 0⟩] else [])
  get_methods := fun _ => .ok []
  parse_lit := fun s => .ok (if s = "1" then .int 1 else if s = "5L" then .long 5 else .expr s)
  resolve_expression := fun _ _ _ => .ok ⟨91, .object 6⟩
  resolve_class_by_dotted := fun _ => .ok none
  create_string := fun _ => .ok 7
  get_array_length := fun _ => .ok 0
  send := fun _ => .ok ()
  rendered_element := fun _ _ => none
  decode_signature := id
  format := fun _ => ""
  debug := fun _ => ""
  display := fun _ => ""

theorem host_typed : WellTyped host.toTypes where
  fields := by
    intro c fs f hfs hf
    obtain rfl := Except.ok.inj hfs
    by_cases hc : c = 1
    · rw [if_pos hc] at hf
      simp only [List.mem_cons, List.not_mem_nil, or_false] at hf
      rcases hf with rfl | rfl | rfl
      · exact ⟨73, rfl, Or.inl ⟨by decide, rfl⟩⟩
      · exact ⟨90, rfl, Or.inl ⟨by decide, rfl⟩⟩
      · exact ⟨91, rfl, Or.inr ⟨by decide, rfl⟩⟩
    · rw [if_neg hc] at hf
      cases hf
  components := by
    intro c s hs harr
    obtain rfl := Except.ok.inj hs
    by_cases hc : c = 2
    · rw [if_pos hc]
      exact ⟨73, rfl, Or.inl ⟨by decide, rfl⟩⟩
    · rw [if_neg hc] at harr
      exact absurd harr (by decide)

theorem host_tagged : LiveTagged host := by
  intro t n e v hv
  obtain rfl := Except.ok.inj hv
  show (91 : UInt8) ∈ _
  decide

/-- A write of the text to a field of object 5. -/
def host_write (field value_str : String) : Option SetValues :=
  (set_field_by_path host (some 1) 0 "" ⟨field, none, []⟩ (.ok ["host", field])
    (fun _ => .ok (value_object 5)) value_str "").1

/-- `1` is written to an `int` field as four bytes. -/
theorem write_holds_int :
    host_write "count" "1" = some ⟨.instance 5 1, value_int 1⟩ ∧
      ∃ declared, FieldTarget host (.ok (value_object 5)) "host" "count" (.instance 5 1) declared ∧
        Written host (some 1) 0 "1" declared (value_int 1) := by
  have hsent : host_write "count" "1" = some ⟨.instance 5 1, value_int 1⟩ := by rfl
  refine ⟨hsent, ?_⟩
  have hraws : ".".intercalate ["host", "count"].dropLast = "host" := by decide
  have hheld := ((write_holds host host_typed host_tagged 0 "1" "").1 (some 1) ""
    ⟨"count", none, []⟩ ["host", "count"] (fun _ => .ok (value_object 5))).1 _ hsent
  rw [hraws] at hheld
  exact hheld

/-- `1` is written to a `boolean`, and an `int[]` to a `String[]`. -/
theorem unheld_values_written :
    (host_write "done" "1" = some ⟨.instance 5 2, value_bool true⟩ ∧
      ∀ y, ¬ Casts (.int 1) 90 y) ∧
    (host_write "names" "squares" = some ⟨.instance 5 3, ⟨91, .object 6⟩⟩ ∧
      host.get_object_reference_type 6 = .ok 2 ∧ host.get_signature 2 = .ok "[I") := by
  refine ⟨⟨rfl, fun y hy => ?_⟩, rfl, rfl, rfl⟩
  cases hy with
  | integral _ hof => cases hof
  | boolean hflag => cases hflag

end Runs

end JavaDebug.FieldWrites
