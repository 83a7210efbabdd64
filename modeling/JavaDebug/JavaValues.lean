import JavaDebug.Addressing
import JavaDebug.WireReader

/-!
Java values and types as the server tells them apart: the tag of a value, the
first byte of a type's signature, and what may be passed or written where by
these two alone. An argument or a value to write is a literal or an expression.
-/
namespace JavaDebug.JavaValues

open Jdwp WireReader

section Values

def value_int (v : Int32) : Value := ⟨73, .int v⟩

def value_long (v : Int64) : Value := ⟨74, .long v⟩

def value_bool (v : Bool) : Value := ⟨90, .boolean v⟩

def value_float (bits : UInt32) : Value := ⟨70, .float bits⟩

def value_double (bits : UInt64) : Value := ⟨68, .double bits⟩

def value_char (v : UInt16) : Value := ⟨67, .char v⟩

def value_byte (v : Int8) : Value := ⟨66, .byte v⟩

def value_short (v : Int16) : Value := ⟨83, .short v⟩

def value_null : Value := ⟨76, .object 0⟩

def value_object (id : UInt64) : Value := ⟨76, .object id⟩

/-- The value is of the kind its tag names, as every value read off the wire is. -/
def Tagged (v : Value) : Prop :=
  match v.data with
  | .byte _ => v.tag = 66
  | .char _ => v.tag = 67
  | .float _ => v.tag = 70
  | .double _ => v.tag = 68
  | .int _ => v.tag = 73
  | .long _ => v.tag = 74
  | .short _ => v.tag = 83
  | .boolean _ => v.tag = 90
  | .object _ => v.tag ∈ [76, 115, 116, 103, 108, 99, 91]
  | .void => v.tag = 86

end Values

section Expressions

inductive ArgLit
  | int (n : Int32)
  | long (n : Int64)
  | float (bits : UInt32)
  | double (bits : UInt64)
  | char (c : UInt16)
  | bool (b : Bool)
  | null
  | str (s : String)
  | expr (e : String)
  deriving DecidableEq

inductive Subscript
  | index (key : ArgLit)
  | range (a b : Int64)
  | filter (predicate : String)
  deriving DecidableEq

structure Seg where
  name : String
  args : Option (List ArgLit)
  subs : List Subscript
  deriving DecidableEq

/-- What is said of a head that nothing resolves; `bare` speaks of a name that the frame lacks. -/
def head_error {φ : Type} (bare : φ → String) (frame : Option φ) (segs : List Seg) (head_seg : Seg)
    (head_err : Option String) (static_err : String) : String :=
  match head_err, frame with
  | some e, fr =>
    if head_seg.name = "this" then e
    else
      match fr with
      | some fr =>
        if segs.length = 1 ∧ head_seg.args.isNone then bare fr
        else e ++ " (also not a resolvable static member: " ++ static_err ++ ")"
      | none => e ++ " (also not a resolvable static member: " ++ static_err ++ ")"
  | none, _ =>
    "No suspended frame to read locals from, and not a resolvable static member: " ++ static_err

end Expressions

section Types

/-- `as_bytes().first()`: the first byte of a text is that of its first character. -/
def first_byte (s : String) : Option UInt8 :=
  s.toList.head?.bind fun c => (String.utf8EncodeChar c).head?

def starts_with (s : String) (c : Char) : Bool := s.toList.head? = some c

def is_reference (sig : String) : Bool := starts_with sig 'L' || starts_with sig '['

def is_obj (t : UInt8) : Bool :=
  t = 76 || t = 115 || t = 116 || t = 103 || t = 108 || t = 99 || t = 91

def is_num (t : UInt8) : Bool :=
  t = 66 || t = 67 || t = 68 || t = 70 || t = 73 || t = 74 || t = 83

def tag_compatible (param arg : UInt8) : Bool :=
  param = arg || (is_obj param && is_obj arg) || (is_num param && is_num arg)

def primitive_tag (c : Char) : Option UInt8 :=
  match c with
  | 'Z' => some 90
  | 'B' => some 66
  | 'C' => some 67
  | 'S' => some 83
  | 'I' => some 73
  | 'J' => some 74
  | 'F' => some 70
  | 'D' => some 68
  | _ => none

def boxed_wrapper_of (tag : UInt8) : Option String :=
  match tag with
  | 73 => some "Ljava/lang/Integer;"
  | 74 => some "Ljava/lang/Long;"
  | 83 => some "Ljava/lang/Short;"
  | 66 => some "Ljava/lang/Byte;"
  | 67 => some "Ljava/lang/Character;"
  | 90 => some "Ljava/lang/Boolean;"
  | 70 => some "Ljava/lang/Float;"
  | 68 => some "Ljava/lang/Double;"
  | _ => none

def OBJECT_SIGNATURE : String := "Ljava/lang/Object;"

def ACC_STATIC : ℕ := 8

def is_static (mod_bits : ℕ) : Bool := mod_bits &&& ACC_STATIC ≠ 0

structure FieldInfo where
  field_id : ℕ
  name : String
  signature : String
  mod_bits : ℕ
  deriving DecidableEq

end Types

section Classes

structure MethodInfo where
  method_id : ℕ
  name : String
  signature : String
  mod_bits : ℕ
  deriving DecidableEq

/-- What the debuggee answers about objects and types, errors as they are displayed. -/
structure Types where
  get_object_reference_type : UInt64 → Except String ClassId
  get_signature : ClassId → Except String String
  get_superclass : ClassId → Except String (Option ClassId)
  get_interfaces : ClassId → Except String (List ClassId)
  get_fields : ClassId → Except String (List FieldInfo)
  get_methods : ClassId → Except String (List MethodInfo)

def superclass_of (d : Types) (tid : ClassId) : Option ClassId :=
  match d.get_superclass tid with
  | .ok above => above
  | .error _ => none

def wanted (want_static : Option Bool) (f : FieldInfo) : Bool :=
  match want_static with
  | some b => is_static f.mod_bits = b
  | none => true

/-- The walk up the superclass chain, over at most `fuel` classes. -/
def field_walk (d : Types) (name : String) (want_static : Option Bool) :
    ℕ → ClassId → Except String (Option (ClassId × FieldInfo))
  | 0, _ => .ok none
  | fuel + 1, tid =>
    match d.get_fields tid with
    | .error e => .error ("Failed to get fields: " ++ e)
    | .ok fields =>
      match fields.find? fun f => f.name = name && wanted want_static f with
      | some f => .ok (some (tid, f))
      | none =>
        match superclass_of d tid with
        | some above => field_walk d name want_static fuel above
        | none => .ok none

def find_field_info (d : Types) (type_id : ClassId) (name : String) (want_static : Option Bool) :
    Except String (Option (ClassId × FieldInfo)) :=
  field_walk d name want_static 50 type_id

end Classes

end JavaDebug.JavaValues
