import JavaDebug.ClassFiles
import JavaDebug.ClassNames
import JavaDebug.DecodedTexts
import Mathlib.Data.List.Sort
import Mathlib.Data.String.Basic

/-!
What a redefinition would be refused for, told before it is tried. The loaded
class is read off the JVM and the build out of its class file; both become one
shape, and six kinds of difference are taken between the two. The names are
those that the class-file reader decodes.
-/
namespace JavaDebug.Forecasts

open ClassFiles ClassNames
open DecodedTexts (hex_padded)

section Shapes

def CLASS_MODIFIER_MASK : UInt16 := 0x0001 ||| 0x0010 ||| 0x0200 ||| 0x0400 ||| 0x2000 ||| 0x4000

def METHOD_MODIFIER_MASK : UInt16 :=
  0x0001 ||| 0x0002 ||| 0x0004 ||| 0x0008 ||| 0x0010 ||| 0x0020 ||| 0x0100 ||| 0x0400

def FIELD_MODIFIER_MASK : UInt16 :=
  0x0001 ||| 0x0002 ||| 0x0004 ||| 0x0008 ||| 0x0010 ||| 0x0040 ||| 0x0080

structure DeclaredMember where
  name : String
  descriptor : String
  modifiers : UInt16
  label : String
  deriving DecidableEq

namespace DeclaredMember

def key (m : DeclaredMember) : String × String := (m.name, m.descriptor)

def method (name descriptor : String) (mod_bits : UInt16) : DeclaredMember :=
  ⟨name, descriptor, mod_bits &&& METHOD_MODIFIER_MASK, name ++ descriptor⟩

def field (name descriptor : String) (mod_bits : UInt16) : DeclaredMember :=
  ⟨name, descriptor, mod_bits &&& FIELD_MODIFIER_MASK, name ++ ": " ++ descriptor⟩

end DeclaredMember

/-- `interfaces` is sorted. -/
structure ClassShape where
  access_flags : UInt16
  super_class : Option String
  interfaces : List String
  fields : List DeclaredMember
  methods : List DeclaredMember
  deriving DecidableEq

end Shapes

section Forecast

structure PredictedRefusal where
  code : ℕ
  name : String
  detail : String
  deriving DecidableEq

structure RedefineForecast where
  refusals : List PredictedRefusal
  deriving DecidableEq

/-- The members of `after` that `before` does not have, as labels. -/
def members_gained (before after : List DeclaredMember) : List String :=
  (after.filter fun m => !before.any fun b => b.key = m.key).map DeclaredMember.label

def hex_04 (n : UInt16) : String := "0x" ++ String.ofList (hex_padded 4 n.toNat)

def members_remodified (loaded built : List DeclaredMember) : List String :=
  built.filterMap fun b =>
    (loaded.find? fun l => l.key = b.key).bind fun was =>
      if was.modifiers ≠ b.modifiers then
        some (b.label ++ " (" ++ hex_04 was.modifiers ++ " -> " ++ hex_04 b.modifiers ++ ")")
      else none

def hierarchy_changes (loaded built : ClassShape) : List String :=
  (if loaded.super_class ≠ built.super_class then
    ["superclass " ++ loaded.super_class.getD "(none)" ++ " -> " ++
      built.super_class.getD "(none)"]
  else []) ++
  (if loaded.interfaces ≠ built.interfaces then
    ["interfaces [" ++ ", ".intercalate loaded.interfaces ++ "] -> [" ++
      ", ".intercalate built.interfaces ++ "]"]
  else [])

/-- `head`, how many there are, and which; nothing when there are none. -/
def counted (head kind : String) (labels : List String) : List String :=
  if labels.isEmpty then []
  else [head ++ toString labels.length ++ kind ++ ", ".intercalate labels]

def field_changes (loaded built : List DeclaredMember) : List String :=
  counted "adds " " field(s): " (members_gained loaded built) ++
    counted "removes " " field(s): " (members_gained built loaded) ++
    counted "changes " " field modifier(s): " (members_remodified loaded built)

/-- One refusal, when there is something to refuse. -/
def refusal (code : ℕ) (name : String) (details : List String) : List PredictedRefusal :=
  if details.isEmpty then [] else [⟨code, name, "; ".intercalate details⟩]

def modifier_changes (loaded built : ClassShape) : List String :=
  if loaded.access_flags ≠ built.access_flags then
    ["the class modifiers changed (" ++ hex_04 loaded.access_flags ++ " loaded, " ++
      hex_04 built.access_flags ++ " in your build)"]
  else []

def forecast_redefine (loaded built : ClassShape) : RedefineForecast where
  refusals :=
    refusal 70 "CLASS_MODIFIERS_CHANGE_NOT_IMPLEMENTED" (modifier_changes loaded built) ++
    refusal 66 "HIERARCHY_CHANGE_NOT_IMPLEMENTED" (hierarchy_changes loaded built) ++
    refusal 64 "SCHEMA_CHANGE_NOT_IMPLEMENTED" (field_changes loaded.fields built.fields) ++
    refusal 63 "ADD_METHOD_NOT_IMPLEMENTED"
      (counted "adds " " method(s): " (members_gained loaded.methods built.methods)) ++
    refusal 67 "DELETE_METHOD_NOT_IMPLEMENTED"
      (counted "removes " " method(s): " (members_gained built.methods loaded.methods)) ++
    refusal 71 "METHOD_MODIFIERS_CHANGE_NOT_IMPLEMENTED"
      (counted "changes " " method modifier(s): "
        (members_remodified loaded.methods built.methods))

end Forecast

section Reading

abbrev TypeId := UInt64

/-- A field or a method as the JVM lists it. -/
structure MemberInfo where
  name : String
  signature : String
  mod_bits : Int32

/-- What the JVM answers about the loaded class. -/
structure ClassReads where
  get_modifiers : Except String Int32
  get_superclass : Except String (Option TypeId)
  get_signature : TypeId → Except String String
  get_interfaces : Except String (List TypeId)
  get_fields : Except String (List MemberInfo)
  get_methods : Except String (List MemberInfo)

def mod_bits_u16 (bits : Int32) : UInt16 := (bits &&& 0xFFFF).toUInt32.toUInt16

def dotted_from_signature (signature : String) : String :=
  let internal := match signature.toList with
    | 'L' :: body => if body.getLast? = some ';' then body.dropLast else signature.toList
    | s => s
  String.ofList (decode_internal_name internal)

def named (r : ClassReads) (failure : String) (id : TypeId) : Except String String :=
  ((r.get_signature id).map dotted_from_signature).mapError fun e => failure ++ e

def loaded_class_shape (r : ClassReads) : Except String ClassShape := do
  let access_flags ← r.get_modifiers.mapError fun e =>
    "Failed to read the loaded class's modifiers: " ++ e
  let parent ← r.get_superclass.mapError fun e =>
    "Failed to read the loaded class's superclass: " ++ e
  let super_class ← parent.mapM (named r "Failed to read the loaded superclass's name: ")
  let interface_ids ← r.get_interfaces.mapError fun e =>
    "Failed to read the loaded class's interfaces: " ++ e
  let interfaces ← interface_ids.mapM (named r "Failed to read a loaded interface's name: ")
  let fields ← r.get_fields.mapError fun e => "Failed to list the loaded class's fields: " ++ e
  let methods ← r.get_methods.mapError fun e => "Failed to list the loaded class's methods: " ++ e
  pure {
    access_flags := mod_bits_u16 access_flags &&& CLASS_MODIFIER_MASK
    super_class := super_class
    interfaces := interfaces.insertionSort (· ≤ ·)
    fields := fields.map fun f => .field f.name f.signature (mod_bits_u16 f.mod_bits)
    methods := methods.map fun m => .method m.name m.signature (mod_bits_u16 m.mod_bits) }

def built_class_shape (built : ClassFile) : ClassShape where
  access_flags := built.access_flags &&& CLASS_MODIFIER_MASK
  super_class := built.super_class
  interfaces := built.interfaces.insertionSort (· ≤ ·)
  fields := built.fields.map fun f => .field f.name f.descriptor f.access_flags
  methods := built.methods.map fun m => .method m.name m.descriptor m.access_flags

end Reading

end JavaDebug.Forecasts
