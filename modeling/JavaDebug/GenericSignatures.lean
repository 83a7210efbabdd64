import JavaDebug.LooseMethods

/-!
The grammar of generic signatures: types and method signatures as trees, their
encodings, and the Java source that they stand for. Each tree is one of what the
renderer accepts, with the same signature and the same source.
-/
namespace JavaDebug.GenericSignatures

open Octets Cursors Generics LooseMethods
open LooseSignatures (Dims Letter Chunk LooseType LooseSegment LooseArgument joined)
open WireReader (from_utf8_lossy from_utf8_as_bytes dotted)
open RequestFraming (as_bytes)

section Trees

/-- An unqualified name. -/
structure Identifier where
  text : String
  nonempty : text ≠ ""
  plain : ∀ c ∈ text.toList, c ∉ ['.', ';', '[', '/', '<', '>', ':']

inductive BaseType
  | byte
  | char
  | double
  | float
  | int
  | long
  | short
  | boolean

namespace BaseType

def letter : BaseType → String
  | byte => "B"
  | char => "C"
  | double => "D"
  | float => "F"
  | int => "I"
  | long => "J"
  | short => "S"
  | boolean => "Z"

def java : BaseType → String
  | byte => "byte"
  | char => "char"
  | double => "double"
  | float => "float"
  | int => "int"
  | long => "long"
  | short => "short"
  | boolean => "boolean"

end BaseType

mutual

/-- A type, and how many dimensions of an array it is the element of. A class type is a chain of
nested types, of which the first is in a package. -/
inductive JavaType
  | base (dims : Dims) (b : BaseType)
  | variable_ (dims : Dims) (name : Identifier)
  | class_ (dims : Dims) (package : List Identifier) (first : Segment) (nested : List Segment)

inductive Segment
  | mk (name : Identifier) (args : List Argument)

inductive Argument
  | any
  | extends_ (t : JavaType)
  | super_ (t : JavaType)
  | exact_ (t : JavaType)

end

end Trees

section Encoding

def open_brackets (dims : Dims) : String := String.join (List.replicate dims.val "[")

def path_sig (package : List Identifier) : String :=
  String.join (package.map fun p => p.text ++ "/")

mutual

def JavaType.sig : JavaType → String
  | .base dims b => open_brackets dims ++ b.letter
  | .variable_ dims name => open_brackets dims ++ ("T" ++ (name.text ++ ";"))
  | .class_ dims package first nested =>
    open_brackets dims ++ ("L" ++ (path_sig package ++ (first.sig ++ (nested_sig nested ++ ";"))))

def Segment.sig : Segment → String
  | .mk name [] => name.text
  | .mk name (a :: args) => name.text ++ ("<" ++ (a.sig ++ (args_sig args ++ ">")))

def nested_sig : List Segment → String
  | [] => ""
  | s :: nested => "." ++ (s.sig ++ nested_sig nested)

def Argument.sig : Argument → String
  | .any => "*"
  | .extends_ t => "+" ++ t.sig
  | .super_ t => "-" ++ t.sig
  | .exact_ t => t.sig

def args_sig : List Argument → String
  | [] => ""
  | a :: args => a.sig ++ args_sig args

end

def path_java (package : List Identifier) : String :=
  String.join (package.map fun p => p.text ++ ".")

mutual

/-- The type as Java source. -/
def JavaType.java : JavaType → String
  | .base dims b => b.java ++ brackets dims.val
  | .variable_ dims name => name.text ++ brackets dims.val
  | .class_ dims package first nested =>
    path_java package ++ first.java ++ nested_java nested ++ brackets dims.val

def Segment.java : Segment → String
  | .mk name [] => name.text
  | .mk name (a :: args) => name.text ++ ("<" ++ join ", " (a.java :: args_java args) ++ ">")

def nested_java : List Segment → String
  | [] => ""
  | s :: nested => "." ++ s.java ++ nested_java nested

def Argument.java : Argument → String
  | .any => "?"
  | .extends_ t => "? extends " ++ t.java
  | .super_ t => "? super " ++ t.java
  | .exact_ t => t.java

def args_java : List Argument → List String
  | [] => []
  | a :: args => a.java :: args_java args

end

end Encoding

section Texts

theorem as_bytes_append (s t : String) : as_bytes (s ++ t) = as_bytes s ++ as_bytes t := by
  simp [as_bytes]

theorem as_bytes_eq (s : String) : as_bytes s = s.toList.flatMap String.utf8EncodeChar := by
  have h := String.utf8Encode_toList (b := s)
  simp [as_bytes, ← h, List.utf8Encode]

theorem ascii_char {c : Char} {b : UInt8} (h : b ∈ String.utf8EncodeChar c) (hb : b.toNat < 128) :
    c.toNat = b.toNat := by
  have hbyte {n : ℕ} (hn : b = UInt8.ofNat n) : b.toNat = n % 256 := by
    rw [hn, UInt8.toNat_ofNat']
  have hcode : c.toNat = c.val.toNat := rfl
  simp only [String.utf8EncodeChar] at h
  split at h
  · have := hbyte (List.mem_singleton.mp h)
    omega
  split at h
  · simp only [List.mem_cons, List.not_mem_nil, or_false] at h
    rcases h with h | h <;> have := hbyte h <;> omega
  split at h
  · simp only [List.mem_cons, List.not_mem_nil, or_false] at h
    rcases h with h | h | h <;> have := hbyte h <;> omega
  · simp only [List.mem_cons, List.not_mem_nil, or_false] at h
    rcases h with h | h | h | h <;> have := hbyte h <;> omega

/-- None of the bytes is among those. -/
def Clear (stop : Bytes) (s : String) : Prop := ∀ b ∈ as_bytes s, b ∉ stop

variable {stop : Bytes}

theorem Clear.append {s t : String} (hs : Clear stop s) (ht : Clear stop t) :
    Clear stop (s ++ t) := by
  intro b hb
  rw [as_bytes_append] at hb
  rcases List.mem_append.mp hb with hb | hb
  · exact hs b hb
  · exact ht b hb

/-- The bytes of the characters that no identifier holds. -/
def reserved (b : UInt8) : Bool :=
  b.toNat < 128 && ['.', ';', '[', '/', '<', '>', ':'].contains (Char.ofNat b.toNat)

theorem Identifier.clear (i : Identifier) (hstop : stop.all reserved = true) :
    Clear stop i.text := by
  intro b hb hmem
  have hreserved := List.all_eq_true.mp hstop b hmem
  rw [reserved, Bool.and_eq_true, decide_eq_true_eq, List.contains_iff_mem] at hreserved
  obtain ⟨hlow, hforbidden⟩ := hreserved
  rw [as_bytes_eq] at hb
  obtain ⟨c, hc, hbc⟩ := List.mem_flatMap.mp hb
  rw [← ascii_char hbc hlow, Char.ofNat_toNat] at hforbidden
  exact i.plain c hc hforbidden

theorem as_bytes_ne {s : String} (h : s ≠ "") : as_bytes s ≠ [] := by
  intro hnone
  have hdecoded := from_utf8_as_bytes s
  rw [hnone] at hdecoded
  exact h (Option.some.inj hdecoded).symm

theorem from_utf8_lossy_as_bytes (s : String) : from_utf8_lossy (as_bytes s) = s := by
  rw [from_utf8_lossy, from_utf8_as_bytes]
  rfl

theorem append_ne (s : String) {t : String} (h : t ≠ "") : s ++ t ≠ "" :=
  fun hempty => h (String.append_eq_empty_iff.mp hempty).2

theorem dotted_append (s t : String) : dotted (s ++ t) = dotted s ++ dotted t := by
  rw [← String.toList_inj]
  simp [dotted]

end Texts

section Names

theorem dotted_name (i : Identifier) : dotted i.text = i.text := by
  rw [← String.toList_inj, dotted, String.toList_ofList]
  refine (List.map_congr_left fun c hc => ?_).trans (List.map_id _)
  have hslash : c ≠ '/' := by
    rintro rfl
    exact i.plain _ hc (by decide)
  exact if_neg hslash

variable (package : List Identifier)

theorem path_clear : Clear [60, 59, 46] (path_sig package) := by
  rw [path_sig]
  induction package with
  | nil => exact fun b hb => absurd hb List.not_mem_nil
  | cons i package ih =>
    rw [List.map_cons, String.join_cons]
    have hslash : Clear [60, 59, 46] "/" := by
      intro b hb
      rw [List.mem_singleton.mp hb]
      decide
    exact ((i.clear (by decide)).append hslash).append ih

theorem path_dotted : dotted (path_sig package) = path_java package := by
  rw [path_sig, path_java]
  induction package with
  | nil => decide
  | cons i package ih =>
    have hslash : dotted "/" = "." := by decide
    rw [List.map_cons, String.join_cons, dotted_append, dotted_append, dotted_name, hslash, ih,
      List.map_cons, String.join_cons]

theorem open_brackets_bytes (dims : Dims) :
    as_bytes (open_brackets dims) = LooseSignatures.openings dims := by
  rw [open_brackets, LooseSignatures.openings]
  induction dims.val with
  | zero => rfl
  | succ n ih =>
    rw [List.replicate_succ, String.join_cons, as_bytes_append, ih]
    rfl

end Names

section Embedding

namespace BaseType

def code : BaseType → Letter
  | byte => ⟨66, rfl⟩
  | char => ⟨67, rfl⟩
  | double => ⟨68, rfl⟩
  | float => ⟨70, rfl⟩
  | int => ⟨73, rfl⟩
  | long => ⟨74, rfl⟩
  | short => ⟨83, rfl⟩
  | boolean => ⟨90, rfl⟩

theorem code_bytes (b : BaseType) : as_bytes b.letter = [b.code.val] := by cases b <;> rfl

theorem code_java (b : BaseType) : (base_type b.code.val).getD "" = b.java := by cases b <;> rfl

end BaseType

def Identifier.chunk {stop : Bytes} (i : Identifier) (hstop : stop.all reserved = true) :
    Chunk stop :=
  ⟨as_bytes i.text, as_bytes_ne i.nonempty, i.clear hstop⟩

/-- A name behind the names of its packages. -/
def path_chunk (package : List Identifier) (i : Identifier) : Chunk [60, 59, 46] :=
  ⟨as_bytes (path_sig package ++ i.text), as_bytes_ne (append_ne _ i.nonempty),
    (path_clear package).append (i.clear (by decide))⟩

mutual

/-- The type as the renderer reads it. -/
def JavaType.loose : JavaType → LooseType
  | .base dims b => .base dims b.code
  | .variable_ dims name => .variable_ dims (name.chunk (by decide))
  | .class_ dims package first nested =>
    .class_ dims (first.loose package) (nested_loose nested)

def Segment.loose : Segment → List Identifier → LooseSegment
  | .mk name args, package => .mk (path_chunk package name) (args_loose args)

def nested_loose : List Segment → List LooseSegment
  | [] => []
  | s :: nested => s.loose [] :: nested_loose nested

def Argument.loose : Argument → LooseArgument
  | .any => .any
  | .extends_ t => .extends_ t.loose
  | .super_ t => .super_ t.loose
  | .exact_ t => .exact_ t.loose

def args_loose : List Argument → List LooseArgument
  | [] => []
  | a :: args => a.loose :: args_loose args

end

mutual

theorem JavaType.loose_bytes : (t : JavaType) → t.loose.bytes = as_bytes t.sig
  | .base dims b => by
    rw [JavaType.loose, LooseType.bytes, JavaType.sig, as_bytes_append, open_brackets_bytes,
      b.code_bytes]
  | .variable_ dims name => by
    rw [JavaType.loose, LooseType.bytes, JavaType.sig, as_bytes_append, as_bytes_append,
      as_bytes_append, open_brackets_bytes]
    rfl
  | .class_ dims package first nested => by
    rw [JavaType.loose, LooseType.bytes, first.loose_bytes package, nested_loose_bytes nested,
      JavaType.sig]
    simp only [as_bytes_append, open_brackets_bytes, List.append_assoc]
    rfl

theorem Segment.loose_bytes : (s : Segment) → ∀ package : List Identifier,
    (s.loose package).bytes = as_bytes (path_sig package ++ s.sig)
  | .mk name [], package => by
    rw [Segment.loose, args_loose, LooseSegment.bytes, LooseSignatures.angle_bytes, List.append_nil,
      Segment.sig]
    rfl
  | .mk name (a :: args), package => by
    rw [Segment.loose, args_loose, LooseSegment.bytes, LooseSignatures.angle_bytes, a.loose_bytes,
      args_loose_bytes args, Segment.sig]
    simp only [path_chunk, as_bytes_append, List.append_assoc]
    rfl

theorem nested_loose_bytes : (nested : List Segment) →
    LooseSignatures.nested_bytes (nested_loose nested) = as_bytes (nested_sig nested)
  | [] => rfl
  | s :: nested => by
    rw [nested_loose, LooseSignatures.nested_bytes, s.loose_bytes [], nested_loose_bytes nested,
      nested_sig, as_bytes_append, as_bytes_append, as_bytes_append]
    rfl

theorem Argument.loose_bytes : (a : Argument) → a.loose.bytes = as_bytes a.sig
  | .any => rfl
  | .extends_ t | .super_ t => by
    rw [Argument.loose, LooseArgument.bytes, t.loose_bytes, Argument.sig, as_bytes_append]
    rfl
  | .exact_ t => by
    rw [Argument.loose, LooseArgument.bytes, t.loose_bytes, Argument.sig]

theorem args_loose_bytes : (args : List Argument) →
    LooseSignatures.args_bytes (args_loose args) = as_bytes (args_sig args)
  | [] => rfl
  | a :: args => by
    rw [args_loose, LooseSignatures.args_bytes, a.loose_bytes, args_loose_bytes args, args_sig,
      as_bytes_append]

end

theorem Segment.java_ne (s : Segment) : s.java ≠ "" := by
  obtain ⟨name, args⟩ := s
  have hname := name.nonempty
  cases args with
  | nil => rwa [Segment.java]
  | cons a args =>
    rw [Segment.java]
    exact append_ne _ (append_ne _ (by decide))

theorem joined_ne {out : String} (h : out ≠ "") : joined out = out ++ "." :=
  if_neg fun hempty => h (String.isEmpty_iff.mp hempty)

theorem path_text (package : List Identifier) (name : Identifier) :
    dotted (from_utf8_lossy (path_chunk package name).val) = path_java package ++ name.text := by
  rw [path_chunk, from_utf8_lossy_as_bytes, dotted_append, path_dotted, dotted_name]

mutual

theorem JavaType.loose_java : (t : JavaType) → t.loose.java = t.java
  | .base dims b => by rw [JavaType.loose, LooseType.java, b.code_java, JavaType.java]
  | .variable_ dims name => by
    rw [JavaType.loose, LooseType.java, Identifier.chunk, from_utf8_lossy_as_bytes, JavaType.java]
  | .class_ dims package first nested => by
    rw [JavaType.loose, LooseType.java, first.loose_java package,
      nested_loose_java nested (append_ne _ first.java_ne), JavaType.java]
    rfl

theorem Segment.loose_java : (s : Segment) → ∀ (package : List Identifier) (out : String),
    (s.loose package).java out = joined out ++ path_java package ++ s.java
  | .mk name [], package, out => by
    rw [Segment.loose, args_loose, LooseSegment.java, LooseSignatures.angle_java, path_text,
      Segment.java, String.append_empty, String.append_assoc]
  | .mk name (a :: args), package, out => by
    rw [Segment.loose, args_loose, LooseSegment.java, LooseSignatures.angle_java, path_text,
      a.loose_java, args_loose_java args, Segment.java]
    simp only [String.append_assoc]

theorem nested_loose_java : (nested : List Segment) → ∀ {out : String}, out ≠ "" →
    LooseSignatures.nested_java (nested_loose nested) out = out ++ nested_java nested
  | [], out, _ => by
    rw [nested_loose, LooseSignatures.nested_java, nested_java, String.append_empty]
  | s :: nested, out, h => by
    have hnone : path_java [] = "" := rfl
    rw [nested_loose, LooseSignatures.nested_java, s.loose_java [] out,
      nested_loose_java nested (append_ne _ s.java_ne), joined_ne h, hnone, nested_java]
    simp only [String.append_assoc, String.empty_append]

theorem Argument.loose_java : (a : Argument) → a.loose.java = a.java
  | .any => rfl
  | .extends_ t | .super_ t | .exact_ t => by
    rw [Argument.loose, LooseArgument.java, t.loose_java, Argument.java]

theorem args_loose_java : (args : List Argument) →
    LooseSignatures.args_java (args_loose args) = args_java args
  | [] => rfl
  | a :: args => by
    rw [args_loose, LooseSignatures.args_java, a.loose_java, args_loose_java args, args_java]

end

/-- A type signature is rendered as the Java source of its type. -/
theorem render_type_sig (t : JavaType) : render_type t.sig = some t.java := by
  rw [LooseSignatures.render_type_bytes t.loose_bytes.symm, t.loose_java]

end Embedding

section Methods

/-- The bounds of a type parameter; there is one at least. -/
structure TypeParameter where
  name : Identifier
  class_bound : Option JavaType
  interface_bounds : List JavaType
  bounded : class_bound ≠ none ∨ interface_bounds ≠ []

namespace TypeParameter

variable (p : TypeParameter)

def sig : String :=
  p.name.text ++ (":" ++ (String.join (p.class_bound.toList.map JavaType.sig) ++
    String.join (p.interface_bounds.map fun t => ":" ++ t.sig)))

/-- The bounds as Java source, without `java.lang.Object`. -/
def bounds : List String :=
  ((p.class_bound.toList ++ p.interface_bounds).map JavaType.java).filter
    fun b => b ≠ "java.lang.Object"

def java : String :=
  if p.bounds = [] then p.name.text
  else p.name.text ++ " extends " ++ " & ".intercalate p.bounds

end TypeParameter

/-- A method signature; no return type is `void`. -/
structure MethodType where
  type_params : List TypeParameter
  params : List JavaType
  ret : Option JavaType
  throws : List JavaType

def params_sig (ps : List TypeParameter) : String :=
  if ps = [] then "" else "<" ++ (String.join (ps.map TypeParameter.sig) ++ ">")

namespace MethodType

def ret_sig (m : MethodType) : String := (m.ret.map JavaType.sig).getD "V"

def sig (m : MethodType) : String :=
  params_sig m.type_params ++ ("(" ++ (String.join (m.params.map JavaType.sig) ++
    (")" ++ (m.ret_sig ++ String.join (m.throws.map fun t => "^" ++ t.sig)))))

def java (m : MethodType) : MethodParts where
  type_params := m.type_params.map TypeParameter.java
  params := m.params.map JavaType.java
  ret := (m.ret.map JavaType.java).getD "void"
  throws := m.throws.map JavaType.java

end MethodType

variable {α : Type}

theorem items_bytes {β : Type} {loose : α → β} {bytes : β → Bytes} {sig : α → String}
    (h : ∀ a, bytes (loose a) = as_bytes (sig a)) (l : List α) :
    (l.map loose).flatMap bytes = as_bytes (String.join (l.map sig)) := by
  induction l with
  | nil => rfl
  | cons a l ih =>
    rw [List.map_cons, List.flatMap_cons, h, ih, List.map_cons, String.join_cons, as_bytes_append]

theorem each_loose {c : String} {b : UInt8} (hc : as_bytes c = [b]) (ts : List JavaType) :
    each_bytes b (ts.map JavaType.loose) =
      as_bytes (String.join (ts.map fun t => c ++ t.sig)) := by
  refine items_bytes (fun t => ?_) ts
  rw [t.loose_bytes, as_bytes_append, hc]
  rfl

/-- A type parameter as the renderer reads it. -/
def loose_parameter (name : Identifier) (class_bound : Option JavaType)
    (interface_bounds : List JavaType) : LooseParameter where
  name := name.chunk (by decide)
  class_bound := class_bound.map JavaType.loose
  interface_bounds := interface_bounds.map JavaType.loose
  opens h := (name.clear (by decide) : Clear [62] name.text) 62 (List.mem_of_head? h)
    List.mem_cons_self

theorem loose_parameter_bytes (name : Identifier) (class_bound : Option JavaType)
    (interface_bounds : List JavaType) :
    (loose_parameter name class_bound interface_bounds).bytes =
      as_bytes (name.text ++ (":" ++ (String.join (class_bound.toList.map JavaType.sig) ++
        String.join (interface_bounds.map fun t => ":" ++ t.sig)))) := by
  have hcolon : as_bytes ":" = [58] := rfl
  have hbound : (class_bound.map JavaType.loose).toList =
      class_bound.toList.map JavaType.loose := by
    cases class_bound <;> rfl
  rw [LooseParameter.bytes, loose_parameter, each_loose hcolon, hbound,
    items_bytes JavaType.loose_bytes]
  simp only [as_bytes_append, hcolon]
  rfl

theorem loose_parameters_bytes {loose : α → LooseParameter} {sig : α → String}
    (h : ∀ a, (loose a).bytes = as_bytes (sig a)) (l : List α) :
    parameters_bytes (l.map loose) =
      as_bytes (if l = [] then "" else "<" ++ (String.join (l.map sig) ++ ">")) := by
  cases l with
  | nil => rfl
  | cons a l =>
    rw [parameters_bytes, if_neg (by simp), if_neg (by simp), items_bytes h, as_bytes_append,
      as_bytes_append]
    rfl

def flat : Dims := ⟨0, Nat.zero_le 255⟩

def void : LooseType := .base flat ⟨86, rfl⟩

def loose_return (ret : Option JavaType) : LooseType := (ret.map JavaType.loose).getD void

theorem loose_return_bytes (ret : Option JavaType) :
    (loose_return ret).bytes = as_bytes ((ret.map JavaType.sig).getD "V") := by
  cases ret with
  | none => rfl
  | some t => exact t.loose_bytes

theorem loose_method_bytes {m : LooseMethod} {own : String} {params throws : List JavaType}
    {ret : Option JavaType} (hown : parameters_bytes m.type_params = as_bytes own)
    (hparams : m.params = params.map JavaType.loose) (hret : m.ret = loose_return ret)
    (hthrows : m.throws = throws.map JavaType.loose) :
    m.bytes = as_bytes (own ++ ("(" ++ (String.join (params.map JavaType.sig) ++
      (")" ++ ((ret.map JavaType.sig).getD "V" ++
        String.join (throws.map fun t => "^" ++ t.sig)))))) := by
  have hcaret : as_bytes "^" = [94] := rfl
  rw [LooseMethod.bytes, hown, hparams, hret, hthrows, items_bytes JavaType.loose_bytes,
    loose_return_bytes, each_loose hcaret]
  simp only [as_bytes_append]
  rfl

variable (p : TypeParameter)

def TypeParameter.loose : LooseParameter :=
  loose_parameter p.name p.class_bound p.interface_bounds

theorem TypeParameter.loose_bounded : p.loose.Bounded := by
  obtain ⟨name, bound, interfaces, hbounded⟩ := p
  rcases hbounded with hbound | hinterfaces
  · left
    rw [TypeParameter.loose, loose_parameter, Option.isSome_map]
    exact Option.isSome_iff_ne_none.mpr hbound
  · right
    rwa [TypeParameter.loose, loose_parameter, Ne, List.map_eq_nil_iff]

theorem TypeParameter.loose_java : p.loose.java = p.java := by
  obtain ⟨name, bound, interfaces, hbounded⟩ := p
  have hbounds : ((bound.map JavaType.loose).toList ++ interfaces.map JavaType.loose).map
      LooseType.java = (bound.toList ++ interfaces).map JavaType.java := by
    cases bound <;> simp [JavaType.loose_java]
  rw [TypeParameter.loose, loose_parameter, LooseParameter.java, hbounds]
  show declaration (from_utf8_lossy (as_bytes name.text)) _ = _
  rw [from_utf8_lossy_as_bytes]
  rfl

variable (m : MethodType)

def MethodType.loose : LooseMethod where
  type_params := m.type_params.map TypeParameter.loose
  params := m.params.map JavaType.loose
  ret := loose_return m.ret
  throws := m.throws.map JavaType.loose
  bounded p hp := by
    obtain ⟨p', -, rfl⟩ := List.mem_map.mp ((List.dropLast_sublist _).subset hp)
    exact p'.loose_bounded

theorem MethodType.loose_bytes : m.loose.bytes = as_bytes m.sig :=
  loose_method_bytes (loose_parameters_bytes (fun _ => loose_parameter_bytes _ _ _) m.type_params)
    rfl rfl rfl

theorem MethodType.loose_java : m.loose.java = m.java := by
  obtain ⟨ps, params, ret, throws⟩ := m
  have hret : (loose_return ret).java = (ret.map JavaType.java).getD "void" := by
    cases ret with
    | none => rfl
    | some t => exact t.loose_java
  simp [MethodType.loose, LooseMethod.java, MethodType.java, hret, JavaType.loose_java,
    TypeParameter.loose_java]

/-- A method signature is rendered as the Java source of its parts. -/
theorem render_method_sig : render_method m.sig = some m.java := by
  rw [render_method_bytes m.loose_bytes.symm, m.loose_java]

/-- Every type signature and every method signature is rendered in full. -/
theorem signatures_render :
    (∀ t : JavaType, render_type t.sig = some t.java) ∧
      ∀ m : MethodType, render_method m.sig = some m.java :=
  ⟨render_type_sig, render_method_sig⟩

end Methods

end JavaDebug.GenericSignatures
