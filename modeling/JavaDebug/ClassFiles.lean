import JavaDebug.WireReader

/-!
Reading a class file: as much of it as tells whether a class is stale and what a
redefinition would change. The file may be cut short anywhere, so every read
checks what is left; an error names the offset. Names are resolved through the
constant pool, whose indices count a long or a double twice.
-/
namespace JavaDebug.ClassFiles

open Octets Cursors
open WireReader (from_utf8_lossy dotted)

section Results

/-- `lines` are the `(start_pc, line)` pairs, in file order. -/
structure ClassFileMethod where
  access_flags : UInt16
  name : String
  descriptor : String
  lines : List (UInt64 × Int32)
  has_code : Bool
  has_line_table : Bool
  code : Bytes
  deriving DecidableEq

structure ClassFileField where
  access_flags : UInt16
  name : String
  descriptor : String
  deriving DecidableEq

structure ClassFile where
  this_class : String
  access_flags : UInt16
  super_class : Option String
  interfaces : List String
  fields : List ClassFileField
  methods : List ClassFileMethod
  deriving DecidableEq

end Results

section Parser

abbrev Parse (α : Type) := Cursor UInt8 (Except String) α

/-- `size` is how long the data is that the cursor goes over. -/
def take (size n : ℕ) : Parse Bytes := fun data =>
  if data.length < n then
    .error ("class file is truncated: wanted " ++ toString n ++ " byte(s) at offset " ++
      toString (size - data.length) ++ ", file is " ++ toString size ++ " byte(s)")
  else .ok (data.take n, data.drop n)

variable (size : ℕ)

def u8 : Parse UInt8 := do
  let b ← take size 1
  pure (UInt8.ofNat (value b))

def u16 : Parse UInt16 := do
  let b ← take size 2
  pure (UInt16.ofNat (value b))

def u32 : Parse UInt32 := do
  let high ← u16 size
  let low ← u16 size
  pure (UInt32.ofNat (high.toNat * 65536 + low.toNat))

def skip (size n : ℕ) : Parse Unit := do
  let _ ← take size n
  pure ()

def refuse {α : Type} (text : String) : Parse α := fun _ => .error text

inductive Constant
  | utf8 (s : String)
  | class_ (name_index : UInt16)
  | other
  deriving DecidableEq

/-- The tags whose entries are only skipped, and their widths. -/
def SKIP : List (UInt8 × ℕ) :=
  [(8, 2), (16, 2), (19, 2), (20, 2), (15, 3), (3, 4), (4, 4), (9, 4), (10, 4), (11, 4), (12, 4),
    (17, 4), (18, 4), (5, 8), (6, 8)]

def read_constant (tag : UInt8) (at_ : UInt16) : Parse Constant :=
  if tag = 1 then do
    let len ← u16 size
    let bytes ← take size len.toNat
    pure (.utf8 (from_utf8_lossy bytes))
  else if tag = 7 then do
    let name_index ← u16 size
    pure (.class_ name_index)
  else
    match SKIP.find? fun entry => entry.1 = tag with
    | some (_, width) => do
      skip size width
      pure .other
    | none =>
      refuse ("class file: unknown constant pool tag " ++ toString tag.toNat ++ " at entry " ++
        toString at_.toNat)

/-- Each entry has a tag, so there are no more of them than bytes. The index wraps. -/
def pool_entries (size : ℕ) (count : UInt16) : ℕ → UInt16 → List Constant → Parse (List Constant)
  | 0, _, pool => pure pool
  | n + 1, i, pool =>
    if i < count then do
      let tag ← u8 size
      let entry ← read_constant size tag i
      if tag = 5 ∨ tag = 6 then pool_entries size count n (i + 2) (pool ++ [entry, .other])
      else pool_entries size count n (i + 1) (pool ++ [entry])
    else pure pool

def parse_constant_pool : Parse (List Constant) := do
  let count ← u16 size
  fun data => pool_entries size count (data.length + 1) 1 [.other] data

variable (pool : List Constant)

def utf8 (index : UInt16) : Except String String :=
  match pool[index.toNat]? with
  | some (.utf8 s) => .ok s
  | _ => .error ("class file: constant pool entry " ++ toString index.toNat ++
      " is not a UTF-8 constant")

def class_name (index : UInt16) : Except String String :=
  match pool[index.toNat]? with
  | some (.class_ name_index) => (utf8 pool name_index).map dotted
  | _ => .error ("class file: constant pool entry " ++ toString index.toNat ++
      " is not a class constant")

/-- The name at the index that stands next. -/
def read_utf8 : Parse String := do
  let index ← u16 size
  StateT.lift (utf8 pool index)

def read_class_name : Parse String := do
  let index ← u16 size
  StateT.lift (class_name pool index)

structure ClassHeader where
  access_flags : UInt16
  this_class : String
  super_class : Option String
  interfaces : List String

def read_super_class : Parse (Option String) := do
  let super_index ← u16 size
  if super_index = 0 then pure none
  else do
    let name ← StateT.lift (class_name pool super_index)
    pure (some name)

def parse_header : Parse ClassHeader := do
  let access_flags ← u16 size
  let this_class ← read_class_name size pool
  let super_class ← read_super_class size pool
  let count ← u16 size
  let interfaces ← times (read_class_name size pool) count.toNat
  pure ⟨access_flags, this_class, super_class, interfaces⟩

/-- The name is not resolved. -/
def skip_attribute : Parse Unit := do
  skip size 2
  let len ← u32 size
  skip size len.toNat

def parse_field : Parse ClassFileField := do
  let access_flags ← u16 size
  let name ← read_utf8 size pool
  let descriptor ← read_utf8 size pool
  let attrs ← u16 size
  let _ ← times (skip_attribute size) attrs.toNat
  pure ⟨access_flags, name, descriptor⟩

def parse_fields : Parse (List ClassFileField) := do
  let count ← u16 size
  times (parse_field size pool) count.toNat

def read_line : Parse (UInt64 × Int32) := do
  let start_pc ← u16 size
  let line ← u16 size
  pure (start_pc.toUInt64, Int32.ofNat line.toNat)

def line_entries : Parse (List (UInt64 × Int32)) := do
  let entries ← u16 size
  times (read_line size) entries.toNat

def read_line_number_table (body : Bytes) : Except String (List (UInt64 × Int32)) :=
  (line_entries body.length body).map Prod.fst

structure CodeAttribute where
  lines : List (UInt64 × Int32)
  has_line_table : Bool
  code : Bytes

/-- The lines of the first table there is. -/
def code_attributes (size : ℕ) (pool : List Constant) :
    ℕ → Parse (Option (List (UInt64 × Int32)))
  | 0 => pure none
  | n + 1 => do
    let name ← read_utf8 size pool
    let len ← u32 size
    if name = "LineNumberTable" then do
      let body ← take size len.toNat
      let lines ← StateT.lift (read_line_number_table body)
      pure (some lines)
    else do
      skip size len.toNat
      code_attributes size pool n

def code_body : Parse CodeAttribute := do
  skip size 4
  let code_len ← u32 size
  let code ← take size code_len.toNat
  let exceptions ← u16 size
  skip size (exceptions.toNat * 8)
  let attrs ← u16 size
  let lines ← code_attributes size pool attrs.toNat
  pure ⟨lines.getD [], lines.isSome, code⟩

def parse_code_body (body : Bytes) (pool : List Constant) : Except String CodeAttribute :=
  (code_body body.length pool body).map Prod.fst

/-- The last `Code` there is. -/
def method_attributes (size : ℕ) (pool : List Constant) :
    ℕ → Option CodeAttribute → Parse (Option CodeAttribute)
  | 0, found => pure found
  | n + 1, found => do
    let attr_name ← read_utf8 size pool
    let len ← u32 size
    if attr_name = "Code" then do
      let body ← take size len.toNat
      let attr ← StateT.lift (parse_code_body body pool)
      method_attributes size pool n (some attr)
    else do
      skip size len.toNat
      method_attributes size pool n found

/-- A method as its `Code` attribute, if it has one, describes it. -/
def method_of (access_flags : UInt16) (name descriptor : String) :
    Option CodeAttribute → ClassFileMethod
  | none => ⟨access_flags, name, descriptor, [], false, false, []⟩
  | some attr =>
    ⟨access_flags, name, descriptor, attr.lines, true, attr.has_line_table, attr.code⟩

def parse_one_method : Parse ClassFileMethod := do
  let access_flags ← u16 size
  let name ← read_utf8 size pool
  let descriptor ← read_utf8 size pool
  let attrs ← u16 size
  let attr ← method_attributes size pool attrs.toNat none
  pure (method_of access_flags name descriptor attr)

def parse_methods : Parse (List ClassFileMethod) := do
  let count ← u16 size
  times (parse_one_method size pool) count.toNat

def parse_file : Parse ClassFile := do
  let magic ← u32 size
  if magic ≠ 0xCAFEBABE then refuse "not a class file: it does not start with 0xCAFEBABE"
  else do
    skip size 4
    let pool ← parse_constant_pool size
    let header ← parse_header size pool
    let fields ← parse_fields size pool
    let methods ← parse_methods size pool
    pure ⟨header.this_class, header.access_flags, header.super_class, header.interfaces, fields,
      methods⟩

/-- What follows the methods is not looked at. -/
def parse (bytes : Bytes) : Except String ClassFile := (parse_file bytes.length bytes).map Prod.fst

end Parser

end JavaDebug.ClassFiles
