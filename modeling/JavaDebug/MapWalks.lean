import JavaDebug.KeyHashes

/-!
Collections read by their fields alone, with nothing invoked: a key is hashed
here, the table indexed, and the bin's chain walked, comparing stored hashes
first and stored keys by their contents. A read may fail; a failure is answered
by declining, by an error, or by taking the key for another.
-/
namespace JavaDebug.MapWalks

open Jdwp WireReader JavaValues KeyHashes

def BIN_CHAIN_GUARD : ℕ := 4096

def CHM_MOVED : Int32 := -1

def CHM_TREEBIN : Int32 := -2

def CHM_RESERVED : Int32 := -3

def CHM_FORWARD_HOPS : ℕ := 8

inductive Layout
  | hashMap
  | linkedHashMap
  | concurrentHashMap
  | arrayList
  deriving DecidableEq

inductive Walked (α : Type)
  | read (v : α)
  | declined (why : String)
  deriving DecidableEq

section Reads

/-- The debuggee's answers about objects, arrays and strings; the same read has one outcome. -/
structure Heap extends Types where
  get_object_values : UInt64 → List ℕ → Except String (List Value)
  get_array_length : UInt64 → Except String Int32
  get_array_values : UInt64 → Int32 → Int32 → Except String (List Value)
  get_string_value : UInt64 → Except String String

variable (d : Heap)

def find_field (type_id : ClassId) (name : String) : Except String (Option ℕ) :=
  (find_field_info d.toTypes type_id name none).map fun found => found.map fun f => f.2.field_id

/-- `FieldIds::id`; a field that could not be looked up is one that is not there. -/
def field_id (type_id : ClassId) (name : String) : Option ℕ :=
  match find_field d type_id name with
  | .ok found => found
  | .error _ => none

variable (known : Option (UInt64 × ClassId))

def type_of (obj : UInt64) : Option ClassId :=
  match known with
  | some (rooted, type_id) =>
    if rooted = obj then some type_id else (d.get_object_reference_type obj).toOption
  | none => (d.get_object_reference_type obj).toOption

/-- `FieldIds::read`: the named fields of an object, when it has all of them. -/
def read (obj : UInt64) (names : List String) :
    Option (List Value) := do
  let type_id ← type_of d known obj
  let fids ← names.mapM (field_id d type_id)
  let vals ← (d.get_object_values obj fids).toOption
  if vals.length = names.length then some vals else none

def as_int (v : Value) : Option Int32 :=
  match v.data with
  | .int n => some n
  | _ => none

def as_object_id (v : Value) : Option UInt64 :=
  match v.data with
  | .object id => if id = 0 then none else some id
  | _ => none

def boxed_data (id : UInt64) : Option ValueData := do
  let vals ← read d known id ["value"]
  let v ← vals.head?
  return v.data

end Reads

section Keys

variable (d : Heap) (known : Option (UInt64 × ClassId))

def arglit_kind (key : ArgLit) : String :=
  match key with
  | .str _ => "String"
  | .int _ => "int"
  | .long _ => "long"
  | .float _ => "float"
  | .double _ => "double"
  | .char _ => "char"
  | .bool _ => "boolean"
  | .null => "null"
  | .expr _ => "expression"

def unhashable_key (key : ArgLit) : String :=
  "a " ++ arglit_kind key ++ " key cannot be hashed without invoking hashCode() in the debuggee"

/-- The class whose `equals` a literal is compared by. -/
def literal_class (key : ArgLit) : Option String :=
  match key with
  | .str _ => some "Ljava/lang/String;"
  | .int _ => some "Ljava/lang/Integer;"
  | .long _ => some "Ljava/lang/Long;"
  | .bool _ => some "Ljava/lang/Boolean;"
  | .char _ => some "Ljava/lang/Character;"
  | _ => none

/-- What the object's contents are compared to, the class being the literal's. -/
def same_contents (id : UInt64) (want : ArgLit) : Bool :=
  match want with
  | .str s =>
    match d.get_string_value id with
    | .ok text => text = s
    | .error _ => false
  | .int i => boxed_data d known id = some (.int i)
  | .long l => boxed_data d known id = some (.long l)
  | .bool b => boxed_data d known id = some (.boolean b)
  | .char c => boxed_data d known id = some (.char c)
  | _ => false

def key_matches (stored : Value) (want : ArgLit) : Bool :=
  match as_object_id stored with
  | none => false
  | some id =>
    match d.get_object_reference_type id with
    | .error _ => false
    | .ok type_id =>
      let sig := (d.get_signature type_id).toOption.getD ""
      literal_class want = some sig && same_contents d known id want

end Keys

section Bins

variable (d : Heap) (known : Option (UInt64 × ClassId))

def bin_guard_reason : String :=
  "a hash bin was still going after " ++ toString BIN_CHAIN_GUARD ++ " nodes, which a " ++
    "concurrent resize can make a read look like"

def node_shape_reason (value_field : String) : String :=
  "a bin node has no key/" ++ value_field ++ "/next, so this is not the layout walked here"

/-- The walk along `next` over at most `guard` nodes. -/
def bin_walk (hash : Int32) (key : ArgLit) (value_field : String) :
    ℕ → Option UInt64 → Walked Value
  | _, none => .read value_null
  | 0, some _ => .declined bin_guard_reason
  | guard + 1, some node =>
    match read d known node ["hash", "key", value_field, "next"] with
    | none => .declined (node_shape_reason value_field)
    | some nf =>
      if nf[0]?.bind as_int = some hash ∧ (nf[1]?.any fun k => key_matches d known k key) then
        .read (nf[2]?.getD value_null)
      else bin_walk hash key value_field guard (nf[3]?.bind as_object_id)

def bin_lookup (start : Option UInt64) (hash : Int32) (key : ArgLit) (value_field : String) :
    Walked Value :=
  bin_walk d known hash key value_field BIN_CHAIN_GUARD start

def map_table (map : UInt64) (names : List String) : Walked (Option UInt64 × Int32) :=
  match read d known map names with
  | none => .declined ("it has no " ++ "/".intercalate names ++
      ", so this is not the layout walked here")
  | some f => .read (f[0]?.bind as_object_id, (f[1]?.bind as_int).getD 0)

def hash_map_lookup (map : UInt64) (key : ArgLit) : Except String (Walked Value) :=
  match (java_hash key).map hashmap_spread with
  | none => .ok (.declined (unhashable_key key))
  | some hash =>
    match map_table d known map ["table"] with
    | .declined why => .ok (.declined why)
    | .read (none, _) => .ok (.read value_null)
    | .read (some table, _) =>
      match d.get_array_length table with
      | .error e => .error ("Failed to read the map's table: " ++ e)
      | .ok n =>
        if n ≤ 0 then .ok (.read value_null)
        else
          match d.get_array_values table ((n - 1) &&& hash) 1 with
          | .error e => .error ("Failed to read the map's bin: " ++ e)
          | .ok head => .ok (bin_lookup d known (head[0]?.bind as_object_id) hash key "value")

/-- Where a bin head of a `ConcurrentHashMap` sends a reader. -/
inductive Bin
  | chain (start : Option UInt64)
  | forward (next : Option UInt64)
  | empty
  deriving DecidableEq

def chm_bin (head_id : UInt64) : Walked Bin :=
  match read d known head_id ["hash"] with
  | none => .declined "a bin head has no `hash` field, so this is not the layout walked here"
  | some hf =>
    match hf[0]?.bind as_int with
    | none => .read (.chain (some head_id))
    | some hash =>
      if hash = CHM_TREEBIN then
        match read d known head_id ["first"] with
        | some tf => .read (.chain (tf[0]?.bind as_object_id))
        | none => .declined "a TreeBin has no `first` field, so this is not the layout walked here"
      else if hash = CHM_MOVED then
        match read d known head_id ["nextTable"] with
        | some nf => .read (.forward (nf[0]?.bind as_object_id))
        | none =>
          .declined ("a ForwardingNode has no `nextTable` field, so this is not the layout " ++
            "walked here")
      else if hash = CHM_RESERVED then .read .empty
      else .read (.chain (some head_id))

def resizing_reason : String :=
  "the map forwarded to a new table more than " ++ toString CHM_FORWARD_HOPS ++
    " times — it is resizing under the read"

/-- The bin is looked for over at most `hops` tables. -/
def table_walk (hash : Int32) (key : ArgLit) : ℕ → UInt64 → Except String (Walked Value)
  | 0, _ => .ok (.declined resizing_reason)
  | hops + 1, table =>
    match d.get_array_length table with
    | .error e => .error ("Failed to read the map's table: " ++ e)
    | .ok n =>
      if n ≤ 0 then .ok (.read value_null)
      else
        match d.get_array_values table ((n - 1) &&& hash) 1 with
        | .error e => .error ("Failed to read the map's bin: " ++ e)
        | .ok head =>
          match head[0]?.bind as_object_id with
          | none => .ok (.read value_null)
          | some head_id =>
            match chm_bin d known head_id with
            | .declined why => .ok (.declined why)
            | .read .empty => .ok (.read value_null)
            | .read (.forward none) => .ok (.read value_null)
            | .read (.chain start) => .ok (bin_lookup d known start hash key "val")
            | .read (.forward (some next)) => table_walk hash key hops next

def chm_lookup (map : UInt64) (key : ArgLit) : Except String (Walked Value) :=
  match (java_hash key).map chm_spread with
  | none => .ok (.declined (unhashable_key key))
  | some hash =>
    match map_table d known map ["table"] with
    | .declined why => .ok (.declined why)
    | .read (none, _) => .ok (.read value_null)
    | .read (some table, _) => table_walk d known hash key CHM_FORWARD_HOPS table

end Bins

section Lists

variable (d : Heap) (known : Option (UInt64 × ClassId))

/-- The backing array and the length of the list it backs. -/
def array_list_backing (obj : UInt64) : Except String (Walked (Option UInt64 × Int32)) :=
  match map_table d known obj ["elementData", "size"] with
  | .declined why => .ok (.declined why)
  | .read (none, _) => .ok (.read (none, 0))
  | .read (some arr, size) =>
    match d.get_array_length arr with
    | .error e => .error ("Failed to read the list's backing array: " ++ e)
    | .ok cap => .ok (.read (some arr, max 0 (min size cap)))

/-- `debug` is the literal as `{:?}` prints it. -/
def array_list_index (debug : ArgLit → String) (id : UInt64) (key : ArgLit) (label : String) :
    Except String (Walked Value) :=
  match key with
  | .int i =>
    match array_list_backing d known id with
    | .error e => .error e
    | .ok (.declined why) => .ok (.declined why)
    | .ok (.read (arr, size)) =>
      if i < 0 ∨ size ≤ i then
        .error ("Index " ++ toString i ++ " is out of bounds for '" ++ label ++ "' (length " ++
          toString size ++ ")")
      else
        match arr with
        | none =>
          .error ("Index " ++ toString i ++ " is out of bounds for '" ++ label ++ "' (length 0)")
        | some arr =>
          match d.get_array_values arr i 1 with
          | .error e => .error ("Failed to read '" ++ label ++ "[" ++ toString i ++ "]': " ++ e)
          | .ok vals =>
            match vals.head? with
            | some v => .ok (.read v)
            | none => .error ("No value returned for '" ++ label ++ "[" ++ toString i ++ "]'")
  | _ => .error ("A list index must be an int — '" ++ label ++ "' is a java.util.ArrayList, got " ++
      debug key)

def structural_index (debug : ArgLit → String) (id : UInt64) (layout : Layout) (key : ArgLit)
    (label : String) : Except String (Walked Value) :=
  match layout with
  | .hashMap => hash_map_lookup d known id key
  | .linkedHashMap => hash_map_lookup d known id key
  | .concurrentHashMap => chm_lookup d known id key
  | .arrayList => array_list_index d known debug id key label

end Lists

end JavaDebug.MapWalks
