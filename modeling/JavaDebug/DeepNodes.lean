import JavaDebug.Evaluations

/-!
A value rendered with what is in it, as a program of requests. The node budget,
the path of objects above a node and the reads made ahead are passed along. What
is shown of a value is a tree: at an expanded object, what the debuggee answered
about it and what is shown of its fields, elements or entries. `Shown.text`
prints the tree.
-/
namespace JavaDebug.DeepNodes

open Jdwp WireReader JavaValues MapWalks
  LazyReceivers Requests Evaluations
open DeepRenders (DeepOpts DeepState certain_children i32_or_max indent)
open CollectionScans (Entry layout_entries)
open ChainWalks (ReadPath)
open Selectors (ByteRender)
open StackReads (decode_signature hex)

section Shown

/-- What the debuggee answered about an object that is expanded. `whole` says that the classes of
the object were all read; an entry is `none` if its key or its value could not be had. -/
inductive Expansion
  | payload (text : String)
  | unreadable (what : String)
  | fieldless (whole : Bool) (summary : String)
  | fields (whole : Bool) (fields : List FieldInfo) (values : List Value)
  | elements (header : String) (len : Int32) (elems : List Value)
  | bare (header : String) (size : Int32)
  | walked (len : Int32) (found : List Entry)
  | invoked (len : Int32) (entries : List (Option Entry))
  | absent (present : Option ValueData)
  | present

inductive Shown
  | leaf (text : String)
  | exhausted (id : UInt64)
  | cycle (name : String) (id : UInt64)
  | untyped (id : UInt64)
  | summary (text : String)
  | pair (key value : Shown)
  | object (id : UInt64) (name : String) (depth : ℕ) (x : Expansion) (items : List Shown)

/-- How many of `len` children are asked for. -/
def taken (limit : ℕ) (len : Int32) : Int32 := min len (i32_or_max limit)

def block (header : String) (depth : ℕ) (lines : List String) (more : String) : String :=
  header ++ " \x7b" ++ String.join (lines.map fun l => "\n" ++ indent (depth + 1) ++ l) ++ more ++
    "\n" ++ indent depth ++ "\x7d"

def more_line (depth : ℕ) (what : String) : String := "\n" ++ indent (depth + 1) ++ "… +" ++ what

def map_block (name : String) (depth : ℕ) (len shown : Int32) (lines : List String) : String :=
  if len = 0 then name ++ "\x7b\x7d (0 entries)"
  else
    block (name ++ "(" ++ toString len ++ " entries)") depth lines
      (if shown < len then more_line depth (toString (len - shown) ++ " more entr(ies)") else "")

/-- An expanded object around the texts of what is in it. -/
def Expansion.text (limit : ℕ) (id : UInt64) (name : String) (depth : ℕ) (items : List String) :
    Expansion → String
  | .payload text => text
  | .unreadable what => handle_text name id ++ " (" ++ what ++ " unreadable)"
  | .fieldless _ summary => summary
  | .fields _ own _ =>
    let shown := min own.length limit
    block (handle_text name id) depth
      (List.zipWith (fun f item => f.name ++ " = " ++ item) own items)
      (if shown < own.length then
        more_line depth (toString (own.length - shown) ++ " more field(s)") else "")
  | .elements header len _ =>
    if len = 0 then header ++ " \x7b\x7d"
    else
      block header depth (items.mapIdx fun i item => "[" ++ toString i ++ "] = " ++ item)
        (if taken limit len < len then
          more_line depth (toString (len - taken limit len) ++ " more") else "")
  | .bare header _ => header ++ " \x7b\x7d"
  | .walked len found => map_block name depth len (i32_or_max (min found.length limit)) items
  | .invoked len _ => map_block name depth len (taken limit len) items
  | .absent _ => "Optional.empty"
  | .present => "Optional[" ++ String.join items ++ "]"

mutual

def Shown.text (limit : ℕ) : Shown → String
  | .leaf text => text
  | .exhausted id => "… (budget exhausted) @0x" ++ hex id
  | .cycle name id => "↩ " ++ handle_text name id ++ " (cycle)"
  | .untyped id => handle_text "(object)" id
  | .summary text => text
  | .pair key value => key.text limit ++ " → " ++ value.text limit
  | .object id name depth x items => x.text limit id name depth (texts limit items)

def texts (limit : ℕ) : List Shown → List String
  | [] => []
  | s :: rest => s.text limit :: texts limit rest

end

end Shown

section Reads

abbrev Opts := DeepOpts ByteRender

abbrev State := DeepState ValueReads

inductive FirstRead
  | string_contents (id : UInt64)
  | reference_type (id : UInt64)
  deriving DecidableEq

def first_read (v : Value) : Option FirstRead :=
  match v.data with
  | .object id =>
    if id = 0 then none
    else if v.tag = 115 then some (.string_contents id)
    else some (.reference_type id)
  | _ => none

/-- The strings and the objects to be read ahead, in order, and what was met already. -/
structure Wave where
  seen : List UInt64
  strings : List UInt64
  objects : List UInt64

def Wave.add (reads : ValueReads) (w : Wave) (v : Value) : Wave :=
  match first_read v with
  | some (.string_contents id) =>
    if (reads.strings id).isNone ∧ id ∉ w.seen then
      { w with seen := id :: w.seen, strings := w.strings ++ [id] }
    else w
  | some (.reference_type id) =>
    if (reads.types id).isNone ∧ id ∉ w.seen then
      { w with seen := id :: w.seen, objects := w.objects ++ [id] }
    else w
  | none => w

/-- One wave of reads, unless there are none. -/
def read_wave {α : Type} (ids : List UInt64) (f : Sight → UInt64 → α) : Ask (UInt64 → Option α) :=
  if ids = [] then pure fun _ => none
  else peek fun d id => if id ∈ ids then some (f d id) else none

def extend_committed (reads : ValueReads) (values : List Value) : Ask ValueReads := do
  let w := values.foldl (Wave.add reads) ⟨[], [], []⟩
  let strings ← read_wave w.strings fun d id => (d.get_string_value id).toOption
  let types ← read_wave w.objects fun d id => (d.get_object_reference_type id).toOption
  return { reads with
    strings := fun id => (strings id).or (reads.strings id)
    types := fun id => (types id).or (reads.types id) }

/-- The instance fields of at most `n` classes, and whether no class is missing. -/
def collect_from : ℕ → ClassId → Ask (List FieldInfo × Bool)
  | 0, _ => return ([], false)
  | n + 1, tid => do
    let fields ← peek fun d => d.get_fields tid
    match fields with
    | .error _ => return ([], false)
    | .ok fields =>
      let own := fields.filter fun f => !is_static f.mod_bits
      let above ← peek fun d => d.get_superclass tid
      match above with
      | .error _ => return (own, false)
      | .ok none => return (own, true)
      | .ok (some above) =>
        let rest ← collect_from n above
        return (own ++ rest.1, rest.2)

def collect_instance_fields (type_id : ClassId) : Ask (List FieldInfo × Bool) :=
  collect_from 50 type_id

end Reads

section Blocks

/-- How a value one level further down is rendered. -/
abbrev Child := Option ThreadId → Value → State → Ask (Shown × State)

variable (opts : Opts) (child : Child) (thread_id : Option ThreadId)

def render_children : List Value → State → Ask (List Shown × State)
  | [], st => return ([], st)
  | v :: rest, st => do
    let one ← child thread_id v st
    let more ← render_children rest one.2
    return (one.1 :: more.1, more.2)

def render_pair (kv : Entry) (st : State) : Ask (Shown × State) := do
  let k ← child thread_id kv.1 st
  let v ← child thread_id kv.2 k.2
  return (.pair k.1 v.1, v.2)

def render_pairs : List Entry → State → Ask (List Shown × State)
  | [], st => return ([], st)
  | kv :: rest, st => do
    let one ← render_pair child thread_id kv st
    let more ← render_pairs rest one.2
    return (one.1 :: more.1, more.2)

variable (depth : ℕ)

/-- The first reads of the children that the budget cannot fail to reach. -/
def commit (values : List Value) (st : State) : Ask State := do
  let certain := certain_children st.budget values.length (depth + 1) opts
  let reads ← extend_committed st.reads (values.take certain)
  return { st with reads := reads }

def render_indexed_block (header : String) (arr : UInt64) (len : Int32) (st : State) :
    Ask (Option (Expansion × List Shown) × State) :=
  if len = 0 then return (some (.bare header 0, []), st)
  else do
    let elems ← peek fun d => d.get_array_values arr 0 (taken opts.child_limit len)
    match elems with
    | .error _ => return (none, st)
    | .ok elems =>
      let st ← commit opts depth elems st
      let items ← render_children child thread_id elems st
      return (some (.elements header len elems, items.1), items.2)

def render_array_deep (id : UInt64) (name : String) (st : State) :
    Ask ((Expansion × List Shown) × State) := do
  let len ← peek fun d => d.get_array_length id
  match len with
  | .error _ => return ((.unreadable "length", []), st)
  | .ok len =>
    let header := element_name name ++ "[" ++ toString len ++ "]"
    let r ← render_indexed_block opts child thread_id depth header id len st
    return (r.1.getD (.unreadable "elements", []), r.2)

/-- A known layout walked. A list whose elements cannot be read is shown as one without any. -/
def render_layout_deep (id : UInt64) (type_id : ClassId) (layout : Layout) (name : String)
    (st : State) : Ask (Walked (Expansion × List Shown) × State) := do
  let entries ← peek fun d => layout_entries d.toHeap (some (id, type_id)) id layout
  match entries with
  | none =>
    let backing ← peek fun d => array_list_backing d.toHeap (some (id, type_id)) id
    match backing with
    | .error e => return (.declined e, st)
    | .ok (.declined why) => return (.declined why, st)
    | .ok (.read (arr, size)) =>
      let header := name ++ "[" ++ toString size ++ "]"
      match arr with
      | none => return (.read (.bare header size, []), st)
      | some a =>
        let r ← render_indexed_block opts child thread_id depth header a size st
        return (.read (r.1.getD (.bare header size, [])), r.2)
  | some (.error e) => return (.declined e, st)
  | some (.ok (.declined why)) => return (.declined why, st)
  | some (.ok (.read (pairs, len))) =>
    if len = 0 then return (.read (.walked len pairs, []), st)
    else
      let items ← render_pairs child thread_id (pairs.take opts.child_limit) st
      return (.read (.walked len pairs, items.1), items.2)

def render_fields_deep (t : Printing) (depth : ℕ) (id : UInt64) (type_id : ClassId) (name : String)
    (st : State) : Ask ((Expansion × List Shown) × State) := do
  let fields ← collect_instance_fields type_id
  if fields.1 = [] then
    let sig ← peek fun d => d.signature type_id
    let s ← render_resolved_object t .none id type_id sig name 76 thread_id opts.text_len opts.bytes
    return ((.fieldless fields.2 s, []), st)
  else
    let shown := min fields.1.length opts.child_limit
    let values ← peek fun d =>
      d.get_object_values id ((fields.1.take shown).map FieldInfo.field_id)
    match values with
    | .error _ => return ((.unreadable "fields", []), st)
    | .ok values =>
      let st ← commit opts depth (values.take shown) st
      let items ← render_children child thread_id (values.take shown) st
      return ((.fields fields.2 fields.1 values, items.1), items.2)

end Blocks

section Invoking

variable (opts : Opts) (child : Child) (tid : ThreadId)

/-- `isPresent()` first: `get()` on an empty `Optional` throws. -/
def render_optional_deep (id : UInt64) (type_id : ClassId) (st : State) :
    Ask (Option (Expansion × List Shown) × State) := do
  let present ← invoke_no_arg .expanding id type_id tid "isPresent"
  match present.map Value.data with
  | some (.boolean true) =>
    let v ← invoke_no_arg .expanding id type_id tid "get"
    match v with
    | none => return (none, st)
    | some v =>
      let item ← child (some tid) v st
      return (some (.present, [item.1]), item.2)
  | answer => return (some (.absent answer, []), st)

def render_elements_deep (depth : ℕ) (id : UInt64) (type_id : ClassId) (name : String) (st : State)
    : Ask (Option (Expansion × List Shown) × State) := do
  let arr ← invoke_for_object .expanding id type_id tid "toArray"
  match arr with
  | none => return (none, st)
  | some arr =>
    let len ← peek fun d => d.get_array_length arr
    match len with
    | .error _ => return (none, st)
    | .ok len =>
      render_indexed_block opts child (some tid) depth (name ++ "[" ++ toString len ++ "]") arr len
        st

/-- The entries, each as it was read, and those shown: one that cannot be read is skipped. -/
def render_entries : List Value → State → Ask ((List (Option Entry) × List Shown) × State)
  | [], st => return (([], []), st)
  | e :: rest, st => do
    let kv ← entry_pair .expanding e tid
    match kv with
    | none =>
      let more ← render_entries rest st
      return ((none :: more.1.1, more.1.2), more.2)
    | some kv =>
      let one ← render_pair child (some tid) kv st
      let more ← render_entries rest one.2
      return ((some kv :: more.1.1, one.1 :: more.1.2), more.2)

def render_map_deep (id : UInt64) (type_id : ClassId) (st : State) :
    Ask (Option (Expansion × List Shown) × State) := do
  let arr ← entry_array .expanding id type_id tid
  match arr with
  | none => return (none, st)
  | some arr =>
    let len ← peek fun d => d.get_array_length arr
    match len with
    | .error _ => return (none, st)
    | .ok len =>
      if len = 0 then return (some (.invoked 0 [], []), st)
      else
        let entries ← peek fun d => d.get_array_values arr 0 (taken opts.child_limit len)
        match entries with
        | .error _ => return (none, st)
        | .ok entries =>
          let r ← render_entries child tid entries st
          return (some (.invoked len r.1.1, r.1.2), r.2)

def render_collection_deep (depth : ℕ) (id : UInt64) (type_id : ClassId) (name : String)
    (kind : ContainerKind) (st : State) : Ask (Option (Expansion × List Shown) × State) :=
  match kind with
  | .optional => render_optional_deep child tid id type_id st
  | .collection => render_elements_deep opts child tid depth id type_id name st
  | .map => render_map_deep opts child tid id type_id st

end Invoking

section Nodes

variable (t : Printing) (opts : Opts)

def internals_only (path : ReadPath) (name : String) : ReadPath :=
  path.push ("🔍 read as its own fields: " ++ name ++ " is not one of the layouts read " ++
    "structurally (" ++ KNOWN_LAYOUTS ++ ") and no invocation was available (that needs a " ++
    "thread suspended BY AN EVENT), so what is shown is the object's INTERNAL STRUCTURE and not " ++
    "its contents — the entries are in there, held the way the class holds them. A stop point " ++
    "on the code you want to ask about is what turns this into entries.")

def DeepState.note (st : State) (f : ReadPath → ReadPath) : State :=
  { st with read_path := f st.read_path }

/-- An object that was not walked: its contents by invoking, or its fields. -/
def expand_unwalked (child : Child) (thread_id : Option ThreadId) (depth : ℕ) (id : UInt64)
    (type_id : ClassId) (name : String) (declined : Option String) (st : State) :
    Ask ((Expansion × List Shown) × State) := do
  let kind ← peek fun d => classify_container d type_id name
  let contents ←
    match kind, thread_id with
    | some k, some tid => render_collection_deep opts child tid depth id type_id name k st
    | _, _ => pure (none, st)
  match contents with
  | (some shown, st) => return (shown, DeepState.note st fun path => fell_back path name declined)
  | (none, st) =>
    let st := if kind.isSome then DeepState.note st fun path => internals_only path name else st
    render_fields_deep opts child thread_id t depth id type_id name st

def expand_object (child : Child) (thread_id : Option ThreadId) (depth : ℕ) (id : UInt64)
    (type_id : ClassId) (sig name : String) (tag : UInt8) (st : State) :
    Ask ((Expansion × List Shown) × State) :=
  if tag = 91 then do
    let text ← peek fun d => render_text_array d id sig opts.text_len opts.bytes
    match text with
    | some text => return ((.payload text, []), st)
    | none => render_array_deep opts child thread_id depth id name st
  else do
    let layout ← peek fun d => recognise_layout d type_id
    match layout with
    | none => expand_unwalked t opts child thread_id depth id type_id name none st
    | some layout =>
      let r ← render_layout_deep opts child thread_id depth id type_id layout name st
      match r with
      | (.read shown, st) => return (shown, DeepState.note st fun path => walked path layout name)
      | (.declined why, st) =>
        expand_unwalked t opts child thread_id depth id type_id name (some why) st

/-- What is done with an object that is neither a string nor a boxed primitive: its id, type,
signature, name and tag. -/
abbrev Finish := UInt64 → ClassId → String → String → UInt8 → State → Ask (Shown × State)

/-- An object that is not one of its own ancestors. -/
def typed_node (finish : Finish) (id : UInt64) (tag : UInt8) (st : State) :
    Ask (Shown × State) := do
  let s ← contents_if st.reads (tag = 115) id
  match s with
  | some s => return (.leaf (quoted s opts.text_len), st)
  | none =>
    let type_id ← reference_type st.reads id
    match type_id with
    | none => return (.untyped id, st)
    | some type_id =>
      let sig ← peek fun d => d.signature type_id
      let name := decode_signature sig
      let s ← contents_if st.reads (name = "java.lang.String") id
      match s with
      | some s => return (.leaf (quoted s opts.text_len), st)
      | none =>
        let boxed ← peek fun d => render_boxed_primitive t st.reads d id type_id name
        match boxed with
        | some s => return (.leaf s, st)
        | none => finish id type_id sig name tag st

def node (finish : Finish) (v : Value) (st : State) : Ask (Shown × State) :=
  match v.data with
  | .object id =>
    if id = 0 then return (.leaf "null", st)
    else if st.budget = 0 then return (.exhausted id, st)
    else if id ∈ st.path then do
      let name ← type_name_of id
      return (.cycle name id, { st with budget := st.budget - 1 })
    else typed_node t opts finish id v.tag { st with budget := st.budget - 1 }
  | other => return (.leaf ((format_primitive t other).getD "(?)"), st)

/-- At the depth limit: the object in one line. -/
def summarise (thread_id : Option ThreadId) : Finish := fun id type_id sig name tag st => do
  let s ← render_resolved_object t st.reads id type_id sig name tag thread_id opts.text_len
    opts.bytes
  return (.summary s, st)

def expand (child : Child) (thread_id : Option ThreadId) (depth : ℕ) : Finish :=
  fun id type_id sig name tag st => do
    let r ← expand_object t opts child thread_id depth id type_id sig name tag
      { st with path := st.path ++ [id] }
    return (.object id name depth r.1.1 r.1.2, { r.2 with path := r.2.path.dropLast })

/-- A value at `depth`, `levels` above the depth limit. -/
def render_node : ℕ → ℕ → Child
  | 0, _, thread_id, v, st => node t opts (summarise t opts thread_id) v st
  | levels + 1, depth, thread_id, v, st =>
    node t opts (expand t opts (render_node levels (depth + 1)) thread_id depth) v st

def DEEP_NODE_BUDGET : ℕ := 400

def fresh (budget : ℕ) : State := ⟨budget, [], .none, []⟩

def render_notes (path : ReadPath) : String := String.join (path.map fun note => "\n" ++ note)

def render_value_deep (v : Value) (thread_id : Option ThreadId) : Ask String := do
  let r ← render_node t opts opts.depth_limit 0 thread_id v (fresh DEEP_NODE_BUDGET)
  let body := r.1.text opts.child_limit
  let notes := render_notes r.2.read_path
  return if r.2.budget = 0 then
      body ++ "\n… node budget (" ++ toString DEEP_NODE_BUDGET ++
        ") exhausted — raise max_depth only if needed" ++ notes
    else body ++ notes

end Nodes

end JavaDebug.DeepNodes
