import JavaDebug.Heads

/-!
The evaluation of an expression, as a program of requests: its head, then its
members and subscripts from left to right. A container of a known layout is
walked, another one is invoked; a filter resolves the right sides of its
predicate before it reads the container, and the left sides against each
element. `level` ties the recursion of arguments, keys and predicates.
-/
namespace JavaDebug.Evaluations

open Jdwp Addressing WireReader JavaValues
  Overloads MapWalks LazyReceivers BooleanTrees
  Requests Heads
open FrameNames (Frame first_value)
open DeepRenders (find_method_arity)
open CollectionScans (Entry Scan SUBSCRIPT_SCAN_CAP array_list_scan layout_entries)
open ChainWalks (ReadPath Resolved multi_then_chain_error)
open Comparisons (compare_values compare_resolved)
open Expressions (parse_expr parse_lit)
open Filters (PredRhs Predicate Kept keyed filter_header failed_everywhere)
open StackReads (decode_signature)

section Containers

def KNOWN_LAYOUTS : String :=
  "java.util.HashMap, java.util.LinkedHashMap, java.util.concurrent.ConcurrentHashMap, " ++
    "java.util.ArrayList"

def fields_walked (layout : Layout) : String :=
  match layout with
  | .hashMap => "table[] → Node.key/value/next, treeified bins included"
  | .linkedHashMap => "table[] for a key, head/after for iteration order"
  | .concurrentHashMap => "table[] → Node.key/val/next, TreeBin.first included"
  | .arrayList => "elementData[0..size]"

def walked (path : ReadPath) (layout : Layout) (name : String) : ReadPath :=
  path.push ("📐 read structurally: " ++ name ++ " was walked through its own fields (" ++
    fields_walked layout ++ ") — nothing was invoked in the debuggee and no thread had to be " ++
    "suspended. Nothing was locked either, so this is a SAMPLE of a live collection, not a " ++
    "transaction: a concurrent resize or write can make it inconsistent.")

variable (path : ReadPath)

def invoked (name why : String) : ReadPath :=
  path.push ("⚙️ read by invoking in the debuggee (needs a suspended thread): " ++ name ++ " " ++
    why ++ ".")

def unrecognised (name : String) : ReadPath :=
  invoked path name ("is not one of the layouts read structurally (" ++ KNOWN_LAYOUTS ++
    "), so it fell back rather than guess at its internals")

/-- Why a container is invoked: a walk that declined, or no known layout. -/
def fell_back (name : String) (declined : Option String) : ReadPath :=
  match declined with
  | some why => invoked path name why
  | none => unrecognised path name

def needs_thread (doing label name method : String) (declined : Option String) : String :=
  doing ++ " '" ++ label ++ "' needs a suspended thread — " ++ name ++ " is read by calling " ++
    method ++ " in the debuggee" ++
    (match declined with
    | none => " (structural reads cover " ++ KNOWN_LAYOUTS ++ ")"
    | some why => " (" ++ name ++ " " ++ why ++ ")")

def recognise_layout (d : Sight) (type_id : ClassId) : Option Layout :=
  match d.get_signature type_id with
  | .error _ => none
  | .ok sig =>
    if sig = "Ljava/util/HashMap;" then some .hashMap
    else if sig = "Ljava/util/LinkedHashMap;" then some .linkedHashMap
    else if sig = "Ljava/util/concurrent/ConcurrentHashMap;" then some .concurrentHashMap
    else if sig = "Ljava/util/ArrayList;" then some .arrayList
    else none

inductive ContainerKind
  | collection
  | map
  | optional
  deriving DecidableEq

def method_of (d : Sight) (type_id : ClassId) (name : String) : Option MethodInfo :=
  match find_method_arity d.toTypes type_id name 0 with
  | .ok (some (_, m)) => some m
  | _ => none

def classify_container (d : Sight) (type_id : ClassId) (name : String) : Option ContainerKind :=
  if name = "java.util.Optional" then some .optional
  else if (method_of d type_id "size").any fun m => m.signature = "()I" then
    if (method_of d type_id "entrySet").isSome then some .map
    else if (method_of d type_id "toArray").any fun m =>
        m.signature = "()[Ljava/lang/Object;" then some .collection
    else none
  else none

/-- The object's type and the name of its class. -/
def type_and_name (id : UInt64) (label : String) : Try (ClassId × String) := do
  let type_id ← consult fun d => (d.get_object_reference_type id).mapError fun e =>
    "Failed to resolve type of '" ++ label ++ "': " ++ e
  let name ← observe fun d => decode_signature (d.signature type_id)
  return (type_id, name)

end Containers

section Indexing

variable (t : Printing) (r : Deeper) (thread_id : Option ThreadId) (frame : Option Frame)

def index_array (d : Sight) (id : UInt64) (key : ArgLit) (label : String) : Except String Value :=
  match key with
  | .int i =>
    match d.get_array_length id with
    | .error e => .error ("Failed to read length of '" ++ label ++ "': " ++ e)
    | .ok len =>
      if i < 0 ∨ len ≤ i then
        .error ("Index " ++ toString i ++ " is out of bounds for '" ++ label ++ "' (length " ++
          toString len ++ ")")
      else
        match d.get_array_values id i 1 with
        | .error e => .error ("Failed to read '" ++ label ++ "[" ++ toString i ++ "]': " ++ e)
        | .ok vals =>
          first_value ("No value returned for '" ++ label ++ "[" ++ toString i ++ "]'") vals
  | _ =>
    .error ("An array index must be an int, got " ++ t.debug_arglit key ++ " on '" ++ label ++ "'")

/-- A key as `get` takes it: boxed for a reference parameter, an int for another one. -/
def index_key (tid : ThreadId) (params : List String) (key : ArgLit) (label : String) : Try Value :=
  if params.head?.any is_reference then do
    let key_value ← arglit_to_value r frame key
    if (format_primitive t key_value.data).isSome then
      let boxed ← box_primitive tid key_value
      match boxed with
      | some boxed => return boxed
      | none => throw ("Could not box the key for '" ++ label ++ "[…]' — try a String key")
    else return key_value
  else
    match key with
    | .int i => pure (value_int i)
    | _ =>
      throw ("A list index must be an int — '" ++ label ++ "' takes " ++ params.head?.getD "?" ++
        ", got " ++ t.debug_arglit key)

def index_by_invoking (tid : ThreadId) (id : UInt64) (type_id : ClassId) (key : ArgLit)
    (label : String) : Try Value := do
  let found ← consult fun d => find_method_arity d.toTypes type_id "get" 1
  match found with
  | none =>
    throw ("'" ++ label ++ "' is not indexable — no 1-argument get() found (arrays, List and " ++
      "Map are supported)")
  | some (decl, m) =>
    let arg ← index_key t r frame tid (sig_param_types m.signature) key label
    send .indexing ⟨some id, tid, decl, m.method_id, [arg]⟩ "get"
      ("'" ++ label ++ "[…]' get() failed: ")

/-- What walking a known layout comes to, if the layout is known. -/
def walked_index (d : Sight) (id : UInt64) (type_id : ClassId) (key : ArgLit) (label : String) :
    Except String (Option (Layout × Walked Value)) :=
  match recognise_layout d type_id with
  | none => .ok none
  | some layout =>
    (structural_index d.toHeap none t.debug_arglit id layout key label).map fun w =>
      some (layout, w)

def apply_index (base : Value) (key : ArgLit) (label : String) (path : ReadPath) :
    Try (Value × ReadPath) :=
  match as_object_id base with
  | none => throw ("Cannot index '" ++ label ++ "' — it is null or a primitive")
  | some id =>
    if base.tag = 91 then do
      let v ← consult fun d => index_array t d id key label
      return (v, path)
    else do
      let ty ← type_and_name id label
      let found ← consult fun d => walked_index t d id ty.1 key label
      let invoking (declined : Option String) : Try (Value × ReadPath) :=
        match thread_id with
        | none => throw (needs_thread "Indexing" label ty.2 "get()" declined)
        | some tid => do
          let v ← index_by_invoking t r frame tid id ty.1 key label
          return (v, fell_back path ty.2 declined)
      match found with
      | some (layout, .read v) => return (v, walked path layout ty.2)
      | some (_, .declined why) => invoking (some why)
      | none => invoking none

end Indexing

section Scanning

variable (t : Printing) (thread_id : Option ThreadId)

def scan_array (d : Sight) (arr : UInt64) (label name : String) : Except String Scan :=
  match d.get_array_length arr with
  | .error e => .error ("Failed to read length of '" ++ label ++ "': " ++ e)
  | .ok len =>
    let take := min len SUBSCRIPT_SCAN_CAP
    if take = 0 then .ok ⟨[], [], len, name⟩
    else
      match d.get_array_values arr 0 take with
      | .error e => .error ("Failed to read elements of '" ++ label ++ "': " ++ e)
      | .ok values => .ok ⟨values, [], len, name⟩

def no_order_to_slice (label : String) : String :=
  "'" ++ label ++ "' is a Map, so there is no order to slice. Use " ++ label ++
    "[\"key\"] for one entry, or a filter (" ++ label ++ "[?…]) which keeps the keys."

/-- What walking a known layout yields: a list's elements, or a map's entries and their count. -/
def structural_contents (d : Sight) (id : UInt64) (layout : Layout) (name : String) :
    Except String (Walked (Scan ⊕ List Entry × Int32)) :=
  match layout_entries d.toHeap none id layout with
  | none => (array_list_scan d.toHeap none id name).map (CollectionScans.Walked.map .inl)
  | some entries => entries.map (CollectionScans.Walked.map .inr)

def render_key (k : Value) : Ask String := render_value t k thread_id 120 .default

def structural_scan (id : UInt64) (layout : Layout) (name : String) : Try (Walked Scan) := do
  let found ← consult fun d => structural_contents d id layout name
  match found with
  | .declined why => return .declined why
  | .read (.inl scan) => return .read scan
  | .read (.inr (pairs, len)) =>
    let keys ← (liftM (pairs.mapM fun kv => render_key t thread_id kv.1) : Try (List String))
    return .read ⟨pairs.map Prod.snd, keys, len, name⟩

variable (tid : ThreadId)

/-- The rendered keys and the values of entries, one that cannot be read being skipped. -/
def scan_entries : List Value → Ask (List (String × Value))
  | [] => return []
  | e :: entries => do
    let kv ← entry_pair .scanning e tid
    match kv with
    | none => scan_entries entries
    | some (k, v) =>
      let key ← render_key t (some tid) k
      let more ← scan_entries entries
      return (key, v) :: more

def entry_values (d : Sight) (arr : UInt64) (label : String) : Except String (List Value × Int32) :=
  match d.get_array_length arr with
  | .error e => .error ("Failed to read the entry count of '" ++ label ++ "': " ++ e)
  | .ok len =>
    let take := min len SUBSCRIPT_SCAN_CAP
    if take = 0 then .ok ([], len)
    else
      match d.get_array_values arr 0 take with
      | .error e => .error ("Failed to read entries of '" ++ label ++ "': " ++ e)
      | .ok entries => .ok (entries, len)

def scan_map_entries (id : UInt64) (type_id : ClassId) (label name : String) : Try Scan := do
  let set ← invoke_for_object .scanning id type_id tid "entrySet"
  match set with
  | none => throw ("entrySet() on '" ++ label ++ "' returned nothing usable")
  | some set =>
    let set_type ← consult fun d => (d.get_object_reference_type set).mapError fun e =>
      "Failed to resolve the entry set of '" ++ label ++ "': " ++ e
    let arr ← invoke_for_object .scanning set set_type tid "toArray"
    match arr with
    | none => throw ("toArray() on the entry set of '" ++ label ++ "' returned nothing usable")
    | some arr =>
      let found ← consult fun d => entry_values d arr label
      let kvs ← scan_entries t tid found.1
      return ⟨kvs.map Prod.snd, kvs.map Prod.fst, found.2, name⟩

/-- A slice refuses a map, which has no order; a filter descends into its entries. -/
def scan_by_invoking (id : UInt64) (type_id : ClassId) (label name : String) (entries : Bool) :
    Try Scan := do
  let kind ← observe fun d => classify_container d type_id name
  match kind with
  | some .collection =>
    let arr ← invoke_for_object .scanning id type_id tid "toArray"
    match arr with
    | none => throw ("toArray() on '" ++ label ++ "' returned nothing usable")
    | some arr => consult fun d => scan_array d arr label name
  | some .map =>
    if entries then scan_map_entries t tid id type_id label name
    else throw (no_order_to_slice label)
  | _ =>
    throw ("'" ++ label ++ "' is not sliceable — expected an array or a Collection, got " ++ name)

def scan_elements (base : Value) (label : String) (entries : Bool) (path : ReadPath) :
    Try (Scan × ReadPath) :=
  match as_object_id base with
  | none => throw ("Cannot slice or filter '" ++ label ++ "' — it is null or a primitive")
  | some id => do
    let name ← (liftM (type_name_of id) : Try String)
    if base.tag = 91 then
      let scan ← consult fun d => scan_array d id label name
      return (scan, path)
    else
      let type_id ← consult fun d => (d.get_object_reference_type id).mapError fun e =>
        "Failed to resolve type of '" ++ label ++ "': " ++ e
      let invoking (declined : Option String) : Try (Scan × ReadPath) :=
        match thread_id with
        | none => throw (needs_thread "Slicing or filtering" label name "toArray()" declined)
        | some tid => do
          let scan ← scan_by_invoking t tid id type_id label name entries
          return (scan, fell_back path name declined)
      let layout ← observe fun d => recognise_layout d type_id
      match layout with
      | none => invoking none
      | some layout =>
        if layout ≠ .arrayList ∧ entries = false then throw (no_order_to_slice label)
        else
          let found ← structural_scan t thread_id id layout name
          match found with
          | .read scan => return (scan, walked path layout name)
          | .declined why => invoking (some why)

/-- `usize::try_from(n).unwrap_or(0)` -/
def slice_bound (n : Int64) : ℕ := n.toInt.toNat

def apply_range (base : Value) (a b : Int64) (label : String) (path : ReadPath) :
    Try (Resolved × ReadPath) := do
  let found ← scan_elements t thread_id base label false path
  let scan := found.1
  if a < 0 then
    throw ("Range start must not be negative in '" ++ label ++ "[" ++ toString a ++ ".." ++
      toString b ++ "]'")
  else
    let slice := (scan.values.take (slice_bound b)).drop (slice_bound a)
    let note :=
      if (scan.values.length : ℤ) < scan.len.toInt then
        " (only the first " ++ toString scan.values.length ++ " of " ++ toString scan.len ++
          " were read — scan cap)"
      else ""
    return (.many (scan.name ++ "[" ++ toString a ++ ".." ++ toString b ++ "] → " ++
      toString slice.length ++ " of " ++ toString scan.len ++ note) slice [], found.2)

end Scanning

section Filtering

variable (t : Printing) (r : Deeper) (thread_id : Option ThreadId) (frame : Option Frame)

def prepare_leaf (leaf : List Char) : Try Predicate :=
  match split_comparison leaf with
  | none => pure (.bool (String.ofList leaf))
  | some (lhs, op, rhs) => do
    let lit ← ExceptT.mk (pure (parse_lit parse_expr (trim rhs)))
    match lit with
    | .expr e =>
      let v ← r.resolve_expression frame e
      return .compare (String.ofList lhs) (String.ofList op) (.value v)
    | lit => return .compare (String.ofList lhs) (String.ofList op) (.lit lit)

def prepare_predicate (predicate : String) : Try (BoolTree Predicate) :=
  prepare_tree (prepare_leaf r frame) (parse_bool_tree predicate.toList)

def eval_predicate_leaf (element : Value) (pred : Predicate) : Try Bool :=
  match pred with
  | .compare lhs op rhs => do
    let lv ← r.resolve_relative element lhs
    match rhs with
    | .value rv => consult fun d => compare_resolved d.toHeap lv op rv
    | .lit lit => consult fun d => compare_values d.toHeap lv op lit
  | .bool expr => do
    let v ← r.resolve_relative element expr
    match v.data with
    | .boolean b => return b
    | _ => throw ("Predicate '" ++ expr ++ "' did not evaluate to a boolean")

def eval_predicate_on (element : Value) (pred : BoolTree Predicate) : Try Bool :=
  eval_tree (eval_predicate_leaf r element) pred

def keep_matching (pred : BoolTree Predicate) : List (Value × Option String) → Kept → Ask Kept
  | [], k => return k
  | (v, key) :: rest, k => do
    let holds ← (eval_predicate_on r v pred).run
    keep_matching pred rest (k.add v key holds)

def apply_filter (base : Value) (predicate label : String) (path : ReadPath) :
    Try (Resolved × ReadPath) := do
  let pred ← prepare_predicate r frame predicate
  let found ← scan_elements t thread_id base label true path
  let scan := found.1
  let kept ← (liftM (keep_matching r pred (keyed scan) ⟨[], [], 0, none⟩) : Try Kept)
  if 0 < kept.errors ∧ kept.values = [] ∧ kept.errors = min scan.values.length 2147483647 then
    throw (failed_everywhere predicate label kept.first_error)
  else
    return (.many (filter_header predicate scan kept.values.length kept.errors) kept.values
      kept.keys, found.2)

end Filtering

section Resolving

variable (t : Printing) (r : Deeper) (thread_id : Option ThreadId) (frame : Option Frame)
  (lazy : LazyPolicy)

/-- A segment's subscripts, left to right; several values end them. -/
def apply_subscripts (label : String) :
    List Subscript → Value → ReadPath → Try (Resolved × ReadPath)
  | [], current, path => return (.one current, path)
  | .index key :: rest, current, path => do
    let found ← apply_index t r thread_id frame current key label path
    apply_subscripts label rest found.1 found.2
  | .range a b :: rest, current, path =>
    if rest = [] then apply_range t thread_id current a b label path
    else throw (multi_then_chain_error label)
  | .filter pred :: rest, current, path =>
    if rest = [] then apply_filter t r thread_id frame current pred label path
    else throw (multi_then_chain_error label)

def read_segment_field (obj_id : UInt64) (type_id : ClassId) (seg : Seg) : Try Value := do
  let sig ← observe fun d =>
    if seg.name = "length" then d.signature type_id else ""
  if starts_with sig '[' then
    consult fun d =>
      match d.get_array_length obj_id with
      | .error e =>
        .error ("Failed to read the length of '" ++ decode_signature sig ++ "': " ++ e)
      | .ok len => .ok (value_int len)
  else
    let found ← consult fun d => find_field d.toHeap type_id seg.name
    match found with
    | none => throw ("No field '" ++ seg.name ++ "' found on the object")
    | some fid =>
      let vals ← explain (fun e => "Failed to read field '" ++ seg.name ++ "': " ++ e)
        (get_object_values obj_id [fid])
      ExceptT.mk (pure (first_value "No value returned for field" vals))

def resolve_member (current : Value) (seg : Seg) : Try Value :=
  if (parse_object_handle seg.name).isSome then
    throw ("'" ++ seg.name ++ "' is an object handle, which can only be the FIRST segment of an " ++
      "expression — write " ++ seg.name ++ ".field, not something." ++ seg.name)
  else
    match current.data with
    | .object obj_id =>
      if obj_id = 0 then throw ("Cannot access '." ++ seg.name ++ "' on null")
      else do
        let type_id ← consult fun d => (d.get_object_reference_type obj_id).mapError fun e =>
          "Failed to resolve object type: " ++ e
        let _ ← consult fun d => check_lazy_receiver (d.debuggee t) obj_id type_id seg lazy
        match seg.args with
        | some arglits => invoke_segment_method r frame thread_id obj_id type_id seg arglits
        | none => read_segment_field obj_id type_id seg
    | _ => throw ("Cannot access '." ++ seg.name ++ "' on a primitive value")

def single (what : String) (v : Resolved) : Try Value :=
  match v with
  | .one v => pure v
  | .many _ _ _ =>
    throw (what ++ " needs a single value, but this expression ends in a slice or filter which " ++
      "selects several. Narrow it with an index (e.g. [0]) or drop the subscript.")

/-- A member of the value before it, with its subscripts. -/
def resolve_link (seg : Seg) (current : Value) (path : ReadPath) : Try (Resolved × ReadPath) := do
  let member ← resolve_member t r thread_id frame lazy current seg
  apply_subscripts t r thread_id frame seg.name seg.subs member path

/-- A chain from an element of a scan. -/
def relative_links : List Seg → Value → ReadPath → Try Value
  | [], current, _ => return current
  | seg :: rest, current, path => do
    let found ← resolve_link t r thread_id none .report seg current path
    let v ← single "A filter predicate" found.1
    relative_links rest v found.2

def resolve_relative (base : Value) (expr : String) : Try Value := do
  let segs ← ExceptT.mk (pure (parse_expr expr.toList))
  relative_links t r thread_id segs base []

def resolve_links : List Seg → Value → ReadPath → Try (Resolved × ReadPath)
  | [], current, path => return (.one current, path)
  | seg :: rest, current, path => do
    let found ← resolve_link t r thread_id frame lazy seg current path
    match found.1 with
    | .one v => resolve_links rest v found.2
    | many =>
      if rest = [] then return (many, found.2) else throw (multi_then_chain_error seg.name)

/-- An expression's segments, those that its head takes, and the head's value with its
subscripts. -/
def resolve_start (expr : String) : Try (List Seg × ℕ × Seg × Resolved × ReadPath) := do
  let segs ← ExceptT.mk (pure (parse_expr expr.toList))
  match segs.head? with
  | none => throw "Empty expression"
  | some head_seg =>
    let head ← resolve_any_head r thread_id frame segs head_seg []
    match segs[head.1.2 - 1]? with
    | none => throw "Internal error: head resolution consumed no segments"
    | some head_owner =>
      let found ←
        apply_subscripts t r thread_id frame head_owner.name head_owner.subs head.1.1 head.2
      return (segs, head.1.2, head_owner, found)

def resolve_expression_multi (expr : String) : Try (Resolved × ReadPath) := do
  let start ← resolve_start t r thread_id frame expr
  match start with
  | (segs, taken, _, .one v, path) =>
    resolve_links t r thread_id frame lazy (segs.drop taken) v path
  | (segs, taken, head_owner, many, path) =>
    if taken < segs.length then throw (multi_then_chain_error head_owner.name)
    else return (many, path)

def resolve_expression (expr : String) : Try Value := do
  let found ← resolve_expression_multi t r thread_id frame .report expr
  single "This" found.1

end Resolving

section Levels

variable (t : Printing) (thread_id : Option ThreadId)

/-- The evaluations to a depth of `n` re-entries. -/
def level : ℕ → Deeper
  | 0 =>
    { resolve_expression := fun _ _ => throw "nested too deeply"
      resolve_relative := fun _ _ => throw "nested too deeply" }
  | n + 1 =>
    { resolve_expression := fun frame expr =>
        resolve_expression t (level n) thread_id frame expr
      resolve_relative := fun base expr => resolve_relative t (level n) thread_id base expr }

end Levels

end JavaDebug.Evaluations
