import JavaDebug.DeepNodes
import JavaDebug.SetTexts

/-!
`debug.run_named_query` as a program of requests. The parameters are planned
before the debuggee is touched; then the entity manager is found, the query
created, its parameters bound, its flush mode and its cap set, and the query run.
Each row of the result is projected without an invocation.
-/
namespace JavaDebug.NamedQueries

open Jdwp WireReader JavaValues MapWalks
  Overloads Requests Heads Evaluations DeepNodes
open DeepRenders (i32_or_max)
open FrameNames (Frame Variable in_range slot_number)
open Addressing (trim parse_thread_id)
open Expressions (parse_i32)
open StackReads (decode_signature hex)

abbrev Json := SetTexts.Value

section Arguments

/-- A map is kept in the order of its keys. -/
structure RunNamedQueryArgs where
  query_name : String
  parameters : Option (List (String × Json))
  positional_parameters : Option (List Json)
  parameter_expressions : Option (List (String × String))
  entity_manager : Option String
  max_rows : ℕ
  max_fetch : Option ℕ
  max_result_length : ℕ
  allow_flush : Bool
  thread_id : Option String
  frame_index : ℕ

/-- How a query parameter is keyed; positions are numbered from 1. -/
inductive ParamKey
  | named (name : String)
  | position (p : Int32)
  deriving DecidableEq

def ParamKey.label : ParamKey → String
  | .named name => name
  | .position p => "?" ++ toString p

inductive ParamSource
  | json (value : Json)
  | expression (expr : String)

structure QueryParam where
  key : ParamKey
  source : ParamSource

variable (key : ParamKey)

def not_scalar (kind : String) : String :=
  "Parameter '" ++ key.label ++ "' is a JSON " ++ kind ++ ", and only scalars map to a Java " ++
    "value here (null, a string, a boolean, a number). A collection parameter — JPQL's `IN " ++
    "(:names)` — needs a Java collection built in the debuggee, which this tool does not do: " ++
    "reach one with parameter_expressions instead, naming a List that already exists in the frame."

def reject_non_scalar (value : Json) : Except String Unit :=
  match value with
  | .array _ => .error (not_scalar key "array")
  | .object _ => .error (not_scalar key "object")
  | _ => .ok ()

def scalar_param (value : Json) : Except String QueryParam := do
  reject_non_scalar key value
  return ⟨key, .json value⟩

def named_params : List (String × Json) → Except String (List QueryParam)
  | [] => return []
  | (name, value) :: rest => do
    let p ← scalar_param (.named name) value
    let more ← named_params rest
    return p :: more

/-- The values from the `i`-th on, counted from 0. -/
def positional_params (i : ℕ) : List Json → Except String (List QueryParam)
  | [] => return []
  | value :: rest => do
    let p ← scalar_param (.position (i32_or_max (i + 1))) value
    let more ← positional_params (i + 1) rest
    return p :: more

/-- A key of digits is a position. -/
def param_key (key : String) : Except String ParamKey :=
  match parse_i32 key.toList with
  | some p =>
    if 1 ≤ p then .ok (.position p)
    else .error ("parameter_expressions key '" ++ toString p ++ "' is not a valid position — " ++
      "JPQL positions are 1-based, so the first parameter is 1 and there is no 0 or negative one.")
  | none => .ok (.named key)

def given_twice : String :=
  "Parameter '" ++ key.label ++ "' was given twice — once as a value and once in " ++
    "parameter_expressions. Nothing was sent, because silently letting one win is how a query " ++
    "returns a confident answer to a question you did not ask."

def empty_expression : String :=
  "parameter_expressions['" ++ key.label ++ "'] is empty — give an expression (`this.codigo`, " ++
    "`@0x1f4c`, `42L`, `Status.CONFIRMADA`) or drop the entry."

def add_expressions (plan : List QueryParam) :
    List (String × String) → Except String (List QueryParam)
  | [] => return plan
  | (key, expr) :: rest => do
    let parsed ← param_key key
    if plan.any fun p => p.key = parsed then throw (given_twice parsed)
    else if trim expr.toList = [] then throw (empty_expression parsed)
    else add_expressions (plan ++ [⟨parsed, .expression expr⟩]) rest

def both_forms : String :=
  "Give `parameters` (named) or `positional_parameters` (ordered), not both — a JPQL query uses " ++
    "one form or the other, and binding a name to a query that declares positions fails in the " ++
    "provider with a message about neither. Nothing was sent."

/-- The bindings in order; an ambiguity is refused. -/
def plan_query_parameters (a : RunNamedQueryArgs) : Except String (List QueryParam) := do
  if a.parameters.isSome ∧ a.positional_parameters.isSome then throw both_forms
  else
    let named ← named_params (a.parameters.getD [])
    let ordered ← positional_params 0 (a.positional_parameters.getD [])
    add_expressions (named ++ ordered) (a.parameter_expressions.getD [])

end Arguments

section Finding

variable (t : Printing) (n : ℕ) (tid : ThreadId)

structure FoundEm where
  obj_id : UInt64
  type_id : ClassId
  type_name : String
  api : Option String
  how : String

def JPA_ENTITY_MANAGER : List (String × String) :=
  [("jakarta.persistence", "Ljakarta/persistence/EntityManager;"),
    ("javax.persistence", "Ljavax/persistence/EntityManager;")]

def jpa_api_of (type_id : ClassId) : Ask (Option String) :=
  peek fun d => (JPA_ENTITY_MANAGER.find? fun api =>
    implements_interface d.toTypes type_id api.2).map Prod.fst

def NO_HEAP_ROUTE_TO_AN_ENTITY_MANAGER : String :=
  "No EntityManager was found in this frame, and there is no heap route to one. JDWP's " ++
    "ReferenceType.Instances answers about an object's EXACT runtime class, so asking it for " ++
    "jakarta.persistence.EntityManager returns 0 however many beans are alive (measured), and " ++
    "JDWP has no command for \"which classes implement this interface\". Two ways forward, both " ++
    "one call: pass entity_manager with an expression that reaches the bean from this frame (a " ++
    "local, this.em, a static field), or run debug.list_instances on the CONCRETE " ++
    "implementation class — org.hibernate.internal.SessionImpl, a container wrapper like " ++
    "org.jboss.as.jpa.container.TransactionScopedEntityManager, or whatever debug.list_classes " ++
    "shows for your provider — and pass the @0x… handle it prints as entity_manager."

/-- The first of the named values that is an entity manager. -/
def first_em (how : String → String) : List (String × Value) → Ask (Option FoundEm)
  | [] => return none
  | (name, v) :: rest =>
    match as_object_id v with
    | none => first_em how rest
    | some obj_id => do
      let type_id ← peek fun d => (d.get_object_reference_type obj_id).toOption
      match type_id with
      | none => first_em how rest
      | some type_id =>
        let api ← jpa_api_of type_id
        match api with
        | none => first_em how rest
        | some api =>
          let type_name ← peek fun d => decode_signature (d.signature type_id)
          return some ⟨obj_id, type_id, type_name, some api, how name⟩

/-- Among the instance fields that the object's own class declares. -/
def em_in_object_fields (this_id : UInt64) (frame_index : ℕ) : Ask (Option FoundEm) := do
  let fields ← peek fun d =>
    ((d.get_object_reference_type this_id).toOption.bind fun this_type =>
      (d.get_fields this_type).toOption).getD []
  let wanted := fields.filter fun f => !is_static f.mod_bits && starts_with f.signature 'L'
  if wanted = [] then return none
  else
    let values ← get_object_values this_id (wanted.map FieldInfo.field_id)
    match values with
    | .error _ => return none
    | .ok values =>
      first_em
        (fun name => "found in frame " ++ toString frame_index ++ " as `this." ++ name ++ "`")
        ((wanted.map FieldInfo.name).zip values)

/-- Among the variables of the frame that are in scope. -/
def em_in_locals (frame : Frame) (frame_index : ℕ) : Ask (Option FoundEm) := do
  let vars ← peek fun d => (d.get_variable_table frame.class_id frame.method_id).toOption.getD []
  let in_scope := vars.filter fun v => in_range v frame.index && starts_with v.signature 'L'
  if in_scope = [] then return none
  else
    let slots := in_scope.map fun v => (slot_number v.slot, (first_byte v.signature).getD 76)
    let values ← get_frame_values tid frame.frame_id slots
    match values with
    | .error _ => return none
    | .ok values =>
      first_em
        (fun name => "found in frame " ++ toString frame_index ++ " as local `" ++ name ++ "`")
        ((in_scope.map Variable.name).zip values)

def em_in_frame (frame : Frame) (frame_index : ℕ) : Ask (Option FoundEm) := do
  let this_id ← get_this_object tid frame.frame_id
  let of_this ←
    match this_id with
    | .ok this_id =>
      if this_id = 0 then pure none else em_in_object_fields this_id frame_index
    | .error _ => pure none
  match of_this with
  | some found => return some found
  | none => em_in_locals tid frame frame_index

variable (frame : Option Frame)

def resolve (expr : String) : Try Value :=
  resolve_expression t (level t (some tid) n) (some tid) frame expr

def em_given (expr : String) : Try FoundEm := do
  let value ← explain (fun e => "entity_manager '" ++ expr ++ "' did not resolve: " ++ e)
    (resolve t n tid frame expr).run
  match as_object_id value with
  | none =>
    throw ("entity_manager '" ++ expr ++ "' resolved to null or to a primitive, so there is no " ++
      "bean to run a query on.")
  | some obj_id =>
    let type_id ← consult fun d => (d.get_object_reference_type obj_id).mapError fun e =>
      "Failed to read the type of entity_manager '" ++ expr ++ "': " ++ e
    let type_name ← observe fun d => decode_signature (d.signature type_id)
    let api ← liftM (jpa_api_of type_id)
    return ⟨obj_id, type_id, type_name, api, "given as `" ++ expr ++ "`"⟩

def find_entity_manager (frame_index : ℕ) (given : Option String) : Try FoundEm :=
  match given, frame with
  | some expr, _ => em_given t n tid frame expr
  | none, none => throw NO_HEAP_ROUTE_TO_AN_ENTITY_MANAGER
  | none, some fr => do
    let found ← liftM (em_in_frame tid fr frame_index)
    match found with
    | some em => return em
    | none => throw NO_HEAP_ROUTE_TO_AN_ENTITY_MANAGER

end Finding

section Invoking

/-- A method of the object, the overload resolved against the arguments. -/
def invoke_named (tid : ThreadId) (obj_id : UInt64) (type_id : ClassId) (name : String)
    (args : List Value) : Try Value := do
  let found ← consult fun d => find_method_for_args d.toTypes type_id name args (some false)
  match found with
  | none =>
    throw ("No method '" ++ name ++ "' on the object accepts " ++ toString args.length ++
      " argument(s)")
  | some (decl, m) =>
    send_call (.querying name) tid (some obj_id) decl m name ("invoke " ++ name ++ "() failed: ")
      args

end Invoking

section Opening

/-- What `serde_json` does: a number read as a double, and a value printed. -/
structure Numbers where
  as_f64 : SetTexts.Number → Option UInt64
  display : Json → String

variable (t : Printing) (numbers : Numbers) (n : ℕ) (tid : ThreadId) (frame : Option Frame)

def as_i64 : SetTexts.Number → Option Int64
  | .pos_int k => if k < 2 ^ 63 then some (Int64.ofNat k) else none
  | .neg_int k => some (Int64.ofInt k)
  | .float _ => none

/-- A scalar and the Java type that it is bound as. -/
def json_param_to_value (value : Json) : Try (Value × String) :=
  match value with
  | .null => return (value_null, "null")
  | .bool b => return (value_bool b, "Boolean")
  | .string s => do
    let id ← explain (fun e => "Failed to create the String for a parameter: " ++ e)
      (create_string s)
    return (value_object id, "String")
  | .number k =>
    match as_i64 k with
    | some i => return (value_long i, "Long")
    | none =>
      match numbers.as_f64 k with
      | some bits => return (value_double bits, "Double")
      | none =>
        throw ("Parameter value " ++ numbers.display value ++
          " is a number this server cannot represent")
  | other => throw ("Unsupported parameter value: " ++ numbers.display other)

def param_value (p : QueryParam) : Try (Value × String) :=
  match p.source with
  | .json v => json_param_to_value numbers v
  | .expression expr => do
    let v ← explain (fun e => "parameter '" ++ p.key.label ++ "' — expression '" ++ expr ++
      "' did not resolve: " ++ e) (resolve t n tid frame expr).run
    return (v, "expression")

def key_value (key : ParamKey) : Try Value :=
  match key with
  | .named name => do
    let id ← explain (fun e => "Failed to create the String for parameter '" ++ name ++ "': " ++ e)
      (create_string name)
    return value_object id
  | .position p => pure (value_int p)

/-- The `Query` that a setter came back with; its type is read again if it is another one. -/
def followed (q_obj : UInt64) (q_type : ClassId) (ret : Value) : Try (UInt64 × ClassId) :=
  match as_object_id ret with
  | none => pure (q_obj, q_type)
  | some next =>
    if next = q_obj then pure (q_obj, q_type)
    else do
      let type_id ← consult fun d => (d.get_object_reference_type next).mapError fun e =>
        "Failed to read the type of the rebound Query: " ++ e
      return (next, type_id)

def binding_failed (key : ParamKey) (e : String) : String :=
  "Binding parameter '" ++ key.label ++ "' failed: " ++ e ++ ". A provider rejects a parameter " ++
    "the query does not declare, so check the name against the query rather than the entity."

/-- One parameter bound; the `Query` to go on with, and how the binding is told. -/
def bind_parameter (p : QueryParam) (q_obj : UInt64) (q_type : ClassId) :
    Try ((UInt64 × ClassId) × String) := do
  let value ← param_value t numbers n tid frame p
  let rendered ← liftM (render_value t value.1 none 80 .default)
  let key_arg ← key_value p.key
  let ret ← explain (binding_failed p.key)
    (invoke_named tid q_obj q_type "setParameter" [key_arg, value.1]).run
  let next ← followed q_obj q_type ret
  return (next, p.key.label ++ " = " ++ rendered ++ " (" ++ value.2 ++ ")")

def bind_parameters : List QueryParam → UInt64 × ClassId → Try ((UInt64 × ClassId) × List String)
  | [], q => return (q, [])
  | p :: rest, q => do
    let one ← bind_parameter t numbers n tid frame p q.1 q.2
    let more ← bind_parameters rest one.1
    return (more.1, one.2 :: more.2)

def explain_named_query_lookup (query_name err : String) : String :=
  if "IllegalArgumentException".toList <:+: err.toList then
    "No named query '" ++ query_name ++ "': the provider rejected the name with " ++
      "IllegalArgumentException, which is what JPA specifies for a query it has never heard of. " ++
      "Nothing was run and nothing was written.\nThe known names CANNOT be listed — " ++
      "EntityManager has no method that enumerates them, so this is the whole of what the JVM " ++
      "will say. Check the spelling against where they are declared: a `@NamedQuery(name = " ++
      "\"…\")` on the entity, a `<named-query>` in orm.xml, or an `@NamedQueries` block. The " ++
      "name usually carries the entity as a prefix ('Reserva.findByCodigo'), and that prefix is " ++
      "part of it."
  else "createNamedQuery(\"" ++ query_name ++ "\") failed: " ++ err

def create_named_query (em : FoundEm) (query_name : String) : Try (UInt64 × ClassId) := do
  let name_id ← explain (fun e => "Failed to create the String for the query name: " ++ e)
    (create_string query_name)
  let query ← explain (explain_named_query_lookup query_name)
    (invoke_named tid em.obj_id em.type_id "createNamedQuery" [value_object name_id]).run
  match as_object_id query with
  | none =>
    throw ("createNamedQuery(\"" ++ query_name ++ "\") returned null, which no JPA provider " ++
      "should do — the spec says it throws IllegalArgumentException for an unknown name. " ++
      "Nothing was run.")
  | some q_obj =>
    let q_type ← consult fun d => (d.get_object_reference_type q_obj).mapError fun e =>
      "Failed to read the type of the Query object: " ++ e
    return (q_obj, q_type)

def open_named_query (em : FoundEm) (query_name : String) (plan : List QueryParam) :
    Try ((UInt64 × ClassId) × List String) := do
  let q ← create_named_query tid em query_name
  bind_parameters t numbers n tid frame plan q

end Opening

section Flushing

variable (t : Printing) (n : ℕ) (tid : ThreadId) (frame : Option Frame)

def NO_API : String :=
  "Cannot suppress the flush: the object given as entity_manager implements neither " ++
    "jakarta.persistence.EntityManager nor javax.persistence.EntityManager, so there is no " ++
    "FlushModeType to name. Under JPA's default (AUTO) running the query would push pending " ++
    "changes to the DATABASE — a write performed by asking a question, which on a shared " ++
    "instance is somebody else's uncommitted work. Pass an object that implements one of those " ++
    "interfaces, or set allow_flush:true to accept the write. Nothing was run."

def FLUSH_SUPPRESSED : String :=
  "🔒 flush suppressed — FlushModeType.COMMIT set on THIS query only, so nothing was written. " ++
    "The trade: the rows below do NOT reflect uncommitted changes in this persistence context, " ++
    "so something saved and not committed will not be found. Pass allow_flush:true when that is " ++
    "the question."

def flush_mode_unread (api expr e : String) : String :=
  "Cannot suppress the flush: reading " ++ expr ++ " failed (" ++ e ++ "). Under JPA's default " ++
    "(AUTO) the query would flush pending changes to the database before answering. Set " ++
    "allow_flush:true to accept that, or run this where " ++ api ++ ".FlushModeType is loaded. " ++
    "Nothing was run."

def flush_mode_unset (expr e : String) : String :=
  "Cannot suppress the flush: setFlushMode(" ++ expr ++ ") failed (" ++ e ++ "). Set " ++
    "allow_flush:true to accept the write, or use a provider Query that implements it. Nothing " ++
    "was run."

/-- What `setFlushMode` comes back with is dropped. -/
def suppress_query_flush (q : UInt64 × ClassId) (api : Option String) (allow_flush : Bool) :
    Try (Option String) :=
  if allow_flush then return none
  else
    match api with
    | none => throw NO_API
    | some api => do
      let expr := api ++ ".FlushModeType.COMMIT"
      let mode ← explain (flush_mode_unread api expr) (resolve t n tid frame expr).run
      let _ ← explain (flush_mode_unset expr)
        (invoke_named tid q.1 q.2 "setFlushMode" [mode]).run
      return some FLUSH_SUPPRESSED

def cap_rows (q : UInt64 × ClassId) (max_fetch : Option ℕ) : Try Unit :=
  match max_fetch with
  | none => return ()
  | some cap => do
    let k := i32_or_max cap
    let _ ← explain (fun e => "max_fetch was given but setMaxResults(" ++ toString k ++
      ") failed: " ++ e ++ ". Drop max_fetch to run the query as written. Nothing was run.")
      (invoke_named tid q.1 q.2 "setMaxResults" [value_int k]).run
    return ()

end Flushing

section Rows

variable (t : Printing)

def QUERY_ROW_FIELD_CAP : ℕ := 12

def ACC_SYNTHETIC : ℕ := 0x1000

/-- The fields of at most `n` classes from `tid` up, after those of the classes below. -/
def row_fields_from : ℕ → ClassId → List FieldInfo → Ask (List FieldInfo)
  | 0, _, fields => return fields
  | n + 1, tid, fields => do
    let declared ← peek fun d => (d.get_fields tid).toOption.getD []
    let fresh := declared.filter fun f =>
      f.mod_bits &&& (ACC_STATIC ||| ACC_SYNTHETIC) = 0 ∧ f.name ∉ fields.map FieldInfo.name
    let fields := fields ++ fresh
    if QUERY_ROW_FIELD_CAP < fields.length then return fields
    else
      let above ← peek fun d => superclass_of d.toTypes tid
      match above with
      | some above => row_fields_from n above fields
      | none => return fields

def project_query_row_fields (type_id : ClassId) : Ask (List FieldInfo) :=
  row_fields_from 20 type_id []

structure RowShape where
  short : String
  fields : List FieldInfo

/-- A row of the result; of an object, its id and what is shown of its class. -/
structure ProjectedRow where
  value : Value
  object : Option (UInt64 × Option RowShape)

def short_name (type_name : String) : String :=
  String.ofList ((type_name.toList.reverse.takeWhile (· ≠ '.')).reverse)

def row_shapes : List ClassId → Ask (List (ClassId × RowShape))
  | [] => return []
  | type_id :: rest => do
    let type_name ← peek fun d => decode_signature (d.signature type_id)
    let fields ← project_query_row_fields type_id
    let more ← row_shapes rest
    return (type_id, ⟨short_name type_name, fields⟩) :: more

def ProjectedRow.read (d : Sight) (row : ProjectedRow) : Option (Except String (List Value)) :=
  match row.object with
  | some (id, some shape) =>
    if shape.fields = [] then none
    else some (d.get_object_values id
      ((shape.fields.take QUERY_ROW_FIELD_CAP).map FieldInfo.field_id))
  | _ => none

/-- The values of a row that will be rendered. -/
def committed_values (read : Option (Except String (List Value))) : List Value :=
  match read with
  | some (.ok values) => values.take QUERY_ROW_FIELD_CAP
  | _ => []

/-- The `value` fields of the committed boxes whose types are known. -/
def commit_boxed_values (reads : ValueReads) (committed : List Value) : Ask ValueReads := do
  let ids := (committed.filter fun v => v.tag ≠ 91).filterMap as_object_id
  let boxed ← peek fun d id => do
    let type_id ← (reads.types id).join
    let field_id ← boxed_value_field d type_id (decode_signature (d.signature type_id))
    if id ∈ ids then some ((d.get_object_values id [field_id]).toOption.bind List.head?) else none
  return { reads with boxed := fun id => (boxed id).or (reads.boxed id) }

def render_row_fields (reads : ValueReads) (max_len : ℕ) :
    List (FieldInfo × Value) → Ask (List String)
  | [] => return []
  | (f, v) :: rest => do
    let rendered ← render_value_committed t reads v none max_len .default
    let more ← render_row_fields reads max_len rest
    return (" " ++ f.name ++ "=" ++ rendered) :: more

def render_query_row (reads : ValueReads) (row : ProjectedRow)
    (read : Option (Except String (List Value))) (max_len : ℕ) : Ask String :=
  match row.object with
  | none => render_value t row.value none max_len .default
  | some (id, none) => return "@0x" ++ hex id ++ " <type unreadable>"
  | some (id, some shape) =>
    let header := shape.short ++ " @0x" ++ hex id
    if shape.fields = [] then return header ++ " \x7b\x7d"
    else
      match read with
      | some (.ok values) => do
        let shown := min shape.fields.length QUERY_ROW_FIELD_CAP
        let texts ← render_row_fields t reads max_len ((shape.fields.take shown).zip values)
        return header ++ " \x7b" ++ ",".intercalate texts ++
          (if shown < shape.fields.length then
            ", … +" ++ toString (shape.fields.length - shown) ++ " more field(s)"
          else "") ++ " \x7d"
      | _ => return header ++ " <fields unreadable>"

def render_query_rows (reads : ValueReads) (max_len : ℕ) :
    List (ProjectedRow × Option (Except String (List Value))) → Ask (List String)
  | [] => return []
  | (row, got) :: rest => do
    let line ← render_query_row t reads row got max_len
    let more ← render_query_rows reads max_len rest
    return line :: more

/-- The rows in waves: their types, their fields, and what their values are rendered from. -/
def project_query_rows (rows : List Value) (max_len : ℕ) : Ask (List String) := do
  let typed ← peek fun d => rows.map fun v =>
    (v, (as_object_id v).map fun id => (id, (d.get_object_reference_type id).toOption))
  let types := (typed.filterMap fun row => row.2.bind Prod.snd).eraseDups
  let shapes ← row_shapes types
  let planned := typed.map fun row =>
    ProjectedRow.mk row.1 (row.2.map fun o => (o.1, o.2.bind fun type_id => shapes.lookup type_id))
  let rows ← peek fun d => planned.map fun row => (row, row.read d)
  let committed := rows.flatMap fun row => committed_values row.2
  let reads ← extend_committed .none committed
  let reads ← commit_boxed_values reads committed
  render_query_rows t reads max_len rows

end Rows

section Running

variable (t : Printing) (numbers : Numbers) (n : ℕ)

structure QueryRun where
  total : Int32
  projected : List String
  query_text : Option String

def result_rows (arr : UInt64) (total take : Int32) (d : Sight) : Except String (List Value) :=
  if max 0 (min total take) = 0 then .ok []
  else (d.get_array_values arr 0 (max 0 (min total take))).mapError fun e =>
    "Failed to read the result rows: " ++ e

variable (tid : ThreadId)

variable (q : UInt64 × ClassId)

/-- `getQueryString()`, where the `Query` has it. -/
def read_query_text (max_len : ℕ) :
    Ask (Option String) := do
  let text ← invoke_no_arg (.querying "getQueryString") q.1 q.2 tid "getQueryString"
  match text.filter fun v => (as_object_id v).isSome with
  | none => return none
  | some v =>
    let rendered ← render_value t v none max_len .default
    return some rendered

/-- What is read of the list that the query returned. -/
def project_result (a : RunNamedQueryArgs) (list : Value) : Try QueryRun :=
  match as_object_id list with
  | none => throw "getResultList() returned null rather than a List."
  | some list_id => do
    let list_type ← consult fun d => (d.get_object_reference_type list_id).mapError fun e =>
      "Failed to read the type of the result List: " ++ e
    let arr ← invoke_named tid list_id list_type "toArray" []
    match as_object_id arr with
    | none => throw "toArray() on the result List returned nothing usable."
    | some arr =>
      let total ← consult fun d => (d.get_array_length arr).mapError fun e =>
        "Failed to read the size of the result: " ++ e
      let rows ← consult (result_rows arr total (i32_or_max a.max_rows))
      let query_text ← liftM (read_query_text t tid q a.max_result_length)
      let projected ← liftM (project_query_rows t rows a.max_result_length)
      return ⟨total, projected, query_text⟩

def run_and_project (a : RunNamedQueryArgs) :
    Try QueryRun := do
  let list ← invoke_named tid q.1 q.2 "getResultList" []
  project_result t tid q a list

structure Session where
  read_only : Bool
  last_thread : Option ThreadId

structure NamedQueryReply where
  query_name : String
  em : FoundEm
  bound : List String
  flush_note : Option String
  run : QueryRun

def READ_ONLY : String :=
  "🔒 read-only: running a named query INVOKES methods in the debuggee — createNamedQuery, " ++
    "setParameter, getResultList — and this session refuses invocation (SAFE-6). That is the " ++
    "correct answer rather than an obstacle: the query would also reach the DATABASE, which no " ++
    "guard here can undo. Nothing was sent."

/-- What is refused before the debuggee is touched; else the name, the plan and the thread. -/
def check_query (session : Session) (a : RunNamedQueryArgs) :
    Except String (String × List QueryParam × ThreadId) := do
  let query_name := String.ofList (trim a.query_name.toList)
  if query_name = "" then
    throw ("query_name is required — the `@NamedQuery` name exactly as declared, e.g. " ++
      "'Reserva.findByCodigoAndStatus'. Nothing was sent.")
  else if a.max_fetch = some 0 then
    throw ("max_fetch:0 asks the provider for no rows at all (setMaxResults(0)), which reports " ++
      "0 and proves nothing about the query. Leave it unset for the TRUE count, or use max_rows " ++
      "to bound what is rendered. Nothing was sent.")
  else
    let plan ← plan_query_parameters a
    if session.read_only then throw READ_ONLY
    else
      match (parse_thread_id a.thread_id).or session.last_thread with
      | none =>
        throw ("Running a named query needs a suspended thread, and " ++
          HOW_TO_SUSPEND_FOR_AN_INVOKE)
      | some tid => return (query_name, plan, tid)

/-- The frame that is asked for, or the top one. -/
def query_frame (frame_index : ℕ) : Ask (Option Frame) := do
  let frames ← get_frames tid 0 (-1)
  match frames with
  | .ok frames => return frames[frame_index]?.or frames.head?
  | .error _ => return none

def run_query (frame : Option Frame) (em : FoundEm) (query_name : String) (plan : List QueryParam)
    (a : RunNamedQueryArgs) : Try NamedQueryReply := do
  let opened ← open_named_query t numbers n tid frame em query_name plan
  let flush_note ← suppress_query_flush t n tid frame opened.1 em.api a.allow_flush
  cap_rows tid opened.1 a.max_fetch
  let run ← run_and_project t tid opened.1 a
  return ⟨query_name, em, opened.2, flush_note, run⟩

def handle_run_named_query (session : Session) (a : RunNamedQueryArgs) : Try NamedQueryReply := do
  let checked ← ExceptT.mk (pure (check_query session a))
  let tid := checked.2.2
  let frame ← liftM (query_frame tid a.frame_index)
  let em ← find_entity_manager t n tid frame a.frame_index a.entity_manager
  run_query t numbers n tid frame em checked.1 checked.2.1 a

end Running

end JavaDebug.NamedQueries
