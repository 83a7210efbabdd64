import JavaDebug.Requests

/-!
The head of an expression, as a program of requests: an object handle, a name of
the frame, or a static member of a class, which is tried in every loaded copy of
it. Calls evaluate their arguments by the evaluations that they re-enter, one
after another, and send what comes of them.
-/
namespace JavaDebug.Heads

open Jdwp WireReader JavaValues Overloads
  MapWalks LazyReceivers Requests
open FrameNames (Variable Frame lookup slot_number first_value)
open ChainWalks (ReadPath answered_by_later_copy absent_everywhere)
open StackReads (decode_signature hex)

section Recursion

/-- The evaluations that one evaluation re-enters: an expression, with or without a frame, and a
chain from an element. -/
structure Deeper where
  resolve_expression : Option Frame → String → Try Value
  resolve_relative : Value → String → Try Value

end Recursion

section Arguments

variable (r : Deeper) (frame : Option Frame)

def arglit_to_value (a : ArgLit) : Try Value :=
  match a with
  | .int n => pure (value_int n)
  | .long n => pure (value_long n)
  | .float n => pure (value_float n)
  | .double n => pure (value_double n)
  | .char n => pure (value_char n)
  | .bool b => pure (value_bool b)
  | .null => pure value_null
  | .str s => do
    let id ← explain (fun e => "Failed to create string arg: " ++ e) (create_string s)
    return value_object id
  | .expr e => explain (fun err => "argument '" ++ e ++ "': " ++ err) (r.resolve_expression frame e)

def eval_args (arglits : List ArgLit) : Try (List Value) := arglits.mapM (arglit_to_value r frame)

variable (thread_id : Option ThreadId)

def invoke_segment_method (obj_id : UInt64) (type_id : ClassId) (seg : Seg) (arglits : List ArgLit)
    : Try Value :=
  match thread_id with
  | none =>
    throw ("Calling '." ++ seg.name ++ "()' needs a suspended thread, and " ++
      HOW_TO_SUSPEND_FOR_AN_INVOKE)
  | some tid => do
    let argvals ← eval_args r frame arglits
    let found ← consult fun d => find_method_for_args d.toTypes type_id seg.name argvals none
    match found with
    | none =>
      throw ("No method '" ++ seg.name ++ "' on the object accepts " ++ toString argvals.length ++
        " argument(s) of these types")
    | some (decl, m) =>
      send_call (.written seg) tid (some obj_id) decl m seg.name
        ("invoke " ++ seg.name ++ "() failed: ") argvals

/-- A member that this copy of the class does not have is an error within the result. -/
def read_static_field (type_id : ClassId) (dotted name : String) : Try (Except String Value) := do
  let found ← consult fun d => find_field_info d.toTypes type_id name (some true)
  match found with
  | none => return .error ("static field '" ++ name ++ "'")
  | some (_, f) =>
    let v ← consult fun d =>
      match d.get_reference_values type_id [f.field_id] with
      | .error e =>
        .error ("Failed to read static field '" ++ name ++ "' on '" ++ dotted ++ "': " ++ e)
      | .ok vals => first_value "No value returned for static field" vals
    return .ok v

def invoke_static_member (type_id : ClassId) (dotted : String) (member : Seg)
    (arglits : List ArgLit) : Try (Except String Value) :=
  match thread_id with
  | none =>
    throw ("Calling static '" ++ dotted ++ "." ++ member.name ++
      "()' needs a suspended thread, and " ++ HOW_TO_SUSPEND_FOR_AN_INVOKE)
  | some tid => do
    let argvals ← eval_args r frame arglits
    let found ← consult fun d => find_method_for_args d.toTypes type_id member.name argvals
      (some true)
    match found with
    | none =>
      return .error ("static method '" ++ member.name ++ "' accepting " ++
        toString argvals.length ++ " argument(s) of these types")
    | some (decl, m) =>
      let v ← send_call (.written member) tid none decl m member.name
        ("invoke static " ++ dotted ++ "." ++ member.name ++ "() failed: ") argvals
      return .ok v

end Arguments

section Heads

def vanished_handle_message (id : UInt64) (why : String) : String :=
  "Vanished: @0x" ++ hex id ++ " — " ++ why ++ ". A JDWP object id is a WEAK reference: a " ++
    "handle a snapshot retained works only while the debuggee still holds the object strongly, " ++
    "and on a pool that retires workers losing one is the ordinary case rather than the exotic " ++
    "one. This is not a wrong id and not a debugger fault, and nothing here pins objects to " ++
    "keep handles alive — pinning would make the debugger the reason a live heap could not be " ++
    "collected (ADR-0022). Take a fresh handle from a newer snapshot, or re-trace the site."

def TAG_OBJECT : UInt8 := 76

def TAG_ARRAY : UInt8 := 91

def TAG_STRING : UInt8 := 115

/-- The tag of an object by its own type. -/
def handle_tag (d : Sight) (id : UInt64) : UInt8 :=
  match d.get_object_reference_type id with
  | .error _ => TAG_OBJECT
  | .ok type_id =>
    if starts_with (d.signature type_id) '[' then TAG_ARRAY
    else if d.signature type_id = "Ljava/lang/String;" then TAG_STRING
    else TAG_OBJECT

def resolve_object_handle (id : UInt64) : Try Value :=
  if id = 0 then throw "@0x0 is null — there is no object behind it."
  else do
    let alive ← observe fun d => d.is_collected id
    match alive with
    | .ok true =>
      throw (vanished_handle_message id "the debuggee says it has been garbage collected")
    | .error e =>
      if e.code = some ERR_INVALID_OBJECT then
        throw (vanished_handle_message id ("the debuggee has no record of this id, which means " ++
          "it was collected long enough ago that the mapping went too — or that the handle was " ++
          "never one this JVM issued"))
      else throw ("Could not ask whether @0x" ++ hex id ++ " is still live: " ++ e.text)
    | .ok false =>
      let tag ← observe fun d => handle_tag d id
      return ⟨tag, .object id⟩

def this_read_failure (e : Failure) : String :=
  if e.code = some ERR_INVALID_FRAMEID then
    "Failed to get 'this': " ++ e.text ++ " — the JVM will not answer for this frame any more. " ++
      "A frame id dies when its thread is resumed, and an INVOCATION resumes it: rendering an " ++
      "object runs its toString(), so anything evaluated after that is asking about a frame " ++
      "that no longer exists. Read the object directly instead — every reply prints `this` as " ++
      "`@0x…` beside the frame's locals, and `@0x…<.field>` needs no frame."
  else "Failed to get 'this': " ++ e.text

def resolve_head (tid : ThreadId) (frame : Frame) (seg : Seg) : Try Value :=
  if seg.args.isSome then throw "Expression must start with a local variable or 'this'"
  else if seg.name = "this" then do
    let obj ← explain this_read_failure (get_this_object tid frame.frame_id)
    if obj = 0 then throw "No 'this' in this frame (static method)"
    else return value_object obj
  else do
    let vars ← consult fun d =>
      (d.get_variable_table frame.class_id frame.method_id).mapError fun e =>
        "Failed to read local variable table (compiled without -g?): " ++ e
    match lookup vars seg.name frame.index with
    | none => throw ("Unknown local variable '" ++ seg.name ++ "' in this frame")
    | some var =>
      match first_byte var.signature with
      | none => throw "Bad variable signature"
      | some sig_byte =>
        let vals ← explain (fun e => "Failed to read variable value: " ++ e)
          (get_frame_values tid frame.frame_id [(slot_number var.slot, sig_byte)])
        ExceptT.mk (pure (first_value "No value returned for variable" vals))

/-- An instance field of the frame's class, read off `this`. -/
def instance_member (tid : ThreadId) (frame : Frame) (name : String) : Ask (Option Value) := do
  let this_obj ← get_this_object tid frame.frame_id
  match this_obj with
  | .error _ => return none
  | .ok this_obj =>
    if this_obj = 0 then return none
    else
      let found ← peek fun d =>
        (find_field_info d.toTypes frame.class_id name (some false)).toOption
      match found with
      | some (some (_, f)) =>
        let vals ← get_object_values this_obj [f.field_id]
        return vals.toOption.bind fun vals => vals.head?
      | _ => return none

/-- A static of the frame's class or of a supertype. -/
def static_member (d : Sight) (frame : Frame) (name : String) : Option Value := do
  let found ← (find_field_info d.toTypes frame.class_id name (some true)).toOption
  let field ← found
  let vals ← (d.get_reference_values field.1 [field.2.field_id]).toOption
  vals.head?

def resolve_bare_member_of_frame (tid : ThreadId) (frame : Frame) (name : String) :
    Ask (Option Value) := do
  let v ← instance_member tid frame name
  match v with
  | some v => return some v
  | none => peek fun d => static_member d frame name

def bare_name_not_found (d : Sight) (frame : Frame) (name : String) : String :=
  let sig := ((d.get_signature frame.class_id).toOption.map decode_signature).getD ""
  let class_name := if sig = "" then "class@" ++ hex (UInt64.ofNat frame.class_id) else sig
  "'" ++ name ++ "' is not a local variable in this frame, and " ++ class_name ++
    " (nor any of its superclasses) declares a field by that name — so there is nothing for a " ++
    "bare '" ++ name ++ "' to mean here. If it belongs to another class, qualify it: `Klass." ++
    name ++ "` for a static, or `someLocal." ++ name ++ "` for a field of an object this frame " ++
    "can reach. debug.list_fields on " ++ class_name ++ " shows what it does have, and " ++
    "debug.get_stack with locals shows what this frame has."

variable (r : Deeper) (thread_id : Option ThreadId) (frame : Option Frame)

/-- The copies of a class from the `i`-th on; the first miss is what is reported. -/
def try_copies (dotted : String) (member : Seg) (copies : List ClassId) (path : ReadPath) :
    ℕ → List ClassId → Option String → Try (Value × ReadPath)
  | _, [], absent => do
    let labels ← observe fun d => describe_class_loaders d copies
    throw (absent_everywhere dotted copies (absent.getD ("member '" ++ member.name ++ "'")) labels)
  | i, type_id :: rest, absent => do
    let attempt ←
      match member.args with
      | some arglits => invoke_static_member r frame thread_id type_id dotted member arglits
      | none => read_static_field type_id dotted member.name
    match attempt with
    | .ok v =>
      if 0 < i then
        let labels ← observe fun d => describe_class_loaders d copies
        return (v, answered_by_later_copy path dotted member.name i labels)
      else return (v, path)
    | .error what => try_copies dotted member copies path (i + 1) rest (absent.or (some what))

variable (segs : List Seg)

def dotted_name : String := ".".intercalate (segs.map fun s => s.name)

/-- The class prefixes of at most `k` segments, longest first. -/
def static_walk (segs : List Seg) (path : ReadPath) : ℕ → Try ((Value × ℕ) × ReadPath)
  | 0 => throw "no loaded class matches the leading segment(s)"
  | k + 1 =>
    match segs[k + 1]? with
    | none => static_walk segs path k
    | some member =>
      let class_segs := segs.take (k + 1)
      if class_segs.any fun s => s.args.isSome then static_walk segs path k
      else do
        let dotted := dotted_name class_segs
        let copies ← consult fun d => resolve_class_copies_by_dotted d dotted
        if copies = [] then static_walk segs path k
        else do
          let found ← try_copies r thread_id frame dotted member copies path 0 copies none
          return ((found.1, k + 2), found.2)

def resolve_static_head (path : ReadPath) : Try ((Value × ℕ) × ReadPath) :=
  if segs.length < 2 then throw "a static access needs at least Class.field or Class.method()"
  else static_walk r thread_id frame segs path (segs.length - 1)

/-- What is tried after the locals: a member of the frame's class, then a static one. -/
def resolve_other_head (head_seg : Seg) (head_err : Option String) (path : ReadPath) :
    Try ((Value × ℕ) × ReadPath) := do
  let member ←
    match thread_id, frame with
    | some tid, some fr =>
      if head_seg.args.isNone then liftM (resolve_bare_member_of_frame tid fr head_seg.name)
      else pure none
    | _, _ => pure none
  match member with
  | some v => return ((v, 1), path)
  | none =>
    let found ← liftM (resolve_static_head r thread_id frame segs path).run
    match found with
    | .ok found => return found
    | .error static_err =>
      let e ← observe fun d => head_error (fun fr => bare_name_not_found d fr head_seg.name) frame
        segs head_seg head_err static_err
      throw e

/-- The head's value and the number of segments it takes. -/
def resolve_any_head (head_seg : Seg) (path : ReadPath) : Try ((Value × ℕ) × ReadPath) :=
  match parse_object_handle head_seg.name with
  | some id => do
    let v ← resolve_object_handle id
    return ((v, 1), path)
  | none =>
    match thread_id, frame with
    | some tid, some fr => do
      let head ← liftM (resolve_head tid fr head_seg).run
      match head with
      | .ok v => return ((v, 1), path)
      | .error e => resolve_other_head r thread_id frame segs head_seg (some e) path
    | _, _ => resolve_other_head r thread_id frame segs head_seg none path

end Heads

end JavaDebug.Heads
