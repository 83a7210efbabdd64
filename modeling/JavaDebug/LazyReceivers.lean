import JavaDebug.Addressing
import JavaDebug.MapWalks
import JavaDebug.NamePatterns
import JavaDebug.Overloads

/-!
Lazy associations of Hibernate: whether an object is one that nobody has
fetched, read from its class, its interfaces and one flag, and what becomes of
a member that is asked of it. `resolve_member` is where a link of an expression
is resolved against its receiver, and where the check stands.
-/
namespace JavaDebug.LazyReceivers

open Jdwp WireReader JavaValues Overloads
  MapWalks
open NamePatterns (contains)

inductive LazyShape
  | entityProxy
  | collection
  deriving DecidableEq

/-- What resolving through a value would do to a lazy association. -/
inductive LazyState
  | loaded
  | unfetched (shape : LazyShape)
  | unknown (why : String)
  deriving DecidableEq

inductive LazyPolicy
  | report
  | initializing
  deriving DecidableEq

def HIBERNATE_PROXY_IFACE : String := "Lorg/hibernate/proxy/HibernateProxy;"

def HIBERNATE_COLLECTION_IFACES : List String :=
  ["Lorg/hibernate/collection/spi/PersistentCollection;",
    "Lorg/hibernate/collection/PersistentCollection;"]

def LAZY_INITIALIZER_FIELDS : List String := ["$$_hibernate_interceptor", "handler"]

def INITIALIZED_FIELD : String := "initialized"

section States

/-- The debuggee, how its types and values are printed, and what a method call comes to. -/
structure Debuggee extends Heap where
  decode_signature : String → String
  debug_data : Option ValueData → String
  invoke_segment_method : UInt64 → ClassId → Seg → List ArgLit → Except String Value

variable (d : Debuggee)

def hibernate_candidate (sig : String) : Option LazyShape :=
  if contains sig "$HibernateProxy$" || contains sig "_$$_javassist" then some .entityProxy
  else if "Lorg/hibernate/collection/".toList.isPrefixOf sig.toList then some .collection
  else none

variable (obj_id : UInt64)

/-- One field of an object, an absent or unreadable one being none. -/
def read_object_field (type_id : ClassId) (name : String) : Option UInt64 :=
  match find_field d.toHeap type_id name with
  | .ok (some fid) =>
    match d.get_object_values obj_id [fid] with
    | .ok vals =>
      match vals.head?.map Value.data with
      | some (.object id) => if id ≠ 0 then some id else none
      | _ => none
    | .error _ => none
  | _ => none

def read_lazy_initializer (type_id : ClassId) : Option UInt64 :=
  LAZY_INITIALIZER_FIELDS.findSome? (read_object_field d obj_id type_id)

def read_initialized_flag : Except String Bool :=
  match d.get_object_reference_type obj_id with
  | .error e => .error ("its lazy initialiser's own type could not be read (" ++ e ++ ")")
  | .ok type_id =>
    match find_field d.toHeap type_id INITIALIZED_FIELD with
    | .error e =>
      .error ("looking for its `" ++ INITIALIZED_FIELD ++ "` field failed (" ++ e ++ ")")
    | .ok none =>
      .error ("it has no `" ++ INITIALIZED_FIELD ++ "` field, so this is not a layout this " ++
        "recognises")
    | .ok (some fid) =>
      match d.get_object_values obj_id [fid] with
      | .error e => .error ("reading its `" ++ INITIALIZED_FIELD ++ "` field failed (" ++ e ++ ")")
      | .ok vals =>
        match vals.head?.map Value.data with
        | some (.boolean b) => .ok b
        | other =>
          .error ("its `" ++ INITIALIZED_FIELD ++ "` field is " ++ d.debug_data other ++
            ", not a boolean")

def state_of_flag (shape : LazyShape) (flag : Except String Bool) : LazyState :=
  match flag with
  | .ok true => .loaded
  | .ok false => .unfetched shape
  | .error why => .unknown why

def hibernate_lazy_state (type_id : ClassId) : LazyState :=
  match hibernate_candidate ((d.get_signature type_id).toOption.getD "") with
  | none => .loaded
  | some .entityProxy =>
    if implements_interface d.toTypes type_id HIBERNATE_PROXY_IFACE then
      match read_lazy_initializer d obj_id type_id with
      | none =>
        .unknown ("it implements " ++ d.decode_signature HIBERNATE_PROXY_IFACE ++
          " but has neither of the fields that hold a lazy initialiser (" ++
          " or ".intercalate LAZY_INITIALIZER_FIELDS ++ "), so whether the row has been fetched " ++
          "cannot be read without invoking something")
      | some init_id => state_of_flag .entityProxy (read_initialized_flag d init_id)
    else .loaded
  | some .collection =>
    if HIBERNATE_COLLECTION_IFACES.any (implements_interface d.toTypes type_id) then
      state_of_flag .collection (read_initialized_flag d obj_id)
    else .loaded

end States

section Reports

variable (shape : LazyShape)

def lazy_link_note : String :=
  match shape with
  | .entityProxy => "a row nobody has fetched — neither null nor a value"
  | .collection => "contents not fetched — neither empty nor populated"

def lazy_link_kind : String :=
  match shape with
  | .entityProxy => "Hibernate proxy"
  | .collection => "Hibernate collection"

def lazy_link_summary (class_name : String) : String :=
  "⏳ UNFETCHED " ++ lazy_link_kind shape ++ " (" ++ class_name ++ ") — " ++ lazy_link_note shape

def lazy_link_report (class_name member : String) : String :=
  let what_it_would_do :=
    match shape with
    | .entityProxy =>
      "Resolving it would issue SELECTs into whatever persistence context this thread is in — " ++
        "on a shared instance that is someone ELSE's in-flight request, whose entity graph you " ++
        "would have mutated — or throw LazyInitializationException if the entity is detached, " ++
        "which is ordinary rather than exotic here.\n   A field read is NOT the safe " ++
        "alternative and this is measured, not assumed: a proxy's own inherited fields are " ++
        "never populated, so `.id` reads null while the proxy's identity is set. That is a " ++
        "wrong answer with no error at all."
    | .collection =>
      "Resolving it would trigger the collection's initialisation — the SELECT Hibernate " ++
        "deferred — in whatever persistence context this thread is in. On a shared instance " ++
        "that is someone else's in-flight request."
  lazy_link_summary shape class_name ++ "\n   '." ++ member ++ "' was NOT resolved. " ++
    what_it_would_do ++ "\n   Pass force_initialize:true to walk in anyway, accepting the load; " ++
    "or read the association from a request that already fetched it."

def lazy_unknown_report (why class_name member : String) : String :=
  "❓ CANNOT TELL whether this Hibernate lazy value has been fetched (" ++ class_name ++ ") — " ++
    why ++ ".\n   '." ++ member ++ "' was NOT resolved, because the alternative is to guess " ++
    "'already loaded' and then perform the very load this check exists to avoid. Pass " ++
    "force_initialize:true to resolve it anyway, accepting that."

def seg_member_display (seg : Seg) : String :=
  if seg.args.isSome then seg.name ++ "()" else seg.name

end Reports

section Members

variable (d : Debuggee)

/-- The type itself has a field of the name. -/
def declares_field (type_id : ClassId) (name : String) : Bool :=
  match d.get_fields type_id with
  | .ok fs => fs.any fun f => f.name = name
  | .error _ => false

def check_lazy_receiver (obj_id : UInt64) (type_id : ClassId) (seg : Seg) (policy : LazyPolicy) :
    Except String Unit :=
  if policy = .initializing then .ok ()
  else
    let state := hibernate_lazy_state d obj_id type_id
    if state = .loaded then .ok ()
    else if seg.args.isNone ∧
        (state = .unfetched .collection ∨ declares_field d type_id seg.name) then .ok ()
    else
      let class_name := d.decode_signature ((d.get_signature type_id).toOption.getD "")
      match state with
      | .loaded => .ok ()
      | .unfetched shape => .error (lazy_link_report shape class_name (seg_member_display seg))
      | .unknown why => .error (lazy_unknown_report why class_name (seg_member_display seg))

/-- `@0x…`: the hexadecimal number, when it is one of at most 64 bits. -/
def parse_object_handle (token : String) : Option UInt64 :=
  (Addressing.parse_object_handle token.toList).map UInt64.ofNat

def read_segment_field (obj_id : UInt64) (type_id : ClassId) (seg : Seg) : Except String Value :=
  let sig := (d.get_signature type_id).toOption.getD ""
  if seg.name = "length" ∧ starts_with sig '[' then
    match d.get_array_length obj_id with
    | .error e =>
      .error ("Failed to read the length of '" ++ d.decode_signature sig ++ "': " ++ e)
    | .ok len => .ok (value_int len)
  else
    match find_field d.toHeap type_id seg.name with
    | .error e => .error e
    | .ok none => .error ("No field '" ++ seg.name ++ "' found on the object")
    | .ok (some fid) =>
      match d.get_object_values obj_id [fid] with
      | .error e => .error ("Failed to read field '" ++ seg.name ++ "': " ++ e)
      | .ok vals =>
        match vals.head? with
        | some v => .ok v
        | none => .error "No value returned for field"

def resolve_member (current : Value) (seg : Seg) (lazy : LazyPolicy) : Except String Value :=
  if (parse_object_handle seg.name).isSome then
    .error ("'" ++ seg.name ++ "' is an object handle, which can only be the FIRST segment of " ++
      "an expression — write " ++ seg.name ++ ".field, not something." ++ seg.name)
  else
    match current.data with
    | .object obj_id =>
      if obj_id = 0 then .error ("Cannot access '." ++ seg.name ++ "' on null")
      else
        match d.get_object_reference_type obj_id with
        | .error e => .error ("Failed to resolve object type: " ++ e)
        | .ok type_id =>
          match check_lazy_receiver d obj_id type_id seg lazy with
          | .error e => .error e
          | .ok _ =>
            match seg.args with
            | some arglits => d.invoke_segment_method obj_id type_id seg arglits
            | none => read_segment_field d obj_id type_id seg
    | _ => .error ("Cannot access '." ++ seg.name ++ "' on a primitive value")

/-- The state of a value, or none for a primitive, null, or a caller who accepts the load. -/
def lazy_state_of (v : Value) (lazy : LazyPolicy) : Option LazyState :=
  if lazy = .initializing then none
  else
    match v.data with
    | .object id =>
      if id = 0 then none
      else
        match d.get_object_reference_type id with
        | .error _ => none
        | .ok type_id => some (hibernate_lazy_state d id type_id)
    | _ => none

end Members

end JavaDebug.LazyReceivers
