import JavaDebug.Dialogue
import JavaDebug.Positions
import JavaDebug.WireReader

/-!
The connection to the debuggee: every function by which the rest of the program
reaches it. Each is a program over the shared parts of a connection (the
read-only flag, the packet counter, the invoke timeout, the type cache) and the
wire. A command is one operation, answered by whatever the event loop delivers;
the packets of a wave are issued one after another, and where their answers go
is the business of `read_independently` alone. Floating-point values are kept
as their bits, and an error code without the name that is printed for it.
-/
namespace JavaDebug.Connection

open Dialogue Octets Cursors Positions RequestFraming
open EventLoop (CommandPacket ReplyPacket waves_u32)
open WireReader (Buf ValueData Value read_value write_untagged_value write_tagged_value)
open Jdwp (SuspendPolicy WatchKind MonitorKind)

section Values

abbrev ObjectId := UInt64
abbrev ThreadId := UInt64
abbrev ReferenceTypeId := UInt64
abbrev ClassId := UInt64
abbrev MethodId := UInt64
abbrev FieldId := UInt64
abbrev FrameId := UInt64

/-- `i32::try_from(len).unwrap_or(i32::MAX)`, as the count of what follows. -/
def put_len {α : Type} (l : List α) : Bytes := put_i32 (i32_or l.length 2147483647)

structure Location where
  type_tag : UInt8
  class_id : ReferenceTypeId
  method_id : MethodId
  index : UInt64
  deriving DecidableEq

structure Frame where
  frame_id : FrameId
  location : Location
  deriving DecidableEq

structure Monitor where
  tag : UInt8
  object_id : ObjectId
  deriving DecidableEq

structure MethodInfo where
  method_id : MethodId
  name : String
  signature : String
  generic_signature : Option String
  mod_bits : Int32
  deriving DecidableEq

structure FieldInfo where
  field_id : FieldId
  name : String
  signature : String
  generic_signature : Option String
  mod_bits : Int32
  deriving DecidableEq

structure Variable where
  code_index : UInt64
  name : String
  signature : String
  generic_signature : Option String
  length : UInt32
  slot : UInt32
  deriving DecidableEq

structure VariableSlot where
  slot : Int32
  sig_byte : UInt8
  deriving DecidableEq

structure LineTableEntry where
  line_code_index : UInt64
  line_number : Int32
  deriving DecidableEq

structure LineTable where
  start : UInt64
  end_ : UInt64
  lines : List LineTableEntry
  deriving DecidableEq

structure ClassInfo where
  ref_type_tag : UInt8
  type_id : ReferenceTypeId
  signature : String
  status : Int32
  deriving DecidableEq

structure VmVersion where
  description : String
  jdwp_major : Int32
  jdwp_minor : Int32
  vm_version : String
  vm_name : String
  deriving DecidableEq

end Values

inductive JdwpError
  | transport (e : EventLoop.JdwpError)
  | jdwp_error_code (code : UInt16)
  | invoke_timeout (ms : UInt64)
  | read_only (what : String)
  deriving DecidableEq

abbrev JdwpResult (α : Type) := Except JdwpError α

def protocol {α : Type} (text : String) : JdwpResult α := .error (.transport (.protocol text))

def ERR_NOT_IMPLEMENTED : UInt16 := 99
def ERR_ABSENT_INFORMATION : UInt16 := 101

section Reading

/-- A reader of a reply: it takes bytes off the front or fails with a protocol error. -/
abbrev Decode (α : Type) := Cursor UInt8 JdwpResult α

def on_wire {α : Type} (p : Buf α) : Decode α := fun bs => (p bs).mapError .transport

def read_u8 : Decode UInt8 := on_wire WireReader.read_u8
def read_u32 : Decode UInt32 := on_wire WireReader.read_u32
def read_i32 : Decode Int32 := on_wire WireReader.read_i32
def read_u64 : Decode UInt64 := on_wire WireReader.read_u64
def read_i64 : Decode Int64 := on_wire WireReader.read_i64
def read_string : Decode String := on_wire WireReader.read_string
def read_value_by_tag (tag : UInt8) : Decode ValueData := on_wire (WireReader.read_value_by_tag tag)
def read_tagged_value : Decode Value := on_wire read_value

/-- Items behind an `i32` count; a negative count counts none. -/
def read_list {α : Type} (p : Decode α) : Decode (List α) := do
  let count ← read_i32
  times p count.toInt.toNat

def some_if_present (s : String) : Option String := if s.isEmpty then none else some s

def read_generic (with_generic : Bool) : Decode (Option String) :=
  if with_generic then some_if_present <$> read_string else pure none

def read_flag : Decode Bool := (fun b => b ≠ 0) <$> read_u8

/-- 0 stands for no object. -/
def read_optional_id : Decode (Option ObjectId) :=
  (fun id => if id = 0 then none else some id) <$> read_u64

end Reading

section Operations

inductive CachedSuperclass
  | unknown
  | root
  | parent (id : ClassId)
  deriving DecidableEq

structure TypeCache where
  signatures : ReferenceTypeId → Option String
  fields : ReferenceTypeId → Option (List FieldInfo)
  methods : ReferenceTypeId → Option (List MethodInfo)
  superclasses : ClassId → CachedSuperclass
  interfaces : ReferenceTypeId → Option (List ReferenceTypeId)

/-- What a connection is asked: its shared fields, the wire, and its event channel. -/
inductive Op
  | load_read_only
  | store_read_only (b : Bool)
  | next_id
  | packets_sent
  | load_invoke_timeout
  | store_invoke_timeout (ms : UInt64)
  | load_round_trips
  | add_round_trips (n : UInt32)
  | load_types
  | edit_types (f : TypeCache → TypeCache)
  | issue (p : CommandPacket)
  | issue_within (p : CommandPacket) (ms : UInt64)
  | recv_event

/-- An invocation that does not return within its limit is answered by `none`. -/
def Op.Answer : Op → Type
  | load_read_only => Bool
  | store_read_only _ => Unit
  | next_id | packets_sent | load_round_trips => UInt32
  | load_invoke_timeout => UInt64
  | store_invoke_timeout _ | add_round_trips _ | edit_types _ => Unit
  | load_types => TypeCache
  | issue _ => EventLoop.JdwpResult ReplyPacket
  | issue_within _ _ => Option (EventLoop.JdwpResult ReplyPacket)
  | recv_event => Option Jdwp.EventSet

abbrev wire : Interface := ⟨Op, Op.Answer⟩

abbrev Conn (α : Type) := Program wire α

/-- A function that returns a `JdwpResult`. -/
abbrev Call (α : Type) := ExceptT JdwpError (Program wire) α

def ask (o : Op) : Conn o.Answer := Program.perform (I := wire) o

def is_read_only : Conn Bool := ask .load_read_only
def set_read_only (b : Bool) : Conn Unit := ask (.store_read_only b)
def next_id : Conn UInt32 := ask .next_id
def packets_sent : Conn UInt32 := ask .packets_sent
def invoke_timeout_ms : Conn UInt64 := ask .load_invoke_timeout
def set_invoke_timeout_ms (ms : UInt64) : Conn Unit := ask (.store_invoke_timeout ms)
def round_trips : Conn UInt32 := ask .load_round_trips
def recv_event : Conn (Option Jdwp.EventSet) := ask .recv_event
def types : Conn TypeCache := ask .load_types
def edit_types (f : TypeCache → TypeCache) : Conn Unit := ask (.edit_types f)

def guard_mutation (what : String) : Call Unit := do
  if ← is_read_only then throw (.read_only what)

/-- A packet under the next id. -/
def packet (set command : UInt8) (body : Bytes) : Conn CommandPacket := do
  let id ← next_id
  pure ⟨id, set, command, body⟩

def of_loop (r : EventLoop.JdwpResult ReplyPacket) : JdwpResult ReplyPacket :=
  r.mapError JdwpError.transport

def send_command (p : CommandPacket) : Call ReplyPacket := do
  ask (.add_round_trips 1)
  let reply ← ask (.issue p)
  ExceptT.mk (pure (of_loop reply))

def timed_out (ms : UInt64) (r : Option (EventLoop.JdwpResult ReplyPacket)) :
    JdwpResult ReplyPacket :=
  match r with
  | none => .error (.invoke_timeout ms)
  | some reply => of_loop reply

/-- A limit of 0 is no limit. -/
def send_invoke (p : CommandPacket) : Call ReplyPacket := do
  let ms ← invoke_timeout_ms
  if ms = 0 then send_command p
  else
    ask (.add_round_trips 1)
    let reply ← ask (.issue_within p ms)
    ExceptT.mk (pure (timed_out ms reply))

def read_independently (packets : List CommandPacket) : Conn (List (JdwpResult ReplyPacket)) := do
  ask (.add_round_trips (waves_u32 packets))
  packets.mapM fun p => of_loop <$> ask (.issue p)

def check_error (r : ReplyPacket) : JdwpResult Unit :=
  if r.error_code = 0 then .ok () else .error (.jdwp_error_code r.error_code)

/-- What a reply says, read from the front; what is left over is not looked at. -/
def decode {α : Type} (p : Decode α) (r : ReplyPacket) : JdwpResult α := do
  check_error r
  let (a, _) ← p.run r.data
  pure a

/-- One command and what its reply says. -/
def command {α : Type} (set command : UInt8) (body : Bytes) (p : Decode α) : Call α := do
  let reply ← send_command (← packet set command body)
  ExceptT.mk (pure (decode p reply))

theorem command_run {α : Type} (set cmd : UInt8) (body : Bytes) (p : Decode α) :
    (command set cmd body p).run =
      Program.ask (I := wire) .next_id fun id =>
        Program.ask (I := wire) (.add_round_trips 1) fun _ =>
          Program.ask (I := wire) (.issue ⟨id, set, cmd, body⟩) fun a =>
            Program.done (I := wire) ((of_loop a).bind (decode p)) := by
  change Program.ask (I := wire) .next_id _ = _
  congr 1
  funext id
  change Program.ask (I := wire) (.add_round_trips 1) _ = _
  congr 1
  funext u
  change Program.ask (I := wire) (.issue ⟨id, set, cmd, body⟩) _ = _
  congr 1
  funext a
  change ExceptT.bindCont (m := Conn) (fun r => ExceptT.mk (pure (decode p r))) (of_loop a) = _
  cases of_loop a with
  | ok r => rfl
  | error e => rfl

/-- A wave of the same command, one answer for each body. -/
def wave {α : Type} (set command : UInt8) (bodies : List Bytes) (p : Decode α) :
    Conn (List (JdwpResult α)) := do
  let packets ← bodies.mapM (packet set command)
  let replies ← read_independently packets
  pure (replies.map fun r => r.bind (decode p))

end Operations

section Types

variable (ref_type_id : ReferenceTypeId)

def get_signature : Call String := do
  match (← types).signatures ref_type_id with
  | some hit => pure hit
  | none =>
    let sig ← command 2 1 (put_u64 ref_type_id) read_string
    edit_types fun c => { c with
      signatures := fun id => if id = ref_type_id then some sig else c.signatures id }
    pure sig

/-- The ids to ask for: those the cache does not know, each once. -/
def collect_wanted (wanted : List ReferenceTypeId) :
    List ReferenceTypeId → Conn (List ReferenceTypeId)
  | [] => pure wanted
  | id :: rest => do
    let known := ((← types).signatures id).isSome
    collect_wanted (if known || wanted.contains id then wanted else wanted ++ [id]) rest

def put_signature (c : TypeCache) : ReferenceTypeId × JdwpResult String → TypeCache
  | (id, .ok sig) =>
    { c with signatures := fun i => if i = id then some sig else c.signatures i }
  | (_, .error _) => c

def known_signature (id : ReferenceTypeId) : Conn (JdwpResult String) := do
  match (← types).signatures id with
  | some sig => pure (.ok sig)
  | none => pure (protocol ("the signature of type " ++ toString id.toNat ++ " could not be read"))

def read_signatures_independently (ref_type_ids : List ReferenceTypeId) :
    Conn (List (JdwpResult String)) := do
  let wanted ← collect_wanted [] ref_type_ids
  if !wanted.isEmpty then
    let replies ← wave 2 1 (wanted.map put_u64) read_string
    edit_types fun c => (wanted.zip replies).foldl put_signature c
  ref_type_ids.mapM known_signature

def get_superclass (class_id : ClassId) : Call (Option ClassId) := do
  match (← types).superclasses class_id with
  | .root => pure none
  | .parent p => pure (some p)
  | .unknown =>
    let parent ← command 3 1 (put_u64 class_id) read_optional_id
    edit_types fun c => { c with superclasses := fun id =>
      if id = class_id then parent.elim .root .parent else c.superclasses id }
    pure parent

variable (with_generic : Bool)

def read_method_info : Decode MethodInfo := do
  let method_id ← read_u64
  let name ← read_string
  let signature ← read_string
  let generic ← read_generic with_generic
  let mod_bits ← read_i32
  pure ⟨method_id, name, signature, generic, mod_bits⟩

def read_methods (with_generic : Bool) : Call (List MethodInfo) :=
  command 2 (if with_generic then 15 else 5) (put_u64 ref_type_id)
    (read_list (read_method_info with_generic))

/-- Ask for generic signatures first, and without them where that is not implemented. -/
def generic_or_plain {α : Type} (read : Bool → Call α) : Call α :=
  tryCatch (read true) fun e =>
    if e = .jdwp_error_code ERR_NOT_IMPLEMENTED then read false else throw e

def get_methods : Call (List MethodInfo) := do
  match (← types).methods ref_type_id with
  | some hit => pure hit
  | none =>
    let methods ← generic_or_plain (read_methods ref_type_id)
    edit_types fun c => { c with
      methods := fun id => if id = ref_type_id then some methods else c.methods id }
    pure methods

def read_field_info : Decode FieldInfo := do
  let field_id ← read_u64
  let name ← read_string
  let signature ← read_string
  let generic ← read_generic with_generic
  let mod_bits ← read_i32
  pure ⟨field_id, name, signature, generic, mod_bits⟩

def read_fields (with_generic : Bool) : Call (List FieldInfo) :=
  command 2 (if with_generic then 14 else 4) (put_u64 ref_type_id)
    (read_list (read_field_info with_generic))

def get_fields : Call (List FieldInfo) := do
  match (← types).fields ref_type_id with
  | some hit => pure hit
  | none =>
    let fields ← generic_or_plain (read_fields ref_type_id)
    edit_types fun c => { c with
      fields := fun id => if id = ref_type_id then some fields else c.fields id }
    pure fields

def get_interfaces : Call (List ReferenceTypeId) := do
  match (← types).interfaces ref_type_id with
  | some hit => pure hit
  | none =>
    let ifaces ← command 2 10 (put_u64 ref_type_id) (read_list read_u64)
    edit_types fun c => { c with
      interfaces := fun id => if id = ref_type_id then some ifaces else c.interfaces id }
    pure ifaces

def get_class_loader : Call (Option ObjectId) :=
  command 2 2 (put_u64 ref_type_id) read_optional_id

def get_modifiers : Call Int32 :=
  command 2 3 (put_u64 ref_type_id) read_i32

def get_source_file : Call String :=
  command 2 7 (put_u64 ref_type_id) read_string

def get_source_debug_extension : Call (Option String) := do
  let reply ← send_command (← packet 2 12 (put_u64 ref_type_id))
  if reply.error_code = ERR_ABSENT_INFORMATION ∨ reply.error_code = ERR_NOT_IMPLEMENTED then
    pure none
  else ExceptT.mk (pure (some <$> decode read_string reply))

/-- The type, its interfaces and its superclasses, each looked at once; at most 500 of them. -/
def implements_from (wanted : String) (seen : List ReferenceTypeId) :
    ℕ → List ReferenceTypeId → Conn Bool
  | 0, _ => pure false
  | _ + 1, [] => pure false
  | steps + 1, current :: queue => do
    if seen.contains current then implements_from wanted seen steps queue
    else
      let sig ← (get_signature current).run
      if sig.toOption = some wanted then pure true
      else
        let ifaces ← (get_interfaces current).run
        let parent ← (get_superclass current).run
        let above := (parent.toOption.getD none).toList
        implements_from wanted (current :: seen) steps
          (above ++ (ifaces.toOption.getD []).reverse ++ queue)

def implements_interface (type_id : ReferenceTypeId) (wanted : String) : Call Bool :=
  ExceptT.mk (.ok <$> implements_from wanted [] 500 [type_id])

def instances (max_instances : Int32) : Call (List Value) := do
  if max_instances < 0 then
    ExceptT.mk (pure (protocol ("max_instances must be 0 (all) or positive, got " ++
      toString max_instances.toInt)))
  else command 2 16 (put_u64 ref_type_id ++ put_i32 max_instances) (read_list read_tagged_value)

def read_line_table : Decode LineTable := do
  let start ← read_u64
  let end_ ← read_u64
  let lines ← read_list do
    let line_code_index ← read_u64
    let line_number ← read_i32
    pure ⟨line_code_index, line_number⟩
  pure ⟨start, end_, lines⟩

/-- A method is named by its type and its id. -/
def put_method (m : ReferenceTypeId × MethodId) : Bytes := put_u64 m.1 ++ put_u64 m.2

def get_line_table (method_id : MethodId) : Call LineTable :=
  command 6 1 (put_method (ref_type_id, method_id)) read_line_table

variable (pairs : List (ReferenceTypeId × MethodId))

def read_line_tables_independently : Conn (List (JdwpResult LineTable)) :=
  wave 6 1 (pairs.map put_method) read_line_table

def read_bytecodes : Decode Bytes := do
  let count ← read_i32
  let count := count.toInt.toNat
  let bs ← get
  if bs.length < count then
    fun _ => protocol ("Method.Bytecodes claimed " ++ toString count ++
      " byte(s) but the reply holds " ++ toString bs.length)
  else pure (bs.take count)

def get_bytecodes (method_id : MethodId) : Call Bytes :=
  command 6 3 (put_method (ref_type_id, method_id)) read_bytecodes

def read_variable : Decode Variable := do
  let code_index ← read_u64
  let name ← read_string
  let signature ← read_string
  let generic ← read_generic with_generic
  let length ← read_u32
  let slot ← read_u32
  pure ⟨code_index, name, signature, generic, length, slot⟩

def decode_variable_table : Decode (List Variable) := do
  let _arg_count ← read_i32
  read_list (read_variable with_generic)

def variable_table_command : UInt8 := if with_generic then 5 else 2

def read_variable_table (method_id : MethodId) (with_generic : Bool) : Call (List Variable) :=
  command 6 (variable_table_command with_generic) (put_method (ref_type_id, method_id))
    (decode_variable_table with_generic)

def get_variable_table (method_id : MethodId) : Call (List Variable) :=
  generic_or_plain (read_variable_table ref_type_id method_id)

def variable_table_wave (with_generic : Bool) : Conn (List (JdwpResult (List Variable))) :=
  wave 6 (variable_table_command with_generic) (pairs.map put_method)
    (decode_variable_table with_generic)

/-- Whether the generic command is not implemented for this one. -/
def not_implemented {α : Type} (r : JdwpResult α) : Bool :=
  match r with
  | .error (.jdwp_error_code code) => code = ERR_NOT_IMPLEMENTED
  | _ => false

/-- The second answers go to the positions their pairs were asked again for. -/
def read_variable_tables_independently : Conn (List (JdwpResult (List Variable))) := do
  let generic ← variable_table_wave pairs true
  let retry := retries not_implemented generic pairs
  if retry.isEmpty then pure generic
  else
    let answers ← variable_table_wave (retry.map Prod.snd) false
    pure (put_back generic ((retry.zip answers).map fun r => (r.1.1, r.2)))

end Types

section Objects

def read_reference_type : Decode ReferenceTypeId := do
  let _type_tag ← read_u8
  read_u64

variable (object_id : ObjectId)

def get_object_reference_type : Call ReferenceTypeId :=
  command 9 1 (put_u64 object_id) read_reference_type

def read_reference_types_independently (object_ids : List ObjectId) :
    Conn (List (JdwpResult ReferenceTypeId)) :=
  wave 9 1 (object_ids.map put_u64) read_reference_type

def is_collected : Call Bool :=
  command 9 9 (put_u64 object_id) read_flag

/-- An object or a type, and the fields asked of it. -/
def put_field_ids (r : ObjectId × List FieldId) : Bytes :=
  put_u64 r.1 ++ put_len r.2 ++ r.2.flatMap put_u64

def get_object_values (field_ids : List FieldId) : Call (List Value) :=
  command 9 2 (put_field_ids (object_id, field_ids)) (read_list read_tagged_value)

def read_object_values_independently (reads : List (ObjectId × List FieldId)) :
    Conn (List (JdwpResult (List Value))) :=
  wave 9 2 (reads.map put_field_ids) (read_list read_tagged_value)

def get_reference_values (ref_type_id : ReferenceTypeId) (field_ids : List FieldId) :
    Call (List Value) :=
  command 2 6 (put_field_ids (ref_type_id, field_ids)) (read_list read_tagged_value)

def put_updates (updates : List (FieldId × Value)) : Bytes :=
  put_len updates ++ updates.flatMap fun u => put_u64 u.1 ++ write_untagged_value u.2

def set_reference_values (class_id : ReferenceTypeId) (updates : List (FieldId × Value)) :
    Call Unit := do
  guard_mutation "a static field write"
  command 3 2 (put_u64 class_id ++ put_updates updates) (pure ())

def set_object_values (updates : List (FieldId × Value)) : Call Unit := do
  guard_mutation "an instance field write"
  command 9 3 (put_u64 object_id ++ put_updates updates) (pure ())

def get_string_value (string_id : ObjectId) : Call String :=
  command 10 1 (put_u64 string_id) read_string

def read_string_values_independently (string_ids : List ObjectId) :
    Conn (List (JdwpResult String)) :=
  wave 10 1 (string_ids.map put_u64) read_string

variable (array_id : ObjectId)

def get_array_length : Call Int32 :=
  command 13 1 (put_u64 array_id) read_i32

/-- Objects carry a tag each, primitives share the one of the region. -/
def read_array_region : Decode (List Value) := do
  let region_tag ← read_u8
  if region_tag ∈ [76, 115, 116, 103, 108, 99, 91] then read_list read_tagged_value
  else
    read_list do
      let data ← read_value_by_tag region_tag
      pure ⟨region_tag, data⟩

def get_array_values (first length : Int32) : Call (List Value) :=
  command 13 2 (put_u64 array_id ++ put_i32 first ++ put_i32 length) read_array_region

def set_array_values (first : Int32) (values : List Value) :
    Call Unit := do
  guard_mutation "an array element write"
  command 13 3 (put_u64 array_id ++ put_i32 first ++ put_len values ++
    values.flatMap write_untagged_value) (pure ())

def create_string (s : String) : Call ObjectId :=
  command 1 11 (put_len (as_bytes s) ++ as_bytes s) read_u64

/-- The value returned and the exception thrown, 0 for none. -/
def read_invoke_reply : Decode (Value × ObjectId) := do
  let ret ← read_tagged_value
  let _exc_tag ← read_u8
  let exc_id ← read_u64
  pure (ret, exc_id)

def INVOKE_SINGLE_THREADED : Int32 := 1

def put_arguments (args : List Value) : Bytes :=
  put_len args ++ args.flatMap write_tagged_value ++ put_i32 INVOKE_SINGLE_THREADED

def invoke_method (thread_id : ThreadId) (class_id : ClassId) (method_id : MethodId)
    (args : List Value) : Call (Value × ObjectId) := do
  guard_mutation "an instance method invocation"
  let p ← packet 9 6 (put_u64 object_id ++ put_u64 thread_id ++ put_u64 class_id ++
    put_u64 method_id ++ put_arguments args)
  let reply ← send_invoke p
  ExceptT.mk (pure (decode read_invoke_reply reply))

def invoke_static_method (class_id : ClassId) (thread_id : ThreadId) (method_id : MethodId)
    (args : List Value) : Call (Value × ObjectId) := do
  guard_mutation "a static method invocation"
  let p ← packet 3 3 (put_u64 class_id ++ put_u64 thread_id ++ put_u64 method_id ++
    put_arguments args)
  let reply ← send_invoke p
  ExceptT.mk (pure (decode read_invoke_reply reply))

end Objects

section Threads

def read_location : Decode Location := do
  let type_tag ← read_u8
  let class_id ← read_u64
  let method_id ← read_u64
  let index ← read_u64
  pure ⟨type_tag, class_id, method_id, index⟩

def read_frame : Decode Frame := do
  let frame_id ← read_u64
  let location ← read_location
  pure ⟨frame_id, location⟩

variable (thread_id : ThreadId)

def get_frames (start_frame length : Int32) : Call (List Frame) :=
  command 11 6 (put_u64 thread_id ++ put_i32 start_frame ++ put_i32 length) (read_list read_frame)

def read_monitor : Decode Monitor := do
  let tag ← read_u8
  let object_id ← read_u64
  pure ⟨tag, object_id⟩

def owned_monitors : Call (List Monitor) :=
  command 11 8 (put_u64 thread_id) (read_list read_monitor)

def current_contended_monitor : Call (Option Monitor) := do
  let m ← command 11 9 (put_u64 thread_id) read_monitor
  pure (if m.object_id = 0 then none else some m)

def get_all_threads : Call (List ThreadId) := command 1 4 [] (read_list read_u64)

def get_thread_name : Call String :=
  command 11 1 (put_u64 thread_id) read_string

def read_thread_names_independently (thread_ids : List ThreadId) :
    Conn (List (JdwpResult String)) :=
  wave 11 1 (thread_ids.map put_u64) read_string

/-- The thread's status and its suspend status. -/
def read_thread_status : Decode (Int32 × Int32) := do
  let thread_status ← read_i32
  let suspend_status ← read_i32
  pure (thread_status, suspend_status)

def get_thread_status : Call (Int32 × Int32) :=
  command 11 4 (put_u64 thread_id) read_thread_status

def read_thread_statuses_independently (thread_ids : List ThreadId) :
    Conn (List (JdwpResult (Int32 × Int32))) :=
  wave 11 4 (thread_ids.map put_u64) read_thread_status

def suspend_count : Call Int32 :=
  command 11 12 (put_u64 thread_id) read_i32

def suspend_all : Call Unit := command 1 8 [] (pure ())

def resume_all : Call Unit := command 1 9 [] (pure ())

def suspend_count_or_zero : Conn Int32 := do
  let left ← (suspend_count thread_id).run
  pure (left.toOption.getD 0)

def resume_all_fully_from (probe_thread : ThreadId) (issued : ℕ) : ℕ → Call (ℕ × Int32)
  | 0 => do
    let left ← suspend_count_or_zero probe_thread
    pure (issued, left)
  | resumes + 1 => do
    resume_all
    let left ← suspend_count_or_zero probe_thread
    if left ≤ 0 then pure (issued + 1, 0)
    else resume_all_fully_from probe_thread (issued + 1) resumes

def resume_all_fully (probe_thread : ThreadId) (max_resumes : ℕ) : Call (ℕ × Int32) :=
  resume_all_fully_from probe_thread 0 max_resumes

def suspend_thread : Call Unit :=
  command 11 2 (put_u64 thread_id) (pure ())

def resume_thread : Call Unit :=
  command 11 3 (put_u64 thread_id) (pure ())

def force_early_return (value : Value) : Call Unit := do
  guard_mutation "a forced early return"
  command 11 14 (put_u64 thread_id ++ write_tagged_value value) (pure ())

variable (frame_id : FrameId)

def get_this_object : Call ObjectId :=
  command 16 3 (put_u64 thread_id ++ put_u64 frame_id) read_reference_type

/-- A frame of a thread, and the slots asked of it. -/
def put_slots (r : ThreadId × FrameId × List VariableSlot) : Bytes :=
  put_u64 r.1 ++ put_u64 r.2.1 ++ put_len r.2.2 ++
    r.2.2.flatMap fun s => put_i32 s.slot ++ [s.sig_byte]

def get_frame_values (slots : List VariableSlot) : Call (List Value) :=
  command 16 1 (put_slots (thread_id, frame_id, slots)) (read_list read_tagged_value)

def read_frame_values_independently (reads : List (ThreadId × FrameId × List VariableSlot)) :
    Conn (List (JdwpResult (List Value))) :=
  wave 16 1 (reads.map put_slots) (read_list read_tagged_value)

def set_frame_value (slot : Int32) (value : Value) :
    Call Unit := do
  guard_mutation "a local variable write"
  command 16 2 (put_u64 thread_id ++ put_u64 frame_id ++ put_i32 1 ++ put_i32 slot ++
    write_tagged_value value) (pure ())

def pop_frames : Call Unit := do
  guard_mutation "a frame pop"
  command 16 4 (put_u64 thread_id ++ put_u64 frame_id) (pure ())

end Threads

section Vm

def read_version : Decode VmVersion := do
  let description ← read_string
  let jdwp_major ← read_i32
  let jdwp_minor ← read_i32
  let vm_version ← read_string
  let vm_name ← read_string
  pure ⟨description, jdwp_major, jdwp_minor, vm_version, vm_name⟩

def get_version : Call VmVersion := command 1 1 [] read_version

def can_get_method_return_values : Call Bool := do
  let v ← get_version
  pure (1 < v.jdwp_major || (v.jdwp_major = 1 && 6 ≤ v.jdwp_minor))

/-- The flags in the order in which the reply has them. -/
def capabilities : Call (List Bool) := command 1 12 [] (times read_flag 7)

def capabilities_new : Call (List Bool) := command 1 17 [] (times read_flag 18)

def instance_counts (ref_types : List ReferenceTypeId) : Call (List Int64) :=
  command 1 21 (put_len ref_types ++ ref_types.flatMap put_u64) (read_list read_i64)

def TypeCache.invalidate (c : TypeCache) (id : ReferenceTypeId) : TypeCache where
  signatures := fun i => if i = id then none else c.signatures i
  fields := fun i => if i = id then none else c.fields i
  methods := fun i => if i = id then none else c.methods i
  superclasses := fun i => if i = id then .unknown else c.superclasses i
  interfaces := fun i => if i = id then none else c.interfaces i

def redefine_classes (defs : List (ReferenceTypeId × Bytes)) : Call Unit := do
  guard_mutation "a class redefinition"
  command 1 18 (put_len defs ++ defs.flatMap fun d =>
    put_u64 d.1 ++ write_jdwp_string d.2) (pure ())
  edit_types fun c => (defs.map Prod.fst).foldl TypeCache.invalidate c

def dispose : Call Unit := command 1 6 [] (pure ())

def classes_by_signature (signature : String) : Call (List ClassInfo) :=
  command 1 2 (write_jdwp_string (as_bytes signature)) (read_list do
    let ref_type_tag ← read_u8
    let type_id ← read_u64
    let status ← read_i32
    pure ⟨ref_type_tag, type_id, signature, status⟩)

def all_classes : Call (List ClassInfo) :=
  command 1 3 [] (read_list do
    let ref_type_tag ← read_u8
    let type_id ← read_u64
    let signature ← read_string
    let status ← read_i32
    pure ⟨ref_type_tag, type_id, signature, status⟩)

end Vm

section EventRequests

def EVENT_REQUEST : UInt8 := 15

/-- Send `EventRequest.Set`; the reply is the id of the new request. -/
def set_event_request (body : Bytes) : Call Int32 := command EVENT_REQUEST 1 body read_i32

def clear_event_request (event_kind : UInt8) (request_id : Int32) : Call Unit :=
  command EVENT_REQUEST 2 (event_kind :: put_i32 request_id) (pure ())

def no_filters : EventFilters := ⟨none, none, none⟩

def set_breakpoint_ex (class_id : ReferenceTypeId) (method_id : MethodId) (bytecode_index : UInt64)
    (suspend_policy : SuspendPolicy) (filters : EventFilters) : Call Int32 :=
  set_event_request
    (RequestFraming.set_breakpoint_ex class_id method_id bytecode_index suspend_policy filters)

def set_breakpoint (class_id : ReferenceTypeId) (method_id : MethodId) (bytecode_index : UInt64)
    (suspend_policy : SuspendPolicy) : Call Int32 :=
  set_event_request ([2, policy_byte suspend_policy] ++ put_i32 1 ++
    (7 :: 1 :: (put_u64 class_id ++ put_u64 method_id ++ put_u64 bytecode_index)))

variable (request_id : Int32)

def clear_breakpoint : Call Unit := clear_event_request 2 request_id

variable (class_pattern : String)

def set_class_prepare (suspend_policy : SuspendPolicy) : Call Int32 :=
  set_event_request ([8, policy_byte suspend_policy] ++ put_i32 1 ++
    write_class_match class_pattern)

def clear_class_prepare : Call Unit := clear_event_request 8 request_id

def set_exception_request_ex (ref_type : Option ReferenceTypeId) (caught uncaught : Bool)
    (suspend_policy : SuspendPolicy) (filters : EventFilters) : Call Int32 :=
  set_event_request
    (RequestFraming.set_exception_request_ex ref_type caught uncaught suspend_policy filters)

def set_exception_request (ref_type : Option ReferenceTypeId) (caught uncaught : Bool)
    (suspend_policy : SuspendPolicy) : Call Int32 :=
  set_exception_request_ex ref_type caught uncaught suspend_policy no_filters

def clear_exception_request : Call Unit := clear_event_request 4 request_id

def set_field_watch_ex (ref_type : ReferenceTypeId) (field_id : FieldId) (kind : WatchKind)
    (suspend_policy : SuspendPolicy) (filters : EventFilters) : Call Int32 :=
  set_event_request
    (RequestFraming.set_field_watch_ex ref_type field_id kind suspend_policy filters)

def set_field_watch (ref_type : ReferenceTypeId) (field_id : FieldId) (kind : WatchKind)
    (suspend_policy : SuspendPolicy) : Call Int32 :=
  set_field_watch_ex ref_type field_id kind suspend_policy no_filters

def clear_field_watch (kind : WatchKind) : Call Unit :=
  clear_event_request (RequestFraming.WatchKind.event_kind kind) request_id

variable (with_return_value : Bool)

def set_method_exit_request_ex (suspend_policy : SuspendPolicy) (exclude : List String)
    (filters : EventFilters) : Call Int32 :=
  set_event_request (RequestFraming.set_method_exit_request_ex class_pattern with_return_value
    suspend_policy exclude filters)

def set_method_exit_request (suspend_policy : SuspendPolicy) (count : Option Int32)
    (thread : Option ThreadId) : Call Int32 :=
  set_method_exit_request_ex class_pattern with_return_value suspend_policy []
    ⟨count, thread, none⟩

def clear_method_exit_request : Call Unit :=
  clear_event_request (RequestFraming.method_exit_kind with_return_value) request_id

def set_monitor_request (kind : MonitorKind) (suspend_policy : SuspendPolicy)
    (monitor_class : Option ReferenceTypeId) (filters : EventFilters) : Call Int32 :=
  set_event_request
    (RequestFraming.set_monitor_request kind suspend_policy monitor_class filters)

def clear_monitor_request (kind : MonitorKind) : Call Unit :=
  clear_event_request (RequestFraming.MonitorKind.event_kind kind) request_id

def set_step_ex (thread : ThreadId) (depth : StepDepth) (exclude only : List String) : Call Int32 :=
  set_event_request (RequestFraming.set_step_ex thread depth exclude only)

def set_step (thread : ThreadId) (depth : StepDepth) : Call Int32 := set_step_ex thread depth [] []

def clear_step : Call Unit := clear_event_request 1 request_id

def clear_all_breakpoints : Call Unit := command EVENT_REQUEST 3 [] (pure ())

end EventRequests

end JavaDebug.Connection
