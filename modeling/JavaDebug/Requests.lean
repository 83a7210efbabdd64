import JavaDebug.ChainWalks
import JavaDebug.DeepRenders
import JavaDebug.Filters
import JavaDebug.FrameNames
import JavaDebug.Invocations
import JavaDebug.LoaderPins
import JavaDebug.Outcomes
import JavaDebug.Selectors
import JavaDebug.StackReads

/-!
What an evaluation asks of the debuggee. The commands that only read answer
from a sight of it, which may be another one each time; the commands on a frame,
the field reads of a member and the invocations are asked one by one, an
invocation saying what it is for. Calls with their boxed arguments and the
shallow rendering of a value are programs of such requests.
-/
namespace JavaDebug.Requests

open Jdwp WireReader JavaValues Overloads
  MapWalks LazyReceivers Dialogue
open FrameNames (Variable Frame)
open Invocations (Invocation boxing_class boxing_failed is_primitive)
open DeepRenders (find_method_arity)
open DecodedTexts (Charset decode_bytes decode_chars push_raw_unit)
open Selectors (ByteRender)
open StackReads (decode_signature hex)

section Interface

/-- A command that failed: how it is displayed, the code it was refused with, and the budget of
milliseconds it ran out of. -/
structure Failure where
  text : String
  code : Option ℕ
  timeout : Option UInt64

def ERR_INVALID_OBJECT : ℕ := 20

def ERR_INVALID_FRAMEID : ℕ := 30

/-- The answers of the commands that only read, errors as they are displayed. -/
structure Sight extends Heap where
  classes : LoaderPins.Answers
  get_variable_table : ClassId → ℕ → Except String (List Variable)
  get_reference_values : ClassId → List ℕ → Except String (List Value)
  is_collected : UInt64 → Except Failure Bool

/-- What an `InvokeMethod` is sent for: a call that is written in an expression is its segment, one
on a named query is its method. -/
inductive Purpose
  | written (seg : Seg)
  | boxing
  | indexing
  | scanning
  | to_string
  | expanding
  | querying (method : String)
  deriving DecidableEq

inductive Request
  | look
  | get_frames (thread_id : ThreadId) (start length : Int32)
  | get_this_object (thread_id : ThreadId) (frame_id : ℕ)
  | get_frame_values (thread_id : ThreadId) (frame_id : ℕ) (slots : List (ℕ × UInt8))
  | get_object_values (object_id : UInt64) (field_ids : List ℕ)
  | create_string (s : String)
  | invoke_method (purpose : Purpose) (call : Invocation)

def Request.Answer : Request → Type
  | .look => Sight
  | .get_frames _ _ _ => Except String (List Frame)
  | .get_this_object _ _ => Except Failure UInt64
  | .get_frame_values _ _ _ => Except String (List Value)
  | .get_object_values _ _ => Except String (List Value)
  | .create_string _ => Except String UInt64
  | .invoke_method _ _ => Except Failure (Value × UInt64)

def Jvm : Interface := ⟨Request, Request.Answer⟩

/-- A program of requests, and one that can fail. -/
abbrev Ask := Program Jvm

abbrev Try := ExceptT String Ask

def request (o : Request) : Ask o.Answer := @Program.perform Jvm o

/-- What a sight of the debuggee shows. -/
def peek {α : Type} (f : Sight → α) : Ask α := do
  let d ← request .look
  return f d

def observe {α : Type} (f : Sight → α) : Try α := liftM (peek f)

def consult {α : Type} (f : Sight → Except String α) : Try α := ExceptT.mk (peek f)

/-- A failure is told in other words. -/
def explain {α ε : Type} (f : ε → String) (m : Ask (Except ε α)) : Try α :=
  ExceptT.mk (Except.mapError f <$> m)

variable (thread_id : ThreadId)

def get_frames (start length : Int32) : Ask (Except String (List Frame)) :=
  request (.get_frames thread_id start length)

def get_this_object (frame_id : ℕ) : Ask (Except Failure UInt64) :=
  request (.get_this_object thread_id frame_id)

def get_frame_values (frame_id : ℕ) (slots : List (ℕ × UInt8)) : Ask (Except String (List Value)) :=
  request (.get_frame_values thread_id frame_id slots)

def get_object_values (object_id : UInt64) (field_ids : List ℕ) :
    Ask (Except String (List Value)) :=
  request (.get_object_values object_id field_ids)

def create_string (s : String) : Ask (Except String UInt64) := request (.create_string s)

def invoke_method (purpose : Purpose) (call : Invocation) : Ask (Except Failure (Value × UInt64)) :=
  request (.invoke_method purpose call)

end Interface

section Texts

/-- How floating-point values and what is quoted for a programmer are printed. -/
structure Printing where
  display_f32 : UInt32 → String
  display_f64 : UInt64 → String
  debug_arglit : ArgLit → String
  debug_data : Option ValueData → String

variable (t : Printing)

variable (d : Sight)

/-- A sight for the functions that tell lazy values apart, which invoke nothing. -/
def Sight.debuggee : LazyReceivers.Debuggee where
  toHeap := d.toHeap
  decode_signature := decode_signature
  debug_data := t.debug_data
  invoke_segment_method := fun _ _ _ _ => .error ""

def Sight.signature (type_id : ClassId) : String :=
  (d.get_signature type_id).toOption.getD ""

/-- Every loaded copy of a class, best first. -/
def resolve_class_copies_by_dotted (dotted : String) : Except String (List ClassId) :=
  ((LoaderPins.resolve_class_copies_by_dotted d.classes dotted.toList).map
    (List.map UInt64.toNat)).mapError String.ofList

def describe_class_loaders (copies : List ClassId) : List String :=
  (LoaderPins.describe_class_loaders d.classes (copies.map UInt64.ofNat)).map String.ofList

def HOW_TO_SUSPEND_FOR_AN_INVOKE : String :=
  "this one INVOKES a method, and JDWP only allows that on a thread suspended BY AN EVENT — so " ++
    "a suspending stop point on the code you want to ask about, not debug.suspend_thread and " ++
    "not debug.pause (measured: both answer INVALID_THREAD). Reads of the frame — locals, " ++
    "fields, expand_objects — need none of that"

def INVOKE_NEEDS_AN_EVENT : String :=
  "\n   The JVM answered INVALID_THREAD, which here does NOT mean the id was wrong: JDWP allows " ++
    "a method to be invoked only on a thread suspended BY AN EVENT — a stop point hit or a step " ++
    "landing. Neither debug.suspend_thread nor debug.pause qualifies (measured, and it is the " ++
    "spec's own rule), so an invocation needs a suspending stop point on the code you want to " ++
    "ask about. Everything that does NOT invoke still works on a thread you suspended: the " ++
    "stack and its locals, expand_objects (which reads fields), and debug.set_value on a local."

def INVOKE_ALREADY_INVOKING : String :=
  "\n   The JVM answered ALREADY_INVOKING, which is a fact about the THREAD rather than about " ++
    "this expression: JDWP permits one method invocation per thread at a time, and one is still " ++
    "outstanding on this one. The likeliest cause is an EARLIER invocation on the same thread " ++
    "that hit the 2000ms invoke budget — another trace_expr element in the same capture, a " ++
    "toString() rendered for a captured value, or a previous debug.evaluate — because that " ++
    "budget frees the debugger and NOT the debuggee, and the call keeps running there where " ++
    "JDWP cannot cancel it. Nothing is wrong with the expression: read it again (a traced stop " ++
    "point will retry it by itself on the next hit), or use a FIELD instead of a getter, which " ++
    "needs no invocation and therefore cannot collide."

def invoke_hint (e : Failure) : String :=
  match e.code with
  | some 10 => INVOKE_NEEDS_AN_EVENT
  | some 502 => INVOKE_ALREADY_INVOKING
  | _ => ""

def truncate (s : String) (max : ℕ) : String :=
  if max < s.length then
    String.ofList (s.toList.take max) ++ "… (" ++ toString s.length ++ " chars total)"
  else s

def quoted (s : String) (max_len : ℕ) : String := "\"" ++ truncate s max_len ++ "\""

/-- A `char` is a UTF-16 code unit; half a pair is no character. -/
def format_char (unit : UInt16) : String :=
  if 0xD800 ≤ unit ∧ unit ≤ 0xDFFF then
    push_raw_unit "(char) '" unit ++ "' (unpaired surrogate, not a character)"
  else "(char) '" ++ (Char.ofNat unit.toNat).toString ++ "'"

def format_primitive (data : ValueData) : Option String :=
  match data with
  | .byte v => some ("(byte) " ++ toString v)
  | .char v => some (format_char v)
  | .float bits => some ("(float) " ++ t.display_f32 bits)
  | .double bits => some ("(double) " ++ t.display_f64 bits)
  | .int v => some ("(int) " ++ toString v)
  | .long v => some ("(long) " ++ toString v)
  | .short v => some ("(short) " ++ toString v)
  | .boolean v => some ("(boolean) " ++ toString v)
  | .void => some "(void)"
  | .object _ => none

end Texts

section TextArrays

variable (t : Printing) (d : Sight)

def TEXT_SCAN_CAP : ℕ := 65536

def label : Charset → String
  | .utf8 => "UTF-8"
  | .latin1 => "ISO-8859-1"
  | .ascii => "US-ASCII"

def max_bytes_per_char : Charset → ℕ
  | .utf8 => 4
  | .latin1 => 1
  | .ascii => 1

def byte_of (v : Value) : Option UInt8 :=
  match v.data with
  | .byte b => some b.toUInt8
  | _ => none

def char_unit_of (v : Value) : Option UInt16 :=
  match v.data with
  | .char c => some c
  | _ => none

/-- The first `take` elements; none are asked for when there are none to take. -/
def leading_elements (id : UInt64) (take : Int32) : Option (List Value) :=
  if take ≤ 0 then some [] else (d.get_array_values id 0 take).toOption

/-- At most 65536 units are read, which an `i32` counts. -/
def text_units (len : Int32) (max_len per : ℕ) : Int32 :=
  min len (Int32.ofNat (min (max_len * per) TEXT_SCAN_CAP))

def decoded_note (take len : Int32) (unit : String) : String :=
  if take < len then " (decoded " ++ toString take ++ " of " ++ toString len ++ " " ++ unit ++ ")"
  else ""

/-- A `byte[]` or a `char[]` as text. -/
def render_text_array (id : UInt64) (sig : String) (max_len : ℕ) (how : ByteRender) :
    Option String := do
  match how with
  | .raw => none
  | .text charset =>
    if sig = "[B" then
      let len ← (d.get_array_length id).toOption
      let take := text_units len max_len (max_bytes_per_char charset)
      let values ← leading_elements d id take
      let text := decode_bytes (values.filterMap byte_of) charset
      return "byte[" ++ toString len ++ "] " ++ label charset ++ " " ++ quoted text max_len ++
        decoded_note take len "bytes"
    else if sig = "[C" then
      let len ← (d.get_array_length id).toOption
      let take := text_units len max_len 1
      let values ← leading_elements d id take
      let text := decode_chars (values.filterMap char_unit_of)
      return "char[" ++ toString len ++ "] UTF-16 " ++ quoted text max_len ++
        decoded_note take len "chars"
    else none

def handle_text (name : String) (id : UInt64) : String := name ++ " @0x" ++ hex id

def render_element (value : Value) (how : ByteRender) : String :=
  match value.data with
  | .object id =>
    if id = 0 then "null"
    else
      match (if value.tag = 115 then (d.get_string_value id).toOption else none) with
      | some s => quoted s 60
      | none =>
        match d.get_object_reference_type id with
        | .error _ => handle_text "(object)" id
        | .ok type_id =>
          (render_text_array d id (d.signature type_id) 60 how).getD
            (handle_text (decode_signature (d.signature type_id)) id)
  | other => (format_primitive t other).getD ""

/-- `strip_suffix("[]")` -/
def element_name (name : String) : String :=
  if "[]".toList.isSuffixOf name.toList then String.ofList (name.toList.dropLast.dropLast) else name

def render_array (id : UInt64) (name : String) (how : ByteRender) : Option String := do
  let len ← (d.get_array_length id).toOption
  let take := min len 16
  let elems ← (d.get_array_values id 0 take).toOption
  let more := if take < len then ", … +" ++ toString (len - take) ++ " more" else ""
  return element_name name ++ "[" ++ toString len ++ "]\x7b" ++
    ", ".intercalate (elems.map fun e => render_element t d e how) ++ more ++ "\x7d"

end TextArrays

section Calls

/-- The name of an object's class. -/
def type_name (d : Sight) (id : UInt64) (unread : String) : String :=
  match d.get_object_reference_type id with
  | .ok type_id => decode_signature (d.signature type_id)
  | .error _ => unread

def type_name_of (id : UInt64) : Ask String := peek fun d => type_name d id "object"

/-- The value of a call that was answered and did not throw. -/
def completed (r : Except Failure (Value × UInt64)) : Option Value :=
  match r with
  | .ok (ret, exc) => if exc = 0 then some ret else none
  | .error _ => none

def invoke_result (name : String) (ret : Value) (exc : UInt64) : Try Value :=
  if exc = 0 then pure ret
  else do
    let tn ← observe fun d => type_name d exc "an exception"
    throw (name ++ "() threw " ++ tn)

/-- The method of a wrapper class that boxes a value. -/
def value_of_method (d : Sight) (class_name : String) (v : Value) :
    Option (ClassId × MethodInfo) := do
  let copies ← (resolve_class_copies_by_dotted d class_name).toOption
  let type_id ← copies.head?
  let found ← (find_method_for_args d.toTypes type_id "valueOf" [v] (some true)).toOption
  found

def box_primitive (tid : ThreadId) (v : Value) : Ask (Option Value) :=
  match boxing_class v.data with
  | none => pure none
  | some class_name => do
    let found ← peek fun d => value_of_method d class_name v
    match found with
    | none => pure none
    | some (decl, m) =>
      let r ← invoke_method .boxing ⟨none, tid, decl, m.method_id, [v]⟩
      return completed r

def coerce_arg (tid : ThreadId) (params : List String) (i : ℕ) (v : Value) : Try Value :=
  if params[i]?.any is_reference && is_primitive v then do
    let boxed ← box_primitive tid v
    match boxed with
    | some boxed => pure boxed
    | none => throw (boxing_failed i (params[i]?.getD "a reference type"))
  else pure v

/-- The arguments from the `i`-th on. -/
def coerce_from (tid : ThreadId) (params : List String) (i : ℕ) : List Value → Try (List Value)
  | [] => pure []
  | v :: rest => do
    let w ← coerce_arg tid params i v
    let ws ← coerce_from tid params (i + 1) rest
    return w :: ws

def coerce_args (tid : ThreadId) (signature : String) (args : List Value) : Try (List Value) :=
  coerce_from tid (sig_param_types signature) 0 args

variable (purpose : Purpose)

/-- An invocation whose failure is told. -/
def send (call : Invocation) (name failed : String) : Try Value := do
  let r ← invoke_method purpose call
  match r with
  | .error e => throw (failed ++ e.text ++ invoke_hint e)
  | .ok (ret, exc) => invoke_result name ret exc

/-- An overload's arguments coerced, and the call sent. -/
def send_call (tid : ThreadId) (receiver : Option UInt64) (decl : ClassId) (m : MethodInfo)
    (name failed : String) (args : List Value) : Try Value := do
  let args ← coerce_args tid m.signature args
  send purpose ⟨receiver, tid, decl, m.method_id, args⟩ name failed

/-- A method without arguments; a call that fails or throws has no value. -/
def invoke_no_arg (id : UInt64) (type_id : ClassId) (tid : ThreadId) (method : String) :
    Ask (Option Value) := do
  let found ← peek fun d => (find_method_arity d.toTypes type_id method 0).toOption
  match found with
  | some (some (decl, m)) =>
    let r ← invoke_method purpose ⟨some id, tid, decl, m.method_id, []⟩
    return completed r
  | _ => pure none

/-- The object that a call returns. -/
def invoke_for_object (id : UInt64) (type_id : ClassId) (tid : ThreadId) (method : String) :
    Ask (Option UInt64) := do
  let v ← invoke_no_arg purpose id type_id tid method
  return v.bind as_object_id

def entry_pair (entry_value : Value) (tid : ThreadId) : Ask (Option (Value × Value)) :=
  match as_object_id entry_value with
  | none => pure none
  | some entry => do
    let etype ← peek fun d => (d.get_object_reference_type entry).toOption
    match etype with
    | none => pure none
    | some etype =>
      let k ← invoke_no_arg purpose entry etype tid "getKey"
      match k with
      | none => pure none
      | some k =>
        let v ← invoke_no_arg purpose entry etype tid "getValue"
        return v.map fun v => (k, v)

/-- The array of the entries of a map: `entrySet()`, then `toArray()` on the set. -/
def entry_array (id : UInt64) (type_id : ClassId) (tid : ThreadId) :
    Ask (Option UInt64) := do
  let set ← invoke_for_object purpose id type_id tid "entrySet"
  match set with
  | none => pure none
  | some set =>
    let set_type ← peek fun d => (d.get_object_reference_type set).toOption
    match set_type with
    | none => pure none
    | some set_type => invoke_for_object purpose set set_type tid "toArray"

end Calls

section Reads

/-- What was read ahead for an id; a read that failed is kept as `some none`. -/
structure ValueReads where
  strings : UInt64 → Option (Option String)
  types : UInt64 → Option (Option ClassId)
  boxed : UInt64 → Option (Option Value)

def ValueReads.none : ValueReads :=
  ⟨fun _ => Option.none, fun _ => Option.none, fun _ => Option.none⟩

variable (reads : ValueReads)

def string_contents (id : UInt64) : Ask (Option String) :=
  match reads.strings id with
  | some prefetched => pure prefetched
  | none => peek fun d => (d.get_string_value id).toOption

def reference_type (id : UInt64) : Ask (Option ClassId) :=
  match reads.types id with
  | some prefetched => pure prefetched
  | none => peek fun d => (d.get_object_reference_type id).toOption

def boxed_value (d : Sight) (id : UInt64) (field_id : ℕ) : Option Value :=
  (reads.boxed id).getD ((d.get_object_values id [field_id]).toOption.bind List.head?)

/-- The contents of a string, for a value that is one. -/
def contents_if (is_string : Bool) (id : UInt64) : Ask (Option String) :=
  if is_string then string_contents reads id else pure none

end Reads

section Rendering

variable (t : Printing)

inductive ToStringOutcome
  | rendered (s : String)
  | timed_out (ms : UInt64)
  | unavailable

def render_via_tostring (id : UInt64) (type_id : ClassId) (tid : ThreadId) (name : String)
    (max_len : ℕ) : Ask ToStringOutcome := do
  let found ← peek fun d => (find_method_arity d.toTypes type_id "toString" 0).toOption
  match found with
  | some (some (decl, m)) =>
    if m.signature = "()Ljava/lang/String;" then
      let r ← invoke_method .to_string ⟨some id, tid, decl, m.method_id, []⟩
      match r with
      | .error e => return e.timeout.elim .unavailable .timed_out
      | .ok (ret, exc) =>
        match (if exc = 0 then as_object_id ret else none) with
        | none => return .unavailable
        | some sid =>
          let s ← peek fun d => (d.get_string_value sid).toOption
          return s.elim .unavailable fun s => .rendered (name ++ " " ++ quoted s max_len)
    else return .unavailable
  | _ => return .unavailable

def BOXED_PRIMITIVES : List String :=
  ["java.lang.Integer", "java.lang.Long", "java.lang.Short", "java.lang.Byte",
    "java.lang.Character", "java.lang.Boolean", "java.lang.Float", "java.lang.Double"]

def boxed_value_field (d : Sight) (type_id : ClassId) (name : String) : Option ℕ :=
  if name ∈ BOXED_PRIMITIVES then do
    let found ← (find_field_info d.toTypes type_id "value" (some false)).toOption
    let field ← found
    return field.2.field_id
  else none

variable (reads : ValueReads)

def render_boxed_primitive (d : Sight) (id : UInt64) (type_id : ClassId) (name : String) :
    Option String := do
  let field_id ← boxed_value_field d type_id name
  let v ← boxed_value reads d id field_id
  format_primitive t v.data

/-- The contents of an array, or the primitive in a box. -/
def render_leaf (d : Sight) (id : UInt64) (type_id : ClassId) (sig name : String) (tag : UInt8)
    (max_len : ℕ) (how : ByteRender) : Option String :=
  (if tag = 91 then (render_text_array d id sig max_len how).or (render_array t d id name how)
  else none).or (render_boxed_primitive t reads d id type_id name)

def unfetched_text (name : String) (id : UInt64) (shape : LazyShape) : String :=
  handle_text name id ++ " ⏳ UNFETCHED " ++ lazy_link_kind shape ++ " — " ++ lazy_link_note shape

def timed_out_text (name : String) (id : UInt64) (ms : UInt64) : String :=
  handle_text name id ++ " ⚠️ toString() did not return within " ++ toString ms ++
    "ms — value not rendered. JDWP cannot cancel an invocation, so that thread is STILL " ++
    "executing it and its frames are unreadable until it finishes or you debug.continue. Use " ++
    "expand_objects:true instead, which reads fields and invokes nothing."

def render_resolved_object (id : UInt64) (type_id : ClassId) (sig name : String) (tag : UInt8)
    (thread_id : Option ThreadId) (max_len : ℕ) (how : ByteRender) : Ask String := do
  let leaf ← peek fun d => render_leaf t reads d id type_id sig name tag max_len how
  match leaf with
  | some s => return s
  | none =>
    let state ← peek fun d => hibernate_lazy_state (d.debuggee t) id type_id
    match state with
    | .unfetched shape => return unfetched_text name id shape
    | _ =>
      match thread_id with
      | none => return handle_text name id
      | some tid =>
        let out ← render_via_tostring id type_id tid name max_len
        match out with
        | .rendered s => return s
        | .timed_out ms => return timed_out_text name id ms
        | .unavailable => return handle_text name id

def render_object (id : UInt64) (tag : UInt8) (thread_id : Option ThreadId) (max_len : ℕ)
    (how : ByteRender) : Ask String := do
  let s ← contents_if reads (tag = 115) id
  match s with
  | some s => return quoted s max_len
  | none =>
    let type_id ← reference_type reads id
    match type_id with
    | none => return handle_text "(object)" id
    | some type_id =>
      let sig ← peek fun d => d.signature type_id
      let name := decode_signature sig
      let s ← contents_if reads (name = "java.lang.String") id
      match s with
      | some s => return quoted s max_len
      | none => render_resolved_object t reads id type_id sig name tag thread_id max_len how

def render_value_committed (v : Value) (thread_id : Option ThreadId) (max_len : ℕ)
    (how : ByteRender) : Ask String :=
  match v.data with
  | .object id =>
    if id = 0 then pure "null" else render_object t reads id v.tag thread_id max_len how
  | other => pure ((format_primitive t other).getD "(?)")

def render_value (v : Value) (thread_id : Option ThreadId) (max_len : ℕ) (how : ByteRender) :
    Ask String :=
  render_value_committed t .none v thread_id max_len how

end Rendering

end JavaDebug.Requests
