import JavaDebug.WireReader

/-!
The composite event packet, as the debuggee lays it out and as the client reads
it. A packet carries no length per event: an event is read right when the one
before it was read to its last byte. Every kind the client decodes is read back
from its own bytes, so packets of such events are read back whole.
-/
namespace JavaDebug.CompositeEvents

open Octets Cursors EventLoop WireReader

section Events

structure Location where
  type_tag : UInt8
  class_id : UInt64
  method_id : UInt64
  index : UInt64
  deriving DecidableEq

structure FieldEvent where
  thread : UInt64
  location : Location
  ref_type : UInt64
  field_id : UInt64
  object : UInt64
  deriving DecidableEq

structure MonitorEvent where
  thread : UInt64
  location : Location
  monitor : UInt64
  deriving DecidableEq

inductive EventKind
  | vm_start (thread : UInt64)
  | vm_death
  | thread_start (thread : UInt64)
  | thread_death (thread : UInt64)
  | class_prepare (thread ref_type : UInt64) (signature : String) (status : Int32)
  | breakpoint (thread : UInt64) (location : Location)
  | step (thread : UInt64) (location : Location)
  | exception (thread : UInt64) (location : Location) (exception : UInt64)
      (catch_location : Option Location)
  | method_exit (thread : UInt64) (location : Location) (return_value : Option Value)
  | field_access (field : FieldEvent)
  | field_modification (field : FieldEvent) (new_value : Value)
  | monitor_contended_enter (monitor : MonitorEvent)
  | monitor_contended_entered (monitor : MonitorEvent)
  | monitor_wait (monitor : MonitorEvent) (timeout : Int64)
  | monitor_waited (monitor : MonitorEvent) (timed_out : Bool)
  | unknown (kind : UInt8)
  deriving DecidableEq

structure Event where
  kind : UInt8
  request_id : Int32
  details : EventKind
  deriving DecidableEq

structure EventSet where
  suspend_policy : UInt8
  events : List Event
  deriving DecidableEq

namespace event_kinds

@[match_pattern] abbrev SINGLE_STEP : UInt8 := 1
@[match_pattern] abbrev BREAKPOINT : UInt8 := 2
@[match_pattern] abbrev FRAME_POP : UInt8 := 3
@[match_pattern] abbrev EXCEPTION : UInt8 := 4
@[match_pattern] abbrev THREAD_START : UInt8 := 6
@[match_pattern] abbrev THREAD_DEATH : UInt8 := 7
@[match_pattern] abbrev CLASS_PREPARE : UInt8 := 8
@[match_pattern] abbrev CLASS_UNLOAD : UInt8 := 9
@[match_pattern] abbrev FIELD_ACCESS : UInt8 := 20
@[match_pattern] abbrev FIELD_MODIFICATION : UInt8 := 21
@[match_pattern] abbrev METHOD_ENTRY : UInt8 := 40
@[match_pattern] abbrev METHOD_EXIT : UInt8 := 41
@[match_pattern] abbrev METHOD_EXIT_WITH_RETURN_VALUE : UInt8 := 42
@[match_pattern] abbrev MONITOR_CONTENDED_ENTER : UInt8 := 43
@[match_pattern] abbrev MONITOR_CONTENDED_ENTERED : UInt8 := 44
@[match_pattern] abbrev MONITOR_WAIT : UInt8 := 45
@[match_pattern] abbrev MONITOR_WAITED : UInt8 := 46
@[match_pattern] abbrev VM_START : UInt8 := 90
@[match_pattern] abbrev VM_DEATH : UInt8 := 99

end event_kinds

end Events

section Parser

def read_location : Buf Location := do
  let type_tag ← read_u8
  let class_id ← read_u64
  let method_id ← read_u64
  let index ← read_u64
  pure ⟨type_tag, class_id, method_id, index⟩

def parse_breakpoint_event : Buf EventKind := do
  let thread ← read_u64
  let location ← read_location
  pure (.breakpoint thread location)

def parse_step_event : Buf EventKind := do
  let thread ← read_u64
  let location ← read_location
  pure (.step thread location)

def parse_vm_start_event : Buf EventKind := do
  let thread ← read_u64
  pure (.vm_start thread)

def parse_thread_start_event : Buf EventKind := do
  let thread ← read_u64
  pure (.thread_start thread)

def parse_thread_death_event : Buf EventKind := do
  let thread ← read_u64
  pure (.thread_death thread)

def parse_class_prepare_event : Buf EventKind := do
  let thread ← read_u64
  let _ref_type_tag ← read_u8
  let ref_type ← read_u64
  let signature ← read_string
  let status ← read_i32
  pure (.class_prepare thread ref_type signature status)

/-- The catch location of an exception that nothing catches; its type tag is not looked at. -/
def Location.absent (l : Location) : Prop := l.class_id = 0 ∧ l.method_id = 0 ∧ l.index = 0

instance (l : Location) : Decidable l.absent := inferInstanceAs (Decidable (_ ∧ _))

def caught_at (l : Location) : Option Location := if l.absent then none else some l

def parse_exception_event : Buf EventKind := do
  let thread ← read_u64
  let location ← read_location
  let _exc_tag ← read_u8
  let exception ← read_u64
  let catch_ ← read_location
  pure (.exception thread location exception (caught_at catch_))

def parse_field_event_head : Buf FieldEvent := do
  let thread ← read_u64
  let location ← read_location
  let _ref_type_tag ← read_u8
  let ref_type ← read_u64
  let field_id ← read_u64
  let _obj_tag ← read_u8
  let object ← read_u64
  pure ⟨thread, location, ref_type, field_id, object⟩

def parse_field_access_event : Buf EventKind := do
  let field ← parse_field_event_head
  pure (.field_access field)

def parse_field_modification_event : Buf EventKind := do
  let field ← parse_field_event_head
  let new_value ← read_value
  pure (.field_modification field new_value)

/-- The object stands before the location here. -/
def parse_monitor_event_head : Buf MonitorEvent := do
  let thread ← read_u64
  let _monitor_tag ← read_u8
  let monitor ← read_u64
  let location ← read_location
  pure ⟨thread, location, monitor⟩

def parse_monitor_wait_event : Buf EventKind := do
  let monitor ← parse_monitor_event_head
  let timeout ← read_i64
  pure (.monitor_wait monitor timeout)

def parse_monitor_waited_event : Buf EventKind := do
  let monitor ← parse_monitor_event_head
  let timed_out ← read_u8
  pure (.monitor_waited monitor (timed_out ≠ 0))

def parse_method_exit_event (with_return_value : Bool) : Buf EventKind := do
  let thread ← read_u64
  let location ← read_location
  if with_return_value then
    let return_value ← read_value
    pure (.method_exit thread location (some return_value))
  else pure (.method_exit thread location none)

open event_kinds

variable (kind : UInt8)

def parse_vm_lifecycle_event : Option (Buf EventKind) :=
  match kind with
  | VM_START => some parse_vm_start_event
  | VM_DEATH => some (pure .vm_death)
  | THREAD_START => some parse_thread_start_event
  | THREAD_DEATH => some parse_thread_death_event
  | CLASS_PREPARE => some parse_class_prepare_event
  | _ => none

def parse_monitor_event : Option (Buf EventKind) :=
  match kind with
  | MONITOR_CONTENDED_ENTER => some (.monitor_contended_enter <$> parse_monitor_event_head)
  | MONITOR_CONTENDED_ENTERED => some (.monitor_contended_entered <$> parse_monitor_event_head)
  | MONITOR_WAIT => some parse_monitor_wait_event
  | MONITOR_WAITED => some parse_monitor_waited_event
  | _ => none

def parse_stop_point_event : Buf EventKind :=
  match kind with
  | BREAKPOINT => parse_breakpoint_event
  | SINGLE_STEP => parse_step_event
  | EXCEPTION => parse_exception_event
  | FIELD_ACCESS => parse_field_access_event
  | FIELD_MODIFICATION => parse_field_modification_event
  | METHOD_EXIT => parse_method_exit_event false
  | METHOD_EXIT_WITH_RETURN_VALUE => parse_method_exit_event true
  | _ => pure (.unknown kind)

def parse_event_details : Buf EventKind :=
  ((parse_vm_lifecycle_event kind).or (parse_monitor_event kind)).getD
    (parse_stop_point_event kind)

def parse_event : Buf Event := do
  let kind ← read_u8
  let request_id ← read_i32
  let details ← parse_event_details kind
  pure ⟨kind, request_id, details⟩

def parse_event_set : Buf EventSet := do
  let suspend_policy ← read_u8
  let event_count ← read_i32
  let events ← times parse_event event_count.toInt.toNat
  pure ⟨suspend_policy, events⟩

/-- What follows the last event is not looked at. -/
def parse_event_packet (data : Bytes) : Except JdwpError EventSet :=
  (parse_event_set data).map Prod.fst

end Parser

section Layout

open RequestFraming (put_u64 put_i32)

inductive ObjectTag
  | object
  | string
  | thread
  | thread_group
  | class_loader
  | class_object
  | array
  deriving DecidableEq

open value_tags in
def ObjectTag.byte : ObjectTag → UInt8
  | .object => OBJECT
  | .string => STRING
  | .thread => THREAD
  | .thread_group => THREAD_GROUP
  | .class_loader => CLASS_LOADER
  | .class_object => CLASS_OBJECT
  | .array => ARRAY

/-- A value on the wire: its tag is that of its type, and any byte but zero is true. -/
inductive WireValue
  | byte (v : Int8)
  | char (v : UInt16)
  | float (bits : UInt32)
  | double (bits : UInt64)
  | int (v : Int32)
  | long (v : Int64)
  | short (v : Int16)
  | boolean (v : UInt8)
  | object (tag : ObjectTag) (id : UInt64)
  | void

namespace WireValue

open value_tags in
def value : WireValue → Value
  | byte v => ⟨BYTE, .byte v⟩
  | char v => ⟨CHAR, .char v⟩
  | float v => ⟨FLOAT, .float v⟩
  | double v => ⟨DOUBLE, .double v⟩
  | int v => ⟨INT, .int v⟩
  | long v => ⟨LONG, .long v⟩
  | short v => ⟨SHORT, .short v⟩
  | boolean v => ⟨BOOLEAN, .boolean (v ≠ 0)⟩
  | object tag id => ⟨tag.byte, .object id⟩
  | void => ⟨VOID, .void⟩

def untagged : WireValue → Bytes
  | byte v => put 1 v.toUInt8.toNat
  | char v => put 2 v.toNat
  | float v => put 4 v.toNat
  | double v => put 8 v.toNat
  | int v => put 4 v.toUInt32.toNat
  | long v => put 8 v.toUInt64.toNat
  | short v => put 2 v.toUInt16.toNat
  | boolean v => put 1 v.toNat
  | object _ id => put 8 id.toNat
  | void => []

def bytes (v : WireValue) : Bytes := put_u8 v.value.tag ++ v.untagged

end WireValue

def Location.bytes (l : Location) : Bytes :=
  put_u8 l.type_tag ++ (put_u64 l.class_id ++ (put_u64 l.method_id ++ put_u64 l.index))

/-- The catch location of an exception: absent, whatever its type tag, or a location. -/
inductive Catch
  | uncaught (type_tag : UInt8)
  | caught (location : Location) (present : ¬ location.absent)

namespace Catch

def on_wire : Catch → Location
  | uncaught type_tag => ⟨type_tag, 0, 0, 0⟩
  | caught location _ => location

def location : Catch → Option Location
  | uncaught _ => none
  | caught location _ => some location

end Catch

/-- What both field events start with, and the two tags that are not kept. -/
structure FieldHead where
  field : FieldEvent
  ref_type_tag : UInt8
  obj_tag : UInt8

def FieldHead.bytes (f : FieldHead) : Bytes :=
  put_u64 f.field.thread ++ (f.field.location.bytes ++ (put_u8 f.ref_type_tag ++
    (put_u64 f.field.ref_type ++ (put_u64 f.field.field_id ++ (put_u8 f.obj_tag ++
      put_u64 f.field.object)))))

structure MonitorHead where
  monitor : MonitorEvent
  monitor_tag : UInt8

def MonitorHead.bytes (m : MonitorHead) : Bytes :=
  put_u64 m.monitor.thread ++ (put_u8 m.monitor_tag ++ (put_u64 m.monitor.monitor ++
    m.monitor.location.bytes))

/-- An event of a kind that the client decodes, as the protocol lays it out. -/
inductive Payload
  | vm_start (thread : UInt64)
  | vm_death
  | thread_start (thread : UInt64)
  | thread_death (thread : UInt64)
  | class_prepare (thread : UInt64) (ref_type_tag : UInt8) (ref_type : UInt64)
      (signature : JdwpString) (status : Int32)
  | breakpoint (thread : UInt64) (location : Location)
  | step (thread : UInt64) (location : Location)
  | exception (thread : UInt64) (location : Location) (exc_tag : UInt8) (exc : UInt64)
      (catch_ : Catch)
  | method_exit (thread : UInt64) (location : Location)
  | method_exit_with_return_value (thread : UInt64) (location : Location) (value : WireValue)
  | field_access (field : FieldHead)
  | field_modification (field : FieldHead) (new_value : WireValue)
  | monitor_contended_enter (monitor : MonitorHead)
  | monitor_contended_entered (monitor : MonitorHead)
  | monitor_wait (monitor : MonitorHead) (timeout : Int64)
  | monitor_waited (monitor : MonitorHead) (timed_out : UInt8)

namespace Payload

open event_kinds in
def kind : Payload → UInt8
  | vm_start _ => VM_START
  | vm_death => VM_DEATH
  | thread_start _ => THREAD_START
  | thread_death _ => THREAD_DEATH
  | class_prepare _ _ _ _ _ => CLASS_PREPARE
  | breakpoint _ _ => BREAKPOINT
  | step _ _ => SINGLE_STEP
  | exception _ _ _ _ _ => EXCEPTION
  | method_exit _ _ => METHOD_EXIT
  | method_exit_with_return_value _ _ _ => METHOD_EXIT_WITH_RETURN_VALUE
  | field_access _ => FIELD_ACCESS
  | field_modification _ _ => FIELD_MODIFICATION
  | monitor_contended_enter _ => MONITOR_CONTENDED_ENTER
  | monitor_contended_entered _ => MONITOR_CONTENDED_ENTERED
  | monitor_wait _ _ => MONITOR_WAIT
  | monitor_waited _ _ => MONITOR_WAITED

def bytes : Payload → Bytes
  | vm_start thread | thread_start thread | thread_death thread => put_u64 thread
  | vm_death => []
  | class_prepare thread ref_type_tag ref_type signature status =>
    put_u64 thread ++ (put_u8 ref_type_tag ++ (put_u64 ref_type ++ (put_string signature ++
      put_i32 status)))
  | breakpoint thread location | step thread location | method_exit thread location =>
    put_u64 thread ++ location.bytes
  | exception thread location exc_tag exc catch_ =>
    put_u64 thread ++ (location.bytes ++ (put_u8 exc_tag ++ (put_u64 exc ++
      catch_.on_wire.bytes)))
  | method_exit_with_return_value thread location value =>
    put_u64 thread ++ (location.bytes ++ value.bytes)
  | field_access field => field.bytes
  | field_modification field new_value => field.bytes ++ new_value.bytes
  | monitor_contended_enter monitor | monitor_contended_entered monitor => monitor.bytes
  | monitor_wait monitor timeout => monitor.bytes ++ put_i64 timeout
  | monitor_waited monitor timed_out => monitor.bytes ++ put_u8 timed_out

/-- What the client is to make of it. -/
def details : Payload → EventKind
  | vm_start thread => .vm_start thread
  | vm_death => .vm_death
  | thread_start thread => .thread_start thread
  | thread_death thread => .thread_death thread
  | class_prepare thread _ ref_type signature status =>
    .class_prepare thread ref_type signature.val status
  | breakpoint thread location => .breakpoint thread location
  | step thread location => .step thread location
  | exception thread location _ exc catch_ =>
    .exception thread location exc catch_.location
  | method_exit thread location => .method_exit thread location none
  | method_exit_with_return_value thread location value =>
    .method_exit thread location (some value.value)
  | field_access field => .field_access field.field
  | field_modification field new_value => .field_modification field.field new_value.value
  | monitor_contended_enter monitor => .monitor_contended_enter monitor.monitor
  | monitor_contended_entered monitor => .monitor_contended_entered monitor.monitor
  | monitor_wait monitor timeout => .monitor_wait monitor.monitor timeout
  | monitor_waited monitor timed_out => .monitor_waited monitor.monitor (timed_out ≠ 0)

end Payload

structure WireEvent where
  request_id : Int32
  payload : Payload

namespace WireEvent

def bytes (e : WireEvent) : Bytes :=
  put_u8 e.payload.kind ++ (put_i32 e.request_id ++ e.payload.bytes)

def event (e : WireEvent) : Event := ⟨e.payload.kind, e.request_id, e.payload.details⟩

end WireEvent

/-- A packet of decoded kinds, of as many events as its count can say. -/
structure Composite where
  suspend_policy : UInt8
  events : List WireEvent
  counted : events.length < 2147483648

def Composite.bytes (c : Composite) : Bytes :=
  put_u8 c.suspend_policy ++ (put_i32 (Int32.ofNat c.events.length) ++
    c.events.flatMap WireEvent.bytes)

def Composite.set (c : Composite) : EventSet :=
  ⟨c.suspend_policy, c.events.map WireEvent.event⟩

end Layout

section RoundTrip

theorem reads_number {tag : UInt8} {k n : ℕ} {data : ValueData} (hwidth : value_width tag = .ok k)
    (hn : n < 256 ^ k) (hdata : data_of tag n = data) :
    Reads (read_value_by_tag tag) (put k n) data := by
  have hread := reads_fixed "value" (data_of tag) hn
  rw [hdata] at hread
  intro rest
  show (StateT.lift (value_width tag) (put k n ++ rest) >>= fun r =>
    fixed r.1 "value" (data_of tag) r.2) = _
  rw [hwidth]
  exact hread rest

theorem reads_value_by_tag (v : WireValue) :
    Reads (read_value_by_tag v.value.tag) v.untagged v.value.data := by
  cases v with
  | byte v =>
    exact reads_number rfl v.toUInt8.toNat_lt
      (congrArg ValueData.byte (i8_of_put v))
  | char v => exact reads_number rfl v.toNat_lt (congrArg ValueData.char UInt16.ofNat_toNat)
  | float bits => exact reads_number rfl bits.toNat_lt (congrArg ValueData.float UInt32.ofNat_toNat)
  | double bits =>
    exact reads_number rfl bits.toNat_lt (congrArg ValueData.double UInt64.ofNat_toNat)
  | int v =>
    exact reads_number rfl v.toUInt32.toNat_lt
      (congrArg ValueData.int (i32_of_put v))
  | long v =>
    exact reads_number rfl v.toUInt64.toNat_lt
      (congrArg ValueData.long (i64_of_put v))
  | short v =>
    exact reads_number rfl v.toUInt16.toNat_lt
      (congrArg ValueData.short (i16_of_put v))
  | boolean v =>
    refine reads_number rfl v.toNat_lt ?_
    show ValueData.boolean (UInt8.ofNat v.toNat ≠ 0) = .boolean (v ≠ 0)
    rw [UInt8.ofNat_toNat]
  | object tag id =>
    have hid : UInt64.ofNat id.toNat = id := UInt64.ofNat_toNat
    cases tag <;> exact reads_number rfl id.toNat_lt (congrArg ValueData.object hid)
  | void => exact reads_number (k := 0) (n := 0) rfl (by decide) rfl

theorem reads_value (v : WireValue) : Reads read_value v.bytes v.value :=
  (reads_u8 _).bind (reads_value_by_tag v).last

theorem reads_location (l : Location) : Reads read_location l.bytes l :=
  (reads_u8 _).bind ((reads_u64 _).bind ((reads_u64 _).bind (reads_u64 _).last))

theorem caught_at_on_wire (c : Catch) : caught_at c.on_wire = c.location := by
  cases c with
  | uncaught type_tag => exact if_pos ⟨rfl, rfl, rfl⟩
  | caught location present => exact if_neg present

theorem reads_field_head (f : FieldHead) : Reads parse_field_event_head f.bytes f.field :=
  (reads_u64 _).bind ((reads_location _).bind ((reads_u8 _).bind ((reads_u64 _).bind
    ((reads_u64 _).bind ((reads_u8 _).bind (reads_u64 _).last)))))

theorem reads_monitor_head (m : MonitorHead) : Reads parse_monitor_event_head m.bytes m.monitor :=
  (reads_u64 _).bind ((reads_u8 _).bind ((reads_u64 _).bind (reads_location _).last))

theorem reads_details (p : Payload) : Reads (parse_event_details p.kind) p.bytes p.details := by
  cases p with
  | vm_start thread => exact (reads_u64 thread).last
  | vm_death => exact Reads.pure _
  | thread_start thread => exact (reads_u64 thread).last
  | thread_death thread => exact (reads_u64 thread).last
  | class_prepare thread ref_type_tag ref_type signature status =>
    exact (reads_u64 thread).bind ((reads_u8 ref_type_tag).bind ((reads_u64 ref_type).bind
      ((reads_string signature).bind (reads_i32 status).last)))
  | breakpoint thread location => exact (reads_u64 thread).bind (reads_location location).last
  | step thread location => exact (reads_u64 thread).bind (reads_location location).last
  | exception thread location exc_tag exc catch_ =>
    have h : Reads parse_exception_event
        (Payload.exception thread location exc_tag exc catch_).bytes
        (.exception thread location exc (caught_at catch_.on_wire)) :=
      (reads_u64 thread).bind ((reads_location location).bind ((reads_u8 exc_tag).bind
        ((reads_u64 exc).bind (reads_location catch_.on_wire).last)))
    rwa [caught_at_on_wire] at h
  | method_exit thread location => exact (reads_u64 thread).bind (reads_location location).last
  | method_exit_with_return_value thread location value =>
    exact (reads_u64 thread).bind ((reads_location location).bind (reads_value value).last)
  | field_access field => exact (reads_field_head field).last
  | field_modification field new_value =>
    exact (reads_field_head field).bind (reads_value new_value).last
  | monitor_contended_enter monitor => exact (reads_monitor_head monitor).map _
  | monitor_contended_entered monitor => exact (reads_monitor_head monitor).map _
  | monitor_wait monitor timeout => exact (reads_monitor_head monitor).bind (reads_i64 timeout).last
  | monitor_waited monitor timed_out =>
    exact (reads_monitor_head monitor).bind (reads_u8 timed_out).last

/-- An event is read to its last byte, whatever follows. -/
theorem reads_event (e : WireEvent) : Reads parse_event e.bytes e.event :=
  (reads_u8 _).bind ((reads_i32 _).bind (reads_details e.payload).last)

theorem count_toNat {n : ℕ} (h : n < 2147483648) : (Int32.ofNat n).toInt.toNat = n := by
  rw [Int32.toInt_ofNat_of_lt h, Int.toNat_natCast]

theorem reads_set (c : Composite) : Reads parse_event_set c.bytes c.set := by
  refine (reads_u8 c.suspend_policy).bind ((reads_i32 (Int32.ofNat c.events.length)).bind ?_)
  rw [count_toNat c.counted]
  exact (Reads.times c.events fun e _ => reads_event e).last

/-- A packet of decoded kinds is read back whole, each event from exactly its own bytes. -/
theorem composite_round_trip (c : Composite) :
    parse_event_packet c.bytes = .ok c.set ∧
      ∀ e ∈ c.events, ∀ rest, parse_event (e.bytes ++ rest) = .ok (e.event, rest) := by
  refine ⟨?_, fun e _ => reads_event e⟩
  have hset := reads_set c []
  rw [List.append_nil] at hset
  rw [parse_event_packet, hset]
  rfl

end RoundTrip

end JavaDebug.CompositeEvents
