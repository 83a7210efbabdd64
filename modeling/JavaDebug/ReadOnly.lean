import JavaDebug.Connection

/-!
What a read-only connection puts on the wire. Tool calls, the evaluations of
the event pump and renderings are programs put together from the functions of
the connection, and any number of them run at once over clones of it, which
share one flag. Under a set flag each function comes to issue reads and the
allowed changes of state only: the mutating ones read the flag before they
build a packet.
-/
namespace JavaDebug.ReadOnly

open Dialogue Connection
open EventLoop (CommandPacket ReplyPacket)
open WireReader (Value)

section Commands

inductive Wire
  | read
  | mutation
  | allowed_state_change
  deriving DecidableEq

/-- Command set and command, as they stand in a packet. -/
abbrev WireCommand := UInt8 × UInt8

def command_of (p : CommandPacket) : WireCommand := (p.command_set, p.command)

def reads : List WireCommand :=
  [(1, 1), (1, 2), (1, 3), (1, 4), (1, 12), (1, 17), (1, 21), (2, 1), (2, 2), (2, 3), (2, 4),
    (2, 5), (2, 6), (2, 7), (2, 10), (2, 12), (2, 14), (2, 15), (2, 16), (3, 1), (6, 1), (6, 2),
    (6, 3), (6, 5), (9, 1), (9, 2), (9, 9), (10, 1), (11, 1), (11, 4), (11, 6), (11, 8), (11, 9),
    (11, 12), (13, 1), (13, 2), (16, 1), (16, 3)]

/-- `EventRequest.Set`, `Clear` and `ClearAllBreakpoints`. -/
def event_request_changes : List WireCommand := [(15, 1), (15, 2), (15, 3)]

/-- `VirtualMachine.Suspend` and `Resume`, `ThreadReference.Suspend` and `Resume`. -/
def suspends_and_resumes : List WireCommand := [(1, 8), (1, 9), (11, 2), (11, 3)]

def CREATE_STRING : WireCommand := (1, 11)
def DISPOSE : WireCommand := (1, 6)

def allowed_state_changes : List WireCommand :=
  event_request_changes ++ suspends_and_resumes ++ [CREATE_STRING, DISPOSE]

/-- The invocations on objects, classes and interfaces and `NewInstance`, the four `SetValues`,
`ForceEarlyReturn`, `RedefineClasses` and `PopFrames`. -/
def mutations : List WireCommand :=
  [(9, 6), (3, 3), (5, 1), (3, 4), (9, 3), (3, 2), (13, 3), (16, 2), (11, 14), (1, 18), (16, 4)]

/-- A command that is in no list counts as a mutation. -/
def classify (c : WireCommand) : Wire :=
  if c ∈ reads then .read
  else if c ∈ allowed_state_changes then .allowed_state_change
  else .mutation

theorem mutations_classified : ∀ c ∈ mutations, classify c = .mutation := by
  simp [mutations, classify, reads, allowed_state_changes, event_request_changes,
    suspends_and_resumes, CREATE_STRING, DISPOSE]

/-- The packet that an operation puts on the wire. -/
def sends : Op → Option CommandPacket
  | .issue p | .issue_within p _ => some p
  | _ => none

/-- An operation that puts no mutation on the wire. -/
def Harmless (o : Op) : Prop := ∀ p, sends o = some p → classify (command_of p) ≠ .mutation

/-- The flag is read as set; everything else may be answered in any way. -/
def Protected : (o : Op) → o.Answer → Prop
  | .load_read_only => fun b => b = true
  | _ => fun _ => True

end Commands

section Functions

/-- Under a set flag `m` puts no mutation on the wire. -/
abbrev Safe {α : Type} (m : Conn α) : Prop := m.Confined Harmless Protected

variable {α β : Type}

theorem harmless_quiet {o : Op} (h : sends o = none) : Harmless o := by
  intro p hp
  rw [h] at hp
  cases hp

theorem safe_ask {o : Op} (h : sends o = none) : Safe (ask o) :=
  Program.confined_perform (harmless_quiet h)

theorem safe_pure (a : α) : Safe (pure a) := Program.confined_pure a

theorem safe_issue {p : CommandPacket} (h : classify (command_of p) ≠ .mutation) :
    Safe (ask (.issue p)) := by
  refine Program.confined_perform fun q hq => ?_
  obtain rfl := Option.some.inj hq
  exact h

theorem safe_bind {m : Call α} {f : α → Call β} (hm : Safe m.run) (hf : ∀ a, Safe (f a).run) :
    Safe (m >>= f).run := by
  refine Program.Confined.bind hm fun r => ?_
  cases r with
  | ok a => exact hf a
  | error e => exact safe_pure _

theorem safe_lift {m : Conn α} (h : Safe m) : Safe (liftM m : Call α).run := h.map _

theorem safe_result (r : JdwpResult α) : Safe (ExceptT.mk (pure r) : Call α).run := safe_pure r

/-- Whatever follows the guard is not reached. -/
theorem safe_guarded (what : String) (f : Unit → Call α) :
    Safe (guard_mutation what >>= f).run := by
  refine ⟨harmless_quiet rfl, fun b hb => ?_⟩
  change b = true at hb
  subst hb
  exact trivial

theorem safe_send {p : CommandPacket} (h : classify (command_of p) ≠ .mutation) :
    Safe (send_command p).run :=
  safe_bind (safe_lift (safe_ask rfl)) fun _ =>
    safe_bind (safe_lift (safe_issue h)) fun _ => safe_result _

variable {set cmd : UInt8}

theorem safe_packet {f : CommandPacket → Conn β} {body : Octets.Bytes}
    (hf : ∀ id, Safe (f ⟨id, set, cmd, body⟩)) : Safe (packet set cmd body >>= f) :=
  ⟨harmless_quiet rfl, fun id _ => hf id⟩

theorem safe_packet_call {f : CommandPacket → Call β} {body : Octets.Bytes}
    (hf : ∀ id, Safe (f ⟨id, set, cmd, body⟩).run) :
    Safe ((liftM (packet set cmd body) : Call CommandPacket) >>= f).run :=
  ⟨harmless_quiet rfl, fun id _ => hf id⟩

theorem safe_command (h : classify (set, cmd) ≠ .mutation) (body : Octets.Bytes) (p : Decode α) :
    Safe (command set cmd body p).run :=
  safe_packet_call fun _ => safe_bind (safe_send h) fun _ => safe_result _

theorem safe_packets (bodies : List Octets.Bytes) {f : List CommandPacket → Conn β}
    (hf : ∀ l : List CommandPacket, (∀ p ∈ l, command_of p = (set, cmd)) → Safe (f l)) :
    Safe (bodies.mapM (packet set cmd) >>= f) := by
  induction bodies generalizing f with
  | nil => exact hf [] fun _ h => absurd h List.not_mem_nil
  | cons body bodies ih =>
    rw [List.mapM_cons, bind_assoc]
    refine safe_packet fun id => ?_
    rw [bind_assoc]
    refine ih fun l hl => ?_
    rw [pure_bind]
    refine hf _ fun p hp => ?_
    rcases List.mem_cons.mp hp with rfl | hp
    · rfl
    · exact hl p hp

theorem safe_issue_each {l : List CommandPacket} (h : ∀ p ∈ l, classify (command_of p) ≠ .mutation)
    : Safe (l.mapM fun p => of_loop <$> ask (.issue p)) := by
  induction l with
  | nil => exact safe_pure _
  | cons p l ih =>
    rw [List.mapM_cons]
    refine ((safe_issue (h p List.mem_cons_self)).map _).bind fun _ => ?_
    exact (ih fun q hq => h q (List.mem_cons_of_mem p hq)).bind fun _ => safe_pure _

theorem safe_wave (h : classify (set, cmd) ≠ .mutation) (bodies : List Octets.Bytes) (p : Decode α)
    : Safe (wave set cmd bodies p) := by
  refine safe_packets bodies fun l hl => ?_
  refine Program.Confined.bind ?_ fun _ => safe_pure _
  refine (safe_ask rfl).bind fun _ => ?_
  apply safe_issue_each
  intro q hq
  rw [hl q hq]
  exact h

theorem safe_generic_or_plain {read : Bool → Call α} (h : ∀ b, Safe (read b).run) :
    Safe (generic_or_plain read).run := by
  refine Program.Confined.bind (h true) fun r => ?_
  cases r with
  | ok a => exact safe_pure _
  | error e =>
    change Safe (ExceptT.run (ite _ _ _))
    split
    · exact h false
    · exact safe_pure _

/-- A read that the cache answers, or a command whose answer is put there. -/
theorem safe_cached {γ : Type} {read : Call γ} (hread : Safe read.run)
    (edit : γ → TypeCache → TypeCache) : Safe (do
      let a ← read
      edit_types (edit a)
      pure a : Call γ).run :=
  safe_bind hread fun _ => safe_bind (safe_lift (safe_ask rfl)) fun _ => safe_pure _

end Functions

section Callers

open Jdwp (SuspendPolicy WatchKind MonitorKind)
open RequestFraming (EventFilters StepDepth)

/-- The functions that the rest of the program calls on a connection. -/
inductive Offered : (β : Type) → Conn β → Prop
  | get_signature (ref_type_id : ReferenceTypeId) : Offered _ (get_signature ref_type_id).run
  | get_superclass (class_id : ClassId) : Offered _ (get_superclass class_id).run
  | get_methods (ref_type_id : ReferenceTypeId) : Offered _ (get_methods ref_type_id).run
  | get_fields (ref_type_id : ReferenceTypeId) : Offered _ (get_fields ref_type_id).run
  | get_interfaces (ref_type_id : ReferenceTypeId) : Offered _ (get_interfaces ref_type_id).run
  | get_class_loader (ref_type_id : ReferenceTypeId) : Offered _ (get_class_loader ref_type_id).run
  | get_modifiers (ref_type_id : ReferenceTypeId) : Offered _ (get_modifiers ref_type_id).run
  | get_source_file (ref_type_id : ReferenceTypeId) : Offered _ (get_source_file ref_type_id).run
  | get_source_debug_extension (ref_type_id : ReferenceTypeId) :
      Offered _ (get_source_debug_extension ref_type_id).run
  | implements_interface (type_id : ReferenceTypeId) (wanted : String) :
      Offered _ (implements_interface type_id wanted).run
  | instances (ref_type_id : ReferenceTypeId) (max_instances : Int32) :
      Offered _ (instances ref_type_id max_instances).run
  | get_line_table (ref_type_id : ReferenceTypeId) (method_id : MethodId) :
      Offered _ (get_line_table ref_type_id method_id).run
  | get_bytecodes (ref_type_id : ReferenceTypeId) (method_id : MethodId) :
      Offered _ (get_bytecodes ref_type_id method_id).run
  | get_variable_table (ref_type_id : ReferenceTypeId) (method_id : MethodId) :
      Offered _ (get_variable_table ref_type_id method_id).run
  | get_object_reference_type (object_id : ObjectId) :
      Offered _ (get_object_reference_type object_id).run
  | is_collected (object_id : ObjectId) : Offered _ (is_collected object_id).run
  | get_object_values (object_id : ObjectId) (field_ids : List FieldId) :
      Offered _ (get_object_values object_id field_ids).run
  | get_reference_values (ref_type_id : ReferenceTypeId) (field_ids : List FieldId) :
      Offered _ (get_reference_values ref_type_id field_ids).run
  | set_reference_values (class_id : ReferenceTypeId) (updates : List (FieldId × Value)) :
      Offered _ (set_reference_values class_id updates).run
  | set_object_values (object_id : ObjectId) (updates : List (FieldId × Value)) :
      Offered _ (set_object_values object_id updates).run
  | get_string_value (string_id : ObjectId) : Offered _ (get_string_value string_id).run
  | get_array_length (array_id : ObjectId) : Offered _ (get_array_length array_id).run
  | get_array_values (array_id : ObjectId) (first length : Int32) :
      Offered _ (get_array_values array_id first length).run
  | set_array_values (array_id : ObjectId) (first : Int32) (values : List Value) :
      Offered _ (set_array_values array_id first values).run
  | create_string (text : String) : Offered _ (create_string text).run
  | invoke_method (object_id : ObjectId) (thread_id : ThreadId) (class_id : ClassId)
      (method_id : MethodId) (args : List Value) :
      Offered _ (invoke_method object_id thread_id class_id method_id args).run
  | invoke_static_method (class_id : ClassId) (thread_id : ThreadId) (method_id : MethodId)
      (args : List Value) :
      Offered _ (invoke_static_method class_id thread_id method_id args).run
  | get_frames (thread_id : ThreadId) (start_frame length : Int32) :
      Offered _ (get_frames thread_id start_frame length).run
  | owned_monitors (thread_id : ThreadId) : Offered _ (owned_monitors thread_id).run
  | current_contended_monitor (thread_id : ThreadId) :
      Offered _ (current_contended_monitor thread_id).run
  | get_all_threads : Offered _ get_all_threads.run
  | get_thread_name (thread_id : ThreadId) : Offered _ (get_thread_name thread_id).run
  | get_thread_status (thread_id : ThreadId) : Offered _ (get_thread_status thread_id).run
  | suspend_count (thread_id : ThreadId) : Offered _ (suspend_count thread_id).run
  | suspend_all : Offered _ suspend_all.run
  | resume_all : Offered _ resume_all.run
  | resume_all_fully (probe_thread : ThreadId) (max_resumes : ℕ) :
      Offered _ (resume_all_fully probe_thread max_resumes).run
  | suspend_thread (thread_id : ThreadId) : Offered _ (suspend_thread thread_id).run
  | resume_thread (thread_id : ThreadId) : Offered _ (resume_thread thread_id).run
  | force_early_return (thread_id : ThreadId) (value : Value) :
      Offered _ (force_early_return thread_id value).run
  | get_this_object (thread_id : ThreadId) (frame_id : FrameId) :
      Offered _ (get_this_object thread_id frame_id).run
  | get_frame_values (thread_id : ThreadId) (frame_id : FrameId) (slots : List VariableSlot) :
      Offered _ (get_frame_values thread_id frame_id slots).run
  | set_frame_value (thread_id : ThreadId) (frame_id : FrameId) (slot : Int32) (value : Value) :
      Offered _ (set_frame_value thread_id frame_id slot value).run
  | pop_frames (thread_id : ThreadId) (frame_id : FrameId) :
      Offered _ (pop_frames thread_id frame_id).run
  | get_version : Offered _ get_version.run
  | can_get_method_return_values : Offered _ can_get_method_return_values.run
  | capabilities : Offered _ capabilities.run
  | capabilities_new : Offered _ capabilities_new.run
  | instance_counts (ref_types : List ReferenceTypeId) : Offered _ (instance_counts ref_types).run
  | redefine_classes (defs : List (ReferenceTypeId × Octets.Bytes)) :
      Offered _ (redefine_classes defs).run
  | dispose : Offered _ dispose.run
  | classes_by_signature (signature : String) : Offered _ (classes_by_signature signature).run
  | all_classes : Offered _ all_classes.run
  | set_breakpoint (class_id : ReferenceTypeId) (method_id : MethodId) (bytecode_index : UInt64)
      (suspend_policy : SuspendPolicy) :
      Offered _ (set_breakpoint class_id method_id bytecode_index suspend_policy).run
  | set_breakpoint_ex (class_id : ReferenceTypeId) (method_id : MethodId)
      (bytecode_index : UInt64) (suspend_policy : SuspendPolicy) (filters : EventFilters) :
      Offered _ (set_breakpoint_ex class_id method_id bytecode_index
        suspend_policy filters).run
  | clear_breakpoint (request_id : Int32) : Offered _ (clear_breakpoint request_id).run
  | set_class_prepare (class_pattern : String) (suspend_policy : SuspendPolicy) :
      Offered _ (set_class_prepare class_pattern suspend_policy).run
  | clear_class_prepare (request_id : Int32) : Offered _ (clear_class_prepare request_id).run
  | set_exception_request (ref_type : Option ReferenceTypeId) (caught uncaught : Bool)
      (suspend_policy : SuspendPolicy) :
      Offered _ (set_exception_request ref_type caught uncaught suspend_policy).run
  | set_exception_request_ex (ref_type : Option ReferenceTypeId) (caught uncaught : Bool)
      (suspend_policy : SuspendPolicy) (filters : EventFilters) :
      Offered _ (set_exception_request_ex ref_type caught uncaught
        suspend_policy filters).run
  | clear_exception_request (request_id : Int32) :
      Offered _ (clear_exception_request request_id).run
  | set_field_watch (ref_type : ReferenceTypeId) (field_id : FieldId) (kind : WatchKind)
      (suspend_policy : SuspendPolicy) :
      Offered _ (set_field_watch ref_type field_id kind suspend_policy).run
  | set_field_watch_ex (ref_type : ReferenceTypeId) (field_id : FieldId) (kind : WatchKind)
      (suspend_policy : SuspendPolicy) (filters : EventFilters) :
      Offered _ (set_field_watch_ex ref_type field_id kind suspend_policy filters).run
  | clear_field_watch (request_id : Int32) (kind : WatchKind) :
      Offered _ (clear_field_watch request_id kind).run
  | set_method_exit_request (class_pattern : String) (with_return_value : Bool)
      (suspend_policy : SuspendPolicy) (count : Option Int32) (thread : Option ThreadId) :
      Offered _ (set_method_exit_request class_pattern with_return_value suspend_policy
        count thread).run
  | set_method_exit_request_ex (class_pattern : String) (with_return_value : Bool)
      (suspend_policy : SuspendPolicy) (exclude : List String) (filters : EventFilters) :
      Offered _ (set_method_exit_request_ex class_pattern with_return_value
        suspend_policy exclude filters).run
  | clear_method_exit_request (request_id : Int32) (with_return_value : Bool) :
      Offered _ (clear_method_exit_request request_id with_return_value).run
  | set_monitor_request (kind : MonitorKind) (suspend_policy : SuspendPolicy)
      (monitor_class : Option ReferenceTypeId) (filters : EventFilters) :
      Offered _ (set_monitor_request kind suspend_policy monitor_class filters).run
  | clear_monitor_request (request_id : Int32) (kind : MonitorKind) :
      Offered _ (clear_monitor_request request_id kind).run
  | set_step (thread : ThreadId) (depth : StepDepth) : Offered _ (set_step thread depth).run
  | set_step_ex (thread : ThreadId) (depth : StepDepth) (exclude only : List String) :
      Offered _ (set_step_ex thread depth exclude only).run
  | clear_step (request_id : Int32) : Offered _ (clear_step request_id).run
  | clear_all_breakpoints : Offered _ clear_all_breakpoints.run
  | read_signatures_independently (ref_type_ids : List ReferenceTypeId) :
      Offered _ (read_signatures_independently ref_type_ids)
  | read_line_tables_independently (pairs : List (ReferenceTypeId × MethodId)) :
      Offered _ (read_line_tables_independently pairs)
  | read_variable_tables_independently (pairs : List (ReferenceTypeId × MethodId)) :
      Offered _ (read_variable_tables_independently pairs)
  | read_reference_types_independently (object_ids : List ObjectId) :
      Offered _ (read_reference_types_independently object_ids)
  | read_object_values_independently (reads : List (ObjectId × List FieldId)) :
      Offered _ (read_object_values_independently reads)
  | read_string_values_independently (string_ids : List ObjectId) :
      Offered _ (read_string_values_independently string_ids)
  | read_thread_names_independently (thread_ids : List ThreadId) :
      Offered _ (read_thread_names_independently thread_ids)
  | read_thread_statuses_independently (thread_ids : List ThreadId) :
      Offered _ (read_thread_statuses_independently thread_ids)
  | read_frame_values_independently (reads : List (ThreadId × FrameId × List VariableSlot)) :
      Offered _ (read_frame_values_independently reads)
  | is_read_only : Offered _ is_read_only
  | set_read_only (b : Bool) : Offered _ (set_read_only b)
  | next_id : Offered _ next_id
  | packets_sent : Offered _ packets_sent
  | invoke_timeout_ms : Offered _ invoke_timeout_ms
  | set_invoke_timeout_ms (ms : UInt64) : Offered _ (set_invoke_timeout_ms ms)
  | round_trips : Offered _ round_trips
  | recv_event : Offered _ recv_event

/-- A tool call, an evaluation or a rendering: it may compute anything from what the functions
of the connection return, but has no other way to the wire. -/
abbrev Caller (m : Conn Unit) : Prop := Program.Composed Offered m

end Callers

section Offered

variable (id : ReferenceTypeId)

theorem safe_get_signature : Safe (get_signature id).run := by
  refine safe_bind (safe_lift (safe_ask rfl)) fun cache => ?_
  split
  · exact safe_pure _
  · exact safe_cached (safe_command (by decide) _ _) _

theorem safe_get_superclass (id : ClassId) : Safe (get_superclass id).run := by
  refine safe_bind (safe_lift (safe_ask rfl)) fun cache => ?_
  split
  · exact safe_pure _
  · exact safe_pure _
  · exact safe_cached (safe_command (by decide) _ _) _

theorem safe_get_methods : Safe (get_methods id).run := by
  refine safe_bind (safe_lift (safe_ask rfl)) fun cache => ?_
  split
  · exact safe_pure _
  · refine safe_cached (safe_generic_or_plain fun b => ?_) _
    cases b <;> exact safe_command (by decide) _ _

theorem safe_get_fields : Safe (get_fields id).run := by
  refine safe_bind (safe_lift (safe_ask rfl)) fun cache => ?_
  split
  · exact safe_pure _
  · refine safe_cached (safe_generic_or_plain fun b => ?_) _
    cases b <;> exact safe_command (by decide) _ _

theorem safe_get_interfaces : Safe (get_interfaces id).run := by
  refine safe_bind (safe_lift (safe_ask rfl)) fun cache => ?_
  split
  · exact safe_pure _
  · exact safe_cached (safe_command (by decide) _ _) _

theorem safe_get_variable_table (method_id : MethodId) :
    Safe (get_variable_table id method_id).run := by
  refine safe_generic_or_plain fun b => ?_
  cases b <;> exact safe_command (by decide) _ _

theorem safe_get_source_debug_extension : Safe (get_source_debug_extension id).run := by
  refine safe_packet_call fun n => safe_bind (safe_send (by simp [command_of]; decide)) fun r => ?_
  split
  · exact safe_pure _
  · exact safe_result _

theorem safe_implements_from (wanted : String) (steps : ℕ) (seen queue : List ReferenceTypeId) :
    Safe (implements_from wanted seen steps queue) := by
  induction steps generalizing seen queue with
  | zero => cases queue <;> exact safe_pure _
  | succ steps ih =>
    cases queue with
    | nil => exact safe_pure _
    | cons current queue =>
      unfold implements_from
      split
      · exact ih _ _
      · refine (safe_get_signature current).bind fun sig => ?_
        split
        · exact safe_pure _
        · refine (safe_get_interfaces current).bind fun ifaces => ?_
          exact (safe_get_superclass current).bind fun parent => ih _ _

theorem safe_instances (max_instances : Int32) : Safe (instances id max_instances).run := by
  unfold instances
  split
  · exact safe_result _
  · exact safe_command (by decide) _ _

theorem safe_count_or_zero (thread_id : ThreadId) : Safe (suspend_count_or_zero thread_id) :=
  (safe_command (by decide) _ _).bind fun _ => safe_pure _

theorem safe_resume_all_fully (probe_thread : ThreadId) (resumes issued : ℕ) :
    Safe (resume_all_fully_from probe_thread issued resumes).run := by
  induction resumes generalizing issued with
  | zero => exact safe_bind (safe_lift (safe_count_or_zero _)) fun _ => safe_pure _
  | succ resumes ih =>
    refine safe_bind (safe_command (by decide) _ _) fun _ => ?_
    refine safe_bind (safe_lift (safe_count_or_zero _)) fun left => ?_
    split
    · exact safe_pure _
    · exact ih _

theorem safe_collect_wanted (ids wanted : List ReferenceTypeId) :
    Safe (collect_wanted wanted ids) := by
  induction ids generalizing wanted with
  | nil => exact safe_pure _
  | cons id ids ih => exact (safe_ask rfl).bind fun _ => ih _

theorem safe_read_signatures (ids : List ReferenceTypeId) :
    Safe (read_signatures_independently ids) := by
  have hanswers : Safe (ids.mapM known_signature) := by
    apply Program.confined_mapM
    intro id
    refine (safe_ask rfl).bind fun cache => ?_
    split <;> exact safe_pure _
  refine (safe_collect_wanted ids []).bind fun wanted => ?_
  split
  · refine Program.Confined.bind (safe_wave (by decide) _ _) fun _ => ?_
    exact (safe_ask rfl).bind fun _ => hanswers
  · exact hanswers

theorem safe_variable_tables (pairs : List (ReferenceTypeId × MethodId)) :
    Safe (read_variable_tables_independently pairs) := by
  refine Program.Confined.bind (safe_wave (by decide) _ _) fun generic => ?_
  dsimp only
  split
  · exact safe_pure _
  · exact Program.Confined.bind (safe_wave (by decide) _ _) fun _ => safe_pure _

theorem offered_safe (β : Type) (m : Conn β) (h : Offered β m) : Safe m := by
  cases h
  case get_signature => exact safe_get_signature _
  case get_superclass => exact safe_get_superclass _
  case get_methods => exact safe_get_methods _
  case get_fields => exact safe_get_fields _
  case get_interfaces => exact safe_get_interfaces _
  case get_variable_table => exact safe_get_variable_table _ _
  case get_source_debug_extension => exact safe_get_source_debug_extension _
  case implements_interface => exact (safe_implements_from _ _ _ _).map _
  case instances => exact safe_instances _ _
  case current_contended_monitor =>
    exact safe_bind (safe_command (by decide) _ _) fun _ => safe_pure _
  case can_get_method_return_values =>
    exact safe_bind (safe_command (by decide) _ _) fun _ => safe_pure _
  case resume_all_fully => exact safe_resume_all_fully _ _ _
  case read_signatures_independently => exact safe_read_signatures _
  case read_variable_tables_independently => exact safe_variable_tables _
  all_goals
    first
    | exact safe_guarded _ _
    | exact safe_command (by decide) _ _
    | exact safe_wave (by decide) _ _
    | exact safe_ask rfl

end Offered

section Sharing

/-- What clones of one connection share. -/
structure Shared where
  read_only : Bool
  next_id : UInt32
  invoke_timeout_ms : UInt64
  round_trips : UInt32
  types : TypeCache

/-- What the debuggee and the clock contribute to one operation. -/
structure Outcome where
  reply : EventLoop.JdwpResult ReplyPacket
  in_time : Bool
  event : Option Jdwp.EventSet

def serve (e : Outcome) (s : Shared) : (o : Op) → o.Answer × Shared
  | .load_read_only => (s.read_only, s)
  | .store_read_only b => ((), { s with read_only := b })
  | .next_id => (s.next_id, { s with next_id := s.next_id + 1 })
  | .packets_sent => (if s.next_id = 0 then (0 : UInt32) else s.next_id - 1, s)
  | .load_invoke_timeout => (s.invoke_timeout_ms, s)
  | .store_invoke_timeout ms => ((), { s with invoke_timeout_ms := ms })
  | .load_round_trips => (s.round_trips, s)
  | .add_round_trips n => ((), { s with round_trips := s.round_trips + n })
  | .load_types => (s.types, s)
  | .edit_types f => ((), { s with types := f s.types })
  | .issue _ => (e.reply, s)
  | .issue_within _ _ => (if e.in_time then some e.reply else none, s)
  | .recv_event => (e.event, s)

theorem serve_protected (e : Outcome) (s : Shared) (o : Op) (h : s.read_only = true) :
    Protected o (serve e s o).1 := by
  cases o with
  | load_read_only => exact h
  | _ => exact trivial

/-- A call that begins while `read_only` is set, and stays set, puts no mutation on the wire. -/
theorem read_only_calls_mutate_nothing (p : Pool wire Shared)
    (turns : List (Turn wire Shared Outcome)) (hcalls : ∀ m, .begin m ∈ turns → Caller m)
    (hset : p.Always serve (fun s => s.read_only = true) turns) :
    ∀ x ∈ (p.run serve turns).log.drop p.log.length, p.tasks.length ≤ x.task →
      ∀ packet, sends x.op = some packet →
        (command_of packet ∈ reads ∨ command_of packet ∈ event_request_changes ∨
          command_of packet ∈ suspends_and_resumes ∨ command_of packet = CREATE_STRING ∨
          command_of packet = DISPOSE) ∧ command_of packet ∉ mutations := by
  intro x hx hnew packet hsend
  have hwithin := Pool.within_run serve_protected (Pool.within_future p) turns
    (fun m hm => (hcalls m hm).confined offered_safe) hset
  have hclass := hwithin.log x hx hnew packet hsend
  refine ⟨?_, fun hm => hclass (mutations_classified _ hm)⟩
  unfold classify at hclass
  split at hclass
  · exact Or.inl ‹_›
  split at hclass
  · rename_i h
    simpa [allowed_state_changes, or_assoc] using Or.inr (a := command_of packet ∈ reads) h
  · exact absurd rfl hclass

def no_types : TypeCache :=
  ⟨fun _ => none, fun _ => none, fun _ => none, fun _ => .unknown, fun _ => none⟩

/-- A fresh connection that is read-only, before any call. -/
def protected_connection : Pool wire Shared := ⟨⟨true, 1, 2000, 0, no_types⟩, [], []⟩

/-- An invocation, and then a resume whatever came of it. -/
def invoke_and_resume : Conn Unit := do
  let _ ← (invoke_method 1 2 3 4 []).run
  let _ ← resume_all.run

def invoked_and_resumed : List (Turn wire Shared Outcome) :=
  .begin invoke_and_resume ::
    List.replicate 4 (.advance 0 ⟨.ok ⟨1, 0, []⟩, true, none⟩)

theorem read_only_invocation_refused :
    ((protected_connection.run serve invoked_and_resumed).log.filterMap
      fun x => (sends x.op).map command_of) = [(1, 9)] ∧
    ∀ x ∈ (protected_connection.run serve invoked_and_resumed).log,
      ∀ packet, sends x.op = some packet → command_of packet ∉ mutations := by
  refine ⟨by decide, fun x hx packet hsend => ?_⟩
  refine (read_only_calls_mutate_nothing protected_connection invoked_and_resumed
    (fun m hm => ?_) ⟨rfl, rfl, rfl, rfl, rfl, rfl⟩ x hx (Nat.zero_le _) packet hsend).2
  obtain hm | hm := List.mem_cons.mp hm
  · obtain rfl := Turn.begin.inj hm
    exact .call _ _ (.invoke_method 1 2 3 4 []) fun _ => .call _ _ .resume_all fun _ => .done ()
  · cases List.eq_of_mem_replicate hm

end Sharing

end JavaDebug.ReadOnly
