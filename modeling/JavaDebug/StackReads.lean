import JavaDebug.ReadTraces
import JavaDebug.ThreadDumps
import JavaDebug.ClassNames
import JavaDebug.Generics

/-!
A thread's stack as text. On the shallow path the metadata and the locals of all
frames that the filter lets through are read in waves before the first one is
rendered; a frame that finds nothing read ahead reads for itself. How a value is
rendered is any program put together from reads.
-/
namespace JavaDebug.StackReads

open Dialogue Connection ReadTraces
open WireReader (Value)
open RequestFraming (as_bytes i32_or)
open ThreadDumps (filter_of matches_filter)

section Locals

abbrev Method := ReferenceTypeId × MethodId

/-- One local in scope: how it is called, where it is read, and its declared type if that says
more than the value does. -/
structure ActiveLocal where
  name : String
  slot : VariableSlot
  declared : Option String

def decode_signature (sig : String) : String :=
  String.ofList (ClassNames.decode_signature sig.toList)

def informative_generic_type (signature : String) (generic : Option String) : Option String := do
  let rendered ← Generics.render_type (← generic)
  if rendered ≠ decode_signature signature then some rendered else none

def active_locals (var_table : List Variable) (index : UInt64) : List ActiveLocal :=
  (var_table.filter fun v =>
    v.code_index ≤ index ∧ index < v.code_index + v.length.toUInt64).map fun v =>
      { name := v.name
        slot := ⟨i32_or v.slot.toNat 0, (as_bytes v.signature).head?.getD 63⟩
        declared := informative_generic_type v.signature v.generic_signature }

/-- Of several entries at one index the last one counts. -/
def last_entry (best : Option LineTableEntry) (e : LineTableEntry) : Option LineTableEntry :=
  match best with
  | none => some e
  | some b => if b.line_code_index ≤ e.line_code_index then some e else some b

def line_at (lt : LineTable) (index : UInt64) : Option Int32 :=
  ((lt.lines.filter fun e => e.line_code_index ≤ index).foldl last_entry none).map
    LineTableEntry.line_number

def hex (n : UInt64) : String := String.ofList (Nat.toDigits 16 n.toNat)

end Locals

section Walk

/-- What the walk is given: case folding, the texts of errors, and how a value is rendered. -/
structure Renderer where
  to_lowercase : String → String
  error_text : JdwpError → String
  render_value : Value → Conn String
  reading : ∀ v, Program.Composed Reading (render_value v)

structure StackWalk where
  target_thread : ThreadId
  package_filter : Option String
  include_variables : Bool

/-- What was read ahead. A method without a line table is kept as `some none`. -/
structure StackPrefetch where
  lines : Method → Option (Option LineTable)
  vars : Method → Option (List Variable)
  values : ℕ → Option (List Value)

def StackPrefetch.default : StackPrefetch := ⟨fun _ => none, fun _ => none, fun _ => none⟩

structure StackWalkState where
  class_names : ReferenceTypeId → Option String
  hidden : ℕ
  pre : Option StackPrefetch

def class_name_of (class_id : ReferenceTypeId) (sig : JdwpResult String) : String :=
  ((sig.toOption.map decode_signature).filter fun s => s ≠ "").getD ("class@" ++ hex class_id)

def resolve_class_name (class_id : ReferenceTypeId) (cache : ReferenceTypeId → Option String) :
    Conn (String × (ReferenceTypeId → Option String)) :=
  match cache class_id with
  | some n => pure (n, cache)
  | none => do
    let sig ← (get_signature class_id).run
    let n := class_name_of class_id sig
    pure (n, fun id => if id = class_id then some n else cache id)

def source_line (m : Method) (index : UInt64) : Conn (Option Int32) := do
  let lt ← (get_line_table m.1 m.2).run
  pure (lt.toOption.bind fun lt => line_at lt index)

def frame_line (location : Location) (pre : Option StackPrefetch) : Conn (Option Int32) :=
  match pre.bind fun p => p.lines (location.class_id, location.method_id) with
  | some table => pure (table.bind fun lt => line_at lt location.index)
  | none => source_line (location.class_id, location.method_id) location.index

def frame_locals (location : Location) (pre : Option StackPrefetch) : Conn (List ActiveLocal) :=
  match pre.bind fun p => p.vars (location.class_id, location.method_id) with
  | some table => pure (active_locals table location.index)
  | none => do
    let read ← (get_variable_table location.class_id location.method_id).run
    pure ((read.toOption.map fun table => active_locals table location.index).getD [])

def find_method (methods : JdwpResult (List MethodInfo)) (id : MethodId) : Option MethodInfo :=
  methods.toOption.bind fun ms => ms.find? fun m => m.method_id = id

def frame_method_info (location : Location) (include_variables : Bool) (pre : Option StackPrefetch)
    : Conn (String × Option Int32 × List ActiveLocal) := do
  let methods ← (get_methods location.class_id).run
  match find_method methods location.method_id with
  | none => pure ("method@" ++ hex location.method_id, none, [])
  | some method =>
    let line ← frame_line location pre
    let active ← if include_variables then frame_locals location pre else pure []
    pure (method.name, line, active)

def flush_hidden (output : String) (hidden : ℕ) : String :=
  if 0 < hidden then output ++ "   … " ++ toString hidden ++ " frame(s) hidden\n" else output

variable (r : Renderer)

def render_locals (output : String) : List (ActiveLocal × Value) → Conn String
  | [] => pure output
  | (local_, value) :: rest => do
    let formatted_value ← r.render_value value
    let declared := match local_.declared with
      | some t => t ++ " "
      | none => ""
    render_locals (output ++ "     " ++ declared ++ local_.name ++ " = " ++ formatted_value ++ "\n")
      rest

/-- Without expansion. -/
def render_frame_variables (output : String) (target_thread : ThreadId) (frame_id : FrameId)
    (active : List ActiveLocal) (prefetched : Option (List Value)) : Conn String :=
  match prefetched with
  | some values => render_locals r output (active.zip values)
  | none => do
    match ← (get_frame_values target_thread frame_id (active.map ActiveLocal.slot)).run with
    | .ok values => render_locals r output (active.zip values)
    | .error _ => pure output

def shown (walk : StackWalk) (class_name : String) : Bool :=
  matches_filter r.to_lowercase walk.package_filter class_name

def render_stack_frame (walk : StackWalk) (output : String) (idx : ℕ) (frame : Frame)
    (state : StackWalkState) : Conn (String × StackWalkState) := do
  let (class_name, class_names) ← resolve_class_name frame.location.class_id state.class_names
  if shown r walk class_name = false then
    pure (output, { state with class_names := class_names, hidden := state.hidden + 1 })
  else
    let output := flush_hidden output state.hidden
    let state := { state with class_names := class_names, hidden := 0 }
    let (method_name, line, active) ←
      frame_method_info frame.location walk.include_variables state.pre
    let at_line := match line with
      | some l => ":" ++ toString l
      | none => ""
    let output := output ++ "#" ++ toString idx ++ " " ++ class_name ++ "." ++ method_name ++
      at_line ++ "\n"
    if walk.include_variables = false ∨ active = [] then pure (output, state)
    else
      let output ← render_frame_variables r output walk.target_thread frame.frame_id active
        (state.pre.bind fun p => p.values idx)
      pure (output, state)

def render_frames (walk : StackWalk) (output : String) (state : StackWalkState) :
    List (ℕ × Frame) → Conn (String × StackWalkState)
  | [] => pure (output, state)
  | (idx, frame) :: rest => do
    let (output, state) ← render_stack_frame r walk output idx frame state
    render_frames walk output state rest

end Walk

section Waves

def put_all {κ α β : Type} [DecidableEq κ] (entries : κ → Option α) (entry : β → Option α) :
    List (κ × β) → κ → Option α
  | [] => entries
  | (k, b) :: rest =>
    put_all (fun x => if x = k then (entry b).or (entries x) else entries x) entry rest

/-- The methods of the frames, each once. -/
def distinct_methods (frames : List (ℕ × Frame)) : List Method :=
  frames.foldl (fun pairs f =>
    let key := (f.2.location.class_id, f.2.location.method_id)
    if pairs.contains key then pairs else pairs ++ [key]) []

/-- The frames whose locals will be read, and what to ask for them. -/
def value_reads (thread_id : ThreadId) (vars : Method → Option (List Variable)) :
    List (ℕ × Frame) → Conn (List (ℕ × ThreadId × FrameId × List VariableSlot))
  | [] => pure []
  | (idx, frame) :: rest =>
    match vars (frame.location.class_id, frame.location.method_id) with
    | none => value_reads thread_id vars rest
    | some table => do
      let methods ← (get_methods frame.location.class_id).run
      let slots := (active_locals table frame.location.index).map ActiveLocal.slot
      let reads ← value_reads thread_id vars rest
      if (find_method methods frame.location.method_id).isNone ∨ slots = [] then pure reads
      else pure ((idx, thread_id, frame.frame_id, slots) :: reads)

def prefetch_stack (thread_id : ThreadId) (frames : List (ℕ × Frame)) (include_variables : Bool) :
    Conn StackPrefetch := do
  let pairs := distinct_methods frames
  let tables ← read_line_tables_independently pairs
  let lines := put_all StackPrefetch.default.lines (fun r => some r.toOption) (pairs.zip tables)
  if !include_variables then pure { StackPrefetch.default with lines := lines }
  else
    let tables ← read_variable_tables_independently pairs
    let vars := put_all StackPrefetch.default.vars Except.toOption (pairs.zip tables)
    let reads ← value_reads thread_id vars frames
    let answers ← read_frame_values_independently (reads.map Prod.snd)
    pure ⟨lines, vars, put_all StackPrefetch.default.values Except.toOption
      ((reads.map Prod.fst).zip answers)⟩

variable (r : Renderer)

/-- The frames that the filter lets through. -/
def surviving (walk : StackWalk) (class_names : ReferenceTypeId → Option String) :
    List (ℕ × Frame) → Conn (List (ℕ × Frame) × (ReferenceTypeId → Option String))
  | [] => pure ([], class_names)
  | (idx, frame) :: rest => do
    let (name, class_names) ← resolve_class_name frame.location.class_id class_names
    let (frames, class_names) ← surviving walk class_names rest
    pure (if shown r walk name then (idx, frame) :: frames else frames, class_names)

end Waves

section Tool

structure GetStackArgs where
  thread_id : Option ThreadId
  max_frames : ℕ
  include_variables : Bool
  package_filter : Option String
  expand_objects : Bool

/-- A call that expands nothing: it does not ask to, or the session is read-only. -/
structure ShallowCall where
  args : GetStackArgs
  last_thread : Option ThreadId
  read_only : Bool
  shallow : args.expand_objects = true → read_only = true

variable (r : Renderer)

def resolve_target_thread (explicit last_hit : Option ThreadId) : Conn (Except String ThreadId) :=
  match explicit.or last_hit with
  | some tid => pure (.ok tid)
  | none => do
    match ← get_all_threads.run with
    | .error e => pure (.error ("Failed to get threads: " ++ r.error_text e))
    | .ok [] => pure (.error "No threads found")
    | .ok (tid :: _) => pure (.ok tid)

def READ_ONLY_NOTE : String :=
  "🔒 read-only: showing shallow values — expand_objects invokes methods in the debuggee, " ++
    "which is refused here.\n"

def header (a : ShallowCall) (filter : Option String) (target_thread : ThreadId) (count : ℕ) :
    String :=
  (match filter with
    | none => "Stack (thread 0x" ++ hex target_thread ++ ", " ++ toString count ++ " frames):\n"
    | some f => "Stack (thread 0x" ++ hex target_thread ++ ", " ++ toString count ++
        " frames, filter \"" ++ f ++ "\"):\n") ++
    if a.args.expand_objects ∧ a.read_only then READ_ONLY_NOTE else ""

/-- What the walk begins with: what was read ahead, or nothing. -/
def walk_state (waves : Bool) (walk : StackWalk) (frames : List (ℕ × Frame)) :
    Conn StackWalkState :=
  if waves then do
    let _ ← read_signatures_independently (frames.map fun f => f.2.location.class_id)
    let (shown_frames, class_names) ← surviving r walk (fun _ => none) frames
    let pre ← prefetch_stack walk.target_thread shown_frames walk.include_variables
    pure { class_names := class_names, hidden := 0, pre := some pre }
  else pure { class_names := fun _ => none, hidden := 0, pre := none }

def walk_frames (waves : Bool) (walk : StackWalk) (output : String) (frames : List (ℕ × Frame)) :
    Conn String := do
  let state ← walk_state r waves walk frames
  let (output, state) ← render_frames r walk output state frames
  pure (flush_hidden output state.hidden)

/-- `waves` says whether the stack is read ahead, as the code does it. -/
def handle_get_stack (waves : Bool) (a : ShallowCall) : Conn (Except String String) := do
  match ← resolve_target_thread r a.args.thread_id a.last_thread with
  | .error e => pure (.error e)
  | .ok target_thread =>
    match ← (get_frames target_thread 0 (-1)).run with
    | .error e => pure (.error ("Failed to get frames: " ++ r.error_text e))
    | .ok all =>
      let frames := all.take a.args.max_frames
      if frames.isEmpty then
        pure (.ok ("Thread " ++ hex target_thread ++ " has no stack frames"))
      else do
        let filter := filter_of r.to_lowercase a.args.package_filter
        let walk : StackWalk := ⟨target_thread, filter, a.args.include_variables⟩
        let text ← walk_frames r waves walk (header a filter target_thread frames.length)
          (frames.zipIdx.map Prod.swap)
        pure (.ok text)

end Tool

end JavaDebug.StackReads
