import JavaDebug.Runs

/-!
How a caller's text becomes a thread or an object. A `thread_id` is read to an
optional id, so a text that cannot be read and an absent one look the same from
then on; an `instance_id` that cannot be read is an error. The arming tools turn
the two texts into the filters of every request; the tools that act on one
thread turn the first into their target.
-/
namespace JavaDebug.Addressing

open Jdwp StopPoints Arming Runs

section Texts

/-- The Unicode `White_Space` property, which `str::trim` removes from both ends. -/
def is_whitespace (c : Char) : Bool :=
  let n := c.toNat
  (9 ≤ n ∧ n ≤ 13) || n = 32 || n = 133 || n = 160 || n = 5760 || (8192 ≤ n ∧ n ≤ 8202) ||
    n = 8232 || n = 8233 || n = 8239 || n = 8287 || n = 12288

def trim (s : List Char) : List Char :=
  ((s.dropWhile is_whitespace).reverse.dropWhile is_whitespace).reverse

def hex_digit (c : Char) : Option ℕ :=
  let n := c.toNat
  if 48 ≤ n ∧ n ≤ 57 then some (n - 48)
  else if 97 ≤ n ∧ n ≤ 102 then some (n - 87)
  else if 65 ≤ n ∧ n ≤ 70 then some (n - 55)
  else none

def hex_value (acc : ℕ) : List Char → Option ℕ
  | [] => some acc
  | c :: rest =>
    match hex_digit c with
    | some d => hex_value (acc * 16 + d) rest
    | none => none

def U64_VALUES : ℕ := 18446744073709551616

def bounded (n : ℕ) : Option ℕ := if n < U64_VALUES then some n else none

/-- `u64::from_str_radix(s, 16)`: one leading `+` is taken, an empty number is not. -/
def from_str_radix_16 (s : List Char) : Option ℕ :=
  let digits := if s.head? = some '+' then s.tail else s
  if digits = [] then none else (hex_value 0 digits).bind bounded

/-- `trim_start_matches("0x")` removes the prefix as often as it is there. -/
def trim_start_0x : List Char → List Char
  | '0' :: 'x' :: rest => trim_start_0x rest
  | s => s

def parse_thread_id (s : Option String) : Option ThreadId :=
  s.bind fun s => from_str_radix_16 (trim_start_0x s.toList)

def strip_prefix : List Char → List Char → Option (List Char)
  | [], s => some s
  | p :: ps, c :: s => if p = c then strip_prefix ps s else none
  | _ :: _, [] => none

def parse_object_handle (token : List Char) : Option ObjectId :=
  let lower := strip_prefix ['@', '0', 'x'] token
  let upper := strip_prefix ['@', '0', 'X'] token
  (lower.or upper).bind fun hex =>
    if hex = [] || !(hex.all fun c => (hex_digit c).isSome) then none else from_str_radix_16 hex

/-- Why a call is turned away on its texts alone. -/
inductive Refusal
  | bad_thread_id (raw : String)
  | thread_id_missing
  | not_an_object_handle (text : List Char)
  | instance_filter_on_method_exit
  | instance_filter_on_monitor
  | suspending_monitor_without_thread
  | no_thread
  | no_threads_found
  | failed_to_get_threads (e : JdwpError)
  | nothing_held
  | which_thread
  deriving DecidableEq

def parse_bare_handle (t : List Char) : Option ObjectId :=
  let lower := strip_prefix ['0', 'x'] t
  let upper := strip_prefix ['0', 'X'] t
  (lower.or upper).bind from_str_radix_16

def parse_instance_filter (raw : Option String) : Except Refusal (Option ObjectId) :=
  match (raw.map fun s => trim s.toList).filter fun t => t ≠ [] with
  | none => .ok none
  | some t =>
    match (parse_object_handle t).or (parse_bare_handle t) with
    | some id => .ok (some id)
    | none => .error (.not_an_object_handle t)

def is_blank (raw : Option String) : Bool := raw.all fun s => trim s.toList = []

end Texts

section Arming

/-- The two texts by which a caller narrows a stop point. -/
structure Texts where
  thread_id : Option String
  instance_id : Option String
  deriving DecidableEq

/-- What a request is narrowed to, apart from its count. -/
structure Scope where
  thread : Option ThreadId
  instance_ : Option ObjectId
  deriving DecidableEq

def refuse_instance_filter_on_method_exit (instance_filter : Option ObjectId) :
    Except Refusal Unit :=
  if instance_filter.isNone then .ok () else .error .instance_filter_on_method_exit

def refuse_instance_filter_on_monitor (instance_id : Option String) : Except Refusal Unit :=
  if is_blank instance_id then .ok () else .error .instance_filter_on_monitor

def refuse_suspending_monitor_without_thread (trace : Bool) (thread_id : Option String) :
    Except Refusal Unit :=
  if trace || !is_blank thread_id then .ok () else .error .suspending_monitor_without_thread

/-- The filters that the arming tool of a kind reads from its texts. -/
def filters_from (kind : StopPointKind) (trace : Bool) (texts : Texts) : Except Refusal Scope :=
  match kind with
  | .line | .exception | .watchpoint => do
    let instance_filter ← parse_instance_filter texts.instance_id
    pure ⟨parse_thread_id texts.thread_id, instance_filter⟩
  | .method_exit => do
    let instance_filter ← parse_instance_filter texts.instance_id
    refuse_instance_filter_on_method_exit instance_filter
    pure ⟨parse_thread_id texts.thread_id, instance_filter⟩
  | .monitor => do
    refuse_instance_filter_on_monitor texts.instance_id
    refuse_suspending_monitor_without_thread trace texts.thread_id
    pure ⟨parse_thread_id texts.thread_id, none⟩

/-- What an arming tool is asked for besides the options that all of them take. -/
inductive Target
  | line (patterns : List String) (line : Option ℤ) (method : Option String)
      (index : List (String × ClassId)) (max_classes : ℕ)
  | exception (targets : List (String × Option ClassId)) (caught uncaught : Bool)
      (max_classes : ℕ)
  | field (targets : List (String × ClassId)) (field_name : String) (kinds : List WatchKind)
      (max_classes : ℕ)
  | method_exit (patterns : List String) (method : Option String) (with_return_value : Bool)
      (exclude : List String)
  | monitor (kinds : List MonitorKind) (arm : MonitorArm)

def Target.kind : Target → StopPointKind
  | .line _ _ _ _ _ => .line
  | .exception _ _ _ _ => .exception
  | .field _ _ _ _ => .watchpoint
  | .method_exit _ _ _ _ => .method_exit
  | .monitor _ _ => .monitor

def Target.call (o : StopOptions) : Target → Call
  | .line patterns at_line method index cap =>
    .set_line_stop patterns at_line method o index cap
  | .exception targets caught uncaught cap => .set_exception_stop targets caught uncaught o cap
  | .field targets field_name kinds cap => .set_field_stop targets field_name kinds o cap
  | .method_exit patterns method ret exclude => .set_method_exit_stop patterns method ret exclude o
  | .monitor kinds arm => .set_monitor_stop kinds arm o

def StopOptions.narrowed (o : StopOptions) (s : Scope) : StopOptions :=
  { o with thread_filter := s.thread, instance_filter := s.instance_ }

/-- An arming call as it arrives, with its two texts still to be read. -/
def arming_call (t : Target) (o : StopOptions) (texts : Texts) : Except Refusal Call := do
  let scope ← filters_from t.kind o.trace texts
  pure (t.call (StopOptions.narrowed o scope))

end Arming

section Acting

inductive ThreadTool
  | step
  | get_stack
  | evaluate
  | evaluate_chain
  | run_named_query
  | suspend_thread
  | resume_thread
  | set_value
  | force_return
  | reload_class
  | pop_frame
  deriving DecidableEq

/-- `resolve_target_thread`: the thread named, the last one hit, or the first there is. -/
def resolve_target_thread (explicit last_hit : Option ThreadId)
    (get_all_threads : Except JdwpError (List ThreadId)) : Except Refusal ThreadId :=
  match explicit.or last_hit with
  | some tid => .ok tid
  | none =>
    match get_all_threads with
    | .error e => .error (.failed_to_get_threads e)
    | .ok [] => .error .no_threads_found
    | .ok (tid :: _) => .ok tid

def required_thread (thread_id last_thread : Option ThreadId) : Except Refusal ThreadId :=
  match thread_id.or last_thread with
  | some tid => .ok tid
  | none => .error .no_thread

/-- Of the two tools that hold and release one thread, the text must be readable. -/
def named_thread (raw : String) : Except Refusal ThreadId :=
  match parse_thread_id (some raw) with
  | some tid => .ok tid
  | none => .error (.bad_thread_id raw)

def only_held_thread (held : List ThreadId) : Except Refusal ThreadId :=
  match held with
  | [] => .error .nothing_held
  | [tid] => .ok tid
  | _ => .error .which_thread

/-- What the session and the debuggee contribute to the choice of a thread. -/
structure Surroundings where
  last_thread : Option ThreadId
  held : List ThreadId
  get_all_threads : Except JdwpError (List ThreadId)

/-- The thread a tool acts on; `none` for a tool that goes on without one. -/
def ThreadTool.acts_on (tool : ThreadTool) (thread_id : Option String) (s : Surroundings) :
    Except Refusal (Option ThreadId) :=
  match tool with
  | .step | .run_named_query | .force_return | .pop_frame =>
    some <$> required_thread (parse_thread_id thread_id) s.last_thread
  | .get_stack =>
    some <$> resolve_target_thread (parse_thread_id thread_id) s.last_thread s.get_all_threads
  | .evaluate | .evaluate_chain | .set_value | .reload_class =>
    .ok ((parse_thread_id thread_id).or s.last_thread)
  | .suspend_thread =>
    match thread_id with
    | some raw => some <$> named_thread raw
    | none => .error .thread_id_missing
  | .resume_thread =>
    match thread_id with
    | some raw => some <$> named_thread raw
    | none => some <$> only_held_thread s.held

end Acting

end JavaDebug.Addressing
