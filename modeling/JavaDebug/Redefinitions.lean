import JavaDebug.LoaderPins

/-!
Classes that a session redefined. A reload records the name it was called with, a pop
the name the frame's class has in the debuggee, and a report prints what is recorded.
The reload looks its class up by any spelling, with the id of a loader behind it or
with the separators of the debuggee.
-/
namespace JavaDebug.Redefinitions

open Jdwp Addressing ClassNames LoaderPins

section Records

/-- The moment is in seconds. -/
structure Redefinition where
  count : UInt32
  moment : ℕ
  popped_since : Bool
  deriving DecidableEq

/-- By class name, in the order of the names. -/
abbrev Held := Std.TreeMap Text Redefinition

def note_swap (held : Held) (class_name : Text) (moment : ℕ) : Held :=
  held.alter class_name fun entry => some ⟨(entry.map Redefinition.count).getD 0 + 1, moment, false⟩

def note_pop (held : Held) (class_name : Text) : Held :=
  held.modify class_name fun entry => { entry with popped_since := true }

def decimal (n : ℕ) : Text := Nat.toDigits 10 n

def ago (secs : ℕ) : Text :=
  if secs < 60 then decimal secs ++ "s ago".toList
  else if secs < 3600 then decimal (secs / 60) ++ "m ago".toList
  else decimal (secs / 3600) ++ "h ".toList ++ decimal (secs % 3600 / 60) ++ "m ago".toList

def describe_one (now : ℕ) (row : Text × Redefinition) : Text :=
  let times := if row.2.count = 1 then "once".toList
    else decimal row.2.count.toNat ++ "× times".toList
  let liveness := if row.2.popped_since then "a frame was popped since, so the new code is live"
    else "no frame popped since, so frames that were already running may still hold the old code"
  "   ".toList ++ row.1 ++ " — reloaded ".toList ++ times ++ ", ".toList ++
    ago (now - row.2.moment) ++ ", ".toList ++ liveness.toList ++ "\n".toList

def heading (classes : ℕ) : Text :=
  "\n⚠️  ".toList ++ decimal classes ++
    (" class(es) are still running bytecode this session installed. Nothing here can put them " ++
      "back — only redeploying the artifact restores the original code:\n").toList

def describe_outstanding_redefinitions (held : Held) (now : ℕ) : Text :=
  if held.toList = [] then []
  else heading held.toList.length ++ (held.toList.map (describe_one now)).flatten

end Records

section Calls

structure Session where
  read_only : Bool
  last_thread : Option ThreadId
  redefinitions : Held

structure VmCapabilities where
  can_redefine_classes : Bool
  can_pop_frames : Bool
  can_add_method : Bool

structure ReloadClassArgs where
  class_name : Text
  dry_run : Bool

/-- What a reload is answered: the class reads, the capabilities, the class file that is found for
a name with its length, the redefinition, and what is said of live frames and stop points. -/
structure ReloadAnswers where
  classes : Answers
  capabilities : Except Text VmCapabilities
  class_file : Text → Except Text (Text × ℕ)
  redefine : Except Text Unit
  moment : ℕ
  live : Text

structure PopFrameArgs where
  thread_id : Option String
  frame : ℕ

structure Frame where
  frame_id : UInt64
  class_id : UInt64
  method_id : UInt64

/-- What a pop is answered; the method's name is read when the frame still has its method. -/
structure PopAnswers where
  capabilities : Except Text VmCapabilities
  frames : ThreadId → Except Text (List Frame)
  signature : UInt64 → Except Text Text
  method_name : Text
  pop : Except Text Unit

/-- What the debuggee has done, the newest first. -/
inductive Event
  | swapped (type_id : UInt64)
  | popped (class_id : UInt64)
  deriving DecidableEq

structure World where
  session : Session
  done : List Event

def readonly_refusal (action : Text) : Text :=
  "🔒 Read-only session: ".toList ++ action ++ (", which is refused. Reattach without read_only " ++
    "(or unset JDWP_READONLY) to allow it. This is a guard against accident, not a security " ++
    "boundary.").toList

/-- A reload that was let through, up to the redefinition. -/
structure Checked where
  type_id : UInt64
  loader_note : Option Text
  path : Text
  bytes : ℕ
  capabilities : VmCapabilities

def check_reload (s : Session) (a : ReloadClassArgs) (x : ReloadAnswers) : Except Text Checked := do
  let class_name := trim a.class_name
  if class_name = [] then
    throw "class_name is required (e.g. com.example.OrderService)".toList
  if s.read_only ∧ ¬a.dry_run then
    throw (readonly_refusal ("reload_class installs new bytecode in the running JVM — on a " ++
      "shared instance that is an unannounced deploy, not a debugger read. dry_run:true still " ++
      "works and ships nothing").toList)
  let (type_id, loader_note) ← resolve_loaded_class_for_read x.classes class_name
  let caps ← x.capabilities.mapError
    ("Failed to ask the JVM what it supports (CapabilitiesNew): ".toList ++ ·)
  if ¬caps.can_redefine_classes then
    throw ("This JVM cannot HotSwap: it reports canRedefineClasses=false, so ".toList ++
      "VirtualMachine.RedefineClasses would answer NOT_IMPLEMENTED and ".toList ++ class_name ++
      " would be unchanged. Nothing was sent. A redeploy is the only route on this VM.".toList)
  let (path, bytes) ← x.class_file class_name
  pure ⟨type_id, loader_note, path, bytes, caps⟩

def flag (b : Bool) : Text := (if b then "true" else "false").toList

def dry_run_reply (class_name : Text) (c : Checked) : Text :=
  "🧪 Dry run — nothing was sent to the JVM.\n   Class: ".toList ++ class_name ++
    " (loaded, type id ".toList ++ hex c.type_id.toNat ++ ")\n   Would ship: ".toList ++ c.path ++
    " (".toList ++ decimal c.bytes ++
    " bytes)\n   This JVM can HotSwap (canRedefineClasses=true, canPopFrames=".toList ++
    flag c.capabilities.can_pop_frames ++ ", canAddMethod=".toList ++
    flag c.capabilities.can_add_method ++ ("). HotSpot accepts METHOD BODY changes only. This " ++
      "check does not compare shapes: debug.check_stale reports, before any attempt, which " ++
      "structural refusal this build would hit (DISC-13) — and the JVM is still the one that " ++
      "decides, since a verifier rejection or INVALID_TYPESTATE is not visible to either " ++
      "check.").toList

def reload_reply (class_name : Text) (c : Checked) (live : Text) : Text :=
  "✅ Reloaded ".toList ++ class_name ++ " — ".toList ++ decimal c.bytes ++ " bytes from ".toList ++
    c.path ++ (" are now the running bytecode. No redeploy, no restart, warm state " ++
      "intact.\n").toList ++ live ++ c.loader_note.getD []

def handle_reload_class (w : World) (a : ReloadClassArgs) (x : ReloadAnswers) :
    Except Text Text × World :=
  let class_name := trim a.class_name
  match check_reload w.session a x with
  | .error e => (.error e, w)
  | .ok c =>
    if a.dry_run then (.ok (dry_run_reply class_name c), w)
    else
      match x.redefine with
      | .error e => (.error e, w)
      | .ok () =>
        (.ok (reload_reply class_name c x.live),
          { session := { w.session with
              redefinitions := note_swap w.session.redefinitions class_name x.moment }
            done := .swapped c.type_id :: w.done })

/-- The debuggee's name of a class, or its id when the signature cannot be read. -/
def resolve_class_name (signature : UInt64 → Except Text Text) (class_id : UInt64) : Text :=
  match ((signature class_id).toOption.map decode_signature).filter fun s => s ≠ [] with
  | some name => name
  | none => "class@".toList ++ digits class_id.toNat

def obsolete : Text :=
  "<obsolete method — the bytecode this frame entered with has been replaced>".toList

structure Popping where
  thread_id : ThreadId
  frame : Frame
  class_ : Text
  method : Text

def check_pop (s : Session) (a : PopFrameArgs) (x : PopAnswers) : Except Text Popping := do
  if s.read_only then
    throw (readonly_refusal ("pop_frame rewinds a thread to the call site of a method it is " ++
      "running, which changes what the JVM does").toList)
  let some thread_id := (parse_thread_id a.thread_id).or s.last_thread
    | throw "No thread. Pass thread_id, or hit a breakpoint first.".toList
  let caps ← x.capabilities.mapError
    ("Failed to ask the JVM what it supports (CapabilitiesNew): ".toList ++ ·)
  if ¬caps.can_pop_frames then
    throw ("This JVM cannot pop frames: it reports canPopFrames=false. Nothing was sent. After " ++
      "a debug.reload_class the running frames will keep the old bytecode until they return " ++
      "normally and the method is called again.").toList
  let frames ← (x.frames thread_id).mapError
    ("Failed to get frames (is the thread suspended?): ".toList ++ ·)
  let some frame := frames[a.frame]?
    | throw ("Thread ".toList ++ hex thread_id ++ " has ".toList ++ decimal frames.length ++
        " frame(s), so there is no frame #".toList ++ decimal a.frame ++
        ". debug.get_stack numbers them from 0 (innermost).".toList)
  if a.frame + 1 ≥ frames.length then
    throw ("Frame #".toList ++ decimal a.frame ++ " is the outermost frame of thread ".toList ++
      hex thread_id ++ (" — popping it would leave the thread with nowhere to return to, " ++
        "and JDWP refuses (NO_MORE_FRAMES). Pop an inner frame.").toList)
  pure ⟨thread_id, frame, resolve_class_name x.signature frame.class_id,
    if frame.method_id = 0 then obsolete else x.method_name⟩

def pop_reply (a : PopFrameArgs) (p : Popping) : Text :=
  let also := if a.frame = 0 then []
    else " (and the ".toList ++ decimal a.frame ++ " frame(s) above it)".toList
  "✅ Popped frame #".toList ++ decimal a.frame ++ ' ' :: p.class_ ++ '.' :: p.method ++ also ++
    " on thread ".toList ++ hex p.thread_id ++ (". The thread is back at the CALL SITE " ++
      "with its operand stack restored and is still suspended — debug.continue re-executes the " ++
      "call, entering the method with whatever bytecode is loaded now.\n   Side effects are " ++
      "not rewound: anything that invocation already wrote stays written.").toList

def pop_failure (a : PopFrameArgs) (p : Popping) (e : Text) : Text :=
  "PopFrames failed on frame #".toList ++ decimal a.frame ++ " (".toList ++ p.class_ ++ '.' ::
    p.method ++ ") of thread ".toList ++ hex p.thread_id ++ ": ".toList ++ e ++
    ("\n   OPAQUE_FRAME means a native frame is in the way — a native method cannot be popped, " ++
      "and neither can anything below one. THREAD_NOT_SUSPENDED means the thread is running; " ++
      "only a suspended thread can be rewound.").toList

def handle_pop_frame (w : World) (a : PopFrameArgs) (x : PopAnswers) : Except Text Text × World :=
  match check_pop w.session a x with
  | .error e => (.error e, w)
  | .ok p =>
    match x.pop with
    | .error e => (.error (pop_failure a p e), w)
    | .ok () =>
      (.ok (pop_reply a p),
        { session := { w.session with
            redefinitions := note_pop w.session.redefinitions p.class_ }
          done := .popped p.frame.class_id :: w.done })

/-- A call, with what it is answered. -/
inductive Call
  | reload_class (a : ReloadClassArgs) (x : ReloadAnswers)
  | pop_frame (a : PopFrameArgs) (x : PopAnswers)

def step (w : World) : Call → World
  | .reload_class a x => (handle_reload_class w a x).2
  | .pop_frame a x => (handle_pop_frame w a x).2

end Calls

end JavaDebug.Redefinitions
