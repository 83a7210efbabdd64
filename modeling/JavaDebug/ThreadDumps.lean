import Mathlib.Data.List.Sort
import Mathlib.Data.String.Basic
import JavaDebug.EventLoop
import JavaDebug.Grouping
import JavaDebug.NamePatterns

/-!
`debug.thread_dump`: the threads are triaged by name and status in windows of
sixteen, chosen by name family, read up to the limit, and put back in the order
of the list. What a read says of a thread is given by the position of the thread
in the list, since each read is made at most once for it, and what the clock
says is given for every check of the deadline. The type names and line tables a
dump keeps are part of what a read of a frame says.
-/
namespace JavaDebug.ThreadDumps

open Grouping
open EventLoop (MAX_READS_IN_FLIGHT)
open NamePatterns (contains)

abbrev ThreadId := UInt64

section Data

structure ThreadDumpArgs where
  name_filter : Option String
  only_suspended : Bool
  limit : ℕ
  max_frames : ℕ
  package_filter : Option String
  monitors : Bool
  monitors_only : Bool

/-- A frame with the names that are read for it. -/
structure DumpFrame where
  class_name : String
  method : String
  line : Option ℤ

/-- What is answered for the thread at each position, and the clock at each check: before a window
when so many threads are triaged, and before a thread is read when so many have been picked. A
thread is `gone` if it has ended when its status is asked for. `to_lowercase` is that of `str`. -/
structure Answers where
  name : ℕ → Option String
  status : ℕ → Option (ℤ × ℤ)
  gone : ℕ → Bool
  frames : ℕ → Except String (List DumpFrame)
  owned : ℕ → Except String (List (String × UInt64))
  contended : ℕ → Except String (Option (String × UInt64))
  begun : ℕ
  triage_clock : ℕ → ℕ
  clock : ℕ → ℕ
  to_lowercase : String → String

structure DumpCandidate where
  seen : ℕ
  tid : ThreadId
  name : String
  status : String
  suspended : Bool
  finished : Bool

structure DumpTriage where
  candidates : List DumpCandidate
  untriaged : ℕ
  vanished : ℕ

inductive DumpStack
  | frames (shown : List String)
  | unreadable (why : String)
  | omitted
  deriving DecidableEq

structure DumpRow where
  id : ThreadId
  name : String
  status : String
  suspended : Bool
  finished : Bool
  stack : DumpStack
  frames_hidden : ℕ
  holds : List (String × UInt64)
  waiting_on : Option (String × UInt64)
  monitor_note : Option String
  deriving DecidableEq

structure FamilySelection where
  eligible : ℕ
  families : ℕ
  withheld : List (String × ℕ)

structure DumpOutcome where
  rows : List DumpRow
  unread : ℕ
  vanished : ℕ
  selection : FamilySelection

end Data

section Families

def is_ascii_digit (c : Char) : Bool := '0' ≤ c ∧ c ≤ '9'

/-- Every run of digits is collapsed. -/
def collapse (in_digits : Bool) : List Char → List Char
  | [] => []
  | c :: rest =>
    if is_ascii_digit c then (if in_digits then [] else ['#']) ++ collapse true rest
    else c :: collapse false rest

def thread_name_family (name : String) : String := String.ofList (collapse false name.toList)

variable (names : List String)

/-- The indices of the names, family by family in the order of first appearance. -/
def families_of : List (List ℕ) :=
  (group (fun i => thread_name_family (names.getD i "")) (List.range names.length)).map Prod.snd

def deepest (families : List (List ℕ)) : ℕ := (families.map List.length).foldl max 0

/-- One of each family before a second of any. -/
def rounds (families : List (List ℕ)) : List ℕ :=
  (List.range (deepest families)).flatMap fun round =>
    families.filterMap fun members => members[round]?

def family_round_robin : List ℕ × ℕ :=
  (rounds (families_of names), (families_of names).length)

def candidates_by_family : List (String × ℕ) :=
  (group thread_name_family names).map fun g => (g.1, g.2.length)

def take_one (family : String) : List (String × ℕ) → List (String × ℕ)
  | [] => []
  | (f, n) :: rest => if f = family then (f, n - 1) :: rest else (f, n) :: take_one family rest

/-- Biggest first, then by name. -/
def withheld_by_family (tally : List (String × ℕ)) (shown : List String) : List (String × ℕ) :=
  ((shown.foldl (fun tally name => take_one (thread_name_family name) tally) tally).filter
    fun f => 0 < f.2).insertionSort fun f f' => f'.2 < f.2 ∨ (f.2 = f'.2 ∧ f.1 ≤ f'.1)

end Families

section Reading

def passed (deadline : Option ℕ) (now : ℕ) : Bool := deadline.any fun d => d ≤ now

def thread_status_name (ts : ℤ) : String :=
  if ts = 0 then "zombie"
  else if ts = 1 then "running"
  else if ts = 2 then "sleeping"
  else if ts = 3 then "monitor"
  else if ts = 4 then "wait"
  else "unknown"

def THREAD_STATUS_ZOMBIE : ℤ := 0

/-- An empty filter is none. -/
def filter_of (to_lowercase : String → String) (filter : Option String) : Option String :=
  (filter.filter fun s => s ≠ "").map to_lowercase

def matches_filter (to_lowercase : String → String) (filter : Option String) (text : String) :
    Bool :=
  filter.all fun f => contains (to_lowercase text) f

variable (ans : Answers) (a : ThreadDumpArgs) (all : List ThreadId) (deadline : Option ℕ)

/-- Half of what is left of the budget. -/
def triage_deadline : Option ℕ := deadline.map fun d => ans.begun + (d - ans.begun) / 2

def name_filter : Option String := filter_of ans.to_lowercase a.name_filter

/-- The threads of a window whose names pass; a name that cannot be read is empty. -/
def wanted (window : List ThreadId) (triaged : ℕ) : List (ℕ × ThreadId × String) :=
  ((window.zipIdx triaged).map fun w => (w.2, w.1, (ans.name w.2).getD "")).filter fun w =>
    matches_filter ans.to_lowercase (name_filter ans a) w.2.2

def triage_one (t : DumpTriage) (w : ℕ × ThreadId × String) : DumpTriage :=
  match ans.status w.1 with
  | none => { t with vanished := t.vanished + 1 }
  | some (ts, ss) =>
    if a.only_suspended && ss = 0 then t
    else { t with candidates := t.candidates ++
      [⟨w.1, w.2.1, w.2.2, thread_status_name ts, ss ≠ 0, ts = THREAD_STATUS_ZOMBIE⟩] }

/-- The windows that are left; a window takes at least one thread. -/
def triage_windows : ℕ → List ThreadId → ℕ → DumpTriage → DumpTriage
  | 0, _, _, t => t
  | _, [], _, t => t
  | fuel + 1, tid :: rest, triaged, t =>
    if passed (triage_deadline ans deadline) (ans.triage_clock triaged) then
      { t with untriaged := all.length - triaged }
    else
      let window := (tid :: rest).take MAX_READS_IN_FLIGHT
      triage_windows fuel ((tid :: rest).drop MAX_READS_IN_FLIGHT) (triaged + window.length)
        ((wanted ans a window triaged).foldl (triage_one ans a) t)

def triage_dump_threads : DumpTriage :=
  triage_windows ans a all deadline all.length all 0 ⟨[], 0, 0⟩

def unreadable_reason (finished monitors_only : Bool) : String :=
  let what := if monitors_only then "locks" else "stack"
  if finished then
    "finished — this thread has already terminated (JDWP reports ZOMBIE), so there is no " ++
      what ++ " left to read; suspend:true cannot help, because a finished thread can never " ++
        "be suspended"
  else
    "running — JDWP can only read a suspended thread's " ++ what ++ "; pass suspend:true"

def frame_text (idx : ℕ) (f : DumpFrame) : String :=
  "#" ++ toString idx ++ " " ++ f.class_name ++ "." ++ f.method ++
    (f.line.map fun l => ":" ++ toString l).getD ""

/-- Whether the package filter lets a frame through. -/
def shows (to_lowercase : String → String) (package_filter : Option String) (f : DumpFrame) :
    Bool :=
  matches_filter to_lowercase package_filter f.class_name

/-- Once `max_frames` are shown, the frames hidden so far are taken off what is left of the
depth. -/
def stack_loop (show_frame : DumpFrame → Bool) (max_frames depth : ℕ) (idx : ℕ) (out : List String)
    (hidden : ℕ) : List DumpFrame → List String × ℕ
  | [] => (out, hidden)
  | f :: rest =>
    if max_frames ≤ out.length then (out, depth - out.length - hidden)
    else if !show_frame f then
      stack_loop show_frame max_frames depth (idx + 1) out (hidden + 1) rest
    else
      stack_loop show_frame max_frames depth (idx + 1) (out ++ [frame_text idx f]) hidden rest

def read_dump_stack (frames : Except String (List DumpFrame)) (max_frames : ℕ)
    (show_frame : DumpFrame → Bool) : Except String (List String) × ℕ :=
  match frames with
  | .error e => (.error ("stack unreadable: " ++ e), 0)
  | .ok frames =>
    let r := stack_loop show_frame max_frames frames.length 0 [] 0 frames
    (.ok r.1, r.2)

/-- What a thread holds, what it waits for, and the last failure of the two reads. -/
def read_thread_monitors (seen : ℕ) (ask : Bool) :
    List (String × UInt64) × Option (String × UInt64) × Option String :=
  if !ask then ([], none, none)
  else
    let held := match ans.owned seen with
      | .ok ms => (ms, none)
      | .error e => ([], some ("owned monitors unreadable: " ++ e))
    match ans.contended seen with
    | .ok waiting => (held.1, waiting, held.2)
    | .error e => (held.1, none, some ("contended monitor unreadable: " ++ e))

def dump_stack (c : DumpCandidate) : DumpStack × ℕ :=
  if !c.suspended then (.unreadable (unreadable_reason c.finished a.monitors_only), 0)
  else if a.monitors_only then (.omitted, 0)
  else
    let r := read_dump_stack (ans.frames c.seen) a.max_frames
      (shows ans.to_lowercase (filter_of ans.to_lowercase a.package_filter))
    match r.1 with
    | .ok frames => (.frames frames, r.2)
    | .error e => (.unreadable e, r.2)

/-- `can_monitors` says that the JVM reports monitors of one kind at least. -/
def dump_row (can_monitors : Bool) (c : DumpCandidate) : DumpRow :=
  let stack := dump_stack ans a c
  let locks := read_thread_monitors ans c.seen (a.monitors && can_monitors && c.suspended)
  ⟨c.tid, c.name, c.status, c.suspended, c.finished, stack.1, stack.2, locks.1, locks.2.1,
    locks.2.2⟩

/-- The threads picked and read, and how many are left unread. -/
def read_picks (limit : ℕ) (total : ℕ) (candidates : List DumpCandidate) :
    List ℕ → ℕ → List DumpCandidate → ℕ → List DumpCandidate × ℕ
  | [], _, picked, unread => (picked, unread)
  | pick :: rest, taken, picked, unread =>
    if limit ≤ picked.length then (picked, unread)
    else if passed deadline (ans.clock taken) then (picked, unread + (total - taken))
    else
      match candidates[pick]? with
      | none => read_picks limit total candidates rest (taken + 1) picked unread
      | some c => read_picks limit total candidates rest (taken + 1) (picked ++ [c]) unread

def collect_dump_rows (can_monitors : Bool) : DumpOutcome :=
  let triage := triage_dump_threads ans a all deadline
  let names := triage.candidates.map DumpCandidate.name
  let order := family_round_robin names
  let read := read_picks ans deadline (max a.limit 1) order.1.length triage.candidates order.1 0 []
    triage.untriaged
  let rows := (read.1.insertionSort fun c c' => c.seen ≤ c'.seen).map (dump_row ans a can_monitors)
  ⟨rows, read.2, triage.vanished, ⟨triage.candidates.length, order.2,
    withheld_by_family (candidates_by_family names) (rows.map DumpRow.name)⟩⟩

end Reading

section Reply

structure DumpGroupKey where
  status : String
  suspended : Bool
  finished : Bool
  family : String
  frames : List String
  frames_hidden : ℕ
  waiting_on : Option (String × UInt64)
  holds : List (String × UInt64)
  monitor_note : Option String
  deriving DecidableEq

/-- Only a stack that was read and is not empty can be shared. -/
def dump_group_key (r : DumpRow) : Option DumpGroupKey :=
  match r.stack with
  | .frames [] => none
  | .frames (f :: frames) =>
    some ⟨r.status, r.suspended, r.finished, thread_name_family r.name, f :: frames,
      r.frames_hidden, r.waiting_on, r.holds, r.monitor_note⟩
  | .unreadable _ => none
  | .omitted => none

/-- The group a row is in: that of its key, or one of its own. -/
def entry_of (rows : List DumpRow) (i : ℕ) : ℕ ⊕ DumpGroupKey :=
  match rows[i]?.bind dump_group_key with
  | some key => .inr key
  | none => .inl i

def dump_groups (rows : List DumpRow) : List (List ℕ) :=
  (group (entry_of rows) (List.range rows.length)).map Prod.snd

/-- What the limit is said to have withheld, and what is said to have vanished. -/
def dump_shortfall (rows_shown total vanished : ℕ) : ℕ × ℕ :=
  let hidden := total - rows_shown
  (hidden - min vanished hidden, min vanished hidden)

end Reply

end JavaDebug.ThreadDumps
