import JavaDebug.ClassFiles
import JavaDebug.DecodedTexts

/-!
Whether the debuggee runs the build on disk. Line tables are compared method by
method, and on request the bytecode. A method without a table on either side is
skipped, so what is not said to be stale has matched or could not be compared;
arming a line asks the same of the one method it armed in.
-/
namespace JavaDebug.StaleChecks

open ClassFiles Octets
open DecodedTexts (hex_padded)

section Reads

abbrev Lines := List (UInt64 × Int32)

abbrev MethodId := UInt64

def ERR_ABSENT_INFORMATION : UInt16 := 101

/-- A failed read, with its text. -/
inductive ReadError
  | jdwp_error_code (code : UInt16) (text : String)
  | other (text : String)
  deriving DecidableEq

def ReadError.text : ReadError → String
  | jdwp_error_code _ text | other text => text

def ReadError.is_absent : ReadError → Bool
  | jdwp_error_code code _ => code = ERR_ABSENT_INFORMATION
  | other _ => false

structure MethodInfo where
  method_id : MethodId
  name : String
  signature : String
  deriving DecidableEq

def MethodInfo.key (m : MethodInfo) : String × String := (m.name, m.signature)

/-- What the JVM answers about a loaded class. -/
structure ClassReads where
  get_methods : Except ReadError (List MethodInfo)
  get_line_table : MethodId → Except ReadError Lines
  can_get_bytecodes : Except ReadError Bool
  get_bytecodes : MethodId → Except ReadError Bytes

/-- The class roots: what is found for a class, and what is read there. -/
structure ClassRoots where
  class_roots : List String
  resolve_class_file : String → Except String String
  read : String → Except String Bytes

end Reads

section Comparison

/-- One method's line table, from either side. -/
structure MethodLines where
  name : String
  descriptor : String
  lines : Lines
  comparable : Bool
  deriving DecidableEq

def MethodLines.key (m : MethodLines) : String × String := (m.name, m.descriptor)

structure BytecodeReport where
  differing : List String
  compared : ℕ
  skipped : ℕ
  unavailable : Bool
  deriving DecidableEq

structure StaleReport where
  matched : ℕ
  differing : List String
  only_in_jvm : List String
  only_in_build : List String
  skipped : ℕ
  bytecode : Option BytecodeReport
  deriving DecidableEq

def StaleReport.new : StaleReport := ⟨0, [], [], [], 0, none⟩

def StaleReport.is_stale (r : StaleReport) : Bool :=
  !r.differing.isEmpty || !r.only_in_jvm.isEmpty || !r.only_in_build.isEmpty ||
    r.bytecode.any fun b => !b.differing.isEmpty

/-- The first index at which the two disagree, and the entries there. -/
def first_mismatch {α : Type} [DecidableEq α] : ℕ → List α → List α → Option (ℕ × α × α)
  | i, a :: as, b :: bs => if a ≠ b then some (i, a, b) else first_mismatch (i + 1) as bs
  | _, _, _ => none

def first_difference (jvm file : MethodLines) : String :=
  match first_mismatch 0 jvm.lines file.lines with
  | some (i, j, f) =>
    "entry " ++ toString i ++ " differs: the JVM has line " ++ toString j.2 ++ " at bytecode " ++
      toString j.1 ++ ", your build has line " ++ toString f.2 ++ " at " ++ toString f.1
  | none =>
    "the JVM's table has " ++ toString jvm.lines.length ++ " entr(ies), your build's has " ++
      toString file.lines.length ++ " — same prefix, different length"

def built_lines (m : ClassFileMethod) : MethodLines :=
  ⟨m.name, m.descriptor, m.lines, m.has_code && m.has_line_table && !m.lines.isEmpty⟩

def compare_method (built : List MethodLines) (report : StaleReport) (jvm : MethodLines) :
    StaleReport :=
  match built.find? fun b => b.key = jvm.key with
  | none => { report with only_in_jvm := report.only_in_jvm ++ [jvm.name ++ jvm.descriptor] }
  | some file =>
    if !jvm.comparable || !file.comparable then { report with skipped := report.skipped + 1 }
    else if jvm.lines = file.lines then { report with matched := report.matched + 1 }
    else { report with differing := report.differing ++
      [jvm.name ++ jvm.descriptor ++ " — " ++ first_difference jvm file] }

def compare_line_tables (running : List MethodLines) (built : List ClassFileMethod) : StaleReport :=
  let built := built.map built_lines
  { running.foldl (compare_method built) .new with
    only_in_build := (built.filter fun file => !running.any fun j => j.key = file.key).map
      fun file => file.name ++ file.descriptor }

end Comparison

section Bytecode

def hex_02 (b : UInt8) : String := "0x" ++ String.ofList (hex_padded 2 b.toNat)

def first_code_difference (running built : Bytes) : String :=
  match first_mismatch 0 running built with
  | some (at_, r, b) =>
    "code differs at bytecode index " ++ toString at_ ++ " (the JVM has " ++ hex_02 r ++
      ", your build has " ++ hex_02 b ++ ")"
  | none =>
    if running.length = built.length then "code is identical"
    else "code is identical for the first " ++ toString (min running.length built.length) ++
      " byte(s), then the JVM has " ++ toString running.length ++ " and your build has " ++
      toString built.length

/-- Methods that the build has not are left out; the line tables have told of them. -/
def compare_code (reads : ClassReads) (built : List ClassFileMethod) (report : BytecodeReport) :
    List MethodInfo → Except String BytecodeReport
  | [] => .ok report
  | m :: rest =>
    match built.find? fun b => (b.name, b.descriptor) = m.key with
    | none => compare_code reads built report rest
    | some file =>
      if !file.has_code then
        compare_code reads built { report with skipped := report.skipped + 1 } rest
      else
        match reads.get_bytecodes m.method_id with
        | .ok running =>
          let differing := if running ≠ file.code then
              report.differing ++ [m.name ++ m.signature ++ " — " ++
                first_code_difference running file.code]
            else report.differing
          compare_code reads built
            { report with compared := report.compared + 1, differing := differing } rest
        | .error e =>
          if e.is_absent then
            compare_code reads built { report with skipped := report.skipped + 1 } rest
          else .error ("Failed to read the bytecode of " ++ m.name ++ ": " ++ e.text)

def bytecode_report (reads : ClassReads) (built : List ClassFileMethod) :
    Except String BytecodeReport :=
  match reads.can_get_bytecodes with
  | .ok false => .ok ⟨[], 0, 0, true⟩
  | .error e => .error ("Failed to ask the JVM what it supports (Capabilities): " ++ e.text)
  | .ok true =>
    match reads.get_methods with
    | .error e => .error ("Failed to list the running methods: " ++ e.text)
    | .ok methods => compare_code reads built ⟨[], 0, 0, false⟩ methods

end Bytecode

section Report

variable (reads : ClassReads)

def one_line_table (id : MethodId) : Except ReadError (Lines × Bool) :=
  match reads.get_line_table id with
  | .ok lines => .ok (lines, !lines.isEmpty)
  | .error e => if e.is_absent then .ok ([], false) else .error e

def read_one_method (m : MethodInfo) : Except String MethodLines :=
  match one_line_table reads m.method_id with
  | .ok (lines, comparable) => .ok ⟨m.name, m.signature, lines, comparable⟩
  | .error e => .error ("Failed to read the line table of " ++ m.name ++ ": " ++ e.text)

def read_jvm_line_tables : Except String (List MethodLines) :=
  match reads.get_methods with
  | .error e => .error ("Failed to list the running class's methods: " ++ e.text)
  | .ok methods => methods.mapM (read_one_method reads)

/-- The report of a class that is loaded; the reply says stale when the report is. -/
def check_stale_report (roots : ClassRoots) (class_name : String) (bytecode : Bool) :
    Except String StaleReport := do
  let path ← roots.resolve_class_file class_name
  let bytes ← (roots.read path).mapError fun e =>
    "Found " ++ path ++ " but could not read it: " ++ e
  let built ← (parse bytes).mapError fun e =>
    "Could not read " ++ path ++ " as a class file: " ++ e
  if built.this_class ≠ class_name then
    .error (path ++ " declares " ++ built.this_class ++ ", not " ++ class_name ++
      ". That is a wrong path rather than drift — a class root is where the package tree starts " ++
      "in the BUILD OUTPUT. Nothing was compared.")
  else do
    let running ← read_jvm_line_tables reads
    let report := compare_line_tables running built.methods
    if bytecode then do
      let code ← bytecode_report reads built.methods
      pure { report with bytecode := some code }
    else pure report

end Report

section Arming

inductive DriftCheck
  | stale (caveat : String)
  | current
  | not_checked (why : String)
  deriving DecidableEq

def DriftCheck.is_stale : DriftCheck → Bool
  | stale _ => true
  | current | not_checked _ => false

def NO_CLASS_ROOT_TO_COMPARE : String :=
  "no class root is configured, so there is no compiled .class to compare the JVM's line table " ++
  "against. The line above was resolved against WHATEVER THIS DEPLOYMENT HAS LOADED, which may " ++
  "not be your build.\n       Set one with debug.attach \x7b\"class_roots\":[...]\x7d or " ++
  "JDWP_CLASS_ROOTS (a path list in this platform's spelling) — a class root is where the " ++
  "package tree starts in the BUILD OUTPUT (target/classes), not src/main/java — and this check " ++
  "then runs on every arm, unasked."

def drift_caveat_from_tables (jvm : MethodLines) (built_methods : List ClassFileMethod)
    (path : String) : DriftCheck :=
  let same_method := built_methods.filter fun m => (m.name, m.descriptor) = jvm.key
  let report := compare_line_tables [jvm] same_method
  if !report.is_stale then
    if report.matched = 0 ∧ 0 < report.skipped then
      .not_checked (path ++ " has no line table for " ++ jvm.name ++ jvm.descriptor ++
        " — a -g:none build has code with no line numbers, so there is nothing to compare the " ++
        "JVM's against.")
    else .current
  else
    let detail := report.differing.head?.getD
      (jvm.name ++ jvm.descriptor ++ " is not in your build at all")
    .stale ("\n   ⚠️  STALE BYTECODE: the JVM's line table for this method does not match " ++
      path ++ ".\n       " ++ detail ++ "\n       The line above was resolved against the " ++
      "DEPLOYED build, so it may not be the line you are reading. debug.check_stale for the " ++
      "whole class; debug.reload_class to install your build without a redeploy.")

def drift_check_for_armed_method (roots : ClassRoots) (class_name : String) (method : MethodInfo)
    (jvm_lines : Lines) : DriftCheck :=
  if roots.class_roots.isEmpty then .not_checked NO_CLASS_ROOT_TO_COMPARE
  else if jvm_lines.isEmpty then
    .not_checked ("the JVM reports no line table for " ++ method.name ++ method.signature ++
      ", so there is nothing on the running side to compare — a class deployed from a -g:none " ++
      "build.")
  else
    match roots.resolve_class_file class_name with
    | .error why => .not_checked why
    | .ok path =>
      match roots.read path with
      | .error why => .not_checked ("found " ++ path ++ " but could not read it: " ++ why)
      | .ok bytes =>
        match parse bytes with
        | .error why => .not_checked (path ++ " could not be parsed as a class file: " ++ why)
        | .ok built =>
          if built.this_class ≠ class_name then
            .not_checked (path ++ " declares " ++ built.this_class ++ ", not " ++ class_name ++
              " — that is a wrong class root rather than drift, so nothing was compared.")
          else
            drift_caveat_from_tables ⟨method.name, method.signature, jvm_lines, true⟩
              built.methods path

end Arming

end JavaDebug.StaleChecks
