import Mathlib.Data.String.Basic
import JavaDebug.StopPointSet
import JavaDebug.Texts

/-!
The stop-point set as a text. An export is a JSON value, printed in a fenced
block after its warnings; `debug.arm_stop_points` trims what it is given, takes
off one fence, parses the rest and checks the key of the format, its version
and every entry. `serde_json` is not part of the repository: its printer and its
parser are parameters, and a printed object starts and ends with its braces.
-/
namespace JavaDebug.SetTexts

open Jdwp StopPoints Wire StopPointSet
open Addressing Texts

section Values

inductive Number
  | pos_int (n : ℕ)
  | neg_int (n : ℤ)
  | float (bits : UInt64)
  deriving DecidableEq

/-- A map is kept in the order of its keys. -/
inductive Value
  | null
  | bool (b : Bool)
  | number (n : Number)
  | string (s : String)
  | array (items : List Value)
  | object (map : List (String × Value))

abbrev Map := List (String × Value)

namespace Map

def new : Map := []

def get (key : String) : Map → Option Value
  | [] => none
  | (k, v) :: rest => if k = key then some v else get key rest

def insert (key : String) (value : Value) : Map → Map
  | [] => [(key, value)]
  | (k, v) :: rest =>
    if k = key then (key, value) :: rest
    else if key < k then (key, value) :: (k, v) :: rest
    else (k, v) :: insert key value rest

def insert_some (key : String) (value : Option Value) (m : Map) : Map :=
  match value with
  | some v => m.insert key v
  | none => m

theorem get_insert (key k : String) (value : Value) (m : Map) :
    (m.insert k value).get key = if k = key then some value else m.get key := by
  induction m with
  | nil => rfl
  | cons row rest ih =>
    obtain ⟨k', v'⟩ := row
    unfold insert
    by_cases hk : k' = k
    · subst hk
      rw [if_pos rfl]
      by_cases hkey : k' = key
      · simp only [get, if_pos hkey]
      · simp only [get, if_neg hkey]
    · rw [if_neg hk]
      by_cases hlt : k < k'
      · rw [if_pos hlt, get]
      · rw [if_neg hlt, get, ih, get]
        by_cases hkey : k' = key
        · rw [if_pos hkey, if_pos hkey, if_neg fun h => hk (hkey.trans h.symm)]
        · rw [if_neg hkey, if_neg hkey]

end Map

namespace Value

def as_object : Value → Option Map
  | .object m => some m
  | _ => none

def as_array : Value → Option (List Value)
  | .array items => some items
  | _ => none

def as_str : Value → Option String
  | .string s => some s
  | _ => none

def as_bool : Value → Option Bool
  | .bool b => some b
  | _ => none

def as_u64 : Value → Option ℕ
  | .number (.pos_int n) => some n
  | _ => none

def nat (n : ℕ) : Value := .number (.pos_int n)

def int (n : ℤ) : Value := if n < 0 then .number (.neg_int n) else .nat n.toNat

def strings (l : List String) : Value := .array (l.map .string)

def type_name_of : Value → String
  | .null => "null"
  | .bool _ => "boolean"
  | .number _ => "number"
  | .string _ => "string"
  | .array _ => "array"
  | .object _ => "object"

end Value

/-- The printer and the parser of `serde_json`; an error is the parser's own text. -/
structure SerdeJson where
  to_string_pretty : Value → Option String
  from_str : String → Except String Value

end Values

section Writing

def FORMAT_KEY : String := "jdwp_mcp_stop_point_set"

def ARMABLE_TOOLS : List String :=
  ["debug.set_line_stop", "debug.set_exception_stop", "debug.set_field_stop",
    "debug.set_method_exit_stop", "debug.set_monitor_stop"]

def kind_label : MonitorKind → String
  | .blocked => "blocked"
  | .acquired => "acquired"
  | .wait => "wait"
  | .waited => "waited"

def id_text (id : StopId) : String := id.tag ++ toString id.seq

def record_text : RecordId → String
  | .family id => id_text id
  | .pending id => id_text id
  | .stop_point id => id_text id

def locator_args : Locator → Map
  | .line_stop class_pattern line method max_classes =>
    Map.new
      |>.insert "class_pattern" (.string class_pattern)
      |>.insert_some "line" (line.map .int)
      |>.insert_some "method" (method.map .string)
      |>.insert_some "max_classes" (max_classes.map .nat)
  | .exception_stop class_pattern caught uncaught =>
    Map.new
      |>.insert_some "class_pattern" (class_pattern.map .string)
      |>.insert "caught" (.bool caught)
      |>.insert "uncaught" (.bool uncaught)
  | .field_stop class_name field_name modify access =>
    Map.new
      |>.insert "class_name" (.string class_name)
      |>.insert "field_name" (.string field_name)
      |>.insert "modify" (.bool modify)
      |>.insert "access" (.bool access)
  | .method_exit_stop class_pattern method exclude_classes =>
    Map.new
      |>.insert "class_pattern" (.string class_pattern)
      |>.insert_some "method" (method.map .string)
      |>.insert_some "exclude_classes"
        (if exclude_classes = [] then none else some (.strings exclude_classes))
  | .monitor_stop kinds monitor_class min_duration_ms =>
    Map.new
      |>.insert "kinds" (.strings (kinds.map kind_label))
      |>.insert_some "monitor_class" (monitor_class.map .string)
      |>.insert_some "min_duration_ms" (min_duration_ms.map .nat)

def common_args (m : Map) (a : CommonArgs) : Map :=
  m
    |>.insert "trace" (.bool a.trace)
    |>.insert "trace_frames" (.nat a.trace_frames)
    |>.insert_some "hit_count" (a.hit_count.map .nat)
    |>.insert_some "condition" (a.condition.map .string)
    |>.insert_some "trace_expr" (if a.trace_expr = [] then none else some (.strings a.trace_expr))
    |>.insert_some "trace_max_hits" (a.trace_max_hits.map .nat)
    |>.insert_some "trace_max_length" (a.trace_max_length.map .nat)

def entry_args (e : Entry) : Value := .object (common_args (locator_args e.locator) e.args)

def entry_map (e : Entry) : Map :=
  Map.new
    |>.insert "tool" (.string e.locator.tool)
    |>.insert "from" (.string ("+".intercalate (e.from_.map record_text)))
    |>.insert "enabled" (.bool e.enabled)
    |>.insert "args" (entry_args e)

def set_map (set : SetValue) : Map :=
  Map.new
    |>.insert FORMAT_KEY (.nat set.version)
    |>.insert "entries" (.array (set.entries.map fun e => .object (entry_map e)))

def set_value (set : SetValue) : Value := .object (set_map set)

def plural (n : ℕ) (noun : String) : String :=
  if n = 1 then toString n ++ " " ++ noun else toString n ++ " " ++ noun ++ "s"

def entries_phrase (n : ℕ) : String :=
  if n = 1 then "1 entry" else toString n ++ " entries"

def describe_dropped (dropped : Dropped) : String :=
  (if dropped.instance_ = [] then ""
    else "\n⚠️  Instance filter DROPPED from " ++ plural dropped.instance_.length "stop point" ++
      ": " ++ ", ".intercalate (dropped.instance_.map record_text) ++
      ". A JDWP object id is a weak reference to one object in one JVM (ADR-0022), so it cannot " ++
      "mean anything in the next one — carrying it over would scope the stop point to whatever " ++
      "now lives at that address. These entries are therefore BROADER than what you exported. " ++
      "Take a fresh handle from debug.list_instances and re-apply it.\n") ++
  (if dropped.thread = [] then ""
    else "\n⚠️  Thread filter DROPPED from " ++ plural dropped.thread.length "stop point" ++
      ": " ++ ", ".intercalate (dropped.thread.map record_text) ++
      ". A JDWP thread id belongs to one JVM for the same reason, and a pool that retires idle " ++
      "workers invalidates it even within one. These entries are BROADER than what you " ++
      "exported. Read debug.list_threads for a live id and re-apply it.\n") ++
  (if dropped.undescribable = [] then ""
    else "\n⚠️  NOT exported: " ++ ", ".intercalate (dropped.undescribable.map record_text) ++
      ". A wildcard family whose members are all gone and which names no method has no line " ++
      "and no method left to re-arm from, so there is nothing to write down. Re-arm it with " ++
      "debug.set_line_stop.\n")

/-- What the reply of an export says before the block to keep. -/
def export_warnings (e : Export) : String :=
  "📦 Stop-point set exported — " ++ entries_phrase e.entries ++ ".\n" ++
  (if e.disabled > 0 then "   " ++ toString e.disabled ++ " of them were disabled or spent, and " ++
    "are recorded as such: debug.arm_stop_points will NOT arm those.\n" else "") ++
  (if e.suspending > 0 then "   " ++ toString e.suspending ++ " of them are SUSPENDING. Arming " ++
    "this set later is one call that can freeze a shared JVM on the next hit of any of them — " ++
    "worth knowing now, while you still have the chance to re-arm them with trace:true and " ++
    "export again.\n" else "") ++
  describe_dropped e.dropped ++
  "\nNothing was written to disk — this server has no filesystem write path (BP-8). Store the " ++
  "block below and pass it back verbatim as debug.arm_stop_points \x7b\"set\": \"…\"\x7d.\n\n"

def render_export (serde : SerdeJson) (e : Export) : String :=
  export_warnings e ++ "```json\n" ++
    (serde.to_string_pretty (set_value e.set)).getD "\x7b\x7d" ++ "\n```\n"

end Writing

section Reading

/-- A call of a set as it is read back. -/
structure SetEntry where
  tool : String
  enabled : Bool
  args : Value

/-- Take off one fence of three backticks, with whatever its first line says. -/
def strip_code_fence (s : List Char) : List Char :=
  match s.dropPrefix? "```".toList with
  | none => s
  | some rest =>
    let body := (rest.dropWhile (· ≠ '\n')).tail
    trim (((trim body).dropSuffix? "```".toList).getD body)

def parse_entry (i : ℕ) (raw : Value) : Except String SetEntry :=
  match raw.as_object with
  | none => .error ("entries[" ++ toString i ++ "] is not an object.")
  | some obj =>
    match (obj.get "tool").bind Value.as_str with
    | none => .error ("entries[" ++ toString i ++ "] has no `tool` name.")
    | some tool =>
      if tool ∉ ARMABLE_TOOLS then
        .error ("entries[" ++ toString i ++ "] names `" ++ tool ++ "`, which " ++
          "debug.arm_stop_points will not call. A set may only arm stop points, and the tools " ++
          "it may name are: " ++ ", ".intercalate ARMABLE_TOOLS ++ ". This is a whitelist " ++
          "rather than a check on this one name — without it, a set would be a way to invoke " ++
          "anything in this server from a blob of JSON.")
      else
        let args := (obj.get "args").getD (.object Map.new)
        match args.as_object with
        | none => .error ("entries[" ++ toString i ++ "]'s `args` is not an object.")
        | some _ =>
          .ok ⟨tool, ((obj.get "enabled").bind Value.as_bool).getD true, args⟩

/-- The entries from index `i` on. -/
def parse_entries (i : ℕ) : List Value → Except String (List SetEntry)
  | [] => .ok []
  | raw :: rest =>
    match parse_entry i raw with
    | .error e => .error e
    | .ok entry =>
      match parse_entries (i + 1) rest with
      | .error e => .error e
      | .ok out => .ok (entry :: out)

def check_version (version : Value) : Except String Unit :=
  match version.as_u64 with
  | some v =>
    if v = FORMAT_VERSION then .ok ()
    else if v > FORMAT_VERSION then
      .error ("This set is format version " ++ toString v ++ " and this server reads version " ++
        toString FORMAT_VERSION ++ ". It was exported by a NEWER build, so re-arming it here " ++
        "could arm something other than what it describes. Export a fresh set from this build.")
    else
      .error ("`" ++ FORMAT_KEY ++ "` should be the format version as a number; it is " ++
        version.type_name_of ++ ".")
  | none =>
    .error ("`" ++ FORMAT_KEY ++ "` should be the format version as a number; it is " ++
      version.type_name_of ++ ".")

def parse_set (root : Value) : Except String (List SetEntry) :=
  match root.as_object with
  | none =>
    .error ("A stop-point set is a JSON object with a `" ++ FORMAT_KEY ++ "` key. This is a " ++
      root.type_name_of ++ ".")
  | some obj =>
    match obj.get FORMAT_KEY with
    | none =>
      .error ("This JSON has no `" ++ FORMAT_KEY ++ "` key, so it is not a stop-point set. " ++
        "Keys present: " ++ ", ".intercalate ((obj.take 8).map Prod.fst) ++
        ". Export one with debug.list_stop_points \x7bexport: true\x7d.")
    | some version =>
      match check_version version with
      | .error e => .error e
      | .ok () =>
        match (obj.get "entries").bind Value.as_array with
        | none => .error "A stop-point set needs an `entries` array."
        | some entries =>
          match parse_entries 0 entries with
          | .error e => .error e
          | .ok [] =>
            .error ("This set has no entries, so there is nothing to arm. That is what an " ++
              "export of a session with no stop points looks like.")
          | .ok (entry :: out) => .ok (entry :: out)

def parse (serde : SerdeJson) (raw : String) : Except String (List SetEntry) :=
  let trimmed := trim raw.toList
  if trimmed = [] then
    .error ("The `set` argument is empty. Pass the block that debug.list_stop_points " ++
      "\x7bexport: true\x7d returned.")
  else
    match serde.from_str (String.ofList (strip_code_fence trimmed)) with
    | .error e =>
      .error ("The `set` argument is not JSON (" ++ e ++ "). Pass the block that " ++
        "debug.list_stop_points \x7bexport: true\x7d returned, not the rendered listing.")
    | .ok root => parse_set root

end Reading

section RoundTrip

/-- What `serde_json` makes of one object: its text, and the object back from the text. -/
structure Printed (serde : SerdeJson) (v : Value) (text : String) : Prop where
  printed : serde.to_string_pretty v = some text
  parsed : serde.from_str text = .ok v
  braces : ∃ inner, text = "\x7b" ++ inner ++ "\x7d"

variable (e : Entry)

/-- The call that an exported entry describes. -/
def set_entry : SetEntry := ⟨e.locator.tool, e.enabled, entry_args e⟩

theorem tool_armable (l : Locator) : l.tool ∈ ARMABLE_TOOLS := by
  cases l <;> simp [Locator.tool, ARMABLE_TOOLS]

theorem get_tool : (entry_map e).get "tool" = some (.string e.locator.tool) := by
  simp [entry_map, Map.get_insert]

theorem get_enabled : (entry_map e).get "enabled" = some (.bool e.enabled) := by
  simp [entry_map, Map.get_insert]

theorem get_args : (entry_map e).get "args" = some (entry_args e) := by
  simp [entry_map, Map.get_insert]

theorem get_version (set : SetValue) : (set_map set).get FORMAT_KEY = some (.nat set.version) := by
  simp [set_map, Map.get_insert, FORMAT_KEY]

theorem get_entries (set : SetValue) : (set_map set).get "entries" =
    some (.array (set.entries.map fun e => .object (entry_map e))) := by
  simp [set_map, Map.get_insert]

theorem parse_entry_map (i : ℕ) (e : Entry) :
    parse_entry i (.object (entry_map e)) = .ok (set_entry e) := by
  have harmable : ¬ e.locator.tool ∉ ARMABLE_TOOLS := not_not.mpr (tool_armable e.locator)
  unfold parse_entry
  simp only [Value.as_object, get_tool, Option.bind_some, Value.as_str, if_neg harmable, get_args,
    Option.getD_some, get_enabled, Value.as_bool]
  rfl

theorem parse_entries_map (entries : List Entry) (i : ℕ) :
    parse_entries i (entries.map fun e => .object (entry_map e)) =
      .ok (entries.map set_entry) := by
  induction entries generalizing i with
  | nil => rfl
  | cons e rest ih =>
    rw [List.map_cons, parse_entries, parse_entry_map]
    simp only [ih]
    rfl

theorem parse_set_value {set : SetValue} (hversion : set.version = FORMAT_VERSION)
    (hne : set.entries ≠ []) : parse_set (set_value set) = .ok (set.entries.map set_entry) := by
  obtain ⟨e, rest, he⟩ := List.exists_cons_of_ne_nil hne
  have hcheck : check_version (.nat set.version) = .ok () := by
    rw [hversion]
    rfl
  have hentries := parse_entries_map set.entries 0
  rw [he, List.map_cons] at hentries
  unfold parse_set
  simp only [set_value, Value.as_object, get_version, hcheck, get_entries, Option.bind_some,
    Value.as_array, he, List.map_cons, hentries]

/-- A text between two tight ones is as tight as its ends. -/
theorem tight_between {s t : List Char} (hs : Tight s) (ht : Tight t) (hs0 : s ≠ []) (ht0 : t ≠ [])
    (m : List Char) : Tight (s ++ (m ++ t)) := by
  refine ⟨fun c hc => ?_, fun c hc => ?_⟩
  · apply hs.first c
    rwa [List.head?_append_of_ne_nil _ hs0] at hc
  · apply ht.last c
    rwa [← List.append_assoc, List.getLast?_append_of_ne_nil _ ht0] at hc

theorem tight_fence : Tight "```".toList := by
  refine ⟨fun c hc => ?_, fun c hc => ?_⟩
  · rw [← Option.some.inj hc]
    decide
  · rw [← Option.some.inj hc]
    decide

theorem tight_braces {text : String} (h : ∃ inner, text = "\x7b" ++ inner ++ "\x7d") :
    Tight text.toList ∧ text.toList ≠ [] := by
  obtain ⟨inner, rfl⟩ := h
  simp only [String.toList_append, List.append_assoc]
  have hone : ∀ c, is_whitespace c = false → Tight [c] := by
    intro c hc
    refine ⟨fun d hd => ?_, fun d hd => ?_⟩
    · rwa [← Option.some.inj hd]
    · rwa [← Option.some.inj hd]
  constructor
  · exact tight_between (hone '\x7b' (by decide)) (hone '\x7d' (by decide)) (List.cons_ne_nil _ _)
      (List.cons_ne_nil _ _) _
  · exact List.cons_ne_nil _ _

/-- A text that starts with a brace has no fence. -/
theorem strip_bare {text : String} (h : ∃ inner, text = "\x7b" ++ inner ++ "\x7d") :
    strip_code_fence text.toList = text.toList := by
  obtain ⟨inner, rfl⟩ := h
  simp only [String.toList_append, List.append_assoc]
  rfl

/-- A fence around a text, with white space inside it. -/
def fenced (lead body trail : List Char) : List Char :=
  "```".toList ++ ("json\n".toList ++ (lead ++ (body ++ trail)) ++ "```".toList)

theorem tight_fenced (lead body trail : List Char) : Tight (fenced lead body trail) :=
  tight_between tight_fence tight_fence (by decide) (by decide) _

/-- The first line of a fence goes with it, and so does the white space inside. -/
theorem strip_fenced {lead body trail : List Char} (hlead : Space lead) (htrail : Space trail)
    (hbody : Tight body) (hne : body ≠ []) : strip_code_fence (fenced lead body trail) = body := by
  have hopen : (fenced lead body trail).dropPrefix? "```".toList =
      some ("json\n".toList ++ (lead ++ (body ++ trail)) ++ "```".toList) :=
    List.dropPrefix?_eq_some_iff.mpr ⟨"```".toList, rfl, beq_self_eq_true _⟩
  have hline : (("json\n".toList ++ (lead ++ (body ++ trail)) ++ "```".toList).dropWhile
      (· ≠ '\n')).tail = lead ++ (body ++ (trail ++ "```".toList)) := by
    simp
  have hinside : trim (lead ++ (body ++ (trail ++ "```".toList))) =
      body ++ (trail ++ "```".toList) := by
    have h := trim_space hlead space_nil (body ++ (trail ++ "```".toList))
    rw [List.append_nil] at h
    rw [h, trim_tight (tight_between hbody tight_fence hne (by decide) trail)]
  have hclose : (body ++ (trail ++ "```".toList)).dropSuffix? "```".toList =
      some (body ++ trail) :=
    List.dropSuffix?_eq_some_iff.mpr ⟨"```".toList, (List.append_assoc _ _ _).symm,
      beq_self_eq_true _⟩
  unfold strip_code_fence
  rw [hopen]
  simp only [hline, hinside, hclose, Option.getD_some]
  rw [trim_end_space htrail, trim_tight hbody]

theorem parse_trimmed {serde : SerdeJson} {raw body : String} {text : List Char} {root : Value}
    {lead trail : List Char} (hraw : raw.toList = lead ++ (text ++ trail)) (hlead : Space lead)
    (htrail : Space trail) (htight : Tight text) (hne : text ≠ [])
    (hstrip : strip_code_fence text = body.toList) (hparse : serde.from_str body = .ok root) :
    parse serde raw = parse_set root := by
  have htrim : trim raw.toList = text := by
    rw [hraw, trim_space hlead htrail, trim_tight htight]
  unfold parse
  simp only [htrim, if_neg hne, hstrip, String.ofList_toList, hparse]

/-- A set that is exported is read back, call by call and in order. -/
theorem exported_set_read_back (serde : SerdeJson) (s : DebugSession) (text : String)
    (hprint : Printed serde (set_value (export_ s).set) text) (hone : 0 < (export_ s).entries)
    (lead trail inner_lead inner_trail : String) (hlead : Space lead.toList)
    (htrail : Space trail.toList) (hinner_lead : Space inner_lead.toList)
    (hinner_trail : Space inner_trail.toList) :
    render_export serde (export_ s) =
        export_warnings (export_ s) ++ "```json\n" ++ text ++ "\n```\n" ∧
      parse serde (lead ++ text ++ trail) = .ok ((export_ s).set.entries.map set_entry) ∧
      parse serde (lead ++ "```json\n" ++ inner_lead ++ text ++ inner_trail ++ "```" ++ trail) =
        .ok ((export_ s).set.entries.map set_entry) := by
  obtain ⟨htight, hne⟩ := tight_braces hprint.braces
  have hentries : (export_ s).set.entries ≠ [] := List.ne_nil_of_length_pos hone
  have hset : parse_set (set_value (export_ s).set) =
      .ok ((export_ s).set.entries.map set_entry) := parse_set_value rfl hentries
  refine ⟨?_, ?_, ?_⟩
  · rw [render_export, hprint.printed, Option.getD_some]
  · rw [← hset]
    refine parse_trimmed ?_ hlead htrail htight hne (strip_bare hprint.braces) hprint.parsed
    simp only [String.toList_append, List.append_assoc]
  · rw [← hset]
    refine parse_trimmed ?_ hlead htrail (tight_fenced _ _ _) (List.cons_ne_nil _ _)
      (strip_fenced hinner_lead hinner_trail htight hne) hprint.parsed
    have hfirst : "```json\n".toList = "```".toList ++ "json\n".toList := rfl
    simp only [String.toList_append, List.append_assoc, fenced, hfirst]

/-- A deferral whose condition holds a fence of its own. -/
def fenced_condition : DebugSession :=
  { DebugSession.new with
    pending_breakpoints := [⟨⟨"bp_", 1⟩, 7, "com.acme.Order", "Lcom/acme/Order;", some 42, none,
      none, none, none, some "tag == \"```\"", true, [], some 200, 1, none⟩] }

def fenced_condition_inner : String :=
  "\n  \"entries\": [\n    \x7b\n      \"args\": \x7b\n        " ++
  "\"class_pattern\": \"com.acme.Order\",\n        " ++
  "\"condition\": \"tag == \\\"```\\\"\",\n        \"line\": 42,\n        " ++
  "\"trace\": true,\n        \"trace_frames\": 1,\n        \"trace_max_hits\": 200\n" ++
  "      \x7d,\n" ++
  "      \"enabled\": true,\n      \"from\": \"bp_1\",\n" ++
  "      \"tool\": \"debug.set_line_stop\"\n    \x7d\n  ],\n  \"jdwp_mcp_stop_point_set\": 1\n"

def fenced_condition_text : String := "\x7b" ++ fenced_condition_inner ++ "\x7d"

/-- `serde_json` on a single value and its text. -/
def serde_of (v : Value) (text : String) : SerdeJson where
  to_string_pretty _ := some text
  from_str t := if t = text then .ok v else .error "expected value at line 1 column 1"

theorem printed_serde_of (v : Value) (inner : String) :
    Printed (serde_of v ("\x7b" ++ inner ++ "\x7d")) v ("\x7b" ++ inner ++ "\x7d") :=
  ⟨rfl, if_pos rfl, inner, rfl⟩

theorem exported_set_read_back_fence :
    parse (serde_of (set_value (export_ fenced_condition).set) fenced_condition_text)
      ("\n" ++ "```json\n" ++ "" ++ fenced_condition_text ++ "\n" ++ "```" ++ " ") =
        .ok ((export_ fenced_condition).set.entries.map set_entry) := by
  refine (exported_set_read_back _ _ _ (printed_serde_of _ _) ?_ "\n" " " "" "\n" ?_ ?_ ?_ ?_).2.2
  · exact Nat.one_pos
  all_goals simp [Space, is_whitespace]

end RoundTrip

end JavaDebug.SetTexts
