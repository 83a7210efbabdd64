import JavaDebug.Jdwp
import JavaDebug.Octets

/-!
The packet body of `EventRequest.Set`. Six builders write it by hand, each with
its own count of the modifiers that follow; `parse` reads it by the grammar of
the protocol. The body is read back as the modifiers that were asked for,
except that a method-exit request does not count its `InstanceOnly` modifier,
and that a pattern too long for its length field cannot be read.
-/
namespace JavaDebug.RequestFraming

open Jdwp Octets

section Grammar

inductive Modifier
  | count (n : Int32)
  | conditional (expr : Int32)
  | thread_only (thread : UInt64)
  | class_only (class_ : UInt64)
  | class_match (pattern : Bytes)
  | class_exclude (pattern : Bytes)
  | location_only (tag : UInt8) (class_ method index : UInt64)
  | exception_only (class_ : UInt64) (caught uncaught : Bool)
  | field_only (class_ field : UInt64)
  | step (thread : UInt64) (size depth : Int32)
  | instance_only (object : UInt64)
  | source_name_match (pattern : Bytes)
  deriving DecidableEq

def get_u8 : Reader UInt8
  | [] => none
  | b :: rest => some (b, rest)

def get_u64 : Reader UInt64 := fun bs => (get 8 bs).map fun r => (UInt64.ofNat r.1, r.2)

def get_i32 : Reader Int32 := fun bs => (get 4 bs).map fun r => (Int32.ofNat r.1, r.2)

def get_bool : Reader Bool := fun bs => (get_u8 bs).map fun r => (r.1 ≠ 0, r.2)

/-- A string is behind its length, which is a signed number like every `int`. -/
def get_string : Reader Bytes := fun bs => do
  let (n, bs) ← get_i32 bs
  if n.toInt < 0 then none else chunk n.toInt.toNat bs

def get_modifier : Reader Modifier := fun bs => do
  let (tag, bs) ← get_u8 bs
  match tag.toNat with
  | 1 => (get_i32 bs).map fun r => (.count r.1, r.2)
  | 2 => (get_i32 bs).map fun r => (.conditional r.1, r.2)
  | 3 => (get_u64 bs).map fun r => (.thread_only r.1, r.2)
  | 4 => (get_u64 bs).map fun r => (.class_only r.1, r.2)
  | 5 => (get_string bs).map fun r => (.class_match r.1, r.2)
  | 6 => (get_string bs).map fun r => (.class_exclude r.1, r.2)
  | 7 =>
    let (tag, bs) ← get_u8 bs
    let (class_, bs) ← get_u64 bs
    let (method, bs) ← get_u64 bs
    let (index, bs) ← get_u64 bs
    some (.location_only tag class_ method index, bs)
  | 8 =>
    let (class_, bs) ← get_u64 bs
    let (caught, bs) ← get_bool bs
    let (uncaught, bs) ← get_bool bs
    some (.exception_only class_ caught uncaught, bs)
  | 9 =>
    let (class_, bs) ← get_u64 bs
    let (field, bs) ← get_u64 bs
    some (.field_only class_ field, bs)
  | 10 =>
    let (thread, bs) ← get_u64 bs
    let (size, bs) ← get_i32 bs
    let (depth, bs) ← get_i32 bs
    some (.step thread size depth, bs)
  | 11 => (get_u64 bs).map fun r => (.instance_only r.1, r.2)
  | 12 => (get_string bs).map fun r => (.source_name_match r.1, r.2)
  | _ => none

/-- Event kind, suspend policy, the number of modifiers, the modifiers, and nothing else. -/
def parse (bs : Bytes) : Option (UInt8 × UInt8 × List Modifier) := do
  let (kind, bs) ← get_u8 bs
  let (policy, bs) ← get_u8 bs
  let (n, bs) ← get_i32 bs
  if n.toInt < 0 then none
  else
    let (modifiers, bs) ← items get_modifier n.toInt.toNat bs
    if bs.isEmpty then some (kind, policy, modifiers) else none

end Grammar

section Builders

abbrev EventFilters := Jdwp.FiltersOf Int32 UInt64

inductive StepDepth
  | into
  | over
  | out
  deriving DecidableEq

def as_bytes (s : String) : Bytes := s.toUTF8.data.toList

def put_u64 (n : UInt64) : Bytes := put 8 n.toNat

def put_i32 (n : Int32) : Bytes := put 4 n.toUInt32.toNat

def put_bool (b : Bool) : Bytes := [if b then 1 else 0]

/-- `u32::try_from(len).unwrap_or(u32::MAX)` -/
def u32_len (n : ℕ) : ℕ := if n < 4294967296 then n else 4294967295

def write_jdwp_string (pat : Bytes) : Bytes := put 4 (u32_len pat.length) ++ pat

/-- `i32::from` of a flag. -/
def flag (b : Bool) : Int32 := if b then 1 else 0

/-- `i32::try_from(n).unwrap_or(d)` -/
def i32_or (n : ℕ) (d : Int32) : Int32 := if n < 2147483648 then Int32.ofNat n else d

def policy_byte : SuspendPolicy → UInt8
  | .none => 0
  | .eventThread => 1
  | .all => 2

def WatchKind.event_kind : WatchKind → UInt8
  | .access => 20
  | .modify => 21

def MonitorKind.event_kind : MonitorKind → UInt8
  | .blocked => 43
  | .acquired => 44
  | .wait => 45
  | .waited => 46

def method_exit_kind (with_return_value : Bool) : UInt8 := if with_return_value then 42 else 41

def write_count : Option Int32 → Bytes
  | none => []
  | some c => 1 :: put_i32 c

def write_thread : Option UInt64 → Bytes
  | none => []
  | some t => 3 :: put_u64 t

def write_count_thread (count : Option Int32) (thread : Option UInt64) : Bytes :=
  write_count count ++ write_thread thread

def write_instance_only : Option UInt64 → Bytes
  | none => []
  | some o => 11 :: put_u64 o

def write_class_only : Option UInt64 → Bytes
  | none => []
  | some t => 4 :: put_u64 t

def write_class_match (pat : String) : Bytes := 5 :: write_jdwp_string (as_bytes pat)

def write_class_exclude (pat : String) : Bytes := 6 :: write_jdwp_string (as_bytes pat)

def set_breakpoint_ex (class_id method_id bytecode_index : UInt64) (suspend_policy : SuspendPolicy)
    (filters : EventFilters) : Bytes :=
  let n_mods := 1 + flag filters.count.isSome + flag filters.thread.isSome +
    flag filters.instance_.isSome
  [2, policy_byte suspend_policy] ++ put_i32 n_mods ++
    (7 :: 1 :: (put_u64 class_id ++ put_u64 method_id ++ put_u64 bytecode_index)) ++
    write_count_thread filters.count filters.thread ++ write_instance_only filters.instance_

def set_exception_request_ex (ref_type : Option UInt64) (caught uncaught : Bool)
    (suspend_policy : SuspendPolicy) (filters : EventFilters) : Bytes :=
  let n_mods := 1 + flag filters.count.isSome + flag filters.thread.isSome +
    flag filters.instance_.isSome
  [4, policy_byte suspend_policy] ++ put_i32 n_mods ++
    (8 :: (put_u64 (ref_type.getD 0) ++ put_bool caught ++ put_bool uncaught)) ++
    write_count_thread filters.count filters.thread ++ write_instance_only filters.instance_

def set_field_watch_ex (ref_type field_id : UInt64) (kind : WatchKind)
    (suspend_policy : SuspendPolicy) (filters : EventFilters) : Bytes :=
  let n_mods := 1 + flag filters.count.isSome + flag filters.thread.isSome +
    flag filters.instance_.isSome
  [WatchKind.event_kind kind, policy_byte suspend_policy] ++ put_i32 n_mods ++
    (9 :: (put_u64 ref_type ++ put_u64 field_id)) ++
    write_count_thread filters.count filters.thread ++ write_instance_only filters.instance_

/-- Here `n_mods` has no term for the instance filter. -/
def set_method_exit_request_ex (class_pattern : String) (with_return_value : Bool)
    (suspend_policy : SuspendPolicy) (exclude : List String) (filters : EventFilters) : Bytes :=
  let n_mods := 1 + flag filters.count.isSome + flag filters.thread.isSome +
    i32_or exclude.length 0
  [method_exit_kind with_return_value, policy_byte suspend_policy] ++ put_i32 n_mods ++
    write_class_match class_pattern ++ exclude.flatMap write_class_exclude ++
    write_count_thread filters.count filters.thread ++ write_instance_only filters.instance_

def set_monitor_request (kind : MonitorKind) (suspend_policy : SuspendPolicy)
    (monitor_class : Option UInt64) (filters : EventFilters) : Bytes :=
  let n_mods := flag monitor_class.isSome + flag filters.count.isSome +
    flag filters.thread.isSome + flag filters.instance_.isSome
  [MonitorKind.event_kind kind, policy_byte suspend_policy] ++ put_i32 n_mods ++
    write_class_only monitor_class ++
    write_count_thread filters.count filters.thread ++ write_instance_only filters.instance_

def step_depth : StepDepth → Int32
  | .into => 0
  | .over => 1
  | .out => 2

def set_step_ex (thread : UInt64) (depth : StepDepth) (exclude only : List String) : Bytes :=
  let n_mods := 1 + exclude.length + only.length
  [1, policy_byte .all] ++ put_i32 (i32_or n_mods 2147483647) ++
    (10 :: (put_u64 thread ++ put_i32 1 ++ put_i32 (step_depth depth))) ++
    only.flatMap write_class_match ++ exclude.flatMap write_class_exclude

end Builders

section Requests

/-- One call of a builder. -/
inductive Request
  | breakpoint (class_id method_id bytecode_index : UInt64) (suspend_policy : SuspendPolicy)
      (filters : EventFilters)
  | exception (ref_type : Option UInt64) (caught uncaught : Bool) (suspend_policy : SuspendPolicy)
      (filters : EventFilters)
  | field_watch (ref_type field_id : UInt64) (kind : WatchKind) (suspend_policy : SuspendPolicy)
      (filters : EventFilters)
  | method_exit (class_pattern : String) (with_return_value : Bool)
      (suspend_policy : SuspendPolicy) (exclude : List String) (filters : EventFilters)
  | monitor (kind : MonitorKind) (suspend_policy : SuspendPolicy) (monitor_class : Option UInt64)
      (filters : EventFilters)
  | step (thread : UInt64) (depth : StepDepth) (exclude only : List String)

namespace Request

def body : Request → Bytes
  | breakpoint c m i p f => set_breakpoint_ex c m i p f
  | exception r c u p f => set_exception_request_ex r c u p f
  | field_watch r i k p f => set_field_watch_ex r i k p f
  | method_exit c r p e f => set_method_exit_request_ex c r p e f
  | monitor k p c f => set_monitor_request k p c f
  | step t d e o => set_step_ex t d e o

def event_kind : Request → UInt8
  | breakpoint _ _ _ _ _ => 2
  | exception _ _ _ _ _ => 4
  | field_watch _ _ k _ _ => WatchKind.event_kind k
  | method_exit _ r _ _ _ => method_exit_kind r
  | monitor k _ _ _ => MonitorKind.event_kind k
  | step _ _ _ _ => 1

def suspend_policy : Request → SuspendPolicy
  | breakpoint _ _ _ p _ | exception _ _ _ p _ | field_watch _ _ _ p _ => p
  | method_exit _ _ p _ _ | monitor _ p _ _ => p
  | step _ _ _ _ => .all

end Request

/-- The modifiers that the filters ask for. -/
def EventFilters.asked (f : EventFilters) : List Modifier :=
  (f.count.map .count).toList ++ (f.thread.map .thread_only).toList ++
    (f.instance_.map .instance_only).toList

/-- The modifiers that the arguments of the call ask for. -/
def Request.asked : Request → List Modifier
  | breakpoint c m i _ f => .location_only 1 c m i :: f.asked
  | exception r c u _ f => .exception_only (r.getD 0) c u :: f.asked
  | field_watch r i _ _ f => .field_only r i :: f.asked
  | method_exit c _ _ e f =>
    .class_match (as_bytes c) :: e.map (fun p => .class_exclude (as_bytes p)) ++ f.asked
  | monitor _ _ c f => (c.map .class_only).toList ++ f.asked
  | step t d e o =>
    .step t 1 (step_depth d) :: o.map (fun p => .class_match (as_bytes p)) ++
      e.map (fun p => .class_exclude (as_bytes p))

/-- The patterns that the call writes as strings. -/
def Request.patterns : Request → List String
  | breakpoint _ _ _ _ _ | exception _ _ _ _ _ | field_watch _ _ _ _ _ | monitor _ _ _ _ => []
  | method_exit c _ _ e _ => c :: e
  | step _ _ e o => o ++ e

/-- The method-exit builder does not count the instance filter it writes. -/
def Request.miscounts : Request → Bool
  | method_exit _ _ _ _ f => f.instance_.isSome
  | _ => false

end Requests

section Fields

theorem get_u64_put (n : UInt64) (rest : Bytes) : get_u64 (put_u64 n ++ rest) = some (n, rest) := by
  rw [get_u64, put_u64, get_put n.toNat_lt]
  simp

theorem get_i32_put (n : Int32) (rest : Bytes) : get_i32 (put_i32 n ++ rest) = some (n, rest) := by
  rw [get_i32, put_i32, get_put n.toUInt32.toNat_lt]
  exact congrArg some (Prod.ext (by exact congrArg UInt32.toInt32 UInt32.ofNat_toNat) rfl)

theorem get_bool_put (b : Bool) (rest : Bytes) :
    get_bool (put_bool b ++ rest) = some (b, rest) := by
  cases b <;> rfl

theorem toInt_ofNat {n : ℕ} (h : n < 2147483648) : (Int32.ofNat n).toInt = n :=
  Int32.toInt_ofNat_of_lt h

theorem toInt_ofNat_neg {n : ℕ} (h : 2147483648 ≤ n) (h' : n < 4294967296) :
    (Int32.ofNat n).toInt < 0 := by
  rw [Int32.toInt_ofNat', Int.bmod_def]
  simp only [Int32.size]
  omega

theorem get_string_put {pat : Bytes} (h : pat.length < 2147483648) (rest : Bytes) :
    get_string (write_jdwp_string pat ++ rest) = some (pat, rest) := by
  have hlen : u32_len pat.length = pat.length := if_pos (by omega)
  have hn : get 4 (put 4 (u32_len pat.length) ++ (pat ++ rest)) =
      some (pat.length, pat ++ rest) := by
    rw [hlen]
    exact get_put (by omega) _
  simp only [get_string, write_jdwp_string, get_i32, List.append_assoc, hn, Option.map_some,
    Option.bind_eq_bind, Option.bind_some, toInt_ofNat h, Int.toNat_natCast]
  rw [if_neg (by omega)]
  exact chunk_append pat rest

theorem get_string_long {pat : Bytes} (h : 2147483648 ≤ pat.length) (rest : Bytes) :
    get_string (write_jdwp_string pat ++ rest) = none := by
  have hlen : 2147483648 ≤ u32_len pat.length ∧ u32_len pat.length < 4294967296 := by
    unfold u32_len
    split <;> omega
  have hn : get 4 (put 4 (u32_len pat.length) ++ (pat ++ rest)) =
      some (u32_len pat.length, pat ++ rest) := get_put (by omega) _
  simp only [get_string, write_jdwp_string, get_i32, List.append_assoc, hn, Option.map_some,
    Option.bind_eq_bind, Option.bind_some]
  rw [if_pos (toInt_ofNat_neg hlen.1 hlen.2)]

end Fields

section Modifiers

/-- The bytes of a modifier; the builders write only some of the kinds. -/
def Modifier.written : Modifier → Bytes
  | count n => 1 :: put_i32 n
  | conditional e => 2 :: put_i32 e
  | thread_only t => 3 :: put_u64 t
  | class_only c => 4 :: put_u64 c
  | class_match p => 5 :: write_jdwp_string p
  | class_exclude p => 6 :: write_jdwp_string p
  | location_only tag c m i => 7 :: tag :: (put_u64 c ++ put_u64 m ++ put_u64 i)
  | exception_only c a u => 8 :: (put_u64 c ++ put_bool a ++ put_bool u)
  | field_only c f => 9 :: (put_u64 c ++ put_u64 f)
  | step t s d => 10 :: (put_u64 t ++ put_i32 s ++ put_i32 d)
  | instance_only o => 11 :: put_u64 o
  | source_name_match p => 12 :: write_jdwp_string p

def Modifier.pattern : Modifier → Option Bytes
  | class_match p | class_exclude p | source_name_match p => some p
  | _ => none

/-- A modifier whose pattern, if it has one, fits its length field. -/
def Modifier.Fits (m : Modifier) : Prop := ∀ p, m.pattern = some p → p.length < 2147483648

theorem get_modifier_written (m : Modifier) (h : m.Fits) (rest : Bytes) :
    get_modifier (m.written ++ rest) = some (m, rest) := by
  cases m with
  | count n => simp [get_modifier, Modifier.written, get_u8, get_i32_put]
  | conditional e => simp [get_modifier, Modifier.written, get_u8, get_i32_put]
  | thread_only t => simp [get_modifier, Modifier.written, get_u8, get_u64_put]
  | class_only c => simp [get_modifier, Modifier.written, get_u8, get_u64_put]
  | instance_only o => simp [get_modifier, Modifier.written, get_u8, get_u64_put]
  | class_match p => exact congrArg (Option.map _) (get_string_put (h p rfl) rest)
  | class_exclude p => exact congrArg (Option.map _) (get_string_put (h p rfl) rest)
  | source_name_match p => exact congrArg (Option.map _) (get_string_put (h p rfl) rest)
  | location_only tag c m i =>
    simp [get_modifier, Modifier.written, get_u8, get_u64_put]
  | exception_only c a u =>
    simp [get_modifier, Modifier.written, get_u8, get_u64_put, get_bool_put]
  | field_only c f =>
    simp [get_modifier, Modifier.written, get_u8, get_u64_put]
  | step t s d =>
    simp [get_modifier, Modifier.written, get_u8, get_u64_put, get_i32_put]

theorem get_modifier_long (m : Modifier) (h : ¬ m.Fits) (rest : Bytes) :
    get_modifier (m.written ++ rest) = none := by
  obtain ⟨p, hp, hlen⟩ : ∃ p, m.pattern = some p ∧ 2147483648 ≤ p.length := by
    simpa [Modifier.Fits] using h
  cases m <;> simp only [Modifier.pattern, reduceCtorEq, Option.some.injEq] at hp <;> subst hp <;>
    exact congrArg (Option.map _) (get_string_long hlen rest)

variable (f : EventFilters)

theorem filters_written :
    f.asked.flatMap Modifier.written =
      write_count_thread f.count f.thread ++ write_instance_only f.instance_ := by
  rcases f with ⟨_ | c, _ | t, _ | o⟩ <;>
    simp [EventFilters.asked, write_count_thread, write_count, write_thread, write_instance_only,
      Modifier.written]

theorem filters_length : f.asked.length =
    f.count.isSome.toNat + f.thread.isSome.toNat + f.instance_.isSome.toNat := by
  rcases f with ⟨_ | c, _ | t, _ | o⟩ <;> rfl

theorem flag_eq (b : Bool) : flag b = Int32.ofNat b.toNat := by
  cases b <;> rfl

theorem i32_or_eq {n : ℕ} (d : Int32) (h : n < 2147483648) : i32_or n d = Int32.ofNat n := if_pos h

/-- How many modifiers the body claims. -/
def Request.counted (r : Request) : ℕ := r.asked.length - r.miscounts.toNat

theorem flags_eq :
    flag f.count.isSome + flag f.thread.isSome + flag f.instance_.isSome =
      Int32.ofNat f.asked.length := by
  rw [filters_length]
  simp only [flag_eq, Int32.ofNat_add]

theorem own_and_flags :
    1 + flag f.count.isSome + flag f.thread.isSome + flag f.instance_.isSome =
      Int32.ofNat (f.asked.length + 1) := by
  rw [Int32.ofNat_add, ← flags_eq]
  change _ = _ + (1 : Int32)
  ac_rfl

theorem class_match_written (l : List String) :
    (l.map fun p => Modifier.class_match (as_bytes p)).flatMap Modifier.written =
      l.flatMap write_class_match := by
  rw [List.flatMap_map]
  rfl

theorem class_exclude_written (l : List String) :
    (l.map fun p => Modifier.class_exclude (as_bytes p)).flatMap Modifier.written =
      l.flatMap write_class_exclude := by
  rw [List.flatMap_map]
  rfl

/-- Every body is its two bytes, a count, and the modifiers asked for. -/
theorem body_eq (r : Request) (h : r.asked.length < 2147483648) :
    r.body = r.event_kind :: policy_byte r.suspend_policy ::
      (put_i32 (Int32.ofNat r.counted) ++ r.asked.flatMap Modifier.written) := by
  cases r with
  | breakpoint c m i p f =>
    simp [Request.body, set_breakpoint_ex, Request.counted, Request.asked, Request.miscounts,
      Request.event_kind, Request.suspend_policy, Modifier.written, filters_written, own_and_flags]
  | exception r c u p f =>
    simp [Request.body, set_exception_request_ex, Request.counted, Request.asked,
      Request.miscounts, Request.event_kind, Request.suspend_policy, Modifier.written,
      filters_written, own_and_flags]
  | field_watch r i k p f =>
    simp [Request.body, set_field_watch_ex, Request.counted, Request.asked, Request.miscounts,
      Request.event_kind, Request.suspend_policy, Modifier.written, filters_written, own_and_flags]
  | method_exit c r p e f =>
    have hlen : e.length < 2147483648 := by
      simp only [Request.asked, List.length_append, List.length_cons, List.length_map] at h
      omega
    have hcounted : (Request.method_exit c r p e f).counted =
        1 + f.count.isSome.toNat + f.thread.isSome.toNat + e.length := by
      simp only [Request.counted, Request.asked, Request.miscounts, List.length_append,
        List.length_cons, List.length_map, filters_length]
      omega
    have hn : 1 + flag f.count.isSome + flag f.thread.isSome + i32_or e.length 0 =
        Int32.ofNat (Request.method_exit c r p e f).counted := by
      rw [hcounted, i32_or_eq 0 hlen]
      simp only [flag_eq, Int32.ofNat_add]
      rfl
    simp only [Request.body, set_method_exit_request_ex, hn]
    simp [Request.asked, Request.event_kind, Request.suspend_policy, filters_written,
      ← class_exclude_written, Modifier.written, write_class_match]
  | monitor k p c f =>
    cases c with
    | none =>
      have hn : flag false + flag f.count.isSome + flag f.thread.isSome + flag f.instance_.isSome =
          Int32.ofNat f.asked.length := by
        rw [← flags_eq]
        simp [flag]
      simp [Request.body, set_monitor_request, Request.counted, Request.asked, Request.miscounts,
        Request.event_kind, Request.suspend_policy, filters_written, write_class_only, hn]
    | some t =>
      have hn : flag true + flag f.count.isSome + flag f.thread.isSome + flag f.instance_.isSome =
          Int32.ofNat (f.asked.length + 1) := own_and_flags f
      simp [Request.body, set_monitor_request, Request.counted, Request.asked, Request.miscounts,
        Request.event_kind, Request.suspend_policy, filters_written, write_class_only, hn,
        Modifier.written]
  | step t d e o =>
    have hn : i32_or (1 + e.length + o.length) 2147483647 =
        Int32.ofNat (Request.step t d e o).counted := by
      simp only [Request.asked, List.length_append, List.length_cons, List.length_map] at h
      rw [i32_or_eq _ (by omega)]
      simp only [Request.counted, Request.asked, Request.miscounts, List.length_append,
        List.length_cons, List.length_map]
      exact congrArg Int32.ofNat (by simp; omega)
    simp only [Request.body, set_step_ex, hn]
    simp [Request.asked, Request.event_kind, Request.suspend_policy, ← class_match_written,
      ← class_exclude_written, Modifier.written]

end Modifiers

section Framing

/-- What `parse` makes of two bytes, a count and a list of modifiers. -/
theorem parse_counted (kind policy : UInt8) {n : ℕ} (hn : n < 2147483648) (bs : Bytes) :
    parse (kind :: policy :: (put_i32 (Int32.ofNat n) ++ bs)) =
      (items get_modifier n bs).bind fun r =>
        if r.2.isEmpty then some (kind, policy, r.1) else none := by
  simp only [parse, get_u8, get_i32_put, Option.bind_eq_bind, Option.bind_some, toInt_ofNat hn,
    Int.toNat_natCast]
  rw [if_neg (by omega)]

/-- The first pattern that is too long ends the reading. -/
theorem items_long {l : List Modifier} (h : ∃ m ∈ l, ¬ m.Fits) :
    ∃ before m after, l = before ++ m :: after ∧ (∀ b ∈ before, b.Fits) ∧ ¬ m.Fits := by
  induction l with
  | nil => simp at h
  | cons a l ih =>
    by_cases ha : a.Fits
    · obtain ⟨m, hm, hlong⟩ := h
      have hml : m ∈ l := by
        rcases List.mem_cons.mp hm with rfl | hm
        · exact absurd ha hlong
        · exact hm
      obtain ⟨before, m', after, rfl, hbefore, hm'⟩ := ih ⟨m, hml, hlong⟩
      refine ⟨a :: before, m', after, rfl, fun b hb => ?_, hm'⟩
      rcases List.mem_cons.mp hb with rfl | hb
      · exact ha
      · exact hbefore b hb
    · exact ⟨[], a, l, rfl, by simp, ha⟩

theorem asked_of_miscounts {r : Request} (h : r.miscounts = true) :
    ∃ l o, r.asked = l ++ [.instance_only o] := by
  cases r with
  | method_exit c w p e f =>
    obtain ⟨o, ho⟩ := Option.isSome_iff_exists.mp h
    refine ⟨.class_match (as_bytes c) :: e.map (fun p => .class_exclude (as_bytes p)) ++
      ((f.count.map .count).toList ++ (f.thread.map .thread_only).toList), o, ?_⟩
    simp [Request.asked, EventFilters.asked, ho]
  | breakpoint _ _ _ _ _ => cases h
  | exception _ _ _ _ _ => cases h
  | field_watch _ _ _ _ _ => cases h
  | monitor _ _ _ _ => cases h
  | step _ _ _ _ => cases h

theorem fits_instance (o : UInt64) : (Modifier.instance_only o).Fits := by
  intro p hp
  cases hp

theorem written_ne_nil (m : Modifier) : m.written ≠ [] := by
  cases m <;> simp [Modifier.written]

/-- A body with patterns that fit is read back exactly when its count is right. -/
theorem parse_fitting_iff (r : Request) (h : r.asked.length < 2147483648)
    (hfits : ∀ m ∈ r.asked, m.Fits) :
    parse r.body = some (r.event_kind, policy_byte r.suspend_policy, r.asked) ↔
      r.miscounts = false := by
  have hle : r.counted ≤ r.asked.length := Nat.sub_le _ _
  have hread := items_take r.asked (fun m hm rest => get_modifier_written m (hfits m hm) rest)
    hle []
  rw [List.append_nil] at hread
  rw [body_eq r h, parse_counted _ _ (Nat.lt_of_le_of_lt hle h), hread, Option.bind_some]
  cases hm : r.miscounts with
  | false =>
    have hcount : r.counted = r.asked.length := by simp [Request.counted, hm]
    simp [hcount]
  | true =>
    obtain ⟨l, o, hl⟩ := asked_of_miscounts hm
    have hcount : r.counted = l.length := by simp [Request.counted, hm, hl]
    rw [hcount, hl, List.drop_left]
    simp [written_ne_nil]

theorem parse_long {r : Request} (h : r.asked.length < 2147483648) (hlong : ¬ ∀ m ∈ r.asked, m.Fits)
    : parse r.body = none := by
  have hle : r.counted ≤ r.asked.length := Nat.sub_le _ _
  obtain ⟨before, m, after, hasked, hbefore, hm⟩ := items_long (l := r.asked) (by
    simpa only [not_forall, exists_prop] using hlong)
  have hlt : before.length < r.counted := by
    have hlen : r.asked.length = before.length + after.length + 1 := by
      simp [hasked, Nat.add_assoc]
    cases hmis : r.miscounts with
    | false =>
      simp only [Request.counted, hmis, Bool.toNat_false]
      omega
    | true =>
      obtain ⟨l, o, hl⟩ := asked_of_miscounts hmis
      have hafter : after ≠ [] := by
        rintro rfl
        obtain ⟨-, hlast⟩ := List.append_inj' (hl.symm.trans hasked) rfl
        exact hm (List.singleton_inj.mp hlast ▸ fits_instance o)
      have hpos := List.length_pos_iff.mpr hafter
      simp only [Request.counted, hmis, Bool.toNat_true]
      omega
  rw [body_eq r h, parse_counted _ _ (Nat.lt_of_le_of_lt hle h), hasked, List.flatMap_append,
    List.flatMap_cons,
    items_stuck before (fun b hb rest => get_modifier_written b (hbefore b hb) rest)
      (get_modifier_long m hm _) hlt]
  rfl

theorem fits_class_match (p : Bytes) : (Modifier.class_match p).Fits ↔ p.length < 2147483648 := by
  simp [Modifier.Fits, Modifier.pattern]

theorem fits_class_exclude (p : Bytes) :
    (Modifier.class_exclude p).Fits ↔ p.length < 2147483648 := by
  simp [Modifier.Fits, Modifier.pattern]

theorem filters_fit (f : EventFilters) : ∀ m ∈ f.asked, m.Fits := by
  rcases f with ⟨_ | c, _ | t, _ | o⟩ <;>
    simp [EventFilters.asked, Modifier.Fits, Modifier.pattern]

theorem fits_iff (r : Request) :
    (∀ m ∈ r.asked, m.Fits) ↔ ∀ p ∈ r.patterns, (as_bytes p).length < 2147483648 := by
  cases r with
  | breakpoint c m i p f =>
    simpa [Request.asked, Request.patterns, Modifier.Fits, Modifier.pattern] using filters_fit f
  | exception r c u p f =>
    simpa [Request.asked, Request.patterns, Modifier.Fits, Modifier.pattern] using filters_fit f
  | field_watch r i k p f =>
    simpa [Request.asked, Request.patterns, Modifier.Fits, Modifier.pattern] using filters_fit f
  | monitor k p c f =>
    cases c <;>
      simpa [Request.asked, Request.patterns, Modifier.Fits, Modifier.pattern] using filters_fit f
  | method_exit c w p e f =>
    simp only [Request.asked, Request.patterns, List.cons_append, List.forall_mem_cons,
      List.forall_mem_append, fits_class_match, List.forall_mem_map, fits_class_exclude]
    exact and_congr_right fun _ => and_iff_left (filters_fit f)
  | step t d e o =>
    simp only [Request.asked, Request.patterns, List.cons_append, List.forall_mem_cons,
      List.forall_mem_append, fits_class_match, List.forall_mem_map, fits_class_exclude]
    simp [Modifier.Fits, Modifier.pattern]

/-- The body of an `EventRequest.Set` is read back as the kind, the policy and the modifiers the
arguments ask for, unless the call is for a method exit with an instance filter or a pattern is
too long for a length field. -/
theorem set_body_parses_iff (r : Request) (h : r.asked.length < 2147483648) :
    parse r.body = some (r.event_kind, policy_byte r.suspend_policy, r.asked) ↔
      r.miscounts = false ∧ ∀ p ∈ r.patterns, (as_bytes p).length < 2147483648 := by
  rw [← fits_iff]
  by_cases hfits : ∀ m ∈ r.asked, m.Fits
  · exact (parse_fitting_iff r h hfits).trans ⟨fun hm => ⟨hm, hfits⟩, And.left⟩
  · simp only [parse_long h hfits, reduceCtorEq, hfits, and_false]

/-- A breakpoint request of one thread, once. -/
def once_on_thread : Request :=
  .breakpoint 1 2 3 .eventThread ⟨some 1, some 7, none⟩

theorem once_on_thread_parses : parse once_on_thread.body = some (2, 1,
    [.location_only 1 1 2 3, .count 1, .thread_only 7]) :=
  (set_body_parses_iff once_on_thread (by decide)).mpr
    ⟨rfl, by simp [Request.patterns, once_on_thread]⟩

/-- Method exits of one class, for one instance. -/
def exits_of_instance : Request := .method_exit "A" false .all [] ⟨none, none, some 9⟩

theorem exits_of_instance_unreadable : exits_of_instance.asked.length < 2147483648 ∧
    parse exits_of_instance.body ≠ some (exits_of_instance.event_kind,
      policy_byte exits_of_instance.suspend_policy, exits_of_instance.asked) := by
  have hlen : exits_of_instance.asked.length < 2147483648 := by decide
  refine ⟨hlen, fun h => ?_⟩
  have hfits : ∀ m ∈ exits_of_instance.asked, m.Fits := by
    refine (fits_iff _).mpr fun p hp => ?_
    obtain rfl : p = "A" := by simpa [Request.patterns, exits_of_instance] using hp
    decide
  cases (parse_fitting_iff _ hlen hfits).mp h

end Framing

end JavaDebug.RequestFraming
