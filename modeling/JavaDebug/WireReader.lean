import JavaDebug.Cursors
import JavaDebug.EventLoop
import JavaDebug.RequestFraming

/-!
Reading what is on the wire: numbers of a fixed width, strings, and values whose
width their tag decides. Each reader checks what is left before it reads, and
reads back what was written. Ids are taken to be eight bytes wide.
-/
namespace JavaDebug.WireReader

open Octets Cursors EventLoop

section Primitives

abbrev Buf (α : Type) := Cursor UInt8 (Except JdwpError) α

/-- `Not enough data` for what was to be read. -/
def not_enough (what : String) (n remaining : ℕ) : JdwpError :=
  .protocol ("Not enough data for " ++ what ++ ": need " ++ toString n ++ " byte(s), have " ++
    toString remaining)

def ensure (n : ℕ) (what : String) : Buf Unit := fun buf =>
  if buf.length < n then .error (not_enough what n buf.length) else .ok ((), buf)

/-- The next `n` bytes, which `ensure` has found to be there. -/
def advance (n : ℕ) : Buf Bytes := fun buf => .ok (buf.take n, buf.drop n)

def fail {α : Type} (text : String) : Buf α := fun _ => .error (.protocol text)

def take (n : ℕ) (what : String) : Buf Bytes := do
  ensure n what
  advance n

/-- A big-endian number of `k` bytes. -/
def fixed {α : Type} (k : ℕ) (what : String) (f : ℕ → α) : Buf α := do
  let bytes ← take k what
  pure (f (value bytes))

def read_u8 : Buf UInt8 := fixed 1 "u8" UInt8.ofNat

def read_u32 : Buf UInt32 := fixed 4 "u32" UInt32.ofNat

def read_i32 : Buf Int32 := fixed 4 "i32" Int32.ofNat

def read_u64 : Buf UInt64 := fixed 8 "u64" UInt64.ofNat

def read_i64 : Buf Int64 := fixed 8 "i64" Int64.ofNat

/-- `String::from_utf8` -/
def from_utf8 (bytes : Bytes) : Option String := String.fromUTF8? ⟨bytes.toArray⟩

/-- The error names the encoding, and not where it goes wrong. -/
def utf8_string (bytes : Bytes) : Buf String :=
  match from_utf8 bytes with
  | some s => pure s
  | none => fail "Invalid UTF-8 in string"

def read_string : Buf String := do
  let len ← fixed 4 "string length" id
  let bytes ← take len "string body"
  utf8_string bytes

end Primitives

section Texts

/-- The ranges of the bytes that may follow a first byte, or `none` if no character starts so. -/
def followers (b : UInt8) : Option (List (UInt8 × UInt8)) :=
  if b < 0x80 then some []
  else if b < 0xC2 then none
  else if b < 0xE0 then some [(0x80, 0xBF)]
  else if b < 0xF0 then
    some [(if b = 0xE0 then 0xA0 else 0x80, if b = 0xED then 0x9F else 0xBF), (0x80, 0xBF)]
  else if b < 0xF5 then
    some [(if b = 0xF0 then 0x90 else 0x80, if b = 0xF4 then 0x8F else 0xBF), (0x80, 0xBF),
      (0x80, 0xBF)]
  else none

/-- How many bytes at the front are in their ranges. -/
def fitting : List (UInt8 × UInt8) → Bytes → ℕ
  | range :: ranges, b :: rest =>
    if range.1 ≤ b ∧ b ≤ range.2 then fitting ranges rest + 1 else 0
  | _, _ => 0

def char_of (b : UInt8) (rest : Bytes) : Char :=
  let lead := if rest = [] then b.toNat else b.toNat % 2 ^ (6 - rest.length)
  Char.ofNat (rest.foldl (fun n c => n * 64 + c.toNat % 64) lead)

/-- Each longest piece that starts no character, or does not finish one, is replaced. -/
def replace_invalid : ℕ → Bytes → List Char
  | n + 1, b :: rest =>
    match followers b with
    | none => '\uFFFD' :: replace_invalid n rest
    | some ranges =>
      let k := fitting ranges rest
      (if k = ranges.length then char_of b (rest.take k) else '\uFFFD') ::
        replace_invalid n (rest.drop k)
  | _, _ => []

/-- `String::from_utf8_lossy` -/
def from_utf8_lossy (bytes : Bytes) : String :=
  (from_utf8 bytes).getD (String.ofList (replace_invalid bytes.length bytes))

example : from_utf8_lossy [0x41, 0xE2, 0x82, 0xC3, 0xA9, 0xFF] = "A\uFFFDé\uFFFD" := by decide

/-- Every slash is replaced by a dot. -/
def dotted (s : String) : String :=
  String.ofList (s.toList.map fun c => if c = '/' then '.' else c)

end Texts

section Values

namespace value_tags

@[match_pattern] abbrev BYTE : UInt8 := 66
@[match_pattern] abbrev CHAR : UInt8 := 67
@[match_pattern] abbrev OBJECT : UInt8 := 76
@[match_pattern] abbrev FLOAT : UInt8 := 70
@[match_pattern] abbrev DOUBLE : UInt8 := 68
@[match_pattern] abbrev INT : UInt8 := 73
@[match_pattern] abbrev LONG : UInt8 := 74
@[match_pattern] abbrev SHORT : UInt8 := 83
@[match_pattern] abbrev VOID : UInt8 := 86
@[match_pattern] abbrev BOOLEAN : UInt8 := 90
@[match_pattern] abbrev STRING : UInt8 := 115
@[match_pattern] abbrev THREAD : UInt8 := 116
@[match_pattern] abbrev THREAD_GROUP : UInt8 := 103
@[match_pattern] abbrev CLASS_LOADER : UInt8 := 108
@[match_pattern] abbrev CLASS_OBJECT : UInt8 := 99
@[match_pattern] abbrev ARRAY : UInt8 := 91

end value_tags

/-- A floating-point value is its bits. -/
inductive ValueData
  | byte (v : Int8)
  | char (v : UInt16)
  | float (bits : UInt32)
  | double (bits : UInt64)
  | int (v : Int32)
  | long (v : Int64)
  | short (v : Int16)
  | boolean (v : Bool)
  | object (id : UInt64)
  | void
  deriving DecidableEq

structure Value where
  tag : UInt8
  data : ValueData
  deriving DecidableEq

open value_tags in
def value_width (tag : UInt8) : Except JdwpError ℕ :=
  match tag with
  | VOID => .ok 0
  | BYTE | BOOLEAN => .ok 1
  | CHAR | SHORT => .ok 2
  | FLOAT | INT => .ok 4
  | DOUBLE | LONG | OBJECT | STRING | THREAD | THREAD_GROUP | CLASS_LOADER | CLASS_OBJECT
  | ARRAY => .ok 8
  | _ => .error (.protocol ("Unknown value tag: " ++ toString tag.toNat))

open value_tags in
def data_of (tag : UInt8) (n : ℕ) : ValueData :=
  match tag with
  | BYTE => .byte (Int8.ofNat n)
  | CHAR => .char (UInt16.ofNat n)
  | DOUBLE => .double (UInt64.ofNat n)
  | FLOAT => .float (UInt32.ofNat n)
  | INT => .int (Int32.ofNat n)
  | LONG => .long (Int64.ofNat n)
  | SHORT => .short (Int16.ofNat n)
  | BOOLEAN => .boolean (UInt8.ofNat n ≠ 0)
  | VOID => .void
  | _ => .object (UInt64.ofNat n)

def read_value_by_tag (tag : UInt8) : Buf ValueData := do
  let width ← StateT.lift (value_width tag)
  fixed width "value" (data_of tag)

def read_value : Buf Value := do
  let tag ← read_u8
  let data ← read_value_by_tag tag
  pure ⟨tag, data⟩

end Values

section Written

open RequestFraming (put_u64 put_i32 as_bytes)

def put_u8 (n : UInt8) : Bytes := [n]

def put_i64 (n : Int64) : Bytes := put 8 n.toUInt64.toNat

/-- A value as `SetValues` sends it. -/
def write_untagged_value (v : Value) : Bytes :=
  match v.data with
  | .byte x => put 1 x.toUInt8.toNat
  | .char x => put 2 x.toNat
  | .float bits => put 4 bits.toNat
  | .double bits => put 8 bits.toNat
  | .int x => put 4 x.toUInt32.toNat
  | .long x => put 8 x.toUInt64.toNat
  | .short x => put 2 x.toUInt16.toNat
  | .boolean x => put 1 x.toNat
  | .object id => put 8 id.toNat
  | .void => []

def write_tagged_value (v : Value) : Bytes := put_u8 v.tag ++ write_untagged_value v

/-- A string that a four-byte length can count. -/
abbrev JdwpString := {s : String // (as_bytes s).length < 4294967296}

def put_string (s : JdwpString) : Bytes := put 4 (as_bytes s.val).length ++ as_bytes s.val

theorem i8_of_put (n : Int8) : Int8.ofNat n.toUInt8.toNat = n :=
  congrArg UInt8.toInt8 UInt8.ofNat_toNat

theorem i16_of_put (n : Int16) : Int16.ofNat n.toUInt16.toNat = n :=
  congrArg UInt16.toInt16 UInt16.ofNat_toNat

theorem i32_of_put (n : Int32) : Int32.ofNat n.toUInt32.toNat = n :=
  congrArg UInt32.toInt32 UInt32.ofNat_toNat

theorem i64_of_put (n : Int64) : Int64.ofNat n.toUInt64.toNat = n :=
  congrArg UInt64.toInt64 UInt64.ofNat_toNat

theorem run_fixed {α : Type} (k : ℕ) (what : String) (f : ℕ → α) (buf : Bytes) :
    fixed k what f buf = if buf.length < k then .error (not_enough what k buf.length)
      else .ok (f (value (buf.take k)), buf.drop k) := by
  show (ensure k what buf >>= fun r => advance k r.2) >>= (fun r => .ok (f (value r.1), r.2)) = _
  unfold ensure
  split
  · rfl
  · rfl

theorem reads_take (bytes : Bytes) (what : String) :
    Reads (take bytes.length what) bytes bytes := by
  intro rest
  have hroom : ¬ (bytes ++ rest).length < bytes.length := by
    rw [List.length_append]
    omega
  show (ensure bytes.length what (bytes ++ rest) >>= fun r => advance bytes.length r.2) = _
  rw [ensure, if_neg hroom]
  show Except.ok ((bytes ++ rest).take bytes.length, (bytes ++ rest).drop bytes.length) = _
  rw [List.take_left, List.drop_left]
  rfl

theorem reads_fixed {α : Type} {k n : ℕ} (what : String) (f : ℕ → α) (h : n < 256 ^ k) :
    Reads (fixed k what f) (put k n) (f n) := by
  have htake := reads_take (put k n) what
  rw [length_put] at htake
  have hread := htake.last (f := fun bytes => f (value bytes))
  rwa [value_put, Nat.mod_eq_of_lt h] at hread

theorem reads_u8 (n : UInt8) : Reads read_u8 (put_u8 n) n := by
  have h := reads_fixed "u8" UInt8.ofNat (k := 1) n.toNat_lt
  simpa only [read_u8, put, put_u8, List.nil_append, UInt8.ofNat_toNat] using h

theorem reads_i32 (n : Int32) : Reads read_i32 (put_i32 n) n := by
  have h := reads_fixed "i32" Int32.ofNat (k := 4) n.toUInt32.toNat_lt
  rwa [i32_of_put] at h

theorem reads_u64 (n : UInt64) : Reads read_u64 (put_u64 n) n := by
  have h := reads_fixed "u64" UInt64.ofNat (k := 8) n.toNat_lt
  rwa [UInt64.ofNat_toNat] at h

theorem reads_i64 (n : Int64) : Reads read_i64 (put_i64 n) n := by
  have h := reads_fixed "i64" Int64.ofNat (k := 8) n.toUInt64.toNat_lt
  rwa [i64_of_put] at h

theorem from_utf8_as_bytes (s : String) : from_utf8 (as_bytes s) = some s := by
  have hsame : (⟨(as_bytes s).toArray⟩ : ByteArray) = s.toByteArray := by
    simp [as_bytes]
  rw [from_utf8, hsame, String.fromUTF8?, dif_pos s.isValidUTF8]
  rfl

theorem reads_string (s : JdwpString) : Reads read_string (put_string s) s.val := by
  have hbytes := reads_take (as_bytes s.val) "string body"
  have hdecode : Reads (utf8_string (as_bytes s.val)) [] s.val := by
    rw [utf8_string, from_utf8_as_bytes]
    exact Reads.pure _
  have hbody := hbytes.bind hdecode
  rw [List.append_nil] at hbody
  exact (reads_fixed "string length" id s.property).bind hbody

end Written

end JavaDebug.WireReader
