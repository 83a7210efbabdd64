import JavaDebug.EncodedClasses
import JavaDebug.Watches

/-!
The class-file parser at the level of its fixed-width counters: a position in a
slice, a `u16` index over the constant pool, and notes of every read, of every
turn of the walk over the pool and of every sum that a counter has to hold. It
is the parser of class files in what it returns. Its notes are in order except
for one kind of file: a pool of the greatest length whose last index is that of
a long or a double, where the index has no room for its second slot.
-/
namespace JavaDebug.ClassReads

open Octets Watches
open ClassFiles (ClassFile ClassFileMethod ClassFileField Constant SKIP utf8 class_name ClassHeader
  CodeAttribute method_of)
open WireReader (from_utf8_lossy)

section Parser

/-- A turn of the walk over the pool, a read of `n` bytes from a position on in a slice of a
length, and a value that a counter of a width has to hold. -/
inductive Event
  | turn
  | read (at_ n len : ℕ)
  | counter (width value : ℕ)
  deriving DecidableEq

abbrev Parse (α : Type) := Watch UInt8 Event String α

/-- The bytes of a slice; none is longer than `isize::MAX`. -/
abbrev Slice := {bs : Bytes // bs.length < 9223372036854775808}

def take (n : ℕ) : Parse Bytes := fun data at_ =>
  if 18446744073709551616 ≤ at_ + n then (.error "class file: length overflow", [])
  else if data.length < at_ + n then
    (.error ("class file is truncated: wanted " ++ toString n ++ " byte(s) at offset " ++
      toString at_ ++ ", file is " ++ toString data.length ++ " byte(s)"), [])
  else (.ok ((data.drop at_).take n, at_ + n), [.read at_ n data.length])

def u8 : Parse UInt8 := do
  let b ← take 1
  pure (UInt8.ofNat (value b))

def u16 : Parse UInt16 := do
  let b ← take 2
  pure (UInt16.ofNat (value b))

def u32 : Parse UInt32 := do
  let high ← u16
  let low ← u16
  pure (UInt32.ofNat (high.toNat * 65536 + low.toNat))

def skip (n : ℕ) : Parse Unit := do
  let _ ← take n
  pure ()

def refuse {α : Type} (text : String) : Parse α := settle (.error text)

def read_constant (tag : UInt8) (at_ : UInt16) : Parse Constant :=
  if tag = 1 then do
    let len ← u16
    let bytes ← take len.toNat
    pure (.utf8 (from_utf8_lossy bytes))
  else if tag = 7 then do
    let name_index ← u16
    pure (.class_ name_index)
  else
    match SKIP.find? fun entry => entry.1 = tag with
    | some (_, width) => do
      skip width
      pure .other
    | none =>
      refuse ("class file: unknown constant pool tag " ++ toString tag.toNat ++ " at entry " ++
        toString at_.toNat)

/-- `i += slots`, which wraps where it is not checked. -/
def advance (i : UInt16) (slots : ℕ) : Parse UInt16 := do
  note (.counter 16 (i.toNat + slots))
  pure (i + UInt16.ofNat slots)

/-- Each entry has a tag, so there are no more of them than bytes. -/
def pool_entries (count : UInt16) : ℕ → UInt16 → List Constant → Parse (List Constant)
  | 0, _, pool => pure pool
  | n + 1, i, pool =>
    if i < count then do
      note .turn
      let tag ← u8
      let entry ← read_constant tag i
      let slots := if tag = 5 ∨ tag = 6 then 2 else 1
      let next ← advance i slots
      pool_entries count n next (pool ++ if slots = 2 then [entry, .other] else [entry])
    else pure pool

/-- What is left to read, in bytes. -/
def left : Parse ℕ := fun data at_ => (.ok (data.length - at_, at_), [])

def parse_constant_pool : Parse (List Constant) := do
  let count ← u16
  let n ← left
  pool_entries count (n + 1) 1 [.other]

variable (pool : List Constant)

def read_utf8 : Parse String := do
  let index ← u16
  settle (utf8 pool index)

def read_class_name : Parse String := do
  let index ← u16
  settle (class_name pool index)

def read_super_class : Parse (Option String) := do
  let super_index ← u16
  if super_index = 0 then pure none
  else do
    let name ← settle (class_name pool super_index)
    pure (some name)

def parse_header : Parse ClassHeader := do
  let access_flags ← u16
  let this_class ← read_class_name pool
  let super_class ← read_super_class pool
  let count ← u16
  let interfaces ← repeated (read_class_name pool) count.toNat
  pure ⟨access_flags, this_class, super_class, interfaces⟩

def skip_attribute : Parse Unit := do
  skip 2
  let len ← u32
  skip len.toNat

def parse_field : Parse ClassFileField := do
  let access_flags ← u16
  let name ← read_utf8 pool
  let descriptor ← read_utf8 pool
  let attrs ← u16
  let _ ← repeated skip_attribute attrs.toNat
  pure ⟨access_flags, name, descriptor⟩

def parse_fields : Parse (List ClassFileField) := do
  let count ← u16
  repeated (parse_field pool) count.toNat

def read_line : Parse (UInt64 × Int32) := do
  let start_pc ← u16
  let line ← u16
  pure (start_pc.toUInt64, Int32.ofNat line.toNat)

/-- The body of a `LineNumberTable`. -/
def read_line_number_table : Parse (List (UInt64 × Int32)) := do
  let entries ← u16
  repeated read_line entries.toNat

def code_attributes (pool : List Constant) : ℕ → Parse (Option (List (UInt64 × Int32)))
  | 0 => pure none
  | n + 1 => do
    let name ← read_utf8 pool
    let len ← u32
    if name = "LineNumberTable" then do
      let body ← take len.toNat
      let lines ← within body read_line_number_table
      pure (some lines)
    else do
      skip len.toNat
      code_attributes pool n

/-- The body of a `Code`. -/
def parse_code_body : Parse CodeAttribute := do
  skip 4
  let code_len ← u32
  let code ← take code_len.toNat
  let exceptions ← u16
  note (.counter 64 (exceptions.toNat * 8))
  skip (exceptions.toNat * 8)
  let attrs ← u16
  let lines ← code_attributes pool attrs.toNat
  pure ⟨lines.getD [], lines.isSome, code⟩

def method_attributes (pool : List Constant) :
    ℕ → Option CodeAttribute → Parse (Option CodeAttribute)
  | 0, found => pure found
  | n + 1, found => do
    let attr_name ← read_utf8 pool
    let len ← u32
    if attr_name = "Code" then do
      let body ← take len.toNat
      let attr ← within body (parse_code_body pool)
      method_attributes pool n (some attr)
    else do
      skip len.toNat
      method_attributes pool n found

def parse_one_method : Parse ClassFileMethod := do
  let access_flags ← u16
  let name ← read_utf8 pool
  let descriptor ← read_utf8 pool
  let attrs ← u16
  let attr ← method_attributes pool attrs.toNat none
  pure (method_of access_flags name descriptor attr)

def parse_methods : Parse (List ClassFileMethod) := do
  let count ← u16
  repeated (parse_one_method pool) count.toNat

def parse_rest : Parse ClassFile := do
  let header ← parse_header pool
  let fields ← parse_fields pool
  let methods ← parse_methods pool
  pure ⟨header.this_class, header.access_flags, header.super_class, header.interfaces, fields,
    methods⟩

def parse_file : Parse ClassFile := do
  let magic ← u32
  if magic ≠ 0xCAFEBABE then refuse "not a class file: it does not start with 0xCAFEBABE"
  else do
    skip 4
    let pool ← parse_constant_pool
    parse_rest pool

def parse (bytes : Slice) : Except String ClassFile := (parse_file bytes.val 0).1.map Prod.fst

def parse_notes (bytes : Slice) : List Event := (parse_file bytes.val 0).2

end Parser

section Agreement

abbrev SameAs {α : Type} (m : Parse α) (p : ℕ → ClassFiles.Parse α) : Prop :=
  Agrees 9223372036854775808 m p

variable {n : ℕ}

theorem same_take (hn : n < 9223372036854775808) :
    SameAs (take n) fun size => ClassFiles.take size n := by
  intro data at_ hlimit hat
  have hroom : ¬ 18446744073709551616 ≤ at_ + n := by omega
  have hdrop : (data.drop at_).length = data.length - at_ := List.length_drop
  by_cases hshort : data.length < at_ + n
  · have hoffset : data.length - (data.length - at_) = at_ := by omega
    have hleft : ClassFiles.take data.length n (data.drop at_) =
        .error ("class file is truncated: wanted " ++ toString n ++ " byte(s) at offset " ++
          toString at_ ++ ", file is " ++ toString data.length ++ " byte(s)") := by
      unfold ClassFiles.take
      simp only [hdrop, hoffset]
      rw [if_pos (by omega)]
    unfold take
    rw [if_neg hroom, if_pos hshort]
    exact hleft
  · have hleft : ClassFiles.take data.length n (data.drop at_) =
        .ok ((data.drop at_).take n, data.drop (at_ + n)) := by
      unfold ClassFiles.take
      simp only [hdrop, List.drop_drop]
      rw [if_neg (by omega)]
    unfold take
    rw [if_neg hroom, if_neg hshort]
    exact ⟨by omega, hleft⟩

theorem take_returned (data : Bytes) (at_ : ℕ) (hlimit : data.length < 9223372036854775808)
    (body : Bytes) (at' : ℕ) (h : (take n data at_).1 = .ok (body, at')) :
    body.length < 9223372036854775808 := by
  unfold take at h
  split at h
  · cases h
  · split at h
    · cases h
    · cases h
      rw [List.length_take, List.length_drop]
      omega

theorem same_u8 : SameAs u8 ClassFiles.u8 :=
  agrees_bind (same_take (by omega)) fun _ => agrees_pure _

theorem same_u16 : SameAs u16 ClassFiles.u16 :=
  agrees_bind (same_take (by omega)) fun _ => agrees_pure _

theorem same_u32 : SameAs u32 ClassFiles.u32 :=
  agrees_bind same_u16 fun _ => agrees_bind same_u16 fun _ => agrees_pure _

theorem same_skip (hn : n < 9223372036854775808) :
    SameAs (skip n) fun size => ClassFiles.skip size n :=
  agrees_bind (same_take hn) fun _ => agrees_pure ()

variable {α : Type}

theorem same_refuse (text : String) :
    SameAs (refuse text : Parse α) fun _ => ClassFiles.refuse text := agrees_settle _

theorem same_read_constant (tag : UInt8) (at_ : UInt16) :
    SameAs (read_constant tag at_) fun size => ClassFiles.read_constant size tag at_ := by
  unfold read_constant ClassFiles.read_constant
  by_cases hutf8 : tag = 1
  · simp only [hutf8, if_true]
    refine agrees_bind same_u16 fun len => ?_
    have hlen := len.toNat_lt
    exact agrees_bind (same_take (by omega)) fun bytes => agrees_pure _
  · by_cases hclass : tag = 7
    · subst hclass
      exact agrees_bind same_u16 fun name_index => agrees_pure _
    · simp only [hutf8, hclass, if_false]
      cases hfind : SKIP.find? fun entry => entry.1 = tag with
      | none => exact same_refuse _
      | some entry =>
        have hmem := List.mem_of_find?_eq_some hfind
        have hwidth : ∀ entry ∈ SKIP, entry.2 ≤ 8 := by decide
        have hle := hwidth entry hmem
        exact agrees_bind (same_skip (by omega)) fun _ => agrees_pure _

theorem same_advance {i : UInt16} {slots : ℕ} {f : UInt16 → Parse α} {p : ℕ → ClassFiles.Parse α}
    (h : SameAs (f (i + UInt16.ofNat slots)) p) :
    SameAs (advance i slots >>= f) p := h

theorem same_pool_entries (count : UInt16) (n : ℕ) (i : UInt16) (pool : List Constant) :
    SameAs (pool_entries count n i pool) fun size =>
      ClassFiles.pool_entries size count n i pool := by
  induction n generalizing i pool with
  | zero => exact agrees_pure pool
  | succ n ih =>
    unfold pool_entries ClassFiles.pool_entries
    by_cases hi : i < count
    · simp only [hi, if_true]
      refine agrees_note (agrees_bind same_u8 fun tag => ?_)
      refine agrees_bind (same_read_constant tag i) fun entry => ?_
      by_cases htwo : tag = 5 ∨ tag = 6
      · simp only [htwo, if_true]
        exact same_advance (ih (i + 2) (pool ++ [entry, .other]))
      · simp only [htwo, if_false]
        exact same_advance (ih (i + 1) (pool ++ [entry]))
    · simp only [hi, if_false]
      exact agrees_pure pool

theorem same_left {f : ℕ → Parse α} {g : ℕ → ℕ → ClassFiles.Parse α}
    (h : ∀ n, SameAs (f n) fun size => g size n) :
    SameAs (left >>= f) fun size data => g size data.length data := by
  intro data at_ hlimit hat
  have hleft : left data at_ = (.ok (data.length - at_, at_), []) := rfl
  have hn := h (data.length - at_) data at_ hlimit hat
  rw [bind_ok hleft]
  rw [← List.length_drop] at hn ⊢
  exact hn

theorem same_parse_constant_pool : SameAs parse_constant_pool ClassFiles.parse_constant_pool :=
  agrees_bind same_u16 fun count =>
    same_left (g := fun size n => ClassFiles.pool_entries size count (n + 1) 1 [.other]) fun n =>
      same_pool_entries count (n + 1) 1 [.other]

variable (pool : List Constant)

theorem same_read_utf8 : SameAs (read_utf8 pool) fun size => ClassFiles.read_utf8 size pool :=
  agrees_bind same_u16 fun _ => agrees_settle _

theorem same_read_class_name :
    SameAs (read_class_name pool) fun size => ClassFiles.read_class_name size pool :=
  agrees_bind same_u16 fun _ => agrees_settle _

theorem same_read_super_class :
    SameAs (read_super_class pool) fun size => ClassFiles.read_super_class size pool := by
  refine agrees_bind same_u16 fun super_index => ?_
  by_cases hzero : super_index = 0
  · simp only [hzero, if_true]
    exact agrees_pure none
  · simp only [hzero, if_false]
    exact agrees_bind (agrees_settle _) fun name => agrees_pure (some name)

theorem same_parse_header :
    SameAs (parse_header pool) fun size => ClassFiles.parse_header size pool := by
  refine agrees_bind same_u16 fun access_flags => ?_
  refine agrees_bind (same_read_class_name pool) fun this_class => ?_
  refine agrees_bind (same_read_super_class pool) fun super_class => ?_
  refine agrees_bind same_u16 fun count => ?_
  refine agrees_bind (agrees_repeated (same_read_class_name pool) count.toNat) fun interfaces => ?_
  exact agrees_pure _

theorem same_skip_length {len : UInt32} :
    SameAs (skip len.toNat) fun size => ClassFiles.skip size len.toNat := by
  have hlen := len.toNat_lt
  exact same_skip (by omega)

theorem same_take_length {len : UInt32} :
    SameAs (take len.toNat) fun size => ClassFiles.take size len.toNat := by
  have hlen := len.toNat_lt
  exact same_take (by omega)

theorem same_skip_attribute : SameAs skip_attribute ClassFiles.skip_attribute :=
  agrees_bind (same_skip (by omega)) fun _ => agrees_bind same_u32 fun _ => same_skip_length

theorem same_parse_fields :
    SameAs (parse_fields pool) fun size => ClassFiles.parse_fields size pool := by
  refine agrees_bind same_u16 fun count => agrees_repeated ?_ count.toNat
  refine agrees_bind same_u16 fun access_flags => ?_
  refine agrees_bind (same_read_utf8 pool) fun name => ?_
  refine agrees_bind (same_read_utf8 pool) fun descriptor => ?_
  refine agrees_bind same_u16 fun attrs => ?_
  exact agrees_bind (agrees_repeated same_skip_attribute attrs.toNat) fun _ => agrees_pure _

theorem same_read_line_number_table : SameAs read_line_number_table ClassFiles.line_entries := by
  refine agrees_bind same_u16 fun entries => agrees_repeated ?_ entries.toNat
  exact agrees_bind same_u16 fun _ => agrees_bind same_u16 fun _ => agrees_pure _

theorem same_code_attributes (n : ℕ) :
    SameAs (code_attributes pool n) fun size => ClassFiles.code_attributes size pool n := by
  induction n with
  | zero => exact agrees_pure none
  | succ n ih =>
    refine agrees_bind (same_read_utf8 pool) fun name => ?_
    refine agrees_bind same_u32 fun len => ?_
    by_cases hlines : name = "LineNumberTable"
    · simp only [hlines, if_true]
      refine agrees_bind_returned same_take_length take_returned fun body hbody => ?_
      exact agrees_bind (agrees_within same_read_line_number_table hbody) fun lines =>
        agrees_pure (some lines)
    · simp only [hlines, if_false]
      exact agrees_bind same_skip_length fun _ => ih

theorem same_parse_code_body :
    SameAs (parse_code_body pool) fun size => ClassFiles.code_body size pool := by
  refine agrees_bind (same_skip (by omega)) fun _ => ?_
  refine agrees_bind same_u32 fun code_len => ?_
  refine agrees_bind same_take_length fun code => ?_
  refine agrees_bind same_u16 fun exceptions => ?_
  have hexceptions := exceptions.toNat_lt
  refine agrees_note (agrees_bind (same_skip (by omega)) fun _ => ?_)
  refine agrees_bind same_u16 fun attrs => ?_
  exact agrees_bind (same_code_attributes pool attrs.toNat) fun lines => agrees_pure _

theorem same_method_attributes (n : ℕ) (found : Option CodeAttribute) :
    SameAs (method_attributes pool n found) fun size =>
      ClassFiles.method_attributes size pool n found := by
  induction n generalizing found with
  | zero => exact agrees_pure found
  | succ n ih =>
    refine agrees_bind (same_read_utf8 pool) fun attr_name => ?_
    refine agrees_bind same_u32 fun len => ?_
    by_cases hcode : attr_name = "Code"
    · simp only [hcode, if_true]
      refine agrees_bind_returned same_take_length take_returned fun body hbody => ?_
      exact agrees_bind (agrees_within (same_parse_code_body pool) hbody) fun attr =>
        ih (some attr)
    · simp only [hcode, if_false]
      exact agrees_bind same_skip_length fun _ => ih found

theorem same_parse_methods :
    SameAs (parse_methods pool) fun size => ClassFiles.parse_methods size pool := by
  refine agrees_bind same_u16 fun count => agrees_repeated ?_ count.toNat
  refine agrees_bind same_u16 fun access_flags => ?_
  refine agrees_bind (same_read_utf8 pool) fun name => ?_
  refine agrees_bind (same_read_utf8 pool) fun descriptor => ?_
  refine agrees_bind same_u16 fun attrs => ?_
  exact agrees_bind (same_method_attributes pool attrs.toNat none) fun attr => agrees_pure _

theorem same_parse_file : SameAs parse_file ClassFiles.parse_file := by
  refine agrees_bind same_u32 fun magic => ?_
  by_cases hmagic : magic ≠ 0xCAFEBABE
  · simp only [if_pos hmagic]
    exact same_refuse _
  · simp only [if_neg hmagic]
    refine agrees_bind (same_skip (by omega)) fun _ => ?_
    refine agrees_bind same_parse_constant_pool fun pool => ?_
    refine agrees_bind (same_parse_header pool) fun header => ?_
    refine agrees_bind (same_parse_fields pool) fun fields => ?_
    exact agrees_bind (same_parse_methods pool) fun methods => agrees_pure _

/-- The counters change nothing in what is returned. -/
theorem parse_eq (bytes : Slice) : parse bytes = ClassFiles.parse bytes.val := by
  have h := same_parse_file bytes.val 0 bytes.property (Nat.zero_le _)
  rw [List.drop_zero] at h
  unfold parse ClassFiles.parse
  rcases hr : (parse_file bytes.val 0).1 with e | ⟨a, at'⟩
  · rw [hr] at h
    rw [h]
    rfl
  · rw [hr] at h
    rw [h.2]
    rfl

end Agreement

section Reads

def Event.Fine : Event → Prop
  | .turn => True
  | .read at_ n len => at_ + n ≤ len
  | .counter width value => value < 2 ^ width

/-- Fine, and no turn of the walk. -/
def Event.Quiet (e : Event) : Prop := e ≠ .turn ∧ e.Fine

abbrev Reading {α : Type} (m : Parse α) : Prop := Notes Event.Quiet m

theorem reading_take (n : ℕ) : Reading (take n) := by
  intro data at_ e he
  unfold take at he
  split at he
  · cases he
  · split at he
    · cases he
    · rename_i hfits
      rw [List.mem_singleton.mp he]
      refine ⟨Event.noConfusion, ?_⟩
      change at_ + n ≤ data.length
      omega

theorem reading_u8 : Reading u8 := notes_bind (reading_take 1) fun _ => notes_pure _

theorem reading_u16 : Reading u16 := notes_bind (reading_take 2) fun _ => notes_pure _

theorem reading_u32 : Reading u32 :=
  notes_bind reading_u16 fun _ => notes_bind reading_u16 fun _ => notes_pure _

theorem reading_skip (n : ℕ) : Reading (skip n) :=
  notes_bind (reading_take n) fun _ => notes_pure ()

theorem reading_read_constant (tag : UInt8) (at_ : UInt16) : Reading (read_constant tag at_) := by
  unfold read_constant
  split
  · refine notes_bind reading_u16 fun len => ?_
    exact notes_bind (reading_take len.toNat) fun _ => notes_pure _
  · split
    · exact notes_bind reading_u16 fun _ => notes_pure _
    · split
      · exact notes_bind (reading_skip _) fun _ => notes_pure _
      · exact notes_settle _

variable (pool : List Constant)

theorem reading_read_utf8 : Reading (read_utf8 pool) :=
  notes_bind reading_u16 fun _ => notes_settle _

theorem reading_read_class_name : Reading (read_class_name pool) :=
  notes_bind reading_u16 fun _ => notes_settle _

theorem reading_read_super_class : Reading (read_super_class pool) := by
  refine notes_bind reading_u16 fun super_index => ?_
  split
  · exact notes_pure none
  · exact notes_bind (notes_settle _) fun name => notes_pure (some name)

theorem reading_parse_header : Reading (parse_header pool) := by
  refine notes_bind reading_u16 fun access_flags => ?_
  refine notes_bind (reading_read_class_name pool) fun this_class => ?_
  refine notes_bind (reading_read_super_class pool) fun super_class => ?_
  refine notes_bind reading_u16 fun count => ?_
  exact notes_bind (notes_repeated (reading_read_class_name pool) count.toNat) fun _ => notes_pure _

theorem reading_skip_attribute : Reading skip_attribute :=
  notes_bind (reading_skip 2) fun _ => notes_bind reading_u32 fun len => reading_skip len.toNat

theorem reading_parse_fields : Reading (parse_fields pool) := by
  refine notes_bind reading_u16 fun count => notes_repeated ?_ count.toNat
  refine notes_bind reading_u16 fun access_flags => ?_
  refine notes_bind (reading_read_utf8 pool) fun name => ?_
  refine notes_bind (reading_read_utf8 pool) fun descriptor => ?_
  refine notes_bind reading_u16 fun attrs => ?_
  exact notes_bind (notes_repeated reading_skip_attribute attrs.toNat) fun _ => notes_pure _

theorem reading_read_line_number_table : Reading read_line_number_table := by
  refine notes_bind reading_u16 fun entries => notes_repeated ?_ entries.toNat
  exact notes_bind reading_u16 fun _ => notes_bind reading_u16 fun _ => notes_pure _

theorem reading_code_attributes (n : ℕ) : Reading (code_attributes pool n) := by
  induction n with
  | zero => exact notes_pure none
  | succ n ih =>
    refine notes_bind (reading_read_utf8 pool) fun name => notes_bind reading_u32 fun len => ?_
    split
    · refine notes_bind (reading_take len.toNat) fun body => ?_
      exact notes_bind (notes_within reading_read_line_number_table body) fun lines => notes_pure _
    · exact notes_bind (reading_skip len.toNat) fun _ => ih

theorem reading_parse_code_body : Reading (parse_code_body pool) := by
  refine notes_bind (reading_skip 4) fun _ => ?_
  refine notes_bind reading_u32 fun code_len => ?_
  refine notes_bind (reading_take code_len.toNat) fun code => ?_
  refine notes_bind reading_u16 fun exceptions => ?_
  have hexceptions := exceptions.toNat_lt
  have hfits : exceptions.toNat * 8 < 2 ^ 64 := by omega
  refine notes_bind (notes_note ⟨Event.noConfusion, hfits⟩) fun _ => ?_
  refine notes_bind (reading_skip (exceptions.toNat * 8)) fun _ => ?_
  refine notes_bind reading_u16 fun attrs => ?_
  exact notes_bind (reading_code_attributes pool attrs.toNat) fun _ => notes_pure _

theorem reading_method_attributes (n : ℕ) (found : Option CodeAttribute) :
    Reading (method_attributes pool n found) := by
  induction n generalizing found with
  | zero => exact notes_pure found
  | succ n ih =>
    refine notes_bind (reading_read_utf8 pool) fun name => notes_bind reading_u32 fun len => ?_
    split
    · refine notes_bind (reading_take len.toNat) fun body => ?_
      exact notes_bind (notes_within (reading_parse_code_body pool) body) fun attr => ih (some attr)
    · exact notes_bind (reading_skip len.toNat) fun _ => ih found

theorem reading_parse_methods : Reading (parse_methods pool) := by
  refine notes_bind reading_u16 fun count => notes_repeated ?_ count.toNat
  refine notes_bind reading_u16 fun access_flags => ?_
  refine notes_bind (reading_read_utf8 pool) fun name => ?_
  refine notes_bind (reading_read_utf8 pool) fun descriptor => ?_
  refine notes_bind reading_u16 fun attrs => ?_
  exact notes_bind (reading_method_attributes pool attrs.toNat none) fun _ => notes_pure _

theorem reading_parse_rest : Reading (parse_rest pool) := by
  refine notes_bind (reading_parse_header pool) fun header => ?_
  refine notes_bind (reading_parse_fields pool) fun fields => ?_
  exact notes_bind (reading_parse_methods pool) fun methods => notes_pure _

end Reads

section Constants

open EncodedClasses (ConstantInfo put_u16 put_u32)
open WireReader (put_u8)

variable {body data rest : Bytes} {size : ℕ}

theorem exists_u16 (h : body.length = 2) : ∃ n, put_u16 n = body := by
  have hlt := value_lt body
  rw [h] at hlt
  refine ⟨UInt16.ofNat (value body), ?_⟩
  unfold put_u16
  rw [UInt16.toNat_ofNat_of_lt' hlt, ← h, put_value]

theorem exists_u32 (h : body.length = 4) : ∃ n, put_u32 n = body := by
  have hlt := value_lt body
  rw [h] at hlt
  refine ⟨UInt32.ofNat (value body), ?_⟩
  unfold put_u32
  rw [UInt32.toNat_ofNat_of_lt' hlt, ← h, put_value]

theorem exists_u64 (h : body.length = 8) : ∃ n : UInt64, put 8 n.toNat = body := by
  have hlt := value_lt body
  rw [h] at hlt
  refine ⟨UInt64.ofNat (value body), ?_⟩
  rw [UInt64.toNat_ofNat_of_lt' hlt, ← h, put_value]

theorem exists_pair (h : body.length = 4) : ∃ i j, put_u16 i ++ put_u16 j = body := by
  obtain ⟨i, hi⟩ := @exists_u16 (body.take 2) (by rw [List.length_take]; omega)
  obtain ⟨j, hj⟩ := @exists_u16 (body.drop 2) (by rw [List.length_drop]; omega)
  exact ⟨i, j, by rw [hi, hj, List.take_append_drop]⟩

theorem exists_handle (h : body.length = 3) : ∃ kind i, put_u8 kind ++ put_u16 i = body := by
  cases body with
  | nil => cases h
  | cons kind rest =>
    obtain ⟨i, hi⟩ := @exists_u16 rest (by rw [List.length_cons] at h; omega)
    exact ⟨kind, i, by rw [hi]; rfl⟩

theorem take_inv {n : ℕ} (h : ClassFiles.take size n data = .ok (body, rest)) :
    data = body ++ rest ∧ body.length = n := by
  unfold ClassFiles.take at h
  by_cases hshort : data.length < n
  · rw [if_pos hshort] at h
    cases h
  · rw [if_neg hshort] at h
    cases h
    refine ⟨(List.take_append_drop n data).symm, ?_⟩
    rw [List.length_take]
    omega

/-- Whatever is skipped over under a tag is an entry of that tag. -/
theorem exists_constant {tag : UInt8} {width : ℕ} (hskip : (tag, width) ∈ SKIP)
    (h : body.length = width) : ∃ c : ConstantInfo, c.tag = tag ∧ c.payload = body := by
  simp only [SKIP, List.mem_cons, Prod.mk.injEq, List.not_mem_nil, or_false] at hskip
  rcases hskip with ⟨rfl, rfl⟩ | ⟨rfl, rfl⟩ | ⟨rfl, rfl⟩ | ⟨rfl, rfl⟩ | ⟨rfl, rfl⟩ | ⟨rfl, rfl⟩ |
    ⟨rfl, rfl⟩ | ⟨rfl, rfl⟩ | ⟨rfl, rfl⟩ | ⟨rfl, rfl⟩ | ⟨rfl, rfl⟩ | ⟨rfl, rfl⟩ | ⟨rfl, rfl⟩ |
    ⟨rfl, rfl⟩ | ⟨rfl, rfl⟩
  · obtain ⟨i, hi⟩ := exists_u16 h
    exact ⟨.string i, rfl, hi⟩
  · obtain ⟨i, hi⟩ := exists_u16 h
    exact ⟨.method_type i, rfl, hi⟩
  · obtain ⟨i, hi⟩ := exists_u16 h
    exact ⟨.module i, rfl, hi⟩
  · obtain ⟨i, hi⟩ := exists_u16 h
    exact ⟨.package i, rfl, hi⟩
  · obtain ⟨kind, i, hi⟩ := exists_handle h
    exact ⟨.method_handle kind i, rfl, hi⟩
  · obtain ⟨n, hn⟩ := exists_u32 h
    exact ⟨.integer n, rfl, hn⟩
  · obtain ⟨n, hn⟩ := exists_u32 h
    exact ⟨.float n, rfl, hn⟩
  · obtain ⟨i, j, hij⟩ := exists_pair h
    exact ⟨.fieldref i j, rfl, hij⟩
  · obtain ⟨i, j, hij⟩ := exists_pair h
    exact ⟨.methodref i j, rfl, hij⟩
  · obtain ⟨i, j, hij⟩ := exists_pair h
    exact ⟨.interface_methodref i j, rfl, hij⟩
  · obtain ⟨i, j, hij⟩ := exists_pair h
    exact ⟨.name_and_type i j, rfl, hij⟩
  · obtain ⟨i, j, hij⟩ := exists_pair h
    exact ⟨.dynamic i j, rfl, hij⟩
  · obtain ⟨i, j, hij⟩ := exists_pair h
    exact ⟨.invoke_dynamic i j, rfl, hij⟩
  · obtain ⟨n, hn⟩ := exists_u64 h
    exact ⟨.long n, rfl, hn⟩
  · obtain ⟨n, hn⟩ := exists_u64 h
    exact ⟨.double n, rfl, hn⟩

theorem u8_inv {n : UInt8} (h : ClassFiles.u8 size data = .ok (n, rest)) :
    data = put_u8 n ++ rest := by
  obtain ⟨body, mid, htake, hpure⟩ := Cursors.ok_of_bind h
  cases hpure
  obtain ⟨rfl, hlen⟩ := take_inv htake
  obtain ⟨b, rfl⟩ := List.length_eq_one_iff.mp hlen
  simp [put_u8, value]

theorem u16_inv {n : UInt16} (h : ClassFiles.u16 size data = .ok (n, rest)) :
    data = put_u16 n ++ rest := by
  obtain ⟨body, mid, htake, hpure⟩ := Cursors.ok_of_bind h
  cases hpure
  obtain ⟨rfl, hlen⟩ := take_inv htake
  have hlt := value_lt body
  rw [hlen] at hlt
  unfold put_u16
  rw [UInt16.toNat_ofNat_of_lt' hlt, ← hlen, put_value]

theorem u32_inv {n : UInt32} (h : ClassFiles.u32 size data = .ok (n, rest)) :
    data = put_u32 n ++ rest := by
  obtain ⟨high, mid, hhigh, hrest⟩ := Cursors.ok_of_bind h
  obtain ⟨low, last, hlow, hpure⟩ := Cursors.ok_of_bind hrest
  cases hpure
  have hnumber : value (put_u16 high ++ put_u16 low) = high.toNat * 65536 + low.toNat := by
    have hlt := high.toNat_lt
    have hlt' := low.toNat_lt
    unfold put_u16
    rw [value_append, value_put, value_put, length_put]
    omega
  have hbytes := put_value (put_u16 high ++ put_u16 low)
  have hlen : (put_u16 high ++ put_u16 low).length = 4 := by
    rw [List.length_append, put_u16, put_u16, length_put, length_put]
  have hlt := value_lt (put_u16 high ++ put_u16 low)
  rw [hlen] at hbytes hlt
  rw [u16_inv hhigh, u16_inv hlow, put_u32, ← hnumber, UInt32.toNat_ofNat_of_lt' hlt, hbytes,
    List.append_assoc]

theorem read_constant_inv {tag : UInt8} {at_ : UInt16} {entry : Constant}
    (h : ClassFiles.read_constant size tag at_ data = .ok (entry, rest)) :
    ∃ c : ConstantInfo, c.tag = tag ∧ data = c.payload ++ rest := by
  unfold ClassFiles.read_constant at h
  split at h
  · rename_i htag
    obtain ⟨len, mid, hlen, htext⟩ := Cursors.ok_of_bind h
    obtain ⟨bytes, last, htake, hpure⟩ := Cursors.ok_of_bind htext
    cases hpure
    obtain ⟨rfl, hsize⟩ := take_inv htake
    have hdata := u16_inv hlen
    have hlt := len.toNat_lt
    refine ⟨.utf8 ⟨bytes, by omega⟩, htag.symm, ?_⟩
    change data = (put 2 bytes.length ++ bytes) ++ rest
    rw [hdata, hsize, List.append_assoc]
    rfl
  · split at h
    · rename_i htag
      obtain ⟨name_index, mid, hindex, hpure⟩ := Cursors.ok_of_bind h
      cases hpure
      exact ⟨.class_ name_index, htag.symm, u16_inv hindex⟩
    · rcases hfind : SKIP.find? fun entry => entry.1 = tag with - | ⟨entry_tag, width⟩
      · simp only [hfind] at h
        cases h
      · simp only [hfind] at h
        obtain ⟨u, mid, hskip, hpure⟩ := Cursors.ok_of_bind h
        cases hpure
        obtain ⟨body, last, htake, hunit⟩ := Cursors.ok_of_bind hskip
        cases hunit
        obtain ⟨rfl, hlen⟩ := take_inv htake
        have htag : entry_tag = tag := by simpa using List.find?_some hfind
        have hmem := List.mem_of_find?_eq_some hfind
        rw [htag] at hmem
        obtain ⟨c, hc, rfl⟩ := exists_constant hmem hlen
        exact ⟨c, hc, rfl⟩

theorem slots_length (c : ConstantInfo) :
    c.slots.length = if c.tag = 5 ∨ c.tag = 6 then 2 else 1 := by
  cases c <;> simp [ConstantInfo.slots, ConstantInfo.tag]

end Constants

section Walk

open EncodedClasses (ConstantInfo put_u16 put_u32 reads_u8 reads_u16 reads_u32 reads_skip
  reads_constant)
open WireReader (put_u8)

/-- From index `i` on, the pool comes to a two-slot constant at the last index that a pool of the
greatest length has. -/
def Overruns (count : UInt16) (i : ℕ) (data : Bytes) : Prop :=
  ∃ (entries : List ConstantInfo) (last : ConstantInfo) (rest : Bytes),
    data = entries.flatMap ConstantInfo.bytes ++ (last.bytes ++ rest) ∧
    (last.tag = 5 ∨ last.tag = 6) ∧ count = 65535 ∧
    i + (entries.flatMap ConstantInfo.slots).length = 65534

variable {rest : Bytes} {count : UInt16}

theorem bytes_unique {c c' : ConstantInfo} {rest' : Bytes} (h : c.bytes ++ rest = c'.bytes ++ rest')
    : c.tag = c'.tag ∧ rest = rest' := by
  have hcons : c.tag :: (c.payload ++ rest) = c'.tag :: (c'.payload ++ rest') := h
  obtain ⟨htag, hpayload⟩ := List.cons.inj hcons
  have hread := reads_constant 0 c 0 rest
  have hread' := reads_constant 0 c' 0 rest'
  rw [← htag, ← hpayload, hread] at hread'
  exact ⟨htag, congrArg Prod.snd (Except.ok.inj hread')⟩

variable {i : ℕ}

theorem overruns_cons {c : ConstantInfo} (h : ¬ (count = 65535 ∧ i + c.slots.length = 65536)) :
    Overruns count i (c.bytes ++ rest) ↔ Overruns count (i + c.slots.length) rest := by
  refine ⟨fun ⟨entries, last, left, hdata, hlast, hcount, hsum⟩ => ?_,
    fun ⟨entries, last, left, hdata, hlast, hcount, hsum⟩ => ?_⟩
  · cases entries with
    | nil =>
      obtain ⟨htag, -⟩ := bytes_unique hdata
      rw [← htag] at hlast
      have hslots := slots_length c
      rw [if_pos hlast] at hslots
      rw [List.flatMap_nil, List.length_nil] at hsum
      exact absurd ⟨hcount, by omega⟩ h
    | cons c' entries =>
      rw [List.flatMap_cons, List.append_assoc] at hdata
      obtain ⟨htag, hrest⟩ := bytes_unique hdata
      have hslots : c'.slots.length = c.slots.length := by
        rw [slots_length, slots_length, htag]
      rw [List.flatMap_cons, List.length_append, hslots] at hsum
      exact ⟨entries, last, left, hrest, hlast, hcount, by omega⟩
  · refine ⟨c :: entries, last, left, ?_, hlast, hcount, ?_⟩
    · rw [List.flatMap_cons, List.append_assoc, hdata]
    · rw [List.flatMap_cons, List.length_append]
      omega

variable {data : Bytes} {at_ : ℕ}

theorem went_on {α : Type} {m : Parse α} {p : ℕ → ClassFiles.Parse α} (h : SameAs m p)
    (hlimit : data.length < 9223372036854775808) (hat : at_ ≤ data.length) {xs : Bytes} {a : α}
    (hreads : ∀ size, Cursors.Reads (p size) xs a) (hdata : data.drop at_ = xs ++ rest) :
    ∃ at' notes, m data at_ = (.ok (a, at'), notes) ∧ at' ≤ data.length ∧
      data.drop at' = rest := by
  have hm := h data at_ hlimit hat
  have hp := hreads data.length rest
  rw [← hdata] at hp
  rcases hr : m data at_ with ⟨⟨e⟩ | ⟨b, at'⟩, notes⟩
  · rw [hr, hp] at hm
    cases hm
  · rw [hr] at hm
    obtain ⟨hle, hm⟩ := hm
    rw [hp] at hm
    obtain ⟨rfl, hrest⟩ := Prod.mk.inj (Except.ok.inj hm)
    exact ⟨at', notes, rfl, hle, hrest.symm⟩

theorem entry_step (i : UInt16) {β : Type} (k : UInt8 → Constant → Parse β)
    (hlimit : data.length < 9223372036854775808) (hat : at_ ≤ data.length) :
    (∃ (c : ConstantInfo) (entry : Constant) (at' : ℕ) (notes : List Event),
      at_ < at' ∧ at' ≤ data.length ∧
      data.drop at_ = c.bytes ++ data.drop at' ∧ (∀ e ∈ notes, Event.Quiet e) ∧
      (u8 >>= fun tag => read_constant tag i >>= fun entry => k tag entry) data at_ =
        ((k c.tag entry data at').1, notes ++ (k c.tag entry data at').2)) ∨
    (∀ (c : ConstantInfo) rest, data.drop at_ ≠ c.bytes ++ rest) ∧
      ∃ e notes, (∀ e ∈ notes, Event.Quiet e) ∧
        (u8 >>= fun tag => read_constant tag i >>= fun entry => k tag entry) data at_ =
          (.error e, notes) := by
  have hu8 := reading_u8 data at_
  have hsame := same_u8 data at_ hlimit hat
  rcases htag : u8 data at_ with ⟨⟨e⟩ | ⟨tag, at₁⟩, notes⟩
  · rw [htag] at hu8 hsame
    refine .inr ⟨fun c rest hdata => ?_, e, notes, hu8, bind_error htag _⟩
    have hreads := reads_u8 data.length c.tag (c.payload ++ rest)
    rw [hdata] at hsame
    change ClassFiles.u8 data.length (put_u8 c.tag ++ (c.payload ++ rest)) = _ at hsame
    rw [hreads] at hsame
    cases hsame
  · rw [htag] at hu8 hsame
    obtain ⟨hat₁, hsame⟩ := hsame
    have hdata := u8_inv hsame
    have hconstant := reading_read_constant tag i data at₁
    have hsame' := same_read_constant tag i data at₁ hlimit hat₁
    rw [bind_ok htag]
    rcases hentry : read_constant tag i data at₁ with ⟨⟨e⟩ | ⟨entry, at'⟩, notes'⟩
    · rw [hentry] at hconstant hsame'
      rw [bind_error hentry]
      refine .inr ⟨fun c rest hbytes => ?_, e, notes ++ notes', ?_, rfl⟩
      · have hcons : tag :: data.drop at₁ = c.tag :: (c.payload ++ rest) := hdata.symm.trans hbytes
        obtain ⟨rfl, hleft⟩ := List.cons.inj hcons
        rw [hleft] at hsame'
        have hread := reads_constant data.length c i rest
        change ClassFiles.read_constant data.length c.tag i (c.payload ++ rest) = .error e at hsame'
        rw [hread] at hsame'
        cases hsame'
      · intro e he
        exact (List.mem_append.mp he).elim (hu8 e) (hconstant e)
    · rw [hentry] at hconstant hsame'
      rw [bind_ok hentry]
      obtain ⟨hat', hsame'⟩ := hsame'
      obtain ⟨c, rfl, hleft⟩ := read_constant_inv hsame'
      have hbytes : data.drop at_ = c.bytes ++ data.drop at' := by
        rw [hdata, hleft]
        rfl
      have hlength := congrArg List.length hbytes
      have hone : c.bytes.length = c.payload.length + 1 := rfl
      rw [List.length_append, List.length_drop, List.length_drop, hone] at hlength
      refine .inl ⟨c, entry, at', notes ++ notes', by omega, hat', hbytes, ?_, ?_⟩
      · intro e he
        exact (List.mem_append.mp he).elim (hu8 e) (hconstant e)
      · rw [List.append_assoc]

variable {notes : List Event}

theorem quiet_turns (h : ∀ e ∈ notes, Event.Quiet e) :
    notes.count .turn = 0 := List.count_eq_zero.mpr fun hmem => (h _ hmem).1 rfl

/-- The notes of a walk from an index on. After an index that did not fit they may be anything. -/
inductive Walk (count : UInt16) : ℕ → Bytes → List Event → Prop
  | stop {i : ℕ} (data : Bytes) (h : count.toNat ≤ i) : Walk count i data []
  | broken {i : ℕ} {data : Bytes} {notes : List Event} (h : i < count.toNat)
    (hnone : ∀ (c : ConstantInfo) rest, data ≠ c.bytes ++ rest)
    (hquiet : ∀ e ∈ notes, Event.Quiet e) : Walk count i data (.turn :: notes)
  | overrun {i : ℕ} {notes : List Event} (c : ConstantInfo) (rest : Bytes) (later : List Event)
    (h : i < count.toNat) (hover : 65536 ≤ i + c.slots.length)
    (hquiet : ∀ e ∈ notes, Event.Quiet e) :
    Walk count i (c.bytes ++ rest) (.turn :: (notes ++ .counter 16 (i + c.slots.length) :: later))
  | next {i : ℕ} {notes later : List Event} (c : ConstantInfo) {rest : Bytes} (h : i < count.toNat)
    (hfits : i + c.slots.length < 65536) (hquiet : ∀ e ∈ notes, Event.Quiet e)
    (hlater : Walk count (i + c.slots.length) rest later) :
    Walk count i (c.bytes ++ rest) (.turn :: (notes ++ .counter 16 (i + c.slots.length) :: later))

theorem pool_entries_walk (count : UInt16) (n : ℕ) (i : UInt16) (pool : List Constant)
    (hlimit : data.length < 9223372036854775808) (hat : at_ ≤ data.length)
    (hn : data.length - at_ < n) :
    Walk count i.toNat (data.drop at_) (pool_entries count n i pool data at_).2 := by
  induction n generalizing i pool at_ with
  | zero => omega
  | succ n ih =>
    unfold pool_entries
    by_cases hi : i < count
    · have hlt : i.toNat < count.toNat := UInt16.lt_iff_toNat_lt.mp hi
      rw [if_pos hi]
      rcases entry_step i (fun tag entry => do
          let next ← advance i (if tag = 5 ∨ tag = 6 then 2 else 1)
          pool_entries count n next
            (pool ++ if (if tag = 5 ∨ tag = 6 then 2 else 1) = 2 then [entry, .other] else [entry]))
          hlimit hat with
        ⟨c, entry, at', notes, hless, hat', hdata, hquiet, hrun⟩ | ⟨hnone, e, notes, hquiet, hrun⟩
      · rw [hdata]
        have hslots := slots_length c
        rw [← hslots] at hrun
        have hnotes := congrArg (fun r => Event.turn :: r.2) hrun
        refine Eq.mpr (congrArg _ hnotes) ?_
        by_cases hover : 65536 ≤ i.toNat + c.slots.length
        · exact .overrun c _ _ hlt hover hquiet
        · have hfits : i.toNat + c.slots.length < 65536 := by omega
          have hnext : (i + UInt16.ofNat c.slots.length).toNat = i.toNat + c.slots.length := by
            rw [UInt16.toNat_add, UInt16.toNat_ofNat']
            omega
          refine .next c hlt hfits hquiet ?_
          rw [← hnext]
          exact ih _ _ hat' (by omega)
      · have hnotes := congrArg (fun r => Event.turn :: r.2) hrun
        refine Eq.mpr (congrArg _ hnotes) ?_
        exact .broken hlt hnone hquiet
    · have hle : count.toNat ≤ i.toNat := Nat.not_lt.mp fun h => hi (UInt16.lt_iff_toNat_lt.mpr h)
      rw [if_neg hi]
      exact .stop _ hle

theorem fine_turn_iff (h : ∀ e ∈ notes, Event.Quiet e) (value : ℕ) (later : List Event) :
    (∀ e ∈ .turn :: (notes ++ .counter 16 value :: later), e.Fine) ↔
      value < 65536 ∧ ∀ e ∈ later, e.Fine := by
  rw [List.forall_mem_cons, List.forall_mem_append, List.forall_mem_cons]
  have hnotes : ∀ e ∈ notes, e.Fine := fun e he => (h e he).2
  change True ∧ _ ∧ value < 65536 ∧ _ ↔ _
  tauto

theorem walk_fine_iff {data : Bytes} (h : Walk count i data notes) :
    (∀ e ∈ notes, e.Fine) ↔ ¬ Overruns count i data := by
  have hmax := count.toNat_lt
  induction h with
  | stop data h =>
    refine ⟨fun _ ⟨entries, last, rest, _, _, hcount, hsum⟩ => ?_, fun _ e he => by cases he⟩
    rw [hcount] at h
    change 65535 ≤ _ at h
    omega
  | broken h hnone hquiet =>
    refine ⟨fun _ ⟨entries, last, rest, hdata, _⟩ => ?_, fun _ e he => ?_⟩
    · cases entries with
      | nil => exact hnone last rest hdata
      | cons c entries =>
        rw [List.flatMap_cons, List.append_assoc] at hdata
        exact hnone c _ hdata
    · rcases List.mem_cons.mp he with rfl | he
      · exact True.intro
      · exact (hquiet e he).2
  | @overrun i notes c rest later h hover hquiet =>
    have hslots := slots_length c
    rw [fine_turn_iff hquiet]
    by_cases htwo : c.tag = 5 ∨ c.tag = 6
    · rw [if_pos htwo] at hslots
      have hcount : count = 65535 := by
        rw [← UInt16.toNat_inj]
        change count.toNat = 65535
        omega
      have hoverruns : Overruns count i (c.bytes ++ rest) :=
        ⟨[], c, rest, rfl, htwo, hcount, by rw [List.flatMap_nil, List.length_nil]; omega⟩
      refine ⟨fun hfine => ?_, fun hnot => absurd hoverruns hnot⟩
      have hlt := hfine.1
      omega
    · rw [if_neg htwo] at hslots
      omega
  | next c h hfits hquiet _ ih =>
    rw [fine_turn_iff hquiet, overruns_cons (by omega)]
    exact (and_iff_right hfits).trans ih

theorem walk_turns {data : Bytes} (h : Walk count i data notes) (hfine : ∀ e ∈ notes, e.Fine) :
    notes.count .turn ≤ count.toNat - i := by
  induction h with
  | stop data h => simp
  | broken h hnone hquiet =>
    rw [List.count_cons_self, quiet_turns hquiet]
    omega
  | overrun c rest later h hover hquiet =>
    have hlt := ((fine_turn_iff hquiet _ _).mp hfine).1
    omega
  | next c h hfits hquiet _ ih =>
    have hlater := ih ((fine_turn_iff hquiet _ _).mp hfine).2
    have hslots := slots_length c
    rw [List.count_cons_self, List.count_append, quiet_turns hquiet,
      List.count_cons_of_ne (by simp)]
    split at hslots <;> omega

end Walk

section Files

open EncodedClasses (ConstantInfo put_u16 put_u32 reads_u16 reads_u32 reads_skip)

/-- The length that the file gives for its pool. -/
def constant_pool_count (bytes : Bytes) : ℕ := value ((bytes.drop 8).take 2)

/-- A class file whose pool has the greatest length, and a long or a double at its last index. -/
def Overfull (bytes : Bytes) : Prop :=
  ∃ (version : Bytes) (entries : List ConstantInfo) (last : ConstantInfo) (rest : Bytes),
    bytes = put_u32 0xCAFEBABE ++ (version ++ (put 2 65535 ++
      (entries.flatMap ConstantInfo.bytes ++ (last.bytes ++ rest)))) ∧
    version.length = 4 ∧ (last.tag = 5 ∨ last.tag = 6) ∧
    (entries.flatMap ConstantInfo.slots).length = 65533

/-- No counter overflowed, no read went past its slice, and the walk over the pool took no more
turns than the pool has entries. -/
structure InBounds (bytes : Bytes) (notes : List Event) : Prop where
  fine : ∀ e ∈ notes, e.Fine
  turns : notes.count .turn ≤ constant_pool_count bytes - 1

variable {notes : List Event} {count : UInt16}

theorem in_bounds_quiet (h : ∀ e ∈ notes, Event.Quiet e) (bytes : Bytes) : InBounds bytes notes :=
  ⟨fun e he => (h e he).2, by rw [quiet_turns h]; omega⟩

/-- The notes are those of a walk, with quiet ones before and after them. -/
def Noted (notes : List Event) (count : UInt16) (data : Bytes) : Prop :=
  ∃ before walk after, (∀ e ∈ before, Event.Quiet e) ∧ (∀ e ∈ after, Event.Quiet e) ∧
    Walk count 1 data walk ∧ notes = before ++ (walk ++ after)

theorem noted_fine_iff {data : Bytes} (h : Noted notes count data) :
    (∀ e ∈ notes, e.Fine) ↔ ¬ Overruns count 1 data := by
  obtain ⟨before, walk, after, hbefore, hafter, hwalk, rfl⟩ := h
  have hb : ∀ e ∈ before, e.Fine := fun e he => (hbefore e he).2
  have ha : ∀ e ∈ after, e.Fine := fun e he => (hafter e he).2
  rw [← walk_fine_iff hwalk, List.forall_mem_append, List.forall_mem_append]
  tauto

theorem noted_turns {data : Bytes} (h : Noted notes count data) (hfine : ∀ e ∈ notes, e.Fine) :
    notes.count .turn ≤ count.toNat - 1 := by
  obtain ⟨before, walk, after, hbefore, hafter, hwalk, rfl⟩ := h
  have hwalk' : ∀ e ∈ walk, e.Fine := fun e he =>
    hfine e (List.mem_append_right _ (List.mem_append_left _ he))
  have hturns := walk_turns hwalk hwalk'
  rw [List.count_append, List.count_append, quiet_turns hbefore, quiet_turns hafter]
  omega

variable {data : Bytes}

theorem walk_noted {at_ at₁ : ℕ} (hlimit : data.length < 9223372036854775808)
    (hat : at₁ ≤ data.length) (hcount : u16 data at_ = (.ok (count, at₁), notes)) :
    Noted ((parse_constant_pool >>= parse_rest) data at_).2 count (data.drop at₁) := by
  have hquiet := reading_u16 data at_
  rw [hcount] at hquiet
  have hwalk := pool_entries_walk count (data.length - at₁ + 1) 1 [.other] hlimit hat (by omega)
  have hpool : parse_constant_pool data at_ =
      ((pool_entries count (data.length - at₁ + 1) 1 [.other] data at₁).1,
        notes ++ (pool_entries count (data.length - at₁ + 1) 1 [.other] data at₁).2) :=
    bind_ok hcount _
  rcases hr : pool_entries count (data.length - at₁ + 1) 1 [.other] data at₁ with
    ⟨⟨e⟩ | ⟨pool, at₂⟩, walk⟩
  · rw [hr] at hwalk hpool
    rw [bind_error hpool]
    exact ⟨notes, walk, [], hquiet, by simp, hwalk, by rw [List.append_nil]⟩
  · rw [hr] at hwalk hpool
    rw [bind_ok hpool]
    exact ⟨notes, walk, _, hquiet, reading_parse_rest pool data at₂, hwalk, List.append_assoc ..⟩

theorem noted_append {before : List Event} {rest : Bytes} (h : Noted notes count rest)
    (hbefore : ∀ e ∈ before, Event.Quiet e) : Noted (before ++ notes) count rest := by
  obtain ⟨before', walk, after, hbefore', hafter, hwalk, rfl⟩ := h
  refine ⟨before ++ before', walk, after, ?_, hafter, hwalk, (List.append_assoc ..).symm⟩
  exact List.forall_mem_append.mpr ⟨hbefore, hbefore'⟩

theorem parse_notes_noted {bytes : Slice} {at₁ at₂ at₃ : ℕ} {notes₁ notes₂ notes₃ : List Event}
    (hmagic : u32 bytes.val 0 = (.ok (0xCAFEBABE, at₁), notes₁))
    (hversion : skip 4 bytes.val at₁ = (.ok ((), at₂), notes₂))
    (hcount : u16 bytes.val at₂ = (.ok (count, at₃), notes₃)) (hat : at₃ ≤ bytes.val.length) :
    Noted (parse_notes bytes) count (bytes.val.drop at₃) := by
  have hquiet₁ := reading_u32 bytes.val 0
  have hquiet₂ := reading_skip 4 bytes.val at₁
  rw [hmagic] at hquiet₁
  rw [hversion] at hquiet₂
  have hrest := noted_append (walk_noted bytes.property hat hcount) hquiet₂
  have hfile := noted_append hrest hquiet₁
  have hskip := bind_ok hversion fun _ => parse_constant_pool >>= parse_rest
  have hrun : parse_file bytes.val 0 = _ := bind_ok hmagic _
  unfold parse_notes
  rw [hrun, if_neg (by decide)]
  change Noted (notes₁ ++ ((skip 4 >>= fun _ => parse_constant_pool >>= parse_rest)
    bytes.val at₁).2) count _
  rw [hskip]
  exact hfile

theorem overfull_noted {bytes : Slice} (h : Overfull bytes.val) :
    ∃ data, Noted (parse_notes bytes) 65535 data ∧ Overruns 65535 1 data := by
  obtain ⟨version, entries, last, rest, hbytes, hversion, hlast, hslots⟩ := h
  have hlimit := bytes.property
  obtain ⟨at₁, notes₁, hmagic, hat₁, hdata₁⟩ := went_on same_u32 hlimit (Nat.zero_le _)
    (fun size => reads_u32 size 0xCAFEBABE) hbytes
  obtain ⟨at₂, notes₂, hskip, hat₂, hdata₂⟩ := went_on (same_skip (by omega)) hlimit hat₁
    (fun size => reads_skip size hversion) hdata₁
  obtain ⟨at₃, notes₃, hcount, hat₃, hdata₃⟩ := went_on same_u16 hlimit hat₂
    (fun size => reads_u16 size 65535) hdata₂
  have hnoted := parse_notes_noted hmagic hskip hcount hat₃
  refine ⟨_, hnoted, entries, last, rest, hdata₃, hlast, rfl, ?_⟩
  omega

theorem count_read {version rest : Bytes} {magic : UInt32} {bytes : Bytes}
    (h : bytes = put_u32 magic ++ (version ++ (put_u16 count ++ rest)))
    (hversion : version.length = 4) : constant_pool_count bytes = count.toNat := by
  have hmagic : (put_u32 magic).length = 4 := length_put 4 _
  have htwo : (put_u16 count).length = 2 := length_put 2 _
  have hhead : (put_u32 magic ++ version).length = 8 := by
    rw [List.length_append, hmagic, hversion]
  have hlt := count.toNat_lt
  unfold constant_pool_count
  rw [h, ← List.append_assoc, ← hhead, List.drop_left, ← htwo, List.take_left, put_u16, value_put]
  omega

theorem fails_or_goes_on {α β : Type} {m : Parse α} (h : Reading m) (f : α → Parse β) (at_ : ℕ) :
    (∀ e ∈ ((m >>= f) data at_).2, Event.Quiet e) ∨
      ∃ a at' notes, m data at_ = (.ok (a, at'), notes) ∧ (∀ e ∈ notes, Event.Quiet e) ∧
        ((m >>= f) data at_).2 = notes ++ (f a data at').2 := by
  have hquiet := h data at_
  rcases hr : m data at_ with ⟨⟨e⟩ | ⟨a, at'⟩, notes⟩
  · rw [hr] at hquiet
    rw [bind_error hr]
    exact .inl hquiet
  · rw [hr] at hquiet
    rw [bind_ok hr]
    exact .inr ⟨a, at', notes, rfl, hquiet, rfl⟩

theorem file_cases (bytes : Slice) :
    (∀ e ∈ parse_notes bytes, Event.Quiet e) ∨
      ∃ version count rest, version.length = 4 ∧
        bytes.val = put_u32 0xCAFEBABE ++ (version ++ (put_u16 count ++ rest)) ∧
        Noted (parse_notes bytes) count rest := by
  have hlimit := bytes.property
  rcases fails_or_goes_on reading_u32 (fun magic => if magic ≠ 0xCAFEBABE then
      refuse "not a class file: it does not start with 0xCAFEBABE"
    else skip 4 >>= fun _ => parse_constant_pool >>= parse_rest) 0 with
    hquiet | ⟨magic, at₁, notes₁, hmagic, hquiet₁, hnotes₁⟩
  · exact .inl hquiet
  have hsame₁ := same_u32 bytes.val 0 hlimit (Nat.zero_le _)
  rw [hmagic] at hsame₁
  change parse_notes bytes = _ at hnotes₁
  by_cases hother : magic ≠ 0xCAFEBABE
  · rw [if_pos hother] at hnotes₁
    rw [hnotes₁]
    exact .inl (List.forall_mem_append.mpr ⟨hquiet₁, notes_settle _ bytes.val at₁⟩)
  obtain rfl : magic = 0xCAFEBABE := not_not.mp hother
  rw [if_neg hother] at hnotes₁
  rcases fails_or_goes_on (reading_skip 4) (fun _ => parse_constant_pool >>= parse_rest) at₁ with
    hquiet | ⟨u, at₂, notes₂, hskip, hquiet₂, hnotes₂⟩
  · rw [hnotes₁]
    exact .inl (List.forall_mem_append.mpr ⟨hquiet₁, hquiet⟩)
  have hsame₂ := same_skip (n := 4) (by omega) bytes.val at₁ hlimit hsame₁.1
  rw [hskip] at hsame₂
  have hquiet₃ := reading_u16 bytes.val at₂
  have hsame₃ := same_u16 bytes.val at₂ hlimit hsame₂.1
  rcases hcount : u16 bytes.val at₂ with ⟨⟨e⟩ | ⟨count, at₃⟩, notes₃⟩
  · rw [hcount] at hquiet₃
    have hpool : parse_constant_pool bytes.val at₂ = (.error e, notes₃) := bind_error hcount _
    rw [hnotes₁, hnotes₂, bind_error hpool]
    refine .inl (List.forall_mem_append.mpr ⟨hquiet₁, ?_⟩)
    exact List.forall_mem_append.mpr ⟨hquiet₂, hquiet₃⟩
  · rw [hcount] at hsame₃
    obtain ⟨version, mid, htake, hunit⟩ := Cursors.ok_of_bind hsame₂.2
    cases hunit
    obtain ⟨hversion, hlength⟩ := take_inv htake
    refine .inr ⟨version, count, bytes.val.drop at₃, hlength, ?_,
      parse_notes_noted hmagic hskip hcount hsame₃.1⟩
    rw [← u16_inv hsame₃.2, ← hversion, ← u32_inv hsame₁.2, List.drop_zero]

/-- Nothing overflows, nothing is read past its slice and the walk over the pool is no longer than
the pool, exactly if the file is not overfull. -/
theorem parse_in_bounds_iff (bytes : Slice) :
    InBounds bytes.val (parse_notes bytes) ↔ ¬ Overfull bytes.val := by
  refine ⟨fun h hover => ?_, fun hnot => ?_⟩
  · obtain ⟨data, hnoted, hoverruns⟩ := overfull_noted hover
    exact (noted_fine_iff hnoted).mp h.fine hoverruns
  · rcases file_cases bytes with hquiet | ⟨version, count, rest, hversion, hbytes, hnoted⟩
    · exact in_bounds_quiet hquiet _
    · have hruns : ¬ Overruns count 1 rest := by
        rintro ⟨entries, last, left, hdata, hlast, rfl, hsum⟩
        refine hnot ⟨version, entries, last, left, ?_, hversion, hlast, by omega⟩
        rw [hbytes, hdata]
        rfl
      have hfine := (noted_fine_iff hnoted).mpr hruns
      refine ⟨hfine, ?_⟩
      rw [count_read hbytes hversion]
      exact noted_turns hnoted hfine

theorem length_flatMap_replicate {α β : Type} (n : ℕ) (a : α) (f : α → List β) :
    ((List.replicate n a).flatMap f).length = n * (f a).length := by
  induction n with
  | zero => simp
  | succ n ih =>
    rw [List.replicate_succ, List.flatMap_cons, List.length_append, ih, Nat.succ_mul, Nat.add_comm]

/-- 65533 integers, and a long at the index after them. -/
def overfull_file : Bytes :=
  put_u32 0xCAFEBABE ++ (put 4 65 ++ (put 2 65535 ++
    ((List.replicate 65533 (ConstantInfo.integer 0)).flatMap ConstantInfo.bytes ++
      ((ConstantInfo.long 0).bytes ++ []))))

theorem overfull_file_length : overfull_file.length < 9223372036854775808 := by
  have hbytes : (ConstantInfo.integer 0).bytes.length = 5 := rfl
  have hlong : (ConstantInfo.long 0).bytes.length = 9 := rfl
  unfold overfull_file put_u32
  rw [List.length_append, List.length_append, List.length_append, List.length_append,
    List.length_append, length_put, length_put, length_put, length_flatMap_replicate, hbytes, hlong,
    List.length_nil]
  omega

theorem overfull_file_overfull : Overfull overfull_file := by
  refine ⟨put 4 65, List.replicate 65533 (.integer 0), .long 0, [], rfl, rfl, .inl rfl, ?_⟩
  rw [length_flatMap_replicate]
  rfl

theorem pool_index_overflows : ¬ ∀ bytes : Slice, InBounds bytes.val (parse_notes bytes) := by
  intro h
  obtain ⟨data, hnoted, hoverruns⟩ := @overfull_noted ⟨_, overfull_file_length⟩
    overfull_file_overfull
  exact (noted_fine_iff hnoted).mp (h ⟨_, overfull_file_length⟩).fine hoverruns

end Files

end JavaDebug.ClassReads
