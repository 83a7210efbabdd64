import JavaDebug.ClassFiles
import Mathlib.Algebra.BigOperators.Group.List.Basic

/-!
Class files as the format defines them, and their bytes. An abstract class file
carries that its indices lead to the names it means, that its counts fit their
fields, and that no method has two `Code` attributes and no `Code` two line
tables. The parser reads its bytes back as what it declares.
-/
namespace JavaDebug.EncodedClasses

open Octets Cursors ClassFiles
open RequestFraming (as_bytes)
open WireReader (put_u8 from_utf8_as_bytes from_utf8_lossy dotted)

section Constants

/-- A `cp_info` of any tag. -/
inductive ConstantInfo
  | utf8 (bytes : {bs : Bytes // bs.length < 65536})
  | integer (bits : UInt32)
  | float (bits : UInt32)
  | long (bits : UInt64)
  | double (bits : UInt64)
  | class_ (name_index : UInt16)
  | string (string_index : UInt16)
  | fieldref (class_index name_and_type_index : UInt16)
  | methodref (class_index name_and_type_index : UInt16)
  | interface_methodref (class_index name_and_type_index : UInt16)
  | name_and_type (name_index descriptor_index : UInt16)
  | method_handle (reference_kind : UInt8) (reference_index : UInt16)
  | method_type (descriptor_index : UInt16)
  | dynamic (bootstrap_index name_and_type_index : UInt16)
  | invoke_dynamic (bootstrap_index name_and_type_index : UInt16)
  | module (name_index : UInt16)
  | package (name_index : UInt16)

def put_u16 (n : UInt16) : Bytes := put 2 n.toNat

def put_u32 (n : UInt32) : Bytes := put 4 n.toNat

namespace ConstantInfo

def tag : ConstantInfo → UInt8
  | utf8 _ => 1
  | integer _ => 3
  | float _ => 4
  | long _ => 5
  | double _ => 6
  | class_ _ => 7
  | string _ => 8
  | fieldref _ _ => 9
  | methodref _ _ => 10
  | interface_methodref _ _ => 11
  | name_and_type _ _ => 12
  | method_handle _ _ => 15
  | method_type _ => 16
  | dynamic _ _ => 17
  | invoke_dynamic _ _ => 18
  | module _ => 19
  | package _ => 20

def payload : ConstantInfo → Bytes
  | utf8 bytes => put 2 bytes.val.length ++ bytes.val
  | integer bits | float bits => put_u32 bits
  | long bits | double bits => put 8 bits.toNat
  | class_ i | string i | method_type i | module i | package i => put_u16 i
  | fieldref i j | methodref i j | interface_methodref i j | name_and_type i j | dynamic i j
  | invoke_dynamic i j => put_u16 i ++ put_u16 j
  | method_handle kind i => put_u8 kind ++ put_u16 i

def bytes (c : ConstantInfo) : Bytes := put_u8 c.tag ++ c.payload

/-- The indices the entry takes up: the second one of a long or a double is unusable. -/
def slots : ConstantInfo → List (Option ConstantInfo)
  | long bits => [some (long bits), none]
  | double bits => [some (double bits), none]
  | c => [some c]

def read_as : ConstantInfo → Constant
  | utf8 bytes => .utf8 (from_utf8_lossy bytes.val)
  | class_ i => .class_ i
  | _ => .other

end ConstantInfo

def slot_read_as (slot : Option ConstantInfo) : Constant :=
  (slot.map ConstantInfo.read_as).getD .other

structure Pool where
  constants : List ConstantInfo
  fits : (constants.flatMap ConstantInfo.slots).length < 65535

namespace Pool

/-- What each index stands for; index 0 is unused. -/
def layout (p : Pool) : List (Option ConstantInfo) := none :: p.constants.flatMap ConstantInfo.slots

def at_ (p : Pool) (index : UInt16) : Option ConstantInfo := p.layout[index.toNat]?.join

def bytes (p : Pool) : Bytes := put 2 p.layout.length ++ p.constants.flatMap ConstantInfo.bytes

/-- The pool that the parser makes of it. -/
def read_as (p : Pool) : List Constant := p.layout.map slot_read_as

end Pool

/-- A name in plain UTF-8, and where it is. -/
structure Name (pool : Pool) where
  index : UInt16
  text : String
  size : (as_bytes text).length < 65536
  found : pool.at_ index = some (.utf8 ⟨as_bytes text, size⟩)

structure ClassName (pool : Pool) where
  index : UInt16
  name : Name pool
  found : pool.at_ index = some (.class_ name.index)

end Constants

section Layout

abbrev Counted (α : Type) := {l : List α // l.length < 65536}

def put_all {α : Type} (write : α → Bytes) (l : Counted α) : Bytes :=
  put 2 l.val.length ++ l.val.flatMap write

/-- What a four-byte length can count. -/
abbrev Info := {bs : Bytes // bs.length < 4294967296}

def put_info (info : Info) : Bytes := put 4 info.val.length ++ info.val

structure Attribute where
  name_index : UInt16
  info : Info

def Attribute.bytes (a : Attribute) : Bytes := put_u16 a.name_index ++ put_info a.info

/-- An attribute with a name that is not the given one. -/
structure Other (pool : Pool) (reserved : String) where
  name : Name pool
  other : name.text ≠ reserved
  info : Info

def Other.bytes {pool : Pool} {reserved : String} (a : Other pool reserved) : Bytes :=
  put_u16 a.name.index ++ put_info a.info

structure Line where
  start_pc : UInt16
  line : UInt16

def Line.bytes (l : Line) : Bytes := put_u16 l.start_pc ++ put_u16 l.line

def Line.pair (l : Line) : UInt64 × Int32 := (l.start_pc.toUInt64, Int32.ofNat l.line.toNat)

structure LineTable (pool : Pool) where
  name : Name pool
  named : name.text = "LineNumberTable"
  entries : Counted Line

structure Handler where
  start_pc : UInt16
  end_pc : UInt16
  handler_pc : UInt16
  catch_type : UInt16

def Handler.bytes (h : Handler) : Bytes :=
  put_u16 h.start_pc ++ (put_u16 h.end_pc ++ (put_u16 h.handler_pc ++ put_u16 h.catch_type))

variable {pool : Pool}

theorem line_info_fits (entries : Counted Line) :
    (put_all Line.bytes entries).length < 4294967296 := by
  have hline (l : Line) : l.bytes.length = 4 := by
    rw [Line.bytes, List.length_append, put_u16, put_u16, length_put, length_put]
  have hlines : (entries.val.flatMap Line.bytes).length = entries.val.length * 4 := by
    rw [List.length_flatMap, List.map_congr_left fun l _ => hline l, List.map_const',
      List.sum_replicate, Nat.nsmul_eq_mul]
  have hcount := entries.property
  rw [put_all, List.length_append, length_put, hlines]
  omega

def LineTable.bytes (t : LineTable pool) : Bytes :=
  put_u16 t.name.index ++ put_info ⟨put_all Line.bytes t.entries, line_info_fits t.entries⟩

inductive CodeItem (pool : Pool)
  | line_numbers (t : LineTable pool)
  | other (a : Other pool "LineNumberTable")

namespace CodeItem

def bytes : CodeItem pool → Bytes
  | line_numbers t => t.bytes
  | other a => a.bytes

def lines? : CodeItem pool → Option (List (UInt64 × Int32))
  | line_numbers t => some (t.entries.val.map Line.pair)
  | other _ => none

end CodeItem

structure CodeBody (pool : Pool) where
  max_stack : UInt16
  max_locals : UInt16
  code : Bytes
  exception_table : Counted Handler
  attributes : Counted (CodeItem pool)
  once : (attributes.val.filterMap CodeItem.lines?).length ≤ 1

def CodeBody.bytes (b : CodeBody pool) : Bytes :=
  put_u16 b.max_stack ++ (put_u16 b.max_locals ++ (put 4 b.code.length ++ (b.code ++
    (put_all Handler.bytes b.exception_table ++ put_all CodeItem.bytes b.attributes))))

structure Code (pool : Pool) where
  name : Name pool
  named : name.text = "Code"
  body : CodeBody pool
  fits : body.bytes.length < 4294967296

def Code.bytes (c : Code pool) : Bytes := put_u16 c.name.index ++ put_info ⟨c.body.bytes, c.fits⟩

inductive MethodItem (pool : Pool)
  | code (c : Code pool)
  | other (a : Other pool "Code")

namespace MethodItem

def bytes : MethodItem pool → Bytes
  | code c => c.bytes
  | other a => a.bytes

def body? : MethodItem pool → Option (CodeBody pool)
  | code c => some c.body
  | other _ => none

end MethodItem

structure Method (pool : Pool) where
  access_flags : UInt16
  name : Name pool
  descriptor : Name pool
  attributes : Counted (MethodItem pool)
  once : (attributes.val.filterMap MethodItem.body?).length ≤ 1

def Method.bytes (m : Method pool) : Bytes :=
  put_u16 m.access_flags ++ (put_u16 m.name.index ++ (put_u16 m.descriptor.index ++
    put_all MethodItem.bytes m.attributes))

structure Field (pool : Pool) where
  access_flags : UInt16
  name : Name pool
  descriptor : Name pool
  attributes : Counted Attribute

def Field.bytes (f : Field pool) : Bytes :=
  put_u16 f.access_flags ++ (put_u16 f.name.index ++ (put_u16 f.descriptor.index ++
    put_all Attribute.bytes f.attributes))

structure AbstractClass where
  minor : UInt16
  major : UInt16
  pool : Pool
  access_flags : UInt16
  this_class : ClassName pool
  super_class : Option (ClassName pool)
  interfaces : Counted (ClassName pool)
  fields : Counted (Field pool)
  methods : Counted (Method pool)
  attributes : Counted Attribute

def put_super (c : Option (ClassName pool)) : Bytes := put_u16 ((c.map ClassName.index).getD 0)

def AbstractClass.encode (c : AbstractClass) : Bytes :=
  put_u32 0xCAFEBABE ++ (put_u16 c.minor ++ (put_u16 c.major ++ (c.pool.bytes ++
    (put_u16 c.access_flags ++ (put_u16 c.this_class.index ++ (put_super c.super_class ++
      (put_all (fun i => put_u16 i.index) c.interfaces ++ (put_all Field.bytes c.fields ++
        (put_all Method.bytes c.methods ++ put_all Attribute.bytes c.attributes)))))))))

end Layout

section Numbers

theorem put_split (j k n : ℕ) : put (j + k) n = put j (n / 256 ^ k) ++ put k n := by
  induction k generalizing n with
  | zero => simp [put]
  | succ k ih =>
    rw [← Nat.add_assoc, put, put, ih, Nat.div_div_eq_div_mul, ← Nat.pow_succ',
      List.append_assoc]

variable (size : ℕ)

theorem reads_take (bytes : Bytes) : Reads (take size bytes.length) bytes bytes := by
  intro rest
  have hroom : ¬ (bytes ++ rest).length < bytes.length := by
    rw [List.length_append]
    omega
  rw [take, if_neg hroom, List.take_left, List.drop_left]
  rfl

theorem reads_skip {bytes : Bytes} {n : ℕ} (h : bytes.length = n) :
    Reads (skip size n) bytes () := by
  subst h
  exact (reads_take size bytes).last

theorem reads_u8 (n : UInt8) : Reads (u8 size) (put_u8 n) n := by
  have hread := (reads_take size (put_u8 n)).last (f := fun b => UInt8.ofNat (value b))
  have hvalue : UInt8.ofNat (value (put_u8 n)) = n := by
    simp [value, put_u8]
  rwa [hvalue] at hread

theorem reads_number (n : ℕ) : Reads (u16 size) (put 2 n) (UInt16.ofNat n) := by
  have htake := reads_take size (put 2 n)
  rw [length_put] at htake
  have hread := htake.last (f := fun b => UInt16.ofNat (value b))
  have hvalue : UInt16.ofNat (value (put 2 n)) = UInt16.ofNat n := by
    rw [value_put]
    exact UInt16.ofNat_mod_size ..
  rwa [hvalue] at hread

theorem reads_u16 (n : UInt16) : Reads (u16 size) (put_u16 n) n := by
  have hread := reads_number size n.toNat
  rwa [UInt16.ofNat_toNat] at hread

theorem reads_length (n : ℕ) : Reads (u32 size) (put 4 n) (UInt32.ofNat n) := by
  have hvalue : UInt32.ofNat ((UInt16.ofNat (n / 65536)).toNat * 65536 + (UInt16.ofNat n).toNat) =
      UInt32.ofNat n := by
    rw [UInt16.toNat_ofNat', UInt16.toNat_ofNat']
    have hsplit : n / 65536 % 2 ^ 16 * 65536 + n % 2 ^ 16 = n % 2 ^ 32 := by
      omega
    rw [hsplit]
    exact UInt32.ofNat_mod_size ..
  have hread : Reads (u32 size) (put 2 (n / 256 ^ 2) ++ put 2 n) _ :=
    (reads_number size (n / 65536)).bind (reads_number size n).last
  rw [put_split 2 2 n, ← hvalue]
  exact hread

theorem reads_u32 (n : UInt32) : Reads (u32 size) (put_u32 n) n := by
  have hread := reads_length size n.toNat
  rwa [UInt32.ofNat_toNat] at hread

theorem reads_info (info : Info) {α : Type} {f : Bytes → Parse α} {a : α} {rest : Bytes}
    (h : Reads (f info.val) rest a) :
    Reads (do let len ← u32 size; let body ← take size len.toNat; f body)
      (put_info info ++ rest) a := by
  have hbody := (reads_take size info.val).bind h
  rw [put_info, List.append_assoc]
  refine (reads_length size info.val.length).bind ?_
  rw [UInt32.toNat_ofNat_of_lt' info.property]
  exact hbody

theorem reads_all {α β : Type} {p : Parse β} {write : α → Bytes} {value : α → β} (l : Counted α)
    (h : ∀ c, Reads p (write c) (value c)) :
    Reads (do let count ← u16 size; times p count.toNat) (put_all write l) (l.val.map value) := by
  refine (reads_number size l.val.length).bind ?_
  rw [UInt16.toNat_ofNat_of_lt' l.property]
  exact Reads.times l.val fun c _ => h c

theorem reads_all_then {α β γ : Type} {p : Parse β} {write : α → Bytes} {value : α → β}
    (l : Counted α) (h : ∀ c, Reads p (write c) (value c)) {f : List β → Parse γ} {c : γ}
    {rest : Bytes} (hf : Reads (f (l.val.map value)) rest c) :
    Reads (do let count ← u16 size; let l ← times p count.toNat; f l)
      (put_all write l ++ rest) c := by
  have hall := (reads_all size l h).bind hf
  rwa [bind_assoc] at hall

end Numbers

section Pools

variable (size : ℕ)

theorem reads_skipped {tag : UInt8} {at_ : UInt16} {width : ℕ} {payload : Bytes}
    (hskip : (SKIP.find? fun entry => entry.1 = tag) = some (tag, width))
    (hwidth : payload.length = width) : Reads (read_constant size tag at_) payload .other := by
  have hutf8 : tag ≠ 1 := by
    rintro rfl
    cases hskip
  have hclass : tag ≠ 7 := by
    rintro rfl
    cases hskip
  rw [read_constant, if_neg hutf8, if_neg hclass, hskip]
  exact (reads_skip size hwidth).last

theorem reads_constant (c : ConstantInfo) (at_ : UInt16) :
    Reads (read_constant size c.tag at_) c.payload c.read_as := by
  have hone (i : UInt16) : (put_u16 i).length = 2 := length_put 2 _
  have htwo (i j : UInt16) : (put_u16 i ++ put_u16 j).length = 4 := by
    rw [List.length_append, hone, hone]
  cases c with
  | utf8 bytes =>
    have hbytes := (reads_take size bytes.val).last
      (f := fun bs => Constant.utf8 (from_utf8_lossy bs))
    refine (reads_number size bytes.val.length).bind ?_
    rw [UInt16.toNat_ofNat_of_lt' bytes.property]
    exact hbytes
  | class_ i => exact (reads_u16 size i).last
  | integer bits => exact reads_skipped size rfl (length_put 4 _)
  | float bits => exact reads_skipped size rfl (length_put 4 _)
  | long bits => exact reads_skipped size rfl (length_put 8 _)
  | double bits => exact reads_skipped size rfl (length_put 8 _)
  | string i => exact reads_skipped size rfl (hone i)
  | fieldref i j => exact reads_skipped size rfl (htwo i j)
  | methodref i j => exact reads_skipped size rfl (htwo i j)
  | interface_methodref i j => exact reads_skipped size rfl (htwo i j)
  | name_and_type i j => exact reads_skipped size rfl (htwo i j)
  | method_handle kind i =>
    exact reads_skipped size rfl (congrArg (· + 1) (hone i))
  | method_type i => exact reads_skipped size rfl (hone i)
  | dynamic i j => exact reads_skipped size rfl (htwo i j)
  | invoke_dynamic i j => exact reads_skipped size rfl (htwo i j)
  | module i => exact reads_skipped size rfl (hone i)
  | package i => exact reads_skipped size rfl (hone i)

theorem slots_cases (c : ConstantInfo) :
    (c.tag = 5 ∨ c.tag = 6) ∧ c.slots = [some c, none] ∨
      ¬ (c.tag = 5 ∨ c.tag = 6) ∧ c.slots = [some c] := by
  cases c with
  | long bits => exact Or.inl ⟨Or.inl rfl, rfl⟩
  | double bits => exact Or.inl ⟨Or.inr rfl, rfl⟩
  | _ => exact Or.inr ⟨by simp [ConstantInfo.tag], rfl⟩

/-- The walk keeps in step with the indices: an entry moves it on by the slots it takes up. -/
theorem pool_entries_read (count : UInt16) (constants : List ConstantInfo) {n : ℕ} {i : UInt16}
    {pool : List Constant} (hn : constants.length < n)
    (hi : i.toNat + (constants.flatMap ConstantInfo.slots).length = count.toNat) (rest : Bytes) :
    pool_entries size count n i pool (constants.flatMap ConstantInfo.bytes ++ rest) =
      .ok (pool ++ (constants.flatMap ConstantInfo.slots).map slot_read_as, rest) := by
  have hcount := count.toNat_lt
  obtain ⟨n, rfl⟩ := Nat.exists_eq_succ_of_ne_zero (Nat.ne_zero_of_lt hn)
  induction constants generalizing n i pool with
  | nil =>
    have hdone : ¬ i < count := by
      rw [UInt16.lt_iff_toNat_lt]
      simp only [List.flatMap_nil, List.length_nil] at hi
      omega
    rw [pool_entries, if_neg hdone, List.flatMap_nil, List.flatMap_nil, List.map_nil,
      List.append_nil]
    rfl
  | cons c constants ih =>
    have hlt : i < count := by
      rw [UInt16.lt_iff_toNat_lt]
      rcases slots_cases c with ⟨-, hslots⟩ | ⟨-, hslots⟩ <;>
        simp only [List.flatMap_cons, hslots, List.length_append, List.length_cons] at hi <;> omega
    obtain ⟨n, rfl⟩ := Nat.exists_eq_succ_of_ne_zero (Nat.ne_zero_of_lt (Nat.lt_of_succ_lt_succ hn))
    rw [pool_entries, if_pos hlt, List.flatMap_cons, List.append_assoc, ConstantInfo.bytes,
      List.append_assoc, (reads_u8 size c.tag).run_bind, (reads_constant size c i).run_bind]
    rw [List.flatMap_cons, List.length_append] at hi
    rw [List.flatMap_cons, List.map_append, ← List.append_assoc]
    rcases slots_cases c with ⟨hwide, hslots⟩ | ⟨hnarrow, hslots⟩
    · rw [hslots] at hi ⊢
      have htwo : [some c, none].length = 2 := rfl
      have hnext : (i + 2).toNat = i.toNat + 2 := by
        rw [UInt16.toNat_add]
        exact Nat.mod_eq_of_lt (by simp only [UInt16.reduceToNat]; omega)
      rw [if_pos hwide]
      exact ih (by omega) n (Nat.lt_of_succ_lt_succ hn)
    · rw [hslots] at hi ⊢
      have hone : [some c].length = 1 := rfl
      have hnext : (i + 1).toNat = i.toNat + 1 := by
        rw [UInt16.toNat_add]
        exact Nat.mod_eq_of_lt (by simp only [UInt16.reduceToNat]; omega)
      rw [if_neg hnarrow]
      exact ih (by omega) n (Nat.lt_of_succ_lt_succ hn)

theorem constants_le_bytes (constants : List ConstantInfo) :
    constants.length ≤ (constants.flatMap ConstantInfo.bytes).length := by
  induction constants with
  | nil => exact Nat.le_refl 0
  | cons c constants ih =>
    rw [List.flatMap_cons, List.length_append, List.length_cons, ConstantInfo.bytes]
    have htag : (put_u8 c.tag ++ c.payload).length = c.payload.length + 1 := rfl
    omega

theorem reads_pool (p : Pool) : Reads (parse_constant_pool size) p.bytes p.read_as := by
  have hfits := p.fits
  have hlength : p.layout.length = (p.constants.flatMap ConstantInfo.slots).length + 1 := rfl
  refine (reads_number size p.layout.length).bind fun rest => ?_
  have hle := constants_le_bytes p.constants
  refine pool_entries_read size _ p.constants ?_ ?_ rest
  · rw [List.length_append]
    omega
  · have hlt : p.layout.length < 65536 := by omega
    rw [UInt16.toNat_ofNat_of_lt' hlt, hlength, Nat.add_comm]
    rfl

variable {pool : Pool}

theorem read_as_at (index : UInt16) {c : ConstantInfo} (h : pool.at_ index = some c) :
    pool.read_as[index.toNat]? = some c.read_as := by
  rw [Pool.at_] at h
  cases hslot : pool.layout[index.toNat]? with
  | none =>
    rw [hslot] at h
    cases h
  | some slot =>
    rw [hslot] at h
    have hc : slot = some c := h
    rw [Pool.read_as, List.getElem?_map, hslot, hc]
    rfl

theorem utf8_name (n : Name pool) : utf8 pool.read_as n.index = .ok n.text := by
  have hdecoded : from_utf8_lossy (as_bytes n.text) = n.text := by
    rw [from_utf8_lossy, from_utf8_as_bytes]
    rfl
  rw [utf8, read_as_at n.index n.found]
  show Except.ok (from_utf8_lossy (as_bytes n.text)) = _
  rw [hdecoded]

theorem class_name_name (c : ClassName pool) :
    class_name pool.read_as c.index = .ok (dotted c.name.text) := by
  rw [class_name, read_as_at c.index c.found]
  show (utf8 pool.read_as c.name.index).map dotted = _
  rw [utf8_name]
  rfl

theorem reads_name (n : Name pool) :
    Reads (read_utf8 size pool.read_as) (put_u16 n.index) n.text := by
  have hname : Reads (StateT.lift (utf8 pool.read_as n.index) : Parse String) [] n.text := by
    rw [utf8_name]
    exact Reads.pure n.text
  have hread : Reads (read_utf8 size pool.read_as) (put_u16 n.index ++ []) n.text :=
    (reads_u16 size n.index).bind hname
  rwa [List.append_nil] at hread

theorem reads_class_name (c : ClassName pool) :
    Reads (read_class_name size pool.read_as) (put_u16 c.index) (dotted c.name.text) := by
  have hname : Reads (StateT.lift (class_name pool.read_as c.index) : Parse String) []
      (dotted c.name.text) := by
    rw [class_name_name]
    exact Reads.pure _
  have hread : Reads (read_class_name size pool.read_as) (put_u16 c.index ++ [])
      (dotted c.name.text) :=
    (reads_u16 size c.index).bind hname
  rwa [List.append_nil] at hread

end Pools

section Declarations

variable (size : ℕ) {pool : Pool}

theorem reads_attribute (a : Attribute) : Reads (skip_attribute size) a.bytes () := by
  have hname : Reads (skip size 2) (put_u16 a.name_index) () := reads_skip size (length_put 2 _)
  have hread : Reads (skip_attribute size) (put_u16 a.name_index ++ (put_info a.info ++ [])) () :=
    hname.bind (reads_info size a.info (Reads.pure ()))
  rwa [List.append_nil] at hread

/-- A field as the class declares it. -/
def Field.declared (f : Field pool) : ClassFileField :=
  ⟨f.access_flags, f.name.text, f.descriptor.text⟩

theorem reads_field (f : Field pool) :
    Reads (parse_field size pool.read_as) f.bytes f.declared := by
  have hread : Reads (parse_field size pool.read_as)
      (put_u16 f.access_flags ++ (put_u16 f.name.index ++ (put_u16 f.descriptor.index ++
        (put_all Attribute.bytes f.attributes ++ [])))) f.declared :=
    (reads_u16 size _).bind ((reads_name size f.name).bind ((reads_name size f.descriptor).bind
      (reads_all_then size f.attributes (reads_attribute size) (Reads.pure _))))
  rwa [List.append_nil] at hread

theorem reads_line (l : Line) : Reads (read_line size) l.bytes l.pair :=
  (reads_u16 size l.start_pc).bind (reads_u16 size l.line).last

theorem read_lines (entries : Counted Line) :
    read_line_number_table (put_all Line.bytes entries) = .ok (entries.val.map Line.pair) := by
  have hread := reads_all (put_all Line.bytes entries).length entries
    (reads_line (put_all Line.bytes entries).length) []
  rw [List.append_nil] at hread
  rw [read_line_number_table, line_entries, hread]
  rfl

theorem run_info {α : Type} (n : Name pool) (info : Info) (f : String → UInt32 → Parse α)
    (rest : Bytes) :
    (do let name ← read_utf8 size pool.read_as; let len ← u32 size; f name len : Parse α)
        (put_u16 n.index ++ put_info info ++ rest) =
      f n.text (UInt32.ofNat info.val.length) (info.val ++ rest) := by
  rw [List.append_assoc, (reads_name size n).run_bind, put_info, List.append_assoc,
    (reads_length size info.val.length).run_bind]

theorem skips_info (info : Info) :
    Reads (skip size (UInt32.ofNat info.val.length).toNat) info.val () := by
  rw [UInt32.toNat_ofNat_of_lt' info.property]
  exact reads_skip size rfl

theorem takes_info (info : Info) :
    Reads (take size (UInt32.ofNat info.val.length).toNat) info.val info.val := by
  rw [UInt32.toNat_ofNat_of_lt' info.property]
  exact reads_take size info.val

/-- The lines of the first table are found, whatever stands before it; what follows is left. -/
theorem code_attributes_read (items : List (CodeItem pool)) :
    ∃ rest, code_attributes size pool.read_as items.length (items.flatMap CodeItem.bytes) =
      .ok ((items.filterMap CodeItem.lines?).head?, rest) := by
  induction items with
  | nil => exact ⟨[], rfl⟩
  | cons item items ih =>
    cases item with
    | line_numbers t =>
      refine ⟨items.flatMap CodeItem.bytes, ?_⟩
      rw [List.length_cons, code_attributes, List.flatMap_cons, CodeItem.bytes, LineTable.bytes,
        run_info, if_pos t.named, (takes_info size _).run_bind, read_lines]
      rfl
    | other a =>
      obtain ⟨rest, hrest⟩ := ih
      refine ⟨rest, ?_⟩
      rw [List.length_cons, code_attributes, List.flatMap_cons, CodeItem.bytes, Other.bytes,
        run_info, if_neg a.other, (skips_info size _).run_bind, hrest]
      rfl

variable (b : CodeBody pool)

/-- What a `Code` attribute says: its bytecode, and its lines if it has a table. -/
def CodeBody.declared : CodeAttribute :=
  ⟨((b.attributes.val.filterMap CodeItem.lines?).head?).getD [],
    ((b.attributes.val.filterMap CodeItem.lines?).head?).isSome, b.code⟩

theorem code_body_read (h : b.bytes.length < 4294967296) :
    ∃ rest, code_body size pool.read_as b.bytes = .ok (b.declared, rest) := by
  have hcode : b.code.length < 4294967296 := by
    simp only [CodeBody.bytes, List.length_append] at h
    omega
  have hhead : (put_u16 b.max_stack ++ put_u16 b.max_locals).length = 4 := by
    rw [List.length_append, put_u16, put_u16, length_put, length_put]
  have hhandler (e : Handler) : e.bytes.length = 8 := by
    simp only [Handler.bytes, put_u16, List.length_append, length_put]
  have hhandlers : (b.exception_table.val.flatMap Handler.bytes).length =
      (UInt16.ofNat b.exception_table.val.length).toNat * 8 := by
    rw [UInt16.toNat_ofNat_of_lt' b.exception_table.property, List.length_flatMap,
      List.map_congr_left fun e _ => hhandler e, List.map_const', List.sum_replicate,
      Nat.nsmul_eq_mul]
  obtain ⟨rest, hattributes⟩ := code_attributes_read size b.attributes.val
  refine ⟨rest, ?_⟩
  rw [code_body, CodeBody.bytes, ← List.append_assoc, (reads_skip size hhead).run_bind,
    (reads_length size b.code.length).run_bind, (takes_info size ⟨b.code, hcode⟩).run_bind,
    put_all, List.append_assoc, (reads_number size _).run_bind,
    (reads_skip size hhandlers).run_bind, put_all, (reads_number size _).run_bind,
    UInt16.toNat_ofNat_of_lt' b.attributes.property]
  show (code_attributes size pool.read_as _ _ >>= fun r => _) = _
  rw [hattributes]
  rfl

theorem parse_code_body_read (h : b.bytes.length < 4294967296) :
    parse_code_body b.bytes pool.read_as = .ok b.declared := by
  obtain ⟨rest, hread⟩ := code_body_read b.bytes.length b h
  rw [parse_code_body, hread]
  rfl

theorem reads_method_attributes (items : List (MethodItem pool)) (found : Option CodeAttribute) :
    Reads (method_attributes size pool.read_as items.length found)
      (items.flatMap MethodItem.bytes)
      (((items.filterMap MethodItem.body?).getLast?.map CodeBody.declared).or found) := by
  induction items generalizing found with
  | nil => exact Reads.pure found
  | cons item items ih =>
    intro rest
    rw [List.flatMap_cons, List.append_assoc, List.length_cons, method_attributes]
    cases item with
    | code c =>
      rw [MethodItem.bytes, Code.bytes, run_info, if_pos c.named, (takes_info size _).run_bind,
        parse_code_body_read c.body c.fits]
      show method_attributes size pool.read_as items.length (some c.body.declared) _ = _
      rw [ih, List.filterMap_cons, MethodItem.body?, List.getLast?_cons]
      cases (items.filterMap MethodItem.body?).getLast? <;> rfl
    | other a =>
      rw [MethodItem.bytes, Other.bytes, run_info, if_neg a.other, (skips_info size _).run_bind,
        ih found rest]
      rfl

variable (m : Method pool)

def Method.body : Option (CodeBody pool) :=
  (m.attributes.val.filterMap MethodItem.body?).head?

def Method.declared : ClassFileMethod :=
  method_of m.access_flags m.name.text m.descriptor.text (m.body.map CodeBody.declared)

theorem only_body : (m.attributes.val.filterMap MethodItem.body?).getLast? = m.body := by
  have honce := m.once
  rw [Method.body]
  cases h : m.attributes.val.filterMap MethodItem.body? with
  | nil => rfl
  | cons b bodies =>
    rw [h, List.length_cons] at honce
    rw [List.eq_nil_of_length_eq_zero (by omega : bodies.length = 0)]
    rfl

theorem reads_method : Reads (parse_one_method size pool.read_as) m.bytes m.declared := by
  have hattributes := (reads_method_attributes size m.attributes.val none).last
    (f := method_of m.access_flags m.name.text m.descriptor.text)
  rw [only_body, Option.or_none] at hattributes
  refine (reads_u16 size _).bind ((reads_name size m.name).bind
    ((reads_name size m.descriptor).bind ((reads_number size _).bind ?_)))
  rw [UInt16.toNat_ofNat_of_lt' m.attributes.property]
  exact hattributes

theorem index_ne_zero (c : ClassName pool) : c.index ≠ 0 := by
  intro hzero
  have hfound := c.found
  rw [hzero] at hfound
  cases hfound

theorem reads_super (c : Option (ClassName pool)) :
    Reads (read_super_class size pool.read_as) (put_super c)
      (c.map fun c => dotted c.name.text) := by
  cases c with
  | none =>
    intro rest
    rw [read_super_class, put_super, (reads_u16 size _).run_bind]
    rfl
  | some c =>
    intro rest
    rw [read_super_class, put_super, (reads_u16 size _).run_bind]
    show (if c.index = 0 then _ else _ : Parse (Option String)) rest = _
    rw [if_neg (index_ne_zero c)]
    show (StateT.lift (class_name pool.read_as c.index) >>= fun name => pure (some name) :
      Parse (Option String)) rest = _
    rw [class_name_name]
    rfl

variable (c : AbstractClass)

/-- What the class declares, as far as the parser is asked for it. -/
def AbstractClass.declared : ClassFile where
  this_class := dotted c.this_class.name.text
  access_flags := c.access_flags
  super_class := c.super_class.map fun s => dotted s.name.text
  interfaces := c.interfaces.val.map fun i => dotted i.name.text
  fields := c.fields.val.map Field.declared
  methods := c.methods.val.map Method.declared

def AbstractClass.header : ClassHeader :=
  ⟨c.access_flags, c.declared.this_class, c.declared.super_class, c.declared.interfaces⟩

theorem reads_header :
    Reads (parse_header size c.pool.read_as)
      (put_u16 c.access_flags ++ (put_u16 c.this_class.index ++ (put_super c.super_class ++
        put_all (fun i => put_u16 i.index) c.interfaces))) c.header := by
  have hread : Reads (parse_header size c.pool.read_as)
      (put_u16 c.access_flags ++ (put_u16 c.this_class.index ++ (put_super c.super_class ++
        (put_all (fun i => put_u16 i.index) c.interfaces ++ [])))) c.header :=
    (reads_u16 size _).bind ((reads_class_name size c.this_class).bind
      ((reads_super size c.super_class).bind
        (reads_all_then size c.interfaces (reads_class_name size) (Reads.pure _))))
  rwa [List.append_nil] at hread

theorem reads_file :
    Reads (parse_file size)
      (put_u32 0xCAFEBABE ++ ((put_u16 c.minor ++ put_u16 c.major) ++ (c.pool.bytes ++
        ((put_u16 c.access_flags ++ (put_u16 c.this_class.index ++ (put_super c.super_class ++
          put_all (fun i => put_u16 i.index) c.interfaces))) ++ (put_all Field.bytes c.fields ++
            put_all Method.bytes c.methods))))) c.declared := by
  have hversion : (put_u16 c.minor ++ put_u16 c.major).length = 4 := by
    rw [List.length_append, put_u16, put_u16, length_put, length_put]
  have hmethods := reads_all size c.methods (reads_method size)
  have hfields := reads_all size c.fields (reads_field size)
  refine (reads_u32 size _).bind ?_
  rw [if_neg (not_not.mpr rfl)]
  exact (reads_skip size hversion).bind ((reads_pool size c.pool).bind
    ((reads_header size c).bind (hfields.bind hmethods.last)))

theorem parse_file_encode :
    parse_file size c.encode = .ok (c.declared, put_all Attribute.bytes c.attributes) := by
  have hread := reads_file size c (put_all Attribute.bytes c.attributes)
  simp only [List.append_assoc] at hread
  exact hread

/-- The parser reads the bytes of any class file back as what the class declares. -/
theorem parse_encode : parse c.encode = .ok c.declared := by
  rw [parse, parse_file_encode]
  rfl

end Declarations

end JavaDebug.EncodedClasses
