import JavaDebug.JavaValues
import Mathlib.Tactic.IntervalCases
import Mathlib.Tactic.Ring

/-!
The hash of a key as the server computes it, and as the documentation of the
JDK's classes gives it. `java_hash_specified` says that the two are the same
for every literal that is hashed, `spread_specified` that the same bins are
looked into.
-/
namespace JavaDebug.KeyHashes

open JavaValues

section Computed

/-- `char::encode_utf16`. -/
def utf16_units (c : Char) : List UInt16 :=
  let n := c.toNat
  if n < 0x10000 then [UInt16.ofNat n]
  else [UInt16.ofNat (0xD800 + (n - 0x10000) / 0x400),
    UInt16.ofNat (0xDC00 + (n - 0x10000) % 0x400)]

def encode_utf16 (s : String) : List UInt16 := s.toList.flatMap utf16_units

/-- `i32::try_from(n).unwrap_or(0)`. -/
def to_i32 (n : Int64) : Int32 :=
  if -2147483648 ≤ n.toInt ∧ n.toInt ≤ 2147483647 then Int32.ofInt n.toInt else 0

def java_hash (key : ArgLit) : Option Int32 :=
  match key with
  | .str s => some ((encode_utf16 s).foldl (fun h c => h * 31 + c.toUInt32.toInt32) 0)
  | .int i => some i
  | .long n =>
    let hi := to_i32 (n >>> 32)
    let lo := to_i32 (((n &&& 0xFFFFFFFF) ^^^ 0x80000000) - 0x80000000)
    some (hi ^^^ lo)
  | .char c => some c.toUInt32.toInt32
  | .bool b => some (if b then 1231 else 1237)
  | .float _ => none
  | .double _ => none
  | .null => none
  | .expr _ => none

def hashmap_spread (h : Int32) : Int32 := h ^^^ ((h >>> 16) &&& 0xFFFF)

def chm_spread (h : Int32) : Int32 := (h ^^^ ((h >>> 16) &&& 0xFFFF)) &&& 0x7fffffff

end Computed

section Specified

/-- `s[0]*31^(n-1) + s[1]*31^(n-2) + … + s[n-1]`. -/
def string_sum : List UInt16 → ℤ
  | [] => 0
  | c :: cs => c.toNat * 31 ^ cs.length + string_sum cs

/-- `hashCode()` of the wrapper or string that a literal is boxed to. -/
def specified_hash (key : ArgLit) : Option Int32 :=
  match key with
  | .str s => some (Int32.ofInt (string_sum (encode_utf16 s)))
  | .int i => some i
  | .long n => some (n.toUInt64 ^^^ (n.toUInt64 >>> 32)).toUInt32.toInt32
  | .char c => some (Int32.ofNat c.toNat)
  | .bool b => some (if b then 1231 else 1237)
  | _ => none

/-- `h ^ (h >>> 16)`, the shift filling with zeros. -/
def specified_spread (h : Int32) : Int32 := (h.toUInt32 ^^^ (h.toUInt32 >>> 16)).toInt32

theorem unit_hash (c : UInt16) : c.toUInt32.toInt32 = Int32.ofInt c.toNat := by
  apply Int32.toBitVec.inj
  apply BitVec.eq_of_toNat_eq
  simp

theorem string_fold (cs : List UInt16) (h : ℤ) :
    cs.foldl (fun h c => h * 31 + c.toUInt32.toInt32) (Int32.ofInt h) =
      Int32.ofInt (h * 31 ^ cs.length + string_sum cs) := by
  induction cs generalizing h with
  | nil => simp [string_sum]
  | cons c cs ih =>
    have hstep : Int32.ofInt h * 31 + c.toUInt32.toInt32 = Int32.ofInt (h * 31 + c.toNat) := by
      rw [unit_hash, Int32.ofInt_add, Int32.ofInt_mul]
      rfl
    rw [List.foldl_cons, hstep, ih, List.length_cons, string_sum]
    congr 1
    ring

theorem high_bits (h : Int32) : ((h >>> 16) &&& 0xFFFF : Int32) = (h.toUInt32 >>> 16).toInt32 := by
  apply Int32.toBitVec.inj
  show h.toBitVec.sshiftRight 16 &&& 0xFFFF#32 = h.toBitVec >>> 16
  apply BitVec.eq_of_getLsbD_eq
  intro i hi
  have hmask : (0xFFFF#32).getLsbD i = decide (i < 16) := by
    interval_cases i
    all_goals rfl
  rw [BitVec.getLsbD_and, hmask, BitVec.getLsbD_sshiftRight, BitVec.getLsbD_ushiftRight]
  by_cases h16 : i < 16
  · have hin : 16 + i < 32 := by omega
    have hlt : ¬ 32 ≤ i := by omega
    simp [h16, hin, hlt]
  · have hout : 32 ≤ 16 + i := by omega
    rw [BitVec.getLsbD_of_ge _ _ hout]
    simp [h16]

theorem flip_top (m : ℕ) (h : m < 2 ^ 32) :
    m ^^^ 2 ^ 31 = if m < 2 ^ 31 then m + 2 ^ 31 else m - 2 ^ 31 := by
  have hsplit := Nat.div_add_mod (m ^^^ 2 ^ 31) (2 ^ 31)
  rw [Nat.xor_div_two_pow, Nat.xor_mod_two_pow, Nat.div_self (by norm_num), Nat.mod_self,
    Nat.xor_zero] at hsplit
  have hq : m / 2 ^ 31 = 0 ∨ m / 2 ^ 31 = 1 := by omega
  rcases hq with hq | hq
  · rw [hq] at hsplit
    have h1 : 0 ^^^ 1 = 1 := rfl
    rw [h1] at hsplit
    split
    · omega
    · omega
  · rw [hq] at hsplit
    have h1 : 1 ^^^ 1 = 0 := rfl
    rw [h1] at hsplit
    split
    · omega
    · omega

theorem to_i32_bits {n : Int64} {b : BitVec 32} (hlo : -2147483648 ≤ n.toInt)
    (hhi : n.toInt ≤ 2147483647) (hb : n.toInt % 2 ^ 32 = b.toNat) : (to_i32 n).toBitVec = b := by
  rw [to_i32, if_pos ⟨hlo, hhi⟩]
  apply BitVec.eq_of_toNat_eq
  rw [Int32.toBitVec_ofInt, BitVec.toNat_ofInt]
  omega

theorem high_word (n : Int64) : (to_i32 (n >>> 32)).toBitVec = (n.toBitVec >>> 32).setWidth 32 := by
  have hshift : (n >>> 32).toInt = n.toBitVec.toInt >>> (32 : ℕ) := by
    show (n.toBitVec.sshiftRight 32).toInt = _
    rw [BitVec.toInt_sshiftRight]
  have hcond := n.toBitVec.toInt_eq_toNat_cond
  have hlt := n.toBitVec.isLt
  rw [Int.shiftRight_eq_div_pow] at hshift
  apply to_i32_bits
  · rw [hshift, hcond]
    split <;> omega
  · rw [hshift, hcond]
    split <;> omega
  · rw [hshift, hcond, BitVec.toNat_setWidth, BitVec.toNat_ushiftRight, Nat.shiftRight_eq_div_pow]
    split <;> omega

theorem low_word (n : Int64) :
    (to_i32 (((n &&& 0xFFFFFFFF) ^^^ 0x80000000) - 0x80000000)).toBitVec =
      n.toBitVec.setWidth 32 := by
  have hand : n.toBitVec.toNat &&& 0xFFFFFFFF = n.toBitVec.toNat % 2 ^ 32 :=
    Nat.and_two_pow_sub_one_eq_mod _ 32
  have hflip := flip_top (n.toBitVec.toNat % 2 ^ 32) (Nat.mod_lt _ (by norm_num))
  have hnat : ((n.toBitVec &&& 0xFFFFFFFF#64) ^^^ 0x80000000#64).toNat =
      (n.toBitVec.toNat % 2 ^ 32) ^^^ 2 ^ 31 := by
    rw [BitVec.toNat_xor, BitVec.toNat_and]
    show (n.toBitVec.toNat &&& 0xFFFFFFFF) ^^^ 2 ^ 31 = _
    rw [hand]
  have hint : ((((n &&& 0xFFFFFFFF) ^^^ 0x80000000) - 0x80000000 : Int64)).toInt =
      (((n.toBitVec &&& 0xFFFFFFFF#64) ^^^ 0x80000000#64) - 0x80000000#64).toInt := rfl
  have hc : (0x80000000#64).toNat = 2 ^ 31 := rfl
  rw [BitVec.toInt_eq_toNat_cond, BitVec.toNat_sub, hnat, hflip, hc] at hint
  have hlow : n.toBitVec.toNat % 2 ^ 32 < 2 ^ 32 := Nat.mod_lt _ (by norm_num)
  have hwidth : (n.toBitVec.setWidth 32).toNat = n.toBitVec.toNat % 2 ^ 32 :=
    BitVec.toNat_setWidth _ _
  generalize n.toBitVec.toNat % 2 ^ 32 = m at hint hlow hwidth
  generalize ((n &&& 0xFFFFFFFF) ^^^ 0x80000000) - 0x80000000 = x at hint ⊢
  simp only [Nat.reducePow, Nat.reduceSub] at hint hlow
  have hx : x.toInt = if m < 2147483648 then (m : ℤ) else m - 4294967296 := by
    rw [hint]
    split <;> split <;> omega
  apply to_i32_bits
  · rw [hx]
    split <;> omega
  · rw [hx]
    split <;> omega
  · rw [hx, hwidth]
    norm_num
    split <;> omega

theorem java_hash_specified (key : ArgLit) : java_hash key = specified_hash key := by
  cases key with
  | str s =>
    have hfold := string_fold (encode_utf16 s) 0
    rw [zero_mul, zero_add] at hfold
    exact congrArg some hfold
  | long n =>
    apply congrArg some
    apply Int32.toBitVec.inj
    show (to_i32 (n >>> 32)).toBitVec ^^^ (to_i32 (((n &&& 0xFFFFFFFF) ^^^ 0x80000000) -
      0x80000000)).toBitVec = (n.toBitVec ^^^ (n.toBitVec >>> 32)).setWidth 32
    rw [high_word, low_word, BitVec.setWidth_xor, BitVec.xor_comm]
  | char c => exact congrArg some (unit_hash c)
  | _ => rfl

theorem hashmap_spread_specified (h : Int32) : hashmap_spread h = specified_spread h := by
  rw [hashmap_spread, high_bits]
  rfl

theorem chm_spread_specified (h : Int32) : chm_spread h = specified_spread h &&& 0x7fffffff := by
  rw [chm_spread, high_bits]
  rfl

end Specified

end JavaDebug.KeyHashes
