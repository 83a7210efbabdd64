import Mathlib.Data.Nat.Log
import Mathlib.Algebra.Order.Ring.Int

/-!
The values of binary floating-point numbers: what the bits of a format stand
for, the nearest value of an integer, and how two values compare. An integer
with no more bits than the format keeps is its own nearest value, so such
integers compare as they do without the format.
-/
namespace JavaDebug.FloatValues

/-- Finite values are multiples of the least double, which is `2 ^ -1074`; both zeros are one. -/
inductive FloatValue
  | nan
  | infinite (negative : Bool)
  | finite (n : ℤ)
  deriving DecidableEq

def SCALE : ℕ := 1074

/-- The value of bits with `e` for the exponent and `m` for the fraction, of up to 64 bits. -/
def of_bits (e m bits : ℕ) : FloatValue :=
  let fraction := bits % 2 ^ m
  let exponent := bits / 2 ^ m % 2 ^ e
  let negative : Bool := bits / 2 ^ (m + e) % 2 = 1
  let significand : ℕ := if exponent = 0 then fraction else 2 ^ m + fraction
  let bias := 2 ^ (e - 1) - 1
  if exponent = 2 ^ e - 1 then if fraction = 0 then .infinite negative else .nan
  else
    let size := significand * 2 ^ (max exponent 1 + SCALE - (bias + m))
    .finite (if negative then -(size : ℤ) else size)

/-- How many units are nearest to `n`, the even number of two. -/
def nearest_multiple (n unit : ℕ) : ℕ :=
  if 2 * (n % unit) < unit ∨ 2 * (n % unit) = unit ∧ n / unit % 2 = 0 then n / unit
  else n / unit + 1

/-- The nearest number of `p` bits, the even one of two. -/
def nearest (p n : ℕ) : ℕ :=
  let unit := 2 ^ (Nat.log2 n + 1 - p)
  nearest_multiple n unit * unit

def of_int (p : ℕ) (n : ℤ) : FloatValue := .finite (n.sign * nearest p n.natAbs * 2 ^ SCALE)

/-- `partial_cmp` -/
def partial_cmp : FloatValue → FloatValue → Option Ordering
  | .nan, _ => none
  | _, .nan => none
  | .infinite a, .infinite b => some (if a = b then .eq else if a then .lt else .gt)
  | .infinite a, .finite _ => some (if a then .lt else .gt)
  | .finite _, .infinite b => some (if b then .gt else .lt)
  | .finite m, .finite n => some (if m < n then .lt else if m = n then .eq else .gt)

example : partial_cmp (of_bits 8 23 0x3DCCCCCD) (of_bits 11 52 0x3FB999999999999A) = some .gt := by
  decide +kernel

theorem nearest_of_le (p n : ℕ) (hp : 0 < p) (hn : n ≤ 2 ^ p) : nearest p n = n := by
  rcases Nat.lt_or_eq_of_le hn with hlt | rfl
  · have hunit : 2 ^ (Nat.log2 n + 1 - p) = 1 ∨ n = 0 := by
      by_cases h0 : n = 0
      · exact .inr h0
      · have hlog := (Nat.log2_lt h0).mpr hlt
        exact .inl (by rw [show Nat.log2 n + 1 - p = 0 by omega, pow_zero])
    rcases hunit with hunit | rfl
    · simp [nearest, nearest_multiple, hunit, Nat.mod_one]
    · simp [nearest, nearest_multiple]
  · have hunit : 2 ^ (Nat.log2 (2 ^ p) + 1 - p) = 2 := by
      rw [Nat.log2_two_pow, Nat.add_sub_cancel_left, pow_one]
    have heven : 2 ^ p % 2 = 0 := by
      rw [show p = p - 1 + 1 by omega, pow_succ, Nat.mul_mod_left]
    simp only [nearest, nearest_multiple, hunit, heven]
    rw [if_pos (by omega)]
    omega

theorem of_int_of_le (p : ℕ) (n : ℤ) (hp : 0 < p) (hn : n.natAbs ≤ 2 ^ p) :
    of_int p n = .finite (n * 2 ^ SCALE) := by
  rw [of_int, nearest_of_le p n.natAbs hp hn, Int.sign_mul_natAbs]

/-- Integers that the format keeps compare as integers. -/
theorem partial_cmp_of_int (p : ℕ) (a b : ℤ) (hp : 0 < p) (ha : a.natAbs ≤ 2 ^ p)
    (hb : b.natAbs ≤ 2 ^ p) : partial_cmp (of_int p a) (of_int p b) =
      some (if a < b then .lt else if a = b then .eq else .gt) := by
  have hpos : (0 : ℤ) < 2 ^ SCALE := Int.pow_pos (by omega)
  rw [of_int_of_le p a hp ha, of_int_of_le p b hp hb, partial_cmp]
  simp only [Int.mul_lt_mul_right hpos, Int.mul_eq_mul_right_iff (ne_of_gt hpos)]

end JavaDebug.FloatValues
