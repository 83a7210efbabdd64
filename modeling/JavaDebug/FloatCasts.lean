import JavaDebug.FloatValues
import Mathlib.Data.Nat.Log
import Mathlib.Tactic.Ring

/-!
Conversions between the bits of floating-point formats, and from the integers.
A format has `e` bits of exponent and `m` of fraction. Each conversion takes a
value to the nearest one of its format, the even one of two, and what is beyond
the largest to an infinity; a NaN stays one.
-/
namespace JavaDebug.FloatCasts

open FloatValues

section Definitions

/-- The least positive number of a format is `1 / 2 ^ least`. -/
def least (e m : ℕ) : ℕ := 2 ^ (e - 1) - 1 + m - 1

/-- The bits, without a sign, of the number of a format nearest to `num / den`. -/
def nearest_bits (e m num den : ℕ) : ℕ :=
  let scaled := num * 2 ^ least e m
  let k := Nat.log2 (scaled / den) - m
  min (k * 2 ^ m + nearest_multiple scaled (den * 2 ^ k)) ((2 ^ e - 1) * 2 ^ m)

def bits_of_int (e m : ℕ) (n : ℤ) : ℕ :=
  (if n < 0 then 2 ^ (m + e) else 0) + nearest_bits e m n.natAbs 1

/-- The bits, in the format of `e'` and `m'`, of what the bits are in that of `e` and `m`. -/
def convert (e m e' m' bits : ℕ) : ℕ :=
  let fraction := bits % 2 ^ m
  let exponent := bits / 2 ^ m % 2 ^ e
  let significand := if exponent = 0 then fraction else 2 ^ m + fraction
  bits / 2 ^ (m + e) % 2 * 2 ^ (m' + e') +
    if exponent = 2 ^ e - 1 then
      (2 ^ e' - 1) * 2 ^ m' + if fraction = 0 then 0 else 2 ^ (m' - 1)
    else nearest_bits e' m' (significand * 2 ^ (max exponent 1 - 1)) (2 ^ least e m)

/-- `n as f32` -/
def f32_of_int (n : ℤ) : UInt32 := UInt32.ofNat (bits_of_int 8 23 n)

/-- `n as f64` -/
def f64_of_int (n : ℤ) : UInt64 := UInt64.ofNat (bits_of_int 11 52 n)

/-- `f64::from(v)` -/
def f64_of_f32 (bits : UInt32) : UInt64 := UInt64.ofNat (convert 8 23 11 52 bits.toNat)

/-- `v as f32` -/
def f32_of_f64 (bits : UInt64) : UInt32 := UInt32.ofNat (convert 11 52 8 23 bits.toNat)

example : f32_of_int 16777217 = 0x4B800000 ∧ f64_of_int (-3) = 0xC008000000000000 ∧
    f64_of_f32 0x3DCCCCCD = 0x3FB99999A0000000 ∧ f32_of_f64 0x3FB999999999999A = 0x3DCCCCCD := by
  decide +kernel

/-- The nearest value of a format. -/
def round (e m : ℕ) : FloatValue → FloatValue
  | .finite n =>
    let unit := 2 ^ max (SCALE - least e m) (Nat.log2 n.natAbs - m)
    let size := nearest_multiple n.natAbs unit * unit
    if 2 ^ (SCALE + 2 ^ (e - 1)) ≤ size then .infinite (n < 0) else .finite (n.sign * size)
  | a => a

end Definitions

section Multiples

variable (n unit : ℕ)

theorem nearest_multiple_bounds :
    n / unit ≤ nearest_multiple n unit ∧ nearest_multiple n unit ≤ n / unit + 1 := by
  unfold nearest_multiple
  split
  · omega
  · omega

/-- No multiple of the unit is closer. -/
theorem nearest_multiple_closest (hunit : 0 < unit) (k : ℕ) :
    ((n : ℤ) - nearest_multiple n unit * unit).natAbs ≤ ((n : ℤ) - k * unit).natAbs := by
  have hdiv := Nat.div_add_mod' n unit
  have hlt := Nat.mod_lt n hunit
  have hside : k * unit ≤ n / unit * unit ∨ n / unit * unit + unit ≤ k * unit := by
    rcases Nat.lt_or_ge (n / unit) k with h | h
    · right
      rw [← Nat.succ_mul]
      exact Nat.mul_le_mul_right unit h
    · exact Or.inl (Nat.mul_le_mul_right unit h)
  have hnear : nearest_multiple n unit * unit = n / unit * unit ∧ 2 * (n % unit) ≤ unit ∨
      nearest_multiple n unit * unit = n / unit * unit + unit ∧ unit ≤ 2 * (n % unit) := by
    unfold nearest_multiple
    split
    · exact Or.inl ⟨rfl, by omega⟩
    · exact Or.inr ⟨Nat.succ_mul _ _, by omega⟩
  rw [← Nat.cast_mul, ← Nat.cast_mul]
  omega

theorem nearest_multiple_scale {c : ℕ} (hc : 0 < c) :
    nearest_multiple (n * c) (unit * c) = nearest_multiple n unit := by
  unfold nearest_multiple
  rw [Nat.mul_mod_mul_right, Nat.mul_div_mul_right _ _ hc, ← mul_assoc]
  simp only [Nat.mul_lt_mul_right hc, Nat.mul_left_inj (Nat.ne_of_gt hc)]

theorem nearest_multiple_dvd (h : unit ∣ n) (hunit : 0 < unit) :
    nearest_multiple n unit * unit = n := by
  unfold nearest_multiple
  rw [Nat.mod_eq_zero_of_dvd h, if_pos (Or.inl hunit), Nat.div_mul_cancel h]

end Multiples

section Decoding

variable {e m : ℕ}

/-- The number of least numbers that bits without a sign stand for. -/
def size (m t : ℕ) : ℕ :=
  (if t / 2 ^ m = 0 then t % 2 ^ m else 2 ^ m + t % 2 ^ m) * 2 ^ (max (t / 2 ^ m) 1 - 1)

theorem fields (s : Bool) {t : ℕ} (ht : t < 2 ^ e * 2 ^ m) :
    (s.toNat * 2 ^ (m + e) + t) % 2 ^ m = t % 2 ^ m ∧
    (s.toNat * 2 ^ (m + e) + t) / 2 ^ m % 2 ^ e = t / 2 ^ m ∧
    (s.toNat * 2 ^ (m + e) + t) / 2 ^ (m + e) % 2 = s.toNat := by
  have hm := Nat.two_pow_pos m
  have hdiv : t / 2 ^ m < 2 ^ e := Nat.div_lt_of_lt_mul (by rwa [Nat.mul_comm] at ht)
  refine ⟨?_, ?_, ?_⟩
  · rw [show s.toNat * 2 ^ (m + e) + t = 2 ^ m * (s.toNat * 2 ^ e) + t by ring]
    exact Nat.mul_add_mod _ _ _
  · rw [show s.toNat * 2 ^ (m + e) + t = 2 ^ m * (2 ^ e * s.toNat) + t by ring,
      Nat.mul_add_div hm, Nat.mul_add_mod, Nat.mod_eq_of_lt hdiv]
  · rw [show s.toNat * 2 ^ (m + e) + t = 2 ^ (m + e) * s.toNat + t by ring,
      Nat.mul_add_div (Nat.two_pow_pos _), Nat.div_eq_of_lt (by rwa [pow_add, Nat.mul_comm])]
    have := s.toNat_lt
    omega

/-- What the conversions ask of a format. -/
structure Format (e m : ℕ) : Prop where
  wide : 2 ≤ e
  fraction : 1 ≤ m
  fits : least e m ≤ SCALE

theorem single : Format 8 23 := ⟨by decide, by decide, by decide⟩

theorem double : Format 11 52 := ⟨by decide, by decide, by decide⟩

def signed (s : Bool) (n : ℕ) : ℤ := if s then -(n : ℤ) else n

theorem top_add_lt (e : ℕ) {f : ℕ} (hf : f < 2 ^ m) : (2 ^ e - 1) * 2 ^ m + f < 2 ^ e * 2 ^ m := by
  have hpos := Nat.two_pow_pos e
  calc (2 ^ e - 1) * 2 ^ m + f < (2 ^ e - 1) * 2 ^ m + 2 ^ m := by omega
    _ = (2 ^ e - 1 + 1) * 2 ^ m := (Nat.succ_mul _ _).symm
    _ = 2 ^ e * 2 ^ m := by rw [Nat.sub_add_cancel hpos]

theorem top_lt (e m : ℕ) : (2 ^ e - 1) * 2 ^ m < 2 ^ e * 2 ^ m :=
  top_add_lt e (Nat.two_pow_pos m)

theorem of_bits_finite (F : Format e m) (s : Bool) {t : ℕ} (ht : t < (2 ^ e - 1) * 2 ^ m) :
    of_bits e m (s.toNat * 2 ^ (m + e) + t) =
      .finite (signed s (size m t * 2 ^ (SCALE - least e m))) := by
  obtain ⟨hfrac, hexp, hneg⟩ := fields (e := e) s (Nat.lt_trans ht (top_lt e m))
  have hlt : t / 2 ^ m < 2 ^ e - 1 := Nat.div_lt_of_lt_mul (by rwa [Nat.mul_comm] at ht)
  have hbias : 2 ≤ 2 ^ (e - 1) := by
    calc 2 = 2 ^ 1 := rfl
      _ ≤ 2 ^ (e - 1) := Nat.pow_le_pow_right (by omega) (by have := F.wide; omega)
  have hscale : max (t / 2 ^ m) 1 + SCALE - (2 ^ (e - 1) - 1 + m) =
      max (t / 2 ^ m) 1 - 1 + (SCALE - least e m) := by
    have hfits := F.fits
    unfold least at hfits ⊢
    omega
  unfold of_bits
  simp only [hfrac, hexp, hneg, if_neg (Nat.ne_of_lt hlt), hscale]
  rw [pow_add, ← mul_assoc]
  cases s
  · rfl
  · rfl

theorem of_bits_infinite (s : Bool) :
    of_bits e m (s.toNat * 2 ^ (m + e) + (2 ^ e - 1) * 2 ^ m) = .infinite s := by
  obtain ⟨hfrac, hexp, hneg⟩ := fields (e := e) s (top_lt e m)
  rw [Nat.mul_mod_left] at hfrac
  rw [Nat.mul_div_cancel _ (Nat.two_pow_pos m)] at hexp
  unfold of_bits
  simp only [hfrac, hexp, hneg, if_true]
  cases s
  · rfl
  · rfl

theorem of_bits_nan (s : Bool) {f : ℕ} (hf : 0 < f) (hlt : f < 2 ^ m) :
    of_bits e m (s.toNat * 2 ^ (m + e) + ((2 ^ e - 1) * 2 ^ m + f)) = .nan := by
  have hmod : ((2 ^ e - 1) * 2 ^ m + f) % 2 ^ m = f := by
    rw [Nat.mul_add_mod', Nat.mod_eq_of_lt hlt]
  have hdiv : ((2 ^ e - 1) * 2 ^ m + f) / 2 ^ m = 2 ^ e - 1 := by
    rw [Nat.mul_comm, Nat.mul_add_div (Nat.two_pow_pos m), Nat.div_eq_of_lt hlt, Nat.add_zero]
  obtain ⟨hfrac, hexp, -⟩ := fields (e := e) s (top_add_lt e hlt)
  unfold of_bits
  simp only [hfrac, hexp, hmod, hdiv, if_true, Nat.ne_of_gt hf, if_false]

/-- A number of units is read back, also where it has carried into the exponent. -/
theorem size_of_units {k r : ℕ} (hr : r ≤ 2 ^ (m + 1)) (hk : k = 0 ∨ 2 ^ m ≤ r) :
    size m (k * 2 ^ m + r) = r * 2 ^ k := by
  have hm := Nat.two_pow_pos m
  rw [pow_succ] at hr
  have hdecoded : ∀ {c f}, k * 2 ^ m + r = 2 ^ m * c + f → f < 2 ^ m →
      (k * 2 ^ m + r) / 2 ^ m = c ∧ (k * 2 ^ m + r) % 2 ^ m = f := by
    intro c f h hf
    rw [h, Nat.mul_add_div hm, Nat.mul_add_mod, Nat.div_eq_of_lt hf, Nat.mod_eq_of_lt hf]
    exact ⟨rfl, rfl⟩
  unfold size
  rcases Nat.lt_or_ge r (2 ^ m) with hlow | hlow
  · obtain rfl : k = 0 := hk.resolve_right (by omega)
    obtain ⟨hc, hf⟩ := hdecoded (c := 0) (f := r) (by omega) hlow
    rw [hc, hf]
    simp
  · rcases Nat.lt_or_eq_of_le hr with hlt | heq
    · obtain ⟨hc, hf⟩ := hdecoded (c := k + 1) (f := r - 2 ^ m)
        (by rw [Nat.mul_succ, Nat.mul_comm]; omega) (by omega)
      rw [hc, hf, if_neg (Nat.succ_ne_zero k), Nat.add_sub_cancel' hlow]
      congr 2
      omega
    · obtain ⟨hc, hf⟩ := hdecoded (c := k + 2) (f := 0)
        (by rw [heq, Nat.mul_add, Nat.mul_comm]; omega) hm
      rw [hc, hf, if_neg (by omega), heq, Nat.add_zero,
        show max (k + 2) 1 - 1 = k + 1 by omega, pow_succ]
      ring

end Decoding

section Rounding

variable {e m : ℕ}

theorem max_unit (N j : ℕ) : max j (Nat.log2 N - m) = j + (Nat.log2 (N / 2 ^ j) - m) := by
  rw [Nat.log2_eq_log_two, Nat.log2_eq_log_two, Nat.log_div_base_pow]
  omega

/-- The number of units that a number is rounded to fits, and is no less than it may be. -/
theorem units_bounds (M : ℕ) :
    M / 2 ^ (Nat.log2 M - m) < 2 ^ (m + 1) ∧
      (Nat.log2 M - m = 0 ∨ 2 ^ m ≤ M / 2 ^ (Nat.log2 M - m)) := by
  have hlt : M < 2 ^ (Nat.log2 M + 1) := Nat.lt_log2_self
  refine ⟨?_, ?_⟩
  · refine Nat.div_lt_of_lt_mul (Nat.lt_of_lt_of_le hlt ?_)
    rw [← pow_add]
    exact Nat.pow_le_pow_right (by omega) (by omega)
  · by_cases hz : Nat.log2 M - m = 0
    · exact Or.inl hz
    · right
      have hne : M ≠ 0 := by
        rintro rfl
        exact hz (by simp)
      rw [Nat.le_div_iff_mul_le (Nat.two_pow_pos _), ← pow_add]
      refine Nat.le_trans (Nat.pow_le_pow_right (by omega) ?_) (Nat.log2_self_le hne)
      omega

theorem overflow_iff {k r T : ℕ} (hr : r ≤ 2 ^ (m + 1)) (hk : k = 0 ∨ 2 ^ m ≤ r) (hT : 0 < T) :
    2 ^ (T + m) ≤ r * 2 ^ k ↔ (T + 1) * 2 ^ m ≤ k * 2 ^ m + r := by
  have hm := Nat.two_pow_pos m
  rcases Nat.lt_or_ge k T with hlt | hge
  · rcases Nat.lt_or_ge (k + 1) T with hlow | hnext
    · -- below the last exponent a carry stays finite
      have hvalue : r * 2 ^ k < 2 ^ (T + m) := by
        calc r * 2 ^ k ≤ 2 ^ (m + 1) * 2 ^ k := Nat.mul_le_mul_right _ hr
          _ = 2 ^ (m + 1 + k) := (pow_add _ _ _).symm
          _ < 2 ^ (T + m) := Nat.pow_lt_pow_right (by omega) (by omega)
      have hbits : k * 2 ^ m + r < (T + 1) * 2 ^ m := by
        calc k * 2 ^ m + r ≤ k * 2 ^ m + 2 ^ (m + 1) := Nat.add_le_add_left hr _
          _ = (k + 2) * 2 ^ m := by ring
          _ < (T + 1) * 2 ^ m := Nat.mul_lt_mul_of_pos_right (by omega) hm
      omega
    · obtain rfl : T = k + 1 := by omega
      have hvalue : 2 ^ (k + 1 + m) = 2 ^ (m + 1) * 2 ^ k := by ring
      have hbits : (k + 1 + 1) * 2 ^ m = k * 2 ^ m + 2 ^ (m + 1) := by ring
      rw [hvalue, hbits, Nat.mul_le_mul_right_iff (Nat.two_pow_pos k), Nat.add_le_add_iff_left]
  · have hfull : 2 ^ m ≤ r := hk.resolve_left (by omega)
    refine iff_of_true ?_ ?_
    · calc 2 ^ (T + m) ≤ 2 ^ (m + k) := Nat.pow_le_pow_right (by omega) (by omega)
        _ = 2 ^ m * 2 ^ k := pow_add _ _ _
        _ ≤ r * 2 ^ k := Nat.mul_le_mul_right _ hfull
    · calc (T + 1) * 2 ^ m = T * 2 ^ m + 2 ^ m := Nat.succ_mul _ _
        _ ≤ k * 2 ^ m + r := Nat.add_le_add (Nat.mul_le_mul_right _ hge) hfull

theorem nearest_bits_scale (num den : ℕ) {c : ℕ} (hc : 0 < c) :
    nearest_bits e m (num * c) (den * c) = nearest_bits e m num den := by
  unfold nearest_bits
  simp only [show num * c * 2 ^ least e m = num * 2 ^ least e m * c by ring,
    Nat.mul_div_mul_right _ _ hc]
  rw [Nat.mul_right_comm den c, nearest_multiple_scale _ _ hc]

theorem nearest_bits_units (F : Format e m) (N : ℕ) :
    nearest_bits e m N (2 ^ SCALE) =
      let k := Nat.log2 (N / 2 ^ (SCALE - least e m)) - m
      min (k * 2 ^ m + nearest_multiple N (2 ^ (SCALE - least e m + k)))
        ((2 ^ e - 1) * 2 ^ m) := by
  have hpos := Nat.two_pow_pos (least e m)
  have hsplit : 2 ^ SCALE = 2 ^ (SCALE - least e m) * 2 ^ least e m := by
    rw [← pow_add, Nat.sub_add_cancel F.fits]
  unfold nearest_bits
  simp only [hsplit, Nat.mul_div_mul_right _ _ hpos]
  rw [Nat.mul_right_comm, nearest_multiple_scale _ _ hpos, ← pow_add]

theorem nearest_multiple_zero (unit : ℕ) : nearest_multiple 0 unit = 0 := by
  unfold nearest_multiple
  rw [Nat.zero_mod, Nat.zero_div]
  split
  · rfl
  · omega

theorem sign_mul_signed (s : Bool) {n a : ℕ} (h : n = 0 → a = 0) :
    (signed s n).sign * a = signed s a := by
  rcases Nat.eq_zero_or_pos n with rfl | hn
  · rw [h rfl]
    cases s
    · rfl
    · rfl
  · have hsign : (n : ℤ).sign = 1 := Int.sign_eq_one_of_pos (by omega)
    cases s
    · exact (congrArg (· * (a : ℤ)) hsign).trans (one_mul _)
    · simp only [signed, if_true, Int.sign_neg, hsign, neg_one_mul]

theorem signed_neg (s : Bool) {n : ℕ} (hn : 0 < n) : decide (signed s n < 0) = s := by
  cases s
  · exact decide_eq_false (by simp [signed])
  · exact decide_eq_true (by simpa [signed] using hn)

theorem natAbs_signed (s : Bool) (n : ℕ) : (signed s n).natAbs = n := by
  cases s
  · rfl
  · exact (Int.natAbs_neg _).trans (Int.natAbs_natCast n)

/-- What the format has room for is its own nearest value. -/
theorem round_exact (s : Bool) {a j p : ℕ} (ha : a < 2 ^ (p + 1)) (hp : p ≤ m)
    (hgrid : SCALE - least e m ≤ j) (hfit : j + p < SCALE + 2 ^ (e - 1)) :
    round e m (.finite (signed s (a * 2 ^ j))) = .finite (signed s (a * 2 ^ j)) := by
  have hlt : a * 2 ^ j < 2 ^ (p + 1 + j) := by
    rw [pow_add _ (p + 1)]
    exact Nat.mul_lt_mul_of_pos_right ha (Nat.two_pow_pos j)
  have hdvd : 2 ^ max (SCALE - least e m) (Nat.log2 (a * 2 ^ j) - m) ∣ a * 2 ^ j := by
    rcases Nat.eq_zero_or_pos (a * 2 ^ j) with hzero | hpos
    · exact hzero ▸ Nat.dvd_zero _
    · have hlog := (Nat.log2_lt (Nat.ne_of_gt hpos)).mpr hlt
      exact Nat.dvd_mul_left_of_dvd (Nat.pow_dvd_pow 2 (by omega)) a
  have hlimit : a * 2 ^ j < 2 ^ (SCALE + 2 ^ (e - 1)) :=
    Nat.lt_of_lt_of_le hlt (Nat.pow_le_pow_right (by omega) (by omega))
  simp only [round, natAbs_signed]
  rw [nearest_multiple_dvd _ _ hdvd (Nat.two_pow_pos _), if_neg (Nat.not_le.mpr hlimit),
    sign_mul_signed s id]

theorem of_nearest_bits (F : Format e m) (s : Bool) (N : ℕ) :
    of_bits e m (s.toNat * 2 ^ (m + e) + nearest_bits e m N (2 ^ SCALE)) =
      round e m (.finite (signed s N)) := by
  have he := F.wide
  have hpow : 4 ≤ 2 ^ e := Nat.pow_le_pow_right (n := 2) (by omega) he
  -- both sides count the same units: `r` of them, each `2 ^ k` least numbers
  obtain ⟨hlt, hfull⟩ := units_bounds (m := m) (N / 2 ^ (SCALE - least e m))
  rw [nearest_bits_units F]
  simp only [round, natAbs_signed, max_unit]
  generalize hk : Nat.log2 (N / 2 ^ (SCALE - least e m)) - m = k at hlt hfull ⊢
  rw [Nat.div_div_eq_div_mul, ← pow_add] at hlt hfull
  obtain ⟨hlow, hhigh⟩ := nearest_multiple_bounds N (2 ^ (SCALE - least e m + k))
  generalize hr : nearest_multiple N (2 ^ (SCALE - least e m + k)) = r at hlow hhigh ⊢
  have hle : r ≤ 2 ^ (m + 1) := by omega
  have hunits : k = 0 ∨ 2 ^ m ≤ r := hfull.imp_right (fun h => Nat.le_trans h hlow)
  have hover : 2 ^ (SCALE + 2 ^ (e - 1)) ≤ r * 2 ^ (SCALE - least e m + k) ↔
      (2 ^ e - 1) * 2 ^ m ≤ k * 2 ^ m + r := by
    have hlimit : SCALE + 2 ^ (e - 1) = SCALE - least e m + (2 ^ e - 2 + m) := by
      have hdouble : 2 ^ e = 2 * 2 ^ (e - 1) := by
        rw [← pow_succ', Nat.sub_add_cancel (by omega)]
      have hfits := F.fits
      have hfraction := F.fraction
      unfold least at hfits ⊢
      omega
    rw [hlimit, pow_add, pow_add _ (SCALE - least e m) k, Nat.mul_left_comm,
      Nat.mul_le_mul_left_iff (Nat.two_pow_pos _), overflow_iff hle hunits (by omega),
      show 2 ^ e - 2 + 1 = 2 ^ e - 1 by omega]
  by_cases hfit : k * 2 ^ m + r < (2 ^ e - 1) * 2 ^ m
  · rw [Nat.min_eq_left (Nat.le_of_lt hfit), of_bits_finite F s hfit,
      if_neg (by rw [hover]; omega), size_of_units hle hunits, mul_assoc, ← pow_add,
      Nat.add_comm k, sign_mul_signed]
    rintro rfl
    rw [← hr, nearest_multiple_zero, Nat.zero_mul]
  · rw [Nat.min_eq_right (by omega), of_bits_infinite, if_pos (by rw [hover]; omega)]
    have hN : 0 < N := by
      refine Nat.pos_of_ne_zero ?_
      rintro rfl
      rw [nearest_multiple_zero] at hr
      have hsize := hover.mpr (by omega)
      rw [← hr, Nat.zero_mul] at hsize
      exact absurd (Nat.two_pow_pos _) (Nat.not_lt.mpr hsize)
    rw [signed_neg s hN]

end Rounding

section Conversions

variable {e m e' m' : ℕ}

theorem nearest_bits_lt (num den : ℕ) : nearest_bits e m num den < 2 ^ e * 2 ^ m :=
  Nat.lt_of_le_of_lt (Nat.min_le_right _ _) (top_lt e m)

variable {bits : ℕ}

theorem split_sign (h : bits < 2 ^ (m + e + 1)) :
    ∃ (s : Bool) (t : ℕ), t < 2 ^ e * 2 ^ m ∧ bits = s.toNat * 2 ^ (m + e) + t := by
  rw [pow_succ] at h
  have hpow : 2 ^ e * 2 ^ m = 2 ^ (m + e) := by rw [pow_add, Nat.mul_comm]
  rw [hpow]
  rcases Nat.lt_or_ge bits (2 ^ (m + e)) with hlt | hge
  · exact ⟨false, bits, hlt, by simp⟩
  · exact ⟨true, bits - 2 ^ (m + e), by omega, by simp only [Bool.toNat_true]; omega⟩

theorem bits_of_int_split (e m : ℕ) (n : ℤ) : bits_of_int e m n =
    (decide (n < 0)).toNat * 2 ^ (m + e) + nearest_bits e m n.natAbs 1 := by
  unfold bits_of_int
  by_cases h : n < 0
  · simp [h]
  · simp [h]

theorem of_bits_of_int (F : Format e m) (n : ℤ) :
    of_bits e m (bits_of_int e m n) = round e m (.finite (n * 2 ^ SCALE)) := by
  have hscale : nearest_bits e m n.natAbs 1 =
      nearest_bits e m (n.natAbs * 2 ^ SCALE) (2 ^ SCALE) := by
    rw [← nearest_bits_scale n.natAbs 1 (Nat.two_pow_pos SCALE), Nat.one_mul]
  rw [bits_of_int_split, hscale, of_nearest_bits F]
  congr 2
  by_cases h : n < 0
  · simp only [signed, h, decide_true, if_true]
    rw [Nat.cast_mul, Int.ofNat_natAbs_of_nonpos (le_of_lt h), neg_mul, neg_neg, Nat.cast_pow]
    rfl
  · simp only [signed, h, decide_false]
    rw [Nat.cast_mul, Int.natAbs_of_nonneg (by omega), Nat.cast_pow]
    rfl

theorem quiet_lt (F : Format e m) : 2 ^ (m - 1) < 2 ^ m :=
  Nat.pow_lt_pow_right (by omega) (by have := F.fraction; omega)

/-- What bits without a sign are converted to. -/
def converted (e m e' m' t : ℕ) : ℕ :=
  if t / 2 ^ m = 2 ^ e - 1 then
    (2 ^ e' - 1) * 2 ^ m' + if t % 2 ^ m = 0 then 0 else 2 ^ (m' - 1)
  else nearest_bits e' m' (size m t) (2 ^ least e m)

variable {t : ℕ}

theorem convert_split (s : Bool) (ht : t < 2 ^ e * 2 ^ m) :
    convert e m e' m' (s.toNat * 2 ^ (m + e) + t) =
      s.toNat * 2 ^ (m' + e') + converted e m e' m' t := by
  obtain ⟨hfrac, hexp, hneg⟩ := fields (e := e) s ht
  unfold convert converted size
  simp only [hfrac, hexp, hneg]

theorem convert_value (F : Format e m) (F' : Format e' m') (h : bits < 2 ^ (m + e + 1)) :
    of_bits e' m' (convert e m e' m' bits) = round e' m' (of_bits e m bits) := by
  obtain ⟨s, t, ht, rfl⟩ := split_sign h
  have hdiv := Nat.div_add_mod' t (2 ^ m)
  have hmod := Nat.mod_lt t (Nat.two_pow_pos m)
  rw [convert_split s ht, converted]
  by_cases htop : t / 2 ^ m = 2 ^ e - 1
  · rw [if_pos htop]
    rw [htop] at hdiv
    by_cases hzero : t % 2 ^ m = 0
    · rw [if_pos hzero, Nat.add_zero, of_bits_infinite]
      obtain rfl : t = (2 ^ e - 1) * 2 ^ m := by omega
      rw [of_bits_infinite]
      rfl
    · rw [if_neg hzero, of_bits_nan s (Nat.two_pow_pos _) (quiet_lt F'), ← hdiv,
        of_bits_nan s (Nat.pos_of_ne_zero hzero) hmod]
      rfl
  · have hlow : t < (2 ^ e - 1) * 2 ^ m := by
      have hlt : t / 2 ^ m < 2 ^ e := Nat.div_lt_of_lt_mul (by rwa [Nat.mul_comm] at ht)
      exact (Nat.div_lt_iff_lt_mul (Nat.two_pow_pos m)).mp (by omega)
    rw [if_neg htop, of_bits_finite F s hlow, ← of_nearest_bits F',
      ← nearest_bits_scale (size m t) (2 ^ least e m) (Nat.two_pow_pos (SCALE - least e m)),
      ← pow_add, Nat.add_sub_cancel' F.fits]

/-- A number of a format is its own nearest value in a format that is no narrower. -/
theorem round_of_bits (F : Format e m) (he : e ≤ e') (hm : m ≤ m') (h : bits < 2 ^ (m + e + 1)) :
    round e' m' (of_bits e m bits) = of_bits e m bits := by
  obtain ⟨s, t, ht, rfl⟩ := split_sign h
  have hdiv := Nat.div_add_mod' t (2 ^ m)
  have hmod := Nat.mod_lt t (Nat.two_pow_pos m)
  have hfield : t / 2 ^ m < 2 ^ e := Nat.div_lt_of_lt_mul (by rwa [Nat.mul_comm] at ht)
  rcases Nat.lt_or_ge (t / 2 ^ m) (2 ^ e - 1) with hlow | htop
  · rw [of_bits_finite F s ((Nat.div_lt_iff_lt_mul (Nat.two_pow_pos m)).mp hlow)]
    have hleast : least e m ≤ least e' m' := by
      have := Nat.pow_le_pow_right (n := 2) (by omega) (show e - 1 ≤ e' - 1 by omega)
      unfold least
      omega
    obtain ⟨a, ha, hsize⟩ : ∃ a < 2 ^ (m + 1), size m t = a * 2 ^ (max (t / 2 ^ m) 1 - 1) := by
      refine ⟨_, ?_, rfl⟩
      rw [pow_succ]
      split
      · omega
      · omega
    rw [hsize, mul_assoc, ← pow_add]
    refine round_exact s ha hm (by omega) ?_
    have hdouble : 2 ^ e = 2 * 2 ^ (e - 1) := by
      rw [← pow_succ', Nat.sub_add_cancel (by have := F.wide; omega)]
    have hpow := Nat.pow_le_pow_right (n := 2) (by omega) (show e - 1 ≤ e' - 1 by omega)
    have hwide := Nat.pow_le_pow_right (n := 2) (by omega) F.wide
    have hfits := F.fits
    unfold least at hfits ⊢
    omega
  · obtain htop : t / 2 ^ m = 2 ^ e - 1 := by omega
    rw [htop] at hdiv
    rcases Nat.eq_zero_or_pos (t % 2 ^ m) with hzero | hpos
    · obtain rfl : t = (2 ^ e - 1) * 2 ^ m := by omega
      rw [of_bits_infinite]
      rfl
    · rw [← hdiv, of_bits_nan s hpos hmod]
      rfl

theorem signed_lt (s : Bool) (ht : t < 2 ^ e * 2 ^ m) :
    s.toNat * 2 ^ (m + e) + t < 2 ^ (m + e + 1) := by
  rw [Nat.mul_comm, ← pow_add] at ht
  have hs : s.toNat * 2 ^ (m + e) ≤ 1 * 2 ^ (m + e) :=
    Nat.mul_le_mul_right _ (Nat.le_of_lt_succ s.toNat_lt)
  rw [pow_succ]
  omega

/-- What bits stand for; the sign of a NaN is left open. -/
def Means (e m bits : ℕ) (v : FloatValue) (negative : Bool) : Prop :=
  of_bits e m bits = v ∧ (v ≠ .nan → decide (bits / 2 ^ (m + e) % 2 = 1) = negative)

theorem sign_read (s : Bool) (ht : t < 2 ^ e * 2 ^ m) :
    decide ((s.toNat * 2 ^ (m + e) + t) / 2 ^ (m + e) % 2 = 1) = s := by
  rw [(fields (e := e) s ht).2.2]
  cases s
  · rfl
  · rfl

theorem means_of_int (F : Format e m) (n : ℤ) :
    Means e m (bits_of_int e m n) (round e m (.finite (n * 2 ^ SCALE))) (n < 0) := by
  refine ⟨of_bits_of_int F n, fun _ => ?_⟩
  rw [bits_of_int_split]
  exact sign_read _ (nearest_bits_lt _ _)

theorem converted_lt (F' : Format e' m') (t : ℕ) : converted e m e' m' t < 2 ^ e' * 2 ^ m' := by
  unfold converted
  split
  · split
    · exact top_lt e' m'
    · exact top_add_lt e' (quiet_lt F')
  · exact nearest_bits_lt _ _

theorem Means.convert (F : Format e m) (F' : Format e' m') {v : FloatValue} {negative : Bool}
    (hbits : bits < 2 ^ (m + e + 1)) (h : Means e m bits v negative) :
    Means e' m' (convert e m e' m' bits) (round e' m' v) negative := by
  obtain ⟨rfl, hsign⟩ := h
  refine ⟨convert_value F F' hbits, fun hnan => ?_⟩
  rw [← hsign (fun h => hnan (by rw [h]; rfl))]
  obtain ⟨s, t, ht, rfl⟩ := split_sign hbits
  rw [convert_split s ht, sign_read s ht, sign_read s (converted_lt F' t)]

theorem convert_lt (F' : Format e' m') (hbits : bits < 2 ^ (m + e + 1)) :
    convert e m e' m' bits < 2 ^ (m' + e' + 1) := by
  obtain ⟨s, t, ht, rfl⟩ := split_sign hbits
  rw [convert_split s ht]
  exact signed_lt s (converted_lt F' t)

end Conversions

section Casts

theorem f32_of_int_means (n : ℤ) :
    Means 8 23 (f32_of_int n).toNat (round 8 23 (.finite (n * 2 ^ SCALE))) (n < 0) := by
  have hlt : bits_of_int 8 23 n < UInt32.size := by
    rw [bits_of_int_split]
    exact signed_lt _ (nearest_bits_lt _ _)
  rw [f32_of_int, UInt32.toNat_ofNat_of_lt' hlt]
  exact means_of_int single n

theorem f64_of_int_means (n : ℤ) :
    Means 11 52 (f64_of_int n).toNat (round 11 52 (.finite (n * 2 ^ SCALE))) (n < 0) := by
  have hlt : bits_of_int 11 52 n < UInt64.size := by
    rw [bits_of_int_split]
    exact signed_lt _ (nearest_bits_lt _ _)
  rw [f64_of_int, UInt64.toNat_ofNat_of_lt' hlt]
  exact means_of_int double n

variable {v : FloatValue} {negative : Bool}

theorem f64_of_f32_means {bits : UInt32} (h : Means 8 23 bits.toNat v negative) :
    Means 11 52 (f64_of_f32 bits).toNat (round 11 52 v) negative := by
  rw [f64_of_f32, UInt64.toNat_ofNat_of_lt' (convert_lt double bits.toNat_lt)]
  exact h.convert single double bits.toNat_lt

theorem f32_of_f64_means {bits : UInt64} (h : Means 11 52 bits.toNat v negative) :
    Means 8 23 (f32_of_f64 bits).toNat (round 8 23 v) negative := by
  rw [f32_of_f64, UInt32.toNat_ofNat_of_lt' (convert_lt single bits.toNat_lt)]
  exact h.convert double single bits.toNat_lt

/-- A single-precision number is unchanged by a cast to double precision and back. -/
theorem f32_through_f64 {bits : UInt32} (h : Means 8 23 bits.toNat v negative) :
    Means 8 23 (f32_of_f64 (f64_of_f32 bits)).toNat v negative := by
  have hback := f32_of_f64_means (f64_of_f32_means h)
  obtain ⟨rfl, -⟩ := h
  rwa [round_of_bits single (by decide) (by decide) bits.toNat_lt,
    round_of_bits single (by decide) (by decide) bits.toNat_lt] at hback

end Casts

end JavaDebug.FloatCasts
