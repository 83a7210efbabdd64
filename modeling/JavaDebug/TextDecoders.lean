import JavaDebug.Segmentations
import JavaDebug.WireReader

/-!
The standard decoders that say where a text goes wrong. UTF-8 is read up to the
first byte at which no character starts, or whose character is not finished;
UTF-16 a unit or a pair of surrogates at a time. Both read characters exactly
where the code of one stands.
-/
namespace JavaDebug.TextDecoders

open Segmentations Octets
open WireReader (followers fitting char_of)

section Utf8

structure Utf8Error where
  valid_up_to : ℕ
  error_len : Option ℕ
deriving DecidableEq

/-- `str::from_utf8`; there is no length if the bytes end within a character. -/
def from_utf8 : Bytes → Except Utf8Error (List Char)
  | [] => .ok []
  | b :: rest =>
    match followers b with
    | none => .error ⟨0, some 1⟩
    | some ranges =>
      let k := fitting ranges rest
      if k = ranges.length then
        match from_utf8 (rest.drop k) with
        | .ok s => .ok (char_of b (rest.take k) :: s)
        | .error e => .error ⟨k + 1 + e.valid_up_to, e.error_len⟩
      else .error ⟨0, if k = rest.length then none else some (k + 1)⟩
termination_by bytes => bytes.length
decreasing_by simp only [List.length_drop, List.length_cons]; omega

/-- The code of a character in UTF-8. -/
def utf8 (c : Char) : Option Bytes := some (String.utf8EncodeChar c)

variable (ranges : List (UInt8 × UInt8)) (b : UInt8) (bytes : Bytes)

theorem fitting_le (rest : Bytes) : fitting ranges rest ≤ rest.length := by
  induction ranges generalizing rest with
  | nil => simp [fitting]
  | cons range ranges ih =>
    obtain _ | ⟨b, rest⟩ := rest
    · simp [fitting]
    · have htail := ih rest
      rw [fitting, List.length_cons]
      by_cases h : range.1 ≤ b ∧ b ≤ range.2
      · rw [if_pos h]
        omega
      · rw [if_neg h]
        omega

/-- No byte that continues a character starts one. -/
theorem followers_continuation (hlo : 0x80 ≤ b) (hhi : b ≤ 0xBF) : followers b = none := by
  have hascii : ¬ b < 0x80 := by
    simpa using hlo
  have hlead : b < 0xC2 := by
    apply UInt8.lt_of_le_of_lt hhi
    decide
  rw [followers, if_neg hascii, if_pos hlead]

private theorem continuation_range (ranges : List (UInt8 × UInt8)) (h : followers b = some ranges) :
    ∀ r ∈ ranges, 0x80 ≤ r.1 ∧ r.2 ≤ 0xBF := by
  unfold followers at h
  split_ifs at h <;> simp only [Option.some.injEq] at h <;> subst h <;> simp

/-- The bytes that fit continue a character. -/
theorem fitting_continuation (rest : Bytes) (h : ∀ r ∈ ranges, 0x80 ≤ r.1 ∧ r.2 ≤ 0xBF) (i : ℕ)
    (hi : i < fitting ranges rest) : ∃ b tail, rest.drop i = b :: tail ∧ 0x80 ≤ b ∧ b ≤ 0xBF := by
  induction ranges generalizing rest i with
  | nil => simp [fitting] at hi
  | cons range ranges ih =>
    obtain _ | ⟨b, rest⟩ := rest
    · simp [fitting] at hi
    · rw [fitting] at hi
      by_cases hb : range.1 ≤ b ∧ b ≤ range.2
      · rw [if_pos hb] at hi
        obtain ⟨hlo, hhi⟩ := h range (by simp)
        obtain _ | i := i
        · exact ⟨b, rest, rfl, UInt8.le_trans hlo hb.1, UInt8.le_trans hb.2 hhi⟩
        · exact ih rest (fun r hr => h r (by simp [hr])) i (by omega)
      · rw [if_neg hb] at hi
        omega

private theorem val_lt (c : Char) : c.val.toNat < 0xD800 ∨
    0xDFFF < c.val.toNat ∧ c.val.toNat < 0x110000 := c.valid

private abbrev tail_range : UInt8 × UInt8 := (0x80, 0xBF)

private def second_of_three (b : UInt8) : UInt8 × UInt8 :=
  (if b = 0xE0 then 0xA0 else 0x80, if b = 0xED then 0x9F else 0xBF)

private def second_of_four (b : UInt8) : UInt8 × UInt8 :=
  (if b = 0xF0 then 0x90 else 0x80, if b = 0xF4 then 0x8F else 0xBF)

private theorem followers_one (h : b.toNat < 0x80) : followers b = some [] := by
  rw [followers, if_pos (UInt8.lt_iff_toNat_lt.mpr h)]

private theorem followers_two (h : 0xC2 ≤ b.toNat ∧ b.toNat < 0xE0) :
    followers b = some [tail_range] := by
  simp only [followers, UInt8.lt_iff_toNat_lt, UInt8.reduceToNat]
  rw [if_neg (by omega), if_neg (by omega), if_pos (by omega)]

private theorem followers_three (h : 0xE0 ≤ b.toNat ∧ b.toNat < 0xF0) :
    followers b = some [second_of_three b, tail_range] := by
  simp only [followers, UInt8.lt_iff_toNat_lt, UInt8.reduceToNat]
  rw [if_neg (by omega), if_neg (by omega), if_neg (by omega), if_pos (by omega)]
  rfl

private theorem followers_four (h : 0xF0 ≤ b.toNat ∧ b.toNat < 0xF5) :
    followers b = some [second_of_four b, tail_range, tail_range] := by
  simp only [followers, UInt8.lt_iff_toNat_lt, UInt8.reduceToNat]
  rw [if_neg (by omega), if_neg (by omega), if_neg (by omega), if_neg (by omega),
    if_pos (by omega)]
  rfl

private theorem followers_some (ranges : List (UInt8 × UInt8)) (h : followers b = some ranges) :
    b.toNat < 0x80 ∨ (0xC2 ≤ b.toNat ∧ b.toNat < 0xE0) ∨ (0xE0 ≤ b.toNat ∧ b.toNat < 0xF0) ∨
      (0xF0 ≤ b.toNat ∧ b.toNat < 0xF5) := by
  simp only [followers, UInt8.lt_iff_toNat_lt, UInt8.reduceToNat] at h
  split_ifs at h <;> omega

private theorem range_iff (lo hi b : UInt8) :
    (lo ≤ b ∧ b ≤ hi) ↔ lo.toNat ≤ b.toNat ∧ b.toNat ≤ hi.toNat := by
  rw [UInt8.le_iff_toNat_le, UInt8.le_iff_toNat_le]

private theorem second_of_three_iff (b x : UInt8) :
    ((second_of_three b).1 ≤ x ∧ x ≤ (second_of_three b).2) ↔
      (0x80 ≤ x.toNat ∧ x.toNat ≤ 0xBF) ∧ (b.toNat = 0xE0 → 0xA0 ≤ x.toNat) ∧
        (b.toNat = 0xED → x.toNat ≤ 0x9F) := by
  rw [second_of_three, range_iff]
  simp only [← UInt8.toNat_inj, UInt8.reduceToNat]
  split_ifs <;> simp only [UInt8.reduceToNat] <;> omega

private theorem second_of_four_iff (b x : UInt8) :
    ((second_of_four b).1 ≤ x ∧ x ≤ (second_of_four b).2) ↔
      (0x80 ≤ x.toNat ∧ x.toNat ≤ 0xBF) ∧ (b.toNat = 0xF0 → 0x90 ≤ x.toNat) ∧
        (b.toNat = 0xF4 → x.toNat ≤ 0x8F) := by
  rw [second_of_four, range_iff]
  simp only [← UInt8.toNat_inj, UInt8.reduceToNat]
  split_ifs <;> simp only [UInt8.reduceToNat] <;> omega

private theorem tail_range_iff (x : UInt8) :
    (tail_range.1 ≤ x ∧ x ≤ tail_range.2) ↔ 0x80 ≤ x.toNat ∧ x.toNat ≤ 0xBF := range_iff _ _ _

private theorem toNat_ofNat_lt {n : ℕ} (hn : n < 256) : (UInt8.ofNat n).toNat = n := by
  rw [UInt8.toNat_ofNat', Nat.mod_eq_of_lt hn]

private theorem fits_cons (range : UInt8 × UInt8) (ranges : List (UInt8 × UInt8)) (x : UInt8)
    (rest : Bytes) : fitting (range :: ranges) (x :: rest) = (range :: ranges).length ↔
      (range.1 ≤ x ∧ x ≤ range.2) ∧ fitting ranges rest = ranges.length := by
  rw [fitting, List.length_cons]
  by_cases h : range.1 ≤ x ∧ x ≤ range.2
  · simp [h]
  · simp [h]

private theorem fits_length (rest : Bytes) (h : fitting ranges rest = ranges.length) :
    ∃ taken tail, rest = taken ++ tail ∧
      taken.length = ranges.length := by
  have hle := fitting_le ranges rest
  exact ⟨rest.take ranges.length, rest.drop ranges.length, (List.take_append_drop _ _).symm,
    by rw [List.length_take]; omega⟩

/-- A character's code starts with a byte whose followers all fit. -/
theorem fitting_of_prefix (c : Char) (b : UInt8) (rest : Bytes)
    (h : String.utf8EncodeChar c <+: b :: rest) :
    ∃ ranges, followers b = some ranges ∧ fitting ranges rest = ranges.length := by
  have hval := val_lt c
  unfold String.utf8EncodeChar at h
  simp only at h
  generalize c.val.toNat = v at h hval
  split_ifs at h with h1 h2 h3
  all_goals
    simp only [List.cons_prefix_cons] at h
    obtain ⟨rfl, t, rfl⟩ := h
  · refine ⟨[], followers_one _ ?_, rfl⟩
    rw [toNat_ofNat_lt (by omega)]
    omega
  · refine ⟨_, followers_two _ ?_, ?_⟩
    · rw [toNat_ofNat_lt (by omega)]
      omega
    · rw [List.cons_append, fits_cons, tail_range_iff, toNat_ofNat_lt (by omega)]
      exact ⟨by omega, rfl⟩
  · refine ⟨_, followers_three _ ?_, ?_⟩
    · rw [toNat_ofNat_lt (by omega)]
      omega
    · rw [List.cons_append, List.cons_append, fits_cons, fits_cons, second_of_three_iff,
        tail_range_iff, toNat_ofNat_lt (by omega), toNat_ofNat_lt (by omega),
        toNat_ofNat_lt (by omega)]
      exact ⟨by omega, by omega, rfl⟩
  · refine ⟨_, followers_four _ ?_, ?_⟩
    · rw [toNat_ofNat_lt (by omega)]
      omega
    · rw [List.cons_append, List.cons_append, List.cons_append, fits_cons, fits_cons, fits_cons,
        second_of_four_iff, tail_range_iff, tail_range_iff, toNat_ofNat_lt (by omega),
        toNat_ofNat_lt (by omega), toNat_ofNat_lt (by omega), toNat_ofNat_lt (by omega)]
      exact ⟨by omega, by omega, by omega, rfl⟩

private theorem val_ofNat (n : ℕ) (h : n < 0xD800 ∨ 0xDFFF < n ∧ n < 0x110000) :
    (Char.ofNat n).val.toNat = n := by
  rw [Char.ofNat, dif_pos h]
  rfl

private theorem eq_ofNat (n : ℕ) (h : n = b.toNat) : UInt8.ofNat n = b := by
  rw [h, UInt8.ofNat_toNat]

/-- The code of the character that a first byte and its followers stand for. -/
theorem utf8EncodeChar_char_of (ranges : List (UInt8 × UInt8)) (rest : Bytes)
    (hb : followers b = some ranges) (hfit : fitting ranges rest = ranges.length) :
    String.utf8EncodeChar (char_of b (rest.take ranges.length)) =
      b :: rest.take ranges.length := by
  obtain ⟨taken, tail, rfl, hlen⟩ := fits_length ranges rest hfit
  rw [List.take_left' hlen]
  rcases followers_some b ranges hb with h | h | h | h
  · rw [followers_one b h] at hb
    obtain rfl := Option.some.inj hb
    obtain rfl : taken = [] := List.length_eq_zero_iff.mp hlen
    have hchar : (char_of b []).val.toNat = b.toNat := val_ofNat b.toNat (by omega)
    rw [String.utf8EncodeChar, hchar, if_pos (by omega), UInt8.ofNat_toNat]
  · rw [followers_two b h] at hb
    obtain rfl := Option.some.inj hb
    obtain ⟨x, rfl⟩ := List.length_eq_one_iff.mp hlen
    rw [List.cons_append, fits_cons, tail_range_iff] at hfit
    have hchar : (char_of b [x]).val.toNat = b.toNat % 32 * 64 + x.toNat % 64 :=
      val_ofNat (b.toNat % 32 * 64 + x.toNat % 64) (by omega)
    rw [String.utf8EncodeChar, hchar, if_neg (by omega), if_pos (by omega),
      eq_ofNat b _ (by omega), eq_ofNat x _ (by omega)]
  · rw [followers_three b h] at hb
    obtain rfl := Option.some.inj hb
    obtain ⟨x, y, rfl⟩ := List.length_eq_two.mp hlen
    rw [List.cons_append, List.cons_append, fits_cons, fits_cons, second_of_three_iff,
      tail_range_iff] at hfit
    have hchar : (char_of b [x, y]).val.toNat =
        (b.toNat % 16 * 64 + x.toNat % 64) * 64 + y.toNat % 64 :=
      val_ofNat ((b.toNat % 16 * 64 + x.toNat % 64) * 64 + y.toNat % 64) (by omega)
    rw [String.utf8EncodeChar, hchar, if_neg (by omega), if_neg (by omega), if_pos (by omega),
      eq_ofNat b _ (by omega),
      eq_ofNat x _ (by omega), eq_ofNat y _ (by omega)]
  · rw [followers_four b h] at hb
    obtain rfl := Option.some.inj hb
    obtain ⟨x, y, z, rfl⟩ := List.length_eq_three.mp hlen
    rw [List.cons_append, List.cons_append, List.cons_append, fits_cons, fits_cons, fits_cons,
      second_of_four_iff, tail_range_iff, tail_range_iff] at hfit
    have hchar : (char_of b [x, y, z]).val.toNat =
        ((b.toNat % 8 * 64 + x.toNat % 64) * 64 + y.toNat % 64) * 64 + z.toNat % 64 :=
      val_ofNat (((b.toNat % 8 * 64 + x.toNat % 64) * 64 + y.toNat % 64) * 64 + z.toNat % 64)
        (by omega)
    rw [String.utf8EncodeChar, hchar, if_neg (by omega), if_neg (by omega), if_neg (by omega),
      eq_ofNat b _ (by omega),
      eq_ofNat x _ (by omega), eq_ofNat y _ (by omega), eq_ofNat z _ (by omega)]

/-- No character starts where the followers of the first byte do not fit. -/
private theorem noneStarts_of_misfit (rest : Bytes)
    (h : ∀ ranges, followers b = some ranges → fitting ranges rest ≠ ranges.length) :
    NoneStarts utf8 (b :: rest) := by
  intro c front hcode hpre
  obtain rfl := Option.some.inj hcode
  obtain ⟨ranges, hb, hfit⟩ := fitting_of_prefix c b rest hpre
  exact h ranges hb hfit

/-- A run of strays is a first byte and the bytes after it that continue a character. -/
private theorem strays_of_misfit (ranges : List (UInt8 × UInt8)) (rest : Bytes)
    (hb : followers b = some ranges) (hfit : fitting ranges rest ≠ ranges.length) :
    Strays utf8 (fitting ranges rest + 1) (b :: rest) := by
  refine ⟨by simpa using fitting_le ranges rest, ?_⟩
  intro i hi
  obtain _ | i := i
  · apply noneStarts_of_misfit b rest
    intro ranges' hb'
    obtain rfl := Option.some.inj (hb.symm.trans hb')
    exact hfit
  · obtain ⟨x, tail, hdrop, hlo, hhi⟩ := fitting_continuation ranges rest
      (continuation_range b ranges hb) i (by omega)
    rw [List.drop_succ_cons, hdrop]
    apply noneStarts_of_misfit x tail
    intro ranges' hx
    rw [followers_continuation x hlo hhi] at hx
    simp at hx

private theorem from_utf8_none (rest : Bytes) (hb : followers b = none) :
    from_utf8 (b :: rest) = .error ⟨0, some 1⟩ := by
  rw [from_utf8, hb]

private theorem from_utf8_misfit (ranges : List (UInt8 × UInt8)) (rest : Bytes)
    (hb : followers b = some ranges) (hfit : fitting ranges rest ≠ ranges.length) :
    from_utf8 (b :: rest) = .error ⟨0, if fitting ranges rest = rest.length then none
      else some (fitting ranges rest + 1)⟩ := by
  rw [from_utf8, hb]
  simp only [if_neg hfit]

private theorem from_utf8_fits (ranges : List (UInt8 × UInt8)) (rest : Bytes)
    (hb : followers b = some ranges) (hfit : fitting ranges rest = ranges.length) :
    from_utf8 (b :: rest) = match from_utf8 (rest.drop ranges.length) with
      | .ok s => .ok (char_of b (rest.take ranges.length) :: s)
      | .error e => .error ⟨ranges.length + 1 + e.valid_up_to, e.error_len⟩ := by
  rw [from_utf8, hb]
  simp only [hfit, if_true]

theorem from_utf8_ok (s : List Char) (h : from_utf8 bytes = .ok s) (rest : Bytes)
    (pieces : List (Char ⊕ UInt8)) (hrest : Segmented utf8 rest pieces) :
    Segmented utf8 (bytes ++ rest) (s.map .inl ++ pieces) := by
  induction hn : bytes.length using Nat.strong_induction_on generalizing bytes s with
  | h n ih =>
    obtain _ | ⟨b, tail⟩ := bytes
    · rw [from_utf8] at h
      obtain rfl := Except.ok.inj h
      exact hrest
    · rcases hb : followers b with _ | ranges
      · rw [from_utf8_none b tail hb] at h
        simp at h
      · by_cases hfit : fitting ranges tail = ranges.length
        · rw [from_utf8_fits b ranges tail hb hfit] at h
          rcases hdrop : from_utf8 (tail.drop ranges.length) with e | s'
          · simp [hdrop] at h
          · rw [hdrop] at h
            obtain rfl := Except.ok.inj h
            have htail := ih _ (by simp only [← hn, List.length_cons, List.length_drop]; omega)
              _ s' hdrop rfl
            have hcode := utf8EncodeChar_char_of b ranges tail hb hfit
            have hpiece := @Segmented.char _ _ utf8 _ _ _ _ (congrArg some hcode) htail
            have hsplit : b :: tail ++ rest = (b :: tail.take ranges.length) ++
                (tail.drop ranges.length ++ rest) := by
              rw [List.cons_append, List.cons_append, ← List.append_assoc,
                List.take_append_drop]
            rw [hsplit]
            exact hpiece
        · rw [from_utf8_misfit b ranges tail hb hfit] at h
          simp at h

private theorem fitting_take (rest : Bytes) (n : ℕ) (hfit : fitting ranges rest = ranges.length)
    (hn : ranges.length ≤ n) : fitting ranges (rest.take n) = ranges.length := by
  induction ranges generalizing rest n with
  | nil => rfl
  | cons range ranges ih =>
    obtain _ | ⟨x, rest⟩ := rest
    · simp [fitting] at hfit
    · obtain _ | n := n
      · simp at hn
      · obtain ⟨hx, htail⟩ := (fits_cons range ranges x rest).mp hfit
        exact (fits_cons range ranges x _).mpr ⟨hx, ih rest n htail (by simpa using hn)⟩

/-- The length of the run at which the decoder stopped. -/
def Utf8Error.bad (e : Utf8Error) (size : ℕ) : ℕ := e.error_len.getD (size - e.valid_up_to)

/-- Before the error stands a text, and at it a run in which no character starts. -/
structure Utf8Error.Found (e : Utf8Error) (bytes : Bytes) : Prop where
  text_before : ∃ s, from_utf8 (bytes.take e.valid_up_to) = .ok s
  bad_pos : 0 < e.bad bytes.length
  strays : Strays utf8 (e.bad bytes.length) (bytes.drop e.valid_up_to)

private theorem found_at_front (len : Option ℕ) (hpos : 0 < len.getD bytes.length)
    (h : Strays utf8 (len.getD bytes.length) bytes) :
    Utf8Error.Found ⟨0, len⟩ bytes where
  text_before := ⟨[], by rw [List.take_zero, from_utf8]⟩
  bad_pos := hpos
  strays := h

private theorem Utf8Error.Found.after_char (e : Utf8Error) (b : UInt8)
    (ranges : List (UInt8 × UInt8)) (rest : Bytes) (hb : followers b = some ranges)
    (hfit : fitting ranges rest = ranges.length) (h : e.Found (rest.drop ranges.length)) :
    Utf8Error.Found ⟨ranges.length + 1 + e.valid_up_to, e.error_len⟩ (b :: rest) := by
  have hle := fitting_le ranges rest
  have hbad : Utf8Error.bad ⟨ranges.length + 1 + e.valid_up_to, e.error_len⟩ (b :: rest).length =
      e.bad (rest.drop ranges.length).length := by
    have hsize : rest.length + 1 - (ranges.length + 1 + e.valid_up_to) =
        rest.length - ranges.length - e.valid_up_to := by omega
    simp only [Utf8Error.bad, List.length_drop, List.length_cons, hsize]
  have hdrop : (b :: rest).drop (ranges.length + 1 + e.valid_up_to) =
      (rest.drop ranges.length).drop e.valid_up_to := by
    rw [List.drop_drop, show ranges.length + 1 + e.valid_up_to =
      ranges.length + e.valid_up_to + 1 by omega, List.drop_succ_cons]
  obtain ⟨⟨s, hs⟩, hpos, hstrays⟩ := h
  refine ⟨⟨char_of b (rest.take ranges.length) :: s, ?_⟩, by rwa [hbad], by rwa [hbad, hdrop]⟩
  have htake : (b :: rest).take (ranges.length + 1 + e.valid_up_to) =
      b :: rest.take (ranges.length + e.valid_up_to) := by
    rw [show ranges.length + 1 + e.valid_up_to = ranges.length + e.valid_up_to + 1 by omega,
      List.take_succ_cons]
  have hfront : (rest.take (ranges.length + e.valid_up_to)).take ranges.length =
      rest.take ranges.length := by
    rw [List.take_take, min_eq_left (by omega)]
  have hback : (rest.take (ranges.length + e.valid_up_to)).drop ranges.length =
      (rest.drop ranges.length).take e.valid_up_to := by
    rw [List.drop_take, Nat.add_sub_cancel_left]
  show from_utf8 ((b :: rest).take (ranges.length + 1 + e.valid_up_to)) = _
  rw [htake, from_utf8_fits b ranges _ hb (fitting_take ranges rest _ hfit (by omega)), hfront,
    hback, hs]

theorem from_utf8_error (e : Utf8Error) (h : from_utf8 bytes = .error e) : e.Found bytes := by
  induction hn : bytes.length using Nat.strong_induction_on generalizing bytes e with
  | h n ih =>
    obtain _ | ⟨b, tail⟩ := bytes
    · rw [from_utf8] at h
      simp at h
    · rcases hb : followers b with _ | ranges
      · rw [from_utf8_none b tail hb] at h
        obtain rfl := Except.error.inj h
        apply found_at_front (b :: tail) (some 1) (by simp)
        refine ⟨by simp, ?_⟩
        intro i hi
        obtain rfl : i = 0 := by simpa using hi
        apply noneStarts_of_misfit b tail
        intro ranges hsome
        simp [hb] at hsome
      · by_cases hfit : fitting ranges tail = ranges.length
        · rw [from_utf8_fits b ranges tail hb hfit] at h
          rcases hdrop : from_utf8 (tail.drop ranges.length) with e' | s'
          · rw [hdrop] at h
            obtain rfl := Except.error.inj h
            have hfound := ih _ (by simp only [← hn, List.length_cons, List.length_drop]; omega)
              _ e' hdrop rfl
            exact Utf8Error.Found.after_char e' b ranges tail hb hfit hfound
          · simp [hdrop] at h
        · rw [from_utf8_misfit b ranges tail hb hfit] at h
          obtain rfl := Except.error.inj h
          have hstrays := strays_of_misfit b ranges tail hb hfit
          have hlen : (if fitting ranges tail = tail.length then none
              else some (fitting ranges tail + 1)).getD (b :: tail).length =
              fitting ranges tail + 1 := by
            by_cases hend : fitting ranges tail = tail.length
            · rw [if_pos hend, Option.getD_none, List.length_cons, hend]
            · rw [if_neg hend, Option.getD_some]
          exact found_at_front (b :: tail) _ (by rw [hlen]; omega) (by rwa [hlen])

end Utf8

section Utf16

/-- `char::decode_utf16`; what is no character is an unpaired surrogate. -/
def decode_utf16 : List UInt16 → List (Char ⊕ UInt16)
  | [] => []
  | u :: rest =>
    if u &&& 0xF800 ≠ 0xD800 then .inl (Char.ofNat u.toNat) :: decode_utf16 rest
    else if 0xDC00 ≤ u then .inr u :: decode_utf16 rest
    else
      match rest with
      | [] => [.inr u]
      | u2 :: tail =>
        if u2 < 0xDC00 ∨ 0xDFFF < u2 then .inr u :: decode_utf16 (u2 :: tail)
        else .inl (Char.ofNat ((u.toNat % 0x400 * 0x400 + u2.toNat % 0x400) + 0x10000)) ::
          decode_utf16 tail

/-- The code of a character in UTF-16. -/
def utf16 (c : Char) : Option (List UInt16) :=
  let v := c.val.toNat
  if v < 0x10000 then some [UInt16.ofNat v]
  else some [UInt16.ofNat (0xD800 + (v - 0x10000) / 0x400),
    UInt16.ofNat (0xDC00 + (v - 0x10000) % 0x400)]

private theorem toNat_ofNat16 {n : ℕ} (hn : n < 65536) : (UInt16.ofNat n).toNat = n := by
  rw [UInt16.toNat_ofNat', Nat.mod_eq_of_lt hn]

private theorem surrogate_iff (u : UInt16) :
    u &&& 0xF800 = 0xD800 ↔ 0xD800 ≤ u.toNat ∧ u.toNat ≤ 0xDFFF := by
  have hdiv : (u &&& 0xF800).toNat / 2 ^ 11 = u.toNat / 2048 % 32 := by
    rw [UInt16.toNat_and, Nat.and_div_two_pow]
    exact Nat.and_two_pow_sub_one_eq_mod (u.toNat / 2 ^ 11) 5
  have hmod : (u &&& 0xF800).toNat % 2 ^ 11 = 0 := by
    rw [UInt16.toNat_and, Nat.and_mod_two_pow]
    exact Nat.and_zero _
  have hval : (u &&& 0xF800).toNat = u.toNat / 2048 % 32 * 2048 := by omega
  rw [← UInt16.toNat_inj, hval]
  have := u.toNat_lt
  simp only [UInt16.reduceToNat]
  omega

private theorem utf16_one (u : UInt16) (h : ¬ (0xD800 ≤ u.toNat ∧ u.toNat ≤ 0xDFFF)) :
    utf16 (Char.ofNat u.toNat) = some [u] := by
  have hlt := u.toNat_lt
  rw [utf16, val_ofNat _ (by omega), if_pos (by omega), UInt16.ofNat_toNat]

private theorem utf16_two (u u2 : UInt16) (h : 0xD800 ≤ u.toNat ∧ u.toNat < 0xDC00)
    (h2 : 0xDC00 ≤ u2.toNat ∧ u2.toNat ≤ 0xDFFF) :
    utf16 (Char.ofNat ((u.toNat % 0x400 * 0x400 + u2.toNat % 0x400) + 0x10000)) =
      some [u, u2] := by
  have hfirst : 0xD800 + ((u.toNat % 0x400 * 0x400 + u2.toNat % 0x400) + 0x10000 - 0x10000) /
      0x400 = u.toNat := by omega
  have hsecond : 0xDC00 + ((u.toNat % 0x400 * 0x400 + u2.toNat % 0x400) + 0x10000 - 0x10000) %
      0x400 = u2.toNat := by omega
  rw [utf16, val_ofNat _ (by omega), if_neg (by omega), hfirst, hsecond, UInt16.ofNat_toNat,
    UInt16.ofNat_toNat]

/-- No character starts at a surrogate that no second surrogate follows. -/
private theorem noneStarts_surrogate (u : UInt16) (rest : List UInt16)
    (hu : 0xD800 ≤ u.toNat ∧ u.toNat ≤ 0xDFFF)
    (hrest : ∀ u2 tail, rest = u2 :: tail → u.toNat < 0xDC00 →
      u2.toNat < 0xDC00 ∨ 0xDFFF < u2.toNat) : NoneStarts utf16 (u :: rest) := by
  intro c front hcode hpre
  have hval := val_lt c
  rw [utf16] at hcode
  generalize c.val.toNat = v at hcode hval
  by_cases hone : v < 0x10000
  · rw [if_pos hone] at hcode
    obtain rfl := Option.some.inj hcode
    obtain ⟨rfl, -⟩ := List.cons_prefix_cons.mp hpre
    rw [toNat_ofNat16 hone] at hu
    omega
  · rw [if_neg hone] at hcode
    obtain rfl := Option.some.inj hcode
    obtain ⟨rfl, t, rfl⟩ := List.cons_prefix_cons.mp hpre
    rw [toNat_ofNat16 (by omega)] at hrest
    have hsecond := hrest _ t rfl (by omega)
    rw [toNat_ofNat16 (by omega)] at hsecond
    omega

theorem segmented_utf16 (units : List UInt16) : Segmented utf16 units (decode_utf16 units) := by
  fun_induction decode_utf16 units with
  | case1 => exact .nil
  | case2 u rest hplain ih =>
    rw [Ne, surrogate_iff] at hplain
    exact .char _ [u] _ _ (utf16_one u hplain) ih
  | case3 u rest hsur hlow ih =>
    rw [not_not, surrogate_iff] at hsur
    rw [UInt16.le_iff_toNat_le] at hlow
    refine .stray u _ _ (noneStarts_surrogate u rest hsur ?_) ih
    intro u2 tail _ hlt
    simp only [UInt16.reduceToNat] at hlow
    omega
  | case4 u hsur hhigh =>
    rw [not_not, surrogate_iff] at hsur
    refine .stray u _ _ (noneStarts_surrogate u [] hsur ?_) .nil
    intro u2 tail h
    simp at h
  | case5 u hsur hhigh u2 tail hsecond ih =>
    rw [not_not, surrogate_iff] at hsur
    refine .stray u _ _ (noneStarts_surrogate u _ hsur ?_) ih
    intro u2' tail' h _
    obtain ⟨rfl, rfl⟩ := List.cons.inj h
    simpa only [UInt16.lt_iff_toNat_lt, UInt16.reduceToNat] using hsecond
  | case6 u hsur hhigh u2 tail hsecond ih =>
    rw [not_not, surrogate_iff] at hsur
    simp only [UInt16.le_iff_toNat_le, UInt16.lt_iff_toNat_lt, UInt16.reduceToNat] at hhigh hsecond
    exact .char _ [u, u2] _ _ (utf16_two u u2 (by omega) (by omega)) ih

end Utf16

end JavaDebug.TextDecoders
