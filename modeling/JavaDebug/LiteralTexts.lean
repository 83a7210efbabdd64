import JavaDebug.ParsedExpressions

/-!
What the texts of literals are made of. A number is of digits, signs, a dot and the
letters of exponents and suffixes; a char literal is one character, an escape or the
digits of a code. Strings and expressions are the only arguments that may hold
more.
-/
namespace JavaDebug.LiteralTexts

open Addressing JavaValues
open Expressions ParsedExpressions
open KeyHashes (utf16_units)
open BooleanTrees (inner_text)

section Numbers

def NumberChar (c : Char) : Prop :=
  c.isDigit = true ∨ c ∈ ['+', '-', '.', 'e', 'E', 'f', 'F', 'd', 'D', 'l', 'L']

instance : DecidablePred NumberChar := fun _ => inferInstanceAs (Decidable (_ ∨ _))

theorem holds_of_not {b : Bool} (h : ¬ (!b) = true) : b = true := by simpa using h

theorem signed_chars (n : ℤ) (s : List Char) (h : parse_signed s = some n) :
    ∀ c ∈ s, NumberChar c := by
  have hall : ∀ digits : List Char, digits.all Char.isDigit = true → ∀ c ∈ digits, NumberChar c :=
    fun digits hd c hc => .inl (List.all_eq_true.mp hd c hc)
  rw [parse_signed] at h
  dsimp only at h
  generalize hdigits : (if s.head? = some '+' ∨ s.head? = some '-' then s.tail else s) = digits at h
  have hgood : digits.all Char.isDigit = true := by
    by_contra hno
    rw [if_pos (.inr (by simpa using hno))] at h
    simp at h
  by_cases hsign : s.head? = some '+' ∨ s.head? = some '-'
  · rw [if_pos hsign] at hdigits
    obtain _ | ⟨c, rest⟩ := s
    · simp
    · intro d hd
      rcases List.mem_cons.mp hd with rfl | hmem
      · rcases hsign with hplus | hminus
        · rw [Option.some.inj hplus]
          exact .inr (by simp)
        · rw [Option.some.inj hminus]
          exact .inr (by simp)
      · rw [List.tail_cons] at hdigits
        exact hall digits hgood d (hdigits ▸ hmem)
  · rw [if_neg hsign] at hdigits
    rw [hdigits]
    exact hall digits hgood

theorem int_chars (least most n : ℤ) (s : List Char) (h : parse_int least most s = some n) :
    ∀ c ∈ s, NumberChar c :=
  signed_chars n s (Option.filter_eq_some_iff.mp h).1

theorem suffix_chars (lower upper : Char) (t body : List Char)
    (h : strip_suffix lower upper t = some body) : ∀ c ∈ t, c ∈ body ∨ c = lower ∨ c = upper := by
  rw [strip_suffix] at h
  split_ifs at h with hlast
  obtain rfl := Option.some.inj h
  rcases List.eq_nil_or_concat t with rfl | ⟨front, last, rfl⟩
  · simp
  · rw [List.concat_eq_append, List.getLast?_concat] at hlast
    rw [List.concat_eq_append, List.dropLast_concat]
    intro c hc
    rcases List.mem_append.mp hc with hfront | hend
    · exact .inl hfront
    · rw [List.mem_singleton.mp hend]
      exact .inr (hlast.imp (fun h => Option.some.inj h) fun h => Option.some.inj h)

variable (t : List Char)

theorem float_chars (v : UInt64 × Bool) (h : parse_float_lit t = some v) :
    ∀ c ∈ t, NumberChar c := by
  have hbody : ∀ body : List Char, (body.all fun c => c.isDigit || c = '.' || is_exponent c ||
      c = '+' || c = '-') = true → ∀ c ∈ body, NumberChar c := by
    intro body hb c hc
    have := List.all_eq_true.mp hb c hc
    simp only [is_exponent, Bool.or_eq_true, decide_eq_true_eq] at this
    rcases this with (((hd | rfl) | rfl | rfl) | rfl) | rfl
    · exact .inl hd
    all_goals exact .inr (by simp)
  rw [parse_float_lit] at h
  rcases hf : strip_suffix 'f' 'F' t with _ | body
  · rcases hd : strip_suffix 'd' 'D' t with _ | body
    · simp only [hf, hd, Option.getD_none] at h
      split_ifs at h with h1 h2 h3
      exact hbody t (holds_of_not h2)
    · simp only [hf, hd, Option.getD_some] at h
      split_ifs at h with h1 h2 h3
      intro c hc
      rcases suffix_chars 'd' 'D' t body hd c hc with hmem | rfl | rfl
      · exact hbody body (holds_of_not h2) c hmem
      · exact .inr (by simp)
      · exact .inr (by simp)
  · simp only [hf] at h
    split_ifs at h with h1 h2 h3
    intro c hc
    rcases suffix_chars 'f' 'F' t body hf c hc with hmem | rfl | rfl
    · exact hbody body (holds_of_not h2) c hmem
    · exact .inr (by simp)
    · exact .inr (by simp)

theorem i64_chars (n : Int64) (h : parse_i64 t = some n) : ∀ c ∈ t, NumberChar c := by
  obtain ⟨m, hm, -⟩ := Option.map_eq_some_iff.mp h
  exact int_chars _ _ m t hm

theorem number_chars (a : ArgLit) (h : parse_number_lit t = some a) : ∀ c ∈ t, NumberChar c := by
  rw [parse_number_lit] at h
  rcases hlong : (strip_suffix 'L' 'l' t).bind parse_i64 with _ | n
  · rw [hlong] at h
    dsimp only at h
    rcases hint : parse_i32 t with _ | n
    · rw [hint] at h
      dsimp only at h
      rcases hwide : parse_i64 t with _ | n
      · rw [hwide] at h
        obtain ⟨v, hv, -⟩ := Option.map_eq_some_iff.mp h
        exact float_chars t v hv
      · exact i64_chars t n hwide
    · obtain ⟨m, hm, -⟩ := Option.map_eq_some_iff.mp hint
      exact int_chars _ _ m t hm
  · obtain ⟨body, hbody, hn⟩ := Option.bind_eq_some_iff.mp hlong
    intro c hc
    rcases suffix_chars 'L' 'l' t body hbody c hc with hmem | rfl | rfl
    · exact i64_chars body n hn c hmem
    · exact .inr (by simp)
    · exact .inr (by simp)

theorem number_kind (a : ArgLit) (h : parse_number_lit t = some a) :
    (∀ s, a ≠ .str s) ∧ ∀ e, a ≠ .expr e := by
  rw [parse_number_lit] at h
  rcases hlong : (strip_suffix 'L' 'l' t).bind parse_i64 with _ | n
  · rw [hlong] at h
    dsimp only at h
    rcases hint : parse_i32 t with _ | n
    · rw [hint] at h
      dsimp only at h
      rcases hwide : parse_i64 t with _ | n
      · rw [hwide] at h
        obtain ⟨⟨v, is_float⟩, -, rfl⟩ := Option.map_eq_some_iff.mp h
        cases is_float <;> simp
      · rw [hwide] at h
        simp [← Option.some.inj h]
    · rw [hint] at h
      simp [← Option.some.inj h]
  · rw [hlong] at h
    simp [← Option.some.inj h]

end Numbers

section Chars

/-- A text of a few characters, or one of the digits of a code. -/
def CharText (inner : List Char) : Prop :=
  inner.length ≤ 2 ∨ ∃ hex, inner = '\\' :: 'u' :: hex ∧ ∀ c ∈ hex, (hex_digit c).isSome ∨ c = '+'

theorem hex_chars (acc n : ℕ) (s : List Char) (h : hex_value acc s = some n) :
    ∀ c ∈ s, (hex_digit c).isSome := by
  induction s generalizing acc with
  | nil => simp
  | cons c s ih =>
    rw [hex_value] at h
    rcases hd : hex_digit c with _ | d
    · rw [hd] at h
      simp at h
    · rw [hd] at h
      intro e he
      rcases List.mem_cons.mp he with rfl | hmem
      · rw [hd]
        rfl
      · exact ih _ h e hmem

theorem units_length (s : List Char) : s.length ≤ (s.flatMap utf16_units).length := by
  induction s with
  | nil => simp
  | cons c s ih =>
    have hone : 1 ≤ (utf16_units c).length := by
      rw [utf16_units]
      split_ifs <;> simp
    rw [List.flatMap_cons, List.length_cons, List.length_append]
    omega

theorem char_chars (inner : List Char) (u : UInt16) (h : parse_char_inner inner = .ok u) :
    CharText inner := by
  unfold parse_char_inner at h
  split at h
  · rename_i hex
    refine .inr ⟨hex, rfl, ?_⟩
    rcases hu : parse_u16 hex with _ | v
    · rw [hu] at h
      simp at h
    · obtain ⟨n, hn, -⟩ := Option.bind_eq_some_iff.mp hu
      rw [from_str_radix_16] at hn
      intro c hc
      split_ifs at hn with hplus hnil hnil
      · obtain ⟨m, hm, -⟩ := Option.bind_eq_some_iff.mp hn
        obtain _ | ⟨d, digits⟩ := hex
        · simp at hc
        · rcases List.mem_cons.mp hc with rfl | hmem
          · exact .inr (Option.some.inj hplus)
          · exact .inl (hex_chars 0 m _ hm c hmem)
      · obtain ⟨m, hm, -⟩ := Option.bind_eq_some_iff.mp hn
        exact .inl (hex_chars 0 m _ hm c hc)
  · exact .inl (by simp)
  · cases h
  · have hsize := units_length inner
    rcases hunits : inner.flatMap utf16_units with _ | ⟨u, _ | ⟨v, rest⟩⟩
    · rw [hunits] at h
      cases h
    · rw [hunits] at hsize
      exact .inl (hsize.trans (by simp))
    · rw [hunits] at h
      cases h

/-- What an argument is, by its text. -/
theorem lit_cases (expr : List Char → Except String (List Seg)) (t : List Char) (a : ArgLit)
    (h : parse_lit expr t = .ok a) :
    ((trim t).length ≤ 5 ∧ (a = .null ∨ ∃ b, a = .bool b)) ∨
    (between '"' (trim t) = true ∧ a = .str (String.ofList (inner_text (trim t)))) ∨
    (between '\'' (trim t) = true ∧ CharText (inner_text (trim t)) ∧ ∃ u, a = .char u) ∨
    (parse_number_lit (trim t) = some a) ∨
    (a = .expr (String.ofList (trim t)) ∧ between '"' (trim t) = false ∧
      between '\'' (trim t) = false ∧ ∃ segs, expr (trim t) = .ok segs) := by
  rw [parse_lit] at h
  split_ifs at h with h1 h2 h3 h4 h5
  · exact .inl ⟨by rw [h1]; decide, .inl (Except.ok.inj h).symm⟩
  · exact .inl ⟨by rw [h2]; decide, .inr ⟨true, (Except.ok.inj h).symm⟩⟩
  · exact .inl ⟨by rw [h3]; decide, .inr ⟨false, (Except.ok.inj h).symm⟩⟩
  · exact .inr (.inl ⟨h4, (Except.ok.inj h).symm⟩)
  · obtain ⟨u, hu, rfl⟩ := (map_ok _ _ _).mp h
    exact .inr (.inr (.inl ⟨h5, char_chars _ u hu, u, rfl⟩))
  · rcases hnumber : parse_number_lit (trim t) with _ | n
    · rw [hnumber] at h
      dsimp only at h
      rcases hexpr : expr (trim t) with err | segs
      · rw [hexpr] at h
        simp at h
      · rw [hexpr] at h
        refine .inr (.inr (.inr (.inr ⟨(Except.ok.inj h).symm, ?_, ?_, segs, rfl⟩)))
        · simpa using h4
        · simpa using h5
    · rw [hnumber] at h
      exact .inr (.inr (.inr (.inl (congrArg some (Except.ok.inj h)))))

theorem between_split (quote : Char) (t : List Char) (h : between quote t = true) :
    t = quote :: (inner_text t ++ [quote]) := by
  simp only [between, Bool.and_eq_true, decide_eq_true_eq] at h
  obtain ⟨⟨hlen, hopen⟩, hclose⟩ := h
  obtain _ | ⟨c, t⟩ := t
  · simp at hlen
  · rcases List.eq_nil_or_concat t with rfl | ⟨front, last, rfl⟩
    · simp at hlen
    · rw [List.concat_eq_append, ← List.cons_append, List.getLast?_concat] at hclose
      rw [Option.some.inj hopen, Option.some.inj hclose, inner_text]
      simp

/-- A text with a handle in it is kept as an expression when it parses as one. -/
theorem lit_expr (expr : List Char → Except String (List Seg)) (t : List Char) (segs : List Seg)
    (hat : '@' ∈ trim t) (hstr : between '"' (trim t) = false)
    (hchar : between '\'' (trim t) = false) (h : expr (trim t) = .ok segs) :
    parse_lit expr t = .ok (.expr (String.ofList (trim t))) := by
  have hne : ∀ s : String, '@' ∉ s.toList → trim t ≠ s.toList := fun s hs heq => hs (heq ▸ hat)
  have hnumber : parse_number_lit (trim t) = none := by
    rcases hn : parse_number_lit (trim t) with _ | a
    · rfl
    · exact absurd (number_chars _ a hn '@' hat) (by decide)
  rw [parse_lit, if_neg (hne "null" (by decide)), if_neg (hne "true" (by decide)),
    if_neg (hne "false" (by decide)), if_neg (by simp [hstr]), if_neg (by simp [hchar]), hnumber]
  dsimp only
  rw [h]

end Chars

end JavaDebug.LiteralTexts
