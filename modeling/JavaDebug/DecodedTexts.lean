import JavaDebug.TextDecoders

/-!
Bytes and UTF-16 units rendered as text. A character is shown as itself or by a
short escape, and what does not decode by the number of its byte or unit. The
text has no control character, and from it every byte and unit is read back.
-/
namespace JavaDebug.DecodedTexts

open Segmentations Octets TextDecoders

inductive Charset
  | utf8
  | latin1
  | ascii
deriving DecidableEq

section Rendering

/-- The last `k` hexadecimal digits. -/
def hex_padded : ℕ → ℕ → List Char
  | 0, _ => []
  | k + 1, n => hex_padded k (n / 16) ++ [Nat.digitChar (n % 16)]

def push_text_char (out : String) (c : Char) : String :=
  if c = '\\' then out ++ "\\\\"
  else if c = '\n' then out ++ "\\n"
  else if c = '\r' then out ++ "\\r"
  else if c = '\t' then out ++ "\\t"
  else if c.val < 0x20 ∨ c.val = 0x7F then
    out ++ ("\\x" ++ String.ofList (hex_padded 2 c.val.toNat))
  else out.push c

def push_raw_byte (out : String) (b : UInt8) : String :=
  out ++ ("\\x" ++ String.ofList (hex_padded 2 b.toNat))

def push_raw_unit (out : String) (unit : UInt16) : String :=
  out ++ ("\\u" ++ String.ofList ((hex_padded 4 unit.toNat).map Char.toUpper))

def push_text (out : String) (s : List Char) : String := s.foldl push_text_char out

/-- Every run that is no text is marked, and what is after it decoded again. -/
def decode_utf8_marked (rest : Bytes) (out : String) : String :=
  match from_utf8 rest with
  | .ok s => push_text out s
  | .error e =>
    let good := e.valid_up_to
    let shown := match from_utf8 (rest.take good) with
      | .ok s => push_text out s
      | .error _ => out
    let bad := max (e.error_len.getD (rest.length - good)) 1
    let stop := min (good + bad) rest.length
    let marked := ((rest.take stop).drop good).foldl push_raw_byte shown
    if rest.drop stop ≠ [] then decode_utf8_marked (rest.drop stop) marked else marked
termination_by rest.length
decreasing_by
  rename_i hleft
  have hpos := List.length_pos_of_ne_nil hleft
  simp only [List.length_drop] at hpos ⊢
  omega

def decode_bytes (raw : Bytes) : Charset → String
  | .latin1 => raw.foldl (fun out b => push_text_char out (Char.ofNat b.toNat)) ""
  | .ascii =>
    raw.foldl (fun out b =>
      if b < 0x80 then push_text_char out (Char.ofNat b.toNat) else push_raw_byte out b) ""
  | .utf8 => decode_utf8_marked raw ""

def decode_chars (units : List UInt16) : String :=
  (decode_utf16 units).foldl (fun out unit =>
    match unit with
    | .inl c => push_text_char out c
    | .inr surrogate => push_raw_unit out surrogate) ""

end Rendering

section Pieces

variable {β : Type}

def char_text (c : Char) : List Char := (push_text_char "" c).toList

def byte_text (b : UInt8) : List Char := (push_raw_byte "" b).toList

def unit_text (unit : UInt16) : List Char := (push_raw_unit "" unit).toList

/-- The text of a piece; what did not decode has a text of its own. -/
def shown (stray_text : β → List Char) : Char ⊕ β → List Char
  | .inl c => char_text c
  | .inr u => stray_text u

variable (out : String)

theorem toList_push_text_char (c : Char) :
    (push_text_char out c).toList = out.toList ++ char_text c := by
  unfold char_text push_text_char
  split_ifs <;> simp

theorem toList_push_raw_byte (b : UInt8) :
    (push_raw_byte out b).toList = out.toList ++ byte_text b := by
  simp [byte_text, push_raw_byte]

theorem toList_push_raw_unit (unit : UInt16) :
    (push_raw_unit out unit).toList = out.toList ++ unit_text unit := by
  simp [unit_text, push_raw_unit]

theorem toList_foldl_push {α : Type} (push : String → α → String) (text : α → List Char)
    (hpush : ∀ out a, (push out a).toList = out.toList ++ text a) (items : List α) (out : String) :
    (items.foldl push out).toList = out.toList ++ items.flatMap text := by
  induction items generalizing out with
  | nil => simp
  | cons a items ih =>
    rw [List.foldl_cons, ih, hpush, List.flatMap_cons, List.append_assoc]

theorem toList_push_text (stray_text : β → List Char) (out : String) (s : List Char) :
    (push_text out s).toList = out.toList ++ (s.map .inl).flatMap (shown stray_text) := by
  rw [push_text, toList_foldl_push push_text_char char_text toList_push_text_char,
    List.flatMap_map]
  rfl

theorem toList_push_raw_bytes (raw : Bytes) :
    (raw.foldl push_raw_byte out).toList =
      out.toList ++ (raw.map .inr).flatMap (shown byte_text) := by
  rw [toList_foldl_push push_raw_byte byte_text toList_push_raw_byte, List.flatMap_map]
  rfl

end Pieces

section Reading

variable {β : Type}

def digit_value (c : Char) : ℕ :=
  if c.toNat < 58 then c.toNat - 48 else if c.toNat < 71 then c.toNat - 55 else c.toNat - 87

def number_of (digits : List Char) : ℕ := digits.foldl (fun n c => n * 16 + digit_value c) 0

/-- The pieces of a text; two digits below 0x80 are the number of a control character. -/
def read_back (unit : ℕ → β) : List Char → List (Char ⊕ β)
  | '\\' :: '\\' :: rest => .inl '\\' :: read_back unit rest
  | '\\' :: 'n' :: rest => .inl '\n' :: read_back unit rest
  | '\\' :: 'r' :: rest => .inl '\r' :: read_back unit rest
  | '\\' :: 't' :: rest => .inl '\t' :: read_back unit rest
  | '\\' :: 'x' :: a :: b :: rest =>
    let n := number_of [a, b]
    (if n < 0x80 then .inl (Char.ofNat n) else .inr (unit n)) :: read_back unit rest
  | '\\' :: 'u' :: a :: b :: c :: d :: rest =>
    .inr (unit (number_of [a, b, c, d])) :: read_back unit rest
  | c :: rest => .inl c :: read_back unit rest
  | [] => []

private theorem digit_value_lower (n : ℕ) : digit_value (Nat.digitChar (n % 16)) = n % 16 := by
  have hall : ∀ d : Fin 16, digit_value (Nat.digitChar d) = d := by decide
  exact hall ⟨n % 16, Nat.mod_lt n (by omega)⟩

private theorem digit_value_upper (n : ℕ) :
    digit_value (Nat.digitChar (n % 16)).toUpper = n % 16 := by
  have hall : ∀ d : Fin 16, digit_value (Nat.digitChar d).toUpper = d := by decide
  exact hall ⟨n % 16, Nat.mod_lt n (by omega)⟩

theorem number_of_two (n : ℕ) (h : n < 256) : ∃ a b, hex_padded 2 n = [a, b] ∧
    number_of [a, b] = n := by
  refine ⟨_, _, rfl, ?_⟩
  simp only [number_of, List.foldl_cons, List.foldl_nil, digit_value_lower]
  omega

theorem number_of_four (n : ℕ) (h : n < 65536) : ∃ a b c d,
    (hex_padded 4 n).map Char.toUpper = [a, b, c, d] ∧ number_of [a, b, c, d] = n := by
  refine ⟨_, _, _, _, rfl, ?_⟩
  simp only [number_of, List.foldl_cons, List.foldl_nil, digit_value_upper]
  omega

variable (unit : ℕ → β)

theorem read_back_plain (c : Char) (rest : List Char) (hc : c ≠ '\\') :
    read_back unit (c :: rest) = .inl c :: read_back unit rest := by
  rw [read_back] <;> simp [hc]

theorem byte_text_eq (b : UInt8) : byte_text b = '\\' :: 'x' :: hex_padded 2 b.toNat := by
  simp [byte_text, push_raw_byte]

theorem unit_text_eq (u : UInt16) :
    unit_text u = '\\' :: 'u' :: (hex_padded 4 u.toNat).map Char.toUpper := by
  simp [unit_text, push_raw_unit]

theorem char_text_cases (c : Char) :
    (c = '\\' ∧ char_text c = ['\\', '\\']) ∨ (c = '\n' ∧ char_text c = ['\\', 'n']) ∨
      (c = '\r' ∧ char_text c = ['\\', 'r']) ∨ (c = '\t' ∧ char_text c = ['\\', 't']) ∨
      (c.val.toNat < 0x80 ∧ char_text c = '\\' :: 'x' :: hex_padded 2 c.val.toNat) ∨
      (c ≠ '\\' ∧ 0x20 ≤ c.val ∧ c.val ≠ 0x7F ∧ char_text c = [c]) := by
  unfold char_text push_text_char
  split_ifs with h1 h2 h3 h4 h5
  · exact .inl ⟨h1, rfl⟩
  · exact .inr (.inl ⟨h2, rfl⟩)
  · exact .inr (.inr (.inl ⟨h3, rfl⟩))
  · exact .inr (.inr (.inr (.inl ⟨h4, rfl⟩)))
  · refine .inr (.inr (.inr (.inr (.inl ⟨?_, by simp⟩))))
    rw [UInt32.lt_iff_toNat_lt, ← UInt32.toNat_inj] at h5
    simp only [UInt32.reduceToNat] at h5
    omega
  · rw [not_or, UInt32.not_lt] at h5
    exact .inr (.inr (.inr (.inr (.inr ⟨h1, h5.1, h5.2, by simp⟩))))

theorem read_back_char (c : Char) (rest : List Char) :
    read_back unit (char_text c ++ rest) = .inl c :: read_back unit rest := by
  rcases char_text_cases c with h | h | h | h | h | h
  · rw [h.2, h.1]
    rfl
  · rw [h.2, h.1]
    rfl
  · rw [h.2, h.1]
    rfl
  · rw [h.2, h.1]
    rfl
  · obtain ⟨hlt, htext⟩ := h
    obtain ⟨x, y, hdigits, hval⟩ := number_of_two c.val.toNat (by omega)
    rw [htext, hdigits]
    show (if number_of [x, y] < 0x80 then .inl (Char.ofNat (number_of [x, y]))
      else .inr (unit (number_of [x, y]))) :: read_back unit rest = _
    rw [hval, if_pos hlt, show c.val.toNat = c.toNat from rfl, Char.ofNat_toNat]
  · rw [h.2.2.2, List.singleton_append, read_back_plain unit c rest h.1]

theorem read_back_byte (b : UInt8) (hb : 0x80 ≤ b.toNat) (rest : List Char) :
    read_back UInt8.ofNat (byte_text b ++ rest) = .inr b :: read_back UInt8.ofNat rest := by
  obtain ⟨x, y, hdigits, hval⟩ := number_of_two b.toNat b.toNat_lt
  rw [byte_text_eq, hdigits]
  show (if number_of [x, y] < 0x80 then .inl (Char.ofNat (number_of [x, y]))
    else .inr (UInt8.ofNat (number_of [x, y]))) :: read_back UInt8.ofNat rest = _
  rw [hval, if_neg (by omega), UInt8.ofNat_toNat]

theorem read_back_unit (u : UInt16) (rest : List Char) :
    read_back UInt16.ofNat (unit_text u ++ rest) = .inr u :: read_back UInt16.ofNat rest := by
  obtain ⟨x, y, z, w, hdigits, hval⟩ := number_of_four u.toNat u.toNat_lt
  rw [unit_text_eq, hdigits]
  show .inr (UInt16.ofNat (number_of [x, y, z, w])) :: read_back UInt16.ofNat rest = _
  rw [hval, UInt16.ofNat_toNat]

/-- Pieces whose texts are each read back are read back from their texts in a row. -/
theorem read_back_flatMap (stray_text : β → List Char) (pieces : List (Char ⊕ β))
    (h : ∀ u, .inr u ∈ pieces → ∀ rest, read_back unit (stray_text u ++ rest) =
      .inr u :: read_back unit rest) :
    read_back unit (pieces.flatMap (shown stray_text)) = pieces := by
  induction pieces with
  | nil => rfl
  | cons piece pieces ih =>
    have htail := ih fun u hu => h u (List.mem_cons_of_mem _ hu)
    rw [List.flatMap_cons]
    rcases piece with c | u
    · rw [shown, read_back_char, htail]
    · rw [shown, h u (by simp), htail]

end Reading

section Printing

/-- Neither a C0 control character nor DEL. -/
def Printable (c : Char) : Prop := 0x20 ≤ c.val ∧ c.val ≠ 0x7F

instance : DecidablePred Printable := fun _ => inferInstanceAs (Decidable (_ ∧ _))

/-- A printable character that is not the replacement character. -/
def Ordinary (c : Char) : Prop := Printable c ∧ c ≠ '\uFFFD'

instance : DecidablePred Ordinary := fun _ => inferInstanceAs (Decidable (_ ∧ _))

theorem ordinary_hex_padded (k n : ℕ) : ∀ c ∈ hex_padded k n, Ordinary c ∧ Ordinary c.toUpper := by
  have hdigit : ∀ d : Fin 16, Ordinary (Nat.digitChar d) ∧ Ordinary (Nat.digitChar d).toUpper := by
    decide
  induction k generalizing n with
  | zero => simp [hex_padded]
  | succ k ih =>
    intro c hc
    rcases List.mem_append.mp hc with hmem | hmem
    · exact ih (n / 16) c hmem
    · obtain rfl := List.mem_singleton.mp hmem
      exact hdigit ⟨n % 16, Nat.mod_lt n (by omega)⟩

theorem ordinary_byte_text (b : UInt8) : ∀ c ∈ byte_text b, Ordinary c := by
  intro c hc
  rw [byte_text_eq, List.mem_cons, List.mem_cons] at hc
  rcases hc with rfl | rfl | hmem
  · decide
  · decide
  · exact (ordinary_hex_padded _ _ c hmem).1

theorem ordinary_unit_text (u : UInt16) : ∀ c ∈ unit_text u, Ordinary c := by
  intro c hc
  rw [unit_text_eq, List.mem_cons, List.mem_cons] at hc
  rcases hc with rfl | rfl | hmem
  · decide
  · decide
  · obtain ⟨d, hd, rfl⟩ := List.mem_map.mp hmem
    exact (ordinary_hex_padded _ _ d hd).2

theorem ordinary_pair (a b : Char) (ha : Ordinary a) (hb : Ordinary b) :
    ∀ d ∈ [a, b], Ordinary d := by
  intro d hd
  rcases List.mem_pair.mp hd with rfl | rfl
  · exact ha
  · exact hb

/-- A character is shown as itself or by ordinary characters. -/
theorem char_text_ordinary (c : Char) :
    (Printable c ∧ char_text c = [c]) ∨
      ((∀ d ∈ char_text c, Ordinary d) ∧ c ≠ '\uFFFD') := by
  rcases char_text_cases c with h | h | h | h | h | h
  · rw [h.2, h.1]
    exact .inr ⟨ordinary_pair _ _ (by decide) (by decide), by decide⟩
  · rw [h.2, h.1]
    exact .inr ⟨ordinary_pair _ _ (by decide) (by decide), by decide⟩
  · rw [h.2, h.1]
    exact .inr ⟨ordinary_pair _ _ (by decide) (by decide), by decide⟩
  · rw [h.2, h.1]
    exact .inr ⟨ordinary_pair _ _ (by decide) (by decide), by decide⟩
  · refine .inr ⟨?_, ?_⟩
    · intro d hd
      rw [h.2, List.mem_cons, List.mem_cons] at hd
      rcases hd with rfl | rfl | hmem
      · decide
      · decide
      · exact (ordinary_hex_padded _ _ d hmem).1
    · rintro rfl
      exact absurd h.1 (by decide)
  · exact .inl ⟨⟨h.2.1, h.2.2.1⟩, h.2.2.2⟩

variable {β : Type}

theorem printable_flatMap (stray_text : β → List Char) (pieces : List (Char ⊕ β))
    (h : ∀ u, ∀ c ∈ stray_text u, Ordinary c) :
    ∀ c ∈ pieces.flatMap (shown stray_text), Printable c := by
  intro c hc
  obtain ⟨piece, -, hmem⟩ := List.mem_flatMap.mp hc
  rcases piece with d | u
  · rcases char_text_ordinary d with ⟨hprint, htext⟩ | ⟨hord, -⟩
    · rw [shown, htext, List.mem_singleton] at hmem
      rwa [hmem]
    · exact (hord c hmem).1
  · exact (h u c hmem).1

theorem count_replacement [DecidableEq β] (stray_text : β → List Char) (pieces : List (Char ⊕ β))
    (h : ∀ u, ∀ c ∈ stray_text u, Ordinary c) :
    (pieces.flatMap (shown stray_text)).count '\uFFFD' =
      pieces.countP fun piece => piece = .inl '\uFFFD' := by
  induction pieces with
  | nil => rfl
  | cons piece pieces ih =>
    rw [List.flatMap_cons, List.count_append, ih, List.countP_cons, Nat.add_comm]
    congr 1
    rcases piece with d | u
    · rcases char_text_ordinary d with ⟨-, htext⟩ | ⟨hord, hne⟩
      · rw [shown, htext, List.count_singleton]
        by_cases hd : d = '\uFFFD' <;> simp [hd]
      · rw [shown, List.count_eq_zero.mpr fun hmem => (hord _ hmem).2 rfl]
        simp [hne]
    · rw [shown, List.count_eq_zero.mpr fun hmem => (h u _ hmem).2 rfl]
      simp

end Printing

section Decoding

/-- The code of a character, where the charset has one. -/
def Charset.code : Charset → Char → Option Bytes
  | .utf8, c => TextDecoders.utf8 c
  | .latin1, c => if c.val.toNat < 0x100 then some [UInt8.ofNat c.val.toNat] else none
  | .ascii, c => if c.val.toNat < 0x80 then some [UInt8.ofNat c.val.toNat] else none

private theorem val_of_byte (b : UInt8) : (Char.ofNat b.toNat).val.toNat = b.toNat := by
  have hlt := b.toNat_lt
  rw [Char.ofNat, dif_pos (by unfold Nat.isValidChar; omega)]
  rfl

theorem segmented_latin1 (raw : Bytes) :
    Segmented (Charset.code .latin1) raw (raw.map fun b => .inl (Char.ofNat b.toNat)) := by
  induction raw with
  | nil => exact .nil
  | cons b raw ih =>
    have hcode : Charset.code .latin1 (Char.ofNat b.toNat) = some [b] := by
      rw [Charset.code, val_of_byte, if_pos b.toNat_lt, UInt8.ofNat_toNat]
    exact .char _ [b] raw _ hcode ih

def ascii_piece (b : UInt8) : Char ⊕ UInt8 :=
  if b < 0x80 then .inl (Char.ofNat b.toNat) else .inr b

theorem segmented_ascii (raw : Bytes) :
    Segmented (Charset.code .ascii) raw (raw.map ascii_piece) := by
  induction raw with
  | nil => exact .nil
  | cons b raw ih =>
    rw [List.map_cons, ascii_piece]
    by_cases hb : b < 0x80
    · have hlt : b.toNat < 0x80 := UInt8.lt_iff_toNat_lt.mp hb
      have hcode : Charset.code .ascii (Char.ofNat b.toNat) = some [b] := by
        rw [Charset.code, val_of_byte, if_pos hlt, UInt8.ofNat_toNat]
      rw [if_pos hb]
      exact .char _ [b] raw _ hcode ih
    · rw [if_neg hb]
      refine .stray b raw _ ?_ ih
      intro c front hcode hpre
      rw [Charset.code] at hcode
      split_ifs at hcode with hc
      obtain rfl := Option.some.inj hcode
      obtain ⟨rfl, -⟩ := List.cons_prefix_cons.mp hpre
      apply hb
      rw [UInt8.lt_iff_toNat_lt, UInt8.toNat_ofNat', Nat.mod_eq_of_lt (by omega)]
      exact hc

/-- What one turn of the decoder pushes: a text, a run of strays, and what is after them. -/
theorem decode_utf8_marked_error (rest : Bytes) (out : String) (e : Utf8Error) (s : List Char)
    (h : from_utf8 rest = .error e) (hs : from_utf8 (rest.take e.valid_up_to) = .ok s)
    (hpos : 0 < e.bad rest.length) (hle : e.valid_up_to + e.bad rest.length ≤ rest.length) :
    decode_utf8_marked rest out =
      decode_utf8_marked ((rest.drop e.valid_up_to).drop (e.bad rest.length))
        (((rest.drop e.valid_up_to).take (e.bad rest.length)).foldl push_raw_byte
          (push_text out s)) := by
  have hbad : max (e.error_len.getD (rest.length - e.valid_up_to)) 1 = e.bad rest.length :=
    max_eq_left hpos
  have hstop : min (e.valid_up_to + e.bad rest.length) rest.length =
      e.valid_up_to + e.bad rest.length := min_eq_left hle
  have htake : (rest.take (e.valid_up_to + e.bad rest.length)).drop e.valid_up_to =
      (rest.drop e.valid_up_to).take (e.bad rest.length) := by
    rw [List.drop_take, Nat.add_sub_cancel_left]
  rw [decode_utf8_marked, h]
  simp only [hs, hbad, hstop, htake, List.drop_drop]
  by_cases hend : rest.drop (e.valid_up_to + e.bad rest.length) = []
  · rw [if_neg (by simpa using hend), hend, decode_utf8_marked, from_utf8]
    rfl
  · rw [if_pos hend]

theorem decode_utf8_marked_pieces (rest : Bytes) (out : String) :
    ∃ pieces, Segmented (Charset.code .utf8) rest pieces ∧
      (decode_utf8_marked rest out).toList = out.toList ++ pieces.flatMap (shown byte_text) := by
  induction hn : rest.length using Nat.strong_induction_on generalizing rest out with
  | h n ih =>
    rcases h : from_utf8 rest with e | s
    · obtain ⟨⟨s, hs⟩, hpos, hstrays⟩ := from_utf8_error rest e h
      have hle := hstrays.1
      rw [List.length_drop] at hle
      obtain ⟨pieces, hpieces, htext⟩ := ih _ (by simp only [← hn, List.length_drop]; omega)
        ((rest.drop e.valid_up_to).drop (e.bad rest.length))
        (((rest.drop e.valid_up_to).take (e.bad rest.length)).foldl push_raw_byte
          (push_text out s)) rfl
      have hrun := Strays.segmented _ _ pieces hstrays hpieces
      have hall := from_utf8_ok _ s hs _ _ hrun
      rw [List.take_append_drop] at hall
      refine ⟨_, hall, ?_⟩
      rw [decode_utf8_marked_error rest out e s h hs hpos (by omega), htext,
        toList_push_raw_bytes, toList_push_text byte_text, List.flatMap_append,
        List.flatMap_append]
      simp only [List.append_assoc]
    · have hall := from_utf8_ok rest s h [] [] .nil
      rw [List.append_nil, List.append_nil] at hall
      refine ⟨_, hall, ?_⟩
      rw [decode_utf8_marked, h]
      exact toList_push_text byte_text out s

variable {β : Type}

/-- What a text keeps of the units it was decoded from. -/
structure Kept [DecidableEq β] (code : Char → Option (List β)) (stray_text : β → List Char)
    (unit : ℕ → β)
    (units : List β) (text : String) (pieces : List (Char ⊕ β)) : Prop where
  segmented : Segmented code units pieces
  text_of : text.toList = pieces.flatMap (shown stray_text)
  read_back : read_back unit text.toList = pieces
  printable : ∀ c ∈ text.toList, Printable c
  replacements : text.toList.count '\uFFFD' =
    pieces.countP fun piece => piece = .inl '\uFFFD'

/-- Where strays are read back and their texts ordinary, everything is kept. -/
theorem kept_of_pieces [DecidableEq β] (code : Char → Option (List β)) (stray_text : β → List Char)
    (unit : ℕ → β) (units : List β) (text : String) (pieces : List (Char ⊕ β))
    (hord : ∀ u, ∀ c ∈ stray_text u, Ordinary c) (hpieces : Segmented code units pieces)
    (htext : text.toList = pieces.flatMap (shown stray_text))
    (hread : ∀ u, .inr u ∈ pieces → ∀ rest,
      read_back unit (stray_text u ++ rest) = .inr u :: read_back unit rest) :
    Kept code stray_text unit units text pieces where
  segmented := hpieces
  text_of := htext
  read_back := by rw [htext, read_back_flatMap unit stray_text pieces hread]
  printable := by
    rw [htext]
    exact printable_flatMap stray_text pieces hord
  replacements := by rw [htext, count_replacement stray_text pieces hord]

theorem Kept.units_eq [DecidableEq β] {code : Char → Option (List β)} {stray_text : β → List Char}
    {unit : ℕ → β} {units : List β} {text : String} {pieces : List (Char ⊕ β)}
    (h : Kept code stray_text unit units text pieces) :
    units = (JavaDebug.DecodedTexts.read_back unit text.toList).flatMap (units_of code) := by
  rw [h.read_back, h.segmented.flatMap_units]

variable (charset : Charset)

theorem code_of_ascii (b : UInt8) (hb : b.toNat < 0x80) :
    charset.code (Char.ofNat b.toNat) = some [b] := by
  rcases charset
  · rw [Charset.code, TextDecoders.utf8, String.utf8EncodeChar, val_of_byte, if_pos (by omega),
      UInt8.ofNat_toNat]
  · rw [Charset.code, val_of_byte, if_pos (by omega), UInt8.ofNat_toNat]
  · rw [Charset.code, val_of_byte, if_pos hb, UInt8.ofNat_toNat]

theorem decode_bytes_pieces (raw : Bytes) :
    ∃ pieces, Segmented charset.code raw pieces ∧
      (decode_bytes raw charset).toList = pieces.flatMap (shown byte_text) := by
  rcases charset
  · exact decode_utf8_marked_pieces raw ""
  · refine ⟨_, segmented_latin1 raw, ?_⟩
    rw [decode_bytes, toList_foldl_push _ (fun b : UInt8 => char_text (Char.ofNat b.toNat)),
      List.flatMap_map]
    · rfl
    · intro out b
      exact toList_push_text_char out _
  · refine ⟨_, segmented_ascii raw, ?_⟩
    rw [decode_bytes, toList_foldl_push _ (fun b => shown byte_text (ascii_piece b)),
      List.flatMap_map]
    · rfl
    · intro out b
      rw [ascii_piece]
      by_cases hb : b < 0x80
      · rw [if_pos hb, if_pos hb]
        exact toList_push_text_char out _
      · rw [if_neg hb, if_neg hb]
        exact toList_push_raw_byte out b

theorem decode_bytes_kept (raw : Bytes) :
    ∃ pieces, Kept charset.code byte_text UInt8.ofNat raw (decode_bytes raw charset) pieces := by
  obtain ⟨pieces, hpieces, htext⟩ := decode_bytes_pieces charset raw
  refine ⟨pieces, kept_of_pieces _ _ _ _ _ _ ordinary_byte_text hpieces htext ?_⟩
  intro b hmem
  apply read_back_byte b
  by_contra hlow
  exact hpieces.code_ne_stray b hmem _ (code_of_ascii charset b (by omega))

theorem decode_chars_kept (units : List UInt16) :
    Kept utf16 unit_text UInt16.ofNat units (decode_chars units) (decode_utf16 units) := by
  refine kept_of_pieces _ _ _ _ _ _ ordinary_unit_text (segmented_utf16 units) ?_
    fun u _ => read_back_unit u
  rw [decode_chars, toList_foldl_push _ (shown unit_text)]
  · rfl
  · rintro out (c | u)
    · exact toList_push_text_char out c
    · exact toList_push_raw_unit out u

/-- Under each charset, and for UTF-16 units, the text shows a character wherever one stands and
marks everything else, and no two inputs have one text. -/
theorem decoded_text_loses_nothing :
    (∀ (charset : Charset) (raw : Bytes), ∃ pieces,
      Kept charset.code byte_text UInt8.ofNat raw (decode_bytes raw charset) pieces) ∧
    (∀ units : List UInt16, ∃ pieces,
      Kept utf16 unit_text UInt16.ofNat units (decode_chars units) pieces) ∧
    (∀ charset : Charset, Function.Injective fun raw => decode_bytes raw charset) ∧
    Function.Injective decode_chars := by
  refine ⟨decode_bytes_kept, fun units => ⟨_, decode_chars_kept units⟩, ?_, ?_⟩
  · intro charset raw raw' heq
    obtain ⟨pieces, hkept⟩ := decode_bytes_kept charset raw
    obtain ⟨pieces', hkept'⟩ := decode_bytes_kept charset raw'
    rw [hkept.units_eq, hkept'.units_eq]
    exact congrArg _ (congrArg _ (congrArg _ heq))
  · intro units units' heq
    rw [(decode_chars_kept units).units_eq, (decode_chars_kept units').units_eq, heq]

end Decoding

end JavaDebug.DecodedTexts
