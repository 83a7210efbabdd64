import JavaDebug.DecodedTexts
import JavaDebug.ParsedExpressions

/-!
Render selectors. What follows the last `#` of an expression outside its strings
says how to render the value. The scan for it follows double-quoted strings and
their escapes but takes no notice of char literals, so an expression keeps its
text and its selector exactly when that scan finds no `#` in it and ends outside
a string.
-/
namespace JavaDebug.Selectors

open Addressing JavaValues Expressions
open DecodedTexts (Charset)

section Code

/-- A scan that knows double-quoted strings and their escapes only. -/
structure InString where
  in_str : Bool
  escaped : Bool
  deriving DecidableEq

def InString.outside : InString := ⟨false, false⟩

def InString.step (s : InString) (c : Char) : InString :=
  if s.in_str then
    if s.escaped then ⟨true, false⟩
    else if c = '\\' then ⟨true, true⟩
    else if c = '"' then ⟨false, false⟩
    else s
  else if c = '"' then ⟨true, s.escaped⟩
  else s

def InString.run (s : InString) (t : List Char) : InString := t.foldl InString.step s

def last_hash_loop (s : InString) (i : ℕ) (found : Option ℕ) : List Char → Option ℕ
  | [] => found
  | c :: rest =>
    last_hash_loop (s.step c) (i + 1) (if !s.in_str ∧ c = '#' then some i else found) rest

/-- The place of the last `#` outside a string literal. -/
def last_selector_hash (expr : List Char) : Option ℕ := last_hash_loop .outside 0 none expr

inductive ByteRender
  | text (charset : Charset)
  | raw
  deriving DecidableEq

def ByteRender.default : ByteRender := .text .utf8

/-- Punctuation and case are ignored. -/
def parse_byte_render (name : List Char) : Option ByteRender :=
  let key := String.ofList ((name.filter Char.isAlphanum).map Char.toLower)
  if key = "utf8" then some (.text .utf8)
  else if key ∈ ["iso88591", "latin1", "l1"] then some (.text .latin1)
  else if key ∈ ["usascii", "ascii"] then some (.text .ascii)
  else if key ∈ ["raw", "bytes"] then some .raw
  else none

def trim_end (s : List Char) : List Char := (s.reverse.dropWhile is_whitespace).reverse

def split_charset (expr : List Char) : Except String (List Char × ByteRender) :=
  match last_selector_hash expr with
  | none => .ok (expr, .default)
  | some at_ =>
    let name := trim (expr.drop at_).tail
    match parse_byte_render name with
    | some how => .ok (trim_end (expr.take at_), how)
    | none => .error ("'#" ++ String.ofList name ++ "' is not a render selector. A trailing " ++
        "`#…` on an expression says how to render a byte[]/char[]: UTF-8 (the default), " ++
        "ISO-8859-1 (aliases: latin1), US-ASCII (ascii), or `raw` for the element list. A '#' " ++
        "inside a string literal is left alone.")

end Code

section Scanning

variable (s : InString)

/-- The scan meets no `#` outside a string. -/
def Unmarked (t : List Char) : Prop :=
  ∀ before after, t = before ++ '#' :: after → (s.run before).in_str = true

theorem unmarked_cons (c : Char) (t : List Char) :
    Unmarked s (c :: t) ↔ ((!s.in_str) = true → c ≠ '#') ∧ Unmarked (s.step c) t := by
  constructor
  · intro h
    refine ⟨?_, fun before after hsplit => h (c :: before) after (by rw [hsplit]; rfl)⟩
    rintro hout rfl
    have hin : s.in_str = true := h [] t rfl
    simp [hin] at hout
  · rintro ⟨hhere, hrest⟩ before after hsplit
    rcases List.cons_eq_append_iff.mp hsplit with ⟨rfl, heq⟩ | ⟨before', rfl, heq⟩
    · obtain ⟨rfl, -⟩ := List.cons.inj heq
      by_contra hout
      exact hhere (by simpa [InString.run] using hout) rfl
    · exact hrest before' after heq

instance Unmarked.decidable (s : InString) : (t : List Char) → Decidable (Unmarked s t)
  | [] => isTrue fun before after hsplit => by simp at hsplit
  | c :: t =>
    have := Unmarked.decidable (s.step c) t
    decidable_of_iff _ (unmarked_cons s c t).symm

theorem last_hash_cases (i : ℕ) (found : Option ℕ) (t : List Char) :
    Unmarked s t ∧ last_hash_loop s i found t = found ∨
      ¬ Unmarked s t ∧ ∃ j, i ≤ j ∧ j < i + t.length ∧ last_hash_loop s i found t = some j := by
  induction t generalizing s i found with
  | nil =>
    refine .inl ⟨?_, rfl⟩
    intro before after hsplit
    simp at hsplit
  | cons c t ih =>
    rw [unmarked_cons, last_hash_loop]
    by_cases hat : (!s.in_str) = true ∧ c = '#'
    · rw [if_pos hat]
      refine .inr ⟨fun h => h.1 hat.1 hat.2, ?_⟩
      rcases ih (s.step c) (i + 1) (some i) with ⟨-, hloop⟩ | ⟨-, j, hij, hj, hloop⟩
      · exact ⟨i, le_rfl, by simp, hloop⟩
      · exact ⟨j, by omega, by rw [List.length_cons]; omega, hloop⟩
    · rw [if_neg hat]
      have hhere : (!s.in_str) = true → c ≠ '#' := fun hout heq => hat ⟨hout, heq⟩
      rcases ih (s.step c) (i + 1) found with ⟨hrest, hloop⟩ | ⟨hrest, j, hij, hj, hloop⟩
      · exact .inl ⟨⟨hhere, hrest⟩, hloop⟩
      · refine .inr ⟨fun h => hrest h.2, j, by omega, ?_, hloop⟩
        rw [List.length_cons]
        omega

theorem last_hash_append (i : ℕ) (found : Option ℕ) (t u : List Char) :
    last_hash_loop s i found (t ++ u) =
      last_hash_loop (s.run t) (i + t.length) (last_hash_loop s i found t) u := by
  induction t generalizing s i found with
  | nil => rfl
  | cons c t ih =>
    rw [List.cons_append, last_hash_loop, ih, last_hash_loop, List.length_cons,
      Nat.add_right_comm, Nat.add_assoc i]
    rfl

theorem trim_end_keep (s t : List Char) (c : Char) (hc : is_whitespace c = false) :
    trim_end (s ++ c :: t) = s ++ c :: trim_end t := by
  rw [trim_end, trim_end, List.reverse_append, List.reverse_cons, List.append_assoc,
    List.dropWhile_append]
  by_cases hall : (t.reverse.dropWhile is_whitespace).isEmpty = true
  · rw [if_pos hall, List.isEmpty_iff.mp hall]
    simp [hc]
  · rw [if_neg hall]
    simp

theorem trim_end_length (s : List Char) : (trim_end s).length ≤ s.length := by
  rw [trim_end, List.length_reverse, ← @List.length_reverse _ s]
  exact (List.dropWhile_suffix is_whitespace).length_le

end Scanning

section Splitting

/-- Alone the expression keeps its text and the default rendering; with a selector it keeps its text
and is rendered as the selector names. -/
def SplitsOff (e name : List Char) (how : ByteRender) : Prop :=
  split_charset e = .ok (e, .default) ∧
    split_charset (e ++ '#' :: name) = .ok (trim_end e, how)

theorem split_unmarked (e : List Char) (h : last_selector_hash e = none) :
    split_charset e = .ok (e, .default) := by
  rw [split_charset, h]

theorem split_kept (e : List Char) (how : ByteRender) (h : split_charset e = .ok (e, how)) :
    last_selector_hash e = none := by
  rcases hhash : last_selector_hash e with _ | j
  · rfl
  · have hj : j < e.length := by
      rcases last_hash_cases .outside 0 none e with ⟨-, hloop⟩ | ⟨-, i, -, hi, hloop⟩
      · rw [last_selector_hash, hloop] at hhash
        simp at hhash
      · rw [last_selector_hash, hloop] at hhash
        have := Option.some.inj hhash
        omega
    rw [split_charset, hhash] at h
    dsimp only at h
    rcases hname : parse_byte_render (trim (e.drop j).tail) with _ | how'
    · rw [hname] at h
      simp at h
    · rw [hname] at h
      have heq := (Prod.mk.inj (Except.ok.inj h)).1
      have hlen := trim_end_length (e.take j)
      rw [heq, List.length_take] at hlen
      omega

theorem split_at_mark (e name : List Char)
    (h : last_selector_hash (e ++ '#' :: name) = some e.length) :
    split_charset (e ++ '#' :: name) =
      match parse_byte_render (trim name) with
      | some how => .ok (trim_end e, how)
      | none => split_charset (e ++ '#' :: name) := by
  rcases hname : parse_byte_render (trim name) with _ | how
  · rfl
  · rw [split_charset, h]
    dsimp only
    rw [List.drop_left, List.take_left, List.tail_cons, hname]

/-- A place after the mark leaves the mark in the text. -/
theorem split_past_mark (e name : List Char) (how : ByteRender) (j : ℕ) (hj : e.length + 1 ≤ j)
    (h : last_selector_hash (e ++ '#' :: name) = some j) :
    split_charset (e ++ '#' :: name) ≠ .ok (trim_end e, how) := by
  intro hsplit
  rw [split_charset, h] at hsplit
  dsimp only at hsplit
  rcases hname : parse_byte_render (trim ((e ++ '#' :: name).drop j).tail) with _ | how'
  · rw [hname] at hsplit
    simp at hsplit
  · rw [hname] at hsplit
    have heq := (Prod.mk.inj (Except.ok.inj hsplit)).1
    have htake : (e ++ '#' :: name).take j = e ++ '#' :: name.take (j - e.length - 1) := by
      rw [List.take_append, List.take_of_length_le (by omega),
        show j - e.length = (j - e.length - 1) + 1 by omega, List.take_succ_cons]
      rfl
    have hlen := congrArg List.length heq
    rw [htake, trim_end_keep _ _ '#' (by decide), List.length_append, List.length_cons] at hlen
    have := trim_end_length e
    omega

/-- A selector is split off, and nothing else is, exactly where the scan meets no `#` in the
expression, ends it outside a string, and meets none in the selector. -/
theorem selector_split_iff (e name : List Char) (how : ByteRender)
    (hname : parse_byte_render (trim name) = some how) :
    SplitsOff e name how ↔ Unmarked .outside e ∧ (InString.outside.run e).in_str = false ∧
      Unmarked (InString.outside.run e) name := by
  have hmark : last_selector_hash (e ++ '#' :: name) =
      last_hash_loop ((InString.outside.run e).step '#') (e.length + 1)
         (if !(InString.outside.run e).in_str then some e.length else last_selector_hash e)
          name := by
    rw [last_selector_hash, last_hash_append, last_hash_loop, Nat.zero_add]
    simp only [and_true]
    rfl
  have hstep : ∀ s : InString, s.in_str = false → s.step '#' = s := by
    intro s hs
    rw [InString.step, hs, if_neg (by simp), if_neg (by decide)]
  constructor
  · rintro ⟨halone, hsplit⟩
    have hnone := split_kept e .default halone
    have hunmarked : Unmarked .outside e := by
      rcases last_hash_cases .outside 0 none e with ⟨h, -⟩ | ⟨-, j, -, -, hloop⟩
      · exact h
      · rw [last_selector_hash, hloop] at hnone
        simp at hnone
    rcases hin : (InString.outside.run e).in_str with _ | _
    · rw [hin, if_pos (by simp)] at hmark
      rw [hstep _ hin] at hmark
      rcases last_hash_cases (InString.outside.run e) (e.length + 1) (some e.length) name with
        ⟨hclean, -⟩ | ⟨-, j, hj, -, hloop⟩
      · exact ⟨hunmarked, rfl, hclean⟩
      · rw [hloop] at hmark
        exact absurd hsplit (split_past_mark e name how j hj hmark)
    · rw [hin, if_neg (by simp), hnone] at hmark
      rcases last_hash_cases ((InString.outside.run e).step '#') (e.length + 1) none name with
        ⟨-, hloop⟩ | ⟨-, j, hj, -, hloop⟩
      · rw [hloop] at hmark
        rw [split_unmarked _ hmark] at hsplit
        have hlen := congrArg List.length (Prod.mk.inj (Except.ok.inj hsplit)).1
        rw [List.length_append, List.length_cons] at hlen
        have := trim_end_length e
        omega
      · rw [hloop] at hmark
        exact absurd hsplit (split_past_mark e name how j hj hmark)
  · rintro ⟨hunmarked, hout, hclean⟩
    have hnone : last_selector_hash e = none := by
      rcases last_hash_cases .outside 0 none e with ⟨-, hloop⟩ | ⟨h, -⟩
      · exact hloop
      · exact absurd hunmarked h
    refine ⟨split_unmarked e hnone, ?_⟩
    rw [hout, hstep _ hout] at hmark
    rw [if_pos (by simp)] at hmark
    have hlast : last_selector_hash (e ++ '#' :: name) = some e.length := by
      rw [hmark]
      rcases last_hash_cases (InString.outside.run e) (e.length + 1) (some e.length) name with
        ⟨-, hloop⟩ | ⟨h, -⟩
      · exact hloop
      · exact absurd hclean h
    rw [split_at_mark e name hlast, hname]

theorem quoted_mark_split : SplitsOff "counts[\"a#b\"]".toList "Latin-1".toList (.text .latin1) :=
  (selector_split_iff _ _ _ (by decide +kernel)).mpr
    ⟨by decide +kernel, by decide +kernel, by decide +kernel⟩

/-- The expression `m['#']`. -/
def char_mark : List Char := ['m', '[', '\'', '#', '\'', ']']

theorem char_mark_parses : parse_expr char_mark =
    .ok [⟨"m", none, [.index (.char 35)]⟩] := by
  rfl

/-- A char literal that is the mark is taken for a selector. -/
theorem char_mark_not_kept :
    ¬ ∀ (e name : List Char) (how : ByteRender) (segs : List Seg), parse_expr e = .ok segs →
      parse_byte_render (trim name) = some how → SplitsOff e name how := by
  intro hall
  have h := hall char_mark "raw".toList .raw _ char_mark_parses (by decide +kernel)
  have hnone := split_kept char_mark .default h.1
  exact absurd hnone (by decide)

end Splitting

end JavaDebug.Selectors
