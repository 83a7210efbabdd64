import JavaDebug.FloatCasts
import JavaDebug.JavaValues
import JavaDebug.KeyHashes
import JavaDebug.Levels

/-!
The expression parser. An expression is cut at its dots, a segment into its head
and its subscripts, the head of a call into its arguments; an argument that is no
literal is an expression again and is kept as text. Every scanner skips literals,
and each counts brackets of its own.
-/
namespace JavaDebug.Expressions

open Addressing JavaValues Levels
open FloatCasts (nearest_bits f32_of_f64)
open KeyHashes (utf16_units)
open BooleanTrees (inner_text split_comparison)

section Numbers

variable (s : List Char)

/-- Digits after at most one sign. -/
def parse_signed : Option ℤ :=
  let digits := if s.head? = some '+' ∨ s.head? = some '-' then s.tail else s
  if digits = [] ∨ !digits.all Char.isDigit then none
  else
    let size : ℤ := digits.foldl (fun n c => n * 10 + (c.toNat - 48 : ℤ)) 0
    some (if s.head? = some '-' then -size else size)

/-- The signed integers that `parse` takes: those in range. -/
def parse_int (least most : ℤ) (s : List Char) : Option ℤ :=
  (parse_signed s).filter fun n => least ≤ n ∧ n ≤ most

def parse_i32 : Option Int32 :=
  (parse_int (-2147483648) 2147483647 s).map Int32.ofInt

def parse_i64 : Option Int64 :=
  (parse_int (-9223372036854775808) 9223372036854775807 s).map Int64.ofInt

def is_exponent (c : Char) : Bool := c = 'e' || c = 'E'

def number_of (digits : List Char) : ℕ :=
  digits.foldl (fun n c => n * 10 + (c.toNat - 48)) 0

/-- `body.parse::<f64>()` on a text of digits, dots, exponents and signs. -/
def parse_f64 : Option UInt64 :=
  let sign := if s.head? = some '-' then 2 ^ 63 else 0
  let s := if s.head? = some '+' ∨ s.head? = some '-' then s.tail else s
  let mantissa := s.takeWhile fun c => !is_exponent c
  let exponent := s.dropWhile fun c => !is_exponent c
  let whole := mantissa.takeWhile (· ≠ '.')
  let part := (mantissa.dropWhile (· ≠ '.')).tail
  if !(whole ++ part).all Char.isDigit ∨ whole ++ part = [] then none
  else
    let scale := if exponent = [] then some 0 else parse_signed exponent.tail
    scale.map fun (n : ℤ) =>
      let n := n - part.length
      let digits := number_of (whole ++ part)
      UInt64.ofNat (sign + nearest_bits 11 52 (digits * 10 ^ n.toNat) (10 ^ (-n).toNat))

/-- The text without a last character of these two. -/
def strip_suffix (lower upper : Char) (t : List Char) : Option (List Char) :=
  if t.getLast? = some lower ∨ t.getLast? = some upper then some t.dropLast else none

def parse_float_lit (t : List Char) : Option (UInt64 × Bool) :=
  let (body, is_float) :=
    match strip_suffix 'f' 'F' t with
    | some b => (b, true)
    | none => ((strip_suffix 'd' 'D' t).getD t, false)
  let suffixed := body.length ≠ t.length
  if !suffixed ∧ '.' ∉ body ∧ !body.any is_exponent then none
  else if !body.all fun c => c.isDigit || c = '.' || is_exponent c || c = '+' || c = '-' then none
  else if !body.any Char.isDigit then none
  else (parse_f64 body).map fun v => (v, is_float)

def parse_number_lit (t : List Char) : Option ArgLit :=
  match (strip_suffix 'L' 'l' t).bind parse_i64 with
  | some n => some (.long n)
  | none =>
    match parse_i32 t with
    | some n => some (.int n)
    | none =>
      match parse_i64 t with
      | some n => some (.long n)
      | none => (parse_float_lit t).map fun (v, is_float) =>
          if is_float then .float (f32_of_f64 v) else .double v

end Numbers

section Literals

def CHAR_ESCAPES : List (Char × UInt16) :=
  [('n', 10), ('t', 9), ('r', 13), ('b', 8), ('f', 12), ('s', 32), ('0', 0), ('\\', 92),
    ('\'', 39), ('"', 34)]

def escape_names : String :=
  ", ".intercalate (CHAR_ESCAPES.map fun e => String.ofList ['\\', e.1]) ++ ", or \\uXXXX"

/-- `u16::from_str_radix(hex, 16)` -/
def parse_u16 (hex : List Char) : Option UInt16 :=
  (from_str_radix_16 hex).bind fun n => if n < 65536 then some (UInt16.ofNat n) else none

def parse_char_inner (inner : List Char) : Except String UInt16 :=
  match inner with
  | '\\' :: 'u' :: hex =>
    match parse_u16 hex with
    | some u => .ok u
    | none => .error ("'\\u" ++ String.ofList hex ++
        "' is not four hex digits — write it as '\\u00e7'")
  | ['\\', c] =>
    match CHAR_ESCAPES.find? (·.1 = c) with
    | some e => .ok e.2
    | none => .error ("'\\" ++ String.ofList [c] ++ "' is not an escape this understands — try " ++
        escape_names)
  | '\\' :: esc =>
    .error ("'\\" ++ String.ofList esc ++ "' is not one escape — write one of " ++ escape_names)
  | inner =>
    match inner.flatMap utf16_units with
    | [u] => .ok u
    | [] => .error "'' is an empty char literal — write a character between the quotes"
    | _ => .error ("'" ++ String.ofList inner ++
        "' is two UTF-16 code units, and a Java char holds one — outside the BMP there is " ++
         "no single-char spelling, so compare the String instead")

/-- A text of at least two characters between two quotes. -/
def between (quote : Char) (t : List Char) : Bool :=
  2 ≤ t.length && t.head? = some quote && t.getLast? = some quote

/-- What is no literal is kept as text where it parses as an expression. -/
def parse_lit (expr : List Char → Except String (List Seg)) (t : List Char) :
    Except String ArgLit :=
  let t := trim t
  if t = "null".toList then .ok .null
  else if t = "true".toList then .ok (.bool true)
  else if t = "false".toList then .ok (.bool false)
  else if between '"' t then .ok (.str (String.ofList (inner_text t)))
  else if between '\'' t then (parse_char_inner (inner_text t)).map .char
  else
    match parse_number_lit t with
    | some n => .ok n
    | none =>
      match expr t with
      | .ok _ => .ok (.expr (String.ofList t))
      | .error _ => .error ("Unsupported argument: '" ++ String.ofList t ++
          "' (a literal — int, long like 123L, double like 1.5, float like 2.0f, char like 'a', " ++
           "true/false, null, \"string\" — or an expression like a local, this.field, or " ++
           "obj.getX())")

end Literals

section Splitters

/-- Calls and subscripts. -/
def groups : Brackets := ⟨['(', '['], [')', ']']⟩

def parens : Brackets := ⟨['('], [')']⟩

def squares : Brackets := ⟨['['], [']']⟩

def split_segments (e : List Char) : Except String (List (List Char)) :=
  let last := Level.start.run groups e
  if last.depth ≠ 0 ∨ last.quoted.inside then
    .error "Unbalanced parentheses, brackets or quotes"
  else
    let parts := (cut groups '.' .start [] e).map trim
    .ok (parts.dropLast ++ parts.getLast?.toList.filter (· ≠ []))

/-- The text up to the bracket that closes the first, and the text after it. -/
def close_group (l : Level) (before : List Char) : List Char → Option (List Char × List Char)
  | [] => none
  | c :: rest =>
    let next := l.step squares c
    if !l.quoted.inside ∧ c = ']' ∧ next.depth = 0 then some (before, rest)
    else close_group next (before ++ [c]) rest

/-- The bodies of the subscripts that a text consists of; every one takes two characters. -/
def split_groups (raw : List Char) : ℕ → List Char → Except String (List (List Char))
  | 0, _ => .ok []
  | fuel + 1, rest =>
    if rest = [] then .ok []
    else if rest.head? ≠ some '[' then
      .error ("Unexpected text after a subscript: '" ++ String.ofList rest ++ "'")
    else
      match close_group .start [] rest with
      | none => .error ("Unclosed '[' in '" ++ String.ofList raw ++ "'")
      | some (group, after) =>
        (split_groups raw fuel (trim after)).map (trim group.tail :: ·)

def split_subscripts (raw : List Char) : Except String (List Char × List (List Char)) :=
  let (head, rest) := span parens '[' .start [] raw
  (split_groups raw (trim rest).length (trim rest)).map fun found => (trim head, found)

end Splitters

section Parser

variable (lit : List Char → Except String ArgLit)

/-- `split_once("..")` -/
def split_range (before : List Char) : List Char → Option (List Char × List Char)
  | '.' :: '.' :: rest => some (before, rest)
  | c :: rest => split_range (before ++ [c]) rest
  | [] => none

def parse_bound (what : String) (t x : List Char) : Except String Int64 :=
  match parse_i64 (trim x) with
  | some n => .ok n
  | none => .error ("Range " ++ what ++ " must be an integer, got '" ++ String.ofList (trim x) ++
      "' in '[" ++ String.ofList t ++ "]'")

def parse_range (t a b : List Char) : Except String Subscript :=
  match parse_bound "start" t a, parse_bound "end" t b with
  | .error e, _ => .error e
  | .ok _, .error e => .error e
  | .ok lo, .ok hi =>
    if hi < lo then .error ("Range '[" ++ String.ofList t ++ "]' ends before it starts")
    else .ok (.range lo hi)

def parse_subscript (inner : List Char) : Except String Subscript :=
  let t := trim inner
  if t = [] then .error "Empty subscript '[]' — use [i], [a..b], or [?predicate]"
  else if t.head? = some '?' then
    if trim t.tail = [] then
      .error "Empty filter '[?]' — give a predicate, e.g. [?status == \"OPEN\"]"
    else .ok (.filter (String.ofList (trim t.tail)))
  else
    match split_range [] t with
    | some (a, b) => parse_range t a b
    | none => (lit t).map .index

def parse_args (inside : List Char) : Except String (List ArgLit) :=
  let s := trim inside
  if s = [] then .ok [] else (cut parens ',' .start [] s).mapM lit

def ident_start (c : Char) : Bool := c.isAlpha || c = '_' || c = '$'

def ident_char (c : Char) : Bool := c.isAlphanum || c = '_' || c = '$'

def is_ident (s : List Char) : Bool := s.head?.any ident_start && s.all ident_char

def unsupported_token (head : List Char) : String :=
  if (split_comparison head).isSome then
    "Unsupported token: '" ++ String.ofList head ++
      "' — that is a COMPARISON, and this argument takes an expression that resolves to a " ++
       "VALUE. `condition` and `trace_expr` both accept `left OP right` (==, !=, <, <=, >, >=, " ++
       "joined with && / ||); an expression evaluated for its value does not."
  else "Unsupported token: '" ++ String.ofList head ++ "'"

/-- The name of a segment and the arguments of a call. -/
def parse_head (head : List Char) : Except String (List Char × Option (List ArgLit)) :=
  if head.head? = some '@' then
    if parse_object_handle head = none then
      .error ("Bad object handle '" ++ String.ofList head ++
        "' — the form is @0x<hex>, exactly as a trace snapshot, an expanded object or " ++
         "debug.list_instances prints it.")
    else .ok (head, none)
  else if '(' ∈ head then
    let name := trim (head.takeWhile (· ≠ '('))
    if head.getLast? ≠ some ')' then
      .error ("Malformed method call: '" ++ String.ofList head ++ "'")
    else if !is_ident name then .error ("Bad method name: '" ++ String.ofList name ++ "'")
    else
      (parse_args lit (head.dropWhile (· ≠ '(')).tail.dropLast).map fun args => (name, some args)
  else if !is_ident head then .error (unsupported_token head)
  else .ok (head, none)

def parse_seg (raw : List Char) : Except String Seg := do
  let (head, sub_groups) ← split_subscripts raw
  let subs ← sub_groups.mapM (parse_subscript lit)
  let (name, args) ← parse_head lit head
  return ⟨String.ofList name, args, subs⟩

/-- An expression within an expression is shorter than it. -/
def parse_expr_with : ℕ → List Char → Except String (List Seg)
  | 0, _ => .error "Empty expression"
  | fuel + 1, e => do
    if trim e = [] then throw "Empty expression"
    let raws ← split_segments (trim e)
    if raws = [] then throw "Empty expression"
    raws.mapM (parse_seg (parse_lit (parse_expr_with fuel)))

def parse_expr (e : List Char) : Except String (List Seg) := parse_expr_with (e.length + 1) e

end Parser

end JavaDebug.Expressions
