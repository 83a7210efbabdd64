import JavaDebug.WireReader

/-!
Generic signatures as Java source: a descent over the bytes of a signature that
renders what it reads, or gives up. A type inside of another one starts at least
one byte after it, so a descent is never deeper than the signature is long; the
rounds of a loop each read a byte as well.
-/
namespace JavaDebug.Generics

open Octets Cursors
open WireReader (from_utf8_lossy dotted)
open RequestFraming (as_bytes)

section Scanning

abbrev Parse (α : Type) := Cursor UInt8 Option α

def peek : Parse (Option UInt8) := fun s => some (s.head?, s)

def bump : Parse Unit := fun s => some ((), s.tail)

def eat (c : UInt8) : Parse Bool := fun s =>
  if s.head? = some c then some (true, s.tail) else some (false, s)

def give_up {α : Type} : Parse α := fun _ => none

/-- `eat`, or give up. -/
def need (c : UInt8) : Parse Unit := do
  let eaten ← eat c
  if eaten then pure () else give_up

def at_end : Parse Bool := fun s => some (s.isEmpty, s)

/-- The bytes up to any of `stop`; there must be some. -/
def ident (stop : Bytes) : Parse String := fun s =>
  let bytes := s.takeWhile fun c => c ∉ stop
  if bytes = [] then none
  else some (from_utf8_lossy bytes, s.dropWhile fun c => c ∉ stop)

end Scanning

section Types

def base_type : UInt8 → Option String
  | 66 => some "byte"
  | 67 => some "char"
  | 68 => some "double"
  | 70 => some "float"
  | 73 => some "int"
  | 74 => some "long"
  | 83 => some "short"
  | 90 => some "boolean"
  | 86 => some "void"
  | _ => none

/-- The brackets at the front, no more than 255 of them. -/
def dimensions (dims : ℕ) : Bytes → Option (ℕ × Bytes)
  | 91 :: rest => if dims + 1 > 255 then none else dimensions (dims + 1) rest
  | rest => some (dims, rest)

def join (separator : String) (parts : List String) : String := separator.intercalate parts

/-- `"[]".repeat(dims)` -/
def brackets (dims : ℕ) : String := String.join (List.replicate dims "[]")

variable (type_sig : Parse String)

/-- What follows the first byte of an argument decides its kind; `*` stands alone. -/
def argument_loop : ℕ → List String → Parse (List String)
  | 0, _ => give_up
  | n + 1, args => do
    match ← peek with
    | none => give_up
    | some 62 => pure args
    | some 42 => do
      bump
      argument_loop n (args ++ ["?"])
    | some 43 => do
      bump
      let t ← type_sig
      argument_loop n (args ++ ["? extends " ++ t])
    | some 45 => do
      bump
      let t ← type_sig
      argument_loop n (args ++ ["? super " ++ t])
    | some _ => do
      let t ← type_sig
      argument_loop n (args ++ [t])

/-- A loop over what is left has at most as many rounds as there are bytes. -/
def rounds {α : Type} (loop : ℕ → Parse α) : Parse α := fun s => loop (s.length + 1) s

def type_arguments : Parse String := do
  need 60
  let args ← rounds fun n => argument_loop type_sig n []
  need 62
  if args = [] then give_up else pure ("<" ++ join ", " args ++ ">")

/-- The arguments of a class, if a bracket is next. -/
def own_arguments : Parse String := do
  let next ← peek
  if next = some 60 then type_arguments type_sig else pure ""

def class_loop : ℕ → String → Parse String
  | 0, _ => give_up
  | n + 1, out => do
    let name ← ident [60, 59, 46]
    let out := (if out.isEmpty then out else out ++ ".") ++ dotted name
    let args ← own_arguments type_sig
    let done ← eat 59
    if done then pure (out ++ args)
    else do
      need 46
      class_loop n (out ++ args)

def class_type : Parse String := do
  need 76
  rounds fun n => class_loop type_sig n ""

def type_variable : Parse String := do
  bump
  let name ← ident [59]
  need 59
  pure name

/-- The type that the first byte announces. -/
def base_sig (first : UInt8) : Parse String :=
  match first with
  | 76 => class_type type_sig
  | 84 => type_variable
  | other =>
    match base_type other with
    | none => give_up
    | some name => do
      bump
      pure name

end Types

section Signatures

def type_sig : ℕ → Parse String
  | 0 => give_up
  | depth + 1 => do
    let dims ← dimensions 0
    match ← peek with
    | none => give_up
    | some first => do
      let base ← base_sig (type_sig depth) first
      pure (base ++ brackets dims)

/-- `type_sig` of what is left. -/
def type_of : Parse String := rounds type_sig

def finished {α : Type} (p : Parse α) (sig : String) : Option α :=
  (do let out ← p; if ← at_end then pure out else give_up : Parse α) (as_bytes sig) |>.map Prod.fst

def render_type (sig : String) : Option String := finished type_of sig

/-- The types that follow each `c`. -/
def after_each (c : UInt8) : ℕ → List String → Parse (List String)
  | 0, _ => give_up
  | n + 1, types => do
    let more ← eat c
    if more then do
      let t ← type_of
      after_each c n (types ++ [t])
    else pure types

/-- A class bound, unless there is none. -/
def class_bound : Parse (List String) := do
  let next ← peek
  if next = none ∨ next = some 58 ∨ next = some 62 then pure []
  else do
    let t ← type_of
    pure [t]

/-- The universal bound is left off. -/
def declaration (name : String) (bounds : List String) : String :=
  let bounds := bounds.filter fun b => b ≠ "java.lang.Object"
  if bounds = [] then name else name ++ " extends " ++ join " & " bounds

def type_parameter : Parse String := do
  let name ← ident [58]
  need 58
  let bounds ← class_bound
  let bounds ← rounds fun n => after_each 58 n bounds
  pure (declaration name bounds)

/-- Read with `p` until `c` or the end is next. -/
def until_byte (c : UInt8) (p : Parse String) : ℕ → List String → Parse (List String)
  | 0, _ => give_up
  | n + 1, out => do
    let next ← peek
    if next = none ∨ next = some c then pure out
    else do
      let s ← p
      until_byte c p n (out ++ [s])

def type_parameters : Parse (List String) := do
  need 60
  let params ← rounds fun n => until_byte 62 type_parameter n []
  need 62
  if params = [] then give_up else pure params

/-- The type parameters of a method, if a bracket is next. -/
def own_parameters : Parse (List String) := do
  let next ← peek
  if next = some 60 then type_parameters else pure []

structure MethodParts where
  type_params : List String
  params : List String
  ret : String
  throws : List String
  deriving DecidableEq

def method_sig : Parse MethodParts := do
  let type_params ← own_parameters
  need 40
  let params ← rounds fun n => until_byte 41 type_of n []
  need 41
  let ret ← type_of
  let throws ← rounds fun n => after_each 94 n []
  pure ⟨type_params, params, ret, throws⟩

def render_method (sig : String) : Option MethodParts := finished method_sig sig

end Signatures

end JavaDebug.Generics
