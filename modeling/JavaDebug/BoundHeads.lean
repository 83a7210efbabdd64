import JavaDebug.MarkedTexts

/-!
The names that a hit binds. A condition may name the thrown exception or the value
about to be stored; where such a name is an object, it is replaced by its handle in
the text of the condition, at every place outside quotes that no identifier runs
into and a dot follows. The condition is bound when its parse is the parse of the
text as it was written, with the handle for the first name of each expression that
a member follows, and nothing else changed.
-/
namespace JavaDebug.BoundHeads

open JavaValues Texts
open Expressions Spellings MarkedTexts
open BooleanTrees (BoolTree parse_bool_tree split_comparison)
open WireReader (Value)

section Code

/-- The values that a hit supplies to its condition. -/
structure ConditionBindings where
  exception : Option UInt64
  new_value : Option Value

def ConditionBindings.object_heads (b : ConditionBindings) : List (String × UInt64) :=
  (b.exception.map fun id => ("exception", id)).toList ++
    match b.new_value.map fun v => v.data with
    | some (.object id) => if id ≠ 0 then [("newValue", id)] else []
    | _ => []

def handle_text (id : UInt64) : List Char := "@0x".toList ++ Nat.toDigits 16 id.toNat

/-- Whether the byte before a place cannot continue an identifier; a byte of a character outside
ASCII cannot. -/
def boundary (prev : Option Char) : Bool := !prev.any fun c => ident_char c || c = '.'

variable (heads : List (String × UInt64))

def head_here (rest : List Char) : Option (String × UInt64) :=
  heads.find? fun h => (h.1.toList ++ ['.']).isPrefixOf rest

/-- The head that the scan finds at a place. -/
def hit_here (prev : Option Char) (q : Quoted) (rest : List Char) : Option (String × UInt64) :=
  if !q.inside && boundary prev then head_here heads rest else none

def bind_loop : ℕ → Option Char → Quoted → List Char → List Char
  | 0, _, _, _ => []
  | _ + 1, _, _, [] => []
  | fuel + 1, prev, q, c :: rest =>
    match hit_here heads prev q (c :: rest) with
    | some (name, id) => handle_text id ++ bind_loop fuel name.toList.getLast?
        (name.toList.foldl Quoted.step q) ((c :: rest).drop name.toList.length)
    | none => c :: bind_loop fuel (some c) (q.step c) rest

def bind_object_heads (leaf : List Char) : List Char :=
  bind_loop heads leaf.length none .default leaf

end Code

section Parses

/-- A leaf whose sides parse. -/
def LeafReads (a : List Char) : Prop :=
  (split_comparison a = none ∧ ∃ segs, parse_expr a = .ok segs) ∨
    ∃ l op r segs lit, split_comparison a = some (l, op, r) ∧ parse_expr l = .ok segs ∧
      parse_lit parse_expr r = .ok lit

/-- A condition or a predicate whose leaves parse. -/
def Reads (s : List Char) : Prop := ∀ a, Pieces.LeafOf a (parse_bool_tree s) → LeafReads a

/-- A chain whose first segment is the bare name of a bound object, with a member after it. -/
def HeadBound (heads : List (String × UInt64)) (segs : List Seg) : Prop :=
  ∃ h ∈ heads, ∃ member more, segs = ⟨h.1, none, []⟩ :: member :: more

mutual

inductive LitBound (heads : List (String × UInt64)) : ArgLit → ArgLit → Prop
  | same (a : ArgLit) : (∀ e, a ≠ .expr e) → LitBound heads a a
  | expr (e e' : String) (segs segs' : List Seg) : parse_expr e.toList = .ok segs →
      parse_expr e'.toList = .ok segs' → ChainBound heads true segs segs' →
      LitBound heads (.expr e) (.expr e')

/-- A predicate's left sides begin with members of the element, which no object is bound to. -/
inductive SubBound (heads : List (String × UInt64)) : Subscript → Subscript → Prop
  | index (a a' : ArgLit) : LitBound heads a a' → SubBound heads (.index a) (.index a')
  | range (lo hi : Int64) : SubBound heads (.range lo hi) (.range lo hi)
  | filter (p p' : String) : Reads p.toList →
      SameShape (LeafBound heads false) (parse_bool_tree p.toList) (parse_bool_tree p'.toList) →
      SubBound heads (.filter p) (.filter p')
  | unread (p : String) : ¬ Reads p.toList → SubBound heads (.filter p) (.filter p)

inductive SegBound (heads : List (String × UInt64)) : Seg → Seg → Prop
  | name (n : String) (subs subs' : List Subscript) : List.Forall₂ (SubBound heads) subs subs' →
      SegBound heads ⟨n, none, subs⟩ ⟨n, none, subs'⟩
  | call (n : String) (args args' : List ArgLit) (subs subs' : List Subscript) :
      List.Forall₂ (LitBound heads) args args' → List.Forall₂ (SubBound heads) subs subs' →
      SegBound heads ⟨n, some args, subs⟩ ⟨n, some args', subs'⟩

/-- The first segment becomes the handle where it is bound, the others keep their names. -/
inductive ChainBound (heads : List (String × UInt64)) : Bool → List Seg → List Seg → Prop
  | head (h : String × UInt64) (member : Seg) (more segs' : List Seg) : h ∈ heads →
      List.Forall₂ (SegBound heads) (member :: more) segs' →
      ChainBound heads true (⟨h.1, none, []⟩ :: member :: more)
        (⟨String.ofList (handle_text h.2), none, []⟩ :: segs')
  | kept (b : Bool) (segs segs' : List Seg) : ¬ (b = true ∧ HeadBound heads segs) →
      List.Forall₂ (SegBound heads) segs segs' → ChainBound heads b segs segs'

inductive LeafBound (heads : List (String × UInt64)) : Bool → List Char → List Char → Prop
  | compared (b : Bool) (a a' l l' op r r' : List Char) (segs segs' : List Seg) (x x' : ArgLit) :
      split_comparison a = some (l, op, r) → split_comparison a' = some (l', op, r') →
      parse_expr l = .ok segs → parse_expr l' = .ok segs' → ChainBound heads b segs segs' →
      parse_lit parse_expr r = .ok x → parse_lit parse_expr r' = .ok x' → LitBound heads x x' →
      LeafBound heads b a a'
  | alone (b : Bool) (a a' : List Char) (segs segs' : List Seg) :
      split_comparison a = none → split_comparison a' = none →
      parse_expr a = .ok segs → parse_expr a' = .ok segs' → ChainBound heads b segs segs' →
      LeafBound heads b a a'

end

/-- The parse of the second text is that of the first with its heads bound. -/
def ConditionBound (heads : List (String × UInt64)) (s s' : List Char) : Prop :=
  SameShape (LeafBound heads true) (parse_bool_tree s) (parse_bool_tree s')

end Parses

section Hits

variable (heads : List (String × UInt64))

/-- The text with a mark at every place where the scan finds a head. -/
def mark_loop : ℕ → Option Char → Quoted → List Char → Marked
  | 0, _, _, _ => []
  | _ + 1, _, _, [] => []
  | fuel + 1, prev, q, c :: rest =>
    match hit_here heads prev q (c :: rest) with
    | some (name, id) => .word name.toList (handle_text id) :: mark_loop fuel name.toList.getLast?
        (name.toList.foldl Quoted.step q) ((c :: rest).drop name.toList.length)
    | none => .char c :: mark_loop fuel (some c) (q.step c) rest

def hits (s : List Char) : Marked := mark_loop heads s.length none .default s

/-- What a part of a condition is to its parser. The left sides of a condition begin with heads,
those of a predicate do not. -/
inductive Role
  | tree (begins : Bool)
  | chain (begins : Bool)
  | segment
  | subscript
  | literal
  | head
  | other

/-- Segments whose first is the bare name of a bound object, with a member after it. -/
def HeadNamed (raws : List Marked) : Prop :=
  ∃ h ∈ heads, ∃ k member more, raws = k :: member :: more ∧ spell false k = h.1.toList

/-- The parts of a condition, down to the heads that are bound and the other names and texts. -/
inductive Part (x : Marked) : Role → Marked → Prop
  | whole : Part x (.tree true) x
  | left (b : Bool) (c y l r : Marked) (op : List Char) : Part x (.tree b) c → Clause c y →
      comparison y = some (l, op, r) → Part x (.chain b) l
  | right (b : Bool) (c y l r : Marked) (op : List Char) : Part x (.tree b) c → Clause c y →
      comparison y = some (l, op, r) → Part x .literal r
  | alone (b : Bool) (c y : Marked) : Part x (.tree b) c → Clause c y → comparison y = none →
      Part x (.chain b) y
  | head (e k : Marked) (raws : List Marked) : Part x (.chain true) e → Segments e (k :: raws) →
      HeadNamed heads (k :: raws) → Part x .head k
  | member (e k raw : Marked) (raws : List Marked) : Part x (.chain true) e →
      Segments e (k :: raws) → HeadNamed heads (k :: raws) → raw ∈ raws → Part x .segment raw
  | segment (b : Bool) (e raw : Marked) (raws : List Marked) : Part x (.chain b) e →
      Segments e raws → ¬ (b = true ∧ HeadNamed heads raws) → raw ∈ raws → Part x .segment raw
  | name (raw head : Marked) (gs : List Marked) : Part x .segment raw → Segment raw head gs →
      .char '(' ∉ head → Part x .other head
  | called (raw head before inside : Marked) (gs : List Marked) : Part x .segment raw →
      Segment raw head gs → Call head before inside → Part x .other before
  | argument (raw head before inside p : Marked) (gs ps : List Marked) : Part x .segment raw →
      Segment raw head gs → Call head before inside → Args inside ps → p ∈ ps → Part x .literal p
  | subscript (raw head g : Marked) (gs : List Marked) : Part x .segment raw →
      Segment raw head gs → g ∈ gs → Part x .subscript g
  | predicate (g rest : Marked) : Part x .subscript g → trim_marked g = .char '?' :: rest →
      Reads (spell false (trim_marked rest)) → Part x (.tree false) (trim_marked rest)
  | unread (g rest : Marked) : Part x .subscript g → trim_marked g = .char '?' :: rest →
      ¬ Reads (spell false (trim_marked rest)) → Part x .other (trim_marked rest)
  | index (g : Marked) : Part x .subscript g → (trim_marked g).head? ≠ some (.char '?') →
      split_range [] (spell false (trim_marked g)) = none → Part x .literal (trim_marked g)
  | nested (p : Marked) (e : String) : Part x .literal p →
      parse_lit parse_expr (spell false p) = .ok (.expr e) → Part x (.chain true) (trim_marked p)
  | text (p : Marked) (s : String) : Part x .literal p →
      parse_lit parse_expr (spell false p) = .ok (.str s) → Part x .other p

/-- The scan finds each head that is bound, as it stands there, and nothing else. -/
structure HeadsHit (x : Marked) : Prop where
  found : ∀ k, Part heads x .head k → ∃ plain bound, k = [.word plain bound]
  nothing_else : ∀ y, Part heads x .other y → Unmarked y

end Hits

end JavaDebug.BoundHeads
