import JavaDebug.DeepNodes

/-!
What a deep rendering accounts for. Every object that is expanded has a spot: the
objects above it, what the debuggee answered about it, and how many lines are
printed for what is in it. The spots are no more than the node budget, nest no
deeper than the limit and never repeat an ancestor. A spot leaves nothing out
unsaid exactly when the reads it rests on were all answered.
-/
namespace JavaDebug.DeepAccounts

open MapWalks
  WireReader Requests Evaluations DeepNodes
open DeepRenders (i32_or_max)
open CollectionScans (Entry)

section Spots

/-- The lines printed for what is in the object. -/
def Expansion.lines (limit : ℕ) : Expansion → ℕ
  | .payload _ | .unreadable _ | .fieldless _ _ | .bare _ _ | .absent _ => 0
  | .fields _ own values => (values.take (min own.length limit)).length
  | .elements _ _ elems => elems.length
  | .walked len found => if len = 0 then 0 else (found.take limit).length
  | .invoked _ entries => entries.reduceOption.length
  | .present => 1

/-- The number after the `+`, if there is one. -/
def Expansion.left (limit : ℕ) : Expansion → ℕ
  | .fields _ own _ => own.length - min own.length limit
  | .elements _ len _ | .invoked len _ => (len.toInt - (taken limit len).toInt).toNat
  | .walked len found =>
    if len = 0 then 0
    else (len.toInt - (i32_or_max (min found.length limit)).toInt).toNat
  | _ => 0

/-- How many fields, elements or entries the object has, as far as the debuggee told; `none` if it
did not tell. -/
def Expansion.children : Expansion → Option ℕ
  | .payload _ | .unreadable _ => some 0
  | .fieldless whole _ => if whole then some 0 else none
  | .fields whole own _ => if whole then some own.length else none
  | .elements _ len _ | .invoked len _ => some len.toInt.toNat
  | .bare _ size => some size.toInt.toNat
  | .walked len found => some (max len.toInt.toNat found.length)
  | .absent present => if present = some (.boolean false) then some 0 else none
  | .present => some 1

/-- The reads that the rendering of the object rests on came back, with as much as was asked for.
The size of a map that was walked is no less than the entries found, unless all of them are
shown. -/
def Expansion.Answered (limit : ℕ) : Expansion → Prop
  | .payload _ | .unreadable _ | .present => True
  | .fieldless whole _ => whole = true
  | .fields whole own values => whole = true ∧ min own.length limit ≤ values.length
  | .elements _ len elems => (taken limit len).toInt ≤ elems.length
  | .bare _ size => size.toInt ≤ 0
  | .walked len found => found.length ≤ len.toInt.toNat ∨ (len ≠ 0 ∧ found.length ≤ limit)
  | .invoked len entries => (taken limit len).toInt ≤ entries.reduceOption.length
  | .absent present => present = some (.boolean false)

/-- The value with the objects of `above` over it is shown as itself, as a handle, as the mark of
what cut it off, or expanded. -/
def Stands (depth_limit : ℕ) (above : List UInt64) (v : Value) : Shown → Prop
  | .leaf _ => True
  | .exhausted id | .untyped id => v.data = .object id
  | .cycle _ id => v.data = .object id ∧ id ∈ above
  | .summary _ => (∃ id, v.data = .object id ∧ id ∉ above) ∧ above.length = depth_limit
  | .pair _ _ => False
  | .object id _ depth _ _ =>
    v.data = .object id ∧ id ∉ above ∧ depth = above.length ∧ depth < depth_limit

def StandsPair (depth_limit : ℕ) (above : List UInt64) (kv : Entry) (s : Shown) : Prop :=
  ∃ key value, s = .pair key value ∧ Stands depth_limit above kv.1 key ∧
    Stands depth_limit above kv.2 value

/-- The items are those fields, elements or entries that the object has lines for, in order. -/
def Expansion.Itemised (limit depth_limit : ℕ) (above : List UInt64) (items : List Shown) :
    Expansion → Prop
  | .fields _ own values =>
    List.Forall₂ (Stands depth_limit above) (values.take (min own.length limit)) items
  | .elements _ _ elems => List.Forall₂ (Stands depth_limit above) elems items
  | .walked len found =>
    List.Forall₂ (StandsPair depth_limit above) (if len = 0 then [] else found.take limit) items
  | .invoked _ entries =>
    List.Forall₂ (StandsPair depth_limit above) entries.reduceOption items
  | .present => ∃ v item, Stands depth_limit above v item ∧ items = [item]
  | _ => items = []

/-- An object that is expanded: the objects above it, and what is shown of what is in it. -/
structure Spot where
  above : List UInt64
  id : UInt64
  expansion : Expansion
  items : List Shown

mutual

def objects (above : List UInt64) : Shown → List Spot
  | .object id _ _ x items => ⟨above, id, x, items⟩ :: objects_in (above ++ [id]) items
  | .pair key value => objects above key ++ objects above value
  | _ => []

def objects_in (above : List UInt64) : List Shown → List Spot
  | [] => []
  | s :: rest => objects above s ++ objects_in above rest

end

/-- Not one of its own ancestors, above the depth limit, and with its items below it. -/
structure Spot.Sound (limit depth_limit : ℕ) (o : Spot) : Prop where
  fresh : o.id ∉ o.above
  nested : o.above.length < depth_limit
  items : Expansion.Itemised limit depth_limit (o.above ++ [o.id]) o.items o.expansion

/-- Each field, element or entry has a line, or is counted in `+N more`. -/
def Spot.Accounted (limit : ℕ) (o : Spot) : Prop :=
  ∃ n, Expansion.children o.expansion = some n ∧
    n ≤ o.items.length + Expansion.left limit o.expansion

theorem Expansion.Itemised.length {limit depth_limit : ℕ} {above : List UInt64} {items : List Shown}
    {x : Expansion} (h : Expansion.Itemised limit depth_limit above items x) :
    items.length = Expansion.lines limit x := by
  cases x with
  | fields whole own values => exact h.length_eq.symm
  | elements header len elems => exact h.length_eq.symm
  | walked len found =>
    refine h.length_eq.symm.trans ?_
    change _ = if len = 0 then 0 else (found.take limit).length
    split
    · rfl
    · rfl
  | invoked len entries => exact h.length_eq.symm
  | present =>
    obtain ⟨v, item, -, rfl⟩ := h
    rfl
  | payload text => exact congrArg List.length h
  | unreadable what => exact congrArg List.length h
  | fieldless whole s => exact congrArg List.length h
  | bare header size => exact congrArg List.length h
  | absent answer => exact congrArg List.length h

theorem taken_le (limit : ℕ) (len : Int32) : (taken limit len).toInt ≤ len.toInt := by
  have hmin : taken limit len = if len ≤ i32_or_max limit then len else i32_or_max limit := rfl
  rw [hmin]
  split
  · exact le_rfl
  · rename_i hgt
    rw [Int32.le_iff_toInt_le] at hgt
    omega

theorem toInt_i32_or_max (n : ℕ) : (i32_or_max n).toInt = min n (2 ^ 31 - 1) := by
  unfold i32_or_max
  split
  · rw [Int32.toInt_ofNat_of_lt (by omega)]
    omega
  · have hmax : Int32.maxValue.toInt = 2147483647 := by decide
    rw [hmax]
    omega

theorem toInt_eq_zero (len : Int32) : len.toInt = 0 ↔ len = 0 := by
  constructor
  · intro h
    refine Int32.toInt_inj.mp ?_
    rw [h]
    rfl
  · rintro rfl
    rfl

theorem accounted_iff {limit depth_limit : ℕ} {o : Spot} (h : o.Sound limit depth_limit) :
    o.Accounted limit ↔ Expansion.Answered limit o.expansion := by
  have hlines := h.items.length
  obtain ⟨above, id, x, items⟩ := o
  dsimp only at hlines
  unfold Spot.Accounted
  dsimp only
  rw [hlines]
  cases x with
  | payload text => simp [Expansion.children, Expansion.Answered]
  | unreadable what => simp [Expansion.children, Expansion.Answered]
  | present => simp [Expansion.children, Expansion.Answered, Expansion.lines]
  | fieldless whole s => cases whole <;> simp [Expansion.children, Expansion.Answered]
  | absent present =>
    simp only [Expansion.children, Expansion.Answered]
    split <;> simp_all
  | fields whole own values =>
    simp only [Expansion.children, Expansion.Answered, Expansion.lines, Expansion.left,
      List.length_take]
    cases whole
    · simp
    · simp only [if_true, Option.some.injEq, exists_eq_left', true_and]
      omega
  | elements header len elems =>
    have hle := taken_le limit len
    simp only [Expansion.children, Expansion.Answered, Expansion.lines, Expansion.left,
      Option.some.injEq, exists_eq_left']
    omega
  | bare header size =>
    simp only [Expansion.children, Expansion.Answered, Expansion.lines, Expansion.left,
      Option.some.injEq, exists_eq_left']
    omega
  | invoked len entries =>
    have hle := taken_le limit len
    simp only [Expansion.children, Expansion.Answered, Expansion.lines, Expansion.left,
      Option.some.injEq, exists_eq_left']
    omega
  | walked len found =>
    have hshown := toInt_i32_or_max (min found.length limit)
    have hmax := Int32.toInt_lt len
    simp only [Expansion.children, Expansion.Answered, Expansion.lines, Expansion.left,
      Option.some.injEq, exists_eq_left']
    by_cases hzero : len = 0
    · rw [if_pos hzero, if_pos hzero, hzero]
      simp
    · have hlen := mt (toInt_eq_zero len).mp hzero
      rw [if_neg hzero, if_neg hzero, hshown, List.length_take]
      simp only [ne_eq, hzero, not_false_eq_true, true_and]
      omega

end Spots

section Counts

/-- What the number after the `+` counts. -/
def Expansion.unit : Expansion → String
  | .fields _ _ _ => " more field(s)"
  | .walked _ _ | .invoked _ _ => " more entr(ies)"
  | _ => " more"

variable {len : Int32}

end Counts

end JavaDebug.DeepAccounts
