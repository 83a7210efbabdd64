import JavaDebug.CollectionScans
import JavaDebug.Overloads

/-!
A collection rendered with its contents, by walking its fields or by invoking
`toArray()` or `entrySet()` on it. How a node below it is rendered is any
function of the node and of what the render has come to: the budget, the path
of objects and the reads made ahead. `walk_agrees` says when both routes show
the same.
-/
namespace JavaDebug.DeepRenders

open Jdwp WireReader JavaValues MapWalks
  MapReads CollectionScans

structure DeepOpts (Bytes : Type) where
  depth_limit : ℕ
  child_limit : ℕ
  text_len : ℕ
  bytes : Bytes

structure DeepState (Reads : Type) where
  budget : ℕ
  path : List UInt64
  reads : Reads
  read_path : List String

/-- A debuggee whose methods can be invoked, and how a node is rendered. -/
structure Inspector (Bytes Reads : Type) extends Heap where
  invoke_method : UInt64 → UInt64 → ClassId → ℕ → List Value → Except String (Value × UInt64)
  extend_committed : Reads → List Value → Reads
  render_node : Option UInt64 → DeepOpts Bytes → ℕ → Value → DeepState Reads →
    String × DeepState Reads

section Invoking

def USIZE_MAX : ℕ := 2 ^ 64 - 1

def subtree_bound (fanout : ℕ) : ℕ → ℕ
  | 0 => 1
  | levels + 1 => min USIZE_MAX (1 + min USIZE_MAX (fanout * subtree_bound fanout levels))

variable {Bytes Reads : Type}

/-- The most nodes that a node at `depth` can consume. -/
def subtree_max (depth : ℕ) (opts : DeepOpts Bytes) : ℕ :=
  subtree_bound (min USIZE_MAX (opts.child_limit * 2)) (opts.depth_limit - depth)

def certain_children (budget children child_depth : ℕ) (opts : DeepOpts Bytes) : ℕ :=
  if children = 0 ∨ budget = 0 then 0
  else min ((budget - 1) / max (subtree_max child_depth opts) 1 + 1) children

def i32_or_max (n : ℕ) : Int32 := if n < 2 ^ 31 then Int32.ofNat n else Int32.maxValue

def indent (depth : ℕ) : String := String.join (List.replicate depth "  ")

/-- The types of the arguments in a descriptor's list, those of classes up to their `;`. -/
def arg_count (in_class : Bool) : List Char → ℕ
  | [] => 0
  | c :: rest =>
    if in_class then arg_count (c ≠ ';') rest
    else if c = '[' then arg_count false rest
    else arg_count (c = 'L') rest + 1

def sig_arg_count (sig : String) : ℕ :=
  let s := sig.toList
  let a := s.idxOf '('
  let b := s.idxOf ')'
  if a < b ∧ b < s.length then arg_count false ((s.take b).drop (a + 1)) else 0

/-- The walk up the superclass chain, over at most `fuel` classes. -/
def arity_walk (d : Types) (name : String) (argc : ℕ) :
    ℕ → ClassId → Except String (Option (ClassId × MethodInfo))
  | 0, _ => .ok none
  | fuel + 1, tid =>
    match d.get_methods tid with
    | .error e => .error ("Failed to get methods: " ++ e)
    | .ok methods =>
      match methods.find? fun m => m.name = name ∧ sig_arg_count m.signature = argc with
      | some m => .ok (some (tid, m))
      | none =>
        match superclass_of d tid with
        | some above => arity_walk d name argc fuel above
        | none => .ok none

def find_method_arity (d : Types) (type_id : ClassId) (name : String) (argc : ℕ) :
    Except String (Option (ClassId × MethodInfo)) :=
  arity_walk d name argc 50 type_id

variable (d : Inspector Bytes Reads)

/-- A call that fails or throws has no value. -/
def invoke_no_arg (id : UInt64) (type_id : ClassId) (tid : UInt64) (method : String) :
    Option Value :=
  match find_method_arity d.toTypes type_id method 0 with
  | .ok (some (decl, m)) =>
    match d.invoke_method id tid decl m.method_id [] with
    | .ok (ret, exc) => if exc = 0 then some ret else none
    | .error _ => none
  | _ => none

/-- The object that a call returns. -/
def invoke_for_object (id : UInt64) (type_id : ClassId) (tid : UInt64) (method : String) :
    Option UInt64 :=
  (invoke_no_arg d id type_id tid method).bind as_object_id

def entry_pair (entry_value : Value) (tid : UInt64) : Option Entry := do
  let entry ← as_object_id entry_value
  let etype ← (d.get_object_reference_type entry).toOption
  let k ← invoke_no_arg d entry etype tid "getKey"
  let v ← invoke_no_arg d entry etype tid "getValue"
  return (k, v)

end Invoking

section Rendering

variable {Bytes Reads : Type} (d : Inspector Bytes Reads) (thread_id : Option UInt64)
  (opts : DeepOpts Bytes) (depth : ℕ)

/-- The elements from the `i`-th on, a line for each. -/
def render_elems : ℕ → List Value → String → DeepState Reads → String × DeepState Reads
  | _, [], out, state => (out, state)
  | i, e :: elems, out, state =>
    let r := d.render_node thread_id opts (depth + 1) e state
    render_elems (i + 1) elems
      (out ++ "\n" ++ indent (depth + 1) ++ "[" ++ toString i ++ "] = " ++ r.1) r.2

def render_indexed_block (header : String) (arr : UInt64) (len : Int32) (state : DeepState Reads) :
    Option String × DeepState Reads :=
  if len = 0 then (some (header ++ " \x7b\x7d"), state)
  else
    let take := min len (i32_or_max opts.child_limit)
    match d.get_array_values arr 0 take with
    | .error _ => (none, state)
    | .ok elems =>
      let certain := certain_children state.budget elems.length (depth + 1) opts
      let waved := { state with reads := d.extend_committed state.reads (elems.take certain) }
      let r := render_elems d thread_id opts depth 0 elems (header ++ " \x7b") waved
      let more :=
        if take < len then
          "\n" ++ indent (depth + 1) ++ "… +" ++ toString (len - take) ++ " more"
        else ""
      (some (r.1 ++ more ++ "\n" ++ indent depth ++ "\x7d"), r.2)

/-- An entry's line: its key and then its value. -/
def render_pair (kv : Entry) (out : String) (state : DeepState Reads) : String × DeepState Reads :=
  let kr := d.render_node thread_id opts (depth + 1) kv.1 state
  let vr := d.render_node thread_id opts (depth + 1) kv.2 kr.2
  (out ++ "\n" ++ indent (depth + 1) ++ kr.1 ++ " → " ++ vr.1, vr.2)

def render_pairs : List Entry → String → DeepState Reads → String × DeepState Reads
  | [], out, state => (out, state)
  | kv :: pairs, out, state =>
    let r := render_pair d thread_id opts depth kv out state
    render_pairs pairs r.1 r.2

/-- A map's block around its lines, `shown` of its `len` entries having one. -/
def close_map (lines : String) (len shown : Int32) : String :=
  lines ++
    (if shown < len then
      "\n" ++ indent (depth + 1) ++ "… +" ++ toString (len - shown) ++ " more entr(ies)"
    else "") ++ "\n" ++ indent depth ++ "\x7d"

def render_layout_deep (id : UInt64) (type_id : ClassId) (layout : Layout) (name : String)
    (state : DeepState Reads) : Walked String × DeepState Reads :=
  match layout_entries d.toHeap (some (id, type_id)) id layout with
  | none =>
    match array_list_backing d.toHeap (some (id, type_id)) id with
    | .error e => (.declined e, state)
    | .ok (.declined why) => (.declined why, state)
    | .ok (.read (arr, size)) =>
      let header := name ++ "[" ++ toString size ++ "]"
      match arr with
      | none => (.read (header ++ " \x7b\x7d"), state)
      | some a =>
        let r := render_indexed_block d thread_id opts depth header a size state
        (.read (r.1.getD (header ++ " \x7b\x7d")), r.2)
  | some (.error e) => (.declined e, state)
  | some (.ok (.declined why)) => (.declined why, state)
  | some (.ok (.read (pairs, len))) =>
    if len = 0 then (.read (name ++ "\x7b\x7d (0 entries)"), state)
    else
      let take := min pairs.length opts.child_limit
      let r := render_pairs d thread_id opts depth (pairs.take take)
        (name ++ "(" ++ toString len ++ " entries) \x7b") state
      (.read (close_map depth r.1 len (i32_or_max take)), r.2)

variable (tid : UInt64)

def render_elements_deep (id : UInt64) (type_id : ClassId) (name : String) (state : DeepState Reads)
    : Option String × DeepState Reads :=
  match invoke_for_object d id type_id tid "toArray" with
  | none => (none, state)
  | some arr =>
    match d.get_array_length arr with
    | .error _ => (none, state)
    | .ok len =>
      render_indexed_block d (some tid) opts depth (name ++ "[" ++ toString len ++ "]") arr len
        state

/-- The lines of the entries, one whose key or value cannot be had being left out. -/
def render_entries : List Value → String → DeepState Reads → String × DeepState Reads
  | [], out, state => (out, state)
  | e :: entries, out, state =>
    match entry_pair d e tid with
    | none => render_entries entries out state
    | some kv =>
      let r := render_pair d (some tid) opts depth kv out state
      render_entries entries r.1 r.2

/-- The array of the entries of a map: `entrySet()`, then `toArray()` on the set. -/
def entry_array (id : UInt64) (type_id : ClassId) : Option UInt64 := do
  let set ← invoke_for_object d id type_id tid "entrySet"
  let set_type ← (d.get_object_reference_type set).toOption
  invoke_for_object d set set_type tid "toArray"

def render_map_deep (id : UInt64) (type_id : ClassId) (name : String) (state : DeepState Reads) :
    Option String × DeepState Reads :=
  match entry_array d tid id type_id with
  | none => (none, state)
  | some arr =>
    match d.get_array_length arr with
    | .error _ => (none, state)
    | .ok len =>
      if len = 0 then (some (name ++ "\x7b\x7d (0 entries)"), state)
      else
        let take := min len (i32_or_max opts.child_limit)
        match d.get_array_values arr 0 take with
        | .error _ => (none, state)
        | .ok entries =>
          let r := render_entries d opts depth tid entries
            (name ++ "(" ++ toString len ++ " entries) \x7b") state
          (some (close_map depth r.1 len take), r.2)

/-- What is invoked on a list and on a map. -/
def render_by_invoking (layout : Layout) (id : UInt64) (type_id : ClassId) (name : String)
    (state : DeepState Reads) : Option String × DeepState Reads :=
  match layout with
  | .arrayList => render_elements_deep d opts depth tid id type_id name state
  | _ => render_map_deep d opts depth tid id type_id name state

end Rendering

section Agreement

variable {Bytes Reads : Type} {d : Inspector Bytes Reads} {obj : UInt64} {type_id : ClassId}
  {tid : UInt64} {layout : Layout} {size : Int32}

/-- The invocations come back with the contents, in the iterator's order. -/
def Invoked (d : Inspector Bytes Reads) (tid obj : UInt64) (type_id : ClassId) (c : Contents) :
    Prop :=
  match c with
  | .elements vs =>
    ∃ arr, invoke_for_object d obj type_id tid "toArray" = some arr ∧ ArrayAt d.toHeap arr vs
  | .entries es =>
    ∃ arr objs, entry_array d tid obj type_id = some arr ∧ ArrayAt d.toHeap arr objs ∧
      List.Forall₂ (fun o kv => entry_pair d o tid = some kv) objs es

/-- Walking the collection and invoking it show the same: the scan reads its first `scan_cap`
values, paired with their keys, and counts it as `size()` does; and both renderings come to the
same text and leave the render the same. -/
def Agrees (d : Inspector Bytes Reads) (obj : UInt64) (layout : Layout) (c : Contents)
    (size : Int32) : Prop :=
  (∀ known render_key name, Rooted d.toHeap known →
    structural_scan d.toHeap known render_key obj layout name =
      .ok (.read ⟨c.values.take scan_cap, (c.keys.take scan_cap).map render_key, size, name⟩)) ∧
  ∀ type_id tid name opts depth state, d.get_object_reference_type obj = .ok type_id →
    opts.child_limit ≤ scan_cap → Invoked d tid obj type_id c →
    ∃ text state',
      render_layout_deep d (some tid) opts depth obj type_id layout name state =
        (.read text, state') ∧
      render_by_invoking d opts depth tid layout obj type_id name state = (some text, state')

variable {n : ℕ}

theorem i32_of_small (hn : n < 2 ^ 31) : i32_or_max n = Int32.ofNat n :=
  if_pos hn

theorem min_limit {limit : ℕ} (hn : n < 2 ^ 31) (hlimit : limit ≤ scan_cap) :
    min (Int32.ofNat n) (i32_or_max limit) = Int32.ofNat (min n limit) := by
  have hcap : scan_cap = 1000 := rfl
  rw [i32_of_small (by omega)]
  by_cases hle : n ≤ limit
  · rw [min_eq_left hle]
    exact if_pos (ofNat_le hle (by omega))
  · have hnot : ¬ Int32.ofNat n ≤ Int32.ofNat limit := by
      rw [Int32.le_iff_toInt_le, Int32.toInt_ofNat_of_lt hn, Int32.toInt_ofNat_of_lt (by omega)]
      omega
    rw [min_eq_right (by omega)]
    exact if_neg hnot

variable {opts : DeepOpts Bytes} {es : List Entry}

theorem indexed_block_same (thread_id : Option UInt64) (depth : ℕ) (header : String) {a b : UInt64}
    {xs ys : List Value} (ha : ArrayAt d.toHeap a xs) (hb : ArrayAt d.toHeap b ys)
    (hn : n ≤ xs.length) (hys : ys = xs.take n) (hlimit : opts.child_limit ≤ scan_cap)
    (state : DeepState Reads) :
    ∃ text state', render_indexed_block d thread_id opts depth header a (Int32.ofNat n) state =
        (some text, state') ∧
      render_indexed_block d thread_id opts depth header b (Int32.ofNat n) state =
        (some text, state') := by
  have hbound := ha.bounded
  have hlen : ys.length = n := by
    rw [hys, List.length_take]
    omega
  have hleft := ha.values 0 (min n opts.child_limit) (by omega)
  have hright := hb.values 0 (min n opts.child_limit) (by omega)
  rw [List.drop_zero] at hleft hright
  rw [hys, List.take_take, min_eq_left (Nat.min_le_left _ _)] at hright
  unfold render_indexed_block
  rw [min_limit (by omega) hlimit]
  by_cases hempty : Int32.ofNat n = 0
  · rw [if_pos hempty, if_pos hempty]
    exact ⟨_, _, rfl, rfl⟩
  · rw [if_neg hempty, if_neg hempty]
    have hzero : (0 : Int32) = Int32.ofNat 0 := rfl
    dsimp only
    rw [hzero, hleft, hright]
    exact ⟨_, _, rfl, rfl⟩

theorem render_entries_pairs {depth : ℕ} {objs : List Value}
    (hpairs : List.Forall₂ (fun o kv => entry_pair d o tid = some kv) objs es) (out : String)
    (state : DeepState Reads) :
    render_entries d opts depth tid objs out state =
      render_pairs d (some tid) opts depth es out state := by
  induction hpairs generalizing out state with
  | nil => rfl
  | cons hpair _ ih =>
    rw [render_entries, hpair, render_pairs]
    exact ih _ _

/-- The count is that of the contents, when an `int` counts them. -/
theorem holds_size {h : Heap} (hholds : Holds h obj layout (.entries es) size)
    (hsmall : es.length < 2 ^ 31) : size = Int32.ofNat es.length := by
  cases hholds with
  | unallocated hread hnull hsize => rfl
  | hashed hread htable hsize harr hbins => rfl
  | linked hread hsize hlinked => rfl
  | chm_unallocated hread hnull hcount => rfl
  | concurrent hread htable harr hbins hcount htotal =>
    have hmax : Int32.maxValue.toInt = 2147483647 := by
      decide
    unfold size_of_count
    rw [htotal, min_eq_left (by omega), max_eq_right (Int.natCast_nonneg _)]
    rfl

theorem small_counted (hsmall : es.length < 2 ^ 31) : ¬ Uncounted layout (.entries es) := by
  rintro ⟨-, hbig⟩
  have hmax : Int32.maxValue.toInt = 2147483647 := by
    decide
  rw [Contents.values, List.length_map] at hbig
  omega

theorem map_renders_same (depth : ℕ) (name : String)
    (hholds : Holds d.toHeap obj layout (.entries es) size)
    (htype : d.get_object_reference_type obj = .ok type_id) (hlimit : opts.child_limit ≤ scan_cap)
    (hinvoked : Invoked d tid obj type_id (.entries es)) (state : DeepState Reads) :
    ∃ text state',
      render_layout_deep d (some tid) opts depth obj type_id layout name state =
        (.read text, state') ∧
      render_map_deep d opts depth tid obj type_id name state = (some text, state') := by
  obtain ⟨arr, objs, harr, hobjs, hpairs⟩ := hinvoked
  have hlen := hpairs.length_eq
  have hbound := hobjs.bounded
  have hsmall : es.length < 2 ^ 31 := by omega
  have hroot : Rooted d.toHeap (some (obj, type_id)) := by
    intro o t hsame
    obtain ⟨rfl, rfl⟩ := Prod.mk.inj (Option.some.inj hsame)
    exact htype
  have hcap : scan_cap = 1000 := rfl
  rw [render_layout_deep, layout_entries_read hroot hholds (small_counted hsmall),
    holds_size hholds hsmall, render_map_deep, harr]
  dsimp only
  rw [hobjs.length, hlen]
  dsimp only
  by_cases hempty : Int32.ofNat es.length = 0
  · rw [if_pos hempty, if_pos hempty]
    exact ⟨_, _, rfl, rfl⟩
  · rw [if_neg hempty, if_neg hempty, min_limit hsmall hlimit]
    have hread := hobjs.values 0 (min es.length opts.child_limit) (by omega)
    have hzero : (0 : Int32) = Int32.ofNat 0 := rfl
    rw [List.drop_zero] at hread
    rw [hzero, hread]
    dsimp only
    have hshown : min (es.take scan_cap).length opts.child_limit =
        min es.length opts.child_limit := by
      rw [List.length_take]
      omega
    rw [hshown, List.take_take, min_eq_left (by omega),
      render_entries_pairs (List.forall₂_take _ hpairs), i32_of_small (by omega)]
    exact ⟨_, _, rfl, rfl⟩

theorem list_renders_same {vs : List Value} (depth : ℕ) (name : String)
    (hholds : Holds d.toHeap obj .arrayList (.elements vs) size)
    (htype : d.get_object_reference_type obj = .ok type_id) (hlimit : opts.child_limit ≤ scan_cap)
    (hinvoked : Invoked d tid obj type_id (.elements vs)) (state : DeepState Reads) :
    ∃ text state',
      render_layout_deep d (some tid) opts depth obj type_id .arrayList name state =
        (.read text, state') ∧
      render_elements_deep d opts depth tid obj type_id name state = (some text, state') := by
  obtain ⟨arr, harr, hvs⟩ := hinvoked
  have hroot : Rooted d.toHeap (some (obj, type_id)) := by
    intro o t hsame
    obtain ⟨rfl, rfl⟩ := Prod.mk.inj (Option.some.inj hsame)
    exact htype
  cases hholds with
  | @backed e s a backing n hread ha hsize hbacking hn =>
    have hlen : (backing.take n).length = n := by
      rw [List.length_take]
      omega
    rw [render_layout_deep, layout_entries]
    dsimp only
    rw [array_list_backing_read hroot hread ha hsize hbacking hn]
    dsimp only
    rw [render_elements_deep, harr]
    dsimp only
    rw [hvs.length, hlen]
    dsimp only
    obtain ⟨text, state', hwalked, hinvoked⟩ :=
      indexed_block_same (some tid) depth (name ++ "[" ++ toString (Int32.ofNat n) ++ "]") hbacking
        hvs hn rfl hlimit state
    rw [hwalked, hinvoked]
    exact ⟨text, state', rfl, rfl⟩

theorem uncounted_disagrees {c : Contents} (hholds : Holds d.toHeap obj layout c size)
    (huncounted : Uncounted layout c) : ¬ Agrees d obj layout c size := by
  rintro ⟨hscan, -⟩
  have hnone : Rooted d.toHeap none := by
    intro o t hsame
    cases hsame
  have hread := hscan none (fun _ => "") "" hnone
  rw [structural_scan_uncounted hnone hholds huncounted] at hread
  cases hread

/-- A collection is shown alike whichever way it is read, unless it is a `ConcurrentHashMap` of more
entries than an `int` counts. -/
theorem walk_agrees (d : Inspector Bytes Reads) (obj : UInt64) (layout : Layout) (c : Contents)
    (size : Int32) (hholds : Holds d.toHeap obj layout c size) :
    Agrees d obj layout c size ↔ ¬ Uncounted layout c := by
  constructor
  · intro hagrees huncounted
    exact uncounted_disagrees hholds huncounted hagrees
  · intro hcounted
    refine ⟨?_, ?_⟩
    · intro known render_key name hroot
      exact structural_scan_read hroot hholds hcounted render_key name
    · intro type_id tid name opts depth state htype hlimit hinvoked
      cases c with
      | elements vs =>
        cases layout with
        | arrayList => exact list_renders_same depth name hholds htype hlimit hinvoked state
        | _ => cases hholds
      | entries es =>
        have hboth := map_renders_same depth name hholds htype hlimit hinvoked state
        cases layout with
        | arrayList => cases hholds
        | _ => exact hboth

/-- The tree bin's nodes, the last first: each object is the node after the one numbered below. -/
def tree_entries : ℕ → List Entry
  | 0 => []
  | n + 1 =>
    (value_object (UInt64.ofNat (n + 1) + 0x200000000), value_object 0x400000000) :: tree_entries n

def tree_heads : List Value := value_object 0x100000002 :: List.replicate (2 ^ 30 - 1) value_null

/-- A `ConcurrentHashMap` of `n` entries, all of them in the tree bin of its first slot. -/
def tree_map (n : ℕ) : Inspector Unit Unit where
  get_object_reference_type := fun id =>
    .ok (if id ≤ 0x80000000 then 3 else if id = 0x100000000 then 1 else 2)
  get_signature := fun _ => .ok "LHost;"
  get_superclass := fun _ => .ok none
  get_interfaces := fun _ => .ok []
  get_fields := fun c => .ok (
    if c = 1 then [⟨1, "table", "[LHost;", 0⟩, ⟨2, "baseCount", "J", 0⟩,
      ⟨3, "counterCells", "[LHost;", 0⟩]
    else if c = 2 then [⟨4, "hash", "I", 0⟩, ⟨5, "first", "LHost;", 0⟩]
    else [⟨6, "key", "LHost;", 0⟩, ⟨7, "val", "LHost;", 0⟩, ⟨8, "next", "LHost;", 0⟩])
  get_methods := fun _ => .ok []
  get_object_values := fun id fids => .ok (fids.map fun f =>
    if f = 1 then ⟨91, .object 0x100000001⟩
    else if f = 2 then ⟨74, .long (Int64.ofNat n)⟩
    else if f = 3 then value_null
    else if f = 4 then value_int (-2)
    else if f = 5 then value_object (UInt64.ofNat n)
    else if f = 6 then value_object (id + 0x200000000)
    else if f = 7 then value_object 0x400000000
    else value_object (id - 1))
  get_array_length := fun _ => .ok (Int32.ofNat tree_heads.length)
  get_array_values := fun _ i k =>
    .ok ((tree_heads.drop i.toNatClampNeg).take k.toNatClampNeg)
  get_string_value := fun _ => .error "no reply"
  invoke_method := fun _ _ _ _ _ => .error "no reply"
  extend_committed := fun reads _ => reads
  render_node := fun _ _ _ _ state => ("…", state)

theorem tree_linked (n : ℕ) {k : ℕ} (hk : k ≤ 2 ^ 31) :
    Linked (tree_map n).toHeap "val" "next" (as_object_id (value_object (UInt64.ofNat k)))
      (tree_entries k) := by
  induction k with
  | zero => exact .nil
  | succ k ih =>
    have hsmall : (UInt64.ofNat (k + 1)).toNat = k + 1 :=
      UInt64.toNat_ofNat_of_lt (show k + 1 < 2 ^ 64 by omega)
    have hnode : UInt64.ofNat (k + 1) ≤ 0x80000000 := by
      rw [UInt64.le_iff_toNat_le, hsmall]
      exact hk
    have hsome : UInt64.ofNat (k + 1) ≠ 0 := by
      intro hzero
      rw [hzero] at hsmall
      cases hsmall
    have hbefore : UInt64.ofNat (k + 1) - 1 = UInt64.ofNat k := by
      rw [UInt64.ofNat_add]
      exact UInt64.add_sub_cancel _ _
    have hid : as_object_id (value_object (UInt64.ofNat (k + 1))) = some (UInt64.ofNat (k + 1)) :=
      if_neg hsome
    have htype : type_of (tree_map n).toHeap none (UInt64.ofNat (k + 1)) = some 3 := by
      show some (if UInt64.ofNat (k + 1) ≤ 0x80000000 then 3
        else if UInt64.ofNat (k + 1) = 0x100000000 then 1 else 2) = some 3
      rw [if_pos hnode]
    have hread : MapWalks.read (tree_map n).toHeap none (UInt64.ofNat (k + 1))
        ["key", "val", "next"] = some [value_object (UInt64.ofNat (k + 1) + 0x200000000),
          value_object 0x400000000, value_object (UInt64.ofNat (k + 1) - 1)] := by
      unfold MapWalks.read
      rw [htype]
      rfl
    rw [hbefore] at hread
    rw [hid]
    exact .cons hread (ih (by omega))

theorem tree_entries_length (n : ℕ) : (tree_entries n).length = n := by
  induction n with
  | zero => rfl
  | succ n ih => rw [tree_entries, List.length_cons, ih]

theorem vacant_bins (h : Heap) (k : ℕ) :
    List.Forall₂ (ChmBin h) (List.replicate k value_null) (List.replicate k []) := by
  induction k with
  | zero => exact .nil
  | succ k ih => exact .cons (.vacant rfl) ih

theorem tree_table (n : ℕ) : ArrayAt (tree_map n).toHeap 0x100000001 tree_heads := by
  have hbound : tree_heads.length < 2 ^ 31 := by
    rw [tree_heads, List.length_cons, List.length_replicate]
    omega
  refine ⟨hbound, rfl, ?_⟩
  intro i k hik
  show Except.ok ((tree_heads.drop (Int32.ofNat i).toNatClampNeg).take
    (Int32.ofNat k).toNatClampNeg) = _
  rw [Int32.toNatClampNeg_ofNat_of_lt (by omega), Int32.toNatClampNeg_ofNat_of_lt (by omega)]

theorem tree_map_holds (hn : n ≤ 2 ^ 31) :
    Holds (tree_map n).toHeap 0x100000000 .concurrentHashMap (.entries (tree_entries n))
      (size_of_count (Int64.ofNat n)) := by
  have hbins : List.Forall₂ (ChmBin (tree_map n).toHeap) tree_heads
      (tree_entries n :: List.replicate (2 ^ 30 - 1) []) := by
    refine .cons ?_ (vacant_bins _ _)
    exact .tree rfl rfl rfl rfl (tree_linked n hn)
  have hflat : (tree_entries n :: List.replicate (2 ^ 30 - 1) []).flatten = tree_entries n := by
    rw [List.flatten_cons, List.flatten_replicate_nil, List.append_nil]
  have htotal : (Int64.ofNat n).toInt = (tree_entries n).length := by
    rw [tree_entries_length]
    exact Int64.toInt_ofNat_of_lt (by omega)
  rw [← hflat] at htotal ⊢
  exact .concurrent rfl rfl (tree_table n) hbins (.base rfl rfl rfl) htotal

theorem walk_agrees_small : Agrees (tree_map 9) 0x100000000 .concurrentHashMap
      (.entries (tree_entries 9)) 9 ↔
    ¬ Uncounted .concurrentHashMap (.entries (tree_entries 9)) :=
  walk_agrees (tree_map 9) 0x100000000 .concurrentHashMap (.entries (tree_entries 9)) 9
    (tree_map_holds (by omega))

/-- A map of 2³¹ entries, whose `size()` is the largest `int`, is not scanned. -/
theorem large_map_declined :
    Holds (tree_map (2 ^ 31)).toHeap 0x100000000 .concurrentHashMap
        (.entries (tree_entries (2 ^ 31))) Int32.maxValue ∧
      structural_scan (tree_map (2 ^ 31)).toHeap none (fun _ => "…") 0x100000000
        .concurrentHashMap "m" = .ok (.declined uncounted_reason) ∧
      ¬ Agrees (tree_map (2 ^ 31)) 0x100000000 .concurrentHashMap
        (.entries (tree_entries (2 ^ 31))) Int32.maxValue := by
  have hsize : size_of_count (Int64.ofNat (2 ^ 31)) = Int32.maxValue := by
    decide
  have hholds := tree_map_holds (le_refl (2 ^ 31))
  rw [hsize] at hholds
  have huncounted : Uncounted .concurrentHashMap (.entries (tree_entries (2 ^ 31))) := by
    refine ⟨rfl, ?_⟩
    rw [Contents.values, List.length_map, tree_entries_length]
    decide
  have hnone : Rooted (tree_map (2 ^ 31)).toHeap none := by
    intro o t hsame
    cases hsame
  exact ⟨hholds, structural_scan_uncounted hnone hholds huncounted _ _,
    uncounted_disagrees hholds huncounted⟩

end Agreement

end JavaDebug.DeepRenders
