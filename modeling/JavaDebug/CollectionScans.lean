import JavaDebug.MapReads

/-!
Collections scanned by their fields alone: the bins of a table chunk by chunk,
the `after` links of a linked map, the backing array of a list, at most
`scan_cap` of them. `Holds` says what a collection at rest holds, in the order
that its iterator yields it, and `structural_scan_read` what a scan then reads.
-/
namespace JavaDebug.CollectionScans

open Jdwp WireReader JavaValues MapWalks
  MapReads

def SUBSCRIPT_SCAN_CAP : Int32 := 1000

def scan_cap : ℕ := 1000

def TABLE_CHUNK : ℕ := 4096

abbrev Entry := Value × Value

def Walked.map {α β : Type} (f : α → β) : Walked α → Walked β
  | .read v => .read (f v)
  | .declined why => .declined why

structure Scan where
  values : List Value
  keys : List String
  len : Int32
  name : String
  deriving DecidableEq

def as_long (v : Value) : Option Int64 :=
  match v.data with
  | .long n => some n
  | _ => none

section Scans

variable (d : Heap) (known : Option (UInt64 × ClassId))

/-- One bin's `next` chain after what was collected before it. -/
def bin_collect (value_field : String) (cap : ℕ) :
    ℕ → Option UInt64 → List Entry → Walked (List Entry)
  | _, none, out => .read out
  | 0, some _, out => if cap ≤ out.length then .read out else .declined bin_guard_reason
  | guard + 1, some node, out =>
    if cap ≤ out.length then .read out
    else
      match read d known node ["key", value_field, "next"] with
      | none => .declined (node_shape_reason value_field)
      | some nf =>
        bin_collect value_field cap guard (nf[2]?.bind as_object_id)
          (out ++ [(nf[0]?.getD value_null, nf[1]?.getD value_null)])

/-- The bins of a chunk, each from its head. -/
def collect_heads (collect : Value → List Entry → Walked (List Entry)) (cap : ℕ) :
    List Value → List Entry → Walked (List Entry)
  | [], out => .read out
  | head :: heads, out =>
    if cap ≤ out.length then .read out
    else
      match collect head out with
      | .declined why => .declined why
      | .read out => collect_heads collect cap heads out

def hash_collect_bin (cap : ℕ) (head : Value) (out : List Entry) : Walked (List Entry) :=
  bin_collect d known "value" cap BIN_CHAIN_GUARD (as_object_id head) out

def chm_resizing_reason : String :=
  "one of its bins had already been moved by a resize running now, and a scan spanning both " ++
    "tables would double-count or lose entries"

def chm_collect_bin (cap : ℕ) (head : Value) (out : List Entry) : Walked (List Entry) :=
  match as_object_id head with
  | none => .read out
  | some head_id =>
    match chm_bin d known head_id with
    | .declined why => .declined why
    | .read .empty => .read out
    | .read (.forward _) => .declined chm_resizing_reason
    | .read (.chain start) => bin_collect d known "val" cap BIN_CHAIN_GUARD start out

def chm_collect_bins (cap : ℕ) (heads : List Value) (out : List Entry) : Walked (List Entry) :=
  collect_heads (chm_collect_bin d known cap) cap heads out

/-- The table from a slot on, a chunk at a time, until the cap is reached. -/
def table_scan (collect : List Value → List Entry → Walked (List Entry)) (cap : ℕ) (table : UInt64)
    (n slot : ℕ) (out : List Entry) : Except String (Walked (List Entry)) :=
  if _h : slot < n ∧ out.length < cap then
    let chunk := min TABLE_CHUNK (n - slot)
    match d.get_array_values table (Int32.ofNat slot) (Int32.ofNat chunk) with
    | .error e => .error ("Failed to read the map's bins: " ++ e)
    | .ok heads =>
      match collect heads out with
      | .declined why => .ok (.declined why)
      | .read out => table_scan collect cap table n (slot + chunk) out
  else .ok (.read out)
termination_by n - slot
decreasing_by
  have : 0 < min TABLE_CHUNK (n - slot) := by
    unfold TABLE_CHUNK
    omega
  omega

variable (map : UInt64)

def hash_map_entries : Except String (Walked (List Entry × Int32)) :=
  match map_table d known map ["table", "size"] with
  | .declined why => .ok (.declined why)
  | .read (none, size) => .ok (.read ([], size))
  | .read (some table, size) =>
    match d.get_array_length table with
    | .error e => .error ("Failed to read the map's table: " ++ e)
    | .ok n =>
      (table_scan d (collect_heads (hash_collect_bin d known scan_cap) scan_cap) scan_cap table
        n.toNatClampNeg 0 []).map (Walked.map fun out => (out, size))

/-- At most `left` more entries, from a node on along `after`. -/
def after_walk : ℕ → Option UInt64 → List Entry → Walked (List Entry)
  | 0, _, out => .read out
  | _ + 1, none, out => .read out
  | left + 1, some node, out =>
    match read d known node ["key", "value", "after"] with
    | none =>
      .declined "an entry has no key/value/after, so this is not the layout walked here"
    | some nf =>
      after_walk left (nf[2]?.bind as_object_id)
        (out ++ [(nf[0]?.getD value_null, nf[1]?.getD value_null)])

def linked_map_entries : Except String (Walked (List Entry × Int32)) :=
  match map_table d known map ["head", "size"] with
  | .declined why => .ok (.declined why)
  | .read (head, size) =>
    .ok (Walked.map (fun out => (out, size)) (after_walk d known scan_cap head []))

/-- A cell that is null or unreadable adds nothing. -/
def add_cell (total : Int64) (c : Value) : Int64 :=
  match (as_object_id c).bind fun cid => read d known cid ["value"] with
  | some cf => total + (cf[0]?.bind as_long).getD 0
  | none => total

/-- `sumCount()`, when it is an `i32`. -/
def chm_size : Option Int32 := do
  let f ← read d known map ["baseCount", "counterCells"]
  let base ← f[0]?.bind as_long
  let total ←
    match f[1]?.bind as_object_id with
    | none => some base
    | some cells => do
      let n ← (d.get_array_length cells).toOption
      let vals ← (d.get_array_values cells 0 n).toOption
      some (vals.foldl (add_cell d known) base)
  if max total.toInt 0 ≤ Int32.maxValue.toInt then some (Int32.ofInt (max total.toInt 0)) else none

def uncounted_reason : String :=
  "its baseCount/counterCells could not be read, so a truncated scan could not say how much it " ++
    "left out"

def chm_entries : Except String (Walked (List Entry × Int32)) :=
  match map_table d known map ["table"] with
  | .declined why => .ok (.declined why)
  | .read (none, _) => .ok (.read ([], (chm_size d known map).getD 0))
  | .read (some table, _) =>
    match d.get_array_length table with
    | .error e => .error ("Failed to read the map's table: " ++ e)
    | .ok n =>
      match table_scan d (chm_collect_bins d known scan_cap) scan_cap table n.toNatClampNeg 0 []
        with
      | .error e => .error e
      | .ok (.declined why) => .ok (.declined why)
      | .ok (.read out) =>
        match chm_size d known map with
        | some size => .ok (.read (out, size))
        | none =>
          if scan_cap ≤ out.length then .ok (.declined uncounted_reason)
          else .ok (.read (out, Int32.ofNat out.length))

def array_list_scan (id : UInt64) (name : String) : Except String (Walked Scan) :=
  match array_list_backing d known id with
  | .error e => .error e
  | .ok (.declined why) => .ok (.declined why)
  | .ok (.read (arr, size)) =>
    let take := min size SUBSCRIPT_SCAN_CAP
    match arr with
    | some a =>
      if 0 < take then
        match d.get_array_values a 0 take with
        | .error e => .error ("Failed to read the list's elements: " ++ e)
        | .ok values => .ok (.read ⟨values, [], size, name⟩)
      else .ok (.read ⟨[], [], size, name⟩)
    | none => .ok (.read ⟨[], [], size, name⟩)

/-- The entries of a map; a list has none. -/
def layout_entries (id : UInt64) (layout : Layout) :
    Option (Except String (Walked (List Entry × Int32))) :=
  match layout with
  | .arrayList => none
  | .hashMap => some (hash_map_entries d known id)
  | .linkedHashMap => some (linked_map_entries d known id)
  | .concurrentHashMap => some (chm_entries d known id)

/-- `render_key` is how a key is rendered on the caller's thread. -/
def structural_scan (render_key : Value → String) (id : UInt64) (layout : Layout) (name : String) :
    Except String (Walked Scan) :=
  match layout_entries d known id layout with
  | none => array_list_scan d known id name
  | some entries =>
    entries.map (Walked.map fun e =>
      ⟨e.1.map Prod.snd, e.1.map fun kv => render_key kv.1, e.2, name⟩)

end Scans

section Contents

/-- An array and what is in its slots. -/
structure ArrayAt (h : Heap) (arr : UInt64) (elems : List Value) : Prop where
  bounded : elems.length < 2 ^ 31
  length : h.get_array_length arr = .ok (Int32.ofNat elems.length)
  values : ∀ i k, i + k ≤ elems.length →
    h.get_array_values arr (Int32.ofNat i) (Int32.ofNat k) = .ok ((elems.drop i).take k)

/-- The entries that a field of their nodes links from a start. -/
inductive Linked (h : Heap) (value_field link : String) : Option UInt64 → List Entry → Prop
  | nil : Linked h value_field link none []
  | cons {id : UInt64} {k v next : Value} {rest : List Entry} :
      read h none id ["key", value_field, link] = some [k, v, next] →
      Linked h value_field link (as_object_id next) rest →
      Linked h value_field link (some id) ((k, v) :: rest)

def HashBin (h : Heap) (head : Value) (es : List Entry) : Prop :=
  Linked h "value" "next" (as_object_id head) es

/-- A bin of a `ConcurrentHashMap` of which no resize is in progress. -/
inductive ChmBin (h : Heap) : Value → List Entry → Prop
  | vacant {head : Value} : as_object_id head = none → ChmBin h head []
  | plain {head v : Value} {id : UInt64} {of_head : Int32} {es : List Entry} :
      as_object_id head = some id → read h none id ["hash"] = some [v] →
      as_int v = some of_head → of_head ∉ [CHM_TREEBIN, CHM_MOVED, CHM_RESERVED] →
      Linked h "val" "next" (some id) es → ChmBin h head es
  | tree {head v first : Value} {id : UInt64} {es : List Entry} :
      as_object_id head = some id → read h none id ["hash"] = some [v] →
      as_int v = some CHM_TREEBIN → read h none id ["first"] = some [first] →
      Linked h "val" "next" (as_object_id first) es → ChmBin h head es
  | reserved {head v : Value} {id : UInt64} :
      as_object_id head = some id → read h none id ["hash"] = some [v] →
      as_int v = some CHM_RESERVED → ChmBin h head []

inductive CellAt (h : Heap) : Value → Int64 → Prop
  | vacant {c : Value} : as_object_id c = none → CellAt h c 0
  | counts {c w : Value} {cid : UInt64} {n : Int64} : as_object_id c = some cid →
      read h none cid ["value"] = some [w] → as_long w = some n → CellAt h c n

/-- What the `sumCount()` of a `ConcurrentHashMap` returns. -/
inductive Counted (h : Heap) (obj : UInt64) : Int64 → Prop
  | base {b c : Value} {n : Int64} : read h none obj ["baseCount", "counterCells"] = some [b, c] →
      as_long b = some n → as_object_id c = none → Counted h obj n
  | cells {b c : Value} {n : Int64} {cells : UInt64} {vals : List Value} {ns : List Int64} :
      read h none obj ["baseCount", "counterCells"] = some [b, c] → as_long b = some n →
      as_object_id c = some cells → ArrayAt h cells vals → List.Forall₂ (CellAt h) vals ns →
      Counted h obj (ns.foldl (fun total cell => total + cell) n)

/-- `ConcurrentHashMap.size()`, from `sumCount()`. -/
def size_of_count (total : Int64) : Int32 :=
  Int32.ofInt (max 0 (min total.toInt Int32.maxValue.toInt))

/-- What a collection holds, in the order of its iterator. -/
inductive Contents
  | entries (es : List Entry)
  | elements (vs : List Value)

def Contents.keys (c : Contents) : List Value :=
  match c with
  | .entries es => es.map Prod.fst
  | .elements _ => []

def Contents.values (c : Contents) : List Value :=
  match c with
  | .entries es => es.map Prod.snd
  | .elements vs => vs

/-- A collection at rest, its contents and its `size()`: a table is iterated slot by slot and each
bin along `next`, a linked map along `after`, and a list over its backing array. -/
inductive Holds (h : Heap) (obj : UInt64) : Layout → Contents → Int32 → Prop
  | unallocated {t s : Value} : read h none obj ["table", "size"] = some [t, s] →
      as_object_id t = none → as_int s = some 0 → Holds h obj .hashMap (.entries []) 0
  | hashed {t s : Value} {table : UInt64} {heads : List Value} {bins : List (List Entry)} :
      read h none obj ["table", "size"] = some [t, s] → as_object_id t = some table →
      as_int s = some (Int32.ofNat bins.flatten.length) → ArrayAt h table heads →
      List.Forall₂ (HashBin h) heads bins →
      Holds h obj .hashMap (.entries bins.flatten) (Int32.ofNat bins.flatten.length)
  | linked {hd s : Value} {es : List Entry} : read h none obj ["head", "size"] = some [hd, s] →
      as_int s = some (Int32.ofNat es.length) → Linked h "value" "after" (as_object_id hd) es →
      Holds h obj .linkedHashMap (.entries es) (Int32.ofNat es.length)
  | chm_unallocated {t : Value} : read h none obj ["table"] = some [t] →
      as_object_id t = none → Counted h obj 0 → Holds h obj .concurrentHashMap (.entries []) 0
  | concurrent {t : Value} {table : UInt64} {heads : List Value} {bins : List (List Entry)}
      {total : Int64} : read h none obj ["table"] = some [t] → as_object_id t = some table →
      ArrayAt h table heads → List.Forall₂ (ChmBin h) heads bins → Counted h obj total →
      total.toInt = bins.flatten.length →
      Holds h obj .concurrentHashMap (.entries bins.flatten) (size_of_count total)
  | backed {e s : Value} {arr : UInt64} {backing : List Value} {n : ℕ} :
      read h none obj ["elementData", "size"] = some [e, s] → as_object_id e = some arr →
      as_int s = some (Int32.ofNat n) → ArrayAt h arr backing → n ≤ backing.length →
      Holds h obj .arrayList (.elements (backing.take n)) (Int32.ofNat n)

end Contents

section Capping

variable {cap : ℕ} {out es fs : List Entry}

/-- What is collected of some entries, the cap being for all that is collected. -/
def capped (cap : ℕ) (out es : List Entry) : List Entry := out ++ es.take (cap - out.length)

theorem capped_full (h : cap ≤ out.length) : capped cap out es = out := by
  have hzero : cap - out.length = 0 := by omega
  rw [capped, hzero, List.take_zero, List.append_nil]

theorem capped_nil : capped cap out [] = out := by
  rw [capped, List.take_nil, List.append_nil]

theorem capped_append : capped cap (capped cap out es) fs = capped cap out (es ++ fs) := by
  unfold capped
  rw [List.take_append, List.length_append, List.length_take, List.append_assoc]
  congr 3
  omega

theorem capped_cons {e : Entry} (h : ¬ cap ≤ out.length) :
    capped cap (out ++ [e]) es = capped cap out (e :: es) := by
  have hone : capped cap out [e] = out ++ [e] := by
    rw [capped, List.take_of_length_le]
    rw [List.length_singleton]
    omega
  rw [← hone, capped_append, List.singleton_append]

end Capping

section Collecting

variable {h : Heap} {known : Option (UInt64 × ClassId)} {cap : ℕ}

variable {es : List Entry}

theorem bin_collect_linked (hroot : Rooted h known) {value_field : String} {start : Option UInt64}
    (hlinked : Linked h value_field "next" start es) {guard : ℕ} {out : List Entry}
    (hguard : cap ≤ guard + out.length) :
    bin_collect h known value_field cap guard start out = .read (capped cap out es) := by
  induction hlinked generalizing guard out with
  | nil =>
    rw [bin_collect, capped_nil]
  | @cons id k v next rest hread hrest ih =>
    by_cases hfull : cap ≤ out.length
    · rw [capped_full hfull]
      cases guard with
      | zero => exact if_pos hfull
      | succ guard => exact if_pos hfull
    · cases guard with
      | zero => omega
      | succ guard =>
        rw [bin_collect, if_neg hfull, read_rooted hroot, hread]
        dsimp only [List.getElem?_cons_zero, List.getElem?_cons_succ, Option.bind_some,
          Option.getD_some]
        rw [← capped_cons hfull]
        apply ih
        rw [List.length_append, List.length_singleton]
        omega

theorem collect_heads_capped {collect : Value → List Entry → Walked (List Entry)}
    {bin : Value → List Entry → Prop} {heads : List Value} {bins : List (List Entry)}
    (hcollect : ∀ head es, bin head es → ∀ out, collect head out = .read (capped cap out es))
    (hbins : List.Forall₂ bin heads bins) (out : List Entry) :
    collect_heads collect cap heads out = .read (capped cap out bins.flatten) := by
  induction hbins generalizing out with
  | nil =>
    rw [collect_heads, List.flatten_nil, capped_nil]
  | @cons head es heads bins hbin _ ih =>
    rw [collect_heads]
    split
    · rename_i hfull
      rw [capped_full hfull]
    · rw [hcollect head es hbin out]
      dsimp only
      rw [ih, capped_append, List.flatten_cons]

theorem table_scan_capped {collect : List Value → List Entry → Walked (List Entry)}
    {bin : Value → List Entry → Prop} {table : UInt64} {heads : List Value}
    {bins : List (List Entry)} (harr : ArrayAt h table heads)
    (hcollect : ∀ some_heads some_bins, List.Forall₂ bin some_heads some_bins →
      ∀ out, collect some_heads out = .read (capped cap out some_bins.flatten))
    (hbins : List.Forall₂ bin heads bins) (slot : ℕ) (out : List Entry) :
    table_scan h collect cap table heads.length slot out =
      .ok (.read (capped cap out (bins.drop slot).flatten)) := by
  induction hleft : heads.length - slot using Nat.strong_induction_on generalizing slot out with
  | _ left ih =>
    rw [table_scan]
    split
    · rename_i hmore
      obtain ⟨hslot, hroom⟩ := hmore
      generalize hchunk : min TABLE_CHUNK (heads.length - slot) = chunk
      have hbounds : 0 < chunk ∧ slot + chunk ≤ heads.length := by
        unfold TABLE_CHUNK at hchunk
        omega
      dsimp only
      rw [harr.values slot chunk hbounds.2]
      dsimp only
      rw [hcollect _ ((bins.drop slot).take chunk)
        (List.forall₂_take _ (List.forall₂_drop _ hbins))]
      dsimp only
      rw [ih _ (by omega) (slot + chunk) _ rfl, capped_append, ← List.flatten_append,
        ← List.drop_drop, List.take_append_drop]
    · rename_i hdone
      by_cases hslot : slot < heads.length
      · rw [capped_full (by omega)]
      · rw [List.drop_eq_nil_of_le (by rw [← hbins.length_eq]; omega), List.flatten_nil, capped_nil]

theorem hash_collect_bin_capped (hroot : Rooted h known) {head : Value} (hbin : HashBin h head es)
    (out : List Entry) :
    hash_collect_bin h known scan_cap head out = .read (capped scan_cap out es) := by
  apply bin_collect_linked hroot hbin
  unfold scan_cap BIN_CHAIN_GUARD
  omega

theorem chm_collect_bin_capped (hroot : Rooted h known) {head : Value} (hbin : ChmBin h head es)
    (out : List Entry) :
    chm_collect_bin h known scan_cap head out = .read (capped scan_cap out es) := by
  have hguard : scan_cap ≤ BIN_CHAIN_GUARD + out.length := by
    unfold scan_cap BIN_CHAIN_GUARD
    omega
  have hopen : ∀ {id : UInt64} {names : List String} {vs : List Value},
      read h none id names = some vs → read h known id names = some vs := fun hread => by
    rw [read_rooted hroot, hread]
  unfold chm_collect_bin
  cases hbin with
  | vacant hnull => rw [hnull, capped_nil]
  | plain hid hread hof hno hlinked =>
    rw [hid]
    dsimp only
    rw [(MapReads.chm_bin_head (hopen hread) hof).1 hno]
    exact bin_collect_linked hroot hlinked hguard
  | tree hid hread hof hfirst hlinked =>
    rw [hid]
    dsimp only
    rw [(MapReads.chm_bin_head (hopen hread) hof).2.2.1 _ rfl (hopen hfirst)]
    exact bin_collect_linked hroot hlinked hguard
  | reserved hid hread hof =>
    rw [hid]
    dsimp only
    rw [(MapReads.chm_bin_head (hopen hread) hof).2.1 rfl, capped_nil]

theorem after_walk_linked (hroot : Rooted h known) {start : Option UInt64}
    (hlinked : Linked h "value" "after" start es) (left : ℕ) (out : List Entry) :
    after_walk h known left start out = .read (out ++ es.take left) := by
  induction hlinked generalizing left out with
  | nil =>
    rw [List.take_nil, List.append_nil]
    cases left with
    | zero => rfl
    | succ left => rfl
  | @cons id k v next rest hread hrest ih =>
    cases left with
    | zero => rw [after_walk, List.take_zero, List.append_nil]
    | succ left =>
      rw [after_walk, read_rooted hroot, hread]
      dsimp only [List.getElem?_cons_zero, List.getElem?_cons_succ, Option.bind_some,
        Option.getD_some]
      rw [ih, List.append_assoc, List.take_succ_cons, List.singleton_append]

end Collecting

section Counting

variable {h : Heap} {known : Option (UInt64 × ClassId)} {obj : UInt64}

theorem map_table_read (hroot : Rooted h known) {names : List String} {a b : Value} {n : Int32}
    (hread : read h none obj names = some [a, b]) (hn : as_int b = some n) :
    map_table h known obj names = .read (as_object_id a, n) := by
  rw [map_table, read_rooted hroot, hread]
  dsimp only [List.getElem?_cons_zero, List.getElem?_cons_succ, Option.bind_some]
  rw [hn]
  rfl

theorem map_table_alone (hroot : Rooted h known) {names : List String} {a : Value}
    (hread : read h none obj names = some [a]) :
    map_table h known obj names = .read (as_object_id a, 0) := by
  rw [map_table, read_rooted hroot, hread]
  rfl

theorem array_size {arr : UInt64} {elems : List Value} (harr : ArrayAt h arr elems) :
    (Int32.ofNat elems.length).toNatClampNeg = elems.length :=
  Int32.toNatClampNeg_ofNat_of_lt harr.bounded

theorem add_cells (hroot : Rooted h known) {vals : List Value} {ns : List Int64}
    (hcells : List.Forall₂ (CellAt h) vals ns) (total : Int64) :
    vals.foldl (add_cell h known) total = ns.foldl (fun total cell => total + cell) total := by
  induction hcells generalizing total with
  | nil => rfl
  | @cons c n vals ns hcell _ ih =>
    have hadd : add_cell h known total c = total + n := by
      unfold add_cell
      cases hcell with
      | vacant hnull =>
        rw [hnull]
        exact (Int64.add_zero total).symm
      | counts hid hread hlong =>
        rw [hid, Option.bind_some, read_rooted hroot, hread]
        dsimp only [List.getElem?_cons_zero, Option.bind_some]
        rw [hlong]
        rfl
    rw [List.foldl_cons, List.foldl_cons, hadd]
    exact ih _

theorem chm_size_counted (hroot : Rooted h known) {total : Int64} (hcount : Counted h obj total) :
    chm_size h known obj =
      if max total.toInt 0 ≤ Int32.maxValue.toInt then some (Int32.ofInt (max total.toInt 0))
      else none := by
  unfold chm_size
  cases hcount with
  | base hread hbase hnull =>
    rw [read_rooted hroot, hread]
    dsimp only [Option.bind_eq_bind, Option.bind_some, List.getElem?_cons_zero,
      List.getElem?_cons_succ]
    rw [hbase, hnull]
    rfl
  | @cells b c n cells vals ns hread hbase hcells harr hvals =>
    have hlen : h.get_array_values cells 0 (Int32.ofNat vals.length) = .ok vals := by
      have hall := harr.values 0 vals.length (by omega)
      rwa [List.drop_zero, List.take_length] at hall
    rw [read_rooted hroot, hread]
    dsimp only [Option.bind_eq_bind, Option.bind_some, List.getElem?_cons_zero,
      List.getElem?_cons_succ]
    rw [hbase, hcells]
    dsimp only [Option.bind_some]
    rw [harr.length]
    dsimp only [Except.toOption, Option.bind_some]
    rw [hlen]
    dsimp only [Except.toOption, Option.bind_some]
    rw [add_cells hroot hvals]

end Counting

section Scanning

variable {h : Heap} {known : Option (UInt64 × ClassId)} {obj : UInt64}

/-- A `ConcurrentHashMap` of more entries than an `int` counts. -/
def Uncounted (layout : Layout) (c : Contents) : Prop :=
  layout = .concurrentHashMap ∧ Int32.maxValue.toInt < c.values.length

variable {n : ℕ}

theorem ofNat_le {m : ℕ} (hmn : m ≤ n) (hn : n < 2 ^ 31) : Int32.ofNat m ≤ Int32.ofNat n := by
  rw [Int32.le_iff_toInt_le, Int32.toInt_ofNat_of_lt (by omega), Int32.toInt_ofNat_of_lt hn]
  omega

theorem capped_whole (es : List Entry) : capped scan_cap [] es = es.take scan_cap := by
  rw [capped, List.nil_append, List.length_nil, Nat.sub_zero]

variable {heads : List Value} {bins : List (List Entry)} {size : Int32} {layout : Layout}

variable {table : UInt64} {s : Value}

theorem table_scan_whole {collect : Value → List Entry → Walked (List Entry)}
    {bin : Value → List Entry → Prop} (harr : ArrayAt h table heads)
    (hcollect : ∀ head es, bin head es → ∀ out, collect head out = .read (capped scan_cap out es))
    (hbins : List.Forall₂ bin heads bins) :
    table_scan h (collect_heads collect scan_cap) scan_cap table
        (Int32.ofNat heads.length).toNatClampNeg 0 [] =
      .ok (.read (bins.flatten.take scan_cap)) := by
  have hchunks : ∀ some_heads some_bins, List.Forall₂ bin some_heads some_bins → ∀ out,
      collect_heads collect scan_cap some_heads out =
        .read (capped scan_cap out some_bins.flatten) := by
    intro some_heads some_bins hsome out
    exact collect_heads_capped hcollect hsome out
  rw [array_size harr, table_scan_capped harr hchunks hbins, List.drop_zero, capped_whole]

variable (hroot : Rooted h known)

include hroot

theorem hash_map_entries_read {t : Value} (hread : read h none obj ["table", "size"] = some [t, s])
    (htable : as_object_id t = some table) (hsize : as_int s = some size)
    (harr : ArrayAt h table heads) (hbins : List.Forall₂ (HashBin h) heads bins) :
    hash_map_entries h known obj = .ok (.read (bins.flatten.take scan_cap, size)) := by
  rw [hash_map_entries, map_table_read hroot hread hsize, htable]
  dsimp only
  rw [harr.length]
  dsimp only
  rw [table_scan_whole harr (fun _ _ hbin => hash_collect_bin_capped hroot hbin) hbins]
  rfl

theorem chm_entries_read {t : Value} {total : Int64} (hread : read h none obj ["table"] = some [t])
    (htable : as_object_id t = some table) (harr : ArrayAt h table heads)
    (hbins : List.Forall₂ (ChmBin h) heads bins) (hcount : Counted h obj total)
    (htotal : total.toInt = bins.flatten.length) :
    chm_entries h known obj =
      if Int32.maxValue.toInt < bins.flatten.length then .ok (.declined uncounted_reason)
      else .ok (.read (bins.flatten.take scan_cap, size_of_count total)) := by
  have hmax : Int32.maxValue.toInt = 2147483647 := by
    decide
  have hsize := chm_size_counted hroot hcount
  rw [htotal, max_eq_left (Int.natCast_nonneg _)] at hsize
  rw [chm_entries, map_table_alone hroot hread, htable]
  dsimp only
  rw [harr.length]
  dsimp only
  have hscan := table_scan_whole harr (fun _ _ hbin => chm_collect_bin_capped hroot hbin) hbins
  unfold chm_collect_bins
  rw [hscan]
  dsimp only
  by_cases hbig : Int32.maxValue.toInt < bins.flatten.length
  · rw [if_pos hbig, hsize, if_neg (by omega)]
    have hfull : scan_cap ≤ (bins.flatten.take scan_cap).length := by
      rw [List.length_take]
      unfold scan_cap
      omega
    exact if_pos hfull
  · rw [if_neg hbig, hsize, if_pos (by omega)]
    dsimp only
    unfold size_of_count
    rw [htotal, min_eq_left (by omega), max_eq_right (Int.natCast_nonneg _)]

theorem array_list_backing_read {e : Value} {arr : UInt64} {backing : List Value}
    (hread : read h none obj ["elementData", "size"] = some [e, s])
    (harr : as_object_id e = some arr) (hsize : as_int s = some (Int32.ofNat n))
    (hbacking : ArrayAt h arr backing) (hn : n ≤ backing.length) :
    array_list_backing h known obj = .ok (.read (some arr, Int32.ofNat n)) := by
  have hbound := hbacking.bounded
  have hmin : min (Int32.ofNat n) (Int32.ofNat backing.length) = Int32.ofNat n :=
    if_pos (ofNat_le hn hbound)
  have hmax : max 0 (Int32.ofNat n) = Int32.ofNat n :=
    if_pos (ofNat_le (Nat.zero_le n) (by omega))
  rw [array_list_backing, map_table_read hroot hread hsize, harr]
  dsimp only
  rw [hbacking.length]
  dsimp only
  rw [hmin, hmax]

theorem array_list_scan_read {e : Value} {arr : UInt64} {backing : List Value} (name : String)
    (hread : read h none obj ["elementData", "size"] = some [e, s])
    (harr : as_object_id e = some arr) (hsize : as_int s = some (Int32.ofNat n))
    (hbacking : ArrayAt h arr backing) (hn : n ≤ backing.length) :
    array_list_scan h known obj name =
      .ok (.read ⟨(backing.take n).take scan_cap, [], Int32.ofNat n, name⟩) := by
  have hbound := hbacking.bounded
  have htake : min (Int32.ofNat n) SUBSCRIPT_SCAN_CAP = Int32.ofNat (min n scan_cap) := by
    by_cases hsmall : n ≤ scan_cap
    · rw [min_eq_left hsmall]
      exact if_pos (ofNat_le hsmall (by decide))
    · have hnot : ¬ Int32.ofNat n ≤ SUBSCRIPT_SCAN_CAP := by
        rw [Int32.le_iff_toInt_le, Int32.toInt_ofNat_of_lt (by omega)]
        have hcap : SUBSCRIPT_SCAN_CAP.toInt = 1000 := by
          decide
        unfold scan_cap at hsmall
        omega
      rw [min_eq_right (by omega)]
      exact if_neg hnot
  rw [array_list_scan, array_list_backing_read hroot hread harr hsize hbacking hn]
  dsimp only
  rw [htake]
  have hread := hbacking.values 0 (min n scan_cap) (by omega)
  rw [List.drop_zero] at hread
  have htwice : (backing.take n).take scan_cap = backing.take (min n scan_cap) := by
    rw [List.take_take, min_comm]
  split
  · have hzero : (0 : Int32) = Int32.ofNat 0 := rfl
    rw [hzero, hread, htwice]
  · rename_i hnone
    have hempty : min n scan_cap = 0 := by
      by_contra hsome
      apply hnone
      have hsmall : min n scan_cap < 2 ^ 31 := by omega
      rw [Int32.lt_iff_toInt_lt, Int32.toInt_ofNat_of_lt hsmall]
      have hzero : (0 : Int32).toInt = 0 := by
        decide
      omega
    rw [htwice, hempty, List.take_zero]

theorem layout_entries_read {es : List Entry} (hholds : Holds h obj layout (.entries es) size)
    (hcounted : ¬ Uncounted layout (.entries es)) :
    layout_entries h known obj layout = some (.ok (.read (es.take scan_cap, size))) := by
  cases hholds with
  | unallocated hread hnull hsize =>
    rw [layout_entries, hash_map_entries, map_table_read hroot hread hsize, hnull]
    rfl
  | hashed hread htable hsize harr hbins =>
    rw [layout_entries, hash_map_entries_read hroot hread htable hsize harr hbins]
  | linked hread hsize hlinked =>
    rw [layout_entries, linked_map_entries, map_table_read hroot hread hsize]
    dsimp only
    rw [after_walk_linked hroot hlinked]
    rfl
  | chm_unallocated hread hnull hcount =>
    rw [layout_entries, chm_entries, map_table_alone hroot hread, hnull]
    dsimp only
    rw [chm_size_counted hroot hcount]
    rfl
  | @concurrent t table heads bins total hread htable harr hbins hcount htotal =>
    have hfits : ¬ Int32.maxValue.toInt < bins.flatten.length := by
      intro hbig
      apply hcounted
      refine ⟨rfl, ?_⟩
      rw [Contents.values, List.length_map]
      exact hbig
    rw [layout_entries, chm_entries_read hroot hread htable harr hbins hcount htotal,
      if_neg hfits]

/-- A scan reads what a collection holds up to the cap, each value beside its key, and counts it. -/
theorem structural_scan_read {c : Contents} (hholds : Holds h obj layout c size)
    (hcounted : ¬ Uncounted layout c) (render_key : Value → String) (name : String) :
    structural_scan h known render_key obj layout name =
      .ok (.read ⟨c.values.take scan_cap, (c.keys.take scan_cap).map render_key, size, name⟩) := by
  unfold structural_scan
  cases c with
  | entries es =>
    rw [layout_entries_read hroot hholds hcounted, Contents.values, Contents.keys,
      ← List.map_take, ← List.map_take, List.map_map]
    rfl
  | elements vs =>
    cases hholds with
    | backed hread harr hsize hbacking hn =>
      exact array_list_scan_read hroot name hread harr hsize hbacking hn

theorem structural_scan_uncounted {c : Contents} (hholds : Holds h obj layout c size)
    (huncounted : Uncounted layout c) (render_key : Value → String) (name : String) :
    structural_scan h known render_key obj layout name = .ok (.declined uncounted_reason) := by
  obtain ⟨rfl, hbig⟩ := huncounted
  cases hholds with
  | chm_unallocated hread hnull hcount =>
    exact absurd hbig (by decide)
  | concurrent hread htable harr hbins hcount htotal =>
    rw [Contents.values, List.length_map] at hbig
    rw [structural_scan, layout_entries,
      chm_entries_read hroot hread htable harr hbins hcount htotal, if_pos hbig]
    rfl

end Scanning

end JavaDebug.CollectionScans
