import JavaDebug.MapWalks

/-!
What a map read by its fields answers, against what `Map.get` returns. The map
is described on a debuggee all of whose reads succeed; the walk asks one that
answers the same or fails. `map_read_right` says when the answer is right: the
one failure that is not reported is that of comparing the entry's own key.
-/
namespace JavaDebug.MapReads

open Jdwp WireReader JavaValues KeyHashes
  MapWalks

section Answering

/-- What the first read answers, so does the second. -/
def Within {α : Type} (a b : Except String α) : Prop := ∀ v, a = .ok v → b = .ok v

/-- A debuggee that gives another's answers, or fails. -/
structure Answers (d h : Heap) : Prop where
  types : ∀ id, Within (d.get_object_reference_type id) (h.get_object_reference_type id)
  signatures : ∀ c, Within (d.get_signature c) (h.get_signature c)
  superclasses : ∀ c, Within (d.get_superclass c) (h.get_superclass c)
  fields : ∀ c, Within (d.get_fields c) (h.get_fields c)
  values : ∀ id fids, Within (d.get_object_values id fids) (h.get_object_values id fids)
  lengths : ∀ a, Within (d.get_array_length a) (h.get_array_length a)
  elements : ∀ a i n, Within (d.get_array_values a i n) (h.get_array_values a i n)
  strings : ∀ id, Within (d.get_string_value id) (h.get_string_value id)

theorem Within.option {α : Type} {a b : Except String α} (h : Within a b) {v : α}
    (ha : a.toOption = some v) : b.toOption = some v := by
  cases a with
  | error e => cases ha
  | ok w =>
    obtain rfl := Option.some.inj ha
    rw [h w rfl]
    rfl

theorem Answers.refl (h : Heap) : Answers h h where
  types := fun _ _ hv => hv
  signatures := fun _ _ hv => hv
  superclasses := fun _ _ hv => hv
  fields := fun _ _ hv => hv
  values := fun _ _ _ hv => hv
  lengths := fun _ _ hv => hv
  elements := fun _ _ _ _ hv => hv
  strings := fun _ _ hv => hv

variable {d h : Heap} (hle : Answers d h)
include hle

variable {c : ClassId}

theorem superclass_within {above : ClassId} (hc : superclass_of d.toTypes c = some above) :
    superclass_of h.toTypes c = some above := by
  unfold superclass_of at hc ⊢
  split at hc
  · rename_i hok
    rw [hle.superclasses c _ hok]
    exact hc
  · cases hc

theorem field_walk_within {name : String} {fuel : ℕ} {f : ClassId × FieldInfo}
    (hf : field_walk d.toTypes name none fuel c = .ok (some f)) :
    field_walk h.toTypes name none fuel c = .ok (some f) := by
  induction fuel generalizing c with
  | zero => cases hf
  | succ fuel ih =>
    rw [field_walk] at hf ⊢
    split at hf
    · cases hf
    · rename_i fs hfs
      rw [hle.fields c fs hfs]
      dsimp only
      split at hf
      · exact hf
      · split at hf
        · rename_i above habove
          rw [superclass_within hle habove]
          exact ih hf
        · cases hf

theorem field_id_within {name : String} {fid : ℕ} (hf : field_id d c name = some fid) :
    field_id h c name = some fid := by
  unfold field_id find_field find_field_info at hf ⊢
  cases hw : field_walk d.toTypes name none 50 c with
  | error e =>
    rw [hw] at hf
    cases hf
  | ok found =>
    rw [hw] at hf
    cases found with
    | none => cases hf
    | some f =>
      rw [field_walk_within hle hw]
      exact hf

theorem field_ids_within {names : List String} {fids : List ℕ}
    (hf : names.mapM (field_id d c) = some fids) : names.mapM (field_id h c) = some fids := by
  induction names generalizing fids with
  | nil => exact hf
  | cons name names ih =>
    rw [List.mapM_cons] at hf ⊢
    obtain ⟨fid, hfid, hf⟩ := Option.bind_eq_some_iff.mp hf
    obtain ⟨rest, hrest, hf⟩ := Option.bind_eq_some_iff.mp hf
    rw [field_id_within hle hfid, ih hrest]
    exact hf

theorem type_of_within {known : Option (UInt64 × ClassId)} {obj : UInt64} {t : ClassId}
    (ht : type_of d known obj = some t) : type_of h known obj = some t := by
  unfold type_of at ht ⊢
  split at ht
  · split at ht
    · rename_i heq
      rw [if_pos heq]
      exact ht
    · rename_i hne
      rw [if_neg hne]
      exact (hle.types obj).option ht
  · exact (hle.types obj).option ht

/-- What is read of an object is what the object holds. -/
theorem read_within {known : Option (UInt64 × ClassId)} {obj : UInt64} {names : List String}
    {vals : List Value} (hr : read d known obj names = some vals) :
    read h known obj names = some vals := by
  unfold MapWalks.read at hr ⊢
  obtain ⟨t, ht, hr⟩ := Option.bind_eq_some_iff.mp hr
  obtain ⟨fids, hfids, hr⟩ := Option.bind_eq_some_iff.mp hr
  obtain ⟨vs, hvs, hr⟩ := Option.bind_eq_some_iff.mp hr
  rw [type_of_within hle ht]
  dsimp only [Option.bind_eq_bind, Option.bind_some]
  rw [field_ids_within hle hfids]
  dsimp only [Option.bind_some]
  rw [(hle.values obj fids).option hvs]
  exact hr

end Answering

section Bins

/-- An entry of a map, as its node holds it. -/
structure Node where
  hash : Int32
  key : Value
  value : Value
  deriving DecidableEq

/-- The nodes that `next` links from a start. -/
inductive Chain (d : Heap) (known : Option (UInt64 × ClassId)) (value_field : String) :
    Option UInt64 → List Node → Prop
  | nil : Chain d known value_field none []
  | cons {id : UInt64} {a k v next : Value} {hash : Int32} {rest : List Node} :
      read d known id ["hash", "key", value_field, "next"] = some [a, k, v, next] →
      as_int a = some hash → Chain d known value_field (as_object_id next) rest →
      Chain d known value_field (some id) (⟨hash, k, v⟩ :: rest)

/-- The table's slot for a hash. -/
def Slot (d : Heap) (hash : Int32) (table : UInt64) (head : Value) : Prop :=
  ∃ n, d.get_array_length table = .ok n ∧ 0 < n ∧
    d.get_array_values table ((n - 1) &&& hash) 1 = .ok [head]

/-- The nodes of a hash's bin: behind the slot, in a tree, or in the table that a moved bin is
forwarded to. The count is that of the forwardings. -/
inductive BinAt (d : Heap) (known : Option (UInt64 × ClassId)) (layout : Layout) (hash : Int32) :
    ℕ → UInt64 → List Node → Prop
  | empty_table {table : UInt64} {n : Int32} : d.get_array_length table = .ok n → n ≤ 0 →
      BinAt d known layout hash 0 table []
  | vacant {table : UInt64} {head : Value} : Slot d hash table head → as_object_id head = none →
      BinAt d known layout hash 0 table []
  | chain {table : UInt64} {head : Value} {ns : List Node} : layout ≠ .concurrentHashMap →
      Slot d hash table head → Chain d known "value" (as_object_id head) ns →
      BinAt d known layout hash 0 table ns
  | plain {table id : UInt64} {head v : Value} {of_head : Int32} {ns : List Node} :
      layout = .concurrentHashMap → Slot d hash table head → as_object_id head = some id →
      read d known id ["hash"] = some [v] → as_int v = some of_head →
      of_head ∉ [CHM_TREEBIN, CHM_MOVED, CHM_RESERVED] → Chain d known "val" (some id) ns →
      BinAt d known layout hash 0 table ns
  | tree {table id : UInt64} {head v first : Value} {ns : List Node} :
      layout = .concurrentHashMap → Slot d hash table head → as_object_id head = some id →
      read d known id ["hash"] = some [v] → as_int v = some CHM_TREEBIN →
      read d known id ["first"] = some [first] → Chain d known "val" (as_object_id first) ns →
      BinAt d known layout hash 0 table ns
  | reserved {table id : UInt64} {head v : Value} :
      layout = .concurrentHashMap → Slot d hash table head → as_object_id head = some id →
      read d known id ["hash"] = some [v] → as_int v = some CHM_RESERVED →
      BinAt d known layout hash 0 table []
  | moved {table id next : UInt64} {head v link : Value} {k : ℕ} {ns : List Node} :
      layout = .concurrentHashMap → Slot d hash table head → as_object_id head = some id →
      read d known id ["hash"] = some [v] → as_int v = some CHM_MOVED →
      read d known id ["nextTable"] = some [link] → as_object_id link = some next →
      BinAt d known layout hash k next ns → BinAt d known layout hash (k + 1) table ns

variable {d h : Heap} {known : Option (UInt64 × ClassId)} {value_field : String}

variable {start : Option UInt64} {ns : List Node} {hash : Int32}

theorem chain_within (hle : Answers d h) (hc : Chain d known value_field start ns) :
    Chain h known value_field start ns := by
  induction hc with
  | nil => exact .nil
  | cons hread hash _ ih => exact .cons (read_within hle hread) hash ih

variable {table : UInt64}

theorem slot_within (hle : Answers d h) {head : Value} (hs : Slot d hash table head) :
    Slot h hash table head := by
  obtain ⟨n, hn, hpos, hv⟩ := hs
  exact ⟨n, hle.lengths table n hn, hpos, hle.elements table _ _ _ hv⟩

theorem slot_unique {head other : Value} (hs : Slot h hash table head)
    (ho : Slot h hash table other) : head = other := by
  obtain ⟨n, hn, -, hv⟩ := hs
  obtain ⟨m, hm, -, hw⟩ := ho
  obtain rfl : n = m := Except.ok.inj (hn.symm.trans hm)
  exact (List.cons.inj (Except.ok.inj (hv.symm.trans hw))).1

theorem bin_within (hle : Answers d h) {layout : Layout} {k : ℕ}
    (hb : BinAt d known layout hash k table ns) : BinAt h known layout hash k table ns := by
  induction hb with
  | empty_table hn hle' => exact .empty_table (hle.lengths _ _ hn) hle'
  | vacant hs hnull => exact .vacant (slot_within hle hs) hnull
  | chain hl hs hc => exact .chain hl (slot_within hle hs) (chain_within hle hc)
  | plain hl hs hid hv hof hno hc =>
    exact .plain hl (slot_within hle hs) hid (read_within hle hv) hof hno (chain_within hle hc)
  | tree hl hs hid hv hof hf hc =>
    exact .tree hl (slot_within hle hs) hid (read_within hle hv) hof (read_within hle hf)
      (chain_within hle hc)
  | reserved hl hs hid hv hof =>
    exact .reserved hl (slot_within hle hs) hid (read_within hle hv) hof
  | moved hl hs hid hv hof hlink hnext _ ih =>
    exact .moved hl (slot_within hle hs) hid (read_within hle hv) hof (read_within hle hlink) hnext
      ih

/-- No node of the bin is taken for the key's. -/
def Unmatched (d : Heap) (known : Option (UInt64 × ClassId)) (hash : Int32) (key : ArgLit)
    (ns : List Node) : Prop :=
  ∀ n ∈ ns, n.hash = hash → key_matches d known n.key key = false

/-- A bin's answer is a node taken for the key's, or null after all of them. -/
def Found (d : Heap) (known : Option (UInt64 × ClassId)) (hash : Int32) (key : ArgLit)
    (ns : List Node) (v : Value) : Prop :=
  ∃ n ∈ ns, n.hash = hash ∧ key_matches d known n.key key = true ∧ v = n.value

theorem bin_walk_read (hle : Answers d h) {key : ArgLit} {guard : ℕ} {v : Value}
    (hc : Chain h known value_field start ns)
    (hr : bin_walk d known hash key value_field guard start = .read v) :
    Found d known hash key ns v ∨ v = value_null ∧ Chain d known value_field start ns ∧
      ns.length ≤ guard ∧ Unmatched d known hash key ns := by
  induction hc generalizing guard with
  | nil =>
    have hv : v = value_null := by
      cases guard with
      | zero => exact (Walked.read.inj hr).symm
      | succ guard => exact (Walked.read.inj hr).symm
    refine Or.inr ⟨hv, .nil, Nat.zero_le _, ?_⟩
    intro n hn
    cases hn
  | @cons id a k w next nhash rest hread hash' hrest ih =>
    cases guard with
    | zero => cases hr
    | succ guard =>
      rw [bin_walk] at hr
      split at hr
      · cases hr
      · rename_i nf hnf
        have hsame := read_within hle hnf
        rw [hread] at hsame
        obtain rfl := Option.some.inj hsame
        simp only [List.getElem?_cons_zero, List.getElem?_cons_succ, Option.bind_some,
          Option.any_some, Option.getD_some, hash', Option.some.injEq] at hr
        split at hr
        · rename_i hmatch
          obtain ⟨rfl, hkey⟩ := hmatch
          exact Or.inl ⟨⟨nhash, k, w⟩, List.mem_cons_self, rfl, hkey, (Walked.read.inj hr).symm⟩
        · rename_i hmiss
          rcases ih hr with ⟨n, hn, hfound⟩ | ⟨hv, hchain, hlen, hun⟩
          · exact Or.inl ⟨n, List.mem_cons_of_mem _ hn, hfound⟩
          · refine Or.inr ⟨hv, .cons hnf hash' hchain, Nat.succ_le_succ hlen, ?_⟩
            intro n hn heq
            rcases List.mem_cons.mp hn with rfl | hn
            · cases hkey : key_matches d known k key with
              | false => rfl
              | true => exact absurd ⟨heq, hkey⟩ hmiss
            · exact hun n hn heq

theorem bin_walk_missed {key : ArgLit} {guard : ℕ} (hc : Chain d known value_field start ns)
    (hlen : ns.length ≤ guard) (hun : Unmatched d known hash key ns) :
    bin_walk d known hash key value_field guard start = .read value_null := by
  induction hc generalizing guard with
  | nil =>
    cases guard with
    | zero => rfl
    | succ guard => rfl
  | @cons id a k w next nhash rest hread hash' hrest ih =>
    cases guard with
    | zero => cases hlen
    | succ guard =>
      have hmiss : ¬ (nhash = hash ∧ key_matches d known k key = true) := by
        rintro ⟨heq, hkey⟩
        rw [hun ⟨nhash, k, w⟩ List.mem_cons_self heq] at hkey
        cases hkey
      rw [bin_walk, hread]
      simp only [List.getElem?_cons_zero, List.getElem?_cons_succ, Option.bind_some,
        Option.any_some, hash', Option.some.injEq]
      rw [if_neg hmiss]
      exact ih (Nat.le_of_succ_le_succ hlen) fun n hn => hun n (List.mem_cons_of_mem _ hn)

end Bins

section Tables

variable {d h : Heap} {known : Option (UInt64 × ClassId)} {layout : Layout} {hash : Int32}
  {key : ArgLit} {table : UInt64} {ns : List Node} {k : ℕ} {v : Value}

/-- The whole bin was read, within the bounds of the walk, and no node was taken for the key's. -/
def Missed (d : Heap) (known : Option (UInt64 × ClassId)) (layout : Layout) (hash : Int32)
    (key : ArgLit) (hops k : ℕ) (table : UInt64) (ns : List Node) : Prop :=
  BinAt d known layout hash k table ns ∧ k < hops ∧ ns.length ≤ BIN_CHAIN_GUARD ∧
    Unmatched d known hash key ns

variable {hops : ℕ} {head tv : Value} {map : UInt64}

theorem missed_empty (hb : BinAt d known layout hash k table []) (hk : k < hops) :
    Missed d known layout hash key hops k table [] := by
  refine ⟨hb, hk, Nat.zero_le _, ?_⟩
  intro n hn
  cases hn

theorem slot_read (hle : Answers d h) {n : Int32} {stop : Except String (Walked Value)}
    {err : String → String} {k : List Value → Except String (Walked Value)}
    (hn : d.get_array_length table = .ok n) (hs : Slot h hash table head)
    (hr : (if n ≤ 0 then stop else match d.get_array_values table ((n - 1) &&& hash) 1 with
      | .error e => .error (err e)
      | .ok vals => k vals) = .ok (.read v)) :
    Slot d hash table head ∧ k [head] = .ok (.read v) := by
  obtain ⟨m, hm, hpos, hw⟩ := hs
  obtain rfl : n = m := Except.ok.inj ((hle.lengths table n hn).symm.trans hm)
  rw [if_neg (Int32.not_le.mpr hpos)] at hr
  split at hr
  · cases hr
  · rename_i vals hv
    obtain rfl : vals = [head] := Except.ok.inj ((hle.elements table _ _ _ hv).symm.trans hw)
    exact ⟨⟨n, hn, hpos, hv⟩, hr⟩

section Heads

variable {id : UInt64} {bin : Bin} {head w link : Value} {of_head : Int32}

theorem head_read (hle : Answers d h) (hw : read h known id ["hash"] = some [w])
    (hof : as_int w = some of_head) (hr : chm_bin d known id = .read bin) :
    read d known id ["hash"] = some [w] ∧
      (of_head = CHM_TREEBIN ∧ (∃ tf, read d known id ["first"] = some tf ∧
          bin = .chain (tf[0]?.bind as_object_id)) ∨
        of_head ≠ CHM_TREEBIN ∧ of_head = CHM_MOVED ∧
          (∃ nf, read d known id ["nextTable"] = some nf ∧
            bin = .forward (nf[0]?.bind as_object_id)) ∨
        of_head ≠ CHM_TREEBIN ∧ of_head ≠ CHM_MOVED ∧ of_head = CHM_RESERVED ∧ bin = .empty ∨
        of_head ∉ [CHM_TREEBIN, CHM_MOVED, CHM_RESERVED] ∧ bin = .chain (some id)) := by
  unfold chm_bin at hr
  split at hr
  · cases hr
  · rename_i hf hread
    obtain rfl : [w] = hf := Option.some.inj (hw.symm.trans (read_within hle hread))
    refine ⟨hread, ?_⟩
    simp only [List.getElem?_cons_zero, Option.bind_some, hof] at hr
    split at hr
    · rename_i htree
      split at hr
      · rename_i tf htf
        exact Or.inl ⟨htree, tf, htf, (Walked.read.inj hr).symm⟩
      · cases hr
    · rename_i htree
      split at hr
      · rename_i hmoved
        split at hr
        · rename_i nf hnf
          exact Or.inr (Or.inl ⟨htree, hmoved, nf, hnf, (Walked.read.inj hr).symm⟩)
        · cases hr
      · rename_i hmoved
        split at hr
        · rename_i hreserved
          exact Or.inr (Or.inr (Or.inl ⟨htree, hmoved, hreserved, (Walked.read.inj hr).symm⟩))
        · rename_i hreserved
          refine Or.inr (Or.inr (Or.inr ⟨?_, (Walked.read.inj hr).symm⟩))
          simp [htree, hmoved, hreserved]

end Heads

theorem table_walk_slot (hle : Answers d h) (hs : Slot h hash table head)
    (hr : table_walk d known hash key (hops + 1) table = .ok (.read v)) :
    Slot d hash table head ∧
      (as_object_id head = none ∧ v = value_null ∨
        ∃ id bin, as_object_id head = some id ∧ chm_bin d known id = .read bin ∧
          (bin = .empty ∧ v = value_null ∨ bin = .forward none ∧ v = value_null ∨
            (∃ start, bin = .chain start ∧ bin_lookup d known start hash key "val" = .read v) ∨
            ∃ next, bin = .forward (some next) ∧
              table_walk d known hash key hops next = .ok (.read v))) := by
  rw [table_walk] at hr
  split at hr
  · cases hr
  · rename_i n hn
    obtain ⟨hslot, hr⟩ := slot_read hle hn hs hr
    refine ⟨hslot, ?_⟩
    simp only [List.getElem?_cons_zero, Option.bind_some] at hr
    split at hr
    · rename_i hnull
      exact Or.inl ⟨hnull, (Walked.read.inj (Except.ok.inj hr)).symm⟩
    · rename_i id hid
      right
      split at hr
      · cases hr
      · rename_i hbin
        exact ⟨id, _, hid, hbin, Or.inl ⟨rfl, (Walked.read.inj (Except.ok.inj hr)).symm⟩⟩
      · rename_i hbin
        exact ⟨id, _, hid, hbin, Or.inr (Or.inl ⟨rfl, (Walked.read.inj (Except.ok.inj hr)).symm⟩)⟩
      · rename_i start hbin
        exact ⟨id, _, hid, hbin, Or.inr (Or.inr (Or.inl ⟨start, rfl, Except.ok.inj hr⟩))⟩
      · rename_i next hbin
        exact ⟨id, _, hid, hbin, Or.inr (Or.inr (Or.inr ⟨next, rfl, hr⟩))⟩

variable {id : UInt64}

theorem table_walk_head (hle : Answers d h) {w : Value} {of_head : Int32}
    (hs : Slot h hash table head) (hid : as_object_id head = some id)
    (hw : read h known id ["hash"] = some [w]) (hof : as_int w = some of_head)
    (hr : table_walk d known hash key (hops + 1) table = .ok (.read v)) :
    Slot d hash table head ∧ read d known id ["hash"] = some [w] ∧
      (of_head = CHM_TREEBIN ∧ (∃ tf, read d known id ["first"] = some tf ∧
          bin_lookup d known (tf[0]?.bind as_object_id) hash key "val" = .read v) ∨
        of_head = CHM_MOVED ∧ (∃ nf, read d known id ["nextTable"] = some nf ∧
          ∀ next, nf[0]?.bind as_object_id = some next →
            table_walk d known hash key hops next = .ok (.read v)) ∨
        of_head = CHM_RESERVED ∧ v = value_null ∨
        of_head ∉ [CHM_TREEBIN, CHM_MOVED, CHM_RESERVED] ∧
          bin_lookup d known (some id) hash key "val" = .read v) := by
  obtain ⟨hslot, ⟨hnull, -⟩ | ⟨id', bin, hid', hbin, hcases⟩⟩ := table_walk_slot hle hs hr
  · rw [hnull] at hid
    cases hid
  · obtain rfl : id = id' := Option.some.inj (hid.symm.trans hid')
    obtain ⟨hread, hhead⟩ := head_read hle hw hof hbin
    refine ⟨hslot, hread, ?_⟩
    rcases hcases with ⟨rfl, hv⟩ | ⟨rfl, hv⟩ | ⟨start, rfl, hlook⟩ | ⟨next, rfl, hwalk⟩
    · rcases hhead with ⟨-, tf, -, hbad⟩ | ⟨-, -, nf, -, hbad⟩ | ⟨-, -, hres, -⟩ | ⟨-, hbad⟩
      · cases hbad
      · cases hbad
      · exact Or.inr (Or.inr (Or.inl ⟨hres, hv⟩))
      · cases hbad
    · rcases hhead with ⟨-, tf, -, hbad⟩ | ⟨-, hm, nf, hnf, hnone⟩ | ⟨-, -, -, hbad⟩ | ⟨-, hbad⟩
      · cases hbad
      · refine Or.inr (Or.inl ⟨hm, nf, hnf, ?_⟩)
        intro next hnext
        rw [← Bin.forward.inj hnone] at hnext
        cases hnext
      · cases hbad
      · cases hbad
    · rcases hhead with ⟨ht, tf, htf, hstart⟩ | ⟨-, -, nf, -, hbad⟩ | ⟨-, -, -, hbad⟩ |
        ⟨hno, hstart⟩
      · rw [Bin.chain.inj hstart] at hlook
        exact Or.inl ⟨ht, tf, htf, hlook⟩
      · cases hbad
      · cases hbad
      · rw [Bin.chain.inj hstart] at hlook
        exact Or.inr (Or.inr (Or.inr ⟨hno, hlook⟩))
    · rcases hhead with ⟨-, tf, -, hbad⟩ | ⟨-, hm, nf, hnf, hsome⟩ | ⟨-, -, -, hbad⟩ | ⟨-, hbad⟩
      · cases hbad
      · refine Or.inr (Or.inl ⟨hm, nf, hnf, ?_⟩)
        intro other hother
        rw [← Bin.forward.inj hsome] at hother
        rw [← Option.some.inj hother]
        exact hwalk
      · cases hbad
      · cases hbad

/-- A `ConcurrentHashMap` answers from the bin of the hash. -/
theorem table_walk_read (hle : Answers d h) (hb : BinAt h known layout hash k table ns)
    (hl : layout = .concurrentHashMap) (hr : table_walk d known hash key hops table = .ok (.read v))
    :
    Found d known hash key ns v ∨
      v = value_null ∧ Missed d known layout hash key hops k table ns := by
  cases hops with
  | zero => cases hr
  | succ hops =>
    induction hb generalizing hops with
    | @empty_table table n hn hneg =>
      rw [table_walk] at hr
      split at hr
      · cases hr
      · rename_i m hm
        obtain rfl : m = n := Except.ok.inj ((hle.lengths table m hm).symm.trans hn)
        rw [if_pos hneg] at hr
        exact Or.inr ⟨(Walked.read.inj (Except.ok.inj hr)).symm,
          missed_empty (.empty_table hm hneg) (Nat.succ_pos _)⟩
    | vacant hs hnull =>
      obtain ⟨hslot, ⟨-, hv⟩ | ⟨id, bin, hid, -⟩⟩ := table_walk_slot hle hs hr
      · exact Or.inr ⟨hv, missed_empty (.vacant hslot hnull) (Nat.succ_pos _)⟩
      · rw [hnull] at hid
        cases hid
    | chain hne => exact absurd hl hne
    | plain _ hs hid hw hof hno hc =>
      obtain ⟨hslot, hread, ⟨rfl, -⟩ | ⟨rfl, -⟩ | ⟨rfl, -⟩ | ⟨-, hlook⟩⟩ :=
        table_walk_head hle hs hid hw hof hr
      · simp at hno
      · simp at hno
      · simp at hno
      · rcases bin_walk_read hle hc hlook with hfound | ⟨hv, hchain, hlen, hun⟩
        · exact Or.inl hfound
        · exact Or.inr ⟨hv, .plain hl hslot hid hread hof hno hchain, Nat.succ_pos _, hlen, hun⟩
    | tree _ hs hid hw hof hf hc =>
      obtain ⟨hslot, hread, ⟨-, tf, htf, hlook⟩ | ⟨hbad, -⟩ | ⟨hbad, -⟩ | ⟨hbad, -⟩⟩ :=
        table_walk_head hle hs hid hw hof hr
      · obtain rfl := Option.some.inj (hf.symm.trans (read_within hle htf))
        rcases bin_walk_read hle hc hlook with hfound | ⟨hv, hchain, hlen, hun⟩
        · exact Or.inl hfound
        · exact Or.inr ⟨hv, .tree hl hslot hid hread hof htf hchain, Nat.succ_pos _, hlen, hun⟩
      · exact absurd hbad (by decide)
      · exact absurd hbad (by decide)
      · exact absurd hbad (by decide)
    | reserved _ hs hid hw hof =>
      obtain ⟨hslot, hread, ⟨hbad, -⟩ | ⟨hbad, -⟩ | ⟨-, hv⟩ | ⟨hbad, -⟩⟩ :=
        table_walk_head hle hs hid hw hof hr
      · exact absurd hbad (by decide)
      · exact absurd hbad (by decide)
      · exact Or.inr ⟨hv, missed_empty (.reserved hl hslot hid hread hof) (Nat.succ_pos _)⟩
      · exact absurd hbad (by decide)
    | moved _ hs hid hw hof hlink hnext _ ih =>
      obtain ⟨hslot, hread, ⟨hbad, -⟩ | ⟨-, nf, hnf, hwalk⟩ | ⟨hbad, -⟩ | ⟨hbad, -⟩⟩ :=
        table_walk_head hle hs hid hw hof hr
      · exact absurd hbad (by decide)
      · obtain rfl := Option.some.inj (hlink.symm.trans (read_within hle hnf))
        have hwalk := hwalk _ hnext
        cases hops with
        | zero => cases hwalk
        | succ hops =>
          rcases ih hops hwalk with hfound | ⟨hv, hbin, hk, hrest⟩
          · exact Or.inl hfound
          · exact Or.inr
              ⟨hv, .moved hl hslot hid hread hof hnf hnext hbin, Nat.succ_lt_succ hk, hrest⟩
      · exact absurd hbad (by decide)
      · exact absurd hbad (by decide)

/-- A head of the given hash, read whole. -/
theorem chm_bin_head {w : Value} {of_head : Int32} (hw : read d known id ["hash"] = some [w])
    (hof : as_int w = some of_head) :
    (of_head ∉ [CHM_TREEBIN, CHM_MOVED, CHM_RESERVED] →
        chm_bin d known id = .read (.chain (some id))) ∧
      (of_head = CHM_RESERVED → chm_bin d known id = .read .empty) ∧
      (∀ first, of_head = CHM_TREEBIN → read d known id ["first"] = some [first] →
        chm_bin d known id = .read (.chain (as_object_id first))) ∧
      ∀ link, of_head = CHM_MOVED → read d known id ["nextTable"] = some [link] →
        chm_bin d known id = .read (.forward (as_object_id link)) := by
  have hbin := chm_bin.eq_def d known id
  rw [hw] at hbin
  simp only [List.getElem?_cons_zero, Option.bind_some, hof] at hbin
  refine ⟨?_, ?_, ?_, ?_⟩
  · intro hno
    simp only [List.mem_cons, List.not_mem_nil, or_false, not_or] at hno
    rw [hbin, if_neg hno.1, if_neg hno.2.1, if_neg hno.2.2]
  · rintro rfl
    rw [hbin, if_neg (by decide), if_neg (by decide), if_pos rfl]
  · rintro first rfl hfirst
    rw [hbin, if_pos rfl, hfirst]
    rfl
  · rintro link rfl hlink
    rw [hbin, if_neg (by decide), if_pos rfl, hlink]
    rfl

theorem table_walk_at {bin : Bin} (hs : Slot d hash table head) (hid : as_object_id head = some id)
    (hbin : chm_bin d known id = .read bin) :
    (bin = .empty → table_walk d known hash key (hops + 1) table = .ok (.read value_null)) ∧
      (∀ start, bin = .chain start → table_walk d known hash key (hops + 1) table =
        .ok (bin_lookup d known start hash key "val")) ∧
      ∀ next, bin = .forward (some next) → table_walk d known hash key (hops + 1) table =
        table_walk d known hash key hops next := by
  obtain ⟨n, hn, hpos, hv⟩ := hs
  rw [table_walk, hn]
  simp only [if_neg (Int32.not_le.mpr hpos), hv, List.getElem?_cons_zero, Option.bind_some, hid,
    hbin]
  refine ⟨?_, ?_, ?_⟩
  · rintro rfl
    rfl
  · rintro start rfl
    rfl
  · rintro next rfl
    rfl

theorem table_walk_missed (hl : layout = .concurrentHashMap)
    (hm : Missed d known layout hash key hops k table ns) :
    table_walk d known hash key hops table = .ok (.read value_null) := by
  obtain ⟨hb, hk, hlen, hun⟩ := hm
  induction hb generalizing hops with
  | @empty_table table n hn hneg =>
    cases hops with
    | zero => cases hk
    | succ hops =>
      rw [table_walk, hn]
      exact if_pos hneg
  | vacant hs hnull =>
    cases hops with
    | zero => cases hk
    | succ hops =>
      obtain ⟨n, hn, hpos, hv⟩ := hs
      rw [table_walk, hn]
      simp only [if_neg (Int32.not_le.mpr hpos), hv, List.getElem?_cons_zero, Option.bind_some,
        hnull]
  | chain hne => exact absurd hl hne
  | plain _ hs hid hw hof hno hc =>
    cases hops with
    | zero => cases hk
    | succ hops =>
      rw [(table_walk_at hs hid ((chm_bin_head hw hof).1 hno)).2.1 _ rfl]
      exact congrArg Except.ok (bin_walk_missed hc hlen hun)
  | tree _ hs hid hw hof hf hc =>
    cases hops with
    | zero => cases hk
    | succ hops =>
      rw [(table_walk_at hs hid ((chm_bin_head hw hof).2.2.1 _ rfl hf)).2.1 _ rfl]
      exact congrArg Except.ok (bin_walk_missed hc hlen hun)
  | reserved _ hs hid hw hof =>
    cases hops with
    | zero => cases hk
    | succ hops => exact (table_walk_at hs hid ((chm_bin_head hw hof).2.1 rfl)).1 rfl
  | moved _ hs hid hw hof hlink hnext _ ih =>
    cases hops with
    | zero => cases hk
    | succ hops =>
      have hbin := (chm_bin_head hw hof).2.2.2 _ rfl hlink
      rw [hnext] at hbin
      rw [(table_walk_at hs hid hbin).2.2 _ rfl]
      exact ih (Nat.lt_of_succ_lt_succ hk) hlen hun

theorem map_table_read {found : Option UInt64 × Int32} (hle : Answers d h)
    (ht : read h known map ["table"] = some [tv])
    (hr : map_table d known map ["table"] = .read found) :
    read d known map ["table"] = some [tv] ∧ found = (as_object_id tv, 0) := by
  unfold map_table at hr
  split at hr
  · cases hr
  · rename_i f hf
    obtain rfl := Option.some.inj (ht.symm.trans (read_within hle hf))
    exact ⟨hf, (Walked.read.inj hr).symm⟩

/-- A lookup past the map's table goes on from the debuggee's. -/
theorem table_opened {k : UInt64 → Except String (Walked Value)} (hle : Answers d h)
    (ht : read h known map ["table"] = some [tv]) (hid : as_object_id tv = some table)
    (hr : (match map_table d known map ["table"] with
      | .declined why => .ok (.declined why)
      | .read (none, _) => .ok (.read value_null)
      | .read (some t, _) => k t : Except String (Walked Value)) = .ok (.read v)) :
    read d known map ["table"] = some [tv] ∧ k table = .ok (.read v) := by
  split at hr
  · cases hr
  · rename_i hmap
    cases hid.symm.trans (Prod.mk.inj (map_table_read hle ht hmap).2).1.symm
  · rename_i hmap
    obtain ⟨htable, hfound⟩ := map_table_read hle ht hmap
    rw [hid] at hfound
    cases hfound
    exact ⟨htable, hr⟩

/-- A `HashMap` answers from the bin of the hash. -/
theorem hash_map_read (hle : Answers d h) (hl : layout ≠ .concurrentHashMap)
    (hhash : (java_hash key).map hashmap_spread = some hash)
    (ht : read h known map ["table"] = some [tv]) (hid : as_object_id tv = some table)
    (hb : BinAt h known layout hash k table ns)
    (hr : hash_map_lookup d known map key = .ok (.read v)) :
    Found d known hash key ns v ∨ v = value_null ∧ read d known map ["table"] = some [tv] ∧
      Missed d known layout hash key CHM_FORWARD_HOPS k table ns := by
  unfold hash_map_lookup at hr
  rw [hhash] at hr
  obtain ⟨htable, hr⟩ := table_opened hle ht hid hr
  split at hr
  · cases hr
  · rename_i n hn
    cases hb with
    | empty_table hm hneg =>
      obtain rfl := Except.ok.inj ((hle.lengths table n hn).symm.trans hm)
      rw [if_pos hneg] at hr
      exact Or.inr ⟨(Walked.read.inj (Except.ok.inj hr)).symm, htable,
        missed_empty (.empty_table hn hneg) (by decide)⟩
    | vacant hs hnull =>
      obtain ⟨hslot, hr⟩ := slot_read hle hn hs hr
      simp only [List.getElem?_cons_zero, Option.bind_some, hnull] at hr
      exact Or.inr ⟨(Walked.read.inj (Except.ok.inj hr)).symm, htable,
        missed_empty (.vacant hslot hnull) (by decide)⟩
    | chain _ hs hc =>
      obtain ⟨hslot, hr⟩ := slot_read hle hn hs hr
      simp only [List.getElem?_cons_zero, Option.bind_some] at hr
      rcases bin_walk_read hle hc (Except.ok.inj hr) with hfound | ⟨hv, hchain, hlen, hun⟩
      · exact Or.inl hfound
      · exact Or.inr ⟨hv, htable, .chain hl hslot hchain, by decide, hlen, hun⟩
    | plain hbad => exact absurd hbad hl
    | tree hbad => exact absurd hbad hl
    | reserved hbad => exact absurd hbad hl
    | moved hbad => exact absurd hbad hl

theorem hash_map_missed (hl : layout ≠ .concurrentHashMap)
    (hhash : (java_hash key).map hashmap_spread = some hash)
    (ht : read d known map ["table"] = some [tv]) (hid : as_object_id tv = some table)
    (hm : Missed d known layout hash key CHM_FORWARD_HOPS k table ns) :
    hash_map_lookup d known map key = .ok (.read value_null) := by
  obtain ⟨hb, -, hlen, hun⟩ := hm
  have hmap : map_table d known map ["table"] = .read (some table, 0) := by
    rw [map_table, ht, ← hid]
    rfl
  rw [hash_map_lookup, hhash, hmap]
  dsimp only
  cases hb with
  | empty_table hn hneg =>
    rw [hn]
    exact if_pos hneg
  | vacant hs hnull =>
    obtain ⟨n, hn, hpos, hv⟩ := hs
    rw [hn]
    simp only [if_neg (Int32.not_le.mpr hpos), hv, List.getElem?_cons_zero, Option.bind_some,
      hnull]
    exact congrArg Except.ok (bin_walk_missed .nil hlen hun)
  | chain _ hs hc =>
    obtain ⟨n, hn, hpos, hv⟩ := hs
    rw [hn]
    simp only [if_neg (Int32.not_le.mpr hpos), hv, List.getElem?_cons_zero, Option.bind_some]
    exact congrArg Except.ok (bin_walk_missed hc hlen hun)
  | plain hbad => exact absurd hbad hl
  | tree hbad => exact absurd hbad hl
  | reserved hbad => exact absurd hbad hl
  | moved hbad => exact absurd hbad hl

theorem chm_read (hle : Answers d h) (hl : layout = .concurrentHashMap)
    (hhash : (java_hash key).map chm_spread = some hash)
    (ht : read h known map ["table"] = some [tv]) (hid : as_object_id tv = some table)
    (hb : BinAt h known layout hash k table ns) (hr : chm_lookup d known map key = .ok (.read v)) :
    Found d known hash key ns v ∨ v = value_null ∧ read d known map ["table"] = some [tv] ∧
      Missed d known layout hash key CHM_FORWARD_HOPS k table ns := by
  unfold chm_lookup at hr
  rw [hhash] at hr
  obtain ⟨htable, hr⟩ := table_opened hle ht hid hr
  rcases table_walk_read hle hb hl hr with hfound | ⟨hv, hmissed⟩
  · exact Or.inl hfound
  · exact Or.inr ⟨hv, htable, hmissed⟩

theorem chm_missed (hl : layout = .concurrentHashMap)
    (hhash : (java_hash key).map chm_spread = some hash)
    (ht : read d known map ["table"] = some [tv]) (hid : as_object_id tv = some table)
    (hm : Missed d known layout hash key CHM_FORWARD_HOPS k table ns) :
    chm_lookup d known map key = .ok (.read value_null) := by
  have hmap : map_table d known map ["table"] = .read (some table, 0) := by
    rw [map_table, ht, ← hid]
    rfl
  rw [chm_lookup, hhash, hmap]
  exact table_walk_missed hl hm

end Tables

section Keys

/-- The wrapper holds the value. -/
def Boxes (h : Heap) (id : UInt64) (data : ValueData) : Prop :=
  ∃ v, read h none id ["value"] = some [v] ∧ v.data = data

def Contents (h : Heap) (id : UInt64) (want : ArgLit) : Prop :=
  match want with
  | .str s => h.get_string_value id = .ok s
  | .int i => Boxes h id (.int i)
  | .long l => Boxes h id (.long l)
  | .bool b => Boxes h id (.boolean b)
  | .char c => Boxes h id (.char c)
  | _ => False

/-- The stored key equals the boxed literal: it is of its class and has its contents. -/
def KeyIs (h : Heap) (want : ArgLit) (stored : Value) : Prop :=
  ∃ id t sig, as_object_id stored = some id ∧ h.get_object_reference_type id = .ok t ∧
    h.get_signature t = .ok sig ∧ literal_class want = some sig ∧ Contents h id want

/-- The object's contents can be read, as those of the literal's class. -/
def Legible (d : Heap) (known : Option (UInt64 × ClassId)) (id : UInt64) (want : ArgLit) : Prop :=
  match want with
  | .str _ => ∃ text, d.get_string_value id = .ok text
  | _ => ∃ v, read d known id ["value"] = some [v]

/-- The reads that compare a stored key with a literal of its class all succeed. -/
def Compared (d : Heap) (known : Option (UInt64 × ClassId)) (want : ArgLit) (stored : Value) :
    Prop :=
  ∃ id t sig, as_object_id stored = some id ∧ d.get_object_reference_type id = .ok t ∧
    d.get_signature t = .ok sig ∧ Legible d known id want

/-- The type that a walk starts with is the object's. -/
def Rooted (h : Heap) (known : Option (UInt64 × ClassId)) : Prop :=
  ∀ obj t, known = some (obj, t) → h.get_object_reference_type obj = .ok t

variable {d h : Heap} {known : Option (UInt64 × ClassId)} {want : ArgLit} {stored : Value}

theorem read_rooted (hroot : Rooted h known) (obj : UInt64) (names : List String) :
    read h known obj names = read h none obj names := by
  have htype : type_of h known obj = type_of h none obj := by
    unfold type_of
    split
    · rename_i rooted t
      split
      · rename_i heq
        rw [← heq, hroot rooted t rfl]
        rfl
      · rfl
    · rfl
  unfold MapWalks.read
  rw [htype]

theorem read_length {obj : UInt64} {names : List String} {vals : List Value}
    (hr : read d known obj names = some vals) : vals.length = names.length := by
  unfold MapWalks.read at hr
  obtain ⟨t, -, hr⟩ := Option.bind_eq_some_iff.mp hr
  obtain ⟨fids, -, hr⟩ := Option.bind_eq_some_iff.mp hr
  obtain ⟨vs, -, hr⟩ := Option.bind_eq_some_iff.mp hr
  split at hr
  · rename_i hlen
    rw [← Option.some.inj hr]
    exact hlen
  · cases hr

variable {id : UInt64}

theorem boxed_data_some {data : ValueData} (hd : boxed_data d known id = some data) :
    ∃ v, read d known id ["value"] = some [v] ∧ v.data = data := by
  obtain ⟨vals, hread, hd⟩ := Option.bind_eq_some_iff.mp hd
  obtain ⟨v, hv, hd⟩ := Option.bind_eq_some_iff.mp hd
  obtain ⟨w, rfl⟩ := List.length_eq_one_iff.mp (read_length hread)
  obtain rfl := Option.some.inj hv
  exact ⟨w, hread, Option.some.inj hd⟩

theorem boxed_data_of {v : Value} (hr : read d known id ["value"] = some [v]) :
    boxed_data d known id = some v.data := by
  rw [boxed_data, hr]
  rfl

theorem same_contents_sound (hle : Answers d h) (hroot : Rooted h known)
    (hs : same_contents d known id want = true) : Contents h id want ∧ Legible d known id want := by
  have hbox {data : ValueData} (hd : decide (boxed_data d known id = some data) = true) :
      Boxes h id data ∧ ∃ v, read d known id ["value"] = some [v] := by
    obtain ⟨v, hread, hv⟩ := boxed_data_some (of_decide_eq_true hd)
    have hheld := read_within hle hread
    rw [read_rooted hroot] at hheld
    exact ⟨⟨v, hheld, hv⟩, v, hread⟩
  cases want with
  | str s =>
    simp only [same_contents] at hs
    cases htext : d.get_string_value id with
    | error e =>
      rw [htext] at hs
      cases hs
    | ok text =>
      rw [htext] at hs
      obtain rfl := of_decide_eq_true hs
      exact ⟨hle.strings id text htext, text, htext⟩
  | int i => exact hbox hs
  | long l => exact hbox hs
  | bool b => exact hbox hs
  | char c => exact hbox hs
  | _ => cases hs

/-- Contents that are the same and can be read are found the same. -/
theorem same_contents_of (hle : Answers d h) (hroot : Rooted h known) (hc : Contents h id want)
    (hl : Legible d known id want) : same_contents d known id want = true := by
  have hbox {data : ValueData} (hb : Boxes h id data)
      (hl : ∃ v, read d known id ["value"] = some [v]) :
      decide (boxed_data d known id = some data) = true := by
    obtain ⟨v, hread, rfl⟩ := hb
    obtain ⟨w, hw⟩ := hl
    have hheld := read_within hle hw
    rw [read_rooted hroot, hread] at hheld
    obtain rfl := (List.cons.inj (Option.some.inj hheld)).1
    exact decide_eq_true (boxed_data_of hw)
  cases want with
  | str s =>
    obtain ⟨text, htext⟩ := hl
    obtain rfl : text = s := Except.ok.inj ((hle.strings id text htext).symm.trans hc)
    simp only [same_contents, htext, decide_true]
  | int i => exact hbox hc hl
  | long l => exact hbox hc hl
  | bool b => exact hbox hc hl
  | char c => exact hbox hc hl
  | _ => cases hc

theorem class_named (want : ArgLit) : literal_class want ≠ some "" := by
  cases want with
  | _ => simp [literal_class]

theorem key_matches_sound (hle : Answers d h) (hroot : Rooted h known)
    (hm : key_matches d known stored want = true) :
    KeyIs h want stored ∧ Compared d known want stored := by
  unfold key_matches at hm
  split at hm
  · cases hm
  · rename_i id hid
    split at hm
    · cases hm
    · rename_i t ht
      rw [Bool.and_eq_true, decide_eq_true_eq] at hm
      obtain ⟨hclass, hsame⟩ := hm
      obtain ⟨hcontents, hlegible⟩ := same_contents_sound hle hroot hsame
      cases hsig : d.get_signature t with
      | error e =>
        rw [hsig] at hclass
        exact absurd hclass (class_named want)
      | ok sig =>
        rw [hsig] at hclass
        exact ⟨⟨id, t, sig, hid, hle.types id t ht, hle.signatures t sig hsig, hclass, hcontents⟩,
          id, t, sig, hid, ht, hsig, hlegible⟩

theorem key_matches_of (hle : Answers d h) (hroot : Rooted h known) (hk : KeyIs h want stored)
    (hc : Compared d known want stored) : key_matches d known stored want = true := by
  obtain ⟨id, t, sig, hid, ht, hsig, hclass, hcontents⟩ := hk
  obtain ⟨id', t', sig', hid', ht', hsig', hlegible⟩ := hc
  obtain rfl := Option.some.inj (hid.symm.trans hid')
  obtain rfl := Except.ok.inj (ht.symm.trans (hle.types id t' ht'))
  obtain rfl := Except.ok.inj (hsig.symm.trans (hle.signatures t sig' hsig'))
  have hsame := same_contents_of hle hroot hcontents hlegible
  unfold key_matches
  rw [hid]
  dsimp only
  rw [ht']
  dsimp only
  rw [hsig', hsame, hclass]
  simp [Except.toOption]

theorem compared_self (hroot : Rooted h known) (hk : KeyIs h want stored) :
    Compared h known want stored := by
  obtain ⟨id, t, sig, hid, ht, hsig, hclass, hcontents⟩ := hk
  refine ⟨id, t, sig, hid, ht, hsig, ?_⟩
  have hbox {data : ValueData} (hb : Boxes h id data) :
      ∃ v, read h known id ["value"] = some [v] := by
    obtain ⟨v, hread, -⟩ := hb
    exact ⟨v, by rw [read_rooted hroot, hread]⟩
  cases want with
  | str s => exact ⟨s, hcontents⟩
  | int i => exact hbox hcontents
  | long l => exact hbox hcontents
  | bool b => exact hbox hcontents
  | char c => exact hbox hcontents
  | _ => cases hcontents

end Keys

section Maps

def spread (layout : Layout) (h : Int32) : Int32 :=
  if layout = .concurrentHashMap then specified_spread h &&& 0x7fffffff else specified_spread h

/-- The hash that a map of the layout looks a boxed literal up by. -/
def bin_hash (layout : Layout) (key : ArgLit) : Option Int32 :=
  (specified_hash key).map (spread layout)

/-- `hash_code` is what `hashCode()` returns; the JDK specifies it for the classes of literals. -/
def Hashes (h : Heap) (hash_code : Value → Int32) : Prop :=
  ∀ want stored, KeyIs h want stored → specified_hash want = some (hash_code stored)

/-- The map's entries lie in the bins of their hashes, no two of them with one key. -/
structure MapAt (h : Heap) (known : Option (UInt64 × ClassId)) (hash_code : Value → Int32)
    (layout : Layout) (map : UInt64) (table : Value) (entries : List Node) : Prop where
  table_read : read h known map ["table"] = some [table]
  unallocated : as_object_id table = none → entries = []
  bins : ∀ t, as_object_id table = some t → ∀ hash, ∃ k ns, BinAt h known layout hash k t ns
  within : ∀ t, as_object_id table = some t → ∀ hash k ns, BinAt h known layout hash k t ns →
    ∀ n ∈ ns, n ∈ entries
  located : ∀ t, as_object_id table = some t → ∀ n ∈ entries, ∀ k ns,
    BinAt h known layout n.hash k t ns → n ∈ ns
  hashed : ∀ n ∈ entries, n.hash = spread layout (hash_code n.key)
  distinct : ∀ n ∈ entries, ∀ m ∈ entries, ∀ want, KeyIs h want n.key → KeyIs h want m.key → n = m

/-- What `Map.get` returns for a boxed literal. -/
def Gets (h : Heap) (entries : List Node) (want : ArgLit) (v : Value) : Prop :=
  (∃ n ∈ entries, KeyIs h want n.key ∧ v = n.value) ∨
    (∀ n ∈ entries, ¬ KeyIs h want n.key) ∧ v = value_null

/-- An answer, where there is one, is the map's. -/
def Right (h : Heap) (entries : List Node) (key : ArgLit) (r : Except String (Walked Value)) :
    Prop :=
  ∀ v, r = .ok (.read v) → Gets h entries key v

/-- The key's bin is read whole, but not the key of the entry that is sought. -/
def Misread (d h : Heap) (known : Option (UInt64 × ClassId)) (layout : Layout) (map : UInt64)
    (key : ArgLit) : Prop :=
  ∃ table t hash k ns n, bin_hash layout key = some hash ∧
    read d known map ["table"] = some [table] ∧ as_object_id table = some t ∧
    BinAt d known layout hash k t ns ∧ k < CHM_FORWARD_HOPS ∧ ns.length ≤ BIN_CHAIN_GUARD ∧
    n ∈ ns ∧ KeyIs h key n.key ∧ n.value ≠ value_null ∧ ¬ Compared d known key n.key

variable {d h : Heap} {known : Option (UInt64 × ClassId)} {hash_code : Value → Int32}
  {layout : Layout} {map : UInt64} {entries : List Node} {key : ArgLit}
  {debug : ArgLit → String} {label : String}

theorem hash_map_hash (hl : layout ≠ .concurrentHashMap) :
    (java_hash key).map hashmap_spread = bin_hash layout key := by
  have hspread : spread layout = hashmap_spread := by
    funext hc
    rw [spread, if_neg hl, hashmap_spread_specified]
  rw [bin_hash, hspread, java_hash_specified]

theorem chm_hash (hl : layout = .concurrentHashMap) :
    (java_hash key).map chm_spread = bin_hash layout key := by
  have hspread : spread layout = chm_spread := by
    funext hc
    rw [spread, if_pos hl, chm_spread_specified]
  rw [bin_hash, hspread, java_hash_specified]

variable {v : Value} {hash : Int32} {t : UInt64} {ns : List Node}

theorem index_hashed (hl : layout ≠ .arrayList)
    (hr : structural_index d known debug map layout key label = .ok (.read v)) :
    ∃ hash, bin_hash layout key = some hash := by
  cases hhash : bin_hash layout key with
  | some hash => exact ⟨hash, rfl⟩
  | none =>
    have hash_map (hne : layout ≠ .concurrentHashMap) :
        hash_map_lookup d known map key ≠ .ok (.read v) := by
      intro hbad
      rw [hash_map_lookup, hash_map_hash hne, hhash] at hbad
      cases hbad
    cases layout with
    | hashMap => exact absurd hr (hash_map (by decide))
    | linkedHashMap => exact absurd hr (hash_map (by decide))
    | concurrentHashMap =>
      rw [structural_index, chm_lookup, chm_hash rfl, hhash] at hr
      cases hr
    | arrayList => exact absurd rfl hl

variable {table : Value}

theorem index_unallocated (hle : Answers d h) (hl : layout ≠ .arrayList)
    (ht : read h known map ["table"] = some [table]) (hid : as_object_id table = none)
    (hr : structural_index d known debug map layout key label = .ok (.read v)) :
    v = value_null := by
  have hlookup {found : Option UInt64 × Int32}
      (hmap : map_table d known map ["table"] = .read found) : found.1 = none := by
    rw [(map_table_read hle ht hmap).2, hid]
  have hash_map (hr : hash_map_lookup d known map key = .ok (.read v)) : v = value_null := by
    unfold hash_map_lookup at hr
    split at hr
    · cases hr
    · split at hr
      · cases hr
      · exact (Walked.read.inj (Except.ok.inj hr)).symm
      · rename_i hmap
        cases hlookup hmap
  cases layout with
  | hashMap => exact hash_map hr
  | linkedHashMap => exact hash_map hr
  | concurrentHashMap =>
    unfold structural_index chm_lookup at hr
    dsimp only at hr
    split at hr
    · cases hr
    · split at hr
      · cases hr
      · exact (Walked.read.inj (Except.ok.inj hr)).symm
      · rename_i hmap
        cases hlookup hmap
  | arrayList => exact absurd rfl hl

variable {k : ℕ}

theorem index_read (hle : Answers d h) (hl : layout ≠ .arrayList)
    (hhash : bin_hash layout key = some hash) (ht : read h known map ["table"] = some [table])
    (hid : as_object_id table = some t) (hb : BinAt h known layout hash k t ns)
    (hr : structural_index d known debug map layout key label = .ok (.read v)) :
    Found d known hash key ns v ∨ v = value_null ∧ read d known map ["table"] = some [table] ∧
      Missed d known layout hash key CHM_FORWARD_HOPS k t ns := by
  cases layout with
  | hashMap =>
    exact hash_map_read hle (by decide) ((hash_map_hash (by decide)).trans hhash) ht hid hb hr
  | linkedHashMap =>
    exact hash_map_read hle (by decide) ((hash_map_hash (by decide)).trans hhash) ht hid hb hr
  | concurrentHashMap => exact chm_read hle rfl ((chm_hash rfl).trans hhash) ht hid hb hr
  | arrayList => exact absurd rfl hl

theorem index_missed (hl : layout ≠ .arrayList) (hhash : bin_hash layout key = some hash)
    (ht : read d known map ["table"] = some [table]) (hid : as_object_id table = some t)
    (hm : Missed d known layout hash key CHM_FORWARD_HOPS k t ns) :
    structural_index d known debug map layout key label = .ok (.read value_null) := by
  cases layout with
  | hashMap =>
    exact hash_map_missed (by decide) ((hash_map_hash (by decide)).trans hhash) ht hid hm
  | linkedHashMap =>
    exact hash_map_missed (by decide) ((hash_map_hash (by decide)).trans hhash) ht hid hm
  | concurrentHashMap => exact chm_missed rfl ((chm_hash rfl).trans hhash) ht hid hm
  | arrayList => exact absurd rfl hl

/-- An entry of the key lies in the key's bin. -/
theorem entry_in_bin (hhash : Hashes h hash_code)
    (hmap : MapAt h known hash_code layout map table entries) (hid : as_object_id table = some t)
    (hkey : bin_hash layout key = some hash) {n : Node} (hn : n ∈ entries) (his : KeyIs h key n.key)
    (hb : BinAt h known layout hash k t ns) : n ∈ ns ∧ n.hash = hash := by
  have hcode : n.hash = hash := by
    rw [hmap.hashed n hn]
    rw [bin_hash, hhash key n.key his] at hkey
    exact Option.some.inj hkey
  rw [← hcode] at hb
  exact ⟨hmap.located t hid n hn k ns hb, hcode⟩

/-- Everything that goes unread but the sought entry's key is declined or reported. -/
theorem right_of_not_misread (hle : Answers d h) (hroot : Rooted h known)
    (hhash : Hashes h hash_code) (hl : layout ≠ .arrayList)
    (hmap : MapAt h known hash_code layout map table entries)
    (hno : ¬ Misread d h known layout map key) :
    Right h entries key (structural_index d known debug map layout key label) := by
  intro v hr
  obtain ⟨hash, hkey⟩ := index_hashed hl hr
  cases hid : as_object_id table with
  | none =>
    rw [hmap.unallocated hid]
    refine Or.inr ⟨?_, index_unallocated hle hl hmap.table_read hid hr⟩
    intro n hn
    cases hn
  | some t =>
    obtain ⟨k, ns, hb⟩ := hmap.bins t hid hash
    rcases index_read hle hl hkey hmap.table_read hid hb hr with
      ⟨n, hn, -, hmatch, rfl⟩ | ⟨rfl, htable, hb', hk, hlen, hun⟩
    · have his := (key_matches_sound hle hroot hmatch).1
      exact Or.inl ⟨n, hmap.within t hid hash k ns hb n hn, his, rfl⟩
    · by_cases hex : ∃ n ∈ entries, KeyIs h key n.key
      · obtain ⟨n, hn, his⟩ := hex
        obtain ⟨hin, hcode⟩ := entry_in_bin hhash hmap hid hkey hn his hb
        have hmiss := hun n hin hcode
        refine Or.inl ⟨n, hn, his, ?_⟩
        by_contra hnull
        refine hno ⟨table, t, hash, k, ns, n, hkey, htable, hid, hb', hk, hlen, hin, his,
          Ne.symm hnull, ?_⟩
        intro hcompared
        rw [key_matches_of hle hroot his hcompared] at hmiss
        cases hmiss
      · exact Or.inr ⟨fun n hn his => hex ⟨n, hn, his⟩, rfl⟩

/-- A map read by its fields answers what `Map.get` returns, of a debuggee that answers every read
and of one that fails some, except where the sought entry's own key is what could not be read. -/
theorem map_read_right (h d : Heap) (hle : Answers d h) (known : Option (UInt64 × ClassId))
    (hroot : Rooted h known) (hash_code : Value → Int32) (hhash : Hashes h hash_code)
    (layout : Layout) (hl : layout ≠ .arrayList) (map : UInt64) (table : Value)
    (entries : List Node) (hmap : MapAt h known hash_code layout map table entries)
    (debug : ArgLit → String) (key : ArgLit) (label : String) :
    Right h entries key (structural_index h known debug map layout key label) ∧
      (Right h entries key (structural_index d known debug map layout key label) ↔
        ¬ Misread d h known layout map key) := by
  refine ⟨right_of_not_misread (Answers.refl h) hroot hhash hl hmap ?_, ?_, ?_⟩
  · rintro ⟨-, -, -, -, -, n, -, -, -, -, -, -, -, his, -, hno⟩
    exact hno (compared_self hroot his)
  · rintro hright ⟨table', t, hash, k, ns, n, hkey, htable, hid, hb, hk, hlen, hn, his, hnull, hno⟩
    obtain rfl := (List.cons.inj (Option.some.inj
      ((read_within hle htable).symm.trans hmap.table_read))).1
    have hin := hmap.within t hid hash k ns (bin_within hle hb)
    have hun : Unmatched d known hash key ns := by
      intro m hm _
      cases hmatch : key_matches d known m.key key with
      | false => rfl
      | true =>
        obtain ⟨his', hcompared⟩ := key_matches_sound hle hroot hmatch
        obtain rfl := hmap.distinct n (hin n hn) m (hin m hm) key his his'
        exact absurd hcompared hno
    rcases hright _ (index_missed hl hkey htable hid ⟨hb, hk, hlen, hun⟩) with
      ⟨m, hm, his', hvalue⟩ | ⟨habsent, -⟩
    · obtain rfl := hmap.distinct n (hin n hn) m hm key his his'
      exact hnull hvalue.symm
    · exact habsent n (hin n hn) his
  · exact right_of_not_misread hle hroot hhash hl hmap

end Maps

section Runs

/-- Map 10 with table 11 holds object 14 under the `Integer` 7, object 13, of which the type may
not be told. -/
def one_entry (silent : Bool) : Heap where
  get_object_reference_type := fun id =>
    if id = 10 then .ok 1 else if id = 12 then .ok 2
    else if id = 13 ∧ silent = false then .ok 3 else .error "no reply"
  get_signature := fun c => .ok (if c = 3 then "Ljava/lang/Integer;" else "LHost;")
  get_superclass := fun _ => .ok none
  get_interfaces := fun _ => .ok []
  get_fields := fun c => .ok (if c = 1 then [⟨1, "table", "[LHost;", 0⟩]
    else if c = 2 then [⟨2, "hash", "I", 0⟩, ⟨3, "key", "LHost;", 0⟩, ⟨4, "value", "LHost;", 0⟩,
      ⟨5, "next", "LHost;", 0⟩]
    else [⟨6, "value", "I", 0⟩])
  get_methods := fun _ => .ok []
  get_object_values := fun _ fids => .ok (fids.map fun f =>
    if f = 1 then ⟨91, .object 11⟩ else if f = 2 then value_int 7
    else if f = 3 then value_object 13 else if f = 4 then value_object 14
    else if f = 5 then value_null else value_int 7)
  get_array_length := fun _ => .ok 1
  get_array_values := fun _ _ _ => .ok [value_object 12]
  get_string_value := fun _ => .error "no reply"

def the_entry : Node := ⟨7, value_object 13, value_object 14⟩

theorem one_entry_answers : Answers (one_entry true) (one_entry false) where
  types := by
    intro id v hv
    by_cases h10 : id = 10
    · rw [h10] at hv ⊢
      exact hv
    · by_cases h12 : id = 12
      · rw [h12] at hv ⊢
        exact hv
      · have hnone : (one_entry true).get_object_reference_type id = .error "no reply" := by
          simp [one_entry, h10, h12]
        rw [hnone] at hv
        cases hv
  signatures := fun _ _ hv => hv
  superclasses := fun _ _ hv => hv
  fields := fun _ _ hv => hv
  values := fun _ _ _ hv => hv
  lengths := fun _ _ hv => hv
  elements := fun _ _ _ _ hv => hv
  strings := fun _ _ hv => hv

theorem one_entry_key {want : ArgLit} {stored : Value} (hk : KeyIs (one_entry false) want stored) :
    want = .int 7 := by
  obtain ⟨id, t, sig, -, ht, hsig, hclass, hcontents⟩ := hk
  obtain rfl := Except.ok.inj hsig
  by_cases h3 : t = 3
  · subst h3
    rw [if_pos rfl] at hclass
    have hread : read (one_entry false) none id ["value"] = some [value_int 7] := by
      unfold MapWalks.read type_of
      rw [ht]
      rfl
    cases want with
    | int i =>
      obtain ⟨v, hv, hdata⟩ := hcontents
      rw [hread] at hv
      obtain rfl := (List.cons.inj (Option.some.inj hv)).1
      rw [ValueData.int.inj hdata]
    | _ => simp [literal_class] at hclass
  · rw [if_neg h3] at hclass
    cases want with
    | _ => simp [literal_class] at hclass

theorem one_entry_slot (hash : Int32) (t : UInt64) :
    Slot (one_entry false) hash t (value_object 12) :=
  ⟨1, rfl, by decide, rfl⟩

theorem one_entry_chain : Chain (one_entry false) none "value" (some 12) [the_entry] :=
  @Chain.cons _ _ _ 12 (value_int 7) _ _ value_null 7 _ rfl rfl .nil

theorem one_entry_bin {hash : Int32} {k : ℕ} {t : UInt64} {ns : List Node}
    (hb : BinAt (one_entry false) none .hashMap hash k t ns) : ns = [the_entry] := by
  cases hb with
  | empty_table hn hneg =>
    obtain rfl := Except.ok.inj hn
    exact absurd hneg (by decide)
  | vacant hs hnull =>
    rw [slot_unique hs (one_entry_slot hash t)] at hnull
    cases hnull
  | chain _ hs hc =>
    rw [slot_unique hs (one_entry_slot hash t)] at hc
    cases hc with
    | cons hread hash' hrest =>
      obtain ⟨rfl, rfl, rfl, rfl⟩ : _ = value_int 7 ∧ _ = value_object 13 ∧
          _ = value_object 14 ∧ _ = value_null := by
        simpa using (Option.some.inj hread).symm
      obtain rfl := Option.some.inj hash'
      have hend : Chain (one_entry false) none "value" none _ := hrest
      cases hend
      rfl
  | plain hbad => cases hbad
  | tree hbad => cases hbad
  | reserved hbad => cases hbad
  | moved hbad => cases hbad

theorem one_entry_map :
    MapAt (one_entry false) none (fun _ => 7) .hashMap 10 ⟨91, .object 11⟩ [the_entry] where
  table_read := rfl
  unallocated := by
    intro hnone
    cases hnone
  bins := by
    intro t ht hash
    exact ⟨0, [the_entry], .chain (by decide) (one_entry_slot hash t) one_entry_chain⟩
  within := by
    intro t ht hash k ns hb n hn
    obtain rfl := Option.some.inj ht
    rw [one_entry_bin hb] at hn
    exact hn
  located := by
    intro t ht n hn k ns hb
    obtain rfl := Option.some.inj ht
    rw [one_entry_bin hb]
    exact hn
  hashed := by
    intro n hn
    rw [List.mem_singleton.mp hn]
    decide
  distinct := by
    intro n hn m hm _ _ _
    rw [List.mem_singleton.mp hn, List.mem_singleton.mp hm]

theorem one_entry_hashes : Hashes (one_entry false) fun _ => 7 := by
  intro want stored hk
  rw [one_entry_key hk]
  rfl

theorem rooted_none (h : Heap) : Rooted h none := by
  intro obj t hbad
  cases hbad

theorem map_read_right_one_entry :
    Right (one_entry false) [the_entry] (.int 7)
        (structural_index (one_entry false) none (fun _ => "") 10 .hashMap (.int 7) "m") ∧
      (Right (one_entry false) [the_entry] (.int 7)
          (structural_index (one_entry true) none (fun _ => "") 10 .hashMap (.int 7) "m") ↔
        ¬ Misread (one_entry true) (one_entry false) none .hashMap 10 (.int 7)) :=
  map_read_right (one_entry false) (one_entry true) one_entry_answers none
    (rooted_none _) (fun _ => 7) one_entry_hashes .hashMap (by decide) 10 ⟨91, .object 11⟩
    [the_entry] one_entry_map (fun _ => "") (.int 7) "m"

/-- `m[7]` answers null for the entry whose key's type could not be read. -/
theorem unread_key_reported_absent :
    structural_index (one_entry true) none (fun _ => "") 10 .hashMap (.int 7) "m" =
        .ok (.read value_null) ∧
      KeyIs (one_entry false) (.int 7) the_entry.key ∧ the_entry.value ≠ value_null ∧
      ¬ Right (one_entry false) [the_entry] (.int 7)
        (structural_index (one_entry true) none (fun _ => "") 10 .hashMap (.int 7) "m") := by
  have hnull : structural_index (one_entry true) none (fun _ => "") 10 .hashMap (.int 7) "m" =
      .ok (.read value_null) := by
    rfl
  have hkey : KeyIs (one_entry false) (.int 7) the_entry.key :=
    ⟨13, 3, _, rfl, rfl, rfl, rfl, value_int 7, rfl, rfl⟩
  refine ⟨hnull, hkey, by decide, ?_⟩
  intro hright
  rcases hright _ hnull with ⟨n, hn, -, hvalue⟩ | ⟨habsent, -⟩
  · rw [List.mem_singleton.mp hn] at hvalue
    exact absurd hvalue (by decide)
  · exact habsent the_entry (List.mem_singleton_self _) hkey

end Runs

end JavaDebug.MapReads
