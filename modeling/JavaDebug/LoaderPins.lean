import JavaDebug.ClassNames
import Mathlib.Data.List.Infix

/-!
Reads pinned to one loader's copy. The id of the loader is printed into a label and
looked for in the labels, so a copy is taken for the loader's when the digits of its
own loader only begin with those asked for, or when they stand in the name of a
loader's class or in the text of a failed read. A bare name that no copy is spelled
by is looked for among all classes, whatever loader was asked for.
-/
namespace JavaDebug.LoaderPins

open Addressing ClassNames

section Code

abbrev Text := List Char

structure ClassInfo where
  ref_type_tag : UInt8
  type_id : UInt64
  signature : Text

/-- What the debuggee answers; errors as they are displayed. The bootstrap loader has the id 0. A
loader has no signature when its type or its signature cannot be read. -/
structure Answers where
  classes_by_signature : Text → Except Text (List ClassInfo)
  class_loader : UInt64 → Except Text UInt64
  loader_signature : UInt64 → Option Text
  all_classes : Except Text (List ClassInfo)

def digits (id : ℕ) : Text := Nat.toDigits 16 id

def hex (id : ℕ) : Text := '0' :: 'x' :: digits id

variable (d : Answers)

/-- A loader, with its type when that can be read. -/
def loader_text (loader : UInt64) : Text :=
  match d.loader_signature loader with
  | some sig => decode_internal_name sig ++ '@' :: hex loader.toNat
  | none => hex loader.toNat

def loader_label (class_id : UInt64) : Text :=
  match d.class_loader class_id with
  | .error e => "(loader unreadable: ".toList ++ (e ++ [')'])
  | .ok loader => if loader = 0 then "bootstrap".toList else loader_text d loader

def indexed (i : ℕ) (label : Text) : Text := '#' :: (Nat.toDigits 10 i ++ ' ' :: label)

def describe_class_loaders (class_ids : List UInt64) : List Text :=
  class_ids.zipIdx.map fun w => indexed w.2 (loader_label d w.1)

def joined (labels : List Text) : Text := (labels.intersperse "; ".toList).flatten

/-- The copies of the first spelling that has any. -/
def first_copies : List Text → Except Text (List ClassInfo)
  | [] => .ok []
  | signature :: rest =>
    match d.classes_by_signature signature with
    | .error e => .error e
    | .ok [] => first_copies rest
    | .ok (c :: found) => .ok (c :: found)

/-- The first copy whose label has the id in it. -/
def pinned_copy (want : ℕ) (ids : List UInt64) : Option UInt64 :=
  ((ids.zip (describe_class_loaders d ids)).find? fun c => decide (hex want <:+: c.2)).map Prod.fst

variable (class_name : Text)

def none_by (want : ℕ) (ids : List UInt64) : Text :=
  class_name ++ " is loaded ".toList ++ Nat.toDigits 10 ids.length ++
    " time(s), but none by classloader ".toList ++ hex want ++ ". Loaded by: ".toList ++
    joined (describe_class_loaders d ids) ++ ".".toList

def ambiguous (ids : List UInt64) : Text :=
  let labels := describe_class_loaders d ids
  "\n⚠️  ".toList ++ class_name ++ " is loaded by ".toList ++ Nat.toDigits 10 ids.length ++
    " classloaders and this call used the first (".toList ++ labels.head?.getD "#0".toList ++
    "). Each copy is a different type with its own statics — on WildFly a library ".toList ++
    "packed into more than one deployment's WEB-INF/lib genuinely holds different ".toList ++
    "values per war, so this may not be the copy you meant. Loaded by: ".toList ++
    joined labels ++ ". Target a specific one with ".toList ++ class_name ++
    "@<the 0x… you want>.".toList

def not_loaded : Text :=
  let simple := ((rsplit_once '.' class_name).map Prod.snd).getD class_name
  class_name ++ (" is not loaded in the debuggee. Either the name is wrong, or the JVM has not " ++
    "loaded it yet — classes load on first use, so an untouched code path has none of its " ++
    "classes present. To tell those apart: debug.list_classes with filter \"*.").toList ++
    simple ++ "\".".toList

/-- The copy to read, and a note when there are others. -/
def resolve_loaded_class_for_read (text : Text) : Except Text (UInt64 × Option Text) :=
  let class_name := (split_loader_selector text).1
  match first_copies d (descriptor_candidates class_name) with
  | .error e => .error ("Failed to resolve ".toList ++ class_name ++ ": ".toList ++ e)
  | .ok [] => .error (not_loaded class_name)
  | .ok (c :: rest) =>
    let ids := (c :: rest).map ClassInfo.type_id
    match (split_loader_selector text).2 with
    | some want =>
      match pinned_copy d want ids with
      | some id => .ok (id, none)
      | none => .error (none_by d class_name want ids ++
          " Loader ids are weak references and change across a redeploy — re-read the list.".toList)
    | none => .ok (c.type_id, if rest = [] then none else some (ambiguous d class_name ids))

/-- Classes before interfaces. -/
def rank (classes : List ClassInfo) : List UInt64 :=
  (classes.filter fun c => c.ref_type_tag = 1).map ClassInfo.type_id ++
    (classes.filter fun c => c.ref_type_tag ≠ 1).map ClassInfo.type_id

def named_simply (name : Text) (c : ClassInfo) : Bool :=
  ('/' :: (name ++ [';'])).isSuffixOf c.signature || c.signature = descriptor_of name

def resolve_class_copies_by_dotted (text : Text) : Except Text (List UInt64) :=
  let dotted := (split_loader_selector text).1
  match first_copies d (descriptor_candidates dotted) with
  | .error e => .error ("classes_by_signature failed: ".toList ++ e)
  | .ok (c :: rest) =>
    match (split_loader_selector text).2 with
    | some want =>
      let ids := (c :: rest).map ClassInfo.type_id
      match pinned_copy d want ids with
      | some id => .ok [id]
      | none => .error (none_by d dotted want ids)
    | none => .ok (rank (c :: rest))
  | .ok [] =>
    if '.' ∉ dotted then
      match d.all_classes with
      | .error e => .error ("all_classes failed: ".toList ++ e)
      | .ok all => .ok (rank (all.filter (named_simply dotted)))
    else .ok []

end Code

section Purpose

variable (d : Answers) (want : ℕ)

/-- The copy is defined by the loader with exactly that id. -/
def DefinedBy (id : UInt64) : Prop := ∃ loader, d.class_loader id = .ok loader ∧ loader.toNat = want

/-- A pinned read never yields another loader's copy. -/
structure PinnedExactly (text : Text) : Prop where
  read : ∀ want, (split_loader_selector text).2 = some want → ∀ id note,
    resolve_loaded_class_for_read d text = .ok (id, note) → DefinedBy d want id
  head : ∀ want, (split_loader_selector text).2 = some want → ∀ ids,
    resolve_class_copies_by_dotted d text = .ok ids → ∀ id ∈ ids, DefinedBy d want id

/-- The id asked for stands in what is printed of a copy that another loader defined. -/
inductive Misread (id : UInt64) : Prop
  | unreadable (e : Text) : d.class_loader id = .error e → hex want <:+: e → Misread id
  | longer (loader : UInt64) : d.class_loader id = .ok loader → loader ≠ 0 →
      loader.toNat ≠ want → digits want <+: digits loader.toNat → Misread id
  | named (loader : UInt64) (sig : Text) : d.class_loader id = .ok loader → loader ≠ 0 →
      loader.toNat ≠ want → d.loader_signature loader = some sig →
      hex want <:+: decode_internal_name sig → Misread id

/-- The copy is defined by that loader, which is not the bootstrap loader. -/
def Labelled (id : UInt64) : Prop :=
  ∃ loader, d.class_loader id = .ok loader ∧ loader ≠ 0 ∧ loader.toNat = want

/-- A copy that can be mistaken has one of the loader asked for in front of it, and no class is
found by its simple name alone but those of that loader. -/
structure Unmistaken (text : Text) : Prop where
  copies : ∀ want, (split_loader_selector text).2 = some want → ∀ found,
    first_copies d (descriptor_candidates (split_loader_selector text).1) = .ok found →
      ∀ before c after, found = before ++ c :: after → Misread d want c.type_id →
        ∃ c' ∈ before, Labelled d want c'.type_id
  simple : ∀ want, (split_loader_selector text).2 = some want →
    first_copies d (descriptor_candidates (split_loader_selector text).1) = .ok [] →
      '.' ∉ (split_loader_selector text).1 → ∀ all, d.all_classes = .ok all →
        ∀ c ∈ all, named_simply (split_loader_selector text).1 c = true →
          DefinedBy d want c.type_id

end Purpose

section Labels

theorem toDigits_digit (base n : ℕ) (hbase : 1 < base) :
    ∀ c ∈ Nat.toDigits base n, ∃ k < base, c = Nat.digitChar k := by
  induction n using Nat.strong_induction_on with
  | h n ih =>
    rw [Nat.toDigits_eq_if hbase]
    split_ifs with hn
    · intro c hc
      exact ⟨n, hn, List.mem_singleton.mp hc⟩
    · intro c hc
      rcases List.mem_append.mp hc with hfront | hlast
      · exact ih (n / base) (Nat.div_lt_self (by omega) hbase) c hfront
      · exact ⟨n % base, Nat.mod_lt n (by omega), List.mem_singleton.mp hlast⟩

theorem digit_plain : ∀ k < 16, Nat.digitChar k ≠ 'x' ∧ Nat.digitChar k ≠ ' ' ∧
    Nat.digitChar k ≠ '@' ∧ Nat.digitChar k ≠ ')' := by decide

theorem hex_plain (id : ℕ) : ' ' ∉ hex id ∧ '@' ∉ hex id ∧ ')' ∉ hex id := by
  have hdigit : ∀ c ∈ digits id, c ≠ ' ' ∧ c ≠ '@' ∧ c ≠ ')' := by
    intro c hc
    obtain ⟨k, hk, rfl⟩ := toDigits_digit 16 id (by decide) c hc
    exact (digit_plain k hk).2
  simp only [hex, List.mem_cons, not_or]
  exact ⟨⟨by decide, by decide, fun h => (hdigit _ h).1 rfl⟩,
    ⟨by decide, by decide, fun h => (hdigit _ h).2.1 rfl⟩,
    by decide, by decide, fun h => (hdigit _ h).2.2 rfl⟩

theorem digits_no_x (base n : ℕ) (hbase : 1 < base) (hle : base ≤ 16) :
    'x' ∉ Nat.toDigits base n := by
  intro h
  obtain ⟨k, hk, heq⟩ := toDigits_digit base n hbase 'x' h
  exact (digit_plain k (by omega)).1 heq.symm

theorem not_infix_of_no_x (id : ℕ) (s : Text) (h : 'x' ∉ s) : ¬ hex id <:+: s := fun hin =>
  h (hin.subset (List.mem_cons_of_mem _ List.mem_cons_self))

/-- A text without the separator stands on one side of it. -/
theorem infix_split (needle x y : Text) (sep : Char) (h : sep ∉ needle) :
    needle <:+: x ++ sep :: y ↔ needle <:+: x ∨ needle <:+: y := by
  constructor
  · rintro ⟨s, t, heq⟩
    rw [List.append_assoc] at heq
    rcases List.append_eq_append_iff.mp heq with ⟨x', rfl, hrest⟩ | ⟨s', rfl, hrest⟩
    · rcases List.append_eq_append_iff.mp hrest with ⟨t', rfl, -⟩ | ⟨n', rfl, hlast⟩
      · exact .inl ⟨s, t', by simp⟩
      · obtain _ | ⟨c, n'⟩ := n'
        · exact .inl ⟨s, [], by simp⟩
        · obtain ⟨rfl, -⟩ := List.cons.inj hlast
          exact absurd (List.mem_append_right x' List.mem_cons_self) h
    · obtain _ | ⟨c, s'⟩ := s'
      · obtain _ | ⟨c, needle⟩ := needle
        · exact .inl (List.nil_infix)
        · obtain ⟨rfl, -⟩ := List.cons.inj hrest
          exact absurd List.mem_cons_self h
      · obtain ⟨-, rfl⟩ := List.cons.inj hrest
        exact .inr ⟨s', t, by simp⟩
  · rintro (h | h)
    · exact h.trans ⟨[], sep :: y, rfl⟩
    · exact h.trans ⟨x ++ [sep], [], by simp⟩

theorem hex_in_hex (want loader : ℕ) :
    hex want <:+: hex loader ↔ digits want <+: digits loader := by
  constructor
  · intro h
    rcases List.infix_cons_iff.mp h with hfront | hrest
    · obtain ⟨-, h1⟩ := List.cons_prefix_cons.mp hfront
      exact (List.cons_prefix_cons.mp h1).2
    · rcases List.infix_cons_iff.mp hrest with hfront | hlater
      · exact absurd (List.cons_prefix_cons.mp hfront).1 (by decide)
      · exact absurd hlater (not_infix_of_no_x _ _ (digits_no_x 16 loader (by decide) (by decide)))
  · intro h
    exact (List.cons_prefix_cons.mpr ⟨rfl, List.cons_prefix_cons.mpr ⟨rfl, h⟩⟩).isInfix

variable (d : Answers) (want : ℕ)

theorem indexed_iff (i : ℕ) (label : Text) :
    hex want <:+: indexed i label ↔ hex want <:+: label := by
  have hindex : ¬ hex want <:+: '#' :: Nat.toDigits 10 i := by
    refine not_infix_of_no_x _ _ fun h => ?_
    rcases List.mem_cons.mp h with heq | hmem
    · exact absurd heq (by decide)
    · exact digits_no_x 10 i (by decide) (by decide) hmem
  have hsplit := infix_split (hex want) ('#' :: Nat.toDigits 10 i) label ' ' (hex_plain want).1
  rw [indexed, ← List.cons_append, hsplit]
  exact or_iff_right hindex

theorem loader_text_iff (loader : UInt64) : hex want <:+: loader_text d loader ↔
    digits want <+: digits loader.toNat ∨
      ∃ sig, d.loader_signature loader = some sig ∧ hex want <:+: decode_internal_name sig := by
  rw [loader_text]
  rcases hsig : d.loader_signature loader with _ | sig
  · simp [hex_in_hex]
  · simp only [infix_split _ _ _ '@' (hex_plain want).2.1, hex_in_hex, Option.some.injEq,
      exists_eq_left']
    exact or_comm

/-- The id stands in a label when the copy is the loader's, or can be mistaken for it. -/
theorem label_iff (id : UInt64) :
    hex want <:+: loader_label d id ↔ Labelled d want id ∨ Misread d want id := by
  rw [loader_label]
  rcases hloader : d.class_loader id with e | loader
  · have htext : "(loader unreadable: ".toList ++ (e ++ [')']) =
        "(loader unreadable:".toList ++ ' ' :: (e ++ [')']) := by simp
    dsimp only
    rw [htext, infix_split _ _ _ ' ' (hex_plain want).1,
      infix_split _ e [] ')' (hex_plain want).2.2]
    have hfront := not_infix_of_no_x want "(loader unreadable:".toList (by decide)
    have hnil := not_infix_of_no_x want [] List.not_mem_nil
    constructor
    · intro h
      exact .inr (.unreadable e hloader ((h.resolve_left hfront).resolve_right hnil))
    · rintro (⟨l, hl, -⟩ | ⟨e', he', hin⟩ | ⟨l, hl, -⟩ | ⟨l, sig, hl, -⟩)
      · rw [hloader] at hl
        simp at hl
      · obtain rfl := Except.error.inj (hloader.symm.trans he')
        exact .inr (.inl hin)
      all_goals
        rw [hloader] at hl
        simp at hl
  · dsimp only
    by_cases hzero : loader = 0
    · rw [if_pos hzero]
      refine iff_of_false (not_infix_of_no_x _ _ (by decide)) ?_
      rintro (⟨l, hl, hne, -⟩ | ⟨e, he, -⟩ | ⟨l, hl, hne, -⟩ | ⟨l, sig, hl, hne, -⟩)
      · exact hne (Except.ok.inj (hl.symm.trans hloader) ▸ hzero)
      · rw [hloader] at he
        simp at he
      all_goals exact hne (Except.ok.inj (hl.symm.trans hloader) ▸ hzero)
    · rw [if_neg hzero, loader_text_iff]
      constructor
      · intro h
        by_cases hsame : loader.toNat = want
        · exact .inl ⟨loader, hloader, hzero, hsame⟩
        · rcases h with hfront | ⟨sig, hsig, hin⟩
          · exact .inr (.longer loader hloader hzero hsame hfront)
          · exact .inr (.named loader sig hloader hzero hsame hsig hin)
      · rintro (⟨l, hl, -, hsame⟩ | ⟨e, he, -⟩ | ⟨l, hl, -, -, hfront⟩ |
          ⟨l, sig, hl, -, -, hsig, hin⟩)
        · obtain rfl := Except.ok.inj (hloader.symm.trans hl)
          exact .inl (hsame ▸ List.prefix_refl _)
        · rw [hloader] at he
          simp at he
        · obtain rfl := Except.ok.inj (hloader.symm.trans hl)
          exact .inl hfront
        · obtain rfl := Except.ok.inj (hloader.symm.trans hl)
          exact .inr ⟨sig, hsig, hin⟩

end Labels

section Choice

variable (d : Answers) (want : ℕ)

/-- The first copy in whose label the id stands, its place among the labels apart. -/
theorem pinned_copy_eq (ids : List UInt64) :
    pinned_copy d want ids = ids.find? fun id => decide (hex want <:+: loader_label d id) := by
  have hgo : ∀ (ids : List UInt64) (k : ℕ),
      ((ids.zip ((ids.zipIdx k).map fun w => indexed w.2 (loader_label d w.1))).find?
        fun c => decide (hex want <:+: c.2)).map Prod.fst =
          ids.find? fun id => decide (hex want <:+: loader_label d id) := by
    intro ids
    induction ids with
    | nil => exact fun _ => rfl
    | cons id ids ih =>
      intro k
      rw [List.zipIdx_cons, List.map_cons, List.zip_cons_cons, List.find?_cons, List.find?_cons]
      simp only [indexed_iff]
      by_cases hin : hex want <:+: loader_label d id
      · simp [hin]
      · simp only [hin, decide_false]
        exact ih (k + 1)
  exact hgo ids 0

theorem pinned_some (ids : List UInt64) (id : UInt64) : pinned_copy d want ids = some id ↔
    (Labelled d want id ∨ Misread d want id) ∧ ∃ before after, ids = before ++ id :: after ∧
      ∀ id' ∈ before, ¬ (Labelled d want id' ∨ Misread d want id') := by
  rw [pinned_copy_eq, List.find?_eq_some_iff_append]
  simp [label_iff]

theorem labelled_defined (id : UInt64) (h : Labelled d want id) : DefinedBy d want id := by
  obtain ⟨loader, hloader, -, hsame⟩ := h
  exact ⟨loader, hloader, hsame⟩

theorem misread_other (id : UInt64) (h : Misread d want id) : ¬ DefinedBy d want id := by
  rintro ⟨loader, hloader, hsame⟩
  obtain ⟨e, he, -⟩ | ⟨l, hl, -, hne, -⟩ | ⟨l, sig, hl, -, hne, -⟩ := h
  · rw [hloader] at he
    simp at he
  all_goals
    obtain rfl := Except.ok.inj (hloader.symm.trans hl)
    exact hne hsame

/-- The copies that a choice is made from are exactly right when each that can be mistaken has the
loader's own before it. -/
theorem choice_iff (found : List ClassInfo) :
    (∀ id, pinned_copy d want (found.map ClassInfo.type_id) = some id → DefinedBy d want id) ↔
      ∀ before c after, found = before ++ c :: after → Misread d want c.type_id →
        ∃ c' ∈ before, Labelled d want c'.type_id := by
  constructor
  · rintro h before c after rfl hmis
    by_contra hno
    have hfirst : ∃ id,
        pinned_copy d want ((before ++ c :: after).map ClassInfo.type_id) = some id ∧
        (id ∈ before.map ClassInfo.type_id ∨ id = c.type_id) := by
      rw [pinned_copy_eq, List.map_append, List.find?_append, List.map_cons]
      rcases hbefore : (before.map ClassInfo.type_id).find? fun id =>
        decide (hex want <:+: loader_label d id) with _ | id
      · have hc : hex want <:+: loader_label d c.type_id := (label_iff d want _).mpr (.inr hmis)
        exact ⟨c.type_id, by simp [hc], .inr rfl⟩
      · exact ⟨id, rfl, .inl (List.mem_of_find?_eq_some hbefore)⟩
    obtain ⟨id, hid, hplace⟩ := hfirst
    have hdefined := h id hid
    obtain ⟨hlabel | hother, -⟩ := (pinned_some d want _ id).mp hid
    · rcases hplace with hin | rfl
      · obtain ⟨c', hc', rfl⟩ := List.mem_map.mp hin
        exact hno ⟨c', hc', hlabel⟩
      · exact misread_other d want _ hmis hdefined
    · exact misread_other d want _ hother hdefined
  · intro h id hid
    obtain ⟨hlabel | hmis, before, after, hsplit, hbefore⟩ := (pinned_some d want _ id).mp hid
    · exact labelled_defined d want id hlabel
    · obtain ⟨cs, rest, rfl, rfl, hrest⟩ := List.map_eq_append_iff.mp hsplit
      obtain ⟨c, cs', rfl, rfl, -⟩ := List.map_eq_cons_iff.mp hrest
      obtain ⟨c', hc', hlabel⟩ := h cs c cs' rfl hmis
      exact absurd (.inl hlabel) (hbefore _ (List.mem_map_of_mem hc'))

theorem mem_rank (classes : List ClassInfo) (id : UInt64) :
    id ∈ rank classes ↔ ∃ c ∈ classes, c.type_id = id := by
  rw [rank, List.mem_append, List.mem_map, List.mem_map]
  constructor
  · rintro (⟨c, hc, rfl⟩ | ⟨c, hc, rfl⟩)
    · exact ⟨c, List.mem_of_mem_filter hc, rfl⟩
    · exact ⟨c, List.mem_of_mem_filter hc, rfl⟩
  · rintro ⟨c, hc, rfl⟩
    by_cases htag : c.ref_type_tag = 1
    · exact .inl ⟨c, List.mem_filter.mpr ⟨hc, by simpa using htag⟩, rfl⟩
    · exact .inr ⟨c, List.mem_filter.mpr ⟨hc, by simpa using htag⟩, rfl⟩

end Choice

section Reads

variable (d : Answers) (text : Text) (want : ℕ)
  (hwant : (split_loader_selector text).2 = some want)

include hwant

/-- A pinned read of copies that are there yields the choice among them. -/
theorem read_found (found : List ClassInfo) (hne : found ≠ [])
    (h : first_copies d (descriptor_candidates (split_loader_selector text).1) = .ok found) :
    (∀ id note, resolve_loaded_class_for_read d text = .ok (id, note) → DefinedBy d want id) ↔
      ∀ id, pinned_copy d want (found.map ClassInfo.type_id) = some id → DefinedBy d want id := by
  obtain ⟨c, rest, rfl⟩ := List.exists_cons_of_ne_nil hne
  rw [resolve_loaded_class_for_read, h, hwant]
  dsimp only
  rcases pinned_copy d want ((c :: rest).map ClassInfo.type_id) with _ | id
  · simp
  · simp

theorem head_found (found : List ClassInfo) (hne : found ≠ [])
    (h : first_copies d (descriptor_candidates (split_loader_selector text).1) = .ok found) :
    (∀ ids, resolve_class_copies_by_dotted d text = .ok ids → ∀ id ∈ ids, DefinedBy d want id) ↔
      ∀ id, pinned_copy d want (found.map ClassInfo.type_id) = some id → DefinedBy d want id := by
  obtain ⟨c, rest, rfl⟩ := List.exists_cons_of_ne_nil hne
  rw [resolve_class_copies_by_dotted, h, hwant]
  dsimp only
  rcases pinned_copy d want ((c :: rest).map ClassInfo.type_id) with _ | id
  · simp
  · simp

omit hwant in
theorem head_missing
    (h : first_copies d (descriptor_candidates (split_loader_selector text).1) = .ok []) :
    (∀ ids, resolve_class_copies_by_dotted d text = .ok ids → ∀ id ∈ ids, DefinedBy d want id) ↔
      ('.' ∉ (split_loader_selector text).1 → ∀ all, d.all_classes = .ok all →
        ∀ c ∈ all, named_simply (split_loader_selector text).1 c = true →
          DefinedBy d want c.type_id) := by
  rw [resolve_class_copies_by_dotted, h]
  dsimp only
  by_cases hdot : '.' ∉ (split_loader_selector text).1
  · rw [if_pos hdot]
    rcases d.all_classes with e | all
    · simp
    · simp only [Except.ok.injEq, forall_eq', hdot, not_false_eq_true, forall_const, mem_rank,
        List.mem_filter]
      constructor
      · exact fun hall c hc hname => hall c.type_id ⟨c, ⟨hc, hname⟩, rfl⟩
      · rintro hall id ⟨c, ⟨hc, hname⟩, rfl⟩
        exact hall c hc hname
  · rw [if_neg hdot]
    simp [hdot]

end Reads

/-- A pinned read never yields another loader's copy exactly when no copy can be mistaken for the
loader's before its own, and no class of another loader has the simple name alone. -/
theorem pinned_exactly_iff (d : Answers) (text : Text) :
    PinnedExactly d text ↔ Unmistaken d text := by
  constructor
  · intro h
    refine ⟨fun want hwant found hfound => ?_, fun want hwant hfound => ?_⟩
    · by_cases hne : found = []
      · subst hne
        intro before c after hsplit
        simp at hsplit
      · exact (choice_iff d want found).mp
          ((read_found d text want hwant found hne hfound).mp (h.read want hwant))
    · exact (head_missing d text want hfound).mp (h.head want hwant)
  · intro h
    refine ⟨fun want hwant => ?_, fun want hwant => ?_⟩
    · rcases hfound : first_copies d (descriptor_candidates (split_loader_selector text).1) with
        e | found
      · intro id note hok
        rw [resolve_loaded_class_for_read, hfound] at hok
        simp at hok
      · by_cases hne : found = []
        · subst hne
          intro id note hok
          rw [resolve_loaded_class_for_read, hfound] at hok
          simp at hok
        · exact (read_found d text want hwant found hne hfound).mpr
            ((choice_iff d want found).mpr (h.copies want hwant found hfound))
    · rcases hfound : first_copies d (descriptor_candidates (split_loader_selector text).1) with
        e | found
      · intro ids hok
        rw [resolve_class_copies_by_dotted, hfound] at hok
        simp at hok
      · by_cases hne : found = []
        · subst hne
          exact (head_missing d text want hfound).mpr (h.simple want hwant hfound)
        · exact (head_found d text want hwant found hne hfound).mpr
            ((choice_iff d want found).mpr (h.copies want hwant found hfound))

/-- Two copies of `a.B`, the first defined by the loader 0x1fa and the second by 0x1f. -/
def two_copies : Answers where
  classes_by_signature _ := .ok [⟨1, 1, "La/B;".toList⟩, ⟨1, 2, "La/B;".toList⟩]
  class_loader id := .ok (if id = 1 then 506 else 31)
  loader_signature _ := none
  all_classes := .ok []

/-- The read pinned to 0x1f yields the copy of 0x1fa. -/
theorem longer_id_read : ¬ ∀ (d : Answers) (text : Text), PinnedExactly d text := by
  intro h
  obtain ⟨loader, hloader, hsame⟩ := (h two_copies "a.B@0x1f".toList).read 31 (by decide) 1 none
    (by decide +kernel)
  obtain rfl : (506 : UInt64) = loader := Except.ok.inj hloader
  exact absurd hsame (by decide)

end JavaDebug.LoaderPins
