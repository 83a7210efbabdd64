import JavaDebug.DeepRenders
import JavaDebug.GenericSignatures
import Mathlib.Data.List.TakeWhile

/-!
Method descriptors of the class-file format, and the two functions that take one
apart: one counts the parameters and one lists them. Each reads one parameter off
the front exactly, however deep its arrays are, but both first cut the text at its
first closing parenthesis, which a class name may contain. `splitters_agree_iff`
says when the parameters come out right; the two count alike in any case.
-/
namespace JavaDebug.MethodDescriptors

open Overloads DeepRenders
open GenericSignatures (BaseType)

section Grammar

/-- A part of a class name between slashes. -/
structure UnqualifiedName where
  chars : List Char
  nonempty : chars ≠ []
  plain : ∀ c ∈ chars, c ∉ ['.', ';', '[', '/']

/-- The name of a class or an interface in its internal form. -/
structure ClassName where
  package : List UnqualifiedName
  simple : UnqualifiedName

def ClassName.chars (n : ClassName) : List Char :=
  n.package.flatMap (fun p => p.chars ++ ['/']) ++ n.simple.chars

inductive FieldType
  | base (b : BaseType)
  | object (name : ClassName)
  | array (component : FieldType)

namespace FieldType

def chars : FieldType → List Char
  | base b => b.letter.toList
  | object n => 'L' :: (n.chars ++ [';'])
  | array t => '[' :: t.chars

/-- The name of the class that the type is, or is an array of. -/
def class_name : FieldType → List Char
  | base _ => []
  | object n => n.chars
  | array t => t.class_name

end FieldType

/-- A method that returns nothing has no `ret`. -/
structure MethodDescriptor where
  params : List FieldType
  ret : Option FieldType

namespace MethodDescriptor

variable (d : MethodDescriptor)

/-- The text between the parentheses. -/
def between : List Char := d.params.flatMap FieldType.chars

def ret_chars : List Char := (d.ret.map FieldType.chars).getD ['V']

def text : String := String.ofList ('(' :: (d.between ++ ')' :: d.ret_chars))

end MethodDescriptor

/-- The list is that of the parameters and joins to the text between the parentheses, and the
count is its length. -/
structure SplitsRight (d : MethodDescriptor) : Prop where
  types : sig_param_types d.text = d.params.map fun t => String.ofList t.chars
  joined : String.join (sig_param_types d.text) = String.ofList d.between
  count : sig_arg_count d.text = (sig_param_types d.text).length

end Grammar

section Cut

/-- What stands before the first closing parenthesis. -/
def cut (s : List Char) : List Char := s.takeWhile (· ≠ ')')

theorem cut_eq_self {s : List Char} (h : ')' ∉ s) : cut s = s := by
  refine List.takeWhile_eq_self_iff.mpr fun c hc => ?_
  refine decide_eq_true fun heq => h ?_
  rw [← heq]
  exact hc

theorem close_notMem_cut (s : List Char) : ')' ∉ cut s := by
  intro h
  have hne := List.mem_takeWhile_imp h
  simp at hne

theorem cut_append (s rest : List Char) :
    cut (s ++ rest) = if ')' ∈ s then cut s else s ++ cut rest := by
  induction s with
  | nil => rfl
  | cons c s ih =>
    unfold cut at ih ⊢
    by_cases hc : c = ')'
    · simp [hc]
    · have hne : ')' ≠ c := fun heq => hc heq.symm
      simp only [List.cons_append, List.takeWhile_cons, ne_eq, hc, not_false_eq_true, decide_true,
        if_true, List.mem_cons, hne, false_or, ih]
      split <;> rfl

theorem idxOf_close (s rest : List Char) : (s ++ ')' :: rest).idxOf ')' = (cut s).length := by
  unfold cut
  induction s with
  | nil => simp
  | cons c s ih =>
    by_cases hc : c = ')'
    · simp [hc]
    · simp [hc, ih]

theorem take_close (s rest : List Char) : (s ++ ')' :: rest).take (cut s).length = cut s := by
  unfold cut
  induction s with
  | nil => simp
  | cons c s ih =>
    by_cases hc : c = ')'
    · simp [hc]
    · simpa [hc] using ih

/-- Both functions read what stands between the first two parentheses of either kind. -/
theorem splitters_text (s ret : List Char) :
    sig_param_types (String.ofList ('(' :: (s ++ ')' :: ret))) =
        types_loop (cut s).length (cut s) ∧
      sig_arg_count (String.ofList ('(' :: (s ++ ')' :: ret))) = arg_count false (cut s) := by
  have hopen : ('(' :: (s ++ ')' :: ret)).idxOf '(' = 0 := by simp
  have hclose : ('(' :: (s ++ ')' :: ret)).idxOf ')' = (cut s).length + 1 := by
    rw [List.idxOf_cons_ne _ (by decide), idxOf_close]
  have hin : (cut s).length + 1 < ('(' :: (s ++ ')' :: ret)).length := by
    have hle : (cut s).length ≤ s.length := (List.takeWhile_prefix _).length_le
    simp only [List.length_cons, List.length_append]
    omega
  have hinside : (('(' :: (s ++ ')' :: ret)).take ((cut s).length + 1)).drop (0 + 1) = cut s := by
    rw [List.take_succ_cons]
    exact take_close s ret
  unfold sig_param_types sig_arg_count
  simp only [String.toList_ofList, hopen, hclose, hinside]
  rw [if_pos ⟨Nat.succ_pos _, hin⟩, if_pos ⟨Nat.succ_pos _, hin⟩]
  exact ⟨rfl, rfl⟩

end Cut

section Types

theorem letter_chars (b : BaseType) : ∃ c, b.letter.toList = [c] ∧ c ≠ '[' ∧ c ≠ 'L' ∧ c ≠ ')' := by
  cases b <;> exact ⟨_, rfl, by decide, by decide, by decide⟩

theorem name_plain (n : ClassName) : ∀ c ∈ n.chars, c ≠ ';' := by
  have hpart : ∀ p : UnqualifiedName, ∀ c ∈ p.chars, c ≠ ';' := fun p c hc heq =>
    p.plain c hc (by simp [heq])
  intro c hc
  rcases List.mem_append.mp hc with hc | hc
  · obtain ⟨p, -, hc⟩ := List.mem_flatMap.mp hc
    rcases List.mem_append.mp hc with hc | hc
    · exact hpart p c hc
    · rw [List.mem_singleton.mp hc]
      decide
  · exact hpart n.simple c hc

variable (t : FieldType) (s : List Char)

theorem close_mem_chars : ')' ∈ t.chars ↔ ')' ∈ t.class_name := by
  induction t with
  | base b =>
    obtain ⟨c, hc, -, -, hne⟩ := letter_chars b
    simp [FieldType.chars, FieldType.class_name, hc, Ne.symm hne]
  | object n => simp [FieldType.chars, FieldType.class_name]
  | array t ih => simpa [FieldType.chars, FieldType.class_name] using ih

theorem arg_count_name {s : List Char} (h : ∀ c ∈ s, c ≠ ';') (rest : List Char) :
    arg_count true (s ++ rest) = arg_count true rest := by
  induction s with
  | nil => rfl
  | cons c s ih =>
    have hc := h c List.mem_cons_self
    simp only [List.cons_append, arg_count, if_true, hc, ne_eq, not_false_eq_true, decide_true]
    exact ih fun d hd => h d (List.mem_cons_of_mem _ hd)

theorem arg_count_class : arg_count false ('L' :: s) = arg_count true s + 1 := rfl

theorem arg_count_bracket : arg_count false ('[' :: s) = arg_count false s := rfl

theorem arg_count_letter {c : Char} (hbracket : c ≠ '[') (hclass : c ≠ 'L') (s : List Char) :
    arg_count false (c :: s) = arg_count false s + 1 := by
  simp [arg_count, hbracket, hclass]

theorem take_type_bracket :
    take_type ('[' :: s) = ('[' :: (take_type s).1, (take_type s).2) := rfl

theorem take_type_letter {c : Char} (hbracket : c ≠ '[') (hclass : c ≠ 'L') (s : List Char) :
    take_type (c :: s) = ([c], s) := by
  simp [take_type, hbracket, hclass]

/-- A class is read up to its semicolon, or to the end of the text. -/
theorem take_type_class {s : List Char} (h : ∀ c ∈ s, c ≠ ';') (rest : List Char)
    (hrest : rest = [] ∨ rest.head? = some ';') :
    take_type ('L' :: (s ++ rest)) = ('L' :: (s ++ rest.take 1), rest.drop 1) := by
  have hpos : ∀ c ∈ s, decide (c ≠ ';') = true := fun c hc => decide_eq_true (h c hc)
  have hname : (s ++ rest).takeWhile (· ≠ ';') = s ∧ (s ++ rest).dropWhile (· ≠ ';') = rest := by
    rw [List.takeWhile_append_of_pos hpos, List.dropWhile_append_of_pos hpos]
    rcases hrest with rfl | hhead
    · exact ⟨List.append_nil s, rfl⟩
    · cases rest with
      | nil => cases hhead
      | cons c rest =>
        rw [Option.some.inj hhead]
        simp
  have hread : take_type ('L' :: (s ++ rest)) =
      ('L' :: ((s ++ rest).takeWhile (· ≠ ';') ++ ((s ++ rest).dropWhile (· ≠ ';')).take 1),
        ((s ++ rest).dropWhile (· ≠ ';')).drop 1) := rfl
  rw [hread, hname.1, hname.2]

theorem take_type_chars (rest : List Char) : take_type (t.chars ++ rest) = (t.chars, rest) := by
  induction t with
  | base b =>
    obtain ⟨c, hc, hbracket, hclass, -⟩ := letter_chars b
    simp only [FieldType.chars, hc, List.singleton_append]
    exact take_type_letter hbracket hclass rest
  | object n =>
    have hread := take_type_class (name_plain n) (';' :: rest) (Or.inr rfl)
    simpa [FieldType.chars] using hread
  | array t ih =>
    simp only [FieldType.chars, List.cons_append]
    rw [take_type_bracket, ih]

theorem arg_count_chars (rest : List Char) :
    arg_count false (t.chars ++ rest) = arg_count false rest + 1 := by
  induction t with
  | base b =>
    obtain ⟨c, hc, hbracket, hclass, -⟩ := letter_chars b
    simp only [FieldType.chars, hc, List.singleton_append]
    exact arg_count_letter hbracket hclass rest
  | object n =>
    simp only [FieldType.chars, List.cons_append, List.append_assoc]
    rw [arg_count_class, arg_count_name (name_plain n)]
    rfl
  | array t ih =>
    simp only [FieldType.chars, List.cons_append]
    rw [arg_count_bracket, ih]

theorem chars_ne_nil : t.chars ≠ [] := by
  cases t with
  | base b =>
    obtain ⟨c, hc, -⟩ := letter_chars b
    simp [FieldType.chars, hc]
  | object n => simp [FieldType.chars]
  | array t => simp [FieldType.chars]

/-- What is left of a parameter that is cut inside its class name is read, and counts, as one. -/
theorem cut_chars {t : FieldType} (h : ')' ∈ t.chars) :
    cut t.chars ≠ [] ∧ take_type (cut t.chars) = (cut t.chars, []) ∧
      arg_count false (cut t.chars) = 1 := by
  induction t with
  | base b =>
    obtain ⟨c, hc, -, -, hne⟩ := letter_chars b
    simp [FieldType.chars, hc, Ne.symm hne] at h
  | object n =>
    have hin : ')' ∈ n.chars := (close_mem_chars (.object n)).mp h
    have hcut : cut (FieldType.object n).chars = 'L' :: cut n.chars := by
      have hname := cut_append n.chars [';']
      rw [if_pos hin] at hname
      rw [← hname]
      rfl
    have hplain : ∀ c ∈ cut n.chars, c ≠ ';' := fun c hc =>
      name_plain n c ((List.takeWhile_prefix _).subset hc)
    have hread := take_type_class hplain [] (Or.inl rfl)
    have hcount := arg_count_name hplain []
    rw [List.append_nil] at hread hcount
    rw [hcut]
    refine ⟨List.cons_ne_nil _ _, ?_, ?_⟩
    · simpa using hread
    · rw [arg_count_class, hcount]
      rfl
  | array t ih =>
    have hin : ')' ∈ t.chars := by simpa [FieldType.chars] using h
    obtain ⟨-, hread, hcount⟩ := ih hin
    have hcut : cut (FieldType.array t).chars = '[' :: cut t.chars := rfl
    rw [hcut, take_type_bracket, arg_count_bracket, hread, hcount]
    exact ⟨List.cons_ne_nil _ _, rfl, rfl⟩

end Types

section Lists

variable {s : List Char}

theorem loop_read (hs : s ≠ []) (n : ℕ) :
    types_loop (n + 1) s = String.ofList (take_type s).1 :: types_loop n (take_type s).2 := by
  cases s with
  | nil => exact absurd rfl hs
  | cons c rest => rfl

theorem loop_nil (n : ℕ) : types_loop n [] = [] := by
  cases n <;> rfl

/-- Nothing is lost and nothing added, whatever the text. -/
theorem take_type_parts (s : List Char) : (take_type s).1 ++ (take_type s).2 = s := by
  induction s with
  | nil => rfl
  | cons c rest ih =>
    unfold take_type
    split
    · simpa using ih
    · split
      · have hparts : rest.takeWhile (· ≠ ';') ++ rest.dropWhile (· ≠ ';') = rest :=
          List.takeWhile_append_dropWhile
        simp only [List.cons_append, List.append_assoc, List.take_append_drop, hparts]
      · rfl

theorem take_type_ne_nil (hs : s ≠ []) : (take_type s).1 ≠ [] := by
  cases s with
  | nil => exact absurd rfl hs
  | cons c rest =>
    unfold take_type
    split
    · exact List.cons_ne_nil _ _
    · split <;> exact List.cons_ne_nil _ _

theorem take_type_left_lt (hs : s ≠ []) : (take_type s).2.length < s.length := by
  have hlength := congrArg List.length (take_type_parts s)
  have hpos := List.length_pos_iff.mpr (take_type_ne_nil hs)
  rw [List.length_append] at hlength
  omega

variable {n : ℕ}

theorem loop_joined (hn : s.length ≤ n) : (types_loop n s).flatMap String.toList = s := by
  induction n generalizing s with
  | zero =>
    rw [List.length_eq_zero_iff.mp (Nat.le_zero.mp hn)]
    rfl
  | succ n ih =>
    by_cases hs : s = []
    · rw [hs]
      rfl
    · have hleft := take_type_left_lt hs
      rw [loop_read hs, List.flatMap_cons, String.toList_ofList, ih (by omega), take_type_parts]

theorem loop_chars (ts : List FieldType) (hn : (ts.flatMap FieldType.chars).length ≤ n) :
    types_loop n (ts.flatMap FieldType.chars) = ts.map fun t => String.ofList t.chars := by
  induction ts generalizing n with
  | nil => exact loop_nil n
  | cons t rest ih =>
    rw [List.flatMap_cons, List.length_append] at hn
    have hpos := List.length_pos_iff.mpr (chars_ne_nil t)
    obtain ⟨n, rfl⟩ : ∃ m, n = m + 1 := ⟨n - 1, by omega⟩
    rw [List.flatMap_cons, loop_read (List.append_ne_nil_of_left_ne_nil (chars_ne_nil t) _),
      take_type_chars, ih (by omega), List.map_cons]

theorem loop_count (ts : List FieldType) (hn : (cut (ts.flatMap FieldType.chars)).length ≤ n) :
    (types_loop n (cut (ts.flatMap FieldType.chars))).length =
      arg_count false (cut (ts.flatMap FieldType.chars)) := by
  induction ts generalizing n with
  | nil => exact congrArg List.length (loop_nil n)
  | cons t rest ih =>
    rw [List.flatMap_cons, cut_append] at hn ⊢
    by_cases ht : ')' ∈ t.chars
    · rw [if_pos ht] at hn ⊢
      obtain ⟨hne, hread, hcount⟩ := cut_chars ht
      have hpos := List.length_pos_iff.mpr hne
      obtain ⟨n, rfl⟩ : ∃ m, n = m + 1 := ⟨n - 1, by omega⟩
      rw [loop_read hne, hread, hcount, loop_nil]
      rfl
    · rw [if_neg ht] at hn ⊢
      rw [List.length_append] at hn
      have hpos := List.length_pos_iff.mpr (chars_ne_nil t)
      obtain ⟨n, rfl⟩ : ∃ m, n = m + 1 := ⟨n - 1, by omega⟩
      rw [loop_read (List.append_ne_nil_of_left_ne_nil (chars_ne_nil t) _), take_type_chars,
        arg_count_chars, List.length_cons, ih (by omega)]

end Lists

section Descriptors

variable (d : MethodDescriptor)

theorem types_text : sig_param_types d.text =
    types_loop (cut d.between).length (cut d.between) :=
  (splitters_text d.between d.ret_chars).1

/-- The two functions never drift apart on a descriptor. -/
theorem counts_agree : sig_arg_count d.text = (sig_param_types d.text).length := by
  rw [types_text]
  exact (splitters_text d.between d.ret_chars).2.trans (loop_count d.params le_rfl).symm

theorem types_joined : String.join (sig_param_types d.text) = String.ofList (cut d.between) := by
  refine String.toList_inj.mp ?_
  rw [String.toList_join, types_text, loop_joined le_rfl, String.toList_ofList]

theorem close_mem_between : ')' ∈ d.between ↔ ∃ t ∈ d.params, ')' ∈ t.class_name := by
  simp only [MethodDescriptor.between, List.mem_flatMap, close_mem_chars]

/-- The parameters come out right exactly when none is of a class with a closing parenthesis in
its name. -/
theorem splitters_agree_iff : SplitsRight d ↔ ∀ t ∈ d.params, ')' ∉ t.class_name := by
  constructor
  · intro h t ht hclose
    have hin : ')' ∈ d.between := (close_mem_between d).mpr ⟨t, ht, hclose⟩
    have hjoined := congrArg String.toList ((types_joined d).symm.trans h.joined)
    rw [String.toList_ofList, String.toList_ofList] at hjoined
    rw [← hjoined] at hin
    exact close_notMem_cut _ hin
  · intro h
    have hout : ')' ∉ d.between := fun hin => by
      obtain ⟨t, ht, hclose⟩ := (close_mem_between d).mp hin
      exact h t ht hclose
    have hcut : cut d.between = d.between := cut_eq_self hout
    refine ⟨?_, (types_joined d).trans (by rw [hcut]), counts_agree d⟩
    rw [types_text, hcut]
    exact loop_chars d.params le_rfl

/-- The class `a/B$when(x)`. -/
def parenthesized : ClassName :=
  ⟨[⟨['a'], by simp, by simp⟩], ⟨['B', '$', 'w', 'h', 'e', 'n', '(', 'x', ')'], by simp, by simp⟩⟩

/-- Of `(La/B$when(x);I)V` one parameter is counted, and the one listed ends at the `x`. -/
theorem parenthesized_cut : sig_arg_count "(La/B$when(x);I)V" = 1 ∧
    sig_param_types "(La/B$when(x);I)V" = ["La/B$when(x"] ∧
    ¬ ∀ d : MethodDescriptor, SplitsRight d := by
  refine ⟨by decide, by decide, fun h => ?_⟩
  have hright := h ⟨[.object parenthesized, .base .int], none⟩
  exact absurd hright.types (by decide)

end Descriptors

end JavaDebug.MethodDescriptors
