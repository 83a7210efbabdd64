import Mathlib.Data.List.Infix
import Mathlib.Data.List.TakeWhile
import Mathlib.Data.Set.Basic

/-!
Patterns of class names. A family arms the classes that its own matcher accepts,
and it hears of them through a watch whose pattern the debuggee matches. The watch
has to let through whatever the family would arm. It does, but for one name of each
pattern that asks for a suffix beginning with a dot: the suffix without the dot,
which the family takes for a class of the default package.
-/
namespace JavaDebug.NamePatterns

section Code

/-- The text has `part` in it. -/
def contains (text part : String) : Bool :=
  text.toList.tails.any fun rest => part.toList.isPrefixOf rest

def is_wildcard (pattern : List Char) : Bool := pattern.contains '*'

def strip_star_end (s : List Char) : Option (List Char) :=
  if s.getLast? = some '*' then some s.dropLast else none

def strip_star_front (s : List Char) : Option (List Char) :=
  if s.head? = some '*' then some s.tail else none

def trim_stars (s : List Char) : List Char :=
  ((s.dropWhile (· = '*')).reverse.dropWhile (· = '*')).reverse

/-- The family's own matcher. -/
def class_matches (fqn filter : List Char) : Bool :=
  match strip_star_end filter, strip_star_front filter with
  | some _, some _ => decide (trim_stars filter <:+: fqn)
  | some front, none => front.isPrefixOf fqn
  | none, some back => back.isSuffixOf fqn || fqn = back.dropWhile (· = '.')
  | none, none => decide (filter <:+: fqn)

/-- The pattern of the watch, and whether it had to widen. -/
def jdwp_class_match_for (pattern : List Char) : List Char × Bool :=
  let one_star := pattern.count '*' = 1
  if one_star ∧ (pattern.head? = some '*' ∨ pattern.getLast? = some '*') then (pattern, false)
  else (['*'], true)

/-- The debuggee's matcher: a name, or a star before or after a part of one. -/
def class_match (pattern name : List Char) : Bool :=
  match strip_star_front pattern, strip_star_end pattern with
  | some back, _ => back.isSuffixOf name
  | none, some front => front.isPrefixOf name
  | none, none => name = pattern

end Code

section Purpose

/-- The watch hears of the class if the family would arm it. -/
def Heard (pattern name : List Char) : Prop :=
  class_matches name pattern = true → class_match (jdwp_class_match_for pattern).1 name = true

/-- The name is the suffix that the pattern asks for, less the dot in front of it. -/
def Undotted (pattern name : List Char) : Prop :=
  ∃ back, pattern = '*' :: '.' :: back ∧ '*' ∉ back ∧ name = back.dropWhile (· = '.')

end Purpose

section Inclusion

theorem star_matches (name : List Char) : class_match ['*'] name = true := by
  simp [class_match, strip_star_front]

theorem strip_end_some (s front : List Char) :
    strip_star_end s = some front ↔ s = front ++ ['*'] := by
  rcases List.eq_nil_or_concat s with rfl | ⟨t, c, rfl⟩
  · simp [strip_star_end]
  · rw [List.concat_eq_append, strip_star_end, List.getLast?_concat, List.dropLast_concat]
    by_cases hc : c = '*'
    · subst hc
      simp
    · simp [hc]

/-- A watch that widens hears of every class. -/
theorem widened_heard (pattern name : List Char)
    (h : ¬ (pattern.count '*' = 1 ∧ (pattern.head? = some '*' ∨ pattern.getLast? = some '*'))) :
    Heard pattern name := by
  intro _
  have hwide : (jdwp_class_match_for pattern).1 = ['*'] := by
    rw [jdwp_class_match_for, if_neg h]
  rw [hwide]
  exact star_matches name

theorem front_heard (back name : List Char) (hback : '*' ∉ back) :
    Heard ('*' :: back) name ↔ ¬ Undotted ('*' :: back) name := by
  have hcount : ('*' :: back).count '*' = 1 := by simp [List.count_eq_zero.mpr hback]
  have hkept : (jdwp_class_match_for ('*' :: back)).1 = '*' :: back := by
    rw [jdwp_class_match_for, if_pos ⟨hcount, .inl rfl⟩]
  have hmatch : class_match ('*' :: back) name = back.isSuffixOf name := rfl
  rw [Heard, hkept, hmatch]
  obtain _ | ⟨c, back⟩ := back
  · refine iff_of_true (fun _ => by simp) ?_
    rintro ⟨back, heq, -⟩
    simp at heq
  · have hend : strip_star_end ('*' :: c :: back) = none := by
      rcases h : strip_star_end ('*' :: c :: back) with _ | front
      · rfl
      · rw [strip_end_some] at h
        have hlast := congrArg List.getLast? h
        rw [List.getLast?_concat, List.getLast?_cons_cons] at hlast
        exact absurd (List.mem_of_getLast? hlast) hback
    have hfamily : class_matches name ('*' :: c :: back) =
        ((c :: back).isSuffixOf name || decide (name = (c :: back).dropWhile (· = '.'))) := by
      rw [class_matches, hend]
      rfl
    rw [hfamily, Bool.or_eq_true, decide_eq_true_eq]
    by_cases hdot : c = '.'
    · subst hdot
      have hdrop : ('.' :: back).dropWhile (· = '.') = back.dropWhile (· = '.') := by simp
      rw [hdrop]
      constructor
      · rintro h ⟨back', heq, -, hname⟩
        obtain rfl := (List.cons.inj (List.cons.inj heq).2).2
        have hlong := (List.isSuffixOf_iff_suffix.mp (h (.inr hname))).length_le
        have hshort := (List.dropWhile_suffix (p := fun c => decide (c = '.'))
          (l := back)).length_le
        rw [hname, List.length_cons] at hlong
        omega
      · rintro h (hsuffix | hname)
        · exact hsuffix
        · exact absurd ⟨back, rfl, fun hm => hback (List.mem_cons_of_mem _ hm), hname⟩ h
    · have hdrop : (c :: back).dropWhile (· = '.') = c :: back := by simp [hdot]
      rw [hdrop]
      refine iff_of_true ?_ ?_
      · rintro (hsuffix | rfl)
        · exact hsuffix
        · exact List.isSuffixOf_iff_suffix.mpr (List.suffix_refl _)
      · rintro ⟨back', heq, -⟩
        exact hdot (List.cons.inj (List.cons.inj heq).2).1

theorem end_heard (front name : List Char) (hfront : '*' ∉ front) (hne : front ≠ []) :
    Heard (front ++ ['*']) name := by
  have hcount : (front ++ ['*']).count '*' = 1 := by simp [List.count_eq_zero.mpr hfront]
  have hkept : (jdwp_class_match_for (front ++ ['*'])).1 = front ++ ['*'] := by
    rw [jdwp_class_match_for, if_pos ⟨hcount, .inr List.getLast?_concat⟩]
  have hstart : strip_star_front (front ++ ['*']) = none := by
    obtain ⟨c, front, rfl⟩ := List.exists_cons_of_ne_nil hne
    have hc : c ≠ '*' := fun hc => hfront (hc ▸ List.mem_cons_self)
    simp [strip_star_front, hc]
  have hend : strip_star_end (front ++ ['*']) = some front := (strip_end_some _ _).mpr rfl
  rw [Heard, hkept, class_matches, class_match, hstart, hend]
  exact id

end Inclusion

/-- A watch hears of every class that its family would arm, but for the suffix of its pattern
without the dot. -/
theorem heard_iff (pattern name : List Char) : Heard pattern name ↔ ¬ Undotted pattern name := by
  by_cases hone : pattern.count '*' = 1 ∧ (pattern.head? = some '*' ∨ pattern.getLast? = some '*')
  · obtain ⟨hcount, hhead | hlast⟩ := hone
    · obtain ⟨back, rfl⟩ : ∃ back, pattern = '*' :: back := by
        obtain _ | ⟨c, back⟩ := pattern
        · simp at hhead
        · exact ⟨back, by rw [Option.some.inj hhead]⟩
      exact front_heard back name (List.count_eq_zero.mp (by simpa using hcount))
    · obtain ⟨front, rfl⟩ := List.getLast?_eq_some_iff.mp hlast
      have hfront : '*' ∉ front := List.count_eq_zero.mp (by simpa using hcount)
      by_cases hnil : front = []
      · subst hnil
        exact front_heard [] name (by simp)
      · refine iff_of_true (end_heard front name hfront hnil) ?_
        rintro ⟨back, heq, -⟩
        obtain ⟨c, front, rfl⟩ := List.exists_cons_of_ne_nil hnil
        exact hfront ((List.cons.inj heq).1 ▸ List.mem_cons_self)
  · refine iff_of_true (widened_heard pattern name hone) ?_
    rintro ⟨back, rfl, hback, -⟩
    exact hone ⟨by simp [List.count_eq_zero.mpr hback], .inl rfl⟩

/-- A class `Order` of the default package is armed by `*.Order` and never heard of. -/
theorem undotted_unheard : ¬ ∀ pattern name : List Char, is_wildcard pattern = true →
    Heard pattern name := fun h =>
  absurd (h "*.Order".toList "Order".toList (by decide) (by decide)) (by decide)

end JavaDebug.NamePatterns
