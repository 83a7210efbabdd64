import JavaDebug.Addressing
import Mathlib.Data.List.TakeWhile

/-!
Texts as the scanners see them: surrounding white space, literals with their
escapes, and text whose parentheses and brackets balance outside its literals.
`Balanced` says of such a text what may stand outside every group, what may
stand inside a bracket, and what its literals may hold.
-/
namespace JavaDebug.Texts

open Addressing

section Trimming

def Space (t : List Char) : Prop := ∀ c ∈ t, is_whitespace c = true

theorem space_nil : Space [] := fun _ h => by cases h

variable {t ws : List Char}

theorem space_append {s : List Char} (hs : Space s) (ht : Space t) : Space (s ++ t) := by
  intro c hc
  rcases List.mem_append.mp hc with h | h
  · exact hs c h
  · exact ht c h

theorem trim_start_space (hws : Space ws) (s : List Char) :
    (ws ++ s).dropWhile is_whitespace = s.dropWhile is_whitespace := by
  induction ws with
  | nil => rfl
  | cons c rest ih =>
    rw [List.cons_append, List.dropWhile_cons_of_pos (hws c List.mem_cons_self)]
    exact ih fun d hd => hws d (List.mem_cons_of_mem c hd)

theorem dropWhile_all {p : Char → Bool} {s : List Char} (h : ∀ c ∈ s, p c = true) :
    s.dropWhile p = [] := List.dropWhile_eq_nil_iff.mpr h

theorem trim_end_space (hws : Space ws) (s : List Char) : trim (s ++ ws) = trim s := by
  unfold trim
  by_cases hs : ∀ c ∈ s, is_whitespace c = true
  · rw [dropWhile_all hs, dropWhile_all (space_append hs hws)]
  · have hne : s.dropWhile is_whitespace ≠ [] := fun h => hs (List.dropWhile_eq_nil_iff.mp h)
    have happ : (s ++ ws).dropWhile is_whitespace = s.dropWhile is_whitespace ++ ws := by
      rw [List.dropWhile_append, if_neg]
      rw [List.isEmpty_iff]
      exact hne
    rw [happ, List.reverse_append]
    refine congrArg List.reverse (trim_start_space ?_ _)
    intro c hc
    exact hws c (List.mem_reverse.mp hc)

theorem trim_space {ws' : List Char} (hws : Space ws) (hws' : Space ws') (s : List Char) :
    trim (ws ++ (s ++ ws')) = trim s := by
  rw [← List.append_assoc, trim_end_space hws']
  unfold trim
  rw [trim_start_space hws]

variable (s : List Char)

theorem trim_split : ∃ ws ws', Space ws ∧ Space ws' ∧ s = ws ++ (trim s ++ ws') := by
  refine ⟨s.takeWhile is_whitespace,
    ((s.dropWhile is_whitespace).reverse.takeWhile is_whitespace).reverse, ?_, ?_, ?_⟩
  · exact fun c hc => List.mem_takeWhile_imp hc
  · exact fun c hc => List.mem_takeWhile_imp (List.mem_reverse.mp hc)
  · unfold trim
    rw [← List.reverse_append, List.takeWhile_append_dropWhile, List.reverse_reverse,
      List.takeWhile_append_dropWhile]

theorem trim_length_le : (trim s).length ≤ s.length := by
  obtain ⟨ws, ws', -, -, h⟩ := trim_split s
  have hlen := congrArg List.length h
  simp only [List.length_append] at hlen
  omega

/-- A text with no white space at either end. -/
structure Tight (t : List Char) : Prop where
  first : ∀ c, t.head? = some c → is_whitespace c = false
  last : ∀ c, t.getLast? = some c → is_whitespace c = false

theorem dropWhile_eq_self (h : ∀ c, t.head? = some c → is_whitespace c = false) :
    t.dropWhile is_whitespace = t := by
  cases t with
  | nil => rfl
  | cons c rest =>
    refine List.dropWhile_cons_of_neg ?_
    rw [h c rfl]
    exact Bool.false_ne_true

theorem trim_tight (h : Tight t) : trim t = t := by
  unfold trim
  rw [dropWhile_eq_self h.first, dropWhile_eq_self fun c hc => h.last c ?_, List.reverse_reverse]
  rwa [List.head?_reverse] at hc

theorem tight_trim : Tight (trim s) := by
  have hhead : ∀ (u : List Char) c, (u.dropWhile is_whitespace).head? = some c →
      is_whitespace c = false := by
    intro u c hc
    have h := List.head?_dropWhile_not is_whitespace u
    rw [hc] at h
    exact h
  refine ⟨fun c hc => ?_, fun c hc => ?_⟩
  · unfold trim at hc
    generalize hu : s.dropWhile is_whitespace = u at hc
    obtain ⟨ws, hws⟩ := List.dropWhile_suffix (l := u.reverse) is_whitespace
    have hrev := congrArg List.reverse hws
    rw [List.reverse_append, List.reverse_reverse] at hrev
    refine hhead s c ?_
    rw [hu, ← hrev, List.head?_append, hc]
    rfl
  · unfold trim at hc
    rw [List.getLast?_reverse] at hc
    exact hhead _ c hc

theorem trim_trim : trim (trim s) = trim s := trim_tight (tight_trim s)

end Trimming

section Literals

/-- Whether a left-to-right scan is inside a string or a char literal. -/
structure Quoted where
  in_str : Bool
  in_char : Bool
  escaped : Bool
  deriving DecidableEq

namespace Quoted

def default : Quoted := ⟨false, false, false⟩

def inside (q : Quoted) : Bool := q.in_str || q.in_char

def step (q : Quoted) (c : Char) : Quoted :=
  if q.escaped then { q with escaped := false }
  else if c = '\\' ∧ q.inside then { q with escaped := true }
  else if c = '"' ∧ !q.in_char then { q with in_str := !q.in_str }
  else if c = '\'' ∧ !q.in_str then { q with in_char := !q.in_char }
  else q

end Quoted

/-- What may stand between two quotes `q`: a quote or a backslash only after a backslash. -/
inductive Escaped (q : Char) : List Char → Prop
  | nil : Escaped q []
  | plain {c : Char} {t : List Char} : c ≠ q → c ≠ '\\' → Escaped q t → Escaped q (c :: t)
  | escape (c : Char) {t : List Char} : Escaped q t → Escaped q ('\\' :: c :: t)

/-- One character, or an escape with the digits of its code. -/
inductive CharBody : List Char → Prop
  | plain {c : Char} : c ≠ '\'' → c ≠ '\\' → CharBody [c]
  | escape (c : Char) {digits : List Char} : (∀ d ∈ digits, d.isAlphanum = true) →
      CharBody ('\\' :: c :: digits)

theorem escaped_of_alphanum {digits : List Char} (h : ∀ d ∈ digits, d.isAlphanum = true) :
    Escaped '\'' digits := by
  induction digits with
  | nil => exact .nil
  | cons d rest ih =>
    have hd := h d List.mem_cons_self
    refine .plain ?_ ?_ (ih fun e he => h e (List.mem_cons_of_mem d he))
    · rintro rfl
      exact absurd hd (by decide)
    · rintro rfl
      exact absurd hd (by decide)

theorem CharBody.escaped {t : List Char} (h : CharBody t) : Escaped '\'' t := by
  cases h with
  | plain hq hb => exact .plain hq hb .nil
  | escape c hdigits => exact .escape c (escaped_of_alphanum hdigits)

end Literals

section Balance

def Mark (c : Char) : Prop := c ∈ ['"', '\'', '(', ')', '[', ']']

instance (c : Char) : Decidable (Mark c) := by
  unfold Mark
  infer_instance

/-- What may stand at a place: the character, and the text up to the end of its group. -/
abbrev Allowed := Char → List Char → Prop

def anything : Allowed := fun _ _ => True

/-- Text whose groups and literals are closed. Outside every group stands what `top` allows,
inside a bracket what `inner` allows, inside parentheses anything. -/
inductive Balanced (str chr : List Char → Prop) : Allowed → Allowed → List Char → Prop
  | nil {top inner : Allowed} : Balanced str chr top inner []
  | char {top inner : Allowed} {c : Char} {t : List Char} : ¬ Mark c → top c t →
      Balanced str chr top inner t → Balanced str chr top inner (c :: t)
  | string {top inner : Allowed} {body t : List Char} : str body →
      Balanced str chr top inner t → Balanced str chr top inner ('"' :: (body ++ '"' :: t))
  | char_lit {top inner : Allowed} {body t : List Char} : chr body →
      Balanced str chr top inner t → Balanced str chr top inner ('\'' :: (body ++ '\'' :: t))
  | paren {top inner : Allowed} {a t : List Char} : Balanced str chr anything anything a →
      Balanced str chr top inner t → Balanced str chr top inner ('(' :: (a ++ ')' :: t))
  | bracket {top inner : Allowed} {a t : List Char} : Balanced str chr inner inner a →
      Balanced str chr top inner t → Balanced str chr top inner ('[' :: (a ++ ']' :: t))

variable {str chr str' chr' : List Char → Prop} {top top' inner inner' : Allowed}

variable {t : List Char}

theorem Balanced.mono (h : Balanced str chr top inner t) (hstr : ∀ t, str t → str' t)
    (hchr : ∀ t, chr t → chr' t) (htop : ∀ c u, top c u → top' c u)
    (hinner : ∀ c u, inner c u → inner' c u) : Balanced str' chr' top' inner' t := by
  induction h generalizing top' inner' with
  | nil => exact .nil
  | char hc ht _ ih => exact .char hc (htop _ _ ht) (ih htop hinner)
  | string hb _ ih => exact .string (hstr _ hb) (ih htop hinner)
  | char_lit hb _ ih => exact .char_lit (hchr _ hb) (ih htop hinner)
  | paren _ _ iha ih => exact .paren (iha (fun _ _ h => h) fun _ _ h => h) (ih htop hinner)
  | bracket _ _ iha ih => exact .bracket (iha hinner hinner) (ih htop hinner)

/-- Texts follow one another where what is allowed does not look beyond the character. -/
theorem Balanced.append {ok : Char → Prop} {s : List Char}
    (hs : Balanced str chr (fun c _ => ok c) inner s)
    (ht : Balanced str chr (fun c _ => ok c) inner t) :
    Balanced str chr (fun c _ => ok c) inner (s ++ t) := by
  generalize htop : (fun c (_ : List Char) => ok c) = top at hs
  induction hs with
  | nil =>
    subst htop
    exact ht
  | char hc hok _ ih =>
    subst htop
    exact .char hc hok (ih ht rfl)
  | string hb _ ih =>
    rw [List.cons_append, List.append_assoc]
    exact .string hb (ih ht htop)
  | char_lit hb _ ih =>
    rw [List.cons_append, List.append_assoc]
    exact .char_lit hb (ih ht htop)
  | paren ha _ _ ih =>
    rw [List.cons_append, List.append_assoc]
    exact .paren ha (ih ht htop)
  | bracket ha _ _ ih =>
    rw [List.cons_append, List.append_assoc]
    exact .bracket ha (ih ht htop)

theorem space_unmarked {c : Char} (h : is_whitespace c = true) : ¬ Mark c := by
  intro hm
  simp only [Mark, List.mem_cons, List.not_mem_nil, or_false] at hm
  rcases hm with rfl | rfl | rfl | rfl | rfl | rfl
  all_goals exact absurd h (by decide)

theorem balanced_chars {ok : Char → Prop} (h : ∀ c ∈ t, ¬ Mark c ∧ ok c) :
    Balanced str chr (fun c _ => ok c) inner t := by
  induction t with
  | nil => exact .nil
  | cons c rest ih =>
    obtain ⟨hc, hok⟩ := h c List.mem_cons_self
    exact .char hc hok (ih fun d hd => h d (List.mem_cons_of_mem c hd))

end Balance

end JavaDebug.Texts
