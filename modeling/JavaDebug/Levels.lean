import JavaDebug.Readings

/-!
Scanning by levels. A scanner counts the groups that are open outside literals,
each with its own brackets, and cuts a text at a separator that stands outside
all of them. Parts are the cut of a text exactly when none of them holds the
separator at the outermost level and each but the last ends there.
-/
namespace JavaDebug.Levels

open Texts Readings

section Scanners

/-- The characters that open a group and those that close one. -/
structure Brackets where
  opens : List Char
  closes : List Char

structure Level where
  depth : ℤ
  quoted : Quoted
  deriving DecidableEq

def Level.start : Level := ⟨0, .default⟩

/-- Outside every group and literal. -/
def Level.top (l : Level) : Bool := l.depth = 0 && !l.quoted.inside

variable (b : Brackets)

def Level.step (l : Level) (c : Char) : Level :=
  { depth :=
      if l.quoted.inside then l.depth
      else if c ∈ b.opens then l.depth + 1
      else if c ∈ b.closes then l.depth - 1
      else l.depth
    quoted := l.quoted.step c }

def Level.run (l : Level) (s : List Char) : Level := s.foldl (Level.step b) l

/-- The parts of a text between the separators at the outermost level. -/
def cut (sep : Char) (l : Level) (cur : List Char) : List Char → List (List Char)
  | [] => [cur]
  | c :: rest =>
    if l.top ∧ c = sep then cur :: cut sep (l.step b c) [] rest
    else cut sep (l.step b c) (cur ++ [c]) rest

/-- The text before the first separator at the outermost level, and what starts there. -/
def span (sep : Char) (l : Level) (before : List Char) : List Char → List Char × List Char
  | [] => (before, [])
  | c :: rest =>
    if l.top ∧ c = sep then (before, c :: rest)
    else span sep (l.step b c) (before ++ [c]) rest

end Scanners

section Running

variable (b : Brackets)

@[simp] theorem run_nil (l : Level) : l.run b [] = l := rfl

@[simp] theorem run_cons (l : Level) (c : Char) (s : List Char) :
    l.run b (c :: s) = (l.step b c).run b s := rfl

@[simp] theorem run_append (l : Level) (s t : List Char) :
    l.run b (s ++ t) = (l.run b s).run b t := List.foldl_append ..

@[simp] theorem step_quoted (l : Level) (c : Char) : (l.step b c).quoted = l.quoted.step c := rfl

theorem run_quoted (l : Level) (s : List Char) :
    (l.run b s).quoted = s.foldl Quoted.step l.quoted := by
  induction s generalizing l with
  | nil => rfl
  | cons c s ih => rw [run_cons, ih, step_quoted, List.foldl_cons]

/-- Where a scan that started outside literals is outside them, nothing is left to remember. -/
theorem run_default (s : List Char) (h : (Level.start.run b s).quoted.inside = false) :
    (Level.start.run b s).quoted = .default := by
  rw [run_quoted] at h ⊢
  exact fold_default s h

/-- A scan that is back at the outermost level is where it started. -/
theorem run_top (s : List Char) (h : (Level.start.run b s).top = true) :
    Level.start.run b s = .start := by
  simp only [Level.top, Bool.and_eq_true, decide_eq_true_eq, Bool.not_eq_true'] at h
  have hquoted := run_default b s h.2
  have hdepth := h.1
  generalize Level.start.run b s = l at hquoted hdepth
  rcases l with ⟨depth, quoted⟩
  rw [Level.start, ← hquoted, ← hdepth]

theorem start_top : Level.start.top = true := by decide

/-- Characters that mean nothing to a scan outside literals. -/
def Plain (c : Char) : Prop := c ≠ '"' ∧ c ≠ '\'' ∧ c ∉ b.opens ∧ c ∉ b.closes

theorem step_plain (depth : ℤ) (c : Char) (h : Plain b c) :
    Level.step b ⟨depth, .default⟩ c = ⟨depth, .default⟩ := by
  obtain ⟨hs, hc, hopen, hclose⟩ := h
  rw [Level.step, step_default c hs hc]
  simp [hopen, hclose, Quoted.default, Quoted.inside]

theorem run_plain (depth : ℤ) (s : List Char) (h : ∀ c ∈ s, Plain b c) :
    Level.run b ⟨depth, .default⟩ s = ⟨depth, .default⟩ := by
  induction s with
  | nil => rfl
  | cons c s ih =>
    rw [run_cons, step_plain b depth c (h c List.mem_cons_self)]
    exact ih fun d hd => h d (List.mem_cons_of_mem c hd)

/-- Depths are counted from where a scan starts. -/
theorem run_shift (l : Level) (n : ℤ) (s : List Char) :
    Level.run b ⟨l.depth + n, l.quoted⟩ s =
      ⟨(l.run b s).depth + n, (l.run b s).quoted⟩ := by
  induction s generalizing l with
  | nil => rfl
  | cons c s ih =>
    have hstep : Level.step b ⟨l.depth + n, l.quoted⟩ c =
        ⟨(l.step b c).depth + n, (l.step b c).quoted⟩ := by
      unfold Level.step
      dsimp only
      split_ifs
      · rfl
      · rw [Int.add_right_comm]
      · rw [sub_add_eq_add_sub]
      · rfl
    rw [run_cons, run_cons, hstep]
    exact ih (l.step b c)

end Running

section Cutting

variable (b : Brackets) (sep : Char)

/-- The separator does not stand at the outermost level. -/
def Quiet (l : Level) : List Char → Prop
  | [] => True
  | c :: rest => ¬ (l.top = true ∧ c = sep) ∧ Quiet (l.step b c) rest

def Quiet.decidable (l : Level) : (s : List Char) → Decidable (Quiet b sep l s)
  | [] => isTrue trivial
  | _ :: s => @instDecidableAnd _ _ _ (Quiet.decidable _ s)

instance (l : Level) (s : List Char) : Decidable (Quiet b sep l s) := Quiet.decidable b sep l s

theorem quiet_append (l : Level) (s t : List Char) :
    Quiet b sep l (s ++ t) ↔ Quiet b sep l s ∧ Quiet b sep (l.run b s) t := by
  induction s generalizing l with
  | nil => simp [Quiet]
  | cons c s ih => rw [List.cons_append, Quiet, Quiet, ih, and_assoc, run_cons]

/-- A text is quiet when nothing in it is the separator at the outermost level. -/
theorem quiet_iff (l : Level) (s : List Char) :
    Quiet b sep l s ↔ ∀ before after, s = before ++ sep :: after →
      (l.run b before).top = false := by
  induction s generalizing l with
  | nil => simp [Quiet]
  | cons c s ih =>
    rw [Quiet, ih]
    constructor
    · rintro ⟨hhere, hrest⟩ before after hsplit
      rcases List.cons_eq_append_iff.mp hsplit with ⟨rfl, heq⟩ | ⟨before', rfl, heq⟩
      · obtain ⟨rfl, -⟩ := List.cons.inj heq
        simpa using hhere
      · exact hrest before' after heq
    · intro h
      refine ⟨?_, fun before after hsplit => h (c :: before) after (by rw [hsplit]; rfl)⟩
      rintro ⟨htop, rfl⟩
      have hno : l.top = false := h [] s rfl
      rw [hno] at htop
      simp at htop

theorem quiet_of_not_mem (l : Level) (s : List Char) (h : sep ∉ s) : Quiet b sep l s := by
  rw [quiet_iff]
  rintro before after rfl
  exact absurd (List.mem_append_right before List.mem_cons_self) h

theorem cut_quiet (l : Level) (cur s : List Char) (h : Quiet b sep l s) :
    cut b sep l cur s = [cur ++ s] := by
  induction s generalizing l cur with
  | nil => rw [cut, List.append_nil]
  | cons c s ih => rw [cut, if_neg h.1, ih _ _ h.2, List.append_assoc, List.singleton_append]

theorem cut_at (l : Level) (cur s rest : List Char) (h : Quiet b sep l s)
    (htop : (l.run b s).top = true) :
    cut b sep l cur (s ++ sep :: rest) =
      (cur ++ s) :: cut b sep ((l.run b s).step b sep) [] rest := by
  induction s generalizing l cur with
  | nil => rw [List.nil_append, cut, if_pos ⟨htop, rfl⟩, List.append_nil, run_nil]
  | cons c s ih =>
    rw [List.cons_append, cut, if_neg h.1, ih _ _ h.2 htop, List.append_assoc, run_cons]
    rfl

/-- The parts of a text, each but the last ended by a separator at the outermost level. -/
inductive Cut : List Char → List (List Char) → Prop
  | last (p : List Char) : Quiet b sep .start p → Cut p [p]
  | more (p s : List Char) (ps : List (List Char)) : Quiet b sep .start p →
      Level.start.run b p = .start → Cut s ps → Cut (p ++ sep :: s) (p :: ps)

/-- A text is quiet, or quiet up to its first separator at the outermost level. -/
theorem quiet_or_split (s : List Char) :
    Quiet b sep .start s ∨ ∃ p rest, s = p ++ sep :: rest ∧ Quiet b sep .start p ∧
      Level.start.run b p = .start := by
  have hgo : ∀ (s before : List Char), Quiet b sep .start before →
      Quiet b sep .start (before ++ s) ∨ ∃ p rest, before ++ s = p ++ sep :: rest ∧
        Quiet b sep .start p ∧ Level.start.run b p = .start := by
    intro s
    induction s with
    | nil =>
      intro before hquiet
      exact .inl (by rwa [List.append_nil])
    | cons c s ih =>
      intro before hquiet
      by_cases hat : (Level.start.run b before).top = true ∧ c = sep
      · obtain ⟨htop, rfl⟩ := hat
        exact .inr ⟨before, s, rfl, hquiet, run_top b before htop⟩
      · have hnext : Quiet b sep .start (before ++ [c]) :=
          (quiet_append b sep .start before [c]).mpr ⟨hquiet, hat, trivial⟩
        rw [List.append_cons]
        exact ih (before ++ [c]) hnext
  exact hgo s [] trivial

theorem Cut.length_le (s : List Char) (ps : List (List Char)) (h : Cut b sep s ps) :
    ∀ p ∈ ps, p.length ≤ s.length := by
  induction h with
  | last p _ =>
    intro q hq
    rw [List.mem_singleton.mp hq]
  | more p s ps _ _ _ ih =>
    intro q hq
    rw [List.length_append, List.length_cons]
    rcases List.mem_cons.mp hq with rfl | hmem
    · omega
    · have := ih q hmem
      omega

variable (hsep : Plain b sep)

include hsep

/-- The cut of a text is the one way to part it so. -/
theorem cut_iff (s : List Char) (ps : List (List Char)) :
    cut b sep .start [] s = ps ↔ Cut b sep s ps := by
  constructor
  · rintro rfl
    induction hn : s.length using Nat.strong_induction_on generalizing s with
    | h n ih =>
      rcases quiet_or_split b sep s with hquiet | ⟨p, rest, rfl, hquiet, hrun⟩
      · rw [cut_quiet b sep .start [] s hquiet]
        exact .last s hquiet
      · rw [cut_at b sep .start [] p rest hquiet (by rw [hrun]; exact start_top), hrun]
        rw [show Level.step b .start sep = .start from step_plain b 0 sep hsep]
        exact .more p rest _ hquiet hrun
          (ih rest.length (by simp only [← hn, List.length_append, List.length_cons]; omega) rest
            rfl)
  · intro h
    induction h with
    | last p hquiet => exact cut_quiet b sep .start [] p hquiet
    | more p s ps hquiet hrun _ ih =>
      rw [cut_at b sep .start [] p s hquiet (by rw [hrun]; exact start_top), hrun,
        show Level.step b .start sep = .start from step_plain b 0 sep hsep, ih]
      rfl

/-- The last part follows a separator, unless it is the only one. -/
theorem Cut.split_last (s last : List Char) (ps : List (List Char)) (h : Cut b sep s (ps ++ [last]))
    :
    Quiet b sep .start last ∧ (ps = [] ∧ s = last ∨
      ∃ s₀, s = s₀ ++ sep :: last ∧ Cut b sep s₀ ps ∧ Level.start.run b s₀ = .start) := by
  generalize hqs : ps ++ [last] = qs at h
  induction h generalizing ps with
  | last p hquiet =>
    obtain ⟨rfl, hlast⟩ | ⟨-, hnil⟩ := List.append_eq_singleton_iff.mp hqs
    · obtain rfl := (List.cons.inj hlast).1
      exact ⟨hquiet, .inl ⟨rfl, rfl⟩⟩
    · simp at hnil
  | more p s qs hquiet hrun hcut ih =>
    obtain _ | ⟨q, ps⟩ := ps
    · obtain ⟨-, rfl⟩ := List.cons.inj hqs
      obtain _ | _ := hcut
    · obtain ⟨rfl, hrest⟩ := List.cons.inj hqs
      obtain ⟨hlast, ⟨rfl, rfl⟩ | ⟨s₀, rfl, hcut₀, hrun₀⟩⟩ := ih ps hrest
      · exact ⟨hlast, .inr ⟨q, rfl, .last q hquiet, hrun⟩⟩
      · refine ⟨hlast, .inr ⟨q ++ sep :: s₀, by simp, .more q s₀ ps hquiet hrun hcut₀, ?_⟩⟩
        rw [run_append, hrun, run_cons, show Level.step b .start sep = .start from
          step_plain b 0 sep hsep, hrun₀]

theorem Cut.snoc (s last : List Char) (ps : List (List Char)) (h : Cut b sep s ps)
    (hrun : Level.start.run b s = .start) (hlast : Quiet b sep .start last) :
    Cut b sep (s ++ sep :: last) (ps ++ [last]) := by
  induction h with
  | last p hquiet => exact .more p last [last] hquiet hrun (.last last hlast)
  | more p s ps hquiet hp _ ih =>
    rw [List.append_assoc, List.cons_append, List.cons_append]
    refine .more p _ _ hquiet hp (ih ?_)
    rwa [run_append, hp, run_cons, show Level.step b .start sep = .start from
      step_plain b 0 sep hsep] at hrun

theorem cut_cut (s : List Char) : Cut b sep s (cut b sep .start [] s) :=
  (cut_iff b sep hsep s _).mp rfl

end Cutting

section Spanning

variable (b : Brackets) (sep : Char)

theorem span_iff (l : Level) (before s head rest : List Char) :
    span b sep l before s = (head, rest) ↔
      ∃ p, head = before ++ p ∧ s = p ++ rest ∧ Quiet b sep l p ∧
        (rest = [] ∨ rest.head? = some sep ∧ (l.run b p).top = true) := by
  induction s generalizing l before with
  | nil =>
    rw [span]
    constructor
    · intro h
      obtain ⟨rfl, rfl⟩ := Prod.mk.inj h
      exact ⟨[], by simp, rfl, trivial, .inl rfl⟩
    · rintro ⟨p, rfl, hsplit, -⟩
      obtain ⟨rfl, rfl⟩ := List.nil_eq_append_iff.mp hsplit
      rw [List.append_nil]
  | cons c s ih =>
    rw [span]
    by_cases hat : l.top = true ∧ c = sep
    · rw [if_pos hat]
      constructor
      · intro h
        obtain ⟨rfl, rfl⟩ := Prod.mk.inj h
        exact ⟨[], by simp, rfl, trivial, .inr ⟨by rw [hat.2]; rfl, hat.1⟩⟩
      · rintro ⟨p, rfl, hsplit, hquiet, -⟩
        obtain _ | ⟨d, p⟩ := p
        · rw [hsplit, List.append_nil]
          rfl
        · obtain ⟨rfl, -⟩ := List.cons.inj hsplit
          exact absurd hat hquiet.1
    · rw [if_neg hat, ih]
      constructor
      · rintro ⟨p, rfl, rfl, hquiet, hend⟩
        exact ⟨c :: p, by simp, rfl, ⟨hat, hquiet⟩, hend⟩
      · rintro ⟨p, rfl, hsplit, hquiet, hend⟩
        obtain _ | ⟨d, p⟩ := p
        · rcases hend with hnil | ⟨hhead, htop⟩
          · rw [hnil] at hsplit
            exact absurd hsplit (by simp)
          · rw [List.nil_append] at hsplit
            rw [← hsplit] at hhead
            exact absurd ⟨htop, Option.some.inj hhead⟩ hat
        · obtain ⟨rfl, hrest⟩ := List.cons.inj hsplit
          exact ⟨p, by simp, hrest, hquiet.2, hend⟩

end Spanning

end JavaDebug.Levels
