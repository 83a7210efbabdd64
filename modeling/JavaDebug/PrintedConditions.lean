import JavaDebug.BooleanTrees

/-!
Printed conditions. A condition is a tree over `||`, `&&` and `!` whose leaves
are values or comparisons; `Prints` gives its texts, with any spacing and any
redundant parentheses. `condition_read_back` reads such a text back, for the
leaves whose literals the splitting scan does not mistake and whose subscripts
hold no comparison.
-/
namespace JavaDebug.PrintedConditions

open Addressing Texts BooleanTrees

section Meaning

inductive Leaf
  | value (t : List Char)
  | compare (l op r : List Char)
  deriving DecidableEq

def read_leaf (t : List Char) : Leaf :=
  match split_comparison t with
  | some (l, op, r) => .compare l op r
  | none => .value t

variable {α β : Type}

def disjuncts : BoolTree α → List (BoolTree α)
  | .or ts => ts
  | t => [t]

def conjuncts : BoolTree α → List (BoolTree α)
  | .and ts => ts
  | t => [t]

mutual

/-- The tree without an `or` directly under an `or`, or an `and` under an `and`. -/
def flat (f : α → β) : BoolTree α → BoolTree β
  | .or ts => .or (flat_join f disjuncts ts)
  | .and ts => .and (flat_join f conjuncts ts)
  | .not t => .not (flat f t)
  | .leaf a => .leaf (f a)

def flat_join (f : α → β) (parts : BoolTree β → List (BoolTree β)) :
    List (BoolTree α) → List (BoolTree β)
  | [] => []
  | t :: ts => parts (flat f t) ++ flat_join f parts ts

end

theorem flat_join_eq (f : α → β) (parts : BoolTree β → List (BoolTree β)) (ts : List (BoolTree α)) :
    flat_join f parts ts = ts.flatMap fun t => parts (flat f t) := by
  induction ts with
  | nil => rfl
  | cons t ts ih => rw [flat_join, List.flatMap_cons, ih]

/-- A condition as its author means it. -/
inductive Cond
  | or (a b : Cond)
  | and (a b : Cond)
  | not (a : Cond)
  | leaf (a : Leaf)

namespace Cond

def flat : Cond → BoolTree Leaf
  | .or a b => .or (disjuncts a.flat ++ disjuncts b.flat)
  | .and a b => .and (conjuncts a.flat ++ conjuncts b.flat)
  | .not a => .not a.flat
  | .leaf a => .leaf a

def All (p : Leaf → Prop) : Cond → Prop
  | .or a b => a.All p ∧ b.All p
  | .and a b => a.All p ∧ b.All p
  | .not a => a.All p
  | .leaf a => p a

end Cond

end Meaning

section Printing

def operand_char (c : Char) : Prop := c ∉ ['=', '!', '<', '>', '&', '|']

/-- A text of the expression grammar: names, calls and subscripts, literals. -/
structure Operand (str chr : List Char → Prop) (inner : Allowed) (t : List Char) : Prop where
  balanced : Balanced str chr (fun c _ => operand_char c) inner t
  tight : Tight t
  ne_nil : t ≠ []
  unwrapped : t.head? ≠ some '('

def Expression (t : List Char) : Prop := Operand (Escaped '"') CharBody anything t

/-- The texts of a condition: 0 where an `||` may stand, 1 where only an `&&` may, 2 where
neither may. -/
inductive Prints : ℕ → Cond → List Char → Prop
  | value {t : List Char} : Expression t → Prints 2 (.leaf (.value t)) t
  | compare {l op r ws ws' : List Char} : Expression l → Expression r → op ∈ OPS → Space ws →
      Space ws' → Prints 2 (.leaf (.compare l op r)) (l ++ (ws ++ (op ++ (ws' ++ r))))
  | not {e : Cond} {s : List Char} : Prints 2 e s → Prints 2 (.not e) ('!' :: s)
  | parens {e : Cond} {s : List Char} : Prints 0 e s → Prints 2 e (group s)
  | spaces {e : Cond} {s ws ws' : List Char} : Space ws → Space ws' → Prints 2 e s →
      Prints 2 e (ws ++ (s ++ ws'))
  | and {a b : Cond} {s t : List Char} : Prints 1 a s → Prints 1 b t →
      Prints 1 (.and a b) (s ++ '&' :: '&' :: t)
  | or {a b : Cond} {s t : List Char} : Prints 0 a s → Prints 0 b t →
      Prints 0 (.or a b) (s ++ '|' :: '|' :: t)
  | atom {e : Cond} {s : List Char} : Prints 2 e s → Prints 1 e s
  | conjunction {e : Cond} {s : List Char} : Prints 1 e s → Prints 0 e s

/-- A comparison operator starts at this place. -/
def compares (c : Char) (u : List Char) : Prop :=
  c = '<' ∨ c = '>' ∨ ((c = '=' ∨ c = '!') ∧ u.head? = some '=')

def quiet : Allowed := fun c u => ¬ compares c u

/-- The leaves the scanners read as they stand. -/
def Plain : Leaf → Prop
  | .value t => Operand tame_str tame_chr quiet t
  | .compare l _ r =>
    Operand tame_str tame_chr quiet l ∧ Operand tame_str tame_chr anything r

end Printing

section Comparisons

variable {c : Char} {t : List Char}

theorem cut_quiet {u : List Char} (h : ¬ compares c u) (before : List Char) :
    cut_here before (c :: u) = none := by
  have hpre : ∀ op ∈ OPS, op.isPrefixOf (c :: u) = false := by
    intro op hop
    rw [Bool.eq_false_iff]
    intro htrue
    rw [List.isPrefixOf_iff_prefix] at htrue
    refine h ?_
    simp only [OPS, List.mem_cons, List.not_mem_nil, or_false] at hop
    obtain ⟨v, hv⟩ := htrue
    rcases hop with rfl | rfl | rfl | rfl | rfl | rfl
    all_goals
      simp only [List.cons_append, List.nil_append, List.cons.injEq] at hv
      obtain ⟨rfl, hu⟩ := hv
    · exact Or.inr (Or.inr ⟨Or.inl rfl, hu ▸ rfl⟩)
    · exact Or.inr (Or.inr ⟨Or.inr rfl, hu ▸ rfl⟩)
    · exact Or.inl rfl
    · exact Or.inr (Or.inl rfl)
    · exact Or.inl rfl
    · exact Or.inr (Or.inl rfl)
  unfold cut_here
  rw [List.findSome?_eq_none_iff]
  intro op hop
  rw [hpre op hop]
  rfl

theorem not_compares_open (u : List Char) : ¬ compares '[' u := by simp [compares]

theorem not_compares_close (u : List Char) : ¬ compares ']' u := by simp [compares]

/-- The bracket that ends a group is no half of an operator. -/
theorem compares_of_close {u v : List Char} (h : compares c (u ++ ']' :: v)) : compares c u := by
  rcases h with h | h | ⟨h, hnext⟩
  · exact Or.inl h
  · exact Or.inr (Or.inl h)
  · cases u with
    | nil => cases hnext
    | cons e u => exact Or.inr (Or.inr ⟨h, hnext⟩)

variable {d : ℤ}

theorem comparison_skip (hc : c ∉ ['"', '\'', '(', ')']) {rest : List Char}
    (h : d = 0 → ¬ compares c rest) (before : List Char) :
    split_comparison_loop d .default before (c :: rest) =
      split_comparison_loop d .default (before ++ [c]) rest := by
  simp only [List.mem_cons, List.not_mem_nil, or_false, not_or] at hc
  obtain ⟨hquote, hchar, hopen, hclose⟩ := hc
  have hcut : (if !Quoted.default.inside ∧ d = 0 ∧ c ≠ '"' ∧ c ≠ '\'' ∧ c ≠ '(' ∧ c ≠ ')' then
      cut_here before (c :: rest) else none) = none := by
    by_cases hd : d = 0
    · rw [cut_quiet (h hd), ite_self]
    · rw [if_neg fun hh => hd hh.2.1]
  have hstep : Quoted.default.step c = Quoted.default := by
    simp [Quoted.step, Quoted.default, Quoted.inside, hquote, hchar]
  rw [split_comparison_loop]
  simp only [hcut]
  rw [if_neg (fun hh => hopen hh.1), if_neg (fun hh => hclose hh.1), hstep]

theorem comparison_mark {q : Quoted} (h : q.inside = true ∨ c = '"' ∨ c = '\'' ∨ c = '(' ∨ c = ')')
    (before rest : List Char) :
    split_comparison_loop d q before (c :: rest) =
      split_comparison_loop (if c = '(' ∧ !q.inside then d + 1
        else if c = ')' ∧ !q.inside then d - 1 else d) (q.step c) (before ++ [c]) rest := by
  have hcut : (if !q.inside ∧ d = 0 ∧ c ≠ '"' ∧ c ≠ '\'' ∧ c ≠ '(' ∧ c ≠ ')' then
      cut_here before (c :: rest) else none) = none := by
    refine if_neg ?_
    rintro ⟨hin, -, h1, h2, h3, h4⟩
    rcases h with h | h | h | h | h
    · rw [h] at hin
      cases hin
    · exact h1 h
    · exact h2 h
    · exact h3 h
    · exact h4 h
  rw [split_comparison_loop]
  simp only [hcut]

def in_string : Quoted := ⟨true, false, false⟩

def in_char : Quoted := ⟨false, true, false⟩

/-- A scan inside a literal moves on to the closing quote. -/
theorem comparison_in_literal {q : Quoted} {quote : Char} (hq : q = in_string ∧ quote = '"' ∨
      q = in_char ∧ quote = '\'') {body : List Char} (h : Escaped quote body) (d : ℤ)
    (before rest : List Char) :
    split_comparison_loop d q before (body ++ quote :: rest) =
      split_comparison_loop d .default (before ++ (body ++ [quote])) rest := by
  have hin : q.inside = true := by
    rcases hq with ⟨rfl, -⟩ | ⟨rfl, -⟩ <;> rfl
  have hmove : ∀ (p : Quoted) before (c : Char) rest, p.inside = true →
      split_comparison_loop d p before (c :: rest) =
        split_comparison_loop d (p.step c) (before ++ [c]) rest := by
    intro p before c rest hp
    rw [comparison_mark (Or.inl hp), if_neg (by simp [hp]), if_neg (by simp [hp])]
  induction h generalizing before with
  | nil =>
    have hclose : q.step quote = .default := by
      rcases hq with ⟨rfl, rfl⟩ | ⟨rfl, rfl⟩ <;> rfl
    rw [List.nil_append, List.nil_append, hmove q _ _ _ hin, hclose]
  | @plain c t hc hb _ ih =>
    have hstay : q.step c = q := by
      rcases hq with ⟨rfl, rfl⟩ | ⟨rfl, rfl⟩
      · simp [Quoted.step, in_string, hc, hb]
      · simp [Quoted.step, in_char, hc, hb]
    rw [List.cons_append, hmove q _ _ _ hin, hstay, ih]
    simp only [List.append_assoc, List.cons_append, List.nil_append]
  | @escape c t _ ih =>
    have hescape : (q.step '\\').step c = q := by
      rcases hq with ⟨rfl, -⟩ | ⟨rfl, -⟩ <;> rfl
    have hstill : (q.step '\\').inside = true := by
      rcases hq with ⟨rfl, -⟩ | ⟨rfl, -⟩ <;> rfl
    rw [List.cons_append, List.cons_append, hmove q _ _ _ hin, hmove _ _ _ _ hstill, hescape, ih]
    simp only [List.append_assoc, List.cons_append, List.nil_append]

/-- The comparison scan passes over text that holds no comparison outside parentheses and
literals. -/
theorem comparison_scan {top inner : Allowed} (h : Balanced (Escaped '"') CharBody top inner t)
    (hd : 0 ≤ d) (before rest : List Char)
    (htop : d = 0 → ∀ c u, top c u → ¬ compares c (u ++ rest))
    (hinner : d = 0 → ∀ c u, inner c u → ¬ compares c u) :
    split_comparison_loop d .default before (t ++ rest) =
      split_comparison_loop d .default (before ++ t) rest := by
  induction h generalizing d before rest with
  | nil => rw [List.append_nil, List.nil_append]
  | @char top inner c t hc ht _ ih =>
    have hsyntax : c ∉ ['"', '\'', '(', ')'] := by
      intro hm
      apply hc
      simp only [List.mem_cons, List.not_mem_nil, or_false] at hm
      rcases hm with rfl | rfl | rfl | rfl
      all_goals decide
    rw [List.cons_append, comparison_skip hsyntax (fun h0 => htop h0 c t ht),
      ih hd _ _ htop hinner, List.append_assoc]
    rfl
  | @string top inner body t hb _ ih =>
    rw [List.cons_append, comparison_mark (Or.inr (Or.inl rfl)), if_neg (by decide),
      if_neg (by decide), List.append_assoc, List.cons_append]
    rw [show Quoted.default.step '"' = in_string from rfl,
      comparison_in_literal (Or.inl ⟨rfl, rfl⟩) hb, ih hd _ _ htop hinner]
    simp only [List.append_assoc, List.cons_append, List.nil_append]
  | @char_lit top inner body t hb _ ih =>
    rw [List.cons_append, comparison_mark (Or.inr (Or.inr (Or.inl rfl))), if_neg (by decide),
      if_neg (by decide), List.append_assoc, List.cons_append]
    rw [show Quoted.default.step '\'' = in_char from rfl,
      comparison_in_literal (Or.inr ⟨rfl, rfl⟩) hb.escaped, ih hd _ _ htop hinner]
    simp only [List.append_assoc, List.cons_append, List.nil_append]
  | @paren top inner a t _ _ iha ih =>
    rw [List.cons_append, comparison_mark (Or.inr (Or.inr (Or.inr (Or.inl rfl)))),
      if_pos (by decide), show Quoted.default.step '(' = .default from rfl, List.append_assoc,
      iha (by omega) _ _ (fun h0 => by omega) (fun h0 => by omega), List.cons_append,
      comparison_mark (Or.inr (Or.inr (Or.inr (Or.inr rfl)))), if_neg (by decide),
      if_pos (by decide), show Quoted.default.step ')' = .default from rfl,
      Int.add_sub_cancel, ih hd _ _ htop hinner]
    simp only [List.append_assoc, List.cons_append, List.nil_append]
  | @bracket top inner a t _ _ iha ih =>
    have hclose : d = 0 → ∀ c u, inner c u →
        ¬ compares c (u ++ (']' :: (t ++ rest))) := by
      intro h0 c u hc hcmp
      exact hinner h0 c u hc (compares_of_close hcmp)
    rw [List.cons_append, comparison_skip (by decide) (fun _ => not_compares_open _),
      List.append_assoc, List.cons_append, iha hd _ _ hclose hinner,
      comparison_skip (by decide) (fun _ => not_compares_close _), ih hd _ _ htop hinner]
    simp only [List.append_assoc, List.cons_append, List.nil_append]

theorem operand_quiet (h : operand_char c) (u : List Char) : ¬ compares c u := by
  simp only [operand_char, List.mem_cons, List.not_mem_nil, or_false, not_or] at h
  obtain ⟨heq, hne, hlt, hgt, -⟩ := h
  rintro (hc | hc | ⟨hc | hc, -⟩)
  · exact hlt hc
  · exact hgt hc
  · exact heq hc
  · exact hne hc

theorem comparison_operand (h : Operand (Escaped '"') CharBody quiet t) (rest : List Char) :
    split_comparison_loop 0 .default [] (t ++ rest) =
      split_comparison_loop 0 .default t rest :=
  comparison_scan h.balanced le_rfl [] rest (fun _ _ _ hc => operand_quiet hc _)
    fun _ _ _ hc => hc

theorem read_value (h : Operand (Escaped '"') CharBody quiet t) : read_leaf t = .value t := by
  have hnone : split_comparison t = none := by
    have hscan := comparison_operand h []
    rw [List.append_nil] at hscan
    exact hscan
  unfold read_leaf
  rw [hnone]

variable {ws : List Char}

theorem comparison_space (hws : Space ws) (before rest : List Char) :
    split_comparison_loop 0 .default before (ws ++ rest) =
      split_comparison_loop 0 .default (before ++ ws) rest := by
  have hbal : Balanced (Escaped '"') CharBody (fun c _ => is_whitespace c = true) quiet ws :=
    balanced_chars fun c hc => ⟨space_unmarked (hws c hc), hws c hc⟩
  refine comparison_scan hbal le_rfl before rest (fun _ c u hc hcmp => ?_) fun _ _ _ hc => hc
  rcases hcmp with rfl | rfl | ⟨rfl | rfl, -⟩
  all_goals exact absurd hc (by decide)

theorem cut_at {op : List Char} (left right : List Char) (hop : op ∈ OPS) (hleft : trim left ≠ [])
    (hright : trim right ≠ []) (hnext : right.head? ≠ some '=') :
    cut_here left (op ++ right) = some (trim left, op, trim right) := by
  have hno : ¬ ['='] <+: right := by
    rintro ⟨u, rfl⟩
    exact hnext rfl
  unfold cut_here
  simp only [OPS, List.mem_cons, List.not_mem_nil, or_false] at hop ⊢
  rcases hop with rfl | rfl | rfl | rfl | rfl | rfl
  all_goals simp [List.findSome?, hleft, hright, hno]

theorem space_head {r : List Char} (hws : Space ws) (hr : ∀ c, r.head? = some c → c ≠ '=') :
    (ws ++ r).head? ≠ some '=' := by
  cases ws with
  | nil => exact fun h => hr '=' h rfl
  | cons c ws =>
    intro h
    rw [List.cons_append, List.head?_cons, Option.some.injEq] at h
    have hc := hws c List.mem_cons_self
    rw [h] at hc
    exact absurd hc (by decide)

theorem Operand.first {str chr : List Char → Prop} {inner : Allowed} (h : Operand str chr inner t) :
    ∀ c, t.head? = some c → c ≠ '(' ∧ operand_char c := by
  intro c hc
  refine ⟨fun heq => h.unwrapped (heq ▸ hc), ?_⟩
  have hbal := h.balanced
  generalize htop : (fun c (_ : List Char) => operand_char c) = top at hbal
  cases hbal with
  | nil => cases hc
  | char _ hok _ =>
    subst htop
    rw [List.head?_cons, Option.some.injEq] at hc
    rwa [hc] at hok
  | _ =>
    rw [List.head?_cons, Option.some.injEq] at hc
    subst hc
    unfold operand_char
    decide

theorem read_comparison {l op r ws' : List Char} (hl : Operand (Escaped '"') CharBody quiet l)
    (hr : Expression r) (hop : op ∈ OPS) (hws : Space ws) (hws' : Space ws') :
    split_comparison (l ++ (ws ++ (op ++ (ws' ++ r)))) = some (l, op, r) := by
  have hleft : trim (l ++ ws) = l := by rw [trim_end_space hws, trim_tight hl.tight]
  have hright : trim (ws' ++ r) = r := by
    have := trim_space hws' space_nil r
    rw [List.append_nil] at this
    rw [this, trim_tight hr.tight]
  have hnext : (ws' ++ r).head? ≠ some '=' := by
    refine space_head hws' fun c hc heq => ?_
    have hok := (hr.first c hc).2
    rw [heq] at hok
    exact hok (by decide)
  have hcut := cut_at (l ++ ws) (ws' ++ r) hop
  rw [hleft, hright] at hcut
  have hcut := hcut hl.ne_nil hr.ne_nil hnext
  unfold split_comparison
  rw [comparison_operand hl, comparison_space hws]
  obtain ⟨c, op', rfl, hmark⟩ : ∃ c op', op = c :: op' ∧ ¬ Mark c := by
    simp only [OPS, List.mem_cons, List.not_mem_nil, or_false] at hop
    rcases hop with rfl | rfl | rfl | rfl | rfl | rfl
    all_goals exact ⟨_, _, rfl, by decide⟩
  have hopen : ∀ m ∈ ['"', '\'', '(', ')'], c ≠ m := by
    intro m hm heq
    subst heq
    apply hmark
    simp only [List.mem_cons, List.not_mem_nil, or_false] at hm
    rcases hm with rfl | rfl | rfl | rfl
    all_goals decide
  rw [List.cons_append] at hcut ⊢
  rw [split_comparison_loop, if_pos, hcut]
  exact ⟨rfl, rfl, hopen _ (by decide), hopen _ (by decide), hopen _ (by decide),
    hopen _ (by decide)⟩

end Comparisons

section Trimmed

variable {str chr : List Char → Prop} {ok : Char → Prop} {inner : Allowed}

variable {ws t : List Char}

theorem balanced_start (hws : Space ws) (h : Balanced str chr (fun c _ => ok c) inner (ws ++ t)) :
    Balanced str chr (fun c _ => ok c) inner t := by
  induction ws with
  | nil => exact h
  | cons c ws ih =>
    have hc := hws c List.mem_cons_self
    have ih := ih fun d hd => hws d (List.mem_cons_of_mem c hd)
    rw [List.cons_append] at h
    generalize ws ++ t = u at h ih
    cases h with
    | char _ _ h => exact ih h
    | _ => exact absurd hc (by decide)

/-- A closed group or literal ends in a mark, so white space at the end comes after it. -/
theorem closed_before_last {a u : List Char} {m m' w : Char} (hw : is_whitespace w = true)
    (hm : Mark m') (h : t ++ [w] = m :: (a ++ m' :: u)) :
    ∃ u', u = u' ++ [w] ∧ t = m :: (a ++ m' :: u') := by
  rcases List.eq_nil_or_concat u with rfl | ⟨u', d, rfl⟩
  · rw [← List.cons_append] at h
    obtain ⟨-, hlast⟩ := List.append_inj' h rfl
    rw [List.cons.injEq] at hlast
    exact absurd (hlast.1 ▸ hm) (space_unmarked hw)
  · have h' : t ++ [w] = (m :: (a ++ m' :: u')) ++ [d] := by
      rw [h]
      simp only [List.cons_append, List.append_assoc, List.concat_eq_append]
    obtain ⟨ht, hlast⟩ := List.append_inj' h' rfl
    rw [List.cons.injEq] at hlast
    exact ⟨u', by rw [List.concat_eq_append, hlast.1], ht⟩

theorem balanced_last {w : Char} (hw : is_whitespace w = true)
    (h : Balanced str chr (fun c _ => ok c) inner (t ++ [w])) :
    Balanced str chr (fun c _ => ok c) inner t := by
  generalize htop : (fun c (_ : List Char) => ok c) = top at h
  generalize hs : t ++ [w] = s at h
  induction h generalizing t with
  | nil => exact absurd hs (by simp)
  | @char top inner c u hc hok _ ih =>
    cases t with
    | nil => exact .nil
    | cons e t =>
      rw [List.cons_append, List.cons.injEq] at hs
      obtain ⟨rfl, hs⟩ := hs
      subst htop
      exact .char hc hok (ih rfl hs)
  | string hb _ ih =>
    obtain ⟨u', rfl, rfl⟩ := closed_before_last hw (by decide) hs
    exact .string hb (ih htop rfl)
  | char_lit hb _ ih =>
    obtain ⟨u', rfl, rfl⟩ := closed_before_last hw (by decide) hs
    exact .char_lit hb (ih htop rfl)
  | paren ha _ _ ih =>
    obtain ⟨u', rfl, rfl⟩ := closed_before_last hw (by decide) hs
    exact .paren ha (ih htop rfl)
  | bracket ha _ _ ih =>
    obtain ⟨u', rfl, rfl⟩ := closed_before_last hw (by decide) hs
    exact .bracket ha (ih htop rfl)

theorem balanced_end (hws : Space ws) (h : Balanced str chr (fun c _ => ok c) inner (t ++ ws)) :
    Balanced str chr (fun c _ => ok c) inner t := by
  induction ws using List.reverseRecOn with
  | nil =>
    rw [List.append_nil] at h
    exact h
  | append_singleton ws w ih =>
    rw [← List.append_assoc] at h
    refine ih (fun d hd => hws d (List.mem_append_left _ hd)) (balanced_last ?_ h)
    exact hws w (List.mem_append_right _ (List.mem_singleton_self w))

theorem balanced_trim {s : List Char} (h : Balanced str chr (fun c _ => ok c) inner s) :
    Balanced str chr (fun c _ => ok c) inner (trim s) := by
  obtain ⟨ws, ws', hws, hws', hs⟩ := trim_split s
  rw [hs] at h
  exact balanced_end hws' (balanced_start hws h)

/-- The splitting scan trims its parts, so it does not see white space around the text. -/
theorem split_lead (op : Char) (hws : Space ws) (d : ℤ) (b : Bool) (cur s : List Char) :
    split_bool_loop op d b (ws ++ cur) s = split_bool_loop op d b cur s := by
  have htrim : ∀ cur, trim (ws ++ cur) = trim cur := by
    intro cur
    have := trim_space hws space_nil cur
    rwa [List.append_nil] at this
  induction s generalizing d b cur with
  | nil => rw [split_bool_loop, split_bool_loop, htrim]
  | cons c s ih => simp only [split_cons, List.append_assoc, ih, htrim]

variable {op : Char}

theorem split_space {c : Char} (hop : is_whitespace op = false) (hc : is_whitespace c = true)
    (d : ℤ) (b : Bool) (cur rest : List Char) :
    split_bool_loop op d b cur (c :: rest) = split_bool_loop op d b (cur ++ [c]) rest := by
  obtain ⟨hq, hp, hp', hb, hb'⟩ := unmarked (Or.inr (space_unmarked hc))
  have hne : c ≠ op := by
    rintro rfl
    rw [hc] at hop
    cases hop
  rw [split_cons, if_neg hq, if_neg (by simp [hp, hb]), if_neg (by simp [hp', hb']),
    if_neg fun h => hne h.2.2.1]

theorem split_spaces (hop : is_whitespace op = false) (hws : Space ws) (d : ℤ) (b : Bool)
    (cur : List Char) : split_bool_loop op d b cur ws = [trim cur] := by
  induction ws generalizing cur with
  | nil => rfl
  | cons c ws ih =>
    have hc := hws c List.mem_cons_self
    rw [split_space hop hc, ih fun e he => hws e (List.mem_cons_of_mem c he)]
    refine congrArg (fun p => [p]) (trim_end_space ?_ cur)
    intro e he
    rwa [List.mem_singleton.mp he]

theorem split_trail (hop : is_whitespace op = false) (hws : Space ws) (d : ℤ) (b : Bool)
    (cur s : List Char) : split_bool_loop op d b cur (s ++ ws) = split_bool_loop op d b cur s := by
  fun_induction split_bool_loop op d b cur s with
  | case1 d b cur => exact split_spaces hop hws d b cur
  | case2 d b cur rest ih => rw [List.cons_append, split_cons, if_pos rfl, ih]
  | case3 d b cur c rest hq hp ih =>
    rw [List.cons_append, split_cons, if_neg hq, if_pos hp, ih]
  | case4 d b cur c rest hq hp hp' ih =>
    rw [List.cons_append, split_cons, if_neg hq, if_neg hp, if_pos hp', ih]
  | case5 d b cur c hq hp hp' hc =>
    have hnext : ¬ ((!b) = true ∧ d = 0 ∧ c = op ∧ ws.head? = some op) := by
      rintro ⟨-, -, -, hw⟩
      have := hws op (List.mem_of_head? hw)
      rw [hop] at this
      cases this
    rw [List.cons_append, List.nil_append, split_cons, if_neg hq, if_neg hp, if_neg hp',
      if_neg hnext, split_spaces hop hws]
  | case6 d b cur c hq hp hp' hc rest ih =>
    rw [List.cons_append, List.cons_append, split_cons, if_neg hq, if_neg hp, if_neg hp',
      if_pos ⟨hc.1, hc.2.1, hc.2.2, rfl⟩, List.tail_cons, ih]
  | case7 d b cur c hq hp hp' hc e rest hne ih =>
    rw [List.cons_append, split_cons, if_neg hq, if_neg hp, if_neg hp', if_neg, ih]
    rintro ⟨-, -, -, he⟩
    exact hne (Option.some.inj he)
  | case8 d b cur c rest hq hp hp' hc ih =>
    rw [List.cons_append, split_cons, if_neg hq, if_neg hp, if_neg hp',
      if_neg fun h => hc ⟨h.1, h.2.1, h.2.2.1⟩, ih]

theorem split_trim (hop : is_whitespace op = false) (s : List Char) :
    split_bool (trim s) op = split_bool s op := by
  obtain ⟨ws, ws', hws, hws', hs⟩ := trim_split s
  have hskip : ∀ u cur, split_bool_loop op 0 false cur (ws ++ u) =
      split_bool_loop op 0 false (cur ++ ws) u := by
    intro u
    clear hs
    induction ws with
    | nil => exact fun cur => by rw [List.append_nil, List.nil_append]
    | cons c ws ih =>
      intro cur
      rw [List.cons_append, split_space hop (hws c List.mem_cons_self),
        ih fun e he => hws e (List.mem_cons_of_mem c he), List.append_assoc]
      rfl
  have hlead := split_lead op hws 0 false [] (trim s)
  rw [List.append_nil] at hlead
  unfold split_bool
  nth_rewrite 2 [hs]
  rw [hskip, List.nil_append, split_trail hop hws', hlead]

end Trimmed

section Parts

/-- Texts with a doubled operator between them. -/
def joined (op : Char) (first : List Char) : List (List Char) → List Char
  | [] => first
  | t :: ts => first ++ op :: op :: joined op t ts

theorem joined_append (op : Char) (s : List Char) (ts : List (List Char)) (t : List Char)
    (us : List (List Char)) :
    joined op s (ts ++ t :: us) = joined op s ts ++ op :: op :: joined op t us := by
  induction ts generalizing s with
  | nil => rfl
  | cons u ts ih =>
    rw [List.cons_append, joined, joined, ih, List.append_assoc]
    rfl

theorem joined_length (op : Char) (s : List Char) (ts : List (List Char)) :
    ∀ t ∈ s :: ts, t.length + 2 * ts.length ≤ (joined op s ts).length := by
  induction ts generalizing s with
  | nil =>
    intro t ht
    rw [List.mem_singleton.mp ht]
    exact le_rfl
  | cons u ts ih =>
    intro t ht
    simp only [joined, List.length_append, List.length_cons]
    rcases List.mem_cons.mp ht with rfl | ht
    · have := ih u u List.mem_cons_self
      omega
    · have := ih u t ht
      omega

/-- The conditions a chain of one operator joins. -/
inductive Spine (mk : Cond → Cond → Cond) : Cond → List Cond → Prop
  | one (e : Cond) : Spine mk e [e]
  | join {a b : Cond} {as bs : List Cond} : Spine mk a as → Spine mk b bs →
      Spine mk (mk a b) (as ++ bs)

variable {mk : Cond → Cond → Cond} {e : Cond} {es : List Cond} {s : List Char}

theorem Spine.flat {parts : BoolTree Leaf → List (BoolTree Leaf)}
    (hmk : ∀ a b, parts (mk a b).flat = parts a.flat ++ parts b.flat) (h : Spine mk e es) :
    parts e.flat = es.flatMap fun a => parts a.flat := by
  induction h with
  | one e => rw [List.flatMap_singleton]
  | join _ _ iha ihb => rw [hmk, List.flatMap_append, iha, ihb]

theorem Spine.all {p : Leaf → Prop} (hmk : ∀ a b, (mk a b).All p → a.All p ∧ b.All p)
    (h : Spine mk e es) (he : e.All p) : ∀ a ∈ es, a.All p := by
  induction h with
  | one e =>
    intro a ha
    rwa [List.mem_singleton.mp ha]
  | join _ _ iha ihb =>
    obtain ⟨hl, hr⟩ := hmk _ _ he
    intro a ha
    rcases List.mem_append.mp ha with ha | ha
    · exact iha hl a ha
    · exact ihb hr a ha

theorem Spine.ne_nil (h : Spine mk e es) : es ≠ [] := by
  induction h with
  | one e => exact List.cons_ne_nil _ _
  | join _ _ iha _ => exact fun hnil => iha (List.append_eq_nil_iff.mp hnil).1

variable {a : Cond}

theorem Spine.single (h : Spine mk e [a]) : e = a := by
  generalize hs : [a] = l at h
  cases h with
  | one e => exact (List.cons.inj hs).1.symm
  | @join _ _ as bs ha hb =>
    have hlen := congrArg List.length hs
    have hleft := List.length_pos_iff.mpr ha.ne_nil
    have hright := List.length_pos_iff.mpr hb.ne_nil
    rw [List.length_append, List.length_singleton] at hlen
    omega

theorem Spine.split {b : Cond} (h : Spine mk e (a :: b :: es)) : ∃ a b, e = mk a b := by
  generalize hs : a :: b :: es = l at h
  cases h with
  | one e => cases hs
  | join _ _ => exact ⟨_, _, rfl⟩

/-- A text of a level as a chain of texts of the next one. -/
structure Parts (op : Char) (mk : Cond → Cond → Cond) (n : ℕ) (e : Cond) (s : List Char)
    (q : Cond × List Char) (qs : List (Cond × List Char)) : Prop where
  printed : ∀ p ∈ q :: qs, Prints n p.1 p.2
  text : s = joined op q.2 (qs.map Prod.snd)
  meaning : Spine mk e ((q :: qs).map Prod.fst)

theorem parts_one {op : Char} {n : ℕ} (h : Prints n e s) : Parts op mk n e s (e, s) [] := by
  refine ⟨fun p hp => ?_, rfl, .one e⟩
  rw [List.mem_singleton.mp hp]
  exact h

theorem Parts.join {op : Char} {n : ℕ} {b : Cond} {t : List Char} {q r : Cond × List Char}
    {qs rs : List (Cond × List Char)} (ha : Parts op mk n a s q qs) (hb : Parts op mk n b t r rs) :
    Parts op mk n (mk a b) (s ++ op :: op :: t) q (qs ++ r :: rs) := by
  refine ⟨fun p hp => ?_, ?_, ?_⟩
  · rw [← List.cons_append] at hp
    rcases List.mem_append.mp hp with hp | hp
    · exact ha.printed p hp
    · exact hb.printed p hp
  · rw [List.map_append, List.map_cons, joined_append, ← ha.text, ← hb.text]
  · rw [← List.cons_append, List.map_append]
    exact .join ha.meaning hb.meaning

theorem or_parts (h : Prints 0 e s) : ∃ q qs, Parts '|' .or 1 e s q qs := by
  generalize hn : 0 = n at h
  induction h with
  | or _ _ iha ihb =>
    obtain ⟨q, qs, ha⟩ := iha hn
    obtain ⟨r, rs, hb⟩ := ihb hn
    exact ⟨q, qs ++ r :: rs, ha.join hb⟩
  | conjunction h _ => exact ⟨_, [], parts_one h⟩
  | _ => cases hn

theorem and_parts (h : Prints 1 e s) : ∃ q qs, Parts '&' .and 2 e s q qs := by
  generalize hn : 1 = n at h
  induction h with
  | and _ _ iha ihb =>
    obtain ⟨q, qs, ha⟩ := iha hn
    obtain ⟨r, rs, hb⟩ := ihb hn
    exact ⟨q, qs ++ r :: rs, ha.join hb⟩
  | atom h _ => exact ⟨_, [], parts_one h⟩
  | _ => cases hn

/-- What may stand outside the groups of a text of this level. -/
def okay : ℕ → Char → Prop
  | 0, _ => True
  | 1, c => c ≠ '|'
  | _, c => c ≠ '|' ∧ c ≠ '&'

theorem operand_balanced {t : List Char} {inner : Allowed} (h : Operand tame_str tame_chr inner t) :
    Balanced tame_str tame_chr (fun c _ => okay 2 c) anything t := by
  refine h.balanced.mono (fun _ h => h) (fun _ h => h) (fun c _ hc => ?_) fun _ _ _ => trivial
  simp only [operand_char, List.mem_cons, List.not_mem_nil, or_false, not_or] at hc
  exact ⟨hc.2.2.2.2.2, hc.2.2.2.2.1⟩

theorem space_balanced {ws : List Char} (hws : Space ws) :
    Balanced tame_str tame_chr (fun c _ => okay 2 c) anything ws := by
  refine balanced_chars fun c hc => ⟨space_unmarked (hws c hc), ?_, ?_⟩
  all_goals
    rintro rfl
    exact absurd (hws _ hc) (by decide)

theorem op_balanced {op : List Char} (hop : op ∈ OPS) :
    Balanced tame_str tame_chr (fun c _ => okay 2 c) anything op := by
  refine balanced_chars fun c hc => ?_
  simp only [OPS, List.mem_cons, List.not_mem_nil, or_false] at hop
  rcases hop with rfl | rfl | rfl | rfl | rfl | rfl
  all_goals
    simp only [List.mem_cons, List.not_mem_nil, or_false, or_self] at hc
  · subst hc
    exact ⟨by decide, by decide, by decide⟩
  · rcases hc with rfl | rfl
    all_goals exact ⟨by decide, by decide, by decide⟩
  · rcases hc with rfl | rfl
    all_goals exact ⟨by decide, by decide, by decide⟩
  · rcases hc with rfl | rfl
    all_goals exact ⟨by decide, by decide, by decide⟩
  · subst hc
    exact ⟨by decide, by decide, by decide⟩
  · subst hc
    exact ⟨by decide, by decide, by decide⟩

/-- The text of a condition with plain leaves balances, as the splitting scan counts. -/
theorem printed_balanced {n : ℕ} (h : Prints n e s) (he : e.All Plain) :
    Balanced tame_str tame_chr (fun c _ => okay n c) anything s := by
  induction h with
  | value _ => exact operand_balanced he
  | compare _ _ hop hws hws' =>
    obtain ⟨hl, hr⟩ := he
    exact (operand_balanced hl).append ((space_balanced hws).append ((op_balanced hop).append
      ((space_balanced hws').append (operand_balanced hr))))
  | not _ ih => exact .char (by decide) ⟨by decide, by decide⟩ (ih he)
  | parens _ ih =>
    refine .paren ((ih he).mono (fun _ h => h) (fun _ h => h) ?_ fun _ _ h => h) .nil
    exact fun _ _ _ => trivial
  | spaces hws hws' _ ih =>
    exact (space_balanced hws).append ((ih he).append (space_balanced hws'))
  | and _ _ iha ihb =>
    obtain ⟨ha, hb⟩ := he
    have hop : okay 1 '&' := by
      show '&' ≠ '|'
      decide
    exact (iha ha).append (.char (by decide) hop (.char (by decide) hop (ihb hb)))
  | or _ _ iha ihb =>
    obtain ⟨ha, hb⟩ := he
    exact (iha ha).append (.char (by decide) trivial (.char (by decide) trivial (ihb hb)))
  | atom _ ih => exact (ih he).mono (fun _ h => h) (fun _ h => h) (fun _ _ h => h.1) fun _ _ h => h
  | conjunction _ ih =>
    exact (ih he).mono (fun _ h => h) (fun _ h => h) (fun _ _ _ => trivial) fun _ _ h => h

end Parts

section Reading

variable {ok : Char → Prop} {op : Char}

variable {t s : List Char} {inner : Allowed}

theorem operator_scan (hop : op = '|' ∨ op = '&') (hok : ∀ c, ok c → c ≠ op)
    (h : Balanced tame_str tame_chr (fun c _ => ok c) anything t) (cur rest : List Char) :
    split_bool_loop op 0 false cur (t ++ rest) = split_bool_loop op 0 false (cur ++ t) rest :=
  split_scan h hop le_rfl (fun _ c _ hc => hok c hc) cur rest

theorem split_one (hop : op = '|' ∨ op = '&') (hok : ∀ c, ok c → c ≠ op)
    (h : Balanced tame_str tame_chr (fun c _ => ok c) anything t) : split_bool t op = [trim t] := by
  have hscan := operator_scan hop hok h [] []
  rw [List.append_nil, List.nil_append] at hscan
  exact hscan

theorem split_joined (hop : op = '|' ∨ op = '&') (hok : ∀ c, ok c → c ≠ op) {ts : List (List Char)}
    (h : ∀ u ∈ t :: ts, Balanced tame_str tame_chr (fun c _ => ok c) anything u) :
    split_bool (joined op t ts) op = (t :: ts).map trim := by
  have hop' : op ≠ '"' ∧ op ≠ '(' ∧ op ≠ '[' ∧ op ≠ ')' ∧ op ≠ ']' := by
    rcases hop with rfl | rfl
    all_goals decide
  obtain ⟨hq, hp, hb, hp', hb'⟩ := hop'
  induction ts generalizing t with
  | nil => exact split_one hop hok (h t List.mem_cons_self)
  | cons u ts ih =>
    have hscan := operator_scan hop hok (h t List.mem_cons_self) [] (op :: op :: joined op u ts)
    unfold split_bool at ih ⊢
    rw [joined, hscan, List.nil_append, split_cons, if_neg hq, if_neg (by simp [hp, hb]),
      if_neg (by simp [hp', hb']), if_pos (by simp), List.tail_cons,
      ih fun v hv => h v (List.mem_cons_of_mem t hv)]
    rfl

theorem not_whitespace (hop : op = '|' ∨ op = '&') : is_whitespace op = false := by
  rcases hop with rfl | rfl
  all_goals decide

/-- A text with an operator outside its groups is not one pair of parentheses. -/
theorem core_open (hop : op = '|' ∨ op = '&')
    (hs : Balanced tame_str tame_chr (fun c _ => ok c) inner s) (h : 1 < (split_bool s op).length) :
    core s = trim s := by
  rw [core_eq]
  refine strip_open (Bool.eq_false_iff.mpr fun hwrap => ?_)
  obtain ⟨a, ha, hbal⟩ := group_of_encloses (balanced_trim hs) hwrap
  have hgroup : Balanced tame_str tame_chr (fun _ _ => False) anything (group a) :=
    .paren hbal .nil
  rw [← split_trim (not_whitespace hop), ha, split_one hop (fun _ hc => hc.elim) hgroup] at h
  exact absurd h (lt_irrefl 1)

theorem parse_trim (s : List Char) : parse_bool_tree (trim s) = parse_bool_tree s := by
  refine parse_of_core ?_
  unfold core
  rw [trim_trim]

/-- A text without operators that is not in parentheses: only a leading `!` is looked at. -/
theorem parse_unsplit (hs : Balanced tame_str tame_chr (fun c _ => okay 2 c) anything s)
    (hopen : parens_enclose (trim s) = false) {t : BoolTree (List Char)}
    (hneg : ∀ rest, negated (trim s) = some rest → t = .not (parse_bool_tree rest))
    (hleaf : negated (trim s) = none → t = .leaf (trim s)) : parse_bool_tree s = t := by
  have hstrip : strip_enclosing_parens (trim s) = trim s := by rw [strip_trim, strip_open hopen]
  have hors : split_bool (trim s) '|' = [trim s] := by
    rw [split_one (Or.inl rfl) (fun _ hc => hc.1) (balanced_trim hs), trim_trim]
  have hands : split_bool (trim s) '&' = [trim s] := by
    rw [split_one (Or.inr rfl) (fun _ hc => hc.2) (balanced_trim hs), trim_trim]
  rw [parse_bool_tree_eq, hstrip, hors, hands, if_neg (by simp), if_neg (by simp)]
  cases hn : negated (trim s) with
  | some rest => exact (hneg rest hn).symm
  | none => exact (hleaf hn).symm

theorem not_enclosed (h : s.head? ≠ some '(') : parens_enclose s = false := by
  unfold parens_enclose
  rw [decide_eq_false h]
  rfl

theorem parse_leaf (ht : Balanced tame_str tame_chr (fun c _ => okay 2 c) anything t)
    (htight : Tight t) (hopen : t.head? ≠ some '(') (hnot : t.head? ≠ some '!') :
    parse_bool_tree t = .leaf t := by
  have htrim := trim_tight htight
  have hneg : negated (trim t) = none := by
    rw [htrim]
    unfold negated
    split
    · exact absurd rfl hnot
    · rfl
  refine parse_unsplit ht ?_ (fun rest h => ?_) fun _ => by rw [htrim]
  · rw [htrim]
    exact not_enclosed hopen
  · rw [hneg] at h
    cases h

theorem trim_cons {c : Char} (hc : is_whitespace c = false) (s : List Char) :
    ∃ u ws, Space ws ∧ s = u ++ ws ∧ trim (c :: s) = c :: u := by
  obtain ⟨ws, ws', hws, hws', hs⟩ := trim_split (c :: s)
  have hno : ∀ {w : List Char}, Space w → c ∉ w := by
    intro w hw hmem
    rw [hw c hmem] at hc
    cases hc
  cases ws with
  | cons d ws =>
    obtain ⟨rfl, -⟩ := List.cons.inj hs
    exact absurd List.mem_cons_self (hno hws)
  | nil =>
    rw [List.nil_append] at hs
    cases ht : trim (c :: s) with
    | nil =>
      rw [ht, List.nil_append] at hs
      exact absurd (hs ▸ List.mem_cons_self) (hno hws')
    | cons d u =>
      rw [ht, List.cons_append, List.cons.injEq] at hs
      obtain ⟨rfl, hs⟩ := hs
      exact ⟨u, ws', hws', hs, rfl⟩

theorem head_dropWhile_append {u ws : List Char} {c : Char}
    (h : (u.dropWhile is_whitespace).head? = some c) :
    ((u ++ ws).dropWhile is_whitespace).head? = some c := by
  have hne : u.dropWhile is_whitespace ≠ [] := by
    intro hnil
    rw [hnil] at h
    cases h
  rw [List.dropWhile_append, if_neg (by rwa [List.isEmpty_iff]), List.head?_append, h]
  rfl

theorem parse_not (hs : Balanced tame_str tame_chr (fun c _ => okay 2 c) anything s)
    (hnext : (s.dropWhile is_whitespace).head? ≠ some '=') :
    parse_bool_tree ('!' :: s) = .not (parse_bool_tree s) := by
  obtain ⟨u, ws, hws, rfl, htrim⟩ := trim_cons (by decide : is_whitespace '!' = false) s
  have hneg : negated (trim ('!' :: (u ++ ws))) = some u := by
    rw [htrim, negated, if_neg fun h => hnext (head_dropWhile_append h)]
  have hparse : parse_bool_tree u = parse_bool_tree (u ++ ws) :=
    parse_of_core (core_space space_nil hws u).symm
  have hbal : Balanced tame_str tame_chr (fun c _ => okay 2 c) anything ('!' :: (u ++ ws)) :=
    .char (by decide) ⟨by decide, by decide⟩ hs
  refine parse_unsplit hbal ?_ (fun rest h => ?_) fun h => ?_
  · rw [htrim]
    exact not_enclosed (by simp)
  · rw [hneg, Option.some.injEq] at h
    rw [← h, hparse]
  · rw [hneg] at h
    cases h

/-- No text at the level of an operand starts with the second half of `!=`. -/
theorem printed_first {e : Cond} (h : Prints 2 e s) :
    ∃ c, (s.dropWhile is_whitespace).head? = some c ∧ c ≠ '=' := by
  have hfirst : ∀ {t u : List Char}, Expression t →
      ∃ c, ((t ++ u).dropWhile is_whitespace).head? = some c ∧ c ≠ '=' := by
    intro t u ht
    cases t with
    | nil => exact absurd rfl ht.ne_nil
    | cons c t =>
      refine ⟨c, ?_, ?_⟩
      · rw [List.cons_append, List.dropWhile_cons_of_neg, List.head?_cons]
        rw [ht.tight.first c rfl]
        exact Bool.false_ne_true
      · rintro rfl
        exact (ht.first '=' rfl).2 (by decide)
  generalize hn : 2 = n at h
  induction h with
  | @value t ht =>
    have := @hfirst t [] ht
    rwa [List.append_nil] at this
  | compare hl _ _ _ _ => exact hfirst hl
  | not _ _ => exact ⟨'!', rfl, by decide⟩
  | parens _ _ => exact ⟨'(', rfl, by decide⟩
  | spaces hws _ _ ih =>
    obtain ⟨c, hc, hne⟩ := ih hn
    refine ⟨c, ?_, hne⟩
    rw [trim_start_space hws]
    exact head_dropWhile_append hc
  | _ => cases hn

theorem Operand.escaped (h : Operand tame_str tame_chr inner t) :
    Operand (Escaped '"') CharBody inner t :=
  ⟨h.balanced.mono (fun _ hb => hb.1) (fun _ hb => hb.1) (fun _ _ hc => hc) fun _ _ hc => hc,
    h.tight, h.ne_nil, h.unwrapped⟩

theorem Operand.not_negated (h : Operand tame_str tame_chr inner t) : t.head? ≠ some '!' := by
  intro hc
  exact (h.first '!' hc).2 (by decide)

theorem comparison_ends {inner' : Allowed} {l r : List Char}
    (hl : Operand tame_str tame_chr inner l) (hr : Operand tame_str tame_chr inner' r)
    (m : List Char) : Tight (l ++ (m ++ r)) ∧ (l ++ (m ++ r)).head? = l.head? := by
  obtain ⟨c, l', rfl⟩ := List.exists_cons_of_ne_nil hl.ne_nil
  obtain ⟨r', d, rfl⟩ := (List.eq_nil_or_concat r).resolve_left hr.ne_nil
  have hhead : (c :: l' ++ (m ++ r'.concat d)).head? = (c :: l').head? := rfl
  have hlast : (c :: l' ++ (m ++ r'.concat d)).getLast? = (r'.concat d).getLast? := by
    simp only [List.concat_eq_append, ← List.append_assoc, List.getLast?_concat]
  refine ⟨⟨fun e he => ?_, fun e he => ?_⟩, hhead⟩
  · rw [hhead] at he
    exact hl.tight.first e he
  · rw [hlast] at he
    exact hr.tight.last e he

end Reading

section Agreement

/-- What is read of the text is what it was printed from. -/
def ReadsBack (e : Cond) (s : List Char) : Prop := flat read_leaf (parse_bool_tree s) = e.flat

variable {n : ℕ} {e : Cond} {s : List Char}

/-- Texts at the level of an operand, given the shorter ones. -/
theorem atom_read (ih : ∀ e s, s.length < n → Prints 0 e s → e.All Plain → ReadsBack e s)
    (h : Prints 2 e s) (hlen : s.length ≤ n) (he : e.All Plain) : ReadsBack e s := by
  generalize hm : 2 = m at h
  unfold ReadsBack at ih ⊢
  induction h with
  | @value t _ =>
    have hp : Operand tame_str tame_chr quiet t := he
    rw [parse_leaf (operand_balanced hp) hp.tight hp.unwrapped hp.not_negated, flat,
      read_value hp.escaped]
    rfl
  | @compare l op r ws ws' hl hr hop hws hws' =>
    have hbal := printed_balanced (.compare hl hr hop hws hws') he
    obtain ⟨hl, hr'⟩ := he
    have hends := comparison_ends hl hr' (ws ++ (op ++ ws'))
    simp only [List.append_assoc] at hends
    have hcmp := read_comparison hl.escaped hr hop hws hws'
    rw [parse_leaf hbal hends.1 (hends.2 ▸ hl.unwrapped) (hends.2 ▸ hl.not_negated), flat,
      read_leaf, hcmp]
    rfl
  | @not e s h _ =>
    obtain ⟨c, hc, hne⟩ := printed_first h
    have hnext : (s.dropWhile is_whitespace).head? ≠ some '=' := by
      rw [hc]
      exact fun heq => hne (Option.some.inj heq)
    rw [List.length_cons] at hlen
    rw [parse_not (printed_balanced h he) hnext, flat,
      ih e s (by omega) (.conjunction (.atom h)) he]
    rfl
  | @parens e s h _ =>
    have hshort : s.length < n := by
      unfold group at hlen
      rw [List.length_cons, List.length_append, List.length_singleton] at hlen
      omega
    have hbal : Balanced tame_str tame_chr anything anything s :=
      (printed_balanced h he).mono (fun _ h => h) (fun _ h => h) (fun _ _ _ => trivial)
        fun _ _ h => h
    rw [parse_of_core (core_group hbal), ih e s hshort h he]
  | @spaces e s ws ws' hws hws' _ ihs =>
    have hshort : s.length ≤ n := by
      rw [List.length_append, List.length_append] at hlen
      omega
    rw [parse_of_core (core_space hws hws' s)]
    exact ihs hshort he hm
  | _ => cases hm

theorem parts_read {parts : BoolTree Leaf → List (BoolTree Leaf)} {ps : List (Cond × List Char)}
    (h : ∀ p ∈ ps, ReadsBack p.1 p.2) :
    flat_join read_leaf parts (((ps.map Prod.snd).map trim).map parse_bool_tree) =
      (ps.map Prod.fst).flatMap fun a => parts a.flat := by
  rw [flat_join_eq]
  simp only [List.flatMap_map]
  refine List.flatMap_congr fun p hp => ?_
  have := h p hp
  unfold ReadsBack at this
  rw [parse_trim, this]

variable {mk : Cond → Cond → Cond} {q r : Cond × List Char} {qs : List (Cond × List Char)}

variable {op : Char}

variable {m : ℕ}

/-- The parts of a chain of two or more are what the splitting scan finds. -/
theorem Parts.split (hp : Parts op mk m e s q (r :: qs)) (hop : op = '|' ∨ op = '&')
    (hok : ∀ c, okay m c → c ≠ op) (he : ∀ p ∈ q :: r :: qs, p.1.All Plain) :
    split_bool s op = ((q :: r :: qs).map Prod.snd).map trim := by
  have hbal : ∀ u ∈ q.2 :: (r :: qs).map Prod.snd,
      Balanced tame_str tame_chr (fun c _ => okay m c) anything u := by
    intro u hu
    have hu : u ∈ (q :: r :: qs).map Prod.snd := hu
    obtain ⟨p, hmem, rfl⟩ := List.mem_map.mp hu
    exact printed_balanced (hp.printed p hmem) (he p hmem)
  rw [hp.text, split_joined hop hok hbal]
  rfl

theorem Parts.shorter (hp : Parts op mk m e s q (r :: qs)) :
    ∀ p ∈ q :: r :: qs, p.2.length < s.length := by
  intro p hmem
  have hin : p.2 ∈ q.2 :: (r :: qs).map Prod.snd :=
    List.mem_map_of_mem (f := Prod.snd) hmem
  have := joined_length op q.2 ((r :: qs).map Prod.snd) p.2 hin
  rw [hp.text]
  simp only [List.length_map, List.length_cons] at this
  omega

/-- A chain of two or more is split into its links, and the links read as they were printed give
what the chain means. -/
theorem Parts.chain_read {k : ℕ} {parts : BoolTree Leaf → List (BoolTree Leaf)}
    (hp : Parts op mk m e s q (r :: qs)) (hop : op = '|' ∨ op = '&') (hok : ∀ c, okay m c → c ≠ op)
    (hflat : ∀ a b, parts (mk a b).flat = parts a.flat ++ parts b.flat)
    (hall : ∀ p ∈ q :: r :: qs, p.1.All Plain) (hread : ∀ p ∈ q :: r :: qs, ReadsBack p.1 p.2)
    (hbal : Balanced tame_str tame_chr (fun c _ => okay k c) anything s) :
    strip_enclosing_parens (trim s) = trim s ∧ 1 < (split_bool (trim s) op).length ∧
      flat_join read_leaf parts ((split_bool (trim s) op).map parse_bool_tree) = parts e.flat := by
  have hsplit := hp.split hop hok hall
  have hlong : 1 < (split_bool s op).length := by
    rw [hsplit]
    simp only [List.map_cons, List.length_cons]
    omega
  refine ⟨core_open hop hbal hlong, ?_, ?_⟩
  · rw [split_trim (not_whitespace hop)]
    exact hlong
  · rw [split_trim (not_whitespace hop), hsplit, parts_read hread, hp.meaning.flat hflat]

theorem or_read (h : Prints 0 e s) (hp : Parts '|' .or 1 e s q (r :: qs)) (he : e.All Plain)
    (hread : ∀ p ∈ q :: r :: qs, ReadsBack p.1 p.2) : ReadsBack e s := by
  have hall : ∀ p ∈ q :: r :: qs, p.1.All Plain := fun p hmem =>
    hp.meaning.all (fun a b (h : (Cond.or a b).All Plain) => h) he p.1 (List.mem_map_of_mem hmem)
  obtain ⟨hstrip, hlong, hflat⟩ := hp.chain_read (Or.inl rfl) (fun _ hc => hc)
    (fun _ _ => rfl : ∀ a b, disjuncts (Cond.or a b).flat = _) hall hread (printed_balanced h he)
  obtain ⟨a, b, rfl⟩ := hp.meaning.split
  unfold ReadsBack
  rw [parse_bool_tree_eq, hstrip, if_pos hlong, flat, hflat]
  rfl

theorem and_read (h : Prints 1 e s) (hp : Parts '&' .and 2 e s q (r :: qs)) (he : e.All Plain)
    (hread : ∀ p ∈ q :: r :: qs, ReadsBack p.1 p.2) : ReadsBack e s := by
  have hall : ∀ p ∈ q :: r :: qs, p.1.All Plain := fun p hmem =>
    hp.meaning.all (fun a b (h : (Cond.and a b).All Plain) => h) he p.1 (List.mem_map_of_mem hmem)
  have hbal := printed_balanced h he
  obtain ⟨hstrip, hlong, hflat⟩ := hp.chain_read (Or.inr rfl) (fun _ hc => hc.2)
    (fun _ _ => rfl : ∀ a b, conjuncts (Cond.and a b).flat = _) hall hread hbal
  obtain ⟨a, b, rfl⟩ := hp.meaning.split
  have hors : split_bool (trim s) '|' = [trim s] := by
    rw [split_one (Or.inl rfl) (fun _ hc => hc) (balanced_trim hbal), trim_trim]
  unfold ReadsBack
  rw [parse_bool_tree_eq, hstrip, hors, if_neg (by simp), if_pos hlong, flat, hflat]
  rfl

/-- A printed condition with plain leaves is read as the tree it was printed from, up to
flattening, and each of its comparisons is cut at its operator. -/
theorem condition_read_back (e : Cond) (s : List Char) (h : Prints 0 e s) (he : e.All Plain) :
    flat read_leaf (parse_bool_tree s) = e.flat := by
  generalize hn : s.length = n
  induction n using Nat.strong_induction_on generalizing e s with
  | _ n ih =>
    have hread : ∀ e s, s.length < n → Prints 0 e s → e.All Plain → ReadsBack e s :=
      fun e s hlt h he => ih s.length hlt e s h he rfl
    subst hn
    obtain ⟨q, qs, hp⟩ := or_parts h
    cases qs with
    | cons r qs =>
      have hall := hp.meaning.all (fun a b (h : (Cond.or a b).All Plain) => h) he
      refine or_read h hp he fun p hmem => hread p.1 p.2 (hp.shorter p hmem) ?_ ?_
      · exact .conjunction (hp.printed p hmem)
      · exact hall p.1 (List.mem_map_of_mem hmem)
    | nil =>
      obtain rfl := hp.meaning.single
      have htext : s = q.2 := hp.text
      have h1 := hp.printed q List.mem_cons_self
      rw [← htext] at h1
      obtain ⟨q', qs', hp'⟩ := and_parts h1
      cases qs' with
      | cons r qs =>
        have hall := hp'.meaning.all (fun a b (h : (Cond.and a b).All Plain) => h) he
        refine and_read h1 hp' he fun p hmem => hread p.1 p.2 (hp'.shorter p hmem) ?_ ?_
        · exact .conjunction (.atom (hp'.printed p hmem))
        · exact hall p.1 (List.mem_map_of_mem hmem)
      | nil =>
        have heq := hp'.meaning.single
        have htext' : s = q'.2 := hp'.text
        have h2 := hp'.printed q' List.mem_cons_self
        rw [← htext', ← heq] at h2
        exact atom_read hread h2 le_rfl he

theorem letter_operand {c : Char} (hc : c ∈ ['a', 'b', 'c', 'd']) :
    Operand tame_str tame_chr quiet [c] := by
  simp only [List.mem_cons, List.not_mem_nil, or_false] at hc
  refine ⟨balanced_chars fun d hd => ?_, ⟨fun d hd => ?_, fun d hd => ?_⟩, List.cons_ne_nil _ _,
    fun hd => ?_⟩
  · rw [List.mem_singleton.mp hd]
    unfold operand_char
    rcases hc with rfl | rfl | rfl | rfl
    all_goals decide
  · obtain rfl := Option.some.inj hd
    rcases hc with rfl | rfl | rfl | rfl
    all_goals decide
  · obtain rfl := Option.some.inj hd
    rcases hc with rfl | rfl | rfl | rfl
    all_goals decide
  · obtain rfl := Option.some.inj hd
    exact absurd hc (by decide)

theorem Operand.expression {inner : Allowed} {t : List Char} (h : Operand tame_str tame_chr inner t)
    : Expression t :=
  ⟨h.escaped.balanced.mono (fun _ h => h) (fun _ h => h) (fun _ _ h => h) fun _ _ _ => trivial,
    h.tight, h.ne_nil, h.unwrapped⟩

theorem space_one : Space [' '] := by
  intro c hc
  rw [List.mem_singleton.mp hc]
  decide

/-- `!a && b < "||"`, in parentheses, or `c`. -/
theorem condition_read_back_string :
    flat read_leaf (parse_bool_tree "(!a && b < \"||\") || c".toList) =
      .or [.and [.not (.leaf (.value ['a'])), .leaf (.compare ['b'] ['<'] "\"||\"".toList)],
        .leaf (.value ['c'])] := by
  have ha := letter_operand (c := 'a') (by decide)
  have hb := letter_operand (c := 'b') (by decide)
  have hc := letter_operand (c := 'c') (by decide)
  have hstr : Operand tame_str tame_chr anything "\"||\"".toList := by
    refine ⟨@Balanced.string _ _ _ _ ['|', '|'] _ ⟨?_, by decide⟩ .nil, ⟨?_, ?_⟩, by decide,
      by decide⟩
    · exact .plain (by decide) (by decide) (.plain (by decide) (by decide) .nil)
    · rintro c hc
      cases hc
      decide
    · rintro c hc
      cases hc
      decide
  have hand : Prints 0 (.and (.not (.leaf (.value ['a'])))
      (.leaf (.compare ['b'] ['<'] "\"||\"".toList))) "!a && b < \"||\"".toList := by
    refine .conjunction (.and (s := "!a ".toList) (t := " b < \"||\"".toList) (.atom ?_) (.atom ?_))
    · exact .spaces (s := "!a".toList) space_nil space_one (.not (.value ha.expression))
    · exact .spaces space_one space_nil (.compare hb.expression hstr.escaped (by decide) space_one
        space_one)
  have hprints := Prints.or (s := "(!a && b < \"||\") ".toList) (t := " c".toList)
    (.conjunction (.atom (.spaces space_nil space_one (.parens hand))))
    (.conjunction (.atom (.spaces (s := ['c']) space_one space_nil (.value hc.expression))))
  exact condition_read_back _ _ hprints
    ⟨⟨ha, hb, hstr⟩, hc⟩

/-- The text `c == '"' && d`. -/
def quote_text : List Char :=
  ['c', ' ', '=', '=', ' ', '\'', '"', '\'', ' ', '&', '&', ' ', 'd']

def quote_cond : Cond :=
  .and (.leaf (.compare ['c'] ['=', '='] ['\'', '"', '\''])) (.leaf (.value ['d']))

/-- A char literal that is a double quote hides the `&&` after it. -/
theorem char_quote_unsplit : Prints 0 quote_cond quote_text ∧
    parse_bool_tree quote_text = .leaf quote_text ∧
      flat read_leaf (parse_bool_tree quote_text) ≠ quote_cond.flat := by
  have hc := letter_operand (c := 'c') (by decide)
  have hd := letter_operand (c := 'd') (by decide)
  have hquote : Expression ['\'', '"', '\''] := by
    refine ⟨@Balanced.char_lit _ _ _ _ ['"'] _ (.plain (by decide) (by decide)) .nil, ⟨?_, ?_⟩,
      by decide, by decide⟩
    · rintro c hc
      cases hc
      decide
    · rintro c hc
      cases hc
      decide
  have hleft := @Prints.compare _ ['=', '='] _ _ _ hc.expression hquote (by decide) space_one
    space_one
  have hprints := Prints.and (s := quote_text.take 9) (t := [' ', 'd'])
    (.atom (.spaces space_nil space_one hleft))
    (.atom (.spaces (s := ['d']) space_one space_nil (.value hd.expression)))
  have hstrip : strip_enclosing_parens (trim quote_text) = quote_text := by decide
  have hors : split_bool quote_text '|' = [quote_text] := by decide
  have hands : split_bool quote_text '&' = [quote_text] := by decide
  have hleaf : parse_bool_tree quote_text = .leaf quote_text := by
    rw [parse_bool_tree_eq, hstrip, hors, hands, if_neg (by simp), if_neg (by simp)]
    rfl
  refine ⟨.conjunction hprints, hleaf, ?_⟩
  rw [hleaf]
  intro heq
  cases heq

end Agreement

end JavaDebug.PrintedConditions
