import JavaDebug.Texts

/-!
Conditions. `parse_bool_tree` strips the parentheses around a text, splits it on
the loosest operator it finds outside quotes and groups, and parses the parts;
`split_comparison` cuts a leaf at its comparison. The splitting scan counts
double quotes, the comparison scan follows literals with their escapes. On
texts whose literals hold nothing that the first scan takes for a quote or a
bracket, a printed condition is read as it was printed.
-/
namespace JavaDebug.BooleanTrees

open Addressing Texts

section Scanners

def split_bool_loop (op : Char) (depth : ℤ) (in_str : Bool) (cur : List Char) :
    List Char → List (List Char)
  | [] => [trim cur]
  | c :: rest =>
    if c = '"' then split_bool_loop op depth (!in_str) (cur ++ [c]) rest
    else if (c = '(' ∨ c = '[') ∧ !in_str then
      split_bool_loop op (depth + 1) in_str (cur ++ [c]) rest
    else if (c = ')' ∨ c = ']') ∧ !in_str then
      split_bool_loop op (depth - 1) in_str (cur ++ [c]) rest
    else if !in_str ∧ depth = 0 ∧ c = op then
      match rest with
      | [] => [trim (cur ++ [c])]
      | d :: rest' =>
        if d = op then trim cur :: split_bool_loop op depth in_str [] rest'
        else split_bool_loop op depth in_str (cur ++ [c]) (d :: rest')
    else split_bool_loop op depth in_str (cur ++ [c]) rest

variable (s : List Char)

def split_bool (op : Char) : List (List Char) := split_bool_loop op 0 false [] s

def parens_enclose_loop (depth : ℤ) (in_str : Bool) : List Char → Bool
  | [] => false
  | c :: rest =>
    if c = '"' then parens_enclose_loop depth (!in_str) rest
    else if c = '(' ∧ !in_str then parens_enclose_loop (depth + 1) in_str rest
    else if c = ')' ∧ !in_str then
      if depth - 1 = 0 then rest.isEmpty else parens_enclose_loop (depth - 1) in_str rest
    else parens_enclose_loop depth in_str rest

def parens_enclose : Bool :=
  s.head? = some '(' && s.getLast? = some ')' && parens_enclose_loop 0 false s

/-- The text between the first and the last character. -/
def inner_text (t : List Char) : List Char := t.tail.dropLast

def strip_loop : ℕ → List Char → List Char
  | 0, t => t
  | fuel + 1, t => if parens_enclose t then strip_loop fuel (trim (inner_text t)) else t

def strip_enclosing_parens : List Char := strip_loop s.length (trim s)

inductive BoolTree (α : Type)
  | or (ts : List (BoolTree α))
  | and (ts : List (BoolTree α))
  | not (t : BoolTree α)
  | leaf (a : α)

/-- The text after a `!` that is not the start of `!=`. -/
def negated : Option (List Char) :=
  match s with
  | '!' :: rest => if (rest.dropWhile is_whitespace).head? = some '=' then none else some rest
  | _ => none

def parse_with : ℕ → List Char → BoolTree (List Char)
  | 0, s => .leaf s
  | fuel + 1, s =>
    let s := strip_enclosing_parens (trim s)
    let ors := split_bool s '|'
    if 1 < ors.length then .or (ors.map (parse_with fuel))
    else
      let ands := split_bool s '&'
      if 1 < ands.length then .and (ands.map (parse_with fuel))
      else
        match negated s with
        | some rest => .not (parse_with fuel rest)
        | none => .leaf s

def parse_bool_tree : BoolTree (List Char) := parse_with (s.length + 1) s

def OPS : List (List Char) := [['=', '='], ['!', '='], ['<', '='], ['>', '='], ['<'], ['>']]

/-- The comparison that starts at this place, with `before` in front of it. -/
def cut_here (before s : List Char) : Option (List Char × List Char × List Char) :=
  OPS.findSome? fun op =>
    if op.isPrefixOf s then
      let left := trim before
      let right := trim (s.drop op.length)
      if left ≠ [] ∧ right ≠ [] then some (left, op, right) else none
    else none

def split_comparison_loop (depth : ℤ) (q : Quoted) (before : List Char) :
    List Char → Option (List Char × List Char × List Char)
  | [] => none
  | c :: rest =>
    let cut := if !q.inside ∧ depth = 0 ∧ c ≠ '"' ∧ c ≠ '\'' ∧ c ≠ '(' ∧ c ≠ ')' then
      cut_here before (c :: rest) else none
    match cut with
    | some parts => some parts
    | none =>
      let depth := if c = '(' ∧ !q.inside then depth + 1
        else if c = ')' ∧ !q.inside then depth - 1 else depth
      split_comparison_loop depth (q.step c) (before ++ [c]) rest

def split_comparison (cond : List Char) : Option (List Char × List Char × List Char) :=
  split_comparison_loop 0 .default [] cond

end Scanners

section Walks

variable {m : Type → Type} [Monad m] {α β : Type}

mutual

/-- A tree's leaves prepared, from left to right. -/
def prepare_tree (leaf : α → m β) : BoolTree α → m (BoolTree β)
  | .or ts => do
    let out ← prepare_trees leaf ts
    return .or out
  | .and ts => do
    let out ← prepare_trees leaf ts
    return .and out
  | .not inner => do
    let out ← prepare_tree leaf inner
    return .not out
  | .leaf a => do
    let out ← leaf a
    return .leaf out

def prepare_trees (leaf : α → m β) : List (BoolTree α) → m (List (BoolTree β))
  | [] => return []
  | tree :: ts => do
    let out ← prepare_tree leaf tree
    let more ← prepare_trees leaf ts
    return out :: more

end

mutual

/-- A tree evaluated on its leaves; an `or` stops at the first true branch, an `and` at the first
false one. -/
def eval_tree (leaf : α → m Bool) : BoolTree α → m Bool
  | .or ts => eval_branches leaf true ts
  | .and ts => eval_branches leaf false ts
  | .not inner => do
    let b ← eval_tree leaf inner
    return !b
  | .leaf a => leaf a

def eval_branches (leaf : α → m Bool) (stop : Bool) : List (BoolTree α) → m Bool
  | [] => return !stop
  | tree :: ts => do
    let b ← eval_tree leaf tree
    if b = stop then return stop
    else eval_branches leaf stop ts

end

end Walks

section Fuel

theorem split_ne_nil (op : Char) (depth : ℤ) (in_str : Bool) (cur s : List Char) :
    split_bool_loop op depth in_str cur s ≠ [] := by
  fun_induction split_bool_loop op depth in_str cur s
  all_goals first
    | assumption
    | exact List.cons_ne_nil _ _

theorem split_fits (op : Char) (depth : ℤ) (in_str : Bool) (cur s : List Char) :
    ∀ p ∈ split_bool_loop op depth in_str cur s,
      p.length + 2 * ((split_bool_loop op depth in_str cur s).length - 1) ≤
        cur.length + s.length := by
  fun_induction split_bool_loop op depth in_str cur s with
  | case1 depth in_str cur =>
    intro p hp
    rw [List.mem_singleton.mp hp]
    have := trim_length_le cur
    simp only [List.length_singleton, List.length_nil]
    omega
  | case5 depth in_str cur c h1 h2 h3 h4 =>
    intro p hp
    rw [List.mem_singleton.mp hp]
    have := trim_length_le (cur ++ [c])
    simp only [List.length_append, List.length_singleton] at this ⊢
    omega
  | case6 depth in_str cur c h1 h2 h3 h4 rest ih =>
    intro p hp
    have hpos := List.length_pos_iff.mpr (split_ne_nil op depth in_str [] rest)
    have hcur := trim_length_le cur
    have hfit : 2 * ((split_bool_loop op depth in_str [] rest).length - 1) ≤ rest.length := by
      obtain ⟨q, hq⟩ := List.exists_mem_of_length_pos hpos
      have := ih q hq
      simp only [List.length_nil] at this
      omega
    simp only [List.length_cons] at hp ⊢
    rcases List.mem_cons.mp hp with rfl | hp
    · omega
    · have := ih p hp
      simp only [List.length_nil] at this
      omega
  | _ =>
    rename_i ih
    intro p hp
    have := ih p hp
    simp only [List.length_append, List.length_cons, List.length_nil] at this ⊢
    omega

variable {s : List Char}

theorem split_part_lt {op : Char} {p : List Char} (h : 1 < (split_bool s op).length)
    (hp : p ∈ split_bool s op) : p.length < s.length := by
  have := split_fits op 0 false [] s p hp
  unfold split_bool at h
  simp only [List.length_nil] at this
  omega

theorem inner_text_length (t : List Char) : (inner_text t).length ≤ t.length := by
  unfold inner_text
  rw [List.length_dropLast, List.length_tail]
  omega

theorem strip_loop_length (n : ℕ) (t : List Char) : (strip_loop n t).length ≤ t.length := by
  induction n generalizing t with
  | zero => exact le_rfl
  | succ n ih =>
    unfold strip_loop
    split
    · exact (ih _).trans ((trim_length_le _).trans (inner_text_length t))
    · exact le_rfl

theorem strip_length (s : List Char) : (strip_enclosing_parens s).length ≤ s.length :=
  (strip_loop_length _ _).trans (trim_length_le s)

theorem negated_lt {rest : List Char} (h : negated s = some rest) : rest.length < s.length := by
  unfold negated at h
  split at h
  · split at h
    · cases h
    · rw [← Option.some.inj h]
      exact Nat.lt_succ_self _
  · cases h

/-- Fuel beyond the length of the text changes nothing. -/
theorem parse_with_eq {n m : ℕ} (hn : s.length < n) (hm : s.length < m) :
    parse_with n s = parse_with m s := by
  induction n generalizing m s with
  | zero => omega
  | succ n ih =>
    cases m with
    | zero => omega
    | succ m =>
      have hstrip := (strip_length (trim s)).trans (trim_length_le s)
      have hparts : ∀ op, 1 < (split_bool (strip_enclosing_parens (trim s)) op).length →
          (split_bool (strip_enclosing_parens (trim s)) op).map (parse_with n) =
            (split_bool (strip_enclosing_parens (trim s)) op).map (parse_with m) := by
        intro op h
        refine List.map_congr_left fun p hp => ?_
        have := split_part_lt h hp
        exact ih (by omega) (by omega)
      unfold parse_with
      simp only
      split
      · rename_i h
        rw [hparts _ h]
      split
      · rename_i h
        rw [hparts _ h]
      split
      · rename_i rest h
        have := negated_lt h
        rw [ih (s := rest) (m := m) (by omega) (by omega)]
      · rfl

/-- The source's recursion, without fuel. -/
theorem parse_bool_tree_eq (s : List Char) : parse_bool_tree s =
    if 1 < (split_bool (strip_enclosing_parens (trim s)) '|').length then
      .or ((split_bool (strip_enclosing_parens (trim s)) '|').map parse_bool_tree)
    else if 1 < (split_bool (strip_enclosing_parens (trim s)) '&').length then
      .and ((split_bool (strip_enclosing_parens (trim s)) '&').map parse_bool_tree)
    else
      match negated (strip_enclosing_parens (trim s)) with
      | some rest => .not (parse_bool_tree rest)
      | none => .leaf (strip_enclosing_parens (trim s)) := by
  have hstrip := (strip_length (trim s)).trans (trim_length_le s)
  have hparts : ∀ op, 1 < (split_bool (strip_enclosing_parens (trim s)) op).length →
      (split_bool (strip_enclosing_parens (trim s)) op).map (parse_with s.length) =
        (split_bool (strip_enclosing_parens (trim s)) op).map parse_bool_tree := by
    intro op h
    refine List.map_congr_left fun p hp => ?_
    have := split_part_lt h hp
    exact parse_with_eq (by omega) (by omega)
  unfold parse_bool_tree
  rw [parse_with]
  simp only
  split
  · rename_i h
    exact congrArg BoolTree.or (hparts _ h)
  split
  · rename_i h
    exact congrArg BoolTree.and (hparts _ h)
  split
  · rename_i rest h
    have := negated_lt h
    exact congrArg BoolTree.not (parse_with_eq (by omega) (by omega))
  · rfl

end Fuel

section Splitting

/-- A string literal without a double quote, escaped or not. -/
def tame_str (t : List Char) : Prop := Escaped '"' t ∧ '"' ∉ t

/-- A char literal other than a double quote, a parenthesis or a bracket. -/
def tame_chr (t : List Char) : Prop := CharBody t ∧ ∀ c ∈ t, c = '\'' ∨ ¬ Mark c

variable {top inner : Allowed} {op : Char} {d : ℤ}

variable {c : Char}

theorem unmarked (h : c = '\'' ∨ ¬ Mark c) : c ≠ '"' ∧ c ≠ '(' ∧ c ≠ ')' ∧ c ≠ '[' ∧ c ≠ ']' := by
  refine ⟨?_, ?_, ?_, ?_, ?_⟩ <;>
  · rintro rfl
    rcases h with h | h
    · exact absurd h (by decide)
    · exact h (by decide)

theorem split_cons (op : Char) (depth : ℤ) (in_str : Bool) (cur : List Char) (c : Char)
    (rest : List Char) : split_bool_loop op depth in_str cur (c :: rest) =
      if c = '"' then split_bool_loop op depth (!in_str) (cur ++ [c]) rest
      else if (c = '(' ∨ c = '[') ∧ !in_str then
        split_bool_loop op (depth + 1) in_str (cur ++ [c]) rest
      else if (c = ')' ∨ c = ']') ∧ !in_str then
        split_bool_loop op (depth - 1) in_str (cur ++ [c]) rest
      else if !in_str ∧ depth = 0 ∧ c = op ∧ rest.head? = some op then
        trim cur :: split_bool_loop op depth in_str [] rest.tail
      else split_bool_loop op depth in_str (cur ++ [c]) rest := by
  rw [split_bool_loop.eq_def]
  simp only
  by_cases hop : (!in_str) = true ∧ depth = 0 ∧ c = op
  · cases rest with
    | nil => simp [hop, split_bool_loop]
    | cons d rest =>
      by_cases hd : d = op
      · simp [hop, hd]
      · simp [hop, hd]
  · have hno : ¬ ((!in_str) = true ∧ depth = 0 ∧ c = op ∧ rest.head? = some op) := fun h =>
      hop ⟨h.1, h.2.1, h.2.2.1⟩
    rw [if_neg hop, if_neg hno]

theorem split_skip (hc : c = '\'' ∨ ¬ Mark c) {rest : List Char}
    (h : d ≠ 0 ∨ c ≠ op ∨ rest.head? ≠ some op) (cur : List Char) :
    split_bool_loop op d false cur (c :: rest) = split_bool_loop op d false (cur ++ [c]) rest := by
  obtain ⟨hq, hp, hp', hb, hb'⟩ := unmarked hc
  rw [split_cons, if_neg hq, if_neg (by simp [hp, hb]), if_neg (by simp [hp', hb']), if_neg]
  rintro ⟨-, hzero, hop, hnext⟩
  rcases h with h | h | h
  · exact h hzero
  · exact h hop
  · exact h hnext

theorem split_in_string {body : List Char} (h : '"' ∉ body) (cur rest : List Char) :
    split_bool_loop op d true cur (body ++ rest) =
      split_bool_loop op d true (cur ++ body) rest := by
  induction body generalizing cur with
  | nil => rw [List.append_nil, List.nil_append]
  | cons c body ih =>
    have hc : c ≠ '"' := fun heq => h (heq ▸ List.mem_cons_self)
    rw [List.cons_append, split_cons, if_neg hc, if_neg (by simp), if_neg (by simp),
      if_neg (by simp), ih fun hm => h (List.mem_cons_of_mem c hm), List.append_assoc]
    rfl

theorem split_alphanum {digits : List Char} (h : ∀ c ∈ digits, c.isAlphanum = true)
    (hm : ∀ c ∈ digits, c = '\'' ∨ ¬ Mark c) (hop : op.isAlphanum = false) (cur rest : List Char) :
    split_bool_loop op d false cur (digits ++ rest) =
      split_bool_loop op d false (cur ++ digits) rest := by
  induction digits generalizing cur with
  | nil => rw [List.append_nil, List.nil_append]
  | cons c digits ih =>
    have hne : c ≠ op := by
      rintro rfl
      rw [h c List.mem_cons_self] at hop
      cases hop
    rw [List.cons_append, split_skip (hm c List.mem_cons_self) (Or.inr (Or.inl hne)),
      ih (fun e he => h e (List.mem_cons_of_mem c he))
        (fun e he => hm e (List.mem_cons_of_mem c he)), List.append_assoc]
    rfl

theorem split_char_lit {body : List Char} (h : tame_chr body) (hop : op = '|' ∨ op = '&')
    (cur rest : List Char) :
    split_bool_loop op d false cur ('\'' :: (body ++ '\'' :: rest)) =
      split_bool_loop op d false (cur ++ '\'' :: (body ++ ['\''])) rest := by
  have hquote : '\'' ≠ op := by rcases hop with rfl | rfl <;> decide
  have hback : '\\' ≠ op := by rcases hop with rfl | rfl <;> decide
  have halpha : op.isAlphanum = false := by rcases hop with rfl | rfl <;> decide
  obtain ⟨hbody, hm⟩ := h
  rw [split_skip (Or.inl rfl) (Or.inr (Or.inl hquote))]
  have hclose : ∀ cur, split_bool_loop op d false cur ('\'' :: rest) =
      split_bool_loop op d false (cur ++ ['\'']) rest := fun cur =>
    split_skip (Or.inl rfl) (Or.inr (Or.inl hquote)) cur
  cases hbody with
  | @plain c hq hb =>
    have hnext : ('\'' :: rest).head? ≠ some op := fun heq => hquote (Option.some.inj heq)
    rw [List.singleton_append,
      split_skip (hm c List.mem_cons_self) (Or.inr (Or.inr hnext)), hclose]
    simp only [List.append_assoc, List.cons_append, List.nil_append]
  | @escape c digits hdigits =>
    have hnext : (digits ++ '\'' :: rest).head? ≠ some op := by
      cases digits with
      | nil => exact fun heq => hquote (Option.some.inj heq)
      | cons e digits =>
        intro heq
        rw [List.cons_append, List.head?_cons, Option.some.injEq] at heq
        rw [← heq, hdigits e List.mem_cons_self] at halpha
        cases halpha
    rw [List.cons_append, List.cons_append,
      split_skip (hm _ List.mem_cons_self) (Or.inr (Or.inl hback)),
      split_skip (hm c (List.mem_cons_of_mem _ List.mem_cons_self)) (Or.inr (Or.inr hnext)),
      split_alphanum hdigits
        (fun e he => hm e (List.mem_cons_of_mem _ (List.mem_cons_of_mem _ he))) halpha, hclose]
    simp only [List.append_assoc, List.cons_append, List.nil_append]

theorem split_open (hc : c = '(' ∨ c = '[') (cur s : List Char) :
    split_bool_loop op d false cur (c :: s) = split_bool_loop op (d + 1) false (cur ++ [c]) s := by
  rcases hc with rfl | rfl <;> rw [split_cons, if_neg (by decide), if_pos (by simp)]

theorem split_close (hc : c = ')' ∨ c = ']') (cur s : List Char) :
    split_bool_loop op (d + 1) false cur (c :: s) = split_bool_loop op d false (cur ++ [c]) s := by
  rcases hc with rfl | rfl <;> rw [split_cons, if_neg (by decide), if_neg (by decide),
    if_pos (by simp), Int.add_sub_cancel]

/-- The splitting scan passes over a balanced text: inside a group anything goes, outside one the
operator must not stand. -/
theorem split_scan {t : List Char} (h : Balanced tame_str tame_chr top inner t)
    (hop : op = '|' ∨ op = '&') (hd : 0 ≤ d) (htop : d = 0 → ∀ c u, top c u → c ≠ op)
    (cur rest : List Char) :
    split_bool_loop op d false cur (t ++ rest) = split_bool_loop op d false (cur ++ t) rest := by
  induction h generalizing d cur rest with
  | nil => rw [List.append_nil, List.nil_append]
  | @char top inner c t hc ht _ ih =>
    have hne : d ≠ 0 ∨ c ≠ op ∨ (t ++ rest).head? ≠ some op := by
      by_cases h0 : d = 0
      · exact Or.inr (Or.inl (htop h0 c t ht))
      · exact Or.inl h0
    rw [List.cons_append, split_skip (Or.inr hc) hne, ih hd htop,
      List.append_assoc]
    rfl
  | @string top inner body t hb _ ih =>
    have hquote : ∀ b cur s, split_bool_loop op d b cur ('"' :: s) =
        split_bool_loop op d (!b) (cur ++ ['"']) s := fun b cur s => by
      rw [split_cons, if_pos rfl]
    rw [List.cons_append, hquote, List.append_assoc, Bool.not_false, split_in_string hb.2,
      List.cons_append, hquote, Bool.not_true, ih hd htop]
    simp only [List.append_assoc, List.cons_append, List.nil_append]
  | @char_lit top inner body t hb _ ih =>
    rw [List.cons_append, List.append_assoc, List.cons_append, split_char_lit hb hop,
      ih hd htop]
    simp only [List.append_assoc, List.cons_append, List.nil_append]
  | paren _ _ iha ih | bracket _ _ iha ih =>
    rw [List.cons_append, split_open (by decide), List.append_assoc,
      iha (by omega) (fun h0 => by omega), List.cons_append, split_close (by decide),
      ih hd htop]
    simp only [List.append_assoc, List.cons_append, List.nil_append]

end Splitting

section Stripping

variable {top inner : Allowed}

theorem parens_skip {c : Char} (hq : c ≠ '"') (hp : c ≠ '(') (hp' : c ≠ ')') (d : ℤ) (b : Bool)
    (rest : List Char) : parens_enclose_loop d b (c :: rest) = parens_enclose_loop d b rest := by
  rw [parens_enclose_loop, if_neg hq, if_neg (by simp [hp]), if_neg (by simp [hp'])]

theorem parens_in_string {body : List Char} (h : '"' ∉ body) (d : ℤ) (rest : List Char) :
    parens_enclose_loop d true (body ++ rest) = parens_enclose_loop d true rest := by
  induction body with
  | nil => rfl
  | cons c body ih =>
    have hc : c ≠ '"' := fun heq => h (heq ▸ List.mem_cons_self)
    rw [List.cons_append, parens_enclose_loop, if_neg hc, if_neg (by simp), if_neg (by simp)]
    exact ih fun hm => h (List.mem_cons_of_mem c hm)

theorem parens_plain {body : List Char} (h : ∀ c ∈ body, c = '\'' ∨ ¬ Mark c) (d : ℤ)
    (rest : List Char) : parens_enclose_loop d false (body ++ rest) =
      parens_enclose_loop d false rest := by
  induction body with
  | nil => rfl
  | cons c body ih =>
    obtain ⟨hq, hp, hp', -⟩ := unmarked (h c List.mem_cons_self)
    rw [List.cons_append, parens_skip hq hp hp']
    exact ih fun e he => h e (List.mem_cons_of_mem c he)

variable {t a : List Char}

/-- The enclosing-parentheses scan is as deep after a balanced text as before it. -/
theorem parens_scan (h : Balanced tame_str tame_chr top inner t) {d : ℤ} (hd : 0 < d)
    (rest : List Char) :
    parens_enclose_loop d false (t ++ rest) = parens_enclose_loop d false rest := by
  induction h generalizing d rest with
  | nil => rfl
  | char hc _ _ ih =>
    obtain ⟨hq, hp, hp', -⟩ := unmarked (Or.inr hc)
    rw [List.cons_append, parens_skip hq hp hp', ih hd]
  | string hb _ ih =>
    rw [List.cons_append, List.append_assoc, parens_enclose_loop, if_pos rfl, Bool.not_false,
      parens_in_string hb.2, List.cons_append, parens_enclose_loop, if_pos rfl, Bool.not_true,
      ih hd]
  | char_lit hb _ ih =>
    rw [List.cons_append, List.append_assoc, List.cons_append,
      parens_skip (by decide) (by decide) (by decide), parens_plain hb.2,
      parens_skip (by decide) (by decide) (by decide), ih hd]
  | paren _ _ iha ih =>
    have hback : d + 1 - 1 ≠ 0 := by omega
    rw [List.cons_append, List.append_assoc, parens_enclose_loop, if_neg (by decide),
      if_pos (by simp), iha (by omega), List.cons_append, parens_enclose_loop,
      if_neg (by decide), if_neg (by decide), if_pos (by simp), if_neg hback,
      Int.add_sub_cancel, ih hd]
  | bracket _ _ iha ih =>
    rw [List.cons_append, List.append_assoc, parens_skip (by decide) (by decide) (by decide),
      iha hd, List.cons_append, parens_skip (by decide) (by decide) (by decide), ih hd]

/-- A text that is one pair of parentheses. -/
def group (a : List Char) : List Char := '(' :: (a ++ [')'])

theorem group_scan (h : Balanced tame_str tame_chr anything anything a) (t : List Char) :
    parens_enclose_loop 0 false ('(' :: (a ++ ')' :: t)) = t.isEmpty := by
  rw [parens_enclose_loop, if_neg (by decide), if_pos (by simp), parens_scan h (by decide),
    parens_enclose_loop, if_neg (by decide), if_neg (by decide), if_pos (by simp),
    if_pos (by decide)]

theorem encloses_group (h : Balanced tame_str tame_chr anything anything a) :
    parens_enclose (group a) = true := by
  have hlast : (group a).getLast? = some ')' := by
    unfold group
    rw [← List.cons_append, List.getLast?_concat]
  unfold parens_enclose
  rw [hlast]
  exact group_scan h []

variable {s : List Char}

/-- Nothing else is taken for one. -/
theorem group_of_encloses (h : Balanced tame_str tame_chr top inner s)
    (hs : parens_enclose s = true) :
    ∃ a, s = group a ∧ Balanced tame_str tame_chr anything anything a := by
  unfold parens_enclose at hs
  simp only [Bool.and_eq_true, decide_eq_true_eq] at hs
  obtain ⟨⟨hfirst, -⟩, hloop⟩ := hs
  cases h with
  | nil => cases hfirst
  | char hc _ _ =>
    rw [List.head?_cons, Option.some.injEq] at hfirst
    subst hfirst
    exact absurd (by decide) hc
  | string _ _ => cases hfirst
  | char_lit _ _ => cases hfirst
  | bracket _ _ => cases hfirst
  | @paren _ _ a t ha _ =>
    rw [group_scan ha, List.isEmpty_iff] at hloop
    subst hloop
    exact ⟨a, rfl, ha⟩

theorem inner_group (a : List Char) : inner_text (group a) = a := List.dropLast_concat

theorem inner_text_lt (h : parens_enclose t = true) : (trim (inner_text t)).length < t.length := by
  have hne : t ≠ [] := by
    rintro rfl
    cases h
  have hpos := List.length_pos_iff.mpr hne
  have hle := trim_length_le (inner_text t)
  unfold inner_text at hle ⊢
  rw [List.length_dropLast, List.length_tail] at hle
  omega

theorem strip_loop_eq {n m : ℕ} (hn : t.length ≤ n) (hm : t.length ≤ m) :
    strip_loop n t = strip_loop m t := by
  have hzero : ∀ k {t : List Char}, t.length ≤ 0 → strip_loop k t = t := by
    intro k t ht
    obtain rfl := List.length_eq_zero_iff.mp (Nat.le_zero.mp ht)
    cases k <;> rfl
  induction n generalizing m t with
  | zero => rw [hzero 0 hn, hzero m hn]
  | succ n ih =>
    cases m with
    | zero => rw [hzero _ hm, hzero _ hm]
    | succ m =>
      unfold strip_loop
      split
      · rename_i h
        have := inner_text_lt h
        exact ih (by omega) (by omega)
      · rfl

theorem strip_trim (s : List Char) :
    strip_enclosing_parens (trim s) = strip_enclosing_parens s := by
  unfold strip_enclosing_parens
  rw [trim_trim]
  exact strip_loop_eq le_rfl (trim_length_le s)

theorem trim_group (a : List Char) : trim (group a) = group a := by
  refine trim_tight ⟨fun c hc => ?_, fun c hc => ?_⟩
  · rw [group, List.head?_cons, Option.some.injEq] at hc
    subst hc
    decide
  · rw [group, ← List.cons_append, List.getLast?_concat, Option.some.injEq] at hc
    subst hc
    decide

theorem strip_group (h : Balanced tame_str tame_chr anything anything a) :
    strip_enclosing_parens (group a) = strip_enclosing_parens a := by
  have hlen : (group a).length = a.length + 1 + 1 := by
    unfold group
    rw [List.length_cons, List.length_append, List.length_singleton]
  unfold strip_enclosing_parens
  rw [trim_group, hlen, strip_loop, if_pos (encloses_group h), inner_group]
  have := trim_length_le a
  exact strip_loop_eq (by omega) this

theorem strip_open (h : parens_enclose (trim s) = false) : strip_enclosing_parens s = trim s := by
  unfold strip_enclosing_parens
  cases s.length with
  | zero => rfl
  | succ n =>
    unfold strip_loop
    rw [h]
    rfl

/-- The text whose operators are looked for. -/
def core (s : List Char) : List Char := strip_enclosing_parens (trim s)

theorem core_eq (s : List Char) : core s = strip_enclosing_parens s := strip_trim s

theorem core_space {ws ws' : List Char} (hws : Space ws) (hws' : Space ws') (s : List Char) :
    core (ws ++ (s ++ ws')) = core s := by
  unfold core
  rw [trim_space hws hws']

theorem core_group (h : Balanced tame_str tame_chr anything anything a) :
    core (group a) = core a := by
  rw [core_eq, core_eq, strip_group h]

theorem parse_of_core (h : core s = core t) : parse_bool_tree s = parse_bool_tree t := by
  unfold core at h
  rw [parse_bool_tree_eq s, parse_bool_tree_eq t, h]

end Stripping

end JavaDebug.BooleanTrees
