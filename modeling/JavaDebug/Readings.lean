import JavaDebug.BooleanTrees

/-!
How a condition is to be read: `||` loosest, then `&&`, then `!`, outside
literals, parentheses and brackets, where a literal ends at its first quote that
is not escaped. The parser counts double quotes instead. Where both say the same
of every bracket and operator of a text, it is parsed as it is to be read.
-/
namespace JavaDebug.Readings

open Addressing Texts BooleanTrees

section Reading

/-- The text split at a doubled operator outside literals and groups. -/
def read_split (op : Char) (depth : ℤ) (q : Quoted) (cur : List Char) :
    List Char → List (List Char)
  | [] => [trim cur]
  | c :: rest =>
    if (c = '(' ∨ c = '[') ∧ !q.inside then read_split op (depth + 1) q (cur ++ [c]) rest
    else if (c = ')' ∨ c = ']') ∧ !q.inside then read_split op (depth - 1) q (cur ++ [c]) rest
    else if !q.inside ∧ depth = 0 ∧ c = op then
      match rest with
      | [] => [trim (cur ++ [c])]
      | d :: rest' =>
        if d = op then trim cur :: read_split op depth q [] rest'
        else read_split op depth q (cur ++ [c]) (d :: rest')
    else read_split op depth (q.step c) (cur ++ [c]) rest

def read_enclose (depth : ℤ) (q : Quoted) : List Char → Bool
  | [] => false
  | c :: rest =>
    if c = '(' ∧ !q.inside then read_enclose (depth + 1) q rest
    else if c = ')' ∧ !q.inside then
      if depth - 1 = 0 then rest.isEmpty else read_enclose (depth - 1) q rest
    else read_enclose depth (q.step c) rest

def encloses (s : List Char) : Bool :=
  s.head? = some '(' && s.getLast? = some ')' && read_enclose 0 .default s

def unwrap : ℕ → List Char → List Char
  | 0, t => t
  | fuel + 1, t => if encloses t then unwrap fuel (trim (inner_text t)) else t

def read_with : ℕ → List Char → BoolTree (List Char)
  | 0, s => .leaf s
  | fuel + 1, s =>
    let s := unwrap (trim s).length (trim (trim s))
    let ors := read_split '|' 0 .default [] s
    if 1 < ors.length then .or (ors.map (read_with fuel))
    else
      let ands := read_split '&' 0 .default [] s
      if 1 < ands.length then .and (ands.map (read_with fuel))
      else
        match negated s with
        | some rest => .not (read_with fuel rest)
        | none => .leaf s

/-- The tree that a condition is to be read as. -/
def reading (s : List Char) : BoolTree (List Char) := read_with (s.length + 1) s

end Reading

section Agreeing

/-- The characters that a scan gives a meaning outside literals. -/
def Syntax (c : Char) : Prop := c ∈ ['(', ')', '[', ']', '|', '&']

instance : DecidablePred Syntax := fun _ => inferInstanceAs (Decidable (_ ∈ _))

def toggle (b : Bool) (c : Char) : Bool := if c = '"' then !b else b

/-- At every bracket and operator, the number of double quotes before it is odd exactly when it
stands inside a literal. -/
def Agree (b : Bool) (q : Quoted) : List Char → Prop
  | [] => True
  | c :: rest => (Syntax c → b = q.inside) ∧ Agree (toggle b c) (q.step c) rest

def Agree.decidable (b : Bool) (q : Quoted) : (s : List Char) → Decidable (Agree b q s)
  | [] => isTrue trivial
  | _ :: rest => @instDecidableAnd _ _ _ (Agree.decidable _ _ rest)

instance (b : Bool) (q : Quoted) (s : List Char) : Decidable (Agree b q s) :=
  Agree.decidable b q s

variable (s : List Char)

/-- A text whose quotes are counted as its literals are. -/
def PlainQuotes : Prop := Agree false .default s

instance : DecidablePred PlainQuotes := fun s => inferInstanceAs (Decidable (Agree false _ s))

theorem Agree.append (b : Bool) (q : Quoted) (s t : List Char) :
    Agree b q (s ++ t) ↔ Agree b q s ∧ Agree (s.foldl toggle b) (s.foldl Quoted.step q) t := by
  induction s generalizing b q with
  | nil => simp [Agree]
  | cons c s ih => rw [List.cons_append, Agree, Agree, ih, and_assoc]; rfl

theorem PlainQuotes.left (s t : List Char) (h : PlainQuotes (s ++ t)) : PlainQuotes s :=
  ((Agree.append false .default s t).mp h).1

/-- What follows a text that leaves both scans where they started. -/
theorem PlainQuotes.right (s t : List Char) (h : PlainQuotes (s ++ t))
    (hb : s.foldl toggle false = false) (hq : s.foldl Quoted.step .default = .default) :
    PlainQuotes t := by
  have htail := ((Agree.append false .default s t).mp h).2
  rwa [hb, hq] at htail

theorem step_default (c : Char) (hs : c ≠ '"') (hc : c ≠ '\'') :
    Quoted.default.step c = .default := by
  simp [Quoted.step, Quoted.default, Quoted.inside, hs, hc]

theorem toggle_other (b : Bool) (c : Char) (hs : c ≠ '"') : toggle b c = b := if_neg hs

theorem whitespace_unquoted (c : Char) (h : is_whitespace c = true) : c ≠ '"' ∧ c ≠ '\'' := by
  refine ⟨?_, ?_⟩
  · rintro rfl
    exact absurd h (by decide)
  · rintro rfl
    exact absurd h (by decide)

theorem fold_space (ws : List Char) (h : Space ws) :
    ws.foldl toggle false = false ∧ ws.foldl Quoted.step .default = .default := by
  induction ws with
  | nil => exact ⟨rfl, rfl⟩
  | cons c ws ih =>
    obtain ⟨hs, hc⟩ := whitespace_unquoted c (h c List.mem_cons_self)
    rw [List.foldl_cons, List.foldl_cons, toggle_other false c hs, step_default c hs hc]
    exact ih fun d hd => h d (List.mem_cons_of_mem c hd)

theorem PlainQuotes.trim (h : PlainQuotes s) : PlainQuotes (Addressing.trim s) := by
  obtain ⟨ws, ws', hws, -, hsplit⟩ := trim_split s
  rw [hsplit] at h
  obtain ⟨hb, hq⟩ := fold_space ws hws
  exact PlainQuotes.left _ ws' (PlainQuotes.right ws _ h hb hq)

/-- An escape is only seen inside a literal. -/
theorem escaped_inside :
    (s.foldl Quoted.step .default).escaped = true →
      (s.foldl Quoted.step .default).inside = true := by
  have hstep : ∀ (q : Quoted) (c : Char), (q.escaped = true → q.inside = true) →
      (q.step c).escaped = true → (q.step c).inside = true := by
    intro q c hq
    unfold Quoted.step
    split_ifs with h1 h2 h3 h4
    · simp
    · intro _
      exact h2.2
    · intro h
      exact absurd h h1
    · intro h
      exact absurd h h1
    · intro h
      exact absurd h h1
  have hfold : ∀ (t : List Char) (q : Quoted), (q.escaped = true → q.inside = true) →
      (t.foldl Quoted.step q).escaped = true → (t.foldl Quoted.step q).inside = true := by
    intro t
    induction t with
    | nil => exact fun q hq => hq
    | cons c t ih => exact fun q hq => ih (q.step c) (hstep q c hq)
  exact hfold s .default (by decide)

theorem fold_default (h : (s.foldl Quoted.step .default).inside = false) :
    s.foldl Quoted.step .default = .default := by
  have hescaped : (s.foldl Quoted.step .default).escaped = false := by
    by_contra htrue
    rw [escaped_inside s (by simpa using htrue)] at h
    simp at h
  generalize s.foldl Quoted.step .default = q at h hescaped
  rcases q with ⟨in_str, in_char, escaped⟩
  simp only [Quoted.inside, Bool.or_eq_false_iff] at h
  simp only at hescaped
  rw [h.1, h.2, hescaped]
  rfl

end Agreeing

section Same

theorem operator_unquoted (op : Char) (hop : op = '|' ∨ op = '&') :
    op ≠ '"' ∧ op ≠ '\'' ∧ Syntax op := by
  rcases hop with rfl | rfl <;> decide

theorem read_cons (op : Char) (hop : op = '|' ∨ op = '&') (depth : ℤ) (q : Quoted)
    (hq : q.inside = false → q = .default) (cur : List Char) (c : Char) (rest : List Char) :
    read_split op depth q cur (c :: rest) =
      if (c = '(' ∨ c = '[') ∧ !q.inside then read_split op (depth + 1) q (cur ++ [c]) rest
      else if (c = ')' ∨ c = ']') ∧ !q.inside then read_split op (depth - 1) q (cur ++ [c]) rest
      else if !q.inside ∧ depth = 0 ∧ c = op ∧ rest.head? = some op then
        trim cur :: read_split op depth q [] rest.tail
      else read_split op depth (q.step c) (cur ++ [c]) rest := by
  rw [read_split.eq_def]
  dsimp only
  by_cases hat : (!q.inside) = true ∧ depth = 0 ∧ c = op
  · obtain ⟨hin, hdepth, rfl⟩ := hat
    obtain rfl := hq (by simpa using hin)
    obtain ⟨hs, hc, -⟩ := operator_unquoted c hop
    obtain _ | ⟨d, rest⟩ := rest
    · simp [hin, hdepth, read_split]
    · by_cases hd : d = c
      · simp [hin, hdepth, hd]
      · simp [hin, hdepth, hd, step_default c hs hc]
  · have hno : ¬ ((!q.inside) = true ∧ depth = 0 ∧ c = op ∧ rest.head? = some op) :=
      fun h => hat ⟨h.1, h.2.1, h.2.2.1⟩
    rw [if_neg hat, if_neg hno]

/-- The parser splits a text at the operators that it is to be read with. -/
theorem split_reads (op : Char) (hop : op = '|' ∨ op = '&') (depth : ℤ) (cur s : List Char)
    (h : PlainQuotes (cur ++ s)) :
    split_bool_loop op depth (cur.foldl toggle false) cur s =
        read_split op depth (cur.foldl Quoted.step .default) cur s ∧
      ∀ p ∈ read_split op depth (cur.foldl Quoted.step .default) cur s, PlainQuotes p := by
  induction hn : s.length using Nat.strong_induction_on generalizing depth cur s with
  | h n ih =>
    have hcur := PlainQuotes.trim cur (PlainQuotes.left cur s h)
    obtain _ | ⟨c, rest⟩ := s
    · refine ⟨by rw [split_bool_loop, read_split], ?_⟩
      intro p hp
      rw [read_split, List.mem_singleton] at hp
      rwa [hp]
    · have hnext : PlainQuotes ((cur ++ [c]) ++ rest) := by
        rwa [List.append_assoc]
      have hagree : Syntax c → cur.foldl toggle false = (cur.foldl Quoted.step .default).inside :=
        ((Agree.append false .default cur (c :: rest)).mp h).2.1
      have hgo : ∀ depth', split_bool_loop op depth' (toggle (cur.foldl toggle false) c)
          (cur ++ [c]) rest = read_split op depth' ((cur.foldl Quoted.step .default).step c)
            (cur ++ [c]) rest ∧
          ∀ p ∈ read_split op depth' ((cur.foldl Quoted.step .default).step c) (cur ++ [c]) rest,
            PlainQuotes p := by
        intro depth'
        have hrest := ih rest.length (by simp [← hn]) depth' (cur ++ [c]) rest hnext rfl
        simpa only [List.foldl_append, List.foldl_cons, List.foldl_nil] using hrest
      rw [split_cons, read_cons op hop depth _ (fold_default cur)]
      by_cases hquote : c = '"'
      · obtain rfl := hquote
        have hop' : ¬ '"' = op := by
          rcases hop with rfl | rfl <;> decide
        rw [if_pos rfl, if_neg (by simp), if_neg (by simp), if_neg (by simp [hop'])]
        exact hgo depth
      · have hstay := toggle_other (cur.foldl toggle false) c hquote
        rw [hstay] at hgo
        rw [if_neg hquote]
        by_cases hsyn : Syntax c
        · have hsame := hagree hsyn
          by_cases hin : (cur.foldl Quoted.step .default).inside = true
          · rw [hsame, hin] at hgo ⊢
            rw [if_neg (by simp), if_neg (by simp), if_neg (by simp), if_neg (by simp),
              if_neg (by simp), if_neg (by simp)]
            exact hgo depth
          · have hq := fold_default cur (by simpa using hin)
            have hb : cur.foldl toggle false = false := by
              rw [hsame]
              simpa using hin
            have hstep : Quoted.default.step c = .default := by
              apply step_default c hquote
              rintro rfl
              exact absurd hsyn (by decide)
            rw [hq, hstep] at hgo
            rw [hb] at hgo
            rw [hb, hq, hstep, show Quoted.default.inside = false from rfl]
            by_cases hopen : c = '(' ∨ c = '['
            · rw [if_pos ⟨hopen, rfl⟩, if_pos ⟨hopen, rfl⟩]
              exact hgo (depth + 1)
            · have hnot : ¬ ((c = '(' ∨ c = '[') ∧ (!false) = true) := fun hh => hopen hh.1
              rw [if_neg hnot, if_neg hnot]
              by_cases hclose : c = ')' ∨ c = ']'
              · rw [if_pos ⟨hclose, rfl⟩, if_pos ⟨hclose, rfl⟩]
                exact hgo (depth - 1)
              · have hnot : ¬ ((c = ')' ∨ c = ']') ∧ (!false) = true) := fun hh => hclose hh.1
                rw [if_neg hnot, if_neg hnot]
                by_cases hat : depth = 0 ∧ c = op ∧ rest.head? = some op
                · obtain ⟨hdepth, rfl, hhead⟩ := hat
                  obtain ⟨rest', rfl⟩ : ∃ rest', rest = c :: rest' := by
                    obtain _ | ⟨d, rest'⟩ := rest
                    · simp at hhead
                    · exact ⟨rest', by rw [Option.some.inj hhead]⟩
                  have hrest := PlainQuotes.right (cur ++ [c, c]) rest' (by simpa using h)
                    (by simp [hb, toggle_other false c hquote]) (by simp [hq, hstep])
                  have htail := ih rest'.length (by simp only [← hn, List.length_cons]; omega)
                    depth [] rest' hrest rfl
                  rw [if_pos ⟨rfl, hdepth, rfl, rfl⟩, if_pos ⟨rfl, hdepth, rfl, rfl⟩]
                  refine ⟨congrArg (List.cons (trim cur)) htail.1, ?_⟩
                  intro p hp
                  rcases List.mem_cons.mp hp with rfl | hmem
                  · exact hcur
                  · exact htail.2 p hmem
                · rw [if_neg fun hh => hat hh.2, if_neg fun hh => hat hh.2]
                  exact hgo depth
        · have hbrackets : c ≠ '(' ∧ c ≠ '[' ∧ c ≠ ')' ∧ c ≠ ']' ∧ c ≠ op := by
            refine ⟨?_, ?_, ?_, ?_, ?_⟩
            all_goals
              rintro rfl
              apply hsyn
            · decide
            · decide
            · decide
            · decide
            · exact (operator_unquoted c hop).2.2
          obtain ⟨h1, h2, h3, h4, h5⟩ := hbrackets
          rw [if_neg (by simp [h1, h2]), if_neg (by simp [h3, h4]), if_neg (by simp [h5]),
            if_neg (by simp [h1, h2]), if_neg (by simp [h3, h4]), if_neg (by simp [h5])]
          exact hgo depth

theorem enclose_reads (depth : ℤ) (before s : List Char) (h : PlainQuotes (before ++ s)) :
    parens_enclose_loop depth (before.foldl toggle false) s =
      read_enclose depth (before.foldl Quoted.step .default) s := by
  induction s generalizing depth before with
  | nil => rfl
  | cons c rest ih =>
    have hnext : PlainQuotes ((before ++ [c]) ++ rest) := by
      rwa [List.append_assoc]
    have hagree : Syntax c →
        before.foldl toggle false = (before.foldl Quoted.step .default).inside :=
      ((Agree.append false .default before (c :: rest)).mp h).2.1
    have hgo : ∀ depth', parens_enclose_loop depth' (toggle (before.foldl toggle false) c) rest =
        read_enclose depth' ((before.foldl Quoted.step .default).step c) rest := by
      intro depth'
      have hrest := ih depth' (before ++ [c]) hnext
      simpa only [List.foldl_append, List.foldl_cons, List.foldl_nil] using hrest
    rw [parens_enclose_loop, read_enclose]
    by_cases hquote : c = '"'
    · obtain rfl := hquote
      rw [if_pos rfl, if_neg (by simp), if_neg (by simp)]
      exact hgo depth
    · rw [toggle_other (before.foldl toggle false) c hquote] at hgo
      rw [if_neg hquote]
      by_cases hsyn : c = '(' ∨ c = ')'
      · have hsame := hagree (by rcases hsyn with rfl | rfl <;> decide)
        by_cases hin : (before.foldl Quoted.step .default).inside = true
        · rw [hsame, hin] at hgo ⊢
          rw [if_neg (by simp), if_neg (by simp), if_neg (by simp), if_neg (by simp)]
          exact hgo depth
        · have hq := fold_default before (by simpa using hin)
          have hb : before.foldl toggle false = false := by
            rw [hsame]
            simpa using hin
          have hstep : Quoted.default.step c = .default := by
            apply step_default c hquote
            rcases hsyn with rfl | rfl <;> decide
          rw [hq, hstep, hb] at hgo
          rw [hb, hq, show Quoted.default.inside = false from rfl]
          rcases hsyn with rfl | rfl
          · exact hgo (depth + 1)
          · have hnot : ¬ (')' = '(' ∧ (!false) = true) := by decide
            have hclose : ')' = ')' ∧ (!false) = true := ⟨rfl, rfl⟩
            rw [if_neg hnot, if_neg hnot, if_pos hclose, if_pos hclose, hgo (depth - 1)]
      · rw [not_or] at hsyn
        rw [if_neg (by simp [hsyn.1]), if_neg (by simp [hsyn.2]), if_neg (by simp [hsyn.1]),
          if_neg (by simp [hsyn.2])]
        exact hgo depth

theorem PlainQuotes.inner_text (t : List Char) (h : PlainQuotes t) (hopen : t.head? = some '(') :
    PlainQuotes (BooleanTrees.inner_text t) := by
  obtain _ | ⟨c, rest⟩ := t
  · simp at hopen
  · obtain rfl : c = '(' := Option.some.inj hopen
    have hrest := PlainQuotes.right ['('] rest h rfl rfl
    rcases List.eq_nil_or_concat rest with rfl | ⟨inside, last, rfl⟩
    · exact hrest
    · rw [List.concat_eq_append] at hrest
      simpa [BooleanTrees.inner_text] using PlainQuotes.left inside [last] hrest

theorem encloses_eq (t : List Char) (h : PlainQuotes t) : parens_enclose t = encloses t := by
  rw [parens_enclose, encloses]
  exact congrArg _ (enclose_reads 0 [] t h)

theorem strip_reads (n : ℕ) (t : List Char) (h : PlainQuotes t) :
    strip_loop n t = unwrap n t ∧ PlainQuotes (unwrap n t) := by
  induction n generalizing t with
  | zero => exact ⟨rfl, h⟩
  | succ n ih =>
    rw [strip_loop, unwrap, encloses_eq t h]
    by_cases henc : encloses t = true
    · have hopen : t.head? = some '(' := by
        simp only [encloses, Bool.and_eq_true, decide_eq_true_eq] at henc
        exact henc.1.1
      rw [if_pos henc, if_pos henc]
      exact ih _ (PlainQuotes.trim _ (PlainQuotes.inner_text t h hopen))
    · rw [if_neg henc, if_neg henc]
      exact ⟨rfl, h⟩

theorem PlainQuotes.negated (s rest : List Char) (h : PlainQuotes s)
    (hneg : BooleanTrees.negated s = some rest) : PlainQuotes rest := by
  obtain _ | ⟨c, tail⟩ := s
  · simp [BooleanTrees.negated] at hneg
  · unfold BooleanTrees.negated at hneg
    split at hneg
    · rename_i rest' heq
      obtain ⟨rfl, rfl⟩ := List.cons.inj heq
      split_ifs at hneg
      obtain rfl := Option.some.inj hneg
      exact PlainQuotes.right ['!'] tail h rfl rfl
    · simp at hneg

theorem parse_with_reads (n : ℕ) (s : List Char) (h : PlainQuotes s) :
    parse_with n s = read_with n s := by
  induction n generalizing s with
  | zero => rfl
  | succ n ih =>
    have htrim := PlainQuotes.trim _ (PlainQuotes.trim s h)
    obtain ⟨hstrip, hplain⟩ := strip_reads (trim s).length _ htrim
    have hparts : ∀ op, op = '|' ∨ op = '&' →
        split_bool (unwrap (trim s).length (trim (trim s))) op =
            read_split op 0 .default [] (unwrap (trim s).length (trim (trim s))) ∧
          (read_split op 0 .default [] (unwrap (trim s).length (trim (trim s)))).map
              (parse_with n) =
            (read_split op 0 .default [] (unwrap (trim s).length (trim (trim s)))).map
              (read_with n) := by
      intro op hop
      obtain ⟨hsplit, hplain'⟩ := split_reads op hop 0 [] _ hplain
      exact ⟨hsplit, List.map_congr_left fun p hp => ih p (hplain' p hp)⟩
    rw [parse_with, read_with]
    dsimp only
    rw [strip_enclosing_parens, hstrip, (hparts '|' (.inl rfl)).1, (hparts '|' (.inl rfl)).2,
      (hparts '&' (.inr rfl)).1, (hparts '&' (.inr rfl)).2]
    rcases hneg : negated (unwrap (trim s).length (trim (trim s))) with _ | rest
    · rfl
    · simp only [ih rest (PlainQuotes.negated _ rest hplain hneg)]

/-- A text with plain quotes is parsed as it is to be read. -/
theorem parse_reads (s : List Char) (h : PlainQuotes s) : parse_bool_tree s = reading s :=
  parse_with_reads _ s h

end Same

end JavaDebug.Readings
