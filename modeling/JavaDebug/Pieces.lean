import JavaDebug.ParsedExpressions

/-!
Pieces. What the parsers cut out of a text starts where the text is outside
literals, so a scan of the piece sees in it what a scan of the whole text sees
there. This holds of segments, subscripts and sides of comparisons, and of the
clauses of a condition whose quotes are plain.
-/
namespace JavaDebug.Pieces

open Addressing Texts Levels
open Expressions ParsedExpressions Readings
open BooleanTrees (BoolTree parse_bool_tree split_comparison split_comparison_loop cut_here OPS)

section Pieces

variable (s : List Char)

def quotes : Quoted := s.foldl Quoted.step .default

theorem quotes_append (s t : List Char) (h : quotes s = .default) : quotes (s ++ t) = quotes t := by
  rw [quotes, List.foldl_append]
  exact congrArg (fun q => t.foldl Quoted.step q) h

/-- A part of a text that starts outside literals. -/
def Piece (p s : List Char) : Prop := ∃ a b, s = a ++ (p ++ b) ∧ quotes a = .default

theorem Piece.refl : Piece s s := ⟨[], [], by simp, rfl⟩

theorem Piece.trans (p q s : List Char) (h : Piece p q) (h' : Piece q s) : Piece p s := by
  obtain ⟨a, b, rfl, ha⟩ := h
  obtain ⟨a', b', rfl, ha'⟩ := h'
  exact ⟨a' ++ a, b ++ b', by simp, by rw [quotes_append a' a ha', ha]⟩

theorem piece_trim : Piece (trim s) s := by
  obtain ⟨ws, ws', hws, -, hsplit⟩ := trim_split s
  exact ⟨ws, ws', hsplit, (fold_space ws hws).2⟩

theorem piece_front (s t : List Char) : Piece s (s ++ t) := ⟨[], t, rfl, rfl⟩

theorem piece_suffix (s t : List Char) (h : quotes s = .default) : Piece t (s ++ t) :=
  ⟨s, [], by rw [List.append_nil], h⟩

/-- A character that stands outside literals. -/
def Outside (c : Char) (s : List Char) : Prop :=
  ∃ a b, s = a ++ c :: b ∧ (quotes a).inside = false

theorem Piece.outside (c : Char) (p s : List Char) (h : Piece p s) (hc : Outside c p) :
    Outside c s := by
  obtain ⟨a, b, rfl, ha⟩ := h
  obtain ⟨a', b', rfl, ha'⟩ := hc
  exact ⟨a ++ a', b' ++ b, by simp, by rw [quotes_append a a' ha, ha']⟩

theorem quotes_of_inside (h : (quotes s).inside = false) : quotes s = .default :=
  fold_default s h

/-- Quotes are counted in step with the literals, from one parity or the other. -/
def Aligned : Prop := ∃ b, Agree b .default s

theorem aligned_of_plain (h : PlainQuotes s) : Aligned s := ⟨false, h⟩

theorem Piece.aligned (p s : List Char) (h : Piece p s) (hs : Aligned s) : Aligned p := by
  obtain ⟨a, b, rfl, ha⟩ := h
  obtain ⟨parity, hagree⟩ := hs
  have htail := ((Agree.append parity .default a (p ++ b)).mp hagree).2
  rw [show a.foldl Quoted.step .default = .default from ha] at htail
  exact ⟨_, ((Agree.append _ .default p b).mp htail).1⟩

/-- What follows a bracket outside literals is counted from the start. -/
theorem Aligned.after_bracket (a p : List Char) (c : Char) (hc : Syntax c)
    (ha : quotes a = .default) (h : Aligned (a ++ c :: p)) : PlainQuotes p := by
  obtain ⟨parity, hagree⟩ := h
  obtain ⟨hsame, hrest⟩ := ((Agree.append parity .default a (c :: p)).mp hagree).2
  rw [show a.foldl Quoted.step .default = .default from ha] at hsame hrest
  have hquote : c ≠ '"' ∧ c ≠ '\'' := by
    refine ⟨?_, ?_⟩
    · rintro rfl
      exact absurd hc (by decide)
    · rintro rfl
      exact absurd hc (by decide)
  rw [hsame hc, toggle_other _ c hquote.1, step_default c hquote.1 hquote.2] at hrest
  exact hrest

end Pieces

section Segments

theorem cut_pieces (b : Brackets) (sep : Char) (hsep : Plain b sep) (s : List Char)
    (ps : List (List Char)) (h : Cut b sep s ps) : ∀ p ∈ ps, Piece p s := by
  induction h with
  | last p _ =>
    intro q hq
    rw [List.mem_singleton.mp hq]
    exact .refl p
  | more p s ps _ hrun _ ih =>
    intro q hq
    rcases List.mem_cons.mp hq with rfl | hmem
    · exact piece_front q (sep :: s)
    · have hquotes : quotes (p ++ [sep]) = .default := by
        have hp : quotes p = .default := by
          have := run_quoted b .start p
          rw [hrun] at this
          exact this.symm
        rw [quotes_append p [sep] hp]
        exact step_default sep hsep.1 hsep.2.1
      have hsuffix := piece_suffix (p ++ [sep]) s hquotes
      rw [List.append_assoc, List.singleton_append] at hsuffix
      exact Piece.trans q s _ (ih q hmem) hsuffix

theorem segment_pieces (e : List Char) (parts : List (List Char))
    (h : Cut groups '.' (trim e) parts) : ∀ raw ∈ kept_parts parts, Piece raw e := by
  intro raw hraw
  obtain ⟨p, hp, rfl⟩ := mem_kept_parts parts raw hraw
  have hcut := cut_pieces groups '.' plain_dot _ parts h p hp
  exact Piece.trans _ _ _ (piece_trim p) (Piece.trans _ _ _ hcut (piece_trim e))

/-- A text with a bracket before it. -/
def Bracketed (g s : List Char) : Prop :=
  ∃ a g' b, s = a ++ '[' :: (g' ++ b) ∧ quotes a = .default ∧ g = trim g'

theorem Bracketed.piece (g s : List Char) (h : Bracketed g s) : Piece g s := by
  obtain ⟨a, g', b, rfl, ha, rfl⟩ := h
  refine Piece.trans _ g' _ (piece_trim g') ⟨a ++ ['['], b, by simp, ?_⟩
  rw [quotes_append a ['['] ha]
  rfl

theorem Bracketed.of_piece (g p s : List Char) (h : Bracketed g p) (hp : Piece p s) :
    Bracketed g s := by
  obtain ⟨a, g', b, rfl, ha, rfl⟩ := h
  obtain ⟨a', b', rfl, ha'⟩ := hp
  exact ⟨a' ++ a, g', b ++ b', by simp, by rw [quotes_append a' a ha', ha], rfl⟩

theorem Bracketed.plain (g s : List Char) (h : Bracketed g s) (hs : Aligned s) : PlainQuotes g := by
  obtain ⟨a, g', b, rfl, ha, rfl⟩ := h
  have hplain := Aligned.after_bracket a (g' ++ b) '[' (by decide) ha hs
  exact PlainQuotes.trim g' (PlainQuotes.left g' b hplain)

theorem body_quotes (g : List Char) (h : Body g) : quotes g = .default := by
  have := run_quoted squares .start g
  rw [h.2] at this
  exact this.symm

theorem groups_bracketed (rest : List Char) (gs : List (List Char)) (h : Groups rest gs) :
    ∀ g ∈ gs, Bracketed g rest := by
  induction h with
  | nil => simp
  | cons g after gs hbody _ ih =>
    intro g' hg'
    rcases List.mem_cons.mp hg' with rfl | hmem
    · exact ⟨[], g, ']' :: after, by simp, rfl, rfl⟩
    · have hquotes : quotes ('[' :: (g ++ [']'])) = .default := by
        have hopen : quotes ['['] = .default := rfl
        rw [← List.singleton_append, quotes_append ['['] _ hopen,
          quotes_append g _ (body_quotes g hbody)]
        rfl
      have hsuffix := piece_suffix ('[' :: (g ++ [']'])) after hquotes
      rw [List.cons_append, List.append_assoc, List.singleton_append] at hsuffix
      exact (ih g' hmem).of_piece _ _ _ (Piece.trans _ _ _ (piece_trim after) hsuffix)

/-- A segment's head is a piece of it, and so is what stands in its brackets. -/
theorem subscripts_pieces (raw head : List Char) (gs : List (List Char))
    (h : split_subscripts raw = .ok (head, gs)) : Piece head raw ∧ ∀ g ∈ gs, Bracketed g raw := by
  obtain ⟨p, rest, rfl, rfl, -, hend, hgroups⟩ := (split_subscripts_ok raw head gs).mp h
  refine ⟨Piece.trans _ p _ (piece_trim p) (piece_front p rest), ?_⟩
  intro g hg
  have hbracketed := groups_bracketed _ gs hgroups g hg
  rcases hend with rfl | ⟨-, hrun⟩
  · obtain _ | _ := hgroups
    simp at hg
  · have hquotes : quotes p = .default := by
      have := run_quoted parens .start p
      rw [hrun] at this
      exact this.symm
    have hsuffix := piece_suffix p rest hquotes
    exact hbracketed.of_piece _ _ _ (Piece.trans _ _ _ (piece_trim rest) hsuffix)

end Segments

section Conditions

theorem quotes_snoc (s : List Char) (c : Char) : quotes (s ++ [c]) = (quotes s).step c := by
  rw [quotes, List.foldl_append]
  rfl

/-- The clauses of a condition are pieces of it. -/
theorem read_split_pieces (op : Char) (hop : op = '|' ∨ op = '&') (depth : ℤ) (cur s : List Char) :
    ∀ p ∈ read_split op depth (quotes cur) cur s, Piece p (cur ++ s) := by
  induction hn : s.length using Nat.strong_induction_on generalizing depth cur s with
  | h n ih =>
    obtain _ | ⟨c, rest⟩ := s
    · intro p hp
      rw [read_split, List.mem_singleton] at hp
      rw [hp, List.append_nil]
      exact piece_trim cur
    · have hgo : ∀ depth', ∀ p ∈ read_split op depth' ((quotes cur).step c) (cur ++ [c]) rest,
          Piece p (cur ++ c :: rest) := by
        intro depth' p hp
        rw [← quotes_snoc] at hp
        have hpiece := ih rest.length (by simp [← hn]) depth' (cur ++ [c]) rest rfl p hp
        rwa [List.append_assoc, List.singleton_append] at hpiece
      have hbracket : ∀ d, (d = '(' ∨ d = '[' ∨ d = ')' ∨ d = ']') → (quotes cur).inside = false →
          (quotes cur).step d = quotes cur := by
        intro d hd hin
        rw [quotes_of_inside cur hin]
        rcases hd with rfl | rfl | rfl | rfl <;> decide
      intro p hp
      rw [read_cons op hop depth _ (quotes_of_inside cur)] at hp
      by_cases hopen : (c = '(' ∨ c = '[') ∧ (!(quotes cur).inside) = true
      · rw [if_pos hopen] at hp
        have hstay := hbracket c (by tauto) (by simpa using hopen.2)
        rw [hstay] at hgo
        exact hgo (depth + 1) p hp
      · rw [if_neg hopen] at hp
        by_cases hclose : (c = ')' ∨ c = ']') ∧ (!(quotes cur).inside) = true
        · rw [if_pos hclose] at hp
          have hstay := hbracket c (by tauto) (by simpa using hclose.2)
          rw [hstay] at hgo
          exact hgo (depth - 1) p hp
        · rw [if_neg hclose] at hp
          by_cases hat : (!(quotes cur).inside) = true ∧ depth = 0 ∧ c = op ∧ rest.head? = some op
          · rw [if_pos hat] at hp
            obtain ⟨hin, -, rfl, hhead⟩ := hat
            have hquotes := quotes_of_inside cur (by simpa using hin)
            obtain ⟨rest', rfl⟩ : ∃ rest', rest = c :: rest' := by
              obtain _ | ⟨d, rest'⟩ := rest
              · simp at hhead
              · exact ⟨rest', by rw [Option.some.inj hhead]⟩
            rcases List.mem_cons.mp hp with rfl | hmem
            · exact Piece.trans _ cur _ (piece_trim cur) (piece_front cur _)
            · rw [List.tail_cons, hquotes] at hmem
              have hpiece := ih rest'.length (by simp only [← hn, List.length_cons]; omega) depth
                [] rest' rfl p hmem
              have hops : quotes (cur ++ [c, c]) = .default := by
                obtain ⟨hs, hc, -⟩ := operator_unquoted c hop
                rw [quotes_append cur _ hquotes]
                simp [quotes, step_default c hs hc]
              have hsuffix := piece_suffix (cur ++ [c, c]) rest' hops
              rw [List.append_assoc] at hsuffix
              exact Piece.trans p rest' _ hpiece hsuffix
          · rw [if_neg hat] at hp
            exact hgo depth p hp

theorem unwrap_piece (n : ℕ) (t : List Char) : Piece (unwrap n t) t := by
  induction n generalizing t with
  | zero => exact .refl t
  | succ n ih =>
    rw [unwrap]
    by_cases henc : encloses t = true
    · rw [if_pos henc]
      have hopen : t.head? = some '(' := by
        simp only [encloses, Bool.and_eq_true, decide_eq_true_eq] at henc
        exact henc.1.1
      obtain _ | ⟨c, rest⟩ := t
      · simp at hopen
      · obtain rfl : c = '(' := Option.some.inj hopen
        have hrest : Piece rest ('(' :: rest) := piece_suffix ['('] rest rfl
        have hinner : Piece rest.dropLast rest := by
          rcases List.eq_nil_or_concat rest with rfl | ⟨inside, last, rfl⟩
          · exact .refl []
          · rw [List.concat_eq_append, List.dropLast_concat]
            exact piece_front inside [last]
        refine Piece.trans _ _ _ (ih _) (Piece.trans _ _ _ (piece_trim _) ?_)
        exact Piece.trans _ _ _ hinner hrest
    · rw [if_neg henc]
      exact .refl t

/-- The leaves of a tree. -/
inductive LeafOf (a : List Char) : BoolTree (List Char) → Prop
  | leaf : LeafOf a (.leaf a)
  | not (t : BoolTree (List Char)) : LeafOf a t → LeafOf a (.not t)
  | or (ts : List (BoolTree (List Char))) (t : BoolTree (List Char)) : t ∈ ts → LeafOf a t →
      LeafOf a (.or ts)
  | and (ts : List (BoolTree (List Char))) (t : BoolTree (List Char)) : t ∈ ts → LeafOf a t →
      LeafOf a (.and ts)

theorem read_leaf_piece (n : ℕ) (s a : List Char) (h : LeafOf a (read_with n s)) : Piece a s := by
  induction n generalizing s with
  | zero =>
    obtain _ | _ := h
    exact .refl a
  | succ n ih =>
    have hstrip : Piece (unwrap (trim s).length (trim (trim s))) s :=
      Piece.trans _ _ _ (unwrap_piece _ _)
        (Piece.trans _ _ _ (piece_trim (trim s)) (piece_trim s))
    rw [read_with] at h
    dsimp only at h
    generalize unwrap (trim s).length (trim (trim s)) = u at h hstrip
    have hparts : ∀ op, op = '|' ∨ op = '&' →
        ∀ t ∈ (read_split op 0 .default [] u).map (read_with n), LeafOf a t → Piece a s := by
      intro op hop t ht hleaf
      obtain ⟨p, hp, rfl⟩ := List.mem_map.mp ht
      have hpiece := read_split_pieces op hop 0 [] u p hp
      exact Piece.trans _ _ _ (ih p hleaf) (Piece.trans _ _ _ hpiece hstrip)
    split_ifs at h
    · obtain _ | _ | ⟨_, t, ht, hleaf⟩ | _ := h
      exact hparts '|' (.inl rfl) t ht hleaf
    · obtain _ | _ | _ | ⟨_, t, ht, hleaf⟩ := h
      exact hparts '&' (.inr rfl) t ht hleaf
    · rcases hneg : BooleanTrees.negated u with _ | rest
      · rw [hneg] at h
        obtain _ | _ := h
        exact hstrip
      · rw [hneg] at h
        obtain _ | ⟨_, hleaf⟩ := h
        have hrest : Piece rest u := by
          unfold BooleanTrees.negated at hneg
          split at hneg
          · rename_i rest'
            split_ifs at hneg
            obtain rfl := Option.some.inj hneg
            exact piece_suffix ['!'] _ rfl
          · simp at hneg
        exact Piece.trans _ _ _ (ih rest hleaf) (Piece.trans _ _ _ hrest hstrip)

theorem leaf_piece (s a : List Char) (hs : PlainQuotes s) (h : LeafOf a (parse_bool_tree s)) :
    Piece a s := by
  rw [parse_reads s hs] at h
  exact read_leaf_piece _ s a h

theorem comparison_sides (depth : ℤ) (before s l op r : List Char)
    (h : split_comparison_loop depth (quotes before) before s = some (l, op, r)) :
    ∃ a b, before ++ s = a ++ (op ++ b) ∧ quotes a = .default ∧ op ∈ OPS ∧ l = trim a ∧
      r = trim b := by
  induction s generalizing depth before with
  | nil => simp [split_comparison_loop] at h
  | cons c rest ih =>
    rw [split_comparison_loop] at h
    dsimp only at h
    by_cases hat : (!(quotes before).inside) = true ∧ depth = 0 ∧ c ≠ '"' ∧ c ≠ '\'' ∧ c ≠ '(' ∧
        c ≠ ')'
    · rw [if_pos hat] at h
      rcases hcut : cut_here before (c :: rest) with _ | parts
      · rw [hcut, ← quotes_snoc] at h
        obtain ⟨a, b, hsplit, hrest⟩ := ih _ (before ++ [c]) h
        exact ⟨a, b, by rw [← hsplit]; simp, hrest⟩
      · rw [hcut] at h
        obtain rfl := Option.some.inj h
        obtain ⟨op', hop, hfound⟩ := List.exists_of_findSome?_eq_some hcut
        dsimp only at hfound
        split_ifs at hfound with hprefix
        obtain ⟨rfl, heq⟩ := Prod.mk.inj (Option.some.inj hfound)
        obtain ⟨rfl, rfl⟩ := Prod.mk.inj heq
        obtain ⟨b, hb⟩ := List.isPrefixOf_iff_prefix.mp hprefix
        refine ⟨before, b, by rw [hb], quotes_of_inside before (by simpa using hat.1), hop, rfl, ?_⟩
        rw [← hb, List.drop_left]
    · rw [if_neg hat, ← quotes_snoc] at h
      obtain ⟨a, b, hsplit, hrest⟩ := ih _ (before ++ [c]) h
      exact ⟨a, b, by rw [← hsplit]; simp, hrest⟩

theorem comparison_pieces (s l op r : List Char) (h : split_comparison s = some (l, op, r)) :
    Piece l s ∧ Piece r s := by
  obtain ⟨a, b, hsplit, ha, hop, rfl, rfl⟩ := comparison_sides 0 [] s l op r h
  rw [List.nil_append] at hsplit
  have hops : ∀ op ∈ OPS, quotes op = .default := by decide
  have hquotes : quotes (a ++ op) = .default := by
    rw [quotes_append a op ha, hops op hop]
  rw [hsplit]
  refine ⟨Piece.trans _ a _ (piece_trim a) (piece_front a _), ?_⟩
  rw [← List.append_assoc]
  exact Piece.trans _ b _ (piece_trim b) (piece_suffix (a ++ op) b hquotes)

end Conditions

end JavaDebug.Pieces
