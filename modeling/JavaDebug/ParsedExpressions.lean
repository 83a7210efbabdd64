import JavaDebug.Expressions

/-!
What the expression parser accepts. A segment is a head and bracketed groups, an
expression is segments between dots at the outermost level. Everything that is
parsed again within an expression is shorter than it, so the parser satisfies the
recursion of the source without fuel.
-/
namespace JavaDebug.ParsedExpressions

open Addressing JavaValues Texts Levels
open Expressions

section Results

variable {ε α β : Type}

theorem ok_bind (a : α) (f : α → Except ε β) : (Except.ok a >>= f) = f a := rfl

theorem bind_ok (x : Except ε α) (f : α → Except ε β) (b : β) :
    (x >>= f) = .ok b ↔ ∃ a, x = .ok a ∧ f a = .ok b := by
  rcases x with e | a
  · simp [bind, Except.bind]
  · simp [bind, Except.bind]

theorem map_ok (x : Except ε α) (f : α → β) (b : β) :
    x.map f = .ok b ↔ ∃ a, x = .ok a ∧ f a = b := by
  rcases x with e | a
  · simp [Except.map]
  · simp [Except.map]

theorem mapM_ok (f : α → Except ε β) (xs : List α) (ys : List β) :
    xs.mapM f = .ok ys ↔ List.Forall₂ (fun x y => f x = .ok y) xs ys := by
  induction xs generalizing ys with
  | nil => simp [pure, Except.pure, eq_comm]
  | cons x xs ih =>
    rw [List.mapM_cons, bind_ok, List.forall₂_cons_left_iff]
    constructor
    · rintro ⟨y, hy, hrest⟩
      obtain ⟨ys', hys, hpure⟩ := (bind_ok _ _ _).mp hrest
      exact ⟨y, ys', hy, (ih ys').mp hys, (Except.ok.inj hpure).symm⟩
    · rintro ⟨y, ys', hy, hall, rfl⟩
      exact ⟨y, hy, (bind_ok _ _ _).mpr ⟨ys', (ih ys').mpr hall, rfl⟩⟩

theorem forall₂_source {R : α → β → Prop} (xs : List α) (ys : List β) (h : List.Forall₂ R xs ys)
    (y : β) (hy : y ∈ ys) : ∃ x ∈ xs, R x y := by
  induction h with
  | nil => simp at hy
  | cons hfirst _ ih =>
    rcases List.mem_cons.mp hy with rfl | hmem
    · exact ⟨_, List.mem_cons_self, hfirst⟩
    · obtain ⟨x, hx, hxy⟩ := ih hmem
      exact ⟨x, List.mem_cons_of_mem _ hx, hxy⟩

theorem mapM_congr (f g : α → Except ε β) (xs : List α) (h : ∀ x ∈ xs, f x = g x) :
    xs.mapM f = xs.mapM g := by
  induction xs with
  | nil => rfl
  | cons x xs ih =>
    rw [List.mapM_cons, List.mapM_cons, h x List.mem_cons_self,
      ih fun y hy => h y (List.mem_cons_of_mem x hy)]

end Results

section Groups

/-- The brackets of a group close where a scan from inside them finds a `]` at its level. -/
theorem close_group_iff (l : Level) (before s group after : List Char) :
    close_group ⟨l.depth + 1, l.quoted⟩ before s = some (group, after) ↔
      ∃ g, group = before ++ g ∧ s = g ++ ']' :: after ∧ Quiet squares ']' l g ∧
        (l.run squares g).top = true := by
  induction s generalizing l before with
  | nil => simp [close_group]
  | cons c s ih =>
    have hshift : Level.step squares ⟨l.depth + 1, l.quoted⟩ c =
        ⟨(l.step squares c).depth + 1, (l.step squares c).quoted⟩ := run_shift squares l 1 [c]
    have hat : (!l.quoted.inside) = true ∧ c = ']' ∧
        (Level.step squares ⟨l.depth + 1, l.quoted⟩ c).depth = 0 ↔ l.top = true ∧ c = ']' := by
      constructor
      · rintro ⟨hin, rfl, hdepth⟩
        rw [Bool.not_eq_true'] at hin
        refine ⟨?_, rfl⟩
        simp only [Level.step, hin, squares, List.mem_singleton] at hdepth
        rw [if_neg (by simp), if_neg (by decide), if_pos trivial] at hdepth
        simp only [Level.top, hin, Bool.and_eq_true, decide_eq_true_eq, Bool.not_false, and_true]
        omega
      · rintro ⟨htop, rfl⟩
        simp only [Level.top, Bool.and_eq_true, decide_eq_true_eq, Bool.not_eq_true'] at htop
        refine ⟨by rw [htop.2]; rfl, rfl, ?_⟩
        simp only [Level.step, htop.2, squares, List.mem_singleton]
        rw [if_neg (by simp), if_neg (by decide), if_pos trivial, htop.1]
        rfl
    rw [close_group]
    dsimp only
    by_cases hclose : l.top = true ∧ c = ']'
    · rw [if_pos (hat.mpr hclose)]
      constructor
      · intro h
        obtain ⟨rfl, rfl⟩ := Prod.mk.inj (Option.some.inj h)
        exact ⟨[], by simp, by rw [hclose.2]; rfl, trivial, hclose.1⟩
      · rintro ⟨g, rfl, hsplit, hquiet, -⟩
        obtain _ | ⟨d, g⟩ := g
        · rw [(List.cons.inj hsplit).2, List.append_nil]
        · obtain ⟨rfl, -⟩ := List.cons.inj hsplit
          exact absurd hclose hquiet.1
    · rw [if_neg fun h => hclose (hat.mp h), hshift, ih]
      constructor
      · rintro ⟨g, rfl, rfl, hquiet, htop⟩
        exact ⟨c :: g, by simp, rfl, ⟨hclose, hquiet⟩, htop⟩
      · rintro ⟨g, rfl, hsplit, hquiet, htop⟩
        obtain _ | ⟨d, g⟩ := g
        · exact absurd ⟨htop, (List.cons.inj hsplit).1⟩ hclose
        · obtain ⟨rfl, hrest⟩ := List.cons.inj hsplit
          exact ⟨g, by simp, hrest, hquiet.2, htop⟩

/-- What may stand between two square brackets. -/
def Body (g : List Char) : Prop :=
  Quiet squares ']' .start g ∧ Level.start.run squares g = .start

theorem close_group_open (s group after : List Char) :
    close_group .start [] ('[' :: s) = some (group, after) ↔
      ∃ g, group = '[' :: g ∧ s = g ++ ']' :: after ∧ Body g := by
  rw [close_group]
  have hno : ¬ ((!Level.start.quoted.inside) = true ∧ '[' = ']' ∧
      (Level.start.step squares '[').depth = 0) := by decide
  have hstep : Level.start.step squares '[' = ⟨Level.start.depth + 1, Level.start.quoted⟩ := by
    decide
  rw [if_neg hno, hstep, close_group_iff]
  constructor
  · rintro ⟨g, rfl, hsplit, hquiet, htop⟩
    exact ⟨g, rfl, hsplit, hquiet, run_top squares g htop⟩
  · rintro ⟨g, rfl, hsplit, hquiet, hrun⟩
    exact ⟨g, rfl, hsplit, hquiet, by rw [hrun]; exact start_top⟩

/-- A text of bracketed groups, and their bodies. -/
inductive Groups : List Char → List (List Char) → Prop
  | nil : Groups [] []
  | cons (g after : List Char) (gs : List (List Char)) : Body g → Groups (trim after) gs →
      Groups ('[' :: (g ++ ']' :: after)) (trim g :: gs)

theorem split_groups_ok (raw : List Char) (n : ℕ) (rest : List Char) (gs : List (List Char))
    (hn : rest.length ≤ n) : split_groups raw n rest = .ok gs ↔ Groups rest gs := by
  induction n generalizing rest gs with
  | zero =>
    obtain rfl := List.length_eq_zero_iff.mp (Nat.le_zero.mp hn)
    rw [split_groups]
    constructor
    · rintro ⟨⟩
      exact .nil
    · rintro ⟨⟩
      rfl
  | succ n ih =>
    rw [split_groups]
    by_cases hnil : rest = []
    · obtain rfl := hnil
      rw [if_pos rfl]
      constructor
      · rintro ⟨⟩
        exact .nil
      · rintro ⟨⟩
        rfl
    · rw [if_neg hnil]
      by_cases hopen : rest.head? = some '['
      · obtain ⟨c, s, rfl⟩ := List.exists_cons_of_ne_nil hnil
        obtain rfl : c = '[' := Option.some.inj hopen
        rw [if_neg (by simp)]
        rcases hclose : close_group .start [] ('[' :: s) with _ | ⟨group, after⟩
        · constructor
          · intro h
            exact absurd h (by simp)
          · intro h
            obtain _ | ⟨g, after, gs, hbody, hrest⟩ := h
            have hsome := (close_group_open _ ('[' :: g) after).mpr ⟨g, rfl, rfl, hbody⟩
            rw [hclose] at hsome
            exact absurd hsome (by simp)
        · obtain ⟨g, rfl, rfl, hbody⟩ := (close_group_open s group after).mp hclose
          have hlen : (trim after).length ≤ n := by
            have := trim_length_le after
            simp only [List.length_cons, List.length_append] at hn
            omega
          dsimp only
          rw [map_ok, List.tail_cons]
          constructor
          · rintro ⟨gs', hgs, rfl⟩
            exact .cons g after gs' hbody ((ih (trim after) gs' hlen).mp hgs)
          · intro h
            generalize g ++ ']' :: after = s at h hclose
            obtain _ | ⟨g', after', gs', hbody', hrest⟩ := h
            have hsome := (close_group_open _ ('[' :: g') after').mpr ⟨g', rfl, rfl, hbody'⟩
            obtain ⟨hg, rfl⟩ := Prod.mk.inj (Option.some.inj (hclose.symm.trans hsome))
            obtain rfl := (List.cons.inj hg).2
            exact ⟨gs', (ih (trim after) gs' hlen).mpr hrest, rfl⟩
      · rw [if_pos hopen]
        constructor
        · intro h
          exact absurd h (by simp)
        · intro h
          obtain _ | _ := h
          · exact absurd rfl hnil
          · exact absurd rfl hopen

end Groups

section Segments

theorem trim_open (s : List Char) : ∃ s', trim ('[' :: s) = '[' :: s' ∧ s' <+: s := by
  obtain ⟨ws, ws', hws, hws', hsplit⟩ := trim_split ('[' :: s)
  obtain _ | ⟨w, ws⟩ := ws
  · rw [List.nil_append] at hsplit
    revert hsplit
    rcases trim ('[' :: s) with _ | ⟨c, t⟩
    all_goals intro hsplit
    · rw [List.nil_append] at hsplit
      have := hws' '[' (by rw [← hsplit]; exact List.mem_cons_self)
      exact absurd this (by decide)
    · obtain ⟨rfl, rfl⟩ := List.cons.inj hsplit
      exact ⟨t, rfl, List.prefix_append t ws'⟩
  · obtain ⟨rfl, -⟩ := List.cons.inj hsplit
    exact absurd (hws '[' List.mem_cons_self) (by decide)

theorem split_subscripts_ok (raw head : List Char) (gs : List (List Char)) :
    split_subscripts raw = .ok (head, gs) ↔ ∃ h rest, raw = h ++ rest ∧ head = trim h ∧
      Quiet parens '[' .start h ∧
      (rest = [] ∨ rest.head? = some '[' ∧ Level.start.run parens h = .start) ∧
      Groups (trim rest) gs := by
  rcases hspan : span parens '[' .start [] raw with ⟨h, rest⟩
  obtain ⟨_, rfl, hraw, hquiet, hend⟩ := (span_iff _ _ _ _ _ _ _).mp hspan
  rw [split_subscripts, hspan]
  dsimp only
  rw [map_ok]
  constructor
  · rintro ⟨gs', hgs, heq⟩
    obtain ⟨rfl, rfl⟩ := Prod.mk.inj heq
    refine ⟨h, rest, hraw, rfl, hquiet, ?_, (split_groups_ok raw _ _ _ le_rfl).mp hgs⟩
    exact hend.imp_right fun hh => ⟨hh.1, run_top parens h hh.2⟩
  · rintro ⟨h, rest', hraw', rfl, hquiet', hend', hgroups⟩
    have hspan' : span parens '[' .start [] raw = (h, rest') := by
      apply (span_iff _ _ _ _ _ _ _).mpr
      refine ⟨h, rfl, hraw', hquiet', hend'.imp_right fun hh => ⟨hh.1, ?_⟩⟩
      rw [hh.2]
      exact start_top
    obtain ⟨rfl, rfl⟩ := Prod.mk.inj (hspan.symm.trans hspan')
    exact ⟨gs, (split_groups_ok raw _ _ _ le_rfl).mpr hgroups, rfl⟩

theorem groups_length (rest : List Char) (gs : List (List Char)) (h : Groups rest gs) :
    ∀ g ∈ gs, g.length < rest.length := by
  induction h with
  | nil => simp
  | cons g after gs _ _ ih =>
    intro g' hg'
    simp only [List.length_cons, List.length_append]
    rcases List.mem_cons.mp hg' with rfl | hmem
    · have := trim_length_le g
      omega
    · have := ih g' hmem
      have := trim_length_le after
      omega

/-- The segments that the parts between the dots come to: the last is none if it is blank. -/
def kept_parts (parts : List (List Char)) : List (List Char) :=
  let parts := parts.map trim
  parts.dropLast ++ parts.getLast?.toList.filter (· ≠ [])

theorem plain_dot : Plain groups '.' := by
  refine ⟨?_, ?_, ?_, ?_⟩ <;> decide

theorem plain_comma : Plain parens ',' := by
  refine ⟨?_, ?_, ?_, ?_⟩ <;> decide

theorem split_segments_ok (e : List Char) (raws : List (List Char)) :
    split_segments e = .ok raws ↔ ∃ parts, Cut groups '.' e parts ∧
      Level.start.run groups e = .start ∧ raws = kept_parts parts := by
  have htop : ¬ ((Level.start.run groups e).depth ≠ 0 ∨
      (Level.start.run groups e).quoted.inside = true) ↔ Level.start.run groups e = .start := by
    constructor
    · intro h
      apply run_top
      simp only [Level.top, Bool.and_eq_true, decide_eq_true_eq, Bool.not_eq_true']
      rw [not_or, not_not, Bool.not_eq_true] at h
      exact h
    · intro h
      rw [h]
      decide
  rw [split_segments]
  dsimp only
  by_cases hrun : Level.start.run groups e = .start
  · rw [if_neg (htop.mpr hrun)]
    constructor
    · intro h
      exact ⟨_, cut_cut groups '.' plain_dot e, hrun, (Except.ok.inj h).symm⟩
    · rintro ⟨parts, hcut, -, rfl⟩
      rw [(cut_iff groups '.' plain_dot e parts).mpr hcut]
      rfl
  · rw [if_pos (by_contra fun h => hrun (htop.mp h))]
    constructor
    · intro h
      exact absurd h (by simp)
    · rintro ⟨parts, -, hrun', -⟩
      exact absurd hrun' hrun

theorem mem_kept {α : Type} {p : α → Bool} {l : List α} {a : α}
    (h : a ∈ l.dropLast ++ l.getLast?.toList.filter p) : a ∈ l := by
  rcases List.mem_append.mp h with hinit | hlast
  · exact (List.dropLast_sublist _).mem hinit
  · have hlast := List.mem_of_mem_filter hlast
    exact List.mem_of_getLast? (by simpa using hlast)

theorem mem_kept_parts (parts : List (List Char)) (raw : List Char) (h : raw ∈ kept_parts parts) :
    ∃ p ∈ parts, raw = trim p := by
  obtain ⟨p, hp, rfl⟩ := List.mem_map.mp (mem_kept h)
  exact ⟨p, hp, rfl⟩

theorem segment_length (e : List Char) (raws : List (List Char)) (h : split_segments e = .ok raws) :
    ∀ raw ∈ raws, raw.length ≤ e.length := by
  obtain ⟨parts, hcut, -, rfl⟩ := (split_segments_ok e raws).mp h
  intro raw hraw
  obtain ⟨p, hp, rfl⟩ := mem_kept_parts parts raw hraw
  exact (trim_length_le p).trans (hcut.length_le groups '.' e parts p hp)

end Segments

section Recursion

variable (lit lit' : List Char → Except String ArgLit)

theorem parse_subscript_congr (g : List Char)
    (h : ∀ t : List Char, t.length ≤ g.length → lit t = lit' t) :
    parse_subscript lit g = parse_subscript lit' g := by
  rw [parse_subscript, parse_subscript, h (trim g) (trim_length_le g)]

theorem parse_args_congr (s : List Char) (h : ∀ t : List Char, t.length ≤ s.length → lit t = lit' t)
    : parse_args lit s = parse_args lit' s := by
  rw [parse_args, parse_args]
  rw [mapM_congr lit lit' _ fun p hp => h p ?_]
  have hcut := cut_cut parens ',' plain_comma (trim s)
  exact (hcut.length_le parens ',' _ _ p hp).trans (trim_length_le s)

theorem parse_head_congr (head : List Char)
    (h : ∀ t : List Char, t.length < head.length → lit t = lit' t) :
    parse_head lit head = parse_head lit' head := by
  rw [parse_head, parse_head]
  by_cases hcall : '(' ∈ head
  · have hlen : ((head.dropWhile (· ≠ '(')).tail.dropLast).length < head.length := by
      have hle := (List.dropWhile_suffix (l := head) (· ≠ '(')).length_le
      have hpos := List.length_pos_of_mem hcall
      rw [List.length_dropLast, List.length_tail]
      omega
    rw [parse_args_congr lit lit' _ fun t ht => h t (ht.trans_lt hlen)]
  · rw [if_neg hcall, if_neg hcall]

theorem parse_seg_congr (raw : List Char)
    (h : ∀ t : List Char, t.length < raw.length → lit t = lit' t) :
    parse_seg lit raw = parse_seg lit' raw := by
  rw [parse_seg, parse_seg]
  rcases hsub : split_subscripts raw with e | ⟨head, gs⟩
  · rfl
  · obtain ⟨p, rest, rfl, rfl, -, -, hgroups⟩ := (split_subscripts_ok raw head gs).mp hsub
    have hp := trim_length_le p
    have hrest := trim_length_le rest
    have hsubs : gs.mapM (parse_subscript lit) = gs.mapM (parse_subscript lit') := by
      apply mapM_congr
      intro g hg
      apply parse_subscript_congr
      intro t ht
      have := groups_length _ _ hgroups g hg
      exact h t (by rw [List.length_append]; omega)
    have hhead : parse_head lit (trim p) = parse_head lit' (trim p) := by
      apply parse_head_congr
      intro t ht
      exact h t (by rw [List.length_append]; omega)
    rw [ok_bind, ok_bind]
    dsimp only
    rw [hsubs, hhead]

theorem parse_lit_congr (expr expr' : List Char → Except String (List Seg)) (t : List Char)
    (h : expr (trim t) = expr' (trim t)) : parse_lit expr t = parse_lit expr' t := by
  rw [parse_lit, parse_lit, h]

/-- Only shorter expressions are parsed inside the segments of an expression. -/
theorem raws_congr (f g : List Char → Except String (List Seg)) (e : List Char)
    (raws : List (List Char)) (hsegs : split_segments (trim e) = .ok raws)
    (h : ∀ t, t.length < e.length → f t = g t) :
    raws.mapM (parse_seg (parse_lit f)) = raws.mapM (parse_seg (parse_lit g)) := by
  apply mapM_congr
  intro raw hraw
  apply parse_seg_congr
  intro t ht
  apply parse_lit_congr
  have := segment_length _ _ hsegs raw hraw
  have := trim_length_le e
  have := trim_length_le t
  exact h (trim t) (by omega)

/-- Fuel beyond the length of the text changes nothing. -/
theorem parse_expr_fuel (n m : ℕ) (e : List Char) (hn : e.length < n) (hm : e.length < m) :
    parse_expr_with n e = parse_expr_with m e := by
  induction n generalizing m e with
  | zero => omega
  | succ n ih =>
    obtain _ | m := m
    · omega
    · rw [parse_expr_with, parse_expr_with]
      rcases hsegs : split_segments (trim e) with err | raws
      · rfl
      · rw [ok_bind, ok_bind, raws_congr _ (parse_expr_with m) e raws hsegs]
        exact fun t ht => ih m t (by omega) (by omega)

/-- The recursion of the source. -/
theorem parse_expr_eq (e : List Char) :
    parse_expr e = (do
      if trim e = [] then throw "Empty expression"
      let raws ← split_segments (trim e)
      if raws = [] then throw "Empty expression"
      raws.mapM (parse_seg (parse_lit parse_expr)) : Except String (List Seg)) := by
  rw [parse_expr, parse_expr_with]
  rcases hsegs : split_segments (trim e) with err | raws
  · rfl
  · rw [ok_bind, ok_bind, raws_congr _ parse_expr e raws hsegs]
    exact fun t ht => parse_expr_fuel e.length _ t (by omega) (by omega)

end Recursion

section Accepted

variable (lit : List Char → Except String ArgLit)

theorem parse_args_ok (inside : List Char) (args : List ArgLit) :
    parse_args lit inside = .ok args ↔ trim inside = [] ∧ args = [] ∨
      trim inside ≠ [] ∧ ∃ ps, Cut parens ',' (trim inside) ps ∧
        List.Forall₂ (fun p a => lit p = .ok a) ps args := by
  rw [parse_args]
  by_cases hnil : trim inside = []
  · simp [hnil, eq_comm]
  · rw [if_neg hnil, mapM_ok]
    constructor
    · intro h
      exact .inr ⟨hnil, _, cut_cut parens ',' plain_comma _, h⟩
    · rintro (⟨h, -⟩ | ⟨-, ps, hcut, h⟩)
      · exact absurd h hnil
      · rwa [(cut_iff parens ',' plain_comma _ ps).mpr hcut]

theorem parse_subscript_ok (g : List Char) (s : Subscript) :
    parse_subscript lit g = .ok s ↔
      (∃ rest, trim g = '?' :: rest ∧ trim rest ≠ [] ∧ s = .filter (String.ofList (trim rest))) ∨
      trim g ≠ [] ∧ (trim g).head? ≠ some '?' ∧
        ((∃ a b, split_range [] (trim g) = some (a, b) ∧ parse_range (trim g) a b = .ok s) ∨
          split_range [] (trim g) = none ∧ ∃ a, lit (trim g) = .ok a ∧ s = .index a) := by
  rw [parse_subscript]
  rcases trim g with _ | ⟨c, t⟩
  · simp
  · rw [if_neg (by simp)]
    by_cases hfilter : c = '?'
    · obtain rfl := hfilter
      have hhead : ('?' :: t).head? = some '?' := rfl
      rw [if_pos hhead, List.tail_cons]
      by_cases hblank : trim t = []
      · simp [hblank]
      · rw [if_neg hblank]
        constructor
        · intro h
          exact .inl ⟨t, rfl, hblank, (Except.ok.inj h).symm⟩
        · rintro (⟨rest, heq, -, rfl⟩ | ⟨-, hno, -⟩)
          · rw [(List.cons.inj heq).2]
          · exact absurd hhead hno
    · have hhead : (c :: t).head? ≠ some '?' := by simpa using hfilter
      have hmark : ∀ rest, c :: t ≠ '?' :: rest := fun rest h => hfilter (List.cons.inj h).1
      rw [if_neg hhead]
      constructor
      · intro h
        refine .inr ⟨by simp, hhead, ?_⟩
        rcases hrange : split_range [] (c :: t) with _ | ⟨a, b⟩
        · rw [hrange] at h
          obtain ⟨a, ha, hs⟩ := (map_ok _ _ _).mp h
          exact .inr ⟨rfl, a, ha, hs.symm⟩
        · rw [hrange] at h
          exact .inl ⟨a, b, rfl, h⟩
      · rintro (⟨rest, heq, -⟩ | ⟨-, -, ⟨a, b, hrange, h⟩ | ⟨hrange, a, ha, rfl⟩⟩)
        · exact absurd heq (hmark rest)
        · rw [hrange]
          exact h
        · rw [hrange]
          exact (map_ok _ _ _).mpr ⟨a, ha, rfl⟩

/-- The three things that the head of a segment may be. -/
inductive Head (lit : List Char → Except String ArgLit) :
    List Char → List Char → Option (List ArgLit) → Prop
  | handle (head : List Char) : head.head? = some '@' → parse_object_handle head ≠ none →
      Head lit head head none
  | call (before inside : List Char) (args : List ArgLit) : before.head? ≠ some '@' →
      '(' ∉ before → is_ident (trim before) = true → parse_args lit inside = .ok args →
      Head lit (before ++ '(' :: (inside ++ [')'])) (trim before) (some args)
  | name (head : List Char) : is_ident head = true → Head lit head head none

theorem ident_no_paren (s : List Char) (h : is_ident s = true) : '(' ∉ s ∧ s.head? ≠ some '@' := by
  rw [is_ident, Bool.and_eq_true, List.all_eq_true] at h
  constructor
  · intro hmem
    exact absurd (h.2 '(' hmem) (by decide)
  · intro hhead
    rw [hhead] at h
    exact absurd h.1 (by decide)

theorem call_split (head : List Char) (hcall : '(' ∈ head) (hlast : head.getLast? = some ')') :
    ∃ before inside, head = before ++ '(' :: (inside ++ [')']) ∧ '(' ∉ before ∧
      head.takeWhile (· ≠ '(') = before ∧
      (head.dropWhile (· ≠ '(')).tail.dropLast = inside := by
  have hsplit := List.takeWhile_append_dropWhile (p := (· ≠ '(')) (l := head)
  have hbefore : '(' ∉ head.takeWhile (· ≠ '(') := by
    intro hmem
    have := List.mem_takeWhile_imp hmem
    simp at this
  rcases hdrop : head.dropWhile (· ≠ '(') with _ | ⟨c, rest⟩
  · rw [hdrop, List.append_nil] at hsplit
    rw [hsplit] at hbefore
    exact absurd hcall hbefore
  · have hc : c = '(' := by
      have := List.head?_dropWhile_not (· ≠ '(') head
      rw [hdrop] at this
      simpa using this
    obtain rfl := hc
    rw [hdrop] at hsplit
    rcases List.eq_nil_or_concat rest with rfl | ⟨inside, last, rfl⟩
    · rw [← hsplit, List.getLast?_append] at hlast
      simp at hlast
    · rw [List.concat_eq_append] at hsplit hdrop
      have hend : last = ')' := by
        rw [← hsplit, ← List.cons_append, ← List.append_assoc, List.getLast?_concat] at hlast
        exact Option.some.inj hlast
      refine ⟨_, inside, ?_, hbefore, rfl, by simp⟩
      rw [← hend, hsplit]

theorem takeWhile_call (before rest : List Char) (h : '(' ∉ before) :
    (before ++ '(' :: rest).takeWhile (· ≠ '(') = before ∧
      (before ++ '(' :: rest).dropWhile (· ≠ '(') = '(' :: rest := by
  have hall : ∀ c ∈ before, (fun c => decide (c ≠ '(')) c = true := by
    intro c hc
    apply decide_eq_true
    rintro rfl
    exact h hc
  constructor
  · rw [List.takeWhile_append_of_pos hall]
    simp
  · rw [List.dropWhile_append_of_pos hall]
    simp

theorem parse_head_ok (head name : List Char) (args : Option (List ArgLit)) :
    parse_head lit head = .ok (name, args) ↔ Head lit head name args := by
  constructor
  · intro h
    rw [parse_head] at h
    by_cases hat : head.head? = some '@'
    · rw [if_pos hat] at h
      by_cases hhandle : parse_object_handle head = none
      · rw [if_pos hhandle] at h
        exact absurd h (by simp)
      · rw [if_neg hhandle] at h
        obtain ⟨rfl, rfl⟩ := Prod.mk.inj (Except.ok.inj h)
        exact .handle head hat hhandle
    · rw [if_neg hat] at h
      by_cases hcall : '(' ∈ head
      · rw [if_pos hcall] at h
        dsimp only at h
        by_cases hlast : head.getLast? = some ')'
        · obtain ⟨before, inside, hsplit, hbefore, htake, hdrop⟩ := call_split head hcall hlast
          rw [if_neg (by simp [hlast]), htake, hdrop] at h
          by_cases hident : is_ident (trim before) = true
          · rw [if_neg (by simp [hident])] at h
            obtain ⟨args', hargs, heq⟩ := (map_ok _ _ _).mp h
            obtain ⟨rfl, rfl⟩ := Prod.mk.inj heq
            rw [hsplit]
            refine .call before inside args' ?_ hbefore hident hargs
            intro hhead
            apply hat
            rw [hsplit, List.head?_append, hhead]
            rfl
          · rw [if_pos (by simp [hident])] at h
            exact absurd h (by simp)
        · rw [if_pos hlast] at h
          exact absurd h (by simp)
      · rw [if_neg hcall] at h
        by_cases hident : is_ident head = true
        · rw [if_neg (by simp [hident])] at h
          obtain ⟨rfl, rfl⟩ := Prod.mk.inj (Except.ok.inj h)
          exact .name head hident
        · rw [if_pos (by simp [hident])] at h
          exact absurd h (by simp)
  · intro h
    obtain ⟨_, hat, hhandle⟩ | ⟨before, inside, args, hat, hbefore, hident, hargs⟩ |
      ⟨_, hident⟩ := h
    · rw [parse_head, if_pos hat, if_neg hhandle]
    · obtain ⟨htake, hdrop⟩ := takeWhile_call before (inside ++ [')']) hbefore
      have hhead : (before ++ '(' :: (inside ++ [')'])).head? ≠ some '@' := by
        obtain _ | ⟨c, before⟩ := before
        · simp
        · simpa using hat
      have hlast : (before ++ '(' :: (inside ++ [')'])).getLast? = some ')' := by
        rw [← List.cons_append, ← List.append_assoc, List.getLast?_concat]
      rw [parse_head, if_neg hhead, if_pos (by simp)]
      dsimp only
      rw [if_neg (by simp [hlast]), htake, hdrop, if_neg (by simp [hident]), List.tail_cons,
        List.dropLast_concat, hargs]
      rfl
    · obtain ⟨hno, hhead⟩ := ident_no_paren head hident
      rw [parse_head, if_neg hhead, if_neg hno, if_neg (by simp [hident])]

theorem parse_seg_ok (raw : List Char) (seg : Seg) :
    parse_seg lit raw = .ok seg ↔ ∃ head gs subs name args,
      split_subscripts raw = .ok (head, gs) ∧
      List.Forall₂ (fun g s => parse_subscript lit g = .ok s) gs subs ∧
      Head lit head name args ∧ seg = ⟨String.ofList name, args, subs⟩ := by
  rw [parse_seg, bind_ok]
  constructor
  · rintro ⟨⟨head, gs⟩, hsub, h⟩
    obtain ⟨subs, hsubs, h⟩ := (bind_ok _ _ _).mp h
    obtain ⟨⟨name, args⟩, hhead, h⟩ := (bind_ok _ _ _).mp h
    exact ⟨head, gs, subs, name, args, hsub, (mapM_ok _ _ _).mp hsubs,
      (parse_head_ok lit head name args).mp hhead, (Except.ok.inj h).symm⟩
  · rintro ⟨head, gs, subs, name, args, hsub, hsubs, hhead, rfl⟩
    refine ⟨(head, gs), hsub, (bind_ok _ _ _).mpr ⟨subs, (mapM_ok _ _ _).mpr hsubs, ?_⟩⟩
    exact (bind_ok _ _ _).mpr ⟨(name, args), (parse_head_ok lit head name args).mpr hhead, rfl⟩

/-- An expression that parses is cut into its segments, and each of them parses. -/
theorem parse_expr_ok (e : List Char) (segs : List Seg) :
    parse_expr e = .ok segs ↔ ∃ parts, Cut groups '.' (trim e) parts ∧
      Level.start.run groups (trim e) = .start ∧ kept_parts parts ≠ [] ∧
      List.Forall₂ (fun raw seg => parse_seg (parse_lit parse_expr) raw = .ok seg)
        (kept_parts parts) segs := by
  rw [parse_expr_eq]
  constructor
  · intro h
    by_cases hnil : trim e = []
    · rw [if_pos hnil] at h
      exact absurd h (by simp [throw, throwThe, MonadExceptOf.throw, bind, Except.bind])
    · rw [if_neg hnil] at h
      obtain ⟨raws, hraws, h⟩ := (bind_ok _ _ _).mp h
      obtain ⟨parts, hcut, hrun, rfl⟩ := (split_segments_ok _ raws).mp hraws
      by_cases hempty : kept_parts parts = []
      · rw [if_pos hempty] at h
        exact absurd h (by simp [throw, throwThe, MonadExceptOf.throw, bind, Except.bind])
      · rw [if_neg hempty] at h
        exact ⟨parts, hcut, hrun, hempty, (mapM_ok _ _ _).mp h⟩
  · rintro ⟨parts, hcut, hrun, hempty, hall⟩
    have hnil : trim e ≠ [] := by
      intro hnil
      rw [hnil] at hcut
      generalize hs : ([] : List Char) = s at hcut
      obtain ⟨_, -⟩ | _ := hcut
      · rw [← hs] at hempty
        exact hempty rfl
      · simp at hs
    rw [if_neg hnil]
    refine (bind_ok _ _ _).mpr ⟨kept_parts parts, ?_, ?_⟩
    · exact (split_segments_ok _ _).mpr ⟨parts, hcut, hrun, rfl⟩
    · rw [if_neg hempty]
      exact (mapM_ok _ _ _).mpr hall

end Accepted

end JavaDebug.ParsedExpressions
