import JavaDebug.Spellings
import JavaDebug.Pieces

/-!
The parser on marked texts. Whatever the parser cuts out of one spelling, a segment,
a subscript, an argument, a clause or the side of a comparison, it cuts out of the
other at the same places, so each part of the plain spelling belongs to a part of
the marked text and has its counterpart in the other spelling.
-/
namespace JavaDebug.MarkedTexts

open Addressing JavaValues Texts Levels
open Expressions ParsedExpressions Spellings

section Segments

theorem bare_groups : Bare groups := by
  intro c hc
  have h := inert_ne c
  simp only [groups, List.mem_cons, List.not_mem_nil, or_false, not_or]
  exact ⟨⟨h '(' hc (by decide), h '[' hc (by decide)⟩, h ')' hc (by decide), h ']' hc (by decide)⟩

theorem bare_parens : Bare parens := by
  intro c hc
  simp only [parens, List.mem_singleton]
  exact ⟨inert_ne c '(' hc (by decide), inert_ne c ')' hc (by decide)⟩

theorem bare_squares : Bare squares := by
  intro c hc
  simp only [squares, List.mem_singleton]
  exact ⟨inert_ne c '[' hc (by decide), inert_ne c ']' hc (by decide)⟩

def kept_marked (xs : List Marked) : List Marked :=
  let xs := xs.map trim_marked
  xs.dropLast ++ xs.getLast?.toList.filter (· ≠ [])

variable (bind : Bool)

theorem kept_spell (xs : List Marked) (hxs : ∀ x ∈ xs, Sound x) :
    kept_parts (xs.map (spell bind)) = (kept_marked xs).map (spell bind) := by
  have htrim : (xs.map (spell bind)).map trim = (xs.map trim_marked).map (spell bind) := by
    rw [List.map_map, List.map_map]
    exact List.map_congr_left fun x hx => trim_spell bind x (hxs x hx)
  rw [kept_parts, kept_marked, htrim, List.map_append, List.map_dropLast, List.getLast?_map]
  congr 1
  rcases hlast : (xs.map trim_marked).getLast? with _ | y
  · rfl
  · have hy : Sound y := by
      obtain ⟨x, hx, rfl⟩ := List.mem_map.mp (List.mem_of_getLast? hlast)
      exact (hxs x hx).trim
    have hnil := spell_eq_nil bind y hy
    by_cases hy' : y = []
    · simp [hy']
    · simp [hy', hnil]

theorem mem_kept_marked (xs : List Marked) (raw : Marked) (h : raw ∈ kept_marked xs) :
    ∃ x ∈ xs, raw = trim_marked x := by
  obtain ⟨x, hx, rfl⟩ := List.mem_map.mp (mem_kept h)
  exact ⟨x, hx, rfl⟩

variable (e : Marked)

variable (raws : List Marked)

/-- The segments of a marked expression. -/
def Segments : Prop :=
  ∃ xs, CutMarked groups '.' (trim_marked e) xs ∧ raws = kept_marked xs

theorem Segments.subset (h : Segments e raws) : ∀ raw ∈ raws, raw ⊆ e := by
  obtain ⟨xs, hcut, rfl⟩ := h
  intro raw hraw
  obtain ⟨x, hx, rfl⟩ := mem_kept_marked xs raw hraw
  exact List.Subset.trans (trim_subset x)
    (List.Subset.trans (hcut.subset groups '.' _ xs x hx) (trim_subset e))

/-- A spelling parses when it balances and its segments parse. -/
theorem Segments.parse (h : Segments e raws) (he : Sound e) (segs : List Seg) :
    parse_expr (spell bind e) = .ok segs ↔
      (Level.start.run groups (spell false (trim_marked e)) = .start ∧ raws ≠ []) ∧
      List.Forall₂ (fun raw seg => parse_seg (parse_lit parse_expr) (spell bind raw) = .ok seg)
        raws segs := by
  obtain ⟨xs, hcut, rfl⟩ := h
  have hspell := hcut.spell groups '.' (by decide) bare_groups bind _ xs he.trim
  have hkept := kept_spell bind xs fun y hy => he.trim.mono _ y (hcut.subset groups '.' _ xs y hy)
  have hrun := run_spell groups bare_groups bind .start (trim_marked e) he.trim
  rw [parse_expr_ok, trim_spell bind e he]
  constructor
  · rintro ⟨parts, hparts, hstart, hne, hall⟩
    obtain rfl : parts = xs.map (spell bind) := by
      rw [← (cut_iff groups '.' plain_dot _ parts).mpr hparts]
      exact (cut_iff groups '.' plain_dot _ _).mpr hspell
    rw [hkept] at hne hall
    refine ⟨⟨hrun ▸ hstart, fun hnil => hne (by rw [hnil]; rfl)⟩, ?_⟩
    rwa [List.forall₂_map_left_iff] at hall
  · rintro ⟨⟨hstart, hne⟩, hall⟩
    refine ⟨xs.map (spell bind), hspell, hrun.trans hstart, ?_, ?_⟩
    · rw [hkept]
      simpa using hne
    · rwa [hkept, List.forall₂_map_left_iff]

theorem segments_marked (he : Sound e) : ∃ raws, Segments e raws := by
  obtain ⟨xs, hcut, -⟩ := cut_marked groups '.' (by decide) (trim_marked e) he.trim _
    (cut_cut groups '.' plain_dot _)
  exact ⟨_, xs, hcut, rfl⟩

end Segments

section Subscripts

/-- A marked text of bracketed groups, and their bodies. -/
inductive GroupsMarked : Marked → List Marked → Prop
  | nil : GroupsMarked [] []
  | cons (g after : Marked) (gs : List Marked) : Body (spell false g) →
      GroupsMarked (trim_marked after) gs →
      GroupsMarked (.char '[' :: (g ++ .char ']' :: after)) (trim_marked g :: gs)

theorem sound_group (g after : Marked) (h : Sound (.char '[' :: (g ++ .char ']' :: after))) :
    Sound g ∧ Sound after := by
  obtain ⟨hg, hafter⟩ := (Sound.append _ _).mp (h.cons _ _)
  exact ⟨hg, hafter.cons _ after⟩

theorem GroupsMarked.subset (x : Marked) (gs : List Marked) (h : GroupsMarked x gs) :
    ∀ g ∈ gs, g ⊆ x := by
  induction h with
  | nil => simp
  | cons g after gs _ _ ih =>
    have hg : g ⊆ .char '[' :: (g ++ .char ']' :: after) :=
      fun s hs => List.mem_cons_of_mem _ (List.mem_append_left _ hs)
    have hafter : after ⊆ .char '[' :: (g ++ .char ']' :: after) := fun s hs =>
      List.mem_cons_of_mem _ (List.mem_append_right g (List.mem_cons_of_mem _ hs))
    intro g' hg'
    rcases List.mem_cons.mp hg' with rfl | hmem
    · exact List.Subset.trans (trim_subset g) hg
    · exact List.Subset.trans (ih g' hmem) (List.Subset.trans (trim_subset after) hafter)

theorem body_spell (bind : Bool) (g : Marked) (hg : Sound g) :
    Body (spell bind g) ↔ Body (spell false g) := by
  rw [Body, Body, quiet_spell squares ']' (by decide) bare_squares bind .start g hg,
    run_spell squares bare_squares bind .start g hg]

theorem GroupsMarked.spell (bind : Bool) (x : Marked) (gs : List Marked) (h : GroupsMarked x gs)
    (hx : Sound x) : Groups (spell bind x) (gs.map (spell bind)) := by
  induction h with
  | nil => exact .nil
  | cons g after gs hbody _ ih =>
    obtain ⟨hg, hafter⟩ := sound_group g after hx
    have hrest := ih hafter.trim
    rw [← trim_spell bind after hafter] at hrest
    rw [List.map_cons, ← trim_spell bind g hg, spell_cons, spell_append, spell_cons]
    exact .cons _ _ _ ((body_spell bind g hg).mpr hbody) hrest

theorem groups_marked (x : Marked) (hx : Sound x) (gs : List (List Char))
    (h : Groups (spell false x) gs) : ∃ xs, GroupsMarked x xs ∧ gs = xs.map (spell false) := by
  generalize hs : Spellings.spell false x = s at h
  induction h generalizing x with
  | nil =>
    rw [spell_eq_nil false x hx] at hs
    exact ⟨[], by rw [hs]; exact .nil, rfl⟩
  | cons g after gs hbody _ ih =>
    obtain ⟨y, z, hsplit, hy, hz⟩ := spell_split false x hx '[' (by decide) [] _ hs
    obtain rfl : y = [] := (spell_eq_nil false y (by
      rw [hsplit] at hx
      exact ((Sound.append _ _).mp hx).1)).mp hy.symm
    obtain rfl := hsplit
    obtain ⟨g', after', rfl, rfl, rfl⟩ := spell_split false z (hx.cons _ z) ']' (by decide) g after
      hz.symm
    obtain ⟨hg, hafter⟩ := sound_group g' after' hx
    obtain ⟨xs, hxs, rfl⟩ := ih _ hafter.trim (trim_spell false after' hafter).symm
    refine ⟨trim_marked g' :: xs, .cons g' after' xs hbody hxs, ?_⟩
    rw [trim_spell false g' hg]
    rfl

/-- The head of a marked segment and the bodies of its subscripts. -/
def Segment (raw head : Marked) (gs : List Marked) : Prop :=
  ∃ h rest, raw = h ++ rest ∧ head = trim_marked h ∧ Quiet parens '[' .start (spell false h) ∧
    (rest = [] ∨ rest.head? = some (.char '[') ∧
      Level.start.run parens (spell false h) = .start) ∧
    GroupsMarked (trim_marked rest) gs

theorem Segment.subset (raw head : Marked) (gs : List Marked) (h : Segment raw head gs) :
    head ⊆ raw ∧ ∀ g ∈ gs, g ⊆ raw := by
  obtain ⟨h, rest, rfl, rfl, -, -, hgroups⟩ := h
  refine ⟨List.Subset.trans (trim_subset h) (List.subset_append_left h rest), fun g hg => ?_⟩
  have := hgroups.subset _ gs g hg
  exact List.Subset.trans this
    (List.Subset.trans (trim_subset rest) (List.subset_append_right h rest))

theorem Segment.split (bind : Bool) (raw head : Marked) (gs : List Marked) (h : Segment raw head gs)
    (hraw : Sound raw) :
    split_subscripts (spell bind raw) = .ok (spell bind head, gs.map (spell bind)) := by
  obtain ⟨h, rest, rfl, rfl, hquiet, hend, hgroups⟩ := h
  obtain ⟨hh, hrest⟩ := (Sound.append _ _).mp hraw
  apply (split_subscripts_ok _ _ _).mpr
  refine ⟨spell bind h, spell bind rest, spell_append bind h rest, (trim_spell bind h hh).symm,
    (quiet_spell parens '[' (by decide) bare_parens bind .start h hh).mpr hquiet, ?_, ?_⟩
  · rw [spell_eq_nil bind rest hrest, head_spell bind rest hrest '[' (by decide),
      run_spell parens bare_parens bind .start h hh]
    exact hend
  · rw [trim_spell bind rest hrest]
    exact hgroups.spell bind _ gs hrest.trim

theorem segment_marked (raw : Marked) (hraw : Sound raw) (head : List Char) (gs : List (List Char))
    (h : split_subscripts (spell false raw) = .ok (head, gs)) :
    ∃ head' gs', Segment raw head' gs' ∧ head = spell false head' ∧
      gs = gs'.map (spell false) := by
  obtain ⟨p, rest, hsplit, rfl, hquiet, hend, hgroups⟩ := (split_subscripts_ok _ _ _).mp h
  obtain ⟨x, y, rfl, rfl, rfl⟩ : ∃ x y, raw = x ++ y ∧ p = spell false x ∧
      rest = spell false y := by
    rcases hend with rfl | ⟨hopen, -⟩
    · exact ⟨raw, [], by simp, by rw [hsplit, List.append_nil], rfl⟩
    · obtain ⟨rest', rfl⟩ : ∃ rest', rest = '[' :: rest' := by
        obtain _ | ⟨c, rest'⟩ := rest
        · simp at hopen
        · exact ⟨rest', by rw [Option.some.inj hopen]⟩
      obtain ⟨x, y, rfl, rfl, rfl⟩ := spell_split false raw hraw '[' (by decide) p rest' hsplit
      exact ⟨x, .char '[' :: y, rfl, rfl, rfl⟩
  obtain ⟨hx, hy⟩ := (Sound.append _ _).mp hraw
  rw [trim_spell false y hy] at hgroups
  obtain ⟨gs', hgs, rfl⟩ := groups_marked _ hy.trim gs hgroups
  rw [spell_eq_nil false y hy, head_spell false y hy '[' (by decide)] at hend
  exact ⟨trim_marked x, gs', ⟨x, y, rfl, rfl, hquiet, hend, hgs⟩, trim_spell false x hx, rfl⟩

end Subscripts

section Calls

/-- A marked call, its name before the first parenthesis. -/
def Call (head before inside : Marked) : Prop :=
  head = before ++ .char '(' :: (inside ++ [.char ')']) ∧ .char '(' ∉ before

theorem Call.subset (head before inside : Marked) (h : Call head before inside) :
    before ⊆ head ∧ inside ⊆ head := by
  obtain ⟨rfl, -⟩ := h
  exact ⟨List.subset_append_left before _, fun s hs =>
    List.mem_append_right before (List.mem_cons_of_mem _ (List.mem_append_left _ hs))⟩

theorem Call.spelling (bind : Bool) (head before inside : Marked) (h : Call head before inside)
    (hhead : Sound head) :
    spell bind head = spell bind before ++ '(' :: (spell bind inside ++ [')']) ∧
      '(' ∉ spell bind before := by
  have hbefore := hhead.mono _ _ (h.subset _ _ _).1
  obtain ⟨rfl, hno⟩ := h
  refine ⟨by simp, ?_⟩
  rwa [mem_spell bind before hbefore '(' (by decide)]

theorem call_marked (head : Marked) (hhead : Sound head) (before inside : List Char)
    (h : spell false head = before ++ '(' :: (inside ++ [')'])) (hno : '(' ∉ before) :
    ∃ before' inside', Call head before' inside' ∧ before = spell false before' ∧
      inside = spell false inside' := by
  obtain ⟨x, y, rfl, rfl, hy⟩ := spell_split false head hhead '(' (by decide) before _ h
  obtain ⟨hx, hrest⟩ := (Sound.append _ _).mp hhead
  obtain ⟨z, t, rfl, rfl, ht⟩ := spell_split false y (hrest.cons _ y) ')' (by decide) inside []
    hy.symm
  obtain rfl : t = [] := (spell_eq_nil false t
    (((Sound.append _ _).mp (hrest.cons _ _)).2.cons _ t)).mp ht.symm
  rw [mem_spell false x hx '(' (by decide)] at hno
  exact ⟨x, z, ⟨rfl, hno⟩, rfl, rfl⟩

variable (inside : Marked)

/-- The arguments of a marked call. -/
def Args (ps : List Marked) : Prop :=
  trim_marked inside = [] ∧ ps = [] ∨
    trim_marked inside ≠ [] ∧ CutMarked parens ',' (trim_marked inside) ps

theorem Args.subset (ps : List Marked) (h : Args inside ps) : ∀ p ∈ ps, p ⊆ inside := by
  rcases h with ⟨-, rfl⟩ | ⟨-, hcut⟩
  · simp
  · exact fun p hp => List.Subset.trans (hcut.subset parens ',' _ ps p hp) (trim_subset inside)

theorem Args.parse (bind : Bool) (lit : List Char → Except String ArgLit) (inside : Marked)
    (ps : List Marked) (h : Args inside ps) (hinside : Sound inside) (args : List ArgLit) :
    parse_args lit (spell bind inside) = .ok args ↔
      List.Forall₂ (fun p a => lit (spell bind p) = .ok a) ps args := by
  have htrim := hinside.trim
  rw [parse_args_ok, trim_spell bind inside hinside, ne_eq, spell_eq_nil bind _ htrim]
  rcases h with ⟨hnil, rfl⟩ | ⟨hne, hcut⟩
  · simp [hnil]
  · have hspell := hcut.spell parens ',' (by decide) bare_parens bind _ ps htrim
    constructor
    · rintro (⟨hnil, -⟩ | ⟨-, qs, hqs, hall⟩)
      · exact absurd hnil hne
      · obtain rfl : qs = ps.map (spell bind) := by
          rw [← (cut_iff parens ',' plain_comma _ qs).mpr hqs]
          exact (cut_iff parens ',' plain_comma _ _).mpr hspell
        rwa [List.forall₂_map_left_iff] at hall
    · intro hall
      refine .inr ⟨hne, ps.map (spell bind), hspell, ?_⟩
      rwa [List.forall₂_map_left_iff]

theorem args_marked (hinside : Sound inside) : ∃ ps, Args inside ps := by
  by_cases hnil : trim_marked inside = []
  · exact ⟨[], .inl ⟨hnil, rfl⟩⟩
  · obtain ⟨ps, hcut, -⟩ := cut_marked parens ',' (by decide) (trim_marked inside) hinside.trim _
      (cut_cut parens ',' plain_comma _)
    exact ⟨ps, .inr ⟨hnil, hcut⟩⟩

end Calls

section Ranges

theorem split_range_some (before s a b : List Char) (h : split_range before s = some (a, b)) :
    ∃ a', a = before ++ a' ∧ s = a' ++ '.' :: '.' :: b := by
  fun_induction split_range before s with
  | case1 before rest =>
    obtain ⟨rfl, rfl⟩ := Prod.mk.inj (Option.some.inj h)
    exact ⟨[], by simp, rfl⟩
  | case2 before c rest hno ih =>
    obtain ⟨a', rfl, rfl⟩ := ih h
    exact ⟨c :: a', by simp, rfl⟩
  | case3 before => simp at h

theorem split_range_dots (before a b : List Char) :
    split_range before (a ++ '.' :: '.' :: b) ≠ none := by
  induction a generalizing before with
  | nil => simp [split_range]
  | cons c a ih =>
    rw [List.cons_append]
    unfold split_range
    split
    · simp
    · rename_i heq
      obtain ⟨rfl, rfl⟩ := List.cons.inj heq
      exact ih _
    · rename_i heq
      simp at heq

/-- Two dots stand in both spellings or in neither. -/
theorem split_range_spell (x : Marked) (hx : Sound x) (bind bind' : Bool)
    (h : split_range [] (spell bind x) = none) : split_range [] (spell bind' x) = none := by
  rcases hr : split_range [] (spell bind' x) with _ | ⟨a, b⟩
  · rfl
  · obtain ⟨a', -, hsplit⟩ := split_range_some [] _ a b hr
    obtain ⟨y, z, rfl, -, hz⟩ := spell_split bind' x hx '.' (by decide) a' _ hsplit
    have hz' := (((Sound.append _ _).mp hx).2.cons _ z)
    obtain ⟨y', z', rfl, hy', -⟩ := spell_split bind' z hz' '.' (by decide) [] b hz.symm
    obtain rfl := (spell_eq_nil bind' y' ((Sound.append _ _).mp hz').1).mp hy'.symm
    rw [spell_append] at h
    exact absurd h (split_range_dots [] (spell bind y) (spell bind z'))

end Ranges

section Comparisons

open BooleanTrees (OPS cut_here split_comparison split_comparison_loop)

theorem ops_plain : ∀ op ∈ OPS, ∀ c ∈ op, ¬ Inert c := by
  have hall : (OPS.all fun op => op.all fun c => decide (¬ Inert c)) = true := by decide
  intro op hop c hc
  exact of_decide_eq_true (List.all_eq_true.mp (List.all_eq_true.mp hall op hop) c hc)

/-- An operator is a prefix of both spellings or of neither. -/
theorem prefix_spell (bind : Bool) (op : List Char) (hop : ∀ c ∈ op, ¬ Inert c) (x : Marked)
    (hx : Sound x) : op.isPrefixOf (spell bind x) = (op.map Sym.char).isPrefixOf x := by
  induction op generalizing x with
  | nil => simp
  | cons c op ih =>
    have hc := hop c List.mem_cons_self
    obtain _ | ⟨s, x⟩ := x
    · rfl
    · rw [spell_cons]
      cases s with
      | char d =>
        rw [spell_char, List.singleton_append, List.map_cons, List.isPrefixOf_cons_cons,
          List.isPrefixOf_cons_cons, ih (fun d hd => hop d (List.mem_cons_of_mem c hd)) x
            (hx.cons _ x)]
        have hsame : (Sym.char c == Sym.char d) = (c == d) := by rw [Bool.eq_iff_iff]; simp
        rw [hsame]
      | word p b =>
        have hword := hx.word bind
        obtain ⟨d, w, hw⟩ := List.exists_cons_of_ne_nil hword.ne_nil
        have hd := inert_ne d c (hword.inert d (by rw [hw]; exact List.mem_cons_self)) hc
        rw [hw, List.cons_append, List.map_cons, List.isPrefixOf_cons_cons,
          List.isPrefixOf_cons_cons]
        have hword' : (Sym.char c == Sym.word p b) = false := beq_eq_false_iff_ne.mpr (by simp)
        rw [beq_eq_false_iff_ne.mpr hd.symm, hword', Bool.false_and, Bool.false_and]

def cut_here_marked (before x : Marked) : Option (Marked × List Char × Marked) :=
  OPS.findSome? fun op =>
    if (op.map Sym.char).isPrefixOf x then
      let left := trim_marked before
      let right := trim_marked (x.drop op.length)
      if left ≠ [] ∧ right ≠ [] then some (left, op, right) else none
    else none

def comparison_loop (depth : ℤ) (q : Quoted) (before : Marked) :
    Marked → Option (Marked × List Char × Marked)
  | [] => none
  | s :: rest =>
    let cut := if !q.inside ∧ depth = 0 ∧ s ≠ .char '"' ∧ s ≠ .char '\'' ∧ s ≠ .char '(' ∧
        s ≠ .char ')' then cut_here_marked before (s :: rest) else none
    match cut with
    | some parts => some parts
    | none =>
      let depth := if s = .char '(' ∧ !q.inside then depth + 1
        else if s = .char ')' ∧ !q.inside then depth - 1 else depth
      comparison_loop depth ((s.spell false).foldl Quoted.step q) (before ++ [s]) rest

/-- The comparison of a marked text. -/
def comparison (x : Marked) : Option (Marked × List Char × Marked) :=
  comparison_loop 0 .default [] x

variable (bind : Bool)

def spell_parts (parts : Marked × List Char × Marked) : List Char × List Char × List Char :=
  (spell bind parts.1, parts.2.1, spell bind parts.2.2)

theorem drop_spell (op : List Char) (x : Marked) (hx : Sound x)
    (h : (op.map Sym.char).isPrefixOf x = true) :
    (spell bind x).drop op.length = spell bind (x.drop op.length) := by
  obtain ⟨y, rfl⟩ := List.isPrefixOf_iff_prefix.mp h
  have hop : spell bind (op.map Sym.char) = op := by
    rw [spell, List.flatMap_map]
    exact List.flatMap_singleton' op
  rw [spell_append, hop, List.drop_left, List.drop_left' (by simp)]

theorem findSome?_congr {α β : Type} (f g : α → Option β) (l : List α) (h : ∀ a ∈ l, f a = g a) :
    l.findSome? f = l.findSome? g := by
  induction l with
  | nil => rfl
  | cons a l ih =>
    rw [List.findSome?_cons, List.findSome?_cons, h a List.mem_cons_self,
      ih fun b hb => h b (List.mem_cons_of_mem a hb)]

theorem cut_here_spell (before x : Marked) (hbefore : Sound before) (hx : Sound x) :
    cut_here (spell bind before) (spell bind x) =
      (cut_here_marked before x).map (spell_parts bind) := by
  rw [cut_here, cut_here_marked, List.map_findSome?]
  refine findSome?_congr _ _ OPS fun op hop => ?_
  rw [prefix_spell bind op (ops_plain op hop) x hx]
  by_cases hfront : (op.map Sym.char).isPrefixOf x = true
  · have hdrop : Sound (x.drop op.length) := fun p b hm => hx p b (List.mem_of_mem_drop hm)
    have hsides : (spell bind (trim_marked before) ≠ [] ∧
        spell bind (trim_marked (x.drop op.length)) ≠ []) ↔
          (trim_marked before ≠ [] ∧ trim_marked (x.drop op.length) ≠ []) := by
      rw [ne_eq, ne_eq, spell_eq_nil bind _ hbefore.trim, spell_eq_nil bind _ hdrop.trim]
    simp only [hfront, if_true, Function.comp]
    rw [trim_spell bind before hbefore, drop_spell bind op x hx hfront,
      trim_spell bind _ hdrop]
    by_cases hne : trim_marked before ≠ [] ∧ trim_marked (x.drop op.length) ≠ []
    · rw [if_pos (hsides.mpr hne), if_pos hne]
      rfl
    · rw [if_neg fun h => hne (hsides.mp h), if_neg hne]
      rfl
  · simp only [if_neg hfront, Function.comp]
    rfl

/-- No comparison starts in a word. -/
theorem comparison_word (depth : ℤ) (q : Quoted) (before w s : List Char) (hw : ∀ c ∈ w, Inert c) :
    split_comparison_loop depth q before (w ++ s) =
      split_comparison_loop depth (w.foldl Quoted.step q) (before ++ w) s := by
  induction w generalizing q before with
  | nil => simp
  | cons c w ih =>
    have hc := hw c List.mem_cons_self
    have hnone : cut_here before (c :: (w ++ s)) = none := by
      rw [cut_here, List.findSome?_eq_none_iff]
      intro op hop
      obtain _ | ⟨d, op'⟩ := op
      · exact absurd hop (by decide)
      · have hd := inert_ne c d hc (ops_plain _ hop d List.mem_cons_self)
        rw [List.isPrefixOf_cons_cons, beq_eq_false_iff_ne.mpr hd.symm]
        rfl
    have hopen := inert_ne c '(' hc (by decide)
    have hclose := inert_ne c ')' hc (by decide)
    rw [List.cons_append, split_comparison_loop, hnone, ite_self]
    dsimp only
    rw [if_neg (by simp [hopen]), if_neg (by simp [hclose]),
      ih _ _ fun d hd => hw d (List.mem_cons_of_mem c hd), List.append_assoc]
    rfl

theorem foldl_word (q : Quoted) (w : List Char) (hw : Word w) :
    w.foldl Quoted.step q = ⟨q.in_str, q.in_char, false⟩ := by
  have h := run_inert parens bare_parens ⟨0, q⟩ w hw
  have hq := run_quoted parens ⟨0, q⟩ w
  rw [h] at hq
  exact hq.symm

theorem comparison_loop_spell (depth : ℤ) (q : Quoted) (before x : Marked) (hbefore : Sound before)
    (hx : Sound x) :
    split_comparison_loop depth q (spell bind before) (spell bind x) =
      (comparison_loop depth q before x).map (spell_parts bind) := by
  induction x generalizing depth q before with
  | nil => rfl
  | cons s x ih =>
    have hone : Sound [s] := fun p b hm => hx p b (by
      rw [List.mem_singleton.mp hm]
      exact List.mem_cons_self)
    have hnext : Sound (before ++ [s]) := (Sound.append before [s]).mpr ⟨hbefore, hone⟩
    have hrest := fun depth q => ih depth q (before ++ [s]) hnext (hx.cons s x)
    rw [comparison_loop]
    cases s with
    | char c =>
      have hcut := cut_here_spell bind before (.char c :: x) hbefore hx
      rw [spell_cons, spell_char, List.singleton_append] at hcut ⊢
      rw [split_comparison_loop, hcut]
      simp only [spell_append, spell_cons, spell_char, spell_nil, List.append_nil] at hrest
      simp only [Sym.char.injEq, ne_eq, hrest, spell_char, List.foldl_cons, List.foldl_nil]
      by_cases hat : (!q.inside) = true ∧ depth = 0 ∧ ¬ c = '"' ∧ ¬ c = '\'' ∧ ¬ c = '(' ∧ ¬ c = ')'
      · rw [if_pos hat, if_pos hat]
        rcases cut_here_marked before (.char c :: x) with _ | parts
        · rfl
        · rfl
      · rw [if_neg hat, if_neg hat]
    | word p b =>
      have hword := hx.word bind
      have hnone : cut_here_marked before (.word p b :: x) = none := by
        rw [cut_here_marked, List.findSome?_eq_none_iff]
        intro op hop
        obtain _ | ⟨d, op'⟩ := op
        · exact absurd hop (by decide)
        · rw [if_neg]
          rw [List.map_cons, List.isPrefixOf_cons_cons, beq_eq_false_iff_ne.mpr (by simp)]
          simp
      rw [hnone, ite_self, spell_cons, comparison_word depth q _ _ _ hword.inert]
      simp only [spell_append, spell_cons, spell_nil, List.append_nil] at hrest
      rw [hrest, foldl_word q _ hword, foldl_word q _ (hx.word false)]
      simp

theorem comparison_spell (x : Marked) (hx : Sound x) :
    split_comparison (spell bind x) = (comparison x).map (spell_parts bind) :=
  comparison_loop_spell bind 0 .default [] x (fun _ _ h => absurd h (by simp)) hx

/-- The sides of a comparison stand on both sides of its operator. -/
theorem comparison_loop_split (depth : ℤ) (q : Quoted) (before x l r : Marked) (op : List Char)
    (h : comparison_loop depth q before x = some (l, op, r)) :
    ∃ y z, before ++ x = y ++ (op.map Sym.char ++ z) ∧ l = trim_marked y ∧ r = trim_marked z := by
  induction x generalizing depth q before with
  | nil => simp [comparison_loop] at h
  | cons s x ih =>
    rw [comparison_loop] at h
    dsimp only at h
    by_cases hat : (!q.inside) = true ∧ depth = 0 ∧ s ≠ .char '"' ∧ s ≠ .char '\'' ∧
        s ≠ .char '(' ∧ s ≠ .char ')'
    · rw [if_pos hat] at h
      rcases hcut : cut_here_marked before (s :: x) with _ | parts
      · rw [hcut] at h
        obtain ⟨y, z, hsplit, hsides⟩ := ih _ _ (before ++ [s]) h
        exact ⟨y, z, by rw [← hsplit]; simp, hsides⟩
      · rw [hcut] at h
        obtain rfl := Option.some.inj h
        obtain ⟨op', -, hfound⟩ := List.exists_of_findSome?_eq_some hcut
        dsimp only at hfound
        split_ifs at hfound with hfront hne
        obtain ⟨rfl, heq⟩ := Prod.mk.inj (Option.some.inj hfound)
        obtain ⟨rfl, rfl⟩ := Prod.mk.inj heq
        obtain ⟨z, hz⟩ := List.isPrefixOf_iff_prefix.mp hfront
        refine ⟨before, z, by rw [hz], rfl, ?_⟩
        rw [← hz, List.drop_left' (by simp)]
    · rw [if_neg hat] at h
      obtain ⟨y, z, hsplit, hsides⟩ := ih _ _ (before ++ [s]) h
      exact ⟨y, z, by rw [← hsplit]; simp, hsides⟩

theorem comparison_subset (x l r : Marked) (op : List Char) (h : comparison x = some (l, op, r)) :
    l ⊆ x ∧ r ⊆ x := by
  obtain ⟨y, z, hsplit, rfl, rfl⟩ := comparison_loop_split _ _ _ _ _ _ _ h
  rw [List.nil_append] at hsplit
  rw [hsplit]
  exact ⟨List.Subset.trans (trim_subset y) (List.subset_append_left y _),
    fun s hs => List.mem_append_right y (List.mem_append_right _ (trim_subset z hs))⟩

theorem comparison_length (x l r : Marked) (hx : Sound x) (op : List Char)
    (h : comparison x = some (l, op, r)) :
    (spell false l).length ≤ (spell false x).length ∧
      (spell false r).length ≤ (spell false x).length := by
  obtain ⟨y, z, hsplit, rfl, rfl⟩ := comparison_loop_split _ _ _ _ _ _ _ h
  rw [List.nil_append] at hsplit
  rw [hsplit] at hx
  have hy := ((Sound.append _ _).mp hx).1
  have hz := ((Sound.append _ _).mp ((Sound.append _ _).mp hx).2).2
  rw [← trim_spell false y hy, ← trim_spell false z hz, hsplit]
  simp only [spell_append, List.length_append]
  have := trim_length_le (spell false y)
  have := trim_length_le (spell false z)
  omega

end Comparisons

section Clauses

open BooleanTrees

variable (bind : Bool)

def split_marked (op : Char) (depth : ℤ) (in_str : Bool) (cur : Marked) : Marked → List Marked
  | [] => [trim_marked cur]
  | s :: rest =>
    if s = .char '"' then split_marked op depth (!in_str) (cur ++ [s]) rest
    else if (s = .char '(' ∨ s = .char '[') ∧ !in_str then
      split_marked op (depth + 1) in_str (cur ++ [s]) rest
    else if (s = .char ')' ∨ s = .char ']') ∧ !in_str then
      split_marked op (depth - 1) in_str (cur ++ [s]) rest
    else if !in_str ∧ depth = 0 ∧ s = .char op then
      match rest with
      | [] => [trim_marked (cur ++ [s])]
      | d :: rest' =>
        if d = .char op then trim_marked cur :: split_marked op depth in_str [] rest'
        else split_marked op depth in_str (cur ++ [s]) (d :: rest')
    else split_marked op depth in_str (cur ++ [s]) rest

/-- The parts of a marked text between the doubled operators. -/
def split_at (op : Char) (x : Marked) : List Marked := split_marked op 0 false [] x

variable (op : Char) (x : Marked)

variable (depth : ℤ)

variable (in_str : Bool)

theorem split_marked_cons (cur : Marked) (s : Sym) (rest : Marked) :
    split_marked op depth in_str cur (s :: rest) =
      if s = .char '"' then split_marked op depth (!in_str) (cur ++ [s]) rest
      else if (s = .char '(' ∨ s = .char '[') ∧ !in_str then
        split_marked op (depth + 1) in_str (cur ++ [s]) rest
      else if (s = .char ')' ∨ s = .char ']') ∧ !in_str then
        split_marked op (depth - 1) in_str (cur ++ [s]) rest
      else if !in_str ∧ depth = 0 ∧ s = .char op ∧ rest.head? = some (.char op) then
        trim_marked cur :: split_marked op depth in_str [] rest.tail
      else split_marked op depth in_str (cur ++ [s]) rest := by
  rw [split_marked.eq_def]
  simp only
  by_cases hop : (!in_str) = true ∧ depth = 0 ∧ s = .char op
  · cases rest with
    | nil => simp [hop, split_marked]
    | cons d rest' => simp [hop]
  · have hno : ¬ ((!in_str) = true ∧ depth = 0 ∧ s = .char op ∧ rest.head? = some (.char op)) :=
      fun h => hop ⟨h.1, h.2.1, h.2.2.1⟩
    rw [if_neg hop, if_neg hno]

theorem split_word (hop : ¬ Inert op) (depth : ℤ) (in_str : Bool) (cur w s : List Char)
    (hw : ∀ c ∈ w, Inert c) :
    split_bool_loop op depth in_str cur (w ++ s) =
      split_bool_loop op depth in_str (cur ++ w) s := by
  induction w generalizing cur with
  | nil => simp
  | cons c w ih =>
    have hne := fun d hd => inert_ne c d (hw c List.mem_cons_self) hd
    rw [List.cons_append, split_cons, if_neg (hne '"' (by decide)),
      if_neg (by simp [hne '(' (by decide), hne '[' (by decide)]),
      if_neg (by simp [hne ')' (by decide), hne ']' (by decide)]), if_neg (by simp [hne op hop]),
      ih _ fun d hd => hw d (List.mem_cons_of_mem c hd), List.append_assoc]
    rfl

theorem split_marked_spell (hop : ¬ Inert op) (depth : ℤ) (in_str : Bool) (cur x : Marked)
    (hcur : Sound cur) (hx : Sound x) :
    split_bool_loop op depth in_str (spell bind cur) (spell bind x) =
      (split_marked op depth in_str cur x).map (spell bind) := by
  induction hn : x.length using Nat.strong_induction_on generalizing depth in_str cur x with
  | h n ih =>
    obtain _ | ⟨s, rest⟩ := x
    · rw [split_marked, spell_nil, split_bool_loop, trim_spell bind cur hcur]
      rfl
    · have hone : Sound [s] := fun p b hm => hx p b (by
        rw [List.mem_singleton.mp hm]
        exact List.mem_cons_self)
      have hnext : Sound (cur ++ [s]) := (Sound.append cur [s]).mpr ⟨hcur, hone⟩
      have hgo := fun depth in_str => ih rest.length (by simp [← hn]) depth in_str (cur ++ [s]) rest
        hnext (hx.cons s rest) rfl
      rw [split_marked_cons]
      cases s with
      | char c =>
        simp only [spell_append, spell_cons, spell_char, spell_nil, List.append_nil] at hgo
        rw [spell_cons, spell_char, List.singleton_append, split_cons]
        simp only [Sym.char.injEq, head_spell bind rest (hx.cons _ rest) op hop, hgo]
        by_cases hat : (!in_str) = true ∧ depth = 0 ∧ c = op ∧ rest.head? = some (.char op)
        · obtain ⟨hin, hdepth, rfl, hhead⟩ := hat
          obtain ⟨rest', rfl⟩ : ∃ rest', rest = .char c :: rest' := by
            obtain _ | ⟨d, rest'⟩ := rest
            · simp at hhead
            · exact ⟨rest', by rw [Option.some.inj hhead]⟩
          have htail := ih rest'.length (by simp only [← hn, List.length_cons]; omega) depth in_str
            [] rest' (fun _ _ h => absurd h (by simp)) ((hx.cons _ _).cons _ rest') rfl
          rw [spell_nil] at htail
          rw [spell_cons, spell_char, List.singleton_append, List.tail_cons, List.tail_cons, htail,
            trim_spell bind cur hcur]
          split_ifs <;> rfl
        · rw [if_neg hat, if_neg hat]
          split_ifs <;> rfl
      | word p b =>
        have hword := hx.word bind
        simp only [spell_append, spell_cons, spell_nil, List.append_nil] at hgo
        rw [spell_cons, split_word op hop depth in_str _ _ _ hword.inert, hgo]
        simp

theorem split_at_spell (hop : ¬ Inert op) (x : Marked) (hx : Sound x) :
    split_bool (spell bind x) op = (split_at op x).map (spell bind) :=
  split_marked_spell bind op hop 0 false [] x (fun _ _ h => absurd h (by simp)) hx

theorem mem_split_marked (cur x : Marked) :
    ∀ y ∈ split_marked op depth in_str cur x, ∀ s ∈ y, s ∈ cur ++ x := by
  fun_induction split_marked op depth in_str cur x with
  | case1 depth in_str cur =>
    intro y hy s hs
    rw [List.mem_singleton.mp hy] at hs
    exact List.mem_append_left _ (trim_subset cur hs)
  | case5 depth in_str cur s h1 h2 h3 h4 =>
    intro y hy t ht
    rw [List.mem_singleton.mp hy] at ht
    exact trim_subset _ ht
  | case6 depth in_str cur s h1 h2 h3 h4 rest ih =>
    intro y hy t ht
    rcases List.mem_cons.mp hy with rfl | hmem
    · exact List.mem_append_left _ (trim_subset cur ht)
    · have := ih y hmem t ht
      exact List.mem_append_right _ (List.mem_cons_of_mem s (List.mem_cons_of_mem _ this))
  | _ =>
    rename_i ih
    intro y hy t ht
    have := ih y hy t ht
    simpa [List.append_assoc] using this

theorem split_at_subset (x : Marked) : ∀ y ∈ split_at op x, y ⊆ x :=
  fun y hy s hs => mem_split_marked op 0 false [] x y hy s hs

theorem enclose_word (w s : List Char) (hw : ∀ c ∈ w, Inert c) :
    parens_enclose_loop depth in_str (w ++ s) = parens_enclose_loop depth in_str s := by
  induction w with
  | nil => rfl
  | cons c w ih =>
    have hne := fun d hd => inert_ne c d (hw c List.mem_cons_self) hd
    rw [List.cons_append, parens_enclose_loop, if_neg (hne '"' (by decide)),
      if_neg (by simp [hne '(' (by decide)]), if_neg (by simp [hne ')' (by decide)]),
      ih fun d hd => hw d (List.mem_cons_of_mem c hd)]

theorem enclose_loop_spell (x : Marked) (hx : Sound x) :
    parens_enclose_loop depth in_str (spell bind x) =
      parens_enclose_loop depth in_str (spell false x) := by
  induction x generalizing depth in_str with
  | nil => rfl
  | cons s x ih =>
    have hrest := fun depth in_str => ih depth in_str (hx.cons s x)
    have hempty : (spell bind x).isEmpty = (spell false x).isEmpty := by
      rw [Bool.eq_iff_iff, List.isEmpty_iff, List.isEmpty_iff, spell_eq_nil bind x (hx.cons s x),
        spell_eq_nil false x (hx.cons s x)]
    rw [spell_cons, spell_cons]
    cases s with
    | char c =>
      rw [spell_char, spell_char, List.singleton_append, List.singleton_append,
        parens_enclose_loop, parens_enclose_loop]
      simp only [hrest, hempty]
    | word p b =>
      rw [enclose_word _ _ _ _ (hx.word bind).inert, enclose_word _ _ _ _ (hx.word false).inert,
        hrest]

theorem enclose_spell (hx : Sound x) :
    parens_enclose (spell bind x) = parens_enclose (spell false x) := by
  have hopen := head_spell bind x hx '(' (by decide)
  have hopen' := head_spell false x hx '(' (by decide)
  have hclose := last_spell bind x hx ')' (by decide)
  have hclose' := last_spell false x hx ')' (by decide)
  rw [parens_enclose, parens_enclose, enclose_loop_spell bind 0 false x hx]
  simp only [hopen, hopen', hclose, hclose']

/-- What is left of a marked text without the parentheses around it. -/
inductive Stripped : Marked → Marked → Prop
  | done (x : Marked) : parens_enclose (spell false x) = false → Stripped x x
  | more (x y : Marked) : parens_enclose (spell false x) = true →
      Stripped (trim_marked x.tail.dropLast) y → Stripped x y

theorem enclosed (hx : Sound x) (h : parens_enclose (spell false x) = true) :
    ∃ y, x = .char '(' :: (y ++ [.char ')']) := by
  rw [parens_enclose, Bool.and_eq_true, Bool.and_eq_true, decide_eq_true_eq, decide_eq_true_eq,
    head_spell false x hx '(' (by decide), last_spell false x hx ')' (by decide)] at h
  obtain ⟨⟨hopen, hclose⟩, -⟩ := h
  obtain _ | ⟨s, x⟩ := x
  · simp at hopen
  · obtain rfl := Option.some.inj hopen
    rcases List.eq_nil_or_concat x with rfl | ⟨y, s, rfl⟩
    · simp at hclose
    · rw [List.concat_eq_append, ← List.cons_append, List.getLast?_concat] at hclose
      rw [List.concat_eq_append, Option.some.inj hclose]
      exact ⟨y, rfl⟩

theorem inner_subset : trim_marked x.tail.dropLast ⊆ x := fun _ hs =>
  List.mem_of_mem_tail ((List.dropLast_sublist _).mem (trim_subset _ hs))

theorem Stripped.subset (x y : Marked) (h : Stripped x y) : y ⊆ x := by
  induction h with
  | done x _ => exact List.Subset.refl x
  | more x y _ _ ih => exact List.Subset.trans ih (inner_subset x)

theorem Stripped.unique (x y z : Marked) (h : Stripped x y) (h' : Stripped x z) : y = z := by
  induction h with
  | done x hno =>
    obtain _ | ⟨_, _, hyes, -⟩ := h'
    · rfl
    · rw [hno] at hyes
      simp at hyes
  | more x y hyes _ ih =>
    obtain ⟨_, hno⟩ | ⟨_, _, -, hrest⟩ := h'
    · rw [hno] at hyes
      simp at hyes
    · exact ih hrest

theorem Stripped.strip (x y : Marked) (h : Stripped x y) (hx : Sound x) (n : ℕ)
    (hn : (spell bind x).length ≤ n) : strip_loop n (spell bind x) = spell bind y := by
  induction h generalizing n with
  | done x hno =>
    rw [← enclose_spell bind x hx] at hno
    obtain _ | n := n
    · rfl
    · rw [strip_loop, if_neg (by simp [hno])]
  | more x y hyes _ ih =>
    have hinner := hx.mono _ _ (inner_subset x)
    obtain ⟨z, rfl⟩ := enclosed x hx hyes
    rw [← enclose_spell bind _ hx] at hyes
    have hz : Sound z := ((Sound.append _ _).mp (hx.cons _ _)).1
    rw [List.tail_cons, List.dropLast_concat] at ih hinner
    have htrim := trim_length_le (spell bind z)
    rw [trim_spell bind z hz] at htrim
    simp only [spell_cons, spell_append, spell_char, spell_nil, List.length_append,
      List.length_cons, List.length_nil, List.append_nil] at hn
    obtain _ | n := n
    · omega
    · have htext : inner_text (spell bind (.char '(' :: (z ++ [.char ')']))) = spell bind z := by
        simp [inner_text]
      rw [strip_loop, if_pos hyes, htext, trim_spell bind z hz]
      exact ih hinner n (by omega)

theorem stripped_exists (hx : Sound x) : ∃ y, Stripped x y := by
  induction hn : (spell false x).length using Nat.strong_induction_on generalizing x with
  | h n ih =>
    by_cases henc : parens_enclose (spell false x) = true
    · have hinner := hx.mono _ _ (inner_subset x)
      obtain ⟨z, rfl⟩ := enclosed x hx henc
      have hz : Sound z := ((Sound.append _ _).mp (hx.cons _ _)).1
      have htrim := trim_length_le (spell false z)
      rw [trim_spell false z hz] at htrim
      rw [List.tail_cons, List.dropLast_concat] at hinner
      simp only [spell_cons, spell_append, spell_char, spell_nil, List.length_append,
        List.length_cons, List.length_nil, List.append_nil] at hn
      obtain ⟨y, hy⟩ := ih _ (by omega) (trim_marked z) hinner rfl
      exact ⟨y, .more _ y henc (by rwa [List.tail_cons, List.dropLast_concat])⟩
    · exact ⟨x, .done x (by simpa using henc)⟩

def negated_marked (x : Marked) : Option Marked :=
  match x with
  | .char '!' :: rest =>
    if (rest.dropWhile blank).head? = some (.char '=') then none else some rest
  | _ => none

theorem negated_spell (hx : Sound x) :
    negated (spell bind x) = (negated_marked x).map (spell bind) := by
  have hother : ∀ (c : Char) (s : List Char), c ≠ '!' → negated (c :: s) = none := by
    intro c s hc
    unfold negated
    split
    · rename_i heq
      exact absurd (List.cons.inj heq).1 hc
    · rfl
  obtain _ | ⟨s, rest⟩ := x
  · rfl
  · cases s with
    | char c =>
      rw [spell_cons, spell_char, List.singleton_append]
      by_cases hc : c = '!'
      · subst hc
        have hdrop : Sound (rest.dropWhile blank) := fun p b hm =>
          hx p b (List.mem_cons_of_mem _ ((List.dropWhile_sublist blank).mem hm))
        have hhead := head_spell bind _ hdrop '=' (by decide)
        rw [← dropWhile_spell bind rest (hx.cons _ rest)] at hhead
        rw [negated, negated_marked]
        by_cases hat : (rest.dropWhile blank).head? = some (.char '=')
        · rw [if_pos (hhead.mpr hat), if_pos hat]
          rfl
        · rw [if_neg fun h => hat (hhead.mp h), if_neg hat]
          rfl
      · rw [hother c _ hc, negated_marked]
        · rfl
        · intro rest' heq
          exact hc (Sym.char.inj (List.cons.inj heq).1)
    | word p b =>
      have hword := hx.word bind
      obtain ⟨c, w, hw⟩ := List.exists_cons_of_ne_nil hword.ne_nil
      rw [spell_cons, hw, List.cons_append,
        hother c _ (inert_ne c '!' (hword.inert c (by rw [hw]; simp)) (by decide))]
      rfl

/-- A clause of a marked condition. -/
inductive Clause : Marked → Marked → Prop
  | leaf (x u : Marked) : Stripped (trim_marked x) u → (split_at '|' u).length ≤ 1 →
      (split_at '&' u).length ≤ 1 → negated_marked u = none → Clause x u
  | or (x u p y : Marked) : Stripped (trim_marked x) u → 1 < (split_at '|' u).length →
      p ∈ split_at '|' u → Clause p y → Clause x y
  | and (x u p y : Marked) : Stripped (trim_marked x) u → (split_at '|' u).length ≤ 1 →
      1 < (split_at '&' u).length → p ∈ split_at '&' u → Clause p y → Clause x y
  | not (x u rest y : Marked) : Stripped (trim_marked x) u → (split_at '|' u).length ≤ 1 →
      (split_at '&' u).length ≤ 1 → negated_marked u = some rest → Clause rest y → Clause x y

/-- Two trees of one shape whose leaves are related. -/
inductive SameShape {α β : Type} (R : α → β → Prop) : BoolTree α → BoolTree β → Prop
  | leaf (a : α) (b : β) : R a b → SameShape R (.leaf a) (.leaf b)
  | not (t : BoolTree α) (u : BoolTree β) : SameShape R t u → SameShape R (.not t) (.not u)
  | or (ts : List (BoolTree α)) (us : List (BoolTree β)) : List.Forall₂ (SameShape R) ts us →
      SameShape R (.or ts) (.or us)
  | and (ts : List (BoolTree α)) (us : List (BoolTree β)) : List.Forall₂ (SameShape R) ts us →
      SameShape R (.and ts) (.and us)

theorem negated_subset (x rest : Marked) (h : negated_marked x = some rest) : rest ⊆ x := by
  unfold negated_marked at h
  split at h
  · split_ifs at h
    obtain rfl := Option.some.inj h
    exact List.subset_cons_self _ _
  · simp at h

theorem Stripped.of_trim (x u : Marked) (h : Stripped (trim_marked x) u) : u ⊆ x :=
  List.Subset.trans (h.subset _ _) (trim_subset x)

/-- The trees of both spellings of a text, by what is left of it without parentheses. -/
theorem tree_spell (x u : Marked) (hx : Sound x) (h : Stripped (trim_marked x) u) :
    parse_bool_tree (spell bind x) =
      if 1 < (split_at '|' u).length then
        .or ((split_at '|' u).map fun p => parse_bool_tree (spell bind p))
      else if 1 < (split_at '&' u).length then
        .and ((split_at '&' u).map fun p => parse_bool_tree (spell bind p))
      else
        match negated_marked u with
        | some rest => .not (parse_bool_tree (spell bind rest))
        | none => .leaf (spell bind u) := by
  have hu := hx.mono _ _ (h.of_trim _ _)
  have hstrip : strip_enclosing_parens (trim (spell bind x)) = spell bind u := by
    rw [strip_enclosing_parens, trim_trim, trim_spell bind x hx]
    exact h.strip bind _ u hx.trim _ le_rfl
  rw [parse_bool_tree_eq, hstrip, split_at_spell bind '|' (by decide) u hu,
    split_at_spell bind '&' (by decide) u hu, negated_spell bind u hu, List.length_map,
    List.length_map, List.map_map, List.map_map]
  rcases negated_marked u with _ | rest
  · rfl
  · rfl

theorem stripped_length (x u : Marked) (hx : Sound x) (h : Stripped (trim_marked x) u) :
    (spell false u).length ≤ (spell false x).length := by
  have hstrip := h.strip false _ u hx.trim _ le_rfl
  have hlen := strip_loop_length (spell false (trim_marked x)).length (spell false (trim_marked x))
  have htrim := trim_length_le (spell false x)
  rw [hstrip] at hlen
  rw [trim_spell false x hx] at htrim
  exact hlen.trans htrim

theorem part_length (hop : ¬ Inert op) (u p : Marked) (hu : Sound u)
    (h : 1 < (split_at op u).length) (hp : p ∈ split_at op u) :
    (spell false p).length < (spell false u).length := by
  have hsplit := split_at_spell false op hop u hu
  refine split_part_lt (by rw [hsplit, List.length_map]; exact h) ?_
  rw [hsplit]
  exact List.mem_map_of_mem hp

theorem clause_iff (x u y : Marked) (hu : Stripped (trim_marked x) u) : Clause x y ↔
    if 1 < (split_at '|' u).length then ∃ p ∈ split_at '|' u, Clause p y
    else if 1 < (split_at '&' u).length then ∃ p ∈ split_at '&' u, Clause p y
    else match negated_marked u with
      | none => y = u
      | some rest => Clause rest y := by
  constructor
  · rintro (⟨_, _, hu', hor, hand, hneg⟩ | ⟨_, _, p, _, hu', hor, hp, h⟩ |
      ⟨_, _, p, _, hu', hor, hand, hp, h⟩ | ⟨_, _, rest, _, hu', hor, hand, hneg, h⟩)
    all_goals obtain rfl := hu.unique _ _ _ hu'
    · rw [if_neg (by omega), if_neg (by omega), hneg]
    · rw [if_pos hor]
      exact ⟨p, hp, h⟩
    · rw [if_neg (by omega), if_pos hand]
      exact ⟨p, hp, h⟩
    · rw [if_neg (by omega), if_neg (by omega), hneg]
      exact h
  · intro h
    split_ifs at h with hor hand
    · obtain ⟨p, hp, h⟩ := h
      exact .or x u p y hu hor hp h
    · obtain ⟨p, hp, h⟩ := h
      exact .and x u p y hu (not_lt.mp hor) hand hp h
    · cases hneg : negated_marked u with
      | none =>
        rw [hneg] at h
        exact h ▸ .leaf x u hu (not_lt.mp hor) (not_lt.mp hand) hneg
      | some rest =>
        rw [hneg] at h
        exact .not x u rest y hu (not_lt.mp hor) (not_lt.mp hand) hneg h

/-- The trees of the two spellings are of one shape, and their leaves are the clauses. -/
theorem same_shape_iff (R : List Char → List Char → Prop) (x : Marked) (hx : Sound x) :
    SameShape R (parse_bool_tree (spell false x)) (parse_bool_tree (spell true x)) ↔
      ∀ y, Clause x y → R (spell false y) (spell true y) := by
  induction hn : (spell false x).length using Nat.strong_induction_on generalizing x with
  | h n ih =>
    obtain ⟨u, hu⟩ := stripped_exists (trim_marked x) hx.trim
    have hlen := stripped_length x u hx hu
    have husound := hx.mono _ _ (hu.of_trim _ _)
    have hparts : ∀ op, ¬ Inert op → 1 < (split_at op u).length →
        (List.Forall₂ (SameShape R)
          ((split_at op u).map fun p => parse_bool_tree (spell false p))
          ((split_at op u).map fun p => parse_bool_tree (spell true p)) ↔
        ∀ p ∈ split_at op u, ∀ y, Clause p y → R (spell false y) (spell true y)) := by
      intro op hop hmany
      rw [List.forall₂_map_left_iff, List.forall₂_map_right_iff, List.forall₂_same]
      refine forall₂_congr fun p hp => ?_
      have := part_length op hop u p husound hmany hp
      exact ih _ (by omega) p (husound.mono _ _ (split_at_subset op u p hp)) rfl
    rw [tree_spell false x u hx hu, tree_spell true x u hx hu]
    by_cases hor : 1 < (split_at '|' u).length
    · rw [if_pos hor, if_pos hor]
      simp only [clause_iff x u _ hu, if_pos hor]
      constructor
      · rintro (_ | _ | ⟨_, _, hall⟩ | _) y ⟨p, hp, hy⟩
        exact (hparts '|' (by decide) hor).mp hall p hp y hy
      · intro h
        exact .or _ _ ((hparts '|' (by decide) hor).mpr fun p hp y hy => h y ⟨p, hp, hy⟩)
    · rw [if_neg hor, if_neg hor]
      by_cases hand : 1 < (split_at '&' u).length
      · rw [if_pos hand, if_pos hand]
        simp only [clause_iff x u _ hu, if_neg hor, if_pos hand]
        constructor
        · rintro (_ | _ | _ | ⟨_, _, hall⟩) y ⟨p, hp, hy⟩
          exact (hparts '&' (by decide) hand).mp hall p hp y hy
        · intro h
          exact .and _ _ ((hparts '&' (by decide) hand).mpr fun p hp y hy => h y ⟨p, hp, hy⟩)
      · rw [if_neg hand, if_neg hand]
        rcases hneg : negated_marked u with _ | rest
        · simp only [clause_iff x u _ hu, if_neg hor, if_neg hand, hneg]
          constructor
          · rintro (⟨_, _, hleaf⟩ | _ | _ | _) y rfl
            exact hleaf
          · exact fun h => .leaf _ _ (h u rfl)
        · simp only [clause_iff x u _ hu, if_neg hor, if_neg hand, hneg]
          have hrest := husound.mono _ _ (negated_subset u rest hneg)
          have hshorter : (spell false rest).length < (spell false u).length := by
            apply negated_lt
            rw [negated_spell false u husound, hneg]
            rfl
          rw [← ih _ (by omega) rest hrest rfl]
          constructor
          · rintro (_ | ⟨_, _, hnot⟩ | _ | _)
            exact hnot
          · exact .not _ _

theorem Clause.subset (x y : Marked) (h : Clause x y) : y ⊆ x := by
  induction h with
  | leaf x u hu _ _ _ => exact hu.of_trim _ _
  | or x u p y hu _ hp _ ih =>
    exact List.Subset.trans ih
      (List.Subset.trans (split_at_subset _ u p hp) (hu.of_trim _ _))
  | and x u p y hu _ _ hp _ ih =>
    exact List.Subset.trans ih
      (List.Subset.trans (split_at_subset _ u p hp) (hu.of_trim _ _))
  | not x u rest y hu _ _ hneg _ ih =>
    exact List.Subset.trans ih (List.Subset.trans (negated_subset u rest hneg) (hu.of_trim _ _))

theorem Clause.leaf_of (x y : Marked) (h : Clause x y) (hx : Sound x) :
    Pieces.LeafOf (spell false y) (parse_bool_tree (spell false x)) := by
  induction h with
  | leaf x u hu hor hand hneg =>
    rw [tree_spell false x u hx hu, if_neg (by omega), if_neg (by omega), hneg]
    exact .leaf
  | or x u p y hu hor hp _ ih =>
    have hps := (hx.mono _ _ (hu.of_trim _ _)).mono _ _ (split_at_subset _ u p hp)
    rw [tree_spell false x u hx hu, if_pos hor]
    exact .or _ _ (List.mem_map_of_mem hp) (ih hps)
  | and x u p y hu hor hand hp _ ih =>
    have hps := (hx.mono _ _ (hu.of_trim _ _)).mono _ _ (split_at_subset _ u p hp)
    rw [tree_spell false x u hx hu, if_neg (by omega), if_pos hand]
    exact .and _ _ (List.mem_map_of_mem hp) (ih hps)
  | not x u rest y hu hor hand hneg _ ih =>
    have hrest := (hx.mono _ _ (hu.of_trim _ _)).mono _ _ (negated_subset u rest hneg)
    rw [tree_spell false x u hx hu, if_neg (by omega), if_neg (by omega), hneg]
    exact .not _ (ih hrest)

theorem Clause.length_le (x y : Marked) (h : Clause x y) (hx : Sound x) :
    (spell false y).length ≤ (spell false x).length := by
  induction h with
  | leaf x u hu _ _ _ => exact stripped_length x u hx hu
  | or x u p y hu hor hp _ ih =>
    have hu' := hx.mono _ _ (hu.of_trim _ _)
    have := part_length '|' (by decide) u p hu' hor hp
    have := stripped_length x u hx hu
    have := ih (hu'.mono _ _ (split_at_subset _ u p hp))
    omega
  | and x u p y hu _ hand hp _ ih =>
    have hu' := hx.mono _ _ (hu.of_trim _ _)
    have := part_length '&' (by decide) u p hu' hand hp
    have := stripped_length x u hx hu
    have := ih (hu'.mono _ _ (split_at_subset _ u p hp))
    omega
  | not x u rest y hu _ _ hneg _ ih =>
    have hu' := hx.mono _ _ (hu.of_trim _ _)
    have hshorter : (spell false rest).length < (spell false u).length := by
      apply negated_lt
      rw [negated_spell false u hu', hneg]
      rfl
    have := stripped_length x u hx hu
    have := ih (hu'.mono _ _ (negated_subset u rest hneg))
    omega

end Clauses

end JavaDebug.MarkedTexts
