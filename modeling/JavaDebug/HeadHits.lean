import JavaDebug.HeadBindings

/-!
What the scan has to find. A condition whose sides parse has parts that parse, and
each part is shorter than the one it stands in, or plays a smaller role. So what
holds of the names and texts holds of the condition, and a condition is bound exactly
when the scan finds its heads and nothing else.
-/
namespace JavaDebug.HeadHits

open Addressing JavaValues Texts
open Expressions ParsedExpressions Spellings MarkedTexts
open LiteralTexts BoundHeads HeadBindings
open BooleanTrees (parse_bool_tree parse_bool_tree_eq split_comparison split_bool negated
  strip_enclosing_parens)

section Lengths

/-- The length of a part as it was written. -/
def size (x : Marked) : ℕ := (spell false x).length

theorem size_append (x y : Marked) : size (x ++ y) = size x + size y := by
  rw [size, spell_append, List.length_append]
  rfl

theorem size_char (c : Char) (x : Marked) : size (.char c :: x) = size x + 1 := by
  rw [size, spell_cons, spell_char, List.singleton_append, List.length_cons]
  rfl

theorem size_trim (x : Marked) (hx : Sound x) : size (trim_marked x) ≤ size x := by
  rw [size, ← trim_spell false x hx]
  exact trim_length_le _

theorem segments_size (e : Marked) (raws : List Marked) (he : Sound e) (h : Segments e raws) :
    ∀ raw ∈ raws, size raw ≤ size e := by
  obtain ⟨xs, hcut, rfl⟩ := h
  intro raw hraw
  obtain ⟨x, hx, rfl⟩ := mem_kept_marked xs raw hraw
  have hin := List.Subset.trans (hcut.subset groups '.' _ xs x hx) (trim_subset e)
  have hspell := hcut.spell groups '.' (by decide) bare_groups false _ xs he.trim
  calc size (trim_marked x) ≤ size x := size_trim x (he.mono _ _ hin)
    _ ≤ size (trim_marked e) := hspell.length_le groups '.' _ _ _ (List.mem_map_of_mem hx)
    _ ≤ size e := size_trim e he

theorem groups_size (x : Marked) (gs : List Marked) (h : GroupsMarked x gs) (hx : Sound x) :
    ∀ g ∈ gs, size g < size x := by
  induction h with
  | nil => simp
  | cons g after gs _ _ ih =>
    obtain ⟨hg, hafter⟩ := sound_group g after hx
    have hlen : size (.char '[' :: (g ++ .char ']' :: after)) = size g + size after + 2 := by
      rw [size_char, size_append, size_char]
      omega
    intro g' hg'
    rcases List.mem_cons.mp hg' with rfl | hmem
    · have := size_trim g hg
      omega
    · have := ih hafter.trim g' hmem
      have := size_trim after hafter
      omega

theorem segment_size (raw head : Marked) (gs : List Marked) (hraw : Sound raw)
    (h : Segment raw head gs) : size head ≤ size raw ∧ ∀ g ∈ gs, size g < size raw := by
  obtain ⟨front, rest, rfl, rfl, -, -, hgroups⟩ := h
  obtain ⟨hfront, hrest⟩ := (Sound.append _ _).mp hraw
  have hhead := size_trim front hfront
  have htail := size_trim rest hrest
  rw [size_append]
  refine ⟨by omega, fun g hg => ?_⟩
  have := groups_size _ gs hgroups hrest.trim g hg
  omega

theorem args_size (head before inside : Marked) (ps : List Marked) (hhead : Sound head)
    (h : Call head before inside) (hps : Args inside ps) : ∀ p ∈ ps, size p < size head := by
  have hinside := hhead.mono _ _ (h.subset _ _ _).2
  obtain ⟨rfl, -⟩ := h
  have hlen : size inside < size (before ++ .char '(' :: (inside ++ [.char ')'])) := by
    rw [size_append, size_char, size_append, size_char]
    omega
  rcases hps with ⟨-, rfl⟩ | ⟨-, hcut⟩
  · simp
  · intro p hp
    have hspell := hcut.spell parens ',' (by decide) bare_parens false _ ps hinside.trim
    have : size p ≤ size (trim_marked inside) :=
      hspell.length_le parens ',' _ _ _ (List.mem_map_of_mem hp)
    have := size_trim inside hinside
    omega

theorem predicate_size (g rest : Marked) (hg : Sound g) (h : trim_marked g = .char '?' :: rest) :
    size (trim_marked rest) < size g := by
  have hrest : Sound rest := by
    have := hg.trim
    rw [h] at this
    exact this.cons _ rest
  have hlen := size_trim g hg
  rw [h, size_char] at hlen
  have := size_trim rest hrest
  omega

end Lengths

section Parts

variable {heads : List (String × UInt64)}

theorem part_subset (x y : Marked) (r : Role) (h : Part heads x r y) : y ⊆ x := by
  induction h with
  | whole => exact List.Subset.refl x
  | left b c y l r op _ hclause hcmp ih =>
    exact List.Subset.trans (comparison_subset y l r op hcmp).1
      (List.Subset.trans (hclause.subset _ _) ih)
  | right b c y l r op _ hclause hcmp ih =>
    exact List.Subset.trans (comparison_subset y l r op hcmp).2
      (List.Subset.trans (hclause.subset _ _) ih)
  | alone b c y _ hclause _ ih => exact List.Subset.trans (hclause.subset _ _) ih
  | head e k raws _ hraws _ ih =>
    exact List.Subset.trans (hraws.subset _ _ k List.mem_cons_self) ih
  | member e k raw raws _ hraws _ hmem ih =>
    exact List.Subset.trans (hraws.subset _ _ raw (List.mem_cons_of_mem k hmem)) ih
  | segment b e raw raws _ hraws _ hmem ih =>
    exact List.Subset.trans (hraws.subset _ _ raw hmem) ih
  | name raw head gs _ hsegment _ ih =>
    exact List.Subset.trans (hsegment.subset _ _ _).1 ih
  | called raw head before inside gs _ hsegment hcall ih =>
    exact List.Subset.trans (hcall.subset _ _ _).1
      (List.Subset.trans (hsegment.subset _ _ _).1 ih)
  | argument raw head before inside p gs ps _ hsegment hcall hargs hp ih =>
    exact List.Subset.trans (hargs.subset _ _ p hp) (List.Subset.trans (hcall.subset _ _ _).2
      (List.Subset.trans (hsegment.subset _ _ _).1 ih))
  | subscript raw head g gs _ hsegment hg ih =>
    exact List.Subset.trans ((hsegment.subset _ _ _).2 g hg) ih
  | predicate g rest _ hrest _ ih | unread g rest _ hrest _ ih =>
    have hin : rest ⊆ g := fun s hs => trim_subset g (hrest ▸ List.mem_cons_of_mem _ hs)
    exact List.Subset.trans (trim_subset rest) (List.Subset.trans hin ih)
  | index g _ _ _ ih => exact List.Subset.trans (trim_subset g) ih
  | nested p e _ _ ih => exact List.Subset.trans (trim_subset p) ih
  | text p s _ _ ih => exact ih

theorem forall₂_left {α β : Type} {R : α → β → Prop} {xs : List α} {ys : List β}
    (h : List.Forall₂ R xs ys) : ∀ x ∈ xs, ∃ y, R x y := fun x hx =>
  (forall₂_source (R := flip R) ys xs h.flip x hx).imp fun _ h => h.2

theorem segment_valid (raw head : Marked) (gs : List Marked) (hraw : Sound raw)
    (h : Segment raw head gs) (hvalid : Valid .segment raw) :
    (∀ g ∈ gs, Valid .subscript g) ∧ ∀ before inside, Call head before inside →
      ∀ ps, Args inside ps → ∀ p ∈ ps, Valid .literal p := by
  obtain ⟨seg, hseg⟩ := hvalid
  obtain ⟨head', gs', subs, name, args, hsub, hsubs, hname, rfl⟩ := (parse_seg_ok _ _ _).mp hseg
  obtain ⟨rfl, rfl⟩ :=
    Prod.mk.inj (Except.ok.inj ((h.split false _ _ _ hraw).symm.trans hsub))
  rw [List.forall₂_map_left_iff] at hsubs
  refine ⟨forall₂_left hsubs, fun before inside hcall ps hps p hp => ?_⟩
  have hhead := hraw.mono _ _ (h.subset _ _ _).1
  have hspell := hcall.spelling false _ _ _ hhead
  rw [hspell.1] at hname
  obtain ⟨as, -, -, -, -, hparse⟩ := head_call _ _ _ _ _ hspell.2 hname
  have hinside := hhead.mono _ _ (hcall.subset _ _ _).2
  exact forall₂_left ((hps.parse false _ inside ps hinside as).mp hparse) p hp

theorem clause_reads (c y : Marked) (hc : Sound c) (h : Clause c y) (hreads : Reads (spell false c))
    :
    (∀ l op r, comparison y = some (l, op, r) → (∃ segs, parse_expr (spell false l) = .ok segs) ∧
      ∃ a, parse_lit parse_expr (spell false r) = .ok a) ∧
    (comparison y = none → ∃ segs, parse_expr (spell false y) = .ok segs) := by
  have hleaf := hreads _ (h.leaf_of _ _ hc)
  have hspell := comparison_spell false y (hc.mono _ _ (h.subset _ _))
  constructor
  · intro l op r hcmp
    rw [hcmp] at hspell
    rcases hleaf with ⟨hnone, -⟩ | ⟨l', op', r', segs, lit, hsome, hsegs, hlit⟩
    · rw [hspell] at hnone
      simp at hnone
    · obtain ⟨rfl, heq⟩ := Prod.mk.inj (Option.some.inj (hspell.symm.trans hsome))
      obtain ⟨-, rfl⟩ := Prod.mk.inj heq
      exact ⟨⟨segs, hsegs⟩, lit, hlit⟩
  · intro hcmp
    rw [hcmp] at hspell
    rcases hleaf with ⟨-, hsegs⟩ | ⟨l', op', r', segs, lit, hsome, -⟩
    · exact hsegs
    · rw [hspell] at hsome
      simp at hsome

theorem part_valid (x y : Marked) (r : Role) (hx : Sound x) (hreads : Reads (spell false x))
    (h : Part heads x r y) : Valid r y := by
  have hchain : ∀ e raws, Sound e → Segments e raws →
      (∃ segs, parse_expr (spell false e) = .ok segs) → ∀ raw ∈ raws, Valid .segment raw := by
    rintro e raws he hraws ⟨segs, hsegs⟩
    exact forall₂_left ((hraws.parse false _ _ he segs).mp hsegs).2
  induction h with
  | whole => exact hreads
  | left b c y l r op hc hclause hcmp ih =>
    exact ((clause_reads c y (hx.mono _ _ (part_subset _ _ _ hc)) hclause ih).1 l op r hcmp).1
  | right b c y l r op hc hclause hcmp ih =>
    exact ((clause_reads c y (hx.mono _ _ (part_subset _ _ _ hc)) hclause ih).1 l op r hcmp).2
  | alone b c y hc hclause hcmp ih =>
    exact (clause_reads c y (hx.mono _ _ (part_subset _ _ _ hc)) hclause ih).2 hcmp
  | head | name | called | unread | text => trivial
  | member e k raw raws he hraws _ hmem ih =>
    exact hchain e _ (hx.mono _ _ (part_subset _ _ _ he)) hraws ih raw (List.mem_cons_of_mem k hmem)
  | segment b e raw raws he hraws _ hmem ih =>
    exact hchain e _ (hx.mono _ _ (part_subset _ _ _ he)) hraws ih raw hmem
  | argument raw head before inside p gs ps hraw hsegment hcall hargs hp ih =>
    exact (segment_valid raw head gs (hx.mono _ _ (part_subset _ _ _ hraw)) hsegment ih).2
      before inside hcall ps hargs p hp
  | subscript raw head g gs hraw hsegment hg ih =>
    exact (segment_valid raw head gs (hx.mono _ _ (part_subset _ _ _ hraw)) hsegment ih).1 g hg
  | predicate g rest _ _ hread _ => exact hread
  | index g hg hno hsplit ih =>
    obtain ⟨sub, hsub⟩ := ih
    have hcases := (parse_subscript_ok _ _ _).mp hsub
    have hsound := hx.mono _ _ (part_subset _ _ _ hg)
    rw [trim_spell false g hsound] at hcases
    rcases hcases with ⟨rest, hrest, -⟩ | ⟨-, -, ⟨a, b, hsome, -⟩ | ⟨-, a, ha, -⟩⟩
    · refine absurd ((head_spell false _ hsound.trim '?' (by decide)).mp ?_) hno
      rw [hrest]
      rfl
    · rw [hsplit] at hsome
      simp at hsome
    · exact ⟨a, ha⟩
  | nested p e hp hlit ih =>
    have hcases := lit_cases _ _ _ hlit
    rw [trim_spell false p (hx.mono _ _ (part_subset _ _ _ hp))] at hcases
    rcases hcases with ⟨-, hkind⟩ | ⟨-, hkind⟩ | ⟨-, -, u, hkind⟩ | hnumber | ⟨-, -, -, hsegs⟩
    · simp at hkind
    · simp at hkind
    · simp at hkind
    · exact absurd rfl ((number_kind _ _ hnumber).2 _)
    · exact hsegs

end Parts

section Whole

variable {heads : List (String × UInt64)} (hheads : Reserved heads)

include hheads

theorem part_holds (x y : Marked) (r : Role) (hx : FromHeads heads x)
    (hreads : Reads (spell false x)) (hbound : Holds heads (.tree true) x) (h : Part heads x r y) :
    Holds heads r y := by
  have hfrom := fun {y r} (h : Part heads x r y) => hx.mono _ _ _ (part_subset _ _ _ h)
  have hvalid := fun {y r} (h : Part heads x r y) => part_valid _ _ _ (hx.sound hheads) hreads h
  induction h with
  | whole => exact hbound
  | left b c y l r op hc hclause hcmp ih =>
    exact (((tree_iff hheads b c (hfrom hc)).mp ih y hclause).1 l op r hcmp).1
  | right b c y l r op hc hclause hcmp ih =>
    exact (((tree_iff hheads b c (hfrom hc)).mp ih y hclause).1 l op r hcmp).2
  | alone b c y hc hclause hcmp ih =>
    exact ((tree_iff hheads b c (hfrom hc)).mp ih y hclause).2 hcmp
  | head e k raws he hraws hnamed ih =>
    exact (((chain_iff hheads true e (hfrom he) (hvalid he)).mp ih _ hraws).1 rfl hnamed k raws
      rfl).1
  | member e k raw raws he hraws hnamed hmem ih =>
    exact (((chain_iff hheads true e (hfrom he) (hvalid he)).mp ih _ hraws).1 rfl hnamed k raws
      rfl).2 raw hmem
  | segment b e raw raws he hraws hno hmem ih =>
    exact ((chain_iff hheads b e (hfrom he) (hvalid he)).mp ih _ hraws).2 hno raw hmem
  | name raw head gs hraw hsegment hno ih =>
    exact ((segment_iff hheads raw (hfrom hraw) (hvalid hraw)).mp ih head gs hsegment).1 hno
  | called raw head before inside gs hraw hsegment hcall ih =>
    exact (((segment_iff hheads raw (hfrom hraw) (hvalid hraw)).mp ih head gs hsegment).2.1
      before inside hcall).1
  | argument raw head before inside p gs ps hraw hsegment hcall hargs hp ih =>
    exact (((segment_iff hheads raw (hfrom hraw) (hvalid hraw)).mp ih head gs hsegment).2.1
      before inside hcall).2 ps hargs p hp
  | subscript raw head g gs hraw hsegment hg ih =>
    exact ((segment_iff hheads raw (hfrom hraw) (hvalid hraw)).mp ih head gs hsegment).2.2 g hg
  | predicate g rest hg hrest hread ih =>
    exact (((subscript_iff hheads g (hfrom hg) (hvalid hg)).mp ih).1 rest hrest).1 hread
  | unread g rest hg hrest hno ih =>
    exact (((subscript_iff hheads g (hfrom hg) (hvalid hg)).mp ih).1 rest hrest).2 hno
  | index g hg hno hsplit ih =>
    exact ((subscript_iff hheads g (hfrom hg) (hvalid hg)).mp ih).2 hno hsplit
  | nested p e hp hlit ih =>
    exact ((literal_iff hheads p (hfrom hp) (hvalid hp)).mp ih).1 e hlit
  | text p s hp hlit ih =>
    exact ((literal_iff hheads p (hfrom hp) (hvalid hp)).mp ih).2 s hlit

/-- Roles that stand in others of the same length. -/
def rank : Role → ℕ
  | .tree _ => 3
  | .chain _ => 1
  | .segment => 0
  | .subscript => 4
  | .literal => 2
  | .head => 0
  | .other => 0

/-- When the heads are found and nothing else is, every part is bound. -/
theorem part_of_hit (x : Marked) (hx : FromHeads heads x) (hreads : Reads (spell false x))
    (hhit : HeadsHit heads x) (r : Role) (y : Marked) (h : Part heads x r y) : Holds heads r y := by
  have hsound := hx.sound hheads
  induction hn : 5 * size y + rank r using Nat.strong_induction_on generalizing r y with
  | h n ih =>
    have hfrom := hx.mono _ _ _ (part_subset _ _ _ h)
    have hy := hsound.mono _ _ (part_subset _ _ _ h)
    have hvalid := part_valid _ _ _ hsound hreads h
    have hpart : ∀ r' y', Part heads x r' y' → 5 * size y' + rank r' < n → Holds heads r' y' :=
      fun r' y' h' hlt => ih _ hlt r' y' h' rfl
    cases r with
    | head => exact hhit.found y h
    | other => exact hhit.nothing_else y h
    | tree b =>
      refine (tree_iff hheads b y hfrom).mpr fun z hz => ?_
      have hlen : size z ≤ size y := hz.length_le _ _ hy
      refine ⟨fun l op r hcmp => ?_, fun hcmp => ?_⟩
      · obtain ⟨hl, hr⟩ := comparison_length z l r (hy.mono _ _ (hz.subset _ _)) op hcmp
        change size l ≤ size z at hl
        change size r ≤ size z at hr
        refine ⟨hpart _ l (.left b y z l r op h hz hcmp) ?_,
          hpart _ r (.right b y z l r op h hz hcmp) ?_⟩
        all_goals simp only [← hn, rank]; omega
      · refine hpart _ z (.alone b y z h hz hcmp) ?_
        simp only [← hn, rank]
        omega
    | chain b =>
      refine (chain_iff hheads b y hfrom hvalid).mpr fun raws hraws => ⟨?_, fun hno raw hmem => ?_⟩
      · rintro rfl hnamed k rest rfl
        refine ⟨hhit.found k (.head y k rest h hraws hnamed), fun raw hmem => ?_⟩
        have hlen := segments_size y _ hy hraws raw (List.mem_cons_of_mem k hmem)
        refine hpart _ raw (.member y k raw rest h hraws hnamed hmem) ?_
        simp only [← hn, rank]
        omega
      · have hlen := segments_size y _ hy hraws raw hmem
        refine hpart _ raw (.segment b y raw raws h hraws hno hmem) ?_
        simp only [← hn, rank]
        omega
    | segment =>
      refine (segment_iff hheads y hfrom hvalid).mpr fun head gs hsegment => ?_
      obtain ⟨hhead, hgs⟩ := segment_size y head gs hy hsegment
      refine ⟨fun hno => hhit.nothing_else head (.name y head gs h hsegment hno),
        fun before inside hcall => ⟨hhit.nothing_else before
          (.called y head before inside gs h hsegment hcall), fun ps hps p hp => ?_⟩,
        fun g hg => ?_⟩
      · have := args_size head before inside ps (hy.mono _ _ (hsegment.subset _ _ _).1) hcall hps p
          hp
        refine hpart _ p (.argument y head before inside p gs ps h hsegment hcall hps hp) ?_
        simp only [← hn, rank]
        omega
      · have := hgs g hg
        refine hpart _ g (.subscript y head g gs h hsegment hg) ?_
        simp only [← hn, rank]
        omega
    | subscript =>
      refine (subscript_iff hheads y hfrom hvalid).mpr ⟨fun rest hrest => ⟨fun hread => ?_,
        fun hno => hhit.nothing_else _ (.unread y rest h hrest hno)⟩, fun hno hsplit => ?_⟩
      · have := predicate_size y rest hy hrest
        refine hpart _ _ (.predicate y rest h hrest hread) ?_
        simp only [← hn, rank]
        omega
      · have := size_trim y hy
        refine hpart _ _ (.index y h hno hsplit) ?_
        simp only [← hn, rank]
        omega
    | literal =>
      refine (literal_iff hheads y hfrom hvalid).mpr ⟨fun e hlit => ?_,
        fun s hlit => hhit.nothing_else y (.text y s h hlit)⟩
      have := size_trim y hy
      refine hpart _ _ (.nested y e h hlit) ?_
      simp only [← hn, rank]
      omega

omit hheads in
theorem head_here_some (rest : List Char) (name : String) (id : UInt64)
    (h : head_here heads rest = some (name, id)) :
    (name, id) ∈ heads ∧ ∃ more, rest = name.toList ++ '.' :: more := by
  have hhere : (name.toList ++ ['.']).isPrefixOf rest = true := by
    simpa using List.find?_some h
  obtain ⟨more, hmore⟩ := List.isPrefixOf_iff_prefix.mp hhere
  exact ⟨List.mem_of_find?_eq_some h, more, by rw [← hmore, List.append_assoc]; rfl⟩

omit hheads in
theorem hit_here_some (prev : Option Char) (q : Quoted) (rest : List Char) (name : String)
    (id : UInt64) (h : hit_here heads prev q rest = some (name, id)) :
    (name, id) ∈ heads ∧ ∃ more, rest = name.toList ++ '.' :: more := by
  rw [hit_here] at h
  split_ifs at h
  exact head_here_some rest name id h

/-- The marks of the scan are over the text that it reads. -/
theorem mark_plain (fuel : ℕ) (prev : Option Char) (q : Quoted) (rest : List Char)
    (h : rest.length ≤ fuel) : spell false (mark_loop heads fuel prev q rest) = rest := by
  induction fuel generalizing prev q rest with
  | zero => rw [List.length_eq_zero_iff.mp (Nat.le_zero.mp h), mark_loop, spell_nil]
  | succ fuel ih =>
    obtain _ | ⟨c, rest⟩ := rest
    · rw [mark_loop, spell_nil]
    · rw [List.length_cons] at h
      rw [mark_loop]
      rcases hhit : hit_here heads prev q (c :: rest) with _ | ⟨name, id⟩
      · dsimp only
        rw [spell_cons, spell_char, ih _ _ rest (by omega), List.singleton_append]
      · obtain ⟨hmem, more, hmore⟩ := hit_here_some prev q _ name id hhit
        have hlong : 8 ≤ name.toList.length := (name_facts hheads _ hmem).2.2.1
        have hdrop : (c :: rest).drop name.toList.length = '.' :: more := by
          rw [hmore, List.drop_left]
        have hlen := congrArg List.length hmore
        simp only [List.length_cons, List.length_append] at hlen
        dsimp only
        rw [spell_cons, hdrop, ih _ _ _ (by rw [List.length_cons]; omega), hmore]
        rfl

omit hheads in
/-- The handles of the scan make the text that binding returns. -/
theorem mark_bound (fuel : ℕ) (prev : Option Char) (q : Quoted) (rest : List Char) :
    spell true (mark_loop heads fuel prev q rest) = bind_loop heads fuel prev q rest := by
  induction fuel generalizing prev q rest with
  | zero => rw [mark_loop, bind_loop, spell_nil]
  | succ fuel ih =>
    obtain _ | ⟨c, rest⟩ := rest
    · rw [mark_loop, bind_loop, spell_nil]
    · rw [mark_loop, bind_loop]
      rcases hit_here heads prev q (c :: rest) with _ | ⟨name, id⟩
      · dsimp only
        rw [spell_cons, spell_char, ih, List.singleton_append]
      · dsimp only
        rw [spell_cons, ih]
        rfl

omit hheads in
theorem mark_from (fuel : ℕ) (prev : Option Char) (q : Quoted) (rest : List Char) :
    FromHeads heads (mark_loop heads fuel prev q rest) := by
  induction fuel generalizing prev q rest with
  | zero => simp [mark_loop, FromHeads]
  | succ fuel ih =>
    obtain _ | ⟨c, rest⟩ := rest
    · simp [mark_loop, FromHeads]
    · rw [mark_loop]
      intro p b hmem
      rcases hhit : hit_here heads prev q (c :: rest) with _ | ⟨name, id⟩
      · simp only [hhit] at hmem
        exact ih _ _ rest p b (by simpa using hmem)
      · simp only [hhit] at hmem
        rcases List.mem_cons.mp hmem with heq | hlater
        · obtain ⟨rfl, rfl⟩ := Sym.word.inj heq
          exact ⟨_, (hit_here_some prev q _ name id hhit).1, rfl, rfl⟩
        · exact ih _ _ _ p b hlater

omit hheads in
theorem hits_bound (s : List Char) : spell true (hits heads s) = bind_object_heads heads s :=
  mark_bound s.length none .default s

end Whole

/-- A condition whose leaves parse is bound exactly when the scan finds the heads that a member
follows, and finds nothing in any other name, string or unread predicate. -/
theorem condition_bound_iff (b : ConditionBindings) (s : List Char) (h : Reads s) :
    ConditionBound b.object_heads s (bind_object_heads b.object_heads s) ↔
      HeadsHit b.object_heads (hits b.object_heads s) := by
  have hheads := reserved_heads b
  have hfrom : FromHeads b.object_heads (hits b.object_heads s) := mark_from _ _ _ s
  have hplain : spell false (hits b.object_heads s) = s := mark_plain hheads _ _ _ s le_rfl
  have hbound : spell true (hits b.object_heads s) = _ := hits_bound s
  have hwhole : ConditionBound b.object_heads s (bind_object_heads b.object_heads s) ↔
      Holds b.object_heads (.tree true) (hits b.object_heads s) := by
    rw [Holds, hplain, hbound]
    rfl
  have hreads : Reads (spell false (hits b.object_heads s)) := by rwa [hplain]
  rw [hwhole]
  constructor
  · intro hholds
    exact ⟨fun k hk => part_holds hheads _ k _ hfrom hreads hholds hk,
      fun y hy => part_holds hheads _ y _ hfrom hreads hholds hy⟩
  · exact fun hhit => part_of_hit hheads _ hfrom hreads hhit _ _ .whole

theorem one_leaf (s : List Char) (hstrip : strip_enclosing_parens (trim s) = s)
    (hor : (split_bool s '|').length ≤ 1) (hand : (split_bool s '&').length ≤ 1)
    (hneg : negated s = none) : parse_bool_tree s = .leaf s := by
  rw [parse_bool_tree_eq, hstrip, if_neg (by omega), if_neg (by omega), hneg]

theorem leaf_reads (s l op r : List Char) (segs : List Seg) (lit : ArgLit)
    (htree : parse_bool_tree s = .leaf s) (hsplit : split_comparison s = some (l, op, r))
    (hl : parse_expr l = .ok segs) (hr : parse_lit parse_expr r = .ok lit) : Reads s := by
  intro a ha
  rw [htree] at ha
  obtain _ | _ := ha
  exact .inr ⟨l, op, r, segs, lit, hsplit, hl, hr⟩

theorem head_replaced (heads : List (String × UInt64)) (segs segs' : List Seg)
    (hhead : HeadBound heads segs) (h : ChainBound heads true segs segs') :
    ∃ id rest, segs' = ⟨String.ofList (handle_text id), none, []⟩ :: rest := by
  obtain ⟨hd, member, more, segs', -, -⟩ | ⟨_, _, _, hno, -⟩ := h
  · exact ⟨hd.2, segs', rfl⟩
  · exact absurd ⟨rfl, hhead⟩ hno

def thrown : ConditionBindings := ⟨some 31, none⟩

/-- The code of a thrown exception is compared. -/
def code_is : List Char := "exception.code == 3".toList

def handle_is : List Char := "@0x1f.code == 3".toList

theorem code_is_bound : parse_bool_tree code_is = .leaf code_is ∧
    parse_bool_tree handle_is = .leaf handle_is ∧
    bind_object_heads thrown.object_heads code_is = handle_is := by
  refine ⟨?_, ?_, by decide +kernel⟩
  · exact one_leaf _ (by decide +kernel) (by decide +kernel) (by decide +kernel) (by decide +kernel)
  · exact one_leaf _ (by decide +kernel) (by decide +kernel) (by decide +kernel) (by decide +kernel)

theorem code_is_hit : HeadsHit thrown.object_heads (hits thrown.object_heads code_is) := by
  obtain ⟨hcode, hhandle, hbound⟩ := code_is_bound
  have hreads : Reads code_is := leaf_reads _ "exception.code".toList "==".toList "3".toList
    [⟨"exception", none, []⟩, ⟨"code", none, []⟩] (.int 3) hcode rfl rfl rfl
  refine (condition_bound_iff thrown code_is hreads).mp ?_
  rw [hbound, ConditionBound, hcode, hhandle]
  refine .leaf _ _ (.compared true _ _ "exception.code".toList "@0x1f.code".toList "==".toList
    "3".toList "3".toList [⟨"exception", none, []⟩, ⟨"code", none, []⟩]
    [⟨"@0x1f", none, []⟩, ⟨"code", none, []⟩] (.int 3) (.int 3) rfl rfl rfl rfl ?_ rfl rfl
    (.same _ (by simp)))
  exact .head ("exception", 31) _ [] _ (by decide +kernel) (.cons (.name _ _ _ .nil) .nil)

/-- A blank before the dot. -/
def spaced : List Char := "exception .code == 3".toList

/-- The scan wants the dot right after the name, the parser does not. -/
theorem spaced_not_bound : ¬ ∀ (b : ConditionBindings) (s : List Char), Reads s →
    ConditionBound b.object_heads s (bind_object_heads b.object_heads s) := by
  intro hall
  have htree : parse_bool_tree spaced = .leaf spaced :=
    one_leaf _ (by decide +kernel) (by decide +kernel) (by decide +kernel) (by decide +kernel)
  have hsplit : split_comparison spaced =
      some ("exception .code".toList, "==".toList, "3".toList) := rfl
  have hexpr : parse_expr "exception .code".toList =
      .ok [⟨"exception", none, []⟩, ⟨"code", none, []⟩] := rfl
  have hbound := hall thrown spaced (leaf_reads _ _ _ _ _ _ htree hsplit hexpr rfl)
  have hsame : bind_object_heads thrown.object_heads spaced = spaced := by decide +kernel
  rw [hsame, ConditionBound, htree] at hbound
  obtain ⟨_, _, hleaf⟩ | _ := hbound
  obtain ⟨_, _, _, _, _, _, _, _, segs, segs', _, _, h1, h2, h3, h4, h5, -⟩ |
    ⟨_, _, _, _, _, h1, -⟩ := hleaf
  · obtain ⟨rfl, -⟩ := Prod.mk.inj (Option.some.inj (hsplit.symm.trans h1))
    obtain ⟨rfl, -⟩ := Prod.mk.inj (Option.some.inj (hsplit.symm.trans h2))
    obtain rfl := Except.ok.inj (hexpr.symm.trans h3)
    obtain rfl := Except.ok.inj (hexpr.symm.trans h4)
    have hhead : HeadBound thrown.object_heads [⟨"exception", none, []⟩, ⟨"code", none, []⟩] :=
      ⟨("exception", 31), by decide +kernel, _, _, rfl⟩
    obtain ⟨id, rest, heq⟩ := head_replaced _ _ _ hhead h5
    have hname := congrArg String.toList (Seg.mk.inj (List.cons.inj heq).1).1
    rw [@String.toList_ofList (handle_text id)] at hname
    have hfirst : some 'e' = some '@' := congrArg List.head? hname
    exact absurd hfirst (by decide)
  · rw [hsplit] at h1
    simp at h1

end JavaDebug.HeadHits
