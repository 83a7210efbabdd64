import JavaDebug.BoundHeads
import JavaDebug.FinalSubscripts
import JavaDebug.LiteralTexts

/-!
Binding rewrites heads and nothing else exactly when the scan finds what the parser
takes for a head. Every part of a condition is bound as its parts are, from the
clauses down to the names and texts: a name that is bound has to be found as it
stands, and in every other name, string and unread predicate nothing may be found.
-/
namespace JavaDebug.HeadBindings

open Addressing JavaValues Texts Levels
open Expressions ParsedExpressions Spellings MarkedTexts
open LiteralTexts BoundHeads
open BooleanTrees (BoolTree parse_bool_tree split_comparison inner_text)
open FinalSubscripts (handle_digits)

section Handles

theorem hex_value_append (acc : ℕ) (s : List Char) (c : Char) :
    hex_value acc (s ++ [c]) =
      (hex_value acc s).bind fun v => (hex_digit c).map fun d => v * 16 + d := by
  induction s generalizing acc with
  | nil =>
    rw [List.nil_append, hex_value, hex_value]
    rcases hex_digit c with _ | d
    · rfl
    · rfl
  | cons e s ih =>
    rw [List.cons_append, hex_value, hex_value]
    rcases hex_digit e with _ | d
    · rfl
    · exact ih _

theorem hex_digitChar : ∀ d < 16, hex_digit (Nat.digitChar d) = some d := by decide

/-- The digits that are printed are the digits that are read. -/
theorem hex_value_toDigits (n : ℕ) : hex_value 0 (Nat.toDigits 16 n) = some n := by
  induction n using Nat.strong_induction_on with
  | h n ih =>
    rw [Nat.toDigits_eq_if (by decide)]
    split_ifs with hn
    · rw [hex_value, hex_digitChar n hn]
      simp [hex_value]
    · rw [hex_value_append, ih (n / 16) (by omega), hex_digitChar _ (Nat.mod_lt n (by decide))]
      simp only [Option.bind_some, Option.map_some, Option.some.injEq]
      omega

theorem digits_hex (n : ℕ) : ∀ c ∈ Nat.toDigits 16 n, (hex_digit c).isSome :=
  hex_chars 0 n _ (hex_value_toDigits n)

theorem hex_inert (c : Char) (h : (hex_digit c).isSome) : Inert c := by
  have hcode : (48 ≤ c.toNat ∧ c.toNat ≤ 57) ∨ (97 ≤ c.toNat ∧ c.toNat ≤ 102) ∨
      (65 ≤ c.toNat ∧ c.toNat ≤ 70) := by
    rw [hex_digit] at h
    split_ifs at h with h1 h2 h3
    · exact .inl h1
    · exact .inr (.inl h2)
    · exact .inr (.inr h3)
    · simp at h
  refine .inl ((alphanum_iff c).mpr ?_)
  omega

theorem parse_handle (id : UInt64) : parse_object_handle (handle_text id) = some id.toNat := by
  have hne : Nat.toDigits 16 id.toNat ≠ [] := Nat.toDigits_ne_nil
  have hall : ((Nat.toDigits 16 id.toNat).all fun c => (hex_digit c).isSome) = true :=
    List.all_eq_true.mpr (digits_hex id.toNat)
  have hplus : (Nat.toDigits 16 id.toNat).head? ≠ some '+' := by
    intro h
    have := digits_hex id.toNat '+' (List.mem_of_head? h)
    exact absurd this (by decide)
  have hstrip : strip_prefix ['@', '0', 'x'] (handle_text id) = some (Nat.toDigits 16 id.toNat) :=
    rfl
  have hradix : from_str_radix_16 (Nat.toDigits 16 id.toNat) = some id.toNat := by
    rw [from_str_radix_16, if_neg hplus, if_neg hne, hex_value_toDigits]
    exact if_pos id.toNat_lt
  rw [parse_object_handle, hstrip, Option.some_or, Option.bind_some, hall]
  simp [hne, hradix]

end Handles

section Names

/-- The objects that a condition may name, each by a name of its own. -/
structure Reserved (heads : List (String × UInt64)) : Prop where
  names : ∀ h ∈ heads, h.1 = "exception" ∨ h.1 = "newValue"
  once : ∀ h ∈ heads, ∀ h' ∈ heads, h.1 = h'.1 → h = h'

theorem reserved_heads (b : ConditionBindings) : Reserved b.object_heads := by
  have hmem : ∀ h ∈ b.object_heads, (h.1 = "exception" ∧ b.exception = some h.2) ∨
      (h.1 = "newValue" ∧ b.new_value.map (fun v => v.data) = some (.object h.2)) := by
    intro h hh
    rcases List.mem_append.mp hh with hexc | hnew
    · obtain ⟨id, hid, rfl⟩ := Option.map_eq_some_iff.mp (Option.mem_toList.mp hexc)
      exact .inl ⟨rfl, hid⟩
    · split at hnew
      · rename_i id heq
        split_ifs at hnew
        · rw [List.mem_singleton.mp hnew]
          exact .inr ⟨rfl, heq⟩
        · simp at hnew
      · simp at hnew
  refine ⟨fun h hh => (hmem h hh).imp And.left And.left, fun h hh h' hh' heq => ?_⟩
  refine Prod.ext heq ?_
  rcases hmem h hh with ⟨hn, hv⟩ | ⟨hn, hv⟩
  all_goals rcases hmem h' hh' with ⟨hn', hv'⟩ | ⟨hn', hv'⟩
  · exact Option.some.inj (hv.symm.trans hv')
  · rw [hn, hn'] at heq
    exact absurd heq (by decide)
  · rw [hn, hn'] at heq
    exact absurd heq (by decide)
  · rw [hv] at hv'
    simpa using hv'

/-- Every mark of the text is a head that is bound. -/
def FromHeads (heads : List (String × UInt64)) (x : Marked) : Prop :=
  ∀ plain bound, .word plain bound ∈ x →
    ∃ h ∈ heads, plain = h.1.toList ∧ bound = handle_text h.2

theorem FromHeads.mono (heads : List (String × UInt64)) (x y : Marked) (h : FromHeads heads x)
    (hsub : y ⊆ x) : FromHeads heads y := fun p b hm => h p b (hsub hm)

theorem handle_word (id : UInt64) : Word (handle_text id) := by
  refine ⟨by simp [handle_text], fun c hc => ?_⟩
  rcases List.mem_append.mp hc with hfront | hdigits
  · exact inert_all _ (by decide) c hfront
  · exact hex_inert c (digits_hex _ c hdigits)

variable {heads : List (String × UInt64)} (hheads : Reserved heads)

include hheads

theorem name_facts (h : String × UInt64) (hh : h ∈ heads) :
    Word h.1.toList ∧ '@' ∉ h.1.toList ∧ 8 ≤ h.1.toList.length ∧
      (∃ c ∈ h.1.toList, c = 'x' ∨ c = 'w') ∧ is_ident h.1.toList = true := by
  rcases hheads.names h hh with heq | heq
  all_goals rw [heq]
  · exact ⟨⟨by decide, inert_all _ (by decide)⟩, by decide, by decide,
      ⟨'x', by decide, .inl rfl⟩, by decide⟩
  · exact ⟨⟨by decide, inert_all _ (by decide)⟩, by decide, by decide,
      ⟨'w', by decide, .inr rfl⟩, by decide⟩

theorem FromHeads.sound (x : Marked) (hx : FromHeads heads x) : Sound x := by
  intro p b hm
  obtain ⟨h, hh, rfl, rfl⟩ := hx p b hm
  obtain ⟨hword, hat, -⟩ := name_facts hheads h hh
  exact ⟨hword, handle_word h.2, hat, rfl⟩

/-- A text without these letters, or a short one, has no mark. -/
theorem unmarked_of (x : Marked) (hx : FromHeads heads x)
    (h : (spell false x).length < 8 ∨ ∀ c ∈ spell false x, c ≠ 'x' ∧ c ≠ 'w') : Unmarked x := by
  intro p b hm
  obtain ⟨y, z, rfl⟩ := List.append_of_mem hm
  obtain ⟨hd, hh, rfl, -⟩ := hx p b hm
  obtain ⟨-, -, hlen, ⟨c, hc, hletter⟩, -⟩ := name_facts hheads hd hh
  have hspell : spell false (y ++ .word hd.1.toList b :: z) =
      spell false y ++ (hd.1.toList ++ spell false z) := by simp [Sym.spell]
  rw [hspell] at h
  rcases h with hshort | hnone
  · simp only [List.length_append] at hshort
    omega
  · obtain ⟨hx', hw'⟩ := hnone c (by simp [hc])
    exact hletter.elim hx' hw'

theorem number_unmarked (x : Marked) (hx : FromHeads heads x)
    (h : ∀ c ∈ spell false x, NumberChar c) : Unmarked x := by
  refine unmarked_of hheads x hx (.inr fun c hc => ⟨?_, ?_⟩)
  · rintro rfl
    exact absurd (h 'x' hc) (by decide)
  · rintro rfl
    exact absurd (h 'w' hc) (by decide)

end Names

section Pairing

variable {α β ε : Type} (f f' : α → Except ε β) (R : β → β → Prop)

theorem each_of_pairs (xs : List α) (ys zs : List β)
    (hys : List.Forall₂ (fun x y => f x = .ok y) xs ys)
    (hzs : List.Forall₂ (fun x z => f' x = .ok z) xs zs) (h : List.Forall₂ R ys zs) :
    ∀ x ∈ xs, ∃ y z, f x = .ok y ∧ f' x = .ok z ∧ R y z := by
  induction hys generalizing zs with
  | nil => simp
  | cons hy _ ih =>
    obtain _ | ⟨hz, hzs⟩ := hzs
    obtain _ | ⟨hR, hall⟩ := h
    intro x' hx'
    rcases List.mem_cons.mp hx' with rfl | hmem
    · exact ⟨_, _, hy, hz, hR⟩
    · exact ih _ hzs hall x' hmem

theorem pairs_of_each (xs : List α) (ys : List β)
    (hys : List.Forall₂ (fun x y => f x = .ok y) xs ys)
    (h : ∀ x ∈ xs, ∃ y z, f x = .ok y ∧ f' x = .ok z ∧ R y z) :
    ∃ zs, List.Forall₂ (fun x z => f' x = .ok z) xs zs ∧ List.Forall₂ R ys zs := by
  induction hys with
  | nil => exact ⟨[], .nil, .nil⟩
  | cons hy _ ih =>
    obtain ⟨y', z, hy', hz, hR⟩ := h _ List.mem_cons_self
    obtain rfl := Except.ok.inj (hy.symm.trans hy')
    obtain ⟨zs, hzs, hall⟩ := ih fun x hx => h x (List.mem_cons_of_mem _ hx)
    exact ⟨z :: zs, .cons hz hzs, .cons hR hall⟩

end Pairing

section Nodes

/-- What it means of a part that it is bound. -/
def Holds (heads : List (String × UInt64)) : Role → Marked → Prop
  | .tree b, c => SameShape (LeafBound heads b) (parse_bool_tree (spell false c))
      (parse_bool_tree (spell true c))
  | .chain b, e => ∃ segs segs', parse_expr (spell false e) = .ok segs ∧
      parse_expr (spell true e) = .ok segs' ∧ ChainBound heads b segs segs'
  | .segment, raw => ∃ seg seg', parse_seg (parse_lit parse_expr) (spell false raw) = .ok seg ∧
      parse_seg (parse_lit parse_expr) (spell true raw) = .ok seg' ∧ SegBound heads seg seg'
  | .subscript, g => ∃ sub sub', parse_subscript (parse_lit parse_expr) (spell false g) = .ok sub ∧
      parse_subscript (parse_lit parse_expr) (spell true g) = .ok sub' ∧ SubBound heads sub sub'
  | .literal, p => ∃ a a', parse_lit parse_expr (spell false p) = .ok a ∧
      parse_lit parse_expr (spell true p) = .ok a' ∧ LitBound heads a a'
  | .head, k => ∃ plain bound, k = [.word plain bound]
  | .other, y => Unmarked y

/-- The plain spelling of a part parses as its role wants. -/
def Valid : Role → Marked → Prop
  | .tree _, c => Reads (spell false c)
  | .chain _, e => ∃ segs, parse_expr (spell false e) = .ok segs
  | .segment, raw => ∃ seg, parse_seg (parse_lit parse_expr) (spell false raw) = .ok seg
  | .subscript, g => ∃ sub, parse_subscript (parse_lit parse_expr) (spell false g) = .ok sub
  | .literal, p => ∃ a, parse_lit parse_expr (spell false p) = .ok a
  | .head, _ => True
  | .other, _ => True

theorem between_spell (quote : Char) (hquote : ¬ Inert quote) (x : Marked) (hx : Sound x) :
    between quote (spell true x) = between quote (spell false x) := by
  have hlen : ∀ bind, (spell bind x).head? = some quote →
    (2 ≤ (spell bind x).length ↔ 2 ≤ x.length) := by
    intro bind hhead
    obtain _ | ⟨s, x⟩ := x
    · simp
    · obtain rfl := Option.some.inj ((head_spell bind _ hx quote hquote).mp hhead)
      obtain _ | ⟨t, x⟩ := x
      · simp
      · have hne : spell bind (t :: x) ≠ [] := fun h =>
          absurd ((spell_eq_nil bind _ (hx.cons _ _)).mp h) (by simp)
        have := List.length_pos_iff.mpr hne
        rw [spell_cons, spell_char, List.singleton_append, List.length_cons]
        simp only [List.length_cons]
        omega
  have hhead := fun bind => head_spell bind x hx quote hquote
  have hlast := fun bind => last_spell bind x hx quote hquote
  by_cases hopen : x.head? = some (.char quote)
  · have h2 := (hlen true ((hhead true).mpr hopen)).trans
      (hlen false ((hhead false).mpr hopen)).symm
    simp only [between, h2, hhead, hlast]
  · have hno : ∀ bind, ¬ (spell bind x).head? = some quote := fun bind h =>
      hopen ((hhead bind).mp h)
    simp [between, hno true, hno false]

variable {heads : List (String × UInt64)} (hheads : Reserved heads)

include hheads

theorem literal_iff (p : Marked) (hp : FromHeads heads p) (hvalid : Valid .literal p) :
    Holds heads .literal p ↔
      (∀ e, parse_lit parse_expr (spell false p) = .ok (.expr e) →
        Holds heads (.chain true) (trim_marked p)) ∧
      ∀ s, parse_lit parse_expr (spell false p) = .ok (.str s) → Unmarked p := by
  have hsound := hp.sound hheads
  have htrim := hp.mono _ _ _ (trim_subset p)
  have htext := fun bind => trim_spell bind p hsound
  obtain ⟨a, ha⟩ := hvalid
  have hkept : Unmarked p → (∀ e, a ≠ .expr e) → Holds heads .literal p := fun hun hne =>
    ⟨a, a, ha, by rw [spell_unmarked true p hun, ha], .same a hne⟩
  have hother : Unmarked p → (∀ e, a ≠ .expr e) → (Holds heads .literal p ↔
      (∀ e, parse_lit parse_expr (spell false p) = .ok (.expr e) →
        Holds heads (.chain true) (trim_marked p)) ∧
      ∀ s, parse_lit parse_expr (spell false p) = .ok (.str s) → Unmarked p) := by
    intro hun hne
    refine ⟨fun _ => ⟨fun e he => ?_, fun _ _ => hun⟩, fun _ => hkept hun hne⟩
    rw [ha] at he
    exact absurd (Except.ok.inj he) (hne e)
  have hcases := lit_cases _ _ a ha
  rw [htext false] at hcases
  rcases hcases with ⟨hshort, hkind⟩ | ⟨hquotes, rfl⟩ | ⟨hquotes, hchar, u, rfl⟩ | hnumber |
    ⟨rfl, hstr, hch, -⟩
  · have hun := unmarked_of hheads _ htrim (.inl (by omega))
    refine hother ((unmarked_trim p).mp hun) fun e he => ?_
    rcases hkind with rfl | ⟨b, rfl⟩
    · simp at he
    · simp at he
  · constructor
    · rintro ⟨a, a', ha1, ha', hbound⟩
      obtain rfl := Except.ok.inj (ha.symm.trans ha1)
      refine ⟨fun e he => absurd (Except.ok.inj (ha.symm.trans he)) (by simp), fun _ _ => ?_⟩
      obtain ⟨_, -⟩ | _ := hbound
      have hcases' := lit_cases _ _ _ ha'
      rw [htext true] at hcases'
      rcases hcases' with ⟨-, hkind⟩ | ⟨hquotes', hsame⟩ | ⟨-, -, u, hkind⟩ | hnumber | ⟨hkind, -⟩
      · simp at hkind
      · have hinner := String.ofList_injective (ArgLit.str.inj hsame)
        rw [← unmarked_trim p, ← spell_eq_iff _ (htrim.sound hheads)]
        rw [between_split '"' _ hquotes, between_split '"' _ hquotes', hinner]
      · simp at hkind
      · exact absurd rfl ((number_kind _ _ hnumber).1 _)
      · simp at hkind
    · exact fun h => hkept (h.2 _ ha) (by simp)
  · have hun : Unmarked (trim_marked p) := by
      have hsplit := between_split '\'' _ hquotes
      apply unmarked_of hheads _ htrim
      rcases hchar with hshort | ⟨hex, heq, hhex⟩
      · refine .inl ?_
        rw [hsplit]
        simp only [List.length_cons, List.length_append, List.length_nil]
        omega
      · refine .inr fun c hc => ?_
        rw [hsplit, heq] at hc
        have hletters : ∀ d : Char, (d = 'x' ∨ d = 'w') →
            d ∉ '\'' :: ('\\' :: 'u' :: hex ++ ['\'']) := by
          intro d hd hmem
          have hnot : ¬ ((hex_digit d).isSome = true ∨ d = '+') ∧ d ≠ '\'' ∧ d ≠ '\\' ∧
              d ≠ 'u' := by
            rcases hd with rfl | rfl
            · decide
            · decide
          simp only [List.mem_cons, List.mem_append, List.not_mem_nil, or_false] at hmem
          rcases hmem with h | (h | h | h) | h
          · exact hnot.2.1 h
          · exact hnot.2.2.1 h
          · exact hnot.2.2.2 h
          · exact hnot.1 (hhex d h)
          · exact hnot.2.1 h
        exact ⟨fun h => hletters c (.inl h) hc, fun h => hletters c (.inr h) hc⟩
    exact hother ((unmarked_trim p).mp hun) (by simp)
  · have hun := number_unmarked hheads _ htrim (number_chars _ a hnumber)
    exact hother ((unmarked_trim p).mp hun) (number_kind _ a hnumber).2
  · constructor
    · rintro ⟨a, a', ha1, ha', hbound⟩
      obtain rfl := Except.ok.inj (ha.symm.trans ha1)
      refine ⟨fun _ _ => ?_, fun s hs => absurd (Except.ok.inj (ha.symm.trans hs)) (by simp)⟩
      obtain ⟨_, hne⟩ | ⟨_, e', segs, segs', hsegs, hsegs', hchain⟩ := hbound
      · exact absurd rfl (hne _)
      · have hcases' := lit_cases _ _ _ ha'
        rw [htext true] at hcases'
        have he' : e' = String.ofList (spell true (trim_marked p)) := by
          rcases hcases' with ⟨-, hkind⟩ | ⟨-, hkind⟩ | ⟨-, -, u, hkind⟩ | hnumber | ⟨hkind, -⟩
          · simp at hkind
          · simp at hkind
          · simp at hkind
          · exact absurd rfl ((number_kind _ _ hnumber).2 _)
          · exact ArgLit.expr.inj hkind
        rw [he', String.toList_ofList] at hsegs'
        rw [String.toList_ofList] at hsegs
        exact ⟨segs, segs', hsegs, hsegs', hchain⟩
    · rintro ⟨h, -⟩
      obtain ⟨segs, segs', hsegs, hsegs', hchain⟩ := h _ ha
      have ha' : parse_lit parse_expr (spell true p) =
          .ok (.expr (String.ofList (spell true (trim_marked p)))) := by
        by_cases hun : Unmarked p
        · rw [spell_unmarked true p hun, ha, spell_unmarked true _ ((unmarked_trim p).mpr hun)]
        · have hat := mem_of_marked _ (htrim.sound hheads) fun h => hun ((unmarked_trim p).mp h)
          have hb := fun q hq => between_spell q hq _ (htrim.sound hheads)
          rw [← htext true] at hsegs' hat ⊢
          refine lit_expr _ _ segs' hat ?_ ?_ hsegs'
          · rw [htext true, hb '"' (by decide), hstr]
          · rw [htext true, hb '\'' (by decide), hch]
      exact ⟨_, _, ha, ha', .expr _ _ segs segs' (by rwa [String.toList_ofList])
        (by rwa [String.toList_ofList]) hchain⟩

/-- The bounds of a range are numbers, so it holds no mark. -/
theorem range_unmarked (x : Marked) (hx : FromHeads heads x) (a b : List Char) (sub : Subscript)
    (hsplit : split_range [] (spell false x) = some (a, b))
    (h : parse_range (spell false x) a b = .ok sub) : Unmarked x ∧ ∃ lo hi, sub = .range lo hi := by
  obtain ⟨a', ha', hx'⟩ := split_range_some [] _ a b hsplit
  rw [List.nil_append] at ha'
  subst ha'
  have hbound : ∀ what c n, parse_bound what (spell false x) c = .ok n →
      ∀ d ∈ c, d ≠ 'x' ∧ d ≠ 'w' := by
    intro what c n hn d hd
    rcases hi : parse_i64 (trim c) with _ | m
    · rw [parse_bound, hi] at hn
      simp at hn
    · obtain ⟨ws, ws', hws, hws', hc⟩ := trim_split c
      rw [hc] at hd
      have hletters : ∀ e : Char, (e = 'x' ∨ e = 'w') → e ≠ d := by
        rintro e he rfl
        have hnot : is_whitespace e = false ∧ ¬ NumberChar e := by
          rcases he with rfl | rfl
          · decide
          · decide
        rcases List.mem_append.mp hd with hmem | hmem
        · rw [hws e hmem] at hnot
          simp at hnot
        · rcases List.mem_append.mp hmem with hmem | hmem
          · exact hnot.2 (i64_chars _ m hi e hmem)
          · rw [hws' e hmem] at hnot
            simp at hnot
      exact ⟨(hletters 'x' (.inl rfl)).symm, (hletters 'w' (.inr rfl)).symm⟩
  rw [parse_range] at h
  rcases hlo : parse_bound "start" (spell false x) a with e | lo
  · simp [hlo] at h
  · rcases hhi : parse_bound "end" (spell false x) b with e | hi
    · simp [hlo, hhi] at h
    · simp only [hlo, hhi] at h
      split_ifs at h
      refine ⟨unmarked_of hheads x hx (.inr fun c hc => ?_), lo, hi, (Except.ok.inj h).symm⟩
      rw [hx'] at hc
      rcases List.mem_append.mp hc with hmem | hmem
      · exact hbound _ _ lo hlo c hmem
      · rcases List.mem_cons.mp hmem with rfl | hmem
        · decide
        · rcases List.mem_cons.mp hmem with rfl | hmem
          · decide
          · exact hbound _ _ hi hhi c hmem

theorem filter_parse (bind : Bool) (g rest : Marked) (hg : FromHeads heads g)
    (hrest : trim_marked g = .char '?' :: rest) (hne : trim_marked rest ≠ []) :
    parse_subscript (parse_lit parse_expr) (spell bind g) =
      .ok (.filter (String.ofList (spell bind (trim_marked rest)))) := by
  have hsub : rest ⊆ g := fun s hs => trim_subset g (hrest ▸ List.mem_cons_of_mem _ hs)
  have hsound := (hg.mono _ _ _ hsub).sound hheads
  have htrim := (hg.sound hheads).trim
  apply (parse_subscript_ok _ _ _).mpr
  refine .inl ⟨spell bind rest, ?_, ?_, by rw [trim_spell bind rest hsound]⟩
  · rw [trim_spell bind g (hg.sound hheads), hrest]
    rfl
  · rw [trim_spell bind rest hsound, ne_eq, spell_eq_nil bind _ hsound.trim]
    exact hne

/-- A subscript is bound when its predicate or its index is, and an unread predicate holds no
mark. -/
theorem subscript_iff (g : Marked) (hg : FromHeads heads g) (hvalid : Valid .subscript g) :
    Holds heads .subscript g ↔
      (∀ rest, trim_marked g = .char '?' :: rest →
        (Reads (spell false (trim_marked rest)) → Holds heads (.tree false) (trim_marked rest)) ∧
        (¬ Reads (spell false (trim_marked rest)) → Unmarked (trim_marked rest))) ∧
      ((trim_marked g).head? ≠ some (.char '?') →
        split_range [] (spell false (trim_marked g)) = none →
          Holds heads .literal (trim_marked g)) := by
  have hsound := hg.sound hheads
  have htrim := hg.mono _ _ _ (trim_subset g)
  have htext := fun bind => trim_spell bind g hsound
  have hmark := fun bind => head_spell bind _ hsound.trim '?' (by decide)
  obtain ⟨sub, hsub⟩ := hvalid
  have hcases := (parse_subscript_ok _ _ _).mp hsub
  rw [htext false] at hcases
  rcases hcases with ⟨rest', hrest', hne, rfl⟩ | ⟨hne, hno, ⟨a, b, hsplit, hrange⟩ |
    ⟨hnone, a, ha, rfl⟩⟩
  · have hhead := (hmark false).mp (by rw [hrest']; rfl)
    obtain ⟨rest, hrest⟩ : ∃ rest, trim_marked g = .char '?' :: rest := by
      rcases heq : trim_marked g with _ | ⟨s, rest⟩
      · rw [heq] at hhead
        simp at hhead
      · rw [heq] at hhead
        exact ⟨rest, by rw [Option.some.inj hhead]⟩
    have hin : rest ⊆ g := fun s hs => trim_subset g (hrest ▸ List.mem_cons_of_mem _ hs)
    have hrestsound := (hg.mono _ _ _ hin).sound hheads
    have hrest'' : rest' = spell false rest := by
      rw [hrest] at hrest'
      exact (List.cons.inj hrest').2.symm
    rw [hrest'', trim_spell false rest hrestsound, ne_eq,
      spell_eq_nil false _ hrestsound.trim] at hne
    have hparse := fun bind => filter_parse hheads bind g rest hg hrest hne
    have hreads : (String.ofList (spell false (trim_marked rest))).toList =
        spell false (trim_marked rest) := String.toList_ofList
    constructor
    · rintro ⟨s, s', hs, hs', hbound⟩
      obtain rfl := Except.ok.inj ((hparse false).symm.trans hs)
      obtain rfl := Except.ok.inj ((hparse true).symm.trans hs')
      refine ⟨fun rest₁ hrest₁ => ?_, fun hno => absurd hhead hno⟩
      obtain rfl := (List.cons.inj (hrest.symm.trans hrest₁)).2
      generalize hp : String.ofList (spell false (trim_marked rest)) = p at hbound hreads
      generalize hp' : String.ofList (spell true (trim_marked rest)) = p' at hbound
      obtain _ | _ | ⟨_, _, hread, hshape⟩ | ⟨_, hunread⟩ := hbound
      · rw [hreads, ← hp', String.toList_ofList] at hshape
        rw [hreads] at hread
        exact ⟨fun _ => hshape, fun h => absurd hread h⟩
      · rw [hreads] at hunread
        refine ⟨fun h => absurd h hunread, fun _ => ?_⟩
        exact (spell_eq_iff _ hrestsound.trim).mp (String.ofList_injective (hp'.trans hp.symm))
    · rintro ⟨h, -⟩
      obtain ⟨htree, hunread⟩ := h rest hrest
      refine ⟨_, _, hparse false, hparse true, ?_⟩
      by_cases hread : Reads (spell false (trim_marked rest))
      · refine .filter _ _ (by rwa [hreads]) ?_
        rw [hreads, String.toList_ofList]
        exact htree hread
      · rw [spell_unmarked true _ (hunread hread)]
        exact .unread _ (by rwa [hreads])
  · obtain ⟨hun, lo, hi, rfl⟩ := range_unmarked hheads _ htrim a b sub hsplit hrange
    have hun' := (unmarked_trim g).mp hun
    constructor
    · intro _
      refine ⟨fun rest hrest => absurd ((hmark false).mpr (by rw [hrest]; rfl)) hno, fun _ h => ?_⟩
      rw [hsplit] at h
      simp at h
    · exact fun _ => ⟨_, _, hsub, by rw [spell_unmarked true g hun', hsub], .range lo hi⟩
  · have hne' : trim_marked g ≠ [] := fun h => hne ((spell_eq_nil false _ hsound.trim).mpr h)
    have hno' : (trim_marked g).head? ≠ some (.char '?') := fun h => hno ((hmark false).mpr h)
    have hparse : ∀ a', parse_lit parse_expr (spell true (trim_marked g)) = .ok a' →
        parse_subscript (parse_lit parse_expr) (spell true g) = .ok (.index a') := by
      intro a' ha'
      apply (parse_subscript_ok _ _ _).mpr
      rw [htext true]
      refine .inr ⟨fun h => hne' ((spell_eq_nil true _ hsound.trim).mp h),
        fun h => hno' ((hmark true).mp h), .inr ⟨?_, a', ha', rfl⟩⟩
      exact split_range_spell _ hsound.trim false true hnone
    constructor
    · rintro ⟨s, s', hs, hs', hbound⟩
      obtain rfl := Except.ok.inj (hsub.symm.trans hs)
      refine ⟨fun rest hrest => absurd (by rw [hrest]; rfl) hno', fun _ _ => ?_⟩
      obtain ⟨_, a', hlit⟩ | _ | _ | _ := hbound
      obtain ⟨rest', -, -, heq⟩ | ⟨-, -, ⟨a₁, b₁, hsome, hr⟩ | ⟨-, a₁, ha₁, heq⟩⟩ :=
        (parse_subscript_ok _ _ _).mp hs'
      · simp at heq
      · rw [htext true] at hsome
        rw [split_range_spell _ hsound.trim false true hnone] at hsome
        simp at hsome
      · rw [htext true] at ha₁
        obtain rfl := Subscript.index.inj heq
        exact ⟨a, a', ha, ha₁, hlit⟩
    · rintro ⟨-, h⟩
      obtain ⟨a₁, a', ha₁, ha', hlit⟩ := h hno' hnone
      obtain rfl := Except.ok.inj (ha.symm.trans ha₁)
      exact ⟨_, _, hsub, hparse a' ha', .index a a' hlit⟩

omit hheads in
theorem handle_none (head : List Char) (hmem : '(' ∈ head) : parse_object_handle head = none := by
  by_contra h
  obtain ⟨front, hex, rfl, hfront, -, hall⟩ := handle_digits head h
  rcases List.mem_append.mp hmem with hin | hin
  · rcases hfront with rfl | rfl
    · exact absurd hin (by decide)
    · exact absurd hin (by decide)
  · exact absurd (hall '(' hin) (by decide)

omit hheads in
/-- No name and no handle holds a parenthesis, and it is all of its head. -/
theorem head_name (lit : List Char → Except String ArgLit) (head name : List Char)
    (h : Head lit head name none) : head = name ∧ '(' ∉ head := by
  obtain ⟨_, -, hhandle⟩ | _ | ⟨_, hident⟩ := h
  · exact ⟨rfl, fun hmem => hhandle (handle_none head hmem)⟩
  · exact ⟨rfl, (ident_no_paren head hident).1⟩

omit hheads in
theorem head_call (lit : List Char → Except String ArgLit) (before inside name : List Char)
    (args : Option (List ArgLit)) (hno : '(' ∉ before)
    (h : Head lit (before ++ '(' :: (inside ++ [')'])) name args) :
    ∃ args', args = some args' ∧ name = trim before ∧ before.head? ≠ some '@' ∧
      is_ident (trim before) = true ∧ parse_args lit inside = .ok args' := by
  generalize hhead : before ++ '(' :: (inside ++ [')']) = head at h
  obtain _ | _ := args
  · have := (head_name lit head name h).2
    rw [← hhead] at this
    exact absurd (List.mem_append_right before List.mem_cons_self) this
  · obtain _ | ⟨before', inside', args', hat, hno', hident, hargs⟩ | _ := h
    have htake := takeWhile_call before (inside ++ [')']) hno
    have htake' := takeWhile_call before' (inside' ++ [')']) hno'
    rw [hhead] at htake
    obtain rfl : before = before' := htake.1.symm.trans htake'.1
    obtain rfl : inside = inside' :=
      List.append_cancel_right (List.cons.inj (htake.2.symm.trans htake'.2)).2
    exact ⟨_, rfl, rfl, hat, hident, hargs⟩

/-- A segment is bound when its name holds no mark and its arguments and subscripts are bound. -/
theorem segment_iff (raw : Marked) (hraw : FromHeads heads raw) (hvalid : Valid .segment raw) :
    Holds heads .segment raw ↔ ∀ head gs, Segment raw head gs →
      (.char '(' ∉ head → Unmarked head) ∧
      (∀ before inside, Call head before inside → Unmarked before ∧
        ∀ ps, Args inside ps → ∀ p ∈ ps, Holds heads .literal p) ∧
      ∀ g ∈ gs, Holds heads .subscript g := by
  have hsound := hraw.sound hheads
  constructor
  · rintro ⟨seg, seg', hseg, hseg', hbound⟩ head gs hsegment
    have hhead := hsound.mono _ _ (hsegment.subset _ _ _).1
    have hsplit := fun bind => hsegment.split bind _ _ _ hsound
    obtain ⟨head₁, gs₁, subs, name, args, hsub, hsubs, hname, rfl⟩ := (parse_seg_ok _ _ _).mp hseg
    obtain ⟨head₂, gs₂, subs', name', args', hsub', hsubs', hname', rfl⟩ :=
      (parse_seg_ok _ _ _).mp hseg'
    obtain ⟨rfl, rfl⟩ := Prod.mk.inj (Except.ok.inj ((hsplit false).symm.trans hsub))
    obtain ⟨rfl, rfl⟩ := Prod.mk.inj (Except.ok.inj ((hsplit true).symm.trans hsub'))
    rw [List.forall₂_map_left_iff] at hsubs hsubs'
    generalize hn : String.ofList name = n at hbound
    generalize hn' : String.ofList name' = n' at hbound
    obtain ⟨_, _, _, hall⟩ | ⟨_, as, as', _, _, hargs, hall⟩ := hbound
    · obtain ⟨rfl, hno⟩ := head_name _ _ _ hname
      obtain ⟨rfl, -⟩ := head_name _ _ _ hname'
      rw [mem_spell false head hhead '(' (by decide)] at hno
      refine ⟨fun _ => ?_, fun before inside hcall => ?_,
        each_of_pairs _ _ _ gs subs subs' hsubs hsubs' hall⟩
      · exact (spell_eq_iff head hhead).mp (String.ofList_injective (hn'.trans hn.symm))
      · rw [hcall.1] at hno
        exact absurd (List.mem_append_right before List.mem_cons_self) hno
    · have hopen : .char '(' ∈ head := by
        rw [← mem_spell false head hhead '(' (by decide)]
        generalize spell false head = s at hname
        obtain _ | ⟨before, inside, _, -, -, -, -⟩ | _ := hname
        exact List.mem_append_right before List.mem_cons_self
      refine ⟨fun hno => absurd hopen hno, fun before inside hcall => ?_,
        each_of_pairs _ _ _ gs subs subs' hsubs hsubs' hall⟩
      have hbefore := hhead.mono _ _ (hcall.subset _ _ _).1
      have hinside := hhead.mono _ _ (hcall.subset _ _ _).2
      have hcallspell := fun bind => hcall.spelling bind _ _ _ hhead
      rw [(hcallspell false).1] at hname
      rw [(hcallspell true).1] at hname'
      obtain ⟨as₁, heq, rfl, -, -, hparse⟩ := head_call _ _ _ _ _ (hcallspell false).2 hname
      obtain rfl := Option.some.inj heq
      obtain ⟨as₂, heq', rfl, -, -, hparse'⟩ := head_call _ _ _ _ _ (hcallspell true).2 hname'
      obtain rfl := Option.some.inj heq'
      refine ⟨?_, fun ps hps => ?_⟩
      · have hsame := String.ofList_injective (hn'.trans hn.symm)
        rw [trim_spell true before hbefore, trim_spell false before hbefore] at hsame
        exact (unmarked_trim before).mp ((spell_eq_iff _ hbefore.trim).mp hsame)
      · have hp := (hps.parse false _ inside ps hinside _).mp hparse
        have hp' := (hps.parse true _ inside ps hinside _).mp hparse'
        exact each_of_pairs _ _ _ ps _ _ hp hp' hargs
  · intro h
    obtain ⟨seg, hseg⟩ := hvalid
    obtain ⟨head₁, gs₁, subs, name, args, hsub, hsubs, hname, rfl⟩ := (parse_seg_ok _ _ _).mp hseg
    obtain ⟨head, gs, hsegment, rfl, rfl⟩ := segment_marked raw hsound head₁ gs₁ hsub
    have hhead := hsound.mono _ _ (hsegment.subset _ _ _).1
    obtain ⟨hplain, hcalls, hgs⟩ := h head gs hsegment
    rw [List.forall₂_map_left_iff] at hsubs
    obtain ⟨subs', hsubs', hall⟩ := pairs_of_each _ _ _ gs subs hsubs hgs
    have hsub' := hsegment.split true _ _ _ hsound
    by_cases hopen : .char '(' ∈ head
    · obtain ⟨before, inside, hcall, as, rfl, rfl, hat, hident, hparse⟩ :
          ∃ before inside, Call head before inside ∧ ∃ as, args = some as ∧
            name = trim (spell false before) ∧ (spell false before).head? ≠ some '@' ∧
            is_ident (trim (spell false before)) = true ∧
            parse_args (parse_lit parse_expr) (spell false inside) = .ok as := by
        have hmem := (mem_spell false head hhead '(' (by decide)).mpr hopen
        generalize hs : spell false head = s at hname hmem
        obtain ⟨_, -, hhandle⟩ | ⟨before, inside, as, hat, hno, hident, hparse⟩ | ⟨_, hident⟩ :=
          hname
        · exact absurd (handle_none _ hmem) hhandle
        · obtain ⟨x, y, hcall, rfl, rfl⟩ := call_marked head hhead before inside hs hno
          exact ⟨x, y, hcall, as, rfl, rfl, hat, hident, hparse⟩
        · exact absurd hmem (ident_no_paren _ hident).1
      obtain ⟨hunmarked, hlits⟩ := hcalls before inside hcall
      have hinside := hhead.mono _ _ (hcall.subset _ _ _).2
      obtain ⟨ps, hps⟩ := args_marked inside hinside
      have hp := (hps.parse false _ inside ps hinside as).mp hparse
      obtain ⟨as', hp', hargs⟩ := pairs_of_each _ _ _ ps as hp (hlits ps hps)
      have hparse' := (hps.parse true _ inside ps hinside as').mpr hp'
      refine ⟨_, _, hseg, (parse_seg_ok _ _ _).mpr ⟨_, _, subs', trim (spell false before),
        some as', hsub', by rwa [List.forall₂_map_left_iff], ?_, rfl⟩,
        .call _ as as' subs subs' hargs hall⟩
      have hspell := hcall.spelling true _ _ _ hhead
      rw [spell_unmarked true before hunmarked] at hspell
      rw [hspell.1]
      exact .call _ _ as' hat hspell.2 hident hparse'
    · have hunmarked := hplain hopen
      obtain rfl : args = none := by
        generalize hs : spell false head = s at hname
        obtain _ | ⟨before, inside, as, -⟩ | _ := hname
        · rfl
        · have hmem : '(' ∈ spell false head := by
            rw [hs]
            exact List.mem_append_right before List.mem_cons_self
          exact absurd ((mem_spell false head hhead '(' (by decide)).mp hmem) hopen
        · rfl
      refine ⟨_, _, hseg, (parse_seg_ok _ _ _).mpr ⟨_, _, subs', name, none, hsub',
        by rwa [List.forall₂_map_left_iff], ?_, rfl⟩, .name _ subs subs' hall⟩
      rwa [spell_unmarked true head hunmarked]

omit hheads in
theorem bare_segment (lit : List Char → Except String ArgLit) (t : List Char) (ht : Tight t)
    (n : String) (h : parse_seg lit t = .ok ⟨n, none, []⟩) : t = n.toList := by
  obtain ⟨head, gs, subs, name, args, hsub, hsubs, hname, heq⟩ := (parse_seg_ok _ _ _).mp h
  obtain ⟨rfl, rfl, rfl⟩ := Seg.mk.inj heq
  obtain rfl := List.forall₂_nil_right_iff.mp hsubs
  obtain ⟨front, rest, rfl, rfl, -, hend, hgroups⟩ := (split_subscripts_ok _ _ _).mp hsub
  have hblank : trim rest = [] := by
    generalize trim rest = r at hgroups
    obtain _ | _ := hgroups
    rfl
  obtain rfl : rest = [] := by
    rcases hend with hnil | ⟨hopen, -⟩
    · exact hnil
    · obtain _ | ⟨c, rest⟩ := rest
      · rfl
      · obtain rfl : c = '[' := Option.some.inj hopen
        obtain ⟨s', hs', -⟩ := trim_open rest
        rw [hs'] at hblank
        simp at hblank
  rw [List.append_nil] at ht ⊢
  rw [String.toList_ofList, ← (head_name lit _ name hname).1, trim_tight ht]

omit hheads in
theorem handle_segment (lit : List Char → Except String ArgLit) (id : UInt64) :
    parse_seg lit (handle_text id) = .ok ⟨String.ofList (handle_text id), none, []⟩ := by
  have hword := handle_word id
  have htight : Tight (handle_text id) :=
    ⟨fun c hc => inert_not_space c (hword.inert c (List.mem_of_head? hc)),
      fun c hc => inert_not_space c (hword.inert c (List.mem_of_getLast? hc))⟩
  have hopen : '[' ∉ handle_text id := fun hmem =>
    absurd (hword.inert '[' hmem) (by decide)
  refine (parse_seg_ok _ _ _).mpr ⟨handle_text id, [], [], handle_text id, none, ?_, .nil,
    .handle _ rfl (by rw [parse_handle]; simp), rfl⟩
  exact (split_subscripts_ok _ _ _).mpr ⟨handle_text id, [], by simp, (trim_tight htight).symm,
    quiet_of_not_mem _ _ _ _ hopen, .inl rfl, .nil⟩

theorem name_segment (h : String × UInt64) (hh : h ∈ heads) :
    parse_seg (parse_lit parse_expr) h.1.toList = .ok ⟨h.1, none, []⟩ := by
  rcases hheads.names h hh with heq | heq
  all_goals rw [heq]
  · rfl
  · rfl

omit hheads in
theorem segment_tight (bind : Bool) (e raw : Marked) (raws : List Marked) (he : Sound e)
    (h : Segments e raws) (hraw : raw ∈ raws) : Tight (spell bind raw) := by
  obtain ⟨xs, hcut, rfl⟩ := h
  obtain ⟨x, hx, rfl⟩ := mem_kept_marked xs raw hraw
  have hsub := List.Subset.trans (hcut.subset groups '.' _ xs x hx) (trim_subset e)
  rw [← trim_spell bind x (he.mono _ _ hsub)]
  exact tight_trim _

theorem head_named_iff (e : Marked) (raws : List Marked) (he : FromHeads heads e)
    (h : Segments e raws) (segs : List Seg)
    (hall : List.Forall₂ (fun raw seg => parse_seg (parse_lit parse_expr) (spell false raw) =
      .ok seg) raws segs) : HeadNamed heads raws ↔ HeadBound heads segs := by
  constructor
  · rintro ⟨hd, hhd, k, member, more, rfl, hk⟩
    obtain _ | ⟨hfirst, hrest⟩ := hall
    obtain _ | ⟨_, _⟩ := hrest
    rw [hk, name_segment hheads hd hhd] at hfirst
    exact ⟨hd, hhd, _, _, by rw [Except.ok.inj hfirst]⟩
  · rintro ⟨hd, hhd, member, more, rfl⟩
    obtain _ | ⟨hfirst, hrest⟩ := hall
    obtain _ | ⟨_, _⟩ := hrest
    refine ⟨hd, hhd, _, _, _, rfl, ?_⟩
    exact bare_segment _ _ (segment_tight false e _ _ (he.sound hheads) h List.mem_cons_self) _
      hfirst

/-- A name is its handle in the other spelling only as one mark. -/
theorem one_mark (k : Marked) (hk : FromHeads heads k) (h : String × UInt64) (hh : h ∈ heads)
    (hplain : spell false k = h.1.toList) (hbound : spell true k = handle_text h.2) :
    ∃ plain bound, k = [.word plain bound] := by
  obtain ⟨-, hat, -⟩ := name_facts hheads h hh
  obtain _ | ⟨s, k⟩ := k
  · exact absurd hbound.symm (handle_word h.2).ne_nil
  · cases s with
    | char c =>
      obtain rfl : c = '@' := (List.cons.inj hbound).1
      rw [← hplain] at hat
      exact absurd List.mem_cons_self hat
    | word p b =>
      obtain ⟨h', hh', rfl, rfl⟩ := hk p b List.mem_cons_self
      have hsplit : h'.1.toList ++ spell false k = h.1.toList := hplain
      have hsame : h'.1 = h.1 := by
        rcases hheads.names h hh with heq | heq
        all_goals rcases hheads.names h' hh' with heq' | heq'
        all_goals rw [heq, heq'] at hsplit ⊢
        · simp at hsplit
        · simp at hsplit
      rw [hsame] at hsplit
      have hnil : spell false k = [] := List.append_cancel_left
        (hsplit.trans (List.append_nil _).symm)
      rw [spell_eq_nil false k ((hk.sound hheads).cons _ k)] at hnil
      exact ⟨_, _, by rw [hnil]⟩

theorem head_mark (k : Marked) (hk : FromHeads heads k) (h : String × UInt64) (hh : h ∈ heads)
    (hplain : spell false k = h.1.toList) (hone : ∃ plain bound, k = [.word plain bound]) :
    spell true k = handle_text h.2 := by
  obtain ⟨p, b, rfl⟩ := hone
  obtain ⟨h', hh', rfl, rfl⟩ := hk p b List.mem_cons_self
  have hsame : h'.1 = h.1 := by
    rw [spell_cons, spell_nil, List.append_nil] at hplain
    exact String.toList_injective hplain
  rw [hheads.once h' hh' h hh hsame, spell_cons, spell_nil, List.append_nil]
  rfl

/-- A chain is bound when its head is one mark, if it is bound at all, and the other segments are
bound. -/
theorem chain_iff (b : Bool) (e : Marked) (he : FromHeads heads e) (hvalid : Valid (.chain b) e) :
    Holds heads (.chain b) e ↔ ∀ raws, Segments e raws →
      (b = true → HeadNamed heads raws → ∀ k rest, raws = k :: rest →
        (∃ plain bound, k = [.word plain bound]) ∧ ∀ raw ∈ rest, Holds heads .segment raw) ∧
      (¬ (b = true ∧ HeadNamed heads raws) → ∀ raw ∈ raws, Holds heads .segment raw) := by
  have hsound := he.sound hheads
  constructor
  · rintro ⟨segs, segs', hsegs, hsegs', hchain⟩ raws hraws
    obtain ⟨-, hall⟩ := (hraws.parse false _ _ hsound segs).mp hsegs
    obtain ⟨-, hall'⟩ := (hraws.parse true _ _ hsound segs').mp hsegs'
    have hnamed := head_named_iff hheads e raws he hraws segs hall
    obtain ⟨h, member, more, more', hh, hsame⟩ | ⟨_, _, _, hkept, hsame⟩ := hchain
    · have hheadbound : HeadBound heads (⟨h.1, none, []⟩ :: member :: more) :=
        ⟨h, hh, member, more, rfl⟩
      refine ⟨fun _ _ k rest hk => ?_, fun hno => absurd ⟨rfl, hnamed.mpr hheadbound⟩ hno⟩
      subst hk
      obtain _ | ⟨hfirst, hrest⟩ := hall
      obtain _ | ⟨hfirst', hrest'⟩ := hall'
      have htight := fun bind => segment_tight bind e k _ hsound hraws List.mem_cons_self
      have hplain := bare_segment _ _ (htight false) _ hfirst
      have hbound := bare_segment _ _ (htight true) _ hfirst'
      rw [String.toList_ofList] at hbound
      have hk := he.mono _ _ _ (hraws.subset _ _ k List.mem_cons_self)
      exact ⟨one_mark hheads k hk h hh hplain hbound,
        each_of_pairs _ _ _ rest _ _ hrest hrest' hsame⟩
    · refine ⟨fun hb hname => absurd ⟨hb, hnamed.mp hname⟩ hkept, fun _ => ?_⟩
      exact each_of_pairs _ _ _ raws segs segs' hall hall' hsame
  · intro h
    obtain ⟨segs, hsegs⟩ := hvalid
    obtain ⟨raws, hraws⟩ := segments_marked e hsound
    obtain ⟨hbalanced, hall⟩ := (hraws.parse false _ _ hsound segs).mp hsegs
    have hnamed := head_named_iff hheads e raws he hraws segs hall
    obtain ⟨hhead, hsegments⟩ := h raws hraws
    by_cases hbind : b = true ∧ HeadNamed heads raws
    · obtain ⟨rfl, hname⟩ := hbind
      obtain ⟨hd, hhd, k, member, more, rfl, hplain⟩ := hname
      obtain ⟨hone, hrest⟩ := hhead rfl ⟨hd, hhd, k, member, more, rfl, hplain⟩ k _ rfl
      have hk := he.mono _ _ _ (hraws.subset _ _ k List.mem_cons_self)
      have hmark := head_mark hheads k hk hd hhd hplain hone
      obtain _ | ⟨hfirst, hmore⟩ := hall
      rw [hplain, name_segment hheads hd hhd] at hfirst
      obtain rfl := Except.ok.inj hfirst
      obtain ⟨segs', hall', hsame⟩ := pairs_of_each _ _ _ _ _ hmore hrest
      refine ⟨_, ⟨String.ofList (handle_text hd.2), none, []⟩ :: segs', hsegs,
        (hraws.parse true _ _ hsound _).mpr ⟨hbalanced, .cons ?_ hall'⟩, ?_⟩
      · rw [hmark]
        exact handle_segment _ hd.2
      · obtain _ | ⟨hnext, hlast⟩ := hmore
        exact .head hd _ _ segs' hhd hsame
    · obtain ⟨segs', hall', hsame⟩ := pairs_of_each _ _ _ _ _ hall (hsegments hbind)
      refine ⟨segs, segs', hsegs, (hraws.parse true _ _ hsound segs').mpr ⟨hbalanced, hall'⟩, ?_⟩
      exact .kept b segs segs' (fun hno => hbind ⟨hno.1, hnamed.mpr hno.2⟩) hsame

theorem tree_iff (b : Bool) (c : Marked) (hc : FromHeads heads c) :
    Holds heads (.tree b) c ↔ ∀ y, Clause c y →
      (∀ l op r, comparison y = some (l, op, r) →
        Holds heads (.chain b) l ∧ Holds heads .literal r) ∧
      (comparison y = none → Holds heads (.chain b) y) := by
  refine (same_shape_iff _ c (hc.sound hheads)).trans ?_
  refine forall₂_congr fun y hy => ?_
  have hsound := (hc.sound hheads).mono _ _ (hy.subset _ _)
  have hspell := fun bind => comparison_spell bind y hsound
  rcases hcmp : comparison y with _ | ⟨l, op, r⟩
  · rw [hcmp] at hspell
    constructor
    · intro h
      refine ⟨fun l op r heq => absurd heq (by simp), fun _ => ?_⟩
      obtain ⟨_, _, _, _, _, _, _, _, _, _, _, _, hsome, -⟩ |
        ⟨_, _, _, segs, segs', -, -, h1, h2, h3⟩ := h
      · rw [hspell false] at hsome
        simp at hsome
      · exact ⟨segs, segs', h1, h2, h3⟩
    · rintro ⟨-, h⟩
      obtain ⟨segs, segs', h1, h2, h3⟩ := h rfl
      exact .alone b _ _ segs segs' (hspell false) (hspell true) h1 h2 h3
  · rw [hcmp] at hspell
    constructor
    · intro h
      refine ⟨fun l₁ op₁ r₁ heq => ?_, fun hno => absurd hno (by simp)⟩
      obtain ⟨rfl, hrest⟩ := Prod.mk.inj (Option.some.inj heq)
      obtain ⟨rfl, rfl⟩ := Prod.mk.inj hrest
      obtain ⟨_, _, _, l₁, l₂, op', r₁, r₂, segs, segs', x, x', hs, hs', h1, h2, h3, h4, h5, h6⟩ |
        ⟨_, _, _, _, _, hnone, -⟩ := h
      · rw [hspell false] at hs
        rw [hspell true] at hs'
        obtain ⟨rfl, heq⟩ := Prod.mk.inj (Option.some.inj hs)
        obtain ⟨-, rfl⟩ := Prod.mk.inj heq
        obtain ⟨rfl, heq'⟩ := Prod.mk.inj (Option.some.inj hs')
        obtain ⟨-, rfl⟩ := Prod.mk.inj heq'
        exact ⟨⟨segs, segs', h1, h2, h3⟩, ⟨x, x', h4, h5, h6⟩⟩
      · rw [hspell false] at hnone
        simp at hnone
    · rintro ⟨h, -⟩
      obtain ⟨⟨segs, segs', h1, h2, h3⟩, x, x', h4, h5, h6⟩ := h l op r rfl
      exact .compared b _ _ _ _ op _ _ segs segs' x x' (hspell false) (hspell true) h1 h2 h3 h4 h5
        h6

end Nodes

end JavaDebug.HeadBindings
