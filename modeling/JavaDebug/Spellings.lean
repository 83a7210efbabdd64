import JavaDebug.Levels

/-!
Texts with marked words. A marked text is spelled with one of two words in the
place of each mark. The words are of letters and digits, so nothing that a scanner
looks for can begin or end in them: whatever is cut out of one spelling is spelled
by a part of the marked text, and the other spelling is cut at the same places.
-/
namespace JavaDebug.Spellings

open Addressing Texts Levels

section Marks

/-- A character, or a place where one of two words stands. -/
inductive Sym
  | char (c : Char)
  | word (plain bound : List Char)
  deriving DecidableEq

abbrev Marked := List Sym

def Sym.spell (bind : Bool) : Sym → List Char
  | .char c => [c]
  | .word plain bound => if bind then bound else plain

def spell (bind : Bool) (x : Marked) : List Char := x.flatMap (Sym.spell bind)

/-- A character that no scanner gives a meaning. -/
def Inert (c : Char) : Prop := c.isAlphanum = true ∨ c = '@'

instance : DecidablePred Inert := fun _ => inferInstanceAs (Decidable (_ ∨ _))

theorem inert_all (s : List Char) (h : (s.all fun c => decide (Inert c)) = true) :
    ∀ c ∈ s, Inert c := fun c hc => of_decide_eq_true (List.all_eq_true.mp h c hc)

structure Word (w : List Char) : Prop where
  ne_nil : w ≠ []
  inert : ∀ c ∈ w, Inert c

/-- The words of a mark cannot be confused: one begins with a character that the other lacks. -/
structure Mark (plain bound : List Char) : Prop where
  plain_word : Word plain
  bound_word : Word bound
  apart : '@' ∉ plain
  begins : bound.head? = some '@'

def Sound (x : Marked) : Prop := ∀ plain bound, .word plain bound ∈ x → Mark plain bound

/-- A marked text without a mark. -/
def Unmarked (x : Marked) : Prop := ∀ plain bound, .word plain bound ∉ x

variable (bind : Bool)

@[simp] theorem spell_nil : spell bind [] = [] := rfl

@[simp] theorem spell_cons (s : Sym) (x : Marked) :
    spell bind (s :: x) = s.spell bind ++ spell bind x := rfl

@[simp] theorem spell_append (x y : Marked) :
    spell bind (x ++ y) = spell bind x ++ spell bind y := List.flatMap_append

@[simp] theorem spell_char (c : Char) : Sym.spell bind (.char c) = [c] := rfl

theorem Sound.append (x y : Marked) : Sound (x ++ y) ↔ Sound x ∧ Sound y := by
  constructor
  · intro h
    exact ⟨fun p b hm => h p b (List.mem_append_left y hm),
      fun p b hm => h p b (List.mem_append_right x hm)⟩
  · rintro ⟨hx, hy⟩ p b hm
    exact (List.mem_append.mp hm).elim (hx p b) (hy p b)

theorem Sound.mono (x y : Marked) (h : Sound x) (hsub : y ⊆ x) : Sound y :=
  fun p b hm => h p b (hsub hm)

theorem Sound.cons (s : Sym) (x : Marked) (h : Sound (s :: x)) : Sound x :=
  fun p b hm => h p b (List.mem_cons_of_mem s hm)

variable (x : Marked)

theorem Sound.word_mem (hx : Sound x) (plain bound : List Char) (h : .word plain bound ∈ x) :
    Word (Sym.spell bind (.word plain bound)) := by
  have hmark := hx plain bound h
  cases bind with
  | false => exact hmark.plain_word
  | true => exact hmark.bound_word

theorem Sound.word (plain bound : List Char) (x : Marked) (h : Sound (.word plain bound :: x)) :
    Word (Sym.spell bind (.word plain bound)) := h.word_mem bind _ plain bound List.mem_cons_self

theorem inert_ne (c d : Char) (hc : Inert c) (hd : ¬ Inert d) : c ≠ d := by
  rintro rfl
  exact hd hc

theorem spell_unmarked (h : Unmarked x) : spell bind x = spell false x := by
  induction x with
  | nil => rfl
  | cons s x ih =>
    rw [spell_cons, spell_cons, ih fun p b hm => h p b (List.mem_cons_of_mem s hm)]
    cases s with
    | char c => rfl
    | word p b => exact absurd List.mem_cons_self (h p b)

/-- A marked text is spelled in one way only when it has no mark. -/
theorem spell_eq_iff (hx : Sound x) : spell true x = spell false x ↔ Unmarked x := by
  refine ⟨fun h => ?_, spell_unmarked true x⟩
  induction x with
  | nil => simp [Unmarked]
  | cons s x ih =>
    rw [spell_cons, spell_cons] at h
    cases s with
    | char c =>
      intro p b hm
      exact ih (hx.cons _ x) (List.cons.inj h).2 p b (by simpa using hm)
    | word p b =>
      have hmark := hx p b List.mem_cons_self
      obtain ⟨c, plain, hplain⟩ := List.exists_cons_of_ne_nil hmark.plain_word.ne_nil
      have hhead := congrArg List.head? h
      rw [List.head?_append, show Sym.spell true (.word p b) = b from rfl, hmark.begins,
        show Sym.spell false (.word p b) = p from rfl, hplain] at hhead
      have hc : '@' = c := Option.some.inj hhead
      have := hmark.apart
      rw [hplain, hc] at this
      exact absurd List.mem_cons_self this

/-- The other spelling of a text with a mark begins some word. -/
theorem mem_of_marked (hx : Sound x) (h : ¬ Unmarked x) : '@' ∈ spell true x := by
  simp only [Unmarked, not_forall, not_not] at h
  obtain ⟨p, b, hm⟩ := h
  obtain ⟨y, z, rfl⟩ := List.append_of_mem hm
  have hmem : '@' ∈ b := List.mem_of_head? (hx p b hm).begins
  simp [Sym.spell, hmem]

theorem spell_eq_nil (hx : Sound x) : spell bind x = [] ↔ x = [] := by
  refine ⟨fun h => ?_, fun h => by rw [h, spell_nil]⟩
  cases x with
  | nil => rfl
  | cons s x =>
    rw [spell_cons, List.append_eq_nil_iff] at h
    cases s with
    | char c => exact absurd h.1 (by simp)
    | word p b => exact absurd h.1 (hx.word bind).ne_nil

/-- What stands around a character that is in no word, in a spelling and in the marked text. -/
theorem spell_split (hx : Sound x) (d : Char) (hd : ¬ Inert d) (p r : List Char)
    (h : spell bind x = p ++ d :: r) :
    ∃ y z, x = y ++ .char d :: z ∧ p = spell bind y ∧ r = spell bind z := by
  induction x generalizing p with
  | nil => exact absurd h (by simp)
  | cons s x ih =>
    have hrest := ih (hx.cons s x)
    rw [spell_cons] at h
    rcases List.append_eq_append_iff.mp h with ⟨p', rfl, heq⟩ | ⟨w, hw, heq⟩
    · obtain ⟨y, z, rfl, rfl, rfl⟩ := hrest p' heq
      exact ⟨s :: y, z, rfl, rfl, rfl⟩
    · obtain _ | ⟨c, w⟩ := w
      · obtain ⟨y, z, rfl, hy, rfl⟩ := hrest [] heq.symm
        rw [List.append_nil] at hw
        exact ⟨s :: y, z, rfl, by rw [spell_cons, hw, ← hy, List.append_nil], rfl⟩
      · obtain ⟨rfl, rfl⟩ := List.cons.inj heq
        cases s with
        | char c =>
          obtain ⟨rfl, hc⟩ | ⟨rfl, hc⟩ := List.append_eq_singleton_iff.mp hw.symm
          · obtain ⟨rfl, rfl⟩ := List.cons.inj hc
            exact ⟨[], x, rfl, rfl, rfl⟩
          · simp at hc
        | word plain bound =>
          refine absurd ((hx.word bind).inert d ?_) hd
          rw [hw]
          exact List.mem_append_right p List.mem_cons_self

theorem mem_spell (hx : Sound x) (d : Char) (hd : ¬ Inert d) : d ∈ spell bind x ↔ .char d ∈ x := by
  constructor
  · intro h
    obtain ⟨p, r, heq⟩ := List.append_of_mem h
    obtain ⟨y, z, rfl, -⟩ := spell_split bind x hx d hd p r heq
    exact List.mem_append_right y List.mem_cons_self
  · intro h
    obtain ⟨y, z, rfl⟩ := List.append_of_mem h
    rw [spell_append]
    exact List.mem_append_right _ List.mem_cons_self

theorem head_spell (hx : Sound x) (d : Char) (hd : ¬ Inert d) :
    (spell bind x).head? = some d ↔ x.head? = some (.char d) := by
  cases x with
  | nil => simp
  | cons s x =>
    cases s with
    | char c => simp
    | word p b =>
      obtain ⟨c, w, hw⟩ := List.exists_cons_of_ne_nil (hx.word bind).ne_nil
      have hc := (hx.word bind).inert c (by rw [hw]; exact List.mem_cons_self)
      rw [spell_cons, hw]
      simpa using inert_ne c d hc hd

theorem last_spell (hx : Sound x) (d : Char) (hd : ¬ Inert d) :
    (spell bind x).getLast? = some d ↔ x.getLast? = some (.char d) := by
  rcases List.eq_nil_or_concat x with rfl | ⟨y, s, rfl⟩
  · simp
  · rw [List.concat_eq_append] at hx ⊢
    rw [List.getLast?_concat, spell_append, spell_cons, spell_nil, List.append_nil]
    have hs := ((Sound.append y [s]).mp hx).2
    cases s with
    | char c => simp
    | word p b =>
      have hword := hs.word bind
      rcases List.eq_nil_or_concat (Sym.spell bind (.word p b)) with hnil | ⟨w, c, hw⟩
      · exact absurd hnil hword.ne_nil
      · rw [List.concat_eq_append] at hw
        have hc := hword.inert c (by rw [hw]; exact List.mem_append_right w List.mem_cons_self)
        rw [hw, ← List.append_assoc, List.getLast?_concat]
        simpa using inert_ne c d hc hd

end Marks

section Trimming

def blank : Sym → Bool
  | .char c => is_whitespace c
  | .word _ _ => false

def trim_marked (x : Marked) : Marked :=
  ((x.dropWhile blank).reverse.dropWhile blank).reverse

theorem alphanum_iff (c : Char) : c.isAlphanum = true ↔
    ((65 ≤ c.toNat ∧ c.toNat ≤ 90) ∨ (97 ≤ c.toNat ∧ c.toNat ≤ 122)) ∨
      (48 ≤ c.toNat ∧ c.toNat ≤ 57) := by
  have heq : c.isAlphanum = ((decide (65 ≤ c.val ∧ c.val ≤ 90) ||
      (decide (97 ≤ c.val) && decide (c.val ≤ 122))) ||
        (decide (48 ≤ c.val) && decide (c.val ≤ 57))) := rfl
  rw [heq]
  simp only [Bool.or_eq_true, Bool.and_eq_true, decide_eq_true_eq, UInt32.le_iff_toNat_le]
  rfl

theorem inert_not_space (c : Char) (h : Inert c) : is_whitespace c = false := by
  rcases h with halnum | rfl
  · have hcode := (alphanum_iff c).mp halnum
    simp only [is_whitespace, Bool.or_eq_false_iff, decide_eq_false_iff_not]
    omega
  · decide

/-- White space is dropped from a spelling as it is from the marked text. -/
theorem dropWhile_flatMap (f : Sym → List Char) (x : Marked)
    (hspace : ∀ s ∈ x, blank s = true → ∀ c ∈ f s, is_whitespace c = true)
    (hother : ∀ s ∈ x, blank s = false → ∃ c w, f s = c :: w ∧ is_whitespace c = false) :
    (x.flatMap f).dropWhile is_whitespace = (x.dropWhile blank).flatMap f := by
  induction x with
  | nil => rfl
  | cons s x ih =>
    rw [List.flatMap_cons]
    by_cases hs : blank s = true
    · rw [List.dropWhile_cons_of_pos hs, trim_start_space (hspace s List.mem_cons_self hs)]
      exact ih (fun t ht => hspace t (List.mem_cons_of_mem s ht))
        fun t ht => hother t (List.mem_cons_of_mem s ht)
    · obtain ⟨c, w, hw, hc⟩ := hother s List.mem_cons_self (by simpa using hs)
      rw [List.dropWhile_cons_of_neg hs, List.flatMap_cons, hw, List.cons_append,
        List.dropWhile_cons_of_neg (by rw [hc]; simp)]

variable (bind : Bool)

theorem blank_spell (s : Sym) (hs : blank s = true) :
    ∀ c ∈ Sym.spell bind s, is_whitespace c = true := by
  intro c hc
  cases s with
  | char d => rwa [List.mem_singleton.mp hc]
  | word p b => simp [blank] at hs

variable (x : Marked)

theorem dropWhile_spell (hx : Sound x) :
    (spell bind x).dropWhile is_whitespace = spell bind (x.dropWhile blank) := by
  refine dropWhile_flatMap _ x (fun s _ => blank_spell bind s) fun s hs hno => ?_
  cases s with
  | char c => exact ⟨c, [], rfl, hno⟩
  | word p b =>
    have hword := hx.word_mem bind x p b hs
    obtain ⟨c, w, hw⟩ := List.exists_cons_of_ne_nil hword.ne_nil
    exact ⟨c, w, hw, inert_not_space c (hword.inert c (by rw [hw]; simp))⟩

theorem trim_spell (hx : Sound x) : trim (spell bind x) = spell bind (trim_marked x) := by
  have hback : ∀ s ∈ x, blank s = false → ∃ c w, (Sym.spell bind s).reverse = c :: w ∧
      is_whitespace c = false := by
    intro s hs hno
    cases s with
    | char c => exact ⟨c, [], rfl, hno⟩
    | word p b =>
      have hword := hx.word_mem bind x p b hs
      obtain ⟨c, w, hw⟩ := List.exists_cons_of_ne_nil
        fun h => hword.ne_nil (List.reverse_eq_nil_iff.mp h)
      refine ⟨c, w, hw, inert_not_space c (hword.inert c ?_)⟩
      exact List.mem_reverse.mp (by rw [hw]; exact List.mem_cons_self)
  have hkept : ∀ s ∈ (x.dropWhile blank).reverse, s ∈ x := fun s hs =>
    (List.dropWhile_sublist blank).mem (List.mem_reverse.mp hs)
  rw [trim, dropWhile_spell bind x hx, spell, List.reverse_flatMap,
    dropWhile_flatMap (List.reverse ∘ Sym.spell bind) _
      (fun s _ hs c hc => blank_spell bind s hs c (List.mem_reverse.mp hc))
      fun s hs => hback s (hkept s hs), List.reverse_flatMap]
  simp only [Function.comp_def, List.reverse_reverse]
  rfl

theorem trim_subset : trim_marked x ⊆ x := by
  intro s h
  rw [trim_marked, List.mem_reverse] at h
  have := (List.dropWhile_sublist blank).mem h
  exact (List.dropWhile_sublist blank).mem (List.mem_reverse.mp this)

theorem word_trim_marked (p b : List Char) (h : .word p b ∈ x) : .word p b ∈ trim_marked x := by
  have hdrop : ∀ y : Marked, .word p b ∈ y → .word p b ∈ y.dropWhile blank := by
    intro y hy
    rw [← List.takeWhile_append_dropWhile (p := blank) (l := y)] at hy
    rcases List.mem_append.mp hy with hfront | hback
    · have := List.mem_takeWhile_imp hfront
      simp [blank] at this
    · exact hback
  rw [trim_marked, List.mem_reverse]
  exact hdrop _ (List.mem_reverse.mpr (hdrop x h))

theorem Sound.trim (h : Sound x) : Sound (trim_marked x) := h.mono _ _ (trim_subset x)

theorem unmarked_trim : Unmarked (trim_marked x) ↔ Unmarked x :=
  ⟨fun h p b hm => h p b (word_trim_marked x p b hm),
    fun h p b hm => h p b (trim_subset x hm)⟩

end Trimming

section Cutting

variable (b : Brackets)

/-- No word holds a bracket. -/
def Bare : Prop := ∀ c, Inert c → c ∉ b.opens ∧ c ∉ b.closes

theorem quoted_inert (q : Quoted) (c : Char) (hc : Inert c) :
    q.step c = ⟨q.in_str, q.in_char, false⟩ := by
  have hs := inert_ne c '"' hc (by decide)
  have hq := inert_ne c '\'' hc (by decide)
  have he := inert_ne c '\\' hc (by decide)
  rcases q with ⟨in_str, in_char, escaped⟩
  cases escaped <;> simp [Quoted.step, hs, hq, he]

theorem run_inert (hb : Bare b) (l : Level) (w : List Char) (hw : Word w) :
    l.run b w = ⟨l.depth, l.quoted.in_str, l.quoted.in_char, false⟩ := by
  have hstep : ∀ (l : Level) (c : Char), Inert c →
      l.step b c = ⟨l.depth, l.quoted.in_str, l.quoted.in_char, false⟩ := by
    intro l c hc
    obtain ⟨hopen, hclose⟩ := hb c hc
    rw [Level.step, quoted_inert _ c hc, if_neg hopen, if_neg hclose, ite_self]
  have hgo : ∀ (w : List Char) (l : Level), (∀ c ∈ w, Inert c) → l.quoted.escaped = false →
      l.run b w = l := by
    intro w
    induction w with
    | nil => exact fun l _ _ => rfl
    | cons c w ih =>
      intro l hinert hesc
      have hsame : l.step b c = l := by
        rw [hstep l c (hinert c List.mem_cons_self), ← hesc]
      rw [run_cons, hsame]
      exact ih l (fun d hd => hinert d (List.mem_cons_of_mem c hd)) hesc
  obtain ⟨c, w, rfl⟩ := List.exists_cons_of_ne_nil hw.ne_nil
  rw [run_cons, hstep l c (hw.inert c List.mem_cons_self)]
  exact hgo w _ (fun d hd => hw.inert d (List.mem_cons_of_mem c hd)) rfl

theorem run_spell (hb : Bare b) (bind : Bool) (l : Level) (x : Marked) (hx : Sound x) :
    l.run b (spell bind x) = l.run b (spell false x) := by
  induction x generalizing l with
  | nil => rfl
  | cons s x ih =>
    rw [spell_cons, spell_cons, run_append, run_append, ih _ (hx.cons s x)]
    cases s with
    | char c => rfl
    | word p w => rw [run_inert b hb l _ (hx.word bind), run_inert b hb l _ (hx.word false)]

variable (sep : Char) (hsep : ¬ Inert sep)

include hsep

theorem quiet_spell (hb : Bare b) (bind : Bool) (l : Level) (x : Marked) (hx : Sound x) :
    Quiet b sep l (spell bind x) ↔ Quiet b sep l (spell false x) := by
  have hone : ∀ (bind : Bool) (x : Marked), Sound x →
      (Quiet b sep l (spell bind x) ↔
        ∀ y z, x = y ++ .char sep :: z → (l.run b (spell false y)).top = false) := by
    intro bind x hx
    rw [quiet_iff]
    constructor
    · rintro h y z rfl
      have := h (spell bind y) (spell bind z) (by simp)
      rwa [run_spell b hb bind l y ((Sound.append _ _).mp hx).1] at this
    · intro h before after hsplit
      obtain ⟨y, z, rfl, rfl, rfl⟩ := spell_split bind x hx sep hsep before after hsplit
      rw [run_spell b hb bind l y ((Sound.append _ _).mp hx).1]
      exact h y z rfl
  rw [hone bind x hx, hone false x hx]

/-- The parts of a marked text. -/
inductive CutMarked (b : Brackets) (sep : Char) : Marked → List Marked → Prop
  | last (x : Marked) : Quiet b sep .start (spell false x) → CutMarked b sep x [x]
  | more (x y : Marked) (xs : List Marked) : Quiet b sep .start (spell false x) →
      Level.start.run b (spell false x) = .start → CutMarked b sep y xs →
      CutMarked b sep (x ++ .char sep :: y) (x :: xs)

omit hsep in
theorem CutMarked.subset (x : Marked) (xs : List Marked) (h : CutMarked b sep x xs) :
    ∀ y ∈ xs, y ⊆ x := by
  induction h with
  | last x _ =>
    intro y hy
    rw [List.mem_singleton.mp hy]
    exact List.Subset.refl x
  | more x y xs _ _ _ ih =>
    intro z hz
    rcases List.mem_cons.mp hz with rfl | hmem
    · exact List.subset_append_left z _
    · exact fun s hs => List.mem_append_right x (List.mem_cons_of_mem _ (ih z hmem hs))

theorem CutMarked.spell (hb : Bare b) (bind : Bool) (x : Marked) (xs : List Marked)
    (h : CutMarked b sep x xs) (hx : Sound x) : Cut b sep (spell bind x) (xs.map (spell bind)) := by
  induction h with
  | last x hquiet => exact .last _ ((quiet_spell b sep hsep hb bind .start x hx).mpr hquiet)
  | more x y xs hquiet hrun _ ih =>
    obtain ⟨hfront, hrest⟩ := (Sound.append _ _).mp hx
    rw [spell_append, spell_cons]
    refine .more _ _ _ ((quiet_spell b sep hsep hb bind .start x hfront).mpr hquiet) ?_
      (ih (hrest.cons _ y))
    rw [run_spell b hb bind .start x hfront, hrun]

/-- The parts of a spelling are spelled by those of the marked text. -/
theorem cut_marked (x : Marked) (hx : Sound x) (ps : List (List Char))
    (h : Cut b sep (spell false x) ps) :
    ∃ xs, CutMarked b sep x xs ∧ ps = xs.map (spell false) := by
  generalize hs : Spellings.spell false x = s at h
  induction h generalizing x with
  | last p hquiet => exact ⟨[x], .last x (by rwa [hs]), by rw [← hs]; rfl⟩
  | more p s ps hquiet hrun _ ih =>
    obtain ⟨y, z, rfl, rfl, rfl⟩ := spell_split false x hx sep hsep p s hs
    obtain ⟨-, hz⟩ := (Sound.append _ _).mp hx
    obtain ⟨xs, hcut, rfl⟩ := ih z (hz.cons _ z) rfl
    exact ⟨y :: xs, .more y z xs hquiet hrun hcut, rfl⟩

end Cutting

end JavaDebug.Spellings
