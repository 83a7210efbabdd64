import JavaDebug.Pieces
import JavaDebug.Selectors
import Mathlib.Data.List.Infix

/-!
The final subscript of an assignment target. One scan counts square brackets
outside literals and remembers where the last outermost group starts; it answers
if the target ends with that group. The parser nests both kinds of brackets and
drops a blank segment at the end. The two agree where the target does not end with
a dot after a subscript, and what stands before the group has its brackets
closed, of either kind.
-/
namespace JavaDebug.FinalSubscripts

open Addressing JavaValues Texts Levels
open Expressions ParsedExpressions Pieces Readings
open Selectors (trim_end)

section Code

/-- The scan of the brackets: how deep it is, where the outermost open group started, and where the
last one that was closed started and ended. -/
structure Trail where
  level : Level
  open_at : Option ℕ
  last_group : Option (ℕ × ℕ)

def Trail.start : Trail := ⟨.start, none, none⟩

/-- One character at place `i`; a bracket that closes nothing ends the scan. -/
def Trail.step (t : Trail) (i : ℕ) (c : Char) : Option Trail :=
  let level := t.level.step squares c
  if t.level.quoted.inside then some { t with level }
  else if c = '[' then
    some { t with level, open_at := if t.level.depth = 0 then some i else t.open_at }
  else if c = ']' then
    if level.depth < 0 then none
    else if level.depth = 0 then
      some { level, open_at := none, last_group := t.open_at.map fun s => (s, i + 1) }
    else some { t with level }
  else some { t with level }

def trailing_loop (i : ℕ) (t : Trail) : List Char → Option Trail
  | [] => some t
  | c :: rest => (t.step i c).bind fun t => trailing_loop (i + 1) t rest

/-- Where the bracket stands that opens the final subscript, if the target ends in one. -/
def trailing_subscript_start (target : List Char) : Option ℕ :=
  let t := trim_end target
  (((trailing_loop 0 .start t).bind Trail.last_group).filter fun g => g.2 = t.length).map Prod.fst

end Code

section Brackets

/-- No square bracket is closed that is not open. -/
def NonNeg (p : List Char) : Prop :=
  ∀ a, a <+: p → 0 ≤ (Level.start.run squares a).depth

instance (p : List Char) : Decidable (NonNeg p) :=
  decidable_of_iff (∀ a ∈ p.inits, 0 ≤ (Level.start.run squares a).depth) (by
    simp only [List.mem_inits]
    exact Iff.rfl)

/-- As many square brackets are closed as are opened, and none before. -/
def Closed (p : List Char) : Prop :=
  NonNeg p ∧ Level.start.run squares p = .start

theorem nonNeg_snoc (p : List Char) (c : Char) :
    NonNeg (p ++ [c]) ↔ NonNeg p ∧ 0 ≤ (Level.start.run squares (p ++ [c])).depth := by
  constructor
  · intro h
    exact ⟨fun a ha => h a (ha.trans (List.prefix_append p [c])), h _ List.prefix_rfl⟩
  · rintro ⟨hp, hlast⟩ a ha
    rcases List.prefix_concat_iff.mp (by simpa using ha) with rfl | hprefix
    · simpa using hlast
    · exact hp a hprefix

theorem run_open (a g : List Char) (h : Level.start.run squares a = .start) :
    Level.start.run squares (a ++ '[' :: g) =
      ⟨(Level.start.run squares g).depth + 1, (Level.start.run squares g).quoted⟩ := by
  rw [run_append, h, run_cons]
  exact run_shift squares .start 1 g

theorem quiet_depth (g : List Char) (h : Quiet squares ']' .start g) :
    0 ≤ (Level.start.run squares g).depth := by
  induction g using List.reverseRecOn with
  | nil => exact le_rfl
  | append_singleton g c ih =>
    obtain ⟨hg, hc, -⟩ := (quiet_append squares ']' .start g [c]).mp h
    have hdepth := ih hg
    rw [run_append, run_cons, run_nil]
    generalize Level.start.run squares g = l at hdepth hc
    simp only [Level.step, squares, List.mem_singleton]
    split_ifs with hin hopen hclose
    · exact hdepth
    · omega
    · have htop : ¬ l.top = true := fun htop => hc ⟨htop, hclose⟩
      simp only [Level.top, Bool.and_eq_true, decide_eq_true_eq, Bool.not_eq_true', not_and] at htop
      have hne : l.depth ≠ 0 := fun hzero => htop hzero (by simpa using hin)
      omega
    · exact hdepth

theorem body_close (g : List Char) (h : Body g) (a rest : List Char)
    (ha : Level.start.run squares a = .start) :
    Level.start.run squares (a ++ '[' :: (g ++ ']' :: rest)) = Level.start.run squares rest := by
  rw [run_append, ha, run_cons, run_append]
  have hg := run_shift squares .start 1 g
  rw [h.2] at hg
  rw [show Level.start.step squares '[' = ⟨Level.start.depth + 1, Level.start.quoted⟩ by decide, hg,
    run_cons]
  rfl

/-- What stands in a group does not end with a group that opens within it. -/
theorem body_no_final (x g : List Char) (hx : (Level.start.run squares x).quoted = .default)
    (hg : Body g) : ¬ Body (x ++ '[' :: g) := by
  intro hbody
  have hdepth := quiet_depth x ((quiet_append squares ']' .start x _).mp hbody.1).1
  have hrun := hbody.2
  rw [run_append] at hrun
  generalize Level.start.run squares x = l at hx hdepth hrun
  rcases l with ⟨d, q⟩
  obtain rfl : q = .default := hx
  have hshift := run_shift squares (Level.start.step squares '[') d g
  rw [show Level.start.step squares '[' = ⟨1, .default⟩ by decide] at hshift
  have hopen : Level.step squares ⟨d, .default⟩ '[' = ⟨1 + d, .default⟩ := by
    rw [Int.add_comm]
    rfl
  have hg' := run_shift squares .start 1 g
  rw [hg.2] at hg'
  rw [run_cons, hopen, hshift, show (⟨1, .default⟩ : Level) = ⟨Level.start.depth + 1,
    Level.start.quoted⟩ from rfl, hg'] at hrun
  have hzero : (0 : ℤ) + 1 + d = 0 := congrArg Level.depth hrun
  have hpos : 0 ≤ d := hdepth
  omega

/-- A text that is outside literals before a group ends with that group alone. -/
theorem final_group_unique (a g a' g' : List Char) (hg : Body g) (hg' : Body g')
    (ha : quotes a = .default) (ha' : quotes a' = .default)
    (h : a ++ '[' :: (g ++ [']']) = a' ++ '[' :: (g' ++ [']'])) : a = a' ∧ g = g' := by
  have hcore : a ++ '[' :: g = a' ++ '[' :: g' := by
    rw [← List.cons_append, ← List.append_assoc, ← List.cons_append, ← List.append_assoc] at h
    exact (List.append_inj' h rfl).1
  have hquoted : ∀ b x : List Char, quotes b = .default → quotes (b ++ '[' :: x) = .default →
      (Level.start.run squares x).quoted = .default := by
    intro b x hb hx
    rw [run_quoted]
    rw [quotes_append b _ hb, ← List.singleton_append, quotes_append ['['] x rfl] at hx
    exact hx
  rcases List.append_eq_append_iff.mp hcore with ⟨x, rfl, hx⟩ | ⟨x, rfl, hx⟩
  · obtain _ | ⟨c, x⟩ := x
    · obtain ⟨-, rfl⟩ := List.cons.inj hx
      exact ⟨by rw [List.append_nil], rfl⟩
    · obtain ⟨rfl, rfl⟩ := List.cons.inj hx
      exact absurd hg (body_no_final x g' (hquoted a x ha ha') hg')
  · obtain _ | ⟨c, x⟩ := x
    · obtain ⟨-, rfl⟩ := List.cons.inj hx
      exact ⟨by rw [List.append_nil], rfl⟩
    · obtain ⟨rfl, rfl⟩ := List.cons.inj hx
      exact absurd hg' (body_no_final x g (hquoted a' x ha' ha) hg)

end Brackets

section Scan

/-- What the scan remembers of the text it has read. -/
structure Trails (p : List Char) (t : Trail) : Prop where
  level : t.level = Level.start.run squares p
  opened : ∀ s, t.open_at = some s → ∃ a g, p = a ++ '[' :: g ∧ a.length = s ∧ Closed a ∧
    Quiet squares ']' .start g
  outermost : t.open_at = none ↔ t.level.depth = 0
  closed : ∀ s e, t.last_group = some (s, e) → ∃ a g rest, p = a ++ '[' :: (g ++ ']' :: rest) ∧
    a.length = s ∧ e = a.length + g.length + 2 ∧ Closed a ∧ Body g

theorem Trails.start : Trails [] .start := by
  refine ⟨rfl, ?_, by simp [Trail.start, Level.start], ?_⟩
  · intro s hs
    simp [Trail.start] at hs
  · intro s e h
    simp [Trail.start] at h

variable (p : List Char)

/-- A group that stays open takes the next character in. -/
theorem Trails.open_on (t : Trail) (c : Char) (h : Trails p t)
    (hc : t.level.quoted.inside = true ∨ c ≠ ']' ∨ (t.level.step squares c).depth ≠ 0) (s : ℕ)
    (hs : t.open_at = some s) : ∃ a g, p ++ [c] = a ++ '[' :: g ∧ a.length = s ∧ Closed a ∧
      Quiet squares ']' .start g := by
  obtain ⟨a, g, rfl, hlen, ha, hquiet⟩ := h.opened s hs
  refine ⟨a, g ++ [c], by simp, hlen, ha, ?_⟩
  rw [quiet_append]
  refine ⟨hquiet, ?_, trivial⟩
  rintro ⟨htop, rfl⟩
  have hlevel := h.level
  rw [run_open a g ha.2, run_top squares g htop] at hlevel
  rw [hlevel] at hc
  rcases hc with hin | hne | hdepth
  · exact absurd hin (by decide)
  · exact hne rfl
  · exact hdepth (by decide)

theorem Trails.closed_on (t : Trail) (c : Char) (h : Trails p t) (s e : ℕ)
    (hlast : t.last_group = some (s, e)) : ∃ a g rest, p ++ [c] = a ++ '[' :: (g ++ ']' :: rest) ∧
      a.length = s ∧ e = a.length + g.length + 2 ∧ Closed a ∧ Body g := by
  obtain ⟨a, g, rest, rfl, hs, he, ha, hg⟩ := h.closed s e hlast
  exact ⟨a, g, rest ++ [c], by simp, hs, he, ha, hg⟩

theorem Trails.step (t : Trail) (c : Char) (h : Trails p t) (hp : NonNeg p) :
    (NonNeg (p ++ [c]) ∧ ∃ t', t.step p.length c = some t' ∧ Trails (p ++ [c]) t') ∨
      ¬ NonNeg (p ++ [c]) ∧ t.step p.length c = none := by
  have hlevel : t.level.step squares c = Level.start.run squares (p ++ [c]) := by
    rw [h.level, run_append]
    rfl
  have hdepth : 0 ≤ t.level.depth := by
    rw [h.level]
    exact hp p List.prefix_rfl
  have hsnoc := nonNeg_snoc p c
  rw [← hlevel] at hsnoc
  rw [Trail.step]
  by_cases hin : t.level.quoted.inside = true
  · have hstay : (t.level.step squares c).depth = t.level.depth := by
      rw [Level.step]
      exact if_pos hin
    rw [if_pos hin]
    refine .inl ⟨hsnoc.mpr ⟨hp, by rwa [hstay]⟩, _, rfl, hlevel, ?_, ?_, h.closed_on p t c⟩
    · exact h.open_on p t c (.inl hin)
    · rw [h.outermost, hstay]
  · rw [if_neg hin]
    by_cases hopen : c = '['
    · obtain rfl := hopen
      have hdeeper : (t.level.step squares '[').depth = t.level.depth + 1 := by
        simp [Level.step, hin, squares]
      rw [if_pos rfl]
      refine .inl ⟨hsnoc.mpr ⟨hp, by omega⟩, _, rfl, hlevel, ?_, ?_, h.closed_on p t '['⟩
      · dsimp only
        by_cases hzero : t.level.depth = 0
        · rw [if_pos hzero]
          rintro s ⟨⟩
          have htop : (Level.start.run squares p).top = true := by
            rw [← h.level]
            simp [Level.top, hzero, hin]
          exact ⟨p, [], rfl, rfl, ⟨hp, run_top squares p htop⟩, trivial⟩
        · rw [if_neg hzero]
          exact h.open_on p t '[' (.inr (.inl (by decide)))
      · dsimp only
        rw [hdeeper]
        by_cases hzero : t.level.depth = 0
        · rw [if_pos hzero, hzero]
          simp
        · rw [if_neg hzero, h.outermost]
          omega
    · rw [if_neg hopen]
      by_cases hclose : c = ']'
      · obtain rfl := hclose
        have hless : (t.level.step squares ']').depth = t.level.depth - 1 := by
          simp [Level.step, hin, squares]
        rw [if_pos rfl]
        by_cases hneg : (t.level.step squares ']').depth < 0
        · rw [if_pos hneg]
          exact .inr ⟨fun hall => absurd (hsnoc.mp hall).2 (by omega), rfl⟩
        · rw [if_neg hneg]
          by_cases hzero : (t.level.step squares ']').depth = 0
          · rw [if_pos hzero]
            refine .inl ⟨hsnoc.mpr ⟨hp, by omega⟩, _, rfl, hlevel, by simp, by simp [hzero], ?_⟩
            intro s e hlast
            obtain ⟨s', hs', heq⟩ := Option.map_eq_some_iff.mp hlast
            obtain ⟨rfl, rfl⟩ := Prod.mk.inj heq
            obtain ⟨a, g, rfl, hlen, ha, hquiet⟩ := h.opened s' hs'
            have htop : (Level.start.run squares g).top = true := by
              have hl := h.level
              rw [run_open a g ha.2] at hl
              rw [hl] at hin hless
              simp only [Level.top, Bool.and_eq_true, decide_eq_true_eq, Bool.not_eq_true']
              refine ⟨?_, by simpa using hin⟩
              rw [hl] at hzero
              dsimp only at hless
              omega
            refine ⟨a, g, [], by simp, hlen, ?_, ha, hquiet, run_top squares g htop⟩
            rw [List.length_append, List.length_cons]
            omega
          · rw [if_neg hzero]
            refine .inl ⟨hsnoc.mpr ⟨hp, by omega⟩, _, rfl, hlevel, ?_, ?_, h.closed_on p t ']'⟩
            · exact h.open_on p t ']' (.inr (.inr hzero))
            · dsimp only
              rw [h.outermost]
              omega
      · have hstay : (t.level.step squares c).depth = t.level.depth := by
          simp [Level.step, squares, hopen, hclose]
        rw [if_neg hclose]
        refine .inl ⟨hsnoc.mpr ⟨hp, by rwa [hstay]⟩, _, rfl, hlevel, ?_, ?_, h.closed_on p t c⟩
        · exact h.open_on p t c (.inr (.inl hclose))
        · rw [h.outermost, hstay]

theorem trailing_append (i : ℕ) (t : Trail) (p s : List Char) :
    trailing_loop i t (p ++ s) =
      (trailing_loop i t p).bind fun t => trailing_loop (i + p.length) t s := by
  induction p generalizing i t with
  | nil => rfl
  | cons c p ih =>
    rw [List.cons_append, trailing_loop, trailing_loop]
    rcases t.step i c with _ | t'
    · rfl
    · dsimp only [Option.bind_some]
      rw [ih, List.length_cons, Nat.add_right_comm, Nat.add_assoc]

/-- The scan reads on while no bracket is closed that is not open. -/
theorem trailing_run :
    (NonNeg p ∧ ∃ t, trailing_loop 0 .start p = some t ∧ Trails p t) ∨
      ¬ NonNeg p ∧ trailing_loop 0 .start p = none := by
  induction p using List.reverseRecOn with
  | nil =>
    refine .inl ⟨?_, _, rfl, Trails.start⟩
    intro a ha
    rw [List.prefix_nil.mp ha]
    exact le_rfl
  | append_singleton p c ih =>
    rw [trailing_append]
    rcases ih with ⟨hp, t, hloop, htrails⟩ | ⟨hp, hloop⟩
    · rw [hloop, Option.bind_some, trailing_loop, Nat.zero_add]
      rcases htrails.step p t c hp with ⟨hnext, t', hstep, ht'⟩ | ⟨hnext, hstep⟩
      · rw [hstep]
        exact .inl ⟨hnext, t', rfl, ht'⟩
      · rw [hstep]
        exact .inr ⟨hnext, rfl⟩
    · rw [hloop]
      exact .inr ⟨fun hall => hp ((nonNeg_snoc p c).mp hall).1, rfl⟩

end Scan

section Found

theorem nonNeg_open (a g : List Char) (ha : Closed a) (hg : Quiet squares ']' .start g) :
    NonNeg (a ++ '[' :: g) := by
  rintro x ⟨y, hxy⟩
  rcases List.append_eq_append_iff.mp hxy with ⟨z, rfl, hz⟩ | ⟨z, rfl, hz⟩
  · exact ha.1 x (List.prefix_append x z)
  · obtain _ | ⟨c, z⟩ := z
    · rw [List.append_nil, ha.2]
      exact le_rfl
    · obtain ⟨rfl, rfl⟩ := List.cons.inj hz
      have hdepth := quiet_depth z ((quiet_append squares ']' .start z y).mp hg).1
      rw [run_open a z ha.2]
      dsimp only
      omega

theorem closed_quotes (a : List Char) (h : Closed a) : quotes a = .default := by
  have := run_quoted squares .start a
  rw [h.2] at this
  exact this.symm

/-- The scan finds the group that a text ends with where the text before it is closed. -/
theorem trailing_some (target : List Char) (i : ℕ) :
    trailing_subscript_start target = some i ↔ ∃ a g,
      trim_end target = a ++ '[' :: (g ++ [']']) ∧ a.length = i ∧ Closed a ∧ Body g := by
  rw [trailing_subscript_start]
  constructor
  · intro h
    obtain ⟨⟨s, e⟩, hfilter, rfl⟩ := Option.map_eq_some_iff.mp h
    obtain ⟨hlast, hend⟩ := Option.filter_eq_some_iff.mp hfilter
    obtain ⟨t, hloop, hgroup⟩ := Option.bind_eq_some_iff.mp hlast
    rcases trailing_run (trim_end target) with ⟨-, t', hloop', htrails⟩ | ⟨-, hloop'⟩
    · obtain rfl := Option.some.inj (hloop.symm.trans hloop')
      obtain ⟨a, g, rest, hsplit, hlen, he, ha, hg⟩ := htrails.closed s e hgroup
      have htotal := congrArg List.length hsplit
      simp only [List.length_append, List.length_cons] at htotal
      have hrest : rest = [] := by
        apply List.eq_nil_of_length_eq_zero
        have hend := of_decide_eq_true hend
        dsimp only at hend
        omega
      rw [hrest] at hsplit
      exact ⟨a, g, hsplit, hlen, ha, hg⟩
    · rw [hloop] at hloop'
      simp at hloop'
  · rintro ⟨a, g, hsplit, rfl, ha, hg⟩
    have hdepth : Level.start.run squares (a ++ '[' :: g) = ⟨1, .default⟩ := by
      rw [run_open a g ha.2, hg.2]
      rfl
    rcases trailing_run (a ++ '[' :: g) with ⟨-, t, hloop, htrails⟩ | ⟨hneg, -⟩
    · have hopen : t.open_at ≠ none := by
        rw [Ne, htrails.outermost, htrails.level, hdepth]
        decide
      obtain ⟨s, hs⟩ := Option.ne_none_iff_exists'.mp hopen
      obtain ⟨a', g', heq, hlen, ha', hg'⟩ := htrails.opened s hs
      have hbody : Body g' := by
        rw [heq, run_open a' g' ha'.2] at hdepth
        refine ⟨hg', run_top squares g' ?_⟩
        simp only [Level.mk.injEq] at hdepth
        simp only [Level.top, hdepth.2, Bool.and_eq_true, decide_eq_true_eq]
        exact ⟨by omega, rfl⟩
      have hsame := final_group_unique a g a' g' hg hbody (closed_quotes a ha)
        (closed_quotes a' ha') (by
          rw [← List.cons_append, ← List.append_assoc, heq]
          simp)
      have hstep : t.step (a ++ '[' :: g).length ']' =
          some ⟨.start, none, some (a.length, (a ++ '[' :: g).length + 1)⟩ := by
        rw [Trail.step, htrails.level, hdepth, hs, ← hlen, ← hsame.1]
        rfl
      have hfinal : trailing_loop 0 .start (trim_end target) =
          some ⟨.start, none, some (a.length, (a ++ '[' :: g).length + 1)⟩ := by
        rw [hsplit, ← List.cons_append, ← List.append_assoc, trailing_append, hloop,
          Option.bind_some, trailing_loop, Nat.zero_add, hstep]
        rfl
      rw [hfinal, hsplit]
      simp
      omega
    · exact absurd (nonNeg_open a g ha hg.1) hneg

end Found

section Last

theorem space_run (b : Brackets) (hb : ∀ c ∈ b.opens ++ b.closes, is_whitespace c = false)
    (ws : List Char) (hws : Space ws) : Level.start.run b ws = .start := by
  apply run_plain b 0 ws
  intro c hc
  have hspace := hws c hc
  obtain ⟨hs, hq⟩ := whitespace_unquoted c hspace
  refine ⟨hs, hq, ?_, ?_⟩
  · intro hmem
    rw [hb c (List.mem_append_left _ hmem)] at hspace
    simp at hspace
  · intro hmem
    rw [hb c (List.mem_append_right _ hmem)] at hspace
    simp at hspace

theorem parens_spaces : ∀ c ∈ parens.opens ++ parens.closes, is_whitespace c = false := by
  simp [parens, is_whitespace]

theorem groups_spaces : ∀ c ∈ groups.opens ++ groups.closes, is_whitespace c = false := by
  simp [groups, is_whitespace]

theorem squares_spaces : ∀ c ∈ squares.opens ++ squares.closes, is_whitespace c = false := by
  simp [squares, is_whitespace]

variable (s : List Char)

theorem trim_end_split : ∃ ws, Space ws ∧ s = trim_end s ++ ws := by
  refine ⟨(s.reverse.takeWhile is_whitespace).reverse, ?_, ?_⟩
  · exact fun c hc => List.mem_takeWhile_imp (List.mem_reverse.mp hc)
  · rw [trim_end, ← List.reverse_append, List.takeWhile_append_dropWhile, List.reverse_reverse]

theorem trim_trim_end : trim (trim_end s) = trim s := by
  obtain ⟨ws, hws, hsplit⟩ := trim_end_split s
  have h := trim_end_space hws (trim_end s)
  rw [← hsplit] at h
  exact h.symm

theorem blank_of_trim (h : trim s = []) : Space s := by
  obtain ⟨ws, ws', hws, hws', hsplit⟩ := trim_split s
  rw [h, List.nil_append] at hsplit
  rw [hsplit]
  exact space_append hws hws'

/-- A text whose last character is no white space. -/
def Ends (s : List Char) : Prop := ∀ c, s.getLast? = some c → is_whitespace c = false

theorem Ends.right (s t : List Char) (h : Ends (s ++ t)) : Ends t := by
  intro c hc
  apply h c
  rw [List.getLast?_append, hc]
  rfl

theorem Ends.blank (h : Ends s) (hs : Space s) : s = [] := by
  rcases List.eq_nil_or_concat s with rfl | ⟨t, c, rfl⟩
  · rfl
  · rw [List.concat_eq_append] at h hs
    have hc := h c List.getLast?_concat
    rw [hs c (by simp)] at hc
    simp at hc

theorem Ends.trim (h : Ends s) : ∃ ws, Space ws ∧ s = ws ++ trim s := by
  obtain ⟨ws, ws', hws, hws', hsplit⟩ := trim_split s
  have hends := h
  rw [hsplit, ← List.append_assoc] at hends
  rw [Ends.blank ws' (Ends.right _ ws' hends) hws', List.append_nil] at hsplit
  exact ⟨ws, hws, hsplit⟩

theorem trim_group (g after : List Char) :
    trim ('[' :: (g ++ ']' :: after)) = '[' :: (g ++ ']' :: trim_end after) := by
  have hkeep := Selectors.trim_end_keep ('[' :: g) after ']' (by decide)
  rw [List.cons_append, List.cons_append] at hkeep
  rw [← hkeep]
  rfl

/-- The last group of a text of groups ends it, and the rest are the groups before. -/
theorem groups_split_last (rest : List Char) (gs : List (List Char)) (gl : List Char)
    (h : Groups rest (gs ++ [gl])) (hend : Ends rest) : ∃ r g,
      rest = r ++ '[' :: (g ++ [']']) ∧ gl = trim g ∧ Body g ∧ Groups (trim r) gs ∧
        (r = [] ∨ r.head? = some '[') ∧ Level.start.run squares r = .start := by
  induction gs generalizing rest with
  | nil =>
    obtain _ | ⟨g, after, _, hbody, hnone⟩ := h
    have hblank : trim after = [] := by
      generalize trim after = u at hnone
      obtain _ | _ := hnone
      rfl
    have hafter : after = [] := by
      refine Ends.blank after (Ends.right ('[' :: (g ++ [']'])) after ?_)
        (blank_of_trim after hblank)
      simpa using hend
    exact ⟨[], g, by rw [hafter]; rfl, rfl, hbody, .nil, .inl rfl, rfl⟩
  | cons g₁ gs ih =>
    obtain _ | ⟨g, after, _, hbody, hrest⟩ := h
    have hafter : Ends after := Ends.right ('[' :: (g ++ [']'])) after (by simpa using hend)
    obtain ⟨ws, hws, hsplit⟩ := Ends.trim after hafter
    have hends : Ends (trim after) := fun c hc => (tight_trim after).last c hc
    obtain ⟨r, g', hr, hgl, hbody', hgroups, -, hrun⟩ := ih (trim after) hrest hends
    refine ⟨'[' :: (g ++ ']' :: (ws ++ r)), g', ?_, hgl, hbody', ?_, .inr rfl, ?_⟩
    · rw [hsplit, hr]
      simp
    · rw [trim_group]
      refine .cons g _ gs hbody ?_
      have hstart : trim (ws ++ r) = trim r := by simpa using trim_space hws space_nil r
      rwa [trim_trim_end, hstart]
    · have hclose := body_close g hbody [] (ws ++ r) rfl
      rw [List.nil_append] at hclose
      rw [hclose, run_append, space_run squares squares_spaces ws hws, hrun]

theorem groups_empty (rest : List Char) (h : Groups rest []) : rest = [] := by
  obtain _ | _ := h
  rfl

theorem groups_of_nil (gs : List (List Char)) (h : Groups [] gs) : gs = [] := by
  obtain _ | _ := h
  rfl

end Last

theorem forall₂_concat {α β : Type} {R : α → β → Prop} {l : List α} {x : α} {l' : List β}
    (h : List.Forall₂ R (l ++ [x]) l') :
    ∃ init y, l' = init ++ [y] ∧ List.Forall₂ R l init ∧ R x y := by
  have hrev := List.forall₂_reverse_iff.mpr h
  rw [List.reverse_append, List.reverse_singleton, List.singleton_append] at hrev
  obtain ⟨y, init, hy, hinit, heq⟩ := List.forall₂_cons_left_iff.mp hrev
  refine ⟨init.reverse, y, ?_, ?_, hy⟩
  · rw [← List.reverse_reverse l', heq, List.reverse_cons]
  · rw [← List.reverse_reverse l]
    exact List.forall₂_reverse_iff.mpr hinit

section Segment

theorem trim_bracket (p r : List Char) :
    trim (p ++ '[' :: r) = p.dropWhile is_whitespace ++ '[' :: trim_end r := by
  have hstop : is_whitespace '[' = false := by decide
  have hdrop : (p ++ '[' :: r).dropWhile is_whitespace = p.dropWhile is_whitespace ++ '[' :: r := by
    rw [List.dropWhile_append]
    by_cases hall : (p.dropWhile is_whitespace).isEmpty = true
    · rw [if_pos hall, List.isEmpty_iff.mp hall]
      simp [hstop]
    · rw [if_neg hall]
  rw [← Selectors.trim_end_keep _ r '[' hstop, ← hdrop]
  rfl

theorem split_subscripts_trim (raw head : List Char) (gs : List (List Char))
    (h : split_subscripts raw = .ok (head, gs)) : split_subscripts (trim raw) = .ok (head, gs) := by
  obtain ⟨p, rest, rfl, rfl, hquiet, hend, hgroups⟩ := (split_subscripts_ok raw head gs).mp h
  rcases hend with rfl | ⟨hopen, hrun⟩
  · rw [List.append_nil]
    refine (split_subscripts_ok _ _ _).mpr ⟨trim p, [], by simp, (trim_trim p).symm, ?_, .inl rfl,
      hgroups⟩
    obtain ⟨ws, ws', hws, -, hsplit⟩ := trim_split p
    rw [hsplit, quiet_append, quiet_append, space_run parens parens_spaces ws hws] at hquiet
    exact hquiet.2.1
  · obtain _ | ⟨c, r⟩ := rest
    · simp at hopen
    · obtain rfl : c = '[' := Option.some.inj hopen
      have hsplit := List.takeWhile_append_dropWhile (p := is_whitespace) (l := p)
      have hws : Space (p.takeWhile is_whitespace) := fun c hc => List.mem_takeWhile_imp hc
      have htrim : trim (p.dropWhile is_whitespace) = trim p := by
        have := trim_space hws space_nil (p.dropWhile is_whitespace)
        rw [List.append_nil, hsplit] at this
        exact this.symm
      have hrest : trim ('[' :: r) = '[' :: trim_end r := trim_bracket [] r
      rw [trim_bracket, ← hrest]
      rw [← hsplit, quiet_append, space_run parens parens_spaces _ hws] at hquiet
      rw [← hsplit, run_append, space_run parens parens_spaces _ hws] at hrun
      refine (split_subscripts_ok _ _ _).mpr ⟨_, _, rfl, htrim.symm, hquiet.2, .inr ⟨?_, hrun⟩, ?_⟩
      · rw [hrest]
        rfl
      · rwa [trim_trim]

theorem strip_front_some (p s t : List Char) (h : strip_prefix p s = some t) : s = p ++ t := by
  induction p generalizing s with
  | nil => exact Option.some.inj h
  | cons c p ih =>
    obtain _ | ⟨d, s⟩ := s
    · cases h
    · unfold strip_prefix at h
      split_ifs at h with hcd
      rw [ih s h, hcd]
      rfl

theorem handle_digits (head : List Char) (h : parse_object_handle head ≠ none) :
    ∃ front hex, head = front ++ hex ∧ (front = ['@', '0', 'x'] ∨ front = ['@', '0', 'X']) ∧
      hex ≠ [] ∧ ∀ c ∈ hex, (hex_digit c).isSome = true := by
  obtain ⟨id, hid⟩ := Option.ne_none_iff_exists'.mp h
  obtain ⟨hex, hfront, hhex⟩ := Option.bind_eq_some_iff.mp hid
  split_ifs at hhex with hbad
  simp only [Bool.or_eq_true, decide_eq_true_eq, Bool.not_eq_true', not_or, Bool.not_eq_false]
    at hbad
  obtain ⟨hne, hall⟩ := hbad
  rcases Option.or_eq_some_iff.mp hfront with hlower | ⟨-, hupper⟩
  · exact ⟨_, hex, strip_front_some _ _ _ hlower, .inl rfl, hne, List.all_eq_true.mp hall⟩
  · exact ⟨_, hex, strip_front_some _ _ _ hupper, .inr rfl, hne, List.all_eq_true.mp hall⟩

theorem handle_last (head : List Char) (h : parse_object_handle head ≠ none) :
    ∃ c, head.getLast? = some c ∧ (hex_digit c).isSome = true := by
  obtain ⟨front, hex, rfl, -, hne, hall⟩ := handle_digits head h
  obtain ⟨init, c, rfl⟩ : ∃ init c, hex = init ++ [c] := by
    rcases List.eq_nil_or_concat hex with rfl | ⟨init, c, rfl⟩
    · exact absurd rfl hne
    · exact ⟨init, c, List.concat_eq_append⟩
  refine ⟨c, ?_, hall c (by simp)⟩
  rw [← List.append_assoc, List.getLast?_concat]

theorem head_last (lit : List Char → Except String ArgLit) (head name : List Char)
    (args : Option (List ArgLit)) (h : Head lit head name args) :
    ∃ c, head.getLast? = some c ∧ c ≠ ']' ∧ c ≠ '.' := by
  obtain ⟨_, -, hhandle⟩ | ⟨before, inside, args, -, -, -, -⟩ | ⟨_, hident⟩ := h
  · obtain ⟨c, hlast, hhex⟩ := handle_last head hhandle
    refine ⟨c, hlast, ?_, ?_⟩
    · rintro rfl
      exact absurd hhex (by decide)
    · rintro rfl
      exact absurd hhex (by decide)
  · refine ⟨')', ?_, by decide, by decide⟩
    rw [← List.cons_append, ← List.append_assoc, List.getLast?_concat]
  · rw [is_ident, Bool.and_eq_true, List.all_eq_true] at hident
    rcases List.eq_nil_or_concat head with rfl | ⟨init, c, rfl⟩
    · exact absurd hident.1 (by simp)
    · rw [List.concat_eq_append] at hident ⊢
      have hc := hident.2 c (by simp)
      refine ⟨c, List.getLast?_concat, ?_, ?_⟩
      · rintro rfl
        exact absurd hc (by decide)
      · rintro rfl
        exact absurd hc (by decide)

variable (lit : List Char → Except String ArgLit) (raw : List Char) (seg : Seg)
  (hraw : Tight raw) (h : parse_seg lit raw = .ok seg)

include hraw h

/-- A segment without subscripts does not end with a bracket. -/
theorem plain_segment_last (hsubs : seg.subs = []) :
    ∃ c, raw.getLast? = some c ∧ c ≠ ']' ∧ c ≠ '.' := by
  obtain ⟨head, gs, subs, name, args, hsplit, hall, hhead, rfl⟩ := (parse_seg_ok lit raw seg).mp h
  obtain rfl : subs = [] := hsubs
  obtain rfl := List.forall₂_nil_right_iff.mp hall
  obtain ⟨p, rest, rfl, rfl, -, hend, hgroups⟩ := (split_subscripts_ok raw head _).mp hsplit
  have hrest : rest = [] := by
    rcases hend with hnil | ⟨hopen, -⟩
    · exact hnil
    · obtain _ | ⟨c, r⟩ := rest
      · rfl
      · obtain rfl : c = '[' := Option.some.inj hopen
        have hbracket : trim ('[' :: r) = '[' :: trim_end r := trim_bracket [] r
        rw [hbracket] at hgroups
        exact absurd (groups_empty _ hgroups) (by simp)
  rw [hrest, List.append_nil] at hraw ⊢
  rw [trim_tight hraw] at hhead
  exact head_last lit p name args hhead

/-- A segment with subscripts ends with the brackets of the last, and is the segment with the others
without them. -/
theorem group_segment (subs : List Subscript) (sub : Subscript) (hsubs : seg.subs = subs ++ [sub]) :
    ∃ a g, raw = a ++ '[' :: (g ++ [']']) ∧ Body g ∧ parse_subscript lit (trim g) = .ok sub ∧
      quotes a = .default ∧ parse_seg lit (trim a) = .ok { seg with subs := subs } := by
  obtain ⟨head, gs, subs', name, args, hsplit, hall, hhead, rfl⟩ := (parse_seg_ok lit raw seg).mp h
  obtain rfl : subs' = subs ++ [sub] := hsubs
  obtain ⟨gs, gl, rfl, hinit, hlast⟩ := forall₂_concat hall.flip
  replace hinit := hinit.flip
  obtain ⟨p, rest, rfl, rfl, hquiet, hend, hgroups⟩ := (split_subscripts_ok raw head _).mp hsplit
  rcases hend with rfl | ⟨hopen, hrun⟩
  · exact absurd (groups_of_nil _ hgroups) (by simp)
  · have htight : Tight rest := by
      refine ⟨?_, Ends.right p rest fun c hc => hraw.last c hc⟩
      intro c hc
      rw [hopen] at hc
      rw [← Option.some.inj hc]
      decide
    rw [trim_tight htight] at hgroups
    obtain ⟨r, g, rfl, rfl, hbody, hgroups', hr, hrunr⟩ :=
      groups_split_last rest gs gl hgroups htight.last
    refine ⟨p ++ r, g, by simp, hbody, hlast, ?_, ?_⟩
    · have hp := run_quoted parens .start p
      rw [hrun] at hp
      have hr' := run_quoted squares .start r
      rw [hrunr] at hr'
      rw [quotes_append p r hp.symm]
      exact hr'.symm
    · refine (parse_seg_ok lit _ _).mpr ⟨trim p, gs, subs, name, args, ?_, hinit, hhead, rfl⟩
      apply split_subscripts_trim
      exact (split_subscripts_ok _ _ _).mpr ⟨p, r, rfl, rfl, hquiet,
        hr.imp_right fun hh => ⟨hh, hrun⟩, hgroups'⟩

end Segment

section Expression

theorem cut_front (s last : List Char) (ps : List (List Char)) (h : Cut groups '.' s (ps ++ [last]))
    : ∃ front, s = front ++ last ∧
      Level.start.run groups front = .start ∧ Quiet groups '.' .start last ∧
      ∀ last', Quiet groups '.' .start last' → Cut groups '.' (front ++ last') (ps ++ [last']) := by
  have hdot : Level.step groups .start '.' = .start := step_plain groups 0 '.' plain_dot
  obtain ⟨hlast, ⟨rfl, rfl⟩ | ⟨s₀, rfl, hcut, hrun⟩⟩ := h.split_last groups '.' plain_dot s last ps
  · exact ⟨[], rfl, rfl, hlast, fun last' h' => .last last' h'⟩
  · refine ⟨s₀ ++ ['.'], by simp, ?_, hlast, ?_⟩
    · rw [run_append, hrun, run_cons, hdot]
      rfl
    · intro last' h'
      rw [List.append_assoc, List.singleton_append]
      exact hcut.snoc groups '.' plain_dot s₀ last' ps hrun h'

/-- Which part the last segment comes from: the last, or the one before a blank last one. -/
theorem kept_parts_last (parts : List (List Char)) (h : kept_parts parts ≠ []) :
    (∃ ps last, parts = ps ++ [last] ∧ trim last ≠ [] ∧
        kept_parts parts = ps.map trim ++ [trim last]) ∨
      ∃ ps p last, parts = (ps ++ [p]) ++ [last] ∧ trim last = [] ∧
        kept_parts parts = ps.map trim ++ [trim p] := by
  have hkept : ∀ ps last, kept_parts (ps ++ [last]) =
      ps.map trim ++ (if trim last = [] then [] else [trim last]) := by
    intro ps last
    rw [kept_parts]
    by_cases hblank : trim last = []
    · simp [hblank]
    · simp [hblank]
  rcases List.eq_nil_or_concat parts with rfl | ⟨ps, last, rfl⟩
  · exact absurd rfl h
  · rw [List.concat_eq_append] at h ⊢
    by_cases hblank : trim last = []
    · have hps := hkept ps last
      rw [if_pos hblank, List.append_nil] at hps
      rcases List.eq_nil_or_concat ps with rfl | ⟨ps, p, rfl⟩
      · exact absurd hps h
      · rw [List.concat_eq_append, List.map_append] at hps
        exact .inr ⟨ps, p, last, by rw [List.concat_eq_append], hblank,
          by rw [List.concat_eq_append, hps]; rfl⟩
    · exact .inl ⟨ps, last, rfl, hblank, by rw [hkept, if_neg hblank]⟩

theorem Ends.append_tight (x raw : List Char) (h : Tight raw) (hne : raw ≠ []) :
    Ends (x ++ raw) := by
  intro c hc
  rw [List.getLast?_append_of_ne_nil x hne] at hc
  exact h.last c hc

/-- The last segment of an expression: it ends the text, and another in its place gives the
expression with that segment, or it stands before a final dot. -/
theorem last_raw (target : List Char) (segs : List Seg) (h : parse_expr target = .ok segs) :
    ∃ init seg raw, segs = init ++ [seg] ∧ Tight raw ∧ raw ≠ [] ∧
      parse_seg (parse_lit parse_expr) raw = .ok seg ∧
      ((∃ front, trim target = front ++ raw ∧ Level.start.run groups front = .start ∧
          Quiet groups '.' .start raw ∧ ∀ raw' seg', Tight raw' → raw' ≠ [] →
            parse_seg (parse_lit parse_expr) raw' = .ok seg' → Quiet groups '.' .start raw' →
            Level.start.run groups raw' = .start →
            parse_expr (front ++ raw') = .ok (init ++ [seg'])) ∨
        ∃ x ws, trim target = x ++ (raw ++ (ws ++ ['.'])) ∧ Space ws) := by
  obtain ⟨parts, hcut, hrun, hne, hall⟩ := (parse_expr_ok target segs).mp h
  have hnonempty : ∀ raw seg, parse_seg (parse_lit parse_expr) raw = .ok seg → raw ≠ [] := by
    rintro raw seg hparse rfl
    have herror : parse_seg (parse_lit parse_expr) [] = .error (unsupported_token []) := rfl
    rw [herror] at hparse
    simp at hparse
  have htight := tight_trim target
  rcases kept_parts_last parts hne with ⟨ps, last, rfl, hlast, hkept⟩ |
    ⟨ps, p, last, rfl, hlast, hkept⟩
  · rw [hkept] at hall
    obtain ⟨init, seg, rfl, hinit, hseg⟩ := forall₂_concat hall
    obtain ⟨front, hfront, hrunf, hquiet, hput⟩ := cut_front _ last ps hcut
    have hends : Ends last := by
      apply Ends.right front last
      rw [← hfront]
      exact fun c hc => htight.last c hc
    obtain ⟨ws, hws, hsplit⟩ := Ends.trim last hends
    refine ⟨init, seg, trim last, rfl, tight_trim last, hlast, hseg, .inl ⟨front ++ ws, ?_, ?_, ?_,
      ?_⟩⟩
    · rw [hfront, List.append_assoc, ← hsplit]
    · rw [run_append, hrunf, space_run groups groups_spaces ws hws]
    · rw [hsplit, quiet_append, space_run groups groups_spaces ws hws] at hquiet
      exact hquiet.2
    · intro raw' seg' htight' hne' hseg' hquiet' hrun'
      have hwhole : Tight (front ++ (ws ++ raw')) := by
        refine ⟨?_, ?_⟩
        · intro c hc
          obtain _ | ⟨d, front⟩ := front
          · obtain _ | ⟨w, ws⟩ := ws
            · exact htight'.first c hc
            · rw [hfront, hsplit] at htight
              exact htight.first c hc
          · rw [hfront] at htight
            exact htight.first c hc
        · rw [← List.append_assoc]
          exact Ends.append_tight _ raw' htight' hne'
      have hquietw : Quiet groups '.' .start (ws ++ raw') := by
        rw [quiet_append, space_run groups groups_spaces ws hws]
        refine ⟨?_, hquiet'⟩
        apply quiet_of_not_mem
        intro hmem
        exact absurd (hws '.' hmem) (by decide)
      have htrim : trim (ws ++ raw') = raw' := by
        have := trim_space hws space_nil raw'
        rw [List.append_nil, trim_tight htight'] at this
        exact this
      rw [List.append_assoc]
      apply (parse_expr_ok _ _).mpr
      have hkept' : kept_parts (ps ++ [ws ++ raw']) = ps.map trim ++ [raw'] := by
        rw [kept_parts]
        simp [htrim, hne']
      refine ⟨ps ++ [ws ++ raw'], ?_, ?_, ?_, ?_⟩
      · rw [trim_tight hwhole]
        exact hput _ hquietw
      · rw [trim_tight hwhole, run_append, hrunf, run_append,
          space_run groups groups_spaces ws hws, hrun']
      · rw [hkept']
        simp
      · rw [hkept']
        exact List.rel_append hinit (.cons hseg' .nil)
  · rw [hkept] at hall
    obtain ⟨init, seg, rfl, hinit, hseg⟩ := forall₂_concat hall
    obtain ⟨-, ⟨hnil, -⟩ | ⟨s₀, hs₀, hcut₀, -⟩⟩ :=
      hcut.split_last groups '.' plain_dot _ last (ps ++ [p])
    · simp at hnil
    · obtain ⟨front, rfl, -, -, -⟩ := cut_front s₀ p ps hcut₀
      obtain ⟨ws, ws', -, hws', hsplit⟩ := trim_split p
      have hends : Ends last := by
        apply Ends.right (front ++ p ++ ['.']) last
        rw [List.append_assoc, List.singleton_append, ← hs₀]
        exact fun c hc => htight.last c hc
      have hnil := Ends.blank last hends (blank_of_trim last hlast)
      refine ⟨init, seg, trim p, rfl, tight_trim p, hnonempty _ seg hseg, hseg,
        .inr ⟨front ++ ws, ws', ?_, hws'⟩⟩
      rw [hs₀, hnil]
      nth_rewrite 1 [hsplit]
      simp

end Expression

section Agreement

/-- The brackets of a subscript, with white space after them. -/
def IsBrackets (sub : Subscript) (text : List Char) : Prop :=
  ∃ g ws, text = '[' :: (g ++ ']' :: ws) ∧ Space ws ∧ Body g ∧
    parse_subscript (parse_lit parse_expr) (trim g) = .ok sub

/-- The final subscript of the parse is found, and none where there is none: what stands before it
parses as the segments without it, and the rest is its brackets. -/
def FoundAs (target : List Char) (segs : List Seg) : Prop :=
  ∀ init seg, segs = init ++ [seg] →
    (seg.subs = [] → trailing_subscript_start target = none) ∧
    ∀ subs sub, seg.subs = subs ++ [sub] → ∃ i, trailing_subscript_start target = some i ∧
      parse_expr (target.take i) = .ok (init ++ [{ seg with subs := subs }]) ∧
      IsBrackets sub (target.drop i)

/-- Less a final dot, the target ends with a closing square bracket. -/
def EndsInSubscript (target : List Char) : Prop :=
  let u := trim target
  let u := if u.getLast? = some '.' then trim u.dropLast else u
  u.getLast? = some ']'

/-- The target is a text and a bracketed group; the text closes as many square brackets as it
opens, none before it is opened, and as many parentheses. -/
def Separable (target : List Char) : Prop :=
  ∃ a g ws, target = a ++ '[' :: (g ++ ']' :: ws) ∧ Space ws ∧ Body g ∧ Closed a ∧
    Level.start.run groups a = .start

theorem inside_space (q : Quoted) (c : Char) (hc : is_whitespace c = true) (h : q.inside = true) :
    (q.step c).inside = true := by
  obtain ⟨hs, hq⟩ := whitespace_unquoted c hc
  have hb : c ≠ '\\' := by
    rintro rfl
    exact absurd hc (by decide)
  rw [Quoted.step]
  split_ifs with h1 h2 h3 h4
  · exact h
  · exact absurd h2.1 hb
  · exact absurd h3.1 hs
  · exact absurd h4.1 hq
  · exact h

theorem run_inside_space (b : Brackets) (l : Level) (ws : List Char) (hws : Space ws)
    (h : l.quoted.inside = true) : (l.run b ws).quoted.inside = true := by
  induction ws generalizing l with
  | nil => exact h
  | cons c ws ih =>
    apply ih (l.step b c) fun d hd => hws d (List.mem_cons_of_mem c hd)
    exact inside_space _ c (hws c List.mem_cons_self) h

/-- White space at its end does not bring a scan back. -/
theorem run_before_space (b : Brackets) (hb : ∀ c ∈ b.opens ++ b.closes, is_whitespace c = false)
    (s ws : List Char) (hws : Space ws) (h : Level.start.run b (s ++ ws) = .start) :
    Level.start.run b s = .start := by
  rw [run_append] at h
  by_cases hin : (Level.start.run b s).quoted.inside = true
  · have hinside := run_inside_space b _ ws hws hin
    rw [h] at hinside
    exact absurd hinside (by decide)
  · have hquoted := run_default b s (by simpa using hin)
    generalize Level.start.run b s = l at h hquoted
    rcases l with ⟨d, q⟩
    obtain rfl : q = .default := hquoted
    have hstay := space_run b hb ws hws
    have hshift := run_shift b .start d ws
    rw [hstay] at hshift
    have hsame : Level.run b ⟨d, .default⟩ ws = ⟨d, .default⟩ := by
      simpa [Level.start] using hshift
    rw [hsame] at h
    exact h

theorem parse_expr_trim (e : List Char) (segs : List Seg) (h : parse_expr (trim e) = .ok segs) :
    parse_expr e = .ok segs := by
  obtain ⟨parts, hcut, hrun, hne, hall⟩ := (parse_expr_ok _ segs).mp h
  rw [trim_trim] at hcut hrun
  exact (parse_expr_ok e segs).mpr ⟨parts, hcut, hrun, hne, hall⟩

variable (s target : List Char)

theorem ends_trim_end : Ends (trim_end s) := by
  intro c hc
  rw [trim_end, List.getLast?_reverse] at hc
  have := List.head?_dropWhile_not is_whitespace s.reverse
  rw [hc] at this
  simpa using this

theorem trim_end_eq : ∃ ws, Space ws ∧ trim_end s = ws ++ trim s := by
  obtain ⟨ws, hws, hsplit⟩ := Ends.trim (trim_end s) (ends_trim_end s)
  exact ⟨ws, hws, by rw [trim_trim_end] at hsplit; exact hsplit⟩

theorem last_trim_end (h : trim s ≠ []) : (trim_end s).getLast? = (trim s).getLast? := by
  obtain ⟨ws, -, hsplit⟩ := trim_end_eq s
  rw [hsplit, List.getLast?_append_of_ne_nil ws h]

theorem trailing_ends (i : ℕ) (h : trailing_subscript_start target = some i) :
    (trim_end target).getLast? = some ']' := by
  obtain ⟨a, g, hsplit, -, -, -⟩ := (trailing_some target i).mp h
  rw [hsplit, ← List.cons_append, ← List.append_assoc, List.getLast?_concat]

theorem separable_ends (h : Separable target) : ∃ a g,
    trim_end target = a ++ '[' :: (g ++ [']']) ∧ Body g ∧ Closed a ∧
      Level.start.run groups a = .start := by
  obtain ⟨a, g, ws, rfl, hws, hbody, hclosed, hrun⟩ := h
  refine ⟨a, g, ?_, hbody, hclosed, hrun⟩
  have hkeep := Selectors.trim_end_keep (a ++ '[' :: g) ws ']' (by decide)
  have hblank : trim_end ws = [] := by
    obtain ⟨ws', -, hsplit⟩ := trim_end_split ws
    apply Ends.blank _ (ends_trim_end ws)
    intro c hc
    apply hws c
    rw [hsplit]
    exact List.mem_append_left _ hc
  rw [hblank] at hkeep
  simpa using hkeep

variable (init : List Seg)

theorem foundAs_iff (seg : Seg) :
    FoundAs target (init ++ [seg]) ↔
      (seg.subs = [] → trailing_subscript_start target = none) ∧
      ∀ subs sub, seg.subs = subs ++ [sub] → ∃ i, trailing_subscript_start target = some i ∧
        parse_expr (target.take i) = .ok (init ++ [{ seg with subs := subs }]) ∧
        IsBrackets sub (target.drop i) := by
  constructor
  · intro h
    exact h init seg rfl
  · rintro h init' seg' heq
    obtain ⟨rfl, hlast⟩ := List.append_inj' heq rfl
    obtain rfl := (List.cons.inj hlast).1
    exact h

theorem none_of_last (c : Char) (h : (trim target).getLast? = some c) (hc : c ≠ ']') :
    trailing_subscript_start target = none := by
  rcases hfound : trailing_subscript_start target with _ | i
  · rfl
  · have hne : trim target ≠ [] := by
      intro hnil
      rw [hnil] at h
      simp at h
    have hends := trailing_ends target i hfound
    rw [last_trim_end target hne, h] at hends
    exact absurd (Option.some.inj hends) hc

/-- Before a final dot no subscript is found, and there is none to find if the segment has none. -/
theorem dotted_final (seg : Seg) (x raw ws : List Char) (htight : Tight raw) (hne : raw ≠ [])
    (hseg : parse_seg (parse_lit parse_expr) raw = .ok seg)
    (hdot : trim target = x ++ (raw ++ (ws ++ ['.']))) (hws : Space ws) :
    FoundAs target (init ++ [seg]) ↔ (EndsInSubscript target → Separable target) := by
  have hlast : (trim target).getLast? = some '.' := by
    rw [hdot, ← List.append_assoc, ← List.append_assoc, List.getLast?_concat]
  have hnone := none_of_last target '.' hlast (by decide)
  have hends : EndsInSubscript target ↔ raw.getLast? = some ']' := by
    have hdrop : (trim target).dropLast = x ++ raw ++ ws := by
      rw [hdot, ← List.append_assoc, ← List.append_assoc, List.dropLast_concat]
    obtain ⟨ws', -, hsplit⟩ := Ends.trim (x ++ raw) (Ends.append_tight x raw htight hne)
    have hne' : trim (x ++ raw) ≠ [] := by
      intro hnil
      have hall := blank_of_trim _ hnil
      have hraw := Ends.blank raw (fun c hc => htight.last c hc)
        fun c hc => hall c (List.mem_append_right x hc)
      exact hne hraw
    rw [EndsInSubscript, hlast, if_pos rfl, hdrop, trim_end_space hws]
    rw [← List.getLast?_append_of_ne_nil ws' hne', ← hsplit, List.getLast?_append_of_ne_nil x hne]
  have hno : ¬ Separable target := by
    intro hsep
    obtain ⟨a, g, hsplit, -, -, -⟩ := separable_ends target hsep
    have hne' : trim target ≠ [] := by
      intro hnil
      rw [hnil] at hlast
      simp at hlast
    have hend := last_trim_end target hne'
    rw [hlast, hsplit, ← List.cons_append, ← List.append_assoc, List.getLast?_concat] at hend
    simp at hend
  rw [foundAs_iff]
  rcases List.eq_nil_or_concat seg.subs with hnil | ⟨subs, sub, hsubs⟩
  · obtain ⟨c, hc, hbracket, -⟩ := plain_segment_last _ raw seg htight hseg hnil
    constructor
    · intro _ hin
      rw [hends, hc] at hin
      exact absurd (Option.some.inj hin) hbracket
    · intro _
      refine ⟨fun _ => hnone, fun subs sub hsubs => ?_⟩
      rw [hnil] at hsubs
      simp at hsubs
  · rw [List.concat_eq_append] at hsubs
    obtain ⟨a, g, hraw, -, -, -, -⟩ := group_segment _ raw seg htight hseg subs sub hsubs
    have hin : EndsInSubscript target := by
      rw [hends, hraw, ← List.cons_append, ← List.append_assoc, List.getLast?_concat]
    constructor
    · intro hfound
      obtain ⟨i, hi, -, -⟩ := hfound.2 subs sub hsubs
      rw [hnone] at hi
      simp at hi
    · intro himp
      exact absurd (himp hin) hno

theorem starts_trim (a b : List Char) (h : ∀ c, (a ++ b).head? = some c → is_whitespace c = false) :
    ∃ w, Space w ∧ a = trim a ++ w := by
  obtain ⟨ws, w, hws, hw, hsplit⟩ := trim_split a
  obtain _ | ⟨c, ws⟩ := ws
  · exact ⟨w, hw, hsplit⟩
  · have hc := h c (by rw [hsplit]; rfl)
    rw [hws c List.mem_cons_self] at hc
    simp at hc

/-- At the end of the target its subscript is found where the target is separable. -/
theorem group_final (seg : Seg) (front raw : List Char) (htight : Tight raw)
    (hseg : parse_seg (parse_lit parse_expr) raw = .ok seg) (hfront : trim target = front ++ raw)
    (hrunf : Level.start.run groups front = .start) (hquiet : Quiet groups '.' .start raw)
    (hput : ∀ raw' seg', Tight raw' → raw' ≠ [] → parse_seg (parse_lit parse_expr) raw' =
      .ok seg' → Quiet groups '.' .start raw' → Level.start.run groups raw' = .start →
        parse_expr (front ++ raw') = .ok (init ++ [seg'])) (subs : List Subscript) (sub : Subscript)
    (hsubs : seg.subs = subs ++ [sub]) :
    (∃ i, trailing_subscript_start target = some i ∧
      parse_expr (target.take i) = .ok (init ++ [{ seg with subs := subs }]) ∧
      IsBrackets sub (target.drop i)) ↔ Separable target := by
  obtain ⟨a, g, rfl, hbody, hsub, hquotes, hseg'⟩ :=
    group_segment _ raw seg htight hseg subs sub hsubs
  obtain ⟨ws, hws, hlead⟩ := trim_end_eq target
  obtain ⟨ws', hws', htail⟩ := trim_end_split target
  rw [hfront] at hlead
  have hwhole : trim_end target = (ws ++ (front ++ a)) ++ '[' :: (g ++ [']']) := by
    rw [hlead]
    simp
  have htarget : target = (ws ++ (front ++ a)) ++ '[' :: (g ++ ']' :: ws') := by
    rw [htail, hwhole]
    simp
  have hfq : quotes front = .default := by
    have := run_quoted groups .start front
    rw [hrunf] at this
    exact this.symm
  have hwq : quotes (ws ++ (front ++ a)) = .default := by
    rw [quotes_append ws _ (fold_space ws hws).2, quotes_append front a hfq, hquotes]
  have hrunw : Level.start.run groups (ws ++ (front ++ a)) = Level.start.run groups a := by
    rw [run_append, space_run groups groups_spaces ws hws, run_append, hrunf]
  have htake : target.take (ws ++ (front ++ a)).length = ws ++ (front ++ a) := by
    rw [htarget, List.take_left]
  have hbrackets : IsBrackets sub (target.drop (ws ++ (front ++ a)).length) := by
    rw [htarget, List.drop_left]
    exact ⟨g, ws', rfl, hws', hbody, hsub⟩
  constructor
  · rintro ⟨i, hi, hparse, -⟩
    obtain ⟨a', g', hsplit, rfl, hclosed, hbody'⟩ := (trailing_some target i).mp hi
    obtain ⟨rfl, rfl⟩ := final_group_unique _ g _ g' hbody hbody' hwq (closed_quotes a' hclosed)
      (hwhole.symm.trans hsplit)
    refine ⟨_, g, ws', htarget, hws', hbody, hclosed, ?_⟩
    rw [htake] at hparse
    obtain ⟨parts, -, hrun, -, -⟩ := (parse_expr_ok _ _).mp hparse
    obtain ⟨v, v', hv, hv', hsplit'⟩ := trim_split (ws ++ (front ++ a))
    rw [hsplit', run_append, space_run groups groups_spaces v hv, run_append, hrun,
      space_run groups groups_spaces v' hv']
  · intro hsep
    obtain ⟨a', g', hsplit, hbody', hclosed, hrun⟩ := separable_ends target hsep
    obtain ⟨rfl, rfl⟩ := final_group_unique _ g _ g' hbody hbody' hwq (closed_quotes a' hclosed)
      (hwhole.symm.trans hsplit)
    refine ⟨_, (trailing_some target _).mpr ⟨_, g, hwhole, rfl, hclosed, hbody⟩, ?_, hbrackets⟩
    rw [hrunw] at hrun
    have hne : trim a ≠ [] := by
      intro hnil
      rw [hnil] at hseg'
      have herror : parse_seg (parse_lit parse_expr) [] = .error (unsupported_token []) := rfl
      rw [herror] at hseg'
      simp at hseg'
    obtain ⟨w, hw, hsplit'⟩ := starts_trim a _ htight.first
    have hfirst : ∀ c, (front ++ trim a).head? = some c → is_whitespace c = false := by
      intro c hc
      obtain _ | ⟨d, front⟩ := front
      · exact (tight_trim a).first c hc
      · have hall := tight_trim target
        rw [hfront] at hall
        exact hall.first c hc
    have hcut : trim (ws ++ (front ++ a)) = front ++ trim a := by
      have hlead := trim_space hws hw (front ++ trim a)
      rw [List.append_assoc, ← hsplit'] at hlead
      rw [hlead]
      exact trim_tight ⟨hfirst, Ends.append_tight front _ (tight_trim a) hne⟩
    rw [htake]
    apply parse_expr_trim
    rw [hcut]
    rw [quiet_append] at hquiet
    have hquieta := hquiet.1
    rw [hsplit', quiet_append] at hquieta
    rw [hsplit'] at hrun
    exact hput _ _ (tight_trim a) hne hseg' hquieta.1
      (run_before_space groups groups_spaces (trim a) w hw hrun)

/-- The scan and the parser agree on the final subscript exactly where the target that ends with one
is separable. -/
theorem final_subscript_iff (target : List Char) (segs : List Seg)
    (h : parse_expr target = .ok segs) :
    FoundAs target segs ↔ (EndsInSubscript target → Separable target) := by
  obtain ⟨init, seg, raw, rfl, htight, hne, hseg, hplace⟩ := last_raw target segs h
  rcases hplace with ⟨front, hfront, hrunf, hquiet, hput⟩ | ⟨x, ws, hdot, hws⟩
  · have hlast : (trim target).getLast? = raw.getLast? := by
      rw [hfront, List.getLast?_append_of_ne_nil front hne]
    rcases List.eq_nil_or_concat seg.subs with hnil | ⟨subs, sub, hsubs⟩
    · obtain ⟨c, hc, hbracket, hdot⟩ := plain_segment_last _ raw seg htight hseg hnil
      rw [hc] at hlast
      rw [foundAs_iff]
      constructor
      · intro _ hin
        rw [EndsInSubscript, hlast, if_neg (by simpa using hdot), hlast] at hin
        exact absurd (Option.some.inj hin) hbracket
      · intro _
        refine ⟨fun _ => none_of_last target c hlast hbracket, fun subs sub hsubs => ?_⟩
        rw [hnil] at hsubs
        simp at hsubs
    · rw [List.concat_eq_append] at hsubs
      have hfinal := group_final target init seg front raw htight hseg hfront hrunf hquiet hput
        subs sub hsubs
      obtain ⟨a, g, hraw, -, -, -, -⟩ := group_segment _ raw seg htight hseg subs sub hsubs
      rw [hraw, ← List.cons_append, ← List.append_assoc, List.getLast?_concat] at hlast
      have hin : EndsInSubscript target := by
        rw [EndsInSubscript, hlast, if_neg (by decide), hlast]
      rw [foundAs_iff]
      constructor
      · intro hfound _
        exact hfinal.mp (hfound.2 subs sub hsubs)
      · intro himp
        refine ⟨fun hnil => ?_, fun subs' sub' hsubs' => ?_⟩
        · rw [hsubs] at hnil
          simp at hnil
        · rw [hsubs] at hsubs'
          obtain ⟨rfl, hsub⟩ := List.append_inj' hsubs' rfl
          obtain rfl := (List.cons.inj hsub).1
          exact hfinal.mpr (himp hin)
  · exact dotted_final target init seg x raw ws htight hne hseg hdot hws

theorem nested_key_found : FoundAs "rows[0][\"]\"]".toList
    [⟨"rows", none, [.index (.int 0), .index (.str "]")]⟩] := by
  refine (final_subscript_iff _ _ rfl).mpr fun _ => ?_
  exact ⟨"rows[0]".toList, "\"]\"".toList, [], rfl, space_nil, ⟨by decide, by decide⟩,
    ⟨by decide +kernel, by decide⟩, by decide⟩

/-- A target that ends with a dot is read, and its subscript is not found. -/
theorem dotted_target_not_found :
    ¬ ∀ target segs, parse_expr target = .ok segs → FoundAs target segs := by
  intro hall
  have hparse : parse_expr "xs[0].".toList = .ok [⟨"xs", none, [.index (.int 0)]⟩] := rfl
  obtain ⟨i, hi, -, -⟩ := (hall _ _ hparse [] _ rfl).2 [] _ rfl
  have hnone : trailing_subscript_start "xs[0].".toList = none := by decide
  rw [hnone] at hi
  simp at hi

end Agreement

end JavaDebug.FinalSubscripts
