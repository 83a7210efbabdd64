import JavaDebug.LooseSignatures

/-!
What is rendered as a method. The bounds of a type parameter are read as far as
something stands there that may be one, so that only the last parameter may be
without a bound: a name that follows one without a bound is read as its bound.
With this the signatures of loose methods are exactly what is rendered, each of
them as its Java source, and no two methods have the same signature.
-/
namespace JavaDebug.LooseMethods

open Octets Cursors Generics LooseSignatures
open WireReader (from_utf8_lossy)
open RequestFraming (as_bytes)

section Grammar

/-- A type parameter; its name does not start with the bracket that ends the parameters. -/
structure LooseParameter where
  name : Chunk [58]
  class_bound : Option LooseType
  interface_bounds : List LooseType
  opens : name.val.head? ≠ some 62

/-- Each type behind a `c`. -/
def each_bytes (c : UInt8) (ts : List LooseType) : Bytes := ts.flatMap fun t => c :: t.bytes

variable (p : LooseParameter)

def LooseParameter.bytes : Bytes :=
  p.name.val ++ 58 ::
    (p.class_bound.toList.flatMap LooseType.bytes ++ each_bytes 58 p.interface_bounds)

def LooseParameter.Bounded : Prop :=
  p.class_bound.isSome ∨ p.interface_bounds ≠ []

/-- A name that follows a type parameter without a bound is read as its bound. -/
structure LooseMethod where
  type_params : List LooseParameter
  params : List LooseType
  ret : LooseType
  throws : List LooseType
  bounded : ∀ p ∈ type_params.dropLast, p.Bounded

def parameters_bytes (ps : List LooseParameter) : Bytes :=
  if ps = [] then [] else 60 :: (ps.flatMap LooseParameter.bytes ++ [62])

def LooseMethod.bytes (m : LooseMethod) : Bytes :=
  parameters_bytes m.type_params ++ 40 :: (m.params.flatMap LooseType.bytes ++
    41 :: (m.ret.bytes ++ each_bytes 94 m.throws))

def LooseParameter.java : String :=
  declaration (from_utf8_lossy p.name.val)
    ((p.class_bound.toList ++ p.interface_bounds).map LooseType.java)

def LooseMethod.java (m : LooseMethod) : MethodParts where
  type_params := m.type_params.map LooseParameter.java
  params := m.params.map LooseType.java
  ret := m.ret.java
  throws := m.throws.map LooseType.java

end Grammar

section Accepted

variable {s rest : Bytes} {out : List String}

theorem parameter_first (p : LooseParameter) : ∃ b tail, p.bytes = b :: tail ∧ b ≠ 62 ∧ b ≠ 58 := by
  obtain ⟨⟨name, hne, hclear⟩, bound, interfaces, hopens⟩ := p
  cases name with
  | nil => exact absurd rfl hne
  | cons b tail =>
    refine ⟨b, _, rfl, ?_, ?_⟩
    · rintro rfl
      exact hopens rfl
    · rintro rfl
      exact hclear 58 List.mem_cons_self List.mem_cons_self

theorem parameters_apart (ps : List LooseParameter) (rest : Bytes) :
    Apart 58 (ps.flatMap LooseParameter.bytes ++ 62 :: rest) := by
  cases ps with
  | nil => exact fun h => absurd (Option.some.inj h) (by decide)
  | cons p ps =>
    obtain ⟨b, tail, hb, -, hcolon⟩ := parameter_first p
    rw [List.flatMap_cons, hb]
    exact fun h => hcolon (Option.some.inj h)

theorem after_each_inv (c : UInt8) (n : ℕ) (types : List String)
    (h : after_each c n types s = some (out, rest)) :
    ∃ ts, s = each_bytes c ts ++ rest ∧ Apart c rest := by
  induction n generalizing types s with
  | zero => cases h
  | succ n ih =>
    obtain ⟨more, left, heat, hgo⟩ := some_of_bind h
    unfold eat at heat
    by_cases hmore : s.head? = some c
    · rw [if_pos hmore] at heat
      cases heat
      obtain ⟨text, left, htype, hloop⟩ := some_of_bind hgo
      obtain ⟨t, ht⟩ := type_of_inv _ _ _ htype
      obtain ⟨ts, rfl, hapart⟩ := ih _ hloop
      obtain ⟨tail, rfl⟩ := List.head?_eq_some_iff.mp hmore
      rw [List.tail_cons] at ht
      refine ⟨t :: ts, ?_, hapart⟩
      rw [ht]
      simp [each_bytes]
    · rw [if_neg hmore] at heat
      cases heat
      cases hgo
      exact ⟨[], rfl, hmore⟩

theorem until_close_inv (n : ℕ) (texts : List String)
    (h : until_byte 41 type_of n texts s = some (out, rest)) :
    ∃ ts : List LooseType, s = ts.flatMap LooseType.bytes ++ rest := by
  induction n generalizing texts s with
  | zero => cases h
  | succ n ih =>
    obtain ⟨next, left, hpeek, hgo⟩ := some_of_bind h
    cases hpeek
    by_cases hstop : s.head? = none ∨ s.head? = some 41
    · rw [if_pos hstop] at hgo
      cases hgo
      exact ⟨[], rfl⟩
    · rw [if_neg hstop] at hgo
      obtain ⟨text, left, hitem, hloop⟩ := some_of_bind hgo
      obtain ⟨t, rfl⟩ := type_of_inv _ _ _ hitem
      obtain ⟨ts, rfl⟩ := ih _ hloop
      exact ⟨t :: ts, by rw [List.flatMap_cons, List.append_assoc]⟩

theorem class_bound_inv (h : class_bound s = some (out, rest)) :
    ∃ bound : Option LooseType, s = bound.toList.flatMap LooseType.bytes ++ rest ∧
      (bound = none → rest.head? = none ∨ rest.head? = some 58 ∨ rest.head? = some 62) := by
  obtain ⟨next, left, hpeek, hgo⟩ := some_of_bind h
  cases hpeek
  by_cases hnone : s.head? = none ∨ s.head? = some 58 ∨ s.head? = some 62
  · rw [if_pos hnone] at hgo
    cases hgo
    exact ⟨none, rfl, fun _ => hnone⟩
  · rw [if_neg hnone] at hgo
    obtain ⟨text, left, htype, hpure⟩ := some_of_bind hgo
    cases hpure
    obtain ⟨t, ht⟩ := type_of_inv _ _ _ htype
    refine ⟨some t, ?_, fun h => by cases h⟩
    rw [ht]
    simp

/-- A parameter without a bound is followed by the end. -/
theorem type_parameter_inv {text : String} (hopens : s.head? ≠ some 62)
    (h : type_parameter s = some (text, rest)) :
    ∃ p : LooseParameter, s = p.bytes ++ rest ∧
      (p.Bounded ∨ rest.head? = none ∨ rest.head? = some 62) := by
  obtain ⟨name, left₁, hident, hrest⟩ := some_of_bind h
  obtain ⟨u, left₂, hneed, hbounds⟩ := some_of_bind hrest
  obtain ⟨bound, left₃, hclass, heach⟩ := some_of_bind hbounds
  obtain ⟨bounds, left₄, hloop, hpure⟩ := some_of_bind heach
  cases hpure
  obtain ⟨name, hs⟩ := ident_inv hident
  obtain ⟨bound, hclass, hnext⟩ := class_bound_inv hclass
  obtain ⟨ts, hts, hapart⟩ := after_each_inv _ _ _ hloop
  have hname : name.val.head? ≠ some 62 := by
    rw [hs, List.head?_append_of_ne_nil _ name.property.1] at hopens
    exact hopens
  refine ⟨⟨name, bound, ts, hname⟩, ?_, ?_⟩
  · rw [hs, need_inv hneed, hclass, hts, LooseParameter.bytes]
    simp
  · cases bound with
    | some t => exact .inl (.inl rfl)
    | none =>
      by_cases hnone : ts = []
      · subst hnone
        obtain rfl : left₃ = rest := hts
        rcases hnext rfl with h | h | h
        · exact .inr (.inl h)
        · exact absurd h hapart
        · exact .inr (.inr h)
      · exact .inl (.inr hnone)

theorem parameter_list_inv (n : ℕ) (texts : List String)
    (h : until_byte 62 type_parameter n texts s = some (out, rest)) :
    ∃ ps : List LooseParameter, s = ps.flatMap LooseParameter.bytes ++ rest ∧
      out.length = texts.length + ps.length ∧ ∀ p ∈ ps.dropLast, p.Bounded := by
  induction n generalizing texts s with
  | zero => cases h
  | succ n ih =>
    obtain ⟨next, left, hpeek, hgo⟩ := some_of_bind h
    cases hpeek
    by_cases hstop : s.head? = none ∨ s.head? = some 62
    · rw [if_pos hstop] at hgo
      cases hgo
      exact ⟨[], rfl, rfl, by simp⟩
    · rw [if_neg hstop] at hgo
      obtain ⟨text, left, hitem, hloop⟩ := some_of_bind hgo
      obtain ⟨p, rfl, hp⟩ := type_parameter_inv (fun h => hstop (.inr h)) hitem
      obtain ⟨ps, rfl, hlength, hps⟩ := ih _ hloop
      rw [List.length_append, List.length_singleton] at hlength
      refine ⟨p :: ps, by rw [List.flatMap_cons, List.append_assoc],
        by rw [List.length_cons]; omega, ?_⟩
      cases ps with
      | nil => simp
      | cons q ps =>
        obtain ⟨b, tail, hb, hclose, -⟩ := parameter_first q
        rw [List.flatMap_cons, hb] at hp
        have hbounded : p.Bounded := by
          rcases hp with hp | hp | hp
          · exact hp
          · cases hp
          · exact absurd (Option.some.inj hp) hclose
        intro p' hp'
        rw [List.dropLast_cons_of_ne_nil (List.cons_ne_nil q ps)] at hp'
        rcases List.mem_cons.mp hp' with rfl | hp'
        · exact hbounded
        · exact hps p' hp'

theorem own_parameters_inv (h : own_parameters s = some (out, rest)) :
    ∃ ps, s = parameters_bytes ps ++ rest ∧ ∀ p ∈ ps.dropLast, p.Bounded := by
  obtain ⟨next, left, hpeek, hgo⟩ := some_of_bind h
  cases hpeek
  by_cases hopen : s.head? = some 60
  · rw [if_pos hopen] at hgo
    obtain ⟨u, left₁, hneed, hloop⟩ := some_of_bind hgo
    obtain ⟨params, left₂, hparams, hclose⟩ := some_of_bind hloop
    obtain ⟨u', left₃, hneed', hpure⟩ := some_of_bind hclose
    obtain ⟨ps, hps, hlength, hbounded⟩ := parameter_list_inv _ _ hparams
    by_cases hnone : params = []
    · rw [if_pos hnone] at hpure
      cases hpure
    · rw [if_neg hnone] at hpure
      cases hpure
      have hne : ps ≠ [] := by
        rintro rfl
        exact hnone (List.length_eq_zero_iff.mp hlength)
      refine ⟨ps, ?_, hbounded⟩
      rw [need_inv hneed, hps, need_inv hneed', parameters_bytes, if_neg hne]
      simp
  · rw [if_neg hopen] at hgo
    cases hgo
    exact ⟨[], rfl, by simp⟩

theorem method_sig_inv {out : MethodParts} (h : method_sig s = some (out, rest)) :
    ∃ m : LooseMethod, s = m.bytes ++ rest := by
  obtain ⟨type_params, left₁, howns, h₁⟩ := some_of_bind h
  obtain ⟨u, left₂, hopen, h₂⟩ := some_of_bind h₁
  obtain ⟨params, left₃, hparams, h₃⟩ := some_of_bind h₂
  obtain ⟨u', left₄, hclose, h₄⟩ := some_of_bind h₃
  obtain ⟨ret, left₅, hret, h₅⟩ := some_of_bind h₄
  obtain ⟨throws, left₆, hthrows, hpure⟩ := some_of_bind h₅
  cases hpure
  obtain ⟨ps, hps, hbounded⟩ := own_parameters_inv howns
  obtain ⟨ts, hts⟩ := until_close_inv _ _ hparams
  obtain ⟨t, ht⟩ := type_of_inv _ _ _ hret
  obtain ⟨es, hes, -⟩ := after_each_inv _ _ _ hthrows
  refine ⟨⟨ps, ts, t, es, hbounded⟩, ?_⟩
  rw [hps, need_inv hopen, hts, need_inv hclose, ht, hes, LooseMethod.bytes]
  simp

end Accepted

section Reading

variable {rest : Bytes}

theorem after_each_read {c : UInt8} (ts : List LooseType) {n : ℕ} (hn : ts.length < n)
    (types : List String) (hrest : Apart c rest) :
    after_each c n types (each_bytes c ts ++ rest) =
      some (types ++ ts.map LooseType.java, rest) := by
  obtain ⟨n, rfl⟩ := Nat.exists_eq_succ_of_ne_zero (Nat.ne_zero_of_lt hn)
  induction ts generalizing n types with
  | nil =>
    rw [List.map_nil, List.append_nil]
    exact bind_of_some (eat_apart hrest)
  | cons t ts ih =>
    obtain ⟨n, rfl⟩ := Nat.exists_eq_succ_of_ne_zero
      (Nat.ne_zero_of_lt (Nat.lt_of_succ_lt_succ hn))
    have hread := ih (types ++ [t.java]) n (Nat.lt_of_succ_lt_succ hn)
    have hsame : each_bytes c (t :: ts) ++ rest = c :: (t.bytes ++ (each_bytes c ts ++ rest)) := by
      simp [each_bytes]
    rw [List.append_assoc] at hread
    rw [hsame, List.map_cons]
    rw [after_each, bind_of_some (eat_read c _), if_pos rfl, (type_of_read t).run_bind]
    exact hread

/-- Items are read one after another, if each is in front of those that follow. -/
theorem until_byte_read {α : Type} {c : UInt8} {p : Parse String} {bytes : α → Bytes}
    {java : α → String} (hfirst : ∀ a, ∃ b tail, bytes a = b :: tail ∧ b ≠ c) (l : List α)
    (rest : Bytes) (hl : ∀ front a back, l = front ++ a :: back →
      p (bytes a ++ (back.flatMap bytes ++ c :: rest)) =
        some (java a, back.flatMap bytes ++ c :: rest)) {n : ℕ} (hn : l.length < n)
    (texts : List String) :
    until_byte c p n texts (l.flatMap bytes ++ c :: rest) =
      some (texts ++ l.map java, c :: rest) := by
  obtain ⟨n, rfl⟩ := Nat.exists_eq_succ_of_ne_zero (Nat.ne_zero_of_lt hn)
  induction l generalizing n texts with
  | nil =>
    show (if some c = none ∨ some c = some c then pure texts else _ : Parse (List String))
      (c :: rest) = _
    rw [if_pos (Or.inr rfl), List.map_nil, List.append_nil]
    rfl
  | cons a l ih =>
    obtain ⟨n, rfl⟩ := Nat.exists_eq_succ_of_ne_zero
      (Nat.ne_zero_of_lt (Nat.lt_of_succ_lt_succ hn))
    have hitem := hl [] a l rfl
    have hrest := ih (fun front a' back hsplit =>
      hl (a :: front) a' back (by rw [hsplit, List.cons_append])) (texts ++ [java a]) n
      (Nat.lt_of_succ_lt_succ hn)
    obtain ⟨b, tail, hb, hne⟩ := hfirst a
    have hgo : ¬ (some b = none ∨ some b = some c) := by
      rintro (h | h)
      · cases h
      · exact hne (Option.some.inj h)
    rw [List.append_assoc] at hrest
    rw [List.flatMap_cons, List.append_assoc, until_byte]
    generalize l.flatMap bytes ++ c :: rest = later at hitem hrest ⊢
    have hhead : (bytes a ++ later).head? = some b := by
      rw [hb]
      rfl
    show (if (bytes a ++ later).head? = none ∨ (bytes a ++ later).head? = some c then pure texts
      else _ : Parse (List String)) (bytes a ++ later) = _
    rw [hhead, if_neg hgo]
    rw [bind_of_some hitem]
    exact hrest

theorem close_apart (t : LooseType) : ∃ b tail, t.bytes = b :: tail ∧ b ≠ 41 := by
  obtain ⟨b, tail, hb, hapart⟩ := bytes_first t
  refine ⟨b, tail, hb, ?_⟩
  rintro rfl
  exact hapart (by decide)

/-- Items that are not empty are no more than their bytes. -/
theorem length_items {α : Type} (bytes : α → Bytes) {P : UInt8 → Prop}
    (hfirst : ∀ a, ∃ b tail, bytes a = b :: tail ∧ P b) (l : List α) :
    l.length ≤ (l.flatMap bytes).length := by
  induction l with
  | nil => exact Nat.zero_le _
  | cons a l ih =>
    obtain ⟨b, tail, hb, -⟩ := hfirst a
    rw [List.flatMap_cons, List.length_append, List.length_cons, hb, List.length_cons]
    omega

theorem length_each (c : UInt8) (ts : List LooseType) : ts.length ≤ (each_bytes c ts).length :=
  length_items (fun t : LooseType => c :: t.bytes) (P := fun b => b = c)
    (fun t => ⟨c, t.bytes, rfl, rfl⟩) ts

variable (p : LooseParameter)

theorem class_bound_read (hp : p.Bounded ∨ rest.head? = some 62) :
    class_bound (p.class_bound.toList.flatMap LooseType.bytes ++
        (each_bytes 58 p.interface_bounds ++ rest)) =
      some (p.class_bound.toList.map LooseType.java,
        each_bytes 58 p.interface_bounds ++ rest) := by
  obtain ⟨name, bound, ts, hopens⟩ := p
  cases bound with
  | none =>
    have hstop : (each_bytes 58 ts ++ rest).head? = none ∨
        (each_bytes 58 ts ++ rest).head? = some 58 ∨
          (each_bytes 58 ts ++ rest).head? = some 62 := by
      cases ts with
      | nil =>
        rcases hp with (hp | hp) | hp
        · cases hp
        · exact absurd rfl hp
        · exact .inr (.inr hp)
      | cons t ts => exact .inr (.inl rfl)
    show (if (each_bytes 58 ts ++ rest).head? = none ∨
      (each_bytes 58 ts ++ rest).head? = some 58 ∨ (each_bytes 58 ts ++ rest).head? = some 62
      then pure [] else _ : Parse (List String)) (each_bytes 58 ts ++ rest) = _
    rw [if_pos hstop]
    rfl
  | some t =>
    obtain ⟨b, tail, hb, hapart⟩ := bytes_first t
    have hgo : ¬ (some b = none ∨ some b = some 58 ∨ some b = some 62) := by
      rintro (h | h | h)
      · cases h
      · obtain rfl := Option.some.inj h
        exact hapart (by decide)
      · obtain rfl := Option.some.inj h
        exact hapart (by decide)
    simp only [Option.toList_some, List.flatMap_cons, List.flatMap_nil, List.append_nil]
    generalize each_bytes 58 ts ++ rest = later
    have hhead : (t.bytes ++ later).head? = some b := by
      rw [hb]
      rfl
    show (if (t.bytes ++ later).head? = none ∨ (t.bytes ++ later).head? = some 58 ∨
      (t.bytes ++ later).head? = some 62 then pure [] else _ : Parse (List String))
      (t.bytes ++ later) = _
    rw [hhead, if_neg hgo]
    exact (type_of_read t).run_bind _ later

theorem type_parameter_read (hp : p.Bounded ∨ rest.head? = some 62) (hrest : Apart 58 rest) :
    type_parameter (p.bytes ++ rest) = some (p.java, rest) := by
  have hbounds := class_bound_read p hp
  have hrounds : p.interface_bounds.length <
      (each_bytes 58 p.interface_bounds ++ rest).length + 1 := by
    have := length_each 58 p.interface_bounds
    rw [List.length_append]
    omega
  have heach : rounds (fun n => after_each 58 n (p.class_bound.toList.map LooseType.java))
      (each_bytes 58 p.interface_bounds ++ rest) = some _ :=
    after_each_read p.interface_bounds hrounds (p.class_bound.toList.map LooseType.java) hrest
  have hident := ident_read p.name List.mem_cons_self
    (p.class_bound.toList.flatMap LooseType.bytes ++ (each_bytes 58 p.interface_bounds ++ rest))
  rw [LooseParameter.bytes]
  simp only [List.append_assoc, List.cons_append]
  rw [type_parameter, bind_of_some hident, bind_of_some (need_read 58 _), bind_of_some hbounds,
    bind_of_some heach, ← List.map_append]
  rfl

theorem parameter_open : ∃ b tail, p.bytes = b :: tail ∧ b ≠ 62 := by
  obtain ⟨b, tail, hb, hclose, -⟩ := parameter_first p
  exact ⟨b, tail, hb, hclose⟩

/-- All parameters but the last are bounded. -/
theorem bounded_before {ps front back : List LooseParameter} {p : LooseParameter}
    (hps : ∀ p ∈ ps.dropLast, p.Bounded) (hsplit : ps = front ++ p :: back) :
    p.Bounded ∨ (back.flatMap LooseParameter.bytes ++ 62 :: rest).head? = some 62 := by
  cases back with
  | nil => exact .inr rfl
  | cons q back =>
    refine .inl (hps p ?_)
    rw [hsplit, List.dropLast_append_of_ne_nil (List.cons_ne_nil _ _),
      List.dropLast_cons_of_ne_nil (List.cons_ne_nil _ _)]
    exact List.mem_append_right _ List.mem_cons_self

theorem own_parameters_read (ps : List LooseParameter) (hps : ∀ p ∈ ps.dropLast, p.Bounded)
    (rest : Bytes) :
    own_parameters (parameters_bytes ps ++ 40 :: rest) =
      some (ps.map LooseParameter.java, 40 :: rest) := by
  by_cases hnone : ps = []
  · subst hnone
    rfl
  · have hfew := length_items LooseParameter.bytes parameter_open ps
    have hread : rounds (fun n => until_byte 62 type_parameter n [])
        (ps.flatMap LooseParameter.bytes ++ 62 :: 40 :: rest) =
          some (ps.map LooseParameter.java, 62 :: 40 :: rest) :=
      until_byte_read parameter_open ps (40 :: rest)
        (fun _ p back hsplit => type_parameter_read p (bounded_before hps hsplit)
          (parameters_apart back (40 :: rest)))
        (by rw [List.length_append]; omega) []
    have hne : ps.map LooseParameter.java ≠ [] := by
      rwa [Ne, List.map_eq_nil_iff]
    rw [parameters_bytes, if_neg hnone]
    simp only [List.cons_append, List.append_assoc, List.nil_append]
    show type_parameters (60 :: (ps.flatMap LooseParameter.bytes ++ 62 :: 40 :: rest)) = _
    rw [type_parameters, bind_of_some (need_read 60 _), bind_of_some hread,
      bind_of_some (need_read 62 _), if_neg hne]
    rfl

theorem method_sig_read (m : LooseMethod) : method_sig m.bytes = some (m.java, []) := by
  obtain ⟨ps, ts, ret, es, hps⟩ := m
  have hts := length_items LooseType.bytes close_apart ts
  have hes := length_each 94 es
  have hparams (rest : Bytes) : rounds (fun n => until_byte 41 type_of n [])
      (ts.flatMap LooseType.bytes ++ 41 :: rest) = some (ts.map LooseType.java, 41 :: rest) :=
    until_byte_read close_apart ts rest
      (fun _ t back _ => type_of_read t (back.flatMap LooseType.bytes ++ 41 :: rest))
      (by rw [List.length_append]; omega) []
  have hthrows : rounds (fun n => after_each 94 n []) (each_bytes 94 es ++ []) =
      some (es.map LooseType.java, []) :=
    after_each_read es (by rw [List.length_append]; omega) [] (by simp [Apart])
  rw [List.append_nil] at hthrows
  show method_sig (parameters_bytes ps ++ 40 :: (ts.flatMap LooseType.bytes ++
    41 :: (ret.bytes ++ each_bytes 94 es))) = _
  rw [method_sig, bind_of_some (own_parameters_read ps hps _), bind_of_some (need_read 40 _),
    bind_of_some (hparams _), bind_of_some (need_read 41 _), bind_of_some (type_of_read ret _),
    bind_of_some hthrows]
  rfl

theorem render_method_bytes {sig : String} {m : LooseMethod} (h : as_bytes sig = m.bytes) :
    render_method sig = some m.java :=
  finished_read (by rw [h, method_sig_read])

/-- What is rendered as a method is the signature of a loose method. -/
theorem render_method_iff (sig : String) :
    (render_method sig).isSome ↔ ∃ m : LooseMethod, as_bytes sig = m.bytes := by
  constructor
  · intro h
    obtain ⟨out, hout⟩ := finished_inv h
    obtain ⟨m, hm⟩ := method_sig_inv hout
    exact ⟨m, by rw [hm, List.append_nil]⟩
  · rintro ⟨m, hm⟩
    rw [render_method_bytes hm]
    rfl

end Reading

section Unique

variable {r r' : Bytes}

/-- Items up to `c` are the only ones that are written so, if each is where it stands. -/
theorem items_unique {α : Type} {c : UInt8} {bytes : α → Bytes}
    (hfirst : ∀ a, ∃ b tail, bytes a = b :: tail ∧ b ≠ c) (l l' : List α)
    (hl : ∀ front a back front' a' back', l = front ++ a :: back → l' = front' ++ a' :: back' →
      bytes a ++ (back.flatMap bytes ++ c :: r) = bytes a' ++ (back'.flatMap bytes ++ c :: r') →
        a = a' ∧ back.flatMap bytes ++ c :: r = back'.flatMap bytes ++ c :: r')
    (h : l.flatMap bytes ++ c :: r = l'.flatMap bytes ++ c :: r') : l = l' ∧ r = r' := by
  have hclosed (a : α) (s s' : Bytes) : bytes a ++ s ≠ c :: s' := by
    obtain ⟨b, tail, hb, hne⟩ := hfirst a
    rw [hb]
    exact fun h => hne (List.cons.inj h).1
  induction l generalizing l' with
  | nil =>
    cases l' with
    | nil => exact ⟨rfl, (List.cons.inj h).2⟩
    | cons a' l' =>
      rw [List.flatMap_cons, List.append_assoc] at h
      exact absurd h.symm (hclosed a' _ _)
  | cons a l ih =>
    rw [List.flatMap_cons, List.append_assoc] at h
    cases l' with
    | nil => exact absurd h (hclosed a _ _)
    | cons a' l' =>
      rw [List.flatMap_cons, List.append_assoc] at h
      obtain ⟨rfl, hrest⟩ := hl [] a l [] a' l' rfl rfl h
      obtain ⟨rfl, hend⟩ := ih l' (fun front b back front' b' back' hs hs' =>
        hl (a :: front) b back (a :: front') b' back' (by rw [hs, List.cons_append])
          (by rw [hs', List.cons_append])) hrest
      exact ⟨rfl, hend⟩

theorem each_unique {c : UInt8} (ts ts' : List LooseType) (hr : Apart c r) (hr' : Apart c r')
    (h : each_bytes c ts ++ r = each_bytes c ts' ++ r') : ts = ts' ∧ r = r' := by
  have hcons (t : LooseType) (ts : List LooseType) (r : Bytes) :
      each_bytes c (t :: ts) ++ r = c :: (t.bytes ++ (each_bytes c ts ++ r)) := by
    simp [each_bytes]
  induction ts generalizing ts' with
  | nil =>
    cases ts' with
    | nil => exact ⟨rfl, h⟩
    | cons t' ts' =>
      rw [hcons] at h
      exact absurd (congrArg List.head? h) hr
  | cons t ts ih =>
    rw [hcons] at h
    cases ts' with
    | nil => exact absurd (congrArg List.head? h).symm hr'
    | cons t' ts' =>
      rw [hcons] at h
      obtain ⟨rfl, hrest⟩ := type_unique t t' _ _ (List.cons.inj h).2
      obtain ⟨rfl, hend⟩ := ih ts' hrest
      exact ⟨rfl, hend⟩

/-- Where a class bound is read, one is written, if something that is no bound follows. -/
theorem class_bound_unique {t t' : Option LooseType}
    (hr : t = none → r.head? = some 58 ∨ r.head? = some 62)
    (hr' : t' = none → r'.head? = some 58 ∨ r'.head? = some 62)
    (h : t.toList.flatMap LooseType.bytes ++ r = t'.toList.flatMap LooseType.bytes ++ r') :
    t = t' ∧ r = r' := by
  have hother {t : LooseType} {r r' : Bytes} (hr : r.head? = some 58 ∨ r.head? = some 62) :
      r ≠ t.bytes ++ r' := by
    obtain ⟨b, tail, hb, hapart⟩ := bytes_first t
    rintro rfl
    rw [hb] at hr
    rcases hr with hr | hr <;> obtain rfl := Option.some.inj hr <;> exact hapart (by decide)
  cases t with
  | none =>
    cases t' with
    | none => exact ⟨rfl, h⟩
    | some t' => exact absurd (by simpa using h) (hother (t := t') (hr rfl))
  | some t =>
    cases t' with
    | none => exact absurd (by simpa using h.symm) (hother (t := t) (hr' rfl))
    | some t' =>
      obtain ⟨rfl, hend⟩ := type_unique t t' r r' (by simpa using h)
      exact ⟨rfl, hend⟩

/-- Where no class bound is written, an interface bound or the end follows. -/
theorem bound_next {p : LooseParameter} (hp : p.Bounded ∨ r.head? = some 62)
    (hnone : p.class_bound = none) :
    (each_bytes 58 p.interface_bounds ++ r).head? = some 58 ∨
      (each_bytes 58 p.interface_bounds ++ r).head? = some 62 := by
  obtain ⟨name, bound, ts, hopens⟩ := p
  cases ts with
  | nil => exact .inr (hp.resolve_left (by simp_all [LooseParameter.Bounded]))
  | cons t ts => exact .inl rfl

theorem parameter_unique {p p' : LooseParameter} (hr : Apart 58 r) (hr' : Apart 58 r')
    (hp : p.Bounded ∨ r.head? = some 62) (hp' : p'.Bounded ∨ r'.head? = some 62)
    (h : p.bytes ++ r = p'.bytes ++ r') : p = p' ∧ r = r' := by
  have hnext := bound_next hp
  have hnext' := bound_next hp'
  obtain ⟨name, t, ts, hopens⟩ := p
  obtain ⟨name', t', ts', hopens'⟩ := p'
  rw [LooseParameter.bytes, LooseParameter.bytes] at h
  simp only [List.append_assoc, List.cons_append] at h
  obtain ⟨rfl, hrest⟩ := chunk_unique name name' List.mem_cons_self List.mem_cons_self h
  obtain ⟨rfl, hrest⟩ := class_bound_unique hnext hnext' (List.cons.inj hrest).2
  obtain ⟨rfl, hend⟩ := each_unique ts ts' hr hr' hrest
  exact ⟨rfl, hend⟩

theorem own_parameters_unique {ps ps' : List LooseParameter} (hps : ∀ p ∈ ps.dropLast, p.Bounded)
    (hps' : ∀ p ∈ ps'.dropLast, p.Bounded)
    (h : parameters_bytes ps ++ 40 :: r = parameters_bytes ps' ++ 40 :: r') :
    ps = ps' ∧ r = r' := by
  unfold parameters_bytes at h
  by_cases hnone : ps = []
  · by_cases hnone' : ps' = []
    · rw [if_pos hnone, if_pos hnone'] at h
      exact ⟨by rw [hnone, hnone'], (List.cons.inj h).2⟩
    · rw [if_pos hnone, if_neg hnone'] at h
      exact absurd (List.cons.inj h).1 (by decide)
  · by_cases hnone' : ps' = []
    · rw [if_neg hnone, if_pos hnone'] at h
      exact absurd (List.cons.inj h).1 (by decide)
    · rw [if_neg hnone, if_neg hnone'] at h
      simp only [List.cons_append, List.append_assoc, List.nil_append] at h
      obtain ⟨rfl, hend⟩ := items_unique parameter_open ps ps'
        (fun _ _ back _ _ back' hs hs' => parameter_unique (parameters_apart back _)
          (parameters_apart back' _) (bounded_before hps hs) (bounded_before hps' hs'))
        (List.cons.inj h).2
      exact ⟨rfl, (List.cons.inj hend).2⟩

theorem method_unique {m m' : LooseMethod} (h : m.bytes = m'.bytes) : m = m' := by
  obtain ⟨ps, ts, t, es, hps⟩ := m
  obtain ⟨ps', ts', t', es', hps'⟩ := m'
  obtain ⟨rfl, hrest⟩ := own_parameters_unique hps hps' h
  obtain ⟨rfl, hrest⟩ := items_unique close_apart ts ts'
    (fun _ t _ _ t' _ _ _ => type_unique t t' _ _) hrest
  obtain ⟨rfl, hrest⟩ := type_unique t t' _ _ hrest
  have hend : Apart 94 [] := by simp [Apart]
  obtain ⟨rfl, -⟩ := each_unique es es' hend hend (by rw [hrest])
  rfl

end Unique

end JavaDebug.LooseMethods
