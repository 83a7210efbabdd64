import JavaDebug.Generics
import Mathlib.Data.List.TakeWhile

/-!
What the renderer of generic signatures accepts. Its types have `void` among
them, its arguments and bounds are any types, and its names are any bytes up to
the next that ends a name where it stands. The signatures of these loose types
are exactly what is rendered as a type, each of them is rendered as its Java
source, and no two have the same signature.
-/
namespace JavaDebug.LooseSignatures

open Octets Cursors Generics
open WireReader (from_utf8_lossy dotted)
open RequestFraming (as_bytes)

section Trees

abbrev Dims := {n : ℕ // n ≤ 255}

/-- The bytes of a name that ends before any of `stop`. -/
abbrev Chunk (stop : Bytes) := {bs : Bytes // bs ≠ [] ∧ ∀ b ∈ bs, b ∉ stop}

abbrev Letter := {b : UInt8 // (base_type b).isSome}

mutual

inductive LooseType
  | base (dims : Dims) (letter : Letter)
  | variable_ (dims : Dims) (name : Chunk [59])
  | class_ (dims : Dims) (first : LooseSegment) (nested : List LooseSegment)

inductive LooseSegment
  | mk (name : Chunk [60, 59, 46]) (args : List LooseArgument)

inductive LooseArgument
  | any
  | extends_ (t : LooseType)
  | super_ (t : LooseType)
  | exact_ (t : LooseType)

end

def openings (dims : Dims) : Bytes := List.replicate dims.val 91

mutual

def LooseType.bytes : LooseType → Bytes
  | .base dims letter => openings dims ++ [letter.val]
  | .variable_ dims name => openings dims ++ 84 :: (name.val ++ [59])
  | .class_ dims first nested =>
    openings dims ++ 76 :: (first.bytes ++ (nested_bytes nested ++ [59]))

def LooseSegment.bytes : LooseSegment → Bytes
  | .mk name args => name.val ++ angle_bytes args

def nested_bytes : List LooseSegment → Bytes
  | [] => []
  | s :: nested => 46 :: (s.bytes ++ nested_bytes nested)

def LooseArgument.bytes : LooseArgument → Bytes
  | .any => [42]
  | .extends_ t => 43 :: t.bytes
  | .super_ t => 45 :: t.bytes
  | .exact_ t => t.bytes

def args_bytes : List LooseArgument → Bytes
  | [] => []
  | a :: args => a.bytes ++ args_bytes args

/-- The arguments in their brackets, if there are any. -/
def angle_bytes : List LooseArgument → Bytes
  | [] => []
  | a :: args => 60 :: (a.bytes ++ (args_bytes args ++ [62]))

end

def joined (out : String) : String := if out.isEmpty then out else out ++ "."

mutual

/-- The type as Java source. -/
def LooseType.java : LooseType → String
  | .base dims letter => (base_type letter.val).getD "" ++ brackets dims.val
  | .variable_ dims name => from_utf8_lossy name.val ++ brackets dims.val
  | .class_ dims first nested => nested_java nested (first.java "") ++ brackets dims.val

/-- A segment behind what is there of its class type. -/
def LooseSegment.java : LooseSegment → String → String
  | .mk name args, out => joined out ++ dotted (from_utf8_lossy name.val) ++ angle_java args

def nested_java : List LooseSegment → String → String
  | [], out => out
  | s :: nested, out => nested_java nested (s.java out)

def LooseArgument.java : LooseArgument → String
  | .any => "?"
  | .extends_ t => "? extends " ++ t.java
  | .super_ t => "? super " ++ t.java
  | .exact_ t => t.java

def args_java : List LooseArgument → List String
  | [] => []
  | a :: args => a.java :: args_java args

def angle_java : List LooseArgument → String
  | [] => ""
  | a :: args => "<" ++ join ", " (a.java :: args_java args) ++ ">"

end

end Trees

section Accepted

variable {s rest : Bytes}

theorem need_inv {c : UInt8} {u : Unit} (h : need c s = some (u, rest)) : s = c :: rest := by
  obtain ⟨eaten, mid, heat, hpure⟩ := some_of_bind h
  unfold eat at heat
  cases s with
  | nil =>
    cases heat
    cases hpure
  | cons b s =>
    by_cases hb : b = c
    · rw [List.head?_cons, hb, if_pos rfl] at heat
      cases heat
      cases hpure
      rw [hb, List.tail_cons]
    · rw [List.head?_cons, if_neg fun h => hb (Option.some.inj h)] at heat
      cases heat
      cases hpure

theorem ident_inv {stop : Bytes} {text : String} (h : ident stop s = some (text, rest)) :
    ∃ name : Chunk stop, s = name.val ++ rest := by
  unfold ident at h
  by_cases hempty : s.takeWhile (fun c => c ∉ stop) = []
  · simp only [hempty, if_true] at h
    cases h
  · simp only [hempty, if_false] at h
    cases h
    refine ⟨⟨s.takeWhile fun c => c ∉ stop, hempty, fun b hb => ?_⟩,
      List.takeWhile_append_dropWhile.symm⟩
    simpa using List.mem_takeWhile_imp hb

theorem dimensions_inv {k d : ℕ} (hk : k ≤ 255) (h : dimensions k s = some (d, rest)) :
    k ≤ d ∧ d ≤ 255 ∧ s = List.replicate (d - k) 91 ++ rest := by
  induction s generalizing k with
  | nil =>
    cases h
    exact ⟨Nat.le_refl _, hk, by rw [Nat.sub_self]; rfl⟩
  | cons b s ih =>
    by_cases hb : b = 91
    · subst hb
      rw [dimensions] at h
      by_cases hmany : k + 1 > 255
      · rw [if_pos hmany] at h
        cases h
      · rw [if_neg hmany] at h
        obtain ⟨hle, hmax, hs⟩ := ih (by omega) h
        refine ⟨by omega, hmax, ?_⟩
        have hone : d - k = d - (k + 1) + 1 := by omega
        rw [hs, hone, List.replicate_succ, List.cons_append]
    · have hstop : dimensions k (b :: s) = some (k, b :: s) := by
        unfold dimensions
        split
        · rename_i heq
          exact absurd (List.cons.inj heq).1 hb
        · rfl
      rw [hstop] at h
      cases h
      exact ⟨Nat.le_refl _, hk, by rw [Nat.sub_self]; rfl⟩

variable {p : Parse String}

/-- What `p` reads off the front is the signature of a loose type. -/
def ReadsTypes (p : Parse String) : Prop :=
  ∀ s out rest, p s = some (out, rest) → ∃ t : LooseType, s = t.bytes ++ rest

theorem argument_loop_cons (p : Parse String) (n : ℕ) (args : List String) (b : UInt8) (s : Bytes) :
    argument_loop p (n + 1) args (b :: s) =
      if b = 62 then some (args, b :: s)
      else if b = 42 then argument_loop p n (args ++ ["?"]) s
      else if b = 43 then (p >>= fun t => argument_loop p n (args ++ ["? extends " ++ t])) s
      else if b = 45 then (p >>= fun t => argument_loop p n (args ++ ["? super " ++ t])) s
      else (p >>= fun t => argument_loop p n (args ++ [t])) (b :: s) := by
  by_cases hclose : b = 62
  · subst hclose
    rfl
  by_cases hany : b = 42
  · subst hany
    rfl
  by_cases hextends : b = 43
  · subst hextends
    rfl
  by_cases hsuper : b = 45
  · subst hsuper
    rfl
  have hpeek : ∀ f : Option UInt8 → Parse (List String),
      (peek >>= f) (b :: s) = f (some b) (b :: s) := fun _ => rfl
  rw [if_neg hclose, if_neg hany, if_neg hextends, if_neg hsuper, argument_loop, hpeek]
  refine congrFun ?_ (b :: s)
  split <;> rename_i heq
  · cases heq
  · exact absurd (Option.some.inj heq) hclose
  · exact absurd (Option.some.inj heq) hany
  · exact absurd (Option.some.inj heq) hextends
  · exact absurd (Option.some.inj heq) hsuper
  · rfl

/-- A round of the loop that reads a type leaves what a shorter loop reads. -/
theorem argument_round (hp : ReadsTypes p) {n : ℕ} {args : List String} {f : String → String}
    {out : List String}
    (h : (p >>= fun t => argument_loop p n (args ++ [f t])) s = some (out, rest)) :
    ∃ (t : LooseType) (text : String) (left : Bytes), s = t.bytes ++ left ∧
      argument_loop p n (args ++ [text]) left = some (out, rest) := by
  obtain ⟨text, left, htype, hloop⟩ := some_of_bind h
  obtain ⟨t, ht⟩ := hp _ _ _ htype
  exact ⟨t, f text, left, ht, hloop⟩

theorem argument_loop_inv (hp : ReadsTypes p) (n : ℕ) (args : List String) {out : List String}
    (h : argument_loop p n args s = some (out, rest)) :
    ∃ as, s = args_bytes as ++ rest ∧ out.length = args.length + as.length := by
  induction n generalizing args s with
  | zero => cases h
  | succ n ih =>
    cases s with
    | nil => cases h
    | cons b s =>
      have hstep (text : String) {left : Bytes} (a : LooseArgument)
          (hloop : argument_loop p n (args ++ [text]) left = some (out, rest))
          (hs : b :: s = a.bytes ++ left) :
          ∃ as, b :: s = args_bytes as ++ rest ∧ out.length = args.length + as.length := by
        obtain ⟨as, rfl, hlength⟩ := ih _ hloop
        rw [List.length_append, List.length_singleton] at hlength
        refine ⟨a :: as, ?_, by rw [List.length_cons]; omega⟩
        rw [hs, args_bytes, List.append_assoc]
      rw [argument_loop_cons] at h
      by_cases hclose : b = 62
      · rw [if_pos hclose] at h
        cases h
        exact ⟨[], rfl, rfl⟩
      rw [if_neg hclose] at h
      by_cases hany : b = 42
      · rw [if_pos hany] at h
        exact hstep _ .any h (by rw [hany]; rfl)
      rw [if_neg hany] at h
      by_cases hextends : b = 43
      · rw [if_pos hextends] at h
        obtain ⟨t, text, left, rfl, hloop⟩ := argument_round hp h
        exact hstep _ (.extends_ t) hloop (by rw [hextends]; rfl)
      rw [if_neg hextends] at h
      by_cases hsuper : b = 45
      · rw [if_pos hsuper] at h
        obtain ⟨t, text, left, rfl, hloop⟩ := argument_round hp h
        exact hstep _ (.super_ t) hloop (by rw [hsuper]; rfl)
      rw [if_neg hsuper] at h
      obtain ⟨t, text, left, hs, hloop⟩ := argument_round hp (f := fun t => t) h
      exact hstep _ (.exact_ t) hloop hs

variable {out : String}

theorem own_arguments_inv (hp : ReadsTypes p) (h : own_arguments p s = some (out, rest)) :
    ∃ as, s = angle_bytes as ++ rest := by
  obtain ⟨next, mid, hpeek, hown⟩ := some_of_bind h
  cases hpeek
  by_cases hopen : s.head? = some 60
  · rw [if_pos hopen] at hown
    obtain ⟨u, left, hneed, hloop⟩ := some_of_bind hown
    obtain ⟨args, left', hargs, hclose⟩ := some_of_bind hloop
    obtain ⟨u', left'', hneed', hpure⟩ := some_of_bind hclose
    obtain ⟨as, has, hlength⟩ := argument_loop_inv hp _ _ hargs
    by_cases hnone : args = []
    · rw [if_pos hnone] at hpure
      cases hpure
    · rw [if_neg hnone] at hpure
      cases hpure
      cases as with
      | nil => exact absurd (List.length_eq_zero_iff.mp hlength) hnone
      | cons a as =>
        refine ⟨a :: as, ?_⟩
        rw [need_inv hneed, has, need_inv hneed', args_bytes, angle_bytes]
        simp
  · rw [if_neg hopen] at hown
    cases hown
    exact ⟨[], rfl⟩

theorem class_loop_inv (hp : ReadsTypes p) (n : ℕ) (before : String)
    (h : class_loop p n before s = some (out, rest)) :
    ∃ (first : LooseSegment) (nested : List LooseSegment),
      s = first.bytes ++ (nested_bytes nested ++ 59 :: rest) := by
  induction n generalizing before s with
  | zero => cases h
  | succ n ih =>
    obtain ⟨text, left, hident, hround⟩ := some_of_bind h
    obtain ⟨name, rfl⟩ := ident_inv hident
    obtain ⟨args, left', hargs, hend⟩ := some_of_bind hround
    obtain ⟨as, rfl⟩ := own_arguments_inv hp hargs
    obtain ⟨done, left'', heat, hgo⟩ := some_of_bind hend
    unfold eat at heat
    by_cases hsemi : left'.head? = some 59
    · rw [if_pos hsemi] at heat
      cases heat
      cases hgo
      obtain ⟨tail, rfl⟩ := List.head?_eq_some_iff.mp hsemi
      refine ⟨.mk name as, [], ?_⟩
      rw [LooseSegment.bytes, nested_bytes]
      simp
    · rw [if_neg hsemi] at heat
      cases heat
      obtain ⟨u, left, hneed, hloop⟩ := some_of_bind hgo
      obtain ⟨first, nested, rfl⟩ := ih _ hloop
      refine ⟨.mk name as, first :: nested, ?_⟩
      rw [need_inv hneed, LooseSegment.bytes, nested_bytes]
      simp

theorem base_sig_letter {b : UInt8} (hclass : b ≠ 76) (hvariable : b ≠ 84) :
    base_sig p b = (base_type b).elim give_up fun name => bump >>= fun _ => pure name := by
  unfold base_sig
  split
  · exact absurd rfl hclass
  · exact absurd rfl hvariable
  · cases base_type b <;> rfl

theorem base_sig_inv (hp : ReadsTypes p) {b : UInt8} (h : base_sig p b (b :: s) = some (out, rest))
    (dims : Dims) : ∃ t : LooseType, openings dims ++ b :: s = t.bytes ++ rest := by
  by_cases hclass : b = 76
  · subst hclass
    obtain ⟨u, left, hneed, hloop⟩ := some_of_bind h
    obtain ⟨first, nested, hs⟩ := class_loop_inv hp _ _ hloop
    refine ⟨.class_ dims first nested, ?_⟩
    rw [need_inv hneed, hs, LooseType.bytes]
    simp
  by_cases hvariable : b = 84
  · subst hvariable
    obtain ⟨u, left, hbump, hname⟩ := some_of_bind h
    cases hbump
    obtain ⟨text, left, hident, hclose⟩ := some_of_bind hname
    obtain ⟨u, left', hneed, hpure⟩ := some_of_bind hclose
    cases hpure
    obtain ⟨name, hs⟩ := ident_inv hident
    refine ⟨.variable_ dims name, ?_⟩
    rw [List.tail_cons] at hs
    rw [hs, need_inv hneed, LooseType.bytes]
    simp
  rw [base_sig_letter hclass hvariable] at h
  cases hletter : base_type b with
  | none =>
    rw [hletter] at h
    cases h
  | some name =>
    rw [hletter] at h
    obtain ⟨u, left, hbump, hpure⟩ := some_of_bind h
    cases hbump
    cases hpure
    refine ⟨.base dims ⟨b, by rw [hletter]; rfl⟩, ?_⟩
    rw [LooseType.bytes, List.append_assoc]
    rfl

theorem type_sig_inv (n : ℕ) : ReadsTypes (type_sig n) := by
  induction n with
  | zero =>
    intro s out rest h
    cases h
  | succ n ih =>
    intro s out rest h
    obtain ⟨dims, left, hdims, hbase⟩ := some_of_bind h
    obtain ⟨-, hmax, hs⟩ := dimensions_inv (Nat.zero_le _) hdims
    obtain ⟨next, mid, hpeek, hround⟩ := some_of_bind hbase
    cases hpeek
    cases left with
    | nil => cases hround
    | cons b left =>
      obtain ⟨base, left', hsig, hpure⟩ := some_of_bind hround
      cases hpure
      rw [hs]
      exact base_sig_inv ih hsig ⟨dims, hmax⟩

end Accepted

section Reading

/-- The first byte of `rest` is another one. -/
def Apart (c : UInt8) (rest : Bytes) : Prop := rest.head? ≠ some c

theorem eat_read (c : UInt8) (rest : Bytes) : eat c (c :: rest) = some (true, rest) := if_pos rfl

theorem eat_apart {c : UInt8} {rest : Bytes} (h : Apart c rest) : eat c rest = some (false, rest) :=
  if_neg h

theorem need_read (c : UInt8) (rest : Bytes) : need c (c :: rest) = some ((), rest) := by
  rw [need, bind_of_some (eat_read c rest)]
  rfl

variable {p : Parse String} {b : UInt8} {s : LooseSegment} {a : LooseArgument}

theorem dimensions_read (k n : ℕ) (h : k + n ≤ 255) (hb : b ≠ 91) (rest : Bytes) :
    dimensions k (List.replicate n 91 ++ b :: rest) = some (k + n, b :: rest) := by
  induction n generalizing k with
  | zero =>
    unfold dimensions
    split
    · rename_i heq
      cases heq
      exact absurd rfl hb
    · rfl
  | succ n ih =>
    rw [List.replicate_succ, List.cons_append, dimensions, if_neg (by omega), ih (k + 1) (by omega),
      Nat.add_right_comm]
    rfl

theorem ident_read {stop : Bytes} (name : Chunk stop) (hb : b ∈ stop) (rest : Bytes) :
    ident stop (name.val ++ b :: rest) = some (from_utf8_lossy name.val, b :: rest) := by
  obtain ⟨bytes, hne, hclear⟩ := name
  have hpass : ∀ c ∈ bytes, decide (c ∉ stop) = true := fun c hc => decide_eq_true (hclear c hc)
  have hstop : decide (b ∉ stop) = false := decide_eq_false (not_not.mpr hb)
  rw [ident, List.takeWhile_append_of_pos hpass, List.dropWhile_append_of_pos hpass,
    List.takeWhile_cons, hstop, List.dropWhile_cons, hstop]
  simp only [Bool.false_eq_true, if_false, List.append_nil]
  rw [if_neg hne]

def inner : LooseArgument → Option LooseType
  | .any => none
  | .extends_ t | .super_ t | .exact_ t => some t

/-- The parser renders the type, whatever follows. -/
def Renders (p : Parse String) (t : LooseType) : Prop := Reads p t.bytes t.java

/-- The bytes that do not start a type. -/
def apart : Bytes := [62, 42, 43, 45, 41, 58]

theorem letter_apart (letter : Letter) : letter.val ∉ apart := by
  obtain ⟨b, hb⟩ := letter
  intro hmem
  simp only [apart, List.mem_cons, List.not_mem_nil, or_false] at hmem
  rcases hmem with rfl | rfl | rfl | rfl | rfl | rfl <;> cases hb

theorem bytes_first (t : LooseType) : ∃ b tail, t.bytes = b :: tail ∧ b ∉ apart := by
  have hopen (dims : Dims) (c : UInt8) (core : Bytes) (hc : c ∉ apart) :
      ∃ b tail, openings dims ++ c :: core = b :: tail ∧ b ∉ apart := by
    unfold openings
    cases dims.val with
    | zero => exact ⟨c, core, rfl, hc⟩
    | succ n => exact ⟨91, _, rfl, by decide⟩
  cases t with
  | base dims letter =>
    rw [LooseType.bytes]
    exact hopen dims _ _ (letter_apart letter)
  | variable_ dims name =>
    rw [LooseType.bytes]
    exact hopen dims _ _ (by decide)
  | class_ dims first nested =>
    rw [LooseType.bytes]
    exact hopen dims _ _ (by decide)

theorem argument_read (h : ∀ t, inner a = some t → Renders p t) (n : ℕ) (args : List String)
    (rest : Bytes) :
    argument_loop p (n + 1) args (a.bytes ++ rest) =
      argument_loop p n (args ++ [a.java]) rest := by
  cases a with
  | any => rfl
  | extends_ t =>
    show (p >>= fun t => argument_loop p n (args ++ ["? extends " ++ t])) (t.bytes ++ rest) = _
    rw [(h t rfl).run_bind]
    rfl
  | super_ t =>
    show (p >>= fun t => argument_loop p n (args ++ ["? super " ++ t])) (t.bytes ++ rest) = _
    rw [(h t rfl).run_bind]
    rfl
  | exact_ t =>
    obtain ⟨b, tail, hfirst, hb⟩ := bytes_first t
    simp only [apart, List.mem_cons, not_or] at hb
    rw [LooseArgument.bytes, hfirst, List.cons_append, argument_loop_cons, if_neg hb.1,
      if_neg hb.2.1, if_neg hb.2.2.1, if_neg hb.2.2.2.1, ← List.cons_append, ← hfirst,
      (h t rfl).run_bind]
    rfl

variable (as : List LooseArgument)

variable {n : ℕ}

theorem arguments_read (h : ∀ a ∈ as, ∀ t, inner a = some t → Renders p t) (hn : as.length < n)
    (args : List String) (rest : Bytes) :
    argument_loop p n args (args_bytes as ++ 62 :: rest) =
      some (args ++ args_java as, 62 :: rest) := by
  obtain ⟨n, rfl⟩ := Nat.exists_eq_succ_of_ne_zero (Nat.ne_zero_of_lt hn)
  induction as generalizing n args with
  | nil =>
    rw [args_java, List.append_nil]
    rfl
  | cons a as ih =>
    obtain ⟨n, rfl⟩ := Nat.exists_eq_succ_of_ne_zero
      (Nat.ne_zero_of_lt (Nat.lt_of_succ_lt_succ hn))
    rw [args_bytes, List.append_assoc, argument_read (h a List.mem_cons_self),
      ih (fun a' ha' => h a' (List.mem_cons_of_mem a ha')), args_java, List.append_assoc]
    · rfl
    · exact Nat.lt_of_succ_lt_succ hn

theorem argument_pos (a : LooseArgument) : 0 < a.bytes.length := by
  cases a with
  | any => exact Nat.one_pos
  | extends_ t => exact Nat.succ_pos _
  | super_ t => exact Nat.succ_pos _
  | exact_ t =>
    obtain ⟨b, tail, hfirst, -⟩ := bytes_first t
    rw [LooseArgument.bytes, hfirst]
    exact Nat.succ_pos _

theorem length_args : as.length ≤ (args_bytes as).length := by
  induction as with
  | nil => exact Nat.zero_le _
  | cons a as ih =>
    have hpos := argument_pos a
    rw [args_bytes, List.length_append, List.length_cons]
    omega

theorem own_arguments_read (h : ∀ a ∈ as, ∀ t, inner a = some t → Renders p t) (hb : b ≠ 60)
    (rest : Bytes) :
    own_arguments p (angle_bytes as ++ b :: rest) = some (angle_java as, b :: rest) := by
  cases as with
  | nil =>
    show (if some b = some 60 then type_arguments p else pure "") (b :: rest) = _
    rw [if_neg fun hsame => hb (Option.some.inj hsame)]
    rfl
  | cons a as =>
    have hargs := length_args (a :: as)
    have hloop : rounds (fun n => argument_loop p n []) (args_bytes (a :: as) ++ 62 :: b :: rest) =
        some (args_java (a :: as), 62 :: b :: rest) :=
      arguments_read (a :: as) h (by rw [List.length_append]; omega) [] (b :: rest)
    have hsame : angle_bytes (a :: as) ++ b :: rest =
        60 :: (args_bytes (a :: as) ++ 62 :: b :: rest) := by
      rw [angle_bytes, args_bytes]
      simp
    rw [hsame]
    show type_arguments p (60 :: (args_bytes (a :: as) ++ 62 :: b :: rest)) = _
    rw [type_arguments, bind_of_some (need_read 60 _), bind_of_some hloop,
      bind_of_some (need_read 62 _)]
    rfl

def args_of : LooseSegment → List LooseArgument
  | .mk _ args => args

/-- All types in the arguments of the segments are rendered. -/
def AllRendered (p : Parse String) (segments : List LooseSegment) : Prop :=
  ∀ s ∈ segments, ∀ a ∈ args_of s, ∀ t, inner a = some t → Renders p t

theorem angle_first {f : UInt8} (hf : f ∈ [59, 46]) (rest : Bytes) :
    ∃ b tail, angle_bytes as ++ f :: rest = b :: tail ∧ b ∈ [60, 59, 46] := by
  cases as with
  | nil => exact ⟨f, rest, rfl, List.mem_cons_of_mem 60 hf⟩
  | cons a as =>
    rw [angle_bytes]
    exact ⟨60, _, rfl, List.mem_cons_self⟩

/-- What is left of a round once a segment was read. -/
def after_segment (p : Parse String) (n : ℕ) (out : String) : Parse String := do
  let done ← eat 59
  if done then pure out
  else do
    need 46
    class_loop p n out

theorem segment_read (h : ∀ a ∈ args_of s, ∀ t, inner a = some t → Renders p t) {f : UInt8}
    (hf : f ∈ [59, 46]) (n : ℕ) (out : String) (rest : Bytes) :
    class_loop p (n + 1) out (s.bytes ++ f :: rest) =
      after_segment p n (s.java out) (f :: rest) := by
  obtain ⟨name, as⟩ := s
  obtain ⟨b, tail, hnext, hb⟩ := angle_first as hf rest
  have hopen : f ≠ 60 := by
    rintro rfl
    exact absurd hf (by decide)
  have hargs := own_arguments_read as h hopen rest
  have hident := ident_read name hb tail
  rw [← hnext] at hident
  rw [LooseSegment.bytes, List.append_assoc, class_loop, bind_of_some hident, bind_of_some hargs]
  rfl

theorem class_loop_read (nested : List LooseSegment) (h : AllRendered p (s :: nested))
    (hn : nested.length < n) (out : String) (rest : Bytes) :
    class_loop p n out (s.bytes ++ (nested_bytes nested ++ 59 :: rest)) =
      some (nested_java nested (s.java out), rest) := by
  obtain ⟨n, rfl⟩ := Nat.exists_eq_succ_of_ne_zero (Nat.ne_zero_of_lt hn)
  induction nested generalizing n out s with
  | nil =>
    rw [nested_java]
    exact segment_read (h s List.mem_cons_self) (f := 59) (by decide) n out rest
  | cons s' nested ih =>
    obtain ⟨n, rfl⟩ := Nat.exists_eq_succ_of_ne_zero
      (Nat.ne_zero_of_lt (Nat.lt_of_succ_lt_succ hn))
    rw [nested_bytes, List.cons_append, List.append_assoc,
      segment_read (h s List.mem_cons_self) (f := 46) (by decide), nested_java]
    exact ih (fun s'' hs => h s'' (List.mem_cons_of_mem s hs)) _ n (Nat.lt_of_succ_lt_succ hn)

theorem length_nested (nested : List LooseSegment) :
    nested.length ≤ (nested_bytes nested).length := by
  induction nested with
  | nil => exact Nat.zero_le _
  | cons s nested ih =>
    rw [nested_bytes, List.length_cons, List.length_cons, List.length_append]
    omega

variable {t : LooseType}

theorem inner_le (h : inner a = some t) : t.bytes.length ≤ a.bytes.length := by
  cases a with
  | any => cases h
  | extends_ t' =>
    cases h
    exact Nat.le_succ _
  | super_ t' =>
    cases h
    exact Nat.le_succ _
  | exact_ t' =>
    cases h
    exact Nat.le_refl _

theorem argument_le {as : List LooseArgument} (h : a ∈ as) :
    a.bytes.length ≤ (args_bytes as).length := by
  induction as with
  | nil => exact absurd h List.not_mem_nil
  | cons a' as ih =>
    rw [args_bytes, List.length_append]
    rcases List.mem_cons.mp h with rfl | h
    · exact Nat.le_add_right _ _
    · exact (ih h).trans (Nat.le_add_left _ _)

theorem angle_le : (args_bytes as).length ≤ (angle_bytes as).length := by
  cases as with
  | nil => exact Nat.le_refl _
  | cons a as =>
    rw [args_bytes, angle_bytes]
    simp only [List.length_append, List.length_cons, List.length_nil]
    omega

/-- A type in the arguments of a segment is no longer than the segments. -/
theorem inner_type_le {segments : List LooseSegment} (hs : s ∈ segments) (ha : a ∈ args_of s)
    (ht : inner a = some t) : t.bytes.length < (nested_bytes segments).length := by
  induction segments with
  | nil => exact absurd hs List.not_mem_nil
  | cons s' segments ih =>
    rw [nested_bytes, List.length_cons, List.length_append]
    rcases List.mem_cons.mp hs with rfl | hs
    · obtain ⟨name, as⟩ := s
      have hle := ((inner_le ht).trans (argument_le ha)).trans (angle_le as)
      rw [LooseSegment.bytes, List.length_append]
      omega
    · have hlt := ih hs
      omega

/-- After the brackets the first byte decides. -/
theorem type_sig_open (dims : Dims) {core rest : Bytes} {text : String} (hb : b ≠ 91)
    (hbase : base_sig (type_sig n) b (b :: (core ++ rest)) = some (text, rest)) :
    type_sig (n + 1) (openings dims ++ b :: core ++ rest) =
      some (text ++ brackets dims.val, rest) := by
  have hdims := dimensions_read 0 dims.val (by have := dims.property; omega) hb (core ++ rest)
  rw [Nat.zero_add] at hdims
  rw [List.append_assoc, List.cons_append, type_sig, openings, bind_of_some hdims]
  show (base_sig (type_sig n) b >>= fun base => pure (base ++ brackets dims.val))
    (b :: (core ++ rest)) = _
  rw [bind_of_some hbase]
  rfl

theorem letter_read (letter : Letter) (rest : Bytes) :
    base_sig p letter.val (letter.val :: ([] ++ rest)) =
      some ((base_type letter.val).getD "", rest) := by
  obtain ⟨b, hb⟩ := letter
  obtain ⟨name, hname⟩ := Option.isSome_iff_exists.mp hb
  have hclass : b ≠ 76 := by
    rintro rfl
    cases hb
  have hvariable : b ≠ 84 := by
    rintro rfl
    cases hb
  rw [base_sig_letter hclass hvariable, hname]
  rfl

theorem variable_read (name : Chunk [59]) (rest : Bytes) :
    base_sig p 84 (84 :: (name.val ++ [59] ++ rest)) = some (from_utf8_lossy name.val, rest) := by
  have hbump (rest : Bytes) : bump (84 :: rest) = some ((), rest) := rfl
  rw [List.append_assoc]
  show type_variable _ = _
  rw [type_variable, bind_of_some (hbump _), List.singleton_append,
    bind_of_some (ident_read name List.mem_cons_self rest), bind_of_some (need_read 59 rest)]
  rfl

theorem class_read {first : LooseSegment} {nested : List LooseSegment}
    (h : AllRendered p (first :: nested)) (rest : Bytes) :
    base_sig p 76 (76 :: (first.bytes ++ (nested_bytes nested ++ [59]) ++ rest)) =
      some (nested_java nested (first.java ""), rest) := by
  have hlength := length_nested nested
  have hsame : first.bytes ++ (nested_bytes nested ++ [59]) ++ rest =
      first.bytes ++ (nested_bytes nested ++ 59 :: rest) := by
    simp
  rw [hsame]
  exact class_loop_read (n := (first.bytes ++ (nested_bytes nested ++ 59 :: rest)).length + 1)
    nested h (by simp only [List.length_append]; omega) "" rest

/-- Every type is rendered as its Java source when the descent may go as deep as it is long. -/
theorem type_rendered (n : ℕ) (t : LooseType) (h : t.bytes.length ≤ n) :
    Renders (type_sig n) t := by
  induction n generalizing t with
  | zero =>
    obtain ⟨b, tail, hfirst, -⟩ := bytes_first t
    rw [hfirst] at h
    exact absurd h (Nat.not_succ_le_zero _)
  | succ n ih =>
    intro rest
    cases t with
    | base dims letter =>
      have hb : letter.val ≠ 91 := by
        obtain ⟨b, hb⟩ := letter
        rintro rfl
        cases hb
      rw [LooseType.bytes, LooseType.java]
      exact type_sig_open dims hb (letter_read letter rest)
    | variable_ dims name =>
      rw [LooseType.bytes, LooseType.java]
      exact type_sig_open dims (by decide) (variable_read name rest)
    | class_ dims first nested =>
      have hall : AllRendered (type_sig n) (first :: nested) := by
        intro s hs a ha t ht
        have hshort := inner_type_le hs ha ht
        rw [LooseType.bytes] at h
        rw [nested_bytes] at hshort
        simp only [List.length_append, List.length_cons] at h hshort
        exact ih t (by omega)
      rw [LooseType.bytes, LooseType.java]
      exact type_sig_open dims (by decide) (class_read hall rest)

theorem type_of_read (t : LooseType) : Renders type_of t := by
  intro rest
  refine type_rendered _ t ?_ rest
  rw [List.length_append]
  omega

theorem type_of_inv : ReadsTypes type_of := fun s _ _ h => type_sig_inv (s.length + 1) s _ _ h

variable {α : Type}

theorem finished_eq (p : Parse α) (sig : String) :
    finished p sig = ((p (as_bytes sig)).bind fun r =>
      if r.2.isEmpty then some (r.1, r.2) else none).map Prod.fst := by
  unfold finished
  change ((p (as_bytes sig)).bind fun r =>
    (if r.2.isEmpty then pure r.1 else give_up : Parse α) r.2).map Prod.fst = _
  congr 2
  funext r
  split <;> rfl

variable {sig : String}

theorem finished_read {p : Parse α} {a : α} (h : p (as_bytes sig) = some (a, [])) :
    finished p sig = some a := by
  rw [finished_eq, h]
  rfl

theorem finished_inv {p : Parse α} (h : (finished p sig).isSome) :
    ∃ a, p (as_bytes sig) = some (a, []) := by
  rw [finished_eq] at h
  rcases hp : p (as_bytes sig) with - | ⟨a, rest⟩
  · rw [hp] at h
    cases h
  · cases rest with
    | nil => exact ⟨a, rfl⟩
    | cons b rest =>
      rw [hp] at h
      cases h

theorem render_type_bytes (h : as_bytes sig = t.bytes) : render_type sig = some t.java := by
  have hread := type_of_read t []
  rw [List.append_nil, ← h] at hread
  exact finished_read hread

/-- What is rendered as a type is the signature of a loose type. -/
theorem render_type_iff (sig : String) :
    (render_type sig).isSome ↔ ∃ t : LooseType, as_bytes sig = t.bytes := by
  constructor
  · intro h
    obtain ⟨out, hout⟩ := finished_inv h
    obtain ⟨t, ht⟩ := type_of_inv _ _ _ hout
    exact ⟨t, by rw [ht, List.append_nil]⟩
  · rintro ⟨t, ht⟩
    rw [render_type_bytes ht]
    rfl

end Reading

section Unique

variable {b b' : UInt8} {r r' : Bytes}

theorem chunk_unique {stop : Bytes} (name name' : Chunk stop) (hb : b ∈ stop) (hb' : b' ∈ stop)
    (h : name.val ++ b :: r = name'.val ++ b' :: r') : name = name' ∧ b :: r = b' :: r' := by
  have hread := ident_read name hb r
  rw [h, ident_read name' hb' r', Option.some.injEq, Prod.mk.injEq] at hread
  have hrest := hread.2.symm
  rw [hrest] at h
  exact ⟨Subtype.ext (List.append_cancel_right h), hrest⟩

theorem openings_unique {dims dims' : Dims} (hb : b ≠ 91) (hb' : b' ≠ 91)
    (h : openings dims ++ b :: r = openings dims' ++ b' :: r') :
    dims = dims' ∧ b :: r = b' :: r' := by
  have hread := dimensions_read 0 dims.val (by have := dims.property; omega) hb r
  have hread' := dimensions_read 0 dims'.val (by have := dims'.property; omega) hb' r'
  unfold openings at h
  rw [h, hread', Option.some.injEq, Prod.mk.injEq] at hread
  exact ⟨Subtype.ext (by omega), hread.2.symm⟩

theorem letter_other (letter : Letter) : letter.val ≠ 91 ∧ letter.val ≠ 84 ∧ letter.val ≠ 76 := by
  obtain ⟨b, hb⟩ := letter
  refine ⟨?_, ?_, ?_⟩ <;> rintro rfl <;> cases hb

/-- The letter after the dimensions says which kind of type was read. -/
theorem opened {dims : Dims} (hb : b ≠ 91) (t : LooseType)
    (h : openings dims ++ b :: r = t.bytes ++ r') :
    (∃ letter : Letter, t = .base dims letter ∧ letter.val = b ∧ r = r') ∨
    (∃ name, t = .variable_ dims name ∧ b = 84 ∧ r = name.val ++ 59 :: r') ∨
    ∃ first nested, t = .class_ dims first nested ∧ b = 76 ∧
      r = first.bytes ++ (nested_bytes nested ++ 59 :: r') := by
  cases t with
  | base dims' letter =>
    rw [LooseType.bytes, List.append_assoc] at h
    obtain ⟨rfl, hrest⟩ := openings_unique hb (letter_other letter).1 h
    exact .inl ⟨letter, rfl, (List.cons.inj hrest).1.symm, (List.cons.inj hrest).2⟩
  | variable_ dims' name =>
    rw [LooseType.bytes, List.append_assoc, List.cons_append, List.append_assoc] at h
    obtain ⟨rfl, hrest⟩ := openings_unique hb (by decide) h
    exact .inr (.inl ⟨name, rfl, (List.cons.inj hrest).1, (List.cons.inj hrest).2⟩)
  | class_ dims' first nested =>
    rw [LooseType.bytes, List.append_assoc, List.cons_append, List.append_assoc,
      List.append_assoc] at h
    obtain ⟨rfl, hrest⟩ := openings_unique hb (by decide) h
    exact .inr (.inr ⟨first, nested, rfl, (List.cons.inj hrest).1, (List.cons.inj hrest).2⟩)

/-- What stands before the type of an argument, if anything does. -/
def marker : LooseArgument → Option UInt8
  | .any => some 42
  | .extends_ _ => some 43
  | .super_ _ => some 45
  | .exact_ _ => none

theorem argument_first (a : LooseArgument) : ∃ b tail, a.bytes = b :: tail ∧ b ≠ 62 ∧
    (marker a = some b ∧ b ∈ apart ∨ marker a = none ∧ b ∉ apart) := by
  cases a with
  | any => exact ⟨42, [], rfl, by decide, .inl ⟨rfl, by decide⟩⟩
  | extends_ t => exact ⟨43, t.bytes, rfl, by decide, .inl ⟨rfl, by decide⟩⟩
  | super_ t => exact ⟨45, t.bytes, rfl, by decide, .inl ⟨rfl, by decide⟩⟩
  | exact_ t =>
    obtain ⟨b, tail, hb, hapart⟩ := bytes_first t
    refine ⟨b, tail, hb, ?_, .inr ⟨rfl, hapart⟩⟩
    rintro rfl
    exact hapart (by decide)

theorem argument_open (a : LooseArgument) (r r' : Bytes) : a.bytes ++ r ≠ 62 :: r' := by
  obtain ⟨b, tail, hb, hne, -⟩ := argument_first a
  rw [hb]
  exact fun h => hne (List.cons.inj h).1

theorem markers_agree {a a' : LooseArgument} (h : a.bytes ++ r = a'.bytes ++ r') :
    marker a = marker a' := by
  obtain ⟨b, tail, hb, -, hkind⟩ := argument_first a
  obtain ⟨b', tail', hb', -, hkind'⟩ := argument_first a'
  rw [hb, hb'] at h
  obtain rfl := (List.cons.inj h).1
  rcases hkind with ⟨hm, hapart⟩ | ⟨hm, hapart⟩ <;>
    rcases hkind' with ⟨hm', hapart'⟩ | ⟨hm', hapart'⟩
  · rw [hm, hm']
  · exact absurd hapart hapart'
  · exact absurd hapart' hapart
  · rw [hm, hm']

/-- The arguments in front of what closes them are the only ones that are written so. -/
def OneReading (args : List LooseArgument) : Prop :=
  ∀ (args' : List LooseArgument) (r r' : Bytes),
    args_bytes args ++ 62 :: r = args_bytes args' ++ 62 :: r' → args = args' ∧ r = r'

theorem angle_open (a : LooseArgument) (as : List LooseArgument) (r : Bytes) :
    angle_bytes (a :: as) ++ r = 60 :: (args_bytes (a :: as) ++ 62 :: r) := by
  rw [angle_bytes, args_bytes]
  simp

/-- What follows a name: its arguments, and then what ends a segment. -/
theorem angle_unique {args : List LooseArgument} (hargs : OneReading args)
    (args' : List LooseArgument) (hb : b ∈ [59, 46]) (hb' : b' ∈ [59, 46])
    (h : angle_bytes args ++ b :: r = angle_bytes args' ++ b' :: r') :
    args = args' ∧ b :: r = b' :: r' := by
  have hopen : ∀ {b : UInt8}, b ∈ [59, 46] → b ≠ 60 := by
    rintro b hb rfl
    exact absurd hb (by decide)
  cases args with
  | nil =>
    cases args' with
    | nil => exact ⟨rfl, h⟩
    | cons a' args' =>
      rw [angle_open] at h
      exact absurd (List.cons.inj h).1 (hopen hb)
  | cons a args =>
    rw [angle_open] at h
    cases args' with
    | nil => exact absurd (List.cons.inj h).1.symm (hopen hb')
    | cons a' args' =>
      rw [angle_open] at h
      exact hargs _ _ _ (List.cons.inj h).2

theorem nested_first (nested : List LooseSegment) (r : Bytes) :
    ∃ b tail, nested_bytes nested ++ 59 :: r = b :: tail ∧ b ∈ [59, 46] := by
  cases nested with
  | nil => exact ⟨59, r, rfl, by decide⟩
  | cons s nested =>
    rw [nested_bytes]
    exact ⟨46, _, rfl, by decide⟩

/-- A segment, and what follows it up to the end of its class type. -/
theorem segment_unique {args args' : List LooseArgument} (hargs : OneReading args)
    (name name' : Chunk [60, 59, 46]) (nested nested' : List LooseSegment)
    (h : (LooseSegment.mk name args).bytes ++ (nested_bytes nested ++ 59 :: r) =
      (LooseSegment.mk name' args').bytes ++ (nested_bytes nested' ++ 59 :: r')) :
    LooseSegment.mk name args = .mk name' args' ∧
      nested_bytes nested ++ 59 :: r = nested_bytes nested' ++ 59 :: r' := by
  obtain ⟨b, tail, hnested, hb⟩ := nested_first nested r
  obtain ⟨b', tail', hnested', hb'⟩ := nested_first nested' r'
  obtain ⟨c, left, hangle, hc⟩ := angle_first args hb tail
  obtain ⟨c', left', hangle', hc'⟩ := angle_first args' hb' tail'
  rw [LooseSegment.bytes, LooseSegment.bytes, List.append_assoc, List.append_assoc, hnested,
    hnested', hangle, hangle'] at h
  obtain ⟨rfl, hrest⟩ := chunk_unique name name' hc hc' h
  rw [← hangle, ← hangle'] at hrest
  obtain ⟨rfl, hlater⟩ := angle_unique hargs args' hb hb' hrest
  exact ⟨rfl, by rw [hnested, hnested', hlater]⟩

mutual

/-- No two types have the same signature, nor does one go on as another. -/
theorem type_unique : (t t' : LooseType) → ∀ r r' : Bytes, t.bytes ++ r = t'.bytes ++ r' →
    t = t' ∧ r = r'
  | .base dims letter, t', r, r', h => by
    obtain ⟨hopen, hvariable, hclass⟩ := letter_other letter
    rw [LooseType.bytes, List.append_assoc] at h
    rcases opened hopen t' h with ⟨letter', rfl, hsame, htail⟩ | ⟨-, -, hbad, -⟩ |
      ⟨-, -, -, hbad, -⟩
    · exact ⟨by rw [Subtype.ext hsame], htail⟩
    · exact absurd hbad hvariable
    · exact absurd hbad hclass
  | .variable_ dims name, t', r, r', h => by
    rw [LooseType.bytes, List.append_assoc, List.cons_append, List.append_assoc] at h
    rcases opened (by decide) t' h with
      ⟨letter, rfl, hbad, -⟩ | ⟨name', rfl, -, hrest⟩ | ⟨-, -, -, hbad, -⟩
    · exact absurd hbad (letter_other letter).2.1
    · obtain ⟨rfl, htail⟩ := chunk_unique name name' List.mem_cons_self List.mem_cons_self hrest
      exact ⟨rfl, (List.cons.inj htail).2⟩
    · exact absurd hbad (by decide)
  | .class_ dims (.mk name args) nested, t', r, r', h => by
    rw [LooseType.bytes, List.append_assoc, List.cons_append, List.append_assoc,
      List.append_assoc] at h
    rcases opened (by decide) t' h with
      ⟨letter, rfl, hbad, -⟩ | ⟨-, -, hbad, -⟩ | ⟨⟨name', args'⟩, nested', rfl, -, hrest⟩
    · exact absurd hbad (letter_other letter).2.2
    · exact absurd hbad (by decide)
    · obtain ⟨hfirst, hlater⟩ := segment_unique (arguments_unique args) name name' nested nested'
        hrest
      obtain ⟨rfl, hend⟩ := nested_unique nested nested' r r' hlater
      exact ⟨by rw [hfirst], hend⟩

theorem nested_unique : (nested nested' : List LooseSegment) → ∀ r r' : Bytes,
    nested_bytes nested ++ 59 :: r = nested_bytes nested' ++ 59 :: r' → nested = nested' ∧ r = r'
  | [], [], r, r', h => ⟨rfl, (List.cons.inj h).2⟩
  | [], _ :: _, r, r', h => by
    rw [nested_bytes] at h
    exact absurd (List.cons.inj h).1 (by decide)
  | _ :: _, [], r, r', h => by
    rw [nested_bytes] at h
    exact absurd (List.cons.inj h).1 (by decide)
  | .mk name args :: nested, .mk name' args' :: nested', r, r', h => by
    rw [nested_bytes, nested_bytes, List.cons_append, List.cons_append, List.append_assoc,
      List.append_assoc] at h
    obtain ⟨hfirst, hlater⟩ := segment_unique (arguments_unique args) name name' nested nested'
      (List.cons.inj h).2
    obtain ⟨rfl, hend⟩ := nested_unique nested nested' r r' hlater
    exact ⟨by rw [hfirst], hend⟩

theorem argument_unique : (a a' : LooseArgument) → ∀ r r' : Bytes, a.bytes ++ r = a'.bytes ++ r' →
    a = a' ∧ r = r'
  | .any, a', r, r', h => by
    have hmarker := markers_agree h
    cases a' with
    | any => exact ⟨rfl, (List.cons.inj h).2⟩
    | _ => cases hmarker
  | .extends_ t, a', r, r', h => by
    have hmarker := markers_agree h
    cases a' with
    | extends_ t' =>
      obtain ⟨rfl, hend⟩ := type_unique t t' r r' (List.cons.inj h).2
      exact ⟨rfl, hend⟩
    | _ => cases hmarker
  | .super_ t, a', r, r', h => by
    have hmarker := markers_agree h
    cases a' with
    | super_ t' =>
      obtain ⟨rfl, hend⟩ := type_unique t t' r r' (List.cons.inj h).2
      exact ⟨rfl, hend⟩
    | _ => cases hmarker
  | .exact_ t, a', r, r', h => by
    have hmarker := markers_agree h
    cases a' with
    | exact_ t' =>
      obtain ⟨rfl, hend⟩ := type_unique t t' r r' h
      exact ⟨rfl, hend⟩
    | _ => cases hmarker

theorem arguments_unique : (args args' : List LooseArgument) → ∀ r r' : Bytes,
    args_bytes args ++ 62 :: r = args_bytes args' ++ 62 :: r' → args = args' ∧ r = r'
  | [], [], r, r', h => ⟨rfl, (List.cons.inj h).2⟩
  | [], a' :: args', r, r', h => by
    rw [args_bytes, args_bytes, List.append_assoc] at h
    exact absurd h.symm (argument_open a' _ _)
  | a :: args, [], r, r', h => by
    rw [args_bytes, args_bytes, List.append_assoc] at h
    exact absurd h (argument_open a _ _)
  | a :: args, a' :: args', r, r', h => by
    rw [args_bytes, args_bytes, List.append_assoc, List.append_assoc] at h
    obtain ⟨rfl, hrest⟩ := argument_unique a a' _ _ h
    obtain ⟨rfl, hend⟩ := arguments_unique args args' r r' hrest
    exact ⟨rfl, hend⟩

end

end Unique

end JavaDebug.LooseSignatures
