import JavaDebug.GenericSignatures

/-!
The signatures of the format among those that are rendered. An argument or a
bound of the format is a reference type, and nothing but a return type is void.
A loose type is flawed where it breaks this or where a name of it is none; the
renderer keeps its promise, that nothing but a signature renders, on a string
that is not the signature of a flawed type, and on no other. A method of the
format is read as it is written but where a type parameter without a bound has
another one behind it.
-/
namespace JavaDebug.StrictSignatures

open Octets Generics GenericSignatures
open LooseSignatures (Dims LooseType LooseSegment LooseArgument Chunk Letter)
open LooseMethods (LooseParameter LooseMethod)
open RequestFraming (as_bytes)

section Grammar

/-- A class type, a type variable or an array type. -/
def IsReference : JavaType → Prop
  | .base dims _ => 0 < dims.val
  | .variable_ _ _ | .class_ _ _ _ _ => True

mutual

/-- Arguments are reference types, wherever they are. -/
def StrictType : JavaType → Prop
  | .base _ _ | .variable_ _ _ => True
  | .class_ _ _ first nested => StrictSegment first ∧ StrictSegments nested

def StrictSegment : Segment → Prop
  | .mk _ args => StrictArguments args

def StrictSegments : List Segment → Prop
  | [] => True
  | s :: nested => StrictSegment s ∧ StrictSegments nested

def StrictArgument : Argument → Prop
  | .any => True
  | .extends_ t | .super_ t | .exact_ t => StrictType t ∧ IsReference t

def StrictArguments : List Argument → Prop
  | [] => True
  | a :: args => StrictArgument a ∧ StrictArguments args

end

/-- A field type signature of the format, or a base type. -/
def IsTypeSignature (sig : String) : Prop := ∃ t : JavaType, StrictType t ∧ t.sig = sig

/-- A class type or a type variable. -/
def IsThrown : JavaType → Prop
  | .base _ _ => False
  | .variable_ dims _ | .class_ dims _ _ _ => dims.val = 0

/-- A type parameter of the format; it need not have a bound. -/
structure Parameter where
  name : Identifier
  class_bound : Option JavaType
  interface_bounds : List JavaType
  bounds : ∀ t ∈ class_bound.toList ++ interface_bounds, StrictType t ∧ IsReference t

def Parameter.Bounded (p : Parameter) : Prop :=
  p.class_bound.isSome ∨ p.interface_bounds ≠ []

def Parameter.sig (p : Parameter) : String :=
  p.name.text ++ (":" ++ (String.join (p.class_bound.toList.map JavaType.sig) ++
    String.join (p.interface_bounds.map fun t => ":" ++ t.sig)))

/-- A method signature of the format; no return type is `void`. -/
structure Method where
  type_params : List Parameter
  params : List JavaType
  ret : Option JavaType
  throws : List JavaType
  types : ∀ t ∈ params ++ ret.toList ++ throws, StrictType t
  thrown : ∀ t ∈ throws, IsThrown t

def parameters_sig (ps : List Parameter) : String :=
  if ps = [] then "" else "<" ++ (String.join (ps.map Parameter.sig) ++ ">")

def Method.sig (m : Method) : String :=
  parameters_sig m.type_params ++
    ("(" ++ (String.join (m.params.map JavaType.sig) ++
      (")" ++ ((m.ret.map JavaType.sig).getD "V" ++
        String.join (m.throws.map fun t => "^" ++ t.sig)))))

def IsMethodSignature (sig : String) : Prop := ∃ m : Method, m.sig = sig

end Grammar

section Flaws

/-- The name of a type of its own, or of a type variable or a type parameter. -/
def IsName (name : Bytes) : Prop := ∃ i : Identifier, name = as_bytes i.text

/-- A name behind the names of its packages. -/
def IsPath (name : Bytes) : Prop :=
  ∃ (package : List Identifier) (i : Identifier), name = as_bytes (path_sig package ++ i.text)

def LooseReference : LooseType → Prop
  | .base dims _ => 0 < dims.val
  | .variable_ _ _ | .class_ _ _ _ => True

mutual

/-- No `void`, no primitive type as an argument, and no name that is none. -/
def Sound : LooseType → Prop
  | .base _ letter => letter.val ≠ 86
  | .variable_ _ name => IsName name.val
  | .class_ _ (.mk name args) nested => IsPath name.val ∧ SoundArguments args ∧ SoundSegments nested

def SoundSegments : List LooseSegment → Prop
  | [] => True
  | .mk name args :: nested => IsName name.val ∧ SoundArguments args ∧ SoundSegments nested

def SoundArgument : LooseArgument → Prop
  | .any => True
  | .extends_ t | .super_ t | .exact_ t => Sound t ∧ LooseReference t

def SoundArguments : List LooseArgument → Prop
  | [] => True
  | a :: args => SoundArgument a ∧ SoundArguments args

end

end Flaws

section Denoting

/-- A class type or a type variable. -/
def LooseThrown : LooseType → Prop
  | .base _ _ => False
  | .variable_ dims _ | .class_ dims _ _ => dims.val = 0

theorem reference_loose (j : JavaType) : LooseReference j.loose ↔ IsReference j := by
  cases j <;> rw [JavaType.loose] <;> rfl

theorem thrown_loose (j : JavaType) : LooseThrown j.loose ↔ IsThrown j := by
  cases j <;> rw [JavaType.loose] <;> rfl

theorem code_of_letter (letter : Letter) (h : letter.val ≠ 86) :
    ∃ b : BaseType, b.code = letter := by
  obtain ⟨c, hc⟩ := letter
  unfold base_type at hc
  split at hc
  · exact ⟨.byte, rfl⟩
  · exact ⟨.char, rfl⟩
  · exact ⟨.double, rfl⟩
  · exact ⟨.float, rfl⟩
  · exact ⟨.int, rfl⟩
  · exact ⟨.long, rfl⟩
  · exact ⟨.short, rfl⟩
  · exact ⟨.boolean, rfl⟩
  · exact absurd rfl h
  · cases hc

theorem path_of_name (i : Identifier) : (path_chunk [] i).val = as_bytes i.text :=
  congrArg as_bytes String.empty_append

mutual

/-- A sound type is a type of the format as the renderer reads it. -/
theorem sound_denotes : (t : LooseType) → Sound t → ∃ j, StrictType j ∧ j.loose = t
  | .base dims letter, h => by
    rw [Sound] at h
    obtain ⟨b, rfl⟩ := code_of_letter letter h
    exact ⟨.base dims b, by simp [StrictType], by rw [JavaType.loose]⟩
  | .variable_ dims name, h => by
    rw [Sound] at h
    obtain ⟨i, hi⟩ := h
    refine ⟨.variable_ dims i, by simp [StrictType], ?_⟩
    rw [JavaType.loose, Identifier.chunk]
    exact congrArg _ (Subtype.ext hi.symm)
  | .class_ dims (.mk name args) nested, h => by
    rw [Sound] at h
    obtain ⟨⟨package, i, hname⟩, hargs, hnested⟩ := h
    obtain ⟨as, has, rfl⟩ := arguments_denote args hargs
    obtain ⟨ns, hns, rfl⟩ := segments_denote nested hnested
    obtain rfl : path_chunk package i = name := Subtype.ext hname.symm
    refine ⟨.class_ dims package (.mk i as) ns, ?_, by rw [JavaType.loose, Segment.loose]⟩
    rw [StrictType, StrictSegment]
    exact ⟨has, hns⟩

theorem segments_denote : (nested : List LooseSegment) → SoundSegments nested →
    ∃ ns, StrictSegments ns ∧ nested_loose ns = nested
  | [], _ => ⟨[], by simp [StrictSegments], rfl⟩
  | .mk name args :: nested, h => by
    rw [SoundSegments] at h
    obtain ⟨⟨i, hname⟩, hargs, hnested⟩ := h
    obtain ⟨as, has, rfl⟩ := arguments_denote args hargs
    obtain ⟨ns, hns, rfl⟩ := segments_denote nested hnested
    obtain rfl : path_chunk [] i = name := Subtype.ext ((path_of_name i).trans hname.symm)
    refine ⟨.mk i as :: ns, ?_, by rw [nested_loose, Segment.loose]⟩
    rw [StrictSegments, StrictSegment]
    exact ⟨has, hns⟩

theorem argument_denotes : (a : LooseArgument) → SoundArgument a →
    ∃ a' : Argument, StrictArgument a' ∧ a'.loose = a
  | .any, _ => ⟨.any, by simp [StrictArgument], rfl⟩
  | .extends_ t, h => by
    rw [SoundArgument] at h
    obtain ⟨j, hj, rfl⟩ := sound_denotes t h.1
    refine ⟨.extends_ j, ?_, by rw [Argument.loose]⟩
    rw [StrictArgument]
    exact ⟨hj, (reference_loose j).mp h.2⟩
  | .super_ t, h => by
    rw [SoundArgument] at h
    obtain ⟨j, hj, rfl⟩ := sound_denotes t h.1
    refine ⟨.super_ j, ?_, by rw [Argument.loose]⟩
    rw [StrictArgument]
    exact ⟨hj, (reference_loose j).mp h.2⟩
  | .exact_ t, h => by
    rw [SoundArgument] at h
    obtain ⟨j, hj, rfl⟩ := sound_denotes t h.1
    refine ⟨.exact_ j, ?_, by rw [Argument.loose]⟩
    rw [StrictArgument]
    exact ⟨hj, (reference_loose j).mp h.2⟩

theorem arguments_denote : (args : List LooseArgument) → SoundArguments args →
    ∃ as, StrictArguments as ∧ args_loose as = args
  | [], _ => ⟨[], by simp [StrictArguments], rfl⟩
  | a :: args, h => by
    rw [SoundArguments] at h
    obtain ⟨a', ha', rfl⟩ := argument_denotes a h.1
    obtain ⟨as, has, rfl⟩ := arguments_denote args h.2
    refine ⟨a' :: as, ?_, by rw [args_loose]⟩
    rw [StrictArguments]
    exact ⟨ha', has⟩

end

mutual

theorem strict_sound : (j : JavaType) → StrictType j → Sound j.loose
  | .base dims b, _ => by
    rw [JavaType.loose, Sound]
    cases b <;> decide
  | .variable_ dims i, _ => by
    rw [JavaType.loose, Sound]
    exact ⟨i, rfl⟩
  | .class_ dims package (.mk i as) ns, h => by
    rw [StrictType, StrictSegment] at h
    rw [JavaType.loose, Segment.loose, Sound]
    exact ⟨⟨package, i, rfl⟩, strict_arguments as h.1, strict_segments ns h.2⟩

theorem strict_segments : (ns : List Segment) → StrictSegments ns →
    SoundSegments (nested_loose ns)
  | [], _ => by
    rw [nested_loose, SoundSegments]
    trivial
  | .mk i as :: ns, h => by
    rw [StrictSegments, StrictSegment] at h
    rw [nested_loose, Segment.loose, SoundSegments]
    exact ⟨⟨i, path_of_name i⟩, strict_arguments as h.1, strict_segments ns h.2⟩

theorem strict_argument : (a : Argument) → StrictArgument a → SoundArgument a.loose
  | .any, _ => by
    rw [Argument.loose, SoundArgument]
    trivial
  | .extends_ t, h | .super_ t, h | .exact_ t, h => by
    rw [StrictArgument] at h
    rw [Argument.loose, SoundArgument]
    exact ⟨strict_sound t h.1, (reference_loose t).mpr h.2⟩

theorem strict_arguments : (as : List Argument) → StrictArguments as →
    SoundArguments (args_loose as)
  | [], _ => by
    rw [args_loose, SoundArguments]
    trivial
  | a :: as, h => by
    rw [StrictArguments] at h
    rw [args_loose, SoundArguments]
    exact ⟨strict_argument a h.1, strict_arguments as h.2⟩

end

end Denoting

section Types

open LooseSignatures (render_type_iff type_unique)

theorem as_bytes_inj {s s' : String} (h : as_bytes s = as_bytes s') : s = s' := by
  have hs := WireReader.from_utf8_as_bytes s
  rw [h, WireReader.from_utf8_as_bytes] at hs
  exact (Option.some.inj hs).symm

/-- The string reads as a type with a flaw: `void`, a primitive type for an argument, or a name
that is none. -/
def FlawedType (sig : String) : Prop := ∃ t : LooseType, as_bytes sig = t.bytes ∧ ¬ Sound t

theorem type_signature_iff (sig : String) :
    ((render_type sig).isSome → IsTypeSignature sig) ↔ ¬ FlawedType sig := by
  constructor
  · rintro h ⟨t, ht, hflaw⟩
    obtain ⟨j, hstrict, rfl⟩ := h ((render_type_iff sig).mpr ⟨t, ht⟩)
    obtain ⟨rfl, -⟩ := type_unique t j.loose [] [] (by rw [j.loose_bytes, ht])
    exact hflaw (strict_sound j hstrict)
  · intro h hsome
    obtain ⟨t, ht⟩ := (render_type_iff sig).mp hsome
    have hsound : Sound t := by
      by_contra hflaw
      exact h ⟨t, ht, hflaw⟩
    obtain ⟨j, hj, rfl⟩ := sound_denotes t hsound
    exact ⟨j, hj, as_bytes_inj (j.loose_bytes.symm.trans ht.symm)⟩

end Types

section Methods

open LooseMethods (render_method_iff method_unique)

structure SoundParameter (p : LooseParameter) : Prop where
  name : IsName p.name.val
  bounds : ∀ t ∈ p.class_bound.toList ++ p.interface_bounds, Sound t ∧ LooseReference t

/-- Only what a method returns may be void. -/
structure SoundMethod (m : LooseMethod) : Prop where
  type_params : ∀ p ∈ m.type_params, SoundParameter p
  params : ∀ t ∈ m.params, Sound t
  ret : Sound m.ret ∨ m.ret.bytes = [86]
  throws : ∀ t ∈ m.throws, Sound t ∧ LooseThrown t

/-- The string reads as a method with a flaw in one of its types or names, or with one that it
may not be bounded by or throw. -/
def FlawedMethod (sig : String) : Prop :=
  ∃ m : LooseMethod, as_bytes sig = m.bytes ∧ ¬ SoundMethod m

/-- The string declares a type parameter without any bound in front of another one. -/
def LoneParameter (sig : String) : Prop :=
  ∃ m : Method, m.sig = sig ∧ ∃ p ∈ m.type_params.dropLast, ¬ p.Bounded

def Parameter.loose (p : Parameter) : LooseParameter :=
  loose_parameter p.name p.class_bound p.interface_bounds

theorem Parameter.loose_bounded (p : Parameter) : p.loose.Bounded ↔ p.Bounded := by
  simp [Parameter.loose, loose_parameter, LooseParameter.Bounded, Parameter.Bounded]

/-- A method of the format as the renderer reads it, unless a parameter without a bound has another
one behind it. -/
def Method.loose (m : Method) (h : ∀ p ∈ m.type_params.dropLast, p.Bounded) : LooseMethod where
  type_params := m.type_params.map Parameter.loose
  params := m.params.map JavaType.loose
  ret := loose_return m.ret
  throws := m.throws.map JavaType.loose
  bounded p hp := by
    rw [← List.map_dropLast] at hp
    obtain ⟨p', hp', rfl⟩ := List.mem_map.mp hp
    exact p'.loose_bounded.mpr (h p' hp')

theorem Method.loose_bytes (m : Method) (h : ∀ p ∈ m.type_params.dropLast, p.Bounded) :
    (m.loose h).bytes = as_bytes m.sig :=
  loose_method_bytes (loose_parameters_bytes (fun _ => loose_parameter_bytes _ _ _) m.type_params)
    rfl rfl rfl

theorem Parameter.loose_sound (p : Parameter) : SoundParameter p.loose := by
  refine ⟨⟨p.name, rfl⟩, fun t ht => ?_⟩
  obtain ⟨j, hj, rfl⟩ : ∃ j ∈ p.class_bound.toList ++ p.interface_bounds, j.loose = t := by
    simpa [Parameter.loose, loose_parameter, or_and_right, exists_or] using ht
  obtain ⟨hstrict, hreference⟩ := p.bounds j hj
  exact ⟨strict_sound j hstrict, (reference_loose j).mpr hreference⟩

theorem Method.loose_sound (m : Method) (h : ∀ p ∈ m.type_params.dropLast, p.Bounded) :
    SoundMethod (m.loose h) := by
  obtain ⟨ps, params, ret, throws, htypes, hthrown⟩ := m
  refine ⟨fun p hp => ?_, fun t ht => ?_, ?_, fun t ht => ?_⟩
  · obtain ⟨p', -, rfl⟩ := List.mem_map.mp hp
    exact p'.loose_sound
  · obtain ⟨j, hj, rfl⟩ := List.mem_map.mp ht
    exact strict_sound j (htypes j (by simp [hj]))
  · cases ret with
    | none => exact .inr rfl
    | some j => exact .inl (strict_sound j (htypes j (by simp)))
  · obtain ⟨j, hj, rfl⟩ := List.mem_map.mp ht
    exact ⟨strict_sound j (htypes j (by simp [hj])), (thrown_loose j).mpr (hthrown j hj)⟩

/-- A list of what comes of `f` comes of a list. -/
theorem list_lifts {α β : Type} {f : α → β} {P : α → Prop} (l : List β)
    (h : ∀ b ∈ l, ∃ a, P a ∧ f a = b) : ∃ as : List α, (∀ a ∈ as, P a) ∧ as.map f = l := by
  induction l with
  | nil => exact ⟨[], by simp, rfl⟩
  | cons b l ih =>
    obtain ⟨a, ha, rfl⟩ := h b List.mem_cons_self
    obtain ⟨as, has, rfl⟩ := ih fun b' hb' => h b' (List.mem_cons_of_mem _ hb')
    exact ⟨a :: as, List.forall_mem_cons.mpr ⟨ha, has⟩, rfl⟩

theorem bound_denotes {t : LooseType} (h : Sound t ∧ LooseReference t) :
    ∃ j, (StrictType j ∧ IsReference j) ∧ j.loose = t := by
  obtain ⟨j, hj, rfl⟩ := sound_denotes t h.1
  exact ⟨j, ⟨hj, (reference_loose j).mp h.2⟩, rfl⟩

theorem parameter_denotes {p : LooseParameter} (h : SoundParameter p) :
    ∃ p' : Parameter, p'.loose = p := by
  obtain ⟨name, bound, interfaces, hopens⟩ := p
  obtain ⟨⟨i, hi⟩, hbounds⟩ := h
  obtain rfl : i.chunk (by decide) = name := Subtype.ext hi.symm
  obtain ⟨js, hjs, rfl⟩ := list_lifts interfaces fun t ht =>
    bound_denotes (hbounds t (List.mem_append_right _ ht))
  cases bound with
  | none => exact ⟨⟨i, none, js, hjs⟩, rfl⟩
  | some t =>
    obtain ⟨j, hj, rfl⟩ := bound_denotes (hbounds t List.mem_cons_self)
    exact ⟨⟨i, some j, js, List.forall_mem_cons.mpr ⟨hj, hjs⟩⟩, rfl⟩

theorem return_denotes {t : LooseType} (h : Sound t ∨ t.bytes = [86]) :
    ∃ ret : Option JavaType, (∀ j ∈ ret, StrictType j) ∧ loose_return ret = t := by
  rcases h with h | h
  · obtain ⟨j, hj, rfl⟩ := sound_denotes t h
    exact ⟨some j, fun j' hj' => Option.some.inj hj' ▸ hj, rfl⟩
  · obtain ⟨rfl, -⟩ := LooseSignatures.type_unique t void [] [] (by rw [h]; rfl)
    exact ⟨none, by simp, rfl⟩

theorem method_denotes {m : LooseMethod} (h : SoundMethod m) :
    ∃ (m' : Method) (h : ∀ p ∈ m'.type_params.dropLast, p.Bounded), m'.loose h = m := by
  obtain ⟨ps, ts, t, es, hbounded⟩ := m
  obtain ⟨hps, hts, ht, hes⟩ := h
  obtain ⟨ps, -, rfl⟩ := list_lifts (P := fun _ => True) ps fun p hp =>
    (parameter_denotes (hps p hp)).imp fun _ h => ⟨trivial, h⟩
  obtain ⟨js, hjs, rfl⟩ := list_lifts ts fun t ht => sound_denotes t (hts t ht)
  obtain ⟨ret, hret, rfl⟩ := return_denotes ht
  obtain ⟨ks, hks, rfl⟩ := list_lifts (P := fun k => StrictType k ∧ IsThrown k) es fun t ht => by
    obtain ⟨hsound, hthrown⟩ := hes t ht
    obtain ⟨k, hk, rfl⟩ := sound_denotes t hsound
    exact ⟨k, ⟨hk, (thrown_loose k).mp hthrown⟩, rfl⟩
  refine ⟨⟨ps, js, ret, ks, fun j hj => ?_, fun k hk => (hks k hk).2⟩, fun p hp => ?_, rfl⟩
  · rcases List.mem_append.mp hj with hj | hj
    · rcases List.mem_append.mp hj with hj | hj
      · exact hjs j hj
      · exact hret j (Option.mem_toList.mp hj)
    · exact (hks j hj).1
  · refine p.loose_bounded.mp (hbounded _ ?_)
    rw [← List.map_dropLast]
    exact List.mem_map_of_mem hp

theorem method_signature_iff (sig : String) :
    ((render_method sig).isSome → IsMethodSignature sig) ↔
      ¬ FlawedMethod sig ∨ LoneParameter sig := by
  constructor
  · intro h
    by_cases hflawed : FlawedMethod sig
    · right
      obtain ⟨m, hm, hflaw⟩ := hflawed
      obtain ⟨m', rfl⟩ := h ((render_method_iff sig).mpr ⟨m, hm⟩)
      by_contra hlone
      have hbounded : ∀ p ∈ m'.type_params.dropLast, p.Bounded := fun p hp => by
        by_contra hunbounded
        exact hlone ⟨m', rfl, p, hp, hunbounded⟩
      obtain rfl := method_unique ((m'.loose_bytes hbounded).trans hm)
      exact hflaw (m'.loose_sound hbounded)
    · exact .inl hflawed
  · rintro (hclean | ⟨m, hm, -⟩) hsome
    · obtain ⟨m, hm⟩ := (render_method_iff sig).mp hsome
      have hsound : SoundMethod m := by
        by_contra hflaw
        exact hclean ⟨m, hm, hflaw⟩
      obtain ⟨m', h, rfl⟩ := method_denotes hsound
      exact ⟨m', as_bytes_inj ((m'.loose_bytes h).symm.trans hm.symm)⟩
    · exact ⟨m, hm⟩

theorem lone_opens {sig : String} (h : LoneParameter sig) : (as_bytes sig).head? = some 60 := by
  obtain ⟨m, rfl, p, hp, -⟩ := h
  have hsome : m.type_params ≠ [] := by
    intro hnone
    rw [hnone] at hp
    cases hp
  rw [Method.sig, parameters_sig, if_neg hsome, as_bytes_append, as_bytes_append]
  rfl

end Methods

section Promise

/-- Whatever renders as a type is one, exactly if it is not written as a flawed one. Whatever
renders as a method is one, exactly if it is not read as a flawed one or declares a type parameter
without any bound in front of another, which the format has and the renderer misreads. -/
theorem nothing_unparseable_renders_iff (sig : String) :
    (((render_type sig).isSome → IsTypeSignature sig) ↔ ¬ FlawedType sig) ∧
    (((render_method sig).isSome → IsMethodSignature sig) ↔
      ¬ FlawedMethod sig ∨ LoneParameter sig) :=
  ⟨type_signature_iff sig, method_signature_iff sig⟩

def list_of_int : LooseType :=
  .class_ flat
    (.mk ⟨[106, 97, 118, 97, 47, 117, 116, 105, 108, 47, 76, 105, 115, 116], by simp⟩
      [.exact_ (.base flat BaseType.int.code)]) []

theorem list_of_int_flawed : FlawedType "Ljava/util/List<I>;" := by
  refine ⟨list_of_int, by decide +kernel, fun h => ?_⟩
  unfold list_of_int at h
  rw [Sound, SoundArguments, SoundArgument] at h
  exact absurd h.2.1.1.2 (Nat.lt_irrefl 0)

/-- A list of primitive types renders, and is no type. -/
theorem primitive_argument_renders :
    ¬ ∀ sig : String, (render_type sig).isSome → IsTypeSignature sig :=
  fun h => (type_signature_iff _).mp (h "Ljava/util/List<I>;") list_of_int_flawed

theorem void_parameter_flawed : FlawedMethod "(V)V" := by
  refine ⟨⟨[], [.base flat ⟨86, rfl⟩], .base flat ⟨86, rfl⟩, [], by simp⟩, by decide +kernel,
    fun h => ?_⟩
  have hparam := h.params (.base flat ⟨86, rfl⟩) List.mem_cons_self
  rw [Sound] at hparam
  exact hparam rfl

/-- `A` has no bound, and is read as bounded by `byte`. -/
def two_parameters : Method where
  type_params := [⟨⟨"A", by decide, by simp⟩, none, [], by simp⟩,
    ⟨⟨"B", by decide, by simp⟩, some (.variable_ flat ⟨"T", by decide, by simp⟩), [],
      by simp [StrictType, IsReference]⟩]
  params := []
  ret := none
  throws := []
  types := by simp
  thrown := by simp

theorem two_parameters_flawed : FlawedMethod "<A:B:TT;>()V" := by
  refine ⟨⟨[⟨⟨[65], by simp⟩, some (.base flat ⟨66, rfl⟩), [.variable_ flat ⟨[84], by simp⟩],
    by simp⟩], [], .base flat ⟨86, rfl⟩, [], by simp⟩, by decide +kernel, fun h => ?_⟩
  have hbound := (h.type_params _ List.mem_cons_self).bounds (.base flat ⟨66, rfl⟩)
    List.mem_cons_self
  exact Nat.lt_irrefl 0 hbound.2

/-- A parameter of type `void` breaks the promise; a flawed reading of a signature of the format
does not. -/
theorem nothing_unparseable_renders_void :
    ¬ ((render_method "(V)V").isSome → IsMethodSignature "(V)V") ∧
    FlawedMethod "<A:B:TT;>()V" ∧
      ((render_method "<A:B:TT;>()V").isSome → IsMethodSignature "<A:B:TT;>()V") := by
  refine ⟨fun h => ?_, two_parameters_flawed, ?_⟩
  · rcases (nothing_unparseable_renders_iff "(V)V").2.mp h with hclean | hlone
    · exact hclean void_parameter_flawed
    · exact absurd (lone_opens hlone) (by decide +kernel)
  · refine (nothing_unparseable_renders_iff "<A:B:TT;>()V").2.mpr (.inr ?_)
    refine ⟨two_parameters, by decide +kernel, _, List.mem_cons_self, ?_⟩
    simp [Parameter.Bounded]

end Promise

end JavaDebug.StrictSignatures
