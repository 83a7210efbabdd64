import JavaDebug.Worklists
import JavaDebug.ReadTraces
import JavaDebug.PrefetchedReads

/-!
What `implements_interface` answers. It searches upwards from a type for one with the
wanted signature, at most 500 steps, and takes a read that fails for a type that has
nothing above it or another signature. It returns no error, so it answers as the
hierarchy does just when no failed read leaves the question open and a type that is
there arrives within the steps.
-/

namespace JavaDebug.InstanceAnswers

open Connection Links ReadTraces Worklists

section Walking

variable (d : Debuggee) (c : TypeCache)

/-- The superclass and the interfaces, as far as they can be read; the last interface first. -/
def read_above (t : ReferenceTypeId) : List ReferenceTypeId :=
  (((Lookup.superclass t).value d c).toOption.getD none).toList ++
    (((Lookup.interfaces t).value d c).toOption.getD []).reverse

def reads_as (wanted : String) (t : ReferenceTypeId) : Bool :=
  ((Lookup.signature t).value d c).toOption = some wanted

theorem implements_from_does (wanted : String) (n : ℕ) (seen stack : List ReferenceTypeId) :
    ∃ trace, Does d c (implements_from wanted seen n stack)
      (walk (read_above d c) (reads_as d c wanted) seen n stack) trace := by
  induction n generalizing seen stack with
  | zero => exact ⟨[], Does.done false⟩
  | succ n ih =>
    cases stack with
    | nil => exact ⟨[], Does.done false⟩
    | cons t stack =>
      rw [implements_from, walk]
      by_cases ht : t ∈ seen
      · rw [if_pos ht, if_pos (List.contains_iff_mem.mpr ht)]
        exact ih seen stack
      rw [if_neg ht, if_neg (fun h => ht (List.contains_iff_mem.mp h))]
      have hsig : Does d c (get_signature t).run _ _ := Does.look (Lookup.signature t)
      by_cases hread : ((Lookup.signature t).value d c).toOption = some wanted
      · rw [if_pos (show reads_as d c wanted t = true from decide_eq_true hread)]
        exact ⟨_, hsig.ends (if_pos hread)⟩
      · rw [if_neg (show ¬reads_as d c wanted t = true from fun h => hread (of_decide_eq_true h))]
        obtain ⟨trace, hrest⟩ := ih (t :: seen) (read_above d c t ++ stack)
        have hifaces : Does d c (get_interfaces t).run _ _ := Does.look (Lookup.interfaces t)
        have hparent : Does d c (get_superclass t).run _ _ := Does.look (Lookup.superclass t)
        refine ⟨[.looks (.signature t)] ++ ([.looks (.interfaces t)] ++
          ([.looks (.superclass t)] ++ trace)), hsig.bind ?_⟩
        rw [if_neg hread]
        exact hifaces.bind (hparent.bind hrest)

theorem implements_interface_answers (l : Link) (t : ReferenceTypeId) (wanted : String) :
    ((implements_interface t wanted).run.served (serve d) l).1 =
      .ok (walk (read_above d l.shared.types) (reads_as d l.shared.types wanted) [] 500 [t]) := by
  obtain ⟨trace, hwalk⟩ := implements_from_does d l.shared.types wanted 500 [] [t]
  have hval := (hwalk.last Except.ok (β := JdwpResult Bool) l fun _ => rfl).1
  exact hval

end Walking

section Questions

/-- Types of distinct signatures, and what is directly above each. -/
structure Hierarchy where
  types : Finset ReferenceTypeId
  signature : ReferenceTypeId → String
  interfaces : ReferenceTypeId → List ReferenceTypeId
  superclass : ClassId → Option ClassId
  is_interface : ReferenceTypeId → Bool
  distinct : ∀ t ∈ types, ∀ u ∈ types, signature t = signature u → t = u
  interfaces_there : ∀ t ∈ types, ∀ u ∈ interfaces t, u ∈ types ∧ is_interface u = true
  superclass_there : ∀ t ∈ types, ∀ u, superclass t = some u →
    u ∈ types ∧ is_interface t = false ∧ is_interface u = false

/-- A question about a type of the hierarchy, asked over a link whose successful reads are true
and whose other reads fail. -/
structure Question extends Hierarchy where
  start : ReferenceTypeId
  start_there : start ∈ types
  wanted : String
  debuggee : Debuggee
  link : Link
  signature_true : ∀ t ∈ types, ∀ s,
    (Lookup.signature t).value debuggee link.shared.types = .ok s → s = signature t
  interfaces_true : ∀ t ∈ types, ∀ is,
    (Lookup.interfaces t).value debuggee link.shared.types = .ok is → is = interfaces t
  superclass_true : ∀ t ∈ types, ∀ p,
    (Lookup.superclass t).value debuggee link.shared.types = .ok p → p = superclass t

namespace Question

variable (q : Question)

def reads (k : Lookup) : JdwpResult k.Answer := k.value q.debuggee q.link.shared.types

def answer : JdwpResult Bool :=
  ((implements_interface q.start q.wanted).run.served (serve q.debuggee) q.link).1

def Above (t u : ReferenceTypeId) : Prop := q.superclass t = some u ∨ u ∈ q.interfaces t

/-- The starting type or one above it has the wanted signature. -/
def IsInstance : Prop :=
  ∃ t, Relation.ReflTransGen q.Above q.start t ∧ q.signature t = q.wanted

/-- What is above a type, as far as it can be read, in the order of the search. -/
def above : ReferenceTypeId → List ReferenceTypeId :=
  read_above q.debuggee q.link.shared.types

/-- A type that successful reads lead to. -/
def Found (t : ReferenceTypeId) : Prop := Relation.ReflTransGen (Up q.above) q.start t

def fails {α : Type} (r : JdwpResult α) : Prop := r.toOption = none

/-- No type that was found has the wanted signature, and of one of them something is not known. -/
def Open : Prop :=
  (∀ t, q.Found t → q.reads (.signature t) ≠ .ok q.wanted) ∧
    ∃ t, q.Found t ∧ (fails (q.reads (.signature t)) ∨ fails (q.reads (.interfaces t)) ∨
      q.is_interface t = false ∧ fails (q.reads (.superclass t)))

def AnswersOrErrs : Prop :=
  (q.answer = .ok true → q.IsInstance) ∧ (q.answer = .ok false → ¬q.IsInstance) ∧
    (q.Open → ∃ e, q.answer = .error e)

/-- A type with the wanted signature arrives, and its signature is read, within the steps. -/
def Arrived : Prop :=
  ∃ k < 500, ∃ t, Arrives q.above [] [q.start] k t ∧ q.reads (.signature t) = .ok q.wanted

theorem answer_eq : ∃ b : Bool, q.answer = .ok b ∧ (b = true ↔ q.Arrived) := by
  refine ⟨_, implements_interface_answers q.debuggee q.link q.start q.wanted, ?_⟩
  rw [walk_iff]
  have hread (t : ReferenceTypeId) : reads_as q.debuggee q.link.shared.types q.wanted t = true ↔
      q.reads (.signature t) = .ok q.wanted := by
    rw [reads_as, decide_eq_true_eq, reads]
    cases (Lookup.signature t).value q.debuggee q.link.shared.types with
    | ok s => simp [Except.toOption]
    | error e => simp [Except.toOption]
  simp only [hread]
  exact Iff.rfl

variable {q}

variable {t u : ReferenceTypeId}

theorem above_true (ht : t ∈ q.types) (hu : u ∈ q.above t) : q.Above t u := by
  rcases List.mem_append.mp hu with hu | hu
  · left
    cases hread : (Lookup.superclass t).value q.debuggee q.link.shared.types with
    | error e =>
      rw [hread] at hu
      cases hu
    | ok p =>
      rw [hread] at hu
      rw [← q.superclass_true t ht p hread]
      exact Option.mem_toList.mp hu
  · right
    cases hread : (Lookup.interfaces t).value q.debuggee q.link.shared.types with
    | error e =>
      rw [hread] at hu
      cases hu
    | ok is =>
      rw [hread] at hu
      rw [← q.interfaces_true t ht is hread]
      exact List.mem_reverse.mp hu

theorem above_there (ht : t ∈ q.types) (hu : q.Above t u) : u ∈ q.types := by
  rcases hu with hu | hu
  · exact (q.superclass_there t ht u hu).1
  · exact (q.interfaces_there t ht u hu).1

theorem found_above (h : q.Found t) : t ∈ q.types ∧ Relation.ReflTransGen q.Above q.start t := by
  induction h with
  | refl => exact ⟨q.start_there, .refl⟩
  | tail _ hup ih =>
    have hup' := above_true ih.1 hup
    exact ⟨above_there ih.1 hup', ih.2.tail hup'⟩

theorem arrived_found (h : q.Arrived) : ∃ t, q.Found t ∧ q.reads (.signature t) = .ok q.wanted := by
  obtain ⟨k, _, t, hk, ht⟩ := h
  obtain ⟨u, hu, hreach⟩ := hk.reached
  rw [List.mem_singleton.mp hu] at hreach
  exact ⟨t, hreach, ht⟩

theorem arrived_is_instance (h : q.Arrived) : q.IsInstance := by
  obtain ⟨t, hfound, hread⟩ := arrived_found h
  obtain ⟨hthere, hreach⟩ := found_above hfound
  exact ⟨t, hreach, (q.signature_true t hthere _ hread).symm⟩

theorem settled_reads (h : ¬q.Open)
    (hmissing : ∀ t, q.Found t → q.reads (.signature t) ≠ .ok q.wanted)
    (ht : Relation.ReflTransGen q.Above q.start t) : q.Found t := by
  have hknown (t : ReferenceTypeId) (hfound : q.Found t) (u : ReferenceTypeId)
      (hup : q.Above t u) : u ∈ q.above t := by
    have hthere := (found_above hfound).1
    rcases hup with hup | hup
    · have hclass := (q.superclass_there t hthere u hup).2.1
      refine List.mem_append_left _ ?_
      cases hread : (Lookup.superclass t).value q.debuggee q.link.shared.types with
      | error e =>
        refine absurd ⟨hmissing, t, hfound, Or.inr (Or.inr ⟨hclass, ?_⟩)⟩ h
        rw [reads, hread]
        rfl
      | ok p =>
        rw [q.superclass_true t hthere p hread, hup]
        exact List.mem_cons_self
    · refine List.mem_append_right _ (List.mem_reverse.mpr ?_)
      cases hread : (Lookup.interfaces t).value q.debuggee q.link.shared.types with
      | error e =>
        refine absurd ⟨hmissing, t, hfound, Or.inr (Or.inl ?_)⟩ h
        rw [reads, hread]
        rfl
      | ok is =>
        rw [q.interfaces_true t hthere is hread]
        exact hup
  induction ht with
  | refl => exact .refl
  | tail _ hup ih => exact ih.tail (hknown _ ih _ hup)

/-- Where nothing is left open, an instance has a type that can be found and read. -/
theorem settled_found (h : ¬q.Open) (hinstance : q.IsInstance) :
    ∃ t, q.Found t ∧ q.reads (.signature t) = .ok q.wanted := by
  by_contra hnone
  push Not at hnone
  obtain ⟨t, hreach, hsig⟩ := hinstance
  have hfound := settled_reads h hnone hreach
  cases hread : q.reads (.signature t) with
  | error e =>
    refine h ⟨hnone, t, hfound, Or.inl ?_⟩
    rw [hread]
    rfl
  | ok s =>
    refine hnone t hfound ?_
    rw [hread, q.signature_true t (found_above hfound).1 s hread, hsig]

/-- No failed read leaves the question open, and the wanted type, where it is found, is one of
the first 500 that the search takes off its stack, every repeated one counted. -/
def Settled (q : Question) : Prop :=
  ¬q.Open ∧ ∀ t, q.Found t → q.reads (.signature t) = .ok q.wanted →
    ∃ k < 500, Arrives q.above [] [q.start] k t

/-- Among fewer than 500 edges every type that is found is taken off in time. -/
theorem settled_of_few_edges {vs : Finset ReferenceTypeId} (hstart : q.start ∈ vs)
    (habove : ∀ t ∈ vs, ∀ u ∈ q.above t, u ∈ vs) (hclosed : ¬q.Open)
    (hfew : ∑ t ∈ vs, (q.above t).length < 500) : q.Settled := by
  refine ⟨hclosed, fun t hfound _ => ?_⟩
  have hn : [q.start].length + ∑ t ∈ vs.filter (· ∉ []), (q.above t).length ≤ 500 := by
    simp only [List.not_mem_nil, not_false_eq_true, Finset.filter_true, List.length_singleton]
    omega
  refine arrives_of_reached habove hfound 500 [] [q.start] hn ?_ (.inr List.mem_cons_self) ?_
    List.not_mem_nil
  · exact fun u hu => List.mem_singleton.mp hu ▸ hstart
  · exact fun u hu => absurd hu List.not_mem_nil

theorem found_unique (ht : q.Found t) (hu : q.Found u)
    (hreadt : q.reads (.signature t) = .ok q.wanted)
    (hreadu : q.reads (.signature u) = .ok q.wanted) : t = u := by
  have hthere := (found_above ht).1
  have hthere' := (found_above hu).1
  refine q.distinct t hthere u hthere' ?_
  rw [← q.signature_true t hthere _ hreadt, ← q.signature_true u hthere' _ hreadu]

theorem never_errs (h : q.AnswersOrErrs) : ¬q.Open := by
  intro hopen
  obtain ⟨e, he⟩ := h.2.2 hopen
  obtain ⟨b, hb, _⟩ := q.answer_eq
  rw [hb] at he
  cases he

theorem answers_or_errs_iff_settled (q : Question) : q.AnswersOrErrs ↔ q.Settled := by
  obtain ⟨b, hanswer, harrived⟩ := q.answer_eq
  constructor
  · intro h
    refine ⟨never_errs h, fun t hfound hread => ?_⟩
    have hinstance : q.IsInstance :=
      ⟨t, (found_above hfound).2, (q.signature_true t (found_above hfound).1 _ hread).symm⟩
    cases b with
    | false => exact absurd hinstance (h.2.1 hanswer)
    | true =>
      obtain ⟨k, hk, u, hu, hreadu⟩ := harrived.mp rfl
      obtain ⟨v, hv, hreach⟩ := hu.reached
      rw [List.mem_singleton.mp hv] at hreach
      rw [found_unique hfound hreach hread hreadu]
      exact ⟨k, hk, hu⟩
  · rintro ⟨hclosed, harrives⟩
    rw [AnswersOrErrs, hanswer]
    refine ⟨fun h => ?_, fun h hinstance => ?_, fun h => absurd h hclosed⟩
    · exact arrived_is_instance (harrived.mp (Except.ok.inj h))
    · obtain ⟨t, hfound, hread⟩ := settled_found hclosed hinstance
      obtain ⟨k, hk, ht⟩ := harrives t hfound hread
      have htrue := harrived.mpr ⟨k, hk, t, ht, hread⟩
      rw [Except.ok.inj h] at htrue
      cases htrue

/-- A task that implements one interface. Its name and its superclass were read, and the
debuggee answers nothing more. -/
def unread_interface : Question where
  types := {1, 2}
  signature t := if t = 1 then "LTask;" else "Ljava/lang/Runnable;"
  interfaces t := if t = 1 then [2] else []
  superclass _ := none
  is_interface t := t = 2
  distinct t ht u hu h := by
    rw [Finset.mem_insert, Finset.mem_singleton] at ht hu
    rcases ht with rfl | rfl <;> rcases hu with rfl | rfl <;> first | rfl | simp at h
  interfaces_there t _ u hu := by
    by_cases ht : t = 1
    · rw [if_pos ht, List.mem_singleton] at hu
      subst hu
      exact ⟨by simp, by simp⟩
    · rw [if_neg ht] at hu
      cases hu
  superclass_there _ _ _ h := by cases h
  start := 1
  start_there := by simp
  wanted := "Ljava/lang/Runnable;"
  debuggee := PrefetchedReads.silent
  link := ⟨⟨false, 1, 0, 0, { ReadOnly.no_types with
    signatures := fun t => if t = 1 then some "LTask;" else none
    superclasses := fun t => if t = 1 then .root else .unknown }⟩, []⟩
  signature_true t _ s h := by
    by_cases ht : t = 1
    · subst ht
      cases h
      rfl
    · simp [Lookup.value, Lookup.entry, ht] at h
      cases h
  interfaces_true _ _ _ h := by cases h
  superclass_true t _ p h := by
    by_cases ht : t = 1
    · subst ht
      cases h
      rfl
    · simp [Lookup.value, Lookup.entry, ht] at h
      cases h

theorem unread_interface_denied : ¬unread_interface.AnswersOrErrs := by
  intro h
  refine never_errs h ⟨fun t _ hread => ?_, 1, .refl, Or.inr (Or.inl rfl)⟩
  by_cases ht : t = 1
  · subst ht
    exact absurd (Except.ok.inj hread) (by decide)
  · simp only [reads, Lookup.value, Lookup.entry, unread_interface, if_neg ht] at hread
    cases hread

end Question

end Questions

end JavaDebug.InstanceAnswers
