import JavaDebug.Dialogue

/-!
What a program of operations asks and comes to, whatever it is answered.
`Ensures allowed Q` says that every operation asked is allowed and that every
outcome satisfies `Q`; `Attempts` says it of a program that can fail, for its
successes. Both are closed under sequencing, and hold of every run.
-/
namespace JavaDebug.Outcomes

open Dialogue

variable {I : Interface} {α β : Type} {allowed : I.Op → Prop}

section Programs

def Ensures (allowed : I.Op → Prop) (Q : α → Prop) : Program I α → Prop
  | .done a => Q a
  | .ask o k => allowed o ∧ ∀ a, Ensures allowed Q (k a)

variable {P : α → Prop} {Q : β → Prop}

theorem ensures_pure {a : α} (h : P a) : Ensures allowed P (pure a : Program I α) := h

theorem ensures_perform {o : I.Op} {R : I.Answer o → Prop} (ho : allowed o) (h : ∀ a, R a) :
    Ensures allowed R (Program.perform o) :=
  ⟨ho, h⟩

variable {m : Program I α}

theorem Ensures.bind {f : α → Program I β} (hm : Ensures allowed P m)
    (hf : ∀ a, P a → Ensures allowed Q (f a)) : Ensures allowed Q (m >>= f) := by
  induction m with
  | done a => exact hf a hm
  | ask o k ih => exact ⟨hm.1, fun a => ih a (hm.2 a)⟩

theorem Ensures.mono {P' : α → Prop} (hm : Ensures allowed P m) (h : ∀ a, P a → P' a) :
    Ensures allowed P' m := by
  induction m with
  | done a => exact h a hm
  | ask o k ih => exact ⟨hm.1, fun a => ih a (hm.2 a)⟩

theorem Ensures.map {f : α → β} (hm : Ensures allowed P m) (h : ∀ a, P a → Q (f a)) :
    Ensures allowed Q (f <$> m) :=
  hm.bind fun a ha => ensures_pure (h a ha)

theorem ensures_mapM {f : α → Program I β} (h : ∀ a, Ensures allowed (fun _ => True) (f a))
    (l : List α) : Ensures allowed (fun _ => True) (l.mapM f) := by
  induction l with
  | nil => exact ensures_pure trivial
  | cons a l ih =>
    rw [List.mapM_cons]
    exact (h a).bind fun _ _ => ih.bind fun _ _ => ensures_pure trivial

end Programs

section Failing

variable {ε : Type} {P : α → Prop} {Q : β → Prop}

/-- The outcomes that are successes. -/
def Succeeds (P : α → Prop) (r : Except ε α) : Prop := ∀ a, r = .ok a → P a

def Attempts (allowed : I.Op → Prop) (P : α → Prop) (m : ExceptT ε (Program I) α) : Prop :=
  Ensures allowed (Succeeds P) m.run

theorem succeeds_ok {a : α} (h : P a) : Succeeds (ε := ε) P (.ok a) := by
  rintro b ⟨⟩
  exact h

theorem succeeds_error {e : ε} : Succeeds P (.error e) := by
  rintro a ⟨⟩

theorem attempts_pure {a : α} (h : P a) : Attempts allowed P (pure a : ExceptT ε (Program I) α) :=
  ensures_pure (succeeds_ok h)

theorem attempts_throw (e : ε) : Attempts allowed P (throw e : ExceptT ε (Program I) α) :=
  ensures_pure succeeds_error

theorem Attempts.bind {m : ExceptT ε (Program I) α} {f : α → ExceptT ε (Program I) β}
    (hm : Attempts allowed P m) (hf : ∀ a, P a → Attempts allowed Q (f a)) :
    Attempts allowed Q (m >>= f) := by
  refine Ensures.bind hm ?_
  intro r hr
  cases r with
  | ok a => exact hf a (hr a rfl)
  | error e => exact ensures_pure succeeds_error

theorem Attempts.mono {m : ExceptT ε (Program I) α} {P' : α → Prop} (hm : Attempts allowed P m)
    (h : ∀ a, P a → P' a) : Attempts allowed P' m :=
  Ensures.mono hm fun _ hr a ha => h a (hr a ha)

theorem attempts_lift {m : Program I α} (hm : Ensures allowed P m) :
    Attempts allowed P (liftM m : ExceptT ε (Program I) α) :=
  hm.map fun _ ha => succeeds_ok ha

theorem attempts_settled {r : Except ε α} (h : Succeeds P r) :
    Attempts allowed P (ExceptT.mk (pure r) : ExceptT ε (Program I) α) :=
  ensures_pure h

end Failing

section Runs

variable {σ : Type} (serve : σ → (o : I.Op) → I.Answer o × σ)

/-- The operations that a run asks. -/
def asked : Program I α → σ → List I.Op
  | .done _, _ => []
  | .ask o k, s => o :: asked (k (serve s o).1) (serve s o).2

theorem Ensures.served {P : α → Prop} {m : Program I α} (hm : Ensures allowed P m) (s : σ) :
    (∀ o ∈ asked serve m s, allowed o) ∧ P (m.served serve s).1 := by
  induction m generalizing s with
  | done a => exact ⟨fun o ho => absurd ho List.not_mem_nil, hm⟩
  | ask o k ih =>
    obtain ⟨hallowed, hcomes⟩ := ih (serve s o).1 (hm.2 _) (serve s o).2
    refine ⟨?_, hcomes⟩
    intro o' ho'
    rcases List.mem_cons.mp ho' with rfl | hrest
    · exact hm.1
    · exact hallowed o' hrest

end Runs

end JavaDebug.Outcomes
