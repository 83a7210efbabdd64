import JavaDebug.Outcomes

/-!
What a program comes to together with all that it asked and was answered.
`Comes Q m log` says that after `log`, whatever is answered from there on, the
outcome and the whole log satisfy `Q`; it composes along sequencing. A program
that is confined to some operations extends the log by such operations only.
-/
namespace JavaDebug.Exchanges

open Dialogue Outcomes

variable {I : Interface} {α β ε : Type}

/-- An operation with the answer it was given. -/
abbrev Exchange (I : Interface) : Type := (o : I.Op) × I.Answer o

section Programs

def Comes (Q : α → List (Exchange I) → Prop) : Program I α → List (Exchange I) → Prop
  | .done a, log => Q a log
  | .ask o k, log => ∀ a, Comes Q (k a) (log ++ [⟨o, a⟩])

variable {P : α → List (Exchange I) → Prop} {Q : β → List (Exchange I) → Prop}
  {log log' : List (Exchange I)}

theorem comes_pure {a : α} (h : P a log) : Comes P (pure a : Program I α) log := h

variable {m : Program I α}

theorem Comes.mono {P' : α → List (Exchange I) → Prop} (hm : Comes P m log)
    (h : ∀ a log', P a log' → P' a log') : Comes P' m log := by
  induction m generalizing log with
  | done a => exact h a log hm
  | ask o k ih => exact fun a => ih a (hm a)

theorem Comes.bind {f : α → Program I β} (hm : Comes P m log)
    (hf : ∀ a log', P a log' → Comes Q (f a) log') : Comes Q (m >>= f) log := by
  induction m generalizing log with
  | done a => exact hf a log hm
  | ask o k ih => exact fun a => ih a (hm a)

/-- The log went on, with exchanges of operations that are allowed. -/
def Extends (allowed : I.Op → Prop) (log log' : List (Exchange I)) : Prop :=
  ∃ more, log' = log ++ more ∧ ∀ e ∈ more, allowed e.1

variable {allowed : I.Op → Prop}

theorem Extends.refl : Extends allowed log log :=
  ⟨[], (List.append_nil log).symm, fun _ he => absurd he List.not_mem_nil⟩

theorem Extends.one {o : I.Op} (ho : allowed o) (a : I.Answer o) :
    Extends allowed log (log ++ [⟨o, a⟩]) := by
  refine ⟨[⟨o, a⟩], rfl, fun e he => ?_⟩
  rw [List.mem_singleton.mp he]
  exact ho

theorem Extends.trans {log'' : List (Exchange I)} (h : Extends allowed log log')
    (h' : Extends allowed log' log'') : Extends allowed log log'' := by
  obtain ⟨more, rfl, hmore⟩ := h
  obtain ⟨next, rfl, hnext⟩ := h'
  refine ⟨more ++ next, List.append_assoc _ _ _, fun e he => ?_⟩
  rcases List.mem_append.mp he with he | he
  · exact hmore e he
  · exact hnext e he

theorem Extends.subset (h : Extends allowed log log') : log ⊆ log' := by
  obtain ⟨more, rfl, -⟩ := h
  exact List.subset_append_left log more

/-- What is proved of the operations and the outcomes of a program holds along a log. -/
theorem ensures_comes {R : α → Prop} (hm : Ensures allowed R m) (log : List (Exchange I)) :
    Comes (fun a log' => R a ∧ Extends allowed log log') m log := by
  induction m generalizing log with
  | done a => exact ⟨hm, Extends.refl⟩
  | ask o k ih =>
    intro a
    refine Comes.mono (ih a (hm.2 a) _) ?_
    rintro b log' ⟨hb, hext⟩
    exact ⟨hb, (Extends.one hm.1 a).trans hext⟩

end Programs

section Failing

def Settles (P : α → List (Exchange I) → Prop) (E : List (Exchange I) → Prop) (r : Except ε α)
    (log : List (Exchange I)) : Prop :=
  match r with
  | .ok a => P a log
  | .error _ => E log

/-- The successes satisfy `P` and the failures leave the log as `E` says. -/
def Trial (P : α → List (Exchange I) → Prop) (E : List (Exchange I) → Prop)
    (m : ExceptT ε (Program I) α) (log : List (Exchange I)) : Prop :=
  Comes (Settles P E) m.run log

variable {P : α → List (Exchange I) → Prop} {Q : β → List (Exchange I) → Prop}
  {E E' : List (Exchange I) → Prop} {log : List (Exchange I)}

theorem trial_pure {a : α} (h : P a log) : Trial P E (pure a : ExceptT ε (Program I) α) log := h

theorem trial_throw {e : ε} (h : E log) : Trial P E (throw e : ExceptT ε (Program I) α) log := h

theorem Trial.bind {m : ExceptT ε (Program I) α} {f : α → ExceptT ε (Program I) β}
    (hm : Trial P E m log) (hf : ∀ a log', P a log' → Trial Q E (f a) log') :
    Trial Q E (m >>= f) log := by
  refine Comes.bind hm ?_
  intro r log' hr
  cases r with
  | ok a => exact hf a log' hr
  | error e => exact comes_pure hr

theorem trial_lift {m : Program I α} (hm : Comes P m log) :
    Trial P E (liftM m : ExceptT ε (Program I) α) log :=
  Comes.bind hm fun _ _ ha => comes_pure ha

theorem Trial.mono {m : ExceptT ε (Program I) α} {P' : α → List (Exchange I) → Prop}
    (hm : Trial P E m log) (h : ∀ a log', P a log' → P' a log') (hE : ∀ log', E log' → E' log') :
    Trial P' E' m log := by
  refine Comes.mono hm ?_
  intro r log' hr
  cases r with
  | ok a => exact h a log' hr
  | error e => exact hE log' hr

end Failing

section Runs

variable {σ : Type} (serve : σ → (o : I.Op) → I.Answer o × σ)

/-- All that a run asks, with the answers. -/
def exchanges : Program I α → σ → List (Exchange I)
  | .done _, _ => []
  | .ask o k, s => ⟨o, (serve s o).1⟩ :: exchanges (k (serve s o).1) (serve s o).2

theorem Comes.served {P : α → List (Exchange I) → Prop} {m : Program I α} {log : List (Exchange I)}
    (hm : Comes P m log) (s : σ) : P (m.served serve s).1 (log ++ exchanges serve m s) := by
  induction m generalizing log s with
  | done a =>
    rw [exchanges, List.append_nil]
    exact hm
  | ask o k ih =>
    have hrest := ih (serve s o).1 (hm _) (serve s o).2
    rw [List.append_assoc] at hrest
    exact hrest

end Runs

end JavaDebug.Exchanges
