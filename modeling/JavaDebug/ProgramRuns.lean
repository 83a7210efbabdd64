import JavaDebug.Dialogue

/-!
Runs of a program under the answers that are possible, with what was asked in
them; a run may be cut off before any question. A run of two programs in sequence
is a run of the first, or one of each, and a failure ends it.
-/
namespace JavaDebug.ProgramRuns

open Dialogue

section Runs

variable {I : Interface} {α β : Type}

/-- An operation that was asked, with its answer. -/
abbrev Exchange (I : Interface) := (o : I.Op) × I.Answer o

/-- What was exchanged in a run, and the result if the run was not cut off before. -/
inductive Run (possible : (o : I.Op) → I.Answer o → Prop) :
    Program I α → List (Exchange I) → Option α → Prop
  | cut (m : Program I α) : Run possible m [] none
  | done (a : α) : Run possible (.done a) [] (some a)
  | ask {o : I.Op} {k : I.Answer o → Program I α} {a : I.Answer o} {l : List (Exchange I)}
      {r : Option α} (ha : possible o a) (h : Run possible (k a) l r) :
      Run possible (.ask o k) (⟨o, a⟩ :: l) r

variable {possible : (o : I.Op) → I.Answer o → Prop}

/-- A run of two programs in sequence is a run of the first, or one of each. -/
theorem run_bind {m : Program I α} {f : α → Program I β} {l : List (Exchange I)} {r : Option β}
    (h : Run possible (m >>= f) l r) :
    (r = none ∧ Run possible m l none) ∨
      ∃ a l₁ l₂, l = l₁ ++ l₂ ∧ Run possible m l₁ (some a) ∧ Run possible (f a) l₂ r := by
  induction m generalizing l with
  | done a => exact .inr ⟨a, [], l, rfl, .done a, h⟩
  | ask o k ih =>
    change Run possible (.ask o fun a => (k a).bind f) l r at h
    cases h with
    | cut => exact .inl ⟨rfl, .cut _⟩
    | ask ha hr =>
      rcases ih _ hr with ⟨hn, hm⟩ | ⟨a, l₁, l₂, hl, hm, hf⟩
      · exact .inl ⟨hn, .ask ha hm⟩
      · exact .inr ⟨a, _ :: l₁, l₂, by rw [hl]; rfl, .ask ha hm, hf⟩

end Runs

section Failing

variable {I : Interface} {ε α β : Type} {possible : (o : I.Op) → I.Answer o → Prop}

/-- A run that fails in its first part stops there. -/
theorem run_then {m : ExceptT ε (Program I) α} {f : α → ExceptT ε (Program I) β}
    {l : List (Exchange I)} {r : Except ε β} (h : Run possible (m >>= f).run l (some r)) :
    (∃ e, r = .error e ∧ Run possible m.run l (some (.error e))) ∨
      ∃ a l₁ l₂, l = l₁ ++ l₂ ∧ Run possible m.run l₁ (some (.ok a)) ∧
        Run possible (f a).run l₂ (some r) := by
  rcases run_bind h with ⟨hnone, -⟩ | ⟨a, l₁, l₂, rfl, hm, hf⟩
  · cases hnone
  · cases a with
    | ok a => exact .inr ⟨a, l₁, l₂, rfl, hm, hf⟩
    | error e =>
      cases hf
      exact .inl ⟨e, rfl, by rwa [List.append_nil]⟩

theorem run_lift {m : Program I α} {l : List (Exchange I)} {r : Except ε α}
    (h : Run possible (liftM m : ExceptT ε (Program I) α).run l (some r)) :
    ∃ a, r = .ok a ∧ Run possible m l (some a) := by
  rcases run_bind h with ⟨hnone, -⟩ | ⟨a, l₁, l₂, rfl, hm, hf⟩
  · cases hnone
  · cases hf
    exact ⟨a, rfl, by rwa [List.append_nil]⟩

end Failing

end JavaDebug.ProgramRuns
