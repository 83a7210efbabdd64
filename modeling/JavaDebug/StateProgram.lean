import Mathlib.Data.List.Basic
import Mathlib.Order.Defs.Unbundled

/-!
Reasoning rules for programs that read and write one state. `Ensures` is a
partial-correctness triple (every program here terminates, so it is a total
one), `Keeps` says that a projection of the state is the same before and
after, `Leads` that a preorder relates the two. The loop rules are for
`List.forM`, the only loop the programs use.
-/
namespace JavaDebug.StateProgram

universe u v

variable {σ : Type u} {α β ι : Type u} {τ : Type v}

theorem run_bind (m : StateM σ α) (f : α → StateM σ β) (s : σ) :
    (m >>= f).run s = (f (m.run s).1).run (m.run s).2 := rfl

theorem run_pure (a : α) (s : σ) : (pure a : StateM σ α).run s = (a, s) := rfl

theorem run_get (s : σ) : (get : StateM σ σ).run s = (s, s) := rfl

theorem run_get_bind (f : σ → StateM σ α) (s : σ) : (get >>= f).run s = (f s).run s := rfl

theorem run_ite (c : Prop) [Decidable c] (m n : StateM σ α) (s : σ) :
    (if c then m else n).run s = if c then m.run s else n.run s := by
  split <;> rfl

/-- From a state satisfying `P`, `m` ends in a result and a state satisfying `Q`. -/
def Ensures (P : σ → Prop) (m : StateM σ α) (Q : α → σ → Prop) : Prop :=
  ∀ s, P s → Q (m.run s).1 (m.run s).2

/-- `m` leaves the part of the state that `g` reads as it was. -/
def Keeps (g : σ → τ) (m : StateM σ α) : Prop :=
  ∀ s, g (m.run s).2 = g s

namespace Ensures

variable {P : σ → Prop} {Q : α → σ → Prop}

theorem bind {m : StateM σ α} {f : α → StateM σ β} {R : β → σ → Prop} (hm : Ensures P m Q)
    (hf : ∀ a, Ensures (Q a) (f a) R) : Ensures P (m >>= f) R := by
  intro s hs
  exact hf (m.run s).1 (m.run s).2 (hm s hs)

theorem mono {P' : σ → Prop} {Q' : α → σ → Prop} {m : StateM σ α} (h : Ensures P m Q)
    (hpre : ∀ s, P' s → P s) (hpost : ∀ a s, Q a s → Q' a s) : Ensures P' m Q' := by
  intro s hs
  exact hpost _ _ (h s (hpre s hs))

/-- What was read from the state is known to come from a state satisfying the precondition. -/
theorem get_bind {f : σ → StateM σ β} {R : β → σ → Prop} (hf : ∀ s, P s → Ensures P (f s) R) :
    Ensures P (MonadState.get >>= f) R := by
  intro s hs
  exact hf s hs s hs

theorem forM {I : List ι → σ → Prop} {f : ι → StateM σ PUnit}
    (hstep : ∀ i rest, Ensures (I (i :: rest)) (f i) (fun _ => I rest)) (l : List ι) :
    Ensures (I l) (l.forM f) (fun _ => I []) := by
  induction l with
  | nil => exact fun s hs => hs
  | cons i rest ih => exact fun s hs => ih _ (hstep i rest s hs)

end Ensures

/-- `I` holds after `m` whenever it holds before. -/
def Preserves (I : σ → Prop) (m : StateM σ α) : Prop :=
  ∀ s, I s → I (m.run s).2

namespace Preserves

variable {I : σ → Prop}

theorem pure (a : α) : Preserves I (Pure.pure a : StateM σ α) := fun _ hs => hs

variable {m : StateM σ α}

theorem bind {f : α → StateM σ β} (hm : Preserves I m) (hf : ∀ a, Preserves I (f a)) :
    Preserves I (m >>= f) := by
  intro s hs
  exact hf _ _ (hm s hs)

theorem of_ensures {Q : α → σ → Prop} (h : Ensures I m Q) (hQ : ∀ a s, Q a s → I s) :
    Preserves I m := fun s hs => hQ _ _ (h s hs)

theorem bind_ensures {f : α → StateM σ β} {Q : β → σ → Prop} (hm : Preserves I m)
    (hf : ∀ a, Ensures I (f a) Q) : Ensures I (m >>= f) Q := by
  intro s hs
  exact hf _ _ (hm s hs)

theorem get_bind {f : σ → StateM σ β} (hf : ∀ s, I s → Preserves I (f s)) :
    Preserves I (MonadState.get >>= f) := Ensures.get_bind (R := fun _ => I) hf

theorem map {f : α → β} (hm : Preserves I m) : Preserves I (f <$> m) := hm

theorem forM_mem {f : ι → StateM σ PUnit} (l : List ι) (h : ∀ i ∈ l, Preserves I (f i)) :
    Preserves I (l.forM f) := by
  induction l with
  | nil => exact Preserves.pure _
  | cons i rest ih =>
    exact Preserves.bind (h i List.mem_cons_self) fun _ =>
      ih fun j hj => h j (List.mem_cons_of_mem i hj)

end Preserves

namespace Keeps

variable {g : σ → τ}

theorem pure (a : α) : Keeps g (Pure.pure a : StateM σ α) := fun _ => rfl

theorem get : Keeps g (MonadState.get : StateM σ σ) := fun _ => rfl

variable {m : StateM σ α}

theorem preserves (h : Keeps g m) (t : τ) : Preserves (fun s => g s = t) m :=
  fun s hs => (h s).trans hs

theorem of_preserves (h : ∀ t, Preserves (fun s => g s = t) m) : Keeps g m :=
  fun s => h (g s) s rfl

theorem bind {f : α → StateM σ β} (hm : Keeps g m) (hf : ∀ a, Keeps g (f a)) :
    Keeps g (m >>= f) := by
  intro s
  exact (hf _ _).trans (hm s)

theorem ite {c : Prop} [Decidable c] {n : StateM σ α} (hm : Keeps g m) (hn : Keeps g n) :
    Keeps g (if c then m else n) := by
  split
  · exact hm
  · exact hn

theorem forM {f : ι → StateM σ PUnit} (h : ∀ i, Keeps g (f i)) (l : List ι) :
    Keeps g (l.forM f) := by
  induction l with
  | nil => exact Keeps.pure _
  | cons i rest ih => exact Keeps.bind (h i) fun _ => ih

end Keeps

/-- Wherever `m` starts, `R` relates the state before to the state after. -/
def Leads (R : σ → σ → Prop) (m : StateM σ α) : Prop := ∀ s, R s (m.run s).2

namespace Leads

variable {R : σ → σ → Prop}

theorem get_bind {f : σ → StateM σ β} (hf : ∀ s, Leads R (f s)) :
    Leads R (MonadState.get >>= f) := fun s => hf s s

variable [IsPreorder σ R]

theorem pure (a : α) : Leads R (Pure.pure a : StateM σ α) := fun s => Std.Refl.refl s

variable {m : StateM σ α}

theorem bind {f : α → StateM σ β} (hm : Leads R m) (hf : ∀ a, Leads R (f a)) :
    Leads R (m >>= f) := fun s => IsTrans.trans _ _ _ (hm s) (hf _ _)

theorem preserves (h : Leads R m) (s₀ : σ) : Preserves (R s₀) m :=
  fun s hs => IsTrans.trans _ _ _ hs (h s)

theorem of_preserves (h : ∀ s₀, Preserves (R s₀) m) : Leads R m :=
  fun s => h s s (Std.Refl.refl s)

theorem forM_mem {f : ι → StateM σ PUnit} (l : List ι) (h : ∀ i ∈ l, Leads R (f i)) :
    Leads R (l.forM f) := by
  induction l with
  | nil => exact Leads.pure _
  | cons i rest ih =>
    exact Leads.bind (h i List.mem_cons_self) fun _ =>
      ih fun j hj => h j (List.mem_cons_of_mem i hj)

end Leads

end JavaDebug.StateProgram
