import JavaDebug.Octets
import Mathlib.Control.Lawful

/-!
Cursors: programs that read from the front of what is left and may fail. That a
cursor reads a piece of input as a value says that it does so whatever follows,
so what is read piece by piece is read as a whole; that it stops at a piece says
that it fails there whatever follows. There is one rule per combinator.
-/
namespace JavaDebug.Cursors

universe u v

section Reading

variable {τ α β : Type u} {m : Type u → Type v} [Monad m]

abbrev Cursor (τ : Type u) (m : Type u → Type v) (α : Type u) := StateT (List τ) m α

/-- The cursor reads `xs` as `a`, and leaves what follows. -/
def Reads (p : Cursor τ m α) (xs : List τ) (a : α) : Prop :=
  ∀ rest, p (xs ++ rest) = pure (a, rest)

/-- Read `n` values one after another. -/
def times (p : Cursor τ m α) : ℕ → Cursor τ m (List α)
  | 0 => pure []
  | n + 1 => do
    let a ← p
    let as ← times p n
    pure (a :: as)

theorem Reads.pure (a : α) : Reads (Pure.pure a : Cursor τ m α) [] a := fun _ => rfl

variable [LawfulMonad m]

variable {p : Cursor τ m α} {xs : List τ}

variable {a : α}

theorem Reads.run_bind (hp : Reads p xs a) (f : α → Cursor τ m β) (rest : List τ) :
    (p >>= f) (xs ++ rest) = f a rest := by
  show (p (xs ++ rest) >>= fun r => f r.1 r.2) = _
  rw [hp, pure_bind]

theorem Reads.bind {f : α → Cursor τ m β} {ys : List τ} {b : β} (hp : Reads p xs a)
    (hf : Reads (f a) ys b) : Reads (p >>= f) (xs ++ ys) b := by
  intro rest
  rw [List.append_assoc, hp.run_bind]
  exact hf rest

theorem Reads.last {f : α → β} (hp : Reads p xs a) :
    Reads (p >>= fun a => Pure.pure (f a)) xs (f a) := by
  intro rest
  show (p (xs ++ rest) >>= fun r => Pure.pure (f r.1, r.2)) = _
  rw [hp, pure_bind]

theorem Reads.map (f : α → β) (hp : Reads p xs a) : Reads (f <$> p) xs (f a) := by
  rw [map_eq_pure_bind]
  exact hp.last

theorem Reads.times {γ : Type u} {write : γ → List τ} {value : γ → α} (l : List γ)
    (h : ∀ c ∈ l, Reads p (write c) (value c)) :
    Reads (times p l.length) (l.flatMap write) (l.map value) := by
  induction l with
  | nil => exact Reads.pure []
  | cons c l ih =>
    rw [List.flatMap_cons]
    exact (h c List.mem_cons_self).bind (ih fun c' hc' => h c' (List.mem_cons_of_mem c hc')).last

theorem times_after {γ : Type u} {write : γ → List τ} {value : γ → α} (l : List γ)
    (h : ∀ c ∈ l, Reads p (write c) (value c)) (n : ℕ) (rest : List τ) :
    times p (l.length + n) (l.flatMap write ++ rest) =
      (fun r => (l.map value ++ r.1, r.2)) <$> times p n rest := by
  induction l with
  | nil => simp
  | cons c l ih =>
    have hl := ih fun c' hc' => h c' (List.mem_cons_of_mem c hc')
    rw [List.length_cons, Nat.succ_add, List.flatMap_cons, List.append_assoc, times,
      (h c List.mem_cons_self).run_bind]
    show (times p (l.length + n) (l.flatMap write ++ rest) >>= fun r =>
      Pure.pure (value c :: r.1, r.2)) = _
    rw [hl, bind_map_left, map_eq_pure_bind]
    rfl

end Reading

section Taken

variable {τ α β : Type u}

theorem some_of_bind {p : Cursor τ Option α} {f : α → Cursor τ Option β} {xs rest : List τ} {b : β}
    (h : (p >>= f) xs = some (b, rest)) :
    ∃ a ys, p xs = some (a, ys) ∧ f a ys = some (b, rest) := by
  obtain ⟨r, hr, hf⟩ := Option.bind_eq_some_iff.mp h
  exact ⟨r.1, r.2, hr, hf⟩

theorem bind_of_some {p : Cursor τ Option α} {f : α → Cursor τ Option β} {xs rest : List τ} {a : α}
    (h : p xs = some (a, rest)) : (p >>= f) xs = f a rest := by
  show (p xs).bind _ = _
  rw [h]
  rfl

end Taken

section Stopping

variable {τ α β ε : Type u}

/-- The cursor fails at `xs`, whatever follows. -/
def Stops (p : Cursor τ (Except ε) α) (xs : List τ) : Prop :=
  ∀ rest, ∃ e, p (xs ++ rest) = .error e

variable {p : Cursor τ (Except ε) α} {xs : List τ}

theorem ok_of_bind {f : α → Cursor τ (Except ε) β} {rest : List τ} {b : β}
    (h : (p >>= f) xs = .ok (b, rest)) : ∃ a ys, p xs = .ok (a, ys) ∧ f a ys = .ok (b, rest) := by
  change (p xs >>= fun r => f r.1 r.2) = _ at h
  cases hp : p xs with
  | error e =>
    rw [hp] at h
    cases h
  | ok r =>
    rw [hp] at h
    exact ⟨r.1, r.2, rfl, h⟩

theorem Stops.bind (h : Stops p xs) (f : α → Cursor τ (Except ε) β) : Stops (p >>= f) xs := by
  intro rest
  obtain ⟨e, he⟩ := h rest
  refine ⟨e, ?_⟩
  show (p (xs ++ rest) >>= fun r => f r.1 r.2) = _
  rw [he]
  rfl

theorem Stops.append (h : Stops p xs) (ys : List τ) : Stops p (xs ++ ys) := by
  intro rest
  rw [List.append_assoc]
  exact h (ys ++ rest)

theorem Reads.stops {f : α → Cursor τ (Except ε) β} {ys : List τ} {a : α} (hp : Reads p xs a)
    (hf : Stops (f a) ys) : Stops (p >>= f) (xs ++ ys) := by
  intro rest
  obtain ⟨e, he⟩ := hf rest
  refine ⟨e, ?_⟩
  rw [List.append_assoc, hp.run_bind]
  exact he

end Stopping

end JavaDebug.Cursors
