import JavaDebug.Cursors

/-!
Programs that read a slice at a position of their own and note what they do. A
program keeps to a kind of note when no run of it notes anything else, whether
it fails or not; it agrees with a cursor that reads from the front of what is
left when both give the same value and stop at the same place. Both are closed
under sequencing, under loops and under reading a slice of its own.
-/
namespace JavaDebug.Watches

open Cursors

variable {τ ω ε α β : Type}

/-- The outcome, with the position after it, and the notes taken on the way to it. -/
def Watch (τ ω ε α : Type) : Type := List τ → ℕ → Except ε (α × ℕ) × List ω

section Programs

def finish (a : α) : Watch τ ω ε α := fun _ at_ => (.ok (a, at_), [])

def proceed (m : Watch τ ω ε α) (f : α → Watch τ ω ε β) : Watch τ ω ε β := fun data at_ =>
  match m data at_ with
  | (.error e, notes) => (.error e, notes)
  | (.ok (a, at'), notes) => ((f a data at').1, notes ++ (f a data at').2)

instance : Monad (Watch τ ω ε) where
  pure := finish
  bind := proceed

def note (e : ω) : Watch τ ω ε Unit := fun _ at_ => (.ok ((), at_), [e])

def settle (r : Except ε α) : Watch τ ω ε α := fun _ at_ => (r.map fun a => (a, at_), [])

/-- Read another slice from its start. -/
def within (slice : List τ) (m : Watch τ ω ε α) : Watch τ ω ε α := fun _ at_ =>
  ((m slice 0).1.map fun r => (r.1, at_), (m slice 0).2)

def repeated (m : Watch τ ω ε α) : ℕ → Watch τ ω ε (List α)
  | 0 => pure []
  | n + 1 => do
    let a ← m
    let as ← repeated m n
    pure (a :: as)

theorem bind_error {m : Watch τ ω ε α} {data : List τ} {at_ : ℕ} {e : ε} {notes : List ω}
    (h : m data at_ = (.error e, notes)) (f : α → Watch τ ω ε β) :
    (m >>= f) data at_ = (.error e, notes) := by
  change proceed m f data at_ = _
  unfold proceed
  rw [h]

theorem bind_ok {m : Watch τ ω ε α} {data : List τ} {at_ at' : ℕ} {a : α} {notes : List ω}
    (h : m data at_ = (.ok (a, at'), notes)) (f : α → Watch τ ω ε β) :
    (m >>= f) data at_ = ((f a data at').1, notes ++ (f a data at').2) := by
  change proceed m f data at_ = _
  unfold proceed
  rw [h]

end Programs

section Notes

variable {good : ω → Prop}

/-- Whatever is noted is good. -/
def Notes (good : ω → Prop) (m : Watch τ ω ε α) : Prop :=
  ∀ data at_, ∀ e ∈ (m data at_).2, good e

theorem notes_pure (a : α) : Notes good (pure a : Watch τ ω ε α) := by
  intro data at_ e he
  cases he

variable {m : Watch τ ω ε α}

theorem notes_bind {f : α → Watch τ ω ε β} (hm : Notes good m) (hf : ∀ a, Notes good (f a)) :
    Notes good (m >>= f) := by
  intro data at_ e he
  rcases hr : m data at_ with ⟨⟨e'⟩ | ⟨a, at'⟩, notes⟩
  · rw [bind_error hr] at he
    have h := hm data at_ e
    rw [hr] at h
    exact h he
  · rw [bind_ok hr] at he
    rcases List.mem_append.mp he with he | he
    · have h := hm data at_ e
      rw [hr] at h
      exact h he
    · exact hf a data at' e he

theorem notes_note {e : ω} (h : good e) : Notes good (note e : Watch τ ω ε Unit) := by
  intro data at_ e' he'
  rwa [List.mem_singleton.mp he']

theorem notes_settle (r : Except ε α) : Notes good (settle r : Watch τ ω ε α) := by
  intro data at_ e he
  cases he

theorem notes_within (h : Notes good m) (slice : List τ) :
    Notes good (within slice m) := fun _ _ => h slice 0

theorem notes_repeated (h : Notes good m) (n : ℕ) : Notes good (repeated m n) := by
  induction n with
  | zero => exact notes_pure []
  | succ n ih => exact notes_bind h fun a => notes_bind ih fun as => notes_pure (a :: as)

end Notes

section Agreement

/-- No slice reaches the limit. -/
def Agrees (limit : ℕ) (m : Watch τ ω ε α) (p : ℕ → Cursor τ (Except ε) α) : Prop :=
  ∀ data at_, data.length < limit → at_ ≤ data.length →
    match (m data at_).1 with
    | .ok (a, at') => at' ≤ data.length ∧ p data.length (data.drop at_) = .ok (a, data.drop at')
    | .error e => p data.length (data.drop at_) = .error e

variable {limit : ℕ}

theorem agrees_pure (a : α) :
    Agrees limit (pure a : Watch τ ω ε α) fun _ => (pure a : Cursor τ (Except ε) α) := by
  intro data at_ _ hat
  exact ⟨hat, rfl⟩

variable {m : Watch τ ω ε α} {p : ℕ → Cursor τ (Except ε) α}

/-- What the second program may assume of the value is what the first returns. -/
theorem agrees_bind_returned {f : α → Watch τ ω ε β} {g : ℕ → α → Cursor τ (Except ε) β}
    {returned : α → Prop} (hm : Agrees limit m p)
    (hreturned : ∀ data at_, data.length < limit → ∀ a at', (m data at_).1 = .ok (a, at') →
      returned a) (hf : ∀ a, returned a → Agrees limit (f a) fun size => g size a) :
    Agrees limit (m >>= f) fun size => p size >>= g size := by
  intro data at_ hlimit hat
  have h := hm data at_ hlimit hat
  change match ((m >>= f) data at_).1 with
    | .ok (b, at') => at' ≤ data.length ∧
      (p data.length (data.drop at_) >>= fun r => g data.length r.1 r.2) =
        .ok (b, data.drop at')
    | .error e =>
      (p data.length (data.drop at_) >>= fun r => g data.length r.1 r.2) = .error e
  rcases hr : m data at_ with ⟨⟨e⟩ | ⟨a, at'⟩, notes⟩
  · rw [hr] at h
    rw [bind_error hr, h]
    rfl
  · have ha : returned a := hreturned data at_ hlimit a at' (by rw [hr])
    rw [hr] at h
    rw [bind_ok hr, h.2]
    exact hf a ha data at' hlimit h.1

theorem agrees_bind {f : α → Watch τ ω ε β} {g : ℕ → α → Cursor τ (Except ε) β}
    (hm : Agrees limit m p) (hf : ∀ a, Agrees limit (f a) fun size => g size a) :
    Agrees limit (m >>= f) fun size => p size >>= g size :=
  agrees_bind_returned hm (fun _ _ _ _ _ _ => True.intro) fun a _ => hf a

theorem agrees_note {e : ω} (h : Agrees limit m p) : Agrees limit (note e >>= fun _ => m) p := h

theorem agrees_settle (r : Except ε α) :
    Agrees limit (settle r : Watch τ ω ε α) fun _ => (StateT.lift r : Cursor τ (Except ε) α) := by
  intro data at_ _ hat
  cases r with
  | ok a => exact ⟨hat, rfl⟩
  | error e => exact rfl

theorem agrees_within (h : Agrees limit m p) {slice : List τ} (hslice : slice.length < limit) :
    Agrees limit (within slice m) fun _ =>
      (StateT.lift ((p slice.length slice).map Prod.fst) : Cursor τ (Except ε) α) := by
  have hs := h slice 0 hslice (Nat.zero_le _)
  rw [List.drop_zero] at hs
  intro data at_ _ hat
  unfold within
  rcases hr : m slice 0 with ⟨⟨e⟩ | ⟨a, at'⟩, notes⟩
  · rw [hr] at hs
    rw [hs]
    rfl
  · rw [hr] at hs
    rw [hs.2]
    exact ⟨hat, rfl⟩

theorem agrees_repeated (h : Agrees limit m p) (n : ℕ) :
    Agrees limit (repeated m n) fun size => times (p size) n := by
  induction n with
  | zero => exact agrees_pure []
  | succ n ih => exact agrees_bind h fun a => agrees_bind ih fun as => agrees_pure (a :: as)

end Agreement

end JavaDebug.Watches
