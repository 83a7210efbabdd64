import Mathlib.Algebra.BigOperators.Group.Finset.Basic
import Mathlib.Algebra.Order.BigOperators.Group.Finset
import Mathlib.Algebra.Ring.Nat

/-!
Questions asked under a memory. A question whose answer is kept costs nothing
when it is asked again; the others cost their weight each time. What a list of
questions costs depends on how often it asks the others and on which of the
kept ones it asks at all, so reading ahead, in another order or once instead of
often is paid for by counting these.
-/
namespace JavaDebug.KeptAnswers

variable {Q : Type} [DecidableEq Q] (kept : Q → Bool) (weight : Q → ℕ)

variable (known : Q → Bool)

/-- What is known once a question has been asked. -/
def learn_one (q : Q) : Q → Bool :=
  fun x => known x || (decide (x = q) && kept q)

variable (qs : List Q)

def learn : Q → Bool := qs.foldl (learn_one kept) known

def cost (known : Q → Bool) : List Q → ℕ
  | [] => 0
  | q :: qs => (if known q then 0 else weight q) + cost (learn_one kept known q) qs

/-- The questions that are paid for each time. -/
def repeated : List Q :=
  qs.filter fun q => !kept q && !known q

/-- The kept questions that are paid for once. -/
def fresh : Finset Q :=
  (qs.filter fun q => kept q && !known q).toFinset

/-- What is paid each time. -/
def heavy : ℕ := ((repeated kept known qs).map weight).sum

section Memory

variable {kept} {known : Q → Bool}

theorem learn_apply (qs : List Q) (x : Q) :
    learn kept known qs x = (known x || (decide (x ∈ qs) && kept x)) := by
  induction qs generalizing known with
  | nil => simp [learn]
  | cons q qs ih =>
    change learn kept (learn_one kept known q) qs x = _
    rw [ih, learn_one]
    by_cases hx : x = q
    · subst hx
      cases kept x <;> simp
    · simp [hx]

theorem learn_append (qs qs' : List Q) :
    learn kept known (qs ++ qs') = learn kept (learn kept known qs) qs' := List.foldl_append

theorem cost_append (qs qs' : List Q) : cost kept weight known (qs ++ qs') =
    cost kept weight known qs + cost kept weight (learn kept known qs) qs' := by
  induction qs generalizing known with
  | nil => exact (Nat.zero_add _).symm
  | cons q qs ih =>
    rw [List.cons_append, cost, cost, ih, Nat.add_assoc]
    rfl

theorem mem_fresh {qs : List Q} {q : Q} :
    q ∈ fresh kept known qs ↔ q ∈ qs ∧ kept q = true ∧ known q = false := by
  simp [fresh]

omit [DecidableEq Q] in
theorem heavy_append (qs qs' : List Q) : heavy kept weight known (qs ++ qs') =
    heavy kept weight known qs + heavy kept weight known qs' := by
  rw [heavy, repeated, List.filter_append, List.map_append, List.sum_append]
  rfl

omit [DecidableEq Q] in
theorem heavy_cons (q : Q) (qs : List Q) : heavy kept weight known (q :: qs) =
    (if kept q || known q then 0 else weight q) + heavy kept weight known qs := by
  rw [heavy, repeated, List.filter_cons]
  cases kept q <;> cases known q <;> simp [heavy, repeated]

theorem heavy_learn_one {q : Q} (qs : List Q) :
    heavy kept weight (learn_one kept known q) qs = heavy kept weight known qs := by
  have hsame : ∀ x, (!kept x && !learn_one kept known q x) = (!kept x && !known x) := by
    intro x
    by_cases hx : x = q
    · subst hx
      cases hk : kept x <;> simp [learn_one, hk]
    · simp [learn_one, hx]
  rw [heavy, repeated, List.filter_congr fun x _ => hsame x]
  rfl

/-- Each time for what is not kept, once for what is. -/
theorem cost_eq (qs : List Q) : cost kept weight known qs =
    heavy kept weight known qs + ∑ q ∈ fresh kept known qs, weight q := by
  induction qs generalizing known with
  | nil => rfl
  | cons q qs ih =>
    rw [cost, ih, heavy_learn_one]
    cases hk : kept q with
    | false =>
      have hlearn : learn_one kept known q = known := by
        funext x
        simp [learn_one, hk]
      have hfresh : fresh kept known (q :: qs) = fresh kept known qs := by
        simp [fresh, hk]
      rw [hlearn, hfresh]
      cases hq : known q <;> simp [heavy, repeated, hk, hq, Nat.add_assoc]
    | true =>
      have hheavy : heavy kept weight known (q :: qs) = heavy kept weight known qs := by
        simp [heavy, repeated, hk]
      rw [hheavy]
      cases hq : known q with
      | true =>
        have hlearn : learn_one kept known q = known := by
          funext x
          by_cases hx : x = q
          · simp [learn_one, hx, hq]
          · simp [learn_one, hx]
        have hfresh : fresh kept known (q :: qs) = fresh kept known qs := by
          simp [fresh, hq]
        rw [hlearn, hfresh, if_pos rfl, Nat.zero_add]
      | false =>
        have hfresh : fresh kept known (q :: qs) =
            insert q (fresh kept (learn_one kept known q) qs) := by
          ext x
          rw [Finset.mem_insert, mem_fresh, mem_fresh, List.mem_cons]
          by_cases hx : x = q
          · simp [hx, hk, hq]
          · simp [hx, learn_one]
        have hnot : q ∉ fresh kept (learn_one kept known q) qs := by
          simp [mem_fresh, learn_one, hk]
        rw [hfresh, Finset.sum_insert hnot, if_neg Bool.false_ne_true]
        omega

/-- A list of questions that asks no other kept ones, and the others at most `n` more. -/
theorem cost_le {qs qs' : List Q} {n : ℕ} (hasked : ∀ q ∈ qs', kept q = true → q ∈ qs)
    (hheavy : heavy kept weight known qs' ≤ heavy kept weight known qs + n) :
    cost kept weight known qs' ≤ cost kept weight known qs + n := by
  have hsub : fresh kept known qs' ⊆ fresh kept known qs := by
    intro q hq
    obtain ⟨hmem, hk, hnew⟩ := mem_fresh.mp hq
    exact mem_fresh.mpr ⟨hasked q hmem hk, hk, hnew⟩
  have hsum : ∑ q ∈ fresh kept known qs', weight q ≤ ∑ q ∈ fresh kept known qs, weight q :=
    Finset.sum_le_sum_of_subset hsub
  rw [cost_eq, cost_eq]
  omega

end Memory

end JavaDebug.KeptAnswers
