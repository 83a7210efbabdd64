import Mathlib.Order.Basic
import Mathlib.Data.Nat.Basic

/-!
Undoing nested suspends through an unreliable line. A depth is lowered one
resume at a time and read back after each; a resume may be refused, a read may
go unanswered and is then taken for zero. `drain` resumes first and reads
after; `relax` reads first and takes a refused resume for success. Each is
characterised by the answers it needs.
-/
namespace JavaDebug.NestedSuspend

/-- Which resumes are carried out and which reads are answered, by their number. -/
structure Line where
  resume : ℕ → Bool
  read : ℕ → Bool

/-- What a read shows of a depth, `issued` resumes into the loop. -/
def Line.shows (l : Line) (depth n issued : ℕ) : ℕ :=
  if l.read n then depth - issued else 0

section Drain

/-- How the loop ended: the resumes carried out, the reads made, and what the last read showed,
if no resume was refused. -/
structure Drained where
  issued : ℕ
  asked : ℕ
  left : Option ℕ
  deriving DecidableEq

def drain (l : Line) (depth issued : ℕ) : ℕ → Drained
  | 0 => ⟨issued, issued + 1, some (l.shows depth issued issued)⟩
  | attempts + 1 =>
    if l.resume issued then
      if l.shows depth issued (issued + 1) = 0 then ⟨issued + 1, issued + 1, some 0⟩
      else drain l depth (issued + 1) attempts
    else ⟨issued, issued, none⟩

variable (l : Line)

theorem drain_bounds (depth issued attempts : ℕ) :
    issued ≤ (drain l depth issued attempts).issued ∧
      issued ≤ (drain l depth issued attempts).asked := by
  induction attempts generalizing issued with
  | zero => exact ⟨le_rfl, Nat.le_succ _⟩
  | succ n ih =>
    unfold drain
    split
    · split
      · exact ⟨Nat.le_succ _, Nat.le_succ _⟩
      · have := ih (issued + 1)
        omega
    · exact ⟨le_rfl, le_rfl⟩

/-- The read after the `k`-th resume shows zero, rightly or for want of an answer. -/
def Line.stops (depth k : ℕ) : Prop := l.read (k - 1) = false ∨ depth ≤ k

instance (l : Line) (depth k : ℕ) : Decidable (l.stops depth k) := by
  unfold Line.stops
  infer_instance

/-- The answers under which the loop, with `issued` resumes behind it and `n` as their limit,
ends after `k` of them: each earlier read showed that more were needed. -/
structure EndsAfter (l : Line) (depth issued n k : ℕ) : Prop where
  started : issued ≤ k
  limit : k ≤ n
  resumed : ∀ i, issued ≤ i → i < k → l.resume i = true
  needed : ∀ i, issued < i → i < k → ¬ l.stops depth i
  ended : k = n ∨ issued < k ∧ l.stops depth k

theorem shows_eq_zero (depth n issued : ℕ) :
    l.shows depth n issued = 0 ↔ l.read n = false ∨ depth ≤ issued := by
  unfold Line.shows
  cases l.read n <;> simp [Nat.sub_eq_zero_iff_le]

/-- One read more than resumes is made when the limit is reached without a zero. -/
def asked_after (depth issued k : ℕ) : ℕ :=
  if issued < k ∧ l.stops depth k then k else k + 1

def left_after (depth issued k : ℕ) : ℕ :=
  if issued < k ∧ l.stops depth k then 0 else l.shows depth k k

theorem drain_eq_iff (depth issued attempts k a left : ℕ) :
    drain l depth issued attempts = ⟨k, a, some left⟩ ↔
      EndsAfter l depth issued (issued + attempts) k ∧
        a = asked_after l depth issued k ∧ left = left_after l depth issued k := by
  induction attempts generalizing issued with
  | zero =>
    simp only [drain, Drained.mk.injEq, Option.some.injEq, Nat.add_zero]
    constructor
    · rintro ⟨rfl, rfl, rfl⟩
      refine ⟨⟨le_rfl, le_rfl, ?_, ?_, Or.inl rfl⟩, ?_, ?_⟩
      · omega
      · omega
      · simp [asked_after]
      · simp [left_after]
    · rintro ⟨h, rfl, rfl⟩
      have hk : issued = k := le_antisymm h.started h.limit
      subst hk
      simp [asked_after, left_after]
  | succ n ih =>
    have hstop : l.shows depth issued (issued + 1) = 0 ↔ l.stops depth (issued + 1) :=
      shows_eq_zero _ _ _ _
    unfold drain
    split
    · rename_i hres
      split
      · rename_i hzero
        have hz := hstop.mp hzero
        simp only [Drained.mk.injEq, Option.some.injEq]
        constructor
        · rintro ⟨rfl, rfl, rfl⟩
          refine ⟨⟨by omega, by omega, fun i h1 h2 => ?_, fun i h1 h2 => ?_,
            Or.inr ⟨by omega, hz⟩⟩, ?_, ?_⟩
          · rw [show i = issued by omega]
            exact hres
          · omega
          · simp [asked_after, hz]
          · simp [left_after, hz]
        · rintro ⟨h, rfl, rfl⟩
          have hk : k = issued + 1 := by
            have h1 : issued < k := by
              rcases h.ended with h1 | h1
              · omega
              · exact h1.1
            by_contra hne
            exact h.needed (issued + 1) (by omega) (by omega) hz
          subst hk
          simp [asked_after, left_after, hz]
      · rename_i hmore
        have hm : ¬ l.stops depth (issued + 1) := fun h => hmore (hstop.mpr h)
        have hcond : ∀ k, (issued < k ∧ l.stops depth k) ↔ (issued + 1 < k ∧ l.stops depth k) := by
          intro k
          constructor
          · rintro ⟨h1, h2⟩
            refine ⟨?_, h2⟩
            by_contra hle
            rw [show k = issued + 1 by omega] at h2
            exact hm h2
          · rintro ⟨h1, h2⟩
            exact ⟨by omega, h2⟩
        rw [ih, asked_after, asked_after, left_after, left_after]
        simp only [hcond k]
        refine and_congr ?_ Iff.rfl
        constructor
        · intro h
          refine ⟨by have := h.started; omega, by have := h.limit; omega, fun i h1 h2 => ?_,
            fun i h1 h2 => ?_, ?_⟩
          · rcases Nat.eq_or_lt_of_le h1 with rfl | h1
            · exact hres
            · exact h.resumed i h1 h2
          · rcases Nat.eq_or_lt_of_le h1 with rfl | h1
            · exact hm
            · exact h.needed i h1 h2
          · rcases h.ended with h1 | h1
            · exact Or.inl (by omega)
            · exact Or.inr ((hcond k).mpr h1)
        · intro h
          have h1 : issued < k := by
            rcases h.ended with h1 | h1
            · omega
            · exact h1.1
          refine ⟨h1, by have := h.limit; omega, fun i h1 h2 => h.resumed i (by omega) h2,
            fun i h1 h2 => h.needed i (by omega) h2, ?_⟩
          rcases h.ended with h2 | h2
          · exact Or.inl (by omega)
          · exact Or.inr ((hcond k).mp h2)
    · rename_i hres
      simp only [Drained.mk.injEq, reduceCtorEq, and_false, false_iff, not_and]
      intro h
      have h1 : issued < k := by
        rcases h.ended with h1 | h1
        · omega
        · exact h1.1
      exact absurd (h.resumed issued le_rfl h1) hres

end Drain

section Relax

/-- Lower one depth until it reads zero: the resumes carried out, and what is thought left. -/
def relax (l : Line) (depth issued left : ℕ) : ℕ → ℕ × ℕ
  | 0 => (issued, left)
  | attempts + 1 =>
    if left = 0 then (issued, 0)
    else if l.resume issued then
      relax l depth (issued + 1) (l.shows depth (issued + 1) (issued + 1)) attempts
    else (issued, 0)

/-- A depth that is thought undone is undone exactly when no answer failed before it was. -/
theorem relax_honest_iff (l : Line) (depth issued attempts : ℕ) :
    ((relax l depth issued (l.shows depth issued issued) attempts).2 = 0 →
      depth ≤ (relax l depth issued (l.shows depth issued issued) attempts).1) ↔
    ∀ i, issued ≤ i → i ≤ issued + attempts → i < depth →
      l.read i = true ∧ (i < issued + attempts → l.resume i = true) := by
  induction attempts generalizing issued with
  | zero =>
    simp only [relax, shows_eq_zero, Nat.add_zero]
    constructor
    · intro h i h1 h2 h3
      have hi : i = issued := by omega
      subst hi
      refine ⟨?_, by omega⟩
      by_contra hr
      have := h (Or.inl (by simpa using hr))
      omega
    · intro h hz
      by_contra hlt
      have hr := (h issued le_rfl le_rfl (by omega)).1
      rcases hz with hz | hz
      · simp [hr] at hz
      · omega
  | succ n ih =>
    unfold relax
    by_cases hz : l.shows depth issued issued = 0
    · simp only [hz, if_true, forall_const]
      rw [shows_eq_zero] at hz
      constructor
      · intro h i h1 h2 h3
        omega
      · intro h
        by_contra hlt
        have hr := (h issued le_rfl (by omega) (by omega)).1
        rcases hz with hz | hz
        · simp [hr] at hz
        · omega
    · have hdeep : l.read issued = true ∧ issued < depth := by
        rw [shows_eq_zero, not_or] at hz
        exact ⟨by simpa using hz.1, by omega⟩
      simp only [hz, if_false]
      split
      · rename_i hres
        rw [ih]
        constructor
        · intro h i h1 h2 h3
          rcases Nat.eq_or_lt_of_le h1 with rfl | h1
          · exact ⟨hdeep.1, fun _ => hres⟩
          · obtain ⟨hr, hs⟩ := h i h1 (by omega) h3
            exact ⟨hr, fun h4 => hs (by omega)⟩
        · intro h i h1 h2 h3
          obtain ⟨hr, hs⟩ := h i (by omega) (by omega) h3
          exact ⟨hr, fun h4 => hs (by omega)⟩
      · rename_i hres
        constructor
        · intro h
          have := h rfl
          omega
        · intro h
          exact absurd ((h issued le_rfl (by omega) hdeep.2).2 (by omega)) hres

end Relax

end JavaDebug.NestedSuspend
