import Mathlib.Algebra.BigOperators.Group.Finset.Basic
import Mathlib.Logic.Relation

/-!
A search over a stack of vertices. Every vertex taken off the stack is a step, one
that was seen before as well, and what lies above a new vertex is put on top. The
search answers yes when a vertex that matches arrives within the steps it is given.
Whatever arrives can be reached from the stack, and what can be reached arrives before
there are more steps than edges.
-/

namespace JavaDebug.Worklists

variable {T : Type*} (above : T → List T) (matching : T → Bool)

def walk [DecidableEq T] (seen : List T) : ℕ → List T → Bool
  | 0, _ => false
  | _ + 1, [] => false
  | n + 1, t :: stack =>
    if t ∈ seen then walk seen n stack
    else if matching t then true
    else walk (t :: seen) n (above t ++ stack)

/-- The vertex is new when it is taken off the stack, after `k` others were. -/
inductive Arrives : List T → List T → ℕ → T → Prop
  | here {seen stack t} (h : t ∉ seen) : Arrives seen (t :: stack) 0 t
  | again {seen stack k t u} (h : u ∈ seen) (rest : Arrives seen stack k t) :
    Arrives seen (u :: stack) (k + 1) t
  | on {seen stack k t u} (h : u ∉ seen)
    (rest : Arrives (u :: seen) (above u ++ stack) k t) : Arrives seen (u :: stack) (k + 1) t

variable {above matching}

theorem walk_iff [DecidableEq T] (n : ℕ) (seen stack : List T) :
    walk above matching seen n stack = true ↔
      ∃ k < n, ∃ t, Arrives above seen stack k t ∧ matching t = true := by
  induction n generalizing seen stack with
  | zero => simp [walk]
  | succ n ih =>
    cases stack with
    | nil =>
      constructor
      · intro h
        cases h
      · rintro ⟨k, _, t, h, _⟩
        cases h
    | cons u stack =>
      rw [walk]
      by_cases hu : u ∈ seen
      · rw [if_pos hu, ih]
        constructor
        · rintro ⟨k, hk, t, h, ht⟩
          exact ⟨k + 1, by omega, t, .again hu h, ht⟩
        · rintro ⟨k, hk, t, h, ht⟩
          cases h with
          | here h => exact absurd hu h
          | on h rest => exact absurd hu h
          | @again _ _ k _ _ _ rest => exact ⟨k, by omega, t, rest, ht⟩
      · rw [if_neg hu]
        by_cases hm : matching u = true
        · rw [if_pos hm]
          exact ⟨fun _ => ⟨0, by omega, u, .here hu, hm⟩, fun _ => rfl⟩
        · rw [if_neg hm, ih]
          constructor
          · rintro ⟨k, hk, t, h, ht⟩
            exact ⟨k + 1, by omega, t, .on hu h, ht⟩
          · rintro ⟨k, hk, t, h, ht⟩
            cases h with
            | here h => exact absurd ht hm
            | again h rest => exact absurd h hu
            | @on _ _ k _ _ _ rest => exact ⟨k, by omega, t, rest, ht⟩

/-- One vertex is above another. -/
def Up (above : T → List T) (t u : T) : Prop := u ∈ above t

variable {seen : List T} {t : T}

theorem Arrives.reached {stack : List T} {k : ℕ} (h : Arrives above seen stack k t) :
    ∃ u ∈ stack, Relation.ReflTransGen (Up above) u t := by
  induction h with
  | here h => exact ⟨_, List.mem_cons_self, .refl⟩
  | again h rest ih =>
    obtain ⟨v, hv, hreach⟩ := ih
    exact ⟨v, List.mem_cons_of_mem _ hv, hreach⟩
  | on h rest ih =>
    obtain ⟨v, hv, hreach⟩ := ih
    rcases List.mem_append.mp hv with hv | hv
    · exact ⟨_, List.mem_cons_self, .head hv hreach⟩
    · exact ⟨v, List.mem_cons_of_mem _ hv, hreach⟩

theorem mem_of_closed {s : T} (hreach : Relation.ReflTransGen (Up above) s t) (hs : s ∈ seen)
    (hseen : ∀ u ∈ seen, ∀ v ∈ above u, v ∈ seen) : t ∈ seen := by
  induction hreach with
  | refl => exact hs
  | tail _ hup ih => exact hseen _ ih _ hup

/-- A step takes a vertex off the stack, and puts no edge there twice. -/
theorem arrives_of_reached [DecidableEq T] {vs : Finset T} (hvs : ∀ u ∈ vs, ∀ v ∈ above u, v ∈ vs)
    {s : T} (hreach : Relation.ReflTransGen (Up above) s t) (n : ℕ) (seen stack : List T)
    (hn : stack.length + ∑ v ∈ vs.filter (· ∉ seen), (above v).length ≤ n)
    (hstack : ∀ u ∈ stack, u ∈ vs) (hs : s ∈ seen ∨ s ∈ stack)
    (hseen : ∀ u ∈ seen, ∀ v ∈ above u, v ∈ seen ∨ v ∈ stack) (ht : t ∉ seen) :
    ∃ k < n, Arrives above seen stack k t := by
  induction n generalizing seen stack with
  | zero =>
    obtain rfl : stack = [] := List.length_eq_zero_iff.mp (by omega)
    simp only [List.not_mem_nil, or_false] at hs hseen
    exact absurd (mem_of_closed hreach hs hseen) ht
  | succ n ih =>
    cases stack with
    | nil =>
      simp only [List.not_mem_nil, or_false] at hs hseen
      exact absurd (mem_of_closed hreach hs hseen) ht
    | cons u stack =>
      rw [List.length_cons] at hn
      have hrest : ∀ v ∈ stack, v ∈ vs := fun v hv => hstack v (List.mem_cons_of_mem u hv)
      by_cases hu : u ∈ seen
      · have hkept (v : T) (hv : v ∈ seen ∨ v ∈ u :: stack) : v ∈ seen ∨ v ∈ stack := by
          rcases hv with hv | hv
          · exact .inl hv
          rcases List.mem_cons.mp hv with rfl | hv
          · exact .inl hu
          · exact .inr hv
        obtain ⟨k, hk, h⟩ := ih seen stack (by omega) hrest (hkept s hs)
          (fun w hw v hv => hkept v (hseen w hw v hv)) ht
        exact ⟨k + 1, by omega, .again hu h⟩
      · by_cases htu : t = u
        · subst htu
          exact ⟨0, by omega, .here hu⟩
        have hkept (v : T) (hv : v ∈ seen ∨ v ∈ u :: stack) :
            v ∈ u :: seen ∨ v ∈ above u ++ stack := by
          simp only [List.mem_cons, List.mem_append] at hv ⊢
          tauto
        have hmem : u ∈ vs.filter (· ∉ seen) :=
          Finset.mem_filter.mpr ⟨hstack u List.mem_cons_self, hu⟩
        have hfilter : vs.filter (· ∉ u :: seen) = (vs.filter (· ∉ seen)).erase u := by
          ext v
          simp only [Finset.mem_filter, Finset.mem_erase, List.mem_cons, not_or]
          tauto
        have hsum := Finset.add_sum_erase _ (fun v => (above v).length) hmem
        have hclosed : ∀ w ∈ u :: seen, ∀ v ∈ above w, v ∈ u :: seen ∨ v ∈ above u ++ stack := by
          intro w hw v hv
          rcases List.mem_cons.mp hw with rfl | hw
          · exact .inr (List.mem_append_left _ hv)
          · exact hkept v (hseen w hw v hv)
        obtain ⟨k, hk, h⟩ := ih (u :: seen) (above u ++ stack)
          (by rw [hfilter, List.length_append]; omega)
          (fun v hv => (List.mem_append.mp hv).elim
            (hvs u (hstack u List.mem_cons_self) v) (hrest v)) (hkept s hs) hclosed
          (fun h => (List.mem_cons.mp h).elim htu ht)
        exact ⟨k + 1, by omega, .on hu h⟩

end JavaDebug.Worklists
