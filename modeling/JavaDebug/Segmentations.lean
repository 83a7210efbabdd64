import Mathlib.Data.List.Basic

/-!
A list of units is read as characters where the code of one stands, and as stray
units where none does. The pieces keep every unit, and are found from the front
on: a character at a time, or a run of strays at a time.
-/
namespace JavaDebug.Segmentations

variable {χ β : Type} {code : χ → Option (List β)}

/-- No character's code stands at the front. -/
def NoneStarts (code : χ → Option (List β)) (units : List β) : Prop :=
  ∀ c front, code c = some front → ¬ front <+: units

inductive Segmented (code : χ → Option (List β)) : List β → List (χ ⊕ β) → Prop
  | nil : Segmented code [] []
  | char (c : χ) (front rest : List β) (pieces : List (χ ⊕ β)) (hcode : code c = some front)
      (hrest : Segmented code rest pieces) : Segmented code (front ++ rest) (.inl c :: pieces)
  | stray (u : β) (rest : List β) (pieces : List (χ ⊕ β)) (hnone : NoneStarts code (u :: rest))
      (hrest : Segmented code rest pieces) : Segmented code (u :: rest) (.inr u :: pieces)

def units_of (code : χ → Option (List β)) : χ ⊕ β → List β
  | .inl c => (code c).getD []
  | .inr u => [u]

theorem Segmented.flatMap_units {units : List β} {pieces : List (χ ⊕ β)}
    (h : Segmented code units pieces) : pieces.flatMap (units_of code) = units := by
  induction h with
  | nil => rfl
  | char c front rest pieces hcode _ ih =>
    rw [List.flatMap_cons, ih, units_of, hcode, Option.getD_some]
  | stray u rest pieces _ _ ih =>
    rw [List.flatMap_cons, ih, units_of, List.singleton_append]

/-- A unit that is a character's whole code is never a stray. -/
theorem Segmented.code_ne_stray {units : List β} {pieces : List (χ ⊕ β)}
    (h : Segmented code units pieces) (u : β) (hu : .inr u ∈ pieces) (c : χ) :
    code c ≠ some [u] := by
  induction h with
  | nil => simp at hu
  | char _ _ _ _ _ _ ih =>
    apply ih
    simpa using hu
  | stray v rest pieces hnone _ ih =>
    rcases List.mem_cons.mp hu with heq | hmem
    · have huv : u = v := Sum.inr.inj heq
      intro hcode
      apply hnone c [u] hcode
      rw [huv]
      exact ⟨rest, rfl⟩
    · exact ih hmem

/-- The first `n` units are strays. -/
def Strays (code : χ → Option (List β)) (n : ℕ) (units : List β) : Prop :=
  n ≤ units.length ∧ ∀ i, i < n → NoneStarts code (units.drop i)

theorem Strays.segmented (n : ℕ) (units : List β) (pieces : List (χ ⊕ β)) (h : Strays code n units)
    (hrest : Segmented code (units.drop n) pieces) :
    Segmented code units ((units.take n).map .inr ++ pieces) := by
  induction n generalizing units with
  | zero => simpa using hrest
  | succ n ih =>
    obtain ⟨hle, hnone⟩ := h
    obtain _ | ⟨u, rest⟩ := units
    · simp at hle
    · have htail : Strays code n rest := by
        refine ⟨by simpa using hle, ?_⟩
        intro i hi
        simpa using hnone (i + 1) (by omega)
      have hpieces := ih rest htail (by simpa using hrest)
      simpa using Segmented.stray u rest _ (by simpa using hnone 0 (by omega)) hpieces

end JavaDebug.Segmentations
