import Mathlib.Algebra.GroupWithZero.Nat
import Mathlib.Algebra.Order.BigOperators.Group.List
import Mathlib.Algebra.Order.Group.Nat
import Mathlib.Data.List.Nodup
import Mathlib.Data.List.Basic

/-!
Keyed tables: a list of rows no two of which share a key. The executable
operations are those of a hash map whose values carry their own key. `total`
adds up a weight over the rows; each operation changes it by the weights of
the row it touches, which is what an accounting argument over a table needs.
-/
namespace JavaDebug

universe u v

/-- Rows with pairwise different keys. -/
structure Table {κ : Type u} {ν : Type v} (key : ν → κ) where
  rows : List ν
  nodup : (rows.map key).Nodup

namespace Table

variable {κ : Type u} {ν : Type v} {key : ν → κ} [DecidableEq κ]

def empty : Table key := ⟨[], List.nodup_nil⟩

def get? (t : Table key) (k : κ) : Option ν := t.rows.find? fun v => key v = k

/-- Replace the row under `k` by its image; `f` may not move it to another key. -/
def modify (t : Table key) (k : κ) (f : ν → ν) (hf : ∀ v, key (f v) = key v := by intro _; rfl) :
    Table key where
  rows := t.rows.map fun v => if key v = k then f v else v
  nodup := by
    have h : (t.rows.map fun v => if key v = k then f v else v).map key = t.rows.map key := by
      rw [List.map_map]
      refine List.map_congr_left fun v _ => ?_
      simp only [Function.comp]
      split
      · exact hf v
      · rfl
    rw [h]
    exact t.nodup

def erase (t : Table key) (k : κ) : Table key where
  rows := t.rows.filter fun v => key v ≠ k
  nodup := t.nodup.sublist (List.filter_sublist.map key)

def retain (t : Table key) (p : ν → Bool) : Table key where
  rows := t.rows.filter p
  nodup := t.nodup.sublist (List.filter_sublist.map key)

/-- Add a row, replacing the one that has its key. -/
def insert (t : Table key) (v : ν) : Table key where
  rows := (t.erase (key v)).rows ++ [v]
  nodup := by
    rw [List.map_append, List.nodup_append]
    refine ⟨(t.erase (key v)).nodup, by simp, ?_⟩
    intro a ha b hb
    simp only [erase, List.mem_map, List.mem_filter, List.map_cons, List.map_nil,
      List.mem_singleton, decide_eq_true_eq] at ha hb
    rcases ha with ⟨u, ⟨_, hu⟩, rfl⟩
    rw [hb]
    exact hu

def total (g : ν → ℕ) (t : Table key) : ℕ := (t.rows.map g).sum

variable (t : Table key)

theorem get?_eq_some (k : κ) (v : ν) : t.get? k = some v ↔ v ∈ t.rows ∧ key v = k := by
  constructor
  · intro h
    exact ⟨List.mem_of_find?_eq_some h, by simpa using List.find?_some h⟩
  · rintro ⟨hv, rfl⟩
    cases hf : t.get? (key v) with
    | none =>
      have hne := List.find?_eq_none.mp hf v hv
      simp at hne
    | some w =>
      have hw := List.mem_of_find?_eq_some hf
      have hk : key w = key v := by simpa using List.find?_some hf
      rw [List.inj_on_of_nodup_map t.nodup hw hv hk]

theorem get?_eq_none (k : κ) : t.get? k = none ↔ ∀ v ∈ t.rows, key v ≠ k := by
  simp [get?, List.find?_eq_none]

theorem mem_keys (k : κ) : k ∈ t.rows.map key ↔ (t.get? k).isSome := by
  rw [← not_iff_not, Bool.not_eq_true, Option.isSome_eq_false_iff, Option.isNone_iff_eq_none,
    get?_eq_none]
  simp

theorem modify_modify (k : κ) (f g : ν → ν) (hf : ∀ v, key (f v) = key v)
    (hg : ∀ v, key (g v) = key v) :
    (t.modify k f hf).modify k g hg =
      t.modify k (fun v => g (f v)) fun v => (hg (f v)).trans (hf v) := by
  rcases t with ⟨rows, hnd⟩
  simp only [modify, mk.injEq, List.map_map]
  refine List.map_congr_left fun v _ => ?_
  by_cases hv : key v = k
  · simp [hv, hf]
  · simp [hv]

theorem mem_modify (k : κ) (f : ν → ν) (hf : ∀ v, key (f v) = key v) (w : ν) :
    w ∈ (t.modify k f hf).rows ↔ ∃ v ∈ t.rows, (if key v = k then f v else v) = w := by
  simp [modify]

theorem mem_erase (k : κ) (v : ν) : v ∈ (t.erase k).rows ↔ v ∈ t.rows ∧ key v ≠ k := by
  simp [erase]

theorem mem_insert (v w : ν) : w ∈ (t.insert v).rows ↔ (w ∈ t.rows ∧ key w ≠ key v) ∨ w = v := by
  simp [insert, mem_erase]

theorem get?_modify (k j : κ) (f : ν → ν) (hf : ∀ v, key (f v) = key v) :
    (t.modify k f hf).get? j = if j = k then (t.get? j).map f else t.get? j := by
  unfold get? modify
  simp only [List.find?_map]
  have hp : ((fun v => decide (key v = j)) ∘ fun v => if key v = k then f v else v) =
      fun v => decide (key v = j) := by
    funext v
    simp only [Function.comp]
    split
    · rw [hf v]
    · rfl
  rw [hp]
  cases h : t.rows.find? (fun v => decide (key v = j)) with
  | none => simp
  | some v =>
    have hv : key v = j := by simpa using List.find?_some h
    subst hv
    by_cases hk : key v = k <;> simp [hk]

theorem get?_erase (k j : κ) : (t.erase k).get? j = if j = k then none else t.get? j := by
  split
  · rename_i h
    subst h
    rw [get?_eq_none]
    exact fun v hv => ((mem_erase t j v).mp hv).2
  · rename_i h
    cases hj : t.get? j with
    | none =>
      rw [get?_eq_none] at hj ⊢
      exact fun v hv => hj v ((mem_erase t k v).mp hv).1
    | some v =>
      rw [get?_eq_some] at hj ⊢
      exact ⟨(mem_erase t k v).mpr ⟨hj.1, fun hk => h (hj.2.symm.trans hk)⟩, hj.2⟩

theorem get?_retain (p : ν → Bool) (j : κ) : (t.retain p).get? j = (t.get? j).filter p := by
  cases hj : t.get? j with
  | none =>
    rw [get?_eq_none] at hj
    rw [Option.filter_none, get?_eq_none]
    exact fun v hv => hj v (List.mem_of_mem_filter hv)
  | some v =>
    obtain ⟨hv, rfl⟩ := (get?_eq_some t j v).mp hj
    cases hp : p v with
    | true =>
      rw [Option.filter_some_pos hp, get?_eq_some]
      exact ⟨List.mem_filter.mpr ⟨hv, hp⟩, rfl⟩
    | false =>
      rw [Option.filter_some_neg (by simp [hp]), get?_eq_none]
      intro w hw hk
      obtain ⟨hw, hpw⟩ := List.mem_filter.mp hw
      have hsame : w = v := List.inj_on_of_nodup_map t.nodup hw hv hk
      rw [hsame, hp] at hpw
      cases hpw

theorem get?_insert (v : ν) (j : κ) :
    (t.insert v).get? j = if j = key v then some v else t.get? j := by
  split
  · rename_i h
    rw [get?_eq_some]
    exact ⟨(mem_insert t v v).mpr (Or.inr rfl), h.symm⟩
  · rename_i h
    cases hj : t.get? j with
    | none =>
      rw [get?_eq_none] at hj ⊢
      intro w hw
      rcases (mem_insert t v w).mp hw with hw | rfl
      · exact hj w hw.1
      · exact Ne.symm h
    | some w =>
      rw [get?_eq_some] at hj ⊢
      exact ⟨(mem_insert t v w).mpr (Or.inl ⟨hj.1, fun hk => h (hj.2.symm.trans hk)⟩), hj.2⟩

theorem get?_change_or_make (k j : κ) (f : ν → ν) (hf : ∀ v, key (f v) = key v) {v : ν}
    (hv : key v = k) :
    (match t.get? k with
      | some _ => t.modify k f hf
      | none => t.insert v).get? j = if j = k then some ((t.get? k).elim v f) else t.get? j := by
  cases hget : t.get? k with
  | none =>
    dsimp only
    rw [get?_insert, hv]
    rfl
  | some r =>
    dsimp only
    rw [get?_modify]
    by_cases hj : j = k
    · rw [if_pos hj, if_pos hj, hj, hget]
      rfl
    · rw [if_neg hj, if_neg hj]

section Totals

variable (g : ν → ℕ)

omit [DecidableEq κ] in
theorem le_total (t : Table key) {v : ν} (hv : v ∈ t.rows) : g v ≤ t.total g :=
  List.single_le_sum (by simp) _ (List.mem_map_of_mem hv)

omit [DecidableEq κ] in
theorem add_le_total (t : Table key) {v w : ν} (hv : v ∈ t.rows) (hw : w ∈ t.rows) (hne : v ≠ w) :
    g v + g w ≤ t.total g := by
  obtain ⟨before, after, hrows⟩ := List.append_of_mem hv
  have hw' : w ∈ before ++ after := by
    rw [hrows] at hw
    simpa [hne.symm] using hw
  have hle : g w ≤ ((before ++ after).map g).sum :=
    List.single_le_sum (by simp) _ (List.mem_map_of_mem hw')
  have hsum : t.total g = g v + ((before ++ after).map g).sum := by
    simp only [total, hrows, List.map_append, List.map_cons, List.sum_append, List.sum_cons]
    omega
  omega

omit [DecidableEq κ] in
theorem total_eq_zero (t : Table key) : t.total g = 0 ↔ ∀ v ∈ t.rows, g v = 0 := by
  simp [total, List.sum_eq_zero_iff_forall_eq_nat]

theorem total_modify (t : Table key) (k : κ) (f : ν → ν) (hf : ∀ v, key (f v) = key v) {v : ν}
    (hv : t.get? k = some v) : (t.modify k f hf).total g + g v = t.total g + g (f v) := by
  have hmem := (get?_eq_some t k v).mp hv
  clear hv
  rcases t with ⟨rows, hnd⟩
  simp only [total, modify] at hmem ⊢
  obtain ⟨hv, rfl⟩ := hmem
  induction rows with
  | nil => cases hv
  | cons w rest ih =>
    simp only [List.map_cons, List.nodup_cons, List.mem_map, not_exists, not_and] at hnd
    simp only [List.map_cons, List.sum_cons]
    rcases List.mem_cons.mp hv with rfl | hv
    · have hrest : (rest.map fun u => if key u = key v then f u else u) = rest := by
        conv_rhs => rw [← List.map_id rest]
        refine List.map_congr_left fun u hu => ?_
        simp [hnd.1 u hu]
      rw [if_pos rfl, hrest]
      omega
    · have hne : key w ≠ key v := fun h => hnd.1 v hv h.symm
      have := ih hnd.2 hv
      rw [if_neg hne]
      omega

theorem total_erase (t : Table key) (k : κ) {v : ν} (hv : t.get? k = some v) :
    (t.erase k).total g + g v = t.total g := by
  have hmem := (get?_eq_some t k v).mp hv
  clear hv
  rcases t with ⟨rows, hnd⟩
  simp only [total, erase] at hmem ⊢
  obtain ⟨hv, rfl⟩ := hmem
  induction rows with
  | nil => cases hv
  | cons w rest ih =>
    simp only [List.map_cons, List.nodup_cons, List.mem_map, not_exists, not_and] at hnd
    rcases List.mem_cons.mp hv with rfl | hv
    · have hrest : rest.filter (fun u => decide (key u ≠ key v)) = rest :=
        List.filter_eq_self.mpr fun u hu => by simpa using hnd.1 u hu
      simp only [List.filter_cons, ne_eq, not_true_eq_false, decide_false, Bool.false_eq_true,
        if_false, List.map_cons, List.sum_cons]
      rw [hrest]
      omega
    · have hne : key w ≠ key v := fun h => hnd.1 v hv h.symm
      have := ih hnd.2 hv
      simp only [List.filter_cons, hne, decide_true, if_true, List.map_cons, List.sum_cons,
        ne_eq, not_false_eq_true] at this ⊢
      omega

theorem total_erase_le (t : Table key) (k : κ) : (t.erase k).total g ≤ t.total g :=
  ((List.filter_sublist (l := t.rows)).map g).sum_le_sum fun _ _ => Nat.zero_le _

theorem total_insert (t : Table key) (v : ν) :
    (t.insert v).total g = (t.erase (key v)).total g + g v := by
  simp [total, insert]

theorem erase_eq_self (t : Table key) {k : κ} (h : t.get? k = none) : t.erase k = t := by
  rcases t with ⟨rows, hnd⟩
  simp only [erase, mk.injEq]
  exact List.filter_eq_self.mpr fun v hv => by simpa using (get?_eq_none _ _).mp h v hv

theorem modify_eq_self (t : Table key) {k : κ} {f : ν → ν} {hf : ∀ v, key (f v) = key v}
    (h : t.get? k = none) : t.modify k f hf = t := by
  rcases t with ⟨rows, hnd⟩
  simp only [modify, mk.injEq]
  conv_rhs => rw [← List.map_id rows]
  refine List.map_congr_left fun v hv => ?_
  simp [(get?_eq_none _ _).mp h v hv]

end Totals

end Table

end JavaDebug
