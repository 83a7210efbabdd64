import Mathlib.Data.List.Nodup
import Mathlib.Data.List.Induction

/-!
Folding a list into groups: every row joins the group of its key, and the
groups stand in the order in which their keys first occur. A group is exactly
the rows of its key, so a row stands in one group only.
-/
namespace JavaDebug.Grouping

universe u v

variable {α : Type u} {κ : Type v} [DecidableEq κ]

/-- The row joins the group of its key, at the end; a key that is new opens a group. -/
def join (key : α → κ) (a : α) : List (κ × List α) → List (κ × List α)
  | [] => [(key a, [a])]
  | (k, found) :: rest =>
    if k = key a then (k, found ++ [a]) :: rest else (k, found) :: join key a rest

def group (key : α → κ) (l : List α) : List (κ × List α) :=
  l.foldl (fun groups a => join key a groups) []

/-- The groups of the rows `l`. -/
structure Groups (key : α → κ) (l : List α) (groups : List (κ × List α)) : Prop where
  keys : (groups.map Prod.fst).Nodup
  rows : ∀ g ∈ groups, g.2 = l.filter fun a => key a = g.1
  inhabited : ∀ g ∈ groups, g.2 ≠ []
  covered : ∀ a ∈ l, key a ∈ groups.map Prod.fst

variable (key : α → κ) {groups : List (κ × List α)}

theorem keys_join (a : α) (groups : List (κ × List α)) (k : κ) :
    k ∈ (join key a groups).map Prod.fst ↔ k ∈ groups.map Prod.fst ∨ k = key a := by
  induction groups with
  | nil => simp [join]
  | cons g rest ih =>
    unfold join
    by_cases hg : g.1 = key a
    · rw [if_pos hg, List.map_cons, List.map_cons, List.mem_cons, ← hg]
      tauto
    · rw [if_neg hg, List.map_cons, List.map_cons, List.mem_cons, List.mem_cons, ih, or_assoc]

theorem nodup_join (a : α) (h : (groups.map Prod.fst).Nodup) :
    ((join key a groups).map Prod.fst).Nodup := by
  induction groups with
  | nil => exact List.nodup_singleton _
  | cons g rest ih =>
    rw [List.map_cons, List.nodup_cons] at h
    unfold join
    by_cases hg : g.1 = key a
    · rw [if_pos hg, List.map_cons, List.nodup_cons]
      exact h
    · rw [if_neg hg, List.map_cons, List.nodup_cons, keys_join]
      exact ⟨fun hm => hm.elim h.1 hg, ih h.2⟩

/-- A group after the join is an old one, with the row at its end if it has the row's key, or it
is the row alone under a new key. -/
theorem mem_join (a : α) (h : (groups.map Prod.fst).Nodup) (g : κ × List α)
    (hg : g ∈ join key a groups) :
    (∃ g' ∈ groups, g.1 = g'.1 ∧ g.2 = g'.2 ++ if g'.1 = key a then [a] else []) ∨
      (g = (key a, [a]) ∧ key a ∉ groups.map Prod.fst) := by
  induction groups with
  | nil => exact Or.inr ⟨List.mem_singleton.mp hg, List.not_mem_nil⟩
  | cons g' rest ih =>
    rw [List.map_cons, List.nodup_cons] at h
    unfold join at hg
    by_cases hk : g'.1 = key a
    · rw [if_pos hk] at hg
      rcases List.mem_cons.mp hg with rfl | hg
      · exact Or.inl ⟨g', List.mem_cons_self, rfl, by rw [if_pos hk]⟩
      · have hne : g.1 ≠ key a := fun he =>
          h.1 (hk.trans he.symm ▸ List.mem_map_of_mem hg)
        exact Or.inl ⟨g, List.mem_cons_of_mem _ hg, rfl, by rw [if_neg hne, List.append_nil]⟩
    · rw [if_neg hk] at hg
      rcases List.mem_cons.mp hg with rfl | hg
      · exact Or.inl ⟨g', List.mem_cons_self, rfl, by rw [if_neg hk, List.append_nil]⟩
      · rcases ih h.2 hg with ⟨g0, hg0, hrest⟩ | ⟨heq, hnew⟩
        · exact Or.inl ⟨g0, List.mem_cons_of_mem _ hg0, hrest⟩
        · refine Or.inr ⟨heq, ?_⟩
          rw [List.map_cons, List.mem_cons]
          exact fun hm => hm.elim (fun he => hk he.symm) hnew

theorem groups_join {key : α → κ} {l : List α} (h : Groups key l groups) (a : α) :
    Groups key (l ++ [a]) (join key a groups) where
  keys := nodup_join key a h.keys
  rows g hg := by
    rw [List.filter_append]
    rcases mem_join key a h.keys g hg with ⟨g', hg', hk, hrows⟩ | ⟨rfl, hnew⟩
    · rw [hrows, hk, h.rows g' hg']
      by_cases he : g'.1 = key a
      · simp [he]
      · simp [he, Ne.symm he]
    · have hnone : l.filter (fun b => key b = key a) = [] := by
        rw [List.filter_eq_nil_iff]
        intro b hb he
        exact hnew (of_decide_eq_true he ▸ h.covered b hb)
      simp [hnone]
  inhabited g hg := by
    rcases mem_join key a h.keys g hg with ⟨g', hg', -, hrows⟩ | ⟨rfl, -⟩
    · rw [hrows]
      exact fun hnil => h.inhabited g' hg' (List.append_eq_nil_iff.mp hnil).1
    · exact List.cons_ne_nil _ _
  covered b hb := by
    rw [keys_join]
    rcases List.mem_append.mp hb with hb | hb
    · exact Or.inl (h.covered b hb)
    · rw [List.mem_singleton.mp hb]
      exact Or.inr rfl

theorem groups_group (l : List α) : Groups key l (group key l) := by
  induction l using List.reverseRecOn with
  | nil =>
    refine ⟨List.nodup_nil, ?_, ?_, ?_⟩
    all_goals exact fun _ h => absurd h List.not_mem_nil
  | append_singleton l a ih =>
    unfold group at *
    rw [List.foldl_append]
    exact groups_join ih a

namespace Groups

variable {key : α → κ} {l : List α} {groups : List (κ × List α)}

theorem mem_iff (h : Groups key l groups) {g : κ × List α} (hg : g ∈ groups) (a : α) :
    a ∈ g.2 ↔ a ∈ l ∧ key a = g.1 := by
  rw [h.rows g hg, List.mem_filter, decide_eq_true_eq]

theorem exists_group (h : Groups key l groups) {a : α} (ha : a ∈ l) :
    ∃ g ∈ groups, g.1 = key a ∧ a ∈ g.2 := by
  obtain ⟨g, hg, hk⟩ := List.mem_map.mp (h.covered a ha)
  exact ⟨g, hg, hk, (h.mem_iff hg a).mpr ⟨ha, hk.symm⟩⟩

theorem countP_mem (h : Groups key l groups) {a : α} (ha : a ∈ l) {p : κ × List α → Bool}
    (hp : ∀ g ∈ groups, p g = true ↔ a ∈ g.2) : groups.countP p = 1 := by
  have hcongr : groups.countP p = groups.countP fun g => g.1 = key a := by
    refine List.countP_congr fun g hg => ?_
    rw [decide_eq_true_eq, hp g hg, h.mem_iff hg]
    exact ⟨fun hm => hm.2.symm, fun hk => ⟨ha, hk.symm⟩⟩
  have hcount : (groups.map Prod.fst).count (key a) = 1 :=
    List.count_eq_one_of_mem h.keys (h.covered a ha)
  rw [hcongr, ← hcount, List.count, List.countP_map]
  rfl

theorem flatten_perm (h : Groups key l groups) (hl : l.Nodup) :
    (groups.map Prod.snd).flatten.Perm l := by
  have hnodup : (groups.map Prod.snd).flatten.Nodup := by
    refine List.nodup_flatten.mpr ⟨?_, List.pairwise_map.mpr ?_⟩
    · rintro _ hm
      obtain ⟨g, hg, rfl⟩ := List.mem_map.mp hm
      rw [h.rows g hg]
      exact hl.filter _
    · refine List.Pairwise.imp_of_mem ?_ (List.pairwise_map.mp h.keys)
      intro g g' hg hg' hne a ha ha'
      exact hne (((h.mem_iff hg a).mp ha).2.symm.trans ((h.mem_iff hg' a).mp ha').2)
  refine (List.perm_ext_iff_of_nodup hnodup hl).mpr fun a => ?_
  rw [List.mem_flatten]
  constructor
  · rintro ⟨_, hm, ha⟩
    obtain ⟨g, hg, rfl⟩ := List.mem_map.mp hm
    exact ((h.mem_iff hg a).mp ha).1
  · intro ha
    obtain ⟨g, hg, -, hmem⟩ := h.exists_group ha
    exact ⟨g.2, List.mem_map_of_mem hg, hmem⟩

end Groups

end JavaDebug.Grouping
