import Mathlib.Data.List.Basic

/-!
Answers by position. Some items of a list are asked about again, and each second
answer is put back in the place of the first: the result is the list of what
every item would have got by itself.
-/
namespace JavaDebug.Positions

variable {α β : Type*}

/-- Write each value in its place, one after another. -/
def put_back (out : List β) (writes : List (ℕ × β)) : List β :=
  writes.foldl (fun out w => out.set w.1 w.2) out

theorem put_back_get {value : ℕ → Option β} {writes : List (ℕ × β)}
    (h : ∀ w ∈ writes, value w.1 = some w.2) (out : List β) (i : ℕ) : (put_back out writes)[i]? =
      if i ∈ writes.map Prod.fst then out[i]?.bind fun _ => value i else out[i]? := by
  induction writes generalizing out with
  | nil => simp [put_back]
  | cons w rest ih =>
    have hrest : ∀ w' ∈ rest, value w'.1 = some w'.2 := fun w' hw' =>
      h w' (List.mem_cons_of_mem w hw')
    have hw : value w.1 = some w.2 := h w List.mem_cons_self
    change (put_back (out.set w.1 w.2) rest)[i]? = _
    rw [ih hrest, List.map_cons, List.getElem?_set]
    by_cases hi : w.1 = i
    · subst hi
      rw [if_pos rfl, if_pos List.mem_cons_self]
      by_cases hlt : w.1 < out.length
      · simp [hlt, hw]
      · simp [hlt]
    · rw [if_neg hi]
      have hmem : i ∈ w.1 :: rest.map Prod.fst ↔ i ∈ rest.map Prod.fst := by
        rw [List.mem_cons]
        exact or_iff_right fun heq => hi heq.symm
      simp only [hmem]

/-- The items whose answer is refused, with their positions. -/
def retries (refused : β → Bool) (answers : List β) (items : List α) : List (ℕ × α) :=
  (answers.zipIdx.filter fun r => refused r.1).filterMap fun r =>
    items[r.2]?.map fun a => (r.2, a)

variable {refused : β → Bool} {first : α → β} {items : List α}

theorem mem_retries (i : ℕ) (a : α) : (i, a) ∈ retries refused (items.map first) items ↔
    items[i]? = some a ∧ refused (first a) = true := by
  simp only [retries, List.mem_filterMap, List.mem_filter, Prod.exists,
    List.mem_zipIdx_iff_getElem?, List.getElem?_map, Option.map_eq_some_iff, Prod.mk.injEq]
  constructor
  · rintro ⟨_, j, ⟨⟨a', ha', rfl⟩, href⟩, b, hb, rfl, rfl⟩
    rw [hb] at ha'
    obtain rfl := Option.some.inj ha'
    exact ⟨hb, href⟩
  · rintro ⟨ha, href⟩
    exact ⟨_, i, ⟨⟨a, ha, rfl⟩, href⟩, a, ha, rfl, rfl⟩

/-- Without their positions they are the refused items in order. -/
theorem retries_snd : (retries refused (items.map first) items).map Prod.snd =
    items.filter fun a => refused (first a) := by
  have hread : ∀ r ∈ items.zipIdx.filter (fun r => refused (first r.1)),
      (items[r.2]?.map fun a => (r.2, a)) = some (r.2, r.1) := by
    intro r hr
    rw [List.mem_zipIdx_iff_getElem?.mp (List.mem_filter.mp hr).1]
    rfl
  rw [retries, List.zipIdx_map, List.filter_map, List.filterMap_map]
  change ((items.zipIdx.filter fun r => refused (first r.1)).filterMap fun r =>
    items[r.2]?.map fun a => (r.2, a)).map Prod.snd = _
  rw [List.filterMap_congr hread]
  change ((items.zipIdx.filter fun r => refused (first r.1)).filterMap
    (some ∘ fun r => (r.2, r.1))).map Prod.snd = _
  rw [List.filterMap_eq_map, List.map_map]
  change (items.zipIdx.filter ((fun a => refused (first a)) ∘ Prod.fst)).map Prod.fst = _
  rw [← List.filter_map, List.zipIdx_map_fst]

theorem put_back_retries (second : α → β) :
    put_back (items.map first) ((retries refused (items.map first) items).map fun r =>
      (r.1, second r.2)) = items.map fun a => if refused (first a) then second a else first a := by
  apply List.ext_getElem?
  intro i
  have hvalue : ∀ w ∈ (retries refused (items.map first) items).map (fun r => (r.1, second r.2)),
      items[w.1]?.map second = some w.2 := by
    intro w hw
    obtain ⟨⟨j, a⟩, hr, rfl⟩ := List.mem_map.mp hw
    rw [((mem_retries j a).mp hr).1, Option.map_some]
  rw [@put_back_get β (fun j => items[j]?.map second) _ hvalue, List.map_map, List.getElem?_map,
    List.getElem?_map]
  cases ha : items[i]? with
  | none => simp
  | some a =>
    have hmem : i ∈ (retries refused (items.map first) items).map
        (Prod.fst ∘ fun r => (r.1, second r.2)) ↔ refused (first a) = true := by
      rw [List.mem_map]
      constructor
      · rintro ⟨⟨j, b⟩, hr, rfl⟩
        obtain ⟨hb, href⟩ := (mem_retries j b).mp hr
        rw [Function.comp_apply, hb] at ha
        rwa [← Option.some.inj ha]
      · exact fun href => ⟨(i, a), (mem_retries i a).mpr ⟨ha, href⟩, rfl⟩
    by_cases href : refused (first a) = true
    · rw [if_pos (hmem.mpr href)]
      simp [href]
    · rw [if_neg (mt hmem.mp href)]
      simp [href]

end JavaDebug.Positions
