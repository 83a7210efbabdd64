import Mathlib.Data.Finset.Card
import Mathlib.Data.List.Infix

/-!
Queues of bounded length that hold no element twice. `remember` puts an element
that is not in the queue at its end, the front making room; one that is in it
stays where it is. `fill_recent_iff` says of which sequences such a queue holds
the last distinct elements all along: of those in which the front, whenever it
makes room, is the element of the queue that has not come for the longest time.
-/
namespace JavaDebug.Recency

variable {α : Type}

section Lists

variable {l q l₁ l₂ m₁ m₂ : List α} {a b : α}

theorem last_split_unique (h : l₁ ++ a :: l₂ = m₁ ++ a :: m₂) (hl : a ∉ l₂) (hm : a ∉ m₂) :
    l₂ = m₂ := by
  induction l₁ generalizing m₁ with
  | nil =>
    cases m₁ with
    | nil => exact (List.cons.inj h).2
    | cons c m₁ =>
      have htail : l₂ = m₁ ++ a :: m₂ := (List.cons.inj h).2
      exact absurd (htail ▸ List.mem_append_right m₁ List.mem_cons_self) hl
  | cons c l₁ ih =>
    cases m₁ with
    | nil =>
      have htail : l₁ ++ a :: l₂ = m₂ := (List.cons.inj h).2
      exact absurd (htail ▸ List.mem_append_right l₁ List.mem_cons_self) hm
    | cons d m₁ => exact ih (List.cons.inj h).2

/-- An element of a longer sequence is its last one, or comes from the shorter sequence. -/
theorem split_append (h : l ++ [a] = l₁ ++ b :: l₂) :
    (l₂ = [] ∧ b = a ∧ l = l₁) ∨ ∃ m, l₂ = m ++ [a] ∧ l = l₁ ++ b :: m := by
  rcases List.eq_nil_or_concat l₂ with rfl | ⟨m, c, rfl⟩
  · have h' := List.append_inj' h rfl
    exact .inl ⟨rfl, (List.cons.inj h'.2).1.symm, h'.1⟩
  · rw [List.concat_eq_append, ← List.cons_append, ← List.append_assoc] at h
    have h' := List.append_inj' h rfl
    obtain rfl := (List.cons.inj h'.2).1
    exact .inr ⟨m, List.concat_eq_append, h'.1⟩

theorem nodup_append_singleton (hq : q.Nodup) (ha : a ∉ q) : (q ++ [a]).Nodup :=
  hq.append (List.nodup_singleton a) fun _ hx hxa => ha (List.mem_singleton.mp hxa ▸ hx)

end Lists

variable [DecidableEq α]

/-- `a` is one of the last `n` distinct elements of `l`. -/
def Recent (n : ℕ) (l : List α) (a : α) : Prop :=
  ∃ l₁ l₂, l = l₁ ++ a :: l₂ ∧ a ∉ l₂ ∧ l₂.toFinset.card < n

/-- `b` has come since `a` came last. -/
def Since (l : List α) (a b : α) : Prop := ∃ l₁ l₂, l = l₁ ++ a :: l₂ ∧ a ∉ l₂ ∧ b ∈ l₂

def remember (n : ℕ) (q : List α) (a : α) : List α :=
  if a ∈ q then q else (if n ≤ q.length then q.drop 1 else q) ++ [a]

/-- The queue after a sequence, from an empty one. -/
def fill (n : ℕ) (l : List α) : List α := l.foldl (remember n) []

section Splits

variable {l l₂ : List α} {a b : α}

theorem last_split (h : a ∈ l) : ∃ l₁ l₂, l = l₁ ++ a :: l₂ ∧ a ∉ l₂ := by
  induction l with
  | nil => exact absurd h List.not_mem_nil
  | cons b l ih =>
    by_cases hl : a ∈ l
    · obtain ⟨l₁, l₂, rfl, hl₂⟩ := ih hl
      exact ⟨b :: l₁, l₂, rfl, hl₂⟩
    · rcases List.mem_cons.mp h with rfl | h
      · exact ⟨[], l, rfl, hl⟩
      · exact absurd h hl

theorem card_append_singleton_le (l : List α) (a : α) :
    l.toFinset.card ≤ (l ++ [a]).toFinset.card := by
  apply Finset.card_le_card
  intro x hx
  rw [List.mem_toFinset] at hx ⊢
  exact List.mem_append_left [a] hx

theorem recent_of_append {n : ℕ} (h : Recent n (l ++ [a]) b) : b = a ∨ Recent n l b := by
  obtain ⟨l₁, l₂, hl, hb, hcard⟩ := h
  rcases split_append hl with ⟨-, hba, -⟩ | ⟨m, rfl, rfl⟩
  · exact .inl hba
  · refine .inr ⟨l₁, m, rfl, fun hm => hb (List.mem_append_left [a] hm), ?_⟩
    exact lt_of_le_of_lt (card_append_singleton_le m a) hcard

/-- What comes in an end of the sequence with few elements is recent. -/
theorem recent_of_suffix {n : ℕ} (hs : l₂ <:+ l) (hcard : l₂.toFinset.card ≤ n) (ha : a ∈ l₂) :
    Recent n l a := by
  obtain ⟨m₁, m₂, rfl, hm⟩ := last_split ha
  obtain ⟨l₁, rfl⟩ := hs
  refine ⟨l₁ ++ m₁, m₂, (List.append_assoc ..).symm, hm, ?_⟩
  have hsub : insert a m₂.toFinset ⊆ (m₁ ++ a :: m₂).toFinset := by
    intro x hx
    rw [List.mem_toFinset]
    rcases Finset.mem_insert.mp hx with rfl | hx
    · exact List.mem_append_right m₁ List.mem_cons_self
    · exact List.mem_append_right m₁ (List.mem_cons_of_mem a (List.mem_toFinset.mp hx))
  have hle := Finset.card_le_card hsub
  rw [Finset.card_insert_of_notMem (by rwa [List.mem_toFinset])] at hle
  omega

/-- A sequence ends in one of any smaller number of distinct elements. -/
theorem suffix_of_card {n : ℕ} (l : List α) (h : n ≤ l.toFinset.card) :
    ∃ l₂, l₂ <:+ l ∧ l₂.toFinset.card = n := by
  induction l with
  | nil => exact ⟨[], List.suffix_refl [], (Nat.le_zero.mp h).symm⟩
  | cons a l ih =>
    by_cases hn : n ≤ l.toFinset.card
    · obtain ⟨l₂, hs, hcard⟩ := ih hn
      exact ⟨l₂, hs.trans (List.suffix_cons a l), hcard⟩
    · refine ⟨a :: l, List.suffix_refl _, ?_⟩
      have hle : (a :: l).toFinset.card ≤ l.toFinset.card + 1 := by
        rw [List.toFinset_cons]
        exact Finset.card_insert_le a l.toFinset
      omega

end Splits

section Queues

variable {n : ℕ} {l q : List α} {a f : α}

theorem fill_append (l : List α) (a : α) : fill n (l ++ [a]) = remember n (fill n l) a := by
  rw [fill, List.foldl_append]
  rfl

theorem remember_mem (h : a ∈ q) : remember n q a = q := if_pos h

theorem remember_room (h : a ∉ q) (hq : q.length < n) : remember n q a = q ++ [a] := by
  rw [remember, if_neg h, if_neg (by omega)]

theorem remember_full (h : a ∉ f :: q) (hq : n ≤ (f :: q).length) :
    remember n (f :: q) a = q ++ [a] := by
  rw [remember, if_neg h, if_pos hq]
  rfl

theorem nodup_remember (hq : q.Nodup) : (remember n q a).Nodup := by
  unfold remember
  split
  · exact hq
  · rename_i ha
    split
    · have hsub : q.drop 1 ⊆ q := List.drop_subset 1 q
      exact nodup_append_singleton (hq.sublist (List.drop_sublist 1 q)) fun h => ha (hsub h)
    · exact nodup_append_singleton hq ha

theorem length_remember (hn : 0 < n) (hq : q.length ≤ n) : (remember n q a).length ≤ n := by
  unfold remember
  split
  · exact hq
  · split
    · rw [List.length_append, List.length_drop, List.length_singleton]
      omega
    · rw [List.length_append, List.length_singleton]
      omega

theorem subset_remember (h : q ⊆ l) : remember n q a ⊆ l ++ [a] := by
  unfold remember
  split
  · exact fun x hx => List.mem_append_left [a] (h hx)
  · intro x hx
    rcases List.mem_append.mp hx with hx | hx
    · apply List.mem_append_left
      apply h
      split at hx
      · exact List.drop_subset 1 q hx
      · exact hx
    · exact List.mem_append_right l hx

theorem nodup_fill (n : ℕ) (l : List α) : (fill n l).Nodup := by
  induction l using List.reverseRecOn with
  | nil => exact List.nodup_nil
  | append_singleton l a ih =>
    rw [fill_append]
    exact nodup_remember ih

theorem length_fill (hn : 0 < n) (l : List α) : (fill n l).length ≤ n := by
  induction l using List.reverseRecOn with
  | nil => exact Nat.zero_le n
  | append_singleton l a ih =>
    rw [fill_append]
    exact length_remember hn ih

theorem fill_subset (n : ℕ) (l : List α) : fill n l ⊆ l := by
  induction l using List.reverseRecOn with
  | nil => exact List.Subset.refl []
  | append_singleton l a ih =>
    rw [fill_append]
    exact subset_remember ih

/-- The queue holds the last `n` distinct elements of the sequence. -/
def Kept (n : ℕ) (l : List α) : Prop := ∀ a, Recent n l a → a ∈ fill n l

/-- Where `a` makes the front leave, everything else in the queue has come since the front did. -/
def OldestLeaves (n : ℕ) (l : List α) (a : α) : Prop :=
  ∀ f q, fill n l = f :: q → a ∉ f :: q → (f :: q).length = n → ∀ b ∈ q, Since l f b

/-- What has come in an end without the front, if it is not too much, is in the queue. -/
theorem others_in_queue (hk : Kept n l) {m : List α} (hfill : fill n l = f :: q) (hm : m <:+ l)
    (hf : f ∉ m) (hcard : m.toFinset.card ≤ n) : m.toFinset ⊆ q.toFinset := by
  intro x hx
  rw [List.mem_toFinset] at hx ⊢
  have hmem := hk x (recent_of_suffix hm hcard hx)
  rw [hfill] at hmem
  rcases List.mem_cons.mp hmem with rfl | hq
  · exact absurd hx hf
  · exact hq

theorem kept_append (hn : 0 < n) (hk : Kept n l) (hold : OldestLeaves n l a) :
    Kept n (l ++ [a]) := by
  intro b hb
  rw [fill_append]
  by_cases ha : a ∈ fill n l
  · rw [remember_mem ha]
    rcases recent_of_append hb with rfl | hb
    · exact ha
    · exact hk b hb
  by_cases hroom : (fill n l).length < n
  · rw [remember_room ha hroom]
    rcases recent_of_append hb with rfl | hb
    · exact List.mem_append_right _ List.mem_cons_self
    · exact List.mem_append_left _ (hk b hb)
  · have hlen : (fill n l).length = n := le_antisymm (length_fill hn l) (by omega)
    cases hfill : fill n l with
    | nil =>
      rw [hfill] at hlen
      exact absurd hlen (by simp; omega)
    | cons f q =>
      rw [hfill] at ha hlen
      rw [remember_full ha hlen.ge]
      rcases recent_of_append hb with rfl | hb'
      · exact List.mem_append_right _ List.mem_cons_self
      · have hmem := hk b hb'
        rw [hfill] at hmem
        rcases List.mem_cons.mp hmem with rfl | hq
        · exfalso
          -- since the front came, the rest of the queue and `a` have come: `n` elements
          obtain ⟨l₁, l₂, hl, hb₂, hcard⟩ := hb
          have hba : b ≠ a := fun h => ha (h ▸ List.mem_cons_self)
          rcases split_append hl with ⟨-, h, -⟩ | ⟨m, rfl, hm⟩
          · exact hba h
          have hbm : b ∉ m := fun h => hb₂ (List.mem_append_left [a] h)
          have hsub : insert a q.toFinset ⊆ (m ++ [a]).toFinset := by
            intro x hx
            rw [List.mem_toFinset]
            rcases Finset.mem_insert.mp hx with rfl | hx
            · exact List.mem_append_right m List.mem_cons_self
            · obtain ⟨k₁, k₂, hk', hbk, hxk⟩ := hold b q hfill ha hlen x (List.mem_toFinset.mp hx)
              rw [last_split_unique (hk'.symm.trans hm) hbk hbm] at hxk
              exact List.mem_append_left [a] hxk
          have hq : q.Nodup := by
            have := nodup_fill n l
            rw [hfill] at this
            exact (List.nodup_cons.mp this).2
          have hle := Finset.card_le_card hsub
          rw [Finset.card_insert_of_notMem (by
            rw [List.mem_toFinset]
            exact fun h => ha (List.mem_cons_of_mem b h)), List.toFinset_card_of_nodup hq] at hle
          rw [List.length_cons] at hlen
          omega
        · exact List.mem_append_left _ hq

theorem oldest_leaves (hn : 0 < n) (hk : Kept n l) (hk' : Kept n (l ++ [a])) :
    OldestLeaves n l a := by
  intro f q hfill ha hlen b hb
  have hnodup := nodup_fill n l
  rw [hfill] at hnodup
  obtain ⟨hfq, hq⟩ := List.nodup_cons.mp hnodup
  have hqcard : q.toFinset.card + 1 = n := by
    rw [List.toFinset_card_of_nodup hq]
    exact hlen
  have hfl : f ∈ l := by
    apply fill_subset n l
    rw [hfill]
    exact List.mem_cons_self
  obtain ⟨l₁, l₂, hl, hfl₂⟩ := last_split hfl
  have hfa : f ≠ a := fun h => ha (h ▸ List.mem_cons_self)
  refine ⟨l₁, l₂, hl, hfl₂, ?_⟩
  -- the front has left, so it is not recent any more
  have hgone : n ≤ (l₂ ++ [a]).toFinset.card := by
    by_contra hlt
    have hrecent : Recent n (l ++ [a]) f := by
      refine ⟨l₁, l₂ ++ [a], by rw [hl, List.append_assoc]; rfl, ?_, by omega⟩
      intro h
      rcases List.mem_append.mp h with h | h
      · exact hfl₂ h
      · exact hfa (List.mem_singleton.mp h)
    have hmem := hk' f hrecent
    rw [fill_append, hfill, remember_full ha hlen.ge] at hmem
    rcases List.mem_append.mp hmem with h | h
    · exact hfq h
    · exact hfa (List.mem_singleton.mp h)
  have hle : (l₂ ++ [a]).toFinset.card ≤ l₂.toFinset.card + 1 := by
    rw [List.toFinset_append, List.toFinset_cons, List.toFinset_nil]
    refine le_trans (Finset.card_union_le _ _) ?_
    exact Nat.add_le_add_left (Finset.card_insert_le a ∅) _
  obtain ⟨m, hm, hmcard⟩ := suffix_of_card (n := n - 1) l₂ (by omega)
  obtain ⟨k, rfl⟩ := hm
  have hsuffix : m <:+ l := ⟨l₁ ++ f :: k, by rw [hl, List.append_assoc]; rfl⟩
  have hsub : m.toFinset ⊆ q.toFinset :=
    others_in_queue hk hfill hsuffix (fun h => hfl₂ (List.mem_append_right k h)) (by omega)
  have heq := Finset.eq_of_subset_of_card_le hsub (by omega)
  apply List.mem_append_right
  rw [← List.mem_toFinset, heq, List.mem_toFinset]
  exact hb

/-- The queue holds the last `n` distinct elements all along exactly if the front that leaves is
always the one that has not come for the longest time. -/
theorem fill_recent_iff (hn : 0 < n) (l : List α) :
    (∀ p, p <+: l → Kept n p) ↔ ∀ p a, p ++ [a] <+: l → OldestLeaves n p a := by
  constructor
  · intro h p a hp
    exact oldest_leaves hn (h p ((List.prefix_append p [a]).trans hp)) (h _ hp)
  · intro h p
    induction p using List.reverseRecOn with
    | nil =>
      intro _ a ha
      obtain ⟨l₁, l₂, hl, -⟩ := ha
      exact absurd hl (by simp)
    | append_singleton p a ih =>
      intro hp
      exact kept_append hn (ih ((List.prefix_append p [a]).trans hp)) (h p a hp)

end Queues

end JavaDebug.Recency
