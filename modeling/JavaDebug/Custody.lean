import Mathlib.Data.List.Nodup
import Mathlib.Data.List.Count

/-!
Custody of what a server lends out. Every grant is made under a fresh key and
is live until it is revoked; a client holds handles to grants, in its records
or in its hands, and `held` counts the places that hold one. The rules say how
a grant, a revocation and a transfer between places change the account.
-/
namespace JavaDebug

universe u

variable {η : Type u}

/-- No handle is held twice, a key is held in one form only, and no key is used ahead of its
grant. A live grant may be held by no one. -/
structure Custody (key : η → ℕ) (next : ℕ) (live : List η) (held : η → ℕ) : Prop where
  once : ∀ h, held h ≤ 1
  sole : ∀ h h', 0 < held h → 0 < held h' → key h = key h' → h = h'
  granted : ∀ h, 0 < held h → key h < next
  live_granted : ∀ h ∈ live, key h < next
  live_nodup : (live.map key).Nodup
  genuine : ∀ h ∈ live, ∀ h', 0 < held h' → key h' = key h → h' = h

namespace Custody

variable {key : η → ℕ} {next : ℕ} {live : List η} {held held' : η → ℕ}

theorem pass (c : Custody key next live held) (h : ∀ x, held' x ≤ held x) :
    Custody key next live held' where
  once x := Nat.le_trans (h x) (c.once x)
  sole x y hx hy := c.sole x y (Nat.lt_of_lt_of_le hx (h x)) (Nat.lt_of_lt_of_le hy (h y))
  granted x hx := c.granted x (Nat.lt_of_lt_of_le hx (h x))
  live_granted := c.live_granted
  live_nodup := c.live_nodup
  genuine x hx y hy := c.genuine x hx y (Nat.lt_of_lt_of_le hy (h y))

theorem sublist {live' : List η} (c : Custody key next live held) (h : live'.Sublist live) :
    Custody key next live' held where
  once := c.once
  sole := c.sole
  granted := c.granted
  live_granted x hx := c.live_granted x (h.subset hx)
  live_nodup := c.live_nodup.sublist (h.map key)
  genuine x hx := c.genuine x (h.subset hx)

theorem revoke (c : Custody key next live held) (p : η → Bool) :
    Custody key next (live.filter p) held := c.sublist List.filter_sublist

theorem grant [DecidableEq η] (c : Custody key next live held) {x : η} (hx : key x = next) :
    Custody key (next + 1) (live ++ [x]) fun y => held y + if y = x then 1 else 0 := by
  have hnone : held x = 0 := Nat.eq_zero_of_not_pos fun h => by
    have := c.granted x h
    omega
  have hsplit : ∀ y, (0 < held y + if y = x then 1 else 0) → 0 < held y ∨ y = x := by
    intro y hy
    by_cases hyx : y = x
    · exact Or.inr hyx
    · rw [if_neg hyx] at hy
      exact Or.inl hy
  refine ⟨fun y => ?_, fun y z hy hz hyz => ?_, fun y hy => ?_, fun y hy => ?_, ?_, ?_⟩
  · by_cases hyx : y = x
    · subst hyx
      simp [hnone]
    · simpa [hyx] using c.once y
  · rcases hsplit y hy with hy' | rfl <;> rcases hsplit z hz with hz' | rfl
    · exact c.sole y z hy' hz' hyz
    · have := c.granted y hy'
      omega
    · have := c.granted z hz'
      omega
    · rfl
  · rcases hsplit y hy with hy' | rfl
    · exact Nat.lt_succ_of_lt (c.granted y hy')
    · omega
  · rcases List.mem_append.mp hy with hy' | hy'
    · exact Nat.lt_succ_of_lt (c.live_granted y hy')
    · rw [List.mem_singleton.mp hy']
      omega
  · rw [List.map_append, List.nodup_append]
    refine ⟨c.live_nodup, List.nodup_singleton _, ?_⟩
    intro a ha b hb
    obtain ⟨y, hy, rfl⟩ := List.mem_map.mp ha
    have := c.live_granted y hy
    simp only [List.map_cons, List.map_nil, List.mem_singleton] at hb
    omega
  · intro y hy z hz hzy
    rcases List.mem_append.mp hy with hy' | hy'
    · rcases hsplit z hz with hz' | rfl
      · exact c.genuine y hy' z hz' hzy
      · have := c.live_granted y hy'
        omega
    · obtain rfl := List.mem_singleton.mp hy'
      rcases hsplit z hz with hz' | rfl
      · have := c.granted z hz'
        omega
      · rfl

end Custody

end JavaDebug
