import JavaDebug.Alerts
import Mathlib.Algebra.Ring.Nat

/-!
The drops are accounted for. Under every order of the steps the counter, the counts in
the hands of calls and the counts that were queued are the lengths of a ledger of
calls, and each call that failed to queue and put its count back stands in it once.
-/

namespace JavaDebug.AlertDrops

open Alerts

section Keeping

variable {D : Type}

/-- A call whose alert failed to queue, before and after it puts its count back. -/
def Stage.AfterRefusal : Stage → Prop
  | .refused _ | .returned false => True
  | _ => False

/-- The counts are the lengths of the ledger's lists. -/
structure Kept (w : World D) (L : Ledger) : Prop where
  owed : L.owed.length = w.dropped
  hands : L.hands.map List.length = w.in_hand
  told : L.told.map List.length = w.announced
  all : L.all.Perm w.put_back
  refused : ∀ i ∈ w.refusals, ∃ c, w.calls[i]? = some c ∧ Stage.AfterRefusal c.stage
  listed : ∀ i c missed, w.calls[i]? = some c → c.stage = .refused missed → i ∈ w.refusals
  nodup : w.refusals.Nodup

variable {w w' : World D} {L : Ledger} {i : ℕ} {c : AlertCall D}

theorem in_hand_goes (stage : Stage) :
    (w.goes i c stage).in_hand = w.in_hand.set i stage.in_hand := by
  simp [World.in_hand, World.goes, List.map_set]

theorem Kept.hand (h : Kept w L) (hc : w.calls[i]? = some c) :
    ∃ hand, L.hands[i]? = some hand ∧ hand.length = c.stage.in_hand := by
  have hmap : (L.hands.map List.length)[i]? = some c.stage.in_hand := by
    rw [h.hands, World.in_hand, List.getElem?_map, hc]
    rfl
  rw [List.getElem?_map, Option.map_eq_some_iff] at hmap
  exact hmap

theorem calls_goes_self (hc : w.calls[i]? = some c) (stage : Stage) :
    (w.goes i c stage).calls[i]? = some { c with stage := stage } := by
  obtain ⟨hi, _⟩ := List.getElem?_eq_some_iff.mp hc
  exact List.getElem?_set_self hi

theorem calls_goes_of_ne {j : ℕ} (hij : i ≠ j) (stage : Stage) :
    (w.goes i c stage).calls[j]? = w.calls[j]? := List.getElem?_set_ne hij

theorem ended_goes_of_ne {j : ℕ} (hij : i ≠ j) (stage : Stage) :
    (w.goes i c stage).ended j = w.ended j := by
  rw [World.ended, World.ended, calls_goes_of_ne hij]

theorem Kept.unrefused (h : Kept w L) (hc : w.calls[i]? = some c)
    (hstage : ¬ Stage.AfterRefusal c.stage) : i ∉ w.refusals := by
  intro hi
  obtain ⟨c', hc', hrefused⟩ := h.refused i hi
  rw [hc] at hc'
  rw [Option.some.inj hc'] at hstage
  exact hstage hrefused

variable {stage : Stage}

theorem Kept.refused_goes (h : Kept w L) (hstage : i ∈ w.refusals → Stage.AfterRefusal stage)
    (hc : w.calls[i]? = some c) :
    ∀ j ∈ w.refusals, ∃ c', (w.goes i c stage).calls[j]? = some c' ∧
      Stage.AfterRefusal c'.stage := by
  intro j hj
  by_cases hij : i = j
  · subst hij
    exact ⟨_, calls_goes_self hc stage, hstage hj⟩
  · obtain ⟨c', hc', hrefused⟩ := h.refused j hj
    exact ⟨c', by rw [calls_goes_of_ne hij, hc'], hrefused⟩

theorem Kept.listed_goes (h : Kept w L) (hc : w.calls[i]? = some c)
    (hstage : ∀ missed, stage ≠ .refused missed) :
    ∀ j c' missed, (w.goes i c stage).calls[j]? = some c' → c'.stage = .refused missed →
      j ∈ w.refusals := by
  intro j c' missed hc' hrefused
  by_cases hij : i = j
  · subst hij
    rw [calls_goes_self hc] at hc'
    rw [← Option.some.inj hc'] at hrefused
    exact absurd hrefused (hstage missed)
  · rw [calls_goes_of_ne hij] at hc'
    exact h.listed j c' missed hc' hrefused

theorem put_back_goes (hi : i ∉ w.refusals) (stage : Stage) :
    w.refusals.filter (w.goes i c stage).ended = w.put_back := by
  refine List.filter_congr fun j hj => ended_goes_of_ne ?_ stage
  rintro rfl
  exact hi hj

theorem Kept.goes (h : Kept w L) (hc : w.calls[i]? = some c) (hstage : ¬ Stage.AfterRefusal c.stage)
    (hnew : ∀ missed, stage ≠ .refused missed) (hsame : stage.in_hand = c.stage.in_hand) :
    Kept (w.goes i c stage) L := by
  have hi := h.unrefused hc hstage
  refine ⟨h.owed, ?_, h.told, ?_, h.refused_goes (fun hmem => absurd hmem hi) hc,
    h.listed_goes hc hnew, h.nodup⟩
  · have hget : w.in_hand[i]? = some stage.in_hand := by
      rw [World.in_hand, List.getElem?_map, hc, hsame]
      rfl
    obtain ⟨hlt, hget⟩ := List.getElem?_eq_some_iff.mp hget
    rw [in_hand_goes, h.hands, ← hget, List.set_getElem_self]
  · exact h.all.trans (.of_eq (put_back_goes hi stage).symm)

theorem Kept.takes (h : Kept w L) (hc : w.calls[i]? = some c) (hstage : c.stage = .armed) :
    Kept ({ w with dropped := 0 }.goes i c (.taken w.dropped)) (L.take i) := by
  obtain ⟨hand, hget, hlength⟩ := h.hand hc
  rw [hstage] at hlength
  rw [List.length_eq_zero_iff.mp hlength] at hget
  have hi : i ∉ w.refusals := h.unrefused hc (by rw [hstage]; exact id)
  refine ⟨rfl, ?_, h.told, ?_, h.refused_goes (fun hmem => absurd hmem hi) hc,
    h.listed_goes hc fun _ => Stage.noConfusion, h.nodup⟩
  · rw [in_hand_goes, Ledger.take, List.map_set, h.hands, h.owed]
    rfl
  · exact ((Ledger.all_take hget).trans h.all).trans
      (.of_eq (put_back_goes hi (.taken w.dropped)).symm)

variable {missed : ℕ}

theorem Kept.tells (h : Kept w L) (hc : w.calls[i]? = some c) (hstage : c.stage = .taken missed)
    (channel : Channel) :
    ∃ L', Kept ((w.queues channel i (c.note missed)).goes i c (.returned true)) L' := by
  obtain ⟨hand, hget, hlength⟩ := h.hand hc
  rw [hstage] at hlength
  have hi : i ∉ w.refusals := h.unrefused hc (by rw [hstage]; exact id)
  have hsame : ((w.queues channel i (c.note missed)).goes i c (.returned true)).refusals =
      w.refusals := by
    simp [World.refusals, World.goes, World.queues, List.filterMap_append, Logged.refusal]
  have hcount : ((c.note missed).params.droppedSinceLast.getD 0) = hand.length := by
    rw [hlength, AlertCall.note]
    by_cases hmissed : missed > 0
    · rw [if_pos hmissed]
      rfl
    · rw [if_neg hmissed]
      exact (Nat.eq_zero_of_not_pos hmissed).symm
  refine ⟨L.tell i hand, h.owed, ?_, ?_, ?_, ?_, ?_, ?_⟩
  · rw [in_hand_goes, Ledger.tell, List.map_set, h.hands]
    rfl
  · rw [Ledger.tell, List.map_append, h.told]
    simp [World.announced, World.goes, World.queues, List.filterMap_append, Logged.announced,
      hcount]
  · rw [World.put_back, hsame]
    exact ((Ledger.all_tell hget).trans h.all).trans
      (.of_eq (put_back_goes hi (.returned true)).symm)
  · rw [hsame]
    exact h.refused_goes (fun hmem => absurd hmem hi) hc
  · rw [hsame]
    exact h.listed_goes hc fun _ => Stage.noConfusion
  · rw [hsame]
    exact h.nodup

/-- The queue has no room: the call is noted, and counts once it is over. -/
theorem Kept.fails (h : Kept w L) (hc : w.calls[i]? = some c) (hstage : c.stage = .taken missed) :
    Kept ((w.refuses i).goes i c (.refused missed)) L := by
  have hi : i ∉ w.refusals := h.unrefused hc (by rw [hstage]; exact id)
  have hmore : ((w.refuses i).goes i c (.refused missed)).refusals = w.refusals ++ [i] := by
    simp [World.refusals, World.goes, World.refuses, List.filterMap_append, Logged.refusal]
  have hself : ((w.refuses i).goes i c (.refused missed)).calls[i]? =
      some { c with stage := .refused missed } := calls_goes_self hc (.refused missed)
  refine ⟨h.owed, ?_, ?_, ?_, ?_, ?_, ?_⟩
  · have hget : w.in_hand[i]? = some missed := by
      rw [World.in_hand, List.getElem?_map, hc, Option.map_some, hstage]
      rfl
    obtain ⟨hlt, hget⟩ := List.getElem?_eq_some_iff.mp hget
    rw [in_hand_goes, show (w.refuses i).in_hand = w.in_hand from rfl,
      show (Stage.refused missed).in_hand = missed from rfl, h.hands, ← hget,
      List.set_getElem_self]
  · rw [h.told]
    simp [World.announced, World.goes, World.refuses, List.filterMap_append, Logged.announced]
  · have hnot : ((w.refuses i).goes i c (.refused missed)).ended i = false := by
      rw [World.ended, hself]
      rfl
    rw [World.put_back, hmore, List.filter_append, List.filter_singleton, hnot]
    exact h.all.trans (.of_eq ((put_back_goes (w := w) hi (.refused missed)).symm.trans
      (List.append_nil _).symm))
  · rw [hmore]
    intro j hj
    rcases List.mem_append.mp hj with hj | hj
    · have hnew : Stage.AfterRefusal (.refused missed) := trivial
      exact h.refused_goes (fun _ => hnew) hc j hj
    · rw [List.mem_singleton.mp hj]
      exact ⟨_, hself, trivial⟩
  · rw [hmore]
    intro j c' missed' hc' hrefused
    by_cases hij : i = j
    · exact List.mem_append_right _ (List.mem_singleton.mpr hij.symm)
    · exact List.mem_append_left _
        (h.listed j c' missed' ((calls_goes_of_ne (w := w) hij _).symm.trans hc') hrefused)
  · rw [hmore, List.nodup_append]
    refine ⟨h.nodup, by simp, fun a ha b hb hab => ?_⟩
    rw [List.mem_singleton.mp hb] at hab
    exact hi (hab ▸ ha)

theorem put_back_ends (h : Kept w L) (hc : w.calls[i]? = some c)
    (hstage : c.stage = .refused missed) :
    (w.refusals.filter (w.goes i c (.returned false)).ended).Perm (i :: w.put_back) := by
  have hold : w.ended i = false := by
    rw [World.ended, hc, Option.any_some, hstage]
    rfl
  have hnew : (w.goes i c (.returned false)).ended i = true := by
    rw [World.ended, calls_goes_self hc]
    rfl
  have hnodup : (i :: w.put_back).Nodup := by
    refine List.nodup_cons.mpr ⟨fun hi => ?_, h.nodup.filter _⟩
    rw [World.put_back, List.mem_filter, hold] at hi
    exact Bool.noConfusion hi.2
  refine (List.perm_ext_iff_of_nodup (h.nodup.filter _) hnodup).mpr fun j => ?_
  rw [List.mem_cons, World.put_back, List.mem_filter, List.mem_filter]
  by_cases hij : i = j
  · subst hij
    simp [hnew, h.listed i c missed hc hstage]
  · rw [ended_goes_of_ne hij]
    exact ⟨Or.inr, fun hj => hj.resolve_left (Ne.symm hij)⟩

theorem Kept.gives_back (h : Kept w L) (hc : w.calls[i]? = some c)
    (hstage : c.stage = .refused missed) :
    ∃ L', Kept ((w.owes missed).goes i c (.returned false)) L' := by
  obtain ⟨hand, hget, hlength⟩ := h.hand hc
  rw [hstage] at hlength
  refine ⟨L.give_back i hand, ?_, ?_, h.told, ?_, ?_, ?_, h.nodup⟩
  · rw [Ledger.give_back, List.length_append, List.length_cons, h.owed, hlength]
    rfl
  · rw [in_hand_goes, Ledger.give_back, List.map_set, h.hands]
    rfl
  · exact ((Ledger.all_give_back hget).trans (h.all.cons i)).trans (put_back_ends h hc hstage).symm
  · have hnew : Stage.AfterRefusal (.returned false) := trivial
    exact h.refused_goes (fun _ => hnew) hc
  · exact h.listed_goes hc fun _ => Stage.noConfusion

end Keeping

section Running

variable {D : Type} (ser : Serializer D)

theorem kept_new (capacity : ℕ) : Kept (World.new capacity : World D) ⟨[], [], []⟩ :=
  ⟨rfl, rfl, rfl, .refl [], fun _ h => absurd h List.not_mem_nil, fun _ _ _ h => (by cases h),
    List.nodup_nil⟩

variable {w : World D} {L : Ledger}

theorem kept_advance (h : Kept w L) (alerts_enabled : Bool) {i : ℕ} {c : AlertCall D}
    (hc : w.calls[i]? = some c) : ∃ L', Kept (w.advance ser alerts_enabled i c) L' := by
  unfold World.advance
  cases hstage : c.stage with
  | called =>
    refine ⟨L, h.goes hc (by rw [hstage]; exact id) ?_ ?_⟩ <;> cases alerts_enabled <;>
      simp [hstage, Stage.in_hand]
  | enabled =>
    refine ⟨L, h.goes hc (by rw [hstage]; exact id) ?_ ?_⟩ <;> by_cases hera : w.era = .legacy <;>
      simp [hera, hstage, Stage.in_hand]
  | legacy =>
    refine ⟨L, h.goes hc (by rw [hstage]; exact id) ?_ ?_⟩ <;> by_cases harmed : w.armed = true <;>
      simp [harmed, hstage, Stage.in_hand]
  | armed => exact ⟨_, h.takes hc hstage⟩
  | taken missed =>
    obtain ⟨line, hline⟩ := ser.total (c.note missed)
    simp only [hline]
    cases hsend : w.channel.try_send line with
    | some channel => exact h.tells hc hstage channel
    | none => exact ⟨L, h.fails hc hstage⟩
  | refused missed => exact h.gives_back hc hstage
  | returned queued => exact ⟨L, h⟩

theorem kept_alert (h : Kept w L) (level : String) (data : D) :
    Kept { w with calls := w.calls ++ [⟨level, data, .called⟩] } L.join := by
  have hsame : ∀ j ∈ w.refusals, (w.calls ++ [⟨level, data, .called⟩])[j]? = w.calls[j]? := by
    intro j hj
    obtain ⟨c, hc, -⟩ := h.refused j hj
    obtain ⟨hlength, _⟩ := List.getElem?_eq_some_iff.mp hc
    exact List.getElem?_append_left hlength
  refine ⟨h.owed, ?_, h.told, ?_, fun j hj => ?_, fun j c missed hc hrefused => ?_, h.nodup⟩
  · simp only [Ledger.join, List.map_append, h.hands, World.in_hand]
    rfl
  · rw [Ledger.all_join]
    refine h.all.trans (.of_eq (List.filter_congr fun j hj => ?_))
    rw [World.ended, World.ended, hsame j hj]
  · obtain ⟨c, hc, hrefused⟩ := h.refused j hj
    exact ⟨c, (hsame j hj).trans hc, hrefused⟩
  · rw [List.getElem?_append] at hc
    split at hc
    · exact h.listed j c missed hc hrefused
    · have hcalled := List.mem_singleton.mp (List.mem_of_getElem? hc)
      rw [hcalled] at hrefused
      cases hrefused

theorem kept_step (h : Kept w L) (move : Move D) : ∃ L', Kept (w.step ser move) L' := by
  cases move with
  | alert level data => exact ⟨L.join, kept_alert h level data⟩
  | advance i alerts_enabled =>
    simp only [World.step]
    cases hc : w.calls[i]? with
    | some c => exact kept_advance ser h alerts_enabled hc
    | none => exact ⟨L, h⟩
  | store_armed | note_era | reserve | send_reserved | recv | close =>
    exact ⟨L, h.owed, h.hands, h.told, h.all, h.refused, h.listed, h.nodup⟩

theorem kept_run (h : Kept w L) (moves : List (Move D)) : ∃ L', Kept (w.run ser moves) L' := by
  induction moves generalizing w L with
  | nil => exact ⟨L, h⟩
  | cons move moves ih =>
    obtain ⟨L', h'⟩ := kept_step ser h move
    exact ih h'

theorem Kept.sums (h : Kept w L) :
    w.announced.sum + w.dropped + w.in_hand.sum = w.put_back.length := by
  have hlength := h.all.length_eq
  rw [Ledger.all, List.length_append, List.length_append, List.length_flatten,
    List.length_flatten, h.told, h.hands, h.owed] at hlength
  exact hlength

/-- Each alert that failed to queue and is over is announced in one line, owed by the counter, or
in the hands of one call. -/
theorem drops_announced_once_or_owed (capacity : ℕ) (moves : List (Move D)) :
    ((World.new capacity).run ser moves).announced.sum +
        ((World.new capacity).run ser moves).dropped +
        ((World.new capacity).run ser moves).in_hand.sum =
      ((World.new capacity).run ser moves).put_back.length ∧
    ((World.new capacity).run ser moves).put_back.Nodup ∧
    ∃ L : Ledger, L.told.map List.length = ((World.new capacity).run ser moves).announced ∧
      L.owed.length = ((World.new capacity).run ser moves).dropped ∧
      L.hands.map List.length = ((World.new capacity).run ser moves).in_hand ∧
      (L.told.flatten ++ L.owed ++ L.hands.flatten).Perm
        ((World.new capacity).run ser moves).put_back := by
  obtain ⟨L, h⟩ := kept_run ser (kept_new capacity) moves
  exact ⟨h.sums, h.nodup.filter _, L, h.told, h.owed, h.hands, h.all⟩

end Running

end JavaDebug.AlertDrops
