import JavaDebug.Recency
import JavaDebug.Wire

/-!
The ids of disarmed traced requests. A session remembers the last of them, so
that a hit which was under way when its request went is still resumed. An id
that is disarmed again while it is remembered keeps its place, and can leave
before older ones: `newest_remembered_iff` says for which sequences the newest
ids are the remembered ones.
-/
namespace JavaDebug.DisarmedIds

open Jdwp Session Wire Recency

variable (s : DebugSession)

variable (ids : List RequestId)

/-- A session that remembers nothing, after requests are disarmed one after another. -/
def noted : DebugSession :=
  ids.foldl DebugSession.note_disarmed_traced { s with disarmed_traced_requests := [] }

theorem note_list (id : RequestId) :
    (s.note_disarmed_traced id).disarmed_traced_requests =
      remember MAX_DISARMED_TRACED s.disarmed_traced_requests id := by
  unfold DebugSession.note_disarmed_traced remember
  by_cases h : id ∈ s.disarmed_traced_requests
  · rw [if_pos h, if_pos h]
  · rw [if_neg h, if_neg h]

theorem noted_append (id : RequestId) :
    noted s (ids ++ [id]) = (noted s ids).note_disarmed_traced id := List.foldl_append ..

theorem noted_list : (noted s ids).disarmed_traced_requests = fill MAX_DISARMED_TRACED ids := by
  induction ids using List.reverseRecOn with
  | nil => rfl
  | append_singleton ids id ih => rw [noted_append, note_list, ih, fill_append]

/-- A session that remembers the newest of the ids that were disarmed. -/
structure Remembers (s : DebugSession) (ids : List RequestId) : Prop where
  nodup : s.disarmed_traced_requests.Nodup
  bounded : s.disarmed_traced_requests.length ≤ MAX_DISARMED_TRACED
  newest : ∀ id, Recent MAX_DISARMED_TRACED ids id → id ∈ s.disarmed_traced_requests
  recognised : ∀ id, Recent MAX_DISARMED_TRACED ids id → s.owns_live_request id = false →
    s.was_traced_and_disarmed id = true

/-- Where the next id makes the first of a full list leave, every other id of the list has been
disarmed since the first one was. -/
def FirstIsOldest (id : RequestId) : Prop :=
  ∀ first rest, (noted s ids).disarmed_traced_requests = first :: rest → id ∉ first :: rest →
    (first :: rest).length = MAX_DISARMED_TRACED → ∀ other ∈ rest, Since ids first other

theorem remembers_iff : Remembers (noted s ids) ids ↔ Kept MAX_DISARMED_TRACED ids := by
  constructor
  · intro h id hid
    rw [← noted_list s]
    exact h.newest id hid
  · intro h
    have hnewest : ∀ id, Recent MAX_DISARMED_TRACED ids id →
        id ∈ (noted s ids).disarmed_traced_requests := by
      intro id hid
      rw [noted_list]
      exact h id hid
    refine ⟨?_, ?_, hnewest, fun id hid hlive => ?_⟩
    · rw [noted_list]
      exact nodup_fill _ ids
    · rw [noted_list]
      exact length_fill (by decide) ids
    · simp only [DebugSession.was_traced_and_disarmed, decide_eq_true_eq]
      exact ⟨hnewest id hid, by simp [hlive]⟩

/-- Whatever is disarmed in a session, it remembers the newest ids all along exactly if the first
of its list, whenever it leaves, is the one that was disarmed the longest time ago. -/
theorem newest_remembered_iff :
    (∀ p, p <+: ids → Remembers (noted s p) p) ↔
      ∀ p id, p ++ [id] <+: ids → FirstIsOldest s p id := by
  simp only [remembers_iff, FirstIsOldest, noted_list]
  exact fill_recent_iff (by decide) ids

/-- As many ids as are remembered, the first of them once more, and a new one. -/
def first_again : List RequestId := List.range 32 ++ [0, 32]

/-- The id that was disarmed last but one is forgotten. -/
theorem first_again_forgotten :
    ¬ ∀ (s : DebugSession) (ids : List RequestId), Remembers (noted s ids) ids := by
  intro h
  have hrecent : Recent MAX_DISARMED_TRACED first_again 0 :=
    ⟨List.range 32, [32], rfl, by decide, by decide⟩
  have hmem := (h .new first_again).newest 0 hrecent
  rw [noted_list] at hmem
  revert hmem
  decide

end JavaDebug.DisarmedIds
