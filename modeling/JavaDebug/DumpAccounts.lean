import JavaDebug.ThreadDumps
import Mathlib.Data.List.GetD
import Mathlib.Data.List.Pairwise
import Mathlib.Data.List.Perm.Basic

/-!
What becomes of the threads of a dump, and what the reply says of those it does
not show. Every listed thread has one fate. The reply blames on the limit
whatever is neither shown nor vanished, so its counts are right exactly when no
filter left a thread out, the budget did not run out, and every thread without a
status has ended. Shown and hidden frames add up to the depth exactly when no
frame was filtered out before the rest of a stack was cut off.
-/
namespace JavaDebug.DumpAccounts

open Grouping ThreadDumps
open EventLoop (MAX_READS_IN_FLIGHT)

section Stacks

variable {show_frame : DumpFrame → Bool}

/-- Frames are left when enough are shown, and some before were filtered out. -/
def CutShort (show_frame : DumpFrame → Bool) (room hidden : ℕ) (frames : List DumpFrame) : Prop :=
  frames ≠ [] ∧ room ≤ frames.dropLast.countP show_frame ∧
    (0 < hidden ∨ (frames.take room).all show_frame = false)

theorem cutShort_cons {room hidden : ℕ} (hroom : 0 < room) (f : DumpFrame) (rest : List DumpFrame) :
    CutShort show_frame room hidden (f :: rest) ↔
      if show_frame f then CutShort show_frame (room - 1) hidden rest
      else CutShort show_frame room (hidden + 1) rest := by
  obtain ⟨r, rfl⟩ := Nat.exists_eq_add_of_lt hroom
  unfold CutShort
  cases rest with
  | nil => cases show_frame f <;> simp
  | cons g rest =>
    cases hf : show_frame f with
    | true =>
      simp [hf]
    | false =>
      simp [hf]

theorem stack_loop_iff (max_frames depth : ℕ) (frames : List DumpFrame) (out : List String)
    (hidden : ℕ) (hdepth : depth = out.length + hidden + frames.length) (idx : ℕ) :
    (stack_loop show_frame max_frames depth idx out hidden frames).1.length +
        (stack_loop show_frame max_frames depth idx out hidden frames).2 = depth ↔
      ¬ CutShort show_frame (max_frames - out.length) hidden frames := by
  induction frames generalizing out hidden idx with
  | nil => simp [stack_loop, CutShort, hdepth]
  | cons f rest ih =>
    rw [List.length_cons] at hdepth
    unfold stack_loop
    by_cases hcut : max_frames ≤ out.length
    · rw [if_pos hcut, Nat.sub_eq_zero_of_le hcut]
      simp [CutShort]
      omega
    · have hroom : 0 < max_frames - out.length := by omega
      rw [if_neg hcut, cutShort_cons hroom]
      cases hf : show_frame f with
      | false =>
        simp only [Bool.not_false, if_true, Bool.false_eq_true, if_false]
        exact ih out (hidden + 1) (by omega) (idx + 1)
      | true =>
        simp only [Bool.not_true, Bool.false_eq_true, if_false, if_true]
        have h := ih (out ++ [frame_text idx f]) hidden (by simp; omega) (idx + 1)
        rwa [List.length_append, List.length_singleton, ← Nat.sub_sub] at h

end Stacks

section Order

theorem length_le_deepest {families : List (List ℕ)} {members : List ℕ} (h : members ∈ families) :
    members.length ≤ deepest families := by
  have hfold : ∀ (l : List ℕ) (m : ℕ), m ≤ l.foldl max m ∧ ∀ x ∈ l, x ≤ l.foldl max m := by
    intro l
    induction l with
    | nil => simp
    | cons y l ih =>
      intro m
      obtain ⟨hm, hl⟩ := ih (max m y)
      refine ⟨le_trans (Nat.le_max_left m y) hm, fun x hx => ?_⟩
      rcases List.mem_cons.mp hx with rfl | hx
      · exact le_trans (Nat.le_max_right m x) hm
      · exact hl x hx
  exact (hfold _ 0).2 _ (List.mem_map_of_mem h)

theorem rounds_perm {families : List (List ℕ)} (h : families.flatten.Nodup) :
    (rounds families).Perm families.flatten := by
  obtain ⟨hnodup, hdisjoint⟩ := List.nodup_flatten.mp h
  have hmem : ∀ i, i ∈ rounds families ↔ i ∈ families.flatten := by
    intro i
    simp only [rounds, List.mem_flatMap, List.mem_range, List.mem_filterMap, List.mem_flatten]
    constructor
    · rintro ⟨round, -, members, hfam, hi⟩
      exact ⟨members, hfam, List.mem_of_getElem? hi⟩
    · rintro ⟨members, hfam, hi⟩
      obtain ⟨round, hround, hget⟩ := List.mem_iff_getElem.mp hi
      refine ⟨round, lt_of_lt_of_le hround (length_le_deepest hfam), members, hfam, ?_⟩
      rw [List.getElem?_eq_getElem hround, hget]
  have hsame : ∀ {m m' : List ℕ}, m ∈ families → m' ∈ families → ∀ {i : ℕ}, i ∈ m → i ∈ m' →
      m = m' := by
    intro m m' hm hm' i hi hi'
    have hsymm : Std.Symm (List.Disjoint : List ℕ → List ℕ → Prop) :=
      ⟨fun _ _ h _ hi hi' => h hi' hi⟩
    by_contra hne
    exact hdisjoint.forall hm hm' hne hi hi'
  have hunique : (rounds families).Nodup := by
    refine List.nodup_flatMap.mpr ⟨fun round _ => ?_, ?_⟩
    · refine List.Pairwise.filterMap _ (fun m m' h b hb b' hb' => ?_) hdisjoint
      rintro rfl
      exact h (List.mem_of_getElem? hb) (List.mem_of_getElem? hb')
    · refine List.Pairwise.imp_of_mem ?_ List.nodup_range
      intro round round' _ _ hne i hi hi'
      obtain ⟨m, hm, hget⟩ := List.mem_filterMap.mp hi
      obtain ⟨m', hm', hget'⟩ := List.mem_filterMap.mp hi'
      obtain rfl := hsame hm hm' (List.mem_of_getElem? hget) (List.mem_of_getElem? hget')
      obtain ⟨hround, -⟩ := List.getElem?_eq_some_iff.mp hget
      exact hne ((List.getElem?_inj hround (hnodup m hm)).mp (hget.trans hget'.symm))
  exact (List.perm_ext_iff_of_nodup hunique h).mpr hmem

theorem order_perm (names : List String) :
    (family_round_robin names).1.Perm (List.range names.length) := by
  have h := (groups_group (fun i => thread_name_family (names.getD i ""))
    (List.range names.length)).flatten_perm List.nodup_range
  exact (rounds_perm (h.nodup_iff.mpr List.nodup_range)).trans h

end Order

section Fates

inductive Cause
  | name
  | state
  | vanished
  | limit
  | budget
  deriving DecidableEq

inductive Fate
  | shown
  | left (cause : Cause)
  deriving DecidableEq

variable (ans : Answers) (a : ThreadDumpArgs) (all : List ThreadId) (deadline : Option ℕ)

variable (i : ℕ)

/-- No window up to that of the thread at `i` found half of the budget spent. -/
def triaged : Bool :=
  (List.range (i / MAX_READS_IN_FLIGHT + 1)).all fun k =>
    !passed (triage_deadline ans deadline) (ans.triage_clock (MAX_READS_IN_FLIGHT * k))

def name_passes : Bool :=
  matches_filter ans.to_lowercase (name_filter ans a) ((ans.name i).getD "")

/-- What keeps the thread at `i` from being a candidate. -/
def triage_fate : Option Cause :=
  if !triaged ans deadline i then some .budget
  else if !name_passes ans a i then some .name
  else match ans.status i with
    | none => some .vanished
    | some (_, ss) => if a.only_suspended && ss = 0 then some .state else none

/-- The threads that are candidates, as their positions. -/
def eligible : List ℕ :=
  (List.range all.length).filter fun i => triage_fate ans a deadline i = none

/-- How many of the picks left are read once so many were: up to the limit or the end of the
budget. -/
def read_from (limit taken left : ℕ) : ℕ :=
  ((List.range' taken left).takeWhile fun k =>
    k < limit && !passed deadline (ans.clock k)).length

def reached : ℕ :=
  read_from ans deadline (max a.limit 1) 0 (eligible ans a all deadline).length

def candidate : DumpCandidate :=
  let status := (ans.status i).getD (0, 0)
  ⟨i, all.getD i 0, (ans.name i).getD "", thread_status_name status.1, status.2 ≠ 0,
    status.1 = THREAD_STATUS_ZOMBIE⟩

/-- The candidates that are read, one of each family before a second of any. -/
def chosen : List ℕ :=
  ((family_round_robin ((eligible ans a all deadline).map fun i => (ans.name i).getD "")).1.take
    (reached ans a all deadline)).map fun pick => (eligible ans a all deadline).getD pick 0

def fate : Fate :=
  match triage_fate ans a deadline i with
  | some cause => .left cause
  | none =>
    if i ∈ chosen ans a all deadline then .shown
    else if reached ans a all deadline < max a.limit 1 then .left .budget
    else .left .limit

/-- How many threads the reply counts under a cause. It has no count of filtered threads. -/
def counted (out : DumpOutcome) : Cause → ℕ
  | .name => 0
  | .state => 0
  | .vanished => (dump_shortfall out.rows.length all.length out.vanished).2
  | .limit => (dump_shortfall out.rows.length all.length out.vanished).1
  | .budget => out.unread

/-- How many threads the triage turns away for this cause. -/
def lost (cause : Cause) : ℕ :=
  (List.range all.length).countP fun i => triage_fate ans a deadline i = some cause

end Fates

section Triage

variable {ans : Answers} {a : ThreadDumpArgs} {all : List ThreadId} {deadline : Option ℕ}

theorem triage_foldl (l : List ℕ) (hl : ∀ i ∈ l, triaged ans deadline i = true) (t : DumpTriage) :
    ((l.map fun i => (i, all.getD i 0, (ans.name i).getD "")).filter fun w =>
        matches_filter ans.to_lowercase (name_filter ans a) w.2.2).foldl (triage_one ans a) t =
      ⟨t.candidates ++ (l.filter fun i => triage_fate ans a deadline i = none).map
          (candidate ans all), t.untriaged,
        t.vanished + l.countP fun i => triage_fate ans a deadline i = some .vanished⟩ := by
  induction l generalizing t with
  | nil => simp
  | cons i l ih =>
    have ht := hl i List.mem_cons_self
    have hrest := ih fun j hj => hl j (List.mem_cons_of_mem i hj)
    rw [List.map_cons, List.filter_cons, List.filter_cons, List.countP_cons]
    cases hname : name_passes ans a i with
    | false =>
      have hfate : triage_fate ans a deadline i = some .name := by simp [triage_fate, ht, hname]
      rw [name_passes] at hname
      simp only [hname, hfate, Bool.false_eq_true, if_false, reduceCtorEq, decide_false,
        Option.some.injEq, Nat.add_zero]
      exact hrest t
    | true =>
      rw [name_passes] at hname
      simp only [hname, if_true, List.foldl_cons]
      rw [hrest]
      cases hstatus : ans.status i with
      | none =>
        have hfate : triage_fate ans a deadline i = some .vanished := by
          simp [triage_fate, ht, name_passes, hname, hstatus]
        simp [triage_one, hstatus, hfate, Nat.add_assoc, Nat.add_comm]
      | some s =>
        by_cases hstate : (a.only_suspended && s.2 = 0) = true
        · have hfate : triage_fate ans a deadline i = some .state := by
            simp only [triage_fate, ht, name_passes, hname, hstatus]
            simp only [Bool.not_true, Bool.false_eq_true, if_false, hstate, if_true]
          simp [triage_one, hstatus, hfate, hstate]
        · have hfate : triage_fate ans a deadline i = none := by
            simp only [triage_fate, ht, name_passes, hname, hstatus]
            simp only [Bool.not_true, Bool.false_eq_true, if_false, hstate]
          simp [triage_one, hstatus, hfate, hstate, candidate]

theorem zipIdx_window (triaged : ℕ) (rest : List ThreadId) (hrest : rest = all.drop triaged) (w : ℕ)
    : wanted ans a (rest.take w) triaged =
      (((List.range' triaged (min w rest.length)).map fun i =>
        (i, all.getD i 0, (ans.name i).getD "")).filter fun w =>
          matches_filter ans.to_lowercase (name_filter ans a) w.2.2) := by
  unfold wanted
  congr 1
  subst hrest
  refine List.ext_getElem (by simp) fun k hk hk' => ?_
  have hlt : triaged + k < all.length := by
    simp at hk'
    omega
  simp [List.getD_eq_getElem?_getD, hlt]

theorem not_triaged {i j : ℕ} (hj : MAX_READS_IN_FLIGHT * j ≤ i)
    (hpassed : passed (triage_deadline ans deadline)
      (ans.triage_clock (MAX_READS_IN_FLIGHT * j)) = true) : triaged ans deadline i = false := by
  refine List.all_eq_false.mpr ⟨j, List.mem_range.mpr ?_, by simp [hpassed]⟩
  rw [Nat.lt_succ_iff, Nat.le_div_iff_mul_le (by decide), Nat.mul_comm]
  exact hj

theorem triaged_of {i j : ℕ} (hj : i < MAX_READS_IN_FLIGHT * (j + 1))
    (hpassed : ∀ k ≤ j, passed (triage_deadline ans deadline)
      (ans.triage_clock (MAX_READS_IN_FLIGHT * k)) = false) : triaged ans deadline i = true := by
  refine List.all_eq_true.mpr fun k hk => ?_
  have hdiv : i / MAX_READS_IN_FLIGHT < j + 1 := Nat.div_lt_of_lt_mul hj
  rw [hpassed k (by have := List.mem_range.mp hk; omega)]
  rfl

/-- What a thread meets in the triage, in the order in which it is asked about. -/
theorem triage_fate_cases (i : ℕ) :
    (triaged ans deadline i = false ∧ triage_fate ans a deadline i = some .budget) ∨
    (triaged ans deadline i = true ∧ (
      (name_passes ans a i = false ∧ triage_fate ans a deadline i = some .name) ∨
      (name_passes ans a i = true ∧ (
        (ans.status i = none ∧ triage_fate ans a deadline i = some .vanished) ∨
        ∃ s, ans.status i = some s ∧ (
          ((a.only_suspended && s.2 = 0) = true ∧ triage_fate ans a deadline i = some .state) ∨
          ((a.only_suspended && s.2 = 0) = false ∧ triage_fate ans a deadline i = none)))))) := by
  unfold triage_fate
  cases triaged ans deadline i with
  | false => simp
  | true =>
    cases name_passes ans a i with
    | false => simp
    | true =>
      rcases ans.status i with _ | s
      · simp
      · by_cases hstate : (a.only_suspended && s.2 = 0) = true
        · rw [Bool.and_eq_true, decide_eq_true_eq] at hstate
          simp [hstate]
        · have hstays := hstate
          rw [Bool.and_eq_true, decide_eq_true_eq, not_and] at hstays
          simpa [hstate] using hstays

theorem triage_fate_ne_budget {i : ℕ} (h : triaged ans deadline i = true) :
    triage_fate ans a deadline i ≠ some .budget := by
  rcases @triage_fate_cases ans a deadline i with
    ⟨hf, -⟩ | ⟨-, ⟨-, hfate⟩ | ⟨-, ⟨-, hfate⟩ | ⟨s, -, ⟨-, hfate⟩ | ⟨-, hfate⟩⟩⟩⟩
  · rw [h] at hf
    exact absurd hf (by decide)
  all_goals simp [hfate]

theorem triage_windows_nil (fuel triaged : ℕ) (t : DumpTriage) :
    triage_windows ans a all deadline fuel [] triaged t = t := by
  cases fuel <;> rfl

/-- What the windows from the one at `j` on add to what is known. -/
theorem triage_windows_spec (fuel j : ℕ) (rest : List ThreadId)
    (hrest : rest = all.drop (MAX_READS_IN_FLIGHT * j)) (hfuel : rest.length ≤ fuel)
    (hpassed : ∀ k < j, passed (triage_deadline ans deadline)
      (ans.triage_clock (MAX_READS_IN_FLIGHT * k)) = false) (t : DumpTriage) (ht : t.untriaged = 0)
    :
    triage_windows ans a all deadline fuel rest (MAX_READS_IN_FLIGHT * j) t =
      let left := List.range' (MAX_READS_IN_FLIGHT * j) rest.length
      ⟨t.candidates ++ (left.filter fun i => triage_fate ans a deadline i = none).map
          (candidate ans all),
        left.countP fun i => triage_fate ans a deadline i = some .budget,
        t.vanished + left.countP fun i => triage_fate ans a deadline i = some .vanished⟩ := by
  obtain ⟨known, untriaged, gone⟩ := t
  subst ht
  induction fuel generalizing j rest known gone with
  | zero =>
    have hnil : rest = [] := List.length_eq_zero_iff.mp (by omega)
    simp [triage_windows, hnil]
  | succ fuel ih =>
    by_cases hnil : rest = []
    · simp [triage_windows_nil, hnil]
    obtain ⟨tid, rest', hcons⟩ := List.exists_cons_of_ne_nil hnil
    have hlen : rest.length = all.length - MAX_READS_IN_FLIGHT * j := by
      rw [hrest, List.length_drop]
    have hpos : 0 < rest.length := List.length_pos_iff.mpr hnil
    have hstep : triage_windows ans a all deadline (fuel + 1) rest (MAX_READS_IN_FLIGHT * j)
        ⟨known, 0, gone⟩ = if passed (triage_deadline ans deadline)
            (ans.triage_clock (MAX_READS_IN_FLIGHT * j)) then
          ⟨known, all.length - MAX_READS_IN_FLIGHT * j, gone⟩
        else triage_windows ans a all deadline fuel (rest.drop MAX_READS_IN_FLIGHT)
          (MAX_READS_IN_FLIGHT * j + (rest.take MAX_READS_IN_FLIGHT).length)
          ((wanted ans a (rest.take MAX_READS_IN_FLIGHT) (MAX_READS_IN_FLIGHT * j)).foldl
            (triage_one ans a) ⟨known, 0, gone⟩) := by
      rw [hcons]
      rfl
    rw [hstep]
    cases hnow : passed (triage_deadline ans deadline)
        (ans.triage_clock (MAX_READS_IN_FLIGHT * j)) with
    | true =>
      have hfate : ∀ i ∈ List.range' (MAX_READS_IN_FLIGHT * j) rest.length,
          triage_fate ans a deadline i = some .budget := by
        intro i hi
        simp [triage_fate, not_triaged (List.mem_range'_1.mp hi).1 hnow]
      have hbudget : (List.range' (MAX_READS_IN_FLIGHT * j) rest.length).countP
          (fun i => triage_fate ans a deadline i = some .budget) = rest.length := by
        rw [List.countP_eq_length.mpr fun i hi => by simp [hfate i hi], List.length_range']
      have hnone : (List.range' (MAX_READS_IN_FLIGHT * j) rest.length).filter
          (fun i => triage_fate ans a deadline i = none) = [] :=
        List.filter_eq_nil_iff.mpr fun i hi => by simp [hfate i hi]
      have hgone : (List.range' (MAX_READS_IN_FLIGHT * j) rest.length).countP
          (fun i => triage_fate ans a deadline i = some .vanished) = 0 :=
        List.countP_eq_zero.mpr fun i hi => by simp [hfate i hi]
      simp only [if_true, hbudget, hnone, hgone, List.map_nil, List.append_nil, Nat.add_zero,
        ← hlen]
    | false =>
      have hpassed' : ∀ k ≤ j, passed (triage_deadline ans deadline)
          (ans.triage_clock (MAX_READS_IN_FLIGHT * k)) = false := by
        intro k hk
        rcases Nat.lt_or_eq_of_le hk with hk | rfl
        · exact hpassed k hk
        · exact hnow
      have htriaged : ∀ i ∈ List.range' (MAX_READS_IN_FLIGHT * j)
          (min MAX_READS_IN_FLIGHT rest.length), triaged ans deadline i = true := by
        intro i hi
        have h := (List.mem_range'_1.mp hi).2
        exact triaged_of (by rw [Nat.mul_succ]; omega) hpassed'
      have hnone : (List.range' (MAX_READS_IN_FLIGHT * j)
          (min MAX_READS_IN_FLIGHT rest.length)).countP
            (fun i => triage_fate ans a deadline i = some .budget) = 0 :=
        List.countP_eq_zero.mpr fun i hi => by simp [triage_fate_ne_budget (htriaged i hi)]
      rw [if_neg Bool.false_ne_true, zipIdx_window _ _ hrest, triage_foldl _ htriaged]
      by_cases hlong : MAX_READS_IN_FLIGHT < rest.length
      · have hmin : min MAX_READS_IN_FLIGHT rest.length = MAX_READS_IN_FLIGHT := by omega
        have hsplit : List.range' (MAX_READS_IN_FLIGHT * j) rest.length =
            List.range' (MAX_READS_IN_FLIGHT * j) MAX_READS_IN_FLIGHT ++
              List.range' (MAX_READS_IN_FLIGHT * (j + 1)) (rest.length - MAX_READS_IN_FLIGHT) := by
          rw [Nat.mul_succ, List.range'_append_1]
          congr 1
          omega
        have hwidth : 0 < MAX_READS_IN_FLIGHT := by decide
        have hrest' := ih (j + 1) (rest.drop MAX_READS_IN_FLIGHT)
          (by rw [hrest, List.drop_drop, Nat.mul_succ]) (by rw [List.length_drop]; omega)
          fun k hk => hpassed' k (by omega)
        rw [hmin] at hnone
        rw [List.length_take, hmin, ← Nat.mul_succ, hrest', hsplit, List.length_drop]
        simp only [List.filter_append, List.map_append, List.countP_append, hnone, Nat.zero_add,
          List.append_assoc, Nat.add_assoc]
      · have hmin : min MAX_READS_IN_FLIGHT rest.length = rest.length := by omega
        have hdrop : rest.drop MAX_READS_IN_FLIGHT = [] := List.drop_eq_nil_of_le (by omega)
        rw [hmin] at hnone
        rw [hdrop, triage_windows_nil, hmin]
        simp only [hnone]

theorem triage_dump_threads_spec : triage_dump_threads ans a all deadline =
    ⟨(eligible ans a all deadline).map (candidate ans all),
      lost ans a all deadline .budget, lost ans a all deadline .vanished⟩ := by
  have h := @triage_windows_spec ans a all deadline all.length 0 all rfl
    (le_refl _) (fun k hk => absurd hk k.not_lt_zero) ⟨[], 0, 0⟩ rfl
  simpa only [triage_dump_threads, eligible, lost, List.range_eq_range', List.nil_append,
    Nat.mul_zero, Nat.zero_add] using h

end Triage

section Picks

variable {ans : Answers} {deadline : Option ℕ}

theorem read_from_succ (limit taken left : ℕ) : read_from ans deadline limit taken (left + 1) =
    if taken < limit ∧ passed deadline (ans.clock taken) = false then
      read_from ans deadline limit (taken + 1) left + 1
    else 0 := by
  simp only [read_from, List.range'_succ, List.takeWhile_cons, Bool.and_eq_true, decide_eq_true_eq,
    Bool.not_eq_true']
  by_cases h : taken < limit ∧ passed deadline (ans.clock taken) = false
  · rw [if_pos h, if_pos h, List.length_cons]
  · rw [if_neg h, if_neg h, List.length_nil]

theorem read_picks_spec {candidates : List DumpCandidate} (limit total : ℕ) (order : List ℕ)
    (horder : ∀ pick ∈ order, pick < candidates.length) (picked : List DumpCandidate)
    (htotal : total = picked.length + order.length) (unread : ℕ) :
    read_picks ans deadline limit total candidates order picked.length picked unread =
      let n := read_from ans deadline limit picked.length order.length
      (picked ++ (order.take n).filterMap fun pick => candidates[pick]?,
        unread + if picked.length + n < limit then total - (picked.length + n) else 0) := by
  induction order generalizing picked with
  | nil =>
    simp [read_picks, read_from, htotal]
  | cons pick rest ih =>
    have hpick := horder pick List.mem_cons_self
    rw [List.length_cons] at htotal ⊢
    unfold read_picks
    rw [read_from_succ]
    by_cases hlimit : limit ≤ picked.length
    · have hfull : ¬ picked.length < limit := by omega
      simp [hlimit, hfull]
    · have hroom : picked.length < limit := by omega
      cases hnow : passed deadline (ans.clock picked.length) with
      | true =>
        simp [hlimit, hroom]
      | false =>
        have h := ih (fun p hp => horder p (List.mem_cons_of_mem pick hp))
          (picked ++ [candidates[pick]]) (by simp; omega)
        rw [List.length_append, List.length_singleton] at h
        rw [if_neg hlimit, if_neg Bool.false_ne_true, List.getElem?_eq_getElem hpick,
          if_pos ⟨hroom, rfl⟩]
        simp only [h, List.take_succ_cons, List.filterMap_cons, List.getElem?_eq_getElem hpick,
          List.append_assoc, List.singleton_append, Nat.add_assoc, Nat.add_comm 1]

end Picks

section Rows

variable (ans : Answers) (a : ThreadDumpArgs) (all : List ThreadId) (deadline : Option ℕ)

theorem names_eq : ((eligible ans a all deadline).map (candidate ans all)).map DumpCandidate.name =
    (eligible ans a all deadline).map fun i => (ans.name i).getD "" := by
  rw [List.map_map]
  rfl

theorem reached_le : reached ans a all deadline ≤ (eligible ans a all deadline).length :=
  (List.takeWhile_prefix _).length_le.trans List.length_range'.le

theorem picks_lt {pick : ℕ} (h : pick ∈ (family_round_robin
    ((eligible ans a all deadline).map fun i => (ans.name i).getD "")).1) :
    pick < (eligible ans a all deadline).length := by
  have hrange := (order_perm _).mem_iff.mp h
  rwa [List.mem_range, List.length_map] at hrange

variable {i : ℕ}

theorem mem_eligible : i ∈ eligible ans a all deadline ↔
    i < all.length ∧ triage_fate ans a deadline i = none := by
  rw [eligible, List.mem_filter, List.mem_range, decide_eq_true_eq]

theorem chosen_subset (h : i ∈ chosen ans a all deadline) : i ∈ eligible ans a all deadline := by
  obtain ⟨pick, hpick, rfl⟩ := List.mem_map.mp h
  have hlt := picks_lt ans a all deadline (List.mem_of_mem_take hpick)
  rw [List.getD_eq_getElem _ _ hlt]
  exact List.getElem_mem hlt

theorem nodup_chosen : (chosen ans a all deadline).Nodup := by
  refine List.Nodup.map_on ?_ (((order_perm _).nodup_iff.mpr List.nodup_range).sublist
    (List.take_sublist _ _))
  intro pick hpick pick' hpick' heq
  have hlt := picks_lt ans a all deadline (List.mem_of_mem_take hpick)
  have hlt' := picks_lt ans a all deadline (List.mem_of_mem_take hpick')
  rw [List.getD_eq_getElem _ _ hlt, List.getD_eq_getElem _ _ hlt'] at heq
  exact (List.nodup_range.filter _).getElem_inj_iff.mp heq

theorem length_chosen : (chosen ans a all deadline).length = reached ans a all deadline := by
  have hlen := (order_perm ((eligible ans a all deadline).map fun i =>
    (ans.name i).getD "")).length_eq
  rw [List.length_range, List.length_map] at hlen
  rw [chosen, List.length_map, List.length_take, hlen]
  exact Nat.min_eq_left (reached_le ans a all deadline)

theorem fate_shown : fate ans a all deadline i = .shown ↔ i ∈ chosen ans a all deadline := by
  unfold fate
  cases hfate : triage_fate ans a deadline i with
  | some cause =>
    refine iff_of_false (by simp) fun h => ?_
    have hnone := ((mem_eligible ans a all deadline).mp (chosen_subset ans a all deadline h)).2
    rw [hfate] at hnone
    exact Option.some_ne_none _ hnone
  | none =>
    by_cases h : i ∈ chosen ans a all deadline
    · simp [h]
    · by_cases hreached : reached ans a all deadline < max a.limit 1 <;> simp [h, hreached]

theorem sorted_chosen : (chosen ans a all deadline).insertionSort (· ≤ ·) =
    (List.range all.length).filter fun i => fate ans a all deadline i = .shown := by
  refine List.Perm.eq_of_pairwise' (List.pairwise_insertionSort _ _)
    (List.pairwise_le_range.filter _) ?_
  refine (List.perm_insertionSort _ _).trans ?_
  refine (List.perm_ext_iff_of_nodup (nodup_chosen ans a all deadline)
    (List.nodup_range.filter _)).mpr fun i => ?_
  rw [List.mem_filter, decide_eq_true_eq, fate_shown, List.mem_range]
  exact ⟨fun h => ⟨((mem_eligible ans a all deadline).mp
    (chosen_subset ans a all deadline h)).1, h⟩, fun h => h.2⟩

theorem read_spec : let triage := triage_dump_threads ans a all deadline
    let order := (family_round_robin (triage.candidates.map DumpCandidate.name)).1
    read_picks ans deadline (max a.limit 1) order.length triage.candidates order 0 []
        triage.untriaged =
      ((chosen ans a all deadline).map (candidate ans all), triage.untriaged +
        if reached ans a all deadline < max a.limit 1 then
          (eligible ans a all deadline).length - reached ans a all deadline else 0) := by
  intro triage order
  have hcandidates : triage.candidates = (eligible ans a all deadline).map (candidate ans all) := by
    rw [show triage = _ from triage_dump_threads_spec]
  have horder : order = (family_round_robin
      ((eligible ans a all deadline).map fun i => (ans.name i).getD "")).1 := by
    rw [← names_eq, ← hcandidates]
  have hlen : order.length = (eligible ans a all deadline).length := by
    rw [horder, (order_perm _).length_eq, List.length_range, List.length_map]
  have hlt : ∀ pick ∈ order, pick < (eligible ans a all deadline).length := by
    rw [horder]
    exact fun pick => picks_lt ans a all deadline
  have h := @read_picks_spec ans deadline triage.candidates
    (max a.limit 1) order.length order (by simpa [hcandidates] using hlt) [] (by simp)
    triage.untriaged
  have hpicks : ∀ picks : List ℕ, (∀ pick ∈ picks, pick < (eligible ans a all deadline).length) →
      picks.filterMap (fun pick => triage.candidates[pick]?) =
        (picks.map fun pick => (eligible ans a all deadline).getD pick 0).map
          (candidate ans all) := by
    intro picks hpicks
    rw [List.map_map, ← List.filterMap_eq_map]
    refine List.filterMap_congr fun pick hpick => ?_
    simp [hcandidates, List.getElem?_eq_getElem (hpicks pick hpick)]
  rw [List.length_nil] at h
  rw [h, hlen]
  simp only [List.nil_append, Nat.zero_add]
  rw [hpicks _ fun pick hpick => hlt pick (List.mem_of_mem_take hpick), horder]
  rfl

variable (can_monitors : Bool)

theorem collect_rows :
    (collect_dump_rows ans a all deadline can_monitors).rows =
      ((List.range all.length).filter fun i => fate ans a all deadline i = .shown).map
        fun i => dump_row ans a can_monitors (candidate ans all i) := by
  have hsort : ((chosen ans a all deadline).map (candidate ans all)).insertionSort
      (fun c c' => c.seen ≤ c'.seen) =
        ((chosen ans a all deadline).insertionSort (· ≤ ·)).map (candidate ans all) :=
    (List.map_insertionSort (· ≤ ·) (fun c c' : DumpCandidate => c.seen ≤ c'.seen)
      (candidate ans all) _ fun _ _ _ _ => Iff.rfl).symm
  simp only [collect_dump_rows, read_spec]
  rw [hsort, sorted_chosen, List.map_map]
  rfl

theorem collect_unread :
    (collect_dump_rows ans a all deadline can_monitors).unread =
      lost ans a all deadline .budget +
        if reached ans a all deadline < max a.limit 1 then
          (eligible ans a all deadline).length - reached ans a all deadline else 0 := by
  simp only [collect_dump_rows, read_spec]
  rw [triage_dump_threads_spec]

theorem collect_vanished :
    (collect_dump_rows ans a all deadline can_monitors).vanished =
      lost ans a all deadline .vanished := by
  simp only [collect_dump_rows, triage_dump_threads_spec]

end Rows

section Counts

variable (ans : Answers) (a : ThreadDumpArgs) (all : List ThreadId) (deadline : Option ℕ)

theorem countP_chosen : (eligible ans a all deadline).countP
    (fun i => i ∉ chosen ans a all deadline) =
      (eligible ans a all deadline).length - reached ans a all deadline := by
  have hperm : ((eligible ans a all deadline).filter fun i => i ∈ chosen ans a all deadline).Perm
      (chosen ans a all deadline) := by
    refine (List.perm_ext_iff_of_nodup ((List.nodup_range.filter _).filter _)
      (nodup_chosen ans a all deadline)).mpr fun i => ?_
    rw [List.mem_filter, decide_eq_true_eq]
    exact ⟨fun h => h.2, fun h => ⟨chosen_subset ans a all deadline h, h⟩⟩
  have hcount := hperm.length_eq
  rw [length_chosen, ← List.countP_eq_length_filter] at hcount
  have hsum := List.length_eq_countP_add_countP (fun i => decide (i ∈ chosen ans a all deadline))
    (l := eligible ans a all deadline)
  simp only [decide_eq_true_eq, hcount] at hsum
  omega

theorem countP_left (cause : Cause) : (List.range all.length).countP
    (fun i => fate ans a all deadline i = .left cause) =
      lost ans a all deadline cause +
        if cause = (if reached ans a all deadline < max a.limit 1 then .budget else .limit) then
          (eligible ans a all deadline).length - reached ans a all deadline else 0 := by
  have hsplit := (List.range all.length).countP_eq_countP_filter_add
  have heligible : (eligible ans a all deadline).countP
      (fun i => fate ans a all deadline i = .left cause) =
        if cause = (if reached ans a all deadline < max a.limit 1 then .budget else .limit) then
          (eligible ans a all deadline).length - reached ans a all deadline else 0 := by
    have hfate : ∀ i ∈ eligible ans a all deadline, fate ans a all deadline i =
        if i ∈ chosen ans a all deadline then .shown
        else .left (if reached ans a all deadline < max a.limit 1 then .budget else .limit) := by
      intro i hi
      rw [fate, ((mem_eligible ans a all deadline).mp hi).2]
      by_cases h : i ∈ chosen ans a all deadline
      · simp only [h, if_true]
      · simp only [h, if_false, apply_ite Fate.left]
    by_cases hcause : cause = if reached ans a all deadline < max a.limit 1 then .budget else .limit
    · rw [if_pos hcause, ← countP_chosen]
      refine List.countP_congr fun i hi => ?_
      rw [hfate i hi, ← hcause]
      by_cases h : i ∈ chosen ans a all deadline <;> simp [h]
    · rw [if_neg hcause, List.countP_eq_zero]
      intro i hi
      rw [hfate i hi]
      by_cases h : i ∈ chosen ans a all deadline
      · simp [h]
      · simpa [h] using Ne.symm hcause
  have hnone : (eligible ans a all deadline).countP
      (fun i => triage_fate ans a deadline i = some cause) = 0 := by
    refine List.countP_eq_zero.mpr fun i hi => ?_
    simp [((mem_eligible ans a all deadline).mp hi).2]
  rw [lost, hsplit _ fun i => triage_fate ans a deadline i = none,
    hsplit (fun i => decide (triage_fate ans a deadline i = some cause))
      fun i => triage_fate ans a deadline i = none]
  rw [← eligible, heligible, hnone, Nat.zero_add, Nat.add_comm]
  congr 1
  refine List.countP_congr fun i hi => ?_
  obtain ⟨other, hother⟩ := Option.ne_none_iff_exists'.mp (by simpa using (List.mem_filter.mp hi).2)
  simp [fate, hother]

theorem length_eq_fates : all.length = (eligible ans a all deadline).length +
    (lost ans a all deadline .name + lost ans a all deadline .state +
      lost ans a all deadline .vanished + lost ans a all deadline .budget) := by
  have hsum : ∀ l : List ℕ, l.length = l.countP (fun i => triage_fate ans a deadline i = none) +
      (l.countP (fun i => triage_fate ans a deadline i = some .name) +
        l.countP (fun i => triage_fate ans a deadline i = some .state) +
        l.countP (fun i => triage_fate ans a deadline i = some .vanished) +
        l.countP fun i => triage_fate ans a deadline i = some .budget) := by
    intro l
    induction l with
    | nil => rfl
    | cons i l ih =>
      simp only [List.length_cons, List.countP_cons, ih]
      rcases @triage_fate_cases ans a deadline i with
        ⟨-, hfate⟩ | ⟨-, ⟨-, hfate⟩ | ⟨-, ⟨-, hfate⟩ | ⟨s, -, ⟨-, hfate⟩ | ⟨-, hfate⟩⟩⟩⟩
      all_goals
        simp [hfate]
        omega
  have h := hsum (List.range all.length)
  rwa [List.length_range, List.countP_eq_length_filter, ← eligible] at h

end Counts

section Accounts

variable (ans : Answers) (a : ThreadDumpArgs) (all : List ThreadId) (deadline : Option ℕ)
  (can_monitors : Bool)

/-- What makes a cause true of the thread at `i`. -/
def TrueOf (i : ℕ) : Cause → Prop
  | .name => ∃ name, ans.name i = some name ∧
      matches_filter ans.to_lowercase (name_filter ans a) name = false
  | .state => a.only_suspended = true ∧ ∃ ts, ans.status i = some (ts, 0)
  | .vanished => ans.gone i = true
  | .limit => reached ans a all deadline = max a.limit 1
  | .budget => triaged ans deadline i = false ∨
      passed deadline (ans.clock (reached ans a all deadline)) = true

/-- Each listed thread is shown once, or counted once under a cause that is true of it. -/
structure Accounted : Prop where
  rows : (collect_dump_rows ans a all deadline can_monitors).rows =
    ((List.range all.length).filter fun i => fate ans a all deadline i = .shown).map
      fun i => dump_row ans a can_monitors (candidate ans all i)
  counts : ∀ cause, counted all (collect_dump_rows ans a all deadline can_monitors) cause =
    (List.range all.length).countP fun i => fate ans a all deadline i = .left cause
  causes : ∀ i < all.length, ∀ cause, fate ans a all deadline i = .left cause →
    TrueOf ans a all deadline i cause

/-- The budget lasts, no filter leaves a thread out, and a thread without a status has ended. -/
structure Complete : Prop where
  triaged : ∀ k, MAX_READS_IN_FLIGHT * k < all.length →
    passed (triage_deadline ans deadline) (ans.triage_clock (MAX_READS_IN_FLIGHT * k)) = false
  read : ∀ k < min (max a.limit 1) ((List.range all.length).countP fun i => (ans.status i).isSome),
    passed deadline (ans.clock k) = false
  names : ∀ i < all.length, name_passes ans a i = true
  states : ∀ i < all.length, ∀ s, ans.status i = some s →
    (a.only_suspended && s.2 = 0) = false
  ended : ∀ i < all.length, ans.status i = none → ans.gone i = true

theorem length_rows : (collect_dump_rows ans a all deadline can_monitors).rows.length =
    reached ans a all deadline := by
  rw [collect_rows, List.length_map, ← sorted_chosen, List.length_insertionSort, length_chosen]

theorem unfiltered_iff : (∀ i < all.length, triage_fate ans a deadline i = none ∨
      triage_fate ans a deadline i = some .vanished) ↔
    lost ans a all deadline .name = 0 ∧ lost ans a all deadline .state = 0 ∧
      lost ans a all deadline .budget = 0 := by
  simp only [lost, List.countP_eq_zero, List.mem_range, decide_eq_true_eq, ← forall_and]
  refine forall₂_congr fun i _ => ?_
  rcases @triage_fate_cases ans a deadline i with
    ⟨-, hfate⟩ | ⟨-, ⟨-, hfate⟩ | ⟨-, ⟨-, hfate⟩ | ⟨s, -, ⟨-, hfate⟩ | ⟨-, hfate⟩⟩⟩⟩
  all_goals simp [hfate]

theorem counts_iff : (∀ cause,
      counted all (collect_dump_rows ans a all deadline can_monitors) cause =
        (List.range all.length).countP fun i => fate ans a all deadline i = .left cause) ↔
    (∀ i < all.length, triage_fate ans a deadline i = none ∨
      triage_fate ans a deadline i = some .vanished) ∧
    (reached ans a all deadline < max a.limit 1 →
      (eligible ans a all deadline).length ≤ reached ans a all deadline) := by
  have hsum := length_eq_fates ans a all deadline
  have hreached := reached_le ans a all deadline
  have hnever : lost ans a all deadline .limit = 0 := by
    refine List.countP_eq_zero.mpr fun i _ => ?_
    rcases @triage_fate_cases ans a deadline i with
      ⟨-, hfate⟩ | ⟨-, ⟨-, hfate⟩ | ⟨-, ⟨-, hfate⟩ | ⟨s, -, ⟨-, hfate⟩ | ⟨-, hfate⟩⟩⟩⟩
    all_goals simp [hfate]
  rw [unfiltered_iff]
  simp only [countP_left]
  constructor
  · intro h
    have hname := h .name
    have hstate := h .state
    have hall := h .limit
    by_cases hlimit : reached ans a all deadline < max a.limit 1
    all_goals
      simp only [counted, dump_shortfall, length_rows, collect_vanished, hlimit, if_true,
        reduceCtorEq, if_false] at hname hstate hall
      omega
  · rintro ⟨⟨hname, hstate, hbudget⟩, hall⟩ cause
    by_cases hlimit : reached ans a all deadline < max a.limit 1
    · have hread := hall hlimit
      cases cause
      all_goals
        simp only [counted, dump_shortfall, length_rows, collect_vanished, collect_unread, hlimit,
          if_true, reduceCtorEq, if_false] <;> omega
    · cases cause
      all_goals
        simp only [counted, dump_shortfall, length_rows, collect_vanished, collect_unread, hlimit,
          if_true, reduceCtorEq, if_false] <;> omega

theorem read_from_full (limit taken left : ℕ) :
    (taken + read_from ans deadline limit taken left < limit →
        left ≤ read_from ans deadline limit taken left) ↔
      ∀ k, taken ≤ k → k < min limit (taken + left) → passed deadline (ans.clock k) = false := by
  induction left generalizing taken with
  | zero =>
    refine iff_of_true (fun _ => Nat.zero_le _) fun k hk hlt => ?_
    omega
  | succ left ih =>
    rw [read_from_succ]
    by_cases h : taken < limit ∧ passed deadline (ans.clock taken) = false
    · have hi := ih (taken + 1)
      rw [if_pos h, Nat.succ_le_succ_iff, ← Nat.add_assoc, Nat.add_right_comm, hi]
      constructor
      · intro hk k hle hlt
        rcases Nat.eq_or_lt_of_le hle with rfl | hle
        · exact h.2
        · exact hk k hle (by omega)
      · exact fun hk k hle hlt => hk k (by omega) (by omega)
    · rw [if_neg h]
      constructor
      · intro hk k hle hlt
        omega
      · intro hk hlt
        exact absurd ⟨hlt, hk taken (le_refl _) (by omega)⟩ h

theorem read_from_le (limit taken left : ℕ) (h : taken ≤ limit) :
    taken + read_from ans deadline limit taken left ≤ limit := by
  induction left generalizing taken with
  | zero => exact h
  | succ left ih =>
    rw [read_from_succ]
    by_cases hread : taken < limit ∧ passed deadline (ans.clock taken) = false
    · rw [if_pos hread]
      have hi := ih (taken + 1) hread.1
      omega
    · rwa [if_neg hread]

theorem triaged_iff (i : ℕ) : triaged ans deadline i = true ↔ ∀ k, MAX_READS_IN_FLIGHT * k ≤ i →
    passed (triage_deadline ans deadline) (ans.triage_clock (MAX_READS_IN_FLIGHT * k)) = false := by
  simp only [triaged, List.all_eq_true, List.mem_range, Nat.lt_succ_iff, Bool.not_eq_true']
  refine forall_congr' fun k => ?_
  rw [Nat.le_div_iff_mul_le (by decide), Nat.mul_comm]

/-- What each thread has to meet for no filter and no deadline to leave it out. -/
theorem fate_iff (i : ℕ) : (triage_fate ans a deadline i = none ∨
      triage_fate ans a deadline i = some .vanished) ↔
    triaged ans deadline i = true ∧ name_passes ans a i = true ∧
      ∀ s, ans.status i = some s → (a.only_suspended && s.2 = 0) = false := by
  rcases @triage_fate_cases ans a deadline i with
    ⟨ht, hfate⟩ | ⟨ht, ⟨hn, hfate⟩ | ⟨hn, ⟨hs, hfate⟩ | ⟨s, hs, ⟨hp, hfate⟩ | ⟨hp, hfate⟩⟩⟩⟩
  · simp [ht, hfate]
  · simp [hn, hfate]
  · simp [ht, hn, hs, hfate]
  · refine iff_of_false (by simp [hfate]) fun h => ?_
    rw [h.2.2 s hs] at hp
    exact Bool.false_ne_true hp
  · refine iff_of_true (Or.inl hfate) ⟨ht, hn, fun s' hs' => ?_⟩
    rw [hs, Option.some_inj] at hs'
    rwa [← hs']

theorem length_eligible (h : ∀ i < all.length, triage_fate ans a deadline i = none ∨
    triage_fate ans a deadline i = some .vanished) : (eligible ans a all deadline).length =
      (List.range all.length).countP fun i => (ans.status i).isSome := by
  rw [eligible, ← List.countP_eq_length_filter]
  refine List.countP_congr fun i hi => ?_
  have hmet := h i (List.mem_range.mp hi)
  rcases @triage_fate_cases ans a deadline i with
    ⟨-, hfate⟩ | ⟨-, ⟨-, hfate⟩ | ⟨-, ⟨hs, hfate⟩ | ⟨s, hs, ⟨-, hfate⟩ | ⟨-, hfate⟩⟩⟩⟩
  all_goals simp_all

theorem vanished_status {i : ℕ} (h : fate ans a all deadline i = .left .vanished) :
    ans.status i = none := by
  unfold fate at h
  rcases @triage_fate_cases ans a deadline i with
    ⟨-, hfate⟩ | ⟨-, ⟨-, hfate⟩ | ⟨-, ⟨hs, hfate⟩ | ⟨s, hs, ⟨-, hfate⟩ | ⟨-, hfate⟩⟩⟩⟩
  · simp [hfate] at h
  · simp [hfate] at h
  · exact hs
  · simp [hfate] at h
  · by_cases hc : i ∈ chosen ans a all deadline
    · simp [hfate, hc] at h
    · by_cases hl : reached ans a all deadline < max a.limit 1 <;> simp [hfate, hc, hl] at h

/-- The account a dump gives is right exactly when the dump is complete up to its limit. -/
theorem accounted_iff : Accounted ans a all deadline can_monitors ↔
    Complete ans a all deadline := by
  have hread := @read_from_full ans deadline (max a.limit 1) 0
    (eligible ans a all deadline).length
  simp only [Nat.zero_le, true_implies, Nat.zero_add] at hread
  constructor
  · intro h
    obtain ⟨hfates, hall⟩ := (counts_iff ans a all deadline can_monitors).mp h.counts
    have hmet := fun i hi => (fate_iff ans a deadline i).mp (hfates i hi)
    refine ⟨fun k hk => (triaged_iff ans deadline _).mp (hmet _ hk).1 k (le_refl _), ?_,
      fun i hi => (hmet i hi).2.1, fun i hi => (hmet i hi).2.2, fun i hi hstatus => ?_⟩
    · rw [← length_eligible ans a all deadline hfates]
      exact hread.mp hall
    · refine h.causes i hi .vanished ?_
      rcases @triage_fate_cases ans a deadline i with
        ⟨-, hfate⟩ | ⟨-, ⟨-, hfate⟩ | ⟨-, ⟨-, hfate⟩ | ⟨s, hs, -⟩⟩⟩
      all_goals have hmet' := hfates i hi
      all_goals simp_all [fate]
  · intro h
    have hfates : ∀ i < all.length, triage_fate ans a deadline i = none ∨
        triage_fate ans a deadline i = some .vanished := fun i hi =>
      (fate_iff ans a deadline i).mpr ⟨(triaged_iff ans deadline i).mpr fun k hk =>
        h.triaged k (lt_of_le_of_lt hk hi), h.names i hi, h.states i hi⟩
    have hall := hread.mpr (by
      rw [length_eligible ans a all deadline hfates]
      exact h.read)
    refine ⟨collect_rows ans a all deadline can_monitors,
      (counts_iff ans a all deadline can_monitors).mpr ⟨hfates, hall⟩, fun i hi cause hcause => ?_⟩
    rcases hfates i hi with hnone | hgone
    · have hi' := (mem_eligible ans a all deadline).mpr ⟨hi, hnone⟩
      rw [fate, hnone] at hcause
      by_cases hc : i ∈ chosen ans a all deadline
      · simp [hc] at hcause
      · by_cases hl : reached ans a all deadline < max a.limit 1
        · have hmissed : 0 < (eligible ans a all deadline).countP
              (fun i => i ∉ chosen ans a all deadline) :=
            List.countP_pos_iff.mpr ⟨i, hi', decide_eq_true hc⟩
          rw [countP_chosen] at hmissed
          have hread' := hall hl
          change _ ≤ reached ans a all deadline at hread'
          omega
        · simp only [hc, hl, if_false, Fate.left.injEq] at hcause
          rw [← hcause]
          have hle := @read_from_le ans deadline (max a.limit 1) 0
            (eligible ans a all deadline).length (Nat.zero_le _)
          change 0 + reached ans a all deadline ≤ _ at hle
          change reached ans a all deadline = _
          omega
    · have hvanished : fate ans a all deadline i = .left .vanished := by simp [fate, hgone]
      rw [hvanished, Fate.left.injEq] at hcause
      rw [← hcause]
      exact h.ended i hi (vanished_status ans a all deadline hvanished)

end Accounts

section Groups

/-- The two rows say the same, but for the thread they are of. -/
def SameState (r r' : DumpRow) : Prop :=
  (r.status, r.suspended, r.finished) = (r'.status, r'.suspended, r'.finished) ∧
  r.stack = r'.stack ∧ r.frames_hidden = r'.frames_hidden ∧
  thread_name_family r.name = thread_name_family r'.name ∧
  (r.holds, r.waiting_on, r.monitor_note) = (r'.holds, r'.waiting_on, r'.monitor_note)

/-- Every row stands in one group, and rows that stand together say the same. -/
def Partitioned (rows : List DumpRow) : Prop :=
  (dump_groups rows).flatten.Perm (List.range rows.length) ∧
  ∀ members ∈ dump_groups rows, ∀ i ∈ members, ∀ j ∈ members, ∀ r r',
    rows[i]? = some r → rows[j]? = some r' → SameState r r'

theorem sameState_of_key {r r' : DumpRow} {key : DumpGroupKey} (h : dump_group_key r = some key)
    (h' : dump_group_key r' = some key) : SameState r r' := by
  obtain ⟨id, name, status, suspended, finished, stack, frames_hidden, holds, waiting_on, note⟩ := r
  obtain ⟨id', name', status', suspended', finished', stack', frames_hidden', holds', waiting_on',
    note'⟩ := r'
  unfold dump_group_key at h h'
  rcases stack with (_ | ⟨f, frames⟩) | _ | _
  · simp at h
  · rcases stack' with (_ | ⟨f', frames'⟩) | _ | _
    · simp at h'
    · simp only [Option.some.injEq] at h h'
      rw [← h'] at h
      simp only [DumpGroupKey.mk.injEq, List.cons.injEq] at h
      obtain ⟨h1, h2, h3, h4, ⟨h5, h6⟩, h7, h8, h9, h10⟩ := h
      exact ⟨by simp [h1, h2, h3], by simp [h5, h6], h7, h4, by simp [h8, h9, h10]⟩
    · simp at h'
    · simp at h'
  · simp at h
  · simp at h

theorem partitioned (rows : List DumpRow) : Partitioned rows := by
  have h := groups_group (entry_of rows) (List.range rows.length)
  refine ⟨h.flatten_perm List.nodup_range, fun members hm i hi j hj r r' hr hr' => ?_⟩
  obtain ⟨g, hg, rfl⟩ := List.mem_map.mp hm
  have hkey : entry_of rows i = entry_of rows j :=
    ((h.mem_iff hg i).mp hi).2.trans ((h.mem_iff hg j).mp hj).2.symm
  unfold entry_of at hkey
  rw [hr, hr', Option.bind_some, Option.bind_some] at hkey
  cases hk : dump_group_key r with
  | none =>
    cases hk' : dump_group_key r' with
    | none =>
      rw [hk, hk'] at hkey
      obtain rfl := Sum.inl_injective hkey
      obtain rfl := Option.some_inj.mp (hr.symm.trans hr')
      exact ⟨rfl, rfl, rfl, rfl, rfl⟩
    | some key' => simp [hk, hk'] at hkey
  | some key =>
    cases hk' : dump_group_key r' with
    | none => simp [hk, hk'] at hkey
    | some key' =>
      rw [hk, hk'] at hkey
      exact sameState_of_key hk (Sum.inr_injective hkey ▸ hk')

end Groups

section Dumps

variable (ans : Answers) (a : ThreadDumpArgs) (all : List ThreadId) (deadline : Option ℕ)
  (can_monitors : Bool)

/-- The frames a row shows and those it says are hidden are all the frames of the thread. -/
def FramesAddUp : Prop :=
  ∀ i ∈ chosen ans a all deadline, ∀ frames, ans.frames i = .ok frames → ∀ shown,
    (dump_row ans a can_monitors (candidate ans all i)).stack = .frames shown →
    shown.length + (dump_row ans a can_monitors (candidate ans all i)).frames_hidden = frames.length

/-- No stack that is read is cut short after a frame of it was filtered out. -/
def StacksWhole : Prop :=
  ∀ i ∈ chosen ans a all deadline, (candidate ans all i).suspended = true →
    a.monitors_only = false → ∀ frames, ans.frames i = .ok frames →
    ¬ CutShort (shows ans.to_lowercase (filter_of ans.to_lowercase a.package_filter)) a.max_frames 0
      frames

theorem frames_iff : FramesAddUp ans a all deadline can_monitors ↔
    StacksWhole ans a all deadline := by
  refine forall₂_congr fun i _ => ?_
  by_cases hsuspended : (candidate ans all i).suspended = true
  · cases honly : a.monitors_only with
    | true => simp [dump_row, dump_stack, hsuspended, honly]
    | false =>
      simp only [hsuspended, true_implies]
      refine forall₂_congr fun frames hframes => ?_
      have h := @stack_loop_iff (shows ans.to_lowercase
        (filter_of ans.to_lowercase a.package_filter)) a.max_frames frames.length frames [] 0
        (by simp) 0
      rw [List.length_nil, Nat.sub_zero] at h
      rw [← h]
      have hseen : (candidate ans all i).seen = i := rfl
      simp [dump_row, dump_stack, hsuspended, honly, hseen, hframes, read_dump_stack]
  · simp [dump_row, dump_stack, hsuspended]

/-- A dump accounts for everything it leaves out exactly when it is complete up to its limit and no
stack is cut short after a frame of it was filtered out. -/
theorem accounts_iff : (Accounted ans a all deadline can_monitors ∧
      Partitioned (collect_dump_rows ans a all deadline can_monitors).rows ∧
      FramesAddUp ans a all deadline can_monitors) ↔
    Complete ans a all deadline ∧ StacksWhole ans a all deadline := by
  rw [accounted_iff, frames_iff]
  have hpart := partitioned (collect_dump_rows ans a all deadline can_monitors).rows
  exact ⟨fun h => ⟨h.1, h.2.2⟩, fun h => ⟨h.1, hpart, h.2⟩⟩

/-- A held worker whose first frame a filter hides, and a thread with another name. -/
def filtered_answers : Answers where
  name i := if i = 0 then some "worker" else some "main"
  status _ := some (1, 1)
  gone _ := false
  frames _ := .ok [⟨"java.Pool", "run", none⟩, ⟨"app.Job", "work", none⟩, ⟨"app.Job", "call", none⟩,
    ⟨"app.Main", "main", none⟩]
  owned _ := .ok []
  contended _ := .ok none
  begun := 0
  triage_clock _ := 0
  clock _ := 0
  to_lowercase := id

def filtered_args : ThreadDumpArgs :=
  ⟨some "work", false, 10, 1, some "app", false, false⟩

/-- The reply says that the limit withheld the second thread, and of four frames one is shown and
two are said to be hidden. -/
theorem filtered_dump_misstated :
    ¬ Accounted filtered_answers filtered_args [1, 2] none false ∧
      ¬ FramesAddUp filtered_answers filtered_args [1, 2] none false := by
  constructor
  · intro h
    have hname := h.counts .name
    revert hname
    decide
  · intro h
    have hshown := h 0 (by decide) _ rfl ["#1 app.Job.work"] (by decide)
    revert hshown
    decide

end Dumps

end JavaDebug.DumpAccounts
