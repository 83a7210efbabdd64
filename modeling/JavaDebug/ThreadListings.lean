import JavaDebug.DumpAccounts
import Mathlib.Algebra.Ring.Nat
import Mathlib.Data.List.Dedup

/-!
`debug.list_threads`: the threads whose names pass are chosen by name family, up
to the limit, and shown in the order of the list. Rounds over the families make
the choice: after so many rounds each family has given its first members, one
from each round, and a round that the limit cuts short gives each family one more
or none. So no two families differ by more than one where both have members left.
-/
namespace JavaDebug.ThreadListings

open Grouping ThreadDumps DumpAccounts

section Listing

structure ThreadRow where
  id : ThreadId
  name : String
  status : Option String

structure ThreadListing where
  rows : List ThreadRow
  selection : FamilySelection

/-- What is answered for the thread at each position. -/
structure ListingAnswers where
  name : ℕ → Option String
  status : ℕ → Option (ℤ × ℤ)
  to_lowercase : String → String

variable (ans : ListingAnswers) (all : List ThreadId) (limit : ℕ) (name_filter : Option String)
  (only_suspended : Bool)

def visible : List (ℕ × ThreadId × String) :=
  (all.zipIdx.map fun w => (w.2, w.1, (ans.name w.2).getD "")).filter fun w =>
    matches_filter ans.to_lowercase name_filter w.2.2

/-- The status is read only when it decides; a thread that ended meanwhile is left out. -/
def candidate_row (w : ℕ × ThreadId × String) : Option ThreadRow :=
  if only_suspended then
    match ans.status w.1 with
    | none => none
    | some (ts, ss) => if ss = 0 then none else some ⟨w.2.1, w.2.2, some (thread_status_name ts)⟩
  else some ⟨w.2.1, w.2.2, none⟩

def listing_candidates : List ThreadRow :=
  (visible ans all name_filter).filterMap (candidate_row ans only_suspended)

def collect_thread_rows : ThreadListing :=
  let candidates := listing_candidates ans all name_filter only_suspended
  let names := candidates.map ThreadRow.name
  let order := family_round_robin names
  let picked := (order.1.take limit).insertionSort (· ≤ ·)
  let rows := picked.filterMap fun i => candidates[i]?
  ⟨rows, ⟨candidates.length, order.2,
    withheld_by_family (candidates_by_family names) (rows.map ThreadRow.name)⟩⟩

end Listing

section Fairness

variable (limit : ℕ) (names : List String)

def family_at (i : ℕ) : String := thread_name_family (names.getD i "")

def chosen_first : List ℕ := (family_round_robin names).1.take limit

variable (f : String)

/-- The members of a family, in the order of the list. -/
def members : List ℕ := (List.range names.length).filter fun i => family_at names i = f

def family_size : ℕ := names.countP fun n => thread_name_family n = f

def chosen_of : List ℕ :=
  (chosen_first limit names).filter fun i => family_at names i = f

/-- How many threads a list of counts gives to a family. -/
def counted_for (tally : List (String × ℕ)) : ℕ :=
  ((tally.filter fun e => e.1 = f).map Prod.snd).sum

/-- The order names every index once, and its first places are spread over the families. -/
structure FairSelection : Prop where
  complete : (family_round_robin names).1.Perm (List.range names.length)
  families : (family_round_robin names).2 = (names.map thread_name_family).dedup.length
  fair : ∀ f g, f ≠ g →
    min (family_size names g) ((chosen_of limit names f).length - 1) ≤
      (chosen_of limit names g).length
  in_order : ∀ f, chosen_of limit names f <+: members names f

/-- A listing shows the chosen, and what it withholds of each family, with what it shows, is the
family. -/
structure Accounted (candidates : List ThreadRow) (out : ThreadListing) : Prop where
  shown : ∀ f, family_size (out.rows.map ThreadRow.name) f =
    (chosen_of limit (candidates.map ThreadRow.name) f).length
  withheld : ∀ f, counted_for f out.selection.withheld +
    family_size (out.rows.map ThreadRow.name) f = family_size (candidates.map ThreadRow.name) f

end Fairness

section Rounds

theorem take_rounds (row : ℕ → List ℕ) (n limit : ℕ) :
    ∃ q p, p <+: row q ∧
      ((List.range n).flatMap row).take limit = (List.range q).flatMap row ++ p := by
  induction n with
  | zero => exact ⟨0, [], List.nil_prefix, by simp⟩
  | succ n ih =>
    rw [List.range_succ, List.flatMap_append, List.take_append]
    by_cases hcut : limit ≤ ((List.range n).flatMap row).length
    · obtain ⟨q, p, hp, htake⟩ := ih
      exact ⟨q, p, hp, by rw [htake, Nat.sub_eq_zero_of_le hcut, List.take_zero, List.append_nil]⟩
    · refine ⟨n, (row n).take (limit - ((List.range n).flatMap row).length),
        List.take_prefix _ _, ?_⟩
      rw [List.take_of_length_le (by omega), List.flatMap_singleton]

theorem flatMap_getElem (l : List ℕ) (q : ℕ) :
    ((List.range q).flatMap fun round => l[round]?.toList) = l.take q := by
  induction q with
  | zero => rfl
  | succ q ih =>
    rw [List.range_succ, List.flatMap_append, ih, List.flatMap_singleton, List.take_add_one]

variable {key : ℕ → String}

theorem filter_round (groups : List (String × List ℕ)) (round : ℕ)
    (hkeys : (groups.map Prod.fst).Nodup) (hrows : ∀ g ∈ groups, ∀ i ∈ g.2, key i = g.1)
    (g : String × List ℕ) (hg : g ∈ groups) :
    ((groups.map Prod.snd).filterMap fun members => members[round]?).filter
      (fun i => key i = g.1) = g.2[round]?.toList := by
  have hnone : ∀ rest : List (String × List ℕ), g.1 ∉ rest.map Prod.fst →
      (∀ g' ∈ rest, ∀ i ∈ g'.2, key i = g'.1) →
      ((rest.map Prod.snd).filterMap fun members => members[round]?).filter
        (fun i => key i = g.1) = [] := by
    intro rest hno hrest
    rw [List.filter_eq_nil_iff]
    intro i hi hk
    obtain ⟨members, hm, hget⟩ := List.mem_filterMap.mp hi
    obtain ⟨g', hg', rfl⟩ := List.mem_map.mp hm
    have hkey := hrest g' hg' i (List.mem_of_getElem? hget)
    exact hno (of_decide_eq_true hk ▸ hkey ▸ List.mem_map_of_mem hg')
  induction groups with
  | nil => exact absurd hg List.not_mem_nil
  | cons g' rest ih =>
    rw [List.map_cons, List.nodup_cons] at hkeys
    have hrest : ∀ g ∈ rest, ∀ i ∈ g.2, key i = g.1 := fun g hg =>
      hrows g (List.mem_cons_of_mem g' hg)
    have hfirst : ∀ i, g'.2[round]? = some i → key i = g'.1 := fun i hi =>
      hrows g' List.mem_cons_self i (List.mem_of_getElem? hi)
    rw [List.map_cons, List.filterMap_cons]
    rcases List.mem_cons.mp hg with rfl | hmem
    · have htail := hnone rest hkeys.1 hrest
      rcases hi : g.2[round]? with _ | i
      · exact htail
      · simp only [List.filter_cons, hfirst i hi, decide_true, if_true, htail]
        rfl
    · have hne : g'.1 ≠ g.1 := fun heq => hkeys.1 (heq ▸ List.mem_map_of_mem hmem)
      rcases hi : g'.2[round]? with _ | i
      · exact ih hkeys.2 hrest hmem
      · simp only [List.filter_cons, hfirst i hi, hne, decide_false, Bool.false_eq_true, if_false]
        exact ih hkeys.2 hrest hmem

/-- After so many rounds every group has given as many of its first members, or one more. -/
theorem chosen_rounds (groups : List (String × List ℕ)) (limit : ℕ)
    (hkeys : (groups.map Prod.fst).Nodup) (hrows : ∀ g ∈ groups, ∀ i ∈ g.2, key i = g.1) :
    ∃ q, ∀ g ∈ groups,
      let chosen := ((rounds (groups.map Prod.snd)).take limit).filter fun i => key i = g.1
      chosen = g.2.take q ∨ chosen = g.2.take (q + 1) := by
  obtain ⟨q, p, hp, htake⟩ := take_rounds
    (fun round => (groups.map Prod.snd).filterMap fun members => members[round]?)
    (deepest (groups.map Prod.snd)) limit
  refine ⟨q, fun g hg => ?_⟩
  have hround := fun round => filter_round groups round hkeys hrows g hg
  have hchosen : ((rounds (groups.map Prod.snd)).take limit).filter (fun i => key i = g.1) =
      g.2.take q ++ p.filter fun i => key i = g.1 := by
    rw [rounds, htake, List.filter_append, List.filter_flatMap]
    simp only [hround]
    rw [flatMap_getElem]
  have hpart : (p.filter fun i => key i = g.1) <+: g.2[q]?.toList := by
    rw [← hround q]
    exact hp.filter _
  dsimp only
  rw [hchosen, List.take_add_one]
  rcases hget : g.2[q]? with _ | i
  · rw [hget] at hpart
    exact .inl (by rw [List.prefix_nil.mp hpart, List.append_nil])
  · rw [hget] at hpart
    rcases List.prefix_cons_iff.mp hpart with hnil | ⟨t, ht, hend⟩
    · exact .inl (by rw [hnil, List.append_nil])
    · exact .inr (by rw [ht, List.prefix_nil.mp hend]; rfl)

end Rounds

section Families

variable (names : List String)

theorem names_eq : names = (List.range names.length).map fun i => names.getD i "" := by
  refine List.ext_getElem (by simp) fun i h _ => ?_
  simp [List.getD_eq_getElem?_getD, List.getElem?_eq_getElem h]

theorem countP_at (p : String → Bool) (is : List ℕ) :
    (is.map fun i => names.getD i "").countP p =
      (is.filter fun i => p (names.getD i "")).length := by
  rw [List.countP_map, List.countP_eq_length_filter]
  rfl

theorem family_size_eq (f : String) : family_size names f = (members names f).length := by
  rw [family_size]
  conv_lhs => rw [names_eq names]
  exact countP_at names _ _

/-- The groups that the families are read from. -/
def family_groups : List (String × List ℕ) := group (family_at names) (List.range names.length)

theorem family_groups_groups :
    Groups (family_at names) (List.range names.length) (family_groups names) :=
  groups_group _ _

theorem families_distinct :
    (family_round_robin names).2 = (names.map thread_name_family).dedup.length := by
  have h := family_groups_groups names
  have hperm : ((family_groups names).map Prod.fst).Perm (names.map thread_name_family).dedup := by
    refine (List.perm_ext_iff_of_nodup h.keys (List.nodup_dedup _)).mpr fun f => ?_
    rw [List.mem_dedup]
    conv_rhs => rw [names_eq names, List.map_map]
    constructor
    · intro hf
      obtain ⟨g, hg, rfl⟩ := List.mem_map.mp hf
      obtain ⟨i, hi⟩ := List.exists_mem_of_ne_nil _ (h.inhabited g hg)
      obtain ⟨hin, hkey⟩ := (h.mem_iff hg i).mp hi
      exact List.mem_map.mpr ⟨i, hin, hkey⟩
    · intro hf
      obtain ⟨i, hi, rfl⟩ := List.mem_map.mp hf
      exact h.covered i hi
  rw [← hperm.length_eq, List.length_map]
  exact List.length_map _

/-- The chosen of a family are its first members, as many as there were rounds, or one more. -/
theorem chosen_family (limit : ℕ) : ∃ q, ∀ f,
    chosen_of limit names f = (members names f).take q ∨
      chosen_of limit names f = (members names f).take (q + 1) := by
  have h := family_groups_groups names
  have hrows : ∀ g ∈ family_groups names, ∀ i ∈ g.2, family_at names i = g.1 := fun g hg i hi =>
    ((h.mem_iff hg i).mp hi).2
  obtain ⟨q, hq⟩ := chosen_rounds (family_groups names) limit h.keys hrows
  refine ⟨q, fun f => ?_⟩
  by_cases hf : f ∈ (family_groups names).map Prod.fst
  · obtain ⟨g, hg, rfl⟩ := List.mem_map.mp hf
    rw [members, ← h.rows g hg]
    exact hq g hg
  · have hnone : members names f = [] := by
      rw [members, List.filter_eq_nil_iff]
      intro i hi hk
      exact hf (of_decide_eq_true hk ▸ h.covered i hi)
    have hchosen : chosen_of limit names f = [] := by
      rw [chosen_of, List.filter_eq_nil_iff]
      intro i hi hk
      have hin := (order_perm names).mem_iff.mp (List.mem_of_mem_take hi)
      exact hf (of_decide_eq_true hk ▸ h.covered i hin)
    exact .inl (by rw [hchosen, hnone, List.take_nil])

theorem chosen_take (limit : ℕ) (f : String) : chosen_of limit names f <+: members names f := by
  obtain ⟨q, hq⟩ := chosen_family names limit
  rcases hq f with h | h
  · exact h ▸ List.take_prefix _ _
  · exact h ▸ List.take_prefix _ _

theorem fair_selection (limit : ℕ) : FairSelection limit names where
  complete := order_perm names
  families := families_distinct names
  fair f g _ := by
    obtain ⟨q, hq⟩ := chosen_family names limit
    have hlen : ∀ f, min q (members names f).length ≤ (chosen_of limit names f).length ∧
        (chosen_of limit names f).length ≤ q + 1 := by
      intro f
      rcases hq f with h | h
      all_goals rw [h, List.length_take]; omega
    have hf := (hlen f).2
    have hg := (hlen g).1
    rw [family_size_eq]
    omega
  in_order := chosen_take names limit

end Families

section Withheld

variable (f : String)

theorem counted_cons (e : String × ℕ) (tally : List (String × ℕ)) :
    counted_for f (e :: tally) = (if e.1 = f then e.2 else 0) + counted_for f tally := by
  by_cases h : e.1 = f
  · simp [counted_for, h]
  · simp [counted_for, h]

theorem counted_absent (tally : List (String × ℕ)) (h : f ∉ tally.map Prod.fst) :
    counted_for f tally = 0 := by
  induction tally with
  | nil => rfl
  | cons e tally ih =>
    rw [List.map_cons, List.mem_cons, not_or] at h
    rw [counted_cons, if_neg (Ne.symm h.1), ih h.2]

theorem keys_take_one (k : String) (tally : List (String × ℕ)) :
    (take_one k tally).map Prod.fst = tally.map Prod.fst := by
  induction tally with
  | nil => rfl
  | cons e tally ih =>
    rw [take_one]
    split_ifs
    · rfl
    · rw [List.map_cons, List.map_cons, ih]

/-- One less of the family that a shown name is of. -/
theorem counted_take_one (k f : String) (tally : List (String × ℕ))
    (hkeys : (tally.map Prod.fst).Nodup) :
    counted_for f (take_one k tally) = counted_for f tally - if k = f then 1 else 0 := by
  induction tally with
  | nil => simp [take_one, counted_for]
  | cons e tally ih =>
    rw [List.map_cons, List.nodup_cons] at hkeys
    rw [take_one]
    by_cases hk : e.1 = k
    · rw [if_pos hk, counted_cons, counted_cons]
      by_cases hf : k = f
      · subst hf
        subst hk
        rw [counted_absent _ _ hkeys.1]
        simp
      · have hne : e.1 ≠ f := hk ▸ hf
        simp [hne, hf]
    · rw [if_neg hk, counted_cons, counted_cons, ih hkeys.2]
      by_cases hf : k = f
      · subst hf
        simp [hk]
      · simp [hf]

theorem counted_shown (shown : List String) (tally : List (String × ℕ))
    (hkeys : (tally.map Prod.fst).Nodup) :
    counted_for f (shown.foldl (fun tally name => take_one (thread_name_family name) tally) tally) =
      counted_for f tally - family_size shown f := by
  induction shown generalizing tally with
  | nil => simp [family_size]
  | cons name shown ih =>
    rw [List.foldl_cons, ih _ (by rwa [keys_take_one]), counted_take_one _ _ _ hkeys, family_size,
      family_size, List.countP_cons, Nat.sub_sub, Nat.add_comm]
    simp

theorem counted_withheld (tally : List (String × ℕ)) (shown : List String)
    (hkeys : (tally.map Prod.fst).Nodup) :
    counted_for f (withheld_by_family tally shown) = counted_for f tally - family_size shown f := by
  have hpositive : ∀ l : List (String × ℕ),
      counted_for f (l.filter fun e => 0 < e.2) = counted_for f l := by
    intro l
    induction l with
    | nil => rfl
    | cons e l ih =>
      rw [List.filter_cons, counted_cons]
      by_cases hpos : 0 < e.2
      · simp only [hpos, decide_true, if_true]
        rw [counted_cons, ih]
      · have hzero : e.2 = 0 := by omega
        simp [hzero, ih]
  have hsorted : ∀ (r : String × ℕ → String × ℕ → Prop) [DecidableRel r] (l : List (String × ℕ)),
      counted_for f (l.insertionSort r) = counted_for f l := fun r _ l =>
    (((l.perm_insertionSort r).filter _).map _).sum_nat
  rw [withheld_by_family, hsorted, hpositive, counted_shown f shown tally hkeys]

theorem counted_candidates (names : List String) (f : String) :
    counted_for f (candidates_by_family names) = family_size names f := by
  have h := groups_group thread_name_family names
  rw [candidates_by_family]
  by_cases hf : f ∈ (group thread_name_family names).map Prod.fst
  · obtain ⟨g, hg, rfl⟩ := List.mem_map.mp hf
    obtain ⟨before, after, hsplit⟩ := List.append_of_mem hg
    have hrows := h.rows g hg
    have hkeys := h.keys
    rw [hsplit, List.map_append, List.map_cons, List.nodup_middle, List.nodup_cons] at hkeys
    have hno : counted_for g.1 ((before ++ after).map fun g => (g.1, g.2.length)) = 0 := by
      refine counted_absent _ _ ?_
      rw [List.map_map]
      simpa [Function.comp_def, List.map_append] using hkeys.1
    have hperm : counted_for g.1 ((before ++ g :: after).map fun g => (g.1, g.2.length)) =
        counted_for g.1 ((g :: (before ++ after)).map fun g => (g.1, g.2.length)) :=
      (((List.perm_middle.map _).filter _).map _).sum_nat
    rw [hsplit, hperm, List.map_cons, counted_cons, hno, if_pos rfl, Nat.add_zero, family_size,
      hrows, List.countP_eq_length_filter]
  · have hzero : family_size names f = 0 := by
      rw [family_size, List.countP_eq_zero]
      intro n hn hk
      exact hf (of_decide_eq_true hk ▸ h.covered n hn)
    rw [hzero]
    refine counted_absent _ _ ?_
    rw [List.map_map]
    exact hf

end Withheld

variable (names : List String)

theorem keys_candidates : ((candidates_by_family names).map Prod.fst).Nodup := by
  rw [candidates_by_family, List.map_map]
  exact (groups_group thread_name_family names).keys

/-- What is withheld of a family when some order of the chosen is shown. -/
theorem withheld_and_chosen (limit : ℕ) (shown : List ℕ) (h : shown.Perm (chosen_first limit names))
    (f : String) :
    counted_for f (withheld_by_family (candidates_by_family names)
      (shown.map fun i => names.getD i "")) + (chosen_of limit names f).length =
        family_size names f := by
  have hshown : family_size (shown.map fun i => names.getD i "") f =
      (chosen_of limit names f).length := by
    rw [family_size, countP_at]
    exact (h.filter _).length_eq
  have hle : (chosen_of limit names f).length ≤ family_size names f := by
    rw [family_size_eq]
    exact (chosen_take names limit f).length_le
  rw [counted_withheld f _ _ (keys_candidates names), counted_candidates, hshown]
  omega

theorem picked_names (candidates : List ThreadRow) (picked : List ℕ)
    (h : ∀ i ∈ picked, i < candidates.length) :
    (picked.filterMap fun i => candidates[i]?).map ThreadRow.name =
      picked.map fun i => (candidates.map ThreadRow.name).getD i "" := by
  induction picked with
  | nil => rfl
  | cons i picked ih =>
    have hi := List.getElem?_eq_getElem (h i List.mem_cons_self)
    rw [List.filterMap_cons, hi, List.map_cons, List.map_cons,
      ih fun j hj => h j (List.mem_cons_of_mem i hj)]
    simp [List.getD_eq_getElem?_getD, hi]

/-- The rows that a listing shows are those that the families chose. -/
theorem listing_accounted (ans : ListingAnswers) (all : List ThreadId) (limit : ℕ)
    (name_filter : Option String) (only_suspended : Bool) :
    Accounted limit (listing_candidates ans all name_filter only_suspended)
      (collect_thread_rows ans all limit name_filter only_suspended) := by
  generalize hc : listing_candidates ans all name_filter only_suspended = candidates
  set names := candidates.map ThreadRow.name with hnames
  set picked := ((family_round_robin names).1.take limit).insertionSort (· ≤ ·) with hpicked
  have hout : collect_thread_rows ans all limit name_filter only_suspended =
      ⟨picked.filterMap fun i => candidates[i]?, ⟨candidates.length, (family_round_robin names).2,
        withheld_by_family (candidates_by_family names)
          ((picked.filterMap fun i => candidates[i]?).map ThreadRow.name)⟩⟩ := by
    rw [collect_thread_rows, hc]
  have hpicks : picked.Perm (chosen_first limit names) := List.perm_insertionSort _ _
  have hlt : ∀ i ∈ picked, i < candidates.length := by
    intro i hi
    have hin := (order_perm names).mem_iff.mp (List.mem_of_mem_take (hpicks.mem_iff.mp hi))
    simpa [hnames] using hin
  have hrows := picked_names candidates picked hlt
  have hshown : ∀ f, family_size (picked.map fun i => names.getD i "") f =
      (chosen_of limit names f).length := by
    intro f
    rw [family_size, countP_at]
    exact (hpicks.filter _).length_eq
  rw [hout]
  refine ⟨fun f => ?_, fun f => ?_⟩
  all_goals dsimp only; rw [hrows, hshown]
  exact withheld_and_chosen names limit picked hpicks f

/-- Threads are chosen fairly, and a listing accounts for each of them. -/
theorem threads_chosen_fairly (limit : ℕ) (ans : ListingAnswers) (all : List ThreadId)
    (name_filter : Option String) (only_suspended : Bool) :
    FairSelection limit names ∧
      Accounted limit (listing_candidates ans all name_filter only_suspended)
        (collect_thread_rows ans all limit name_filter only_suspended) ∧
      ∀ f, counted_for f (withheld_by_family (candidates_by_family names)
        ((chosen_first limit names).map fun i => names.getD i "")) +
          (chosen_of limit names f).length = family_size names f :=
  ⟨fair_selection names limit, listing_accounted ans all limit name_filter only_suspended,
    withheld_and_chosen names limit _ (List.Perm.refl _)⟩

end JavaDebug.ThreadListings
