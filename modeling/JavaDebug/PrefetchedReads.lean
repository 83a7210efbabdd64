import JavaDebug.Links

/-!
The first reads of values that are going to be rendered, read in waves and kept
for one pass. A value's first read is its contents if it is a string and its
type if it is another object; a wave asks once for each that is not kept yet. A
kept answer is the answer, failures included, and each wave's reads are spared
when the values are asked, so the pass sends no more than reading one at a time.
-/
namespace JavaDebug.PrefetchedReads

open Dialogue Octets RequestFraming Connection Links
open WireReader (Value)

section Code

def TAG_STRING : UInt8 := 115

inductive FirstRead
  | string_contents (id : ObjectId)
  | reference_type (id : ObjectId)
  deriving DecidableEq

/-- What is kept for an id; a read that failed is kept as `some none`. -/
structure ValueReads where
  strings : ObjectId → Option (Option String)
  types : ObjectId → Option (Option ReferenceTypeId)

def ValueReads.none : ValueReads := ⟨fun _ => Option.none, fun _ => Option.none⟩

def first_read (value : Value) : Option FirstRead :=
  match value.data with
  | .object id =>
    if id = 0 then none
    else if value.tag = TAG_STRING then some (.string_contents id)
    else some (.reference_type id)
  | _ => none

/-- One set of ids seen serves both kinds of read. -/
structure Planned where
  seen : List ObjectId
  string_ids : List ObjectId
  object_ids : List ObjectId

variable (reads : ValueReads)

def plan_value (p : Planned) (value : Value) : Planned :=
  match first_read value with
  | some (.string_contents id) =>
    if (reads.strings id).isNone ∧ id ∉ p.seen then
      { p with seen := id :: p.seen, string_ids := p.string_ids ++ [id] }
    else p
  | some (.reference_type id) =>
    if (reads.types id).isNone ∧ id ∉ p.seen then
      { p with seen := id :: p.seen, object_ids := p.object_ids ++ [id] }
    else p
  | none => p

variable (values : List Value)

def plan : Planned :=
  values.foldl (plan_value reads) ⟨[], [], []⟩

def insert_outcomes {α : Type} (entries : ObjectId → Option (Option α)) (ids : List ObjectId)
    (got : List (JdwpResult α)) : ObjectId → Option (Option α) :=
  (ids.zip got).foldl (fun m r => fun id => if id = r.1 then some r.2.toOption else m id) entries

/-- One kind of read for its ids; nothing is sent for none. -/
def wave_into {α : Type} (read : List ObjectId → Conn (List (JdwpResult α)))
    (entries : ObjectId → Option (Option α)) (ids : List ObjectId) :
    Conn (ObjectId → Option (Option α)) :=
  if ids.isEmpty then pure entries
  else do
    let got ← read ids
    pure (insert_outcomes entries ids got)

def extend_committed : Conn ValueReads := do
  let p := plan reads values
  let strings ← wave_into read_string_values_independently reads.strings p.string_ids
  let types ← wave_into read_reference_types_independently reads.types p.object_ids
  pure ⟨strings, types⟩

def committed : Conn ValueReads := extend_committed .none values

def string_contents (id : ObjectId) : Conn (Option String) :=
  match reads.strings id with
  | some prefetched => pure prefetched
  | none => Except.toOption <$> (get_string_value id).run

def reference_type (id : ObjectId) : Conn (Option ReferenceTypeId) :=
  match reads.types id with
  | some prefetched => pure prefetched
  | none => Except.toOption <$> (get_object_reference_type id).run

end Code

section Answers

variable (d : Debuggee)

def contents_of (id : ObjectId) : Option String := (said d 10 1 (put_u64 id) read_string).toOption

def type_of (id : ObjectId) : Option ReferenceTypeId :=
  (said d 9 1 (put_u64 id) read_reference_type).toOption

/-- Everything kept is what a single read would answer. -/
structure Agrees (reads : ValueReads) : Prop where
  strings : ∀ id kept, reads.strings id = some kept → kept = contents_of d id
  types : ∀ id kept, reads.types id = some kept → kept = type_of d id

/-- What is kept once the planned reads are answered. -/
def extended (reads : ValueReads) (p : Planned) : ValueReads where
  strings id := if id ∈ p.string_ids then some (contents_of d id) else reads.strings id
  types id := if id ∈ p.object_ids then some (type_of d id) else reads.types id

theorem Agrees.none : Agrees d .none where
  strings _ _ h := by simp [ValueReads.none] at h
  types _ _ h := by simp [ValueReads.none] at h

variable (reads : ValueReads)

theorem Agrees.extended (p : Planned) (h : Agrees d reads) :
    Agrees d (extended d reads p) where
  strings id kept hkept := by
    by_cases hid : id ∈ p.string_ids
    · have hin : (PrefetchedReads.extended d reads p).strings id = _ := if_pos hid
      exact (Option.some.inj (hin.symm.trans hkept)).symm
    · have hout : (PrefetchedReads.extended d reads p).strings id = _ := if_neg hid
      exact h.strings id kept (hout.symm.trans hkept)
  types id kept hkept := by
    by_cases hid : id ∈ p.object_ids
    · have hin : (PrefetchedReads.extended d reads p).types id = _ := if_pos hid
      exact (Option.some.inj (hin.symm.trans hkept)).symm
    · have hout : (PrefetchedReads.extended d reads p).types id = _ := if_neg hid
      exact h.types id kept (hout.symm.trans hkept)

variable {α : Type}

theorem insert_outcomes_map (f : ObjectId → JdwpResult α) (ids : List ObjectId)
    (entries : ObjectId → Option (Option α)) :
    insert_outcomes entries ids (ids.map f) =
      fun id => if id ∈ ids then some (f id).toOption else entries id := by
  unfold insert_outcomes
  induction ids generalizing entries with
  | nil => simp
  | cons first ids ih =>
    rw [List.map_cons, List.zip_cons_cons, List.foldl_cons, ih]
    funext id
    by_cases hid : id = first
    · subst hid
      simp
    · simp [hid]

def FirstRead.request : FirstRead → Links.Request
  | .string_contents id => (10, 1, put_u64 id)
  | .reference_type id => (9, 1, put_u64 id)

def Planned.keys (p : Planned) : List FirstRead :=
  p.string_ids.map .string_contents ++ p.object_ids.map .reference_type

theorem Sent.refl (l : Link) : Sent l l [] := ⟨rfl, (List.append_nil _).symm⟩

theorem wave_into_served (cmd_set cmd : UInt8) (q : Decode α) (ids : List ObjectId)
    (entries : ObjectId → Option (Option α)) (l : Link) :
    ((wave_into (fun ids => wave cmd_set cmd (ids.map put_u64) q) entries ids).served (serve d)
        l).1 = (fun id => if id ∈ ids then some (said d cmd_set cmd (put_u64 id) q).toOption
          else entries id) ∧
      Sent l ((wave_into (fun ids => wave cmd_set cmd (ids.map put_u64) q) entries ids).served
        (serve d) l).2 (ids.map fun id => (cmd_set, cmd, put_u64 id)) := by
  rw [wave_into]
  by_cases hnone : ids.isEmpty = true
  · obtain rfl := List.isEmpty_iff.mp hnone
    refine ⟨?_, Sent.refl l⟩
    simp only [List.not_mem_nil, if_false]
    rfl
  · obtain ⟨hval, hsent⟩ := wave_served d cmd_set cmd (ids.map put_u64) q l
    rw [if_neg hnone, Program.served_bind, hval, List.map_map]
    refine ⟨insert_outcomes_map (fun id => said d cmd_set cmd (put_u64 id) q) ids entries, ?_⟩
    rw [List.map_map] at hsent
    exact hsent

theorem extend_committed_served (values : List Value) (l : Link) :
    ((extend_committed reads values).served (serve d) l).1 =
        extended d reads (plan reads values) ∧
      Sent l ((extend_committed reads values).served (serve d) l).2
        ((plan reads values).keys.map FirstRead.request) := by
  obtain ⟨hstrings, hsent⟩ := wave_into_served d 10 1 read_string (plan reads values).string_ids
    reads.strings l
  obtain ⟨htypes, hlater⟩ := wave_into_served d 9 1 read_reference_type
    (plan reads values).object_ids reads.types
    ((wave_into read_string_values_independently reads.strings
      (plan reads values).string_ids).served (serve d) l).2
  rw [extend_committed, Program.served_bind, Program.served_bind]
  refine ⟨congrArg₂ ValueReads.mk hstrings htypes, ?_⟩
  rw [Planned.keys, List.map_append, List.map_map, List.map_map]
  exact hsent.trans hlater

theorem single_served (cmd_set cmd : UInt8) (q : Decode α) (id : ObjectId) (l : Link) :
    ((Except.toOption <$> (command cmd_set cmd (put_u64 id) q).run : Conn (Option α)).served
        (serve d) l).1 = (said d cmd_set cmd (put_u64 id) q).toOption ∧
      Sent l ((Except.toOption <$> (command cmd_set cmd (put_u64 id) q).run :
        Conn (Option α)).served (serve d) l).2 [(cmd_set, cmd, put_u64 id)] := by
  obtain ⟨hval, hsent⟩ := command_served d cmd_set cmd (put_u64 id) q l
  rw [← hval, ← bind_pure_comp, Program.served_bind]
  exact ⟨rfl, hsent⟩

theorem string_contents_served (h : Agrees d reads) (id : ObjectId) (l : Link) :
    ((string_contents reads id).served (serve d) l).1 = contents_of d id ∧
      Sent l ((string_contents reads id).served (serve d) l).2
        (if (reads.strings id).isSome then [] else [FirstRead.request (.string_contents id)]) := by
  rw [string_contents]
  rcases hkept : reads.strings id with _ | kept
  · exact single_served d 10 1 read_string id l
  · exact ⟨h.strings id kept hkept, Sent.refl l⟩

theorem reference_type_served (h : Agrees d reads) (id : ObjectId) (l : Link) :
    ((reference_type reads id).served (serve d) l).1 = type_of d id ∧
      Sent l ((reference_type reads id).served (serve d) l).2
        (if (reads.types id).isSome then [] else [FirstRead.request (.reference_type id)]) := by
  rw [reference_type]
  rcases hkept : reads.types id with _ | kept
  · exact single_served d 9 1 read_reference_type id l
  · exact ⟨h.types id kept hkept, Sent.refl l⟩

variable (calls : List (List Value))

/-- All the calls of a pass, one after another. -/
def extend_all : Conn ValueReads :=
  calls.foldlM extend_committed .none

/-- What the calls keep, and the reads they send. -/
def pass (reads : ValueReads) : List (List Value) → ValueReads × List FirstRead
  | [] => (reads, [])
  | values :: calls =>
    let rest := pass (extended d reads (plan reads values)) calls
    (rest.1, (plan reads values).keys ++ rest.2)

theorem extend_all_served (reads : ValueReads) (l : Link) :
    ((calls.foldlM extend_committed reads).served (serve d) l).1 = (pass d reads calls).1 ∧
      Sent l ((calls.foldlM extend_committed reads).served (serve d) l).2
        ((pass d reads calls).2.map FirstRead.request) := by
  induction calls generalizing reads l with
  | nil => exact ⟨rfl, Sent.refl l⟩
  | cons values calls ih =>
    obtain ⟨hval, hsent⟩ := extend_committed_served d reads values l
    obtain ⟨hrest, hlater⟩ := ih (extended d reads (plan reads values))
      ((extend_committed reads values).served (serve d) l).2
    rw [List.foldlM_cons, Program.served_bind, hval]
    refine ⟨hrest, ?_⟩
    rw [pass, List.map_append]
    exact hsent.trans hlater

theorem Agrees.pass (reads : ValueReads) (h : Agrees d reads) :
    Agrees d (pass d reads calls).1 := by
  induction calls generalizing reads with
  | nil => exact h
  | cons values calls ih => exact ih _ (h.extended d reads _)

end Answers

section Counts

variable (d : Debuggee)

def ValueReads.has (reads : ValueReads) : FirstRead → Bool
  | .string_contents id => (reads.strings id).isSome
  | .reference_type id => (reads.types id).isSome

def FirstRead.id : FirstRead → ObjectId
  | .string_contents id => id
  | .reference_type id => id

/-- The planned reads are seen once, are not kept yet, and are first reads of the values. -/
structure Planned.Fits (p : Planned) (reads : ValueReads) (values : List Value) : Prop where
  nodup : p.keys.Nodup
  seen : ∀ k ∈ p.keys, k.id ∈ p.seen
  fresh : ∀ k ∈ p.keys, reads.has k = false
  first : ∀ k ∈ p.keys, ∃ v ∈ values, first_read v = some k

variable (reads : ValueReads)

/-- A value adds its own first read to the plan, or nothing. -/
theorem plan_value_cases (p : Planned) (value : Value) :
    plan_value reads p value = p ∨ ∃ k, first_read value = some k ∧ reads.has k = false ∧
      k.id ∉ p.seen ∧ (plan_value reads p value).seen = k.id :: p.seen ∧
      (plan_value reads p value).keys.Perm (k :: p.keys) := by
  unfold plan_value
  rcases first_read value with _ | (id | id)
  · exact .inl rfl
  · dsimp only
    by_cases hnew : (reads.strings id).isNone ∧ id ∉ p.seen
    · rw [if_pos hnew]
      refine .inr ⟨_, rfl, by simpa [ValueReads.has] using hnew.1, hnew.2, rfl, ?_⟩
      simp only [Planned.keys, List.map_append, List.map_singleton, List.append_assoc]
      exact List.perm_middle
    · rw [if_neg hnew]
      exact .inl rfl
  · dsimp only
    by_cases hnew : (reads.types id).isNone ∧ id ∉ p.seen
    · rw [if_pos hnew]
      refine .inr ⟨_, rfl, by simpa [ValueReads.has] using hnew.1, hnew.2, rfl, ?_⟩
      simp only [Planned.keys, List.map_append, List.map_singleton, ← List.append_assoc]
      exact List.perm_append_singleton _ _
    · rw [if_neg hnew]
      exact .inl rfl

variable (values : List Value)

theorem plan_value_fits (p : Planned) (value : Value) (hv : value ∈ values)
    (h : p.Fits reads values) : (plan_value reads p value).Fits reads values := by
  rcases plan_value_cases reads p value with heq | ⟨k, hfirst, hfresh, hseen, hids, hperm⟩
  · rwa [heq]
  · have hnew : k ∉ p.keys := fun hk => hseen (h.seen k hk)
    have hmem : ∀ k', k' ∈ (plan_value reads p value).keys → k' = k ∨ k' ∈ p.keys :=
      fun k' hk' => List.mem_cons.mp (hperm.mem_iff.mp hk')
    refine ⟨hperm.nodup_iff.mpr (List.nodup_cons.mpr ⟨hnew, h.nodup⟩), ?_, ?_, ?_⟩
    · intro k' hk'
      rw [hids]
      rcases hmem k' hk' with rfl | hold
      · exact List.mem_cons_self
      · exact List.mem_cons_of_mem _ (h.seen k' hold)
    · intro k' hk'
      rcases hmem k' hk' with rfl | hold
      · exact hfresh
      · exact h.fresh k' hold
    · intro k' hk'
      rcases hmem k' hk' with rfl | hold
      · exact ⟨value, hv, hfirst⟩
      · exact h.first k' hold

theorem plan_fits : (plan reads values).Fits reads values := by
  have hfold : ∀ (rest : List Value) (p : Planned), rest ⊆ values → p.Fits reads values →
      (rest.foldl (plan_value reads) p).Fits reads values := by
    intro rest
    induction rest with
    | nil => exact fun p _ hp => hp
    | cons value rest ih =>
      intro p hsub hp
      exact ih _ (List.subset_of_cons_subset hsub)
        (plan_value_fits reads values p value (hsub List.mem_cons_self) hp)
  refine hfold values _ (List.Subset.refl _) ⟨List.nodup_nil, ?_, ?_, ?_⟩
  all_goals
    intro k hk
    simp [Planned.keys] at hk

theorem has_extended (p : Planned) (k : FirstRead) :
    (extended d reads p).has k = true ↔ k ∈ p.keys ∨ reads.has k = true := by
  rcases k with id | id
  · by_cases hid : id ∈ p.string_ids <;> simp [ValueReads.has, extended, Planned.keys, hid]
  · by_cases hid : id ∈ p.object_ids <;> simp [ValueReads.has, extended, Planned.keys, hid]

/-- The calls send one read for each key, and keep them all. -/
theorem pass_keys (calls : List (List Value)) (reads : ValueReads) :
    (pass d reads calls).2.Nodup ∧
      (∀ k ∈ (pass d reads calls).2, reads.has k = false ∧
        ∃ v ∈ calls.flatten, first_read v = some k) ∧
      (∀ k, (pass d reads calls).1.has k = true ↔
        k ∈ (pass d reads calls).2 ∨ reads.has k = true) := by
  induction calls generalizing reads with
  | nil => exact ⟨List.nodup_nil, by simp [pass], by simp [pass]⟩
  | cons values calls ih =>
    obtain ⟨hnodup, hkeys, hhas⟩ := ih (extended d reads (plan reads values))
    have hplan := plan_fits reads values
    have hlater : ∀ k ∈ (pass d (extended d reads (plan reads values)) calls).2,
        k ∉ (plan reads values).keys ∧ reads.has k = false := by
      intro k hk
      have hnot := (hkeys k hk).1
      have hiff := not_congr (has_extended d reads (plan reads values) k)
      rw [hnot] at hiff
      simpa using hiff.mp (by decide)
    refine ⟨?_, ?_, ?_⟩
    · refine List.nodup_append.mpr ⟨hplan.nodup, hnodup, ?_⟩
      rintro k hk k' hk' rfl
      exact (hlater k hk').1 hk
    · intro k hk
      rcases List.mem_append.mp hk with hfirst | hrest
      · obtain ⟨v, hv, hread⟩ := hplan.first k hfirst
        exact ⟨hplan.fresh k hfirst, v, by simp [hv], hread⟩
      · obtain ⟨v, hv, hread⟩ := (hkeys k hrest).2
        exact ⟨(hlater k hrest).2, v, by simp [List.mem_flatten.mp hv], hread⟩
    · intro k
      change (pass d _ calls).1.has k = true ↔ k ∈ _ ++ _ ∨ _
      rw [hhas, has_extended, List.mem_append]
      tauto

/-- Ask for the first read of a value, if it has one. -/
def first_answer (reads : ValueReads) (value : Value) :
    Conn (Option (Option String ⊕ Option ReferenceTypeId)) :=
  match first_read value with
  | some (.string_contents id) => do
    let contents ← string_contents reads id
    pure (some (.inl contents))
  | some (.reference_type id) => do
    let type_id ← reference_type reads id
    pure (some (.inr type_id))
  | none => pure none

def first_answers (reads : ValueReads) (values : List Value) :
    Conn (List (Option (Option String ⊕ Option ReferenceTypeId))) :=
  values.mapM (first_answer reads)

/-- What asking for the first read of a value sends. -/
def asked_for (reads : ValueReads) (value : Value) : List Links.Request :=
  match first_read value with
  | some k => if reads.has k then [] else [k.request]
  | none => []

theorem first_answer_sent (h : Agrees d reads) (value : Value) (l : Link) :
    Sent l ((first_answer reads value).served (serve d) l).2 (asked_for reads value) := by
  unfold first_answer asked_for
  rcases first_read value with _ | (id | id)
  · exact Sent.refl l
  · dsimp only
    rw [Program.served_bind]
    exact (string_contents_served d reads h id l).2
  · dsimp only
    rw [Program.served_bind]
    exact (reference_type_served d reads h id l).2

theorem first_answers_sent (h : Agrees d reads) (values : List Value) (l : Link) :
    Sent l ((first_answers reads values).served (serve d) l).2
      (values.flatMap (asked_for reads)) := by
  unfold first_answers
  induction values generalizing l with
  | nil => exact Sent.refl l
  | cons value values ih =>
    rw [List.mapM_cons, Program.served_bind, Program.served_bind, List.flatMap_cons]
    exact (first_answer_sent d reads h value l).trans (ih _)

/-- What is kept is spared of what is asked otherwise. -/
theorem length_asked_for :
    (values.flatMap (asked_for reads)).length +
        ((values.filterMap first_read).filter reads.has).length =
      (values.flatMap (asked_for .none)).length := by
  induction values with
  | nil => rfl
  | cons value values ih =>
    rw [List.flatMap_cons, List.flatMap_cons, List.length_append, List.length_append,
      List.filterMap_cons, ← ih]
    unfold asked_for
    rcases first_read value with _ | k
    · simp
    · have hnone : ValueReads.none.has k = false := by
        rcases k with id | id <;> rfl
      by_cases hk : reads.has k = true
      · simp [hk, hnone]
        omega
      · simp [hk, hnone]
        omega

theorem length_pass_le (calls : List (List Value)) (values : List Value)
    (h : calls.flatten ⊆ values) : (pass d .none calls).2.length ≤
      ((values.filterMap first_read).filter (pass d .none calls).1.has).length := by
  obtain ⟨hnodup, hkeys, hhas⟩ := pass_keys d calls .none
  apply List.Subperm.length_le
  apply List.subperm_of_subset hnodup
  intro k hk
  obtain ⟨v, hv, hread⟩ := (hkeys k hk).2
  exact List.mem_filter.mpr ⟨List.mem_filterMap.mpr ⟨v, h hv, hread⟩, (hhas k).mpr (.inl hk)⟩

end Counts

section Results

/-- `StringReference.Value` and `ObjectReference.ReferenceType`. -/
def is_first_read (r : Links.Request) : Bool := (r.1, r.2.1) = (10, 1) ∨ (r.1, r.2.1) = (9, 1)

def first_reads_sent (l : Link) : ℕ := l.asked.countP is_first_read

theorem is_first_read_asked_for (reads : ValueReads) (values : List Value) :
    ∀ r ∈ values.flatMap (asked_for reads), is_first_read r = true := by
  intro r hr
  obtain ⟨value, -, hmem⟩ := List.mem_flatMap.mp hr
  unfold asked_for at hmem
  revert hmem
  rcases first_read value with _ | k
  · simp
  · intro hmem
    dsimp only at hmem
    by_cases hk : reads.has k = true
    · simp [hk] at hmem
    · rw [if_neg hk, List.mem_singleton] at hmem
      rw [hmem]
      rcases k with id | id <;> rfl

/-- However a pass prefetches the values, each read answers as it would without, and the first reads
of all values cost no more than asking for each of them. -/
theorem prefetched_reads_are_the_reads (d : Debuggee) (values : List Value)
    (calls : List (List Value)) (hcalls : calls.flatten ⊆ values) (l : Link) :
    (∀ id l', ((string_contents ((extend_all calls).served (serve d) l).1 id).served (serve d)
        l').1 = ((string_contents .none id).served (serve d) l').1) ∧
    (∀ id l', ((reference_type ((extend_all calls).served (serve d) l).1 id).served (serve d)
        l').1 = ((reference_type .none id).served (serve d) l').1) ∧
    first_reads_sent ((do
        let reads ← extend_all calls
        first_answers reads values : Conn _).served (serve d) l).2 ≤
      first_reads_sent ((first_answers .none values).served (serve d) l).2 := by
  obtain ⟨hreads, hsent⟩ := extend_all_served d calls .none l
  have hagrees := (Agrees.none d).pass d calls .none
  rw [← extend_all] at hreads hsent
  refine ⟨?_, ?_, ?_⟩
  · intro id l'
    rw [hreads, (string_contents_served d _ hagrees id l').1,
      (string_contents_served d _ (Agrees.none d) id l').1]
  · intro id l'
    rw [hreads, (reference_type_served d _ hagrees id l').1,
      (reference_type_served d _ (Agrees.none d) id l').1]
  · have hasked := first_answers_sent d _ hagrees values
      ((extend_all calls).served (serve d) l).2
    have halone := first_answers_sent d _ (Agrees.none d) values l
    have hlength := length_asked_for (pass d .none calls).1 values
    have hpass := length_pass_le d calls values hcalls
    rw [Program.served_bind, hreads]
    unfold first_reads_sent
    rw [(hsent.trans hasked).asked, halone.asked, List.countP_append, List.countP_append,
      List.countP_append, List.countP_eq_length.mpr (is_first_read_asked_for .none values)]
    have hwaves : ((pass d .none calls).2.map FirstRead.request).countP is_first_read ≤
        (pass d .none calls).2.length := by
      simpa using @List.countP_le_length _ is_first_read
        ((pass d .none calls).2.map FirstRead.request)
    have hrest := @List.countP_le_length _ is_first_read
      (values.flatMap (asked_for (pass d .none calls).1))
    omega

/-- A debuggee that answers nothing, and a connection that has sent nothing. -/
def silent : Debuggee := fun _ => .error (.protocol "")

def unused_link : Link := ⟨⟨false, 1, 0, 0, ReadOnly.no_types⟩, []⟩

/-- One id under two tags, and one object twice, over calls that overlap. -/
theorem two_tags_prefetched :
    first_reads_sent ((do
        let reads ← extend_all [[⟨115, .object 1⟩, ⟨76, .object 1⟩], [⟨76, .object 1⟩]]
        first_answers reads [⟨115, .object 1⟩, ⟨76, .object 1⟩, ⟨76, .object 1⟩] :
          Conn _).served (serve silent) unused_link).2 ≤
      first_reads_sent ((first_answers .none
        [⟨115, .object 1⟩, ⟨76, .object 1⟩, ⟨76, .object 1⟩]).served (serve silent)
          unused_link).2 :=
  (prefetched_reads_are_the_reads silent _ _ (by simp) unused_link).2.2

end Results

end JavaDebug.PrefetchedReads
