import JavaDebug.Links
import JavaDebug.Positions

/-!
Metadata read in waves. A wave of variable tables asks again, by the plain
command, for the pairs the generic one is not implemented for, and puts their
answers back by position; a wave of signatures asks once for each type the cache
does not know and answers every position from the cache. Either returns, position
by position, what the single read would, under any debuggee and from any cache.
-/
namespace JavaDebug.MetadataWaves

open Dialogue RequestFraming Connection Links Positions

section Tables

variable (d : Debuggee)

/-- What one command says of the variables of a method. -/
def table (with_generic : Bool) (m : ReferenceTypeId × MethodId) : JdwpResult (List Variable) :=
  said d 6 (variable_table_command with_generic) (put_method m) (decode_variable_table with_generic)

def variable_table (m : ReferenceTypeId × MethodId) : JdwpResult (List Variable) :=
  if not_implemented (table d true m) then table d false m else table d true m

theorem read_variable_table_served (m : ReferenceTypeId × MethodId) (with_generic : Bool) (l : Link)
    : ((read_variable_table m.1 m.2 with_generic).run.served (serve d) l).1 =
      table d with_generic m := (command_served d _ _ _ _ l).1

theorem get_variable_table_served (m : ReferenceTypeId × MethodId) (l : Link) :
    ((get_variable_table m.1 m.2).run.served (serve d) l).1 = variable_table d m := by
  have hrun : (get_variable_table m.1 m.2).run =
      (read_variable_table m.1 m.2 true).run >>= fun r => match r with
        | .ok tables => pure (.ok tables)
        | .error e => (if e = .jdwp_error_code ERR_NOT_IMPLEMENTED then
            read_variable_table m.1 m.2 false else throw e : Call (List Variable)).run := by
    refine congrArg (Program.bind (read_variable_table m.1 m.2 true).run) (funext fun r => ?_)
    cases r with
    | ok tables => rfl
    | error e => rfl
  rw [hrun, Program.served_bind, read_variable_table_served]
  unfold variable_table
  cases htable : table d true m with
  | ok tables => rfl
  | error e =>
    by_cases he : e = .jdwp_error_code ERR_NOT_IMPLEMENTED
    · subst he
      exact read_variable_table_served d m false _
    · have hnot : not_implemented (.error e : JdwpResult (List Variable)) = false := by
        cases e with
        | jdwp_error_code code =>
          exact decide_eq_false fun hcode => he (congrArg JdwpError.jdwp_error_code hcode)
        | transport e | invoke_timeout ms | read_only what => rfl
      simp only [if_neg he, hnot]
      rfl

variable (pairs : List (ReferenceTypeId × MethodId))

theorem variable_table_wave_served (with_generic : Bool) (l : Link) :
    ((variable_table_wave pairs with_generic).served (serve d) l).1 =
      pairs.map (table d with_generic) := by
  unfold variable_table_wave
  rw [(wave_served d _ _ _ _ l).1, List.map_map]
  rfl

theorem tables_served (l : Link) :
    ((read_variable_tables_independently pairs).served (serve d) l).1 =
      pairs.map (variable_table d) := by
  unfold read_variable_tables_independently
  rw [Program.served_bind, variable_table_wave_served]
  have hback := @put_back_retries _ _ not_implemented (table d true) pairs (table d false)
  simp only
  by_cases hnone : (retries not_implemented (pairs.map (table d true)) pairs).isEmpty = true
  · rw [if_pos hnone]
    rw [List.isEmpty_iff.mp hnone] at hback
    exact hback
  · rw [if_neg hnone, Program.served_bind, variable_table_wave_served, List.map_map,
      ← List.map_prod_left_eq_zip, List.map_map]
    exact hback

end Tables

section Signatures

variable (d : Debuggee)

/-- What a type's signature is read as when the cache is `c`. -/
def signature_of (c : TypeCache) (id : ReferenceTypeId) : JdwpResult String :=
  match c.signatures id with
  | some hit => .ok hit
  | none => said d 2 1 (put_u64 id) read_string

/-- The cache `c` once the signatures of `ids` have been read. -/
def with_signatures (c : TypeCache) (ids : List ReferenceTypeId) : TypeCache :=
  { c with signatures := fun i =>
      if i ∈ ids then (signature_of d c i).toOption else c.signatures i }

variable (c : TypeCache) (ids : List ReferenceTypeId)

variable (ids : List ReferenceTypeId)

theorem signature_of_with (i : ReferenceTypeId) :
    (signature_of d (with_signatures d c ids) i).toOption = (signature_of d c i).toOption := by
  unfold signature_of
  by_cases hi : i ∈ ids
  · have hin : (with_signatures d c ids).signatures i = (signature_of d c i).toOption := if_pos hi
    rw [hin]
    unfold signature_of
    cases hc : c.signatures i with
    | some hit => rfl
    | none =>
      simp only
      cases said d 2 1 (put_u64 i) read_string with
      | ok sig => rfl
      | error e => rfl
  · have hout : (with_signatures d c ids).signatures i = c.signatures i := if_neg hi
    rw [hout]

variable (id : ReferenceTypeId)

theorem with_signatures_cons (ids : List ReferenceTypeId) :
    with_signatures d (with_signatures d c [id]) ids = with_signatures d c (id :: ids) := by
  have hsame : ∀ i, (if i ∈ ids then (signature_of d (with_signatures d c [id]) i).toOption
      else (with_signatures d c [id]).signatures i) =
      if i ∈ id :: ids then (signature_of d c i).toOption else c.signatures i := by
    intro i
    rw [signature_of_with]
    by_cases hi : i ∈ ids
    · rw [if_pos hi, if_pos (List.mem_cons_of_mem id hi)]
    · by_cases hid : i = id
      · subst hid
        rw [if_neg hi, if_pos List.mem_cons_self]
        exact if_pos List.mem_cons_self
      · rw [if_neg hi, if_neg (by simp [hi, hid])]
        exact if_neg (by simpa using hid)
  unfold with_signatures at hsame ⊢
  simp only [hsame]

theorem cached_signature {c : TypeCache} {id : ReferenceTypeId} (h : c.signatures id ≠ none) :
    (signature_of d c id).toOption = c.signatures id := by
  obtain ⟨hit, hhit⟩ := Option.ne_none_iff_exists'.mp h
  rw [signature_of, hhit]
  rfl

theorem put_signature_of :
    put_signature c (id, signature_of d c id) = with_signatures d c [id] := by
  have hsame : ∀ i, (if i = id then (signature_of d c id).toOption else c.signatures i) =
      if i ∈ [id] then (signature_of d c i).toOption else c.signatures i := by
    intro i
    by_cases hi : i = id
    · subst hi
      rw [if_pos rfl, if_pos List.mem_cons_self]
    · rw [if_neg hi, if_neg (by simpa using hi)]
  unfold with_signatures
  simp only [← hsame]
  cases hr : signature_of d c id with
  | ok sig => rfl
  | error e =>
    have hnone : c.signatures id = none := by
      by_contra hne
      have hcached := cached_signature d hne
      rw [hr] at hcached
      exact hne hcached.symm
    have hkept : (fun i => if i = id then none else c.signatures i) = c.signatures := by
      funext i
      by_cases hi : i = id
      · rw [if_pos hi, hi, hnone]
      · rw [if_neg hi]
    change c = { c with signatures := fun i => if i = id then none else c.signatures i }
    rw [hkept]

variable (l : Link)

theorem get_signature_served :
    ((get_signature id).run.served (serve d) l).1 = signature_of d l.shared.types id ∧
      ((get_signature id).run.served (serve d) l).2.shared.types =
        with_signatures d l.shared.types [id] := by
  have hrun : (get_signature id).run.served (serve d) l =
      (match l.shared.types.signatures id with
        | some hit => pure hit
        | none => do
          let sig ← command 2 1 (put_u64 id) read_string
          edit_types fun c => { c with
            signatures := fun i => if i = id then some sig else c.signatures i }
          pure sig : Call String).run.served (serve d) l := rfl
  rw [hrun, ← put_signature_of]
  cases hc : l.shared.types.signatures id with
  | some hit =>
    have hval : signature_of d l.shared.types id = .ok hit := by
      rw [signature_of, hc]
    have hkept : (fun i => if i = id then some hit else l.shared.types.signatures i) =
        l.shared.types.signatures := by
      funext i
      by_cases hi : i = id
      · rw [if_pos hi, hi, hc]
      · rw [if_neg hi]
    rw [hval]
    refine ⟨rfl, ?_⟩
    change l.shared.types = { l.shared.types with
      signatures := fun i => if i = id then some hit else l.shared.types.signatures i }
    rw [hkept]
  | none =>
    have hval : signature_of d l.shared.types id = said d 2 1 (put_u64 id) read_string := by
      rw [signature_of, hc]
    obtain ⟨hsaid, hsent⟩ := command_served d 2 1 (put_u64 id) read_string l
    rw [hval]
    cases hr : said d 2 1 (put_u64 id) read_string with
    | ok sig =>
      rw [hr] at hsaid
      simp only
      rw [Program.served_then (I := wire) (serve d) hsaid]
      refine ⟨rfl, ?_⟩
      rw [← hsent.types]
      rfl
    | error e =>
      rw [hr] at hsaid
      simp only
      rw [Program.served_failed (I := wire) (serve d) _ hsaid]
      exact ⟨rfl, hsent.types⟩

/-- One read after another, from the cache each leaves to the next. -/
theorem loop_served :
    ((ids.mapM fun id => (get_signature id).run).served (serve d) l).1.map Except.toOption =
        ids.map (fun id => (signature_of d l.shared.types id).toOption) ∧
      ((ids.mapM fun id => (get_signature id).run).served (serve d) l).2.shared.types =
        with_signatures d l.shared.types ids := by
  induction ids generalizing l with
  | nil => exact ⟨rfl, by simp [with_signatures]; rfl⟩
  | cons id rest ih =>
    obtain ⟨hval, htypes⟩ := get_signature_served d id l
    obtain ⟨hrest, hlater⟩ := ih ((get_signature id).run.served (serve d) l).2
    rw [List.mapM_cons, Program.served_bind, Program.served_bind]
    rw [htypes] at hrest hlater
    rw [with_signatures_cons] at hlater
    refine ⟨?_, hlater⟩
    simp only [signature_of_with] at hrest
    change _ :: _ = _
    rw [hrest, hval]
    rfl

/-- An id is wanted once, and only without an entry. -/
def want (c : TypeCache) (wanted : List ReferenceTypeId) (id : ReferenceTypeId) :
    List ReferenceTypeId :=
  if (c.signatures id).isSome || wanted.contains id then wanted else wanted ++ [id]

def wanted_of (c : TypeCache) (wanted ids : List ReferenceTypeId) : List ReferenceTypeId :=
  ids.foldl (want c) wanted

theorem want_nodup {wanted : List ReferenceTypeId} (h : wanted.Nodup) (id : ReferenceTypeId) :
    (want c wanted id).Nodup := by
  unfold want
  by_cases hskip : ((c.signatures id).isSome || wanted.contains id) = true
  · rwa [if_pos hskip]
  · rw [if_neg hskip]
    refine List.nodup_append.mpr ⟨h, List.nodup_singleton id, ?_⟩
    rintro a ha b hb rfl
    rw [List.mem_singleton.mp hb] at ha
    simp [ha] at hskip

theorem mem_want (wanted : List ReferenceTypeId) (id i : ReferenceTypeId) :
    i ∈ want c wanted id ↔ i ∈ wanted ∨ (i = id ∧ c.signatures i = none) := by
  unfold want
  by_cases hskip : ((c.signatures id).isSome || wanted.contains id) = true
  · rw [if_pos hskip]
    refine ⟨Or.inl, ?_⟩
    rintro (h | ⟨rfl, hn⟩)
    · exact h
    · simpa [hn] using hskip
  · rw [if_neg hskip, List.mem_append, List.mem_singleton]
    have hnone : c.signatures id = none := by
      cases hc : c.signatures id with
      | none => rfl
      | some hit => simp [hc] at hskip
    refine or_congr_right ⟨?_, And.left⟩
    rintro rfl
    exact ⟨rfl, hnone⟩

theorem wanted_of_nodup {wanted : List ReferenceTypeId} (h : wanted.Nodup) :
    (wanted_of c wanted ids).Nodup := by
  induction ids generalizing wanted with
  | nil => exact h
  | cons id rest ih => exact ih (want_nodup c h id)

theorem mem_wanted_of (ids wanted : List ReferenceTypeId) (i : ReferenceTypeId) :
    i ∈ wanted_of c wanted ids ↔ i ∈ wanted ∨ (i ∈ ids ∧ c.signatures i = none) := by
  induction ids generalizing wanted with
  | nil => simp [wanted_of]
  | cons id rest ih =>
    refine (ih _).trans ?_
    rw [mem_want, List.mem_cons, or_and_right, or_assoc]

theorem collect_served (ids wanted : List ReferenceTypeId) (l : Link) :
    (collect_wanted wanted ids).served (serve d) l = (wanted_of l.shared.types wanted ids, l) := by
  induction ids generalizing wanted with
  | nil => rfl
  | cons id rest ih => exact ih _

theorem known_served :
    ((ids.mapM known_signature).served (serve d) l).1.map Except.toOption =
        ids.map l.shared.types.signatures ∧
      ((ids.mapM known_signature).served (serve d) l).2 = l := by
  induction ids with
  | nil => exact ⟨rfl, rfl⟩
  | cons id rest ih =>
    have hone : ((known_signature id).served (serve d) l).1.toOption =
          l.shared.types.signatures id ∧ ((known_signature id).served (serve d) l).2 = l := by
      have hrun : (known_signature id).served (serve d) l =
          (match l.shared.types.signatures id with
            | some sig => pure (.ok sig)
            | none => pure (protocol ("the signature of type " ++ toString id.toNat ++
                " could not be read")) : Conn (JdwpResult String)).served (serve d) l := rfl
      rw [hrun]
      cases l.shared.types.signatures id with
      | some sig => exact ⟨rfl, rfl⟩
      | none => exact ⟨rfl, rfl⟩
    rw [List.mapM_cons, Program.served_bind, Program.served_bind, hone.2]
    refine ⟨?_, ih.2⟩
    change _ :: _ = _
    rw [ih.1, hone.1]
    rfl

/-- What the wave writes back is what single reads would have. -/
theorem fold_said {ids : List ReferenceTypeId} (hids : ids.Nodup) {c : TypeCache}
    (hnone : ∀ i ∈ ids, c.signatures i = none) :
    (ids.map fun id => (id, said d 2 1 (put_u64 id) read_string)).foldl put_signature c =
      with_signatures d c ids := by
  induction ids generalizing c with
  | nil => simp [with_signatures]
  | cons id rest ih =>
    obtain ⟨hid, hrest⟩ := List.nodup_cons.mp hids
    have hval : signature_of d c id = said d 2 1 (put_u64 id) read_string := by
      rw [signature_of, hnone id List.mem_cons_self]
    rw [List.map_cons, List.foldl_cons, ← hval, put_signature_of, ih hrest,
      with_signatures_cons]
    intro i hi
    have hne : i ∉ [id] := fun h => hid (List.mem_singleton.mp h ▸ hi)
    exact (if_neg hne).trans (hnone i (List.mem_cons_of_mem id hi))

theorem with_wanted : with_signatures d c (wanted_of c [] ids) = with_signatures d c ids := by
  have hsame : ∀ i, (if i ∈ wanted_of c [] ids then (signature_of d c i).toOption
      else c.signatures i) = if i ∈ ids then (signature_of d c i).toOption else c.signatures i := by
    intro i
    by_cases hi : i ∈ ids
    · by_cases hc : c.signatures i = none
      · rw [if_pos ((mem_wanted_of c ids [] i).mpr (Or.inr ⟨hi, hc⟩)), if_pos hi]
      · rw [if_pos hi, cached_signature d hc, ite_self]
    · rw [if_neg hi, if_neg]
      rw [mem_wanted_of]
      rintro (h | h)
      · exact List.not_mem_nil h
      · exact hi h.1
  unfold with_signatures
  simp only [hsame]

theorem signatures_served :
    ((read_signatures_independently ids).served (serve d) l).1.map Except.toOption =
        ids.map (fun id => (signature_of d l.shared.types id).toOption) ∧
      ((read_signatures_independently ids).served (serve d) l).2.shared.types =
        with_signatures d l.shared.types ids ∧
      ((read_signatures_independently ids).served (serve d) l).2.asked =
        l.asked ++ (wanted_of l.shared.types [] ids).map fun id => (2, 1, put_u64 id) := by
  unfold read_signatures_independently
  rw [Program.served_bind, collect_served]
  generalize hw : wanted_of l.shared.types [] ids = wanted
  have hnodup : wanted.Nodup := hw ▸ wanted_of_nodup l.shared.types ids List.nodup_nil
  have hnone : ∀ i ∈ wanted, l.shared.types.signatures i = none := by
    intro i hi
    rw [← hw, mem_wanted_of] at hi
    rcases hi with h | h
    · exact absurd h List.not_mem_nil
    · exact h.2
  have hwanted : with_signatures d l.shared.types wanted =
      with_signatures d l.shared.types ids := by
    rw [← hw, with_wanted]
  -- What is read back from the cache `l'` that the wave leaves.
  have hback : ∀ l' : Link, l'.shared.types = with_signatures d l.shared.types ids →
      l'.asked = l.asked ++ wanted.map (fun id => (2, 1, put_u64 id)) →
      ((ids.mapM known_signature).served (serve d) l').1.map Except.toOption =
          ids.map (fun id => (signature_of d l.shared.types id).toOption) ∧
        ((ids.mapM known_signature).served (serve d) l').2.shared.types =
          with_signatures d l.shared.types ids ∧
        ((ids.mapM known_signature).served (serve d) l').2.asked =
          l.asked ++ wanted.map fun id => (2, 1, put_u64 id) := by
    intro l' htypes hasked
    obtain ⟨hval, hlink⟩ := known_served d ids l'
    rw [hval, hlink, htypes]
    refine ⟨List.map_congr_left fun id hid => if_pos hid, rfl, hasked⟩
  cases hempty : wanted.isEmpty with
  | true =>
    have hnil : wanted = [] := List.isEmpty_iff.mp hempty
    refine hback l ?_ (by rw [hnil]; exact (List.append_nil _).symm)
    rw [← hwanted, hnil]
    simp [with_signatures]
  | false =>
    simp only [Bool.not_false, if_true]
    rw [Program.served_bind]
    obtain ⟨hval, hsent⟩ := wave_served d 2 1 (wanted.map put_u64) read_string l
    generalize (wave 2 1 (wanted.map put_u64) read_string).served (serve d) l = waved
      at hval hsent ⊢
    refine hback ⟨{ waved.2.shared with
      types := (wanted.zip waved.1).foldl put_signature waved.2.shared.types }, waved.2.sent⟩ ?_ ?_
    · rw [hval, List.map_map, ← List.map_prod_left_eq_zip, hsent.types]
      exact (fold_said d hnodup hnone).trans hwanted
    · rw [List.map_map] at hsent
      exact hsent.asked

/-- The waves return what the single reads would, position by position. The wave of signatures
leaves the cache of the single reads, and asks once for each type without an entry. -/
theorem waves_agree_with_single_reads (pairs : List (ReferenceTypeId × MethodId))
    (ids : List ReferenceTypeId) :
    (∀ l' : Link, ((read_variable_tables_independently pairs).served (serve d) l).1 =
        pairs.map fun m => ((get_variable_table m.1 m.2).run.served (serve d) l').1) ∧
      ((read_signatures_independently ids).served (serve d) l).1.map Except.toOption =
        ids.map (fun id => ((get_signature id).run.served (serve d) l).1.toOption) ∧
      ((read_signatures_independently ids).served (serve d) l).1.map Except.toOption =
        ((ids.mapM fun id => (get_signature id).run).served (serve d) l).1.map Except.toOption ∧
      ((read_signatures_independently ids).served (serve d) l).2.shared.types =
        ((ids.mapM fun id => (get_signature id).run).served (serve d) l).2.shared.types ∧
      ∃ wanted : List ReferenceTypeId, wanted.Nodup ∧
        (∀ id, id ∈ wanted ↔ id ∈ ids ∧ l.shared.types.signatures id = none) ∧
        ((read_signatures_independently ids).served (serve d) l).2.asked =
          l.asked ++ wanted.map fun id => (2, 1, put_u64 id) := by
  obtain ⟨hval, htypes, hasked⟩ := signatures_served d ids l
  obtain ⟨hloop, hlooped⟩ := loop_served d ids l
  refine ⟨fun l' => ?_, ?_, ?_, ?_, wanted_of l.shared.types [] ids, ?_, fun id => ?_, hasked⟩
  · rw [tables_served]
    exact List.map_congr_left fun m _ => (get_variable_table_served d m l').symm
  · rw [hval]
    exact List.map_congr_left fun id _ =>
      congrArg Except.toOption (get_signature_served d id l).1.symm
  · rw [hval, hloop]
  · rw [htypes, hlooped]
  · exact wanted_of_nodup _ _ List.nodup_nil
  · rw [mem_wanted_of]
    exact or_iff_right List.not_mem_nil

end Signatures

end JavaDebug.MetadataWaves
