import JavaDebug.Waning

/-!
Live requests and bookkeeping along runs. While a composite is walked, each
event works on the one stop point that owns its request and leaves the others
and their requests alone, so what the books have to say before the walk is
enough: the events belong to different stop points, a counted one has lost only
the request that fired, and the path that the composite takes reads every
counted event in it.
-/
namespace JavaDebug.AgreedBooks

open Jdwp StopPoints Wire Disarming
open Arming Hits Rearming StateProgram
open Runs Ownership Withdrawing LedgerRuns
open HitWalks Waning

section Within

/-- Between the two worlds only the stop point `id` worked, which alone may own `req`, and of the
requests only `ids` were cleared. -/
structure Within (id : StopId) (req : RequestId) (ids : List RequestId) (c : Option ℕ)
    (w w' : World) : Prop where
  others : ∀ v, v.id ≠ id → (v ∈ w'.session.stop_points.rows ↔ v ∈ w.session.stop_points.rows)
  alone : ∀ v ∈ w'.session.stop_points.rows, req ∈ v.request_ids → v.id = id
  request_ids : ∀ v ∈ w'.session.stop_points.rows, v.id = id → v.request_ids ⊆ ids
  hit_count : ∀ v ∈ w'.session.stop_points.rows, v.id = id → v.hit_count = c
  rest : ∀ h, h.2 ∉ ids → (h ∈ live w'.jvm ↔ h ∈ live w.jvm)

variable {id : StopId} {req : RequestId} {ids : List RequestId} {c : Option ℕ} {w w' w'' : World}

theorem Within.same (h : Within id req ids c w w')
    (hsp : w''.session.stop_points = w'.session.stop_points)
    (hreq : w''.jvm.requests = w'.jvm.requests) : Within id req ids c w w'' := by
  have hlive : live w''.jvm = live w'.jvm := by
    unfold live
    rw [hreq]
  refine ⟨?_, ?_, ?_, ?_, ?_⟩
  · rw [hsp]
    exact h.others
  · rw [hsp]
    exact h.alone
  · rw [hsp]
    exact h.request_ids
  · rw [hsp]
    exact h.hit_count
  · rw [hlive]
    exact h.rest

theorem within_edit (f : StopPoint → StopPoint) (hf : ∀ sp, (f sp).id = sp.id)
    (hids : ∀ sp, (f sp).request_ids ⊆ sp.request_ids)
    (hcount : ∀ sp, (f sp).hit_count = sp.hit_count) (h : Within id req ids c w w') :
    Within id req ids c w { w' with session := w'.session.edit_stop_point id f hf } := by
  have hmem : ∀ v, v ∈ (w'.session.edit_stop_point id f hf).stop_points.rows →
      ∃ u ∈ w'.session.stop_points.rows, v.id = u.id ∧ v.request_ids ⊆ u.request_ids ∧
        v.hit_count = u.hit_count := by
    intro v hv
    obtain ⟨u, hu, rfl⟩ := (Table.mem_modify _ _ _ hf _).mp hv
    refine ⟨u, hu, ?_⟩
    split
    · exact ⟨hf u, hids u, hcount u⟩
    · exact ⟨rfl, List.Subset.refl _, rfl⟩
  refine ⟨fun v hv => ?_, fun v hv hr => ?_, fun v hv hid => ?_, fun v hv hid => ?_, h.rest⟩
  · rw [← h.others v hv]
    constructor
    · intro hm
      obtain ⟨u, hu, heq⟩ := (Table.mem_modify _ _ _ hf _).mp hm
      split at heq
      · rename_i hu'
        exact absurd ((congrArg StopPoint.id heq).symm.trans ((hf u).trans hu')) hv
      · exact heq ▸ hu
    · exact fun hm => (Table.mem_modify _ _ _ hf _).mpr ⟨v, hm, if_neg hv⟩
  · obtain ⟨u, hu, hid, hsub, -⟩ := hmem v hv
    exact hid.trans (h.alone u hu (hsub hr))
  · obtain ⟨u, hu, hid', hsub, -⟩ := hmem v hv
    exact List.Subset.trans hsub (h.request_ids u hu (hid'.symm.trans hid))
  · obtain ⟨u, hu, hid', -, hc⟩ := hmem v hv
    exact hc.trans (h.hit_count u hu (hid'.symm.trans hid))

theorem within_withdrawn {lost : List Handle} (h : Within id req ids c w w')
    (hw : Withdrawn lost w' w'') (hlost : ∀ x ∈ lost, x.2 ∈ ids) : Within id req ids c w w'' := by
  refine ⟨?_, ?_, ?_, ?_, fun x hx => ?_⟩
  · rw [hw.session]
    exact h.others
  · rw [hw.session]
    exact h.alone
  · rw [hw.session]
    exact h.request_ids
  · rw [hw.session]
    exact h.hit_count
  · rw [← h.rest x hx]
    exact ⟨hw.less x, fun hl => hw.rest x hl fun hm => hx (hlost x hm)⟩

theorem Within.owner (h : Within id req ids c w w') {sp : StopPoint}
    (ho : w'.session.owner? req = some sp) :
    sp.id = id ∧ sp.request_ids ⊆ ids ∧ sp.hit_count = c := by
  obtain ⟨hmem, hreq⟩ := owner_some ho
  have hid := h.alone sp hmem hreq
  exact ⟨hid, h.request_ids sp hmem hid, h.hit_count sp hmem hid⟩

theorem within_tally {f : StopPoint → StopPoint} (hf : Tally f) :
    Preserves (Within id req ids c w) (edit_owner req f hf.id) := by
  intro w' h
  simp only [edit_owner, edit_run]
  cases ho : w'.session.owner? req with
  | none => exact h
  | some sp =>
    obtain ⟨hid, -⟩ := h.owner ho
    simp only [hid]
    exact within_edit f hf.id (fun sp => hf.ids sp ▸ List.Subset.refl _) hf.count h

theorem within_disarm : Preserves (Within id req ids c w) (disarm_request req) := by
  intro w' h
  rw [disarm_request_run]
  obtain ⟨q, hq⟩ := noted_eq w'.session req
  have hnoted : Within id req ids c w { w' with session := noted w'.session req } := by
    refine h.same ?_ rfl
    show (noted w'.session req).stop_points = _
    rw [hq]
  cases ho : w'.session.owner? req with
  | none => exact hnoted
  | some sp =>
    obtain ⟨hid, hids, -⟩ := h.owner ho
    have hout := (clear_stop_point_withdrawn sp { w' with session := noted w'.session req }).1
    have hcleared := within_withdrawn hnoted hout fun x hx => by
      obtain ⟨r, hr, rfl⟩ := List.mem_map.mp hx
      exact hids hr
    have hoff := within_edit set_disabled (fun _ => rfl) (fun _ => List.nil_subset _)
      (fun _ => rfl) hcleared
    rw [hout.session] at hoff
    simp only [hid]
    exact hoff

theorem within_charge : Preserves (Within id req ids c w) (charge_trace_budget req) :=
  charge_preserves (fun w' sp ho h => by
    rw [(h.owner ho).1]
    exact within_edit lower_budget (fun _ => rfl) (fun _ => List.Subset.refl _) (fun _ => rfl) h)
    within_disarm fun _ _ h => h.same rfl rfl

theorem unowned_wanes {r : RequestId} (hw : Wanes w w') (h : w.session.owner? r = none) :
    w'.session.owner? r = none := by
  cases ho : w'.session.owner? r with
  | none => rfl
  | some sp' =>
    obtain ⟨hmem, hr⟩ := owner_some ho
    obtain ⟨sp, hsp, hrem⟩ := hw.stop_points sp' hmem
    have hnone := List.find?_eq_none.mp h sp hsp
    simp [StopPoint.owns_request, hrem.request_ids hr] at hnone

theorem set_spent_id (sp : StopPoint) : (set_spent sp).id = sp.id := rfl

/-- The session in which a counted stop point is spent. -/
def spent_session (s : DebugSession) (sp : StopPoint) (req : RequestId) : DebugSession :=
  (s.edit_stop_point sp.id set_spent set_spent_id).note_traced_in_flight sp.trace
    (sp.request_ids.filter fun r => r ≠ req)

theorem spent_session_stop_points (s : DebugSession) (sp : StopPoint) (req : RequestId) :
    (spent_session s sp req).stop_points = (s.edit_stop_point sp.id set_spent).stop_points := by
  obtain ⟨q, hq⟩ := (s.edit_stop_point sp.id set_spent).note_traced_in_flight_eq sp.trace
    (sp.request_ids.filter fun r => r ≠ req)
  unfold spent_session
  rw [hq]

theorem within_spend (h : Within id req ids c w w') :
    Within id req ids c w ((spend_if_counted req).run w').2 ∧
      (c.isSome → ((spend_if_counted req).run w').2.session.owner? req = none) := by
  unfold spend_if_counted
  simp only [run_bind, run_get]
  cases ho : w'.session.owner? req with
  | none => exact ⟨h, fun _ => ho⟩
  | some sp =>
    obtain ⟨hid, hids, hcount⟩ := h.owner ho
    simp only
    rw [run_ite]
    split
    · rename_i hnone
      refine ⟨h, fun hc => ?_⟩
      rw [← hcount, ← Option.not_isNone, hnone] at hc
      cases hc
    have hout := clear_each_withdrawn .breakpoint (sp.request_ids.filter fun r => r ≠ req)
      { w' with session := spent_session w'.session sp req }
    have hspent := within_edit set_spent (fun _ => rfl) (fun _ => List.nil_subset _)
      (fun _ => rfl) h
    have hsame : Within id req ids c w { w' with session := spent_session w'.session sp req } := by
      refine hspent.same ?_ rfl
      show (spent_session w'.session sp req).stop_points = _
      rw [spent_session_stop_points, hid]
    refine ⟨within_withdrawn hsame hout fun x hx => ?_, fun _ => ?_⟩
    · obtain ⟨r, hr, rfl⟩ := List.mem_map.mp hx
      exact hids (List.mem_filter.mp hr).1
    · show ((clear_each .breakpoint (sp.request_ids.filter fun r => r ≠ req)).run
        { w' with session := spent_session w'.session sp req }).2.session.owner? req = none
      rw [hout.session]
      refine List.find?_eq_none.mpr fun v hv hown => ?_
      rw [spent_session_stop_points] at hv
      obtain ⟨u, hu, rfl⟩ := (Table.mem_modify _ _ set_spent (fun _ => rfl) _).mp hv
      have hown' : req ∈ (if u.id = sp.id then set_spent u else u).request_ids := by
        simpa [StopPoint.owns_request] using hown
      split at hown'
      · exact absurd hown' List.not_mem_nil
      · rename_i hne
        exact hne ((h.alone u hu hown').trans hid.symm)

/-- What recording a traced event of the stop point leaves. -/
theorem within_record {e : Event} (he : e.request_id = req) (h : Within id req ids c w w) :
    Within id req ids c w ((record_one_traced_event e).run w).2 ∧
      ((event_location e.details).isSome → (find_traced_request w.session req).isSome → c.isSome →
        ((record_one_traced_event e).run w).2.session.owner? req = none) := by
  subst he
  have hspend : Ensures (Within id e.request_id ids c w) (spend_if_counted e.request_id)
      fun _ w' => Within id e.request_id ids c w w' ∧ ((event_location e.details).isSome →
        (find_traced_request w.session e.request_id).isSome → c.isSome →
          w'.session.owner? e.request_id = none) := fun w' hw' =>
    (within_spend hw').imp_right fun h _ _ => h
  refine record_ensures h (fun hidle => ⟨h, fun hl hn => ?_⟩) (within_tally tally_discarded)
    (within_tally tally_hit) (fun _ _ w' hw' => hw'.same rfl rfl)
    (Preserves.bind_ensures within_charge fun _ => hspend) hspend
  rcases hidle with hnone | hnone
  · simp [hnone] at hl
  · simp [hnone] at hn

end Within

section Walks

variable {strict : Prop} {hand : List Handle} {gone : Handle → Prop} {w w' : World} {e : Event}
  {r : RequestId}

theorem within_start (L : Ledger strict hand gone w) {sp : StopPoint}
    (ho : w.session.owner? r = some sp) : Within sp.id r sp.request_ids sp.hit_count w w := by
  obtain ⟨hmem, -⟩ := owner_some ho
  have heq : ∀ v ∈ w.session.stop_points.rows, v.id = sp.id → v = sp := fun v hv hid =>
    List.inj_on_of_nodup_map w.session.stop_points.nodup hv hmem hid
  refine ⟨fun _ _ => Iff.rfl, fun v hv hr => ?_, fun v hv hid => ?_, fun v hv hid => ?_,
    fun _ _ => Iff.rfl⟩
  · rw [owner_eq L hv hr] at ho
    rw [Option.some.inj ho]
  · rw [heq v hv hid]
    exact List.Subset.refl _
  · rw [heq v hv hid]

theorem record_idle (h : event_location e.details = none ∨
    find_traced_request w.session e.request_id = none) :
    ((record_one_traced_event e).run w).2 = w := by
  rcases h with h | h
  · unfold record_one_traced_event
    rw [h]
    rfl
  · rw [record_unfound h]

theorem find_traced_none (h : w.session.owner? r = none) :
    find_traced_request w.session r = none := by
  refine List.find?_eq_none.mpr fun sp hsp hown => ?_
  rw [Bool.and_eq_true] at hown
  exact List.find?_eq_none.mp h sp hsp hown.1

/-- The owner of `r`, and which of its requests are live, are the same in both worlds. -/
def Same (r : RequestId) (w w' : World) : Prop :=
  w'.session.owner? r = w.session.owner? r ∧
    ∀ sp, w.session.owner? r = some sp → ∀ h ∈ hit_handles sp, (h ∈ live w'.jvm ↔ h ∈ live w.jvm)

theorem Same.refl (r : RequestId) (w : World) : Same r w w := ⟨rfl, fun _ _ _ _ => Iff.rfl⟩

variable {w'' : World}

theorem Same.trans (h : Same r w w') (h' : Same r w' w'') : Same r w w'' :=
  ⟨h'.1.trans h.1, fun sp ho x hx => (h'.2 sp (h.1.trans ho) x hx).trans (h.2 sp ho x hx)⟩

theorem Same.spendable (h : Same r w w') (hs : Spendable w r) : Spendable w' r := by
  intro sp ho hc q hq
  have ho' := h.1.symm.trans ho
  rw [h.2 sp ho' _ (List.mem_map_of_mem hq)]
  exact hs sp ho' hc q hq

theorem Same.chargeable (h : Same r w w') (hs : Chargeable w r) : Chargeable w' r := by
  intro sp ho hout x hx
  have ho' := h.1.symm.trans ho
  exact (h.2 sp ho' x hx).mpr (hs sp ho' hout x hx)

theorem record_same (L : Ledger strict hand gone w) (hc : strict → Recordable w e)
    (hr : ∀ sp, w.session.owner? e.request_id = some sp → r ∉ sp.request_ids) :
    Same r w ((record_one_traced_event e).run w).2 := by
  cases ho : w.session.owner? e.request_id with
  | none =>
    rw [record_idle (Or.inr (find_traced_none ho))]
    exact Same.refl r w
  | some sp =>
    obtain ⟨hmem, -⟩ := owner_some ho
    have L1 := record_one_ledger e w ⟨L, hc⟩
    have hw := (within_record rfl (within_start L ho)).1
    revert L1 hw
    generalize ((record_one_traced_event e).run w).2 = w1
    intro L1 hw
    have hother : ∀ v ∈ w.session.stop_points.rows, r ∈ v.request_ids → v.id ≠ sp.id := by
      intro v hv hrv hid
      rw [List.inj_on_of_nodup_map w.session.stop_points.nodup hv hmem hid] at hrv
      exact hr sp ho hrv
    refine ⟨?_, fun v hv x hx => hw.rest x fun hin => ?_⟩
    · cases hv : w.session.owner? r with
      | none =>
        cases hv' : w1.session.owner? r with
        | none => rfl
        | some u =>
          obtain ⟨hu, hru⟩ := owner_some hv'
          by_cases hid : u.id = sp.id
          · exact absurd (hw.request_ids u hu hid hru) (hr sp ho)
          · rw [owner_eq L ((hw.others u hid).mp hu) hru] at hv
            cases hv
      | some v =>
        obtain ⟨hvmem, hrv⟩ := owner_some hv
        exact owner_eq L1 ((hw.others v (hother v hvmem hrv)).mpr hvmem) hrv
    · obtain ⟨hvmem, hrv⟩ := owner_some hv
      obtain ⟨q, hq, rfl⟩ := List.mem_map.mp hx
      refine apart L hvmem hmem (fun heq => hother v hvmem hrv (by rw [heq])) hq hin

/-- An uncounted stop point has all its requests live. -/
def Steady (w : World) (r : RequestId) : Prop :=
  ∀ sp, w.session.owner? r = some sp → sp.hit_count = none → Standing w sp

/-- Stop points may have given up their requests; what the others own is as it was, up to their
tallies. -/
def Dwindles (w w' : World) : Prop :=
  ∀ r sp', w'.session.owner? r = some sp' → ∃ sp, w.session.owner? r = some sp ∧
    sp'.request_ids = sp.request_ids ∧ sp'.hit_count = sp.hit_count ∧
      (Standing w sp → Standing w' sp')

theorem Dwindles.refl (w : World) : Dwindles w w := fun _ sp h => ⟨sp, h, rfl, rfl, id⟩

theorem Dwindles.trans (h : Dwindles w w') (h' : Dwindles w' w'') : Dwindles w w'' := by
  intro r sp'' ho
  obtain ⟨sp', ho', hids', hc', hst'⟩ := h' r sp'' ho
  obtain ⟨sp, ho, hids, hc, hst⟩ := h r sp' ho'
  exact ⟨sp, ho, hids'.trans hids, hc'.trans hc, hst' ∘ hst⟩

theorem Dwindles.of_culled (h : Culled w w') : Dwindles w w' := fun r sp ho =>
  ⟨sp, (h r sp ho).1, rfl, rfl, (h r sp ho).2⟩

theorem Dwindles.steady (h : Dwindles w w') (hs : Steady w r) : Steady w' r := by
  intro sp' ho' hc
  obtain ⟨sp, ho, -, hcount, hst⟩ := h r sp' ho'
  exact hst (hs sp ho (hcount ▸ hc))

variable {f : StopPoint → StopPoint} (req : RequestId) {events : List Event}

theorem tally_dwindles (hf : Tally f) (id : StopId) (w : World) :
    Dwindles w { w with session := w.session.edit_stop_point id f hf.id } := by
  intro r sp' ho'
  have howner := (hf.owner w.session id r).symm.trans ho'
  obtain ⟨sp, ho, heq⟩ := Option.map_eq_some_iff.mp howner
  refine ⟨sp, ho, ?_⟩
  subst heq
  split
  · refine ⟨hf.ids sp, hf.count sp, fun hst h hh => hst h ?_⟩
    unfold hit_handles at hh ⊢
    rwa [hf.ids, hf.code] at hh
  · exact ⟨rfl, rfl, fun hst => hst⟩

theorem edit_owner_dwindles (hf : Tally f) (req : RequestId) (w : World) :
    Dwindles w ((edit_owner req f hf.id).run w).2 := by
  simp only [edit_owner, edit_run]
  cases w.session.owner? req with
  | none => exact Dwindles.refl w
  | some sp => exact tally_dwindles hf sp.id w

/-- The session is as it was after `w`, and nobody has gained a request. -/
def Walked (hand : List Handle) (gone : Handle → Prop) (w w' : World) : Prop :=
  Ledger False hand gone w' ∧ Dwindles w w'

theorem tally_walked (hf : Tally f) (req : RequestId) :
    Preserves (Walked hand gone w) (edit_owner req f hf.id) := fun w' h =>
  ⟨hf.edit_owner_ledger req w' h.1, h.2.trans (edit_owner_dwindles hf req w')⟩

theorem disarm_walked :
    Preserves (Walked hand gone w) (disarm_request req) := fun _ h =>
  ⟨disarm_ledger req h.1 False.elim, h.2.trans (Dwindles.of_culled (disarm_culls h.1 req))⟩

theorem Walked.same (h : Walked hand gone w w') (hs : shelf w'' = shelf w') :
    Walked hand gone w w'' := by
  refine ⟨h.1.of_shelf hs, h.2.trans (Dwindles.of_culled (Culled.of_same ?_ ?_))⟩
  · exact congrArg Shelf.stop_points hs
  · exact congrArg Shelf.requests hs

theorem charge_walked : Preserves (Walked hand gone w) (charge_trace_budget req) :=
  charge_preserves (fun w' sp _ h => ⟨tally_budget.ledger h.1 sp.id,
    h.2.trans (tally_dwindles tally_budget sp.id w')⟩) (disarm_walked req) fun _ _ h => h.same rfl

theorem spend_walked : Preserves (Walked hand gone w) (spend_if_counted req) := by
  intro w' h
  refine ⟨spend_ledger req h.1 False.elim, h.2.trans ?_⟩
  unfold spend_if_counted
  simp only [run_bind, run_get]
  cases ho : w'.session.owner? req with
  | none => exact Dwindles.refl w'
  | some sp =>
    obtain ⟨hmem, -⟩ := owner_some ho
    simp only
    rw [run_ite]
    split
    · exact Dwindles.refl w'
    have hout := clear_each_withdrawn .breakpoint (sp.request_ids.filter fun r => r ≠ req)
      { w' with session := spent_session w'.session sp req }
    refine Dwindles.of_culled fun r v hv => ?_
    change ((clear_each .breakpoint (sp.request_ids.filter fun r => r ≠ req)).run
      { w' with session := spent_session w'.session sp req }).2.session.owner? r = some v at hv
    rw [hout.session] at hv
    obtain ⟨hv, hr⟩ := owner_some hv
    rw [spent_session_stop_points] at hv
    obtain ⟨u, hu, rfl⟩ := (Table.mem_modify _ _ set_spent (fun _ => rfl) _).mp hv
    split at hr
    · exact absurd hr List.not_mem_nil
    · rename_i hne
      rw [if_neg hne]
      refine ⟨owner_eq h.1 hu hr, fun hst x hx => hout.rest x (hst x hx) fun hx' => ?_⟩
      obtain ⟨q, hq, rfl⟩ := List.mem_map.mp hx
      obtain ⟨q', hq', heq⟩ := List.mem_map.mp hx'
      rw [show q = q' from (congrArg Prod.snd heq).symm] at hq
      exact apart h.1 hu hmem (fun heq => hne (by rw [heq])) hq (List.mem_filter.mp hq').1

theorem record_walked (e : Event) : Preserves (Walked hand gone w) (record_one_traced_event e) :=
  record_preserves (tally_walked tally_discarded _) (tally_walked tally_hit _)
    (fun _ _ _ _ _ h => h.same rfl) (charge_walked _) (spend_walked _)

theorem record_dwindles (L : Ledger strict hand gone w) (e : Event) :
    Dwindles w ((record_one_traced_event e).run w).2 := by
  have hloose : Ledger False hand gone w := ⟨L.named, L.shaped, L.custody, L.lasting, False.elim⟩
  exact (record_walked e w ⟨hloose, Dwindles.refl w⟩).2

/-- Two requests of one counted stop point cannot both have fired. -/
theorem counted_alone (L : Ledger strict hand gone w) {q : RequestId} (hr : Spendable w r)
    (hq : Spendable w q) (hne : r ≠ q) {sp : StopPoint} (ho : w.session.owner? q = some sp)
    (hc : sp.hit_count.isSome) : r ∉ sp.request_ids := by
  intro hin
  obtain ⟨hmem, -⟩ := owner_some ho
  have hlive := (hq sp ho hc r hin).mpr hne
  exact (hr sp (owner_eq L hmem hin) hc r hin).mp hlive rfl

theorem foreign_or_owned (w : World) (q r : RequestId) :
    (∀ sp, w.session.owner? q = some sp → r ∉ sp.request_ids) ∨
      ∃ sp, w.session.owner? q = some sp ∧ r ∈ sp.request_ids := by
  by_cases h : ∃ sp, w.session.owner? q = some sp ∧ r ∈ sp.request_ids
  · exact Or.inr h
  · exact Or.inl fun sp ho hr => h ⟨sp, ho, hr⟩

theorem spendable_record (L : Ledger strict hand gone w) (hrec : Recordable w e)
    (hs : Spendable w r) (hne : r ≠ e.request_id) :
    Spendable ((record_one_traced_event e).run w).2 r := by
  rcases foreign_or_owned w e.request_id r with hr | ⟨sp, ho, hin⟩
  · exact (record_same L (fun _ => hrec) hr).spendable hs
  · intro sp' ho' hc
    obtain ⟨v, hv, -, hcount, -⟩ := record_dwindles L e r sp' ho'
    rw [owner_eq L (owner_some ho).1 hin, Option.some.injEq] at hv
    subst hv
    exact absurd hin (counted_alone L hs hrec.1 hne ho (hcount ▸ hc))

theorem chargeable_record (L : Ledger strict hand gone w) (hrec : Recordable w e)
    (hs : Spendable w r) (hcharge : Chargeable w r) (hst : Steady w r) (hne : r ≠ e.request_id) :
    Chargeable ((record_one_traced_event e).run w).2 r := by
  rcases foreign_or_owned w e.request_id r with hr | ⟨sp, ho, hin⟩
  · exact (record_same L (fun _ => hrec) hr).chargeable hcharge
  · intro sp' ho' _
    obtain ⟨v, hv, -, hcount, hkeep⟩ := record_dwindles L e r sp' ho'
    have hv' := hv
    rw [owner_eq L (owner_some ho).1 hin, Option.some.injEq] at hv'
    subst hv'
    refine hkeep (hst sp hv ?_)
    rw [← Option.not_isSome_iff_eq_none]
    exact fun hc => counted_alone L hs hrec.1 hne ho hc hin

/-- The events can be recorded one after another: what each needs holds already. -/
def Ready (events : List Event) (w : World) : Prop :=
  (events.map Event.request_id).Nodup ∧
    ∀ e ∈ events, Recordable w e ∧ Steady w e.request_id

theorem ready_record {rest : List Event} (L : Ledger True hand gone w) (h : Ready (e :: rest) w) :
    Ready rest ((record_one_traced_event e).run w).2 := by
  obtain ⟨hnodup, hall⟩ := h
  obtain ⟨hout, hnodup⟩ := List.nodup_cons.mp hnodup
  have hrec := (hall e List.mem_cons_self).1
  refine ⟨hnodup, fun e' he' => ?_⟩
  have hne : e'.request_id ≠ e.request_id := fun heq => hout (heq ▸ List.mem_map_of_mem he')
  obtain ⟨⟨hspend, hcharge⟩, hsteady⟩ := hall e' (List.mem_cons_of_mem e he')
  exact ⟨⟨spendable_record L hrec hspend hne,
    chargeable_record L hrec hspend hcharge hsteady hne⟩, (record_dwindles L e).steady hsteady⟩

def walk : List Event → World → World
  | [], w => w
  | e :: rest, w => walk rest ((record_one_traced_event e).run w).2

theorem walk_append (l l' : List Event) (w : World) : walk (l ++ l') w = walk l' (walk l w) := by
  induction l generalizing w with
  | nil => rfl
  | cons e rest ih => exact ih _

theorem record_events_walk (events : List Event) (handled : Option ThreadId) (ours : Bool)
    (w : World) : ((record_traced_events handled ours events).run w).2 = walk events w := by
  induction events generalizing handled ours w with
  | nil => rfl
  | cons e rest ih =>
    unfold record_traced_events walk
    rw [run_bind]
    generalize (record_one_traced_event e).run w = res
    obtain ⟨t, w1⟩ := res
    cases t <;> exact ih _ _ _

theorem walk_wanes (events : List Event) (w : World) : Wanes w (walk events w) := by
  rw [← record_events_walk events none true]
  exact record_events_wanes events none true w

theorem walkable_of_ready (L : Ledger True hand gone w) (h : Ready events w) :
    Walkable events w := by
  induction events generalizing w with
  | nil => trivial
  | cons e rest ih =>
    have hrec := (h.2 e List.mem_cons_self).1
    exact ⟨hrec, ih (record_one_ledger e w ⟨L, fun _ => hrec⟩) (ready_record L h)⟩

theorem walk_same (L : Ledger True hand gone w) (h : Ready events w)
    (hr : ∀ e ∈ events, ∀ sp, w.session.owner? e.request_id = some sp → r ∉ sp.request_ids) :
    Same r w (walk events w) ∧ Ledger True hand gone (walk events w) := by
  induction events generalizing w with
  | nil => exact ⟨Same.refl r w, L⟩
  | cons e rest ih =>
    have hrec := (h.2 e List.mem_cons_self).1
    have L1 := record_one_ledger e w ⟨L, fun _ => hrec⟩
    have hone := record_same L (fun _ => hrec) (hr e List.mem_cons_self)
    obtain ⟨hsame, Ln⟩ := ih L1 (ready_record L h) fun e' he' sp' ho' => by
      obtain ⟨sp, ho, hids, -⟩ := record_dwindles L e _ sp' ho'
      rw [hids]
      exact hr e' (List.mem_cons_of_mem e he') sp ho
    exact ⟨hone.trans hsame, Ln⟩

theorem walk_spendable (L : Ledger True hand gone w) (h : Ready events w) (hs : Spendable w r)
    (hr : r ∉ events.map Event.request_id) : Spendable (walk events w) r := by
  induction events generalizing w with
  | nil => exact hs
  | cons e rest ih =>
    have hrec := (h.2 e List.mem_cons_self).1
    rw [List.map_cons, List.mem_cons, not_or] at hr
    obtain ⟨hne, hr⟩ := hr
    exact ih (record_one_ledger e w ⟨L, fun _ => hrec⟩) (ready_record L h)
      (spendable_record L hrec hs hne) hr

end Walks


section Reports

variable {strict : Prop} {hand : List Handle} {gone : Handle → Prop} {w w' : World} {e : Event}
  {r : RequestId} {es : EventSet}

/-- After the walk at most a thread is let go. -/
theorem record_trace_walked (es : EventSet) (w : World) :
    ((try_record_trace es).run w).2 = walk es.events w ∨
      ∃ t, ((try_record_trace es).run w).2 = ((resume_thread t).run (walk es.events w)).2 := by
  have hrun := record_events_walk es.events none (!es.events.isEmpty) w
  unfold try_record_trace
  rw [run_bind, ← hrun]
  split
  · exact Or.inr ⟨_, rfl⟩
  · exact Or.inl rfl

theorem record_trace_bench (es : EventSet) (w : World) :
    bench ((try_record_trace es).run w).2 = bench (walk es.events w) := by
  rcases record_trace_walked es w with h | ⟨t, h⟩
  · rw [h]
  · rw [h, resume_thread_bench]

theorem spending_of_bench (h : bench w' = bench w) : spending r w' = spending r w := by
  have hb := congrArg Prod.fst h
  simp only [bench, shelf, Shelf.mk.injEq] at hb
  simp only [spending, DebugSession.owner?, live, hb.1, hb.2.2.2.2.2.1]

/-- The first event can be reported after the walk: a counted stop point that was recorded owns
nothing any more, and one that was not is as it was. -/
theorem reportable_of_ready (L : Ledger True hand gone w) (h : Ready es.events w) :
    Reportable ((try_record_trace es).run w).2 es := by
  intro e hhead
  refine spendable_congr (spending_of_bench (record_trace_bench es w)) ?_
  obtain ⟨rest, hev⟩ := List.head?_eq_some_iff.mp hhead
  rw [hev] at h ⊢
  have hrec := (h.2 e List.mem_cons_self).1
  have L1 := record_one_ledger e w ⟨L, fun _ => hrec⟩
  show Spendable (walk rest ((record_one_traced_event e).run w).2) e.request_id
  refine walk_spendable L1 (ready_record L h) ?_ (List.nodup_cons.mp h.1).1
  by_cases hidle : event_location e.details = none ∨
      find_traced_request w.session e.request_id = none
  · rw [record_idle hidle]
    exact hrec.1
  · intro sp ho hc
    rw [not_or] at hidle
    have hfound := Option.isSome_iff_ne_none.mpr hidle.2
    cases ho0 : w.session.owner? e.request_id with
    | none => exact absurd (find_traced_none ho0) hidle.2
    | some sp0 =>
      obtain ⟨hw, hgone⟩ := within_record rfl (within_start L ho0)
      have hcount := (hw.owner ho).2.2
      rw [hgone (Option.isSome_iff_ne_none.mpr hidle.1) hfound (hcount ▸ hc)] at ho
      cases ho

theorem owned_zero {s : DebugSession} {h : Handle} (hl : ¬ Lasting h.1) (ho : s.owner? h.2 = none) :
    owned s h = 0 := by
  have hwatch : ∀ q, h ≠ watch_handle q := fun q heq => hl (by rw [heq]; exact Or.inl rfl)
  have hsp : s.stop_points.total (fun sp => (handles sp).count h) = 0 := by
    refine (Table.total_eq_zero _ _).mpr fun sp hsp => List.count_eq_zero_of_not_mem fun hin => ?_
    rcases List.mem_append.mp hin with hin | hin
    · obtain ⟨q, hq, rfl⟩ := List.mem_map.mp hin
      have hnone := List.find?_eq_none.mp ho sp hsp
      simp [StopPoint.owns_request, hq] at hnone
    · obtain ⟨q, -, heq⟩ := Option.map_eq_some_iff.mp (Option.mem_toList.mp hin)
      exact hwatch q heq.symm
  have hp : (deferral_handles s.pending_breakpoints).count h = 0 := by
    refine List.count_eq_zero_of_not_mem fun hin => ?_
    obtain ⟨p, -, heq⟩ := List.mem_map.mp hin
    exact hwatch _ heq.symm
  have hset : s.pattern_sets.total (fun set => (family_handles set).count h) = 0 := by
    refine (Table.total_eq_zero _ _).mpr fun set _ => List.count_eq_zero_of_not_mem fun hin => ?_
    obtain ⟨q, -, heq⟩ := Option.map_eq_some_iff.mp (Option.mem_toList.mp hin)
    exact hwatch q heq.symm
  have hstep : (step_handles s.pending_step).count h = 0 := by
    refine List.count_eq_zero_of_not_mem fun hin => ?_
    obtain ⟨q, -, heq⟩ := Option.map_eq_some_iff.mp (Option.mem_toList.mp hin)
    exact hl (by rw [← heq]; exact Or.inr rfl)
  unfold owned
  omega

/-- The path that the composite takes reads the event: it has a place, its stop point still
carries a count, and either that is traced or the event comes first. -/
def Read (w : World) (es : EventSet) (r : RequestId) : Prop :=
  ∃ e ∈ es.events, e.request_id = r ∧ (event_location e.details).isSome ∧
    ∃ sp, w.session.owner? r = some sp ∧ sp.hit_count.isSome ∧
      (sp.trace = true ∨ es.events.head? = some e)

variable {sp : StopPoint}

theorem walk_traced {pre post : List Event} (L : Ledger True hand gone w)
    (h : Ready (pre ++ e :: post) w) (hloc : (event_location e.details).isSome)
    (ho : w.session.owner? e.request_id = some sp) (hc : sp.hit_count.isSome) (ht : sp.trace = true)
    : (walk (pre ++ e :: post) w).session.owner? e.request_id = none := by
  obtain ⟨hnodup, hall⟩ := h
  rw [List.map_append] at hnodup
  obtain ⟨hpre, -, hcross⟩ := List.nodup_append.mp hnodup
  have hread := (hall e (List.mem_append_right pre List.mem_cons_self)).1.1
  obtain ⟨hsame, L1⟩ := walk_same L ⟨hpre, fun a ha => hall a (List.mem_append_left _ ha)⟩
    fun a ha v hv hin => by
      obtain rfl := Option.some.inj ((owner_eq L (owner_some hv).1 hin).symm.trans ho)
      have hne := hcross _ (List.mem_map_of_mem ha) _ List.mem_cons_self
      exact counted_alone L hread (hall a (List.mem_append_left _ ha)).1.1 hne.symm hv hc hin
  have ho1 := hsame.1.trans ho
  have hfound : (find_traced_request (walk pre w).session e.request_id).isSome := by
    obtain ⟨hmem, hreq⟩ := owner_some ho1
    refine List.find?_isSome.mpr ⟨sp, hmem, ?_⟩
    simp [StopPoint.owns_request, hreq, ht]
  have hnone := (within_record rfl (within_start L1 ho1)).2 hloc hfound hc
  rw [walk_append]
  exact unowned_wanes (walk_wanes post _) hnone

theorem record_untraced (L : Ledger strict hand gone w)
    (ho : w.session.owner? e.request_id = some sp) (ht : sp.trace = false) :
    (record_one_traced_event e).run w = (none, w) := by
  obtain ⟨hmem, hreq⟩ := owner_some ho
  have hfind : find_traced_request w.session e.request_id = none := by
    refine List.find?_eq_none.mpr fun v hv hown => ?_
    rw [Bool.and_eq_true] at hown
    have hin : e.request_id ∈ v.request_ids := by simpa [StopPoint.owns_request] using hown.1
    rw [owner_eq L hv hin, Option.some.injEq] at ho
    rw [ho, ht] at hown
    cases hown.2
  have hlive : w.session.was_traced_and_disarmed e.request_id = false := by
    have : w.session.owns_live_request e.request_id = true := by
      simp only [DebugSession.owns_live_request, Bool.or_eq_true, List.any_eq_true]
      exact Or.inl (Or.inl ⟨sp, hmem, by simpa [StopPoint.owns_request] using hreq⟩)
    simp [DebugSession.was_traced_and_disarmed, this]
  rw [record_unfound hfind, hlive]
  rfl

theorem record_events_foreign (events : List Event) (handled : Option ThreadId) (w : World) :
    ((record_traced_events handled false events).run w).1.2 = false := by
  induction events generalizing handled w with
  | nil => rfl
  | cons e rest ih =>
    unfold record_traced_events
    rw [run_bind]
    generalize (record_one_traced_event e).run w = res
    obtain ⟨t, w1⟩ := res
    cases t <;> exact ih _ _

/-- The suspending path reads the first event and spends its stop point. -/
theorem store_first (L : Ledger strict hand gone w) (hhead : es.events.head? = some e)
    (hloc : (event_location e.details).isSome) (ho : w.session.owner? e.request_id = some sp)
    (hc : sp.hit_count.isSome) :
    ((store_reportable_event es).run w).2.session.owner? e.request_id = none := by
  have hspent : ∀ v : World, Ledger strict hand gone v →
      spending e.request_id v = spending e.request_id w →
      ((spend_if_counted e.request_id).run v).2.session.owner? e.request_id = none := by
    intro v Lv hv
    simp only [spending, Prod.mk.injEq, ho, Option.map_some] at hv
    obtain ⟨u, hu, heq⟩ := Option.map_eq_some_iff.mp hv.1
    simp only [Prod.mk.injEq] at heq
    exact (within_spend (within_start Lv hu)).2 (heq.1 ▸ hc)
  obtain ⟨⟨thread, loc⟩, hp⟩ := Option.isSome_iff_exists.mp hloc
  have L1 := judge_ledger e thread loc (decide (es.suspend_policy = .eventThread)) w L
  have hk := judge_spending e.request_id e thread loc
    (decide (es.suspend_policy = .eventThread)) w
  unfold store_reportable_event
  simp only [hhead, hp, run_bind]
  revert L1 hk
  generalize (judge_hit e thread loc (decide (es.suspend_policy = .eventThread))).run w = res
  obtain ⟨t, w1⟩ := res
  intro L1 hk
  cases t with
  | none => exact hspent w1 L1 hk
  | some escalation =>
    exact hspent _ (surface_ledger es escalation w1 L1)
      ((surface_spending _ es escalation w1).trans hk)

theorem listen_plain (h : es.events.findSome? (fun e => class_prepare_of e.details) = none) :
    (listen es).run w = (do if ← try_record_trace es then pure () else
      store_reportable_event es : Handler Unit).run w := by
  have hrun : (try_arm_deferred_breakpoints es).run w = (false, w) := by
    unfold try_arm_deferred_breakpoints
    rw [h]
    rfl
  unfold Rearming.listen
  simp only [run_bind, hrun, Bool.false_eq_true, if_false]

/-- The walk does not end in a resume when an untraced stop point's event comes first. -/
theorem record_trace_foreign {rest : List Event} (hev : es.events = e :: rest)
    (hrec : (record_one_traced_event e).run w = (none, w)) :
    ((try_record_trace es).run w).1 = false := by
  have hfalse := record_events_foreign rest none w
  have hrun : (record_traced_events none (!es.events.isEmpty) es.events).run w =
      (record_traced_events none false rest).run w := by
    rw [hev]
    simp only [record_traced_events, run_bind, hrec]
  unfold try_record_trace
  rw [run_bind, hrun]
  revert hfalse
  generalize (record_traced_events none false rest).run w = res
  obtain ⟨⟨t, ours⟩, w1⟩ := res
  intro hfalse
  dsimp only at hfalse
  subst hfalse
  cases t <;> rfl

/-- A counted stop point whose event is read owns nothing afterwards. -/
theorem read_spends (L : Ledger True hand gone w) (h : Ready es.events w)
    (hplain : es.events.findSome? (fun e => class_prepare_of e.details) = none)
    (hread : Read w es r) : ((listen es).run w).2.session.owner? r = none := by
  obtain ⟨e, hin, rfl, hloc, sp, ho, hc, hway⟩ := hread
  have hbench := record_trace_bench es w
  rw [listen_plain hplain, run_bind]
  by_cases ht : sp.trace = true
  · obtain ⟨pre, post, hev⟩ := List.append_of_mem hin
    have hnone := walk_traced L (hev ▸ h) hloc ho hc ht
    rw [← hev] at hnone
    have hnone' := unowned_wanes (Wanes.of_shelf (congrArg Prod.fst hbench)) hnone
    split
    · exact hnone'
    · exact unowned_wanes (store_wanes es _) hnone'
  · obtain ⟨rest, hev⟩ := List.head?_eq_some_iff.mp (hway.resolve_left ht)
    have hrec := record_untraced L ho (Bool.eq_false_iff.mpr ht)
    have hwalk : walk es.events w = walk rest w := by
      rw [hev, walk, hrec]
    rw [hev] at h
    have hready : Ready rest w := by
      have := ready_record L h
      rwa [hrec] at this
    obtain ⟨hsame, L1⟩ := walk_same L hready fun e' he' v hv hin => by
      obtain rfl := Option.some.inj ((owner_eq L (owner_some hv).1 hin).symm.trans ho)
      have hne : e.request_id ≠ e'.request_id := fun heq =>
        (List.nodup_cons.mp h.1).1 (heq ▸ List.mem_map_of_mem he')
      exact counted_alone L (h.2 e List.mem_cons_self).1.1
        (h.2 e' (List.mem_cons_of_mem e he')).1.1 hne hv hc hin
    have hsp := hsame.1.trans ho
    rw [← hwalk] at L1 hsp
    have L2 := L1.of_shelf (congrArg Prod.fst hbench)
    have hsp' : ((try_record_trace es).run w).2.session.owner? e.request_id = some sp := by
      have := congrArg (fun b => b.1.stop_points) hbench
      simp only [bench, shelf] at this
      rw [← hsp]
      unfold DebugSession.owner?
      rw [this]
    rw [record_trace_foreign hev hrec]
    exact store_first L2 (hway.resolve_left ht) hloc hsp' hc

end Reports

section Runs

variable {w : World} {es : EventSet}

/-- What the composite that the listener takes has to meet: of a counted stop point no second
request has fired, its hit does not use up a trace budget, and the event is read. -/
structure Landing (w : World) (es : EventSet) : Prop where
  apart : (es.events.findSome? fun e => class_prepare_of e.details).isSome → ∀ h, ¬ Fallen w es h
  ready : Ready es.events w
  read : ∀ h, Fallen w es h → Read w es h.2

theorem landable {gone : Handle → Prop} (L : Ledger True [] gone w) (h : Landing w es) :
    Landable w es := by
  refine ⟨h.apart, walkable_of_ready L h.ready, reportable_of_ready L h.ready, fun x hx => ?_⟩
  cases hcp : es.events.findSome? fun e => class_prepare_of e.details with
  | some c => exact absurd hx (h.apart (by rw [hcp]; rfl) x)
  | none => exact owned_zero hx.2.2.2 (read_spends L h.ready hcp (h.read x hx))

/-- The condition on one move. -/
def Careful (w : World) : Move → Prop
  | .call c a => ClearsAccepted a ∧ Orderly (w.begin a) c
  | .fire _ _ => True
  | .listen a => ClearsAccepted a ∧ ∀ es rest, w.queue = es :: rest →
    Landing ({ w with queue := rest }.begin a) es
  | .hit es t a => ClearsAccepted a ∧ Landing (met w es t a) es

theorem kept_of_careful {m : Move} (L : Ledger True [] nothing w) (hallowed : m.Allowed w)
    (h : Careful w m) : Kept w m := by
  cases m with
  | call c a => exact h
  | fire es t => trivial
  | listen a =>
    refine ⟨h.1, fun es rest hq => ?_⟩
    have L1 := begin_ledger a (take_ledger hq L) fun _ => h.1
    exact landable L1 (h.2 es rest hq)
  | hit es t a =>
    have hq : (World.fire w es t).queue = [es] := by
      simp only [World.fire, hallowed.2, List.nil_append]
    have L1 := begin_ledger a (take_ledger hq (fire_ledger es t L)) fun _ => h.1
    exact ⟨h.1, landable L1 h.2⟩

/-- Every live request stands in one record, no Clear went to a deleted one, and a stop point
that is off or spent has no hit request. -/
structure Agreed (w : World) : Prop where
  owned_once : ∀ q ∈ w.jvm.requests, owned w.session q.handle = 1
  no_stray : w.jvm.stray_clears = []
  off : ∀ sp ∈ w.session.stop_points.rows, sp.enabled = false ∨ sp.spent = true →
    sp.request_ids = []

theorem agreed_of_ledger (L : Ledger True [] nothing w) : Agreed w := by
  have hx := L.exact_ trivial
  refine ⟨fun q hq => ?_, hx.no_stray, fun sp hsp hoff => ?_⟩
  · have hpos := hx.covered q.handle (List.mem_map_of_mem hq)
    have hle := L.custody.once q.handle
    simp only [List.count_nil] at hpos hle
    omega
  · have hs := L.shaped sp hsp
    exact hs.off (hoff.elim id hs.spent)

/-- In a run whose every move is careful, the live requests and the records agree throughout. -/
theorem books_agree {threads : List ThreadId} {a : Answers} (ha : ClearsAccepted a)
    (hrun : Run Careful (World.start threads a) w) : Agreed w :=
  agreed_of_ledger (Run.invariant (fun _ m L hallowed hok =>
    move_ledger m hallowed L fun _ => kept_of_careful L hallowed hok) hrun
    (start_ledger threads a fun _ => ha))

/-- An exception stop is armed. -/
def exception_armed : World :=
  (Move.call (.set_exception_stop [("*", none)] true true (plain_options none) 1) plain).next
    (World.start [1] plain)

theorem books_agree_exception_armed :
    exception_armed.jvm.requests ≠ [] ∧ Agreed exception_armed := by
  refine ⟨by decide, @books_agree _ [1] plain ⟨fun _ _ _ => rfl, fun _ => rfl⟩ ?_⟩
  refine Relation.ReflTransGen.single (Step.intro _ trivial ⟨⟨fun _ _ _ => rfl, fun _ => rfl⟩, ?_⟩)
  trivial

/-- Whatever had been armed, deferred or fired before: after a panic no record is left, and as long
as no call arms and no class loads, only steps and class-load watches join the requests that are in
the debuggee. A careful run loses no request, so that none is left there. -/
theorem panic_disarms {threads : List ThreadId} {a b : Answers}
    (hrun : Run (fun _ _ => True) (World.start threads a) w) :
    (∀ h, owned ((Move.call .panic b).next w).session h = 0) ∧
    (∀ w', Run Unarming ((Move.call .panic b).next w) w' → ∀ q ∈ w'.jvm.requests,
      q ∈ ((Move.call .panic b).next w).jvm.requests ∨ Lasting q.kind.code) ∧
    (ClearsAccepted a → Run Careful (World.start threads a) w → Careful w (.call .panic b) →
      ((Move.call .panic b).next w).jvm.requests = []) := by
  have hzero := (panic_ledger (begin_ledger b (run_ledger hrun) False.elim) False.elim).2
  simp only [Move.next, Call.run, run_bind, run_pure]
  refine ⟨hzero, fun w' hlater q hq => ?_, fun ha hcareful hok => ?_⟩
  · have hw := Run.invariant (fun _ _ h hm hok => h.trans (move_wanes hm hok)) hlater
      (Wanes.of_shelf rfl)
    exact (hw.requests q hq).imp_right And.left
  · have L := Run.invariant (fun _ m L hallowed h =>
      move_ledger m hallowed L fun _ => kept_of_careful L hallowed h) hcareful
      (start_ledger threads a fun _ => ha)
    obtain ⟨L1, -⟩ := panic_ledger (begin_ledger b L fun _ => hok.1) fun _ => hok.2
    refine List.eq_nil_iff_forall_not_mem.mpr fun q hq => ?_
    have hcovered := (L1.exact_ trivial).covered q.handle (List.mem_map_of_mem hq)
    rw [hzero] at hcovered
    exact lt_irrefl 0 hcovered

theorem panic_disarms_exception_armed : exception_armed.jvm.requests ≠ [] ∧
    ((Move.call .panic plain).next exception_armed).jvm.requests = [] := by
  have hplain : ClearsAccepted plain := ⟨fun _ _ _ => rfl, fun _ => rfl⟩
  have hrun : Run Careful (World.start [1] plain) exception_armed :=
    Relation.ReflTransGen.single (Step.intro _ trivial ⟨hplain, trivial⟩)
  have hany : Run (fun _ _ => True) (World.start [1] plain) exception_armed :=
    Relation.ReflTransGen.single (Step.intro _ trivial trivial)
  refine ⟨by decide, (panic_disarms hany).2.2 hplain hrun ⟨hplain, ?_⟩⟩
  unfold Orderly Standing
  decide +kernel

/-- The class is loaded only when the watch for it has been set, and without the line. -/
def late : Answers :=
  { plain with
    classes_by_signature := fun n _ => if n = 0 then .ok [] else .ok [1]
    resolve_bp_location := fun _ _ _ _ => .error (.no_such_line 10) }

/-- A breakpoint on that line is refused, and its class-load watch stays. -/
def watch_lost : World :=
  (Move.call (.set_line_stop ["A"] (some 10) none (plain_options none) [] 1) late).next
    (World.start [1] late)

/-- The moves whose Clears all succeed. -/
def Accepting (_ : World) : Move → Prop
  | .call _ a | .listen a | .hit _ _ a => ClearsAccepted a
  | .fire _ _ => True

theorem lost_watch_disagrees : ¬ ∀ (threads : List ThreadId) (a : Answers) (w : World),
    ClearsAccepted a → Run Accepting (World.start threads a) w → Agreed w := by
  intro h
  have ha : ClearsAccepted late := ⟨fun _ _ _ => rfl, fun _ => rfl⟩
  have hagree := h [1] late watch_lost ha
    (Relation.ReflTransGen.single (Step.intro _ trivial ha))
  have hlost : ∃ q ∈ watch_lost.jvm.requests, owned watch_lost.session q.handle ≠ 1 := by decide
  obtain ⟨q, hq, hne⟩ := hlost
  exact hne (hagree.owned_once q hq)

end Runs

end JavaDebug.AgreedBooks
