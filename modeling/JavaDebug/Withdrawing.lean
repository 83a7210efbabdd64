import Mathlib.Data.List.Flatten
import JavaDebug.Ownership

/-!
The ledger through the functions that take requests out: disarming, disabling
and spending a stop point, the three ways to clear, families and their
watches, the pending step, and the panic button.
-/
namespace JavaDebug.Withdrawing

open Jdwp StopPoints Wire Disarming
open Resuming StateProgram Runs Ownership

variable {strict : Prop} {hand : List Handle} {gone : Handle → Prop} {w w' : World}

/-- None of the stop point's requests has fired away. -/
def Standing (w : World) (sp : StopPoint) : Prop := ∀ h ∈ hit_handles sp, h ∈ live w.jvm

/-- The stop point under `id`, if there is one, has all its requests live. -/
def StandingAt (w : World) (id : StopId) : Prop :=
  ∀ sp, w.session.stop_points.get? id = some sp → Standing w sp

section Records

variable {s : DebugSession} {sp : StopPoint} {r : RequestId}

theorem named_edit (hs : Named s) {id : StopId} {f : StopPoint → StopPoint}
    {hf : ∀ sp, (f sp).id = sp.id} (hw : ∀ sp, (f sp).watch_request = sp.watch_request) :
    Named (s.edit_stop_point id f hf) := by
  refine ⟨fun sp hsp => ?_, hs.deferrals, hs.families, hs.members, hs.once, fun p hp => ?_,
    hs.outside, fun set hset m hm sp hsp => ?_, hs.distinct, hs.unwatched⟩
  · obtain ⟨v, hv, rfl⟩ := (Table.mem_modify _ _ _ hf _).mp hsp
    split
    · rw [hf]
      exact hs.stops v hv
    · exact hs.stops v hv
  · simp only [DebugSession.edit_stop_point, Table.get?_modify, hs.unarmed p hp]
    split <;> rfl
  · simp only [DebugSession.edit_stop_point, Table.get?_modify] at hsp
    split at hsp
    · obtain ⟨v, hv, rfl⟩ := Option.map_eq_some_iff.mp hsp
      rw [hw]
      exact hs.covered set hset m hm v hv
    · exact hs.covered set hset m hm sp hsp

theorem shaped_edit (hs : ∀ sp ∈ s.stop_points.rows, Shaped sp) {id : StopId}
    {f : StopPoint → StopPoint} {hf : ∀ sp, (f sp).id = sp.id}
    (hshape : ∀ sp ∈ s.stop_points.rows, sp.id = id → Shaped (f sp)) :
    ∀ sp ∈ (s.edit_stop_point id f hf).stop_points.rows, Shaped sp := by
  intro sp hsp
  obtain ⟨v, hv, rfl⟩ := (Table.mem_modify _ _ _ hf _).mp hsp
  split
  · rename_i hid
    exact hshape v hv hid
  · exact hs v hv

theorem named_erase (hs : Named s) (id : StopId) :
    Named { s with stop_points := s.stop_points.erase id } := by
  refine ⟨fun sp hsp => hs.stops sp ((Table.mem_erase _ _ _).mp hsp).1, hs.deferrals, hs.families,
    hs.members, hs.once, fun p hp => ?_, hs.outside, fun set hset m hm sp hsp => ?_, hs.distinct,
    hs.unwatched⟩
  · simp only [Table.get?_erase, hs.unarmed p hp]
    split <;> rfl
  · rw [Table.get?_erase] at hsp
    split at hsp
    · cases hsp
    · exact hs.covered set hset m hm sp hsp

theorem hit_handles_off (h : sp.request_ids = []) : hit_handles sp = [] := by
  simp [hit_handles, h]

theorem request_ids_nodup (L : Ledger strict hand gone w) (hsp : sp ∈ w.session.stop_points.rows) :
    sp.request_ids.Nodup :=
  List.Nodup.of_map (fun r => (sp.armed_on.code, r))
    (List.nodup_append.mp (L.handles_nodup hsp)).1

theorem hit_mem_handles (hr : r ∈ sp.request_ids) :
    (sp.armed_on.code, r) ∈ handles sp := List.mem_append_left _ (List.mem_map_of_mem hr)

theorem owned_of_handle (hsp : sp ∈ s.stop_points.rows) {h : Handle} (hh : h ∈ handles sp) :
    0 < owned s h := by
  have hpos := List.count_pos_iff.mpr hh
  have hle := Table.le_total (fun sp => (handles sp).count h) s.stop_points hsp
  simp only [owned]
  omega

theorem handles_apart (L : Ledger strict hand gone w) {sp' : StopPoint}
    (hsp : sp ∈ w.session.stop_points.rows) (hsp' : sp' ∈ w.session.stop_points.rows)
    (hne : sp ≠ sp') {h : Handle} (hh : h ∈ handles sp) : h ∉ handles sp' := by
  intro hh'
  have hpos := List.count_pos_iff.mpr hh
  have hpos' := List.count_pos_iff.mpr hh'
  have htwo := Table.add_le_total (fun sp => (handles sp).count h) w.session.stop_points hsp hsp'
    hne
  have hone := L.custody.once h
  simp only [owned] at hone htwo
  omega

theorem apart (L : Ledger strict hand gone w) {sp' : StopPoint}
    (hsp : sp ∈ w.session.stop_points.rows) (hsp' : sp' ∈ w.session.stop_points.rows)
    (hne : sp ≠ sp') (hr : r ∈ sp.request_ids) : r ∉ sp'.request_ids := by
  intro hr'
  have hcode : (sp.armed_on.code, r) = (sp'.armed_on.code, r) := by
    refine L.custody.sole _ _ ?_ ?_ rfl
    · exact Nat.add_pos_left (owned_of_handle hsp (hit_mem_handles hr)) _
    · exact Nat.add_pos_left (owned_of_handle hsp' (hit_mem_handles hr')) _
  refine handles_apart L hsp hsp' hne (hit_mem_handles hr) ?_
  rw [hcode]
  exact hit_mem_handles hr'

theorem owner_eq (L : Ledger strict hand gone w) (hsp : sp ∈ w.session.stop_points.rows)
    (hr : r ∈ sp.request_ids) : w.session.owner? r = some sp := by
  cases ho : w.session.owner? r with
  | none =>
    have := List.find?_eq_none.mp ho sp hsp
    simp [StopPoint.owns_request, hr] at this
  | some sp' =>
    have hmem := List.mem_of_find?_eq_some ho
    have howns : r ∈ sp'.request_ids := by
      simpa [StopPoint.owns_request] using List.find?_some ho
    by_contra hne
    exact apart L hmem hsp (fun h => hne (by rw [h])) howns hr

theorem owner_some (h : s.owner? r = some sp) : sp ∈ s.stop_points.rows ∧ r ∈ sp.request_ids :=
  ⟨List.mem_of_find?_eq_some h, by simpa [StopPoint.owns_request] using List.find?_some h⟩

end Records

section OneStopPoint

/-- The stop point under `id` gave up its requests; the others and theirs are as they were. -/
structure SwitchedOff (id : StopId) (w w' : World) : Prop where
  others : ∀ j, j ≠ id → w'.session.stop_points.get? j = w.session.stop_points.get? j
  less : ∀ h ∈ live w'.jvm, h ∈ live w.jvm
  rest : ∀ h ∈ live w.jvm, (∀ sp, w.session.stop_points.get? id = some sp → h ∉ hit_handles sp) →
    h ∈ live w'.jvm

theorem SwitchedOff.refl (id : StopId) (w : World) : SwitchedOff id w w :=
  ⟨fun _ _ => rfl, fun _ h => h, fun _ h _ => h⟩

theorem SwitchedOff.standing {id j : StopId} (h : SwitchedOff id w w')
    (L : Ledger strict hand gone w) (hj : j ≠ id) (hst : StandingAt w j) : StandingAt w' j := by
  intro sp hsp x hx
  rw [h.others j hj] at hsp
  refine h.rest x (hst sp hsp x hx) fun v hv hxv => ?_
  obtain ⟨hmem, hid⟩ := (Table.get?_eq_some _ _ _).mp hsp
  obtain ⟨hmem', hid'⟩ := (Table.get?_eq_some _ _ _).mp hv
  refine handles_apart L hmem hmem' (fun heq => hj ?_) (List.mem_append_left _ hx)
    (List.mem_append_left _ hxv)
  rw [← hid, ← hid', heq]

variable (s : DebugSession) {sp : StopPoint}

theorem get?_edit (id : StopId) (f : StopPoint → StopPoint) (hf : ∀ sp, (f sp).id = sp.id) :
    (s.edit_stop_point id f hf).stop_points.get? id = (s.stop_points.get? id).map f := by
  simp [DebugSession.edit_stop_point, Table.get?_modify]

theorem others_edit (id : StopId) (f : StopPoint → StopPoint) (hf : ∀ sp, (f sp).id = sp.id)
    {j : StopId} (hj : j ≠ id) :
    (s.edit_stop_point id f hf).stop_points.get? j = s.stop_points.get? j := by
  simp [DebugSession.edit_stop_point, Table.get?_modify, hj]

/-- Once its requests are cleared, a stop point may be told that it has none. -/
theorem ledger_off (f : StopPoint → StopPoint) (hf : ∀ sp, (f sp).id = sp.id)
    (L : Ledger strict hand (fun h => gone h ∨ h ∈ hit_handles sp) w)
    (hsp : w.session.stop_points.get? sp.id = some sp) (hids : (f sp).request_ids = [])
    (hwatch : ∀ sp, (f sp).watch_request = sp.watch_request) (hshape : ∀ sp, Shaped (f sp)) :
    Ledger strict hand gone { w with session := w.session.edit_stop_point sp.id f hf } := by
  have hsum : ∀ h, owned (w.session.edit_stop_point sp.id f hf) h + (hit_handles sp).count h =
      owned w.session h := by
    intro h
    have hedit := owned_edit_stop_point w.session f hf hsp h
    simp only [handles, List.count_append, hit_handles_off hids, List.count_nil, hwatch] at hedit
    omega
  exact L.strike (named_edit L.named hwatch) (shaped_edit L.shaped fun v _ _ => hshape v) hsum

theorem shaped_off (hids : sp.request_ids = []) (hoff : sp.enabled = false) :
    Shaped sp := ⟨fun _ => hids, fun _ => hoff, fun _ => by simp [hids]⟩

/-- What sending the Clears of `sp` does, before any record changes. -/
theorem clear_stop_point_ledger (L : Ledger strict hand gone w) (hnd : sp.request_ids.Nodup)
    (hst : strict → Standing w sp) :
    Ledger strict hand (fun h => gone h ∨ h ∈ hit_handles sp)
      ((clear_stop_point_requests sp).run w).2 ∧
    (strict → ((clear_stop_point_requests sp).run w).1 = .ok ()) :=
  clear_requests_ledger _ _ L hnd fun hs _ hr => hst hs _ (List.mem_map_of_mem hr)

theorem clear_stop_point_withdrawn (sp : StopPoint) (w : World) :
    Withdrawn (hit_handles sp) w ((clear_stop_point_requests sp).run w).2 ∧
    (((clear_stop_point_requests sp).run w).1 = .ok () →
      ∀ h ∈ hit_handles sp, h ∉ live ((clear_stop_point_requests sp).run w).2.jvm) := by
  obtain ⟨hout, hdead⟩ := clear_requests_withdrawn sp.armed_on.code sp.request_ids w
  refine ⟨hout, fun hok h hh => ?_⟩
  obtain ⟨r, hr, rfl⟩ := List.mem_map.mp hh
  exact hdead hok r hr

theorem switched_off {id : StopId} (f : StopPoint → StopPoint) (hf : ∀ sp, (f sp).id = sp.id)
    (hsp : w.session.stop_points.get? id = some sp) :
    SwitchedOff id w { ((clear_stop_point_requests sp).run w).2 with
      session := w.session.edit_stop_point id f hf } := by
  have hout := (clear_stop_point_withdrawn sp w).1
  exact ⟨fun j hj => others_edit _ _ _ _ hj, hout.less, fun h hl hn => hout.rest h hl (hn sp hsp)⟩

/-- The session after the id of a traced request is noted. -/
def noted (s : DebugSession) (req : RequestId) : DebugSession :=
  if (find_traced_request s req).isSome then s.note_disarmed_traced req else s

variable (req : RequestId)

theorem noted_eq : ∃ q, noted s req = { s with disarmed_traced_requests := q } := by
  unfold noted
  split
  · exact s.note_disarmed_traced_eq req
  · exact ⟨_, rfl⟩

theorem disarm_request_run (w : World) :
    (disarm_request req).run w =
      match w.session.owner? req with
      | none => (none, { w with session := noted w.session req })
      | some sp => (some sp.id,
          { ((clear_stop_point_requests sp).run { w with session := noted w.session req }).2 with
            session := (noted w.session req).edit_stop_point sp.id set_disabled }) := by
  obtain ⟨q, hq⟩ := noted_eq w.session req
  have howner : (noted w.session req).owner? req = w.session.owner? req := by rw [hq]; rfl
  have hnote : ∀ {α : Type} (m : Handler α),
      (if (find_traced_request w.session req).isSome then
        (do edit fun s => s.note_disarmed_traced req; m) else m).run w =
      m.run { w with session := noted w.session req } := by
    intro α m
    unfold noted
    split <;> rfl
  unfold disarm_request
  rw [run_bind, run_get]
  refine (hnote _).trans ?_
  simp only [run_bind, run_get, howner]
  cases w.session.owner? req with
  | none => rfl
  | some sp =>
    simp only [run_bind, edit_run, run_pure]
    rw [(clear_stop_point_withdrawn sp { w with session := noted w.session req }).1.session]

theorem ledger_noted (L : Ledger strict hand gone w) (req : RequestId) :
    Ledger strict hand gone { w with session := noted w.session req } := by
  obtain ⟨q, hq⟩ := noted_eq w.session req
  exact L.of_shelf (by rw [hq]; rfl)

theorem disarm_ledger (L : Ledger strict hand gone w)
    (hst : strict → ∀ sp, w.session.owner? req = some sp → Standing w sp) :
    Ledger strict hand gone ((disarm_request req).run w).2 := by
  rw [disarm_request_run]
  have Ln := ledger_noted L req
  cases ho : w.session.owner? req with
  | none => exact Ln
  | some sp =>
    obtain ⟨hmem, -⟩ := owner_some ho
    obtain ⟨q, hq⟩ := noted_eq w.session req
    obtain ⟨Lc, hok⟩ := clear_stop_point_ledger Ln (request_ids_nodup L hmem) fun hs => hst hs sp ho
    have hout := (clear_stop_point_withdrawn sp { w with session := noted w.session req }).1
    have hsp : (noted w.session req).stop_points.get? sp.id = some sp := by
      rw [hq]
      exact (Table.get?_eq_some _ _ _).mpr ⟨hmem, rfl⟩
    have hsess := hout.session
    change _ = noted w.session req at hsess
    rw [← hsess] at hsp
    have := ledger_off set_disabled (fun _ => rfl) Lc hsp rfl (fun _ => rfl)
      fun _ => shaped_off rfl rfl
    rwa [hsess] at this

theorem disable_ledger (id : StopId) (L : Ledger strict hand gone w)
    (hst : strict → StandingAt w id) :
    Ledger strict hand gone ((disable_stop_point id).run w).2 ∧
    SwitchedOff id w ((disable_stop_point id).run w).2 ∧
    (strict → ∀ sp, ((disable_stop_point id).run w).2.session.stop_points.get? id = some sp →
      sp.request_ids = []) := by
  unfold disable_stop_point
  simp only [run_bind, run_get]
  cases hsp : w.session.stop_points.get? id with
  | none => exact ⟨L, SwitchedOff.refl id w, fun _ sp h => by rw [run_pure, hsp] at h; cases h⟩
  | some sp =>
    obtain ⟨hmem, rfl⟩ := (Table.get?_eq_some _ _ _).mp hsp
    obtain ⟨Lc, hok⟩ := clear_stop_point_ledger L (request_ids_nodup L hmem)
      fun hs => hst hs sp hsp
    have hout := (clear_stop_point_withdrawn sp w).1
    simp only [run_bind]
    cases hr : ((clear_stop_point_requests sp).run w).1 with
    | error e =>
      have hno : ¬ strict := fun hs => by rw [hok hs] at hr; cases hr
      refine ⟨?_, ⟨fun _ _ => by rw [run_pure, hout.session], hout.less, fun h hl hn =>
        hout.rest h hl (hn sp hsp)⟩, fun hs => absurd hs hno⟩
      exact Lc.lax hno
    | ok _ =>
      have hsp' := hsp
      rw [← hout.session] at hsp'
      refine ⟨?_, ?_, fun _ v hv => ?_⟩
      · exact ledger_off set_disabled (fun _ => rfl) Lc hsp' rfl (fun _ => rfl)
          fun _ => shaped_off rfl rfl
      · have := switched_off set_disabled (fun _ => rfl) hsp
        rwa [← hout.session] at this
      · have hget := get?_edit _ sp.id set_disabled (fun _ => rfl) ▸ hv
        rw [hsp'] at hget
        cases hget
        rfl

end OneStopPoint

section InHand

/-- A program that sends one Clear for each of `ids` and does not look at the answers. -/
def clear_each (code : EventCode) (ids : List RequestId) : Handler Unit :=
  ids.forM fun r => do
    let _ ← clear_request code r

variable (code : EventCode)

theorem clear_each_withdrawn (ids : List RequestId) (w : World) :
    Withdrawn (ids.map fun r => (code, r)) w ((clear_each code ids).run w).2 := by
  induction ids generalizing w with
  | nil => exact Withdrawn.none w
  | cons r rest ih => exact (clear_request_withdrawn code r w).1.trans (ih _)

theorem clear_in_hand (id : RequestId) (L : Ledger strict ((code, id) :: hand) gone w)
    (hlive : strict → (code, id) ∈ live w.jvm) :
    Ledger strict hand gone ((clear_request code id).run w).2 := by
  have Lc : Ledger strict ((code, id) :: hand) (fun h => gone h ∨ h ∈ [(code, id)])
      ((clear_request code id).run w).2 :=
    (clear_request_ledger code id L hlive).1.recall (by simp)
  refine Lc.retire Lc.named Lc.shaped (fun _ => le_rfl)
    (fun h => (List.sublist_cons_self _ _).count_le h) fun h => ?_
  simp only [List.count_cons, List.count_nil, Nat.zero_add]
  exact Nat.add_assoc _ _ _

theorem clear_each_ledger (ids : List RequestId)
    (L : Ledger strict (ids.map (fun r => (code, r)) ++ hand) gone w)
    (hlive : strict → ∀ r ∈ ids, (code, r) ∈ live w.jvm) :
    Ledger strict hand gone ((clear_each code ids).run w).2 := by
  induction ids generalizing w with
  | nil => exact L
  | cons r rest ih =>
    have hone := clear_in_hand code r L fun hs => hlive hs r List.mem_cons_self
    refine ih hone fun hs q hq => ?_
    refine (clear_request_withdrawn code r w).1.rest _ (hlive hs q (List.mem_cons_of_mem r hq)) ?_
    rw [List.mem_singleton]
    rintro ⟨⟩
    have := L.custody.once (code, r)
    have hpos := List.count_pos_iff.mpr (List.mem_map_of_mem (f := fun r => (code, r)) hq)
    simp only [List.map_cons, List.cons_append, List.count_cons_self, List.count_append] at this
    omega

end InHand

section Spending

/-- What spending the request `req` may rely on: the debuggee has deleted it, and not yet its
siblings. -/
def Spendable (w : World) (req : RequestId) : Prop :=
  ∀ sp, w.session.owner? req = some sp → sp.hit_count.isSome →
    ∀ r ∈ sp.request_ids, (sp.armed_on.code, r) ∈ live w.jvm ↔ r ≠ req

theorem survivors_code {sp : StopPoint} (hsp : Shaped sp) {req r : RequestId}
    (hreq : req ∈ sp.request_ids) (hr : r ∈ sp.request_ids) (hne : r ≠ req) :
    sp.armed_on.code = .breakpoint := by
  by_cases hk : sp.kind = .line
  · revert hk
    unfold StopPoint.kind ArmedOn.kind ArmedOn.code
    cases sp.armed_on <;> simp
  · have hlen := hsp.single hk
    rcases hids : sp.request_ids with _ | ⟨x, _ | ⟨y, rest⟩⟩ <;> rw [hids] at hlen hr hreq
    · cases hr
    · rw [List.mem_singleton] at hr hreq
      exact absurd (hr.trans hreq.symm) hne
    · simp at hlen

theorem spend_ledger (req : RequestId) (L : Ledger strict hand gone w)
    (hsp : strict → Spendable w req) :
    Ledger strict hand gone ((spend_if_counted req).run w).2 := by
  unfold spend_if_counted
  simp only [run_bind, run_get]
  cases ho : w.session.owner? req with
  | none => exact L
  | some sp =>
    simp only
    rw [run_ite]
    split
    · exact L
    rename_i hcount
    obtain ⟨hmem, hreq⟩ := owner_some ho
    have hshape := L.shaped sp hmem
    have hspend := fun hs => hsp hs sp ho (by simpa [Option.isSome_iff_ne_none] using hcount)
    obtain ⟨q, hq⟩ := (w.session.edit_stop_point sp.id set_spent).note_traced_in_flight_eq sp.trace
      (sp.request_ids.filter fun r => r ≠ req)
    have hget : w.session.stop_points.get? sp.id = some sp :=
      (Table.get?_eq_some _ _ _).mpr ⟨hmem, rfl⟩
    have hown : ∀ h, owned (w.session.edit_stop_point sp.id set_spent) h +
        (hit_handles sp).count h = owned w.session h := by
      intro h
      have hedit := owned_edit_stop_point w.session set_spent (fun _ => rfl) hget h
      simp only [handles, List.count_append] at hedit
      have hoff : hit_handles (set_spent sp) = [] := rfl
      have hwatch : (set_spent sp).watch_request = sp.watch_request := rfl
      rw [hoff, hwatch, List.count_nil] at hedit
      omega
    have hcode : ((sp.request_ids.filter fun r => r ≠ req).map fun r => (EventCode.breakpoint, r)) =
        (sp.request_ids.filter fun r => r ≠ req).map fun r => (sp.armed_on.code, r) := by
      refine List.map_congr_left fun r hr => ?_
      obtain ⟨hr, hne⟩ := List.mem_filter.mp hr
      rw [survivors_code hshape hreq hr (by simpa using hne)]
    have Ledit : Ledger strict
        (((sp.request_ids.filter fun r => r ≠ req).map fun r => (EventCode.breakpoint, r)) ++ hand)
        gone { w with session := w.session.edit_stop_point sp.id set_spent } := by
      rw [hcode]
      have hsub : ∀ h, ((sp.request_ids.filter fun r => r ≠ req).map
          fun r => (sp.armed_on.code, r)).count h ≤ (hit_handles sp).count h := fun h =>
        (List.filter_sublist.map _).count_le h
      refine L.rewrite (named_edit L.named fun _ => rfl)
        (shaped_edit L.shaped fun _ _ _ => shaped_off rfl rfl) (fun h => ?_)
          (fun hs h hl hpos => ?_)
        (fun _ => id) (fun hs h hpos => Or.inr (Or.inr ⟨?_, id⟩)) fun hs h hh => ?_
      · have h1 := hown h
        have h2 := hsub h
        rw [List.count_append]
        omega
      · rw [List.count_append]
        by_cases hin : h ∈ hit_handles sp
        · obtain ⟨r, hr, rfl⟩ := List.mem_map.mp hin
          have hne := (hspend hs r hr).mp hl
          have := List.count_pos_iff.mpr (List.mem_map_of_mem (f := fun r => (sp.armed_on.code, r))
            ((List.mem_filter (p := fun r => r ≠ req)).mpr ⟨hr, by simpa using hne⟩))
          omega
        · have := List.count_eq_zero_of_not_mem hin
          have := hown h
          omega
      · have := hown h
        omega
      · rcases List.mem_append.mp hh with hh | hh
        · obtain ⟨r, hr, rfl⟩ := List.mem_map.mp hh
          obtain ⟨hr, hne⟩ := List.mem_filter.mp hr
          exact Or.inl ((hspend hs r hr).mpr (by simpa using hne))
        · exact (L.exact_ hs).in_hand h hh
    refine clear_each_ledger .breakpoint _ (Ledit.of_shelf ?_) fun hs r hr => ?_
    · change shelf { w with session := DebugSession.note_traced_in_flight _ _ _ } = _
      rw [hq]
      rfl
    obtain ⟨hr, hne⟩ := List.mem_filter.mp hr
    have hne' : r ≠ req := by simpa using hne
    rw [← survivors_code hshape hreq hr hne']
    exact (hspend hs r hr).mpr hne'

end Spending

section PendingStep

theorem lasting_live (L : Ledger strict hand gone w) (hs : strict) {h : Handle}
    (ho : 0 < owned w.session h) (hl : Lasting h.1) (hg : ¬ gone h) : h ∈ live w.jvm := by
  rcases (L.exact_ hs).standing h ho with hlive | hgone | hfl
  · exact hlive
  · exact absurd hgone hg
  · exact absurd hl hfl.2

theorem owned_without_step {s : DebugSession} {req : RequestId} {tid : ThreadId}
    (hstep : s.pending_step = some (req, tid)) (h : Handle) :
    owned { s with pending_step := none } h + [(EventCode.single_step, req)].count h =
      owned s h := by
  simp only [owned, hstep, step_handles, Option.map_some, Option.map_none, Option.toList_some,
    Option.toList_none, List.count_nil]
  omega

theorem owned_with_step {s : DebugSession} (hstep : s.pending_step = none) (req : RequestId)
    (tid : ThreadId) (h : Handle) :
    owned { s with pending_step := some (req, tid) } h =
      owned s h + [(EventCode.single_step, req)].count h := by
  simp only [owned, hstep, step_handles, Option.map_some, Option.map_none, Option.toList_some,
    Option.toList_none, List.count_nil]
  omega

theorem step_live (L : Ledger strict hand nothing w) (hs : strict) {req : RequestId}
    {tid : ThreadId} (hstep : w.session.pending_step = some (req, tid)) :
    (EventCode.single_step, req) ∈ live w.jvm := by
  refine lasting_live L hs ?_ (Or.inr rfl) fun h => h
  rw [← owned_without_step hstep]
  simp

theorem clear_pending_step_ledger (L : Ledger strict hand nothing w) :
    Ledger strict hand nothing ((clear_pending_step).run w).2 ∧
    ((clear_pending_step).run w).2.session.pending_step = none := by
  unfold clear_pending_step
  simp only [run_bind, run_get]
  cases hstep : w.session.pending_step with
  | none => exact ⟨L, hstep⟩
  | some p =>
    obtain ⟨req, tid⟩ := p
    have hsum := owned_without_step hstep
    have Lin : Ledger strict ((.single_step, req) :: hand) nothing
        { w with session := { w.session with pending_step := none } } := by
      exact L.take (s := { w.session with pending_step := none })
        (L.named.congr rfl rfl rfl le_rfl) L.shaped hsum fun hs h hh => by
          rw [List.mem_singleton.mp hh]
          exact step_live L hs hstep
    refine ⟨clear_in_hand .single_step req Lin fun hs => step_live L hs hstep, ?_⟩
    exact congrArg DebugSession.pending_step
      (clear_request_withdrawn .single_step req
        { w with session := { w.session with pending_step := none } }).1.session

theorem drop_step_ledger (tid : ThreadId) (L : Ledger strict hand nothing w) :
    Ledger strict hand nothing ((drop_step_of tid).run w).2 := by
  unfold drop_step_of
  simp only [run_bind, run_get]
  cases hstep : w.session.pending_step with
  | none => exact L
  | some p =>
    obtain ⟨req, owner⟩ := p
    simp only [run_ite]
    split
    · have Lc : Ledger strict hand (fun h => nothing h ∨ h ∈ [(.single_step, req)])
          ((clear_request .single_step req).run w).2 :=
        (clear_request_ledger .single_step req L fun hs => step_live L hs hstep).1.recall (by simp)
      have hsess := (clear_request_withdrawn .single_step req w).1.session
      rw [← hsess] at hstep
      exact Lc.strike (Lc.named.congr rfl rfl rfl le_rfl) Lc.shaped (owned_without_step hstep)
    · exact L

end PendingStep

section Families

variable (s : DebugSession) {id : StopId} {set : PatternStopSet}

theorem owned_edit_pattern_set (f : PatternStopSet → PatternStopSet)
    (hf : ∀ set, (f set).id = set.id) (hset : s.pattern_sets.get? id = some set) (h : Handle) :
    owned (s.edit_pattern_set id f hf) h + (family_handles set).count h =
      owned s h + (family_handles (f set)).count h := by
  have := Table.total_modify (fun set => (family_handles set).count h) s.pattern_sets id f hf hset
  simp only [owned, DebugSession.edit_pattern_set] at this ⊢
  omega

theorem edit_absent_set (f : PatternStopSet → PatternStopSet) (hf : ∀ set, (f set).id = set.id)
    (hset : s.pattern_sets.get? id = none) : s.edit_pattern_set id f hf = s := by
  simp only [DebugSession.edit_pattern_set, Table.modify_eq_self _ hset]

/-- A family is rewritten; it may lose members, and it is watched only while it is on. -/
theorem named_edit_set {s : DebugSession} (hs : Named s) (f : PatternStopSet → PatternStopSet)
    (hf : ∀ set, (f set).id = set.id) (hmem : ∀ set, (f set).members.Sublist set.members)
    (hwatch : ∀ set, s.pattern_sets.get? id = some set → (f set).enabled = false →
      (f set).watch.request_id = none) : Named (s.edit_pattern_set id f hf) := by
  have hrow : ∀ set ∈ (s.edit_pattern_set id f hf).pattern_sets.rows, ∃ v ∈ s.pattern_sets.rows,
      set.id = v.id ∧ set.members.Sublist v.members ∧
        (set.enabled = false → set.watch.request_id = none) := by
    intro set hset
    obtain ⟨v, hv, rfl⟩ := (Table.mem_modify _ _ _ hf _).mp hset
    refine ⟨v, hv, ?_⟩
    split
    · rename_i hid
      exact ⟨hf v, hmem v, hwatch v ((Table.get?_eq_some _ _ _).mpr ⟨hv, hid⟩)⟩
    · exact ⟨rfl, List.Sublist.refl _, hs.unwatched v hv⟩
  refine ⟨hs.stops, hs.deferrals, fun set hset => ?_, fun set hset m hm => ?_, hs.once, hs.unarmed,
    fun p hp set hset hm => ?_, fun set hset m hm => ?_, fun set hset => ?_, fun set hset => ?_⟩
  · obtain ⟨v, hv, hid, -⟩ := hrow set hset
    rw [hid]
    exact hs.families v hv
  · obtain ⟨v, hv, -, hsub, -⟩ := hrow set hset
    exact hs.members v hv m (hsub.subset hm)
  · obtain ⟨v, hv, -, hsub, -⟩ := hrow set hset
    exact hs.outside p hp v hv (hsub.subset hm)
  · obtain ⟨v, hv, -, hsub, -⟩ := hrow set hset
    exact hs.covered v hv m (hsub.subset hm)
  · obtain ⟨v, hv, -, hsub, -⟩ := hrow set hset
    exact (hs.distinct v hv).sublist hsub
  · obtain ⟨v, hv, -, -, hoff⟩ := hrow set hset
    exact hoff

theorem ledger_edit_found (L : Ledger strict hand gone w)
    (hset : w.session.pattern_sets.get? id = some set) (f : PatternStopSet → PatternStopSet)
    (hf : ∀ set, (f set).id = set.id) (hmem : ∀ set, (f set).members.Sublist set.members)
    (hwatch : (f set).watch.request_id = set.watch.request_id)
    (hoff : (f set).enabled = false → (f set).watch.request_id = none) :
    Ledger strict hand gone { w with session := w.session.edit_pattern_set id f hf } := by
  refine L.shift (named_edit_set L.named f hf hmem fun v hv => ?_) L.shaped (fun h => ?_)
    fun _ h => Or.inr
  · rw [hset, Option.some.injEq] at hv
    rw [← hv]
    exact hoff
  · have := owned_edit_pattern_set w.session f hf hset h
    simp only [family_handles, hwatch] at this
    omega

/-- A rewrite of a family that leaves its watch alone. -/
theorem ledger_edit_set (L : Ledger strict hand gone w) (id : StopId)
    (f : PatternStopSet → PatternStopSet) (hf : ∀ set, (f set).id = set.id)
    (hmem : ∀ set, (f set).members.Sublist set.members)
    (hwatch : ∀ set, (f set).watch.request_id = set.watch.request_id)
    (hon : ∀ set, (f set).enabled = set.enabled) :
    Ledger strict hand gone { w with session := w.session.edit_pattern_set id f hf } := by
  cases hset : w.session.pattern_sets.get? id with
  | none =>
    rw [edit_absent_set _ _ _ hset]
    exact L
  | some set =>
    refine ledger_edit_found L hset f hf hmem (hwatch set) fun hoff => ?_
    rw [hon] at hoff
    rw [hwatch]
    exact L.named.unwatched set ((Table.get?_eq_some _ _ _).mp hset).1 hoff

/-- The watch in hand becomes that of a family which has none. -/
theorem ledger_watch_set {req : RequestId} (L : Ledger strict ([watch_handle req] ++ hand) gone w)
    (hset : w.session.pattern_sets.get? id = some set) (hnone : set.watch.request_id = none)
    (f : PatternStopSet → PatternStopSet) (hf : ∀ set, (f set).id = set.id)
    (hmem : ∀ set, (f set).members.Sublist set.members)
    (hwatch : (f set).watch.request_id = some req) (hon : (f set).enabled = true) :
    Ledger strict hand gone { w with session := w.session.edit_pattern_set id f hf } := by
  have hown : ∀ h, owned (w.session.edit_pattern_set id f hf) h =
      owned w.session h + [watch_handle req].count h := by
    intro h
    have := owned_edit_pattern_set w.session f hf hset h
    simp only [family_handles, hwatch, hnone, Option.map_some, Option.map_none,
      Option.toList_some, Option.toList_none, List.count_nil] at this
    omega
  refine L.file (named_edit_set L.named f hf hmem fun v hv hoff => ?_) L.shaped hown
  rw [hset, Option.some.injEq] at hv
  rw [← hv, hon] at hoff
  cases hoff

theorem watch_desk (pattern : String) :
    Ensures (Desk s strict hand gone) (set_class_prepare pattern) fun r w =>
      match r with
      | .ok req => Desk s strict ([watch_handle req] ++ hand) gone w
      | .error _ => Desk s strict hand gone w :=
  set_desk s fun _ => rfl

variable (t : Table StopPoint.id)

/-- The ledger, for a program that leaves the stop points at `t`. -/
def Shelved (strict : Prop) (hand : List Handle) (gone : Handle → Prop) (w : World) :
    Prop := Ledger strict hand gone w ∧ w.session.stop_points = t

theorem unpark_ledger (set_id : StopId) :
    Preserves (Shelved t strict hand gone) (unpark_family_watch set_id) := by
  rintro w ⟨L, rfl⟩
  unfold unpark_family_watch
  simp only [run_bind, run_get]
  cases hset : w.session.pattern_sets.get? set_id with
  | none => exact ⟨L, rfl⟩
  | some set =>
    simp only [run_ite]
    split
    · exact ⟨L, rfl⟩
    rename_i hcond
    simp only [Bool.or_eq_true, Bool.not_eq_true', not_or, decide_eq_true_eq, not_not] at hcond
    have hnone : set.watch.request_id = none := by rw [hcond.1.1]; rfl
    have hs := watch_desk w.session (w.answers.jdwp_class_match_for set.class_pattern) w ⟨L, rfl⟩
    simp only [run_bind, run_get]
    revert hs
    generalize (set_class_prepare (w.answers.jdwp_class_match_for set.class_pattern)).run w = res
    obtain ⟨r, w'⟩ := res
    rintro hs
    cases r with
    | error e =>
      obtain ⟨L', hsess⟩ := hs
      change w'.session = w.session at hsess
      refine ⟨?_, show w'.session.stop_points = _ by rw [hsess]⟩
      rw [← hsess] at hset
      exact ledger_edit_found L' hset (fun p => { p with watch := .failed }) (fun _ => rfl)
        (fun _ => List.Sublist.refl _) hnone.symm fun _ => rfl
    | ok req =>
      obtain ⟨L', hsess⟩ := hs
      change w'.session = w.session at hsess
      refine ⟨?_, show w'.session.stop_points = _ by rw [hsess]⟩
      rw [← hsess] at hset
      exact ledger_watch_set L' hset hnone (fun p => { p with watch := .watching req })
        (fun _ => rfl) (fun _ => List.Sublist.refl _) rfl (by simpa using hcond.1.2)

theorem release_slot_ledger (id : StopId) :
    Preserves (Shelved t strict hand gone) (release_family_slot id) := by
  unfold release_family_slot
  refine Preserves.get_bind fun w _ => ?_
  refine Preserves.bind (Preserves.forM_mem _ fun set_id _ => ?_) fun _ =>
    Preserves.forM_mem _ fun set_id _ => unpark_ledger t set_id
  rintro w ⟨L, ht⟩
  exact ⟨ledger_edit_set L set_id (fun p => { p with members := p.members.filter fun m => m ≠ id })
    (fun _ => rfl) (fun _ => List.filter_sublist) (fun _ => rfl) fun _ => rfl, ht⟩

end Families

section Clearing

theorem ledger_noted_in_flight (L : Ledger strict hand gone w) (traced : Bool)
    (reqs : List RequestId) :
    Ledger strict hand gone { w with session := w.session.note_traced_in_flight traced reqs } := by
  obtain ⟨q, hq⟩ := w.session.note_traced_in_flight_eq traced reqs
  exact L.of_shelf (by rw [hq]; rfl)

variable (s : DebugSession) {sp : StopPoint} {set : PatternStopSet}

theorem noted_in_flight_stop_points (traced : Bool) (reqs : List RequestId) :
    (s.note_traced_in_flight traced reqs).stop_points = s.stop_points := by
  obtain ⟨q, hq⟩ := s.note_traced_in_flight_eq traced reqs
  rw [hq]

variable {req : RequestId}

theorem watch_of_line (h : sp.watch_request = some req) : ∃ bp, sp.armed_on = .line bp := by
  unfold StopPoint.watch_request StopPoint.line at h
  split at h
  · exact ⟨_, ‹_›⟩
  · cases h

theorem handles_eq_hits (h : sp.watch_request = none) :
    handles sp = hit_handles sp := by simp [handles, h]

/-- A stop point's own class-load watch is cleared, after its hit requests. -/
theorem clear_watch_ledger (L : Ledger strict hand (fun h => gone h ∨ h ∈ hit_handles sp) w)
    (hlive : strict → ∀ req, sp.watch_request = some req → watch_handle req ∈ live w.jvm) :
    Ledger strict hand (fun h => gone h ∨ h ∈ handles sp) ((clear_watch sp).run w).2 ∧
    ((clear_watch sp).run w).2.session = w.session := by
  unfold clear_watch
  cases hw : sp.watch_request with
  | none => exact ⟨L.recall fun h => by rw [handles_eq_hits hw], rfl⟩
  | some req =>
    refine ⟨(clear_request_ledger .class_prepare req L fun hs => hlive hs req hw).1.recall
      fun h => ?_, (clear_request_withdrawn .class_prepare req w).1.session⟩
    rw [handles, hw, or_assoc, List.mem_append, Option.map_some, Option.toList_some,
      List.mem_singleton]
    rfl

theorem owned_watch {s : DebugSession} (hsp : sp ∈ s.stop_points.rows)
    (h : sp.watch_request = some req) : 0 < owned s (watch_handle req) := by
  refine owned_of_handle hsp (List.mem_append_right _ ?_)
  simp [h]

theorem watch_not_hit (L : Ledger strict hand gone w) (hsp : sp ∈ w.session.stop_points.rows)
    (h : sp.watch_request = some req) : watch_handle req ∉ hit_handles sp := by
  have hnd := (List.nodup_append.mp (L.handles_nodup hsp)).2.2
  exact fun hm => hnd _ hm (watch_handle req) (by simp [h]) rfl

/-- `clear_one_stop_point` leaves the record to be erased, all of whose handles are dead; a
refused Clear leaves it as it is. -/
theorem clear_one_ledger (L : Ledger strict hand nothing w) (hsp : sp ∈ w.session.stop_points.rows)
    (hst : strict → Standing w sp) :
    (((clear_one_stop_point sp).run w).1 = .ok () ∧
      Shelved w.session.stop_points strict hand (fun h => nothing h ∨ h ∈ handles sp)
        ((clear_one_stop_point sp).run w).2) ∨
    ((∃ e, ((clear_one_stop_point sp).run w).1 = .error e) ∧
      Ledger strict hand nothing ((clear_one_stop_point sp).run w).2) := by
  have Ln := ledger_noted_in_flight L sp.trace sp.request_ids
  have hts := noted_in_flight_stop_points w.session sp.trace sp.request_ids
  obtain ⟨Lc, hok⟩ := clear_stop_point_ledger Ln (request_ids_nodup L hsp) hst
  have hout := (clear_stop_point_withdrawn sp
    { w with session := w.session.note_traced_in_flight sp.trace sp.request_ids }).1
  have hsess := congrArg DebugSession.stop_points hout.session
  replace hsess := Eq.trans hsess hts
  unfold clear_one_stop_point
  simp only [run_bind, edit_run]
  have hother : sp.watch_request = none → Shelved w.session.stop_points strict hand
      (fun h => nothing h ∨ h ∈ handles sp) ((clear_stop_point_requests sp).run
        { w with session := w.session.note_traced_in_flight sp.trace sp.request_ids }).2 :=
    fun hw => ⟨Lc.recall fun h => by rw [handles_eq_hits hw], hsess⟩
  cases harm : sp.armed_on with
  | line bp =>
    simp only
    cases hr : ((clear_stop_point_requests sp).run
        { w with session := w.session.note_traced_in_flight sp.trace sp.request_ids }).1 with
    | error e =>
      have hno : ¬ strict := fun hs => by rw [hok hs] at hr; cases hr
      exact Or.inr ⟨⟨_, rfl⟩, Lc.lax hno⟩
    | ok _ =>
      refine Or.inl ⟨rfl, ?_⟩
      obtain ⟨Lw, hsess'⟩ := clear_watch_ledger Lc fun hs req hw => by
        refine hout.rest _ ?_ (watch_not_hit L hsp hw)
        exact lasting_live L hs (owned_watch hsp hw) (Or.inl rfl) fun h => h
      exact release_slot_ledger _ sp.id _
        ⟨Lw, (congrArg DebugSession.stop_points hsess').trans hsess⟩
  | exception _ | watchpoint _ | method_exit _ | monitor _ =>
    refine Or.inl ⟨rfl, hother ?_⟩
    cases hw : sp.watch_request with
    | none => rfl
    | some req =>
      obtain ⟨bp, hbp⟩ := watch_of_line hw
      rw [harm] at hbp
      cases hbp

/-- The stop points an id stands for: the members of a family, or itself. -/
def targets (s : DebugSession) (id : StopId) : List StopId :=
  match s.pattern_sets.get? id with
  | some set => set.members
  | none => [id]

theorem ledger_erase (sp : StopPoint) (L : Ledger strict hand (fun h => gone h ∨ h ∈ handles sp) w)
    (hsp : w.session.stop_points.get? sp.id = some sp) :
    Ledger strict hand gone
      { w with session := { w.session with stop_points := w.session.stop_points.erase sp.id } } :=
  L.strike (s := { w.session with stop_points := w.session.stop_points.erase sp.id })
    (named_erase L.named sp.id) (fun v hv => L.shaped v ((Table.mem_erase _ _ _).mp hv).1)
    (owned_erase w.session hsp)

/-- Clears for requests that only the hand holds. -/
theorem clear_stop_point_in_hand (L : Ledger strict (hit_handles sp ++ hand) gone w)
    (hst : strict → Standing w sp) :
    Ledger strict hand gone ((clear_stop_point_requests sp).run w).2 := by
  have hnd : sp.request_ids.Nodup := by
    refine List.Nodup.of_map (fun r => (sp.armed_on.code, r))
      (List.nodup_iff_count_le_one.mpr fun h => ?_)
    have := L.custody.once h
    simp only [List.count_append, hit_handles] at this
    omega
  obtain ⟨Lc, -⟩ := clear_stop_point_ledger L hnd hst
  refine Lc.retire Lc.named Lc.shaped (fun _ => le_rfl)
    (fun h => (List.sublist_append_right _ _).count_le h) fun h => ?_
  rw [List.count_append, Nat.add_assoc, Nat.add_comm (hand.count h)]

def clear_member (member : StopId) : Handler Unit := do
  match (← get).session.stop_points.get? member with
  | none => pure ()
  | some sp =>
    edit fun s => { s with stop_points := s.stop_points.erase member }
    edit fun s => s.note_traced_in_flight sp.trace sp.request_ids
    let _ ← clear_stop_point_requests sp

theorem clear_member_ledger (member : StopId) (L : Ledger strict hand gone w)
    (hst : strict → StandingAt w member)
    (hw : ∀ sp, w.session.stop_points.get? member = some sp → sp.watch_request = none) :
    Ledger strict hand gone ((clear_member member).run w).2 ∧
    SwitchedOff member w ((clear_member member).run w).2 ∧
    ((clear_member member).run w).2.session.stop_points.get? member = none := by
  unfold clear_member
  simp only [run_bind, run_get]
  cases hsp : w.session.stop_points.get? member with
  | none => exact ⟨L, SwitchedOff.refl member w, hsp⟩
  | some sp =>
    obtain ⟨hmem, rfl⟩ := (Table.get?_eq_some _ _ _).mp hsp
    have Lt : Ledger strict (hit_handles sp ++ hand) gone
         { w with session :=
            { w.session with stop_points := w.session.stop_points.erase sp.id } } := by
      rw [← handles_eq_hits (hw sp hsp)]
      refine L.take (s := { w.session with stop_points := w.session.stop_points.erase sp.id })
        (named_erase L.named sp.id) (fun v hv => L.shaped v ((Table.mem_erase _ _ _).mp hv).1)
        (owned_erase w.session hsp) fun hs h hh => ?_
      rw [handles_eq_hits (hw sp hsp)] at hh
      exact hst hs sp hsp h hh
    have Ln := ledger_noted_in_flight Lt sp.trace sp.request_ids
    have hout := (clear_stop_point_withdrawn sp { w with
      session := { w.session with stop_points := w.session.stop_points.erase sp.id }
        |>.note_traced_in_flight sp.trace sp.request_ids }).1
    have hts : ∀ j, (({ w.session with stop_points := w.session.stop_points.erase sp.id }
        : DebugSession).note_traced_in_flight sp.trace sp.request_ids).stop_points.get? j =
        if j = sp.id then none else w.session.stop_points.get? j := fun j => by
      rw [noted_in_flight_stop_points, Table.get?_erase]
    refine ⟨clear_stop_point_in_hand Ln fun hs => hst hs sp hsp, ⟨fun j hj => ?_, hout.less,
      fun h hl hn => hout.rest h hl (hn sp hsp)⟩, ?_⟩
    · refine (congrArg (fun s => s.stop_points.get? j) hout.session).trans ((hts j).trans ?_)
      rw [if_neg hj]
    · refine (congrArg (fun s => s.stop_points.get? sp.id) hout.session).trans
        ((hts sp.id).trans ?_)
      rw [if_pos rfl]

/-- Every stop point still to be cleared has no watch of its own, and all its requests live. -/
structure Clearable (strict : Prop) (hand : List Handle) (gone : Handle → Prop)
    (ids : List StopId) (w : World) : Prop where
  ledger : Ledger strict hand gone w
  standing : strict → ∀ m ∈ ids, StandingAt w m
  unwatched : ∀ m ∈ ids, ∀ sp, w.session.stop_points.get? m = some sp → sp.watch_request = none

theorem clear_members_ledger (ids : List StopId) :
    Ensures (Clearable strict hand gone ids) (ids.forM clear_member)
      fun _ w => Ledger strict hand gone w := by
  refine Ensures.mono (Ensures.forM (fun m rest w C => ?_) ids) (fun _ h => h)
    fun _ _ h => Clearable.ledger h
  obtain ⟨L', hoff, hnone⟩ := clear_member_ledger m C.ledger
    (fun hs => C.standing hs m List.mem_cons_self) (C.unwatched m List.mem_cons_self)
  refine ⟨L', fun hs j hj => ?_, fun j hj sp hsp => ?_⟩
  · by_cases hjm : j = m
    · subst hjm
      exact fun sp hsp => by rw [hnone] at hsp; cases hsp
    · exact hoff.standing C.ledger hjm (C.standing hs j (List.mem_cons_of_mem m hj))
  · by_cases hjm : j = m
    · subst hjm
      rw [hnone] at hsp
      cases hsp
    · rw [hoff.others j hjm] at hsp
      exact C.unwatched j (List.mem_cons_of_mem m hj) sp hsp

def clear_family_watch (set : PatternStopSet) : Handler Unit := do
  match set.watch.request_id with
  | none => pure ()
  | some req => let _ ← clear_class_prepare req

theorem clear_pattern_family_ledger
    (C : Clearable strict (family_handles set ++ hand) gone set.members w)
    (hlive : strict → ∀ req, set.watch.request_id = some req → watch_handle req ∈ live w.jvm) :
    Ledger strict hand gone ((clear_pattern_family set).run w).2 := by
  have hrun : clear_pattern_family set =
      (clear_family_watch set >>= fun _ => set.members.forM clear_member) := by
    unfold clear_family_watch clear_pattern_family
    cases set.watch.request_id <;> rfl
  rw [hrun]
  unfold clear_family_watch
  cases hw : set.watch.request_id with
  | none =>
    have hnil : family_handles set = [] := by simp [family_handles, hw]
    rw [hnil] at C
    exact clear_members_ledger set.members w C
  | some req =>
    have hone : family_handles set = [watch_handle req] := by simp [family_handles, hw]
    rw [hone] at C
    have hout := (clear_request_withdrawn .class_prepare req w).1
    have C' :
        Clearable strict hand gone set.members ((clear_request .class_prepare req).run w).2 := by
      refine ⟨clear_in_hand .class_prepare req C.ledger fun hs => hlive hs req hw,
        fun hs m hm sp hsp h hh => ?_, by rw [hout.session]; exact C.unwatched⟩
      rw [hout.session] at hsp
      refine hout.rest h (C.standing hs m hm sp hsp h hh) ?_
      rw [List.mem_singleton]
      rintro rfl
      obtain ⟨hmem, -⟩ := (Table.get?_eq_some _ _ _).mp hsp
      have hown := owned_of_handle hmem (List.mem_append_left _ hh)
      have honce := C.ledger.custody.once (.class_prepare, req)
      simp only [watch_handle, List.singleton_append, List.count_cons_self] at honce
      omega
    exact clear_members_ledger set.members _ C'

theorem owned_erase_set {id : StopId} (hset : s.pattern_sets.get? id = some set) (h : Handle) :
    owned { s with pattern_sets := s.pattern_sets.erase id } h + (family_handles set).count h =
      owned s h := by
  have := Table.total_erase (fun set => (family_handles set).count h) s.pattern_sets id hset
  simp only [owned] at this ⊢
  omega

theorem named_erase_set {s : DebugSession} (hs : Named s) (id : StopId) :
    Named { s with pattern_sets := s.pattern_sets.erase id } where
  stops := hs.stops
  deferrals := hs.deferrals
  families set h := hs.families set ((Table.mem_erase _ _ _).mp h).1
  members set h := hs.members set ((Table.mem_erase _ _ _).mp h).1
  once := hs.once
  unarmed := hs.unarmed
  outside p hp set h := hs.outside p hp set ((Table.mem_erase _ _ _).mp h).1
  covered set h := hs.covered set ((Table.mem_erase _ _ _).mp h).1
  distinct set h := hs.distinct set ((Table.mem_erase _ _ _).mp h).1
  unwatched set h := hs.unwatched set ((Table.mem_erase _ _ _).mp h).1

theorem named_deferrals {s : DebugSession} (hs : Named s) {l : List PendingBreakpoint}
    (hl : l.Sublist s.pending_breakpoints) : Named { s with pending_breakpoints := l } where
  stops := hs.stops
  deferrals p h := hs.deferrals p (hl.subset h)
  families := hs.families
  members := hs.members
  once := hs.once.sublist (hl.map _)
  unarmed p h := hs.unarmed p (hl.subset h)
  outside p h := hs.outside p (hl.subset h)
  covered := hs.covered
  distinct := hs.distinct
  unwatched := hs.unwatched

theorem owned_without_deferral {p : PendingBreakpoint} (hp : p ∈ s.pending_breakpoints) (h : Handle)
    :
    owned { s with pending_breakpoints := s.pending_breakpoints.erase p } h +
      [watch_handle p.class_prepare_request_id].count h = owned s h := by
  have hperm := (List.perm_cons_erase hp).map fun p => watch_handle p.class_prepare_request_id
  have := hperm.count_eq h
  simp only [owned, deferral_handles, List.map_cons, List.count_cons, List.count_nil] at this ⊢
  omega

theorem deferral_live (L : Ledger strict hand nothing w) (hs : strict) {p : PendingBreakpoint}
    (hp : p ∈ w.session.pending_breakpoints) :
    watch_handle p.class_prepare_request_id ∈ live w.jvm := by
  refine lasting_live L hs ?_ (Or.inl rfl) fun h => h
  rw [← owned_without_deferral w.session hp]
  simp

theorem family_live (L : Ledger strict hand nothing w) (hs : strict)
    (hset : set ∈ w.session.pattern_sets.rows) {h : Handle} (hh : h ∈ family_handles set) :
    h ∈ live w.jvm := by
  have hcode : h.1 = .class_prepare := by
    obtain ⟨r, -, rfl⟩ := by simpa [family_handles] using hh
    rfl
  refine lasting_live L hs ?_ (Or.inl hcode) fun h => h
  have hle := Table.le_total (fun set => (family_handles set).count h) w.session.pattern_sets hset
  have hpos := List.count_pos_iff.mpr hh
  simp only [owned]
  omega

theorem handle_clear_ledger (id : StopId) (L : Ledger strict [] nothing w)
    (hst : strict → ∀ m ∈ targets w.session id, StandingAt w m) :
    Ledger strict [] nothing ((handle_clear_stop_point id).run w).2 := by
  unfold handle_clear_stop_point
  simp only [run_bind, run_get]
  cases hset : w.session.pattern_sets.get? id with
  | some set =>
    obtain ⟨hmem, rfl⟩ := (Table.get?_eq_some _ _ _).mp hset
    have htargets : targets w.session set.id = set.members := by simp [targets, hset]
    refine clear_pattern_family_ledger ⟨L.take
      (s := { w.session with pattern_sets := w.session.pattern_sets.erase set.id })
      (named_erase_set L.named _) L.shaped (owned_erase_set w.session hset)
      fun hs h hh => family_live L hs hmem hh, fun hs m hm => ?_, ?_⟩ fun hs req hw => ?_
    · rw [htargets] at hst
      exact hst hs m hm
    · exact fun m hm sp hsp => L.named.covered set hmem m hm sp hsp
    · exact family_live L hs hmem (by simp [family_handles, hw])
  | none =>
    have htargets : targets w.session id = [id] := by simp [targets, hset]
    rw [htargets] at hst
    simp only
    cases hp : w.session.pending_breakpoints.find? fun p => p.bp_id = id with
    | some pb =>
      have hmem := List.mem_of_find?_eq_some hp
      have Lt : Ledger strict ([watch_handle pb.class_prepare_request_id] ++ []) nothing
          { w with session := { w.session with
            pending_breakpoints := w.session.pending_breakpoints.erase pb } } :=
        L.take (s := { w.session with
            pending_breakpoints := w.session.pending_breakpoints.erase pb })
          (named_deferrals L.named List.erase_sublist) L.shaped
          (owned_without_deferral w.session hmem) fun hs h hh => by
            rw [List.mem_singleton.mp hh]
            exact deferral_live L hs hmem
      exact clear_in_hand .class_prepare _ Lt fun hs => deferral_live L hs hmem
    | none =>
      simp only
      cases hsp : w.session.stop_points.get? id with
      | none => exact L
      | some sp =>
        obtain ⟨hmem, rfl⟩ := (Table.get?_eq_some _ _ _).mp hsp
        have hone := clear_one_ledger L hmem fun hs => hst hs sp.id List.mem_cons_self sp hsp
        simp only [run_bind]
        revert hone
        generalize (clear_one_stop_point sp).run w = res
        obtain ⟨r, w'⟩ := res
        rintro (⟨hr, Lc, hts⟩ | ⟨⟨e, hr⟩, Lc⟩) <;> cases hr
        · change w'.session.stop_points = w.session.stop_points at hts
          exact ledger_erase sp Lc (by rw [hts]; exact hsp)
        · exact Lc

end Clearing

section Panic

variable (s : DebugSession)

theorem total_handles (h : Handle) :
    s.stop_points.total (fun sp => (handles sp).count h) =
      (s.stop_points.rows.flatMap handles).count h := by
  rw [List.count_flatMap]
  rfl

theorem clear_each_owned (code : EventCode) (ids : List RequestId) (hnd : ids.Nodup)
    (L : Ledger strict hand gone w) (hlive : strict → ∀ r ∈ ids, (code, r) ∈ live w.jvm) :
    Ledger strict hand (fun h => gone h ∨ h ∈ ids.map fun r => (code, r))
      ((clear_each code ids).run w).2 := by
  induction ids generalizing gone w with
  | nil => exact L.recall fun h => by simp
  | cons r rest ih =>
    obtain ⟨hout, hnd⟩ := List.nodup_cons.mp hnd
    have hone := (clear_request_ledger code r L fun hs => hlive hs r List.mem_cons_self).1
    refine (ih hnd hone fun hs q hq => ?_).recall fun h => by
      rw [List.map_cons, List.mem_cons, or_assoc]
    refine (clear_request_withdrawn code r w).1.rest _ (hlive hs q (List.mem_cons_of_mem r hq)) ?_
    rw [List.mem_singleton]
    rintro ⟨⟩
    exact hout hq

/-- The breakpoint requests granted before `next`. -/
def breakpoints_before (next : RequestId) (h : Handle) : Prop := h.1 = .breakpoint ∧ h.2 < next

theorem clear_all_ledger (L : Ledger strict [] nothing w) :
    Ledger strict [] (breakpoints_before w.jvm.next_request) (clear_all_breakpoints.run w).2 ∧
    (clear_all_breakpoints.run w).2.session = w.session ∧
    ∀ h ∈ live w.jvm, h.1 ≠ .breakpoint → h ∈ live (clear_all_breakpoints.run w).2.jvm := by
  rw [clear_all_breakpoints, perform_run]
  cases hr : w.refuses .clear_all_breakpoints with
  | some e =>
    have hno : ¬ strict := fun hs => by simp [World.refuses, (L.exact_ hs).clears_all] at hr
    exact ⟨(L.log _).lax hno, rfl, fun _ h _ => h⟩
  | none =>
    have hlive : live w.jvm.clear_all_breakpoints = (live w.jvm).filter fun h =>
        h.1 ≠ .breakpoint :=
      live_filter w.jvm fun h => decide (h.1 ≠ .breakpoint)
    have hrest : ∀ h ∈ live w.jvm, h.1 ≠ .breakpoint → h ∈ live w.jvm.clear_all_breakpoints :=
      fun h hl hne => by
        rw [hlive]
        exact List.mem_filter.mpr ⟨hl, by simpa using hne⟩
    refine ⟨⟨L.named, L.shaped, ?_, fun q hq => L.lasting q (List.mem_filter.mp hq).1,
      fun hs => ?_⟩, rfl, hrest⟩
    · change Custody Prod.snd w.jvm.next_request (live w.jvm.clear_all_breakpoints) _
      rw [hlive]
      exact L.custody.revoke _
    · have hx := L.exact_ hs
      refine ⟨fun h hl => ?_, fun h ho => ?_, by simp, fun h hg => ⟨fun hl => ?_, hg.2⟩,
        hx.no_stray, hx.clears, hx.clears_all⟩
      · change h ∈ live w.jvm.clear_all_breakpoints at hl
        rw [hlive] at hl
        exact hx.covered h (List.mem_filter.mp hl).1
      · rcases hx.standing h ho with hl | hg | hfl
        · by_cases hc : h.1 = .breakpoint
          · exact Or.inr (Or.inl ⟨hc, L.custody.live_granted h hl⟩)
          · exact Or.inl (hrest h hl hc)
        · exact hg.elim
        · exact Or.inr (Or.inr hfl)
      · change h ∈ live w.jvm.clear_all_breakpoints at hl
        rw [hlive] at hl
        exact absurd hg.1 (by simpa using (List.mem_filter.mp hl).2)

variable {sp : StopPoint} {h : Handle}

theorem code_of_kind (h : sp.kind ≠ .line) :
    sp.armed_on.code ≠ .breakpoint ∧ ¬ Lasting sp.armed_on.code := by
  revert h
  unfold StopPoint.kind ArmedOn.kind ArmedOn.code Lasting
  cases sp.armed_on with
  | line bp => simp
  | exception er => simp
  | watchpoint wp => cases hk : wp.kind <;> simp [WatchKind.event_kind, hk]
  | method_exit me => cases hr : me.with_return_value <;> simp [method_exit_event_kind, hr]
  | monitor mon => simp

theorem code_of_line (h : sp.kind = .line) : sp.armed_on.code = .breakpoint := by
  revert h
  unfold StopPoint.kind ArmedOn.kind ArmedOn.code
  cases sp.armed_on <;> simp

theorem hit_code (hh : h ∈ hit_handles sp) : h.1 = sp.armed_on.code := by
  obtain ⟨r, -, rfl⟩ := List.mem_map.mp hh
  rfl

/-- The way to an empty session: the breakpoints and the watches of the stop points are dead, the
hit requests of the other kinds stand. -/
structure Emptying (strict : Prop) (w w' : World) : Prop where
  ledger : Ledger strict [] (fun h => breakpoints_before w.jvm.next_request h ∨
    h ∈ (w.session.stop_points.rows.filterMap StopPoint.watch_request).map watch_handle) w'
  stop_points : w'.session.stop_points = w.session.stop_points
  pending_step : w'.session.pending_step = none
  rest : ∀ h ∈ live w.jvm, h.1 ≠ .breakpoint → ¬ Lasting h.1 → h ∈ live w'.jvm

theorem watches_sublist :
    ((s.stop_points.rows.filterMap StopPoint.watch_request).map watch_handle).Sublist
      (s.stop_points.rows.flatMap handles) := by
  rw [List.filterMap_eq_flatMap_toList, List.map_flatMap]
  refine List.Sublist.flatMap_right _ fun sp _ => ?_
  refine List.Sublist.trans ?_ (List.sublist_append_right _ _)
  cases sp.watch_request <;> exact List.Sublist.refl _

theorem watches_owned {s : DebugSession}
    (hh : h ∈ (s.stop_points.rows.filterMap StopPoint.watch_request).map watch_handle) :
    h.1 = .class_prepare ∧ 0 < s.stop_points.total fun sp => (handles sp).count h := by
  refine ⟨?_, ?_⟩
  · obtain ⟨r, -, rfl⟩ := List.mem_map.mp hh
    rfl
  · rw [total_handles]
    exact List.count_pos_iff.mpr ((watches_sublist s).subset hh)

def clear_lines : Handler Unit := do
  let _ ← clear_all_breakpoints
  clear_class_prepares ((← get).session.stop_points.rows.filterMap StopPoint.watch_request)

def drop_deferrals : Handler Unit := do
  let pend := (← get).session.pending_breakpoints.map PendingBreakpoint.class_prepare_request_id
  edit fun s => { s with pending_breakpoints := [] }
  clear_class_prepares pend

def drop_families : Handler Unit := do
  let sets := (← get).session.pattern_sets.rows.filterMap fun set => set.watch.request_id
  edit fun s => { s with pattern_sets := .empty }
  clear_class_prepares sets

def drop_stop_points : Handler Unit := do
  let survivors := (← get).session.stop_points.rows.filter fun sp => sp.kind ≠ .line
  edit fun s => { s with stop_points := .empty }
  survivors.forM fun sp => do
    let _ ← clear_stop_point_requests sp

/-- The four stages of `disarm_everything`. -/
theorem disarm_everything_run (w : World) : disarm_everything.run w =
    drop_stop_points.run (drop_families.run (drop_deferrals.run (clear_lines.run
      { w with session := note_every_traced_request_in_flight w.session }).2).2).2 := by
  simp only [disarm_everything, drop_stop_points, drop_families, drop_deferrals, clear_lines,
    run_bind, run_get, edit_run]

theorem clear_breakpoints_and_watches (L : Ledger strict [] nothing w)
    (hstep : w.session.pending_step = none) : Emptying strict w (clear_lines.run w).2 := by
  obtain ⟨L2, hsess, hrest⟩ := clear_all_ledger L
  simp only [clear_lines, run_bind, run_get, hsess]
  have hsub := watches_sublist w.session
  have hnd : (w.session.stop_points.rows.filterMap StopPoint.watch_request).Nodup := by
    refine List.Nodup.of_map watch_handle (List.nodup_iff_count_le_one.mpr fun h => ?_)
    have hle := hsub.count_le h
    have honce := L.custody.once h
    rw [← total_handles] at hle
    simp only [owned] at honce
    omega
  have hout := clear_each_withdrawn .class_prepare
    (w.session.stop_points.rows.filterMap StopPoint.watch_request) (clear_all_breakpoints.run w).2
  refine ⟨clear_each_owned .class_prepare _ hnd L2 fun hs r hr => ?_, ?_, ?_, fun h hl hb hn => ?_⟩
  · obtain ⟨-, hpos⟩ := watches_owned (List.mem_map_of_mem (f := watch_handle) hr)
    refine lasting_live L2 hs ?_ (Or.inl rfl) fun hg => by cases hg.1
    rw [hsess]
    simp only [owned]
    exact Nat.add_pos_left (Nat.add_pos_left (Nat.add_pos_left hpos _) _) _
  · exact congrArg DebugSession.stop_points (hout.session.trans hsess)
  · exact (congrArg DebugSession.pending_step (hout.session.trans hsess)).trans hstep
  · refine hout.rest h (hrest h hl hb) fun hm => hn ?_
    obtain ⟨r, -, rfl⟩ := List.mem_map.mp hm
    exact Or.inl rfl

/-- What some other record owns is not the watch of a stop point. -/
theorem not_watched {w w' : World} (hE : Emptying strict w w')
    (hown : w'.session.stop_points.total (fun sp => (handles sp).count h) < owned w'.session h) :
    h ∉ (w.session.stop_points.rows.filterMap StopPoint.watch_request).map watch_handle := by
  intro hm
  have hpos := (watches_owned hm).2
  have honce := hE.ledger.custody.once h
  rw [← hE.stop_points] at hpos
  omega

/-- Watches that other records own go with those records. -/
theorem drop_watches {w w' : World} (hE : Emptying strict w w') {t : DebugSession}
    {l : List RequestId} (hnamed : Named t) (hstops : t.stop_points = w'.session.stop_points)
    (hstep : t.pending_step = w'.session.pending_step)
    (hown : ∀ h, owned t h + (l.map watch_handle).count h = owned w'.session h) :
    Emptying strict w ((clear_class_prepares l).run { w' with session := t }).2 ∧
    ((clear_class_prepares l).run { w' with session := t }).2.session = t := by
  have hlive : strict → ∀ h ∈ l.map watch_handle, h ∈ live w'.jvm := fun hs h hh => by
    have hpos := List.count_pos_iff.mpr hh
    have hsum := hown h
    have hcode : h.1 = .class_prepare := by
      obtain ⟨r, -, rfl⟩ := List.mem_map.mp hh
      rfl
    have hlt : w'.session.stop_points.total (fun sp => (handles sp).count h) <
        owned w'.session h := by
      rw [← hsum, ← hstops]
      simp only [owned]
      omega
    refine lasting_live hE.ledger hs (by omega) (Or.inl hcode) fun hg => ?_
    rcases hg with hg | hg
    · rw [hg.1] at hcode
      cases hcode
    · exact not_watched hE hlt hg
  have Lt := hE.ledger.take (s := t) hnamed (fun sp hsp => hE.ledger.shaped sp (hstops ▸ hsp))
    (fun h => by
      have hsum := hown h
      omega) hlive
  have hout := clear_each_withdrawn .class_prepare l { w' with session := t }
  refine ⟨⟨clear_each_ledger .class_prepare _ Lt fun hs r hr =>
    hlive hs _ (List.mem_map_of_mem hr), ?_, ?_, fun h hl hb hn => ?_⟩, hout.session⟩
  · exact ((congrArg DebugSession.stop_points hout.session).trans hstops).trans hE.stop_points
  · exact ((congrArg DebugSession.pending_step hout.session).trans hstep).trans hE.pending_step
  · refine hout.rest h (hE.rest h hl hb hn) fun hm => hn ?_
    obtain ⟨r, -, rfl⟩ := List.mem_map.mp hm
    exact Or.inl rfl

theorem clear_deferrals {w w' : World} (hE : Emptying strict w w') :
    Emptying strict w (drop_deferrals.run w').2 ∧
    (drop_deferrals.run w').2.session.pending_breakpoints = [] := by
  simp only [drop_deferrals, run_bind, run_get, edit_run]
  have hmap : deferral_handles w'.session.pending_breakpoints =
      (w'.session.pending_breakpoints.map PendingBreakpoint.class_prepare_request_id).map
        watch_handle := by
    rw [List.map_map]
    rfl
  have hown : ∀ h, owned { w'.session with pending_breakpoints := [] } h +
      (deferral_handles w'.session.pending_breakpoints).count h = owned w'.session h := fun h => by
    simp only [owned, deferral_handles, List.map_nil, List.count_nil]
    omega
  obtain ⟨hE', hsess⟩ := drop_watches hE (named_deferrals hE.ledger.named (List.nil_sublist _))
    rfl rfl (hmap ▸ hown)
  exact ⟨hE', congrArg DebugSession.pending_breakpoints hsess⟩

theorem named_without_families {s : DebugSession} (hs : Named s) :
    Named { s with pattern_sets := .empty } where
  stops := hs.stops
  deferrals := hs.deferrals
  families := List.forall_mem_nil _
  members := List.forall_mem_nil _
  once := hs.once
  unarmed := hs.unarmed
  outside _ _ := List.forall_mem_nil _
  covered := List.forall_mem_nil _
  distinct := List.forall_mem_nil _
  unwatched := List.forall_mem_nil _

theorem family_watches :
    (s.pattern_sets.rows.filterMap fun set => set.watch.request_id).map watch_handle =
      s.pattern_sets.rows.flatMap family_handles := by
  rw [List.filterMap_eq_flatMap_toList, List.map_flatMap]
  refine congrArg (fun f => List.flatMap f _) (funext fun set => ?_)
  simp only [family_handles]
  cases set.watch.request_id <;> rfl

theorem total_families (h : Handle) :
    s.pattern_sets.total (fun set => (family_handles set).count h) =
      (s.pattern_sets.rows.flatMap family_handles).count h := by
  rw [List.count_flatMap]
  rfl

theorem clear_families {w w' : World} (hE : Emptying strict w w') :
    Emptying strict w (drop_families.run w').2 ∧
    (drop_families.run w').2.session.pending_breakpoints = w'.session.pending_breakpoints ∧
    (drop_families.run w').2.session.pattern_sets.rows = [] := by
  simp only [drop_families, run_bind, run_get, edit_run]
  have hown : ∀ h, owned { w'.session with pattern_sets := .empty } h +
      (w'.session.pattern_sets.rows.flatMap family_handles).count h = owned w'.session h :=
    fun h => by
      rw [← total_families]
      simp only [owned, Table.empty, Table.total, List.map_nil, List.sum_nil]
      omega
  obtain ⟨hE', hsess⟩ := drop_watches hE (named_without_families hE.ledger.named) rfl rfl
    (family_watches w'.session ▸ hown)
  exact ⟨hE', (congrArg DebugSession.pending_breakpoints hsess).trans rfl,
    (congrArg (fun s => s.pattern_sets.rows) hsess).trans rfl⟩

theorem named_without_stop_points {s : DebugSession} (hs : Named s) :
    Named { s with stop_points := .empty } where
  stops := List.forall_mem_nil _
  deferrals := hs.deferrals
  families := hs.families
  members := hs.members
  once := hs.once
  unarmed _ _ := rfl
  outside := hs.outside
  covered _ _ _ _ _ h := by cases h
  distinct := hs.distinct
  unwatched := hs.unwatched

theorem clear_survivors_in_hand (l : List StopPoint)
    (L : Ledger strict (l.flatMap hit_handles ++ hand) gone w)
    (hst : strict → ∀ sp ∈ l, Standing w sp) :
    Ledger strict hand gone ((l.forM fun sp => do
      let _ ← clear_stop_point_requests sp : Handler Unit).run w).2 := by
  induction l generalizing w with
  | nil => exact L
  | cons sp rest ih =>
    rw [List.flatMap_cons, List.append_assoc] at L
    have hone := clear_stop_point_in_hand L fun hs => hst hs sp List.mem_cons_self
    have hout := (clear_stop_point_withdrawn sp w).1
    refine ih hone fun hs v hv h hh => ?_
    refine hout.rest h (hst hs v (List.mem_cons_of_mem sp hv) h hh) fun hm => ?_
    have hpos := List.count_pos_iff.mpr hm
    have hpos' := List.count_pos_iff.mpr (List.mem_flatMap.mpr ⟨v, hv, hh⟩)
    have honce := L.custody.once h
    simp only [List.count_append] at honce
    omega

theorem survivors_session (l : List StopPoint) (w : World) :
    ((l.forM fun sp => do let _ ← clear_stop_point_requests sp : Handler Unit).run w).2.session =
      w.session := by
  induction l generalizing w with
  | nil => rfl
  | cons sp rest ih => exact (ih _).trans (clear_stop_point_withdrawn sp w).1.session

/-- `debug.panic` may clear the other kinds one by one when none of their requests fired away. -/
theorem clear_survivors {w w' : World} (L : Ledger strict [] nothing w) (hE : Emptying strict w w')
    (hempty : w'.session.pending_breakpoints = [] ∧ w'.session.pattern_sets.rows = [])
    (hst : strict → ∀ sp ∈ w.session.stop_points.rows, sp.kind ≠ .line → Standing w sp) :
    Ledger strict [] nothing (drop_stop_points.run w').2 ∧
      ∀ h, owned (drop_stop_points.run w').2.session h = 0 := by
  simp only [drop_stop_points, run_bind, run_get, edit_run]
  have hstand : strict → ∀ sp ∈ w'.session.stop_points.rows.filter (fun sp => sp.kind ≠ .line),
      Standing w' sp := fun hs sp hsp h hh => by
    obtain ⟨hmem, hk⟩ := List.mem_filter.mp hsp
    replace hk : sp.kind ≠ .line := by simpa using hk
    rw [hE.stop_points] at hmem
    obtain ⟨hb, hn⟩ := code_of_kind hk
    rw [← hit_code hh] at hb hn
    exact hE.rest h (hst hs sp hmem hk h hh) hb hn
  have hzero : ∀ h, owned { w'.session with stop_points := .empty } h = 0 := fun h => by
    simp only [owned, hempty.1, hE.pending_step, Table.total, Table.empty, hempty.2]
    rfl
  refine ⟨clear_survivors_in_hand _ ?_ hstand, fun h => by rw [survivors_session]; exact hzero h⟩
  rw [List.append_nil]
  have hsub : ((w'.session.stop_points.rows.filter fun sp => sp.kind ≠ .line).flatMap
      hit_handles).Sublist (w'.session.stop_points.rows.flatMap handles) :=
    (List.Sublist.flatMap List.filter_sublist _).trans
      (List.Sublist.flatMap_right _ fun sp _ => List.sublist_append_left _ _)
  refine hE.ledger.rewrite (s := { w'.session with stop_points := .empty })
    (named_without_stop_points hE.ledger.named) (List.forall_mem_nil _) (fun h => ?_)
      (fun hs h hl ho => ?_)
    (fun h => False.elim) (fun hs h ho => ?_) fun hs h hh => ?_
  · have hle := hsub.count_le h
    rw [← total_handles] at hle
    rw [hzero h]
    simp only [owned]
    omega
  · have hown : 0 < w'.session.stop_points.total fun sp => (handles sp).count h := by
      have := hzero h
      simp only [owned, Table.total, Table.empty, List.map_nil, List.sum_nil, List.count_nil]
        at this ho ⊢
      omega
    have hdead := fun hg => ((hE.ledger.exact_ hs).dead h hg).1 hl
    rw [total_handles, List.count_pos_iff, List.mem_flatMap] at hown
    obtain ⟨sp, hsp, hh⟩ := hown
    rcases List.mem_append.mp hh with hh | hh
    · by_cases hk : sp.kind = .line
      · refine absurd (Or.inl ⟨(hit_code hh).trans (code_of_line hk), ?_⟩) hdead
        refine L.custody.granted h (Nat.add_pos_left
          (owned_of_handle ?_ (List.mem_append_left _ hh)) _)
        rwa [← hE.stop_points]
      · rw [hzero h, Nat.zero_add]
        exact List.count_pos_iff.mpr (List.mem_flatMap.mpr
          ⟨sp, List.mem_filter.mpr ⟨hsp, by simpa using hk⟩, hh⟩)
    · refine absurd (Or.inr ?_) hdead
      rw [hE.stop_points] at hsp
      rw [List.filterMap_eq_flatMap_toList, List.map_flatMap]
      refine List.mem_flatMap.mpr ⟨sp, hsp, ?_⟩
      cases hw : sp.watch_request with
      | none =>
        rw [hw] at hh
        cases hh
      | some req =>
        rw [hw] at hh
        exact hh
  · rw [hzero h] at ho
    exact absurd ho (Nat.lt_irrefl 0)
  · obtain ⟨sp, hsp, hh⟩ := List.mem_flatMap.mp hh
    exact Or.inl (hstand hs sp hsp h hh)

theorem disarm_everything_ledger (L : Ledger strict [] nothing w)
    (hstep : w.session.pending_step = none)
    (hst : strict → ∀ sp ∈ w.session.stop_points.rows, sp.kind ≠ .line → Standing w sp) :
    Ledger strict [] nothing (disarm_everything.run w).2 ∧
      ∀ h, owned (disarm_everything.run w).2.session h = 0 := by
  obtain ⟨q, hq⟩ := note_every_eq w.session
  have Ln : Ledger strict [] nothing
      { w with session := note_every_traced_request_in_flight w.session } :=
    L.of_shelf (by rw [hq]; rfl)
  rw [disarm_everything_run]
  have h1 := clear_breakpoints_and_watches Ln (by rw [hq]; exact hstep)
  obtain ⟨h2, hp2⟩ := clear_deferrals h1
  obtain ⟨h3, hp3, hset3⟩ := clear_families h2
  refine clear_survivors Ln h3 ⟨hp3.trans hp2, hset3⟩ fun hs sp hsp hk => hst hs sp ?_ hk
  rw [hq] at hsp
  exact hsp

end Panic

end JavaDebug.Withdrawing
