import JavaDebug.Granting

/-!
The ledger through the functions that arm again under the same name: re-arming,
toggling and updating a stop point or a family, and what a class-prepare event
arms. Re-arming overwrites the request ids that were there, so in a strict
session there must have been none.
-/
namespace JavaDebug.Renewing

open Jdwp StopPoints Wire Disarming
open Arming Rearming StateProgram Runs ArmingWalks
open Ownership Withdrawing Granting

variable {strict : Prop} {hand : List Handle} {gone : Handle → Prop} {w w' : World}

section Rearm

/-- What a re-arm obtained is in hand. -/
def Renewed (s : DebugSession) (strict : Prop) (hand : List Handle) (gone : Handle → Prop)
    (on : ArmedOn) (r : Except Failure ReArmed) (w : World) : Prop :=
  match r with
  | .ok armed => Desk s strict (armed.request_ids.map (fun q => (on.code, q)) ++ hand) gone w ∧
      (on.kind ≠ .line → armed.request_ids.length ≤ 1)
  | .error _ => Desk s strict hand gone w

variable (s : DebugSession)

theorem extra_handles_eq (extra : List (RequestId × ArmedLocation)) :
    extra_handles extra = (extra.map Prod.fst).map fun q => (EventCode.breakpoint, q) := by
  rw [List.map_map]
  rfl

theorem rearm_line_desk (sp : StopPoint) (bp : LineBreakpoint) :
    Ensures (Desk s strict hand gone) (rearm_line_breakpoint sp bp)
      (Renewed s strict hand gone (.line bp)) := by
  refine Preserves.bind_ensures (location_preserves (lookup_desk s) bp) fun r => ?_
  cases r with
  | error e => exact fun w hw => hw
  | ok arm =>
    refine Ensures.bind (set_desk s (k := .breakpoint _) (by rintro (h | h) <;> cases h))
      fun r => ?_
    cases r with
    | error e => exact fun w hw => hw
    | ok req =>
      refine Ensures.bind (arm_extra_desk s _ _ _ _) fun extra w hw => ?_
      refine ⟨⟨hw.1.permute fun x => ?_, hw.2⟩, fun h => absurd rfl h⟩
      simp only [extra_handles_eq, List.map_cons, List.cons_append, List.count_cons,
        List.count_append, RequestKind.code, ArmedOn.code]
      omega

theorem rearm_request_desk {kind : RequestKind} {on : ArmedOn} (hcode : kind.code = on.code)
    (hl : ¬ Lasting kind.code) (sp : StopPoint) (f : EventFilters) :
    Ensures (Desk s strict hand gone) (rearm_request kind sp f)
      (Renewed s strict hand gone on) := by
  refine Ensures.bind (set_desk s (k := kind) fun h => absurd h hl) fun r => ?_
  cases r with
  | error e => exact fun w hw => hw
  | ok req =>
    refine fun w hw => ⟨?_, fun _ => le_rfl⟩
    rw [hcode] at hw
    exact hw

theorem rearm_requests_desk (sp : StopPoint) :
    Ensures (Desk s strict hand gone) (rearm_requests sp)
      (Renewed s strict hand gone sp.armed_on) :=
  rearm_ensures (lookup_desk s) (fun _ _ hw => hw)
    (fun bp hon => by rw [hon]; exact rearm_line_desk s sp bp) fun _ f hcode hprepare hstep _ =>
      rearm_request_desk s hcode (fun h => h.elim hprepare hstep) sp f

theorem with_arm_code (on : ArmedOn) (arm : Option BreakpointArm) :
    (with_arm on arm).code = on.code := by
  cases on <;> cases arm <;> rfl

theorem with_arm_kind (on : ArmedOn) (arm : Option BreakpointArm) :
    (with_arm on arm).kind = on.kind := by
  cases on <;> cases arm <;> rfl

theorem set_rearmed_watch (r : ReArmed) (sp : StopPoint) :
    (set_rearmed r sp).watch_request = sp.watch_request := by
  unfold StopPoint.watch_request StopPoint.line set_rearmed
  cases sp.armed_on <;> cases r.arm <;> rfl

/-- The stop point under `id`, if there is one, has no request of its own. -/
def Idle (w : World) (id : StopId) : Prop :=
  ∀ sp, w.session.stop_points.get? id = some sp → sp.request_ids = []

/-- A program that takes no request out. -/
def Adds {α : Type} (m : Handler α) : Prop := ∀ h, Preserves (fun w => h ∈ live w.jvm) m

theorem Adds.lookup {α : Type} (f : Answers → ℕ → α) : Adds (lookup f) := fun _ _ hw => hw

theorem Adds.set_request (k : RequestKind) (p : SuspendPolicy) (f : EventFilters) :
    Adds (set_request k p f) := by
  intro h w hw
  rw [set_request_run]
  cases w.refuses (.set k p f) with
  | some e => exact hw
  | none =>
    simp only [live, Jvm.set_request, List.map_append, List.mem_append]
    exact Or.inl hw

/-- Requests were added; only the stop point under `id` may have changed. -/
structure SwitchedOn (id : StopId) (w w' : World) : Prop where
  others : ∀ j, j ≠ id → w'.session.stop_points.get? j = w.session.stop_points.get? j
  rest : ∀ h ∈ live w.jvm, h ∈ live w'.jvm
  sets : w'.session.pattern_sets = w.session.pattern_sets

theorem SwitchedOn.standing {id j : StopId} (h : SwitchedOn id w w') (hj : j ≠ id)
    (hst : StandingAt w j) : StandingAt w' j := by
  intro sp hsp x hx
  rw [h.others j hj] at hsp
  exact h.rest x (hst sp hsp x hx)

theorem SwitchedOn.refl (id : StopId) (w : World) : SwitchedOn id w w :=
  ⟨fun _ _ => rfl, fun _ h => h, rfl⟩

/-- The new requests are filed; the ids they replace are forgotten. -/
theorem ledger_rearmed {sp : StopPoint} {r : ReArmed}
    (L : Ledger strict (r.request_ids.map (fun q => (sp.armed_on.code, q)) ++ hand) gone w)
    (hsp : w.session.stop_points.get? sp.id = some sp)
    (hone : sp.kind ≠ .line → r.request_ids.length ≤ 1) (hidle : strict → sp.request_ids = []) :
    Ledger strict hand gone
      { w with session := w.session.edit_stop_point sp.id (set_rearmed r) } := by
  have hnew : hit_handles (set_rearmed r sp) =
      r.request_ids.map fun q => (sp.armed_on.code, q) := by
    simp only [hit_handles, set_rearmed, with_arm_code]
  have hsum : ∀ h, owned (w.session.edit_stop_point sp.id (set_rearmed r)) h +
      (hit_handles sp).count h = owned w.session h +
        (r.request_ids.map fun q => (sp.armed_on.code, q)).count h := by
    intro h
    have := owned_edit_stop_point w.session (set_rearmed r) (fun _ => rfl) hsp h
    simp only [handles, List.count_append, set_rearmed_watch, hnew] at this
    omega
  have hnone : strict → hit_handles sp = [] := fun hs => hit_handles_off (hidle hs)
  refine L.rewrite (named_edit L.named (set_rearmed_watch r)) (shaped_edit L.shaped
    fun v hv hid => ?_) (fun h => ?_) (fun hs h _ ho => ?_) (fun _ => id) (fun hs h ho => ?_)
    fun hs h hm => (L.exact_ hs).in_hand h (List.mem_append_right _ hm)
  · obtain rfl : v = sp := by
      have := (Table.get?_eq_some _ _ _).mpr ⟨hv, hid⟩
      exact Option.some.inj (this.symm.trans hsp)
    refine shaped_on rfl rfl fun hk => hone ?_
    rwa [StopPoint.kind, set_rearmed, with_arm_kind] at hk
  · have := hsum h
    rw [List.count_append]
    omega
  · have := hsum h
    rw [hnone hs, List.count_nil] at this
    rw [List.count_append] at ho
    omega
  · have := hsum h
    rw [hnone hs, List.count_nil] at this
    by_cases hin : h ∈ r.request_ids.map fun q => (sp.armed_on.code, q)
    · exact ((L.exact_ hs).in_hand h (List.mem_append_left _ hin)).imp_right Or.inl
    · rw [List.count_eq_zero_of_not_mem hin] at this
      exact Or.inr (Or.inr ⟨by omega, fun hg => hg⟩)

theorem rearm_stop_point_ledger (id : StopId) (L : Ledger strict hand gone w)
    (hidle : strict → Idle w id) :
    Ledger strict hand gone ((rearm_stop_point id).run w).2 ∧
    SwitchedOn id w ((rearm_stop_point id).run w).2 := by
  unfold rearm_stop_point
  simp only [run_bind, run_get]
  cases hsp : w.session.stop_points.get? id with
  | none => exact ⟨L, SwitchedOn.refl id w⟩
  | some sp =>
    obtain ⟨-, rfl⟩ := (Table.get?_eq_some _ _ _).mp hsp
    have hdesk := rearm_requests_desk w.session sp w (⟨L, rfl⟩ : Desk w.session strict hand gone w)
    have hadds := fun h => rearm_preserves (fun f => Adds.lookup f h)
      (fun k p f => Adds.set_request k p f h) sp w
    simp only [run_bind]
    revert hdesk hadds
    generalize (rearm_requests sp).run w = res
    obtain ⟨r, w1⟩ := res
    intro hdesk hadds
    cases r with
    | error e =>
      obtain ⟨L1, hs⟩ := hdesk
      change w1.session = w.session at hs
      exact ⟨L1, fun j _ => by rw [run_pure, hs], hadds, congrArg DebugSession.pattern_sets hs⟩
    | ok armed =>
      obtain ⟨⟨L1, hs⟩, hone⟩ := hdesk
      change w1.session = w.session at hs
      refine ⟨ledger_rearmed L1 (by rw [hs]; exact hsp) hone fun h => hidle h sp hsp,
        fun j hj => ?_, hadds, (show w1.session.pattern_sets = _ by rw [hs])⟩
      refine (others_edit _ _ _ _ hj).trans ?_
      rw [hs]

end Rearm

section Toggle

theorem disable_keeps_sets (id : StopId) :
    Keeps (fun w => w.session.pattern_sets) (disable_stop_point id) := by
  intro w
  unfold disable_stop_point
  simp only [run_bind, run_get]
  cases w.session.stop_points.get? id with
  | none => rfl
  | some sp =>
    have hs := congrArg DebugSession.pattern_sets (clear_stop_point_withdrawn sp w).1.session
    simp only [run_bind]
    cases ((clear_stop_point_requests sp).run w).1 with
    | error e => exact hs
    | ok _ => exact hs

def set_enabled (want : Bool) (p : PatternStopSet) : PatternStopSet := { p with enabled := want }

/-- The last edit of a toggled family. -/
def switch_family (id : StopId) (want : Bool) (s : DebugSession) : DebugSession :=
  s.edit_pattern_set id (set_enabled want)

def set_watch (watch : ClassLoadWatch) (want : Bool) (p : PatternStopSet) : PatternStopSet :=
  { p with watch := watch, enabled := want }

theorem switch_watched (s : DebugSession) (id : StopId) (watch : ClassLoadWatch) (want : Bool) :
    switch_family id want (s.edit_pattern_set id fun p => { p with watch := watch }) =
      s.edit_pattern_set id (set_watch watch want) :=
  congrArg (fun t => { s with pattern_sets := t }) (Table.modify_modify s.pattern_sets id
    (fun p => { p with watch := watch }) (set_enabled want) (fun _ => rfl) fun _ => rfl)

variable {id : StopId} {set : PatternStopSet}

theorem ledger_unwatched (L : Ledger strict hand gone w)
    (hset : w.session.pattern_sets.get? id = some set) (hnone : set.watch.request_id = none)
    (watch : ClassLoadWatch) (want : Bool) (hw : watch.request_id = none) :
    Ledger strict hand gone
      { w with session := w.session.edit_pattern_set id (set_watch watch want) } :=
  ledger_edit_found L hset (set_watch watch want) (fun _ => rfl)
    (fun _ => List.Sublist.refl _) (hw.trans hnone.symm) fun _ => hw

/-- The family is watched again, if it has room, and switched on. -/
theorem rewatch_ledger (pattern : String) (L : Ledger strict [] gone w)
    (hset : w.session.pattern_sets.get? id = some set) (hnone : set.watch.request_id = none) :
    Ledger strict [] gone { ((rewatch_family id pattern).run w).2 with
      session := switch_family id true ((rewatch_family id pattern).run w).2.session } := by
  unfold rewatch_family
  simp only [run_bind, run_get, hset]
  by_cases hfull : (Option.any (fun s : PatternStopSet => !s.has_room) (some set)) = true
  · simp only [hfull, if_true, edit_run, switch_watched]
    exact ledger_unwatched L hset hnone .parked true rfl
  · simp only [hfull, Bool.false_eq_true, if_false, run_bind, edit_run, switch_watched]
    have hwatch := family_watch_desk w.session pattern w (⟨L, rfl⟩ :
      Desk w.session strict [] gone w)
    revert hwatch
    generalize (family_watch pattern).run w = res
    obtain ⟨watch, w1⟩ := res
    rintro ⟨L1, hs⟩
    change w1.session = w.session at hs
    rw [← hs] at hset
    cases watch with
    | watching req =>
      exact ledger_watch_set L1 hset hnone (set_watch (.watching req) true) (fun _ => rfl)
        (fun _ => List.Sublist.refl _) rfl rfl
    | parked => exact ledger_unwatched L1 hset hnone .parked true rfl
    | disabled => exact ledger_unwatched L1 hset hnone .disabled true rfl
    | failed => exact ledger_unwatched L1 hset hnone .failed true rfl

/-- The family's watch is cleared; then it may be switched off. -/
theorem unwatch_ledger (L : Ledger strict hand nothing w)
    (hset : w.session.pattern_sets.get? id = some set) :
    Ledger strict hand nothing { ((unwatch_family id).run w).2 with
      session := switch_family id false ((unwatch_family id).run w).2.session } := by
  unfold unwatch_family
  simp only [run_bind, run_get, hset, Option.bind_some]
  cases hreq : set.watch.request_id with
  | none =>
    simp only [edit_run, switch_watched]
    exact ledger_unwatched L hset hreq .disabled false rfl
  | some req =>
    have hmem := ((Table.get?_eq_some _ _ _).mp hset).1
    have hone : family_handles set = [watch_handle req] := by simp [family_handles, hreq]
    have Lc := (clear_request_ledger .class_prepare req L fun hs => family_live L hs hmem (by
      rw [hone]; exact List.mem_cons_self)).1
    have hs := (clear_request_withdrawn .class_prepare req w).1.session
    simp only [clear_class_prepare, run_bind, edit_run, switch_watched]
    revert Lc hs
    generalize ((clear_request .class_prepare req).run w).2 = w1
    intro Lc hs
    rw [← hs] at hset
    have Lf : Ledger strict hand (fun h => nothing h ∨ h ∈ family_handles set) w1 :=
      Lc.recall fun x => by rw [hone, List.mem_singleton]; rfl
    refine Lf.strike (named_edit_set Lf.named _ _ (fun _ => List.Sublist.refl _) fun _ _ _ => rfl)
      Lf.shaped fun h => ?_
    exact owned_edit_pattern_set w1.session (set_watch .disabled false) (fun _ => rfl) hset h

/-- The members of a family, each still to be switched on or off, while the family stays as it
is. -/
structure Toggling (strict : Prop) (want : Bool) (sets : Table PatternStopSet.id)
    (ids : List StopId) (w : World) : Prop where
  ledger : Ledger strict [] nothing w
  ready : strict → ∀ m ∈ ids, if want then Idle w m else StandingAt w m
  distinct : ids.Nodup
  families : w.session.pattern_sets = sets

theorem toggle_member_ledger {sets : Table PatternStopSet.id} (want : Bool) (m : StopId)
    (rest : List StopId) :
    Ensures (Toggling strict want sets (m :: rest))
      (do let _ ← if want then rearm_stop_point m else disable_stop_point m)
      fun _ => Toggling strict want sets rest := by
  rintro w ⟨L, hready, hd, hsets⟩
  obtain ⟨hout, hd⟩ := List.nodup_cons.mp hd
  have hne : ∀ j ∈ rest, j ≠ m := fun j hj heq => hout (heq ▸ hj)
  cases want with
  | true =>
    simp only [if_true] at hready ⊢
    obtain ⟨L', hon⟩ := rearm_stop_point_ledger m L fun hs => hready hs m List.mem_cons_self
    refine ⟨L', fun hs j hj sp hsp => ?_, hd, hon.sets.trans hsets⟩
    have hsp' := hon.others j (hne j hj)
    exact hready hs j (List.mem_cons_of_mem m hj) sp (hsp'.symm.trans hsp)
  | false =>
    simp only [Bool.false_eq_true, if_false] at hready ⊢
    obtain ⟨L', hoff, -⟩ := disable_ledger m L fun hs => hready hs m List.mem_cons_self
    refine ⟨L', fun hs j hj => ?_, hd, (disable_keeps_sets m w).trans hsets⟩
    exact hoff.standing L (hne j hj) (hready hs j (List.mem_cons_of_mem m hj))

theorem toggle_family_ledger (L : Ledger strict [] nothing w)
    (hset : w.session.pattern_sets.get? id = some set)
    (hready : strict → ∀ m ∈ set.members, if set.enabled then StandingAt w m else Idle w m) :
    Ledger strict [] nothing ((toggle_pattern_family id (!set.enabled)).run w).2 := by
  have hmem := ((Table.get?_eq_some _ _ _).mp hset).1
  have hnone : set.enabled = false → set.watch.request_id = none := L.named.unwatched set hmem
  have hstart : Toggling strict (!set.enabled) w.session.pattern_sets set.members w := by
    refine ⟨L, fun hs m hm => ?_, L.named.distinct set hmem, rfl⟩
    have := hready hs m hm
    cases hen : set.enabled <;> simp only [hen] at this ⊢ <;> exact this
  have hloop := Ensures.forM (fun m rest => toggle_member_ledger (!set.enabled) m rest)
    set.members w hstart
  unfold toggle_pattern_family
  simp only [run_bind, run_get, hset]
  revert hloop
  generalize (set.members.forM fun m => do
    let _ ← if (!set.enabled) = true then rearm_stop_point m else disable_stop_point m).run w = res
  obtain ⟨-, w1⟩ := res
  rintro ⟨L1, -, -, hsets⟩
  have hset1 : w1.session.pattern_sets.get? id = some set := by rw [hsets, hset]
  cases hen : set.enabled with
  | true => exact unwatch_ledger L1 hset1
  | false => exact rewatch_ledger set.class_pattern L1 hset1 (hnone hen)

/-- A toggle that changes something finds what it switches off live, and the members of a family
it switches on without requests. -/
def Toggleable (w : World) (id : StopId) (enabled : Option Bool) : Prop :=
  match w.session.pattern_sets.get? id with
  | some set => enabled.getD (!set.enabled) ≠ set.enabled →
      ∀ m ∈ set.members, if set.enabled then StandingAt w m else Idle w m
  | none => enabled ≠ some true → StandingAt w id

theorem check_filter_desk (s : DebugSession) (id : StopId) :
    Preserves (Desk s strict hand gone) (check_instance_filter_still_live id) := by
  refine Preserves.get_bind fun w _ => ?_
  split
  · exact Preserves.pure _
  · refine Preserves.bind (lookup_desk s _) fun r => ?_
    cases r <;> exact Preserves.pure _

theorem idle_of_off (L : Ledger strict hand gone w) {sp : StopPoint}
    (hsp : w.session.stop_points.get? id = some sp) (hoff : sp.enabled = false) : Idle w id := by
  intro v hv
  obtain rfl := Option.some.inj (hsp.symm.trans hv)
  exact (L.shaped sp ((Table.get?_eq_some _ _ _).mp hsp).1).off hoff

theorem handle_toggle_ledger (id : StopId) (enabled : Option Bool) (L : Ledger strict [] nothing w)
    (hc : strict → Toggleable w id enabled) :
    Ledger strict [] nothing ((handle_toggle_stop_point id enabled).run w).2 := by
  unfold handle_toggle_stop_point
  unfold Toggleable at hc
  simp only [run_bind, run_get]
  cases hset : w.session.pattern_sets.get? id with
  | some set =>
    rw [hset] at hc
    simp only [run_ite]
    split
    · exact L
    · rename_i hne
      have hwant : enabled.getD (!set.enabled) = !set.enabled := by
        cases h : enabled.getD (!set.enabled) <;> cases h' : set.enabled <;> simp_all
      rw [hwant]
      exact toggle_family_ledger L hset fun hs => hc hs hne
  | none =>
    rw [hset] at hc
    simp only [run_bind, run_get]
    cases hcur : enabled_state_of w.session id with
    | error e => exact L
    | ok current =>
      obtain ⟨sp, hsp, rfl⟩ : ∃ sp, w.session.stop_points.get? id = some sp ∧
          sp.enabled = current := by
        unfold enabled_state_of at hcur
        split at hcur
        · exact ⟨_, ‹_›, by injection hcur⟩
        · split at hcur <;> cases hcur
      simp only [run_ite]
      split
      · exact L
      rename_i hne
      split
      · rename_i hon
        refine (disable_ledger id L fun hs => hc hs ?_).1
        rintro rfl
        exact hne hon.symm
      · rename_i hon
        have hoff : sp.enabled = false := by simpa using hon
        have hcheck := check_filter_desk w.session id w (⟨L, rfl⟩ :
          Desk w.session strict [] nothing w)
        simp only [run_bind]
        revert hcheck
        generalize (check_instance_filter_still_live id).run w = res
        obtain ⟨r, w1⟩ := res
        rintro ⟨L1, hs⟩
        change w1.session = w.session at hs
        cases r with
        | error e => exact L1
        | ok _ =>
          rw [← hs] at hsp
          exact (rearm_stop_point_ledger id L1 fun _ => idle_of_off L1 hsp hoff).1

end Toggle

section Update

theorem edit_conditions_handles (condition : FieldEdit String) (hit_count : FieldEdit ℕ)
    (sp : StopPoint) : handles (edit_conditions condition hit_count sp) = handles sp := rfl

theorem edit_first_map {β : Type} (id : StopId) (f : PendingBreakpoint → PendingBreakpoint)
    (g : PendingBreakpoint → β) (hg : ∀ p, g (f p) = g p) (l : List PendingBreakpoint) :
    (edit_first id f l).map g = l.map g := by
  induction l with
  | nil => rfl
  | cons p rest ih =>
    unfold edit_first
    split
    · rw [List.map_cons, List.map_cons, hg]
    · rw [List.map_cons, List.map_cons, ih]

theorem named_rewritten {s : DebugSession} (hs : Named s) {l : List PendingBreakpoint}
    (h : l.map PendingBreakpoint.bp_id = s.pending_breakpoints.map PendingBreakpoint.bp_id) :
    Named { s with pending_breakpoints := l } := by
  have hall : ∀ P : StopId → Prop, (∀ p ∈ s.pending_breakpoints, P p.bp_id) →
      ∀ p ∈ l, P p.bp_id := fun P hp p hl => by
    have hm := List.mem_map_of_mem (f := PendingBreakpoint.bp_id) hl
    rw [h] at hm
    obtain ⟨q, hq, heq⟩ := List.mem_map.mp hm
    exact heq ▸ hp q hq
  exact ⟨hs.stops, hall (fun i => i.seq ≤ s.stop_seq) hs.deferrals, hs.families, hs.members,
    h ▸ hs.once, hall (fun i => s.stop_points.get? i = none) hs.unarmed,
    hall (fun i => ∀ set ∈ s.pattern_sets.rows, i ∉ set.members) hs.outside, hs.covered,
    hs.distinct, hs.unwatched⟩

/-- An edit of the records leaves every request where it was. -/
structure SameRequests (w w' : World) : Prop where
  jvm : w'.jvm = w.jvm
  hits : ∀ j sp, w'.session.stop_points.get? j = some sp →
    ∃ v, w.session.stop_points.get? j = some v ∧ hit_handles sp = hit_handles v

theorem SameRequests.standing (h : SameRequests w w') {j : StopId} (hst : StandingAt w j) :
    StandingAt w' j := by
  intro sp hsp x hx
  obtain ⟨v, hv, heq⟩ := h.hits j sp hsp
  rw [h.jvm]
  exact hst v hv x (heq ▸ hx)

theorem apply_edit_ledger (id : StopId) (condition : FieldEdit String) (hit_count : FieldEdit ℕ)
    (L : Ledger strict hand gone w) :
    Ledger strict hand gone
      { w with session := apply_stop_point_edit w.session id condition hit_count } ∧
     SameRequests w
      { w with session := apply_stop_point_edit w.session id condition hit_count } := by
  unfold apply_stop_point_edit
  split
  · rename_i hsome
    obtain ⟨sp, hsp⟩ := Option.isSome_iff_exists.mp hsome
    refine ⟨L.shift (s := w.session.edit_stop_point id (edit_conditions condition hit_count))
      (named_edit L.named fun _ => rfl) (shaped_edit L.shaped fun v hv _ =>
        ⟨(L.shaped v hv).off, (L.shaped v hv).spent, (L.shaped v hv).single⟩) (fun h => ?_)
      fun _ _ => Or.inr, rfl, fun j v hv => ?_⟩
    · have := owned_edit_stop_point w.session (edit_conditions condition hit_count)
        (fun _ => rfl) hsp h
      rw [edit_conditions_handles] at this
      omega
    · by_cases hj : j = id
      · subst hj
        have hv' := (get?_edit w.session j (edit_conditions condition hit_count) fun _ => rfl).symm
          |>.trans hv
        obtain ⟨u, hu, rfl⟩ := Option.map_eq_some_iff.mp hv'
        exact ⟨u, hu, rfl⟩
      · exact ⟨v, (others_edit _ _ _ _ hj).symm.trans hv, rfl⟩
  · split
    · have hids := edit_first_map id (edit_pending condition hit_count) PendingBreakpoint.bp_id
        (fun _ => rfl) w.session.pending_breakpoints
      refine ⟨L.shift (named_rewritten L.named hids) L.shaped (fun h => ?_) fun _ _ => Or.inr, rfl,
        fun j v hv => ⟨v, hv, rfl⟩⟩
      simp only [owned, deferral_handles, edit_first_map id (edit_pending condition hit_count)
        (fun p => watch_handle p.class_prepare_request_id) (fun _ => rfl)]
    · exact ⟨ledger_edit_set L id (edit_family condition hit_count) (fun _ => rfl)
        (fun _ => List.Sublist.refl _) (fun _ => rfl) fun _ => rfl, rfl,
        fun j v hv => ⟨v, hv, rfl⟩⟩

def apply_edits (condition : FieldEdit String) (hit_count : FieldEdit ℕ) (ids : List StopId)
    (s : DebugSession) : DebugSession :=
  ids.foldl (fun s m => apply_stop_point_edit s m condition hit_count) s

theorem apply_edits_ledger (ids : List StopId) (condition : FieldEdit String)
    (hit_count : FieldEdit ℕ) (L : Ledger strict hand gone w) :
    Ledger strict hand gone { w with session := apply_edits condition hit_count ids w.session } ∧
    ∀ j, StandingAt w j →
      StandingAt { w with session := apply_edits condition hit_count ids w.session } j := by
  induction ids generalizing w with
  | nil => exact ⟨L, fun _ h => h⟩
  | cons m rest ih =>
    obtain ⟨L1, hsame⟩ := apply_edit_ledger m condition hit_count L
    obtain ⟨L2, hst⟩ := ih L1
    exact ⟨L2, fun j h => hst j (hsame.standing h)⟩

/-- Stop points whose requests are still to be cleared and sent again. -/
structure Pushing (strict : Prop) (ids : List StopId) (w : World) : Prop where
  ledger : Ledger strict [] nothing w
  standing : strict → ∀ m ∈ ids, StandingAt w m
  distinct : ids.Nodup

theorem push_ledger (ids : List StopId) :
    Ensures (Pushing strict ids) (push_hit_count_to_the_wire ids)
      fun _ w => Ledger strict [] nothing w := by
  refine Ensures.mono (Ensures.forM (fun m rest w P => ?_) ids) (fun _ h => h)
    fun _ _ h => Pushing.ledger h
  obtain ⟨L, hst, hd⟩ := P
  obtain ⟨hout, hd⟩ := List.nodup_cons.mp hd
  have hne : ∀ j ∈ rest, j ≠ m := fun j hj heq => hout (heq ▸ hj)
  rw [run_bind, run_get]
  by_cases ha : is_armed w.session m = true
  · simp only [ha, if_true]
    obtain ⟨L1, hoff, hidle⟩ := disable_ledger m L fun hs => hst hs m List.mem_cons_self
    obtain ⟨L2, hon⟩ := rearm_stop_point_ledger m L1 fun hs sp hsp => hidle hs sp hsp
    refine ⟨L2, fun hs j hj => hon.standing (hne j hj) ?_, hd⟩
    exact hoff.standing L (hne j hj) (hst hs j (List.mem_cons_of_mem m hj))
  · simp only [ha, Bool.false_eq_true, if_false]
    exact ⟨L, fun hs j hj => hst hs j (List.mem_cons_of_mem m hj), hd⟩

/-- The stop points whose requests an update of the hit count sends again. -/
def pushed_to (s : DebugSession) (id : StopId) : List StopId :=
  match s.stop_points.get? id with
  | some _ => [id]
  | none =>
    match s.pattern_sets.get? id with
    | some set => if set.members.isEmpty then [id] else set.members
    | none => [id]

theorem handle_update_ledger (id : StopId) (condition : FieldEdit String) (hit_count : FieldEdit ℕ)
    (L : Ledger strict [] nothing w)
    (hc : strict → hit_count.asked → ∀ m ∈ pushed_to w.session id, StandingAt w m) :
    Ledger strict [] nothing ((handle_update_stop_point id condition hit_count).run w).2 := by
  unfold handle_update_stop_point
  rw [run_ite]
  split
  · exact L
  simp only [run_bind, run_get]
  cases hbefore : read_editable_stop_point w.session id with
  | error e => exact L
  | ok before =>
    have hto : (if before.family_members.isEmpty then [id] else before.family_members) =
        pushed_to w.session id ∧ before.family_members.Nodup := by
      unfold read_editable_stop_point at hbefore
      unfold pushed_to
      split at hbefore
      · cases hbefore
        exact ⟨by simp [*], List.nodup_nil⟩
      · split at hbefore
        · rename_i set hset
          cases hbefore
          exact ⟨by simp [*], L.named.distinct set ((Table.get?_eq_some _ _ _).mp hset).1⟩
        · split at hbefore
          · cases hbefore
            exact ⟨by simp [*], List.nodup_nil⟩
          · cases hbefore
    obtain ⟨L1, hst⟩ := apply_edits_ledger (id :: before.family_members) condition hit_count L
    simp only [run_ite]
    split
    · exact L
    split
    · exact L
    simp only [run_bind, edit_run]
    cases hasked : hit_count.asked with
    | false => exact L1
    | true =>
      refine push_ledger _ _ ⟨L1, fun hs m hm => hst m (hc hs hasked m ?_), ?_⟩
      · rwa [← hto.1]
      · split
        · exact List.nodup_singleton _
        · exact hto.2

end Update

end JavaDebug.Renewing
