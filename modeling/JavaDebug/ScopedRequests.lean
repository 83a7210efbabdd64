import JavaDebug.Addressing
import JavaDebug.ArmingWalks
import JavaDebug.Waning

/-!
The filters of a stop point on their way to the debuggee. Each id that a
session hands out has one scope, from the call that made it; `Scoped` says that
the record under an id and every live request of it carry that scope, and that
the hit requests sent so far carry an allowed one. It is kept by every arming
and re-arming path, and by whatever arms nothing.
-/
namespace JavaDebug.ScopedRequests

open Jdwp StopPoints Wire Disarming
open Arming Rearming StateProgram Runs
open Ownership Renewing ClassLoads LedgerRuns Waning
open Addressing ArmingWalks

section Scopes

def filter_scope (f : EventFilters) : Scope := ⟨f.thread, f.instance_⟩

def stop_scope (sp : StopPoint) : Scope := ⟨sp.thread_filter, sp.instance_filter⟩

def deferral_scope (p : PendingBreakpoint) : Scope := ⟨p.thread_filter, p.instance_filter⟩

def family_scope (set : PatternStopSet) : Scope := ⟨set.thread_filter, set.instance_filter⟩

def options_scope (o : StopOptions) : Scope := ⟨o.thread_filter, o.instance_filter⟩

/-- Every live request among `ids` has the scope `sc`; none of them is still to be granted. -/
def Carry (j : Jvm) (ids : List RequestId) (sc : Scope) : Prop :=
  ∀ r ∈ ids, r < j.next_request ∧ ∀ q ∈ j.requests, q.id = r → filter_scope q.filters = sc

/-- The id has been handed out, and has this scope. -/
def Under (φ : ℕ → Scope) (n : ℕ) (id : StopId) (sc : Scope) : Prop := id.seq ≤ n ∧ φ id.seq = sc

/-- `φ` gives every id its scope, `b` is an id handed out before, `S` are the scopes that may be
sent, and `ids` are requests in hand, of scope `sc`. -/
structure Scoped (φ : ℕ → Scope) (b : ℕ) (S : Scope → Prop) (ids : List RequestId) (sc : Scope)
    (w : World) : Prop where
  past : b ≤ w.session.stop_seq
  stop_points : ∀ sp ∈ w.session.stop_points.rows,
    Under φ w.session.stop_seq sp.id (stop_scope sp) ∧
      Carry w.jvm sp.request_ids (stop_scope sp) ∧
      (sp.kind = .monitor → sp.instance_filter = none)
  pending : ∀ p ∈ w.session.pending_breakpoints,
    Under φ w.session.stop_seq p.bp_id (deferral_scope p)
  families : ∀ set ∈ w.session.pattern_sets.rows,
    Under φ w.session.stop_seq set.id (family_scope set) ∧
      ∀ m ∈ set.members, Under φ w.session.stop_seq m (family_scope set)
  live : ∀ q ∈ w.jvm.requests, q.id < w.jvm.next_request
  sent : ∀ k p f, Command.set k p f ∈ w.sent → ¬ Lasting k.code → S (filter_scope f)
  hand : Carry w.jvm ids sc

end Scopes

variable {φ : ℕ → Scope} {b : ℕ} {S : Scope → Prop} {ids : List RequestId} {sc : Scope}

section Frames

/-- The commands sent in between are all of the kind `P`. -/
def Utters (P : Command → Prop) (w w' : World) : Prop := ∀ c ∈ w'.sent, c ∈ w.sent ∨ P c

instance (P : Command → Prop) : IsPreorder World (Utters P) where
  refl _ _ h := Or.inl h
  trans _ _ _ h h' c hc := (h' c hc).elim (h c) Or.inr

section Uttering

variable {P : Command → Prop}

theorem log_utters {c : Command} (hc : P c) (w : World) : Utters P w (w.log c) := by
  intro c' hm
  rcases List.mem_append.mp hm with hm | hm
  · exact Or.inl hm
  · rw [List.mem_singleton.mp hm]
    exact Or.inr hc

theorem edit_utters (f : DebugSession → DebugSession) : Leads (Utters P) (edit f) :=
  fun _ _ h => Or.inl h

theorem lookup_utters {α : Type} (hc : P .lookup) (f : Answers → ℕ → α) :
    Leads (Utters P) (lookup f) := log_utters hc

theorem send_utters {c : Command} (hc : P c) : Leads (Utters P) (send c) := by
  intro w
  rw [send_run]
  exact log_utters hc w

theorem perform_utters {c : Command} (hc : P c) (f : Jvm → Jvm) :
    Leads (Utters P) (perform c f) := by
  refine Leads.bind (send_utters hc) fun r => ?_
  cases r with
  | error e => exact Leads.pure _
  | ok _ => exact Leads.bind (fun _ _ h => Or.inl h) fun _ => Leads.pure _

theorem set_request_utters {k : RequestKind} {p : SuspendPolicy} {f : EventFilters}
    (hc : P (.set k p f)) : Leads (Utters P) (set_request k p f) := by
  refine Leads.bind (send_utters hc) fun r => ?_
  cases r with
  | error e => exact Leads.pure _
  | ok _ => exact Leads.get_bind fun _ => Leads.bind (fun _ _ h => Or.inl h) fun _ => Leads.pure _

end Uttering

/-- A command that arms no request of a stop point. -/
def Hush (c : Command) : Prop := ∀ k p f, c = .set k p f → Lasting k.code

abbrev Hushed : World → World → Prop := Utters Hush

theorem lookup_hushed {α : Type} (f : Answers → ℕ → α) : Leads Hushed (lookup f) :=
  lookup_utters (fun _ _ _ h => by cases h) f

theorem clear_request_hushed (code : EventCode) (id : RequestId) :
    Leads Hushed (clear_request code id) := perform_utters (fun _ _ _ h => by cases h) _

theorem set_lasting_hushed {k : RequestKind} (hk : Lasting k.code) (p : SuspendPolicy)
    (f : EventFilters) : Leads Hushed (set_request k p f) :=
  set_request_utters fun _ _ _ h => by cases h; exact hk

theorem disable_hushed (id : StopId) : Leads Hushed (disable_stop_point id) :=
  Leads.of_preserves fun w => disable_preserves
    (fun c r => (clear_request_hushed c r).preserves w) ((edit_utters _).preserves w)

variable {w : World}

theorem Carry.wanes {w' : World} {reqs reqs' : List RequestId} (h : Carry w.jvm reqs sc)
    (hw : Wanes w w') (hsub : reqs' ⊆ reqs) : Carry w'.jvm reqs' sc := by
  intro r hr
  obtain ⟨hlt, hscope⟩ := h r (hsub hr)
  refine ⟨hlt.trans_le hw.next_request, fun q hq hid => ?_⟩
  rcases hw.requests q hq with hq | ⟨-, hlo, -⟩
  · exact hscope q hq hid
  · rw [hid] at hlo
    exact absurd hlt (Nat.not_lt.mpr hlo)

theorem Scoped.wanes {w' : World} {S' : Scope → Prop} (h : Scoped φ b S ids sc w) (hw : Wanes w w')
    (hsent : ∀ k p f, Command.set k p f ∈ w'.sent → ¬ Lasting k.code → S' (filter_scope f)) :
    Scoped φ b S' ids sc w' where
  past := by
    rw [hw.stop_seq]
    exact h.past
  stop_points sp' hsp' := by
    obtain ⟨sp, hsp, hr⟩ := hw.stop_points sp' hsp'
    obtain ⟨hunder, hcarry, hmon⟩ := h.stop_points sp hsp
    have hscope : stop_scope sp' = stop_scope sp := by
      unfold stop_scope
      rw [hr.thread_filter, hr.instance_filter]
    rw [hw.stop_seq, hscope, hr.id, hr.kind, hr.instance_filter]
    exact ⟨hunder, hcarry.wanes hw hr.request_ids, hmon⟩
  pending p' hp' := by
    obtain ⟨p, hp, ha⟩ := hw.pending p' hp'
    have hscope : deferral_scope p' = deferral_scope p := by
      unfold deferral_scope
      rw [ha.thread_filter, ha.instance_filter]
    rw [hw.stop_seq, hscope, ha.bp_id]
    exact h.pending p hp
  families set' hset' := by
    obtain ⟨set, hset, ht⟩ := hw.families set' hset'
    have hscope : family_scope set' = family_scope set := by
      unfold family_scope
      rw [ht.thread_filter, ht.instance_filter]
    rw [hw.stop_seq, hscope, ht.id]
    exact ⟨(h.families set hset).1, fun m hm => (h.families set hset).2 m (ht.members hm)⟩
  live q hq := by
    rcases hw.requests q hq with hq | ⟨-, -, hlt⟩
    · exact (h.live q hq).trans_le hw.next_request
    · exact hlt
  sent := hsent
  hand := h.hand.wanes hw (List.Subset.refl _)

theorem scoped_frame {α : Type} {m : Handler α} (hw : Leads Wanes m) (hs : Leads Hushed m) :
    Preserves (Scoped φ b S ids sc) m := fun w h => h.wanes (hw w) fun k p f hm hk =>
  (hs w _ hm).elim (fun hm => h.sent k p f hm hk) fun hl => absurd (hl k p f rfl) hk

theorem Scoped.drop {ids' : List RequestId} (h : Scoped φ b S ids sc w) (hsub : ids' ⊆ ids) :
    Scoped φ b S ids' sc w :=
  ⟨h.past, h.stop_points, h.pending, h.families, h.live, h.sent, fun r hr => h.hand r (hsub hr)⟩

theorem Scoped.empty {sc' : Scope} (h : Scoped φ b S ids sc w) : Scoped φ b S [] sc' w :=
  ⟨h.past, h.stop_points, h.pending, h.families, h.live, h.sent, fun _ hr => by cases hr⟩

theorem Scoped.lower {b' : ℕ} (h : Scoped φ b' S ids sc w) (hb : b ≤ b') : Scoped φ b S ids sc w :=
  ⟨hb.trans h.past, h.stop_points, h.pending, h.families, h.live, h.sent, h.hand⟩

theorem Scoped.raise (h : Scoped φ b S ids sc w) : Scoped φ w.session.stop_seq S ids sc w :=
  ⟨le_rfl, h.stop_points, h.pending, h.families, h.live, h.sent, h.hand⟩

end Frames

section Steps

theorem scoped_lookup {α : Type} (f : Answers → ℕ → α) :
    Preserves (Scoped φ b S ids sc) (lookup f) :=
  scoped_frame (fun _ => Wanes.of_shelf rfl) (lookup_hushed f)

theorem scoped_clear_request (code : EventCode) (id : RequestId) :
    Preserves (Scoped φ b S ids sc) (clear_request code id) :=
  scoped_frame (clear_request_wanes code id) (clear_request_hushed code id)

theorem scoped_class_prepare (pattern : String) :
    Preserves (Scoped φ b S ids sc) (set_class_prepare pattern) :=
  scoped_frame (set_class_prepare_wanes pattern) (set_lasting_hushed (Or.inl rfl) _ _)

theorem scoped_disable (id : StopId) : Preserves (Scoped φ b S ids sc) (disable_stop_point id) :=
  scoped_frame (disable_wanes id) (disable_hushed id)

theorem scoped_edit {f : DebugSession → DebugSession} (h : Leads Wanes (edit f)) :
    Preserves (Scoped φ b S ids sc) (edit f) := scoped_frame h (edit_utters f)

/-- A request of the scope in hand is sent; if it is granted, it is in hand too. -/
theorem scoped_set (k : RequestKind) (p : SuspendPolicy) {f : EventFilters}
    (hf : filter_scope f = sc) (hS : S sc) : Ensures (Scoped φ b S ids sc) (set_request k p f)
      fun r => Scoped φ b S (r.toOption.toList ++ ids) sc := by
  intro w h
  have hsent : ∀ k' p' f', Command.set k' p' f' ∈ (w.log (.set k p f)).sent →
      ¬ Lasting k'.code → S (filter_scope f') := by
    intro k' p' f' hm hk
    rcases List.mem_append.mp hm with hm | hm
    · exact h.sent k' p' f' hm hk
    · cases List.mem_singleton.mp hm
      rw [hf]
      exact hS
  have hgrown : ∀ {reqs : List RequestId} {s : Scope}, Carry w.jvm reqs s →
      Carry (w.jvm.set_request k p f) reqs s := by
    intro reqs s hc r hr
    obtain ⟨hlt, hscope⟩ := hc r hr
    refine ⟨hlt.trans (Nat.lt_succ_self _), fun q hq hid => ?_⟩
    rcases List.mem_append.mp hq with hq | hq
    · exact hscope q hq hid
    · rw [List.mem_singleton.mp hq] at hid
      exact absurd (hid ▸ hlt) (Nat.lt_irrefl _)
  rw [set_request_run]
  cases w.refuses (.set k p f) with
  | some e => exact ⟨h.past, h.stop_points, h.pending, h.families, h.live, hsent, h.hand⟩
  | none =>
    refine ⟨h.past, fun sp hsp => ?_, h.pending, h.families, fun q hq => ?_, hsent, ?_⟩
    · obtain ⟨hunder, hcarry, hmon⟩ := h.stop_points sp hsp
      exact ⟨hunder, hgrown hcarry, hmon⟩
    · rcases List.mem_append.mp hq with hq | hq
      · exact (h.live q hq).trans (Nat.lt_succ_self _)
      · rw [List.mem_singleton.mp hq]
        exact Nat.lt_succ_self _
    · intro r hr
      rcases List.mem_cons.mp hr with rfl | hr
      · refine ⟨Nat.lt_succ_self _, fun q hq hid => ?_⟩
        rcases List.mem_append.mp hq with hq | hq
        · exact absurd (hid ▸ h.live q hq) (Nat.lt_irrefl _)
        · rw [List.mem_singleton.mp hq]
          exact hf
      · exact hgrown h.hand r hr

theorem scoped_register {sp : StopPoint} (hid : sp.id.seq ≤ b) (hφ : φ sp.id.seq = sc)
    (hsc : stop_scope sp = sc) (hids : sp.request_ids ⊆ ids)
    (hmon : sp.kind = .monitor → sp.instance_filter = none) :
    Preserves (Scoped φ b S ids sc) (edit fun s => s.register_stop_point sp) := by
  intro w h
  refine ⟨h.past, fun v hv => ?_, h.pending, h.families, h.live, h.sent, h.hand⟩
  rcases (Table.mem_insert _ _ _).mp hv with ⟨hv, -⟩ | rfl
  · exact h.stop_points v hv
  · refine ⟨⟨hid.trans h.past, hφ.trans hsc.symm⟩, fun r hr => ?_, hmon⟩
    rw [hsc]
    exact h.hand r (hids hr)

/-- The program that uses a fresh id may rely on its being handed out. -/
theorem ensures_fresh {α : Type} (tag : String) {f : StopId → Handler α} {Q : α → World → Prop}
    (hf : ∀ id : StopId, b < id.seq → Ensures (Scoped φ id.seq S ids sc) (f id) Q) :
    Ensures (Scoped φ b S ids sc) (fresh_id tag >>= f) Q := by
  intro w h
  have hle : ∀ {id : StopId} {s : Scope}, Under φ w.session.stop_seq id s →
      Under φ (w.session.stop_seq + 1) id s := fun hu => ⟨hu.1.trans (Nat.le_succ _), hu.2⟩
  refine hf ⟨tag, w.session.stop_seq + 1⟩ (Nat.lt_succ_of_le h.past) { w with
    session := { w.session with stop_seq := w.session.stop_seq + 1 } } ⟨le_rfl, fun sp hsp => ?_,
      fun p hp => hle (h.pending p hp), fun set hset => ?_, h.live, h.sent, h.hand⟩
  · obtain ⟨hunder, hrest⟩ := h.stop_points sp hsp
    exact ⟨hle hunder, hrest⟩
  · obtain ⟨hunder, hmembers⟩ := h.families set hset
    exact ⟨hle hunder, fun m hm => hle (hmembers m hm)⟩

theorem scoped_fresh {α : Type} (tag : String) {f : StopId → Handler α}
    (hf : ∀ id : StopId, b < id.seq → Preserves (Scoped φ id.seq S ids sc) (f id)) :
    Preserves (Scoped φ b S ids sc) (fresh_id tag >>= f) :=
  Preserves.of_ensures (ensures_fresh tag (Q := fun _ => Scoped φ b S ids sc)
    fun id hid w h => (hf id hid w h).lower hid.le) fun _ _ h => h

end Steps

section Arming

theorem scoped_resolve (c : ClassId) (l : Option ℤ) (m : Option String) :
    Preserves (Scoped φ b S ids sc) (resolve_bp_location c l m) := scoped_lookup _

theorem scoped_extra (p : SuspendPolicy) {f : EventFilters} (hf : filter_scope f = sc) (hS : S sc)
    (locs : List ArmedLocation) : Ensures (Scoped φ b S ids sc) (arm_extra_line_locations p f locs)
      fun extra => Scoped φ b S (extra.map Prod.fst ++ ids) sc := by
  induction locs generalizing ids with
  | nil => exact fun w h => h
  | cons loc rest ih =>
    refine Ensures.bind (scoped_set _ p hf hS) fun sent => Ensures.bind ih fun others => ?_
    cases sent with
    | error e => exact fun w h => h
    | ok req =>
      refine fun w h => Scoped.drop h fun r hr => ?_
      rcases List.mem_cons.mp hr with rfl | hr
      · exact List.mem_append_right _ List.mem_cons_self
      · rcases List.mem_append.mp hr with hr | hr
        · exact List.mem_append_left _ hr
        · exact List.mem_append_right _ (List.mem_cons_of_mem _ hr)

theorem inserts (copies : List ClassId) {spec : BreakpointSpec} {bp_id : StopId}
    (rearm : RearmState) (hsc : options_scope spec.options = sc) (hS : S sc) (hid : bp_id.seq ≤ b)
    (hφ : φ bp_id.seq = sc) :
    Ensures (Scoped φ b S [] sc) (arm_and_insert copies spec bp_id rearm)
      fun r w => Scoped φ b S [] sc w ∧ ∀ id, r = .ok id → id = bp_id := by
  have herror : ∀ e : ArmError, Ensures (Scoped φ b S [] sc)
      (pure (.error e) : Handler (Except ArmError StopId))
      fun r w => Scoped φ b S [] sc w ∧ ∀ id, r = .ok id → id = bp_id :=
    fun e w h => ⟨h, fun id hr => by cases hr⟩
  unfold arm_and_insert
  split
  · exact herror _
  refine Preserves.bind_ensures (primary_reads scoped_lookup _ _ _) fun primary => ?_
  split
  · exact herror _
  · split
    · exact herror _
    have hf : filter_scope spec.options.filters = sc := hsc
    refine Ensures.bind (scoped_set _ _ hf hS) fun sent => ?_
    cases sent with
    | error e => exact herror _
    | ok req =>
      refine Preserves.bind_ensures (others_read scoped_lookup _ _) fun others => ?_
      refine Ensures.bind (scoped_extra _ hf hS _) fun extra => ?_
      refine Preserves.bind_ensures (scoped_register hid hφ hsc ?_ fun hk => by cases hk)
        fun _ w h => ⟨h.empty, fun id hr => by cases hr; rfl⟩
      intro r hr
      exact (List.perm_append_singleton _ _).mem_iff.mpr hr

variable {spec : BreakpointSpec} {o : StopOptions}

theorem scoped_arm_and_insert (copies : List ClassId) {bp_id : StopId} (rearm : RearmState)
    (hsc : options_scope spec.options = sc) (hS : S sc) (hid : bp_id.seq ≤ b)
    (hφ : φ bp_id.seq = sc) :
    Preserves (Scoped φ b S [] sc) (arm_and_insert copies spec bp_id rearm) :=
  Preserves.of_ensures (inserts copies rearm hsc hS hid hφ) fun _ _ h => h.1

theorem scoped_rearm_watch (spec : BreakpointSpec) :
    Preserves (Scoped φ b S ids sc) (register_rearm_watch spec) := by
  refine Preserves.bind (scoped_class_prepare _) fun sent => ?_
  split <;> exact Preserves.pure _

theorem scoped_defer {bp_id : StopId} (hsc : options_scope spec.options = sc) (hS : S sc)
    (hid : bp_id.seq ≤ b) (hφ : φ bp_id.seq = sc) :
    Preserves (Scoped φ b S [] sc) (defer_breakpoint spec bp_id) := by
  unfold defer_breakpoint
  split
  · exact Preserves.pure _
  refine Preserves.bind (scoped_class_prepare _) fun sent => ?_
  split
  · exact Preserves.pure _
  refine Preserves.bind (scoped_lookup _) fun recheck => ?_
  dsimp only
  split
  · refine Preserves.bind (fun w h => ?_) fun _ => Preserves.pure _
    refine ⟨h.past, h.stop_points, fun p hp => ?_, h.families, h.live, h.sent, h.hand⟩
    rcases List.mem_append.mp hp with hp | hp
    · exact h.pending p hp
    · rw [List.mem_singleton.mp hp]
      exact ⟨hid.trans h.past, hφ.trans hsc.symm⟩
  · refine Preserves.bind (scoped_arm_and_insert _ _ hsc hS hid hφ) fun armed => ?_
    split <;> exact Preserves.pure _

theorem scoped_exact (hsc : options_scope spec.options = sc) (hS : S sc)
    (hφ : ∀ n, b < n → φ n = sc) : Preserves (Scoped φ b S [] sc) (arm_exact spec) := by
  refine scoped_fresh _ fun id hid => Preserves.bind (scoped_lookup _) fun found => ?_
  split
  · exact Preserves.pure _
  · split
    · exact scoped_defer hsc hS le_rfl (hφ _ hid)
    · refine Preserves.bind (scoped_rearm_watch _) fun plan => Preserves.bind
        (scoped_arm_and_insert _ _ hsc hS le_rfl (hφ _ hid)) fun armed => ?_
      split <;> exact Preserves.pure _

/-- The members of a family in the making are ids handed out, of the family's scope. -/
def Recruits (φ : ℕ → Scope) (b : ℕ) (sc : Scope) (got : Armed) : Prop :=
  ∀ m ∈ got.members, Under φ b m sc

theorem scoped_members (hsc : options_scope spec.options = sc) (hS : S sc) (cap : ℕ)
    (l : List (String × ClassId)) (hφ : ∀ n, b < n → φ n = sc) (got : Armed)
    (hgot : Recruits φ b sc got) : Ensures (Scoped φ b S [] sc) (arm_members spec cap got l)
      fun got' w => ∃ b', b ≤ b' ∧ Scoped φ b' S [] sc w ∧ Recruits φ b' sc got' := by
  induction l generalizing b got with
  | nil => exact fun w h => ⟨b, le_rfl, h, hgot⟩
  | cons c rest ih =>
    unfold arm_members
    split
    · exact ih hφ _ hgot
    · refine Preserves.bind_ensures (fun w h => h) fun w => ensures_fresh _ fun id hid => ?_
      have hφ' : ∀ n, id.seq < n → φ n = sc := fun n hn => hφ n (hid.trans hn)
      have hrest : ∀ got : Armed, Recruits φ id.seq sc got →
          Ensures (Scoped φ id.seq S [] sc) (arm_members spec cap got rest)
            fun got' w => ∃ b', b ≤ b' ∧ Scoped φ b' S [] sc w ∧ Recruits φ b' sc got' := by
        intro got hg u hu
        obtain ⟨b', hb', hrun⟩ := ih hφ' got hg u hu
        exact ⟨b', hid.le.trans hb', hrun⟩
      have hold : Recruits φ id.seq sc got := fun m hm =>
        ⟨(hgot m hm).1.trans hid.le, (hgot m hm).2⟩
      refine Ensures.bind (inserts _ _ hsc hS le_rfl (hφ _ hid)) fun armed u hu => ?_
      obtain ⟨hu, hnamed⟩ := hu
      split
      · rename_i id'
        refine hrest _ (fun m hm => ?_) u hu
        rcases List.mem_append.mp hm with hm | hm
        · exact hold m hm
        · rw [List.mem_singleton.mp hm, hnamed id' rfl]
          exact ⟨le_rfl, hφ _ hid⟩
      · exact hrest { got with no_method := got.no_method + 1 } hold u hu
      · exact hrest _ hold u hu

theorem scoped_family_watch (pattern : String) :
    Preserves (Scoped φ b S ids sc) (family_watch pattern) := by
  refine Preserves.get_bind fun w _ => Preserves.bind (scoped_class_prepare _) fun r => ?_
  split <;> exact Preserves.pure _

theorem scoped_family (hsc : options_scope spec.options = sc) (hS : S sc)
    (hφ : ∀ n, b < n → φ n = sc) (index : List (String × ClassId)) (cap : ℕ) :
    Preserves (Scoped φ b S [] sc) (arm_pattern_family spec index cap) := by
  refine scoped_fresh _ fun set_id hid => Preserves.get_bind fun w _ => ?_
  dsimp only
  refine Preserves.of_ensures (Ensures.bind (Q := fun got w => ∃ b', set_id.seq ≤ b' ∧
      Scoped φ b' S [] sc w ∧ Recruits φ b' sc got) (R := fun _ => Scoped φ set_id.seq S [] sc)
    (scoped_members hsc hS _ _ (fun n hn => hφ n (hid.trans hn)) _ fun m hm => by cases hm)
    fun armed => ?_) fun _ _ h => h
  intro w hw
  obtain ⟨b', hb', hw, hgot⟩ := hw
  have hwatch : Preserves (Scoped φ b' S [] sc)
      (initial_watch (cap ≤ armed.members.length) spec.class_pattern) := by
    unfold initial_watch
    split
    · exact Preserves.pure _
    · exact scoped_family_watch _
  refine Scoped.lower (Preserves.bind hwatch (fun watch => ?_) w hw) hb'
  refine Preserves.bind (fun w h => ?_) fun _ => Preserves.pure _
  refine ⟨h.past, h.stop_points, h.pending, fun set hset => ?_, h.live, h.sent, h.hand⟩
  rcases (Table.mem_insert _ _ _).mp hset with ⟨hset, -⟩ | rfl
  · exact h.families set hset
  · exact ⟨⟨hb'.trans h.past, (hφ _ hid).trans hsc.symm⟩, fun m hm =>
      ⟨(hgot m hm).1.trans h.past, (hgot m hm).2.trans hsc.symm⟩⟩

theorem scoped_set_line_stop (patterns : List String) (line : Option ℤ) (method : Option String)
    (hsc : options_scope o = sc) (hS : S sc) (hφ : ∀ n, b < n → φ n = sc)
    (index : List (String × ClassId)) (cap : ℕ) :
    Preserves (Scoped φ b S [] sc) (handle_set_line_stop patterns line method o index cap) := by
  refine Preserves.get_bind fun w _ => ?_
  split
  · refine Preserves.forM_mem _ fun p _ => Preserves.get_bind fun w _ => ?_
    dsimp only
    refine Preserves.get_bind fun w _ => ?_
    split
    · exact Preserves.bind (scoped_family hsc hS hφ _ _) fun _ => Preserves.pure _
    · exact Preserves.bind (scoped_exact hsc hS hφ) fun _ => Preserves.pure _
  · exact Preserves.pure _

theorem scoped_arm_request (kind : RequestKind) (hsc : options_scope o = sc) (hS : S sc)
    (hφ : ∀ n, b < n → φ n = sc) (tag : String) {on : ArmedOn}
    (hmon : on.kind = .monitor → o.instance_filter = none) :
    Preserves (Scoped φ b S [] sc) (arm_request kind o.filters o tag on) := by
  have hf : filter_scope o.filters = sc := hsc
  refine Preserves.of_ensures (Ensures.bind (R := fun _ => Scoped φ b S [] sc)
    (scoped_set kind _ hf hS) fun sent => ?_) fun _ _ h => h
  cases sent with
  | error e => exact fun w h => h
  | ok req =>
    refine fun w h => (scoped_fresh tag (fun id hid => ?_) w h).empty
    exact Preserves.bind (scoped_register le_rfl (hφ _ hid) hsc (List.Subset.refl _) hmon)
      fun _ => Preserves.pure _

theorem scoped_monitor_kinds (all : List MonitorKind) (arm : MonitorArm)
    (hsc : options_scope (monitor_options o) = sc) (hS : S sc) (hφ : ∀ n, b < n → φ n = sc)
    (kinds : List MonitorKind) (armed : List (StopId × RequestId × MonitorKind)) :
    Preserves (Scoped φ b S [] sc) (arm_monitor_kinds all arm o armed kinds) :=
  monitor_kinds_preserve (fun _ => scoped_arm_request _ hsc hS hφ _ fun _ => rfl)
    scoped_clear_request (fun id => scoped_edit (erase_wanes id)) _ _

/-- An arming call sends and registers nothing but what its options are narrowed to. -/
theorem scoped_arming (t : Target) (hsc : options_scope o = sc) (hS : S sc)
    (hφ : ∀ n, b < n → φ n = sc) (hmon : t.kind = .monitor → o.instance_filter = none) :
    Preserves (Scoped φ b S [] sc) (t.call o).run := by
  cases t with
  | line patterns l m index cap => exact scoped_set_line_stop _ _ _ hsc hS hφ _ _
  | exception targets caught uncaught cap =>
    exact Preserves.bind (exceptions_preserve (fun _ _ =>
      scoped_arm_request _ hsc hS hφ _ fun hk => by cases hk) _ _) fun _ => Preserves.pure _
  | field targets field_name kinds cap =>
    exact fields_preserve scoped_lookup (fun _ _ _ _ _ =>
      scoped_arm_request _ hsc hS hφ _ fun hk => by cases hk) _ _ _
  | method_exit patterns m ret exclude =>
    exact method_exits_preserve (fun _ =>
      scoped_arm_request _ hsc hS hφ _ fun hk => by cases hk) _
  | monitor kinds arm =>
    have hnone : options_scope (monitor_options o) = sc := by
      rw [← hsc]
      simp only [options_scope, monitor_options, hmon rfl]
    refine Preserves.bind (Preserves.get_bind fun w _ => ?_) fun _ => Preserves.pure _
    split
    · exact scoped_monitor_kinds _ _ hnone hS hφ _ _
    · exact Preserves.pure _

end Arming

section Rearming

def renewed (r : Except Failure ReArmed) : List RequestId :=
  (r.toOption.map ReArmed.request_ids).getD []

/-- A re-arm ends with the requests it was granted in hand, all of them of scope `sc`. -/
def Renews (sc : Scope) (m : Handler (Except Failure ReArmed)) : Prop :=
  ∀ (φ : ℕ → Scope) (b : ℕ) (S : Scope → Prop), S sc →
    Ensures (Scoped φ b S [] sc) m fun r => Scoped φ b S (renewed r) sc

theorem renews_request (kind : RequestKind) (sp : StopPoint) {f : EventFilters}
    (hf : filter_scope f = sc) : Renews sc (rearm_request kind sp f) := by
  refine fun φ b S hS => Ensures.bind (scoped_set kind _ hf hS) fun sent => ?_
  cases sent with
  | error e => exact fun w h => h
  | ok req => exact fun w h => h

theorem renews_line {sp : StopPoint} (hsc : stop_scope sp = sc) (bp : LineBreakpoint) :
    Renews sc (rearm_line_breakpoint sp bp) := by
  intro φ b S hS
  have hf : filter_scope sp.filters = sc := hsc
  refine Preserves.bind_ensures (location_preserves scoped_lookup bp) fun r => ?_
  split
  · exact fun w h => h
  · refine Ensures.bind (scoped_set _ _ hf hS) fun sent => ?_
    cases sent with
    | error e => exact fun w h => h
    | ok req =>
      refine Ensures.bind (scoped_extra _ hf hS _) fun extra w h => Scoped.drop h fun r hr => ?_
      exact (List.perm_append_singleton _ _).mem_iff.mpr hr

theorem renews_requests {sp : StopPoint} (hsc : stop_scope sp = sc)
    (hmon : sp.kind = .monitor → sp.instance_filter = none) : Renews sc (rearm_requests sp) := by
  intro φ b S hS
  refine rearm_ensures scoped_lookup (fun _ _ h => h) (fun bp _ => renews_line hsc bp φ b S hS)
    fun k f _ _ _ hf => renews_request k sp ?_ φ b S hS
  rcases hf with rfl | ⟨hkind, rfl⟩
  · exact hsc
  · rw [← hsc, stop_scope, hmon hkind]
    rfl

variable (id : StopId)

theorem scoped_take (f : StopPoint → StopPoint) (hf : ∀ sp, (f sp).id = sp.id) (hφ : φ id.seq = sc)
    (hscope : ∀ sp, stop_scope (f sp) = stop_scope sp) (hkind : ∀ sp, (f sp).kind = sp.kind)
    (hids : ∀ sp, ∀ r ∈ (f sp).request_ids, r ∈ sp.request_ids ∨ r ∈ ids) :
    Preserves (Scoped φ b S ids sc) (edit fun s => s.edit_stop_point id f hf) := by
  intro w h
  refine ⟨h.past, fun sp' hsp' => ?_, h.pending, h.families, h.live, h.sent, h.hand⟩
  obtain ⟨sp, hsp, rfl⟩ := (Table.mem_modify _ _ _ hf _).mp hsp'
  obtain ⟨hunder, hcarry, hmon⟩ := h.stop_points sp hsp
  split
  · rename_i hid
    have hinst : (f sp).instance_filter = sp.instance_filter :=
      congrArg Scope.instance_ (hscope sp)
    have hown : stop_scope sp = sc := by rw [← hφ, ← hid, hunder.2]
    rw [hscope, hf, hkind, hinst]
    refine ⟨hunder, fun r hr => ?_, hmon⟩
    rcases hids sp r hr with hr | hr
    · exact hcarry r hr
    · rw [hown]
      exact h.hand r hr
  · exact ⟨hunder, hcarry, hmon⟩

theorem rearm_takes (hφ : φ id.seq = sc) (hS : S sc) :
    Preserves (Scoped φ b S [] sc) (rearm_stop_point id) := by
  refine Preserves.get_bind fun w hw => ?_
  split
  · exact Preserves.pure _
  rename_i sp hsp
  obtain ⟨hmem, rfl⟩ := (Table.get?_eq_some _ _ _).mp hsp
  obtain ⟨hunder, -, hmon⟩ := hw.stop_points sp hmem
  refine Preserves.of_ensures (Ensures.bind (R := fun _ => Scoped φ b S [] sc)
    (renews_requests (hunder.2.symm.trans hφ) hmon φ b S hS) fun r => ?_) fun _ _ h => h
  cases r with
  | error e => exact fun w h => h
  | ok armed =>
    have hkind : ∀ v, (set_rearmed armed v).kind = v.kind := fun v => with_arm_kind _ _
    refine Preserves.bind_ensures (scoped_take sp.id (set_rearmed armed) (fun _ => rfl) hφ
      (fun _ => rfl) hkind fun v r hr => Or.inr hr) fun _ w h => h.empty

theorem scoped_rearm (hS : S (φ id.seq)) : Preserves (Scoped φ b S [] sc) (rearm_stop_point id) :=
  fun w h => (rearm_takes id rfl hS w h.empty).empty

theorem scoped_toggle (enabled : Option Bool) (hS : S (φ id.seq)) :
    Preserves (Scoped φ b S [] sc) (handle_toggle_stop_point id enabled) := by
  refine toggle_preserves scoped_lookup scoped_class_prepare scoped_clear_request
    (fun _ _ => scoped_edit (rewatch_wanes _ _)) scoped_disable (fun m hm => scoped_rearm m ?_)
    (fun want => scoped_edit (edit_pattern_set_wanes id (fun p => { p with enabled := want })
      (fun _ => rfl) fun _ => ⟨rfl, List.Subset.refl _, rfl, rfl⟩)) enabled
  rcases hm with rfl | ⟨w, set, hw, hset, hm⟩
  · exact hS
  · obtain ⟨hmem, rfl⟩ := (Table.get?_eq_some _ _ _).mp hset
    obtain ⟨hunder, hmembers⟩ := hw.families set hmem
    rw [(hmembers m hm).2, ← hunder.2]
    exact hS

theorem apply_edit_wanes (condition : FieldEdit String) (hit_count : FieldEdit ℕ) :
    Leads Wanes (edit fun s => apply_stop_point_edit s id condition hit_count) := by
  intro w
  rw [edit_run]
  unfold apply_stop_point_edit
  split
  · exact edit_stop_point_wanes id (edit_conditions condition hit_count) (fun _ => rfl)
      (fun sp => ⟨rfl, rfl, List.Subset.refl _, rfl, rfl, fun hk => by simp [edit_conditions, hk]⟩)
        w
  · split
    · exact edit_wanes (f := fun s => { s with
          pending_breakpoints :=
            edit_first id (edit_pending condition hit_count) s.pending_breakpoints })
        (fun _ => rfl) (fun _ sp h => ⟨sp, h, Remains.refl sp⟩)
        (fun s p' hp' => by
          obtain ⟨p, hp, rfl | rfl⟩ := edit_first_mem hp'
          · exact ⟨p', hp, Awaits.refl p'⟩
          · exact ⟨p, hp, rfl, rfl, rfl⟩)
        (fun _ set h => ⟨set, h, Thins.refl set⟩) w
    · exact edit_pattern_set_wanes id (edit_family condition hit_count) (fun _ => rfl)
        (fun _ => ⟨rfl, List.Subset.refl _, rfl, rfl⟩) w

theorem apply_edits_wanes (targets : List StopId) (condition : FieldEdit String)
    (hit_count : FieldEdit ℕ) : Leads Wanes (edit (apply_edits condition hit_count targets)) := by
  induction targets with
  | nil => exact fun w => Wanes.of_shelf rfl
  | cons m rest ih => exact fun w => (apply_edit_wanes m condition hit_count w).trans (ih _)

theorem members_scope {w : World} (h : Scoped φ b S ids sc w) {id : StopId}
    {before : EditableStopPoint} (hread : read_editable_stop_point w.session id = .ok before) :
    ∀ m ∈ before.family_members, φ m.seq = φ id.seq := by
  unfold read_editable_stop_point at hread
  split at hread
  · cases hread
    exact fun m hm => by cases hm
  · split at hread
    · rename_i set hset
      cases hread
      obtain ⟨hmem, rfl⟩ := (Table.get?_eq_some _ _ _).mp hset
      obtain ⟨hunder, hmembers⟩ := h.families set hmem
      exact fun m hm => (hmembers m hm).2.trans hunder.2.symm
    · split at hread
      · cases hread
        exact fun m hm => by cases hm
      · cases hread

theorem scoped_update (condition : FieldEdit String) (hit_count : FieldEdit ℕ) (hS : S (φ id.seq)) :
    Preserves (Scoped φ b S [] sc) (handle_update_stop_point id condition hit_count) := by
  refine update_preserves (fun ids => scoped_edit (apply_edits_wanes ids condition hit_count))
    scoped_disable fun m hm => scoped_rearm m ?_
  rcases hm with rfl | ⟨w, before, hw, hread, hm⟩
  · exact hS
  · rw [members_scope hw hread m hm]
    exact hS

end Rearming

section ClassPrepare

theorem deferred_takes (cp_ref : ClassId) {pend : PendingBreakpoint} (hid : pend.bp_id.seq ≤ b)
    (hφ : φ pend.bp_id.seq = sc) (hsc : deferral_scope pend = sc) (hS : S sc) :
    Preserves (Scoped φ b S [] sc) (arm_deferred cp_ref pend) := by
  refine Preserves.bind (scoped_resolve _ _ _) fun found => ?_
  split
  · exact Preserves.pure _
  have hf : filter_scope (PendingBreakpoint.options pend).filters = sc := hsc
  refine Preserves.of_ensures (Ensures.bind (R := fun _ => Scoped φ b S [] sc)
    (scoped_set _ _ hf hS) fun sent => ?_) fun _ _ h => h
  cases sent with
  | error e => exact fun w h => h
  | ok req =>
    refine Ensures.bind (scoped_extra _ hf hS _) fun extra w h => ?_
    refine ⟨h.past, fun sp hsp => ?_, fun p hp => h.pending p (List.mem_filter.mp hp).1,
      h.families, h.live, h.sent, fun _ hr => by cases hr⟩
    rcases (Table.mem_insert _ _ _).mp hsp with ⟨hsp, -⟩ | rfl
    · exact h.stop_points sp hsp
    · refine ⟨⟨hid.trans h.past, hφ.trans hsc.symm⟩, fun r hr => ?_, fun hk => by cases hk⟩
      have hcarried : r < w.jvm.next_request ∧
          ∀ q ∈ w.jvm.requests, q.id = r → filter_scope q.filters = sc := by
        refine h.hand r ?_
        exact (List.perm_append_singleton _ _).mem_iff.mpr hr
      rw [← hsc] at hcarried
      exact hcarried

theorem scoped_park (set_id : StopId) :
    Preserves (Scoped φ b S ids sc) (park_family_watch_if_full set_id) := by
  refine Preserves.get_bind fun w _ => ?_
  split
  · exact Preserves.pure _
  split
  · refine Preserves.bind (scoped_clear_request _ _) fun r => ?_
    split
    · exact Preserves.pure _
    · exact scoped_edit (rewatch_wanes _ _)
  · exact Preserves.pure _

/-- Ids above `n` are given the scope `s`. -/
def foreseen (φ : ℕ → Scope) (n : ℕ) (s : Scope) (m : ℕ) : Scope := if m ≤ n then φ m else s

theorem foreseen_old {n m : ℕ} (s : Scope) (h : m ≤ n) : foreseen φ n s m = φ m := if_pos h

theorem foreseen_new {n m : ℕ} (s : Scope) (h : n < m) : foreseen φ n s m = s :=
  if_neg (Nat.not_le.mpr h)

/-- Ids that are still to be handed out may be given any scope. -/
theorem Scoped.foresee {w : World} (h : Scoped φ b S ids sc w) (s : Scope) :
    Scoped (foreseen φ w.session.stop_seq s) w.session.stop_seq S ids sc w := by
  have hunder : ∀ {id : StopId} {s' : Scope}, Under φ w.session.stop_seq id s' →
      Under (foreseen φ w.session.stop_seq s) w.session.stop_seq id s' :=
    fun hu => ⟨hu.1, (foreseen_old s hu.1).trans hu.2⟩
  refine ⟨le_rfl, fun sp hsp => ?_, fun p hp => hunder (h.pending p hp), fun set hset => ?_,
    h.live, h.sent, h.hand⟩
  · obtain ⟨hu, hrest⟩ := h.stop_points sp hsp
    exact ⟨hunder hu, hrest⟩
  · obtain ⟨hu, hmembers⟩ := h.families set hset
    exact ⟨hunder hu, fun m hm => hunder (hmembers m hm)⟩

def anything : Scope → Prop := fun _ => True

def unscoped : Scope := ⟨none, none⟩

/-- The ids up to `b` have the scopes `φ` gives them, and later ones some scope. -/
def Settled (φ : ℕ → Scope) (b : ℕ) (w : World) : Prop :=
  ∃ φ', (∀ n ≤ b, φ' n = φ n) ∧ Scoped φ' b anything [] unscoped w

theorem Settled.wanes {w w' : World} (h : Settled φ b w) (hw : Wanes w w') : Settled φ b w' := by
  obtain ⟨φ', hagree, hs⟩ := h
  exact ⟨φ', hagree, hs.wanes hw fun _ _ _ _ _ => trivial⟩

theorem scoped_enlist (set_id id : StopId) (hid : id.seq ≤ b) (hφ : φ id.seq = φ set_id.seq) :
    Preserves (Scoped φ b S ids sc) (edit fun s => s.edit_pattern_set set_id (enlist id)) := by
  intro w h
  refine ⟨h.past, h.stop_points, h.pending, fun set' hset' => ?_, h.live, h.sent, h.hand⟩
  obtain ⟨set, hset, rfl⟩ := (Table.mem_modify _ _ (enlist id) (fun _ => rfl) _).mp hset'
  obtain ⟨hunder, hmembers⟩ := h.families set hset
  split
  · rename_i heq
    refine ⟨hunder, fun m hm => ?_⟩
    rcases List.mem_append.mp hm with hm | hm
    · exact hmembers m hm
    · rw [List.mem_singleton.mp hm]
      refine ⟨hid.trans h.past, hφ.trans ?_⟩
      rw [← heq]
      exact hunder.2
  · exact ⟨hunder, hmembers⟩

variable (c : ClassId)

theorem scoped_member (sig fqn : String) {set_id : StopId} (hφ : ∀ n, b < n → φ n = φ set_id.seq)
    (hS : S (φ set_id.seq)) :
    Preserves (Scoped φ b S [] (φ set_id.seq)) (arm_pattern_set_member c sig fqn set_id) := by
  have hcount : ∀ (b : ℕ) (f : PatternStopSet → PatternStopSet) (hf : ∀ p, (f p).id = p.id),
      (∀ p, Thins p (f p)) → Preserves (Scoped φ b S [] (φ set_id.seq))
        (edit fun s => s.edit_pattern_set set_id f hf) :=
    fun b f hf ht => scoped_edit (edit_pattern_set_wanes set_id f hf ht)
  refine Preserves.get_bind fun w hw => ?_
  split
  · exact Preserves.pure _
  rename_i set hset
  obtain ⟨hmem, hid⟩ := (Table.get?_eq_some _ _ _).mp hset
  have hsc : family_scope set = φ set_id.seq := by
    rw [← hid]
    exact (hw.families set hmem).1.2.symm
  split
  · split
    · refine Preserves.bind (hcount _ _ _ fun _ => ?_) fun _ => scoped_park _
      exact ⟨rfl, List.Subset.refl _, rfl, rfl⟩
    · exact scoped_park _
  · refine scoped_fresh _ fun id hlt => ?_
    refine Preserves.of_ensures (Ensures.bind (R := fun _ => Scoped φ id.seq S [] (φ set_id.seq))
      (@inserts _ _ _ _ [c] (spec_from_pattern_set set fqn sig) _ _ hsc hS le_rfl (hφ _ hlt))
      fun armed => ?_) fun _ _ h => h
    intro u hu
    obtain ⟨hu, hnamed⟩ := hu
    split
    · rename_i id'
      have henlist : Preserves (Scoped φ id.seq S [] (φ set_id.seq))
          (edit fun s => s.edit_pattern_set set_id (enlist id)) :=
        scoped_enlist set_id id le_rfl (hφ _ hlt)
      rw [hnamed id' rfl]
      exact Preserves.bind henlist (fun _ => scoped_park _) u hu
    · exact hcount _ (fun p => { p with no_method := p.no_method + 1 }) (fun _ => rfl)
        (fun _ => ⟨rfl, List.Subset.refl _, rfl, rfl⟩) u hu
    · exact hu

theorem settled_member (sig fqn : String) (set_id : StopId) :
    Preserves (Settled φ b) (arm_pattern_set_member c sig fqn set_id) := by
  intro w hw
  obtain ⟨φ', hagree, hs⟩ := hw
  have hown : foreseen φ' w.session.stop_seq (φ' set_id.seq) set_id.seq = φ' set_id.seq := by
    unfold foreseen
    split <;> rfl
  refine ⟨foreseen φ' w.session.stop_seq (φ' set_id.seq), fun n hn => ?_, ?_⟩
  · exact (foreseen_old _ (hn.trans hs.past)).trans (hagree n hn)
  · refine Scoped.lower (Scoped.empty (scoped_member c sig fqn (fun n hn => ?_) trivial w
      (hs.foresee (φ' set_id.seq)).empty)) hs.past
    rw [foreseen_new _ hn, hown]

theorem scoped_later_copy {t : LaterCopyTarget} (hf : filter_scope t.filters = φ t.bp_id.seq)
    (hS : S (φ t.bp_id.seq)) :
    Preserves (Scoped φ b S [] (φ t.bp_id.seq)) (rearm_later_copy c t) := by
  refine Preserves.bind (scoped_resolve _ _ _) fun found => ?_
  split
  · exact Preserves.pure _
  refine Preserves.of_ensures (Ensures.bind (R := fun _ => Scoped φ b S [] (φ t.bp_id.seq))
    (scoped_set _ _ hf hS) fun sent => ?_) fun _ _ h => h
  cases sent with
  | error e => exact fun w h => h
  | ok req =>
    refine Ensures.bind (scoped_extra _ hf hS _) fun extra w h => Scoped.empty
      (scoped_take t.bp_id (add_copy _ _) (fun _ => rfl) rfl (fun _ => rfl)
        (fun sp => add_copy_kind _ _ sp) (fun sp r hr => ?_) w h)
    refine (List.mem_append.mp hr).imp_right fun hr => ?_
    exact (List.perm_append_singleton _ _).mem_iff.mpr hr

theorem later_copy_target_filters {cp_ref : ClassId} {cp_sig : String} {sp : StopPoint}
    {t : LaterCopyTarget} (h : later_copy_target cp_ref cp_sig sp = some t) :
    t.bp_id = sp.id ∧ t.filters = sp.filters := by
  unfold later_copy_target at h
  split at h
  · cases h
  · split at h
    · cases h
    · split at h
      · cases h
        exact ⟨rfl, rfl⟩
      · cases h

theorem settled_deferrals (p : PendingBreakpoint → Bool) {w : World} (h : Settled φ b w) :
    Settled φ b
      (((w.session.pending_breakpoints.filter p).forM (arm_deferred c)).run w).2 := by
  obtain ⟨φ', hagree, hs⟩ := h
  refine ⟨φ', hagree, Scoped.lower (Preserves.forM_mem _ (fun pend hp => ?_) w hs.raise) hs.past⟩
  obtain ⟨hid, hφ⟩ := hs.pending pend (List.mem_filter.mp hp).1
  exact fun u hu => (deferred_takes c hid hφ rfl trivial u hu.empty).empty

theorem settled_later_copies (sig : String) :
    Preserves (Settled φ b) (rearm_later_copies c sig) := by
  intro w h
  obtain ⟨φ', hagree, hs⟩ := h
  refine ⟨φ', hagree, Preserves.forM_mem _ (fun t ht => ?_) w hs⟩
  obtain ⟨sp, hsp, htarget⟩ := List.mem_filterMap.mp ht
  obtain ⟨hid, hfilters⟩ := later_copy_target_filters htarget
  have hf : filter_scope t.filters = φ' t.bp_id.seq := by
    rw [hfilters, hid, (hs.stop_points sp hsp).1.2]
    rfl
  exact fun u hu => (scoped_later_copy c hf trivial u hu.empty).empty

/-- Whatever a class load arms, it arms with the scopes the records have. -/
theorem settled_class_prepare (es : EventSet) :
    Preserves (Settled φ b) (try_arm_deferred_breakpoints es) := by
  intro w h
  unfold try_arm_deferred_breakpoints
  split
  · exact h
  rename_i cp_thread cp_ref cp_sig _
  have hmembers : Preserves (Settled φ b) (arm_pattern_set_members cp_ref cp_sig) :=
    Preserves.get_bind fun w _ => Preserves.forM_mem _ fun id _ => settled_member _ _ _ id
  simp only [run_bind, run_get]
  have h1 := settled_deferrals cp_ref (fun p => decide (p.signature = cp_sig)) h
  have h2 := hmembers _ h1
  have h3 := settled_later_copies cp_ref cp_sig _ h2
  exact h3.wanes (bench_wanes (resume_thread_bench cp_thread) _)

end ClassPrepare

section Runs

variable {w : World}

theorem Scoped.begin (h : Scoped φ b S ids sc w) (a : Answers) (S' : Scope → Prop) :
    Scoped φ b S' ids sc (w.begin a) :=
  h.wanes (begin_wanes w a) fun _ _ _ hm => by cases hm

theorem Settled.begin (h : Settled φ b w) (a : Answers) : Settled φ b (w.begin a) :=
  h.wanes (begin_wanes w a)

/-- A program that keeps the account when new ids get the scope `s` keeps it. -/
theorem settled_arming {m : Handler Unit} (s : Scope)
    (hm : ∀ φ b, (∀ n, b < n → φ n = s) → Preserves (Scoped φ b anything [] s) m) :
    Preserves (Settled φ b) m := by
  intro w h
  obtain ⟨φ', hagree, hs⟩ := h
  refine ⟨foreseen φ' w.session.stop_seq s, fun n hn => ?_, ?_⟩
  · exact (foreseen_old _ (hn.trans hs.past)).trans (hagree n hn)
  · exact (hm _ _ (fun n hn => foreseen_new s hn) w (hs.foresee s).empty).empty.lower hs.past

theorem settled_target (t : Target) (o : StopOptions) : Preserves (Settled φ b) (t.call o).run := by
  by_cases hmon : t.kind = .monitor
  · cases t with
    | monitor kinds arm =>
      refine settled_arming (options_scope (monitor_options o)) fun φ b hφ => ?_
      refine Preserves.bind (Preserves.get_bind fun w _ => ?_) fun _ => Preserves.pure _
      split
      · exact scoped_monitor_kinds _ _ rfl trivial hφ _ _
      · exact Preserves.pure _
    | _ => cases hmon
  · exact settled_arming (options_scope o) fun φ b hφ =>
      scoped_arming t rfl trivial hφ fun hk => absurd hk hmon

theorem settled_scoped {m : Handler Unit} (hm : ∀ φ, Preserves (Scoped φ b anything [] unscoped) m)
    : Preserves (Settled φ b) m := by
  intro w h
  obtain ⟨φ', hagree, hs⟩ := h
  exact ⟨φ', hagree, hm φ' w hs⟩

theorem settled_call (c : Call) : Preserves (Settled φ b) c.run := by
  by_cases hc : Call.arms_nothing c = true
  · exact fun w h => h.wanes (call_wanes hc w)
  cases c with
  | set_line_stop patterns line method o index cap =>
    exact settled_target (.line patterns line method index cap) o
  | set_exception_stop targets caught uncaught o cap =>
    exact settled_target (.exception targets caught uncaught cap) o
  | set_field_stop targets field_name kinds o cap =>
    exact settled_target (.field targets field_name kinds cap) o
  | set_method_exit_stop patterns method ret exclude o =>
    exact settled_target (.method_exit patterns method ret exclude) o
  | set_monitor_stop kinds arm o => exact settled_target (.monitor kinds arm) o
  | toggle_stop_point id enabled =>
    exact settled_scoped fun φ => Preserves.bind (scoped_toggle id enabled trivial)
      fun _ => Preserves.pure _
  | update_stop_point id condition hit_count =>
    exact settled_scoped fun φ => Preserves.bind (scoped_update id condition hit_count trivial)
      fun _ => Preserves.pure _
  | _ => exact absurd rfl hc

theorem settled_listen (es : EventSet) : Preserves (Settled φ b) (Rearming.listen es) := by
  refine Preserves.bind (settled_class_prepare es) fun armed => ?_
  split
  · exact Preserves.pure _
  · exact fun w h => h.wanes (report_wanes es w)

theorem settled_world_listen (h : Settled φ b w) (a : Answers) :
    Settled φ b (World.listen w a) := by
  unfold World.listen
  split
  · exact h
  · rename_i es rest _
    have htaken : Wanes w { w with queue := rest } :=
      Wanes.of_session rfl le_rfl fun _ h => Or.inl h
    exact settled_listen es _ ((h.wanes htaken).begin a)

theorem settled_move (h : Settled φ b w) (m : Move) : Settled φ b (m.next w) := by
  cases m with
  | call c a => exact settled_call c _ (h.begin a)
  | fire es t => exact h.wanes (fire_wanes w es t)
  | listen a => exact settled_world_listen h a
  | hit es t a => exact settled_world_listen (h.wanes (fire_wanes w es t)) a

theorem settled_run {ok : World → Move → Prop} {w' : World} (hrun : Run ok w w') (h : Settled φ b w)
    : Settled φ b w' :=
  Run.invariant (I := Settled φ b) (fun _ m h _ _ => settled_move h m) hrun h

theorem settled_start (φ : ℕ → Scope) (threads : List ThreadId) (a : Answers) :
    Settled φ 0 (World.start threads a) := by
  refine ⟨φ, fun _ _ => rfl, le_rfl, ?_, ?_, ?_, ?_, ?_, ?_⟩
  · exact fun sp h => by cases h
  · exact fun p h => by cases h
  · exact fun set h => by cases h
  · exact fun q h => by cases h
  · exact fun _ _ _ h => by cases h
  · exact fun r h => by cases h

/-- What a record says of thread and instance is what its live requests carry, and the members of
a family are narrowed as the family is. -/
theorem live_requests_narrowed {ok : World → Move → Prop} {threads : List ThreadId} {a : Answers}
    (hrun : Run ok (World.start threads a) w) :
    (∀ sp ∈ w.session.stop_points.rows, ∀ q ∈ w.jvm.requests, q.id ∈ sp.request_ids →
      filter_scope q.filters = stop_scope sp) ∧
    ∀ set ∈ w.session.pattern_sets.rows, ∀ sp ∈ w.session.stop_points.rows,
      sp.id ∈ set.members → stop_scope sp = family_scope set := by
  obtain ⟨φ, -, h⟩ := settled_run hrun (settled_start (fun _ => unscoped) threads a)
  refine ⟨fun sp hsp q hq hid => ((h.stop_points sp hsp).2.1 _ hid).2 q hq rfl, ?_⟩
  intro set hset sp hsp hm
  exact (h.stop_points sp hsp).1.2.symm.trans ((h.families set hset).2 _ hm).2

/-- A line stop for thread 1 and object 7. -/
def narrow_line : World :=
  (Move.call (.set_line_stop ["A"] (some 10) none
    { plain_options none with thread_filter := some 1, instance_filter := some 7 } [] 1)
      plain).next (World.start [1, 2] plain)

theorem live_requests_narrowed_line :
    (∃ sp ∈ narrow_line.session.stop_points.rows, ∃ q ∈ narrow_line.jvm.requests,
      q.id ∈ sp.request_ids ∧ stop_scope sp = ⟨some 1, some 7⟩) ∧
    ∀ sp ∈ narrow_line.session.stop_points.rows, ∀ q ∈ narrow_line.jvm.requests,
      q.id ∈ sp.request_ids → filter_scope q.filters = stop_scope sp := by
  have hrun : Run (fun _ _ => True) (World.start [1, 2] plain) narrow_line :=
    Relation.ReflTransGen.single (Step.intro (.call _ _) trivial trivial)
  exact ⟨by decide +kernel, (live_requests_narrowed hrun).1⟩

end Runs

section Numbers

variable {w : World} {n : ℕ} {s : Scope}

/-- A record with this scope has the number `n` in its id or among its members. -/
def Marks (d : DebugSession) (n : ℕ) (s : Scope) : Prop :=
  (∃ sp ∈ d.stop_points.rows, sp.id.seq = n ∧ stop_scope sp = s) ∨
    (∃ p ∈ d.pending_breakpoints, p.bp_id.seq = n ∧ deferral_scope p = s) ∨
    ∃ set ∈ d.pattern_sets.rows, (set.id.seq = n ∨ ∃ m ∈ set.members, m.seq = n) ∧
      family_scope set = s

theorem Scoped.marked (h : Scoped φ b S ids sc w) (hm : Marks w.session n s) : φ n = s := by
  rcases hm with ⟨sp, hsp, rfl, rfl⟩ | ⟨p, hp, rfl, rfl⟩ | ⟨set, hset, rfl | ⟨m, hm, rfl⟩, rfl⟩
  · exact (h.stop_points sp hsp).1.2
  · exact (h.pending p hp).2
  · exact (h.families set hset).1.2
  · exact ((h.families set hset).2 m hm).2

/-- A number that no record has may have any scope. -/
theorem Scoped.unmarked (h : Scoped φ b S ids sc w) (hno : ∀ s, ¬ Marks w.session n s) (s : Scope) :
    Scoped (Function.update φ n s) b S ids sc w := by
  have hkeep : ∀ {k : ℕ} {id : StopId} {s' : Scope}, id.seq ≠ n → Under φ k id s' →
      Under (Function.update φ n s) k id s' := fun hne hu =>
    ⟨hu.1, (Function.update_of_ne hne _ _).trans hu.2⟩
  refine ⟨h.past, fun sp hsp => ?_, fun p hp => ?_, fun set hset => ?_, h.live, h.sent, h.hand⟩
  · obtain ⟨hunder, hrest⟩ := h.stop_points sp hsp
    exact ⟨hkeep (fun he => hno _ (.inl ⟨sp, hsp, he, rfl⟩)) hunder, hrest⟩
  · exact hkeep (fun he => hno _ (.inr (.inl ⟨p, hp, he, rfl⟩))) (h.pending p hp)
  · obtain ⟨hunder, hmembers⟩ := h.families set hset
    exact ⟨hkeep (fun he => hno _ (.inr (.inr ⟨set, hset, .inl he, rfl⟩))) hunder, fun m hm =>
      hkeep (fun he => hno _ (.inr (.inr ⟨set, hset, .inr ⟨m, hm, he⟩, rfl⟩))) (hmembers m hm)⟩

/-- A number once handed out is never given to another record, and whatever has it keeps its
filters. -/
theorem numbers_never_reissued {ok ok' : World → Move → Prop} {threads : List ThreadId}
    {a : Answers} (hrun : Run ok (World.start threads a) w) {w' : World} (hlater : Run ok' w w')
    (hn : n ≤ w.session.stop_seq) (hm : Marks w'.session n s) : Marks w.session n s := by
  obtain ⟨φ, -, h⟩ := settled_run hrun (settled_start (fun _ => unscoped) threads a)
  replace h : Scoped φ w.session.stop_seq anything [] unscoped w := { h with past := le_rfl }
  by_cases hmarked : ∃ s₀, Marks w.session n s₀
  · obtain ⟨s₀, hs₀⟩ := hmarked
    obtain ⟨φ', hagree, h'⟩ := settled_run hlater ⟨φ, fun _ _ => rfl, h⟩
    have heq : s₀ = s := (h.marked hs₀).symm.trans ((hagree n hn).symm.trans (h'.marked hm))
    exact heq ▸ hs₀
  -- the run would go the same way whatever scope an unmarked number is given
  have hall : ∀ s₁, s₁ = s := fun s₁ => by
    obtain ⟨φ', hagree, h'⟩ := settled_run hlater
      ⟨_, fun _ _ => rfl, h.unmarked (not_exists.mp hmarked) s₁⟩
    rw [← h'.marked hm, hagree n hn, Function.update_self]
  cases (hall unscoped).trans (hall ⟨some 0, none⟩).symm

theorem numbers_never_reissued_pause : Marks (line_armed none).session 1 unscoped := by
  have hlater : Run (fun _ _ => True) (line_armed none)
      ((Move.call .pause plain).next (line_armed none)) := .single (Step.intro _ trivial trivial)
  refine numbers_never_reissued line_armed_run hlater (by decide +kernel) ?_
  unfold Marks
  decide +kernel

end Numbers

end JavaDebug.ScopedRequests
