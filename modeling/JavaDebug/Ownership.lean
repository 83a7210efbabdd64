import JavaDebug.Custody
import JavaDebug.Runs

/-!
Who answers for which request. A stop point owns its hit requests and its
class-load watch; a deferral and a family own their watch, the session its
pending step. `Ledger` is what every operation keeps, whatever is refused: no
id is owned twice, and an owned one names the request it was granted for. Its
strict half, for sessions whose Clears all succeed, adds that every live
request is owned and that no Clear goes astray. `hand` is what the running
operation holds besides the records; `gone` are ids it knows to be dead.
-/
namespace JavaDebug.Ownership

open Jdwp StopPoints Wire Disarming
open Arming StateProgram Runs

abbrev Handle := EventCode × RequestId

/-- The requests a stop point answers for. -/
def hit_handles (sp : StopPoint) : List Handle := sp.request_ids.map fun r => (sp.armed_on.code, r)

def watch_handle (r : RequestId) : Handle := (.class_prepare, r)

def handles (sp : StopPoint) : List Handle :=
  hit_handles sp ++ (sp.watch_request.map watch_handle).toList

def deferral_handles (l : List PendingBreakpoint) : List Handle :=
  l.map fun p => watch_handle p.class_prepare_request_id

def family_handles (set : PatternStopSet) : List Handle :=
  (set.watch.request_id.map watch_handle).toList

def step_handles (step : Option (RequestId × ThreadId)) : List Handle :=
  (step.map fun s => (EventCode.single_step, s.1)).toList

/-- In how many records a handle stands. -/
def owned (s : DebugSession) (h : Handle) : ℕ :=
  s.stop_points.total (fun sp => (handles sp).count h) +
    (deferral_handles s.pending_breakpoints).count h +
    s.pattern_sets.total (fun set => (family_handles set).count h) +
    (step_handles s.pending_step).count h

def live (j : Jvm) : List Handle := j.requests.map EventRequest.handle

/-- A composite that is still to be processed names the request. -/
def InFlight (w : World) (r : RequestId) : Prop := ∃ es ∈ w.queue, r ∈ EventSet.request_ids es

/-- The names in the records: none is ahead of the counter, a deferral is not armed and not a
member of a family, a member has no watch of its own, and a family that is off has none. -/
structure Named (s : DebugSession) : Prop where
  stops : ∀ sp ∈ s.stop_points.rows, sp.id.seq ≤ s.stop_seq
  deferrals : ∀ p ∈ s.pending_breakpoints, p.bp_id.seq ≤ s.stop_seq
  families : ∀ set ∈ s.pattern_sets.rows, set.id.seq ≤ s.stop_seq
  members : ∀ set ∈ s.pattern_sets.rows, ∀ m ∈ set.members, m.seq ≤ s.stop_seq
  once : (s.pending_breakpoints.map PendingBreakpoint.bp_id).Nodup
  unarmed : ∀ p ∈ s.pending_breakpoints, s.stop_points.get? p.bp_id = none
  outside : ∀ p ∈ s.pending_breakpoints, ∀ set ∈ s.pattern_sets.rows, p.bp_id ∉ set.members
  covered : ∀ set ∈ s.pattern_sets.rows, ∀ m ∈ set.members, ∀ sp,
    s.stop_points.get? m = some sp → sp.watch_request = none
  distinct : ∀ set ∈ s.pattern_sets.rows, set.members.Nodup
  unwatched : ∀ set ∈ s.pattern_sets.rows, set.enabled = false → set.watch.request_id = none

/-- A stop point that is off owns no hit request, and only a line stop owns several. -/
structure Shaped (sp : StopPoint) : Prop where
  off : sp.enabled = false → sp.request_ids = []
  spent : sp.spent = true → sp.enabled = false
  single : sp.kind ≠ .line → sp.request_ids.length ≤ 1

/-- Requests of these kinds are never counted, so only a Clear ends them. -/
def Lasting (c : EventCode) : Prop := c = .class_prepare ∨ c = .single_step

structure Exact (hand : List Handle) (gone : Handle → Prop) (w : World) : Prop where
  covered : ∀ h ∈ live w.jvm, 0 < owned w.session h + hand.count h
  standing : ∀ h, 0 < owned w.session h →
    h ∈ live w.jvm ∨ gone h ∨ (InFlight w h.2 ∧ ¬ Lasting h.1)
  in_hand : ∀ h ∈ hand, h ∈ live w.jvm ∨ gone h
  dead : ∀ h, gone h → h ∉ live w.jvm ∧ h.2 < w.jvm.next_request
  no_stray : w.jvm.stray_clears = []
  clears : ∀ code id n, w.answers.refused (.clear code id) n = none
  clears_all : ∀ n, w.answers.refused .clear_all_breakpoints n = none

structure Ledger (strict : Prop) (hand : List Handle) (gone : Handle → Prop) (w : World) :
    Prop where
  named : Named w.session
  shaped : ∀ sp ∈ w.session.stop_points.rows, Shaped sp
  custody : Custody Prod.snd w.jvm.next_request (live w.jvm)
    fun h => owned w.session h + hand.count h
  lasting : ∀ q ∈ w.jvm.requests, Lasting q.kind.code → q.counted = false
  exact_ : strict → Exact hand gone w

def nothing : Handle → Prop := fun _ => False

/-- The parts of the world that the ledger reads. -/
structure Shelf where
  stop_points : Table StopPoint.id
  pending_breakpoints : List PendingBreakpoint
  pattern_sets : Table PatternStopSet.id
  pending_step : Option (RequestId × ThreadId)
  stop_seq : ℕ
  requests : List EventRequest
  next_request : RequestId
  stray_clears : List Handle
  queue : List EventSet
  answers : Answers

def shelf (w : World) : Shelf :=
  ⟨w.session.stop_points, w.session.pending_breakpoints, w.session.pattern_sets,
    w.session.pending_step, w.session.stop_seq, w.jvm.requests, w.jvm.next_request,
    w.jvm.stray_clears, w.queue, w.answers⟩

section Edits

variable {strict : Prop} {hand hand' : List Handle} {gone gone' : Handle → Prop} {w w' : World}

variable {s : DebugSession} {sp : StopPoint}

theorem owned_congr {s' : DebugSession} (hsp : s'.stop_points = s.stop_points)
    (hp : s'.pending_breakpoints = s.pending_breakpoints) (hset : s'.pattern_sets = s.pattern_sets)
    (hstep : s'.pending_step = s.pending_step) : owned s' = owned s := by
  funext h
  simp only [owned, hsp, hp, hset, hstep]

theorem Named.congr {s' : DebugSession} (hs : Named s) (hsp : s'.stop_points = s.stop_points)
    (hp : s'.pending_breakpoints = s.pending_breakpoints) (hset : s'.pattern_sets = s.pattern_sets)
    (hseq : s.stop_seq ≤ s'.stop_seq) : Named s' := by
  refine ⟨?_, ?_, ?_, ?_, ?_, ?_, ?_, ?_, ?_, ?_⟩ <;> simp only [hsp, hp, hset]
  · exact fun sp h => (hs.stops sp h).trans hseq
  · exact fun p h => (hs.deferrals p h).trans hseq
  · exact fun set h => (hs.families set h).trans hseq
  · exact fun set h m hm => (hs.members set h m hm).trans hseq
  · exact hs.once
  · exact hs.unarmed
  · exact hs.outside
  · exact hs.covered
  · exact hs.distinct
  · exact hs.unwatched

theorem Ledger.of_shelf (L : Ledger strict hand gone w) (h : shelf w' = shelf w) :
    Ledger strict hand gone w' := by
  simp only [shelf, Shelf.mk.injEq] at h
  obtain ⟨hsp, hp, hset, hstep, hseq, hreq, hnext, hstray, hqueue, hans⟩ := h
  have hown : owned w'.session = owned w.session := owned_congr hsp hp hset hstep
  have hlive : live w'.jvm = live w.jvm := congrArg (List.map EventRequest.handle) hreq
  refine ⟨L.named.congr hsp hp hset hseq.ge, by rw [hsp]; exact L.shaped, ?_,
    by rw [hreq]; exact L.lasting, fun hstrict => ?_⟩
  · rw [hown, hlive, hnext]
    exact L.custody
  · obtain ⟨hc, hstand, hhand, hdead, hs, hclears, hall⟩ := L.exact_ hstrict
    refine ⟨?_, ?_, ?_, ?_, hstray.trans hs, by rw [hans]; exact hclears, by rw [hans]; exact hall⟩
    · rw [hown, hlive]
      exact hc
    · rw [hown, hlive]
      simpa only [InFlight, hqueue] using hstand
    · rw [hlive]
      exact hhand
    · rw [hlive, hnext]
      exact hdead

/-- The records are rewritten: handles pass between them and the hand, or are given up. -/
theorem Ledger.rewrite (L : Ledger strict hand gone w) (hnamed : Named s)
    (hshaped : ∀ sp ∈ s.stop_points.rows, Shaped sp)
    (hle : ∀ h, owned s h + hand'.count h ≤ owned w.session h + hand.count h)
    (hcover : strict → ∀ h ∈ live w.jvm, 0 < owned w.session h + hand.count h →
      0 < owned s h + hand'.count h) (hgone : ∀ h, gone' h → gone h)
    (hstand : strict → ∀ h, 0 < owned s h → h ∈ live w.jvm ∨ gone' h ∨
      (0 < owned w.session h ∧ (gone h → gone' h)))
    (hhand : strict → ∀ h ∈ hand', h ∈ live w.jvm ∨ gone' h) :
    Ledger strict hand' gone' { w with session := s } := by
  refine ⟨hnamed, hshaped, L.custody.pass hle, L.lasting, fun hs => ?_⟩
  have hx := L.exact_ hs
  refine ⟨fun h hl => hcover hs h hl (hx.covered h hl), fun h ho => ?_, hhand hs,
    fun h hg => hx.dead h (hgone h hg), hx.no_stray, hx.clears, hx.clears_all⟩
  rcases hstand hs h ho with hl | hg | ⟨ho', hg⟩
  · exact Or.inl hl
  · exact Or.inr (Or.inl hg)
  · exact (hx.standing h ho').imp_right (Or.imp_left hg)

/-- The records are rewritten, and every handle is still where it was or in the hand. -/
theorem Ledger.shift (L : Ledger strict hand gone w) (hnamed : Named s)
    (hshaped : ∀ sp ∈ s.stop_points.rows, Shaped sp)
    (hsum : ∀ h, owned s h + hand'.count h = owned w.session h + hand.count h)
    (hhand : strict → ∀ h ∈ hand', h ∈ live w.jvm ∨ h ∈ hand) :
    Ledger strict hand' gone { w with session := s } := by
  refine L.rewrite hnamed hshaped (fun h => (hsum h).le) (fun _ h _ ho => by rwa [hsum h])
    (fun _ h => h) (fun hs h ho => ?_) fun hs h hh => ?_
  · by_cases hin : h ∈ hand
    · exact ((L.exact_ hs).in_hand h hin).imp_right Or.inl
    · have := List.count_eq_zero_of_not_mem hin
      have := hsum h
      exact Or.inr (Or.inr ⟨by omega, id⟩)
  · exact (hhand hs h hh).elim Or.inl ((L.exact_ hs).in_hand h)

variable {id : StopId}

theorem owned_edit_stop_point (s : DebugSession) (f : StopPoint → StopPoint)
    (hf : ∀ sp, (f sp).id = sp.id) (hsp : s.stop_points.get? id = some sp) (h : Handle) :
    owned (s.edit_stop_point id f hf) h + (handles sp).count h =
      owned s h + (handles (f sp)).count h := by
  have := Table.total_modify (fun sp => (handles sp).count h) s.stop_points id f hf hsp
  simp only [owned, DebugSession.edit_stop_point] at this ⊢
  omega

theorem edit_absent (s : DebugSession) {f : StopPoint → StopPoint} {hf : ∀ sp, (f sp).id = sp.id}
    (hsp : s.stop_points.get? id = none) : s.edit_stop_point id f hf = s := by
  simp only [DebugSession.edit_stop_point, Table.modify_eq_self _ hsp]

theorem owned_register (s : DebugSession) (hsp : s.stop_points.get? sp.id = none) (h : Handle) :
    owned (s.register_stop_point sp) h = owned s h + (handles sp).count h := by
  have := Table.total_insert (fun sp => (handles sp).count h) s.stop_points sp
  rw [Table.erase_eq_self _ hsp] at this
  simp only [owned, DebugSession.register_stop_point] at this ⊢
  omega

theorem owned_erase (s : DebugSession) (hsp : s.stop_points.get? id = some sp) (h : Handle) :
    owned { s with stop_points := s.stop_points.erase id } h + (handles sp).count h =
      owned s h := by
  have := Table.total_erase (fun sp => (handles sp).count h) s.stop_points id hsp
  simp only [owned] at this ⊢
  omega

theorem Ledger.permute (L : Ledger strict hand gone w) (h : ∀ x, hand'.count x = hand.count x) :
    Ledger strict hand' gone w := by
  refine L.shift L.named L.shaped (fun x => by rw [h]) fun _ x hx => Or.inr ?_
  rw [← List.count_pos_iff] at hx ⊢
  rwa [← h]

/-- Only in a strict session does the hand have to be emptied with care. -/
theorem Ledger.drop (L : Ledger strict hand gone w) (h : ¬ strict) : Ledger strict [] gone w :=
  ⟨L.named, L.shaped, L.custody.pass fun x => by simp, L.lasting, fun hs => absurd hs h⟩

/-- Handles known to be dead are given up, from the records or from the hand. -/
theorem Ledger.retire {lost : List Handle} (L : Ledger strict hand (fun h => gone h ∨ h ∈ lost) w)
    (hnamed : Named s) (hshaped : ∀ sp ∈ s.stop_points.rows, Shaped sp)
    (hown : ∀ h, owned s h ≤ owned w.session h) (hless : ∀ h, hand'.count h ≤ hand.count h)
    (hsum : ∀ h, owned s h + hand'.count h + lost.count h = owned w.session h + hand.count h) :
    Ledger strict hand' gone { w with session := s } := by
  have hone : ∀ h ∈ lost, owned s h + hand'.count h = 0 := fun h hm => by
    have hpos := List.count_pos_iff.mpr hm
    have hle := L.custody.once h
    have := hsum h
    omega
  refine L.rewrite hnamed hshaped (fun h => by have := hsum h; omega) (fun hs h hl ho => ?_)
    (fun _ => Or.inl) (fun hs h ho => ?_) fun hs h hh => ?_
  · have hzero : lost.count h = 0 := List.count_eq_zero_of_not_mem fun hm =>
      ((L.exact_ hs).dead h (Or.inr hm)).1 hl
    have := hsum h
    omega
  · refine Or.inr (Or.inr ⟨Nat.lt_of_lt_of_le ho (hown h), fun hg => hg.resolve_right fun hm => ?_⟩)
    have := hone h hm
    omega
  · have hpos := List.count_pos_iff.mpr hh
    have hin : h ∈ hand := List.count_pos_iff.mp (Nat.lt_of_lt_of_le hpos (hless h))
    rcases (L.exact_ hs).in_hand h hin with hl | hg | hm
    · exact Or.inl hl
    · exact Or.inr hg
    · have := hone h hm
      omega

theorem Ledger.take {moved : List Handle} (L : Ledger strict hand gone w) (hnamed : Named s)
    (hshaped : ∀ sp ∈ s.stop_points.rows, Shaped sp)
    (hsum : ∀ h, owned s h + moved.count h = owned w.session h)
    (hlive : strict → ∀ h ∈ moved, h ∈ live w.jvm) :
    Ledger strict (moved ++ hand) gone { w with session := s } := by
  refine L.shift hnamed hshaped (fun h => ?_) fun hs h hm => ?_
  · rw [List.count_append, ← hsum h, Nat.add_assoc]
  · exact (List.mem_append.mp hm).imp_left (hlive hs h)

theorem Ledger.file {moved : List Handle} (L : Ledger strict (moved ++ hand) gone w)
    (hnamed : Named s) (hshaped : ∀ sp ∈ s.stop_points.rows, Shaped sp)
    (hsum : ∀ h, owned s h = owned w.session h + moved.count h) :
    Ledger strict hand gone { w with session := s } := by
  refine L.shift hnamed hshaped (fun h => ?_) fun _ h hm => Or.inr (List.mem_append_right _ hm)
  rw [List.count_append, hsum h, Nat.add_assoc]

theorem Ledger.strike {lost : List Handle} (L : Ledger strict hand (fun h => gone h ∨ h ∈ lost) w)
    (hnamed : Named s) (hshaped : ∀ sp ∈ s.stop_points.rows, Shaped sp)
    (hsum : ∀ h, owned s h + lost.count h = owned w.session h) :
    Ledger strict hand gone { w with session := s } := by
  refine L.retire hnamed hshaped (fun h => Nat.le.intro (hsum h)) (fun _ => le_rfl) fun h => ?_
  rw [← hsum h]
  exact Nat.add_right_comm _ _ _

/-- What a session that is not strict may call gone is of no consequence. -/
theorem Ledger.lax (L : Ledger strict hand gone w) (h : ¬ strict) : Ledger strict hand gone' w :=
  ⟨L.named, L.shaped, L.custody, L.lasting, fun hs => absurd hs h⟩

theorem Ledger.recall (L : Ledger strict hand gone w) (h : ∀ x, gone x ↔ gone' x) :
    Ledger strict hand gone' w := by
  obtain rfl : gone = gone' := funext fun x => propext (h x)
  exact L

/-- What `sp` alone owns, `sp` owns once. -/
theorem Ledger.handles_nodup (L : Ledger strict hand gone w) (hsp : sp ∈ w.session.stop_points.rows)
    : (handles sp).Nodup := by
  refine List.nodup_iff_count_le_one.mpr fun h => ?_
  have hle := Table.le_total (fun sp => (handles sp).count h) w.session.stop_points hsp
  have := L.custody.once h
  simp only [owned] at this hle
  omega

end Edits

section Primitives

variable {strict : Prop} {hand : List Handle} {gone : Handle → Prop}

/-- The ledger, for a program that leaves the records at `s`. -/
def Desk (s : DebugSession) (strict : Prop) (hand : List Handle) (gone : Handle → Prop) (w : World)
    : Prop := Ledger strict hand gone w ∧ w.session = s

variable {w : World} {j : Jvm}

theorem Ledger.log (L : Ledger strict hand gone w) (c : Command) :
    Ledger strict hand gone (w.log c) := L.of_shelf rfl

theorem lookup_desk {α : Type} (s : DebugSession) (f : Answers → ℕ → α) :
    Preserves (Desk s strict hand gone) (lookup f) := fun _ hw => ⟨hw.1.log _, hw.2⟩

theorem set_desk (s : DebugSession) {k : RequestKind} {p : SuspendPolicy} {f : EventFilters}
    (hf : Lasting k.code → f.count = none) :
    Ensures (Desk s strict hand gone) (set_request k p f) fun r w =>
      match r with
      | .ok id => Desk s strict ((k.code, id) :: hand) gone w
      | .error _ => Desk s strict hand gone w := by
  rintro w ⟨L, rfl⟩
  rw [set_request_run]
  cases w.refuses (.set k p f) with
  | some e => exact ⟨L.log _, rfl⟩
  | none =>
    have hlive : live (w.jvm.set_request k p f) = live w.jvm ++ [(k.code, w.jvm.next_request)] := by
      simp [live, Jvm.set_request, EventRequest.handle]
    have hcount : ∀ h, ((k.code, w.jvm.next_request) :: hand).count h =
        hand.count h + if h = (k.code, w.jvm.next_request) then 1 else 0 := fun h => by
      by_cases hh : h = (k.code, w.jvm.next_request)
      · simp [hh]
      · simp [hh, Ne.symm hh]
    refine ⟨⟨L.named, L.shaped, ?_, ?_, fun hs => ?_⟩, rfl⟩
    · change Custody Prod.snd _ (live (w.jvm.set_request k p f)) _
      rw [hlive]
      refine (L.custody.grant (x := (k.code, w.jvm.next_request)) rfl).pass fun h => ?_
      rw [hcount, Nat.add_assoc]
      exact le_rfl
    · intro q hq hl
      rcases List.mem_append.mp hq with hq | hq
      · exact L.lasting q hq hl
      · rw [List.mem_singleton.mp hq] at hl ⊢
        simp [EventRequest.counted, hf hl]
    · have hx := L.exact_ hs
      have hkept : ∀ h ∈ live w.jvm, h ∈ live (w.jvm.set_request k p f) := fun h hl => by
        rw [hlive]
        exact List.mem_append_left _ hl
      refine ⟨fun h hl => ?_, fun h ho => (hx.standing h ho).imp_left (hkept h), fun h hh => ?_,
        fun h hg => ?_, hx.no_stray, hx.clears, hx.clears_all⟩
      · change h ∈ live (w.jvm.set_request k p f) at hl
        rw [hcount]
        rw [hlive, List.mem_append, List.mem_singleton] at hl
        rcases hl with hl | hl
        · have := hx.covered h hl
          change 0 < owned w.session h + (hand.count h + _)
          omega
        · rw [if_pos hl]
          omega
      · rcases List.mem_cons.mp hh with rfl | hh
        · refine Or.inl ?_
          change _ ∈ live (w.jvm.set_request k p f)
          rw [hlive]
          exact List.mem_append_right _ List.mem_cons_self
        · exact (hx.in_hand h hh).imp_left (hkept h)
      · obtain ⟨hl, hlt⟩ := hx.dead h hg
        refine ⟨fun hm => ?_, Nat.lt_succ_of_lt hlt⟩
        change h ∈ live (w.jvm.set_request k p f) at hm
        rw [hlive, List.mem_append, List.mem_singleton] at hm
        rcases hm with hm | rfl
        · exact hl hm
        · exact absurd hlt (Nat.lt_irrefl _)

theorem clear_request_live {h : Handle} (hl : h ∈ live j) :
    j.clear_request h = { j with requests := j.requests.filter fun r => r.handle ≠ h } :=
  if_pos hl

theorem clear_request_dead {h : Handle} (hl : h ∉ live j) :
    j.clear_request h = { j with stray_clears := j.stray_clears ++ [h] } := if_neg hl

theorem live_filter (j : Jvm) (p : Handle → Bool) :
    live { j with requests := j.requests.filter fun r => p r.handle } = (live j).filter p := by
  simp only [live, List.filter_map]
  rfl

/-- Some Clears were sent, for `lost` at most. -/
structure Withdrawn (lost : List Handle) (w w' : World) : Prop where
  session : w'.session = w.session
  less : ∀ h ∈ live w'.jvm, h ∈ live w.jvm
  rest : ∀ h ∈ live w.jvm, h ∉ lost → h ∈ live w'.jvm

theorem Withdrawn.none (w : World) : Withdrawn [] w w := ⟨rfl, fun _ h => h, fun _ h _ => h⟩

theorem Withdrawn.trans {a b : List Handle} {w' w'' : World} (h : Withdrawn a w w')
    (h' : Withdrawn b w' w'') : Withdrawn (a ++ b) w w'' := by
  refine ⟨h'.session.trans h.session, fun x hx => h.less x (h'.less x hx), fun x hx hn => ?_⟩
  rw [List.mem_append, not_or] at hn
  exact h'.rest x (h.rest x hx hn.1) hn.2

theorem live_without (h : Handle) :
    live { j with requests := j.requests.filter fun r => r.handle ≠ h } =
      (live j).filter fun x => x ≠ h := live_filter j fun x => decide (x ≠ h)

variable (code : EventCode)

theorem clear_request_withdrawn (id : RequestId) (w : World) :
    Withdrawn [(code, id)] w ((clear_request code id).run w).2 ∧
    (((clear_request code id).run w).1 = .ok () →
      (code, id) ∉ live ((clear_request code id).run w).2.jvm) := by
  rw [clear_request, perform_run]
  cases w.refuses (.clear code id) with
  | some e => exact ⟨⟨rfl, fun _ h => h, fun _ h _ => h⟩, fun h => by cases h⟩
  | none =>
    by_cases hm : (code, id) ∈ live w.jvm
    · simp only [clear_request_live hm]
      refine ⟨⟨rfl, fun h hl => ?_, fun h hl hn => ?_⟩, fun _ hl => ?_⟩
      · rw [live_without] at hl
        exact (List.mem_filter.mp hl).1
      · rw [live_without]
        exact List.mem_filter.mpr ⟨hl, by simpa using hn⟩
      · rw [live_without] at hl
        simpa using (List.mem_filter.mp hl).2
    · simp only [clear_request_dead hm]
      exact ⟨⟨rfl, fun _ h => h, fun _ h _ => h⟩, fun _ => hm⟩

theorem clear_request_ledger (id : RequestId) (L : Ledger strict hand gone w)
    (hlive : strict → (code, id) ∈ live w.jvm) :
    Ledger strict hand (fun h => gone h ∨ h = (code, id)) ((clear_request code id).run w).2 ∧
    (strict → ((clear_request code id).run w).1 = .ok ()) := by
  rw [clear_request, perform_run]
  cases hr : w.refuses (.clear code id) with
  | some e =>
    have hno : ¬ strict := fun hs => by simp [World.refuses, (L.exact_ hs).clears] at hr
    exact ⟨(L.log _).lax hno, fun hs => absurd hs hno⟩
  | none =>
    by_cases hm : (code, id) ∈ live w.jvm
    · simp only [clear_request_live hm]
      refine ⟨⟨L.named, L.shaped, ?_, ?_, fun hs => ?_⟩, fun _ => trivial⟩
      · rw [live_without]
        exact L.custody.revoke _
      · exact fun q hq hl => L.lasting q (List.mem_filter.mp hq).1 hl
      · have hx := L.exact_ hs
        have hkept : ∀ h ∈ live w.jvm, h ∈ live { w.jvm with
            requests := w.jvm.requests.filter fun r => r.handle ≠ (code, id) } ∨
            h = (code, id) := fun h hl => by
          by_cases heq : h = (code, id)
          · exact Or.inr heq
          · refine Or.inl ?_
            rw [live_without]
            exact List.mem_filter.mpr ⟨hl, by simpa using heq⟩
        refine ⟨fun h hl => ?_, fun h ho => ?_, fun h hh => ?_, fun h hg => ?_, hx.no_stray,
          hx.clears, hx.clears_all⟩
        · rw [live_without] at hl
          exact hx.covered h (List.mem_filter.mp hl).1
        · rcases hx.standing h ho with hl | hg | hfl
          · exact (hkept h hl).imp_right fun heq => Or.inl (Or.inr heq)
          · exact Or.inr (Or.inl (Or.inl hg))
          · exact Or.inr (Or.inr hfl)
        · rcases hx.in_hand h hh with hl | hg
          · exact (hkept h hl).imp_right Or.inr
          · exact Or.inr (Or.inl hg)
        · rw [live_without]
          rcases hg with hg | rfl
          · obtain ⟨hl, hlt⟩ := hx.dead h hg
            exact ⟨fun hm => hl (List.mem_filter.mp hm).1, hlt⟩
          · exact ⟨fun hm => by simpa using (List.mem_filter.mp hm).2, L.custody.live_granted _ hm⟩
    · have hno : ¬ strict := fun hs => hm (hlive hs)
      simp only [clear_request_dead hm]
      exact ⟨⟨L.named, L.shaped, L.custody, L.lasting, fun hs => absurd hs hno⟩,
        fun hs => absurd hs hno⟩

theorem clear_requests_withdrawn (ids : List RequestId) (w : World) :
    Withdrawn (ids.map fun r => (code, r)) w ((clear_requests code ids).run w).2 ∧
    (((clear_requests code ids).run w).1 = .ok () →
      ∀ r ∈ ids, (code, r) ∉ live ((clear_requests code ids).run w).2.jvm) := by
  induction ids generalizing w with
  | nil => exact ⟨Withdrawn.none w, fun _ r hr => by cases hr⟩
  | cons r rest ih =>
    obtain ⟨hone, hdead⟩ := clear_request_withdrawn code r w
    simp only [clear_requests, run_bind]
    cases hr : ((clear_request code r).run w).1 with
    | error e =>
      refine ⟨⟨hone.session, hone.less, fun h hl hn => hone.rest h hl ?_⟩, fun h => by cases h⟩
      simp only [List.map_cons, List.mem_cons, not_or] at hn
      simpa using hn.1
    | ok _ =>
      obtain ⟨hrest, hdeads⟩ := ih ((clear_request code r).run w).2
      refine ⟨hone.trans hrest, fun hok q hq hl => ?_⟩
      rcases List.mem_cons.mp hq with rfl | hq
      · exact hdead hr (hrest.less _ hl)
      · exact hdeads hok q hq hl

theorem clear_requests_ledger (ids : List RequestId) (L : Ledger strict hand gone w)
    (hnd : ids.Nodup) (hlive : strict → ∀ r ∈ ids, (code, r) ∈ live w.jvm) :
    Ledger strict hand (fun h => gone h ∨ h ∈ ids.map fun r => (code, r))
      ((clear_requests code ids).run w).2 ∧
    (strict → ((clear_requests code ids).run w).1 = .ok ()) := by
  induction ids generalizing gone w with
  | nil => exact ⟨L.recall fun h => by simp, fun _ => rfl⟩
  | cons r rest ih =>
    obtain ⟨hout, hnd⟩ := List.nodup_cons.mp hnd
    obtain ⟨hone, hok⟩ := clear_request_ledger code r L fun hs => hlive hs r List.mem_cons_self
    have hframe := (clear_request_withdrawn code r w).1.rest
    simp only [clear_requests, run_bind]
    cases hr : ((clear_request code r).run w).1 with
    | error e =>
      have hno : ¬ strict := fun hs => by rw [hok hs] at hr; cases hr
      exact ⟨hone.lax hno, fun hs => absurd hs hno⟩
    | ok _ =>
      obtain ⟨hall, hallok⟩ := ih hone hnd fun hs q hq => by
        refine hframe _ (hlive hs q (List.mem_cons_of_mem r hq)) ?_
        rw [List.mem_singleton]
        rintro ⟨⟩
        exact hout hq
      exact ⟨hall.recall fun h => by rw [List.map_cons, List.mem_cons, or_assoc], hallok⟩

end Primitives

end JavaDebug.Ownership
