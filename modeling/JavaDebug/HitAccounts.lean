import JavaDebug.HitRows
import JavaDebug.StopPointSet

/-!
The accounts of the stop points over a run of hits, disarms and re-arms. An
account opens with each arming: the trace budget then, the snapshots kept
since, whether an event was delivered, and whether a hit switched the stop
point off. They balance as long as no hit uses up the budget of a counted stop
point, whose requests are then gone before it is spent.
-/
namespace JavaDebug.HitAccounts

open Jdwp StopPoints Wire Disarming
open Hits Rearming StateProgram Runs Ownership
open Withdrawing LedgerRuns Renewing CompositeOrder
open HitRows

/-- Hits and discarded exits together. -/
def tally (v : StopPoint) : ℕ := v.hits + (discarded v).getD 0

structure Account where
  allowance : Option ℕ
  kept : ℕ
  fired : Bool
  stopped : Bool
  events : ℕ

namespace Account

def opened (v : StopPoint) (events : ℕ) : Account := ⟨v.trace_budget, 0, false, false, events⟩

def after_hit (a : Account) (delivered kept off : Bool) : Account :=
  { a with
    kept := if kept then a.kept + 1 else a.kept
    fired := a.fired || delivered
    stopped := a.stopped || (delivered && off)
    events := if delivered then a.events + 1 else a.events }

/-- At most as many snapshots as the budget, the last of which disarms; nothing but the budget
or the count disarms on a hit; a delivered event spends a counted stop point; every delivered
event is tallied once. -/
structure Balances (a : Account) (v : StopPoint) : Prop where
  within : ∀ n, a.allowance = some n → a.kept ≤ n
  disarmed : ∀ n, a.allowance = some n → a.kept = n → v.enabled = false
  exactly : a.stopped = true → v.hit_count = none → a.allowance = some a.kept
  spent : a.fired = true → v.hit_count.isSome → v.spent = true
  counted : tally v = a.events

end Account

inductive Step
  | hit (h : Hit)
  | disarm (req : RequestId)
  | disable (id : StopId)
  | rearm (id : StopId)

/-- The world, and the account of each stop point since its last arming. -/
structure Moment where
  world : World
  account : StopId → Account

/-- The event goes to the stop point `id`, which is enabled. -/
def delivered (w : World) (h : Hit) (id : StopId) : Bool :=
  (w.session.owner? h.event.request_id).any fun sp => decide (sp.id = id) && sp.enabled

def is_off (w : World) (id : StopId) : Bool :=
  !(w.session.stop_points.get? id).any StopPoint.enabled

namespace Moment

def next (m : Moment) (b : Answers) : Step → Moment
  | .hit h =>
    let w := ((listen h.composite).run (met m.world h.composite h.thread b)).2
    ⟨w, fun id => (m.account id).after_hit (delivered m.world h id)
      (snapshot_taken m.world w id) (is_off w id)⟩
  | .disarm req => ⟨((disarm_request req).run (m.world.begin b)).2, m.account⟩
  | .disable id => ⟨((disable_stop_point id).run (m.world.begin b)).2, m.account⟩
  | .rearm id =>
    let r := (rearm_stop_point id).run (m.world.begin b)
    ⟨r.2, fun i =>
      match decide (i = id) && r.1.isOk, r.2.session.stop_points.get? i with
      | true, some v => .opened v (m.account i).events
      | _, _ => m.account i⟩

def run (m : Moment) (l : List (Step × Answers)) : Moment :=
  l.foldl (fun m p => m.next p.2 p.1) m

end Moment

/-- Books in order, and no armed stop point whose trace budget is used up. -/
structure Opening where
  world : World
  ledger : Ledger False [] nothing world
  funded : ∀ v ∈ world.session.stop_points.rows, v.enabled = true → v.trace_budget ≠ some 0

def Opening.moment (o : Opening) : Moment :=
  ⟨o.world, fun id =>
    match o.world.session.stop_points.get? id with
    | some v => .opened v (tally v)
    | none => ⟨none, 0, false, false, 0⟩⟩

/-- The hit finds room in the tally, and is not one that is kept, counted, and uses up the trace
budget. -/
def Clear (w : World) (h : Hit) : Prop :=
  ∀ sp, w.session.owner? h.event.request_id = some sp →
    Room w h.loc sp ∧ ¬ (keeps w h sp = true ∧ sp.hit_count.isSome ∧ runs_out sp)

def Calm (m : Moment) (b : Answers) : Step → Prop
  | .hit h => Clear (met m.world h.composite h.thread b) h
  | _ => True

def CalmRun (m : Moment) : List (Step × Answers) → Prop
  | [] => True
  | p :: rest => Calm m p.2 p.1 ∧ CalmRun (m.next p.2 p.1) rest

section Funded

/-- The budget a re-arm leaves is not used up. -/
theorem refreshed_funded (budget : Option ℕ) : refreshed_budget budget ≠ some 0 := by
  unfold refreshed_budget
  split
  · decide
  · rename_i hne
    exact hne

end Funded

section Sound

variable {a : Account} {v : StopPoint}

/-- The account balances, and while the stop point is on, its budget is what is left. -/
structure Sound (a : Account) (v : StopPoint) : Prop extends Account.Balances a v where
  left : v.enabled = true → a.allowance = v.trace_budget.map fun n => n + a.kept
  funded : v.enabled = true → v.trace_budget ≠ some 0
  running : v.enabled = true → a.stopped = false

theorem Sound.opened (hfund : v.enabled = true → v.trace_budget ≠ some 0) {events : ℕ}
    (hcount : tally v = events) : Sound (.opened v events) v where
  within _ _ := Nat.zero_le _
  disarmed n hn h0 := by
    exact Bool.eq_false_iff.mpr fun hon => hfund hon (hn.trans (congrArg some h0.symm))
  exactly h := by cases h
  spent h := by cases h
  counted := hcount
  left _ := by
    unfold Account.opened
    simp
  funded := hfund
  running _ := rfl

theorem Sound.disabled (h : Sound a v) : Sound a (set_disabled v) where
  within := h.within
  disarmed _ _ _ := rfl
  exactly := h.exactly
  spent := h.spent
  counted := h.counted
  left hon := by cases hon
  funded hon := by cases hon
  running hon := by cases hon

variable {w : World} {loc : Location}

theorem tally_grows (hroom : Room w loc v) : tally (tallied w.answers loc v) = tally v + 1 := by
  unfold tally
  rw [hits_tallied, discarded_tallied]
  by_cases hm : method_name_matches w.answers (method_filter v) loc = true
  · rw [if_pos hm, if_pos hm, (succ_room _).mpr (hroom.1 hm)]
    omega
  · obtain ⟨n, hn⟩ := discarded_some hm
    rw [if_neg hm, if_neg hm, hn, Option.map_some, (succ_room n).mpr (hroom.2 hm n hn)]
    rfl

theorem Sound.tallied (h : Sound a v) {b : Answers} (hb : w.answers = b) (hroom : Room w loc v) :
    Sound { a with events := a.events + 1 } (tallied b loc v) := by
  obtain ⟨-, -, hc, hs, hbudget⟩ := tallied_same b loc v
  have hon : (CompositeOrder.tallied b loc v).enabled = v.enabled := by
    unfold CompositeOrder.tallied
    split
    · rfl
    · exact tally_discarded.enabled v
  refine ⟨⟨h.within, fun n hn hk => hon.trans (h.disarmed n hn hk), fun hst => ?_, fun hf => ?_,
    ?_⟩, ?_, ?_, ?_⟩
  · rw [hc]
    exact h.exactly hst
  · rw [hc, hs]
    exact h.spent hf
  · rw [← h.counted]
    subst hb
    exact tally_grows hroom
  · rw [hon, hbudget]
    exact h.left
  · rw [hon, hbudget]
    exact h.funded
  · rw [hon]
    exact h.running

/-- An event that is not kept spends the stop point if it is counted. -/
theorem Sound.spent_if (h : Sound a v) (hon : v.enabled = true) :
    Sound { a with fired := true, stopped := a.stopped || !(spent_if v).enabled }
      (HitRows.spent_if v) := by
  unfold HitRows.spent_if
  cases hc : v.hit_count.isSome with
  | true =>
    have hsome : v.hit_count ≠ none := Option.isSome_iff_ne_none.mp hc
    rw [if_pos rfl]
    exact ⟨⟨h.within, fun _ _ _ => rfl, fun _ hnone => absurd hnone hsome, fun _ _ => rfl,
      h.counted⟩, by rintro ⟨⟩, by rintro ⟨⟩, by rintro ⟨⟩⟩
  | false =>
    rw [if_neg Bool.false_ne_true, hon, Bool.not_true, Bool.or_false]
    exact ⟨⟨h.within, h.disarmed, h.exactly, fun _ hcount => absurd hcount (by rw [hc]; decide),
      h.counted⟩, h.left, h.funded, h.running⟩

theorem Sound.charged (h : Sound a v) (hon : v.enabled = true)
    (hclear : ¬ (v.hit_count.isSome ∧ runs_out v)) :
    Sound { a with
        kept := a.kept + 1, fired := true, stopped := a.stopped || !(charged v).enabled }
      (HitRows.charged v) := by
  have hleft := h.left hon
  have hfund := h.funded hon
  unfold HitRows.charged
  unfold runs_out at hclear
  by_cases hruns : v.trace_budget.map (fun n => n - 1) = some 0
  · have hone : v.trace_budget = some 1 := by
      obtain ⟨n, hn, hzero⟩ := Option.map_eq_some_iff.mp hruns
      rw [hn] at hfund ⊢
      have : n ≠ 0 := fun h0 => hfund (congrArg some h0)
      exact congrArg some (by omega)
    rw [hone, Option.map_some, Nat.add_comm] at hleft
    rw [if_pos hruns]
    refine ⟨⟨fun n hn => ?_, fun _ _ _ => rfl, fun _ _ => hleft, fun _ hc => ?_, h.counted⟩,
      by rintro ⟨⟩, by rintro ⟨⟩, by rintro ⟨⟩⟩
    · exact (Option.some.inj (hleft.symm.trans hn)).le
    · exact absurd ⟨hc, hruns⟩ hclear
  · rw [if_neg hruns]
    refine Sound.spent_if (a := { a with kept := a.kept + 1 }) (v := lower_budget v) ?_ hon
    have hmore : ∀ n, a.allowance = some n → a.kept + 1 < n := by
      intro n hn
      rw [hn] at hleft
      obtain ⟨k, hk, hsum⟩ := Option.map_eq_some_iff.mp hleft.symm
      rw [hk, Option.map_some, Option.some.injEq] at hruns
      omega
    refine ⟨⟨fun n hn => (hmore n hn).le, fun n hn hk => absurd hk (hmore n hn).ne, fun hst => ?_,
      h.spent, h.counted⟩, fun _ => ?_, fun _ h0 => ?_, h.running⟩
    · rw [h.running hon] at hst
      cases hst
    · rw [show (lower_budget v).trace_budget = v.trace_budget.map fun n => n - 1 from rfl, hleft]
      cases hb : v.trace_budget with
      | none => rfl
      | some n =>
        rw [hb] at hfund
        have : n ≠ 0 := fun h0 => hfund (congrArg some h0)
        exact congrArg some (show n + a.kept = n - 1 + (a.kept + 1) by omega)
    · exact hruns h0

theorem Sound.settled (h : Sound a v) (hon : v.enabled = true) {b : Answers} (hb : w.answers = b)
    (hroom : Room w loc v) (kept : Bool)
    (hclear : ¬ (kept = true ∧ v.hit_count.isSome ∧ runs_out v)) :
    Sound (a.after_hit true kept (!(settled kept (CompositeOrder.tallied b loc v)).enabled))
      (HitRows.settled kept (CompositeOrder.tallied b loc v)) := by
  have ht := h.tallied hb hroom
  obtain ⟨-, -, hc, -, hbudget⟩ := tallied_same b loc v
  have hon' : (CompositeOrder.tallied b loc v).enabled = true := by
    unfold CompositeOrder.tallied
    split
    · exact hon
    · exact (tally_discarded.enabled v).trans hon
  unfold HitRows.settled Account.after_hit
  cases kept with
  | false =>
    simp only [Bool.or_true, Bool.true_and, if_true, Bool.false_eq_true, if_false]
    exact ht.spent_if hon'
  | true =>
    simp only [Bool.or_true, Bool.true_and, if_true]
    refine ht.charged hon' fun hx => hclear ⟨rfl, ?_⟩
    unfold runs_out at hx ⊢
    rwa [hc, hbudget] at hx

end Sound

section Runs

variable {m : Moment} {w : World} {b : Answers} {h : Hit} {id : StopId} {v : StopPoint}

/-- Books in order, and every account sound. -/
def InOrder (m : Moment) : Prop :=
  Ledger False [] nothing m.world ∧
    ∀ id v, m.world.session.stop_points.get? id = some v → Sound (m.account id) v

theorem met_ledger (L : Ledger False [] nothing w) (h : Hit) (b : Answers) :
    Ledger False [] nothing (met w h.composite h.thread b) := by
  have L1 := fire_ledger h.composite h.thread L
  exact begin_ledger b ⟨L1.named, L1.shaped, L1.custody, L1.lasting, False.elim⟩ False.elim

theorem hit_ledger (L : Ledger False [] nothing w) (h : Hit) (b : Answers) :
    Ledger False [] nothing ((listen h.composite).run (met w h.composite h.thread b)).2 := by
  have L1 := met_ledger L h b
  exact listen_ledger h.composite ⟨L1.named, L1.shaped, L1.custody, L1.lasting, False.elim⟩
    False.elim

theorem owner_on (L : Ledger False [] nothing w) {req : RequestId} {sp : StopPoint}
    (ho : w.session.owner? req = some sp) : sp.enabled = true := by
  obtain ⟨hmem, hr⟩ := owner_some ho
  refine Bool.not_eq_false _ |>.mp fun hoff => ?_
  rw [(L.shaped sp hmem).off hoff] at hr
  exact List.not_mem_nil hr

theorem hit_in_order (hm : InOrder m) (hclear : Clear (met m.world h.composite h.thread b) h) :
    InOrder (m.next b (.hit h)) := by
  obtain ⟨L, hrows⟩ := hm
  have L1 := met_ledger L h b
  refine ⟨hit_ledger L h b, fun id v hv => ?_⟩
  have hsnap : snapshot_taken m.world
      ((listen h.composite).run (met m.world h.composite h.thread b)).2 id = _ :=
    hit_snapshot (h := h) L1 id
  simp only [Moment.next] at hv ⊢
  rw [hsnap]
  unfold delivered is_off
  rw [hv, Option.any_some]
  by_cases hown : ∃ sp, m.world.session.owner? h.event.request_id = some sp ∧ sp.id = id
  · obtain ⟨sp, ho, rfl⟩ := hown
    have ho1 : (met m.world h.composite h.thread b).session.owner? h.event.request_id = some sp :=
      ho
    have hrow := hit_row L1 ho1
    rw [hv, Option.some.injEq] at hrow
    obtain ⟨hroom, hboth⟩ := hclear sp ho1
    have hon := owner_on L ho
    rw [ho, ho1, Option.any_some, Option.any_some, hon, decide_eq_true rfl, Bool.true_and,
      Bool.true_and, hrow]
    exact (hrows sp.id sp (get_of_owner ho)).settled hon rfl hroom _ hboth
  · have hne : ∀ sp, m.world.session.owner? h.event.request_id = some sp → sp.id ≠ id :=
      fun sp ho hid => hown ⟨sp, ho, hid⟩
    have hsame := hit_others L1 hne
    have hnone : ∀ f : StopPoint → Bool,
        ((m.world.session.owner? h.event.request_id).any fun sp => decide (sp.id = id) && f sp) =
          false := by
      intro f
      cases ho : m.world.session.owner? h.event.request_id with
      | none => rfl
      | some sp => rw [Option.any_some, decide_eq_false (hne sp ho), Bool.false_and]
    have hnone1 := hnone (keeps (met m.world h.composite h.thread b) h)
    rw [hnone, show (met m.world h.composite h.thread b).session.owner? h.event.request_id =
      m.world.session.owner? h.event.request_id from rfl, hnone1]
    simp only [Account.after_hit, Bool.or_false, Bool.false_and, Bool.false_eq_true, if_false]
    exact hrows id v (hsame.symm.trans hv)

theorem disabled_in_order (hm : InOrder m) {w' : World} (L : Ledger False [] nothing w')
    (hrows : ∀ id v, w'.session.stop_points.get? id = some v →
      ∃ u, m.world.session.stop_points.get? id = some u ∧ (v = u ∨ v = set_disabled u)) :
    InOrder ⟨w', m.account⟩ := by
  refine ⟨L, fun id v hv => ?_⟩
  obtain ⟨u, hu, rfl | rfl⟩ := hrows id v hv
  · exact hm.2 id v hu
  · exact (hm.2 id u hu).disabled

theorem edited_disabled (s : DebugSession) (k : StopId) (hv :
    (s.edit_stop_point k set_disabled).stop_points.get? id = some v) :
    ∃ u, s.stop_points.get? id = some u ∧ (v = u ∨ v = set_disabled u) := by
  by_cases hid : id = k
  · subst hid
    rw [get?_edit s id set_disabled fun _ => rfl] at hv
    obtain ⟨u, hu, rfl⟩ := Option.map_eq_some_iff.mp hv
    exact ⟨u, hu, Or.inr rfl⟩
  · rw [others_edit s k set_disabled (fun _ => rfl) hid] at hv
    exact ⟨v, hv, Or.inl rfl⟩

theorem disarm_in_order (hm : InOrder m) (req : RequestId) : InOrder (m.next b (.disarm req)) := by
  have L := begin_ledger b hm.1 False.elim
  refine disabled_in_order hm (disarm_ledger req L False.elim) fun id v hv => ?_
  obtain ⟨q, hq⟩ := noted_eq m.world.session req
  rw [disarm_request_run] at hv
  cases ho : (m.world.begin b).session.owner? req with
  | none =>
    rw [ho] at hv
    have hv' : (noted m.world.session req).stop_points.get? id = some v := hv
    rw [hq] at hv'
    exact ⟨v, hv', Or.inl rfl⟩
  | some sp =>
    rw [ho] at hv
    have hv' : ((noted m.world.session req).edit_stop_point sp.id
      set_disabled).stop_points.get? id = some v := hv
    obtain ⟨u, hu, hvu⟩ := edited_disabled _ _ hv'
    rw [hq] at hu
    exact ⟨u, hu, hvu⟩

theorem disable_in_order (hm : InOrder m) (k : StopId) : InOrder (m.next b (.disable k)) := by
  have L := begin_ledger b hm.1 False.elim
  refine disabled_in_order hm (disable_ledger k L False.elim).1 fun id v hv => ?_
  unfold disable_stop_point at hv
  simp only [run_bind, run_get] at hv
  cases hsp : (m.world.begin b).session.stop_points.get? k with
  | none =>
    rw [hsp] at hv
    exact ⟨v, hv, Or.inl rfl⟩
  | some sp =>
    rw [hsp] at hv
    have hout := (clear_stop_point_withdrawn sp (m.world.begin b)).1
    simp only [run_bind] at hv
    cases hr : ((clear_stop_point_requests sp).run (m.world.begin b)).1 with
    | error e =>
      rw [hr] at hv
      simp only [run_pure, hout.session] at hv
      exact ⟨v, hv, Or.inl rfl⟩
    | ok _ =>
      rw [hr] at hv
      simp only [run_bind, edit_run, run_pure, hout.session] at hv
      exact edited_disabled m.world.session k hv

/-- A re-arm rewrites its record, or fails and leaves the session as it is. -/
theorem rearm_session (L : Ledger False [] nothing w) (k : StopId) :
    (((rearm_stop_point k).run w).1.isOk = false ∧
      ((rearm_stop_point k).run w).2.session = w.session) ∨
    (((rearm_stop_point k).run w).1.isOk = true ∧ ∃ armed,
      ((rearm_stop_point k).run w).2.session =
        w.session.edit_stop_point k (set_rearmed armed)) := by
  unfold rearm_stop_point
  simp only [run_bind, run_get]
  cases hsp : w.session.stop_points.get? k with
  | none => exact Or.inl ⟨rfl, rfl⟩
  | some sp =>
    have hdesk := rearm_requests_desk w.session sp w
      (⟨L, rfl⟩ : Desk w.session False [] nothing w)
    simp only [run_bind]
    revert hdesk
    generalize (rearm_requests sp).run w = res
    obtain ⟨r, w1⟩ := res
    intro hdesk
    cases r with
    | error e => exact Or.inl ⟨rfl, hdesk.2⟩
    | ok armed =>
      have hs : w1.session = w.session := hdesk.1.2
      refine Or.inr ⟨rfl, armed, ?_⟩
      simp only [run_bind, edit_run, run_pure, hs]

theorem tally_rearmed (armed : ReArmed) (v : StopPoint) :
    tally (set_rearmed armed v) = tally v := by
  unfold tally set_rearmed discarded StopPoint.method_exit with_arm
  cases v.armed_on <;> cases armed.arm <;> rfl

theorem rearm_in_order (hm : InOrder m) (k : StopId) : InOrder (m.next b (.rearm k)) := by
  have L := begin_ledger b hm.1 False.elim
  refine ⟨(rearm_stop_point_ledger k L False.elim).1, fun id v hv => ?_⟩
  simp only [Moment.next] at hv ⊢
  rw [hv]
  rcases rearm_session L k with ⟨hfail, hs⟩ | ⟨hok, armed, hs⟩
  · rw [hfail, Bool.and_false]
    rw [hs] at hv
    exact hm.2 id v hv
  · rw [hs] at hv
    rw [hok, Bool.and_true]
    by_cases hid : id = k
    · subst hid
      rw [get?_edit _ id (set_rearmed armed) fun _ => rfl] at hv
      obtain ⟨u, hu, rfl⟩ := Option.map_eq_some_iff.mp hv
      rw [decide_eq_true rfl]
      exact Sound.opened (fun _ => refreshed_funded u.trace_budget)
        ((tally_rearmed armed u).trans (hm.2 id u hu).counted)
    · rw [others_edit _ k (set_rearmed armed) (fun _ => rfl) hid] at hv
      rw [decide_eq_false hid]
      exact hm.2 id v hv

theorem next_in_order (hm : InOrder m) {s : Step} (hcalm : Calm m b s) : InOrder (m.next b s) := by
  cases s with
  | hit h => exact hit_in_order hm hcalm
  | disarm req => exact disarm_in_order hm req
  | disable id => exact disable_in_order hm id
  | rearm id => exact rearm_in_order hm id

theorem run_in_order {l : List (Step × Answers)} (hm : InOrder m) (hcalm : CalmRun m l) :
    InOrder (m.run l) := by
  induction l generalizing m with
  | nil => exact hm
  | cons p rest ih => exact ih (next_in_order hm hcalm.1) hcalm.2

theorem opening_in_order (o : Opening) : InOrder o.moment := by
  refine ⟨o.ledger, fun id v hv => ?_⟩
  have hv' : o.world.session.stop_points.get? id = some v := hv
  have hmem := ((Table.get?_eq_some _ _ _).mp hv').1
  unfold Opening.moment
  simp only [hv']
  exact Sound.opened (o.funded v hmem) rfl

/-- In every run of calm hits, with any disarms and re-arms between them, every account balances
in every state. -/
theorem accounts_balance (o : Opening) (l : List (Step × Answers)) (hcalm : CalmRun o.moment l)
    (id : StopId) (v : StopPoint) (hv : (o.moment.run l).world.session.stop_points.get? id = some v)
    : ((o.moment.run l).account id).Balances v :=
  ((run_in_order (opening_in_order o) hcalm).2 id v hv).toBalances

/-- A traced line stop with a budget of `budget` snapshots and an event count. -/
def counted_line (budget : ℕ) (hit_count : Option ℕ) : World :=
  (Move.call (.set_line_stop ["A"] (some 10) none
    { plain_options none with
      trace := true, trace_budget := some budget, hit_count := hit_count } [] 1) plain).next
    (World.start [1] plain)

def line_hit : Hit := ⟨.eventThread, ⟨2, .breakpoint 1 ⟨1, 1, 0⟩⟩, 1, ⟨1, 1, 0⟩, rfl⟩

theorem counted_ledger (budget : ℕ) (hit_count : Option ℕ) :
    Ledger False [] nothing (counted_line budget hit_count) :=
  move_ledger _ trivial (start_ledger [1] plain False.elim) False.elim

def counted_opening (budget : ℕ) (hb : budget = 1 ∨ budget = 2) : Opening :=
  ⟨counted_line budget (some 1), counted_ledger budget (some 1), by
    rcases hb with rfl | rfl <;> decide⟩

/-- A hit that leaves one snapshot of the budget, a disarm and a re-arm. -/
def thrifty_run : List (Step × Answers) :=
  [(.hit line_hit, plain), (.disarm 2, plain), (.rearm ⟨"bp_", 1⟩, plain)]

theorem accounts_balance_thrifty : ∃ v,
    ((counted_opening 2 (Or.inr rfl)).moment.run thrifty_run).world.session.stop_points.get?
      ⟨"bp_", 1⟩ = some v ∧
    (((counted_opening 2 (Or.inr rfl)).moment.run thrifty_run).account ⟨"bp_", 1⟩).Balances v := by
  have hrow :
      (((counted_opening 2 (Or.inr rfl)).moment.run thrifty_run).world.session.stop_points.get?
        ⟨"bp_", 1⟩).isSome = true := by decide +kernel
  obtain ⟨v, hv⟩ := Option.isSome_iff_exists.mp hrow
  refine ⟨v, hv, accounts_balance _ thrifty_run ⟨fun sp ho => ?_, trivial, trivial, trivial⟩ _ v hv⟩
  have hrows : ∀ u ∈ (counted_line 2 (some 1)).session.stop_points.rows,
      u.trace_budget = some 2 ∧ u.hits = 0 ∧ discarded u = none := by decide +kernel
  obtain ⟨hbudget, hhits, hdis⟩ := hrows sp (owner_some ho).1
  refine ⟨⟨fun _ => ?_, fun _ n hn => ?_⟩, fun hx => ?_⟩
  · rw [hhits]
    decide
  · rw [hdis] at hn
    cases hn
  · have hruns := hx.2.2
    unfold runs_out at hruns
    rw [hbudget] at hruns
    cases hruns

/-- The one hit takes the whole budget: the stop point is disabled and never spent. -/
theorem budget_hides_spending : ¬ ∀ (o : Opening) (l : List (Step × Answers)) (id : StopId)
    (v : StopPoint), (o.moment.run l).world.session.stop_points.get? id = some v →
      ((o.moment.run l).account id).Balances v := by
  intro h
  have hrow : (((counted_opening 1 (Or.inl rfl)).moment.run
      [(.hit line_hit, plain)]).world.session.stop_points.get? ⟨"bp_", 1⟩).any
        (fun v => v.hit_count.isSome && !v.spent) = true := by decide +kernel
  obtain ⟨v, hv, hend⟩ := (Option.any_eq_true _ _).mp hrow
  obtain ⟨hcount, hspent⟩ := Bool.and_eq_true_iff.mp hend
  have hfired : (((counted_opening 1 (Or.inl rfl)).moment.run
      [(.hit line_hit, plain)]).account ⟨"bp_", 1⟩).fired = true := by decide +kernel
  have := (h _ [(.hit line_hit, plain)] ⟨"bp_", 1⟩ v hv).spent hfired hcount
  rw [this] at hspent
  cases hspent

end Runs

end JavaDebug.HitAccounts
