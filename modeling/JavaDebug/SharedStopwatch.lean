import JavaDebug.TimedRuns

/-!
Which pairs the one stopwatch of a session measures. Its open halves are kept
by thread, monitor and kind of pair, so they belong to no stop point: a pair is
measured exactly when nothing else reached its key in between. Two stop points
that watch the same contention take each other's measurement, and a clear or a
re-arm of one drops what all the others had open.
-/
namespace JavaDebug.SharedStopwatch

open Jdwp Wire Arming
open Runs MonitorClock TimedRuns

section Touching

/-- What an entry does to the open halves, where none is evicted. -/
def effect : Entry → Effect
  | .event m => if m.opening then .opened ⟨m.key, m.tick.now⟩ else .closed m.key
  | .forgotten pair => .forgotten pair
  | .cleared => .cleared

def touches (k : MonitorPairKey) (e : Entry) : Bool := (effect e).affects k

/-- The last entry that concerns what is open under `k`. -/
def last_touch (entries : List Entry) (k : MonitorPairKey) : Option Entry :=
  entries.reverse.find? (touches k)

/-- Fewer pairs are open, at any time, than make the stopwatch evict one. -/
def Roomy (history : List Entry) : Prop :=
  ∀ before after, history = before ++ after →
    (replay before).clock.pending.rows.length < MAX_MONITOR_PENDING

theorem Roomy.append_left {history rest : List Entry} (h : Roomy (history ++ rest)) :
    Roomy history := fun before after hsplit =>
  h before (after ++ rest) (by rw [hsplit, List.append_assoc])

theorem effects_roomy {c : Clock} (h : c.pending.rows.length < MAX_MONITOR_PENDING) (e : Entry) :
    c.effects e.op = [effect e] := by
  cases e with
  | event m =>
    unfold Entry.op effect
    by_cases hm : m.opening = true
    · have hkept : c.oldest m.key m.tick.order = none :=
        if_neg fun hfull => absurd h (Nat.not_lt.mpr hfull.1)
      simp only [hm, if_true, Clock.effects, hkept]
      rfl
    · simp only [hm]
      rfl
  | forgotten pair => rfl
  | cleared => rfl

theorem log_roomy {history : List Entry} (h : Roomy history) :
    (replay history).log = history.map effect := by
  induction history using List.reverseRecOn with
  | nil => rfl
  | append_singleton history e ih =>
    have hroom := h history [e] rfl
    rw [replay_concat, List.map_append, ← ih h.append_left]
    exact congrArg _ (effects_roomy hroom e)

theorem latest_touch (entries : List Entry) (k : MonitorPairKey) :
    latest (entries.map effect) k = (last_touch entries k).map effect := by
  unfold latest last_touch
  rw [← List.map_reverse, List.find?_map]
  rfl

theorem last_touch_after (before middle : List Entry) {e : Entry} {k : MonitorPairKey}
    (he : touches k e = true) :
    last_touch (before ++ e :: middle) k = some ((last_touch middle k).getD e) := by
  unfold last_touch
  rw [List.reverse_append, List.reverse_cons, List.append_assoc, List.find?_append]
  cases List.find? (touches k) middle.reverse with
  | some found => rfl
  | none => simp [he]

end Touching

section Pairs

/-- An opening and a closing half of the same thread, monitor and pair. -/
structure Halves (o c : Measured) : Prop where
  opens : o.opening = true
  closes : c.opening = false
  same : o.key = c.key

/-- The closing half is told the time since the opening one, and recorded when that is enough. -/
structure Given (o c : Measured) : Prop where
  span : c.span = .closed (some (c.tick.now - o.tick.now))
  recorded : c.recorded = true ↔
    ∀ min, c.min_duration_ms = some min → min ≤ as_millis (c.tick.now - o.tick.now)

/-- Nothing in between concerned the key, or the last that did was an opening half as long before
the closing one. -/
def Undisturbed (o c : Measured) (middle : List Entry) : Prop :=
  ∀ e, last_touch middle c.key = some e →
    ∃ m, e = .event m ∧ m.opening = true ∧ c.tick.now - m.tick.now = c.tick.now - o.tick.now

variable {o c : Measured} {history before middle after : List Entry}

theorem recordable_closed (min_duration_ms : Option ℕ) (d : ℕ) :
    monitor_hit_is_recordable min_duration_ms (.closed (some d)) = true ↔
      ∀ min, min_duration_ms = some min → min ≤ as_millis d := by
  cases min_duration_ms <;> simp [monitor_hit_is_recordable]

theorem effect_opened {e : Entry} {k : MonitorPairKey} {t : ℕ} (h : effect e = .opened ⟨k, t⟩) :
    ∃ m, e = .event m ∧ m.opening = true ∧ m.key = k ∧ m.tick.now = t := by
  cases e with
  | event m =>
    change (if m.opening = true then Effect.opened ⟨m.key, m.tick.now⟩ else .closed m.key) = _ at h
    by_cases hm : m.opening = true
    · rw [if_pos hm] at h
      cases h
      exact ⟨m, rfl, hm, rfl, rfl⟩
    · rw [if_neg hm] at h
      cases h
  | forgotten pair => cases h
  | cleared => cases h

theorem event_effect {m : Measured} (hm : m.opening = true) :
    effect (.event m) = .opened ⟨m.key, m.tick.now⟩ := if_pos hm

/-- A closing half is told a time exactly when the last entry of its key opened it. -/
theorem told_closed (hroomy : Roomy history) (hc : Told history c) (hcloses : c.opening = false)
    (d : ℕ) : c.span = .closed (some d) ↔ ∃ m, last_touch history c.key = some (.event m) ∧
      m.opening = true ∧ m.key = c.key ∧ d = c.tick.now - m.tick.now := by
  have hagrees : Agrees (replay history).clock (replay history).log := agrees_run _
  rw [hc.span, span_measures hagrees]
  have hlatest := latest_touch history c.key
  rw [← log_roomy hroomy] at hlatest
  constructor
  · rintro ⟨-, t, ht, rfl⟩
    change latest (replay history).log c.key = _ at ht
    rw [hlatest, Option.map_eq_some_iff] at ht
    obtain ⟨e, he, heffect⟩ := ht
    obtain ⟨m, rfl, hopens, hkey, rfl⟩ := effect_opened heffect
    exact ⟨m, he, hopens, hkey, rfl⟩
  · rintro ⟨m, hm, hopens, hkey, rfl⟩
    refine ⟨hcloses, m.tick.now, ?_, rfl⟩
    change latest (replay history).log c.key = _
    rw [hlatest, hm, Option.map_some, event_effect hopens, hkey]
    rfl

theorem given_of_span (hc : Told history c)
    (hspan : c.span = .closed (some (c.tick.now - o.tick.now))) : Given o c := by
  refine ⟨hspan, ?_⟩
  rw [hc.recorded, hspan]
  exact recordable_closed _ _

/-- The opening half is the last entry of its key before whatever is in between. -/
theorem touched_between (hh : Halves o c) (before middle : List Entry) :
    last_touch (before ++ .event o :: middle) c.key =
      some ((last_touch middle c.key).getD (.event o)) := by
  refine last_touch_after before middle ?_
  unfold touches
  rw [event_effect hh.opens, hh.same]
  simp [Effect.affects]

theorem key_of_touch {m : Measured} {entries : List Entry} {k : MonitorPairKey}
    (h : last_touch entries k = some (.event m)) (hm : m.opening = true) : m.key = k := by
  have htouch := List.find?_some h
  unfold touches at htouch
  rw [event_effect hm] at htouch
  simpa [Effect.affects] using htouch

/-- In a run of a session with room for its pairs, two halves are measured from one to the other
exactly when nothing disturbed them. -/
theorem measured_iff_undisturbed {threads : List ThreadId} {a : Answers} {t : Timed}
    (hrun : TimedRun (Timed.start threads a) t) (hroomy : Roomy t.history)
    (hsplit : t.history = (before ++ .event o :: middle) ++ .event c :: after) (hh : Halves o c) :
    Given o c ↔ Undisturbed o c middle := by
  have htold : Told (before ++ .event o :: middle) c :=
    (faithful_run hrun (faithful_start threads a)).replayed.told _ c after hsplit
  rw [hsplit] at hroomy
  have hspan := told_closed hroomy.append_left htold hh.closes
  have htouch := touched_between hh before middle
  constructor
  · intro hgiven e he
    obtain ⟨m, hm, hopens, -, hd⟩ := (hspan _).mp hgiven.span
    rw [htouch, he, Option.getD_some] at hm
    exact ⟨m, Option.some.inj hm, hopens, hd.symm⟩
  · intro hfree
    refine given_of_span htold ((hspan _).mpr ?_)
    cases hlast : last_touch middle c.key with
    | none =>
      rw [hlast, Option.getD_none] at htouch
      exact ⟨o, htouch, hh.opens, hh.same, rfl⟩
    | some e =>
      obtain ⟨m, rfl, hopens, hd⟩ := hfree e hlast
      rw [hlast, Option.getD_some] at htouch
      exact ⟨m, htouch, hopens, key_of_touch hlast hopens, hd.symm⟩

end Pairs

section Runs

/-- Traced, without a count or a filter. -/
def traced_options : StopOptions := { plain_options none with trace := true }

/-- Both halves of a contended pair are asked for in one call, with a threshold. -/
def arm_pair (min_duration_ms : ℕ) : Deed :=
  ⟨.call (.set_monitor_stop [.blocked, .acquired] ⟨none, none, some min_duration_ms⟩
    traced_options) plain, fun _ => ⟨0, walk⟩⟩

/-- Thread 1 meets the monitor 7; the events of these requests are timed one after another. -/
def meet (kind : MonitorKind) (requests : List RequestId) (now : ℕ) : Deed :=
  ⟨.hit ⟨.eventThread, requests.map fun r => ⟨r, .monitor kind 1 ⟨1, 1, 0⟩ 7⟩⟩ 1 plain,
    fun n => ⟨now + n * 1000000, walk⟩⟩

variable (deeds : List Deed)

def perform : Timed := deeds.foldl Deed.next (Timed.start [1, 2] plain)

theorem perform_concat (d : Deed) : perform (deeds ++ [d]) = d.next (perform deeds) := by
  unfold perform
  rw [List.foldl_append]
  rfl

theorem perform_runs {d : Deed} (hrun : TimedRun (Timed.start [1, 2] plain) (perform deeds))
    (hallowed : d.move.Allowed (perform deeds).world) :
    TimedRun (Timed.start [1, 2] plain) (perform (deeds ++ [d])) :=
  hrun.tail ⟨d, hallowed, perform_concat deeds d⟩

theorem pending_le (ops : List Op) : (run ops).clock.pending.rows.length ≤ ops.length := by
  induction ops using List.reverseRecOn with
  | nil => exact Nat.zero_le _
  | append_singleton ops op ih =>
    have hstep : ∀ c : Clock, (c.apply op).pending.rows.length ≤ c.pending.rows.length + 1 := by
      intro c
      cases op with
      | open_ key now i =>
        refine (length_insert_le (c.make_room key i).pending ⟨key, now⟩).trans ?_
        unfold Clock.make_room
        split
        · exact Nat.succ_le_succ (List.length_filter_le _ _)
        · exact le_rfl
      | close key now =>
        simp only [Clock.apply, Clock.close]
        split
        · exact (List.length_filter_le _ _).trans (Nat.le_succ _)
        · exact Nat.le_succ _
      | forget_pair pair => exact (List.length_filter_le _ _).trans (Nat.le_succ _)
      | clear => exact Nat.zero_le _
    rw [run, List.foldl_append, List.length_append]
    exact (hstep _).trans (Nat.succ_le_succ ih)

theorem roomy_short {history : List Entry} (h : history.length < MAX_MONITOR_PENDING) :
    Roomy history := by
  rintro before after rfl
  refine (pending_le _).trans_lt ?_
  rw [List.length_map]
  rw [List.length_append] at h
  omega

/-- The requests that are in the debuggee. -/
def live_requests (t : Timed) : List RequestId := t.world.jvm.requests.map fun q => q.id

/-- Two halves whose stop points were armed by one call, and whose requests are still there. -/
structure Partners (t : Timed) (o c : Measured) : Prop where
  halves : Halves o c
  live : o.request_id ∈ live_requests t ∧ c.request_id ∈ live_requests t
  together : ∃ (t₀ : Timed) (kinds : List MonitorKind) (arm : MonitorArm) (opts : StopOptions)
    (a : Answers) (ticks : ℕ → Tick),
    TimedRun (Deed.next t₀ ⟨.call (.set_monitor_stop kinds arm opts) a, ticks⟩) t ∧
    ∀ id ∈ [o.stop_point, c.stop_point], t₀.world.session.stop_points.get? id = none ∧
      ((Deed.next t₀ ⟨.call (.set_monitor_stop kinds arm opts) a,
        ticks⟩).world.session.stop_points.get? id).isSome

/-- One pair is measured, from one half to the other. -/
theorem lone_pair_measured : ∃ (t : Timed) (o c : Measured),
    t.history = [.event o, .event c] ∧ Halves o c ∧ Given o c := by
  let deeds := [arm_pair 5, meet .blocked [1] 0, meet .acquired [2] 100000000]
  let o : Measured := ⟨⟨"mon_blocked_", 1⟩, 1, .blocked, some 5, 1, 7, ⟨0, walk⟩, .opened, false⟩
  let c : Measured := ⟨⟨"mon_acquired_", 2⟩, 2, .acquired, some 5, 1, 7, ⟨100000000, walk⟩,
    .closed (some 100000000), true⟩
  have harmed : TimedRun (Timed.start [1, 2] plain) (perform [arm_pair 5]) :=
    perform_runs [] .refl trivial
  have hblocked : TimedRun (Timed.start [1, 2] plain)
      (perform [arm_pair 5, meet .blocked [1] 0]) :=
    perform_runs [arm_pair 5] harmed ⟨by decide, by decide⟩
  have hrun : TimedRun (Timed.start [1, 2] plain) (perform deeds) :=
    perform_runs [arm_pair 5, meet .blocked [1] 0] hblocked ⟨by decide, by decide⟩
  have hhistory : (perform deeds).history = ([] ++ .event o :: []) ++ .event c :: [] := rfl
  have hhalves : Halves o c := ⟨rfl, rfl, rfl⟩
  have hroomy : Roomy (perform deeds).history := roomy_short (by rw [hhistory]; decide)
  refine ⟨perform deeds, o, c, hhistory, hhalves, ?_⟩
  exact (measured_iff_undisturbed hrun hroomy hhistory hhalves).mpr fun e he => by cases he

/-- Both pairs are armed, and thread 1 is kept off the monitor for 100 ms. -/
def two_pairs : List Deed :=
  [arm_pair 5, arm_pair 5, meet .blocked [1, 3] 0, meet .acquired [2, 4] 100000000]

def second_opening : Measured :=
  ⟨⟨"mon_blocked_", 3⟩, 3, .blocked, some 5, 1, 7, ⟨1000000, walk⟩, .opened, false⟩

def second_closing : Measured :=
  ⟨⟨"mon_acquired_", 4⟩, 4, .acquired, some 5, 1, 7, ⟨101000000, walk⟩, .closed none, false⟩

theorem two_pairs_history : ∃ first_opening first_closing, (perform two_pairs).history =
    ([.event first_opening] ++ .event second_opening :: [.event first_closing]) ++
      .event second_closing :: [] := ⟨_, _, rfl⟩

theorem two_pairs_run : TimedRun (Timed.start [1, 2] plain) (perform [arm_pair 5]) ∧
    TimedRun ((arm_pair 5).next (perform [arm_pair 5])) (perform two_pairs) := by
  refine ⟨perform_runs [] .refl trivial, ?_⟩
  rw [← perform_concat]
  refine (Relation.ReflTransGen.single ⟨meet .blocked [1, 3] 0, ⟨by decide, by decide⟩, rfl⟩).tail
    ⟨meet .acquired [2, 4] 100000000, ⟨by decide, by decide⟩, rfl⟩

theorem second_partners : Partners (perform two_pairs) second_opening second_closing where
  halves := ⟨rfl, rfl, rfl⟩
  live := by decide
  together := by
    refine ⟨perform [arm_pair 5], [.blocked, .acquired], ⟨none, none, some 5⟩, traced_options,
      plain, fun _ => ⟨0, walk⟩, two_pairs_run.2, fun id hid => ?_⟩
    rcases List.mem_pair.mp hid with rfl | rfl
    · exact ⟨by decide, by decide⟩
    · exact ⟨by decide, by decide⟩

/-- Two pairs watch the same contention: the second closing half is told no time, and is dropped
for its threshold of 5 ms. -/
theorem second_pair_unmeasured :
    ¬ ∀ (threads : List ThreadId) (a : Answers) (t : Timed),
      TimedRun (Timed.start threads a) t → Roomy t.history →
      ∀ before middle after o c, t.history = (before ++ .event o :: middle) ++ .event c :: after →
        Partners t o c → Given o c := by
  intro h
  obtain ⟨first_opening, first_closing, hhistory⟩ := two_pairs_history
  have hrun : TimedRun (Timed.start [1, 2] plain) (perform two_pairs) := by
    refine two_pairs_run.1.trans (Relation.ReflTransGen.head ?_ two_pairs_run.2)
    exact ⟨arm_pair 5, trivial, rfl⟩
  have hroomy : Roomy (perform two_pairs).history := by
    refine roomy_short ?_
    rw [hhistory]
    simp [MAX_MONITOR_PENDING]
  have hgiven := h [1, 2] plain _ hrun hroomy _ _ _ _ _ hhistory second_partners
  exact absurd hgiven.span (by decide)

end Runs

end JavaDebug.SharedStopwatch
