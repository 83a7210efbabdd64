import JavaDebug.HitRows
import JavaDebug.MonitorClock
import JavaDebug.UnconditionalMonitors

/-!
A session together with its one stopwatch. The programs here are those of the
session with the four places where they reach the stopwatch: a traced monitor
event opens or closes a pair, clearing a monitor stop or arming it again
forgets all pairs of its kind, and a panic forgets everything. A history says
what reached the stopwatch, and what each event was told and whether it was
recorded; it is all that the stopwatch depends on.
-/
namespace JavaDebug.TimedRuns

open Jdwp StopPoints Wire Disarming
open Hits Resuming StateProgram Runs
open MonitorClock Waning UnconditionalMonitors
open CompositeOrder HitRows RecordTerms
open Rearming (FieldEdit enabled_state_of check_instance_filter_still_live is_armed
  read_editable_stop_point apply_stop_point_edit rewatch_family unwatch_family
  try_arm_deferred_breakpoints)

section Programs

/-- The instant at which an event is timed, in nanoseconds, and the order in which the open halves
are then walked. -/
structure Tick where
  now : ℕ
  order : Iteration

/-- What became of one event of a traced monitor stop point. -/
structure Measured where
  stop_point : StopId
  request_id : RequestId
  kind : MonitorKind
  min_duration_ms : Option ℕ
  thread : ThreadId
  monitor : ObjectId
  tick : Tick
  span : MonitorSpan
  recorded : Bool

def Measured.key (m : Measured) : MonitorPairKey := MonitorKind.key m.kind m.thread m.monitor

def Measured.opening (m : Measured) : Bool := (MonitorPair.of m.kind).2

/-- What reached the stopwatch. -/
inductive Entry
  | event (m : Measured)
  | forgotten (pair : MonitorPair)
  | cleared

def Entry.op : Entry → Op
  | .event m => if m.opening then .open_ m.key m.tick.now m.tick.order else .close m.key m.tick.now
  | .forgotten pair => .forget_pair pair
  | .cleared => .clear

structure Timed where
  world : World
  monitor_clock : Clock
  history : List Entry

abbrev Clocked := StateM Timed

variable {α β : Type}

def on_world (h : Handler α) : Clocked α :=
  modifyGet fun t => ((h.run t.world).1, { t with world := (h.run t.world).2 })

def tally (e : Entry) : Clocked Unit := modify fun t =>
  { t with monitor_clock := t.monitor_clock.apply e.op, history := t.history ++ [e] }

def forget : Option MonitorPair → Clocked Unit
  | none => pure ()
  | some pair => tally (.forgotten pair)

def pair_of (s : DebugSession) (id : StopId) : Option MonitorPair :=
  ((s.stop_points.get? id).bind StopPoint.monitor).map fun mon => (MonitorPair.of mon.kind).1

section Events

def monitor_of : EventKind → Option (ThreadId × ObjectId)
  | .monitor _ thread _ monitor => some (thread, monitor)
  | _ => none

/-- The traced monitor stop an event is timed for, with the thread and the monitor. -/
def timed_for (s : DebugSession) (e : Event) :
    Option (StopPoint × MonitorStop × ThreadId × ObjectId) := do
  let sp ← find_traced_request s e.request_id
  let mon ← sp.monitor
  let (thread, monitor) ← monitor_of e.details
  pure (sp, mon, thread, monitor)

def as_millis (d : ℕ) : ℕ := d / 1000000

def monitor_hit_is_recordable (min_duration_ms : Option ℕ) (span : MonitorSpan) : Bool :=
  match min_duration_ms, span with
  | none, _ => true
  | some _, .opened => false
  | some _, .closed none => false
  | some min, .closed (some d) => min ≤ as_millis d

/-- Run with this verdict on whether a monitor event is recordable. -/
def deciding (keep : Bool) (h : Handler α) : Handler α := do
  modify fun w => { w with answers := { w.answers with monitor_recordable := fun _ => keep } }
  h

/-- The pair is opened or closed before the decision whether to record the event. -/
def record_one_traced_event (e : Event) (tick : Tick) : Clocked (Option ThreadId) := do
  let t ← get
  match timed_for t.world.session e with
  | none => on_world (deciding true (Hits.record_one_traced_event e))
  | some (sp, mon, thread, monitor) =>
    let (span, clock) :=
      span_monitor_event t.monitor_clock mon.kind thread monitor tick.now tick.order
    let handled ← on_world (deciding (monitor_hit_is_recordable mon.min_duration_ms span)
      (Hits.record_one_traced_event e))
    modify fun t' => { t' with
      monitor_clock := clock
      history := t.history ++ [.event ⟨sp.id, e.request_id, mon.kind, mon.min_duration_ms, thread,
        monitor, tick, span,
        decide (t.world.session.traces.filed < t'.world.session.traces.filed)⟩] }
    pure handled

/-- The instants are counted from `n`. -/
def record_traced_events (ticks : ℕ → Tick) (n : ℕ) (handled : Option ThreadId) (all_ours : Bool) :
    List Event → Clocked (Option ThreadId × Bool)
  | [] => pure (handled, all_ours)
  | e :: rest => do
    match ← record_one_traced_event e (ticks n) with
    | some thread => record_traced_events ticks (n + 1) (some thread) all_ours rest
    | none => record_traced_events ticks (n + 1) handled false rest

def try_record_trace (es : EventSet) (ticks : ℕ → Tick) : Clocked Bool := do
  match ← record_traced_events ticks 0 none (!es.events.isEmpty) es.events with
  | (some thread, true) =>
    let _ ← on_world (resume_thread thread)
    pure true
  | _ => pure false

def listen (es : EventSet) (ticks : ℕ → Tick) : Clocked Unit := do
  if ← on_world (try_arm_deferred_breakpoints es) then pure ()
  else if ← try_record_trace es ticks then pure ()
  else on_world (store_reportable_event es)

end Events

section Calls

variable (id : StopId)

/-- The pairs that the replaced request had open are forgotten. -/
def rearm_stop_point : Clocked (Except Failure Unit) := do
  let pair := pair_of (← get).world.session id
  match ← on_world (Rearming.rearm_stop_point id) with
  | .error e => pure (.error e)
  | .ok () =>
    forget pair
    pure (.ok ())

theorem enabled_id (want : Bool) (set : PatternStopSet) :
    { set with enabled := want }.id = set.id := rfl

def toggle_pattern_family (set_id : StopId) (want : Bool) : Clocked (Except Failure Unit) := do
  match (← get).world.session.pattern_sets.get? set_id with
  | none => pure (.error (.not_found set_id))
  | some set =>
    set.members.forM fun member => do
      let _ ← if want then rearm_stop_point member else on_world (disable_stop_point member)
    on_world (if want then rewatch_family set_id set.class_pattern else unwatch_family set_id)
    on_world (edit fun s =>
      s.edit_pattern_set set_id (fun p => { p with enabled := want }) (enabled_id want))
    pure (.ok ())

def handle_toggle_stop_point (enabled : Option Bool) :
    Clocked (Except Failure Unit) := do
  match (← get).world.session.pattern_sets.get? id with
  | some set =>
    if enabled.getD (!set.enabled) = set.enabled then pure (.ok ())
    else toggle_pattern_family id (enabled.getD (!set.enabled))
  | none =>
    match enabled_state_of (← get).world.session id with
    | .error e => pure (.error e)
    | .ok current =>
      if enabled.getD (!current) = current then pure (.ok ())
      else if current then on_world (disable_stop_point id)
      else
        match ← on_world (check_instance_filter_still_live id) with
        | .error e => pure (.error e)
        | .ok () => rearm_stop_point id

def push_hit_count_to_the_wire (targets : List StopId) : Clocked Unit :=
  targets.forM fun t => do
    if is_armed (← get).world.session t then
      let _ ← on_world (disable_stop_point t)
      let _ ← rearm_stop_point t

def handle_update_stop_point (condition : FieldEdit String) (hit_count : FieldEdit ℕ) :
    Clocked (Except Failure Unit) := do
  if !condition.asked && !hit_count.asked then pure (.error (.nothing_to_update id))
  else
    match read_editable_stop_point (← get).world.session id with
    | .error e => pure (.error e)
    | .ok before =>
      if before.spent then pure (.error (.spent id))
      else if condition.asked && !before.supports_condition then
        pure (.error (.takes_no_condition id))
      else
        on_world (edit fun s => (id :: before.family_members).foldl
          (fun s m => apply_stop_point_edit s m condition hit_count) s)
        if hit_count.asked then
          push_hit_count_to_the_wire
            (if before.family_members.isEmpty then [id] else before.family_members)
        pure (.ok ())

/-- The monitor stop that a clear of this id clears: families and deferrals are looked up first. -/
def cleared_pair (s : DebugSession) (id : StopId) : Option MonitorPair :=
  if (s.pattern_sets.get? id).isSome || s.pending_breakpoints.any (fun p => p.bp_id = id) then none
  else pair_of s id

def handle_clear_stop_point : Clocked (Except Failure Unit) := do
  let pair := cleared_pair (← get).world.session id
  let reply ← on_world (Disarming.handle_clear_stop_point id)
  forget pair
  pure reply

def handle_panic : Clocked (Except JdwpError PanicReply) := do
  let reply ← on_world Resuming.handle_panic
  tally .cleared
  pure reply

/-- No other tool reaches the stopwatch. -/
def answer : Call → Clocked Unit
  | .clear_stop_point id => do let _ ← handle_clear_stop_point id
  | .toggle_stop_point id enabled => do let _ ← handle_toggle_stop_point id enabled
  | .update_stop_point id condition hit_count => do
    let _ ← handle_update_stop_point id condition hit_count
  | .panic => do let _ ← handle_panic
  | c => on_world c.run

end Calls

section Deeds

/-- A move, and the instants at which its composite's events are timed. -/
structure Deed where
  move : Move
  ticks : ℕ → Tick

def Timed.listen (t : Timed) (a : Answers) (ticks : ℕ → Tick) : Timed :=
  match t.world.queue with
  | [] => t
  | es :: rest =>
    ((TimedRuns.listen es ticks).run { t with world := { t.world with queue := rest }.begin a }).2

def Timed.fire (t : Timed) (es : EventSet) (thread : ThreadId) : Timed :=
  { t with world := World.fire t.world es thread }

def Deed.next (t : Timed) (d : Deed) : Timed :=
  match d.move with
  | .call c a => ((answer c).run { t with world := t.world.begin a }).2
  | .fire es thread => t.fire es thread
  | .listen a => t.listen a d.ticks
  | .hit es thread a => (t.fire es thread).listen a d.ticks

def Timed.start (threads : List ThreadId) (a : Answers) : Timed :=
  ⟨World.start threads a, .new, []⟩

def TimedStep (t t' : Timed) : Prop := ∃ d : Deed, d.move.Allowed t.world ∧ t' = d.next t

abbrev TimedRun : Timed → Timed → Prop := Relation.ReflTransGen TimedStep

end Deeds

end Programs

section Histories

/-- The stopwatch that a history makes. -/
def replay (history : List Entry) : Watch := MonitorClock.run (history.map Entry.op)

theorem replay_concat (history : List Entry) (e : Entry) :
    replay (history ++ [e]) = (replay history).step e.op := by
  unfold replay MonitorClock.run
  rw [List.map_append, List.foldl_append]
  rfl

/-- What an event is told is read off what reached the stopwatch before it, and decides whether
it is recorded. -/
structure Told (before : List Entry) (m : Measured) : Prop where
  span : m.span = (span_monitor_event (replay before).clock m.kind m.thread m.monitor m.tick.now
    m.tick.order).1
  recorded : m.recorded = monitor_hit_is_recordable m.min_duration_ms m.span

def AllTold (history : List Entry) : Prop :=
  ∀ before m after, history = before ++ .event m :: after → Told before m

/-- The stopwatch is what the history makes, and so is every event of it. -/
structure Replayed (t : Timed) : Prop where
  clock : t.monitor_clock = (replay t.history).clock
  told : AllTold t.history

structure Faithful (t : Timed) : Prop where
  unconditional : Unconditional t.world
  replayed : Replayed t

variable {α : Type}

/-- Timing an event is the operation that its entry stands for. -/
theorem span_clock (c : Clock) (m : Measured) :
    (span_monitor_event c m.kind m.thread m.monitor m.tick.now m.tick.order).2 =
      c.apply (Entry.op (.event m)) := by
  by_cases h : m.opening = true
  · have hpair : (MonitorPair.of m.kind).2 = true := h
    simp only [span_monitor_event, Entry.op, h, hpair, if_true]
    rfl
  · have hpair : ¬ (MonitorPair.of m.kind).2 = true := h
    simp only [span_monitor_event, Entry.op, h, hpair]
    rfl

theorem AllTold.concat {history : List Entry} (h : AllTold history) {e : Entry}
    (he : ∀ m, e = .event m → Told history m) : AllTold (history ++ [e]) := by
  intro before m after hsplit
  rcases List.eq_nil_or_concat after with rfl | ⟨rest, last, rfl⟩
  · obtain ⟨rfl, hlast⟩ := List.append_inj' hsplit rfl
    exact he m (List.singleton_inj.mp hlast)
  · rw [List.concat_eq_append, ← List.cons_append, ← List.append_assoc] at hsplit
    exact h before m rest (List.append_inj' hsplit rfl).1

theorem replayed_world (h : Handler α) : Preserves Replayed (on_world h) :=
  fun _ ht => ⟨ht.clock, ht.told⟩

theorem replayed_tally {e : Entry} (he : ∀ m, e ≠ .event m) : Preserves Replayed (tally e) := by
  refine fun t ht => ⟨?_, ht.told.concat fun m hm => absurd hm (he m)⟩
  change t.monitor_clock.apply e.op = (replay (t.history ++ [e])).clock
  rw [replay_concat, ht.clock]
  rfl

theorem replayed_forget (pair : Option MonitorPair) : Preserves Replayed (forget pair) := by
  cases pair with
  | none => exact Preserves.pure _
  | some p => exact replayed_tally fun _ => Entry.noConfusion

section Calls

variable {β : Type}

/-- The timed program answers what `h` answers and does to the session what `h` does, and the
stopwatch stays what the history makes. -/
structure Follows (c : Clocked α) (h : Handler α) : Prop where
  answer : ∀ t, (c.run t).1 = (h.run t.world).1
  world : ∀ t, (c.run t).2.world = (h.run t.world).2
  replayed : Preserves Replayed c

theorem Follows.on_world (h : Handler α) : Follows (on_world h) h :=
  ⟨fun _ => rfl, fun _ => rfl, replayed_world h⟩

theorem Follows.pure (a : α) : Follows (Pure.pure a) (Pure.pure a) :=
  ⟨fun _ => rfl, fun _ => rfl, Preserves.pure a⟩

theorem Follows.bind {c : Clocked α} {h : Handler α} {f : α → Clocked β} {g : α → Handler β}
    (hc : Follows c h) (hf : ∀ a, Follows (f a) (g a)) : Follows (c >>= f) (h >>= g) := by
  refine ⟨fun t => ?_, fun t => ?_, Preserves.bind hc.replayed fun a => (hf a).replayed⟩
  · have hnext := (hf (c.run t).1).answer (c.run t).2
    rw [hc.world, hc.answer] at hnext
    simp only [run_bind, hc.answer]
    exact hnext
  · have hnext := (hf (c.run t).1).world (c.run t).2
    rw [hc.world, hc.answer] at hnext
    simp only [run_bind, hc.answer]
    exact hnext

/-- What a timed program reads of the session is what `h` reads. -/
theorem Follows.get_bind {f : Timed → Clocked β} {g : World → Handler β}
    (hf : ∀ t, Follows (f t) (g t.world)) : Follows (get >>= f) (get >>= g) :=
  ⟨fun t => (hf t).answer t, fun t => (hf t).world t, Preserves.get_bind fun t _ => (hf t).replayed⟩

theorem forget_world (pair : Option MonitorPair) (t : Timed) :
    ((forget pair).run t).2.world = t.world := by
  cases pair <;> rfl

/-- Reaching the stopwatch afterwards is invisible in the session. -/
theorem Follows.aside (h : Handler α) {after : Clocked Unit}
    (hafter : ∀ t, (after.run t).2.world = t.world) (hreplayed : Preserves Replayed after) :
    Follows (TimedRuns.on_world h >>= fun reply => after >>= fun _ => Pure.pure reply) h :=
  ⟨fun _ => rfl, fun _ => hafter _, Preserves.bind (replayed_world h) fun _ =>
    Preserves.bind hreplayed fun _ => Preserves.pure _⟩

theorem Follows.forM {f : StopId → Clocked Unit} {g : StopId → Handler Unit}
    (h : ∀ id, Follows (f id) (g id)) (ids : List StopId) : Follows (ids.forM f) (ids.forM g) := by
  induction ids with
  | nil => exact Follows.pure _
  | cons id rest ih => exact Follows.bind (h id) fun _ => ih

theorem Follows.discard {c : Clocked α} {h : Handler α} (hc : Follows c h) :
    Follows (do let _ ← c) (do let _ ← h) := Follows.bind hc fun _ => Follows.pure _

variable (id : StopId)

theorem rearm_follows : Follows (rearm_stop_point id) (Rearming.rearm_stop_point id) := by
  have hafter : ∀ pair : Option MonitorPair, Follows
      (on_world (Rearming.rearm_stop_point id) >>= fun r => match r with
        | .error e => pure (.error e)
        | .ok () => forget pair >>= fun _ => pure (.ok ())) (Rearming.rearm_stop_point id) := by
    refine fun pair => ⟨fun t => ?_, fun t => ?_, Preserves.bind (replayed_world _) fun r => ?_⟩
    · simp only [run_bind]
      change _ = ((on_world (Rearming.rearm_stop_point id)).run t).1
      cases ((on_world (Rearming.rearm_stop_point id)).run t).1 <;> rfl
    · simp only [run_bind]
      cases ((on_world (Rearming.rearm_stop_point id)).run t).1 with
      | error e => rfl
      | ok _ => exact forget_world pair _
    · cases r with
      | error e => exact Preserves.pure _
      | ok _ => exact Preserves.bind (replayed_forget pair) fun _ => Preserves.pure _
  exact ⟨fun t => (hafter _).answer t, fun t => (hafter _).world t,
    Preserves.get_bind fun t _ => (hafter _).replayed⟩

theorem toggle_family_follows (set_id : StopId) (want : Bool) :
    Follows (toggle_pattern_family set_id want) (Rearming.toggle_pattern_family set_id want) := by
  refine Follows.get_bind fun t => ?_
  cases t.world.session.pattern_sets.get? set_id with
  | none => exact Follows.pure _
  | some set =>
    have hswitch : Follows
        (do on_world (edit fun s => s.edit_pattern_set set_id fun p => { p with enabled := want })
            pure (.ok ()) : Clocked (Except Failure Unit))
        (do edit fun s => s.edit_pattern_set set_id fun p => { p with enabled := want }
            pure (.ok ()) : Handler (Except Failure Unit)) :=
      Follows.bind (Follows.on_world _) fun _ => Follows.pure _
    refine Follows.bind (Follows.forM (fun member => ?_) _) fun _ => ?_
    · cases want with
      | true => exact Follows.discard (rearm_follows member)
      | false => exact Follows.discard (Follows.on_world _)
    · cases want with
      | true => exact Follows.bind (Follows.on_world _) fun _ => hswitch
      | false => exact Follows.bind (Follows.on_world _) fun _ => hswitch

theorem toggle_follows (enabled : Option Bool) :
    Follows (handle_toggle_stop_point id enabled)
      (Rearming.handle_toggle_stop_point id enabled) := by
  refine Follows.get_bind fun t => ?_
  cases t.world.session.pattern_sets.get? id with
  | some set =>
    dsimp only
    split
    · exact Follows.pure _
    · exact toggle_family_follows _ _
  | none =>
    refine Follows.get_bind fun t => ?_
    cases enabled_state_of t.world.session id with
    | error e => exact Follows.pure _
    | ok current =>
      dsimp only
      split
      · exact Follows.pure _
      · split
        · exact Follows.on_world _
        · refine Follows.bind (Follows.on_world _) fun r => ?_
          cases r with
          | error e => exact Follows.pure _
          | ok _ => exact rearm_follows id

theorem push_follows (targets : List StopId) :
    Follows (push_hit_count_to_the_wire targets)
      (Rearming.push_hit_count_to_the_wire targets) := by
  refine Follows.forM (fun id => Follows.get_bind fun t => ?_) targets
  split
  · exact Follows.bind (Follows.on_world _) fun _ => Follows.discard (rearm_follows id)
  · exact Follows.pure _

theorem update_follows (condition : FieldEdit String) (hit_count : FieldEdit ℕ) :
    Follows (handle_update_stop_point id condition hit_count)
      (Rearming.handle_update_stop_point id condition hit_count) := by
  unfold handle_update_stop_point Rearming.handle_update_stop_point
  split
  · exact Follows.pure _
  refine Follows.get_bind fun t => ?_
  cases read_editable_stop_point t.world.session id with
  | error e => exact Follows.pure _
  | ok before =>
    dsimp only
    split
    · exact Follows.pure _
    · split
      · exact Follows.pure _
      · refine Follows.bind (Follows.on_world _) fun _ => ?_
        split
        · exact Follows.bind (push_follows _) fun _ => Follows.pure _
        · exact Follows.pure _

theorem clear_follows :
    Follows (handle_clear_stop_point id) (Disarming.handle_clear_stop_point id) := by
  have hafter := fun pair : Option MonitorPair =>
    Follows.aside (Disarming.handle_clear_stop_point id) (forget_world pair) (replayed_forget pair)
  exact ⟨fun t => (hafter _).answer t, fun t => (hafter _).world t,
    Preserves.get_bind fun t _ => (hafter _).replayed⟩

theorem panic_follows : Follows handle_panic Resuming.handle_panic :=
  Follows.aside Resuming.handle_panic (fun _ => rfl) (replayed_tally fun _ => Entry.noConfusion)

/-- What a call does to the session does not depend on the stopwatch. -/
theorem answer_follows (c : Call) : Follows (answer c) c.run := by
  cases c with
  | clear_stop_point id => exact Follows.discard (clear_follows id)
  | toggle_stop_point id enabled => exact Follows.discard (toggle_follows id enabled)
  | update_stop_point id condition hit_count =>
    exact Follows.discard (update_follows id condition hit_count)
  | panic => exact Follows.discard panic_follows
  | _ => exact Follows.on_world _

theorem faithful_answer (c : Call) : Preserves Faithful (answer c) := by
  refine fun t ht => ⟨?_, (answer_follows c).replayed t ht.replayed⟩
  rw [(answer_follows c).world t]
  exact uncond_call c _ ht.unconditional

end Calls

section Composites

theorem faithful_world {h : Handler α} (hh : Preserves Unconditional h) :
    Preserves Faithful (on_world h) :=
  fun t ht => ⟨hh _ ht.unconditional, replayed_world h t ht.replayed⟩

theorem Faithful.move {t : Timed} (ht : Faithful t) {w : World} (hw : Unconditional w) :
    Faithful { t with world := w } := ⟨hw, ht.replayed.clock, ht.replayed.told⟩

theorem uncond_deciding (keep : Bool) {h : Handler α} (hh : Preserves Unconditional h) :
    Preserves Unconditional (deciding keep h) :=
  Preserves.bind (fun _ hw => hw) fun _ => hh

variable {sp : StopPoint} {mon : MonitorStop}

theorem timed_for_some {s : DebugSession} {e : Event} {thread : ThreadId} {monitor : ObjectId}
    (h : timed_for s e = some (sp, mon, thread, monitor)) :
    find_traced_request s e.request_id = some sp ∧ sp.monitor = some mon ∧
      ∃ loc, event_location e.details = some (thread, loc) := by
  unfold timed_for at h
  simp only [Option.bind_eq_bind, Option.bind_eq_some_iff] at h
  obtain ⟨sp', hfind, mon', hmon, ⟨thread', monitor'⟩, hof, heq⟩ := h
  cases heq
  refine ⟨hfind, hmon, ?_⟩
  cases hd : e.details <;> rw [hd] at hof <;> cases hof
  exact ⟨_, rfl⟩

theorem armed_on_monitor (h : sp.monitor = some mon) : sp.armed_on = .monitor mon := by
  unfold StopPoint.monitor at h
  split at h
  · rename_i heq
    rw [heq, Option.some.inj h]
  · cases h

/-- A hit on a monitor stop is filtered by its threshold alone. -/
theorem skips_monitor (a : Answers) (hmon : sp.monitor = some mon)
    (hcondition : sp.condition = none) (thread : ThreadId) (loc : Location) (details : EventKind) :
    skips a sp thread loc details = !a.monitor_recordable details := by
  have hfilter : method_filter sp = none := by
    unfold method_filter StopPoint.method_exit
    rw [armed_on_monitor hmon]
    rfl
  simp [skips, hfilter, method_name_matches, hmon, hcondition]

theorem recorded_iff_decided {w : World} (hw : Unconditional w) {e : Event} {thread : ThreadId}
    {monitor : ObjectId} (h : timed_for w.session e = some (sp, mon, thread, monitor)) (keep : Bool)
    :
    decide (w.session.traces.filed <
      ((deciding keep (Hits.record_one_traced_event e)).run w).2.session.traces.filed) = keep := by
  obtain ⟨hfind, hmon, loc, hloc⟩ := timed_for_some h
  have hcondition : sp.condition = none := by
    refine hw sp (List.mem_of_find?_eq_some hfind) ?_
    unfold StopPoint.kind
    rw [armed_on_monitor hmon]
    rfl
  let a : Answers := { w.answers with monitor_recordable := fun _ => keep }
  have hrun := record_found (w := { w with answers := a }) hfind hloc
  have htally : Keeps ring (if method_name_matches a (method_filter sp) loc then
      record_stop_point_hit e.request_id else record_discarded_exit e.request_id) :=
    Keeps.ite (ring_edit_owner _ _ _) (ring_edit_owner _ _ _)
  have hring := congrArg ring (congrArg Prod.snd hrun)
  rw [ring_file, skips_monitor a hmon hcondition, htally] at hring
  change decide (w.session.traces.filed < (ring
    ((Hits.record_one_traced_event e).run { w with answers := a }).2).1) = keep
  rw [hring]
  cases keep with
  | false => exact decide_eq_false (lt_irrefl _)
  | true =>
    refine decide_eq_true ?_
    have hfiled := (push_newest w.session.traces sp.id e.request_id thread
      (exception_instance e.details)).1
    exact (Nat.lt_succ_self _).trans_eq hfiled.symm

theorem faithful_event (e : Event) (tick : Tick) :
    Preserves Faithful (record_one_traced_event e tick) := by
  have hevent : ∀ keep, Preserves Unconditional (deciding keep (Hits.record_one_traced_event e)) :=
    fun keep => uncond_deciding keep (uncond_wanes (record_one_wanes e))
  intro t ht
  unfold record_one_traced_event
  simp only [run_bind, run_get]
  cases hfor : timed_for t.world.session e with
  | none => exact faithful_world (hevent true) t ht
  | some p =>
    obtain ⟨sp, mon, thread, monitor⟩ := p
    let spanned :=
      span_monitor_event t.monitor_clock mon.kind thread monitor tick.now tick.order
    let h := deciding (monitor_hit_is_recordable mon.min_duration_ms spanned.1)
      (Hits.record_one_traced_event e)
    let w := (h.run t.world).2
    let m : Measured := ⟨sp.id, e.request_id, mon.kind, mon.min_duration_ms, thread, monitor,
      tick, spanned.1, decide (t.world.session.traces.filed < w.session.traces.filed)⟩
    change Faithful ⟨w, spanned.2, t.history ++ [.event m]⟩
    refine ⟨hevent _ _ ht.unconditional, ?_, ht.replayed.told.concat fun m' hm => ?_⟩
    · change spanned.2 = (replay (t.history ++ [.event m])).clock
      rw [replay_concat, span_clock t.monitor_clock m, ht.replayed.clock]
      rfl
    · cases hm
      refine ⟨?_, recorded_iff_decided ht.unconditional hfor _⟩
      rw [← ht.replayed.clock]

theorem faithful_events (ticks : ℕ → Tick) (events : List Event) (n : ℕ) (handled : Option ThreadId)
    (all_ours : Bool) :
    Preserves Faithful (record_traced_events ticks n handled all_ours events) := by
  induction events generalizing n handled all_ours with
  | nil => exact Preserves.pure _
  | cons e rest ih =>
    refine Preserves.bind (faithful_event e (ticks n)) fun r => ?_
    cases r with
    | none => exact ih _ _ _
    | some thread => exact ih _ _ _

theorem faithful_listen (es : EventSet) (ticks : ℕ → Tick) :
    Preserves Faithful (listen es ticks) := by
  refine Preserves.bind (faithful_world (uncond_class_load es)) fun armed => ?_
  split
  · exact Preserves.pure _
  refine Preserves.bind (Preserves.bind (faithful_events ticks _ _ _ _) fun r => ?_) fun done => ?_
  · split
    · exact Preserves.bind (faithful_world (uncond_talks (perform_talks _ _))) fun _ =>
        Preserves.pure _
    · exact Preserves.pure _
  · split
    · exact Preserves.pure _
    · exact faithful_world (uncond_wanes (store_wanes es))

end Composites

section Runs

variable {t : Timed}

theorem faithful_timed_listen (ht : Faithful t) (a : Answers) (ticks : ℕ → Tick) :
    Faithful (t.listen a ticks) := by
  unfold Timed.listen
  split
  · exact ht
  · exact faithful_listen _ ticks _ (ht.move ht.unconditional)

theorem faithful_next (ht : Faithful t) (d : Deed) : Faithful (d.next t) := by
  unfold Deed.next
  cases d.move with
  | call c a => exact faithful_answer c _ (ht.move ht.unconditional)
  | fire es thread => exact ht.move ht.unconditional
  | listen a => exact faithful_timed_listen ht a d.ticks
  | hit es thread a =>
    exact faithful_timed_listen (t := t.fire es thread) (ht.move ht.unconditional) a d.ticks

theorem faithful_start (threads : List ThreadId) (a : Answers) :
    Faithful (Timed.start threads a) := by
  refine ⟨uncond_start threads a, rfl, fun before m after h => ?_⟩
  exact absurd h (by simp [Timed.start])

theorem faithful_run {t' : Timed} (hrun : TimedRun t t') (ht : Faithful t) : Faithful t' := by
  induction hrun with
  | refl => exact ht
  | tail _ hlast ih =>
    obtain ⟨d, -, rfl⟩ := hlast
    exact faithful_next ih d

end Runs

end Histories

end JavaDebug.TimedRuns
