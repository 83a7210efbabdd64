import JavaDebug.SetArming

/-!
Where the entries of a set are armed. Each is armed in the session that its own tool
found: the one it names, else the one that the call names, which is the session the
call resolved at its start. An entry whose tool finds none is refused and armed
nowhere. Where nothing is named the tool finds whichever session is current.
-/
namespace JavaDebug.ArmedSets

open SessionCalls SetTexts SetArming

section Entries

theorem as_object_some {v : Value} {o : Map} (h : v.as_object = some o) : v = .object o := by
  cases v with
  | object m => exact congrArg Value.object (Option.some.inj h)
  | null | bool b | number n | string s | array items => cases h

theorem parse_entry_object {i : ℕ} {raw : Value} {e : SetEntry} (h : parse_entry i raw = .ok e) :
    ∃ o, e.args = .object o := by
  unfold parse_entry at h
  split at h
  · cases h
  split at h
  · cases h
  split at h
  · cases h
  simp only at h
  split at h
  · cases h
  · rename_i o hargs
    cases h
    exact ⟨o, as_object_some hargs⟩

theorem parse_entries_objects {raws : List Value} {i : ℕ} {entries : List SetEntry}
    (h : parse_entries i raws = .ok entries) : ∀ e ∈ entries, ∃ o, e.args = .object o := by
  induction raws generalizing i entries with
  | nil =>
    cases h
    intro e he
    cases he
  | cons raw rest ih =>
    unfold parse_entries at h
    cases hentry : parse_entry i raw with
    | error why => simp [hentry] at h
    | ok entry =>
      cases hrest : parse_entries (i + 1) rest with
      | error why => simp [hentry, hrest] at h
      | ok out =>
        simp only [hentry, hrest, Except.ok.injEq] at h
        intro e he
        rw [← h] at he
        rcases List.mem_cons.mp he with rfl | he
        · exact parse_entry_object hentry
        · exact ih hrest e he

theorem parse_objects {serde : SerdeJson} {raw : String} {entries : List SetEntry}
    (h : parse serde raw = .ok entries) : ∀ e ∈ entries, ∃ o, e.args = .object o := by
  unfold parse at h
  simp only at h
  split at h
  · cases h
  split at h
  · cases h
  rename_i root _
  unfold parse_set at h
  split at h
  · cases h
  split at h
  · cases h
  split at h
  · cases h
  split at h
  · cases h
  split at h
  · cases h
  · cases h
  · rename_i hentries
    cases h
    exact parse_entries_objects hentries

theorem get_route (o : Map) (session_id : Option Value) :
    get (route_to_session (.object o) session_id) "session_id" =
      (get (.object o) "session_id").or session_id := by
  cases session_id with
  | none => simp [route_to_session]
  | some sid =>
    have hget : get (.object o) "session_id" = Map.get "session_id" o := rfl
    rw [hget, route_to_session]
    cases h : Map.get "session_id" o with
    | none =>
      rw [if_neg (by simp)]
      exact (Map.get_insert "session_id" "session_id" sid o).trans (if_pos rfl)
    | some own =>
      rw [if_pos (by simp)]
      exact h

end Entries

section Runs

variable (names : Names) (serde : SerdeJson) (sent : Sent)

def entries : List SetEntry := (sent.set serde).toOption.getD []

/-- What the tool of an entry finds when the map and the pointer are these. -/
def look (e : SetEntry) (m : SessionManager) : Option SessionId :=
  resolve_session names m (get (route_to_session e.args sent.session_id) "session_id")

/-- The tool of entry `i` found the session. -/
def Looked (a : ArmCall) (i : ℕ) (session : SessionId) : Prop :=
  ∃ e m, (entries serde sent)[i]? = some e ∧ e.enabled = true ∧ (i, m) ∈ a.lookups ∧
    look names sent e m = some session

/-- The call found this session at its start. -/
def Began (a : ArmCall) : Prop :=
  ∃ m session, a.session = some session ∧ resolve_session names m sent.session_id = some session

/-- What is known while the call is at a stage. -/
def At (a : ArmCall) : ArmStage → Prop
  | .start => a.lookups = [] ∧ a.armings = []
  | .found _ => Began names sent a ∧ a.lookups = [] ∧ a.armings = []
  | .entry i => Began names sent a ∧ ∀ l ∈ a.lookups, l.1 < i
  | .entry_found i session | .entry_guarded i session =>
    Began names sent a ∧ Looked names serde sent a i session ∧ ∀ l ∈ a.lookups, l.1 < i ∨
      l.1 = i ∧ ∀ e, (entries serde sent)[i]? = some e → look names sent e l.2 ≠ none
  | .replied | .refused _ => True

structure Kept (a : ArmCall) : Prop where
  here : At names serde sent a a.stage
  armed : ∀ b ∈ a.armings, Began names sent a ∧ Looked names serde sent a b.entry b.session
  missed : ∀ l ∈ a.lookups, ∀ e, (entries serde sent)[l.1]? = some e →
    look names sent e l.2 = none →
      (l.1, .refused NO_SESSION_REFUSAL) ∈ a.outcomes ∧ ∀ b ∈ a.armings, b.entry ≠ l.1
  answered : ∀ r ∈ a.outcomes, ∀ o : Outcome, r.2 = o.row →
    ∃ b ∈ a.armings, b.entry = r.1 ∧ b.outcome = o

variable {names serde sent} {a : ArmCall} {i : ℕ} {session : SessionId}

theorem kept_new : Kept names serde sent ArmCall.new :=
  ⟨⟨rfl, rfl⟩, fun _ h => absurd h List.not_mem_nil, fun _ h => absurd h List.not_mem_nil,
    fun _ h => absurd h List.not_mem_nil⟩

theorem Kept.row (h : Kept names serde sent a) (hbegan : Began names sent a)
    (hbefore : ∀ l ∈ a.lookups, l.1 < i + 1) {outcome : ArmOutcome}
    (hnot : ∀ o : Outcome, outcome ≠ o.row) : Kept names serde sent (a.row i outcome) := by
  refine ⟨⟨hbegan, hbefore⟩, h.armed, fun l hl e he hmissed => ?_, fun r hr o ho => ?_⟩
  · obtain ⟨hrow, hnone⟩ := h.missed l hl e he hmissed
    exact ⟨List.mem_append_left _ hrow, hnone⟩
  · rcases List.mem_append.mp hr with hr | hr
    · exact h.answered r hr o ho
    · rw [List.mem_singleton.mp hr] at ho
      exact absurd ho (hnot o)

theorem Kept.counted (h : Kept names serde sent a) (e : SetEntry) :
    Kept names serde sent (a.counted e) ∧ (a.counted e).stage = a.stage ∧
      (a.counted e).lookups = a.lookups ∧ (a.counted e).session = a.session := by
  unfold ArmCall.counted
  split
  · refine ⟨⟨?_, h.armed, h.missed, h.answered⟩, rfl, rfl, rfl⟩
    have hhere := h.here
    revert hhere
    cases a.stage <;> exact id
  · exact ⟨h, rfl, rfl, rfl⟩

theorem Looked.append {j : ℕ} (h : Looked names serde sent a j session) (l : ℕ × SessionManager) :
    Looked names serde sent { a with lookups := a.lookups ++ [l] } j session := by
  obtain ⟨e, m, he, henabled, hlookup, hlook⟩ := h
  exact ⟨e, m, he, henabled, List.mem_append_left _ hlookup, hlook⟩

theorem Kept.not_armed (h : Kept names serde sent a) (hbefore : ∀ l ∈ a.lookups, l.1 < i) :
    ∀ b ∈ a.armings, b.entry ≠ i := by
  intro b hb
  obtain ⟨_, e, m, _, _, hlookup, _⟩ := h.armed b hb
  exact Nat.ne_of_lt (hbefore _ hlookup)

theorem Kept.misses (h : Kept names serde sent a) (hbegan : Began names sent a)
    (hbefore : ∀ l ∈ a.lookups, l.1 < i) (m : SessionManager) :
    Kept names serde sent (({ a with lookups := a.lookups ++ [(i, m)] } : ArmCall).row i
      (.refused NO_SESSION_REFUSAL)) := by
  refine ⟨⟨hbegan, fun l hl => ?_⟩, fun b hb => ?_, fun l hl e he hmissed => ?_,
    fun r hr o ho => ?_⟩
  · rcases List.mem_append.mp hl with hl | hl
    · exact Nat.lt_succ_of_lt (hbefore l hl)
    · rw [List.mem_singleton.mp hl]
      exact Nat.lt_succ_self i
  · exact ⟨hbegan, (h.armed b hb).2.append (i, m)⟩
  · rcases List.mem_append.mp hl with hl | hl
    · obtain ⟨hrow, hnone⟩ := h.missed l hl e he hmissed
      exact ⟨List.mem_append_left _ hrow, hnone⟩
    · rw [List.mem_singleton.mp hl]
      exact ⟨List.mem_append_right _ List.mem_cons_self, h.not_armed hbefore⟩
  · rcases List.mem_append.mp hr with hr | hr
    · exact h.answered r hr o ho
    · rw [List.mem_singleton.mp hr] at ho
      cases o <;> cases ho

variable {e : SetEntry} {m : SessionManager}

theorem Kept.finds (h : Kept names serde sent a) (hbegan : Began names sent a)
    (hbefore : ∀ l ∈ a.lookups, l.1 < i) (he : (entries serde sent)[i]? = some e)
    (henabled : e.enabled = true) (hlook : look names sent e m = some session) :
    Kept names serde sent { a with
      lookups := a.lookups ++ [(i, m)]
      stage := .entry_found i session } := by
  have hsome : ∀ e', (entries serde sent)[i]? = some e' → look names sent e' m ≠ none := by
    intro e' he'
    rw [he] at he'
    rw [← Option.some.inj he', hlook]
    exact Option.some_ne_none _
  refine ⟨⟨hbegan, ⟨e, m, he, henabled, ?_, hlook⟩, fun l hl => ?_⟩, fun b hb => ?_,
    fun l hl e' he' hmissed => ?_, h.answered⟩
  · exact List.mem_append_right _ List.mem_cons_self
  · rcases List.mem_append.mp hl with hl | hl
    · exact Or.inl (hbefore l hl)
    · rw [List.mem_singleton.mp hl]
      exact Or.inr ⟨rfl, hsome⟩
  · exact ⟨hbegan, (h.armed b hb).2.append (i, m)⟩
  · rcases List.mem_append.mp hl with hl | hl
    · exact h.missed l hl e' he' hmissed
    · rw [List.mem_singleton.mp hl] at he' hmissed
      exact absurd hmissed (hsome e' he')

theorem Kept.dispatch (h : Kept names serde sent a) (hbegan : Began names sent a)
    (hbefore : ∀ l ∈ a.lookups, l.1 < i) (he : (entries serde sent)[i]? = some e)
    (henabled : e.enabled = true) (m : SessionManager) (x : Found) :
    Kept names serde sent (a.dispatch_armable names sent.session_id m x i e) := by
  have hless : ∀ l ∈ a.lookups, l.1 < i + 1 := fun l hl => Nat.lt_succ_of_lt (hbefore l hl)
  have hrefused (why : String) : ∀ o : Outcome, ArmOutcome.refused why ≠ o.row := by
    intro o
    cases o <;> exact ArmOutcome.noConfusion
  unfold ArmCall.dispatch_armable
  split
  · split
    · exact h.row hbegan hless (hrefused _)
    · simp only
      split
      · exact h.misses hbegan hbefore m
      · rename_i hlook
        exact h.finds hbegan hbefore he henabled hlook
  · exact h.row hbegan hless (hrefused _)

theorem Kept.arms (h : Kept names serde sent a) (hstage : a.stage = .entry_guarded i session)
    (outcome : Outcome) :
    Kept names serde sent (({ a with
      armings := a.armings ++ [Arming.mk i session outcome] } : ArmCall).row i outcome.row) := by
  have hhere := h.here
  rw [hstage] at hhere
  obtain ⟨hbegan, hlooked, hbefore⟩ := hhere
  refine ⟨⟨hbegan, fun l hl => ?_⟩, fun b hb => ?_, fun l hl e he hmissed => ?_,
    fun r hr o ho => ?_⟩
  · rcases hbefore l hl with hl | ⟨hl, _⟩ <;> omega
  · rcases List.mem_append.mp hb with hb | hb
    · exact h.armed b hb
    · rw [List.mem_singleton.mp hb]
      exact ⟨hbegan, hlooked⟩
  · obtain ⟨hrow, hnone⟩ := h.missed l hl e he hmissed
    refine ⟨List.mem_append_left _ hrow, fun b hb => ?_⟩
    rcases List.mem_append.mp hb with hb | hb
    · exact hnone b hb
    · rw [List.mem_singleton.mp hb]
      rintro (rfl : i = l.1)
      rcases hbefore l hl with hlt | ⟨_, hsome⟩
      · omega
      · exact hsome e he hmissed
  · rcases List.mem_append.mp hr with hr | hr
    · obtain ⟨b, hb, hentry, houtcome⟩ := h.answered r hr o ho
      exact ⟨b, List.mem_append_left _ hb, hentry, houtcome⟩
    · rw [List.mem_singleton.mp hr] at ho ⊢
      refine ⟨⟨i, session, outcome⟩, List.mem_append_right _ List.mem_cons_self, rfl, ?_⟩
      cases outcome <;> cases o <;> first | rfl | cases ho

theorem kept_advance (h : Kept names serde sent a) (m : SessionManager) (x : Found) :
    Kept names serde sent (a.advance names (sent.set serde) sent.session_id m x) := by
  have hrefused (why : String) : ∀ o : Outcome, ArmOutcome.refused why ≠ o.row := by
    intro o
    cases o <;> exact ArmOutcome.noConfusion
  have hhere := h.here
  unfold ArmCall.advance
  cases hstage : a.stage with
  | start =>
    rw [hstage] at hhere
    simp only
    split
    · exact ⟨trivial, h.armed, h.missed, h.answered⟩
    split
    · exact ⟨trivial, h.armed, h.missed, h.answered⟩
    · rename_i session hfound
      refine ⟨⟨⟨m, session, rfl, hfound⟩, hhere.1, hhere.2⟩, fun b hb => ?_, h.missed, h.answered⟩
      rw [hhere.2] at hb
      cases hb
  | found session =>
    rw [hstage] at hhere
    simp only
    split
    · exact ⟨trivial, h.armed, h.missed, h.answered⟩
    · refine ⟨⟨hhere.1, fun l hl => ?_⟩, h.armed, h.missed, h.answered⟩
      rw [hhere.2.1] at hl
      cases hl
  | entry i =>
    rw [hstage] at hhere
    simp only
    split
    · exact ⟨trivial, h.armed, h.missed, h.answered⟩
    · rename_i e he
      split
      · rename_i henabled
        obtain ⟨hkept, _, hlookups, hsession⟩ := h.counted e
        refine hkept.dispatch ?_ ?_ he henabled m x
        · rw [Began, hsession]
          exact hhere.1
        · rw [hlookups]
          exact hhere.2
      · refine h.row hhere.1 (fun l hl => Nat.lt_succ_of_lt (hhere.2 l hl)) fun o => ?_
        cases o <;> exact ArmOutcome.noConfusion
  | entry_found i session =>
    rw [hstage] at hhere
    obtain ⟨hbegan, hlooked, hbefore⟩ := hhere
    simp only
    split
    · refine h.row hbegan (fun l hl => ?_) (hrefused _)
      rcases hbefore l hl with hl | ⟨hl, _⟩ <;> omega
    · exact ⟨⟨hbegan, hlooked, hbefore⟩, h.armed, h.missed, h.answered⟩
  | entry_guarded i session =>
    rw [hstage] at hhere
    obtain ⟨hbegan, hlooked, hbefore⟩ := hhere
    simp only
    split
    · refine h.row hbegan (fun l hl => ?_) (hrefused _)
      rcases hbefore l hl with hl | ⟨hl, _⟩ <;> omega
    · exact h.arms hstage _
  | replied | refused why => exact h

theorem kept_run (turns : List Turn) {w : World} (h : Kept names serde sent w.arm) :
    Kept names serde sent (turns.foldl (step names serde sent) w).arm := by
  induction turns generalizing w with
  | nil => exact h
  | cons turn turns ih =>
    cases turn with
    | session c x => exact ih h
    | arm x => exact ih (kept_advance h w.server.manager x)

theorem entry_object (he : (entries serde sent)[i]? = some e) : ∃ o, e.args = .object o := by
  have hmem : e ∈ entries serde sent := List.mem_of_getElem? he
  unfold entries Sent.set at hmem
  cases hargs : sent.args with
  | error why =>
    rw [hargs] at hmem
    cases hmem
  | ok raw =>
    rw [hargs] at hmem
    change e ∈ (parse serde raw).toOption.getD [] at hmem
    cases hparse : parse serde raw with
    | error why =>
      rw [hparse] at hmem
      cases hmem
    | ok out =>
      rw [hparse] at hmem
      exact parse_objects hparse e hmem

theorem look_eq (he : (entries serde sent)[i]? = some e) (m : SessionManager) :
    look names sent e m =
      resolve_session names m ((get e.args "session_id").or sent.session_id) := by
  obtain ⟨o, ho⟩ := entry_object he
  rw [look, ho, get_route]

theorem found_same {id : SessionId} (h : m.get_session_by_id id = some session) : id = session := by
  rw [SessionManager.get_session_by_id] at h
  split at h
  · exact Option.some.inj h
  · cases h

theorem resolve_named {session_id : Option Value} {sid : String}
    (hsid : session_id.bind Value.as_str = some sid)
    (h : resolve_session names m session_id = some session) : names sid = some session := by
  rw [resolve_session, hsid] at h
  obtain ⟨id, hid, hget⟩ := Option.bind_eq_some_iff.mp h
  rw [hid, found_same hget]

theorem resolve_current {session_id : Option Value} (hsid : session_id.bind Value.as_str = none)
    (h : resolve_session names m session_id = some session) : m.current_session = some session := by
  rw [resolve_session, hsid] at h
  obtain ⟨id, hid, hget⟩ := Option.bind_eq_some_iff.mp h
  rw [hid, found_same hget]

/-- An entry is armed in the session it names, else in the one the call names and resolved at its
start, else in the current one. An entry whose session is gone is refused and armed nowhere. -/
theorem entries_armed_where_routed (names : Names) (serde : SerdeJson) (sent : Sent)
    (turns : List Turn) :
    (∀ b ∈ (run names serde sent turns).arm.armings, ∃ e m,
      (entries serde sent)[b.entry]? = some e ∧
      (b.entry, m) ∈ (run names serde sent turns).arm.lookups ∧
      (∀ sid, (get e.args "session_id").bind Value.as_str = some sid →
        names sid = some b.session) ∧
      (get e.args "session_id" = none → ∀ sid, sent.session_id.bind Value.as_str = some sid →
        (run names serde sent turns).arm.session = some b.session) ∧
      (((get e.args "session_id").or sent.session_id).bind Value.as_str = none →
        m.current_session = (run names serde sent turns).arm.session →
          (run names serde sent turns).arm.session = some b.session)) ∧
    (∀ r ∈ (run names serde sent turns).arm.outcomes, ∀ o : Outcome, r.2 = o.row →
      ∃ b ∈ (run names serde sent turns).arm.armings, b.entry = r.1 ∧ b.outcome = o) ∧
    ∀ l ∈ (run names serde sent turns).arm.lookups, ∀ e, (entries serde sent)[l.1]? = some e →
      resolve_session names l.2 ((get e.args "session_id").or sent.session_id) = none →
        (l.1, .refused NO_SESSION_REFUSAL) ∈ (run names serde sent turns).arm.outcomes ∧
          ∀ b ∈ (run names serde sent turns).arm.armings, b.entry ≠ l.1 := by
  have h : Kept names serde sent (run names serde sent turns).arm := kept_run turns kept_new
  refine ⟨fun b hb => ?_, h.answered, fun l hl e he hmissed => ?_⟩
  · obtain ⟨⟨m₀, start, hstart, hbegan⟩, e, m, he, _, hlookup, hlook⟩ := h.armed b hb
    rw [look_eq he] at hlook
    refine ⟨e, m, he, hlookup, fun sid hsid => ?_, fun hown sid hsid => ?_,
      fun hfree hcurrent => ?_⟩
    · obtain ⟨own, hown, _⟩ := Option.bind_eq_some_iff.mp hsid
      refine resolve_named ?_ hlook
      rw [hown] at hsid ⊢
      exact hsid
    · rw [hown, Option.none_or] at hlook
      rw [hstart, ← resolve_named hsid hbegan, resolve_named hsid hlook]
    · rw [← hcurrent]
      exact resolve_current hfree hlook
  · rw [← look_eq he] at hmissed
    exact h.missed l hl e he hmissed

end Runs

section Splits

def seed : SessionSeed := ⟨false, [], [], [], none, none⟩

/-- Two attaches and a switch back to the first session. -/
def opened_twice : ℕ → SessionCalls.Request
  | 0 => .attach "localhost:8180" seed none
  | 1 => .attach "localhost:8280" seed none
  | 2 => .set_current_session (some ⟨7, 1⟩)
  | _ => .disconnect none

def id_texts : Names := fun sid =>
  if sid = "session_71" then some ⟨7, 1⟩ else if sid = "session_72" then some ⟨7, 2⟩ else none

def monitor_entry (args : Map) : Value :=
  .object [("args", .object args), ("tool", .string "debug.set_monitor_stop")]

def reads (entries : List Value) : SerdeJson :=
  ⟨fun _ => none, fun _ => .ok (.object [("entries", .array entries),
    ("jdwp_mcp_stop_point_set", .nat 1)])⟩

/-- One entry names the first session, and then none does. -/
def deliberate : String :=
  "\x7b\"entries\":[\x7b\"args\":\x7b\"session_id\":\"session_71\"\x7d," ++
  "\"tool\":\"debug.set_monitor_stop\"\x7d],\"jdwp_mcp_stop_point_set\":1\x7d"

def plain : String :=
  "\x7b\"entries\":[\x7b\"args\":\x7b\x7d,\"tool\":\"debug.set_monitor_stop\"\x7d," ++
  "\x7b\"args\":\x7b\x7d,\"tool\":\"debug.set_monitor_stop\"\x7d]," ++
  "\"jdwp_mcp_stop_point_set\":1\x7d"

def session_turns (c n : ℕ) : List Turn := List.replicate n (.session c ⟨0, 7, true, false⟩)

def arm_turns (n : ℕ) : List Turn := List.replicate n (.arm ⟨.ok (), false, .ok .armed⟩)

def OneSession (a : ArmCall) : Prop := ∀ b ∈ a.armings, a.session = some b.session

/-- An entry that names another session is armed there. A switch between two entries that name
none has them armed in two sessions. -/
theorem set_over_two_sessions :
    ¬OneSession (run id_texts (reads [monitor_entry [("session_id", .string "session_71")]])
      ⟨opened_twice, .ok deliberate, some (.string "session_72")⟩
      (session_turns 0 6 ++ session_turns 1 6 ++ arm_turns 5)).arm ∧
    ¬OneSession (run id_texts (reads [monitor_entry [], monitor_entry []])
      ⟨opened_twice, .ok plain, none⟩
      (session_turns 0 6 ++ session_turns 1 6 ++ arm_turns 5 ++ session_turns 2 2 ++
        arm_turns 3)).arm := by
  have hone : ∀ a : ArmCall, (a.armings.all fun b => decide (a.session = some b.session)) = false →
      ¬OneSession a := by
    intro a h hall
    rw [List.all_eq_true.mpr fun b hb => decide_eq_true (hall b hb)] at h
    cases h
  exact ⟨hone _ (by decide +kernel), hone _ (by decide +kernel)⟩

end Splits

end JavaDebug.ArmedSets
