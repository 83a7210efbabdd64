import JavaDebug.ScopedRequests

/-!
Whether the thread and the object a caller names are the ones a stop point is
narrowed to, and the one thread a tool acts on. A text that is read reaches
every request, however late it is armed; a `thread_id` that cannot be read is
taken for an absent one by all tools but the two that hold and release a thread.
-/
namespace JavaDebug.CallerScope

open Jdwp StopPoints Session Wire Arming
open Disarming Resuming StateProgram Runs
open Ownership
open Waning Addressing ScopedRequests

/-- The thread that a text asks for: none without a text, else the one it is the handle of. -/
def AsksFor (raw : Option String) (t : Option ThreadId) : Prop :=
  t = parse_thread_id raw ∧ (raw.isSome → t.isSome)

/-- The modifiers that the two texts ask for. -/
def Denotes (texts : Texts) (s : Scope) : Prop :=
  AsksFor texts.thread_id s.thread ∧ parse_instance_filter texts.instance_id = .ok s.instance_

/-- The text is absent, or a thread id. -/
def Readable (raw : Option String) : Prop := raw.isSome → (parse_thread_id raw).isSome

/-- The id was handed out between `w0` and `w1`, or to a member, by `w2`, of a family that was. -/
def Descends (w0 w1 w2 : World) (id : StopId) : Prop :=
  (w0.session.stop_seq < id.seq ∧ id.seq ≤ w1.session.stop_seq) ∨
  ∃ set ∈ w2.session.pattern_sets.rows, w0.session.stop_seq < set.id.seq ∧
    set.id.seq ≤ w1.session.stop_seq ∧ id ∈ set.members

/-- A call that arms the stop point or family under `id` anew. -/
def Renewal (id : StopId) (c : Call) : Prop :=
  (∃ enabled, c = .toggle_stop_point id enabled) ∨
  ∃ condition hit_count, c = .update_stop_point id condition hit_count

def SendsOnly (s : Scope) (w : World) : Prop :=
  ∀ k p f, Command.set k p f ∈ w.sent → ¬ Lasting k.code → filter_scope f = s

/-- Of a call that led from `w0` to `w1`: it sent requests of scope `s` only; wherever a run leads,
the live requests of the stop points it defined have that scope; and so have all requests sent to
arm those again. -/
structure Reaches (s : Scope) (w0 w1 : World) : Prop where
  sent : SendsOnly s w1
  armed : ∀ w2, Run (fun _ _ => True) w1 w2 → ∀ sp ∈ w2.session.stop_points.rows,
    Descends w0 w1 w2 sp.id → ∀ q ∈ w2.jvm.requests, q.handle ∈ hit_handles sp →
      filter_scope q.filters = s
  renewed : ∀ w2, Run (fun _ _ => True) w1 w2 → ∀ id, Descends w0 w1 w2 id →
    ∀ c, Renewal id c → ∀ a, SendsOnly s ((Move.call c a).next w2)

theorem descends_scope {φ : ℕ → Scope} {b : ℕ} {S : Scope → Prop} {s : Scope} {w0 w1 w2 : World}
    (h : Scoped φ b S [] unscoped w2) (hφ : ∀ n, w0.session.stop_seq < n →
      n ≤ w1.session.stop_seq → φ n = s) {id : StopId} (hid : Descends w0 w1 w2 id) :
    φ id.seq = s := by
  rcases hid with ⟨hlo, hhi⟩ | ⟨set, hset, hlo, hhi, hm⟩
  · exact hφ _ hlo hhi
  · obtain ⟨hunder, hmembers⟩ := h.families set hset
    rw [(hmembers _ hm).2, ← hunder.2]
    exact hφ _ hlo hhi

theorem arming_reaches {threads : List ThreadId} {a0 a : Answers} {w0 : World}
    (hrun : Run (fun _ _ => True) (World.start threads a0) w0) (t : Target) {o : StopOptions}
    (hmon : t.kind = .monitor → o.instance_filter = none) :
    Reaches (options_scope o) w0 ((Move.call (t.call o) a).next w0) := by
  obtain ⟨φ, -, hs⟩ := settled_run hrun (settled_start (fun _ => unscoped) threads a0)
  have hforeseen := (hs.foresee (options_scope o)).begin a fun s => s = options_scope o
  have hcalled : Scoped (foreseen φ w0.session.stop_seq (options_scope o)) w0.session.stop_seq
      (fun s => s = options_scope o) [] unscoped ((Move.call (t.call o) a).next w0) :=
    (scoped_arming (S := fun s => s = options_scope o) t rfl rfl
      (fun n hn => foreseen_new (φ := φ) _ hn) hmon _ hforeseen.empty).empty
  have hlater : ∀ w2, Run (fun _ _ => True) ((Move.call (t.call o) a).next w0) w2 →
      ∃ φ', (∀ n, w0.session.stop_seq < n →
        n ≤ ((Move.call (t.call o) a).next w0).session.stop_seq → φ' n = options_scope o) ∧
        Scoped φ' 0 anything [] unscoped w2 := by
    intro w2 hrun2
    obtain ⟨φ', hagree, h2⟩ := settled_run hrun2 ⟨_, fun _ _ => rfl, hcalled.raise.wanes
      (Wanes.of_shelf rfl) fun _ _ _ _ _ => trivial⟩
    refine ⟨φ', fun n hlo hhi => ?_, h2.lower (Nat.zero_le _)⟩
    rw [hagree n hhi]
    exact foreseen_new _ hlo
  refine ⟨hcalled.sent, fun w2 hrun2 sp hsp hid q hq hown => ?_, fun w2 hrun2 id hid c hc a' => ?_⟩
  · obtain ⟨φ', hφ', h2⟩ := hlater w2 hrun2
    obtain ⟨hunder, hcarry, -⟩ := h2.stop_points sp hsp
    obtain ⟨r, hr, hhandle⟩ := List.mem_map.mp hown
    have hqr : q.id = r := (congrArg Prod.snd hhandle).symm
    rw [(hcarry r hr).2 q hq hqr, ← hunder.2]
    exact descends_scope h2 hφ' hid
  · obtain ⟨φ', hφ', h2⟩ := hlater w2 hrun2
    have hown := descends_scope h2 hφ' hid
    have hbegun := h2.begin a' fun s => s = options_scope o
    rcases hc with ⟨enabled, rfl⟩ | ⟨condition, hit_count, rfl⟩
    · exact (scoped_toggle id enabled hown _ hbegun).sent
    · exact (scoped_update id condition hit_count hown _ hbegun).sent

section Acting

/-- What a session and its debuggee contribute to the choice of a thread. -/
def surroundings (w : World) (get_all_threads : Except JdwpError (List ThreadId)) : Surroundings :=
  ⟨w.session.last_thread, w.session.suspensions.threads.rows.map ThreadSuspend.tid,
    get_all_threads⟩

variable (tool : ThreadTool)

/-- The calls of the tools that step, hold or release a thread, with the text still to be read. -/
def thread_call (thread_id : Option String) (depth : ℕ) (exclude only : List String) :
    Except Refusal (Option Call) :=
  match tool, thread_id with
  | .step, raw => .ok (some (.step (parse_thread_id raw) depth exclude only))
  | .suspend_thread, some raw => do
    let tid ← named_thread raw
    pure (some (.suspend_thread tid))
  | .suspend_thread, none => .error .thread_id_missing
  | .resume_thread, some raw => do
    let tid ← named_thread raw
    pure (some (.resume_thread (some tid)))
  | .resume_thread, none => .ok (some (.resume_thread none))
  | _, _ => .ok none

/-- The thread that a command steps, suspends or resumes by name. -/
def commanded : Command → Option ThreadId
  | .suspend_thread t | .resume_thread t => some t
  | .set (.step t _ _ _) _ _ => some t
  | _ => none

variable (t : ThreadId)

/-- A command about no thread but `t`. -/
def About (c : Command) : Prop := ∀ u, commanded c = some u → u = t

theorem about_other {c : Command} (hc : commanded c = none) : About t c :=
  fun u hu => by rw [hc] at hu; cases hu

theorem about_self {t : ThreadId} {c : Command} (hc : commanded c = some t) : About t c :=
  fun u hu => by rw [hc] at hu; cases hu; rfl

theorem count_about (t u : ThreadId) : Leads (Utters (About t)) (suspend_count u) := by
  refine Leads.bind (send_utters (about_other t rfl)) fun r => ?_
  cases r with
  | error e => exact Leads.pure _
  | ok _ => exact Leads.get_bind fun _ => Leads.pure _

theorem classify_about : Leads (Utters (About t)) (classify_thread t) := by
  refine Leads.bind (Leads.bind (send_utters (about_other t rfl)) fun r => ?_) fun r => ?_
  · cases r with
    | error e => exact Leads.pure _
    | ok _ =>
      refine Leads.get_bind fun w => ?_
      split
      · exact Leads.pure _
      · split <;> exact Leads.pure _
  · split <;> exact Leads.pure _

theorem clear_step_about : Leads (Utters (About t)) clear_pending_step := by
  refine Leads.get_bind fun w => ?_
  split
  · exact Leads.pure _
  · exact Leads.bind (edit_utters _) fun _ =>
      Leads.bind (perform_utters (about_other t rfl) _) fun _ => Leads.pure _

theorem step_about (thread_id : Option ThreadId) (depth : ℕ) (exclude only : List String)
    (w : World) : ∀ c ∈ ((handle_step thread_id depth exclude only).run w).2.sent,
      c ∈ w.sent ∨ ∀ u, commanded c = some u → thread_id.or w.session.last_thread = some u := by
  unfold handle_step
  rw [run_bind, run_get]
  dsimp only
  cases htid : thread_id.or w.session.last_thread with
  | none => exact fun c hc => Or.inl hc
  | some t =>
    refine fun c hc => Or.imp_right (fun (h : About t c) u hu => by rw [h u hu]) ?_
    refine Leads.bind (clear_step_about t) (fun _ => Leads.bind (set_request_utters
      (about_self rfl)) fun r => ?_) w c hc
    cases r with
    | error e => exact Leads.pure _
    | ok req =>
      refine Leads.bind (edit_utters _) fun _ => Leads.bind (edit_utters _) fun _ =>
        Leads.bind (perform_utters (about_other t rfl) _) fun r => ?_
      cases r <;> exact Leads.pure _

theorem suspend_about : Leads (Utters (About t)) (handle_suspend_thread t) := by
  refine Leads.bind (send_utters (about_other t rfl)) fun _ =>
    Leads.bind (classify_about t) fun r => ?_
  split
  case h_4 =>
    refine Leads.bind (perform_utters (about_self rfl) _) fun r => ?_
    cases r with
    | error e => exact Leads.pure _
    | ok _ => exact Leads.bind (count_about t t) fun _ => Leads.get_bind fun _ =>
        Leads.bind (edit_utters _) fun _ => Leads.pure _
  all_goals exact Leads.pure _

theorem resume_about : Leads (Utters (About t)) (resume_one_thread t) := by
  refine Leads.bind (Leads.get_bind fun w => ?_) fun _ =>
    Leads.bind (perform_utters (about_self rfl) _) fun r => ?_
  · split
    · split
      · exact Leads.bind (perform_utters (about_other t rfl) _) fun _ => edit_utters _
      · exact Leads.pure _
    · exact Leads.pure _
  · cases r with
    | error e => exact Leads.pure _
    | ok _ =>
      refine Leads.bind (Leads.bind (count_about t t) fun r => ?_) fun _ =>
        Leads.bind (edit_utters _) fun _ => Leads.pure _
      cases r <;> exact Leads.pure _

theorem resume_picked_about (thread_id : Option ThreadId) (w : World) :
    ∀ c ∈ ((handle_resume_thread thread_id).run w).2.sent, c ∈ w.sent ∨
      ∀ u, commanded c = some u → pick_thread w.session.suspensions thread_id = .ok u := by
  unfold handle_resume_thread
  rw [run_bind, run_get]
  dsimp only
  cases hpick : pick_thread w.session.suspensions thread_id with
  | error e => exact fun c hc => Or.inl hc
  | ok t =>
    refine fun c hc => Or.imp_right (fun (h : About t c) u hu => by rw [h u hu]) ?_
    have hgone : ∀ held : Bool, Leads (Utters (About t)) (do
        edit_suspensions fun s => s.forget_thread t
        pure (.error (.gone held) : Except ThreadFailure ThreadResumeReply)) :=
      fun _ => Leads.bind (edit_utters _) fun _ => Leads.pure _
    refine Leads.bind (classify_about t) (fun r => ?_) w c hc
    split
    · exact Leads.get_bind fun _ => hgone _
    · exact Leads.get_bind fun _ => hgone _
    · exact resume_about t
    · exact resume_about t

theorem only_held (s : Suspensions) {t : ThreadId} (h : pick_thread s none = .ok t) :
    only_held_thread (s.threads.rows.map ThreadSuspend.tid) = .ok t := by
  unfold pick_thread at h
  cases hrows : s.threads.rows with
  | nil => simp [hrows] at h
  | cons r rest =>
    cases rest with
    | nil =>
      simp only [hrows, Except.ok.injEq] at h
      rw [← h]
      rfl
    | cons r' rest => simp [hrows] at h

/-- Where a call of the tool leads: a refused one sends nothing. -/
def call_thread (thread_id : Option String) (depth : ℕ) (exclude only : List String) (w : World)
    (a : Answers) : World :=
  match thread_call tool thread_id depth exclude only with
  | .ok (some c) => (Move.call c a).next w
  | _ => w.begin a

/-- The tools that refuse a text they cannot read. -/
def checks_its_text : ThreadTool → Bool
  | .suspend_thread | .resume_thread => true
  | _ => false

theorem called_acts_on {tool : ThreadTool} {thread_id : Option String} {depth : ℕ}
    {exclude only : List String} {c : Call}
    (hc : thread_call tool thread_id depth exclude only = .ok (some c)) (w : World) (a : Answers)
    (all : Except JdwpError (List ThreadId)) {cmd : Command} {t : ThreadId}
    (hsent : cmd ∈ ((Move.call c a).next w).sent) (ht : commanded cmd = some t) :
    tool.acts_on thread_id (surroundings w all) = .ok (some t) := by
  have hnew : ∀ {P : Prop}, cmd ∈ (w.begin a).sent ∨ P → P := fun h => h.resolve_left fun h => by
    cases h
  cases tool with
  | step =>
    cases hc
    have htarget := hnew (step_about (parse_thread_id thread_id) depth exclude only (w.begin a)
      cmd hsent) t ht
    simp only [ThreadTool.acts_on, required_thread, surroundings]
    change (parse_thread_id thread_id).or w.session.last_thread = some t at htarget
    rw [htarget]
    rfl
  | suspend_thread =>
    cases thread_id with
    | none => cases hc
    | some raw =>
      rcases hraw : named_thread raw with e | tid
      all_goals
        simp only [thread_call, hraw] at hc
        cases hc
      have htarget := hnew (suspend_about tid (w.begin a) cmd hsent) t ht
      rw [htarget]
      simp only [ThreadTool.acts_on, hraw]
      rfl
  | resume_thread =>
    cases thread_id with
    | none =>
      cases hc
      have htarget := hnew (resume_picked_about none (w.begin a) cmd hsent) t ht
      simp only [ThreadTool.acts_on, surroundings, only_held w.session.suspensions htarget]
      rfl
    | some raw =>
      rcases hraw : named_thread raw with e | tid
      all_goals
        simp only [thread_call, hraw] at hc
        cases hc
      have htarget := hnew (resume_picked_about (some tid) (w.begin a) cmd hsent) t ht
      cases htarget
      simp only [ThreadTool.acts_on, hraw]
      rfl
  | _ => simp [thread_call] at hc

/-- The two tools that check their text refuse one that they cannot read, and a suspend needs one.
-/
theorem unread_refused {tool : ThreadTool} {thread_id : Option String} (depth : ℕ)
    (exclude only : List String) (htool : checks_its_text tool = true)
    (hread : parse_thread_id thread_id = none) (hgiven : thread_id.isSome ∨ tool = .suspend_thread)
    : ∃ e, thread_call tool thread_id depth exclude only = .error e := by
  have hnamed (raw : String) (h : parse_thread_id (some raw) = none) :
      named_thread raw = .error (.bad_thread_id raw) := by rw [named_thread, h]
  cases tool with
  | suspend_thread =>
    cases thread_id with
    | none => exact ⟨_, rfl⟩
    | some raw =>
      refine ⟨.bad_thread_id raw, ?_⟩
      rw [thread_call, hnamed raw hread]
      rfl
  | resume_thread =>
    cases thread_id with
    | none => simp at hgiven
    | some raw =>
      refine ⟨.bad_thread_id raw, ?_⟩
      rw [thread_call, hnamed raw hread]
      rfl
  | _ => cases htool

/-- The tools that step, hold or release a thread command the one that `acts_on` chooses; a suspend
or resume whose text is given and unreadable, and a suspend without one, sends nothing. -/
theorem commands_act_on (thread_id : Option String) (depth : ℕ) (exclude only : List String)
    (w : World) (a : Answers) (all : Except JdwpError (List ThreadId)) :
    (∀ cmd ∈ (call_thread tool thread_id depth exclude only w a).sent, ∀ t,
      commanded cmd = some t → tool.acts_on thread_id (surroundings w all) = .ok (some t)) ∧
    (checks_its_text tool = true → parse_thread_id thread_id = none →
      (thread_id.isSome ∨ tool = .suspend_thread) →
        (call_thread tool thread_id depth exclude only w a).sent = []) := by
  constructor
  · intro cmd hsent t ht
    unfold call_thread at hsent
    split at hsent
    · rename_i c hc
      exact called_acts_on hc w a all hsent ht
    · cases hsent
  · intro htool hread hgiven
    obtain ⟨e, he⟩ := unread_refused depth exclude only htool hread hgiven
    rw [call_thread, he]
    rfl

/-- A suspend of `0x2` suspends thread 2, and one of `main` sends nothing. -/
theorem commands_act_on_named :
    (Command.suspend_thread 2 ∈
        (call_thread .suspend_thread (some "0x2") 0 [] [] (line_armed none) plain).sent ∧
      ThreadTool.acts_on .suspend_thread (some "0x2") (surroundings (line_armed none) (.ok [])) =
        .ok (some 2)) ∧
    (call_thread .suspend_thread (some "main") 0 [] [] (line_armed none) plain).sent = [] := by
  have hsent : Command.suspend_thread 2 ∈
      (call_thread .suspend_thread (some "0x2") 0 [] [] (line_armed none) plain).sent := by
    decide +kernel
  refine ⟨⟨hsent, (commands_act_on _ _ 0 [] [] _ plain _).1 _ hsent 2 rfl⟩, ?_⟩
  exact (commands_act_on _ _ 0 [] [] _ plain (.ok [])).2 rfl (by decide) (.inl rfl)

end Acting

section Claimed

variable (kind : StopPointKind)

variable (trace : Bool)

/-- An arming call of this kind with these texts, whatever else it asks for and wherever a session
stands, is refused or narrowed to what the texts ask for. -/
def Narrows (texts : Texts) : Prop :=
  ∀ (t : Target) (o : StopOptions) (threads : List ThreadId) (a0 a : Answers) (w : World)
    (c : Call), t.kind = kind → o.trace = trace → Run (fun _ _ => True) (World.start threads a0) w →
    arming_call t o texts = .ok c → ∃ s, Denotes texts s ∧ Reaches s w ((Move.call c a).next w)

/-- A tool given this text acts on the thread it is the handle of, or returns an error. -/
def ActsAsNamed (tool : ThreadTool) (raw : String) : Prop :=
  ∀ s : Surroundings, (∃ e, tool.acts_on (some raw) s = .error e) ∨
    ∃ t, parse_thread_id (some raw) = some t ∧ tool.acts_on (some raw) s = .ok (some t)

/-- The call is turned away on its texts. -/
def TurnedAway (texts : Texts) : Prop :=
  ∃ e, filters_from kind trace texts = .error e

theorem instance_filter_blank {raw : Option String} (h : is_blank raw = true) :
    parse_instance_filter raw = .ok none := by
  unfold is_blank at h
  unfold parse_instance_filter
  cases raw with
  | none => rfl
  | some text =>
    simp only [Option.all_some, decide_eq_true_eq] at h
    simp only [Option.map_some, h]
    rfl

theorem filters_from_ok {kind : StopPointKind} {trace : Bool} {texts : Texts} {s : Scope}
    (h : filters_from kind trace texts = .ok s) :
    s.thread = parse_thread_id texts.thread_id ∧
      parse_instance_filter texts.instance_id = .ok s.instance_ ∧
      (kind = .monitor → s.instance_ = none) := by
  have hpassed : ∀ {f : Option ObjectId → Except Refusal Scope}, (∀ i s', f i = .ok s' →
      s' = ⟨parse_thread_id texts.thread_id, i⟩) →
      (parse_instance_filter texts.instance_id >>= f) = .ok s →
      s.thread = parse_thread_id texts.thread_id ∧
        parse_instance_filter texts.instance_id = .ok s.instance_ := by
    intro f hf hs
    cases hi : parse_instance_filter texts.instance_id with
    | error e =>
      rw [hi] at hs
      cases hs
    | ok i =>
      rw [hi] at hs
      rw [hf i s hs]
      exact ⟨rfl, rfl⟩
  have hplain := hpassed (f := fun i => pure ⟨parse_thread_id texts.thread_id, i⟩)
    fun i s' hs => by cases hs; rfl
  cases kind with
  | line => exact ⟨(hplain h).1, (hplain h).2, fun hk => by cases hk⟩
  | exception => exact ⟨(hplain h).1, (hplain h).2, fun hk => by cases hk⟩
  | watchpoint => exact ⟨(hplain h).1, (hplain h).2, fun hk => by cases hk⟩
  | method_exit =>
    have hexit := hpassed (fun i s' hs => ?_) h
    · exact ⟨hexit.1, hexit.2, fun hk => by cases hk⟩
    · cases i with
      | none =>
        cases hs
        rfl
      | some o => cases hs
  | monitor =>
    unfold filters_from at h
    dsimp only at h
    unfold refuse_instance_filter_on_monitor at h
    split at h
    · rename_i hblank
      unfold refuse_suspending_monitor_without_thread at h
      split at h
      · cases h
        exact ⟨rfl, instance_filter_blank hblank, fun _ => rfl⟩
      · cases h
    · cases h

/-- A call of each kind that arms one request. -/
def sample : StopPointKind → Target
  | .line => .line ["A"] (some 10) none [] 1
  | .exception => .exception [("A", some 1)] true true 1
  | .watchpoint => .field [("A", 1)] "total" [.access] 1
  | .method_exit => .method_exit ["A"] none false []
  | .monitor => .monitor [.blocked] ⟨none, none, none⟩

def sample_options : StopOptions := { plain_options none with trace := trace }

theorem narrows_iff (texts : Texts) :
    Narrows kind trace texts ↔ Readable texts.thread_id ∨ TurnedAway kind trace texts := by
  constructor
  · intro h
    cases hfrom : filters_from kind trace texts with
    | error e => exact Or.inr ⟨e, hfrom⟩
    | ok s =>
      left
      have hkind : (sample kind).kind = kind := by cases kind <;> rfl
      have hcall : arming_call (sample kind) (sample_options trace) texts =
          .ok ((sample kind).call (StopOptions.narrowed (sample_options trace) s)) := by
        unfold arming_call
        rw [hkind, show (sample_options trace).trace = trace from rfl, hfrom]
        rfl
      obtain ⟨s', ⟨⟨hread, hgiven⟩, -⟩, -⟩ := h (sample kind) (sample_options trace) [] plain
        plain (World.start [] plain) _ hkind rfl Relation.ReflTransGen.refl hcall
      intro hthread
      rw [← hread]
      exact hgiven hthread
  · intro h t o threads a0 a w c hkind htrace hrun hc
    unfold arming_call at hc
    rw [hkind, htrace] at hc
    cases hfrom : filters_from kind trace texts with
    | error e =>
      rw [hfrom] at hc
      cases hc
    | ok s =>
      rw [hfrom] at hc
      cases hc
      obtain ⟨hthread, hinstance, hmon⟩ := filters_from_ok hfrom
      have hread := h.resolve_right fun hno => by
        obtain ⟨e, he⟩ := hno
        rw [hfrom] at he
        cases he
      refine ⟨s, ⟨⟨hthread, fun hgiven => ?_⟩, hinstance⟩, ?_⟩
      · rw [hthread]
        exact hread hgiven
      · exact arming_reaches (o := StopOptions.narrowed o s) hrun t fun hk =>
          hmon (hkind.symm.trans hk)

theorem acts_as_named_iff (tool : ThreadTool) (raw : String) :
    ActsAsNamed tool raw ↔ (parse_thread_id (some raw)).isSome ∨ checks_its_text tool = true := by
  constructor
  · intro h
    cases hraw : parse_thread_id (some raw) with
    | some t => exact Or.inl rfl
    | none =>
      right
      rcases h ⟨some 1, [], .ok []⟩ with ⟨e, he⟩ | ⟨t, ht, -⟩
      · cases tool <;> simp [ThreadTool.acts_on, hraw, required_thread,
          resolve_target_thread] at he <;> rfl
      · rw [hraw] at ht
        cases ht
  · intro h s
    cases hraw : parse_thread_id (some raw) with
    | some t =>
      right
      refine ⟨t, rfl, ?_⟩
      cases tool <;> simp [ThreadTool.acts_on, hraw, required_thread, resolve_target_thread,
        named_thread]
    | none =>
      left
      rw [hraw] at h
      have hchecks := h.resolve_left (by simp)
      cases tool <;> simp [checks_its_text] at hchecks <;>
        exact ⟨.bad_thread_id raw, by simp [ThreadTool.acts_on, named_thread, hraw]⟩

/-- The thread and the object a caller names reach every request, and every tool acts on the thread
it is told, exactly where a `thread_id` that is given can be read or the call is turned away. -/
theorem caller_scope_reaches_iff (texts : Texts) (tool : ThreadTool) (raw : String) :
    (Narrows kind trace texts ↔ Readable texts.thread_id ∨ TurnedAway kind trace texts) ∧
    (ActsAsNamed tool raw ↔
      (parse_thread_id (some raw)).isSome ∨ checks_its_text tool = true) :=
  ⟨narrows_iff kind trace texts, acts_as_named_iff tool raw⟩

/-- A breakpoint asked to stop the thread `main` only is sent without a filter and stops every
thread, and a step of `main` steps the thread hit last. -/
theorem unreadable_thread_unfiltered :
    ¬ Narrows .line false ⟨some "main", none⟩ ∧ ¬ ActsAsNamed .step "main" ∧
    arming_call (sample .line) (sample_options false) ⟨some "main", none⟩ =
      .ok ((sample .line).call (sample_options false)) ∧
    Command.set (.breakpoint ⟨1, 1, 0⟩) .all ⟨none, none, none⟩ ∈
      ((Move.call ((sample .line).call (sample_options false)) plain).next
        (World.start [] plain)).sent := by
  have hmain : parse_thread_id (some "main") = none := by decide
  refine ⟨fun h => ?_, fun h => ?_, rfl, ?_⟩
  · obtain hread | ⟨e, he⟩ := (narrows_iff _ _ _).mp h
    · simp [Readable, hmain] at hread
    · cases he
  · obtain hread | hchecks := (acts_as_named_iff _ _).mp h
    · simp [hmain] at hread
    · cases hchecks
  · exact List.mem_cons_of_mem _ (List.mem_cons_of_mem _ (List.mem_cons_of_mem _
      List.mem_cons_self))

end Claimed

end JavaDebug.CallerScope
