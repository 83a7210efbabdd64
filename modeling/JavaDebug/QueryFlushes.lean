import JavaDebug.OpenedQueries

/-!
Whether a named query flushes. Whatever the provider returns, the query is run
once at most and with every parameter bound; it is run with its flush suppressed
exactly when `setFlushMode` took effect on the object that it was called on,
since what it returned is dropped.
-/
namespace JavaDebug.QueryFlushes

open Jdwp WireReader JavaValues MapWalks
  Dialogue Outcomes Exchanges Requests Evaluations
  AskedRequests NamedQueries QueryLedgers
  OpenedQueries
open FrameNames (Frame)
open Invocations (Invocation is_primitive)

section Running

variable (p : Provider) (t : Printing) (numbers : Numbers) (n : ℕ) (tid : ThreadId)
  (frame : Option Frame) {log log' : Log}

/-- The query `q` has the bindings of `plan` and, unless a flush is allowed, the flush mode that its
only `setFlushMode` left. -/
structure Ready (plan : List QueryParam) (allow_flush : Bool) (q : UInt64) (log : Log) : Prop where
  unrun : (ledger p log).runs = []
  bound : List.Forall₂ (Bound numbers log) plan ((ledger p log).settings q).bound
  flush : allow_flush = true ∨ ∃ f, (ledger p log).flushes = [f] ∧
    ((ledger p log).settings q).flush_mode = f.after

variable (plan : List QueryParam)

/-- The query was run once, so set. -/
def Ran (allow_flush : Bool) (log : Log) : Prop :=
  ∃ s, (ledger p log).runs = [s] ∧ List.Forall₂ (Bound numbers log) plan s.bound ∧
    (allow_flush = true ∨ ∃ f, (ledger p log).flushes = [f] ∧ s.flush_mode = f.after)

/-- A setter leaves its receiver set exactly when it landed. -/
theorem set_receiver (l : Ledger) (method : String) (call : Invocation) (q : UInt64) (ret : Value) :
    (l.set p method call q ret).settings q =
      if lands p call q ret then (l.settings q).set method call.args else l.settings q := by
  unfold Ledger.set lands
  cases hret : as_object_id ret with
  | none => simp
  | some next =>
    by_cases hsame : next = q
    · simp [hsame]
    · simp [hsame]

variable (q : UInt64 × ClassId)

theorem suppresses (api : Option String) (allow_flush : Bool) (h : Opened p numbers plan q.1 log) :
    Trial (fun _ log' => Ready p numbers plan allow_flush q.1 log') (Unrun p)
      (suppress_query_flush t n tid frame q api allow_flush) log := by
  unfold suppress_query_flush
  split
  · rename_i hallow
    exact trial_pure ⟨h.unrun, h.bound, Or.inl hallow⟩
  · cases api with
    | none => exact trial_throw h.unrun
    | some api =>
      refine Trial.bind (trial_explain _ (Trial.mono
        (idle_trial (resolves_idle t n tid frame _) log) (fun _ _ h => h)
          fun _ hext => (h.extends p numbers hext).unrun)) ?_
      intro mode log₁ hext
      have hopened := h.extends p numbers hext
      refine Trial.bind (trial_explain _ (Trial.mono
        (invoke_named_sends p tid q.1 q.2 "setFlushMode" [mode] log₁) (fun _ _ h => h)
          fun _ hfail => hfail.unrun p (by decide) hopened.unrun)) ?_
      rintro ret log₂ ⟨hsub, call, -, hledger⟩
      have hset : ledger p log₂ = (ledger p log₁).set p "setFlushMode" call q.1 ret := hledger
      refine trial_pure ⟨?_, ?_, Or.inr ⟨⟨lands p call q.1 ret, call.args,
        ((ledger p log₁).settings q.1).flush_mode⟩, ?_, ?_⟩⟩
      · rw [hset]
        exact hopened.unrun
      · rw [hset, set_receiver]
        have hbound := bounds_mono hsub hopened.bound
        split
        · exact hbound
        · exact hbound
      · rw [hset]
        change (ledger p log₁).flushes ++ _ = _
        rw [hopened.unset]
        rfl
      · rw [hset, set_receiver]
        unfold Flush.after
        dsimp only
        split
        · rfl
        · rfl

theorem caps (allow_flush : Bool) (max_fetch : Option ℕ)
    (h : Ready p numbers plan allow_flush q.1 log) :
    Trial (fun _ log' => Ready p numbers plan allow_flush q.1 log') (Unrun p)
      (cap_rows tid q max_fetch) log := by
  cases max_fetch with
  | none => exact trial_pure h
  | some cap =>
    refine Trial.bind (trial_explain _ (Trial.mono
      (invoke_named_sends p tid q.1 q.2 "setMaxResults" [_] log) (fun _ _ h => h)
        fun _ hfail => hfail.unrun p (by decide) h.unrun)) ?_
    rintro ret log₁ ⟨hsub, call, -, hledger⟩
    have hset : ledger p log₁ = (ledger p log).set p "setMaxResults" call q.1 ret := hledger
    have hsame : ((ledger p log₁).settings q.1).bound = ((ledger p log).settings q.1).bound ∧
        ((ledger p log₁).settings q.1).flush_mode = ((ledger p log).settings q.1).flush_mode := by
      rw [hset, set_receiver]
      split
      · exact ⟨rfl, rfl⟩
      · exact ⟨rfl, rfl⟩
    refine trial_pure ⟨?_, ?_, ?_⟩
    · rw [hset]
      exact h.unrun
    · rw [hsame.1]
      exact bounds_mono hsub h.bound
    · rw [hsame.2, hset]
      exact h.flush

theorem runs_once (a : RunNamedQueryArgs) (h : Ready p numbers plan a.allow_flush q.1 log) :
    Trial (fun _ log' => Ran p numbers plan a.allow_flush log')
      (fun log' => Unrun p log' ∨ Ran p numbers plan a.allow_flush log')
      (run_and_project t tid q a) log := by
  have hran {log' : Log} (hsub : log ⊆ log') (hledger : ledger p log' =
      { ledger p log with runs := (ledger p log).runs ++ [(ledger p log).settings q.1] }) :
      Ran p numbers plan a.allow_flush log' := by
    refine ⟨(ledger p log).settings q.1, ?_, bounds_mono hsub h.bound, ?_⟩
    · rw [hledger, h.unrun]
      rfl
    · rw [hledger]
      exact h.flush
  have hlater {log' log'' : Log} (hran : Ran p numbers plan a.allow_flush log')
      (hext : Extends Idle log' log'') : Ran p numbers plan a.allow_flush log'' := by
    obtain ⟨s, hruns, hbound, hflush⟩ := hran
    refine ⟨s, ?_, bounds_mono hext.subset hbound, ?_⟩
    · rw [ledger_extends p hext]
      exact hruns
    · rw [ledger_extends p hext]
      exact hflush
  refine Trial.bind (Trial.mono (invoke_named_sends p tid q.1 q.2 "getResultList" [] log)
    (fun _ _ h => h) ?_) ?_
  · rintro log' ⟨hsub, hsame | ⟨-, hledger⟩⟩
    · refine Or.inl ?_
      unfold Unrun
      rw [hsame]
      exact h.unrun
    · exact Or.inr (hran hsub hledger)
  · rintro list log₁ ⟨hsub, call, -, hledger⟩
    have hdone := hran hsub hledger
    exact Trial.mono (idle_trial (projects_result t tid q a list) log₁)
      (fun _ _ hext => hlater hdone hext) fun _ hext => Or.inr (hlater hdone hext)

end Running

section Handling

variable (p : Provider) (t : Printing) (numbers : Numbers) (n : ℕ) (session : Session)
  (a : RunNamedQueryArgs)

theorem check_query_plan {checked : String × List QueryParam × ThreadId}
    (h : check_query session a = .ok checked) : plan_query_parameters a = .ok checked.2.1 := by
  unfold check_query at h
  dsimp only at h
  split at h
  · cases h
  · split at h
    · cases h
    · cases hplan : plan_query_parameters a with
      | error e =>
        rw [hplan] at h
        cases h
      | ok plan =>
        rw [hplan] at h
        replace h : (if session.read_only then .error READ_ONLY else _) = Except.ok checked := h
        split at h
        · cases h
        · cases hthread : (Addressing.parse_thread_id a.thread_id).or session.last_thread with
          | none =>
            rw [hthread] at h
            cases h
          | some tid =>
            rw [hthread] at h
            cases h
            rfl

/-- A query that was run had the bindings that were planned. -/
def Planned (log : Log) : Prop :=
  ∃ plan, plan_query_parameters a = .ok plan ∧ Ran p numbers plan a.allow_flush log

theorem handle_ran : Trial (fun _ log => Planned p numbers a log)
    (fun log => Unrun p log ∨ Planned p numbers a log)
      (handle_run_named_query t numbers n session a) [] := by
  have hidle {log : Log} (hext : Extends Idle [] log) : ledger p log = opening p :=
    ledger_extends p hext
  have hunrun {log : Log} (hsame : ledger p log = opening p) :
      Unrun p log ∨ Planned p numbers a log := by
    refine Or.inl ?_
    unfold Unrun
    rw [hsame]
    rfl
  cases hcheck : check_query session a with
  | error e =>
    unfold handle_run_named_query
    rw [hcheck]
    exact hunrun rfl
  | ok checked =>
    unfold handle_run_named_query
    rw [hcheck]
    have hplan := check_query_plan session a hcheck
    refine Trial.bind (P := fun c log => c = checked ∧ log = []) ⟨rfl, rfl⟩ ?_
    rintro _ _ ⟨rfl, rfl⟩
    refine Trial.bind (Trial.mono (idle_trial (Tries.lift (finds_frame _ a.frame_index)) [])
      (fun _ _ h => h) fun _ hext => hunrun (hidle hext)) ?_
    intro frame log₁ hext₁
    refine Trial.bind (Trial.mono (idle_trial (finds_entity_manager t n _ frame a.frame_index
      a.entity_manager) log₁) (fun _ _ h => h) fun _ hext => hunrun (hidle (hext₁.trans hext))) ?_
    intro em log₂ hext₂
    refine Trial.bind (Trial.mono (opens p t numbers n _ frame em _ _ (hidle (hext₁.trans hext₂)))
      (fun _ _ h => h) fun _ h => Or.inl h) ?_
    intro opened log₃ hopened
    refine Trial.bind (Trial.mono (suppresses p t numbers n _ frame _ opened.1 em.api a.allow_flush
      hopened) (fun _ _ h => h) fun _ h => Or.inl h) ?_
    intro note log₄ hready
    refine Trial.bind (Trial.mono (caps p numbers _ _ opened.1 a.allow_flush a.max_fetch hready)
      (fun _ _ h => h) fun _ h => Or.inl h) ?_
    intro _ log₅ hcapped
    refine Trial.bind (Trial.mono (runs_once p t numbers _ _ opened.1 a hcapped) (fun _ _ h => h)
      fun _ h => h.imp id fun hran => ⟨_, hplan, hran⟩) ?_
    intro run log₆ hran
    exact trial_pure ⟨_, hplan, hran⟩

/-- The query is run once at most, with every parameter bound, and with its flush suppressed; where
it is not run, an error says so. -/
structure Unflushed (out : Except String NamedQueryReply) (log : Log) : Prop where
  once : (ledger p log).runs.length ≤ 1
  bound : ∀ s ∈ (ledger p log).runs, ∃ plan, plan_query_parameters a = .ok plan ∧
    List.Forall₂ (Bound numbers log) plan s.bound
  unflushed : a.allow_flush = false → ∀ s ∈ (ledger p log).runs, s.flush_mode = [p.commit]
  refused : (ledger p log).runs = [] → ∃ e, out = .error e

variable {σ : Type} (serve : σ → (o : Request) → o.Answer × σ) (s : σ)

def conversation : Log :=
  exchanges (I := Jvm) serve (handle_run_named_query t numbers n session a).run s

def outcome : Except String NamedQueryReply :=
  (Program.served (I := Jvm) serve (handle_run_named_query t numbers n session a).run s).1

theorem run_unflushed_iff :
    Unflushed p numbers a (outcome t numbers n session a serve s)
        (conversation t numbers n session a serve s) ↔
      a.allow_flush = true ∨ (ledger p (conversation t numbers n session a serve s)).runs = [] ∨
        ∀ f ∈ (ledger p (conversation t numbers n session a serve s)).flushes, f.Suppresses p := by
  have hrun := Comes.served (I := Jvm) serve (handle_ran p t numbers n session a) s
  rw [List.nil_append] at hrun
  change Settles _ _ (outcome t numbers n session a serve s)
    (conversation t numbers n session a serve s) at hrun
  generalize conversation t numbers n session a serve s = log at hrun ⊢
  generalize outcome t numbers n session a serve s = out at hrun ⊢
  have hcases : Planned p numbers a log ∨ Unrun p log ∧ ∃ e, out = .error e := by
    cases out with
    | ok reply => exact Or.inl hrun
    | error e => exact Or.symm (Or.imp (fun h => ⟨h, e, rfl⟩) id hrun)
  rcases hcases with ⟨plan, hplan, q, hruns, hbound, hflush⟩ | ⟨hunrun, herror⟩
  · have hsome : (ledger p log).runs ≠ [] := by
      rw [hruns]
      exact List.cons_ne_nil q []
    constructor
    · intro h
      rcases hflush with hallow | ⟨f, hone, hmode⟩
      · exact Or.inl hallow
      · cases hallow : a.allow_flush with
        | true => exact Or.inl rfl
        | false =>
          refine Or.inr (Or.inr ?_)
          intro f' hf'
          rw [hone] at hf'
          obtain rfl := List.mem_singleton.mp hf'
          have hcommit := h.unflushed hallow q (by simp [hruns])
          exact (suppresses_iff p f').mpr (hmode.symm.trans hcommit)
    · intro h
      refine ⟨?_, ?_, ?_, fun hnone => absurd hnone hsome⟩
      · rw [hruns]
        exact le_rfl
      · intro s hs
        rw [hruns] at hs
        obtain rfl := List.mem_singleton.mp hs
        exact ⟨plan, hplan, hbound⟩
      · intro hdenied s hs
        rw [hruns] at hs
        obtain rfl := List.mem_singleton.mp hs
        rcases hflush with hallow | ⟨f, hone, hmode⟩
        · exact absurd (hallow.symm.trans hdenied) (by decide)
        · rcases h with hallow | hnone | hall
          · exact absurd (hallow.symm.trans hdenied) (by decide)
          · exact absurd hnone hsome
          · rw [hmode]
            exact (suppresses_iff p f).mp (hall f (by simp [hone]))
  · have hnone : (ledger p log).runs = [] := hunrun
    refine ⟨fun _ => Or.inr (Or.inl hnone), fun _ => ⟨?_, ?_, ?_, fun _ => herror⟩⟩
    · simp [hnone]
    · simp [hnone]
    · simp [hnone]

end Handling

section Immutable

/-- An entity manager of class 1, its queries of class 2, the flush modes, and lists. -/
def persistence : Sight where
  get_object_reference_type id := .ok (if id = 1 then 1 else if id = 10 ∨ id = 11 then 2 else
    if id = 50 ∨ id = 51 then 3 else if id = 20 then 5 else if id = 21 then 6 else 4)
  get_signature c := .ok (match c with
    | 1 => "Ljakarta/persistence/EntityManager;"
    | 2 => "Ljakarta/persistence/Query;"
    | 3 => "Ljakarta/persistence/FlushModeType;"
    | 4 => "Ljava/lang/String;"
    | 5 => "Ljava/util/List;"
    | _ => "[Ljava/lang/Object;")
  get_superclass _ := .ok none
  get_interfaces _ := .ok []
  get_fields c :=
    .ok (if c = 3 then [⟨1, "COMMIT", "Ljakarta/persistence/FlushModeType;", 8⟩] else [])
  get_methods c := .ok (match c with
    | 1 => [⟨1, "createNamedQuery", "(Ljava/lang/String;)Ljakarta/persistence/Query;", 1⟩]
    | 2 =>
      [⟨2, "setFlushMode", "(Ljakarta/persistence/FlushModeType;)Ljakarta/persistence/Query;", 1⟩,
        ⟨3, "getResultList", "()Ljava/util/List;", 1⟩]
    | 5 => [⟨4, "toArray", "()[Ljava/lang/Object;", 1⟩]
    | _ => [])
  get_object_values _ _ := .ok []
  get_array_length _ := .ok 0
  get_array_values _ _ _ := .ok []
  get_string_value _ := .ok "Reserva.findAll"
  classes := ⟨fun _ => .ok [⟨1, 3, "Ljakarta/persistence/FlushModeType;".toList⟩],
    fun _ => .ok 0, fun _ => none, .ok []⟩
  get_variable_table _ _ := .ok []
  get_reference_values _ _ := .ok [value_object 51]
  is_collected _ := .ok false

/-- Every setter returns a new query. -/
def immutable_queries (s : Unit) : (o : Request) → o.Answer × Unit
  | .look => (persistence, s)
  | .get_frames _ _ _ => (.error "INVALID_THREAD", s)
  | .get_this_object _ _ => (.error ⟨"INVALID_FRAMEID", none, none⟩, s)
  | .get_frame_values _ _ _ => (.error "INVALID_FRAMEID", s)
  | .get_object_values _ _ => (.ok [], s)
  | .create_string _ => (.ok 30, s)
  | .invoke_method _ call =>
    (.ok (value_object (match call.method_id with
      | 1 => 10
      | 2 => 11
      | 3 => 20
      | _ => 21), 0), s)

/-- The flush mode of a new query is `AUTO`. -/
def immutable_provider : Provider :=
  ⟨fun _ => [value_object 50], fun _ => false, value_object 51⟩

def find_all : RunNamedQueryArgs where
  query_name := "Reserva.findAll"
  parameters := none
  positional_parameters := none
  parameter_expressions := none
  entity_manager := some "@0x1"
  max_rows := 20
  max_fetch := none
  max_result_length := 2000
  allow_flush := false
  thread_id := some "0x7"
  frame_index := 0

def blank_printing : Printing := ⟨fun _ => "", fun _ => "", fun _ => "", fun _ => ""⟩

def no_numbers : Numbers := ⟨fun _ => none, fun _ => ""⟩

def find_all_outcome : Except String NamedQueryReply :=
  outcome blank_printing no_numbers 3 ⟨false, none⟩ find_all immutable_queries ()

def find_all_log : Log :=
  conversation blank_printing no_numbers 3 ⟨false, none⟩ find_all immutable_queries ()

/-- The query runs with the flush mode that it was created with, under a reply that says that the
flush was suppressed. -/
theorem immutable_query_flushes :
    find_all_outcome.toOption.map (fun r => r.flush_note) = some (some FLUSH_SUPPRESSED) ∧
      ¬ Unflushed immutable_provider no_numbers find_all find_all_outcome find_all_log := by
  have hruns : (ledger immutable_provider find_all_log).runs.map Settings.flush_mode =
      [[value_object 50]] := by
    decide +kernel
  refine ⟨by decide +kernel, ?_⟩
  intro h
  obtain ⟨s, hs, hmode⟩ := List.mem_map.mp (hruns ▸ List.mem_singleton_self [value_object 50])
  rw [h.unflushed rfl s hs] at hmode
  revert hmode
  decide

end Immutable

end JavaDebug.QueryFlushes
