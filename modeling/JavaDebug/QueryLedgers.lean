import JavaDebug.AskedRequests
import JavaDebug.Exchanges
import JavaDebug.NamedQueries

/-!
What a named query has been set to. A provider's `Query` objects have settings; a
setter gives them to the object that it returns, and to its receiver if that is
the object or the provider sets in place. The ledger of a log follows them: a
method that is sent is one entry of it, and the other requests are none.
-/
namespace JavaDebug.QueryLedgers

open Jdwp WireReader JavaValues MapWalks
  Dialogue Outcomes Exchanges Requests Evaluations
  AskedRequests NamedQueries
open FrameNames (Frame)
open Invocations (Invocation is_primitive)

section Ledgers

abbrev Log := List (Exchange Jvm)

/-- What a `Query` has been set to: the arguments of each binding and of the other setters. -/
structure Settings where
  bound : List (List Value)
  flush_mode : List Value
  max_results : List Value
  deriving DecidableEq

def Settings.set (s : Settings) (method : String) (args : List Value) : Settings :=
  if method = "setParameter" then { s with bound := s.bound ++ [args] }
  else if method = "setFlushMode" then { s with flush_mode := args }
  else { s with max_results := args }

/-- A provider: the flush mode that a query is created with, whether a call that returns another
object has set its receiver too, and the constant `FlushModeType.COMMIT`. -/
structure Provider where
  flush_mode : UInt64 → List Value
  in_place : Invocation → Bool
  commit : Value

/-- A call of `setFlushMode` that was answered: whether it took effect on its receiver, what it was
given, and the flush mode that the receiver had. -/
structure Flush where
  landed : Bool
  given : List Value
  before : List Value

def Flush.after (f : Flush) : List Value := if f.landed then f.given else f.before

/-- The settings of every query, the calls of `setFlushMode`, and the queries that were run. -/
structure Ledger where
  settings : UInt64 → Settings
  flushes : List Flush
  runs : List Settings

variable (p : Provider)

/-- The call gave its receiver `COMMIT`, or left it with the `COMMIT` that it had. -/
def Flush.Suppresses (f : Flush) : Prop :=
  if f.landed then f.given = [p.commit] else f.before = [p.commit]

theorem suppresses_iff (f : Flush) : f.Suppresses p ↔ f.after = [p.commit] := by
  unfold Flush.Suppresses Flush.after
  split
  · exact Iff.rfl
  · exact Iff.rfl

def SETTERS : List String := ["setParameter", "setFlushMode", "setMaxResults"]

/-- Whether a call that returned `ret` has set its receiver. -/
def lands (call : Invocation) (q : UInt64) (ret : Value) : Bool :=
  match as_object_id ret with
  | none => true
  | some next => next = q || p.in_place call

variable (l : Ledger)

def Ledger.set (method : String) (call : Invocation) (q : UInt64) (ret : Value) :
    Ledger where
  settings x :=
    if as_object_id ret = some x ∨ x = q ∧ lands p call q ret then
      (l.settings q).set method call.args
    else l.settings x
  flushes :=
    if method = "setFlushMode" then
      l.flushes ++ [⟨lands p call q ret, call.args, (l.settings q).flush_mode⟩]
    else l.flushes
  runs := l.runs

def Ledger.querying (method : String) (call : Invocation) (q : UInt64)
    (answer : Except Failure (Value × UInt64)) : Ledger :=
  if method = "getResultList" then { l with runs := l.runs ++ [l.settings q] }
  else if method ∈ SETTERS then
    match completed answer with
    | some ret => l.set p method call q ret
    | none => l
  else l

def Ledger.exchange : Exchange Jvm → Ledger
  | ⟨.invoke_method (.querying method) call, answer⟩ =>
    match call.receiver with
    | some q => l.querying p method call q answer
    | none => l
  | _ => l

def opening : Ledger := ⟨fun q => ⟨[], p.flush_mode q, []⟩, [], []⟩

def ledger (log : Log) : Ledger := log.foldl (Ledger.exchange p) (opening p)

/-- The request is none of the steps that the ledger follows. -/
def Idle : Request → Prop
  | .invoke_method (.querying method) _ => method ≠ "getResultList" ∧ method ∉ SETTERS
  | _ => True

theorem idle_admits (thread_id : Option ThreadId) : Admits Idle thread_id where
  quiet o ho := by
    cases o with
    | invoke_method purpose call => exact absurd ho id
    | _ => trivial
  invoking _ _ purpose hp _ := by
    cases purpose with
    | querying method => exact absurd hp id
    | _ => trivial

theorem exchange_idle {e : Exchange Jvm} (h : Idle e.1) : l.exchange p e = l := by
  obtain ⟨o, answer⟩ := e
  cases o with
  | invoke_method purpose call =>
    cases purpose with
    | querying method =>
      obtain ⟨hrun, hset⟩ : method ≠ "getResultList" ∧ method ∉ SETTERS := h
      unfold Ledger.exchange
      dsimp only
      split
      · unfold Ledger.querying
        rw [if_neg hrun, if_neg hset]
      · rfl
    | _ => rfl
  | _ => rfl

theorem ledger_append (log : Log) (e : Exchange Jvm) :
    ledger p (log ++ [e]) = (ledger p log).exchange p e := by
  unfold ledger
  rw [List.foldl_append]
  rfl

theorem ledger_extends {log log' : Log} (h : Extends Idle log log') :
    ledger p log' = ledger p log := by
  obtain ⟨more, rfl, hmore⟩ := h
  unfold ledger
  rw [List.foldl_append]
  generalize log.foldl (Ledger.exchange p) (opening p) = l
  induction more with
  | nil => rfl
  | cons e rest ih =>
    rw [List.foldl_cons, exchange_idle p l (hmore e List.mem_cons_self)]
    exact ih fun e' he' => hmore e' (List.mem_cons_of_mem e he')

end Ledgers

section Bindings

/-- What a value is sent as: itself, or what a boxing call returned for it. -/
def Coerced (log : Log) (v w : Value) : Prop :=
  w = v ∨ ∃ call : Invocation, call.args = [v] ∧
    (⟨.invoke_method .boxing call, .ok (w, 0)⟩ : Exchange Jvm) ∈ log

def Created (log : Log) (s : String) (v : Value) : Prop :=
  ∃ id, v = value_object id ∧ (⟨.create_string s, .ok id⟩ : Exchange Jvm) ∈ log

def KeyOf (log : Log) (key : ParamKey) (v : Value) : Prop :=
  match key with
  | .named name => Created log name v
  | .position i => v = value_int i

/-- The value of a scalar; an expression may come to any value. -/
def SourceOf (numbers : Numbers) (log : Log) (source : ParamSource) (v : Value) : Prop :=
  match source with
  | .json .null => v = value_null
  | .json (.bool b) => v = value_bool b
  | .json (.string s) => Created log s v
  | .json (.number k) => (∃ i, as_i64 k = some i ∧ v = value_long i) ∨
      (as_i64 k = none ∧ ∃ bits, numbers.as_f64 k = some bits ∧ v = value_double bits)
  | .json _ => False
  | .expression _ => True

/-- The arguments of a `setParameter` bind the parameter. -/
def Bound (numbers : Numbers) (log : Log) (param : QueryParam) (args : List Value) : Prop :=
  ∃ k v, KeyOf log param.key k ∧ SourceOf numbers log param.source v ∧
    List.Forall₂ (Coerced log) [k, v] args

variable {numbers : Numbers} {log log' : Log}

variable {v : Value}

theorem Coerced.mono (hsub : log ⊆ log') {w : Value} (h : Coerced log v w) : Coerced log' v w := by
  rcases h with rfl | ⟨call, hargs, hmem⟩
  · exact Or.inl rfl
  · exact Or.inr ⟨call, hargs, hsub hmem⟩

theorem Created.mono (hsub : log ⊆ log') {s : String} (h : Created log s v) : Created log' s v := by
  obtain ⟨id, hid, hmem⟩ := h
  exact ⟨id, hid, hsub hmem⟩

theorem KeyOf.mono (hsub : log ⊆ log') {key : ParamKey} (h : KeyOf log key v) :
    KeyOf log' key v := by
  cases key with
  | named name => exact Created.mono hsub h
  | position i => exact h

theorem SourceOf.mono (hsub : log ⊆ log') {source : ParamSource} (h : SourceOf numbers log source v)
    : SourceOf numbers log' source v := by
  rcases source with json | expr
  · cases json with
    | string s => exact Created.mono hsub h
    | null => exact h
    | bool b => exact h
    | number k => exact h
    | array items => exact h
    | object map => exact h
  · exact h

theorem Bound.mono (hsub : log ⊆ log') {param : QueryParam} {args : List Value}
    (h : Bound numbers log param args) : Bound numbers log' param args := by
  obtain ⟨k, v, hk, hv, hargs⟩ := h
  exact ⟨k, v, hk.mono hsub, hv.mono hsub, hargs.imp fun _ _ => Coerced.mono hsub⟩

theorem bounds_mono (hsub : log ⊆ log') {plan : List QueryParam} {bound : List (List Value)}
    (h : List.Forall₂ (Bound numbers log) plan bound) :
    List.Forall₂ (Bound numbers log') plan bound :=
  h.imp fun _ _ => Bound.mono hsub

end Bindings

section Calls

variable {α : Type} {log : Log}

theorem idle_trial {m : Try α} (hm : Tries Idle m) (log : Log) :
    Trial (fun _ log' => Extends Idle log log') (fun log' => Extends Idle log log') m log := by
  refine Comes.mono (ensures_comes hm log) ?_
  rintro r log' ⟨-, hext⟩
  cases r with
  | ok a => exact hext
  | error e => exact hext

theorem trial_explain {ε : Type} {P : α → Log → Prop} {E : Log → Prop} {m : ExceptT ε Ask α}
    (f : ε → String) (hm : Trial P E m log) : Trial P E (explain f m.run) log := by
  refine Comes.bind hm ?_
  intro r log' hr
  cases r with
  | ok a => exact comes_pure hr
  | error e => exact comes_pure hr

theorem creates_string (f : String → String) (s : String) (log : Log) :
    Trial (fun id log' => Extends Idle log log' ∧ Created log' s (value_object id))
      (fun log' => Extends Idle log log') (explain f (create_string s)) log := by
  intro answer
  have hext : Extends Idle log (log ++ [⟨.create_string s, answer⟩]) := Extends.one trivial answer
  cases answer with
  | ok id => exact ⟨hext, id, rfl, List.mem_append_right _ (List.mem_singleton_self _)⟩
  | error e => exact hext

theorem completed_eq_some {r : Except Failure (Value × UInt64)} {w : Value} :
    completed r = some w ↔ r = .ok (w, 0) := by
  rcases r with e | ⟨ret, exc⟩
  · simp [completed]
  · by_cases hexc : exc = 0
    · simp [completed, hexc]
    · simp [completed, hexc]

theorem box_coerces (tid : ThreadId) (v : Value) (log : Log) :
    Comes (fun r log' => Extends Idle log log' ∧ ∀ w, r = some w → Coerced log' v w)
      (box_primitive tid v) log := by
  unfold box_primitive
  split
  · exact comes_pure ⟨Extends.refl, fun w hw => by cases hw⟩
  · refine Comes.bind (ensures_comes (peeks (idle_admits (some tid)) _) log) ?_
    rintro found log' ⟨-, hext⟩
    cases found with
    | none => exact comes_pure ⟨hext, fun w hw => by cases hw⟩
    | some found =>
      intro answer
      refine ⟨hext.trans (Extends.one trivial answer), ?_⟩
      intro w hw
      obtain rfl := completed_eq_some.mp hw
      exact Or.inr ⟨_, rfl, List.mem_append_right _ (List.mem_singleton_self _)⟩

theorem coerce_arg_coerces (tid : ThreadId) (params : List String) (i : ℕ) (v : Value) (log : Log) :
    Trial (fun w log' => Extends Idle log log' ∧ Coerced log' v w)
      (fun log' => Extends Idle log log') (coerce_arg tid params i v) log := by
  unfold coerce_arg
  split
  · refine Trial.bind (trial_lift (box_coerces tid v log)) ?_
    rintro boxed log' ⟨hext, hboxed⟩
    cases boxed with
    | none => exact trial_throw hext
    | some w => exact trial_pure ⟨hext, hboxed w rfl⟩
  · exact trial_pure ⟨Extends.refl, Or.inl rfl⟩

theorem coerce_coerces (tid : ThreadId) (params : List String) (i : ℕ) (args : List Value)
    (log : Log) :
    Trial (fun ws log' => Extends Idle log log' ∧ List.Forall₂ (Coerced log') args ws)
      (fun log' => Extends Idle log log') (coerce_from tid params i args) log := by
  induction args generalizing i log with
  | nil => exact trial_pure ⟨Extends.refl, .nil⟩
  | cons v rest ih =>
    refine Trial.bind (coerce_arg_coerces tid params i v log) ?_
    rintro w log' ⟨hext, hw⟩
    refine Trial.bind (Trial.mono (ih (i + 1) log') (fun _ _ h => h) fun _ h => hext.trans h) ?_
    rintro ws log'' ⟨hmore, hws⟩
    exact trial_pure ⟨hext.trans hmore, .cons (hw.mono hmore.subset) hws⟩

end Calls

section Steps

variable (p : Provider) {q : UInt64} {log log' : Log}

def Unrun (log : Log) : Prop := (ledger p log).runs = []

/-- A method of `q` that returned `ret`, and what it is in the ledger. -/
structure Sent (q : UInt64) (name : String) (args : List Value) (log : Log) (ret : Value)
    (log' : Log) : Prop where
  subset : log ⊆ log'
  call : ∃ call : Invocation, List.Forall₂ (Coerced log') args call.args ∧
    ledger p log' = (ledger p log).querying p name call q (.ok (ret, 0))

/-- A method of `q` that failed is nothing in the ledger, unless it runs the query. -/
structure Unsent (q : UInt64) (name : String) (log log' : Log) : Prop where
  subset : log ⊆ log'
  ledger : ledger p log' = ledger p log ∨ name = "getResultList" ∧ ledger p log' =
    { ledger p log with runs := (ledger p log).runs ++ [(ledger p log).settings q] }

theorem Unsent.unrun {q : UInt64} {name : String} (h : Unsent p q name log log')
    (hname : name ≠ "getResultList") (hrun : Unrun p log) : Unrun p log' := by
  rcases h.ledger with hsame | ⟨hquery, -⟩
  · unfold Unrun
    rw [hsame]
    exact hrun
  · exact absurd hquery hname

theorem querying_failed (l : Ledger) (name : String) (call : Invocation) (q : UInt64)
    {answer : Except Failure (Value × UInt64)} (h : completed answer = none) :
    l.querying p name call q answer = l ∨ name = "getResultList" ∧
      l.querying p name call q answer = { l with runs := l.runs ++ [l.settings q] } := by
  unfold Ledger.querying
  split
  · rename_i hrun
    exact Or.inr ⟨hrun, rfl⟩
  · rw [h]
    split
    · exact Or.inl rfl
    · exact Or.inl rfl

theorem send_sends (tid : ThreadId) (decl : ClassId) (m : ℕ) (name failed : String)
    (args : List Value) (log : Log) :
    Trial (fun ret log' => log ⊆ log' ∧ ledger p log' = (ledger p log).querying p name
        ⟨some q, tid, decl, m, args⟩ q (.ok (ret, 0)))
      (Unsent p q name log)
      (send (.querying name) ⟨some q, tid, decl, m, args⟩ name failed) log := by
  have hone (answer : Except Failure (Value × UInt64)) : ledger p
      (log ++ [⟨.invoke_method (.querying name) ⟨some q, tid, decl, m, args⟩, answer⟩]) =
        (ledger p log).querying p name ⟨some q, tid, decl, m, args⟩ q answer :=
    ledger_append p log _
  have hfailed {answer : Except Failure (Value × UInt64)} {log' : Log}
      (h : completed answer = none) (hext : Extends Idle
        (log ++ [⟨.invoke_method (.querying name) ⟨some q, tid, decl, m, args⟩, answer⟩]) log') :
      Unsent p q name log log' := by
    refine ⟨List.Subset.trans (List.subset_append_left _ _) hext.subset, ?_⟩
    rw [ledger_extends p hext, hone]
    exact querying_failed p _ name _ q h
  have hask : Comes (fun (answer : Except Failure (Value × UInt64)) log' => log' = log ++
      [(⟨.invoke_method (.querying name) ⟨some q, tid, decl, m, args⟩, answer⟩ : Exchange Jvm)])
        (invoke_method (.querying name) ⟨some q, tid, decl, m, args⟩) log := fun _ => rfl
  refine Trial.bind (trial_lift hask) ?_
  rintro (e | ⟨ret, exc⟩) log' rfl
  · exact trial_throw (hfailed rfl Extends.refl)
  · dsimp only
    unfold invoke_result
    split
    · rename_i hexc
      subst hexc
      exact trial_pure ⟨List.subset_append_left _ _, hone _⟩
    · rename_i hexc
      have hthrown : completed (.ok (ret, exc)) = none := if_neg hexc
      refine Trial.bind (P := fun _ log' => Extends Idle _ log') (Trial.mono
        (idle_trial (observes (idle_admits none) _) _) (fun _ _ h => h)
          fun _ h => hfailed hthrown h) ?_
      intro tn log' hext
      exact trial_throw (hfailed hthrown hext)

theorem invoke_named_sends (tid : ThreadId) (q : UInt64) (type_id : ClassId) (name : String)
    (args : List Value) (log : Log) :
    Trial (Sent p q name args log) (Unsent p q name log) (invoke_named tid q type_id name args)
      log := by
  have hidle {log' : Log} (hext : Extends Idle log log') : Unsent p q name log log' :=
    ⟨hext.subset, Or.inl (ledger_extends p hext)⟩
  refine Trial.bind (Trial.mono (idle_trial (consults (idle_admits none) _) log)
    (fun _ _ h => h) fun _ h => hidle h) ?_
  intro found log₁ hfound
  rcases found with _ | ⟨decl, m⟩
  · exact trial_throw (hidle hfound)
  · refine Trial.bind (Trial.mono (coerce_coerces tid _ 0 args log₁) (fun _ _ h => h)
      fun _ h => hidle (hfound.trans h)) ?_
    rintro ws log₂ ⟨hcoerced, hws⟩
    have hext := hfound.trans hcoerced
    refine Trial.mono (send_sends p tid decl m.method_id name _ ws log₂) ?_ ?_
    · rintro ret log' ⟨hsub, hledger⟩
      rw [ledger_extends p hext] at hledger
      exact ⟨List.Subset.trans hext.subset hsub, _, hws.imp fun _ _ => Coerced.mono hsub, hledger⟩
    · rintro log' ⟨hsub, hledger⟩
      rw [ledger_extends p hext] at hledger
      exact ⟨List.Subset.trans hext.subset hsub, hledger⟩

end Steps

end JavaDebug.QueryLedgers
