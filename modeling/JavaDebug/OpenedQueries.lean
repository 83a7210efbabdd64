import JavaDebug.QueryLedgers

/-!
The parts of running a named query that are not its steps, which are nothing in
the ledger, and the opening of the query: after it, the `Query` that is followed
has the bindings that were planned, each once and in order.
-/
namespace JavaDebug.OpenedQueries

open Jdwp WireReader JavaValues MapWalks
  Dialogue Outcomes Exchanges Requests Evaluations
  AskedRequests NamedQueries QueryLedgers
open FrameNames (Frame)
open Invocations (Invocation is_primitive)

section Rows

variable (t : Printing)

variable (reads : ValueReads) (tid : ThreadId)

theorem renders_committed (v : Value) (max_len : ℕ) :
    Asks Idle (render_value_committed t reads v none max_len .default) := by
  unfold render_value_committed
  split
  · split
    · exact Asks.pure _
    · exact renders_object (idle_admits none) t _ _ _ _ _
  · exact Asks.pure _

theorem reads_row_fields (k : ℕ) (type_id : ClassId) (fields : List JavaValues.FieldInfo) :
    Asks Idle (row_fields_from k type_id fields) := by
  induction k generalizing type_id fields with
  | zero => exact Asks.pure _
  | succ k ih =>
    refine Asks.bind (peeks (idle_admits none) _) fun declared => ?_
    dsimp only
    split
    · exact Asks.pure _
    · refine Asks.bind (peeks (idle_admits none) _) fun above => ?_
      cases above with
      | none => exact Asks.pure _
      | some above => exact ih above _

theorem reads_shapes (types : List ClassId) : Asks Idle (row_shapes types) := by
  induction types with
  | nil => exact Asks.pure _
  | cons type_id rest ih =>
    refine Asks.bind (peeks (idle_admits none) _) fun name => ?_
    refine Asks.bind (reads_row_fields 20 type_id []) fun fields => ?_
    exact Asks.bind ih fun _ => Asks.pure _

theorem renders_row_fields (max_len : ℕ) (shown : List (JavaValues.FieldInfo × Value)) :
    Asks Idle (render_row_fields t reads max_len shown) := by
  induction shown with
  | nil => exact Asks.pure _
  | cons fv rest ih =>
    exact Asks.bind (renders_committed t reads fv.2 max_len) fun _ =>
      Asks.bind ih fun _ => Asks.pure _

theorem renders_row (row : ProjectedRow) (got : Option (Except String (List Value))) (max_len : ℕ) :
    Asks Idle (render_query_row t reads row got max_len) := by
  unfold render_query_row
  split
  · exact renders (idle_admits none) t _ _ _
  · exact Asks.pure _
  · dsimp only
    split
    · exact Asks.pure _
    · split
      · exact Asks.bind (renders_row_fields t reads max_len _) fun _ => Asks.pure _
      · exact Asks.pure _

theorem renders_rows (max_len : ℕ)
    (rows : List (ProjectedRow × Option (Except String (List Value)))) :
    Asks Idle (render_query_rows t reads max_len rows) := by
  induction rows with
  | nil => exact Asks.pure _
  | cons row rest ih =>
    exact Asks.bind (renders_row t reads row.1 row.2 max_len) fun _ =>
      Asks.bind ih fun _ => Asks.pure _

theorem projects_rows (rows : List Value) (max_len : ℕ) :
    Asks Idle (project_query_rows t rows max_len) := by
  refine Asks.bind (peeks (idle_admits none) _) fun typed => ?_
  refine Asks.bind (reads_shapes _) fun shapes => ?_
  refine Asks.bind (peeks (idle_admits none) _) fun rows => ?_
  have hcommit : Asks Idle
      (DeepNodes.extend_committed .none (rows.flatMap fun row => committed_values row.2)) :=
    Asks.bind (reads_wave (idle_admits none) _ _) fun _ =>
      Asks.bind (reads_wave (idle_admits none) _ _) fun _ => Asks.pure _
  refine Asks.bind hcommit fun reads => ?_
  refine Asks.bind (Asks.bind (peeks (idle_admits none) _) fun _ => Asks.pure _) fun reads => ?_
  exact renders_rows t reads max_len rows

theorem sends_to_array (id : UInt64) (type_id : ClassId) :
    Tries Idle (invoke_named tid id type_id "toArray" []) := by
  refine Tries.bind (consults (idle_admits none) _) fun found => ?_
  rcases found with _ | ⟨decl, m⟩
  · exact Tries.throw _
  · refine Tries.bind (coerces (idle_admits (some tid)) _ _ _) fun args => ?_
    have hask : Asks Idle (invoke_method (.querying "toArray")
        ⟨some id, tid, decl, m.method_id, args⟩) := Asks.request ⟨by decide, by decide⟩
    refine Tries.bind (Tries.lift hask) fun answer => ?_
    rcases answer with e | ⟨ret, exc⟩
    · exact Tries.throw _
    · exact results (idle_admits none) _ ret exc

theorem reads_query_text (q : UInt64 × ClassId) (max_len : ℕ) :
    Asks Idle (read_query_text t tid q max_len) := by
  have hinvoke : Asks Idle
      (invoke_no_arg (.querying "getQueryString") q.1 q.2 tid "getQueryString") := by
    refine Asks.bind (peeks (idle_admits none) _) fun found => ?_
    split
    · exact Asks.bind (Asks.request ⟨by decide, by decide⟩) fun _ => Asks.pure _
    · exact Asks.pure _
  refine Asks.bind hinvoke fun text => ?_
  split
  · exact Asks.pure _
  · exact Asks.bind (renders (idle_admits none) t _ _ _) fun _ => Asks.pure _

theorem projects_result (q : UInt64 × ClassId) (a : RunNamedQueryArgs) (list : Value) :
    Tries Idle (project_result t tid q a list) := by
  unfold project_result
  split
  · exact Tries.throw _
  · refine Tries.bind (consults (idle_admits none) _) fun list_type => ?_
    refine Tries.bind (sends_to_array tid _ _) fun arr => ?_
    split
    · exact Tries.throw _
    · refine Tries.bind (consults (idle_admits none) _) fun total => ?_
      refine Tries.bind (consults (idle_admits none) _) fun rows => ?_
      refine Tries.bind (Tries.lift (reads_query_text t tid q _)) fun text => ?_
      exact Tries.bind (Tries.lift (projects_rows t rows _)) fun _ => Tries.pure _

end Rows

section Finding

variable (t : Printing) (n : ℕ) (tid : ThreadId)

theorem resolves_idle (frame : Option Frame) (expr : String) :
    Tries Idle (resolve t n tid frame expr) :=
  resolves (idle_admits (some tid)) t (level_asks (idle_admits (some tid)) t n).1
    (level_asks (idle_admits (some tid)) t n).2 frame expr

theorem finds_first (how : String → String) (named : List (String × Value)) :
    Asks Idle (first_em how named) := by
  induction named with
  | nil => exact Asks.pure _
  | cons nv rest ih =>
    unfold first_em
    split
    · exact ih
    · refine Asks.bind (peeks (idle_admits none) _) fun type_id => ?_
      cases type_id with
      | none => exact ih
      | some type_id =>
        refine Asks.bind (peeks (idle_admits none) _) fun api => ?_
        cases api with
        | none => exact ih
        | some api => exact Asks.bind (peeks (idle_admits none) _) fun _ => Asks.pure _

theorem finds_in_fields (this_id : UInt64) (frame_index : ℕ) :
    Asks Idle (em_in_object_fields this_id frame_index) := by
  refine Asks.bind (peeks (idle_admits none) _) fun fields => ?_
  dsimp only
  split
  · exact Asks.pure _
  · refine Asks.bind (Asks.request trivial) fun values => ?_
    split
    · exact Asks.pure _
    · exact finds_first _ _

theorem finds_in_locals (fr : Frame) (frame_index : ℕ) :
    Asks Idle (em_in_locals tid fr frame_index) := by
  refine Asks.bind (peeks (idle_admits none) _) fun vars => ?_
  dsimp only
  split
  · exact Asks.pure _
  · refine Asks.bind (Asks.request trivial) fun values => ?_
    split
    · exact Asks.pure _
    · exact finds_first _ _

theorem finds_in_frame (fr : Frame) (frame_index : ℕ) :
    Asks Idle (em_in_frame tid fr frame_index) := by
  refine Asks.bind (Asks.request trivial) fun this_id => ?_
  extract_lets finish
  have hend : ∀ of_this, Asks Idle (finish of_this) := by
    rintro (_ | found)
    · exact finds_in_locals tid fr frame_index
    · exact Asks.pure _
  rcases this_id with e | this_id
  · exact hend none
  · dsimp only
    split
    · exact hend none
    · exact Asks.bind (finds_in_fields this_id frame_index) hend

theorem finds_entity_manager (frame : Option Frame) (frame_index : ℕ) (given : Option String) :
    Tries Idle (find_entity_manager t n tid frame frame_index given) := by
  unfold find_entity_manager
  split
  · refine Tries.bind (Tries.explain _ (resolves_idle t n tid frame _)) fun value => ?_
    split
    · exact Tries.throw _
    · refine Tries.bind (consults (idle_admits none) _) fun type_id => ?_
      refine Tries.bind (observes (idle_admits none) _) fun name => ?_
      exact Tries.bind (Tries.lift (peeks (idle_admits none) _)) fun _ => Tries.pure _
  · exact Tries.throw _
  · refine Tries.bind (Tries.lift (finds_in_frame tid _ frame_index)) fun found => ?_
    cases found with
    | none => exact Tries.throw _
    | some em => exact Tries.pure _

theorem finds_frame (frame_index : ℕ) : Asks Idle (query_frame tid frame_index) := by
  refine Asks.bind (Asks.request trivial) fun frames => ?_
  split
  · exact Asks.pure _
  · exact Asks.pure _

end Finding

section Opening

variable (p : Provider) (t : Printing) (numbers : Numbers) (n : ℕ) (tid : ThreadId)
  (frame : Option Frame) {log log' : Log}

/-- The query `q` has the bindings of `plan`, and nothing else was done. -/
structure Opened (plan : List QueryParam) (q : UInt64) (log : Log) : Prop where
  unrun : (ledger p log).runs = []
  unset : (ledger p log).flushes = []
  bound : List.Forall₂ (Bound numbers log) plan ((ledger p log).settings q).bound

variable {plan : List QueryParam}

theorem Opened.extends {q : UInt64} (h : Opened p numbers plan q log) (hext : Extends Idle log log')
    : Opened p numbers plan q log' := by
  have hsame := ledger_extends p hext
  exact ⟨hsame ▸ h.unrun, hsame ▸ h.unset, hsame.symm ▸ bounds_mono hext.subset h.bound⟩

theorem json_sources (v : Json) (log : Log) :
    Trial (fun r log' => Extends Idle log log' ∧ SourceOf numbers log' (.json v) r.1)
      (fun log' => Extends Idle log log') (json_param_to_value numbers v) log := by
  unfold json_param_to_value
  cases v with
  | null => exact trial_pure ⟨Extends.refl, rfl⟩
  | bool b => exact trial_pure ⟨Extends.refl, rfl⟩
  | string s =>
    refine Trial.bind (creates_string _ s log) ?_
    intro id log' hid
    exact trial_pure hid
  | number k =>
    dsimp only
    split
    · rename_i i hi
      exact trial_pure ⟨Extends.refl, Or.inl ⟨i, hi, rfl⟩⟩
    · rename_i hnone
      split
      · rename_i bits hbits
        exact trial_pure ⟨Extends.refl, Or.inr ⟨hnone, bits, hbits, rfl⟩⟩
      · exact trial_throw Extends.refl
  | array items => exact trial_throw Extends.refl
  | object map => exact trial_throw Extends.refl

theorem param_sources (param : QueryParam) (log : Log) :
    Trial (fun r log' => Extends Idle log log' ∧ SourceOf numbers log' param.source r.1)
      (fun log' => Extends Idle log log') (param_value t numbers n tid frame param) log := by
  obtain ⟨key, json | expr⟩ := param
  · exact json_sources numbers json log
  · refine Trial.bind (trial_explain _ (idle_trial (resolves_idle t n tid frame expr) log)) ?_
    intro v log' hext
    exact trial_pure ⟨hext, trivial⟩

theorem key_sources (key : ParamKey) (log : Log) :
    Trial (fun k log' => Extends Idle log log' ∧ KeyOf log' key k)
      (fun log' => Extends Idle log log') (key_value key) log := by
  cases key with
  | named name =>
    refine Trial.bind (creates_string _ name log) ?_
    intro id log' hid
    exact trial_pure hid
  | position i => exact trial_pure ⟨Extends.refl, rfl⟩

theorem followed_object (q : UInt64) (q_type : ClassId) (ret : Value) (log : Log) :
    Trial (fun next log' => Extends Idle log log' ∧ next.1 = (as_object_id ret).getD q)
      (fun log' => Extends Idle log log') (followed q q_type ret) log := by
  unfold followed
  split
  · rename_i hret
    exact trial_pure ⟨Extends.refl, by rw [hret]; rfl⟩
  · rename_i next hret
    split
    · rename_i hsame
      exact trial_pure ⟨Extends.refl, by rw [hret]; exact hsame.symm⟩
    · refine Trial.bind (idle_trial (consults (idle_admits none) _) log) ?_
      intro type_id log' hext
      exact trial_pure ⟨hext, by rw [hret]; rfl⟩

theorem set_followed (l : Ledger) (method : String) (call : Invocation) (q : UInt64) (ret : Value) :
    (l.set p method call q ret).settings ((as_object_id ret).getD q) =
      (l.settings q).set method call.args := by
  refine if_pos ?_
  cases hret : as_object_id ret with
  | none =>
    refine Or.inr ⟨rfl, ?_⟩
    unfold lands
    rw [hret]
  | some next => exact Or.inl rfl

theorem binds_one (param : QueryParam) {q : UInt64} (q_type : ClassId)
    (h : Opened p numbers plan q log) :
    Trial (fun r log' => Opened p numbers (plan ++ [param]) r.1.1 log') (Unrun p)
      (bind_parameter t numbers n tid frame param q q_type) log := by
  have hunrun {log' : Log} (hext : Extends Idle log log') : Unrun p log' :=
    (h.extends p numbers hext).unrun
  refine Trial.bind (Trial.mono (param_sources t numbers n tid frame param log)
    (fun _ _ h => h) fun _ hext => hunrun hext) ?_
  rintro value log₁ ⟨hext₁, hsource⟩
  refine Trial.bind (Trial.mono (idle_trial (Tries.lift (renders (idle_admits none) t _ _ _)) log₁)
    (fun _ _ h => h) fun _ hext => hunrun (hext₁.trans hext)) ?_
  intro rendered log₂ hext₂
  refine Trial.bind (Trial.mono (key_sources param.key log₂) (fun _ _ h => h)
    fun _ hext => hunrun ((hext₁.trans hext₂).trans hext)) ?_
  rintro key log₃ ⟨hext₃, hkey⟩
  have hopened := h.extends p numbers ((hext₁.trans hext₂).trans hext₃)
  refine Trial.bind (trial_explain _ (Trial.mono
    (invoke_named_sends p tid q q_type "setParameter" [key, value.1] log₃) (fun _ _ h => h)
      fun _ hfail => hfail.unrun p (by decide) hopened.unrun)) ?_
  rintro ret log₄ ⟨hsub, call, hargs, hledger⟩
  have hset : ledger p log₄ = (ledger p log₃).set p "setParameter" call q ret := hledger
  refine Trial.bind (Trial.mono (followed_object q q_type ret log₄) (fun _ _ h => h) ?_) ?_
  · intro log₅ hext
    unfold Unrun
    rw [ledger_extends p hext, hset]
    exact hopened.unrun
  · rintro next log₅ ⟨hext, hnext⟩
    refine trial_pure ⟨?_, ?_, ?_⟩
    · rw [ledger_extends p hext, hset]
      exact hopened.unrun
    · rw [ledger_extends p hext, hset]
      exact hopened.unset
    · rw [ledger_extends p hext, hset, hnext, set_followed]
      refine bounds_mono hext.subset ?_
      refine List.rel_append (bounds_mono hsub hopened.bound) (.cons ?_ .nil)
      have hsources := hsource.mono (List.Subset.trans (hext₂.trans hext₃).subset hsub)
      exact ⟨key, value.1, hkey.mono hsub, hsources, hargs⟩

theorem binds_all (rest : List QueryParam) (q : UInt64 × ClassId)
    (h : Opened p numbers plan q.1 log) :
    Trial (fun r log' => Opened p numbers (plan ++ rest) r.1.1 log') (Unrun p)
      (bind_parameters t numbers n tid frame rest q) log := by
  induction rest generalizing plan q log with
  | nil =>
    rw [List.append_nil]
    exact trial_pure h
  | cons param rest ih =>
    refine Trial.bind (binds_one p t numbers n tid frame param q.2 h) ?_
    intro one log₁ hone
    refine Trial.bind (ih one.1 hone) ?_
    intro more log₂ hmore
    rw [List.append_assoc] at hmore
    exact trial_pure hmore

theorem opens (em : FoundEm) (query_name : String) (plan : List QueryParam)
    (hopening : ledger p log = opening p) :
    Trial (fun r log' => Opened p numbers plan r.1.1 log') (Unrun p)
      (open_named_query t numbers n tid frame em query_name plan) log := by
  have hunrun {log' : Log} (hsame : ledger p log' = opening p) : Unrun p log' := by
    unfold Unrun
    rw [hsame]
    rfl
  have hidle {log' log'' : Log} (hsame : ledger p log' = opening p)
      (hext : Extends Idle log' log'') : ledger p log'' = opening p :=
    (ledger_extends p hext).trans hsame
  have hcreate : Trial (fun q log' => ledger p log' = opening p) (Unrun p)
      (create_named_query tid em query_name) log := by
    refine Trial.bind (Trial.mono (creates_string _ query_name log) (fun _ _ h => h)
      fun _ hext => hunrun (hidle hopening hext)) ?_
    rintro name_id log₁ ⟨hext₁, -⟩
    have hfirst := hidle hopening hext₁
    refine Trial.bind (trial_explain _ (Trial.mono (invoke_named_sends p tid em.obj_id em.type_id
      "createNamedQuery" [value_object name_id] log₁) (fun _ _ h => h)
        fun _ hfail => hfail.unrun p (by decide) (hunrun hfirst))) ?_
    rintro query log₂ ⟨-, call, -, hledger⟩
    have hsame : ledger p log₂ = opening p := by
      rw [hledger, hfirst]
      rfl
    split
    · exact trial_throw (hunrun hsame)
    · refine Trial.bind (Trial.mono (idle_trial (consults (idle_admits none) _) log₂)
        (fun _ _ h => h) fun _ hext => hunrun (hidle hsame hext)) ?_
      intro q_type log₃ hext
      exact trial_pure (hidle hsame hext)
  refine Trial.bind hcreate ?_
  intro q log₁ hsame
  have hopened : Opened p numbers [] q.1 log₁ := by
    refine ⟨?_, ?_, ?_⟩
    · rw [hsame]
      rfl
    · rw [hsame]
      rfl
    · rw [hsame]
      exact .nil
  exact binds_all p t numbers n tid frame plan q hopened

end Opening

end JavaDebug.OpenedQueries
