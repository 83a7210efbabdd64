import JavaDebug.DeepNodes

/-!
Which requests an evaluation and the rendering of its result come to ask,
whatever they are answered: the commands that only read, and, where there is a
thread, invocations that an expression or a rendering is for. One lemma for each
program of the evaluator, in the order of their definitions.
-/
namespace JavaDebug.AskedRequests

open Jdwp Outcomes JavaValues MapWalks
  LazyReceivers BooleanTrees Overloads WireReader
  Requests Heads Evaluations
open FrameNames (Frame)
open ChainWalks (ReadPath Resolved)
open CollectionScans (Entry Scan)
open Selectors (ByteRender)
open Filters (Predicate Kept)
open Invocations (Invocation)

section Programs

variable {α β : Type} {allowed : Request → Prop}

/-- A program that asks only what is allowed. -/
def Asks (allowed : Request → Prop) (m : Ask α) : Prop :=
  Ensures (I := Jvm) allowed (fun _ => True) m

def Tries (allowed : Request → Prop) (m : Try α) : Prop := Asks allowed m.run

/-- The request sends no `InvokeMethod`. -/
def Quiet : Request → Prop
  | .invoke_method _ _ => False
  | _ => True

/-- The invocation is for an expression or a rendering. -/
def Evaluating : Purpose → Prop
  | .querying _ => False
  | _ => True

/-- What an evaluation on `thread_id`, or without a thread, may ask. -/
structure Admits (allowed : Request → Prop) (thread_id : Option ThreadId) : Prop where
  quiet : ∀ o, Quiet o → allowed o
  invoking : ∀ tid, thread_id = some tid → ∀ p, Evaluating p → ∀ call : Invocation,
    allowed (.invoke_method p call)

theorem Asks.pure (a : α) : Asks allowed (Pure.pure a) := ensures_pure trivial

theorem Asks.bind {m : Ask α} {f : α → Ask β} (hm : Asks allowed m) (hf : ∀ a, Asks allowed (f a)) :
    Asks allowed (m >>= f) :=
  Ensures.bind hm fun a _ => hf a

theorem Asks.mapM {f : α → Ask β} (h : ∀ a, Asks allowed (f a)) (l : List α) :
    Asks allowed (l.mapM f) := ensures_mapM h l

theorem Asks.request {o : Request} (h : allowed o) : Asks allowed (request o) :=
  ensures_perform h fun _ => trivial

theorem Tries.pure (a : α) : Tries allowed (Pure.pure a) := Asks.pure _

theorem Tries.throw (e : String) : Tries allowed (throw e : Try α) := Asks.pure _

theorem Tries.bind {m : Try α} {f : α → Try β} (hm : Tries allowed m)
    (hf : ∀ a, Tries allowed (f a)) : Tries allowed (m >>= f) :=
  Asks.bind hm fun r => by
    cases r with
    | ok a => exact hf a
    | error e => exact Asks.pure _

theorem Tries.lift {m : Ask α} (hm : Asks allowed m) : Tries allowed (liftM m : Try α) :=
  Asks.bind hm fun _ => Asks.pure _

theorem Tries.run {m : Try α} (hm : Tries allowed m) : Asks allowed m.run := hm

theorem Tries.settled (r : Except String α) : Tries allowed (ExceptT.mk (Pure.pure r) : Try α) :=
  Asks.pure r

theorem Tries.explain {ε : Type} {m : Ask (Except ε α)} (f : ε → String) (hm : Asks allowed m) :
    Tries allowed (explain f m) := Asks.bind hm fun _ => Asks.pure _

theorem Tries.mapM {f : α → Try β} (h : ∀ a, Tries allowed (f a)) (l : List α) :
    Tries allowed (l.mapM f) := by
  induction l with
  | nil => exact Tries.pure _
  | cons a rest ih =>
    rw [List.mapM_cons]
    exact Tries.bind (h a) fun _ => Tries.bind ih fun _ => Tries.pure _

end Programs

section Calls

variable {α : Type} {allowed : Request → Prop} {thread_id : Option ThreadId}

theorem peeks (A : Admits allowed thread_id) (f : Sight → α) : Asks allowed (peek f) :=
  Asks.bind (Asks.request (A.quiet .look trivial)) fun _ => Asks.pure _

theorem observes (A : Admits allowed thread_id) (f : Sight → α) : Tries allowed (observe f) :=
  Tries.lift (peeks A f)

theorem consults (A : Admits allowed thread_id) (f : Sight → Except String α) :
    Tries allowed (consult f) := peeks A f

variable {tid : ThreadId}

variable {p : Purpose}

theorem invokes (A : Admits allowed (some tid)) (hp : Evaluating p) (call : Invocation) :
    Asks allowed (invoke_method p call) :=
  Asks.request (A.invoking tid rfl p hp call)

theorem results (A : Admits allowed thread_id) (name : String) (ret : Value) (exc : UInt64) :
    Tries allowed (invoke_result name ret exc) := by
  unfold invoke_result
  split
  · exact Tries.pure _
  · exact Tries.bind (observes A _) fun _ => Tries.throw _

variable (A : Admits allowed (some tid))

include A

theorem boxes (v : Value) : Asks allowed (box_primitive tid v) := by
  unfold box_primitive
  split
  · exact Asks.pure _
  · refine Asks.bind (peeks A _) fun found => ?_
    split
    · exact Asks.pure _
    · exact Asks.bind (invokes (p := .boxing) A trivial _) fun _ => Asks.pure _

theorem coerces (params : List String) (args : List Value) (i : ℕ) :
    Tries allowed (coerce_from tid params i args) := by
  induction args generalizing i with
  | nil => exact Tries.pure _
  | cons v rest ih =>
    refine Tries.bind ?_ fun w => Tries.bind (ih (i + 1)) fun ws => Tries.pure _
    unfold coerce_arg
    split
    · refine Tries.bind (Tries.lift (boxes A v)) fun boxed => ?_
      split
      · exact Tries.pure _
      · exact Tries.throw _
    · exact Tries.pure _

theorem sends (hp : Evaluating p) (call : Invocation) (name failed : String) :
    Tries allowed (send p call name failed) := by
  refine Tries.bind (Tries.lift (invokes A hp call)) fun r => ?_
  split
  · exact Tries.throw _
  · exact results A _ _ _

theorem sends_call (hp : Evaluating p) (receiver : Option UInt64) (decl : ClassId) (m : MethodInfo)
    (name failed : String) (args : List Value) :
    Tries allowed (send_call p tid receiver decl m name failed args) :=
  Tries.bind (coerces A _ args 0) fun _ => sends A hp _ _ _

theorem invokes_no_arg (hp : Evaluating p) (id : UInt64) (type_id : ClassId) (method : String) :
    Asks allowed (invoke_no_arg p id type_id tid method) := by
  refine Asks.bind (peeks A _) fun found => ?_
  split
  · exact Asks.bind (invokes A hp _) fun _ => Asks.pure _
  · exact Asks.pure _

theorem invokes_for_object (hp : Evaluating p) (id : UInt64) (type_id : ClassId) (method : String) :
    Asks allowed (invoke_for_object p id type_id tid method) :=
  Asks.bind (invokes_no_arg A hp id type_id method) fun _ => Asks.pure _

theorem reads_entry (hp : Evaluating p) (e : Value) : Asks allowed (entry_pair p e tid) := by
  unfold entry_pair
  split
  · exact Asks.pure _
  · refine Asks.bind (peeks A _) fun etype => ?_
    split
    · exact Asks.pure _
    · refine Asks.bind (invokes_no_arg A hp _ _ _) fun k => ?_
      split
      · exact Asks.pure _
      · exact Asks.bind (invokes_no_arg A hp _ _ _) fun _ => Asks.pure _

theorem reads_entries (hp : Evaluating p) (id : UInt64) (type_id : ClassId) :
    Asks allowed (entry_array p id type_id tid) := by
  refine Asks.bind (invokes_for_object A hp _ _ _) fun set => ?_
  split
  · exact Asks.pure _
  · refine Asks.bind (peeks A _) fun set_type => ?_
    split
    · exact Asks.pure _
    · exact invokes_for_object A hp _ _ _

end Calls

section Rendering

variable {allowed : Request → Prop} {thread_id : Option ThreadId} (A : Admits allowed thread_id)
  (t : Printing)

include A

variable (reads : ValueReads)

theorem reads_contents (is_string : Bool) (id : UInt64) :
    Asks allowed (contents_if reads is_string id) := by
  unfold contents_if string_contents
  split
  · split
    · exact Asks.pure _
    · exact peeks A _
  · exact Asks.pure _

theorem reads_type (id : UInt64) : Asks allowed (reference_type reads id) := by
  unfold reference_type
  split
  · exact Asks.pure _
  · exact peeks A _

theorem renders_resolved (id : UInt64) (type_id : ClassId) (sig name : String) (tag : UInt8)
    (max_len : ℕ) (how : ByteRender) :
    Asks allowed
      (render_resolved_object t reads id type_id sig name tag thread_id max_len how) := by
  refine Asks.bind (peeks A _) fun leaf => ?_
  split
  · exact Asks.pure _
  · refine Asks.bind (peeks A _) fun state => ?_
    split
    · exact Asks.pure _
    · split
      · exact Asks.pure _
      · rename_i tid
        refine Asks.bind ?_ fun out => by split <;> exact Asks.pure _
        refine Asks.bind (peeks A _) fun found => ?_
        split
        · split
          · refine Asks.bind (invokes (p := .to_string) A trivial _) fun r => ?_
            split
            · exact Asks.pure _
            · split
              · exact Asks.pure _
              · exact Asks.bind (peeks A _) fun _ => Asks.pure _
          · exact Asks.pure _
        · exact Asks.pure _

theorem renders_object (id : UInt64) (tag : UInt8) (max_len : ℕ) (how : ByteRender) :
    Asks allowed (render_object t reads id tag thread_id max_len how) := by
  refine Asks.bind (reads_contents A reads _ id) fun s => ?_
  split
  · exact Asks.pure _
  · refine Asks.bind (reads_type A reads id) fun type_id => ?_
    split
    · exact Asks.pure _
    · refine Asks.bind (peeks A _) fun sig => Asks.bind (reads_contents A reads _ id) fun s => ?_
      split
      · exact Asks.pure _
      · exact renders_resolved A t _ _ _ _ _ _ _ _

theorem renders (v : Value) (max_len : ℕ) (how : ByteRender) :
    Asks allowed (render_value t v thread_id max_len how) := by
  unfold render_value render_value_committed
  split
  · split
    · exact Asks.pure _
    · exact renders_object A t _ _ _ _ _
  · exact Asks.pure _

end Rendering

section Heads

variable {allowed : Request → Prop} {thread_id : Option ThreadId} (A : Admits allowed thread_id)
  {r : Deeper} (hr : ∀ frame e, Tries allowed (r.resolve_expression frame e))
  (frame : Option Frame)

theorem gets_this (A : Admits allowed thread_id) (tid : ThreadId) (frame_id : ℕ) :
    Asks allowed (get_this_object tid frame_id) := Asks.request (A.quiet _ trivial)

theorem gets_frame_values (A : Admits allowed thread_id) (tid : ThreadId) (frame_id : ℕ)
    (slots : List (ℕ × UInt8)) : Asks allowed (get_frame_values tid frame_id slots) :=
  Asks.request (A.quiet _ trivial)

theorem gets_object_values (A : Admits allowed thread_id) (id : UInt64) (fields : List ℕ) :
    Asks allowed (get_object_values id fields) := Asks.request (A.quiet _ trivial)

include A hr

theorem evaluates_arg (a : ArgLit) : Tries allowed (arglit_to_value r frame a) := by
  unfold arglit_to_value
  split
  case h_8 s =>
    refine Tries.bind (Tries.explain _ (Asks.request (A.quiet _ trivial))) fun _ => Tries.pure _
  case h_9 e => exact Tries.explain _ (hr frame e)
  all_goals exact Tries.pure _

theorem evaluates_args (args : List ArgLit) : Tries allowed (eval_args r frame args) :=
  Tries.mapM (evaluates_arg A hr frame) args

theorem invokes_segment (obj_id : UInt64) (type_id : ClassId) (seg : Seg) (args : List ArgLit) :
    Tries allowed (invoke_segment_method r frame thread_id obj_id type_id seg args) := by
  unfold invoke_segment_method
  split
  · exact Tries.throw _
  · refine Tries.bind (evaluates_args A hr frame args) fun argvals => ?_
    refine Tries.bind (consults A _) fun found => ?_
    split
    · exact Tries.throw _
    · exact sends_call (p := .written seg) A trivial _ _ _ _ _ _

theorem invokes_static (type_id : ClassId) (dotted : String) (member : Seg) (args : List ArgLit) :
    Tries allowed (invoke_static_member r frame thread_id type_id dotted member args) := by
  unfold invoke_static_member
  split
  · exact Tries.throw _
  · refine Tries.bind (evaluates_args A hr frame args) fun argvals => ?_
    refine Tries.bind (consults A _) fun found => ?_
    split
    · exact Tries.pure _
    · exact Tries.bind (sends_call (p := .written member) A trivial _ _ _ _ _ _) fun _ =>
        Tries.pure _

omit hr in
theorem reads_static (type_id : ClassId) (dotted name : String) :
    Tries allowed (read_static_field type_id dotted name) := by
  refine Tries.bind (consults A _) fun found => ?_
  split
  · exact Tries.pure _
  · exact Tries.bind (consults A _) fun _ => Tries.pure _

theorem tries_copies (dotted : String) (member : Seg) (copies rest : List ClassId) (path : ReadPath)
    (i : ℕ) (absent : Option String) :
    Tries allowed (try_copies r thread_id frame dotted member copies path i rest absent) := by
  induction rest generalizing i absent with
  | nil => exact Tries.bind (observes A _) fun _ => Tries.throw _
  | cons type_id rest ih =>
    unfold try_copies
    cases member.args
    all_goals
      refine Tries.bind (by
        first
        | exact reads_static A _ _ _
        | exact invokes_static A hr frame _ _ _ _) fun attempt => ?_
      cases attempt with
      | ok v =>
        dsimp only
        split
        · exact Tries.bind (observes A _) fun _ => Tries.pure _
        · exact Tries.pure _
      | error what => exact ih _ _

variable (segs : List Seg)

theorem walks_static (path : ReadPath) (k : ℕ) :
    Tries allowed (static_walk r thread_id frame segs path k) := by
  induction k with
  | zero => exact Tries.throw _
  | succ k ih =>
    unfold static_walk
    split
    · exact ih
    · dsimp only
      split
      · exact ih
      · refine Tries.bind (consults A _) fun copies => ?_
        split
        · exact ih
        · exact Tries.bind (tries_copies A hr frame _ _ _ _ _ _ _) fun _ => Tries.pure _

theorem resolves_static (path : ReadPath) :
    Tries allowed (resolve_static_head r thread_id frame segs path) := by
  unfold resolve_static_head
  split
  · exact Tries.throw _
  · exact walks_static A hr frame _ _ _

omit hr in
theorem resolves_handle (id : UInt64) : Tries allowed (resolve_object_handle id) := by
  unfold resolve_object_handle
  split
  · exact Tries.throw _
  · refine Tries.bind (observes A _) fun alive => ?_
    split
    · exact Tries.throw _
    · split
      · exact Tries.throw _
      · exact Tries.throw _
    · exact Tries.bind (observes A _) fun _ => Tries.pure _

omit hr in
theorem resolves_head (tid : ThreadId) (fr : Frame) (seg : Seg) :
    Tries allowed (resolve_head tid fr seg) := by
  unfold resolve_head
  split
  · exact Tries.throw _
  · split
    · refine Tries.bind (Tries.explain _ (gets_this A _ _)) fun obj => ?_
      split
      · exact Tries.throw _
      · exact Tries.pure _
    · refine Tries.bind (consults A _) fun vars => ?_
      split
      · exact Tries.throw _
      · split
        · exact Tries.throw _
        · exact Tries.bind (Tries.explain _ (gets_frame_values A _ _ _)) fun _ =>
            Tries.settled _

omit hr in
theorem resolves_member_of_frame (tid : ThreadId) (fr : Frame) (name : String) :
    Asks allowed (resolve_bare_member_of_frame tid fr name) := by
  have hinstance : Asks allowed (instance_member tid fr name) := by
    refine Asks.bind (gets_this A _ _) fun this_obj => ?_
    split
    · exact Asks.pure _
    · split
      · exact Asks.pure _
      · refine Asks.bind (peeks A _) fun found => ?_
        split
        · exact Asks.bind (gets_object_values A _ _) fun _ => Asks.pure _
        · exact Asks.pure _
  refine Asks.bind hinstance fun v => ?_
  split
  · exact Asks.pure _
  · exact peeks A _

theorem resolves_other_head (head_seg : Seg) (head_err : Option String) (path : ReadPath) :
    Tries allowed (resolve_other_head r thread_id frame segs head_seg head_err path) := by
  unfold resolve_other_head
  extract_lets finish
  have hstatic : ∀ member, Tries allowed (finish member) := fun member => by
    cases member with
    | some v => exact Tries.pure _
    | none =>
      refine Tries.bind (Tries.lift (resolves_static A hr frame _ _).run) fun found => ?_
      cases found with
      | ok found => exact Tries.pure _
      | error e => exact Tries.bind (observes A _) fun _ => Tries.throw _
  cases thread_id with
  | none => exact Tries.bind (Tries.pure none) hstatic
  | some tid =>
    cases frame with
    | none => exact Tries.bind (Tries.pure none) hstatic
    | some fr =>
      dsimp only
      split
      · exact Tries.bind (Tries.lift (resolves_member_of_frame A _ _ _)) hstatic
      · exact Tries.bind (Tries.pure none) hstatic

theorem resolves_any_head (head_seg : Seg) (path : ReadPath) :
    Tries allowed (resolve_any_head r thread_id frame segs head_seg path) := by
  unfold resolve_any_head
  split
  · exact Tries.bind (resolves_handle A _) fun _ => Tries.pure _
  · split
    · refine Tries.bind (Tries.lift (resolves_head A _ _ _).run) fun head => ?_
      split
      · exact Tries.pure _
      · exact resolves_other_head A hr _ _ _ _ _
    · exact resolves_other_head A hr _ _ _ _ _

end Heads

section Invoked

variable {allowed : Request → Prop} {tid : ThreadId} (A : Admits allowed (some tid)) (t : Printing)

include A

theorem indexes_by_invoking {r : Deeper}
    (hr : ∀ frame e, Tries allowed (r.resolve_expression frame e)) (frame : Option Frame)
    (id : UInt64) (type_id : ClassId) (key : ArgLit) (label : String) :
    Tries allowed (index_by_invoking t r frame tid id type_id key label) := by
  refine Tries.bind (consults A _) fun m => ?_
  split
  · exact Tries.throw _
  · refine Tries.bind ?_ fun arg => sends (p := .indexing) A trivial _ _ _
    unfold index_key
    split
    · refine Tries.bind (evaluates_arg A hr frame _) fun key_value => ?_
      split
      · refine Tries.bind (Tries.lift (boxes A _)) fun boxed => ?_
        split
        · exact Tries.pure _
        · exact Tries.throw _
      · exact Tries.pure _
    · split
      · exact Tries.pure _
      · exact Tries.throw _

theorem scans_entries (entries : List Value) : Asks allowed (scan_entries t tid entries) := by
  induction entries with
  | nil => exact Asks.pure _
  | cons e rest ih =>
    refine Asks.bind (reads_entry (p := .scanning) A trivial e) fun kv => ?_
    split
    · exact ih
    · exact Asks.bind (renders A t _ _ _) fun _ => Asks.bind ih fun _ => Asks.pure _

theorem scans_map (id : UInt64) (type_id : ClassId) (label name : String) :
    Tries allowed (scan_map_entries t tid id type_id label name) := by
  refine Tries.bind (Tries.lift (invokes_for_object (p := .scanning) A trivial _ _ _))
    fun set => ?_
  split
  · exact Tries.throw _
  · refine Tries.bind (consults A _) fun set_type => ?_
    refine Tries.bind (Tries.lift (invokes_for_object (p := .scanning) A trivial _ _ _))
      fun arr => ?_
    split
    · exact Tries.throw _
    · exact Tries.bind (consults A _) fun found =>
        Tries.bind (Tries.lift (scans_entries A t _)) fun _ => Tries.pure _

theorem scans_by_invoking (id : UInt64) (type_id : ClassId) (label name : String) (entries : Bool) :
    Tries allowed (scan_by_invoking t tid id type_id label name entries) := by
  refine Tries.bind (observes A _) fun kind => ?_
  split
  · refine Tries.bind (Tries.lift (invokes_for_object (p := .scanning) A trivial _ _ _))
      fun arr => ?_
    split
    · exact Tries.throw _
    · exact consults A _
  · split
    · exact scans_map A t _ _ _ _
    · exact Tries.throw _
  · exact Tries.throw _

end Invoked

section Subscripts

variable {allowed : Request → Prop} {thread_id : Option ThreadId} (A : Admits allowed thread_id)
  (t : Printing) {r : Deeper} (hr : ∀ frame e, Tries allowed (r.resolve_expression frame e))
  (frame : Option Frame)

include A

theorem finds_type (id : UInt64) (label : String) : Tries allowed (type_and_name id label) :=
  Tries.bind (consults A _) fun _ => Tries.bind (observes A _) fun _ => Tries.pure _

include hr in
theorem indexes (base : Value) (key : ArgLit) (label : String) (path : ReadPath) :
    Tries allowed (apply_index t r thread_id frame base key label path) := by
  unfold apply_index
  split
  · exact Tries.throw _
  · split
    · exact Tries.bind (consults A _) fun _ => Tries.pure _
    · refine Tries.bind (finds_type A _ _) fun ty => Tries.bind (consults A _) fun found => ?_
      cases thread_id with
      | none =>
        dsimp only
        split
        · exact Tries.pure _
        · exact Tries.throw _
        · exact Tries.throw _
      | some tid =>
        dsimp only
        split
        · exact Tries.pure _
        · exact Tries.bind (indexes_by_invoking A t hr frame _ _ _ _) fun _ => Tries.pure _
        · exact Tries.bind (indexes_by_invoking A t hr frame _ _ _ _) fun _ => Tries.pure _

theorem scans_layout (id : UInt64) (layout : Layout) (name : String) :
    Tries allowed (structural_scan t thread_id id layout name) := by
  refine Tries.bind (consults A _) fun found => ?_
  split
  · exact Tries.pure _
  · exact Tries.pure _
  · exact Tries.bind (Tries.lift (Asks.mapM (fun _ => renders A t _ _ _) _)) fun _ => Tries.pure _

theorem scans (base : Value) (label : String) (entries : Bool) (path : ReadPath) :
    Tries allowed (scan_elements t thread_id base label entries path) := by
  unfold scan_elements
  split
  · exact Tries.throw _
  · refine Tries.bind (Tries.lift (peeks A _)) fun name => ?_
    split
    · exact Tries.bind (consults A _) fun _ => Tries.pure _
    · refine Tries.bind (consults A _) fun type_id => Tries.bind (observes A _) fun layout => ?_
      have hlayout := scans_layout A t
      cases thread_id with
      | none =>
        dsimp only
        split
        · exact Tries.throw _
        · split
          · exact Tries.throw _
          · refine Tries.bind (hlayout _ _ _) fun found => ?_
            split
            · exact Tries.pure _
            · exact Tries.throw _
      | some tid =>
        dsimp only
        split
        · exact Tries.bind (scans_by_invoking A t _ _ _ _ _) fun _ => Tries.pure _
        · split
          · exact Tries.throw _
          · refine Tries.bind (hlayout _ _ _) fun found => ?_
            split
            · exact Tries.pure _
            · exact Tries.bind (scans_by_invoking A t _ _ _ _ _) fun _ => Tries.pure _

theorem slices (base : Value) (a b : Int64) (label : String) (path : ReadPath) :
    Tries allowed (apply_range t thread_id base a b label path) := by
  refine Tries.bind (scans A t _ _ _ _) fun found => ?_
  dsimp only
  split
  · exact Tries.throw _
  · exact Tries.pure _

end Subscripts

section Trees

variable {allowed : Request → Prop} {α β : Type}

mutual

theorem prepares {leaf : α → Try β} (h : ∀ a, Tries allowed (leaf a)) (tree : BoolTree α) :
    Tries allowed (prepare_tree leaf tree) := by
  cases tree with
  | or ts => exact Tries.bind (prepares_all h ts) fun _ => Tries.pure _
  | and ts => exact Tries.bind (prepares_all h ts) fun _ => Tries.pure _
  | not inner => exact Tries.bind (prepares h inner) fun _ => Tries.pure _
  | leaf a => exact Tries.bind (h a) fun _ => Tries.pure _

theorem prepares_all {leaf : α → Try β} (h : ∀ a, Tries allowed (leaf a)) (ts : List (BoolTree α)) :
    Tries allowed (prepare_trees leaf ts) := by
  cases ts with
  | nil => exact Tries.pure _
  | cons tree rest =>
    exact Tries.bind (prepares h tree) fun _ => Tries.bind (prepares_all h rest) fun _ =>
      Tries.pure _

end

mutual

theorem evaluates_tree {leaf : α → Try Bool} (h : ∀ a, Tries allowed (leaf a)) (tree : BoolTree α) :
    Tries allowed (eval_tree leaf tree) := by
  cases tree with
  | or ts => exact evaluates_branches h true ts
  | and ts => exact evaluates_branches h false ts
  | not inner => exact Tries.bind (evaluates_tree h inner) fun _ => Tries.pure _
  | leaf a => exact h a

theorem evaluates_branches {leaf : α → Try Bool} (h : ∀ a, Tries allowed (leaf a)) (stop : Bool)
    (ts : List (BoolTree α)) : Tries allowed (eval_branches leaf stop ts) := by
  cases ts with
  | nil => exact Tries.pure _
  | cons tree rest =>
    refine Tries.bind (evaluates_tree h tree) fun b => ?_
    split
    · exact Tries.pure _
    · exact evaluates_branches h stop rest

end

end Trees

section Chains

variable {allowed : Request → Prop} {thread_id : Option ThreadId} (A : Admits allowed thread_id)
  (t : Printing) {r : Deeper} (hr : ∀ frame e, Tries allowed (r.resolve_expression frame e))
  (hel : ∀ v e, Tries allowed (r.resolve_relative v e)) (frame : Option Frame)
  (lazy : LazyPolicy)

include hr in
theorem prepares_predicate (predicate : String) :
    Tries allowed (prepare_predicate r frame predicate) := by
  unfold prepare_predicate
  refine prepares (fun leaf => ?_) _
  unfold prepare_leaf
  split
  · exact Tries.pure _
  · refine Tries.bind (Tries.settled _) fun lit => ?_
    split
    · exact Tries.bind (hr frame _) fun _ => Tries.pure _
    · exact Tries.pure _

include A

include hel in
theorem keeps_matching (pred : BoolTree Predicate) (elements : List (Value × Option String))
    (k : Kept) : Asks allowed (keep_matching r pred elements k) := by
  have hleaf : ∀ element p, Tries allowed (eval_predicate_leaf r element p) := fun element p => by
    cases p with
    | compare lhs op rhs =>
      refine Tries.bind (hel _ _) fun lv => ?_
      split
      · exact consults A _
      · exact consults A _
    | bool expr =>
      refine Tries.bind (hel _ _) fun v => ?_
      split
      · exact Tries.pure _
      · exact Tries.throw _
  induction elements generalizing k with
  | nil => exact Asks.pure _
  | cons e rest ih =>
    obtain ⟨v, key⟩ := e
    have htree : Tries allowed (eval_predicate_on r v pred) := evaluates_tree (hleaf v) pred
    rw [keep_matching]
    refine Asks.bind htree fun holds => ?_
    exact ih (k.add v key holds)

include hr hel

attribute [local irreducible] prepare_predicate

theorem filters (base : Value) (predicate label : String) (path : ReadPath) :
    Tries allowed (apply_filter t r thread_id frame base predicate label path) := by
  have hprepared := prepares_predicate hr frame predicate
  unfold apply_filter
  refine Tries.bind hprepared fun pred => ?_
  refine Tries.bind (scans A t base label true path) fun found => ?_
  refine Tries.bind (Tries.lift (keeps_matching A hel pred _ _)) fun kept => ?_
  split
  · exact Tries.throw _
  · exact Tries.pure _

theorem subscripts (label : String) (subs : List Subscript) (current : Value) (path : ReadPath) :
    Tries allowed (apply_subscripts t r thread_id frame label subs current path) := by
  induction subs generalizing current path with
  | nil => exact Tries.pure _
  | cons sub rest ih =>
    cases sub with
    | index key => exact Tries.bind (indexes A t hr frame _ _ _ _) fun _ => ih _ _
    | range a b =>
      unfold apply_subscripts
      split
      · exact slices A t _ _ _ _ _
      · exact Tries.throw _
    | filter pred =>
      unfold apply_subscripts
      split
      · exact filters A t hr hel frame _ _ _ _
      · exact Tries.throw _

omit hr hel in
theorem reads_field (obj_id : UInt64) (type_id : ClassId) (seg : Seg) :
    Tries allowed (read_segment_field obj_id type_id seg) := by
  refine Tries.bind (observes A _) fun sig => ?_
  split
  · exact consults A _
  · refine Tries.bind (consults A _) fun found => ?_
    split
    · exact Tries.throw _
    · exact Tries.bind (Tries.explain _ (gets_object_values A _ _)) fun _ => Tries.settled _

omit hel in
theorem resolves_member (current : Value) (seg : Seg) :
    Tries allowed (Evaluations.resolve_member t r thread_id frame lazy current seg) := by
  unfold Evaluations.resolve_member
  split
  · exact Tries.throw _
  · split
    · split
      · exact Tries.throw _
      · refine Tries.bind (consults A _) fun type_id => Tries.bind (consults A _) fun _ => ?_
        split
        · exact invokes_segment A hr frame _ _ _ _
        · exact reads_field A _ _ _
    · exact Tries.throw _

theorem resolves_link (seg : Seg) (current : Value) (path : ReadPath) :
    Tries allowed (resolve_link t r thread_id frame lazy seg current path) :=
  Tries.bind (resolves_member A t hr frame lazy current seg) fun _ =>
    subscripts A t hr hel frame _ _ _ _

omit A hr hel in
theorem singles (what : String) (v : Resolved) : Tries allowed (single what v) := by
  cases v with
  | one v => exact Tries.pure _
  | many h vs ks => exact Tries.throw _

theorem resolves_relative (base : Value) (expr : String) :
    Tries allowed (resolve_relative t r thread_id base expr) := by
  refine Tries.bind (Tries.settled _) fun segs => ?_
  have hlinks : ∀ current path, Tries allowed
      (relative_links t r thread_id segs current path) := by
    induction segs with
    | nil => exact fun _ _ => Tries.pure _
    | cons seg rest ih =>
      intro current path
      exact Tries.bind (resolves_link A t hr hel _ _ _ _ _) fun _ =>
        Tries.bind (singles _ _) fun _ => ih _ _
  exact hlinks _ _

theorem resolves_links (segs : List Seg) (current : Value) (path : ReadPath) :
    Tries allowed (resolve_links t r thread_id frame lazy segs current path) := by
  induction segs generalizing current path with
  | nil => exact Tries.pure _
  | cons seg rest ih =>
    refine Tries.bind (resolves_link A t hr hel _ _ _ _ _) fun found => ?_
    split
    · exact ih _ _
    · split
      · exact Tries.pure _
      · exact Tries.throw _

theorem resolves_start (expr : String) :
    Tries allowed (resolve_start t r thread_id frame expr) := by
  refine Tries.bind (Tries.settled _) fun segs => ?_
  split
  · exact Tries.throw _
  · refine Tries.bind (resolves_any_head A hr frame _ _ _) fun head => ?_
    split
    · exact Tries.throw _
    · exact Tries.bind (subscripts A t hr hel frame _ _ _ _) fun _ => Tries.pure _

theorem resolves_multi (expr : String) :
    Tries allowed (resolve_expression_multi t r thread_id frame lazy expr) := by
  refine Tries.bind (resolves_start A t hr hel frame expr) fun start => ?_
  split
  · exact resolves_links A t hr hel _ _ _ _ _
  · split
    · exact Tries.throw _
    · exact Tries.pure _

theorem resolves (expr : String) : Tries allowed (resolve_expression t r thread_id frame expr) :=
  Tries.bind (resolves_multi A t hr hel frame _ expr) fun _ => singles _ _

end Chains

section Levels

variable {allowed : Request → Prop} {thread_id : Option ThreadId}

/-- However deep an evaluation re-enters itself, it asks only what is admitted. -/
theorem level_asks (A : Admits allowed thread_id) (t : Printing) (n : ℕ) :
    (∀ frame e, Tries allowed ((level t thread_id n).resolve_expression frame e)) ∧
    ∀ v e, Tries allowed ((level t thread_id n).resolve_relative v e) := by
  induction n with
  | zero => exact ⟨fun _ _ => Tries.throw _, fun _ _ => Tries.throw _⟩
  | succ n ih =>
    exact ⟨fun frame e => resolves A t ih.1 ih.2 frame e,
      fun v e => resolves_relative A t ih.1 ih.2 v e⟩

theorem multi_asks (A : Admits allowed thread_id) (t : Printing) (n : ℕ) (frame : Option Frame)
    (lazy : LazyPolicy) (expr : String) :
    Tries allowed (resolve_expression_multi t (level t thread_id n) thread_id frame lazy expr) :=
  resolves_multi A t (level_asks A t n).1 (level_asks A t n).2 frame lazy expr

end Levels

section Deep

open DeepNodes

variable {allowed : Request → Prop} {thread_id : Option ThreadId} (A : Admits allowed thread_id)
  (t : Printing) (opts : Opts) {child : Child}
  (hc : ∀ v st, Asks allowed (child thread_id v st))

theorem reads_wave {α : Type} (A : Admits allowed thread_id) (ids : List UInt64)
    (f : Sight → UInt64 → α) : Asks allowed (read_wave ids f) := by
  unfold read_wave
  split
  · exact Asks.pure _
  · exact peeks A _

theorem commits (A : Admits allowed thread_id) (depth : ℕ) (values : List Value) (st : State) :
    Asks allowed (commit opts depth values st) :=
  Asks.bind (Asks.bind (reads_wave A _ _) fun _ => Asks.bind (reads_wave A _ _) fun _ =>
    Asks.pure _) fun _ => Asks.pure _

theorem collects (A : Admits allowed thread_id) (n : ℕ) (tid : ClassId) :
    Asks allowed (collect_from n tid) := by
  induction n generalizing tid with
  | zero => exact Asks.pure _
  | succ n ih =>
    refine Asks.bind (peeks A _) fun fields => ?_
    split
    · exact Asks.pure _
    · refine Asks.bind (peeks A _) fun above => ?_
      split
      · exact Asks.pure _
      · exact Asks.pure _
      · exact Asks.bind (ih _) fun _ => Asks.pure _

include hc

theorem renders_children (values : List Value) (st : State) :
    Asks allowed (render_children child thread_id values st) := by
  induction values generalizing st with
  | nil => exact Asks.pure _
  | cons v rest ih => exact Asks.bind (hc v st) fun _ => Asks.bind (ih _) fun _ => Asks.pure _

theorem renders_pair (kv : Entry) (st : State) : Asks allowed (render_pair child thread_id kv st) :=
  Asks.bind (hc _ _) fun _ => Asks.bind (hc _ _) fun _ => Asks.pure _

theorem renders_pairs (pairs : List Entry) (st : State) :
    Asks allowed (render_pairs child thread_id pairs st) := by
  induction pairs generalizing st with
  | nil => exact Asks.pure _
  | cons kv rest ih =>
    exact Asks.bind (renders_pair hc kv st) fun _ => Asks.bind (ih _) fun _ => Asks.pure _

include A

variable (depth : ℕ)

theorem renders_block (header : String) (arr : UInt64) (len : Int32) (st : State) :
    Asks allowed (render_indexed_block opts child thread_id depth header arr len st) := by
  unfold render_indexed_block
  split
  · exact Asks.pure _
  · refine Asks.bind (peeks A _) fun elems => ?_
    split
    · exact Asks.pure _
    · exact Asks.bind (commits opts A _ _ _) fun _ =>
        Asks.bind (renders_children hc _ _) fun _ => Asks.pure _

variable (id : UInt64)

theorem renders_array (name : String) (st : State) :
    Asks allowed (render_array_deep opts child thread_id depth id name st) := by
  refine Asks.bind (peeks A _) fun len => ?_
  split
  · exact Asks.pure _
  · exact Asks.bind (renders_block A opts hc _ _ _ _ _) fun _ => Asks.pure _

theorem renders_layout (type_id : ClassId) (layout : Layout) (name : String) (st : State) :
    Asks allowed (render_layout_deep opts child thread_id depth id type_id layout name st) := by
  refine Asks.bind (peeks A _) fun entries => ?_
  split
  · refine Asks.bind (peeks A _) fun backing => ?_
    split
    · exact Asks.pure _
    · exact Asks.pure _
    · dsimp only
      split
      · exact Asks.pure _
      · exact Asks.bind (renders_block A opts hc _ _ _ _ _) fun _ => Asks.pure _
  · exact Asks.pure _
  · exact Asks.pure _
  · split
    · exact Asks.pure _
    · exact Asks.bind (renders_pairs hc _ _) fun _ => Asks.pure _

theorem renders_fields (type_id : ClassId) (name : String) (st : State) :
    Asks allowed (render_fields_deep opts child thread_id t depth id type_id name st) := by
  refine Asks.bind (collects A _ _) fun fields => ?_
  split
  · exact Asks.bind (peeks A _) fun _ => Asks.bind (renders_resolved A t _ _ _ _ _ _ _ _) fun _ =>
      Asks.pure _
  · refine Asks.bind (peeks A _) fun values => ?_
    split
    · exact Asks.pure _
    · exact Asks.bind (commits opts A _ _ _) fun _ =>
        Asks.bind (renders_children hc _ _) fun _ => Asks.pure _

omit A hc in
theorem renders_entries {tid : ThreadId} (A : Admits allowed (some tid))
    (hc : ∀ v st, Asks allowed (child (some tid) v st)) (entries : List Value) (st : State) :
    Asks allowed (render_entries child tid entries st) := by
  induction entries generalizing st with
  | nil => exact Asks.pure _
  | cons e rest ih =>
    refine Asks.bind (reads_entry (p := .expanding) A trivial e) fun kv => ?_
    split
    · exact Asks.bind (ih _) fun _ => Asks.pure _
    · exact Asks.bind (renders_pair hc _ _) fun _ => Asks.bind (ih _) fun _ => Asks.pure _

omit A hc in
theorem renders_collection {tid : ThreadId} (A : Admits allowed (some tid))
    (hc : ∀ v st, Asks allowed (child (some tid) v st)) (depth : ℕ) (id : UInt64)
    (type_id : ClassId) (name : String) (kind : ContainerKind) (st : State) :
    Asks allowed (render_collection_deep opts child tid depth id type_id name kind st) := by
  cases kind with
  | optional =>
    refine Asks.bind (invokes_no_arg (p := .expanding) A trivial _ _ _) fun present => ?_
    split
    · refine Asks.bind (invokes_no_arg (p := .expanding) A trivial _ _ _) fun v => ?_
      split
      · exact Asks.pure _
      · exact Asks.bind (hc _ _) fun _ => Asks.pure _
    · exact Asks.pure _
  | collection =>
    refine Asks.bind (invokes_for_object (p := .expanding) A trivial _ _ _) fun arr => ?_
    split
    · exact Asks.pure _
    · refine Asks.bind (peeks A _) fun len => ?_
      split
      · exact Asks.pure _
      · exact renders_block A opts hc _ _ _ _ _
  | map =>
    refine Asks.bind (reads_entries (p := .expanding) A trivial _ _) fun arr => ?_
    split
    · exact Asks.pure _
    · refine Asks.bind (peeks A _) fun len => ?_
      split
      · exact Asks.pure _
      · split
        · exact Asks.pure _
        · refine Asks.bind (peeks A _) fun entries => ?_
          split
          · exact Asks.pure _
          · exact Asks.bind (renders_entries A hc _ _) fun _ => Asks.pure _

theorem expands_unwalked (type_id : ClassId) (name : String) (declined : Option String) (st : State)
    : Asks allowed (expand_unwalked t opts child thread_id depth id type_id name declined st) := by
  refine Asks.bind (peeks A _) fun kind => ?_
  extract_lets finish
  have hend : ∀ contents, Asks allowed (finish contents) := by
    rintro ⟨_ | shown, st⟩
    · exact renders_fields A t opts hc _ _ _ _ _
    · exact Asks.pure _
  cases kind with
  | none => exact Asks.bind (Asks.pure _) hend
  | some k =>
    cases thread_id with
    | none => exact Asks.bind (Asks.pure _) hend
    | some tid => exact Asks.bind (renders_collection opts A hc _ _ _ _ _ _) hend

theorem expands_object (type_id : ClassId) (sig name : String) (tag : UInt8) (st : State) :
    Asks allowed (expand_object t opts child thread_id depth id type_id sig name tag st) := by
  unfold expand_object
  split
  · refine Asks.bind (peeks A _) fun text => ?_
    split
    · exact Asks.pure _
    · exact renders_array A opts hc _ _ _ _
  · refine Asks.bind (peeks A _) fun layout => ?_
    split
    · exact expands_unwalked A t opts hc _ _ _ _ _ _
    · refine Asks.bind (renders_layout A opts hc _ _ _ _ _ _) fun r => ?_
      split
      · exact Asks.pure _
      · exact expands_unwalked A t opts hc _ _ _ _ _ _

omit hc in
theorem renders_node_with {finish : Finish}
    (hf : ∀ id type_id sig name tag st, Asks allowed (finish id type_id sig name tag st))
    (v : Value) (st : State) : Asks allowed (node t opts finish v st) := by
  unfold node
  split
  · split
    · exact Asks.pure _
    · split
      · exact Asks.pure _
      · split
        · exact Asks.bind (peeks A _) fun _ => Asks.pure _
        · refine Asks.bind (reads_contents A _ _ _) fun s => ?_
          split
          · exact Asks.pure _
          · refine Asks.bind (reads_type A _ _) fun type_id => ?_
            split
            · exact Asks.pure _
            · refine Asks.bind (peeks A _) fun sig =>
                Asks.bind (reads_contents A _ _ _) fun s => ?_
              split
              · exact Asks.pure _
              · refine Asks.bind (peeks A _) fun boxed => ?_
                split
                · exact Asks.pure _
                · exact hf _ _ _ _ _ _
  · exact Asks.pure _

omit hc in
theorem renders_node (levels depth : ℕ) (v : Value) (st : State) :
    Asks allowed (render_node t opts levels depth thread_id v st) := by
  induction levels generalizing depth v st with
  | zero =>
    refine renders_node_with A t opts (fun _ _ _ _ _ _ => ?_) v st
    exact Asks.bind (renders_resolved A t _ _ _ _ _ _ _ _) fun _ => Asks.pure _
  | succ levels ih =>
    refine renders_node_with A t opts (fun _ _ _ _ _ _ => ?_) v st
    exact Asks.bind (expands_object A t opts (fun v st => ih (depth + 1) v st) _ _ _ _ _ _ _)
      fun _ => Asks.pure _

omit hc in
theorem renders_deep (v : Value) : Asks allowed (render_value_deep t opts v thread_id) :=
  Asks.bind (renders_node A t opts _ _ v _) fun _ => Asks.pure _

end Deep

end JavaDebug.AskedRequests
