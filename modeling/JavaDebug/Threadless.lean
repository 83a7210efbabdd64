import JavaDebug.AskedRequests

/-!
`debug.evaluate` when no thread is at hand. Nothing is invoked, whatever the
debuggee answers. An expression with a call in it is refused, and a subscript
comes to a value only by reading an array or by walking a known layout; what is
rendered is a text in every case.
-/
namespace JavaDebug.Threadless

open Jdwp Outcomes JavaValues
  LazyReceivers WireReader Requests Heads
  Evaluations DeepNodes AskedRequests
open FrameNames (Frame)
open ChainWalks (ReadPath Resolved)
open CollectionScans (Scan)
open Expressions (parse_expr)
open Selectors (ByteRender)
open Addressing (trim)

section Evaluate

/-- What `debug.evaluate` is asked; `deep` is there when the objects are to be expanded. -/
structure Evaluation where
  expression : String
  frame_index : ℕ
  max_len : ℕ
  max_children : ℕ
  deep : Option Opts
  bytes : ByteRender
  lazy : LazyPolicy

variable (t : Printing) (thread_id : Option ThreadId) (a : Evaluation)

/-- The frame that is asked for, or the top one. -/
def current_frame : Ask (Option Frame) :=
  match thread_id with
  | none => return none
  | some tid => do
    let frames ← get_frames tid 0 (-1)
    match frames with
    | .ok frames => return frames[a.frame_index]?.or frames.head?
    | .error _ => return none

def render_one (v : Value) : Ask String :=
  match a.deep with
  | some opts => render_value_deep t opts v thread_id
  | none => render_value t v thread_id a.max_len a.bytes

/-- The lines of a slice or a filter from the `i`-th on. -/
def render_lines (keys : List String) : ℕ → List Value → Ask String
  | _, [] => return ""
  | i, v :: rest => do
    let r ← render_one t thread_id a v
    let more ← render_lines keys (i + 1) rest
    return (match keys[i]? with
      | some k => "\n  " ++ k ++ " → " ++ r
      | none => "\n  [" ++ toString i ++ "] = " ++ r) ++ more

def render_result : Resolved → Ask String
  | .one v => render_one t thread_id a v
  | .many header values keys => do
    let shown := min values.length (max a.max_children 1)
    let lines ← render_lines t thread_id a keys 0 (values.take shown)
    return header ++ " \x7b" ++ lines ++
      (if shown < values.length then
        "\n  … +" ++ toString (values.length - shown) ++ " more (raise max_children)" else "") ++
      "\n\x7d"

/-- `n` bounds how deep the evaluation re-enters itself. -/
def evaluate (n : ℕ) : Try String := do
  let frame ← (liftM (current_frame thread_id a) : Try (Option Frame))
  let found ← resolve_expression_multi t (level t thread_id n) thread_id frame a.lazy a.expression
  let rendered ← (liftM (render_result t thread_id a found.1) : Try String)
  return String.ofList (trim a.expression.toList) ++ " = " ++ rendered ++ render_notes found.2

end Evaluate

section Silence

variable {allowed : Request → Prop} {thread_id : Option ThreadId} (A : Admits allowed thread_id)
  (t : Printing) (a : Evaluation)

include A

theorem renders_one (v : Value) : Asks allowed (render_one t thread_id a v) := by
  unfold render_one
  split
  · exact renders_deep A t _ v
  · exact renders A t v _ _

theorem renders_result (r : Resolved) : Asks allowed (render_result t thread_id a r) := by
  have hlines : ∀ keys values i, Asks allowed (render_lines t thread_id a keys i values) := by
    intro keys values
    induction values with
    | nil => exact fun _ => Asks.pure _
    | cons v rest ih =>
      exact fun i => Asks.bind (renders_one A t a v) fun _ => Asks.bind (ih _) fun _ => Asks.pure _
  cases r with
  | one v => exact renders_one A t a v
  | many header values keys => exact Asks.bind (hlines _ _ _) fun _ => Asks.pure _

theorem evaluate_asks (n : ℕ) : Tries allowed (evaluate t thread_id a n) := by
  have hframe : Asks allowed (current_frame thread_id a) := by
    unfold current_frame
    split
    · exact Asks.pure _
    · refine Asks.bind (Asks.request (A.quiet _ trivial)) fun frames => ?_
      split
      · exact Asks.pure _
      · exact Asks.pure _
  exact Tries.bind (Tries.lift hframe) fun frame =>
    Tries.bind (multi_asks A t n frame a.lazy a.expression) fun _ =>
      Tries.bind (Tries.lift (renders_result A t a _)) fun _ => Tries.pure _

omit A in
theorem quiet_admits : Admits Quiet none := ⟨fun _ h => h, fun _ h => by cases h⟩

end Silence

section Refusals

/-- Every success of the program satisfies `P`, whatever it asks and is answered. -/
abbrev Yields {α : Type} (P : α → Prop) (m : Try α) : Prop :=
  Attempts (I := Jvm) (fun _ => True) P m

variable {α β : Type}

theorem yields_any (m : Ask α) : Ensures (I := Jvm) (fun _ => True) (fun _ => True) m := by
  induction m with
  | done a => exact trivial
  | ask o k ih => exact ⟨trivial, ih⟩

theorem Yields.any (m : Try α) : Yields (fun _ => True) m :=
  Ensures.mono (yields_any m.run) fun _ _ _ _ => trivial

theorem Yields.after {m : Try α} {f : α → Try β} {Q : β → Prop} (h : ∀ a, Yields Q (f a)) :
    Yields Q (m >>= f) := Attempts.bind (Yields.any m) fun a _ => h a

theorem Yields.parsed {r : Except String α} {f : α → Try β} {Q : β → Prop}
    (h : ∀ a, r = .ok a → Yields Q (f a)) : Yields Q (ExceptT.mk (pure r) >>= f) :=
  Attempts.bind (attempts_settled (P := fun a => r = .ok a) fun _ ha => ha) h

/-- No segment of the list is a call. -/
def NoCalls (segs : List Seg) : Prop := ∀ seg ∈ segs, seg.args = none

variable (t : Printing) (r : Deeper) (lazy : LazyPolicy)

theorem copies_uncalled (dotted : String) (member : Seg) (copies : List ClassId) (path : ReadPath)
    (i : ℕ) (rest : List ClassId) (absent : Option String) :
    Yields (fun _ => member.args = none)
      (try_copies r none none dotted member copies path i rest absent) := by
  cases hargs : member.args with
  | none => exact Attempts.mono (Yields.any _) fun _ _ => rfl
  | some args =>
    cases rest with
    | nil => exact Yields.after fun _ => attempts_throw _
    | cons type_id rest =>
      unfold try_copies
      rw [hargs]
      exact attempts_throw _

theorem static_uncalled (segs : List Seg) (path : ReadPath) (k : ℕ) :
    Yields (fun found => NoCalls (segs.take found.1.2))
      (static_walk r none none segs path k) := by
  induction k with
  | zero => exact attempts_throw _
  | succ k ih =>
    unfold static_walk
    cases hmember : segs[k + 1]? with
    | none => exact ih
    | some member =>
      dsimp only
      split
      · exact ih
      · rename_i hplain
        refine Yields.after fun copies => ?_
        split
        · exact ih
        · refine Attempts.bind (copies_uncalled r _ member _ _ _ _ _) fun found hnone =>
            attempts_pure fun seg hseg => ?_
          rw [List.take_add_one, List.mem_append] at hseg
          rcases hseg with hseg | hseg
          · have hclass := List.any_eq_false.mp (Bool.not_eq_true _ ▸ hplain) seg hseg
            simpa using hclass
          · rw [hmember] at hseg
            rw [List.mem_singleton.mp hseg]
            exact hnone

/-- The segments that a head takes have no call among them, unless the head is a handle. -/
theorem head_uncalled (segs : List Seg) (head_seg : Seg) (path : ReadPath) :
    Yields (fun found => ((parse_object_handle head_seg.name).isSome ∧ found.1.2 = 1) ∨
      NoCalls (segs.take found.1.2)) (resolve_any_head r none none segs head_seg path) := by
  unfold resolve_any_head
  cases hhandle : parse_object_handle head_seg.name with
  | some id => exact Yields.after fun v => attempts_pure (Or.inl ⟨rfl, rfl⟩)
  | none =>
    have hstatic : Yields (fun found => NoCalls (segs.take found.1.2))
        (resolve_static_head r none none segs path) := by
      unfold resolve_static_head
      split
      · exact attempts_throw _
      · exact static_uncalled r segs path _
    refine Attempts.bind (attempts_pure (P := fun v => v = none) rfl) fun member hmember => ?_
    subst hmember
    refine Attempts.bind (attempts_lift hstatic) fun found hfound => ?_
    cases found with
    | ok found => exact attempts_pure (Or.inr (hfound found rfl))
    | error e => exact Yields.after fun _ => attempts_throw _

theorem member_uncalled (current : Value) (seg : Seg) :
     Yields (fun _ => seg.args = none)
      (Evaluations.resolve_member t r none none lazy current seg) := by
  unfold Evaluations.resolve_member
  split
  · exact attempts_throw _
  · split
    · split
      · exact attempts_throw _
      · refine Yields.after fun type_id => Yields.after fun _ => ?_
        cases hargs : seg.args with
        | some args => exact attempts_throw _
        | none => exact Attempts.mono (Yields.any _) fun _ _ => rfl
    · exact attempts_throw _

theorem link_uncalled (seg : Seg) (current : Value) (path : ReadPath) :
    Yields (fun _ => seg.args = none) (resolve_link t r none none lazy seg current path) :=
  Attempts.bind (member_uncalled t r lazy current seg) fun _ hnone =>
    Attempts.mono (Yields.any _) fun _ _ => hnone

theorem links_uncalled (segs : List Seg) (current : Value) (path : ReadPath) :
    Yields (fun _ => NoCalls segs) (resolve_links t r none none lazy segs current path) := by
  induction segs generalizing current path with
  | nil => exact attempts_pure (List.forall_mem_nil _)
  | cons seg rest ih =>
    refine Attempts.bind (link_uncalled t r lazy seg current path) fun found hnone => ?_
    split
    · exact Attempts.mono (ih _ _) fun _ hrest => List.forall_mem_cons.mpr ⟨hnone, hrest⟩
    · split
      · rename_i hlast
        rw [hlast]
        exact attempts_pure (List.forall_mem_cons.mpr ⟨hnone, List.forall_mem_nil _⟩)
      · exact attempts_throw _

/-- The expression calls a method. A handle at its head takes no arguments. -/
def Calls (segs : List Seg) : Prop :=
  (∃ seg ∈ segs.tail, seg.args ≠ none) ∨
    ∃ head, segs.head? = some head ∧ head.args ≠ none ∧ parse_object_handle head.name = none

theorem uncalled_of {segs : List Seg} {taken : ℕ} {head_seg : Seg}
    (hhead : segs.head? = some head_seg)
    (hstart : ((parse_object_handle head_seg.name).isSome ∧ taken = 1) ∨ NoCalls (segs.take taken))
    (hrest : NoCalls (segs.drop taken)) : ¬ Calls segs := by
  cases segs with
  | nil => cases hhead
  | cons head rest =>
    obtain rfl : head = head_seg := Option.some.inj hhead
    rcases hstart with ⟨hhandle, rfl⟩ | hstart
    · rintro (⟨seg, hseg, hcall⟩ | ⟨head', hhead', -, hnone⟩)
      · exact hcall (hrest seg hseg)
      · obtain rfl : head = head' := Option.some.inj hhead'
        rw [hnone] at hhandle
        cases hhandle
    · have hall : NoCalls (head :: rest) := fun seg hseg => by
        rw [← List.take_append_drop taken (head :: rest), List.mem_append] at hseg
        exact hseg.elim (hstart seg) (hrest seg)
      rintro (⟨seg, hseg, hcall⟩ | ⟨head', hhead', hcall, -⟩)
      · exact hcall (hall seg (List.mem_cons_of_mem head hseg))
      · obtain rfl : head = head' := Option.some.inj hhead'
        exact hcall (hall head List.mem_cons_self)

theorem start_uncalled (expr : String) :
    Yields (fun found => parse_expr expr.toList = .ok found.1 ∧ ∃ head_seg,
      found.1.head? = some head_seg ∧
        (((parse_object_handle head_seg.name).isSome ∧ found.2.1 = 1) ∨
          NoCalls (found.1.take found.2.1))) (resolve_start t r none none expr) := by
  refine Yields.parsed fun segs hsegs => ?_
  cases hhead : segs.head? with
  | none => exact attempts_throw _
  | some head_seg =>
    refine Attempts.bind (head_uncalled r segs head_seg []) fun head hplain => ?_
    split
    · exact attempts_throw _
    · exact Yields.after fun found => attempts_pure ⟨hsegs, head_seg, hhead, hplain⟩

/-- What evaluates to something calls no method. -/
theorem multi_uncalled (expr : String) :
    Yields (fun _ => ∃ segs, parse_expr expr.toList = .ok segs ∧ ¬ Calls segs)
      (resolve_expression_multi t r none none lazy expr) := by
  refine Attempts.bind (start_uncalled t r expr) ?_
  rintro ⟨segs, taken, head_owner, found, path⟩ ⟨hsegs, head_seg, hhead, hplain⟩
  cases found with
  | one v =>
    exact Attempts.mono (links_uncalled t r lazy _ _ _) fun _ hrest =>
      ⟨segs, hsegs, uncalled_of hhead hplain hrest⟩
  | many header values keys =>
    dsimp only
    split
    · exact attempts_throw _
    · rename_i hlast
      refine attempts_pure ⟨segs, hsegs, uncalled_of hhead hplain ?_⟩
      rw [List.drop_eq_nil_of_le (Nat.not_lt.mp hlast)]
      exact List.forall_mem_nil _

end Refusals

section Subscripts

variable (t : Printing) (r : Deeper)

/-- A container was read without invoking it: an array, or a layout that was walked. -/
def ReadOnly (base : Value) (path path' : ReadPath) : Prop :=
  (base.tag = 91 ∧ path' = path) ∨ ∃ layout name, path' = walked path layout name

theorem index_walked (base : Value) (key : ArgLit) (label : String) (path : ReadPath) :
    Yields (fun found => ReadOnly base path found.2)
      (apply_index t r none none base key label path) := by
  unfold apply_index
  split
  · exact attempts_throw _
  · split
    · rename_i harray
      exact Yields.after fun v => attempts_pure (Or.inl ⟨harray, rfl⟩)
    · refine Yields.after fun ty => Yields.after fun found => ?_
      dsimp only
      split
      · exact attempts_pure (Or.inr ⟨_, _, rfl⟩)
      · exact attempts_throw _
      · exact attempts_throw _

theorem scan_walked (base : Value) (label : String) (entries : Bool) (path : ReadPath) :
    Yields (fun found => ReadOnly base path found.2)
      (scan_elements t none base label entries path) := by
  unfold scan_elements
  split
  · exact attempts_throw _
  · refine Yields.after fun name => ?_
    split
    · rename_i harray
      exact Yields.after fun scan => attempts_pure (Or.inl ⟨harray, rfl⟩)
    · refine Yields.after fun type_id => Yields.after fun layout => ?_
      dsimp only
      split
      · exact attempts_throw _
      · split
        · exact attempts_throw _
        · refine Yields.after fun found => ?_
          split
          · exact attempts_pure (Or.inr ⟨_, _, rfl⟩)
          · exact attempts_throw _

end Subscripts

section Runs

variable {σ : Type} (serve : σ → (o : Request) → o.Answer × σ) (s : σ) (t : Printing) (n : ℕ)

theorem Yields.served {α : Type} {P : α → Prop} {m : Try α} (h : Yields P m) {v : α}
    (hv : (Dialogue.Program.served (I := Jvm) serve m.run s).1 = .ok v) : P v :=
  (Ensures.served serve h s).2 v hv

/-- Without a thread: an evaluation and the rendering of what it comes to invoke nothing; an
expression that calls a method is refused; and a subscript, a slice or a filter yields something
only of an array or of a layout that is walked. -/
structure Silent : Prop where
  evaluating : ∀ a, ∀ o ∈ asked (I := Jvm) serve (evaluate t none a n).run s, Quiet o
  rendering : ∀ a v, ∀ o ∈ asked (I := Jvm) serve (render_one t none a v) s, Quiet o
  calls : ∀ a segs, parse_expr a.expression.toList = .ok segs → Calls segs →
    ∃ e, (Dialogue.Program.served (I := Jvm) serve (evaluate t none a n).run s).1 = .error e
  indexing : ∀ base key label path found,
    (Dialogue.Program.served (I := Jvm) serve
      (apply_index t (level t none n) none none base key label path).run s).1 = .ok found →
        ReadOnly base path found.2
  scanning : ∀ base label entries path found,
    (Dialogue.Program.served (I := Jvm) serve
      (scan_elements t none base label entries path).run s).1 = .ok found →
        ReadOnly base path found.2

theorem evaluate_silent : Silent serve s t n where
  evaluating a := (Ensures.served serve (evaluate_asks quiet_admits t a n) s).1
  rendering a v := (Ensures.served serve (renders_one quiet_admits t a v) s).1
  calls a segs hsegs hcalls := by
    have huncalled : Yields (fun _ => ∃ segs, parse_expr a.expression.toList = .ok segs ∧
        ¬ Calls segs) (evaluate t none a n) := by
      have hframe : Ensures (I := Jvm) (fun _ => True) (fun frame => frame = none)
          (current_frame none a) := ensures_pure rfl
      refine Attempts.bind (attempts_lift hframe) fun frame hnone => ?_
      subst hnone
      refine Attempts.bind (multi_uncalled t _ a.lazy a.expression) fun found hplain => ?_
      exact Yields.after fun rendered => attempts_pure hplain
    cases hout : (Dialogue.Program.served (I := Jvm) serve (evaluate t none a n).run s).1 with
    | error e => exact ⟨e, rfl⟩
    | ok v =>
      obtain ⟨segs', hsegs', hno⟩ := Yields.served serve s huncalled hout
      rw [hsegs] at hsegs'
      cases hsegs'
      exact absurd hcalls hno
  indexing _ _ _ _ _ h := Yields.served serve s (index_walked t _ _ _ _ _) h
  scanning _ _ _ _ _ h := Yields.served serve s (scan_walked t _ _ _ _) h

end Runs

end JavaDebug.Threadless
