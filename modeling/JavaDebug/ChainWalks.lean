import JavaDebug.FrameNames
import JavaDebug.LazyReceivers

/-!
An expression resolved to its value, and the same expression walked link by
link. Both resolve the head, its subscripts, then each member against the value
before it; the walk records a step for each link and stops at a null. A slice
or a filter selects several values and ends both. `chain_walk_evaluates` says
how far the two agree.
-/
namespace JavaDebug.ChainWalks

open Jdwp WireReader JavaValues Overloads
  MapWalks LazyReceivers

abbrev ReadPath := List String

def ReadPath.push (path : ReadPath) (note : String) : ReadPath :=
  if note ∈ path then path else path ++ [note]

inductive Resolved
  | one (v : Value)
  | many (header : String) (values : List Value) (keys : List String)
  deriving DecidableEq

inductive StaticMemberMiss
  | absent (what : String)
  | fatal (e : String)
  deriving DecidableEq

/-- A debuggee whose answers are fixed, read on one thread and frame; `frame_head` resolves a local
variable or `this`, where there is a frame. -/
structure Evaluator extends Debuggee where
  parse_expr : String → Except String (List Seg)
  resolve_object_handle : UInt64 → Except String Value
  frame_head : Option (Seg → Except String Value)
  resolve_bare_member : String → Option Value
  bare_name_not_found : String → String
  resolve_class_copies : String → Except String (List ClassId)
  static_member : ClassId → String → Seg → Except StaticMemberMiss Value
  describe_class_loaders : List ClassId → List String
  apply_index : Value → ArgLit → String → ReadPath → Except String (Value × ReadPath)
  apply_range : Value → Int64 → Int64 → String → ReadPath → Except String (Resolved × ReadPath)
  apply_filter : Value → String → String → ReadPath → Except String (Resolved × ReadPath)
  render_value : Value → String
  render_arglit : ArgLit → String

section Heads

variable (e : Evaluator)

def answered_by_later_copy (path : ReadPath) (dotted member : String) (used : ℕ)
    (labels : List String) : ReadPath :=
  path.push ("⚠️  '" ++ dotted ++ "' is loaded by " ++ toString labels.length ++
    " classloaders and '" ++ member ++ "' is not on all of them: copy " ++ labels[used]?.getD "?" ++
    " answered, after copy #0 was tried and did not have it. That asymmetry is what a redeploy " ++
    "leaves behind — the retired deployment's copy is still loaded, and it is the one that " ++
    "sorts first. Loaded by: " ++ "; ".intercalate labels ++ ". Pin a specific copy with " ++
    dotted ++ "@<the 0x… you want>.")

def absent_everywhere (dotted : String) (copies : List ClassId) (absent : String)
    (labels : List String) : String :=
  let n := toString copies.length
  if copies.length = 1 then "class '" ++ dotted ++ "' has no " ++ absent
  else "'" ++ dotted ++ "' is loaded " ++ n ++ " times — one class per classloader — and NONE " ++
    "of the " ++ n ++ " copies has a " ++ absent ++ ". All " ++ n ++ " were searched, so " ++
    "this is not the retired-deployment copy answering for the running one; the name or the " ++
    "signature is wrong. Searched: " ++ "; ".intercalate labels ++ "."

/-- The copies of a class from the `i`-th on; the first miss is what is reported. -/
def try_copies (dotted : String) (member : Seg) (copies : List ClassId) (path : ReadPath) :
    ℕ → List ClassId → Option String → Except String (Value × ReadPath)
  | _, [], absent =>
    .error (absent_everywhere dotted copies (absent.getD ("member '" ++ member.name ++ "'"))
      (e.describe_class_loaders copies))
  | i, type_id :: rest, absent =>
    match e.static_member type_id dotted member with
    | .ok v =>
      if 0 < i then
        .ok (v, answered_by_later_copy path dotted member.name i (e.describe_class_loaders copies))
      else .ok (v, path)
    | .error (.fatal msg) => .error msg
    | .error (.absent what) =>
      try_copies dotted member copies path (i + 1) rest (absent.or (some what))

/-- The class prefixes of at most `k` segments, longest first. -/
def static_walk (segs : List Seg) (path : ReadPath) :
    ℕ → Except String ((Value × ℕ) × ReadPath)
  | 0 => .error "no loaded class matches the leading segment(s)"
  | k + 1 =>
    let class_segs := segs.take (k + 1)
    match segs[k + 1]? with
    | none => static_walk segs path k
    | some member =>
      if class_segs.any fun s => s.args.isSome then static_walk segs path k
      else
        let dotted := ".".intercalate (class_segs.map fun s => s.name)
        match e.resolve_class_copies dotted with
        | .error msg => .error msg
        | .ok copies =>
          if copies = [] then static_walk segs path k
          else
            match try_copies e dotted member copies path 0 copies none with
            | .error msg => .error msg
            | .ok (v, path) => .ok ((v, k + 2), path)

variable (segs : List Seg)

def resolve_static_head (path : ReadPath) : Except String ((Value × ℕ) × ReadPath) :=
  if segs.length < 2 then .error "a static access needs at least Class.field or Class.method()"
  else static_walk e segs path (segs.length - 1)

/-- The head's value and the number of segments it takes. -/
def resolve_any_head (head_seg : Seg) (path : ReadPath) : Except String ((Value × ℕ) × ReadPath) :=
  match parse_object_handle head_seg.name with
  | some id => (e.resolve_object_handle id).map fun v => ((v, 1), path)
  | none =>
    let head_result : Option (Except String Value) :=
      e.frame_head.map fun resolve_head => resolve_head head_seg
    match head_result with
    | some (.ok v) => .ok ((v, 1), path)
    | _ =>
      match (if head_seg.args.isNone ∧ e.frame_head.isSome then
          e.resolve_bare_member head_seg.name else none) with
      | some v => .ok ((v, 1), path)
      | none =>
        match resolve_static_head e segs path with
        | .ok found => .ok found
        | .error static_err =>
          let head_err := head_result.bind fun r => match r with
            | .ok _ => none
            | .error msg => some msg
          .error (head_error (fun _ => e.bare_name_not_found head_seg.name) e.frame_head segs
            head_seg head_err static_err)

/-- On a frame whose names answer for the walk's, the head is the one that is found there. -/
theorem any_head_of_frame {d : FrameNames.Debuggee} {thread : ThreadId} {frame : FrameNames.Frame}
    (hhandle : ∀ id, e.resolve_object_handle (UInt64.ofNat id) = d.resolve_object_handle id)
    (hhead : e.frame_head = some fun seg => (FrameNames.resolve_head d thread frame seg).2)
    (hmember : e.resolve_bare_member = FrameNames.resolve_bare_member_of_frame d thread frame)
    (hnone : e.bare_name_not_found = d.bare_name_not_found frame) (head_seg : Seg)
    (path : ReadPath) :
    (resolve_any_head e segs head_seg path).map Prod.fst =
      (FrameNames.resolve_any_head d (some (thread, frame)) segs head_seg
        ((static_walk e segs path (segs.length - 1)).map Prod.fst)).2 := by
  unfold resolve_any_head FrameNames.resolve_any_head parse_object_handle
  cases Addressing.parse_object_handle head_seg.name.toList with
  | some id =>
    simp only [Option.map_some, hhandle]
    cases d.resolve_object_handle id <;> rfl
  | none =>
    simp only [Option.map_none, hhead, Option.map_some, Option.isSome_some, and_true,
      Option.isNone_iff_eq_none, hmember, hnone]
    cases (FrameNames.resolve_head d thread frame head_seg).2 with
    | ok v => rfl
    | error err =>
      simp only [FrameNames.after_head, Option.bind_some]
      generalize (if head_seg.args = none then _ else none) = member
      cases member with
      | some v => rfl
      | none =>
        unfold resolve_static_head FrameNames.resolve_static_head
        by_cases hlen : segs.length < 2
        · simp only [if_pos hlen]
          rfl
        · simp only [if_neg hlen]
          cases static_walk e segs path (segs.length - 1) <;> rfl

end Heads

section Evaluation

variable (e : Evaluator) (lazy : LazyPolicy)

def multi_then_chain_error (name : String) : String :=
  "'" ++ name ++ "[…]' selects several values, so nothing can be chained after it. Use an index " ++
    "(e.g. [0]) to pick one, or make the slice/filter the end of the expression."

/-- A segment's subscripts, left to right; several values end them. -/
def apply_subscripts (label : String) :
    List Subscript → Value → ReadPath → Except String (Resolved × ReadPath)
  | [], current, path => .ok (.one current, path)
  | .index key :: rest, current, path =>
    match e.apply_index current key label path with
    | .error msg => .error msg
    | .ok (v, path) => apply_subscripts label rest v path
  | .range a b :: rest, current, path =>
    if rest = [] then e.apply_range current a b label path
    else .error (multi_then_chain_error label)
  | .filter pred :: rest, current, path =>
    if rest = [] then e.apply_filter current pred label path
    else .error (multi_then_chain_error label)

/-- A member of the value before it, with its subscripts. -/
def resolve_link (seg : Seg) (current : Value) (path : ReadPath) :
    Except String (Resolved × ReadPath) :=
  match resolve_member e.toDebuggee current seg lazy with
  | .error msg => .error msg
  | .ok member => apply_subscripts e seg.name seg.subs member path

def resolve_links : List Seg → Value → ReadPath → Except String (Resolved × ReadPath)
  | [], current, path => .ok (.one current, path)
  | seg :: rest, current, path =>
    match resolve_link e lazy seg current path with
    | .error msg => .error msg
    | .ok (.one v, path) => resolve_links rest v path
    | .ok (many, path) =>
      if rest = [] then .ok (many, path) else .error (multi_then_chain_error seg.name)

/-- An expression's segments, the head's value with its subscripts, and the segments it takes. -/
def resolve_start (expr : String) : Except String (List Seg × ℕ × Seg × Resolved × ReadPath) :=
  match e.parse_expr expr with
  | .error msg => .error msg
  | .ok segs =>
    match segs.head? with
    | none => .error "Empty expression"
    | some head_seg =>
      match resolve_any_head e segs head_seg [] with
      | .error msg => .error msg
      | .ok ((current, start), path) =>
        match segs[start - 1]? with
        | none => .error "Internal error: head resolution consumed no segments"
        | some head_owner =>
          match apply_subscripts e head_owner.name head_owner.subs current path with
          | .error msg => .error msg
          | .ok (r, path) => .ok (segs, start, head_owner, r, path)

def resolve_expression_multi (expr : String) : Except String (Resolved × ReadPath) :=
  match resolve_start e expr with
  | .error msg => .error msg
  | .ok (segs, start, _, .one v, path) => resolve_links e lazy (segs.drop start) v path
  | .ok (segs, start, head_owner, many, path) =>
    if start < segs.length then .error (multi_then_chain_error head_owner.name)
    else .ok (many, path)

end Evaluation

section Walking

inductive LinkEnd
  | null
  | unfetched (shape : LazyShape)
  | cannotTell
  deriving DecidableEq

structure ChainStep where
  label : String
  rendered : String
  ended : Option LinkEnd
  deriving DecidableEq

structure ChainWalk where
  steps : List ChainStep
  total_links : ℕ
  path : ReadPath
  deriving DecidableEq

variable (e : Evaluator) (lazy : LazyPolicy)

def seg_label (seg : Seg) : String :=
  let args :=
    match seg.args with
    | some args => "(" ++ ", ".intercalate (args.map e.render_arglit) ++ ")"
    | none => ""
  seg.subs.foldl (fun out s =>
    match s with
    | .index a => out ++ "[" ++ e.render_arglit a ++ "]"
    | .range a b => out ++ "[" ++ toString a ++ ".." ++ toString b ++ "]"
    | .filter p => out ++ "[?" ++ p ++ "]") (seg.name ++ args)

def chain_step (label : String) (v : Value) : ChainStep :=
  ⟨label, e.render_value v, if v.data = .object 0 then some .null else none⟩

def several_step (label : String) : ChainStep :=
  ⟨label, "(several values — a slice or filter ends the chain)", none⟩

/-- The links after the head; the value is none where the walk ended on several. -/
def walk_links : List Seg → Value → List ChainStep → ReadPath →
    Except String (List ChainStep × Option Value × ReadPath)
  | [], current, steps, path => .ok (steps, some current, path)
  | seg :: rest, current, steps, path =>
    if steps.getLast?.any fun s => s.ended.isSome then .ok (steps, some current, path)
    else
      match resolve_link e lazy seg current path with
      | .error msg => .error msg
      | .ok (.one v, path) =>
        walk_links rest v (steps ++ [chain_step e (seg_label e seg) v]) path
      | .ok (_, path) => .ok (steps ++ [several_step (seg_label e seg)], none, path)

def trailing_end (v : Value) : Option LinkEnd :=
  match lazy_state_of e.toDebuggee v lazy with
  | some (.unfetched shape) => some (.unfetched shape)
  | some (.unknown _) => some .cannotTell
  | _ => none

def mark_trailing_lazy (steps : List ChainStep) (v : Value) : List ChainStep :=
  match steps.getLast? with
  | none => steps
  | some s =>
    if s.ended.isSome then steps
    else steps.dropLast ++ [{ s with ended := trailing_end e lazy v }]

def walk_expression_chain (expr : String) : Except String ChainWalk :=
  match resolve_start e expr with
  | .error msg => .error msg
  | .ok (segs, start, _, r, path) =>
    let total_links := segs.length + 1 - start
    let head_label := ".".intercalate ((segs.take start).map (seg_label e))
    match r with
    | .one v =>
      match walk_links e lazy (segs.drop start) v [chain_step e head_label v] path with
      | .error msg => .error msg
      | .ok (steps, some current, path) =>
        .ok ⟨mark_trailing_lazy e lazy steps current, total_links, path⟩
      | .ok (steps, none, path) => .ok ⟨steps, total_links, path⟩
    | _ => .ok ⟨[several_step head_label], total_links, path⟩

end Walking

section Report

variable (walk : ChainWalk)

/-- The links that the caller wrote and the walk never reached. -/
def unreached : ℕ := walk.total_links - walk.steps.length

/-- The step at which the walk says that it stopped. -/
def stopped_at : Option ℕ := walk.steps.findIdx? fun s => s.ended.isSome

def glyph (ended : Option LinkEnd) : String :=
  match ended with
  | none => "✔"
  | some .null => "✘"
  | some (.unfetched _) => "⏳"
  | some .cannotTell => "❓"

def padded (width : ℕ) (s : String) : String :=
  s ++ String.ofList (List.replicate (width - s.length) ' ')

def stop_verdict (ended : Option LinkEnd) (at_link total : ℕ) (step : String) : String :=
  let link := toString (at_link + 1) ++ " of " ++ toString total
  match ended with
  | some (.unfetched .entityProxy) =>
    "⏳ link " ++ link ++ " is an UNFETCHED Hibernate proxy: " ++ step ++ " — not null, and not " ++
      "a value. The row it stands for may well exist; nobody has fetched it, and this walk " ++
      "stopped rather than fetch it for you"
  | some (.unfetched .collection) =>
    "⏳ link " ++ link ++ " is an UNFETCHED Hibernate collection: " ++ step ++ " — the " ++
      "collection exists and its contents have not been fetched, so it is neither empty nor " ++
      "populated as far as this can tell. The next link is what would fetch them"
  | some .cannotTell =>
    "❓ link " ++ link ++ " is a Hibernate lazy value whose fetch state could not be read: " ++
      step ++ ". This walk stopped rather than guess 'already fetched' and perform the fetch"
  | _ => "⛔ null at link " ++ link ++ ": " ++ step

def verdict : String :=
  match stopped_at walk with
  | some at_link =>
    let step := walk.steps[at_link]?
    stop_verdict (step.bind fun s => s.ended) at_link walk.total_links
        ((step.map fun s => s.label).getD "?") ++
      (if 0 < unreached walk then
        " — the " ++ toString (unreached walk) ++ " link(s) after it were never evaluated, so " ++
          "nothing here says whether they would have worked"
      else "")
  | none =>
    "✅ no link in this chain is null or unfetched. If you expected one to be, the value you are " ++
      "after is the last line above — an empty collection or a zero counts as present here."

def render_expression_chain (expr : String) (walk : ChainWalk) : String :=
  let width := (walk.steps.map fun s => s.label.length).foldl max 0
  let rows := walk.steps.map fun s =>
    "  " ++ glyph s.ended ++ " " ++ padded width s.label ++ "  " ++ s.rendered ++ "\n"
  "🔗 " ++ expr ++ "\n\n" ++ String.join rows ++ "\n" ++ verdict walk ++
    (if walk.path = [] then "" else "\n" ++ "\n".intercalate walk.path)

end Report

section Links

variable {e : Evaluator} {lazy : LazyPolicy}

variable {v : Value} {path path' : ReadPath}

theorem apply_subscripts_one {label : String} {subs : List Subscript} {r : Resolved}
    (hsubs : ∀ s ∈ subs, ∃ key, s = .index key)
    (h : apply_subscripts e label subs v path = .ok (r, path')) : ∃ w, r = .one w := by
  induction subs generalizing v path with
  | nil => exact ⟨v, (Prod.mk.inj (Except.ok.inj h)).1.symm⟩
  | cons s rest ih =>
    obtain ⟨key, rfl⟩ := hsubs s List.mem_cons_self
    rw [apply_subscripts] at h
    split at h
    · cases h
    · exact ih (fun s hs => hsubs s (List.mem_cons_of_mem _ hs)) h

theorem link_receiver {seg : Seg} {found : Resolved × ReadPath}
    (h : resolve_link e lazy seg v path = .ok found) : v.data ≠ .object 0 := by
  intro hnull
  unfold resolve_link at h
  split at h
  · cases h
  · rename_i member hmember
    unfold resolve_member at hmember
    split at hmember
    · cases hmember
    · rw [hnull] at hmember
      cases hmember

theorem chain_step_ended {label : String} (h : v.data ≠ .object 0) :
    (chain_step e label v).ended = none :=
  if_neg h

theorem resolve_links_append {front : List Seg} (back : List Seg) {w : Value}
    (h : resolve_links e lazy front v path = .ok (.one w, path')) :
    resolve_links e lazy (front ++ back) v path = resolve_links e lazy back w path' := by
  induction front generalizing v path with
  | nil =>
    obtain ⟨hv, rfl⟩ := Prod.mk.inj (Except.ok.inj h)
    rw [Resolved.one.inj hv]
    rfl
  | cons seg front ih =>
    rw [resolve_links] at h
    rw [List.cons_append, resolve_links]
    split at h
    · cases h
    · exact ih h
    · rename_i many path'' hno _
      split at h
      · exact absurd (Prod.mk.inj (Except.ok.inj h)).1 (hno w)
      · cases h

/-- The walk over links that come to a value goes on from that value, with a step for each. -/
theorem walk_links_append {front : List Seg} (back : List Seg) {w : Value}
    (h : resolve_links e lazy front v path = .ok (.one w, path')) (init : List ChainStep)
    (label : String) :
    ∃ more label', more.length = front.length ∧ (∀ s ∈ more, s.ended = none) ∧
      walk_links e lazy (front ++ back) v (init ++ [chain_step e label v]) path =
        walk_links e lazy back w (init ++ more ++ [chain_step e label' w]) path' := by
  induction front generalizing v path init label with
  | nil =>
    obtain ⟨hv, rfl⟩ := Prod.mk.inj (Except.ok.inj h)
    rw [Resolved.one.inj hv]
    refine ⟨[], label, rfl, ?_, by rw [List.append_nil]; rfl⟩
    intro s hs
    cases hs
  | cons seg front ih =>
    rw [resolve_links] at h
    split at h
    · cases h
    · rename_i v' path'' hlink
      have hended : (chain_step e label v).ended = none := chain_step_ended (link_receiver hlink)
      obtain ⟨more, label', hlen, hmore, hwalk⟩ :=
        ih h (init ++ [chain_step e label v]) (seg_label e seg)
      refine ⟨chain_step e label v :: more, label', congrArg Nat.succ hlen, ?_, ?_⟩
      · intro s hs
        rcases List.mem_cons.mp hs with rfl | hs
        · exact hended
        · exact hmore s hs
      · rw [List.cons_append, walk_links]
        simp only [List.getLast?_append, List.getLast?_singleton, Option.some_or, Option.any_some,
          hended, Option.isSome_none, Bool.false_eq_true, if_false, hlink]
        rw [hwalk]
        simp
    · rename_i many path'' hno _
      split at h
      · exact absurd (Prod.mk.inj (Except.ok.inj h)).1 (hno w)
      · cases h

end Links

section Agreement

variable {e : Evaluator} {lazy : LazyPolicy} {expr : String}

/-- What the step of the chain's last value says of it. -/
def last_end (e : Evaluator) (lazy : LazyPolicy) (v : Value) : Option LinkEnd :=
  if v.data = .object 0 then some .null else trailing_end e lazy v

theorem mark_trailing (steps : List ChainStep) (label : String) (v : Value) :
    mark_trailing_lazy e lazy (steps ++ [chain_step e label v]) v =
      steps ++ [⟨label, e.render_value v, last_end e lazy v⟩] := by
  unfold mark_trailing_lazy last_end chain_step
  rw [List.getLast?_append, List.getLast?_singleton, Option.some_or]
  by_cases hnull : v.data = .object 0
  · simp [hnull]
  · simp [hnull]

/-- The first `j` links after the head come to a value. -/
def ComesTo (e : Evaluator) (lazy : LazyPolicy) (expr : String) (links : List Seg) (j : ℕ)
    (v : Value) : Prop :=
  ∃ segs start owner w path path', resolve_start e expr = .ok (segs, start, owner, .one w, path) ∧
    links = segs.drop start ∧ resolve_links e lazy (links.take j) w path = .ok (.one v, path')

variable {segs links : List Seg} {path path' : ReadPath} {v : Value}

variable {start : ℕ}

theorem static_walk_takes (k : ℕ) (h : static_walk e segs path k = .ok ((v, start), path')) :
    1 ≤ start := by
  induction k with
  | zero => cases h
  | succ k ih =>
    rw [static_walk] at h
    split at h
    · exact ih h
    · split at h
      · exact ih h
      · dsimp only at h
        split at h
        · cases h
        · split at h
          · exact ih h
          · split at h
            · cases h
            · simp only [Except.ok.injEq, Prod.mk.injEq] at h
              omega

theorem any_head_takes {head_seg : Seg}
    (h : resolve_any_head e segs head_seg path = .ok ((v, start), path')) : 1 ≤ start := by
  unfold resolve_any_head at h
  split at h
  · rename_i id _
    cases hobject : e.resolve_object_handle id with
    | error msg =>
      rw [hobject] at h
      cases h
    | ok w =>
      rw [hobject] at h
      simp only [Except.map, Except.ok.injEq, Prod.mk.injEq] at h
      omega
  · dsimp only at h
    split at h
    · simp only [Except.ok.injEq, Prod.mk.injEq] at h
      omega
    · split at h
      · simp only [Except.ok.injEq, Prod.mk.injEq] at h
        omega
      · split at h
        · rename_i found hstatic
          rw [Except.ok.inj h] at hstatic
          unfold resolve_static_head at hstatic
          split at hstatic
          · cases hstatic
          · exact static_walk_takes _ hstatic
        · cases h

theorem start_within {owner : Seg} {r : Resolved}
    (h : resolve_start e expr = .ok (segs, start, owner, r, path)) :
    e.parse_expr expr = .ok segs ∧ segs[start - 1]? = some owner ∧ 1 ≤ start ∧
      start ≤ segs.length ∧ ∃ v path',
        apply_subscripts e owner.name owner.subs v path' = .ok (r, path) := by
  unfold resolve_start at h
  split at h
  · cases h
  · rename_i segs' hparse
    split at h
    · cases h
    · split at h
      · cases h
      · rename_i v start' path' hhead
        split at h
        · cases h
        · rename_i owner' howner
          split at h
          · cases h
          · rename_i r' path'' hsubs
            simp only [Except.ok.injEq, Prod.mk.injEq] at h
            obtain ⟨rfl, rfl, rfl, rfl, rfl⟩ := h
            have hlt := (List.getElem?_eq_some_iff.mp howner).1
            have htakes := any_head_takes hhead
            exact ⟨hparse, howner, htakes, by omega, v, path', hsubs⟩

theorem walk_of_one (h : resolve_expression_multi e lazy expr = .ok (.one v, path)) :
    ∃ walk init label, walk_expression_chain e lazy expr = .ok walk ∧
      walk.steps = init ++ [⟨label, e.render_value v, last_end e lazy v⟩] ∧
      walk.steps.length = walk.total_links ∧ walk.path = path ∧ ∀ s ∈ init, s.ended = none := by
  unfold resolve_expression_multi at h
  split at h
  · cases h
  · rename_i segs start owner w path' hstart
    obtain ⟨-, -, htakes, hle, -⟩ := start_within hstart
    obtain ⟨more, label, hlen, hmore, hwalk⟩ :=
      walk_links_append [] h [] (".".intercalate ((segs.take start).map (seg_label e)))
    rw [List.append_nil, List.nil_append] at hwalk
    refine ⟨⟨more ++ [⟨label, e.render_value v, last_end e lazy v⟩], segs.length + 1 - start, path⟩,
      more, label, ?_, rfl, ?_, rfl, hmore⟩
    · rw [walk_expression_chain, hstart]
      dsimp only
      rw [hwalk, walk_links]
      dsimp only [List.nil_append]
      rw [mark_trailing]
    · rw [List.length_append, hlen, List.length_drop, List.length_singleton]
      dsimp only
      omega
  · rename_i hno hstart
    split at h
    · cases h
    · exact absurd (Prod.mk.inj (Except.ok.inj h)).1 (hno v)

variable {j : ℕ}

theorem both_from (h : ComesTo e lazy expr links j v) :
    ∃ (total : ℕ) (path : ReadPath) (init : List ChainStep) (label : String),
      total = links.length + 1 ∧ init.length = min j links.length ∧ (∀ s ∈ init, s.ended = none) ∧
      resolve_expression_multi e lazy expr = resolve_links e lazy (links.drop j) v path ∧
      (∀ msg, walk_links e lazy (links.drop j) v (init ++ [chain_step e label v]) path =
        .error msg → walk_expression_chain e lazy expr = .error msg) ∧
      ∀ steps path', walk_links e lazy (links.drop j) v (init ++ [chain_step e label v]) path =
        .ok (steps, some v, path') → walk_expression_chain e lazy expr =
          .ok ⟨mark_trailing_lazy e lazy steps v, total, path'⟩ := by
  obtain ⟨segs, start, owner, w, path, path', hstart, rfl, hlinks⟩ := h
  obtain ⟨-, -, htakes, hle, -⟩ := start_within hstart
  obtain ⟨more, label, hlen, hmore, hwalk⟩ := walk_links_append ((segs.drop start).drop j) hlinks []
    (".".intercalate ((segs.take start).map (seg_label e)))
  have hmulti := resolve_links_append ((segs.drop start).drop j) hlinks
  rw [List.take_append_drop] at hwalk hmulti
  rw [List.length_take] at hlen
  rw [List.nil_append, List.nil_append] at hwalk
  refine ⟨segs.length + 1 - start, path', more, label, ?_, hlen, hmore, ?_, ?_, ?_⟩
  · rw [List.length_drop]
    omega
  · rw [resolve_expression_multi, hstart]
    exact hmulti
  · intro msg hmsg
    rw [walk_expression_chain, hstart]
    dsimp only
    rw [hwalk, hmsg]
  · intro steps path'' hsteps
    rw [walk_expression_chain, hstart]
    dsimp only
    rw [hwalk, hsteps]

theorem walk_of_null (h : ComesTo e lazy expr links j v) (hnull : v.data = .object 0)
    (hj : j < links.length) :
    (∃ msg, resolve_expression_multi e lazy expr = .error msg) ∧
      ∃ walk init label, walk_expression_chain e lazy expr = .ok walk ∧
        walk.steps = init ++ [⟨label, e.render_value v, some .null⟩] ∧ init.length = j ∧
        (∀ s ∈ init, s.ended = none) ∧ unreached walk = links.length - j := by
  obtain ⟨total, path, init, label, htotal, hlen, hinit, hmulti, -, hwalk⟩ := both_from h
  rw [List.drop_eq_getElem_cons hj] at hmulti hwalk
  have hended : (chain_step e label v).ended = some .null := if_pos hnull
  constructor
  · rw [hmulti, resolve_links]
    split
    · exact ⟨_, rfl⟩
    · rename_i hlink
      exact absurd hnull (link_receiver hlink)
    · rename_i hlink
      exact absurd hnull (link_receiver hlink)
  · have hstop := hwalk (init ++ [chain_step e label v]) path (by
      rw [walk_links]
      simp [hended])
    rw [mark_trailing, last_end, if_pos hnull] at hstop
    refine ⟨_, init, label, hstop, rfl, by omega, hinit, ?_⟩
    simp only [unreached, List.length_append, List.length_singleton, hlen, htotal]
    omega

theorem walk_of_lazy {seg : Seg} {id : UInt64} {type_id : ClassId} {msg : String}
    (h : ComesTo e lazy expr links j v) (hseg : links[j]? = some seg)
    (hhandle : parse_object_handle seg.name = none) (hdata : v.data = .object id) (hid : id ≠ 0)
    (htype : e.get_object_reference_type id = .ok type_id)
    (hcheck : check_lazy_receiver e.toDebuggee id type_id seg lazy = .error msg) :
    resolve_expression_multi e lazy expr = .error msg ∧
      walk_expression_chain e lazy expr = .error msg := by
  obtain ⟨total, path, init, label, -, -, -, hmulti, hwalk, -⟩ := both_from h
  obtain ⟨hj, hget⟩ := List.getElem?_eq_some_iff.mp hseg
  rw [List.drop_eq_getElem_cons hj, hget] at hmulti hwalk
  have hmember : resolve_member e.toDebuggee v seg lazy = .error msg := by
    rw [resolve_member, hhandle, hdata]
    simp only [Option.isSome_none, Bool.false_eq_true, if_false, hid, htype, hcheck]
  have hlink : resolve_link e lazy seg v path = .error msg := by
    rw [resolve_link, hmember]
  have hnull : v.data ≠ .object 0 := by
    rw [hdata]
    intro hzero
    exact hid (ValueData.object.inj hzero)
  have hended : (chain_step e label v).ended = none := chain_step_ended hnull
  constructor
  · rw [hmulti, resolve_links, hlink]
  · apply hwalk
    rw [walk_links]
    simp [hended, hlink]

theorem resolve_link_one {seg : Seg} {r : Resolved} (hsubs : ∀ s ∈ seg.subs, ∃ key, s = .index key)
    (h : resolve_link e lazy seg v path = .ok (r, path')) : ∃ w, r = .one w := by
  unfold resolve_link at h
  split at h
  · cases h
  · exact apply_subscripts_one hsubs h

theorem walk_links_whole {rest : List Seg} {v : Value} {init steps : List ChainStep}
    {label : String} {path path' : ReadPath} {current : Option Value}
    (hsubs : ∀ seg ∈ rest.dropLast, ∀ s ∈ seg.subs, ∃ key, s = .index key)
    (h : walk_links e lazy rest v (init ++ [chain_step e label v]) path =
      .ok (steps, current, path')) (hended : ∀ s ∈ steps, s.ended = none) :
    steps.length = init.length + 1 + rest.length ∧
      ∃ r, resolve_links e lazy rest v path = .ok r := by
  induction rest generalizing v init label path with
  | nil =>
    simp only [walk_links, Except.ok.injEq, Prod.mk.injEq] at h
    obtain ⟨rfl, -, -⟩ := h
    exact ⟨by simp, _, rfl⟩
  | cons seg rest ih =>
    rw [walk_links] at h
    rw [resolve_links]
    split at h
    · rename_i hlast
      simp only [List.getLast?_append, List.getLast?_singleton, Option.some_or,
        Option.any_some] at hlast
      simp only [Except.ok.injEq, Prod.mk.injEq] at h
      obtain ⟨rfl, -, -⟩ := h
      have hnone := hended (chain_step e label v) (by simp)
      rw [hnone] at hlast
      cases hlast
    · split at h
      · cases h
      · rename_i v' path'' hlink
        have hrest : ∀ seg ∈ rest.dropLast, ∀ s ∈ seg.subs, ∃ key, s = .index key := by
          intro other hother
          cases rest with
          | nil => cases hother
          | cons next rest => exact hsubs other (List.mem_cons_of_mem _ hother)
        obtain ⟨hlen, r, hr⟩ := ih hrest h
        refine ⟨?_, r, hr⟩
        rw [hlen, List.length_append, List.length_singleton, List.length_cons]
        omega
      · rename_i many path'' hno hlink
        have hlast : rest = [] := by
          cases rest with
          | nil => rfl
          | cons next rest =>
            obtain ⟨w, rfl⟩ := resolve_link_one (hsubs seg List.mem_cons_self) hlink
            exact absurd rfl (hno w)
        simp only [Except.ok.injEq, Prod.mk.injEq] at h
        obtain ⟨rfl, -, -⟩ := h
        rw [if_pos hlast, hlast]
        exact ⟨by simp, _, rfl⟩

theorem mark_trailing_whole {steps : List ChainStep}
    (h : ∀ s ∈ mark_trailing_lazy e lazy steps v, s.ended = none) :
    (mark_trailing_lazy e lazy steps v).length = steps.length ∧ ∀ s ∈ steps, s.ended = none := by
  unfold mark_trailing_lazy at h ⊢
  split at h
  · exact ⟨rfl, h⟩
  · rename_i s hlast
    split at h
    · rename_i hended
      rw [if_pos hended]
      exact ⟨rfl, h⟩
    · rename_i hended
      rw [if_neg hended]
      have hsteps : steps = steps.dropLast ++ [s] :=
        (List.dropLast_append_getLast? s hlast).symm
      constructor
      · rw [hsteps]
        simp
      · intro t ht
        rw [hsteps] at ht
        rcases List.mem_append.mp ht with ht | ht
        · exact h t (List.mem_append_left _ ht)
        · rw [List.mem_singleton.mp ht]
          simpa using hended

/-- A chain of which no slice or filter precedes a link, and of which the report says that no link
is null or unfetched, was evaluated whole. -/
theorem walk_vouches {walk : ChainWalk} (hparse : e.parse_expr expr = .ok segs)
    (hsubs : ∀ seg ∈ segs.dropLast, ∀ s ∈ seg.subs, ∃ key, s = .index key)
    (h : walk_expression_chain e lazy expr = .ok walk) (hstop : stopped_at walk = none) :
    walk.steps.length = walk.total_links ∧
      ∃ r, resolve_expression_multi e lazy expr = .ok r := by
  have hended : ∀ s ∈ walk.steps, s.ended = none := by
    intro s hs
    have := List.findIdx?_eq_none_iff.mp hstop s hs
    simpa using this
  unfold walk_expression_chain at h
  split at h
  · cases h
  · rename_i segs' start owner r path hstart
    obtain ⟨hparse', howner, htakes, hle, v', path', hone⟩ := start_within hstart
    obtain rfl : segs = segs' := Except.ok.inj (hparse.symm.trans hparse')
    have hdrop : ∀ seg ∈ (segs.drop start).dropLast, ∀ s ∈ seg.subs, ∃ key, s = .index key := by
      intro seg hseg
      rw [List.dropLast_drop_eq_drop_dropLast] at hseg
      exact hsubs seg (List.mem_of_mem_drop hseg)
    unfold resolve_expression_multi
    rw [hstart]
    cases r with
    | one v =>
      dsimp only at h ⊢
      split at h
      · cases h
      · rename_i steps current path'' hwalk
        obtain rfl := Except.ok.inj h
        obtain ⟨hlen, hsteps⟩ := mark_trailing_whole hended
        obtain ⟨hwhole, hr⟩ := @walk_links_whole _ _ _ _ [] _ _ _ _ _ hdrop hwalk hsteps
        refine ⟨?_, hr⟩
        dsimp only
        rw [hlen, hwhole, List.length_drop, List.length_nil]
        omega
      · rename_i steps path'' hwalk
        obtain rfl := Except.ok.inj h
        obtain ⟨hwhole, hr⟩ := @walk_links_whole _ _ _ _ [] _ _ _ _ _ hdrop hwalk hended
        refine ⟨?_, hr⟩
        dsimp only
        rw [hwhole, List.length_drop, List.length_nil]
        omega
    | many header values keys =>
      dsimp only at h ⊢
      obtain rfl := Except.ok.inj h
      have hlast : ¬ start < segs.length := by
        intro hlt
        have hmem : owner ∈ segs.dropLast := by
          rw [List.mem_iff_getElem?]
          refine ⟨start - 1, ?_⟩
          have hin : start - 1 < segs.length - 1 := by omega
          rw [List.getElem?_dropLast, if_pos hin]
          exact howner
        obtain ⟨w, hw⟩ := apply_subscripts_one (hsubs owner hmem) hone
        cases hw
      rw [if_neg hlast]
      refine ⟨?_, _, rfl⟩
      simp only [List.length_singleton]
      omega

/-- A chain of one value is walked whole, a null that a link follows ends the walk there with the
links after it counted, a receiver that is unfetched or cannot be told ends it with the report that
evaluation gives, and a walk that says of no link that it is null or unfetched is a whole one. -/
theorem chain_walk_evaluates (e : Evaluator) (lazy : LazyPolicy) (expr : String) :
    (∀ v path, resolve_expression_multi e lazy expr = .ok (.one v, path) →
      ∃ walk init label, walk_expression_chain e lazy expr = .ok walk ∧
        walk.steps = init ++ [⟨label, e.render_value v, last_end e lazy v⟩] ∧
        walk.steps.length = walk.total_links ∧ walk.path = path ∧ ∀ s ∈ init, s.ended = none) ∧
    (∀ links j v, ComesTo e lazy expr links j v → v.data = .object 0 → j < links.length →
      (∃ msg, resolve_expression_multi e lazy expr = .error msg) ∧
        ∃ walk init label, walk_expression_chain e lazy expr = .ok walk ∧
          walk.steps = init ++ [⟨label, e.render_value v, some .null⟩] ∧ init.length = j ∧
          (∀ s ∈ init, s.ended = none) ∧ unreached walk = links.length - j) ∧
    (∀ links j v seg id type_id msg, ComesTo e lazy expr links j v → links[j]? = some seg →
      parse_object_handle seg.name = none → v.data = .object id → id ≠ 0 →
      e.get_object_reference_type id = .ok type_id →
      check_lazy_receiver e.toDebuggee id type_id seg lazy = .error msg →
      resolve_expression_multi e lazy expr = .error msg ∧
        walk_expression_chain e lazy expr = .error msg) ∧
    (∀ segs walk, e.parse_expr expr = .ok segs →
      (∀ seg ∈ segs.dropLast, ∀ s ∈ seg.subs, ∃ key, s = .index key) →
      walk_expression_chain e lazy expr = .ok walk → stopped_at walk = none →
      walk.steps.length = walk.total_links ∧
        ∃ r, resolve_expression_multi e lazy expr = .ok r) := by
  refine ⟨?_, ?_, ?_, ?_⟩
  · intro v path h
    exact walk_of_one h
  · intro links j v h hnull hj
    exact walk_of_null h hnull hj
  · intro links j v seg id type_id msg h hseg hhandle hdata hid htype hcheck
    exact walk_of_lazy h hseg hhandle hdata hid htype hcheck
  · intro segs walk hparse hsubs h hstop
    exact walk_vouches hparse hsubs h hstop

def the_bag : Value := ⟨76, .object 7⟩

/-- A session whose `box` is a collection that nobody has fetched, and whose `xs` is an array. -/
def bag_session : Evaluator where
  get_object_reference_type := fun _ => .ok 1
  get_signature := fun c => .ok (if c = 1 then "Lorg/hibernate/collection/Bag;"
    else "Lorg/hibernate/collection/PersistentCollection;")
  get_superclass := fun _ => .ok none
  get_interfaces := fun c => .ok (if c = 1 then [2] else [])
  get_fields := fun _ => .ok [⟨1, "initialized", "Z", 0⟩]
  get_methods := fun _ => .ok []
  get_object_values := fun _ fids => .ok (fids.map fun _ => ⟨90, .boolean false⟩)
  get_array_length := fun _ => .ok 3
  get_array_values := fun _ _ _ => .ok []
  get_string_value := fun _ => .error "no reply"
  decode_signature := id
  debug_data := fun _ => ""
  invoke_segment_method := fun _ _ _ _ => .error "no reply"
  parse_expr := fun text =>
    if text = "box.size()" then .ok [⟨"box", none, []⟩, ⟨"size", some [], []⟩]
    else .ok [⟨"xs", none, [.range 0 2]⟩, ⟨"name", none, []⟩]
  resolve_object_handle := fun _ => .error "no reply"
  frame_head := some fun seg => .ok (if seg.name = "box" then the_bag else ⟨91, .object 8⟩)
  resolve_bare_member := fun _ => none
  bare_name_not_found := id
  resolve_class_copies := fun _ => .ok []
  static_member := fun _ _ _ => .error (.fatal "no reply")
  describe_class_loaders := fun _ => []
  apply_index := fun v _ _ path => .ok (v, path)
  apply_range := fun v _ _ label path => .ok (.many label [v, v] ["0", "1"], path)
  apply_filter := fun v _ label path => .ok (.many label [v] ["0"], path)
  render_value := fun _ => "…"
  render_arglit := fun _ => "…"

theorem bag_candidate :
    hibernate_candidate "Lorg/hibernate/collection/Bag;" = some .collection := by
  decide +kernel

theorem bag_unfetched :
    hibernate_lazy_state bag_session.toDebuggee 7 1 = .unfetched .collection := by
  have himpl : HIBERNATE_COLLECTION_IFACES.any
      (implements_interface bag_session.toDebuggee.toTypes 1) = true := by
    decide +kernel
  have hflag : read_initialized_flag bag_session.toDebuggee 7 = .ok false := by
    rfl
  have hsig : (bag_session.get_signature 1).toOption.getD "" =
      "Lorg/hibernate/collection/Bag;" := by
    rfl
  rw [hibernate_lazy_state, hsig, bag_candidate]
  dsimp only
  rw [if_pos himpl, hflag]
  rfl

theorem bag_refused : ∃ msg,
    check_lazy_receiver bag_session.toDebuggee 7 1 ⟨"size", some [], []⟩ .report = .error msg := by
  unfold check_lazy_receiver
  rw [bag_unfetched]
  exact ⟨_, rfl⟩

theorem bag_reached : ComesTo bag_session .report "box.size()" [⟨"size", some [], []⟩] 0 the_bag :=
  ⟨_, _, _, _, [], [], rfl, rfl, rfl⟩

/-- An unfetched collection that a link follows leaves no walk; and a walk that says of no link
that it is null or unfetched stops at a slice, short of the link after it. -/
theorem stops_unwalked :
    ComesTo bag_session .report "box.size()" [⟨"size", some [], []⟩] 0 the_bag ∧
      lazy_state_of bag_session.toDebuggee the_bag .report = some (.unfetched .collection) ∧
      (∃ msg, resolve_expression_multi bag_session .report "box.size()" = .error msg ∧
        walk_expression_chain bag_session .report "box.size()" = .error msg) ∧
      ∃ walk, walk_expression_chain bag_session .report "xs[0..2].name" = .ok walk ∧
        stopped_at walk = none ∧ unreached walk = 1 := by
  refine ⟨bag_reached, ?_, ?_, ?_⟩
  · exact congrArg some bag_unfetched
  · obtain ⟨msg, hrefused⟩ := bag_refused
    have hname : parse_object_handle "size" = none := by
      decide +kernel
    exact ⟨msg, walk_of_lazy bag_reached rfl hname rfl (by decide) rfl hrefused⟩
  · exact ⟨_, rfl, rfl, rfl⟩

end Agreement

end JavaDebug.ChainWalks
