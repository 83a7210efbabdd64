import JavaDebug.CollectionScans
import JavaDebug.Comparisons
import JavaDebug.Readings

/-!
Filters. A predicate's right sides are resolved once, then the elements are
scanned, and each is judged by the tree from left to right, stopping as soon as
it is decided. An element is kept with its key where the verdict is true, and an
error is counted where there is none; when every element errs, the filter does.
-/
namespace JavaDebug.Filters

open WireReader JavaValues MapWalks Comparisons
open Addressing (trim)
open CollectionScans (Scan)
open BooleanTrees (BoolTree parse_bool_tree split_comparison prepare_tree prepare_trees eval_tree
  eval_branches)
open Readings (reading PlainQuotes)

section Code

variable {σ : Type}

/-- What runs against the debuggee may fail, and leaves another state behind. -/
abbrev Run (σ α : Type) := ExceptT String (StateM σ) α

/-- The elements of a collection, no more than an `i32` counts, and their keys if it is a map. -/
structure Scanned extends Scan where
  counted : values.length ≤ 2147483647
  keyed : keys = [] ∨ keys.length = values.length

/-- What a filter asks of the debuggee and of the expression evaluator. -/
structure World (σ : Type) where
  heap : σ → Heap
  parse_lit : String → Except String ArgLit
  resolve_expression : String → Run σ Value
  resolve_relative : Value → String → Run σ Value
  scan_elements : Run σ Scanned

inductive PredRhs
  | lit (a : ArgLit)
  | value (v : Value)

/-- A leaf of a prepared predicate. -/
inductive Predicate
  | compare (lhs op : String) (rhs : PredRhs)
  | bool (expr : String)

variable (w : World σ)

def prepare_leaf (leaf : List Char) : Run σ Predicate :=
  match split_comparison leaf with
  | none => pure (.bool (String.ofList leaf))
  | some (lhs, op, rhs) => do
    let lit ← ExceptT.mk (pure (w.parse_lit (String.ofList (trim rhs))))
    match lit with
    | .expr e =>
      let v ← w.resolve_expression e
      return .compare (String.ofList lhs) (String.ofList op) (.value v)
    | lit => return .compare (String.ofList lhs) (String.ofList op) (.lit lit)

def prepare_pred_tree : BoolTree (List Char) → Run σ (BoolTree Predicate) :=
  prepare_tree (prepare_leaf w)

def prepare_predicate (predicate : String) : Run σ (BoolTree Predicate) :=
  prepare_pred_tree w (parse_bool_tree predicate.toList)

/-- A comparison reads the debuggee as it is once its left side is resolved. -/
def eval_leaf (element : Value) : Predicate → Run σ Bool
  | .compare lhs op rhs => do
    let lv ← w.resolve_relative element lhs
    let s ← get
    match rhs with
    | .value rv => ExceptT.mk (pure (compare_resolved (w.heap s) lv op rv))
    | .lit lit => ExceptT.mk (pure (compare_values (w.heap s) lv op lit))
  | .bool expr => do
    let v ← w.resolve_relative element expr
    match v.data with
    | .boolean b => return b
    | _ => throw ("Predicate '" ++ expr ++ "' did not evaluate to a boolean")

abbrev eval_predicate_on (element : Value) : BoolTree Predicate → Run σ Bool :=
  eval_tree (eval_leaf w element)

/-- What has been kept, and what has failed. -/
structure Kept where
  values : List Value
  keys : List String
  errors : ℕ
  first_error : Option String

def Kept.add (k : Kept) (v : Value) (key : Option String) : Except String Bool → Kept
  | .ok true => { k with values := k.values ++ [v], keys := k.keys ++ key.toList }
  | .ok false => k
  | .error e => { k with errors := k.errors + 1, first_error := k.first_error.or (some e) }

def keep_matching (pred : BoolTree Predicate) : List (Value × Option String) → Kept → StateM σ Kept
  | [], k => pure k
  | (v, key) :: rest, k => do
    let verdict ← (eval_predicate_on w v pred).run
    keep_matching pred rest (k.add v key verdict)

/-- Each value with its key, or without one where there are none. -/
def keyed (scan : Scan) : List (Value × Option String) :=
  scan.values.zip (scan.keys.map some ++ List.replicate scan.values.length none)

/-- `Resolved::Many` -/
structure Many where
  header : String
  values : List Value
  keys : List String

def filter_note (scanned : ℕ) (len : Int32) (errors : ℕ) : String :=
  let capped := " (scanned the first " ++ toString scanned ++ " of " ++ toString len ++
    " — scan cap"
  if (scanned : ℤ) < len.toInt then
    if errors = 0 then capped ++ ")"
    else capped ++ "; " ++ toString errors ++ " element(s) errored)"
  else if errors = 0 then ""
  else " (" ++ toString errors ++ " element(s) errored)"

def filter_header (predicate : String) (scan : Scan) (kept errors : ℕ) : String :=
  let scanned := min scan.values.length 2147483647
  let unit := if scan.keys = [] then "matched" else "entr(ies)"
  scan.name ++ "[?" ++ predicate ++ "] → " ++ toString kept ++ " of " ++ toString scanned ++ " " ++
    unit ++ filter_note scanned scan.len errors

def failed_everywhere (predicate label : String) (first_error : Option String) : String :=
  "Predicate '" ++ predicate ++ "' failed on every element of '" ++ label ++ "': " ++
    first_error.getD ""

def apply_filter (predicate label : String) : Run σ Many := do
  let pred ← prepare_predicate w predicate
  let scan ← w.scan_elements
  let kept ← (liftM (keep_matching w pred (keyed scan.toScan) ⟨[], [], 0, none⟩) : Run σ Kept)
  if 0 < kept.errors ∧ kept.values = [] ∧ kept.errors = min scan.values.length 2147483647 then
    throw (failed_everywhere predicate label kept.first_error)
  else
    return ⟨filter_header predicate scan.toScan kept.values.length kept.errors, kept.values,
      kept.keys⟩

end Code

section Judging

variable {σ : Type}

/-- `Judges w v p s r s'`: started in `s`, the verdict of `p` on `v` is `r`, reached in `s'`. What
follows a decided branch is not evaluated. -/
inductive Judges (w : World σ) (v : Value) :
    BoolTree Predicate → σ → Except String Bool → σ → Prop
  | leaf (a : Predicate) (s s' : σ) (r : Except String Bool) :
      (eval_leaf w v a).run s = (r, s') → Judges w v (.leaf a) s r s'
  | not (p : BoolTree Predicate) (s s' : σ) (r : Except String Bool) :
      Judges w v p s r s' → Judges w v (.not p) s (r.map fun b => !b) s'
  | or_nil (s : σ) : Judges w v (.or []) s (.ok false) s
  | or_true (p : BoolTree Predicate) (ps : List (BoolTree Predicate)) (s s' : σ) :
      Judges w v p s (.ok true) s' → Judges w v (.or (p :: ps)) s (.ok true) s'
  | or_fails (p : BoolTree Predicate) (ps : List (BoolTree Predicate)) (s s' : σ) (e : String) :
      Judges w v p s (.error e) s' → Judges w v (.or (p :: ps)) s (.error e) s'
  | or_next (p : BoolTree Predicate) (ps : List (BoolTree Predicate)) (s s' s'' : σ)
      (r : Except String Bool) : Judges w v p s (.ok false) s' →
      Judges w v (.or ps) s' r s'' → Judges w v (.or (p :: ps)) s r s''
  | and_nil (s : σ) : Judges w v (.and []) s (.ok true) s
  | and_false (p : BoolTree Predicate) (ps : List (BoolTree Predicate)) (s s' : σ) :
      Judges w v p s (.ok false) s' → Judges w v (.and (p :: ps)) s (.ok false) s'
  | and_fails (p : BoolTree Predicate) (ps : List (BoolTree Predicate)) (s s' : σ) (e : String) :
      Judges w v p s (.error e) s' → Judges w v (.and (p :: ps)) s (.error e) s'
  | and_next (p : BoolTree Predicate) (ps : List (BoolTree Predicate)) (s s' s'' : σ)
      (r : Except String Bool) : Judges w v p s (.ok true) s' →
      Judges w v (.and ps) s' r s'' → Judges w v (.and (p :: ps)) s r s''

theorem run_bind_ok {α β : Type} (x : Run σ α) (f : α → Run σ β) (a : α) (s s' : σ)
    (h : x.run s = (.ok a, s')) : (x >>= f).run s = (f a).run s' := by
  change (ExceptT.bindCont f (x.run s).1 : StateM σ _) (x.run s).2 = _
  rw [h]
  rfl

theorem run_bind_error {α β : Type} (x : Run σ α) (f : α → Run σ β) (e : String) (s s' : σ)
    (h : x.run s = (.error e, s')) : (x >>= f).run s = (.error e, s') := by
  change (ExceptT.bindCont f (x.run s).1 : StateM σ _) (x.run s).2 = _
  rw [h]
  rfl

theorem run_lift {α : Type} (x : StateM σ α) (s : σ) :
    (liftM x : Run σ α).run s = (.ok (x.run s).1, (x.run s).2) := rfl

variable (w : World σ) (v : Value)

theorem eval_not (p : BoolTree Predicate) (s : σ) :
    (eval_predicate_on w v (.not p)).run s =
      (((eval_predicate_on w v p).run s).1.map (fun b => !b),
        ((eval_predicate_on w v p).run s).2) := by
  rw [eval_predicate_on, eval_tree]
  rcases hp : (eval_predicate_on w v p).run s with ⟨e | b, s'⟩
  · exact run_bind_error _ _ e s s' hp
  · exact run_bind_ok _ _ b s s' hp

/-- What is left of a list of branches once the first has its verdict. -/
def eval_rest (stop : Bool) (branches : List (BoolTree Predicate)) :
    Except String Bool × σ → Except String Bool × σ
  | (.error e, s) => (.error e, s)
  | (.ok b, s) =>
    if b = stop then (.ok stop, s) else (eval_branches (eval_leaf w v) stop branches).run s

theorem eval_branches_cons (stop : Bool) (p : BoolTree Predicate)
    (branches : List (BoolTree Predicate)) (s : σ) :
    (eval_branches (eval_leaf w v) stop (p :: branches)).run s =
      eval_rest w v stop branches ((eval_predicate_on w v p).run s) := by
  unfold eval_predicate_on
  rw [eval_branches]
  rcases hp : (eval_tree (eval_leaf w v) p).run s with ⟨e | b, s'⟩
  · exact run_bind_error _ _ e s s' hp
  · rw [run_bind_ok _ _ b s s' hp, eval_rest]
    by_cases hb : b = stop
    · rw [if_pos hb, if_pos hb]
      rfl
    · rw [if_neg hb, if_neg hb]

theorem Judges.eval (p : BoolTree Predicate) (s s' : σ) (r : Except String Bool)
    (h : Judges w v p s r s') : (eval_predicate_on w v p).run s = (r, s') := by
  induction h with
  | leaf a s s' r h =>
    rw [eval_predicate_on, eval_tree]
    exact h
  | not p s s' r _ ih => rw [eval_not, ih]
  | or_nil s =>
    rw [eval_predicate_on, eval_tree, eval_branches]
    rfl
  | or_true p ps s s' _ ih =>
    rw [eval_predicate_on, eval_tree, eval_branches_cons, ih, eval_rest, if_pos rfl]
  | or_fails p ps s s' e _ ih => rw [eval_predicate_on, eval_tree, eval_branches_cons, ih,
    eval_rest]
  | or_next p ps s s' s'' r _ _ ih ih' =>
    rw [eval_predicate_on, eval_tree] at ih' ⊢
    rw [eval_branches_cons, ih, eval_rest, if_neg (by simp), ih']
  | and_nil s =>
    rw [eval_predicate_on, eval_tree, eval_branches]
    rfl
  | and_false p ps s s' _ ih =>
    rw [eval_predicate_on, eval_tree, eval_branches_cons, ih, eval_rest, if_pos rfl]
  | and_fails p ps s s' e _ ih => rw [eval_predicate_on, eval_tree, eval_branches_cons, ih,
    eval_rest]
  | and_next p ps s s' s'' r _ _ ih ih' =>
    rw [eval_predicate_on, eval_tree] at ih' ⊢
    rw [eval_branches_cons, ih, eval_rest, if_neg (by simp), ih']

mutual

theorem judged (p : BoolTree Predicate) (s : σ) :
    Judges w v p s ((eval_predicate_on w v p).run s).1 ((eval_predicate_on w v p).run s).2 := by
  match p with
  | .leaf a =>
    rw [eval_predicate_on, eval_tree]
    exact .leaf a s _ _ rfl
  | .not p =>
    rw [eval_not]
    exact .not p s _ _ (judged p s)
  | .or ps =>
    rw [eval_predicate_on, eval_tree]
    exact (judged_branches ps s).1
  | .and ps =>
    rw [eval_predicate_on, eval_tree]
    exact (judged_branches ps s).2

theorem judged_branches (ps : List (BoolTree Predicate)) (s : σ) :
    Judges w v (.or ps) s ((eval_branches (eval_leaf w v) true ps).run s).1
        ((eval_branches (eval_leaf w v) true ps).run s).2 ∧
      Judges w v (.and ps) s ((eval_branches (eval_leaf w v) false ps).run s).1
        ((eval_branches (eval_leaf w v) false ps).run s).2 := by
  match ps with
  | [] =>
    rw [eval_branches, eval_branches]
    exact ⟨.or_nil s, .and_nil s⟩
  | p :: ps =>
    have hfirst := judged p s
    rw [eval_branches_cons, eval_branches_cons]
    revert hfirst
    rcases (eval_predicate_on w v p).run s with ⟨e | b, s'⟩
    all_goals intro hfirst
    · exact ⟨.or_fails p ps s s' e hfirst, .and_fails p ps s s' e hfirst⟩
    · obtain ⟨hor, hand⟩ := judged_branches ps s'
      rcases b with _ | _
      · exact ⟨.or_next p ps s s' _ _ hfirst hor, .and_false p ps s s' hfirst⟩
      · exact ⟨.or_true p ps s s' hfirst, .and_next p ps s s' _ _ hfirst hand⟩

end

/-- The verdicts of a predicate on a list of elements, judged one after another. -/
inductive JudgedAll (w : World σ) (p : BoolTree Predicate) :
    List Value → σ → List (Except String Bool) → σ → Prop
  | nil (s : σ) : JudgedAll w p [] s [] s
  | cons (v : Value) (values : List Value) (s s' s'' : σ) (r : Except String Bool)
      (verdicts : List (Except String Bool)) : Judges w v p s r s' →
      JudgedAll w p values s' verdicts s'' → JudgedAll w p (v :: values) s (r :: verdicts) s''

end Judging

section Keeping

variable {σ α : Type}

def holds : Except String Bool → Bool
  | .ok b => b
  | .error _ => false

def fails : Except String Bool → Bool
  | .ok _ => false
  | .error _ => true

def why : Except String Bool → Option String
  | .ok _ => none
  | .error e => some e

/-- The entries whose verdict is true. -/
def kept_where (entries : List α) (verdicts : List (Except String Bool)) : List α :=
  ((entries.zip verdicts).filter fun x => holds x.2).map Prod.fst

theorem kept_where_cons (x : α) (entries : List α) (r : Except String Bool)
    (verdicts : List (Except String Bool)) :
    kept_where (x :: entries) (r :: verdicts) =
      (if holds r then [x] else []) ++ kept_where entries verdicts := by
  by_cases hr : holds r = true
  · simp [kept_where, hr]
  · simp [kept_where, hr]

theorem kept_where_map {β : Type} (f : α → β) (entries : List α)
    (verdicts : List (Except String Bool)) :
    kept_where (entries.map f) verdicts = (kept_where entries verdicts).map f := by
  induction entries generalizing verdicts with
  | nil => rfl
  | cons x entries ih =>
    obtain _ | ⟨r, verdicts⟩ := verdicts
    · rfl
    · rw [List.map_cons, kept_where_cons, kept_where_cons, ih, List.map_append]
      by_cases hr : holds r = true
      · simp [hr]
      · simp [hr]

/-- What is kept is added to, entry after entry. -/
def Kept.after (k : Kept) (entries : List (Value × Option String))
    (verdicts : List (Except String Bool)) : Kept :=
  { values := k.values ++ (kept_where entries verdicts).map Prod.fst
    keys := k.keys ++ ((kept_where entries verdicts).filterMap Prod.snd)
    errors := k.errors + verdicts.countP fails
    first_error := k.first_error.or (verdicts.findSome? why) }

theorem Kept.after_cons (k : Kept) (v : Value) (key : Option String)
    (entries : List (Value × Option String)) (r : Except String Bool)
    (verdicts : List (Except String Bool)) :
    (k.add v key r).after entries verdicts = k.after ((v, key) :: entries) (r :: verdicts) := by
  rcases r with e | b
  · simp only [Kept.after, Kept.add, kept_where_cons, holds, List.countP_cons, fails, why,
      List.findSome?_cons, if_true, Bool.false_eq_true, if_false, List.nil_append, Option.or_assoc]
    rw [Nat.add_assoc, Nat.add_comm 1]
    rfl
  · rcases b with _ | _
    · simp [Kept.after, Kept.add, kept_where_cons, holds, fails, why, List.findSome?_cons]
    · rcases key with _ | key
      · simp [Kept.after, Kept.add, kept_where_cons, holds, fails, why, List.findSome?_cons]
      · simp [Kept.after, Kept.add, kept_where_cons, holds, fails, why, List.findSome?_cons]

/-- The loop judges every entry and keeps those that hold. -/
theorem keep_matching_run (w : World σ) (pred : BoolTree Predicate)
    (entries : List (Value × Option String)) (k : Kept) (s : σ) :
    ∃ verdicts s', JudgedAll w pred (entries.map Prod.fst) s verdicts s' ∧
      verdicts.length = entries.length ∧
      (keep_matching w pred entries k).run s = (k.after entries verdicts, s') := by
  induction entries generalizing k s with
  | nil =>
    refine ⟨[], s, .nil s, rfl, ?_⟩
    simp [keep_matching, Kept.after, kept_where]
    rfl
  | cons entry entries ih =>
    obtain ⟨v, key⟩ := entry
    have hfirst := judged w v pred s
    rcases hrun : (eval_predicate_on w v pred).run s with ⟨r, s'⟩
    rw [hrun] at hfirst
    obtain ⟨verdicts, s'', hall, hlen, hloop⟩ := ih (k.add v key r) s'
    refine ⟨r :: verdicts, s'', .cons v _ s s' s'' r verdicts hfirst hall, by simp [hlen], ?_⟩
    rw [Kept.after_cons] at hloop
    rw [← hloop, keep_matching]
    change (keep_matching w pred entries (k.add v key ((eval_predicate_on w v pred).run s).1))
      ((eval_predicate_on w v pred).run s).2 = _
    rw [hrun]
    rfl

end Keeping

section Filtering

variable {σ : Type}

/-- What a filter answers when these are the verdicts of the scanned elements. -/
def filtered (predicate label : String) (scan : Scanned) (verdicts : List (Except String Bool)) :
    Except String Many :=
  if verdicts ≠ [] ∧ verdicts.all fails then
    .error (failed_everywhere predicate label (verdicts.findSome? why))
  else
    let values := kept_where scan.values verdicts
    .ok ⟨filter_header predicate scan.toScan values.length (verdicts.countP fails), values,
      kept_where scan.keys verdicts⟩

/-- Whenever its right sides resolve and the collection is scanned, the filter judges every element
by the tree that the predicate is to be read as, and answers by the verdicts. -/
def FiltersByReading (predicate : String) : Prop :=
  ∀ (σ : Type) (w : World σ) (label : String) (s s₁ s₂ : σ) (pred : BoolTree Predicate)
    (scan : Scanned),
    (prepare_pred_tree w (reading predicate.toList)).run s = (.ok pred, s₁) →
    w.scan_elements.run s₁ = (.ok scan, s₂) →
    ∃ verdicts s₃, JudgedAll w pred scan.values s₂ verdicts s₃ ∧
      verdicts.length = scan.values.length ∧
      (apply_filter w predicate label).run s = (filtered predicate label scan verdicts, s₃)

variable (scan : Scanned)

theorem keyed_values : (keyed scan.toScan).map Prod.fst = scan.values := by
  rw [keyed, List.map_fst_zip]
  simp

theorem keyed_keys :
    (keyed scan.toScan).map Prod.snd =
      (scan.keys.map some ++ List.replicate scan.values.length none).take scan.values.length := by
  rw [keyed, List.zip_eq_zip_take_min, List.map_snd_zip (by simp)]
  simp

theorem kept_where_none (n : ℕ) (verdicts : List (Except String Bool)) :
    (kept_where (List.replicate n (none : Option String)) verdicts).filterMap id = [] := by
  have hnone : ∀ x ∈ kept_where (List.replicate n (none : Option String)) verdicts,
      id x = none := by
    intro x hx
    obtain ⟨y, hy, rfl⟩ := List.mem_map.mp hx
    have hzip := List.mem_of_mem_filter hy
    exact List.eq_of_mem_replicate (List.of_mem_zip hzip).1
  exact List.filterMap_eq_nil_iff.mpr hnone

variable (verdicts : List (Except String Bool))

theorem kept_keys :
    (kept_where (keyed scan.toScan) verdicts).filterMap Prod.snd =
      kept_where scan.keys verdicts := by
  have hsnd : (kept_where (keyed scan.toScan) verdicts).filterMap Prod.snd =
      (kept_where ((keyed scan.toScan).map Prod.snd) verdicts).filterMap id := by
    rw [kept_where_map, List.filterMap_map]
    rfl
  rw [hsnd, keyed_keys]
  rcases scan.keyed with hnil | hlen
  · rw [hnil, List.map_nil, List.nil_append, List.take_of_length_le (by simp), kept_where_none]
    simp [kept_where]
  · rw [List.take_left' (by simpa using hlen), kept_where_map, List.filterMap_map]
    simp

theorem all_fails_iff : verdicts.all fails = true ↔ verdicts.countP fails = verdicts.length := by
  rw [List.countP_eq_length, List.all_eq_true]

theorem kept_where_fails {α : Type} (entries : List α) (verdicts : List (Except String Bool))
    (h : verdicts.all fails = true) : kept_where entries verdicts = [] := by
  rw [kept_where, List.map_eq_nil_iff, List.filter_eq_nil_iff]
  intro x hx
  have hfails := List.all_eq_true.mp h x.2 (List.of_mem_zip hx).2
  rcases hr : x.2 with e | b
  · simp [holds]
  · simp [hr, fails] at hfails

/-- The filter fails where there are elements and all of them failed. -/
theorem fails_everywhere_iff (hlen : verdicts.length = scan.values.length) :
    (0 < verdicts.countP fails ∧ kept_where scan.values verdicts = [] ∧
        verdicts.countP fails = min scan.values.length 2147483647) ↔
      verdicts ≠ [] ∧ verdicts.all fails = true := by
  have hcounted := scan.counted
  rw [Nat.min_eq_left hcounted, all_fails_iff, ← hlen]
  constructor
  · rintro ⟨hpos, -, hall⟩
    refine ⟨?_, hall⟩
    rintro rfl
    simp at hpos
  · rintro ⟨hne, hall⟩
    have hpos := List.length_pos_iff.mpr hne
    refine ⟨by omega, ?_, hall⟩
    exact kept_where_fails _ verdicts ((all_fails_iff verdicts).mpr hall)

/-- A filter whose predicate has been prepared and whose elements are read. -/
theorem apply_filter_run (w : World σ) (predicate label : String) (s s₁ s₂ : σ)
    (pred : BoolTree Predicate) (scan : Scanned)
    (hpred : (prepare_predicate w predicate).run s = (.ok pred, s₁))
    (hscan : w.scan_elements.run s₁ = (.ok scan, s₂)) :
    ∃ verdicts s₃, JudgedAll w pred scan.values s₂ verdicts s₃ ∧
      verdicts.length = scan.values.length ∧
      (apply_filter w predicate label).run s = (filtered predicate label scan verdicts, s₃) := by
  obtain ⟨verdicts, s₃, hall, hlen, hloop⟩ :=
    keep_matching_run w pred (keyed scan.toScan) ⟨[], [], 0, none⟩ s₂
  rw [keyed_values] at hall
  have hlen' : verdicts.length = scan.values.length := by
    rw [hlen, ← keyed_values, List.length_map]
  refine ⟨verdicts, s₃, hall, hlen', ?_⟩
  have hkept : (Kept.after ⟨[], [], 0, none⟩ (keyed scan.toScan) verdicts) =
      ⟨kept_where scan.values verdicts, kept_where scan.keys verdicts, verdicts.countP fails,
        verdicts.findSome? why⟩ := by
    rw [Kept.after, kept_keys, ← kept_where_map, keyed_values]
    simp
  rw [hkept] at hloop
  have hiff := fails_everywhere_iff scan verdicts hlen'
  have hlift :
      (liftM (keep_matching w pred (keyed scan.toScan) ⟨[], [], 0, none⟩) : Run σ Kept).run s₂ =
      (.ok ⟨kept_where scan.values verdicts, kept_where scan.keys verdicts, verdicts.countP fails,
        verdicts.findSome? why⟩, s₃) := by
    rw [run_lift, hloop]
  rw [apply_filter, run_bind_ok _ _ _ _ _ hpred, run_bind_ok _ _ _ _ _ hscan,
    run_bind_ok _ _ _ _ _ hlift]
  rw [filtered]
  by_cases hfails : verdicts ≠ [] ∧ verdicts.all fails = true
  · rw [if_pos hfails, if_pos (hiff.mpr hfails)]
    rfl
  · rw [if_neg hfails, if_neg fun h => hfails (hiff.mp h)]
    rfl

theorem prepare_reads (w : World σ) (predicate : String) (h : PlainQuotes predicate.toList) :
    prepare_predicate w predicate = prepare_pred_tree w (reading predicate.toList) := by
  rw [prepare_predicate, Readings.parse_reads predicate.toList h]

/-- A predicate whose quotes are plain keeps exactly what it is to keep. -/
theorem plain_predicate_filters (predicate : String) (h : PlainQuotes predicate.toList) :
    FiltersByReading predicate := by
  intro σ w label s s₁ s₂ pred scan hpred hscan
  rw [← prepare_reads w predicate h] at hpred
  exact apply_filter_run w predicate label s s₁ s₂ pred scan hpred hscan

theorem open_orders_filter : FiltersByReading "status == \"OPEN\" && !(paid || closed[0])" :=
  plain_predicate_filters _ (by decide)

/-- The call `f("\"")`. -/
def quote_call : List Char := ['f', '(', '"', '\\', '"', '"', ')']

/-- The predicate `f("\"") || open`. -/
def escaped_quote : List Char := quote_call ++ " || open".toList

/-- A collection of one element, for which `f` answers `false` and `open` is `true`. -/
def one_open : World Unit where
  heap _ := two_kinds
  parse_lit _ := .error "not a literal"
  resolve_expression _ := throw "no frame"
  resolve_relative _ expr :=
    if expr.toList = "open".toList then pure ⟨90, .boolean true⟩
    else if expr.toList = quote_call then pure ⟨90, .boolean false⟩
    else throw "no such member"
  scan_elements := pure ⟨⟨[value_object 1], [], 1, "orders"⟩, by decide, .inl rfl⟩

theorem read_leaf (n : ℕ) (t : List Char)
    (hunwrap : Readings.unwrap (trim t).length (trim (trim t)) = t)
    (hors : Readings.read_split '|' 0 .default [] t = [t])
    (hands : Readings.read_split '&' 0 .default [] t = [t]) (hneg : BooleanTrees.negated t = none) :
    Readings.read_with (n + 1) t = .leaf t := by
  rw [Readings.read_with]
  dsimp only
  rw [hunwrap, hors, hands, hneg]
  rfl

/-- It is to be read as a choice of two. -/
theorem escaped_quote_reading :
    reading escaped_quote = .or [.leaf quote_call, .leaf "open".toList] := by
  have hunwrap : Readings.unwrap (trim escaped_quote).length (trim (trim escaped_quote)) =
      escaped_quote := by decide +kernel
  have hors : Readings.read_split '|' 0 .default [] escaped_quote =
      [quote_call, "open".toList] := by decide +kernel
  have hlen : escaped_quote.length = 14 + 1 := by decide +kernel
  rw [reading, Readings.read_with]
  dsimp only
  rw [hunwrap, hors, if_pos (by decide), hlen, List.map_cons, List.map_cons,
    read_leaf 14 quote_call (by decide +kernel) (by decide +kernel) (by decide +kernel) (by decide),
    read_leaf 14 "open".toList (by decide +kernel) (by decide +kernel) (by decide +kernel)
      (by decide)]
  rfl

theorem escaped_quote_parse : parse_bool_tree escaped_quote = .leaf escaped_quote := by
  have hstrip : BooleanTrees.strip_enclosing_parens (trim escaped_quote) = escaped_quote := by
    decide +kernel
  have hors : BooleanTrees.split_bool escaped_quote '|' = [escaped_quote] := by decide +kernel
  have hands : BooleanTrees.split_bool escaped_quote '&' = [escaped_quote] := by decide +kernel
  rw [BooleanTrees.parse_bool_tree_eq, hstrip, hors, hands, if_neg (by simp), if_neg (by simp)]
  rfl

theorem prepare_plain (w : World σ) (leaf : List Char) (h : split_comparison leaf = none) :
    prepare_tree (prepare_leaf w) (.leaf leaf) = pure (.leaf (.bool (String.ofList leaf))) := by
  rw [prepare_tree, prepare_leaf, h]
  rfl

/-- The predicate prepared as it is to be read. -/
def read_predicate : BoolTree Predicate :=
  .or [.leaf (.bool (String.ofList quote_call)), .leaf (.bool (String.ofList "open".toList))]

/-- The predicate as it is prepared. -/
def parsed_predicate : BoolTree Predicate := .leaf (.bool (String.ofList escaped_quote))

theorem one_open_prepared :
    (prepare_pred_tree one_open (reading (String.ofList escaped_quote).toList)).run () =
        (.ok read_predicate, ()) ∧
      (prepare_predicate one_open (String.ofList escaped_quote)).run () =
        (.ok parsed_predicate, ()) := by
  constructor
  · rw [String.toList_ofList, escaped_quote_reading, prepare_pred_tree, prepare_tree, prepare_trees,
      prepare_trees, prepare_trees, prepare_plain _ _ (by decide +kernel),
      prepare_plain _ _ (by decide +kernel)]
    rfl
  · rw [prepare_predicate, prepare_pred_tree, String.toList_ofList, escaped_quote_parse,
      prepare_plain _ _ (by decide +kernel)]
    rfl

theorem one_open_leaf (v : Value) (b : Bool) (expr : List Char)
    (h : one_open.resolve_relative v (String.ofList expr) = pure ⟨90, .boolean b⟩) :
    (eval_predicate_on one_open v (.leaf (.bool (String.ofList expr)))).run () = (.ok b, ()) := by
  rw [eval_predicate_on, eval_tree, eval_leaf, h]
  rfl

/-- Read as it is to be, the predicate holds. -/
theorem read_predicate_holds (v : Value) :
    (eval_predicate_on one_open v read_predicate).run () = (.ok true, ()) := by
  have hcall : (eval_predicate_on one_open v
      (.leaf (.bool (String.ofList quote_call)))).run () = (.ok false, ()) := by
    apply one_open_leaf
    simp only [one_open, String.toList_ofList]
    rw [if_neg (by decide), if_pos trivial]
  have hopen : (eval_predicate_on one_open v
      (.leaf (.bool (String.ofList "open".toList)))).run () = (.ok true, ()) := by
    apply one_open_leaf
    simp only [one_open, String.toList_ofList]
    rw [if_pos trivial]
  rw [read_predicate, eval_predicate_on, eval_tree, eval_branches_cons, hcall, eval_rest,
    if_neg (by decide), eval_branches_cons, hopen, eval_rest, if_pos rfl]

theorem parsed_predicate_fails (v : Value) :
    (eval_predicate_on one_open v parsed_predicate).run () =
      (.error "no such member", ()) := by
  rw [parsed_predicate, eval_predicate_on, eval_tree, eval_leaf]
  simp only [one_open, String.toList_ofList]
  rw [if_neg (by decide), if_neg (by decide)]
  rfl

/-- Misread, the predicate fails on an element that it holds for. -/
theorem escaped_quote_misfiltered : ¬ FiltersByReading (String.ofList escaped_quote) := by
  intro hall
  obtain ⟨hread, hparsed⟩ := one_open_prepared
  obtain ⟨verdicts, s₃, hjudged, -, hrun⟩ := hall Unit one_open "orders" () () () _ _ hread rfl
  obtain ⟨verdicts', s₃', hjudged', -, hrun'⟩ :=
    apply_filter_run one_open _ "orders" () () () _ _ hparsed rfl
  obtain _ | ⟨v, _, _, s', _, r, _, hfirst, ⟨⟩⟩ := hjudged
  obtain _ | ⟨v, _, _, s', _, r', _, hfirst', ⟨⟩⟩ := hjudged'
  have hr := Judges.eval _ _ _ _ _ _ hfirst
  have hr' := Judges.eval _ _ _ _ _ _ hfirst'
  rw [read_predicate_holds] at hr
  rw [parsed_predicate_fails] at hr'
  obtain rfl := (Prod.mk.inj hr).1
  obtain rfl := (Prod.mk.inj hr').1
  rw [hrun] at hrun'
  exact absurd (Prod.mk.inj hrun').1 (by simp [filtered, fails])

end Filtering

end JavaDebug.Filters
