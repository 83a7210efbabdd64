import JavaDebug.Jdwp
import JavaDebug.LiteralTexts
import JavaDebug.Pieces
import JavaDebug.Selectors

/-!
Calls in what is armed. Conditions and trace expressions that call a method are
refused for a read-only session and for the kind of stop whose thread may not be
invoked on. A scan of the text for a parenthesis outside its strings decides. It
finds every call that the parsers would find where it agrees at each parenthesis
with a scan that follows char literals too, and the quotes are plain.
-/
namespace JavaDebug.HiddenCalls

open Jdwp Addressing JavaValues Texts
open Expressions ParsedExpressions Readings Pieces
open Selectors LiteralTexts
open BooleanTrees (BoolTree parse_bool_tree split_comparison)

section Code

def invokes_loop (s : InString) : List Char → Bool
  | [] => false
  | c :: rest => if !s.in_str ∧ c = '(' then true else invokes_loop (s.step c) rest

def expr_invokes (expr : List Char) : Bool := invokes_loop .outside expr

/-- The expressions of a trace, named by their places if there are several. -/
def trace_labels (trace_expr : List (List Char)) : List (String × List Char) :=
  (trace_expr.zipIdx).map fun (e, i) =>
    (if trace_expr.length = 1 then "trace_expr" else "trace_expr[" ++ toString i ++ "]", e)

def readonly_invokes (what : String) (e : List Char) : String :=
  "🔒 Read-only session: the " ++ what ++ " `" ++ String.ofList e ++ "` calls a method, which " ++
    "would have to execute code in the debuggee on every hit — refused. Use a comparison over " ++
    "fields instead (e.g. `status == \"OPEN\"`), or attach without read_only."

def check_readonly_exprs (read_only : Bool) (condition : Option (List Char))
    (trace_expr : List (List Char)) : Except String Unit :=
  if !read_only then .ok ()
  else
    let labelled := (condition.toList.map fun c => ("condition", c)) ++ trace_labels trace_expr
    match labelled.find? fun l => expr_invokes l.2 with
    | some (what, e) => .error (readonly_invokes what e)
    | none => .ok ()

def unowned_invokes (what : String) (e : List Char) : String :=
  "🛑 Refused: the " ++ what ++ " `" ++ String.ofList e ++ "` " ++
    "CALLS A METHOD, and the kind blocked is the ONE of the four where the hit thread does NOT " ++
    "own the monitor in its own snapshot — it is queued at a monitorenter, owning nothing. An " ++
    "invocation needing that monitor cannot complete, and JDWP HAS NO WAY TO CANCEL ONE: the " ++
    "2000ms budget frees the debugger, not the debuggee.\n   Measured on Temurin 11.0.32 and " ++
    "21.0.12 — the call finishes when the lock is finally released, and the JVM re-suspends the " ++
    "thread at that moment, 1.2s after this server had already resumed it and moved on. The " ++
    "thread then stays suspended for ever: nothing here clears it, because the watchdog resumes " ++
    "a suspended VM and the VM is running.\n   Read a FIELD instead — `lock.name` and " ++
    "`this.pedido.id` need no monitor and are accepted here — or arm acquired, wait or waited: " ++
    "on all three the thread owns the monitor, so an invocation re-enters it and returns " ++
    "(measured, ADR-0036)."

def refuse_invoking_expr_on_the_unowned_kind (trace_exprs : List (List Char))
    (kinds : List MonitorKind) : Except String Unit :=
  if .blocked ∉ kinds then .ok ()
  else
    match (trace_labels trace_exprs).find? fun l => expr_invokes l.2 with
    | some (what, e) => .error (unowned_invokes what e)
    | none => .ok ()

def expr_is_boolean (expr : List Char) : Bool :=
  match parse_bool_tree expr with
  | .leaf leaf => (split_comparison leaf).isSome
  | _ => true

end Code

section Calls

/-- What a text is parsed as. -/
inductive Reads
  | expression
  | condition

/-- A method call stands somewhere in the parse of the text: in an expression as a segment or
within a subscript of one, in a condition on a side of one of its leaves. One in an argument stands
within a call. -/
inductive Calls : Reads → List Char → Prop
  | segment (e : List Char) (segs : List Seg) (seg : Seg) : parse_expr e = .ok segs →
      seg ∈ segs → seg.args.isSome = true → Calls .expression e
  | index (e : List Char) (segs : List Seg) (seg : Seg) (t : String) : parse_expr e = .ok segs →
      seg ∈ segs → .index (.expr t) ∈ seg.subs → Calls .expression t.toList → Calls .expression e
  | filter (e : List Char) (segs : List Seg) (seg : Seg) (p : String) : parse_expr e = .ok segs →
      seg ∈ segs → .filter p ∈ seg.subs → Calls .condition p.toList → Calls .expression e
  | value (c leaf : List Char) : LeafOf leaf (parse_bool_tree c) → split_comparison leaf = none →
      Calls .expression leaf → Calls .condition c
  | left (c leaf l op r : List Char) : LeafOf leaf (parse_bool_tree c) →
      split_comparison leaf = some (l, op, r) → Calls .expression l → Calls .condition c
  | right (c leaf l op r : List Char) (t : String) : LeafOf leaf (parse_bool_tree c) →
      split_comparison leaf = some (l, op, r) → parse_lit parse_expr (trim r) = .ok (.expr t) →
      Calls .expression t.toList → Calls .condition c

/-- A call in an expression of a trace, once its selector is split off. -/
def TraceCalls (e : List Char) : Prop :=
  ∃ text how, split_charset e = .ok (text, how) ∧
    Calls (if expr_is_boolean text then .condition else .expression) text

end Calls

section Parens

theorem ident_char_plain (c : Char) (h : ident_char c = true) : c ≠ '"' ∧ c ≠ '\'' := by
  refine ⟨?_, ?_⟩
  · rintro rfl
    exact absurd h (by decide)
  · rintro rfl
    exact absurd h (by decide)

theorem ident_quotes (s : List Char) (h : is_ident s = true) : quotes s = .default := by
  rw [is_ident, Bool.and_eq_true, List.all_eq_true] at h
  have hall := h.2
  clear h
  induction s with
  | nil => rfl
  | cons c s ih =>
    obtain ⟨hs, hc⟩ := ident_char_plain c (hall c List.mem_cons_self)
    rw [← List.singleton_append, quotes_append [c] s (step_default c hs hc)]
    exact ih fun d hd => hall d (List.mem_cons_of_mem c hd)

/-- The name of a call leaves the scan outside literals. -/
theorem call_paren (lit : List Char → Except String ArgLit) (head name : List Char)
    (args : Option (List ArgLit)) (h : Head lit head name args) (hargs : args.isSome = true) :
    Outside '(' head := by
  obtain _ | ⟨before, inside, args, -, -, hident, -⟩ | _ := h
  · simp at hargs
  · obtain ⟨ws, ws', hws, hws', hsplit⟩ := trim_split before
    refine ⟨before, inside ++ [')'], rfl, ?_⟩
    have hquotes : quotes before = .default := by
      rw [hsplit, quotes_append ws _ (fold_space ws hws).2,
        quotes_append _ ws' (ident_quotes _ hident)]
      exact (fold_space ws' hws').2
    rw [hquotes]
    rfl
  · simp at hargs

theorem expr_text (expr : List Char → Except String (List Seg)) (t : List Char) (e : String)
    (h : parse_lit expr t = .ok (.expr e)) : e.toList = trim t := by
  rcases lit_cases expr t _ h with ⟨-, h | ⟨b, h⟩⟩ | ⟨-, h⟩ | ⟨-, -, u, h⟩ | hnumber | ⟨h, -⟩
  · cases h
  · cases h
  · cases h
  · cases h
  · exact absurd rfl ((number_kind _ _ hnumber).2 e)
  · rw [ArgLit.expr.inj h, String.toList_ofList]

end Parens

section Finding

/-- Quotes are counted in step: from the start for a condition, from somewhere for an expression. -/
def Counted : Reads → List Char → Prop
  | .expression, t => Aligned t
  | .condition, t => PlainQuotes t

variable (e : List Char)

variable (segs : List Seg)

/-- The segments of an expression are cut from it, with their heads and subscripts. -/
theorem segment_origin (seg : Seg) (h : parse_expr e = .ok segs) (hseg : seg ∈ segs) :
    ∃ raw head gs name, Piece raw e ∧
      split_subscripts raw = .ok (head, gs) ∧
      List.Forall₂ (fun g s => parse_subscript (parse_lit parse_expr) g = .ok s) gs seg.subs ∧
      Head (parse_lit parse_expr) head name seg.args := by
  obtain ⟨parts, hcut, -, -, hall⟩ := (parse_expr_ok e segs).mp h
  obtain ⟨raw, hraw, hparse⟩ := forall₂_source _ _ hall seg hseg
  obtain ⟨head, gs, subs, name, args, hsub, hsubs, hhead, rfl⟩ := (parse_seg_ok _ raw seg).mp hparse
  exact ⟨raw, head, gs, name, segment_pieces e parts hcut raw hraw, hsub, hsubs, hhead⟩

/-- A subscript is parsed from a text with a bracket before it. -/
theorem subscript_origin (seg : Seg) (sub : Subscript) (h : parse_expr e = .ok segs)
    (hseg : seg ∈ segs) (hsub : sub ∈ seg.subs) :
    ∃ g, Bracketed g e ∧ parse_subscript (parse_lit parse_expr) g = .ok sub := by
  obtain ⟨raw, head, gs, name, hraw, hsplit, hsubs, -⟩ := segment_origin e segs seg h hseg
  obtain ⟨g, hg, hparse⟩ := forall₂_source _ _ hsubs sub hsub
  have hbracketed := (subscripts_pieces raw head gs hsplit).2 g hg
  exact ⟨g, hbracketed.of_piece g raw e hraw, hparse⟩

theorem index_piece (seg : Seg) (t : String) (h : parse_expr e = .ok segs) (hseg : seg ∈ segs)
    (hsub : .index (.expr t) ∈ seg.subs) : Piece t.toList e := by
  obtain ⟨g, hg, hparse⟩ := subscript_origin e segs seg _ h hseg hsub
  rcases (parse_subscript_ok _ g _).mp hparse with ⟨rest, -, -, heq⟩ | ⟨-, -, hrest⟩
  · simp at heq
  · rcases hrest with ⟨a, b, -, hrange⟩ | ⟨-, a, hlit, heq⟩
    · rw [parse_range] at hrange
      split at hrange
      · simp at hrange
      · simp at hrange
      · split_ifs at hrange
        simp at hrange
    · obtain rfl := Subscript.index.inj heq
      rw [expr_text _ _ t hlit]
      refine Piece.trans _ (trim g) _ (piece_trim (trim g)) ?_
      exact Piece.trans _ g _ (piece_trim g) (hg.piece g e)

theorem filter_piece (seg : Seg) (p : String) (h : parse_expr e = .ok segs) (hseg : seg ∈ segs)
    (hsub : .filter p ∈ seg.subs) : Piece p.toList e ∧ (Aligned e → PlainQuotes p.toList) := by
  obtain ⟨g, hg, hparse⟩ := subscript_origin e segs seg _ h hseg hsub
  rcases (parse_subscript_ok _ g _).mp hparse with ⟨rest, hmark, -, heq⟩ | ⟨-, -, hrest⟩
  · obtain rfl := Subscript.filter.inj heq
    rw [String.toList_ofList]
    have hmarked : Piece rest (trim g) := by
      rw [hmark]
      exact piece_suffix ['?'] rest rfl
    constructor
    · refine Piece.trans _ rest _ (piece_trim rest) (Piece.trans _ (trim g) _ hmarked ?_)
      exact Piece.trans _ g _ (piece_trim g) (hg.piece g e)
    · intro haligned
      have hplain := PlainQuotes.trim g (hg.plain g e haligned)
      rw [hmark] at hplain
      exact PlainQuotes.trim rest (PlainQuotes.right ['?'] rest hplain rfl rfl)
  · rcases hrest with ⟨a, b, -, hrange⟩ | ⟨-, a, -, heq⟩
    · rw [parse_range] at hrange
      split at hrange
      · simp at hrange
      · simp at hrange
      · split_ifs at hrange
        simp at hrange
    · simp at heq

/-- Where quotes are counted in step, every call has its parenthesis outside literals. -/
theorem calls_outside (k : Reads) (t : List Char) (h : Calls k t) (ht : Counted k t) :
    Outside '(' t := by
  induction h with
  | segment e segs seg hparse hseg hargs =>
    obtain ⟨raw, head, gs, name, hraw, hsplit, -, hhead⟩ := segment_origin e segs seg hparse hseg
    have hpiece := (subscripts_pieces raw head gs hsplit).1
    refine (hpiece.trans _ _ _ hraw).outside '(' head e ?_
    exact call_paren _ head name seg.args hhead hargs
  | index e segs seg t hparse hseg hsub _ ih =>
    have hpiece := index_piece e segs seg t hparse hseg hsub
    exact hpiece.outside '(' _ e (ih (hpiece.aligned _ e ht))
  | filter e segs seg p hparse hseg hsub _ ih =>
    obtain ⟨hpiece, hplain⟩ := filter_piece e segs seg p hparse hseg hsub
    exact hpiece.outside '(' _ e (ih (hplain ht))
  | value c leaf hleaf _ _ ih =>
    have hpiece := leaf_piece c leaf ht hleaf
    exact hpiece.outside '(' leaf c (ih (hpiece.aligned leaf c (aligned_of_plain c ht)))
  | left c leaf l op r hleaf hsplit _ ih =>
    have hpiece := Piece.trans l leaf c (comparison_pieces leaf l op r hsplit).1
      (leaf_piece c leaf ht hleaf)
    exact hpiece.outside '(' l c (ih (hpiece.aligned l c (aligned_of_plain c ht)))
  | right c leaf l op r t hleaf hsplit hlit _ ih =>
    have hpiece : Piece t.toList c := by
      rw [expr_text _ _ t hlit]
      refine Piece.trans _ (trim r) _ (piece_trim (trim r)) (Piece.trans _ r _ (piece_trim r) ?_)
      exact Piece.trans r leaf c (comparison_pieces leaf l op r hsplit).2
        (leaf_piece c leaf ht hleaf)
    exact hpiece.outside '(' _ c (ih (hpiece.aligned _ c (aligned_of_plain c ht)))

end Finding

section Guard

theorem invokes_iff (s : InString) (t : List Char) : invokes_loop s t = true ↔
    ∃ a b, t = a ++ '(' :: b ∧ (s.run a).in_str = false := by
  induction t generalizing s with
  | nil => simp [invokes_loop]
  | cons c t ih =>
    rw [invokes_loop]
    by_cases hat : (!s.in_str) = true ∧ c = '('
    · rw [if_pos hat]
      refine ⟨fun _ => ⟨[], t, by rw [hat.2]; rfl, by simpa [InString.run] using hat.1⟩,
        fun _ => rfl⟩
    · rw [if_neg hat, ih]
      constructor
      · rintro ⟨a, b, rfl, hout⟩
        exact ⟨c :: a, b, rfl, hout⟩
      · rintro ⟨a, b, hsplit, hout⟩
        obtain _ | ⟨d, a⟩ := a
        · obtain ⟨rfl, -⟩ := List.cons.inj hsplit
          exact absurd ⟨by simpa [InString.run] using hout, rfl⟩ hat
        · obtain ⟨rfl, hrest⟩ := List.cons.inj hsplit
          exact ⟨a, b, hrest, hout⟩

/-- Where the scan of strings is inside one at a parenthesis, that stands inside a literal. -/
def ParensSeen (s : InString) (q : Quoted) : List Char → Prop
  | [] => True
  | c :: rest =>
    (c = '(' → s.in_str = true → q.inside = true) ∧ ParensSeen (s.step c) (q.step c) rest

def ParensSeen.decidable (s : InString) (q : Quoted) : (t : List Char) →
    Decidable (ParensSeen s q t)
  | [] => isTrue trivial
  | _ :: rest => @instDecidableAnd _ _ _ (ParensSeen.decidable _ _ rest)

instance (s : InString) (q : Quoted) (t : List Char) : Decidable (ParensSeen s q t) :=
  ParensSeen.decidable s q t

theorem ParensSeen.seen (s : InString) (q : Quoted) (a b : List Char)
    (h : ParensSeen s q (a ++ '(' :: b)) (hin : (s.run a).in_str = true) :
    (a.foldl Quoted.step q).inside = true := by
  induction a generalizing s q with
  | nil => exact h.1 rfl hin
  | cons c a ih => exact ih (s.step c) (q.step c) h.2 hin

variable (e : List Char)

/-- The scan of strings and the count of quotes both see what stands in a literal. -/
def ScansAgree : Prop := PlainQuotes e ∧ ParensSeen .outside .default e

instance : DecidablePred ScansAgree := fun _ => inferInstanceAs (Decidable (_ ∧ _))

theorem labels_mem (trace_expr : List (List Char)) (e : List Char) (h : e ∈ trace_expr) :
    ∃ what, (what, e) ∈ trace_labels trace_expr := by
  obtain ⟨i, hi, rfl⟩ := List.mem_iff_getElem.mp h
  refine ⟨_, List.mem_map.mpr ⟨(trace_expr[i], i), ?_, rfl⟩⟩
  exact List.mem_zipIdx_iff_getElem?.mpr (by simp)

/-- What a read-only session arms passed the scan. -/
theorem readonly_passed (condition : Option (List Char)) (trace_expr : List (List Char))
    (h : check_readonly_exprs true condition trace_expr = .ok ()) :
    ∀ e ∈ condition.toList ++ trace_expr, expr_invokes e = false := by
  rw [check_readonly_exprs, if_neg (by simp)] at h
  dsimp only at h
  rcases hfind : ((condition.toList.map fun c => ("condition", c)) ++
      trace_labels trace_expr).find? (fun l => expr_invokes l.2) with _ | ⟨what, e⟩
  · intro e he
    have hnone := List.find?_eq_none.mp hfind
    rcases List.mem_append.mp he with hcond | htrace
    · simpa using hnone ("condition", e)
        (List.mem_append_left _ (List.mem_map.mpr ⟨e, hcond, rfl⟩))
    · obtain ⟨what, hlabel⟩ := labels_mem trace_expr e htrace
      simpa using hnone (what, e) (List.mem_append_right _ hlabel)
  · rw [hfind] at h
    simp at h

/-- What is armed where the thread may be queued for the lock passed the scan. -/
theorem unowned_passed (trace_exprs : List (List Char)) (kinds : List MonitorKind)
    (hkind : .blocked ∈ kinds)
    (h : refuse_invoking_expr_on_the_unowned_kind trace_exprs kinds = .ok ()) :
    ∀ e ∈ trace_exprs, expr_invokes e = false := by
  rw [refuse_invoking_expr_on_the_unowned_kind, if_neg (by simpa using hkind)] at h
  rcases hfind : (trace_labels trace_exprs).find? (fun l => expr_invokes l.2) with _ | ⟨what, e⟩
  · intro e he
    obtain ⟨what, hlabel⟩ := labels_mem trace_exprs e he
    simpa using List.find?_eq_none.mp hfind (what, e) hlabel
  · rw [hfind] at h
    simp at h

theorem trim_end_front (s : List Char) : trim_end s <+: s := by
  rw [trim_end, ← List.reverse_suffix, List.reverse_reverse]
  exact List.dropWhile_suffix is_whitespace

theorem charset_prefix (e text : List Char) (how : ByteRender)
    (h : split_charset e = .ok (text, how)) : text <+: e := by
  rw [split_charset] at h
  rcases hhash : last_selector_hash e with _ | j
  · rw [hhash] at h
    obtain ⟨rfl, -⟩ := Prod.mk.inj (Except.ok.inj h)
    exact List.prefix_rfl
  · rw [hhash] at h
    dsimp only at h
    rcases hname : parse_byte_render (trim (e.drop j).tail) with _ | how'
    · rw [hname] at h
      simp at h
    · rw [hname] at h
      rw [← (Prod.mk.inj (Except.ok.inj h)).1]
      exact (trim_end_front _).trans (List.take_prefix j e)

/-- Where the scans agree, what passes has no call in its parse. -/
theorem passed_calls_nothing (h : ScansAgree e) (hpass : expr_invokes e = false) :
    ¬ Calls .condition e ∧ ¬ TraceCalls e := by
  have hnone : ¬ Outside '(' e := by
    rintro ⟨a, b, rfl, hout⟩
    have hscan : (InString.outside.run a).in_str = false := by
      by_contra hin
      have hinside := ParensSeen.seen _ _ a b h.2 (by simpa using hin)
      rw [quotes, hinside] at hout
      simp at hout
    have hfound := (invokes_iff .outside (a ++ '(' :: b)).mpr ⟨a, b, rfl, hscan⟩
    rw [expr_invokes, hfound] at hpass
    simp at hpass
  refine ⟨fun hcalls => hnone (calls_outside .condition e hcalls h.1), ?_⟩
  rintro ⟨text, how, hsplit, hcalls⟩
  obtain ⟨rest, rfl⟩ := charset_prefix e text how hsplit
  have hplain := PlainQuotes.left text rest h.1
  have hcounted : Counted (if expr_is_boolean text then .condition else .expression) text := by
    split_ifs
    · exact hplain
    · exact aligned_of_plain text hplain
  exact hnone ((piece_front text rest).outside '(' text _ (calls_outside _ text hcalls hcounted))

/-- A text that the scan passes, alone or as one of those that a guard lets be armed. -/
def LetThrough : Prop :=
  expr_invokes e = false ∨
    (∃ condition trace_expr, e ∈ condition.toList ++ trace_expr ∧
      check_readonly_exprs true condition trace_expr = .ok ()) ∨
    ∃ trace_exprs kinds, e ∈ trace_exprs ∧ .blocked ∈ kinds ∧
      refuse_invoking_expr_on_the_unowned_kind trace_exprs kinds = .ok ()

theorem let_through_passed (h : LetThrough e) : expr_invokes e = false := by
  rcases h with hpass | ⟨condition, trace_expr, he, hok⟩ | ⟨trace_exprs, kinds, he, hkind, hok⟩
  · exact hpass
  · exact readonly_passed condition trace_expr hok e he
  · exact unowned_passed trace_exprs kinds hkind hok e he

/-- What is let through calls nothing, as a condition and as a trace expression. -/
theorem let_through_calls_nothing (h : ScansAgree e) (hlet : LetThrough e) :
    ¬ Calls .condition e ∧ ¬ TraceCalls e :=
  passed_calls_nothing e h (let_through_passed e hlet)

theorem quoted_paren_calls_nothing :
    ¬ Calls .condition "name == \"(not a call)\"".toList ∧
      ¬ TraceCalls "name == \"(not a call)\"".toList :=
  let_through_calls_nothing _ (by decide) (.inl (by decide))

/-- The expression `m['"'].f()`. -/
def quote_key : List Char :=
  ['m', '[', '\'', '"', '\'', ']', '.', 'f', '(', ')']

theorem quote_key_parses : parse_expr quote_key =
    .ok [⟨"m", none, [.index (.char 34)]⟩, ⟨"f", some [], []⟩] := rfl

/-- A char literal that is a quote hides the call after it from the scan. -/
theorem quote_key_let_through : ¬ ∀ e, LetThrough e → ¬ Calls .condition e ∧ ¬ TraceCalls e := by
  intro hall
  have hleaf : parse_bool_tree quote_key = .leaf quote_key := by rfl
  have hcalls : Calls .expression quote_key :=
    .segment _ _ _ quote_key_parses (List.mem_cons_of_mem _ List.mem_cons_self) rfl
  refine (hall quote_key (.inl (by decide))).1 (.value _ quote_key ?_ (by decide) hcalls)
  rw [hleaf]
  exact .leaf

end Guard

end JavaDebug.HiddenCalls
