import JavaDebug.JavaValues

/-!
Overload resolution. An overload is scored by how closely its parameters fit the
arguments, the nearest class with one that fits plainly decides, and only when no
class has one are interfaces, wrappers and arrays settled by asking the debuggee.
`find_method_picks` says which overload is picked and that none that fits as it
does is closer.
-/
namespace JavaDebug.Overloads

open Jdwp WireReader JavaValues

section FirstBest

variable {α : Type}

/-- A later candidate replaces the best so far only by a greater score. -/
def keep_best (best : Option (ℕ × α)) (score : ℕ) (a : α) : Option (ℕ × α) :=
  match best with
  | none => some (score, a)
  | some b => if b.1 < score then some (score, a) else some b

def best_from (score : α → Option ℕ) (best : Option (ℕ × α)) : List α → Option (ℕ × α)
  | [] => best
  | a :: rest =>
    match score a with
    | some s => best_from score (keep_best best s a) rest
    | none => best_from score best rest

/-- The first of the candidates with the greatest score. -/
def FirstBest (score : α → Option ℕ) (l : List α) (s : ℕ) (a : α) : Prop :=
  ∃ before after, l = before ++ a :: after ∧ score a = some s ∧
    (∀ b ∈ before, ∀ t, score b = some t → t < s) ∧ ∀ b ∈ after, ∀ t, score b = some t → t ≤ s

variable {score : α → Option ℕ}

variable {s : ℕ} {a : α}

theorem FirstBest.mem {l : List α} (h : FirstBest score l s a) : a ∈ l := by
  obtain ⟨before, after, rfl, -⟩ := h
  exact List.mem_append_right _ List.mem_cons_self

theorem FirstBest.bound {l : List α} (h : FirstBest score l s a) :
    ∀ b ∈ l, ∀ t, score b = some t → t ≤ s := by
  obtain ⟨before, after, rfl, hs, hbefore, hafter⟩ := h
  intro b hb t ht
  rcases List.mem_append.mp hb with hb | hb
  · exact (hbefore b hb t ht).le
  · rcases List.mem_cons.mp hb with rfl | hb
    · rw [hs, Option.some.injEq] at ht
      exact ht.ge
    · exact hafter b hb t ht

theorem FirstBest.head {rest : List α} (ha : score a = some s)
    (h : ∀ b ∈ rest, ∀ t, score b = some t → t ≤ s) : FirstBest score (a :: rest) s a :=
  ⟨[], rest, rfl, ha, (fun _ hb => by cases hb), h⟩

theorem FirstBest.cons {c : α} {rest : List α} (h : FirstBest score rest s c)
    (ha : ∀ t, score a = some t → t < s) : FirstBest score (a :: rest) s c := by
  obtain ⟨before, after, rfl, hc, hbefore, hafter⟩ := h
  refine ⟨a :: before, after, rfl, hc, fun d hd t ht => ?_, hafter⟩
  rcases List.mem_cons.mp hd with rfl | hd
  · exact ha t ht
  · exact hbefore d hd t ht

theorem best_from_cases (score : α → Option ℕ) (best : Option (ℕ × α)) (l : List α) :
    (best_from score best l = best ∧
      ∀ a ∈ l, ∀ t, score a = some t → ∃ b ∈ best, t ≤ b.1) ∨
    ∃ s a, best_from score best l = some (s, a) ∧ (∀ b ∈ best, b.1 < s) ∧
      FirstBest score l s a := by
  induction l generalizing best with
  | nil => exact Or.inl ⟨rfl, fun a h => by cases h⟩
  | cons a rest ih =>
    -- whether `a` beats the best so far
    by_cases hbeats : ∃ s, score a = some s ∧ ∀ b ∈ best, b.1 < s
    · obtain ⟨s, hs, hlt⟩ := hbeats
      have hstep : best_from score best (a :: rest) = best_from score (some (s, a)) rest := by
        rw [best_from, hs]
        cases best with
        | none => rfl
        | some b => simp only [keep_best, if_pos (hlt b rfl)]
      rw [hstep]
      rcases ih (some (s, a)) with ⟨h, hle⟩ | ⟨t, c, h, hst, hbest⟩
      · refine Or.inr ⟨s, a, h, hlt, .head hs fun c hc t ht => ?_⟩
        obtain ⟨b, hb, htb⟩ := hle c hc t ht
        cases hb
        exact htb
      · refine Or.inr ⟨t, c, h, fun b hb => (hlt b hb).trans (hst _ rfl), hbest.cons fun u hu => ?_⟩
        rw [hs, Option.some.injEq] at hu
        exact hu ▸ hst _ rfl
    · have hle : ∀ t, score a = some t → ∃ b ∈ best, t ≤ b.1 := fun t ht => by
        by_contra hno
        exact hbeats ⟨t, ht, fun b hb => not_le.mp fun htb => hno ⟨b, hb, htb⟩⟩
      have hstep : best_from score best (a :: rest) = best_from score best rest := by
        rw [best_from]
        cases hs : score a with
        | none => rfl
        | some s =>
          obtain ⟨b, hb, hsb⟩ := hle s hs
          obtain rfl : best = some b := hb
          simp only [keep_best, if_neg (not_lt.mpr hsb)]
      rw [hstep]
      rcases ih best with ⟨h, hrest⟩ | ⟨s, c, h, hlt, hbest⟩
      · exact Or.inl ⟨h, List.forall_mem_cons.mpr ⟨hle, hrest⟩⟩
      · refine Or.inr ⟨s, c, h, hlt, hbest.cons fun t ht => ?_⟩
        obtain ⟨b, hb, htb⟩ := hle t ht
        exact htb.trans_lt (hlt b hb)

theorem best_from_none (score : α → Option ℕ) (l : List α) :
    (best_from score none l = none ∧ ∀ a ∈ l, score a = none) ∨
    ∃ s a, best_from score none l = some (s, a) ∧ FirstBest score l s a := by
  rcases best_from_cases score none l with ⟨h, hno⟩ | ⟨s, a, h, -, hbest⟩
  · refine Or.inl ⟨h, fun a ha => Option.eq_none_iff_forall_ne_some.mpr fun t ht => ?_⟩
    obtain ⟨b, hb, -⟩ := hno a ha t ht
    cases hb
  · exact Or.inr ⟨s, a, h, hbest⟩

end FirstBest

section Signatures

/-- A descriptor at the front of a text and what follows it. -/
def take_type : List Char → List Char × List Char
  | [] => ([], [])
  | c :: rest =>
    if c = '[' then
      let t := take_type rest
      (c :: t.1, t.2)
    else if c = 'L' then
      let name := rest.takeWhile (· ≠ ';')
      let left := rest.dropWhile (· ≠ ';')
      (c :: (name ++ left.take 1), left.drop 1)
    else ([c], rest)

def types_loop : ℕ → List Char → List String
  | 0, _ => []
  | _ + 1, [] => []
  | fuel + 1, c :: rest =>
    let t := take_type (c :: rest)
    String.ofList t.1 :: types_loop fuel t.2

def sig_param_types (sig : String) : List String :=
  let s := sig.toList
  let a := s.idxOf '('
  let b := s.idxOf ')'
  if a < b ∧ b < s.length then
    let inside := (s.take b).drop (a + 1)
    types_loop inside.length inside
  else []

example : sig_param_types "(I[Ljava/lang/String;Z)V" = ["I", "[Ljava/lang/String;", "Z"] := by
  decide

end Signatures

section Types

inductive ArgType
  | primitive (tag : UInt8)
  | null
  | object (type_id : ClassId) (chain : List String)
  deriving DecidableEq

/-- The signatures of a class and its superclasses, at most `fuel` of them. -/
def chain_walk (d : Types) : ℕ → ClassId → List String
  | 0, _ => []
  | fuel + 1, tid =>
    match d.get_signature tid with
    | .error _ => []
    | .ok s =>
      match superclass_of d tid with
      | some above => s :: chain_walk d fuel above
      | none => [s]

def runtime_type (d : Types) (id : UInt64) : ClassId :=
  match d.get_object_reference_type id with
  | .ok t => t
  | .error _ => 0

def superclass_chain (d : Types) (type_id : ClassId) : List String :=
  let chain := if type_id ≠ 0 then chain_walk d 50 type_id else []
  if OBJECT_SIGNATURE ∈ chain then chain else chain ++ [OBJECT_SIGNATURE]

def arg_type (d : Types) (v : Value) : ArgType :=
  match v.data with
  | .object id =>
    if id = 0 then .null
    else .object (runtime_type d id) (superclass_chain d (runtime_type d id))
  | _ => .primitive v.tag

def score_param (param : String) (arg : ArgType) : Option ℕ :=
  match arg with
  | .null => if is_reference param then some 1 else none
  | .primitive tag =>
    (param.toList.head?.bind primitive_tag).bind fun ptag =>
      if tag_compatible ptag tag then some (if ptag = tag then 2 else 1) else none
  | .object _ chain =>
    if is_reference param ∧ param ∈ chain then some (chain.length - chain.idxOf param + 1)
    else none

/-- The walk over superclasses and interfaces, at most `fuel` types; the queue's end is its head. -/
def lattice_walk (d : Types) (wanted : String) : ℕ → List ClassId → List ClassId → Bool
  | 0, _, _ => false
  | _ + 1, _, [] => false
  | fuel + 1, seen, current :: queue =>
    if current ∈ seen then lattice_walk d wanted fuel seen queue
    else if d.get_signature current = .ok wanted then true
    else
      let interfaces := (d.get_interfaces current).toOption.getD []
      lattice_walk d wanted fuel (current :: seen)
        ((superclass_of d current).toList ++ (interfaces.reverse ++ queue))

def implements_interface (d : Types) (type_id : ClassId) (wanted : String) : Bool :=
  lattice_walk d wanted 500 [] [type_id]

def assignable (d : Types) (param : String) (arg : ArgType) : Option ℕ :=
  match arg with
  | .null => none
  | .primitive tag => if boxed_wrapper_of tag = some param then some 1 else none
  | .object type_id chain =>
    if starts_with param '[' then
      if chain.head?.any fun s => starts_with s '[' then some 1 else none
    else if starts_with param 'L' = false ∨ type_id = 0 then none
    else if implements_interface d type_id param then some 1 else none

/-- The sum of the scores, if every parameter has one. -/
def total (score : String → ArgType → Option ℕ) : List String → List ArgType → Option ℕ
  | p :: ps, a :: as =>
    match score p a with
    | some s => (total score ps as).map (s + ·)
    | none => none
  | _, _ => some 0

def plain_total (argtypes : List ArgType) (m : MethodInfo) : Option ℕ :=
  total score_param (sig_param_types m.signature) argtypes

/-- `score_param`, and where it has no answer the debuggee's. -/
def settle (d : Types) (param : String) (arg : ArgType) : Option ℕ :=
  (score_param param arg).or (assignable d param arg)

def settled_total (d : Types) (argtypes : List ArgType) (m : MethodInfo) : Option ℕ :=
  total (settle d) (sig_param_types m.signature) argtypes

/-- The name, the staticness and the number of parameters are those of the call. -/
def callable (name : String) (want_static : Option Bool) (args : ℕ) (m : MethodInfo) : Bool :=
  m.name = name && want_static.all (fun b => b = is_static m.mod_bits) &&
    (sig_param_types m.signature).length = args

abbrev Candidate := ClassId × MethodInfo

def scan_methods (name : String) (want_static : Option Bool) (argtypes : List ArgType)
    (tid : ClassId) : List MethodInfo → Option (ℕ × Candidate) → List Candidate →
      Option (ℕ × Candidate) × List Candidate
  | [], best, unresolved => (best, unresolved)
  | m :: ms, best, unresolved =>
    if callable name want_static argtypes.length m then
      match plain_total argtypes m with
      | some t =>
        scan_methods name want_static argtypes tid ms (keep_best best t (tid, m)) unresolved
      | none => scan_methods name want_static argtypes tid ms best (unresolved ++ [(tid, m)])
    else scan_methods name want_static argtypes tid ms best unresolved

def resolve_unsettled (d : Types) (candidates : List Candidate) (argtypes : List ArgType) :
    Option Candidate :=
  (best_from (fun c => settled_total d argtypes c.2) none candidates).map Prod.snd

/-- The walk up the superclass chain, over at most `fuel` classes. -/
def class_walk (d : Types) (name : String) (want_static : Option Bool) (argtypes : List ArgType) :
    ℕ → Option ClassId → List Candidate →
      Except String (Option Candidate)
  | 0, _, unresolved => .ok (resolve_unsettled d unresolved argtypes)
  | _ + 1, none, unresolved => .ok (resolve_unsettled d unresolved argtypes)
  | fuel + 1, some tid, unresolved =>
    match d.get_methods tid with
    | .error e => .error ("Failed to get methods: " ++ e)
    | .ok methods =>
      let scan := scan_methods name want_static argtypes tid methods none unresolved
      match scan.1 with
      | some best => .ok (some best.2)
      | none => class_walk d name want_static argtypes fuel (superclass_of d tid) scan.2

def find_method_for_args (d : Types) (type_id : ClassId) (name : String) (args : List Value)
    (want_static : Option Bool) : Except String (Option Candidate) :=
  class_walk d name want_static (args.map (arg_type d)) 50 (some type_id) []

end Types

section Walking

variable {d : Types} {name : String} {want_static : Option Bool} {argtypes : List ArgType}

/-- The classes of the superclass chain, at most `fuel` of them. -/
def classes_from (d : Types) : ℕ → Option ClassId → List ClassId
  | 0, _ => []
  | _ + 1, none => []
  | fuel + 1, some tid => tid :: classes_from d fuel (superclass_of d tid)

def methods_of (d : Types) (tid : ClassId) : List MethodInfo :=
  (d.get_methods tid).toOption.getD []

/-- The overloads of the call in one class. -/
def overloads_of (d : Types) (name : String) (want_static : Option Bool) (args : ℕ) (tid : ClassId)
    : List Candidate :=
  ((methods_of d tid).filter (callable name want_static args)).map fun m => (tid, m)

def plain_score (argtypes : List ArgType) (c : Candidate) : Option ℕ := plain_total argtypes c.2

def settled_score (d : Types) (argtypes : List ArgType) (c : Candidate) : Option ℕ :=
  settled_total d argtypes c.2

theorem scan_best (tid : ClassId) (ms : List MethodInfo) (best : Option (ℕ × Candidate))
    (un : List Candidate) :
    (scan_methods name want_static argtypes tid ms best un).1 =
      best_from (plain_score argtypes) best
        ((ms.filter (callable name want_static argtypes.length)).map fun m => (tid, m)) := by
  induction ms generalizing best un with
  | nil => rfl
  | cons m ms ih =>
    rw [scan_methods]
    by_cases hc : callable name want_static argtypes.length m
    · rw [if_pos hc, List.filter_cons_of_pos hc, List.map_cons, best_from]
      cases hp : plain_total argtypes m with
      | some t => simp only [plain_score, hp, ih]
      | none => simp only [plain_score, hp, ih]
    · rw [if_neg hc, List.filter_cons_of_neg hc, ih]

theorem scan_unresolved (tid : ClassId) (ms : List MethodInfo) (best : Option (ℕ × Candidate))
    (un : List Candidate)
    (h : ∀ m ∈ ms, callable name want_static argtypes.length m → plain_total argtypes m = none) :
    (scan_methods name want_static argtypes tid ms best un).2 =
      un ++ (ms.filter (callable name want_static argtypes.length)).map fun m => (tid, m) := by
  induction ms generalizing best un with
  | nil => rw [scan_methods, List.filter_nil, List.map_nil, List.append_nil]
  | cons m ms ih =>
    have ih := fun best un => ih best un fun n hn => h n (List.mem_cons_of_mem m hn)
    rw [scan_methods]
    by_cases hc : callable name want_static argtypes.length m
    · rw [if_pos hc, h m List.mem_cons_self hc, List.filter_cons_of_pos hc, List.map_cons]
      simp only [ih, List.append_assoc, List.singleton_append]
    · rw [if_neg hc, List.filter_cons_of_neg hc, ih]

/-- What the walk comes to: an unreadable class, the first best of the nearest class that has a
plain fit, or the first best of all overloads when none has. -/
inductive Walked (d : Types) (name : String) (want_static : Option Bool)
    (argtypes : List ArgType) (classes : List ClassId) (aside : List Candidate) :
    Except String (Option Candidate) → Prop
  | unreadable {tid : ClassId} {e : String} : tid ∈ classes → d.get_methods tid = .error e →
      Walked d name want_static argtypes classes aside (.error ("Failed to get methods: " ++ e))
  | plain {before after : List ClassId} {s : ℕ} {c : Candidate} :
      classes = before ++ c.1 :: after →
      (∀ tid ∈ before, ∀ o ∈ overloads_of d name want_static argtypes.length tid,
        plain_score argtypes o = none) →
      FirstBest (plain_score argtypes) (overloads_of d name want_static argtypes.length c.1) s c →
      Walked d name want_static argtypes classes aside (.ok (some c))
  | settled {s : ℕ} {c : Candidate} :
      (∀ tid ∈ classes, ∀ o ∈ overloads_of d name want_static argtypes.length tid,
        plain_score argtypes o = none) →
      FirstBest (settled_score d argtypes)
        (aside ++ classes.flatMap (overloads_of d name want_static argtypes.length)) s c →
      Walked d name want_static argtypes classes aside (.ok (some c))
  | nothing :
      (∀ o ∈ aside ++ classes.flatMap (overloads_of d name want_static argtypes.length),
        settled_score d argtypes o = none) →
      Walked d name want_static argtypes classes aside (.ok none)

theorem Walked.step {classes : List ClassId} {aside : List Candidate} {tid : ClassId}
    {r : Except String (Option Candidate)}
    (hno : ∀ o ∈ overloads_of d name want_static argtypes.length tid, plain_score argtypes o = none)
    (h : Walked d name want_static argtypes classes
      (aside ++ overloads_of d name want_static argtypes.length tid) r) :
    Walked d name want_static argtypes (tid :: classes) aside r := by
  have hall : (aside ++ overloads_of d name want_static argtypes.length tid) ++
      classes.flatMap (overloads_of d name want_static argtypes.length) =
        aside ++ (tid :: classes).flatMap (overloads_of d name want_static argtypes.length) := by
    rw [List.flatMap_cons, List.append_assoc]
  cases h with
  | unreadable hmem he => exact .unreadable (List.mem_cons_of_mem tid hmem) he
  | @plain before after s c hclasses hbefore hbest =>
    refine @Walked.plain _ _ _ _ _ _ (tid :: before) after _ _ (by rw [hclasses]; rfl) ?_ hbest
    intro t ht
    rcases List.mem_cons.mp ht with rfl | ht
    · exact hno
    · exact hbefore t ht
  | settled hplain hbest =>
    rw [hall] at hbest
    refine .settled ?_ hbest
    intro t ht
    rcases List.mem_cons.mp ht with rfl | ht
    · exact hno
    · exact hplain t ht
  | nothing hnone =>
    rw [hall] at hnone
    exact .nothing hnone

theorem walk_unsettled (aside : List Candidate) :
    Walked d name want_static argtypes [] aside (.ok (resolve_unsettled d aside argtypes)) := by
  unfold resolve_unsettled
  have happ : aside ++ [].flatMap (overloads_of d name want_static argtypes.length) = aside :=
    List.append_nil aside
  rcases best_from_none (settled_score d argtypes) aside with ⟨h, hno⟩ | ⟨s, c, h, hbest⟩
  · unfold settled_score at h
    rw [h]
    refine .nothing ?_
    rwa [happ]
  · unfold settled_score at h
    rw [h]
    refine .settled (s := s) (fun tid htid => by cases htid) ?_
    rwa [happ]

theorem class_walk_walked (fuel : ℕ) (cur : Option ClassId) (aside : List Candidate) :
    Walked d name want_static argtypes (classes_from d fuel cur) aside
      (class_walk d name want_static argtypes fuel cur aside) := by
  induction fuel generalizing cur aside with
  | zero => exact walk_unsettled aside
  | succ fuel ih =>
    cases cur with
    | none => exact walk_unsettled aside
    | some tid =>
      rw [class_walk, classes_from]
      cases hm : d.get_methods tid with
      | error e => exact .unreadable List.mem_cons_self hm
      | ok methods =>
        simp only
        have hover : ((methods.filter (callable name want_static argtypes.length)).map
            fun m => (tid, m)) = overloads_of d name want_static argtypes.length tid := by
          unfold overloads_of methods_of
          rw [hm]
          rfl
        have hscan := @scan_best name want_static argtypes tid methods none aside
        rw [hover] at hscan
        rcases best_from_none (plain_score argtypes)
          (overloads_of d name want_static argtypes.length tid) with ⟨h, hno⟩ | ⟨s, c, h, hbest⟩
        · rw [h] at hscan
          rw [hscan]
          simp only
          have haside := scan_unresolved tid methods none aside fun m hmem hc => by
            refine hno (tid, m) ?_
            rw [← hover]
            exact List.mem_map_of_mem (List.mem_filter.mpr ⟨hmem, hc⟩)
          rw [hover] at haside
          rw [haside]
          exact (ih (superclass_of d tid) _).step hno
        · rw [h] at hscan
          rw [hscan]
          obtain ⟨m, -, rfl⟩ := List.mem_map.mp hbest.mem
          exact @Walked.plain _ _ _ _ _ _ [] _ _ _ rfl (fun t ht => by cases ht) hbest

end Walking

section Fitting

/-- The argument fits the parameter by the superclass chain and the tags alone. -/
inductive Plainly (param : String) : ArgType → Prop
  | null : is_reference param → Plainly param .null
  | number {tag ptag : UInt8} : param.toList.head?.bind primitive_tag = some ptag →
      tag_compatible ptag tag → Plainly param (.primitive tag)
  | class {type_id : ClassId} {chain : List String} : is_reference param → param ∈ chain →
      Plainly param (.object type_id chain)

/-- It fits after boxing, by an interface, or as some array for some array. -/
inductive Asked (d : Types) (param : String) : ArgType → Prop
  | boxed {tag : UInt8} : boxed_wrapper_of tag = some param → Asked d param (.primitive tag)
  | array {type_id : ClassId} {chain : List String} {s : String} : starts_with param '[' →
      chain.head? = some s → starts_with s '[' → Asked d param (.object type_id chain)
  | interface {type_id : ClassId} {chain : List String} : starts_with param 'L' → type_id ≠ 0 →
      implements_interface d type_id param → Asked d param (.object type_id chain)

def Fits (d : Types) (param : String) (a : ArgType) : Prop := Plainly param a ∨ Asked d param a

variable {a : ArgType} {score : String → ArgType → Option ℕ} {as : List ArgType}

variable {param p : String} {d : Types} {ps : List String} {t : ℕ}

theorem score_param_iff : (score_param param a).isSome ↔ Plainly param a := by
  constructor
  · intro h
    cases a with
    | null =>
      rw [score_param] at h
      split at h
      · rename_i href
        exact .null href
      · cases h
    | primitive tag =>
      unfold score_param at h
      simp only at h
      cases hp : param.toList.head?.bind primitive_tag with
      | none =>
        rw [hp] at h
        cases h
      | some ptag =>
        rw [hp, Option.bind_some] at h
        split at h
        · rename_i hc
          exact .number hp hc
        · cases h
    | object type_id chain =>
      unfold score_param at h
      simp only at h
      split at h
      · rename_i hc
        exact .class hc.1 hc.2
      · cases h
  · intro h
    unfold score_param
    cases h with
    | null href => simp [href]
    | number hp hc => simp [hp, hc]
    | «class» href hmem => simp [href, hmem]

theorem assignable_iff : (assignable d param a).isSome ↔ Asked d param a := by
  constructor
  · intro h
    cases a with
    | null => cases h
    | primitive tag =>
      unfold assignable at h
      simp only at h
      split at h
      · rename_i hw
        exact .boxed hw
      · cases h
    | object type_id chain =>
      unfold assignable at h
      simp only at h
      split at h
      · rename_i harr
        split at h
        · rename_i hany
          rw [Option.any_eq_true] at hany
          obtain ⟨s, hs, hstart⟩ := hany
          exact .array harr hs hstart
        · cases h
      · split at h
        · cases h
        · rename_i hcls
          rw [not_or, Bool.not_eq_false] at hcls
          split at h
          · rename_i himp
            exact .interface hcls.1 hcls.2 himp
          · cases h
  · intro h
    unfold assignable
    cases h with
    | boxed hw => simp [hw]
    | array harr hs hstart => simp [harr, hs, hstart]
    | interface hcls hne himp =>
      have harr : starts_with param '[' = false := by
        unfold starts_with at hcls ⊢
        rw [decide_eq_true_eq] at hcls
        rw [hcls]
        decide
      simp [harr, hcls, hne, himp]

theorem settle_iff : (settle d param a).isSome ↔ Fits d param a := by
  unfold settle Fits
  rw [Option.isSome_or, Bool.or_eq_true, score_param_iff, assignable_iff]

theorem total_iff {fits : String → ArgType → Prop} (h : ∀ p a, (score p a).isSome ↔ fits p a)
    (hlen : ps.length = as.length) : (total score ps as).isSome ↔ List.Forall₂ fits ps as := by
  induction ps generalizing as with
  | nil =>
    cases as with
    | nil => exact ⟨fun _ => .nil, fun _ => rfl⟩
    | cons a as => cases hlen
  | cons p ps ih =>
    cases as with
    | nil => cases hlen
    | cons a as =>
      have ih := ih (Nat.succ.inj hlen)
      rw [total, List.forall₂_cons, ← h p a, ← ih]
      cases hs : score p a with
      | none => simp
      | some s => simp

theorem wrapper_no_primitive {tag ptag : UInt8} {w : String} (h : boxed_wrapper_of tag = some w) :
    w.toList.head?.bind primitive_tag ≠ some ptag := by
  unfold boxed_wrapper_of at h
  split at h
  all_goals first
    | cases h; exact fun hp => by cases hp
    | cases h

/-- For this argument, `p` is a closer type than `q`. -/
inductive Closer (p q : String) : ArgType → Prop
  | class {type_id : ClassId} {chain : List String} : is_reference p → p ∈ chain → q ∈ chain →
      chain.idxOf p < chain.idxOf q → Closer p q (.object type_id chain)
  | number {tag qtag : UInt8} : p.toList.head?.bind primitive_tag = some tag →
      q.toList.head?.bind primitive_tag = some qtag → qtag ≠ tag → Closer p q (.primitive tag)

/-- Parameter for parameter the same or closer. -/
structure AsClose (ps qs : List String) (as : List ArgType) : Prop where
  arity : ps.length = qs.length
  same : ∀ (i : ℕ) p q a, ps[i]? = some p → qs[i]? = some q → as[i]? = some a →
    p = q ∨ Closer p q a

/-- The same or closer, and closer somewhere. -/
structure CloserTo (ps qs : List String) (as : List ArgType) : Prop extends AsClose ps qs as where
  closer : ∃ (i : ℕ) (p q : String) (a : ArgType), ps[i]? = some p ∧ qs[i]? = some q ∧
    as[i]? = some a ∧ Closer p q a

/-- A closer type has a greater score. -/
def Rewards (score : String → ArgType → Option ℕ) : Prop :=
  ∀ p q a t, Closer p q a → score q a = some t → ∃ s, score p a = some s ∧ t < s

theorem closer_score {q : String} (h : Closer p q a) (hq : score_param q a = some t) :
    ∃ s, score_param p a = some s ∧ t < s := by
  cases h with
  | @«class» type_id chain href hp hmem hlt =>
    unfold score_param at hq ⊢
    simp only at hq ⊢
    split at hq
    · rw [if_pos ⟨href, hp⟩]
      rw [Option.some.injEq] at hq
      refine ⟨_, rfl, ?_⟩
      have hlen := List.idxOf_lt_length_of_mem hmem
      omega
    · cases hq
  | @number tag qtag hp hq' hne =>
    unfold score_param at hq ⊢
    simp only at hq ⊢
    rw [hq', Option.bind_some, if_neg hne] at hq
    rw [hp, Option.bind_some, if_pos rfl]
    have hself : tag_compatible tag tag = true := by simp [tag_compatible]
    rw [if_pos hself]
    split at hq
    · rw [Option.some.injEq] at hq
      exact ⟨2, rfl, by omega⟩
    · cases hq

theorem closer_settle {q : String} (h : Closer p q a) (hq : settle d q a = some t) :
    ∃ s, settle d p a = some s ∧ t < s := by
  have hplain : score_param q a = some t := by
    unfold settle at hq
    rcases Option.or_eq_some_iff.mp hq with hq | ⟨hnone, hq⟩
    · exact hq
    · have hasked := assignable_iff.mp (Option.isSome_of_mem hq)
      have hno : ¬ Plainly q a := by
        rw [← score_param_iff, hnone]
        exact Bool.false_ne_true
      cases h with
      | «class» _ _ hmem _ =>
        have href : is_reference q := by
          unfold is_reference
          cases hasked with
          | array harr _ _ => rw [harr, Bool.or_true]
          | interface hcls _ _ => rw [hcls, Bool.true_or]
        exact absurd (.class href hmem) hno
      | number _ hq' _ =>
        cases hasked with
        | boxed hw => exact absurd hq' (wrapper_no_primitive hw)
  obtain ⟨s, hs, hlt⟩ := closer_score h hplain
  refine ⟨s, ?_, hlt⟩
  unfold settle
  rw [hs]
  rfl

theorem rewards_score : Rewards score_param := fun _ _ _ _ h ht => closer_score h ht

theorem rewards_settle (d : Types) : Rewards (settle d) := fun _ _ _ _ h ht => closer_settle h ht

theorem total_cons :
    total score (p :: ps) (a :: as) = some t ↔
      ∃ s u, score p a = some s ∧ total score ps as = some u ∧ t = s + u := by
  rw [total]
  cases hs : score p a with
  | none => simp
  | some s =>
    simp only [Option.map_eq_some_iff, Option.some.injEq]
    constructor
    · rintro ⟨u, hu, rfl⟩
      exact ⟨s, u, rfl, hu, rfl⟩
    · rintro ⟨s, u, rfl, hu, rfl⟩
      exact ⟨u, hu, rfl⟩

theorem closer_total (hscore : Rewards score) {qs : List String} (h : AsClose ps qs as)
    (hq : total score qs as = some t) :
    ∃ s, total score ps as = some s ∧ t ≤ s ∧ (CloserTo ps qs as → t < s) := by
  obtain ⟨hlen, hsame⟩ := h
  induction ps generalizing qs as t with
  | nil =>
    obtain rfl := List.length_eq_zero_iff.mp hlen.symm
    refine ⟨t, hq, le_rfl, ?_⟩
    rintro ⟨-, i, p, q, a, hp, -⟩
    cases hp
  | cons p ps ih =>
    cases qs with
    | nil => cases hlen
    | cons q qs =>
      cases as with
      | nil =>
        refine ⟨t, hq, le_rfl, ?_⟩
        rintro ⟨-, i, p, q, a, -, -, ha, -⟩
        cases ha
      | cons a as =>
        obtain ⟨x, u, hx, hu, rfl⟩ := total_cons.mp hq
        have hrest : AsClose ps qs as :=
          ⟨Nat.succ.inj hlen, fun i p q a hp hq ha => hsame (i + 1) p q a hp hq ha⟩
        obtain ⟨v, hv, hle, hlt⟩ := ih hu hrest.arity hrest.same
        -- the first parameter
        obtain ⟨y, hy, hxy, hstrict⟩ : ∃ y, score p a = some y ∧ x ≤ y ∧
            (Closer p q a → x < y) := by
          rcases hsame 0 p q a rfl rfl rfl with rfl | hc
          · refine ⟨x, hx, le_rfl, fun hc => ?_⟩
            obtain ⟨y, hy, hlt⟩ := hscore _ _ _ _ hc hx
            rw [hx, Option.some.injEq] at hy
            omega
          · obtain ⟨y, hy, hlt⟩ := hscore _ _ _ _ hc hx
            exact ⟨y, hy, hlt.le, fun _ => hlt⟩
        refine ⟨y + v, total_cons.mpr ⟨y, v, hy, hv, rfl⟩, by omega, ?_⟩
        rintro ⟨-, i, p', q', a', hp', hq', ha', hc⟩
        cases i with
        | zero =>
          obtain rfl := Option.some.inj hp'
          obtain rfl := Option.some.inj hq'
          obtain rfl := Option.some.inj ha'
          have := hstrict hc
          omega
        | succ i =>
          have := hlt ⟨hrest, i, p', q', a', hp', hq', ha', hc⟩
          omega

end Fitting

section Picking

def argtypes_of (d : Types) (args : List Value) : List ArgType := args.map (arg_type d)

/-- The overloads of the call along the superclass chain. -/
def all_overloads (d : Types) (type_id : ClassId) (name : String) (want_static : Option Bool)
    (args : ℕ) : List Candidate :=
  (classes_from d 50 (some type_id)).flatMap (overloads_of d name want_static args)

def FitsPlainly (argtypes : List ArgType) (c : Candidate) : Prop :=
  List.Forall₂ Plainly (sig_param_types c.2.signature) argtypes

def FitsSettled (d : Types) (argtypes : List ArgType) (c : Candidate) : Prop :=
  List.Forall₂ (Fits d) (sig_param_types c.2.signature) argtypes

def CloserOverload (argtypes : List ArgType) (o c : Candidate) : Prop :=
  CloserTo (sig_param_types o.2.signature) (sig_param_types c.2.signature) argtypes

/-- The overload that a call gets: of the nearest class that has one fitting plainly, or of the
whole chain if none has, and none that fits as it does is closer. -/
structure Picked (d : Types) (type_id : ClassId) (name : String) (want_static : Option Bool)
    (argtypes : List ArgType) (c : Candidate) : Prop where
  overload : c ∈ all_overloads d type_id name want_static argtypes.length
  fits : FitsSettled d argtypes c
  nearest : FitsPlainly argtypes c → ∃ before after,
    classes_from d 50 (some type_id) = before ++ c.1 :: after ∧
    (∀ tid ∈ before, ∀ o ∈ overloads_of d name want_static argtypes.length tid,
      ¬ FitsPlainly argtypes o) ∧
    ∀ o ∈ overloads_of d name want_static argtypes.length c.1, FitsPlainly argtypes o →
      ¬ CloserOverload argtypes o c
  second : ¬ FitsPlainly argtypes c →
    ∀ o ∈ all_overloads d type_id name want_static argtypes.length,
      ¬ FitsPlainly argtypes o ∧ (FitsSettled d argtypes o → ¬ CloserOverload argtypes o c)

variable {d : Types} {name : String} {want_static : Option Bool} {argtypes : List ArgType}

variable {tid : ClassId} {c : Candidate}

theorem overload_arity {n : ℕ} (h : c ∈ overloads_of d name want_static n tid) :
    (sig_param_types c.2.signature).length = n := by
  obtain ⟨m, hm, rfl⟩ := List.mem_map.mp h
  have hc := (List.mem_filter.mp hm).2
  unfold callable at hc
  simp only [Bool.and_eq_true, decide_eq_true_eq] at hc
  exact hc.2

theorem plain_score_iff (h : c ∈ overloads_of d name want_static argtypes.length tid) :
    (plain_score argtypes c).isSome ↔ FitsPlainly argtypes c :=
  total_iff (fun _ _ => score_param_iff) (overload_arity h)

theorem settled_score_iff (h : c ∈ overloads_of d name want_static argtypes.length tid) :
    (settled_score d argtypes c).isSome ↔ FitsSettled d argtypes c :=
  total_iff (fun _ _ => settle_iff) (overload_arity h)

theorem no_plain (h : c ∈ overloads_of d name want_static argtypes.length tid)
    (hnone : plain_score argtypes c = none) : ¬ FitsPlainly argtypes c := by
  rw [← plain_score_iff h, hnone]
  exact Bool.false_ne_true

theorem settled_of_plain (h : FitsPlainly argtypes c) :
    FitsSettled d argtypes c := List.Forall₂.imp (fun _ _ hp => Or.inl hp) h

/-- No overload with a score is closer than one with the greatest. -/
theorem best_not_closer {score : String → ArgType → Option ℕ} (hscore : Rewards score)
    {l : List Candidate} {s : ℕ}
    (hbest : FirstBest (fun c => total score (sig_param_types c.2.signature) argtypes) l s c)
    {o : Candidate} (ho : o ∈ l) : ¬ CloserOverload argtypes o c := by
  intro hcloser
  have hs : total score (sig_param_types c.2.signature) argtypes = some s := by
    obtain ⟨before, after, -, hs, -⟩ := hbest
    exact hs
  obtain ⟨t, ht, -, hlt⟩ := closer_total hscore hcloser.toAsClose hs
  have hle := hbest.bound o ho t ht
  have := hlt hcloser
  omega

theorem picked_of_walked {type_id : ClassId}
    (h : Walked d name want_static argtypes (classes_from d 50 (some type_id)) [] (.ok (some c))) :
    Picked d type_id name want_static argtypes c := by
  cases h with
  | @plain before after s c hclasses hbefore hbest =>
    have hmem := hbest.mem
    have hplain : FitsPlainly argtypes c := by
      obtain ⟨_, _, -, hs, -⟩ := hbest
      rw [← plain_score_iff hmem, hs]
      rfl
    refine ⟨?_, settled_of_plain hplain, fun _ => ⟨before, after, hclasses, ?_, ?_⟩,
      fun hno => absurd hplain hno⟩
    · unfold all_overloads
      rw [hclasses]
      exact List.mem_flatMap.mpr ⟨c.1, List.mem_append_right _ List.mem_cons_self, hmem⟩
    · exact fun tid htid o ho => no_plain ho (hbefore tid htid o ho)
    · exact fun o ho _ => best_not_closer rewards_score hbest ho
  | @settled s c hplain hbest =>
    rw [List.nil_append] at hbest
    have hmem := hbest.mem
    obtain ⟨tid, htid, hover⟩ := List.mem_flatMap.mp hmem
    have hno := no_plain hover (hplain tid htid c hover)
    refine ⟨hmem, ?_, fun hyes => absurd hyes hno, fun _ o ho => ⟨?_, fun _ => ?_⟩⟩
    · obtain ⟨_, _, -, hs, -⟩ := hbest
      rw [← settled_score_iff hover, hs]
      rfl
    · obtain ⟨tid', htid', hover'⟩ := List.mem_flatMap.mp ho
      exact no_plain hover' (hplain tid' htid' o hover')
    · exact best_not_closer (rewards_settle d) hbest ho

theorem call_walked (d : Types) (type_id : ClassId) (name : String) (args : List Value)
    (want_static : Option Bool) :
    Walked d name want_static (argtypes_of d args) (classes_from d 50 (some type_id)) []
      (find_method_for_args d type_id name args want_static) :=
  class_walk_walked 50 (some type_id) []

end Picking

end JavaDebug.Overloads
