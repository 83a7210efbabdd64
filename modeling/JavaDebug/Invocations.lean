import JavaDebug.Overloads

/-!
Invocations. The overload is picked for the arguments as they are, a primitive
for a wrapper parameter is boxed by its `valueOf`, and what comes out is sent
with `InvokeMethod` as it stands. `invocation_arguments` says what every argument
of a packet is for its parameter.
-/
namespace JavaDebug.Invocations

open Jdwp WireReader JavaValues Overloads

section Calls

/-- An `InvokeMethod` command; a static one has no receiver. -/
structure Invocation where
  receiver : Option UInt64
  thread : ThreadId
  class_id : ClassId
  method_id : ℕ
  args : List Value
  deriving DecidableEq

/-- The debuggee with its methods: an invocation answers a value and a thrown exception or 0. -/
structure Debuggee extends Types where
  resolve_class_by_dotted : String → Except String (Option ClassId)
  invoke : Invocation → Except String (Value × UInt64)
  invoke_hint : String → String
  exception_text : UInt64 → String

def boxing_class (data : ValueData) : Option String :=
  match data with
  | .int _ => some "java.lang.Integer"
  | .long _ => some "java.lang.Long"
  | .short _ => some "java.lang.Short"
  | .byte _ => some "java.lang.Byte"
  | .char _ => some "java.lang.Character"
  | .boolean _ => some "java.lang.Boolean"
  | .float _ => some "java.lang.Float"
  | .double _ => some "java.lang.Double"
  | .object _ => none
  | .void => none

variable (d : Debuggee)

variable (tid : ThreadId)

def box_primitive (v : Value) : Option Value := do
  let class_name ← boxing_class v.data
  let found ← (d.resolve_class_by_dotted class_name).toOption
  let type_id ← found
  let picked ← (find_method_for_args d.toTypes type_id "valueOf" [v] (some true)).toOption
  let c ← picked
  let r ← (d.invoke ⟨none, tid, c.1, c.2.method_id, [v]⟩).toOption
  if r.2 = 0 then some r.1 else none

def is_primitive (v : Value) : Bool :=
  match v.data with
  | .object _ => false
  | _ => true

def boxing_failed (i : ℕ) (param : String) : String :=
  "argument " ++ toString (i + 1) ++ " is a primitive but parameter " ++ toString (i + 1) ++
    " is " ++ param ++ " — boxing it via valueOf failed"

def coerce_arg (param : Option String) (i : ℕ) (v : Value) : Except String Value :=
  if param.any is_reference && is_primitive v then
    match box_primitive d tid v with
    | some boxed => .ok boxed
    | none => .error (boxing_failed i (param.getD "a reference type"))
  else .ok v

/-- The arguments from the `i`-th on. -/
def coerce_from (d : Debuggee) (tid : ThreadId) (params : List String) (i : ℕ) :
    List Value → Except String (List Value)
  | [] => .ok []
  | v :: rest =>
    match coerce_arg d tid params[i]? i v with
    | .error e => .error e
    | .ok w => (coerce_from d tid params (i + 1) rest).map fun ws => w :: ws

def coerce_args (signature : String) (args : List Value) : Except String (List Value) :=
  coerce_from d tid (sig_param_types signature) 0 args

def invoke_result (ret : Value) (exc : UInt64) : Except String Value :=
  if exc ≠ 0 then .error (d.exception_text exc) else .ok ret

/-- A call: the packet it sends, if it sends one, and what comes of it. `absent` is said where no
overload takes the arguments, `failed` what did not work. -/
def send_call (receiver : Option UInt64) (type_id : ClassId) (name : String) (args : List Value)
    (want_static : Option Bool) (absent failed : String) :
    Option Invocation × Except String Value :=
  match find_method_for_args d.toTypes type_id name args want_static with
  | .error e => (none, .error e)
  | .ok none => (none, .error absent)
  | .ok (some (decl, m)) =>
    match coerce_args d tid m.signature args with
    | .error e => (none, .error e)
    | .ok args =>
      let sent : Invocation := ⟨receiver, tid, decl, m.method_id, args⟩
      match d.invoke sent with
      | .error e => (some sent, .error (failed ++ e ++ d.invoke_hint e))
      | .ok r => (some sent, invoke_result d r.1 r.2)

def invoke_named (thread_id : ThreadId) (obj_id : UInt64) (type_id : ClassId) (name : String)
    (args : List Value) : Option Invocation × Except String Value :=
  send_call d thread_id (some obj_id) type_id name args (some false)
    ("No method '" ++ name ++ "' on the object accepts " ++ toString args.length ++
      " argument(s)")
    ("invoke " ++ name ++ "() failed: ")

def invoke_segment_method (thread_id : Option ThreadId) (obj_id : UInt64) (type_id : ClassId)
    (name : String) (argvals : Except String (List Value)) (how_to_suspend : String) :
    Option Invocation × Except String Value :=
  match thread_id with
  | none =>
    (none, .error ("Calling '." ++ name ++ "()' needs a suspended thread, and " ++ how_to_suspend))
  | some tid =>
    match argvals with
    | .error e => (none, .error e)
    | .ok argvals =>
      send_call d tid (some obj_id) type_id name argvals none
        ("No method '" ++ name ++ "' on the object accepts " ++ toString argvals.length ++
          " argument(s) of these types")
        ("invoke " ++ name ++ "() failed: ")

def invoke_static_member (thread_id : Option ThreadId) (type_id : ClassId) (dotted name : String)
    (argvals : Except String (List Value)) (how_to_suspend : String) :
    Option Invocation × Except String Value :=
  match thread_id with
  | none =>
    (none, .error ("Calling static '" ++ dotted ++ "." ++ name ++
      "()' needs a suspended thread, and " ++ how_to_suspend))
  | some tid =>
    match argvals with
    | .error e => (none, .error e)
    | .ok argvals =>
      send_call d tid none type_id name argvals (some true)
        ("static method '" ++ name ++ "' accepting " ++ toString argvals.length ++
          " argument(s) of these types")
        ("invoke static " ++ dotted ++ "." ++ name ++ " failed: ")

end Calls

section Conforming

/-- A type that a class is: itself, or one above it. -/
inductive Reaches (d : Types) : ClassId → ClassId → Prop
  | refl (c : ClassId) : Reaches d c c
  | super {c above t : ClassId} : superclass_of d c = some above → Reaches d above t →
      Reaches d c t
  | interface {c i t : ClassId} {is : List ClassId} : d.get_interfaces c = .ok is → i ∈ is →
      Reaches d i t → Reaches d c t

/-- The object may stand where the parameter's type is declared; for an array parameter that is any
array. -/
inductive Assignable (d : Types) (param : String) (id : UInt64) : Prop
  | object : param = OBJECT_SIGNATURE → Assignable d param id
  | type {t : ClassId} : Reaches d (runtime_type d id) t → d.get_signature t = .ok param →
      Assignable d param id
  | array {s : String} : starts_with param '[' → d.get_signature (runtime_type d id) = .ok s →
      starts_with s '[' → Assignable d param id

/-- Null, or an object of the type. -/
def Instance (d : Types) (param : String) (v : Value) : Prop :=
  ∃ id, v.data = .object id ∧ (id = 0 ∨ Assignable d param id)

/-- Of the parameter's own primitive type, or an instance of its class. -/
def Conforms (d : Types) (param : String) (v : Value) : Prop :=
  (param.toList.head?.bind primitive_tag = some v.tag ∧ is_primitive v = true) ∨
    is_reference param = true ∧ Instance d param v

/-- A number for a parameter of another numeric type. -/
def OtherNumber (param : String) (v : Value) : Prop :=
  ∃ ptag, param.toList.head?.bind primitive_tag = some ptag ∧ is_num ptag ∧ is_num v.tag ∧
    ptag ≠ v.tag

/-- What a wrapper's `valueOf` returns is an instance of the wrapper. -/
def ValueOfBoxes (d : Debuggee) : Prop :=
  ∀ v class_name c picked tid r wrapper, Tagged v → boxing_class v.data = some class_name →
    boxed_wrapper_of v.tag = some wrapper → d.resolve_class_by_dotted class_name = .ok (some c) →
    find_method_for_args d.toTypes c "valueOf" [v] (some true) = .ok (some picked) →
    d.invoke ⟨none, tid, picked.1, picked.2.method_id, [v]⟩ = .ok (r, 0) →
    Instance d.toTypes wrapper r

variable {d : Types}

variable {c : ClassId} {param : String}

theorem chain_walk_reaches {fuel : ℕ} (h : param ∈ chain_walk d fuel c) :
    ∃ t, Reaches d c t ∧ d.get_signature t = .ok param := by
  induction fuel generalizing c with
  | zero => cases h
  | succ fuel ih =>
    rw [chain_walk] at h
    split at h
    · cases h
    · rename_i s hs
      split at h
      · rename_i above habove
        rcases List.mem_cons.mp h with rfl | h
        · exact ⟨c, .refl c, hs⟩
        · obtain ⟨t, ht, hsig⟩ := ih h
          exact ⟨t, .super habove ht, hsig⟩
      · rw [List.mem_singleton.mp h]
        exact ⟨c, .refl c, hs⟩

theorem chain_reaches (h : param ∈ superclass_chain d c) :
    param = OBJECT_SIGNATURE ∨ ∃ t, Reaches d c t ∧ d.get_signature t = .ok param := by
  have hwalk : ∀ {p}, p ∈ (if c ≠ 0 then chain_walk d 50 c else []) →
      ∃ t, Reaches d c t ∧ d.get_signature t = .ok p := by
    intro p hp
    split at hp
    · exact chain_walk_reaches hp
    · cases hp
  unfold superclass_chain at h
  simp only at h
  generalize (if c ≠ 0 then chain_walk d 50 c else []) = chain at h hwalk
  split at h
  · exact Or.inr (hwalk h)
  · rcases List.mem_append.mp h with h | h
    · exact Or.inr (hwalk h)
    · exact Or.inl (List.mem_singleton.mp h)

theorem chain_head {s : String} (h : (superclass_chain d c).head? = some s) :
    s = OBJECT_SIGNATURE ∨ d.get_signature c = .ok s := by
  have hwalk : ∀ {p}, (if c ≠ 0 then chain_walk d 50 c else []).head? = some p →
      d.get_signature c = .ok p := by
    intro p hp
    split at hp
    · rw [chain_walk] at hp
      split at hp
      · cases hp
      · rename_i s hs
        split at hp
        · obtain rfl := Option.some.inj hp
          exact hs
        · obtain rfl := Option.some.inj hp
          exact hs
    · cases hp
  unfold superclass_chain at h
  simp only at h
  generalize (if c ≠ 0 then chain_walk d 50 c else []) = chain at h hwalk
  split at h
  · exact Or.inr (hwalk h)
  · rw [List.head?_append] at h
    rcases Option.or_eq_some_iff.mp h with h | ⟨-, h⟩
    · exact Or.inr (hwalk h)
    · exact Or.inl (Option.some.inj h).symm

theorem lattice_reaches {wanted : String} {fuel : ℕ} {seen queue : List ClassId}
    (h : lattice_walk d wanted fuel seen queue = true) :
    ∃ c ∈ queue, ∃ t, Reaches d c t ∧ d.get_signature t = .ok wanted := by
  induction fuel generalizing seen queue with
  | zero => cases h
  | succ fuel ih =>
    cases queue with
    | nil => cases h
    | cons c queue =>
      rw [lattice_walk] at h
      split at h
      · obtain ⟨b, hb, t, ht, hsig⟩ := ih h
        exact ⟨b, List.mem_cons_of_mem c hb, t, ht, hsig⟩
      · split at h
        · rename_i hsig
          exact ⟨c, List.mem_cons_self, c, .refl c, hsig⟩
        · obtain ⟨b, hb, t, ht, hsig⟩ := ih h
          rcases List.mem_append.mp hb with hb | hb
          · exact ⟨c, List.mem_cons_self, t, .super (Option.mem_toList.mp hb) ht, hsig⟩
          · rcases List.mem_append.mp hb with hb | hb
            · rw [List.mem_reverse] at hb
              cases his : d.get_interfaces c with
              | error e =>
                rw [his] at hb
                cases hb
              | ok is =>
                rw [his] at hb
                exact ⟨c, List.mem_cons_self, t, .interface his hb ht, hsig⟩
            · exact ⟨b, List.mem_cons_of_mem c hb, t, ht, hsig⟩

/-- An object that fits a parameter may stand for it. -/
theorem assignable_of_fits {id : UInt64}
    (h : Fits d param (.object (runtime_type d id) (superclass_chain d (runtime_type d id)))) :
    is_reference param = true ∧ Assignable d param id := by
  rcases h with h | h
  · cases h with
    | «class» href hmem =>
      refine ⟨href, ?_⟩
      rcases chain_reaches hmem with hobj | ⟨t, ht, hsig⟩
      · exact .object hobj
      · exact .type ht hsig
  · unfold is_reference
    cases h with
    | @array _ _ s harr hhead hs =>
      rw [harr, Bool.or_true]
      refine ⟨rfl, .array harr ?_ hs⟩
      rcases chain_head hhead with rfl | hsig
      · exact absurd hs (by decide)
      · exact hsig
    | interface hcls _ himp =>
      rw [hcls, Bool.true_or]
      refine ⟨rfl, ?_⟩
      obtain ⟨c, hc, t, ht, hsig⟩ := lattice_reaches himp
      rw [List.mem_singleton.mp hc] at ht
      exact .type ht hsig

end Conforming

section Arguments

variable {d : Debuggee} {tid : ThreadId}

variable {v : Value}

variable {w : Value} {param : String}

theorem coerce_arg_ok {param : Option String} {i : ℕ} (h : coerce_arg d tid param i v = .ok w) :
    if param.any is_reference && is_primitive v then box_primitive d tid v = some w
      else w = v := by
  unfold coerce_arg at h
  split
  · rename_i hc
    rw [if_pos hc] at h
    split at h
    · rename_i boxed hb
      rw [hb, Except.ok.inj h]
    · cases h
  · rename_i hc
    rw [if_neg hc] at h
    exact (Except.ok.inj h).symm

theorem coerce_from_spec {params : List String} {k : ℕ} {args out : List Value}
    (h : coerce_from d tid params k args = .ok out) :
    out.length = args.length ∧ ∀ (i : ℕ) v w, args[i]? = some v → out[i]? = some w →
      if params[k + i]?.any is_reference && is_primitive v then box_primitive d tid v = some w
      else w = v := by
  induction args generalizing k out with
  | nil =>
    obtain rfl := Except.ok.inj h
    exact ⟨rfl, fun i v w hv => by cases hv⟩
  | cons v rest ih =>
    rw [coerce_from] at h
    split at h
    · cases h
    · rename_i w hw
      cases hws : coerce_from d tid params (k + 1) rest with
      | error e =>
        rw [hws] at h
        cases h
      | ok ws =>
        rw [hws] at h
        obtain rfl := Except.ok.inj h
        obtain ⟨hlen, hrest⟩ := ih hws
        refine ⟨congrArg (· + 1) hlen, fun i u x hu hx => ?_⟩
        cases i with
        | zero =>
          obtain rfl := Option.some.inj hu
          obtain rfl := Option.some.inj hx
          exact coerce_arg_ok hw
        | succ i =>
          have hi := hrest i u x hu hx
          rwa [Nat.add_assoc, Nat.add_comm 1 i] at hi

theorem arg_type_object {t : Types} {id : UInt64} (h : v.data = .object id) (hid : id ≠ 0) :
    arg_type t v = .object (runtime_type t id) (superclass_chain t (runtime_type t id)) := by
  unfold arg_type
  rw [h]
  exact if_neg hid

theorem arg_type_primitive {t : Types} (h : is_primitive v = true) :
    arg_type t v = .primitive v.tag := by
  obtain ⟨tag, data⟩ := v
  cases data with
  | object id => cases h
  | _ => rfl

theorem boxed_instance (hbox : ValueOfBoxes d) (hv : Tagged v)
    (hwrap : boxed_wrapper_of v.tag = some param) (h : box_primitive d tid v = some w) :
    Instance d.toTypes param w := by
  unfold box_primitive at h
  simp only [bind, Option.bind_eq_some_iff] at h
  obtain ⟨class_name, hclass, found, hfound, c, rfl, picked, hpicked, c', rfl, r, hr, hlast⟩ := h
  have hok : ∀ {α : Type} {e : Except String α} {a : α}, e.toOption = some a → e = .ok a := by
    intro α e a he
    cases e with
    | error _ => cases he
    | ok b => exact congrArg Except.ok (Option.some.inj he)
  split at hlast
  · rename_i hexc
    obtain rfl := Option.some.inj hlast
    have hinv := hok hr
    rw [show r = (r.1, 0) from Prod.ext rfl hexc] at hinv
    exact hbox v class_name c c' tid r.1 param hv hclass hwrap (hok hfound) (hok hpicked) hinv
  · cases hlast

theorem forall_at {α β : Type} {r : α → β → Prop} {as : List α} {bs : List β}
    (h : List.Forall₂ r as bs) {i : ℕ} {a : α} {b : β} (ha : as[i]? = some a) (hb : bs[i]? = some b)
    : r a b := by
  induction h generalizing i with
  | nil => cases ha
  | cons hab _ ih =>
    cases i with
    | zero =>
      obtain rfl := Option.some.inj ha
      obtain rfl := Option.some.inj hb
      exact hab
    | succ i => exact ih ha hb

theorem reference_no_primitive (h : is_reference param = true) :
    param.toList.head?.bind primitive_tag = none := by
  unfold is_reference starts_with at h
  rw [Bool.or_eq_true, decide_eq_true_eq, decide_eq_true_eq] at h
  rcases h with h | h
  all_goals
    rw [h]
    rfl

theorem primitive_not_obj {c : Char} {t : UInt8} (h : primitive_tag c = some t) :
    is_obj t = false := by
  unfold primitive_tag at h
  split at h
  all_goals first
    | obtain rfl := Option.some.inj h; decide
    | cases h

theorem wrapper_reference {tag : UInt8} {w : String} (h : boxed_wrapper_of tag = some w) :
    is_reference w = true := by
  unfold boxed_wrapper_of at h
  split at h
  all_goals first
    | obtain rfl := Option.some.inj h; decide
    | cases h

/-- What a parameter gets of a fitting argument. -/
theorem conforms_of_fits (hbox : ValueOfBoxes d) (hv : Tagged v)
    (hfit : Fits d.toTypes param (arg_type d.toTypes v))
    (hw : if is_reference param && is_primitive v then box_primitive d tid v = some w else w = v)
    (hnum : ¬ OtherNumber param v) : Conforms d.toTypes param w := by
  cases hprim : is_primitive v with
  | true =>
    rw [arg_type_primitive hprim] at hfit
    rw [hprim, Bool.and_true] at hw
    rcases hfit with hfit | hfit
    · cases hfit with
      | @number _ ptag hp hc =>
        have href : is_reference param = false := by
          rw [Bool.eq_false_iff]
          intro href
          rw [reference_no_primitive href] at hp
          cases hp
        rw [href] at hw
        obtain rfl := hw
        refine Or.inl ⟨?_, hprim⟩
        by_contra hne
        have htag : ptag ≠ w.tag := fun heq => hne (heq ▸ hp)
        obtain ⟨c, -, hc'⟩ := Option.bind_eq_some_iff.mp hp
        unfold tag_compatible at hc
        rw [primitive_not_obj hc', Bool.false_and, Bool.or_false, Bool.or_eq_true,
          decide_eq_true_eq, Bool.and_eq_true] at hc
        rcases hc with hc | ⟨hc, hc'⟩
        · exact htag hc
        · exact hnum ⟨ptag, hp, hc, hc', htag⟩
    · cases hfit with
      | boxed hwrap =>
        have href := wrapper_reference hwrap
        rw [href, if_pos rfl] at hw
        exact Or.inr ⟨href, boxed_instance hbox hv hwrap hw⟩
  | false =>
    rw [hprim, Bool.and_false] at hw
    obtain rfl := hw
    obtain ⟨id, hid⟩ : ∃ id, w.data = .object id := by
      unfold is_primitive at hprim
      split at hprim
      · rename_i id hid
        exact ⟨id, hid⟩
      · cases hprim
    by_cases hzero : id = 0
    · have hnull : arg_type d.toTypes w = .null := by
        unfold arg_type
        rw [hid]
        exact if_pos hzero
      rw [hnull] at hfit
      rcases hfit with hfit | hfit
      · cases hfit with
        | null href => exact Or.inr ⟨href, id, hid, Or.inl hzero⟩
      · cases hfit
    · rw [arg_type_object hid hzero] at hfit
      obtain ⟨href, hassign⟩ := assignable_of_fits hfit
      exact Or.inr ⟨href, id, hid, Or.inr hassign⟩

theorem sent_none {P : Invocation → Prop} :
    ∀ sent, (none : Option Invocation) = some sent → P sent := by
  intro sent h
  cases h

/-- Every argument of a packet is what its parameter asks for, but for a number that meets a
parameter of another numeric type. -/
theorem invocation_arguments (d : Debuggee) (hbox : ValueOfBoxes d) (tid : ThreadId)
    (receiver : Option UInt64) (type_id : ClassId) (name : String) (args : List Value)
    (hargs : ∀ v ∈ args, Tagged v) (want_static : Option Bool) (absent failed : String) :
    (∀ sent, (send_call d tid receiver type_id name args want_static absent failed).1 = some sent →
      ∃ m, find_method_for_args d.toTypes type_id name args want_static =
          .ok (some (sent.class_id, m)) ∧ m.method_id = sent.method_id ∧
        sent.args.length = (sig_param_types m.signature).length ∧
        sent.args.length = args.length ∧
        ∀ (i : ℕ) param v w, (sig_param_types m.signature)[i]? = some param →
          args[i]? = some v → sent.args[i]? = some w → ¬ OtherNumber param v →
            Conforms d.toTypes param w) ∧
    ((∀ c, find_method_for_args d.toTypes type_id name args want_static = .ok (some c) →
        ∀ out, coerce_args d tid c.2.signature args ≠ .ok out) →
      (send_call d tid receiver type_id name args want_static absent failed).1 = none ∧
        ∃ e, (send_call d tid receiver type_id name args want_static absent failed).2 =
          .error e) := by
  unfold send_call
  cases hfind : find_method_for_args d.toTypes type_id name args want_static with
  | error e => exact ⟨sent_none, fun _ => ⟨rfl, e, rfl⟩⟩
  | ok found =>
    cases found with
    | none => exact ⟨sent_none, fun _ => ⟨rfl, absent, rfl⟩⟩
    | some c =>
      obtain ⟨decl, m⟩ := c
      simp only
      cases hcoerce : coerce_args d tid m.signature args with
      | error e => exact ⟨sent_none, fun _ => ⟨rfl, e, rfl⟩⟩
      | ok out =>
        refine ⟨fun sent hsent => ?_, fun hno => absurd hcoerce (hno (decl, m) rfl out)⟩
        have hpacket : sent = ⟨receiver, tid, decl, m.method_id, out⟩ := by
          simp only at hsent
          split at hsent
          · exact (Option.some.inj hsent).symm
          · exact (Option.some.inj hsent).symm
        subst hpacket
        have hwalked := call_walked d.toTypes type_id name args want_static
        rw [hfind] at hwalked
        have hfits := (picked_of_walked hwalked).fits
        obtain ⟨hlen, hout⟩ := coerce_from_spec hcoerce
        have harity : (sig_param_types m.signature).length = args.length := by
          rw [hfits.length_eq]
          exact List.length_map ..
        refine ⟨m, rfl, rfl, hlen.trans harity.symm, hlen, ?_⟩
        intro i param v w hparam hv hw hnum
        have hw := hout i v w hv hw
        rw [Nat.zero_add, hparam, Option.any_some] at hw
        refine conforms_of_fits hbox (hargs v (List.mem_of_getElem? hv)) ?_ hw hnum
        refine forall_at hfits hparam ?_
        unfold argtypes_of
        rw [List.getElem?_map, hv]
        rfl

/-- Class 1 has `put(int, Integer)`, class 2 is `Integer`. -/
def boxing : Debuggee where
  get_object_reference_type := fun _ => .ok 2
  get_signature := fun c => .ok (if c = 2 then "Ljava/lang/Integer;" else "LHost;")
  get_superclass := fun _ => .ok none
  get_interfaces := fun _ => .ok []
  get_fields := fun _ => .ok []
  get_methods := fun c => .ok (if c = 2 then [⟨9, "valueOf", "(I)Ljava/lang/Integer;", 9⟩] else
    [⟨3, "put", "(ILjava/lang/Integer;)V", 1⟩])
  resolve_class_by_dotted := fun c => .ok (if c = "java.lang.Integer" then some 2 else none)
  invoke := fun _ => .ok (value_object 7, 0)
  invoke_hint := id
  exception_text := fun _ => ""

theorem boxing_boxes : ValueOfBoxes boxing := by
  intro v class_name c picked tid r wrapper hv hclass hwrap hresolve _ hinvoke
  have hname : class_name = "java.lang.Integer" := by
    have hres : (if class_name = "java.lang.Integer" then some 2 else none) = some c :=
      Except.ok.inj hresolve
    by_contra hne
    rw [if_neg hne] at hres
    cases hres
  have hret : r = value_object 7 := (Prod.ext_iff.mp (Except.ok.inj hinvoke)).1.symm
  have htag : v.tag = 73 := by
    obtain ⟨tag, data⟩ := v
    cases data with
    | int n => exact hv
    | _ =>
      rw [hname] at hclass
      first
        | exact absurd (Option.some.inj hclass) (by decide)
        | cases hclass
  rw [htag] at hwrap
  obtain rfl := Option.some.inj hwrap
  exact ⟨7, by rw [hret]; rfl, Or.inr (.type (.refl 2) rfl)⟩

/-- `put(5, 6)` sends an `int` and an `Integer`. -/
theorem invocation_arguments_boxed :
    Conforms boxing.toTypes "I" (value_int 5) ∧
      Conforms boxing.toTypes "Ljava/lang/Integer;" (value_object 7) := by
  have hsent : (send_call boxing 1 (some 8) 1 "put" [value_int 5, value_int 6] none "" "").1 =
      some ⟨some 8, 1, 1, 3, [value_int 5, value_object 7]⟩ := by rfl
  have hargs : ∀ v ∈ [value_int 5, value_int 6], Tagged v := by
    intro v hv
    simp only [List.mem_cons, List.not_mem_nil, or_false] at hv
    rcases hv with rfl | rfl
    all_goals rfl
  obtain ⟨m, hfind, -, -, -, hconform⟩ := (invocation_arguments boxing boxing_boxes 1 (some 8) 1
    "put" [value_int 5, value_int 6] hargs none "" "").1 _ hsent
  have hm : m = ⟨3, "put", "(ILjava/lang/Integer;)V", 1⟩ := by
    have hpick : find_method_for_args boxing.toTypes 1 "put" [value_int 5, value_int 6] none =
        .ok (some (1, ⟨3, "put", "(ILjava/lang/Integer;)V", 1⟩)) := by rfl
    rw [hpick] at hfind
    exact (Prod.ext_iff.mp (Option.some.inj (Except.ok.inj hfind))).2.symm
  have hparams : sig_param_types m.signature = ["I", "Ljava/lang/Integer;"] := by
    rw [hm]
    decide
  rw [hparams] at hconform
  refine ⟨hconform 0 _ _ _ rfl rfl rfl ?_, hconform 1 _ _ _ rfl rfl rfl ?_⟩
  · rintro ⟨ptag, hp, -, -, hne⟩
    obtain rfl := Option.some.inj hp
    exact hne rfl
  · rintro ⟨ptag, hp, -⟩
    cases hp

def array_of_references (sig : String) : Bool :=
  match sig.toList with
  | '[' :: c :: _ => c = 'L' || c = '['
  | _ => false

/-- At most what the language lets stand for the parameter: a type that the object's class reaches,
or an array of references for another one. -/
inductive AtMostAssignable (d : Types) (param : String) (id : UInt64) : Prop
  | object : param = OBJECT_SIGNATURE → AtMostAssignable d param id
  | type {t : ClassId} : Reaches d (runtime_type d id) t → d.get_signature t = .ok param →
      AtMostAssignable d param id
  | array {s : String} : array_of_references param → d.get_signature (runtime_type d id) = .ok s →
      array_of_references s → AtMostAssignable d param id

/-- Class 1 has `fill(String[])`, and class 3 is `int[]`. -/
def arrays : Debuggee where
  get_object_reference_type := fun _ => .ok 3
  get_signature := fun c => .ok (if c = 3 then "[I" else "LHost;")
  get_superclass := fun _ => .ok none
  get_interfaces := fun _ => .ok []
  get_fields := fun _ => .ok []
  get_methods := fun c => .ok (if c = 1 then [⟨5, "fill", "([Ljava/lang/String;)V", 1⟩] else [])
  resolve_class_by_dotted := fun _ => .ok none
  invoke := fun _ => .ok (value_object 0, 0)
  invoke_hint := id
  exception_text := fun _ => ""

/-- `fill(ints)` sends an `int[]` for the `String[]`. -/
theorem any_array_sent :
    (send_call arrays 1 (some 8) 1 "fill" [⟨91, .object 9⟩] none "" "").1 =
        some ⟨some 8, 1, 1, 5, [⟨91, .object 9⟩]⟩ ∧
      find_method_for_args arrays.toTypes 1 "fill" [⟨91, .object 9⟩] none =
        .ok (some (1, ⟨5, "fill", "([Ljava/lang/String;)V", 1⟩)) ∧
      sig_param_types "([Ljava/lang/String;)V" = ["[Ljava/lang/String;"] ∧
      ¬ AtMostAssignable arrays.toTypes "[Ljava/lang/String;" 9 := by
  refine ⟨by rfl, by rfl, by decide, ?_⟩
  intro h
  cases h with
  | object hobj => exact absurd hobj (by decide)
  | type hreach hsig =>
    cases hreach with
    | refl => exact absurd (Except.ok.inj hsig) (by decide)
    | super habove _ => cases habove
    | interface his hmem _ =>
      obtain rfl := Except.ok.inj his
      cases hmem
  | array _ hsig hs =>
    obtain rfl := Except.ok.inj hsig
    exact absurd hs (by decide)

end Arguments

end JavaDebug.Invocations
