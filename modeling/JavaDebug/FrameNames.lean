import JavaDebug.JavaValues

/-!
Bare names in a frame. A name is looked up in the method's variable table, first
among the rows whose range holds the bytecode index and then among all rows of
that name; where the table has none, it is a field of the frame's class.
`name_scoped_iff` says for which tables the second look never finds a row.
-/
namespace JavaDebug.FrameNames

open Jdwp Addressing WireReader JavaValues

section Tables

/-- A row of a variable table. A class file counts ranges and slots in 16 bits. -/
structure Variable where
  code_index : ℕ
  name : String
  signature : String
  length : ℕ
  slot : ℕ
  range_bounded : code_index + length < 65536
  slot_bounded : slot < 65536
  typed : ∃ b, first_byte signature = some b

structure Frame where
  frame_id : ℕ
  class_id : ClassId
  method_id : ℕ
  index : ℕ

variable (v : Variable)

/-- The test of the source; a `u64` sum wraps. -/
def in_range (idx : ℕ) : Bool :=
  v.code_index ≤ idx && idx < (v.code_index + v.length) % 2 ^ 64

/-- `i32::try_from(slot).unwrap_or(0)` -/
def slot_number (slot : ℕ) : ℕ := if slot < 2 ^ 31 then slot else 0

def lookup (vars : List Variable) (name : String) (idx : ℕ) : Option Variable :=
  (vars.find? fun v => v.name = name && in_range v idx).or (vars.find? fun v => v.name = name)

/-- The variable is in scope at this bytecode index. -/
def InScope (idx : ℕ) : Prop :=
  v.code_index ≤ idx ∧ idx < v.code_index + v.length

theorem in_range_iff (idx : ℕ) : in_range v idx = true ↔ InScope v idx := by
  have hwrap : (v.code_index + v.length) % 2 ^ 64 = v.code_index + v.length := by
    have := v.range_bounded
    omega
  unfold in_range InScope
  rw [hwrap, Bool.and_eq_true, decide_eq_true_eq, decide_eq_true_eq]

theorem slot_number_eq : slot_number v.slot = v.slot := by
  have := v.slot_bounded
  exact if_pos (by omega)

end Tables

section Resolving

/-- What the debuggee answers, errors as they are displayed. -/
structure Debuggee extends Types where
  get_frames : ThreadId → Except String (List Frame)
  get_this_object : ThreadId → ℕ → Except String ObjectId
  get_variable_table : ClassId → ℕ → Except String (List Variable)
  get_frame_values : ThreadId → ℕ → ℕ → UInt8 → Except String (List Value)
  set_frame_value : ThreadId → ℕ → ℕ → Value → Except String Unit
  get_object_values : ObjectId → ℕ → Except String (List Value)
  get_reference_values : ClassId → ℕ → Except String (List Value)
  resolve_object_handle : ObjectId → Except String Value
  this_read_failure : String → String
  bare_name_not_found : Frame → String → String
  type_mismatch_err : String → String → Value → String

/-- A command that reads or writes a slot of the frame. -/
inductive Access
  | read (slot : ℕ)
  | write (slot : ℕ) (v : Value)
  deriving DecidableEq

/-- The slot commands that were sent and what came of it. -/
abbrev Outcome (α : Type) := List Access × Except String α

def first_value (what : String) : List Value → Except String Value
  | v :: _ => .ok v
  | [] => .error what

variable (d : Debuggee)

def resolve_head (thread : ThreadId) (frame : Frame) (seg : Seg) : Outcome Value :=
  if seg.args.isSome then ([], .error "Expression must start with a local variable or 'this'")
  else if seg.name = "this" then
    match d.get_this_object thread frame.frame_id with
    | .error e => ([], .error (d.this_read_failure e))
    | .ok obj =>
      if obj = 0 then ([], .error "No 'this' in this frame (static method)")
      else ([], .ok (value_object (UInt64.ofNat obj)))
  else
    match d.get_variable_table frame.class_id frame.method_id with
    | .error e =>
      ([], .error ("Failed to read local variable table (compiled without -g?): " ++ e))
    | .ok vars =>
      match lookup vars seg.name frame.index with
      | none => ([], .error ("Unknown local variable '" ++ seg.name ++ "' in this frame"))
      | some var =>
        match first_byte var.signature with
        | none => ([], .error "Bad variable signature")
        | some sig_byte =>
          let slot := slot_number var.slot
          match d.get_frame_values thread frame.frame_id slot sig_byte with
          | .error e => ([.read slot], .error ("Failed to read variable value: " ++ e))
          | .ok vals => ([.read slot], first_value "No value returned for variable" vals)

def instance_member (thread : ThreadId) (frame : Frame) (name : String) : Option Value :=
  match d.get_this_object thread frame.frame_id with
  | .ok this_obj =>
    if this_obj = 0 then none
    else
      match find_field_info d.toTypes frame.class_id name (some false) with
      | .ok (some (_, f)) =>
        match d.get_object_values this_obj f.field_id with
        | .ok vals => vals.head?
        | .error _ => none
      | _ => none
  | .error _ => none

def static_member (frame : Frame) (name : String) : Option Value :=
  match find_field_info d.toTypes frame.class_id name (some true) with
  | .ok (some (declaring, f)) =>
    match d.get_reference_values declaring f.field_id with
    | .ok vals => vals.head?
    | .error _ => none
  | _ => none

def resolve_bare_member_of_frame (thread : ThreadId) (frame : Frame) (name : String) :
    Option Value :=
  (instance_member d thread frame name).or (static_member d frame name)

/-- `dotted` is what reading a static through the leading segments comes to. -/
def resolve_static_head (segs : List Seg) (dotted : Except String (Value × ℕ)) :
    Except String (Value × ℕ) :=
  if segs.length < 2 then
    .error "a static access needs at least Class.field or Class.method()"
  else dotted

def after_head (at_frame : Option (ThreadId × Frame)) (segs : List Seg) (head_seg : Seg)
    (dotted : Except String (Value × ℕ)) (head_err : Option String) : Except String (Value × ℕ) :=
  let member := if head_seg.args = none then
      at_frame.bind fun p => resolve_bare_member_of_frame d p.1 p.2 head_seg.name
    else none
  match member with
  | some v => .ok (v, 1)
  | none =>
    match resolve_static_head segs dotted with
    | .ok r => .ok r
    | .error e => .error (head_error (fun fr => d.bare_name_not_found fr head_seg.name)
      (at_frame.map Prod.snd) segs head_seg head_err e)

def resolve_any_head (at_frame : Option (ThreadId × Frame)) (segs : List Seg) (head_seg : Seg)
    (dotted : Except String (Value × ℕ)) : Outcome (Value × ℕ) :=
  match parse_object_handle head_seg.name.toList with
  | some id => ([], (d.resolve_object_handle id).map fun v => (v, 1))
  | none =>
    match at_frame with
    | none => ([], after_head d none segs head_seg dotted none)
    | some (thread, frame) =>
      let head := resolve_head d thread frame head_seg
      match head.2 with
      | .ok v => (head.1, .ok (v, 1))
      | .error e => (head.1, after_head d (some (thread, frame)) segs head_seg dotted (some e))

/-- `value` is what the text to write comes to for a declared type. -/
def set_local_variable (thread_opt : Option ThreadId) (frame_index : ℕ) (seg : Seg)
    (value_str : String) (value : String → Except String Value) : Outcome String :=
  if seg.args.isSome then ([], .error "Cannot assign to a method call")
  else
    match thread_opt with
    | none => ([], .error "No thread. Pass thread_id, or hit a breakpoint first.")
    | some thread =>
      match d.get_frames thread with
      | .error e => ([], .error ("Failed to get frames: " ++ e))
      | .ok frames =>
        match frames[frame_index]? with
        | none => ([], .error ("frame_index " ++ toString frame_index ++ " out of range"))
        | some frame =>
          match d.get_variable_table frame.class_id frame.method_id with
          | .error e => ([], .error ("Failed to read variable table: " ++ e))
          | .ok vars =>
            match lookup vars seg.name frame.index with
            | none =>
              ([], .error ("Unknown local variable '" ++ seg.name ++
                "' (for a static/instance field use Class.field or obj.field)"))
            | some var =>
              match first_byte var.signature with
              | none => ([], .error "Bad signature")
              | some sig_byte =>
                match value var.signature with
                | .error e => ([], .error e)
                | .ok v =>
                  if tag_compatible sig_byte v.tag then
                    let slot := slot_number var.slot
                    match d.set_frame_value thread frame.frame_id slot v with
                    | .error e => ([.write slot v], .error ("Failed to set value: " ++ e))
                    | .ok _ =>
                      ([.write slot v], .ok ("✅ Set local " ++ seg.name ++ " = " ++ value_str))
                  else ([], .error (d.type_mismatch_err seg.name var.signature v))

end Resolving

section Scoping

/-- A name that is neither a keyword nor an object handle. -/
structure BareName where
  text : String
  not_this : text ≠ "this"
  no_handle : parse_object_handle text.toList = none

/-- The name as a segment of an expression. -/
def head_of (n : BareName) (subs : List Subscript) : Seg := ⟨n.text, none, subs⟩

/-- The field of that name on the nearest class of the chain that has one. -/
inductive Declares (d : Debuggee) (name : String) (want_static : Bool) :
    ℕ → ClassId → ClassId → FieldInfo → Prop
  | here {c : ClassId} {fields : List FieldInfo} {f : FieldInfo} : d.get_fields c = .ok fields →
      fields.find? (fun f => f.name = name && wanted (some want_static) f) = some f →
      Declares d name want_static 0 c c f
  | above {n : ℕ} {c above declaring : ClassId} {fields : List FieldInfo} {f : FieldInfo} :
      d.get_fields c = .ok fields →
      fields.find? (fun f => f.name = name && wanted (some want_static) f) = none →
      superclass_of d.toTypes c = some above →
      Declares d name want_static n above declaring f →
      Declares d name want_static (n + 1) c declaring f

variable (d : Debuggee)

/-- The value of the instance field of `this` that the frame's class has under the name. -/
def InstanceField (thread : ThreadId) (frame : Frame) (name : String) (v : Value) : Prop :=
  ∃ this_obj n declaring f vals, d.get_this_object thread frame.frame_id = .ok this_obj ∧
    this_obj ≠ 0 ∧ n < 50 ∧ Declares d name false n frame.class_id declaring f ∧
    d.get_object_values this_obj f.field_id = .ok (v :: vals)

/-- The value of the static that the frame's class has under the name. -/
def StaticField (frame : Frame) (name : String) (v : Value) : Prop :=
  ∃ n declaring f vals, n < 50 ∧ Declares d name true n frame.class_id declaring f ∧
    d.get_reference_values declaring f.field_id = .ok (v :: vals)

/-- The instance field, else the static. -/
def Member (thread : ThreadId) (frame : Frame) (name : String) (v : Value) : Prop :=
  InstanceField d thread frame name v ∨
    (∀ u, ¬ InstanceField d thread frame name u) ∧ StaticField d frame name v

/-- A row of the name with this slot is in scope at the frame. -/
def Owns (frame : Frame) (name : String) (slot : ℕ) : Prop :=
  ∃ vars, d.get_variable_table frame.class_id frame.method_id = .ok vars ∧
    ∃ v ∈ vars, v.name = name ∧ v.slot = slot ∧ InScope v frame.index

/-- The name means the variable in scope, on the way in and on the way out. -/
structure ScopedName (d : Debuggee) (thread : ThreadId) (frame : Frame) (n : BareName) : Prop where
  reads : ∀ subs segs dotted slot, Access.read slot ∈
    (resolve_any_head d (some (thread, frame)) segs (head_of n subs) dotted).1 →
      Owns d frame n.text slot
  reads_only : ∀ subs segs dotted slot v, Access.write slot v ∉
    (resolve_any_head d (some (thread, frame)) segs (head_of n subs) dotted).1
  absent : (∀ slot, ¬ Owns d frame n.text slot) → ∀ subs dotted,
    (∃ v, Member d thread frame n.text v ∧
      (resolve_any_head d (some (thread, frame)) [head_of n subs] (head_of n subs) dotted).2 =
        .ok (v, 1)) ∨
    (∀ v, ¬ Member d thread frame n.text v) ∧ ∃ e,
      (resolve_any_head d (some (thread, frame)) [head_of n subs] (head_of n subs) dotted).2 =
        .error e
  writes : ∀ frames i, d.get_frames thread = .ok frames → frames[i]? = some frame →
    ∀ subs text value slot v, Access.write slot v ∈
      (set_local_variable d (some thread) i (head_of n subs) text value).1 →
        Owns d frame n.text slot
  refused : (∀ slot, ¬ Owns d frame n.text slot) → ∀ frames i, d.get_frames thread = .ok frames →
    frames[i]? = some frame → ∀ subs text value,
      ∃ e, set_local_variable d (some thread) i (head_of n subs) text value = ([], .error e)

/-- Where the method has rows of the name, one of them is in scope. -/
def Settled (frame : Frame) (name : String) : Prop :=
  ∀ vars, d.get_variable_table frame.class_id frame.method_id = .ok vars →
    (∃ v ∈ vars, v.name = name ∧ InScope v frame.index) ∨ ∀ v ∈ vars, v.name ≠ name

variable {d : Debuggee} {thread : ThreadId} {frame : Frame} {name : String}

variable {vars : List Variable}

variable {idx : ℕ} {v : Variable}

theorem lookup_name (h : lookup vars name idx = some v) : v ∈ vars ∧ v.name = name := by
  unfold lookup at h
  rcases Option.or_eq_some_iff.mp h with h | ⟨-, h⟩
  · have hp := List.find?_some h
    simp only [Bool.and_eq_true, decide_eq_true_eq] at hp
    exact ⟨List.mem_of_find?_eq_some h, hp.1⟩
  · have hp := List.find?_some h
    exact ⟨List.mem_of_find?_eq_some h, of_decide_eq_true hp⟩

theorem lookup_in_scope {u : Variable} (h : lookup vars name idx = some v) (hu : u ∈ vars)
    (hname : u.name = name) (hin : InScope u idx) : InScope v idx := by
  unfold lookup at h
  rcases Option.or_eq_some_iff.mp h with h | ⟨hnone, -⟩
  · have hp := List.find?_some h
    simp only [Bool.and_eq_true, decide_eq_true_eq] at hp
    exact (in_range_iff v idx).mp hp.2
  · have hno := List.find?_eq_none.mp hnone u hu
    simp only [Bool.and_eq_true, decide_eq_true_eq, not_and, Bool.not_eq_true] at hno
    have hyes := (in_range_iff u idx).mpr hin
    rw [hno hname] at hyes
    cases hyes

theorem lookup_none : lookup vars name idx = none ↔ ∀ v ∈ vars, v.name ≠ name := by
  unfold lookup
  rw [Option.or_eq_none_iff, List.find?_eq_none, List.find?_eq_none]
  constructor
  · rintro ⟨-, h⟩ v hv heq
    exact h v hv (decide_eq_true heq)
  · intro h
    refine ⟨fun v hv hp => ?_, fun v hv hp => h v hv (of_decide_eq_true hp)⟩
    simp only [Bool.and_eq_true, decide_eq_true_eq] at hp
    exact h v hv hp.1

/-- In a settled table the row that is found is in scope. -/
theorem owns_of_lookup (hs : Settled d frame name)
    (hvars : d.get_variable_table frame.class_id frame.method_id = .ok vars)
    (h : lookup vars name frame.index = some v) : Owns d frame name (slot_number v.slot) := by
  obtain ⟨hv, hname⟩ := lookup_name h
  refine ⟨vars, hvars, v, hv, hname, (slot_number_eq v).symm, ?_⟩
  rcases hs vars hvars with ⟨u, hu, huname, hin⟩ | hno
  · exact lookup_in_scope h hu huname hin
  · exact absurd hname (hno v hv)

theorem lookup_absent (hs : Settled d frame name) (hno : ∀ slot, ¬ Owns d frame name slot)
    (hvars : d.get_variable_table frame.class_id frame.method_id = .ok vars) :
    lookup vars name frame.index = none := by
  rw [lookup_none]
  rcases hs vars hvars with ⟨u, hu, hname, hin⟩ | h
  · exact absurd ⟨vars, hvars, u, hu, hname, rfl, hin⟩ (hno u.slot)
  · exact h

end Scoping

section Members

variable {d : Debuggee} {thread : ThreadId} {frame : Frame} {name : String}

/-- The walk finds the nearest declaration, if it is within its reach. -/
theorem walk_declares {b : Bool} {fuel : ℕ} {c declaring : ClassId} {f : FieldInfo} :
    field_walk d.toTypes name (some b) fuel c = .ok (some (declaring, f)) ↔
      ∃ n, n < fuel ∧ Declares d name b n c declaring f := by
  induction fuel generalizing c with
  | zero =>
    constructor
    · intro h
      cases h
    · rintro ⟨n, hn, -⟩
      omega
  | succ fuel ih =>
    rw [field_walk]
    constructor
    · intro h
      split at h
      · cases h
      · rename_i fields hfields
        split at h
        · rename_i g hfind
          simp only [Except.ok.injEq, Option.some.injEq, Prod.mk.injEq] at h
          obtain ⟨rfl, rfl⟩ := h
          exact ⟨0, by omega, .here hfields hfind⟩
        · rename_i hfind
          split at h
          · rename_i above hsuper
            obtain ⟨n, hn, hdecl⟩ := ih.mp h
            exact ⟨n + 1, by omega, .above hfields hfind hsuper hdecl⟩
          · cases h
    · rintro ⟨n, hn, hdecl⟩
      cases hdecl with
      | here hfields hfind =>
        rw [hfields]
        simp only
        rw [hfind]
      | above hfields hfind hsuper hdecl =>
        rw [hfields]
        simp only
        rw [hfind]
        simp only
        rw [hsuper]
        exact ih.mpr ⟨_, by omega, hdecl⟩

variable {v : Value}

theorem instance_member_iff :
    instance_member d thread frame name = some v ↔ InstanceField d thread frame name v := by
  unfold instance_member InstanceField
  constructor
  · intro h
    split at h
    · rename_i this_obj hthis
      split at h
      · cases h
      · rename_i hne
        split at h
        · rename_i declaring f hfind
          obtain ⟨n, hn, hdecl⟩ := walk_declares.mp hfind
          split at h
          · rename_i vals hvals
            obtain ⟨rest, rfl⟩ := List.head?_eq_some_iff.mp h
            exact ⟨this_obj, n, declaring, f, rest, hthis, hne, hn, hdecl, hvals⟩
          · cases h
        · cases h
    · cases h
  · rintro ⟨this_obj, n, declaring, f, vals, hthis, hne, hn, hdecl, hvals⟩
    have hfind : find_field_info d.toTypes frame.class_id name (some false) =
      .ok (some (declaring, f)) :=
      walk_declares.mpr ⟨n, hn, hdecl⟩
    rw [hthis]
    simp only
    rw [if_neg hne, hfind]
    simp only
    rw [hvals]
    rfl

theorem static_member_iff : static_member d frame name = some v ↔ StaticField d frame name v := by
  unfold static_member StaticField
  constructor
  · intro h
    split at h
    · rename_i declaring f hfind
      obtain ⟨n, hn, hdecl⟩ := walk_declares.mp hfind
      split at h
      · rename_i vals hvals
        obtain ⟨rest, rfl⟩ := List.head?_eq_some_iff.mp h
        exact ⟨n, declaring, f, rest, hn, hdecl, hvals⟩
      · cases h
    · cases h
  · rintro ⟨n, declaring, f, vals, hn, hdecl, hvals⟩
    have hfind : find_field_info d.toTypes frame.class_id name (some true) =
      .ok (some (declaring, f)) :=
      walk_declares.mpr ⟨n, hn, hdecl⟩
    rw [hfind]
    simp only
    rw [hvals]
    rfl

theorem bare_member_iff :
    resolve_bare_member_of_frame d thread frame name = some v ↔ Member d thread frame name v := by
  unfold resolve_bare_member_of_frame Member
  rw [Option.or_eq_some_iff, instance_member_iff, static_member_iff]
  refine or_congr Iff.rfl (and_congr ?_ Iff.rfl)
  rw [Option.eq_none_iff_forall_ne_some]
  exact forall_congr' fun u => not_congr instance_member_iff

end Members

section Accesses

variable {d : Debuggee} {thread : ThreadId} {frame : Frame}

variable (n : BareName)

variable (subs : List Subscript)

/-- Either no row is found and nothing is read, or one is and its slot is read. -/
theorem head_cases :
    ((∃ e, resolve_head d thread frame (head_of n subs) = ([], .error e)) ∧
      ∀ vars, d.get_variable_table frame.class_id frame.method_id = .ok vars →
        lookup vars n.text frame.index = none) ∨
    ∃ vars var, d.get_variable_table frame.class_id frame.method_id = .ok vars ∧
      lookup vars n.text frame.index = some var ∧
      (resolve_head d thread frame (head_of n subs)).1 = [.read (slot_number var.slot)] := by
  have hthis : (head_of n subs).name ≠ "this" := n.not_this
  unfold resolve_head
  rw [if_neg (by simp [head_of]), if_neg hthis]
  cases hvars : d.get_variable_table frame.class_id frame.method_id with
  | error e => exact Or.inl ⟨⟨_, rfl⟩, fun vars h => by cases h⟩
  | ok vars =>
    simp only
    cases hlook : lookup vars (head_of n subs).name frame.index with
    | none =>
      refine Or.inl ⟨⟨_, rfl⟩, fun vars' h => ?_⟩
      obtain rfl := Except.ok.inj h
      exact hlook
    | some var =>
      obtain ⟨b, hb⟩ := var.typed
      refine Or.inr ⟨vars, var, rfl, hlook, ?_⟩
      simp only [hb]
      split
      · rfl
      · rfl

theorem any_head_log (segs : List Seg) (dotted : Except String (Value × ℕ)) :
    (resolve_any_head d (some (thread, frame)) segs (head_of n subs) dotted).1 =
      (resolve_head d thread frame (head_of n subs)).1 := by
  have hhandle : parse_object_handle (head_of n subs).name.toList = none := n.no_handle
  unfold resolve_any_head
  rw [hhandle]
  simp only
  split <;> rfl

/-- A name that no row answers to is a member of the frame's class, or an error. -/
theorem any_head_absent (segs : List Seg) (dotted : Except String (Value × ℕ)) {e : String}
    (h : resolve_head d thread frame (head_of n subs) = ([], .error e)) :
    (resolve_any_head d (some (thread, frame)) segs (head_of n subs) dotted).2 =
      after_head d (some (thread, frame)) segs (head_of n subs) dotted (some e) := by
  have hhandle : parse_object_handle (head_of n subs).name.toList = none := n.no_handle
  unfold resolve_any_head
  rw [hhandle]
  simp only [h]

/-- Either nothing is written, or a row is found and its slot is written. -/
theorem local_cases {frames : List Frame} {i : ℕ} (hframes : d.get_frames thread = .ok frames)
    (hi : frames[i]? = some frame) (text : String) (value : String → Except String Value) :
    (∃ e, set_local_variable d (some thread) i (head_of n subs) text value = ([], .error e)) ∨
    ∃ vars var v, d.get_variable_table frame.class_id frame.method_id = .ok vars ∧
      lookup vars n.text frame.index = some var ∧
      (set_local_variable d (some thread) i (head_of n subs) text value).1 =
        [.write (slot_number var.slot) v] := by
  unfold set_local_variable
  rw [if_neg (by simp [head_of])]
  simp only [hframes, hi]
  cases hvars : d.get_variable_table frame.class_id frame.method_id with
  | error e => exact Or.inl ⟨_, rfl⟩
  | ok vars =>
    simp only
    cases hlook : lookup vars (head_of n subs).name frame.index with
    | none => exact Or.inl ⟨_, rfl⟩
    | some var =>
      obtain ⟨b, hb⟩ := var.typed
      simp only [hb]
      cases hv : value var.signature with
      | error e => exact Or.inl ⟨_, rfl⟩
      | ok v =>
        simp only
        by_cases hcompat : tag_compatible b v.tag
        · refine Or.inr ⟨vars, var, v, rfl, hlook, ?_⟩
          rw [if_pos hcompat]
          split
          · rfl
          · rfl
        · exact Or.inl ⟨_, if_neg hcompat⟩

theorem absent_head (hs : Settled d frame n.text) (hno : ∀ slot, ¬ Owns d frame n.text slot)
    (subs : List Subscript) :
    ∃ e, resolve_head d thread frame (head_of n subs) = ([], .error e) := by
  rcases head_cases n subs with ⟨h, -⟩ | ⟨vars, var, hvars, hlook, -⟩
  · exact h
  · rw [lookup_absent hs hno hvars] at hlook
    cases hlook

theorem after_head_member (dotted : Except String (Value × ℕ)) (e : String) :
    (∃ v, Member d thread frame n.text v ∧
      after_head d (some (thread, frame)) [head_of n subs] (head_of n subs) dotted (some e) =
        .ok (v, 1)) ∨
    (∀ v, ¬ Member d thread frame n.text v) ∧ ∃ e',
      after_head d (some (thread, frame)) [head_of n subs] (head_of n subs) dotted (some e) =
        .error e' := by
  have hbare : (head_of n subs).args = none := rfl
  have hname : (head_of n subs).name = n.text := rfl
  unfold after_head
  rw [if_pos hbare, Option.bind_some, hname]
  cases hm : resolve_bare_member_of_frame d thread frame n.text with
  | some v => exact Or.inl ⟨v, bare_member_iff.mp hm, rfl⟩
  | none =>
    refine Or.inr ⟨fun v hv => ?_, _, rfl⟩
    rw [bare_member_iff.mpr hv] at hm
    cases hm

theorem scoped_of_settled (hs : Settled d frame n.text) : ScopedName d thread frame n := by
  refine ⟨?_, ?_, ?_, ?_, ?_⟩
  · intro subs segs dotted slot hmem
    rw [any_head_log] at hmem
    rcases head_cases n subs with ⟨⟨e, he⟩, -⟩ | ⟨vars, var, hvars, hlook, hread⟩
    · rw [he] at hmem
      cases hmem
    · rw [hread, List.mem_singleton, Access.read.injEq] at hmem
      rw [hmem]
      exact owns_of_lookup hs hvars hlook
  · intro subs segs dotted slot v hmem
    rw [any_head_log] at hmem
    rcases head_cases n subs with ⟨⟨e, he⟩, -⟩ | ⟨vars, var, -, -, hread⟩
    · rw [he] at hmem
      cases hmem
    · rw [hread, List.mem_singleton] at hmem
      cases hmem
  · intro hno subs dotted
    obtain ⟨e, he⟩ := absent_head n hs hno subs
    rw [any_head_absent n subs _ dotted he]
    exact after_head_member n subs dotted e
  · intro frames i hframes hi subs text value slot v hmem
    rcases local_cases n subs hframes hi text value with ⟨e, he⟩ | ⟨vars, var, u, hvars, hlook, hw⟩
    · rw [he] at hmem
      cases hmem
    · rw [hw, List.mem_singleton, Access.write.injEq] at hmem
      rw [hmem.1]
      exact owns_of_lookup hs hvars hlook
  · intro hno frames i hframes hi subs text value
    rcases local_cases n subs hframes hi text value with h | ⟨vars, var, u, hvars, hlook, -⟩
    · exact h
    · rw [lookup_absent hs hno hvars] at hlook
      cases hlook

/-- A row found although none of the name is in scope has its slot read. -/
theorem settled_of_scoped (h : ScopedName d thread frame n) : Settled d frame n.text := by
  intro vars hvars
  by_contra hcon
  rw [not_or] at hcon
  obtain ⟨hout, hrow⟩ := hcon
  rcases @head_cases d thread frame n [] with
    ⟨-, hnone⟩ | ⟨vars', var, hvars', hlook, hread⟩
  · exact hrow (lookup_none.mp (hnone vars hvars))
  · have hmem : Access.read (slot_number var.slot) ∈
        (resolve_any_head d (some (thread, frame)) [] (head_of n []) (.error "")).1 := by
      rw [any_head_log, hread]
      exact List.mem_singleton_self _
    obtain ⟨vars'', hvars'', v, hv, hname, -, hin⟩ := h.reads _ _ _ _ hmem
    rw [hvars] at hvars''
    obtain rfl := Except.ok.inj hvars''
    exact hout ⟨v, hv, hname, hin⟩

/-- A bare name means the variable in scope exactly where the table is settled. -/
theorem name_scoped_iff (d : Debuggee) (thread : ThreadId) (frame : Frame) (n : BareName) :
    ScopedName d thread frame n ↔ Settled d frame n.text :=
  ⟨settled_of_scoped n, scoped_of_settled n⟩

/-- Two variables of one method in the same slot, `x` before index 5 and `y` from there on. -/
def shared_rows : List Variable :=
  [⟨0, "x", "I", 5, 1, by decide, by decide, 73, by decide⟩,
    ⟨5, "y", "I", 5, 1, by decide, by decide, 73, by decide⟩]

def shared_frame : Frame := ⟨9, 4, 2, 7⟩

/-- A debuggee stopped at index 7, where `y` is 42. -/
def shared_slot : Debuggee where
  get_frames := fun _ => .ok [shared_frame]
  get_this_object := fun _ _ => .ok 0
  get_variable_table := fun _ _ => .ok shared_rows
  get_frame_values := fun _ _ _ _ => .ok [value_int 42]
  set_frame_value := fun _ _ _ _ => .ok ()
  get_object_reference_type := fun _ => .ok 4
  get_signature := fun _ => .ok "LHost;"
  get_superclass := fun _ => .ok none
  get_interfaces := fun _ => .ok []
  get_fields := fun _ => .ok []
  get_methods := fun _ => .ok []
  get_object_values := fun _ _ => .ok []
  get_reference_values := fun _ _ => .ok []
  resolve_object_handle := fun _ => .ok value_null
  this_read_failure := id
  bare_name_not_found := fun _ name => name
  type_mismatch_err := fun name _ _ => name

def x_name : BareName := ⟨"x", by decide, by decide⟩

/-- `x` out of scope is answered with `y`, and a write to it goes to `y`. -/
theorem stale_name_reaches_neighbour :
    resolve_any_head shared_slot (some (1, shared_frame)) [head_of x_name []] (head_of x_name [])
        (.error "") = ([.read 1], .ok (value_int 42, 1)) ∧
      (set_local_variable shared_slot (some 1) 0 (head_of x_name []) "5"
        fun _ => .ok (value_int 5)).1 = [.write 1 (value_int 5)] ∧
      ¬ ScopedName shared_slot 1 shared_frame x_name := by
  have hread : resolve_any_head shared_slot (some (1, shared_frame)) [head_of x_name []]
      (head_of x_name []) (.error "") = ([.read 1], .ok (value_int 42, 1)) := by rfl
  refine ⟨hread, by rfl, fun h => ?_⟩
  have hmem : Access.read 1 ∈ (resolve_any_head shared_slot (some (1, shared_frame))
      [head_of x_name []] (head_of x_name []) (.error "")).1 := by
    rw [hread]
    exact List.mem_singleton_self _
  obtain ⟨vars, hvars, v, hv, hname, -, hlow, hhigh⟩ := h.reads _ _ _ _ hmem
  obtain rfl := Except.ok.inj hvars
  simp only [shared_rows, List.mem_cons, List.not_mem_nil, or_false] at hv
  rcases hv with rfl | rfl
  · exact absurd hhigh (by decide)
  · exact absurd hname (by decide)

end Accesses

end JavaDebug.FrameNames
