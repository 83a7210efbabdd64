import JavaDebug.StackReads

/-!
A stack read in waves is the stack read frame by frame. What is read ahead
agrees with what the frame would read, so the text is the same under any answers
and failures; and the reads ahead take the place of the frame's own, once for
each method, so no more is sent but for what cannot be read.
-/
namespace JavaDebug.StackWaves

open Dialogue Connection Links ReadTraces StackReads
open WireReader (Value)

section Frames

variable (d : Debuggee) (c : TypeCache)

def key_of (location : Location) : Method := (location.class_id, location.method_id)

def name_of (class_id : ReferenceTypeId) : String :=
  class_name_of class_id ((Lookup.signature class_id).value d c)

/-- The names of the classes that have been asked for. -/
def names_in (seen : List ReferenceTypeId) : ReferenceTypeId → Option String :=
  fun id => if id ∈ seen then some (name_of d c id) else none

def name_trace (seen : List ReferenceTypeId) (id : ReferenceTypeId) : List Item :=
  if id ∈ seen then [] else [looks_signature id]

def method_at (location : Location) : Option MethodInfo :=
  find_method ((Lookup.methods location.class_id).value d c) location.method_id

def lines_of (m : Method) : JdwpResult LineTable := said d 6 1 (put_method m) read_line_table

def line_request (m : Method) : Item := .sends (6, 1, put_method m)

def vars_of (m : Method) : JdwpResult (List Variable) := MetadataWaves.variable_table d m

def vars_request (m : Method) (with_generic : Bool) : Links.Request :=
  (6, variable_table_command with_generic, put_method m)

def vars_trace (m : Method) : List Item :=
  (either_requests (fun b => MetadataWaves.table d b m) (vars_request m)).map .sends

def values_of (thread : ThreadId) (frame : FrameId) (slots : List VariableSlot) :
    JdwpResult (List Value) :=
  said d 16 1 (put_slots (thread, frame, slots)) (read_list read_tagged_value)

def values_request (thread : ThreadId) (frame : FrameId) (slots : List VariableSlot) : Item :=
  .sends (16, 1, put_slots (thread, frame, slots))

def line_in (location : Location) : Option Int32 :=
  (lines_of d (key_of location)).toOption.bind fun lt => line_at lt location.index

def locals_in (location : Location) : List ActiveLocal :=
  ((vars_of d (key_of location)).toOption.map fun t => active_locals t location.index).getD []

variable {d c}

theorem does_name (seen : List ReferenceTypeId) (id : ReferenceTypeId) :
    Does d c (resolve_class_name id (names_in d c seen))
      (name_of d c id, names_in d c (id :: seen)) (name_trace seen id) := by
  have hnext : (fun i => if i = id then some (name_of d c id) else names_in d c seen i) =
      names_in d c (id :: seen) := by
    funext i
    by_cases hi : i = id
    · simp [names_in, hi]
    · simp [names_in, hi]
  by_cases hid : id ∈ seen
  · have hcache : names_in d c seen id = some (name_of d c id) := if_pos hid
    have hsame : names_in d c (id :: seen) = names_in d c seen := by
      rw [← hnext]
      funext i
      by_cases hi : i = id
      · rw [if_pos hi, hi, hcache]
      · rw [if_neg hi]
    rw [resolve_class_name, hcache, name_trace, if_pos hid, hsame]
    exact Does.done _
  · have hcache : names_in d c seen id = none := if_neg hid
    rw [resolve_class_name, hcache, name_trace, if_neg hid, ← hnext]
    exact (Does.look (.signature id)).bind (Does.done _)

/-- What was read ahead agrees with what the frames would read. -/
structure Agrees (d : Debuggee) (thread : ThreadId) (frames : List (ℕ × Frame))
    (pre : Option StackPrefetch) : Prop where
  lines : ∀ p ∈ pre, ∀ m t, p.lines m = some t → t = (lines_of d m).toOption
  vars : ∀ p ∈ pre, ∀ m t, p.vars m = some t → vars_of d m = .ok t
  values : ∀ p ∈ pre, ∀ f ∈ frames, ∀ vs, p.values f.1 = some vs →
    values_of d thread f.2.frame_id ((locals_in d f.2.location).map ActiveLocal.slot) = .ok vs

def has_lines (pre : Option StackPrefetch) (m : Method) : Bool :=
  (pre.bind fun p => p.lines m).isSome

def has_vars (pre : Option StackPrefetch) (m : Method) : Bool :=
  (pre.bind fun p => p.vars m).isSome

def has_values (pre : Option StackPrefetch) (idx : ℕ) : Bool :=
  (pre.bind fun p => p.values idx).isSome

variable {thread : ThreadId} {frames : List (ℕ × Frame)} {pre : Option StackPrefetch}

theorem does_line (h : Agrees d thread frames pre) (location : Location) :
    Does d c (frame_line location pre) (line_in d location)
      (if has_lines pre (key_of location) then [] else [line_request (key_of location)]) := by
  unfold frame_line has_lines
  rw [show (location.class_id, location.method_id) = key_of location from rfl]
  cases hp : pre.bind fun p => p.lines (key_of location) with
  | some table =>
    obtain ⟨p, hmem, hlines⟩ := Option.bind_eq_some_iff.mp hp
    rw [line_in, ← h.lines p hmem _ _ hlines]
    exact Does.done _
  | none =>
    exact (fetches_command d 6 1 _ read_line_table).does.bind (Does.done _)

theorem fetches_vars (m : Method) : Fetches d (get_variable_table m.1 m.2).run (vars_of d m)
    (either_requests (fun b => MetadataWaves.table d b m) (vars_request m)) := by
  have h (b : Bool) : Fetches d (read_variable_table m.1 m.2 b).run (MetadataWaves.table d b m)
      [vars_request m b] := fetches_command d 6 _ _ _
  exact fetches_either d h

theorem does_locals (h : Agrees d thread frames pre) (location : Location) :
    Does d c (frame_locals location pre) (locals_in d location)
      (if has_vars pre (key_of location) then [] else vars_trace d (key_of location)) := by
  unfold frame_locals has_vars
  rw [show (location.class_id, location.method_id) = key_of location from rfl]
  cases hp : pre.bind fun p => p.vars (key_of location) with
  | some table =>
    obtain ⟨p, hmem, hvars⟩ := Option.bind_eq_some_iff.mp hp
    rw [locals_in, h.vars p hmem _ _ hvars]
    exact Does.done _
  | none =>
    exact (fetches_vars (key_of location)).does.last fun read =>
      (read.toOption.map fun table => active_locals table location.index).getD []

def info_trace (d : Debuggee) (c : TypeCache) (pre : Option StackPrefetch) (include_ : Bool)
    (location : Location) : List Item :=
  .looks (.methods location.class_id) ::
    if (method_at d c location).isSome then
      (if has_lines pre (key_of location) then [] else [line_request (key_of location)]) ++
        if include_ ∧ has_vars pre (key_of location) = false then vars_trace d (key_of location)
        else []
    else []

def info_of (d : Debuggee) (c : TypeCache) (include_ : Bool) (location : Location) :
    String × Option Int32 × List ActiveLocal :=
  match method_at d c location with
  | none => ("method@" ++ hex location.method_id, none, [])
  | some method =>
    (method.name, line_in d location, if include_ then locals_in d location else [])

theorem does_info (h : Agrees d thread frames pre) (include_ : Bool) (location : Location) :
    Does d c (frame_method_info location include_ pre) (info_of d c include_ location)
      (info_trace d c pre include_ location) := by
  refine Does.bind (t := [_]) (Does.look (.methods location.class_id)) ?_
  rw [info_of, method_at]
  cases hm : find_method ((Lookup.methods location.class_id).value d c) location.method_id with
  | none => exact Does.done _
  | some method =>
    simp only [Option.isSome_some]
    refine (does_line h location).bind ?_
    cases include_ with
    | false => exact Does.done _
    | true =>
      have hlocals := (does_locals (c := c) h location).last fun active =>
        (method.name, line_in d location, active)
      cases hv : has_vars pre (key_of location) with
      | true => simpa [hv] using hlocals
      | false => simpa [hv] using hlocals

end Frames

section Bodies

/-- What rendering a value comes to. -/
structure Rendering (d : Debuggee) (c : TypeCache) (r : Renderer) where
  text : Value → String
  trace : Value → List Item
  does : ∀ v, Does d c (r.render_value v) (text v) (trace v)

theorem rendering_exists (d : Debuggee) (c : TypeCache) (r : Renderer) :
    Nonempty (Rendering d c r) := by
  choose text trace does using fun v => composed_does (d := d) (c := c) (r.reading v)
  exact ⟨⟨text, trace, does⟩⟩

variable {d : Debuggee} {c : TypeCache} {r : Renderer} (x : Rendering d c r)

def locals_text (output : String) : List (ActiveLocal × Value) → String
  | [] => output
  | (local_, value) :: rest =>
    let declared := match local_.declared with
      | some t => t ++ " "
      | none => ""
    locals_text (output ++ "     " ++ declared ++ local_.name ++ " = " ++ x.text value ++ "\n") rest

theorem does_render_locals (output : String) (l : List (ActiveLocal × Value)) :
    Does d c (render_locals r output l) (locals_text x output l)
      (l.flatMap fun p => x.trace p.2) := by
  induction l generalizing output with
  | nil => exact Does.done _
  | cons p l ih =>
    rw [List.flatMap_cons]
    exact (x.does p.2).bind (ih _)

variable (thread : ThreadId)

def values_in (frame : Frame) : JdwpResult (List Value) :=
  values_of d thread frame.frame_id ((locals_in d frame.location).map ActiveLocal.slot)

def variables_text (output : String) (frame : Frame) : String :=
  match values_in (d := d) thread frame with
  | .ok values => locals_text x output ((locals_in d frame.location).zip values)
  | .error _ => output

/-- The reads of the values that are rendered. -/
def shown_trace (frame : Frame) : List Item :=
  match values_in (d := d) thread frame with
  | .ok values => ((locals_in d frame.location).zip values).flatMap fun p => x.trace p.2
  | .error _ => []

def own_values (pre : Option StackPrefetch) (f : ℕ × Frame) : List Item :=
  if has_values pre f.1 then []
  else [values_request thread f.2.frame_id
    ((locals_in d f.2.location).map ActiveLocal.slot)]

variable {thread} {frames : List (ℕ × Frame)} {pre : Option StackPrefetch}

theorem does_variables (h : Agrees d thread frames pre) {f : ℕ × Frame} (hf : f ∈ frames)
    (output : String) :
    Does d c (render_frame_variables r output thread f.2.frame_id (locals_in d f.2.location)
        (pre.bind fun p => p.values f.1)) (variables_text x thread output f.2)
      (own_values (d := d) thread pre f ++ shown_trace x thread f.2) := by
  unfold own_values has_values
  cases hp : pre.bind fun p => p.values f.1 with
  | some values =>
    obtain ⟨p, hmem, hvalues⟩ := Option.bind_eq_some_iff.mp hp
    have hread : values_in (d := d) thread f.2 = .ok values := h.values p hmem f hf values hvalues
    rw [variables_text, shown_trace, hread]
    exact does_render_locals x output _
  | none =>
    refine (fetches_command d 16 1 _ (read_list read_tagged_value)).does.bind ?_
    rw [variables_text, shown_trace]
    change Does d c (match values_in (d := d) thread f.2 with
      | .ok values => _
      | .error _ => _) _ _
    cases values_in (d := d) thread f.2 with
    | ok values => exact does_render_locals x output _
    | error e => exact Does.done _

end Bodies

section Walks

variable {d : Debuggee} {c : TypeCache} {r : Renderer} (x : Rendering d c r) (walk : StackWalk)

/-- The frame has locals to render. -/
def Shows (d : Debuggee) (c : TypeCache) (walk : StackWalk) (frame : Frame) : Prop :=
  walk.include_variables = true ∧ (method_at d c frame.location).isSome = true ∧
    locals_in d frame.location ≠ []

instance (frame : Frame) : Decidable (Shows d c walk frame) :=
  inferInstanceAs (Decidable (_ ∧ _ ∧ _))

def body_trace (pre : Option StackPrefetch) (f : ℕ × Frame) : List Item :=
  info_trace d c pre walk.include_variables f.2.location ++
    if Shows d c walk f.2 then
      own_values (d := d) walk.target_thread pre f ++ shown_trace x walk.target_thread f.2
    else []

def line_text (output : String) (f : ℕ × Frame) : String :=
  let info := info_of d c walk.include_variables f.2.location
  let at_line := match info.2.1 with
    | some l => ":" ++ toString l
    | none => ""
  output ++ "#" ++ toString f.1 ++ " " ++ name_of d c f.2.location.class_id ++ "." ++ info.1 ++
    at_line ++ "\n"

def passes (f : ℕ × Frame) : Bool := shown r walk (name_of d c f.2.location.class_id)

def frame_text (out : String × ℕ) (f : ℕ × Frame) : String × ℕ :=
  if passes (d := d) (c := c) (r := r) walk f then
    let output := line_text (d := d) (c := c) walk (flush_hidden out.1 out.2) f
    (if Shows d c walk f.2 then variables_text x walk.target_thread output f.2 else output, 0)
  else (out.1, out.2 + 1)

def frame_trace (pre : Option StackPrefetch) (seen : List ReferenceTypeId) (f : ℕ × Frame) :
    List Item :=
  name_trace seen f.2.location.class_id ++
    if passes (d := d) (c := c) (r := r) walk f then body_trace x walk pre f else []

variable {walk} {frames : List (ℕ × Frame)} {pre : Option StackPrefetch}

theorem does_frame (h : Agrees d walk.target_thread frames pre) {f : ℕ × Frame} (hf : f ∈ frames)
    (out : String × ℕ) (seen : List ReferenceTypeId) :
    Does d c (render_stack_frame r walk out.1 f.1 f.2 ⟨names_in d c seen, out.2, pre⟩)
      ((frame_text x walk out f).1,
        ⟨names_in d c (f.2.location.class_id :: seen), (frame_text x walk out f).2, pre⟩)
      (frame_trace x walk pre seen f) := by
  refine (does_name seen f.2.location.class_id).bind ?_
  unfold frame_text passes
  cases hs : shown r walk (name_of d c f.2.location.class_id) with
  | false =>
    simp only [hs, if_true, Bool.false_eq_true, if_false]
    exact Does.done _
  | true =>
    simp only [hs, Bool.true_eq_false, if_false, if_true]
    refine (does_info h walk.include_variables f.2.location).bind ?_
    by_cases hshows : Shows d c walk f.2
    · obtain ⟨hinc, hmethod, hlocals⟩ := id hshows
      have hactive : (info_of d c walk.include_variables f.2.location).2.2 =
          locals_in d f.2.location := by
        obtain ⟨m, hm⟩ := Option.isSome_iff_exists.mp hmethod
        rw [info_of, hm, hinc]
        rfl
      have hnot : ¬ (walk.include_variables = false ∨ locals_in d f.2.location = []) := by
        simp [hinc, hlocals]
      rw [if_pos hshows, if_pos hshows]
      simp only [hactive, if_neg hnot]
      exact (does_variables x h hf _).last fun output => (output, _)
    · have hdone : walk.include_variables = false ∨
          (info_of d c walk.include_variables f.2.location).2.2 = [] := by
        by_contra hnot
        push Not at hnot
        refine hshows ⟨by simpa using hnot.1, ?_, ?_⟩
        · cases hm : method_at d c f.2.location with
          | none => simp [info_of, hm] at hnot
          | some m => rfl
        · intro hnil
          cases hm : method_at d c f.2.location <;> simp [info_of, hm, hnil] at hnot
      rw [if_neg hshows, if_neg hshows]
      simp only [if_pos hdone]
      exact Does.done _

/-- The classes asked for, after those of more frames. -/
def seen_after (seen : List ReferenceTypeId) (l : List (ℕ × Frame)) : List ReferenceTypeId :=
  l.foldl (fun seen f => f.2.location.class_id :: seen) seen

variable (walk) in
def frames_trace (pre : Option StackPrefetch) (seen : List ReferenceTypeId) :
    List (ℕ × Frame) → List Item
  | [] => []
  | f :: rest =>
    frame_trace x walk pre seen f ++ frames_trace pre (f.2.location.class_id :: seen) rest

theorem does_frames (h : Agrees d walk.target_thread frames pre) {l : List (ℕ × Frame)}
    (hl : ∀ f ∈ l, f ∈ frames) (out : String × ℕ) (seen : List ReferenceTypeId) :
    Does d c (render_frames r walk out.1 ⟨names_in d c seen, out.2, pre⟩ l)
      ((l.foldl (frame_text x walk) out).1,
        ⟨names_in d c (seen_after seen l), (l.foldl (frame_text x walk) out).2, pre⟩)
      (frames_trace x walk pre seen l) := by
  induction l generalizing out seen with
  | nil => exact Does.done _
  | cons f l ih =>
    refine (does_frame x h (hl f List.mem_cons_self) out seen).bind ?_
    exact ih (fun g hg => hl g (List.mem_cons_of_mem f hg)) _ _

def names_trace (seen : List ReferenceTypeId) : List (ℕ × Frame) → List Item
  | [] => []
  | f :: rest => name_trace seen f.2.location.class_id ++
      names_trace (f.2.location.class_id :: seen) rest

variable (walk) in
theorem does_surviving (l : List (ℕ × Frame)) (seen : List ReferenceTypeId) :
    Does d c (surviving r walk (names_in d c seen) l)
      (l.filter fun f => passes (d := d) (c := c) (r := r) walk f, names_in d c (seen_after seen l))
      (names_trace seen l) := by
  induction l generalizing seen with
  | nil => exact Does.done _
  | cons f l ih =>
    refine (does_name seen f.2.location.class_id).bind ?_
    have hrest := (ih (f.2.location.class_id :: seen)).last fun p =>
      (if shown r walk (name_of d c f.2.location.class_id) then f :: p.1 else p.1, p.2)
    rw [List.filter_cons]
    exact hrest

end Walks

section Prefetching

variable (d : Debuggee) (c : TypeCache)

variable {κ α β : Type}

theorem put_all_map [DecidableEq κ] (entry : β → Option α) (g : κ → β) (keys : List κ)
    (entries : κ → Option α) (k : κ) :
    put_all entries entry (keys.zip (keys.map g)) k =
      if k ∈ keys then (entry (g k)).or (entries k) else entries k := by
  induction keys generalizing entries with
  | nil => rfl
  | cons key keys ih =>
    rw [List.map_cons, List.zip_cons_cons, put_all, ih]
    by_cases hk : k = key
    · subst hk
      cases entry (g k) <;> simp
    · simp [hk]

theorem put_all_some [DecidableEq κ] {entry : β → Option α} {l : List (κ × β)}
    {entries : κ → Option α} {k : κ} {a : α} (h : put_all entries entry l k = some a) :
    (∃ b, (k, b) ∈ l ∧ entry b = some a) ∨ entries k = some a := by
  induction l generalizing entries with
  | nil => exact .inr h
  | cons p l ih =>
    rcases ih h with ⟨b, hmem, hb⟩ | hentries
    · exact .inl ⟨b, List.mem_cons_of_mem p hmem, hb⟩
    · by_cases hk : k = p.1
      · rw [if_pos hk] at hentries
        rcases Option.or_eq_some_iff.mp hentries with hb | ⟨-, hold⟩
        · exact .inl ⟨p.2, by rw [hk]; exact List.mem_cons_self, hb⟩
        · exact .inr hold
      · rw [if_neg hk] at hentries
        exact .inr hentries

def reads_of (thread : ThreadId) (l : List (ℕ × Frame)) :
    List (ℕ × ThreadId × FrameId × List VariableSlot) :=
  (l.filter fun f => (method_at d c f.2.location).isSome ∧ locals_in d f.2.location ≠ []).map
    fun f => (f.1, thread, f.2.frame_id, (locals_in d f.2.location).map ActiveLocal.slot)

/-- The method lists that are looked up for the values. -/
def methods_trace (l : List (ℕ × Frame)) : List Item :=
  (l.filter fun f => (vars_of d (key_of f.2.location)).isOk).map fun f =>
    .looks (.methods f.2.location.class_id)

variable {d c}

theorem does_value_reads (thread : ThreadId) {vars : Method → Option (List Variable)}
    (l : List (ℕ × Frame))
    (hvars : ∀ f ∈ l, vars (key_of f.2.location) = (vars_of d (key_of f.2.location)).toOption) :
    Does d c (value_reads thread vars l) (reads_of d c thread l) (methods_trace d l) := by
  induction l with
  | nil => exact Does.done _
  | cons f l ih =>
    have hrest := ih fun g hg => hvars g (List.mem_cons_of_mem f hg)
    have hf := hvars f List.mem_cons_self
    unfold value_reads
    rw [show vars (f.2.location.class_id, f.2.location.method_id) = _ from hf]
    cases hv : vars_of d (key_of f.2.location) with
    | error e =>
      have hlocals : locals_in d f.2.location = [] := by
        rw [locals_in, hv]
        rfl
      rw [reads_of, methods_trace, List.filter_cons_of_neg (by simp [hlocals]),
        List.filter_cons_of_neg (by simp [hv, Except.isOk, Except.toBool])]
      exact hrest
    | ok table =>
      have hlocals : locals_in d f.2.location = active_locals table f.2.location.index := by
        rw [locals_in, hv]
        rfl
      rw [methods_trace, List.filter_cons_of_pos (by simp [hv, Except.isOk, Except.toBool])]
      refine Does.bind (t := [_]) (Does.look (.methods f.2.location.class_id)) ?_
      by_cases hreads : (method_at d c f.2.location).isSome ∧ locals_in d f.2.location ≠ []
      · have hcond : ¬ ((method_at d c f.2.location).isNone ∨
            (active_locals table f.2.location.index).map ActiveLocal.slot = []) := by
          rw [← hlocals]
          simpa [← Option.isSome_iff_ne_none] using hreads
        rw [reads_of, List.filter_cons_of_pos (by simpa using hreads), List.map_cons, hlocals]
        exact hrest.ends (if_neg hcond)
      · have hcond : (method_at d c f.2.location).isNone ∨
            (active_locals table f.2.location.index).map ActiveLocal.slot = [] := by
          rw [← hlocals]
          by_contra hnot
          exact hreads (by simpa [← Option.isSome_iff_ne_none] using hnot)
        rw [reads_of, List.filter_cons_of_neg (by simpa using hreads)]
        exact hrest.ends (if_pos hcond)

/-- The pairs that the generic command is not implemented for. -/
def refused (d : Debuggee) (pairs : List Method) : List Method :=
  (Positions.retries not_implemented (pairs.map (MetadataWaves.table d true)) pairs).map Prod.snd

variable (pairs : List Method) {f : ℕ × Frame}

theorem refused_length : pairs.length + (refused d pairs).length =
    (pairs.map fun m => (vars_trace d m).length).sum := by
  rw [refused, Positions.retries_snd]
  induction pairs with
  | nil => rfl
  | cons m pairs ih =>
    rw [List.map_cons, List.sum_cons, ← ih, List.filter_cons, vars_trace, either_requests]
    cases not_implemented (MetadataWaves.table d true m) <;> simp <;> omega

theorem fetches_tables :
    Fetches d (read_variable_tables_independently pairs) (pairs.map (vars_of d))
      (pairs.map (vars_request · true) ++ (refused d pairs).map (vars_request · false)) := by
  intro l
  refine ⟨MetadataWaves.tables_served d pairs l, ?_⟩
  have hwave (b : Bool) (ps : List Method) (l : Link) :
      Sent l ((variable_table_wave ps b).served (serve d) l).2 (ps.map (vars_request · b)) := by
    have h := (fetches_wave d 6 (variable_table_command b) (ps.map put_method)
      (decode_variable_table b) l).2
    rwa [List.map_map] at h
  have hgeneric := hwave true pairs l
  unfold read_variable_tables_independently
  rw [Program.served_bind, MetadataWaves.variable_table_wave_served]
  show Sent l ((if (Positions.retries not_implemented (pairs.map (MetadataWaves.table d true))
    pairs).isEmpty = true then _ else _ : Conn _).served (serve d) _).2 _
  by_cases hnone : (Positions.retries not_implemented (pairs.map (MetadataWaves.table d true))
      pairs).isEmpty = true
  · rw [if_pos hnone, refused, List.isEmpty_iff.mp hnone, List.map_nil, List.map_nil,
      List.append_nil]
    exact hgeneric
  · rw [if_neg hnone, Program.served_bind]
    have hdone {α : Type} (a : α) (s : Link) : (pure a : Conn α).served (serve d) s = (a, s) := rfl
    have hrefused : (Positions.retries not_implemented (pairs.map (MetadataWaves.table d true))
      pairs).map Prod.snd = refused d pairs := rfl
    rw [hdone, hrefused]
    exact hgeneric.trans (hwave false (refused d pairs) _)


theorem distinct_spec (l : List (ℕ × Frame)) : (distinct_methods l).Nodup ∧
    ∀ m, m ∈ distinct_methods l ↔ ∃ f ∈ l, key_of f.2.location = m := by
  have hfold (l : List (ℕ × Frame)) (pairs : List Method) (hpairs : pairs.Nodup) :
      (l.foldl (fun pairs f =>
        let key := (f.2.location.class_id, f.2.location.method_id)
        if pairs.contains key then pairs else pairs ++ [key]) pairs).Nodup ∧
      ∀ m, m ∈ l.foldl (fun pairs f =>
        let key := (f.2.location.class_id, f.2.location.method_id)
        if pairs.contains key then pairs else pairs ++ [key]) pairs ↔
        m ∈ pairs ∨ ∃ f ∈ l, key_of f.2.location = m := by
    induction l generalizing pairs with
    | nil => exact ⟨hpairs, by simp⟩
    | cons f l ih =>
      rw [List.foldl_cons]
      by_cases hmem : key_of f.2.location ∈ pairs
      · have hcond : pairs.contains (f.2.location.class_id, f.2.location.method_id) = true := by
          simpa [key_of] using hmem
        obtain ⟨hnodup, hiff⟩ := ih pairs hpairs
        simp only [hcond, if_true]
        refine ⟨hnodup, fun m => ?_⟩
        rw [hiff, List.exists_mem_cons_iff]
        constructor
        · rintro (h | h)
          · exact .inl h
          · exact .inr (.inr h)
        · rintro (h | rfl | h)
          · exact .inl h
          · exact .inl hmem
          · exact .inr h
      · have hcond : ¬ pairs.contains (f.2.location.class_id, f.2.location.method_id) = true := by
          simpa [key_of] using hmem
        have hnew : (pairs ++ [key_of f.2.location]).Nodup :=
          List.nodup_append.mpr ⟨hpairs, List.nodup_singleton _, by
            rintro a ha b hb rfl
            exact hmem (List.mem_singleton.mp hb ▸ ha)⟩
        obtain ⟨hnodup, hiff⟩ := ih _ hnew
        simp only [hcond]
        refine ⟨hnodup, fun m => ?_⟩
        have hiff' := hiff m
        rw [List.mem_append, List.mem_singleton, or_assoc] at hiff'
        rw [List.exists_mem_cons_iff]
        refine hiff'.trans ?_
        rw [eq_comm (a := m)]
  obtain ⟨hnodup, hiff⟩ := hfold l [] List.nodup_nil
  exact ⟨hnodup, fun m => (hiff m).trans (or_iff_right List.not_mem_nil)⟩

variable (d c)

def reads_values (r : ℕ × ThreadId × FrameId × List VariableSlot) : JdwpResult (List Value) :=
  values_of d r.2.1 r.2.2.1 r.2.2.2

/-- What comes of reading ahead for the frames. -/
def prefetched (thread : ThreadId) (l : List (ℕ × Frame)) (include_ : Bool) : StackPrefetch :=
  let pairs := distinct_methods l
  let lines := put_all StackPrefetch.default.lines (fun r => some r.toOption)
    (pairs.zip (pairs.map (lines_of d)))
  if include_ = false then { StackPrefetch.default with lines := lines }
  else ⟨lines, put_all StackPrefetch.default.vars Except.toOption
    (pairs.zip (pairs.map (vars_of d))), put_all StackPrefetch.default.values Except.toOption
      (((reads_of d c thread l).map Prod.fst).zip ((reads_of d c thread l).map (reads_values d)))⟩

def values_trace (thread : ThreadId) (l : List (ℕ × Frame)) : List Item :=
  (reads_of d c thread l).map fun r => values_request r.2.1 r.2.2.1 r.2.2.2

def prefetch_trace (thread : ThreadId) (l : List (ℕ × Frame)) (include_ : Bool) : List Item :=
  (distinct_methods l).map line_request ++
    if include_ = false then []
    else ((distinct_methods l).map (vars_request · true) ++
        (refused d (distinct_methods l)).map (vars_request · false)).map .sends ++
      (methods_trace d l ++ values_trace d c thread l)

variable {d c}

theorem does_line_tables :
    Does d c (read_line_tables_independently pairs) (pairs.map (lines_of d))
      (pairs.map line_request) := by
  have h := (fetches_wave d 6 1 (pairs.map put_method) read_line_table).does (c := c)
  rw [List.map_map, List.map_map, List.map_map] at h
  exact h

theorem does_frame_values (reads : List (ℕ × ThreadId × FrameId × List VariableSlot)) :
    Does d c (read_frame_values_independently (reads.map Prod.snd))
      (reads.map (reads_values d)) (reads.map fun r => values_request r.2.1 r.2.2.1 r.2.2.2) := by
  have h := (fetches_wave d 16 1 ((reads.map Prod.snd).map put_slots)
    (read_list read_tagged_value)).does (c := c)
  rw [List.map_map, List.map_map, List.map_map, List.map_map] at h
  unfold read_frame_values_independently
  rw [List.map_map]
  exact h

theorem does_prefetch (thread : ThreadId) (l : List (ℕ × Frame)) (include_ : Bool) :
    Does d c (prefetch_stack thread l include_) (prefetched d c thread l include_)
      (prefetch_trace d c thread l include_) := by
  refine (does_line_tables (distinct_methods l)).bind ?_
  rw [prefetched]
  cases include_ with
  | false => exact Does.done _
  | true =>
    simp only [Bool.not_true, Bool.false_eq_true, Bool.true_eq_false, if_false]
    refine (fetches_tables (distinct_methods l)).does.bind ?_
    refine (does_value_reads thread l fun f hf => ?_).bind ?_
    · have hmem := ((distinct_spec l).2 (key_of f.2.location)).mpr ⟨f, hf, rfl⟩
      rw [put_all_map, if_pos hmem]
      exact Option.or_none
    · exact (does_frame_values (reads_of d c thread l)).ends rfl

theorem put_all_isSome [DecidableEq κ] (entry : β → Option α) (l : List (κ × β))
    (entries : κ → Option α) (k : κ) : (put_all entries entry l k).isSome = true ↔
      (∃ p ∈ l, p.1 = k ∧ (entry p.2).isSome = true) ∨ (entries k).isSome = true := by
  induction l generalizing entries with
  | nil => simp [put_all]
  | cons p l ih =>
    rw [put_all, ih, List.exists_mem_cons_iff]
    by_cases hk : k = p.1
    · cases entry p.2 <;> simp [hk]
    · have hk' : ¬ p.1 = k := fun h => hk h.symm
      simp [hk, hk']

variable {thread : ThreadId} {l : List (ℕ × Frame)} {include_ : Bool}

variable {all : List (ℕ × Frame)}

theorem read_of_frame (hall : (all.map Prod.fst).Nodup) (hl : ∀ f ∈ l, f ∈ all) (hf : f ∈ all)
    {r : ℕ × ThreadId × FrameId × List VariableSlot} (hr : r ∈ reads_of d c thread l)
    (hidx : r.1 = f.1) : reads_values d r = values_in (d := d) thread f.2 := by
  obtain ⟨g, hg, rfl⟩ := List.mem_map.mp hr
  obtain rfl := List.inj_on_of_nodup_map hall (hl g (List.mem_filter.mp hg).1) hf hidx
  rfl

/-- What is read ahead for some frames agrees with what any frame would read. -/
theorem prefetched_agrees (hall : (all.map Prod.fst).Nodup) (hl : ∀ f ∈ l, f ∈ all) :
    Agrees d thread all (some (prefetched d c thread l include_)) where
  lines := by
    rintro p ⟨⟩ m t ht
    have hlines : (prefetched d c thread l include_).lines m =
        if m ∈ distinct_methods l then some (lines_of d m).toOption else none := by
      cases include_ <;> simp [prefetched, put_all_map, StackPrefetch.default]
    rw [hlines] at ht
    by_cases hm : m ∈ distinct_methods l
    · rw [if_pos hm] at ht
      exact (Option.some.inj ht).symm
    · rw [if_neg hm] at ht
      cases ht
  vars := by
    rintro p ⟨⟩ m t ht
    cases include_ with
    | false => simp [prefetched, StackPrefetch.default] at ht
    | true =>
      have hvars : (prefetched d c thread l true).vars m =
          if m ∈ distinct_methods l then (vars_of d m).toOption else none := by
        simp [prefetched, put_all_map, StackPrefetch.default]
      rw [hvars] at ht
      by_cases hm : m ∈ distinct_methods l
      · rw [if_pos hm] at ht
        cases hv : vars_of d m with
        | ok table =>
          rw [hv] at ht
          exact congrArg _ (Option.some.inj ht)
        | error e =>
          rw [hv] at ht
          cases ht
      · rw [if_neg hm] at ht
        cases ht
  values := by
    rintro p ⟨⟩ f hf vs hvs
    cases include_ with
    | false => simp [prefetched, StackPrefetch.default] at hvs
    | true =>
      rcases put_all_some hvs with ⟨b, hb, hok⟩ | hnone
      · rw [List.zip_map'] at hb
        obtain ⟨r, hr, hpair⟩ := List.mem_map.mp hb
        have hidx : r.1 = f.1 := congrArg Prod.fst hpair
        have hvalue : reads_values d r = b := congrArg Prod.snd hpair
        rw [read_of_frame hall hl hf hr hidx] at hvalue
        change values_in (d := d) thread f.2 = _
        rw [hvalue]
        cases b with
        | ok values => exact congrArg _ (Option.some.inj hok)
        | error e => cases hok
      · cases hnone

theorem prefetched_has_lines (hf : f ∈ l) :
    has_lines (some (prefetched d c thread l include_)) (key_of f.2.location) = true := by
  have hmem := ((distinct_spec l).2 (key_of f.2.location)).mpr ⟨f, hf, rfl⟩
  cases include_ <;> simp [has_lines, prefetched, put_all_map, hmem]

theorem prefetched_has_vars (hf : f ∈ l) :
    has_vars (some (prefetched d c thread l true)) (key_of f.2.location) =
      (vars_of d (key_of f.2.location)).isOk := by
  have hmem := ((distinct_spec l).2 (key_of f.2.location)).mpr ⟨f, hf, rfl⟩
  have hvars : (prefetched d c thread l true).vars (key_of f.2.location) =
      (vars_of d (key_of f.2.location)).toOption := by
    simp [prefetched, put_all_map, StackPrefetch.default, hmem]
  show ((prefetched d c thread l true).vars (key_of f.2.location)).isSome = _
  rw [hvars]
  cases vars_of d (key_of f.2.location) <;> rfl

theorem prefetched_has_values (hl : (l.map Prod.fst).Nodup) (hf : f ∈ l)
    (hmethod : (method_at d c f.2.location).isSome) (hlocals : locals_in d f.2.location ≠ []) :
    has_values (some (prefetched d c thread l true)) f.1 =
      (values_in (d := d) thread f.2).isOk := by
  have hread : (f.1, thread, f.2.frame_id, (locals_in d f.2.location).map ActiveLocal.slot) ∈
      reads_of d c thread l :=
    List.mem_map.mpr ⟨f, List.mem_filter.mpr ⟨hf, by simp [hmethod, hlocals]⟩, rfl⟩
  rw [Bool.eq_iff_iff]
  show (put_all StackPrefetch.default.values Except.toOption
    (((reads_of d c thread l).map Prod.fst).zip ((reads_of d c thread l).map (reads_values d)))
    f.1).isSome = true ↔ _
  rw [put_all_isSome, List.zip_map']
  constructor
  · rintro (⟨p, hp, hidx, hok⟩ | hnone)
    · obtain ⟨r, hr, rfl⟩ := List.mem_map.mp hp
      rw [← read_of_frame hl (fun _ h => h) hf hr hidx]
      cases hv : reads_values d r with
      | ok values => rfl
      | error e =>
        rw [hv] at hok
        cases hok
    · cases hnone
  · intro hok
    refine .inl ⟨_, List.mem_map.mpr ⟨_, hread, rfl⟩, rfl, ?_⟩
    change (values_in (d := d) thread f.2).toOption.isSome = true
    cases hv : values_in (d := d) thread f.2 with
    | ok values => rfl
    | error e =>
      rw [hv] at hok
      cases hok

end Prefetching

end JavaDebug.StackWaves
