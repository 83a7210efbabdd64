import JavaDebug.StackWaves

/-!
What a stack costs. Reading ahead asks for each method once where the frames
would ask each for itself, and for a frame's locals in its place; only what
cannot be read is asked for again. Where every frame's class lists its method,
nothing else is sent that the walk would not have sent.
-/
namespace JavaDebug.StackPackets

open Dialogue Connection Links ReadTraces KeptAnswers StackReads StackWaves
open ThreadDumps (filter_of)

section Paid

variable (d : Debuggee) (c : TypeCache)

/-- What is paid for each time. -/
def paid (t : List Item) : ℕ := heavy (kept d c) (weight d) (known c) t

variable {d c}

theorem paid_append (t t' : List Item) : paid d c (t ++ t') = paid d c t + paid d c t' :=
  heavy_append (weight d) t t'

theorem paid_cons (q : Item) (t : List Item) :
    paid d c (q :: t) = (if kept d c q || known c q then 0 else weight d q) + paid d c t :=
  heavy_cons (weight d) q t

theorem paid_sends (rs : List Links.Request) : paid d c (rs.map .sends) = rs.length := by
  induction rs with
  | nil => rfl
  | cons r rs ih =>
    rw [List.map_cons, paid_cons, ih, List.length_cons]
    exact Nat.add_comm 1 _

theorem paid_send (r : Links.Request) : paid d c [.sends r] = 1 := paid_sends [r]

/-- A method list that names the frame's method has been answered. -/
theorem paid_methods {location : Location} (h : (method_at d c location).isSome) (t : List Item) :
    paid d c (.looks (.methods location.class_id) :: t) = paid d c t := by
  have hkept : kept d c (.looks (.methods location.class_id)) = true := by
    rw [kept]
    rw [method_at, find_method] at h
    cases hv : (Lookup.methods location.class_id).value d c with
    | ok ms => rfl
    | error e =>
      rw [hv] at h
      cases h
  rw [paid_cons, hkept]
  exact Nat.zero_add _

end Paid

section Bodies

variable {d : Debuggee} {c : TypeCache} {r : Renderer} (x : Rendering d c r) (walk : StackWalk)

/-- The commands for a variable table. -/
def tries (d : Debuggee) (f : ℕ × Frame) : ℕ := (vars_trace d (key_of f.2.location)).length

theorem paid_vars (m : Method) : paid d c (vars_trace d m) = (vars_trace d m).length := by
  rw [vars_trace, paid_sends, List.length_map]

variable {f : ℕ × Frame}

/-- What one frame pays, by what was read ahead for it. -/
theorem paid_body (pre : Option StackPrefetch) (h : (method_at d c f.2.location).isSome) :
    paid d c (body_trace x walk pre f) =
      (if has_lines pre (key_of f.2.location) then 0 else 1) +
        (if walk.include_variables ∧ has_vars pre (key_of f.2.location) = false then tries d f
          else 0) +
        if Shows d c walk f.2 then
          (if has_values pre f.1 then 0 else 1) + paid d c (shown_trace x walk.target_thread f.2)
        else 0 := by
  rw [body_trace, paid_append, info_trace, paid_methods h, if_pos h, paid_append]
  congr 1
  · congr 1
    · split_ifs
      · rfl
      · exact paid_send _
    · split_ifs
      · exact paid_vars _
      · rfl
  · split_ifs with hs hv
    · rw [paid_append, own_values, if_pos hv]
      rfl
    · rw [paid_append, own_values, if_neg hv]
      exact congrArg (· + _) (paid_send _)
    · rfl

theorem paid_alone (h : (method_at d c f.2.location).isSome) :
    paid d c (body_trace x walk none f) =
      1 + (if walk.include_variables then tries d f else 0) +
        if Shows d c walk f.2 then 1 + paid d c (shown_trace x walk.target_thread f.2) else 0 := by
  rw [paid_body x walk none h]
  simp [has_lines, has_vars, has_values]

theorem paid_ahead {l : List (ℕ × Frame)} (hl : (l.map Prod.fst).Nodup) (hf : f ∈ l)
    (h : (method_at d c f.2.location).isSome) :
    paid d c (body_trace x walk
        (some (prefetched d c walk.target_thread l walk.include_variables)) f) =
      (if walk.include_variables ∧ (vars_of d (key_of f.2.location)).isOk = false then tries d f
        else 0) +
        if Shows d c walk f.2 then
          (if (values_in (d := d) walk.target_thread f.2).isOk then 0 else 1) +
            paid d c (shown_trace x walk.target_thread f.2)
        else 0 := by
  rw [paid_body x walk _ h, if_pos (prefetched_has_lines hf), Nat.zero_add]
  cases hinc : walk.include_variables with
  | false =>
    have hnot : ¬ Shows d c walk f.2 := by
      simp [Shows, hinc]
    rw [if_neg hnot, if_neg hnot]
    simp
  | true =>
    rw [prefetched_has_vars hf]
    by_cases hs : Shows d c walk f.2
    · rw [if_pos hs, if_pos hs, prefetched_has_values hl hf hs.2.1 hs.2.2]
    · rw [if_neg hs, if_neg hs]

end Bodies

section Sums

variable {d : Debuggee} {c : TypeCache} {r : Renderer} (x : Rendering d c r) (walk : StackWalk)

/-- Once for each method is at most once for each frame. -/
theorem sum_distinct_le (l : List (ℕ × Frame)) (g : Method → ℕ) :
    ((distinct_methods l).map g).sum ≤ (l.map fun f => g (key_of f.2.location)).sum := by
  obtain ⟨hnodup, hmem⟩ := distinct_spec l
  have hsub : distinct_methods l ⊆ l.map fun f => key_of f.2.location := by
    intro m hm
    obtain ⟨f, hf, rfl⟩ := (hmem m).mp hm
    exact List.mem_map_of_mem hf
  obtain ⟨l', hperm, hsublist⟩ := hnodup.subperm hsub
  have hle : (l'.map g).sum ≤ ((l.map fun f => key_of f.2.location).map g).sum :=
    (hsublist.map g).sum_le_sum fun _ _ => Nat.zero_le _
  rw [← (hperm.map g).sum_eq]
  rwa [List.map_map] at hle

def count (p : ℕ × Frame → Bool) (l : List (ℕ × Frame)) : ℕ :=
  (l.map fun f => if p f then 1 else 0).sum

/-- The variable tables of the frames that cannot be read. -/
def unread_tables (d : Debuggee) (l : List (ℕ × Frame)) : ℕ :=
  ((distinct_methods l).map fun m =>
    if (vars_of d m).isOk then 0 else (vars_trace d m).length).sum

/-- The frames whose locals are asked for and cannot be read. -/
def unread_values (d : Debuggee) (c : TypeCache) (walk : StackWalk) (l : List (ℕ × Frame)) : ℕ :=
  count (fun f => decide (Shows d c walk f.2) &&
    !(values_in (d := d) walk.target_thread f.2).isOk) l

theorem paid_requests {α : Type} (request : α → Links.Request) (l : List α) :
    paid d c (l.map fun a => .sends (request a)) = l.length := by
  have h := paid_sends (d := d) (c := c) (l.map request)
  rwa [List.map_map, List.length_map] at h

variable {l : List (ℕ × Frame)}

theorem paid_methods_trace (hl : ∀ f ∈ l, (method_at d c f.2.location).isSome) :
    paid d c (methods_trace d l) = 0 := by
  unfold methods_trace
  induction l with
  | nil => rfl
  | cons f l ih =>
    have hrest := ih fun g hg => hl g (List.mem_cons_of_mem f hg)
    rw [List.filter_cons]
    split_ifs
    · rw [List.map_cons, paid_methods (hl f List.mem_cons_self), hrest]
    · exact hrest

theorem reads_length (hinc : walk.include_variables = true) (l : List (ℕ × Frame)) :
    (reads_of d c walk.target_thread l).length =
      count (fun f => decide (Shows d c walk f.2)) l := by
  rw [reads_of, List.length_map, count]
  induction l with
  | nil => rfl
  | cons f l ih =>
    rw [List.map_cons, List.sum_cons, ← ih, List.filter_cons]
    by_cases hs : Shows d c walk f.2
    · have hread : (method_at d c f.2.location).isSome ∧ locals_in d f.2.location ≠ [] := hs.2
      simp [hread, hs, Nat.add_comm]
    · have hread : ¬ ((method_at d c f.2.location).isSome ∧ locals_in d f.2.location ≠ []) :=
        fun h => hs ⟨hinc, h⟩
      simp [hread, hs]

theorem paid_prefetch (hl : ∀ f ∈ l, (method_at d c f.2.location).isSome) :
    paid d c (prefetch_trace d c walk.target_thread l walk.include_variables) =
      (distinct_methods l).length +
        if walk.include_variables then
          ((distinct_methods l).map fun m => (vars_trace d m).length).sum +
            count (fun f => decide (Shows d c walk f.2)) l
        else 0 := by
  rw [prefetch_trace, paid_append]
  congr 1
  · exact paid_requests _ _
  · cases hinc : walk.include_variables with
    | false => rfl
    | true =>
      have hvalues : paid d c (values_trace d c walk.target_thread l) =
          count (fun f => decide (Shows d c walk f.2)) l := by
        rw [← reads_length walk hinc]
        exact paid_requests _ _
      rw [if_neg Bool.noConfusion, if_pos rfl, paid_append, paid_append, paid_sends,
        paid_methods_trace hl, hvalues, ← refused_length, List.length_append, List.length_map,
        List.length_map, Nat.zero_add]

theorem ahead_le (hnodup : (l.map Prod.fst).Nodup)
    (hl : ∀ f ∈ l, (method_at d c f.2.location).isSome) :
    paid d c (prefetch_trace d c walk.target_thread l walk.include_variables) +
        (l.map fun f => paid d c (body_trace x walk
          (some (prefetched d c walk.target_thread l walk.include_variables)) f)).sum ≤
      (l.map fun f => paid d c (body_trace x walk none f)).sum +
        if walk.include_variables then unread_tables d l + unread_values d c walk l else 0 := by
  have hlines := sum_distinct_le l fun _ => 1
  have hvars := sum_distinct_le l fun m =>
    if (vars_of d m).isOk then (vars_trace d m).length else 0
  have hsplit : ((distinct_methods l).map fun m => (vars_trace d m).length).sum =
      ((distinct_methods l).map fun m =>
        if (vars_of d m).isOk then (vars_trace d m).length else 0).sum + unread_tables d l := by
    rw [unread_tables, ← List.sum_map_add]
    congr 1
    refine List.map_congr_left fun m _ => ?_
    split_ifs <;> omega
  rw [paid_prefetch walk hl, List.map_congr_left fun f hf => paid_ahead x walk hnodup hf (hl f hf),
    List.map_congr_left fun f hf => paid_alone x walk (hl f hf)]
  cases hinc : walk.include_variables with
  | false =>
    have hnot (f : ℕ × Frame) : ¬ Shows d c walk f.2 := by
      simp [Shows, hinc]
    simp only [hnot, if_false, Bool.false_eq_true, false_and, Nat.add_zero]
    simpa using hlines
  | true =>
    -- What a frame reads for itself, beside what is left to it.
    have hframe (f : ℕ × Frame) :
        (if true = true ∧ (vars_of d (key_of f.2.location)).isOk = false then tries d f else 0) +
            (if Shows d c walk f.2 then
              (if (values_in (d := d) walk.target_thread f.2).isOk then 0 else 1) +
                paid d c (shown_trace x walk.target_thread f.2)
            else 0) +
          (1 + ((if (vars_of d (key_of f.2.location)).isOk then tries d f else 0) +
            if decide (Shows d c walk f.2) then 1 else 0)) =
        (1 + (if true = true then tries d f else 0) +
            if Shows d c walk f.2 then 1 + paid d c (shown_trace x walk.target_thread f.2) else 0) +
          if decide (Shows d c walk f.2) &&
            !(values_in (d := d) walk.target_thread f.2).isOk then 1 else 0 := by
      cases (vars_of d (key_of f.2.location)).isOk <;>
        cases (values_in (d := d) walk.target_thread f.2).isOk <;>
        by_cases hs : Shows d c walk f.2 <;> simp [hs] <;> omega
    have hsum := congrArg List.sum (List.map_congr_left (l := l) fun f _ => hframe f)
    simp only [List.sum_map_add] at hsum
    have hlength : ((distinct_methods l).map fun _ => 1).sum = (distinct_methods l).length := by
      simp
    rw [hlength] at hlines
    have htries : (l.map fun f => if (vars_of d (key_of f.2.location)).isOk then
        (vars_trace d (key_of f.2.location)).length else 0).sum =
        (l.map fun f => if (vars_of d (key_of f.2.location)).isOk then tries d f else 0).sum := rfl
    rw [htries] at hvars
    rw [if_pos rfl, if_pos rfl, hsplit, unread_values, count, count]
    simp only [List.sum_map_add]
    omega

end Sums

section Walking

variable {d : Debuggee} {c : TypeCache} {r : Renderer} (x : Rendering d c r) (walk : StackWalk)

/-- The frames that are rendered. -/
def passing (d : Debuggee) (c : TypeCache) (r : Renderer) (walk : StackWalk) (l : List (ℕ × Frame))
    : List (ℕ × Frame) :=
  l.filter fun f => passes (d := d) (c := c) (r := r) walk f

theorem paid_frames (pre : Option StackPrefetch) (seen : List ReferenceTypeId)
    (l : List (ℕ × Frame)) : paid d c (frames_trace x walk pre seen l) =
      paid d c (names_trace seen l) +
        ((passing d c r walk l).map fun f => paid d c (body_trace x walk pre f)).sum := by
  induction l generalizing seen with
  | nil => rfl
  | cons f l ih =>
    rw [frames_trace, names_trace, paid_append, paid_append, ih, frame_trace, paid_append, passing,
      passing, List.filter_cons]
    split_ifs
    · rw [List.map_cons, List.sum_cons]
      omega
    · have hnil : paid d c [] = 0 := rfl
      rw [hnil]
      omega

variable {seen : List ReferenceTypeId} {l : List (ℕ × Frame)}

theorem mem_seen_after {id : ReferenceTypeId} (h : id ∈ seen ∨ ∃ f ∈ l, f.2.location.class_id = id)
    : id ∈ seen_after seen l := by
  induction l generalizing seen with
  | nil => simpa [seen_after] using h
  | cons f l ih =>
    refine ih ?_
    rw [List.exists_mem_cons_iff] at h
    rcases h with h | rfl | h
    · exact .inl (List.mem_cons_of_mem _ h)
    · exact .inl List.mem_cons_self
    · exact .inr h

theorem names_trace_known (h : ∀ f ∈ l, f.2.location.class_id ∈ seen) :
    names_trace seen l = [] := by
  induction l generalizing seen with
  | nil => rfl
  | cons f l ih =>
    rw [names_trace, name_trace, if_pos (h f List.mem_cons_self), List.nil_append]
    exact ih fun g hg => List.mem_cons_of_mem _ (h g (List.mem_cons_of_mem f hg))

/-- The classes whose signature cannot be read. -/
def unread_names (d : Debuggee) (c : TypeCache) (l : List (ℕ × Frame)) : ℕ :=
  ((l.map fun f => f.2.location.class_id).dedup.map fun id =>
    if ((Lookup.signature id).value d c).isOk then 0 else 1).sum

theorem known_kept {k : Lookup} (h : known c (.looks k) = true) : kept d c (.looks k) = true := by
  rw [kept, Lookup.value]
  rw [known] at h
  obtain ⟨v, hv⟩ := Option.isSome_iff_exists.mp h
  rw [hv]
  rfl

theorem paid_signatures (ids : List ReferenceTypeId) : paid d c (ids.map looks_signature) =
    (ids.map fun id => if ((Lookup.signature id).value d c).isOk then 0 else 1).sum := by
  induction ids with
  | nil => rfl
  | cons id ids ih =>
    rw [List.map_cons, paid_cons, ih, List.map_cons, List.sum_cons]
    congr 1
    have hkept : kept d c (looks_signature id) = ((Lookup.signature id).value d c).isOk := rfl
    cases hk : known c (looks_signature id) with
    | true =>
      have hok : ((Lookup.signature id).value d c).isOk = true := known_kept (d := d) hk
      simp [hok]
    | false =>
      rw [hkept]
      cases ((Lookup.signature id).value d c).isOk <;> rfl

def waved_trace (l : List (ℕ × Frame)) : List Item :=
  (l.map fun f => f.2.location.class_id).dedup.map looks_signature ++
    (names_trace [] l ++
      (prefetch_trace d c walk.target_thread (passing d c r walk l) walk.include_variables ++
        frames_trace x walk (some (prefetched d c walk.target_thread (passing d c r walk l)
          walk.include_variables)) (seen_after [] l) l))

variable (output : String)

def walk_text (l : List (ℕ × Frame)) : String :=
  flush_hidden (l.foldl (frame_text x walk) (output, 0)).1
    (l.foldl (frame_text x walk) (output, 0)).2

theorem names_in_nil : names_in d c [] = fun _ => none := by
  funext id
  simp [names_in]

theorem does_alone (l : List (ℕ × Frame)) :
    Does d c (walk_frames r false walk output l) (walk_text x walk output l)
      (frames_trace x walk none [] l) := by
  have hagrees : Agrees d walk.target_thread l none := by
    constructor <;> rintro p ⟨⟩
  have hframes := does_frames x hagrees (fun _ h => h) (output, 0) []
  rw [names_in_nil] at hframes
  exact hframes.ends rfl

theorem does_waved (hl : (l.map Prod.fst).Nodup) :
    Does d c (walk_frames r true walk output l) (walk_text x walk output l)
      (waved_trace x walk l) := by
  have hagrees : Agrees d walk.target_thread l
      (some (prefetched d c walk.target_thread (passing d c r walk l) walk.include_variables)) :=
    prefetched_agrees hl fun f hf => (List.mem_filter.mp hf).1
  have hframes := does_frames x hagrees (fun _ h => h) (output, 0) (seen_after [] l)
  have hsurviving := does_surviving (d := d) (c := c) (r := r) walk l []
  rw [names_in_nil] at hsurviving
  have hprefetch := does_prefetch (d := d) (c := c) walk.target_thread (passing d c r walk l)
    walk.include_variables
  have hstate : Does d c (walk_state r true walk l) ⟨names_in d c (seen_after [] l), 0,
      some (prefetched d c walk.target_thread (passing d c r walk l) walk.include_variables)⟩
      ((l.map fun f => f.2.location.class_id).dedup.map looks_signature ++ (names_trace [] l ++
        prefetch_trace d c walk.target_thread (passing d c r walk l) walk.include_variables)) :=
    (Does.signatures _).after fun _ => hsurviving.bind (hprefetch.ends rfl)
  have hwalk : Does d c (walk_frames r true walk output l) (walk_text x walk output l) _ :=
    hstate.bind (hframes.ends rfl)
  rw [List.append_assoc, List.append_assoc] at hwalk
  exact hwalk

variable {q : Item}

theorem mem_frames {pre : Option StackPrefetch} : q ∈ frames_trace x walk pre seen l ↔
      q ∈ names_trace seen l ∨ ∃ f ∈ passing d c r walk l, q ∈ body_trace x walk pre f := by
  induction l generalizing seen with
  | nil => simp [frames_trace, names_trace, passing]
  | cons f l ih =>
    rw [frames_trace, names_trace, List.mem_append, ih, List.mem_append, frame_trace,
      List.mem_append, passing, passing, List.filter_cons]
    split_ifs
    · rw [List.exists_mem_cons_iff]
      constructor
      · rintro ((h | h) | h | h)
        · exact .inl (.inl h)
        · exact .inr (.inl h)
        · exact .inl (.inr h)
        · exact .inr (.inr h)
      · rintro ((h | h) | h | h)
        · exact .inl (.inl h)
        · exact .inr (.inl h)
        · exact .inl (.inr h)
        · exact .inr (.inr h)
    · constructor
      · rintro ((h | h) | h | h)
        · exact .inl (.inl h)
        · cases h
        · exact .inl (.inr h)
        · exact .inr h
      · rintro ((h | h) | h)
        · exact .inl (.inl h)
        · exact .inr (.inl h)
        · exact .inr (.inr h)

theorem mem_names {f : ℕ × Frame} (hf : f ∈ l) (hnew : f.2.location.class_id ∉ seen) :
    looks_signature f.2.location.class_id ∈ names_trace seen l := by
  induction l generalizing seen with
  | nil => cases hf
  | cons g l ih =>
    rw [names_trace, List.mem_append]
    by_cases hsame : f.2.location.class_id = g.2.location.class_id
    · left
      rw [name_trace, if_neg (hsame ▸ hnew), hsame]
      exact List.mem_singleton_self _
    · right
      rcases List.mem_cons.mp hf with rfl | hf
      · exact absurd rfl hsame
      · refine ih hf ?_
        rw [List.mem_cons]
        exact not_or.mpr ⟨hsame, hnew⟩

/-- What is kept of a frame's reads does not depend on what was read ahead. -/
theorem kept_of_body {pre : Option StackPrefetch} {f : ℕ × Frame} (hq : q ∈ body_trace x walk pre f)
    (hkept : kept d c q = true) : q ∈ body_trace x walk none f := by
  have hvars (m : Method) : q ∉ vars_trace d m := by
    intro h
    obtain ⟨_, -, rfl⟩ := List.mem_map.mp h
    cases hkept
  rw [body_trace, List.mem_append] at hq ⊢
  rcases hq with hq | hq
  · left
    rcases List.mem_cons.mp hq with rfl | hq
    · exact List.mem_cons_self
    · split_ifs at hq
      · exact absurd hq (by simp [hvars])
      · exact absurd hq (by simp)
      · rcases List.mem_append.mp hq with h | h
        · obtain rfl := List.mem_singleton.mp h
          cases hkept
        · exact absurd h (hvars _)
      · obtain rfl := List.mem_singleton.mp ((List.append_nil _).symm ▸ hq)
        cases hkept
      · cases hq
  · right
    split_ifs at hq ⊢
    · rw [List.mem_append] at hq ⊢
      rcases hq with hq | hq
      · rw [own_values] at hq
        split_ifs at hq
        · cases hq
        · obtain rfl := List.mem_singleton.mp hq
          cases hkept
      · exact .inr hq
    · cases hq

theorem kept_in_alone (hq : q ∈ waved_trace x walk l) (hkept : kept d c q = true) :
    q ∈ frames_trace x walk none [] l := by
  rw [mem_frames]
  rw [waved_trace, List.mem_append, List.mem_append, List.mem_append, mem_frames] at hq
  rcases hq with hq | hq | hq | hq | ⟨f, hf, hq⟩
  · obtain ⟨id, hid, rfl⟩ := List.mem_map.mp hq
    obtain ⟨f, hf, rfl⟩ := List.mem_map.mp (List.mem_dedup.mp hid)
    exact .inl (mem_names hf List.not_mem_nil)
  · exact .inl hq
  · rw [prefetch_trace, List.mem_append] at hq
    rcases hq with hq | hq
    · obtain ⟨_, -, rfl⟩ := List.mem_map.mp hq
      cases hkept
    · split_ifs at hq
      · cases hq
      · rw [List.mem_append, List.mem_append] at hq
        rcases hq with hq | hq | hq
        · obtain ⟨_, -, rfl⟩ := List.mem_map.mp hq
          cases hkept
        · obtain ⟨f, hf, rfl⟩ := List.mem_map.mp hq
          refine .inr ⟨f, (List.mem_filter.mp hf).1, ?_⟩
          exact List.mem_append_left _ List.mem_cons_self
        · obtain ⟨_, -, rfl⟩ := List.mem_map.mp hq
          cases hkept
  · rw [names_trace_known fun f hf => mem_seen_after (.inr ⟨f, hf, rfl⟩)] at hq
    cases hq
  · exact .inr ⟨f, hf, kept_of_body x walk hq hkept⟩

theorem waved_le (hl : (l.map Prod.fst).Nodup)
    (hlisted : ∀ f ∈ passing d c r walk l, (method_at d c f.2.location).isSome) :
    paid d c (waved_trace x walk l) ≤ paid d c (frames_trace x walk none [] l) +
      (unread_names d c l + if walk.include_variables then
        unread_tables d (passing d c r walk l) + unread_values d c walk (passing d c r walk l)
      else 0) := by
  have hnodup : ((passing d c r walk l).map Prod.fst).Nodup :=
    hl.sublist (List.filter_sublist.map _)
  have hahead := ahead_le x walk hnodup hlisted
  have hnil : names_trace (seen_after [] l) l = [] :=
    names_trace_known fun f hf => mem_seen_after (.inr ⟨f, hf, rfl⟩)
  have hempty : paid d c [] = 0 := rfl
  rw [waved_trace, paid_append, paid_append, paid_append, paid_frames, paid_frames, hnil, hempty,
    paid_signatures, ← unread_names]
  omega

end Walking

section Calls

variable (d : Debuggee) (c : TypeCache) (r : Renderer) (a : ShallowCall)

def target_of : Except String ThreadId :=
  match a.args.thread_id.or a.last_thread with
  | some tid => .ok tid
  | none =>
    match said d 1 4 [] (read_list read_u64) with
    | .error e => .error ("Failed to get threads: " ++ r.error_text e)
    | .ok [] => .error "No threads found"
    | .ok (tid :: _) => .ok tid

variable (thread : ThreadId)

def all_frames : JdwpResult (List Frame) :=
  said d 11 6 (RequestFraming.put_u64 thread ++ RequestFraming.put_i32 0 ++
    RequestFraming.put_i32 (-1)) (read_list read_frame)

/-- The frames up to the limit, with their indices. -/
def call_frames : List (ℕ × Frame) :=
  (((all_frames d thread).toOption.getD []).take a.args.max_frames).zipIdx.map Prod.swap

def call_walk : StackWalk :=
  ⟨thread, filter_of r.to_lowercase a.args.package_filter, a.args.include_variables⟩

def rendered : List (ℕ × Frame) :=
  passing d c r (call_walk r a thread) (call_frames d a thread)

/-- The class of every rendered frame lists the frame's method. -/
def Listed : Prop :=
  ∀ thread, target_of d r a = .ok thread → ∀ f ∈ rendered d c r a thread,
    (method_at d c f.2.location).isSome

/-- What cannot be read and is asked for once more: the signatures of the classes, and the variable
tables and the locals of the rendered frames. -/
def asked_again : ℕ :=
  match target_of d r a with
  | .error _ => 0
  | .ok thread =>
    unread_names d c (call_frames d a thread) +
      if a.args.include_variables then
        unread_tables d (rendered d c r a thread) +
          unread_values d c (call_walk r a thread) (rendered d c r a thread)
      else 0

/-- None of that is refused. -/
structure Answered : Prop where
  names : ∀ f ∈ call_frames d a thread,
    ((Lookup.signature f.2.location.class_id).value d c).isOk
  tables : ∀ m ∈ distinct_methods (rendered d c r a thread), (vars_of d m).isOk
  values : ∀ f ∈ rendered d c r a thread, Shows d c (call_walk r a thread) f.2 →
    (values_in (d := d) thread f.2).isOk

variable {d c r a}

theorem asked_again_zero (h : ∀ thread, target_of d r a = .ok thread → Answered d c r a thread) :
    asked_again d c r a = 0 := by
  unfold asked_again
  cases htarget : target_of d r a with
  | error e => rfl
  | ok thread =>
    obtain ⟨hnames, htables, hvalues⟩ := h thread htarget
    have hn : unread_names d c (call_frames d a thread) = 0 := by
      refine List.sum_eq_zero fun n hn => ?_
      obtain ⟨id, hid, rfl⟩ := List.mem_map.mp hn
      obtain ⟨f, hf, rfl⟩ := List.mem_map.mp (List.mem_dedup.mp hid)
      exact if_pos (hnames f hf)
    have ht : unread_tables d (rendered d c r a thread) = 0 := by
      refine List.sum_eq_zero fun n hn => ?_
      obtain ⟨m, hm, rfl⟩ := List.mem_map.mp hn
      exact if_pos (htables m hm)
    have hv : unread_values d c (call_walk r a thread) (rendered d c r a thread) = 0 := by
      refine List.sum_eq_zero fun n hn => ?_
      obtain ⟨f, hf, rfl⟩ := List.mem_map.mp hn
      refine if_neg fun hmissed => ?_
      simp only [Bool.and_eq_true, decide_eq_true_eq, Bool.not_eq_true'] at hmissed
      exact Bool.false_ne_true (hmissed.2.symm.trans (hvalues f hf hmissed.1))
    simp only [hn, ht, hv, ite_self]

theorem does_target : ∃ t, Does d c (resolve_target_thread r a.args.thread_id a.last_thread)
    (target_of d r a) t := by
  rw [resolve_target_thread, target_of]
  cases a.args.thread_id.or a.last_thread with
  | some tid => exact ⟨[], Does.done _⟩
  | none =>
    refine ⟨_, (fetches_command d 1 4 [] (read_list read_u64)).does.ends ?_⟩
    cases said d 1 4 [] (read_list read_u64) with
    | error e => rfl
    | ok tids => cases tids <;> rfl

theorem indices_once : ((call_frames d a thread).map Prod.fst).Nodup := by
  rw [call_frames, List.map_map]
  change ((List.zipIdx _).map Prod.snd).Nodup
  rw [List.zipIdx_map_snd]
  exact List.nodup_range'

/-- The second list asks for everything that is kept, and the first for at most `n` more. -/
structure Spares (d : Debuggee) (c : TypeCache) (waved alone : List Item) (n : ℕ) : Prop where
  asked : ∀ q ∈ waved, kept d c q = true → q ∈ alone
  paid_le : paid d c waved ≤ paid d c alone + n

theorem Spares.same (t : List Item) (n : ℕ) : Spares d c t t n :=
  ⟨fun _ hq _ => hq, Nat.le_add_right _ n⟩

theorem Spares.after {waved alone : List Item} {n : ℕ} (h : Spares d c waved alone n)
    (t : List Item) : Spares d c (t ++ waved) (t ++ alone) n where
  asked q hq hkept := by
    rw [List.mem_append] at hq ⊢
    exact hq.imp_right fun hq => h.asked q hq hkept
  paid_le := by
    have hle := h.paid_le
    rw [paid_append, paid_append]
    omega

theorem call_does : ∃ text waved alone, Does d c (handle_get_stack r true a) text waved ∧
    Does d c (handle_get_stack r false a) text alone ∧
    (Listed d c r a → Spares d c waved alone (asked_again d c r a)) := by
  obtain ⟨x⟩ := rendering_exists d c r
  obtain ⟨t, htarget⟩ := does_target (d := d) (c := c) (r := r) (a := a)
  cases hthread : target_of d r a with
  | error e =>
    rw [hthread] at htarget
    exact ⟨_, t, t, htarget.ends rfl, htarget.ends rfl, fun _ => Spares.same _ _⟩
  | ok thread =>
    rw [hthread] at htarget
    have hframes := (fetches_command d 11 6 (RequestFraming.put_u64 thread ++
      RequestFraming.put_i32 0 ++ RequestFraming.put_i32 (-1)) (read_list read_frame)).does (c := c)
    generalize [((11, 6, RequestFraming.put_u64 thread ++ RequestFraming.put_i32 0 ++
      RequestFraming.put_i32 (-1)) : Links.Request)].map Item.sends = t' at hframes
    cases hall : all_frames d thread with
    | error e =>
      rw [all_frames] at hall
      rw [hall] at hframes
      exact ⟨_, _, _, htarget.bind (hframes.ends rfl), htarget.bind (hframes.ends rfl),
        fun _ => Spares.same _ _⟩
    | ok all =>
      have hcall : call_frames d a thread =
          ((all.take a.args.max_frames).zipIdx.map Prod.swap) := by
        rw [call_frames, hall]
        rfl
      rw [all_frames] at hall
      rw [hall] at hframes
      by_cases hempty : (all.take a.args.max_frames).isEmpty = true
      · refine ⟨_, _, _, htarget.bind (hframes.ends (if_pos hempty)),
          htarget.bind (hframes.ends (if_pos hempty)), fun _ => Spares.same _ _⟩
      · have hwalk (waves : Bool) {text : String} {tail : List Item}
            (h : Does d c (walk_frames r waves (call_walk r a thread)
              (header a (filter_of r.to_lowercase a.args.package_filter) thread
                (all.take a.args.max_frames).length) (call_frames d a thread)) text tail) :
            Does d c (handle_get_stack r waves a) (.ok text) (t ++ (t' ++ tail)) := by
          refine htarget.bind (hframes.bind ?_)
          rw [hcall] at h
          simp only [if_neg hempty]
          exact h.last Except.ok
        refine ⟨_, _, _, hwalk true (does_waved x _ _ (indices_once thread)),
          hwalk false (does_alone x _ _ _), fun hlisted => ?_⟩
        refine Spares.after (Spares.after ⟨fun q hq hkept => kept_in_alone x _ hq hkept, ?_⟩ _) t
        have hle := waved_le x (call_walk r a thread) (indices_once thread) (hlisted thread hthread)
        rw [asked_again, hthread]
        exact hle

/-- A stack read in waves is the stack read frame by frame, and nothing more is sent but for what
cannot be read. -/
theorem waved_stack_reads_alike (d : Debuggee) (r : Renderer) (a : ShallowCall) (l : Link) :
    ((handle_get_stack r true a).served (serve d) l).1 =
        ((handle_get_stack r false a).served (serve d) l).1 ∧
      (Listed d l.shared.types r a →
        packets ((handle_get_stack r true a).served (serve d) l).2 ≤
          packets ((handle_get_stack r false a).served (serve d) l).2 +
            asked_again d l.shared.types r a) := by
  obtain ⟨text, waved, alone, hwaved, halone, hspares⟩ :=
    call_does (d := d) (c := l.shared.types) (r := r) (a := a)
  obtain ⟨hval, -, -, hpackets⟩ := hwaved l fun _ => rfl
  obtain ⟨hval', -, -, hpackets'⟩ := halone l fun _ => rfl
  refine ⟨hval.trans hval'.symm, fun hlisted => ?_⟩
  have h := hspares hlisted
  have hcost := cost_le (weight d) h.asked h.paid_le
  omega

end Calls

section Refused

def plain_renderer : Renderer where
  to_lowercase := id
  error_text _ := ""
  render_value _ := pure "?"
  reading _ := Program.Composed.done "?"

/-- A thread with one frame, in method 3 of class `A`. The tables and values are refused. -/
def one_frame (methods : Octets.Bytes) : Debuggee
  | (11, 6, _) => .ok (0, Octets.put 4 1 ++ Octets.put 8 1 ++ [1] ++ Octets.put 8 2 ++
      Octets.put 8 3 ++ Octets.put 8 0)
  | (2, 1, _) => .ok (0, Octets.put 4 3 ++ [76, 65, 59])
  | (2, 15, _) => .ok (0, methods)
  | _ => .ok (101, [])

/-- Method 3 is `m`, compiled without debug information. -/
def bare_method : Octets.Bytes :=
  Octets.put 4 1 ++ Octets.put 8 3 ++ Octets.put 4 1 ++ [109] ++ Octets.put 4 0 ++
    Octets.put 4 0 ++ Octets.put 4 1

def plain_call : ShallowCall := ⟨⟨some 1, 20, true, none, false⟩, none, false, by decide⟩

def fresh_link : Link :=
  ⟨⟨false, 0, 0, 0, ⟨fun _ => none, fun _ => none, fun _ => none, fun _ => .unknown,
    fun _ => none⟩⟩, []⟩

/-- A variable table that is refused is asked for once more, and the tables of a method that its
class does not list are asked for although no frame would have. -/
theorem waves_can_send_more :
    packets ((handle_get_stack plain_renderer false plain_call).served
        (serve (one_frame bare_method)) fresh_link).2 <
      packets ((handle_get_stack plain_renderer true plain_call).served
        (serve (one_frame bare_method)) fresh_link).2 ∧
    packets ((handle_get_stack plain_renderer false plain_call).served
        (serve (one_frame (Octets.put 4 0))) fresh_link).2 <
      packets ((handle_get_stack plain_renderer true plain_call).served
        (serve (one_frame (Octets.put 4 0))) fresh_link).2 := by
  decide +kernel

end Refused

end JavaDebug.StackPackets
