import JavaDebug.Redefinitions

/-!
What is left of a session's redefinitions. A report lists every class that was
redefined once, with how often it was and whether one of its frames was popped since,
in every state of a run just when each reload is called by the name the class has in
the debuggee, its count has room, and each pop reads the name of its frame's class,
unless the record says popped already.
-/
namespace JavaDebug.Residues

open Addressing ClassNames LoaderPins Redefinitions

section Meaning

variable (signatures : UInt64 → Text)

/-- The name that a type has in the debuggee, which gives it this signature. -/
def name (id : UInt64) : Text := decode_signature (signatures id)

/-- How often a class of this name was redefined. -/
def swaps (class_name : Text) : List Event → ℕ
  | [] => 0
  | .swapped id :: done =>
    swaps class_name done + if name signatures id = class_name then 1 else 0
  | .popped _ :: done => swaps class_name done

/-- Whether a frame of the class was popped after it was last redefined. -/
def popped (class_name : Text) : List Event → Bool
  | [] => false
  | .swapped id :: done => if name signatures id = class_name then false else popped class_name done
  | .popped id :: done => decide (name signatures id = class_name) || popped class_name done

/-- What a report has to say about a class. -/
def owed (done : List Event) (class_name : Text) : Option (ℕ × Bool) :=
  if swaps signatures class_name done = 0 then none
  else some (swaps signatures class_name done, popped signatures class_name done)

/-- The rows of the report, one for each class. -/
structure Exact (w : World) : Prop where
  once : (w.session.redefinitions.toList.map Prod.fst).Nodup
  rows : ∀ class_name count popped_since,
    (∃ r, (class_name, r) ∈ w.session.redefinitions.toList ∧
      (r.count.toNat, r.popped_since) = (count, popped_since)) ↔
      owed signatures w.done class_name = some (count, popped_since)

/-- What the record has to say about a class. -/
def told (held : Held) (class_name : Text) : Option (ℕ × Bool) :=
  held[class_name]?.map fun r => (r.count.toNat, r.popped_since)

theorem exact_iff (w : World) : Exact signatures w ↔
    ∀ class_name, told w.session.redefinitions class_name = owed signatures w.done class_name := by
  have hrow (class_name : Text) (row : ℕ × Bool) :
      (∃ r, (class_name, r) ∈ w.session.redefinitions.toList ∧
        (r.count.toNat, r.popped_since) = row) ↔
      told w.session.redefinitions class_name = some row := by
    simp only [told, Option.map_eq_some_iff, Std.TreeMap.mem_toList_iff_getElem?_eq_some]
  constructor
  · intro h class_name
    refine Option.ext fun row => ?_
    obtain ⟨count, popped_since⟩ := row
    rw [← h.rows, hrow]
  · intro h
    refine ⟨?_, fun class_name count popped_since => ?_⟩
    · rw [List.Nodup, List.pairwise_map]
      refine Std.TreeMap.distinct_keys_toList.imp ?_
      intro a b hab heq
      exact hab (Std.LawfulEqCmp.compare_eq_iff_eq.mpr heq)
    · rw [hrow, h]

end Meaning

section Steps

variable {signatures : UInt64 → Text}

theorem told_swap (held : Held) (key : Text) (moment : ℕ) (class_name : Text) :
    told (note_swap held key moment) class_name =
      if key = class_name then some ((((told held key).map Prod.fst).getD 0 + 1) % 2 ^ 32, false)
      else told held class_name := by
  rw [told, note_swap, Std.TreeMap.getElem?_alter]
  by_cases h : key = class_name
  · subst h
    rw [if_pos Std.ReflCmp.compare_self, if_pos rfl, told]
    cases held[key]? <;> simp [UInt32.toNat_add]
  · rw [if_neg fun heq => h (Std.LawfulEqCmp.compare_eq_iff_eq.mp heq), if_neg h, told]

theorem told_pop (held : Held) (key class_name : Text) :
    told (note_pop held key) class_name =
      if key = class_name then (told held key).map fun row => (row.1, true)
      else told held class_name := by
  rw [told, note_pop, Std.TreeMap.getElem?_modify]
  by_cases h : key = class_name
  · subst h
    rw [if_pos Std.ReflCmp.compare_self, if_pos rfl, told]
    cases held[key]? <;> rfl
  · rw [if_neg fun heq => h (Std.LawfulEqCmp.compare_eq_iff_eq.mp heq), if_neg h, told]

variable (done : List Event)

theorem owed_swap (id : UInt64) (class_name : Text) :
    owed signatures (.swapped id :: done) class_name =
      if name signatures id = class_name then some (swaps signatures class_name done + 1, false)
      else owed signatures done class_name := by
  by_cases h : name signatures id = class_name
  · simp only [owed, swaps, popped, if_pos h, Nat.succ_ne_zero, if_false]
  · simp only [owed, swaps, popped, if_neg h, Nat.add_zero]

theorem owed_count (class_name : Text) :
    ((owed signatures done class_name).map Prod.fst).getD 0 = swaps signatures class_name done := by
  unfold owed
  by_cases hzero : swaps signatures class_name done = 0
  · rw [if_pos hzero, hzero]
    rfl
  · rw [if_neg hzero]
    rfl

theorem owed_pop (id : UInt64) (class_name : Text) :
    owed signatures (.popped id :: done) class_name =
      if name signatures id = class_name then
        (owed signatures done class_name).map fun row => (row.1, true)
      else owed signatures done class_name := by
  by_cases h : name signatures id = class_name
  · simp only [owed, swaps, popped, if_pos h, decide_eq_true h, Bool.true_or]
    by_cases hzero : swaps signatures class_name done = 0 <;> simp [hzero]
  · simp only [owed, swaps, popped, if_neg h, decide_eq_false h, Bool.false_or]

/-- The record of the class, if there is one, says popped already. -/
def Settled (held : Held) (class_name : Text) : Prop :=
  ∀ r, held[class_name]? = some r → r.popped_since = true

theorem settled_iff (held : Held) (class_name : Text) : Settled held class_name ↔
    (told held class_name).map (fun row => (row.1, true)) = told held class_name := by
  rw [Settled, told]
  cases held[class_name]? with
  | none => simp
  | some r =>
    simp only [Option.map_some, Option.some.injEq, Prod.mk.injEq, true_and, forall_eq']
    exact eq_comm

/-- A swap keeps the record exact under the name of its class, as long as the count has room. -/
theorem swap_exact_iff {held : Held} {done : List Event}
    (h : ∀ n, told held n = owed signatures done n) (key : Text) (moment : ℕ) (id : UInt64) :
    (∀ n, told (note_swap held key moment) n = owed signatures (.swapped id :: done) n) ↔
      key = name signatures id ∧ swaps signatures (name signatures id) done + 1 < 2 ^ 32 := by
  constructor
  · intro hexact
    have hn := hexact (name signatures id)
    rw [owed_swap, if_pos rfl] at hn
    have hkey : key = name signatures id := by
      by_contra hne
      rw [told_swap, if_neg hne, h] at hn
      have hcount : _ = swaps signatures _ done := owed_count done (name signatures id)
      rw [hn] at hcount
      simp only [Option.map_some, Option.getD_some] at hcount
      omega
    subst hkey
    rw [told_swap, if_pos rfl, h, owed_count, Option.some.injEq, Prod.mk.injEq] at hn
    refine ⟨rfl, ?_⟩
    have hlt := Nat.mod_lt (swaps signatures (name signatures id) done + 1) (by decide : 0 < 2 ^ 32)
    omega
  · rintro ⟨rfl, hroom⟩ n
    rw [told_swap, owed_swap]
    by_cases hn : name signatures id = n
    · rw [if_pos hn, if_pos hn, h, owed_count, hn]
      rw [hn] at hroom
      rw [Nat.mod_eq_of_lt hroom]
    · rw [if_neg hn, if_neg hn, h]

theorem pop_exact_iff {held : Held} {done : List Event}
    (h : ∀ n, told held n = owed signatures done n) (key : Text) (id : UInt64) :
    (∀ n, told (note_pop held key) n = owed signatures (.popped id :: done) n) ↔
      key = name signatures id ∨ Settled held key ∧ Settled held (name signatures id) := by
  rw [settled_iff, settled_iff]
  constructor
  · intro hexact
    by_cases hne : key = name signatures id
    · exact Or.inl hne
    · have hkey := hexact key
      have hid := hexact (name signatures id)
      rw [told_pop, if_pos rfl, owed_pop, if_neg (Ne.symm hne), ← h] at hkey
      rw [told_pop, if_neg hne, owed_pop, if_pos rfl, ← h] at hid
      exact Or.inr ⟨hkey, hid.symm⟩
  · rintro (rfl | ⟨hkey, hid⟩) n
    · rw [told_pop, owed_pop]
      by_cases hn : name signatures id = n
      · rw [if_pos hn, if_pos hn, hn, h]
      · rw [if_neg hn, if_neg hn, h]
    · rw [told_pop, owed_pop, ← h]
      have hleft : (if key = n then (told held key).map fun row => (row.1, true)
          else told held n) = told held n := by
        by_cases hk : key = n
        · rw [if_pos hk, hkey, hk]
        · rw [if_neg hk]
      have hright : (if name signatures id = n then (told held n).map fun row => (row.1, true)
          else told held n) = told held n := by
        by_cases hn : name signatures id = n
        · rw [if_pos hn, ← hn, hid]
        · rw [if_neg hn]
      rw [hleft, hright]

/-- A reload that goes through is called by the name of its class, which was not reloaded
`2 ^ 32 - 1` times before; a pop that goes through reads the name of its frame's class, or there is
nothing left to record. -/
def Meets (signatures : UInt64 → Text) (w : World) : Call → Prop
  | .reload_class a x => ∀ c, check_reload w.session a x = .ok c → a.dry_run = false →
      x.redefine = .ok () → trim a.class_name = name signatures c.type_id ∧
        swaps signatures (name signatures c.type_id) w.done + 1 < 2 ^ 32
  | .pop_frame a x => ∀ p, check_pop w.session a x = .ok p → x.pop = .ok () →
      p.class_ = name signatures p.frame.class_id ∨
        Settled w.session.redefinitions p.class_ ∧
          Settled w.session.redefinitions (name signatures p.frame.class_id)

theorem step_exact_iff {w : World} (h : Exact signatures w) (call : Call) :
    Exact signatures (step w call) ↔ Meets signatures w call := by
  have hrows := (exact_iff signatures w).mp h
  cases call with
  | reload_class a x =>
    rw [step, handle_reload_class, Meets]
    cases hcheck : check_reload w.session a x with
    | error e => exact ⟨fun _ c hc => (by cases hc), fun _ => h⟩
    | ok c =>
      by_cases hdry : a.dry_run = true
      · simp only [if_pos hdry]
        exact ⟨fun _ _ _ hnot => by simp [hdry] at hnot, fun _ => h⟩
      · simp only [if_neg hdry]
        cases hredefine : x.redefine with
        | error e => exact ⟨fun _ _ _ _ hok => (by cases hok), fun _ => h⟩
        | ok u =>
          rw [exact_iff, swap_exact_iff hrows]
          refine ⟨fun hkey c' hc' _ _ => ?_, fun hmeets => hmeets c rfl (by simpa using hdry) rfl⟩
          rw [← Except.ok.inj hc']
          exact hkey
  | pop_frame a x =>
    rw [step, handle_pop_frame, Meets]
    cases hcheck : check_pop w.session a x with
    | error e => exact ⟨fun _ p hp => (by cases hp), fun _ => h⟩
    | ok p =>
      simp only
      cases hpop : x.pop with
      | error e => exact ⟨fun _ _ _ hok => (by cases hok), fun _ => h⟩
      | ok u =>
        rw [exact_iff, pop_exact_iff hrows]
        refine ⟨fun hkey p' hp' _ => ?_, fun hmeets => hmeets p rfl rfl⟩
        rw [← Except.ok.inj hp']
        exact hkey

end Steps

section Runs

variable (signatures : UInt64 → Text)

/-- Every call of the run meets the condition. -/
def Spelled : World → List Call → Prop
  | _, [] => True
  | w, call :: rest => Meets signatures w call ∧ Spelled (step w call) rest

/-- Every state that the run reaches is exact. -/
def AlwaysExact : World → List Call → Prop
  | w, [] => Exact signatures w
  | w, call :: rest => Exact signatures w ∧ AlwaysExact (step w call) rest

theorem always_exact_iff {w : World} (h : Exact signatures w) (calls : List Call) :
    AlwaysExact signatures w calls ↔ Spelled signatures w calls := by
  induction calls generalizing w with
  | nil => exact ⟨fun _ => trivial, fun _ => h⟩
  | cons call rest ih =>
    rw [AlwaysExact, Spelled]
    constructor
    · rintro ⟨_, hrest⟩
      have hnext : Exact signatures (step w call) := by
        cases rest with
        | nil => exact hrest
        | cons _ _ => exact hrest.1
      exact ⟨(step_exact_iff h call).mp hnext, (ih hnext).mp hrest⟩
    · rintro ⟨hmeets, hrest⟩
      have hnext := (step_exact_iff h call).mpr hmeets
      exact ⟨h, (ih hnext).mpr hrest⟩

/-- What a report prints in an exact state: a line for each class that was redefined, with what is
owed about it. -/
theorem report_of_exact {w : World} (h : Exact signatures w) (now : ℕ) :
    ∃ rows : List (Text × Redefinition),
      describe_outstanding_redefinitions w.session.redefinitions now =
        (if rows = [] then [] else heading rows.length ++ (rows.map (describe_one now)).flatten) ∧
      (rows.map Prod.fst).Nodup ∧ ∀ class_name count popped_since,
        (∃ r, (class_name, r) ∈ rows ∧ (r.count.toNat, r.popped_since) = (count, popped_since)) ↔
          owed signatures w.done class_name = some (count, popped_since) :=
  ⟨w.session.redefinitions.toList, rfl, h.once, h.rows⟩

theorem exact_new (s : Session) (hnew : s.redefinitions = ∅) : Exact signatures ⟨s, []⟩ := by
  rw [exact_iff]
  intro class_name
  rw [hnew]
  rfl

/-- A session that has redefined nothing. -/
def fresh (read_only : Bool) (last_thread : Option JavaDebug.Jdwp.ThreadId) : Session :=
  ⟨read_only, last_thread, ∅⟩

/-- The residue is exact in every state of a session just when every class is called by its name. -/
theorem residue_exact_iff (read_only : Bool) (last_thread : Option JavaDebug.Jdwp.ThreadId)
    (calls : List Call) :
    AlwaysExact signatures ⟨fresh read_only last_thread, []⟩ calls ↔
      Spelled signatures ⟨fresh read_only last_thread, []⟩ calls :=
  always_exact_iff signatures (exact_new signatures _ rfl) calls

def utils : Text := "Lcom/example/Utils;".toList

/-- One class, defined by the loader 0x7f, and a debuggee that takes its new bytes. -/
def one_class : ReloadAnswers where
  classes :=
    { classes_by_signature := fun sig => .ok (if sig = utils then [⟨1, 5, sig⟩] else [])
      class_loader := fun _ => .ok 127
      loader_signature := fun _ => none
      all_classes := .ok [⟨1, 5, utils⟩] }
  capabilities := .ok ⟨true, true, false⟩
  class_file _ := .ok ("build/classes/com/example/Utils.class".toList, 812)
  redefine := .ok ()
  moment := 40
  live := []

/-- One class, reloaded by its name and then by its name and loader, is recorded as two. -/
theorem pinned_reload_listed_apart : ¬AlwaysExact (fun _ => utils) ⟨fresh false none, []⟩
    [.reload_class ⟨"com.example.Utils".toList, false⟩ one_class,
      .reload_class ⟨"com.example.Utils@0x7f".toList, false⟩ one_class] := by
  intro h
  have hspelled := (always_exact_iff (fun _ => utils) (exact_new _ _ rfl) _).mp h
  have hcheck : check_reload (step ⟨fresh false none, []⟩
      (.reload_class ⟨"com.example.Utils".toList, false⟩ one_class)).session
        ⟨"com.example.Utils@0x7f".toList, false⟩ one_class =
      .ok ⟨5, none, "build/classes/com/example/Utils.class".toList, 812,
        ⟨true, true, false⟩⟩ := by rfl
  exact absurd (hspelled.2.1 _ hcheck rfl rfl).1 (by decide)

end Runs

end JavaDebug.Residues
