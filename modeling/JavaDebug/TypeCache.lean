import Mathlib.Data.List.Basic
import Mathlib.Data.Nat.Basic
import Mathlib.Logic.Function.Basic
import Mathlib.Order.Lattice

/-!
The type cache that all clones of a connection share, as a machine. A read looks
its entry up, asks the debuggee on a miss and writes the answer back; a
redefinition is installed by the debuggee and then drops what is cached of its
types, entry by entry. All of these are steps of their own, in any order. An
answer carries the version of its type that the debuggee gave it from.
-/
namespace JavaDebug.TypeCache

universe u

section Machine

/-- In the order in which they are dropped. -/
inductive Kind
  | signatures
  | fields
  | methods
  | superclasses
  | interfaces
  deriving DecidableEq

namespace Kind

def all : List Kind := [signatures, fields, methods, superclasses, interfaces]

/-- The command is first sent in its generic variant. -/
def with_generic : Kind → Bool
  | fields | methods => true
  | _ => false

theorem mem_all (k : Kind) : k ∈ all := by
  cases k <;> decide

end Kind

abbrev ReferenceTypeId := UInt64

/-- An entry of one of the five maps. -/
abbrev Key := Kind × ReferenceTypeId

variable {μ : Type u}

/-- What the debuggee says of a type, and after how many redefinitions of the type it does. -/
structure Answer (μ : Type u) where
  metadata : μ
  version : ℕ
  deriving DecidableEq

inductive Reply (μ : Type u)
  | ok (answer : Answer μ)
  | not_implemented
  | failed
  deriving DecidableEq

inductive ReadStage (μ : Type u)
  | missed (generic : Bool)
  | sent (generic : Bool)
  | answered (generic : Bool) (reply : Reply μ)
  | received (answer : Answer μ)
  | returned (result : Option (Answer μ))
  deriving DecidableEq

/-- A call that reads `key`. Before it started, `redefine_classes` had returned for the
redefinitions of the type up to the one that `floor` counts. -/
structure Read (μ : Type u) where
  key : Key
  floor : ℕ
  stage : ReadStage μ
  deriving DecidableEq

/-- `version` are the versions of all types right after the installation. -/
inductive SwapStage
  | sent
  | refused
  | installed (version : ReferenceTypeId → ℕ)
  | invalidating (version : ReferenceTypeId → ℕ) (left : List Key)
  | returned (ok : Bool)

/-- A call of `redefine_classes`. -/
structure Swap where
  defs : List ReferenceTypeId
  stage : SwapStage

/-- The debuggee holds `program` and has redefined each type `version` times; a key is answered in
its generic variant or in the plain one. `promised` counts the redefinitions that have been
returned, and `cleared` the redefinitions after which the entry has been dropped. -/
structure Machine (μ : Type u) where
  read_only : Bool
  program : Key → Bool → μ
  version : ReferenceTypeId → ℕ
  cache : Key → Option (Answer μ)
  reads : List (Read μ)
  swaps : List Swap
  promised : ReferenceTypeId → ℕ
  cleared : Key → ℕ

def connect (read_only : Bool) (program : Key → Bool → μ) : Machine μ :=
  ⟨read_only, program, fun _ => 0, fun _ => none, [], [], fun _ => 0, fun _ => 0⟩

/-- How the debuggee answers a request. -/
inductive How
  | ok
  | not_implemented
  | failed
  deriving DecidableEq

inductive Action (μ : Type u)
  | lookup (key : Key)
  | send (i : ℕ)
  | answer (i : ℕ) (how : How)
  | receive (i : ℕ)
  | write (i : ℕ)
  | redefine (defs : List ReferenceTypeId)
  | refuse (j : ℕ)
  | install (j : ℕ) (program : Key → Bool → μ)
  | acknowledge (j : ℕ)
  | invalidate (j : ℕ)
  | finish (j : ℕ)

namespace Machine

variable (s : Machine μ)

/-- A hit is returned at once. -/
def lookup (key : Key) : Machine μ :=
  let stage := match s.cache key with
    | some hit => .returned (some hit)
    | none => .missed key.1.with_generic
  { s with reads := s.reads ++ [⟨key, s.promised key.2, stage⟩] }

def reply (key : Key) (generic : Bool) : How → Reply μ
  | .ok => .ok ⟨s.program key generic, s.version key.2⟩
  | .not_implemented => .not_implemented
  | .failed => .failed

/-- Where a call stands once it has its reply: the plain command is the fallback of the generic
one. -/
def on_reply (generic : Bool) : Reply μ → ReadStage μ
  | .ok answer => .received answer
  | .not_implemented => if generic then .missed false else .returned none
  | .failed => .returned none

variable (i : ℕ)

def set_read (r : Read μ) (stage : ReadStage μ) : Machine μ :=
  { s with reads := s.reads.set i { r with stage := stage } }

variable (j : ℕ)

def set_swap (w : Swap) (stage : SwapStage) : Machine μ :=
  { s with swaps := s.swaps.set j { w with stage := stage } }

/-- One step of the read call `i`. -/
def read_step (f : Read μ → Machine μ) : Machine μ :=
  match s.reads[i]? with
  | none => s
  | some r => f r

def swap_step (f : Swap → Machine μ) : Machine μ :=
  match s.swaps[j]? with
  | none => s
  | some w => f w

def send (r : Read μ) : Machine μ :=
  match r.stage with
  | .missed generic => s.set_read i r (.sent generic)
  | _ => s

def answer (how : How) (r : Read μ) : Machine μ :=
  match r.stage with
  | .sent generic => s.set_read i r (.answered generic (s.reply r.key generic how))
  | _ => s

def receive (r : Read μ) : Machine μ :=
  match r.stage with
  | .answered generic reply => s.set_read i r (on_reply generic reply)
  | _ => s

/-- The entry is written back whatever has happened since the answer was given. -/
def write (r : Read μ) : Machine μ :=
  match r.stage with
  | .received answer =>
    { s with cache := Function.update s.cache r.key (some answer) }.set_read i r
      (.returned (some answer))
  | _ => s

def redefine (defs : List ReferenceTypeId) : Machine μ :=
  if s.read_only then s else { s with swaps := s.swaps ++ [⟨defs, .sent⟩] }

def refuse (w : Swap) : Machine μ :=
  match w.stage with
  | .sent => s.set_swap j w .refused
  | _ => s

/-- All definitions of the batch, and nothing else, change. -/
def install (program : Key → Bool → μ) (w : Swap) : Machine μ :=
  match w.stage with
  | .sent =>
    let version := fun t => if t ∈ w.defs then s.version t + 1 else s.version t
    { s with
      program := fun key => if key.2 ∈ w.defs then program key else s.program key
      version := version }.set_swap j w (.installed version)
  | _ => s

def acknowledge (w : Swap) : Machine μ :=
  match w.stage with
  | .refused => s.set_swap j w (.returned false)
  | .installed version =>
    s.set_swap j w
      (.invalidating version (w.defs.flatMap fun t => Kind.all.map fun k => (k, t)))
  | _ => s

def invalidate (w : Swap) : Machine μ :=
  match w.stage with
  | .invalidating version (key :: left) =>
    { s with
      cache := Function.update s.cache key none
      cleared := Function.update s.cleared key (max (s.cleared key) (version key.2)) }.set_swap j w
      (.invalidating version left)
  | _ => s

def finish (w : Swap) : Machine μ :=
  match w.stage with
  | .invalidating version [] =>
    { s with
      promised := fun t =>
        if t ∈ w.defs then max (s.promised t) (version t) else s.promised t }.set_swap j w
      (.returned true)
  | _ => s

def step : Action μ → Machine μ
  | .lookup key => s.lookup key
  | .send i => s.read_step i (s.send i)
  | .answer i how => s.read_step i (s.answer i how)
  | .receive i => s.read_step i (s.receive i)
  | .write i => s.read_step i (s.write i)
  | .redefine defs => s.redefine defs
  | .refuse j => s.swap_step j (s.refuse j)
  | .install j program => s.swap_step j (s.install j program)
  | .acknowledge j => s.swap_step j (s.acknowledge j)
  | .invalidate j => s.swap_step j (s.invalidate j)
  | .finish j => s.swap_step j (s.finish j)

def run (actions : List (Action μ)) : Machine μ := actions.foldl step s

end Machine

/-- No call returns what the debuggee said of the type before a redefinition for which
`redefine_classes` had returned when the call started. -/
def Fresh (s : Machine μ) : Prop :=
  ∀ r ∈ s.reads, ∀ answer, r.stage = .returned (some answer) → r.floor ≤ answer.version

/-- What is written back was not given before a redefinition that has already dropped the entry. -/
def InTime (s : Machine μ) : Action μ → Prop
  | .write i => ∀ r answer, s.reads[i]? = some r → r.stage = .received answer →
      s.cleared r.key ≤ answer.version
  | _ => True

def InTimeRun : Machine μ → List (Action μ) → Prop
  | _, [] => True
  | s, action :: actions => InTime s action ∧ InTimeRun (s.step action) actions

end Machine

section Soundness

variable {μ : Type u}

/-- The call holds this answer. -/
def Read.Holds (r : Read μ) (answer : Answer μ) : Prop :=
  (∃ generic, r.stage = .answered generic (.ok answer)) ∨ r.stage = .received answer ∨
    r.stage = .returned (some answer)

structure ReadSound (s : Machine μ) (r : Read μ) : Prop where
  floor : r.floor ≤ s.version r.key.2
  held : ∀ answer, r.Holds answer → r.floor ≤ answer.version

/-- What a redefinition has installed is dropped from every entry of its types, or is still to be
dropped. -/
structure SwapSound (s : Machine μ) (w : Swap) : Prop where
  installed : ∀ version, w.stage = .installed version → ∀ t, version t ≤ s.version t
  invalidating : ∀ version left, w.stage = .invalidating version left →
    (∀ t, version t ≤ s.version t) ∧
      ∀ t ∈ w.defs, ∀ k, (k, t) ∈ left ∨ version t ≤ s.cleared (k, t)

structure Sound (s : Machine μ) : Prop where
  cleared : ∀ key, s.cleared key ≤ s.version key.2
  cached : ∀ key answer, s.cache key = some answer → s.cleared key ≤ answer.version
  promised : ∀ k t, s.promised t ≤ s.cleared (k, t)
  reads : ∀ r ∈ s.reads, ReadSound s r
  swaps : ∀ w ∈ s.swaps, SwapSound s w

theorem connect_sound (read_only : Bool) (program : Key → Bool → μ) :
    Sound (connect read_only program) where
  cleared := fun _ => Nat.le_refl 0
  cached := fun _ _ h => by cases h
  promised := fun _ _ => Nat.le_refl 0
  reads := fun _ h => absurd h List.not_mem_nil
  swaps := fun _ h => absurd h List.not_mem_nil

variable {s : Machine μ} {r : Read μ} {w : Swap}

theorem ReadSound.later {t : Machine μ} (h : ReadSound s r)
    (hversion : ∀ x, s.version x ≤ t.version x) : ReadSound t r :=
  ⟨h.floor.trans (hversion _), h.held⟩

theorem SwapSound.later {t : Machine μ} (h : SwapSound s w)
    (hversion : ∀ x, s.version x ≤ t.version x) (hcleared : ∀ key, s.cleared key ≤ t.cleared key) :
    SwapSound t w := by
  refine ⟨fun version hw x => (h.installed version hw x).trans (hversion x), ?_⟩
  intro version left hw
  obtain ⟨hle, hdropped⟩ := h.invalidating version left hw
  refine ⟨fun x => (hle x).trans (hversion x), fun x hx k => ?_⟩
  exact (hdropped x hx k).imp_right fun hk => hk.trans (hcleared _)

theorem lookup_sound (h : Sound s) (key : Key) : Sound (s.lookup key) := by
  refine ⟨h.cleared, h.cached, h.promised, fun r hr => ?_, fun w hw => ?_⟩
  · rcases List.mem_append.mp hr with hr | hr
    · exact (h.reads r hr).later fun _ => le_rfl
    · have hfloor : s.promised key.2 ≤ s.cleared key := h.promised key.1 key.2
      rw [List.mem_singleton.mp hr]
      refine ⟨hfloor.trans (h.cleared key), fun answer hheld => ?_⟩
      cases hcache : s.cache key with
      | none => simp [Read.Holds, hcache] at hheld
      | some hit =>
        have hsame : hit = answer := by simpa [Read.Holds, hcache] using hheld
        rw [← hsame]
        exact hfloor.trans (h.cached key hit hcache)
  · exact (h.swaps w hw).later (fun _ => le_rfl) fun _ => le_rfl

theorem set_read_sound (h : Sound s) {i : ℕ} (hr : r ∈ s.reads) {stage : ReadStage μ}
    (hheld : ∀ answer, { r with stage := stage }.Holds answer → r.floor ≤ answer.version) :
    Sound (s.set_read i r stage) := by
  refine ⟨h.cleared, h.cached, h.promised, fun r' hr' => ?_, fun w hw => ?_⟩
  · rcases List.mem_or_eq_of_mem_set hr' with hr' | rfl
    · exact (h.reads r' hr').later fun _ => le_rfl
    · exact ⟨(h.reads r hr).floor, hheld⟩
  · exact (h.swaps w hw).later (fun _ => le_rfl) fun _ => le_rfl

theorem set_swap_sound (h : Sound s) {j : ℕ} {stage : SwapStage}
    (hw : SwapSound s { w with stage := stage }) : Sound (s.set_swap j w stage) := by
  refine ⟨h.cleared, h.cached, h.promised, fun r hr => ?_, fun w' hw' => ?_⟩
  · exact (h.reads r hr).later fun _ => le_rfl
  · rcases List.mem_or_eq_of_mem_set hw' with hw' | rfl
    · exact (h.swaps w' hw').later (fun _ => le_rfl) fun _ => le_rfl
    · exact hw.later (fun _ => le_rfl) fun _ => le_rfl

theorem read_step_sound (h : Sound s) (i : ℕ) {f : Read μ → Machine μ}
    (hf : ∀ r, s.reads[i]? = some r → r ∈ s.reads → Sound (f r)) : Sound (s.read_step i f) := by
  unfold Machine.read_step
  cases hr : s.reads[i]? with
  | none => exact h
  | some r => exact hf r hr (List.mem_of_getElem? hr)

theorem swap_step_sound (h : Sound s) (j : ℕ) {f : Swap → Machine μ}
    (hf : ∀ w ∈ s.swaps, Sound (f w)) : Sound (s.swap_step j f) := by
  unfold Machine.swap_step
  cases hw : s.swaps[j]? with
  | none => exact h
  | some w => exact hf w (List.mem_of_getElem? hw)

theorem send_sound (h : Sound s) (i : ℕ) (hr : r ∈ s.reads) : Sound (s.send i r) := by
  unfold Machine.send
  split
  · refine set_read_sound h hr fun answer hheld => ?_
    simp [Read.Holds] at hheld
  · exact h

theorem answer_sound (h : Sound s) (i : ℕ) (how : How) (hr : r ∈ s.reads) :
    Sound (s.answer i how r) := by
  unfold Machine.answer
  split
  · rename_i generic _
    refine set_read_sound h hr fun answer hheld => ?_
    cases how with
    | ok =>
      have hgiven : ⟨s.program r.key generic, s.version r.key.2⟩ = answer := by
        simpa [Read.Holds, Machine.reply] using hheld
      rw [← hgiven]
      exact (h.reads r hr).floor
    | not_implemented => simp [Read.Holds, Machine.reply] at hheld
    | failed => simp [Read.Holds, Machine.reply] at hheld
  · exact h

theorem receive_sound (h : Sound s) (i : ℕ) (hr : r ∈ s.reads) : Sound (s.receive i r) := by
  unfold Machine.receive
  split
  · rename_i generic reply hstage
    refine set_read_sound h hr fun answer hheld => ?_
    cases reply with
    | ok given =>
      have hgiven : given = answer := by
        simpa [Read.Holds, Machine.on_reply] using hheld
      exact (h.reads r hr).held answer (Or.inl ⟨generic, by rw [hstage, hgiven]⟩)
    | not_implemented => cases generic <;> simp [Read.Holds, Machine.on_reply] at hheld
    | failed => simp [Read.Holds, Machine.on_reply] at hheld
  · exact h

theorem write_sound (h : Sound s) (i : ℕ) (hr : r ∈ s.reads) (hcall : s.reads[i]? = some r)
    (htime : InTime s (.write i)) : Sound (s.write i r) := by
  unfold Machine.write
  split
  · rename_i given hstage
    have hcached : Sound { s with cache := Function.update s.cache r.key (some given) } := by
      refine ⟨h.cleared, fun key answer hkey => ?_, h.promised, fun r' hr' => ?_, fun w hw => ?_⟩
      · by_cases hsame : key = r.key
        · subst hsame
          have hgiven : given = answer := by simpa using hkey
          exact hgiven ▸ htime r given hcall hstage
        · exact h.cached key answer (by simpa [Function.update_of_ne hsame] using hkey)
      · exact (h.reads r' hr').later fun _ => le_rfl
      · exact (h.swaps w hw).later (fun _ => le_rfl) fun _ => le_rfl
    refine set_read_sound hcached hr fun answer hheld => ?_
    have hgiven : given = answer := by simpa [Read.Holds] using hheld
    exact (h.reads r hr).held answer (Or.inr (Or.inl (by rw [hstage, hgiven])))
  · exact h

theorem idle_sound (s : Machine μ) (defs : List ReferenceTypeId) {stage : SwapStage}
    (hinstalled : ∀ version, stage ≠ .installed version)
    (hinvalidating : ∀ version left, stage ≠ .invalidating version left) :
    SwapSound s ⟨defs, stage⟩ :=
  ⟨fun version h => absurd h (hinstalled version),
    fun version left h => absurd h (hinvalidating version left)⟩

theorem refuse_sound (h : Sound s) (j : ℕ) (w : Swap) : Sound (s.refuse j w) := by
  unfold Machine.refuse
  split
  · exact set_swap_sound h (idle_sound s w.defs (fun _ => SwapStage.noConfusion)
      fun _ _ => SwapStage.noConfusion)
  · exact h

theorem install_sound (h : Sound s) (j : ℕ) (program : Key → Bool → μ) (w : Swap) :
    Sound (s.install j program w) := by
  unfold Machine.install
  split
  · have hversion (t : ReferenceTypeId) :
        s.version t ≤ if t ∈ w.defs then s.version t + 1 else s.version t := by
      split <;> omega
    have hnext : Sound { s with
        program := fun key => if key.2 ∈ w.defs then program key else s.program key
        version := fun t => if t ∈ w.defs then s.version t + 1 else s.version t } := by
      refine ⟨fun key => ?_, h.cached, h.promised, fun r hr => ?_, fun w' hw' => ?_⟩
      · exact (h.cleared key).trans (hversion key.2)
      · exact (h.reads r hr).later hversion
      · exact (h.swaps w' hw').later hversion fun _ => le_rfl
    refine set_swap_sound hnext ⟨fun version hw t => ?_, fun _ _ => SwapStage.noConfusion⟩
    cases hw
    exact le_rfl
  · exact h

theorem acknowledge_sound (h : Sound s) (j : ℕ) (hw : w ∈ s.swaps) : Sound (s.acknowledge j w) := by
  unfold Machine.acknowledge
  split
  · exact set_swap_sound h (idle_sound s w.defs (fun _ => SwapStage.noConfusion)
      fun _ _ => SwapStage.noConfusion)
  · rename_i version hstage
    refine set_swap_sound h ⟨fun _ => SwapStage.noConfusion, fun version' left hleft => ?_⟩
    cases hleft
    refine ⟨(h.swaps w hw).installed version hstage, fun t ht k => Or.inl ?_⟩
    exact List.mem_flatMap.mpr ⟨t, ht, List.mem_map.mpr ⟨k, Kind.mem_all k, rfl⟩⟩
  · exact h

theorem invalidate_sound (h : Sound s) (j : ℕ) (hw : w ∈ s.swaps) : Sound (s.invalidate j w) := by
  unfold Machine.invalidate
  split
  · rename_i version key left hstage
    obtain ⟨hle, hdropped⟩ := (h.swaps w hw).invalidating version (key :: left) hstage
    let cleared := Function.update s.cleared key (max (s.cleared key) (version key.2))
    have hself : cleared key = max (s.cleared key) (version key.2) := Function.update_self ..
    have hother {key' : Key} (hne : key' ≠ key) : cleared key' = s.cleared key' :=
      Function.update_of_ne hne ..
    have hgrows (key' : Key) : s.cleared key' ≤ cleared key' := by
      by_cases hsame : key' = key
      · rw [hsame, hself]
        exact le_max_left _ _
      · rw [hother hsame]
    have hdrop : Sound { s with
        cache := Function.update s.cache key none
        cleared := cleared } := by
      refine ⟨fun key' => ?_, fun key' answer hkey => ?_, fun k t => ?_, fun r hr => ?_,
        fun w' hw' => ?_⟩
      · show cleared key' ≤ s.version key'.2
        by_cases hsame : key' = key
        · rw [hsame, hself]
          exact max_le (h.cleared key) (hle key.2)
        · rw [hother hsame]
          exact h.cleared key'
      · have hkey : Function.update s.cache key none key' = some answer := hkey
        show cleared key' ≤ answer.version
        by_cases hsame : key' = key
        · rw [hsame, Function.update_self] at hkey
          cases hkey
        · rw [Function.update_of_ne hsame] at hkey
          rw [hother hsame]
          exact h.cached key' answer hkey
      · exact (h.promised k t).trans (hgrows (k, t))
      · exact (h.reads r hr).later fun _ => le_rfl
      · exact (h.swaps w' hw').later (fun _ => le_rfl) hgrows
    refine set_swap_sound hdrop ⟨fun _ => SwapStage.noConfusion, fun version' left' hleft => ?_⟩
    cases hleft
    refine ⟨hle, fun t ht k => ?_⟩
    rcases hdropped t ht k with hmem | hdone
    · rcases List.mem_cons.mp hmem with hsame | hmem
      · right
        show version t ≤ cleared (k, t)
        rw [hsame, hself, ← hsame]
        exact le_max_right _ _
      · exact Or.inl hmem
    · exact Or.inr (hdone.trans (hgrows (k, t)))
  · exact h

theorem finish_sound (h : Sound s) (j : ℕ) (hw : w ∈ s.swaps) : Sound (s.finish j w) := by
  unfold Machine.finish
  split
  · rename_i version hstage
    obtain ⟨-, hdropped⟩ := (h.swaps w hw).invalidating version [] hstage
    have hnext : Sound { s with
        promised := fun t =>
          if t ∈ w.defs then max (s.promised t) (version t) else s.promised t } := by
      refine ⟨h.cleared, h.cached, fun k t => ?_, fun r hr => ?_, fun w' hw' => ?_⟩
      · show (if t ∈ w.defs then max (s.promised t) (version t) else s.promised t) ≤ _
        split
        · rename_i ht
          exact max_le (h.promised k t) ((hdropped t ht k).resolve_left List.not_mem_nil)
        · exact h.promised k t
      · exact (h.reads r hr).later fun _ => le_rfl
      · exact (h.swaps w' hw').later (fun _ => le_rfl) fun _ => le_rfl
    exact set_swap_sound hnext (idle_sound _ w.defs (fun _ => SwapStage.noConfusion)
      fun _ _ => SwapStage.noConfusion)
  · exact h

theorem step_sound (h : Sound s) (action : Action μ) (htime : InTime s action) :
    Sound (s.step action) := by
  cases action with
  | lookup key => exact lookup_sound h key
  | send i => exact read_step_sound h i fun r _ hr => send_sound h i hr
  | answer i how => exact read_step_sound h i fun r _ hr => answer_sound h i how hr
  | receive i => exact read_step_sound h i fun r _ hr => receive_sound h i hr
  | write i => exact read_step_sound h i fun r hcall hr => write_sound h i hr hcall htime
  | redefine defs =>
    show Sound (s.redefine defs)
    unfold Machine.redefine
    split
    · exact h
    · refine ⟨h.cleared, h.cached, h.promised, fun r hr => ?_, fun w hw => ?_⟩
      · exact (h.reads r hr).later fun _ => le_rfl
      · rcases List.mem_append.mp hw with hw | hw
        · exact (h.swaps w hw).later (fun _ => le_rfl) fun _ => le_rfl
        · rw [List.mem_singleton.mp hw]
          exact idle_sound _ defs (fun _ => SwapStage.noConfusion) fun _ _ => SwapStage.noConfusion
  | refuse j => exact swap_step_sound h j fun w _ => refuse_sound h j w
  | install j program => exact swap_step_sound h j fun w _ => install_sound h j program w
  | acknowledge j => exact swap_step_sound h j fun w hw => acknowledge_sound h j hw
  | invalidate j => exact swap_step_sound h j fun w hw => invalidate_sound h j hw
  | finish j => exact swap_step_sound h j fun w hw => finish_sound h j hw

theorem run_sound (h : Sound s) (actions : List (Action μ)) (htime : InTimeRun s actions) :
    Sound (s.run actions) := by
  induction actions generalizing s with
  | nil => exact h
  | cons action actions ih => exact ih (step_sound h action htime.1) htime.2

theorem Sound.fresh (h : Sound s) : Fresh s :=
  fun r hr answer hstage => (h.reads r hr).held answer (Or.inr (Or.inr hstage))

/-- While no answer is written back after a redefinition that it was given before has dropped the
entry, a read that starts once `redefine_classes` has returned does not return an older answer. -/
theorem reads_after_redefinition_fresh (read_only : Bool) (program : Key → Bool → μ)
    (actions : List (Action μ)) (h : InTimeRun (connect read_only program) actions) :
    Fresh ((connect read_only program).run actions) :=
  (run_sound (connect_sound read_only program) actions h).fresh

end Soundness

section LateWrite

def before : Key → Bool → List String := fun _ _ => ["charge"]

def after : Key → Bool → List String := fun _ _ => ["charge", "refund"]

def swap_actions : List (Action (List String)) :=
  [.redefine [1], .install 0 after, .acknowledge 0, .invalidate 0, .invalidate 0, .invalidate 0,
    .invalidate 0, .invalidate 0, .finish 0]

/-- The methods are asked for, the class is redefined, and the answer is written back last. -/
def late_write : List (Action (List String)) :=
  [.lookup (.methods, 1), .send 0, .answer 0 .ok] ++ swap_actions ++
    [.receive 0, .write 0, .lookup (.methods, 1)]

theorem late_write_stale : ¬ Fresh ((connect false before).run late_write) := by
  intro hfresh
  have hstale := hfresh ⟨(.methods, 1), 1, .returned (some ⟨["charge"], 0⟩)⟩ (by decide)
    ⟨["charge"], 0⟩ rfl
  exact absurd hstale (by decide)

/-- The answer is written back before the class is redefined. -/
theorem early_write_fresh :
    Fresh ((connect false before).run ([.lookup (.methods, 1), .send 0, .answer 0 .ok, .receive 0,
      .write 0] ++ swap_actions ++ [.lookup (.methods, 1), .send 1, .answer 1 .ok])) := by
  refine reads_after_redefinition_fresh false before _ ?_
  refine ⟨trivial, trivial, trivial, trivial, ?_, trivial, trivial, trivial, trivial, trivial,
    trivial, trivial, trivial, trivial, trivial, trivial, trivial, trivial⟩
  intro r answer _ _
  exact Nat.zero_le _

end LateWrite

end JavaDebug.TypeCache
