import Mathlib.Data.List.Basic

/-!
Programs that ask operations of an environment and go on with its answers, as
trees: a program is done, or it asks one operation and has a continuation for
every answer. `Confined` says which operations a program can come to ask under
the answers that are possible, and is closed under sequencing and loops. A pool
interleaves any number of programs over one shared state, operation by
operation; what confines each program confines the log of the pool.
-/
namespace JavaDebug.Dialogue

structure Interface where
  Op : Type
  Answer : Op → Type

inductive Program (I : Interface) (α : Type) : Type
  | done (a : α)
  | ask (o : I.Op) (k : I.Answer o → Program I α)

namespace Program

variable {I : Interface} {α β γ : Type}

def bind (m : Program I α) (f : α → Program I β) : Program I β :=
  match m with
  | done a => f a
  | ask o k => ask o fun a => (k a).bind f

instance : Monad (Program I) where
  pure := done
  bind := bind

/-- Ask one operation and return its answer. -/
def perform (o : I.Op) : Program I (I.Answer o) := ask o done

theorem bind_done (m : Program I α) : m.bind done = m := by
  induction m with
  | done a => rfl
  | ask o k ih => exact congrArg (ask o) (funext ih)

theorem bind_bind (m : Program I α) (f : α → Program I β) (g : β → Program I γ) :
    (m.bind f).bind g = m.bind fun a => (f a).bind g := by
  induction m with
  | done a => rfl
  | ask o k ih => exact congrArg (ask o) (funext ih)

instance : LawfulMonad (Program I) :=
  LawfulMonad.mk' (Program I) bind_done (fun _ _ => rfl) bind_bind

section Confined

variable (allowed : I.Op → Prop) (possible : (o : I.Op) → I.Answer o → Prop)

/-- Every operation asked is allowed, as long as the answers are possible ones. -/
def Confined : Program I α → Prop
  | done _ => True
  | ask o k => allowed o ∧ ∀ a, possible o a → (k a).Confined

variable {allowed possible}

theorem confined_pure (a : α) : (pure a : Program I α).Confined allowed possible := trivial

theorem confined_perform {o : I.Op} (h : allowed o) : (perform o).Confined allowed possible :=
  ⟨h, fun _ _ => trivial⟩

theorem Confined.bind {m : Program I α} {f : α → Program I β} (hm : m.Confined allowed possible)
    (hf : ∀ a, (f a).Confined allowed possible) : (m >>= f).Confined allowed possible := by
  induction m with
  | done a => exact hf a
  | ask o k ih => exact ⟨hm.1, fun a ha => ih a (hm.2 a ha)⟩

theorem Confined.map {m : Program I α} (f : α → β) (hm : m.Confined allowed possible) :
    (f <$> m).Confined allowed possible := hm.bind fun _ => confined_pure _

theorem confined_mapM {f : α → Program I β} (h : ∀ a, (f a).Confined allowed possible) (l : List α)
    : (l.mapM f).Confined allowed possible := by
  induction l with
  | nil => exact confined_pure _
  | cons a l ih =>
    rw [List.mapM_cons]
    exact (h a).bind fun _ => ih.bind fun _ => confined_pure _

end Confined

/-- A program put together from the programs of `P`. -/
inductive Composed (P : (β : Type) → Program I β → Prop) : {α : Type} → Program I α → Prop
  | done {α : Type} (a : α) : Composed P (.done a)
  | call {α β : Type} (m : Program I β) (f : β → Program I α) (hm : P β m)
      (hf : ∀ b, Composed P (f b)) : Composed P (m.bind f)

theorem Composed.confined {P : (β : Type) → Program I β → Prop} {allowed : I.Op → Prop}
    {possible : (o : I.Op) → I.Answer o → Prop}
    (h : ∀ (β : Type) (m : Program I β), P β m → m.Confined allowed possible) {m : Program I α}
    (hm : Composed P m) : m.Confined allowed possible := by
  induction hm with
  | done a => exact trivial
  | call m f hm _ ih => exact (h _ m hm).bind ih

section Served

variable {σ : Type} (serve : σ → (o : I.Op) → I.Answer o × σ)

/-- The program under an environment that answers out of its own state. -/
def served : Program I α → σ → α × σ
  | done a, s => (a, s)
  | ask o k, s => (k (serve s o).1).served (serve s o).2

theorem served_bind (m : Program I α) (f : α → Program I β) (s : σ) :
    (m >>= f).served serve s = (f (m.served serve s).1).served serve (m.served serve s).2 := by
  induction m generalizing s with
  | done a => rfl
  | ask o k ih => exact ih (serve s o).1 (serve s o).2

theorem served_lift {ε : Type} (m : Program I α) (s : σ) :
    (liftM m : ExceptT ε (Program I) α).run.served serve s =
      (.ok (m.served serve s).1, (m.served serve s).2) := served_bind serve m _ s

theorem served_then {ε : Type} {m : ExceptT ε (Program I) α} {f : α → ExceptT ε (Program I) β}
    {s : σ} {a : α} (h : (m.run.served serve s).1 = .ok a) :
    (m >>= f).run.served serve s = (f a).run.served serve (m.run.served serve s).2 := by
  refine (served_bind serve m.run _ s).trans ?_
  rw [h]
  rfl

theorem served_failed {ε : Type} {m : ExceptT ε (Program I) α} (f : α → ExceptT ε (Program I) β)
    {s : σ} {e : ε} (h : (m.run.served serve s).1 = .error e) :
    (m >>= f).run.served serve s = (.error e, (m.run.served serve s).2) := by
  refine (served_bind serve m.run _ s).trans ?_
  rw [h]
  rfl

end Served

end Program

section Pool

open Program

variable {I : Interface} {σ ε : Type}

/-- An operation that was asked, and the task that asked it. -/
structure Asked (I : Interface) where
  task : ℕ
  op : I.Op

structure Pool (I : Interface) (σ : Type) where
  shared : σ
  tasks : List (Program I Unit)
  log : List (Asked I)

/-- A task begins, or one that has begun asks its next operation, or the shared state changes
from outside. `ε` is what the environment contributes to an answer. -/
inductive Turn (I : Interface) (σ ε : Type)
  | begin (m : Program I Unit)
  | advance (task : ℕ) (e : ε)
  | outside (f : σ → σ)

variable (serve : ε → σ → (o : I.Op) → I.Answer o × σ)

namespace Pool

def advance (p : Pool I σ) (task : ℕ) (e : ε) : Pool I σ :=
  match p.tasks[task]? with
  | some (.ask o k) =>
    { shared := (serve e p.shared o).2
      tasks := p.tasks.set task (k (serve e p.shared o).1)
      log := p.log ++ [⟨task, o⟩] }
  | _ => p

def turn (p : Pool I σ) : Turn I σ ε → Pool I σ
  | .begin m => { p with tasks := p.tasks ++ [m] }
  | .advance task e => p.advance serve task e
  | .outside f => { p with shared := f p.shared }

def run (p : Pool I σ) (turns : List (Turn I σ ε)) : Pool I σ := turns.foldl (turn serve) p

/-- `J` holds of the shared state before and after every turn. -/
def Always (J : σ → Prop) (p : Pool I σ) : List (Turn I σ ε) → Prop
  | [] => J p.shared
  | t :: turns => J p.shared ∧ Always J (p.turn serve t) turns

variable {serve}

/-- What the tasks with a number from `n` on still have to do is confined, and what they asked
after the first `m` entries of the log was allowed. -/
structure Within (allowed : I.Op → Prop) (possible : (o : I.Op) → I.Answer o → Prop) (n m : ℕ)
    (p : Pool I σ) : Prop where
  tasks : ∀ i m, n ≤ i → p.tasks[i]? = some m → m.Confined allowed possible
  log : ∀ x ∈ p.log.drop m, n ≤ x.task → allowed x.op
  length : m ≤ p.log.length

variable {allowed : I.Op → Prop} {possible : (o : I.Op) → I.Answer o → Prop} {J : σ → Prop}

theorem within_advance (hserve : ∀ e s o, J s → possible o (serve e s o).1) {n m : ℕ} {p : Pool I σ}
    (hp : p.Within allowed possible n m) (hJ : J p.shared) (task : ℕ) (e : ε) :
    (p.advance serve task e).Within allowed possible n m := by
  unfold advance
  split
  · rename_i o k htask
    have hdo : n ≤ task → (ask o k).Confined allowed possible := fun hn => hp.tasks task _ hn htask
    refine ⟨fun i t hi ht => ?_, fun x hx hn => ?_, ?_⟩
    · rw [List.getElem?_set] at ht
      split at ht
      · rename_i heq
        subst heq
        split at ht
        · obtain rfl := Option.some.inj ht
          exact (hdo hi).2 _ (hserve e _ o hJ)
        · cases ht
      · exact hp.tasks i t hi ht
    · rw [List.drop_append_of_le_length hp.length] at hx
      rcases List.mem_append.mp hx with hx | hx
      · exact hp.log x hx hn
      · obtain rfl := List.mem_singleton.mp hx
        exact (hdo hn).1
    · rw [List.length_append]
      exact Nat.le_add_right_of_le hp.length
  · exact hp

/-- In a run that begins confined tasks only, every task with a number from `n` on stays within
its bounds. -/
theorem within_run (hserve : ∀ e s o, J s → possible o (serve e s o).1) {n m : ℕ} {p : Pool I σ}
    (hp : p.Within allowed possible n m) (turns : List (Turn I σ ε))
    (hbegin : ∀ t, .begin t ∈ turns → t.Confined allowed possible) (hJ : p.Always serve J turns) :
    (p.run serve turns).Within allowed possible n m := by
  induction turns generalizing p with
  | nil => exact hp
  | cons t turns ih =>
    refine ih ?_ (fun t' ht' => hbegin t' (List.mem_cons_of_mem t ht')) hJ.2
    cases t with
    | begin t =>
      refine ⟨fun i t' hi ht' => ?_, hp.log, hp.length⟩
      simp only [turn] at ht'
      rw [List.getElem?_append] at ht'
      split at ht'
      · exact hp.tasks i t' hi ht'
      · have ht'' := List.mem_of_getElem? ht'
        rw [List.mem_singleton.mp ht'']
        exact hbegin t List.mem_cons_self
    | advance task e => exact within_advance hserve hp hJ.1 task e
    | outside f => exact ⟨hp.tasks, hp.log, hp.length⟩

/-- A pool is within any bounds as far as its future tasks and its future log go. -/
theorem within_future (p : Pool I σ) : p.Within allowed possible p.tasks.length p.log.length := by
  refine ⟨fun i t hi ht => ?_, fun x hx => ?_, Nat.le_refl _⟩
  · rw [List.getElem?_eq_none hi] at ht
    cases ht
  · rw [List.drop_length] at hx
    cases hx

end Pool

end Pool

end JavaDebug.Dialogue
