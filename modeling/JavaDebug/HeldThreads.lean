import Mathlib.Algebra.Order.Group.Int
import JavaDebug.BookedFreezes

/-!
The threads a caller holds one at a time. The account of a run keeps how many
VM-wide suspends no VM-wide resume has taken back, and by how many its suspends
of a thread exceed its resumes. A VM-wide resume lowers every thread, so it
costs a held thread a level of its own unless it takes back a VM-wide suspend.
-/
namespace JavaDebug.HeldThreads

open Jdwp Session Wire Disarming
open Hits HitEffects Rearming Resuming
open StateProgram NestedSuspend ResumeLoops Replies
open BookedFreezes Runs

/-- The VM-wide resumes of a verified resume when every command succeeds: as many as the probe
thread is deep, within the limit. -/
def due (s : Stage) : ℕ :=
  match s.last_thread with
  | none => 1
  | some p => max 1 (min (s.depth p) MAX_RESUME_ATTEMPTS)

/-- `vm` are the VM-wide suspends that no VM-wide resume has taken back, `owed` the suspends less
the resumes of single threads. -/
structure Account where
  vm : ℕ
  owed : ThreadId → ℤ

def Account.opened : Account := ⟨0, fun _ => 0⟩

variable (w : World)

/-- How the first event of a composite is judged. -/
def judged (es : EventSet) (a : Answers) : Option Verdict :=
  es.events.head?.bind fun e =>
    (event_location e.details).map fun l => verdict w.session a e l.1 l.2

/-- A dump finds threads to suspend and the VM not held already. -/
def Suspends : Prop := w.jvm.threads ≠ [] ∧ w.session.suspensions.vm = none

instance (w : World) : Decidable (Suspends w) := by
  unfold Suspends
  infer_instance

def Account.next (acc : Account) : Move → Account
  | .call (.suspend_thread tid) _ =>
    { acc with owed := fun t => if t = tid then acc.owed t + 1 else acc.owed t }
  | .call (.resume_thread thread_id) _ =>
    match pick_thread w.session.suspensions thread_id with
    | .ok tid => { acc with owed := fun t => if t = tid then acc.owed t - 1 else acc.owed t }
    | .error _ => acc
  | .call .pause _ =>
    if w.session.suspensions.vm.isSome then acc else { acc with vm := acc.vm + 1 }
  | .call .continue_ _ => { acc with vm := acc.vm - due (stage w) }
  | .call (.step thread_id _ _ _) _ =>
    if (thread_id.or w.session.last_thread).isSome then { acc with vm := acc.vm - 1 } else acc
  | .call (.thread_dump _) a =>
    if Suspends w then { acc with vm := acc.vm + 1 - due (dump_stage (w.begin a)) } else acc
  | .hit es _ a =>
    match judged w es a, es.suspend_policy with
    | some .dropped, _ => acc
    | _, .all => { acc with vm := acc.vm + 1 }
    | some .matched, .eventThread => { acc with vm := acc.vm + 1 }
    | _, _ => acc
  | _ => acc

/-- The operations a sequence is made of, every command carried out. -/
def Sequenced : Move → Prop
  | .call c a => Obliging a ∧
    match c with
    | .pause | .continue_ | .step _ _ _ _ | .suspend_thread _ | .resume_thread _
    | .thread_dump true => True
    | _ => False
  | .hit es t a => Obliging a ∧ es.suspend_policy ≠ .none ∧ ∃ e loc, Reportable w es t e loc
  | .fire _ _ | .listen _ => False

/-- Every VM-wide resume takes back a VM-wide suspend, and no tally of suspends is full. -/
def TakesBack (acc : Account) : Move → Prop
  | .call .continue_ _ => due (stage w) ≤ acc.vm
  | .call (.step thread_id _ _ _) _ =>
    (thread_id.or w.session.last_thread).isSome → 1 ≤ acc.vm
  | .call (.thread_dump _) a => Suspends w → due (dump_stage (w.begin a)) ≤ acc.vm + 1
  | .call (.suspend_thread tid) _ => acc.owed tid < 4294967295
  | _ => True

/-- One operation of a sequence that meets `ok`, entered in the account. -/
def Entry (ok : World → Account → Move → Prop) (x x' : World × Account) : Prop :=
  ∃ m : Move, m.Allowed x.1 ∧ Sequenced x.1 m ∧ ok x.1 x.2 m ∧ x' = (m.next x.1, x.2.next x.1 m)

def records : Table ThreadSuspend.tid := w.session.suspensions.threads

theorem Entry.intro {ok : World → Account → Move → Prop} {w : World} {acc : Account} (m : Move)
    (hallowed : m.Allowed w) (hseq : Sequenced w m) (hok : ok w acc m) :
    Entry ok (w, acc) (m.next w, acc.next w m) := ⟨m, hallowed, hseq, hok, rfl⟩

/-- Each thread is at least as deep as the account says, and a thread that is owed a resume has a
record that says so. -/
structure Balanced (w : World) (acc : Account) : Prop where
  depth : ∀ t ∈ w.jvm.threads, acc.vm + acc.owed t ≤ w.jvm.suspend_count t
  recorded : ∀ t ∈ w.jvm.threads, 0 < acc.owed t →
    ∃ r, (records w).get? t = some r ∧ acc.owed t ≤ r.issued

section Resumes

theorem obliging_grants {w : World} (h : Obliging w.answers) (c : Command) (i : ℕ) :
    grants w c i = true := by
  simp [grants, h c]

theorem ends_after_due {l : Line} (hresume : ∀ i, l.resume i = true) (hread : ∀ i, l.read i = true)
    (depth : ℕ) :
    EndsAfter l depth 0 MAX_RESUME_ATTEMPTS (max 1 (min depth MAX_RESUME_ATTEMPTS)) where
  started := Nat.zero_le _
  limit := by
    simp only [MAX_RESUME_ATTEMPTS]
    omega
  resumed := fun i _ _ => hresume i
  needed := by
    intro i hi hlt hstop
    rcases hstop with hstop | hstop
    · simp [hread] at hstop
    · simp only [MAX_RESUME_ATTEMPTS] at hlt
      omega
  ended := by
    simp only [Line.stops, MAX_RESUME_ATTEMPTS]
    by_cases h : depth ≤ 8
    · exact .inr ⟨by omega, .inr (by omega)⟩
    · exact .inl (by omega)

/-- When nothing is refused a verified resume takes exactly the resumes that are due. -/
theorem resumes_due {s : Stage} (hresume : ∀ i, s.resume_all i = true)
    (hread : ∀ t i, s.read t i = true) :
    (∃ asked left, Resumes s (due s) asked left) ∧
      ∀ k asked left, Resumes s k asked left → k = due s := by
  have hex : ∃ asked left, Resumes s (due s) asked left := by
    unfold Resumes due
    cases s.last_thread with
    | none => exact ⟨_, _, hresume 0, rfl, rfl, rfl⟩
    | some p => exact ⟨_, _, ends_after_due hresume (hread p) _, rfl, rfl⟩
  obtain ⟨asked, left, hdue⟩ := hex
  exact ⟨⟨asked, left, hdue⟩, fun k _ _ hk => (hk.unique hdue).1⟩

theorem obliging_stage {w : World} (h : Obliging w.answers) :
    (∀ i, (stage w).resume_all i = true) ∧ ∀ t i, (stage w).read t i = true :=
  ⟨obliging_grants h _, fun t => obliging_grants h (.suspend_count t)⟩

end Resumes

section Records

/-- The records are among those of `old`. -/
def Among (old : Table ThreadSuspend.tid) (w : World) : Prop :=
  ∀ t r, (records w).get? t = some r → old.get? t = some r

theorem records_perform (c : Command) (f : Jvm → Jvm) : Keeps records (perform c f) := by
  intro w
  rw [perform_run]
  cases w.refuses c <;> rfl

theorem records_count (t : ThreadId) : Keeps records (suspend_count_or_zero t) := by
  intro w
  rw [suspend_count_or_zero_run]
  rfl

theorem records_fully (p : ThreadId) (issued attempts : ℕ) :
    Keeps records (resume_all_fully p issued attempts) := by
  induction attempts generalizing issued with
  | zero => exact Keeps.bind (records_count p) fun _ => Keeps.pure _
  | succ n ih =>
    refine Keeps.bind (records_perform _ _) fun r => ?_
    cases r with
    | error e => exact Keeps.pure _
    | ok _ => exact Keeps.bind (records_count p) fun _ => Keeps.ite (Keeps.pure _) (ih _)

theorem Among.keeps {old : Table ThreadSuspend.tid} {α : Type} {m : Handler α} (h : Keeps records m)
    : Preserves (Among old) m := by
  intro w hw t r hr
  rw [h w] at hr
  exact hw t r hr

theorem records_clear_pending_step : Keeps records clear_pending_step := by
  intro w
  exact congrArg (fun s => s.books.threads) (stage_clear_pending_step w)

theorem records_resume_and_verify : Keeps records resume_and_verify := by
  refine Keeps.bind Keeps.get fun w => ?_
  cases w.session.last_thread with
  | none =>
    refine Keeps.bind (records_perform _ _) fun r => ?_
    cases r <;> exact Keeps.pure _
  | some p =>
    refine Keeps.bind (records_fully p 0 _) fun r => ?_
    cases r with
    | error e => exact Keeps.pure _
    | ok n => exact Keeps.ite (Keeps.pure _) (Keeps.ite (Keeps.pure _) (Keeps.pure _))

theorem records_edit (f : Suspensions → Suspensions) (h : ∀ s, (f s).threads = s.threads) :
    Keeps records (edit_suspensions f) := by
  intro w
  exact h _

variable (old : Table ThreadSuspend.tid)

theorem among_forget (u : ThreadId) :
    Preserves (Among old) (edit_suspensions fun s => s.forget_thread u) := by
  intro w hw t r hr
  have hget : (w.session.suspensions.forget_thread u).threads.get? t = some r := hr
  rw [get_forget] at hget
  split at hget
  · cases hget
  · exact hw t r hget

theorem among_verify (ids : List ThreadId) : Preserves (Among old) (verify_threads ids) := by
  induction ids with
  | nil => exact Preserves.pure _
  | cons u rest ih =>
    refine Preserves.bind (Among.keeps (records_count u)) fun left => ?_
    split
    · exact Preserves.bind (among_forget old u) fun _ => Preserves.bind ih fun _ => Preserves.pure _
    · exact Preserves.bind ih fun _ => Preserves.pure _

theorem among_continue : Preserves (Among old) handle_continue := by
  refine Preserves.bind (Among.keeps records_clear_pending_step) fun _ => ?_
  refine Preserves.bind (Among.keeps records_resume_and_verify) fun r => ?_
  cases r with
  | error e => exact Preserves.pure _
  | ok note =>
    refine Preserves.bind (Among.keeps (records_edit _ fun _ => rfl)) fun _ => ?_
    refine Preserves.bind ?_ fun _ => Preserves.pure _
    exact Preserves.get_bind fun w _ => among_verify old _

theorem records_step (thread_id : Option ThreadId) (depth : ℕ) (exclude only : List String) :
    Keeps records (handle_step thread_id depth exclude only) := by
  refine Keeps.bind Keeps.get fun w => ?_
  cases thread_id.or w.session.last_thread with
  | none => exact Keeps.pure _
  | some tid =>
    refine Keeps.bind records_clear_pending_step fun _ => ?_
    refine Keeps.bind (fun w => congrArg (fun s => s.books.threads) (stage_set_request _ _ _ w))
      fun r => ?_
    cases r with
    | error e => exact Keeps.pure _
    | ok req =>
      refine Keeps.bind (fun _ => rfl) fun _ => ?_
      refine Keeps.bind (records_edit _ fun _ => rfl) fun _ => ?_
      refine Keeps.bind (records_perform _ _) fun r => ?_
      cases r <;> exact Keeps.pure _

theorem records_finish_dump (p : ThreadId) : Keeps records (finish_dump p) := by
  refine Keeps.bind (records_fully p 0 _) fun r => ?_
  rcases r with e | ⟨issued, left⟩
  · exact Keeps.pure _
  · cases left with
    | zero => exact Keeps.bind (records_edit _ fun _ => rfl) fun _ => Keeps.pure _
    | succ n => exact Keeps.pure _

theorem records_dump : Keeps records (handle_thread_dump true) := by
  refine Keeps.bind ?_ fun r => ?_
  · intro w
    simp only [get_all_threads, run_bind, send_run]
    cases w.refuses .all_threads <;> rfl
  cases r with
  | error e => exact Keeps.pure _
  | ok all =>
    refine Keeps.ite (Keeps.pure _) (Keeps.bind Keeps.get fun w => Keeps.ite (Keeps.pure _) ?_)
    refine Keeps.bind (records_perform _ _) fun r => ?_
    cases r with
    | error e => exact Keeps.pure _
    | ok _ =>
      refine Keeps.bind Keeps.get fun w => ?_
      refine Keeps.bind (records_edit _ fun _ => rfl) fun _ => ?_
      refine Keeps.bind Keeps.get fun w => ?_
      exact records_finish_dump _

end Records

section Operations

variable {w : World} {acc : Account}

variable {w' : World} {tid : ThreadId}

theorem recorded_of_among {t : ThreadId} {n : ℤ}
    (hrec : ∃ r, (records w).get? t = some r ∧ n ≤ r.issued) (ham : Among (records w) w')
    (hheld : ((records w').get? t).isSome) : ∃ r, (records w').get? t = some r ∧ n ≤ r.issued := by
  obtain ⟨r, hr⟩ := Option.isSome_iff_exists.mp hheld
  obtain ⟨r₀, hr₀, hle⟩ := hrec
  obtain rfl : r₀ = r := Option.some.inj (hr₀.symm.trans (ham t r hr))
  exact ⟨r₀, hr, hle⟩

theorem balanced_continue (hb : Balanced w acc) (ho : Obliging w.answers)
    (hdue : due (stage w) ≤ acc.vm) :
    Balanced (handle_continue.run w).2 { acc with vm := acc.vm - due (stage w) } := by
  obtain ⟨⟨asked, left, hex⟩, hunique⟩ := resumes_due (obliging_stage ho).1 (obliging_stage ho).2
  rcases continue_cases w with ⟨k, asked, left, r, hres, -, -, -, hset⟩ | ⟨hno, -⟩
  · obtain rfl := hunique k asked left hres
    have hdepth : (handle_continue.run w).2.jvm.suspend_count =
        fun t => w.jvm.suspend_count t - due (stage w) := hset.depth
    have hthreads : (handle_continue.run w).2.jvm.threads = w.jvm.threads := hset.threads
    constructor
    · intro t ht
      rw [hthreads] at ht
      have := hb.depth t ht
      rw [hdepth]
      dsimp only
      omega
    · intro t ht howed
      rw [hthreads] at ht
      refine recorded_of_among (hb.recorded t ht howed) (among_continue _ w fun _ _ h => h) ?_
      refine (hset.held t).mpr ⟨?_, (obliging_stage ho).2 t _, ?_⟩
      · obtain ⟨r₀, hr₀, -⟩ := hb.recorded t ht howed
        exact Option.isSome_iff_exists.mpr ⟨r₀, hr₀⟩
      · have := hb.depth t ht
        change due (stage w) < w.jvm.suspend_count t
        dsimp only at howed
        omega
  · exact absurd hex (hno _ _ _)

/-- Every thread is lowered by `k`, which takes back as many VM-wide suspends, and every record
stays. -/
theorem balanced_lowered {k : ℕ} (hb : Balanced w acc) (hk : k ≤ acc.vm)
    (hthreads : w'.jvm.threads = w.jvm.threads)
    (hdepth : w'.jvm.suspend_count = fun t => w.jvm.suspend_count t - k)
    (hrec : records w' = records w) : Balanced w' { acc with vm := acc.vm - k } := by
  constructor
  · intro t ht
    rw [hthreads] at ht
    have := hb.depth t ht
    rw [hdepth]
    dsimp only
    omega
  · intro t ht howed
    rw [hthreads] at ht
    rw [hrec]
    exact hb.recorded t ht howed

/-- Every live thread is one deeper by a VM-wide suspend. -/
theorem balanced_suspend_all (hb : Balanced w acc) (hthreads : w'.jvm.threads = w.jvm.threads)
    (hdepth : w'.jvm.suspend_count = w.jvm.suspend_all.suspend_count)
    (hrec : records w' = records w) : Balanced w' { acc with vm := acc.vm + 1 } := by
  constructor
  · intro t ht
    rw [hthreads] at ht
    have := hb.depth t ht
    rw [hdepth]
    simp only [Jvm.suspend_all, if_pos ht]
    omega
  · intro t ht howed
    rw [hthreads] at ht
    rw [hrec]
    exact hb.recorded t ht howed

theorem balanced_step (hb : Balanced w acc) (ho : Obliging w.answers) {thread_id : Option ThreadId}
    {depth : ℕ} {exclude only : List String}
    (h : (thread_id.or w.session.last_thread).isSome → 1 ≤ acc.vm) :
    Balanced ((handle_step thread_id depth exclude only).run w).2
      (if (thread_id.or w.session.last_thread).isSome then { acc with vm := acc.vm - 1 }
        else acc) := by
  have hrec := records_step thread_id depth exclude only w
  have hgo := obliging_grants ho .resume_all 0
  rcases step_cases w thread_id depth exclude only with ⟨tid, hs, -, hset⟩ | ⟨hno, -, hsame⟩
  · have hsome : (thread_id.or w.session.last_thread).isSome := by simp [hs.1]
    have hdepth : ((handle_step thread_id depth exclude only).run w).2.jvm.suspend_count =
        fun t => w.jvm.suspend_count t - if grants w .resume_all 0 then 1 else 0 := hset.depth
    simp only [hgo, if_true] at hdepth
    rw [if_pos hsome]
    exact balanced_lowered hb (h hsome) hset.threads hdepth hrec
  · have hnone : ¬ (thread_id.or w.session.last_thread).isSome := by
      intro hsome
      obtain ⟨tid, htid⟩ := Option.isSome_iff_exists.mp hsome
      exact hno tid ⟨htid, obliging_grants ho _ _⟩
    rw [if_neg hnone]
    have hth : ((handle_step thread_id depth exclude only).run w).2.jvm.threads =
        w.jvm.threads := congrArg Stage.threads hsame
    have hde : ((handle_step thread_id depth exclude only).run w).2.jvm.suspend_count =
        w.jvm.suspend_count := congrArg Stage.depth hsame
    exact balanced_lowered (k := 0) hb (Nat.zero_le _) hth hde hrec

theorem balanced_dump (hb : Balanced w acc) (ho : Obliging w.answers)
    (h : Suspends w → due (dump_stage w) ≤ acc.vm + 1) :
    Balanced ((handle_thread_dump true).run w).2
      (if Suspends w then { acc with vm := acc.vm + 1 - due (dump_stage w) } else acc) := by
  have hrec := records_dump w
  by_cases hs : Suspends w
  · have hd : Dumps w := ⟨hs.1, hs.2, obliging_grants ho _ _, obliging_grants ho _ _⟩
    obtain ⟨⟨asked, left, hex⟩, hunique⟩ := resumes_due (s := dump_stage w)
      (obliging_stage ho).1 (obliging_stage ho).2
    rw [if_pos hs]
    rcases dump_cases hd with ⟨k, asked, left, hres, -, hthreads, hdepth, -⟩ | ⟨hno, -⟩
    · obtain rfl := hunique k asked left hres
      have hsuspended : Balanced { w with jvm := w.jvm.suspend_all }
          { acc with vm := acc.vm + 1 } := balanced_suspend_all hb rfl rfl rfl
      exact balanced_lowered hsuspended (h hs) hthreads hdepth hrec
    · exact absurd hex (hno _ _ _)
  · have hd : ¬ Dumps w := fun hd => hs ⟨hd.1, hd.2.1⟩
    have hsame := (no_dump hd).2
    rw [if_neg hs]
    exact balanced_lowered (k := 0) hb (Nat.zero_le _) (congrArg Stage.threads hsame)
      (congrArg Stage.depth hsame) hrec

theorem balanced_pause (hb : Balanced w acc) (ho : Obliging w.answers) :
    Balanced (handle_pause.run w).2
      (if w.session.suspensions.vm.isSome then acc else { acc with vm := acc.vm + 1 }) := by
  simp only [handle_pause, run_bind, run_get]
  by_cases hvm : w.session.suspensions.vm.isSome
  · simp only [hvm, if_true]
    exact hb
  · simp only [hvm, if_false, run_bind, suspend_all, perform_run, Bool.false_eq_true]
    rw [ho.refuses]
    exact balanced_suspend_all hb rfl rfl rfl

theorem classify_obliging (ho : Obliging w.answers) (tid : ThreadId) :
    (tid ∈ w.jvm.threads ∧
      (classify_thread tid).run w = (.live, w.log (.thread_status tid))) ∨
    (tid ∉ w.jvm.threads ∧ ∃ alive, alive ≠ .live ∧
      (classify_thread tid).run w = (alive, w.log (.thread_status tid))) := by
  simp only [classify_thread, run_bind, get_thread_status_run, ho.refuses]
  by_cases ht : tid ∈ w.jvm.threads
  · left
    simp only [ht, if_true, true_and]
    rfl
  · right
    refine ⟨ht, ?_⟩
    simp only [ht, if_false]
    cases w.answers.zombie tid
    · exact ⟨.vanished, by simp, rfl⟩
    · exact ⟨.finished, by simp, rfl⟩

/-- The account of a thread that is not alive is nobody's concern. -/
theorem balanced_owed {owed : ThreadId → ℤ} (hb : Balanced w acc)
    (h : ∀ t ∈ w.jvm.threads, owed t = acc.owed t) : Balanced w { acc with owed := owed } := by
  constructor
  · intro t ht
    dsimp only
    rw [h t ht]
    exact hb.depth t ht
  · intro t ht howed
    dsimp only at howed ⊢
    rw [h t ht] at howed ⊢
    exact hb.recorded t ht howed

theorem suspend_thread_live (ho : Obliging w.answers) (hlive : tid ∈ w.jvm.threads) :
    ((handle_suspend_thread tid).run w).2.jvm = w.jvm.suspend_thread tid ∧
      records ((handle_suspend_thread tid).run w).2 =
        (w.session.suspensions.hold_thread tid w.answers.now).threads := by
  have hrun : (classify_thread tid).run (w.log (.thread_name tid)) =
      (.live, (w.log (.thread_name tid)).log (.thread_status tid)) := by
    rcases classify_obliging (w := w.log (.thread_name tid)) ho tid with ⟨-, h⟩ | ⟨h, -⟩
    · exact h
    · exact absurd hlive h
  have hgrant : World.refuses ((w.log (.thread_name tid)).log (.thread_status tid))
      (.suspend_thread tid) = none := ho _ _
  simp only [handle_suspend_thread, run_bind, send_run, hrun, suspend_thread, perform_run, hgrant,
    suspend_count_run]
  constructor <;> cases World.refuses _ (.suspend_count tid) <;> rfl

theorem suspend_thread_dead (ho : Obliging w.answers) (hdead : tid ∉ w.jvm.threads) :
    ((handle_suspend_thread tid).run w).2.jvm = w.jvm ∧
      records ((handle_suspend_thread tid).run w).2 = records w := by
  rcases classify_obliging (w := w.log (.thread_name tid)) ho tid with
    ⟨h, -⟩ | ⟨-, alive, hne, hrun⟩
  · exact absurd h hdead
  · simp only [handle_suspend_thread, run_bind, send_run, hrun]
    cases alive with
    | live => exact absurd rfl hne
    | vanished => exact ⟨rfl, rfl⟩
    | finished => exact ⟨rfl, rfl⟩
    | unreadable e => exact ⟨rfl, rfl⟩

theorem balanced_suspend_thread (hb : Balanced w acc) (ho : Obliging w.answers)
    (h : acc.owed tid < 4294967295) :
    Balanced ((handle_suspend_thread tid).run w).2
      { acc with owed := fun t => if t = tid then acc.owed t + 1 else acc.owed t } := by
  by_cases hlive : tid ∈ w.jvm.threads
  · obtain ⟨hjvm, hrec⟩ := suspend_thread_live ho hlive
    constructor
    · intro t ht
      rw [hjvm] at ht ⊢
      have hth : t ∈ w.jvm.threads := ht
      have := hb.depth t hth
      simp only [Jvm.suspend_thread, hth, and_true]
      split <;> omega
    · intro t ht howed
      rw [hjvm] at ht
      have hth : t ∈ w.jvm.threads := ht
      rw [hrec, Suspensions.get?_hold]
      dsimp only at howed ⊢
      by_cases htt : t = tid
      · subst htt
        rw [if_pos rfl] at howed ⊢
        refine ⟨_, rfl, ?_⟩
        rw [if_pos rfl]
        cases hr : w.session.suspensions.threads.get? t with
        | none =>
          have hnot : ¬ 0 < acc.owed t := by
            intro hpos
            obtain ⟨r, hsome, -⟩ := hb.recorded t hth hpos
            rw [records, hr] at hsome
            cases hsome
          simp only [Option.elim_none]
          omega
        | some r =>
          have hle : 0 < acc.owed t → acc.owed t ≤ r.issued := by
            intro hpos
            obtain ⟨r₀, hsome, hle⟩ := hb.recorded t hth hpos
            rw [records, hr] at hsome
            exact Option.some.inj hsome ▸ hle
          simp only [Option.elim_some, saturating_succ]
          omega
      · rw [if_neg htt] at howed ⊢
        rw [if_neg htt]
        exact hb.recorded t hth howed
  · obtain ⟨hjvm, hrec⟩ := suspend_thread_dead ho hlive
    have hsame : Balanced ((handle_suspend_thread tid).run w).2 acc := by
      constructor
      · rw [hjvm]
        exact hb.depth
      · rw [hjvm, hrec]
        exact hb.recorded
    refine balanced_owed hsame fun t ht => if_neg ?_
    rintro rfl
    rw [hjvm] at ht
    exact hlive ht

theorem release_thread_get (s : Suspensions) (tid t : ThreadId) {r : ThreadSuspend}
    (hr : s.threads.get? t = some r) (hmany : t = tid → 1 < r.issued) :
    ∃ r', (s.release_thread tid).threads.get? t = some r' ∧
      (r'.issued : ℤ) = if t = tid then (r.issued : ℤ) - 1 else r.issued := by
  unfold Suspensions.release_thread
  by_cases htt : t = tid
  · subst htt
    have := hmany rfl
    simp only [hr]
    rw [if_neg (by omega)]
    refine ⟨{ r with issued := r.issued - 1 }, ?_, ?_⟩
    · simp [Table.get?_modify, hr]
    · rw [if_true]
      dsimp only
      omega
  · rw [if_neg htt]
    cases s.threads.get? tid with
    | none => exact ⟨r, hr, rfl⟩
    | some q =>
      refine ⟨r, ?_, rfl⟩
      dsimp only
      split
      · simp [Table.get?_erase, htt, hr]
      · simp [Table.get?_modify, htt, hr]

theorem balanced_resume_thread (hb : Balanced w acc) (ho : Obliging w.answers)
    {thread_id : Option ThreadId} (hp : pick_thread w.session.suspensions thread_id = .ok tid) :
    Balanced ((handle_resume_thread thread_id).run w).2
      { acc with owed := fun t => if t = tid then acc.owed t - 1 else acc.owed t } := by
  have hgone : Gone w tid ↔ tid ∉ w.jvm.threads := by
    unfold Gone
    rw [ho.refuses]
  rcases resume_thread_picked hp with ⟨hg, -, hout⟩ | ⟨hg, hrun⟩
  · have hdead := hgone.mp hg
    have hthreads := congrArg Stage.threads hout
    have hdepth := congrArg Stage.depth hout
    have hbooks := congrArg Stage.books hout
    have howed : ∀ t ∈ w.jvm.threads, t ≠ tid := fun t ht htt => hdead (htt ▸ ht)
    constructor
    · intro t ht
      rw [show ((handle_resume_thread thread_id).run w).2.jvm.threads = w.jvm.threads
        from hthreads] at ht
      rw [show ((handle_resume_thread thread_id).run w).2.jvm.suspend_count = w.jvm.suspend_count
        from hdepth]
      dsimp only
      rw [if_neg (howed t ht)]
      exact hb.depth t ht
    · intro t ht hpos
      rw [show ((handle_resume_thread thread_id).run w).2.jvm.threads = w.jvm.threads
        from hthreads] at ht
      rw [show records ((handle_resume_thread thread_id).run w).2 =
        (w.session.suspensions.forget_thread tid).threads
        from congrArg Suspensions.threads hbooks, get_forget, if_neg (howed t ht)]
      dsimp only at hpos ⊢
      rw [if_neg (howed t ht)] at hpos ⊢
      exact hb.recorded t ht hpos
  · have hlog : stage (w.log (.thread_status tid)) = stage w :=
      stage_log w (by simp) (by simp) (by simp)
    have hcases := resume_one_thread_cases (w.log (.thread_status tid)) tid
    rw [hlog, ← hrun] at hcases
    rcases hcases with ⟨-, -, hlow⟩ | ⟨hno, -⟩
    · have hthreads : ((handle_resume_thread thread_id).run w).2.jvm.threads = w.jvm.threads :=
        hlow.threads
      have hdepth : ((handle_resume_thread thread_id).run w).2.jvm.suspend_count =
        fun t => if t = tid then w.jvm.suspend_count t - 1 else w.jvm.suspend_count t := hlow.depth
      have hrec : records ((handle_resume_thread thread_id).run w).2 =
        (w.session.suspensions.release_thread tid).threads :=
          congrArg Suspensions.threads hlow.books
      constructor
      · intro t ht
        rw [hthreads] at ht
        have := hb.depth t ht
        rw [hdepth]
        dsimp only
        split <;> omega
      · intro t ht hpos
        rw [hthreads] at ht
        rw [hrec]
        dsimp only at hpos ⊢
        have howed : 0 < acc.owed t := by split at hpos <;> omega
        obtain ⟨r, hr, hle⟩ := hb.recorded t ht howed
        obtain ⟨r', hr', hissued⟩ := release_thread_get w.session.suspensions tid t hr (by
          intro htt
          rw [if_pos htt] at hpos
          omega)
        refine ⟨r', hr', ?_⟩
        rw [hissued]
        split <;> omega
    · exact absurd (obliging_grants (w := w.log (.thread_status tid)) ho _ 0) hno

variable {es : EventSet} {t : ThreadId} {a : Answers} {e : Event} {loc : Location}

theorem judged_eq (hr : Reportable w es t e loc) :
    judged w es a = some (verdict w.session a e t loc) := by
  simp [judged, hr.1, hr.2.1]

theorem booked_records (s : Suspensions) (es : EventSet) (at_ : ℕ) :
    (booked s es none at_).threads = s.threads := by
  unfold booked
  split
  · rfl
  · rfl

theorem balanced_scene {counts : ThreadId → ℕ} {books : Suspensions} {events : EventRing}
    (hs : scene w' = { scene (met w es t a) with
      suspend_count := counts, suspensions := books, events := events })
    (hrec : books.threads = records w) (h : Balanced w acc) (vm : ℕ)
    (hcounts : ∀ u ∈ w.jvm.threads, vm + w.jvm.suspend_count u ≤ acc.vm + counts u) :
    Balanced w' { acc with vm := vm } := by
  have hthreads : w'.jvm.threads = (w.jvm.suspend_for es.suspend_policy t).threads :=
    congrArg Scene.threads hs
  have hsame : (w.jvm.suspend_for es.suspend_policy t).threads = w.jvm.threads := by
    cases es.suspend_policy <;> rfl
  rw [hsame] at hthreads
  have hdepth : w'.jvm.suspend_count = counts := congrArg Scene.suspend_count hs
  have hbooks : records w' = books.threads := congrArg (fun c => c.suspensions.threads) hs
  constructor
  · intro u hu
    rw [hthreads] at hu
    rw [hdepth]
    have := h.depth u hu
    have := hcounts u hu
    dsimp only
    omega
  · intro u hu howed
    rw [hthreads] at hu
    rw [hbooks, hrec]
    exact h.recorded u hu howed

theorem suspend_for_le (j : Jvm) (p : SuspendPolicy) (t u : ThreadId) :
    j.suspend_count u ≤ (j.suspend_for p t).suspend_count u := by
  cases p with
  | none => exact Nat.le_refl _
  | eventThread =>
    simp only [Jvm.suspend_for, Jvm.suspend_thread]
    split <;> omega
  | all =>
    simp only [Jvm.suspend_for, Jvm.suspend_all]
    split <;> omega

theorem let_go_ge (j : Jvm) {p : SuspendPolicy} (hp : p ≠ .none) (t : ThreadId) {u : ThreadId}
    (hu : u ∈ j.threads) :
    j.suspend_count u ≤
      (let_go (j.suspend_for p t) t (decide (p = .eventThread))).suspend_count u := by
  cases p with
  | none => exact absurd rfl hp
  | eventThread =>
    simp only [let_go, decide_true, if_true, Jvm.suspend_for, Jvm.resume_thread,
      Jvm.suspend_thread, hu, and_true]
    split <;> omega
  | all =>
    simp only [let_go, reduceCtorEq, decide_false, Bool.false_eq_true, if_false, Jvm.suspend_for,
      Jvm.resume_all, Jvm.suspend_all, hu, if_true]
    omega

theorem balanced_hit (hb : Balanced w acc) (ho : Obliging a) (hq : w.queue = [])
    (hp : es.suspend_policy ≠ .none) (hr : Reportable w es t e loc) :
    Balanced ((Move.hit es t a).next w) (acc.next w (.hit es t a)) := by
  obtain ⟨he, hl, hun⟩ := hr
  have hrun : (Move.hit es t a).next w = ((store_reportable_event es).run (met w es t a)).2 := by
    rw [hit_next hq, listen_untraced (w := met w es t a) hun]
  rw [hrun]
  simp only [Account.next, judged_eq ⟨he, hl, hun⟩]
  have hgrant : ∀ c, (met w es t a).refuses c = none := fun c => ho c _
  cases hv : verdict w.session a e t loc with
  | dropped =>
    refine balanced_scene (store_dropped (w := met w es t a) he hl hv) rfl hb acc.vm fun u hu => ?_
    have hafter : after_drop (met w es t a) t (decide (es.suspend_policy = .eventThread)) =
        (let_go (w.jvm.suspend_for es.suspend_policy t) t
          (decide (es.suspend_policy = .eventThread))).suspend_count := by
      rw [after_drop, hgrant]
      unfold let_go
      dsimp only
      split <;> rfl
    rw [hafter]
    exact Nat.add_le_add_left (let_go_ge w.jvm hp t hu) _
  | unconditional =>
    have hmet : verdict (met w es t a).session (met w es t a).answers e t loc = .unconditional := hv
    have hscene := store_unescalated he hl (by rw [hmet]; simp) fun _ => hmet
    have hrec := booked_records w.session.suspensions es a.now
    cases hpol : es.suspend_policy with
    | none => exact absurd hpol hp
    | eventThread =>
      refine balanced_scene hscene hrec hb acc.vm fun u hu => ?_
      exact Nat.add_le_add_left (suspend_for_le w.jvm _ t u) _
    | all =>
      refine balanced_scene hscene hrec hb (acc.vm + 1) fun u hu => ?_
      change _ ≤ acc.vm + (w.jvm.suspend_for es.suspend_policy t).suspend_count u
      rw [hpol]
      simp only [Jvm.suspend_for, Jvm.suspend_all, hu, if_true]
      omega
  | matched =>
    have hrec := booked_records w.session.suspensions es a.now
    cases hpol : es.suspend_policy with
    | none => exact absurd hpol hp
    | eventThread =>
      refine balanced_scene
        (store_escalated (w := met w es t a) he hl hv hpol (hgrant _)) hrec hb (acc.vm + 1)
        fun u hu => ?_
      have hle := suspend_for_le w.jvm es.suspend_policy t u
      have hth : u ∈ (met w es t a).jvm.threads := by
        change u ∈ (w.jvm.suspend_for es.suspend_policy t).threads
        rw [hpol]
        exact hu
      simp only [Jvm.suspend_all, hth, if_true]
      change _ ≤ acc.vm + ((w.jvm.suspend_for es.suspend_policy t).suspend_count u + 1)
      omega
    | all =>
      have hmet : verdict (met w es t a).session (met w es t a).answers e t loc = .matched := hv
      have hscene := store_unescalated he hl (by rw [hmet]; simp) fun hc => by simp [hpol] at hc
      refine balanced_scene hscene hrec hb (acc.vm + 1) fun u hu => ?_
      change _ ≤ acc.vm + (w.jvm.suspend_for es.suspend_policy t).suspend_count u
      rw [hpol]
      simp only [Jvm.suspend_for, Jvm.suspend_all, hu, if_true]
      omega

end Operations

section Runs

theorem balanced_move {w : World} {acc : Account} {m : Move} (hb : Balanced w acc)
    (hm : m.Allowed w) (hs : Sequenced w m) (hk : TakesBack w acc m) :
    Balanced (m.next w) (acc.next w m) := by
  cases m with
  | fire _ _ => exact hs.elim
  | listen _ => exact hs.elim
  | hit es t a =>
    obtain ⟨ho, hp, e, loc, hr⟩ := hs
    exact balanced_hit hb ho hm.2 hp hr
  | call c a =>
    have ho : Obliging (w.begin a).answers := hs.1
    have hb' : Balanced (w.begin a) acc := ⟨hb.depth, hb.recorded⟩
    simp only [Move.next]
    cases c with
    | pause =>
      simp only [Call.run, run_bind, run_pure]
      exact balanced_pause hb' ho
    | continue_ =>
      simp only [Call.run, run_bind, run_pure]
      exact balanced_continue hb' ho hk
    | step thread_id depth exclude only =>
      simp only [Call.run, run_bind, run_pure]
      exact balanced_step hb' ho hk
    | suspend_thread tid =>
      simp only [Call.run, run_bind, run_pure]
      exact balanced_suspend_thread hb' ho hk
    | resume_thread thread_id =>
      simp only [Call.run, run_bind, run_pure, Account.next]
      cases hp : pick_thread w.session.suspensions thread_id with
      | ok tid => exact balanced_resume_thread hb' ho hp
      | error e =>
        rw [resume_thread_unpicked (w := w.begin a) hp]
        exact hb'
    | thread_dump suspend =>
      cases suspend with
      | true =>
        simp only [Call.run, run_bind, run_pure]
        exact balanced_dump hb' ho hk
      | false => exact hs.2.elim
    | _ => exact hs.2.elim

/-- A sequence from a session that holds nothing, whatever it has armed, in which every VM-wide
resume takes back a VM-wide suspend: a live thread that was suspended more often than resumed
stays suspended, and on record. -/
theorem held_threads_stay_held {w₀ w : World} {acc : Account}
    (hrun : Relation.ReflTransGen (Entry TakesBack) (w₀, .opened) (w, acc)) {t : ThreadId}
    (hlive : t ∈ w.jvm.threads) (howed : 0 < acc.owed t) :
    0 < w.jvm.suspend_count t ∧ (w.session.suspensions.threads.get? t).isSome := by
  have hb : Balanced w acc := by
    have hstart : Balanced w₀ .opened := by
      constructor
      · intro t _
        simp [Account.opened]
      · intro t _ h
        simp [Account.opened] at h
    suffices h : ∀ x, Relation.ReflTransGen (Entry TakesBack) (w₀, .opened) x →
        Balanced x.1 x.2 from h _ hrun
    intro x hx
    induction hx with
    | refl => exact hstart
    | tail _ hlast ih =>
      obtain ⟨m, hallowed, hseq, hok, rfl⟩ := hlast
      exact balanced_move ih hallowed hseq hok
  obtain ⟨r, hr, -⟩ := hb.recorded t hlive howed
  refine ⟨?_, Option.isSome_iff_exists.mpr ⟨r, hr⟩⟩
  have := hb.depth t hlive
  omega

/-- The caller holds thread 2, pauses the VM and continues it. -/
def paused_and_continued : List Move :=
  [.call (.suspend_thread 2) plain, .call .pause plain, .call .continue_ plain]

def entered (x : World × Account) (m : Move) : World × Account := (m.next x.1, x.2.next x.1 m)

def thread_two_kept : World × Account :=
  paused_and_continued.foldl entered (line_armed none, .opened)

theorem held_threads_stay_held_paused : 0 < thread_two_kept.1.jvm.suspend_count 2 ∧
    (thread_two_kept.1.session.suspensions.threads.get? 2).isSome := by
  refine @held_threads_stay_held (line_armed none) thread_two_kept.1 thread_two_kept.2 ?_ 2
    (by decide) (by decide)
  refine .tail (.tail (.single (Entry.intro (.call (.suspend_thread 2) plain) trivial
    ⟨obliging_plain, trivial⟩ ?_)) (Entry.intro (.call .pause plain) trivial
    ⟨obliging_plain, trivial⟩ trivial)) (Entry.intro (.call .continue_ plain) trivial
    ⟨obliging_plain, trivial⟩ ?_)
  · change (0 : ℤ) < 4294967295
    decide
  · change due (stage _) ≤ _
    decide

/-- Thread 2 is held, thread 1 hits a line whose condition matches, and the VM is continued: thread
1 is two deep, and the second resume costs thread 2 the caller's own level. -/
def thread_two_lost : World × Account :=
  [.call (.suspend_thread 2) plain, .hit (line_hit .eventThread 1) 1 plain,
    .call .continue_ plain].foldl entered (line_armed (some "c"), .opened)

theorem continue_releases_held_thread :
    Relation.ReflTransGen (Entry fun _ _ _ => True) (line_armed (some "c"), .opened)
        thread_two_lost ∧
      2 ∈ thread_two_lost.1.jvm.threads ∧ 0 < thread_two_lost.2.owed 2 ∧
      thread_two_lost.1.jvm.suspend_count 2 = 0 ∧
      thread_two_lost.1.session.suspensions.threads.get? 2 = none := by
  refine ⟨.tail (.tail (.single (Entry.intro (.call (.suspend_thread 2) plain) trivial
    ⟨obliging_plain, trivial⟩ trivial)) (Entry.intro (.hit (line_hit .eventThread 1) 1 plain) ?_
    ⟨obliging_plain, by decide, _, _, rfl, rfl, ?_⟩ trivial)) (Entry.intro (.call .continue_ plain)
    trivial ⟨obliging_plain, trivial⟩ trivial), by decide, by decide, by decide, by decide⟩
  · change Fires _ _ _ ∧ _
    decide
  · unfold Untraced
    decide

end Runs

end JavaDebug.HeldThreads
