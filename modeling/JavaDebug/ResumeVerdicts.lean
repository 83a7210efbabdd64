import JavaDebug.Connection
import JavaDebug.ProgramRuns
import JavaDebug.WireReader

/-!
What the resume loop of a connection tells from the answers it gets. Its verdict
that nothing is suspended any more is compared with what the JVM said last of
the probe thread: over every run, whatever is answered and whatever is lost, and
under a JVM that counts its suspends. A count that could not be read is taken
for a count of zero, whichever way the read failed.
-/
namespace JavaDebug.ResumeVerdicts

open Dialogue ProgramRuns Octets RequestFraming Connection
open EventLoop (CommandPacket ReplyPacket)

section Answers

def INVALID_THREAD : UInt16 := 10
def ERR_INVALID_OBJECT : UInt16 := 20

def asks_count (probe_thread : ThreadId) (p : CommandPacket) : Bool :=
  p.command_set == 11 && p.command == 12 && p.data == put_u64 probe_thread

def count_answer (probe_thread : ThreadId) : Exchange wire → Option (JdwpResult Int32)
  | ⟨.issue p, a⟩ =>
    if asks_count probe_thread p then some ((of_loop a).bind (decode read_i32)) else none
  | _ => none

/-- How the SuspendCount commands for a thread were answered, in order. -/
def count_answers (probe_thread : ThreadId) (l : List (Exchange wire)) :
    List (JdwpResult Int32) := l.filterMap (count_answer probe_thread)

/-- The JVM said that the thread no longer exists. -/
def gone : JdwpResult Int32 → Bool
  | .error (.jdwp_error_code code) => code == INVALID_THREAD || code == ERR_INVALID_OBJECT
  | _ => false

/-- A reply of the JVM arrived and was read, if only as an error of its own. -/
def answered : JdwpResult Int32 → Bool
  | .ok _ | .error (.jdwp_error_code _) => true
  | .error _ => false

def shows_running : JdwpResult Int32 → Bool
  | .ok count => count ≤ 0
  | a => gone a

def positive : JdwpResult Int32 → Bool
  | .ok count => 0 < count
  | .error _ => false

/-- The last answer of the JVM was that the thread is not suspended, or not there. -/
def Seen (answers : List (JdwpResult Int32)) : Prop :=
  ∃ a, (answers.filter answered).getLast? = some a ∧ shows_running a

def told : JdwpResult Int32 → Bool
  | .ok _ => true
  | a => gone a

/-- The first command that did not bring a positive count brought a count, or the word that the
thread is gone. -/
def Told (answers : List (JdwpResult Int32)) : Prop :=
  ∀ a, answers.find? (fun a => !positive a) = some a → told a

variable {a : JdwpResult Int32} {answers : List (JdwpResult Int32)}

theorem shows_running_told (h : positive a = false) : shows_running a = told a := by
  cases a with
  | ok count =>
    have hle : count ≤ 0 := by simpa [positive] using h
    simp [shows_running, told, hle]
  | error e => simp [shows_running, told]

theorem positive_hidden (h : positive a) : shows_running a = false := by
  cases a with
  | ok count => simpa [positive, shows_running] using h
  | error e => simp [positive] at h

theorem told_positive (h : ∀ a ∈ answers, positive a) : Told answers := by
  intro a ha
  have hp := h a (List.mem_of_find?_eq_some ha)
  have hn := List.find?_some ha
  simp [hp] at hn

theorem told_snoc (h : ∀ a ∈ answers, positive a) (a : JdwpResult Int32) :
    Told (answers ++ [a]) ↔ positive a ∨ told a := by
  have hnone : answers.find? (fun a => !positive a) = none := by
    rw [List.find?_eq_none]
    intro b hb
    simp [h b hb]
  unfold Told
  rw [List.find?_append, hnone]
  by_cases hp : positive a
  · simp [hp]
  · simp [hp]

theorem seen_snoc (h : ∀ a ∈ answers, positive a) (hp : positive a = false) :
    Seen (answers ++ [a]) ↔ told a := by
  rw [← shows_running_told hp]
  unfold Seen
  rw [List.filter_append]
  by_cases ha : answered a
  · simp [ha]
  · have hempty : [a].filter answered = [] := by simp [ha]
    rw [hempty, List.append_nil]
    have hnot : shows_running a = false := by
      cases a with
      | ok count => simp [answered] at ha
      | error e => cases e <;> simp [answered, shows_running, gone] at ha ⊢
    rw [hnot]
    refine ⟨fun ⟨b, hb, hrun⟩ => ?_, fun hf => by cases hf⟩
    have hmem := List.mem_of_mem_filter (List.mem_of_getLast? hb)
    rw [positive_hidden (h b hmem)] at hrun
    exact hrun

end Answers

section Loop

/-- A JVM that may answer anything, or not at all. -/
abbrev Anything (o : Op) (_ : o.Answer) : Prop := True

/-- What a command exchanges. -/
def exchanged (id : UInt32) (set cmd : UInt8) (body : Bytes) (a : EventLoop.JdwpResult ReplyPacket)
    : List (Exchange wire) :=
  [⟨.next_id, id⟩, ⟨.add_round_trips 1, ()⟩, ⟨.issue ⟨id, set, cmd, body⟩, a⟩]

variable {l : List (Exchange wire)} (probe_thread : ThreadId) {r : JdwpResult (ℕ × Int32)}

theorem run_command {α : Type} {set cmd : UInt8} {body : Bytes} {p : Decode α} {r : JdwpResult α}
    (h : Run Anything (command set cmd body p).run l (some r)) :
    ∃ id a, l = exchanged id set cmd body a ∧ r = (of_loop a).bind (decode p) := by
  rw [command_run] at h
  cases h with
  | ask _ h =>
    cases h with
    | ask _ h =>
      cases h with
      | ask _ h =>
        cases h with
        | done => exact ⟨_, _, rfl, rfl⟩

theorem count_answers_append (l l' : List (Exchange wire)) :
    count_answers probe_thread (l ++ l') =
      count_answers probe_thread l ++ count_answers probe_thread l' := List.filterMap_append

theorem count_answers_exchanged (id : UInt32) (set cmd : UInt8) (body : Bytes)
    (a : EventLoop.JdwpResult ReplyPacket) :
    count_answers probe_thread (exchanged id set cmd body a) =
      if asks_count probe_thread ⟨id, set, cmd, body⟩ then [(of_loop a).bind (decode read_i32)]
      else [] := by
  have hone : ∀ e : Exchange wire, [e].filterMap (count_answer probe_thread) =
      (count_answer probe_thread e).toList := by
    intro e
    cases h : count_answer probe_thread e <;> simp [h]
  refine (hone ⟨.issue ⟨id, set, cmd, body⟩, a⟩).trans ?_
  simp only [count_answer]
  split <;> rfl

theorem run_resume_all {probe_thread : ThreadId} {r : JdwpResult Unit}
    (h : Run Anything resume_all.run l (some r)) : count_answers probe_thread l = [] := by
  obtain ⟨id, a, rfl, -⟩ := run_command h
  rfl

/-- A count that could not be read is 0. -/
def taken (a : JdwpResult Int32) : Int32 := a.toOption.getD 0

theorem run_suspend_count_or_zero {probe_thread : ThreadId} {left : Int32}
    (h : Run Anything (suspend_count_or_zero probe_thread) l (some left)) :
    ∃ a, count_answers probe_thread l = [a] ∧ left = taken a := by
  rcases run_bind h with ⟨hnone, -⟩ | ⟨a, l₁, l₂, rfl, hcount, hdone⟩
  · cases hnone
  · cases hdone
    obtain ⟨id, reply, rfl, rfl⟩ := run_command hcount
    refine ⟨_, ?_, rfl⟩
    rw [List.append_nil, count_answers_exchanged, if_pos (by simp [asks_count])]

/-- How a run of the loop ends: a resume failed, a count was taken for running, or the last count
was reported. All counts before were positive. -/
inductive Ended : List (JdwpResult Int32) → JdwpResult (ℕ × Int32) → Prop
  | failed {answers : List (JdwpResult Int32)} (e : JdwpError) (h : ∀ a ∈ answers, positive a) :
    Ended answers (.error e)
  | running {answers : List (JdwpResult Int32)} {a : JdwpResult Int32} (issued : ℕ)
    (h : ∀ a ∈ answers, positive a) (ha : taken a ≤ 0) : Ended (answers ++ [a]) (.ok (issued, 0))
  | left {answers : List (JdwpResult Int32)} (a : JdwpResult Int32) (issued : ℕ)
    (h : ∀ a ∈ answers, positive a) : Ended (answers ++ [a]) (.ok (issued, taken a))

theorem positive_taken {a : JdwpResult Int32} (h : ¬ taken a ≤ 0) : positive a := by
  cases a with
  | ok count => simpa [positive, taken, Except.toOption] using h
  | error e => simp [taken, Except.toOption] at h

theorem ended_cons {a : JdwpResult Int32} {answers : List (JdwpResult Int32)} (ha : positive a)
    (h : Ended answers r) : Ended (a :: answers) r := by
  have hcons : ∀ {l : List (JdwpResult Int32)}, (∀ b ∈ l, positive b) →
      ∀ b ∈ a :: l, positive b := by
    intro l hl b hb
    rcases List.mem_cons.mp hb with rfl | hb
    · exact ha
    · exact hl b hb
  cases h with
  | failed e hl => exact .failed e (hcons hl)
  | running issued hl hb => exact .running issued (hcons hl) hb
  | left b issued hl => exact .left b issued (hcons hl)

theorem resume_all_fully_ended (issued resumes : ℕ)
    (h : Run Anything (resume_all_fully_from probe_thread issued resumes).run l (some r)) :
    Ended (count_answers probe_thread l) r := by
  induction resumes generalizing issued l with
  | zero =>
    rcases run_then h with ⟨e, rfl, hm⟩ | ⟨left, l₁, l₂, rfl, hm, hf⟩
    · obtain ⟨a, ha, -⟩ := run_lift hm
      cases ha
    · obtain ⟨b, hb, hcount⟩ := run_lift hm
      cases hb
      obtain ⟨a, ha, rfl⟩ := run_suspend_count_or_zero hcount
      cases hf
      rw [List.append_nil, ha]
      exact @Ended.left [] a issued (by simp)
  | succ n ih =>
    rcases run_then h with ⟨e, rfl, hm⟩ | ⟨u, l₁, l₂, rfl, hm, hf⟩
    · exact .failed e (by simp [run_resume_all hm])
    · rw [count_answers_append, run_resume_all hm, List.nil_append]
      rcases run_then hf with ⟨e, rfl, hm⟩ | ⟨left, l₃, l₄, rfl, hm, hf⟩
      · obtain ⟨a, ha, -⟩ := run_lift hm
        cases ha
      · obtain ⟨b, hb, hcount⟩ := run_lift hm
        cases hb
        obtain ⟨a, ha, rfl⟩ := run_suspend_count_or_zero hcount
        rw [count_answers_append, ha]
        by_cases hz : taken a ≤ 0
        · rw [if_pos hz] at hf
          cases hf
          exact @Ended.running [] a (issued + 1) (by simp) hz
        · rw [if_neg hz] at hf
          exact ended_cons (positive_taken hz) (ih (issued + 1) hf)

theorem ended_seen_iff {answers : List (JdwpResult Int32)} (h : Ended answers r) :
    (∀ issued, r = .ok (issued, 0) → Seen answers) ↔ Told answers := by
  cases h with
  | failed e h => simp [told_positive h]
  | @running answers a issued h ha =>
    have hp : positive a = false := by
      cases a with
      | ok count => simpa [positive, taken, Except.toOption] using ha
      | error e => rfl
    rw [told_snoc h, ← seen_snoc h hp]
    simp [hp]
  | @left answers a issued h =>
    by_cases hz : taken a = 0
    · have hp : positive a = false := by
        cases a with
        | ok count =>
          have hcount : count = 0 := hz
          simp [positive, hcount]
        | error e => rfl
      rw [told_snoc h, ← seen_snoc h hp]
      simp [hp, hz]
    · have htold : told a := by
        cases a with
        | ok count => rfl
        | error e => simp [taken, Except.toOption] at hz
      rw [told_snoc h]
      simp [hz, htold]

end Loop

section Counting

variable {σ : Type}

/-- A JVM that holds a suspend count for each thread. A Resume takes one off every positive count,
and nothing else changes one. -/
structure CountingJvm (serve : σ → (o : Op) → o.Answer × σ) (count : σ → ThreadId → ℕ) : Prop where
  resume : ∀ s id, ∃ r : ReplyPacket, r.error_code = 0 ∧
    (serve s (.issue ⟨id, 1, 9, []⟩)).1 = .ok r ∧
    ∀ t, count (serve s (.issue ⟨id, 1, 9, []⟩)).2 t = count s t - 1
  ask : ∀ s id t, ∃ reply_id : UInt32,
    (serve s (.issue ⟨id, 11, 12, put_u64 t⟩)).1 =
      .ok ⟨reply_id, 0, put_i32 (Int32.ofNat (count s t))⟩ ∧
    count (serve s (.issue ⟨id, 11, 12, put_u64 t⟩)).2 = count s
  id : ∀ s, count (serve s .next_id).2 = count s
  trips : ∀ s n, count (serve s (.add_round_trips n)).2 = count s

variable {serve : σ → (o : Op) → o.Answer × σ} {count : σ → ThreadId → ℕ}

theorem command_served (h : CountingJvm serve count) {α : Type} (set cmd : UInt8) (body : Bytes)
    (p : Decode α) (s : σ) :
    ∃ id s', count s' = count s ∧ (command set cmd body p).run.served serve s =
      ((of_loop (serve s' (.issue ⟨id, set, cmd, body⟩)).1).bind (decode p),
        (serve s' (.issue ⟨id, set, cmd, body⟩)).2) := by
  rw [command_run]
  refine ⟨(serve s .next_id).1, (serve (serve s .next_id).2 (.add_round_trips 1)).2, ?_, rfl⟩
  rw [h.trips, h.id]

theorem resume_all_served (h : CountingJvm serve count) (s : σ) :
    (resume_all.run.served serve s).1 = .ok () ∧
      ∀ t, count (resume_all.run.served serve s).2 t = count s t - 1 := by
  obtain ⟨id, s', hs, hrun⟩ := command_served h 1 9 [] (pure () : Decode Unit) s
  obtain ⟨r, hr, hanswer, hcount⟩ := h.resume s' id
  unfold resume_all
  rw [hrun, hanswer]
  refine ⟨?_, fun t => by rw [hcount, hs]⟩
  change decode (pure ()) r = .ok ()
  simp only [decode, check_error, hr, if_true]
  rfl

theorem decode_put_i32 (id : UInt32) (n : Int32) : decode read_i32 ⟨id, 0, put_i32 n⟩ = .ok n := by
  have hread : read_i32 (put_i32 n) = .ok (n, []) := by
    have h := WireReader.reads_i32 n []
    rw [List.append_nil] at h
    rw [read_i32, on_wire, h]
    rfl
  show (read_i32 (put_i32 n) >>= fun r => pure r.1 : JdwpResult Int32) = _
  rw [hread]
  rfl

theorem suspend_count_served (h : CountingJvm serve count) (s : σ) (t : ThreadId) :
    ((suspend_count_or_zero t).served serve s).1 = Int32.ofNat (count s t) ∧
      count ((suspend_count_or_zero t).served serve s).2 = count s := by
  obtain ⟨id, s', hs, hrun⟩ := command_served h 11 12 (put_u64 t) read_i32 s
  obtain ⟨reply_id, hanswer, hcount⟩ := h.ask s' id t
  unfold suspend_count_or_zero suspend_count
  rw [Program.served_bind, hrun, hanswer]
  refine ⟨?_, hcount.trans hs⟩
  change (decode read_i32 ⟨reply_id, 0, put_i32 (Int32.ofNat (count s' t))⟩).toOption.getD 0 = _
  rw [decode_put_i32, hs]
  rfl

/-- From a count of `c`, with so many resumes to go. -/
def counted (issued resumes c : ℕ) : ℕ × Int32 :=
  if 0 < resumes ∧ c ≤ resumes then (issued + max 1 c, 0)
  else (issued + resumes, Int32.ofNat (c - resumes))

theorem counted_zero (issued c : ℕ) : counted issued 0 c = (issued, Int32.ofNat c) := by
  simp [counted]

theorem counted_last {issued resumes c : ℕ} (hc : c ≤ 1) :
    counted issued (resumes + 1) c = (issued + 1, 0) := by
  unfold counted
  rw [if_pos ⟨by omega, by omega⟩]
  congr 2
  omega

theorem counted_succ {issued resumes c : ℕ} (hc : 1 < c) :
    counted issued (resumes + 1) c = counted (issued + 1) resumes (c - 1) := by
  unfold counted
  by_cases hle : c ≤ resumes + 1
  · rw [if_pos ⟨by omega, hle⟩, if_pos ⟨by omega, by omega⟩]
    congr 1
    omega
  · have hissued : issued + (resumes + 1) = issued + 1 + resumes := by omega
    have hleft : c - (resumes + 1) = c - 1 - resumes := by omega
    rw [if_neg (by omega), if_neg (by omega), hissued, hleft]

theorem ofNat_le_zero_iff {c : ℕ} (hc : c ≤ 2147483647) : Int32.ofNat c ≤ 0 ↔ c = 0 := by
  rw [Int32.le_iff_toInt_le, Int32.toInt_ofNat_of_lt (by omega)]
  change (c : ℤ) ≤ 0 ↔ c = 0
  omega

theorem resume_all_fully_served (h : CountingJvm serve count) (probe_thread : ThreadId)
    (issued resumes : ℕ) (s : σ) (hc : count s probe_thread ≤ 2147483647) :
    ((resume_all_fully_from probe_thread issued resumes).run.served serve s).1 =
      .ok (counted issued resumes (count s probe_thread)) := by
  induction resumes generalizing issued s with
  | zero =>
    obtain ⟨hleft, -⟩ := suspend_count_served h s probe_thread
    have hlift := Program.served_lift (ε := JdwpError) serve (suspend_count_or_zero probe_thread) s
    unfold resume_all_fully_from
    rw [Program.served_then (I := wire) serve (congrArg Prod.fst hlift), hleft, counted_zero]
    rfl
  | succ n ih =>
    obtain ⟨hok, hcount⟩ := resume_all_served h s
    unfold resume_all_fully_from
    rw [Program.served_then (I := wire) serve hok]
    generalize (resume_all.run.served serve s).2 = s₁ at hcount
    obtain ⟨hleft, hsame⟩ := suspend_count_served h s₁ probe_thread
    have hlift := Program.served_lift (ε := JdwpError) serve
      (suspend_count_or_zero probe_thread) s₁
    rw [Program.served_then (I := wire) serve (congrArg Prod.fst hlift), hlift, hleft]
    generalize ((suspend_count_or_zero probe_thread).served serve s₁).2 = s₂ at hsame
    have hnow : count s₂ probe_thread = count s probe_thread - 1 := by rw [hsame, hcount]
    rw [hcount]
    by_cases hz : count s probe_thread ≤ 1
    · have hzero : Int32.ofNat (count s probe_thread - 1) ≤ 0 := by
        rw [ofNat_le_zero_iff (by omega)]
        omega
      rw [if_pos hzero, counted_last hz]
      rfl
    · have hmore : ¬ Int32.ofNat (count s probe_thread - 1) ≤ 0 := by
        rw [ofNat_le_zero_iff (by omega)]
        omega
      rw [if_neg hmore, ih (issued + 1) s₂ (by omega), hnow, counted_succ (by omega)]

end Counting

section Verdict

/-- The verdict that nothing is suspended was seen, in every run, exactly if the first command that
did not bring a positive count was told of one or of the end of the thread; and under a JVM that
counts, the loop ends as its bound says, unless there was nothing to resume and nothing allowed. -/
theorem verdict_seen_iff (probe_thread : ThreadId) (max_resumes : ℕ) :
    (∀ (l : List (Exchange wire)) (r : JdwpResult (ℕ × Int32)),
      Run Anything (resume_all_fully probe_thread max_resumes).run l (some r) →
        ((∀ issued, r = .ok (issued, 0) → Seen (count_answers probe_thread l)) ↔
          Told (count_answers probe_thread l))) ∧
    ∀ (σ : Type) (serve : σ → (o : Op) → o.Answer × σ) (count : σ → ThreadId → ℕ),
      CountingJvm serve count → ∀ s, count s probe_thread ≤ 2147483647 →
        (((resume_all_fully probe_thread max_resumes).run.served serve s).1 =
            .ok (if count s probe_thread ≤ max_resumes then (max 1 (count s probe_thread), 0)
              else (max_resumes, Int32.ofNat (count s probe_thread - max_resumes))) ↔
          ¬ (max_resumes = 0 ∧ count s probe_thread = 0)) := by
  refine ⟨fun l r h => ended_seen_iff (resume_all_fully_ended probe_thread 0 max_resumes h),
    fun σ serve count h s hc => ?_⟩
  have hserved := resume_all_fully_served h probe_thread 0 max_resumes s hc
  unfold resume_all_fully
  rw [hserved, Except.ok.injEq]
  unfold counted
  rw [Nat.zero_add, Nat.zero_add]
  by_cases hle : count s probe_thread ≤ max_resumes
  · by_cases hzero : max_resumes = 0
    · have hcount : count s probe_thread = 0 := by omega
      simp [hzero, hcount]
    · simp [hle, hzero, Nat.pos_of_ne_zero hzero]
  · have hcount : count s probe_thread ≠ 0 := by omega
    simp [hle, hcount]

/-- Two resumes are carried out; the first count is three, the second is not answered in time. -/
def unanswered : List (Exchange wire) :=
  exchanged 1 1 9 [] (.ok ⟨1, 0, []⟩) ++
    exchanged 2 11 12 (put_u64 7) (.ok ⟨2, 0, put_i32 3⟩) ++
    exchanged 3 1 9 [] (.ok ⟨3, 0, []⟩) ++
    exchanged 4 11 12 (put_u64 7) (.error (.reply_timeout 30))

theorem unanswered_run :
    Run Anything (resume_all_fully 7 8).run unanswered (some (.ok (2, 0))) := by
  repeat apply Run.ask trivial
  exact Run.done _

theorem unanswered_unseen : ¬ Seen (count_answers 7 unanswered) := by
  have hanswers : count_answers 7 unanswered =
      [decode read_i32 ⟨2, 0, put_i32 3⟩, .error (.transport (.reply_timeout 30))] := rfl
  rw [hanswers, decode_put_i32]
  unfold Seen
  simp [answered, shows_running, gone]

theorem timeout_taken_for_running :
    ¬ ∀ (probe_thread : ThreadId) (max_resumes issued : ℕ) (l : List (Exchange wire)),
      Run Anything (resume_all_fully probe_thread max_resumes).run l (some (.ok (issued, 0))) →
        Seen (count_answers probe_thread l) := by
  intro h
  exact unanswered_unseen (h 7 8 2 unanswered unanswered_run)

/-- A JVM of one thread, which is its state. -/
def one_thread_jvm (suspended : ℕ) : (o : Op) → o.Answer × ℕ
  | .issue p =>
    if p.command_set = 1 ∧ p.command = 9 then (.ok ⟨p.id, 0, []⟩, suspended - 1)
    else (.ok ⟨p.id, 0, put_i32 (Int32.ofNat suspended)⟩, suspended)
  | .load_read_only => (false, suspended)
  | .store_read_only _ | .store_invoke_timeout _ | .add_round_trips _ | .edit_types _ =>
    ((), suspended)
  | .next_id | .packets_sent | .load_round_trips => ((1 : UInt32), suspended)
  | .load_invoke_timeout => ((0 : UInt64), suspended)
  | .load_types =>
    (⟨fun _ => none, fun _ => none, fun _ => none, fun _ => .unknown, fun _ => none⟩, suspended)
  | .issue_within _ _ | .recv_event => (none, suspended)

theorem one_thread_counts : CountingJvm one_thread_jvm fun suspended _ => suspended where
  resume _ id := ⟨⟨id, 0, []⟩, rfl, rfl, fun _ => rfl⟩
  ask _ id _ := ⟨id, rfl, rfl⟩
  id _ := rfl
  trips _ _ := rfl

theorem verdict_seen_iff_unanswered :
    ¬ Told (count_answers 7 unanswered) ∧
      ((resume_all_fully 7 8).run.served one_thread_jvm 3).1 = .ok (3, 0) := by
  obtain ⟨hseen, hserved⟩ := verdict_seen_iff 7 8
  refine ⟨fun h => ?_, ?_⟩
  · exact unanswered_unseen ((hseen unanswered _ unanswered_run).mpr h 2 rfl)
  · exact (hserved ℕ one_thread_jvm _ one_thread_counts 3 (by omega)).mpr (by omega)

end Verdict

end JavaDebug.ResumeVerdicts
