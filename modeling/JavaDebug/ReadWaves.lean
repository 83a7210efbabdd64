import JavaDebug.EventLoop

/-!
`read_independently` as a caller of the event loop. The reader takes one step
per turn and waits by leaving everything as it is; between its turns the loop,
the debuggee and the other callers do whatever they can. The reply channels of
the commands issued so far are kept in order, to say whose outcome a result is.
-/
namespace JavaDebug.ReadWaves

open EventLoop

/-- Where the reader stands in the body of its `for`: before the look at the window, before the
issue, or draining the window ahead of the error of an issue that failed. -/
inductive Stage
  | head
  | issuing
  | failing (e : JdwpError)
  deriving DecidableEq

structure Waves where
  loop : Loop
  todo : List CommandPacket
  stage : Stage
  window : List ℕ
  results : List (JdwpResult ReplyPacket)
  round_trips : UInt32
  channels : List ℕ

def read_independently (loop : Loop) (round_trips : UInt32) (packets : List CommandPacket) :
    Waves :=
  ⟨loop, packets, .head, [], [], round_trips + waves_u32 packets, []⟩

namespace Waves

variable (w : Waves)

/-- `results.push(oldest.reply().await)` of what `window.pop_front()` gives. -/
def collect : Waves :=
  match w.window with
  | [] => w
  | oldest :: rest =>
    match w.loop.reply oldest with
    | none => w
    | some r => { w with window := rest, results := w.results ++ [r] }

def issue (packet : CommandPacket) (rest : List CommandPacket) : Waves :=
  let issued : Waves :=
    { w with
      loop := w.loop.issue packet
      todo := rest
      channels := w.channels ++ [w.loop.issued.length] }
  if w.loop.returned then
    { issued with stage := .failing (Loop.lost w.loop.shutdown "the command was never sent") }
  else if w.loop.command_rx.length < COMMAND_CHANNEL_DEPTH then
    { issued with stage := .head, window := w.window ++ [w.loop.issued.length] }
  else
    w

def advance : Waves :=
  match w.stage, w.todo with
  | .head, [] => w.collect
  | .head, _ :: _ =>
    if MAX_READS_IN_FLIGHT ≤ w.window.length then
      if (w.window.head?.bind w.loop.reply).isSome then { w.collect with stage := .issuing } else w
    else
      { w with stage := .issuing }
  | .issuing, [] => w
  | .issuing, packet :: rest => w.issue packet rest
  | .failing e, _ =>
    if w.window = [] then { w with stage := .head, results := w.results ++ [.error e] }
    else w.collect

def finished : Bool := w.stage == .head && w.todo.isEmpty && w.window.isEmpty

end Waves

inductive Turn
  | reader
  | other (e : Event)

def step (w : Waves) : Turn → Waves
  | .reader => w.advance
  | .other e => { w with loop := EventLoop.step w.loop e }

def run (w : Waves) (turns : List Turn) : Waves := turns.foldl step w

section Alignment

/-- The command of which the issue has failed and the error is still to be pushed. -/
def Waves.failed (w : Waves) : List (JdwpResult ReplyPacket) :=
  match w.stage with
  | .failing e => [.error e]
  | _ => []

/-- The channels are those of the results so far, of the window, and of the failed issue. -/
structure Aligned (packets : List CommandPacket) (w : Waves) : Prop where
  sound : Sound w.loop
  position : w.channels.map (fun c => w.loop.issued[c]?) ++ w.todo.map some = packets.map some
  order : w.channels.Pairwise (· < ·)
  bound : w.window.length ≤ MAX_READS_IN_FLIGHT
  room : w.stage = .issuing → w.window.length < MAX_READS_IN_FLIGHT ∧ w.todo ≠ []
  outcomes : ∃ collected failed, w.channels = collected ++ w.window ++ failed ∧
    List.Forall₂ (Outcome w.loop) collected w.results ∧
    List.Forall₂ (Outcome w.loop) failed w.failed

theorem read_independently_aligned {loop : Loop} (h : Sound loop) (round_trips : UInt32)
    (packets : List CommandPacket) :
    Aligned packets (read_independently loop round_trips packets) where
  sound := h
  position := by simp [read_independently]
  order := by simp [read_independently]
  bound := by simp [read_independently]
  room := by simp [read_independently]
  outcomes := ⟨[], [], rfl, .nil, .nil⟩

variable {packets : List CommandPacket} {w : Waves}

theorem channels_issued (h : Aligned packets w) {c : ℕ} (hc : c ∈ w.channels) :
    c < w.loop.issued.length := by
  have hmem : w.loop.issued[c]? ∈ packets.map some := by
    rw [← h.position, List.mem_append, List.mem_map]
    exact .inl ⟨c, hc, rfl⟩
  obtain ⟨packet, -, hpacket⟩ := List.mem_map.mp hmem
  exact (List.getElem?_eq_some_iff.mp hpacket.symm).choose

theorem outcomes_later {s s' : Loop} (hs : Later s s') {l : List ℕ}
    {rs : List (JdwpResult ReplyPacket)} (h : List.Forall₂ (Outcome s) l rs)
    (hl : ∀ c ∈ l, c < s.issued.length) : List.Forall₂ (Outcome s') l rs := by
  induction h with
  | nil => exact .nil
  | cons ho _ ih =>
    refine .cons (ho.later (hl _ (by simp)) hs) (ih fun c hc => hl c ?_)
    exact List.mem_cons_of_mem _ hc

theorem position_later {s s' : Loop} (hs : Later s s') {l : List ℕ}
    (hl : ∀ c ∈ l, c < s.issued.length) :
    l.map (fun c => s'.issued[c]?) = l.map fun c => s.issued[c]? := by
  refine List.map_congr_left fun c hc => ?_
  obtain ⟨more, hmore⟩ := hs.issued
  rw [← hmore, List.getElem?_append_left (hl c hc)]

theorem other_aligned (h : Aligned packets w) {loop : Loop} (hs : Sound loop)
    (hl : Later w.loop loop) :
    Aligned packets { w with loop := loop } where
  sound := hs
  position := by
    rw [position_later hl fun c hc => channels_issued h hc]
    exact h.position
  order := h.order
  bound := h.bound
  room := h.room
  outcomes := by
    obtain ⟨collected, failed, hch, hco, hfa⟩ := h.outcomes
    refine ⟨collected, failed, hch, outcomes_later hl hco fun c hc => channels_issued h ?_,
      outcomes_later hl hfa fun c hc => channels_issued h ?_⟩ <;>
      simp [hch, hc]

theorem collect_eq :
    w.collect = w ∨ ∃ oldest rest r, w.window = oldest :: rest ∧ w.loop.reply oldest = some r ∧
      w.collect = { w with window := rest, results := w.results ++ [r] } := by
  unfold Waves.collect
  cases hw : w.window with
  | nil => exact .inl rfl
  | cons oldest rest =>
    cases hr : w.loop.reply oldest with
    | none =>
      left
      simp [hr]
    | some r => exact .inr ⟨oldest, rest, r, rfl, hr, by simp [hr]⟩

variable (h : Aligned packets w)

include h

theorem collected_aligned {oldest : ℕ} {rest : List ℕ} {r : JdwpResult ReplyPacket}
    (hw : w.window = oldest :: rest) (hr : w.loop.reply oldest = some r) :
    Aligned packets { w with window := rest, results := w.results ++ [r] } := by
  have hlen : rest.length < w.window.length := by simp [hw]
  obtain ⟨collected, failed, hch, hco, hfa⟩ := h.outcomes
  exact {
    sound := h.sound
    position := h.position
    order := h.order
    bound := Nat.le_trans (Nat.le_of_lt hlen) h.bound
    room := fun hst => ⟨Nat.lt_trans hlen (h.room hst).1, (h.room hst).2⟩
    outcomes := by
      refine ⟨collected ++ [oldest], failed, ?_, ?_, hfa⟩
      · simpa [hw] using hch
      · exact List.rel_append hco (.cons (reply_eq_some hr) .nil) }

theorem collect_aligned : Aligned packets w.collect := by
  rcases collect_eq (w := w) with hw | ⟨oldest, rest, r, hw, hr, hc⟩
  · rwa [hw]
  · rw [hc]
    exact collected_aligned h hw hr

theorem issued_position {packet : CommandPacket} {rest : List CommandPacket}
    (htodo : w.todo = packet :: rest)
    (hissued : (w.loop.issue packet).issued = w.loop.issued ++ [packet]) :
    (w.channels ++ [w.loop.issued.length]).map (fun c => (w.loop.issue packet).issued[c]?) ++
      rest.map some = packets.map some := by
  rw [← h.position, List.map_append,
    position_later (issue_later _ _) fun c hc => channels_issued h hc, htodo]
  simp [hissued]

theorem issue_aligned (hst : w.stage = .issuing) {packet : CommandPacket}
    {rest : List CommandPacket} (htodo : w.todo = packet :: rest) :
    Aligned packets (w.issue packet rest) := by
  have hroom := (h.room hst).1
  have hsound := issue_sound h.sound packet
  have hlater := issue_later w.loop packet
  have hposition := issued_position h htodo
  have horder : (w.channels ++ [w.loop.issued.length]).Pairwise (· < ·) := by
    rw [List.pairwise_append]
    refine ⟨h.order, List.pairwise_singleton _ _, fun c hc d hd => ?_⟩
    rw [List.mem_singleton.mp hd]
    exact channels_issued h hc
  obtain ⟨collected, failed, hch, hco, hfa⟩ := h.outcomes
  obtain rfl : failed = [] := by simpa [Waves.failed, hst] using hfa
  have hco' := outcomes_later hlater hco fun c hc => channels_issued h (by simp [hch, hc])
  unfold Waves.issue
  by_cases hret : w.loop.returned = true
  · rw [if_pos hret]
    have heq : w.loop.issue packet = { w.loop with issued := w.loop.issued ++ [packet] }.send
        w.loop.issued.length (.error (Loop.lost w.loop.shutdown "the command was never sent")) := by
      simp [Loop.issue, hret]
    exact {
      sound := hsound
      position := hposition (by rw [heq]; rfl)
      order := horder
      bound := h.bound
      room := by simp
      outcomes := by
        refine ⟨collected, [w.loop.issued.length], by simp [hch], hco', .cons (.inl ?_) .nil⟩
        simp [heq, Loop.send] }
  · rw [if_neg hret]
    split
    · rename_i hplace
      have heq : w.loop.issue packet = { w.loop with
          issued := w.loop.issued ++ [packet]
          command_rx := w.loop.command_rx ++ [⟨packet, w.loop.issued.length⟩] } := by
        simp [Loop.issue, hret, hplace]
      exact {
        sound := hsound
        position := hposition (by rw [heq])
        order := horder
        bound := by
          rw [List.length_append, List.length_singleton]
          exact hroom
        room := by simp
        outcomes := ⟨collected, [], by simp [hch], hco', .nil⟩ }
    · exact h

/-- Moving on in the body of the loop, which only the control stage records. -/
theorem stage_aligned (hst : w.stage = .head) (hroom : w.window.length < MAX_READS_IN_FLIGHT)
    (htodo : w.todo ≠ []) :
    Aligned packets { w with stage := .issuing } where
  sound := h.sound
  position := h.position
  order := h.order
  bound := h.bound
  room := fun _ => ⟨hroom, htodo⟩
  outcomes := by simpa [Waves.failed, hst] using h.outcomes

theorem pushed_aligned {e : JdwpError} (hst : w.stage = .failing e) (hw : w.window = []) :
    Aligned packets { w with stage := .head, results := w.results ++ [.error e] } where
  sound := h.sound
  position := h.position
  order := h.order
  bound := h.bound
  room := by simp
  outcomes := by
    obtain ⟨collected, failed, hch, hco, hfa⟩ := h.outcomes
    rw [hw, List.append_nil] at hch
    simp only [Waves.failed, hst] at hfa
    exact ⟨collected ++ failed, [], by simp [hch, hw], List.rel_append hco hfa, .nil⟩

theorem advance_aligned : Aligned packets w.advance := by
  unfold Waves.advance
  cases hst : w.stage with
  | head =>
    cases htodo : w.todo with
    | nil => exact collect_aligned h
    | cons packet rest =>
      simp only
      split
      · split
        · rename_i hfull hready
          rcases collect_eq (w := w) with hw | ⟨oldest, window, r, hw, hr, hc⟩
          · cases hwin : w.window with
            | nil => simp [hwin] at hready
            | cons oldest window =>
              obtain ⟨r, hr⟩ := Option.isSome_iff_exists.mp hready
              rw [hwin, List.head?_cons, Option.bind_some] at hr
              have hlen := congrArg (fun v => v.window.length) hw
              simp [Waves.collect, hwin, hr] at hlen
          · rw [hc]
            have hlen : window.length < w.window.length := by simp [hw]
            apply stage_aligned (collected_aligned h hw hr) hst
            · exact Nat.lt_of_lt_of_le hlen h.bound
            · simp [htodo]
        · exact h
      · rename_i hroom
        have hnext := stage_aligned h hst (by omega) (by simp [htodo])
        rwa [htodo] at hnext
  | issuing =>
    cases htodo : w.todo with
    | nil => exact h
    | cons packet rest => exact issue_aligned h hst htodo
  | failing e =>
    simp only
    split
    · rename_i hw
      exact pushed_aligned h hst hw
    · exact collect_aligned h

theorem run_aligned (turns : List Turn) : Aligned packets (run w turns) := by
  induction turns generalizing w with
  | nil => exact h
  | cons turn turns ih =>
    apply ih
    cases turn with
    | reader => exact advance_aligned h
    | other e => exact other_aligned h (step_sound h.sound e) (step_later w.loop e)

end Alignment

section Progress

/-- Bounds the steps the reader still has to take. -/
def Waves.remaining (w : Waves) : ℕ :=
  3 * w.todo.length + w.window.length +
    match w.stage with
    | .head => 1
    | .issuing => 0
    | .failing _ => 2

/-- The reader waits for the reply of its oldest command, or for a place in the channel. -/
def Waves.Waiting (w : Waves) : Prop :=
  (∃ oldest rest, w.window = oldest :: rest ∧ w.loop.reply oldest = none) ∨
    w.stage = .issuing ∧ w.loop.returned = false ∧
      COMMAND_CHANNEL_DEPTH ≤ w.loop.command_rx.length

variable {w : Waves} {packets : List CommandPacket}

theorem collect_progress (hw : w.window ≠ []) : w.Waiting ∨ w.collect.remaining < w.remaining := by
  obtain ⟨oldest, rest, hw⟩ := List.exists_cons_of_ne_nil hw
  cases hr : w.loop.reply oldest with
  | none => exact .inl (.inl ⟨oldest, rest, hw, hr⟩)
  | some r =>
    right
    simp [Waves.collect, hw, hr, Waves.remaining]

theorem advance_progress (h : Aligned packets w) (hfin : w.finished = false) :
    w.Waiting ∨ w.advance.remaining < w.remaining := by
  unfold Waves.advance
  cases hst : w.stage with
  | head =>
    cases htodo : w.todo with
    | nil =>
      apply collect_progress
      intro hw
      simp [Waves.finished, hst, htodo, hw] at hfin
    | cons packet rest =>
      simp only
      split
      · rename_i hfull
        obtain ⟨oldest, window, hw⟩ : ∃ oldest window, w.window = oldest :: window := by
          apply List.exists_cons_of_ne_nil
          intro hw
          simp [hw, MAX_READS_IN_FLIGHT] at hfull
        cases hr : w.loop.reply oldest with
        | none => exact .inl (.inl ⟨oldest, window, hw, hr⟩)
        | some r =>
          right
          simp only [Waves.collect, hw, List.head?_cons, Option.bind_some, hr, Option.isSome_some,
            if_true, Waves.remaining, hst, List.length_cons]
          omega
      · right
        simp [Waves.remaining, hst, htodo]
  | issuing =>
    cases htodo : w.todo with
    | nil => exact absurd htodo (h.room hst).2
    | cons packet rest =>
      simp only [Waves.issue]
      split
      · right
        simp [Waves.remaining, hst, htodo]
        omega
      · rename_i hret
        split
        · right
          simp [Waves.remaining, hst, htodo]
          omega
        · rename_i hplace
          exact .inl (.inr ⟨hst, by simpa using hret, by omega⟩)
  | failing e =>
    simp only
    split
    · right
      simp [Waves.remaining, hst]
    · rename_i hw
      exact collect_progress hw

theorem reply_returned {s : Loop} (h : Sound s) (hret : s.returned = true) (c : ℕ) :
    s.reply c ≠ none := by
  obtain ⟨hs, hq⟩ := h.finished hret
  unfold Loop.reply
  cases s.answered.find? fun a => a.1 = c with
  | some a => simp
  | none => simp [Loop.held, hq, h.dropped hs]

theorem returned_not_waiting (h : Aligned packets w) (hret : w.loop.returned = true) :
    ¬ w.Waiting := by
  rintro (⟨oldest, rest, -, hr⟩ | ⟨-, hnot, -⟩)
  · exact reply_returned h.sound hret oldest hr
  · rw [hret] at hnot
    cases hnot

theorem advance_returned (hret : w.loop.returned = true) : w.advance.loop.returned = true := by
  have hcollect : w.collect.loop = w.loop := by
    rcases collect_eq (w := w) with hw | ⟨oldest, rest, r, hw, hr, hc⟩
    · rw [hw]
    · rw [hc]
  unfold Waves.advance
  cases w.stage with
  | head =>
    cases w.todo with
    | nil => rwa [hcollect]
    | cons packet rest =>
      simp only
      split
      · split
        · rwa [hcollect]
        · exact hret
      · exact hret
  | issuing =>
    cases w.todo with
    | nil => exact hret
    | cons packet rest => simp [Waves.issue, Loop.issue, Loop.send, hret]
  | failing e =>
    simp only
    split
    · exact hret
    · rwa [hcollect]

theorem advance_finished (h : w.finished = true) : w.advance = w := by
  obtain ⟨⟨hst, htodo⟩, hw⟩ : (w.stage = .head ∧ w.todo = []) ∧ w.window = [] := by
    simpa [Waves.finished] using h
  simp [Waves.advance, hst, htodo, Waves.collect, hw]

theorem run_finished (h : w.finished = true) (n : ℕ) : run w (List.replicate n .reader) = w := by
  induction n with
  | zero => rfl
  | succ n ih =>
    rw [List.replicate_succ, run, List.foldl_cons, step, advance_finished h]
    exact ih

/-- Once the loop has returned the reader finishes without anybody's help. -/
theorem returned_finishes (n : ℕ) (h : Aligned packets w) (hret : w.loop.returned = true)
    (hn : w.remaining ≤ n) : (run w (List.replicate n .reader)).finished = true := by
  induction n generalizing w with
  | zero =>
    cases hst : w.stage with
    | issuing =>
      have htodo := (h.room hst).2
      simp only [Waves.remaining, hst] at hn
      exact absurd (List.length_eq_zero_iff.mp (by omega)) htodo
    | head =>
      simp only [Waves.remaining, hst] at hn
      omega
    | failing e =>
      simp only [Waves.remaining, hst] at hn
      omega
  | succ n ih =>
    cases hfin : w.finished with
    | true => rwa [run_finished hfin]
    | false =>
      have hless := (advance_progress h hfin).resolve_left (returned_not_waiting h hret)
      exact ih (advance_aligned h) (advance_returned hret)
        (Nat.le_of_lt_succ (Nat.lt_of_lt_of_le hless hn))

end Progress

section Positions

/-- What a run of `read_independently` over `packets` keeps: the `i`th channel is the one made for
the `i`th command, and the `i`th result is what that channel carries. -/
structure Positional (packets : List CommandPacket) (w : Waves) : Prop where
  in_flight : w.window.length ≤ MAX_READS_IN_FLIGHT
  issued : w.channels.map (fun c => w.loop.issued[c]?) =
    (packets.take w.channels.length).map some
  distinct : w.channels.Nodup
  outcomes : List.Forall₂ (Outcome w.loop) (w.channels.take w.results.length) w.results
  own : ∀ (i : ℕ) reply, w.results[i]? = some (.ok reply) →
    ∃ packet, packets[i]? = some packet ∧ reply.id = packet.id
  complete : w.finished = true → w.results.length = packets.length
  progress : w.finished = false → w.Waiting ∨ w.advance.remaining < w.remaining
  dying : w.loop.returned = true → (run w (List.replicate w.remaining .reader)).finished = true

theorem ok_outcome {s : Loop} (h : Sound s) {c : ℕ} {reply : ReplyPacket}
    (ho : Outcome s c (.ok reply)) :
    ∃ packet, s.issued[c]? = some packet ∧ reply.id = packet.id := by
  rcases ho with ho | ⟨-, _, _, ho⟩
  · exact h.answered c reply ho
  · cases ho

theorem aligned_positional {packets : List CommandPacket} {w : Waves} (h : Aligned packets w) :
    Positional packets w := by
  obtain ⟨collected, failed, hch, hco, hfa⟩ := h.outcomes
  have hlen := hco.length_eq
  have hissued : w.channels.map (fun c => w.loop.issued[c]?) =
      (packets.take w.channels.length).map some := by
    have htake := congrArg (List.take w.channels.length) h.position
    rw [List.take_left' (List.length_map _)] at htake
    rw [htake, List.map_take]
  exact {
    in_flight := h.bound
    issued := hissued
    distinct := h.order.imp Nat.ne_of_lt
    outcomes := by
      rw [← hlen, hch, List.append_assoc, List.take_left]
      exact hco
    own := by
      intro i reply hi
      obtain ⟨hir, hreply⟩ := List.getElem?_eq_some_iff.mp hi
      have hic : i < collected.length := by omega
      have ho := hco.get hic hir
      simp only [List.get_eq_getElem, hreply] at ho
      obtain ⟨packet, hpacket, hid⟩ := ok_outcome h.sound ho
      have hchan : w.channels[i]? = some collected[i] := by
        rw [hch, List.append_assoc, List.getElem?_append_left hic, List.getElem?_eq_getElem hic]
      have hat := congrArg (fun l => l[i]?) hissued
      simp only [List.getElem?_map, hchan, Option.map_some, hpacket] at hat
      obtain ⟨packet', hat', hsome⟩ := Option.map_eq_some_iff.mp hat.symm
      obtain rfl := Option.some.inj hsome
      rw [List.getElem?_take] at hat'
      split at hat'
      · exact ⟨packet', hat', hid⟩
      · cases hat'
    complete := by
      intro hfin
      have hposition := congrArg List.length h.position
      obtain ⟨⟨hst, htodo⟩, hwin⟩ : (w.stage = .head ∧ w.todo = []) ∧ w.window = [] := by
        simpa [Waves.finished] using hfin
      obtain rfl : failed = [] := by simpa [Waves.failed, hst] using hfa
      simp only [List.length_append, List.length_map, htodo, List.length_nil, hch, hwin]
        at hposition
      omega
    progress := advance_progress h
    dying := fun hret => returned_finishes _ h hret (Nat.le_refl _) }

/-- `read_independently` of any list of commands, from any state of the loop and under any
schedule of the loop, the debuggee and the other callers. -/
theorem results_positional (events : List Event) (round_trips : UInt32)
    (packets : List CommandPacket) (turns : List Turn) :
    Positional packets
      (run (read_independently (EventLoop.run initial events) round_trips packets) turns) := by
  have hsound := run_sound initial_sound events
  exact aligned_positional (run_aligned (read_independently_aligned hsound _ _) turns)

end Positions

end JavaDebug.ReadWaves
