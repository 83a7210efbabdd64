import JavaDebug.Octets
import JavaDebug.Table
import Mathlib.Data.List.Perm.Basic

/-!
The event loop of a connection as a machine that takes one step per event. A
command is handed over with the sending end of a reply channel, which is
numbered by the position of the command among all that were issued; the loop
uses the sender at most once, or drops it. Bytes come from the debuggee in any
portions, time passes, writes fail and the stream breaks at any moment, and
which branch of the select runs next is left open.
-/
namespace JavaDebug.EventLoop

open Octets

section Packets

def HEADER_SIZE : ℕ := 11

def REPLY_FLAG : UInt8 := 0x80

def MAX_PACKET_SIZE : ℕ := 10485760

/-- In nanoseconds. -/
def REPLY_TIMEOUT : ℕ := 30000000000

def COMMAND_CHANNEL_DEPTH : ℕ := 32

inductive JdwpError
  | io (text : String)
  | protocol (text : String)
  | connection_closed (cause : String)
  | not_jdwp_framed (text : String)
  | reply_timeout (secs : ℕ)
  deriving DecidableEq

abbrev JdwpResult (α : Type) := Except JdwpError α

def JdwpError.to_string : JdwpError → String
  | .io text => "IO error: " ++ text
  | .protocol text => "Protocol error: " ++ text
  | .connection_closed cause => "connection to the debuggee closed: " ++ cause
  | .not_jdwp_framed text =>
    "the debuggee's stream is not JDWP-framed at this point: " ++ text
  | .reply_timeout secs =>
    "no reply from the debuggee within " ++ toString secs ++
      "s (the connection is still open; the command was abandoned)"

structure CommandPacket where
  id : UInt32
  command_set : UInt8
  command : UInt8
  data : Bytes
  deriving DecidableEq

structure ReplyPacket where
  id : UInt32
  error_code : UInt16
  data : Bytes
  deriving DecidableEq

def MAX_READS_IN_FLIGHT : ℕ := 16

/-- `u32::try_from(waves).unwrap_or(u32::MAX)` -/
def waves_u32 (packets : List CommandPacket) : UInt32 :=
  UInt32.ofNat
    (min ((packets.length + (MAX_READS_IN_FLIGHT - 1)) / MAX_READS_IN_FLIGHT) 4294967295)

def CommandPacket.encode (p : CommandPacket) : Bytes :=
  put 4 (min (HEADER_SIZE + p.data.length) 4294967295) ++ put 4 p.id.toNat ++
    [0x00, p.command_set, p.command] ++ p.data

/-- Bytes 4 to 7 of a packet. -/
def packet_id (buf : Bytes) : UInt32 := UInt32.ofNat (value ((buf.drop 4).take 4))

def packet_flags (buf : Bytes) : UInt8 := buf.getD 8 0

def ReplyPacket.decode (buf : Bytes) : JdwpResult ReplyPacket :=
  if buf.length < HEADER_SIZE then
    .error (.protocol "Reply packet too short")
  else if packet_flags buf ≠ REPLY_FLAG then
    .error (.protocol ("Invalid reply flag: 0x" ++
      String.ofList (Nat.toDigits 16 (packet_flags buf).toNat)))
  else
    .ok ⟨packet_id buf, UInt16.ofNat (value ((buf.drop 9).take 2)), buf.drop HEADER_SIZE⟩

/-- One packet off the bytes that have come, or `none` while more of it is awaited. The stream
may be closed with an error, and `foreign` is what `describe_foreign_bytes` says of bytes that
are not framed. -/
def read_packet (stream : Bytes) (closed : Option String) (foreign : String) :
    Option (JdwpResult (Bool × UInt32 × Bytes) × Bytes) :=
  let unread := closed.map fun e => (.error (.io e), [])
  if stream.length < HEADER_SIZE then
    unread
  else
    let header := stream.take HEADER_SIZE
    let length := value (header.take 4)
    let flags := packet_flags header
    if ¬ ((flags = 0 ∨ flags = REPLY_FLAG) ∧ HEADER_SIZE ≤ length ∧ length ≤ MAX_PACKET_SIZE) then
      some (.error (.not_jdwp_framed foreign), stream.drop HEADER_SIZE)
    else if stream.length < length then
      unread
    else
      some (.ok (flags == REPLY_FLAG, packet_id header, stream.take length), stream.drop length)

end Packets

section Machine

/-- `reply_tx` is the number of the reply channel. -/
structure CommandRequest where
  packet : CommandPacket
  reply_tx : ℕ
  deriving DecidableEq

structure PendingReply where
  packet_id : UInt32
  sender : ℕ
  sent_at : ℕ
  deriving DecidableEq

/-- `returned` once the task has dropped its end of the command channel; `answered` are the uses
of reply channels, in order, whether or not the caller still listens. -/
structure Loop where
  issued : List CommandPacket
  command_rx : List CommandRequest
  pending_replies : Table PendingReply.packet_id
  answered : List (ℕ × JdwpResult ReplyPacket)
  shutdown : Option String
  returned : Bool
  wire : Bytes
  stream : Bytes
  closed : Option String
  now : ℕ

def initial : Loop := ⟨[], [], .empty, [], none, false, [], [], none, 0⟩

/-- What becomes of an event packet: not parsed, buffered, dropped since the buffer is full, or
nobody is left to take it. -/
inductive Delivery
  | unparsed
  | sent
  | full
  | closed
  deriving DecidableEq

namespace Loop

def send (s : Loop) (sender : ℕ) (r : JdwpResult ReplyPacket) : Loop :=
  { s with answered := s.answered ++ [(sender, r)] }

def lost (shutdown : Option String) (what : String) : JdwpError :=
  match shutdown with
  | none =>
    .protocol ("the event loop stopped without recording a reason, and " ++ what)
  | some cause => .connection_closed cause

/-- While the channel is full the caller waits outside of it. -/
def issue (s : Loop) (packet : CommandPacket) : Loop :=
  let caller := s.issued.length
  if s.returned then
    { s with issued := s.issued ++ [packet] }.send caller
      (.error (lost s.shutdown "the command was never sent"))
  else if s.command_rx.length < COMMAND_CHANNEL_DEPTH then
    { s with
      issued := s.issued ++ [packet]
      command_rx := s.command_rx ++ [⟨packet, caller⟩] }
  else
    s

/-- The errors of the write and of the flush are given, if they fail. -/
def handle_outgoing_command (s : Loop) (write_all flush : Option String) (cmd : CommandRequest) :
    Loop :=
  match write_all with
  | some e => s.send cmd.reply_tx (.error (.io e))
  | none =>
    let s := { s with wire := s.wire ++ cmd.packet.encode }
    match flush with
    | some e => s.send cmd.reply_tx (.error (.io e))
    | none =>
      { s with pending_replies := s.pending_replies.insert ⟨cmd.packet.id, cmd.reply_tx, s.now⟩ }

/-- `pending_replies.remove(&id)`, and what was removed is sent `r`. -/
def answer_pending (s : Loop) (id : UInt32) (r : JdwpResult ReplyPacket) : Loop :=
  match s.pending_replies.get? id with
  | none => s
  | some pending =>
    { s with pending_replies := s.pending_replies.erase id }.send pending.sender r

def cleanup_pending_replies (s : Loop) : Loop :=
  let lapsed := (s.pending_replies.rows.filter fun p => REPLY_TIMEOUT < s.now - p.sent_at).map
    PendingReply.packet_id
  lapsed.foldl
    (fun s id => s.answer_pending id (.error (.reply_timeout (REPLY_TIMEOUT / 1000000000)))) s

def route_reply (s : Loop) (id : UInt32) (data : Bytes) : Loop :=
  s.answer_pending id (ReplyPacket.decode data)

def handle_event_packet : Delivery → Option String
  | .unparsed => none
  | .sent => none
  | .full => none
  | .closed => some "the event consumer was dropped, so the session was torn down"

/-- The cause, if the packet ends the loop. -/
def handle_incoming_packet (s : Loop) (delivery : Delivery) :
    JdwpResult (Bool × UInt32 × Bytes) → Loop × Option String
  | .ok (is_reply, id, data) =>
    if is_reply then (s.route_reply id data, none) else (s, handle_event_packet delivery)
  | .error e => (s, some ("reading from the debuggee failed: " ++ e.to_string))

/-- The loop breaks: the cause is recorded before the pending replies are dropped. -/
def shut_down (s : Loop) (cause : Option String) : Loop :=
  match cause with
  | none => s
  | some cause => { s with shutdown := some cause, pending_replies := .empty }

def receive (s : Loop) (foreign : String) (delivery : Delivery) : Loop :=
  match read_packet s.stream s.closed foreign with
  | none => s
  | some (result, rest) =>
    let r := handle_incoming_packet { s with stream := rest } delivery result
    r.1.shut_down r.2

/-- The channels some part of the loop can still send on. -/
def held (s : Loop) : List ℕ :=
  s.command_rx.map CommandRequest.reply_tx ++ s.pending_replies.rows.map PendingReply.sender

/-- What the caller of channel `c` has been told, `none` while it waits. -/
def reply (s : Loop) (c : ℕ) : Option (JdwpResult ReplyPacket) :=
  match s.answered.find? fun a => a.1 = c with
  | some a => some a.2
  | none =>
    if c ∈ s.held then none
    else some (.error (lost s.shutdown "the command was sent and its reply was dropped"))

end Loop

/-- `issue` is a step of a caller; `write`, `tick`, `receive` and `reader_stopped` are the branches
of the select, `finish` the end of the task; the others are the debuggee and the clock. -/
inductive Event
  | issue (packet : CommandPacket)
  | write (write_all flush : Option String)
  | tick
  | receive (foreign : String) (delivery : Delivery)
  | reader_stopped
  | finish
  | arrive (bytes : Bytes)
  | hang_up (text : String)
  | elapse (time : ℕ)

/-- An event that cannot happen in `s` leaves it as it is. -/
def step (s : Loop) : Event → Loop
  | .issue packet => s.issue packet
  | .write write_all flush =>
    match s.shutdown, s.command_rx with
    | none, cmd :: rest => { s with command_rx := rest }.handle_outgoing_command write_all flush cmd
    | _, _ => s
  | .tick => if s.shutdown = none then s.cleanup_pending_replies else s
  | .receive foreign delivery => if s.shutdown = none then s.receive foreign delivery else s
  | .reader_stopped =>
    if s.shutdown = none then
      s.shut_down (some "the packet reader stopped without reporting a reason")
    else
      s
  | .finish => if s.shutdown = none then s else { s with command_rx := [], returned := true }
  | .arrive bytes => if s.closed = none then { s with stream := s.stream ++ bytes } else s
  | .hang_up text => { s with closed := some text }
  | .elapse time => { s with now := s.now + time }

def run (s : Loop) (events : List Event) : Loop := events.foldl step s

end Machine

section Correlation

namespace Loop

/-- How often the sender of channel `c` is held or has been used. -/
def senders (s : Loop) (c : ℕ) : ℕ :=
  (s.command_rx.map CommandRequest.reply_tx).count c +
    s.pending_replies.total (fun p => if p.sender = c then 1 else 0) +
    (s.answered.map Prod.fst).count c

variable (s : Loop)

theorem senders_send (c d : ℕ) (r : JdwpResult ReplyPacket) :
    (s.send d r).senders c = s.senders c + if d = c then 1 else 0 := by
  simp only [senders, send, List.map_append, List.map_cons, List.map_nil, List.count_append,
    List.count_singleton, beq_iff_eq]
  omega

theorem senders_issue {s : Loop} {c : ℕ} (h : c ≠ s.issued.length) (packet : CommandPacket) :
    (s.issue packet).senders c = s.senders c := by
  unfold issue
  split
  · rw [senders_send, if_neg (Ne.symm h)]
    rfl
  · split
    · simp [senders, Ne.symm h]
    · rfl

theorem senders_taken {s : Loop} {cmd : CommandRequest} {rest : List CommandRequest}
    (hq : s.command_rx = cmd :: rest) (c : ℕ) :
    { s with command_rx := rest }.senders c + (if cmd.reply_tx = c then 1 else 0) =
      s.senders c := by
  simp only [senders, hq, List.map_cons, List.count_cons, beq_iff_eq]
  omega

/-- A reply channel that loses its place to a later command of the same id is dropped. -/
theorem senders_outgoing {s : Loop} {cmd : CommandRequest} {rest : List CommandRequest}
    (hq : s.command_rx = cmd :: rest) (write_all flush : Option String) (c : ℕ) :
    ({ s with command_rx := rest }.handle_outgoing_command write_all flush cmd).senders c ≤
      s.senders c := by
  have htaken := senders_taken hq c
  unfold handle_outgoing_command
  cases write_all with
  | some e =>
    rw [senders_send]
    omega
  | none =>
    cases flush with
    | some e =>
      rw [senders_send]
      exact Nat.le_of_eq htaken
    | none =>
      have hins := Table.total_insert (g := fun q => if q.sender = c then 1 else 0)
        s.pending_replies ⟨cmd.packet.id, cmd.reply_tx, s.now⟩
      have hle := Table.total_erase_le (g := fun q => if q.sender = c then 1 else 0)
        s.pending_replies cmd.packet.id
      simp only [senders] at htaken hins ⊢
      omega

theorem senders_erase {s : Loop} {id : UInt32} {p : PendingReply}
    (hp : s.pending_replies.get? id = some p) (c : ℕ) :
    { s with pending_replies := s.pending_replies.erase id }.senders c +
      (if p.sender = c then 1 else 0) = s.senders c := by
  have := Table.total_erase (g := fun q => if q.sender = c then 1 else 0) s.pending_replies id hp
  simp only [senders] at this ⊢
  omega

theorem senders_answer_pending (id : UInt32) (r : JdwpResult ReplyPacket) (c : ℕ) :
    (s.answer_pending id r).senders c = s.senders c := by
  unfold answer_pending
  cases hp : s.pending_replies.get? id with
  | none => rfl
  | some p =>
    simp only
    rw [senders_send, senders_erase hp]

theorem issued_answer_pending (id : UInt32) (r : JdwpResult ReplyPacket) :
    (s.answer_pending id r).issued = s.issued := by
  unfold answer_pending
  cases s.pending_replies.get? id <;> rfl

theorem senders_shut_down (cause : Option String) (c : ℕ) :
    (s.shut_down cause).senders c ≤ s.senders c := by
  cases cause with
  | none => exact Nat.le_refl _
  | some cause => simp [senders, shut_down, Table.total, Table.empty]

theorem senders_finish (c : ℕ) :
    { s with command_rx := [], returned := true }.senders c ≤ s.senders c := by
  simp only [senders, List.map_nil, List.count_nil]
  omega

end Loop

/-- `once` says that a sender is in one place at most, and exists only for a command that was
issued. -/
structure Sound (s : Loop) : Prop where
  once : ∀ c, s.senders c ≤ if c < s.issued.length then 1 else 0
  queued : ∀ r ∈ s.command_rx, s.issued[r.reply_tx]? = some r.packet
  pending : ∀ p ∈ s.pending_replies.rows,
    ∃ packet, s.issued[p.sender]? = some packet ∧ packet.id = p.packet_id
  answered : ∀ c reply, (c, .ok reply) ∈ s.answered →
    ∃ packet, s.issued[c]? = some packet ∧ reply.id = packet.id
  dropped : s.shutdown ≠ none → s.pending_replies.rows = []
  finished : s.returned = true → s.shutdown ≠ none ∧ s.command_rx = []

theorem initial_sound : Sound initial where
  once := by
    intro c
    simp [Loop.senders, initial, Table.total, Table.empty]
  queued := by simp [initial]
  pending := by simp [initial, Table.empty]
  answered := by simp [initial]
  dropped := by simp [initial]
  finished := by simp [initial]

variable {c : ℕ} {s : Loop} {reply : ReplyPacket}

theorem issued_extend {l : List CommandPacket} {packet : CommandPacket} (h : l[c]? = some packet)
    (more : CommandPacket) : (l ++ [more])[c]? = some packet := by
  have hc : c < l.length := (List.getElem?_eq_some_iff.mp h).choose
  rw [List.getElem?_append_left hc, h]

theorem issue_sound (h : Sound s) (packet : CommandPacket) : Sound (s.issue packet) := by
  have hfresh : s.senders s.issued.length = 0 := by
    simpa using h.once s.issued.length
  have hpending : ∀ p ∈ s.pending_replies.rows,
      ∃ q, (s.issued ++ [packet])[p.sender]? = some q ∧ q.id = p.packet_id := by
    intro p hp
    obtain ⟨q, hq, hid⟩ := h.pending p hp
    exact ⟨q, issued_extend hq packet, hid⟩
  have hanswered : ∀ c reply, (c, .ok reply) ∈ s.answered →
      ∃ q, (s.issued ++ [packet])[c]? = some q ∧ reply.id = q.id := by
    intro c reply hc
    obtain ⟨q, hq, hid⟩ := h.answered c reply hc
    exact ⟨q, issued_extend hq packet, hid⟩
  have honce : ∀ c, s.senders c + (if s.issued.length = c then 1 else 0) ≤
      if c < (s.issued ++ [packet]).length then 1 else 0 := by
    intro c
    have := h.once c
    rw [List.length_append, List.length_singleton]
    by_cases hc : s.issued.length = c
    · subst hc
      simp [hfresh]
    · rw [if_neg hc]
      split at this <;> split <;> omega
  unfold Loop.issue
  split
  · rename_i hret
    exact {
      once := by
        intro c
        rw [Loop.senders_send]
        exact honce c
      queued := by
        intro r hr
        exact issued_extend (h.queued r hr) packet
      pending := hpending
      answered := by
        intro c reply hc
        simp only [Loop.send, List.mem_append, List.mem_singleton, Prod.mk.injEq, reduceCtorEq,
          and_false, or_false] at hc
        exact hanswered c reply hc
      dropped := h.dropped
      finished := h.finished }
  · rename_i hret
    split
    · exact {
        once := by
          intro c
          have := honce c
          simp only [Loop.senders, List.map_append, List.map_cons, List.map_nil,
            List.count_append, List.count_singleton, beq_iff_eq] at this ⊢
          omega
        queued := by
          intro r hr
          rcases List.mem_append.mp hr with hr | hr
          · exact issued_extend (h.queued r hr) packet
          · obtain rfl := List.mem_singleton.mp hr
            simp
        pending := hpending
        answered := hanswered
        dropped := h.dropped
        finished := fun hr => absurd hr hret }
    · exact h

theorem answer_pending_sound (h : Sound s) (id : UInt32) (r : JdwpResult ReplyPacket)
    (hr : ∀ reply, r = .ok reply → reply.id = id) : Sound (s.answer_pending id r) := by
  have honce : ∀ c, (s.answer_pending id r).senders c ≤
      if c < (s.answer_pending id r).issued.length then 1 else 0 := by
    intro c
    rw [Loop.senders_answer_pending, Loop.issued_answer_pending]
    exact h.once c
  unfold Loop.answer_pending at honce ⊢
  cases hp : s.pending_replies.get? id with
  | none => exact h
  | some p =>
    obtain ⟨hmem, hid⟩ := (Table.get?_eq_some _ _ _).mp hp
    exact {
      once := by simpa only [hp] using honce
      queued := h.queued
      pending := fun q hq => h.pending q ((Table.mem_erase _ _ _).mp hq).1
      answered := by
        intro c reply hc
        simp only [Loop.send, List.mem_append, List.mem_singleton, Prod.mk.injEq] at hc
        rcases hc with hc | ⟨rfl, hc⟩
        · exact h.answered c reply hc
        · obtain ⟨packet, hpacket, hpid⟩ := h.pending p hmem
          exact ⟨packet, hpacket, by rw [hr reply hc.symm, hpid, hid]⟩
      dropped := by
        intro hs
        have hrows : s.pending_replies.rows = [] := h.dropped hs
        rw [hrows] at hmem
        cases hmem
      finished := h.finished }

theorem cleanup_sound (h : Sound s) : Sound s.cleanup_pending_replies := by
  unfold Loop.cleanup_pending_replies
  generalize (s.pending_replies.rows.filter _).map PendingReply.packet_id = lapsed
  induction lapsed generalizing s with
  | nil => exact h
  | cons id lapsed ih => exact ih (answer_pending_sound h id _ (by simp))

theorem outgoing_sound {cmd : CommandRequest} {rest : List CommandRequest} (h : Sound s)
    (hs : s.shutdown = none) (hq : s.command_rx = cmd :: rest) (write_all flush : Option String) :
    Sound ({ s with command_rx := rest }.handle_outgoing_command write_all flush cmd) := by
  have hle := Loop.senders_outgoing hq write_all flush
  have hcmd : s.issued[cmd.reply_tx]? = some cmd.packet := h.queued cmd (by simp [hq])
  have hqueued : ∀ r ∈ rest, s.issued[r.reply_tx]? = some r.packet :=
    fun r hr => h.queued r (by simp [hq, hr])
  have hanswered : ∀ e c reply, (c, .ok reply) ∈ s.answered ++ [(cmd.reply_tx, .error e)] →
      ∃ packet, s.issued[c]? = some packet ∧ reply.id = packet.id := by
    intro e c reply hc
    exact h.answered c reply (by simpa using hc)
  unfold Loop.handle_outgoing_command at hle ⊢
  cases write_all with
  | some e =>
    exact {
      once := fun c => Nat.le_trans (hle c) (h.once c)
      queued := hqueued
      pending := h.pending
      answered := hanswered _
      dropped := h.dropped
      finished := fun hr => absurd hs (h.finished hr).1 }
  | none =>
    cases flush with
    | some e =>
      exact {
        once := fun c => Nat.le_trans (hle c) (h.once c)
        queued := hqueued
        pending := h.pending
        answered := hanswered _
        dropped := h.dropped
        finished := fun hr => absurd hs (h.finished hr).1 }
    | none =>
      exact {
        once := fun c => Nat.le_trans (hle c) (h.once c)
        queued := hqueued
        pending := by
          intro p hp
          rcases (Table.mem_insert _ _ _).mp hp with hp | rfl
          · exact h.pending p hp.1
          · exact ⟨cmd.packet, hcmd, rfl⟩
        answered := h.answered
        dropped := fun hsome => absurd hs hsome
        finished := fun hr => absurd hs (h.finished hr).1 }

theorem shut_down_sound (h : Sound s) (cause : Option String) : Sound (s.shut_down cause) := by
  have hle := s.senders_shut_down cause
  cases cause with
  | none => exact h
  | some cause =>
    exact {
      once := fun c => Nat.le_trans (hle c) (h.once c)
      queued := h.queued
      pending := by simp [Loop.shut_down, Table.empty]
      answered := h.answered
      dropped := fun _ => rfl
      finished := fun hr => ⟨by simp [Loop.shut_down], (h.finished hr).2⟩ }

variable {id : UInt32}

/-- The id the reader hands over is the one that is decoded from the same bytes. -/
theorem read_packet_id {stream : Bytes} {closed : Option String} {foreign : String}
    {is_reply : Bool} {data rest : Bytes}
    (h : read_packet stream closed foreign = some (.ok (is_reply, id, data), rest)) :
    packet_id data = id := by
  unfold read_packet at h
  split at h
  · cases closed <;> simp at h
  · simp only at h
    split at h
    · simp at h
    · split at h
      · cases closed <;> simp at h
      · rename_i hframed _
        simp only [Option.some.injEq, Prod.mk.injEq, Except.ok.injEq] at h
        obtain ⟨⟨-, rfl, rfl⟩, -⟩ := h
        have hle := (not_not.mp hframed).2.1
        generalize value ((stream.take HEADER_SIZE).take 4) = length at hle ⊢
        simp only [packet_id, List.drop_take, List.take_take]
        simp only [HEADER_SIZE] at hle ⊢
        congr 3
        omega

theorem decode_id {data : Bytes} (h : ReplyPacket.decode data = .ok reply) :
    reply.id = packet_id data := by
  unfold ReplyPacket.decode at h
  split at h
  · cases h
  · split at h
    · cases h
    · cases h
      rfl

theorem receive_sound (h : Sound s) (foreign : String) (delivery : Delivery) :
    Sound (s.receive foreign delivery) := by
  unfold Loop.receive
  cases hread : read_packet s.stream s.closed foreign with
  | none => exact h
  | some r =>
    obtain ⟨result, rest⟩ := r
    have hrest : Sound { s with stream := rest } :=
      ⟨h.once, h.queued, h.pending, h.answered, h.dropped, h.finished⟩
    apply shut_down_sound
    cases result with
    | error e => exact hrest
    | ok packet =>
      obtain ⟨is_reply, id, data⟩ := packet
      simp only [Loop.handle_incoming_packet]
      split
      · apply answer_pending_sound hrest
        intro reply hreply
        rw [decode_id hreply, read_packet_id hread]
      · exact hrest

theorem step_sound (h : Sound s) (e : Event) : Sound (step s e) := by
  cases e with
  | issue packet => exact issue_sound h packet
  | write write_all flush =>
    cases hs : s.shutdown with
    | some cause => simpa [step, hs] using h
    | none =>
      cases hq : s.command_rx with
      | nil => simpa [step, hs, hq] using h
      | cons cmd rest => simpa [step, hs, hq] using outgoing_sound h hs hq write_all flush
  | tick =>
    simp only [step]
    split
    · exact cleanup_sound h
    · exact h
  | receive foreign delivery =>
    simp only [step]
    split
    · exact receive_sound h foreign delivery
    · exact h
  | reader_stopped =>
    simp only [step]
    split
    · exact shut_down_sound h _
    · exact h
  | finish =>
    simp only [step]
    split
    · exact h
    · rename_i hs
      exact {
        once := fun c => Nat.le_trans (s.senders_finish c) (h.once c)
        queued := by simp
        pending := h.pending
        answered := h.answered
        dropped := h.dropped
        finished := fun _ => ⟨hs, rfl⟩ }
  | arrive bytes =>
    simp only [step]
    split
    · exact ⟨h.once, h.queued, h.pending, h.answered, h.dropped, h.finished⟩
    · exact h
  | hang_up text => exact ⟨h.once, h.queued, h.pending, h.answered, h.dropped, h.finished⟩
  | elapse time => exact ⟨h.once, h.queued, h.pending, h.answered, h.dropped, h.finished⟩

theorem run_sound (h : Sound s) (events : List Event) : Sound (run s events) := by
  induction events generalizing s with
  | nil => exact h
  | cons e events ih => exact ih (step_sound h e)

/-- What channel `c` carries once its sender is gone: the result it was used for, or nothing,
which the caller reads as a loss. -/
def Outcome (s : Loop) (c : ℕ) (r : JdwpResult ReplyPacket) : Prop :=
  (c, r) ∈ s.answered ∨
    s.senders c = 0 ∧ ∃ shutdown what, r = .error (Loop.lost shutdown what)

theorem answered_nodup (h : Sound s) : (s.answered.map Prod.fst).Nodup := by
  rw [List.nodup_iff_count_le_one]
  intro c
  have hle := h.once c
  simp only [Loop.senders] at hle
  split at hle <;> omega

theorem count_senders (rows : List PendingReply) (c : ℕ) :
    (rows.map PendingReply.sender).count c =
      (rows.map fun p => if p.sender = c then 1 else 0).sum := by
  induction rows with
  | nil => rfl
  | cons p rows ih =>
    simp only [List.map_cons, List.count_cons, List.sum_cons, ih, beq_iff_eq]
    omega

theorem count_held (s : Loop) (c : ℕ) :
    s.held.count c + (s.answered.map Prod.fst).count c = s.senders c := by
  rw [Loop.held, List.count_append, count_senders]
  rfl

theorem reply_eq_some {r : JdwpResult ReplyPacket} (hr : s.reply c = some r) : Outcome s c r := by
  unfold Loop.reply at hr
  cases hf : s.answered.find? fun a => a.1 = c with
  | some a =>
    rw [hf] at hr
    have hc : a.1 = c := by simpa using List.find?_some hf
    obtain rfl := Option.some.inj hr
    exact .inl (hc ▸ List.mem_of_find?_eq_some hf)
  | none =>
    rw [hf] at hr
    simp only at hr
    split at hr
    · cases hr
    · rename_i hheld
      have hnone : (s.answered.map Prod.fst).count c = 0 := by
        rw [List.count_eq_zero, List.mem_map]
        rintro ⟨a, ha, rfl⟩
        simpa using List.find?_eq_none.mp hf a ha
      have hcount := count_held s c
      rw [List.count_eq_zero.mpr hheld, hnone] at hcount
      exact .inr ⟨hcount.symm, _, _, (Option.some.inj hr).symm⟩

/-- What never changes back: commands stay issued, uses of a channel stay, a sender of an issued
command is not made anew, and the first cause of a shutdown stands. -/
structure Later (s s' : Loop) : Prop where
  issued : s.issued <+: s'.issued
  answered : s.answered <+: s'.answered
  senders : ∀ c < s.issued.length, s'.senders c ≤ s.senders c
  cause : s.shutdown ≠ none → s'.shutdown = s.shutdown

theorem Later.refl (s : Loop) : Later s s :=
  ⟨List.prefix_rfl, List.prefix_rfl, fun _ _ => Nat.le_refl _, fun _ => rfl⟩

theorem Later.trans {t u : Loop} (h : Later s t) (k : Later t u) : Later s u where
  issued := h.issued.trans k.issued
  answered := h.answered.trans k.answered
  senders := by
    intro c hc
    have hlt : c < t.issued.length := Nat.lt_of_lt_of_le hc h.issued.length_le
    exact Nat.le_trans (k.senders c hlt) (h.senders c hc)
  cause := by
    intro hs
    have ht := h.cause hs
    rw [k.cause (by rwa [ht]), ht]

theorem answer_pending_later (s : Loop) (id : UInt32) (r : JdwpResult ReplyPacket) :
    Later s (s.answer_pending id r) := by
  have hle : ∀ c, (s.answer_pending id r).senders c ≤ s.senders c :=
    fun c => Nat.le_of_eq (s.senders_answer_pending id r c)
  unfold Loop.answer_pending at hle ⊢
  cases hp : s.pending_replies.get? id with
  | none => exact .refl s
  | some p =>
    rw [hp] at hle
    exact ⟨List.prefix_rfl, List.prefix_append _ _, fun c _ => hle c, fun _ => rfl⟩

theorem cleanup_later (s : Loop) : Later s s.cleanup_pending_replies := by
  unfold Loop.cleanup_pending_replies
  generalize (s.pending_replies.rows.filter _).map PendingReply.packet_id = lapsed
  induction lapsed generalizing s with
  | nil => exact .refl s
  | cons id lapsed ih => exact (answer_pending_later s id _).trans (ih _)

theorem issue_later (s : Loop) (packet : CommandPacket) : Later s (s.issue packet) := by
  have hle : ∀ c < s.issued.length, (s.issue packet).senders c ≤ s.senders c :=
    fun c hc => Nat.le_of_eq (Loop.senders_issue (Nat.ne_of_lt hc) packet)
  unfold Loop.issue at hle ⊢
  simp only at hle ⊢
  by_cases hret : s.returned = true
  · rw [if_pos hret] at hle ⊢
    exact ⟨List.prefix_append _ _, List.prefix_append _ _, hle, fun _ => rfl⟩
  · rw [if_neg hret] at hle ⊢
    by_cases hroom : s.command_rx.length < COMMAND_CHANNEL_DEPTH
    · rw [if_pos hroom] at hle ⊢
      exact ⟨List.prefix_append _ _, List.prefix_rfl, hle, fun _ => rfl⟩
    · rw [if_neg hroom]
      exact .refl s

theorem outgoing_later {cmd : CommandRequest} {rest : List CommandRequest}
    (hq : s.command_rx = cmd :: rest) (write_all flush : Option String) :
    Later s ({ s with command_rx := rest }.handle_outgoing_command write_all flush cmd) := by
  have hle := Loop.senders_outgoing hq write_all flush
  unfold Loop.handle_outgoing_command at hle ⊢
  cases write_all with
  | some e => exact ⟨List.prefix_rfl, List.prefix_append _ _, fun c _ => hle c, fun _ => rfl⟩
  | none =>
    cases flush with
    | some e => exact ⟨List.prefix_rfl, List.prefix_append _ _, fun c _ => hle c, fun _ => rfl⟩
    | none => exact ⟨List.prefix_rfl, List.prefix_rfl, fun c _ => hle c, fun _ => rfl⟩

theorem shut_down_later (h : s.shutdown = none) (cause : Option String) :
    Later s (s.shut_down cause) := by
  have hle := s.senders_shut_down cause
  cases cause with
  | none => exact .refl s
  | some cause =>
    exact ⟨List.prefix_rfl, List.prefix_rfl, fun c _ => hle c, fun hs => absurd h hs⟩

theorem incoming_later (s : Loop) (delivery : Delivery)
    (result : JdwpResult (Bool × UInt32 × Bytes)) :
    Later s (s.handle_incoming_packet delivery result).1 ∧
      (s.handle_incoming_packet delivery result).1.shutdown = s.shutdown := by
  cases result with
  | error e => exact ⟨.refl s, rfl⟩
  | ok packet =>
    obtain ⟨is_reply, id, data⟩ := packet
    cases is_reply with
    | false => exact ⟨.refl s, rfl⟩
    | true =>
      refine ⟨answer_pending_later s id _, ?_⟩
      simp only [Loop.handle_incoming_packet, Loop.route_reply, Loop.answer_pending, if_true]
      cases s.pending_replies.get? id <;> rfl

theorem receive_later (h : s.shutdown = none) (foreign : String) (delivery : Delivery) :
    Later s (s.receive foreign delivery) := by
  unfold Loop.receive
  cases read_packet s.stream s.closed foreign with
  | none => exact .refl s
  | some r =>
    have hrest : Later s { s with stream := r.2 } :=
      ⟨List.prefix_rfl, List.prefix_rfl, fun _ _ => Nat.le_refl _, fun _ => rfl⟩
    obtain ⟨hin, hs⟩ := incoming_later { s with stream := r.2 } delivery r.1
    exact (hrest.trans hin).trans (shut_down_later (hs.trans h) _)

theorem step_later (s : Loop) (e : Event) : Later s (step s e) := by
  cases e with
  | issue packet => exact issue_later s packet
  | write write_all flush =>
    simp only [step]
    split
    · rename_i hq
      exact outgoing_later hq write_all flush
    · exact .refl s
  | tick =>
    simp only [step]
    split
    · exact cleanup_later s
    · exact .refl s
  | receive foreign delivery =>
    simp only [step]
    split
    · rename_i hs
      exact receive_later hs foreign delivery
    · exact .refl s
  | reader_stopped =>
    simp only [step]
    split
    · rename_i hs
      exact shut_down_later hs _
    · exact .refl s
  | finish =>
    simp only [step]
    split
    · exact .refl s
    · exact ⟨List.prefix_rfl, List.prefix_rfl, fun c _ => s.senders_finish c, fun _ => rfl⟩
  | arrive bytes =>
    simp only [step]
    split
    · exact ⟨List.prefix_rfl, List.prefix_rfl, fun _ _ => Nat.le_refl _, fun _ => rfl⟩
    · exact .refl s
  | hang_up text =>
    exact ⟨List.prefix_rfl, List.prefix_rfl, fun _ _ => Nat.le_refl _, fun _ => rfl⟩
  | elapse time =>
    exact ⟨List.prefix_rfl, List.prefix_rfl, fun _ _ => Nat.le_refl _, fun _ => rfl⟩

theorem Outcome.later {s' : Loop} {r : JdwpResult ReplyPacket} (h : Outcome s c r)
    (hc : c < s.issued.length) (hs : Later s s') : Outcome s' c r := by
  rcases h with h | ⟨h, hlost⟩
  · exact .inl (hs.answered.subset h)
  · refine .inr ⟨?_, hlost⟩
    have := hs.senders c hc
    omega

theorem step_after_shutdown (h : s.shutdown ≠ none) (e : Event)
    (hc : (c, .ok reply) ∈ (step s e).answered) : (c, .ok reply) ∈ s.answered := by
  cases e with
  | issue packet =>
    simp only [step, Loop.issue] at hc
    split at hc
    · simpa [Loop.send] using hc
    · split at hc <;> exact hc
  | write write_all flush =>
    cases hs : s.shutdown with
    | none => exact absurd hs h
    | some cause => simpa [step, hs] using hc
  | tick => simpa [step, h] using hc
  | receive foreign delivery => simpa [step, h] using hc
  | reader_stopped => simpa [step, h] using hc
  | finish => simpa [step, h] using hc
  | arrive bytes =>
    simp only [step] at hc
    split at hc <;> exact hc
  | hang_up text => exact hc
  | elapse time => exact hc

theorem run_after_shutdown (h : s.shutdown ≠ none) (events : List Event)
    (hc : (c, .ok reply) ∈ (run s events).answered) : (c, .ok reply) ∈ s.answered := by
  induction events generalizing s with
  | nil => exact hc
  | cons e events ih =>
    have hstep : (step s e).shutdown ≠ none := by rwa [(step_later s e).cause h]
    exact step_after_shutdown h e (ih hstep hc)

theorem reply_of_returned (h : Sound s) (hret : s.returned = true)
    (hc : c ∉ s.answered.map Prod.fst) :
    ∃ cause, s.shutdown = some cause ∧ s.reply c = some (.error (.connection_closed cause)) := by
  obtain ⟨hs, hq⟩ := h.finished hret
  obtain ⟨cause, hcause⟩ := Option.ne_none_iff_exists'.mp hs
  refine ⟨cause, hcause, ?_⟩
  have hnone : s.answered.find? (fun a => a.1 = c) = none := by
    rw [List.find?_eq_none]
    intro a ha hac
    exact hc (List.mem_map.mpr ⟨a, ha, by simpa using hac⟩)
  simp [Loop.reply, hnone, Loop.held, hq, h.dropped hs, Loop.lost, hcause]

theorem route_other {other : UInt32} (hne : other ≠ id) (data : Bytes) :
    (s.route_reply id data).pending_replies.get? other = s.pending_replies.get? other := by
  unfold Loop.route_reply Loop.answer_pending
  cases s.pending_replies.get? id with
  | none => rfl
  | some p => simp [Loop.send, Table.get?_erase, hne]

theorem route_unknown (h : s.pending_replies.get? id = none) (data : Bytes) :
    s.route_reply id data = s := by
  simp [Loop.route_reply, Loop.answer_pending, h]

/-- Every caller is answered at most once, a reply only answers the caller of the command with
its id and touches no other entry, one that nobody waits for touches nothing, and once the loop
has ended whoever was not answered is told of the lost connection. -/
theorem replies_correlate (events : List Event) :
    ((run initial events).answered.map Prod.fst).Nodup ∧
      (∀ c reply, (c, .ok reply) ∈ (run initial events).answered →
        ∃ packet, (run initial events).issued[c]? = some packet ∧ reply.id = packet.id) ∧
      (∀ id data, (∀ other, other ≠ id →
          ((run initial events).route_reply id data).pending_replies.get? other =
            (run initial events).pending_replies.get? other) ∧
        ((run initial events).pending_replies.get? id = none →
          (run initial events).route_reply id data = run initial events)) ∧
      ((run initial events).shutdown ≠ none →
        (∀ more c reply, (c, .ok reply) ∈ (run initial (events ++ more)).answered →
          (c, .ok reply) ∈ (run initial events).answered) ∧
        ∀ more, (run initial (events ++ more)).returned = true →
          ∀ c, c ∉ (run initial (events ++ more)).answered.map Prod.fst →
            ∃ cause, (run initial (events ++ more)).shutdown = some cause ∧
              (run initial (events ++ more)).reply c =
                some (.error (.connection_closed cause))) := by
  have hsound := run_sound initial_sound events
  refine ⟨answered_nodup hsound, hsound.answered, fun id data => ⟨fun other hne => ?_, ?_⟩,
    fun hs => ⟨fun more c reply hc => ?_, fun more hret c hc => ?_⟩⟩
  · exact route_other hne data
  · exact fun h => route_unknown h data
  · rw [run, List.foldl_append] at hc
    exact run_after_shutdown hs more hc
  · exact reply_of_returned (run_sound initial_sound (events ++ more)) hret hc

end Correlation

end JavaDebug.EventLoop
