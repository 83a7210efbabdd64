import JavaDebug.EventLoop

/-!
The task that owns the read half of the socket, as a machine: bytes come in any
portions, the stream may close at any moment, and packets are handed on through
a channel until the first error. What is handed on is cut off the stream at the
lengths that the packets declare, so it depends on the bytes alone.
-/
namespace JavaDebug.PacketFraming

open Octets EventLoop

section Frames

/-- What `read_packet` hands over: whether it is a reply, its id, and all of its bytes. -/
abbrev Frame := Bool × UInt32 × Bytes

def bytes_of (f : Frame) : Bytes := f.2.2

variable (stream : Bytes)

def header_of : Bytes := stream.take HEADER_SIZE

def length_field (header : Bytes) : ℕ := value (header.take 4)

/-- The three checks on a header. -/
def IsHeader (header : Bytes) : Prop :=
  (packet_flags header = 0 ∨ packet_flags header = REPLY_FLAG) ∧
    HEADER_SIZE ≤ length_field header ∧ length_field header ≤ MAX_PACKET_SIZE

instance (header : Bytes) : Decidable (IsHeader header) := inferInstanceAs (Decidable (_ ∧ _))

/-- A frame is as long as its length field says, and what is told of it is in its header. -/
structure Exact (f : Frame) : Prop where
  framed : IsHeader (header_of (bytes_of f))
  length : (bytes_of f).length = length_field (header_of (bytes_of f))
  is_reply : f.1 = (packet_flags (header_of (bytes_of f)) == REPLY_FLAG)
  id : f.2.1 = packet_id (header_of (bytes_of f))

/-- What stands at the front is as long as a header and is none. -/
def Foreign : Prop :=
  HEADER_SIZE ≤ stream.length ∧ ¬ IsHeader (header_of stream)

/-- No whole packet stands at the front. -/
def Stuck : Prop :=
  stream.length < HEADER_SIZE ∨ ¬ IsHeader (header_of stream) ∨
    stream.length < length_field (header_of stream)

variable {f : Frame} {rest : Bytes}

theorem Exact.header_le (h : Exact f) : HEADER_SIZE ≤ (bytes_of f).length := by
  rw [h.length]
  exact h.framed.2.1

theorem header_append {bs : Bytes} (h : HEADER_SIZE ≤ bs.length) (rest : Bytes) :
    header_of (bs ++ rest) = header_of bs :=
  List.take_append_of_le_length h

theorem read_packet_eq (closed : Option String) (foreign : String) :
    read_packet stream closed foreign =
      if stream.length < HEADER_SIZE then closed.map fun e => (.error (.io e), [])
      else if ¬ IsHeader (header_of stream) then
        some (.error (.not_jdwp_framed foreign), stream.drop HEADER_SIZE)
      else if stream.length < length_field (header_of stream) then
        closed.map fun e => (.error (.io e), [])
      else
        some (.ok (packet_flags (header_of stream) == REPLY_FLAG, packet_id (header_of stream),
          stream.take (length_field (header_of stream))),
          stream.drop (length_field (header_of stream))) := by
  rfl

theorem read_frame (h : Exact f) (rest : Bytes) (closed : Option String) (foreign : String) :
    read_packet (bytes_of f ++ rest) closed foreign = some (.ok f, rest) := by
  have hle := h.header_le
  have hlength : (bytes_of f ++ rest).length = (bytes_of f).length + rest.length :=
    List.length_append
  rw [read_packet_eq, header_append hle, ← h.length, if_neg (by omega),
    if_neg (not_not.mpr h.framed), if_neg (by omega), List.take_left, List.drop_left, ← h.is_reply,
    ← h.id]
  rfl

variable {stream : Bytes}

theorem read_ok {closed : Option String} {foreign : String}
    (h : read_packet stream closed foreign = some (.ok f, rest)) :
    Exact f ∧ stream = bytes_of f ++ rest := by
  rw [read_packet_eq] at h
  split at h
  · cases closed <;> cases h
  split at h
  · cases h
  rename_i hframed
  have hframed := not_not.mp hframed
  split at h
  · cases closed <;> cases h
  cases h
  have hsame : header_of (stream.take (length_field (header_of stream))) = header_of stream := by
    rw [header_of, List.take_take, min_eq_left hframed.2.1, header_of]
  refine ⟨⟨?_, ?_, ?_, ?_⟩, (List.take_append_drop _ _).symm⟩
  · show IsHeader (header_of (stream.take _))
    rwa [hsame]
  · show (stream.take _).length = length_field (header_of (stream.take _))
    rw [hsame, List.length_take]
    omega
  · show _ = (packet_flags (header_of (stream.take _)) == REPLY_FLAG)
    rw [hsame]
  · show _ = packet_id (header_of (stream.take _))
    rw [hsame]

theorem read_error {closed : Option String} {foreign : String} {e : JdwpError}
    (h : read_packet stream closed foreign = some (.error e, rest)) :
    Foreign stream ∨ closed.isSome ∧ Stuck stream := by
  rw [read_packet_eq] at h
  split at h
  · refine Or.inr ⟨?_, Or.inl ‹_›⟩
    cases closed with
    | none => cases h
    | some why => rfl
  rename_i hlong
  split at h
  · exact Or.inl ⟨Nat.le_of_not_lt hlong, ‹_›⟩
  split at h
  · refine Or.inr ⟨?_, Or.inr (Or.inr ‹_›)⟩
    cases closed with
    | none => cases h
    | some why => rfl
  · cases h

theorem Foreign.stuck (h : Foreign stream) : Stuck stream := Or.inr (Or.inl h.2)

theorem Foreign.append (h : Foreign stream) (rest : Bytes) : Foreign (stream ++ rest) := by
  refine ⟨?_, ?_⟩
  · rw [List.length_append]
    exact h.1.trans (Nat.le_add_right _ _)
  · rw [header_append h.1]
    exact h.2

theorem frames_agree {fs gs : List Frame} (hf : ∀ f ∈ fs, Exact f) (hg : ∀ g ∈ gs, Exact g)
    {tail : Bytes} (h : fs.flatMap bytes_of ++ rest = gs.flatMap bytes_of ++ tail)
    (hstuck : Stuck tail) : fs <+: gs := by
  induction fs generalizing gs with
  | nil => exact List.nil_prefix
  | cons f fs ih =>
    have hexact := hf f List.mem_cons_self
    have hread := read_frame hexact (fs.flatMap bytes_of ++ rest) none ""
    rw [List.flatMap_cons, List.append_assoc] at h
    cases gs with
    | nil =>
      rw [List.flatMap_nil, List.nil_append] at h
      exfalso
      have hle := hexact.header_le
      have hlong : (bytes_of f).length ≤ tail.length := by
        rw [← h, List.length_append]
        omega
      have hsame : header_of tail = header_of (bytes_of f) := by
        rw [← h, header_append hle]
      have hlength := hexact.length
      rcases hstuck with hshort | hbad | hshort
      · omega
      · exact hbad (hsame ▸ hexact.framed)
      · rw [hsame] at hshort
        omega
    | cons g gs =>
      rw [List.flatMap_cons, List.append_assoc] at h
      have hnext := read_frame (hg g List.mem_cons_self) (gs.flatMap bytes_of ++ tail) none ""
      rw [← h, hread] at hnext
      obtain ⟨hsame, hrest⟩ := Prod.mk.inj (Option.some.inj hnext)
      cases Except.ok.inj hsame
      have hf' : ∀ f ∈ fs, Exact f := fun f hmem => hf f (List.mem_cons_of_mem _ hmem)
      have hg' : ∀ g ∈ gs, Exact g := fun g hmem => hg g (List.mem_cons_of_mem _ hmem)
      exact List.cons_prefix_cons.mpr ⟨rfl, ih hf' hg' hrest⟩

end Frames

section Reader

def PACKET_CHANNEL_DEPTH : ℕ := 8

/-- `awaiting` is the result that was read and is not in the channel: the task holds it until there
is room, and ends if the loop is gone. `sent` is all that has gone into the channel, of which the
loop has taken the first `taken`. `came` are the bytes that have ever come. -/
structure PacketReader where
  came : Bytes
  stream : Bytes
  closed : Option String
  awaiting : Option (JdwpResult Frame)
  sent : List (JdwpResult Frame)
  taken : ℕ
  loop_gone : Bool
  ended : Bool

def spawn_packet_reader : PacketReader := ⟨[], [], none, none, [], 0, false, false⟩

inductive Move
  | arrive (bytes : Bytes)
  | close (why : String)
  | read (foreign : String)
  | send
  | recv
  | drop_receiver

namespace PacketReader

variable (s : PacketReader)

def read (foreign : String) : PacketReader :=
  if s.ended ∨ s.awaiting.isSome then s
  else
    match read_packet s.stream s.closed foreign with
    | none => s
    | some (result, rest) => { s with stream := rest, awaiting := some result }

def send : PacketReader :=
  match s.awaiting with
  | none => s
  | some result =>
    if s.ended then s
    else if s.loop_gone then { s with ended := true }
    else if s.sent.length - s.taken < PACKET_CHANNEL_DEPTH then
      { s with awaiting := none, sent := s.sent ++ [result], ended := !result.toBool }
    else s

def step : Move → PacketReader
  | .arrive bytes =>
    if s.closed.isSome then s
    else { s with came := s.came ++ bytes, stream := s.stream ++ bytes }
  | .close why => { s with closed := s.closed.or (some why) }
  | .read foreign => s.read foreign
  | .send => s.send
  | .recv => if s.taken < s.sent.length then { s with taken := s.taken + 1 } else s
  | .drop_receiver => { s with loop_gone := true }

def run (moves : List Move) : PacketReader := moves.foldl step s

/-- The packets that have been handed on. -/
def handed_on : List Frame := s.sent.filterMap Except.toOption

end PacketReader

/-- Frames and then, it may be, the error that ends them. -/
def results (fs : List Frame) (error : Option JdwpError) : List (JdwpResult Frame) :=
  fs.map .ok ++ (error.map .error).toList

/-- What was read is the front of what came, cut at the lengths of its packets; after an error there
is nothing to cut off, and nothing is read. -/
structure Framed (s : PacketReader) (fs : List Frame) (error : Option JdwpError) : Prop where
  exact_ : ∀ f ∈ fs, Exact f
  handed : s.sent ++ s.awaiting.toList = results fs error
  cut : error = none → s.came = fs.flatMap bytes_of ++ s.stream
  stuck : error ≠ none → ∃ tail, s.came = fs.flatMap bytes_of ++ tail ∧
    (Foreign tail ∨ s.closed.isSome ∧ Stuck tail)
  stopped : error ≠ none → s.ended ∨ s.awaiting.isSome

theorem spawned_framed : Framed spawn_packet_reader [] none where
  exact_ := fun _ h => absurd h List.not_mem_nil
  handed := rfl
  cut := fun _ => rfl
  stuck := fun h => absurd rfl h
  stopped := fun h => absurd rfl h

variable {s : PacketReader} {fs : List Frame} {error : Option JdwpError}

theorem arrive_framed (h : Framed s fs error) (bytes : Bytes) :
    Framed (s.step (.arrive bytes)) fs error := by
  rw [PacketReader.step]
  split
  · exact h
  · rename_i hopen
    refine ⟨h.exact_, h.handed, fun he => ?_, fun he => ?_, h.stopped⟩
    · show s.came ++ bytes = _
      rw [h.cut he, List.append_assoc]
    · obtain ⟨tail, hcame, hforeign | ⟨hclosed, -⟩⟩ := h.stuck he
      · refine ⟨tail ++ bytes, ?_, Or.inl (hforeign.append bytes)⟩
        show s.came ++ bytes = _
        rw [hcame, List.append_assoc]
      · exact absurd hclosed hopen

theorem read_framed (h : Framed s fs error) (foreign : String) :
    ∃ fs' error', Framed (s.read foreign) fs' error' := by
  unfold PacketReader.read
  split
  · exact ⟨fs, error, h⟩
  rename_i hidle
  obtain ⟨hrunning, hnone⟩ := not_or.mp hidle
  have hno_error : error = none := by
    by_contra he
    rcases h.stopped he with hended | hawaits
    · exact hrunning hended
    · exact hnone hawaits
  subst hno_error
  have hempty : s.awaiting = none := Option.not_isSome_iff_eq_none.mp hnone
  have hsent : s.sent = fs.map .ok := by
    have := h.handed
    rwa [hempty, results, Option.map_none, Option.toList_none, List.append_nil,
      List.append_nil] at this
  cases hread : read_packet s.stream s.closed foreign with
  | none => exact ⟨fs, none, h⟩
  | some r =>
    obtain ⟨result, rest⟩ := r
    cases result with
    | ok f =>
      obtain ⟨hexact, hstream⟩ := read_ok hread
      refine ⟨fs ++ [f], none,
        ⟨?_, ?_, fun _ => ?_, fun he => absurd rfl he, fun he => absurd rfl he⟩⟩
      · intro g hg
        rcases List.mem_append.mp hg with hg | hg
        · exact h.exact_ g hg
        · rwa [List.mem_singleton.mp hg]
      · show s.sent ++ [.ok f] = _
        rw [hsent, results, List.map_append]
        exact (List.append_nil _).symm
      · show s.came = _
        rw [h.cut rfl, hstream, List.flatMap_append, List.flatMap_singleton, List.append_assoc]
    | error e =>
      refine ⟨fs, some e, ⟨h.exact_, ?_, fun he => (by cases he), fun _ => ?_, fun _ => Or.inr rfl⟩⟩
      · show s.sent ++ [.error e] = _
        rw [hsent]
        rfl
      · exact ⟨s.stream, h.cut rfl, read_error hread⟩

theorem send_framed (h : Framed s fs error) : Framed s.send fs error := by
  unfold PacketReader.send
  cases hawaits : s.awaiting with
  | none => exact h
  | some result =>
    have hhanded := h.handed
    rw [hawaits] at hhanded
    show Framed (if s.ended then s else _) fs error
    split
    · exact h
    split
    · exact ⟨h.exact_, hhanded, h.cut, h.stuck, fun _ => Or.inl rfl⟩
    split
    · refine ⟨h.exact_, ?_, h.cut, h.stuck, fun he => Or.inl ?_⟩
      · show s.sent ++ [result] ++ [] = _
        rw [List.append_nil]
        exact hhanded
      · obtain ⟨e, rfl⟩ := Option.ne_none_iff_exists'.mp he
        have hlast := (List.append_inj' hhanded rfl).2
        cases hlast
        rfl
    · exact h

theorem step_framed (h : Framed s fs error) (m : Move) :
    ∃ fs' error', Framed (s.step m) fs' error' := by
  cases m with
  | arrive bytes => exact ⟨fs, error, arrive_framed h bytes⟩
  | close why =>
    refine ⟨fs, error, ⟨h.exact_, h.handed, h.cut, fun he => ?_, h.stopped⟩⟩
    obtain ⟨tail, hcame, htail⟩ := h.stuck he
    refine ⟨tail, hcame, htail.imp_right fun hclosed => ⟨?_, hclosed.2⟩⟩
    show (s.closed.or _).isSome
    cases s.closed <;> rfl
  | read foreign => exact read_framed h foreign
  | send => exact ⟨fs, error, send_framed h⟩
  | recv =>
    rw [PacketReader.step]
    split
    · exact ⟨fs, error, ⟨h.exact_, h.handed, h.cut, h.stuck, h.stopped⟩⟩
    · exact ⟨fs, error, h⟩
  | drop_receiver => exact ⟨fs, error, ⟨h.exact_, h.handed, h.cut, h.stuck, h.stopped⟩⟩

theorem run_framed (h : Framed s fs error) (moves : List Move) :
    ∃ fs' error', Framed (s.run moves) fs' error' := by
  induction moves generalizing s fs error with
  | nil => exact ⟨fs, error, h⟩
  | cons m moves ih =>
    obtain ⟨fs', error', hstep⟩ := step_framed h m
    exact ih hstep

theorem filterMap_results (fs : List Frame) (error : Option JdwpError) :
    (results fs error).filterMap Except.toOption = fs := by
  rw [results, List.filterMap_append, List.filterMap_map]
  cases error <;> simp [Function.comp_def, Except.toOption]

/-- What is in the channel is the front of what was read. -/
theorem handed_in_order (h : Framed s fs error) : s.handed_on <+: fs := by
  have hsent : s.sent <+: results fs error := by
    rw [← h.handed]
    exact List.prefix_append _ _
  rw [← filterMap_results fs error]
  exact hsent.filterMap _

theorem handed_on_all (h : Framed s fs error) (hidle : s.awaiting = none) : s.handed_on = fs := by
  have hsent := h.handed
  rw [hidle, Option.toList_none, List.append_nil] at hsent
  rw [PacketReader.handed_on, hsent, filterMap_results]

theorem Framed.tail (h : Framed s fs error) :
    ∃ tail, s.came = fs.flatMap bytes_of ++ tail ∧ (tail = s.stream ∨ Stuck tail) := by
  cases error with
  | none => exact ⟨s.stream, h.cut rfl, Or.inl rfl⟩
  | some e =>
    obtain ⟨tail, hcame, htail⟩ := h.stuck (Option.some_ne_none e)
    exact ⟨tail, hcame, Or.inr (htail.elim Foreign.stuck And.right)⟩

end Reader

section Packets

/-- A packet of either kind: `code` is the command set and the command, or the two bytes of the
error code. -/
structure Packet where
  id : UInt32
  is_reply : Bool
  code : UInt8 × UInt8
  data : Bytes
  fits : HEADER_SIZE + data.length ≤ MAX_PACKET_SIZE

namespace Packet

def bytes (p : Packet) : Bytes :=
  put 4 (HEADER_SIZE + p.data.length) ++ (put 4 p.id.toNat ++
    ((if p.is_reply then REPLY_FLAG else 0) :: p.code.1 :: p.code.2 :: p.data))

def frame (p : Packet) : Frame := (p.is_reply, p.id, p.bytes)

end Packet

theorem packet_header (p : Packet) :
    header_of p.bytes = put 4 (HEADER_SIZE + p.data.length) ++ (put 4 p.id.toNat ++
      [if p.is_reply then REPLY_FLAG else 0, p.code.1, p.code.2]) :=
  rfl

theorem packet_exact (p : Packet) : Exact p.frame := by
  have hmax : MAX_PACKET_SIZE = 10485760 := rfl
  have hfits := p.fits
  have hlength : length_field (header_of p.bytes) = HEADER_SIZE + p.data.length := by
    rw [packet_header]
    show value (put 4 _) = _
    rw [value_put]
    exact Nat.mod_eq_of_lt (by omega)
  have hflags : packet_flags (header_of p.bytes) = if p.is_reply then REPLY_FLAG else 0 := rfl
  have hsize : p.bytes.length = HEADER_SIZE + p.data.length := by
    simp only [Packet.bytes, List.length_append, List.length_cons, length_put, HEADER_SIZE]
    omega
  refine ⟨⟨?_, ?_, ?_⟩, ?_, ?_, ?_⟩
  · show packet_flags (header_of p.bytes) = 0 ∨ packet_flags (header_of p.bytes) = REPLY_FLAG
    rw [hflags]
    cases p.is_reply
    · exact Or.inl rfl
    · exact Or.inr rfl
  · show HEADER_SIZE ≤ length_field (header_of p.bytes)
    omega
  · show length_field (header_of p.bytes) ≤ MAX_PACKET_SIZE
    omega
  · show p.bytes.length = length_field (header_of p.bytes)
    rw [hsize, hlength]
  · show p.is_reply = (packet_flags (header_of p.bytes) == REPLY_FLAG)
    rw [hflags]
    cases p.is_reply <;> rfl
  · show p.id = UInt32.ofNat (value (put 4 p.id.toNat))
    rw [value_put, Nat.mod_eq_of_lt (b := 256 ^ 4) p.id.toNat_lt, UInt32.ofNat_toNat]

/-- Read packets one after another off the bytes, until there is none or an error. -/
def read_packets (closed : Option String) (foreign : String) : ℕ → Bytes → List (JdwpResult Frame)
  | 0, _ => []
  | n + 1, stream =>
    match read_packet stream closed foreign with
    | none => []
    | some (.error e, _) => [.error e]
    | some (.ok f, rest) => .ok f :: read_packets closed foreign n rest

theorem read_packets_frame {f : Frame} (h : Exact f) (closed : Option String) (foreign : String)
    (n : ℕ) (rest : Bytes) :
    read_packets closed foreign (n + 1) (bytes_of f ++ rest) =
      .ok f :: read_packets closed foreign n rest := by
  rw [read_packets, read_frame h]

theorem reads_back (ps : List Packet) (foreign : String) {n : ℕ} (h : ps.length ≤ n) :
    read_packets none foreign n (ps.flatMap Packet.bytes) = ps.map fun p => .ok p.frame := by
  induction ps generalizing n with
  | nil => cases n <;> rfl
  | cons p ps ih =>
    obtain ⟨n, rfl⟩ := Nat.exists_eq_succ_of_ne_zero (Nat.ne_zero_of_lt h)
    rw [List.map_cons, ← ih (Nat.le_of_succ_le_succ h)]
    exact read_packets_frame (packet_exact p) none foreign n _

/-- What the bytes of a command packet say, at the places where `encode` puts it. -/
def read_command (buf : Bytes) : CommandPacket :=
  ⟨packet_id buf, buf.getD 9 0, buf.getD 10 0, buf.drop HEADER_SIZE⟩

def command (p : CommandPacket) (h : HEADER_SIZE + p.data.length ≤ MAX_PACKET_SIZE) : Packet :=
  ⟨p.id, false, (p.command_set, p.command), p.data, h⟩

variable (p : CommandPacket)

theorem command_bytes (h : HEADER_SIZE + p.data.length ≤ MAX_PACKET_SIZE) :
    (command p h).bytes = p.encode := by
  have hmax : MAX_PACKET_SIZE = 10485760 := rfl
  have hlength : min (HEADER_SIZE + p.data.length) 4294967295 = HEADER_SIZE + p.data.length :=
    min_eq_left (by omega)
  rw [CommandPacket.encode, hlength, List.append_assoc, List.append_assoc]
  rfl

theorem read_command_encode : read_command p.encode = p := by
  have hid : packet_id p.encode = p.id := by
    show UInt32.ofNat (value (put 4 p.id.toNat)) = p.id
    rw [value_put, Nat.mod_eq_of_lt (b := 256 ^ 4) p.id.toNat_lt, UInt32.ofNat_toNat]
  rw [read_command, hid]
  rfl

theorem flatMap_frame (ps : List Packet) :
    (ps.map Packet.frame).flatMap bytes_of = ps.flatMap Packet.bytes :=
  List.flatMap_map ..

theorem mem_frames_exact {ps : List Packet} : ∀ f ∈ ps.map Packet.frame, Exact f := by
  intro f hf
  obtain ⟨p, -, rfl⟩ := List.mem_map.mp hf
  exact packet_exact p

/-- However the bytes come, what is handed on are the packets that were sent, in order; all of them
once the task has read all that came and holds nothing. -/
theorem sent_packets_handed_on (moves : List Move) (ps : List Packet)
    (h : (spawn_packet_reader.run moves).came = ps.flatMap Packet.bytes) :
    (spawn_packet_reader.run moves).handed_on <+: ps.map Packet.frame ∧
      ((spawn_packet_reader.run moves).stream = [] →
        (spawn_packet_reader.run moves).awaiting = none →
          (spawn_packet_reader.run moves).handed_on = ps.map Packet.frame) := by
  obtain ⟨fs, error, hframed⟩ := run_framed spawned_framed moves
  generalize spawn_packet_reader.run moves = s at *
  have hcame : s.came = (ps.map Packet.frame).flatMap bytes_of ++ [] := by
    rw [h, flatMap_frame, List.append_nil]
  have hends : Stuck [] := Or.inl (by decide)
  obtain ⟨tail, htail, hrest⟩ := hframed.tail
  have hfront : fs <+: ps.map Packet.frame :=
    frames_agree hframed.exact_ mem_frames_exact (htail.symm.trans hcame) hends
  refine ⟨(handed_in_order hframed).trans hfront, fun hread hidle => ?_⟩
  have hstuck : Stuck tail := by
    rcases hrest with rfl | hstuck
    · rwa [hread]
    · exact hstuck
  have hback : ps.map Packet.frame <+: fs :=
    frames_agree mem_frames_exact hframed.exact_ (hcame.symm.trans htail) hstuck
  rw [handed_on_all hframed hidle]
  exact hfront.eq_of_length_le hback.length_le

/-- Whatever bytes come, what is handed on is cut off their front packet by packet, and never goes
past a header that is none. -/
theorem any_bytes_handed_on (moves : List Move) :
    (∀ f ∈ (spawn_packet_reader.run moves).handed_on, Exact f) ∧
      (spawn_packet_reader.run moves).handed_on.flatMap bytes_of <+:
        (spawn_packet_reader.run moves).came ∧
      ∀ (gs : List Frame) (tail : Bytes), (∀ g ∈ gs, Exact g) → Foreign tail →
        (spawn_packet_reader.run moves).came = gs.flatMap bytes_of ++ tail →
          (spawn_packet_reader.run moves).handed_on <+: gs := by
  obtain ⟨fs, error, hframed⟩ := run_framed spawned_framed moves
  generalize spawn_packet_reader.run moves = s at *
  obtain ⟨tail, htail, -⟩ := hframed.tail
  have hfront := handed_in_order hframed
  refine ⟨fun f hf => hframed.exact_ f (hfront.subset hf), ?_, ?_⟩
  · obtain ⟨more, hmore⟩ := hfront
    rw [htail, ← hmore, List.flatMap_append, List.append_assoc]
    exact List.prefix_append _ _
  · intro gs foreign hgs hforeign hcame
    exact hfront.trans (frames_agree hframed.exact_ hgs (htail.symm.trans hcame) hforeign.stuck)

theorem read_packet_encode (h : HEADER_SIZE + p.data.length ≤ MAX_PACKET_SIZE) (rest : Bytes)
    (closed : Option String) (foreign : String) :
    read_packet (p.encode ++ rest) closed foreign = some (.ok (false, p.id, p.encode), rest) := by
  have hread := read_frame (packet_exact (command p h)) rest closed foreign
  rw [← command_bytes p h]
  exact hread

/-- Packets are framed right: packets of either kind are read back in order from their bytes, one
after another and by the task whatever the portions they come in; of any bytes only whole packets
are handed on, and none after a header that is none; and an encoded command is read back. -/
theorem packet_framing :
    (∀ (ps : List Packet) (foreign : String) (n : ℕ), ps.length ≤ n →
      read_packets none foreign n (ps.flatMap Packet.bytes) = ps.map fun p => .ok p.frame) ∧
    (∀ (moves : List Move) (ps : List Packet),
      (spawn_packet_reader.run moves).came = ps.flatMap Packet.bytes →
        (spawn_packet_reader.run moves).handed_on <+: ps.map Packet.frame ∧
          ((spawn_packet_reader.run moves).stream = [] →
            (spawn_packet_reader.run moves).awaiting = none →
              (spawn_packet_reader.run moves).handed_on = ps.map Packet.frame)) ∧
    (∀ moves : List Move,
      (∀ f ∈ (spawn_packet_reader.run moves).handed_on, Exact f) ∧
        (spawn_packet_reader.run moves).handed_on.flatMap bytes_of <+:
          (spawn_packet_reader.run moves).came ∧
        ∀ (gs : List Frame) (tail : Bytes), (∀ g ∈ gs, Exact g) → Foreign tail →
          (spawn_packet_reader.run moves).came = gs.flatMap bytes_of ++ tail →
            (spawn_packet_reader.run moves).handed_on <+: gs) ∧
    (∀ p : CommandPacket, HEADER_SIZE + p.data.length ≤ MAX_PACKET_SIZE →
      (∀ (rest : Bytes) (closed : Option String) (foreign : String),
        read_packet (p.encode ++ rest) closed foreign =
          some (.ok (false, p.id, p.encode), rest)) ∧
      read_command p.encode = p) :=
  ⟨fun ps foreign _ h => reads_back ps foreign h, sent_packets_handed_on, any_bytes_handed_on,
    fun p h => ⟨read_packet_encode p h, read_command_encode p⟩⟩

end Packets

end JavaDebug.PacketFraming
