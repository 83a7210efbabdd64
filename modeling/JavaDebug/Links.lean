import JavaDebug.ReadOnly

/-!
One connection to a debuggee that answers each command by what it asks: a reply
with an error code and data, or none at all. What a function of the connection
returns under such a debuggee is compared by the answers alone, the type cache
it leaves, and the commands it has sent, without their ids.
-/
namespace JavaDebug.Links

open Dialogue Octets Connection
open EventLoop (CommandPacket ReplyPacket)
open ReadOnly (Shared Outcome sends)

section Debuggee

/-- A command without its id: its set, its number and its data. -/
abbrev Request := UInt8 × UInt8 × Bytes

/-- What is answered to a request: an error code and data, or a failure of the connection. -/
abbrev Debuggee := Request → EventLoop.JdwpResult (UInt16 × Bytes)

def request_of (p : CommandPacket) : Request := (p.command_set, p.command, p.data)

variable (d : Debuggee)

def reply_to (p : CommandPacket) : EventLoop.JdwpResult ReplyPacket :=
  (d (request_of p)).map fun r => ⟨p.id, r.1, r.2⟩

structure Link where
  shared : Shared
  sent : List CommandPacket

def Link.asked (l : Link) : List Request := l.sent.map request_of

/-- Nothing times out, and there are no events. -/
def outcome (o : Op) : Outcome :=
  match sends o with
  | some p => ⟨reply_to d p, true, none⟩
  | none => ⟨.error (.protocol ""), true, none⟩

def serve (l : Link) (o : Op) : o.Answer × Link :=
  ((ReadOnly.serve (outcome d o) l.shared o).1,
    ⟨(ReadOnly.serve (outcome d o) l.shared o).2,
      match sends o with
      | some p => l.sent ++ [p]
      | none => l.sent⟩)

/-- The requests are sent, and the cache is as it was. -/
structure Sent (l l' : Link) (requests : List Request) : Prop where
  types : l'.shared.types = l.shared.types
  asked : l'.asked = l.asked ++ requests

theorem Sent.trans {l l' l'' : Link} {rs rs' : List Request} (h : Sent l l' rs)
    (h' : Sent l' l'' rs') : Sent l l'' (rs ++ rs') :=
  ⟨h'.types.trans h.types, by rw [h'.asked, h.asked, List.append_assoc]⟩

/-- What a command says under a debuggee, whatever its id. -/
def said {α : Type} (set cmd : UInt8) (body : Bytes) (p : Decode α) : JdwpResult α :=
  (of_loop (reply_to d ⟨0, set, cmd, body⟩)).bind (decode p)

theorem said_reply {α : Type} (packet : CommandPacket) (p : Decode α) :
    (of_loop (reply_to d packet)).bind (decode p) =
      said d packet.command_set packet.command packet.data p := by
  unfold said reply_to request_of
  cases d (packet.command_set, packet.command, packet.data) with
  | error e => rfl
  | ok r => rfl

end Debuggee

section Served

variable (d : Debuggee) {α : Type}

theorem command_served (set cmd : UInt8) (body : Bytes) (p : Decode α) (l : Link) :
    ((command set cmd body p).run.served (serve d) l).1 = said d set cmd body p ∧
      Sent l ((command set cmd body p).run.served (serve d) l).2 [(set, cmd, body)] := by
  have hrun : (command set cmd body p).run.served (serve d) l =
      ((of_loop (reply_to d ⟨l.shared.next_id, set, cmd, body⟩)).bind (decode p),
        ⟨{ l.shared with
            next_id := l.shared.next_id + 1
            round_trips := l.shared.round_trips + 1 },
          l.sent ++ [⟨l.shared.next_id, set, cmd, body⟩]⟩) := by
    rw [command_run]
    rfl
  rw [hrun]
  refine ⟨said_reply d _ p, rfl, ?_⟩
  simp [Link.asked, request_of]

theorem packets_served (set cmd : UInt8) (bodies : List Bytes) (l : Link) :
    ((bodies.mapM (packet set cmd)).served (serve d) l).1.map request_of =
        bodies.map (fun body => (set, cmd, body)) ∧
      Sent l ((bodies.mapM (packet set cmd)).served (serve d) l).2 [] := by
  induction bodies generalizing l with
  | nil => exact ⟨rfl, rfl, (List.append_nil _).symm⟩
  | cons body rest ih =>
    rw [List.mapM_cons, Program.served_bind, Program.served_bind]
    obtain ⟨hval, hsent⟩ := ih ((packet set cmd body).served (serve d) l).2
    refine ⟨congrArg (List.cons (set, cmd, body)) hval, ?_⟩
    exact ⟨hsent.types, hsent.asked⟩

theorem issues_served (packets : List CommandPacket) (l : Link) :
    ((packets.mapM fun p => of_loop <$> ask (.issue p)).served (serve d) l).1 =
        packets.map (fun p => of_loop (reply_to d p)) ∧
      Sent l ((packets.mapM fun p => of_loop <$> ask (.issue p)).served (serve d) l).2
        (packets.map request_of) := by
  induction packets generalizing l with
  | nil => exact ⟨rfl, rfl, (List.append_nil _).symm⟩
  | cons p rest ih =>
    rw [List.mapM_cons, Program.served_bind, Program.served_bind]
    obtain ⟨hval, hsent⟩ := ih ⟨l.shared, l.sent ++ [p]⟩
    refine ⟨congrArg (List.cons (of_loop (reply_to d p))) hval, ?_⟩
    have hone : Sent l ⟨l.shared, l.sent ++ [p]⟩ [request_of p] := ⟨rfl, by simp [Link.asked]⟩
    exact hone.trans hsent

theorem independently_served (packets : List CommandPacket) (l : Link) :
    ((read_independently packets).served (serve d) l).1 =
        packets.map (fun p => of_loop (reply_to d p)) ∧
      Sent l ((read_independently packets).served (serve d) l).2 (packets.map request_of) := by
  let trips := l.shared.round_trips + EventLoop.waves_u32 packets
  obtain ⟨hval, hsent⟩ := issues_served d packets
    ⟨{ l.shared with round_trips := trips }, l.sent⟩
  exact ⟨hval, hsent.types, hsent.asked⟩

/-- A wave answers every body as the single command does, and sends no other command. -/
theorem wave_served (set cmd : UInt8) (bodies : List Bytes) (p : Decode α) (l : Link) :
    ((wave set cmd bodies p).served (serve d) l).1 = bodies.map (said d set cmd · p) ∧
      Sent l ((wave set cmd bodies p).served (serve d) l).2
        (bodies.map fun body => (set, cmd, body)) := by
  obtain ⟨hpackets, hids⟩ := packets_served d set cmd bodies l
  unfold wave
  rw [Program.served_bind, Program.served_bind]
  generalize (bodies.mapM (packet set cmd)).served (serve d) l = packets at hpackets hids ⊢
  obtain ⟨hval, hsent⟩ := independently_served d packets.1 packets.2
  refine ⟨?_, ?_⟩
  · change (((read_independently packets.1).served (serve d) packets.2).1.map
      fun r => r.bind (decode p)) = _
    have hsaid : (fun q : CommandPacket => (of_loop (reply_to d q)).bind (decode p)) =
        (fun r : Request => said d r.1 r.2.1 r.2.2 p) ∘ request_of :=
      funext fun q => said_reply d q p
    rw [hval, List.map_map]
    change packets.1.map (fun q => (of_loop (reply_to d q)).bind (decode p)) = _
    rw [hsaid, ← List.map_map, hpackets, List.map_map]
    rfl
  · rw [← hpackets]
    exact hids.trans hsent

end Served

end JavaDebug.Links
