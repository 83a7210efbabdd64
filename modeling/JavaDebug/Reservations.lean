import JavaDebug.CompositeEvents
import JavaDebug.Connection

/-!
Lists behind a count. A decoder reads a header and a count, reserves room for as
many elements as the count says, and only then reads the first of them. The room
is within what is left of the payload exactly when the count is, and a negative
count is read as an empty list.
-/
namespace JavaDebug.Reservations

open Octets Cursors
open EventLoop (ReplyPacket)

section Decoding

/-- Room for elements, and how many bytes were left when it was reserved. -/
structure Reservation where
  elements : ℕ
  left : ℕ
  deriving DecidableEq

structure Slice where
  buf : Bytes
  reserved : List Reservation

/-- A decoder; what it has reserved is known also when it fails. -/
abbrev Decoding (ε α : Type) := ExceptT ε (StateM Slice) α

variable {ε α β γ : Type}

def reading (p : Cursor UInt8 (Except ε) α) : Decoding ε α := do
  let s ← get
  match p s.buf with
  | .ok (a, rest) => do
    set { s with buf := rest }
    pure a
  | .error e => throw e

def with_capacity (n : ℕ) : Decoding ε Unit :=
  modify fun s => { s with reserved := s.reserved ++ [⟨n, s.buf.length⟩] }

def repeated (item : Cursor UInt8 (Except ε) α) : ℕ → Decoding ε (List α)
  | 0 => pure []
  | n + 1 => do
    let a ← reading item
    let rest ← repeated item n
    pure (a :: rest)

/-- A header, a count, and as many elements; a negative count counts none. -/
def listed (header : Cursor UInt8 (Except ε) γ) (read_count : Cursor UInt8 (Except ε) Int32)
    (item : Cursor UInt8 (Except ε) α) (finish : γ → List α → β) : Decoding ε β := do
  let h ← reading header
  let count ← reading read_count
  with_capacity count.toInt.toNat
  let items ← repeated item count.toInt.toNat
  pure (finish h items)

def outcome (d : Decoding ε α) (payload : Bytes) : Except ε α × Slice := d.run.run ⟨payload, []⟩

end Decoding

section Decoders

open Connection
open WireReader (Value)

def parse_event_packet : Decoding EventLoop.JdwpError CompositeEvents.EventSet :=
  listed WireReader.read_u8 WireReader.read_i32 CompositeEvents.parse_event
    CompositeEvents.EventSet.mk

variable (reply : ReplyPacket)

/-- The header of a reply, behind its error check. -/
def checked {γ : Type} (header : Decode γ) : Decode γ := do
  let _ ← StateT.lift (check_error reply)
  header

def read_line_range : Decode (UInt64 × UInt64) := do
  let start ← read_u64
  let end_ ← read_u64
  pure (start, end_)

def read_line : Decode LineTableEntry := do
  let line_code_index ← read_u64
  let line_number ← read_i32
  pure ⟨line_code_index, line_number⟩

def decode_line_table : Decoding JdwpError LineTable :=
  listed (checked reply read_line_range) read_i32 read_line fun range lines =>
    ⟨range.1, range.2, lines⟩

def decode_variable_table (with_generic : Bool) : Decoding JdwpError (List Variable) :=
  listed (checked reply read_i32) read_i32 (read_variable with_generic) fun _ vars => vars

def decode_frames : Decoding JdwpError (List Frame) :=
  listed (checked reply (pure ())) read_i32 read_frame fun _ frames => frames

def decode_owned_monitors : Decoding JdwpError (List Monitor) :=
  listed (checked reply (pure ())) read_i32 read_monitor fun _ monitors => monitors

def decode_object_values : Decoding JdwpError (List Value) :=
  listed (checked reply (pure ())) read_i32 read_tagged_value fun _ values => values

end Decoders

section Runs

variable {ε α β γ : Type}

theorem run_bind (d : Decoding ε α) (f : α → Decoding ε β) (s : Slice) :
    (d >>= f).run.run s =
      match d.run.run s with
      | (.ok a, s') => (f a).run.run s'
      | (.error e, s') => (.error e, s') := by
  change (match d.run.run s with
    | (r, s') => (ExceptT.bindCont f r).run s') = _
  rcases d.run.run s with ⟨_ | a, s'⟩
  · rfl
  · rfl

theorem run_reading (p : Cursor UInt8 (Except ε) α) (s : Slice) :
    (reading p).run.run s =
      match p s.buf with
      | .ok (a, rest) => (.ok a, { s with buf := rest })
      | .error e => (.error e, s) := by
  unfold reading
  change (match p s.buf with
    | .ok (a, rest) => do
      set { s with buf := rest }
      pure a
    | .error e => throw e : Decoding ε α).run.run s = _
  cases p s.buf with
  | ok r => rfl
  | error e => rfl

/-- Elements reserve nothing, and as many are read as were asked for. -/
theorem run_repeated (item : Cursor UInt8 (Except ε) α) (n : ℕ) (s : Slice) :
    ((repeated item n).run.run s).2.reserved = s.reserved ∧
      ∀ items, ((repeated item n).run.run s).1 = .ok items → items.length = n := by
  induction n generalizing s with
  | zero =>
    refine ⟨rfl, fun items h => ?_⟩
    obtain rfl := Except.ok.inj h
    rfl
  | succ n ih =>
    unfold repeated
    rw [run_bind, run_reading]
    cases item s.buf with
    | error e => exact ⟨rfl, fun items h => by cases h⟩
    | ok r =>
      simp only
      rw [run_bind]
      obtain ⟨hreserved, hlength⟩ := ih { s with buf := r.2 }
      generalize (repeated item n).run.run { s with buf := r.2 } = later at hreserved hlength
      obtain ⟨result, s'⟩ := later
      cases result with
      | error e => exact ⟨hreserved, fun items h => by cases h⟩
      | ok rest =>
        refine ⟨hreserved, fun items h => ?_⟩
        obtain rfl := Except.ok.inj h
        rw [List.length_cons, hlength rest rfl]

theorem run_repeated_result (item : Cursor UInt8 (Except ε) α) (n : ℕ) (s : Slice) :
    ((repeated item n).run.run s).1 = (times item n s.buf).map Prod.fst := by
  induction n generalizing s with
  | zero => rfl
  | succ n ih =>
    unfold repeated
    rw [run_bind, run_reading]
    change _ = Except.map Prod.fst (item s.buf >>= fun r => times item n r.2 >>= fun l =>
      Except.ok (r.1 :: l.1, l.2))
    cases hitem : item s.buf with
    | error e => rfl
    | ok r =>
      have hrest := ih { s with buf := r.2 }
      simp only
      rw [run_bind]
      generalize (repeated item n).run.run { s with buf := r.2 } = later at hrest
      obtain ⟨result, s'⟩ := later
      change result = (times item n r.2).map Prod.fst at hrest
      subst hrest
      change _ = Except.map Prod.fst (times item n r.2 >>= fun l => Except.ok (r.1 :: l.1, l.2))
      cases times item n r.2 with
      | error e => rfl
      | ok l => rfl

/-- The count that a payload declares, and what is left after it. -/
def declared (header : Cursor UInt8 (Except ε) γ) (read_count : Cursor UInt8 (Except ε) Int32)
    (payload : Bytes) : Option (Int32 × Bytes) :=
  match (header >>= fun _ => read_count) payload with
  | .ok r => some r
  | .error _ => none

variable (header : Cursor UInt8 (Except ε) γ) (read_count : Cursor UInt8 (Except ε) Int32)
  (item : Cursor UInt8 (Except ε) α) (finish : γ → List α → β)

theorem declared_eq (payload : Bytes) : declared header read_count payload =
    match header payload with
    | .error _ => none
    | .ok r =>
      match read_count r.2 with
      | .ok r => some r
      | .error _ => none := by
  change (match (header payload >>= fun r => read_count r.2) with
    | .ok r => some r
    | .error _ => none) = _
  cases header payload with
  | error e => rfl
  | ok r => rfl

/-- All that a list decoder can do. -/
theorem run_listed (payload : Bytes) : outcome (listed header read_count item finish) payload =
    match header payload with
    | .error e => (.error e, ⟨payload, []⟩)
    | .ok r =>
      match read_count r.2 with
      | .error e => (.error e, ⟨r.2, []⟩)
      | .ok c =>
        let items := (repeated item c.1.toInt.toNat).run.run
          ⟨c.2, [⟨c.1.toInt.toNat, c.2.length⟩]⟩
        (items.1.map (finish r.1), items.2) := by
  unfold outcome listed
  rw [run_bind, run_reading]
  cases header payload with
  | error e => rfl
  | ok r =>
    simp only
    rw [run_bind, run_reading]
    cases read_count r.2 with
    | error e => rfl
    | ok c =>
      change (repeated item c.1.toInt.toNat >>= fun items =>
        (pure (finish r.1 items) : Decoding ε β)).run.run
          ⟨c.2, [⟨c.1.toInt.toNat, c.2.length⟩]⟩ = _
      rw [run_bind]
      dsimp only
      rcases (repeated item c.1.toInt.toNat).run.run _ with ⟨_ | items, s⟩
      · rfl
      · rfl

/-- Without a count nothing is reserved and nothing is returned. -/
theorem run_undeclared {payload : Bytes} (h : declared header read_count payload = none) :
    (outcome (listed header read_count item finish) payload).2.reserved = [] ∧
      ∀ b, (outcome (listed header read_count item finish) payload).1 ≠ .ok b := by
  rw [declared_eq] at h
  rw [run_listed]
  cases hheader : header payload with
  | error e => exact ⟨rfl, fun b hb => by cases hb⟩
  | ok r =>
    rw [hheader] at h
    dsimp only at h ⊢
    cases hcount : read_count r.2 with
    | error e => exact ⟨rfl, fun b hb => by cases hb⟩
    | ok c =>
      rw [hcount] at h
      cases h

/-- With a count as much is reserved, whatever is left. -/
theorem run_declared {payload rest : Bytes} {count : Int32}
    (h : declared header read_count payload = some (count, rest)) :
    (outcome (listed header read_count item finish) payload).2.reserved =
        [⟨count.toInt.toNat, rest.length⟩] ∧
      ∃ a, (outcome (listed header read_count item finish) payload).1 =
        ((repeated item count.toInt.toNat).run.run
          ⟨rest, [⟨count.toInt.toNat, rest.length⟩]⟩).1.map (finish a) := by
  rw [declared_eq] at h
  rw [run_listed]
  cases hheader : header payload with
  | error e =>
    rw [hheader] at h
    cases h
  | ok r =>
    rw [hheader] at h
    dsimp only at h ⊢
    cases hcount : read_count r.2 with
    | error e =>
      rw [hcount] at h
      cases h
    | ok c =>
      rw [hcount] at h
      obtain rfl := Option.some.inj h
      exact ⟨(run_repeated item _ _).1, r.1, rfl⟩

/-- The decoder of packets that reserves nothing returns the same. -/
theorem outcome_result (payload : Bytes) :
    (outcome (listed header read_count item finish) payload).1 =
      ((do
        let h ← header
        let count ← read_count
        let items ← times item count.toInt.toNat
        pure (finish h items) : Cursor UInt8 (Except ε) β) payload).map Prod.fst := by
  change _ = (header payload >>= fun r => read_count r.2 >>= fun c =>
    times item c.1.toInt.toNat c.2 >>= fun l => Except.ok (finish r.1 l.1, l.2)).map Prod.fst
  rw [run_listed]
  cases header payload with
  | error e => rfl
  | ok r =>
    change _ = (read_count r.2 >>= fun c => times item c.1.toInt.toNat c.2 >>= fun l =>
      Except.ok (finish r.1 l.1, l.2)).map Prod.fst
    dsimp only
    cases read_count r.2 with
    | error e => rfl
    | ok c =>
      dsimp only
      rw [run_repeated_result]
      change _ = (times item c.1.toInt.toNat c.2 >>= fun l =>
        Except.ok (finish r.1 l.1, l.2)).map Prod.fst
      cases times item c.1.toInt.toNat c.2 with
      | error e => rfl
      | ok l => rfl

/-- The room that is reserved is within what is left, and a result has as many elements as a
count that is not negative declares. -/
structure KeepsToPayload (d : Decoding ε β) (count_of : Bytes → Option (Int32 × Bytes))
    (items : β → List α) (payload : Bytes) : Prop where
  room : ∀ r ∈ (outcome d payload).2.reserved, r.elements ≤ r.left
  exact_count : ∀ b, (outcome d payload).1 = .ok b → ∃ count rest,
    count_of payload = some (count, rest) ∧ 0 ≤ count.toInt ∧ ((items b).length : ℤ) = count.toInt

/-- The count, if there is one, is no larger than what is left after it, and not negative. -/
def CountFits (count_of : Bytes → Option (Int32 × Bytes)) (payload : Bytes) : Prop :=
  ∀ count rest, count_of payload = some (count, rest) →
    0 ≤ count.toInt ∧ count.toInt ≤ rest.length

theorem keeps_iff {items : β → List α} (hitems : ∀ h l, items (finish h l) = l) (payload : Bytes) :
    KeepsToPayload (listed header read_count item finish) (declared header read_count) items
      payload ↔ CountFits (declared header read_count) payload := by
  unfold CountFits
  cases hdecl : declared header read_count payload with
  | none =>
    obtain ⟨hnone, herror⟩ := run_undeclared header read_count item finish hdecl
    refine iff_of_true ⟨?_, fun b hb => absurd hb (herror b)⟩ fun count rest h => by cases h
    rw [hnone]
    exact fun r hr => absurd hr List.not_mem_nil
  | some d =>
    obtain ⟨count, rest⟩ := d
    obtain ⟨hreserved, a, hresult⟩ := run_declared header read_count item finish hdecl
    obtain ⟨-, hlength⟩ := run_repeated item count.toInt.toNat
      ⟨rest, [⟨count.toInt.toNat, rest.length⟩]⟩
    constructor
    · rintro h _ _ ⟨rfl, rfl⟩
      have hroom := h.room ⟨count.toInt.toNat, rest.length⟩ (by rw [hreserved]; simp)
      simp only at hroom
      by_cases hneg : 0 ≤ count.toInt
      · exact ⟨hneg, by omega⟩
      · have hzero : count.toInt.toNat = 0 := by omega
        rw [hzero] at hresult
        obtain ⟨count', rest', hdecl', hcount, -⟩ := h.exact_count _ hresult
        rw [hdecl] at hdecl'
        obtain ⟨rfl, rfl⟩ := Prod.mk.injEq .. ▸ Option.some.inj hdecl'
        exact absurd hcount hneg
    · intro h
      obtain ⟨hpos, hle⟩ := h count rest rfl
      refine ⟨?_, fun b hb => ⟨count, rest, hdecl, hpos, ?_⟩⟩
      · rw [hreserved]
        intro r hr
        rw [List.mem_singleton.mp hr]
        simp only
        omega
      · rw [hresult] at hb
        cases hrun : ((repeated item count.toInt.toNat).run.run
            ⟨rest, [⟨count.toInt.toNat, rest.length⟩]⟩).1 with
        | error e =>
          rw [hrun] at hb
          cases hb
        | ok l =>
          rw [hrun] at hb
          obtain rfl := Except.ok.inj hb
          rw [hitems, hlength l hrun]
          omega

end Runs

section Payloads

open Connection

theorem events_same (data : Bytes) :
    (outcome parse_event_packet data).1 = CompositeEvents.parse_event_packet data :=
  outcome_result _ _ _ _ data

/-- What a list decoder reserves is within the payload, and what it returns is what a count that is
not negative declares, exactly when the count is between nothing and the bytes left. -/
theorem decoders_keep_iff (data : Bytes) (reply : ReplyPacket) :
    (KeepsToPayload parse_event_packet (declared WireReader.read_u8 WireReader.read_i32)
        CompositeEvents.EventSet.events data ↔
      CountFits (declared WireReader.read_u8 WireReader.read_i32) data) ∧
    (KeepsToPayload (decode_line_table reply) (declared (checked reply read_line_range) read_i32)
        LineTable.lines reply.data ↔
      CountFits (declared (checked reply read_line_range) read_i32) reply.data) ∧
    (∀ with_generic, KeepsToPayload (decode_variable_table reply with_generic)
        (declared (checked reply read_i32) read_i32) id reply.data ↔
      CountFits (declared (checked reply read_i32) read_i32) reply.data) ∧
    (KeepsToPayload (decode_frames reply) (declared (checked reply (pure ())) read_i32) id
        reply.data ↔
      CountFits (declared (checked reply (pure ())) read_i32) reply.data) ∧
    (KeepsToPayload (decode_owned_monitors reply) (declared (checked reply (pure ())) read_i32) id
        reply.data ↔
      CountFits (declared (checked reply (pure ())) read_i32) reply.data) ∧
    (KeepsToPayload (decode_object_values reply) (declared (checked reply (pure ())) read_i32) id
        reply.data ↔
      CountFits (declared (checked reply (pure ())) read_i32) reply.data) := by
  refine ⟨keeps_iff _ _ _ _ (fun _ _ => rfl) data, ?_, fun _ => ?_, ?_, ?_, ?_⟩
  all_goals exact keeps_iff _ _ _ _ (fun _ _ => rfl) _

/-- A packet of six bytes that claims 2147483647 events. -/
def lying_packet : Bytes := [1, 127, 255, 255, 255, 8]

/-- Room for all of them is reserved with one byte left. -/
theorem lying_packet_believed :
    (outcome parse_event_packet lying_packet).2.reserved = [⟨2147483647, 1⟩] ∧
      ¬ KeepsToPayload parse_event_packet (declared WireReader.read_u8 WireReader.read_i32)
        CompositeEvents.EventSet.events lying_packet := by
  have hdecl : declared WireReader.read_u8 WireReader.read_i32 lying_packet =
      some (2147483647, [8]) := by
    decide
  obtain ⟨hreserved, -⟩ := run_declared WireReader.read_u8 WireReader.read_i32
    CompositeEvents.parse_event CompositeEvents.EventSet.mk hdecl
  refine ⟨hreserved, fun h => ?_⟩
  have hroom := h.room ⟨2147483647, 1⟩ (by rw [parse_event_packet, hreserved]; decide)
  revert hroom
  decide

end Payloads

end JavaDebug.Reservations
