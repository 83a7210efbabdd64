import JavaDebug.CompositeEvents

/-!
Packets that also hold events of kinds the client does not decode. The head of
such an event is read and its body is not, so the next event is read from the
body. Whether the decoded events of a packet come back whatever the others hold
is decided by where the others stand.
-/
namespace JavaDebug.UndecodedEvents

open Octets Cursors WireReader CompositeEvents
open EventLoop (JdwpError MAX_PACKET_SIZE)
open RequestFraming (put_u64 put_i32 as_bytes)

section Packets

/-- A signature no longer than a packet. -/
abbrev Signature := {s : String // (as_bytes s).length ≤ MAX_PACKET_SIZE}

/-- The events of the protocol that the client does not decode. -/
inductive Body
  | method_entry (thread : UInt64) (location : Location)
  | class_unload (signature : Signature)
  | frame_pop (thread : UInt64) (location : Location)

namespace Body

open event_kinds in
def kind : Body → UInt8
  | method_entry _ _ => METHOD_ENTRY
  | class_unload _ => CLASS_UNLOAD
  | frame_pop _ _ => FRAME_POP

def bytes : Body → Bytes
  | method_entry thread location | frame_pop thread location => put_u64 thread ++ location.bytes
  | class_unload signature =>
    put 4 (as_bytes signature.val).length ++ as_bytes signature.val

end Body

structure Undecoded where
  request_id : Int32
  body : Body

def Undecoded.head (e : Undecoded) : Bytes := put_u8 e.body.kind ++ put_i32 e.request_id

/-- What the client makes of the head. -/
def Undecoded.event (e : Undecoded) : Event := ⟨e.body.kind, e.request_id, .unknown e.body.kind⟩

inductive AnyEvent
  | decoded (e : WireEvent)
  | undecoded (e : Undecoded)

namespace AnyEvent

def bytes : AnyEvent → Bytes
  | decoded e => e.bytes
  | undecoded e => e.head ++ e.body.bytes

def decoded? : AnyEvent → Option WireEvent
  | decoded e => some e
  | undecoded _ => none

/-- The same event, or one of the same undecoded kind and request with another body. -/
def Like : AnyEvent → AnyEvent → Prop
  | decoded e, decoded e' => e = e'
  | undecoded e, undecoded e' => e.request_id = e'.request_id ∧ e.body.kind = e'.body.kind
  | _, _ => False

end AnyEvent

structure Packet where
  suspend_policy : UInt8
  events : List AnyEvent
  counted : events.length < 2147483648

namespace Packet

def bytes (p : Packet) : Bytes :=
  put_u8 p.suspend_policy ++ (put_i32 (Int32.ofNat p.events.length) ++
    p.events.flatMap AnyEvent.bytes)

/-- The events that the client decodes. -/
def decoded (p : Packet) : List WireEvent := p.events.filterMap AnyEvent.decoded?

/-- The packet without the events that the client does not decode. -/
def left_out (p : Packet) : Composite :=
  ⟨p.suspend_policy, p.decoded, (List.length_filterMap_le _ _).trans_lt p.counted⟩

def Like (p q : Packet) : Prop :=
  p.suspend_policy = q.suspend_policy ∧ List.Forall₂ AnyEvent.Like p.events q.events

end Packet

/-- Every decoded event of the packet comes back as it would without the others. -/
def Intact (p : Packet) : Prop :=
  p.left_out.set.events = [] ∨
    ∃ set, parse_event_packet p.bytes = .ok set ∧ p.left_out.set.events.Sublist set.events

def AnyEvent.undecoded_kind : AnyEvent → Option UInt8
  | decoded _ => none
  | undecoded e => some e.body.kind

/-- No event, one event, or a `CLASS_UNLOAD` and one more undecoded event. -/
def harmless_kinds : List (Option UInt8) → Bool
  | [] | [_] => true
  | [some kind, some _] => kind = event_kinds.CLASS_UNLOAD
  | _ => false

/-- What follows from the first undecoded event on. -/
def tail (events : List AnyEvent) : List AnyEvent :=
  events.dropWhile fun e => e.decoded?.isSome

def Harmless (p : Packet) : Prop :=
  p.decoded = [] ∨ harmless_kinds ((tail p.events).map AnyEvent.undecoded_kind) = true

end Packets

section Heads

theorem reads_head (e : Undecoded) : Reads parse_event e.head e.event := by
  have hunknown : parse_event_details e.body.kind = pure (.unknown e.body.kind) := by
    cases e.body <;> rfl
  have hdetails : Reads (parse_event_details e.body.kind) [] (.unknown e.body.kind) := by
    rw [hunknown]
    exact Reads.pure _
  have h : Reads parse_event (put_u8 e.body.kind ++ (put_i32 e.request_id ++ [])) e.event :=
    (reads_u8 _).bind ((reads_i32 _).bind hdetails.last)
  rwa [List.append_nil] at h

/-- The length of a signature starts with a zero byte, which is no kind; with the four bytes after
it, that makes an event. -/
theorem reads_length (s : Signature) {b : UInt8} {rest : Bytes} :
    ∃ request_id, parse_event (put 4 (as_bytes s.val).length ++ b :: rest) =
      .ok (⟨0, request_id, .unknown 0⟩, rest) := by
  have hlength : (as_bytes s.val).length / 256 / 256 / 256 = 0 := by
    have hmax : MAX_PACKET_SIZE = 10485760 := rfl
    have := s.property
    omega
  refine ⟨Int32.ofNat (value [UInt8.ofNat ((as_bytes s.val).length / 256 / 256),
    UInt8.ofNat ((as_bytes s.val).length / 256), UInt8.ofNat (as_bytes s.val).length, b]), ?_⟩
  simp only [put, hlength]
  rfl

end Heads

section Bombs

/-- Read as events, this thread and this location are a `CLASS_PREPARE` whose signature is no
UTF-8. -/
def bomb_thread : UInt64 := 576460752303423488

def bomb_location : Location := ⟨0, 0, 0, 143833713099145216⟩

theorem bomb_stops : Stops parse_event (put_u64 bomb_thread ++ bomb_location.bytes) := by
  have hbytes : put_u64 bomb_thread ++ bomb_location.bytes =
      put_u8 event_kinds.CLASS_PREPARE ++ (put_i32 0 ++ ((put_u64 0 ++ (put_u8 0 ++ (put_u64 0 ++
        (put 4 1 ++ [255])))) ++ [0, 0, 0, 0, 0, 0])) := by
    decide
  have hbody : Stops (utf8_string [255]) [] := fun rest => ⟨_, rfl⟩
  have hsignature : Stops read_string (put 4 1 ++ [255]) := by
    have htake := (reads_take [255] "string body").stops hbody
    exact (reads_fixed "string length" id (by decide)).stops htake
  have hprepare : Stops parse_class_prepare_event (put_u64 0 ++ (put_u8 0 ++ (put_u64 0 ++
      (put 4 1 ++ [255])))) :=
    (reads_u64 0).stops ((reads_u8 0).stops ((reads_u64 0).stops (hsignature.bind _)))
  rw [hbytes]
  exact (reads_u8 _).stops ((reads_i32 0).stops ((hprepare.append _).bind _))

/-- Read as events, the letters from the second on are a `METHOD_EXIT_WITH_RETURN_VALUE` whose value
has no tag. -/
def bomb_signature : Signature :=
  ⟨"L*aaaaaaaaaaaaaaaaaaaaaaaaaaaaaaaaaaaaa?;", by decide⟩

theorem bomb_signature_stops :
    ∃ tail, as_bytes bomb_signature.val = 76 :: tail ∧ Stops parse_event tail := by
  have hvalue : Stops read_value (put_u8 63 ++ []) := by
    have htag : Stops (read_value_by_tag 63) [] := fun rest => ⟨_, rfl⟩
    exact (reads_u8 63).stops (htag.bind _)
  have hexit : Stops (parse_method_exit_event true) (put_u64 7016996765293437281 ++
      (Location.bytes ⟨97, 7016996765293437281, 7016996765293437281, 7016996765293437281⟩ ++
        (put_u8 63 ++ []))) :=
    (reads_u64 _).stops ((reads_location _).stops (hvalue.bind _))
  refine ⟨_, ?_, (reads_u8 event_kinds.METHOD_EXIT_WITH_RETURN_VALUE).stops
    ((reads_i32 1633771873).stops ((hexit.append [59]).bind _))⟩
  decide

end Bombs

section Parsing

/-- The decoded events before the first undecoded one are read; the rest is read on from there. -/
theorem parse_split (p : Packet) {ds : List WireEvent} {rest : List AnyEvent}
    (h : p.events = ds.map .decoded ++ rest) :
    parse_event_packet p.bytes =
      (times parse_event rest.length (rest.flatMap AnyEvent.bytes)).map fun r =>
        ⟨p.suspend_policy, ds.map WireEvent.event ++ r.1⟩ := by
  have hlength : p.events.length = ds.length + rest.length := by
    rw [h, List.length_append, List.length_map]
  have hbytes : p.events.flatMap AnyEvent.bytes =
      ds.flatMap WireEvent.bytes ++ rest.flatMap AnyEvent.bytes := by
    rw [h, List.flatMap_append, List.flatMap_map]
    rfl
  rw [parse_event_packet, parse_event_set, Packet.bytes, (reads_u8 _).run_bind,
    (reads_i32 _).run_bind, count_toNat p.counted, hlength, hbytes]
  show ((times parse_event (ds.length + rest.length) _ >>= fun r => _).map Prod.fst) = _
  rw [times_after ds fun e _ => reads_event e]
  cases times parse_event rest.length (rest.flatMap AnyEvent.bytes) <;> rfl

theorem events_split (events : List AnyEvent) :
    ∃ (ds : List WireEvent) (rest : List AnyEvent), events = ds.map .decoded ++ rest ∧
      tail events = rest ∧
      (rest = [] ∨ ∃ u more, rest = .undecoded u :: more) := by
  induction events with
  | nil => exact ⟨[], [], rfl, rfl, Or.inl rfl⟩
  | cons e events ih =>
    cases e with
    | decoded e =>
      obtain ⟨ds, rest, rfl, hdrop, hrest⟩ := ih
      exact ⟨e :: ds, rest, rfl, hdrop, hrest⟩
    | undecoded u => exact ⟨[], .undecoded u :: events, rfl, rfl, Or.inr ⟨u, events, rfl⟩⟩

theorem decoded_split (p : Packet) {ds : List WireEvent} {rest : List AnyEvent}
    (h : p.events = ds.map .decoded ++ rest) :
    p.decoded = ds ++ rest.filterMap AnyEvent.decoded? := by
  rw [Packet.decoded, h, List.filterMap_append, List.filterMap_map]
  congr 1
  exact List.filterMap_some

theorem times_undecoded (u : Undecoded) (n : ℕ) (rest : Bytes) :
    times parse_event (n + 1) ((AnyEvent.undecoded u).bytes ++ rest) =
      (times parse_event n (u.body.bytes ++ rest)).map fun r => (u.event :: r.1, r.2) := by
  rw [times, AnyEvent.bytes, List.append_assoc, (reads_head u).run_bind]
  show (times parse_event n (u.body.bytes ++ rest) >>= fun r => _) = _
  cases times parse_event n (u.body.bytes ++ rest) <;> rfl

/-- A signature is read as one event that is no event of the packet. -/
theorem times_signature (s : Signature) (n : ℕ) {b : UInt8} {tail rest : Bytes}
    (h : as_bytes s.val ++ rest = b :: tail) :
    ∃ request_id, times parse_event (n + 1) ((Body.class_unload s).bytes ++ rest) =
      (times parse_event n tail).map fun r => (⟨0, request_id, .unknown 0⟩ :: r.1, r.2) := by
  obtain ⟨request_id, hparse⟩ := @reads_length s b tail
  refine ⟨request_id, ?_⟩
  rw [times, Body.bytes, List.append_assoc, h]
  show (parse_event _ >>= fun r => _) = _
  rw [hparse]
  show (times parse_event n tail >>= fun r => _) = _
  cases times parse_event n tail <;> rfl

end Parsing

section Harm

theorem Like.refl (e : AnyEvent) : AnyEvent.Like e e := by
  cases e with
  | decoded e => rfl
  | undecoded u => exact ⟨rfl, rfl⟩

theorem like_same (es : List AnyEvent) : List.Forall₂ AnyEvent.Like es es :=
  List.forall₂_same.mpr fun e _ => Like.refl e

theorem like_kind {e e' : AnyEvent} (h : AnyEvent.Like e e') :
    e.undecoded_kind = e'.undecoded_kind := by
  cases e with
  | decoded e =>
    cases e' with
    | decoded e' => rfl
    | undecoded u' => cases h
  | undecoded u =>
    cases e' with
    | decoded e' => cases h
    | undecoded u' => exact congrArg some h.2

theorem like_decoded {e e' : AnyEvent} (h : AnyEvent.Like e e') : e.decoded? = e'.decoded? := by
  cases e with
  | decoded e =>
    cases e' with
    | decoded e' => exact congrArg some h
    | undecoded u' => cases h
  | undecoded u =>
    cases e' with
    | decoded e' => cases h
    | undecoded u' => rfl

theorem like_kinds {es es' : List AnyEvent} (h : List.Forall₂ AnyEvent.Like es es') :
    es.map AnyEvent.undecoded_kind = es'.map AnyEvent.undecoded_kind := by
  induction h with
  | nil => rfl
  | cons he _ ih => rw [List.map_cons, List.map_cons, ih, like_kind he]

theorem decoded_like {es es' : List AnyEvent} (h : List.Forall₂ AnyEvent.Like es es') :
    es.filterMap AnyEvent.decoded? = es'.filterMap AnyEvent.decoded? ∧
      (tail es).map AnyEvent.undecoded_kind = (tail es').map AnyEvent.undecoded_kind := by
  induction h with
  | nil => exact ⟨rfl, rfl⟩
  | cons he hrest ih =>
    have hsame := like_decoded he
    refine ⟨?_, ?_⟩
    · rw [List.filterMap_cons, List.filterMap_cons, hsame, ih.1]
    · rw [tail, tail, List.dropWhile_cons, List.dropWhile_cons, hsame]
      split
      · exact ih.2
      · exact like_kinds (List.Forall₂.cons he hrest)

variable {p : Packet} {ds : List WireEvent}

theorem harmless_like {q : Packet} (h : p.Like q) (hp : Harmless p) : Harmless q := by
  obtain ⟨hdecoded, hkinds⟩ := decoded_like h.2
  rcases hp with hp | hp
  · exact Or.inl (hdecoded.symm.trans hp)
  · exact Or.inr (by rwa [← hkinds])

theorem set_events (p : Packet) : p.left_out.set.events = p.decoded.map WireEvent.event := rfl

theorem harmless_intact (h : Harmless p) : Intact p := by
  rcases h with h | h
  · left
    rw [set_events, h]
    rfl
  right
  obtain ⟨ds, rest, hsplit, hdrop, hrest⟩ := events_split p.events
  rw [hdrop] at h
  have hparse := parse_split p hsplit
  have hdecoded := decoded_split p hsplit
  rw [set_events, hdecoded]
  rcases hrest with rfl | ⟨u, more, rfl⟩
  · refine ⟨_, hparse, ?_⟩
    simp
  rcases more with _ | ⟨e, more⟩
  · have hone := times_undecoded u 0 []
    rw [List.append_nil] at hone
    rw [List.flatMap_singleton, List.length_singleton, hone] at hparse
    refine ⟨_, hparse, ?_⟩
    show ((ds ++ []).map WireEvent.event).Sublist (ds.map WireEvent.event ++ [u.event])
    rw [List.append_nil]
    exact List.sublist_append_left _ _
  · obtain ⟨r, body⟩ := u
    rcases more with _ | ⟨f, more⟩
    · cases e with
      | decoded e => simp [harmless_kinds, AnyEvent.undecoded_kind] at h
      | undecoded u' =>
        cases body with
        | method_entry t l => exact absurd h Bool.false_ne_true
        | frame_pop t l => exact absurd h Bool.false_ne_true
        | class_unload s =>
          obtain ⟨b, rest, hnext⟩ : ∃ b rest, as_bytes s.val ++ (AnyEvent.undecoded u').bytes =
              b :: rest :=
            List.exists_cons_of_ne_nil (List.append_ne_nil_of_right_ne_nil _ (List.cons_ne_nil _ _))
          obtain ⟨request_id, htwo⟩ := times_signature s 0 hnext
          rw [List.flatMap_cons, List.flatMap_singleton, List.length_cons, List.length_singleton,
            times_undecoded, htwo] at hparse
          refine ⟨_, hparse, ?_⟩
          show ((ds ++ []).map WireEvent.event).Sublist (ds.map WireEvent.event ++ _)
          rw [List.append_nil]
          exact List.sublist_append_left _ _
    · simp [harmless_kinds] at h

/-- A packet that cannot be read loses its decoded events. -/
theorem not_intact_of_error {rest : List AnyEvent} {e : JdwpError}
    (h : p.events = ds.map .decoded ++ rest) (hd : p.decoded ≠ [])
    (herror : times parse_event rest.length (rest.flatMap AnyEvent.bytes) = .error e) :
    ¬ Intact p := by
  have hparse := parse_split p h
  rw [herror] at hparse
  rintro (hempty | ⟨set, hset, -⟩)
  · rw [set_events, List.map_eq_nil_iff] at hempty
    exact hd hempty
  · rw [hparse] at hset
    cases hset

theorem refill {u : Undecoded} {more : List AnyEvent}
    (h : p.events = ds.map .decoded ++ .undecoded u :: more) (body : Body)
    (hkind : u.body.kind = body.kind) :
    ∃ q, p.Like q ∧ q.events = ds.map .decoded ++ .undecoded ⟨u.request_id, body⟩ :: more := by
  have hlength : (ds.map AnyEvent.decoded ++
      AnyEvent.undecoded ⟨u.request_id, body⟩ :: more).length = p.events.length := by
    rw [h, List.length_append, List.length_append, List.length_cons, List.length_cons]
  refine ⟨⟨p.suspend_policy, _, hlength.trans_lt p.counted⟩, ⟨rfl, ?_⟩, rfl⟩
  show List.Forall₂ AnyEvent.Like p.events (ds.map .decoded ++ _)
  rw [h]
  exact List.rel_append (like_same _) (List.Forall₂.cons ⟨rfl, hkind⟩ (like_same more))

/-- Whatever stands before, two events or more cannot be read once the second one stops. -/
theorem stops_packet {u : Undecoded} {e : AnyEvent} {more : List AnyEvent}
    (h : p.events = ds.map .decoded ++ .undecoded u :: e :: more) (hd : p.decoded ≠ [])
    (hbody : Stops (times parse_event (more.length + 1)) u.body.bytes) : ¬ Intact p := by
  obtain ⟨err, herr⟩ := hbody ((e :: more).flatMap AnyEvent.bytes)
  refine not_intact_of_error (e := err) h hd ?_
  rw [List.length_cons, List.flatMap_cons, times_undecoded, List.length_cons, herr]
  rfl

theorem bomb_signature_stops_two (n : ℕ) :
    Stops (times parse_event (n + 2)) (Body.class_unload bomb_signature).bytes := by
  obtain ⟨tail, hletters, htail⟩ := bomb_signature_stops
  intro rest
  have htimes : Stops (times parse_event (n + 1)) tail := htail.bind _
  obtain ⟨err, herr⟩ := htimes rest
  have hnext : as_bytes bomb_signature.val ++ rest = 76 :: (tail ++ rest) :=
    congrArg (· ++ rest) hletters
  obtain ⟨request_id, hparse⟩ := times_signature bomb_signature (n + 1) hnext
  refine ⟨err, ?_⟩
  rw [hparse, herr]
  rfl

def known : EventKind → Bool
  | .unknown _ => false
  | _ => true

theorem count_known (ds : List WireEvent) :
    (ds.map WireEvent.event).countP (fun e => known e.details) = ds.length := by
  have hall : ∀ e ∈ ds.map WireEvent.event, known e.details = true := by
    intro e he
    obtain ⟨⟨r, p⟩, -, rfl⟩ := List.mem_map.mp he
    cases p <;> rfl
  rw [List.countP_eq_length.mpr hall, List.length_map]

/-- The signature takes the turn of the event that follows it. -/
theorem signature_takes_turn {r : Int32} {s : Signature} {e : WireEvent}
    (h : p.events = ds.map .decoded ++ [.undecoded ⟨r, .class_unload s⟩, .decoded e]) :
    ¬ Intact p := by
  have hdecoded : p.decoded = ds ++ [e] := decoded_split p h
  obtain ⟨b, rest, hnext⟩ : ∃ b rest, as_bytes s.val ++ (AnyEvent.decoded e).bytes = b :: rest :=
    List.exists_cons_of_ne_nil (List.append_ne_nil_of_right_ne_nil _ (List.cons_ne_nil _ _))
  obtain ⟨request_id, htwo⟩ := times_signature s 0 hnext
  have hparse := parse_split p h
  rw [List.flatMap_cons, List.flatMap_singleton, List.length_cons, List.length_singleton,
    times_undecoded, htwo] at hparse
  rintro (hempty | ⟨set, hset, hsub⟩)
  · rw [set_events, hdecoded, List.map_append] at hempty
    exact List.append_ne_nil_of_right_ne_nil _ (List.cons_ne_nil _ _) hempty
  · cases hparse.symm.trans hset
    rw [set_events, hdecoded] at hsub
    have hcount := hsub.countP_le (p := fun e => known e.details)
    rw [count_known, List.countP_append, count_known, List.length_append] at hcount
    exact absurd hcount (Nat.not_succ_le_self _)

/-- Whatever the ids and the signatures of its undecoded events are, the decoded events of a packet
come back exactly when its undecoded events are harmless. -/
theorem undecoded_events_harmless_iff (p : Packet) : (∀ q, p.Like q → Intact q) ↔ Harmless p := by
  refine ⟨fun hall => ?_, fun h q hq => harmless_intact (harmless_like hq h)⟩
  by_contra hharm
  obtain ⟨hd, hkinds⟩ := not_or.mp hharm
  obtain ⟨ds, rest, hsplit, hdrop, hrest⟩ := events_split p.events
  rw [hdrop] at hkinds
  rcases hrest with rfl | ⟨u, more, rfl⟩
  · exact hkinds rfl
  rcases more with _ | ⟨e, more⟩
  · exact hkinds rfl
  have hstops (body : Body) (hkind : u.body.kind = body.kind)
      (hbody : Stops (times parse_event (more.length + 1)) body.bytes) : False := by
    obtain ⟨q, hlike, hq⟩ := refill hsplit body hkind
    refine stops_packet hq ?_ hbody (hall q hlike)
    rwa [Packet.decoded, ← (decoded_like hlike.2).1]
  obtain ⟨r, body⟩ := u
  cases body with
  | method_entry t l =>
    exact hstops (.method_entry bomb_thread bomb_location) rfl (bomb_stops.bind _)
  | frame_pop t l =>
    exact hstops (.frame_pop bomb_thread bomb_location) rfl (bomb_stops.bind _)
  | class_unload s =>
    rcases more with _ | ⟨f, more⟩
    · cases e with
      | decoded e => exact signature_takes_turn hsplit (hall p ⟨rfl, like_same _⟩)
      | undecoded u' => exact hkinds rfl
    · exact hstops (.class_unload bomb_signature) rfl (bomb_signature_stops_two _)

/-- A class unloads as the VM dies. -/
def unload_then_death : Packet :=
  ⟨1, [.undecoded ⟨7, .class_unload ⟨"LFoo;", by decide⟩⟩, .decoded ⟨8, .vm_death⟩], by decide⟩

theorem unload_loses_neighbour : ¬ Intact unload_then_death := by
  rintro (hempty | ⟨set, hset, hsub⟩)
  · cases hempty
  · have hread : parse_event_packet unload_then_death.bytes = .ok
        ⟨1, [⟨9, 7, .unknown 9⟩, ⟨0, 1356, .unknown 0⟩]⟩ := by
      decide
    cases hread.symm.trans hset
    revert hsub
    decide

end Harm

end JavaDebug.UndecodedEvents
