import JavaDebug.MetadataWaves
import JavaDebug.KeptAnswers

/-!
What a program that only reads comes to. Every answer of the type cache is kept
and every other command is sent each time, so under a debuggee that answers by
what it is asked such a program returns the same from every cache that extends
the one it began with, and what it sends is the cost of the reads it makes. A
program put together from reads has such a trace.
-/
namespace JavaDebug.ReadTraces

open Dialogue Octets Connection Links KeptAnswers
open RequestFraming (put_u64)

section Lookups

/-- What the type cache is asked for. -/
inductive Lookup
  | signature (id : ReferenceTypeId)
  | fields (id : ReferenceTypeId)
  | methods (id : ReferenceTypeId)
  | superclass (id : ClassId)
  | interfaces (id : ReferenceTypeId)
  deriving DecidableEq

namespace Lookup

abbrev Answer : Lookup → Type
  | signature _ => String
  | fields _ => List FieldInfo
  | methods _ => List MethodInfo
  | superclass _ => Option ClassId
  | interfaces _ => List ReferenceTypeId

def ask : (k : Lookup) → Call k.Answer
  | signature id => get_signature id
  | fields id => get_fields id
  | methods id => get_methods id
  | superclass id => get_superclass id
  | interfaces id => get_interfaces id

def entry (c : TypeCache) : (k : Lookup) → Option k.Answer
  | signature id => c.signatures id
  | fields id => c.fields id
  | methods id => c.methods id
  | superclass id =>
    match c.superclasses id with
    | .unknown => none
    | .root => some none
    | .parent p => some (some p)
  | interfaces id => c.interfaces id

def put (c : TypeCache) : (k : Lookup) → k.Answer → TypeCache
  | signature id, v =>
    { c with signatures := fun i => if i = id then some v else c.signatures i }
  | fields id, v => { c with fields := fun i => if i = id then some v else c.fields i }
  | methods id, v => { c with methods := fun i => if i = id then some v else c.methods i }
  | superclass id, v =>
    { c with superclasses := fun i => if i = id then v.elim .root .parent else c.superclasses i }
  | interfaces id, v => { c with interfaces := fun i => if i = id then some v else c.interfaces i }

/-- How the debuggee is asked when the cache has no entry. -/
def fetch : (k : Lookup) → Call k.Answer
  | signature id => command 2 1 (put_u64 id) read_string
  | fields id => generic_or_plain (read_fields id)
  | methods id => generic_or_plain (read_methods id)
  | superclass id => command 3 1 (put_u64 id) read_optional_id
  | interfaces id => command 2 10 (put_u64 id) (read_list read_u64)

theorem entry_put (c : TypeCache) (k : Lookup) (v : k.Answer) : entry (put c k v) k = some v := by
  cases k with
  | superclass id =>
    cases v with
    | none => simp [entry, put]
    | some p => simp [entry, put]
  | signature id | fields id | methods id | interfaces id => exact if_pos rfl

theorem entry_put_of_ne (c : TypeCache) {k k' : Lookup} (v : k.Answer) (h : k' ≠ k) :
    entry (put c k v) k' = entry c k' := by
  cases k <;> cases k' <;> first | rfl | skip
  case superclass id id' =>
    have hid : id' ≠ id := fun hid => h (congrArg superclass hid)
    simp only [entry, put, if_neg hid]
  all_goals
    rename_i id id'
    refine if_neg fun hid => h ?_
    rw [hid]

/-- Every lookup goes the same way. -/
def look_up (k : Lookup) : Call k.Answer := do
  match entry (← types) k with
  | some hit => pure hit
  | none =>
    let v ← k.fetch
    edit_types fun c => put c k v
    pure v

theorem ask_eq (k : Lookup) : k.ask = k.look_up := by
  cases k with
  | signature id =>
    refine bind_congr fun c => ?_
    simp only [entry]
    cases c.signatures id <;> rfl
  | fields id =>
    refine bind_congr fun c => ?_
    simp only [entry]
    cases c.fields id <;> rfl
  | methods id =>
    refine bind_congr fun c => ?_
    simp only [entry]
    cases c.methods id <;> rfl
  | superclass id =>
    refine bind_congr fun c => ?_
    simp only [entry]
    cases c.superclasses id <;> rfl
  | interfaces id =>
    refine bind_congr fun c => ?_
    simp only [entry]
    cases c.interfaces id <;> rfl

end Lookup

end Lookups

section Fetching

variable (d : Debuggee) {α : Type}

/-- The program returns `a`, sends the requests, and leaves the cache as it was. -/
def Fetches (m : Conn α) (a : α) (rs : List Request) : Prop :=
  ∀ l : Link, (m.served (serve d) l).1 = a ∧ Sent l (m.served (serve d) l).2 rs

theorem fetches_command (set cmd : UInt8) (body : Bytes) (p : Decode α) :
    Fetches d (command set cmd body p).run (said d set cmd body p) [(set, cmd, body)] :=
  command_served d set cmd body p

theorem fetches_wave (set cmd : UInt8) (bodies : List Bytes) (p : Decode α) :
    Fetches d (wave set cmd bodies p) (bodies.map (said d set cmd · p))
      (bodies.map fun body => (set, cmd, body)) :=
  wave_served d set cmd bodies p

/-- The generic answer, or the plain one where that is not implemented. -/
def either (r : Bool → JdwpResult α) : JdwpResult α :=
  if not_implemented (r true) then r false else r true

def either_requests (r : Bool → JdwpResult α) (request : Bool → Request) : List Request :=
  if not_implemented (r true) then [request true, request false] else [request true]

theorem fetches_either {read : Bool → Call α} {r : Bool → JdwpResult α} {request : Bool → Request}
    (h : ∀ b, Fetches d (read b).run (r b) [request b]) :
    Fetches d (generic_or_plain read).run (either r) (either_requests r request) := by
  intro l
  have hrun : (generic_or_plain read).run = (read true).run >>= fun x => match x with
      | .ok a => pure (.ok a)
      | .error e => (if e = .jdwp_error_code ERR_NOT_IMPLEMENTED then read false
          else throw e : Call α).run := by
    refine congrArg (Program.bind (read true).run) (funext fun x => ?_)
    cases x <;> rfl
  obtain ⟨hval, hsent⟩ := h true l
  rw [hrun, Program.served_bind, hval, either, either_requests]
  cases hr : r true with
  | ok a => exact ⟨rfl, hsent⟩
  | error e =>
    by_cases he : e = .jdwp_error_code ERR_NOT_IMPLEMENTED
    · subst he
      obtain ⟨hval', hsent'⟩ := h false ((read true).run.served (serve d) l).2
      exact ⟨hval', hsent.trans hsent'⟩
    · have hnot : not_implemented (.error e : JdwpResult α) = false := by
        cases e with
        | jdwp_error_code code =>
          exact decide_eq_false fun hcode => he (congrArg JdwpError.jdwp_error_code hcode)
        | transport e | invoke_timeout ms | read_only what => rfl
      simp only [if_neg he, hnot]
      exact ⟨rfl, hsent⟩

namespace Lookup

def fields_request (id : ReferenceTypeId) (with_generic : Bool) : Request :=
  (2, if with_generic then 14 else 4, put_u64 id)

def said_fields (id : ReferenceTypeId) (with_generic : Bool) : JdwpResult (List FieldInfo) :=
  Links.said d 2 (if with_generic then 14 else 4) (put_u64 id)
    (read_list (read_field_info with_generic))

def methods_request (id : ReferenceTypeId) (with_generic : Bool) : Request :=
  (2, if with_generic then 15 else 5, put_u64 id)

def said_methods (id : ReferenceTypeId) (with_generic : Bool) : JdwpResult (List MethodInfo) :=
  Links.said d 2 (if with_generic then 15 else 5) (put_u64 id)
    (read_list (read_method_info with_generic))

/-- What the debuggee says, whatever is in the cache. -/
def said : (k : Lookup) → JdwpResult k.Answer
  | signature id => Links.said d 2 1 (put_u64 id) read_string
  | fields id => either (said_fields d id)
  | methods id => either (said_methods d id)
  | superclass id => Links.said d 3 1 (put_u64 id) read_optional_id
  | interfaces id => Links.said d 2 10 (put_u64 id) (read_list read_u64)

def requests : Lookup → List Request
  | signature id => [(2, 1, put_u64 id)]
  | fields id => either_requests (said_fields d id) (fields_request id)
  | methods id => either_requests (said_methods d id) (methods_request id)
  | superclass id => [(3, 1, put_u64 id)]
  | interfaces id => [(2, 10, put_u64 id)]

theorem fetches (k : Lookup) : Fetches d k.fetch.run (k.said d) (k.requests d) := by
  cases k with
  | signature id => exact fetches_command d 2 1 (put_u64 id) read_string
  | fields id =>
    have h (b : Bool) : Fetches d (read_fields id b).run (said_fields d id b)
        [fields_request id b] := fetches_command d 2 _ (put_u64 id) _
    exact fetches_either d h
  | methods id =>
    have h (b : Bool) : Fetches d (read_methods id b).run (said_methods d id b)
        [methods_request id b] := fetches_command d 2 _ (put_u64 id) _
    exact fetches_either d h
  | superclass id => exact fetches_command d 3 1 (put_u64 id) read_optional_id
  | interfaces id => exact fetches_command d 2 10 (put_u64 id) (read_list read_u64)

/-- What a lookup returns when the cache is `c`. -/
def value (c : TypeCache) (k : Lookup) : JdwpResult k.Answer :=
  match entry c k with
  | some v => .ok v
  | none => k.said d

end Lookup

end Fetching

section Traces

variable (d : Debuggee)

/-- A lookup, or a command that is sent whenever it is made. -/
inductive Item
  | looks (k : Lookup)
  | sends (r : Request)
  deriving DecidableEq

def known (c : TypeCache) : Item → Bool
  | .looks k => (k.entry c).isSome
  | .sends _ => false

def kept (c : TypeCache) : Item → Bool
  | .looks k => (k.value d c).isOk
  | .sends _ => false

def weight : Item → ℕ
  | .looks k => (k.requests d).length
  | .sends _ => 1

/-- The caches in which every lookup returns what it does in `c`. -/
def Same (c c' : TypeCache) : Prop := ∀ k : Lookup, k.value d c' = k.value d c

def packets (l : Link) : ℕ := l.sent.length

/-- From a cache that is the same as `c`, the program returns `a` and makes the reads `t`. -/
def Does {α : Type} (c : TypeCache) (m : Conn α) (a : α) (t : List Item) : Prop :=
  ∀ l : Link, Same d c l.shared.types →
    (m.served (serve d) l).1 = a ∧ Same d c (m.served (serve d) l).2.shared.types ∧
    known (m.served (serve d) l).2.shared.types = learn (kept d c) (known l.shared.types) t ∧
    packets (m.served (serve d) l).2 =
      packets l + cost (kept d c) (weight d) (known l.shared.types) t

variable {d} {c : TypeCache} {α β : Type}

theorem Does.done (a : α) : Does d c (pure a) a [] := fun _ h => ⟨rfl, h, rfl, rfl⟩

variable {m : Conn α} {a : α} {t : List Item}

theorem Does.bind {f : α → Conn β} {b : β} {t' : List Item} (hm : Does d c m a t)
    (hf : Does d c (f a) b t') : Does d c (m >>= f) b (t ++ t') := by
  intro l hl
  obtain ⟨hval, hsame, hknown, hpackets⟩ := hm l hl
  obtain ⟨hval', hsame', hknown', hpackets'⟩ := hf (m.served (serve d) l).2 hsame
  rw [Program.served_bind, hval]
  refine ⟨hval', hsame', ?_, ?_⟩
  · rw [hknown', hknown, learn_append]
  · rw [hpackets', hpackets, hknown, cost_append, Nat.add_assoc]

theorem Does.ends {f : α → Conn β} {b : β} (hm : Does d c m a t) (hf : f a = pure b) :
    Does d c (m >>= f) b t := by
  have hdone : Does d c (f a) b [] := by
    rw [hf]
    exact Does.done b
  have h := hm.bind hdone
  rwa [List.append_nil] at h

/-- What is made of the answer is read from nowhere. -/
theorem Does.last (hm : Does d c m a t) (f : α → β) :
    Does d c (m >>= fun x => pure (f x)) (f a) t := hm.ends rfl

theorem cost_sends (known : Item → Bool) (hknown : ∀ r, known (.sends r) = false)
    (rs : List Request) : cost (kept d c) (weight d) known (rs.map .sends) = rs.length ∧
      learn (kept d c) known (rs.map .sends) = known := by
  induction rs with
  | nil => exact ⟨rfl, rfl⟩
  | cons r rs ih =>
    have hone : learn_one (kept d c) known (.sends r) = known := by
      funext x
      simp [learn_one, kept]
    refine ⟨?_, ?_⟩
    · rw [List.map_cons, cost, hone, ih.1, hknown, List.length_cons, if_neg Bool.false_ne_true]
      exact Nat.add_comm 1 _
    · change learn (kept d c) (learn_one (kept d c) known (.sends r)) (rs.map .sends) = _
      rw [hone, ih.2]

theorem sent_packets {l l' : Link} {rs : List Request} (h : Sent l l' rs) :
    packets l' = packets l + rs.length := by
  have hlength := congrArg List.length h.asked
  rw [Links.Link.asked, Links.Link.asked, List.length_append, List.length_map,
    List.length_map] at hlength
  exact hlength

theorem Fetches.does {rs : List Request} (h : Fetches d m a rs) : Does d c m a (rs.map .sends) := by
  intro l hl
  obtain ⟨hval, hsent⟩ := h l
  obtain ⟨hcost, hlearn⟩ := cost_sends (d := d) (c := c) (known l.shared.types) (fun _ => rfl) rs
  refine ⟨hval, ?_, ?_, ?_⟩
  · rwa [hsent.types]
  · rw [hsent.types, hlearn]
  · rw [hcost, sent_packets hsent]

theorem value_put (k k' : Lookup) (v : k.Answer) {l : TypeCache} (hk : k.value d l = .ok v) :
    k'.value d (k.put l v) = k'.value d l := by
  by_cases h : k' = k
  · subst h
    rw [hk, Lookup.value, Lookup.entry_put]
  · rw [Lookup.value, Lookup.value, Lookup.entry_put_of_ne l v h]

theorem known_put (k : Lookup) (v : k.Answer) (l : TypeCache) (x : Item) :
    known (k.put l v) x = (known l x || decide (x = .looks k)) := by
  cases x with
  | sends r => simp [known]
  | looks k' =>
    by_cases h : k' = k
    · subst h
      simp [known, Lookup.entry_put]
    · simp [known, Lookup.entry_put_of_ne l v h, h]

theorem Does.look (k : Lookup) : Does d c k.ask.run (k.value d c) [.looks k] := by
  intro l hl
  have hlook : k.look_up.run.served (serve d) l = (match k.entry l.shared.types with
      | some hit => pure hit
      | none => do
        let v ← k.fetch
        edit_types fun c => k.put c v
        pure v : Call k.Answer).run.served (serve d) l := rfl
  rw [Lookup.ask_eq, hlook, ← hl k, learn, List.foldl_cons, List.foldl_nil, cost, cost]
  have hkept : kept d c (.looks k) = (k.value d l.shared.types).isOk := by
    rw [kept, hl k]
  cases hentry : k.entry l.shared.types with
  | some hit =>
    have hknown : known l.shared.types (.looks k) = true := by
      rw [known, hentry]
      rfl
    have hlearn : learn_one (kept d c) (known l.shared.types) (.looks k) =
        known l.shared.types := by
      funext x
      by_cases hx : x = .looks k
      · rw [learn_one, hx, hknown, Bool.true_or]
      · simp [learn_one, hx]
    rw [hlearn, if_pos hknown, Lookup.value, hentry]
    exact ⟨rfl, hl, rfl, rfl⟩
  | none =>
    have hknown : known l.shared.types (.looks k) = false := by
      rw [known, hentry]
      rfl
    have hvalue : k.value d l.shared.types = k.said d := by
      rw [Lookup.value, hentry]
    obtain ⟨hval, hsent⟩ := k.fetches d l
    rw [hknown, hvalue]
    cases hs : k.said d with
    | ok v =>
      rw [hs] at hval
      simp only
      rw [Program.served_then (I := wire) (serve d) hval]
      have htypes : ((do edit_types (fun c => k.put c v); pure v : Call k.Answer).run.served
           (serve d) (k.fetch.run.served (serve d) l).2).2.shared.types =
            k.put l.shared.types v := by
        rw [← hsent.types]
        rfl
      have hok : k.value d l.shared.types = .ok v := hvalue.trans hs
      refine ⟨rfl, fun k' => ?_, ?_, ?_⟩
      · rw [htypes, value_put k k' v hok, hl k']
      · rw [htypes]
        funext x
        rw [known_put, learn_one]
        by_cases hx : x = .looks k
        · rw [hx, hkept, hok]
          simp [Except.isOk, Except.toBool]
        · simp [hx]
      · show packets (k.fetch.run.served (serve d) l).2 = _
        exact sent_packets hsent
    | error e =>
      rw [hs] at hval
      simp only
      rw [Program.served_failed (I := wire) (serve d) _ hval]
      refine ⟨rfl, ?_, ?_, sent_packets hsent⟩
      · rwa [hsent.types]
      · rw [hsent.types]
        funext x
        rw [learn_one]
        by_cases hx : x = .looks k
        · rw [hx, hkept, hvalue, hs]
          simp [Except.isOk, Except.toBool]
        · simp [hx]

end Traces

section Composition

variable {d : Debuggee} {c : TypeCache} {α β : Type}

/-- The reads of a connection. -/
inductive Reading : (β : Type) → Conn β → Prop
  | look (k : Lookup) : Reading (JdwpResult k.Answer) k.ask.run
  | command {α : Type} (set cmd : UInt8) (body : Bytes) (p : Decode α) :
    Reading (JdwpResult α) (Connection.command set cmd body p).run

/-- What is put together from reads returns one value and makes one list of reads. -/
theorem composed_does {m : Conn α} (h : Program.Composed Reading m) : ∃ a t, Does d c m a t := by
  induction h with
  | done a => exact ⟨a, [], Does.done a⟩
  | call m f hm _ ih =>
    cases hm with
    | look k =>
      obtain ⟨a, t, hf⟩ := ih (k.value d c)
      exact ⟨a, _, (Does.look k).bind hf⟩
    | command set cmd body p =>
      obtain ⟨a, t, hf⟩ := ih (said d set cmd body p)
      exact ⟨a, _, (fetches_command d set cmd body p).does.bind hf⟩

/-- What is read only for the cache. -/
theorem Does.after {m : Conn α} {f : α → Conn β} {b : β} {t t' : List Item}
    (hm : Does d c (m >>= fun _ => pure ()) () t) (hf : ∀ a, Does d c (f a) b t') :
    Does d c (m >>= f) b (t ++ t') := by
  intro l hl
  obtain ⟨-, hsame, hknown, hpackets⟩ := hm l hl
  rw [Program.served_bind] at hsame hknown hpackets
  obtain ⟨hval', hsame', hknown', hpackets'⟩ :=
    hf (m.served (serve d) l).1 (m.served (serve d) l).2 hsame
  rw [Program.served_bind]
  refine ⟨hval', hsame', ?_, ?_⟩
  · rw [hknown', learn_append]
    exact congrArg (learn (kept d c) · t') hknown
  · rw [hpackets', cost_append, ← Nat.add_assoc, ← hknown]
    exact congrArg (· + cost (kept d c) (weight d) _ t') hpackets

end Composition

section Signatures

open MetadataWaves

variable {d : Debuggee} {c : TypeCache}

def looks_signature (id : ReferenceTypeId) : Item := .looks (.signature id)

theorem signature_of_same (c : TypeCache) (ids : List ReferenceTypeId) (i : ReferenceTypeId) :
    signature_of d (with_signatures d c ids) i = signature_of d c i := by
  by_cases hi : i ∈ ids
  · have hentry : (with_signatures d c ids).signatures i = (signature_of d c i).toOption :=
      if_pos hi
    cases hs : signature_of d c i with
    | ok v =>
      rw [hs] at hentry
      rw [signature_of, hentry]
      rfl
    | error e =>
      have hnone : c.signatures i = none := by
        cases hc : c.signatures i with
        | none => rfl
        | some hit =>
          rw [signature_of, hc] at hs
          cases hs
      rw [hs] at hentry
      rw [signature_of, hnone] at hs
      rw [signature_of, hentry]
      exact hs
  · have hentry : (with_signatures d c ids).signatures i = c.signatures i := if_neg hi
    rw [signature_of, signature_of, hentry]

theorem value_signature (c : TypeCache) (i : ReferenceTypeId) :
    (Lookup.signature i).value d c = signature_of d c i := by
  rw [Lookup.value, signature_of, Lookup.entry]
  cases c.signatures i <;> rfl

theorem value_with_signatures (c : TypeCache) (ids : List ReferenceTypeId) (k : Lookup) :
    k.value d (with_signatures d c ids) = k.value d c := by
  cases k with
  | signature i => rw [value_signature, value_signature, signature_of_same]
  | fields id | methods id | superclass id | interfaces id => rfl

/-- Distinct signatures are asked for once each. -/
theorem cost_signatures {ids : List ReferenceTypeId} (hids : ids.Nodup) (known : Item → Bool) :
    cost (kept d c) (weight d) known (ids.map looks_signature) =
      (ids.filter fun id => !known (looks_signature id)).length := by
  induction ids generalizing known with
  | nil => rfl
  | cons id ids ih =>
    obtain ⟨hnot, hids⟩ := List.nodup_cons.mp hids
    have hsame : ∀ i ∈ ids, (!learn_one (kept d c) known (looks_signature id) (looks_signature i)) =
        !known (looks_signature i) := by
      intro i hi
      have hne : looks_signature i ≠ looks_signature id := by
        rintro ⟨⟩
        exact hnot hi
      simp [learn_one, hne]
    rw [List.map_cons, cost, ih hids, List.filter_congr hsame, List.filter_cons]
    cases hk : known (looks_signature id)
    · simp [weight, looks_signature, Lookup.requests, Nat.add_comm]
    · simp

theorem wanted_length (c : TypeCache) (ids : List ReferenceTypeId) :
    (wanted_of c [] ids).length =
      (ids.dedup.filter fun id => !known c (looks_signature id)).length := by
  refine List.Perm.length_eq ((List.perm_ext_iff_of_nodup (wanted_of_nodup c ids List.nodup_nil)
    (ids.nodup_dedup.filter _)).mpr fun i => ?_)
  rw [mem_wanted_of, List.mem_filter, List.mem_dedup]
  simp [known, looks_signature, Lookup.entry]

theorem known_with_signatures (c : TypeCache) (ids : List ReferenceTypeId) :
    known (with_signatures d c ids) =
      learn (kept d c) (known c) (ids.dedup.map looks_signature) := by
  funext x
  rw [learn_apply]
  have hother (hx : ∀ i, x ≠ looks_signature i)
      (h : known (with_signatures d c ids) x = known c x) :
      known (with_signatures d c ids) x =
        (known c x || (decide (x ∈ ids.dedup.map looks_signature) && kept d c x)) := by
    have hnot : x ∉ ids.dedup.map looks_signature := by
      rintro hmem
      obtain ⟨i, -, rfl⟩ := List.mem_map.mp hmem
      exact hx i rfl
    simp [h, hnot]
  cases x with
  | sends r => exact hother (fun _ => Item.noConfusion) rfl
  | looks k =>
    cases k with
    | signature i =>
      have hmem : Item.looks (.signature i) ∈ ids.dedup.map looks_signature ↔ i ∈ ids := by
        simp [looks_signature]
      have hdecide : decide (Item.looks (.signature i) ∈ ids.dedup.map looks_signature) =
          decide (i ∈ ids) := decide_eq_decide.mpr hmem
      rw [known, Lookup.entry, known, Lookup.entry, kept, value_signature, hdecide]
      by_cases hi : i ∈ ids
      · have hentry : (with_signatures d c ids).signatures i = _ := if_pos hi
        rw [hentry, signature_of]
        cases c.signatures i with
        | some hit => rfl
        | none =>
          simp only [hi, decide_true, Option.isSome_none, Bool.false_or, Bool.true_and]
          cases said d 2 1 (put_u64 i) read_string <;> rfl
      · have hentry : (with_signatures d c ids).signatures i = _ := if_neg hi
        simp [hentry, hi]
    | fields id | methods id | superclass id | interfaces id =>
      exact hother (fun _ h => by cases h) rfl

theorem Does.signatures (ids : List ReferenceTypeId) :
    Does d c (read_signatures_independently ids >>= fun _ => pure ()) ()
      (ids.dedup.map looks_signature) := by
  intro l hl
  obtain ⟨-, htypes, hasked⟩ := signatures_served d ids l
  have hkept : kept d c = kept d l.shared.types := by
    funext x
    cases x with
    | sends r => rfl
    | looks k => rw [kept, kept, hl k]
  rw [Program.served_bind]
  refine ⟨rfl, fun k => ?_, ?_, ?_⟩
  · show k.value d ((read_signatures_independently ids).served (serve d) l).2.shared.types = _
    rw [htypes, value_with_signatures, hl k]
  · show known ((read_signatures_independently ids).served (serve d) l).2.shared.types = _
    rw [htypes, known_with_signatures, hkept]
  · show packets ((read_signatures_independently ids).served (serve d) l).2 = _
    have hlength := congrArg List.length hasked
    rw [Links.Link.asked, Links.Link.asked, List.length_append, List.length_map, List.length_map,
      List.length_map] at hlength
    rw [cost_signatures ids.nodup_dedup, ← wanted_length]
    exact hlength

end Signatures

end JavaDebug.ReadTraces
