import Mathlib.Data.List.Flatten
import Mathlib.Data.List.Perm.Basic

/-!
Alerts that are sent while others are. A call of `alert` is a sequence of atomic
steps: it takes the count of the dropped alerts, tries to queue its line with the
count in it, and where the queue has no room it gives back the count and one more.
Any number of calls go on at once, other lines take room in the queue, and a reader
makes room again.
-/

namespace JavaDebug.Alerts

inductive Era
  | unknown
  | legacy
  | modern
  deriving DecidableEq

section Queueing

/-- A bounded channel. A sender that waits holds the room it was given. -/
structure Channel where
  capacity : ℕ
  reserved : ℕ
  is_open : Bool
  queue : List String

variable (ch : Channel)

def Channel.has_room : Prop :=
  ch.is_open = true ∧ ch.queue.length + ch.reserved < ch.capacity

instance (ch : Channel) : Decidable ch.has_room := inferInstanceAs (Decidable (_ ∧ _))

def Channel.try_send (line : String) : Option Channel :=
  if ch.has_room then some { ch with queue := ch.queue ++ [line] } else none

def Channel.reserve : Channel :=
  if ch.has_room then { ch with reserved := ch.reserved + 1 } else ch

def Channel.send_reserved (line : String) : Channel :=
  if 0 < ch.reserved then { ch with reserved := ch.reserved - 1, queue := ch.queue ++ [line] }
  else ch

def Channel.recv : Channel := { ch with queue := ch.queue.tail }

def Channel.close : Channel := { ch with is_open := false, queue := [] }

end Queueing

section Calls

variable {D : Type}

structure Params (D : Type) where
  level : String
  logger : String
  data : D
  droppedSinceLast : Option ℕ

structure JsonRpcNotification (D : Type) where
  jsonrpc : String
  method : String
  params : Params D

/-- Writing a notification as a line of text, which does not fail on what is JSON already. -/
structure Serializer (D : Type) where
  to_string : JsonRpcNotification D → Option String
  total : ∀ note, ∃ line, to_string note = some line

/-- Where a call is. The counts are what it has taken from the counter. -/
inductive Stage
  | called
  | enabled
  | legacy
  | armed
  | taken (missed : ℕ)
  | refused (missed : ℕ)
  | returned (queued : Bool)
  deriving DecidableEq

structure AlertCall (D : Type) where
  level : String
  data : D
  stage : Stage

def AlertCall.note (c : AlertCall D) (missed : ℕ) : JsonRpcNotification D where
  jsonrpc := "2.0"
  method := "notifications/message"
  params :=
    { level := c.level
      logger := "jdwp-mcp"
      data := c.data
      droppedSinceLast := if missed > 0 then some missed else none }

/-- What the queue answered a call: it took the notification, or had no room for it. -/
inductive Logged (D : Type)
  | queued (call : ℕ) (note : JsonRpcNotification D)
  | refused (call : ℕ)

/-- The alerter, its channel, the calls in the order they began, and what the queue answered. -/
structure World (D : Type) where
  armed : Bool
  era : Era
  dropped : ℕ
  channel : Channel
  calls : List (AlertCall D)
  log : List (Logged D)

namespace World

def new (capacity : ℕ) : World D :=
  ⟨false, .unknown, 0, ⟨capacity, 0, true, []⟩, [], []⟩

variable (w : World D)

def goes (i : ℕ) (c : AlertCall D) (stage : Stage) : World D :=
  { w with calls := w.calls.set i { c with stage := stage } }

def queues (channel : Channel) (i : ℕ) (note : JsonRpcNotification D) : World D :=
  { w with channel := channel, log := w.log ++ [.queued i note] }

def refuses (i : ℕ) : World D := { w with log := w.log ++ [.refused i] }

/-- The count that was taken goes back, and this call with it. -/
def owes (missed : ℕ) : World D := { w with dropped := w.dropped + (missed + 1) }

/-- The next atomic step of one call. -/
def advance (ser : Serializer D) (alerts_enabled : Bool) (w : World D) (i : ℕ) (c : AlertCall D) :
    World D :=
  match c.stage with
  | .called => w.goes i c (if alerts_enabled then .enabled else .returned false)
  | .enabled => w.goes i c (if w.era = .legacy then .legacy else .returned false)
  | .legacy => w.goes i c (if w.armed then .armed else .returned false)
  | .armed => { w with dropped := 0 }.goes i c (.taken w.dropped)
  | .taken missed =>
    match ser.to_string (c.note missed) with
    | none => w.goes i c (.returned false)
    | some line =>
      match w.channel.try_send line with
      | some channel => (w.queues channel i (c.note missed)).goes i c (.returned true)
      | none => (w.refuses i).goes i c (.refused missed)
  | .refused missed => (w.owes missed).goes i c (.returned false)
  | .returned _ => w

end World

/-- One atomic step of a call, of the handshake, of another sender or of the reader. -/
inductive Move (D : Type)
  | alert (level : String) (data : D)
  | advance (i : ℕ) (alerts_enabled : Bool)
  | store_armed
  | note_era (era : Era)
  | reserve
  | send_reserved (line : String)
  | recv
  | close

def World.step (ser : Serializer D) (w : World D) : Move D → World D
  | .alert level data => { w with calls := w.calls ++ [⟨level, data, .called⟩] }
  | .advance i alerts_enabled =>
    match w.calls[i]? with
    | some c => w.advance ser alerts_enabled i c
    | none => w
  | .store_armed => { w with armed := true }
  | .note_era era => { w with era := era }
  | .reserve => { w with channel := w.channel.reserve }
  | .send_reserved line => { w with channel := w.channel.send_reserved line }
  | .recv => { w with channel := w.channel.recv }
  | .close => { w with channel := w.channel.close }

def World.run (ser : Serializer D) (w : World D) (moves : List (Move D)) : World D :=
  moves.foldl (World.step ser) w

end Calls

section Accounts

variable {D : Type}

/-- What a call has taken and not put back. -/
def Stage.in_hand : Stage → ℕ
  | .taken missed | .refused missed => missed
  | _ => 0

def Logged.announced : Logged D → Option ℕ
  | .queued _ note => some (note.params.droppedSinceLast.getD 0)
  | .refused _ => none

def Logged.refusal : Logged D → Option ℕ
  | .queued _ _ => none
  | .refused i => some i

namespace World

variable (w : World D)

/-- The counts in the lines queued so far, in order. -/
def announced : List ℕ := w.log.filterMap Logged.announced

def in_hand : List ℕ := w.calls.map fun c => c.stage.in_hand

/-- The calls that failed to queue. -/
def refusals : List ℕ := w.log.filterMap Logged.refusal

def ended (i : ℕ) : Bool :=
  (w.calls[i]?).any fun c => c.stage = .returned false

/-- The calls that failed to queue and are over, so they have put their count back. -/
def put_back : List ℕ := w.refusals.filter w.ended

end World

end Accounts

section Ledgers

/-- Who is owed an announcement, who is in the hands of which call, and who was announced. -/
structure Ledger where
  owed : List ℕ
  hands : List (List ℕ)
  told : List (List ℕ)

namespace Ledger

def all (L : Ledger) : List ℕ := L.told.flatten ++ L.owed ++ L.hands.flatten

def join (L : Ledger) : Ledger := { L with hands := L.hands ++ [[]] }

def take (L : Ledger) (i : ℕ) : Ledger := { L with owed := [], hands := L.hands.set i L.owed }

def tell (L : Ledger) (i : ℕ) (hand : List ℕ) : Ledger :=
  { L with hands := L.hands.set i [], told := L.told ++ [hand] }

def give_back (L : Ledger) (i : ℕ) (hand : List ℕ) : Ledger :=
  { L with owed := L.owed ++ (i :: hand), hands := L.hands.set i [] }

theorem count_set {hands : List (List ℕ)} {i : ℕ} {hand : List ℕ} (new : List ℕ)
    (h : hands[i]? = some hand) (a : ℕ) :
    hand.count a + (hands.set i new).flatten.count a = new.count a + hands.flatten.count a := by
  obtain ⟨hi, hget⟩ := List.getElem?_eq_some_iff.mp h
  obtain ⟨pre, post, hsplit, _, hset⟩ : ∃ pre post, hands = pre ++ hands[i] :: post ∧
      pre.length = i ∧ hands.set i new = pre ++ new :: post := List.exists_of_set hi
  have hflat : hands.flatten = (pre ++ hand :: post).flatten := by rw [hsplit, hget]
  rw [hset, hflat]
  simp only [List.flatten_append, List.flatten_cons, List.count_append]
  omega

variable {L : Ledger} {i : ℕ} {hand : List ℕ}

theorem all_join : L.join.all = L.all := by
  simp [all, join]

theorem all_take (h : L.hands[i]? = some []) : (L.take i).all.Perm L.all := by
  rw [List.perm_iff_count]
  intro a
  have hset := count_set L.owed h a
  simp only [all, take, List.count_append, List.count_nil] at hset ⊢
  omega

theorem all_tell (h : L.hands[i]? = some hand) : (L.tell i hand).all.Perm L.all := by
  rw [List.perm_iff_count]
  intro a
  have hset := count_set [] h a
  simp only [all, tell, List.flatten_append, List.flatten_cons, List.flatten_nil,
    List.count_append, List.count_nil] at hset ⊢
  omega

theorem all_give_back (h : L.hands[i]? = some hand) :
    (L.give_back i hand).all.Perm (i :: L.all) := by
  rw [List.perm_iff_count]
  intro a
  have hset := count_set [] h a
  simp only [all, give_back, List.count_append, List.count_cons, List.count_nil] at hset ⊢
  omega

end Ledger

end Ledgers

end JavaDebug.Alerts
