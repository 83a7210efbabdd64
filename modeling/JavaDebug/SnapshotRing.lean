import JavaDebug.Session
import Mathlib.Data.List.Range

/-!
The ring of trace snapshots against the sightings it was given. `Chains` is the
history of the rethrow chains: for every key the sightings of the chain that is
in flight, and the chains that were forgotten. The ring keeps of every chain at
most its first and its latest sighting, and a fold says what lies in between,
as far as its `u32` count goes.
-/
namespace JavaDebug.SnapshotRing

open Jdwp StopPoints Session Session.TraceBuffer

section Histories

/-- The sightings of every chain in flight, oldest first, and the chains that were forgotten. -/
structure Chains where
  live : ChainKey → List ℕ
  past : List (ChainKey × List ℕ)

namespace Chains

def none : Chains := ⟨fun _ => [], []⟩

def sight (c : Chains) (k : ChainKey) (n : ℕ) : Chains :=
  { c with live := Function.update c.live k (c.live k ++ [n]) }

def forget (c : Chains) (k : ChainKey) : Chains :=
  ⟨Function.update c.live k [], c.past ++ [(k, c.live k)]⟩

/-- One chain of this key, still in flight or forgotten. -/
def Has (c : Chains) (k : ChainKey) (ss : List ℕ) : Prop := ss = c.live k ∨ (k, ss) ∈ c.past

end Chains

inductive Op
  | push (bp_id : StopId) (req_id : RequestId) (thread : ThreadId) (exception : Option ObjectId)
  | note_disarm (note : StopId)
  | clear

/-- The chain that is forgotten when a throw with this key is filed. -/
def displaced (b : TraceBuffer) (key : ChainKey) : Option RethrowChain :=
  if (b.rethrow_chains.get? key).isSome then none else oldest_chain b.rethrow_chains

structure Watch where
  buffer : TraceBuffer
  pushed : ℕ
  chains : Chains

def Watch.remembered (w : Watch) (k : ChainKey) : Chains :=
  match displaced w.buffer k with
  | some oldest => w.chains.forget oldest.key
  | none => w.chains

def Watch.sighted (w : Watch) (k : ChainKey) : Chains :=
  (w.remembered k).sight k (w.pushed + 1)

def Watch.step (w : Watch) : Op → Watch
  | .push bp_id req_id thread exception =>
    ⟨(w.buffer.push bp_id req_id thread exception).2, w.pushed + 1,
      match exception with
      | some exc => w.sighted (req_id, thread, exc)
      | none => w.chains⟩
  | .note_disarm note => { w with buffer := w.buffer.note_disarm note }
  | .clear => { w with buffer := w.buffer.clear }

def run (ops : List Op) : Watch := ops.foldl Watch.step ⟨.new, 0, .none⟩

end Histories

section Folds

/-- What a record of the chain may be: the first sighting, or the latest one with its fold. -/
def Ends (held : List TraceRecord) (ss : List ℕ) : Prop :=
  ∀ r ∈ held, r.seq ∈ ss → (ss.head? = some r.seq ∧ r.rethrow = none) ∨
    ∃ first mid, ss = first :: mid ++ [r.seq] ∧
      r.rethrow = some ⟨min mid.length 4294967294, first⟩

/-- What the table remembers of a chain. -/
def Tracks (c : RethrowChain) (ss : List ℕ) : Prop :=
  ∃ rest, ss = c.first_seq :: rest ∧ c.rolling_seq = rest.getLast? ∧
    c.collapsed = min rest.length 4294967295

variable {held : List TraceRecord}

theorem Ends.mono {held' : List TraceRecord} {ss : List ℕ} (h : Ends held ss)
    (hsub : ∀ r ∈ held', r ∈ held) : Ends held' ss :=
  fun r hr => h r (hsub r hr)

variable {r : TraceRecord}

theorem Ends.snoc {ss : List ℕ} (h : Ends held ss) (hr : r.seq ∉ ss) : Ends (held ++ [r]) ss := by
  intro r' hr' hseq
  rcases List.mem_append.mp hr' with hr' | hr'
  · exact h r' hr' hseq
  · rw [List.mem_singleton.mp hr'] at hseq
    exact absurd hseq hr

theorem Ends.first (hfold : r.rethrow = none) (hnew : ∀ r' ∈ held, r'.seq ≠ r.seq) :
    Ends (held ++ [r]) [r.seq] := by
  intro r' hr' hseq
  left
  rcases List.mem_append.mp hr' with hr' | hr'
  · exact absurd (List.mem_singleton.mp hseq) (hnew r' hr')
  · rw [List.mem_singleton.mp hr']
    exact ⟨rfl, hfold⟩

/-- A later sighting takes the place of the one before it. -/
theorem Ends.rethrow {first : ℕ} {rest : List ℕ} (h : Ends held (first :: rest))
    (hnodup : (first :: rest).Nodup) (hfold : r.rethrow = some ⟨min rest.length 4294967294, first⟩)
    (hgone : ∀ r' ∈ held, some r'.seq ≠ rest.getLast?) (hnew : ∀ r' ∈ held, r'.seq ≠ r.seq) :
    Ends (held ++ [r]) (first :: rest ++ [r.seq]) := by
  intro r' hr' hseq
  rcases List.mem_append.mp hr' with hr' | hr'
  · left
    have hold : r'.seq ∈ first :: rest := by
      rcases List.mem_append.mp hseq with hseq | hseq
      · exact hseq
      · exact absurd (List.mem_singleton.mp hseq) (hnew r' hr')
    rcases h r' hr' hold with ⟨hhead, hnone⟩ | ⟨first', mid, hss, -⟩
    · exact ⟨hhead, hnone⟩
    · obtain ⟨-, rfl⟩ := List.cons.inj hss
      exact absurd (by simp) (hgone r' hr')
  · right
    rw [List.mem_singleton.mp hr']
    exact ⟨first, rest, rfl, hfold⟩

end Folds

section Rings

/-- A ring of records filed as number `n` or before. -/
structure Ring (held : List TraceRecord) (n : ℕ) : Prop where
  bounded : held.length ≤ MAX_TRACES
  rising : (held.map TraceRecord.seq).Pairwise (· < ·)
  recent : ∀ r ∈ held, r.seq ≤ n

/-- A full ring loses its oldest record. -/
def room (held : List TraceRecord) : List TraceRecord :=
  if MAX_TRACES ≤ held.length then held.drop 1 else held

theorem room_sublist (held : List TraceRecord) : (room held).Sublist held := by
  unfold room
  split
  · exact List.drop_sublist 1 held
  · exact List.Sublist.refl held

theorem length_room {held : List TraceRecord} (h : held.length ≤ MAX_TRACES) :
    (room held).length < MAX_TRACES := by
  have hmax : MAX_TRACES = 500 := rfl
  unfold room
  split
  · rw [List.length_drop]
    omega
  · omega

theorem Ring.file {held kept : List TraceRecord} {n : ℕ} (h : Ring held n)
    (hkept : kept.Sublist held) {r : TraceRecord} (hr : r.seq = n + 1) :
    Ring (room kept ++ [r]) (n + 1) := by
  have hsub := (room_sublist kept).trans hkept
  have hlow : ∀ r' ∈ room kept, r'.seq < r.seq := fun r' hr' => by
    have := h.recent r' (hsub.subset hr')
    omega
  refine ⟨?_, ?_, fun r' hr' => ?_⟩
  · have hlength := length_room (hkept.length_le.trans h.bounded)
    rw [List.length_append, List.length_singleton]
    exact hlength
  · rw [List.map_append, List.pairwise_append]
    refine ⟨h.rising.sublist (hsub.map _), List.pairwise_singleton _ _, fun a ha b hb => ?_⟩
    obtain ⟨r', hr', rfl⟩ := List.mem_map.mp ha
    obtain ⟨r'', hr'', rfl⟩ := List.mem_map.mp hb
    rw [List.mem_singleton.mp hr'']
    exact hlow r' hr'
  · rcases List.mem_append.mp hr' with hr' | hr'
    · exact (hlow r' hr').le.trans hr.le
    · rw [List.mem_singleton.mp hr', hr]

theorem keep_sublist (kind : ThrowKind) (held : List TraceRecord) :
    (keep kind held).Sublist held := by
  cases kind with
  | first => exact List.Sublist.refl held
  | rethrow fold supersedes =>
    cases supersedes with
    | none => exact List.Sublist.refl held
    | some old => exact List.filter_sublist

theorem classify_held (b : TraceBuffer) (req_id : RequestId) (thread : ThreadId)
    (exception : Option ObjectId) (n : ℕ) :
    (b.classify_throw req_id thread exception n).2.held = b.held ∧
      (b.classify_throw req_id thread exception n).2.filed = b.filed := by
  unfold classify_throw
  cases exception with
  | none => exact ⟨rfl, rfl⟩
  | some exc => cases hget : b.rethrow_chains.get? (req_id, thread, exc) <;> simp [hget]

/-- What `push` leaves in the ring, by the kind of the hit. -/
theorem push_held (b : TraceBuffer) (bp_id : StopId) (req_id : RequestId) (thread : ThreadId)
    (exception : Option ObjectId) :
    (b.push bp_id req_id thread exception).2.held =
        room (keep (b.push bp_id req_id thread exception).1 b.held) ++
          [⟨b.filed + 1, bp_id, thread, (b.push bp_id req_id thread exception).1.fold⟩] ∧
      (b.push bp_id req_id thread exception).2.filed = b.filed + 1 := by
  have hclass := classify_held { b with filed := b.filed + 1 } req_id thread exception (b.filed + 1)
  refine ⟨?_, hclass.2⟩
  simp only [push, hclass.1]
  rfl

end Rings

section Invariant

structure Follows (w : Watch) : Prop where
  filed : w.buffer.filed = w.pushed
  ring : Ring w.buffer.held w.pushed
  tracked : ∀ k c, w.buffer.rethrow_chains.get? k = some c → Tracks c (w.chains.live k)
  untracked : ∀ k, w.buffer.rethrow_chains.get? k = none → w.chains.live k = []
  sighted : ∀ k ss, w.chains.Has k ss → ss.Pairwise (· < ·) ∧ ∀ n ∈ ss, n ≤ w.pushed
  ends : ∀ k ss, w.chains.Has k ss → Ends w.buffer.held ss
  folded : ∀ r ∈ w.buffer.held, r.rethrow ≠ none → ∃ k ss, w.chains.Has k ss ∧ r.seq ∈ ss

theorem follows_new : Follows ⟨.new, 0, .none⟩ := by
  have hempty : ∀ k ss, Chains.Has .none k ss → ss = [] := fun k ss h =>
    h.resolve_right List.not_mem_nil
  refine ⟨rfl, ⟨Nat.zero_le _, List.Pairwise.nil, fun r hr => absurd hr List.not_mem_nil⟩,
    fun k c hk => ?_, fun k _ => rfl, fun k ss h => ?_,
    fun k ss _ r hr => absurd hr List.not_mem_nil, fun r hr => absurd hr List.not_mem_nil⟩
  · cases hk
  · rw [hempty k ss h]
    exact ⟨List.Pairwise.nil, fun n hn => absurd hn List.not_mem_nil⟩

variable {w : Watch} {req_id : RequestId} {thread : ThreadId} {exc : ObjectId} {ss : List ℕ}
  {c : Chains} {k' : ChainKey}

/-- A hit without an exception belongs to no chain. -/
theorem Follows.push_plain (h : Follows w) (bp_id : StopId) (req_id : RequestId) (thread : ThreadId)
    : Follows (w.step (.push bp_id req_id thread none)) := by
  have hfile : Ring (room w.buffer.held ++ [⟨w.buffer.filed + 1, bp_id, thread, none⟩])
      (w.pushed + 1) :=
    h.ring.file (List.Sublist.refl _) (congrArg (· + 1) h.filed)
  have hsub := room_sublist w.buffer.held
  refine ⟨congrArg (· + 1) h.filed, hfile, h.tracked, h.untracked, fun k ss hss => ?_,
    fun k ss hss => ?_, fun r hr hfold => ?_⟩
  · obtain ⟨hrising, hle⟩ := h.sighted k ss hss
    exact ⟨hrising, fun n hn => (hle n hn).trans (Nat.le_succ _)⟩
  · refine ((h.ends k ss hss).mono fun r hr => hsub.subset hr).snoc fun hr => ?_
    have := (h.sighted k ss hss).2 _ hr
    rw [h.filed] at this
    exact absurd this (Nat.not_succ_le_self _)
  · rcases List.mem_append.mp hr with hr | hr
    · exact h.folded r (hsub.subset hr) hfold
    · rw [List.mem_singleton.mp hr] at hfold
      exact absurd rfl hfold

theorem push_rethrow {b : TraceBuffer} {c : RethrowChain}
    (hget : b.rethrow_chains.get? (req_id, thread, exc) = some c) (bp_id : StopId) :
    (b.push bp_id req_id thread (some exc)).1 =
        .rethrow ⟨saturating_succ c.collapsed - 1, c.first_seq⟩ c.rolling_seq ∧
      (b.push bp_id req_id thread (some exc)).2.rethrow_chains =
        b.rethrow_chains.modify (req_id, thread, exc) fun c =>
          { c with
            collapsed := saturating_succ c.collapsed
            rolling_seq := some (b.filed + 1) } := by
  simp only [push, classify_throw, hget, and_self]

theorem push_first {b : TraceBuffer} (hget : b.rethrow_chains.get? (req_id, thread, exc) = none)
    (bp_id : StopId) :
    (b.push bp_id req_id thread (some exc)).1 = .first ∧
      (b.push bp_id req_id thread (some exc)).2.rethrow_chains =
        (make_room b.rethrow_chains).insert ⟨(req_id, thread, exc), b.filed + 1, none, 0⟩ := by
  simp only [push, classify_throw, hget, and_self]

theorem Tracks.sight {c : RethrowChain} (h : Tracks c ss) (n : ℕ) :
    Tracks { c with collapsed := saturating_succ c.collapsed, rolling_seq := some n }
      (ss ++ [n]) := by
  obtain ⟨rest, rfl, -, hcollapsed⟩ := h
  refine ⟨rest ++ [n], rfl, by simp, ?_⟩
  simp only [hcollapsed, saturating_succ, List.length_append, List.length_singleton]
  omega

theorem Chains.live_sight (c : Chains) (k k' : ChainKey) (n : ℕ) :
    (c.sight k n).live k' = if k' = k then c.live k ++ [n] else c.live k' :=
  Function.update_apply ..

theorem Chains.live_forget (c : Chains) (k k' : ChainKey) :
    (c.forget k).live k' = if k' = k then [] else c.live k' :=
  Function.update_apply ..

variable {k : ChainKey}

theorem Chains.has_sight {n : ℕ} (h : (c.sight k n).Has k' ss) :
    ss = c.live k ++ [n] ∨ c.Has k' ss := by
  rcases h with h | h
  · rw [Chains.live_sight] at h
    split at h
    · exact Or.inl h
    · exact Or.inr (Or.inl h)
  · exact Or.inr (Or.inr h)

theorem Chains.has_forget (h : (c.forget k).Has k' ss) : ss = [] ∨ c.Has k' ss := by
  rcases h with h | h
  · rw [Chains.live_forget] at h
    split at h
    · exact Or.inl h
    · exact Or.inr (Or.inl h)
  · right
    rcases List.mem_append.mp h with h | h
    · exact Or.inr h
    · obtain ⟨rfl, rfl⟩ := Prod.mk.inj (List.mem_singleton.mp h)
      exact Or.inl rfl

/-- A chain grows by the sighting, or stays. -/
theorem Chains.Has.sight (h : c.Has k' ss) (k : ChainKey) (n : ℕ) :
    (c.sight k n).Has k' ss ∨ (c.sight k n).Has k' (ss ++ [n]) := by
  rcases h with rfl | h
  · by_cases hk : k' = k
    · right
      left
      rw [Chains.live_sight, if_pos hk, hk]
    · left
      left
      rw [Chains.live_sight, if_neg hk]
  · exact Or.inl (Or.inr h)

theorem Chains.Has.forget (h : c.Has k' ss) (k : ChainKey) : (c.forget k).Has k' ss := by
  rcases h with rfl | h
  · by_cases hk : k' = k
    · right
      rw [hk]
      exact List.mem_append_right _ List.mem_cons_self
    · left
      rw [Chains.live_forget, if_neg hk]
  · exact Or.inr (List.mem_append_left _ h)

theorem Follows.unseen (h : Follows w) {k : ChainKey} {ss : List ℕ} (hss : w.chains.Has k ss) :
    w.buffer.filed + 1 ∉ ss := fun hn => by
  have := (h.sighted k ss hss).2 _ hn
  rw [h.filed] at this
  exact absurd this (Nat.not_succ_le_self _)

/-- What a table and a history share where a throw with this key is filed. -/
structure Shares (w : Watch) (cs : Chains) (table : Table RethrowChain.key) : Prop where
  tracked : ∀ k c, table.get? k = some c → Tracks c (cs.live k)
  untracked : ∀ k, table.get? k = none → cs.live k = []
  from_ : ∀ k ss, cs.Has k ss → ss = [] ∨ w.chains.Has k ss
  kept : ∀ k ss, w.chains.Has k ss → cs.Has k ss

theorem Follows.shares (h : Follows w) : Shares w w.chains w.buffer.rethrow_chains :=
  ⟨h.tracked, h.untracked, fun _ _ => Or.inr, fun _ _ => id⟩

theorem Shares.forget {cs : Chains} {table : Table RethrowChain.key} (hs : Shares w cs table)
    (k : ChainKey) : Shares w (cs.forget k) (table.erase k) := by
  refine ⟨fun k' c hk => ?_, fun k' hk => ?_, fun k' ss hss => ?_, fun k' ss hss => ?_⟩
  · rw [Table.get?_erase] at hk
    rw [Chains.live_forget]
    split at hk
    · cases hk
    · rename_i hne
      rw [if_neg hne]
      exact hs.tracked k' c hk
  · rw [Table.get?_erase] at hk
    rw [Chains.live_forget]
    split at hk
    · rename_i heq
      rw [if_pos heq]
    · rename_i hne
      rw [if_neg hne]
      exact hs.untracked k' hk
  · exact (Chains.has_forget hss).elim Or.inl (hs.from_ k' ss)
  · exact (hs.kept k' ss hss).forget _

/-- A throw is filed in its chain, whether that is in flight or begins with it. -/
theorem Follows.push_into (h : Follows w) (bp_id : StopId) {cs : Chains}
    {table : Table RethrowChain.key} (hs : Shares w cs table)
    (hcs : w.remembered (req_id, thread, exc) = cs) {kind : ThrowKind}
    (hkind : (w.buffer.push bp_id req_id thread (some exc)).1 = kind) {filed : RethrowChain}
    (hget : ∀ k, (w.buffer.push bp_id req_id thread (some exc)).2.rethrow_chains.get? k =
      if k = (req_id, thread, exc) then some filed else table.get? k)
    (hfiled : Tracks filed (cs.live (req_id, thread, exc) ++ [w.buffer.filed + 1]))
    (hends : (cs.live (req_id, thread, exc)).Pairwise (· < ·) →
      Ends (room (keep kind w.buffer.held)) (cs.live (req_id, thread, exc)) →
      (∀ r ∈ room (keep kind w.buffer.held), r.seq ≠ w.buffer.filed + 1) →
      Ends (room (keep kind w.buffer.held) ++ [⟨w.buffer.filed + 1, bp_id, thread, kind.fold⟩])
        (cs.live (req_id, thread, exc) ++ [w.buffer.filed + 1])) :
    Follows (w.step (.push bp_id req_id thread (some exc))) := by
  obtain ⟨hheld, hnext⟩ := push_held w.buffer bp_id req_id thread (some exc)
  rw [hkind] at hheld
  have hsub := (room_sublist (keep kind w.buffer.held)).trans (keep_sublist _ _)
  have hold : ∀ r ∈ room (keep kind w.buffer.held), r.seq ≠ w.buffer.filed + 1 := fun r hr => by
    have := h.ring.recent r (hsub.subset hr)
    rw [← h.filed] at this
    exact (Nat.lt_succ_of_le this).ne
  have hpast : ∀ k ss, cs.Has k ss → (ss.Pairwise (· < ·) ∧ ∀ n ∈ ss, n ≤ w.pushed) ∧
      Ends (room (keep kind w.buffer.held)) ss ∧ w.buffer.filed + 1 ∉ ss := by
    intro k ss hss
    rcases hs.from_ k ss hss with rfl | hss
    · exact ⟨⟨List.Pairwise.nil, fun n hn => absurd hn List.not_mem_nil⟩,
        fun r _ hr => absurd hr List.not_mem_nil, List.not_mem_nil⟩
    · exact ⟨h.sighted k ss hss, (h.ends k ss hss).mono fun r hr => hsub.subset hr, h.unseen hss⟩
  obtain ⟨⟨hrising, hle⟩, hown, -⟩ := hpast _ _ (Or.inl rfl : cs.Has (req_id, thread, exc) _)
  show Follows ⟨_, _, w.sighted (req_id, thread, exc)⟩
  rw [Watch.sighted, hcs, ← h.filed]
  refine ⟨hnext, ?_, fun k c hk => ?_, fun k hk => ?_, fun k ss hss => ?_, fun k ss hss => ?_,
    fun r hr hr' => ?_⟩
  · rw [hheld]
    exact (h.filed ▸ h.ring).file (keep_sublist _ _) rfl
  · rw [hget] at hk
    rw [Chains.live_sight]
    split at hk
    · rename_i hkey
      rw [if_pos hkey, ← Option.some.inj hk]
      exact hfiled
    · rename_i hkey
      rw [if_neg hkey]
      exact hs.tracked k c hk
  · rw [hget] at hk
    rw [Chains.live_sight]
    split at hk
    · cases hk
    · rename_i hkey
      rw [if_neg hkey]
      exact hs.untracked k hk
  · rw [← h.filed] at hle
    rcases Chains.has_sight hss with rfl | hss
    · refine ⟨List.pairwise_append.mpr ⟨hrising, List.pairwise_singleton _ _, fun a ha b hb => ?_⟩,
        fun n hn => ?_⟩
      · rw [List.mem_singleton.mp hb]
        exact Nat.lt_succ_of_le (hle a ha)
      · rcases List.mem_append.mp hn with hn | hn
        · exact (hle n hn).trans (Nat.le_succ _)
        · exact (List.mem_singleton.mp hn).le
    · obtain ⟨⟨hrising, hle⟩, -⟩ := hpast k ss hss
      rw [← h.filed] at hle
      exact ⟨hrising, fun n hn => (hle n hn).trans (Nat.le_succ _)⟩
  · rw [hheld]
    rcases Chains.has_sight hss with rfl | hss
    · exact hends hrising hown hold
    · obtain ⟨-, hends, hnew⟩ := hpast k ss hss
      exact hends.snoc hnew
  · rw [hheld] at hr
    rcases List.mem_append.mp hr with hr | hr
    · obtain ⟨k, ss, hss, hmem⟩ := h.folded r (hsub.subset hr) hr'
      rcases (hs.kept k ss hss).sight (req_id, thread, exc) (w.buffer.filed + 1) with hss | hss
      · exact ⟨k, ss, hss, hmem⟩
      · exact ⟨k, _, hss, List.mem_append_left _ hmem⟩
    · refine ⟨(req_id, thread, exc), _, Or.inl rfl, ?_⟩
      rw [List.mem_singleton.mp hr, Chains.live_sight, if_pos rfl]
      exact List.mem_append_right _ List.mem_cons_self

theorem Follows.push_tracked (h : Follows w) (bp_id : StopId) {c : RethrowChain}
    (hget : w.buffer.rethrow_chains.get? (req_id, thread, exc) = some c) :
    Follows (w.step (.push bp_id req_id thread (some exc))) := by
  obtain ⟨hkind, hchains⟩ := push_rethrow hget bp_id
  obtain ⟨rest, hlive, hrolling, hcollapsed⟩ := h.tracked _ _ hget
  have hcs : w.remembered (req_id, thread, exc) = w.chains := by
    simp only [Watch.remembered, displaced, hget, Option.isSome_some, if_true]
  refine h.push_into bp_id h.shares hcs hkind (fun k => ?_) ((h.tracked _ _ hget).sight _)
    fun hrising hends hold => ?_
  · rw [hchains, Table.get?_modify]
    split
    · rename_i hkey
      rw [hkey, hget]
      rfl
    · rfl
  · rw [hlive] at hends hrising ⊢
    refine hends.rethrow (hrising.imp fun hlt => hlt.ne) ?_ (fun r hr hseq => ?_) hold
    · simp only [ThrowKind.fold, hcollapsed, saturating_succ, Option.some.injEq,
        RethrowFold.mk.injEq, and_true]
      omega
    · rw [hrolling] at hr
      have hkeep := (room_sublist _).subset hr
      simp only [← hseq, keep, List.mem_filter, ne_eq, not_true_eq_false, decide_false,
        Bool.false_eq_true, and_false] at hkeep

theorem Follows.push_untracked (h : Follows w) (bp_id : StopId)
    (hget : w.buffer.rethrow_chains.get? (req_id, thread, exc) = none) :
    Follows (w.step (.push bp_id req_id thread (some exc))) := by
  obtain ⟨hkind, hchains⟩ := push_first hget bp_id
  obtain ⟨hs, habsent⟩ : Shares w (w.remembered (req_id, thread, exc))
      (make_room w.buffer.rethrow_chains) ∧
      (make_room w.buffer.rethrow_chains).get? (req_id, thread, exc) = none := by
    simp only [Watch.remembered, displaced, hget, make_room, Option.isSome_none,
      Bool.false_eq_true, if_false]
    cases oldest_chain w.buffer.rethrow_chains with
    | none => exact ⟨h.shares, hget⟩
    | some o =>
      refine ⟨h.shares.forget o.key, ?_⟩
      rw [Table.get?_erase, hget, ite_self]
  have hlive := hs.untracked _ habsent
  refine h.push_into bp_id hs rfl hkind
    (fun k => (congrArg (Table.get? · k) hchains).trans (Table.get?_insert ..)) ?_
    fun _ _ hold => ?_
  · rw [hlive]
    exact ⟨[], rfl, rfl, rfl⟩
  · rw [hlive]
    exact Ends.first rfl hold

theorem Follows.step (h : Follows w) (op : Op) : Follows (w.step op) := by
  cases op with
  | push bp_id req_id thread exception =>
    cases exception with
    | none => exact h.push_plain bp_id req_id thread
    | some exc =>
      cases hget : w.buffer.rethrow_chains.get? (req_id, thread, exc) with
      | none => exact h.push_untracked bp_id hget
      | some c => exact h.push_tracked bp_id hget
  | note_disarm note =>
    obtain ⟨disarms, dropped, hnote⟩ : ∃ disarms dropped, w.buffer.note_disarm note =
        { w.buffer with disarms := disarms, disarms_dropped := dropped } := by
      unfold note_disarm
      split
      · exact ⟨_, _, rfl⟩
      · split <;> exact ⟨_, _, rfl⟩
    show Follows ⟨w.buffer.note_disarm note, _, _⟩
    rw [hnote]
    exact ⟨h.filed, h.ring, h.tracked, h.untracked, h.sighted, h.ends, h.folded⟩
  | clear =>
    exact ⟨h.filed, ⟨Nat.zero_le _, List.Pairwise.nil, fun r hr => absurd hr List.not_mem_nil⟩,
      h.tracked, h.untracked, h.sighted, fun k ss _ r hr => absurd hr List.not_mem_nil,
      fun r hr => absurd hr List.not_mem_nil⟩

theorem follows_run (ops : List Op) : Follows (run ops) := by
  induction ops using List.reverseRecOn with
  | nil => exact follows_new
  | append_singleton ops op ih =>
    rw [run, List.foldl_append]
    exact ih.step op

end Invariant

section Claimed

/-- How many sightings of the chain lie strictly between two of them. -/
def between (ss : List ℕ) (first last : ℕ) : ℕ :=
  (ss.filter fun n => first < n ∧ n < last).length

theorem between_ends {first last : ℕ} {mid : List ℕ} (h : (first :: mid ++ [last]).Pairwise (· < ·))
    : between (first :: mid ++ [last]) first last = mid.length := by
  rw [List.cons_append, List.pairwise_cons, List.pairwise_append] at h
  obtain ⟨hfirst, -, -, hlast⟩ := h
  have hmid : mid.filter (fun n => first < n ∧ n < last) = mid := by
    refine List.filter_eq_self.mpr fun n hn => ?_
    have hlow := hfirst n (List.mem_append_left _ hn)
    have hhigh := hlast n hn last List.mem_cons_self
    simp [hlow, hhigh]
  unfold between
  rw [List.cons_append, List.filter_cons, List.filter_append, hmid]
  simp

/-- The fold of record `seq` in its chain: the first sighting, and how many it stands for. -/
def Explains (f : RethrowFold) (seq : ℕ) (ss : List ℕ) : Prop :=
  ss.head? = some f.first_seq ∧
    f.collapsed = min (between ss f.first_seq seq) 4294967294

/-- The sighting that a further one of the same chain replaces: the latest, unless it is the first.
-/
def Watch.superseded (w : Watch) (req_id : RequestId) (thread : ThreadId) :
    Option ObjectId → Option ℕ
  | none => none
  | some exc => (w.chains.live (req_id, thread, exc)).tail.getLast?

/-- A push files one record under a new number; the superseded sighting goes, and the oldest record
of a ring that is still full. -/
def FilesOne (w : Watch) : Prop :=
  ∀ bp_id req_id thread exception, ∃ r : TraceRecord, r.seq = w.pushed + 1 ∧
    (w.buffer.push bp_id req_id thread exception).2.held =
      room (w.buffer.held.filter fun r => some r.seq ≠ w.superseded req_id thread exception) ++ [r]

theorem keep_superseded {w : Watch} (h : Follows w) (bp_id : StopId) (req_id : RequestId)
    (thread : ThreadId) (exception : Option ObjectId) :
    keep (w.buffer.push bp_id req_id thread exception).1 w.buffer.held =
      w.buffer.held.filter fun r => some r.seq ≠ w.superseded req_id thread exception := by
  have hall : w.buffer.held = w.buffer.held.filter fun r => some r.seq ≠ none := by
    simp
  cases exception with
  | none => exact hall
  | some exc =>
    cases hget : w.buffer.rethrow_chains.get? (req_id, thread, exc) with
    | none =>
      rw [(push_first hget bp_id).1, Watch.superseded, h.untracked _ hget]
      exact hall
    | some c =>
      obtain ⟨rest, hlive, hrolling, -⟩ := h.tracked _ _ hget
      rw [(push_rethrow hget bp_id).1, Watch.superseded, hlive, List.tail_cons, hrolling]
      cases rest.getLast? with
      | none => exact hall
      | some old => simp [keep]

theorem files_one {w : Watch} (h : Follows w) : FilesOne w := by
  intro bp_id req_id thread exception
  refine ⟨⟨w.buffer.filed + 1, bp_id, thread,
    (w.buffer.push bp_id req_id thread exception).1.fold⟩, congrArg (· + 1) h.filed, ?_⟩
  rw [(push_held w.buffer bp_id req_id thread exception).1, keep_superseded h]

/-- The `u32` count of a fold stops one short of its maximum. -/
theorem snapshot_ring_spec (ops : List Op) :
    (run ops).buffer.held.length ≤ MAX_TRACES ∧
    ((run ops).buffer.held.map TraceRecord.seq).Pairwise (· < ·) ∧
    (run ops).buffer.filed = (run ops).pushed ∧
    FilesOne (run ops) ∧
    (∀ k ss, (run ops).chains.Has k ss → ∀ r ∈ (run ops).buffer.held, r.seq ∈ ss →
      ss.head? = some r.seq ∨ ss.getLast? = some r.seq) ∧
    (∀ r ∈ (run ops).buffer.held, ∀ f, r.rethrow = some f →
      (∃ k ss, (run ops).chains.Has k ss ∧ r.seq ∈ ss) ∧
      ∀ k ss, (run ops).chains.Has k ss → r.seq ∈ ss → Explains f r.seq ss) := by
  have h := follows_run ops
  refine ⟨h.ring.bounded, h.ring.rising, h.filed, files_one h, fun k ss hss r hr hmem => ?_,
    fun r hr f hf => ⟨h.folded r hr (by simp [hf]), fun k ss hss hmem => ?_⟩⟩
  · rcases h.ends k ss hss r hr hmem with ⟨hhead, -⟩ | ⟨first, mid, rfl, -⟩
    · exact Or.inl hhead
    · exact Or.inr List.getLast?_concat
  · rcases h.ends k ss hss r hr hmem with ⟨-, hnone⟩ | ⟨first, mid, rfl, hfold⟩
    · rw [hf] at hnone
      cases hnone
    · rw [hf, Option.some.injEq] at hfold
      subst hfold
      refine ⟨rfl, ?_⟩
      rw [between_ends (h.sighted k _ hss).1]

/-- One exception instance, thrown and rethrown `n` times in all. -/
def rethrown (n : ℕ) : List Op := List.replicate n (.push ⟨"ex_", 1⟩ 7 8 (some 9))

theorem rethrown_sightings (n : ℕ) :
    (run (rethrown n)).pushed = n ∧
      (run (rethrown n)).chains.live (7, 8, 9) = List.range' 1 n := by
  induction n with
  | zero => exact ⟨rfl, rfl⟩
  | succ n ih =>
    have hrun : run (rethrown (n + 1)) =
        (run (rethrown n)).step (.push ⟨"ex_", 1⟩ 7 8 (some 9)) := by
      simp only [run, rethrown, List.replicate_succ', List.foldl_append]
      rfl
    have hsame : (run (rethrown n)).remembered (7, 8, 9) = (run (rethrown n)).chains := by
      cases n with
      | zero => rfl
      | succ n =>
        have hheld : ((run (rethrown (n + 1))).buffer.rethrow_chains.get? (7, 8, 9)).isSome := by
          rw [← Option.ne_none_iff_isSome]
          intro hnone
          have hempty := (follows_run _).untracked _ hnone
          rw [ih.2] at hempty
          cases hempty
        rw [Watch.remembered, displaced, if_pos hheld]
    rw [hrun]
    refine ⟨congrArg (· + 1) ih.1, ?_⟩
    show ((run (rethrown n)).sighted (7, 8, 9)).live (7, 8, 9) = _
    rw [Watch.sighted, hsame, Chains.live_sight, if_pos rfl, ih.1, ih.2, List.range'_concat]
    simp [Nat.add_comm]

theorem rethrown_fold (n : ℕ) :
    ∃ r ∈ (run (rethrown (n + 2))).buffer.held, ∃ f, r.rethrow = some f ∧
      f.collapsed = min n 4294967294 ∧
      between ((run (rethrown (n + 2))).chains.live (7, 8, 9)) f.first_seq r.seq = n := by
  obtain ⟨r, hseq, hheld⟩ := files_one (follows_run (rethrown (n + 1))) ⟨"ex_", 1⟩ 7 8 (some 9)
  have hrun : run (rethrown (n + 2)) =
      (run (rethrown (n + 1))).step (.push ⟨"ex_", 1⟩ 7 8 (some 9)) := by
    simp only [run, rethrown, List.replicate_succ' (n := n + 1), List.foldl_append]
    rfl
  have hmem : r ∈ (run (rethrown (n + 2))).buffer.held := by
    rw [hrun]
    show r ∈ ((run (rethrown (n + 1))).buffer.push ⟨"ex_", 1⟩ 7 8 (some 9)).2.held
    rw [hheld]
    exact List.mem_append_right _ List.mem_cons_self
  rw [(rethrown_sightings (n + 1)).1] at hseq
  obtain ⟨-, hlive⟩ := rethrown_sightings (n + 2)
  have h := follows_run (rethrown (n + 2))
  have hin : r.seq ∈ (run (rethrown (n + 2))).chains.live (7, 8, 9) := by
    rw [hlive, List.mem_range'_1]
    omega
  have hends := h.ends (7, 8, 9) _ (Or.inl rfl) r hmem hin
  have hrising := (h.sighted (7, 8, 9) _ (Or.inl rfl)).1
  have hlength : ((run (rethrown (n + 2))).chains.live (7, 8, 9)).length = n + 2 := by
    rw [hlive, List.length_range']
  rcases hends with ⟨hhead, -⟩ | ⟨first, mid, hss, hfold⟩
  · rw [hlive, List.range'_succ, List.head?_cons, Option.some.injEq] at hhead
    omega
  · rw [hss] at hrising hlength ⊢
    have hmid : mid.length = n := by
      simp only [List.length_append, List.length_cons, List.length_nil] at hlength
      omega
    refine ⟨r, hmem, _, hfold, by rw [hmid], ?_⟩
    rw [between_ends hrising, hmid]

/-- One rethrow more than a `u32` can count is missing from the fold. -/
theorem collapsed_saturates :
    ∃ r ∈ (run (rethrown 4294967297)).buffer.held, ∃ f, r.rethrow = some f ∧
      f.collapsed ≠
        between ((run (rethrown 4294967297)).chains.live (7, 8, 9)) f.first_seq r.seq := by
  have hfold := rethrown_fold 4294967295
  rw [show 4294967295 + 2 = 4294967297 from rfl] at hfold
  obtain ⟨r, hr, f, hf, hcollapsed, hbetween⟩ := hfold
  refine ⟨r, hr, f, hf, ?_⟩
  rw [hcollapsed, hbetween]
  decide

end Claimed

end JavaDebug.SnapshotRing
