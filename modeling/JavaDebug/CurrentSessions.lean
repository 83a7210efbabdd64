import JavaDebug.OpenedSessions

/-!
Which session the calls without an id reach. The pointer is written after the lock of
the map was let go, by an attach and by a switch, and a disconnect that comes in
between has looked at the pointer already. When no such write comes after the session
was taken out of the map, the pointer is empty or names a session of the map whenever
no call stands between two of these steps.
-/
namespace JavaDebug.CurrentSessions

open SessionCalls OpenedSessions

section Stages

/-- The session that the next step of a call will make the current one. -/
def selects : Stage → Option SessionId
  | .registered id | .selected id => some id
  | _ => none

/-- The session that was taken out of the map and that the next step clears. -/
def clears : Stage → Option SessionId
  | .unregistered id | .removed id => some id
  | _ => none

/-- No call is in `create_session`, `remove_session` or on its way to `make_current`. -/
def Quiet (s : Server) : Prop := ∀ c, selects (s.stages c) = none ∧ clears (s.stages c) = none

def Current (m : SessionManager) : Prop := ∀ id, m.current_session = some id → id ∈ m.sessions

/-- When a call makes a session the current one it is in the map, or is still to be cleared. -/
def InTime (s : Server) (c : ℕ) : Prop :=
  ∀ id, selects (s.stages c) = some id →
    id ∈ s.manager.sessions ∨ ∃ d, clears (s.stages d) = some id

/-- A session that is current without being in the map is still to be cleared. -/
def Followed (s : Server) : Prop :=
  ∀ id, s.manager.current_session = some id →
    id ∈ s.manager.sessions ∨ ∃ d, clears (s.stages d) = some id

end Stages

section Steps

/-- What one step of a call does to the map and to the pointer. -/
inductive Touches (m m' : SessionManager) (st st' : Stage) : Prop
  | none (current : m'.current_session = m.current_session) (sessions : m'.sessions = m.sessions)
    (clears : clears st = none)
  | registers (id : SessionId) (current : m'.current_session = m.current_session)
    (sessions : m'.sessions = id :: m.sessions) (clears : clears st = none)
  | selects (id : SessionId) (selects : selects st = some id)
    (current : m'.current_session = some id)
    (sessions : m'.sessions = m.sessions) (clears : clears st = none)
  | unregisters (id : SessionId) (current : m'.current_session = m.current_session)
    (sessions : m'.sessions = m.sessions.filter fun j => j ≠ id)
    (clears : CurrentSessions.clears st = none) (clears' : CurrentSessions.clears st' = some id)
  | clears (id : SessionId) (clears : CurrentSessions.clears st = some id)
    (current : m'.current_session = if m.current_session = some id then Option.none
      else m.current_session) (sessions : m'.sessions = m.sessions)

variable (m : SessionManager)

theorem begin_touches (x : Outside) (r : Request) :
    Touches m (begin_call m x r).1 .start (begin_call m x r).2 := by
  cases r with
  | attach endpoint seed session_id =>
    simp only [begin_call]
    split
    · exact .registers _ rfl rfl rfl
    · exact .none rfl rfl rfl
  | launch port seed session_id jvm suspend =>
    simp only [begin_call]
    split
    · exact .registers _ rfl rfl rfl
    · exact .none rfl rfl rfl
  | disconnect session_id =>
    simp only [begin_call]
    split <;> exact .none rfl rfl rfl
  | set_current_session session_id =>
    simp only [begin_call]
    split
    · split <;> exact .none rfl rfl rfl
    · exact .none rfl rfl rfl

theorem unregister_touches (id : SessionId) :
    (m.unregister id).current_session = m.current_session ∧
      (m.unregister id).sessions = m.sessions.filter fun j => j ≠ id := by
  unfold SessionManager.unregister
  split <;> exact ⟨rfl, rfl⟩

theorem clear_touches (id : SessionId) :
    (m.clear_current id).current_session =
        (if m.current_session = some id then none else m.current_session) ∧
      (m.clear_current id).sessions = m.sessions := by
  unfold SessionManager.clear_current
  split <;> exact ⟨rfl, rfl⟩

theorem advance_touches (x : Outside) (r : Request) (st : Stage) :
    Touches m (advance m x r st).1 st (advance m x r st).2 := by
  cases st with
  | start => exact begin_touches m x r
  | registered id | selected id => exact .selects id rfl rfl rfl rfl
  | current id | named id =>
    simp only [advance]
    split <;> exact .none rfl rfl rfl
  | guarded id | locked id | returned id => exact .none rfl rfl rfl
  | vanished id | released id =>
    exact .unregisters id (unregister_touches m id).1 (unregister_touches m id).2 rfl rfl
  | unregistered id | removed id =>
    exact .clears id rfl (clear_touches m id).1 (clear_touches m id).2
  | opened id =>
    simp only [advance]
    unfold after_open
    split
    · split <;> exact .none rfl rfl rfl
    · exact .none rfl rfl rfl
  | resolved id guard =>
    cases r with
    | launch port seed session_id jvm suspend => exact .none rfl rfl rfl
    | attach _ _ _ | disconnect _ | set_current_session _ => exact .none rfl rfl rfl

variable {requests : ℕ → Request} {s : Server} {c : ℕ}

theorem due_of_ne {d : ℕ} {id : SessionId} (hd : clears (s.stages d) = some id) (hne : d ≠ c)
    (x : Outside) : clears ((step requests s c x).stages d) = some id := by
  have hsame : (step requests s c x).stages d = s.stages d := Function.update_of_ne hne _ _
  rw [hsame, hd]

theorem due_of_none {d : ℕ} {id : SessionId} (hd : clears (s.stages d) = some id)
    (hc : clears (s.stages c) = none) (x : Outside) :
    clears ((step requests s c x).stages d) = some id := by
  refine due_of_ne hd ?_ x
  rintro rfl
  rw [hc] at hd
  cases hd

theorem step_followed (hs : Followed s) (hc : InTime s c) (x : Outside) :
    Followed (step requests s c x) := by
  intro id hid
  have hstage : (step requests s c x).stages c =
      (advance s.manager x (requests c) (s.stages c)).2 := Function.update_self ..
  change (advance s.manager x (requests c) (s.stages c)).1.current_session = some id at hid
  change id ∈ (advance s.manager x (requests c) (s.stages c)).1.sessions ∨ _
  cases advance_touches s.manager x (requests c) (s.stages c) with
  | none current sessions hclears =>
    rw [current] at hid
    rw [sessions]
    exact (hs id hid).imp_right fun ⟨d, hd⟩ => ⟨d, due_of_none hd hclears x⟩
  | registers new current sessions hclears =>
    rw [current] at hid
    rw [sessions]
    exact (hs id hid).imp (List.mem_cons_of_mem new)
      fun ⟨d, hd⟩ => ⟨d, due_of_none hd hclears x⟩
  | selects new hselects current sessions hclears =>
    rw [current] at hid
    rw [sessions]
    exact (hc id (hselects.trans hid)).imp_right fun ⟨d, hd⟩ => ⟨d, due_of_none hd hclears x⟩
  | unregisters old current sessions hclears hclears' =>
    rw [current] at hid
    rw [sessions]
    rcases eq_or_ne id old with rfl | hne
    · exact Or.inr ⟨c, by rw [hstage, hclears']⟩
    · refine (hs id hid).imp (fun hmem => List.mem_filter.mpr ⟨hmem, by simpa using hne⟩) ?_
      exact fun ⟨d, hd⟩ => ⟨d, due_of_none hd hclears x⟩
  | clears old hclears current sessions =>
    rw [current] at hid
    rw [sessions]
    split at hid
    · cases hid
    · rename_i hne
      refine (hs id hid).imp_right fun ⟨d, hd⟩ => ⟨d, due_of_ne hd ?_ x⟩
      rintro rfl
      rw [hclears] at hd
      exact hne (hid.trans hd.symm)

end Steps

section Runs

/-- Every step of the run makes a session the current one in time. -/
def Timely (requests : ℕ → Request) : Server → List (ℕ × Outside) → Prop
  | _, [] => True
  | s, i :: rest => InTime s i.1 ∧ Timely requests (step requests s i.1 i.2) rest

theorem run_followed {requests : ℕ → Request} {s : Server} (hs : Followed s)
    {steps : List (ℕ × Outside)} (h : Timely requests s steps) :
    Followed (run requests s steps) := by
  induction steps generalizing s with
  | nil => exact hs
  | cons i rest ih => exact ih (step_followed hs h.1 i.2) h.2

theorem start_followed : Followed .start := fun _ h => by cases h

theorem Followed.current {s : Server} (hs : Followed s) (hquiet : Quiet s) : Current s.manager := by
  intro id hid
  rcases hs id hid with hmem | ⟨d, hd⟩
  · exact hmem
  · rw [(hquiet d).2] at hd
    cases hd

/-- A run whose every write of the pointer comes in time leaves a session of the map current. -/
theorem run_current (requests : ℕ → Request) (steps : List (ℕ × Outside))
    (h : Timely requests .start steps) (hquiet : Quiet (run requests .start steps)) :
    Current (run requests .start steps).manager :=
  (run_followed start_followed h).current hquiet

/-- A switch in the middle of a disconnect writes the pointer before the session is taken out. -/
theorem run_current_attached :
    Timely (two (.attach "localhost:8180" seed none) (.set_current_session (some ⟨7, 1⟩))) .start
        (turns 0 6 ++ turns 1 1 ++ turns 2 3 ++ turns 1 1 ++ turns 2 2) ∧
      Current (run (two (.attach "localhost:8180" seed none)
        (.set_current_session (some ⟨7, 1⟩))) .start
          (turns 0 6 ++ turns 1 1 ++ turns 2 3 ++ turns 1 1 ++ turns 2 2)).manager := by
  have htimely : Timely (two (.attach "localhost:8180" seed none)
      (.set_current_session (some ⟨7, 1⟩))) .start
        (turns 0 6 ++ turns 1 1 ++ turns 2 3 ++ turns 1 1 ++ turns 2 2) := by
    refine ⟨?_, ?_, ?_, ?_, ?_, ?_, ?_, ?_, ?_, ?_, ?_, ?_, ?_, trivial⟩
    all_goals
      intro id hid
      cases hid
    · exact Or.inl (by decide)
    · exact Or.inl (by decide)
  refine ⟨htimely, run_current _ _ htimely fun c => ?_⟩
  rcases c with - | - | - | c
  · decide
  · decide
  · decide
  · exact ⟨rfl, rfl⟩

/-- A switch finds its session alive, a disconnect of that session comes and goes, and then the
switch writes the pointer. -/
theorem switch_after_disconnect : ¬ ∀ requests steps, Quiet (run requests .start steps) →
    Current (run requests .start steps).manager := by
  intro h
  have hcurrent := h (two (.attach "localhost:8180" seed none)
    (.set_current_session (some ⟨7, 1⟩))) (turns 0 6 ++ turns 1 1 ++ turns 2 5 ++ turns 1 1)
  have hquiet : Quiet (run (two (.attach "localhost:8180" seed none)
      (.set_current_session (some ⟨7, 1⟩))) .start
        (turns 0 6 ++ turns 1 1 ++ turns 2 5 ++ turns 1 1)) := by
    intro c
    rcases c with - | - | - | c
    · decide
    · decide
    · decide
    · exact ⟨rfl, rfl⟩
  exact absurd (hcurrent hquiet ⟨7, 1⟩ (by decide)) (by decide)

end Runs

end JavaDebug.CurrentSessions
