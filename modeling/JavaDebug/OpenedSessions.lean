import JavaDebug.SessionCalls

/-!
What an attach or a launch leaves behind, and on which session. Ids are never
issued twice, an opening call edits the session of the id it was given, and a
call that holds somebody else's guard is the only one that can miss: a launch
looks its session up once more, by its arguments, to keep the child on.
-/
namespace JavaDebug.OpenedSessions

open SessionCalls

section Steps

def Request.opens : Request → Bool
  | .attach _ _ _ | .launch _ _ _ _ _ => true
  | _ => false

/-- The stages of an attach and of a launch. -/
def Stage.opening : Stage → Bool
  | .named _ | .locked _ | .released _ | .removed _ | .selected _ => false
  | _ => true

def Request.child : Request → Option LaunchedJvm
  | .launch _ _ _ jvm _ => some jvm
  | _ => none

def Request.suspends : Request → Bool
  | .launch _ _ _ _ suspend => suspend
  | _ => false

/-- Why a call at `st` may edit the session `target` by `f`. -/
inductive Edits (r : Request) (x : Outside) (target : SessionId) :
    Stage → (DebugSession → DebugSession) → Prop
  | start_tasks : Edits r x target (.guarded target) (start_tasks target)
  | stop_own : Edits r x target (.vanished target) SessionManager.stop_tasks
  | stop_named : Edits r x target (.released target) SessionManager.stop_tasks
  | let_go : Edits r x target (.locked target) let_go
  | hold_child (id : SessionId) {jvm : LaunchedJvm} (h : Request.child r = some jvm) :
    Edits r x target (.resolved id target) (hold_child jvm (Request.suspends r) x.now)

/-- All that one step of a call can do to the session objects. -/
inductive Effect (r : Request) (x : Outside) (m m' : SessionManager) (st st' : Stage) : Prop
  | keeps (objects : m'.objects = m.objects) (counter : m'.counter = m.counter)
    (created : st'.created = st.created)
  | makes (session : DebugSession) (new : ∃ endpoint seed, session = .new endpoint seed)
    (objects : m'.objects = Function.update m.objects (m.next_id x.timestamp) (some session))
    (counter : m'.counter = m.counter + 1) (before : st.created = none)
    (created : st'.created = some (m.next_id x.timestamp)) (opens : Request.opens r = true)
  | edits (target : SessionId) (f : DebugSession → DebugSession) (why : Edits r x target st f)
    (objects : m'.objects = Function.update m.objects target ((m.objects target).map f))
    (counter : m'.counter = m.counter) (created : st'.created = st.created)

theorem begin_effect (m : SessionManager) (x : Outside) (r : Request) :
    Effect r x m (begin_call m x r).1 .start (begin_call m x r).2 := by
  cases r with
  | attach endpoint seed session_id =>
    simp only [begin_call]
    split
    · exact .makes _ ⟨endpoint, seed, rfl⟩ rfl rfl rfl rfl rfl
    · exact .keeps rfl rfl rfl
  | launch port seed session_id jvm suspend =>
    simp only [begin_call]
    split
    · exact .makes _ ⟨_, seed, rfl⟩ rfl rfl rfl rfl rfl
    · exact .keeps rfl rfl rfl
  | disconnect session_id =>
    simp only [begin_call]
    split <;> exact .keeps rfl rfl rfl
  | set_current_session session_id =>
    simp only [begin_call]
    split
    · split <;> exact .keeps rfl rfl rfl
    · exact .keeps rfl rfl rfl

variable {r : Request} {x : Outside} {st : Stage}

theorem unregister_effect {st' : Stage} {id : SessionId}
    (why : Edits r x id st SessionManager.stop_tasks) (hcreated : st'.created = st.created)
    (m : SessionManager) : Effect r x m (m.unregister id) st st' := by
  unfold SessionManager.unregister
  split
  · exact .edits id _ why rfl rfl hcreated
  · exact .keeps rfl rfl hcreated

theorem clear_effect {st' : Stage} (id : SessionId) (hcreated : st'.created = st.created)
    (m : SessionManager) : Effect r x m (m.clear_current id) st st' := by
  unfold SessionManager.clear_current
  split <;> exact .keeps rfl rfl hcreated

theorem advance_effect (m : SessionManager) (x : Outside) (r : Request) (st : Stage) :
    Effect r x m (advance m x r st).1 st (advance m x r st).2 := by
  cases st with
  | start => exact begin_effect m x r
  | registered id => exact .keeps rfl rfl rfl
  | current id =>
    simp only [advance]
    split <;> exact .keeps rfl rfl rfl
  | guarded id => exact .edits id _ .start_tasks rfl rfl rfl
  | vanished id => exact unregister_effect .stop_own (by rfl) m
  | unregistered id => exact clear_effect id (by rfl) m
  | opened id =>
    simp only [advance]
    unfold after_open
    split
    · split <;> exact .keeps rfl rfl rfl
    · exact .keeps rfl rfl rfl
  | resolved id guard =>
    cases r with
    | launch port seed session_id jvm suspend =>
      exact .edits guard _ (.hold_child id rfl) rfl rfl rfl
    | attach _ _ _ | disconnect _ | set_current_session _ => exact .keeps rfl rfl rfl
  | named target =>
    simp only [advance]
    split <;> exact .keeps rfl rfl rfl
  | locked target => exact .edits target _ .let_go rfl rfl rfl
  | released target => exact unregister_effect .stop_named (by rfl) m
  | removed target => exact clear_effect target (by rfl) m
  | selected target => exact .keeps rfl rfl rfl
  | returned id => exact .keeps rfl rfl rfl

theorem advance_opening {m : SessionManager} (hr : Request.opens r = true)
    (hst : Stage.opening st = true) : Stage.opening (advance m x r st).2 = true := by
  cases st with
  | start =>
    cases r with
    | attach _ _ _ | launch _ _ _ _ _ =>
      simp only [advance, begin_call]
      split <;> rfl
    | disconnect _ | set_current_session _ => cases hr
  | current id =>
    simp only [advance]
    split <;> rfl
  | opened id =>
    simp only [advance]
    unfold after_open
    split
    · split <;> rfl
    · rfl
  | registered _ | guarded _ | vanished _ | unregistered _ | resolved _ _ | returned _ => rfl
  | named _ | locked _ | released _ | removed _ | selected _ => cases hst

end Steps

section Placement

variable {requests : ℕ → Request} {s : Server} {c : ℕ} {x : Outside}

/-- What the session `id` holds belongs to the call that opened it. -/
structure Fits (requests : ℕ → Request) (s : Server) (id : SessionId) (session : DebugSession) :
    Prop where
  pump : ∀ j, session.event_listener_task = some j → j = id
  watchdog : ∀ j, session.watchdog_task = some j → j = id
  child : ∀ jvm, session.launched = some jvm →
    ∃ c, (s.stages c).created = some id ∧ Request.child (requests c) = some jvm
  held : session.suspensions.vm.isSome →
    ∃ c, (s.stages c).created = some id ∧ Request.suspends (requests c) = true

/-- Every task, child and suspension stands on the session of the call that it belongs to. -/
def Placed (requests : ℕ → Request) (s : Server) : Prop :=
  ∀ id session, s.manager.objects id = some session → Fits requests s id session

/-- No step of an attach or a launch changes the session of another call. -/
def Confined (requests : ℕ → Request) (s : Server) (c : ℕ) (x : Outside) : Prop :=
  Request.opens (requests c) = true → ∀ id,
    ((step requests s c x).stages c).created ≠ some id →
      (step requests s c x).manager.objects id = s.manager.objects id

/-- A launch that looks for its session finds it, or none. -/
def Aimed (s : Server) (id : SessionId) : Request → Prop
  | .launch _ _ session_id _ _ =>
    ∀ guard, s.manager.resolve_session session_id = some guard → guard = id
  | _ => True

/-- The condition on one step of call `c`. -/
def Meets (requests : ℕ → Request) (s : Server) (c : ℕ) : Prop :=
  ∀ id, s.stages c = .opened id → Aimed s id (requests c)

/-- What is kept besides: ids are issued once and in order, a launch holds its own guard, and an
opening call is at one of its stages. -/
structure Sound (requests : ℕ → Request) (s : Server) : Prop where
  placed : Placed requests s
  fresh : ∀ id, s.manager.counter ≤ id.counter → s.manager.objects id = none
  issued : ∀ c id, (s.stages c).created = some id → id.counter < s.manager.counter
  once : ∀ c d id, (s.stages c).created = some id → (s.stages d).created = some id → c = d
  aimed : ∀ c id guard, s.stages c = .resolved id guard → guard = id
  opening : ∀ c, Request.opens (requests c) = true → Stage.opening (s.stages c) = true

theorem start_sound (requests : ℕ → Request) : Sound requests Server.start := by
  refine ⟨?_, fun _ _ => rfl, ?_, ?_, ?_, fun _ _ => rfl⟩
  · intro id session h
    cases h
  · intro c id h
    cases h
  · intro c d id h
    cases h
  · intro c id guard h
    cases h

theorem stages_self : (step requests s c x).stages c =
    (advance s.manager x (requests c) (s.stages c)).2 := by
  simp [step]

theorem stages_other {d : ℕ} (h : d ≠ c) : (step requests s c x).stages d = s.stages d := by
  simp [step, h]

variable {id : SessionId}

/-- A call that goes on keeps the session it has opened, and the others keep theirs. -/
theorem created_step (requests : ℕ → Request) (s : Server) (c : ℕ) (x : Outside) {d : ℕ}
    (h : (s.stages d).created = some id) : ((step requests s c x).stages d).created = some id := by
  by_cases hd : d = c
  · subst hd
    rw [stages_self]
    cases advance_effect s.manager x (requests d) (s.stages d) with
    | keeps _ _ created => rwa [created]
    | makes _ _ _ _ before _ _ =>
      rw [before] at h
      cases h
    | edits _ _ _ _ _ created => rwa [created]
  · rwa [stages_other hd]

theorem Fits.later {s' : Server} {session : DebugSession} (h : Fits requests s id session)
    (hlater : ∀ d j, (s.stages d).created = some j → (s'.stages d).created = some j) :
    Fits requests s' id session := by
  refine ⟨h.pump, h.watchdog, fun jvm hjvm => ?_, fun hvm => ?_⟩
  · obtain ⟨d, hd, hchild⟩ := h.child jvm hjvm
    exact ⟨d, hlater d id hd, hchild⟩
  · obtain ⟨d, hd, hsuspends⟩ := h.held hvm
    exact ⟨d, hlater d id hd, hsuspends⟩

theorem new_fits (id : SessionId) (endpoint : String) (seed : SessionSeed) :
    Fits requests s id (.new endpoint seed) := by
  refine ⟨?_, ?_, ?_, ?_⟩
  · intro j h
    cases h
  · intro j h
    cases h
  · intro jvm h
    cases h
  · intro h
    cases h

/-- An edit leaves a session with what belongs to it, where a launch holds its own guard. -/
theorem edit_fits {target : SessionId} {f : DebugSession → DebugSession} {session : DebugSession}
    (hs : Sound requests s) (why : Edits (requests c) x target (s.stages c) f)
    (h : Fits requests s target session) : Fits requests s target (f session) := by
  generalize hst : s.stages c = st at why
  cases why with
  | start_tasks =>
    exact ⟨fun j hj => (Option.some.inj hj).symm, fun j hj => (Option.some.inj hj).symm, h.child,
      h.held⟩
  | stop_own | stop_named =>
    refine ⟨?_, ?_, h.child, h.held⟩
    · intro j hj
      cases hj
    · intro j hj
      cases hj
  | let_go =>
    refine ⟨h.pump, h.watchdog, ?_, ?_⟩
    · intro jvm hjvm
      cases hjvm
    · intro hvm
      cases hvm
  | hold_child id hchild =>
    rename_i jvm
    have hown : (s.stages c).created = some target := by
      rw [hst, hs.aimed c id target hst]
      rfl
    refine ⟨h.pump, h.watchdog, fun jvm' hjvm => ⟨c, hown, ?_⟩, fun hvm => ?_⟩
    · rw [hchild]
      exact hjvm
    · cases hsuspends : Request.suspends (requests c) with
      | true => exact ⟨c, hown, hsuspends⟩
      | false =>
        rw [hold_child, hsuspends] at hvm
        exact h.held hvm

theorem step_placed (hs : Sound requests s) (c : ℕ) (x : Outside) :
    Placed requests (step requests s c x) := by
  intro id session hsession
  have hlater : ∀ d j, (s.stages d).created = some j →
      ((step requests s c x).stages d).created = some j := fun d j =>
    created_step requests s c x
  change (advance s.manager x (requests c) (s.stages c)).1.objects id = some session at hsession
  cases advance_effect s.manager x (requests c) (s.stages c) with
  | keeps objects _ _ =>
    rw [objects] at hsession
    exact (hs.placed id session hsession).later hlater
  | makes new hnew objects _ _ _ _ =>
    rw [objects] at hsession
    by_cases hid : id = s.manager.next_id x.timestamp
    · obtain ⟨endpoint, seed, rfl⟩ := hnew
      rw [hid, Function.update_self, Option.some.injEq] at hsession
      subst hsession
      exact new_fits id endpoint seed
    · rw [Function.update_of_ne hid] at hsession
      exact (hs.placed id session hsession).later hlater
  | edits target f why objects _ _ =>
    rw [objects] at hsession
    by_cases hid : id = target
    · subst hid
      rw [Function.update_self] at hsession
      obtain ⟨before, hbefore, rfl⟩ := Option.map_eq_some_iff.mp hsession
      exact (edit_fits hs why (hs.placed id before hbefore)).later hlater
    · rw [Function.update_of_ne hid] at hsession
      exact (hs.placed id session hsession).later hlater

theorem resolved_aimed {guard : SessionId} (hmeets : Meets requests s c)
    (h : (advance s.manager x (requests c) (s.stages c)).2 = .resolved id guard) : guard = id := by
  generalize hst : s.stages c = st at h
  cases st with
  | opened j =>
    have haimed := hmeets j hst
    generalize requests c = r at h haimed
    cases r with
    | launch port seed session_id jvm suspend =>
      simp only [advance, after_open] at h
      split at h
      · rename_i found hfound
        cases h
        exact haimed guard hfound
      · cases h
    | attach _ _ _ | disconnect _ | set_current_session _ => cases h
  | start =>
    generalize requests c = r at h
    cases r with
    | attach _ _ _ | launch _ _ _ _ _ =>
      simp only [advance, begin_call] at h
      split at h <;> cases h
    | disconnect session_id =>
      simp only [advance, begin_call] at h
      split at h <;> cases h
    | set_current_session session_id =>
      simp only [advance, begin_call] at h
      split at h
      · split at h <;> cases h
      · cases h
  | current j | named j =>
    simp only [advance] at h
    split at h <;> cases h
  | registered _ | guarded _ | vanished _ | unregistered _ | resolved _ _ | locked _ | released _
  | removed _ | selected _ | returned _ => cases h

theorem step_sound (hs : Sound requests s) (hmeets : Meets requests s c) (x : Outside) :
    Sound requests (step requests s c x) := by
  have hstep : (step requests s c x).manager =
      (advance s.manager x (requests c) (s.stages c)).1 := rfl
  refine ⟨step_placed hs c x, ?_, ?_, ?_, fun d id guard hd => ?_, fun d hd => ?_⟩
  · intro id hid
    rw [hstep] at hid ⊢
    cases advance_effect s.manager x (requests c) (s.stages c) with
    | keeps objects counter _ =>
      rw [objects]
      exact hs.fresh id (counter ▸ hid)
    | makes _ _ objects counter _ _ _ =>
      rw [counter] at hid
      have hne : id ≠ s.manager.next_id x.timestamp := fun heq => by
        rw [heq] at hid
        exact absurd hid (Nat.not_succ_le_self _)
      rw [objects, Function.update_of_ne hne]
      exact hs.fresh id (Nat.le_of_succ_le hid)
    | edits target f _ objects counter _ =>
      have hnone := hs.fresh id (counter ▸ hid)
      rw [objects]
      by_cases heq : id = target
      · subst heq
        rw [Function.update_self, hnone]
        rfl
      · rw [Function.update_of_ne heq]
        exact hnone
  · intro d id hd
    rw [hstep]
    cases advance_effect s.manager x (requests c) (s.stages c) with
    | keeps _ counter created | edits _ _ _ _ counter created =>
      rw [counter]
      by_cases hdc : d = c
      · subst hdc
        rw [stages_self, created] at hd
        exact hs.issued d id hd
      · rw [stages_other hdc] at hd
        exact hs.issued d id hd
    | makes _ _ _ counter _ created _ =>
      rw [counter]
      by_cases hdc : d = c
      · subst hdc
        rw [stages_self, created] at hd
        rw [← Option.some.inj hd]
        exact Nat.lt_succ_self _
      · rw [stages_other hdc] at hd
        exact Nat.lt_succ_of_lt (hs.issued d id hd)
  · have hold : ∀ d id, ((step requests s c x).stages d).created = some id →
        (s.stages d).created = some id ∨ d = c ∧ id.counter = s.manager.counter := by
      intro d id hd
      by_cases hdc : d = c
      · subst hdc
        rw [stages_self] at hd
        cases advance_effect s.manager x (requests d) (s.stages d) with
        | keeps _ _ created | edits _ _ _ _ _ created => exact Or.inl (created ▸ hd)
        | makes _ _ _ _ _ created _ =>
          rw [created] at hd
          exact Or.inr ⟨rfl, by rw [← Option.some.inj hd]; rfl⟩
      · rw [stages_other hdc] at hd
        exact Or.inl hd
    intro d e id hd he
    rcases hold d id hd with hd' | ⟨hd', hnew⟩ <;> rcases hold e id he with he' | ⟨he', hnew'⟩
    · exact hs.once d e id hd' he'
    · have := hs.issued d id hd'
      omega
    · have := hs.issued e id he'
      omega
    · rw [hd', he']
  · by_cases hdc : d = c
    · subst hdc
      rw [stages_self] at hd
      exact resolved_aimed hmeets hd
    · rw [stages_other hdc] at hd
      exact hs.aimed d id guard hd
  · by_cases hdc : d = c
    · subst hdc
      rw [stages_self]
      exact advance_opening hd (hs.opening d hd)
    · rw [stages_other hdc]
      exact hs.opening d hd

theorem step_confined (hs : Sound requests s) (c : ℕ) (x : Outside) : Confined requests s c x := by
  intro hopens id hne
  have hopening := hs.opening c hopens
  rw [stages_self] at hne
  change (advance s.manager x (requests c) (s.stages c)).1.objects id = s.manager.objects id
  cases advance_effect s.manager x (requests c) (s.stages c) with
  | keeps objects _ _ => rw [objects]
  | makes _ _ objects _ _ created _ =>
    rw [objects, Function.update_of_ne]
    intro heq
    exact hne (by rw [created, heq])
  | edits target f why objects _ created =>
    rw [objects, Function.update_of_ne]
    rintro rfl
    rw [created] at hne
    generalize hst : s.stages c = st at why hne hopening
    cases why with
    | start_tasks | stop_own => exact hne rfl
    | stop_named | let_go => cases hopening
    | hold_child j _ =>
      rw [hs.aimed c j id hst] at hne
      exact hne rfl

end Placement

section Runs

/-- The calls go on in this order, each step with what it finds outside. -/
def run (requests : ℕ → Request) (s : Server) (steps : List (ℕ × Outside)) : Server :=
  steps.foldl (fun s i => step requests s i.1 i.2) s

/-- Every step of the run meets the condition. -/
def Careful (requests : ℕ → Request) : Server → List (ℕ × Outside) → Prop
  | _, [] => True
  | s, i :: rest => Meets requests s i.1 ∧ Careful requests (step requests s i.1 i.2) rest

theorem run_sound {requests : ℕ → Request} {s : Server} (hs : Sound requests s)
    {steps : List (ℕ × Outside)} (h : Careful requests s steps) :
    Sound requests (run requests s steps) := by
  induction steps generalizing s with
  | nil => exact hs
  | cons i rest ih => exact ih (step_sound hs h.1 i.2) h.2

/-- Where no launch resolves to a session it did not open, everything an attach or a launch stores
stands on its own session, only one call has opened that, and no other session is changed. -/
theorem run_placed (requests : ℕ → Request) (steps : List (ℕ × Outside))
    (h : Careful requests .start steps) :
    Placed requests (run requests .start steps) ∧
    (∀ c d id, ((run requests .start steps).stages c).created = some id →
      ((run requests .start steps).stages d).created = some id → c = d) ∧
    ∀ c x, Confined requests (run requests .start steps) c x := by
  have hs := run_sound (start_sound requests) h
  exact ⟨hs.placed, hs.once, fun c x => step_confined hs c x⟩

/-- A server to which `first` is sent, then `second`, then nothing but disconnects. -/
def two (first second : Request) : ℕ → Request
  | 0 => first
  | 1 => second
  | _ => .disconnect none

def seed : SessionSeed := ⟨false, [], [], [], none, none⟩

def child : LaunchedJvm := ⟨some 4711, "java -cp app Main", false⟩

/-- Call `c` goes on `n` times, and nothing fails. -/
def turns (c n : ℕ) : List (ℕ × Outside) := List.replicate n (c, ⟨0, 7, true, false⟩)

theorem run_placed_launch :
    ((run (two (.launch 5005 seed none child true) (.disconnect none)) .start
      (turns 0 7)).stages 0).created = some ⟨7, 1⟩ ∧
    Placed (two (.launch 5005 seed none child true) (.disconnect none))
      (run (two (.launch 5005 seed none child true) (.disconnect none)) .start (turns 0 7)) := by
  refine ⟨by decide, (run_placed _ _ ?_).1⟩
  refine ⟨?_, ?_, ?_, ?_, ?_, ?_, ?_, trivial⟩
  all_goals
    intro id hid
    cases hid
  intro guard hguard
  cases hguard
  rfl

/-- An attach, and then a launch that names the attached session. -/
def renamed : ℕ → Request :=
  two (.attach "localhost:8180" seed none) (.launch 5005 seed (some ⟨7, 1⟩) child true)

/-- The child is kept on the attached session, which is marked as held. -/
theorem launch_strays : ¬ ∀ requests steps, Placed requests (run requests .start steps) := by
  intro h
  have hplaced := h renamed (turns 0 6 ++ turns 1 7)
  have hstored : ((run renamed .start (turns 0 6 ++ turns 1 7)).manager.objects ⟨7, 1⟩).map
      DebugSession.launched = some (some child) := by decide
  obtain ⟨session, hsession, hlaunched⟩ := Option.map_eq_some_iff.mp hstored
  obtain ⟨c, hcreated, hchild⟩ := (hplaced _ session hsession).child child hlaunched
  have hother : ((run renamed .start (turns 0 6 ++ turns 1 7)).stages 1).created =
      some ⟨7, 2⟩ := by decide
  rcases c with - | - | c
  · cases hchild
  · rw [hother] at hcreated
    cases hcreated
  · cases hchild

end Runs

end JavaDebug.OpenedSessions
