import JavaDebug.ArmingWalks
import JavaDebug.RecordTerms
import JavaDebug.ScopedRequests

/-!
A stop point of a kind that takes no condition never has one. Arming a monitor
drops the condition that was asked for, an update of one is not written to its
record, and no other operation writes conditions; so this holds wherever a run
leads, and a hit on a monitor stop is filtered by its threshold alone.
-/
namespace JavaDebug.UnconditionalMonitors

open Jdwp StopPoints Wire
open Arming Rearming StateProgram Runs
open Waning RecordTerms ScopedRequests ArmingWalks

/-- No stop point has a condition that its kind does not take. -/
def Unconditional (w : World) : Prop :=
  ∀ sp ∈ w.session.stop_points.rows, sp.kind.takes_condition = false → sp.condition = none

variable {w w' : World} {α : Type}

section Frames

theorem Unconditional.wanes (h : Unconditional w) (hw : Wanes w w') : Unconditional w' := by
  intro sp' hsp' hk
  obtain ⟨sp, hsp, hr⟩ := hw.stop_points sp' hsp'
  rw [hr.kind] at hk
  exact (hr.condition hk).trans (h sp hsp hk)

theorem Unconditional.of_roster (h : Unconditional w) (hr : roster w' = roster w) :
    Unconditional w' := by
  intro sp' hsp' hk
  obtain ⟨sp, hsp, -, hterms⟩ := member_of_roster hr hsp'
  have hkind : sp.kind = sp'.kind := congrArg Terms.kind hterms
  have hcondition : sp.condition = sp'.condition := congrArg Terms.condition hterms
  rw [← hcondition]
  exact h sp hsp (by rw [hkind]; exact hk)

variable {m : Handler α}

theorem uncond_wanes (h : Leads Wanes m) : Preserves Unconditional m :=
  fun w hw => hw.wanes (h w)

theorem uncond_keeps (h : Keeps roster m) : Preserves Unconditional m :=
  fun w hw => hw.of_roster (h w)

theorem uncond_talks (h : Talks m) : Preserves Unconditional m :=
  uncond_keeps (talks_roster h)

theorem uncond_records (w : World) : Unconditional w ↔
    Records (fun sp => sp.kind.takes_condition = false → sp.condition = none) (fun _ => True) w :=
  ⟨fun h => ⟨h, fun _ _ => trivial, fun _ _ => trivial⟩, fun h => h.stop_points⟩

theorem uncond_survives : Survives
    (fun sp => sp.kind.takes_condition = false → sp.condition = none) (fun _ => True)
    Unconditional :=
  (records_survive fun _ _ _ _ hk => by cases hk).of_iff uncond_records

theorem uncond_class_load (es : EventSet) :
    Preserves Unconditional (try_arm_deferred_breakpoints es) := by
  intro w hw
  unfold try_arm_deferred_breakpoints
  split
  · exact hw
  rename_i cp_thread cp_ref cp_sig _
  have hend := uncond_survives.class_prepared
    (fun p (_ : p ∈ w.session.pending_breakpoints.filter fun p => decide (p.signature = cp_sig)) =>
      trivial)
    (uncond_keeps (later_copies_roster cp_ref cp_sig)) w hw
  simp only [run_bind, run_get] at hend ⊢
  exact uncond_talks (perform_talks _ _) _ hend

end Frames

section Runs

theorem uncond_update (id : StopId) (condition : FieldEdit String) (hit_count : FieldEdit ℕ) :
    Preserves Unconditional (handle_update_stop_point id condition hit_count) :=
  update_preserves (fun ids => uncond_wanes (apply_edits_wanes ids condition hit_count))
    (fun m => uncond_keeps (disable_roster m)) fun m _ => uncond_keeps (rearm_roster m)

theorem uncond_call (c : Call) : Preserves Unconditional c.run := by
  by_cases hc : Call.arms_nothing c = true
  · exact uncond_wanes (call_wanes hc)
  cases c with
  | set_line_stop patterns line method o index cap =>
    exact uncond_survives.set_line_stop _ _ _ _ _ trivial
  | set_exception_stop targets caught uncaught o cap =>
    exact Preserves.bind (uncond_survives.set_exception_stop _ _ _ _ fun _ _ _ hk => by cases hk)
      fun _ => Preserves.pure _
  | set_field_stop targets field_name kinds o cap =>
    exact uncond_survives.set_field_stop _ _ _ _ fun _ _ _ hk => by cases hk
  | set_method_exit_stop patterns method ret exclude o =>
    exact uncond_survives.set_method_exit_stop _ _ _ fun _ _ _ hk => by cases hk
  | set_monitor_stop kinds arm o =>
    -- the condition that a caller asks for is dropped
    refine Preserves.bind (Preserves.get_bind fun w _ => ?_) fun _ => Preserves.pure _
    split
    · exact uncond_survives.monitor_kinds _ (fun _ _ _ _ _ => rfl) _ _
    · exact Preserves.pure _
  | toggle_stop_point id enabled =>
    exact Preserves.bind (uncond_keeps (toggle_roster id enabled)) fun _ => Preserves.pure _
  | update_stop_point id condition hit_count =>
    exact Preserves.bind (uncond_update id condition hit_count) fun _ => Preserves.pure _
  | _ => exact absurd rfl hc

theorem uncond_start (threads : List ThreadId) (a : Answers) :
    Unconditional (World.start threads a) := fun _ h => by cases h

end Runs

end JavaDebug.UnconditionalMonitors
