import Vaux.Client.CarryOver
import Vaux.Client.Consumers

/-!
# The calls of a task

A turn of the task makes one call of its session or none.  What is known of the calls is known
of the task.
-/

namespace Vaux
namespace Client

open Wire Mqtt Machine

namespace Task

/-- The call that a turn makes. -/
def callOf (t : Task) : Turn → Option Call
  | .keepAlive ok => some (.write (.pingRequest .default) ok)
  | .read (.packet packet) ok => some (.handle packet ok)
  | .outbound packet ok =>
    if qosControl packet && t.session.autoAck then none else some (.write packet ok)
  | _ => none

/-- What the task has from a call. -/
structure Called (t : Task) (call : Call) (t' : Task) : Prop where
  running : t.result = none
  step : t.session.step call = some t'.session
  succeeds : t'.result = none → ∃ out, (t.session.perform call).result = .ok out

section

variable {t t' : Task} {turn : Turn} {call : Call}

theorem sends_of_callOf (h : t.callOf turn = some call) :
    t.sends turn = (t.session.perform call).sent := by
  cases turn with
  | keepAlive ok =>
      cases h
      rfl
  | read r ok =>
      cases r with
      | packet packet =>
          cases h
          rfl
      | _ => cases h
  | outbound packet ok =>
      simp only [callOf] at h
      split at h
      · cases h
      · rename_i hcontrol
        cases h
        simp only [sends, if_neg hcontrol]
        rfl
  | _ => cases h

theorem sends_of_callOf_none (h : t.callOf turn = none) : t.sends turn = [] := by
  cases turn with
  | keepAlive ok => cases h
  | read r ok =>
      cases r with
      | packet packet => cases h
      | _ => rfl
  | outbound packet ok =>
      simp only [callOf] at h
      split at h
      · rename_i hcontrol
        simp only [sends, if_pos hcontrol]
      · cases h
  | _ => rfl

theorem session_checkConnected (t : Task) : t.checkConnected.session = t.session := by
  unfold checkConnected
  split <;> rfl

theorem session_handOut (t : Task) (packet : Packet) : (t.handOut packet).session = t.session := by
  cases handed_handOut t packet with
  | enqueued consumer _ heq => rw [heq]; rfl
  | held heq => rw [heq]
  | lost _ heq => rw [heq]; rfl

/-- What `write` has from its reply. -/
theorem called_of_write (hresult : t.result = none) (h : t.write (t.session.perform call) = some t') :
    t.Called call t' := by
  obtain ⟨⟨t₁, out⟩, happly, rfl⟩ := Option.map_eq_some_iff.mp h
  simp only [apply] at happly
  split at happly
  · rename_i out' hout
    cases happly
    refine ⟨hresult, ?_, fun _ => ⟨out', hout⟩⟩
    rw [session_checkConnected]
    exact ClientSession.step_eq_some.mpr ⟨fun hpanic => (by cases hout.symm.trans hpanic), rfl⟩
  · rename_i e herr
    cases happly
    refine ⟨hresult, ?_, fun hruns => (by cases hruns)⟩
    exact ClientSession.step_eq_some.mpr ⟨fun hpanic => (by cases herr.symm.trans hpanic), rfl⟩
  · cases happly

theorem called_of_readNext {packet : Packet} {ok : Bool} (hresult : t.result = none)
    (h : t.readNext (.packet packet) ok = some t') : t.Called (.handle packet ok) t' := by
  have hstep : ∀ {r}, (t.session.handlePacket ok packet).result = r → r ≠ .panic →
      t.session.step (.handle packet ok) = some (t.session.handlePacket ok packet).session :=
    fun hr hne => ClientSession.step_eq_some.mpr ⟨fun hpanic => hne (hr.symm.trans hpanic), rfl⟩
  simp only [readNext, apply] at h
  split at h
  · rename_i out hout
    cases out with
    | some out =>
        cases h
        refine ⟨hresult, ?_, fun _ => ⟨some out, hout⟩⟩
        rw [session_handOut]
        exact hstep hout fun hpanic => (by cases hpanic)
    | none =>
        cases h
        exact ⟨hresult, hstep hout fun hpanic => (by cases hpanic), fun _ => ⟨none, hout⟩⟩
  · rename_i e herr
    cases h
    exact ⟨hresult, hstep herr fun hpanic => (by cases hpanic), fun hruns => (by cases hruns)⟩
  · cases h

theorem Called.checkConnected (h : t.Called call t') : t.Called call t'.checkConnected := by
  refine ⟨h.running, ?_, fun hruns => h.succeeds (result_checkConnected hruns)⟩
  rw [session_checkConnected]
  exact h.step

theorem select_of_callOf (h : t.step turn = some t') (hcall : t.callOf turn = some call) :
    t.result = none ∧ t.select turn = some t' := by
  cases turn with
  | keepAlive | read | outbound =>
      simp only [step] at h
      split at h
      · rename_i hresult
        exact ⟨Option.isNone_iff_eq_none.mp hresult, h⟩
      · cases h
  | _ => cases hcall

theorem called_of_step (h : t.step turn = some t') (hcall : t.callOf turn = some call) :
    t.Called call t' := by
  obtain ⟨hresult, hselect⟩ := select_of_callOf h hcall
  cases turn with
  | keepAlive ok =>
      cases hcall
      exact called_of_write hresult hselect
  | read r ok =>
      cases r with
      | packet packet =>
          cases hcall
          simp only [select] at hselect
          split at hselect
          · obtain ⟨t₁, hread, rfl⟩ := Option.map_eq_some_iff.mp hselect
            exact (called_of_readNext hresult hread).checkConnected
          · cases hselect
      | _ => cases hcall
  | outbound packet ok =>
      simp only [callOf] at hcall
      simp only [select] at hselect
      split at hcall
      · cases hcall
      · rename_i hcontrol
        cases hcall
        rw [if_neg hcontrol] at hselect
        exact called_of_write hresult hselect
  | _ => cases hcall

theorem session_forwardPending (h : t.forwardPending = some t') : t'.session = t.session := by
  unfold forwardPending at h
  split at h
  · cases h
  · simp only at h
    split at h
    · cases h
      rfl
    · cases h
    · cases h
      rfl

/-- Without a call the session stays as it is. -/
theorem session_of_step (h : t.step turn = some t') (hcall : t.callOf turn = none) :
    t'.session = t.session := by
  rcases step_cases h with hothers | ⟨-, hselect⟩
  · exact hothers.session
  · cases turn with
    | keepAlive ok => cases hcall
    | forward =>
        obtain ⟨t₁, hforward, rfl⟩ := Option.map_eq_some_iff.mp hselect
        exact (session_checkConnected t₁).trans (session_forwardPending hforward)
    | read r ok =>
        cases r with
        | packet packet => cases hcall
        | closed | error =>
            simp only [select] at hselect
            split at hselect
            · obtain ⟨t₁, hread, rfl⟩ := Option.map_eq_some_iff.mp hselect
              cases hread
              exact session_checkConnected _
            · cases hselect
    | outbound packet ok =>
        simp only [callOf] at hcall
        simp only [select] at hselect
        split at hcall
        · rename_i hcontrol
          rw [if_pos hcontrol] at hselect
          cases hselect
          rfl
        · cases hcall
    | outboundClosed =>
        cases hselect
        rfl
    | _ => cases hselect

/-- A task that has returned does nothing any more. -/
theorem result_of_step (h : t.step turn = some t') (hresult : t.result ≠ none) :
    t'.result ≠ none := by
  rcases step_cases h with hothers | ⟨hrunning, -⟩
  · exact hothers.result ▸ hresult
  · exact absurd hrunning hresult

theorem autoAck_of_step (h : t.step turn = some t') : t'.session.autoAck = t.session.autoAck := by
  cases hcall : t.callOf turn with
  | none => rw [session_of_step h hcall]
  | some call => exact ClientSession.autoAck_step (called_of_step h hcall).step

end

end Task

end Client
end Vaux
