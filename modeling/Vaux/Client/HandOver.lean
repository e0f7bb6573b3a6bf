import Vaux.Client.Session

/-!
# What is handed to the consumer

With `auto_ack` every QoS 2 PUBLISH whose PUBREC is written goes to the consumer, whether
or not its identifier is already waiting for the PUBREL.
-/

namespace Vaux
namespace Client

open Wire Mqtt Machine

/-- A QoS 2 PUBLISH with the identifier comes in. -/
def Call.publishes (packetId : UInt16) : Call → Bool
  | .handle (.publish p) _ => p.qos = .ok .exactlyOnce && p.packetId = some packetId
  | _ => false

namespace ClientSession

/-- The call passes the PUBLISH on to the consumer. -/
def handsOver (self : ClientSession) (packetId : UInt16) (call : Call) : Bool :=
  match call with
  | .handle packet ok =>
    call.publishes packetId && (self.handlePacket ok packet).result = .ok (some packet)
  | .write .. => false

/-- How often the calls hand over a QoS 2 PUBLISH with the identifier. -/
def handOvers (self : ClientSession) (packetId : UInt16) : List Call → Nat
  | [] => 0
  | call :: calls =>
    (if self.handsOver packetId call then 1 else 0) +
      match self.step call with
      | none => 0
      | some session => session.handOvers packetId calls

/-- The call is answered with a PUBREC. -/
def answers (self : ClientSession) (packetId : UInt16) (call : Call) : Prop :=
  call.ok = true ∧ .pubRec (.newWithPacketId .pubRec packetId) ∈ (self.perform call).sent

end ClientSession

/-- From its first PUBLISH on a message is handed over once, and every repetition is
answered with a PUBREC. -/
def ExactlyOnce (s : ClientSession) (packetId : UInt16) (first : Call) (more : List Call) : Prop :=
  s.handOvers packetId (first :: more) = 1 ∧ ∀ s₁, s.step first = some s₁ →
    Along ClientSession.step
      (fun s call => call.publishes packetId = true → s.answers packetId call) s₁ more

/-- There is no repetition, or there is one and the PUBREC for the first PUBLISH could not
be written. -/
def Unrepeated (packetId : UInt16) (first : Call) (more : List Call) : Prop :=
  if first.ok then more.filter (·.publishes packetId) = []
  else ∃ again, more.filter (·.publishes packetId) = [again] ∧ again.ok = true

namespace ClientSession

section

variable {s s' : ClientSession} {packetId : UInt16} {call : Call}

/-- What a QoS 2 PUBLISH comes to. -/
theorem publishes_spec (hauto : s.autoAck = true) (hcall : call.publishes packetId = true) :
    s.handsOver packetId call = call.ok ∧
      .pubRec (.newWithPacketId .pubRec packetId) ∈ (s.perform call).sent := by
  obtain ⟨p, ok, rfl⟩ : ∃ p ok, call = .handle (.publish p) ok := by
    cases call with
    | write packet ok => cases hcall
    | handle packet ok =>
        cases packet with
        | publish p => exact ⟨p, ok, rfl⟩
        | _ => cases hcall
  have hcall' := hcall
  simp only [Call.publishes, Bool.and_eq_true, decide_eq_true_eq] at hcall'
  have hreply : s.handlePacket ok (.publish p) = passOn (s.recvQos2 ok p packetId) (.publish p) := by
    simp only [handlePacket, handleRecvPublish, hcall'.1, hcall'.2]
  simp only [handsOver, perform, hcall, hreply, recvQos2_eq, hauto, if_true, passOn, Bool.true_and]
  cases ok <;> simp [Call.ok]

/-- Only a PUBLISH with the identifier is handed over as one. -/
theorem publishes_of_handsOver (h : s.handsOver packetId call = true) :
    call.publishes packetId = true := by
  cases call with
  | write packet ok => cases h
  | handle packet ok => exact (Bool.and_eq_true _ _ ▸ h).1

/-- Every PUBLISH whose PUBREC is written is handed over. -/
theorem handOvers_eq (hauto : s.autoAck = true) {calls : List Call}
    (hrun : run step s calls = some s') :
    s.handOvers packetId calls =
      (calls.filter fun call => call.publishes packetId && call.ok).length := by
  induction calls generalizing s with
  | nil => rfl
  | cons call calls ih =>
      obtain ⟨s₁, hstep, hrest⟩ := run_cons_eq_some.mp hrun
      have hrest' := ih ((autoAck_step hstep).trans hauto) hrest
      simp only [handOvers, hstep, hrest']
      cases hcall : call.publishes packetId with
      | true =>
          rw [(publishes_spec hauto hcall).1]
          cases hok : call.ok <;> simp [hcall, hok, Nat.add_comm]
      | false =>
          have hnot : s.handsOver packetId call = false := by
            rw [Bool.eq_false_iff]
            intro hhands
            rw [publishes_of_handsOver hhands] at hcall
            cases hcall
          simp [hcall, hnot]

/-- Every PUBLISH whose PUBREC is written is answered. -/
theorem along_answers_iff (hauto : s.autoAck = true) {calls : List Call}
    (hrun : run step s calls = some s') :
    Along step (fun s call => call.publishes packetId = true → s.answers packetId call) s calls ↔
      ∀ call ∈ calls.filter (·.publishes packetId), call.ok = true := by
  induction calls generalizing s with
  | nil => simp [Along]
  | cons call calls ih =>
      obtain ⟨s₁, hstep, hrest⟩ := run_cons_eq_some.mp hrun
      have hrest' := ih ((autoAck_step hstep).trans hauto) hrest
      simp only [Along, hstep, Option.some.injEq, forall_eq', hrest']
      cases hcall : call.publishes packetId with
      | true => simp [hcall, answers, (publishes_spec hauto hcall).2]
      | false => simp [hcall]

end

end ClientSession

/-- Between the first PUBLISH and the PUBREL of a message, or over any other stretch of
calls, a message is handed over exactly once if it is not repeated. -/
theorem exactlyOnce_iff {s t : ClientSession} {packetId : UInt16} {first : Call} {more : List Call}
    (hauto : s.autoAck = true) (hfirst : first.publishes packetId = true)
    (hrun : run ClientSession.step s (first :: more) = some t) :
    ExactlyOnce s packetId first more ↔ Unrepeated packetId first more := by
  obtain ⟨s₁, hstep, hrest⟩ := run_cons_eq_some.mp hrun
  have hauto₁ := (ClientSession.autoAck_step hstep).trans hauto
  have hanswers : (∀ s₁, s.step first = some s₁ → Along ClientSession.step
      (fun s call => call.publishes packetId = true → s.answers packetId call) s₁ more) ↔
      ∀ call ∈ more.filter (·.publishes packetId), call.ok = true := by
    rw [← ClientSession.along_answers_iff hauto₁ hrest]
    simp only [hstep, Option.some.injEq, forall_eq']
  have hcount : s.handOvers packetId (first :: more) =
      (if first.ok then 1 else 0) + ((more.filter (·.publishes packetId)).filter (·.ok)).length := by
    rw [ClientSession.handOvers_eq hauto hrun, List.filter_filter]
    cases hok : first.ok <;> simp [hfirst, hok, Bool.and_comm, Nat.add_comm]
  rw [ExactlyOnce, hanswers, hcount, Unrepeated]
  constructor
  · rintro ⟨hone, hall⟩
    rw [List.filter_eq_self.mpr hall] at hone
    cases hok : first.ok with
    | true =>
        simp only [hok, if_true] at hone ⊢
        exact List.length_eq_zero_iff.mp (by omega)
    | false =>
        simp only [hok, Bool.false_eq_true, if_false, Nat.zero_add] at hone ⊢
        obtain ⟨again, hagain⟩ := List.length_eq_one_iff.mp hone
        exact ⟨again, hagain, hall again (hagain ▸ List.mem_singleton_self again)⟩
  · intro hunrepeated
    cases hok : first.ok with
    | true =>
        simp only [hok, if_true] at hunrepeated
        simp [hunrepeated]
    | false =>
        simp only [hok, Bool.false_eq_true, if_false] at hunrepeated
        obtain ⟨again, hagain, hok'⟩ := hunrepeated
        simp [hagain, hok']

/-- A message with a PINGRESP between its PUBLISH and its PUBREL. -/
theorem exactlyOnce_iff_ping :
    ExactlyOnce (.newFromClient (.new "")) 7
      (.handle (.publish (publishOf .exactlyOnce (some 7))) true)
      [.handle (.pingResponse .default) true] := by
  obtain ⟨t, hrun⟩ := Option.isSome_iff_exists.mp (show (run ClientSession.step
    (.newFromClient (.new "")) [.handle (.publish (publishOf .exactlyOnce (some 7))) true,
      .handle (.pingResponse .default) true]).isSome = true by decide +kernel)
  exact (exactlyOnce_iff rfl (by decide +kernel) hrun).mpr rfl

/-! ## A message that is repeated -/

theorem not_exactlyOnce_of_repeated :
    ¬ ExactlyOnce (.newFromClient (.new "")) 7
      (.handle (.publish (publishOf .exactlyOnce (some 7))) true)
      [.handle (.publish (publishOf .exactlyOnce (some 7))) true] := by
  rintro ⟨hone, -⟩
  revert hone
  decide +kernel

end Client
end Vaux
