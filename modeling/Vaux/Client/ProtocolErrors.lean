import Vaux.Client.Session
import Vaux.Machine.Table

/-!
# Protocol errors

What `handle_packet` and `write_next` have removed by the time they see a protocol error
they put back, so that the tables, the counters and the last identifier are those from
before the call.  So it is with a PUBREL whose PUBCOMP cannot be sent.
-/

namespace Vaux
namespace Client

open Wire Mqtt Machine

/-- The maps have the same entries; a map that has been written to may list them in another
order. -/
def Same (m m' : PendingQos) : Prop := ∀ packetId, m'.lookup packetId = m.lookup packetId

namespace ClientSession

/-- The receiving side is as it was. -/
structure KeepsRecv (s s' : ClientSession) : Prop where
  pendingQosRecv : Same s.pendingQosRecv s'.pendingQosRecv
  qosRecvRemaining : s'.qosRecvRemaining = s.qosRecvRemaining

/-- The tables, the counters and the last identifier are as they were. -/
structure KeepsAll (s s' : ClientSession) : Prop extends KeepsRecv s s' where
  pendingQosSend : Same s.pendingQosSend s'.pendingQosSend
  qosSendRemaining : s'.qosSendRemaining = s.qosSendRemaining
  lastPacketId : s'.lastPacketId = s.lastPacketId

section

variable {s s' : ClientSession} {ok : Bool} {packet : Packet} {call : Call} {packetId : UInt16}
  {p : QoSPacketState}

theorem KeepsAll.refl (s : ClientSession) : KeepsAll s s :=
  ⟨⟨fun _ => rfl, rfl⟩, fun _ => rfl, rfl, rfl⟩

/-- The entry that an acknowledgement was looked up with is put back. -/
theorem keepsAll_putBackSend (h : s.pendingQosSend.lookup packetId = some p) :
    KeepsAll s ((s.removeSend packetId).insertSend packetId p) :=
  ⟨⟨fun _ => rfl, rfl⟩, fun _ => lookup_putBack h, rfl, rfl⟩

theorem keepsAll_putBackRecv (h : s.pendingQosRecv.lookup packetId = some p) :
    KeepsAll s ((s.removeRecv packetId).insertRecv packetId p) :=
  ⟨⟨fun _ => lookup_putBack h, rfl⟩, fun _ => rfl, rfl, rfl⟩

end

/-- The reply is a protocol error only if it leaves the session as it was. -/
def Spares {α : Type} (s : ClientSession) (reply : Reply α) : Prop :=
  ∀ e reason, reply.result = .err e → e.kind = .protocol reason → KeepsAll s reply.session

section

variable {α : Type} {s : ClientSession} {ok : Bool} {reply : Reply α} {packet : Packet}
  {call : Call} {packetId : UInt16} {p : QoSPacketState}

theorem spares_of_ok {a : α} (h : reply.result = .ok a) : s.Spares reply := by
  intro e reason he
  rw [h] at he
  cases he

theorem spares_of_panic (h : reply.result = .panic) : s.Spares reply := by
  intro e reason he
  rw [h] at he
  cases he

/-- The outcome of a write is no protocol error. -/
theorem spares_of_write {a : α} {message : String}
    (h : reply.result = if ok then .ok a else .err (transportError message)) : s.Spares reply := by
  intro e reason he hkind
  rw [h] at he
  cases ok with
  | true => cases he
  | false =>
      cases he
      cases hkind

theorem spares_of_keepsAll (h : KeepsAll s reply.session) : s.Spares reply := fun _ _ _ _ => h

theorem spares_fail (e : MqttError) : s.Spares (s.fail e : Reply α) :=
  spares_of_keepsAll (.refl s)

theorem Spares.passOn {reply : Reply Unit} (h : s.Spares reply) : s.Spares (passOn reply packet) := by
  intro e reason he
  rw [ClientSession.passOn] at he
  cases hresult : reply.result with
  | ok a =>
      rw [hresult] at he
      cases he
  | err e' =>
      rw [hresult] at he
      cases he
      exact h e reason hresult
  | panic =>
      rw [hresult] at he
      cases he

/-! ## The branches -/

theorem spares_writeQos (entry : Packet → QoSPacketState) (p : Publish) :
    s.Spares (s.writeQos ok entry p) := by
  obtain ⟨e, h⟩ | ⟨packetId, last, -, h⟩ := writeQos_cases s ok entry p
  · rw [h]
    exact spares_fail e
  · rw [h]
    exact spares_of_write rfl

theorem spares_writeNext : s.Spares (s.writeNext ok packet) := by
  cases packet with
  | publish p =>
      rw [writeNext]
      split
      · exact spares_of_write rfl
      · exact spares_writeQos _ p
      · exact spares_writeQos _ p
      · exact spares_of_panic rfl
  | disconnect d =>
      rw [writeNext]
      split
      · exact spares_of_write rfl
      · exact spares_of_write rfl
  | _ => exact spares_of_write rfl

theorem spares_recvQos1 (publish : Publish) : s.Spares (s.recvQos1 ok publish packetId) := by
  simp only [recvQos1]
  split
  · exact spares_of_write rfl
  · exact spares_of_ok rfl

theorem spares_recvQos2 (publish : Publish) : s.Spares (s.recvQos2 ok publish packetId) := by
  simp only [recvQos2_eq]
  split
  · exact spares_of_write rfl
  · exact spares_of_ok rfl

/-- The receive window is checked before the PUBLISH is recorded. -/
theorem spares_handleRecvPublish (publish : Publish) : s.Spares (s.handleRecvPublish ok publish) := by
  rw [handleRecvPublish]
  split
  · exact spares_of_ok rfl
  · split
    · exact spares_fail _
    · split
      · exact spares_recvQos1 publish
      · exact spares_of_panic rfl
  · exact spares_recvQos2 publish
  · exact spares_of_panic rfl

/-- The PUBACK of a QoS 2 PUBLISH is seen before the entry is removed. -/
theorem spares_handlePubAck : s.Spares (s.handlePubAck packetId) := by
  rw [handlePubAck]
  split
  · exact spares_fail _
  · split
    · exact spares_of_ok rfl
    · exact spares_fail _

theorem spares_handlePubRec : s.Spares (s.handlePubRec ok packetId) := by
  rw [handlePubRec]
  split
  · exact spares_fail _
  · rename_i p hp
    simp only
    split
    · rename_i hnext
      split
      · rw [releaseQos2_eq hnext]
        exact spares_of_write rfl
      · exact spares_of_ok rfl
    · exact spares_of_keepsAll (keepsAll_putBackSend hp)

theorem spares_handlePubRel : s.Spares (s.handlePubRel ok packetId) := by
  rw [handlePubRel]
  split
  · exact spares_fail _
  · rename_i p hp
    simp only
    split
    · split
      · exact spares_of_write rfl
      · exact spares_of_ok rfl
    · exact spares_of_keepsAll (keepsAll_putBackRecv hp)

theorem spares_handlePubComp : s.Spares (s.handlePubComp packetId) := by
  rw [handlePubComp]
  split
  · exact spares_fail _
  · rename_i p hp
    simp only
    split
    · exact spares_of_ok rfl
    · exact spares_of_keepsAll (keepsAll_putBackSend hp)

theorem spares_handlePacket : s.Spares (s.handlePacket ok packet) := by
  cases packet with
  | publish p => exact (spares_handleRecvPublish p).passOn
  | pubAck p => exact spares_handlePubAck.passOn
  | pubRec p => exact spares_handlePubRec.passOn
  | pubRel p => exact spares_handlePubRel.passOn
  | pubComp p => exact spares_handlePubComp.passOn
  | disconnect d => exact spares_fail _
  | _ => exact spares_of_ok rfl

theorem spares_perform : s.Spares (s.perform call) := by
  cases call with
  | write packet ok => exact spares_writeNext
  | handle packet ok => exact spares_handlePacket

/-! ## PUBCOMP -/

/-- The only PUBCOMP that is written is the one that was given. -/
theorem eq_of_pubComp_mem_writeNext {pubComp : PubResp}
    (hmem : .pubComp pubComp ∈ (s.writeNext ok packet).sent) : packet = .pubComp pubComp := by
  cases packet with
  | publish p =>
      have hqos : ∀ entry, .pubComp pubComp ∉ (s.writeQos ok entry p).sent := by
        intro entry
        obtain ⟨e, h⟩ | ⟨packetId, last, -, h⟩ := writeQos_cases s ok entry p
        · rw [h]
          exact List.not_mem_nil
        · rw [h]
          intro hmem
          cases List.mem_singleton.mp hmem
      rw [writeNext] at hmem
      split at hmem
      · cases List.mem_singleton.mp hmem
      · exact absurd hmem (hqos _)
      · exact absurd hmem (hqos _)
      · exact absurd hmem List.not_mem_nil
  | disconnect d =>
      rw [writeNext] at hmem
      split at hmem
      · cases List.mem_singleton.mp hmem
      · cases List.mem_singleton.mp hmem
  | _ => exact (List.mem_singleton.mp hmem).symm

theorem sent_handlePubAck : (s.handlePubAck packetId).sent = [] := by
  rw [handlePubAck]
  split
  · rfl
  · split <;> rfl

theorem sent_handlePubComp : (s.handlePubComp packetId).sent = [] := by
  rw [handlePubComp]
  split
  · rfl
  · simp only
    split <;> rfl

theorem sent_handlePubRec (ok : Bool) (packetId : UInt16) : (s.handlePubRec ok packetId).sent = [] ∨
    (s.handlePubRec ok packetId).sent = [.pubRel (.newWithPacketId .pubRel packetId)] := by
  rw [handlePubRec]
  split
  · exact .inl rfl
  · simp only
    split
    · rename_i hnext
      split
      · rw [releaseQos2_eq hnext]
        exact .inr rfl
      · exact .inl rfl
    · exact .inl rfl

theorem sent_handlePubRel (ok : Bool) (packetId : UInt16) : (s.handlePubRel ok packetId).sent = [] ∨
    (s.handlePubRel ok packetId).sent = [.pubComp (.newWithPacketId .pubComp packetId)] := by
  rw [handlePubRel]
  split
  · exact .inl rfl
  · simp only
    split
    · split
      · exact .inr rfl
      · exact .inl rfl
    · exact .inl rfl

theorem sent_handleRecvPublish (ok : Bool) (publish : Publish) :
    (s.handleRecvPublish ok publish).sent = [] ∨ ∃ packetId,
      (s.handleRecvPublish ok publish).sent = [.pubAck (.newWithPacketId .pubAck packetId)] ∨
      (s.handleRecvPublish ok publish).sent = [.pubRec (.newWithPacketId .pubRec packetId)] := by
  rw [handleRecvPublish]
  split
  · exact .inl rfl
  · split
    · exact .inl rfl
    · split
      · simp only [recvQos1]
        split
        · exact .inr ⟨_, .inl rfl⟩
        · exact .inl rfl
      · exact .inl rfl
  · simp only [recvQos2_eq]
    split
    · exact .inr ⟨_, .inr rfl⟩
    · exact .inl rfl
  · exact .inl rfl

/-- Only a PUBREL is answered with a PUBCOMP. -/
theorem pubRel_of_pubComp_mem_handlePacket {pubComp : PubResp}
    (hmem : .pubComp pubComp ∈ (s.handlePacket ok packet).sent) : ∃ p, packet = .pubRel p := by
  cases packet with
  | pubRel p => exact ⟨p, rfl⟩
  | publish p =>
      simp only [handlePacket, passOn] at hmem
      obtain h | ⟨_, h | h⟩ := s.sent_handleRecvPublish ok p
      all_goals simp [h] at hmem
  | pubAck p => simp [handlePacket, passOn, sent_handlePubAck] at hmem
  | pubRec p =>
      simp only [handlePacket, passOn] at hmem
      obtain h | h := s.sent_handlePubRec ok p.packetId
      all_goals simp [h] at hmem
  | pubComp p => simp [handlePacket, passOn, sent_handlePubComp] at hmem
  | _ => exact absurd hmem List.not_mem_nil

/-- A PUBREL is put back if its PUBCOMP is not written. -/
theorem keepsRecv_handlePubRel {pubComp : PubResp}
    (hmem : .pubComp pubComp ∈ (s.handlePubRel false packetId).sent) :
    KeepsRecv s (s.handlePubRel false packetId).session := by
  rw [handlePubRel] at hmem ⊢
  split at hmem
  · exact absurd hmem List.not_mem_nil
  · rename_i p hp
    simp only at hmem ⊢
    split at hmem
    · split at hmem
      · rename_i hnext hauto
        rw [if_pos hnext, if_pos hauto]
        exact (keepsAll_putBackRecv hp).toKeepsRecv
      · exact absurd hmem List.not_mem_nil
    · exact absurd hmem List.not_mem_nil

theorem keepsRecv_perform {pubComp : PubResp} (hmem : .pubComp pubComp ∈ (s.perform call).sent)
    (hfailed : call.ok = false) : KeepsRecv s (s.perform call).session := by
  cases call with
  | write packet ok =>
      obtain rfl : packet = .pubComp pubComp := eq_of_pubComp_mem_writeNext hmem
      exact (KeepsAll.refl s).toKeepsRecv
  | handle packet ok =>
      obtain rfl : ok = false := hfailed
      obtain ⟨p, rfl⟩ := pubRel_of_pubComp_mem_handlePacket hmem
      exact keepsRecv_handlePubRel hmem

end

end ClientSession

/-- A call that ends in a protocol error leaves the session as it was; one whose PUBCOMP
cannot be sent leaves the receiving side as it was. -/
theorem keeps_of_failed (s : ClientSession) (call : Call) :
    (∀ e reason, (s.perform call).result = .err e → e.kind = .protocol reason →
      s.KeepsAll (s.perform call).session) ∧
    (∀ pubComp, .pubComp pubComp ∈ (s.perform call).sent → call.ok = false →
      s.KeepsRecv (s.perform call).session) :=
  ⟨ClientSession.spares_perform, fun _ => ClientSession.keepsRecv_perform⟩

/-- A PUBREC for a QoS 1 PUBLISH, and a PUBREL whose PUBCOMP is not sent. -/
theorem keeps_of_failed_twice :
    let s : ClientSession :=
      { ClientSession.newFromClient (.new "") with
        pendingQosSend := (∅ : PendingQos).insert 1 (.newQos1 (.publish (publishOf .atLeastOnce (some 1))))
        pendingQosRecv := (∅ : PendingQos).insert 2 { packetId := 0, packet := none, next := .pubRel } }
    s.KeepsAll (s.perform (.handle (.pubRec (.newWithPacketId .pubRec 1)) true)).session ∧
    s.KeepsRecv (s.perform (.handle (.pubRel (.newWithPacketId .pubRel 2)) false)).session := by
  intro s
  exact ⟨(keeps_of_failed s _).1 ClientSession.unexpectedControl .protocolErr rfl rfl,
    (keeps_of_failed s _).2 (.newWithPacketId .pubComp 2) (List.mem_singleton.mpr rfl) rfl⟩

end Client
end Vaux
