import Vaux.Client.Session
import Vaux.Machine.Table

/-!
# The send window of a client

`write_next` checks the window but takes nothing from it, while an acknowledgement gives
one back.  The window is the receive maximum less the packets in flight only as long as
nothing is sent with QoS above 0.
-/

namespace Vaux
namespace Client

open Wire Mqtt Machine

/-- The counter and the map account for the receive maximum, and `write_next` refuses a
QoS packet exactly when that many are pending. -/
structure Conserves (R : UInt16) (s : ClientSession) : Prop where
  sum : s.qosSendRemaining.toNat + s.pendingQosSend.entries.length = R.toNat
  refuses : ∀ p q ok, p.qos = .ok q → q ≠ .atMostOnce →
    ((s.writeNext ok (.publish p)).result =
        .err (protocolError "pending QoS packets full" .protocolErr) ↔
      s.pendingQosSend.entries.length = R.toNat)

/-- The call writes a PUBLISH with QoS above 0 that has an identifier or is given one. -/
def sendsQos (autoPacketId : Bool) : Call → Bool
  | .write (.publish p) _ =>
    (p.qos = .ok .atLeastOnce ∨ p.qos = .ok .exactlyOnce) && (p.packetId.isSome || autoPacketId)
  | _ => false

namespace ClientSession

section

variable {s s' : ClientSession} {ok : Bool} {p : Publish} {packet : Packet} {R : UInt16}
  {entry : Packet → QoSPacketState} {call : Call}

/-! ## The send side -/

/-- What may be sent and what is pending is the same. -/
structure SameSend (s s' : ClientSession) : Prop where
  remaining : s'.qosSendRemaining = s.qosSendRemaining
  pending : s'.pendingQosSend = s.pendingQosSend
  autoPacketId : s'.autoPacketId = s.autoPacketId

theorem SameSend.refl (s : ClientSession) : SameSend s s := ⟨rfl, rfl, rfl⟩

theorem sameSend_handleRecvPublish (publish : Publish) :
    SameSend s (s.handleRecvPublish ok publish).session := by
  unfold handleRecvPublish
  split
  · exact .refl s
  · split
    · exact .refl s
    · split
      · unfold recvQos1
        cases hauto : s.autoAck <;> cases ok <;> simp [insertRecv, hauto] <;> exact ⟨rfl, rfl, rfl⟩
      · exact .refl s
  · rw [recvQos2_eq]
    cases hauto : s.autoAck <;> cases ok <;> exact ⟨rfl, rfl, rfl⟩
  · exact .refl s

theorem sameSend_handlePubRel (packetId : UInt16) :
    SameSend s (s.handlePubRel ok packetId).session := by
  unfold handlePubRel
  split
  · exact .refl s
  · split
    · cases hauto : s.autoAck <;> cases ok <;> exact ⟨rfl, rfl, rfl⟩
    · exact ⟨rfl, rfl, rfl⟩

/-- With nothing pending no packet that comes in changes the send side. -/
theorem sameSend_handlePacket (hpending : s.pendingQosSend = ∅) :
    SameSend s (s.handlePacket ok packet).session := by
  have hnone : ∀ packetId, s.pendingQosSend.lookup packetId = none := by
    intro packetId
    rw [hpending]
    rfl
  cases packet with
  | publish publish => exact sameSend_handleRecvPublish publish
  | pubRel p => exact sameSend_handlePubRel p.packetId
  | pubAck p =>
      simp only [handlePacket, handlePubAck, hnone]
      exact .refl s
  | pubRec p =>
      simp only [handlePacket, handlePubRec, hnone]
      exact .refl s
  | pubComp p =>
      simp only [handlePacket, handlePubComp, hnone]
      exact .refl s
  | _ => exact .refl s

theorem writeNext_full (hfull : s.sendFull = true)
    (hqos : p.qos = .ok .atLeastOnce ∨ p.qos = .ok .exactlyOnce) :
    s.writeNext ok (.publish p) = s.fail (protocolError "pending QoS packets full" .protocolErr) := by
  rcases hqos with hqos | hqos <;> simp [writeNext, hqos, writeQos, hfull]

/-- A publish that is recorded adds an entry and leaves the counter. -/
theorem writeQos_records (ok : Bool) (entry : Packet → QoSPacketState)
    (hfull : s.sendFull = false) (hpending : s.pendingQosSend = ∅)
    (hid : (p.packetId.isSome || s.autoPacketId) = true) :
    (s.writeQos ok entry p).result ≠ .panic ∧
      (s.writeQos ok entry p).session.qosSendRemaining = s.qosSendRemaining ∧
      (s.writeQos ok entry p).session.pendingQosSend.entries.length = 1 := by
  obtain ⟨s₁, packetId, hassign, hpending₁, hremaining₁⟩ : ∃ s₁ packetId,
      s.assignPacketId p = .ok (s₁, packetId) ∧ s₁.pendingQosSend = ∅ ∧
        s₁.qosSendRemaining = s.qosSendRemaining := by
    unfold assignPacketId
    cases hp : p.packetId with
    | some packetId =>
        have hnot : packetId ∉ s.pendingQosSend := by
          rw [hpending]
          exact AList.notMem_empty packetId
        exact ⟨s, packetId, by simp only [if_neg hnot], hpending, rfl⟩
    | none =>
        have hauto : s.autoPacketId = true := by simpa [hp] using hid
        exact ⟨_, _, if_pos hauto, hpending, rfl⟩
  simp only [writeQos, hfull, Bool.false_eq_true, if_false, hassign]
  refine ⟨?_, hremaining₁, ?_⟩
  · cases ok <;> simp [sendPacket]
  · simp only [sendPacket, insertSend]
    rw [length_insert (by rw [hpending₁]; exact AList.notMem_empty packetId), hpending₁]
    rfl

/-- A publish without an identifier, where none is assigned, is refused. -/
theorem writeQos_unassigned (hid : (p.packetId.isSome || s.autoPacketId) = false) :
    (s.writeQos ok entry p).session = s := by
  rw [Bool.or_eq_false_iff, Option.isSome_eq_false_iff, Option.isNone_iff_eq_none] at hid
  unfold writeQos
  split
  · rfl
  · simp [assignPacketId, hid, fail]

theorem sameSend_writeNext
    (hquiet : sendsQos s.autoPacketId (.write packet ok) = false ∨ s.sendFull = true) :
    SameSend s (s.writeNext ok packet).session := by
  cases packet with
  | publish p =>
      by_cases hqos : p.qos = .ok .atLeastOnce ∨ p.qos = .ok .exactlyOnce
      · by_cases hfull : s.sendFull = true
        · rw [writeNext_full hfull hqos]
          exact .refl s
        · have hid := hquiet.resolve_right hfull
          simp only [sendsQos, hqos, decide_true, Bool.true_and] at hid
          have hsession : (s.writeNext ok (.publish p)).session = s := by
            rcases hqos with hqos | hqos
            · simp only [writeNext, hqos, writeQos_unassigned hid]
            · simp only [writeNext, hqos, writeQos_unassigned hid]
          rw [hsession]
          exact .refl s
      · rw [not_or] at hqos
        simp only [writeNext]
        split
        · exact .refl s
        · exact absurd ‹_› hqos.1
        · exact absurd ‹_› hqos.2
        · exact .refl s
  | disconnect d => cases ok <;> exact ⟨rfl, rfl, rfl⟩
  | _ => exact .refl s

/-! ## Conservation -/

theorem sendFull_iff (hpending : s.pendingQosSend = ∅) :
    s.sendFull = true ↔ s.qosSendRemaining = 0 := by
  simp [sendFull, hpending]

theorem qos_cases {q : QoSLevel} (hqos : p.qos = .ok q) (hq : q ≠ .atMostOnce) :
    p.qos = .ok .atLeastOnce ∨ p.qos = .ok .exactlyOnce := by
  cases q with
  | atMostOnce => exact absurd rfl hq
  | atLeastOnce => exact .inl hqos
  | exactlyOnce => exact .inr hqos

theorem result_writeQos (hfull : s.sendFull = false) :
    (s.writeQos ok entry p).result ≠ .err (protocolError "pending QoS packets full" .protocolErr) := by
  simp only [writeQos, hfull, Bool.false_eq_true, if_false]
  split
  · rename_i e hassign
    simp only [assignPacketId] at hassign
    split at hassign <;> split at hassign <;> cases hassign <;> simp [fail, protocolError]
  · cases ok <;> simp [sendPacket, protocolError, transportError]

theorem conserves_of_empty (hpending : s.pendingQosSend = ∅)
    (hremaining : s.qosSendRemaining = R.toUInt64) : Conserves R s := by
  have hnat : s.qosSendRemaining.toNat = R.toNat := by rw [hremaining]; simp
  have hlength : s.pendingQosSend.entries.length = 0 := by rw [hpending]; rfl
  refine ⟨by omega, fun p q ok hqos hq => ?_⟩
  have hcases := qos_cases hqos hq
  rw [hlength]
  constructor
  · intro hresult
    by_contra hR
    have hfull : s.sendFull = false := by
      rw [Bool.eq_false_iff, Ne, sendFull_iff hpending]
      intro hzero
      rw [hzero] at hnat
      exact hR hnat
    rcases hcases with hqos | hqos
    · simp only [writeNext, hqos] at hresult
      exact result_writeQos hfull hresult
    · simp only [writeNext, hqos] at hresult
      exact result_writeQos hfull hresult
  · intro hR
    have hzero : s.qosSendRemaining = 0 := UInt64.toNat_inj.mp (hnat.trans hR.symm)
    rw [writeNext_full ((sendFull_iff hpending).mpr hzero) hcases]
    rfl

/-- A call that sends nothing with QoS above 0, or that the window refuses. -/
theorem sameSend_step (hpending : s.pendingQosSend = ∅)
    (hquiet : sendsQos s.autoPacketId call = false ∨ s.sendFull = true)
    (hstep : s.step call = some s') : SameSend s s' := by
  rw [← (step_eq_some.mp hstep).2]
  cases call with
  | write packet ok => exact sameSend_writeNext hquiet
  | handle packet ok => exact sameSend_handlePacket hpending

/-- The first QoS packet that is sent breaks the law. -/
theorem not_conserves_of_sends (hpending : s.pendingQosSend = ∅)
    (hremaining : s.qosSendRemaining = R.toUInt64) (hR : R ≠ 0)
    (hsends : sendsQos s.autoPacketId call = true) :
    ∃ s', s.step call = some s' ∧ ¬ Conserves R s' := by
  obtain ⟨p, ok, rfl⟩ : ∃ p ok, call = .write (.publish p) ok := by
    cases call with
    | handle packet ok => cases hsends
    | write packet ok =>
        cases packet with
        | publish p => exact ⟨p, ok, rfl⟩
        | _ => cases hsends
  simp only [sendsQos, Bool.and_eq_true, decide_eq_true_eq] at hsends
  obtain ⟨hqos, hid⟩ := hsends
  have hnat : s.qosSendRemaining.toNat = R.toNat := by rw [hremaining]; simp
  have hfull : s.sendFull = false := by
    rw [Bool.eq_false_iff, Ne, sendFull_iff hpending]
    intro hzero
    rw [hzero] at hnat
    exact hR (UInt16.toNat_inj.mp hnat.symm)
  have hwrite : ∃ entry, s.writeNext ok (.publish p) = s.writeQos ok entry p := by
    rcases hqos with hqos | hqos
    · exact ⟨.newQos1, by simp only [writeNext, hqos]⟩
    · exact ⟨.newQos2, by simp only [writeNext, hqos]⟩
  obtain ⟨entry, hwrite⟩ := hwrite
  obtain ⟨hpanic, hremaining', hlength⟩ := writeQos_records ok entry hfull hpending hid
  refine ⟨(s.writeQos ok entry p).session, step_eq_some.mpr ?_, fun hconserves => ?_⟩
  · show (s.writeNext ok (.publish p)).result ≠ .panic ∧ (s.writeNext ok (.publish p)).session = _
    rw [hwrite]
    exact ⟨hpanic, rfl⟩
  · have hsum := hconserves.sum
    rw [hremaining', hlength] at hsum
    omega

/-- The window that a CONNACK opens. -/
theorem remaining_of_handleConnack {connack : ConnAck}
    (hconnack : s.handleConnack connack = some (s', .ok connack))
    (hR : connack.receiveMaximum = some R) :
    s'.pendingQosSend = s.pendingQosSend ∧ s'.qosSendRemaining = R.toUInt64 := by
  unfold handleConnack at hconnack
  split at hconnack
  · cases hconnack
  · simp only [hR] at hconnack
    split at hconnack
    · cases hconnack
    · cases hconnack
    · cases hconnack
      exact ⟨rfl, rfl⟩

end

end ClientSession

/-- The law holds of every state of a run exactly if nothing is sent with QoS above 0, or
the receive maximum is zero. -/
theorem conserves_iff {s s' : ClientSession} {connack : ConnAck} {R : UInt16}
    (hpending : s.pendingQosSend = ∅) (hconnack : s.handleConnack connack = some (s', .ok connack))
    (hR : connack.receiveMaximum = some R) (calls : List Call) :
    (Conserves R s' ∧ Along ClientSession.step
        (fun s call => ∀ t, s.step call = some t → Conserves R t) s' calls) ↔
      R = 0 ∨ Along ClientSession.step (fun s call => sendsQos s.autoPacketId call = false) s' calls := by
  obtain ⟨hsame, hremaining⟩ := ClientSession.remaining_of_handleConnack hconnack hR
  rw [hpending] at hsame
  constructor
  · rintro ⟨-, halong⟩
    by_cases hzero : R = 0
    · exact .inl hzero
    · right
      -- the window stays as it was opened up to the first packet that is sent
      refine along_of_invariant
        (I := fun s => s.pendingQosSend = ∅ ∧ s.qosSendRemaining = R.toUInt64)
        (fun s call t hs hcall hstep => ?_) ⟨hsame, hremaining⟩ halong
      have hquiet : sendsQos s.autoPacketId call = false := by
        rw [Bool.eq_false_iff]
        intro hsends
        obtain ⟨t', hstep', hnot⟩ :=
          ClientSession.not_conserves_of_sends hs.1 hs.2 hzero hsends
        exact hnot (hcall t' hstep')
      have hkept := ClientSession.sameSend_step hs.1 (.inl hquiet) hstep
      exact ⟨⟨hkept.pending.trans hs.1, hkept.remaining.trans hs.2⟩, hquiet⟩
  · intro hcases
    refine ⟨ClientSession.conserves_of_empty hsame hremaining, ?_⟩
    have hquiet : Along ClientSession.step
        (fun s call => R = 0 ∨ sendsQos s.autoPacketId call = false) s' calls := by
      rcases hcases with hzero | halong
      · exact (along_true s' calls).mono fun _ _ _ => .inl hzero
      · exact halong.mono fun _ _ hcall => .inr hcall
    refine along_of_invariant
      (I := fun s => s.pendingQosSend = ∅ ∧ s.qosSendRemaining = R.toUInt64)
      (fun s call t hs hcall hstep => ?_) ⟨hsame, hremaining⟩ hquiet
    have hkept : ClientSession.SameSend s t := by
      refine ClientSession.sameSend_step hs.1 ?_ hstep
      rcases hcall with hzero | hcall
      · exact .inr ((ClientSession.sendFull_iff hs.1).mpr (by rw [hs.2, hzero]; rfl))
      · exact .inl hcall
    have ht : t.pendingQosSend = ∅ ∧ t.qosSendRemaining = R.toUInt64 :=
      ⟨hkept.pending.trans hs.1, hkept.remaining.trans hs.2⟩
    refine ⟨ht, fun t' hstep' => ?_⟩
    cases hstep.symm.trans hstep'
    exact ClientSession.conserves_of_empty ht.1 ht.2

/-! ## One packet -/

/-- A session that has been told a receive maximum of one. -/
def windowOfOne : ClientSession :=
  { ClientSession.newFromClient (.new "") with qosSendRemaining := 1, connected := true }

def connackOfOne : ConnAck := { ConnAck.default with receiveMaximum := some 1 }

/-- A PUBLISH with QoS 0 and a PUBACK that nobody asked for. -/
theorem conserves_iff_unasked :
    Conserves 1 windowOfOne ∧ Along ClientSession.step
      (fun s call => ∀ t, s.step call = some t → Conserves 1 t) windowOfOne
      [.write (.publish (publishOf .atMostOnce none)) true,
        .handle (.pubAck (.newWithPacketId .pubAck 7)) true] := by
  have hconnack : (ClientSession.newFromClient (.new "")).handleConnack connackOfOne =
      some (windowOfOne, .ok connackOfOne) := rfl
  exact (conserves_iff rfl hconnack rfl _).mpr
    (.inr fun _ _ => ⟨by decide +kernel, fun _ _ => ⟨rfl, trivial⟩⟩)

/-- A PUBLISH with QoS 1 takes nothing from the window. -/
theorem not_conserves_of_publish : ∃ t,
    windowOfOne.step (.write (.publish (publishOf .atLeastOnce none)) true) = some t ∧
      ¬ Conserves 1 t := by
  refine ⟨_, rfl, fun hconserves => ?_⟩
  have hsum := hconserves.sum
  revert hsum
  decide +kernel

end Client
end Vaux
