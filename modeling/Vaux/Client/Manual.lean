import Vaux.Client.ReceiveWindow
import Vaux.Client.SendWindow

/-!
# Acknowledgement by the application

Without `auto_ack` the entry of a QoS 2 message should move on with the packets that the
application writes.  It does not: a PUBREC removes the entry that the PUBCOMP is checked
against, and a PUBREL finds an entry that still waits for the PUBREC.
-/

namespace Vaux
namespace Client

open Wire Mqtt Machine

/-- How far the handshake of an identifier has got: the PUBLISH, the PUBREC and the PUBREL
have been exchanged.  It is idle again after the PUBCOMP. -/
inductive Stage where
  | idle
  | published
  | received
  | released
  deriving DecidableEq

/-- A session, and as history the QoS 2 handshakes it sends and receives. -/
structure Exchange where
  session : ClientSession
  sending : UInt16 → Stage
  receiving : UInt16 → Stage

/-- The identifier of a QoS 2 PUBLISH. -/
def qos2Id : Packet → Option UInt16
  | .publish p => if p.qos = .ok .exactlyOnce then p.packetId else none
  | _ => none

namespace Exchange

/-- A client with acknowledgement by the application. -/
def start (state : SessionState) : Exchange where
  session := .newFromClient (state.withAutoAck false)
  sending := fun _ => .idle
  receiving := fun _ => .idle

/-- The handshakes with the packets that the client publishes. -/
def sendingAfter (self : Exchange) : Call → UInt16 → Stage
  | .write (.pubRel r) true => Function.update self.sending r.packetId .released
  | .write (.publish p) true =>
    match (self.session.writeNext true (.publish p)).sent.head?.bind qos2Id with
    | some packetId => Function.update self.sending packetId .published
    | none => self.sending
  | .handle (.pubRec r) _ => Function.update self.sending r.packetId .received
  | .handle (.pubComp r) _ => Function.update self.sending r.packetId .idle
  | _ => self.sending

/-- The handshakes with the packets that the peer publishes. -/
def receivingAfter (self : Exchange) : Call → UInt16 → Stage
  | .handle (.publish p) _ =>
    match qos2Id (.publish p) with
    | some packetId => Function.update self.receiving packetId .published
    | none => self.receiving
  | .write (.pubRec r) true => Function.update self.receiving r.packetId .received
  | .handle (.pubRel r) _ => Function.update self.receiving r.packetId .released
  | .write (.pubComp r) true => Function.update self.receiving r.packetId .idle
  | _ => self.receiving

def step (self : Exchange) (call : Call) : Option Exchange :=
  (self.session.step call).map fun session =>
    { session, sending := self.sendingAfter call, receiving := self.receivingAfter call }

end Exchange

/-- Peer and application follow the handshakes: a packet is the next one of its
identifier, a PUBACK is for a pending QoS 1 PUBLISH, and a PUBLISH has an identifier that
is not in use. -/
def Follows (x : Exchange) : Call → Prop
  | .handle (.publish p) _ =>
    ∀ q, p.qos = .ok q → q ≠ .atMostOnce → ∃ packetId, p.packetId = some packetId ∧
      x.receiving packetId = .idle
  | .handle (.pubAck r) _ =>
    ∃ p, x.session.pendingQosSend.lookup r.packetId = some p ∧ p.next = .pubAck
  | .handle (.pubRec r) _ => x.sending r.packetId = .published
  | .write (.pubRel r) _ => x.sending r.packetId = .received
  | .handle (.pubComp r) _ => x.sending r.packetId = .released
  | .write (.pubRec r) _ => x.receiving r.packetId = .published
  | .handle (.pubRel r) _ => x.receiving r.packetId = .received
  | .write (.pubComp r) _ => x.receiving r.packetId = .released
  | _ => True

/-- No packet is taken for a protocol error, and the last packet of a handshake leaves its
identifier free. -/
structure Proper (x : Exchange) (call : Call) : Prop where
  accepted : ∀ packet ok, call = .handle packet ok → ∀ e,
    (x.session.handlePacket ok packet).result = .err e → ∀ reason, e.kind ≠ .protocol reason
  sent : ∀ r ok, call = .handle (.pubComp r) ok → ∀ x', x.step call = some x' →
    r.packetId ∉ x'.session.pendingQosSend
  received : ∀ r, call = .write (.pubComp r) true → ∀ x', x.step call = some x' →
    r.packetId ∉ x'.session.pendingQosRecv

/-- The peer sends neither a PUBREL nor a PUBCOMP, no DISCONNECT, and no QoS 1 PUBLISH when
the receive window is used up. -/
def Unfinished (x : Exchange) : Call → Prop
  | .handle (.disconnect _) _ => False
  | .handle (.pubRel _) _ => False
  | .handle (.pubComp _) _ => False
  | .handle (.publish p) _ => p.qos = .ok .atLeastOnce → x.session.qosRecvRemaining ≠ 0
  | _ => True

/-! ## What is pending -/

/-- No entry gets past the PUBREC, and a PUBLISH that has been written waits for it. -/
structure Stuck (x : Exchange) : Prop where
  autoAck : x.session.autoAck = false
  sends : ∀ k p, x.session.pendingQosSend.lookup k = some p → p.next ≠ .pubComp
  receives : ∀ k p, x.session.pendingQosRecv.lookup k = some p → p.next ≠ .pubRel
  published : ∀ k, x.sending k = .published →
    ∃ p, x.session.pendingQosSend.lookup k = some p ∧ p.next = .pubRec

theorem stuck_start {state : SessionState} (hsend : state.pendingQosSend = ∅)
    (hrecv : state.pendingQosRecv = ∅) : Stuck (.start state) := by
  have hsend' : (Exchange.start state).session.pendingQosSend = ∅ := hsend
  have hrecv' : (Exchange.start state).session.pendingQosRecv = ∅ := hrecv
  refine ⟨rfl, fun k p hlookup => ?_, fun k p hlookup => ?_, fun k hk => ?_⟩
  · rw [hsend', AList.lookup_empty] at hlookup
    cases hlookup
  · rw [hrecv', AList.lookup_empty] at hlookup
    cases hlookup
  · cases hk

namespace ClientSession

section

variable {s : ClientSession} {ok : Bool} {k : UInt16}

theorem qos2Id_of_ne {p : Publish} (h : p.qos ≠ .ok .exactlyOnce) : qos2Id (.publish p) = none :=
  if_neg h

/-- A PUBLISH is recorded under an identifier that is not in use, as a QoS 2 one if it is
sent as one. -/
theorem writeNext_publish (s : ClientSession) (ok : Bool) (p : Publish) :
    ((s.writeNext ok (.publish p)).session.pendingQosSend = s.pendingQosSend ∧
        (s.writeNext ok (.publish p)).sent.head?.bind qos2Id = none) ∨
      ∃ packetId entry, packetId ∉ s.pendingQosSend ∧
        (s.writeNext ok (.publish p)).session.pendingQosSend =
          s.pendingQosSend.insert packetId entry ∧
        (entry.next = .pubAck ∧ (s.writeNext ok (.publish p)).sent.head?.bind qos2Id = none ∨
          entry.next = .pubRec ∧
            (s.writeNext ok (.publish p)).sent.head?.bind qos2Id = some packetId) := by
  rw [writeNext]
  split
  · rename_i hqos
    refine .inl ⟨rfl, qos2Id_of_ne ?_⟩
    rw [hqos]
    decide
  · rename_i hqos
    obtain ⟨e, h⟩ | ⟨packetId, last, hmem, h⟩ := writeQos_cases s ok .newQos1 p
    · rw [h]
      exact .inl ⟨rfl, rfl⟩
    · rw [h]
      refine .inr ⟨packetId, _, hmem, rfl, .inl ⟨rfl, qos2Id_of_ne ?_⟩⟩
      show p.qos ≠ _
      rw [hqos]
      decide
  · rename_i hqos
    obtain ⟨e, h⟩ | ⟨packetId, last, hmem, h⟩ := writeQos_cases s ok .newQos2 p
    · rw [h]
      exact .inl ⟨rfl, rfl⟩
    · rw [h]
      exact .inr ⟨packetId, _, hmem, rfl, .inr ⟨rfl, if_pos hqos⟩⟩
  · exact .inl ⟨rfl, rfl⟩

theorem lookup_send_writeNext {packet : Packet} {p : QoSPacketState}
    (h : (s.writeNext ok packet).session.pendingQosSend.lookup k = some p) :
    s.pendingQosSend.lookup k = some p ∨ p.next ≠ .pubComp := by
  cases packet with
  | publish publish =>
      obtain ⟨hsame, -⟩ | ⟨packetId, entry, -, hinsert, hentry⟩ := writeNext_publish s ok publish
      · exact .inl (hsame ▸ h)
      · rw [hinsert] at h
        rcases lookup_insert_eq.mp h with ⟨-, rfl⟩ | ⟨-, hold⟩
        · refine .inr fun hnext => ?_
          rcases hentry with ⟨hpubAck, -⟩ | ⟨hpubRec, -⟩
          · cases hpubAck.symm.trans hnext
          · cases hpubRec.symm.trans hnext
        · exact .inl hold
  | disconnect d => cases ok <;> exact .inl h
  | _ => exact .inl h

/-- The identifier and the packet of a reply to a PUBLISH. -/
def acknowledges : Packet → Option (UInt16 × QoSPacket)
  | .pubAck r => some (r.packetId, .pubAck)
  | .pubRec r => some (r.packetId, .pubRec)
  | .pubComp r => some (r.packetId, .pubComp)
  | _ => none

/-- A table after a reply that removes the entry which expects it. -/
theorem lookup_acknowledged {m m' : PendingQos} {packetId : UInt16} {expected : QoSPacket}
    (hnone : m.lookup packetId = none → m' = m)
    (herase : ∀ q, m.lookup packetId = some q → q.next = expected → m' = m.erase packetId)
    (hsame : ∀ q, m.lookup packetId = some q → q.next ≠ expected → ∀ k, m'.lookup k = m.lookup k)
    {p : QoSPacketState} :
    m'.lookup k = some p ↔ m.lookup k = some p ∧ (packetId, expected) ≠ (k, p.next) := by
  cases hlookup : m.lookup packetId with
  | none =>
      rw [hnone hlookup]
      refine (and_iff_left_of_imp fun hk heq => ?_).symm
      obtain ⟨rfl, -⟩ := Prod.mk.inj heq
      cases hlookup.symm.trans hk
  | some q =>
      by_cases hq : q.next = expected
      · rw [herase q hlookup hq, lookup_erase_eq, and_comm]
        refine and_congr_right fun hk => ⟨fun hne heq => hne (Prod.mk.inj heq).1.symm, ?_⟩
        rintro hne rfl
        obtain rfl : q = p := Option.some.inj (hlookup.symm.trans hk)
        exact hne (Prod.ext rfl hq.symm)
      · rw [hsame q hlookup hq]
        refine (and_iff_left_of_imp fun hk heq => hq ?_).symm
        obtain ⟨rfl, rfl⟩ := Prod.mk.inj heq
        rw [Option.some.inj (hlookup.symm.trans hk)]

/-- Without `auto_ack` the entries that are left are those that did not expect the packet. -/
theorem lookup_send_handlePacket (hauto : s.autoAck = false) {packet : Packet}
    {p : QoSPacketState} :
    (s.handlePacket ok packet).session.pendingQosSend.lookup k = some p ↔
      s.pendingQosSend.lookup k = some p ∧ acknowledges packet ≠ some (k, p.next) := by
  have hother : acknowledges packet = none →
      (s.handlePacket ok packet).session.pendingQosSend = s.pendingQosSend →
      ((s.handlePacket ok packet).session.pendingQosSend.lookup k = some p ↔
        s.pendingQosSend.lookup k = some p ∧ acknowledges packet ≠ some (k, p.next)) := by
    intro hnone hsame
    simp [hnone, hsame]
  cases packet with
  | publish publish => exact hother rfl (sameSend_handleRecvPublish publish).pending
  | pubRel r => exact hother rfl (sameSend_handlePubRel r.packetId).pending
  | pubAck r =>
      rw [acknowledges, Ne, Option.some.injEq]
      refine lookup_acknowledged (fun h => ?_) (fun q h hq => ?_) (fun q h hq k' => ?_) <;>
        simp only [handlePacket, passOn, handlePubAck, h]
      · rfl
      · rw [if_pos hq]
        rfl
      · rw [if_neg hq]
        rfl
  | pubRec r =>
      rw [acknowledges, Ne, Option.some.injEq]
      refine lookup_acknowledged (fun h => ?_) (fun q h hq => ?_) (fun q h hq k' => ?_) <;>
        simp only [handlePacket, passOn, handlePubRec, h, hauto, Bool.false_eq_true, if_false]
      · rfl
      · rw [if_pos hq]
        rfl
      · rw [if_neg hq]
        exact lookup_putBack h
  | pubComp r =>
      rw [acknowledges, Ne, Option.some.injEq]
      refine lookup_acknowledged (fun h => ?_) (fun q h hq => ?_) (fun q h hq k' => ?_) <;>
        simp only [handlePacket, passOn, handlePubComp, h]
      · rfl
      · rw [if_pos hq]
        rfl
      · rw [if_neg hq]
        exact lookup_putBack h
  | _ => exact hother rfl rfl

/-- Without `auto_ack` no entry starts to wait for a PUBREL. -/
theorem lookup_recv_handlePacket (hauto : s.autoAck = false) {packet : Packet}
    {p : QoSPacketState}
    (h : (s.handlePacket ok packet).session.pendingQosRecv.lookup k = some p) :
    s.pendingQosRecv.lookup k = some p ∨ p.next ≠ .pubRel := by
  cases packet with
  | publish publish =>
      simp only [handlePacket, passOn, handleRecvPublish] at h
      have hinsert : ∀ packetId entry, entry.next ≠ .pubRel →
          (s.pendingQosRecv.insert packetId entry).lookup k = some p →
          s.pendingQosRecv.lookup k = some p ∨ p.next ≠ .pubRel := by
        intro packetId entry hentry hk
        rcases lookup_insert_eq.mp hk with ⟨-, rfl⟩ | ⟨-, hk⟩
        · exact .inr hentry
        · exact .inl hk
      split at h
      · exact .inl h
      · split at h
        · exact .inl h
        · split at h
          · rename_i packetId _
            have hreply : (s.recvQos1 ok publish packetId).session.pendingQosRecv =
                s.pendingQosRecv.insert packetId (.newQos1 (.publish publish)) := by
              simp [recvQos1, insertRecv, decrementRecv, hauto]
            rw [hreply] at h
            exact hinsert _ _ (fun hnext => by cases hnext) h
          · exact .inl h
      · rw [recvQos2_eq, hauto] at h
        exact hinsert _ _ (fun hnext => by cases hnext) h
      · exact .inl h
  | pubAck r => exact .inl ((sameRecv_handlePubAck r.packetId).lookup k ▸ h)
  | pubRec r => exact .inl ((sameRecv_handlePubRec r.packetId).lookup k ▸ h)
  | pubComp r => exact .inl ((sameRecv_handlePubComp r.packetId).lookup k ▸ h)
  | pubRel r =>
      simp only [handlePacket, passOn, handlePubRel, hauto, Bool.false_eq_true, if_false] at h
      split at h
      · exact .inl h
      · rename_i q hlookup
        split at h
        · exact .inl (lookup_erase_eq.mp h).2
        · exact .inl ((lookup_putBack hlookup).symm.trans h)
  | _ => exact .inl h

end

end ClientSession

/-! ## Steps -/

section

variable {x x' : Exchange} {call : Call}

theorem Exchange.step_eq_some :
    x.step call = some x' ↔ ∃ session, x.session.step call = some session ∧
      x' =
        { session, sending := x.sendingAfter call, receiving := x.receivingAfter call } := by
  rw [Exchange.step, Option.map_eq_some_iff]
  exact exists_congr fun session => and_congr_right fun _ => eq_comm

/-- A call that does not panic. -/
theorem Exchange.along_cons_iff {P : Exchange → Call → Prop} {calls : List Call}
    (hstep : (x.session.step call).isSome = true) :
    Along Exchange.step P x (call :: calls) ↔
      P x call ∧ Along Exchange.step P
        { session := (x.session.perform call).session
          sending := x.sendingAfter call
          receiving := x.receivingAfter call } calls := by
  obtain ⟨session, hsession⟩ := Option.isSome_iff_exists.mp hstep
  rw [(ClientSession.step_eq_some.mp hsession).2]
  simp only [Along, Exchange.step, hsession, Option.map_some, Option.some.injEq, forall_eq']

/-- A handshake that begins with this call is recorded; the others go on to wait for their
PUBREC until it arrives. -/
theorem Stuck.published_step (h : Stuck x) {k : UInt16}
    (hk : x.sendingAfter call k = .published) :
    ∃ p, (x.session.perform call).session.pendingQosSend.lookup k = some p ∧ p.next = .pubRec := by
  cases call with
  | handle packet ok =>
      have hkept : x.sending k = .published → (∀ r, packet = .pubRec r → r.packetId ≠ k) →
          ∃ p, (x.session.handlePacket ok packet).session.pendingQosSend.lookup k = some p ∧
            p.next = .pubRec := by
        intro hpublished hother
        obtain ⟨p, hlookup, hp⟩ := h.published k hpublished
        refine ⟨p, (ClientSession.lookup_send_handlePacket h.autoAck).mpr ⟨hlookup, fun hack => ?_⟩, hp⟩
        rw [hp] at hack
        cases packet with
        | pubRec r => exact hother r rfl (Prod.mk.inj (Option.some.inj hack)).1
        | _ => cases hack
      cases packet with
      | pubRec r =>
          by_cases hr : k = r.packetId
          · rw [Exchange.sendingAfter, hr, Function.update_self] at hk
            cases hk
          · rw [Exchange.sendingAfter, Function.update_of_ne hr] at hk
            refine hkept hk fun r' hr' => ?_
            cases hr'
            exact fun heq => hr heq.symm
      | pubComp r =>
          by_cases hr : k = r.packetId
          · rw [Exchange.sendingAfter, hr, Function.update_self] at hk
            cases hk
          · rw [Exchange.sendingAfter, Function.update_of_ne hr] at hk
            exact hkept hk fun r' hr' => by cases hr'
      | _ => exact hkept hk fun r' hr' => by cases hr'
  | write packet ok =>
      have hkept : x.sending k = .published →
          ∀ s : ClientSession, (∀ p, x.session.pendingQosSend.lookup k = some p →
            s.pendingQosSend.lookup k = some p) →
          ∃ p, s.pendingQosSend.lookup k = some p ∧ p.next = .pubRec := by
        intro hpublished s hs
        obtain ⟨p, hlookup, hp⟩ := h.published k hpublished
        exact ⟨p, hs p hlookup, hp⟩
      cases packet with
      | publish p =>
          have hold : x.sending k = .published →
              ∃ q, (x.session.writeNext ok (.publish p)).session.pendingQosSend.lookup k = some q ∧
                q.next = .pubRec := by
            refine fun hpublished => hkept hpublished _ fun q hq => ?_
            obtain ⟨hsame, -⟩ | ⟨packetId, entry, hnot, hinsert, -⟩ :=
              ClientSession.writeNext_publish x.session ok p
            · rw [hsame]
              exact hq
            · rw [hinsert]
              refine lookup_insert_eq.mpr (.inr ⟨?_, hq⟩)
              rintro rfl
              exact hnot (mem_of_lookup hq)
          cases ok with
          | false => exact hold hk
          | true =>
              simp only [Exchange.sendingAfter] at hk
              obtain ⟨-, hid⟩ | ⟨packetId, entry, -, hinsert, ⟨-, hid⟩ | ⟨hentry, hid⟩⟩ :=
                ClientSession.writeNext_publish x.session true p
              · rw [hid] at hk
                exact hold hk
              · rw [hid] at hk
                exact hold hk
              · rw [hid] at hk
                by_cases hne : k = packetId
                · refine ⟨entry, ?_, hentry⟩
                  rw [ClientSession.perform, hinsert, hne]
                  exact AList.lookup_insert _
                · exact hold ((Function.update_of_ne hne _ _).symm.trans hk)
      | pubRel r =>
          refine hkept ?_ _ fun p hp => hp
          cases ok with
          | false => exact hk
          | true =>
              by_cases hr : k = r.packetId
              · rw [Exchange.sendingAfter, hr, Function.update_self] at hk
                cases hk
              · rwa [Exchange.sendingAfter, Function.update_of_ne hr] at hk
      | disconnect d => exact hkept hk _ fun p hp => by cases ok <;> exact hp
      | _ => exact hkept hk _ fun p hp => hp

theorem Stuck.step (h : Stuck x) (hstep : x.step call = some x') : Stuck x' := by
  obtain ⟨session, hsession, rfl⟩ := Exchange.step_eq_some.mp hstep
  obtain ⟨-, rfl⟩ := ClientSession.step_eq_some.mp hsession
  refine ⟨(ClientSession.autoAck_step hsession).trans h.autoAck, fun k p hlookup => ?_,
    fun k p hlookup => ?_, fun k hk => h.published_step hk⟩
  · cases call with
    | handle packet ok =>
        exact h.sends k p ((ClientSession.lookup_send_handlePacket h.autoAck).mp hlookup).1
    | write packet ok =>
        rcases ClientSession.lookup_send_writeNext hlookup with hold | hnew
        · exact h.sends k p hold
        · exact hnew
  · cases call with
    | handle packet ok =>
        rcases ClientSession.lookup_recv_handlePacket h.autoAck hlookup with hold | hnew
        · exact h.receives k p hold
        · exact hnew
    | write packet ok => exact h.receives k p (sameRecv_writeNext.lookup k ▸ hlookup)

/-- A PUBREL finds no entry that expects it. -/
theorem Stuck.pubRel (h : Stuck x) {packetId : UInt16} {ok : Bool} :
    (x.session.handlePubRel ok packetId).result = .err ClientSession.unexpectedPacket := by
  unfold ClientSession.handlePubRel
  split
  · rfl
  · rename_i p hlookup
    simp only [if_neg (h.receives packetId p hlookup)]
    rfl

/-- A PUBCOMP finds no entry that expects it. -/
theorem Stuck.pubComp (h : Stuck x) (packetId : UInt16) :
    ∃ e reason, (x.session.handlePubComp packetId).result = .err e ∧ e.kind = .protocol reason := by
  unfold ClientSession.handlePubComp
  split
  · exact ⟨_, _, rfl, rfl⟩
  · rename_i p hlookup
    simp only [if_neg (h.sends packetId p hlookup)]
    exact ⟨_, _, rfl, rfl⟩

theorem Stuck.unfinished (h : Stuck x) (hproper : Proper x call) : Unfinished x call := by
  have haccepted : ∀ packet ok, call = .handle packet ok → ∀ e reason,
      (x.session.handlePacket ok packet).result = .err e → e.kind = .protocol reason → False :=
    fun packet ok hcall e reason he hkind => hproper.accepted packet ok hcall e he reason hkind
  cases call with
  | write packet ok => trivial
  | handle packet ok =>
      cases packet with
      | disconnect d => exact haccepted _ ok rfl _ _ rfl rfl
      | pubRel r =>
          refine haccepted _ ok rfl ClientSession.unexpectedPacket _ ?_ rfl
          simp only [ClientSession.handlePacket, ClientSession.passOn, h.pubRel]
          rfl
      | pubComp r =>
          obtain ⟨e, reason, he, hkind⟩ := h.pubComp r.packetId
          refine haccepted _ ok rfl e reason ?_ hkind
          simp only [ClientSession.handlePacket, ClientSession.passOn, he]
          rfl
      | publish p =>
          intro hqos hzero
          refine haccepted _ ok rfl (protocolError "no more QoS packets allowed" .protocolErr) _ ?_ rfl
          simp only [ClientSession.handlePacket, ClientSession.passOn,
            ClientSession.handleRecvPublish, hqos, hzero, if_true]
          rfl
      | _ => trivial

theorem Stuck.accepted (h : Stuck x) (hfollows : Follows x call) (hunfinished : Unfinished x call)
    {packet : Packet} {ok : Bool} (hcall : call = .handle packet ok) {e : MqttError}
    (he : (x.session.handlePacket ok packet).result = .err e) (reason : Reason) :
    e.kind ≠ .protocol reason := by
  subst hcall
  have hok : ∀ reply : Reply Unit, reply.result = .ok () →
      (ClientSession.passOn reply packet).result ≠ .err e := by
    intro reply hreply
    simp [ClientSession.passOn, hreply, Outcome.map]
  cases packet with
  | pingResponse p => cases he
  | disconnect d => cases hunfinished
  | pubRel r => cases hunfinished
  | pubComp r => cases hunfinished
  | pubAck r =>
      obtain ⟨p, hlookup, hp⟩ := hfollows
      refine absurd he (hok _ ?_)
      simp only [ClientSession.handlePubAck, hlookup, if_pos hp]
  | pubRec r =>
      obtain ⟨p, hlookup, hp⟩ := h.published r.packetId hfollows
      refine absurd he (hok _ ?_)
      simp only [ClientSession.handlePubRec, hlookup, if_pos hp, h.autoAck, Bool.false_eq_true, if_false]
  | publish publish =>
      revert he
      simp only [ClientSession.handlePacket, ClientSession.handleRecvPublish]
      split
      · intro he
        cases he
      · rename_i hqos
        rw [if_neg (hunfinished hqos)]
        split
        · refine fun he => absurd he (hok _ ?_)
          simp [ClientSession.recvQos1, ClientSession.insertRecv, h.autoAck]
        · intro he
          cases he
      · refine fun he => absurd he (hok _ ?_)
        rw [ClientSession.recvQos2_eq, h.autoAck]
        rfl
      · intro he
        cases he
  | _ => cases he

/-- Without a PUBREL from the peer no identifier gets as far as the PUBCOMP. -/
theorem receivingAfter_ne_released (hreleased : ∀ k, x.receiving k ≠ .released)
    (hunfinished : Unfinished x call) (k : UInt16) : x.receivingAfter call k ≠ .released := by
  have hupdate : ∀ packetId stage, stage ≠ Stage.released →
      Function.update x.receiving packetId stage k ≠ .released := by
    intro packetId stage hstage
    by_cases hk : k = packetId
    · rw [hk, Function.update_self]
      exact hstage
    · rw [Function.update_of_ne hk]
      exact hreleased k
  unfold Exchange.receivingAfter
  split
  · rename_i p _
    cases qos2Id (.publish p) with
    | some packetId => exact hupdate _ _ (by decide)
    | none => exact hreleased k
  · exact hupdate _ _ (by decide)
  · cases hunfinished
  · exact hupdate _ _ (by decide)
  · exact hreleased k

end

/-- Without `auto_ack` a run in which peer and application follow the handshakes meets no
protocol error, and ends its handshakes, exactly if no handshake gets to its end. -/
theorem proper_iff {state : SessionState} {calls : List Call} (hsend : state.pendingQosSend = ∅)
    (hrecv : state.pendingQosRecv = ∅)
    (hfollows : Along Exchange.step Follows (.start state) calls) :
    Along Exchange.step Proper (.start state) calls ↔
      Along Exchange.step Unfinished (.start state) calls := by
  constructor
  · intro hproper
    exact along_of_invariant (fun x call x' hx hcall hstep => ⟨hx.step hstep, hx.unfinished hcall⟩)
      (stuck_start hsend hrecv) hproper
  · intro hunfinished
    refine along_of_invariant (I := fun x => Stuck x ∧ ∀ k, x.receiving k ≠ .released)
      (fun x call x' hx hcall hstep => ?_) ⟨stuck_start hsend hrecv, fun k hk => by cases hk⟩
      (hfollows.and hunfinished)
    obtain ⟨hstuck, hreleased⟩ := hx
    obtain ⟨hfollow, hcall⟩ := hcall
    refine ⟨⟨hstuck.step hstep, ?_⟩, ?_, ?_, ?_⟩
    · obtain ⟨session, -, rfl⟩ := Exchange.step_eq_some.mp hstep
      exact receivingAfter_ne_released hreleased hcall
    · intro packet ok hpacket e he reason
      exact hstuck.accepted hfollow hcall hpacket he reason
    · rintro r ok rfl
      cases hcall
    · rintro r rfl
      exact absurd hfollow (hreleased r.packetId)

/-- A QoS 2 PUBLISH is written, its PUBREC arrives, and the PUBREL is written. -/
theorem proper_iff_released :
    Along Exchange.step Proper (.start (.new ""))
      [.write (.publish (publishOf .exactlyOnce (some 7))) true,
        .handle (.pubRec (.newWithPacketId .pubRec 7)) true,
        .write (.pubRel (.newWithPacketId .pubRel 7)) true] := by
  refine (proper_iff rfl rfl ?_).mpr ?_
  · refine (Exchange.along_cons_iff rfl).mpr ⟨trivial, ?_⟩
    refine (Exchange.along_cons_iff rfl).mpr ⟨rfl, ?_⟩
    exact (Exchange.along_cons_iff rfl).mpr ⟨rfl, trivial⟩
  · refine (Exchange.along_cons_iff rfl).mpr ⟨trivial, ?_⟩
    refine (Exchange.along_cons_iff rfl).mpr ⟨trivial, ?_⟩
    exact (Exchange.along_cons_iff rfl).mpr ⟨trivial, trivial⟩

/-! ## A handshake that gets to its end -/

theorem not_proper_of_pubComp :
    ∃ calls, Along Exchange.step Follows (.start (.new "")) calls ∧
      ¬ Along Exchange.step Proper (.start (.new "")) calls := by
  refine ⟨[.write (.publish (publishOf .exactlyOnce (some 7))) true,
    .handle (.pubRec (.newWithPacketId .pubRec 7)) true,
    .write (.pubRel (.newWithPacketId .pubRel 7)) true,
    .handle (.pubComp (.newWithPacketId .pubComp 7)) true], ?_, fun hproper => ?_⟩
  · refine (Exchange.along_cons_iff rfl).mpr ⟨trivial, ?_⟩
    refine (Exchange.along_cons_iff rfl).mpr ⟨rfl, ?_⟩
    refine (Exchange.along_cons_iff rfl).mpr ⟨rfl, ?_⟩
    exact (Exchange.along_cons_iff rfl).mpr ⟨rfl, trivial⟩
  · obtain ⟨-, h₁⟩ := (Exchange.along_cons_iff rfl).mp hproper
    obtain ⟨-, h₂⟩ := (Exchange.along_cons_iff rfl).mp h₁
    obtain ⟨-, h₃⟩ := (Exchange.along_cons_iff rfl).mp h₂
    obtain ⟨hlast, -⟩ := (Exchange.along_cons_iff rfl).mp h₃
    exact hlast.accepted _ _ rfl ClientSession.unexpectedPacket rfl _ rfl

end Client
end Vaux
