import Vaux.Client.Session
import Vaux.Machine.Table

/-!
# The receive window of a client

A PUBLISH takes a place in the window and an entry in the map.  An identifier that is
repeated takes the place again and only overwrites the entry, QoS 2 does not look whether
there is a place left, and an acknowledgement that the application writes gives nothing
back.  Otherwise the counter and the map account for the receive maximum.
-/

namespace Vaux
namespace Client

open Wire Mqtt Machine

/-- A session, and as history the messages taken in that are not fully acknowledged. -/
structure Inbox where
  session : ClientSession
  unacknowledged : List UInt16

/-- The packet is the last of the handshake of a message. -/
def completes : Packet → Option UInt16
  | .pubAck p => some p.packetId
  | .pubComp p => some p.packetId
  | _ => none

/-- The identifier of a message that is taken in. -/
def ClientSession.takesIn (self : ClientSession) : Call → Option UInt16
  | .handle (.publish p) _ =>
    match p.qos with
    | .ok .atLeastOnce => if self.qosRecvRemaining = 0 then none else p.packetId
    | .ok .exactlyOnce => p.packetId
    | _ => none
  | _ => none

/-- What is left unacknowledged by a call that is given `taken` and sends `sent`. -/
def unacknowledgedAfter (ok : Bool) (sent : List Packet) (taken : List UInt16) : List UInt16 :=
  if ok then taken.filter fun packetId => packetId ∉ sent.filterMap completes else taken

namespace Inbox

/-- A client that was built with a receive maximum. -/
def start (state : SessionState) (R : UInt16) : Inbox where
  session := .newFromClient (state.withReceiveMax R)
  unacknowledged := []

def step (self : Inbox) (call : Call) : Option Inbox :=
  (self.session.step call).map fun session =>
    { session
      unacknowledged :=
        unacknowledgedAfter call.ok (self.session.perform call).sent
          ((self.session.takesIn call).toList ++ self.unacknowledged) }

end Inbox

/-- The counter and the map account for the receive maximum, the counter has not been
decremented at zero, and it is full when everything is acknowledged. -/
structure Balanced (R : UInt16) (b : Inbox) : Prop where
  sum : b.session.qosRecvRemaining.toNat + b.session.pendingQosRecv.entries.length = R.toNat
  underflow : b.session.underflow = false
  restored : b.unacknowledged = [] → b.session.qosRecvRemaining = R.toUInt64

/-- No message is taken in under an identifier that is pending, none of QoS 2 without a
place in the window, and the application completes no handshake of a pending message. -/
def Regular (b : Inbox) : Call → Prop
  | .handle (.publish p) _ =>
    (p.qos = .ok .exactlyOnce → b.session.qosRecvRemaining ≠ 0) ∧
      ∀ packetId, b.session.takesIn (.handle (.publish p) true) = some packetId →
        packetId ∉ b.session.pendingQosRecv
  | .write packet ok =>
    ok = true → ∀ packetId, completes packet = some packetId →
      packetId ∉ b.session.pendingQosRecv
  | _ => True

/-- The invariant of regular runs. -/
structure Accounts (R : UInt16) (b : Inbox) : Prop where
  sum : b.session.qosRecvRemaining.toNat + b.session.pendingQosRecv.entries.length = R.toNat
  underflow : b.session.underflow = false
  mem : ∀ packetId, packetId ∈ b.unacknowledged ↔ packetId ∈ b.session.pendingQosRecv
  /-- Without `auto_ack` no entry gets past the PUBREC. -/
  manual : b.session.autoAck = false → ∀ packetId p,
    b.session.pendingQosRecv.lookup packetId = some p → p.next ≠ .pubRel

theorem accounts_start {state : SessionState} (hpending : state.pendingQosRecv = ∅) (R : UInt16) :
    Accounts R (.start state R) := by
  have hempty : (Inbox.start state R).session.pendingQosRecv = ∅ := hpending
  refine ⟨?_, rfl, fun packetId => ?_, fun _ packetId p hlookup => ?_⟩
  · rw [hempty]
    show R.toUInt64.toNat + 0 = R.toNat
    simp
  · rw [hempty]
    exact ⟨fun h => (by cases h), fun h => absurd h (AList.notMem_empty packetId)⟩
  · rw [hempty] at hlookup
    cases hlookup

theorem Accounts.balanced {R : UInt16} {b : Inbox} (h : Accounts R b) : Balanced R b := by
  refine ⟨h.sum, h.underflow, fun hnil => ?_⟩
  have hempty : b.session.pendingQosRecv.entries = [] := by
    rw [List.eq_nil_iff_forall_not_mem]
    intro e he
    have hmem : e.1 ∈ b.session.pendingQosRecv := AList.mem_keys.mpr (List.mem_keys_of_mem he)
    rw [← h.mem, hnil] at hmem
    cases hmem
  have hsum := h.sum
  rw [hempty] at hsum
  exact UInt64.toNat_inj.mp (by simpa using hsum)

section

variable {R : UInt16} {b : Inbox} {s' : ClientSession} {packetId : UInt16}

theorem Accounts.remaining_le (h : Accounts R b) : b.session.qosRecvRemaining.toNat ≤ 65535 := by
  have hsum := h.sum
  have hlt := R.toNat_lt
  omega

/-- A message is taken in. -/
theorem Accounts.take (h : Accounts R b) (hzero : b.session.qosRecvRemaining ≠ 0)
    (hremaining : s'.qosRecvRemaining = b.session.qosRecvRemaining - 1)
    (hlength : s'.pendingQosRecv.entries.length = b.session.pendingQosRecv.entries.length + 1)
    (hmem : ∀ k, k ∈ s'.pendingQosRecv ↔ k = packetId ∨ k ∈ b.session.pendingQosRecv)
    (hunderflow : s'.underflow = (b.session.underflow || b.session.qosRecvRemaining = 0))
    (hmanual : s'.autoAck = false → ∀ k p, s'.pendingQosRecv.lookup k = some p → p.next ≠ .pubRel) :
    Accounts R { session := s', unacknowledged := packetId :: b.unacknowledged } := by
  have hpos : b.session.qosRecvRemaining.toNat ≠ 0 := fun hnat => hzero (UInt64.toNat_inj.mp hnat)
  have hsub : s'.qosRecvRemaining.toNat = b.session.qosRecvRemaining.toNat - 1 := by
    rw [hremaining, UInt64.toNat_sub_of_le]
    · rfl
    · rw [UInt64.le_iff_toNat_le]
      exact Nat.pos_of_ne_zero hpos
  refine ⟨?_, ?_, fun k => ?_, hmanual⟩
  · have hsum := h.sum
    simp only [hsub, hlength]
    omega
  · simp only [hunderflow, h.underflow, Bool.false_or, decide_eq_false_iff_not]
    exact hzero
  · rw [List.mem_cons, h.mem, hmem]

/-- A message is fully acknowledged. -/
theorem Accounts.complete (h : Accounts R b) (hpending : packetId ∈ b.session.pendingQosRecv)
    (hremaining : s'.qosRecvRemaining = b.session.qosRecvRemaining + 1)
    (herase : s'.pendingQosRecv = b.session.pendingQosRecv.erase packetId)
    (hunderflow : s'.underflow = b.session.underflow) (hauto : s'.autoAck = b.session.autoAck) :
    Accounts R
      { session := s', unacknowledged := b.unacknowledged.filter (· ≠ packetId) } := by
  have hle := h.remaining_le
  have hadd : s'.qosRecvRemaining.toNat = b.session.qosRecvRemaining.toNat + 1 := by
    rw [hremaining, UInt64.toNat_add]
    exact Nat.mod_eq_of_lt (by rw [UInt64.toNat_one]; omega)
  refine ⟨?_, hunderflow.trans h.underflow, fun k => ?_, fun hmanual k p hlookup => ?_⟩
  · have hlength := length_erase hpending
    have hsum := h.sum
    simp only [hadd, herase]
    omega
  · rw [herase, AList.mem_erase, List.mem_filter, h.mem, decide_eq_true_eq, and_comm]
  · rw [herase, lookup_erase_eq] at hlookup
    exact h.manual (hauto ▸ hmanual) k p hlookup.2

/-- The receive side is the same. -/
structure SameRecv (s s' : ClientSession) : Prop where
  remaining : s'.qosRecvRemaining = s.qosRecvRemaining
  length : s'.pendingQosRecv.entries.length = s.pendingQosRecv.entries.length
  lookup : ∀ k, s'.pendingQosRecv.lookup k = s.pendingQosRecv.lookup k
  underflow : s'.underflow = s.underflow
  autoAck : s'.autoAck = s.autoAck

theorem SameRecv.refl (s : ClientSession) : SameRecv s s := ⟨rfl, rfl, fun _ => rfl, rfl, rfl⟩

theorem Accounts.same (h : Accounts R b) (hsame : SameRecv b.session s') {unacknowledged : List UInt16}
    (hmem : ∀ k, k ∈ unacknowledged ↔ k ∈ b.unacknowledged) :
    Accounts R { session := s', unacknowledged } := by
  refine ⟨?_, hsame.underflow.trans h.underflow, fun k => ?_, fun hmanual k p hlookup => ?_⟩
  · simp only [hsame.remaining, hsame.length]
    exact h.sum
  · rw [hmem, h.mem, ← AList.lookup_isSome, ← AList.lookup_isSome, hsame.lookup]
  · rw [hsame.lookup] at hlookup
    exact h.manual (hsame.autoAck ▸ hmanual) k p hlookup

/-! ## Calls -/

section

variable {s : ClientSession} {ok : Bool} {packet : Packet} {publish : Publish}

theorem sameRecv_writeQos {entry : Packet → QoSPacketState} :
    SameRecv s (s.writeQos ok entry publish).session := by
  unfold ClientSession.writeQos
  split
  · exact .refl s
  · split
    · exact .refl s
    · rename_i s₁ packetId hassign
      have hsame : SameRecv s s₁ := by
        unfold ClientSession.assignPacketId at hassign
        split at hassign <;> split at hassign <;> cases hassign <;>
          exact ⟨rfl, rfl, fun _ => rfl, rfl, rfl⟩
      exact ⟨hsame.remaining, hsame.length, hsame.lookup, hsame.underflow, hsame.autoAck⟩

/-- Nothing that is written changes the receive side. -/
theorem sameRecv_writeNext : SameRecv s (s.writeNext ok packet).session := by
  cases packet with
  | publish p =>
      simp only [ClientSession.writeNext]
      split
      · exact .refl s
      · exact sameRecv_writeQos
      · exact sameRecv_writeQos
      · exact .refl s
  | disconnect d => cases ok <;> exact ⟨rfl, rfl, fun _ => rfl, rfl, rfl⟩
  | _ => exact .refl s

/-- A write completes a handshake if its packet does. -/
theorem completes_of_writeNext {k : UInt16}
    (hk : k ∈ (s.writeNext ok packet).sent.filterMap completes) : completes packet = some k := by
  have hsent : (s.writeNext ok packet).sent = [packet] ∨
      ∀ x ∈ (s.writeNext ok packet).sent, completes x = none := by
    cases packet with
    | publish p =>
        right
        simp only [ClientSession.writeNext, ClientSession.writeQos]
        split
        · simp [ClientSession.sendPacket, completes]
        · split
          · simp [ClientSession.fail]
          · split <;> simp [ClientSession.fail, ClientSession.sendPacket, completes]
        · split
          · simp [ClientSession.fail]
          · split <;> simp [ClientSession.fail, ClientSession.sendPacket, completes]
        · simp
    | disconnect d => cases ok <;> exact .inl rfl
    | _ => exact .inl rfl
  obtain ⟨x, hx, hcompletes⟩ := List.mem_filterMap.mp hk
  rcases hsent with hsent | hsent
  · rw [hsent, List.mem_singleton] at hx
    exact hx ▸ hcompletes
  · rw [hsent x hx] at hcompletes
    cases hcompletes

theorem sameRecv_handlePubAck (packetId : UInt16) : SameRecv s (s.handlePubAck packetId).session := by
  unfold ClientSession.handlePubAck
  split
  · exact .refl s
  · split <;> exact ⟨rfl, rfl, fun _ => rfl, rfl, rfl⟩

theorem sameRecv_handlePubRec (packetId : UInt16) :
    SameRecv s (s.handlePubRec ok packetId).session := by
  unfold ClientSession.handlePubRec
  split
  · exact .refl s
  · split
    · rename_i p _ hp
      split
      · rw [ClientSession.releaseQos2_eq hp]
        cases ok <;> exact ⟨rfl, rfl, fun _ => rfl, rfl, rfl⟩
      · exact ⟨rfl, rfl, fun _ => rfl, rfl, rfl⟩
    · exact ⟨rfl, rfl, fun _ => rfl, rfl, rfl⟩

theorem sameRecv_handlePubComp (packetId : UInt16) :
    SameRecv s (s.handlePubComp packetId).session := by
  unfold ClientSession.handlePubComp
  split
  · exact .refl s
  · split <;> exact ⟨rfl, rfl, fun _ => rfl, rfl, rfl⟩

theorem completes_of_handlePubAck {packetId : UInt16} :
    (s.handlePubAck packetId).sent.filterMap completes = [] := by
  unfold ClientSession.handlePubAck
  split
  · rfl
  · split <;> rfl

theorem completes_of_handlePubRec {packetId : UInt16} :
    (s.handlePubRec ok packetId).sent.filterMap completes = [] := by
  unfold ClientSession.handlePubRec
  split
  · rfl
  · split
    · rename_i hp
      split
      · rw [ClientSession.releaseQos2_eq hp]
        rfl
      · rfl
    · rfl

theorem completes_of_handlePubComp {packetId : UInt16} :
    (s.handlePubComp packetId).sent.filterMap completes = [] := by
  unfold ClientSession.handlePubComp
  split
  · rfl
  · split <;> rfl

/-- An entry that is removed and put back. -/
theorem sameRecv_putBack {packetId : UInt16} {p : QoSPacketState}
    (hlookup : s.pendingQosRecv.lookup packetId = some p) :
    SameRecv s ((s.removeRecv packetId).insertRecv packetId p) := by
  exact ⟨rfl, length_insert_erase (mem_of_lookup hlookup), fun k => lookup_putBack hlookup, rfl, rfl⟩

end

/-! ## Steps -/

section

variable {ok : Bool} {packet : Packet} {publish : Publish} {b' : Inbox} {call : Call}

theorem unacknowledgedAfter_of_none {sent : List Packet} {taken : List UInt16}
    (h : sent.filterMap completes = []) : unacknowledgedAfter ok sent taken = taken := by
  simp [unacknowledgedAfter, h]

theorem unacknowledgedAfter_of_one {sent : List Packet} {taken : List UInt16}
    (h : sent.filterMap completes = [packetId]) :
    unacknowledgedAfter true sent taken = taken.filter (· ≠ packetId) := by
  simp [unacknowledgedAfter, h]

theorem Accounts.write (h : Accounts R b) (hregular : Regular b (.write packet ok)) :
    Accounts R
      { session := (b.session.writeNext ok packet).session
        unacknowledged :=
          unacknowledgedAfter ok (b.session.writeNext ok packet).sent b.unacknowledged } := by
  refine h.same sameRecv_writeNext fun k => ?_
  cases ok with
  | false => rfl
  | true =>
      simp only [unacknowledgedAfter, if_true, List.mem_filter, decide_eq_true_eq,
        and_iff_left_iff_imp]
      intro hk hsent
      exact hregular rfl k (completes_of_writeNext hsent) ((h.mem k).mp hk)

/-- A message that is taken in and not acknowledged yet. -/
theorem Accounts.insert (h : Accounts R b) (hnot : packetId ∉ b.session.pendingQosRecv)
    (hzero : b.session.qosRecvRemaining ≠ 0) {p : QoSPacketState} (hp : p.next ≠ .pubRel) :
    Accounts R
      { session := (b.session.insertRecv packetId p).decrementRecv
        unacknowledged := packetId :: b.unacknowledged } := by
  refine h.take hzero rfl (length_insert hnot) (fun k => AList.mem_insert _) rfl ?_
  intro hmanual k q hlookup
  rcases lookup_insert_eq.mp hlookup with ⟨-, rfl⟩ | ⟨-, hlookup⟩
  · exact hp
  · exact h.manual hmanual k q hlookup

/-- With `auto_ack` an entry moves on. -/
theorem Accounts.replace (h : Accounts R b) (hmem : packetId ∈ b.session.pendingQosRecv)
    (hauto : b.session.autoAck = true) (p : QoSPacketState) :
    Accounts R
      { session := (b.session.removeRecv packetId).insertRecv packetId p
        unacknowledged := b.unacknowledged } := by
  refine ⟨?_, h.underflow, fun k => ?_, fun hmanual => ?_⟩
  · have hlength : ((b.session.removeRecv packetId).insertRecv packetId p).pendingQosRecv.entries.length =
        b.session.pendingQosRecv.entries.length := length_insert_erase hmem
    rw [hlength]
    exact h.sum
  · rw [h.mem]
    by_cases hk : k = packetId
    · subst hk
      exact iff_of_true hmem ((AList.mem_insert _).mpr (.inl rfl))
    · refine Iff.trans ?_ (AList.mem_insert _).symm
      simp [hk, AList.mem_erase, ClientSession.removeRecv]
  · cases hauto.symm.trans hmanual

theorem Accounts.recvQos1 (h : Accounts R b) (hnot : packetId ∉ b.session.pendingQosRecv)
    (hzero : b.session.qosRecvRemaining ≠ 0) :
    Accounts R
      { session := (b.session.recvQos1 ok publish packetId).session
        unacknowledged :=
          unacknowledgedAfter ok (b.session.recvQos1 ok publish packetId).sent
            (packetId :: b.unacknowledged) } := by
  have hp : (QoSPacketState.newQos1 (.publish publish)).next ≠ .pubRel := fun h => by cases h
  have hinsert := h.insert hnot hzero hp
  cases hauto : b.session.autoAck with
  | false =>
      have hreply : b.session.recvQos1 ok publish packetId =
          { session := (b.session.insertRecv packetId (.newQos1 (.publish publish))).decrementRecv
            sent := []
            result := .ok () } := by
        simp [ClientSession.recvQos1, ClientSession.insertRecv, hauto]
      rw [hreply, unacknowledgedAfter_of_none rfl]
      exact hinsert
  | true =>
      cases ok with
      | false =>
          have hsession : (b.session.recvQos1 false publish packetId).session =
              (b.session.insertRecv packetId (.newQos1 (.publish publish))).decrementRecv := by
            simp [ClientSession.recvQos1, ClientSession.insertRecv, hauto]
          rw [hsession]
          exact hinsert
      | true =>
          -- the PUBACK is written: the entry and the place are given back
          have hreply : b.session.recvQos1 true publish packetId =
              { session := ((b.session.insertRecv packetId (.newQos1 (.publish publish))).decrementRecv.removeRecv
                  packetId).incrementRecv
                sent := [.pubAck (.newWithPacketId .pubAck packetId)]
                result := .ok () } := by
            simp [ClientSession.recvQos1, ClientSession.insertRecv, hauto]
          rw [hreply, unacknowledgedAfter_of_one rfl]
          exact hinsert.complete ((AList.mem_insert _).mpr (.inl rfl)) rfl rfl rfl rfl

theorem Accounts.recvQos2 (h : Accounts R b) (hnot : packetId ∉ b.session.pendingQosRecv)
    (hzero : b.session.qosRecvRemaining ≠ 0) :
    Accounts R
      { session := (b.session.recvQos2 ok publish packetId).session
        unacknowledged :=
          unacknowledgedAfter ok (b.session.recvQos2 ok publish packetId).sent
            (packetId :: b.unacknowledged) } := by
  have hp : (QoSPacketState.newQos2 (.publish publish)).next ≠ .pubRel := fun h => by cases h
  have hinsert := h.insert hnot hzero hp
  rw [ClientSession.recvQos2_eq]
  cases hauto : b.session.autoAck with
  | false =>
      simp only [Bool.false_eq_true, if_false]
      rw [unacknowledgedAfter_of_none rfl]
      exact hinsert
  | true =>
      simp only [if_true]
      rw [unacknowledgedAfter_of_none rfl]
      cases ok with
      | false => exact hinsert
      | true => exact hinsert.replace ((AList.mem_insert _).mpr (.inl rfl)) hauto _

theorem Accounts.pubRel (h : Accounts R b) :
    Accounts R
      { session := (b.session.handlePubRel ok packetId).session
        unacknowledged :=
          unacknowledgedAfter ok (b.session.handlePubRel ok packetId).sent b.unacknowledged } := by
  unfold ClientSession.handlePubRel
  split
  · rw [ClientSession.fail, unacknowledgedAfter_of_none rfl]
    exact h
  · rename_i p hlookup
    split
    · rename_i hp
      cases hauto : b.session.autoAck with
      | false => exact absurd hp (h.manual hauto packetId p hlookup)
      | true =>
          cases ok with
          | false => exact h.same (sameRecv_putBack hlookup) fun _ => Iff.rfl
          | true =>
              simp only [if_true]
              rw [unacknowledgedAfter_of_one rfl]
              exact h.complete (mem_of_lookup hlookup) rfl rfl rfl rfl
    · rw [ClientSession.fail, unacknowledgedAfter_of_none rfl]
      exact h.same (sameRecv_putBack hlookup) fun _ => Iff.rfl

theorem Accounts.recvPublish (h : Accounts R b) (hregular : Regular b (.handle (.publish publish) ok))
    (hpanic : (b.session.handleRecvPublish ok publish).result ≠ .panic) :
    Accounts R
      { session := (b.session.handleRecvPublish ok publish).session
        unacknowledged :=
          unacknowledgedAfter ok (b.session.handleRecvPublish ok publish).sent
            ((b.session.takesIn (.handle (.publish publish) ok)).toList ++ b.unacknowledged) } := by
  obtain ⟨hplace, hfresh⟩ := hregular
  have hkept : Accounts R
      { session := b.session, unacknowledged := unacknowledgedAfter ok [] b.unacknowledged } := by
    rw [unacknowledgedAfter_of_none rfl]
    exact h
  simp only [ClientSession.takesIn] at hfresh ⊢
  cases hqos : publish.qos with
  | err e => simp [ClientSession.handleRecvPublish, hqos] at hpanic
  | panic => simp [ClientSession.handleRecvPublish, hqos] at hpanic
  | ok q =>
      cases q with
      | atMostOnce =>
          simp only [ClientSession.handleRecvPublish, hqos]
          exact hkept
      | atLeastOnce =>
          by_cases hzero : b.session.qosRecvRemaining = 0
          · simp only [ClientSession.handleRecvPublish, hqos, hzero, if_true]
            exact hkept
          · cases hid : publish.packetId with
            | none => simp [ClientSession.handleRecvPublish, hqos, hzero, hid] at hpanic
            | some packetId =>
                simp only [hqos, if_neg hzero, hid, Option.some.injEq, forall_eq'] at hfresh
                simp only [ClientSession.handleRecvPublish, hqos, if_neg hzero, hid]
                exact h.recvQos1 hfresh hzero
      | exactlyOnce =>
          cases hid : publish.packetId with
          | none => simp [ClientSession.handleRecvPublish, hqos, hid] at hpanic
          | some packetId =>
              simp only [hqos, hid, Option.some.injEq, forall_eq'] at hfresh
              simp only [ClientSession.handleRecvPublish, hqos, hid]
              exact h.recvQos2 hfresh (hplace hqos)

theorem Accounts.handle (h : Accounts R b) (hregular : Regular b (.handle packet ok))
    (hpanic : (b.session.handlePacket ok packet).result ≠ .panic) :
    Accounts R
      { session := (b.session.handlePacket ok packet).session
        unacknowledged :=
          unacknowledgedAfter ok (b.session.handlePacket ok packet).sent
            ((b.session.takesIn (.handle packet ok)).toList ++ b.unacknowledged) } := by
  have hsame : ∀ {s' : ClientSession} {sent : List Packet}, SameRecv b.session s' →
      sent.filterMap completes = [] → Accounts R
        { session := s', unacknowledged := unacknowledgedAfter ok sent b.unacknowledged } := by
    intro s' sent hrecv hsent
    rw [unacknowledgedAfter_of_none hsent]
    exact h.same hrecv fun _ => Iff.rfl
  cases packet with
  | publish publish =>
      refine h.recvPublish hregular fun hresult => hpanic ?_
      simp [ClientSession.handlePacket, ClientSession.passOn, hresult]
  | pubRel p => exact h.pubRel
  | pubAck p => exact hsame (sameRecv_handlePubAck p.packetId) completes_of_handlePubAck
  | pubRec p => exact hsame (sameRecv_handlePubRec p.packetId) completes_of_handlePubRec
  | pubComp p => exact hsame (sameRecv_handlePubComp p.packetId) completes_of_handlePubComp
  | _ => exact hsame (.refl _) rfl

theorem Accounts.step (h : Accounts R b) (hregular : Regular b call) (hstep : b.step call = some b') :
    Accounts R b' := by
  obtain ⟨s', hsession, rfl⟩ := Option.map_eq_some_iff.mp hstep
  obtain ⟨hpanic, rfl⟩ := ClientSession.step_eq_some.mp hsession
  cases call with
  | write packet ok => exact h.write hregular
  | handle packet ok => exact h.handle hregular hpanic

end

end

/-- In a regular run the window is balanced in every state. -/
theorem balanced_of_regular {state : SessionState} (hpending : state.pendingQosRecv = ∅) {R : UInt16}
    {calls : List Call} {b : Inbox} (hregular : Along Inbox.step Regular (.start state R) calls)
    (hrun : run Inbox.step (.start state R) calls = some b) : Balanced R b :=
  (invariant_of_step (fun _ _ _ h hregular hstep => h.step hregular hstep)
    (accounts_start hpending R) hregular hrun).balanced

/-- The whole handshake of a QoS 2 message. -/
theorem balanced_of_regular_handshake : ∃ b,
    run Inbox.step (.start (.new "") 1)
      [.handle (.publish (publishOf .exactlyOnce (some 7))) true,
        .handle (.pubRel (.newWithPacketId .pubRel 7)) true] = some b ∧
      b.unacknowledged = [] ∧ Balanced 1 b := by
  have hfacts : (run Inbox.step (.start (.new "") 1)
      [.handle (.publish (publishOf .exactlyOnce (some 7))) true,
        .handle (.pubRel (.newWithPacketId .pubRel 7)) true]).map (·.unacknowledged) = some [] := by
    decide +kernel
  obtain ⟨b, hrun, hunacknowledged⟩ := Option.map_eq_some_iff.mp hfacts
  refine ⟨b, hrun, hunacknowledged, balanced_of_regular rfl ?_ hrun⟩
  refine fun _ _ => ⟨⟨fun _ => by decide, fun packetId _ => AList.notMem_empty packetId⟩, ?_⟩
  exact fun _ _ => ⟨trivial, trivial⟩

/-! ## A message that is repeated -/

theorem not_balanced_of_repeated : ∃ b,
    run Inbox.step (.start (.new "") 2)
      [.handle (.publish (publishOf .exactlyOnce (some 7))) true,
        .handle (.publish (publishOf .exactlyOnce (some 7))) true] = some b ∧ ¬ Balanced 2 b := by
  have hfacts : (run Inbox.step (.start (.new "") 2)
      [.handle (.publish (publishOf .exactlyOnce (some 7))) true,
        .handle (.publish (publishOf .exactlyOnce (some 7))) true]).map (fun b =>
      b.session.qosRecvRemaining.toNat + b.session.pendingQosRecv.entries.length) = some 1 := by
    decide +kernel
  obtain ⟨b, hrun, hsum⟩ := Option.map_eq_some_iff.mp hfacts
  refine ⟨b, hrun, fun hbalanced => ?_⟩
  have hlaw := hbalanced.sum
  rw [hsum] at hlaw
  cases hlaw

end Client
end Vaux
