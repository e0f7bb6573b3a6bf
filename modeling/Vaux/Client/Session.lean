import Mathlib.Data.List.AList
import Vaux.Machine.Run
import Vaux.Mqtt.Packet

/-!
# The session of a client

`ClientSession` of the client's `session.rs` with the `SessionState` it works on.  A call
is given the outcome of its one write to the stream; what it returns is the state it
leaves, the packet it handed to the stream and its result.  The counters are 64-bit
words; a subtraction from zero, which panics in a debug build and wraps in a release
build, wraps here and is recorded.
-/

namespace Vaux
namespace Client

open Wire Mqtt Machine

/-! ## Data -/

inductive ErrorKind where
  | codec
  | protocol (reason : Reason)
  | io
  | connection
  | timeout
  | transport
  | session
  | channel
  deriving DecidableEq

structure MqttError where
  message : String
  kind : ErrorKind
  deriving DecidableEq

inductive QoSPacket where
  | pubAck
  | pubRec
  | pubRel
  | pubComp
  deriving DecidableEq

structure QoSPacketState where
  packetId : UInt16
  packet : Option Packet
  next : QoSPacket

namespace QoSPacketState

def newQos1 (packet : Packet) : QoSPacketState :=
  { packetId := 0, packet := some packet, next := .pubAck }

def newQos2 (packet : Packet) : QoSPacketState :=
  { packetId := 0, packet := some packet, next := .pubRec }

/-- `QoSPacketState::next`. -/
def advance (self : QoSPacketState) : Option QoSPacketState :=
  match self.next with
  | .pubAck => none
  | .pubRec => some { packetId := self.packetId, packet := none, next := .pubRel }
  | .pubRel => some { packetId := self.packetId, packet := none, next := .pubComp }
  | .pubComp => none

end QoSPacketState

/-- `HashMap<u16, QoSPacketState>`. -/
abbrev PendingQos := AList fun _ : UInt16 => QoSPacketState

/-- Durations are in seconds. -/
structure SessionState where
  clientId : Option String
  keepAlive : Nat
  sessionExpiry : Nat
  qosSendRemaining : UInt64
  pendingQosSend : PendingQos
  qosRecvRemaining : UInt64
  pendingQosRecv : PendingQos
  autoPacketId : Bool
  lastPacketId : UInt16
  autoAck : Bool
  pingresp : Bool

/-- `SessionState::new` with the random part of the client id. -/
def SessionState.new (uuid : String) : SessionState where
  clientId := some ("vaux-client-" ++ uuid)
  keepAlive := 60
  sessionExpiry := 600
  qosSendRemaining := 65535
  pendingQosSend := ∅
  qosRecvRemaining := 65535
  pendingQosRecv := ∅
  autoPacketId := true
  lastPacketId := 0
  autoAck := true
  pingresp := false

namespace SessionState

/-! The builder's setters for the modes and the receive maximum. -/

def withAutoAck (self : SessionState) (autoAck : Bool) : SessionState := { self with autoAck }

def withAutoPacketId (self : SessionState) (autoPacketId : Bool) : SessionState :=
  { self with autoPacketId }

def withReceiveMax (self : SessionState) (receiveMax : UInt16) : SessionState :=
  { self with qosRecvRemaining := receiveMax.toUInt64 }

end SessionState

structure ClientSession extends SessionState where
  connected : Bool
  /-- A counter has been decremented at zero. -/
  underflow : Bool

/-- What a call has done. -/
structure Reply (α : Type) where
  session : ClientSession
  sent : List Packet
  result : Outcome MqttError α

/-! ## Sending -/

/-- `MqttError::new(message, ErrorKind::Protocol(reason))`. -/
def protocolError (message : String) (reason : Reason) : MqttError :=
  { message, kind := .protocol reason }

def transportError (message : String) : MqttError := { message, kind := .transport }

def sessionError : MqttError := { message := "invalid session state", kind := .session }

namespace ClientSession

/-- `new_from_client`. -/
def newFromClient (state : SessionState) : ClientSession :=
  { state with connected := false, underflow := false }

def insertSend (self : ClientSession) (packetId : UInt16) (p : QoSPacketState) : ClientSession :=
  { self with pendingQosSend := self.pendingQosSend.insert packetId p }

def removeSend (self : ClientSession) (packetId : UInt16) : ClientSession :=
  { self with pendingQosSend := self.pendingQosSend.erase packetId }

def insertRecv (self : ClientSession) (packetId : UInt16) (p : QoSPacketState) : ClientSession :=
  { self with pendingQosRecv := self.pendingQosRecv.insert packetId p }

def removeRecv (self : ClientSession) (packetId : UInt16) : ClientSession :=
  { self with pendingQosRecv := self.pendingQosRecv.erase packetId }

def incrementSend (self : ClientSession) : ClientSession :=
  { self with qosSendRemaining := self.qosSendRemaining + 1 }

def incrementRecv (self : ClientSession) : ClientSession :=
  { self with qosRecvRemaining := self.qosRecvRemaining + 1 }

def decrementRecv (self : ClientSession) : ClientSession :=
  { self with
    qosRecvRemaining := self.qosRecvRemaining - 1
    underflow := self.underflow || self.qosRecvRemaining = 0 }

def fail {α : Type} (self : ClientSession) (e : MqttError) : Reply α :=
  { session := self, sent := [], result := .err e }

/-- `send_packet` with the outcome of the write. -/
def sendPacket (self : ClientSession) (ok : Bool) (packet : Packet) : Reply (Option Packet) where
  session := self
  sent := [packet]
  result := if ok then .ok none else .err (transportError "unable to write packet to stream")

/-- The loop that looks for an identifier which is not in use.  The fuel is the number
of identifiers, of which fewer are in use. -/
def freeId (pending : PendingQos) : Nat → UInt16 → UInt16
  | 0, packetId => packetId
  | fuel + 1, packetId => if packetId ∈ pending then freeId pending fuel (packetId + 1) else packetId

/-- There is no room for another QoS packet. -/
def sendFull (self : ClientSession) : Bool :=
  65535 ≤ self.pendingQosSend.entries.length || self.qosSendRemaining = 0

/-- The identifier that a publish is sent with. -/
def assignPacketId (self : ClientSession) (p : Publish) :
    Except MqttError (ClientSession × UInt16) :=
  match p.packetId with
  | some packetId =>
    if packetId ∈ self.pendingQosSend then
      .error (protocolError "packet ID already in use" .malformedPacket)
    else .ok (self, packetId)
  | none =>
    if self.autoPacketId then
      let packetId := freeId self.pendingQosSend 65536 (self.lastPacketId + 1)
      .ok ({ self with lastPacketId := packetId }, packetId)
    else .error (protocolError "no packet ID for QoS > 0" .malformedPacket)

/-- The branch of `write_next` for a PUBLISH with QoS above 0; `entry` is the state that is
recorded for it. -/
def writeQos (self : ClientSession) (ok : Bool) (entry : Packet → QoSPacketState) (p : Publish) :
    Reply (Option Packet) :=
  if self.sendFull then self.fail (protocolError "pending QoS packets full" .protocolErr)
  else
    match self.assignPacketId p with
    | .error e => self.fail e
    | .ok (self, packetId) =>
      -- `set_packet_id` refuses nothing here, the QoS being above 0
      let p := { p with packetId := some packetId }
      (self.insertSend packetId (entry (.publish p))).sendPacket ok (.publish p)

def writeNext (self : ClientSession) (ok : Bool) : Packet → Reply (Option Packet)
  | .publish p =>
    match p.qos with
    | .ok .atMostOnce => self.sendPacket ok (.publish p)
    | .ok .atLeastOnce => self.writeQos ok .newQos1 p
    | .ok .exactlyOnce => self.writeQos ok .newQos2 p
    | _ => { session := self, sent := [], result := .panic }
  | .disconnect d =>
    if ok then { self.sendPacket ok (.disconnect d) with session := { self with connected := false } }
    else self.sendPacket ok (.disconnect d)
  | packet => self.sendPacket ok packet

/-! ## Receiving -/

def recvQos1 (self : ClientSession) (ok : Bool) (publish : Publish) (packetId : UInt16) :
    Reply Unit :=
  let self := self.insertRecv packetId (.newQos1 (.publish publish))
  if self.autoAck then
    let self := self.decrementRecv
    { session := if ok then (self.removeRecv packetId).incrementRecv else self
      sent := [.pubAck (.newWithPacketId .pubAck packetId)]
      result := if ok then .ok () else .err (transportError "unable to send pub ack") }
  else { session := self.decrementRecv, sent := [], result := .ok () }

def recvQos2 (self : ClientSession) (ok : Bool) (publish : Publish) (packetId : UInt16) :
    Reply Unit :=
  let self := (self.insertRecv packetId (.newQos2 (.publish publish))).decrementRecv
  if self.autoAck then
    let sent := [.pubRec (.newWithPacketId .pubRec packetId)]
    if ok then
      match self.pendingQosRecv.lookup packetId with
      | none => { session := self, sent, result := .err sessionError }
      | some p =>
        match p.advance with
        | none => { session := self.removeRecv packetId, sent, result := .panic }
        | some next =>
          { session := (self.removeRecv packetId).insertRecv packetId next, sent, result := .ok () }
    else { session := self, sent, result := .err (transportError "unable to send pub rec") }
  else { session := self, sent := [], result := .ok () }

def handleRecvPublish (self : ClientSession) (ok : Bool) (publish : Publish) : Reply Unit :=
  match publish.qos, publish.packetId with
  | .ok .atMostOnce, _ => { session := self, sent := [], result := .ok () }
  | .ok .atLeastOnce, packetId =>
    if self.qosRecvRemaining = 0 then
      self.fail (protocolError "no more QoS packets allowed" .protocolErr)
    else
      match packetId with
      | some packetId => self.recvQos1 ok publish packetId
      | none => { session := self, sent := [], result := .panic }
  | .ok .exactlyOnce, some packetId => self.recvQos2 ok publish packetId
  | _, _ => { session := self, sent := [], result := .panic }

def unexpectedPacket : MqttError := protocolError "unexpected packet" .protocolErr

def unexpectedControl : MqttError := protocolError "unexpected control packet" .protocolErr

def handlePubAck (self : ClientSession) (packetId : UInt16) : Reply Unit :=
  match self.pendingQosSend.lookup packetId with
  | none => self.fail unexpectedPacket
  | some p =>
    if p.next = .pubAck then
      { session := (self.removeSend packetId).incrementSend, sent := [], result := .ok () }
    else self.fail unexpectedControl

/-- The branch of a PUBREC that a pending PUBLISH expects, with `auto_ack`. -/
def releaseQos2 (self : ClientSession) (ok : Bool) (packetId : UInt16) (p : QoSPacketState) :
    Reply Unit :=
  match p.advance with
  | none => self.fail sessionError
  | some pubrecState =>
    let self := self.insertSend packetId pubrecState
    let sent := [.pubRel (.newWithPacketId .pubRel packetId)]
    if ok then
      let removed := self.removeSend packetId
      if pubrecState.next = .pubRel then
        match pubrecState.advance with
        | none => { session := removed, sent, result := .err sessionError }
        | some next => { session := removed.insertSend packetId next, sent, result := .ok () }
      else
        { session := removed.insertSend packetId pubrecState, sent, result := .err unexpectedControl }
    else { session := self, sent, result := .err (transportError "unable to send pub rel") }

def handlePubRec (self : ClientSession) (ok : Bool) (packetId : UInt16) : Reply Unit :=
  match self.pendingQosSend.lookup packetId with
  | none => self.fail unexpectedPacket
  | some p =>
    let removed := self.removeSend packetId
    if p.next = .pubRec then
      if self.autoAck then removed.releaseQos2 ok packetId p
      else { session := removed, sent := [], result := .ok () }
    else (removed.insertSend packetId p).fail unexpectedControl

def handlePubRel (self : ClientSession) (ok : Bool) (packetId : UInt16) : Reply Unit :=
  match self.pendingQosRecv.lookup packetId with
  | none => self.fail unexpectedPacket
  | some p =>
    let removed := self.removeRecv packetId
    if p.next = .pubRel then
      if self.autoAck then
        { session := if ok then removed.incrementRecv else removed.insertRecv packetId p
          sent := [.pubComp (.newWithPacketId .pubComp packetId)]
          result := if ok then .ok () else .err (transportError "unable to send pub comp") }
      else { session := removed, sent := [], result := .ok () }
    else (removed.insertRecv packetId p).fail unexpectedPacket

def handlePubComp (self : ClientSession) (packetId : UInt16) : Reply Unit :=
  match self.pendingQosSend.lookup packetId with
  | none => self.fail unexpectedPacket
  | some p =>
    let removed := self.removeSend packetId
    if p.next = .pubComp then
      { session := removed.incrementSend, sent := [], result := .ok () }
    else (removed.insertSend packetId p).fail unexpectedControl

/-- The packet goes on to the consumer unless the branch has failed. -/
def passOn (reply : Reply Unit) (packet : Packet) : Reply (Option Packet) where
  session := reply.session
  sent := reply.sent
  result := reply.result.map fun _ => some packet

/-- `format!("disconnect received: {d:?}")` is left out of the text. -/
def disconnectReceived (d : Disconnect) : MqttError := protocolError "disconnect received" d.reason

def handlePacket (self : ClientSession) (ok : Bool) (packet : Packet) : Reply (Option Packet) :=
  match packet with
  | .pingResponse _ =>
    { session := self, sent := [], result := .ok (if self.pingresp then some packet else none) }
  | .disconnect d => self.fail (disconnectReceived d)
  | .publish publish => passOn (self.handleRecvPublish ok publish) packet
  | .pubAck p => passOn (self.handlePubAck p.packetId) packet
  | .pubRec p => passOn (self.handlePubRec ok p.packetId) packet
  | .pubRel p => passOn (self.handlePubRel ok p.packetId) packet
  | .pubComp p => passOn (self.handlePubComp p.packetId) packet
  | _ => { session := self, sent := [], result := .ok (some packet) }

/-! ## CONNACK -/

/-- `none` where the lock of the client id, which the function already holds, is taken
again: it never returns. -/
def handleConnack (self : ClientSession) (connack : ConnAck) :
    Option (ClientSession × Except MqttError ConnAck) :=
  if connack.reason ≠ .success then
    some ({ self with connected := false },
      .error (protocolError "connection refused" connack.reason))
  else
    let self := { self with connected := true }
    match self.clientId, connack.assignedClientId with
    | none, some _ => none
    | none, none => some (self, .error (protocolError "no assigned client id" .invalidClientId))
    | some _, _ =>
      some
        ({ self with
            keepAlive := (connack.serverKeepAlive.map UInt16.toNat).getD self.keepAlive
            sessionExpiry := (connack.sessionExpiryInterval.map UInt32.toNat).getD self.sessionExpiry
            qosSendRemaining :=
              (connack.receiveMaximum.map UInt16.toUInt64).getD self.qosSendRemaining },
          .ok connack)

end ClientSession

/-! ## Runs -/

/-- A call of the client task, with the outcome of its write. -/
inductive Call where
  | write (packet : Packet) (ok : Bool)
  | handle (packet : Packet) (ok : Bool)

namespace Call

def ok : Call → Bool
  | .write _ ok | .handle _ ok => ok

end Call

def ClientSession.perform (self : ClientSession) : Call → Reply (Option Packet)
  | .write packet ok => self.writeNext ok packet
  | .handle packet ok => self.handlePacket ok packet

/-- A call that panics has no successor. -/
def ClientSession.step (self : ClientSession) (call : Call) : Option ClientSession :=
  match (self.perform call).result with
  | .panic => none
  | _ => some (self.perform call).session

theorem ClientSession.step_eq_some {s s' : ClientSession} {call : Call} :
    s.step call = some s' ↔ (s.perform call).result ≠ .panic ∧ (s.perform call).session = s' := by
  unfold step
  cases (s.perform call).result <;> simp

/-- A PUBLISH to the empty topic. -/
def publishOf (qos : QoSLevel) (packetId : Option UInt16) : Publish :=
  { Publish.default.setQos qos with packetId }

/-! ## The branches of the QoS 2 handshakes -/

namespace ClientSession

section

variable {s : ClientSession} {ok : Bool} {packetId : UInt16} {p : QoSPacketState}

/-- A QoS 2 PUBLISH waits for its PUBREL once the PUBREC is written. -/
theorem recvQos2_eq (publish : Publish) :
    s.recvQos2 ok publish packetId =
      let taken := (s.insertRecv packetId (.newQos2 (.publish publish))).decrementRecv
      if s.autoAck then
        { session :=
            if ok then
              (taken.removeRecv packetId).insertRecv packetId
                { packetId := 0, packet := none, next := .pubRel }
            else taken
          sent := [.pubRec (.newWithPacketId .pubRec packetId)]
          result := if ok then .ok () else .err (transportError "unable to send pub rec") }
      else { session := taken, sent := [], result := .ok () } := by
  have hlookup : (s.insertRecv packetId (.newQos2 (.publish publish))).decrementRecv.pendingQosRecv.lookup
      packetId = some (.newQos2 (.publish publish)) := AList.lookup_insert _
  unfold recvQos2
  simp only [hlookup]
  cases ok <;> rfl

/-- A PUBREC is answered with a PUBREL, after which the PUBCOMP is expected. -/
theorem releaseQos2_eq (hp : p.next = .pubRec) :
    s.releaseQos2 ok packetId p =
      let released := s.insertSend packetId { packetId := p.packetId, packet := none, next := .pubRel }
      { session :=
          if ok then
            (released.removeSend packetId).insertSend packetId
              { packetId := p.packetId, packet := none, next := .pubComp }
          else released
        sent := [.pubRel (.newWithPacketId .pubRel packetId)]
        result := if ok then .ok () else .err (transportError "unable to send pub rel") } := by
  unfold releaseQos2
  simp only [QoSPacketState.advance, hp]
  cases ok <;> rfl

end

end ClientSession

/-! ## The identifier of a publish -/

namespace ClientSession

section

variable {s : ClientSession} {ok : Bool} {m : PendingQos}

/-- The search has passed only identifiers that are in use. -/
theorem mem_of_freeId_mem {fuel : Nat} {packetId : UInt16} (h : freeId m fuel packetId ∈ m) :
    ∀ j ≤ fuel, packetId + UInt16.ofNat j ∈ m := by
  induction fuel generalizing packetId with
  | zero =>
      intro j hj
      obtain rfl : j = 0 := Nat.le_zero.mp hj
      simpa [freeId] using h
  | succ fuel ih =>
      by_cases hmem : packetId ∈ m
      · rw [freeId, if_pos hmem] at h
        intro j hj
        cases j with
        | zero => simpa using hmem
        | succ j =>
            have hnext := ih h j (by omega)
            rwa [UInt16.add_assoc, UInt16.add_comm 1, ← UInt16.ofNat_one,
              ← UInt16.ofNat_add] at hnext
      · rw [freeId, if_neg hmem] at h
        exact absurd h hmem

/-- The search finds an identifier if one is free. -/
theorem freeId_notMem (hlength : m.entries.length < 65536) (packetId : UInt16) :
    freeId m 65536 packetId ∉ m := by
  intro hmem
  have hall : ∀ k : UInt16, k ∈ m := by
    intro k
    have hk := mem_of_freeId_mem hmem (k - packetId).toNat (Nat.le_of_lt (k - packetId).toNat_lt)
    rwa [UInt16.ofNat_toNat, UInt16.add_comm, UInt16.sub_add_cancel] at hk
  have hsubset : List.range 65536 ⊆ m.keys.map UInt16.toNat := by
    intro n hn
    refine List.mem_map.mpr ⟨UInt16.ofNat n, AList.mem_keys.mp (hall _), ?_⟩
    exact UInt16.toNat_ofNat_of_lt' (List.mem_range.mp hn)
  have hle := (List.subperm_of_subset List.nodup_range hsubset).length_le
  rw [List.length_range, List.length_map, AList.keys, List.keys, List.length_map] at hle
  omega

/-- A publish with QoS above 0 is refused, or it is recorded under an identifier that is not
in use and handed to the stream. -/
theorem writeQos_cases (s : ClientSession) (ok : Bool) (entry : Packet → QoSPacketState)
    (p : Publish) :
    (∃ e, s.writeQos ok entry p = s.fail e) ∨
      ∃ packetId last, packetId ∉ s.pendingQosSend ∧
        s.writeQos ok entry p =
          ({ s with lastPacketId := last }.insertSend packetId
            (entry (.publish { p with packetId := some packetId }))).sendPacket ok
              (.publish { p with packetId := some packetId }) := by
  unfold writeQos
  split
  · exact .inl ⟨_, rfl⟩
  · rename_i hfull
    have hlength : s.pendingQosSend.entries.length < 65536 := by
      simp only [sendFull, Bool.or_eq_true, decide_eq_true_eq, not_or] at hfull
      omega
    unfold assignPacketId
    cases p.packetId with
    | some packetId =>
        by_cases hmem : packetId ∈ s.pendingQosSend
        · simp only [if_pos hmem]
          exact .inl ⟨_, rfl⟩
        · simp only [if_neg hmem]
          exact .inr ⟨packetId, s.lastPacketId, hmem, rfl⟩
    | none =>
        by_cases hauto : s.autoPacketId = true
        · simp only [if_pos hauto]
          exact .inr ⟨_, _, freeId_notMem hlength _, rfl⟩
        · simp only [if_neg hauto]
          exact .inl ⟨_, rfl⟩

end

end ClientSession

/-! ## The mode of acknowledgement -/

namespace ClientSession

section

variable {s s' : ClientSession} {ok : Bool} {packet : Packet} {call : Call}

theorem autoAck_writeNext : (s.writeNext ok packet).session.autoAck = s.autoAck := by
  have hqos : ∀ entry p, (s.writeQos ok entry p).session.autoAck = s.autoAck := by
    intro entry p
    obtain ⟨e, h⟩ | ⟨packetId, last, -, h⟩ := writeQos_cases s ok entry p
    · rw [h]
      rfl
    · rw [h]
      rfl
  cases packet with
  | publish p =>
      simp only [writeNext]
      split
      · rfl
      · exact hqos _ p
      · exact hqos _ p
      · rfl
  | disconnect d => cases ok <;> rfl
  | _ => rfl

/-- No packet that comes in changes the modes of the session. -/
theorem modes_handlePacket : (s.handlePacket ok packet).session.autoAck = s.autoAck ∧
    (s.handlePacket ok packet).session.connected = s.connected := by
  cases packet with
  | publish p =>
      simp only [handlePacket, passOn, handleRecvPublish]
      split
      · exact ⟨rfl, rfl⟩
      · split
        · exact ⟨rfl, rfl⟩
        · split
          · simp only [recvQos1]
            split
            · cases ok <;> exact ⟨rfl, rfl⟩
            · exact ⟨rfl, rfl⟩
          · exact ⟨rfl, rfl⟩
      · rw [recvQos2_eq]
        cases hauto : s.autoAck <;> cases ok <;> exact ⟨hauto, rfl⟩
      · exact ⟨rfl, rfl⟩
  | pubAck p =>
      simp only [handlePacket, passOn, handlePubAck]
      split
      · exact ⟨rfl, rfl⟩
      · split <;> exact ⟨rfl, rfl⟩
  | pubRec p =>
      simp only [handlePacket, passOn, handlePubRec]
      split
      · exact ⟨rfl, rfl⟩
      · split
        · rename_i hp
          split
          · rw [releaseQos2_eq hp]
            cases ok <;> exact ⟨rfl, rfl⟩
          · exact ⟨rfl, rfl⟩
        · exact ⟨rfl, rfl⟩
  | pubRel p =>
      simp only [handlePacket, passOn, handlePubRel]
      split
      · exact ⟨rfl, rfl⟩
      · split
        · split
          · cases ok <;> exact ⟨rfl, rfl⟩
          · exact ⟨rfl, rfl⟩
        · exact ⟨rfl, rfl⟩
  | pubComp p =>
      simp only [handlePacket, passOn, handlePubComp]
      split
      · exact ⟨rfl, rfl⟩
      · split <;> exact ⟨rfl, rfl⟩
  | _ => exact ⟨rfl, rfl⟩

theorem autoAck_step (hstep : s.step call = some s') : s'.autoAck = s.autoAck := by
  rw [← (step_eq_some.mp hstep).2]
  cases call with
  | write packet ok => exact autoAck_writeNext
  | handle packet ok => exact modes_handlePacket.1

end

end ClientSession

end Client
end Vaux
