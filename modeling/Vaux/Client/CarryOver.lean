import Vaux.Client.Task
import Vaux.Machine.Table

/-!
# A session that is carried over

`ClientSession::connect` on the state that an earlier task has returned.  It sends the CONNECT
and reads one packet, the CONNACK; what the state has pending it neither sends nor drops.
-/

namespace Vaux
namespace Client

open Wire Mqtt Machine

namespace ClientSession

/-- The CONNECT; `uuid` is the random client id of `Connect::default`. -/
def connectPacket (self : ClientSession) (uuid : String) (credentials : Option (String × Bytes))
    (cleanStart : Bool) (will : Option WillMessage) : Connect :=
  let connect :=
    { Connect.new uuid with keepAlive := UInt16.ofNat self.keepAlive }.setCleanStart cleanStart
  let connect :=
    { connect with clientId := self.clientId.getD connect.clientId }.setSessionExpiryInterval
      (UInt32.ofNat self.sessionExpiry)
  let connect :=
    match credentials with
    | some (username, password) => (connect.setUsername (some username)).setPassword (some password)
    | none => connect
  match will with
  | some will => connect.setWillMessage will
  | none => connect

/-- The reply to a read while the CONNACK is awaited.  The texts of the reason and of the read
error are left out. -/
def awaitConnack (self : ClientSession) (sent : List Packet) : Read → Option (Reply ConnAck)
  | .packet (.connAck connack) =>
    (self.handleConnack connack).map fun (session, result) =>
      { session, sent, result := match result with
          | .ok connack => .ok connack
          | .error e => .err e }
  | .packet (.disconnect d) =>
    some { self.fail (protocolError "disconnect received" d.reason) with sent }
  | .packet _ => some { self.fail (protocolError "unexpected packet type" .protocolErr) with sent }
  | .closed => some { self.fail (protocolError "no MQTT packet received" .protocolErr) with sent }
  | .error _ => some { self.fail (transportError "unable to read packet") with sent }

/-- `connect` with the outcome of the write and of the read, which does not come about if the
time to wait is over before.  A read error is never a timeout, so there is one read. -/
def connect (self : ClientSession) (order : HashOrder) (packet : Connect) (ok : Bool)
    (read : Option Read) : Option (Reply ConnAck) :=
  match packet.encodeBody order with
  | .error _ => some { session := self, sent := [], result := .panic }
  | .ok _ =>
    let sent := [.connect packet]
    if ok then
      match read with
      | some read => self.awaitConnack sent read
      | none =>
        some { self.fail { message := "unable to connect to broker", kind := .timeout } with sent }
    else some { self.fail (transportError "Unable to write packet(s) to broker") with sent }

end ClientSession

/-- The packets that a turn hands to the stream. -/
def Task.sends (t : Task) : Turn → List Packet
  | .keepAlive ok => (t.session.handleKeepAlive ok).sent
  | .read (.packet packet) ok => (t.session.handlePacket ok packet).sent
  | .outbound packet ok =>
    if qosControl packet && t.session.autoAck then [] else (t.session.writeNext ok packet).sent
  | _ => []

def Task.sendsAlong (t : Task) : List Turn → List Packet
  | [] => []
  | turn :: turns =>
    t.sends turn ++
      match t.step turn with
      | none => []
      | some t => t.sendsAlong turns

/-- Nothing comes in, and the application sends nothing. -/
def Turn.quiet : Turn → Bool
  | .read .. | .outbound .. => false
  | _ => true

/-- The packet with which a handshake that was cut off goes on. -/
def resumption (packetId : UInt16) (p : QoSPacketState) : Option Packet :=
  match p.next with
  | .pubAck | .pubRec =>
    match p.packet with
    | some (.publish q) => some (.publish { q with fixedHeader := q.fixedHeader.setDup true })
    | _ => none
  | .pubRel | .pubComp => some (.pubRel (.newWithPacketId .pubRel packetId))

/-- What was pending is sent again, or on a clean start is dropped. -/
def CarriedOver (cleanStart : Bool) (state : SessionState) (session : ClientSession)
    (sent : List Packet) : Prop :=
  if cleanStart then
    (∀ packetId ∈ state.pendingQosSend, packetId ∉ session.pendingQosSend) ∧
      ∀ packetId ∈ state.pendingQosRecv, packetId ∉ session.pendingQosRecv
  else
    ∀ packetId p, state.pendingQosSend.lookup packetId = some p →
      ∃ packet ∈ sent, resumption packetId p = some packet

/-- There is nothing to send again or to drop. -/
def NothingPending (cleanStart : Bool) (state : SessionState) : Prop :=
  state.pendingQosSend = ∅ ∧ (cleanStart = true → state.pendingQosRecv = ∅)

section

variable {s s' : ClientSession} {state : SessionState} {t : Task} {turns : List Turn}

theorem pending_handleConnack {connack : ConnAck} {r : Except MqttError ConnAck}
    (h : s.handleConnack connack = some (s', r)) :
    s'.pendingQosSend = s.pendingQosSend ∧ s'.pendingQosRecv = s.pendingQosRecv := by
  unfold ClientSession.handleConnack at h
  split at h
  · cases h
    exact ⟨rfl, rfl⟩
  · simp only at h
    split at h
    · cases h
    · cases h
      exact ⟨rfl, rfl⟩
    · cases h
      exact ⟨rfl, rfl⟩

/-- A successful connect has sent the CONNECT and left what is pending. -/
theorem connect_spec {order : HashOrder} {packet : Connect} {ok : Bool} {read : Option Read}
    {reply : Reply ConnAck} {connack : ConnAck}
    (h : s.connect order packet ok read = some reply) (hok : reply.result = .ok connack) :
    reply.sent = [.connect packet] ∧ reply.session.pendingQosSend = s.pendingQosSend ∧
      reply.session.pendingQosRecv = s.pendingQosRecv := by
  unfold ClientSession.connect at h
  split at h
  · cases h
    cases hok
  · simp only at h
    split at h
    · split at h
      · unfold ClientSession.awaitConnack at h
        split at h
        · obtain ⟨⟨s', r⟩, hconnack, rfl⟩ := Option.map_eq_some_iff.mp h
          exact ⟨rfl, pending_handleConnack hconnack⟩
        all_goals
          cases h
          cases hok
      · cases h
        cases hok
    · cases h
      cases hok

/-- Without packets that come in or go out the task sends pings. -/
theorem sends_of_quiet {turn : Turn} (hquiet : turn.quiet = true) {packet : Packet}
    (h : packet ∈ t.sends turn) : packet = .pingRequest .default := by
  cases turn with
  | keepAlive ok => exact List.mem_singleton.mp h
  | read | outbound => cases hquiet
  | _ => cases h

theorem sendsAlong_of_quiet (hquiet : ∀ turn ∈ turns, turn.quiet = true) {packet : Packet}
    (h : packet ∈ t.sendsAlong turns) : packet = .pingRequest .default := by
  induction turns generalizing t with
  | nil => cases h
  | cons turn turns ih =>
      obtain ⟨hturn, hturns⟩ := List.forall_mem_cons.mp hquiet
      rcases List.mem_append.mp h with h | h
      · exact sends_of_quiet hturn h
      · split at h
        · cases h
        · exact ih hturns h

theorem resumption_ne {packetId : UInt16} {p : QoSPacketState} {packet : Packet}
    (h : resumption packetId p = some packet) :
    (∀ connect, packet ≠ .connect connect) ∧ packet ≠ .pingRequest .default := by
  unfold resumption at h
  split at h
  all_goals first
    | split at h <;> cases h
      exact ⟨fun _ heq => (by cases heq), fun heq => (by cases heq)⟩
    | cases h
      exact ⟨fun _ heq => (by cases heq), fun heq => (by cases heq)⟩

theorem eq_empty_iff (m : PendingQos) : m = ∅ ↔ ∀ packetId, packetId ∉ m := by
  constructor
  · rintro rfl packetId
    exact AList.notMem_empty packetId
  · intro h
    refine AList.ext (List.eq_nil_iff_forall_not_mem.mpr fun e he => h e.1 ?_)
    exact AList.mem_keys.mpr (List.mem_map_of_mem he)

/-- The client carries a session over exactly when there is nothing to carry over. -/
theorem carriedOver_iff {order : HashOrder} {uuid : String} {credentials : Option (String × Bytes)}
    {cleanStart : Bool} {will : Option WillMessage} {ok : Bool} {read : Option Read}
    {reply : Reply ConnAck} {connack : ConnAck} (senders : Senders) (consumers : Nat → Consumer)
    (hconnect : (ClientSession.newFromClient state).connect order
      ((ClientSession.newFromClient state).connectPacket uuid credentials cleanStart will) ok read =
        some reply)
    (hok : reply.result = .ok connack) (hquiet : ∀ turn ∈ turns, turn.quiet = true) :
    CarriedOver cleanStart state reply.session
        (reply.sent ++ (Task.start reply.session senders consumers).sendsAlong turns) ↔
      NothingPending cleanStart state := by
  obtain ⟨hsent, hsend, hrecv⟩ := connect_spec hconnect hok
  have hsend' : reply.session.pendingQosSend = state.pendingQosSend := hsend
  have hrecv' : reply.session.pendingQosRecv = state.pendingQosRecv := hrecv
  unfold CarriedOver NothingPending
  cases cleanStart with
  | true =>
      rw [hsend', hrecv', if_pos rfl, eq_empty_iff, eq_empty_iff]
      refine and_congr (forall_congr' fun k => imp_not_self) ?_
      rw [imp_iff_right rfl]
      exact forall_congr' fun k => imp_not_self
  | false =>
      rw [if_neg Bool.false_ne_true, hsent, eq_empty_iff]
      constructor
      · refine fun hresent => ⟨fun k hk => ?_, fun h => (by cases h)⟩
        obtain ⟨p, hp⟩ := Option.isSome_iff_exists.mp (AList.lookup_isSome.mpr hk)
        obtain ⟨packet, hmem, hresumption⟩ := hresent k p hp
        obtain ⟨hconnect, hping⟩ := resumption_ne hresumption
        rcases List.mem_append.mp hmem with hmem | hmem
        · exact hconnect _ (List.mem_singleton.mp hmem)
        · exact hping (sendsAlong_of_quiet hquiet hmem)
      · rintro ⟨hempty, -⟩ k p hp
        exact absurd (mem_of_lookup hp) (hempty k)

end

/-- The state of a task that was cut off with QoS 2 publish 7 on its way. -/
def cutOff : SessionState :=
  { SessionState.new "" with
    pendingQosSend := (∅ : PendingQos).insert 7 (.newQos2 (.publish (publishOf .exactlyOnce (some 7)))) }

/-- The state of a task that was cut off in front of the PUBREC for QoS 2 publish 9. -/
def halfReceived : SessionState :=
  { SessionState.new "" with
    pendingQosRecv := (∅ : PendingQos).insert 9 (.newQos2 (.publish (publishOf .exactlyOnce (some 9)))) }

/-- A connect of the state that the broker accepts. -/
def reconnect (state : SessionState) (cleanStart : Bool) : Option (Reply ConnAck) :=
  (ClientSession.newFromClient state).connect .sorted
    ((ClientSession.newFromClient state).connectPacket "" none cleanStart none) true
    (some (.packet (.connAck .default)))

theorem exists_reconnect (state : SessionState) (cleanStart : Bool)
    (h : ((reconnect state cleanStart).map (·.result)) = some (.ok .default)) :
    ∃ reply, reconnect state cleanStart = some reply ∧ reply.result = .ok .default :=
  Option.map_eq_some_iff.mp h

/-- The task after the connect, with one consumer. -/
def Reply.task (reply : Reply ConnAck) : Task :=
  .start reply.session { packetOut := 0, filterChannel := ∅ }
    fun _ => { queue := [], capacity := 1, closed := false }

/-- Two pings, one of which fails. -/
def pingTurns : List Turn := [.keepAlive true, .keepAlive false]

/-- A start that is not clean leaves what was half received, and has nothing to send; of a
publish that was cut off it sends nothing. -/
theorem carriedOver_iff_pingTurns :
    (∃ reply, reconnect halfReceived false = some reply ∧ 9 ∈ reply.session.pendingQosRecv ∧
      CarriedOver false halfReceived reply.session
        (reply.sent ++ reply.task.sendsAlong pingTurns)) ∧
    ∃ reply, reconnect cutOff false = some reply ∧
      ¬ CarriedOver false cutOff reply.session
        (reply.sent ++ reply.task.sendsAlong pingTurns) := by
  have hquiet : ∀ turn ∈ pingTurns, turn.quiet = true := by decide
  constructor
  · obtain ⟨reply, hconnect, hok⟩ := exists_reconnect halfReceived false (by decide +kernel)
    refine ⟨reply, hconnect, ?_, (carriedOver_iff _ _ hconnect hok hquiet).mpr ?_⟩
    · rw [(connect_spec hconnect hok).2.2]
      decide
    · exact ⟨rfl, fun hclean => by cases hclean⟩
  · obtain ⟨reply, hconnect, hok⟩ := exists_reconnect cutOff false (by decide +kernel)
    refine ⟨reply, hconnect, fun hcarried => ?_⟩
    have hnothing := (carriedOver_iff _ _ hconnect hok hquiet).mp hcarried
    have hmem : 7 ∈ cutOff.pendingQosSend := by decide
    exact (eq_empty_iff _).mp hnothing.1 7 hmem

theorem exists_cutOff (cleanStart : Bool) : ∃ reply, reconnect cutOff cleanStart = some reply ∧
      ∀ turns, (∀ turn ∈ turns, turn.quiet = true) →
        ¬ CarriedOver cleanStart cutOff reply.session
          (reply.sent ++ reply.task.sendsAlong turns) := by
  obtain ⟨reply, hconnect, hok⟩ :=
    exists_reconnect cutOff cleanStart (by cases cleanStart <;> decide +kernel)
  obtain ⟨hsent, hsend, -⟩ := connect_spec hconnect hok
  refine ⟨reply, hconnect, fun turns hquiet hcarried => ?_⟩
  have hmem : 7 ∈ cutOff.pendingQosSend := by decide
  cases cleanStart with
  | true => exact hcarried.1 7 hmem (hsend ▸ hmem)
  | false =>
      obtain ⟨packet, hpacket, hresumption⟩ := hcarried 7 _ rfl
      obtain ⟨hnew, hping⟩ := resumption_ne hresumption
      rw [hsent] at hpacket
      rcases List.mem_append.mp hpacket with hpacket | hpacket
      · exact hnew _ (List.mem_singleton.mp hpacket)
      · exact hping (sendsAlong_of_quiet hquiet hpacket)

/-- With neither kind of start is the publish dealt with, however long the task pings. -/
theorem not_carriedOver_cutOff :
    (∃ reply, reconnect cutOff false = some reply ∧
      ∀ turns, (∀ turn ∈ turns, turn.quiet = true) →
        ¬ CarriedOver false cutOff reply.session
          (reply.sent ++ reply.task.sendsAlong turns)) ∧
    ∃ reply, reconnect cutOff true = some reply ∧
      ∀ turns, (∀ turn ∈ turns, turn.quiet = true) →
        ¬ CarriedOver true cutOff reply.session
          (reply.sent ++ reply.task.sendsAlong turns) :=
  ⟨exists_cutOff false, exists_cutOff true⟩

end Client
end Vaux
