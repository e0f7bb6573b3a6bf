import Vaux.Broker.Forward
import Vaux.Broker.Pool
import Vaux.Broker.TopicTree
import Vaux.Mqtt.Packet

/-!
# Connection handlers

`handle_client` of `lib.rs` and what it calls.  A task is a connection or the delayed
publication of a will.  It has the local variables of `handle_client` and a list of the
actions that are left of the event it handles.  An action is what the source does
between two points where it may have to wait: a critical section with the locks it
takes, a write to the stream, a send to a full channel.  The lock of the pool and
the lock that a takeover holds on the old session are part of the state; any other
section under the lock of a session does not wait inside and is one step.
-/

namespace Vaux
namespace Broker

open Wire Mqtt

/-! ## Data -/

inductive TaskId where
  | connection (n : Nat)
  | delay (token : Token)
  deriving DecidableEq

/-- Durations are in seconds.  With a channel size of zero `new_with_config` panics. -/
structure Config where
  defaultKeepAlive : Nat
  maxKeepAlive : Nat
  sessionExpiry : Nat
  sessionChannelSize : Nat
  sessionChannelSize_pos : 0 < sessionChannelSize
  maxActiveSessions : Option UInt32

inductive BrokerError where
  | codec (e : MqttCodecError)
  | io
  | stream
  deriving DecidableEq

/-- An `mpsc` channel.  It is closed when its receiver is dropped. -/
structure Channel where
  queue : List SessionControl
  capacity : Nat
  closed : Bool

/-- The task that `initiate_will` spawns for a will with a delay. -/
structure Delay where
  will : WillMessage
  cancelled : Bool
  /-- It has not published the will yet. -/
  waiting : Bool

/-- What `handle_connect` has settled before it enters the pool. -/
structure Admission where
  connect : Connect
  sessionId : String
  keepAlive : Nat
  sessionExpiry : Option Nat
  ack : ConnAck

inductive Action where
  /-- `handle_connect` up to the client id. -/
  | negotiate (connect : Connect)
  /-- The write lock of the pool, the capacity and the choice of the session. -/
  | enterPool (a : Admission)
  /-- `handle_takeover`: the read lock of the old session, the send, the pause. -/
  | lockOld (ref : Ref) (a : Admission) (target : Option Ref)
  | disconnectOld (ref : Ref) (a : Admission) (target : Option Ref)
  | settle (a : Admission) (target : Option Ref)
  /-- The new session, or the changes to the `target` that is resumed or taken over.
  The lock of the pool is released. -/
  | enroll (a : Admission) (target : Option Ref)
  | grantExpiry (ref : Ref) (expiry : Option Nat)
  | openSession (ref : Ref)
  | track (ref : Ref) (packetId : UInt16) (publish : Publish)
  | acceptSession (ref : Ref)
  | write (packet : Packet)
  | shutdown
  | takeWill (ref : Ref)
  | setPendingWill (ref : Ref) (token : Token)
  | clearWill (ref : Ref)
  | acknowledge (ref : Ref) (packetId : UInt16)
  | deactivate (sessionId : String)
  | subscribe (sessionId : String) (subscribe : Subscribe)
  | unsubscribe (sessionId : String) (unsubscribe : Unsubscribe)
  /-- `route_publish`: the subscribers, the read lock of the pool, each subscriber. -/
  | route (publish : Publish) (sender : String)
  | lockPool
  | deliver (publish : Publish) (sender : String) (sub : Subscriber)
  | leavePool
  /-- The return of `handle_client`. -/
  | finish (result : Except BrokerError Unit)

/-- The local variables of `handle_client`. -/
structure Task where
  connected : Bool
  clientSession : Option Ref
  sessionControl : Option ChannelId
  keepAlive : Nat
  todo : List Action
  result : Option (Except BrokerError Unit)

/-- `DEFAULT_KEEP_ALIVE`, which is 30 seconds by the factor 1.5. -/
def defaultKeepAlive : Nat := 45

def Task.start : Task where
  connected := false
  clientSession := none
  sessionControl := none
  keepAlive := defaultKeepAlive
  todo := []
  result := none

/-- `BrokerState` and what its `Arc`s lead to. -/
structure Shared where
  config : Config
  acceptConnections : Bool
  pool : SessionPool
  poolWriter : Option TaskId
  poolReaders : List TaskId
  /-- The session whose read lock a takeover holds while it sends. -/
  sending : Option Ref
  sessions : Sessions
  nextRef : Ref
  channels : ChannelId → Channel
  nextChannel : ChannelId
  delays : Token → Delay
  nextToken : Token
  tree : TopicTree

/-- What the environment decides about an action: the outcome of a write, the random
client id, the order in which a hash map is drained. -/
structure Choice where
  ok : Bool := true
  uuid : String := ""
  order : List (UInt16 × Publish) := []

/-- How a task goes on after an action. -/
inductive Next where
  | go (more : List Action)
  | opened (keepAlive : Nat) (control : Option ChannelId) (more : List Action)
  | accepted (ref : Ref)
  | returned (result : Except BrokerError Unit)

/-! ## Negotiation -/

/-- Seconds by `BROKER_KEEP_ALIVE_FACTOR`, which is 1.5: the product of a 16-bit value is
exact in an `f32`. -/
def brokerKeepAlive (secs : UInt16) : Nat := secs.toNat * 3 / 2

def negotiateKeepAlive (pool : SessionPool) (requested : UInt16) (ack : ConnAck) : Nat × ConnAck :=
  if requested < pool.defaultKeepAliveSecs then
    (brokerKeepAlive pool.defaultKeepAliveSecs, ack.setServerKeepAlive pool.defaultKeepAliveSecs)
  else if requested > pool.maxKeepAliveSecs then
    (brokerKeepAlive pool.maxKeepAliveSecs, ack.setServerKeepAlive pool.maxKeepAliveSecs)
  else (brokerKeepAlive requested, ack)

def negotiateExpiry (pool : SessionPool) (requested : Option UInt32) (ack : ConnAck) :
    Option Nat × ConnAck :=
  match requested with
  | some requested =>
    if requested > 0 then
      let maxExpiry := UInt32.ofNat pool.sessionExpiry
      if requested > maxExpiry then (some maxExpiry.toNat, ack.setSessionExpiry maxExpiry)
      else (some requested.toNat, ack)
    else (none, ack)
  | none => (none, ack)

def negotiate (pool : SessionPool) (connect : Connect) (uuid : String) : Admission :=
  let (keepAlive, ack) := negotiateKeepAlive pool connect.keepAlive .default
  let (sessionExpiry, ack) := negotiateExpiry pool connect.sessionExpiryInterval ack
  if connect.clientId.isEmpty then
    { connect, sessionId := uuid, keepAlive, sessionExpiry,
      ack := { ack with assignedClientId := some uuid } }
  else { connect, sessionId := connect.clientId, keepAlive, sessionExpiry, ack }

/-! ## The shared state -/

namespace Shared

def poolFree (sh : Shared) : Bool := sh.poolWriter.isNone && sh.poolReaders.isEmpty

/-- No takeover holds the read lock of the session. -/
def writable (sh : Shared) (ref : Ref) : Bool := sh.sending ≠ some ref

def setSession (sh : Shared) (ref : Ref) (session : Session) : Shared :=
  { sh with sessions := Function.update sh.sessions ref session }

def setChannel (sh : Shared) (ch : ChannelId) (channel : Channel) : Shared :=
  { sh with channels := Function.update sh.channels ch channel }

def push (sh : Shared) (ch : ChannelId) (msg : SessionControl) : Shared :=
  sh.setChannel ch { sh.channels ch with queue := (sh.channels ch).queue ++ [msg] }

/-- The receiver of a channel is dropped. -/
def close (sh : Shared) : Option ChannelId → Shared
  | some ch => sh.setChannel ch { sh.channels ch with closed := true }
  | none => sh

/-- `try_send_control` on a channel, `none` if it is full or closed. -/
def trySend (sh : Shared) (ch : ChannelId) (msg : SessionControl) : Option Shared :=
  if (sh.channels ch).closed then none
  else if (sh.channels ch).queue.length < (sh.channels ch).capacity then some (sh.push ch msg)
  else none

/-- `mpsc::channel(session_channel_size)`. -/
def newChannel (sh : Shared) : Shared :=
  { sh.setChannel sh.nextChannel
      { queue := [], capacity := sh.config.sessionChannelSize, closed := false } with
    nextChannel := sh.nextChannel + 1 }

def cancel (sh : Shared) : Option Token → Shared
  | some token =>
    { sh with delays := Function.update sh.delays token { sh.delays token with cancelled := true } }
  | none => sh

/-! ## Connecting -/

/-- The limit is reached and the client has no active session. -/
def rejects (sh : Shared) (a : Admission) : Bool :=
  (sh.pool.getActive a.sessionId).isNone && sh.pool.atCapacity sh.config.maxActiveSessions

/-- `handle_connect` under the lock of the pool, up to a takeover. -/
def choose (sh : Shared) (a : Admission) : Shared × Action :=
  if a.connect.cleanStart then
    match sh.pool.remove a.sessionId with
    | (some existing, pool) =>
      ({ sh with pool },
        if (sh.sessions existing).connected then .lockOld existing a none else .enroll a none)
    | (none, pool) => ({ sh with pool }, .enroll a none)
  else
    match sh.pool.activate sh.sessions a.sessionId with
    | some (ref, pool, sessions) => ({ sh with pool, sessions }, .enroll a (some ref))
    | none =>
      match sh.pool.getActive a.sessionId with
      | some ref => (sh, .lockOld ref a (some ref))
      | none => (sh, .enroll a none)

def enterPool (sh : Shared) (t : TaskId) (a : Admission) : Option (Shared × Next) :=
  if sh.poolFree then
    if sh.rejects a then
      some (sh, .go [.write (.connAck { a.ack with reason := .quotaExceeded }), .shutdown])
    else
      let (sh, next) := sh.choose a
      some ({ sh with poolWriter := some t }, .go [next])
  else none

/-- `disconnect(SessionTakeOver)`: the send waits while the channel is full. -/
def disconnectOld (sh : Shared) (ref : Ref) : Option Shared :=
  let ch := (sh.sessions ref).control
  if (sh.channels ch).closed then some { sh with sending := none }
  else (sh.trySend ch (.disconnect .sessionTakeOver)).map fun sh => { sh with sending := none }

/-- A new session in the pool. -/
def register (sh : Shared) (a : Admission) : Shared :=
  let session :=
    (Session.new a.sessionId a.connect.willMessage a.keepAlive sh.nextChannel).setConnected true
  let sh' := sh.newChannel.setSession sh.nextRef session
  { sh' with
    nextRef := sh.nextRef + 1
    pool := sh.pool.add sh'.sessions sh.nextRef }

/-- A session that is resumed or taken over. -/
def adopt (sh : Shared) (a : Admission) (ref : Ref) : Shared :=
  let (token, session) := (sh.sessions ref).cancelPendingWill
  -- a receiver that no connection has taken goes with the old channel
  let sh := (sh.cancel token).close (if session.receiver then some session.control else none)
  sh.newChannel.setSession ref ((session.setWill a.connect.willMessage).resetControl sh.nextChannel)

def enroll (sh : Shared) (a : Admission) (target : Option Ref) : Shared × Next :=
  let (sh, ref, ack) := match target with
    | none => (sh.register a, sh.nextRef, a.ack)
    | some ref => (sh.adopt a ref, ref, a.ack.setSessionPresent true)
  ({ sh with poolWriter := none },
    .go [.grantExpiry ref a.sessionExpiry, .write (.connAck ack), .openSession ref])

/-- The messages are tracked again and written one by one. -/
def redelivery (ref : Ref) (pending : List (UInt16 × Publish)) : List Action :=
  pending.flatMap fun (packetId, publish) =>
    [.track ref packetId (redelivered packetId publish),
      .write (.publish (redelivered packetId publish))]

def openSession (sh : Shared) (ref : Ref) (order : List (UInt16 × Publish)) : Shared × Next :=
  let (control, session) := (sh.sessions ref).takeControlReceiver
  (sh.setSession ref session.drainPending,
    .opened session.keepAlive control (redelivery ref order ++ [.acceptSession ref]))

/-! ## Wills and publishes -/

/-- The publish of `publish_will`. -/
def willPublish (will : WillMessage) : Publish :=
  let publish := ((Publish.newFromHeader (.new .publish)).toOption.getD .default)
  let publish := ({ publish with topicName := will.topic }.setQos will.qos).setRetain will.retain
  let publish :=
    { publish with
      payload := some will.payload
      messageExpiry := will.header.messageExpiry
      contentType := will.header.contentType
      responseTopic := will.header.responseTopic
      correlationData := will.header.correlationData }
  match will.header.payloadFormat with
  | some format => publish.setPayloadFormat format
  | none => publish

/-- `initiate_will` with the will it has taken. -/
def initiateWill (sh : Shared) (ref : Ref) : Option WillMessage → Shared × Next
  | none => (sh, .go [])
  | some will =>
    if will.header.willDelay.getD 0 = 0 then (sh, .go [.route (willPublish will) ""])
    else
      let delay := { will, cancelled := false, waiting := true }
      ({ sh with
          delays := Function.update sh.delays sh.nextToken delay
          nextToken := sh.nextToken + 1 },
        .go [.setPendingWill ref sh.nextToken])

/-- The body of the loop of `route_publish`. -/
def deliver (sh : Shared) (publish : Publish) (sender : String) (sub : Subscriber) : Option Shared :=
  if sub.noLocal ∧ sub.sessionId = sender then some sh
  else
    match sh.pool.getActive sub.sessionId with
    | none => some sh
    | some ref =>
      match handOver publish sub.qos (sh.sessions ref) with
      | .ok (out, target) =>
        let sh := sh.setSession ref target
        match sh.trySend target.control (.deliver out) with
        | some sh => some sh
        | none => some ((sh.trySend target.control (.disconnect .quotaExceeded)).getD sh)
      | _ => none

/-! ## Subscriptions -/

def grantedReason : QoSLevel → Reason
  | .atMostOnce => .success
  | .atLeastOnce => .grantedQoS1
  | .exactlyOnce => .grantedQoS2

def subscribeAll (sessionId : String) : TopicTree → List SubscriptionFilter → Option TopicTree
  | tree, [] => some tree
  | tree, filter :: filters => do
    let tree ← tree.subscribe filter.filter sessionId filter.qos filter.noLocal
    subscribeAll sessionId tree filters

def handleSubscribe (sh : Shared) (sessionId : String) (subscribe : Subscribe) :
    Option (Shared × SubAck) := do
  let suback := (SubAck.newWithPacketId subscribe.packetId).toOption.getD .default
  let tree ← subscribeAll sessionId sh.tree subscribe.filter
  some ({ sh with tree },
    { suback with
      reasonCodes := suback.reasonCodes ++ subscribe.filter.map fun f => grantedReason f.qos })

def unsubscribeAll (sessionId : String) :
    TopicTree → List String → Option (TopicTree × List Reason)
  | tree, [] => some (tree, [])
  | tree, topic :: topics => do
    let (tree, removed) ← tree.unsubscribe topic sessionId
    let (tree, reasons) ← unsubscribeAll sessionId tree topics
    some (tree, (if removed then .success else .noSubscribers) :: reasons)

def handleUnsubscribe (sh : Shared) (sessionId : String) (unsubscribe : Unsubscribe) :
    Option (Shared × UnsubAck) := do
  let (tree, reasons) ← unsubscribeAll sessionId sh.tree unsubscribe.topics
  some ({ sh with tree },
    { UnsubAck.default with packetId := unsubscribe.packetId, reasonCode := reasons })

/-! ## Actions -/

/-- One action of the task `t`, `none` where it has to wait. -/
def perform (sh : Shared) (t : TaskId) (c : Choice) : Action → Option (Shared × Next)
  | .negotiate connect =>
    if sh.poolWriter.isNone then some (sh, .go [.enterPool (Broker.negotiate sh.pool connect c.uuid)])
    else none
  | .enterPool a => sh.enterPool t a
  | .lockOld ref a target => some ({ sh with sending := some ref }, .go [.disconnectOld ref a target])
  | .disconnectOld ref a target => (sh.disconnectOld ref).map fun sh => (sh, .go [.settle a target])
  | .settle a target => some (sh, .go [.enroll a target])
  | .enroll a target => some (sh.enroll a target)
  | .grantExpiry ref expiry =>
    if sh.writable ref then
      match expiry with
      | some expiry => some (sh.setSession ref ((sh.sessions ref).setSessionExpiry expiry), .go [])
      | none => some (sh, .go [])
    else none
  | .openSession ref =>
    if sh.writable ref ∧ c.order.Perm (sh.sessions ref).pending then some (sh.openSession ref c.order)
    else none
  | .track ref packetId publish =>
    if sh.writable ref then
      some (sh.setSession ref ((sh.sessions ref).trackQosPublish packetId publish), .go [])
    else none
  | .acceptSession ref => some (sh, .accepted ref)
  | .write _ => some (sh, if c.ok then .go [] else .returned (.error .stream))
  | .shutdown => some (sh, if c.ok then .go [] else .returned (.error .stream))
  | .takeWill ref =>
    if sh.writable ref then
      let (will, session) := (sh.sessions ref).takeWill
      some ((sh.setSession ref session).initiateWill ref will)
    else none
  | .setPendingWill ref token =>
    if sh.writable ref then
      let (old, session) := (sh.sessions ref).setPendingWill token
      some ((sh.cancel old).setSession ref session, .go [])
    else none
  | .clearWill ref =>
    if sh.writable ref then some (sh.setSession ref (sh.sessions ref).clearWill, .go []) else none
  | .acknowledge ref packetId =>
    if sh.writable ref then
      some (sh.setSession ref ((sh.sessions ref).acknowledge packetId).2, .go [])
    else none
  | .deactivate sessionId =>
    if sh.poolFree then
      let (pool, sessions) := sh.pool.deactivate sh.sessions sessionId
      some ({ sh with pool, sessions }, .go [])
    else none
  | .subscribe sessionId subscribe =>
    (sh.handleSubscribe sessionId subscribe).map fun (sh, suback) => (sh, .go [.write (.subAck suback)])
  | .unsubscribe sessionId unsubscribe =>
    (sh.handleUnsubscribe sessionId unsubscribe).map fun (sh, unsuback) =>
      (sh, .go [.write (.unsubAck unsuback)])
  | .route publish sender =>
    (sh.tree.matchingSubscribers publish.topicName).map fun subscribers =>
      (sh, .go (.lockPool :: subscribers.map (.deliver publish sender) ++ [.leavePool]))
  | .lockPool =>
    if sh.poolWriter.isNone then some ({ sh with poolReaders := t :: sh.poolReaders }, .go []) else none
  | .deliver publish sender sub => (sh.deliver publish sender sub).map fun sh => (sh, .go [])
  | .leavePool => some ({ sh with poolReaders := sh.poolReaders.erase t }, .go [])
  | .finish result => some (sh, .returned result)

/-! ## Events -/

/-- `initiate_will`, then `deactivate`. -/
def ending (sh : Shared) (ref : Ref) : List Action :=
  [.takeWill ref, .deactivate (sh.sessions ref).id]

def handlePreConnect (sh : Shared) : Packet → List Action
  | .connect connect =>
    if sh.acceptConnections then [.negotiate connect]
    else [.write (.connAck { ConnAck.default with reason := .serverBusy }), .shutdown]
  | .pingRequest _ => [.write (.pingResponse .default)]
  | _ => [.write (.disconnect (.new .protocolErr))]

/-- `none` for a PUBLISH whose QoS bits are not a level, which the decoder never returns. -/
def handlePublish (publish : Publish) (sessionId : String) : Option (List Action) :=
  match publish.qos with
  | .ok .atLeastOnce =>
    match publish.packetId with
    | some packetId =>
      some [.write (.pubAck (.newWithPacketId .pubAck packetId)), .route publish sessionId]
    | none =>
      some [.write (.disconnect (.new .malformedPacket)),
        .finish (.error (.codec (.new "QoS-1 PUBLISH missing packet ID")))]
  | .ok _ => some [.route publish sessionId]
  | _ => none

def handlePacket (sh : Shared) (ref : Ref) : Packet → Option (List Action)
  | .pingRequest _ => some [.write (.pingResponse .default)]
  | .subscribe p => some [.subscribe (sh.sessions ref).id p]
  | .unsubscribe p => some [.unsubscribe (sh.sessions ref).id p]
  | .publish p => handlePublish p (sh.sessions ref).id
  | .pubAck p => some [.acknowledge ref p.packetId]
  | .disconnect p =>
    if p.reason = .success then some [.clearWill ref, .deactivate (sh.sessions ref).id]
    else some (sh.ending ref)
  | _ => some []

/-- A message of `handle_control`. -/
def handleControl (sh : Shared) (clientSession : Option Ref) : SessionControl → List Action
  | .disconnect reason =>
    match clientSession with
    | some ref =>
      (if reason = .sessionTakeOver then [] else [.deactivate (sh.sessions ref).id]) ++
        [.write (.disconnect (.new reason))]
    | none => [.shutdown, .finish (.ok ())]
  | .deliver publish => [.write (.publish publish)]

end Shared

/-- What ends the `select!` of `handle_client`. -/
inductive Event where
  | control
  | keepAliveExpired
  | packet (packet : Packet)
  | endOfStream
  | readError

namespace Shared

/-- The message that `handle_control` receives next. -/
def nextControl (sh : Shared) (task : Task) : Option SessionControl := do
  let ch ← task.sessionControl
  (sh.channels ch).queue.head?

/-- The branch of `select!` for an event: what is left to do. -/
def handle (sh : Shared) (task : Task) : Event → Option (Shared × List Action)
  | .control => do
    let ch ← task.sessionControl
    match (sh.channels ch).queue with
    | [] => none
    | msg :: queue =>
      some (sh.setChannel ch { sh.channels ch with queue }, sh.handleControl task.clientSession msg)
  | .keepAliveExpired =>
    match task.clientSession with
    | some ref => some (sh, sh.ending ref)
    | none => some (sh, [.shutdown, .finish (.ok ())])
  | .packet packet =>
    if task.connected then
      match task.clientSession with
      | some ref => (sh.handlePacket ref packet).map fun todo => (sh, todo)
      | none => some (sh, [])
    else some (sh, sh.handlePreConnect packet)
  | .endOfStream =>
    some (sh, (task.clientSession.map sh.ending).getD [] ++ [.finish (.ok ())])
  | .readError =>
    some (sh, (task.clientSession.map sh.ending).getD [] ++ [.finish (.error .stream)])

end Shared

/-- The local variables after an action. -/
def Task.after (task : Task) (rest : List Action) : Next → Task
  | .go more => { task with todo := more ++ rest }
  | .opened keepAlive control more =>
    { task with keepAlive, sessionControl := control, todo := more ++ rest }
  | .accepted ref => { task with clientSession := some ref, connected := true, todo := rest }
  | .returned result => { task with todo := [], result := some result }

end Broker
end Vaux
