import Vaux.Client.Session
import Vaux.Mqtt.RoundTrip

/-!
# The task of a client

The loop of `MqttClient::start`.  A turn is one branch of its `select!` with the outcome of
what the branch waits for and writes, or something that happens to a consumer channel in the
meantime.  The state carries a history, which no turn reads.
-/

namespace Vaux
namespace Client

open Wire Mqtt Machine

/-! ## Consumer channels -/

/-- A bounded channel; the consumer may have dropped its end. -/
structure Consumer where
  queue : List Packet
  capacity : Nat
  closed : Bool

inductive TrySendError where
  | full
  | closed

def Consumer.trySend (self : Consumer) (packet : Packet) : Except TrySendError Consumer :=
  if self.closed then .error .closed
  else if self.queue.length < self.capacity then .ok { self with queue := self.queue ++ [packet] }
  else .error .full

/-- The channels that `packet_out` and the filtered senders lead to, which need not be
different ones. -/
structure Senders where
  packetOut : Nat
  filterChannel : AList fun _ : PacketType => Nat

/-- The channel that a packet is bound for. -/
def Senders.channelOf (self : Senders) (packet : Packet) : Nat :=
  (self.filterChannel.lookup packet.packetType).getD self.packetOut

/-! ## The state -/

/-- Who has put a packet in a channel. -/
inductive Origin where
  | task
  | other
  deriving DecidableEq

structure ClientError where
  mqttError : MqttError
  state : SessionState

structure Task where
  session : ClientSession
  senders : Senders
  consumers : Nat → Consumer
  /-- The packet that its consumer had no room for. -/
  pendingForward : Option Packet
  result : Option (Except ClientError SessionState)
  /-- All that was put in a channel, and all that its consumer has taken out. -/
  entered : Nat → List (Origin × Packet)
  taken : Nat → List Packet
  /-- The packets that `handle_packet` has returned. -/
  returned : List Packet
  /-- The publishes for which a PUBACK or a PUBREC was handed to the stream. -/
  acknowledged : List Publish

/-- What `read_next` returns. -/
inductive Read where
  | packet (packet : Packet)
  | closed
  | error (e : MqttError)

inductive Turn where
  /-- The keep-alive timer runs out. -/
  | keepAlive (ok : Bool)
  /-- `forward_pending` is done. -/
  | forward
  | read (r : Read) (ok : Bool)
  /-- The application has sent a packet. -/
  | outbound (packet : Packet) (ok : Bool)
  /-- The application has dropped all senders. -/
  | outboundClosed
  /-- The consumer takes a packet, or drops its end. -/
  | consume (ch : Nat)
  | drop (ch : Nat)
  /-- Somebody else puts a packet in the channel. -/
  | other (ch : Nat) (packet : Packet)

/-- `MqttClient::qos_control`. -/
def qosControl : Packet → Bool
  | .pubAck _ | .pubRec _ | .pubRel _ | .pubComp _ => true
  | _ => false

/-- `handle_keep_alive`. -/
def ClientSession.handleKeepAlive (self : ClientSession) (ok : Bool) : Reply (Option Packet) :=
  self.sendPacket ok (.pingRequest .default)

def channelClosed : MqttError := { message := "unable to send packet: channel closed", kind := .channel }

/-- The publish that the packets acknowledge, if they acknowledge one. -/
def acknowledgedBy (packet : Packet) (sent : List Packet) : List Publish :=
  match packet, sent with
  | .publish p, [.pubAck _] | .publish p, [.pubRec _] => [p]
  | _, _ => []

namespace Task

/-- The task after a successful connect. -/
def start (session : ClientSession) (senders : Senders) (consumers : Nat → Consumer) : Task where
  session := session
  senders := senders
  consumers := consumers
  pendingForward := none
  result := none
  entered := fun ch => (consumers ch).queue.map fun packet => (.other, packet)
  taken := fun _ => []
  returned := []
  acknowledged := []

/-- `ClientError::new(e, session.end_session())`. -/
def fail (self : Task) (e : MqttError) : Task :=
  { self with result := some (.error { mqttError := e, state := self.session.toSessionState }) }

/-- The end of the loop's body. -/
def checkConnected (self : Task) : Task :=
  if self.result.isNone && !self.session.connected then
    { self with result := some (.ok self.session.toSessionState) }
  else self

/-- The packet is in the channel, which is `consumer` with it. -/
def enter (self : Task) (origin : Origin) (ch : Nat) (consumer : Consumer) (packet : Packet) : Task :=
  { self with
    consumers := Function.update self.consumers ch consumer
    entered := Function.update self.entered ch (self.entered ch ++ [(origin, packet)]) }

def enqueue (self : Task) (ch : Nat) (consumer : Consumer) (packet : Packet) : Task :=
  self.enter .task ch consumer packet

/-- The packets that the task has put in a channel. -/
def enqueued (self : Task) (ch : Nat) : List Packet :=
  ((self.entered ch).filter fun x => x.1 = .task).map Prod.snd

/-- `try_send` of a packet that was read. -/
def handOut (self : Task) (packet : Packet) : Task :=
  let ch := self.senders.channelOf packet
  match (self.consumers ch).trySend packet with
  | .ok consumer => self.enqueue ch consumer packet
  | .error .full => { self with pendingForward := some packet }
  | .error .closed => self.fail channelClosed

/-- `forward_pending`, which waits while the channel is full. -/
def forwardPending (self : Task) : Option Task :=
  match self.pendingForward with
  | none => none
  | some packet =>
    let ch := self.senders.channelOf packet
    match (self.consumers ch).trySend packet with
    | .ok consumer => some { self.enqueue ch consumer packet with pendingForward := none }
    | .error .full => none
    | .error .closed => some (self.fail channelClosed)

/-- A call of the session; one that panics takes the task with it. -/
def apply (self : Task) (reply : Reply (Option Packet)) : Option (Task × Except MqttError (Option Packet)) :=
  let self := { self with session := reply.session }
  match reply.result with
  | .ok out => some (self, .ok out)
  | .err e => some (self, .error e)
  | .panic => none

def readNext (self : Task) (r : Read) (ok : Bool) : Option Task :=
  match r with
  | .closed => some (self.fail (transportError "socket closed"))
  | .error e => some (self.fail e)
  | .packet packet =>
    let reply := self.session.handlePacket ok packet
    let self := { self with acknowledged := self.acknowledged ++ acknowledgedBy packet reply.sent }
    (self.apply reply).map fun
      | (self, .ok (some packet)) =>
        handOut { self with returned := self.returned ++ [packet] } packet
      | (self, .ok none) => self
      | (self, .error e) => self.fail e

def write (self : Task) (reply : Reply (Option Packet)) : Option Task :=
  (self.apply reply).map fun
    | (self, .ok _) => self.checkConnected
    | (self, .error e) => self.fail e

/-- A branch of `select!`. -/
def select (self : Task) : Turn → Option Task
  | .keepAlive ok => self.write (self.session.handleKeepAlive ok)
  | .forward => self.forwardPending.map checkConnected
  | .read r ok =>
    if self.pendingForward.isNone then (self.readNext r ok).map checkConnected else none
  | .outbound packet ok =>
    if qosControl packet && self.session.autoAck then some self
    else self.write (self.session.writeNext ok packet)
  | .outboundClosed => some (self.fail (transportError "packet_in channel closed"))
  | _ => none

def step (self : Task) (turn : Turn) : Option Task :=
  match turn with
  | .consume ch =>
    match (self.consumers ch).queue with
    | [] => none
    | packet :: queue =>
      some
        { self with
          consumers := Function.update self.consumers ch { self.consumers ch with queue }
          taken := Function.update self.taken ch (self.taken ch ++ [packet]) }
  | .drop ch =>
    some
      { self with
        consumers := Function.update self.consumers ch { self.consumers ch with closed := true } }
  | .other ch packet =>
    match (self.consumers ch).trySend packet with
    | .ok consumer => some (self.enter .other ch consumer packet)
    | .error _ => none
  | turn => if self.result.isNone then self.select turn else none

end Task

end Client
end Vaux
