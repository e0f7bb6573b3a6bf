import Vaux.Broker.Addressed
import Vaux.Client.CarryOver
import Vaux.Network.Carriage

/-!
# The network of packets

One broker and any number of connections, each with the program at its other end and the
packets that are under way in both directions.  What is written arrives in order, each packet
as its own bytes are decoded.  A step is one of the broker, one of a program, or a packet that
is read.  A connection has a history, which no step reads.

There are no bytes here.  The connections of `Vaux.Sockets` have them, and are this network for
as long as all that is written is decoded over its own frames.
-/

namespace Vaux
namespace Network

open Wire Mqtt Machine

/-! ## Requests and answers -/

/-- What a client waits for an answer to. -/
inductive Request where
  | publish (packetId : UInt16)
  | subscribe (packetId : UInt16)
  | unsubscribe (packetId : UInt16)
  | ping
  deriving DecidableEq

/-- The identifier that a PUBLISH is acknowledged with, if its QoS is 1. -/
def offer : Packet → Option UInt16
  | .publish p => if p.qos = .ok .atLeastOnce then p.packetId else none
  | _ => none

def request : Packet → Option Request
  | .publish p => (offer (.publish p)).map .publish
  | .subscribe p => some (.subscribe p.packetId)
  | .unsubscribe p => some (.unsubscribe p.packetId)
  | .pingRequest _ => some .ping
  | _ => none

/-- The identifier of a PUBACK. -/
def confirmation : Packet → Option UInt16
  | .pubAck p => some p.packetId
  | _ => none

/-- The request that a packet of the broker answers. -/
def answer : Packet → Option Request
  | .pubAck p => some (.publish p.packetId)
  | .subAck p => some (.subscribe p.packetId)
  | .unsubAck p => some (.unsubscribe p.packetId)
  | .pingResponse _ => some .ping
  | _ => none

/-! ## State -/

/-- What a client runs on its connection. -/
inductive Program where
  | absent
  /-- The CONNECT is written, the CONNACK is awaited. -/
  | connecting (session : Client.ClientSession)
  | started (task : Client.Task)
  /-- There was no CONNACK, or it refused the connection. -/
  | gone

def Program.isAbsent : Program → Bool
  | .absent => true
  | _ => false

/-- The program after `connect`. -/
def greeted (reply : Client.Reply ConnAck) (senders : Client.Senders)
    (consumers : Nat → Client.Consumer) : Program :=
  match reply.result with
  | .ok _ => .started (.start reply.session senders consumers)
  | _ => .gone

structure Link where
  program : Program
  toBroker : List Packet
  toClient : List Packet
  /-- All that the client has written and read. -/
  written : List Packet
  read : List Packet
  /-- All that the handler has written and read. -/
  served : List Packet
  taken : List Packet

structure State where
  broker : Broker.State
  links : Nat → Link

inductive Label where
  | dial (n : Nat) (state : Client.SessionState) (uuid : String)
    (credentials : Option (String × Bytes)) (cleanStart : Bool) (will : Option WillMessage)
    (ok : Bool)
  /-- The client reads the first packet of its connection. -/
  | greet (n : Nat) (order : HashOrder) (senders : Client.Senders) (consumers : Nat → Client.Consumer)
  /-- The time to wait is over, or the stream fails. -/
  | abandon (n : Nat)
  /-- A turn of the task that reads no packet. -/
  | turn (n : Nat) (turn : Client.Turn)
  /-- The task reads a packet; `ok` is the outcome of what it writes in turn. -/
  | receive (n : Nat) (order : HashOrder) (ok : Bool)
  /-- The handler of the broker reads a packet. -/
  | arrive (n : Nat) (order : HashOrder)
  /-- A step of the broker that reads no packet. -/
  | broker (l : Broker.Label)

/-! ## Steps -/

namespace Link

/-- The requests that the client has written and the answers that it has read. -/
def asked (link : Link) : List Request := link.written.filterMap request

def answered (link : Link) : List Request := link.read.filterMap answer

/-- The QoS 1 publishes that the handler has written and the PUBACKs that it has read. -/
def offered (link : Link) : List UInt16 := link.served.filterMap offer

def confirmed (link : Link) : List UInt16 := link.taken.filterMap confirmation

def start : Link where
  program := .absent
  toBroker := []
  toClient := []
  written := []
  read := []
  served := []
  taken := []

/-- The client writes; nothing arrives of a write that fails. -/
def write (link : Link) (ok : Bool) (sent : List Packet) : Link :=
  if ok then
    { link with toBroker := link.toBroker ++ sent, written := link.written ++ sent }
  else link

/-- The broker writes. -/
def deliver (link : Link) (packets : List Packet) : Link :=
  { link with toClient := link.toClient ++ packets, served := link.served ++ packets }

/-- The broker reads what was first in the queue. -/
def take (link : Link) (rest : List Packet) (q : Packet) : Link :=
  { link with toBroker := rest, taken := link.taken ++ [q] }

/-- `connect` up to the wait for the CONNACK. -/
def dial (link : Link) (ok : Bool) (session : Client.ClientSession) (connect : Connect) :
    Option Link :=
  match link.program with
  | .absent =>
    some ({ link with program := if ok then .connecting session else .gone }.write ok [.connect connect])
  | _ => none

/-- `none` where `handle_connack` never returns. -/
def greet (link : Link) (order : HashOrder) (senders : Client.Senders)
    (consumers : Nat → Client.Consumer) : Option Link :=
  match link.program, link.toClient with
  | .connecting session, p :: rest => do
    let q ← p.carried order
    let reply ← session.awaitConnack [] (.packet q)
    some
      { link with
        toClient := rest
        read := link.read ++ [q]
        program := greeted reply senders consumers }
  | _, _ => none

def abandon (link : Link) : Option Link :=
  match link.program with
  | .connecting _ => some { link with program := .gone }
  | _ => none

end Link

/-- The outcome of what a turn writes. -/
def turnOk : Client.Turn → Bool
  | .keepAlive ok | .read _ ok | .outbound _ ok => ok
  | _ => true

/-- The turn reads a packet. -/
def readsPacket : Client.Turn → Bool
  | .read (.packet _) _ => true
  | _ => false

namespace Link

def turn (link : Link) (turn : Client.Turn) : Option Link :=
  match link.program with
  | .started task =>
    if readsPacket turn then none
    else
      (task.step turn).map fun task' =>
        { link with program := .started task' }.write (turnOk turn) (task.sends turn)
  | _ => none

def receive (link : Link) (order : HashOrder) (ok : Bool) : Option Link :=
  match link.program, link.toClient with
  | .started task, p :: rest => do
    let q ← p.carried order
    let task' ← task.step (.read (.packet q) ok)
    some
      ({ link with
          program := .started task'
          toClient := rest
          read := link.read ++ [q] }.write ok
        (task.sends (.read (.packet q) ok)))
  | _, _ => none

end Link

/-- What the broker writes to the connection `n` in a step. -/
def written (s : Broker.State) (n : Nat) : Broker.Label → List Packet
  | .act t c =>
    match (s.tasks t).todo with
    | .write p :: _ => if t = .connection n ∧ c.ok then [p] else []
    | _ => []
  | _ => []

/-- The step of the broker is one of its own: it reads no packet, and it has no event of a
connection that has not been made. -/
def ownStep (links : Nat → Link) : Broker.Label → Bool
  | .event n e => !e.isPacket && !(links n).program.isAbsent
  | _ => true

namespace State

def start (config : Broker.Config) : State where
  broker := .start config
  links := fun _ => .start

def setLink (net : State) (n : Nat) (link : Link) : State :=
  { net with links := Function.update net.links n link }

def arrive (net : State) (n : Nat) (order : HashOrder) : Option State :=
  match (net.links n).toBroker with
  | [] => none
  | p :: rest => do
    let q ← p.carried order
    let broker ← net.broker.step (.event n (.packet q))
    some ({ net with broker }.setLink n ((net.links n).take rest q))

def brokerStep (net : State) (l : Broker.Label) : Option State :=
  if ownStep net.links l then
    (net.broker.step l).map fun broker =>
      { broker, links := fun n => (net.links n).deliver (written net.broker n l) }
  else none

def step (net : State) : Label → Option State
  | .dial n state uuid credentials cleanStart will ok =>
    let session := Client.ClientSession.newFromClient state
    ((net.links n).dial ok session (session.connectPacket uuid credentials cleanStart will)).map
      (net.setLink n)
  | .greet n order senders consumers =>
    ((net.links n).greet order senders consumers).map (net.setLink n)
  | .abandon n => (net.links n).abandon.map (net.setLink n)
  | .turn n turn => ((net.links n).turn turn).map (net.setLink n)
  | .receive n order ok => ((net.links n).receive order ok).map (net.setLink n)
  | .arrive n order => net.arrive n order
  | .broker l => net.brokerStep l

end State

end Network
end Vaux
