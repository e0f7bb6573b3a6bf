import Vaux.Network.System

/-!
# The connections byte by byte

The broker and its clients over sockets.  Each direction of a connection is the bytes that are
on their way and the packet stream that they are read with.  When the stream asks for more, when
it has a packet and what it drops behind the packet is for `PacketStream` to say, whatever was
written.  A direction has a history, which no step reads.
-/

namespace Vaux
namespace Sockets

open Wire Mqtt Machine Async

/-! ## One direction -/

structure Pipe where
  stream : PacketStream
  /-- The bytes that the socket has not given yet. -/
  bytes : Bytes
  /-- All that was written, each with the order that its maps had, and all that was read. -/
  written : List (HashOrder × Packet)
  read : List Packet

namespace Pipe

def start (stream : PacketStream) : Pipe where
  stream := stream
  bytes := []
  written := []
  read := []

/-- `PacketStream::write` of a packet that can be encoded. -/
def write (self : Pipe) (order : HashOrder) (packet : Packet) : Option Pipe :=
  match packet.encode order with
  | .ok dest =>
    some { self with bytes := self.bytes ++ dest, written := self.written ++ [(order, packet)] }
  | .error _ => none

/-- What a step writes; nothing arrives of a write that fails. -/
def send (self : Pipe) (ok : Bool) (order : HashOrder) (packets : List Packet) : Option Pipe :=
  if ok then packets.foldlM (fun pipe packet => pipe.write order packet) self else some self

/-- A stream that asks for more gets up to `size + 1` bytes. -/
def fill (self : Pipe) (size : Nat) : Option Pipe :=
  match self.stream.poll with
  | .wants =>
    let n := min (size + 1) (min self.stream.room self.bytes.length)
    -- the end of the stream is an event of its own
    if n = 0 ∧ self.stream.readOffset = 0 then none
    else
      some
        { self with
          stream := self.stream.receive (self.bytes.take n)
          bytes := self.bytes.drop n }
  | _ => none

/-- The stream has a packet, and goes on behind what it takes for its end. -/
def take (self : Pipe) : Option (Packet × Pipe) :=
  match self.stream.poll with
  | .packet packet stream => some (packet, { self with stream, read := self.read ++ [packet] })
  | _ => none

end Pipe

/-! ## State -/

def initStreamBufferSize : Nat := 4096

def defaultMaxPacketSize : Nat := 64 * 1024

structure Connection where
  program : Network.Program
  toBroker : Pipe
  toClient : Pipe

structure State where
  broker : Broker.State
  connections : Nat → Connection

inductive Side where
  | broker
  | client

/-- `order` is the one in which the maps of a packet are written. -/
inductive Label where
  | dial (n : Nat) (state : Client.SessionState) (uuid : String)
    (credentials : Option (String × Bytes)) (cleanStart : Bool) (will : Option WillMessage)
    (ok : Bool) (order : HashOrder)
  /-- The client reads the first packet of its connection. -/
  | greet (n : Nat) (senders : Client.Senders) (consumers : Nat → Client.Consumer)
  /-- The time to wait is over, or the stream fails. -/
  | abandon (n : Nat)
  /-- A turn of the task that reads no packet. -/
  | turn (n : Nat) (turn : Client.Turn) (order : HashOrder)
  /-- The task reads a packet; `ok` is the outcome of what it writes in turn. -/
  | receive (n : Nat) (ok : Bool) (order : HashOrder)
  /-- The handler of the broker reads a packet. -/
  | arrive (n : Nat)
  /-- A step of the broker that reads no packet. -/
  | broker (l : Broker.Label) (order : HashOrder)
  /-- The socket of one side gives bytes to its stream. -/
  | fill (n : Nat) (side : Side) (size : Nat)

/-! ## Steps -/

namespace Connection

/-- The streams that the broker and the client read with. -/
def start (maxPacketSize : Nat) : Connection where
  program := .absent
  toBroker := .start (.new (some initStreamBufferSize) none)
  toClient := .start (.new none (some maxPacketSize))

/-- `connect` up to the wait for the CONNACK. -/
def dial (self : Connection) (ok : Bool) (order : HashOrder) (session : Client.ClientSession)
    (connect : Connect) : Option Connection :=
  match self.program with
  | .absent => do
    let toBroker ← self.toBroker.send ok order [.connect connect]
    some { self with program := if ok then .connecting session else .gone, toBroker }
  | _ => none

/-- `none` where `handle_connack` never returns. -/
def greet (self : Connection) (senders : Client.Senders) (consumers : Nat → Client.Consumer) :
    Option Connection :=
  match self.program with
  | .connecting session => do
    let (packet, toClient) ← self.toClient.take
    let reply ← session.awaitConnack [] (.packet packet)
    some { self with program := Network.greeted reply senders consumers, toClient }
  | _ => none

def abandon (self : Connection) : Option Connection :=
  match self.program with
  | .connecting _ => some { self with program := .gone }
  | _ => none

def turn (self : Connection) (turn : Client.Turn) (order : HashOrder) : Option Connection :=
  match self.program with
  | .started task =>
    if Network.readsPacket turn then none
    else do
      let task' ← task.step turn
      let toBroker ← self.toBroker.send (Network.turnOk turn) order (task.sends turn)
      some { self with program := .started task', toBroker }
  | _ => none

def receive (self : Connection) (ok : Bool) (order : HashOrder) : Option Connection :=
  match self.program with
  | .started task => do
    let (packet, toClient) ← self.toClient.take
    let task' ← task.step (.read (.packet packet) ok)
    let toBroker ← self.toBroker.send ok order (task.sends (.read (.packet packet) ok))
    some { program := .started task', toBroker, toClient }
  | _ => none

def fill (self : Connection) (side : Side) (size : Nat) : Option Connection :=
  match side with
  | .broker => (self.toBroker.fill size).map fun toBroker => { self with toBroker }
  | .client => (self.toClient.fill size).map fun toClient => { self with toClient }

end Connection

/-- The step of the broker is one of its own: it reads no packet, and it has no event of a
connection that has not been made. -/
def ownStep (connections : Nat → Connection) : Broker.Label → Bool
  | .event n e => !e.isPacket && !(connections n).program.isAbsent
  | _ => true

namespace State

/-- Nobody is connected; `maxPacketSize` is what the sessions of the clients have. -/
def start (config : Broker.Config) (maxPacketSize : Nat → Nat) : State where
  broker := .start config
  connections n := .start (maxPacketSize n)

def setConnection (s : State) (n : Nat) (connection : Connection) : State :=
  { s with connections := Function.update s.connections n connection }

def arrive (s : State) (n : Nat) : Option State := do
  let (packet, toBroker) ← (s.connections n).toBroker.take
  let broker ← s.broker.step (.event n (.packet packet))
  some ({ s with broker }.setConnection n { s.connections n with toBroker })

def brokerStep (s : State) (l : Broker.Label) (order : HashOrder) : Option State :=
  if ownStep s.connections l then do
    let broker ← s.broker.step l
    match l with
    | .act (.connection n) _ =>
      let toClient ← (s.connections n).toClient.send true order (Network.written s.broker n l)
      some ({ s with broker }.setConnection n { s.connections n with toClient })
    | _ => some { s with broker }
  else none

def step (s : State) : Label → Option State
  | .dial n state uuid credentials cleanStart will ok order =>
    let session := Client.ClientSession.newFromClient state
    ((s.connections n).dial ok order session
      (session.connectPacket uuid credentials cleanStart will)).map (s.setConnection n)
  | .greet n senders consumers =>
    ((s.connections n).greet senders consumers).map (s.setConnection n)
  | .abandon n => (s.connections n).abandon.map (s.setConnection n)
  | .turn n turn order => ((s.connections n).turn turn order).map (s.setConnection n)
  | .receive n ok order => ((s.connections n).receive ok order).map (s.setConnection n)
  | .arrive n => s.arrive n
  | .broker l order => s.brokerStep l order
  | .fill n side size => ((s.connections n).fill side size).map (s.setConnection n)

end State

end Sockets
end Vaux
