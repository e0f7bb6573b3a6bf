import Vaux.Broker.Handler
import Vaux.Machine.Run

/-!
# The broker as a machine

All connections and delayed wills over one shared state.  A connection that has not been
made yet is one whose handler has not had an event.  The state carries a history, which
no step reads: who connected last for a client id, what it was accepted with, and how
its connection went on.
-/

namespace Vaux
namespace Broker

open Wire Mqtt Machine

/-- A session as a connection was accepted with it. -/
structure Acceptance where
  sessionId : String
  session : Ref
  will : Option WillMessage
  deriving DecidableEq

structure History where
  /-- The connection that entered the pool last for a client id. -/
  latest : String → Option TaskId
  accepted : TaskId → Option Acceptance
  /-- Since then the connection has sent a DISCONNECT, has failed or has timed out. -/
  ended : TaskId → Bool
  /-- Since then it has sent a DISCONNECT with reason Success. -/
  success : TaskId → Bool
  /-- The connection that the will of a session is from. -/
  supplier : Ref → Option TaskId
  /-- The will of the connection has been taken for publication. -/
  willTaken : TaskId → Bool
  /-- The handler has had a DISCONNECT, a keep-alive expiry or a Disconnect message. -/
  closed : TaskId → Bool
  /-- The packet at hand arrived after that. -/
  late : TaskId → Bool

structure State where
  shared : Shared
  tasks : TaskId → Task
  history : History

inductive Label where
  | event (n : Nat) (e : Event)
  | act (t : TaskId) (c : Choice)
  /-- The timer of a delayed will. -/
  | fire (token : Token)
  /-- The commands of `run`. -/
  | setAccepting (accept : Bool)
  | setSessionExpiry (secs : Nat)

/-! ## History -/

def Event.isDisconnect : Event → Bool
  | .packet (.disconnect _) => true
  | _ => false

/-- The client has disconnected, failed or timed out. -/
def Event.ends : Event → Bool
  | .keepAliveExpired | .endOfStream | .readError => true
  | e => e.isDisconnect

def Event.isSuccess : Event → Bool
  | .packet (.disconnect d) => d.reason = .success
  | _ => false

def Event.isPacket : Event → Bool
  | .packet _ => true
  | _ => false

/-- The event ends the session of the connection as far as the client can tell. -/
def closes (sh : Shared) (task : Task) : Event → Bool
  | .control =>
    match sh.nextControl task with
    | some (.disconnect _) => true
    | _ => false
  | .keepAliveExpired => true
  | e => e.isDisconnect

namespace History

def start : History where
  latest := fun _ => none
  accepted := fun _ => none
  ended := fun _ => false
  success := fun _ => false
  supplier := fun _ => none
  willTaken := fun _ => false
  closed := fun _ => false
  late := fun _ => false

def recordEvent (h : History) (sh : Shared) (t : TaskId) (task : Task) (e : Event) : History :=
  { h with
    ended := Function.update h.ended t (h.ended t || e.ends)
    success := Function.update h.success t (h.success t || e.isSuccess)
    closed := Function.update h.closed t (h.closed t || closes sh task e)
    late := Function.update h.late t (e.isPacket && h.closed t) }

def recordAction (h : History) (sh : Shared) (t : TaskId) : Action → History
  | .enterPool a =>
    if sh.rejects a then h else { h with latest := Function.update h.latest a.sessionId (some t) }
  | .enroll a target =>
    let session := target.getD sh.nextRef
    { h with
      accepted := Function.update h.accepted t
        (some { sessionId := a.sessionId, session, will := a.connect.willMessage })
      ended := Function.update h.ended t false
      success := Function.update h.success t false
      supplier := Function.update h.supplier session (some t) }
  | .takeWill ref =>
    match (sh.sessions ref).willMessage, h.supplier ref with
    | some _, some supplier => { h with willTaken := Function.update h.willTaken supplier true }
    | _, _ => h
  | _ => h

def recordNext (h : History) (t : TaskId) : Next → History
  | .returned _ => { h with ended := Function.update h.ended t true }
  | _ => h

end History

/-! ## Steps -/

/-- A handler that returns drops its receiver. -/
def Shared.afterNext (sh : Shared) (task : Task) : Next → Shared
  | .returned _ => sh.close task.sessionControl
  | _ => sh

namespace State

def start (config : Config) : State where
  shared :=
    { config
      acceptConnections := true
      pool := .new config.sessionExpiry config.defaultKeepAlive config.maxKeepAlive
      poolWriter := none
      poolReaders := []
      sending := none
      sessions := fun _ => .new "" none 0 0
      nextRef := 0
      channels := fun _ => { queue := [], capacity := 0, closed := true }
      nextChannel := 0
      delays := fun _ =>
        { will := { header := .default, topic := "", payload := [], qos := .atMostOnce, retain := false }
          cancelled := true
          waiting := false }
      nextToken := 0
      tree := .new }
  tasks := fun _ => .start
  history := .start

def event (s : State) (t : TaskId) (e : Event) : Option State :=
  if (s.tasks t).todo.isEmpty && (s.tasks t).result.isNone then
    (s.shared.handle (s.tasks t) e).map fun (shared, todo) =>
      { shared
        tasks := Function.update s.tasks t { s.tasks t with todo }
        history := s.history.recordEvent s.shared t (s.tasks t) e }
  else none

def act (s : State) (t : TaskId) (c : Choice) : Option State :=
  match (s.tasks t).todo with
  | [] => none
  | a :: rest =>
    (s.shared.perform t c a).map fun (shared, next) =>
      { shared := shared.afterNext (s.tasks t) next
        tasks := Function.update s.tasks t ((s.tasks t).after rest next)
        history := (s.history.recordAction s.shared t a).recordNext t next }

def fire (s : State) (token : Token) : Option State :=
  let delay := s.shared.delays token
  if token < s.shared.nextToken ∧ delay.waiting ∧ ¬ delay.cancelled then
    some
      { s with
        shared :=
          { s.shared with
            delays := Function.update s.shared.delays token { delay with waiting := false } }
        tasks := Function.update s.tasks (.delay token)
          { s.tasks (.delay token) with todo := [.route (Shared.willPublish delay.will) ""] } }
  else none

def step (s : State) : Label → Option State
  | .event n e => s.event (.connection n) e
  | .act t c => s.act t c
  | .fire token => s.fire token
  | .setAccepting accept => some { s with shared := { s.shared with acceptConnections := accept } }
  | .setSessionExpiry secs =>
    if s.shared.poolFree then
      some { s with shared := { s.shared with pool := s.shared.pool.setSessionExpiry secs } }
    else none

end State

/-! ## Some runs -/

/-- `Config::default`. -/
def defaultConfig : Config where
  defaultKeepAlive := 45
  maxKeepAlive := 180
  sessionExpiry := 600
  sessionChannelSize := 10
  sessionChannelSize_pos := by decide
  maxActiveSessions := none

/-- A packet on connection `n`, and the next `k` actions of its handler. -/
def packetLabels (n : Nat) (packet : Packet) (k : Nat) : List Label :=
  .event n (.packet packet) :: List.replicate k (.act (.connection n) {})

/-- A handler that takes over has three more actions than the one of a new session. -/
def connectLabels (n : Nat) (connect : Connect) (k : Nat) : List Label :=
  packetLabels n (.connect connect) k

def subscribeLabels (n : Nat) (filter : String) (qos : QoSLevel) : List Label :=
  packetLabels n (.subscribe { Subscribe.default with packetId := 1, filter := [.new filter qos] }) 2

def publishLabels (n : Nat) (topic : String) (qos : QoSLevel) (packetId : Option UInt16) (k : Nat) :
    List Label :=
  packetLabels n (.publish { Publish.default.setQos qos with topicName := topic, packetId }) k

end Broker
end Vaux
