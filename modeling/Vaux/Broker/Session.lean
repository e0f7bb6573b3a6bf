import Mathlib.Data.List.AList
import Vaux.Mqtt.Connect
import Vaux.Mqtt.Publish

/-!
# Sessions

`Session` of `session.rs`.  A session owns the sending end of a control channel and,
until a connection takes it, the receiving end; both are named by the channel.  The
time of the last activity is left out, since nothing here depends on the clock.
-/

namespace Vaux
namespace Broker

open Wire Mqtt

/-- What a connection is told through the control channel of its session. -/
inductive SessionControl where
  | disconnect (reason : Reason)
  | deliver (publish : Publish)
  deriving DecidableEq

abbrev ChannelId := Nat

abbrev Token := Nat

/-- `HashMap<u16, Publish>`. -/
abbrev PendingAck := AList fun _ : UInt16 => Publish

structure Session where
  id : String
  connected : Bool
  keepAlive : Nat
  sessionExpiry : Option Nat
  willMessage : Option WillMessage
  pendingWill : Option Token
  nextPacketIdField : UInt16
  pendingAck : PendingAck
  control : ChannelId
  /-- The receiving end of `control` has not been taken. -/
  receiver : Bool
  deriving DecidableEq

namespace Session

def new (id : String) (willMessage : Option WillMessage) (keepAlive : Nat) (control : ChannelId) :
    Session where
  id := id
  connected := false
  keepAlive := keepAlive
  sessionExpiry := none
  willMessage := willMessage
  pendingWill := none
  nextPacketIdField := 1
  pendingAck := ∅
  control := control
  receiver := true

def resetControl (self : Session) (control : ChannelId) : Session :=
  { self with control, receiver := true }

def takeControlReceiver (self : Session) : Option ChannelId × Session :=
  (if self.receiver then some self.control else none, { self with receiver := false })

def clearWill (self : Session) : Session := { self with willMessage := none }

def setWill (self : Session) (will : Option WillMessage) : Session :=
  { self with willMessage := will }

def takeWill (self : Session) : Option WillMessage × Session :=
  (self.willMessage, { self with willMessage := none })

/-- The token that is cancelled, if there is one. -/
def cancelPendingWill (self : Session) : Option Token × Session :=
  (self.pendingWill, { self with pendingWill := none })

def setPendingWill (self : Session) (token : Token) : Option Token × Session :=
  (self.pendingWill, { self with pendingWill := some token })

/-- The identifiers run from 1 to 65535 and start again. -/
def nextPacketId (self : Session) : UInt16 × Session :=
  let next := self.nextPacketIdField + 1
  (self.nextPacketIdField, { self with nextPacketIdField := if next = 0 then 1 else next })

def trackQosPublish (self : Session) (packetId : UInt16) (publish : Publish) : Session :=
  { self with pendingAck := self.pendingAck.insert packetId publish }

def acknowledge (self : Session) (packetId : UInt16) : Bool × Session :=
  ((self.pendingAck.lookup packetId).isSome,
    { self with pendingAck := self.pendingAck.erase packetId })

/-- The messages of the map, in the order of its entries here.  `drain` gives them in any
order. -/
def pending (self : Session) : List (UInt16 × Publish) :=
  self.pendingAck.entries.map fun e => (e.1, e.2)

def drainPending (self : Session) : Session := { self with pendingAck := ∅ }

def setConnected (self : Session) (connected : Bool) : Session := { self with connected }

def setSessionExpiry (self : Session) (sessionExpiry : Nat) : Session :=
  { self with sessionExpiry := some sessionExpiry }

end Session

/-- `let _ = publish.set_packet_id(..)`: the packet as it is if the identifier is
refused. -/
def withPacketId (publish : Publish) (packetId : UInt16) : Publish :=
  match publish.setPacketId (some packetId) with
  | .ok publish => publish
  | _ => publish

/-- A message as it is redelivered: `set_dup(true).ok()`, then `set_packet_id`. -/
def redelivered (packetId : UInt16) (publish : Publish) : Publish :=
  withPacketId
    (match publish.setDup true with
      | .ok publish => publish
      | _ => publish)
    packetId

/-! ## The map of unacknowledged messages -/

namespace Session

variable {s : Session}

theorem mem_pending_iff {x : UInt16 × Publish} :
    x ∈ s.pending ↔ s.pendingAck.lookup x.1 = some x.2 := by
  obtain ⟨packetId, publish⟩ := x
  simp only [pending, List.mem_map, Prod.mk.injEq]
  constructor
  · rintro ⟨⟨a, b⟩, hmem, rfl, rfl⟩
    exact AList.mem_lookup_iff.mpr hmem
  · intro h
    exact ⟨⟨packetId, publish⟩, AList.mem_lookup_iff.mp h, rfl, rfl⟩

theorem lookup_trackQosPublish (packetId k : UInt16) (publish : Publish) :
    (s.trackQosPublish packetId publish).pendingAck.lookup k =
      if k = packetId then some publish else s.pendingAck.lookup k := by
  unfold trackQosPublish
  by_cases h : k = packetId
  · rw [if_pos h, h]
    exact AList.lookup_insert _
  · rw [if_neg h]
    exact AList.lookup_insert_ne h

theorem lookup_acknowledge (packetId k : UInt16) :
    (s.acknowledge packetId).2.pendingAck.lookup k =
      if k = packetId then none else s.pendingAck.lookup k := by
  unfold acknowledge
  by_cases h : k = packetId
  · rw [if_pos h, h]
    exact AList.lookup_erase _ _
  · rw [if_neg h]
    exact AList.lookup_erase_ne h

end Session

end Broker
end Vaux
