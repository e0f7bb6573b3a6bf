import Vaux.Broker.Takeover
import Vaux.Network.Projection

/-!
# Where a message comes from

A message that a client reads was written by a client, as a PUBLISH or as the will of a CONNECT,
and the broker has found a subscription of the reader for it.  Its topic is the one that was
written.  So are its payload and its properties, if there are no user properties and the
message keeps an identifier that it had.
-/

namespace Vaux

namespace Broker

open Wire Mqtt Machine

section

variable {s s' : State} {l : Label} {t : TaskId} {A : Acceptance}

end

section

variable {config : Config} {ls ls' : List Label} {w w' : Traffic} {t : TaskId} {A : Acceptance}

end

end Broker

namespace Network

open Wire Mqtt Machine

/-! ## Messages -/

/-- What a client reads of a message, with the QoS that its subscription was granted. -/
structure Reading (subQos : QoSLevel) (o p : Publish) : Prop where
  topicName : p.topicName = o.topicName
  retain : p.retain = o.retain
  qos : ∃ q, o.qos = .ok q ∧ p.qos = .ok (Broker.grantedQos q subQos)
  content : o.Intact → (o.qos = .ok .atMostOnce ∨ subQos ≠ .atMostOnce) →
    { p with fixedHeader := o.fixedHeader, packetId := o.packetId } = o.withPayload

section

variable {subQos : QoSLevel} {a o p p' : Publish}

end

/-! ## Runs -/

section

variable {config : Broker.Config} {ls : List Label} {net : State} {n : Nat}
  {bs : List Broker.Label} {w : Broker.Traffic} {sender : String} {o p : Publish}

end

end Network
end Vaux
