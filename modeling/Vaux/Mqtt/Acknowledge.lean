import Vaux.Mqtt.DeriveLayout
import Vaux.Mqtt.FixedHeader

/-!
# CONNACK, the publish responses, DISCONNECT and the pings

The structs of `connack.rs`, `pubresp.rs`, `disconnect.rs` and `lib.rs` whose codec
is derived.  `PubResp` serves PUBACK, PUBREC, PUBREL and PUBCOMP.
-/

namespace Vaux
namespace Mqtt

open Wire Decoder

/-! ## CONNACK -/

def connackSessionPresentMask : UInt8 := 0x01

structure ConnAck where
  fixedHeader : FixedHeader
  ackFlags : UInt8
  reason : Reason
  sessionExpiryInterval : Option UInt32
  receiveMaximum : Option UInt16
  maximumQos : Option QoSLevel
  retainAvailable : Option Bool
  maximumPacketSize : Option UInt32
  assignedClientId : Option String
  topicAliasMaximum : Option UInt16
  reasonString : Option String
  subscriptionIdentifierAvailable : Option Bool
  userProperties : UserProperty
  wildcardSubscriptionAvailable : Option Bool
  sharedSubscriptionAvailable : Option Bool
  serverKeepAlive : Option UInt16
  responseInformation : Option String
  serverReference : Option String
  authMethod : Option String
  authData : Bytes
  deriving DecidableEq

namespace ConnAck

def default : ConnAck where
  fixedHeader := .new .connAck
  ackFlags := 0
  reason := .success
  sessionExpiryInterval := none
  receiveMaximum := none
  maximumQos := none
  retainAvailable := none
  maximumPacketSize := none
  assignedClientId := none
  topicAliasMaximum := none
  reasonString := none
  subscriptionIdentifierAvailable := none
  userProperties := .new
  wildcardSubscriptionAvailable := none
  sharedSubscriptionAvailable := none
  serverKeepAlive := none
  responseInformation := none
  serverReference := none
  authMethod := none
  authData := []

def setSessionPresent (self : ConnAck) (present : Bool) : ConnAck :=
  { self with
    ackFlags :=
      if present then self.ackFlags ||| connackSessionPresentMask
      else self.ackFlags &&& ~~~connackSessionPresentMask }

def setSessionExpiry (self : ConnAck) (interval : UInt32) : ConnAck :=
  { self with sessionExpiryInterval := if interval = 0 then none else some interval }

def setServerKeepAlive (self : ConnAck) (keepAlive : UInt16) : ConnAck :=
  { self with serverKeepAlive := if keepAlive = 0 then none else some keepAlive }

def properties : List (Property ConnAck) :=
  [.option .sessionExpiryInterval .u32 (·.sessionExpiryInterval)
      fun s v => { s with sessionExpiryInterval := v },
    .option .recvMax .u16 (·.receiveMaximum) fun s v => { s with receiveMaximum := v },
    .option .maxQoS .qoSLevel (·.maximumQos) fun s v => { s with maximumQos := v },
    .option .retainAvail .bool (·.retainAvailable) fun s v => { s with retainAvailable := v },
    .option .maxPacketSize .u32 (·.maximumPacketSize) fun s v => { s with maximumPacketSize := v },
    .option .assignedClientId .string (·.assignedClientId)
      fun s v => { s with assignedClientId := v },
    .option .topicAliasMax .u16 (·.topicAliasMaximum) fun s v => { s with topicAliasMaximum := v },
    .option .reasonString .string (·.reasonString) fun s v => { s with reasonString := v },
    .option .subIdAvail .bool (·.subscriptionIdentifierAvailable)
      fun s v => { s with subscriptionIdentifierAvailable := v },
    .userProperty (·.userProperties) fun s v => { s with userProperties := v },
    .option .wildcardSubAvail .bool (·.wildcardSubscriptionAvailable)
      fun s v => { s with wildcardSubscriptionAvailable := v },
    .option .shardSubAvail .bool (·.sharedSubscriptionAvailable)
      fun s v => { s with sharedSubscriptionAvailable := v },
    .option .keepAlive .u16 (·.serverKeepAlive) fun s v => { s with serverKeepAlive := v },
    .option .respInfo .string (·.responseInformation)
      fun s v => { s with responseInformation := v },
    .option .serverReference .string (·.serverReference) fun s v => { s with serverReference := v },
    .option .authMethod .string (·.authMethod) fun s v => { s with authMethod := v },
    .vec .authData false (·.authData) fun s v => { s with authData := v }]

def derived : Derived ConnAck where
  header :=
    [.field .u8 (·.ackFlags) fun s v => { s with ackFlags := v },
      .field .reason (·.reason) fun s v => { s with reason := v }]
  abbreviatedWhen := none
  nonAbbreviated := []
  properties := properties
  remaining := none

theorem derived_exact : derived.Exact where
  header := by simp [derived, Member.field, Codec.u8, Codec.reason, Codec.enum]
  nonAbbreviated := by simp [derived]
  remaining := by simp [derived]

end ConnAck

/-! ## PUBACK, PUBREC, PUBREL and PUBCOMP -/

structure PubResp where
  fixedHeader : FixedHeader
  packetId : UInt16
  reason : Option Reason
  reasonDesc : Option String
  userProperties : UserProperty
  deriving DecidableEq

namespace PubResp

/-- The derived `Default`, whose fixed header is that of a CONNECT. -/
def default : PubResp where
  fixedHeader := .default
  packetId := 0
  reason := none
  reasonDesc := none
  userProperties := .new

/-- `new_puback_with_packet_id` and its siblings for the other three packet types. -/
def newWithPacketId (packetType : PacketType) (packetId : UInt16) : PubResp :=
  { default with fixedHeader := .new packetType, packetId }

def supportedReason (self : PubResp) (reason : Reason) : Bool :=
  match self.fixedHeader.packetType with
  | .pubAck | .pubRec =>
    match reason with
    | .success | .noSubscribers | .unspecifiedErr | .implementationErr | .notAuthorized
    | .invalidTopicName | .packetIdInUse | .quotaExceeded | .payloadFormatErr => true
    | _ => false
  | .pubComp | .pubRel =>
    match reason with
    | .success | .packetIdInUse => true
    | _ => false
  | _ => false

def setReason (self : PubResp) (reason : Reason) : Except MqttCodecError PubResp :=
  if self.supportedReason reason then .ok { self with reason := some reason }
  else .error (.newWithKind "unsupported reason" (.unsupportedReason reason.toU8))

def properties : List (Property PubResp) :=
  [.option .reasonString .string (·.reasonDesc) fun s v => { s with reasonDesc := v },
    .userProperty (·.userProperties) fun s v => { s with userProperties := v }]

def derived : Derived PubResp where
  header := [.field .u16 (·.packetId) fun s v => { s with packetId := v }]
  abbreviatedWhen := some fun order self =>
    self.reason.getD .success = .success ∧ propertySize order properties self = 0
  nonAbbreviated := [.option .reason (·.reason) fun s v => { s with reason := v }]
  properties := properties
  remaining := none

theorem derived_exact : derived.Exact where
  header := by simp [derived, Member.field, Codec.u16]
  nonAbbreviated := by simp [derived, Member.option, Codec.reason, Codec.enum]
  remaining := by simp [derived]

end PubResp

/-! ## DISCONNECT -/

structure Disconnect where
  fixedHeader : FixedHeader
  reason : Reason
  sessionExpiryInterval : Option UInt32
  reasonString : Option String
  serverReference : Option String
  userProperties : UserProperty
  deriving DecidableEq

namespace Disconnect

def default : Disconnect where
  fixedHeader := .new .disconnect
  reason := .success
  sessionExpiryInterval := none
  reasonString := none
  serverReference := none
  userProperties := .new

def new (reason : Reason) : Disconnect :=
  { default with fixedHeader := .new .disconnect, reason }

def properties : List (Property Disconnect) :=
  [.option .sessionExpiryInterval .u32 (·.sessionExpiryInterval)
      fun s v => { s with sessionExpiryInterval := v },
    .option .reasonString .string (·.reasonString) fun s v => { s with reasonString := v },
    .option .serverReference .string (·.serverReference) fun s v => { s with serverReference := v },
    .userProperty (·.userProperties) fun s v => { s with userProperties := v }]

/-- `Reason::NormalDisconnect` is `Reason::Success`. -/
def derived : Derived Disconnect where
  header := []
  abbreviatedWhen := some fun order self =>
    self.reason = .success ∧ propertySize order properties self = 0
  nonAbbreviated := [.field .reason (·.reason) fun s v => { s with reason := v }]
  properties := properties
  remaining := none

theorem derived_exact : derived.Exact where
  header := by simp [derived]
  nonAbbreviated := by simp [derived, Member.field, Codec.reason, Codec.enum]
  remaining := by simp [derived]

end Disconnect

/-! ## PINGREQ and PINGRESP -/

structure PingReq where
  fixedHeader : FixedHeader
  deriving DecidableEq

def PingReq.default : PingReq := { fixedHeader := .new .pingReq }

structure PingResp where
  fixedHeader : FixedHeader
  deriving DecidableEq

def PingResp.default : PingResp := { fixedHeader := .new .pingResp }

end Mqtt
end Vaux
