import Vaux.Wire.Decoder

/-!
# Enumerations and errors of the codec

The `repr(u8)` enumerations of `vaux-mqtt` with their conversions from and to a
byte, and the error type every codec function returns.
-/

namespace Vaux
namespace Mqtt

open Wire

inductive ErrorKind where
  | insufficientData (expected actual : Nat)
  | malformedPacket
  | invalidPacket
  | unsupportedQosLevel
  | unsupportedResponseType
  | unsupportedReason (value : UInt8)
  | unsupportedProperty (value : UInt8)
  | invalidUTF8
  | invalidPacketIdentifier
  deriving DecidableEq, Repr

structure MqttCodecError where
  reason : String
  kind : ErrorKind
  deriving DecidableEq, Repr

namespace MqttCodecError

/-- The kind defaults to `MalformedPacket`. -/
def new (reason : String) : MqttCodecError :=
  { reason, kind := .malformedPacket }

def newWithKind (reason : String) (kind : ErrorKind) : MqttCodecError :=
  { reason, kind }

/-- The error says that more bytes are needed.  This is the one kind the stream
reader does not report but waits on. -/
def insufficient (e : MqttCodecError) : Prop :=
  ∃ expected actual, e.kind = .insufficientData expected actual

@[simp] theorem insufficient_new (reason : String) : ¬ (new reason).insufficient := by
  rintro ⟨_, _, h⟩
  cases h

@[simp] theorem insufficient_newWithKind (reason : String) (expected actual : Nat) :
    (newWithKind reason (.insufficientData expected actual)).insufficient :=
  ⟨expected, actual, rfl⟩

@[simp] theorem insufficient_unsupportedProperty (reason : String) (value : UInt8) :
    ¬ (newWithKind reason (.unsupportedProperty value)).insufficient := by
  rintro ⟨_, _, h⟩
  cases h

end MqttCodecError

/-- A codec decoder. -/
abbrev Dec (α : Type) := Decoder MqttCodecError α

/-- What an encoder appends to its destination. -/
abbrev Enc := Except MqttCodecError Bytes

/-! ## Packet types -/

inductive PacketType where
  | connect | connAck | publish | pubAck | pubRec | pubRel | pubComp | subscribe | subAck
  | unsubscribe | unsubAck | pingReq | pingResp | disconnect | auth
  deriving DecidableEq, Repr

namespace PacketType

def toU8 : PacketType → UInt8
  | .connect => 0x10
  | .connAck => 0x20
  | .publish => 0x30
  | .pubAck => 0x40
  | .pubRec => 0x50
  | .pubRel => 0x60
  | .pubComp => 0x70
  | .subscribe => 0x80
  | .subAck => 0x90
  | .unsubscribe => 0xa0
  | .unsubAck => 0xb0
  | .pingReq => 0xc0
  | .pingResp => 0xd0
  | .disconnect => 0xe0
  | .auth => 0xf0

/-- `From<u8>`: only the high nibble counts, and what is no other type is `Auth`. -/
def ofU8 (val : UInt8) : PacketType :=
  match val &&& 0xf0 with
  | 0x10 => .connect
  | 0x20 => .connAck
  | 0x30 => .publish
  | 0x40 => .pubAck
  | 0x50 => .pubRec
  | 0x60 => .pubRel
  | 0x70 => .pubComp
  | 0x80 => .subscribe
  | 0x90 => .subAck
  | 0xa0 => .unsubscribe
  | 0xb0 => .unsubAck
  | 0xc0 => .pingReq
  | 0xd0 => .pingResp
  | 0xe0 => .disconnect
  | _ => .auth

/-- `Display`: the name in upper case. -/
def display : PacketType → String
  | .connect => "CONNECT"
  | .connAck => "CONNACK"
  | .publish => "PUBLISH"
  | .pubAck => "PUBACK"
  | .pubRec => "PUBREC"
  | .pubRel => "PUBREL"
  | .pubComp => "PUBCOMP"
  | .subscribe => "SUBSCRIBE"
  | .subAck => "SUBACK"
  | .unsubscribe => "UNSUBSCRIBE"
  | .unsubAck => "UNSUBACK"
  | .pingReq => "PINGREQ"
  | .pingResp => "PINGRESP"
  | .disconnect => "DISCONNECT"
  | .auth => "AUTH"

theorem ofU8_toU8 (p : PacketType) : ofU8 p.toU8 = p := by
  cases p <;> rfl

end PacketType

/-! ## Reason codes -/

inductive Reason where
  | success | grantedQoS1 | grantedQoS2 | disconnectWillMsg | noSubscribers
  | noSubscriptionExisted | continueAuth | reauthenticate | unspecifiedErr
  | malformedPacket | protocolErr | implementationErr | unsupportedProtocolVersion
  | invalidClientId | authenticationErr | notAuthorized | serverUnavailable | serverBusy
  | banned | serverShutdown | authMethodErr | keepAliveTimeout | sessionTakeOver
  | invalidTopicFilter | invalidTopicName | packetIdInUse | packetIdNotFound
  | receiveMaxExceeded | invalidTopicAlias | packetTooLarge | messageRate | quotaExceeded
  | adminAction | payloadFormatErr | retainUnsupported | qoSUnsupported | useDiffServer
  | serverMoved | sharedSubUnsupported | connRateExceeded | maxConnectTime
  | subIdUnsupported | wildcardSubUnsupported
  deriving DecidableEq, Repr

namespace Reason

def toU8 : Reason → UInt8
  | .success => 0x00
  | .grantedQoS1 => 0x01
  | .grantedQoS2 => 0x02
  | .disconnectWillMsg => 0x04
  | .noSubscribers => 0x10
  | .noSubscriptionExisted => 0x11
  | .continueAuth => 0x18
  | .reauthenticate => 0x19
  | .unspecifiedErr => 0x80
  | .malformedPacket => 0x81
  | .protocolErr => 0x82
  | .implementationErr => 0x83
  | .unsupportedProtocolVersion => 0x84
  | .invalidClientId => 0x85
  | .authenticationErr => 0x86
  | .notAuthorized => 0x87
  | .serverUnavailable => 0x88
  | .serverBusy => 0x89
  | .banned => 0x8a
  | .serverShutdown => 0x8b
  | .authMethodErr => 0x8c
  | .keepAliveTimeout => 0x8d
  | .sessionTakeOver => 0x8e
  | .invalidTopicFilter => 0x8f
  | .invalidTopicName => 0x90
  | .packetIdInUse => 0x91
  | .packetIdNotFound => 0x92
  | .receiveMaxExceeded => 0x93
  | .invalidTopicAlias => 0x94
  | .packetTooLarge => 0x95
  | .messageRate => 0x96
  | .quotaExceeded => 0x97
  | .adminAction => 0x98
  | .payloadFormatErr => 0x99
  | .retainUnsupported => 0x9a
  | .qoSUnsupported => 0x9b
  | .useDiffServer => 0x9c
  | .serverMoved => 0x9d
  | .sharedSubUnsupported => 0x9e
  | .connRateExceeded => 0x9f
  | .maxConnectTime => 0xa0
  | .subIdUnsupported => 0xa1
  | .wildcardSubUnsupported => 0xa2

def tryFrom (value : UInt8) : Except MqttCodecError Reason :=
  match value with
  | 0x00 => .ok .success
  | 0x01 => .ok .grantedQoS1
  | 0x02 => .ok .grantedQoS2
  | 0x04 => .ok .disconnectWillMsg
  | 0x10 => .ok .noSubscribers
  | 0x11 => .ok .noSubscriptionExisted
  | 0x18 => .ok .continueAuth
  | 0x19 => .ok .reauthenticate
  | 0x80 => .ok .unspecifiedErr
  | 0x81 => .ok .malformedPacket
  | 0x82 => .ok .protocolErr
  | 0x83 => .ok .implementationErr
  | 0x84 => .ok .unsupportedProtocolVersion
  | 0x85 => .ok .invalidClientId
  | 0x86 => .ok .authenticationErr
  | 0x87 => .ok .notAuthorized
  | 0x88 => .ok .serverUnavailable
  | 0x89 => .ok .serverBusy
  | 0x8a => .ok .banned
  | 0x8b => .ok .serverShutdown
  | 0x8c => .ok .authMethodErr
  | 0x8d => .ok .keepAliveTimeout
  | 0x8e => .ok .sessionTakeOver
  | 0x8f => .ok .invalidTopicFilter
  | 0x90 => .ok .invalidTopicName
  | 0x91 => .ok .packetIdInUse
  | 0x92 => .ok .packetIdNotFound
  | 0x93 => .ok .receiveMaxExceeded
  | 0x94 => .ok .invalidTopicAlias
  | 0x95 => .ok .packetTooLarge
  | 0x96 => .ok .messageRate
  | 0x97 => .ok .quotaExceeded
  | 0x98 => .ok .adminAction
  | 0x99 => .ok .payloadFormatErr
  | 0x9a => .ok .retainUnsupported
  | 0x9b => .ok .qoSUnsupported
  | 0x9c => .ok .useDiffServer
  | 0x9d => .ok .serverMoved
  | 0x9e => .ok .sharedSubUnsupported
  | 0x9f => .ok .connRateExceeded
  | 0xa0 => .ok .maxConnectTime
  | 0xa1 => .ok .subIdUnsupported
  | 0xa2 => .ok .wildcardSubUnsupported
  | value => .error (.new s!" Unsupported reason code: {value}")

@[simp] theorem tryFrom_toU8 (r : Reason) : tryFrom r.toU8 = .ok r := by
  cases r <;> rfl

theorem not_insufficient_of_tryFrom {value : UInt8} {e : MqttCodecError}
    (h : tryFrom value = .error e) : ¬ e.insufficient := by
  unfold tryFrom at h
  split at h <;> cases h
  exact MqttCodecError.insufficient_new _

end Reason

/-! ## QoS levels -/

inductive QoSLevel where
  | atMostOnce | atLeastOnce | exactlyOnce
  deriving DecidableEq, Repr

namespace QoSLevel

def toU8 : QoSLevel → UInt8
  | .atMostOnce => 0
  | .atLeastOnce => 1
  | .exactlyOnce => 2

def tryFrom (value : UInt8) : Except MqttCodecError QoSLevel :=
  match value with
  | 0x00 => .ok .atMostOnce
  | 0x01 => .ok .atLeastOnce
  | 0x02 => .ok .exactlyOnce
  | value => .error (.new s!"{value} is not a value QoSLevel")

@[simp] theorem tryFrom_toU8 (q : QoSLevel) : tryFrom q.toU8 = .ok q := by
  cases q <;> rfl

theorem not_insufficient_of_tryFrom {value : UInt8} {e : MqttCodecError}
    (h : tryFrom value = .error e) : ¬ e.insufficient := by
  unfold tryFrom at h
  split at h <;> cases h
  exact MqttCodecError.insufficient_new _

end QoSLevel

/-! ## Payload format -/

inductive PayloadFormat where
  | bin | utf8
  deriving DecidableEq, Repr

namespace PayloadFormat

def toU8 : PayloadFormat → UInt8
  | .bin => 0x00
  | .utf8 => 0x01

def tryFrom (value : UInt8) : Except MqttCodecError PayloadFormat :=
  match value with
  | 0x00 => .ok .bin
  | 0x01 => .ok .utf8
  | _ => .error (.new "invalid payload format")

@[simp] theorem tryFrom_toU8 (f : PayloadFormat) : tryFrom f.toU8 = .ok f := by
  cases f <;> rfl

theorem not_insufficient_of_tryFrom {value : UInt8} {e : MqttCodecError}
    (h : tryFrom value = .error e) : ¬ e.insufficient := by
  unfold tryFrom at h
  split at h <;> cases h
  exact MqttCodecError.insufficient_new _

end PayloadFormat

/-! ## Property types -/

inductive PropertyType where
  | payloadFormat | messageExpiry | contentType | responseTopic | correlationData
  | subscriptionIdentifier | sessionExpiryInterval | assignedClientId | keepAlive
  | authMethod | authData | reqProblemInfo | willDelay | reqRespInfo | respInfo
  | serverReference | reasonString | recvMax | topicAliasMax | topicAlias | maxQoS
  | retainAvail | userProperty | maxPacketSize | wildcardSubAvail | subIdAvail
  | shardSubAvail
  deriving DecidableEq, Repr

namespace PropertyType

def toU8 : PropertyType → UInt8
  | .payloadFormat => 0x01
  | .messageExpiry => 0x02
  | .contentType => 0x03
  | .responseTopic => 0x08
  | .correlationData => 0x09
  | .subscriptionIdentifier => 0x0b
  | .sessionExpiryInterval => 0x11
  | .assignedClientId => 0x12
  | .keepAlive => 0x13
  | .authMethod => 0x15
  | .authData => 0x16
  | .reqProblemInfo => 0x17
  | .willDelay => 0x18
  | .reqRespInfo => 0x19
  | .respInfo => 0x1a
  | .serverReference => 0x1c
  | .reasonString => 0x1f
  | .recvMax => 0x21
  | .topicAliasMax => 0x22
  | .topicAlias => 0x23
  | .maxQoS => 0x24
  | .retainAvail => 0x25
  | .userProperty => 0x26
  | .maxPacketSize => 0x27
  | .wildcardSubAvail => 0x28
  | .subIdAvail => 0x29
  | .shardSubAvail => 0x2a

def tryFrom (value : UInt8) : Except MqttCodecError PropertyType :=
  match value with
  | 0x01 => .ok .payloadFormat
  | 0x02 => .ok .messageExpiry
  | 0x03 => .ok .contentType
  | 0x08 => .ok .responseTopic
  | 0x09 => .ok .correlationData
  | 0x0b => .ok .subscriptionIdentifier
  | 0x11 => .ok .sessionExpiryInterval
  | 0x12 => .ok .assignedClientId
  | 0x13 => .ok .keepAlive
  | 0x15 => .ok .authMethod
  | 0x16 => .ok .authData
  | 0x17 => .ok .reqProblemInfo
  | 0x18 => .ok .willDelay
  | 0x19 => .ok .reqRespInfo
  | 0x1a => .ok .respInfo
  | 0x1c => .ok .serverReference
  | 0x1f => .ok .reasonString
  | 0x21 => .ok .recvMax
  | 0x22 => .ok .topicAliasMax
  | 0x23 => .ok .topicAlias
  | 0x24 => .ok .maxQoS
  | 0x25 => .ok .retainAvail
  | 0x26 => .ok .userProperty
  | 0x27 => .ok .maxPacketSize
  | 0x28 => .ok .wildcardSubAvail
  | 0x29 => .ok .subIdAvail
  | 0x2a => .ok .shardSubAvail
  | p => .error (.new s!"MQTTv5 2.2.2.2 invalid property type identifier: {p}")

/-- `Debug`: the variant's name. -/
def debug : PropertyType → String
  | .payloadFormat => "PayloadFormat"
  | .messageExpiry => "MessageExpiry"
  | .contentType => "ContentType"
  | .responseTopic => "ResponseTopic"
  | .correlationData => "CorrelationData"
  | .subscriptionIdentifier => "SubscriptionIdentifier"
  | .sessionExpiryInterval => "SessionExpiryInterval"
  | .assignedClientId => "AssignedClientId"
  | .keepAlive => "KeepAlive"
  | .authMethod => "AuthMethod"
  | .authData => "AuthData"
  | .reqProblemInfo => "ReqProblemInfo"
  | .willDelay => "WillDelay"
  | .reqRespInfo => "ReqRespInfo"
  | .respInfo => "RespInfo"
  | .serverReference => "ServerReference"
  | .reasonString => "ReasonString"
  | .recvMax => "RecvMax"
  | .topicAliasMax => "TopicAliasMax"
  | .topicAlias => "TopicAlias"
  | .maxQoS => "MaxQoS"
  | .retainAvail => "RetainAvail"
  | .userProperty => "UserProperty"
  | .maxPacketSize => "MaxPacketSize"
  | .wildcardSubAvail => "WildcardSubAvail"
  | .subIdAvail => "SubIdAvail"
  | .shardSubAvail => "ShardSubAvail"

@[simp] theorem tryFrom_toU8 (p : PropertyType) : tryFrom p.toU8 = .ok p := by
  cases p <;> rfl

theorem not_insufficient_of_tryFrom {value : UInt8} {e : MqttCodecError}
    (h : tryFrom value = .error e) : ¬ e.insufficient := by
  unfold tryFrom at h
  split at h <;> cases h
  exact MqttCodecError.insufficient_new _

end PropertyType

end Mqtt
end Vaux
