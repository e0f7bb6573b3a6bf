import Vaux.Mqtt.DeriveLayout
import Vaux.Mqtt.FixedHeader

/-!
# PUBLISH

`publish.rs`.  The encoder is derived, the decoder is written by hand: whether there
is a packet identifier is decided by `packet_id` when the packet is written and by
the QoS bits of the fixed header when it is read.
-/

namespace Vaux
namespace Mqtt

open Wire Decoder

structure Publish where
  fixedHeader : FixedHeader
  topicName : String
  packetId : Option UInt16
  messageExpiry : Option UInt32
  payloadFormat : Option PayloadFormat
  topicAlias : Option UInt16
  responseTopic : Option String
  correlationData : Bytes
  subscriptionIdentifiers : Option UInt32
  contentType : Option String
  userProperties : UserProperty
  payload : Option Bytes
  deriving DecidableEq

namespace Publish

def default : Publish where
  fixedHeader := .new .publish
  topicName := ""
  packetId := none
  messageExpiry := none
  payloadFormat := none
  topicAlias := none
  responseTopic := none
  correlationData := []
  subscriptionIdentifiers := none
  contentType := none
  userProperties := .new
  payload := none

def newFromHeader (fixedHeader : FixedHeader) : Except MqttCodecError Publish :=
  match fixedHeader.packetType with
  | .publish => .ok { default with fixedHeader }
  | p => .error (.newWithKind s!"unable to construct from {p.display}" .malformedPacket)

def qos (self : Publish) : Outcome MqttCodecError QoSLevel := self.fixedHeader.qos

def setQos (self : Publish) (qos : QoSLevel) : Publish :=
  { self with fixedHeader := self.fixedHeader.setQos qos }

def dup (self : Publish) : Bool := self.fixedHeader.dup

/-- The packet is unchanged if the flag is refused. -/
def setDup (self : Publish) (dup : Bool) : Outcome MqttCodecError Publish :=
  self.fixedHeader.qos.bind fun q =>
    if q = .atMostOnce ∧ dup then
      .err (.new "Mqttv53.3.2.2 QOS level must not be At\n    Most Once with DUP true")
    else .ok { self with fixedHeader := self.fixedHeader.setDup dup }

def retain (self : Publish) : Bool := self.fixedHeader.retain

def setRetain (self : Publish) (retain : Bool) : Publish :=
  { self with fixedHeader := self.fixedHeader.setRetain retain }

/-- The packet is unchanged if its QoS is `AtMostOnce`. -/
def setPacketId (self : Publish) (id : Option UInt16) : Outcome MqttCodecError Publish :=
  self.fixedHeader.qos.bind fun
    | .atMostOnce => .err (.new "Mqttv53.3.2.2 QOS level must not be At Most Once")
    | _ => .ok { self with packetId := id }

def setPayloadFormat (self : Publish) (format : PayloadFormat) : Publish :=
  if format = .bin then { self with payloadFormat := none }
  else { self with payloadFormat := some format }

def header : List (Member Publish) :=
  [.field .string (·.topicName) fun s v => { s with topicName := v },
    .option .u16 (·.packetId) fun s v => { s with packetId := v }]

def properties : List (Property Publish) :=
  [.option .messageExpiry .u32 (·.messageExpiry) fun s v => { s with messageExpiry := v },
    .option .payloadFormat .payloadFormat (·.payloadFormat) fun s v => { s with payloadFormat := v },
    .option .topicAlias .u16 (·.topicAlias) fun s v => { s with topicAlias := v },
    .option .responseTopic .string (·.responseTopic) fun s v => { s with responseTopic := v },
    .vec .correlationData true (·.correlationData) fun s v => { s with correlationData := v },
    .option .subscriptionIdentifier .varInt (·.subscriptionIdentifiers)
      fun s v => { s with subscriptionIdentifiers := v },
    .option .contentType .string (·.contentType) fun s v => { s with contentType := v },
    .userProperty (·.userProperties) fun s v => { s with userProperties := v }]

section

variable (order : HashOrder)

/-- `payload` is written without a length. -/
def codecSize (self : Publish) : UInt32 :=
  let totalSize := (header.map (Member.size order self)).sum +
    UInt32.ofNat (self.payload.getD []).length
  let propertySize := propertySize order properties self
  totalSize + propertySize + variableByteIntSize propertySize

def encodeBody (self : Publish) : Enc := do
  let fields ← encodeAll (Member.encode order self) header
  let e ← propertyEncode order properties self
  .ok (fields ++ e ++ self.payload.getD [])

end

def unsupported : PropertyType → MqttCodecError := unsupportedPropertyFor "Publish"

def decodePacketId (self : Publish) (bytesRead : Nat) : Dec (Publish × Nat) := do
  let qos ← lift self.qos
  if qos ≠ .atMostOnce then do
    let (packetId, n) ← decodeU16
    pure ({ self with packetId := some packetId }, bytesRead + n)
  else pure (self, bytesRead)

/-- `decode_opt_vec_u8_raw`: everything that is left. -/
def decodePayload (self : Publish) (bytesRead : Nat) : Dec (Publish × Nat) := do
  let payload ← takeAll
  pure ({ self with payload := some payload }, bytesRead + payload.length)

def decode (self : Publish) : Dec (Publish × Nat) := do
  let (topicName, bytesRead) ← decodeString
  let (self, bytesRead) ← decodePacketId { self with topicName } bytesRead
  let (self, bytesRead) ← decodeProperties properties unsupported self bytesRead
  decodePayload self bytesRead

/-! ## Layout -/

def layoutPacketId (fixedHeader : FixedHeader) (next : Layout) : Layout :=
  match fixedHeader.qos with
  | .ok .atMostOnce => next
  | .ok _ => .field Codec.u16.field fun _ => next
  | _ => .trap

/-- The layout depends on the QoS bits, and stops at once if they hold three. -/
def layout (fixedHeader : FixedHeader) : Layout :=
  .field Codec.string.field fun _ =>
    layoutPacketId fixedHeader (layoutProperties properties .rest)

theorem qos_ne_err (h : FixedHeader) (e : MqttCodecError) : h.qos ≠ .err e := by
  unfold FixedHeader.qos
  split <;> simp

theorem decodePacketId_tracks (next : Layout) (self : Publish) (k : Nat) :
    Tracks Starving (decodePacketId self k) k (layoutPacketId self.fixedHeader next)
      (fun _ => next) Prod.snd := by
  intro src
  simp only [decodePacketId, run_bind, run_lift, qos]
  cases hq : self.fixedHeader.qos with
  | ok q =>
      simp only [Outcome.map_ok, Outcome.bind_ok]
      by_cases h0 : q = .atMostOnce
      · rw [if_neg (by simpa using h0), layoutPacketId, hq, h0]
        exact ⟨0, .refl _ _, rfl⟩
      · have hlay : layoutPacketId self.fixedHeader next =
            .field Codec.u16.field fun _ => next := by
          rw [layoutPacketId, hq]
          cases q with
          | atMostOnce => exact absurd rfl h0
          | atLeastOnce => rfl
          | exactlyOnce => rfl
        rw [if_pos h0, hlay]
        exact (Codec.u16.tracks k next rfl src).bind fun r rest _ => ⟨0, .refl _ _, rfl⟩
  | err e => exact absurd hq (qos_ne_err _ _)
  | panic =>
      rw [layoutPacketId, hq]
      exact .here rfl

theorem decode_tracks (self : Publish) :
    Tracks Starving self.decode 0 (layout self.fixedHeader) (fun _ => .done) Prod.snd := by
  refine (Codec.string.tracks 0 _ rfl).bind fun r => ?_
  simp only [Nat.zero_add]
  refine (decodePacketId_tracks _ { self with topicName := r.1 } r.2).bind fun r => ?_
  refine (decodeProperties_tracks properties (by simp [unsupported, unsupportedPropertyFor]) _
    r.1 r.2).bind fun r => ?_
  intro src
  refine ⟨0, .one rfl, ?_⟩
  simp only [List.length_nil]

end Publish

end Mqtt
end Vaux
