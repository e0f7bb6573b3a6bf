import Vaux.Mqtt.Connect

/-!
# CONNECT by the specification

An encoder for CONNECT that is written from MQTT v5.0: the data types of section 1.5, the
properties of 3.1.2.11 and 3.1.3.2, the layout of 3.1.  It has nothing of the encoder of
`connect.rs`.  `Message.connect` is the packet whose fields a message stands for.
-/

namespace Vaux
namespace Mqtt
namespace Reference

open Wire

/-! ## Data types -/

def twoByteInteger (v : UInt16) : Bytes :=
  [UInt8.ofNat (v.toNat / 2 ^ 8), UInt8.ofNat (v.toNat % 2 ^ 8)]

def fourByteInteger (v : UInt32) : Bytes :=
  [UInt8.ofNat (v.toNat / 2 ^ 24), UInt8.ofNat (v.toNat / 2 ^ 16 % 2 ^ 8),
    UInt8.ofNat (v.toNat / 2 ^ 8 % 2 ^ 8), UInt8.ofNat (v.toNat % 2 ^ 8)]

def binaryData (b : Bytes) : Bytes := twoByteInteger (UInt16.ofNat b.length) ++ b

def utf8String (s : String) : Bytes := binaryData (utf8 s)

/-- Seven bits at a time, the top bit set while there are more. -/
def variableBytes : Nat → Nat → Bytes
  | 0, _ => []
  | n + 1, x =>
    if 0 < x / 128 then (UInt8.ofNat (x % 128) ||| 128) :: variableBytes n (x / 128)
    else [UInt8.ofNat (x % 128)]

/-- At most four bytes, for numbers up to 268,435,455. -/
def variableByteInteger (x : Nat) : Bytes := variableBytes 4 x

/-! ## Properties -/

inductive Value where
  | byte (v : UInt8)
  | twoByteInteger (v : UInt16)
  | fourByteInteger (v : UInt32)
  | utf8String (s : String)
  | binaryData (b : Bytes)
  | stringPair (name value : String)

namespace Value

def bytes : Value → Bytes
  | .byte v => [v]
  | .twoByteInteger v => Reference.twoByteInteger v
  | .fourByteInteger v => Reference.fourByteInteger v
  | .utf8String s => Reference.utf8String s
  | .binaryData b => Reference.binaryData b
  | .stringPair name value => Reference.utf8String name ++ Reference.utf8String value

/-- Two bytes can say how long it is. -/
def Fits : Value → Prop
  | .byte _ | .twoByteInteger _ | .fourByteInteger _ => True
  | .utf8String s => (utf8 s).length ≤ 65535
  | .binaryData b => b.length ≤ 65535
  | .stringPair name value => (utf8 name).length ≤ 65535 ∧ (utf8 value).length ≤ 65535

instance : DecidablePred Fits
  | .byte _ | .twoByteInteger _ | .fourByteInteger _ => inferInstanceAs (Decidable True)
  | .utf8String s => inferInstanceAs (Decidable ((utf8 s).length ≤ 65535))
  | .binaryData b => inferInstanceAs (Decidable (b.length ≤ 65535))
  | .stringPair name value =>
    inferInstanceAs (Decidable ((utf8 name).length ≤ 65535 ∧ (utf8 value).length ≤ 65535))

end Value

/-- A property on the wire. -/
structure Entry where
  identifier : UInt8
  value : Value

def Entry.bytes (e : Entry) : Bytes := e.identifier :: e.value.bytes

/-- The identifier of a user property, the only one that may come more than once. -/
def userIdentifier : UInt8 := 0x26

structure Admissible (l : List Entry) : Prop where
  fits : ∀ e ∈ l, e.value.Fits
  once : ((l.filter fun e => e.identifier ≠ userIdentifier).map Entry.identifier).Nodup

def propertySection (l : List Entry) : Bytes :=
  variableByteInteger (l.flatMap Entry.bytes).length ++ l.flatMap Entry.bytes

def byteOfBool : Bool → UInt8
  | false => 0
  | true => 1

inductive ConnectProperty where
  | sessionExpiryInterval (v : UInt32)
  | receiveMaximum (v : UInt16)
  | maximumPacketSize (v : UInt32)
  | topicAliasMaximum (v : UInt16)
  | requestResponseInformation (b : Bool)
  | requestProblemInformation (b : Bool)
  | authenticationMethod (s : String)
  | authenticationData (b : Bytes)
  | userProperty (name value : String)

namespace ConnectProperty

def entry : ConnectProperty → Entry
  | .sessionExpiryInterval v => ⟨0x11, .fourByteInteger v⟩
  | .receiveMaximum v => ⟨0x21, .twoByteInteger v⟩
  | .maximumPacketSize v => ⟨0x27, .fourByteInteger v⟩
  | .topicAliasMaximum v => ⟨0x22, .twoByteInteger v⟩
  | .requestResponseInformation b => ⟨0x19, .byte (byteOfBool b)⟩
  | .requestProblemInformation b => ⟨0x17, .byte (byteOfBool b)⟩
  | .authenticationMethod s => ⟨0x15, .utf8String s⟩
  | .authenticationData b => ⟨0x16, .binaryData b⟩
  | .userProperty name value => ⟨userIdentifier, .stringPair name value⟩

def store (c : Connect) : ConnectProperty → Connect
  | .sessionExpiryInterval v => { c with sessionExpiryInterval := some v }
  | .receiveMaximum v => { c with receiveMaximum := some v }
  | .maximumPacketSize v => { c with maxPacketSize := some v }
  | .topicAliasMaximum v => { c with topicAliasMaximum := some v }
  | .requestResponseInformation b => { c with requestResponseInfo := some b }
  | .requestProblemInformation b => { c with requestProblemInfo := some b }
  | .authenticationMethod s => { c with authMethod := some s }
  | .authenticationData b => { c with authData := b }
  | .userProperty name value => { c with userProperties := c.userProperties.add name value }

end ConnectProperty

inductive WillProperty where
  | willDelayInterval (v : UInt32)
  | payloadFormatIndicator (f : PayloadFormat)
  | messageExpiryInterval (v : UInt32)
  | contentType (s : String)
  | responseTopic (s : String)
  | correlationData (b : Bytes)
  | userProperty (name value : String)

namespace WillProperty

def entry : WillProperty → Entry
  | .willDelayInterval v => ⟨0x18, .fourByteInteger v⟩
  | .payloadFormatIndicator .bin => ⟨0x01, .byte 0⟩
  | .payloadFormatIndicator .utf8 => ⟨0x01, .byte 1⟩
  | .messageExpiryInterval v => ⟨0x02, .fourByteInteger v⟩
  | .contentType s => ⟨0x03, .utf8String s⟩
  | .responseTopic s => ⟨0x08, .utf8String s⟩
  | .correlationData b => ⟨0x09, .binaryData b⟩
  | .userProperty name value => ⟨userIdentifier, .stringPair name value⟩

def store (w : WillHeader) : WillProperty → WillHeader
  | .willDelayInterval v => { w with willDelay := some v }
  | .payloadFormatIndicator f => { w with payloadFormat := some f }
  | .messageExpiryInterval v => { w with messageExpiry := some v }
  | .contentType s => { w with contentType := some s }
  | .responseTopic s => { w with responseTopic := some s }
  | .correlationData b => { w with correlationData := b }
  | .userProperty name value => { w with userProperties := w.userProperties.add name value }

end WillProperty

/-! ## CONNECT -/

structure Will where
  qos : QoSLevel
  retain : Bool
  properties : List WillProperty
  topic : String
  payload : Bytes

structure Message where
  cleanStart : Bool
  keepAlive : UInt16
  properties : List ConnectProperty
  clientId : String
  will : Option Will
  username : Option String
  password : Option Bytes

/-- Bit 5 is the retain flag, bits 4 and 3 are the QoS, bit 2 says that there is a will. -/
def willFlags (qos : QoSLevel) (retain : Bool) : Nat :=
  2 ^ 5 * retain.toNat +
    2 ^ 3 * (match qos with
      | .atMostOnce => 0
      | .atLeastOnce => 1
      | .exactlyOnce => 2) +
    2 ^ 2

/-- Bit 7 says that there is a user name, bit 6 that there is a password, bit 1 is clean start,
and bit 0 is reserved. -/
def flagsByte (username password : Bool) (will : Option (QoSLevel × Bool)) (cleanStart : Bool) :
    UInt8 :=
  UInt8.ofNat (2 ^ 7 * username.toNat + 2 ^ 6 * password.toNat +
    will.elim 0 (fun w => willFlags w.1 w.2) + 2 * cleanStart.toNat)

namespace Will

def entries (w : Will) : List Entry := w.properties.map WillProperty.entry

/-- The will in the payload: properties, topic, payload. -/
def bytes (w : Will) : Bytes :=
  propertySection w.entries ++ (utf8String w.topic ++ binaryData w.payload)

structure Fits (w : Will) : Prop where
  properties : Admissible w.entries
  topic : (utf8 w.topic).length ≤ 65535
  payload : w.payload.length ≤ 65535

def header (w : Will) : WillHeader := w.properties.foldl WillProperty.store .default

end Will

namespace Message

def connectFlags (m : Message) : UInt8 :=
  flagsByte m.username.isSome m.password.isSome (m.will.map fun w => (w.qos, w.retain)) m.cleanStart

def entries (m : Message) : List Entry := m.properties.map ConnectProperty.entry

def variableHeader (m : Message) : Bytes :=
  utf8String "MQTT" ++ [5, m.connectFlags] ++ twoByteInteger m.keepAlive

/-- What follows the client identifier: the will, the user name and the password, those that
the flags announce. -/
def announced (m : Message) : Bytes :=
  m.will.elim [] Will.bytes ++ (m.username.elim [] utf8String ++ m.password.elim [] binaryData)

def body (m : Message) : Bytes :=
  m.variableHeader ++ (propertySection m.entries ++ (utf8String m.clientId ++ m.announced))

def bytes (m : Message) : Bytes := 0x10 :: (variableByteInteger m.body.length ++ m.body)

/-- Its fields can be written. -/
structure Fits (m : Message) : Prop where
  properties : Admissible m.entries
  clientId : (utf8 m.clientId).length ≤ 65535
  will : ∀ w, m.will = some w → w.Fits
  username : ∀ s, m.username = some s → (utf8 s).length ≤ 65535
  password : ∀ b, m.password = some b → b.length ≤ 65535

structure Valid (m : Message) : Prop extends m.Fits where
  body : m.body.length ≤ 268435455

/-! ## The packet a message stands for -/

/-- The packet without its properties. -/
def bare (m : Message) : Connect where
  fixedHeader := { packetType := .connect, flags := 0 }
  protocolName := "MQTT"
  protocolVersion := 5
  connectFlags := m.connectFlags
  keepAlive := m.keepAlive
  sessionExpiryInterval := none
  receiveMaximum := none
  maxPacketSize := none
  topicAliasMaximum := none
  requestResponseInfo := none
  requestProblemInfo := none
  authMethod := none
  authData := []
  userProperties := .new
  clientId := m.clientId
  willProperties := m.will.map Will.header
  willPayload := m.will.elim [] Will.payload
  willTopic := m.will.map Will.topic
  usernameField := m.username.getD ""
  passwordField := m.password.getD []

def connect (m : Message) : Connect := m.properties.foldl ConnectProperty.store m.bare

end Message

/-- The smallest message with a will. -/
example : (Message.mk false 60 [] "a" (some ⟨.atLeastOnce, false, [], "t", [0x70]⟩) none none).bytes =
    [0x10, 0x15, 0x00, 0x04, 0x4d, 0x51, 0x54, 0x54, 0x05, 0x0c, 0x00, 0x3c, 0x00, 0x00, 0x01, 0x61,
      0x00, 0x00, 0x01, 0x74, 0x00, 0x01, 0x70] := by
  decide +kernel

end Reference
end Mqtt
end Vaux
