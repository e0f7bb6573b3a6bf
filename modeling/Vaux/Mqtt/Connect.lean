import Vaux.Mqtt.DeriveLayout
import Vaux.Mqtt.FixedHeader

/-!
# CONNECT and the will message

`connect.rs` and `will.rs`.  The codec of `WillHeader` is derived; that of `Connect`
is derived for encoding and written by hand for decoding.  The payload of a CONNECT
is governed by its flags when it is read, and by which fields are present or not
empty when it is written.
-/

namespace Vaux
namespace Mqtt

open Wire Decoder

/-! ## The will -/

structure WillHeader where
  willDelay : Option UInt32
  payloadFormat : Option PayloadFormat
  messageExpiry : Option UInt32
  contentType : Option String
  responseTopic : Option String
  correlationData : Bytes
  userProperties : UserProperty
  deriving DecidableEq

namespace WillHeader

def default : WillHeader where
  willDelay := none
  payloadFormat := none
  messageExpiry := none
  contentType := none
  responseTopic := none
  correlationData := []
  userProperties := .new

def properties : List (Property WillHeader) :=
  [.option .willDelay .u32 (·.willDelay) fun s v => { s with willDelay := v },
    .option .payloadFormat .payloadFormat (·.payloadFormat) fun s v => { s with payloadFormat := v },
    .option .messageExpiry .u32 (·.messageExpiry) fun s v => { s with messageExpiry := v },
    .option .contentType .string (·.contentType) fun s v => { s with contentType := v },
    .option .responseTopic .string (·.responseTopic) fun s v => { s with responseTopic := v },
    .vec .correlationData false (·.correlationData) fun s v => { s with correlationData := v },
    .userProperty (·.userProperties) fun s v => { s with userProperties := v }]

/-- Only properties: the length and the properties are all there is on the wire. -/
def derived : Derived WillHeader where
  header := []
  abbreviatedWhen := none
  nonAbbreviated := []
  properties := properties
  remaining := none

theorem decode_eq (w : WillHeader) :
    derived.decode w = decodeProperties properties unsupportedProperty w 0 := by
  ext src
  simp only [Derived.decode, Derived.decodeFull, Derived.decodeRemaining, derived, decodeMembers,
    run_bind, run_pure, run_remaining, Outcome.bind_ok, Option.isSome_none, Bool.false_eq_true,
    false_and, if_false]
  cases (decodeProperties properties unsupportedProperty w 0).run src <;> rfl

end WillHeader

structure WillMessage where
  header : WillHeader
  topic : String
  payload : Bytes
  qos : QoSLevel
  retain : Bool
  deriving DecidableEq

/-! ## CONNECT -/

def connectFlagUsername : UInt8 := 0b10000000
def connectFlagPassword : UInt8 := 0b01000000
def connectFlagWillRetain : UInt8 := 0b00100000
def connectFlagWillQos : UInt8 := 0b00011000
def connectFlagWill : UInt8 := 0b00000100
def connectFlagCleanStart : UInt8 := 0b00000010

structure Connect where
  fixedHeader : FixedHeader
  protocolName : String
  protocolVersion : UInt8
  connectFlags : UInt8
  keepAlive : UInt16
  sessionExpiryInterval : Option UInt32
  receiveMaximum : Option UInt16
  maxPacketSize : Option UInt32
  topicAliasMaximum : Option UInt16
  requestResponseInfo : Option Bool
  requestProblemInfo : Option Bool
  authMethod : Option String
  authData : Bytes
  userProperties : UserProperty
  clientId : String
  willProperties : Option WillHeader
  willPayload : Bytes
  willTopic : Option String
  usernameField : String
  passwordField : Bytes
  deriving DecidableEq

namespace Connect

/-- `Connect::new`, with the client identifier it draws at random. -/
def new (clientId : String) : Connect where
  fixedHeader := .new .connect
  protocolName := "MQTT"
  protocolVersion := 0x05
  connectFlags := 0
  keepAlive := 60
  sessionExpiryInterval := none
  receiveMaximum := none
  maxPacketSize := none
  topicAliasMaximum := none
  requestResponseInfo := none
  requestProblemInfo := none
  authMethod := none
  authData := []
  userProperties := .new
  clientId := clientId
  willProperties := none
  willPayload := []
  willTopic := none
  usernameField := ""
  passwordField := []

def cleanStart (self : Connect) : Bool := self.connectFlags &&& connectFlagCleanStart != 0

def setCleanStart (self : Connect) (cleanStart : Bool) : Connect :=
  { self with
    connectFlags := self.connectFlags &&& ~~~connectFlagCleanStart ||| (putBool cleanStart <<< 1) }

def willRetain (self : Connect) : Bool := self.connectFlags &&& connectFlagWillRetain != 0

def setWillRetain (self : Connect) (willRetain : Bool) : Connect :=
  { self with
    connectFlags := self.connectFlags &&& ~~~connectFlagWillRetain ||| (putBool willRetain <<< 5) }

def willQos (self : Connect) : Except MqttCodecError QoSLevel :=
  QoSLevel.tryFrom ((self.connectFlags &&& connectFlagWillQos) >>> 3)

def setWillQos (self : Connect) (qos : QoSLevel) : Connect :=
  { self with
    connectFlags := self.connectFlags &&& ~~~connectFlagWillQos ||| (qos.toU8 <<< 3) }

def will (self : Connect) : Bool := self.connectFlags &&& connectFlagWill != 0

def setWill (self : Connect) (will : Bool) : Connect :=
  { self with connectFlags := self.connectFlags &&& ~~~connectFlagWill ||| (putBool will <<< 2) }

def username (self : Connect) : Bool := self.connectFlags &&& connectFlagUsername != 0

def setUsername (self : Connect) (username : Option String) : Connect :=
  { self with
    connectFlags :=
      if username.isNone then self.connectFlags &&& ~~~connectFlagUsername
      else self.connectFlags &&& ~~~connectFlagUsername ||| ((1 : UInt8) <<< 7)
    usernameField := username.getD "" }

def password (self : Connect) : Bool := self.connectFlags &&& connectFlagPassword != 0

def setPassword (self : Connect) (password : Option Bytes) : Connect :=
  { self with
    connectFlags :=
      if password.isNone then self.connectFlags &&& ~~~connectFlagPassword
      else self.connectFlags &&& ~~~connectFlagPassword ||| ((1 : UInt8) <<< 6)
    passwordField := password.getD [] }

def setSessionExpiryInterval (self : Connect) (interval : UInt32) : Connect :=
  { self with sessionExpiryInterval := if interval = 0 then none else some interval }

def willMessage (self : Connect) : Option WillMessage :=
  if self.will then
    some
      { topic := self.willTopic.getD ""
        payload := self.willPayload
        qos := match self.willQos with
          | .ok q => q
          | .error _ => .atMostOnce
        retain := self.willRetain
        header := self.willProperties.getD .default }
  else none

def setWillMessage (self : Connect) (will : WillMessage) : Connect :=
  let self :=
    { self with
      willTopic := some will.topic
      willPayload := will.payload
      willProperties := some will.header }
  ((self.setWill true).setWillQos will.qos).setWillRetain will.retain

def connectFlagsMember : Member Connect :=
  .field .u8 (·.connectFlags) fun s v => { s with connectFlags := v }

def header : List (Member Connect) :=
  [.field .string (·.protocolName) fun s v => { s with protocolName := v },
    .field .u8 (·.protocolVersion) fun s v => { s with protocolVersion := v },
    connectFlagsMember,
    .field .u16 (·.keepAlive) fun s v => { s with keepAlive := v }]

def properties : List (Property Connect) :=
  [.option .sessionExpiryInterval .u32 (·.sessionExpiryInterval)
      fun s v => { s with sessionExpiryInterval := v },
    .option .recvMax .u16 (·.receiveMaximum) fun s v => { s with receiveMaximum := v },
    .option .maxPacketSize .u32 (·.maxPacketSize) fun s v => { s with maxPacketSize := v },
    .option .topicAliasMax .u16 (·.topicAliasMaximum) fun s v => { s with topicAliasMaximum := v },
    .option .reqRespInfo .flag (·.requestResponseInfo)
      fun s v => { s with requestResponseInfo := v },
    .option .reqProblemInfo .flag (·.requestProblemInfo)
      fun s v => { s with requestProblemInfo := v },
    .option .authMethod .string (·.authMethod) fun s v => { s with authMethod := v },
    .vec .authData true (·.authData) fun s v => { s with authData := v },
    .userProperty (·.userProperties) fun s v => { s with userProperties := v }]

section

variable (order : HashOrder)

/-- An `Option<WillHeader>` field. -/
def willPropertiesSize (self : Connect) : UInt32 :=
  match self.willProperties with
  | none => 0
  | some w => WillHeader.derived.codecSize order w

def encodeWillProperties (self : Connect) : Enc :=
  match self.willProperties with
  | none => .ok []
  | some w => WillHeader.derived.encodeBody order w

/-- The payload fields behind the will properties.  The empty ones of the three that
have no option type are skipped. -/
def payloadTail : List (Member Connect) :=
  [.skipIfEmpty .binary [] (·.willPayload) fun s v => { s with willPayload := v },
    .option .string (·.willTopic) fun s v => { s with willTopic := v },
    .skipIfEmpty .string "" (·.usernameField) fun s v => { s with usernameField := v },
    .skipIfEmpty .binary [] (·.passwordField) fun s v => { s with passwordField := v }]

def clientIdMember : Member Connect :=
  .field .string (·.clientId) fun s v => { s with clientId := v }

def codecSize (self : Connect) : UInt32 :=
  let totalSize := (header.map (Member.size order self)).sum + clientIdMember.size order self +
    self.willPropertiesSize order + (payloadTail.map (Member.size order self)).sum
  let propertySize := propertySize order properties self
  totalSize + propertySize + variableByteIntSize propertySize

def encodeBody (self : Connect) : Enc := do
  let fields ← encodeAll (Member.encode order self) header
  let e ← propertyEncode order properties self
  let clientId ← clientIdMember.encode order self
  let willProperties ← self.encodeWillProperties order
  let tail ← encodeAll (Member.encode order self) payloadTail
  .ok (fields ++ e ++ clientId ++ willProperties ++ tail)

end

def unsupported : PropertyType → MqttCodecError := unsupportedPropertyFor "Connect"

def decodeWill (self : Connect) (bytesRead : Nat) : Dec (Connect × Nat) :=
  if self.will then do
    let (willHeader, n) ← WillHeader.derived.decode .default
    let bytesRead := bytesRead + n
    let (willPayload, n) ← decodeArrayField
    let bytesRead := bytesRead + n
    let (willTopic, n) ← decodeString
    pure ({ self with willProperties := some willHeader, willPayload, willTopic := some willTopic },
      bytesRead + n)
  else pure (self, bytesRead)

def decodeUsername (self : Connect) (bytesRead : Nat) : Dec (Connect × Nat) :=
  if self.username then do
    let (usernameField, n) ← decodeString
    pure ({ self with usernameField }, bytesRead + n)
  else pure (self, bytesRead)

def decodePassword (self : Connect) (bytesRead : Nat) : Dec (Connect × Nat) :=
  if self.password then do
    let (passwordField, n) ← decodeArrayField
    pure ({ self with passwordField }, bytesRead + n)
  else pure (self, bytesRead)

def decode (self : Connect) : Dec (Connect × Nat) := do
  let (self, bytesRead) ← decodeMembers header self 0
  let (self, bytesRead) ← decodeProperties properties unsupported self bytesRead
  let (self, bytesRead) ← clientIdMember.decode self bytesRead
  let (self, bytesRead) ← decodeWill self bytesRead
  let (self, bytesRead) ← decodeUsername self bytesRead
  decodePassword self bytesRead

/-! ## Layout -/

def layoutWill (flags : UInt8) (next : Layout) : Layout :=
  if flags &&& connectFlagWill != 0 then
    layoutProperties WillHeader.properties
      (.field Codec.binary.field fun _ => .field Codec.string.field fun _ => next)
  else next

def layoutUsername (flags : UInt8) (next : Layout) : Layout :=
  if flags &&& connectFlagUsername != 0 then .field Codec.string.field fun _ => next else next

def layoutPassword (flags : UInt8) : Layout :=
  if flags &&& connectFlagPassword != 0 then .field Codec.binary.field fun _ => .done else .done

def layoutPayload (flags : UInt8) : Layout :=
  .field Codec.string.field fun _ =>
    layoutWill flags (layoutUsername flags (layoutPassword flags))

/-- The payload depends on the flags. -/
def layout : Layout :=
  .field Codec.string.field fun _ =>
    .field Codec.u8.field fun _ =>
      .field Codec.u8.field fun flags =>
        .field Codec.u16.field fun _ =>
          layoutProperties properties (layoutPayload (UInt8.ofNat (beValue flags)))

theorem decodeU8_value {src : Bytes} {v : UInt8} {n : Nat} {rest : Bytes}
    (h : decodeU8.run src = .ok ((v, n), rest)) : v = UInt8.ofNat (beValue (src.take n)) := by
  rw [takesFixed_decodeU8 src] at h
  split at h
  · cases h
  · cases h
    rfl

theorem decodeFlags_agrees (self : Connect) (k : Nat) (src : Bytes) (next : UInt8 → Layout) :
    Agrees Starving src k (.field Codec.u8.field fun c => next (UInt8.ofNat (beValue c)))
      (fun r => next r.1.connectFlags) Prod.snd ((connectFlagsMember.decode self k).run src) := by
  refine (Codec.u8.agrees src k _ rfl).bind fun r rest h => ?_
  rw [← decodeU8_value h]
  exact ⟨0, .refl _ _, rfl⟩

theorem decodeHeader_agrees (self : Connect) (src : Bytes) :
    Agrees Starving src 0 layout
      (fun r => layoutProperties properties (layoutPayload r.1.connectFlags)) Prod.snd
      ((decodeMembers header self 0).run src) := by
  refine (Member.decode_tracks _ rfl _ self 0 src).bind fun r₁ src₁ _ => ?_
  refine (Member.decode_tracks _ rfl _ r₁.1 r₁.2 src₁).bind fun r₂ src₂ _ => ?_
  refine (decodeFlags_agrees r₂.1 r₂.2 src₂ fun flags => .field Codec.u16.field fun _ =>
    layoutProperties properties (layoutPayload flags)).bind fun r₃ src₃ _ => ?_
  refine (Member.decode_tracks _ rfl _ r₃.1 r₃.2 src₃).bind fun r₄ src₄ h => ?_
  obtain ⟨a, j, -, hself, -⟩ := Member.decode_ok h
  have hflags : r₄.1.connectFlags = r₃.1.connectFlags := by rw [hself]; rfl
  rw [← hflags]
  exact ⟨0, .refl _ _, rfl⟩

theorem decodeProperties_connectFlags {self self' : Connect} {k n : Nat} {src rest : Bytes}
    (h : (decodeProperties properties unsupported self k).run src = .ok ((self', n), rest)) :
    self'.connectFlags = self.connectFlags := by
  refine decodeProperties_frame (·.connectFlags) ?_ h
  intro p hp s a
  simp only [properties, List.mem_cons, List.not_mem_nil, or_false] at hp
  rcases hp with rfl | rfl | rfl | rfl | rfl | rfl | rfl | rfl | rfl <;> rfl

section

variable {self self' : Connect} {k n : Nat} {src rest : Bytes}

theorem decodeWill_cases (h : (self.decodeWill k).run src = .ok ((self', n), rest)) :
    (self.will = true ∧ ∃ header j payload j₁ topic j₂ src₁ src₂,
      (decodeProperties WillHeader.properties unsupportedProperty .default 0).run src =
        .ok ((header, j), src₁) ∧
      decodeArrayField.run src₁ = .ok ((payload, j₁), src₂) ∧
      decodeString.run src₂ = .ok ((topic, j₂), rest) ∧
      self' = { self with
        willProperties := some header, willPayload := payload, willTopic := some topic }) ∨
    (self.will = false ∧ self' = self ∧ rest = src) := by
  unfold decodeWill at h
  split at h
  · rename_i hflag
    rw [WillHeader.decode_eq] at h
    simp only [run_bind] at h
    obtain ⟨⟨⟨header, j⟩, src₁⟩, hsection, h⟩ := Outcome.bind_eq_ok.mp h
    obtain ⟨⟨⟨payload, j₁⟩, src₂⟩, hpayload, h⟩ := Outcome.bind_eq_ok.mp h
    obtain ⟨⟨⟨topic, j₂⟩, src₃⟩, htopic, h⟩ := Outcome.bind_eq_ok.mp h
    cases h
    exact .inl ⟨hflag, header, j, payload, j₁, topic, j₂, src₁, src₂, hsection, hpayload, htopic,
      rfl⟩
  · rename_i hflag
    cases h
    exact .inr ⟨Bool.eq_false_iff.mpr hflag, rfl, rfl⟩

theorem decodeUsername_cases (h : (self.decodeUsername k).run src = .ok ((self', n), rest)) :
    (self.username = true ∧ ∃ u j, decodeString.run src = .ok ((u, j), rest) ∧
      self' = { self with usernameField := u }) ∨
    (self.username = false ∧ self' = self ∧ rest = src) := by
  unfold decodeUsername at h
  split at h
  · rename_i hflag
    rw [run_bind] at h
    obtain ⟨⟨⟨u, j⟩, src₁⟩, hrun, h⟩ := Outcome.bind_eq_ok.mp h
    cases h
    exact .inl ⟨hflag, u, j, hrun, rfl⟩
  · rename_i hflag
    cases h
    exact .inr ⟨Bool.eq_false_iff.mpr hflag, rfl, rfl⟩

theorem decodePassword_cases (h : (self.decodePassword k).run src = .ok ((self', n), rest)) :
    (self.password = true ∧ ∃ b j, decodeArrayField.run src = .ok ((b, j), rest) ∧
      self' = { self with passwordField := b }) ∨
    (self.password = false ∧ self' = self ∧ rest = src) := by
  unfold decodePassword at h
  split at h
  · rename_i hflag
    rw [run_bind] at h
    obtain ⟨⟨⟨b, j⟩, src₁⟩, hrun, h⟩ := Outcome.bind_eq_ok.mp h
    cases h
    exact .inl ⟨hflag, b, j, hrun, rfl⟩
  · rename_i hflag
    cases h
    exact .inr ⟨Bool.eq_false_iff.mpr hflag, rfl, rfl⟩

theorem decodeWill_connectFlags (h : (self.decodeWill k).run src = .ok ((self', n), rest)) :
    self'.connectFlags = self.connectFlags := by
  rcases decodeWill_cases h with ⟨-, _, _, _, _, _, _, _, _, -, -, -, rfl⟩ | ⟨-, rfl, -⟩ <;> rfl

theorem decodeUsername_connectFlags (h : (self.decodeUsername k).run src = .ok ((self', n), rest)) :
    self'.connectFlags = self.connectFlags := by
  rcases decodeUsername_cases h with ⟨-, _, _, -, rfl⟩ | ⟨-, rfl, -⟩ <;> rfl

end

theorem decodeWill_tracks (next : Layout) (self : Connect) (k : Nat) :
    Tracks Starving (self.decodeWill k) k (layoutWill self.connectFlags next) (fun _ => next)
      Prod.snd := by
  unfold decodeWill layoutWill will
  split
  · intro src
    rw [WillHeader.decode_eq]
    have hu := Derived.unsupportedProperty_not_insufficient
    refine ((decodeProperties_tracks WillHeader.properties hu _ _ 0).count_add k src).bind
      fun r₁ src₁ _ => ?_
    refine (Codec.binary.tracks (k + r₁.2) _ rfl src₁).bind fun r₂ src₂ _ => ?_
    exact (Codec.string.tracks (k + r₁.2 + r₂.2) next rfl src₂).bind
      fun r₃ src₃ _ => ⟨0, .refl _ _, rfl⟩
  · exact Tracks.pure rfl rfl

theorem decodeUsername_tracks (next : Layout) (self : Connect) (k : Nat) :
    Tracks Starving (self.decodeUsername k) k (layoutUsername self.connectFlags next)
      (fun _ => next) Prod.snd := by
  unfold decodeUsername layoutUsername username
  split
  · intro src
    exact (Codec.string.tracks k next rfl src).bind fun r rest _ => ⟨0, .refl _ _, rfl⟩
  · exact Tracks.pure rfl rfl

theorem decodePassword_tracks (self : Connect) (k : Nat) :
    Tracks Starving (self.decodePassword k) k (layoutPassword self.connectFlags)
      (fun _ => .done) Prod.snd := by
  unfold decodePassword layoutPassword password
  split
  · intro src
    exact (Codec.binary.tracks k .done rfl src).bind fun r rest _ => ⟨0, .refl _ _, rfl⟩
  · exact Tracks.pure rfl rfl

theorem decode_tracks (self : Connect) :
    Tracks Starving self.decode 0 layout (fun _ => .done) Prod.snd := by
  intro src
  refine (decodeHeader_agrees self src).bind fun r₁ src₁ _ => ?_
  have hu : ∀ t, ¬ (unsupported t).insufficient := by simp [unsupported, unsupportedPropertyFor]
  refine (decodeProperties_tracks properties hu _ r₁.1 r₁.2 src₁).bind fun r₂ src₂ h₂ => ?_
  rw [← decodeProperties_connectFlags h₂]
  refine (Member.decode_tracks clientIdMember rfl _ r₂.1 r₂.2 src₂).bind fun r₃ src₃ h₃ => ?_
  obtain ⟨a, j, -, hself, -⟩ := Member.decode_ok h₃
  have hflags : r₃.1.connectFlags = r₂.1.connectFlags := by rw [hself]; rfl
  rw [← hflags]
  refine (decodeWill_tracks _ r₃.1 r₃.2 src₃).bind fun r₄ src₄ h₄ => ?_
  rw [← decodeWill_connectFlags h₄]
  refine (decodeUsername_tracks _ r₄.1 r₄.2 src₄).bind fun r₅ src₅ h₅ => ?_
  rw [← decodeUsername_connectFlags h₅]
  exact decodePassword_tracks r₅.1 r₅.2 src₅

end Connect

end Mqtt
end Vaux
