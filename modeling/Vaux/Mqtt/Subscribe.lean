import Vaux.Mqtt.DeriveLayout
import Vaux.Mqtt.FixedHeader

/-!
# SUBSCRIBE, UNSUBSCRIBE and their acknowledgements

The structs of `subscribe.rs` and `unsubscribe.rs`.  Their payload is a vector that
takes what is left of the packet.
-/

namespace Vaux
namespace Mqtt

open Wire Decoder

/-! ## Subscription filters -/

structure SubscriptionFilter where
  filter : String
  options : UInt8
  deriving DecidableEq, Repr

namespace SubscriptionFilter

def setQos (self : SubscriptionFilter) (qos : QoSLevel) : SubscriptionFilter :=
  { self with options := self.options &&& ~~~0b00000011 ||| (qos.toU8 &&& 0b00000011) }

def new (filter : String) (qos : QoSLevel) : SubscriptionFilter :=
  setQos { filter, options := 0 } qos

/-- The value three counts as `AtMostOnce`. -/
def qos (self : SubscriptionFilter) : QoSLevel :=
  match QoSLevel.tryFrom (self.options &&& 0b00000011) with
  | .ok q => q
  | .error _ => .atMostOnce

def noLocal (self : SubscriptionFilter) : Bool := self.options &&& 0b00000100 != 0

/-- The derived codec: the filter, then the options. -/
def codec : Codec SubscriptionFilter :=
  (Codec.seq .string .u8 (· + ·) 0 (by intro n m; simp [Codec.string, Codec.u8])).iso
    (fun p => { filter := p.1, options := p.2 }) (fun s => (s.filter, s.options))
    (fun _ => rfl) (fun _ => rfl)

theorem front_pos {b : Bytes} {n : Nat} (h : codec.field.front b = .whole n) : 0 < n :=
  Field.seq_whole_pos Codec.string_front_pos h

end SubscriptionFilter

/-! ## SUBSCRIBE -/

structure Subscribe where
  fixedHeader : FixedHeader
  packetId : UInt16
  subscriptionId : Option UInt32
  userProps : UserProperty
  filter : List SubscriptionFilter
  deriving DecidableEq

namespace Subscribe

def default : Subscribe where
  fixedHeader := .new .subscribe
  packetId := 0
  subscriptionId := none
  userProps := .new
  filter := []

def properties : List (Property Subscribe) :=
  [.option .subscriptionIdentifier .varInt (·.subscriptionId)
      fun s v => { s with subscriptionId := v },
    .userProperty (·.userProps) fun s v => { s with userProps := v }]

def derived : Derived Subscribe where
  header := [.field .u16 (·.packetId) fun s v => { s with packetId := v }]
  abbreviatedWhen := none
  nonAbbreviated := []
  properties := properties
  remaining := some
    { α := SubscriptionFilter
      codec := SubscriptionFilter.codec
      get := (·.filter)
      set := fun s v => { s with filter := v }
      progress := Codec.progress_of_front _ SubscriptionFilter.front_pos }

theorem derived_exact : derived.Exact where
  header := by simp [derived, Member.field, Codec.u16]
  nonAbbreviated := by simp [derived]
  remaining := by simp [derived, SubscriptionFilter.codec, Codec.iso, Codec.seq]

end Subscribe

/-! ## SUBACK -/

structure SubAck where
  fixedHeader : FixedHeader
  packetId : UInt16
  reason : Option String
  userProperties : UserProperty
  reasonCodes : List Reason
  deriving DecidableEq

/-- A `Vec<Reason>` payload. -/
def remainingReasons {σ : Type} (get : σ → List Reason) (set : σ → List Reason → σ)
    (lens : ∀ s v, get (set s v) = v := by intros; rfl) : Remaining σ where
  α := Reason
  codec := .reason
  get := get
  set := set
  lens := lens
  progress := Codec.progress_of_front _ Codec.reason_front_pos

namespace SubAck

def default : SubAck where
  fixedHeader := .new .subAck
  packetId := 0
  reason := none
  userProperties := .new
  reasonCodes := []

def newWithPacketId (packetId : UInt16) : Except MqttCodecError SubAck :=
  if packetId = 0 then
    .error (.newWithKind "2.2.1 Packet identified must not be 0" .invalidPacketIdentifier)
  else .ok { default with packetId }

def properties : List (Property SubAck) :=
  [.option .reasonString .string (·.reason) fun s v => { s with reason := v },
    .userProperty (·.userProperties) fun s v => { s with userProperties := v }]

def derived : Derived SubAck where
  header := [.field .u16 (·.packetId) fun s v => { s with packetId := v }]
  abbreviatedWhen := none
  nonAbbreviated := []
  properties := properties
  remaining := some (remainingReasons (·.reasonCodes) fun s v => { s with reasonCodes := v })

theorem derived_exact : derived.Exact where
  header := by simp [derived, Member.field, Codec.u16]
  nonAbbreviated := by simp [derived]
  remaining := by simp [derived, remainingReasons, Codec.reason, Codec.enum]

end SubAck

/-! ## UNSUBACK -/

/-- The reason string is not optional, so it is always written. -/
structure UnsubAck where
  fixedHeader : FixedHeader
  packetId : UInt16
  reason : String
  userProperties : UserProperty
  reasonCode : List Reason
  deriving DecidableEq

namespace UnsubAck

def default : UnsubAck where
  fixedHeader := .new .unsubAck
  packetId := 0
  reason := ""
  userProperties := .new
  reasonCode := []

def properties : List (Property UnsubAck) :=
  [.required .reasonString .string (·.reason) fun s v => { s with reason := v },
    .userProperty (·.userProperties) fun s v => { s with userProperties := v }]

def derived : Derived UnsubAck where
  header := [.field .u16 (·.packetId) fun s v => { s with packetId := v }]
  abbreviatedWhen := none
  nonAbbreviated := []
  properties := properties
  remaining := some (remainingReasons (·.reasonCode) fun s v => { s with reasonCode := v })

theorem derived_exact : derived.Exact where
  header := by simp [derived, Member.field, Codec.u16]
  nonAbbreviated := by simp [derived]
  remaining := by simp [derived, remainingReasons, Codec.reason, Codec.enum]

end UnsubAck

/-! ## UNSUBSCRIBE -/

structure Unsubscribe where
  fixedHeader : FixedHeader
  packetId : UInt16
  props : UserProperty
  topics : List String
  deriving DecidableEq

namespace Unsubscribe

def default : Unsubscribe where
  fixedHeader := .new .unsubscribe
  packetId := 0
  props := .new
  topics := []

def properties : List (Property Unsubscribe) :=
  [.userProperty (·.props) fun s v => { s with props := v }]

def derived : Derived Unsubscribe where
  header := [.field .u16 (·.packetId) fun s v => { s with packetId := v }]
  abbreviatedWhen := none
  nonAbbreviated := []
  properties := properties
  remaining := some
    { α := String
      codec := .string
      get := (·.topics)
      set := fun s v => { s with topics := v }
      progress := Codec.progress_of_front _ Codec.string_front_pos }

theorem derived_exact : derived.Exact where
  header := by simp [derived, Member.field, Codec.u16]
  nonAbbreviated := by simp [derived]
  remaining := by simp [derived, Codec.string]

end Unsubscribe

end Mqtt
end Vaux
