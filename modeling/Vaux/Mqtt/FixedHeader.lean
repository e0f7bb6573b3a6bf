import Vaux.Mqtt.Primitive

/-!
# The fixed header

`codec/fixed.rs`: the packet type and the four flag bits of the first byte.  The
flags of a PUBLISH are taken as they come, so its two QoS bits can hold the value
three, which `qos` unwraps.
-/

namespace Vaux
namespace Mqtt

open Wire Decoder

def packetReservedNone : UInt8 := 0x00
def packetReservedBit1 : UInt8 := 0x02

def qosMask : UInt8 := 0b00000110
def retainMask : UInt8 := 0b00000001
def dupMask : UInt8 := 0b00001000

structure FixedHeader where
  packetType : PacketType
  flags : UInt8
  deriving DecidableEq, Repr

namespace FixedHeader

/-- The derived `Default`. -/
def default : FixedHeader := { packetType := .connect, flags := 0 }

def new (packetType : PacketType) : FixedHeader :=
  match packetType with
  | .pubRel | .subscribe | .unsubscribe => { packetType, flags := packetReservedBit1 }
  | _ => { packetType, flags := packetReservedNone }

def dup (self : FixedHeader) : Bool := self.flags &&& dupMask != 0

def setDup (self : FixedHeader) (dup : Bool) : FixedHeader :=
  { self with flags := self.flags &&& ~~~dupMask ||| (putBool dup <<< 3) }

def retain (self : FixedHeader) : Bool := self.flags &&& retainMask != 0

def setRetain (self : FixedHeader) (retain : Bool) : FixedHeader :=
  { self with flags := self.flags &&& ~~~retainMask ||| putBool retain }

/-- `try_into().unwrap()` on the two QoS bits. -/
def qos (self : FixedHeader) : Outcome MqttCodecError QoSLevel :=
  match QoSLevel.tryFrom ((self.flags &&& qosMask) >>> 1) with
  | .ok q => .ok q
  | .error _ => .panic

def setQos (self : FixedHeader) (qos : QoSLevel) : FixedHeader :=
  { self with flags := self.flags &&& ~~~qosMask ||| (qos.toU8 <<< 1) }

def encode (self : FixedHeader) : Enc :=
  .ok [self.packetType.toU8 ||| (self.flags &&& 0x0f)]

/-- The packet types whose flags are fixed, with the value they must have. -/
def reservedFlags : PacketType → Option UInt8
  | .pubRel | .subscribe | .unsubscribe => some packetReservedBit1
  | .publish => none
  | _ => some packetReservedNone

def decode : Dec (FixedHeader × Nat) := do
  let n ← remaining
  if n < 2 then fail (.newWithKind "Insufficient data" (.insufficientData 2 n))
  else do
    let firstByte ← getU8
    let flags := firstByte &&& 0x0f
    let packetType := PacketType.ofU8 (firstByte &&& 0xf0)
    match reservedFlags packetType with
    | some reserved =>
      if flags ≠ reserved then
        fail (.new s!"invalid flags for {packetType.display}: {flags}")
      else pure ({ packetType, flags }, 1)
    | none => pure ({ packetType, flags }, 1)

end FixedHeader

end Mqtt
end Vaux
