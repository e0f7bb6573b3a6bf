import Vaux.Mqtt.Acknowledge
import Vaux.Mqtt.Connect
import Vaux.Mqtt.Publish
import Vaux.Mqtt.Subscribe

/-!
# Packets

`Packet`, its encoder and the top-level `decode` of `codec/mod.rs`.  `decode` reads
the fixed header and the remaining length, cuts the buffer off behind the packet
and hands the body to the decoder of the packet type.  The length it returns is
summed up from what the decoders report.
-/

namespace Vaux
namespace Mqtt

open Wire Decoder

inductive Packet where
  | pingRequest (p : PingReq)
  | pingResponse (p : PingResp)
  | connect (p : Connect)
  | connAck (p : ConnAck)
  | publish (p : Publish)
  | pubAck (p : PubResp)
  | pubComp (p : PubResp)
  | pubRec (p : PubResp)
  | pubRel (p : PubResp)
  | disconnect (p : Disconnect)
  | subscribe (p : Subscribe)
  | subAck (p : SubAck)
  | unsubscribe (p : Unsubscribe)
  | unsubAck (p : UnsubAck)
  deriving DecidableEq

/-- The fixed header, the remaining length, the body. -/
def encodePacket (fixedHeader : FixedHeader) (codecSize : UInt32) (body : Enc) : Enc := do
  let first ← fixedHeader.encode
  let len ← encodeVariableByteInt codecSize
  let e ← body
  .ok (first ++ len ++ e)

def Derived.encode {σ : Type} (order : HashOrder) (d : Derived σ) (fixedHeader : FixedHeader)
    (self : σ) : Enc :=
  encodePacket fixedHeader (d.codecSize order self) (d.encodeBody order self)

namespace Packet

def encode (order : HashOrder) : Packet → Enc
  | .pingRequest p => encodePacket p.fixedHeader 0 (.ok [])
  | .pingResponse p => encodePacket p.fixedHeader 0 (.ok [])
  | .connect p => encodePacket p.fixedHeader (p.codecSize order) (p.encodeBody order)
  | .connAck p => ConnAck.derived.encode order p.fixedHeader p
  | .publish p => encodePacket p.fixedHeader (p.codecSize order) (p.encodeBody order)
  | .pubAck p => PubResp.derived.encode order p.fixedHeader p
  | .pubComp p => PubResp.derived.encode order p.fixedHeader p
  | .pubRec p => PubResp.derived.encode order p.fixedHeader p
  | .pubRel p => PubResp.derived.encode order p.fixedHeader p
  | .disconnect p => Disconnect.derived.encode order p.fixedHeader p
  | .subscribe p => Subscribe.derived.encode order p.fixedHeader p
  | .subAck p => SubAck.derived.encode order p.fixedHeader p
  | .unsubscribe p => Unsubscribe.derived.encode order p.fixedHeader p
  | .unsubAck p => UnsubAck.derived.encode order p.fixedHeader p

end Packet

/-- A decoder's value as a packet. -/
def asPacket {σ : Type} (d : Dec (σ × Nat)) (packet : σ → Packet) : Dec (Packet × Nat) := do
  let (p, n) ← d
  pure (packet p, n)

/-- The body of a packet, by its type.  The client identifier `Connect::new` draws is
read over before anything looks at it, so any will do. -/
def decodeBody (fixedHeader : FixedHeader) : Dec (Packet × Nat) :=
  match fixedHeader.packetType with
  | .pingReq => pure (.pingRequest .default, 0)
  | .pingResp => pure (.pingResponse .default, 0)
  | .connect => asPacket (Connect.new "").decode .connect
  | .publish => do
    let publish ← lift (.ofExcept (Publish.newFromHeader fixedHeader))
    asPacket publish.decode .publish
  | .pubAck => asPacket (PubResp.derived.decode .default) .pubAck
  | .pubComp => asPacket (PubResp.derived.decode .default) .pubComp
  | .pubRec => asPacket (PubResp.derived.decode .default) .pubRec
  | .pubRel => asPacket (PubResp.derived.decode .default) .pubRel
  | .disconnect => asPacket (Disconnect.derived.decode .default) .disconnect
  | .connAck => asPacket (ConnAck.derived.decode .default) .connAck
  | .subscribe => asPacket (Subscribe.derived.decode .default) .subscribe
  | .subAck => asPacket (SubAck.derived.decode .default) .subAck
  | .unsubscribe => asPacket (Unsubscribe.derived.decode .default) .unsubscribe
  | .unsubAck => asPacket (UnsubAck.derived.decode .default) .unsubAck
  | .auth => fail (.new "unsupported packet type")

/-- `for idx in 0..=3`: the length field is there up to its last byte. -/
def lengthPresent (src : Bytes) : List Nat → Except MqttCodecError Unit
  | [] => .ok ()
  | idx :: rest =>
    match src[idx]? with
    | none =>
      .error (.newWithKind "Insufficient data" (.insufficientData (idx + 1) src.length))
    | some x => if x &&& 0x80 = 0 then .ok () else lengthPresent src rest

/-- `codec::decode`. -/
def decode (src : Bytes) : Outcome MqttCodecError (Option (Packet × Nat)) :=
  (FixedHeader.decode.run src).bind fun ((fixedHeader, decodeLen), src) =>
  (Outcome.ofExcept (lengthPresent src [0, 1, 2, 3])).bind fun _ =>
  (decodeVariableByteInt.run src).bind fun ((packetRemaining, bytesRead), src) =>
    let expected := packetRemaining.toNat
    if src.length < expected then
      .err (.newWithKind "Insufficient data" (.insufficientData expected src.length))
    else
      let decodeLen := decodeLen + bytesRead
      if src.length < expected then
        .err (.newWithKind
          s!"malformed packet: remaining length actual: {src.length} expected: {packetRemaining}"
          (.insufficientData expected src.length))
      else
        let src := if src.length > expected then src.take (src.length - (src.length - expected))
          else src
        ((decodeBody fixedHeader).run src).bind fun r => .ok (some (r.1.1, decodeLen + r.1.2))

/-- `codec::decode`, with what it leaves in `src`: it has advanced over what it read and
split off what follows the frame. -/
def decodeLeaving (src : Bytes) : Outcome MqttCodecError (Option (Packet × Nat) × Bytes) :=
  (FixedHeader.decode.run src).bind fun ((fixedHeader, decodeLen), src) =>
  (Outcome.ofExcept (lengthPresent src [0, 1, 2, 3])).bind fun _ =>
  (decodeVariableByteInt.run src).bind fun ((packetRemaining, bytesRead), src) =>
    let expected := packetRemaining.toNat
    if src.length < expected then
      .err (.newWithKind "Insufficient data" (.insufficientData expected src.length))
    else
      let decodeLen := decodeLen + bytesRead
      if src.length < expected then
        .err (.newWithKind
          s!"malformed packet: remaining length actual: {src.length} expected: {packetRemaining}"
          (.insufficientData expected src.length))
      else
        let src := if src.length > expected then src.take (src.length - (src.length - expected))
          else src
        ((decodeBody fixedHeader).run src).bind fun r =>
          .ok (some (r.1.1, decodeLen + r.1.2), r.2)

theorem decode_eq_map (src : Bytes) : decode src = (decodeLeaving src).map Prod.fst := by
  simp only [decode, decodeLeaving]
  cases FixedHeader.decode.run src with
  | err e => rfl
  | panic => rfl
  | ok r =>
      obtain ⟨⟨fixedHeader, decodeLen⟩, src⟩ := r
      simp only [Outcome.bind_ok]
      cases Outcome.ofExcept (lengthPresent src [0, 1, 2, 3]) with
      | err e => rfl
      | panic => rfl
      | ok u =>
          simp only [Outcome.bind_ok]
          cases decodeVariableByteInt.run src with
          | err e => rfl
          | panic => rfl
          | ok r =>
              obtain ⟨⟨packetRemaining, bytesRead⟩, src⟩ := r
              simp only [Outcome.bind_ok]
              split
              · rfl
              · cases (decodeBody fixedHeader).run _ <;> rfl

/-! ## Layouts of the bodies -/

def bodyLayout (fixedHeader : FixedHeader) : Layout :=
  match fixedHeader.packetType with
  | .pingReq | .pingResp => .done
  | .connect => Connect.layout
  | .publish => Publish.layout fixedHeader
  | .pubAck | .pubComp | .pubRec | .pubRel => PubResp.derived.layout
  | .disconnect => Disconnect.derived.layout
  | .connAck => ConnAck.derived.layout
  | .subscribe => Subscribe.derived.layout
  | .subAck => SubAck.derived.layout
  | .unsubscribe => Unsubscribe.derived.layout
  | .unsubAck => UnsubAck.derived.layout
  | .auth => .field .never fun _ => .done

theorem asPacket_tracks {σ : Type} {d : Dec (σ × Nat)} {l : Layout}
    (h : Tracks Starving d 0 l (fun _ => .done) Prod.snd) (packet : σ → Packet) :
    Tracks Starving (asPacket d packet) 0 l (fun _ => .done) Prod.snd :=
  h.bind fun _ => Tracks.pure rfl rfl

/-- Whatever the packet type, the decoder of the body follows the body's layout. -/
theorem decodeBody_tracks (fixedHeader : FixedHeader) :
    Tracks Starving (decodeBody fixedHeader) 0 (bodyLayout fixedHeader) (fun _ => .done)
      Prod.snd := by
  unfold decodeBody bodyLayout
  cases hp : fixedHeader.packetType with
  | pingReq => exact Tracks.pure rfl rfl
  | pingResp => exact Tracks.pure rfl rfl
  | connect => exact asPacket_tracks (Connect.decode_tracks _) _
  | publish =>
      intro src
      have hnew : Publish.newFromHeader fixedHeader = .ok { Publish.default with fixedHeader } := by
        simp [Publish.newFromHeader, hp]
      simp only [run_bind, run_lift, hnew, Outcome.ofExcept_ok, Outcome.map_ok, Outcome.bind_ok]
      exact asPacket_tracks (Publish.decode_tracks { Publish.default with fixedHeader }) _ src
  | pubAck => exact asPacket_tracks (Derived.decode_tracks PubResp.derived_exact _) _
  | pubComp => exact asPacket_tracks (Derived.decode_tracks PubResp.derived_exact _) _
  | pubRec => exact asPacket_tracks (Derived.decode_tracks PubResp.derived_exact _) _
  | pubRel => exact asPacket_tracks (Derived.decode_tracks PubResp.derived_exact _) _
  | disconnect => exact asPacket_tracks (Derived.decode_tracks Disconnect.derived_exact _) _
  | connAck => exact asPacket_tracks (Derived.decode_tracks ConnAck.derived_exact _) _
  | subscribe => exact asPacket_tracks (Derived.decode_tracks Subscribe.derived_exact _) _
  | subAck => exact asPacket_tracks (Derived.decode_tracks SubAck.derived_exact _) _
  | unsubscribe => exact asPacket_tracks (Derived.decode_tracks Unsubscribe.derived_exact _) _
  | unsubAck => exact asPacket_tracks (Derived.decode_tracks UnsubAck.derived_exact _) _
  | auth =>
      intro src
      exact .inr ⟨MqttCodecError.insufficient_new _, .here rfl⟩

end Mqtt
end Vaux
