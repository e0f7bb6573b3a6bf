import Vaux.Mqtt.PacketRoundTrip

/-!
# PUBACK, PUBREC, PUBREL and PUBCOMP that are written and read back

The four packets share one struct and are told apart by its fixed header.  `decode`
starts them from the derived `Default`, whose fixed header is that of a CONNECT, and
does not put the header it has read in its place.  What comes back has the packet
identifier and the reason of what was written, but it claims to be a CONNECT: it takes
no reason any more, and when it is written again its first byte is wrong.
-/

namespace Vaux
namespace Mqtt

open Wire Decoder

namespace PubResp

/-- What `new_puback_with_packet_id` and its siblings, and `set_reason`, make. -/
inductive Built (t : PacketType) : PubResp → Prop
  | new (packetId : UInt16) : Built t (newWithPacketId t packetId)
  | setReason {p p' : PubResp} {reason : Reason} (h : Built t p) (hr : p.setReason reason = .ok p') :
      Built t p'

section

variable {t : PacketType} {packet : PubResp → Packet} {order : HashOrder} {p q : PubResp}
  {e : Bytes}

theorem setReason_eq_ok {reason : Reason} (h : p.setReason reason = .ok q) :
    p.supportedReason reason = true ∧ q = { p with reason := some reason } := by
  unfold setReason at h
  split at h
  · cases h
    exact ⟨‹_›, rfl⟩
  · cases h

theorem Built.facts (h : Built t p) :
    p.fixedHeader = .new t ∧ p.reasonDesc = none ∧ p.userProperties = .new := by
  induction h with
  | new packetId => exact ⟨rfl, rfl, rfl⟩
  | setReason h hr ih =>
      obtain ⟨-, rfl⟩ := setReason_eq_ok hr
      exact ih

theorem Built.propertyItems_eq (h : Built t p) : propertyItems order properties p = [] := by
  obtain ⟨-, hdesc, huser⟩ := h.facts
  refine List.flatMap_eq_nil_iff.mpr ?_
  simp only [properties, List.forall_mem_cons, List.not_mem_nil, false_imp_iff, implies_true,
    and_true, List.map_eq_nil_iff]
  exact ⟨by simp [Property.option, Member.option, hdesc],
    pairs_of_new order p huser⟩

theorem Built.propertySize_eq (h : Built t p) : propertySize order properties p = 0 := by
  rw [propertySize, h.propertyItems_eq]
  rfl

theorem Built.abbreviated_iff (h : Built t p) :
    derived.abbreviated order p = decide (p.reason.getD .success = .success) := by
  simp [Derived.abbreviated, derived, h.propertySize_eq]

/-- The two forms: without the reason if it is `Success` or absent, with it otherwise. -/
theorem Built.encode_cases (h : Built t p) :
    (p.reason.getD .success = .success ∧ derived.encodeBody order p = .ok (putU16 p.packetId) ∧
      derived.codecSize order p = 2) ∨
    ∃ r, p.reason = some r ∧
      derived.encodeBody order p = .ok (putU16 p.packetId ++ [r.toU8, 0]) ∧
      derived.codecSize order p = 4 := by
  have hheader : encodeAll (Member.encode order p) derived.header = .ok (putU16 p.packetId) := rfl
  have hsizes : (derived.header.map (Member.size order p)).sum + derived.remainingSize p = 2 := rfl
  have habb : derived.abbreviated order p = decide (p.reason.getD .success = .success) :=
    h.abbreviated_iff
  by_cases hsuccess : p.reason.getD .success = .success
  · left
    have habb' : derived.abbreviated order p = true := by simp [habb, hsuccess]
    refine ⟨hsuccess, ?_, ?_⟩
    · simp only [Derived.encodeBody, hheader, habb', bind, Except.bind, if_true]
    · simp only [Derived.codecSize, hsizes, habb', if_true]
  · right
    obtain ⟨r, hr⟩ : ∃ r, p.reason = some r := by
      cases hr : p.reason with
      | none => simp [hr] at hsuccess
      | some r => exact ⟨r, rfl⟩
    have habb' : derived.abbreviated order p = false := by simp [habb, hsuccess]
    have hfields : encodeAll (Member.encode order p) derived.nonAbbreviated = .ok [r.toU8] := by
      cases p
      cases hr
      rfl
    have hfieldSizes : (derived.nonAbbreviated.map (Member.size order p)).sum = 1 := by
      cases p
      cases hr
      rfl
    have hsection : propertyEncode order derived.properties p = .ok [0] := by
      simp only [derived, propertyEncode, h.propertyItems_eq, h.propertySize_eq]
      rfl
    have hsize : derived.propertySize order p = 0 := h.propertySize_eq
    have hrest : derived.encodeRemaining p = .ok [] := rfl
    refine ⟨r, hr, ?_, ?_⟩
    · simp only [Derived.encodeBody, Derived.encodeFull, hheader, habb', hfields, hsection, hrest,
        bind, Except.bind, Bool.false_eq_true, if_false]
      rfl
    · simp only [Derived.codecSize, hsizes, habb', hfieldSizes, hsize, Bool.false_eq_true,
        if_false]
      rfl

theorem table : Table properties where
  nodup := by decide
  apart := by
    simp only [properties, List.pairwise_cons, List.forall_mem_cons, List.not_mem_nil,
      false_imp_iff, implies_true, and_true, List.Pairwise.nil]
    exact fun _ _ => ⟨fun _ => rfl, fun _ => rfl⟩

theorem decodeHeader_reads (packetId : UInt16) :
    Reads (decodeMembers derived.header .default 0) (putU16 packetId)
      ({ default with packetId }, 2) := by
  refine Reads.bind_nil (a := ({ default with packetId }, 2)) ?_ (Reads.pure _)
  exact Reads.bind_nil (reads_decodeU16 packetId) (Reads.pure _)

theorem run_decode_short (packetId : UInt16) :
    (derived.decode .default).run (putU16 packetId) = .ok (({ default with packetId }, 2), []) := by
  have hheader := (decodeHeader_reads packetId).run_nil
  simp only [Derived.decode, run_bind, hheader, Outcome.bind_ok, run_remaining]
  rfl

theorem run_decode_full (packetId : UInt16) (r : Reason) :
    (derived.decode .default).run (putU16 packetId ++ [r.toU8, 0]) =
      .ok (({ default with packetId, reason := some r }, 4), []) := by
  have hheader := decodeHeader_reads packetId [r.toU8, 0]
  have hreason : Reads Codec.reason.decode [r.toU8] (r, 1) := Codec.reason.reads trivial rfl
  have hitems : propertyItems .sorted properties default = [] := by decide +kernel
  have henc : propertyEncode .sorted properties default = .ok [0] := by decide +kernel
  have hsection := decodeProperties_reads unsupportedProperty table (by simp [SectionFits, hitems])
    henc (by simp [propertyLength, hitems, itemsLength]) (hitems ▸ paced_nil)
    { default with packetId, reason := some r } 3 []
  rw [hitems] at hsection
  have hread : Reads (decodeMembers derived.nonAbbreviated { default with packetId } 2) [r.toU8]
      ({ default with packetId, reason := some r }, 3) := by
    refine Reads.bind_nil (a := ({ default with packetId, reason := some r }, 3)) ?_ (Reads.pure _)
    exact Reads.bind_nil hreason (Reads.pure _)
  have hfields := hread [0]
  rw [List.singleton_append] at hfields
  have hmore : ¬ (derived.abbreviatedWhen.isSome = true ∧ [r.toU8, 0].length = 0) := by simp
  simp only [Derived.decode, run_bind, hheader, Outcome.bind_ok, run_remaining, if_neg hmore,
    Derived.decodeFull, hfields]
  rw [show derived.properties = properties from rfl]
  simp only [List.append_nil] at hsection
  rw [hsection, Outcome.bind_ok]
  rfl

/-- What the decoder makes of the bytes: all but the fixed header. -/
theorem Built.decode_eq (hd : DerivedBody t derived .default packet) (h : Built t p)
    (henc : derived.encode order p.fixedHeader p = .ok e) :
    ∃ reason, reason.getD .success = p.reason.getD .success ∧
      Mqtt.decode e =
        .ok (some (packet { default with packetId := p.packetId, reason }, e.length)) := by
  obtain ⟨body, hbody, rfl⟩ := encodePacket_eq_ok henc
  obtain ⟨hheader, hlegal⟩ := headerOf_firstByte_new t
  have htype : DerivedBody (FixedHeader.new t).packetType derived .default packet := by
    have hnew : (FixedHeader.new t).packetType = t := by cases t <;> rfl
    rwa [hnew]
  have hread := fun size (hsize : size.toNat = body.length) hle =>
    @decode_written (firstByte (.new t)) size body [] hsize hle (by rwa [hheader])
  rw [h.facts.1]
  rcases @Built.encode_cases _ order _ h with ⟨hsuccess, henc', hsize⟩ | ⟨r, hr, henc', hsize⟩
  · rw [hbody] at henc'
    cases henc'
    refine ⟨none, by rw [hsuccess]; rfl, ?_⟩
    rw [hsize, ← List.append_nil (firstByte _ :: _), hread 2 rfl (by simp [putU16]), hheader,
      htype.decodeBody_eq]
    simp only [asPacket, run_bind, run_decode_short, Outcome.bind_ok, run_pure]
    rfl
  · rw [hbody] at henc'
    cases henc'
    refine ⟨some r, by rw [hr], ?_⟩
    rw [hsize, ← List.append_nil (firstByte _ :: _), hread 4 rfl (by simp [putU16]), hheader,
      htype.decodeBody_eq]
    simp only [asPacket, run_bind, run_decode_full, Outcome.bind_ok, run_pure]
    rfl

end

end PubResp

/-! ## The four packets -/

inductive AckKind where
  | pubAck | pubRec | pubRel | pubComp

namespace AckKind

def packetType : AckKind → PacketType
  | .pubAck => .pubAck
  | .pubRec => .pubRec
  | .pubRel => .pubRel
  | .pubComp => .pubComp

def packet : AckKind → PubResp → Packet
  | .pubAck => .pubAck
  | .pubRec => .pubRec
  | .pubRel => .pubRel
  | .pubComp => .pubComp

theorem derivedBody (k : AckKind) : DerivedBody k.packetType PubResp.derived .default k.packet := by
  cases k
  · exact .pubAck
  · exact .pubRec
  · exact .pubRel
  · exact .pubComp

theorem encode_packet (k : AckKind) (order : HashOrder) (p : PubResp) :
    (k.packet p).encode order = PubResp.derived.encode order p.fixedHeader p := by
  cases k <;> rfl

/-- The acknowledgement comes back as it was: up to an absent reason that stands for
`Success` it is equal to what was written, says the same packet type, takes the same
reasons and is written in the same bytes. -/
def Returns (k : AckKind) (order : HashOrder) (p : PubResp) (e : Bytes) : Prop :=
  ∃ q n, decode e = .ok (some (k.packet q, n)) ∧
    { q with reason := some (q.reason.getD .success) } =
      { p with reason := some (p.reason.getD .success) } ∧
    q.fixedHeader.packetType = p.fixedHeader.packetType ∧
    (∀ reason, (q.setReason reason).isOk = (p.setReason reason).isOk) ∧
    (k.packet q).encode order = .ok e

/-- No acknowledgement comes back as it was: what is decoded has the packet identifier
and the reason, and the fixed header of a CONNECT. -/
theorem never_returns (k : AckKind) {order : HashOrder} {p : PubResp} {e : Bytes}
    (hb : PubResp.Built k.packetType p) (henc : (k.packet p).encode order = .ok e) :
    ¬ k.Returns order p e := by
  rintro ⟨q, n, hdecode, -, htype, -, -⟩
  rw [encode_packet] at henc
  obtain ⟨reason, -, hread⟩ := hb.decode_eq k.derivedBody henc
  rw [hread] at hdecode
  have hq : k.packet { PubResp.default with packetId := p.packetId, reason } = k.packet q := by
    injection hdecode with h
    injection h with h
    exact (Prod.mk.inj h).1
  obtain rfl := k.derivedBody.injective hq
  rw [hb.facts.1] at htype
  cases k <;> cases htype

/-- A PUBACK for the packet identifier 1 is accepted, but comes back as a packet that
takes no reason and is written as a CONNECT. -/
theorem puback_comes_back_as_connect :
    ∃ q n, (Packet.pubAck (.newWithPacketId .pubAck 1)).encode .sorted =
        .ok [0x40, 0x02, 0x00, 0x01] ∧
      decode [0x40, 0x02, 0x00, 0x01] = .ok (some (.pubAck q, n)) ∧
      q.fixedHeader.packetType = .connect ∧ (q.setReason .success).isOk = false ∧
      ((PubResp.newWithPacketId .pubAck 1).setReason .success).isOk = true ∧
      (Packet.pubAck q).encode .sorted = .ok [0x10, 0x02, 0x00, 0x01] := by
  refine ⟨{ PubResp.default with packetId := 1 }, 4, ?_, ?_, rfl, rfl, rfl, ?_⟩
  · decide +kernel
  · decide +kernel
  · decide +kernel

theorem pubrel_never_returns :
    PubResp.Built .pubRel (.newWithPacketId .pubRel 7) ∧
      ¬ AckKind.pubRel.Returns .sorted (.newWithPacketId .pubRel 7) [0x62, 0x02, 0x00, 0x07] :=
  ⟨.new 7, never_returns .pubRel (.new 7) (by decide +kernel)⟩

end AckKind

end Mqtt
end Vaux
