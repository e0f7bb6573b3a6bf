import Vaux.Mqtt.RoundTrip

/-!
# PUBLISH packets that are written and read back

The packet identifier is written if there is one and read if the QoS is above zero,
so the two have to agree.  The payload is what is left of the packet: an absent one
comes back as an empty one.
-/

namespace Vaux
namespace Mqtt

open Wire Decoder

namespace Publish

/-- The packet with an empty payload in place of an absent one. -/
def withPayload (self : Publish) : Publish := { self with payload := some (self.payload.getD []) }

/-- The QoS is one, and there is a packet identifier exactly if it is above zero. -/
def IdAgrees (self : Publish) : Prop :=
  ∃ q, self.qos = .ok q ∧ (self.packetId.isSome ↔ q ≠ .atMostOnce)

/-- What the codec asks of a PUBLISH. -/
structure Sound (order : HashOrder) (p : Publish) : Prop where
  packetType : p.fixedHeader.packetType = .publish
  flags : p.fixedHeader.flags &&& 0x0f = p.fixedHeader.flags
  id : p.IdAgrees
  fits : SectionFits order properties p
  body : encodedLength (p.encodeBody order) ≤ 2097151
  paced : Paced (propertyItems order properties p)

section

variable {order : HashOrder} {self : Publish}

theorem encodeBody_eq_ok {e : Bytes} (h : self.encodeBody order = .ok e) :
    ∃ e₁ e₂ e₃, Codec.string.encode self.topicName = .ok e₁ ∧
      encodeAll Codec.u16.encode self.packetId.toList = .ok e₂ ∧
      propertyEncode order properties self = .ok e₃ ∧
      e = e₁ ++ e₂ ++ e₃ ++ self.payload.getD [] := by
  unfold encodeBody at h
  obtain ⟨fields, h₁, h⟩ := enc_bind_eq_ok.mp h
  obtain ⟨e₃, h₃, h⟩ := enc_bind_eq_ok.mp h
  cases h
  obtain ⟨e₁, e₂, hfield, hrest, rfl⟩ := encodeAll_cons_eq_ok h₁
  obtain ⟨e₄, e₅, hid, hnil, rfl⟩ := encodeAll_cons_eq_ok hrest
  cases hnil
  exact ⟨e₁, e₄, e₃, encodeAll_singleton_eq_ok hfield, hid, h₃, by simp⟩

/-- The sizes add up to the length of the body. -/
theorem codecSize_eq (hsizes : SectionSizes order properties self) {e : Bytes}
    (h : self.encodeBody order = .ok e) (hlen : e.length ≤ 268435455) :
    self.codecSize order = UInt32.ofNat e.length := by
  unfold encodeBody at h
  obtain ⟨e₁, h₁, h⟩ := enc_bind_eq_ok.mp h
  obtain ⟨e₂, h₂, h⟩ := enc_bind_eq_ok.mp h
  cases h
  have hfits : ∀ m ∈ header, ∀ a, m.codec.Fits a := by
    simp only [header, List.forall_mem_cons, List.not_mem_nil, false_imp_iff, implies_true,
      and_true]
    exact ⟨fun _ => trivial, fun _ => trivial⟩
  have hheader := sum_memberSize
    (fun m hm a _ => Codec.sizeAgrees_of_fits (hfits m hm a)) h₁
  have hle := propertyLength_le_section h₂
  simp only [List.length_append] at hlen
  have hsection := sectionSize_eq hsizes (by omega) h₂
  simp only [codecSize, hheader, UInt32.add_assoc, hsection]
  simp only [List.length_append, ← UInt32.ofNat_add]
  congr 1
  omega

/-! ## Reading back -/

theorem decodePacketId_reads (hid : self.IdAgrees) {e : Bytes}
    (henc : encodeAll Codec.u16.encode self.packetId.toList = .ok e) (topicName : String)
    (k : Nat) :
    Reads (decodePacketId (begun self.fixedHeader topicName none) k) e
      (begun self.fixedHeader topicName self.packetId, k + e.length) := by
  obtain ⟨q, hq, hsome⟩ := hid
  have hqos : (begun self.fixedHeader topicName none).qos = .ok q := hq
  intro rest
  simp only [decodePacketId, run_bind, run_lift, hqos, Outcome.map_ok, Outcome.bind_ok]
  cases hp : self.packetId with
  | none =>
      rw [hp] at henc hsome
      cases henc
      have hzero : q = .atMostOnce := by
        by_contra hne
        exact absurd (hsome.mpr hne) (by simp)
      rw [if_neg (by simpa using hzero)]
      rfl
  | some id =>
      rw [hp] at henc hsome
      cases henc
      rw [if_pos (hsome.mp rfl), run_bind, List.append_nil, reads_decodeU16 id rest]
      rfl

/-- Storing the properties of a packet behind its header makes the packet again. -/
theorem rebuilt_eq (order : HashOrder) (self : Publish) :
    { applyItems (propertyItems order properties self)
        (begun self.fixedHeader self.topicName self.packetId) with
      payload := some (self.payload.getD []) } = self.withPayload := by
  have hframe : ∀ {β : Type} (f : FixedHeader → String → Option UInt16 → Option Bytes → β) (s),
      f (applyItems (propertyItems order properties self) s).fixedHeader
        (applyItems (propertyItems order properties self) s).topicName
        (applyItems (propertyItems order properties self) s).packetId
        (applyItems (propertyItems order properties self) s).payload =
      f s.fixedHeader s.topicName s.packetId s.payload := fun f s =>
    applyItems_frame (fun s => f s.fixedHeader s.topicName s.packetId s.payload)
      (fun i hi => properties_frame f i.property (mem_propertyItems.mp hi).1) s
  refine eq_of_items order ?_ ?_ ?_ rfl ?_
  · exact hframe (fun fixedHeader _ _ _ => fixedHeader) _
  · exact hframe (fun _ topicName _ _ => topicName) _
  · exact hframe (fun _ _ packetId _ => packetId) _
  · intro p hp
    rw [items_setPayload order _ _ p hp, withPayload, items_setPayload order self _ p hp]
    exact items_applyItems table self
      (fresh_initial (initial order self.fixedHeader self.topicName self.packetId)) hp

theorem propertyLength_le_body {e : Bytes} (henc : self.encodeBody order = .ok e) :
    propertyLength order properties self ≤ e.length := by
  obtain ⟨e₁, e₂, e₃, -, -, h₃, rfl⟩ := encodeBody_eq_ok henc
  obtain ⟨e₄, h₄, rfl⟩ := propertyEncode_eq_ok h₃
  have := encodeItems_length h₄
  simp only [List.length_append, propertyLength]
  omega

theorem decode_reads (hs : self.Sound order) {e : Bytes} (henc : self.encodeBody order = .ok e) :
    ({ default with fixedHeader := self.fixedHeader } : Publish).decode.run e =
      .ok ((self.withPayload, e.length + itemsExtra (propertyItems order properties self)),
        []) := by
  have hlen := hs.body
  rw [henc, encodedLength_ok] at hlen
  have hprops := (propertyLength_le_body henc).trans hlen
  obtain ⟨e₁, e₂, e₃, h₁, h₂, h₃, rfl⟩ := encodeBody_eq_ok henc
  have htopic : Reads decodeString e₁ (self.topicName, e₁.length) :=
    Codec.string.reads trivial h₁
  have hid := decodePacketId_reads hs.id h₂ self.topicName e₁.length
  have hsection := decodeProperties_reads unsupported table hs.fits h₃ hprops hs.paced
    (begun self.fixedHeader self.topicName self.packetId) (e₁.length + e₂.length)
  rw [List.append_assoc, List.append_assoc]
  refine Outcome.bind_eq_ok.mpr ⟨_, htopic _, ?_⟩
  refine Outcome.bind_eq_ok.mpr ⟨_, hid _, ?_⟩
  refine Outcome.bind_eq_ok.mpr ⟨_, hsection _, ?_⟩
  simp only [decodePayload, run_bind, run_takeAll, Outcome.bind_ok, run_pure, rebuilt_eq,
    List.length_append]
  congr 3
  omega

/-! ## What is read can be written again -/

theorem decodePacketId_ok (fixedHeader : FixedHeader) (topicName : String) {s : Publish}
    {k n : Nat} {src left : Bytes}
    (h : (decodePacketId (begun fixedHeader topicName none) k).run src = .ok ((s, n), left)) :
    ∃ q packetId, fixedHeader.qos = .ok q ∧ (packetId.isSome ↔ q ≠ .atMostOnce) ∧
      s = begun fixedHeader topicName packetId ∧
      2 * packetId.toList.length + left.length = src.length := by
  simp only [decodePacketId, run_bind, run_lift] at h
  have hqos : (begun fixedHeader topicName none).qos = fixedHeader.qos := rfl
  rw [hqos] at h
  cases hq : fixedHeader.qos with
  | err e => simp [hq] at h
  | panic => simp [hq] at h
  | ok q =>
      simp only [hq, Outcome.map_ok, Outcome.bind_ok] at h
      split at h
      · rename_i hne
        rw [run_bind] at h
        obtain ⟨⟨⟨id, m⟩, rest⟩, hrun, h⟩ := Outcome.bind_eq_ok.mp h
        cases h
        exact ⟨q, some id, rfl, by simpa using hne, rfl, takesFixed_decodeU16.ok_length hrun⟩
      · rename_i hzero
        cases h
        exact ⟨q, none, rfl, by simpa using hzero, rfl, by simp⟩

/-- The stages of a decoder that succeeds. -/
theorem decode_ok {fixedHeader : FixedHeader} {p : Publish} {n : Nat} {src left : Bytes}
    (h : ({ default with fixedHeader } : Publish).decode.run src = .ok ((p, n), left)) :
    ∃ topicName n₁ src₁ packetId n₂ src₂ s n₃ src₃,
      decodeString.run src = .ok ((topicName, n₁), src₁) ∧
      (decodePacketId (begun fixedHeader topicName none) n₁).run src₁ =
        .ok ((begun fixedHeader topicName packetId, n₂), src₂) ∧
      (decodeProperties properties unsupported (begun fixedHeader topicName packetId) n₂).run src₂ =
        .ok ((s, n₃), src₃) ∧
      p = { s with payload := some src₃ } := by
  simp only [decode, run_bind] at h
  obtain ⟨⟨⟨topicName, n₁⟩, src₁⟩, h₁, h⟩ := Outcome.bind_eq_ok.mp h
  obtain ⟨⟨⟨p₁, n₂⟩, src₂⟩, h₂, h⟩ := Outcome.bind_eq_ok.mp h
  obtain ⟨⟨⟨p₂, n₃⟩, src₃⟩, h₃, h⟩ := Outcome.bind_eq_ok.mp h
  cases h
  obtain ⟨q, packetId, -, -, rfl, -⟩ := decodePacketId_ok fixedHeader topicName h₂
  exact ⟨topicName, n₁, src₁, packetId, n₂, src₂, p₂, n₃, src₃, h₁, h₂, h₃, rfl⟩

/-- A packet that was read has an identifier exactly if its QoS is above zero, and it
needs about as many bytes as were read. -/
theorem decode_fits {fixedHeader : FixedHeader} {p : Publish} {n : Nat} {src left : Bytes}
    (h : ({ default with fixedHeader } : Publish).decode.run src = .ok ((p, n), left))
    (order : HashOrder) :
    p.fixedHeader = fixedHeader ∧ p.IdAgrees ∧ SectionFits order properties p ∧
      encodedLength (Codec.string.encode p.topicName) + 2 * p.packetId.toList.length +
        propertyLength order properties p + (p.payload.getD []).length ≤ src.length + 72 := by
  obtain ⟨topicName, n₁, src₁, packetId, n₂, src₂, s, n₃, src₃, h₁, h₂, h₃, rfl⟩ := decode_ok h
  have hlen₁ := (Codec.carries_of_decode (c := Codec.string) h₁).2
  obtain ⟨q, packetId', hq, hagrees, hbegun, hlen₂⟩ :=
    decodePacketId_ok fixedHeader topicName h₂
  have hsame : packetId = packetId' := congrArg Publish.packetId hbegun
  subst hsame
  have hframe : ∀ {β : Type} (f : FixedHeader → String → Option UInt16 → Option Bytes → β),
      f s.fixedHeader s.topicName s.packetId s.payload = f fixedHeader topicName packetId none :=
    fun f => decodeProperties_frame (fun s => f s.fixedHeader s.topicName s.packetId s.payload)
      (properties_frame f) h₃
  have hheader : s.fixedHeader = fixedHeader := hframe fun fixedHeader _ _ _ => fixedHeader
  have htopic : s.topicName = topicName := hframe fun _ topicName _ _ => topicName
  have hid : s.packetId = packetId := hframe fun _ _ packetId _ => packetId
  have hinitial := initial order fixedHeader topicName packetId
  have hsmall : propertyLength order properties (begun fixedHeader topicName packetId) ≤ 72 :=
    propertyLength_initial hinitial
  obtain ⟨hlen₃, hfits⟩ := decodeProperties_length table order h₃ (sectionFits_initial hinitial)
  have hitems := fun p hp => (items_setPayload order s (some src₃) p hp).symm
  refine ⟨hheader, ⟨q, ?_, ?_⟩, sectionFits_congr hitems hfits, ?_⟩
  · rw [qos]
    exact (congrArg FixedHeader.qos hheader).trans hq
  · show s.packetId.isSome ↔ _
    rw [hid]
    exact hagrees
  · rw [← propertyLength_congr hitems]
    simp only [htopic, hid, Option.getD_some]
    omega

/-- A packet reads back only if its property section is paced. -/
theorem paced_of_decode (hid : self.IdAgrees) (hfit : SectionFits order properties self)
    {e : Bytes} (henc : self.encodeBody order = .ok e) (hlen : e.length ≤ 2097151) {n : Nat}
    {left : Bytes}
    (h : ({ default with fixedHeader := self.fixedHeader } : Publish).decode.run e =
      .ok ((self.withPayload, n), left)) :
    Paced (propertyItems order properties self) := by
  have hprops := (propertyLength_le_body henc).trans hlen
  obtain ⟨e₁, e₂, e₃, h₁, h₂, h₃, rfl⟩ := encodeBody_eq_ok henc
  have htopic : Reads decodeString e₁ (self.topicName, e₁.length) :=
    Codec.string.reads trivial h₁
  have hread := decodePacketId_reads hid h₂ self.topicName e₁.length
  obtain ⟨topicName, n₁, src₁, packetId, n₂, src₂, s, n₃, src₃, h₄, h₅, h₆, hself⟩ := decode_ok h
  rw [List.append_assoc, List.append_assoc, htopic] at h₄
  cases h₄
  rw [hread] at h₅
  have hitems : ∀ p ∈ properties, p.member.items order s = p.member.items order self := by
    intro p hp
    rw [← items_setPayload order s (some src₃) p hp, ← hself, withPayload,
      items_setPayload order self _ p hp]
  cases h₅
  rcases decodeProperties_inv table hfit h₃ hprops h₆ with
    ⟨front, back, heq, hne, hle, rfl⟩ | hpaced | ⟨hlate, -⟩
  · exact absurd hitems (items_ne_of_early table optional
      (fresh_initial (initial order self.fixedHeader self.topicName self.packetId)) heq hne hle)
  · exact hpaced
  · have := propertyLength_le_charge order counted self
    omega

/-! ## The packet -/

theorem decodeBody_publish {h : FixedHeader} (ht : h.packetType = .publish) :
    (decodeBody h).run = (asPacket ({ default with fixedHeader := h } : Publish).decode
      .publish).run := by
  have hnew : newFromHeader h = .ok { default with fixedHeader := h } := by
    simp [newFromHeader, ht]
  funext src
  simp only [decodeBody, ht, run_bind, run_lift, hnew, Outcome.ofExcept_ok, Outcome.map_ok,
    Outcome.bind_ok]

theorem legalFlags_publish {h : FixedHeader} (ht : h.packetType = .publish) : LegalFlags h := by
  intro reserved hreserved
  rw [ht] at hreserved
  cases hreserved

theorem headerOf_firstByte_of_flags {h : FixedHeader} (hflags : h.flags &&& 0x0f = h.flags) :
    headerOf (firstByte h) = h := by
  rw [headerOf_firstByte, hflags]

theorem decode_of_sound {e : Bytes} (henc : (Packet.publish self).encode order = .ok e)
    (hs : self.Sound order) (suffix : Bytes) :
    Mqtt.decode (e ++ suffix) =
      .ok (some (.publish self.withPayload,
        e.length + itemsExtra (propertyItems order properties self))) := by
  obtain ⟨body, hbody, rfl⟩ := encodePacket_eq_ok henc
  have hlen := hs.body
  rw [hbody, encodedLength_ok] at hlen
  have hprops := propertyLength_le_body hbody
  have hsize : (self.codecSize order).toNat = body.length := by
    rw [codecSize_eq hs.fits.sizes hbody (by omega), UInt32.toNat_ofNat']
    exact Nat.mod_eq_of_lt (by omega)
  have hheader := headerOf_firstByte_of_flags hs.flags
  rw [decode_written suffix hsize hlen (by rw [hheader]; exact legalFlags_publish hs.packetType),
    hheader, decodeBody_publish hs.packetType]
  simp only [asPacket, run_bind, decode_reads hs hbody, Outcome.bind_ok, run_pure,
    List.length_cons, List.length_append]
  congr 3
  omega

theorem sound_of_decode {e : Bytes} (henc : (Packet.publish self).encode order = .ok e)
    {suffix : Bytes} {n : Nat}
    (h : Mqtt.decode (e ++ suffix) = .ok (some (.publish self.withPayload, n))) :
    self.Sound order := by
  obtain ⟨body, hbody, rfl⟩ := encodePacket_eq_ok henc
  obtain ⟨body', m, left, hsize, hle, hsame, hrun⟩ := decode_written_ok h
  have htype := decodeBody_packetType hrun
  have ht : self.fixedHeader.packetType = .publish := by
    rw [headerOf_firstByte] at htype
    exact htype.symm
  rw [decodeBody_publish htype.symm] at hrun
  obtain ⟨a, hrun, ha⟩ := asPacket_eq_ok hrun
  cases ha
  obtain ⟨hheader, hid, hfits, hlen⟩ := decode_fits hrun order
  have hheader' : self.fixedHeader = headerOf (firstByte self.fixedHeader) := hheader
  have hflags : self.fixedHeader.flags &&& 0x0f = self.fixedHeader.flags := by
    rw [headerOf_firstByte] at hheader'
    exact (congrArg FixedHeader.flags hheader').symm
  have hitems := items_setPayload order self (some (self.payload.getD []))
  have hfit : SectionFits order properties self := sectionFits_congr hitems hfits
  rw [withPayload, propertyLength_congr hitems] at hlen
  simp only [Option.getD_some] at hlen
  -- nothing wraps around, so the body is the one that was written
  have hbound : body.length ≤ body'.length + 77 := by
    obtain ⟨e₁, e₂, e₃, h₁, h₂, h₃, rfl⟩ := encodeBody_eq_ok hbody
    obtain ⟨e₄, h₄, rfl⟩ := propertyEncode_eq_ok h₃
    have hvar := varIntEncoding_length_le_five (propertySize order properties self)
    have hlen₂ : e₂.length = 2 * self.packetId.toList.length := by
      rw [encodeAll_length h₂]
      cases self.packetId <;> rfl
    have hlen₄ := encodeItems_length h₄
    rw [h₁, encodedLength_ok] at hlen
    simp only [propertyLength] at hlen
    simp only [List.length_append]
    omega
  have hnowrap : (self.codecSize order).toNat = body.length := by
    rw [codecSize_eq hfit.sizes hbody (by omega), UInt32.toNat_ofNat']
    exact Nat.mod_eq_of_lt (by omega)
  obtain rfl := hsame hnowrap
  rw [← hheader'] at hrun
  refine ⟨ht, hflags, hid, hfit, ?_, paced_of_decode hid hfit hbody hle hrun⟩
  rw [hbody, encodedLength_ok]
  exact hle

end

end Publish

end Mqtt
end Vaux
