import Vaux.Async.Transport
import Vaux.Broker.Writes
import Vaux.Mqtt.DerivedRoundTrip
import Vaux.Mqtt.PacketRoundTrip

/-!
# What a packet is carried as

A packet at the other end of a stream need not be the one that was written.  Its type is the
one in its fixed header, though, and what is written before the properties is read as it was
written: the packet identifier, the reason of a CONNACK.
-/

namespace Vaux
namespace Mqtt

open Wire Decoder

/-! ## The fields in front -/

section

variable {σ : Type} {order : HashOrder} {d : Derived σ} {self fresh s : σ}

/-- The fields of the header are always written, their codecs read what they write, and
nothing that follows changes them. -/
structure Derived.Leading (d : Derived σ) : Prop where
  header : Members d.header
  fits : ∀ m ∈ d.header, ∀ a, m.codec.Fits a
  nonAbbreviated : ∀ m ∈ d.header, ∀ m' ∈ d.nonAbbreviated, ∀ order s a,
    m.items order (m'.apply s a) = m.items order s
  properties : ∀ m ∈ d.header, ∀ p ∈ d.properties, ∀ order s a,
    m.items order (p.member.apply s a) = m.items order s
  remaining : ∀ m ∈ d.header, ∀ r, d.remaining = some r → ∀ order s l,
    m.items order (r.set s l) = m.items order s

/-- Whatever else becomes of a body that was written, its header is read as it was. -/
theorem Derived.Leading.items_of_decode (h : d.Leading) {body left : Bytes} {n : Nat}
    (hbody : d.encodeBody order self = .ok body)
    (hdecode : (d.decode fresh).run body = .ok ((s, n), left)) {m : Member σ} (hm : m ∈ d.header) :
    m.items order s = m.items order self := by
  obtain ⟨e₁, h₁, hrest⟩ := Derived.encodeBody_eq_ok hbody
  obtain ⟨tail, rfl⟩ : ∃ tail, body = e₁ ++ tail := by
    rcases hrest with ⟨-, rfl⟩ | ⟨-, e₂, -, rfl⟩
    · exact ⟨[], (List.append_nil _).symm⟩
    · exact ⟨e₂, rfl⟩
  obtain ⟨s₁, n₁, src₁, hheader, hmore⟩ := Derived.Lawful.decode_ok hdecode
  have hread := decodeMembers_reads h.header (membersFit_of_encode h₁ h.fits) h₁ fresh 0 tail
  rw [hread] at hheader
  cases hheader
  have hfirst : m.items order (applyMembers order d.header self fresh) = m.items order self :=
    items_applyMembers h.header self fresh hm
  rcases hmore with ⟨-, rfl⟩ | ⟨s₂, n₂, src₂, s₃, n₃, src₃, h₂, h₃, h₄⟩
  · exact hfirst
  · have hfields := decodeMembers_frame (fun s => m.items order s)
      (fun m' hm' => h.nonAbbreviated m hm m' hm' order) h₂
    have hsection := decodeProperties_frame (fun s => m.items order s)
      (fun p hp => h.properties m hm p hp order) h₃
    have hlast : m.items order s = m.items order s₃ := by
      rcases Derived.Lawful.decodeRemaining_ok h₄ with ⟨-, rfl, -⟩ | ⟨r, l, hr, rfl, -⟩
      · rfl
      · exact h.remaining m hm r hr order s₃ l
    exact hlast.trans (hsection.trans (hfields.trans hfirst))

end

/-! ## Packets -/

section

variable {order : HashOrder} {p q : Packet}

theorem body_of_carried (h : p.carried order = some q) : ∃ body n left,
    p.encodeBody order = .ok body ∧
      (decodeBody { packetType := p.fixedHeader.packetType
                    flags := p.fixedHeader.flags &&& 0x0f }).run body = .ok ((q, n), left) := by
  obtain ⟨first, len, body, hopen, hbody, rfl, hdecode⟩ := Async.opened_of_carried h
  rw [decode_opened hopen, headerOf_firstByte] at hdecode
  obtain ⟨⟨⟨q', n⟩, left⟩, hrun, hq⟩ := Outcome.bind_eq_ok.mp hdecode
  simp only [Outcome.ok.injEq, Option.some.injEq, Prod.mk.injEq] at hq
  exact ⟨body, n, left, hbody, hq.1 ▸ hrun⟩

theorem packetType_of_carried (h : p.carried order = some q) :
    q.packetType = p.fixedHeader.packetType := by
  obtain ⟨body, n, left, -, hrun⟩ := body_of_carried h
  exact (decodeBody_packetType hrun).trans rfl

theorem Packet.Typed.carried (ht : p.Typed) (h : p.carried order = some q) :
    q.packetType = p.packetType :=
  (packetType_of_carried h).trans ht

/-- The two ends of a packet whose codec is derived. -/
theorem derived_of_carried {σ : Type} (d : Derived σ) {self fresh : σ} (packet : σ → Packet)
    (h : (packet self).carried order = some q)
    (hbody : (packet self).encodeBody order = d.encodeBody order self)
    (hdecode : ∀ flags, decodeBody { packetType := (packet self).fixedHeader.packetType, flags } =
      asPacket (d.decode fresh) packet) :
    ∃ s body n left, q = packet s ∧ d.encodeBody order self = .ok body ∧
      (d.decode fresh).run body = .ok ((s, n), left) := by
  obtain ⟨body, n, left, henc, hrun⟩ := body_of_carried h
  rw [hdecode] at hrun
  obtain ⟨s, hs, rfl⟩ := asPacket_eq_ok hrun
  exact ⟨s, body, n, left, rfl, hbody.symm.trans henc, hs⟩

/-! ## Packets that begin with their identifier -/

section

variable {σ : Type} {d : Derived σ} {packetId : σ → UInt16}

structure Derived.IdFirst (d : Derived σ) (packetId : σ → UInt16) : Prop where
  header : ∃ set lens, d.header = [.field .u16 packetId set lens]
  nonAbbreviated : ∀ m ∈ d.nonAbbreviated, ∀ s a, packetId (m.apply s a) = packetId s
  properties : ∀ p ∈ d.properties, ∀ s a, packetId (p.member.apply s a) = packetId s
  remaining : ∀ r, d.remaining = some r → ∀ s l, packetId (r.set s l) = packetId s

theorem Derived.IdFirst.leading (h : d.IdFirst packetId) : d.Leading := by
  obtain ⟨set, lens, hheader⟩ := h.header
  refine ⟨?_, ?_, ?_, ?_, ?_⟩
  all_goals simp only [hheader, List.forall_mem_singleton]
  · exact ⟨by simp [Member.field], by simp [Member.field, Codec.u16], by simp⟩
  · exact fun _ => trivial
  · exact fun m hm order s a => congrArg ([·]) (h.nonAbbreviated m hm s a)
  · exact fun p hp order s a => congrArg ([·]) (h.properties p hp s a)
  · exact fun r hr order s l => congrArg ([·]) (h.remaining r hr s l)

theorem Derived.IdFirst.carried (h : d.IdFirst packetId) (packet : σ → Packet) (fresh : σ)
    {self : σ} (hcarried : (packet self).carried order = some q)
    (hbody : (packet self).encodeBody order = d.encodeBody order self)
    (hdecode : ∀ flags, decodeBody { packetType := (packet self).fixedHeader.packetType, flags } =
      asPacket (d.decode fresh) packet) :
    ∃ s, q = packet s ∧ packetId s = packetId self := by
  obtain ⟨s, body, n, left, rfl, henc, hrun⟩ := derived_of_carried d packet hcarried hbody hdecode
  obtain ⟨set, lens, hheader⟩ := h.header
  have hitems := h.leading.items_of_decode henc hrun
    (m := .field .u16 packetId set lens) (by rw [hheader]; exact List.mem_singleton_self _)
  exact ⟨s, rfl, List.cons.inj hitems |>.1⟩

end

theorem PubResp.idFirst : PubResp.derived.IdFirst (·.packetId) where
  header := ⟨_, _, rfl⟩
  nonAbbreviated := by simp [derived, Member.option]
  properties := by
    simp [derived, PubResp.properties, Property.option, Property.userProperty, Member.option,
      Member.userProperty]
  remaining := by simp [derived]

theorem Subscribe.idFirst : Subscribe.derived.IdFirst (·.packetId) where
  header := ⟨_, _, rfl⟩
  nonAbbreviated := by simp [derived]
  properties := by
    simp [derived, Subscribe.properties, Property.option, Property.userProperty, Member.option,
      Member.userProperty]
  remaining := by simp [derived]

theorem SubAck.idFirst : SubAck.derived.IdFirst (·.packetId) where
  header := ⟨_, _, rfl⟩
  nonAbbreviated := by simp [derived]
  properties := by
    simp [derived, SubAck.properties, Property.option, Property.userProperty, Member.option,
      Member.userProperty]
  remaining := by simp [derived, remainingReasons]

theorem Unsubscribe.idFirst : Unsubscribe.derived.IdFirst (·.packetId) where
  header := ⟨_, _, rfl⟩
  nonAbbreviated := by simp [derived]
  properties := by
    simp [derived, Unsubscribe.properties, Property.userProperty, Member.userProperty]
  remaining := by simp [derived]

theorem UnsubAck.idFirst : UnsubAck.derived.IdFirst (·.packetId) where
  header := ⟨_, _, rfl⟩
  nonAbbreviated := by simp [derived]
  properties := by
    simp only [derived, UnsubAck.properties, List.forall_mem_cons, List.not_mem_nil,
      false_imp_iff, implies_true, and_true]
    exact ⟨fun _ _ => rfl, fun _ _ => rfl⟩
  remaining := by simp [derived, remainingReasons]

/-! ## The packets of the connections -/

theorem pubAck_of_carried {a : PubResp} (ht : (Packet.pubAck a).Typed)
    (h : (Packet.pubAck a).carried order = some q) :
    ∃ b, q = .pubAck b ∧ b.packetId = a.packetId := by
  refine PubResp.idFirst.carried .pubAck .default h rfl fun flags => ?_
  rw [ht]
  rfl

theorem subscribe_of_carried {a : Subscribe} (ht : (Packet.subscribe a).Typed)
    (h : (Packet.subscribe a).carried order = some q) :
    ∃ b, q = .subscribe b ∧ b.packetId = a.packetId := by
  refine Subscribe.idFirst.carried .subscribe .default h rfl fun flags => ?_
  rw [ht]
  rfl

theorem subAck_of_carried {a : SubAck} (ht : (Packet.subAck a).Typed)
    (h : (Packet.subAck a).carried order = some q) :
    ∃ b, q = .subAck b ∧ b.packetId = a.packetId := by
  refine SubAck.idFirst.carried .subAck .default h rfl fun flags => ?_
  rw [ht]
  rfl

theorem unsubscribe_of_carried {a : Unsubscribe} (ht : (Packet.unsubscribe a).Typed)
    (h : (Packet.unsubscribe a).carried order = some q) :
    ∃ b, q = .unsubscribe b ∧ b.packetId = a.packetId := by
  refine Unsubscribe.idFirst.carried .unsubscribe .default h rfl fun flags => ?_
  rw [ht]
  rfl

theorem unsubAck_of_carried {a : UnsubAck} (ht : (Packet.unsubAck a).Typed)
    (h : (Packet.unsubAck a).carried order = some q) :
    ∃ b, q = .unsubAck b ∧ b.packetId = a.packetId := by
  refine UnsubAck.idFirst.carried .unsubAck .default h rfl fun flags => ?_
  rw [ht]
  rfl

theorem ConnAck.leading : ConnAck.derived.Leading where
  header := ⟨by simp [derived, Member.field],
    by simp [derived, Member.field, Codec.u8, Codec.reason, Codec.enum],
    by simp [derived, Member.Apart, Member.field]⟩
  fits := by simp [derived, Member.field, Codec.u8, Codec.reason, Codec.enum]
  nonAbbreviated := by simp [derived]
  properties := by
    simp [derived, ConnAck.properties, Property.option, Property.userProperty, Property.vec,
      Member.field, Member.option, Member.userProperty, Member.skipIfEmpty]
  remaining := by simp [derived]

theorem connAck_of_carried {a : ConnAck} (ht : (Packet.connAck a).Typed)
    (h : (Packet.connAck a).carried order = some q) :
    ∃ b, q = .connAck b ∧ b.reason = a.reason := by
  obtain ⟨s, body, n, left, rfl, henc, hrun⟩ :=
    derived_of_carried ConnAck.derived .connAck h rfl fun flags => by rw [ht]; rfl
  have hitems := ConnAck.leading.items_of_decode henc hrun
    (m := .field .reason (·.reason) fun s v => { s with reason := v })
    (List.mem_cons_of_mem _ (List.mem_singleton_self _))
  exact ⟨s, rfl, (List.cons.inj hitems).1⟩

theorem qos_of_flags (h : FixedHeader) :
    ({ packetType := h.packetType, flags := h.flags &&& 0x0f } : FixedHeader).qos = h.qos := by
  have hmask : h.flags &&& 0x0f &&& qosMask = h.flags &&& qosMask := by
    rw [UInt8.and_assoc]
    rfl
  simp only [FixedHeader.qos, hmask]

/-- The header as it is read: the type and four flags. -/
def FixedHeader.masked (h : FixedHeader) : FixedHeader :=
  { packetType := h.packetType, flags := h.flags &&& 0x0f }

/-- The bytes of a PUBLISH and what is read of them. -/
theorem publish_body_of_carried {a : Publish} (ht : (Packet.publish a).Typed)
    (h : (Packet.publish a).carried order = some q) : ∃ b body n left,
    q = .publish b ∧ a.encodeBody order = .ok body ∧ body.length ≤ 2097151 ∧
      ({ Publish.default with fixedHeader := a.fixedHeader.masked } : Publish).decode.run body =
        .ok ((b, n), left) := by
  obtain ⟨first, len, body, hopen, hbody, rfl, hdecode⟩ := Async.opened_of_carried h
  rw [decode_opened hopen, headerOf_firstByte] at hdecode
  obtain ⟨⟨⟨q', n⟩, left⟩, hrun, hq⟩ := Outcome.bind_eq_ok.mp hdecode
  simp only [Outcome.ok.injEq, Option.some.injEq, Prod.mk.injEq] at hq
  have hrun : (decodeBody a.fixedHeader.masked).run body = .ok ((q', n), left) := hrun
  rw [Publish.decodeBody_publish (show a.fixedHeader.masked.packetType = .publish from ht)] at hrun
  obtain ⟨b, hdecode, rfl⟩ := asPacket_eq_ok hrun
  have hlen := varIntValue_lt_of_length hopen.len_le_three
  rw [← hopen.body_length] at hlen
  exact ⟨b, body, n, left, hq.1.symm, hbody, by omega, hdecode⟩

/-- A PUBLISH keeps its topic, and the identifier that its QoS asks for. -/
theorem publish_front_of_carried {a : Publish} (ht : (Packet.publish a).Typed)
    (h : (Packet.publish a).carried order = some q) :
    ∃ b, q = .publish b ∧ b.fixedHeader = a.fixedHeader.masked ∧ b.topicName = a.topicName ∧
      b.IdAgrees ∧ (a.IdAgrees → b.packetId = a.packetId) := by
  obtain ⟨b, body, n, left, rfl, henc, -, hdecode⟩ := publish_body_of_carried ht h
  obtain ⟨hheader, hid, -⟩ := Publish.decode_fits hdecode order
  obtain ⟨e₁, e₂, e₃, h₁, h₂, -, rfl⟩ := Publish.encodeBody_eq_ok henc
  obtain ⟨topicName, n₁, src₁, packetId, n₂, src₂, s, n₃, src₃, htopic, hpacketId, hsection, rfl⟩ :=
    Publish.decode_ok hdecode
  have hread : Reads decodeString e₁ (a.topicName, e₁.length) := Codec.string.reads trivial h₁
  rw [List.append_assoc, List.append_assoc, hread] at htopic
  cases htopic
  refine ⟨_, rfl, hheader, ?_, hid, fun hagrees => ?_⟩
  · exact decodeProperties_frame (fun s => s.topicName)
      (Publish.properties_frame fun _ topicName _ _ => topicName) hsection
  · have hagrees' : ({ a with fixedHeader := a.fixedHeader.masked } : Publish).IdAgrees := by
      obtain ⟨q, hq, hsome⟩ := hagrees
      exact ⟨q, (qos_of_flags a.fixedHeader).trans hq, hsome⟩
    have hsame := Publish.decodePacketId_reads hagrees' h₂ a.topicName e₁.length
      (e₃ ++ a.payload.getD [])
    have hsame' := hsame.symm.trans hpacketId
    simp only [Outcome.ok.injEq, Prod.mk.injEq] at hsame'
    have hbegun : packetId = a.packetId := congrArg Publish.packetId hsame'.1.1.symm
    rw [← hbegun]
    exact decodeProperties_frame (fun s => s.packetId)
      (Publish.properties_frame fun _ _ packetId _ => packetId) hsection

/-- A PUBLISH keeps its QoS, and the identifier that it must have with it. -/
theorem publish_of_carried {a : Publish} (ht : (Packet.publish a).Typed)
    (h : (Packet.publish a).carried order = some q) :
    ∃ b, q = .publish b ∧ (Packet.publish b).Typed ∧ b.qos = a.qos ∧ b.IdAgrees ∧
      (a.IdAgrees → b.packetId = a.packetId) := by
  obtain ⟨b, rfl, hheader, -, hid, hpacketId⟩ := publish_front_of_carried ht h
  refine ⟨b, rfl, ?_, ?_, hid, hpacketId⟩
  · show b.fixedHeader.packetType = .publish
    rw [hheader]
    exact ht
  · show b.fixedHeader.qos = a.fixedHeader.qos
    rw [hheader]
    exact qos_of_flags a.fixedHeader

/-- A PUBLISH that is read as it was written: it has no user properties, and an identifier
exactly if its QoS asks for one. -/
structure Publish.Intact (p : Publish) : Prop where
  id : p.IdAgrees
  user : p.userProperties = .new
  subscriptionId : ∀ v, p.subscriptionIdentifiers = some v → v.toNat ≤ 2097151

theorem Publish.Intact.carried {a : Publish} (hi : a.Intact) (ht : (Packet.publish a).Typed)
    (h : (Packet.publish a).carried order = some q) :
    q = .publish { a.withPayload with fixedHeader := a.fixedHeader.masked } := by
  obtain ⟨b, body, n, left, rfl, henc, hlen, hdecode⟩ := publish_body_of_carried ht h
  have hsound : ({ a with fixedHeader := a.fixedHeader.masked } : Publish).Sound order :=
    { packetType := ht
      flags := by
        show a.fixedHeader.flags &&& 0x0f &&& 0x0f = a.fixedHeader.flags &&& 0x0f
        rw [UInt8.and_assoc]
        rfl
      id := by
        obtain ⟨q, hq, hsome⟩ := hi.id
        exact ⟨q, (qos_of_flags a.fixedHeader).trans hq, hsome⟩
      fits := Publish.fits_of_plain hi.subscriptionId henc
      body := by
        show encodedLength (a.encodeBody order) ≤ 2097151
        rwa [henc, encodedLength_ok]
      paced := (Publish.userTable.steady hi.user).paced }
  have hread := (Publish.decode_reads hsound henc).symm.trans hdecode
  simp only [Outcome.ok.injEq, Prod.mk.injEq] at hread
  rw [← hread.1.1]
  rfl

end

end Mqtt
end Vaux
