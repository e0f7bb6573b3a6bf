import Vaux.Broker.Session
import Vaux.Mqtt.PublishRoundTrip

/-!
# Forwarded publishes

What the loop of `route_publish` hands to one subscriber: a clone of the publish with
the lower of the two QoS levels and, above QoS 0, a packet identifier of the target
session.  The DUP flag and the identifier of the sender stay in the clone.
-/

namespace Vaux
namespace Broker

open Wire Decoder Mqtt

/-- `min(publish.qos() as u8, sub.qos as u8).try_into().unwrap_or(AtMostOnce)`. -/
def grantedQos (publishQos subQos : QoSLevel) : QoSLevel :=
  match QoSLevel.tryFrom (min publishQos.toU8 subQos.toU8) with
  | .ok qos => qos
  | .error _ => .atMostOnce

/-- The publish for one active subscriber, and its session behind it. -/
def handOver (publish : Publish) (subQos : QoSLevel) (target : Session) :
    Outcome MqttCodecError (Publish × Session) :=
  publish.qos.bind fun publishQos =>
    let qos := grantedQos publishQos subQos
    let out := publish.setQos qos
    if qos ≠ .atMostOnce then
      let packetId := target.nextPacketId.1
      let out := withPacketId out packetId
      .ok (out, target.nextPacketId.2.trackQosPublish packetId out)
    else .ok (out, target)

/-- What the subscriber is to read: the publish with the lower QoS, without DUP and with
an identifier exactly above QoS 0. -/
def expected (publish : Publish) (qos : QoSLevel) (packetId : UInt16) : Publish :=
  { publish with
    fixedHeader := (publish.fixedHeader.setQos qos).setDup false
    packetId := if qos = .atMostOnce then none else some packetId
    payload := some (publish.payload.getD []) }

/-! ## Flags -/

theorem forall_uint8 {P : UInt8 → Prop} (h : ∀ n : Fin 256, P (UInt8.ofNat n)) (x : UInt8) : P x := by
  have hx := h ⟨x.toNat, x.toNat_lt⟩
  rwa [UInt8.ofNat_toNat] at hx

section

variable (h : FixedHeader) (q : QoSLevel)

theorem qos_setQos : (h.setQos q).qos = .ok q := by
  have hall : ∀ flags : UInt8,
      ((flags &&& ~~~qosMask ||| (q.toU8 <<< 1)) &&& qosMask) >>> 1 = q.toU8 :=
    forall_uint8 (by cases q <;> decide +kernel)
  simp only [FixedHeader.qos, FixedHeader.setQos, hall, QoSLevel.tryFrom_toU8]

theorem qos_setDup (dup : Bool) : (h.setDup dup).qos = h.qos := by
  have hall : ∀ flags : UInt8,
      ((flags &&& ~~~dupMask ||| (putBool dup <<< 3)) &&& qosMask) = (flags &&& qosMask) :=
    forall_uint8 (by cases dup <;> decide +kernel)
  simp only [FixedHeader.qos, FixedHeader.setDup, hall]

theorem setDup_setDup (dup : Bool) : (h.setDup dup).setDup dup = h.setDup dup := by
  have hall : ∀ flags : UInt8,
      ((flags &&& ~~~dupMask ||| (putBool dup <<< 3)) &&& ~~~dupMask ||| (putBool dup <<< 3)) =
        (flags &&& ~~~dupMask ||| (putBool dup <<< 3)) :=
    forall_uint8 (by cases dup <;> decide +kernel)
  simp only [FixedHeader.setDup, hall]

theorem flags_setQos (hflags : h.flags &&& 0x0f = h.flags) :
    (h.setQos q).flags &&& 0x0f = (h.setQos q).flags := by
  have hall : ∀ flags : UInt8, flags &&& 0x0f = flags →
      (flags &&& ~~~qosMask ||| (q.toU8 <<< 1 : UInt8)) &&& (0x0f : UInt8) =
        flags &&& ~~~qosMask ||| (q.toU8 <<< 1 : UInt8) :=
    forall_uint8 (by cases q <;> decide +kernel)
  exact hall h.flags hflags

theorem dup_setQos : (h.setQos q).dup = h.dup := by
  have hall : ∀ flags : UInt8,
      ((flags &&& ~~~qosMask ||| (q.toU8 <<< 1)) &&& dupMask != 0) = (flags &&& dupMask != 0) :=
    forall_uint8 (by cases q <;> decide +kernel)
  exact hall h.flags

theorem dup_setDup : (h.setDup false).dup = false := by
  have hall : ∀ flags : UInt8,
      ((flags &&& ~~~dupMask ||| (putBool false <<< 3)) &&& dupMask != 0) = false :=
    forall_uint8 (by decide +kernel)
  exact hall h.flags

theorem setDup_of_dup (hdup : h.dup = false) : h.setDup false = h := by
  have hall : ∀ flags : UInt8, (flags &&& dupMask != 0) = false →
      flags &&& ~~~dupMask ||| (putBool false <<< 3) = flags :=
    forall_uint8 (by decide +kernel)
  simp only [FixedHeader.setDup, hall h.flags hdup]

end

theorem grantedQos_eq_atMostOnce {q sub : QoSLevel} :
    grantedQos q sub = .atMostOnce ↔ q = .atMostOnce ∨ sub = .atMostOnce := by
  cases q <;> cases sub <;> decide

/-! ## Publishes that were read -/

/-- What the decoder has checked of a PUBLISH it returns. -/
structure Received (order : HashOrder) (p : Publish) : Prop where
  packetType : p.fixedHeader.packetType = .publish
  flags : p.fixedHeader.flags &&& 0x0f = p.fixedHeader.flags
  id : p.IdAgrees
  fits : SectionFits order Publish.properties p
  topic : ∃ e, Codec.string.encode p.topicName = .ok e

theorem headerOf_flags (first : UInt8) : (headerOf first).flags &&& 0x0f = (headerOf first).flags := by
  simp only [headerOf, UInt8.and_assoc, UInt8.and_self]

theorem topic_of_decode {fixedHeader : FixedHeader} {p : Publish} {n : Nat} {src left : Bytes}
    (h : ({ Publish.default with fixedHeader } : Publish).decode.run src = .ok ((p, n), left)) :
    ∃ e, Codec.string.encode p.topicName = .ok e := by
  obtain ⟨topicName, n₁, src₁, packetId, n₂, src₂, s, n₃, src₃, h₁, -, h₃, rfl⟩ := Publish.decode_ok h
  have htopic : s.topicName = topicName :=
    decodeProperties_frame (fun s => s.topicName)
      (Publish.properties_frame fun _ topicName _ _ => topicName) h₃
  have hread : Codec.string.decode.run src = .ok ((topicName, n₁), src₁) := h₁
  obtain ⟨-, e, he⟩ := (Codec.carries_of_decode hread).1
  exact ⟨e, htopic ▸ he⟩

theorem received_of_run {fixedHeader : FixedHeader} {p : Publish} {n : Nat} {src left : Bytes}
    (ht : fixedHeader.packetType = .publish) (hflags : fixedHeader.flags &&& 0x0f = fixedHeader.flags)
    (h : ({ Publish.default with fixedHeader } : Publish).decode.run src = .ok ((p, n), left))
    (order : HashOrder) : Received order p ∧ p.fixedHeader = fixedHeader := by
  obtain ⟨rfl, hid, hfits, -⟩ := Publish.decode_fits h order
  exact ⟨⟨ht, hflags, hid, hfits, topic_of_decode h⟩, rfl⟩

theorem received_of_body {first : UInt8} {p : Publish} {n : Nat} {body left : Bytes}
    (h : (decodeBody (headerOf first)).run body = .ok ((.publish p, n), left)) (order : HashOrder) :
    Received order p ∧ p.fixedHeader = headerOf first := by
  have htype := decodeBody_packetType h
  rw [Publish.decodeBody_publish htype.symm] at h
  obtain ⟨a, hrun, ha⟩ := asPacket_eq_ok h
  cases ha
  exact received_of_run htype.symm (headerOf_flags first) hrun order

theorem received_of_decode {b : Bytes} {p : Publish} {n : Nat}
    (h : decode b = .ok (some (.publish p, n))) (order : HashOrder) : Received order p := by
  rcases decode_cases b with ⟨first, len, body, rest, hopen⟩ | ⟨⟨e, -, he⟩, -⟩ | ⟨e, -, he⟩
  · rw [decode_opened hopen] at h
    obtain ⟨⟨⟨p', m⟩, left⟩, hbody, hr⟩ := Outcome.bind_eq_ok.mp h
    cases hr
    exact (received_of_body hbody order).1
  · rw [he] at h
    cases h
  · rw [he] at h
    cases h

theorem encodeAll_ok {α : Type*} {encode : α → Enc} {l : List α}
    (h : ∀ a ∈ l, ∃ e, encode a = .ok e) : ∃ e, encodeAll encode l = .ok e := by
  induction l with
  | nil => exact ⟨[], rfl⟩
  | cons a l ih =>
      obtain ⟨⟨e, he⟩, htail⟩ := List.forall_mem_cons.mp h
      obtain ⟨e', he'⟩ := ih htail
      exact ⟨e ++ e', by simp only [encodeAll, he, he', bind, Except.bind]⟩

/-- The length of the body of a packet the decoder returned, in which all the fields can
be written. -/
theorem Received.encodeBody {order : HashOrder} {p : Publish} (h : Received order p) :
    ∃ e, p.encodeBody order = .ok e ∧
      e.length = encodedLength (Codec.string.encode p.topicName) + 2 * p.packetId.toList.length +
        (varIntEncoding (propertySize order Publish.properties p)).length +
        propertyLength order Publish.properties p + (p.payload.getD []).length := by
  obtain ⟨topic, htopic⟩ := h.topic
  obtain ⟨id, hid⟩ : ∃ e, encodeAll Codec.u16.encode p.packetId.toList = .ok e :=
    encodeAll_ok fun v _ => ⟨_, rfl⟩
  obtain ⟨props, hprops⟩ : ∃ e, encodeAll Item.encode (propertyItems order Publish.properties p) =
      .ok e := by
    refine encodeAll_ok fun i hi => ?_
    obtain ⟨-, e, he⟩ := h.fits i hi
    exact ⟨i.property.propertyType.toU8 :: e, by simp only [Item.encode, he, bind, Except.bind]⟩
  have henc : p.encodeBody order = .ok (topic ++ id ++
      (varIntEncoding (propertySize order Publish.properties p) ++ props) ++ p.payload.getD []) := by
    have hmembers : encodeAll (Member.encode order p) Publish.header = .ok (topic ++ id) := by
      have htopic' : Member.encode order p (.field .string (·.topicName)
          fun s v => { s with topicName := v }) = .ok topic := by
        simp only [Member.encode, Member.field, encodeAll, htopic, bind, Except.bind, List.append_nil]
      have hid' : Member.encode order p (.option .u16 (·.packetId) fun s v => { s with packetId := v }) =
          .ok id := hid
      simp only [Publish.header, encodeAll, htopic', hid', bind, Except.bind, List.append_nil]
    simp only [Publish.encodeBody, hmembers, propertyEncode, encodeVariableByteInt_eq, hprops, bind,
      Except.bind]
  refine ⟨_, henc, ?_⟩
  have hidLen : id.length = 2 * p.packetId.toList.length := by
    rw [encodeAll_length hid]
    cases p.packetId <;> rfl
  simp only [List.length_append, htopic, encodedLength_ok, hidLen, encodeItems_length hprops]
  rw [propertyLength]
  omega

/-! ## The clone -/

/-- The publish that `handOver` makes for a granted QoS. -/
def clone (publish : Publish) (qos : QoSLevel) (packetId : UInt16) : Publish :=
  if qos ≠ .atMostOnce then withPacketId (publish.setQos qos) packetId else publish.setQos qos

theorem handOver_eq {publish : Publish} {q : QoSLevel} (hq : publish.qos = .ok q) (subQos : QoSLevel)
    (target : Session) :
    ∃ target', handOver publish subQos target =
      .ok (clone publish (grantedQos q subQos) target.nextPacketId.1, target') := by
  simp only [handOver, hq, Outcome.bind_ok, clone]
  by_cases hzero : grantedQos q subQos = .atMostOnce
  · rw [if_neg (not_not.mpr hzero), if_neg (not_not.mpr hzero)]
    exact ⟨_, rfl⟩
  · rw [if_pos hzero, if_pos hzero]
    exact ⟨_, rfl⟩

theorem withPacketId_eq {publish : Publish} {q : QoSLevel} (hq : publish.qos = .ok q)
    (hne : q ≠ .atMostOnce) (packetId : UInt16) :
    withPacketId publish packetId = { publish with packetId := some packetId } := by
  have hset : publish.setPacketId (some packetId) = .ok { publish with packetId := some packetId } := by
    have hq' : publish.fixedHeader.qos = .ok q := hq
    rw [Publish.setPacketId, hq', Outcome.bind_ok]
    cases q with
    | atMostOnce => exact absurd rfl hne
    | atLeastOnce => rfl
    | exactlyOnce => rfl
  rw [withPacketId, hset]

/-- Nothing comes of `set_dup` and `set_packet_id` below QoS 1. -/
theorem redelivered_eq_self {p : Publish} (h : ∀ q, p.qos = .ok q → q = .atMostOnce)
    (packetId : UInt16) : redelivered packetId p = p := by
  cases hqos : p.fixedHeader.qos with
  | err e => exact absurd hqos (Publish.qos_ne_err _ e)
  | panic =>
      have hdup : p.setDup true = .panic := by rw [Publish.setDup, hqos]; rfl
      have hid : p.setPacketId (some packetId) = .panic := by rw [Publish.setPacketId, hqos]; rfl
      rw [redelivered, hdup, withPacketId, hid]
  | ok q =>
      obtain rfl := h q hqos
      have hdup : p.setDup true = .err (.new "Mqttv53.3.2.2 QOS level must not be At\n    Most Once with DUP true") := by
        rw [Publish.setDup, hqos]
        rfl
      have hid : p.setPacketId (some packetId) =
          .err (.new "Mqttv53.3.2.2 QOS level must not be At Most Once") := by
        rw [Publish.setPacketId, hqos]
        rfl
      rw [redelivered, hdup, withPacketId, hid]

theorem redelivered_eq {p : Publish} {q : QoSLevel} (hq : p.qos = .ok q) (hne : q ≠ .atMostOnce)
    (packetId : UInt16) : redelivered packetId p =
      { p with fixedHeader := p.fixedHeader.setDup true, packetId := some packetId } := by
  have hdup : p.setDup true = .ok { p with fixedHeader := p.fixedHeader.setDup true } := by
    have hq' : p.fixedHeader.qos = .ok q := hq
    rw [Publish.setDup, hq', Outcome.bind_ok, if_neg fun hboth => hne hboth.1]
  have hset : ({ p with fixedHeader := p.fixedHeader.setDup true } : Publish).qos = .ok q :=
    (qos_setDup _ _).trans hq
  rw [redelivered, hdup]
  exact withPacketId_eq hset hne packetId

/-- A message that is redelivered again is the same. -/
theorem redelivered_redelivered (packetId : UInt16) (p : Publish) :
    redelivered packetId (redelivered packetId p) = redelivered packetId p := by
  by_cases hzero : ∀ q, p.qos = .ok q → q = .atMostOnce
  · rw [redelivered_eq_self hzero, redelivered_eq_self hzero]
  · simp only [not_forall] at hzero
    obtain ⟨q, hqos, hne⟩ := hzero
    have hset : (redelivered packetId p).qos = .ok q := by
      rw [redelivered_eq hqos hne]
      exact (qos_setDup _ _).trans hqos
    rw [redelivered_eq hset hne, redelivered_eq hqos hne]
    show ({ p with fixedHeader := (p.fixedHeader.setDup true).setDup true, packetId := some packetId } :
      Publish) = _
    rw [setDup_setDup]

/-- Unless the QoS drops to 0, the clone has an identifier exactly above QoS 0. -/
theorem clone_eq {publish : Publish} {q subQos : QoSLevel} (hq : publish.qos = .ok q)
    (hid : publish.IdAgrees) (hdown : q = .atMostOnce ∨ subQos ≠ .atMostOnce) (packetId : UInt16) :
    clone publish (grantedQos q subQos) packetId =
      { publish with
        fixedHeader := publish.fixedHeader.setQos (grantedQos q subQos)
        packetId := if grantedQos q subQos = .atMostOnce then none else some packetId } := by
  by_cases hzero : grantedQos q subQos = .atMostOnce
  · have hq0 : q = .atMostOnce := by
      rcases hdown with h | h
      · exact h
      · exact (grantedQos_eq_atMostOnce.mp hzero).resolve_right h
    obtain ⟨q', hq', hagrees⟩ := hid
    have hnone : publish.packetId = none := by
      rw [hq] at hq'
      cases hq'
      rw [hq0] at hagrees
      simpa using hagrees
    rw [clone, if_neg (not_not.mpr hzero), if_pos hzero, ← hnone]
    rfl
  · have hqos : (publish.setQos (grantedQos q subQos)).qos = .ok (grantedQos q subQos) :=
      qos_setQos _ _
    rw [clone, if_pos hzero, if_neg hzero, withPacketId_eq hqos hzero]
    rfl

theorem items_clone {order : HashOrder} (publish : Publish) (fixedHeader : FixedHeader)
    (packetId : Option UInt16) :
    ∀ p ∈ Publish.properties, p.member.items order { publish with fixedHeader, packetId } =
      p.member.items order publish := by
  simp only [Publish.properties, List.forall_mem_cons, List.not_mem_nil, false_imp_iff, implies_true,
    and_true]
  and_intros <;> rfl

theorem propertyItems_congr {σ : Type} {order : HashOrder} {ps : List (Property σ)} {s s' : σ}
    (h : ∀ p ∈ ps, p.member.items order s = p.member.items order s') :
    propertyItems order ps s = propertyItems order ps s' := by
  unfold propertyItems
  exact List.flatMap_congr fun p hp => by rw [h p hp]

section

variable {order : HashOrder} {publish : Publish} {q subQos : QoSLevel}

/-- The clone is as well formed as the publish it was made from. -/
theorem Received.clone (h : Received order publish) (hq : publish.qos = .ok q)
    (hdown : q = .atMostOnce ∨ subQos ≠ .atMostOnce) (packetId : UInt16) :
    Received order (clone publish (grantedQos q subQos) packetId) := by
  rw [clone_eq hq h.id hdown]
  refine ⟨h.packetType, flags_setQos _ _ h.flags, ⟨_, qos_setQos _ _, ?_⟩, ?_, h.topic⟩
  · by_cases hzero : grantedQos q subQos = .atMostOnce
    · simp [hzero]
    · simp [hzero]
  · intro i hi
    rw [propertyItems_congr (items_clone publish _ _)] at hi
    exact h.fits i hi

/-- The body of the clone is as long as that of the publish would be. -/
theorem encodedLength_clone (h : Received order publish) (hq : publish.qos = .ok q)
    (hdown : q = .atMostOnce ∨ subQos ≠ .atMostOnce) (packetId : UInt16) :
    encodedLength ((Broker.clone publish (grantedQos q subQos) packetId).encodeBody order) =
      encodedLength (publish.encodeBody order) := by
  obtain ⟨e, he, hlen⟩ := h.encodeBody
  obtain ⟨e', he', hlen'⟩ := (h.clone hq hdown packetId).encodeBody
  have hitems := propertyItems_congr (@items_clone order publish
    (publish.fixedHeader.setQos (grantedQos q subQos))
    (if grantedQos q subQos = .atMostOnce then none else some packetId))
  have hid : (if grantedQos q subQos = .atMostOnce then none else some packetId).toList.length =
      publish.packetId.toList.length := by
    obtain ⟨q', hq', hagrees⟩ := h.id
    rw [hq] at hq'
    cases hq'
    by_cases hzero : grantedQos q subQos = .atMostOnce
    · have hq0 : q = .atMostOnce :=
        hdown.elim id fun hs => (grantedQos_eq_atMostOnce.mp hzero).resolve_right hs
      have hnone : publish.packetId = none := by simpa [hq0] using hagrees
      simp [hzero, hnone]
    · have hq0 : q ≠ .atMostOnce := fun h0 => hzero (grantedQos_eq_atMostOnce.mpr (.inl h0))
      obtain ⟨v, hv⟩ := Option.isSome_iff_exists.mp (hagrees.mpr hq0)
      simp [hzero, hv]
  rw [he, he', encodedLength_ok, encodedLength_ok, hlen, hlen', clone_eq hq h.id hdown]
  simp only [propertySize, propertyLength, hitems, hid]

/-- The header that is read is the one in the first byte. -/
theorem fixedHeader_of_decode {out p : Publish} {e suffix : Bytes} {n : Nat}
    (hflags : out.fixedHeader.flags &&& 0x0f = out.fixedHeader.flags)
    (henc : (Packet.publish out).encode order = .ok e)
    (h : decode (e ++ suffix) = .ok (some (.publish p, n))) : p.fixedHeader = out.fixedHeader := by
  obtain ⟨body, -, rfl⟩ := encodePacket_eq_ok henc
  obtain ⟨body', m, left, -, -, -, hrun⟩ := decode_written_ok h
  rw [(received_of_body hrun order).2, Publish.headerOf_firstByte_of_flags hflags]

/-- What `route_publish` hands to the subscriber is written, and read as expected. -/
def ReadsAsExpected (order : HashOrder) (publish : Publish) (q subQos : QoSLevel) (target : Session) :
    Prop :=
  ∃ out target' e, handOver publish subQos target = .ok (out, target') ∧
    (Packet.publish out).encode order = .ok e ∧
    ∀ suffix, ∃ n, decode (e ++ suffix) =
      .ok (some (.publish (expected publish (grantedQos q subQos) target.nextPacketId.1), n))

/-- A publish whose QoS does not drop to 0 on the way reads as expected exactly if it came
without DUP, is not too long, and its property section is counted right. -/
theorem readsAsExpected_iff {b : Bytes} {n : Nat} (hdecode : decode b = .ok (some (.publish publish, n)))
    (hq : publish.qos = .ok q) (hdown : q = .atMostOnce ∨ subQos ≠ .atMostOnce) (target : Session) :
    ReadsAsExpected order publish q subQos target ↔
      publish.dup = false ∧ encodedLength (publish.encodeBody order) ≤ 2097151 ∧
        Paced (propertyItems order Publish.properties publish) := by
  have hreceived := received_of_decode hdecode order
  obtain ⟨target', hhand⟩ := handOver_eq hq subQos target
  have hclone := hreceived.clone hq hdown target.nextPacketId.1
  have hlength := encodedLength_clone hreceived hq hdown target.nextPacketId.1
  have heq := clone_eq hq hreceived.id hdown target.nextPacketId.1
  have hitems : propertyItems order Publish.properties
      (clone publish (grantedQos q subQos) target.nextPacketId.1) =
        propertyItems order Publish.properties publish := by
    rw [heq]
    exact propertyItems_congr (items_clone publish _ _)
  have hexpected : publish.dup = false →
      expected publish (grantedQos q subQos) target.nextPacketId.1 =
        (clone publish (grantedQos q subQos) target.nextPacketId.1).withPayload := by
    intro hdup
    have hheader : (publish.fixedHeader.setQos (grantedQos q subQos)).setDup false =
        publish.fixedHeader.setQos (grantedQos q subQos) :=
      setDup_of_dup _ (by rw [dup_setQos]; exact hdup)
    rw [heq, expected, hheader]
    rfl
  constructor
  · rintro ⟨out, target'', e, hhand', henc, hread⟩
    rw [hhand] at hhand'
    cases hhand'
    obtain ⟨m, hread⟩ := hread []
    have hdup : publish.dup = false := by
      have hheader := fixedHeader_of_decode hclone.flags henc hread
      have hclear : (clone publish (grantedQos q subQos) target.nextPacketId.1).fixedHeader.dup =
          false := by
        rw [← hheader]
        exact dup_setDup _
      rw [heq] at hclear
      rw [← hclear]
      exact (dup_setQos _ _).symm
    rw [hexpected hdup] at hread
    have hsound := Publish.sound_of_decode henc hread
    exact ⟨hdup, hlength ▸ hsound.body, hitems ▸ hsound.paced⟩
  · rintro ⟨hdup, hbody, hpaced⟩
    obtain ⟨e, he, -⟩ := hclone.encodeBody
    have hsound : (clone publish (grantedQos q subQos) target.nextPacketId.1).Sound order :=
      ⟨hclone.packetType, hclone.flags, hclone.id, hclone.fits, hlength ▸ hbody, hitems ▸ hpaced⟩
    obtain ⟨e', henc⟩ : ∃ e', (Packet.publish
        (clone publish (grantedQos q subQos) target.nextPacketId.1)).encode order = .ok e' := by
      simp only [Packet.encode, encodePacket, FixedHeader.encode, encodeVariableByteInt_eq, he, bind,
        Except.bind]
      exact ⟨_, rfl⟩
    refine ⟨_, target', e', hhand, henc, ?_⟩
    intro suffix
    rw [hexpected hdup]
    exact ⟨_, Publish.decode_of_sound henc hsound suffix⟩

end

/-- A PUBLISH of QoS 1 with the identifier 10, for the topic `a` and without payload. -/
def sent : Publish :=
  { Publish.default with
    fixedHeader := { packetType := .publish, flags := 0x02 }
    topicName := "a"
    packetId := some 10
    payload := some [] }

theorem decode_sent :
    decode [0x32, 0x06, 0x00, 0x01, 0x61, 0x00, 0x0a, 0x00] = .ok (some (.publish sent, 8)) := by
  decide +kernel

theorem sent_reads_as_expected :
    ReadsAsExpected .sorted sent .atLeastOnce .exactlyOnce (.new "b" none 60 0) := by
  refine (readsAsExpected_iff decode_sent rfl (.inr (by decide)) _).mpr ⟨rfl, by decide +kernel, ?_⟩
  have hitems : propertyItems .sorted Publish.properties sent = [] := by decide +kernel
  rw [hitems]
  exact paced_nil

/-- To a subscriber of QoS 0 the identifier 10 is still written, and it is read as an
empty property section and the first byte of the payload. -/
theorem downgrade_corrupts_payload :
    ¬ ∀ (order : HashOrder) (b : Bytes) (n : Nat) (publish : Publish) (q subQos : QoSLevel)
      (target : Session), decode b = .ok (some (.publish publish, n)) → publish.qos = .ok q →
        ReadsAsExpected order publish q subQos target := by
  intro h
  obtain ⟨out, target', e, hhand, henc, hread⟩ :=
    h .sorted _ _ sent .atLeastOnce .atMostOnce (.new "b" none 60 0) decode_sent rfl
  cases hhand
  have hwritten : (Packet.publish (sent.setQos (grantedQos .atLeastOnce .atMostOnce))).encode .sorted =
      .ok [0x30, 0x06, 0x00, 0x01, 0x61, 0x00, 0x0a, 0x00] := by decide +kernel
  rw [hwritten] at henc
  cases henc
  obtain ⟨n, hread⟩ := hread []
  have hdecode : decode ([0x30, 0x06, 0x00, 0x01, 0x61, 0x00, 0x0a, 0x00] ++ []) =
      .ok (some (.publish { Publish.default with topicName := "a", payload := some [0x0a, 0x00] }, 8)) := by
    decide +kernel
  rw [hdecode] at hread
  cases hread

end Broker
end Vaux
