import Vaux.Mqtt.Parts

/-!
# What the format can express

A variable byte integer has at most four bytes.  The encoder of `codec/mod.rs` writes five for
a larger number, and it never fails.  A packet whose body or whose subscription identifier takes
such a number is written all the same, unless a string in it is refused.
-/

namespace Vaux
namespace Mqtt

open Wire

/-! ## Fields that state a value -/

/-- A variable byte integer of at most four bytes. -/
structure States (field : Bytes) (n : Nat) : Prop where
  varInt : VarIntBytes field
  length_le : field.length ≤ 4
  value : varIntValue field = n

/-- Behind the bytes of the properties `front` stands the subscription identifier. -/
def StatesId {σ : Type} (order : HashOrder) (ps : List (Property σ)) (self : σ)
    (id : Option UInt32) (props : Bytes) : Prop :=
  ∀ v, id = some v → ∃ front p back before field after, ps = front ++ p :: back ∧
    p.propertyType = .subscriptionIdentifier ∧
    encodeAll Item.encode (propertyItems order front self) = .ok before ∧
    props = before ++ PropertyType.subscriptionIdentifier.toU8 :: (field ++ after) ∧
    States field v.toNat

/-- Behind the fields `ms` stands the length of the properties, and they follow. -/
def StatesSection {σ : Type} (order : HashOrder) (ms : List (Member σ)) (ps : List (Property σ))
    (self : σ) (id : Option UInt32) (body : Bytes) : Prop :=
  ∃ fields len props rest, body = fields ++ (len ++ props) ++ rest ∧
    encodeAll (Member.encode order self) ms = .ok fields ∧
    encodeAll Item.encode (propertyItems order ps self) = .ok props ∧
    States len props.length ∧ StatesId order ps self id props

namespace Packet

/-- The property sections of the packet state their lengths, and its subscription identifier is
stated; an abbreviated packet has none. -/
def StatesSections (order : HashOrder) (body : Bytes) : Packet → Prop
  | .pingRequest _ | .pingResponse _ => body = []
  | .connect p =>
    StatesSection order Connect.header Connect.properties p none body ∧
      ∀ w, p.willProperties = some w → ∃ front e tail, body = front ++ e ++ tail ∧
        p.encodeWillProperties order = .ok e ∧
        StatesSection order [] WillHeader.properties w none e
  | .connAck p => StatesSection order ConnAck.derived.members ConnAck.properties p none body
  | .publish p =>
    StatesSection order Publish.header Publish.properties p p.subscriptionIdentifiers body
  | .pubAck p | .pubComp p | .pubRec p | .pubRel p =>
    PubResp.derived.abbreviated order p = true ∨
      StatesSection order PubResp.derived.members PubResp.properties p none body
  | .disconnect p =>
    Disconnect.derived.abbreviated order p = true ∨
      StatesSection order Disconnect.derived.members Disconnect.properties p none body
  | .subscribe p =>
    StatesSection order Subscribe.derived.members Subscribe.properties p p.subscriptionId body
  | .subAck p => StatesSection order SubAck.derived.members SubAck.properties p none body
  | .unsubscribe p =>
    StatesSection order Unsubscribe.derived.members Unsubscribe.properties p none body
  | .unsubAck p => StatesSection order UnsubAck.derived.members UnsubAck.properties p none body

/-- The bytes are one frame: the first byte, the remaining length, and a body of that length. -/
def Framed (order : HashOrder) (p : Packet) (e : Bytes) : Prop :=
  ∃ len body, e = firstByte p.fixedHeader :: (len ++ body) ∧ p.encodeBody order = .ok body ∧
    States len body.length ∧ p.StatesSections order body

/-- What is written is a frame, and what no frame can express is refused. -/
structure Expressed (order : HashOrder) (p : Packet) : Prop where
  framed : ∀ e, p.encode order = .ok e → p.Framed order e
  refuses : (268435455 < p.bodyLength order ∨
      ∃ v, p.subscriptionId = some v ∧ maxVariableByteInt < v) →
    ∃ x, p.encode order = .error x

end Packet

section

variable {order : HashOrder}

theorem states_varIntEncoding {v : UInt32} (hle : v.toNat ≤ 268435455) :
    States (varIntEncoding v) v.toNat where
  varInt := (varIntEncoding_spec v).1
  length_le := ((varIntEncoding_spec v).2.2 3).mpr (by omega)
  value := (varIntEncoding_spec v).2.1

theorem statesId_none {σ : Type} {ps : List (Property σ)} {self : σ} {props : Bytes} :
    StatesId order ps self none props := nofun

theorem statesId_of_option {σ : Type} {self : σ} (front : List (Property σ))
    {back : List (Property σ)} (get : σ → Option UInt32) {set : σ → Option UInt32 → σ} {lens}
    (hid : ∀ v, get self = some v → v ≤ maxVariableByteInt) {props : Bytes}
    (hprops : encodeAll Item.encode (propertyItems order
      (front ++ Property.option .subscriptionIdentifier .varInt get set lens :: back) self) =
        .ok props) :
    StatesId order (front ++ Property.option .subscriptionIdentifier .varInt get set lens :: back)
      self (get self) props := by
  intro v hv
  have hone : (Property.option .subscriptionIdentifier .varInt get set lens).member.items order self =
      [v] := by
    show (get self).toList = [v]
    rw [hv, Option.toList_some]
  have hitems : propertyItems order
      (front ++ Property.option .subscriptionIdentifier .varInt get set lens :: back) self =
      propertyItems order front self ++
        ⟨Property.option .subscriptionIdentifier .varInt get set lens, v⟩ ::
          propertyItems order back self := by
    simp only [propertyItems, List.flatMap_append, List.flatMap_cons, hone]
    rfl
  rw [hitems, encodeAll_append_eq] at hprops
  obtain ⟨before, hbefore, hprops⟩ := enc_bind_eq_ok.mp hprops
  obtain ⟨rest, hrest, hprops⟩ := enc_bind_eq_ok.mp hprops
  cases hprops
  obtain ⟨e₁, after, h₁, -, rfl⟩ := encodeAll_cons_eq_ok hrest
  obtain ⟨field, hfield, rfl⟩ := Item.encode_eq_ok h₁
  cases (encodeVariableByteInt_eq v).symm.trans hfield
  exact ⟨front, _, back, before, varIntEncoding v, after, rfl, rfl, hbefore, rfl,
    states_varIntEncoding (UInt32.le_iff_toNat_le.mp (hid v hv))⟩

theorem StatesSection.of_hasSection {σ : Type} {ms : List (Member σ)} {ps : List (Property σ)}
    {self : σ} {id : Option UInt32} {body : Bytes} (h : HasSection order ms ps self body)
    (hlen : body.length ≤ 268435455)
    (hid : ∀ props, encodeAll Item.encode (propertyItems order ps self) = .ok props →
      StatesId order ps self id props) : StatesSection order ms ps self id body := by
  obtain ⟨fields, props, rest, rfl, hfields, hprops, hsize⟩ := h
  simp only [List.length_append] at hlen
  refine ⟨fields, varIntEncoding (propertySize order ps self), props, rest, rfl, hfields, hprops,
    ?_, hid props hprops⟩
  rw [hsize]
  exact states_varIntEncoding (by omega)

namespace Packet

theorem statesSections {p : Packet} {body : Bytes} (h : p.HasSections order body) (hid : p.IdFits)
    (hlen : body.length ≤ 268435455) : p.StatesSections order body := by
  cases p with
  | pingRequest | pingResponse => exact h
  | connect p =>
      obtain ⟨hsection, hwill⟩ := h
      refine ⟨.of_hasSection hsection hlen fun _ _ => statesId_none, fun w hw => ?_⟩
      obtain ⟨front, e, tail, rfl, he, hsection⟩ := hwill w hw
      simp only [List.length_append] at hlen
      exact ⟨front, e, tail, rfl, he,
        .of_hasSection hsection (by omega) fun _ _ => statesId_none⟩
  | connAck p => exact .of_hasSection h hlen fun _ _ => statesId_none
  | publish p =>
      exact .of_hasSection h hlen fun _ hprops =>
        statesId_of_option (Publish.properties.take 5) Publish.subscriptionIdentifiers hid hprops
  | pubAck p | pubComp p | pubRec p | pubRel p | disconnect p =>
      exact h.imp id fun hsection => .of_hasSection hsection hlen fun _ _ => statesId_none
  | subscribe p =>
      exact .of_hasSection h hlen fun _ hprops =>
        statesId_of_option [] Subscribe.subscriptionId hid hprops
  | subAck p => exact .of_hasSection h hlen fun _ _ => statesId_none
  | unsubscribe p => exact .of_hasSection h hlen fun _ _ => statesId_none
  | unsubAck p => exact .of_hasSection h hlen fun _ _ => statesId_none

theorem encode_ok_iff (p : Packet) : (∃ e, p.encode order = .ok e) ↔ ¬ p.Overlong order := by
  rw [← encodeBody_ok_iff, encode_eq]
  constructor
  · rintro ⟨e, he⟩
    obtain ⟨body, hbody, -⟩ := encodePacket_eq_ok he
    exact ⟨body, hbody⟩
  · rintro ⟨body, hbody⟩
    rw [hbody]
    exact ⟨_, rfl⟩

theorem encode_error_of_overlong {p : Packet} (h : p.Overlong order) :
    ∃ x, p.encode order = .error x := by
  cases henc : p.encode order with
  | ok e => exact absurd h (p.encode_ok_iff.mp ⟨e, henc⟩)
  | error x => exact ⟨x, rfl⟩

theorem framed_of_fits {p : Packet} (hid : p.IdFits) (hle : p.bodyLength order ≤ 268435455)
    {e : Bytes} (he : p.encode order = .ok e) : p.Framed order e := by
  have henc := he
  rw [encode_eq] at he
  obtain ⟨body, hbody, rfl⟩ := encodePacket_eq_ok he
  have hlen : body.length ≤ 268435455 := (encodeBody_length hid hle hbody).trans_le hle
  obtain ⟨hsize, hsections⟩ := body_sizes hbody hid hlen
  refine ⟨_, body, rfl, hbody, ?_, statesSections hsections hid hlen⟩
  have hstated : (p.codecSize order).toNat = body.length := by
    rw [hsize, UInt32.toNat_ofNat']
    omega
  rw [← hstated]
  exact states_varIntEncoding (by omega)

/-- The encoder keeps to the format exactly for the packets that it refuses, and for those whose
body and subscription identifier fit a variable byte integer. -/
theorem expressed_iff (order : HashOrder) (p : Packet) :
    p.Expressed order ↔
      p.Overlong order ∨ p.bodyLength order ≤ 268435455 ∧ p.IdFits := by
  constructor
  · rintro ⟨-, hrefuses⟩
    by_contra hnot
    obtain ⟨hover, hfits⟩ := not_or.mp hnot
    obtain ⟨e, he⟩ := p.encode_ok_iff.mpr hover
    have herror : ¬ ∃ x, p.encode order = .error x := by
      rintro ⟨x, hx⟩
      cases he.symm.trans hx
    refine hfits ⟨?_, fun v hv => ?_⟩
    · by_contra hlong
      exact herror (hrefuses (.inl (Nat.not_le.mp hlong)))
    · by_contra hbig
      exact herror (hrefuses (.inr ⟨v, hv, UInt32.not_le.mp hbig⟩))
  · rintro (hover | ⟨hle, hid⟩)
    · obtain ⟨x, hx⟩ := encode_error_of_overlong hover
      exact ⟨fun e he => (by cases hx.symm.trans he), fun _ => ⟨x, hx⟩⟩
    · refine ⟨fun e he => framed_of_fits hid hle he, ?_⟩
      rintro (hlong | ⟨v, hv, hbig⟩)
      · omega
      · exact absurd (hid v hv) (UInt32.not_le.mpr hbig)

/-- A PUBLISH with the smallest subscription identifier that does not fit: it takes five bytes, of
which four are counted. -/
def unexpressed : Packet :=
  .publish { Publish.default with topicName := "a", subscriptionIdentifiers := some 268435456 }

theorem not_expressed : ¬ ∀ (order : HashOrder) (p : Packet), p.Expressed order := by
  intro h
  obtain ⟨x, hx⟩ := (h .sorted unexpressed).refuses (.inr ⟨268435456, rfl, by decide⟩)
  have hwritten : unexpressed.encode .sorted =
      .ok [0x30, 0x09, 0x00, 0x01, 0x61, 0x05, 0x0b, 0x80, 0x80, 0x80, 0x80, 0x01] := by
    decide +kernel
  cases hwritten.symm.trans hx

end Packet

end

end Mqtt
end Vaux
