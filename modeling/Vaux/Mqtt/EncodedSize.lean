import Vaux.Mqtt.BinaryProperties

/-!
# Sizes and bytes

`codec_size` and `property_size` are generated apart from the encoder, and the encoder
writes them in front of the body and of the property section.  They are the lengths of
what follows, for every packet that is written and whose body and subscription
identifier fit a variable byte integer.
-/

namespace Vaux
namespace Mqtt

open Wire Decoder

namespace Packet

def fixedHeader : Packet → FixedHeader
  | .pingRequest p => p.fixedHeader
  | .pingResponse p => p.fixedHeader
  | .connect p => p.fixedHeader
  | .connAck p => p.fixedHeader
  | .publish p => p.fixedHeader
  | .pubAck p | .pubComp p | .pubRec p | .pubRel p => p.fixedHeader
  | .disconnect p => p.fixedHeader
  | .subscribe p => p.fixedHeader
  | .subAck p => p.fixedHeader
  | .unsubscribe p => p.fixedHeader
  | .unsubAck p => p.fixedHeader

section

variable (order : HashOrder)

def codecSize : Packet → UInt32
  | .pingRequest _ | .pingResponse _ => 0
  | .connect p => p.codecSize order
  | .connAck p => ConnAck.derived.codecSize order p
  | .publish p => p.codecSize order
  | .pubAck p | .pubComp p | .pubRec p | .pubRel p => PubResp.derived.codecSize order p
  | .disconnect p => Disconnect.derived.codecSize order p
  | .subscribe p => Subscribe.derived.codecSize order p
  | .subAck p => SubAck.derived.codecSize order p
  | .unsubscribe p => Unsubscribe.derived.codecSize order p
  | .unsubAck p => UnsubAck.derived.codecSize order p

def encodeBody : Packet → Enc
  | .pingRequest _ | .pingResponse _ => .ok []
  | .connect p => p.encodeBody order
  | .connAck p => ConnAck.derived.encodeBody order p
  | .publish p => p.encodeBody order
  | .pubAck p | .pubComp p | .pubRec p | .pubRel p => PubResp.derived.encodeBody order p
  | .disconnect p => Disconnect.derived.encodeBody order p
  | .subscribe p => Subscribe.derived.encodeBody order p
  | .subAck p => SubAck.derived.encodeBody order p
  | .unsubscribe p => Unsubscribe.derived.encodeBody order p
  | .unsubAck p => UnsubAck.derived.encodeBody order p

theorem encode_eq (p : Packet) :
    p.encode order = encodePacket p.fixedHeader (p.codecSize order) (p.encodeBody order) := by
  cases p <;> rfl

end

def subscriptionId : Packet → Option UInt32
  | .publish p => p.subscriptionIdentifiers
  | .subscribe p => p.subscriptionId
  | _ => none

end Packet

/-! ## Sections -/

section

variable {σ : Type} {order : HashOrder} {self : σ}

/-- `body` has, behind the fields `ms`, the property section: its size and then that
many bytes, which are the properties. -/
def HasSection (order : HashOrder) (ms : List (Member σ)) (ps : List (Property σ)) (self : σ)
    (body : Bytes) : Prop :=
  ∃ fields props rest, body = fields ++ (varIntEncoding (propertySize order ps self) ++ props) ++ rest ∧
    encodeAll (Member.encode order self) ms = .ok fields ∧
    encodeAll Item.encode (propertyItems order ps self) = .ok props ∧
    props.length = (propertySize order ps self).toNat

theorem hasSection_of_encode {ms : List (Member σ)} {ps : List (Property σ)}
    (hsizes : SectionSizes order ps self) {fields section' rest : Bytes}
    (hfields : encodeAll (Member.encode order self) ms = .ok fields)
    (hsection : propertyEncode order ps self = .ok section')
    (hlen : section'.length ≤ 268435455) : HasSection order ms ps self (fields ++ section' ++ rest) := by
  obtain ⟨props, hprops, rfl⟩ := propertyEncode_eq_ok hsection
  rw [List.length_append] at hlen
  exact ⟨fields, props, rest, rfl, hfields, hprops,
    (propertySize_toNat_of_encode hsizes hprops (by omega)).symm⟩

theorem encodeAll_append {α : Type*} {encode : α → Enc} {l l' : List α} {e e' : Bytes}
    (h : encodeAll encode l = .ok e) (h' : encodeAll encode l' = .ok e') :
    encodeAll encode (l ++ l') = .ok (e ++ e') := by
  induction l generalizing e with
  | nil =>
      cases h
      exact h'
  | cons a l ih =>
      obtain ⟨e₁, e₂, h₁, h₂, rfl⟩ := encodeAll_cons_eq_ok h
      simp only [List.cons_append, encodeAll, h₁, ih h₂, bind, Except.bind, List.append_assoc]

/-- The property section of a derived struct, unless it is abbreviated. -/
theorem Derived.hasSection {d : Derived σ} (hsizes : d.Sizes order self) {body : Bytes}
    (h : d.encodeBody order self = .ok body) (hlen : body.length ≤ 268435455) :
    d.abbreviated order self = true ∨ HasSection order d.members d.properties self body := by
  obtain ⟨e₁, h₁, ⟨habb, -⟩ | ⟨-, e₂, h₂, rfl⟩⟩ := encodeBody_eq_ok h
  · exact .inl habb
  · right
    obtain ⟨e₃, e₄, e₅, h₃, h₄, h₅, rfl⟩ := encodeFull_eq_ok h₂
    simp only [List.length_append] at hlen
    have hsection : HasSection order d.members d.properties self (e₁ ++ e₃ ++ e₄ ++ e₅) :=
      hasSection_of_encode hsizes.properties (encodeAll_append h₁ h₃) h₄ (by omega)
    have hbytes : e₁ ++ (e₃ ++ e₄ ++ e₅) = e₁ ++ e₃ ++ e₄ ++ e₅ := by simp
    rw [hbytes]
    exact hsection

theorem Derived.AllFit.sizes {d : Derived σ} (h : d.AllFit) : d.Sizes order self where
  members m hm a _ := Codec.sizeAgrees_of_fits (h.members m hm a)
  properties := sectionSizes_of_fits h.properties
  remaining r hr a _ := Codec.sizeAgrees_of_fits (h.remaining r hr a)

end

/-- The property sections of a packet: none in a ping and in an abbreviated packet, and
one more for the will of a CONNECT. -/
def Packet.HasSections (order : HashOrder) (body : Bytes) : Packet → Prop
  | .pingRequest _ | .pingResponse _ => body = []
  | .connect p =>
    HasSection order Connect.header Connect.properties p body ∧
      ∀ w, p.willProperties = some w → ∃ front e tail, body = front ++ e ++ tail ∧
        p.encodeWillProperties order = .ok e ∧ HasSection order [] WillHeader.properties w e
  | .connAck p => HasSection order ConnAck.derived.members ConnAck.properties p body
  | .publish p => HasSection order Publish.header Publish.properties p body
  | .pubAck p | .pubComp p | .pubRec p | .pubRel p =>
    PubResp.derived.abbreviated order p = true ∨
      HasSection order PubResp.derived.members PubResp.properties p body
  | .disconnect p =>
    Disconnect.derived.abbreviated order p = true ∨
      HasSection order Disconnect.derived.members Disconnect.properties p body
  | .subscribe p => HasSection order Subscribe.derived.members Subscribe.properties p body
  | .subAck p => HasSection order SubAck.derived.members SubAck.properties p body
  | .unsubscribe p => HasSection order Unsubscribe.derived.members Unsubscribe.properties p body
  | .unsubAck p => HasSection order UnsubAck.derived.members UnsubAck.properties p body

/-! ## The packets -/

theorem PubResp.allFit : PubResp.derived.AllFit where
  members := by
    simp only [Derived.members, PubResp.derived, List.cons_append, List.nil_append,
      List.forall_mem_cons, List.not_mem_nil, false_imp_iff, implies_true, and_true]
    exact ⟨fun _ => trivial, fun _ => trivial⟩
  properties := by
    simp only [PubResp.derived, PubResp.properties, List.forall_mem_cons, List.not_mem_nil,
      false_imp_iff, implies_true, and_true]
    exact ⟨fun _ => trivial, fun _ => ⟨trivial, trivial⟩⟩
  remaining := by simp [PubResp.derived]

theorem sizeAgrees_varInt {v : UInt32} (h : v ≤ maxVariableByteInt) : Codec.varInt.SizeAgrees v := by
  intro e he
  have heq : encodeVariableByteInt v = .ok e := he
  rw [encodeVariableByteInt_eq] at heq
  cases heq
  exact varIntEncoding_size h

section

variable {order : HashOrder}

theorem Subscribe.sizes {p : Subscribe} (hid : ∀ v, p.subscriptionId = some v → v ≤ maxVariableByteInt) :
    Subscribe.derived.Sizes order p where
  members := by
    intro m hm a _
    obtain rfl := List.mem_singleton.mp hm
    exact Codec.sizeAgrees_of_fits trivial
  properties := by
    intro i hi
    obtain ⟨hp, hv⟩ := mem_propertyItems.mp hi
    obtain ⟨q, a⟩ := i
    simp only [Subscribe.derived, Subscribe.properties, List.mem_cons, List.not_mem_nil,
      or_false] at hp
    rcases hp with rfl | rfl
    · exact sizeAgrees_varInt (hid a (Option.mem_toList.mp hv))
    · exact Codec.sizeAgrees_of_fits ⟨trivial, trivial⟩
  remaining := by
    intro r hr a _
    cases hr
    exact Codec.sizeAgrees_of_fits ⟨trivial, trivial⟩

theorem Publish.sizes {p : Publish}
    (hid : ∀ v, p.subscriptionIdentifiers = some v → v ≤ maxVariableByteInt) :
    SectionSizes order Publish.properties p := by
  intro i hi
  obtain ⟨hp, hv⟩ := mem_propertyItems.mp hi
  obtain ⟨q, a⟩ := i
  simp only [Publish.properties, List.mem_cons, List.not_mem_nil, or_false] at hp
  rcases hp with rfl | rfl | rfl | rfl | rfl | rfl | rfl | rfl
  case inr.inr.inr.inr.inr.inl => exact sizeAgrees_varInt (hid a (Option.mem_toList.mp hv))
  case inr.inr.inr.inr.inr.inr.inr => exact Codec.sizeAgrees_of_fits ⟨trivial, trivial⟩
  all_goals exact Codec.sizeAgrees_of_fits trivial

theorem Connect.hasSections {p : Connect} {body : Bytes} (h : p.encodeBody order = .ok body)
    (hlen : body.length ≤ 268435455) : (Packet.connect p).HasSections order body := by
  obtain ⟨e₁, e₂, e₃, e₄, e₅, h₁, h₂, h₃, h₄, h₅, rfl⟩ := Connect.encodeBody_eq_ok h
  simp only [List.length_append] at hlen
  constructor
  · have hsection := @hasSection_of_encode _ order p _ _ (Connect.sectionSizes order p) e₁ e₂
      (e₃ ++ e₄ ++ e₅) h₁ h₂ (by omega)
    simpa only [List.append_assoc] using hsection
  · intro w hw
    refine ⟨e₁ ++ e₂ ++ e₃, e₄, e₅, rfl, h₄, ?_⟩
    unfold Connect.encodeWillProperties at h₄
    rw [hw] at h₄
    -- a will header has no abbreviated form
    rcases Derived.hasSection (Connect.willHeader_sizes order w) h₄ (by omega) with habb | hsection
    · cases habb
    · exact hsection

theorem Publish.hasSection {p : Publish} (hsizes : SectionSizes order Publish.properties p)
    {body : Bytes} (h : p.encodeBody order = .ok body) (hlen : body.length ≤ 268435455) :
    HasSection order Publish.header Publish.properties p body := by
  unfold Publish.encodeBody at h
  obtain ⟨e₁, h₁, h⟩ := enc_bind_eq_ok.mp h
  obtain ⟨e₂, h₂, h⟩ := enc_bind_eq_ok.mp h
  cases h
  simp only [List.length_append] at hlen
  exact hasSection_of_encode hsizes h₁ h₂ (by omega)

/-- The body of a derived struct: `codec_size` bytes with its section among them. -/
theorem Derived.body_sizes {σ : Type} {d : Derived σ} {s : σ}
    (hnone : d.abbreviatedWhen.isSome = true → d.remaining = none) (hsizes : d.Sizes order s)
    {body : Bytes} (h : d.encodeBody order s = .ok body) (hlen : body.length ≤ 268435455) :
    d.codecSize order s = UInt32.ofNat body.length ∧
      (d.abbreviated order s = true ∨ HasSection order d.members d.properties s body) :=
  ⟨Derived.codecSize_eq hnone hsizes h hlen, Derived.hasSection hsizes h hlen⟩

theorem Derived.body_sizes_full {σ : Type} {d : Derived σ} {s : σ} (hfull : d.abbreviatedWhen = none)
    (hsizes : d.Sizes order s) {body : Bytes} (h : d.encodeBody order s = .ok body)
    (hlen : body.length ≤ 268435455) :
    d.codecSize order s = UInt32.ofNat body.length ∧ HasSection order d.members d.properties s body := by
  obtain ⟨hsize, habb | hsection⟩ := Derived.body_sizes (by simp [hfull]) hsizes h hlen
  · simp [Derived.abbreviated, hfull] at habb
  · exact ⟨hsize, hsection⟩

theorem Packet.body_sizes {p : Packet} {body : Bytes} (h : p.encodeBody order = .ok body)
    (hid : ∀ v, p.subscriptionId = some v → v ≤ maxVariableByteInt)
    (hlen : body.length ≤ 268435455) :
    p.codecSize order = UInt32.ofNat body.length ∧ p.HasSections order body := by
  cases p with
  | pingRequest p =>
      cases h
      exact ⟨rfl, rfl⟩
  | pingResponse p =>
      cases h
      exact ⟨rfl, rfl⟩
  | connect p => exact ⟨Connect.codecSize_eq h hlen, Connect.hasSections h hlen⟩
  | connAck p => exact Derived.body_sizes_full rfl ConnAck.allFit.sizes h hlen
  | publish p =>
      have hsizes : SectionSizes order Publish.properties p := Publish.sizes hid
      exact ⟨Publish.codecSize_eq hsizes h hlen, Publish.hasSection hsizes h hlen⟩
  | pubAck p => exact Derived.body_sizes (fun _ => rfl) PubResp.allFit.sizes h hlen
  | pubComp p => exact Derived.body_sizes (fun _ => rfl) PubResp.allFit.sizes h hlen
  | pubRec p => exact Derived.body_sizes (fun _ => rfl) PubResp.allFit.sizes h hlen
  | pubRel p => exact Derived.body_sizes (fun _ => rfl) PubResp.allFit.sizes h hlen
  | disconnect p => exact Derived.body_sizes (fun _ => rfl) Disconnect.allFit.sizes h hlen
  | subscribe p => exact Derived.body_sizes_full rfl (Subscribe.sizes hid) h hlen
  | subAck p => exact Derived.body_sizes_full rfl SubAck.allFit.sizes h hlen
  | unsubscribe p => exact Derived.body_sizes_full rfl Unsubscribe.allFit.sizes h hlen
  | unsubAck p => exact Derived.body_sizes_full rfl UnsubAck.allFit.sizes h hlen

/-- What `encode` writes: the first byte, `codec_size` as a variable byte integer, and
`codec_size` bytes, with `property_size` in front of as many bytes of properties. -/
theorem encode_sizes {p : Packet} {e : Bytes} (henc : p.encode order = .ok e)
    (hid : ∀ v, p.subscriptionId = some v → v ≤ maxVariableByteInt)
    (hbody : encodedLength (p.encodeBody order) ≤ maxVariableByteInt.toNat) :
    ∃ body, e = firstByte p.fixedHeader :: (varIntEncoding (p.codecSize order) ++ body) ∧
      body.length = (p.codecSize order).toNat ∧ p.HasSections order body := by
  rw [Packet.encode_eq] at henc
  obtain ⟨body, hwritten, rfl⟩ := encodePacket_eq_ok henc
  have hlen : body.length ≤ 268435455 := by
    rw [hwritten, encodedLength_ok] at hbody
    exact hbody
  obtain ⟨hsize, hsections⟩ := Packet.body_sizes hwritten hid hlen
  refine ⟨body, rfl, ?_, hsections⟩
  rw [hsize, UInt32.toNat_ofNat']
  exact (Nat.mod_eq_of_lt (by omega)).symm

/-- A PUBLISH with the largest subscription identifier, which no decoder here accepts. -/
theorem publish_sizes_of_largest_id :
    let p : Packet := .publish
      { Publish.default with
        topicName := "a", subscriptionIdentifiers := some maxVariableByteInt, payload := some [0x70] }
    ∃ body, [0x30, 0x0a, 0x00, 0x01, 0x61, 0x05, 0x0b, 0xff, 0xff, 0xff, 0x7f, 0x70] =
        firstByte p.fixedHeader :: (varIntEncoding (p.codecSize .sorted) ++ body) ∧
      body.length = (p.codecSize .sorted).toNat ∧ p.HasSections .sorted body := by
  intro p
  refine encode_sizes (by decide +kernel) ?_ (by decide +kernel)
  intro v hv
  cases hv
  decide

end

end Mqtt
end Vaux
