import Vaux.Mqtt.ConnectRoundTrip
import Vaux.Mqtt.PublishRoundTrip

/-!
# Round trips

Every packet that carries user properties comes back from its bytes exactly if it is
`Sound`.  What user properties break is the pace of the property loop: four bytes too
many are counted for each pair, so that the loop stops before properties that follow
them.  Without user properties the loop keeps its pace, and the packet comes back
with the length of its bytes.
-/

namespace Vaux
namespace Mqtt

open Wire Decoder

/-! ## Sections that keep their pace -/

section

variable {σ : Type} {order : HashOrder} {ps : List (Property σ)} {self : σ}

/-- What is written is counted, each value with the bytes it takes. -/
def Steady (order : HashOrder) (ps : List (Property σ)) (self : σ) : Prop :=
  ∀ p ∈ ps, p.member.items order self = [] ∨ p.counted = true ∧ p.member.codec.extra = 0

theorem Steady.item (h : Steady order ps self) {i : Item σ}
    (hi : i ∈ propertyItems order ps self) :
    i.property.counted = true ∧ i.property.member.codec.extra = 0 := by
  obtain ⟨hp, hv⟩ := mem_propertyItems.mp hi
  rcases h i.property hp with hnil | hsteady
  · rw [hnil] at hv
    cases hv
  · exact hsteady

theorem Steady.itemsExtra_eq (h : Steady order ps self) :
    itemsExtra (propertyItems order ps self) = 0 := by
  refine List.sum_eq_zero fun x hx => ?_
  obtain ⟨i, hi, rfl⟩ := List.mem_map.mp hx
  exact (h.item hi).2

theorem Steady.charge_eq (h : Steady order ps self) {i : Item σ}
    (hi : i ∈ propertyItems order ps self) : i.charge = i.length := by
  obtain ⟨hcounted, hextra⟩ := h.item hi
  simp only [Item.charge, Item.length, Property.entry, hcounted, hextra, if_true]
  omega

theorem Steady.paced (h : Steady order ps self) : Paced (propertyItems order ps self) := by
  have hcharge : ∀ {items : List (Item σ)}, (∀ i ∈ items, i ∈ propertyItems order ps self) →
      itemsCharge items = itemsLength items := fun hmem =>
    congrArg List.sum (List.map_congr_left fun i hi => h.charge_eq (hmem i hi))
  refine ⟨?_, (hcharge fun i hi => hi).ge⟩
  intro front back heq hne
  rw [hcharge fun i hi => heq ▸ List.mem_append_left back hi, heq]
  cases back with
  | nil => exact absurd rfl hne
  | cons i back =>
      have := i.length_pos
      simp only [itemsLength, List.map_append, List.map_cons, List.sum_append, List.sum_cons]
      omega

theorem sectionFits_of_encode {e : Bytes} (h : propertyEncode order ps self = .ok e)
    (hfit : ∀ p ∈ ps, ∀ a ∈ p.member.items order self, p.member.codec.Fits a) :
    SectionFits order ps self := by
  obtain ⟨e₁, h₁, -⟩ := propertyEncode_eq_ok h
  intro i hi
  obtain ⟨hp, hv⟩ := mem_propertyItems.mp hi
  obtain ⟨e₂, h₂⟩ := encode_eq_ok_of_mem h₁ hi
  obtain ⟨e₃, h₃, -⟩ := Item.encode_eq_ok h₂
  exact ⟨hfit i.property hp i.value hv, e₃, h₃⟩

end

section

variable {σ : Type} {order : HashOrder} {t : PacketType} {d : Derived σ} {fresh self : σ}
  {packet : σ → Packet} {fixed : σ → FixedHeader}

/-- Where nothing is left out, a struct that was written fits. -/
theorem Derived.fits_of_encode {e : Bytes} (h : d.encodeBody order self = .ok e)
    (hfull : d.abbreviated order self = false) (hmembers : ∀ m ∈ d.members, ∀ a, m.codec.Fits a)
    (hprops : ∀ p ∈ d.properties, ∀ a ∈ p.member.items order self, p.member.codec.Fits a)
    (hrest : ∀ r, d.remaining = some r → ∀ a, r.codec.Fits a) : d.Fits order self := by
  obtain ⟨e₁, h₁, ⟨habb, -⟩ | ⟨-, e₂, h₂, -⟩⟩ := encodeBody_eq_ok h
  · rw [hfull] at habb
    cases habb
  obtain ⟨e₃, e₄, e₅, h₃, h₄, h₅, -⟩ := encodeFull_eq_ok h₂
  refine ⟨?_, sectionFits_of_encode h₄ hprops, ?_⟩
  · intro m hm
    rcases List.mem_append.mp hm with hm' | hm'
    · exact membersFit_of_encode h₁ (fun m' hm => hmembers m' (by simp [members, hm])) m hm'
    · exact membersFit_of_encode h₃ (fun m' hm => hmembers m' (by simp [members, hm])) m hm'
  · intro r hr a ha
    rw [encodeRemaining, hr] at h₅
    exact ⟨hrest r hr a, encode_eq_ok_of_mem h₅ ha⟩

/-- A struct with no codec that can write more than it reads. -/
structure Derived.AllFit (d : Derived σ) : Prop where
  members : ∀ m ∈ d.members, ∀ a, m.codec.Fits a
  properties : ∀ p ∈ d.properties, ∀ a, p.member.codec.Fits a
  remaining : ∀ r, d.remaining = some r → ∀ a, r.codec.Fits a

theorem Derived.AllFit.fits_of_encode (hall : d.AllFit) {e : Bytes}
    (h : d.encodeBody order self = .ok e) (hfull : d.abbreviated order self = false) :
    d.Fits order self :=
  Derived.fits_of_encode h hfull hall.members (fun p hp a _ => hall.properties p hp a)
    hall.remaining

theorem Derived.propertyLength_le_full {e : Bytes} (h : d.encodeBody order self = .ok e)
    (hfull : d.abbreviated order self = false) :
    propertyLength order d.properties self ≤ e.length := by
  obtain ⟨e₁, h₁, ⟨habb, -⟩ | ⟨-, e₂, h₂, rfl⟩⟩ := encodeBody_eq_ok h
  · rw [hfull] at habb
    cases habb
  obtain ⟨e₃, e₄, e₅, h₃, h₄, h₅, rfl⟩ := encodeFull_eq_ok h₂
  have := propertyLength_le_section h₄
  simp only [List.length_append]
  omega

/-- A struct whose section is steady comes back with the length of its bytes. -/
theorem Derived.Lawful.decode_of_steady (hd : DerivedBody t d fresh packet)
    (hl : d.Lawful fixed fresh) (hfresh : fixed fresh = .new t) {e : Bytes}
    (henc : d.encode order (fixed self) self = .ok e) (hfixed : fixed self = .new t)
    (hfits : d.Fits order self) (hbody : encodedLength (d.encodeBody order self) ≤ 2097151)
    {body : Bytes} (hle : propertyLength order d.properties self ≤ body.length)
    (hwritten : d.encodeBody order self = .ok body)
    (hsteady : Steady order d.properties self) (suffix : Bytes) :
    Mqtt.decode (e ++ suffix) = .ok (some (packet self, e.length)) := by
  have hshort := hbody
  rw [hwritten, encodedLength_ok] at hshort
  have hsound : d.Sound order self := ⟨hfits, hbody, hle.trans hshort, hsteady.paced⟩
  have hread := hl.decode_of_sound hd hfresh henc hfixed hsound suffix
  rwa [hsteady.itemsExtra_eq, Nat.add_zero] at hread

theorem Derived.Lawful.decode_iff_sound (hd : DerivedBody t d fresh packet)
    (hl : d.Lawful fixed fresh) (hfresh : fixed fresh = .new t) {e : Bytes}
    (henc : d.encode order (fixed self) self = .ok e) (suffix : Bytes) :
    (∃ n, Mqtt.decode (e ++ suffix) = .ok (some (packet self, n))) ↔
      fixed self = .new t ∧ d.Sound order self := by
  constructor
  · rintro ⟨n, h⟩
    exact hl.sound_of_decode hd hfresh henc h
  · rintro ⟨hfixed, hs⟩
    exact ⟨_, hl.decode_of_sound hd hfresh henc hfixed hs suffix⟩

end

/-! ## Packets with user properties -/

namespace Packet

/-- The packets that carry user properties, but for the answers to a PUBLISH. -/
def carriesUserProperties : Packet → Bool
  | .connect _ | .connAck _ | .publish _ | .disconnect _ | .subscribe _ | .subAck _
  | .unsubscribe _ | .unsubAck _ => true
  | _ => false

/-- The packet that comes back: an absent payload is an empty one. -/
def normal : Packet → Packet
  | .publish p => .publish p.withPayload
  | p => p

/-- What the codec asks of a packet that carries user properties. -/
def Sound (order : HashOrder) : Packet → Prop
  | .connect p => p.Sound order
  | .connAck p => p.fixedHeader = .new .connAck ∧ ConnAck.derived.Sound order p
  | .publish p => p.Sound order
  | .disconnect p => p.fixedHeader = .new .disconnect ∧ Disconnect.derived.Sound order p
  | .subscribe p => p.fixedHeader = .new .subscribe ∧ Subscribe.derived.Sound order p
  | .subAck p => p.fixedHeader = .new .subAck ∧ SubAck.derived.Sound order p
  | .unsubscribe p => p.fixedHeader = .new .unsubscribe ∧ Unsubscribe.derived.Sound order p
  | .unsubAck p => p.fixedHeader = .new .unsubAck ∧ UnsubAck.derived.Sound order p
  | _ => True

end Packet

/-- A packet that carries user properties comes back from its bytes, with anything
behind them, exactly if it is sound. -/
theorem decode_encode_iff_sound {order : HashOrder} {p : Packet}
    (hp : p.carriesUserProperties = true) {e : Bytes} (henc : p.encode order = .ok e)
    (suffix : Bytes) :
    (∃ n, decode (e ++ suffix) = .ok (some (p.normal, n))) ↔ p.Sound order := by
  cases p with
  | connect p =>
      constructor
      · rintro ⟨n, h⟩
        exact Connect.sound_of_decode henc h
      · intro hs
        exact Connect.decode_of_sound henc hs suffix
  | publish p =>
      constructor
      · rintro ⟨n, h⟩
        exact Publish.sound_of_decode henc h
      · intro hs
        exact ⟨_, Publish.decode_of_sound henc hs suffix⟩
  | connAck p => exact ConnAck.lawful.decode_iff_sound .connAck rfl henc suffix
  | disconnect p => exact Disconnect.lawful.decode_iff_sound .disconnect rfl henc suffix
  | subscribe p => exact Subscribe.lawful.decode_iff_sound .subscribe rfl henc suffix
  | subAck p => exact SubAck.lawful.decode_iff_sound .subAck rfl henc suffix
  | unsubscribe p => exact Unsubscribe.lawful.decode_iff_sound .unsubscribe rfl henc suffix
  | unsubAck p => exact UnsubAck.lawful.decode_iff_sound .unsubAck rfl henc suffix
  | _ => cases hp

/-- A CONNACK with an empty user property in front of a flag. -/
def overcounted : ConnAck :=
  { ConnAck.default with
    userProperties := UserProperty.new.add "" ""
    sharedSubscriptionAvailable := some true }

/-- The counter is at nine behind the user property, and the section has seven bytes. -/
theorem user_property_hides_flag :
    ∃ e p' n, (Packet.connAck overcounted).encode .sorted = .ok e ∧
      decode e = .ok (some (.connAck p', n)) ∧
      p'.userProperties = overcounted.userProperties ∧
      p'.sharedSubscriptionAvailable = none ∧
      overcounted.sharedSubscriptionAvailable = some true := by
  refine ⟨[0x20, 0x0a, 0x00, 0x00, 0x07, 0x26, 0x00, 0x00, 0x00, 0x00, 0x2a, 0x01],
    { overcounted with sharedSubscriptionAvailable := none }, 14, ?_, ?_, rfl, rfl, rfl⟩
  · decide +kernel
  · decide +kernel

/-- A CONNACK whose user property is the last one. -/
theorem connAck_user_property_last :
    let p : Packet := .connAck { ConnAck.default with userProperties := UserProperty.new.add "a" "b" }
    (∃ n, decode [0x20, 0x0a, 0x00, 0x00, 0x07, 0x26, 0x00, 0x01, 0x61, 0x00, 0x01, 0x62] =
      .ok (some (p.normal, n))) ∧ p.Sound .sorted := by
  intro p
  have henc : p.encode .sorted =
      .ok [0x20, 0x0a, 0x00, 0x00, 0x07, 0x26, 0x00, 0x01, 0x61, 0x00, 0x01, 0x62] := by
    decide +kernel
  have hiff := decode_encode_iff_sound rfl henc []
  have hread : ∃ n, decode ([0x20, 0x0a, 0x00, 0x00, 0x07, 0x26, 0x00, 0x01, 0x61, 0x00, 0x01, 0x62]
      ++ []) = .ok (some (p.normal, n)) := ⟨16, by decide +kernel⟩
  exact ⟨hread, hiff.mp hread⟩

/-! ## Packets without user properties -/

namespace Disconnect

/-- The bytes of the properties but for the user properties. -/
def propertyBytes (self : Disconnect) : Nat :=
  (self.sessionExpiryInterval.elim 0 fun _ => 5) +
    ((self.reasonString.elim 0 fun s => 3 + (utf8 s).length) +
      self.serverReference.elim 0 fun s => 3 + (utf8 s).length)

theorem propertySize_eq {order : HashOrder} {self : Disconnect}
    (huser : self.userProperties = .new) :
    Mqtt.propertySize order properties self = UInt32.ofNat self.propertyBytes := by
  have hstring : ∀ (s : Option String),
      (s.toList.map fun s => 1 + (2 + UInt32.ofNat (utf8 s).length)).sum =
        UInt32.ofNat (s.elim 0 fun s => 3 + (utf8 s).length) := by
    intro s
    cases s with
    | none => rfl
    | some s =>
        simp only [Option.toList_some, List.map_cons, List.map_nil, List.sum_cons, List.sum_nil,
          Option.elim_some, UInt32.ofNat_add, UInt32.add_zero, ← UInt32.add_assoc]
        rfl
  have hnumber : ∀ (n : Option UInt32), (n.toList.map fun _ => (1 : UInt32) + 4).sum =
      UInt32.ofNat (n.elim 0 fun _ => 5) := by
    intro n
    cases n <;> rfl
  have hsum : Mqtt.propertySize order properties self =
      (self.sessionExpiryInterval.toList.map fun _ => (1 : UInt32) + 4).sum +
        ((self.reasonString.toList.map fun s => 1 + (2 + UInt32.ofNat (utf8 s).length)).sum +
          (self.serverReference.toList.map
            fun s => 1 + (2 + UInt32.ofNat (utf8 s).length)).sum) := by
    simp only [Mqtt.propertySize, propertyItems, properties, List.flatMap_cons, List.flatMap_nil,
      List.map_append, List.sum_append, List.map_map, List.append_nil]
    have hpairs : self.userProperties.pairs order = [] := by rw [huser, UserProperty.pairs_new]
    show _ + (_ + (_ + ((self.userProperties.pairs order).map _).sum)) = _
    rw [hpairs]
    show _ + (_ + (_ + (0 : UInt32))) = _
    rw [UInt32.add_zero]
    rfl
  rw [hsum, hnumber, hstring, hstring, propertyBytes, UInt32.ofNat_add, UInt32.ofNat_add]

theorem items_of_abbreviated {order : HashOrder} {self : Disconnect}
    (huser : self.userProperties = .new) (hlen : self.propertyBytes ≤ 2097151)
    (habb : derived.abbreviated order self = true) : propertyItems order properties self = [] := by
  have hzero : Mqtt.propertySize order properties self = 0 := (lawful.abbreviated order self habb).1
  rw [propertySize_eq huser] at hzero
  have hbytes : self.propertyBytes = 0 := by
    have := congrArg UInt32.toNat hzero
    rw [UInt32.toNat_ofNat', Nat.mod_eq_of_lt (by omega)] at this
    exact this
  have hpairs : self.userProperties.pairs order = [] := by rw [huser, UserProperty.pairs_new]
  unfold propertyBytes at hbytes
  have hnone : self.sessionExpiryInterval = none ∧ self.reasonString = none ∧
      self.serverReference = none := by
    refine ⟨?_, ?_, ?_⟩
    · cases h : self.sessionExpiryInterval with
      | none => rfl
      | some n => simp [h] at hbytes
    · cases h : self.reasonString with
      | none => rfl
      | some s => simp [h] at hbytes
    · cases h : self.serverReference with
      | none => rfl
      | some s => simp [h] at hbytes
  obtain ⟨h₁, h₂, h₃⟩ := hnone
  refine List.flatMap_eq_nil_iff.mpr ?_
  simp only [properties, List.forall_mem_cons, List.not_mem_nil, false_imp_iff, implies_true,
    and_true, List.map_eq_nil_iff]
  exact ⟨by simp [Property.option, Member.option, h₁], by simp [Property.option, Member.option, h₂],
    by simp [Property.option, Member.option, h₃], hpairs⟩
end Disconnect

namespace Packet

/-- The packets that can be without user properties, with an empty map, the fixed header
of their constructor and lengths and identifiers of at most three bytes. -/
def Plain (order : HashOrder) : Packet → Prop
  | .pingRequest p => p.fixedHeader = .new .pingReq
  | .pingResponse p => p.fixedHeader = .new .pingResp
  | .publish p =>
    p.fixedHeader.packetType = .publish ∧ p.fixedHeader.flags &&& 0x0f = p.fixedHeader.flags ∧
      p.IdAgrees ∧ p.userProperties = .new ∧
      (∀ v, p.subscriptionIdentifiers = some v → v.toNat ≤ 2097151) ∧
      encodedLength (p.encodeBody order) ≤ 2097151
  | .subscribe p =>
    p.fixedHeader = .new .subscribe ∧ p.userProps = .new ∧
      (∀ v, p.subscriptionId = some v → v.toNat ≤ 2097151) ∧
      encodedLength (Subscribe.derived.encodeBody order p) ≤ 2097151
  | .subAck p =>
    p.fixedHeader = .new .subAck ∧ p.userProperties = .new ∧
      encodedLength (SubAck.derived.encodeBody order p) ≤ 2097151
  | .unsubscribe p =>
    p.fixedHeader = .new .unsubscribe ∧ p.props = .new ∧
      encodedLength (Unsubscribe.derived.encodeBody order p) ≤ 2097151
  | .unsubAck p =>
    p.fixedHeader = .new .unsubAck ∧ p.userProperties = .new ∧
      encodedLength (UnsubAck.derived.encodeBody order p) ≤ 2097151
  | .disconnect p =>
    p.fixedHeader = .new .disconnect ∧ p.userProperties = .new ∧ p.propertyBytes ≤ 2097151 ∧
      encodedLength (Disconnect.derived.encodeBody order p) ≤ 2097151
  | _ => False

end Packet

/-- A table all of whose values are counted, and rightly but for the user properties. -/
def UserTable {σ : Type} (ps : List (Property σ)) (get : σ → UserProperty) : Prop :=
  ∀ p ∈ ps, (∀ order s, get s = .new → p.member.items order s = []) ∨
    p.counted = true ∧ p.member.codec.extra = 0

theorem UserTable.steady {σ : Type} {ps : List (Property σ)} {get : σ → UserProperty}
    (h : UserTable ps get) {order : HashOrder} {self : σ} (hnew : get self = .new) :
    Steady order ps self := by
  intro p hp
  rcases h p hp with hitems | hsteady
  · exact .inl (hitems order self hnew)
  · exact .inr hsteady

theorem pairs_of_new {σ : Type} {get : σ → UserProperty} (order : HashOrder) (s : σ)
    (h : get s = .new) : (get s).pairs order = [] := by
  rw [h, UserProperty.pairs_new]

theorem Publish.userTable : UserTable Publish.properties (·.userProperties) := by
  simp only [UserTable, Publish.properties, List.forall_mem_cons, List.not_mem_nil, false_imp_iff,
    implies_true, and_true]
  and_intros <;> first | exact .inl pairs_of_new | exact .inr ⟨rfl, rfl⟩

theorem Subscribe.userTable : UserTable Subscribe.properties (·.userProps) := by
  simp only [UserTable, Subscribe.properties, List.forall_mem_cons, List.not_mem_nil, false_imp_iff,
    implies_true, and_true]
  and_intros <;> first | exact .inl pairs_of_new | exact .inr ⟨rfl, rfl⟩

theorem SubAck.userTable : UserTable SubAck.properties (·.userProperties) := by
  simp only [UserTable, SubAck.properties, List.forall_mem_cons, List.not_mem_nil, false_imp_iff,
    implies_true, and_true]
  and_intros <;> first | exact .inl pairs_of_new | exact .inr ⟨rfl, rfl⟩

theorem Unsubscribe.userTable : UserTable Unsubscribe.properties (·.props) := by
  simp only [UserTable, Unsubscribe.properties, List.forall_mem_cons, List.not_mem_nil, false_imp_iff,
    implies_true, and_true]
  exact .inl pairs_of_new

theorem UnsubAck.userTable : UserTable UnsubAck.properties (·.userProperties) := by
  simp only [UserTable, UnsubAck.properties, List.forall_mem_cons, List.not_mem_nil, false_imp_iff,
    implies_true, and_true]
  and_intros <;> first | exact .inl pairs_of_new | exact .inr ⟨rfl, rfl⟩

theorem Disconnect.userTable : UserTable Disconnect.properties (·.userProperties) := by
  simp only [UserTable, Disconnect.properties, List.forall_mem_cons, List.not_mem_nil, false_imp_iff,
    implies_true, and_true]
  and_intros <;> first | exact .inl pairs_of_new | exact .inr ⟨rfl, rfl⟩

theorem SubAck.allFit : SubAck.derived.AllFit where
  members := by
    simp only [Derived.members, SubAck.derived, List.append_nil, List.forall_mem_cons,
      List.not_mem_nil, false_imp_iff, implies_true, and_true]
    exact fun _ => trivial
  properties := by
    simp only [SubAck.derived, SubAck.properties, List.forall_mem_cons, List.not_mem_nil,
      false_imp_iff, implies_true, and_true]
    exact ⟨fun _ => trivial, fun _ => ⟨trivial, trivial⟩⟩
  remaining := by
    intro r hr a
    cases hr
    trivial

theorem Unsubscribe.allFit : Unsubscribe.derived.AllFit where
  members := by
    simp only [Derived.members, Unsubscribe.derived, List.append_nil, List.forall_mem_cons,
      List.not_mem_nil, false_imp_iff, implies_true, and_true]
    exact fun _ => trivial
  properties := by
    simp only [Unsubscribe.derived, Unsubscribe.properties, List.forall_mem_cons, List.not_mem_nil,
      false_imp_iff, implies_true, and_true]
    exact fun _ => ⟨trivial, trivial⟩
  remaining := by
    intro r hr a
    cases hr
    trivial

theorem UnsubAck.allFit : UnsubAck.derived.AllFit where
  members := by
    simp only [Derived.members, UnsubAck.derived, List.append_nil, List.forall_mem_cons,
      List.not_mem_nil, false_imp_iff, implies_true, and_true]
    exact fun _ => trivial
  properties := by
    simp only [UnsubAck.derived, UnsubAck.properties, List.forall_mem_cons, List.not_mem_nil,
      false_imp_iff, implies_true, and_true]
    exact ⟨fun _ => trivial, fun _ => ⟨trivial, trivial⟩⟩
  remaining := by
    intro r hr a
    cases hr
    trivial

theorem Disconnect.allFit : Disconnect.derived.AllFit where
  members := by
    simp only [Derived.members, Disconnect.derived, List.nil_append, List.forall_mem_cons,
      List.not_mem_nil, false_imp_iff, implies_true, and_true]
    exact fun _ => trivial
  properties := by
    simp only [Disconnect.derived, Disconnect.properties, List.forall_mem_cons, List.not_mem_nil,
      false_imp_iff, implies_true, and_true]
    exact ⟨fun _ => trivial, fun _ => trivial, fun _ => trivial, fun _ => ⟨trivial, trivial⟩⟩
  remaining := by simp [Disconnect.derived]

section

variable {order : HashOrder} {e : Bytes}

theorem Disconnect.fits_of_plain {p : Disconnect} (huser : p.userProperties = .new)
    (hlen : p.propertyBytes ≤ 2097151) (h : Disconnect.derived.encodeBody order p = .ok e) :
    Disconnect.derived.Fits order p ∧
      propertyLength order Disconnect.properties p ≤ e.length := by
  cases habb : Disconnect.derived.abbreviated order p with
  | true =>
      have hitems := Disconnect.items_of_abbreviated huser hlen habb
      refine ⟨⟨?_, ?_, by simp [Disconnect.derived]⟩, ?_⟩
      · intro m hm a _
        obtain rfl := List.mem_singleton.mp hm
        exact ⟨trivial, _, rfl⟩
      · simp [SectionFits, Disconnect.derived, hitems]
      · simp [propertyLength, hitems, itemsLength]
  | false =>
      exact ⟨Disconnect.allFit.fits_of_encode h habb, Derived.propertyLength_le_full h habb⟩

theorem Subscribe.fits_of_plain {p : Subscribe}
    (hid : ∀ v, p.subscriptionId = some v → v.toNat ≤ 2097151)
    (h : Subscribe.derived.encodeBody order p = .ok e) : Subscribe.derived.Fits order p := by
  refine Derived.fits_of_encode h rfl ?_ ?_ ?_
  · intro m hm a
    obtain rfl := List.mem_singleton.mp hm
    trivial
  · simp only [Subscribe.derived, Subscribe.properties, List.forall_mem_cons, List.not_mem_nil,
      false_imp_iff, implies_true, and_true]
    exact ⟨fun v hv => hid v (Option.mem_toList.mp hv), fun _ _ => ⟨trivial, trivial⟩⟩
  · intro r hr a
    cases hr
    exact ⟨trivial, trivial⟩

theorem Publish.fits_of_plain {p : Publish}
    (hid : ∀ v, p.subscriptionIdentifiers = some v → v.toNat ≤ 2097151)
    (h : p.encodeBody order = .ok e) : SectionFits order Publish.properties p := by
  obtain ⟨e₁, e₂, e₃, -, -, h₃, -⟩ := Publish.encodeBody_eq_ok h
  refine sectionFits_of_encode h₃ ?_
  simp only [Publish.properties, List.forall_mem_cons, List.not_mem_nil, false_imp_iff,
    implies_true, and_true]
  exact ⟨fun _ _ => trivial, fun _ _ => trivial, fun _ _ => trivial, fun _ _ => trivial,
    fun _ _ => trivial, fun v hv => hid v (Option.mem_toList.mp hv), fun _ _ => trivial,
    fun _ _ => ⟨trivial, trivial⟩⟩

end

theorem decode_ping {t : PacketType} {p : Packet} {e : Bytes}
    (henc : encodePacket (.new t) 0 (.ok []) = .ok e)
    (h : (decodeBody (.new t)).run [] = .ok ((p, 0), [])) (suffix : Bytes) :
    decode (e ++ suffix) = .ok (some (p, e.length)) := by
  obtain ⟨body, hbody, rfl⟩ := encodePacket_eq_ok henc
  cases hbody
  obtain ⟨hheader, hlegal⟩ := headerOf_firstByte_new t
  rw [decode_written suffix rfl (by simp) (by rwa [hheader]), hheader, h, Outcome.bind_ok]
  simp [Nat.add_comm]

/-- A packet without user properties comes back from its bytes, with anything behind
them, and with their number. -/
theorem decode_encode_of_plain {order : HashOrder} {p : Packet} (hp : p.Plain order) {e : Bytes}
    (henc : p.encode order = .ok e) (suffix : Bytes) :
    decode (e ++ suffix) = .ok (some (p.normal, e.length)) := by
  cases p with
  | pingRequest p =>
      obtain ⟨fixedHeader⟩ := p
      obtain rfl : fixedHeader = .new .pingReq := hp
      rw [Packet.encode] at henc
      exact decode_ping henc rfl suffix
  | pingResponse p =>
      obtain ⟨fixedHeader⟩ := p
      obtain rfl : fixedHeader = .new .pingResp := hp
      rw [Packet.encode] at henc
      exact decode_ping henc rfl suffix
  | publish p =>
      obtain ⟨htype, hflags, hagrees, huser, hid, hbody⟩ := hp
      obtain ⟨body, hwritten, -⟩ := encodePacket_eq_ok henc
      have hsteady : Steady order Publish.properties p := Publish.userTable.steady huser
      have hread := Publish.decode_of_sound henc
        ⟨htype, hflags, hagrees, Publish.fits_of_plain hid hwritten, hbody, hsteady.paced⟩ suffix
      rwa [hsteady.itemsExtra_eq, Nat.add_zero] at hread
  | subscribe p =>
      obtain ⟨hfixed, huser, hid, hbody⟩ := hp
      obtain ⟨body, hwritten, -⟩ := encodePacket_eq_ok henc
      exact Subscribe.lawful.decode_of_steady .subscribe rfl henc hfixed
        (Subscribe.fits_of_plain hid hwritten) hbody (Derived.propertyLength_le_full hwritten rfl)
        hwritten (Subscribe.userTable.steady huser) suffix
  | subAck p =>
      obtain ⟨hfixed, huser, hbody⟩ := hp
      obtain ⟨body, hwritten, -⟩ := encodePacket_eq_ok henc
      exact SubAck.lawful.decode_of_steady .subAck rfl henc hfixed (SubAck.allFit.fits_of_encode hwritten rfl)
        hbody (Derived.propertyLength_le_full hwritten rfl) hwritten (SubAck.userTable.steady huser)
        suffix
  | unsubscribe p =>
      obtain ⟨hfixed, huser, hbody⟩ := hp
      obtain ⟨body, hwritten, -⟩ := encodePacket_eq_ok henc
      exact Unsubscribe.lawful.decode_of_steady .unsubscribe rfl henc hfixed
        (Unsubscribe.allFit.fits_of_encode hwritten rfl) hbody (Derived.propertyLength_le_full hwritten rfl)
        hwritten (Unsubscribe.userTable.steady huser) suffix
  | unsubAck p =>
      obtain ⟨hfixed, huser, hbody⟩ := hp
      obtain ⟨body, hwritten, -⟩ := encodePacket_eq_ok henc
      exact UnsubAck.lawful.decode_of_steady .unsubAck rfl henc hfixed
        (UnsubAck.allFit.fits_of_encode hwritten rfl) hbody (Derived.propertyLength_le_full hwritten rfl)
        hwritten (UnsubAck.userTable.steady huser) suffix
  | disconnect p =>
      obtain ⟨hfixed, huser, hlen, hbody⟩ := hp
      obtain ⟨body, hwritten, -⟩ := encodePacket_eq_ok henc
      obtain ⟨hfits, hle⟩ := Disconnect.fits_of_plain huser hlen hwritten
      exact Disconnect.lawful.decode_of_steady .disconnect rfl henc hfixed hfits hbody hle hwritten
        (Disconnect.userTable.steady huser) suffix
  | _ => cases hp

/-- A SUBSCRIBE for one topic with a subscription identifier. -/
theorem subscribe_reads_back :
    let p : Packet := .subscribe
      { Subscribe.default with packetId := 1, subscriptionId := some 5, filter := [⟨"a", 1⟩] }
    p.Plain .sorted ∧ decode [0x82, 0x09, 0x00, 0x01, 0x02, 0x0b, 0x05, 0x00, 0x01, 0x61, 0x01] =
      .ok (some (p, 11)) := by
  intro p
  have hplain : p.Plain .sorted := by
    refine ⟨rfl, rfl, ?_, by decide +kernel⟩
    intro v hv
    cases hv
    decide
  exact ⟨hplain, decode_encode_of_plain hplain
    (e := [0x82, 0x09, 0x00, 0x01, 0x02, 0x0b, 0x05, 0x00, 0x01, 0x61, 0x01])
    (by decide +kernel) []⟩

end Mqtt
end Vaux
