import Vaux.Mqtt.PacketRoundTrip

/-!
# Binary properties of derived structs

A generated decoder adds the identifier of a `Vec<u8>` property to the counter of the
section, and its value to the other counter.  The loop is then behind, and goes on
when the section is at its end: CONNACK has `auth_data` and the will has
`correlation_data`.  Both are the last of their tables but for user properties, so
without these the section is paced exactly if there is no binary value.
-/

namespace Vaux
namespace Mqtt

open Wire Decoder

section

variable {σ : Type} {order : HashOrder} {ps : List (Property σ)} {self : σ}

/-- No value is counted with more bytes than it takes. -/
def Slack (order : HashOrder) (ps : List (Property σ)) (self : σ) : Prop :=
  ∀ p ∈ ps, p.member.items order self = [] ∨ p.member.codec.extra = 0

theorem Slack.charge_le (h : Slack order ps self) {i : Item σ}
    (hi : i ∈ propertyItems order ps self) : i.charge ≤ i.length := by
  obtain ⟨hp, hv⟩ := mem_propertyItems.mp hi
  rcases h i.property hp with hnil | hextra
  · rw [hnil] at hv
    cases hv
  · simp only [Item.charge, Item.length, Property.entry, hextra]
    split <;> omega

/-- A value that is not counted leaves the counter behind for good. -/
theorem Slack.not_paced (h : Slack order ps self) {i : Item σ}
    (hi : i ∈ propertyItems order ps self) (hcounted : i.property.counted = false)
    (hpos : 0 < encodedLength (i.property.member.codec.encode i.value)) :
    ¬ Paced (propertyItems order ps self) := by
  intro hpaced
  have hbehind : i.charge < i.length := by
    simp only [Item.charge, Item.length, Property.entry, hcounted, Bool.false_eq_true, if_false]
    omega
  have hlt : itemsCharge (propertyItems order ps self) < itemsLength (propertyItems order ps self) :=
    List.sum_lt_sum _ _ (fun j hj => h.charge_le hj) ⟨i, hi, hbehind⟩
  exact absurd hpaced.2 (by omega)

/-- A codec none of whose values takes more than a string can. -/
def Codec.Short {α : Type} (c : Codec α) : Prop := ∀ a, encodedLength (c.encode a) ≤ 65537

theorem Codec.short_string : Codec.string.Short := by
  intro s
  cases h : Codec.string.encode s with
  | error e => simp [encodedLength]
  | ok e =>
      obtain ⟨hlen, rfl⟩ := encodeString_eq_ok h
      rw [encodedLength_ok, prefixed_length]
      omega

theorem Codec.short_binary : Codec.binary.Short := by
  intro b
  cases h : Codec.binary.encode b with
  | error e => simp [encodedLength]
  | ok e =>
      obtain ⟨hlen, rfl⟩ := encodeArrayField_eq_ok h
      rw [encodedLength_ok, prefixed_length]
      omega

theorem Codec.short_of_eq {α : Type} {c : Codec α} (n : Nat)
    (h : ∀ a, encodedLength (c.encode a) = n) (hn : n ≤ 65537) : c.Short := fun a =>
  (h a).le.trans hn

theorem Property.option_short {α : Type} {t : PropertyType} {c : Codec α} {get : σ → Option α}
    {set : σ → Option α → σ} {lens} (hshort : c.Short) :
    ((Property.option t c get set lens).member.items order self).length ≤ 1 ∧
      (Property.option t c get set lens).member.codec.Short := by
  exact ⟨Option.length_toList_le, hshort⟩

theorem Property.vec_short {t : PropertyType} {counted : Bool} {get : σ → Bytes}
    {set : σ → Bytes → σ} {lens} :
    ((Property.vec t counted get set lens).member.items order self).length ≤ 1 ∧
      (Property.vec t counted get set lens).member.codec.Short := by
  refine ⟨?_, Codec.short_binary⟩
  show (if get self = [] then [] else [get self]).length ≤ 1
  split <;> simp

/-- Tables of which each property is written at most once have short sections. -/
theorem propertyLength_le_of_short
    (h : ∀ p ∈ ps, p.member.items order self = [] ∨
      (p.member.items order self).length ≤ 1 ∧ p.member.codec.Short) :
    propertyLength order ps self ≤ 65538 * ps.length := by
  induction ps with
  | nil => simp [propertyLength, propertyItems, itemsLength]
  | cons p ps ih =>
      have hrest := ih fun q hq => h q (by simp [hq])
      have hcons := weigh_cons Item.length order p ps self
      have hhead : ((p.member.items order self).map fun a => Item.length ⟨p, a⟩).sum ≤ 65538 := by
        rcases h p (by simp) with hnil | ⟨hone, hshort⟩
        · simp [hnil]
        · cases hitems : p.member.items order self with
          | nil => simp
          | cons a items =>
              have hsingle : items = [] := by
                rw [hitems] at hone
                simpa using hone
              have := hshort a
              simp only [hsingle, List.map_cons, List.map_nil, List.sum_cons, List.sum_nil, Item.length]
              omega
      simp only [weigh] at hcons
      simp only [propertyLength, itemsLength, List.length_cons] at hrest ⊢
      omega

end

theorem encodedLength_ok_pos {c : Bytes} {e : Bytes} (h : Codec.binary.encode c = .ok e) :
    0 < encodedLength (Codec.binary.encode c) := by
  obtain ⟨-, rfl⟩ := encodeArrayField_eq_ok h
  rw [h, encodedLength_ok, prefixed_length]
  omega

/-! ## CONNACK -/

namespace ConnAck

variable {order : HashOrder} {self : ConnAck}

theorem slack (h : self.userProperties = .new) : Slack order properties self := by
  have hpairs : self.userProperties.pairs order = [] := pairs_of_new order self h
  simp only [Slack, properties, List.forall_mem_cons, List.not_mem_nil, false_imp_iff,
    implies_true, and_true]
  and_intros <;> first | exact .inl hpairs | exact .inr rfl

theorem steady (h : self.userProperties = .new) (hdata : self.authData = []) :
    Steady order properties self := by
  have hpairs : self.userProperties.pairs order = [] := pairs_of_new order self h
  have hvec : (if self.authData = [] then [] else [self.authData]) = [] := if_pos hdata
  simp only [Steady, properties, List.forall_mem_cons, List.not_mem_nil, false_imp_iff,
    implies_true, and_true]
  and_intros <;> first | exact .inl hpairs | exact .inl hvec | exact .inr ⟨rfl, rfl⟩

theorem propertyLength_le (h : self.userProperties = .new) :
    propertyLength order properties self ≤ 65538 * 17 := by
  have hpairs : self.userProperties.pairs order = [] := pairs_of_new order self h
  refine propertyLength_le_of_short ?_
  simp only [properties, List.forall_mem_cons, List.not_mem_nil, false_imp_iff, implies_true,
    and_true]
  and_intros
  all_goals
    first
    | exact .inl hpairs
    | exact .inr Property.vec_short
    | exact .inr (Property.option_short Codec.short_string)
    | exact .inr (Property.option_short (Codec.short_of_eq 1 (fun _ => rfl) (by omega)))
    | exact .inr (Property.option_short (Codec.short_of_eq 2 (fun _ => rfl) (by omega)))
    | exact .inr (Property.option_short (Codec.short_of_eq 4 (fun _ => rfl) (by omega)))

theorem allFit : derived.AllFit where
  members := by
    simp only [Derived.members, derived, List.append_nil, List.forall_mem_cons, List.not_mem_nil,
      false_imp_iff, implies_true, and_true]
    exact ⟨fun _ => trivial, fun _ => trivial⟩
  properties := by
    simp only [derived, properties, List.forall_mem_cons, List.not_mem_nil, false_imp_iff,
      implies_true, and_true]
    and_intros <;> first | exact fun _ => trivial | exact fun _ => ⟨trivial, trivial⟩
  remaining := by simp [derived]

theorem encodeBody_le (h : self.userProperties = .new) :
    encodedLength (derived.encodeBody order self) ≤ 2097151 := by
  cases henc : derived.encodeBody order self with
  | error e => simp [encodedLength]
  | ok e =>
      have hle := Derived.encodeBody_length_le henc
      have hprops : propertyLength order properties self ≤ 65538 * 17 := propertyLength_le h
      have hmembers : membersLength order derived.members self = 2 := rfl
      have hrest : derived.remainingLength self = 0 := rfl
      have htable : derived.properties = properties := rfl
      rw [htable] at hle
      rw [encodedLength_ok]
      omega

/-- Without user properties the section is paced exactly if there is no `auth_data`. -/
theorem paced_iff (h : self.userProperties = .new) (hfits : derived.Fits order self) :
    Paced (propertyItems order properties self) ↔ self.authData = [] := by
  constructor
  · intro hpaced
    by_contra hdata
    let i : Item ConnAck :=
      ⟨.vec .authData false (·.authData) fun s v => { s with authData := v }, self.authData⟩
    have hi : i ∈ propertyItems order properties self := by
      refine mem_propertyItems.mpr ⟨by simp [i, properties], ?_⟩
      show self.authData ∈ if self.authData = [] then [] else [self.authData]
      rw [if_neg hdata]
      exact List.mem_singleton.mpr rfl
    obtain ⟨-, e, he⟩ := hfits.properties i hi
    exact (slack h).not_paced hi rfl (encodedLength_ok_pos he) hpaced
  · intro hdata
    exact (steady h hdata).paced

end ConnAck

/-! ## The will -/

namespace WillHeader

variable {order : HashOrder} {self : WillHeader}

theorem slack (h : self.userProperties = .new) : Slack order properties self := by
  have hpairs : self.userProperties.pairs order = [] := pairs_of_new order self h
  simp only [Slack, properties, List.forall_mem_cons, List.not_mem_nil, false_imp_iff,
    implies_true, and_true]
  and_intros <;> first | exact .inl hpairs | exact .inr rfl

theorem steady (h : self.userProperties = .new) (hdata : self.correlationData = []) :
    Steady order properties self := by
  have hpairs : self.userProperties.pairs order = [] := pairs_of_new order self h
  have hvec : (if self.correlationData = [] then [] else [self.correlationData]) = [] :=
    if_pos hdata
  simp only [Steady, properties, List.forall_mem_cons, List.not_mem_nil, false_imp_iff,
    implies_true, and_true]
  and_intros <;> first | exact .inl hpairs | exact .inl hvec | exact .inr ⟨rfl, rfl⟩

theorem propertyLength_le (h : self.userProperties = .new) :
    propertyLength order properties self ≤ 65538 * 7 := by
  have hpairs : self.userProperties.pairs order = [] := pairs_of_new order self h
  refine propertyLength_le_of_short ?_
  simp only [properties, List.forall_mem_cons, List.not_mem_nil, false_imp_iff, implies_true,
    and_true]
  and_intros
  all_goals
    first
    | exact .inl hpairs
    | exact .inr Property.vec_short
    | exact .inr (Property.option_short Codec.short_string)
    | exact .inr (Property.option_short (Codec.short_of_eq 1 (fun _ => rfl) (by omega)))
    | exact .inr (Property.option_short (Codec.short_of_eq 4 (fun _ => rfl) (by omega)))

theorem sectionFits_of_encode {e : Bytes} (h : propertyEncode order properties self = .ok e) :
    SectionFits order properties self := by
  refine Mqtt.sectionFits_of_encode h ?_
  simp only [properties, List.forall_mem_cons, List.not_mem_nil, false_imp_iff, implies_true,
    and_true]
  and_intros <;> first | exact fun _ _ => trivial | exact fun _ _ => ⟨trivial, trivial⟩

/-- Without user properties the section is paced exactly if there is no
`correlation_data`. -/
theorem paced_iff (h : self.userProperties = .new) (hfits : SectionFits order properties self) :
    Paced (propertyItems order properties self) ↔ self.correlationData = [] := by
  constructor
  · intro hpaced
    by_contra hdata
    let i : Item WillHeader :=
      ⟨.vec .correlationData false (·.correlationData)
        fun s v => { s with correlationData := v }, self.correlationData⟩
    have hi : i ∈ propertyItems order properties self := by
      refine mem_propertyItems.mpr ⟨by simp [i, properties], ?_⟩
      show self.correlationData ∈ if self.correlationData = [] then [] else [self.correlationData]
      rw [if_neg hdata]
      exact List.mem_singleton.mpr rfl
    obtain ⟨-, e, he⟩ := hfits i hi
    exact (slack h).not_paced hi rfl (encodedLength_ok_pos he) hpaced
  · intro hdata
    exact (steady h hdata).paced

/-- A will header that is read back leaves what follows it only if it is paced. -/
theorem decode_iff_paced {e : Bytes} (henc : derived.encodeBody order self = .ok e)
    (hlen : propertyLength order properties self ≤ 2097151) (rest : Bytes) :
    (∃ n, (derived.decode .default).run (e ++ rest) = .ok ((self, n), rest)) ↔
      Paced (propertyItems order properties self) := by
  rw [encodeBody_eq] at henc
  have hfits := sectionFits_of_encode henc
  rw [decode_eq]
  constructor
  · rintro ⟨n, h⟩
    rcases decodeProperties_inv lawful.table hfits henc hlen h with
      ⟨front, back, heq, hne, hle, hself⟩ | hpaced | ⟨-, hless⟩
    · have hdiffer := items_ne_of_early lawful.table lawful.optional (lawful.unset order) heq hne hle
      rw [← hself] at hdiffer
      exact absurd (fun _ _ => rfl) hdiffer
    · exact hpaced
    · omega
  · intro hpaced
    have hread := decodeProperties_reads unsupportedProperty lawful.table hfits henc hlen hpaced
      .default 0 rest
    have hrebuilt := Connect.willHeader_rebuilt order self
    simp only [derived, hrebuilt] at hread
    exact ⟨_, hread⟩

end WillHeader

/-- A CONNACK without user properties comes back exactly if it has no `auth_data`, and
a will header without user properties is read back in front of other bytes exactly if
it has no `correlation_data`. -/
theorem binary_round_trip_iff (order : HashOrder) :
    (∀ (p : ConnAck) (e suffix : Bytes), p.fixedHeader = .new .connAck →
      p.userProperties = .new → (Packet.connAck p).encode order = .ok e →
      ((∃ n, decode (e ++ suffix) = .ok (some (.connAck p, n))) ↔ p.authData = [])) ∧
    ∀ (w : WillHeader) (e rest : Bytes), w.userProperties = .new →
      WillHeader.derived.encodeBody order w = .ok e →
      ((∃ n, (WillHeader.derived.decode .default).run (e ++ rest) = .ok ((w, n), rest)) ↔
        w.correlationData = []) := by
  constructor
  · intro p e suffix hfixed huser henc
    obtain ⟨body, hbody, -⟩ := encodePacket_eq_ok henc
    have hfits := ConnAck.allFit.fits_of_encode hbody rfl
    have hlen : propertyLength order ConnAck.properties p ≤ 65538 * 17 :=
      ConnAck.propertyLength_le huser
    have hiff := ConnAck.lawful.decode_iff_sound .connAck rfl henc suffix
    rw [hiff, ← ConnAck.paced_iff huser hfits]
    constructor
    · rintro ⟨-, hsound⟩
      exact hsound.paced
    · intro hpaced
      refine ⟨hfixed, hfits, ConnAck.encodeBody_le huser, ?_, hpaced⟩
      simp only [ConnAck.derived]
      omega
  · intro w e rest huser henc
    have hlen : propertyLength order WillHeader.properties w ≤ 65538 * 7 :=
      WillHeader.propertyLength_le huser
    have hfits : SectionFits order WillHeader.properties w := by
      rw [WillHeader.encodeBody_eq] at henc
      exact WillHeader.sectionFits_of_encode henc
    rw [WillHeader.decode_iff_paced henc (by omega) rest, WillHeader.paced_iff huser hfits]

/-- A CONNACK with one byte of `auth_data`: behind the section the loop asks for another
identifier. -/
theorem auth_data_aborts :
    ∃ p : ConnAck, p.fixedHeader = .new .connAck ∧ p.userProperties = .new ∧
      (Packet.connAck p).encode .sorted =
        .ok [0x20, 0x07, 0x00, 0x00, 0x04, 0x16, 0x00, 0x01, 0xff] ∧
      decode [0x20, 0x07, 0x00, 0x00, 0x04, 0x16, 0x00, 0x01, 0xff] = .panic := by
  refine ⟨{ ConnAck.default with authData := [0xff] }, rfl, rfl, ?_, ?_⟩
  · decide +kernel
  · decide +kernel

theorem response_information_reads_back :
    let p : ConnAck := { ConnAck.default with responseInformation := some "r" }
    let w : WillHeader := { WillHeader.default with willDelay := some 5 }
    (∃ n, decode [0x20, 0x07, 0x00, 0x00, 0x04, 0x1a, 0x00, 0x01, 0x72] =
      .ok (some (.connAck p, n))) ∧
    ∃ n, (WillHeader.derived.decode .default).run
      [0x05, 0x18, 0x00, 0x00, 0x00, 0x05, 0x00, 0x01, 0x61] = .ok ((w, n), [0x00, 0x01, 0x61]) := by
  intro p w
  obtain ⟨hconnAck, hwill⟩ := binary_round_trip_iff .sorted
  exact ⟨(hconnAck p [0x20, 0x07, 0x00, 0x00, 0x04, 0x1a, 0x00, 0x01, 0x72] [] rfl rfl
      (by decide +kernel)).mpr rfl,
    (hwill w [0x05, 0x18, 0x00, 0x00, 0x00, 0x05] [0x00, 0x01, 0x61] rfl (by decide +kernel)).mpr
      rfl⟩

end Mqtt
end Vaux
