import Vaux.Mqtt.ConnectRoundTrip
import Vaux.Mqtt.Reference

/-!
# The properties of the specification as items of the tables

The property tables of `Connect` and `WillHeader` have exactly the properties that the
specification gives CONNECT and its will, with the identifiers and the types it gives them.  So
a property section of the reference is one that the decoder goes through, in whatever order its
properties come, and the section that the encoder writes is one of the reference.
-/

namespace Vaux
namespace Mqtt

open Wire Decoder

namespace Reference

/-! ## Data types -/

theorem variableBytes_eq {n k : Nat} {v : UInt32} (h : v.toNat < 128 ^ (n + 1)) (hk : n ≤ k) :
    variableBytes (n + 1) v.toNat = encodeVariableByteIntLoop (k + 1) v := by
  induction n generalizing k v with
  | zero =>
      have hzero : v.toNat / 128 = 0 := by omega
      have hshift : ¬ v >>> 7 > 0 := by
        rw [gt_iff_lt, UInt32.lt_iff_toNat_lt, shiftRight7_toNat, hzero]
        exact Nat.lt_irrefl 0
      have hbyte : UInt8.ofNat (v.toNat % 128) = (v % 0x80).toUInt8 := by
        rw [← low7_byte_toNat, UInt8.ofNat_toNat]
      simp only [variableBytes, encodeVariableByteIntLoop, hzero, hshift, Nat.lt_irrefl, if_false,
        hbyte]
  | succ n ih =>
      obtain ⟨k, rfl⟩ : ∃ j, k = j + 1 := ⟨k - 1, by omega⟩
      have hbyte : UInt8.ofNat (v.toNat % 128) = (v % 0x80).toUInt8 := by
        rw [← low7_byte_toNat, UInt8.ofNat_toNat]
      rw [variableBytes, encodeVariableByteIntLoop, hbyte]
      by_cases hmore : 0 < v.toNat / 128
      · have hshift : v >>> 7 > 0 := by
          rwa [gt_iff_lt, UInt32.lt_iff_toNat_lt, shiftRight7_toNat]
        have hlt : (v >>> 7).toNat < 128 ^ (n + 1) := by
          rw [shiftRight7_toNat, Nat.div_lt_iff_lt_mul (by omega), ← Nat.pow_succ]
          exact h
        have hrest := ih hlt (Nat.le_of_succ_le_succ hk)
        rw [shiftRight7_toNat] at hrest
        rw [if_pos hmore, if_pos hshift, hrest]
      · have hshift : ¬ v >>> 7 > 0 := by
          rwa [gt_iff_lt, UInt32.lt_iff_toNat_lt, shiftRight7_toNat]
        rw [if_neg hmore, if_neg hshift]

/-- The reference writes a number as the encoder does. -/
theorem variableByteInteger_eq {v : UInt32} {x : Nat} (hx : v.toNat = x) (hle : x ≤ 268435455) :
    variableByteInteger x = varIntEncoding v := by
  subst hx
  have hlt : v.toNat < 128 ^ (3 + 1) := by omega
  exact variableBytes_eq hlt (by decide)

theorem variableByteInteger_spec {x : Nat} (hle : x ≤ 268435455) :
    VarIntBytes (variableByteInteger x) ∧ varIntValue (variableByteInteger x) = x ∧
      ((variableByteInteger x).length ≤ 3 ↔ x ≤ 2097151) ∧ (variableByteInteger x).length ≤ 4 := by
  have hnat : (UInt32.ofNat x).toNat = x := by
    rw [UInt32.toNat_ofNat']
    omega
  obtain ⟨hvar, hvalue, hlength⟩ := varIntEncoding_spec (UInt32.ofNat x)
  have hthree := hlength 2
  have hfour := hlength 3
  rw [hnat] at hvalue hthree hfour
  rw [variableByteInteger_eq hnat hle]
  exact ⟨hvar, hvalue, by omega, by omega⟩

theorem binaryData_eq (b : Bytes) : binaryData b = prefixed b := rfl

theorem utf8String_eq (s : String) : utf8String s = prefixed (utf8 s) := rfl

/-! ## Properties as items -/

/-- The properties `π` of the reference are the properties of the table. -/
structure Renders {σ π : Type} (ps : List (Property σ)) (item : π → Item σ) (entry : π → Entry) :
    Prop where
  mem : ∀ p, (item p).property ∈ ps
  encode : ∀ p, (entry p).value.Fits → (item p).encode = .ok (entry p).bytes
  carries : ∀ p, (entry p).value.Fits → (item p).Fits
  fits : ∀ p e, (item p).encode = .ok e → (entry p).value.Fits
  identifier : ∀ p, (entry p).identifier = (item p).property.propertyType.toU8
  complete : ∀ i, i.property ∈ ps → ∃ p, item p = i

def ConnectProperty.item : ConnectProperty → Item Connect
  | .sessionExpiryInterval v => ⟨Connect.properties.get ⟨0, by decide⟩, v⟩
  | .receiveMaximum v => ⟨Connect.properties.get ⟨1, by decide⟩, v⟩
  | .maximumPacketSize v => ⟨Connect.properties.get ⟨2, by decide⟩, v⟩
  | .topicAliasMaximum v => ⟨Connect.properties.get ⟨3, by decide⟩, v⟩
  | .requestResponseInformation b => ⟨Connect.properties.get ⟨4, by decide⟩, b⟩
  | .requestProblemInformation b => ⟨Connect.properties.get ⟨5, by decide⟩, b⟩
  | .authenticationMethod s => ⟨Connect.properties.get ⟨6, by decide⟩, s⟩
  | .authenticationData b => ⟨Connect.properties.get ⟨7, by decide⟩, b⟩
  | .userProperty name value => ⟨Connect.properties.get ⟨8, by decide⟩, (name, value)⟩

def WillProperty.item : WillProperty → Item WillHeader
  | .willDelayInterval v => ⟨WillHeader.properties.get ⟨0, by decide⟩, v⟩
  | .payloadFormatIndicator f => ⟨WillHeader.properties.get ⟨1, by decide⟩, f⟩
  | .messageExpiryInterval v => ⟨WillHeader.properties.get ⟨2, by decide⟩, v⟩
  | .contentType s => ⟨WillHeader.properties.get ⟨3, by decide⟩, s⟩
  | .responseTopic s => ⟨WillHeader.properties.get ⟨4, by decide⟩, s⟩
  | .correlationData b => ⟨WillHeader.properties.get ⟨5, by decide⟩, b⟩
  | .userProperty name value => ⟨WillHeader.properties.get ⟨6, by decide⟩, (name, value)⟩

theorem ConnectProperty.store_eq (c : Connect) (p : ConnectProperty) :
    store c p = p.item.property.member.apply c p.item.value := by
  cases p <;> rfl

theorem WillProperty.store_eq (w : WillHeader) (p : WillProperty) :
    store w p = p.item.property.member.apply w p.item.value := by
  cases p <;> rfl

theorem ConnectProperty.applyItems_map (l : List ConnectProperty) (c : Connect) :
    applyItems (l.map item) c = l.foldl store c := by
  rw [applyItems, List.foldl_map]
  exact congrArg (fun f => List.foldl f c l)
    (funext fun c => funext fun p => (store_eq c p).symm)

theorem Message.connect_eq (m : Message) :
    m.connect = applyItems (m.properties.map ConnectProperty.item) m.bare :=
  (ConnectProperty.applyItems_map m.properties m.bare).symm

theorem WillProperty.applyItems_map (l : List WillProperty) (w : WillHeader) :
    applyItems (l.map item) w = l.foldl store w := by
  rw [applyItems, List.foldl_map]
  exact congrArg (fun f => List.foldl f w l)
    (funext fun w => funext fun p => (store_eq w p).symm)

theorem Will.header_eq (w : Will) :
    w.header = applyItems (w.properties.map WillProperty.item) .default :=
  (WillProperty.applyItems_map w.properties .default).symm

theorem encodeString_of_fits {s : String} (h : (utf8 s).length ≤ 65535) :
    Codec.string.encode s = .ok (utf8String s) :=
  if_neg (Nat.not_lt.mpr h)

theorem encodeArrayField_of_fits {b : Bytes} (h : b.length ≤ 65535) :
    Codec.binary.encode b = .ok (binaryData b) :=
  if_neg (Nat.not_lt.mpr h)

theorem encodePair_of_fits {p : String × String}
    (h : (utf8 p.1).length ≤ 65535 ∧ (utf8 p.2).length ≤ 65535) :
    UserProperty.pairCodec.encode p = .ok (utf8String p.1 ++ utf8String p.2) := by
  show (do
    let e ← Codec.string.encode p.1
    let e' ← Codec.string.encode p.2
    .ok (e ++ e')) = _
  rw [encodeString_of_fits h.1, encodeString_of_fits h.2]
  rfl

theorem fits_of_encodePair {p : String × String} {e : Bytes}
    (h : UserProperty.pairCodec.encode p = .ok e) :
    (utf8 p.1).length ≤ 65535 ∧ (utf8 p.2).length ≤ 65535 := by
  obtain ⟨e₁, h₁, h⟩ := enc_bind_eq_ok.mp h
  obtain ⟨e₂, h₂, -⟩ := enc_bind_eq_ok.mp h
  exact ⟨(encodeString_eq_ok h₁).1, (encodeString_eq_ok h₂).1⟩

theorem encode_of_codec {σ : Type} {i : Item σ} {e : Bytes}
    (h : i.property.member.codec.encode i.value = .ok e) :
    i.encode = .ok (i.property.propertyType.toU8 :: e) := by
  rw [Item.encode, h]
  rfl

theorem ConnectProperty.renders :
    Renders Connect.properties ConnectProperty.item ConnectProperty.entry where
  mem p := by cases p <;> exact List.get_mem ..
  encode p h := by
    cases p with
    | authenticationMethod s => exact encode_of_codec (encodeString_of_fits h)
    | authenticationData b => exact encode_of_codec (encodeArrayField_of_fits h)
    | userProperty name value => exact encode_of_codec (encodePair_of_fits h)
    | requestResponseInformation b | requestProblemInformation b => cases b <;> rfl
    | _ => rfl
  carries p h := by
    cases p with
    | authenticationMethod s => exact ⟨trivial, _, encodeString_of_fits h⟩
    | authenticationData b => exact ⟨trivial, _, encodeArrayField_of_fits h⟩
    | userProperty name value => exact ⟨⟨trivial, trivial⟩, _, encodePair_of_fits h⟩
    | _ => exact ⟨trivial, _, rfl⟩
  fits p e h := by
    obtain ⟨e', he, -⟩ := Item.encode_eq_ok h
    cases p with
    | authenticationMethod s => exact (encodeString_eq_ok he).1
    | authenticationData b => exact (encodeArrayField_eq_ok he).1
    | userProperty name value => exact fits_of_encodePair he
    | _ => trivial
  identifier p := by cases p <;> rfl
  complete i hi := by
    obtain ⟨p, a⟩ := i
    simp only [Connect.properties, List.mem_cons, List.not_mem_nil, or_false] at hi
    rcases hi with rfl | rfl | rfl | rfl | rfl | rfl | rfl | rfl | rfl
    · exact ⟨.sessionExpiryInterval a, rfl⟩
    · exact ⟨.receiveMaximum a, rfl⟩
    · exact ⟨.maximumPacketSize a, rfl⟩
    · exact ⟨.topicAliasMaximum a, rfl⟩
    · exact ⟨.requestResponseInformation a, rfl⟩
    · exact ⟨.requestProblemInformation a, rfl⟩
    · exact ⟨.authenticationMethod a, rfl⟩
    · exact ⟨.authenticationData a, rfl⟩
    · exact ⟨.userProperty a.1 a.2, rfl⟩

theorem WillProperty.renders :
    Renders WillHeader.properties WillProperty.item WillProperty.entry where
  mem p := by cases p <;> exact List.get_mem ..
  encode p h := by
    cases p with
    | contentType s | responseTopic s => exact encode_of_codec (encodeString_of_fits h)
    | correlationData b => exact encode_of_codec (encodeArrayField_of_fits h)
    | userProperty name value => exact encode_of_codec (encodePair_of_fits h)
    | payloadFormatIndicator f => cases f <;> rfl
    | _ => rfl
  carries p h := by
    cases p with
    | contentType s | responseTopic s => exact ⟨trivial, _, encodeString_of_fits h⟩
    | correlationData b => exact ⟨trivial, _, encodeArrayField_of_fits h⟩
    | userProperty name value => exact ⟨⟨trivial, trivial⟩, _, encodePair_of_fits h⟩
    | _ => exact ⟨trivial, _, rfl⟩
  fits p e h := by
    obtain ⟨e', he, -⟩ := Item.encode_eq_ok h
    cases p with
    | contentType s | responseTopic s => exact (encodeString_eq_ok he).1
    | correlationData b => exact (encodeArrayField_eq_ok he).1
    | userProperty name value => exact fits_of_encodePair he
    | payloadFormatIndicator f => cases f <;> trivial
    | _ => trivial
  identifier p := by
    cases p with
    | payloadFormatIndicator f => cases f <;> rfl
    | _ => rfl
  complete i hi := by
    obtain ⟨p, a⟩ := i
    simp only [WillHeader.properties, List.mem_cons, List.not_mem_nil, or_false] at hi
    rcases hi with rfl | rfl | rfl | rfl | rfl | rfl | rfl
    · exact ⟨.willDelayInterval a, rfl⟩
    · exact ⟨.payloadFormatIndicator a, rfl⟩
    · exact ⟨.messageExpiryInterval a, rfl⟩
    · exact ⟨.contentType a, rfl⟩
    · exact ⟨.responseTopic a, rfl⟩
    · exact ⟨.correlationData a, rfl⟩
    · exact ⟨.userProperty a.1 a.2, rfl⟩

/-! ## Sections -/

theorem toU8_injective : Function.Injective PropertyType.toU8 := by
  intro t t' h
  have hok := congrArg PropertyType.tryFrom h
  rw [PropertyType.tryFrom_toU8, PropertyType.tryFrom_toU8] at hok
  cases hok
  rfl

/-- Of all types but the user property there is no more than one item. -/
def Single {σ : Type} (ps : List (Property σ)) : Prop :=
  ∀ p ∈ ps, p.propertyType ≠ .userProperty → ∀ order s, (p.member.items order s).length ≤ 1

theorem length_skipped_le {α : Type} [DecidableEq α] (a empty : α) :
    (if a = empty then [] else [a]).length ≤ 1 := by
  split
  · exact Nat.zero_le 1
  · exact Nat.le_refl 1

theorem single_connect : Single Connect.properties := by
  simp only [Single, Connect.properties, List.forall_mem_cons, List.not_mem_nil, false_imp_iff,
    implies_true, and_true]
  and_intros
  all_goals first
    | exact fun _ _ s => Option.length_toList_le
    | exact fun _ _ s => length_skipped_le s.authData []
    | exact fun h => absurd rfl h

theorem single_will : Single WillHeader.properties := by
  simp only [Single, WillHeader.properties, List.forall_mem_cons, List.not_mem_nil, false_imp_iff,
    implies_true, and_true]
  and_intros
  all_goals first
    | exact fun _ _ s => Option.length_toList_le
    | exact fun _ _ s => length_skipped_le s.correlationData []
    | exact fun h => absurd rfl h

/-- The types of the items that come once, in the order of the table. -/
theorem types_sublist {σ : Type} {ps : List (Property σ)} (hs : Single ps) (order : HashOrder)
    (self : σ) :
    (((propertyItems order ps self).map fun i => i.property.propertyType).filter
      (· ≠ .userProperty)).Sublist (ps.map Property.propertyType) := by
  induction ps with
  | nil => exact List.Sublist.refl _
  | cons p ps ih =>
      obtain ⟨hp, hps⟩ := List.forall_mem_cons.mp hs
      have hitems : propertyItems order (p :: ps) self =
          ((p.member.items order self).map fun a => ⟨p, a⟩) ++ propertyItems order ps self := rfl
      have hhead : List.Sublist ((((p.member.items order self).map fun a => (⟨p, a⟩ : Item σ)).map
          fun i => i.property.propertyType).filter (· ≠ .userProperty)) [p.propertyType] := by
        rw [List.map_map]
        by_cases huser : p.propertyType = .userProperty
        · rw [List.filter_eq_nil_iff.mpr]
          · exact List.nil_sublist _
          · intro t ht
            obtain ⟨a, -, rfl⟩ := List.mem_map.mp ht
            simpa using huser
        · refine List.filter_sublist.trans ?_
          have hone := hp huser order self
          cases hl : p.member.items order self with
          | nil => exact List.nil_sublist _
          | cons a rest =>
              rw [hl, List.length_cons] at hone
              rw [List.length_eq_zero_iff.mp (by omega : rest.length = 0)]
              exact List.Sublist.refl _
      rw [hitems, List.map_append, List.filter_append, List.map_cons]
      exact hhead.append (ih hps)

namespace Renders

variable {σ π : Type} {ps : List (Property σ)} {item : π → Item σ} {entry : π → Entry}

theorem encodeAll_eq (hr : Renders ps item entry) {l : List π}
    (hfit : ∀ e ∈ l.map entry, e.value.Fits) :
    encodeAll Item.encode (l.map item) = .ok ((l.map entry).flatMap Entry.bytes) := by
  induction l with
  | nil => rfl
  | cons p l ih =>
      obtain ⟨hp, hl⟩ := List.forall_mem_cons.mp hfit
      rw [List.map_cons, encodeAll, hr.encode p hp, ih hl]
      rfl

theorem fits_of_encodeAll (hr : Renders ps item entry) {l : List π} {e : Bytes}
    (h : encodeAll Item.encode (l.map item) = .ok e) : ∀ x ∈ l.map entry, x.value.Fits := by
  intro x hx
  obtain ⟨p, hp, rfl⟩ := List.mem_map.mp hx
  obtain ⟨e', he⟩ := encode_eq_ok_of_mem h (List.mem_map_of_mem hp)
  exact hr.fits p e' he

theorem exists_map (hr : Renders ps item entry) {items : List (Item σ)}
    (hmem : ∀ i ∈ items, i.property ∈ ps) : ∃ l : List π, l.map item = items := by
  induction items with
  | nil => exact ⟨[], rfl⟩
  | cons i items ih =>
      obtain ⟨hi, hitems⟩ := List.forall_mem_cons.mp hmem
      obtain ⟨p, rfl⟩ := hr.complete i hi
      obtain ⟨l, rfl⟩ := ih hitems
      exact ⟨p :: l, rfl⟩

/-- A section of the reference is one that the decoder goes through. -/
theorem sectionBytes (hr : Renders ps item entry) {l : List π}
    (hfit : ∀ e ∈ l.map entry, e.value.Fits)
    (hlen : ((l.map entry).flatMap Entry.bytes).length ≤ 2097151) :
    SectionBytes ps (l.map item) (propertySection (l.map entry)) where
  mem i hi := by
    obtain ⟨p, -, rfl⟩ := List.mem_map.mp hi
    exact hr.mem p
  fits i hi := by
    obtain ⟨p, hp, rfl⟩ := List.mem_map.mp hi
    exact hr.carries p (hfit _ (List.mem_map_of_mem hp))
  bytes := by
    obtain ⟨hvar, hvalue, hthree, -⟩ := variableByteInteger_spec (hlen.trans (by decide))
    have hprops := hr.encodeAll_eq hfit
    exact ⟨_, _, rfl, hvar, hthree.mpr hlen, by rw [hvalue, encodeItems_length hprops], hprops⟩

/-- The section that the encoder writes is one of the reference. -/
theorem eq_propertySection (hr : Renders ps item entry) {order : HashOrder} {self : σ}
    {l : List π} (hl : l.map item = propertyItems order ps self) {e : Bytes}
    (henc : propertyEncode order ps self = .ok e) (hlen : e.length ≤ 268435455) :
    e = propertySection (l.map entry) ∧ ∀ x ∈ l.map entry, x.value.Fits := by
  obtain ⟨props, hprops, rfl⟩ := propertyEncode_eq_ok henc
  rw [List.length_append] at hlen
  have hfit : ∀ x ∈ l.map entry, x.value.Fits := hr.fits_of_encodeAll (hl ▸ hprops)
  have hsizes : SectionSizes order ps self := by
    intro i hi
    rw [← hl] at hi
    obtain ⟨p, hp, rfl⟩ := List.mem_map.mp hi
    exact Codec.sizeAgrees_of_fits (hr.carries p (hfit _ (List.mem_map_of_mem hp))).1
  have hsize := propertySize_toNat_of_encode hsizes hprops (by omega)
  have hbytes := hr.encodeAll_eq hfit
  rw [hl, hprops] at hbytes
  cases hbytes
  rw [propertySection, variableByteInteger_eq hsize (by omega)]
  exact ⟨rfl, hfit⟩

/-- What the encoder writes of a table comes once, but for user properties. -/
theorem once (hr : Renders ps item entry) (ht : Table ps) (hs : Single ps) {order : HashOrder}
    {self : σ} {l : List π} (hl : l.map item = propertyItems order ps self) :
    (((l.map entry).filter fun e => e.identifier ≠ userIdentifier).map
      Entry.identifier).Nodup := by
  have hidentifiers : ((l.map entry).filter fun e => e.identifier ≠ userIdentifier).map
      Entry.identifier = (((propertyItems order ps self).map
        fun i => i.property.propertyType).filter (· ≠ .userProperty)).map PropertyType.toU8 := by
    rw [← hl]
    clear hl
    induction l with
    | nil => rfl
    | cons p l ih =>
        have huser : (entry p).identifier = userIdentifier ↔
            (item p).property.propertyType = .userProperty := by
          rw [hr.identifier]
          exact toU8_injective.eq_iff (b := .userProperty)
        rw [List.map_cons, List.map_cons, List.map_cons]
        by_cases h : (item p).property.propertyType = .userProperty
        · rw [List.filter_cons_of_neg (by simpa using huser.mpr h),
            List.filter_cons_of_neg (by simpa using h), ih]
        · rw [List.filter_cons_of_pos (by simpa using huser.not.mpr h),
            List.filter_cons_of_pos (by simpa using h), List.map_cons, List.map_cons, ih,
            hr.identifier]
  rw [hidentifiers]
  exact ((types_sublist hs order self).nodup ht.nodup).map toU8_injective

/-- The properties of a value, as the specification has them. -/
theorem exists_written (hr : Renders ps item entry) (ht : Table ps) (hs : Single ps)
    {order : HashOrder} {self : σ} {e : Bytes} (henc : propertyEncode order ps self = .ok e)
    (hlen : e.length ≤ 268435455) :
    ∃ l : List π, l.map item = propertyItems order ps self ∧ e = propertySection (l.map entry) ∧
      Admissible (l.map entry) := by
  have hmem : ∀ i ∈ propertyItems order ps self, i.property ∈ ps :=
    fun i hi => (mem_propertyItems.mp hi).1
  obtain ⟨l, hl⟩ := hr.exists_map hmem
  obtain ⟨he, hfit⟩ := hr.eq_propertySection hl henc hlen
  exact ⟨l, hl, he, hfit, hr.once ht hs hl⟩

end Renders

end Reference
end Mqtt
end Vaux
