import Vaux.Mqtt.EncodedSize

/-!
# What packets are made of

`Packet.parts` lists the parts of a packet on the wire, from its fields alone and without the
arithmetic of `codec_size`.  The encoder is measured against it: it fails exactly if a string or
a byte string is too long for the two bytes in front of it, and what it writes is as long as the
parts together.
-/

namespace Vaux
namespace Mqtt

open Wire

/-! ## Parts -/

/-- Bytes on the wire: a number of them, or a number behind two bytes of length. -/
inductive Part where
  | fixed (n : Nat)
  | sized (n : Nat)

namespace Part

def length : Part → Nat
  | .fixed n => n
  | .sized n => 2 + n

def Fits : Part → Prop
  | .fixed _ => True
  | .sized n => n ≤ 65535

instance : DecidablePred Fits
  | .fixed _ => inferInstanceAs (Decidable True)
  | .sized n => inferInstanceAs (Decidable (n ≤ 65535))

end Part

def totalLength (parts : List Part) : Nat := (parts.map Part.length).sum

def PartsFit (parts : List Part) : Prop := ∀ x ∈ parts, x.Fits

instance (parts : List Part) : Decidable (PartsFit parts) :=
  inferInstanceAs (Decidable (∀ x ∈ parts, x.Fits))

theorem totalLength_append (parts parts' : List Part) :
    totalLength (parts ++ parts') = totalLength parts + totalLength parts' := by
  rw [totalLength, List.map_append, List.sum_append]
  rfl

theorem totalLength_cons (x : Part) (parts : List Part) :
    totalLength (x :: parts) = x.length + totalLength parts := by
  rw [totalLength, List.map_cons, List.sum_cons]
  rfl

theorem totalLength_flatMap {α : Type} (f : α → List Part) (l : List α) :
    totalLength (l.flatMap f) = (l.map fun a => totalLength (f a)).sum := by
  induction l with
  | nil => rfl
  | cons a l ih => rw [List.flatMap_cons, totalLength_append, ih, List.map_cons, List.sum_cons]

theorem partsFit_append {parts parts' : List Part} :
    PartsFit (parts ++ parts') ↔ PartsFit parts ∧ PartsFit parts' :=
  List.forall_mem_append

theorem partsFit_cons {x : Part} {parts : List Part} :
    PartsFit (x :: parts) ↔ x.Fits ∧ PartsFit parts :=
  List.forall_mem_cons

/-- The bytes a variable byte integer takes; beyond four bytes there are five. -/
def varIntLength (n : Nat) : Nat :=
  if n < 128 then 1
  else if n < 16384 then 2
  else if n < 2097152 then 3
  else if n < 268435456 then 4
  else 5

theorem varIntEncoding_length_eq (v : UInt32) :
    (varIntEncoding v).length = varIntLength v.toNat := by
  have hspec := (varIntEncoding_spec v).2.2
  have h1 := hspec 0
  have h2 := hspec 1
  have h3 := hspec 2
  have h4 := hspec 3
  have h5 := hspec 4
  have hlt := v.toNat_lt
  have hpos := varIntEncoding_length_pos v
  unfold varIntLength
  split_ifs <;> omega

/-- A property section: its length, then its parts. -/
def sectionParts (parts : List Part) : List Part :=
  .fixed (varIntLength (totalLength parts)) :: parts

/-! ## Encoders that write their parts -/

/-- The encoder fails exactly if a part does not fit, and writes as many bytes as the parts have,
if the sizes are `exact` and a variable byte integer can say the one number or the other. -/
structure Takes (exact : Prop) (x : Enc) (parts : List Part) : Prop where
  ok_iff : (∃ e, x = .ok e) ↔ PartsFit parts
  length : exact → ∀ e, x = .ok e → e.length ≤ 268435455 ∨ totalLength parts ≤ 268435455 →
    e.length = totalLength parts

/-- The size function counts the parts. -/
def Counts (exact : Prop) (size : UInt32) (parts : List Part) : Prop :=
  exact → size = UInt32.ofNat (totalLength parts)

section

variable {exact : Prop} {x : Enc} {parts parts' : List Part}

theorem takes_nil : Takes exact (.ok []) [] where
  ok_iff := ⟨fun _ => nofun, fun _ => ⟨[], rfl⟩⟩
  length _ e h _ := by
    cases h
    rfl

theorem enc_ok_bind (e : Bytes) (f : Bytes → Enc) : (Except.ok e >>= f) = f e := rfl

theorem takes_of_ok {e : Bytes} (h : x = .ok e) : Takes exact x [.fixed e.length] where
  ok_iff := ⟨fun _ y hy => by rw [List.mem_singleton.mp hy]; trivial, fun _ => ⟨e, h⟩⟩
  length _ e' he' _ := by
    cases h.symm.trans he'
    rfl

/-- One encoder after the other. -/
theorem Takes.bind {f : Bytes → Enc} (h : Takes exact x parts)
    (hf : ∀ e, x = .ok e → ∃ y, Takes exact y parts' ∧
      f e = (do
        let e' ← y
        .ok (e ++ e'))) : Takes exact (x >>= f) (parts ++ parts') where
  ok_iff := by
    rw [partsFit_append, ← h.ok_iff]
    constructor
    · rintro ⟨e', he'⟩
      obtain ⟨e, he, hfe⟩ := enc_bind_eq_ok.mp he'
      obtain ⟨y, hy, heq⟩ := hf e he
      rw [heq] at hfe
      obtain ⟨e₂, he₂, -⟩ := enc_bind_eq_ok.mp hfe
      exact ⟨⟨e, he⟩, hy.ok_iff.mp ⟨e₂, he₂⟩⟩
    · rintro ⟨⟨e, he⟩, hfit⟩
      obtain ⟨y, hy, heq⟩ := hf e he
      obtain ⟨e₂, he₂⟩ := hy.ok_iff.mpr hfit
      exact ⟨e ++ e₂, enc_bind_eq_ok.mpr ⟨e, he, by rw [heq, he₂]; rfl⟩⟩
  length hexact e' he' hle := by
    obtain ⟨e, he, hfe⟩ := enc_bind_eq_ok.mp he'
    obtain ⟨y, hy, heq⟩ := hf e he
    rw [heq] at hfe
    obtain ⟨e₂, he₂, hfe⟩ := enc_bind_eq_ok.mp hfe
    cases hfe
    rw [totalLength_append, List.length_append] at hle ⊢
    rw [h.length hexact e he (by omega), hy.length hexact e₂ he₂ (by omega)]

theorem Takes.seq {y : Enc} (h : Takes exact x parts) (h' : Takes exact y parts') :
    Takes exact (do
      let e ← x
      let e' ← y
      .ok (e ++ e')) (parts ++ parts') :=
  h.bind fun _ _ => ⟨y, h', rfl⟩

variable {α : Type*} {encode : α → Enc} {f : α → List Part}

theorem takes_encodeAll {l : List α} (h : ∀ a ∈ l, Takes exact (encode a) (f a)) :
    Takes exact (encodeAll encode l) (l.flatMap f) := by
  induction l with
  | nil => exact takes_nil
  | cons a l ih =>
      obtain ⟨ha, hl⟩ := List.forall_mem_cons.mp h
      exact ha.seq (ih hl)

theorem encodeAll_map {β : Type*} (g : β → α) (l : List β) :
    encodeAll encode (l.map g) = encodeAll (fun b => encode (g b)) l := by
  induction l with
  | nil => rfl
  | cons b l ih => rw [List.map_cons, encodeAll, encodeAll, ih]

theorem encodeAll_append_eq (l l' : List α) :
    encodeAll encode (l ++ l') = (do
      let e ← encodeAll encode l
      let e' ← encodeAll encode l'
      .ok (e ++ e')) := by
  induction l with
  | nil =>
      rw [List.nil_append, encodeAll]
      cases encodeAll encode l' <;> rfl
  | cons a l ih =>
      rw [List.cons_append, encodeAll, encodeAll, ih]
      cases encode a with
      | error x => rfl
      | ok e =>
          cases encodeAll encode l with
          | error x => rfl
          | ok e₁ =>
              cases encodeAll encode l' with
              | error x => rfl
              | ok e₂ => exact congrArg Except.ok (List.append_assoc e e₁ e₂).symm

end

/-! ## Fields -/

section

variable {exact : Prop} {α β : Type}

structure Codec.Takes (exact : Prop) (c : Codec α) (a : α) (parts : List Part) : Prop where
  takes : Mqtt.Takes exact (c.encode a) parts
  counts : Counts exact (c.size a) parts

namespace Codec

theorem takes_fixed {c : Codec α} {a : α} {e : Bytes} (hencode : c.encode a = .ok e)
    (hsize : c.size a = UInt32.ofNat e.length) : c.Takes exact a [.fixed e.length] where
  takes := takes_of_ok hencode
  counts _ := hsize

theorem takes_sized {c : Codec α} {a : α} {data : Bytes} {x : MqttCodecError}
    (hencode : c.encode a = if data.length > 65535 then .error x else .ok (prefixed data))
    (hsize : c.size a = 2 + UInt32.ofNat data.length) : c.Takes exact a [.sized data.length] where
  takes :=
    { ok_iff := by
        rw [hencode, PartsFit, List.forall_mem_singleton, Part.Fits]
        split
        · rename_i hlong
          exact ⟨fun ⟨e, he⟩ => (by cases he), fun hle => absurd hle (Nat.not_le.mpr hlong)⟩
        · rename_i hlong
          exact ⟨fun _ => Nat.not_lt.mp hlong, fun _ => ⟨_, rfl⟩⟩
      length := fun _ e he _ => by
        rw [hencode] at he
        split at he
        · cases he
        · cases he
          exact prefixed_length data }
  counts _ := by
    rw [hsize, totalLength, List.map_singleton, List.sum_singleton, Part.length, UInt32.ofNat_add]
    rfl

theorem takes_string (s : String) : string.Takes exact s [.sized (utf8 s).length] :=
  takes_sized rfl rfl

theorem takes_binary (b : Bytes) : binary.Takes exact b [.sized b.length] :=
  takes_sized rfl rfl

theorem takes_varInt {v : UInt32} (hle : exact → v ≤ maxVariableByteInt) :
    varInt.Takes exact v [.fixed (varIntLength v.toNat)] := by
  rw [← varIntEncoding_length_eq]
  exact
    { takes := takes_of_ok (encodeVariableByteInt_eq v)
      counts := fun hexact => varIntEncoding_size (hle hexact) }

theorem takes_seq {c : Codec α} {d : Codec β} {report : Nat → Nat → Nat} {extra : Nat} {hreport}
    {a : α} {b : β} {parts parts' : List Part} (h : c.Takes exact a parts)
    (h' : d.Takes exact b parts') :
    (Codec.seq c d report extra hreport).Takes exact (a, b) (parts ++ parts') where
  takes := h.takes.seq h'.takes
  counts hexact := by
    rw [totalLength_append, UInt32.ofNat_add, ← h.counts hexact, ← h'.counts hexact]
    rfl

theorem takes_iso {c : Codec α} {f : α → β} {g : β → α} {hgf} {hfg} {b : β} {parts : List Part}
    (h : c.Takes exact (g b) parts) : (c.iso f g hgf hfg).Takes exact b parts where
  takes := h.takes
  counts := h.counts

end Codec

end

section

variable {exact : Prop} {σ α : Type} {order : HashOrder} {self : σ}

def Member.Takes (exact : Prop) (order : HashOrder) (s : σ) (m : Member σ) (parts : List Part) :
    Prop :=
  Mqtt.Takes exact (m.encode order s) parts

structure Property.Takes (exact : Prop) (order : HashOrder) (s : σ) (p : Property σ)
    (parts : List Part) : Prop where
  takes : Mqtt.Takes exact
    (encodeAll Item.encode ((p.member.items order s).map fun a => ⟨p, a⟩)) parts
  counts : Counts exact ((p.member.items order s).map fun a => Item.size ⟨p, a⟩).sum parts

theorem Member.takes_of_items {m : Member σ} {f : m.α → List Part}
    (h : ∀ a ∈ m.items order self, m.codec.Takes exact a (f a)) :
    m.Takes exact order self ((m.items order self).flatMap f) :=
  takes_encodeAll fun a ha => (h a ha).takes

/-- A property has its identifier in front. -/
theorem Property.takes_of_items {p : Property σ} {f : p.member.α → List Part}
    (h : ∀ a ∈ p.member.items order self, p.member.codec.Takes exact a (f a)) :
    p.Takes exact order self ((p.member.items order self).flatMap fun a => .fixed 1 :: f a) where
  takes := by
    rw [encodeAll_map]
    refine takes_encodeAll fun a ha => ?_
    have hident : Mqtt.Takes exact (.ok [p.propertyType.toU8]) [.fixed 1] := takes_of_ok rfl
    exact hident.seq (h a ha).takes
  counts hexact := by
    have hone : ∀ a ∈ p.member.items order self,
        Item.size ⟨p, a⟩ = UInt32.ofNat (totalLength (.fixed 1 :: f a)) := by
      intro a ha
      rw [Item.size, (h a ha).counts hexact, totalLength_cons, UInt32.ofNat_add]
      rfl
    rw [sum_size_eq hone, totalLength_flatMap]

end

/-! ## Tables -/

/-- The parts of a property that is there or not. -/
def optionParts {α : Type} (f : α → List Part) (value : Option α) : List Part :=
  value.toList.flatMap fun a => .fixed 1 :: f a

def textParts (s : String) : List Part := [.sized (utf8 s).length]

/-- The parts of a property that is left out when it is empty. -/
def dataParts (b : Bytes) : List Part :=
  (if b = [] then [] else [b]).flatMap fun b => [.fixed 1, .sized b.length]

def userParts (order : HashOrder) (u : UserProperty) : List Part :=
  (u.pairs order).flatMap fun p => [.fixed 1, .sized (utf8 p.1).length, .sized (utf8 p.2).length]

section

variable {exact : Prop} {σ α : Type} {order : HashOrder} {self : σ} {t : PropertyType}

theorem takes_field {c : Codec α} {get : σ → α} {set : σ → α → σ} {lens} {parts : List Part}
    (h : c.Takes exact (get self) parts) :
    (Member.field c get set lens).Takes exact order self parts := by
  have htakes : (Member.field c get set lens).Takes exact order self
      ([get self].flatMap fun _ => parts) :=
    Member.takes_of_items fun a ha => by
      rw [List.mem_singleton.mp ha]
      exact h
  rwa [List.flatMap_singleton] at htakes

theorem takes_required {c : Codec α} {get : σ → α} {set : σ → α → σ} {lens} {parts : List Part}
    (h : c.Takes exact (get self) parts) :
    (Property.required t c get set lens).Takes exact order self (.fixed 1 :: parts) := by
  have htakes : (Property.required t c get set lens).Takes exact order self
      ([get self].flatMap fun _ => .fixed 1 :: parts) :=
    Property.takes_of_items fun a ha => by
      rw [List.mem_singleton.mp ha]
      exact h
  rwa [List.flatMap_singleton] at htakes

theorem takes_option {c : Codec α} {get : σ → Option α} {set : σ → Option α → σ} {lens}
    {f : α → List Part} (h : ∀ a, get self = some a → c.Takes exact a (f a)) :
    (Property.option t c get set lens).Takes exact order self (optionParts f (get self)) :=
  Property.takes_of_items fun a ha => h a (Option.mem_toList.mp ha)

theorem takes_vec {counted : Bool} {get : σ → Bytes} {set : σ → Bytes → σ} {lens} :
    (Property.vec t counted get set lens).Takes exact order self (dataParts (get self)) :=
  Property.takes_of_items fun a _ => Codec.takes_binary a

theorem takes_pair (a : String × String) : UserProperty.pairCodec.Takes exact a
    [.sized (utf8 a.1).length, .sized (utf8 a.2).length] := by
  unfold UserProperty.pairCodec
  exact Codec.takes_seq (Codec.takes_string a.1) (Codec.takes_string a.2)

theorem takes_userProperty {get : σ → UserProperty} {set : σ → UserProperty → σ} {lens} :
    (Property.userProperty get set lens).Takes exact order self (userParts order (get self)) :=
  Property.takes_of_items fun a _ => takes_pair a

theorem takes_members {ms : List (Member σ)} {parts : List (List Part)}
    (h : List.Forall₂ (Member.Takes exact order self) ms parts) :
    Takes exact (encodeAll (Member.encode order self) ms) parts.flatten := by
  induction h with
  | nil => exact takes_nil
  | cons hm _ ih => exact hm.seq ih

theorem takes_properties {ps : List (Property σ)} {parts : List (List Part)}
    (h : List.Forall₂ (Property.Takes exact order self) ps parts) :
    Takes exact (encodeAll Item.encode (propertyItems order ps self)) parts.flatten ∧
      Counts exact (propertySize order ps self) parts.flatten := by
  induction h with
  | nil => exact ⟨takes_nil, fun _ => rfl⟩
  | @cons p x ps parts hp _ ih =>
      constructor
      · have hitems : propertyItems order (p :: ps) self =
            ((p.member.items order self).map fun a => ⟨p, a⟩) ++ propertyItems order ps self := rfl
        rw [hitems, encodeAll_append_eq]
        exact hp.takes.seq ih.1
      · intro hexact
        have hsize : propertySize order (p :: ps) self =
            ((p.member.items order self).map fun a => Item.size ⟨p, a⟩).sum +
              propertySize order ps self := by
          simp only [propertySize, propertyItems, List.flatMap_cons, List.map_append,
            List.sum_append, List.map_map]
          rfl
        rw [hsize, hp.counts hexact, ih.2 hexact, List.flatten_cons, totalLength_append,
          UInt32.ofNat_add]

theorem takes_section {ps : List (Property σ)} {parts : List (List Part)}
    (h : List.Forall₂ (Property.Takes exact order self) ps parts) :
    Takes exact (propertyEncode order ps self) (sectionParts parts.flatten) := by
  obtain ⟨htakes, hcounts⟩ := takes_properties h
  refine ⟨?_, fun hexact e he hle => ?_⟩
  · rw [sectionParts, partsFit_cons, ← htakes.ok_iff]
    constructor
    · rintro ⟨e, he⟩
      obtain ⟨props, hprops, -⟩ := propertyEncode_eq_ok he
      exact ⟨trivial, props, hprops⟩
    · rintro ⟨-, props, hprops⟩
      exact ⟨_, by rw [propertyEncode, encodeVariableByteInt_eq, hprops]; rfl⟩
  · obtain ⟨props, hprops, rfl⟩ := propertyEncode_eq_ok he
    rw [sectionParts, totalLength_cons, Part.length, List.length_append] at hle ⊢
    have hlength := htakes.length hexact props hprops (by omega)
    have hsize : (propertySize order ps self).toNat = totalLength parts.flatten := by
      rw [hcounts hexact, UInt32.toNat_ofNat']
      omega
    rw [varIntEncoding_length_eq, hsize, hlength]

end

/-! ## The parts of the packets -/

def enumParts {α : Type} (_ : α) : List Part := [.fixed 1]

def u16Parts (_ : UInt16) : List Part := [.fixed 2]

def u32Parts (_ : UInt32) : List Part := [.fixed 4]

def varIntParts (v : UInt32) : List Part := [.fixed (varIntLength v.toNat)]

namespace ConnAck

def propertyParts (order : HashOrder) (self : ConnAck) : List (List Part) :=
  [optionParts u32Parts self.sessionExpiryInterval, optionParts u16Parts self.receiveMaximum,
    optionParts enumParts self.maximumQos, optionParts enumParts self.retainAvailable,
    optionParts u32Parts self.maximumPacketSize, optionParts textParts self.assignedClientId,
    optionParts u16Parts self.topicAliasMaximum, optionParts textParts self.reasonString,
    optionParts enumParts self.subscriptionIdentifierAvailable, userParts order self.userProperties,
    optionParts enumParts self.wildcardSubscriptionAvailable,
    optionParts enumParts self.sharedSubscriptionAvailable,
    optionParts u16Parts self.serverKeepAlive, optionParts textParts self.responseInformation,
    optionParts textParts self.serverReference, optionParts textParts self.authMethod,
    dataParts self.authData]

def parts (order : HashOrder) (self : ConnAck) : List Part :=
  [.fixed 1, .fixed 1] ++ sectionParts (self.propertyParts order).flatten

end ConnAck

namespace PubResp

def propertyParts (order : HashOrder) (self : PubResp) : List (List Part) :=
  [optionParts textParts self.reasonDesc, userParts order self.userProperties]

/-- Without a reason but success, and without properties, there is only the identifier. -/
def parts (order : HashOrder) (self : PubResp) : List Part :=
  .fixed 2 ::
    if self.reason.getD .success = .success ∧ (self.propertyParts order).flatten = [] then []
    else self.reason.toList.flatMap enumParts ++ sectionParts (self.propertyParts order).flatten

end PubResp

namespace Disconnect

def propertyParts (order : HashOrder) (self : Disconnect) : List (List Part) :=
  [optionParts u32Parts self.sessionExpiryInterval, optionParts textParts self.reasonString,
    optionParts textParts self.serverReference, userParts order self.userProperties]

def parts (order : HashOrder) (self : Disconnect) : List Part :=
  if self.reason = .success ∧ (self.propertyParts order).flatten = [] then []
  else .fixed 1 :: sectionParts (self.propertyParts order).flatten

end Disconnect

namespace Publish

def propertyParts (order : HashOrder) (self : Publish) : List (List Part) :=
  [optionParts u32Parts self.messageExpiry, optionParts enumParts self.payloadFormat,
    optionParts u16Parts self.topicAlias, optionParts textParts self.responseTopic,
    dataParts self.correlationData, optionParts varIntParts self.subscriptionIdentifiers,
    optionParts textParts self.contentType, userParts order self.userProperties]

def parts (order : HashOrder) (self : Publish) : List Part :=
  textParts self.topicName ++ self.packetId.toList.flatMap u16Parts ++
    sectionParts (self.propertyParts order).flatten ++ [.fixed (self.payload.getD []).length]

end Publish

namespace Subscribe

def propertyParts (order : HashOrder) (self : Subscribe) : List (List Part) :=
  [optionParts varIntParts self.subscriptionId, userParts order self.userProps]

def parts (order : HashOrder) (self : Subscribe) : List Part :=
  .fixed 2 :: sectionParts (self.propertyParts order).flatten ++
    self.filter.flatMap fun f => textParts f.filter ++ [.fixed 1]

end Subscribe

namespace SubAck

def propertyParts (order : HashOrder) (self : SubAck) : List (List Part) :=
  [optionParts textParts self.reason, userParts order self.userProperties]

def parts (order : HashOrder) (self : SubAck) : List Part :=
  .fixed 2 :: sectionParts (self.propertyParts order).flatten ++ self.reasonCodes.flatMap enumParts

end SubAck

namespace Unsubscribe

def propertyParts (order : HashOrder) (self : Unsubscribe) : List (List Part) :=
  [userParts order self.props]

def parts (order : HashOrder) (self : Unsubscribe) : List Part :=
  .fixed 2 :: sectionParts (self.propertyParts order).flatten ++ self.topics.flatMap textParts

end Unsubscribe

namespace UnsubAck

def propertyParts (order : HashOrder) (self : UnsubAck) : List (List Part) :=
  [.fixed 1 :: textParts self.reason, userParts order self.userProperties]

def parts (order : HashOrder) (self : UnsubAck) : List Part :=
  .fixed 2 :: sectionParts (self.propertyParts order).flatten ++ self.reasonCode.flatMap enumParts

end UnsubAck

def WillHeader.propertyParts (order : HashOrder) (self : WillHeader) : List (List Part) :=
  [optionParts u32Parts self.willDelay, optionParts enumParts self.payloadFormat,
    optionParts u32Parts self.messageExpiry, optionParts textParts self.contentType,
    optionParts textParts self.responseTopic, dataParts self.correlationData,
    userParts order self.userProperties]

namespace Connect

def propertyParts (order : HashOrder) (self : Connect) : List (List Part) :=
  [optionParts u32Parts self.sessionExpiryInterval, optionParts u16Parts self.receiveMaximum,
    optionParts u32Parts self.maxPacketSize, optionParts u16Parts self.topicAliasMaximum,
    optionParts enumParts self.requestResponseInfo, optionParts enumParts self.requestProblemInfo,
    optionParts textParts self.authMethod, dataParts self.authData,
    userParts order self.userProperties]

def willParts (order : HashOrder) (self : Connect) : List Part :=
  self.willProperties.elim [] fun w => sectionParts (w.propertyParts order).flatten

/-- The will payload, the user name and the password are left out when they are empty. -/
def tailParts (self : Connect) : List (List Part) :=
  [if self.willPayload = [] then [] else [.sized self.willPayload.length],
    self.willTopic.toList.flatMap textParts,
    if self.usernameField = "" then [] else textParts self.usernameField,
    if self.passwordField = [] then [] else [.sized self.passwordField.length]]

def parts (order : HashOrder) (self : Connect) : List Part :=
  textParts self.protocolName ++ [.fixed 1, .fixed 1, .fixed 2] ++
    sectionParts (self.propertyParts order).flatten ++ textParts self.clientId ++
    self.willParts order ++ self.tailParts.flatten

end Connect

namespace Packet

/-- What the body is made of, whatever its length. -/
def parts (order : HashOrder) : Packet → List Part
  | .pingRequest _ | .pingResponse _ => []
  | .connect p => p.parts order
  | .connAck p => p.parts order
  | .publish p => p.parts order
  | .pubAck p | .pubComp p | .pubRec p | .pubRel p => p.parts order
  | .disconnect p => p.parts order
  | .subscribe p => p.parts order
  | .subAck p => p.parts order
  | .unsubscribe p => p.parts order
  | .unsubAck p => p.parts order

def bodyLength (order : HashOrder) (p : Packet) : Nat := totalLength (p.parts order)

/-- The encoder stops behind the header fields. -/
def abbreviated (order : HashOrder) : Packet → Bool
  | .pubAck p | .pubComp p | .pubRec p | .pubRel p => PubResp.derived.abbreviated order p
  | .disconnect p => Disconnect.derived.abbreviated order p
  | _ => false

/-- A string or a byte string that the encoder comes to is longer than its length prefix can
say. -/
def Overlong (order : HashOrder) (p : Packet) : Prop :=
  p.abbreviated order = false ∧ ¬ PartsFit (p.parts order)

end Packet

/-! ## The encoders write their parts -/

section

variable {exact : Prop} {order : HashOrder}

namespace Codec

theorem takes_u8 (v : UInt8) : u8.Takes exact v [.fixed 1] :=
  takes_fixed (e := [v]) rfl rfl

theorem takes_u16 (v : UInt16) : u16.Takes exact v (u16Parts v) :=
  takes_fixed (e := putU16 v) rfl rfl

theorem takes_u32 (v : UInt32) : u32.Takes exact v (u32Parts v) :=
  takes_fixed (e := putU32 v) rfl rfl

theorem takes_enum {α : Type} {tryFrom : UInt8 → Except MqttCodecError α} {toU8 : α → UInt8}
    {roundTrip refuses} (a : α) :
    (Codec.enum tryFrom toU8 roundTrip refuses).Takes exact a (enumParts a) :=
  takes_fixed (e := [toU8 a]) rfl rfl

theorem takes_reason (r : Reason) : reason.Takes exact r (enumParts r) :=
  takes_fixed (e := [r.toU8]) rfl rfl

end Codec

/-- The parts of a derived struct that is not abbreviated. -/
theorem Derived.takes_body {σ : Type} {d : Derived σ} {self : σ}
    (front back props : List (List Part)) (rest : List Part) {parts : List Part}
    (hparts : parts = front.flatten ++ (back.flatten ++ sectionParts props.flatten ++ rest))
    (hfull : d.abbreviated order self = false)
    (hfront : List.Forall₂ (Member.Takes exact order self) d.header front)
    (hback : List.Forall₂ (Member.Takes exact order self) d.nonAbbreviated back)
    (hprops : List.Forall₂ (Property.Takes exact order self) d.properties props)
    (hrest : Takes exact (d.encodeRemaining self) rest) :
    Takes exact (d.encodeBody order self) parts := by
  rw [hparts]
  refine (takes_members hfront).bind fun e he => ⟨d.encodeFull order self, ?_, by simp [hfull]⟩
  refine List.append_assoc .. ▸ (takes_members hback).bind fun e₁ _ => ?_
  refine ⟨_, (takes_section hprops).seq hrest, ?_⟩
  cases propertyEncode order d.properties self with
  | error x => rfl
  | ok e₂ =>
      cases d.encodeRemaining self with
      | error x => rfl
      | ok e₃ => exact congrArg Except.ok (List.append_assoc e₁ e₂ e₃)

theorem ConnAck.takes (self : ConnAck) :
    Takes exact (derived.encodeBody order self) (self.parts order) := by
  refine Derived.takes_body [[.fixed 1], [.fixed 1]] [] (self.propertyParts order) []
    (by simp [parts]) rfl ?_ .nil ?_ takes_nil
  · exact .cons (takes_field (Codec.takes_u8 _)) (.cons (takes_field (Codec.takes_enum _)) .nil)
  · unfold derived properties propertyParts
    repeat' apply List.Forall₂.cons
    all_goals first
      | exact takes_option fun a _ => Codec.takes_u32 a
      | exact takes_option fun a _ => Codec.takes_u16 a
      | exact takes_option fun a _ => Codec.takes_enum a
      | exact takes_option fun a _ => Codec.takes_string a
      | exact takes_userProperty
      | exact takes_vec
      | exact .nil

theorem PubResp.takes_properties (self : PubResp) :
    List.Forall₂ (Property.Takes exact order self) properties (self.propertyParts order) :=
  .cons (takes_option fun a _ => Codec.takes_string a) (.cons takes_userProperty .nil)

theorem Disconnect.takes_properties (self : Disconnect) :
    List.Forall₂ (Property.Takes exact order self) properties (self.propertyParts order) :=
  .cons (takes_option fun a _ => Codec.takes_u32 a)
    (.cons (takes_option fun a _ => Codec.takes_string a)
      (.cons (takes_option fun a _ => Codec.takes_string a) (.cons takes_userProperty .nil)))

theorem SubAck.takes (self : SubAck) :
    Takes exact (derived.encodeBody order self) (self.parts order) :=
  Derived.takes_body [[.fixed 2]] [] (self.propertyParts order)
    (self.reasonCodes.flatMap enumParts) (by simp [parts]) rfl
    (.cons (takes_field (Codec.takes_u16 _)) .nil) .nil
    (.cons (takes_option fun a _ => Codec.takes_string a) (.cons takes_userProperty .nil))
    (takes_encodeAll fun a _ => (Codec.takes_reason a).takes)

theorem UnsubAck.takes (self : UnsubAck) :
    Takes exact (derived.encodeBody order self) (self.parts order) :=
  Derived.takes_body [[.fixed 2]] [] (self.propertyParts order)
    (self.reasonCode.flatMap enumParts) (by simp [parts]) rfl
    (.cons (takes_field (Codec.takes_u16 _)) .nil) .nil
    (.cons (takes_required (Codec.takes_string _)) (.cons takes_userProperty .nil))
    (takes_encodeAll fun a _ => (Codec.takes_reason a).takes)

theorem Unsubscribe.takes (self : Unsubscribe) :
    Takes exact (derived.encodeBody order self) (self.parts order) :=
  Derived.takes_body [[.fixed 2]] [] (self.propertyParts order) (self.topics.flatMap textParts)
    (by simp [parts]) rfl
    (.cons (takes_field (Codec.takes_u16 _)) .nil) .nil
    (.cons takes_userProperty .nil) (takes_encodeAll fun a _ => (Codec.takes_string a).takes)

/-- The identifier is counted as it is written if it fits. -/
theorem takes_subscriptionId {σ : Type} {self : σ} {t : PropertyType} {get : σ → Option UInt32}
    {set : σ → Option UInt32 → σ} {lens}
    (hid : exact → ∀ v, get self = some v → v ≤ maxVariableByteInt) :
    (Property.option t .varInt get set lens).Takes exact order self
      (optionParts varIntParts (get self)) :=
  takes_option fun v hv => Codec.takes_varInt fun hexact => hid hexact v hv

theorem SubscriptionFilter.takes (f : SubscriptionFilter) :
    codec.Takes exact f (textParts f.filter ++ [.fixed 1]) := by
  unfold codec
  exact Codec.takes_iso (Codec.takes_seq (Codec.takes_string f.filter) (Codec.takes_u8 f.options))

theorem Subscribe.takes (self : Subscribe)
    (hid : exact → ∀ v, self.subscriptionId = some v → v ≤ maxVariableByteInt) :
    Takes exact (derived.encodeBody order self) (self.parts order) :=
  Derived.takes_body [[.fixed 2]] [] (self.propertyParts order)
    (self.filter.flatMap fun f => textParts f.filter ++ [.fixed 1]) (by simp [parts]) rfl
    (.cons (takes_field (Codec.takes_u16 _)) .nil) .nil
    (.cons (takes_subscriptionId hid) (.cons takes_userProperty .nil))
    (takes_encodeAll fun f _ => (SubscriptionFilter.takes f).takes)

theorem Publish.takes (self : Publish)
    (hid : exact → ∀ v, self.subscriptionIdentifiers = some v → v ≤ maxVariableByteInt) :
    Takes exact (self.encodeBody order) (self.parts order) := by
  have hheader : List.Forall₂ (Member.Takes exact order self) header
      [textParts self.topicName, self.packetId.toList.flatMap u16Parts] :=
    .cons (takes_field (Codec.takes_string _))
      (.cons (Member.takes_of_items fun a _ => Codec.takes_u16 a) .nil)
  have hprops : List.Forall₂ (Property.Takes exact order self) properties
      (self.propertyParts order) := by
    unfold properties propertyParts
    repeat' apply List.Forall₂.cons
    all_goals first
      | exact takes_option fun a _ => Codec.takes_u32 a
      | exact takes_option fun a _ => Codec.takes_u16 a
      | exact takes_option fun a _ => Codec.takes_enum a
      | exact takes_option fun a _ => Codec.takes_string a
      | exact takes_subscriptionId hid
      | exact takes_userProperty
      | exact takes_vec
      | exact .nil
  have hpayload : Takes exact (.ok (self.payload.getD [])) [.fixed (self.payload.getD []).length] :=
    takes_of_ok rfl
  have hparts : self.parts order =
      [textParts self.topicName, self.packetId.toList.flatMap u16Parts].flatten ++
      (sectionParts (self.propertyParts order).flatten ++ [.fixed (self.payload.getD []).length]) := by
    simp [parts]
  rw [hparts]
  refine (takes_members hheader).bind fun e _ => ⟨_, (takes_section hprops).seq hpayload, ?_⟩
  cases propertyEncode order properties self with
  | error x => rfl
  | ok e' => exact congrArg Except.ok (List.append_assoc e e' _)

theorem WillHeader.takes (self : WillHeader) :
    Takes exact (derived.encodeBody order self)
      (sectionParts (self.propertyParts order).flatten) := by
  refine Derived.takes_body [] [] (self.propertyParts order) [] (by simp) rfl .nil .nil ?_ takes_nil
  unfold derived properties propertyParts
  repeat' apply List.Forall₂.cons
  all_goals first
    | exact takes_option fun a _ => Codec.takes_u32 a
    | exact takes_option fun a _ => Codec.takes_enum a
    | exact takes_option fun a _ => Codec.takes_string a
    | exact takes_userProperty
    | exact takes_vec
    | exact .nil

theorem takes_skipIfEmpty {σ α : Type} [DecidableEq α] {self : σ} {c : Codec α} {empty : α}
    {get : σ → α} {set : σ → α → σ} {lens} {parts : List Part}
    (h : c.Takes exact (get self) parts) :
    (Member.skipIfEmpty c empty get set lens).Takes exact order self
      (if get self = empty then [] else parts) := by
  by_cases hempty : get self = empty
  · have hitems : (Member.skipIfEmpty c empty get set lens).items order self = [] := if_pos hempty
    rw [Member.Takes, Member.encode, hitems, if_pos hempty]
    exact takes_nil
  · have hitems : (Member.skipIfEmpty c empty get set lens).items order self = [get self] :=
      if_neg hempty
    rw [Member.Takes, Member.encode, hitems, if_neg hempty]
    have htakes : Takes exact (encodeAll c.encode [get self]) ([get self].flatMap fun _ => parts) :=
      takes_encodeAll fun a ha => by
        rw [List.mem_singleton.mp ha]
        exact h.takes
    rwa [List.flatMap_singleton] at htakes

theorem Connect.takes (self : Connect) :
    Takes exact (self.encodeBody order) (self.parts order) := by
  have hheader : List.Forall₂ (Member.Takes exact order self) header
      [textParts self.protocolName, [.fixed 1], [.fixed 1], [.fixed 2]] :=
    .cons (takes_field (Codec.takes_string _)) (.cons (takes_field (Codec.takes_u8 _))
      (.cons (takes_field (Codec.takes_u8 _)) (.cons (takes_field (Codec.takes_u16 _)) .nil)))
  have hprops : List.Forall₂ (Property.Takes exact order self) properties
      (self.propertyParts order) := by
    unfold properties propertyParts
    repeat' apply List.Forall₂.cons
    all_goals first
      | exact takes_option fun a _ => Codec.takes_u32 a
      | exact takes_option fun a _ => Codec.takes_u16 a
      | exact takes_option fun a _ => Codec.takes_enum a
      | exact takes_option fun a _ => Codec.takes_string a
      | exact takes_userProperty
      | exact takes_vec
      | exact .nil
  have hclient : clientIdMember.Takes exact order self (textParts self.clientId) :=
    takes_field (Codec.takes_string _)
  have hwill : Takes exact (self.encodeWillProperties order) (self.willParts order) := by
    unfold encodeWillProperties willParts
    cases self.willProperties with
    | none => exact takes_nil
    | some w => exact w.takes
  have htail : List.Forall₂ (Member.Takes exact order self) payloadTail self.tailParts :=
    .cons (takes_skipIfEmpty (Codec.takes_binary _))
      (.cons (Member.takes_of_items fun a _ => Codec.takes_string a)
        (.cons (takes_skipIfEmpty (Codec.takes_string _))
          (.cons (takes_skipIfEmpty (Codec.takes_binary _)) .nil)))
  have hall := ((((takes_members hheader).seq (takes_section hprops)).seq hclient).seq hwill).seq
    (takes_members htail)
  simp only [bind_assoc, enc_ok_bind] at hall
  have hparts : self.parts order =
      [textParts self.protocolName, [.fixed 1], [.fixed 1], [.fixed 2]].flatten ++
        sectionParts (self.propertyParts order).flatten ++ textParts self.clientId ++
        self.willParts order ++ self.tailParts.flatten := by
    simp [parts]
  rw [hparts]
  exact hall

/-- No part of a property is empty, so that only no properties have no length. -/
theorem eq_nil_of_totalLength {parts : List Part} (hpos : ∀ x ∈ parts, 0 < x.length)
    (h : totalLength parts = 0) : parts = [] := by
  cases parts with
  | nil => rfl
  | cons x parts =>
      have hx := hpos x List.mem_cons_self
      rw [totalLength_cons] at h
      omega

theorem optionParts_pos {α : Type} {f : α → List Part} {value : Option α}
    (hf : ∀ a, ∀ x ∈ f a, 0 < x.length) : ∀ x ∈ optionParts f value, 0 < x.length := by
  intro x hx
  obtain ⟨a, -, hx⟩ := List.mem_flatMap.mp hx
  rcases List.mem_cons.mp hx with rfl | hx
  · exact Nat.one_pos
  · exact hf a x hx

theorem textParts_pos (s : String) : ∀ x ∈ textParts s, 0 < x.length := by
  intro x hx
  rw [List.mem_singleton.mp hx]
  exact Nat.add_pos_left Nat.two_pos _

theorem userParts_pos (u : UserProperty) : ∀ x ∈ userParts order u, 0 < x.length := by
  intro x hx
  obtain ⟨p, -, hx⟩ := List.mem_flatMap.mp hx
  simp only [List.mem_cons, List.not_mem_nil, or_false] at hx
  rcases hx with rfl | rfl | rfl
  · exact Nat.one_pos
  · exact Nat.add_pos_left Nat.two_pos _
  · exact Nat.add_pos_left Nat.two_pos _

/-- A section whose 32-bit size is zero is empty, or too large for any packet. -/
theorem eq_nil_of_propertySize {σ : Type} {ps : List (Property σ)} {self : σ}
    {parts : List (List Part)} (h : List.Forall₂ (Property.Takes True order self) ps parts)
    (hpos : ∀ x ∈ parts.flatten, 0 < x.length) (hzero : propertySize order ps self = 0) :
    parts.flatten = [] ∨ parts.flatten ≠ [] ∧ 268435455 < totalLength parts.flatten := by
  have hsize := congrArg UInt32.toNat ((takes_properties h).2 trivial)
  rw [hzero, UInt32.toNat_ofNat'] at hsize
  by_cases hnone : totalLength parts.flatten = 0
  · exact .inl (eq_nil_of_totalLength hpos hnone)
  · refine .inr ⟨fun hnil => hnone (by rw [hnil]; rfl), ?_⟩
    have hmod : totalLength parts.flatten % 2 ^ 32 = 0 := hsize.symm
    omega

theorem PubResp.parts_of_abbreviated {self : PubResp}
    (h : derived.abbreviated order self = true) :
    self.parts order = [.fixed 2] ∨ 268435455 < totalLength (self.parts order) := by
  obtain ⟨hreason, hzero⟩ := of_decide_eq_true h
  have hpos : ∀ x ∈ (self.propertyParts order).flatten, 0 < x.length := by
    intro x hx
    simp only [propertyParts, List.flatten_cons, List.flatten_nil, List.append_nil,
      List.mem_append] at hx
    rcases hx with hx | hx
    · exact optionParts_pos textParts_pos x hx
    · exact userParts_pos _ x hx
  unfold parts
  rcases eq_nil_of_propertySize self.takes_properties hpos hzero with hnone | ⟨hne, hlong⟩
  · left
    rw [if_pos ⟨hreason, hnone⟩]
  · right
    rw [if_neg fun hboth => hne hboth.2, totalLength_cons, totalLength_append, sectionParts,
      totalLength_cons]
    omega

theorem propertySize_of_nil {σ : Type} {ps : List (Property σ)} {self : σ}
    {parts : List (List Part)} (h : List.Forall₂ (Property.Takes True order self) ps parts)
    (hnil : parts.flatten = []) : propertySize order ps self = 0 := by
  rw [(takes_properties h).2 trivial, hnil]
  rfl

theorem PubResp.takes {self : PubResp} (h : derived.abbreviated order self = false) :
    Takes exact (derived.encodeBody order self) (self.parts order) := by
  have hparts : self.parts order = .fixed 2 :: (self.reason.toList.flatMap enumParts ++
      sectionParts (self.propertyParts order).flatten) := by
    unfold parts
    refine congrArg _ (if_neg ?_)
    rintro ⟨hreason, hnil⟩
    exact of_decide_eq_false h ⟨hreason, propertySize_of_nil self.takes_properties hnil⟩
  exact Derived.takes_body [[.fixed 2]] [self.reason.toList.flatMap enumParts]
    (self.propertyParts order) [] (by simp [hparts]) h
    (.cons (takes_field (Codec.takes_u16 _)) .nil)
    (.cons (Member.takes_of_items fun a _ => Codec.takes_reason a) .nil) self.takes_properties
    takes_nil

theorem Disconnect.parts_of_abbreviated {self : Disconnect}
    (h : derived.abbreviated order self = true) :
    self.parts order = [] ∨ 268435455 < totalLength (self.parts order) := by
  obtain ⟨hreason, hzero⟩ := of_decide_eq_true h
  have hu32 : ∀ v, ∀ x ∈ u32Parts v, 0 < x.length := by
    intro v x hx
    rw [List.mem_singleton.mp hx]
    exact Nat.succ_pos 3
  have hpos : ∀ x ∈ (self.propertyParts order).flatten, 0 < x.length := by
    intro x hx
    simp only [propertyParts, List.flatten_cons, List.flatten_nil, List.append_nil,
      List.mem_append] at hx
    rcases hx with hx | hx | hx | hx
    · exact optionParts_pos hu32 x hx
    · exact optionParts_pos textParts_pos x hx
    · exact optionParts_pos textParts_pos x hx
    · exact userParts_pos _ x hx
  unfold parts
  rcases eq_nil_of_propertySize self.takes_properties hpos hzero with hnone | ⟨hne, hlong⟩
  · left
    rw [if_pos ⟨hreason, hnone⟩]
  · right
    rw [if_neg fun hboth => hne hboth.2, totalLength_cons, sectionParts, totalLength_cons]
    omega

theorem Disconnect.takes {self : Disconnect} (h : derived.abbreviated order self = false) :
    Takes exact (derived.encodeBody order self) (self.parts order) := by
  have hparts : self.parts order =
      .fixed 1 :: sectionParts (self.propertyParts order).flatten := by
    unfold parts
    refine if_neg ?_
    rintro ⟨hreason, hnil⟩
    exact of_decide_eq_false h ⟨hreason, propertySize_of_nil self.takes_properties hnil⟩
  exact Derived.takes_body [] [[.fixed 1]] (self.propertyParts order) [] (by simp [hparts]) h .nil
    (.cons (takes_field (Codec.takes_reason _)) .nil) self.takes_properties takes_nil

namespace Packet

/-- The subscription identifier, if there is one, fits a variable byte integer. -/
def IdFits (p : Packet) : Prop := ∀ v, p.subscriptionId = some v → v ≤ maxVariableByteInt

theorem takes {p : Packet} (h : p.abbreviated order = false) :
    Takes p.IdFits (p.encodeBody order) (p.parts order) := by
  cases p with
  | pingRequest | pingResponse => exact takes_nil
  | connect p => exact p.takes
  | connAck p => exact p.takes
  | publish p => exact p.takes id
  | pubAck p | pubComp p | pubRec p | pubRel p => exact PubResp.takes h
  | disconnect p => exact Disconnect.takes h
  | subscribe p => exact p.takes id
  | subAck p => exact p.takes
  | unsubscribe p => exact p.takes
  | unsubAck p => exact p.takes

/-- An abbreviated packet is written, and is as short as it should be unless the 32 bits have
wrapped around. -/
theorem encodeBody_of_abbreviated {p : Packet} (h : p.abbreviated order = true) :
    ∃ e, p.encodeBody order = .ok e ∧
      (e.length = p.bodyLength order ∨ 268435455 < p.bodyLength order) := by
  have hpubResp : ∀ q : PubResp, PubResp.derived.abbreviated order q = true →
      ∃ e, PubResp.derived.encodeBody order q = .ok e ∧
        (e.length = totalLength (q.parts order) ∨ 268435455 < totalLength (q.parts order)) := by
    intro q hq
    refine ⟨putU16 q.packetId, ?_, ?_⟩
    · simp only [Derived.encodeBody, hq, if_true]
      rfl
    · rcases PubResp.parts_of_abbreviated hq with hparts | hlong
      · exact .inl (by rw [hparts]; rfl)
      · exact .inr hlong
  cases p with
  | pubAck p | pubComp p | pubRec p | pubRel p => exact hpubResp p h
  | disconnect p =>
      have hp : Disconnect.derived.abbreviated order p = true := h
      refine ⟨[], ?_, ?_⟩
      · simp only [encodeBody, Derived.encodeBody, hp, if_true]
        rfl
      · rcases Disconnect.parts_of_abbreviated hp with hparts | hlong
        · exact .inl (by rw [bodyLength, parts, hparts]; rfl)
        · exact .inr hlong
  | _ => cases h

theorem encodeBody_ok_iff (p : Packet) : (∃ e, p.encodeBody order = .ok e) ↔ ¬ p.Overlong order := by
  unfold Overlong
  cases h : p.abbreviated order with
  | true =>
      obtain ⟨e, he, -⟩ := encodeBody_of_abbreviated h
      exact ⟨fun _ hboth => (by cases hboth.1), fun _ => ⟨e, he⟩⟩
  | false =>
      rw [(takes h).ok_iff]
      simp

theorem encodeBody_length {p : Packet} (hid : p.IdFits) (hle : p.bodyLength order ≤ 268435455)
    {e : Bytes} (he : p.encodeBody order = .ok e) : e.length = p.bodyLength order := by
  cases h : p.abbreviated order with
  | true =>
      obtain ⟨e', he', heq | hlt⟩ := encodeBody_of_abbreviated h
      · cases he.symm.trans he'
        exact heq
      · omega
  | false => exact (takes h).length hid e he (.inr hle)

end Packet

end

end Mqtt
end Vaux
