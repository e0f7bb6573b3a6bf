import Vaux.Mqtt.RoundTrip

/-!
# CONNECT packets that are written and read back

The payload of a CONNECT is written by which fields are there and read by what the
flags say, so the two have to agree: a field whose flag is set must not be empty, and
one whose flag is not set must be.  The will has a property section of its own.
-/

namespace Vaux
namespace Mqtt

open Wire Decoder

namespace WillHeader

theorem encodeBody_eq (order : HashOrder) (w : WillHeader) :
    derived.encodeBody order w = propertyEncode order properties w := by
  simp only [Derived.encodeBody, Derived.encodeFull, Derived.encodeRemaining, Derived.abbreviated,
    derived, encodeAll, bind, Except.bind]
  cases propertyEncode order properties w <;> simp

end WillHeader

namespace Connect

/-- What the payload of a CONNECT asks of the flags. -/
structure PayloadAgrees (c : Connect) : Prop where
  will : c.will = true → c.willProperties.isSome = true ∧ c.willPayload ≠ [] ∧
    c.willTopic.isSome = true
  noWill : c.will = false → c.willProperties = none ∧ c.willPayload = [] ∧ c.willTopic = none
  username : c.username = true ↔ c.usernameField ≠ ""
  password : c.password = true ↔ c.passwordField ≠ []

/-- What the codec asks of a CONNECT. -/
structure Sound (order : HashOrder) (c : Connect) : Prop where
  header : c.fixedHeader = .new .connect
  payload : c.PayloadAgrees
  fits : SectionFits order properties c
  body : encodedLength (c.encodeBody order) ≤ 2097151
  paced : Paced (propertyItems order properties c)
  willFits : ∀ w, c.willProperties = some w → SectionFits order WillHeader.properties w
  willPaced : ∀ w, c.willProperties = some w → Paced (propertyItems order WillHeader.properties w)

section

variable {order : HashOrder} {self : Connect}

theorem encodeBody_eq_ok {e : Bytes} (h : self.encodeBody order = .ok e) :
    ∃ e₁ e₂ e₃ e₄ e₅, encodeAll (Member.encode order self) header = .ok e₁ ∧
      propertyEncode order properties self = .ok e₂ ∧
      clientIdMember.encode order self = .ok e₃ ∧
      self.encodeWillProperties order = .ok e₄ ∧
      encodeAll (Member.encode order self) payloadTail = .ok e₅ ∧
      e = e₁ ++ e₂ ++ e₃ ++ e₄ ++ e₅ := by
  unfold encodeBody at h
  obtain ⟨e₁, h₁, h⟩ := enc_bind_eq_ok.mp h
  obtain ⟨e₂, h₂, h⟩ := enc_bind_eq_ok.mp h
  obtain ⟨e₃, h₃, h⟩ := enc_bind_eq_ok.mp h
  obtain ⟨e₄, h₄, h⟩ := enc_bind_eq_ok.mp h
  obtain ⟨e₅, h₅, h⟩ := enc_bind_eq_ok.mp h
  cases h
  exact ⟨e₁, e₂, e₃, e₄, e₅, h₁, h₂, h₃, h₄, h₅, rfl⟩

/-- The fields of the payload behind the will properties, those that are written. -/
theorem payloadTail_eq_ok {e : Bytes}
    (h : encodeAll (Member.encode order self) payloadTail = .ok e) :
    ∃ e₁ e₂ e₃ e₄,
      encodeAll Codec.binary.encode
        (if self.willPayload = [] then [] else [self.willPayload]) = .ok e₁ ∧
      encodeAll Codec.string.encode self.willTopic.toList = .ok e₂ ∧
      encodeAll Codec.string.encode
        (if self.usernameField = "" then [] else [self.usernameField]) = .ok e₃ ∧
      encodeAll Codec.binary.encode
        (if self.passwordField = [] then [] else [self.passwordField]) = .ok e₄ ∧
      e = e₁ ++ (e₂ ++ (e₃ ++ e₄)) := by
  obtain ⟨e₁, r₁, h₁, hr₁, rfl⟩ := encodeAll_cons_eq_ok h
  obtain ⟨e₂, r₂, h₂, hr₂, rfl⟩ := encodeAll_cons_eq_ok hr₁
  obtain ⟨e₃, r₃, h₃, hr₃, rfl⟩ := encodeAll_cons_eq_ok hr₂
  obtain ⟨e₄, r₄, h₄, hr₄, rfl⟩ := encodeAll_cons_eq_ok hr₃
  cases hr₄
  exact ⟨e₁, e₂, e₃, e₄, h₁, h₂, h₃, h₄, by simp⟩

/-! ## The front -/

/-- The packet with the payload the decoder starts with. -/
def stripped (self : Connect) : Connect :=
  { self with
    fixedHeader := .new .connect
    willProperties := none
    willPayload := []
    willTopic := none
    usernameField := ""
    passwordField := [] }

/-- The packet with the will, and then the user name, that was read. -/
def withWill (self : Connect) : Connect :=
  { self.stripped with
    willProperties := self.willProperties
    willPayload := self.willPayload
    willTopic := self.willTopic }

def withUsername (self : Connect) : Connect :=
  { self.withWill with usernameField := self.usernameField }

theorem withPassword_eq (h : self.fixedHeader = .new .connect) :
    { self.withUsername with passwordField := self.passwordField } = self := by
  cases self
  cases h
  rfl

theorem items_stripped (order : HashOrder) (self : Connect) :
    ∀ m ∈ front.slots, m.items order self.stripped = m.items order self := by
  simp only [Derived.forall_slots, front, header, connectFlagsMember, clientIdMember, properties,
    List.forall_mem_cons, List.not_mem_nil, false_imp_iff, implies_true, and_true]
  and_intros <;> rfl

/-- The members and the client identifier, with the properties between them. -/
def decodeFront (self : Connect) : Dec (Connect × Nat) := do
  let (self, bytesRead) ← decodeMembers header self 0
  let (self, bytesRead) ← decodeProperties properties unsupported self bytesRead
  clientIdMember.decode self bytesRead

/-- What follows the client identifier. -/
def decodeTail (self : Connect) (bytesRead : Nat) : Dec (Connect × Nat) := do
  let (self, bytesRead) ← decodeWill self bytesRead
  let (self, bytesRead) ← decodeUsername self bytesRead
  decodePassword self bytesRead

theorem run_decode (s : Connect) (src : Bytes) :
    s.decode.run src = (s.decodeFront.run src).bind fun r => (decodeTail r.1.1 r.1.2).run r.2 := by
  simp only [decode, decodeFront, decodeTail, run_bind]
  cases (decodeMembers header s 0).run src with
  | ok r =>
      simp only [Outcome.bind_ok]
      cases (decodeProperties properties unsupported r.1.1 r.1.2).run r.2 <;> rfl
  | err e => rfl
  | panic => rfl

theorem header_mem {m : Member Connect} (hm : m ∈ header) : m ∈ front.members :=
  List.mem_append_left _ hm

theorem clientIdMember_mem : clientIdMember ∈ front.members :=
  List.mem_append_right _ (List.mem_singleton.mpr rfl)

/-- Storing the fields in front of the payload makes the packet but for its payload. -/
theorem front_rebuilt (order : HashOrder) (self : Connect) :
    applyMembers order front.nonAbbreviated self (applyItems (propertyItems order properties self)
      (applyMembers order header self (new ""))) = self.stripped := by
  have hl := front_lawful
  refine hl.ext order _ _ ?_ ?_ (by simp [front])
  · rw [applyMembers_frame payloadPart, applyItems_frame payloadPart,
      applyMembers_frame payloadPart]
    · rfl
    · exact fun m hm => hl.fixed_apply m (Derived.Lawful.members_mem (header_mem hm))
    · exact fun i hi =>
        hl.fixed_apply _ (Derived.Lawful.properties_mem (mem_propertyItems.mp hi).1)
    · exact fun m hm =>
        hl.fixed_apply m (Derived.Lawful.members_mem (Derived.Lawful.nonAbbreviated_mem hm))
  · intro m hm
    rw [items_stripped order self m hm]
    rcases List.mem_append.mp hm with hm | hm
    · rcases List.mem_append.mp hm with hm' | hm'
      · rw [applyMembers_frame (fun s => m.items order s), applyItems_frame (fun s => m.items order s)]
        · exact items_applyMembers hl.header self _ hm'
        · exact fun i hi s a =>
            (hl.members_apart hm (mem_propertyItems.mp hi).1 order s).1 a
        · exact fun m' hm'' s a => (hl.header_apart hm' hm'' order s).1 a
      · exact items_applyMembers hl.nonAbbreviated self _ hm'
    · obtain ⟨p, hp, rfl⟩ := List.mem_map.mp hm
      rw [applyMembers_frame (fun s => p.member.items order s)
        fun m' hm' s a =>
          (hl.members_apart (Derived.Lawful.nonAbbreviated_mem hm') hp order s).2 a]
      exact items_applyItems hl.table self
        (hl.fresh_applyMembers (fun m => Derived.Lawful.header_mem) self (hl.unset order)) hp

theorem decodeFront_reads (hfit : front.Fits order self)
    (hlen : propertyLength order properties self ≤ 2097151)
    (hpaced : Paced (propertyItems order properties self)) {e₁ e₂ e₃ : Bytes}
    (h₁ : encodeAll (Member.encode order self) header = .ok e₁)
    (h₂ : propertyEncode order properties self = .ok e₂)
    (h₃ : clientIdMember.encode order self = .ok e₃) :
    Reads (decodeFront (new "")) (e₁ ++ (e₂ ++ e₃))
      (self.stripped, e₁.length + e₂.length + itemsExtra (propertyItems order properties self) +
        e₃.length) := by
  have hl := front_lawful
  have hheader := decodeMembers_reads hl.header
    (fun m hm => hfit.members m (Derived.Lawful.header_mem hm)) h₁ (new "") 0
  have hsection := decodeProperties_reads unsupported hl.table hfit.properties h₂ hlen hpaced
    (applyMembers order header self (new "")) (0 + e₁.length)
  have hclient : Reads Codec.string.decode e₃ (self.clientId, e₃.length) :=
    Codec.string.reads trivial (encodeAll_singleton_eq_ok h₃)
  refine hheader.bind (hsection.bind (hclient.bind_nil ?_))
  rw [← front_rebuilt order self]
  simp only [Nat.zero_add]
  exact Reads.pure _

/-! ## The tail -/

theorem willHeader_rebuilt (order : HashOrder) (w : WillHeader) :
    applyItems (propertyItems order WillHeader.properties w) .default = w := by
  have hrebuilt : Derived.Lawful.rebuilt order WillHeader.derived w .default = w :=
    WillHeader.lawful.rebuilt_eq rfl rfl
  exact hrebuilt

theorem decodeWill_reads (hs : self.Sound order) {e₄ t₁ t₂ : Bytes}
    (h₄ : self.encodeWillProperties order = .ok e₄)
    (hlen : ∀ w, self.willProperties = some w →
      propertyLength order WillHeader.properties w ≤ 2097151)
    (ht₁ : encodeAll Codec.binary.encode
      (if self.willPayload = [] then [] else [self.willPayload]) = .ok t₁)
    (ht₂ : encodeAll Codec.string.encode self.willTopic.toList = .ok t₂) (k : Nat) :
    ∃ n, Reads (decodeWill self.stripped k) (e₄ ++ (t₁ ++ t₂))
      (self.withWill, n) := by
  have hflag : self.stripped.will = self.will := rfl
  unfold decodeWill withWill
  cases hw : self.will with
  | false =>
      obtain ⟨hprops, hpayload, htopic⟩ := hs.payload.noWill hw
      rw [encodeWillProperties, hprops] at h₄
      rw [hpayload] at ht₁
      rw [htopic] at ht₂
      cases h₄
      cases ht₁
      cases ht₂
      rw [hflag, hw, hprops, hpayload, htopic]
      exact ⟨k, Reads.pure _⟩
  | true =>
      obtain ⟨hprops, hpayload, htopic⟩ := hs.payload.will hw
      obtain ⟨w, hprops⟩ := Option.isSome_iff_exists.mp hprops
      obtain ⟨topic, htopic⟩ := Option.isSome_iff_exists.mp htopic
      rw [encodeWillProperties, hprops] at h₄
      simp only [WillHeader.encodeBody_eq] at h₄
      rw [if_neg hpayload] at ht₁
      rw [htopic] at ht₂
      have hsection := decodeProperties_reads unsupportedProperty WillHeader.lawful.table
        (hs.willFits w hprops) h₄ (hlen w hprops) (hs.willPaced w hprops) .default 0
      have hpayload' : Reads decodeArrayField t₁ (self.willPayload, t₁.length) :=
        Codec.binary.reads trivial (encodeAll_singleton_eq_ok ht₁)
      have htopic' : Reads decodeString t₂ (topic, t₂.length) :=
        Codec.string.reads trivial (encodeAll_singleton_eq_ok ht₂)
      rw [hflag, hw, if_pos rfl, WillHeader.decode_eq, hprops, htopic]
      refine ⟨k + (0 + e₄.length + itemsExtra (propertyItems order WillHeader.properties w)) +
        t₁.length + t₂.length, hsection.bind (hpayload'.bind (htopic'.bind_nil ?_))⟩
      have hrebuilt := willHeader_rebuilt order w
      simp only [WillHeader.derived, hrebuilt]
      exact Reads.pure _

theorem decodeUsername_reads {s : Connect} (hflag : s.username = true ↔ self.usernameField ≠ "")
    (hempty : s.usernameField = "") {t : Bytes}
    (ht : encodeAll Codec.string.encode
      (if self.usernameField = "" then [] else [self.usernameField]) = .ok t) (k : Nat) :
    ∃ n, Reads (decodeUsername s k) t ({ s with usernameField := self.usernameField }, n) := by
  unfold decodeUsername
  by_cases hne : self.usernameField = ""
  · have hoff : ¬ s.username = true := fun h => hflag.mp h hne
    have hsame : { s with usernameField := self.usernameField } = s := by rw [hne, ← hempty]
    rw [if_pos hne] at ht
    cases ht
    rw [if_neg hoff, hsame]
    exact ⟨k, Reads.pure _⟩
  · rw [if_neg hne] at ht
    rw [if_pos (hflag.mpr hne)]
    have hread : Reads decodeString t (self.usernameField, t.length) :=
      Codec.string.reads trivial (encodeAll_singleton_eq_ok ht)
    exact ⟨_, hread.bind_nil (Reads.pure _)⟩

theorem decodePassword_reads {s : Connect} (hflag : s.password = true ↔ self.passwordField ≠ [])
    (hempty : s.passwordField = []) {t : Bytes}
    (ht : encodeAll Codec.binary.encode
      (if self.passwordField = [] then [] else [self.passwordField]) = .ok t) (k : Nat) :
    ∃ n, Reads (decodePassword s k) t ({ s with passwordField := self.passwordField }, n) := by
  unfold decodePassword
  by_cases hne : self.passwordField = []
  · have hoff : ¬ s.password = true := fun h => hflag.mp h hne
    have hsame : { s with passwordField := self.passwordField } = s := by rw [hne, ← hempty]
    rw [if_pos hne] at ht
    cases ht
    rw [if_neg hoff, hsame]
    exact ⟨k, Reads.pure _⟩
  · rw [if_neg hne] at ht
    rw [if_pos (hflag.mpr hne)]
    have hread : Reads decodeArrayField t (self.passwordField, t.length) :=
      Codec.binary.reads trivial (encodeAll_singleton_eq_ok ht)
    exact ⟨_, hread.bind_nil (Reads.pure _)⟩

/-- The fields in front of the payload fit whenever they were written. -/
theorem front_fits (hfit : SectionFits order properties self) {e₁ e₃ : Bytes}
    (h₁ : encodeAll (Member.encode order self) header = .ok e₁)
    (h₃ : clientIdMember.encode order self = .ok e₃) : front.Fits order self where
  members := by
    obtain ⟨e₄, e₅, h₄, -, -⟩ := encodeAll_cons_eq_ok h₁
    have hname := encodeAll_singleton_eq_ok h₄
    have hid := encodeAll_singleton_eq_ok h₃
    simp only [MembersFit, Derived.members, front, header, connectFlagsMember, clientIdMember,
      List.cons_append, List.nil_append, List.forall_mem_cons, List.not_mem_nil, false_imp_iff,
      implies_true, and_true]
    refine ⟨?_, fun a _ => ⟨trivial, _, rfl⟩, fun a _ => ⟨trivial, _, rfl⟩,
      fun a _ => ⟨trivial, _, rfl⟩, ?_⟩
    · intro a ha
      rw [List.mem_singleton.mp ha]
      exact ⟨trivial, e₄, hname⟩
    · intro a ha
      rw [List.mem_singleton.mp ha]
      exact ⟨trivial, e₃, hid⟩
  properties := hfit
  remaining := by simp [front]

theorem decodeTail_reads (hs : self.Sound order) {e₄ e₅ : Bytes}
    (h₄ : self.encodeWillProperties order = .ok e₄)
    (hlen : ∀ w, self.willProperties = some w →
      propertyLength order WillHeader.properties w ≤ 2097151)
    (h₅ : encodeAll (Member.encode order self) payloadTail = .ok e₅) (k : Nat) :
    ∃ n, Reads (decodeTail self.stripped k) (e₄ ++ e₅) (self, n) := by
  obtain ⟨t₁, t₂, t₃, t₄, ht₁, ht₂, ht₃, ht₄, rfl⟩ := payloadTail_eq_ok h₅
  obtain ⟨n₁, hread₁⟩ := decodeWill_reads hs h₄ hlen ht₁ ht₂ k
  obtain ⟨n₂, hread₂⟩ := decodeUsername_reads (s := self.withWill) hs.payload.username rfl ht₃ n₁
  obtain ⟨n₃, hread₃⟩ :=
    decodePassword_reads (s := self.withUsername) hs.payload.password rfl ht₄ n₂
  rw [withPassword_eq hs.header] at hread₃
  have hbytes : e₄ ++ (t₁ ++ (t₂ ++ (t₃ ++ t₄))) = e₄ ++ (t₁ ++ t₂) ++ (t₃ ++ t₄) := by simp
  rw [hbytes]
  exact ⟨n₃, hread₁.bind (hread₂.bind hread₃)⟩

theorem willLength_le {e : Bytes} (h : self.encodeWillProperties order = .ok e) {w : WillHeader}
    (hw : self.willProperties = some w) :
    propertyLength order WillHeader.properties w ≤ e.length := by
  rw [encodeWillProperties, hw] at h
  simp only [WillHeader.encodeBody_eq] at h
  exact propertyLength_le_section h

theorem decode_reads (hs : self.Sound order) {e : Bytes} (henc : self.encodeBody order = .ok e) :
    ∃ n, (new "").decode.run e = .ok ((self, n), []) := by
  have hlen := hs.body
  rw [henc, encodedLength_ok] at hlen
  obtain ⟨e₁, e₂, e₃, e₄, e₅, h₁, h₂, h₃, h₄, h₅, rfl⟩ := encodeBody_eq_ok henc
  simp only [List.length_append] at hlen
  have hprops : propertyLength order properties self ≤ 2097151 := by
    have := propertyLength_le_section h₂
    omega
  have hwill : ∀ w, self.willProperties = some w →
      propertyLength order WillHeader.properties w ≤ 2097151 := by
    intro w hw
    have := willLength_le h₄ hw
    omega
  have hfront := decodeFront_reads (front_fits hs.fits h₁ h₃) hprops hs.paced h₁ h₂ h₃
  obtain ⟨n, htail⟩ := decodeTail_reads hs h₄ hwill h₅ (e₁.length + e₂.length +
    itemsExtra (propertyItems order properties self) + e₃.length)
  refine ⟨n, ?_⟩
  have hbytes : e₁ ++ e₂ ++ e₃ ++ e₄ ++ e₅ = e₁ ++ (e₂ ++ e₃) ++ (e₄ ++ e₅) := by simp
  rw [run_decode, hbytes, hfront (e₄ ++ e₅), Outcome.bind_ok]
  exact htail.run_nil

/-! ## What is read can be written again -/

/-- What is stored in front of the payload needs no more bytes than were read. -/
theorem decodeFront_fits {s : Connect} {n : Nat} {src left : Bytes}
    (h : (decodeFront (new "")).run src = .ok ((s, n), left)) (order : HashOrder) :
    s.stripped = s ∧ front.Fits order s ∧
      membersLength order front.members s + propertyLength order properties s + left.length ≤
        src.length + 1000 := by
  have hl := front_lawful
  have hapart := hl.members.apart
  simp only [decodeFront, run_bind] at h
  obtain ⟨⟨⟨s₁, n₁⟩, src₁⟩, h₁, h⟩ := Outcome.bind_eq_ok.mp h
  obtain ⟨⟨⟨s₂, n₂⟩, src₂⟩, h₂, h₃⟩ := Outcome.bind_eq_ok.mp h
  obtain ⟨a, j, hcodec, rfl, -⟩ := Member.decode_ok h₃
  obtain ⟨hcarries, hlen₃⟩ := Codec.carries_of_decode hcodec
  simp only at hlen₃
  -- the header
  obtain ⟨hlen₁, hfit₁⟩ := decodeMembers_length hapart (fun m => header_mem) order h₁
    fun m hm => (hl.initial_members order m hm).carries
  have hprops₁ : ∀ p ∈ properties, p.member.items order (new "") = p.member.items order s₁ :=
    fun p hp => (decodeMembers_frame (fun s => p.member.items order s)
      (fun m hm s a => (hl.members_apart (header_mem hm) hp order s).2 a) h₁).symm
  have hplen₁ := propertyLength_congr hprops₁
  -- the properties
  obtain ⟨hlen₂, hsection₂⟩ := decodeProperties_length hl.table order h₂
    (sectionFits_congr hprops₁ (sectionFits_initial (hl.initial_properties order)))
  have hmembers₂ : ∀ m ∈ front.members, m.items order s₁ = m.items order s₂ := fun m hm =>
    (decodeProperties_frame (fun s => m.items order s)
      (fun p hp s a => (hl.members_apart hm hp order s).1 a) h₂).symm
  have hmlen₂ := membersLength_congr hmembers₂
  have hfit₂ := membersFit_congr hmembers₂ hfit₁
  -- the client identifier
  have hown := membersLength_apply hapart order s₂ clientIdMember_mem a
  have hprops₃ : ∀ p ∈ properties,
      p.member.items order s₂ = p.member.items order (clientIdMember.apply s₂ a) :=
    fun p hp => ((hl.members_apart clientIdMember_mem hp order s₂).2 a).symm
  have hplen₃ := propertyLength_congr hprops₃
  have hsmall := membersLength_initial (hl.initial_members order)
  have hsmall' := propertyLength_initial (hl.initial_properties order)
  have hcount : front.members.length = 5 := rfl
  have hcount' : front.properties.length = 9 := rfl
  have hpart : payloadPart (clientIdMember.apply s₂ a) = payloadPart (new "") := by
    rw [hl.fixed_apply clientIdMember (Derived.Lawful.members_mem clientIdMember_mem),
      decodeProperties_frame payloadPart
        (fun p hp => hl.fixed_apply _ (Derived.Lawful.properties_mem hp)) h₂,
      decodeMembers_frame payloadPart
        (fun m hm => hl.fixed_apply m (Derived.Lawful.members_mem (header_mem hm))) h₁]
  refine ⟨?_, ⟨hfit₂.apply hapart clientIdMember_mem hcarries, sectionFits_congr hprops₃ hsection₂,
    by simp [front]⟩, ?_⟩
  · exact hl.ext order _ _ hpart.symm (items_stripped order _) (by simp [front])
  · have hfront : front.properties = properties := rfl
    rw [hcount] at hsmall
    rw [hcount', hfront] at hsmall'
    simp only [hfront] at hlen₂ ⊢
    omega

/-- The bytes of the will behind its properties, as the flags call for them and as they
are written. -/
def willFlagged (c : Connect) : Nat :=
  if c.will then encodedLength (Codec.binary.encode c.willPayload) +
    encodedLength (Codec.string.encode (c.willTopic.getD "")) else 0

def willWritten (c : Connect) : Nat :=
  (if c.willPayload = [] then 0 else encodedLength (Codec.binary.encode c.willPayload)) +
    c.willTopic.elim 0 fun topic => encodedLength (Codec.string.encode topic)

/-- The bytes behind the will properties that the flags call for. -/
def flaggedLength (c : Connect) : Nat :=
  willFlagged c +
  (if c.username then encodedLength (Codec.string.encode c.usernameField) else 0) +
  if c.password then encodedLength (Codec.binary.encode c.passwordField) else 0

/-- What the flags do not call for is not there. -/
structure Flagged (c : Connect) : Prop where
  will : c.will = true → c.willProperties.isSome = true ∧ c.willTopic.isSome = true
  noWill : c.will = false → c.willProperties = none ∧ c.willPayload = [] ∧ c.willTopic = none
  noUsername : c.username = false → c.usernameField = ""
  noPassword : c.password = false → c.passwordField = []

/-- A field that is skipped if it is empty, and is empty if its flag is not set: what is
written is called for, and is all that is called for only if the two agree. -/
theorem skip_le {α : Type} [DecidableEq α] {b : Bool} {a empty : α} (encode : α → Enc)
    (hpos : 0 < encodedLength (encode empty)) (h : b = false → a = empty) :
    (if a = empty then 0 else encodedLength (encode a)) ≤
        (if b then encodedLength (encode a) else 0) ∧
      ((if b then encodedLength (encode a) else 0) ≤
        (if a = empty then 0 else encodedLength (encode a)) → (b = true ↔ a ≠ empty)) := by
  cases b with
  | false => simp [h rfl]
  | true =>
      by_cases ha : a = empty
      · subst ha
        simp only [if_true]
        omega
      · simp [ha]

/-- The fields that are written are among those the flags call for, and are all of them
only if none of those is empty. -/
theorem Flagged.tail_le {c : Connect} (h : c.Flagged) (order : HashOrder) :
    membersLength order payloadTail c ≤ c.flaggedLength ∧
      (c.flaggedLength ≤ membersLength order payloadTail c → c.PayloadAgrees) := by
  have hwill : willWritten c ≤ willFlagged c ∧
      (willFlagged c ≤ willWritten c → c.will = true → c.willPayload ≠ []) := by
    unfold willWritten willFlagged
    cases hflag : c.will with
    | false =>
        obtain ⟨-, hpayload, htopic⟩ := h.noWill hflag
        simp [hpayload, htopic]
    | true =>
        obtain ⟨topic, htopic⟩ := Option.isSome_iff_exists.mp (h.will hflag).2
        by_cases hempty : c.willPayload = []
        · have hbinary : encodedLength (Codec.binary.encode []) = 2 := rfl
          simp only [hempty, htopic, hbinary, if_true, Option.elim_some, Option.getD_some]
          omega
        · simp [hempty, htopic]
  have hname := skip_le (b := c.username) Codec.string.encode (by decide) h.noUsername
  have hpass := skip_le (b := c.password) Codec.binary.encode (by decide) h.noPassword
  have hlength : membersLength order payloadTail c = willWritten c +
      ((if c.usernameField = "" then 0 else encodedLength (Codec.string.encode c.usernameField)) +
      (if c.passwordField = [] then 0 else
        encodedLength (Codec.binary.encode c.passwordField))) := by
    simp only [membersLength, payloadTail, List.map_cons, List.map_nil, List.sum_cons,
      List.sum_nil, Member.skipIfEmpty_length, Member.option_length, Nat.add_zero, willWritten,
      Nat.add_assoc]
  rw [hlength, flaggedLength]
  obtain ⟨hwill, hwill'⟩ := hwill
  obtain ⟨hname, hname'⟩ := hname
  obtain ⟨hpass, hpass'⟩ := hpass
  refine ⟨by omega, fun hle => ⟨?_, h.noWill, hname' (by omega), hpass' (by omega)⟩⟩
  intro hflag
  exact ⟨(h.will hflag).1, hwill' (by omega) hflag, (h.will hflag).2⟩

theorem decodeUsername_ok {s s' : Connect} {k n : Nat} {src left : Bytes}
    (h : (decodeUsername s k).run src = .ok ((s', n), left)) :
    ∃ u, s' = { s with usernameField := u } ∧ (s.username = false → u = s.usernameField) ∧
      (if s.username then encodedLength (Codec.string.encode u) else 0) + left.length ≤
        src.length := by
  rcases decodeUsername_cases h with ⟨hflag, u, j, hrun, rfl⟩ | ⟨hflag, rfl, rfl⟩
  · refine ⟨u, rfl, by simp [hflag], ?_⟩
    rw [if_pos hflag]
    exact (Codec.carries_of_decode (c := Codec.string) hrun).2
  · exact ⟨_, rfl, fun _ => rfl, by simp [hflag]⟩

theorem decodePassword_ok {s s' : Connect} {k n : Nat} {src left : Bytes}
    (h : (decodePassword s k).run src = .ok ((s', n), left)) :
    ∃ b, s' = { s with passwordField := b } ∧ (s.password = false → b = s.passwordField) ∧
      (if s.password then encodedLength (Codec.binary.encode b) else 0) + left.length ≤
        src.length := by
  rcases decodePassword_cases h with ⟨hflag, b, j, hrun, rfl⟩ | ⟨hflag, rfl, rfl⟩
  · refine ⟨b, rfl, by simp [hflag], ?_⟩
    rw [if_pos hflag]
    exact (Codec.carries_of_decode (c := Codec.binary) hrun).2
  · exact ⟨_, rfl, fun _ => rfl, by simp [hflag]⟩

/-- `src'` is what is left behind the will properties. -/
theorem decodeWill_ok {s s' : Connect} {k n : Nat} {src left : Bytes}
    (h : (decodeWill s k).run src = .ok ((s', n), left)) :
    ∃ w payload topic src',
      s' = { s with willProperties := w, willPayload := payload, willTopic := topic } ∧
      (s.will = true → topic.isSome = true ∧ ∃ header m, w = some header ∧
        (decodeProperties WillHeader.properties unsupportedProperty .default 0).run src =
          .ok ((header, m), src')) ∧
      (s.will = false → w = s.willProperties ∧ payload = s.willPayload ∧ topic = s.willTopic ∧
        src' = src) ∧
      (if s.will then encodedLength (Codec.binary.encode payload) +
        encodedLength (Codec.string.encode (topic.getD "")) else 0) + left.length ≤
        src'.length := by
  rcases decodeWill_cases h with
    ⟨hflag, header, m, payload, m₁, topic, m₂, src', src₁, hsection, hpayload, htopic, rfl⟩ |
    ⟨hflag, rfl, rfl⟩
  · have hlen₁ := (Codec.carries_of_decode (c := Codec.binary) hpayload).2
    have hlen₂ := (Codec.carries_of_decode (c := Codec.string) htopic).2
    refine ⟨some header, payload, some topic, src', rfl, fun _ => ⟨rfl, header, m, rfl, hsection⟩,
      by simp [hflag], ?_⟩
    rw [if_pos hflag, Option.getD_some]
    omega
  · exact ⟨_, _, _, _, rfl, by simp [hflag], fun _ => ⟨rfl, rfl, rfl, rfl⟩, by simp [hflag]⟩

/-- What the tail stores, starting from a packet without payload. -/
theorem decodeTail_ok {s c : Connect} (hs : s.stripped = s) {k n : Nat} {src left : Bytes}
    (h : (decodeTail s k).run src = .ok ((c, n), left)) :
    c.Flagged ∧ c.fixedHeader = .new .connect ∧ c.stripped = s ∧
      ∃ src', c.flaggedLength + left.length ≤ src'.length ∧
        (c.will = true → ∃ w m, c.willProperties = some w ∧
          (decodeProperties WillHeader.properties unsupportedProperty .default 0).run src =
            .ok ((w, m), src')) ∧
        (c.will = false → src' = src) := by
  simp only [decodeTail, run_bind] at h
  obtain ⟨⟨⟨s₁, n₁⟩, src₁⟩, h₁, h⟩ := Outcome.bind_eq_ok.mp h
  obtain ⟨⟨⟨s₂, n₂⟩, src₂⟩, h₂, h₃⟩ := Outcome.bind_eq_ok.mp h
  obtain ⟨w, payload, topic, src', rfl, hwill, hnoWill, hlen₁⟩ := decodeWill_ok h₁
  obtain ⟨u, rfl, huser, hlen₂⟩ := decodeUsername_ok h₂
  obtain ⟨b, rfl, hpass, hlen₃⟩ := decodePassword_ok h₃
  have hw : s.willProperties = none := by rw [← hs]; rfl
  have hp : s.willPayload = [] := by rw [← hs]; rfl
  have ht : s.willTopic = none := by rw [← hs]; rfl
  have hu : s.usernameField = "" := by rw [← hs]; rfl
  have hb : s.passwordField = [] := by rw [← hs]; rfl
  have hh : s.fixedHeader = .new .connect := by rw [← hs]; rfl
  refine ⟨⟨?_, ?_, ?_, ?_⟩, hh, hs, src', ?_, ?_, ?_⟩
  · intro hflag
    obtain ⟨htopic, header, m, rfl, -⟩ := hwill hflag
    exact ⟨rfl, htopic⟩
  · intro hflag
    obtain ⟨rfl, rfl, rfl, -⟩ := hnoWill hflag
    exact ⟨hw, hp, ht⟩
  · intro hflag
    exact (huser hflag).trans hu
  · intro hflag
    exact (hpass hflag).trans hb
  · have hlen₂ : (if s.username then encodedLength (Codec.string.encode u) else 0) +
        src₂.length ≤ src₁.length := hlen₂
    have hlen₃ : (if s.password then encodedLength (Codec.binary.encode b) else 0) +
        left.length ≤ src₂.length := hlen₃
    have htotal := Nat.add_le_add (Nat.add_le_add hlen₁ hlen₂) hlen₃
    show (if s.will then _ else 0) + (if s.username then _ else 0) +
      (if s.password then _ else 0) + _ ≤ _
    linarith
  · intro hflag
    obtain ⟨-, header, m, rfl, hrun⟩ := hwill hflag
    exact ⟨header, m, rfl, hrun⟩
  · intro hflag
    exact (hnoWill hflag).2.2.2

/-! ## The packet -/

theorem willHeader_sizes (order : HashOrder) (w : WillHeader) : WillHeader.derived.Sizes order w where
  members := by simp [MembersSizes, Derived.members, WillHeader.derived]
  properties := by
    refine sectionSizes_of_fits ?_
    simp only [WillHeader.derived, WillHeader.properties, List.forall_mem_cons, List.not_mem_nil,
      false_imp_iff, implies_true, and_true]
    and_intros <;> first | exact fun _ => trivial | exact fun _ => ⟨trivial, trivial⟩
  remaining := by simp [WillHeader.derived]

theorem willPropertiesSize_eq {e : Bytes} (h : self.encodeWillProperties order = .ok e)
    (hlen : e.length ≤ 268435455) : self.willPropertiesSize order = UInt32.ofNat e.length := by
  unfold willPropertiesSize
  unfold encodeWillProperties at h
  cases hw : self.willProperties with
  | none =>
      rw [hw] at h
      cases h
      rfl
  | some w =>
      rw [hw] at h
      exact Derived.codecSize_eq (by simp [WillHeader.derived]) (willHeader_sizes order w) h hlen

/-- The sizes of a CONNECT agree with what is written, whatever it holds. -/
theorem membersSizes (order : HashOrder) (self : Connect) {ms : List (Member Connect)}
    (hms : ∀ m ∈ ms, m ∈ header ++ clientIdMember :: payloadTail) : MembersSizes order ms self := by
  intro m hm
  have hall : ∀ m ∈ header ++ clientIdMember :: payloadTail, ∀ a, m.codec.Fits a := by
    simp only [header, connectFlagsMember, clientIdMember, payloadTail, List.cons_append,
      List.nil_append, List.forall_mem_cons, List.not_mem_nil, false_imp_iff, implies_true,
      and_true]
    and_intros <;> exact fun _ => trivial
  exact fun a _ => Codec.sizeAgrees_of_fits (hall m (hms m hm) a)

theorem sectionSizes (order : HashOrder) (self : Connect) : SectionSizes order properties self := by
  refine sectionSizes_of_fits ?_
  simp only [properties, List.forall_mem_cons, List.not_mem_nil, false_imp_iff, implies_true,
    and_true]
  and_intros <;> first | exact fun _ => trivial | exact fun _ => ⟨trivial, trivial⟩

/-- The sizes add up to the length of the body. -/
theorem codecSize_eq {e : Bytes} (h : self.encodeBody order = .ok e)
    (hlen : e.length ≤ 268435455) : self.codecSize order = UInt32.ofNat e.length := by
  obtain ⟨e₁, e₂, e₃, e₄, e₅, h₁, h₂, h₃, h₄, h₅, rfl⟩ := encodeBody_eq_ok h
  simp only [List.length_append] at hlen
  have hprops := propertyLength_le_section h₂
  have hheader := sum_memberSize (membersSizes order self fun m hm => by simp [hm]) h₁
  have htail := sum_memberSize (membersSizes order self fun m hm => by simp [hm]) h₅
  have hid : MembersSizes order [clientIdMember] self := membersSizes order self (by simp)
  have hclient := memberSize_eq (hid _ (List.mem_singleton.mpr rfl)) h₃
  have hwill := willPropertiesSize_eq h₄ (by omega)
  have hsection := sectionSize_eq (sectionSizes order self) (by omega) h₂
  simp only [codecSize, hheader, htail, hclient, hwill, UInt32.add_assoc, hsection]
  simp only [List.length_append, ← UInt32.ofNat_add]
  congr 1
  omega

theorem decodeBody_connect {h : FixedHeader} (ht : h.packetType = .connect) :
    (decodeBody h).run = (asPacket (new "").decode .connect).run := by
  unfold decodeBody
  rw [ht]

theorem decode_of_sound {e : Bytes} (henc : (Packet.connect self).encode order = .ok e)
    (hs : self.Sound order) (suffix : Bytes) :
    ∃ n, Mqtt.decode (e ++ suffix) = .ok (some (.connect self, n)) := by
  obtain ⟨body, hbody, rfl⟩ := encodePacket_eq_ok henc
  have hlen := hs.body
  rw [hbody, encodedLength_ok] at hlen
  obtain ⟨n, hread⟩ := decode_reads hs hbody
  have hsize : (self.codecSize order).toNat = body.length := by
    rw [codecSize_eq hbody (by omega), UInt32.toNat_ofNat']
    exact Nat.mod_eq_of_lt (by omega)
  obtain ⟨hheader, hlegal⟩ := headerOf_firstByte_new .connect
  rw [hs.header, decode_written suffix hsize hlen (by rwa [hheader]), hheader,
    decodeBody_connect rfl]
  simp only [asPacket, run_bind, hread, Outcome.bind_ok, run_pure]
  exact ⟨_, rfl⟩

/-! ## What reads back was sound -/

theorem items_front (order : HashOrder) (self : Connect) :
    ∀ p ∈ properties, p.member.items order self.stripped = p.member.items order self :=
  fun p hp => items_stripped order self p.member (Derived.Lawful.properties_mem hp)

/-- The front of a CONNECT reads back only if its property section is paced. -/
theorem paced_of_decodeFront (hfit : front.Fits order self)
    (hlen : propertyLength order properties self ≤ 2097151) {e₁ e₂ : Bytes}
    (h₁ : encodeAll (Member.encode order self) header = .ok e₁)
    (h₂ : propertyEncode order properties self = .ok e₂) {n : Nat} {rest left : Bytes}
    (h : (decodeFront (new "")).run (e₁ ++ (e₂ ++ rest)) = .ok ((self.stripped, n), left)) :
    Paced (propertyItems order properties self) := by
  have hl := front_lawful
  have hheader := decodeMembers_reads hl.header
    (fun m hm => hfit.members m (Derived.Lawful.header_mem hm)) h₁ (new "") 0
  have hrun : (decodeMembers header (new "") 0).run (e₁ ++ (e₂ ++ rest)) = _ := hheader (e₂ ++ rest)
  simp only [decodeFront, run_bind, hrun, Outcome.bind_ok] at h
  obtain ⟨⟨⟨s, k⟩, src⟩, hprops, h⟩ := Outcome.bind_eq_ok.mp h
  obtain ⟨a, j, -, hself, -⟩ := Member.decode_ok h
  rcases decodeProperties_inv hl.table hfit.properties h₂ hlen hprops with
    ⟨early, back, heq, hne, hle, rfl⟩ | hpaced | ⟨hlate, -⟩
  · exfalso
    have hfresh := hl.fresh_applyMembers (fun m => Derived.Lawful.header_mem) self (hl.unset order)
    refine items_ne_of_early hl.table hl.optional hfresh heq hne hle ?_
    intro p hp
    rw [← items_front order self p hp, hself]
    exact ((hl.members_apart clientIdMember_mem hp order _).2 a).symm
  · exact hpaced
  · have hcounted := propertyLength_le_charge order counted self
    simp only [front] at hlate
    omega

theorem will_of_some (hflagged : self.Flagged) {w : WillHeader}
    (hw : self.willProperties = some w) : self.will = true := by
  by_contra hflag
  have hnone := (hflagged.noWill (by simpa using hflag)).1
  rw [hnone] at hw
  cases hw

/-- The tail of a CONNECT reads back only if what it holds agrees with the flags and the
section of the will is paced. -/
theorem agrees_of_decodeTail (hflagged : self.Flagged) {e₄ e₅ : Bytes}
    (h₄ : self.encodeWillProperties order = .ok e₄)
    (h₅ : encodeAll (Member.encode order self) payloadTail = .ok e₅)
    (hfits : ∀ w, self.willProperties = some w → SectionFits order WillHeader.properties w)
    (hlen : ∀ w, self.willProperties = some w →
      propertyLength order WillHeader.properties w ≤ 2097151) {src' : Bytes}
    (hle : self.flaggedLength ≤ src'.length)
    (hwill : self.will = true → ∃ w m, self.willProperties = some w ∧
      (decodeProperties WillHeader.properties unsupportedProperty .default 0).run (e₄ ++ e₅) =
        .ok ((w, m), src'))
    (hnoWill : self.will = false → src' = e₄ ++ e₅) :
    self.PayloadAgrees ∧ ∀ w, self.willProperties = some w →
      Paced (propertyItems order WillHeader.properties w) := by
  obtain ⟨htail, hagrees⟩ := hflagged.tail_le order
  have hlen₅ := membersEncode_length h₅
  cases hflag : self.will with
  | false =>
      have hnone := (hflagged.noWill hflag).1
      rw [encodeWillProperties, hnone] at h₄
      cases h₄
      rw [hnoWill hflag, List.nil_append] at hle
      exact ⟨hagrees (by omega), by simp [hnone]⟩
  | true =>
      obtain ⟨w, m, hw, hrun⟩ := hwill hflag
      rw [encodeWillProperties, hw] at h₄
      simp only [WillHeader.encodeBody_eq] at h₄
      have hl := WillHeader.lawful
      have hpaced : Paced (propertyItems order WillHeader.properties w) := by
        rcases decodeProperties_inv hl.table (hfits w hw) h₄ (hlen w hw) hrun with
          ⟨early, back, heq, hne, hle, hself⟩ | hpaced | ⟨-, hless⟩
        · have hdiffer := items_ne_of_early hl.table hl.optional (hl.unset order) heq hne hle
          rw [← hself] at hdiffer
          exact absurd (fun _ _ => rfl) hdiffer
        · exact hpaced
        · omega
      have hread := decodeProperties_reads unsupportedProperty hl.table (hfits w hw) h₄ (hlen w hw)
        hpaced .default 0 e₅
      simp only [WillHeader.derived] at hread
      rw [hrun] at hread
      obtain ⟨-, rfl⟩ := Prod.mk.inj (Outcome.ok.inj hread)
      refine ⟨hagrees (by omega), ?_⟩
      intro w' hw'
      rw [hw] at hw'
      cases hw'
      exact hpaced

theorem willLength_default (order : HashOrder) :
    propertyLength order WillHeader.properties .default ≤ 63 :=
  propertyLength_initial (WillHeader.lawful.initial_properties order)

/-- The body that is written has about as many bytes as were read. -/
theorem encodeBody_length_le {body src₁ src' : Bytes} {n : Nat} (hflagged : self.Flagged)
    (hle : self.flaggedLength ≤ src'.length)
    (hwill : ∀ w, self.willProperties = some w →
      propertyLength order WillHeader.properties w + src'.length < src₁.length + 63)
    (hnoWill : self.will = false → src' = src₁)
    (hfront : membersLength order front.members self + propertyLength order properties self +
      src₁.length ≤ n) (h : self.encodeBody order = .ok body) : body.length ≤ n + 73 := by
  obtain ⟨e₁, e₂, e₃, e₄, e₅, h₁, h₂, h₃, h₄, h₅, rfl⟩ := encodeBody_eq_ok h
  have hlen₁ := membersEncode_length h₁
  have hlen₂ := propertyEncode_length_le h₂
  have hlen₃ := memberEncode_length h₃
  have hlen₅ := membersEncode_length h₅
  have htail := (hflagged.tail_le order).1
  have hmembers : membersLength order front.members self =
      membersLength order header self + clientIdMember.length order self :=
    Derived.membersLength_append header [clientIdMember]
  simp only [List.length_append]
  cases hw : self.willProperties with
  | none =>
      have hflag : self.will = false := by
        by_contra hflag
        have := (hflagged.will (by simpa using hflag)).1
        simp [hw] at this
      have hsrc := congrArg List.length (hnoWill hflag)
      rw [encodeWillProperties, hw] at h₄
      cases h₄
      simp only [List.length_nil]
      omega
  | some w =>
      have hless := hwill w hw
      rw [encodeWillProperties, hw] at h₄
      simp only [WillHeader.encodeBody_eq] at h₄
      have hlen₄ := propertyEncode_length_le h₄
      omega

theorem sound_of_decode {e : Bytes} (henc : (Packet.connect self).encode order = .ok e)
    {suffix : Bytes} {n : Nat}
    (h : Mqtt.decode (e ++ suffix) = .ok (some (.connect self, n))) : self.Sound order := by
  obtain ⟨body, hbody, rfl⟩ := encodePacket_eq_ok henc
  obtain ⟨body', m, left, hsize, hle, hsame, hrun⟩ := decode_written_ok h
  rw [decodeBody_connect (decodeBody_packetType hrun).symm] at hrun
  obtain ⟨a, hrun, ha⟩ := asPacket_eq_ok hrun
  cases ha
  rw [run_decode] at hrun
  obtain ⟨⟨⟨s, k⟩, src₁⟩, hfront, htail⟩ := Outcome.bind_eq_ok.mp hrun
  obtain ⟨hs, hfrontFits, hfrontLen⟩ := decodeFront_fits hfront order
  obtain ⟨hflagged, hheader, rfl, src', hflaggedLen, hwill, hnoWill⟩ := decodeTail_ok hs htail
  -- what was read fits
  have hfit : SectionFits order properties self :=
    sectionFits_congr (items_front order self) hfrontFits.properties
  have hplen := propertyLength_congr (items_front order self)
  have hmlen := membersLength_congr
    fun m hm => items_stripped order self m (Derived.Lawful.members_mem hm)
  have hwillFits : ∀ w, self.willProperties = some w →
      SectionFits order WillHeader.properties w ∧
        propertyLength order WillHeader.properties w + src'.length < src₁.length + 63 := by
    intro w hw
    obtain ⟨w', m', hw', hrun'⟩ := hwill (will_of_some hflagged hw)
    rw [hw] at hw'
    cases hw'
    obtain ⟨hlen', hfits'⟩ := decodeProperties_length WillHeader.lawful.table order hrun'
      (sectionFits_initial (WillHeader.lawful.initial_properties order))
    have hsmall := willLength_default order
    simp only [WillHeader.derived] at hlen'
    exact ⟨hfits', by omega⟩
  -- nothing wraps around, so the body is the one that was written
  have hbound := encodeBody_length_le hflagged (by omega) (fun w hw => (hwillFits w hw).2)
    hnoWill (n := body'.length + 1000) (by omega) hbody
  have hnowrap : (self.codecSize order).toNat = body.length := by
    rw [codecSize_eq hbody (by omega), UInt32.toNat_ofNat']
    exact Nat.mod_eq_of_lt (by omega)
  obtain rfl := hsame hnowrap
  have hbody' : encodedLength (self.encodeBody order) ≤ 2097151 := by
    rw [hbody, encodedLength_ok]
    exact hle
  obtain ⟨e₁, e₂, e₃, e₄, e₅, h₁, h₂, h₃, h₄, h₅, rfl⟩ := encodeBody_eq_ok hbody
  simp only [List.length_append] at hle
  have hprops : propertyLength order properties self ≤ 2097151 := by
    have := propertyLength_le_section h₂
    omega
  have hfits := front_fits hfit h₁ h₃
  have hbytes : e₁ ++ e₂ ++ e₃ ++ e₄ ++ e₅ = e₁ ++ (e₂ ++ (e₃ ++ (e₄ ++ e₅))) := by simp
  rw [hbytes] at hfront
  have hpaced := paced_of_decodeFront hfits hprops h₁ h₂ hfront
  have hread := decodeFront_reads hfits hprops hpaced h₁ h₂ h₃ (e₄ ++ e₅)
  rw [List.append_assoc, List.append_assoc, hfront] at hread
  obtain ⟨-, rfl⟩ := Prod.mk.inj (Outcome.ok.inj hread)
  obtain ⟨hagrees, hwillPaced⟩ := agrees_of_decodeTail hflagged h₄ h₅
    (fun w hw => (hwillFits w hw).1) (fun w hw => by have := willLength_le h₄ hw; omega)
    (by omega) hwill hnoWill
  exact ⟨hheader, hagrees, hfit, hbody', hpaced, fun w hw => (hwillFits w hw).1, hwillPaced⟩

end

end Connect

end Mqtt
end Vaux
