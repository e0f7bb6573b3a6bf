import Vaux.Mqtt.Framing

/-!
# The property section

The property loop runs on a counter, `property_bytes_read`, while the cursor is the
buffer.  The counter is right at a head of the loop if it is the number of bytes
taken since the section began.  It goes wrong at a user property, whose decoder
reports four bytes too many, and at a `Vec<u8>` of a derived struct, whose bytes are
not added to it at all.

`PlainSection` is the condition under which it stays right and the loop stops at
the end of the section: the section is made of whole properties of other kinds.
-/

namespace Vaux
namespace Mqtt

open Wire Decoder

variable {σ : Type}

/-- From the head `p` on, the counter moves with the cursor, and the loop ends with the
counter at the length of the section. -/
structure CounterExact (ps : List (Property σ)) (unsupported : PropertyType → MqttCodecError)
    (length : Nat) (p : PropertyLoop σ × Bytes) : Prop where
  moves : ∀ q, Heads (propertyCond length) (propertyRound ps unsupported) p q →
    q.1.propertyBytesRead + q.2.length = p.1.propertyBytesRead + p.2.length
  stops : ∀ q, Heads (propertyCond length) (propertyRound ps unsupported) p q →
    length ≤ q.1.propertyBytesRead → q.1.propertyBytesRead = length

/-- Neither a user property nor one whose bytes are not counted. -/
def Property.Plain (p : Property σ) : Prop :=
  p.counted = true ∧ p.member.codec.extra = 0

/-- The next `length` bytes are whole plain properties of the table. -/
inductive PlainSection (ps : List (Property σ)) : Nat → Bytes → Prop
  | done (src : Bytes) : PlainSection ps 0 src
  | property {x : UInt8} {src : Bytes} {t : PropertyType} {p : Property σ} {n length : Nat}
      (ht : PropertyType.tryFrom x = .ok t) (hp : arm ps t = some p) (hplain : p.Plain)
      (hfront : p.member.codec.field.front src = .whole n)
      (hrest : PlainSection ps length (src.drop n)) : PlainSection ps (1 + n + length) (x :: src)

/-- What a property whose bytes are not counted has is not nothing. -/
def UncountedHaveBytes (ps : List (Property σ)) : Prop :=
  ∀ p ∈ ps, p.counted = false → ∀ b, p.member.codec.field.front b ≠ .whole 0

section

variable {ps : List (Property σ)} {unsupported : PropertyType → MqttCodecError} {length : Nat}

theorem CounterExact.next {p q : PropertyLoop σ × Bytes}
    (h : CounterExact ps unsupported length p)
    (hr : Round (propertyCond length) (propertyRound ps unsupported) p q) :
    CounterExact ps unsupported length q where
  moves r hq := by
    have h₁ := h.moves r (Relation.ReflTransGen.head hr hq)
    have h₂ := h.moves q (Relation.ReflTransGen.single hr)
    omega
  stops r hq := h.stops r (Relation.ReflTransGen.head hr hq)

/-- A decoder succeeds where its field is whole. -/
theorem Codec.decode_of_front {α : Type} (c : Codec α) {src : Bytes} {n : Nat}
    (h : c.field.front src = .whole n) :
    ∃ a, c.decode.run src = .ok ((a, n + c.extra), src.drop n) := by
  have hs := c.shows src
  cases hrun : c.decode.run src with
  | ok r =>
      obtain ⟨⟨a, m⟩, rest⟩ := r
      rw [hrun] at hs
      obtain ⟨k, hk, rfl, rfl⟩ := hs
      rw [h] at hk
      cases hk
      exact ⟨a, rfl⟩
  | err e =>
      rw [hrun] at hs
      rcases hs with ⟨-, hf⟩ | ⟨-, hf⟩ <;> simp [h] at hf
  | panic =>
      rw [hrun] at hs
      have hf : c.field.front src = .cut := hs
      simp [h] at hf

theorem PlainSection.of_exact (hpos : UncountedHaveBytes ps) {p q : PropertyLoop σ × Bytes}
    (hpath : Heads (propertyCond length) (propertyRound ps unsupported) p q)
    (hexit : length ≤ q.1.propertyBytesRead) (h : CounterExact ps unsupported length p) :
    p.1.propertyBytesRead ≤ length ∧ PlainSection ps (length - p.1.propertyBytesRead) p.2 := by
  induction hpath using Relation.ReflTransGen.head_induction_on with
  | refl =>
      have := h.stops q .refl hexit
      rw [this, Nat.sub_self]
      exact ⟨le_refl _, .done _⟩
  | @head p p' hround _ ih =>
      obtain ⟨hle, hplain⟩ := ih (h.next hround)
      have hmoves := h.moves p' (Relation.ReflTransGen.single hround)
      obtain ⟨st, src₀⟩ := p
      obtain ⟨st', src₁⟩ := p'
      have hlt : st.propertyBytesRead < length := by simpa [propertyCond] using hround.1
      obtain ⟨x, src, t, p, a, n, rfl, ht, hp, hrun, rfl⟩ := propertyRound_ok hround.2
      obtain ⟨k, hfront, hk, rfl, rfl⟩ := p.member.codec.decode_ok hrun
      refine ⟨hlt.le, ?_⟩
      have hcounted : p.counted = true ∧ p.member.codec.extra = 0 := by
        simp only [List.length_cons, List.length_drop] at hmoves
        cases hc : p.counted with
        | false =>
            rw [hc] at hmoves
            simp only [Bool.false_eq_true, if_false] at hmoves
            have h0 : k = 0 := by omega
            exact absurd (h0 ▸ hfront) (hpos p (arm_mem hp) hc src)
        | true =>
            rw [hc] at hmoves
            simp only [if_true] at hmoves
            exact ⟨rfl, by omega⟩
      have hlen : length - st.propertyBytesRead =
          1 + k + (length - (st.propertyBytesRead + 1 + k)) := by
        simp only [hcounted.1, if_true, hcounted.2, Nat.add_zero] at hle
        omega
      simp only [hcounted.1, if_true, hcounted.2, Nat.add_zero] at hplain
      show PlainSection ps (length - st.propertyBytesRead) (x :: src)
      rw [hlen]
      exact .property ht hp hcounted hfront hplain

theorem PlainSection.exact {left : Nat} {src : Bytes} (h : PlainSection ps left src)
    (st : PropertyLoop σ) (hst : st.propertyBytesRead + left = length) :
    CounterExact ps unsupported length (st, src) := by
  induction h generalizing st with
  | done src =>
      have hstop : ∀ q, Heads (propertyCond length) (propertyRound ps unsupported) (st, src) q →
          q = (st, src) := by
        intro q hq
        rcases Relation.ReflTransGen.cases_head hq with heq | ⟨p', hround, -⟩
        · exact heq.symm
        · have hc : st.propertyBytesRead < length := by simpa [propertyCond] using hround.1
          omega
      constructor
      · intro q hq
        rw [hstop q hq]
      · intro q hq _
        rw [hstop q hq]
        simpa using hst
  | @property x src t p n rest ht hp hplain hfront _ ih =>
      obtain ⟨a, hrun⟩ := p.member.codec.decode_of_front hfront
      -- the one round there is
      let st' : PropertyLoop σ :=
        { self := p.member.apply st.self a
          propertyBytesRead := st.propertyBytesRead + 1 + n
          bytesRead := st.bytesRead }
      have hround : Round (propertyCond length) (propertyRound ps unsupported)
          (st, x :: src) (st', src.drop n) := by
        refine ⟨by simp [propertyCond]; omega, ?_⟩
        rw [propertyRound_cons ps unsupported st x src ht hp, hrun]
        simp [st', hplain.1, hplain.2]
      have hnext := ih st' (by simp only [st']; omega)
      have hn := p.member.codec.field.whole_le hfront
      constructor
      · intro q hq
        rcases Relation.ReflTransGen.cases_head hq with rfl | ⟨p', hround', hq'⟩
        · rfl
        · rw [← hround.unique hround'] at hq'
          have := hnext.moves q hq'
          simp only [st', List.length_drop] at this
          simp only [List.length_cons]
          omega
      · intro q hq hexit
        rcases Relation.ReflTransGen.cases_head hq with rfl | ⟨p', hround', hq'⟩
        · simp only at hexit ⊢
          omega
        · rw [← hround.unique hround'] at hq'
          exact hnext.stops q hq' hexit

end

/-- The loop of a section runs exactly over the section. -/
def SectionExact (ps : List (Property σ)) (unsupported : PropertyType → MqttCodecError) (self : σ)
    (bytesRead : Nat) (src : Bytes) : Prop :=
  ∀ length n rest, decodeVariableByteInt.run src = .ok ((length, n), rest) →
    CounterExact ps unsupported length.toNat
      ({ self, propertyBytesRead := 0, bytesRead := bytesRead + n }, rest)

/-- The section at the front of `src`, a length and that many bytes, is made of plain
properties. -/
def PlainAt (ps : List (Property σ)) (src : Bytes) : Prop :=
  ∀ len rest, src = len ++ rest → VarIntBytes len → PlainSection ps (varIntValue len) rest

theorem sectionExact_iff {ps : List (Property σ)} {unsupported : PropertyType → MqttCodecError}
    (hpos : UncountedHaveBytes ps) {self : σ} {bytesRead : Nat} {src : Bytes}
    {r : σ × Nat} {left : Bytes}
    (hok : (decodeProperties ps unsupported self bytesRead).run src = .ok (r, left)) :
    SectionExact ps unsupported self bytesRead src ↔ PlainAt ps src := by
  obtain ⟨length, n, rest, st, hlen, hheads, hexit, -, -⟩ := decodeProperties_ok hok
  obtain ⟨c, rfl, hc, h3, hval⟩ := decodeVariableByteInt_ok_iff.mp hlen
  cases hval
  have hvalue : (UInt32.ofNat (varIntValue c)).toNat = varIntValue c := by
    have := varIntValue_lt_of_length h3
    rw [UInt32.toNat_ofNat']
    omega
  rw [hvalue] at hheads hexit
  constructor
  · intro h c' rest' heq hc'
    obtain ⟨rfl, rfl⟩ := hc.prefix_unique hc' heq
    have hexact := h _ _ _ hlen
    rw [hvalue] at hexact
    simpa using (PlainSection.of_exact hpos hheads hexit hexact).2
  · intro h length' n' rest' hlen'
    rw [hlen] at hlen'
    cases hlen'
    rw [hvalue]
    exact (h _ _ rfl hc).exact _ (by simp)

/-! ## The sections of a packet -/

/-- The packet types whose body has a derived decoder, with its description, the value
it starts from and the packet made of the result. -/
inductive DerivedBody : PacketType → {σ : Type} → Derived σ → σ → (σ → Packet) → Prop
  | connAck : DerivedBody .connAck ConnAck.derived .default .connAck
  | pubAck : DerivedBody .pubAck PubResp.derived .default .pubAck
  | pubRec : DerivedBody .pubRec PubResp.derived .default .pubRec
  | pubRel : DerivedBody .pubRel PubResp.derived .default .pubRel
  | pubComp : DerivedBody .pubComp PubResp.derived .default .pubComp
  | disconnect : DerivedBody .disconnect Disconnect.derived .default .disconnect
  | subscribe : DerivedBody .subscribe Subscribe.derived .default .subscribe
  | subAck : DerivedBody .subAck SubAck.derived .default .subAck
  | unsubscribe : DerivedBody .unsubscribe Unsubscribe.derived .default .unsubscribe
  | unsubAck : DerivedBody .unsubAck UnsubAck.derived .default .unsubAck

theorem DerivedBody.decodeBody_eq {h : FixedHeader} {d : Derived σ} {self : σ} {packet : σ → Packet}
    (hd : DerivedBody h.packetType d self packet) :
    decodeBody h = asPacket (d.decode self) packet := by
  generalize ht : h.packetType = t at hd
  cases hd <;> simp only [decodeBody, ht]

/-- `SectionOf b ps unsupported self bytesRead src`: while it decodes `b`, the decoder
comes to a property section at `src`. -/
inductive SectionOf (b : Bytes) :
    {σ : Type} → List (Property σ) → (PropertyType → MqttCodecError) → σ → Nat → Bytes → Prop
  | derived {first : UInt8} {len body rest : Bytes} {σ : Type} {d : Derived σ} {self : σ}
      {packet : σ → Packet} {r₁ r₂ : σ × Nat} {src₁ src₂ : Bytes}
      (hopen : Opened b first len body rest)
      (hd : DerivedBody (headerOf first).packetType d self packet)
      (hheader : (decodeMembers d.header self 0).run body = .ok (r₁, src₁))
      (hmore : ¬ (d.abbreviatedWhen.isSome = true ∧ src₁.length = 0))
      (hfields : (decodeMembers d.nonAbbreviated r₁.1 r₁.2).run src₁ = .ok (r₂, src₂)) :
      SectionOf b d.properties unsupportedProperty r₂.1 r₂.2 src₂
  | publish {first : UInt8} {len body rest : Bytes} {topicName : String} {n : Nat}
      {r : Publish × Nat} {src₁ src₂ : Bytes} (hopen : Opened b first len body rest)
      (ht : (headerOf first).packetType = .publish)
      (htopic : decodeString.run body = .ok ((topicName, n), src₁))
      (hid : (Publish.decodePacketId
        { Publish.default with fixedHeader := headerOf first, topicName } n).run src₁ =
          .ok (r, src₂)) :
      SectionOf b Publish.properties Publish.unsupported r.1 r.2 src₂
  | connect {first : UInt8} {len body rest : Bytes} {r : Connect × Nat} {src : Bytes}
      (hopen : Opened b first len body rest) (ht : (headerOf first).packetType = .connect)
      (hheader : (decodeMembers Connect.header (Connect.new "") 0).run body = .ok (r, src)) :
      SectionOf b Connect.properties Connect.unsupported r.1 r.2 src
  | will {first : UInt8} {len body rest : Bytes} {r₁ r₂ r₃ : Connect × Nat}
      {src₁ src₂ src₃ : Bytes}
      (hopen : Opened b first len body rest) (ht : (headerOf first).packetType = .connect)
      (hheader : (decodeMembers Connect.header (Connect.new "") 0).run body = .ok (r₁, src₁))
      (hproperties : (decodeProperties Connect.properties Connect.unsupported r₁.1 r₁.2).run src₁ =
        .ok (r₂, src₂))
      (hclientId : (Connect.clientIdMember.decode r₂.1 r₂.2).run src₂ = .ok (r₃, src₃))
      (hwill : r₃.1.will = true) :
      SectionOf b WillHeader.properties unsupportedProperty WillHeader.default 0 src₃

section

variable {b src : Bytes} {ps : List (Property σ)} {unsupported : PropertyType → MqttCodecError}
  {self : σ} {bytesRead : Nat}

theorem decode_ok_body {first : UInt8} {len body rest : Bytes} (hopen : Opened b first len body rest)
    {p : Packet} {n : Nat} (hok : decode b = .ok (some (p, n))) :
    ∃ r, (decodeBody (headerOf first)).run body = .ok r := by
  rw [decode_opened hopen] at hok
  obtain ⟨r, hrun, -⟩ := Outcome.bind_eq_ok.mp hok
  exact ⟨r, hrun⟩

theorem asPacket_ok {d : Dec (σ × Nat)} {packet : σ → Packet} {r : (Packet × Nat) × Bytes}
    (h : (asPacket d packet).run src = .ok r) : ∃ q, d.run src = .ok q := by
  simp only [asPacket, run_bind] at h
  obtain ⟨q, hq, -⟩ := Outcome.bind_eq_ok.mp h
  exact ⟨q, hq⟩

/-- If the packet is accepted, so is each of its sections. -/
theorem SectionOf.accepted (hs : SectionOf b ps unsupported self bytesRead src) {p : Packet}
    {n : Nat} (hok : decode b = .ok (some (p, n))) :
    ∃ r left, (decodeProperties ps unsupported self bytesRead).run src = .ok (r, left) := by
  cases hs with
  | derived hopen hd hheader hmore hfields =>
      obtain ⟨r, hrun⟩ := decode_ok_body hopen hok
      rw [hd.decodeBody_eq] at hrun
      obtain ⟨q, hq⟩ := asPacket_ok hrun
      simp only [Derived.decode, run_bind, hheader, Outcome.bind_ok, run_remaining, hmore,
        if_false, Derived.decodeFull, hfields] at hq
      obtain ⟨⟨r', left⟩, hprops, -⟩ := Outcome.bind_eq_ok.mp hq
      exact ⟨r', left, hprops⟩
  | @publish first _ _ _ _ _ _ _ _ hopen ht htopic hid =>
      obtain ⟨r, hrun⟩ := decode_ok_body hopen hok
      have hnew : Publish.newFromHeader (headerOf first) =
          .ok { Publish.default with fixedHeader := headerOf first } := by
        simp [Publish.newFromHeader, ht]
      simp only [decodeBody, ht, run_bind, run_lift, hnew, Outcome.ofExcept_ok, Outcome.map_ok,
        Outcome.bind_ok] at hrun
      obtain ⟨q, hq⟩ := asPacket_ok hrun
      simp only [Publish.decode, run_bind, htopic, Outcome.bind_ok, hid] at hq
      obtain ⟨⟨r', left⟩, hprops, -⟩ := Outcome.bind_eq_ok.mp hq
      exact ⟨r', left, hprops⟩
  | connect hopen ht hheader =>
      obtain ⟨r, hrun⟩ := decode_ok_body hopen hok
      simp only [decodeBody, ht] at hrun
      obtain ⟨q, hq⟩ := asPacket_ok hrun
      simp only [Connect.decode, run_bind, hheader, Outcome.bind_ok] at hq
      obtain ⟨⟨r', left⟩, hprops, -⟩ := Outcome.bind_eq_ok.mp hq
      exact ⟨r', left, hprops⟩
  | @will _ _ _ _ _ _ r₃ _ _ _ hopen ht hheader hproperties hclientId hwill =>
      obtain ⟨r, hrun⟩ := decode_ok_body hopen hok
      simp only [decodeBody, ht] at hrun
      obtain ⟨q, hq⟩ := asPacket_ok hrun
      simp only [Connect.decode, run_bind, hheader, Outcome.bind_ok, hproperties, hclientId] at hq
      obtain ⟨⟨r', left⟩, hw, -⟩ := Outcome.bind_eq_ok.mp hq
      rw [Connect.decodeWill, if_pos hwill, run_bind, WillHeader.decode_eq] at hw
      obtain ⟨⟨r'', left'⟩, hprops, -⟩ := Outcome.bind_eq_ok.mp hw
      exact ⟨r'', left', hprops⟩

theorem binary_front_ne_zero (b : Bytes) : Codec.binary.field.front b ≠ .whole 0 := by
  intro h
  have hb : Codec.binary.field = .sized fun _ => true := rfl
  rw [hb] at h
  have := Field.sized_whole_pos h
  omega

theorem uncountedHaveBytes_of
    (h : ∀ p ∈ ps, p.counted = true ∨ p.member.codec.field = Codec.binary.field) :
    UncountedHaveBytes ps := by
  intro p hp hc b
  rcases h p hp with ht | hb
  · rw [ht] at hc
    cases hc
  · rw [hb]
    exact binary_front_ne_zero b

/-- The one kind of property that is not counted is a `Vec<u8>`. -/
theorem SectionOf.uncountedHaveBytes (hs : SectionOf b ps unsupported self bytesRead src) :
    UncountedHaveBytes ps := by
  apply uncountedHaveBytes_of
  cases hs with
  | derived hopen hd hheader hmore hfields =>
      generalize (headerOf _).packetType = t at hd
      cases hd with
      | connAck =>
          simp [ConnAck.derived, ConnAck.properties, Property.option, Property.userProperty,
            Property.vec, Member.skipIfEmpty]
      | pubAck | pubRec | pubRel | pubComp =>
          simp [PubResp.derived, PubResp.properties, Property.option, Property.userProperty]
      | disconnect =>
          simp [Disconnect.derived, Disconnect.properties, Property.option, Property.userProperty]
      | subscribe =>
          simp [Subscribe.derived, Subscribe.properties, Property.option, Property.userProperty]
      | subAck => simp [SubAck.derived, SubAck.properties, Property.option, Property.userProperty]
      | unsubscribe => simp [Unsubscribe.derived, Unsubscribe.properties, Property.userProperty]
      | unsubAck =>
          simp [UnsubAck.derived, UnsubAck.properties, Property.required, Property.userProperty]
  | publish =>
      simp [Publish.properties, Property.option, Property.userProperty, Property.vec]
  | connect =>
      simp [Connect.properties, Property.option, Property.userProperty, Property.vec]
  | will =>
      simp [WillHeader.properties, Property.option, Property.userProperty, Property.vec,
        Member.skipIfEmpty]

/-- In a packet that is accepted, the loop of a property section runs exactly over the
section if and only if the section is made of plain properties. -/
theorem section_exact_iff_plain (hs : SectionOf b ps unsupported self bytesRead src) {p : Packet}
    {n : Nat} (hok : decode b = .ok (some (p, n))) :
    SectionExact ps unsupported self bytesRead src ↔ PlainAt ps src := by
  obtain ⟨r, left, hrun⟩ := hs.accepted hok
  exact sectionExact_iff hs.uncountedHaveBytes hrun

end

theorem opened_single (first : UInt8) (body : Bytes) (hb : body.length < 128)
    (hl : LegalFlags (headerOf first)) :
    Opened (first :: UInt8.ofNat body.length :: body) first [UInt8.ofNat body.length] body [] := by
  have hlen : (UInt8.ofNat body.length).toNat = body.length := by
    rw [UInt8.toNat_ofNat']
    omega
  exact
    { eq := by simp
      varInt := varIntBytes_singleton (by omega)
      len_le := by simp
      body_length := by simp only [varIntValue, hlen]; omega
      len_le_three := by simp
      legal := hl }

/-- A PUBACK with an empty reason string. -/
theorem section_exact_of_reason_string :
    SectionExact PubResp.properties unsupportedProperty
      { PubResp.default with packetId := 1, reason := some .success } 3 [0x03, 0x1f, 0x00, 0x00] := by
  have hs : SectionOf [0x40, 0x07, 0x00, 0x01, 0x00, 0x03, 0x1f, 0x00, 0x00] PubResp.properties
      unsupportedProperty { PubResp.default with packetId := 1, reason := some .success } 3
      [0x03, 0x1f, 0x00, 0x00] :=
    .derived (d := PubResp.derived)
      (opened_single 0x40 [0x00, 0x01, 0x00, 0x03, 0x1f, 0x00, 0x00] (by decide)
        (by intro r h; cases h; rfl))
      .pubAck rfl (by decide) rfl
  refine (section_exact_iff_plain hs (n := 9) (p := .pubAck
    { PubResp.default with packetId := 1, reason := some .success, reasonDesc := some "" })
    (by decide +kernel)).mpr ?_
  intro len rest heq hc
  obtain ⟨rfl, rfl⟩ := (varIntBytes_singleton (x := 3) (by decide)).prefix_unique hc heq
  have hfront : Codec.string.field.front [0x00, 0x00] = .whole 2 := by decide +kernel
  have hplain : PlainSection PubResp.properties (1 + 2 + 0) (0x1f :: [0x00, 0x00]) :=
    .property (t := .reasonString) rfl rfl ⟨rfl, rfl⟩ hfront (.done _)
  exact hplain

/-- A PUBACK with one empty user property: the section has five bytes and the counter
ends at nine. -/
theorem section_not_exact_of_user_property :
    ¬ ∀ b p n, decode b = .ok (some (p, n)) →
      ∀ (σ : Type) (ps : List (Property σ)) (unsupported : PropertyType → MqttCodecError) (self : σ)
        (bytesRead : Nat) (src : Bytes), SectionOf b ps unsupported self bytesRead src →
          SectionExact ps unsupported self bytesRead src := by
  intro h
  have hs : SectionOf [0x40, 0x09, 0x00, 0x01, 0x00, 0x05, 0x26, 0x00, 0x00, 0x00, 0x00]
      PubResp.properties unsupportedProperty
      { PubResp.default with packetId := 1, reason := some .success } 3
      [0x05, 0x26, 0x00, 0x00, 0x00, 0x00] :=
    .derived (d := PubResp.derived)
      (opened_single 0x40 [0x00, 0x01, 0x00, 0x05, 0x26, 0x00, 0x00, 0x00, 0x00] (by decide)
        (by intro r h; cases h; rfl))
      .pubAck rfl (by decide) rfl
  have hok : decode [0x40, 0x09, 0x00, 0x01, 0x00, 0x05, 0x26, 0x00, 0x00, 0x00, 0x00] =
      .ok (some (.pubAck
        { PubResp.default with
          packetId := 1
          reason := some .success
          userProperties := UserProperty.new.add "" "" }, 15)) := by decide +kernel
  have hexact := h _ _ _ hok _ _ _ _ _ _ hs
  obtain ⟨r, left, hrun⟩ := hs.accepted hok
  have hplain := (sectionExact_iff hs.uncountedHaveBytes hrun).mp hexact [0x05]
    [0x26, 0x00, 0x00, 0x00, 0x00] rfl (varIntBytes_singleton (by decide))
  have hsection : ∀ len src, PlainSection PubResp.properties len (0x26 :: src) → len = 0 := by
    intro len src hplain
    cases hplain with
    | done => rfl
    | property ht hp hplain =>
        cases ht
        cases hp
        cases hplain.2
  have := hsection _ _ hplain
  simp [varIntValue] at this

end Mqtt
end Vaux
