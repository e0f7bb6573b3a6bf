import Vaux.Mqtt.ConnectTail
import Vaux.Mqtt.Parts
import Vaux.Mqtt.ReferenceItems

/-!
# The layout of a CONNECT that is written

A CONNECT built with its setters is written as the specification lays it out, but for the will:
the payload comes in front of the topic.  So the bytes are those of a message of the
specification exactly if the two are the same bytes, or there is no will, and the format can
express the packet at all.
-/

namespace Vaux
namespace Mqtt

open Wire Decoder Reference

/-! ## Prefixes -/

namespace Reference

theorem binaryData_append_inj {b b' x x' : Bytes} (hb : b.length ≤ 65535)
    (hb' : b'.length ≤ 65535) (h : binaryData b ++ x = binaryData b' ++ x') : b = b' ∧ x = x' := by
  have hread := reads_decodeArrayField hb x
  have hread' := reads_decodeArrayField hb' x'
  rw [← binaryData_eq, h, binaryData_eq, hread'] at hread
  cases hread
  exact ⟨rfl, rfl⟩

theorem propertySection_append_inj {l l' : List Entry} {x x' : Bytes}
    (hl : (l.flatMap Entry.bytes).length ≤ 268435455)
    (hl' : (l'.flatMap Entry.bytes).length ≤ 268435455)
    (h : propertySection l ++ x = propertySection l' ++ x') :
    propertySection l = propertySection l' ∧ x = x' := by
  obtain ⟨hvar, hvalue, -⟩ := variableByteInteger_spec hl
  obtain ⟨hvar', hvalue', -⟩ := variableByteInteger_spec hl'
  rw [propertySection, propertySection, List.append_assoc, List.append_assoc] at h
  obtain ⟨hlen, hrest⟩ := hvar.prefix_unique hvar' h
  rw [← hlen, hvalue] at hvalue'
  obtain ⟨hprops, rfl⟩ := List.append_inj hrest hvalue'
  rw [propertySection, propertySection, hprops]
  exact ⟨rfl, rfl⟩

/-- The will as the encoder writes it. -/
def Will.written (w : Will) : Bytes :=
  propertySection w.entries ++ (binaryData w.payload ++ utf8String w.topic)

def Message.written (m : Message) : Bytes :=
  m.variableHeader ++ (propertySection m.entries ++ (utf8String m.clientId ++
    (m.will.elim [] Will.written ++
      (m.username.elim [] utf8String ++ m.password.elim [] binaryData))))

end Reference

/-! ## What the setters make -/

namespace Connect

section

variable {c : Connect}

theorem Built.protocol (h : c.Built) : c.protocolName = "MQTT" ∧ c.protocolVersion = 5 := by
  induction h with
  | new clientId => exact ⟨rfl, rfl⟩
  | _ => assumption

/-- The setters change the flags as the specification counts them. -/
theorem setters_flagsByte (u p b : Bool) (w : Option (QoSLevel × Bool)) :
    (∀ b', flagsByte u p w b &&& ~~~connectFlagCleanStart ||| (putBool b' <<< 1) =
      flagsByte u p w b') ∧
    (flagsByte u p w b &&& ~~~connectFlagUsername = flagsByte false p w b ∧
      flagsByte u p w b &&& ~~~connectFlagUsername ||| ((1 : UInt8) <<< 7) =
        flagsByte true p w b) ∧
    (flagsByte u p w b &&& ~~~connectFlagPassword = flagsByte u false w b ∧
      flagsByte u p w b &&& ~~~connectFlagPassword ||| ((1 : UInt8) <<< 6) =
        flagsByte u true w b) ∧
    ∀ (q : QoSLevel) (r : Bool),
      (((flagsByte u p w b &&& ~~~connectFlagWill ||| (putBool true <<< 2)) &&&
        ~~~connectFlagWillQos ||| (q.toU8 <<< 3)) &&& ~~~connectFlagWillRetain |||
          (putBool r <<< 5)) = flagsByte u p (some (q, r)) b := by
  rcases w with _ | ⟨q, r⟩
  · cases u <;> cases p <;> cases b <;>
      refine ⟨fun b' => ?_, ⟨by decide, by decide⟩, ⟨by decide, by decide⟩, fun q' r' => ?_⟩
    all_goals first
      | cases b' <;> decide
      | cases q' <;> cases r' <;> decide
  · cases u <;> cases p <;> cases b <;> cases q <;> cases r <;>
      refine ⟨fun b' => ?_, ⟨by decide, by decide⟩, ⟨by decide, by decide⟩, fun q' r' => ?_⟩
    all_goals first
      | cases b' <;> decide
      | cases q' <;> cases r' <;> decide

theorem Built.flagsByte (h : c.Built) :
    ∃ u p w b, c.connectFlags = Reference.flagsByte u p w b := by
  induction h with
  | new clientId => exact ⟨false, false, none, false, rfl⟩
  | fields h _ _ _ _ _ _ _ _ _ _ _ ih => exact ih
  | setWillMessage h will ih =>
      obtain ⟨u, p, w, b, hflags⟩ := ih
      refine ⟨u, p, some (will.qos, will.retain), b, ?_⟩
      rw [← (setters_flagsByte u p b w).2.2.2, ← hflags]
      rfl
  | setUsername h username ih =>
      obtain ⟨u, p, w, b, hflags⟩ := ih
      obtain ⟨hclear, hset⟩ := (setters_flagsByte u p b w).2.1
      rw [← hflags] at hclear hset
      cases username with
      | none => exact ⟨false, p, w, b, hclear⟩
      | some s => exact ⟨true, p, w, b, hset⟩
  | setPassword h password ih =>
      obtain ⟨u, p, w, b, hflags⟩ := ih
      obtain ⟨hclear, hset⟩ := (setters_flagsByte u p b w).2.2.1
      rw [← hflags] at hclear hset
      cases password with
      | none => exact ⟨u, false, w, b, hclear⟩
      | some s => exact ⟨u, true, w, b, hset⟩
  | setCleanStart h cleanStart ih =>
      obtain ⟨u, p, w, b, hflags⟩ := ih
      refine ⟨u, p, w, cleanStart, ?_⟩
      rw [← (setters_flagsByte u p b w).1, ← hflags]
      rfl
  | setSessionExpiryInterval h interval ih => exact ih

theorem flags_of_flagsByte {u p b : Bool} {w : Option (QoSLevel × Bool)}
    (h : c.connectFlags = Reference.flagsByte u p w b) :
    c.username = u ∧ c.password = p ∧ c.will = w.isSome := by
  unfold username password will
  rw [h]
  rcases w with _ | ⟨q, r⟩
  · cases u <;> cases p <;> cases b <;> decide
  · cases u <;> cases p <;> cases b <;> cases q <;> cases r <;> decide

/-- The packet without its properties. -/
def cleared (c : Connect) : Connect :=
  { c with
    sessionExpiryInterval := none
    receiveMaximum := none
    maxPacketSize := none
    topicAliasMaximum := none
    requestResponseInfo := none
    requestProblemInfo := none
    authMethod := none
    authData := []
    userProperties := .new }

variable {order : HashOrder}

theorem fresh_cleared (order : HashOrder) (c : Connect) : Fresh order properties c.cleared := by
  simp only [Fresh, properties, List.forall_mem_cons, List.not_mem_nil, false_imp_iff, implies_true,
    and_true]
  and_intros
  all_goals first
    | exact .inr rfl
    | exact .inr (UserProperty.pairs_new order)

theorem items_cleared (order : HashOrder) (c : Connect) :
    ∀ m ∈ front.members, m.items order c.cleared = m.items order c := by
  simp only [Derived.members, front, header, connectFlagsMember, clientIdMember, List.cons_append,
    List.nil_append, List.forall_mem_cons, List.not_mem_nil, false_imp_iff, implies_true, and_true]
  and_intros <;> rfl

/-- The properties that are written make the packet again. -/
theorem applyItems_cleared (order : HashOrder) (c : Connect) :
    applyItems (propertyItems order properties c) c.cleared = c := by
  have hl := front_lawful
  refine hl.ext order _ _ ?_ ?_ (by simp [front])
  · rw [applyItems_frame payloadPart]
    · rfl
    · exact fun i hi =>
        hl.fixed_apply _ (Derived.Lawful.properties_mem (mem_propertyItems.mp hi).1)
  · intro m hm
    rcases List.mem_append.mp hm with hm | hm
    · rw [applyItems_frame fun s => m.items order s]
      · exact items_cleared order c m hm
      · exact fun i hi s a => (hl.members_apart hm (mem_propertyItems.mp hi).1 order s).1 a
    · obtain ⟨p, hp, rfl⟩ := List.mem_map.mp hm
      exact items_applyItems hl.table c (fresh_cleared order c) hp

/-! ## The message that is written -/

/-- What its flags announce is there to be written. -/
structure Filled (c : Connect) : Prop where
  will : c.will = true → c.willPayload ≠ []
  username : c.username = true → c.usernameField ≠ ""
  password : c.password = true → c.passwordField ≠ []

theorem header_eq_ok {e : Bytes} (h : encodeAll (Member.encode order c) header = .ok e) :
    e = utf8String c.protocolName ++ [c.protocolVersion, c.connectFlags] ++
      twoByteInteger c.keepAlive := by
  obtain ⟨e₁, r₁, h₁, hr₁, rfl⟩ := encodeAll_cons_eq_ok h
  obtain ⟨e₂, r₂, h₂, hr₂, rfl⟩ := encodeAll_cons_eq_ok hr₁
  obtain ⟨e₃, r₃, h₃, hr₃, rfl⟩ := encodeAll_cons_eq_ok hr₂
  obtain ⟨e₄, r₄, h₄, hr₄, rfl⟩ := encodeAll_cons_eq_ok hr₃
  obtain ⟨-, rfl⟩ := encodeString_eq_ok (encodeAll_singleton_eq_ok h₁)
  cases h₂
  cases h₃
  cases h₄
  cases hr₄
  simp [utf8String_eq, twoByteInteger, putU16]

/-- A field that is skipped if it is empty is written exactly if it is announced. -/
theorem announced_field {α : Type} [DecidableEq α] {encode : α → Enc} {data : α → Bytes}
    (hencode : ∀ a e, encode a = .ok e → (data a).length ≤ 65535 ∧ e = prefixed (data a))
    {flag : Bool}
    {a empty : α} (hset : flag = true → a ≠ empty) (hclear : flag = false → a = empty) {e : Bytes}
    (h : encodeAll encode (if a = empty then [] else [a]) = .ok e) :
    ∃ o : Option α, o.isSome = flag ∧ o.getD empty = a ∧
      e = (o.elim [] fun x => binaryData (data x)) ∧
      ∀ x, o = some x → (data x).length ≤ 65535 := by
  cases flag with
  | false =>
      rw [if_pos (hclear rfl)] at h
      cases h
      exact ⟨none, rfl, (hclear rfl).symm, rfl, fun x hx => by cases hx⟩
  | true =>
      rw [if_neg (hset rfl)] at h
      obtain ⟨hfit, rfl⟩ := hencode a _ (encodeAll_singleton_eq_ok h)
      refine ⟨some a, rfl, rfl, rfl, fun x hx => ?_⟩
      cases hx
      exact hfit

/-- The will of a message that is written, as the flags, the fields and the bytes have it. -/
structure WrittenWill (c : Connect) (w : Option (QoSLevel × Bool)) (e : Bytes) (will : Option Will) :
    Prop where
  flags : (will.map fun w => (w.qos, w.retain)) = w
  properties : will.map Will.header = c.willProperties
  payload : will.elim [] Will.payload = c.willPayload
  topic : will.map Will.topic = c.willTopic
  bytes : e = will.elim [] Will.written
  fits : ∀ x, will = some x → x.Fits

theorem exists_will (hb : c.Built) (hf : c.Filled) {w : Option (QoSLevel × Bool)}
    (hwill : c.will = w.isSome) {e₄ t₁ t₂ : Bytes} (h₄ : c.encodeWillProperties order = .ok e₄)
    (hlen : e₄.length ≤ 268435455)
    (ht₁ : encodeAll Codec.binary.encode
      (if c.willPayload = [] then [] else [c.willPayload]) = .ok t₁)
    (ht₂ : encodeAll Codec.string.encode c.willTopic.toList = .ok t₂) :
    ∃ will, WrittenWill c w (e₄ ++ (t₁ ++ t₂)) will := by
  cases w with
  | none =>
      obtain ⟨hprops, hpayload, htopic⟩ := hb.flagged.noWill hwill
      rw [encodeWillProperties, hprops] at h₄
      rw [hpayload] at ht₁
      rw [htopic] at ht₂
      cases h₄
      cases ht₁
      cases ht₂
      exact ⟨none, rfl, hprops.symm, hpayload.symm, htopic.symm, rfl, fun x hx => by cases hx⟩
  | some w =>
      obtain ⟨hprops, htopic⟩ := hb.flagged.will hwill
      obtain ⟨header, hprops⟩ := Option.isSome_iff_exists.mp hprops
      obtain ⟨topic, htopic⟩ := Option.isSome_iff_exists.mp htopic
      rw [encodeWillProperties, hprops] at h₄
      simp only [WillHeader.encodeBody_eq] at h₄
      rw [if_neg (hf.will hwill)] at ht₁
      rw [htopic] at ht₂
      obtain ⟨hpayloadFit, rfl⟩ := encodeArrayField_eq_ok (encodeAll_singleton_eq_ok ht₁)
      obtain ⟨htopicFit, rfl⟩ := encodeString_eq_ok (encodeAll_singleton_eq_ok ht₂)
      obtain ⟨l, hl, rfl, hadmissible⟩ :=
        WillProperty.renders.exists_written WillHeader.lawful.table single_will h₄ hlen
      refine ⟨some ⟨w.1, w.2, l, topic, c.willPayload⟩, rfl, ?_, rfl, htopic.symm, rfl, ?_⟩
      · rw [hprops, Option.map_some, Will.header_eq, hl, willHeader_rebuilt]
      · intro x hx
        cases hx
        exact ⟨hadmissible, htopicFit, hpayloadFit⟩

/-- What the encoder writes for a packet that is built: a message that stands for the packet,
with the payload of its will in front of the topic. -/
theorem exists_message (hb : c.Built) (hf : c.Filled) {body : Bytes}
    (hbody : c.encodeBody order = .ok body) (hlen : body.length ≤ 268435455) :
    ∃ m : Message, m.connect = c ∧ m.Fits ∧ body = m.written := by
  obtain ⟨e₁, e₂, e₃, e₄, e₅, h₁, h₂, h₃, h₄, h₅, rfl⟩ := encodeBody_eq_ok hbody
  obtain ⟨t₁, t₂, t₃, t₄, ht₁, ht₂, ht₃, ht₄, rfl⟩ := payloadTail_eq_ok h₅
  simp only [List.length_append] at hlen
  obtain ⟨u, p, w, b, hflags⟩ := hb.flagsByte
  obtain ⟨husername, hpassword, hwill⟩ := flags_of_flagsByte hflags
  obtain ⟨hname, hversion⟩ := hb.protocol
  obtain ⟨l, hl, rfl, hadmissible⟩ :=
    ConnectProperty.renders.exists_written front_lawful.table single_connect h₂ (by omega)
  obtain ⟨hclientId, rfl⟩ := encodeString_eq_ok (encodeAll_singleton_eq_ok h₃)
  obtain ⟨will, hw⟩ := exists_will hb hf hwill h₄ (by omega) ht₁ ht₂
  obtain ⟨user, huser, huserField, rfl, huserFit⟩ :=
    announced_field (fun _ _ => encodeString_eq_ok) hf.username hb.flagged.noUsername ht₃
  obtain ⟨pass, hpass, hpassField, rfl, hpassFit⟩ :=
    announced_field (fun _ _ => encodeArrayField_eq_ok) hf.password hb.flagged.noPassword ht₄
  let m : Message := ⟨b, c.keepAlive, l, c.clientId, will, user, pass⟩
  have hconnectFlags : m.connectFlags = c.connectFlags := by
    rw [hflags, ← husername, ← hpassword, ← hw.flags, ← huser, ← hpass]
    rfl
  refine ⟨m, ?_, ⟨hadmissible, hclientId, hw.fits, huserFit, hpassFit⟩, ?_⟩
  · have hbare : m.bare = c.cleared := by
      simp only [Message.bare, cleared, hconnectFlags, hw.properties, hw.payload, hw.topic,
        huserField, hpassField, hb.header, hname, hversion, m]
      rfl
    rw [Message.connect_eq, hl, hbare, applyItems_cleared]
  · have hheader := header_eq_ok h₁
    rw [hname, hversion, ← hconnectFlags] at hheader
    have hpayload : ∀ x, e₄ ++ (t₁ ++ (t₂ ++ x)) = will.elim [] Will.written ++ x := by
      intro x
      rw [← hw.bytes]
      simp only [List.append_assoc]
    simp only [hheader, List.append_assoc, hpayload]
    exact (List.append_assoc _ _ _).symm

end

end Connect

/-! ## The layout -/

namespace Reference

/-- No property touches the other fields. -/
theorem Message.connect_frame {β : Type*} (f : Connect → β)
    (hf : ∀ c p, f (ConnectProperty.store c p) = f c) (m : Message) : f m.connect = f m.bare := by
  rw [connect]
  generalize m.bare = c
  induction m.properties generalizing c with
  | nil => rfl
  | cons p l ih => rw [List.foldl_cons, ih, hf]

/-- The fields that are not properties. -/
def fields (c : Connect) :=
  (c.fixedHeader, c.protocolName, c.protocolVersion, c.connectFlags, c.keepAlive, c.clientId,
    c.willProperties, c.willPayload, c.willTopic, c.usernameField, c.passwordField)

theorem Message.fields_connect (m : Message) : fields m.connect = fields m.bare :=
  m.connect_frame fields fun c p => by cases p <;> rfl

theorem Message.flags_connect (m : Message) :
    m.connect.username = m.username.isSome ∧ m.connect.password = m.password.isSome ∧
      m.connect.will = m.will.isSome := by
  have hflags : m.connect.connectFlags = m.bare.connectFlags :=
    congrArg (fun f => f.2.2.2.1) m.fields_connect
  obtain ⟨husername, hpassword, hwill⟩ := Connect.flags_of_flagsByte hflags
  rw [Option.isSome_map] at hwill
  exact ⟨husername, hpassword, hwill⟩

theorem Message.will_connect {m : Message} {w : Will} (h : m.will = some w) :
    m.connect.willPayload = w.payload ∧ m.connect.willTopic = some w.topic := by
  have hpayload : m.connect.willPayload = m.bare.willPayload :=
    congrArg (fun f => f.2.2.2.2.2.2.2.1) m.fields_connect
  have htopic : m.connect.willTopic = m.bare.willTopic :=
    congrArg (fun f => f.2.2.2.2.2.2.2.2.1) m.fields_connect
  rw [hpayload, htopic, Message.bare, h]
  exact ⟨rfl, rfl⟩

theorem entries_length_le (l : List Entry) :
    (l.flatMap Entry.bytes).length ≤ (propertySection l).length := by
  rw [propertySection, List.length_append]
  exact Nat.le_add_left _ _

theorem Message.bytes_eq {m : Message} {e : Bytes} {size : UInt32}
    (hlen : m.body.length ≤ 268435455) (h : m.bytes = 0x10 :: (varIntEncoding size ++ e)) :
    e = m.body := by
  obtain ⟨-, htail⟩ := List.cons.inj h
  exact ((variableByteInteger_spec hlen).1.prefix_unique (varIntEncoding_spec size).1 htail).2.symm

end Reference

namespace Connect

section

variable {order : HashOrder} {c : Connect}

/-- What is encoded is the bytes of a message that stands for the packet. -/
def WritesLayout (order : HashOrder) (c : Connect) : Prop :=
  ∃ m : Message, m.Valid ∧ m.connect = c ∧ (Packet.connect c).encode order = .ok m.bytes

/-- The format has room for the packet. -/
def Expressible (order : HashOrder) (c : Connect) : Prop :=
  PartsFit (c.parts order) ∧ totalLength (c.parts order) ≤ 268435455

/-- It does not matter which of the two comes first. -/
def Interchangeable (c : Connect) : Prop :=
  c.will = true → c.willPayload = utf8 (c.willTopic.getD "")

theorem firstByte_connect (h : c.fixedHeader = .new .connect) : firstByte c.fixedHeader = 0x10 := by
  rw [h]
  decide

theorem written_eq_body {m : Message} (h : m.connect.Interchangeable) : m.written = m.body := by
  rw [Message.written, Message.body, Message.announced]
  cases hw : m.will with
  | none => rfl
  | some w =>
      obtain ⟨hpayload, htopic⟩ := Message.will_connect hw
      have hwill : m.connect.will = true := by rw [m.flags_connect.2.2, hw, Option.isSome_some]
      have hsame := h hwill
      rw [hpayload, htopic, Option.getD_some] at hsame
      have hbytes : w.written = w.bytes := by rw [Will.written, Will.bytes, hsame, utf8String]
      rw [Option.elim_some, Option.elim_some, hbytes]

theorem writesLayout_of_interchangeable (hb : c.Built) (hf : c.Filled) (hfit : c.Expressible order)
    (hwill : c.Interchangeable) : c.WritesLayout order := by
  obtain ⟨hparts, hle⟩ := hfit
  have htakes : Takes True (c.encodeBody order) (c.parts order) := c.takes
  obtain ⟨body, hbody⟩ := htakes.ok_iff.mpr hparts
  have hlength := htakes.length trivial body hbody (.inr hle)
  obtain ⟨m, rfl, hfits, rfl⟩ := exists_message hb hf hbody (by omega)
  rw [written_eq_body hwill] at hbody hlength
  have hsize : (m.connect.codecSize order).toNat = m.body.length := by
    rw [codecSize_eq hbody (by omega), UInt32.toNat_ofNat']
    omega
  refine ⟨m, ⟨hfits, by omega⟩, rfl, ?_⟩
  rw [Packet.encode, hbody, Message.bytes, variableByteInteger_eq hsize (by omega),
    ← firstByte_connect hb.header]
  rfl

/-- Two messages that stand for one packet, the second with the payload in front of the topic:
if they are the same bytes, the topic of the one is the payload of the other. -/
theorem topic_eq_payload {m m' : Message} (hvalid : m.Valid) (hfits : m'.Fits)
    (hsame : m.connect = m'.connect) (hbytes : m.body = m'.written) {w w' : Will}
    (hw : m.will = some w) (hw' : m'.will = some w') : utf8 w.topic = w'.payload := by
  have hfields : fields m.bare = fields m'.bare := by
    rw [← m.fields_connect, ← m'.fields_connect, hsame]
  have hflags : m.connectFlags = m'.connectFlags := congrArg (fun f => f.2.2.2.1) hfields
  have hkeepAlive : m.keepAlive = m'.keepAlive := congrArg (fun f => f.2.2.2.2.1) hfields
  have hclientId : m.clientId = m'.clientId := congrArg (fun f => f.2.2.2.2.2.1) hfields
  have hheader : m.variableHeader = m'.variableHeader := by
    rw [Message.variableHeader, Message.variableHeader, hflags, hkeepAlive]
  have hlen := hvalid.body
  have hlen' := hbytes ▸ hvalid.body
  have hprops := entries_length_le m.entries
  have hprops' := entries_length_le m'.entries
  have hwillProps := entries_length_le w.entries
  have hwillProps' := entries_length_le w'.entries
  simp only [Message.body, Message.written, Message.announced, hw, hw', Option.elim_some,
    Will.bytes, Will.written, hheader, hclientId, List.append_assoc] at hbytes hlen hlen'
  simp only [List.length_append] at hlen hlen'
  obtain ⟨-, hrest⟩ :=
    propertySection_append_inj (by omega) (by omega) (List.append_cancel_left hbytes)
  obtain ⟨-, hrest⟩ :=
    propertySection_append_inj (by omega) (by omega) (List.append_cancel_left hrest)
  exact (binaryData_append_inj (hvalid.will w hw).topic (hfits.will w' hw').payload hrest).1

theorem interchangeable_of_writesLayout (hb : c.Built) (hf : c.Filled)
    (h : c.WritesLayout order) : c.Expressible order ∧ c.Interchangeable := by
  obtain ⟨m, hvalid, hconnect, henc⟩ := h
  obtain ⟨body, hbody, heq⟩ := encodePacket_eq_ok henc
  rw [firstByte_connect hb.header] at heq
  obtain rfl := Message.bytes_eq hvalid.body heq
  have htakes : Takes True (c.encodeBody order) (c.parts order) := c.takes
  have hlength := htakes.length trivial _ hbody (.inl hvalid.body)
  refine ⟨⟨htakes.ok_iff.mp ⟨_, hbody⟩, hlength ▸ hvalid.body⟩, fun hwill => ?_⟩
  obtain ⟨m', hconnect', hfits', hwritten⟩ := exists_message hb hf hbody hvalid.body
  rw [← hconnect, m.flags_connect.2.2] at hwill
  have hwill' : m'.will.isSome = true := by
    rw [← m'.flags_connect.2.2, hconnect', ← hconnect, m.flags_connect.2.2, hwill]
  obtain ⟨w, hw⟩ := Option.isSome_iff_exists.mp hwill
  obtain ⟨w', hw'⟩ := Option.isSome_iff_exists.mp hwill'
  have htopic := topic_eq_payload hvalid hfits' (hconnect.trans hconnect'.symm) hwritten hw hw'
  rw [← (Message.will_connect hw').1, hconnect'] at htopic
  rw [← htopic, ← hconnect, (Message.will_connect hw).2, Option.getD_some]

end

end Connect

end Mqtt
end Vaux
