import Vaux.Mqtt.ConnectLayout

/-!
# The CONNECT layout that is read

The decoder reads what the encoder writes: of a will the payload, then the topic.  Where the two
are the same bytes, or there is no will, it reads a message of the specification into the fields
it stands for, if the loops over the properties stop at the ends of their sections.  A loop that
stops too early cannot be made up for behind it.
-/

namespace Vaux
namespace Mqtt

open Wire Decoder Reference

/-! ## Fields with two bytes of length -/

theorem eq_of_decodeString {src rest : Bytes} {s : String} {n : Nat}
    (h : decodeString.run src = .ok ((s, n), rest)) : src = utf8String s ++ rest := by
  obtain ⟨data, hdata, -, rfl⟩ := takesSized_decodeString.ok_data h
  split at hdata <;> cases hdata
  rename_i hs
  rw [utf8String_eq, utf8_of_fromUtf8 hs]

theorem eq_of_decodeArrayField {src rest : Bytes} {b : Bytes} {n : Nat}
    (h : decodeArrayField.run src = .ok ((b, n), rest)) : src = binaryData b ++ rest := by
  obtain ⟨data, hdata, -, rfl⟩ := takesSized_decodeArrayField.ok_data h
  cases hdata
  exact rfl

namespace Connect

/-! ## User name and password -/

section

variable {s s' : Connect} {k n : Nat} {src left : Bytes}

theorem eq_of_decodeUsername (h : (decodeUsername s k).run src = .ok ((s', n), left)) :
    ∃ u, s' = { s with usernameField := u } ∧
      src = (if s.username then utf8String u else []) ++ left := by
  rcases decodeUsername_cases h with ⟨hflag, u, j, hrun, rfl⟩ | ⟨hflag, rfl, rfl⟩
  · refine ⟨u, rfl, ?_⟩
    rw [hflag, if_pos rfl]
    exact eq_of_decodeString hrun
  · refine ⟨_, rfl, ?_⟩
    rw [hflag]
    rfl

theorem eq_of_decodePassword (h : (decodePassword s k).run src = .ok ((s', n), left)) :
    ∃ b, s' = { s with passwordField := b } ∧
      src = (if s.password then binaryData b else []) ++ left := by
  rcases decodePassword_cases h with ⟨hflag, b, j, hrun, rfl⟩ | ⟨hflag, rfl, rfl⟩
  · refine ⟨b, rfl, ?_⟩
    rw [hflag, if_pos rfl]
    exact eq_of_decodeArrayField hrun
  · refine ⟨_, rfl, ?_⟩
    rw [hflag]
    rfl

/-- A user name is read if and only if it is announced, also an empty one. -/
theorem reads_decodeUsername {o : Option String} (hflag : s.username = o.isSome)
    (hempty : s.usernameField = "") (hfit : ∀ u, o = some u → (utf8 u).length ≤ 65535) (k : Nat) :
    ∃ n, Reads (decodeUsername s k) (o.elim [] utf8String)
      ({ s with usernameField := o.getD "" }, n) := by
  unfold decodeUsername
  cases o with
  | none =>
      have hsame : { s with usernameField := (none : Option String).getD "" } = s := by
        rw [Option.getD_none, ← hempty]
      rw [hflag, hsame]
      exact ⟨k, Reads.pure _⟩
  | some u =>
      rw [hflag, Option.isSome_some, if_pos rfl]
      have hread : Reads decodeString (utf8String u) (u, (utf8 u).length + 2) :=
        reads_decodeString (hfit u rfl)
      exact ⟨_, hread.bind_nil (Reads.pure _)⟩

theorem reads_decodePassword {o : Option Bytes} (hflag : s.password = o.isSome)
    (hempty : s.passwordField = []) (hfit : ∀ b, o = some b → b.length ≤ 65535) (k : Nat) :
    ∃ n, Reads (decodePassword s k) (o.elim [] binaryData)
      ({ s with passwordField := o.getD [] }, n) := by
  unfold decodePassword
  cases o with
  | none =>
      have hsame : { s with passwordField := (none : Option Bytes).getD [] } = s := by
        rw [Option.getD_none, ← hempty]
      rw [hflag, hsame]
      exact ⟨k, Reads.pure _⟩
  | some b =>
      rw [hflag, Option.isSome_some, if_pos rfl]
      have hread : Reads decodeArrayField (binaryData b) (b, b.length + 2) :=
        reads_decodeArrayField (hfit b rfl)
      exact ⟨_, hread.bind_nil (Reads.pure _)⟩

end

end Connect

/-! ## Sections that the counter keeps to -/

namespace Reference

def correlationIdentifier : UInt8 := 0x09

/-- What the decoder counts for a property: four too many for a user property, and of
correlation data nothing but the identifier. -/
def Entry.counted (e : Entry) : Nat :=
  if e.identifier = userIdentifier then e.bytes.length + 4
  else if e.identifier = correlationIdentifier then 1
  else e.bytes.length

/-- The count reaches the length of the section with the last property, and not before. -/
structure Kept (l : List Entry) : Prop where
  before : ∀ front e, l = front ++ [e] →
    (front.map Entry.counted).sum < (l.flatMap Entry.bytes).length
  reached : (l.flatMap Entry.bytes).length ≤ (l.map Entry.counted).sum

theorem kept_iff (l : List Entry) :
    Kept l ↔ (l ≠ [] → (l.dropLast.map Entry.counted).sum < (l.flatMap Entry.bytes).length) ∧
      (l.flatMap Entry.bytes).length ≤ (l.map Entry.counted).sum := by
  constructor
  · rintro ⟨hbefore, hreached⟩
    exact ⟨fun hne => hbefore _ _ (List.dropLast_append_getLast hne).symm, hreached⟩
  · rintro ⟨hbefore, hreached⟩
    refine ⟨fun front e heq => ?_, hreached⟩
    have hlt := hbefore (by simp [heq])
    rwa [heq, List.dropLast_concat, ← heq] at hlt

instance : DecidablePred Kept := fun l => decidable_of_iff _ (kept_iff l).symm

/-- The table counts what `Entry.counted` says. -/
structure Counts {σ π : Type} (item : π → Item σ) (entry : π → Entry) : Prop where
  counted : ∀ p, (item p).property.counted = decide ((entry p).identifier ≠ correlationIdentifier)
  extra : ∀ p, (item p).property.member.codec.extra =
    if (entry p).identifier = userIdentifier then 4 else 0

theorem ConnectProperty.counts : Counts ConnectProperty.item ConnectProperty.entry where
  counted p := by cases p <;> rfl
  extra p := by cases p <;> rfl

theorem WillProperty.counts : Counts WillProperty.item WillProperty.entry where
  counted p := by
    cases p with
    | payloadFormatIndicator f => cases f <;> rfl
    | _ => rfl
  extra p := by
    cases p with
    | payloadFormatIndicator f => cases f <;> rfl
    | _ => rfl

section

variable {σ π : Type} {ps : List (Property σ)} {item : π → Item σ} {entry : π → Entry}
  {l : List π}

theorem charge_eq (hr : Renders ps item entry) (hc : Counts item entry) {p : π}
    (hfit : (entry p).value.Fits) : (item p).charge = (entry p).counted := by
  obtain ⟨e, he, hbytes⟩ := Item.encode_eq_ok (hr.encode p hfit)
  have hlength : (entry p).bytes.length = e.length + 1 := by
    rw [hbytes, List.length_cons]
  have hcharge : (item p).charge =
      1 + if (entry p).identifier ≠ correlationIdentifier then
        e.length + if (entry p).identifier = userIdentifier then 4 else 0 else 0 := by
    simp only [Item.charge, Property.entry, he, encodedLength_ok, hc.counted, hc.extra,
      decide_eq_true_eq]
  have hdistinct : userIdentifier ≠ correlationIdentifier := by decide
  rw [hcharge, Entry.counted, hlength]
  by_cases huser : (entry p).identifier = userIdentifier
  · rw [huser, if_pos rfl, if_pos hdistinct, if_pos rfl]
    omega
  · rw [if_neg huser, if_neg huser]
    by_cases hdata : (entry p).identifier = correlationIdentifier
    · rw [if_neg (not_not.mpr hdata), if_pos hdata]
    · rw [if_pos hdata, if_neg hdata]
      omega

theorem itemsCharge_eq (hr : Renders ps item entry) (hc : Counts item entry)
    (hfit : ∀ e ∈ l.map entry, e.value.Fits) :
    itemsCharge (l.map item) = ((l.map entry).map Entry.counted).sum := by
  rw [itemsCharge, List.map_map, List.map_map]
  congr 1
  refine List.map_congr_left fun p hp => ?_
  exact charge_eq hr hc (hfit _ (List.mem_map_of_mem hp))

theorem itemsLength_eq (hr : Renders ps item entry) (hfit : ∀ e ∈ l.map entry, e.value.Fits) :
    itemsLength (l.map item) = ((l.map entry).flatMap Entry.bytes).length :=
  (encodeItems_length (hr.encodeAll_eq hfit)).symm

/-- It is enough to look at the last property: the count does not become less. -/
theorem paced_iff (hr : Renders ps item entry) (hc : Counts item entry)
    (hfit : ∀ e ∈ l.map entry, e.value.Fits) : Paced (l.map item) ↔ Kept (l.map entry) := by
  have hcharge := itemsCharge_eq hr hc hfit
  have hlength := itemsLength_eq hr hfit
  have hpart : ∀ front back, l = front ++ back →
      itemsCharge (front.map item) = ((front.map entry).map Entry.counted).sum := by
    rintro front back rfl
    refine itemsCharge_eq hr hc fun e he => hfit e ?_
    rw [List.map_append]
    exact List.mem_append_left _ he
  constructor
  · rintro ⟨hbefore, hreached⟩
    rw [hcharge, hlength] at hreached
    refine ⟨fun front e heq => ?_, hreached⟩
    obtain ⟨l₁, l₂, rfl, rfl, hlast⟩ := List.map_eq_append_iff.mp heq
    have hne : l₂.map item ≠ [] := by
      intro hnil
      rw [List.map_eq_nil_iff.mp hnil] at hlast
      cases hlast
    have hlt := hbefore (l₁.map item) (l₂.map item) List.map_append hne
    rwa [hlength, hpart l₁ l₂ rfl] at hlt
  · rintro ⟨hbefore, hreached⟩
    refine ⟨fun front back heq hne => ?_, by rwa [hcharge, hlength]⟩
    obtain ⟨l₁, l₂, rfl, rfl, rfl⟩ := List.map_eq_append_iff.mp heq
    obtain ⟨init, last, rfl⟩ : ∃ init last, l₂ = init ++ [last] := by
      rcases List.eq_nil_or_concat' l₂ with rfl | h
      · exact absurd rfl hne
      · exact h
    have hlt := hbefore ((l₁ ++ init).map entry) (entry last) (by simp)
    rw [hlength, hpart l₁ (init ++ [last]) rfl]
    rw [List.map_append, List.map_append, List.sum_append] at hlt
    omega

end

/-! ## The packet a message stands for -/

/-- What the members in front of the properties make of a new packet. -/
def Message.opened (m : Message) : Connect :=
  { Connect.new "" with connectFlags := m.connectFlags, keepAlive := m.keepAlive }

/-- What the members and the properties make of it. -/
def Message.stored (m : Message) : Connect := m.properties.foldl ConnectProperty.store m.opened

/-- The packet with the payload of the message. -/
def Message.complete (m : Message) (c : Connect) : Connect :=
  { c with
    clientId := m.clientId
    willProperties := m.will.map Will.header
    willPayload := m.will.elim [] Will.payload
    willTopic := m.will.map Will.topic
    usernameField := m.username.getD ""
    passwordField := m.password.getD [] }

theorem Message.connect_eq_complete (m : Message) : m.connect = m.complete m.stored := by
  have hbare : m.bare = m.complete m.opened := rfl
  rw [connect, hbare, stored]
  exact List.foldl_hom m.complete fun c p => by cases p <;> rfl

/-- The payload is not read yet. -/
theorem stripped_foldl {c : Connect} (hc : c.stripped = c) (l : List ConnectProperty) :
    (l.foldl ConnectProperty.store c).stripped = l.foldl ConnectProperty.store c := by
  conv_rhs => rw [← hc]
  exact (List.foldl_hom Connect.stripped fun c p => by cases p <;> rfl).symm

theorem Message.stripped_connect (m : Message) :
    m.connect.stripped = { m.stored with clientId := m.clientId } := by
  have hstored : m.stored.stripped = m.stored := stripped_foldl rfl m.properties
  rw [m.connect_eq_complete]
  conv_rhs => rw [← hstored]
  rfl

/-- The user name and the password of a message. -/
def Message.credentials (m : Message) : Bytes :=
  m.username.elim [] utf8String ++ m.password.elim [] binaryData

/-! ## The tail -/

section

variable {m : Message} {k n : Nat} {src left : Bytes}

/-- A will whose section is kept to, and of which the payload and the topic are the same bytes,
is read. -/
theorem reads_decodeWill (hfits : m.Fits)
    (hwill : ∀ w, m.will = some w → (w.entries.flatMap Entry.bytes).length ≤ 2097151 ∧
      w.payload = utf8 w.topic ∧ Kept w.entries) (k : Nat) :
    ∃ n, Reads (Connect.decodeWill m.connect.stripped k) (m.will.elim [] Will.bytes)
      (m.connect.withWill, n) := by
  have hflag : m.connect.stripped.will = m.will.isSome := m.flags_connect.2.2
  have hconnect := m.connect_eq_complete
  unfold Connect.decodeWill
  cases hw : m.will with
  | none =>
      have hsame : m.connect.withWill = m.connect.stripped := by
        rw [hconnect, Connect.withWill, Message.complete, hw]
        rfl
      rw [hflag, hw, hsame]
      exact ⟨k, Reads.pure _⟩
  | some w =>
      obtain ⟨hlen, hsame, hkept⟩ := hwill w hw
      have hentries := (hfits.will w hw).properties.fits
      have hsection := (WillProperty.renders.sectionBytes hentries hlen).reads unsupportedProperty
        WillHeader.lawful.table
        ((paced_iff WillProperty.renders WillProperty.counts hentries).mpr hkept) .default 0
      have hpayload : Reads decodeArrayField (utf8String w.topic)
          (utf8 w.topic, (utf8 w.topic).length + 2) :=
        reads_decodeArrayField (hfits.will w hw).topic
      have htopic : Reads decodeString (binaryData w.payload)
          (w.topic, (utf8 w.topic).length + 2) := by
        rw [hsame]
        exact reads_decodeString (hfits.will w hw).topic
      have hresult : m.connect.withWill =
          { m.connect.stripped with
            willProperties := some w.header
            willPayload := utf8 w.topic
            willTopic := some w.topic } := by
        rw [hconnect, Connect.withWill, Message.complete, hw, ← hsame]
        rfl
      rw [hflag, hw, Option.isSome_some, if_pos rfl, WillHeader.decode_eq, hresult, w.header_eq]
      exact ⟨_, hsection.bind (hpayload.bind (htopic.bind_nil (Reads.pure _)))⟩

theorem reads_decodeTail (hfits : m.Fits)
    (hwill : ∀ w, m.will = some w → (w.entries.flatMap Entry.bytes).length ≤ 2097151 ∧
      w.payload = utf8 w.topic ∧ Kept w.entries) (k : Nat) :
    ∃ n, Reads (Connect.decodeTail m.connect.stripped k) m.announced (m.connect, n) := by
  obtain ⟨husername, hpassword, -⟩ := m.flags_connect
  have hconnect := m.connect_eq_complete
  obtain ⟨n₁, hread₁⟩ := reads_decodeWill hfits hwill k
  obtain ⟨n₂, hread₂⟩ := Connect.reads_decodeUsername (s := m.connect.withWill) husername rfl
    hfits.username n₁
  have hname : m.username.getD "" = m.connect.usernameField := by rw [hconnect]; rfl
  rw [hname] at hread₂
  obtain ⟨n₃, hread₃⟩ := Connect.reads_decodePassword (s := m.connect.withUsername) hpassword rfl
    hfits.password n₂
  have hpass : m.password.getD [] = m.connect.passwordField := by rw [hconnect]; rfl
  have hheader : m.connect.fixedHeader = .new .connect :=
    congrArg (fun f => f.1) m.fields_connect
  rw [hpass, Connect.withPassword_eq hheader] at hread₃
  exact ⟨n₃, hread₁.bind (hread₂.bind hread₃)⟩

theorem elim_isSome {α : Type} (o : Option α) (d : α) (f : α → Bytes) :
    (if o.isSome then f (o.getD d) else []) = o.elim [] f := by
  cases o <;> rfl

/-- If the tail is read into the fields of the message, and nothing is left, the bytes are
those of the fields, the payload in front of the topic. -/
theorem tail_of_decode
    (h : (Connect.decodeTail m.connect.stripped k).run src = .ok ((m.connect, n), [])) :
    (m.will = none → src = m.credentials) ∧
      ∀ w, m.will = some w → ∃ j,
        (decodeProperties WillHeader.properties unsupportedProperty .default 0).run src =
          .ok ((w.header, j),
            binaryData w.payload ++ (utf8String w.topic ++ m.credentials)) := by
  obtain ⟨husername, hpassword, hwill⟩ := m.flags_connect
  have hconnect := m.connect_eq_complete
  simp only [Connect.decodeTail, run_bind] at h
  obtain ⟨⟨⟨s₁, n₁⟩, src₁⟩, h₁, h⟩ := Outcome.bind_eq_ok.mp h
  obtain ⟨⟨⟨s₂, n₂⟩, src₂⟩, h₂, h₃⟩ := Outcome.bind_eq_ok.mp h
  obtain ⟨u, hs₂, hsrc₁⟩ := Connect.eq_of_decodeUsername h₂
  obtain ⟨b, hs₃, hsrc₂⟩ := Connect.eq_of_decodePassword h₃
  simp only at hs₂ hsrc₁ hs₃ hsrc₂
  subst hs₂
  have hu : u = m.username.getD "" := by
    have hfield := congrArg Connect.usernameField hs₃
    rw [hconnect] at hfield
    exact hfield.symm
  have hb : b = m.password.getD [] := by
    have hfield := congrArg Connect.passwordField hs₃
    rw [hconnect] at hfield
    exact hfield.symm
  have hflag₁ : s₁.username = m.username.isSome :=
    (congrArg Connect.username hs₃).symm.trans husername
  have hflag₂ : s₁.password = m.password.isSome :=
    (congrArg Connect.password hs₃).symm.trans hpassword
  have hsrc : src₁ = m.credentials := by
    have hpass : src₂ = m.password.elim [] binaryData := by
      rw [hsrc₂, List.append_nil, ← elim_isSome m.password [], ← hflag₂, ← hb]
      rfl
    rw [hsrc₁, hflag₁, hu, elim_isSome, hpass]
    rfl
  have hflag : m.connect.stripped.will = m.will.isSome := hwill
  rcases Connect.decodeWill_cases h₁ with
    ⟨hset, header, j, payload, j₁, topic, j₂, t₁, t₂, hsection, hpayload, htopic, rfl⟩ |
    ⟨hclear, rfl, hleft⟩
  · rw [hset] at hflag
    refine ⟨fun hw => ?_, fun w hw => ⟨j, ?_⟩⟩
    · rw [hw] at hflag
      cases hflag
    · have hheader : some w.header = some header := by
        have hfield := congrArg Connect.willProperties hs₃
        rwa [hconnect, Message.complete, hw] at hfield
      have hpayload' : w.payload = payload := by
        have hfield := congrArg Connect.willPayload hs₃
        rwa [hconnect, Message.complete, hw] at hfield
      have htopic' : some w.topic = some topic := by
        have hfield := congrArg Connect.willTopic hs₃
        rwa [hconnect, Message.complete, hw] at hfield
      cases hheader
      cases htopic'
      rw [hpayload', ← hsrc, ← eq_of_decodeString htopic, ← eq_of_decodeArrayField hpayload,
        hsection]
  · rw [hclear] at hflag
    refine ⟨fun _ => hleft.symm.trans hsrc, fun w hw => ?_⟩
    rw [hw] at hflag
    cases hflag

/-! ## The front -/

theorem reads_header (m : Message) :
    Reads (decodeMembers Connect.header (Connect.new "") 0) m.variableHeader
      (m.opened, m.variableHeader.length) := by
  have hname : Codec.string.encode "MQTT" = .ok (utf8String "MQTT") :=
    encodeString_of_fits (by decide +kernel)
  have hheader : encodeAll (Member.encode .sorted m.bare) Connect.header =
      .ok m.variableHeader := by
    rfl
  have hfit : MembersFit .sorted Connect.header m.bare := by
    simp only [MembersFit, Connect.header, Connect.connectFlagsMember, List.forall_mem_cons,
      List.not_mem_nil, false_imp_iff, implies_true, and_true]
    refine ⟨fun a ha => ?_, fun a _ => ⟨trivial, _, rfl⟩, fun a _ => ⟨trivial, _, rfl⟩,
      fun a _ => ⟨trivial, _, rfl⟩⟩
    rw [List.mem_singleton.mp ha]
    exact ⟨trivial, _, hname⟩
  have hread := decodeMembers_reads Connect.front_lawful.header hfit hheader (Connect.new "") 0
  rwa [Nat.zero_add] at hread

theorem reads_clientId (hfits : m.Fits) (c : Connect) (k : Nat) :
    ∃ n, Reads (Connect.clientIdMember.decode c k) (utf8String m.clientId)
      ({ c with clientId := m.clientId }, n) := by
  have hread : Reads decodeString (utf8String m.clientId)
      (m.clientId, (utf8 m.clientId).length + 2) := reads_decodeString hfits.clientId
  exact ⟨_, hread.bind_nil (Reads.pure _)⟩

theorem reads_decodeFront (hfits : m.Fits)
    (hlen : (m.entries.flatMap Entry.bytes).length ≤ 2097151) (hkept : Kept m.entries) :
    ∃ n, Reads (Connect.decodeFront (Connect.new ""))
      (m.variableHeader ++ (propertySection m.entries ++ utf8String m.clientId))
      (m.connect.stripped, n) := by
  have hentries := hfits.properties.fits
  have hpaced := (paced_iff ConnectProperty.renders ConnectProperty.counts hentries).mpr hkept
  have hsection := (ConnectProperty.renders.sectionBytes hentries hlen).reads Connect.unsupported
    Connect.front_lawful.table hpaced m.opened m.variableHeader.length
  rw [ConnectProperty.applyItems_map] at hsection
  obtain ⟨n, hclient⟩ := reads_clientId hfits m.stored _
  rw [m.stripped_connect]
  exact ⟨n, (reads_header m).bind (hsection.bind hclient)⟩

end

end Reference

end Mqtt
end Vaux
