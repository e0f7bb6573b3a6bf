import Vaux.Mqtt.ConnectReading

/-!
# CONNECT against the specification

A loop that stops in front of a property leaves it to be read as what comes next.  In a CONNECT
nothing comes of that: only an empty authentication data can be missing from the properties
without a trace, and its three bytes, read as the beginning of the client identifier, move on to
the front of what follows it.
-/

namespace Vaux
namespace Mqtt

open Wire Decoder Reference

/-- What is put in front of a number of copies of itself comes out behind them. -/
theorem eq_of_shift {α : Type*} {a e y z : List α} (n : Nat) (hlen : e.length = n * a.length)
    (h : a ++ (e ++ y) = e ++ z) : z = a ++ y := by
  induction n generalizing e with
  | zero =>
      have hnil : e = [] := List.length_eq_zero_iff.mp (by rw [hlen, Nat.zero_mul])
      subst hnil
      exact h.symm
  | succ n ih =>
      rw [Nat.succ_mul] at hlen
      obtain ⟨e', rfl⟩ : a <+: e :=
        List.prefix_of_prefix_length_le (List.prefix_append a (e ++ y)) ⟨z, h.symm⟩ (by omega)
      rw [List.length_append] at hlen
      rw [List.append_assoc, List.append_assoc] at h
      exact ih (by omega) (List.append_cancel_left h)

namespace Reference

/-! ## What is missing from the properties -/

namespace ConnectProperty

/-- The packet has the property, if it is none of the user's. -/
def Held (c : Connect) : ConnectProperty → Prop
  | .sessionExpiryInterval v => c.sessionExpiryInterval = some v
  | .receiveMaximum v => c.receiveMaximum = some v
  | .maximumPacketSize v => c.maxPacketSize = some v
  | .topicAliasMaximum v => c.topicAliasMaximum = some v
  | .requestResponseInformation b => c.requestResponseInfo = some b
  | .requestProblemInformation b => c.requestProblemInfo = some b
  | .authenticationMethod s => c.authMethod = some s
  | .authenticationData b => c.authData = b
  | .userProperty _ _ => True

variable {c : Connect} {p q : ConnectProperty}

theorem held_store (c : Connect) (p : ConnectProperty) : Held (store c p) p := by
  cases p <;> first | rfl | trivial

theorem held_store_of_ne (h : q.entry.identifier ≠ p.entry.identifier) :
    Held (store c q) p ↔ Held c p := by
  cases p <;> cases q <;> first | exact Iff.rfl | exact absurd rfl h

theorem held_foldl {l : List ConnectProperty}
    (h : ∀ q ∈ l, q.entry.identifier ≠ p.entry.identifier) (c : Connect) :
    Held (l.foldl store c) p ↔ Held c p := by
  induction l generalizing c with
  | nil => exact Iff.rfl
  | cons q l ih =>
      obtain ⟨hq, hl⟩ := List.forall_mem_cons.mp h
      rw [List.foldl_cons, ih hl, held_store_of_ne hq]

theorem held_clientId (id : String) : Held { c with clientId := id } p ↔ Held c p := by
  cases p <;> exact Iff.rfl

theorem of_held_opened {m : Message} (h : Held m.opened p)
    (huser : p.entry.identifier ≠ userIdentifier) : p = .authenticationData [] := by
  cases p with
  | authenticationData b =>
      obtain rfl : [] = b := h
      rfl
  | userProperty name value => exact absurd rfl huser
  | _ => cases h

/-- Every user property is kept. -/
theorem users_foldl (l : List ConnectProperty) (c : Connect) :
    (l.foldl store c).userProperties.sum (fun _ => 1) = c.userProperties.sum (fun _ => 1) +
      l.countP fun p => p.entry.identifier = userIdentifier := by
  induction l generalizing c with
  | nil => rfl
  | cons p l ih =>
      rw [List.foldl_cons, ih, List.countP_cons]
      cases p with
      | userProperty name value =>
          have hadd : (store c (.userProperty name value)).userProperties =
            c.userProperties.add name value := rfl
          rw [hadd, UserProperty.sum_add, if_pos (by rfl)]
          omega
      | _ => rfl

end ConnectProperty

theorem Admissible.ne_of_split {l l' : List Entry} {e : Entry} (h : Admissible (l ++ e :: l'))
    (he : e.identifier ≠ userIdentifier) : ∀ x ∈ l ++ l', x.identifier ≠ e.identifier := by
  intro x hx heq
  have hnodup := h.once
  rw [List.filter_append, List.filter_cons_of_pos (by simpa using he), List.map_append,
    List.map_cons, List.nodup_middle, ← List.map_append, ← List.filter_append] at hnodup
  refine (List.nodup_cons.mp hnodup).1 ?_
  rw [← heq]
  exact List.mem_map_of_mem (List.mem_filter.mpr ⟨hx, by simpa [heq] using he⟩)

/-- Properties that are left out, and are not missed. -/
theorem eq_of_unread {m : Message} (hfits : m.Fits) {front back : List ConnectProperty}
    (hsplit : m.properties = front ++ back) (hne : back ≠ []) {id : String}
    (hsame : { m.stored with clientId := m.clientId } =
      { front.foldl ConnectProperty.store m.opened with clientId := id }) :
    back = [.authenticationData []] := by
  have husers : back.countP (fun p => p.entry.identifier = userIdentifier) = 0 := by
    have hall := ConnectProperty.users_foldl m.properties m.opened
    have hfront := ConnectProperty.users_foldl front m.opened
    have hfield : m.stored.userProperties =
        (front.foldl ConnectProperty.store m.opened).userProperties := by
      have h := congrArg Connect.userProperties hsame
      exact h
    rw [hsplit, List.countP_append, ← hsplit, ← Message.stored, hfield] at hall
    omega
  have hback : ∀ b₁ p b₂, back = b₁ ++ p :: b₂ →
      p = .authenticationData [] ∧ ∀ q ∈ b₁ ++ b₂, q.entry.identifier ≠ p.entry.identifier := by
    rintro b₁ p b₂ rfl
    have huser : p.entry.identifier ≠ userIdentifier := by
      simpa using List.countP_eq_zero.mp husers p (by simp)
    have hentries : m.entries =
        (front ++ b₁).map ConnectProperty.entry ++ p.entry :: b₂.map ConnectProperty.entry := by
      rw [Message.entries, hsplit]
      simp
    have hother : ∀ q ∈ front ++ b₁ ++ b₂, q.entry.identifier ≠ p.entry.identifier := by
      intro q hq
      refine (hentries ▸ hfits.properties).ne_of_split huser q.entry ?_
      rw [← List.map_append]
      exact List.mem_map_of_mem hq
    -- it is stored, and nothing is stored over it
    have hheld : p.Held m.stored := by
      have hlast : m.stored =
          b₂.foldl ConnectProperty.store
            (ConnectProperty.store ((front ++ b₁).foldl ConnectProperty.store m.opened) p) := by
        rw [Message.stored, hsplit]
        simp
      rw [hlast, ConnectProperty.held_foldl fun q hq => hother q (List.mem_append_right _ hq)]
      exact ConnectProperty.held_store _ p
    rw [← ConnectProperty.held_clientId m.clientId, hsame, ConnectProperty.held_clientId,
      ConnectProperty.held_foldl fun q hq => hother q (by simp [hq])] at hheld
    exact ⟨ConnectProperty.of_held_opened hheld huser,
      fun q hq => hother q (by simpa using .inr (List.mem_append.mp hq))⟩
  cases back with
  | nil => exact absurd rfl hne
  | cons p back =>
      obtain ⟨rfl, hother⟩ := hback [] p back rfl
      cases back with
      | nil => rfl
      | cons q back =>
          obtain ⟨rfl, -⟩ := hback [_] q back rfl
          exact absurd rfl (hother _ (by simp))

/-- The bytes of an empty authentication data. -/
def emptyData : Bytes := (ConnectProperty.authenticationData []).entry.bytes

/-- They begin no section of a will: the length is 22, and no property has the identifier 0. -/
theorem decodeProperties_emptyData {σ : Type} {ps : List (Property σ)}
    {unsupported : PropertyType → MqttCodecError} {s : σ} {k : Nat} {rest : Bytes}
    {r : (σ × Nat) × Bytes} :
    (decodeProperties ps unsupported s k).run (emptyData ++ rest) ≠ .ok r := by
  obtain ⟨⟨s', n⟩, left⟩ := r
  intro h
  obtain ⟨length, j, src', st, hlen, hheads, hle, -, -⟩ := decodeProperties_ok h
  have hread := reads_decodeVariableByteInt (varIntBytes_singleton (x := 0x16) (by decide))
    (by decide) (0 :: 0 :: rest)
  have hsplit : emptyData ++ rest = [0x16] ++ (0 :: 0 :: rest) := rfl
  rw [hsplit, hread] at hlen
  cases hlen
  rcases Relation.ReflTransGen.cases_head hheads with heq | ⟨⟨st₁, src₁⟩, hround, -⟩
  · cases heq
    exact absurd (show 22 ≤ 0 from hle) (by decide)
  · obtain ⟨x, src₂, t, p, a, j, hcons, htype, -⟩ := propertyRound_ok hround.2
    cases hcons
    cases htype

/-! ## The front -/

section

variable {m : Message} {k n : Nat} {src : Bytes}

/-- The client identifier that is read with an empty authentication data in front of it. -/
theorem eq_of_emptyData {s : String} (hfit : (utf8 s).length ≤ 65535) {y z : Bytes}
    (h : emptyData ++ (utf8String s ++ y) = utf8String s ++ z) : z = emptyData ++ y := by
  have hlen : (utf8 s).length = 5632 := by
    have hbytes : [0x16, 0x00] ++ (0x00 :: (utf8String s ++ y)) =
        twoByteInteger (UInt16.ofNat (utf8 s).length) ++ (utf8 s ++ z) := h
    have htwo := (List.append_inj hbytes rfl).1
    simp only [twoByteInteger, List.cons.injEq, and_true] at htwo
    obtain ⟨hhigh, hlow⟩ := htwo
    have hhigh := congrArg UInt8.toNat hhigh
    have hlow := congrArg UInt8.toNat hlow
    rw [UInt8.toNat_ofNat', UInt16.toNat_ofNat'] at hhigh hlow
    have h22 : (0x16 : UInt8).toNat = 22 := rfl
    have h0 : (0x00 : UInt8).toNat = 0 := rfl
    omega
  refine eq_of_shift 1878 ?_ h
  have htwo : (twoByteInteger (UInt16.ofNat (utf8 s).length)).length = 2 := rfl
  rw [utf8String, binaryData, List.length_append, htwo, hlen]
  rfl

theorem front_of_decode (hfits : m.Fits)
    (hlen : (m.entries.flatMap Entry.bytes).length ≤ 2097151)
    (h : (Connect.decodeFront (Connect.new "")).run m.body =
      .ok ((m.connect.stripped, k), src)) :
    Kept m.entries ∧ src = m.announced ∨ src = emptyData ++ m.announced := by
  have hentries := hfits.properties.fits
  have ht := Connect.front_lawful.table
  have hsection : SectionBytes Connect.properties (m.properties.map ConnectProperty.item)
      (propertySection m.entries) := ConnectProperty.renders.sectionBytes hentries hlen
  simp only [Connect.decodeFront, Message.body, run_bind, (reads_header m) _,
    Outcome.bind_ok] at h
  obtain ⟨⟨⟨s, j⟩, src₁⟩, hprops, h⟩ := Outcome.bind_eq_ok.mp h
  obtain ⟨id, j', hid, hself, -⟩ := Member.decode_ok h
  have hid := eq_of_decodeString hid
  rw [m.stripped_connect] at hself
  have hclientId : id = m.clientId := (congrArg Connect.clientId hself).symm
  subst hclientId
  rcases hsection.inv ht hprops with
    ⟨front, back, left, heq, hne, hleft, -, rfl, hsrc₁⟩ | hpaced | ⟨hlate, -⟩
  · obtain ⟨l₁, l₂, hsplit, rfl, rfl⟩ := List.map_eq_append_iff.mp heq
    rw [ConnectProperty.applyItems_map] at hself
    have hl₂ : l₂ ≠ [] := by
      rintro rfl
      exact hne rfl
    obtain rfl := eq_of_unread hfits hsplit hl₂ hself
    cases hleft
    right
    refine eq_of_emptyData hfits.clientId ?_
    rw [← hid]
    exact hsrc₁.symm
  · left
    have hread := hsection.reads Connect.unsupported ht hpaced m.opened m.variableHeader.length
      (utf8String m.clientId ++ m.announced)
    rw [hprops] at hread
    cases hread
    exact ⟨(paced_iff ConnectProperty.renders ConnectProperty.counts hentries).mp hpaced,
      (List.append_cancel_left hid).symm⟩
  · have hle := itemsLength_le_charge fun i hi => Connect.counted _ (hsection.mem i hi)
    omega

end

/-! ## The message -/

namespace Message

variable {m : Message}

/-- The decoder reads the whole message into the fields it stands for. -/
def ReadBack (m : Message) : Prop :=
  ∃ n, decodeLeaving m.bytes = .ok (some (.connect m.connect, n), [])

/-- Three bytes can say how long the message is, the count keeps to its sections, and it does
not matter which of the topic and the payload of its will comes first. -/
structure Readable (m : Message) : Prop where
  body : m.body.length ≤ 2097151
  properties : Kept m.entries
  will : ∀ w, m.will = some w → w.payload = utf8 w.topic ∧ Kept w.entries

theorem framed (hlen : m.body.length ≤ 268435455) :
    Framed m.bytes 0x10 (variableByteInteger m.body.length) m.body [] := by
  obtain ⟨hvar, hvalue, -, hfour⟩ := variableByteInteger_spec hlen
  exact framed_of_body 0x10 m.body hvar hfour hvalue.symm

theorem opened_iff (hlen : m.body.length ≤ 268435455) :
    (∃ first len body rest, Opened m.bytes first len body rest) ↔ m.body.length ≤ 2097151 := by
  obtain ⟨hheader, hlegal⟩ := headerOf_firstByte_new .connect
  have hthree := (variableByteInteger_spec hlen).2.2.1
  constructor
  · rintro ⟨first, len, body, rest, hopened⟩
    obtain ⟨-, rfl, -, -⟩ := hopened.toFramed.unique (framed hlen)
    exact hthree.mp hopened.len_le_three
  · intro hle
    exact ⟨0x10, _, _, _, framed hlen, hthree.mpr hle, hheader ▸ hlegal⟩

/-- The frame is not looked into, or its body is read. -/
theorem readBack_iff_body (hlen : m.body.length ≤ 268435455) :
    m.ReadBack ↔ m.body.length ≤ 2097151 ∧
      ∃ n, (Connect.new "").decode.run m.body = .ok ((m.connect, n), []) := by
  obtain ⟨hheader, hlegal⟩ := headerOf_firstByte_new .connect
  have hbody : ∀ hle : m.body.length ≤ 2097151, decodeLeaving m.bytes =
      ((asPacket (Connect.new "").decode .connect).run m.body).bind fun r =>
        .ok (some (r.1.1, 1 + (variableByteInteger m.body.length).length + r.1.2), r.2) := by
    intro hle
    have hthree := (variableByteInteger_spec hlen).2.2.1
    rw [decodeLeaving_framed (framed hlen) (hthree.mpr hle) (hheader ▸ hlegal)]
    rfl
  constructor
  · rintro ⟨n, hrun⟩
    have hle : m.body.length ≤ 2097151 := by
      rw [← opened_iff hlen]
      rcases decode_cases m.bytes with hopened | ⟨⟨e, -, he⟩, -⟩ | ⟨e, -, he⟩
      · exact hopened
      · rw [decode_eq_map, hrun] at he
        cases he
      · rw [decode_eq_map, hrun] at he
        cases he
    refine ⟨hle, ?_⟩
    rw [hbody hle] at hrun
    obtain ⟨⟨⟨p, j⟩, left⟩, hpacket, hrun⟩ := Outcome.bind_eq_ok.mp hrun
    cases hrun
    obtain ⟨c, hc, hconnect⟩ := asPacket_eq_ok hpacket
    cases hconnect
    exact ⟨j, hc⟩
  · rintro ⟨hle, n, hrun⟩
    refine ⟨1 + (variableByteInteger m.body.length).length + n, ?_⟩
    rw [hbody hle]
    simp only [asPacket, run_bind, hrun, Outcome.bind_ok, run_pure]

theorem entries_length_le_body (m : Message) :
    (m.entries.flatMap Entry.bytes).length ≤ m.body.length ∧
      ∀ w, m.will = some w → (w.entries.flatMap Entry.bytes).length ≤ m.body.length := by
  have hbody : m.body.length = m.variableHeader.length + ((propertySection m.entries).length +
      ((utf8String m.clientId).length + m.announced.length)) := by
    simp only [body, List.length_append]
  have hprops := entries_length_le m.entries
  refine ⟨by omega, fun w hw => ?_⟩
  have hwill := entries_length_le w.entries
  have hannounced : m.announced.length = (propertySection w.entries).length +
      ((utf8String w.topic).length + (binaryData w.payload).length) + m.credentials.length := by
    simp only [announced, credentials, hw, Option.elim_some, Will.bytes, List.length_append]
  omega

theorem announced_of_some {w : Will} (hw : m.will = some w) :
    m.announced = propertySection w.entries ++
      (utf8String w.topic ++ (binaryData w.payload ++ m.credentials)) := by
  simp only [announced, credentials, hw, Option.elim_some, Will.bytes, List.append_assoc]

/-- A will that is read is one of which the payload and the topic are the same bytes. -/
theorem will_of_decode (hfits : m.Fits) {w : Will} (hw : m.will = some w)
    (hlen : (w.entries.flatMap Entry.bytes).length ≤ 2097151) {j : Nat}
    (h : (decodeProperties WillHeader.properties unsupportedProperty .default 0).run m.announced =
      .ok ((w.header, j), binaryData w.payload ++ (utf8String w.topic ++ m.credentials))) :
    w.payload = utf8 w.topic ∧ Kept w.entries := by
  have hentries := (hfits.will w hw).properties.fits
  have hsection : SectionBytes WillHeader.properties (w.properties.map WillProperty.item)
      (propertySection w.entries) := WillProperty.renders.sectionBytes hentries hlen
  have ht := WillHeader.lawful.table
  rw [announced_of_some hw] at h
  have hlengths : (binaryData w.payload ++ (utf8String w.topic ++ m.credentials)).length =
      (utf8String w.topic ++ (binaryData w.payload ++ m.credentials)).length := by
    simp only [List.length_append]
    omega
  rcases hsection.inv ht h with ⟨front, back, src, -, hne, hsrc, -, -, hleft⟩ | hpaced | ⟨-, hless⟩
  · rw [hleft, List.length_append] at hlengths
    have hzero : itemsLength back = 0 := by
      rw [← encodeItems_length hsrc]
      omega
    exact absurd (items_eq_nil_of_length hzero) hne
  · have hread := hsection.reads unsupportedProperty ht hpaced .default 0
      (utf8String w.topic ++ (binaryData w.payload ++ m.credentials))
    rw [h] at hread
    obtain ⟨-, hrest⟩ := Prod.mk.inj (Outcome.ok.inj hread)
    exact ⟨(binaryData_append_inj (hfits.will w hw).payload (hfits.will w hw).topic hrest).1,
      (paced_iff WillProperty.renders WillProperty.counts hentries).mp hpaced⟩
  · omega

theorem readable_of_decode (hfits : m.Fits) (hle : m.body.length ≤ 2097151) {n : Nat}
    (h : (Connect.new "").decode.run m.body = .ok ((m.connect, n), [])) : m.Readable := by
  obtain ⟨hprops, hwillProps⟩ := m.entries_length_le_body
  rw [Connect.run_decode] at h
  obtain ⟨⟨⟨s, k⟩, src⟩, hfront, htail⟩ := Outcome.bind_eq_ok.mp h
  obtain ⟨hs, -, -⟩ := Connect.decodeFront_fits hfront .sorted
  obtain ⟨-, -, rfl, -⟩ := Connect.decodeTail_ok hs htail
  obtain ⟨hnone, hsome⟩ := tail_of_decode htail
  rcases front_of_decode hfits (by omega) hfront with ⟨hkept, rfl⟩ | hsrc
  · refine ⟨hle, hkept, fun w hw => ?_⟩
    obtain ⟨j, hsection⟩ := hsome w hw
    have hlen := hwillProps w hw
    exact will_of_decode hfits hw (by omega) hsection
  · exfalso
    rw [hsrc] at hnone hsome
    cases hw : m.will with
    | none =>
        have hlengths := congrArg List.length (hnone hw)
        have hannounced : m.announced = m.credentials := by rw [announced, hw]; rfl
        have hthree : emptyData.length = 3 := rfl
        rw [hannounced, List.length_append] at hlengths
        omega
    | some w =>
        obtain ⟨j, hsection⟩ := hsome w hw
        exact decodeProperties_emptyData hsection

theorem decode_of_readable (hfits : m.Fits) (h : m.Readable) :
    ∃ n, (Connect.new "").decode.run m.body = .ok ((m.connect, n), []) := by
  obtain ⟨hle, hkept, hwill⟩ := h
  obtain ⟨hprops, hwillProps⟩ := m.entries_length_le_body
  obtain ⟨k, hfront⟩ := reads_decodeFront hfits (by omega) hkept
  obtain ⟨n, htail⟩ := reads_decodeTail hfits
    (fun w hw => ⟨(hwillProps w hw).trans hle, hwill w hw⟩) k
  have hbytes : m.body =
      m.variableHeader ++ (propertySection m.entries ++ utf8String m.clientId) ++ m.announced := by
    simp only [body, List.append_assoc]
  refine ⟨n, ?_⟩
  rw [Connect.run_decode, hbytes, hfront m.announced, Outcome.bind_ok]
  exact htail.run_nil

theorem readBack_iff (hvalid : m.Valid) : m.ReadBack ↔ m.Readable := by
  rw [readBack_iff_body hvalid.body]
  constructor
  · rintro ⟨hle, n, hrun⟩
    exact readable_of_decode hvalid.toFits hle hrun
  · intro h
    exact ⟨h.body, decode_of_readable hvalid.toFits h⟩

end Message

end Reference

namespace Connect

/-- The layout of MQTT v5.0, written and read.  A packet of the builder is written as the
specification lays it out if and only if the format can express it and it does not matter in
which order the topic and the payload of its will come.  A message of the specification is read
into the fields it stands for if and only if, of its will, that does not matter either, three
bytes can say how long it is and the count of the decoder keeps to its property sections. -/
theorem layout_iff (order : HashOrder) :
    (∀ c : Connect, c.Built → c.Filled →
      (c.WritesLayout order ↔ c.Expressible order ∧ c.Interchangeable)) ∧
    ∀ m : Message, m.Valid → (m.ReadBack ↔ m.Readable) := by
  refine ⟨fun c hb hf => ⟨interchangeable_of_writesLayout hb hf, ?_⟩, fun m hm => m.readBack_iff hm⟩
  rintro ⟨hfit, hwill⟩
  exact writesLayout_of_interchangeable hb hf hfit hwill

/-- A user name, and no will. -/
def named : Connect := (Connect.new "a").setUsername (some "u")

def namedMessage : Message := ⟨false, 60, [.receiveMaximum 5], "a", none, some "u", none⟩

theorem layout_named : named.WritesLayout .sorted ∧ namedMessage.ReadBack := by
  have hbuilt : named.Built := .setUsername (.new "a") (some "u")
  have hfilled : named.Filled := by
    constructor <;> decide
  have hfit : named.Expressible .sorted := by
    constructor <;> decide +kernel
  have hwill : named.Interchangeable := by
    intro h
    exact absurd h (by decide)
  have hvalid : namedMessage.Valid :=
    { properties := ⟨by decide +kernel, by decide +kernel⟩
      clientId := by decide +kernel
      will := fun w hw => by cases hw
      username := fun s hs => by
        cases hs
        decide +kernel
      password := fun b hb => by cases hb
      body := by decide +kernel }
  have hreadable : namedMessage.Readable :=
    { body := by decide +kernel
      properties := by decide +kernel
      will := fun w hw => by cases hw }
  exact ⟨((layout_iff .sorted).1 named hbuilt hfilled).mpr ⟨hfit, hwill⟩,
    ((layout_iff .sorted).2 namedMessage hvalid).mpr hreadable⟩

/-- A will with the topic `t` and the payload `p`. -/
def willed : Connect :=
  (Connect.new "a").setWillMessage
    { header := .default, topic := "t", payload := [0x70], qos := .atLeastOnce, retain := false }

def willedMessage : Message :=
  ⟨false, 60, [], "a", some ⟨.atLeastOnce, false, [], "t", [0x70]⟩, none, none⟩

/-- The encoder writes the payload where the topic belongs, and the decoder takes the topic for
the payload. -/
theorem not_layout :
    (¬ ∀ (order : HashOrder) (c : Connect), c.Built → c.Filled → c.Expressible order →
      c.WritesLayout order) ∧
    ¬ ∀ m : Message, m.Valid → m.ReadBack := by
  constructor
  · intro h
    have hbuilt : willed.Built := .setWillMessage (.new "a") _
    have hfilled : willed.Filled := by
      constructor <;> decide
    have hfit : willed.Expressible .sorted := by
      constructor <;> decide +kernel
    have hsame := (interchangeable_of_writesLayout hbuilt hfilled
      (h .sorted willed hbuilt hfilled hfit)).2 (by decide)
    exact absurd hsame (by decide +kernel)
  · intro h
    have hwill : ∀ w, willedMessage.will = some w → w.Fits := by
      intro w hw
      cases hw
      exact ⟨⟨by decide +kernel, by decide +kernel⟩, by decide +kernel, by decide +kernel⟩
    have hvalid : willedMessage.Valid :=
      { properties := ⟨by decide +kernel, by decide +kernel⟩
        clientId := by decide +kernel
        will := hwill
        username := fun s hs => by cases hs
        password := fun b hb => by cases hb
        body := by decide +kernel }
    have hreadable := (willedMessage.readBack_iff hvalid).mp (h willedMessage hvalid)
    obtain ⟨hsame, -⟩ := hreadable.will _ rfl
    exact absurd hsame (by decide +kernel)

end Connect

end Mqtt
end Vaux
