import Vaux.Broker.Handler
import Vaux.Mqtt.ConnectTail

/-!
# What is published of a will

A will goes from the client's `set_will_message` through the CONNECT and the session to the
PUBLISH of `publish_will`, which has all of it but the user properties.
-/

namespace Vaux
namespace Mqtt
namespace Connect

section

variable (c : Connect) (w : WillMessage)

/-- The flags of the CONNECT hold the QoS and the retain flag of its will. -/
theorem willMessage_setWillMessage : (c.setWillMessage w).willMessage = some w := by
  have hqos : (c.setWillMessage w).willQos = .ok w.qos := by
    unfold willQos setWillMessage setWillRetain setWillQos setWill
    simp only
    rw [and_set_of_apart (by decide) (by cases w.retain <;> decide),
      and_set_self (by decide) (by cases w.qos <;> decide)]
    cases w.qos <;> decide
  have hretain : (c.setWillMessage w).willRetain = w.retain := by
    unfold willRetain setWillMessage setWillRetain setWillQos setWill
    simp only
    rw [and_set_self (by decide) (by cases w.retain <;> decide)]
    cases w.retain <;> decide
  rw [willMessage, if_pos (setWillMessage_flags c w).1, hqos, hretain]
  rfl

end

end Connect
end Mqtt

namespace Broker

open Wire Mqtt

/-- The PUBLISH has the message of the will, and what it can carry of its properties. -/
structure Faithful (w : WillMessage) (p : Publish) : Prop where
  topic : p.topicName = w.topic
  payload : p.payload = some w.payload
  qos : p.qos = .ok w.qos
  retain : p.retain = w.retain
  messageExpiry : p.messageExpiry = w.header.messageExpiry
  contentType : p.contentType = w.header.contentType
  responseTopic : p.responseTopic = w.header.responseTopic
  correlationData : p.correlationData = w.header.correlationData
  userProperties : p.userProperties = w.header.userProperties
  payloadFormat : p.payloadFormat = some .utf8 ↔ w.header.payloadFormat = some .utf8

/-- The will has neither user properties nor correlation data, the decoder takes the
properties of the CONNECT to end where they do, and the body has a length that can be
written. -/
structure PlainWill (order : HashOrder) (c : Connect) (w : WillMessage) : Prop where
  userProperties : w.header.userProperties = .new
  correlationData : w.header.correlationData = []
  paced : Paced (propertyItems order Connect.properties c)
  body : encodedLength (c.encodeBody order) ≤ 268435455

namespace Shared

section

variable (w : WillMessage)

theorem willPublish_eq :
    willPublish w =
      { Publish.default with
        fixedHeader := ((FixedHeader.new .publish).setQos w.qos).setRetain w.retain
        topicName := w.topic
        payload := some w.payload
        messageExpiry := w.header.messageExpiry
        contentType := w.header.contentType
        responseTopic := w.header.responseTopic
        correlationData := w.header.correlationData
        payloadFormat := w.header.payloadFormat.filter (· ≠ .bin) } := by
  unfold willPublish
  cases w.header.payloadFormat with
  | none => rfl
  | some format => cases format <;> rfl

theorem retain_setRetain (h : FixedHeader) (retain : Bool) : (h.setRetain retain).retain = retain := by
  unfold FixedHeader.retain FixedHeader.setRetain
  rw [and_set_self (by decide) (by cases retain <;> decide)]
  cases retain <;> decide

theorem qos_setRetain (h : FixedHeader) (retain : Bool) : (h.setRetain retain).qos = h.qos := by
  unfold FixedHeader.qos FixedHeader.setRetain
  rw [and_set_of_apart (by decide) (by cases retain <;> decide)]

/-- All but the user properties. -/
theorem willPublish_faithful (huser : w.header.userProperties = .new) :
    Faithful w (willPublish w) := by
  rw [willPublish_eq]
  refine ⟨rfl, rfl, ?_, retain_setRetain _ _, rfl, rfl, rfl, rfl, huser.symm, ?_⟩
  · exact (qos_setRetain _ _).trans (qos_setQos _ _)
  · cases w.header.payloadFormat with
    | none => simp
    | some format => cases format <;> simp

end

end Shared

/-- The will that the broker stores for a CONNECT. -/
def storedWill (src : Bytes) : Option WillMessage :=
  match Mqtt.decode src with
  | .ok (some (.connect c, _)) => c.willMessage
  | _ => none

theorem decode_of_storedWill (src : Bytes) (h : (storedWill src).isSome = true) :
    ∃ c n w, Mqtt.decode src = .ok (some (.connect c, n)) ∧ c.willMessage = some w := by
  unfold storedWill at h
  split at h
  · rename_i c n hdec
    obtain ⟨w, hw⟩ := Option.isSome_iff_exists.mp h
    exact ⟨c, n, w, hdec, hw⟩
  · cases h

/-- A will that is published after its CONNECT has been encoded, decoded and stored: it is
published as it was given if it and its CONNECT are plain, and never if it has user
properties. -/
theorem faithful_of_plain {c : Connect} (hb : c.Built) (w : WillMessage) {order : HashOrder}
    {e : Bytes} (henc : (Packet.connect (c.setWillMessage w)).encode order = .ok e) {suffix : Bytes}
    {c' : Connect} {n : Nat} (hdec : Mqtt.decode (e ++ suffix) = .ok (some (.connect c', n)))
    (session : Session) (hstored : session.willMessage = c'.willMessage) {w' : WillMessage}
    (htaken : session.takeWill.1 = some w') :
    (PlainWill order (c.setWillMessage w) w → Faithful w (Shared.willPublish w')) ∧
      (Faithful w (Shared.willPublish w') → w.header.userProperties = .new) := by
  constructor
  · intro hplain
    obtain ⟨body, hwritten, -⟩ := encodePacket_eq_ok henc
    obtain ⟨-, -, -, e₄, -, -, -, -, h₄, -, -⟩ := Connect.encodeBody_eq_ok hwritten
    have hwillPaced : ∀ header, (c.setWillMessage w).willProperties = some header →
        Paced (propertyItems order WillHeader.properties header) := by
      intro header hheader
      have hfits := Connect.willFits_of_encode h₄ hheader
      cases hheader
      exact (WillHeader.paced_iff hplain.userProperties hfits).mpr hplain.correlationData
    obtain rfl := Connect.eq_of_decode (.setWillMessage hb w) (Connect.setWillMessage_flags c w).1
      hplain.paced hwillPaced henc hplain.body hdec
    obtain rfl : w = w' := by
      rw [Connect.willMessage_setWillMessage] at hstored
      exact Option.some.inj (hstored.symm.trans htaken)
    exact Shared.willPublish_faithful w hplain.userProperties
  · intro hfaithful
    rw [← hfaithful.userProperties, Shared.willPublish_eq]
    rfl

/-- A will with a delay, a content type and a UTF-8 payload. -/
def textWill : WillMessage where
  header :=
    { WillHeader.default with
      willDelay := some 5, payloadFormat := some .utf8, contentType := some "c" }
  topic := "t"
  payload := [1]
  qos := .atLeastOnce
  retain := true

theorem faithful_of_plain_text :
    ∃ e c' n w', (Packet.connect ((Connect.new "a").setWillMessage textWill)).encode .sorted = .ok e ∧
      Mqtt.decode (e ++ []) = .ok (some (.connect c', n)) ∧ c'.willMessage = some w' ∧
      Faithful textWill (Shared.willPublish w') := by
  have henc : (Packet.connect ((Connect.new "a").setWillMessage textWill)).encode .sorted =
      .ok [0x10, 0x20, 0x00, 0x04, 0x4d, 0x51, 0x54, 0x54, 0x05, 0x2c, 0x00, 0x3c, 0x00, 0x00, 0x01,
        0x61, 0x0b, 0x18, 0x00, 0x00, 0x00, 0x05, 0x01, 0x01, 0x03, 0x00, 0x01, 0x63, 0x00, 0x01,
        0x01, 0x00, 0x01, 0x74] := by
    decide +kernel
  have hplain : PlainWill .sorted ((Connect.new "a").setWillMessage textWill) textWill :=
    ⟨rfl, rfl, (Connect.userTable.steady rfl).paced, by decide +kernel⟩
  obtain ⟨c', n, w', hdec, hw'⟩ := decode_of_storedWill [0x10, 0x20, 0x00, 0x04, 0x4d, 0x51,
    0x54, 0x54, 0x05, 0x2c, 0x00, 0x3c, 0x00, 0x00, 0x01, 0x61, 0x0b, 0x18, 0x00, 0x00, 0x00, 0x05,
    0x01, 0x01, 0x03, 0x00, 0x01, 0x63, 0x00, 0x01, 0x01, 0x00, 0x01, 0x74] (by decide +kernel)
  exact ⟨_, c', n, w', henc, hdec, hw', (faithful_of_plain (.new "a") textWill henc hdec
    (.new "a" c'.willMessage 0 0) rfl hw').1 hplain⟩

/-! ## A will with a user property -/

def userWill : WillMessage where
  header := { WillHeader.default with userProperties := UserProperty.new.add "k" "v" }
  topic := "t"
  payload := [1]
  qos := .atLeastOnce
  retain := true

theorem not_faithful_of_userProperty :
    ∃ e c' n w', (Packet.connect ((Connect.new "a").setWillMessage userWill)).encode .sorted = .ok e ∧
      Mqtt.decode e = .ok (some (.connect c', n)) ∧ c'.willMessage = some w' ∧
      ¬ Faithful userWill (Shared.willPublish w') := by
  have henc : (Packet.connect ((Connect.new "a").setWillMessage userWill)).encode .sorted =
      .ok [0x10, 0x1c, 0x00, 0x04, 0x4d, 0x51, 0x54, 0x54, 0x05, 0x2c, 0x00, 0x3c, 0x00, 0x00, 0x01,
        0x61, 0x07, 0x26, 0x00, 0x01, 0x6b, 0x00, 0x01, 0x76, 0x00, 0x01, 0x01, 0x00, 0x01, 0x74] := by
    decide +kernel
  obtain ⟨c', n, w', hdec, hw'⟩ := decode_of_storedWill [0x10, 0x1c, 0x00, 0x04, 0x4d, 0x51,
    0x54, 0x54, 0x05, 0x2c, 0x00, 0x3c, 0x00, 0x00, 0x01, 0x61, 0x07, 0x26, 0x00, 0x01, 0x6b, 0x00,
    0x01, 0x76, 0x00, 0x01, 0x01, 0x00, 0x01, 0x74] (by decide +kernel)
  refine ⟨_, c', n, w', henc, hdec, hw', fun hfaithful => ?_⟩
  have huser := hfaithful.userProperties
  rw [Shared.willPublish_eq] at huser
  have hlookup := congrArg (fun u : UserProperty => u.map.lookup "k") huser
  simp [userWill, UserProperty.lookup_add_self, Publish.default, UserProperty.new] at hlookup

end Broker
end Vaux
