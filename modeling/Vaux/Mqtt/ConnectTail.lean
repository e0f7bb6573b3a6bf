import Vaux.Mqtt.ConnectBuilder

/-!
# What comes back of a CONNECT

The fields at the end of a CONNECT are read one after the other, whatever they are for.
A field that is announced and not written therefore costs the decoder its last field:
what is decoded at all, with sections that end where they should, is what was encoded.
-/

namespace Vaux
namespace Mqtt

open Wire Decoder

/-! ## Fields with two bytes of length -/

/-- The bytes behind the first field. -/
def skipField (src : Bytes) : Option Bytes :=
  if src.length < 2 ∨ src.length - 2 < beValue (src.take 2) then none
  else some (src.drop (2 + beValue (src.take 2)))

def skipFields : Nat → Bytes → Option Bytes
  | 0, src => some src
  | n + 1, src => (skipField src).bind (skipFields n)

section

variable {α : Type} {d : Dec (α × Nat)} {short : MqttCodecError} {g : Bytes → Except MqttCodecError α}

theorem skipField_prefixed {b : Bytes} (h : b.length ≤ 65535) (rest : Bytes) :
    skipField (prefixed b ++ rest) = some rest := by
  have htake : (prefixed b ++ rest).take 2 = putU16 (UInt16.ofNat b.length) := by
    rw [prefixed, List.append_assoc, List.take_left' (putU16_length _)]
  have hvalue : beValue ((prefixed b ++ rest).take 2) = b.length := by
    rw [htake, beValue_putU16, ofNat_length_toNat h]
  have hdrop : (prefixed b ++ rest).drop (2 + b.length) = rest := by
    rw [← prefixed_length b, List.drop_left]
  rw [skipField, hvalue, hdrop, if_neg]
  simp only [List.length_append, prefixed_length]
  omega

/-- A decoder of such a field skips it. -/
theorem TakesSized.skips (hd : TakesSized d short g) {src : Bytes} {r : α × Nat} {rest : Bytes}
    (h : d.run src = .ok (r, rest)) : skipField src = some rest := by
  obtain ⟨data, -, hlen, rfl⟩ := hd.ok_data h
  exact skipField_prefixed hlen rest

theorem skipFields_succ {n : Nat} {src rest : Bytes} (h : skipField src = some rest) :
    skipFields (n + 1) src = skipFields n rest := by
  rw [skipFields, h]
  rfl

/-- There are no more fields than have been written. -/
theorem skipFields_flatten {fields : List Bytes} (h : ∀ b ∈ fields, b.length ≤ 65535) {n : Nat}
    (hn : (skipFields n (fields.map prefixed).flatten).isSome = true) : n ≤ fields.length := by
  induction fields generalizing n with
  | nil =>
      cases n with
      | zero => exact Nat.le_refl 0
      | succ n => cases hn
  | cons b fields ih =>
      obtain ⟨hb, hfields⟩ := List.forall_mem_cons.mp h
      cases n with
      | zero => exact Nat.zero_le _
      | succ n =>
          rw [List.map_cons, List.flatten_cons, skipFields_succ (skipField_prefixed hb _)] at hn
          exact Nat.succ_le_succ (ih hfields hn)

/-- What is written of values that are encoded as such fields. -/
theorem encodeAll_prefixed {encode : α → Enc} (data : α → Bytes)
    (hencode : ∀ a e, encode a = .ok e → (data a).length ≤ 65535 ∧ e = prefixed (data a))
    {as : List α} {e : Bytes} (h : encodeAll encode as = .ok e) :
    e = ((as.map data).map prefixed).flatten ∧ ∀ b ∈ as.map data, b.length ≤ 65535 := by
  induction as generalizing e with
  | nil =>
      cases h
      exact ⟨rfl, List.forall_mem_nil _⟩
  | cons a as ih =>
      obtain ⟨e₁, e₂, h₁, h₂, rfl⟩ := encodeAll_cons_eq_ok h
      obtain ⟨hlen, rfl⟩ := hencode a e₁ h₁
      obtain ⟨rfl, hall⟩ := ih h₂
      exact ⟨rfl, List.forall_mem_cons.mpr ⟨hlen, hall⟩⟩

end

namespace Connect

section

variable {order : HashOrder} {c : Connect}

/-- The fields behind the will properties that the flags of a CONNECT with a will announce. -/
def announced (c : Connect) : Nat := 2 + c.username.toNat + c.password.toNat

/-- The contents of the fields that are written there. -/
def writtenFields (c : Connect) : List Bytes :=
  (if c.willPayload = [] then [] else [c.willPayload]) ++ c.willTopic.toList.map utf8 ++
    (if c.usernameField = "" then [] else [c.usernameField]).map utf8 ++
    (if c.passwordField = [] then [] else [c.passwordField])

theorem skipFields_of_decodeUsername {s s' : Connect} {k n : Nat} {src left : Bytes}
    (h : (decodeUsername s k).run src = .ok ((s', n), left)) (m : Nat) :
    skipFields (m + s.username.toNat) src = skipFields m left ∧ s'.password = s.password := by
  rcases decodeUsername_cases h with ⟨hflag, u, j, hrun, rfl⟩ | ⟨hflag, rfl, rfl⟩
  · rw [hflag]
    exact ⟨skipFields_succ (takesSized_decodeString.skips hrun), rfl⟩
  · rw [hflag]
    exact ⟨rfl, rfl⟩

theorem skipFields_of_decodePassword {s s' : Connect} {k n : Nat} {src left : Bytes}
    (h : (decodePassword s k).run src = .ok ((s', n), left)) :
    skipFields s.password.toNat src = some left := by
  rcases decodePassword_cases h with ⟨hflag, b, j, hrun, rfl⟩ | ⟨hflag, rfl, rfl⟩
  · rw [hflag]
    exact skipFields_succ (takesSized_decodeArrayField.skips hrun)
  · rw [hflag]
    rfl

theorem skipFields_of_decodeTail {s c' : Connect} (hwill : s.will = true) {k n : Nat}
    {src src' left : Bytes} {r : WillHeader × Nat}
    (hsection : (decodeProperties WillHeader.properties unsupportedProperty .default 0).run src =
      .ok (r, src')) (h : (decodeTail s k).run src = .ok ((c', n), left)) :
    skipFields s.announced src' = some left := by
  simp only [decodeTail, run_bind] at h
  obtain ⟨⟨⟨s₁, n₁⟩, src₁⟩, h₁, h⟩ := Outcome.bind_eq_ok.mp h
  obtain ⟨⟨⟨s₂, n₂⟩, src₂⟩, h₂, h₃⟩ := Outcome.bind_eq_ok.mp h
  rcases decodeWill_cases h₁ with
    ⟨-, header, j, payload, j₁, topic, j₂, t₁, t₂, hrun, hpayload, htopic, rfl⟩ | ⟨hnone, -, -⟩
  swap
  · rw [hwill] at hnone
    cases hnone
  cases hsection.symm.trans hrun
  obtain ⟨husername, hpassword⟩ := skipFields_of_decodeUsername h₂ s.password.toNat
  have hlast := skipFields_of_decodePassword h₃
  have hcount : s.announced = s.password.toNat + s.username.toNat + 1 + 1 := by
    unfold announced
    omega
  rw [hcount, skipFields_succ (takesSized_decodeArrayField.skips hpayload),
    skipFields_succ (takesSized_decodeString.skips htopic)]
  rw [hpassword] at hlast
  exact husername.trans hlast

/-- The payload behind the will properties is the fields that are written. -/
theorem payloadTail_fields {e : Bytes} (h : encodeAll (Member.encode order c) payloadTail = .ok e) :
    e = (c.writtenFields.map prefixed).flatten ∧ ∀ b ∈ c.writtenFields, b.length ≤ 65535 := by
  obtain ⟨e₁, e₂, e₃, e₄, h₁, h₂, h₃, h₄, rfl⟩ := payloadTail_eq_ok h
  obtain ⟨rfl, hlen₁⟩ := encodeAll_prefixed id (fun _ _ => encodeArrayField_eq_ok) h₁
  obtain ⟨rfl, hlen₂⟩ := encodeAll_prefixed utf8 (fun _ _ => encodeString_eq_ok) h₂
  obtain ⟨rfl, hlen₃⟩ := encodeAll_prefixed utf8 (fun _ _ => encodeString_eq_ok) h₃
  obtain ⟨rfl, hlen₄⟩ := encodeAll_prefixed id (fun _ _ => encodeArrayField_eq_ok) h₄
  rw [List.map_id] at hlen₁ hlen₄
  refine ⟨?_, fun b hb => ?_⟩
  · simp only [writtenFields, List.map_id, List.map_append, List.flatten_append, List.append_assoc]
  · simp only [writtenFields, List.mem_append] at hb
    rcases hb with ((hb | hb) | hb) | hb
    · exact hlen₁ b hb
    · exact hlen₂ b hb
    · exact hlen₃ b hb
    · exact hlen₄ b hb

/-- A field is written only if it is announced. -/
theorem skipped_le {α : Type} [DecidableEq α] {flag : Bool} {a empty : α}
    (h : flag = false → a = empty) :
    (if a = empty then [] else [a]).length ≤ flag.toNat ∧
      (flag.toNat ≤ (if a = empty then [] else [a]).length → (flag = true ↔ a ≠ empty)) := by
  cases flag with
  | false => simp [h rfl]
  | true => by_cases ha : a = empty <;> simp [ha]

/-- All that is announced is there, if the decoder gets to the end. -/
theorem Flagged.agrees (hflagged : c.Flagged) (hwill : c.will = true)
    (hle : c.announced ≤ c.writtenFields.length) : c.PayloadAgrees := by
  obtain ⟨hprops, htopic⟩ := hflagged.will hwill
  obtain ⟨topic, htopic'⟩ := Option.isSome_iff_exists.mp htopic
  simp only [announced, writtenFields, List.length_append, List.length_map, htopic',
    Option.toList_some, List.length_singleton] at hle
  have hname := skipped_le hflagged.noUsername
  have hpass := skipped_le hflagged.noPassword
  have hpayload : c.willPayload ≠ [] := by
    intro hempty
    rw [if_pos hempty, List.length_nil] at hle
    omega
  rw [if_neg hpayload, List.length_singleton] at hle
  exact ⟨fun _ => ⟨hprops, hpayload, htopic⟩, hflagged.noWill, hname.2 (by omega), hpass.2 (by omega)⟩

/-- A CONNECT with a will whose sections end where the decoder takes them to end comes back
as it is, if it is decoded at all. -/
theorem eq_of_decode {c' : Connect} (hb : c.Built) (hwill : c.will = true)
    (hpaced : Paced (propertyItems order properties c))
    (hwillPaced : ∀ w, c.willProperties = some w → Paced (propertyItems order WillHeader.properties w))
    {e : Bytes} (henc : (Packet.connect c).encode order = .ok e)
    (hbody : encodedLength (c.encodeBody order) ≤ 268435455) {suffix : Bytes} {n : Nat}
    (h : Mqtt.decode (e ++ suffix) = .ok (some (.connect c', n))) : c' = c := by
  have hflagged := hb.flagged
  obtain ⟨body, hwritten, heq⟩ := encodePacket_eq_ok henc
  have hdecode := h
  rw [heq] at h
  obtain ⟨body', m, left, -, hle, hsame, hrun⟩ := decode_written_ok h
  rw [hwritten, encodedLength_ok] at hbody
  obtain rfl : body' = body := by
    refine hsame ?_
    rw [codecSize_eq hwritten hbody, UInt32.toNat_ofNat']
    exact Nat.mod_eq_of_lt (by omega)
  rw [decodeBody_connect (decodeBody_packetType hrun).symm] at hrun
  obtain ⟨a, hrun, ha⟩ := asPacket_eq_ok hrun
  obtain ⟨e₁, e₂, e₃, e₄, e₅, h₁, h₂, h₃, h₄, h₅, rfl⟩ := encodeBody_eq_ok hwritten
  have hprops : propertyLength order properties c ≤ 2097151 := by
    have := propertyLength_le_section h₂
    simp only [List.length_append] at hle
    omega
  have hwillLength : ∀ w, c.willProperties = some w →
      propertyLength order WillHeader.properties w ≤ 2097151 := by
    intro w hw
    have := willLength_le h₄ hw
    simp only [List.length_append] at hle
    omega
  have hfits := sectionFits_of_encode h₂
  -- the front is read as it was written, and leaves the payload
  have hfront := decodeFront_reads (front_fits hfits h₁ h₃) hprops hpaced h₁ h₂ h₃
  have hbytes : e₁ ++ e₂ ++ e₃ ++ e₄ ++ e₅ = e₁ ++ (e₂ ++ e₃) ++ (e₄ ++ e₅) := by simp
  rw [run_decode, hbytes, hfront (e₄ ++ e₅), Outcome.bind_ok] at hrun
  obtain ⟨w, hw⟩ := Option.isSome_iff_exists.mp (hflagged.will hwill).1
  have hwillFits : ∀ w, c.willProperties = some w → SectionFits order WillHeader.properties w :=
    fun w hw => willFits_of_encode h₄ hw
  have h₄' := h₄
  rw [encodeWillProperties, hw] at h₄'
  simp only [WillHeader.encodeBody_eq] at h₄'
  have hsection := decodeProperties_reads unsupportedProperty WillHeader.lawful.table
    (hwillFits w hw) h₄' (hwillLength w hw) (hwillPaced w hw) .default 0 e₅
  have hskip : skipFields c.announced e₅ = some left :=
    skipFields_of_decodeTail (s := c.stripped) hwill hsection hrun
  obtain ⟨rfl, hlengths⟩ := payloadTail_fields h₅
  have hagrees := hflagged.agrees hwill (skipFields_flatten hlengths (by rw [hskip]; rfl))
  have hsound : c.Sound order :=
    ⟨hb.header, hagrees, hfits, by rw [hwritten, encodedLength_ok]; exact hle, hpaced, hwillFits,
      hwillPaced⟩
  obtain ⟨n', hself⟩ := decode_of_sound henc hsound suffix
  rw [hself] at hdecode
  cases hdecode
  rfl

end

end Connect

end Mqtt
end Vaux
