import Vaux.Mqtt.BinaryProperties

/-!
# CONNECT packets as a client builds them

`Connect::new`, the public fields and the setters.  The setters keep the flags and the
fields together, but the encoder skips a field that is empty: a user name or a password
given as an empty value has its flag set and is not written, and neither is an empty
will payload.  The decoder goes by the flags and reads the next field in its place.
-/

namespace Vaux
namespace Mqtt

open Wire Decoder

/-! ## Flags -/

/-- Setting the bits of one mask leaves those of another alone. -/
theorem and_set_of_apart {flags mask value other : UInt8} (hmask : ~~~mask &&& other = other)
    (hvalue : value &&& other = 0) : (flags &&& ~~~mask ||| value) &&& other = flags &&& other := by
  rw [uint8_or_and, hvalue, UInt8.or_zero, UInt8.and_assoc, hmask]

theorem and_set_self {flags mask value : UInt8} (hmask : ~~~mask &&& mask = 0)
    (hvalue : value &&& mask = value) : (flags &&& ~~~mask ||| value) &&& mask = value := by
  rw [uint8_or_and, hvalue, UInt8.and_assoc, hmask, UInt8.and_zero, UInt8.zero_or]

theorem and_clear_of_apart {flags mask other : UInt8} (hmask : ~~~mask &&& other = other) :
    flags &&& ~~~mask &&& other = flags &&& other := by
  rw [UInt8.and_assoc, hmask]

namespace Connect

/-- What the public interface makes. -/
inductive Built : Connect → Prop
  | new (clientId : String) : Built (.new clientId)
  | fields {c : Connect} (h : Built c) (keepAlive : UInt16) (sessionExpiryInterval : Option UInt32)
      (receiveMaximum : Option UInt16) (maxPacketSize : Option UInt32)
      (topicAliasMaximum : Option UInt16) (requestResponseInfo requestProblemInfo : Option Bool)
      (authMethod : Option String) (authData : Bytes) (userProperties : UserProperty)
      (clientId : String) :
      Built { c with
        keepAlive, sessionExpiryInterval, receiveMaximum, maxPacketSize, topicAliasMaximum,
        requestResponseInfo, requestProblemInfo, authMethod, authData, userProperties, clientId }
  | setWillMessage {c : Connect} (h : Built c) (will : WillMessage) : Built (c.setWillMessage will)
  | setUsername {c : Connect} (h : Built c) (username : Option String) :
      Built (c.setUsername username)
  | setPassword {c : Connect} (h : Built c) (password : Option Bytes) : Built (c.setPassword password)
  | setCleanStart {c : Connect} (h : Built c) (cleanStart : Bool) : Built (c.setCleanStart cleanStart)
  | setSessionExpiryInterval {c : Connect} (h : Built c) (interval : UInt32) :
      Built (c.setSessionExpiryInterval interval)

section

variable {c : Connect}

theorem Built.header (h : c.Built) : c.fixedHeader = .new .connect := by
  induction h with
  | new clientId => rfl
  | _ => assumption

theorem setCleanStart_flags (c : Connect) (cleanStart : Bool) :
    (c.setCleanStart cleanStart).will = c.will ∧
      (c.setCleanStart cleanStart).username = c.username ∧
      (c.setCleanStart cleanStart).password = c.password := by
  refine ⟨?_, ?_, ?_⟩
  · unfold will setCleanStart
    rw [and_set_of_apart (by decide) (by cases cleanStart <;> decide)]
  · unfold username setCleanStart
    rw [and_set_of_apart (by decide) (by cases cleanStart <;> decide)]
  · unfold password setCleanStart
    rw [and_set_of_apart (by decide) (by cases cleanStart <;> decide)]

theorem setWillMessage_flags (c : Connect) (w : WillMessage) :
    (c.setWillMessage w).will = true ∧ (c.setWillMessage w).username = c.username ∧
      (c.setWillMessage w).password = c.password := by
  refine ⟨?_, ?_, ?_⟩
  · unfold will setWillMessage setWillRetain setWillQos setWill
    simp only
    rw [and_set_of_apart (by decide) (by cases w.retain <;> decide),
      and_set_of_apart (by decide) (by cases w.qos <;> decide),
      and_set_self (by decide) (by decide)]
    decide
  · unfold username setWillMessage setWillRetain setWillQos setWill
    simp only
    rw [and_set_of_apart (by decide) (by cases w.retain <;> decide),
      and_set_of_apart (by decide) (by cases w.qos <;> decide),
      and_set_of_apart (by decide) (by decide)]
  · unfold password setWillMessage setWillRetain setWillQos setWill
    simp only
    rw [and_set_of_apart (by decide) (by cases w.retain <;> decide),
      and_set_of_apart (by decide) (by cases w.qos <;> decide),
      and_set_of_apart (by decide) (by decide)]

theorem setUsername_flags (c : Connect) (u : Option String) :
    (c.setUsername u).username = u.isSome ∧ (c.setUsername u).will = c.will ∧
      (c.setUsername u).password = c.password := by
  unfold username will password setUsername
  cases u with
  | none =>
      simp only [Option.isNone_none, if_true, Option.isSome_none]
      refine ⟨?_, ?_, ?_⟩
      · rw [UInt8.and_assoc]
        simp [connectFlagUsername]
      · rw [and_clear_of_apart (by decide)]
      · rw [and_clear_of_apart (by decide)]
  | some u =>
      simp only [Option.isNone_some, Bool.false_eq_true, if_false, Option.isSome_some]
      refine ⟨?_, ?_, ?_⟩
      · rw [and_set_self (by decide) (by decide)]
        decide
      · rw [and_set_of_apart (by decide) (by decide)]
      · rw [and_set_of_apart (by decide) (by decide)]

theorem setPassword_flags (c : Connect) (p : Option Bytes) :
    (c.setPassword p).password = p.isSome ∧ (c.setPassword p).will = c.will ∧
      (c.setPassword p).username = c.username := by
  unfold username will password setPassword
  cases p with
  | none =>
      simp only [Option.isNone_none, if_true, Option.isSome_none]
      refine ⟨?_, ?_, ?_⟩
      · rw [UInt8.and_assoc]
        simp [connectFlagPassword]
      · rw [and_clear_of_apart (by decide)]
      · rw [and_clear_of_apart (by decide)]
  | some p =>
      simp only [Option.isNone_some, Bool.false_eq_true, if_false, Option.isSome_some]
      refine ⟨?_, ?_, ?_⟩
      · rw [and_set_self (by decide) (by decide)]
        decide
      · rw [and_set_of_apart (by decide) (by decide)]
      · rw [and_set_of_apart (by decide) (by decide)]

/-- The setters keep the flags and the fields together. -/
theorem Built.flagged (h : c.Built) : c.Flagged := by
  induction h with
  | new clientId => constructor <;> simp [Connect.new, will, username, password]
  | fields h _ _ _ _ _ _ _ _ _ _ _ ih => exact ⟨ih.will, ih.noWill, ih.noUsername, ih.noPassword⟩
  | @setWillMessage c h w ih =>
      obtain ⟨hwill, husername, hpassword⟩ := setWillMessage_flags c w
      refine ⟨fun _ => ⟨rfl, rfl⟩, by simp [hwill], ?_, ?_⟩
      · rw [husername]
        exact ih.noUsername
      · rw [hpassword]
        exact ih.noPassword
  | @setUsername c h u ih =>
      obtain ⟨husername, hwill, hpassword⟩ := setUsername_flags c u
      refine ⟨?_, ?_, ?_, ?_⟩
      · rw [hwill]
        exact ih.will
      · rw [hwill]
        exact ih.noWill
      · rw [husername]
        intro hnone
        cases u with
        | none => rfl
        | some u => cases hnone
      · rw [hpassword]
        exact ih.noPassword
  | @setPassword c h p ih =>
      obtain ⟨hpassword, hwill, husername⟩ := setPassword_flags c p
      refine ⟨?_, ?_, ?_, ?_⟩
      · rw [hwill]
        exact ih.will
      · rw [hwill]
        exact ih.noWill
      · rw [husername]
        exact ih.noUsername
      · rw [hpassword]
        intro hnone
        cases p with
        | none => rfl
        | some p => cases hnone
  | @setCleanStart c h b ih =>
      obtain ⟨hwill, husername, hpassword⟩ := setCleanStart_flags c b
      refine ⟨?_, ?_, ?_, ?_⟩
      · rw [hwill]
        exact ih.will
      · rw [hwill]
        exact ih.noWill
      · rw [husername]
        exact ih.noUsername
      · rw [hpassword]
        exact ih.noPassword
  | setSessionExpiryInterval h _ ih => exact ⟨ih.will, ih.noWill, ih.noUsername, ih.noPassword⟩

/-! ## Round trips -/

variable {order : HashOrder}

theorem userTable : UserTable properties (·.userProperties) := by
  simp only [UserTable, properties, List.forall_mem_cons, List.not_mem_nil, false_imp_iff,
    implies_true, and_true]
  and_intros <;> first | exact .inl pairs_of_new | exact .inr ⟨rfl, rfl⟩

theorem sectionFits_of_encode {e : Bytes} (h : propertyEncode order properties c = .ok e) :
    SectionFits order properties c := by
  refine Mqtt.sectionFits_of_encode h ?_
  simp only [properties, List.forall_mem_cons, List.not_mem_nil, false_imp_iff, implies_true,
    and_true]
  and_intros <;> first | exact fun _ _ => trivial | exact fun _ _ => ⟨trivial, trivial⟩

theorem willFits_of_encode {e : Bytes} (h : c.encodeWillProperties order = .ok e) {w : WillHeader}
    (hw : c.willProperties = some w) : SectionFits order WillHeader.properties w := by
  rw [encodeWillProperties, hw] at h
  simp only [WillHeader.encodeBody_eq] at h
  exact WillHeader.sectionFits_of_encode h

/-- What the accessor shows of a will that is there. -/
theorem Flagged.willMessage (h : c.Flagged) (hwill : c.will = true) :
    ∃ w m, c.willProperties = some w ∧ c.willMessage = some m ∧ m.payload = c.willPayload ∧
      m.header = w := by
  obtain ⟨w, hw⟩ := Option.isSome_iff_exists.mp (h.will hwill).1
  unfold Connect.willMessage
  rw [if_pos hwill]
  exact ⟨w, _, hw, rfl, rfl, by simp [hw]⟩

/-- A CONNECT without user properties comes back exactly if what its flags announce is
not empty and its will has no `correlation_data`. -/
theorem built_round_trip_iff (hb : c.Built) (huser : c.userProperties = .new)
    (hwillUser : ∀ w, c.willProperties = some w → w.userProperties = .new) {e : Bytes}
    (henc : (Packet.connect c).encode order = .ok e)
    (hbody : encodedLength (c.encodeBody order) ≤ 2097151) (suffix : Bytes) :
    (∃ n, Mqtt.decode (e ++ suffix) = .ok (some (.connect c, n))) ↔
      (∀ m, c.willMessage = some m → m.payload ≠ [] ∧ m.header.correlationData = []) ∧
      (c.username = true → c.usernameField ≠ "") ∧ (c.password = true → c.passwordField ≠ []) := by
  obtain ⟨body, hwritten, -⟩ := encodePacket_eq_ok henc
  obtain ⟨e₁, e₂, e₃, e₄, e₅, h₁, h₂, h₃, h₄, h₅, -⟩ := encodeBody_eq_ok hwritten
  have hflagged := hb.flagged
  have hwillFits : ∀ w, c.willProperties = some w → SectionFits order WillHeader.properties w :=
    fun w hw => willFits_of_encode h₄ hw
  constructor
  · rintro ⟨n, h⟩
    have hs := sound_of_decode henc h
    refine ⟨?_, hs.payload.username.mp, hs.payload.password.mp⟩
    intro m hm
    have hwill : c.will = true := by
      by_contra hflag
      rw [Connect.willMessage, if_neg hflag] at hm
      cases hm
    obtain ⟨w, m', hw, hm', hpayload, hheader⟩ := hflagged.willMessage hwill
    rw [hm] at hm'
    cases hm'
    rw [hpayload, hheader]
    exact ⟨(hs.payload.will hwill).2.1,
      (WillHeader.paced_iff (hwillUser w hw) (hwillFits w hw)).mp (hs.willPaced w hw)⟩
  · rintro ⟨hwill, husername, hpassword⟩
    refine decode_of_sound henc ⟨hb.header, ?_, sectionFits_of_encode h₂, hbody,
      (userTable.steady huser).paced, hwillFits, ?_⟩ suffix
    · refine ⟨?_, hflagged.noWill, ⟨husername, ?_⟩, ⟨hpassword, ?_⟩⟩
      · intro hflag
        obtain ⟨w, m, hw, hm, hpayload, -⟩ := hflagged.willMessage hflag
        have hne := (hwill m hm).1
        rw [hpayload] at hne
        exact ⟨(hflagged.will hflag).1, hne, (hflagged.will hflag).2⟩
      · intro hne
        by_contra hflag
        exact hne (hflagged.noUsername (by simpa using hflag))
      · intro hne
        by_contra hflag
        exact hne (hflagged.noPassword (by simpa using hflag))
    · intro w hw
      obtain ⟨w', m, hw', hm, -, hheader⟩ := hflagged.willMessage (will_of_some hflagged hw)
      rw [hw] at hw'
      cases hw'
      have hdata := (hwill m hm).2
      rw [hheader] at hdata
      exact (WillHeader.paced_iff (hwillUser w hw) (hwillFits w hw)).mpr hdata

end

/-- An empty user name has its flag set and is not written: the decoder takes the
password for it and finds no password. -/
theorem empty_username_starves :
    ∃ (c : Connect) (e : Bytes), c.Built ∧ c.userProperties = .new ∧ c.willProperties = none ∧
      (Packet.connect c).encode .sorted = .ok e ∧ ∀ p n, Mqtt.decode e ≠ .ok (some (p, n)) := by
  refine ⟨((new "a").setUsername (some "")).setPassword (some [0x70]),
    [0x10, 0x11, 0x00, 0x04, 0x4d, 0x51, 0x54, 0x54, 0x05, 0xc0, 0x00, 0x3c, 0x00, 0x00, 0x01, 0x61,
      0x00, 0x01, 0x70], .setPassword (.setUsername (.new "a") _) _, rfl, rfl, by decide +kernel, ?_⟩
  have hrefused : (Mqtt.decode [0x10, 0x11, 0x00, 0x04, 0x4d, 0x51, 0x54, 0x54, 0x05, 0xc0, 0x00, 0x3c,
      0x00, 0x00, 0x01, 0x61, 0x00, 0x01, 0x70]).map (fun _ => ()) ≠ .ok () := by decide +kernel
  intro p n h
  rw [h] at hrefused
  exact hrefused rfl

theorem username_reads_back :
    let c := (new "a").setUsername (some "u")
    ∃ n, Mqtt.decode [0x10, 0x11, 0x00, 0x04, 0x4d, 0x51, 0x54, 0x54, 0x05, 0x80, 0x00, 0x3c, 0x00,
      0x00, 0x01, 0x61, 0x00, 0x01, 0x75] = .ok (some (.connect c, n)) := by
  intro c
  have henc : (Packet.connect c).encode .sorted = .ok [0x10, 0x11, 0x00, 0x04, 0x4d, 0x51, 0x54,
      0x54, 0x05, 0x80, 0x00, 0x3c, 0x00, 0x00, 0x01, 0x61, 0x00, 0x01, 0x75] := by
    decide +kernel
  refine (built_round_trip_iff (.setUsername (.new "a") _) rfl (by simp [new, setUsername])
    henc (by decide +kernel) []).mpr ⟨?_, ?_, ?_⟩
  · intro m hm
    rw [willMessage, if_neg (by decide)] at hm
    cases hm
  · intro _
    decide
  · intro h
    exact absurd h (by decide)

end Connect

end Mqtt
end Vaux
