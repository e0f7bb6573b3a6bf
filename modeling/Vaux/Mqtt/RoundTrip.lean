import Vaux.Mqtt.PacketLaws
import Vaux.Mqtt.PropertySection

/-!
# Packets that are written and read back

`decode_written` is what `decode` does with a packet that was written, if the length
field is the length of the body; `decode_written_ok` says what it has read if it
succeeds on the bytes of a packet at all.  The length field wraps around at four
gigabytes, and it is the bound on what a decoder can return that excludes this case.
-/

namespace Vaux
namespace Mqtt

open Wire Decoder

/-! ## The fixed header -/

theorem uint8_or_and (x y z : UInt8) : (x ||| y) &&& z = (x &&& z) ||| (y &&& z) := by
  apply UInt8.eq_of_toBitVec_eq
  simp only [UInt8.toBitVec_and, UInt8.toBitVec_or]
  exact BitVec.and_or_distrib_right

def firstByte (h : FixedHeader) : UInt8 := h.packetType.toU8 ||| (h.flags &&& 0x0f)

theorem headerOf_firstByte (h : FixedHeader) :
    headerOf (firstByte h) = { packetType := h.packetType, flags := h.flags &&& 0x0f } := by
  have hhigh : firstByte h &&& 0xf0 = h.packetType.toU8 := by
    have htype : h.packetType.toU8 &&& 0xf0 = h.packetType.toU8 := by
      cases h.packetType <;> rfl
    have hmask : (0x0f : UInt8) &&& 0xf0 = 0 := by decide
    rw [firstByte, uint8_or_and, htype, UInt8.and_assoc, hmask, UInt8.and_zero, UInt8.or_zero]
  have hlow : firstByte h &&& 0x0f = h.flags &&& 0x0f := by
    have htype : h.packetType.toU8 &&& 0x0f = 0 := by
      cases h.packetType <;> rfl
    rw [firstByte, uint8_or_and, htype, UInt8.zero_or, UInt8.and_assoc, UInt8.and_self]
  rw [headerOf, hhigh, hlow, PacketType.ofU8_toU8]

theorem headerOf_firstByte_new (t : PacketType) :
    headerOf (firstByte (.new t)) = .new t ∧ LegalFlags (.new t) := by
  rw [headerOf_firstByte]
  constructor
  · cases t <;> rfl
  · intro reserved h
    cases t <;> cases h <;> rfl

/-! ## Written frames -/

theorem encodePacket_eq_ok {h : FixedHeader} {size : UInt32} {body : Enc} {e : Bytes}
    (henc : encodePacket h size body = .ok e) :
    ∃ b, body = .ok b ∧ e = firstByte h :: (varIntEncoding size ++ b) := by
  unfold encodePacket FixedHeader.encode at henc
  rw [encodeVariableByteInt_eq] at henc
  cases body with
  | error x => simp [bind, Except.bind] at henc
  | ok b =>
      simp only [bind, Except.bind] at henc
      cases henc
      exact ⟨b, rfl, rfl⟩

theorem decode_written {first : UInt8} {size : UInt32} {body : Bytes} (suffix : Bytes)
    (hsize : size.toNat = body.length) (hlen : body.length ≤ 2097151)
    (hl : LegalFlags (headerOf first)) :
    decode (first :: (varIntEncoding size ++ body) ++ suffix) =
      ((decodeBody (headerOf first)).run body).bind fun r =>
        .ok (some (r.1.1, 1 + (varIntEncoding size).length + r.1.2)) := by
  obtain ⟨hvar, hvalue, -⟩ := varIntEncoding_spec size
  have hthree := varIntEncoding_length_le_three.mpr (hsize.le.trans hlen)
  have hopen : Opened (first :: (varIntEncoding size ++ body) ++ suffix) first
      (varIntEncoding size) body suffix :=
    { eq := rfl
      varInt := hvar
      len_le := by omega
      body_length := by rw [hvalue, hsize]
      len_le_three := hthree
      legal := hl }
  exact decode_opened hopen

/-- If the bytes of a packet are accepted, with anything behind them, then the length
field has at most three bytes, and the body is the one that was written unless the
length field wrapped around. -/
theorem decode_written_ok {first : UInt8} {size : UInt32} {body suffix : Bytes} {p : Packet}
    {n : Nat} (h : decode (first :: (varIntEncoding size ++ body) ++ suffix) = .ok (some (p, n))) :
    ∃ body' m left, size.toNat = body'.length ∧ body'.length ≤ 2097151 ∧
      (size.toNat = body.length → body' = body) ∧
      (decodeBody (headerOf first)).run body' = .ok ((p, m), left) := by
  rcases decode_cases (first :: (varIntEncoding size ++ body) ++ suffix) with
    ⟨first', len, body', rest, hopen⟩ | ⟨⟨e, -, he⟩, -⟩ | ⟨e, -, he⟩
  · have heq := hopen.eq
    rw [List.cons_append, List.cons.injEq, List.append_assoc, List.append_assoc] at heq
    obtain ⟨rfl, htail⟩ := heq
    obtain ⟨hvar, hvalue, -⟩ := varIntEncoding_spec size
    obtain ⟨rfl, hbody⟩ := hvar.prefix_unique hopen.varInt htail
    have hsize : size.toNat = body'.length := by rw [hopen.body_length, hvalue]
    have hthree := varIntEncoding_length_le_three.mp hopen.len_le_three
    rw [decode_opened hopen] at h
    obtain ⟨⟨⟨p', m⟩, left⟩, hrun, h⟩ := Outcome.bind_eq_ok.mp h
    cases h
    refine ⟨body', m, left, hsize, by omega, ?_, hrun⟩
    intro hlen
    exact ((List.append_inj hbody (by omega)).1).symm
  · rw [he] at h
    cases h
  · rw [he] at h
    cases h

/-! ## The packet that comes out -/

def Packet.packetType : Packet → PacketType
  | .pingRequest _ => .pingReq
  | .pingResponse _ => .pingResp
  | .connect _ => .connect
  | .connAck _ => .connAck
  | .publish _ => .publish
  | .pubAck _ => .pubAck
  | .pubComp _ => .pubComp
  | .pubRec _ => .pubRec
  | .pubRel _ => .pubRel
  | .disconnect _ => .disconnect
  | .subscribe _ => .subscribe
  | .subAck _ => .subAck
  | .unsubscribe _ => .unsubscribe
  | .unsubAck _ => .unsubAck

theorem asPacket_eq_ok {σ : Type} {d : Dec (σ × Nat)} {packet : σ → Packet} {src left : Bytes}
    {p : Packet} {n : Nat} (h : (asPacket d packet).run src = .ok ((p, n), left)) :
    ∃ a, d.run src = .ok ((a, n), left) ∧ p = packet a := by
  simp only [asPacket, run_bind] at h
  obtain ⟨⟨⟨a, m⟩, rest⟩, hrun, h⟩ := Outcome.bind_eq_ok.mp h
  cases h
  exact ⟨a, hrun, rfl⟩

theorem decodeBody_packetType {h : FixedHeader} {p : Packet} {n : Nat} {src left : Bytes}
    (hrun : (decodeBody h).run src = .ok ((p, n), left)) : p.packetType = h.packetType := by
  unfold decodeBody at hrun
  split at hrun
  case h_4 ht =>
    obtain ⟨publish, -, hrun⟩ := Outcome.bind_eq_ok.mp hrun
    obtain ⟨a, -, rfl⟩ := asPacket_eq_ok hrun
    rw [ht, Packet.packetType]
  case h_15 => cases hrun
  all_goals
    rename_i ht
    first
    | cases hrun
      rw [ht, Packet.packetType]
    | obtain ⟨a, -, rfl⟩ := asPacket_eq_ok hrun
      rw [ht, Packet.packetType]

/-! ## Derived packets -/

section

variable {σ : Type} {order : HashOrder} {t : PacketType} {d : Derived σ} {fresh self : σ}
  {packet : σ → Packet} {fixed : σ → FixedHeader}

theorem DerivedBody.packetType_eq (hd : DerivedBody t d fresh packet) (s : σ) :
    (packet s).packetType = t := by
  cases hd <;> rfl

theorem DerivedBody.injective (hd : DerivedBody t d fresh packet) : Function.Injective packet := by
  intro a b h
  cases hd <;> cases h <;> rfl

/-- What the codec of a derived struct asks of a value: its fields fit, the packet and
the property section fit a length field, and the section is paced. -/
structure Derived.Sound (order : HashOrder) (d : Derived σ) (s : σ) : Prop where
  fits : d.Fits order s
  body : encodedLength (d.encodeBody order s) ≤ 2097151
  properties : propertyLength order d.properties s ≤ 2097151
  paced : Paced (propertyItems order d.properties s)

namespace Derived.Lawful

theorem decode_of_sound (hd : DerivedBody t d fresh packet) (hl : d.Lawful fixed fresh)
    (hfresh : fixed fresh = .new t) {e : Bytes}
    (henc : d.encode order (fixed self) self = .ok e) (hfixed : fixed self = .new t)
    (hs : d.Sound order self) (suffix : Bytes) :
    Mqtt.decode (e ++ suffix) =
      .ok (some (packet self, e.length + itemsExtra (propertyItems order d.properties self))) := by
  obtain ⟨body, hbody, rfl⟩ := encodePacket_eq_ok henc
  have hlen := hs.body
  have hprops := hs.properties
  rw [hbody, encodedLength_ok] at hlen
  have hsize : (d.codecSize order self).toNat = body.length := by
    rw [codecSize_eq hl.abbreviated_remaining hs.fits.sizes hbody (by omega), UInt32.toNat_ofNat']
    exact Nat.mod_eq_of_lt (by omega)
  obtain ⟨hheader, hlegal⟩ := headerOf_firstByte_new t
  rw [hfixed, decode_written suffix hsize hlen (by rwa [hheader]), hheader]
  have htype : DerivedBody (FixedHeader.new t).packetType d fresh packet := by
    have hnew : (FixedHeader.new t).packetType = t := by cases t <;> rfl
    rwa [hnew]
  rw [htype.decodeBody_eq]
  simp only [asPacket, run_bind,
    hl.decode_reads (hfixed.trans hfresh.symm) hs.fits hprops hs.paced hbody, Outcome.bind_ok,
    run_pure, List.length_cons, List.length_append]
  congr 3
  omega

theorem sound_of_decode (hd : DerivedBody t d fresh packet) (hl : d.Lawful fixed fresh)
    (hfresh : fixed fresh = .new t) {e : Bytes}
    (henc : d.encode order (fixed self) self = .ok e) {suffix : Bytes} {n : Nat}
    (h : Mqtt.decode (e ++ suffix) = .ok (some (packet self, n))) :
    fixed self = .new t ∧ d.Sound order self := by
  obtain ⟨body, hbody, rfl⟩ := encodePacket_eq_ok henc
  obtain ⟨body', m, left, hsize, hle, hsame, hrun⟩ := decode_written_ok h
  have htype := decodeBody_packetType hrun
  rw [hd.packetType_eq] at htype
  rw [(htype ▸ hd : DerivedBody _ d fresh packet).decodeBody_eq] at hrun
  obtain ⟨a, hrun, ha⟩ := asPacket_eq_ok hrun
  obtain rfl := hd.injective ha
  obtain ⟨hfits, hfixed, hlen⟩ := hl.decode_fits order hrun
  -- nothing wraps around, so the body is the one that was written
  have hbound := encodeBody_length_le hbody
  have hcodec := codecSize_eq hl.abbreviated_remaining hfits.sizes hbody (by omega)
  have hnowrap : (d.codecSize order self).toNat = body.length := by
    rw [hcodec, UInt32.toNat_ofNat']
    exact Nat.mod_eq_of_lt (by omega)
  obtain rfl := hsame hnowrap
  have hprops := (hl.propertyLength_le_body hfits (by omega) hbody).trans hle
  refine ⟨hfixed.trans hfresh, hfits, ?_, hprops, ?_⟩
  · rw [hbody, encodedLength_ok]
    exact hle
  · exact hl.paced_of_decode hfits hprops hbody hrun

end Derived.Lawful

end

end Mqtt
end Vaux
