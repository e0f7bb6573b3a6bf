import Vaux.Async.Reassembly
import Vaux.Mqtt.EncodedSize

/-!
# Transport

What `PacketStream::write` puts on a socket and what `PacketStream::read` makes of it at the
other end.  A frame of which the decoder makes a packet on its own is one behind which it
stops, and in front of whose end it asks for more; so written packets come out of the other
stream in order, each as the decoder reads it.
-/

namespace Vaux
namespace Async

open Wire Decoder Mqtt

/-! ## Frames that are decoded on their own -/

section

variable {e body : Bytes} {first : UInt8} {len : Bytes}

/-- With more bytes behind it the frame is the same. -/
theorem opened_append (h : Opened e first len body []) (rest : Bytes) :
    Opened (e ++ rest) first len body rest where
  eq := by rw [h.eq, List.append_nil, List.cons_append]
  varInt := h.varInt
  len_le := h.len_le
  body_length := h.body_length
  len_le_three := h.len_le_three
  legal := h.legal

theorem decode_append (h : Opened e first len body []) (rest : Bytes) :
    decode (e ++ rest) = decode e := by
  rw [decode_opened h, decode_opened (opened_append h rest)]

/-- A length field that is cut short says that it goes on. -/
theorem continues_of_beginning {src : Bytes} (hlen : VarIntBytes len) (hpre : src <+: len)
    (hlt : src.length < len.length) : ∀ y ∈ src, 128 ≤ y.toNat := by
  obtain ⟨init, last, rfl, hall, -⟩ := hlen
  have hinit : src <+: init := by
    refine List.prefix_of_prefix_length_le hpre (List.prefix_append init [last]) ?_
    rw [List.length_append, List.length_singleton] at hlt
    omega
  exact fun y hy => hall y (hinit.subset hy)

/-- The beginning of a frame asks for more. -/
theorem decode_of_part (h : Opened e first len body []) {b : Bytes} (hpre : b <+: e)
    (hlt : b.length < e.length) : ∃ x, decode b = .err x ∧ x.insufficient := by
  have heq : e = first :: (len ++ body) := by rw [h.eq, List.append_nil]
  rcases b with _ | ⟨y, src⟩
  · obtain ⟨x, hx, hdecode⟩ := decode_short (b := []) (by decide)
    exact ⟨x, hdecode, hx⟩
  rw [heq, List.cons_prefix_cons] at hpre
  obtain ⟨rfl, hpre⟩ := hpre
  rw [heq, List.length_cons, List.length_cons, List.length_append] at hlt
  by_cases hshort : src.length < len.length
  · have hprelen : src <+: len :=
      List.prefix_of_prefix_length_le hpre (List.prefix_append len body) hshort.le
    have h3 := h.len_le_three
    obtain ⟨x, hx, hdecode⟩ :=
      decode_starve h.legal (continues_of_beginning h.varInt hprelen hshort) (by omega)
    exact ⟨x, hdecode, hx⟩
  · obtain ⟨front, rfl⟩ : len <+: src :=
      List.prefix_of_prefix_length_le (List.prefix_append len body) hpre (by omega)
    rw [List.length_append] at hlt
    have hfront : front.length < varIntValue len := by
      rw [← h.body_length]
      omega
    rw [decode_accept h.legal h.varInt h.len_le_three, if_pos hfront]
    exact ⟨_, rfl, by simp⟩

/-- What the decoder makes of a whole frame is what a stream takes from it. -/
theorem frameOf_of_opened (h : Opened e first len body []) {p : Packet}
    (hdecode : decode e = .ok (some (p, e.length))) : FrameOf decode e p where
  ne_nil := by
    rw [h.eq]
    exact List.cons_ne_nil _ _
  whole rest := by rw [decode_append h rest, hdecode]
  part _ hpre hlt := decode_of_part h hpre hlt

end

end Async

namespace Mqtt

open Wire

/-- The bytes of a packet; nothing for one that cannot be encoded. -/
def Packet.bytes (order : HashOrder) (p : Packet) : Bytes :=
  match p.encode order with
  | .ok e => e
  | .error _ => []

/-- The packet at the other end of a stream: what the decoder makes of the bytes, if they are
one frame by their length field and it takes them for one. -/
def Packet.carried (order : HashOrder) (p : Packet) : Option Packet :=
  match p.encode order with
  | .error _ => none
  | .ok e =>
    match decode e with
    | .ok (some (q, n)) =>
      if n = e.length ∧ (p.codecSize order).toNat = encodedLength (p.encodeBody order) then some q
      else none
    | _ => none

theorem Packet.carried_eq_some {order : HashOrder} {p q : Packet} :
    p.carried order = some q ↔
      ∃ e, p.encode order = .ok e ∧ decode e = .ok (some (q, e.length)) ∧
        (p.codecSize order).toNat = encodedLength (p.encodeBody order) := by
  unfold carried
  constructor
  · intro h
    split at h
    · cases h
    · rename_i e henc
      split at h
      · rename_i q' n hdecode
        split at h
        · rename_i hn
          cases h
          exact ⟨e, henc, hn.1 ▸ hdecode, hn.2⟩
        · cases h
      · cases h
  · rintro ⟨e, henc, hdecode, hsize⟩
    simp only [henc, hdecode, hsize, and_self, if_true]

end Mqtt

namespace Async

open Wire Decoder Mqtt

/-- A packet that is carried is written as one frame. -/
theorem opened_of_carried {order : HashOrder} {p q : Packet} (h : p.carried order = some q) :
    ∃ first len body, Opened (p.bytes order) first len body [] ∧
      p.encodeBody order = .ok body ∧ first = firstByte p.fixedHeader ∧
      decode (p.bytes order) = .ok (some (q, (p.bytes order).length)) := by
  obtain ⟨e, henc, hdecode, hsize⟩ := Packet.carried_eq_some.mp h
  have hbytes : p.bytes order = e := by rw [Packet.bytes, henc]
  rw [hbytes]
  obtain ⟨body, hbody, heq⟩ := encodePacket_eq_ok ((Packet.encode_eq order p).symm.trans henc)
  rw [hbody, encodedLength_ok] at hsize
  obtain ⟨hvar, hvalue, -⟩ := varIntEncoding_spec (p.codecSize order)
  rcases decode_cases e with ⟨first, len, body', rest, hopen⟩ | ⟨⟨x, -, hx⟩, -⟩ | ⟨x, -, hx⟩
  · have hsame := hopen.eq
    rw [heq, List.cons.injEq, List.append_assoc] at hsame
    obtain ⟨rfl, htail⟩ := hsame
    obtain ⟨rfl, hrest⟩ := hvar.prefix_unique hopen.varInt htail
    have hlength : body.length = body'.length := by rw [hopen.body_length, hvalue, hsize]
    have hall : body ++ [] = body' ++ rest := by rw [List.append_nil, hrest]
    obtain ⟨rfl, rfl⟩ := List.append_inj hall hlength
    exact ⟨_, _, _, hopen, hbody, rfl, hdecode⟩
  · rw [hx] at hdecode
    cases hdecode
  · rw [hx] at hdecode
    cases hdecode

theorem frameOf_of_carried {order : HashOrder} {p q : Packet} (h : p.carried order = some q) :
    FrameOf decode (p.bytes order) q := by
  obtain ⟨first, len, body, hopen, -, -, hdecode⟩ := opened_of_carried h
  exact frameOf_of_opened hopen hdecode

/-! ## Streams of packets -/

/-- Packets and what they are carried as, each with the order its maps are written in. -/
abbrev Traffic := List ((HashOrder × Packet) × Packet)

namespace Traffic

/-- What is on the socket when the packets have been written one after the other. -/
def bytes (traffic : Traffic) : Bytes := (traffic.map fun x => x.1.2.bytes x.1.1).flatten

end Traffic

end Async
end Vaux
