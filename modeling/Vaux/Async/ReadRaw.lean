import Vaux.Async.ReadInternal

/-!
# Raw reads

`PacketStream::read_raw` beside `PacketStream::read`.  The bytes `read_raw` returns are
split off the copy of the buffer that the decoder has already read and cut, so they are at
most the body of the frame; mostly there are too few of them and the call aborts.  It
agrees with `read` as long as it does not come to a packet.
-/

namespace Vaux
namespace Async

open Wire Decoder Mqtt

/-- The bytes of the frame at the front of `b`. -/
def FrameBytes (b frame : Bytes) : Prop :=
  ∃ first len body rest, Framed b first len body rest ∧ frame = first :: (len ++ body)

/-- What the decoder leaves is shorter than the frame. -/
theorem decodeLeaving_shorter {b frame left : Bytes} {r : Packet × Nat}
    (h : decodeLeaving b = .ok (some r, left)) (hframe : FrameBytes b frame) :
    left.length < frame.length := by
  have hdecode : decode b = .ok (some r) := by rw [decode_eq_map, h, Outcome.map_ok]
  obtain ⟨first, len, body, rest, -, -, hopen, -, -⟩ := decode_ok_opened hdecode
  obtain ⟨first', len', body', rest', hframed, rfl⟩ := hframe
  obtain ⟨rfl, rfl, rfl, rfl⟩ := hopen.toFramed.unique hframed
  rw [decodeLeaving_opened hopen] at h
  obtain ⟨⟨q, left'⟩, hbody, hr⟩ := Outcome.bind_eq_ok.mp h
  cases hr
  have hle := ((decodeBody (headerOf first)).suffix hbody).length_le
  simp only [List.length_cons, List.length_append]
  omega

namespace PacketStream

/-- The buffered bytes are no packet: the decoder returns an error on them. -/
def Rejects (s : PacketStream) : Prop :=
  s.readOffset ≤ s.readBuffer.length ∧ ∃ e, decode s.buffered = .err e

theorem rejects_iff (s : PacketStream) :
    s.Rejects ↔ (∀ p s', s.poll ≠ .packet p s') ∧ s.poll ≠ .panic := by
  unfold Rejects
  by_cases hle : s.readOffset ≤ s.readBuffer.length
  · rw [and_iff_right hle]
    by_cases hzero : s.readOffset = 0
    · obtain ⟨e, -, he⟩ := decode_short (b := []) (by simp)
      simp [poll_zero hzero, buffered, hzero, he]
    · rcases poll_cases hle hzero with ⟨p, n, s', hd, hpoll⟩ | ⟨e, hd, -, hpoll⟩ |
        ⟨e, hd, -, -, hpoll⟩ | ⟨e, hd, -, -, hpoll⟩ | ⟨hd, hpoll⟩ <;> simp [hd, hpoll]
  · have hpoll : s.poll = .panic := by
      rw [poll, if_neg (by omega), if_pos (by omega)]
    simp [hle, hpoll]

end PacketStream

/-- A call returns what `read` returns with `b` in the buffer, and with it the bytes of the
frame if they were asked for. -/
def SameResult (withBytes : Bool) (b : Bytes) (plain result : PacketStream.Returned) : Prop :=
  match withBytes, plain with
  | false, plain => result = plain
  | true, .packet p _ => ∃ frame, FrameBytes b frame ∧ result = .packet p (some frame)
  | true, .panic => False
  | true, plain => result = plain

/-- Calls of `read_raw` (`true`) and `read` (`false`) on one stream, beside calls of `read`
alone on another: each returns what the other does. -/
def AgreesWithRead (mixed plain : PacketStream) :
    List Bool → List SocketRead → List SocketRead → Prop
  | [], _, _ => True
  | withBytes :: calls, answers, plainAnswers =>
    let call := mixed.readInternal withBytes answers
    let plainCall := plain.readInternal false plainAnswers
    SameResult withBytes (plain.lastHead plainAnswers).buffered plainCall.result call.result ∧
      AgreesWithRead call.stream plainCall.stream calls call.answers plainCall.answers

/-- In the turn in which it ends, no call of `read_raw` has a packet before it. -/
def RawRejects (s : PacketStream) : List Bool → List SocketRead → Prop
  | [], _ => True
  | withBytes :: calls, answers =>
    let call := s.readInternal false answers
    (withBytes = true → (s.lastHead answers).Rejects) ∧ RawRejects call.stream calls call.answers

namespace PacketStream

variable {s : PacketStream}

/-- Without a packet before it `read_raw` does what `read` does. -/
theorem readInternal_of_rejects {answers : List SocketRead} (h : (s.lastHead answers).Rejects) :
    s.readInternal true answers = s.readInternal false answers ∧
      (∀ p bytes, (s.readInternal false answers).result ≠ .packet p bytes) ∧
      (s.readInternal false answers).result ≠ .panic := by
  obtain ⟨hpacket, hpanic⟩ := (rejects_iff _).mp h
  obtain ⟨rest, hstop, hcall⟩ := s.readInternal_lastHead answers
  rw [hcall true, hcall false, readInternal_stops hstop, readInternal_stops hstop]
  rcases head_true_cases (s.lastHead answers) with ⟨htrue, -⟩ | ⟨p, s', n, left, hpoll, -⟩
  · rw [htrue, head_false]
    cases hpoll : (s.lastHead answers).poll with
    | packet p s' => exact absurd hpoll (hpacket p s')
    | panic => exact absurd hpoll hpanic
    | closed => simp [Head.ofPolled, Head.finish]
    | failed e => simp [Head.ofPolled, Head.finish]
    | wants => rcases rest with _ | ⟨chunk | _ | _, later⟩ <;> simp [Head.ofPolled, Head.finish]
  · exact absurd hpoll (hpacket p s')

/-- With a packet before it, or where `read` aborts, `read_raw` does something else. -/
theorem not_sameResult_of_not_rejects {answers : List SocketRead}
    (h : ¬ (s.lastHead answers).Rejects) :
    ¬ SameResult true (s.lastHead answers).buffered (s.readInternal false answers).result
      (s.readInternal true answers).result := by
  obtain ⟨rest, hstop, hcall⟩ := s.readInternal_lastHead answers
  rw [hcall true, hcall false, readInternal_stops hstop, readInternal_stops hstop]
  rw [rejects_iff, not_and_or, not_forall] at h
  rcases head_true_cases (s.lastHead answers) with ⟨-, hpacket⟩ | ⟨p, s', n, left, hpoll, -, hd, htrue⟩
  · rcases h with ⟨p, hp⟩ | hpanic
    · exact absurd (hpacket p) hp
    · rw [head_false, not_not.mp hpanic]
      exact id
  · rw [head_false, hpoll, htrue]
    rintro ⟨frame, hframe, hresult⟩
    have hshort := decodeLeaving_shorter hd hframe
    split at hresult
    · cases hresult
    · cases hresult
      rw [List.length_take] at hshort
      omega

end PacketStream

open PacketStream in
/-- Calls of `read_raw` can stand for calls of `read` exactly where these do not return a
packet. -/
theorem agreesWithRead_iff (s : PacketStream) (calls : List Bool) (answers : List SocketRead) :
    AgreesWithRead s s calls answers answers ↔ RawRejects s calls answers := by
  induction calls generalizing s answers with
  | nil => exact Iff.rfl
  | cons withBytes calls ih =>
      simp only [AgreesWithRead, RawRejects]
      cases withBytes with
      | false => simp [SameResult, ih]
      | true =>
          by_cases h : (s.lastHead answers).Rejects
          · obtain ⟨heq, hpacket, hpanic⟩ := readInternal_of_rejects h
            rw [heq, ih]
            have hsame : SameResult true (s.lastHead answers).buffered
                (s.readInternal false answers).result (s.readInternal false answers).result := by
              cases hresult : (s.readInternal false answers).result with
              | packet p bytes => exact absurd hresult (hpacket p bytes)
              | panic => exact absurd hresult hpanic
              | closed => rfl
              | failed e => rfl
              | waiting => rfl
            simp [hsame, h]
          · simp [h, not_sameResult_of_not_rejects h]

theorem SameResult.ne_panic {b : Bytes} {plain result : PacketStream.Returned}
    (h : SameResult true b plain result) : result ≠ .panic := by
  rintro rfl
  cases plain with
  | packet p bytes =>
      obtain ⟨frame, -, hresult⟩ := h
      cases hresult
  | panic => exact h
  | closed => cases h
  | failed e => cases h
  | waiting => cases h

theorem head_true_of_ping {s : PacketStream} (h : s.Holds [0xc0, 0x00]) :
    s.head true = .panic := by
  have hoffset : s.readOffset = 2 := h.length
  have hbound : ¬ s.readBuffer.length < 2 := by
    have := h.1
    omega
  have hdecode : decodeLeaving [0xc0, 0x00] = .ok (some (.pingRequest .default, 2), []) := rfl
  have hfront : s.readBuffer.take 2 = [0xc0, 0x00] := hoffset ▸ h.2
  simp [PacketStream.head, hoffset, hbound, hfront, hdecode]

theorem not_agrees_of_ping {s : PacketStream} (hwants : s.poll = .wants)
    (hholds : (s.receive [0xc0, 0x00]).Holds [0xc0, 0x00]) (plainAnswers : List SocketRead) :
    ¬ AgreesWithRead s s [true] [.data [0xc0, 0x00]] plainAnswers := by
  rintro ⟨hsame, -⟩
  apply hsame.ne_panic
  have hstop : (s.receive [0xc0, 0x00]).Stops [] := trivial
  rw [PacketStream.readInternal_wants true hwants (by simp), PacketStream.readInternal_stops hstop,
    head_true_of_ping hholds]
  rfl

/-- The two bytes of a PINGREQ, which the decoder reads to their end. -/
theorem readRaw_aborts_on_ping :
    (∀ order, Packet.encode order (.pingRequest .default) = .ok [0xc0, 0x00]) ∧
      ¬ AgreesWithRead (.new none none) (.new none none) [true] [.data [0xc0, 0x00]]
        [.data [0xc0, 0x00]] := by
  constructor
  · intro order
    have henc : encodePacket (.new .pingReq) 0 (.ok []) = .ok [0xc0, 0x00] := by decide +kernel
    exact henc
  · exact not_agrees_of_ping rfl (PacketStream.new_receive_holds none (by decide)) _

end Async
end Vaux
