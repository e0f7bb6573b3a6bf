import Vaux.Mqtt.Framing

/-!
# The packet stream

`PacketStream::read` of `vaux-async`.  The stream keeps the bytes it has received in
the front of a buffer, tries to decode a packet from them, and asks its socket for
more when the decoder says that data is missing.  A packet that was decoded is
dropped from the buffer by the length the decoder returned.

`poll` is the part of one turn of the loop before the socket is asked, `receive` the
part after it has answered, and `read` the loop over the answers of the socket.
-/

namespace Vaux
namespace Async

open Wire Decoder Mqtt

inductive StreamError where
  | io
  | readTimeout
  | readBuffer
  | codec (e : MqttCodecError)
  deriving DecidableEq

structure PacketStream where
  readBuffer : Bytes
  readOffset : Nat
  initialBufferSize : Nat
  maxBufferSize : Nat
  deriving DecidableEq

/-- What the loop does before it asks the socket. -/
inductive Polled where
  | packet (packet : Packet) (stream : PacketStream)
  | closed
  | failed (e : StreamError)
  | wants
  | panic

/-- An answer of the socket: bytes (none at the end of the stream) or an error. -/
inductive SocketRead where
  | data (chunk : Bytes)
  | timedOut
  | failed

inductive ReadResult where
  | packet (packet : Packet) (stream : PacketStream)
  | closed
  | failed (e : StreamError)
  | waiting (stream : PacketStream)
  | panic

namespace PacketStream

def readBufferSize : Nat := 4096

def defaultMaxBufferSize : Nat := 4096 * 1024

def new (initialBufferSize maxBufferSize : Option Nat) : PacketStream where
  readBuffer := List.replicate (initialBufferSize.getD readBufferSize) 0
  readOffset := 0
  initialBufferSize := initialBufferSize.getD readBufferSize
  maxBufferSize := maxBufferSize.getD defaultMaxBufferSize

/-- `copy_within(from..to, 0)`. -/
def copyWithin (buffer : Bytes) (src dest : Nat) : Bytes :=
  (buffer.take dest).drop src ++ buffer.drop (dest - src)

def poll (self : PacketStream) : Polled :=
  if self.readOffset = 0 then .wants
  else if self.readBuffer.length < self.readOffset then .panic
  else
    match decode (self.readBuffer.take self.readOffset) with
    | .ok (some (packet, decodeLen)) =>
      if decodeLen < self.readOffset then
        .packet packet
          { self with
            readBuffer := copyWithin self.readBuffer decodeLen self.readOffset
            readOffset := self.readOffset - decodeLen }
      else .packet packet { self with readOffset := 0 }
    | .ok none => .closed
    | .err e =>
      match e.kind with
      | .insufficientData _ _ =>
        if self.readOffset ≥ self.maxBufferSize then .failed .readBuffer else .wants
      | _ => .failed (.codec e)
    | .panic => .panic

/-- `Vec::resize` with zeros. -/
def resize (buffer : Bytes) (newSize : Nat) : Bytes :=
  buffer.take newSize ++ List.replicate (newSize - buffer.length) 0

def receive (self : PacketStream) (chunk : Bytes) : PacketStream :=
  let readBuffer := self.readBuffer.take self.readOffset ++ chunk ++
    self.readBuffer.drop (self.readOffset + chunk.length)
  let readOffset := self.readOffset + chunk.length
  { self with
    readBuffer := if readOffset ≥ readBuffer.length then
        resize readBuffer (min (readBuffer.length * 2) self.maxBufferSize)
      else readBuffer
    readOffset }

def read (self : PacketStream) (answers : List SocketRead) : ReadResult :=
  match self.poll with
  | .packet packet stream => .packet packet stream
  | .closed => .closed
  | .failed e => .failed e
  | .panic => .panic
  | .wants =>
    match answers with
    | [] => .waiting self
    | .data chunk :: answers =>
      if chunk = [] ∧ self.readOffset = 0 then .closed else read (self.receive chunk) answers
    | .timedOut :: _ => .failed .readTimeout
    | .failed :: _ => .failed .io

/-- The bytes that were received and not yet decoded. -/
def buffered (self : PacketStream) : Bytes := self.readBuffer.take self.readOffset

/-- The room the socket is given, `&mut self.read_buffer[self.read_offset..]`. -/
def room (self : PacketStream) : Nat := self.readBuffer.length - self.readOffset

/-- The stream holds exactly the bytes `b`. -/
def Holds (self : PacketStream) (b : Bytes) : Prop :=
  self.readOffset ≤ self.readBuffer.length ∧ self.readBuffer.take self.readOffset = b

theorem Holds.length {s : PacketStream} {b : Bytes} (h : s.Holds b) : s.readOffset = b.length := by
  rw [← h.2, List.length_take]
  exact (Nat.min_eq_left h.1).symm

theorem Holds.offset_ne_zero {s : PacketStream} {b : Bytes} (hs : s.Holds b) (hb : b ≠ []) :
    s.readOffset ≠ 0 := by
  intro h
  have hlen := hs.length
  rw [h] at hlen
  exact hb (List.length_eq_zero_iff.mp hlen.symm)

theorem take_copyWithin {buffer : Bytes} {src dest : Nat} (h : src ≤ dest)
    (hdest : dest ≤ buffer.length) :
    (copyWithin buffer src dest).take (dest - src) = (buffer.take dest).drop src := by
  have hlen : ((buffer.take dest).drop src).length = dest - src := by
    rw [List.length_drop, List.length_take]
    omega
  rw [copyWithin, ← hlen, List.take_left]

theorem decode_nil_ne_ok (r : Option (Packet × Nat)) : decode [] ≠ .ok r := by
  obtain ⟨e, -, he⟩ := decode_short (b := []) (by simp)
  rw [he]
  simp

/-- A packet that was decoded leaves the bytes behind the length it was given. -/
theorem poll_packet {s : PacketStream} {b : Bytes} (hs : s.Holds b) {p : Packet} {n : Nat}
    (h : decode b = .ok (some (p, n))) : ∃ s', s.poll = .packet p s' ∧ s'.Holds (b.drop n) := by
  have hlen := hs.length
  have hne := hs.offset_ne_zero fun hb => decode_nil_ne_ok _ (hb ▸ h)
  have hbound : ¬ s.readBuffer.length < s.readOffset := by
    have := hs.1
    omega
  simp only [poll, hne, hbound, if_false, hs.2, h]
  by_cases hn : n < s.readOffset
  · simp only [hn, if_true]
    refine ⟨_, rfl, ?_, ?_⟩
    · simp only [copyWithin, List.length_append, List.length_drop, List.length_take]
      omega
    · show (copyWithin s.readBuffer n s.readOffset).take (s.readOffset - n) = b.drop n
      rw [take_copyWithin (by omega) hs.1, hs.2]
  · simp only [hn, if_false]
    refine ⟨_, rfl, Nat.zero_le _, ?_⟩
    show s.readBuffer.take 0 = b.drop n
    rw [List.take_zero, List.drop_eq_nil_of_le (by omega)]

/-- The stream asks its socket for more bytes, or gives up because its buffer is full. -/
def Waits (s : PacketStream) : Prop :=
  s.poll = .wants ∨ s.poll = .failed .readBuffer

theorem insufficient_of_waits {s : PacketStream} {b : Bytes} (hs : s.Holds b) (hb : b ≠ [])
    (h : s.Waits) : ∃ e, decode b = .err e ∧ e.insufficient := by
  have hne := hs.offset_ne_zero hb
  have hbound : ¬ s.readBuffer.length < s.readOffset := by
    have := hs.1
    omega
  simp only [Waits, poll, hne, hbound, if_false, hs.2] at h
  cases hd : decode b with
  | ok r =>
      rw [hd] at h
      rcases r with _ | ⟨p, n⟩
      · simp at h
      · simp only at h
        split at h <;> simp at h
  | err e =>
      rw [hd] at h
      refine ⟨e, rfl, ?_⟩
      simp only at h
      split at h
      · rename_i expected actual hk
        exact ⟨expected, actual, hk⟩
      · simp at h
  | panic =>
      rw [hd] at h
      simp at h

/-! ## The buffer behind a read -/

section

variable {s : PacketStream} {chunk : Bytes}

/-- The read fills a buffer that is longer than it may be, and the buffer is cut behind it. -/
def Overfills (self : PacketStream) (chunk : Bytes) : Prop :=
  self.maxBufferSize < self.readBuffer.length ∧
    self.readOffset + chunk.length = self.readBuffer.length

theorem buffered_length (h : s.readOffset ≤ s.readBuffer.length) :
    s.buffered.length = s.readOffset := by
  rw [buffered, List.length_take]
  exact Nat.min_eq_left h

/-- What is buffered and the read, in front of what they do not cover. -/
theorem receive_fills (hle : s.readOffset ≤ s.readBuffer.length) (hchunk : chunk.length ≤ s.room) :
    ∃ tail, (s.buffered ++ chunk ++ tail).length = s.readBuffer.length ∧
      (s.receive chunk).readBuffer =
        if s.readOffset + chunk.length = s.readBuffer.length then
          resize (s.buffered ++ chunk) (min (s.readBuffer.length * 2) s.maxBufferSize)
        else s.buffered ++ chunk ++ tail := by
  unfold room at hchunk
  have hbuffered := buffered_length hle
  obtain ⟨tail, htail⟩ : ∃ tail, s.readBuffer.drop (s.readOffset + chunk.length) = tail := ⟨_, rfl⟩
  have hsize : (s.buffered ++ chunk ++ tail).length = s.readBuffer.length := by
    rw [← htail, List.length_append, List.length_append, hbuffered, List.length_drop]
    omega
  refine ⟨tail, hsize, ?_⟩
  have hfront : s.readBuffer.take s.readOffset = s.buffered := rfl
  simp only [receive, hfront, htail, hsize]
  by_cases hfull : s.readOffset + chunk.length = s.readBuffer.length
  · have hnil : tail = [] := by
      rw [← htail]
      exact List.drop_eq_nil_of_le hfull.ge
    rw [if_pos hfull.ge, if_pos hfull, hnil, List.append_nil]
  · rw [if_neg (by omega), if_neg hfull]

theorem length_resize (buffer : Bytes) (newSize : Nat) : (resize buffer newSize).length = newSize := by
  rw [resize, List.length_append, List.length_take, List.length_replicate]
  omega

theorem take_resize {buffer : Bytes} {n newSize : Nat} (h : n ≤ newSize) (hn : n ≤ buffer.length) :
    (resize buffer newSize).take n = buffer.take n := by
  rw [resize, List.take_append_of_le_length (by rw [List.length_take]; omega), List.take_take,
    Nat.min_eq_left h]

/-- A read that does not overfill the buffer is kept whole behind what was there. -/
theorem receive_holds (hle : s.readOffset ≤ s.readBuffer.length) (hchunk : chunk.length ≤ s.room)
    (h : ¬ s.Overfills chunk) : (s.receive chunk).Holds (s.buffered ++ chunk) := by
  obtain ⟨tail, hsize, hbuffer⟩ := receive_fills hle hchunk
  have hlen : (s.buffered ++ chunk).length = (s.receive chunk).readOffset := by
    rw [List.length_append, buffered_length hle]
    rfl
  have hoffset : (s.receive chunk).readOffset = s.readOffset + chunk.length := rfl
  unfold Holds
  rw [hbuffer]
  split
  · rename_i hfull
    have hgrow : ¬ s.maxBufferSize < s.readBuffer.length := fun hmax => h ⟨hmax, hfull⟩
    rw [length_resize, hoffset, hfull]
    refine ⟨by omega, ?_⟩
    rw [← hfull, ← hoffset, take_resize (by omega) hlen.ge, ← hlen, List.take_length]
  · rw [hsize, ← hlen, List.append_assoc s.buffered chunk tail, ← List.append_assoc, List.take_left]
    refine ⟨?_, rfl⟩
    rw [hlen, hoffset]
    unfold room at hchunk
    omega

/-- The first read of a stream, if it does not fill the buffer. -/
theorem new_receive_holds {initialBufferSize : Option Nat} (maxBufferSize : Option Nat)
    (h : chunk.length < initialBufferSize.getD readBufferSize) :
    ((new initialBufferSize maxBufferSize).receive chunk).Holds chunk := by
  have hsize : (new initialBufferSize maxBufferSize).readBuffer.length =
      initialBufferSize.getD readBufferSize := List.length_replicate
  refine receive_holds (Nat.zero_le _) ?_ ?_
  · rw [room, hsize]
    exact h.le
  · rintro ⟨-, hfull⟩
    rw [hsize] at hfull
    exact h.ne ((Nat.zero_add _).symm.trans hfull)

theorem receive_overfilled (h : s.Overfills chunk) (hle : s.readOffset ≤ s.readBuffer.length)
    (hchunk : chunk.length ≤ s.room) :
    (s.receive chunk).readBuffer.length < (s.receive chunk).readOffset := by
  obtain ⟨hmax, hfull⟩ := h
  obtain ⟨tail, -, hbuffer⟩ := receive_fills hle hchunk
  have hoffset : (s.receive chunk).readOffset = s.readOffset + chunk.length := rfl
  rw [hbuffer, if_pos hfull, length_resize, hoffset, hfull]
  omega

/-- The buffer does not grow over its largest size, and not at all if it is over it. -/
theorem receive_length (hle : s.readOffset ≤ s.readBuffer.length) (hchunk : chunk.length ≤ s.room)
    (h : ¬ s.Overfills chunk) :
    (s.receive chunk).readBuffer.length = s.readBuffer.length ∨
      s.readBuffer.length ≤ s.maxBufferSize ∧
        (s.receive chunk).readBuffer.length ≤ s.maxBufferSize := by
  obtain ⟨tail, hsize, hbuffer⟩ := receive_fills hle hchunk
  rw [hbuffer]
  split
  · rename_i hfull
    have hgrow : ¬ s.maxBufferSize < s.readBuffer.length := fun hmax => h ⟨hmax, hfull⟩
    rw [length_resize]
    omega
  · exact .inl hsize

end

end PacketStream

/-! ## The length of a packet -/

/-- A packet is given the length of the frame it was decoded from, and the stream goes
on behind that frame. -/
def KeepsFrames (b : Bytes) : Prop :=
  ∀ p n, decode b = .ok (some (p, n)) →
    FrameLength b n ∧
      ∀ s : PacketStream, s.Holds b →
        ∃ s', s.poll = .packet p s' ∧
          ∀ first len body rest, Framed b first len body rest → s'.Holds rest

/-- What the decoder of the body leaves unread is as long as what it reports too much,
which is four bytes for each user property. -/
def TrailerMatchesExcess (b : Bytes) : Prop :=
  ∀ first len body rest, Opened b first len body rest →
    ∀ excess left, (bodyLayout (headerOf first)).Finishes body excess left →
      left.length = excess

theorem decode_ok_opened {b : Bytes} {p : Packet} {n : Nat} (h : decode b = .ok (some (p, n))) :
    ∃ first len body rest excess left, Opened b first len body rest ∧
      (bodyLayout (headerOf first)).Finishes body excess left ∧
      n + left.length = 1 + len.length + body.length + excess := by
  rcases decode_cases b with ⟨first, len, body, rest, hopen⟩ | ⟨⟨e, -, he⟩, -⟩ | ⟨e, -, he⟩
  · rw [decode_opened hopen] at h
    obtain ⟨⟨⟨p', m⟩, left⟩, hbody, hr⟩ := Outcome.bind_eq_ok.mp h
    cases hr
    obtain ⟨excess, hfin, hcount⟩ := (decodeBody_tracks (headerOf first)).ok_finishes hbody
    refine ⟨first, len, body, rest, excess, left, hopen, hfin, ?_⟩
    simp only at hcount ⊢
    omega
  · rw [he] at h
    cases h
  · rw [he] at h
    cases h

theorem drop_frame {b : Bytes} {first : UInt8} {len body rest : Bytes}
    (h : Framed b first len body rest) : b.drop (1 + len.length + body.length) = rest := by
  rw [h.eq, Nat.add_assoc, Nat.add_comm 1, List.drop_succ_cons, ← List.length_append,
    List.drop_left]

/-- The length returned is that of the frame exactly if the body is left with four
unread bytes for each user property it holds. -/
theorem keepsFrames_iff (b : Bytes) : KeepsFrames b ↔ TrailerMatchesExcess b := by
  constructor
  · intro hkeep first len body rest hopen excess left hfin
    obtain ⟨⟨p, m⟩, hrun, hcount⟩ := (decodeBody_tracks (headerOf first)).finishes_ok hfin
    have hdecode := decode_opened hopen
    rw [hrun, Outcome.bind_ok] at hdecode
    have hlen := (hkeep _ _ hdecode).1.unique ⟨first, len, body, rest, hopen.toFramed, rfl⟩
    simp only at hlen hcount
    omega
  · intro hmatch p n hdecode
    obtain ⟨first, len, body, rest, excess, left, hopen, hfin, hcount⟩ := decode_ok_opened hdecode
    have hleft := hmatch first len body rest hopen excess left hfin
    have hn : n = 1 + len.length + body.length := by omega
    refine ⟨⟨first, len, body, rest, hopen.toFramed, hn⟩, ?_⟩
    intro s hs
    obtain ⟨s', hpoll, hs'⟩ := PacketStream.poll_packet hs hdecode
    refine ⟨s', hpoll, ?_⟩
    intro first' len' body' rest' hf'
    obtain ⟨-, -, -, rfl⟩ := hopen.toFramed.unique hf'
    rwa [hn, drop_frame hopen.toFramed] at hs'

/-- A PUBACK with one empty user property has eleven bytes and is given fifteen. -/
theorem puback_user_property_overcounted :
    ¬ ∀ b p n, decode b = .ok (some (p, n)) → FrameLength b n := by
  intro h
  have hdecode : (decode [0x40, 0x09, 0x00, 0x01, 0x00, 0x05, 0x26, 0x00, 0x00, 0x00, 0x00]).map
      (fun r => r.map Prod.snd) = .ok (some 15) := by decide +kernel
  obtain ⟨r, hr, hmap⟩ := Outcome.bind_eq_ok.mp hdecode
  obtain ⟨⟨p, n⟩, rfl, hn⟩ : ∃ q, r = some q ∧ q.2 = 15 := by
    rcases r with _ | q
    · simp at hmap
    · exact ⟨q, rfl, by simpa using hmap⟩
  have hframe : Framed [0x40, 0x09, 0x00, 0x01, 0x00, 0x05, 0x26, 0x00, 0x00, 0x00, 0x00] 0x40
      [0x09] [0x00, 0x01, 0x00, 0x05, 0x26, 0x00, 0x00, 0x00, 0x00] [] :=
    { eq := rfl
      varInt := varIntBytes_singleton (by decide)
      len_le := by decide
      body_length := by decide }
  have heq := (h _ _ _ hr).unique ⟨_, _, _, _, hframe, rfl⟩
  simp at hn heq
  omega

/-! ## Asking for more bytes -/

/-- More bytes are asked for only if there are bytes missing. -/
def AsksRightly (b : Bytes) : Prop :=
  (∀ e, decode b = .err e → e.insufficient → StrictPrefix b) ∧
    ∀ s : PacketStream, s.Holds b → b ≠ [] → s.Waits → StrictPrefix b

/-- The body of the frame `b` starts with ends inside a string, binary data or a
variable byte integer whose own bytes ask for more. -/
def BodyStarves (b : Bytes) : Prop :=
  ∃ first len body rest, Opened b first len body rest ∧
    (bodyLayout (headerOf first)).Stops body .starved

theorem insufficient_cases {b : Bytes} {e : MqttCodecError} (h : decode b = .err e)
    (he : e.insufficient) : StrictPrefix b ∨ EndlessLength b ∨ BodyStarves b := by
  rcases decode_cases b with ⟨first, len, body, rest, hopen⟩ | ⟨-, hb⟩ | ⟨e', he', hd⟩
  · right
    right
    refine ⟨first, len, body, rest, hopen, ?_⟩
    rw [decode_opened hopen, Outcome.bind_eq_err] at h
    rcases h with h | ⟨r, -, hr⟩
    · exact ((decodeBody_tracks (headerOf first)).starving_iff body).mp ⟨e, h, he⟩
    · cases hr
  · rcases hb with hb | hb
    · exact .inl hb
    · exact .inr (.inl hb)
  · rw [hd] at h
    cases h
    exact absurd he he'

/-- The decoder asks for more bytes without need exactly on an endless length and on
frames whose body starves. -/
theorem asksRightly_iff (b : Bytes) : AsksRightly b ↔ ¬ EndlessLength b ∧ ¬ BodyStarves b := by
  constructor
  · rintro ⟨hask, -⟩
    constructor
    · intro hend
      obtain ⟨first, src, rfl, hl, hlen, hall⟩ := id hend
      obtain ⟨e, he, hd⟩ := decode_starve hl hall hlen.le
      exact hend.not_strictPrefix (hask e hd he)
    · rintro ⟨first, len, body, rest, hopen, hstop⟩
      obtain ⟨e, hrun, he⟩ := ((decodeBody_tracks (headerOf first)).starving_iff body).mpr hstop
      have hd := decode_opened hopen
      rw [hrun, Outcome.bind_err] at hd
      exact hopen.toFramed.not_strictPrefix (hask e hd he)
  · rintro ⟨hend, hstarve⟩
    have hdecode : ∀ e, decode b = .err e → e.insufficient → StrictPrefix b := by
      intro e hd he
      rcases insufficient_cases hd he with h | h | h
      · exact h
      · exact absurd h hend
      · exact absurd h hstarve
    refine ⟨hdecode, ?_⟩
    intro s hs hb hw
    obtain ⟨e, hd, he⟩ := PacketStream.insufficient_of_waits hs hb hw
    exact hdecode e hd he

/-- A DISCONNECT with only a reason code is a whole frame, and more is asked for. -/
theorem disconnect_reason_starves :
    ¬ ∀ b e, decode b = .err e → e.insufficient → StrictPrefix b := by
  intro h
  have hdecode : decode [0xe0, 0x01, 0x00] = .err varIntInsufficient := by decide +kernel
  have hframe : Framed [0xe0, 0x01, 0x00] 0xe0 [0x01] [0x00] [] :=
    { eq := rfl
      varInt := varIntBytes_singleton (by decide)
      len_le := by decide
      body_length := by decide }
  exact hframe.not_strictPrefix (h _ _ hdecode varIntInsufficient_insufficient)

end Async
end Vaux
