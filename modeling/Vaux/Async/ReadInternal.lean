import Vaux.Async.Reassembly

/-!
# The loop of the packet stream

`PacketStream::read_internal`, which `read` and `read_raw` share, with the state it leaves
behind.  `read_raw` also cuts the bytes of the packet out of what the decoder has left of
its copy of the buffer, so the decoder is given here with what it leaves.
-/

namespace Vaux
namespace Async

open Wire Decoder Mqtt

theorem decode_ne_none (b : Bytes) : decode b ≠ .ok none := by
  intro h
  rcases decode_cases b with ⟨first, len, body, rest, hopen⟩ | ⟨⟨e, -, he⟩, -⟩ | ⟨e, -, he⟩
  · rw [decode_opened hopen] at h
    obtain ⟨r, -, hr⟩ := Outcome.bind_eq_ok.mp h
    cases hr
  · rw [he] at h
    cases h
  · rw [he] at h
    cases h

namespace PacketStream

/-- What a turn of the loop does before it asks the socket. -/
inductive Head where
  | returns (packet : Packet) (bytes : Option Bytes) (stream : PacketStream)
  | closed
  | failed (e : StreamError)
  | wants
  | panic

def head (withBytes : Bool) (self : PacketStream) : Head :=
  if self.readOffset = 0 then .wants
  else if self.readBuffer.length < self.readOffset then .panic
  else
    match decodeLeaving (self.readBuffer.take self.readOffset) with
    | .ok (some (packet, decodeLen), bytesMut) =>
      if withBytes then
        -- `split_to` aborts when it is asked for more than there is left
        if bytesMut.length < decodeLen then .panic
        else
          .returns packet (some (bytesMut.take decodeLen))
            { self with
              readBuffer := if self.readBuffer.length < self.initialBufferSize then
                  resize self.readBuffer self.initialBufferSize
                else self.readBuffer }
      else if decodeLen < self.readOffset then
        .returns packet none
          { self with
            readBuffer := copyWithin self.readBuffer decodeLen self.readOffset
            readOffset := self.readOffset - decodeLen }
      else .returns packet none { self with readOffset := 0 }
    | .ok (none, _) => .closed
    | .err e =>
      match e.kind with
      | .insufficientData _ _ =>
        if self.readOffset ≥ self.maxBufferSize then .failed .readBuffer else .wants
      | _ => .failed (.codec e)
    | .panic => .panic

/-- What a call returns, if the socket has answered often enough. -/
inductive Returned where
  | packet (packet : Packet) (bytes : Option Bytes)
  | closed
  | failed (e : StreamError)
  | waiting
  | panic

/-- A call, the stream it leaves and the answers of the socket that come behind it. -/
structure Call where
  result : Returned
  stream : PacketStream
  answers : List SocketRead

def readInternal (withBytes : Bool) (self : PacketStream) (answers : List SocketRead) : Call :=
  match self.head withBytes with
  | .returns packet bytes stream => ⟨.packet packet bytes, stream, answers⟩
  | .closed => ⟨.closed, self, answers⟩
  | .failed e => ⟨.failed e, self, answers⟩
  | .panic => ⟨.panic, self, answers⟩
  | .wants =>
    match answers with
    | [] => ⟨.waiting, self, []⟩
    | .data chunk :: answers =>
      if chunk = [] ∧ self.readOffset = 0 then ⟨.closed, self, answers⟩
      else readInternal withBytes (self.receive chunk) answers
    | .timedOut :: answers => ⟨.failed .readTimeout, self, answers⟩
    | .failed :: answers => ⟨.failed .io, self, answers⟩

/-- The stream at the head of the turn in which a call ends. -/
def lastHead (self : PacketStream) : List SocketRead → PacketStream
  | .data chunk :: answers =>
    match self.poll with
    | .wants =>
      if chunk = [] ∧ self.readOffset = 0 then self else lastHead (self.receive chunk) answers
    | _ => self
  | _ => self

/-! ## `read` -/

/-- A call of `read` as `read` gives it. -/
def Call.toRead (c : Call) : ReadResult :=
  match c.result with
  | .packet packet _ => .packet packet c.stream
  | .closed => .closed
  | .failed e => .failed e
  | .waiting => .waiting c.stream
  | .panic => .panic

def Head.ofPolled : Polled → Head
  | .packet packet stream => .returns packet none stream
  | .closed => .closed
  | .failed e => .failed e
  | .wants => .wants
  | .panic => .panic

theorem head_false (s : PacketStream) : s.head false = Head.ofPolled s.poll := by
  simp only [head, poll, decode_eq_map]
  split
  · rfl
  · split
    · rfl
    · rcases decodeLeaving (s.readBuffer.take s.readOffset) with ⟨_ | ⟨p, n⟩, left⟩ | e | _
      · rfl
      · simp only [Outcome.map_ok, Bool.false_eq_true, if_false]
        split <;> rfl
      · simp only [Outcome.map_err]
        cases e.kind with
        | insufficientData expected actual =>
            simp only
            split <;> rfl
        | _ => rfl
      · rfl

/-- `read` is `read_internal` without the bytes. -/
theorem read_eq (s : PacketStream) (answers : List SocketRead) :
    s.read answers = (s.readInternal false answers).toRead := by
  induction answers generalizing s with
  | nil =>
      rw [read.eq_def, readInternal.eq_def, head_false]
      cases s.poll <;> rfl
  | cons a answers ih =>
      rw [read.eq_def, readInternal.eq_def, head_false]
      cases s.poll with
      | wants =>
          cases a with
          | data chunk =>
              simp only [Head.ofPolled]
              split
              · rfl
              · exact ih (s.receive chunk)
          | timedOut => rfl
          | failed => rfl
      | packet p s' => rfl
      | closed => rfl
      | failed e => rfl
      | panic => rfl

/-! ## The last turn -/

/-- The loop does not go on behind this turn. -/
def Stops (self : PacketStream) : List SocketRead → Prop
  | .data chunk :: _ => self.poll = .wants → chunk = [] ∧ self.readOffset = 0
  | _ => True

variable {s : PacketStream}

theorem poll_zero (h : s.readOffset = 0) : s.poll = .wants := by
  rw [poll, if_pos h]

/-- What a turn does before it asks the socket, by what the decoder makes of the bytes. -/
theorem poll_cases (hle : s.readOffset ≤ s.readBuffer.length) (hne : s.readOffset ≠ 0) :
    (∃ p n s', decode s.buffered = .ok (some (p, n)) ∧ s.poll = .packet p s') ∨
    (∃ e, decode s.buffered = .err e ∧ ¬ e.insufficient ∧ s.poll = .failed (.codec e)) ∨
    (∃ e, decode s.buffered = .err e ∧ e.insufficient ∧ s.maxBufferSize ≤ s.readOffset ∧
      s.poll = .failed .readBuffer) ∨
    (∃ e, decode s.buffered = .err e ∧ e.insufficient ∧ s.readOffset < s.maxBufferSize ∧
      s.poll = .wants) ∨
    (decode s.buffered = .panic ∧ s.poll = .panic) := by
  have hbound : ¬ s.readBuffer.length < s.readOffset := by omega
  have hfront : s.readBuffer.take s.readOffset = s.buffered := rfl
  simp only [poll, hne, hbound, if_false, hfront]
  rcases hd : decode s.buffered with ⟨_ | ⟨p, n⟩⟩ | e | _
  · exact absurd hd (decode_ne_none _)
  · by_cases hn : n < s.readOffset
    · exact .inl ⟨p, n, _, rfl, if_pos hn⟩
    · exact .inl ⟨p, n, _, rfl, if_neg hn⟩
  · by_cases he : e.insufficient
    · obtain ⟨expected, actual, hkind⟩ := id he
      by_cases hmax : s.readOffset ≥ s.maxBufferSize
      · exact .inr (.inr (.inl ⟨e, rfl, he, hmax, by simp only [hkind, hmax, if_true]⟩))
      · refine .inr (.inr (.inr (.inl ⟨e, rfl, he, by omega, ?_⟩)))
        simp only [hkind, hmax, if_false]
    · refine .inr (.inl ⟨e, rfl, he, ?_⟩)
      cases hkind : e.kind with
      | insufficientData expected actual => exact absurd ⟨expected, actual, hkind⟩ he
      | _ => simp only [hkind]
  · exact .inr (.inr (.inr (.inr ⟨rfl, rfl⟩)))

/-- Whatever else `read_raw` does with a packet, it does not ask for more bytes. -/
theorem head_true_cases (s : PacketStream) :
    (s.head true = Head.ofPolled s.poll ∧ ∀ p s', s.poll ≠ .packet p s') ∨
    ∃ p s' n left, s.poll = .packet p s' ∧ s.readOffset ≤ s.readBuffer.length ∧
      decodeLeaving s.buffered = .ok (some (p, n), left) ∧
      s.head true = if left.length < n then .panic else
        .returns p (some (left.take n))
          { s with
            readBuffer := if s.readBuffer.length < s.initialBufferSize then
                resize s.readBuffer s.initialBufferSize
              else s.readBuffer } := by
  simp only [head, poll, decode_eq_map, buffered]
  by_cases hzero : s.readOffset = 0
  · exact .inl (by simp [hzero, Head.ofPolled])
  by_cases hbound : s.readBuffer.length < s.readOffset
  · exact .inl (by simp [hzero, hbound, Head.ofPolled])
  simp only [hzero, hbound, if_false]
  rcases hd : decodeLeaving (s.readBuffer.take s.readOffset) with ⟨_ | ⟨p, n⟩, left⟩ | e | _
  · exact .inl ⟨rfl, by simp⟩
  · right
    simp only [Outcome.map_ok, if_true]
    by_cases hn : n < s.readOffset
    · exact ⟨p, _, n, left, by rw [if_pos hn], by omega, rfl, rfl⟩
    · exact ⟨p, _, n, left, by rw [if_neg hn], by omega, rfl, rfl⟩
  · left
    simp only [Outcome.map_err]
    cases e.kind with
    | insufficientData expected actual =>
        simp only
        split <;> exact ⟨rfl, by simp⟩
    | _ => exact ⟨rfl, by simp⟩
  · exact .inl ⟨rfl, by simp⟩

theorem head_eq_wants (withBytes : Bool) (s : PacketStream) :
    s.head withBytes = .wants ↔ s.poll = .wants := by
  have hof : ∀ polled : Polled, Head.ofPolled polled = .wants ↔ polled = .wants := by
    intro polled
    cases polled <;> simp [Head.ofPolled]
  cases withBytes with
  | false => rw [head_false, hof]
  | true =>
      rcases head_true_cases s with ⟨h, -⟩ | ⟨p, s', n, left, hpoll, -, -, h⟩
      · rw [h, hof]
      · rw [h, hpoll]
        split <;> simp

theorem readInternal_wants (withBytes : Bool) (h : s.poll = .wants) {chunk : Bytes}
    (hmore : ¬ (chunk = [] ∧ s.readOffset = 0)) (answers : List SocketRead) :
    s.readInternal withBytes (.data chunk :: answers) =
      (s.receive chunk).readInternal withBytes answers := by
  rw [readInternal.eq_def, (head_eq_wants withBytes s).mpr h]
  simp only [hmore, if_false]

theorem lastHead_wants (h : s.poll = .wants) {chunk : Bytes}
    (hmore : ¬ (chunk = [] ∧ s.readOffset = 0)) (answers : List SocketRead) :
    s.lastHead (.data chunk :: answers) = (s.receive chunk).lastHead answers := by
  simp only [lastHead, h, hmore, if_false]

theorem lastHead_stops {answers : List SocketRead} (h : s.Stops answers) :
    s.lastHead answers = s := by
  unfold lastHead
  split
  · rename_i chunk rest
    split
    · rename_i hpoll
      rw [if_pos (h hpoll)]
    · rfl
  · rfl

/-- A call is its last turn, from the stream at the head of that turn. -/
theorem readInternal_lastHead (s : PacketStream) (answers : List SocketRead) :
    ∃ rest, (s.lastHead answers).Stops rest ∧ ∀ withBytes,
      s.readInternal withBytes answers = (s.lastHead answers).readInternal withBytes rest := by
  induction answers generalizing s with
  | nil => exact ⟨[], trivial, fun _ => rfl⟩
  | cons a answers ih =>
      by_cases hstop : s.Stops (a :: answers)
      · rw [lastHead_stops hstop]
        exact ⟨a :: answers, hstop, fun _ => rfl⟩
      · cases a with
        | data chunk =>
            simp only [Stops, not_forall] at hstop
            obtain ⟨hpoll, hmore⟩ := hstop
            obtain ⟨rest, hrest, hcall⟩ := ih (s.receive chunk)
            rw [lastHead_wants hpoll hmore]
            refine ⟨rest, hrest, ?_⟩
            intro withBytes
            rw [readInternal_wants withBytes hpoll hmore, hcall withBytes]
        | timedOut => exact absurd trivial hstop
        | failed => exact absurd trivial hstop

/-- How a call ends in this turn. -/
def Head.finish (self : PacketStream) (answers : List SocketRead) : Head → Call
  | .returns packet bytes stream => ⟨.packet packet bytes, stream, answers⟩
  | .closed => ⟨.closed, self, answers⟩
  | .failed e => ⟨.failed e, self, answers⟩
  | .panic => ⟨.panic, self, answers⟩
  | .wants =>
    match answers with
    | [] => ⟨.waiting, self, []⟩
    | .data _ :: answers => ⟨.closed, self, answers⟩
    | .timedOut :: answers => ⟨.failed .readTimeout, self, answers⟩
    | .failed :: answers => ⟨.failed .io, self, answers⟩

theorem readInternal_stops {rest : List SocketRead} (hstop : s.Stops rest) (withBytes : Bool) :
    s.readInternal withBytes rest = (s.head withBytes).finish s rest := by
  rw [readInternal.eq_def]
  cases hhead : s.head withBytes with
  | wants =>
      rcases rest with _ | ⟨chunk | _ | _, later⟩
      · rfl
      · exact if_pos (hstop ((head_eq_wants withBytes s).mp hhead))
      · rfl
      · rfl
  | returns p bytes s' => rfl
  | closed => rfl
  | failed e => rfl
  | panic => rfl

end PacketStream

end Async
end Vaux
