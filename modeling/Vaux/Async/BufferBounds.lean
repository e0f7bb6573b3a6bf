import Vaux.Async.ReadInternal
import Vaux.Machine.Run

/-!
# The bounds of the buffer

The heads of the loop a stream goes through, in calls of `read` and `read_raw` alike.
Nothing is cut out of range and nothing received is lost as long as no read fills a buffer
that is longer than the largest size, which a small `with_max_packet_size` makes possible:
the buffer starts with 4096 bytes whatever the largest size is, and is then cut to it.
-/

namespace Vaux
namespace Async

open Wire Decoder Mqtt

/-! ## Whole frames -/

theorem not_framed_of_endlessLength {b : Bytes} (h : EndlessLength b) {first : UInt8}
    {len body rest : Bytes} : ¬ Framed b first len body rest := by
  obtain ⟨first', src, rfl, -, hlen, hall⟩ := h
  intro hf
  have heq := hf.eq
  rw [List.cons.injEq, List.append_assoc] at heq
  obtain ⟨init, last, hinit, -, hlast⟩ := hf.varInt
  have hmem : last ∈ src := by
    rw [heq.2, hinit]
    simp
  have := hall last hmem
  omega

theorem BodyStarves.asks {b : Bytes} (h : BodyStarves b) :
    ∃ e, decode b = .err e ∧ e.insufficient := by
  obtain ⟨first, len, body, rest, hopen, hstop⟩ := h
  obtain ⟨e, hrun, he⟩ := ((decodeBody_tracks (headerOf first)).starving_iff body).mpr hstop
  refine ⟨e, ?_, he⟩
  rw [decode_opened hopen, hrun, Outcome.bind_err]

/-- Bytes on which the decoder asks for more start with a whole frame only if its body
starves. -/
theorem frameLength_iff_bodyStarves {b : Bytes} {e : MqttCodecError} (h : decode b = .err e)
    (he : e.insufficient) : (∃ n, FrameLength b n) ↔ BodyStarves b := by
  constructor
  · rintro ⟨n, first, len, body, rest, hf, -⟩
    rcases insufficient_cases h he with hp | hend | hstarve
    · exact absurd hp hf.not_strictPrefix
    · exact absurd hf (not_framed_of_endlessLength hend)
    · exact hstarve
  · rintro ⟨first, len, body, rest, hopen, -⟩
    exact ⟨_, first, len, body, rest, hopen.toFramed, rfl⟩

/-- The decoder leaves at least as much of the frame at the front of `b` as it says it
took: most of the body. -/
def LeavesEnough (b : Bytes) : Prop :=
  ∀ first len body rest, Opened b first len body rest →
    ∀ excess left, (bodyLayout (headerOf first)).Finishes body excess left →
      1 + len.length + body.length + excess ≤ 2 * left.length

theorem leavesEnough_iff (b : Bytes) :
    LeavesEnough b ↔
      ∀ p n left, decodeLeaving b = .ok (some (p, n), left) → n ≤ left.length := by
  constructor
  · intro henough p n left h
    have hdecode : decode b = .ok (some (p, n)) := by rw [decode_eq_map, h, Outcome.map_ok]
    obtain ⟨first, len, body, rest, -, -, hopen, -, -⟩ := decode_ok_opened hdecode
    rw [decodeLeaving_opened hopen] at h
    obtain ⟨⟨⟨q, m⟩, left'⟩, hbody, hr⟩ := Outcome.bind_eq_ok.mp h
    cases hr
    obtain ⟨excess, hfin, hcount⟩ := (decodeBody_tracks (headerOf first)).ok_finishes hbody
    have := henough first len body rest hopen excess left' hfin
    simp only at hcount ⊢
    omega
  · intro hcut first len body rest hopen excess left hfin
    obtain ⟨⟨q, m⟩, hrun, hcount⟩ := (decodeBody_tracks (headerOf first)).finishes_ok hfin
    have hdecode := decodeLeaving_opened hopen
    rw [hrun, Outcome.bind_ok] at hdecode
    have := hcut _ _ _ hdecode
    simp only at this hcount
    omega

namespace PacketStream

/-! ## The heads of the loop -/

/-- From one head of the loop to the next, in the same call or, if that returns, in the
next one; `withBytes` tells `read_raw` from `read`, and the socket answers if it is asked. -/
def nextHead (s : PacketStream) : Bool × SocketRead → Option PacketStream
  | (withBytes, answer) =>
    match s.head withBytes with
    | .returns _ _ s' => some s'
    | .closed | .failed _ => some s
    | .panic => none
    | .wants =>
      match answer with
      | .data chunk =>
        if s.room < chunk.length then none
        else if chunk = [] ∧ s.readOffset = 0 then some s
        else some (s.receive chunk)
      | .timedOut | .failed => some s

/-- What a turn of the loop has to keep to. -/
structure KeepsBounds (s : PacketStream) (withBytes : Bool) (answer : SocketRead) : Prop where
  /-- Both slices of the buffer, up to the offset and from it, are inside. -/
  offset_le : s.readOffset ≤ s.readBuffer.length
  /-- Only the decoder may abort. -/
  aborts : s.head withBytes = .panic → decode s.buffered = .panic
  /-- What is read comes behind what was buffered. -/
  received : ∀ chunk, answer = .data chunk → chunk.length ≤ s.room → s.head withBytes = .wants →
    (s.receive chunk).buffered = s.buffered ++ chunk
  full : s.head withBytes = .failed .readBuffer →
    s.maxBufferSize ≤ s.buffered.length ∧ ¬ ∃ n, FrameLength s.buffered n

/-- The turn is none of those that go wrong: a read that fills a buffer over the largest
size, a full buffer that holds a frame the decoder asks for more of, and a packet
`read_raw` cannot cut out. -/
structure StaysInside (s : PacketStream) (withBytes : Bool) (answer : SocketRead) : Prop where
  fits : ∀ chunk, answer = .data chunk → chunk.length ≤ s.room → s.poll = .wants →
    ¬ s.Overfills chunk
  fed : s.maxBufferSize ≤ s.readOffset → ¬ BodyStarves s.buffered
  splits : withBytes = true → LeavesEnough s.buffered

theorem new_length {initialBufferSize maxBufferSize : Option Nat} :
    (new initialBufferSize maxBufferSize).readBuffer.length =
      initialBufferSize.getD readBufferSize := List.length_replicate

section

variable {s : PacketStream} {withBytes : Bool} {answer : SocketRead}

theorem offset_ne_zero_of_bodyStarves (h : BodyStarves s.buffered) : s.readOffset ≠ 0 := by
  intro hzero
  obtain ⟨first, len, body, rest, hopen, -⟩ := h
  have heq := hopen.eq
  rw [buffered, hzero, List.take_zero] at heq
  cases heq

/-- The buffer is given up where it is full and the decoder asks for more. -/
theorem head_eq_readBuffer (hle : s.readOffset ≤ s.readBuffer.length) :
    s.head withBytes = .failed .readBuffer ↔
      s.readOffset ≠ 0 ∧ s.maxBufferSize ≤ s.readOffset ∧
        ∃ e, decode s.buffered = .err e ∧ e.insufficient := by
  have hpoll : s.poll = .failed .readBuffer ↔
      s.readOffset ≠ 0 ∧ s.maxBufferSize ≤ s.readOffset ∧
        ∃ e, decode s.buffered = .err e ∧ e.insufficient := by
    by_cases hne : s.readOffset = 0
    · simp [poll_zero hne, hne]
    · rcases poll_cases hle hne with ⟨p, n, s', hd, hpoll⟩ | ⟨e, hd, he, hpoll⟩ |
        ⟨e, hd, he, hmax, hpoll⟩ | ⟨e, hd, he, hmax, hpoll⟩ | ⟨hd, hpoll⟩
      · simp [hpoll, hd]
      · simp [hpoll, hd, he]
      · simp [hpoll, hd, he, hne, hmax]
      · simp [hpoll, hmax]
      · simp [hpoll, hd]
  rw [← hpoll]
  cases withBytes with
  | false =>
      rw [head_false]
      cases s.poll <;> simp [Head.ofPolled]
  | true =>
      rcases head_true_cases s with ⟨htrue, -⟩ | ⟨p, s', n, left, hp, -, -, htrue⟩
      · rw [htrue]
        cases s.poll <;> simp [Head.ofPolled]
      · rw [htrue, hp]
        split <;> simp

/-- A turn aborts where the decoder does and where `read_raw` cuts too much. -/
theorem head_eq_panic (hle : s.readOffset ≤ s.readBuffer.length) :
    s.head withBytes = .panic ↔
      decode s.buffered = .panic ∨ withBytes = true ∧ ¬ LeavesEnough s.buffered := by
  have hpoll : s.poll = .panic ↔ decode s.buffered = .panic := by
    by_cases hne : s.readOffset = 0
    · obtain ⟨e, -, hd⟩ := decode_short (b := []) (by simp)
      simp [poll_zero hne, buffered, hne, hd]
    · rcases poll_cases hle hne with ⟨p, n, s', hd, hpoll⟩ | ⟨e, hd, he, hpoll⟩ |
        ⟨e, hd, he, hmax, hpoll⟩ | ⟨e, hd, he, hmax, hpoll⟩ | ⟨hd, hpoll⟩ <;> simp [hpoll, hd]
  have hof : ∀ polled : Polled, Head.ofPolled polled = .panic ↔ polled = .panic := by
    intro polled
    cases polled <;> simp [Head.ofPolled]
  cases withBytes with
  | false =>
      rw [head_false, hof, hpoll]
      simp
  | true =>
      rcases head_true_cases s with ⟨htrue, hpacket⟩ | ⟨p, s', n, left, hp, -, hd, htrue⟩
      · have henough : LeavesEnough s.buffered := by
          rw [leavesEnough_iff]
          intro p n left hd
          have hdecode : decode s.buffered = .ok (some (p, n)) := by rw [decode_eq_map, hd, Outcome.map_ok]
          obtain ⟨s', hp, -⟩ := poll_packet ⟨hle, rfl⟩ hdecode
          exact absurd hp (hpacket p s')
        rw [htrue, hof, hpoll]
        simp [henough]
      · have hdecode : decode s.buffered ≠ .panic := by simp [decode_eq_map, hd]
        have henough : LeavesEnough s.buffered ↔ ¬ left.length < n := by
          rw [leavesEnough_iff, hd]
          simp
        rw [htrue, henough]
        simp [hdecode]

/-- A turn keeps to the bounds exactly if it is none of the three. -/
theorem keepsBounds_iff (hle : s.readOffset ≤ s.readBuffer.length) :
    s.KeepsBounds withBytes answer ↔ s.StaysInside withBytes answer := by
  constructor
  · rintro ⟨-, haborts, hreceived, hfull⟩
    refine ⟨?_, ?_, ?_⟩
    · intro chunk hanswer hchunk hpoll hover
      have hkept := hreceived chunk hanswer hchunk ((head_eq_wants withBytes s).mpr hpoll)
      have hcut := receive_overfilled hover hle hchunk
      have hlen := congrArg List.length hkept
      rw [buffered, List.length_take, List.length_append, buffered_length hle] at hlen
      have hoffset : (s.receive chunk).readOffset = s.readOffset + chunk.length := rfl
      omega
    · intro hmax hstarve
      have hasks := BodyStarves.asks hstarve
      have hhead : s.head withBytes = .failed .readBuffer :=
        (head_eq_readBuffer hle).mpr ⟨offset_ne_zero_of_bodyStarves hstarve, hmax, hasks⟩
      obtain ⟨e, hd, he⟩ := hasks
      exact (hfull hhead).2 ((frameLength_iff_bodyStarves hd he).mpr hstarve)
    · intro hraw
      by_contra henough
      have hpanic := haborts ((head_eq_panic hle).mpr (.inr ⟨hraw, henough⟩))
      refine henough ((leavesEnough_iff _).mpr ?_)
      intro p n left hd
      rw [decode_eq_map, hd] at hpanic
      cases hpanic
  · rintro ⟨hfits, hfed, hsplits⟩
    refine ⟨hle, ?_, ?_, ?_⟩
    · intro hpanic
      rcases (head_eq_panic hle).mp hpanic with hd | ⟨hraw, hnot⟩
      · exact hd
      · exact absurd (hsplits hraw) hnot
    · intro chunk hanswer hchunk hwants
      have hholds := receive_holds hle hchunk
        (hfits chunk hanswer hchunk ((head_eq_wants withBytes s).mp hwants))
      exact hholds.2
    · intro hhead
      obtain ⟨hne, hmax, e, hd, he⟩ := (head_eq_readBuffer hle).mp hhead
      rw [buffered_length hle]
      exact ⟨hmax, fun hframe => hfed hmax ((frameLength_iff_bodyStarves hd he).mp hframe)⟩

theorem nextHead_data (hpoll : s.poll = .wants) {chunk : Bytes} (hroom : chunk.length ≤ s.room)
    (hmore : chunk ≠ []) : s.nextHead (withBytes, .data chunk) = some (s.receive chunk) := by
  have hfits : ¬ s.room < chunk.length := by omega
  simp only [nextHead, (head_eq_wants withBytes s).mpr hpoll, hfits, hmore, if_false, false_and]

/-- What `read` leaves of the buffer behind a packet. -/
theorem packet_spec (hle : s.readOffset ≤ s.readBuffer.length) {p : Packet} {s' : PacketStream}
    (h : s.poll = .packet p s') :
    s'.readOffset ≤ s'.readBuffer.length ∧ s'.readBuffer.length = s.readBuffer.length ∧
      s'.initialBufferSize = s.initialBufferSize ∧ s'.maxBufferSize = s.maxBufferSize := by
  unfold poll at h
  split at h
  · cases h
  split at h
  · cases h
  split at h
  · split at h
    · cases h
      refine ⟨?_, length_copyWithin hle, rfl, rfl⟩
      simp only [length_copyWithin hle]
      omega
    · cases h
      exact ⟨Nat.zero_le _, rfl, rfl, rfl⟩
  · cases h
  · split at h
    · split at h <;> cases h
    · cases h
  · cases h

/-- What a turn can do to the stream. -/
theorem nextHead_cases {s' : PacketStream} (h : s.nextHead (withBytes, answer) = some s') :
    s' = s ∨ (∃ p, s.poll = .packet p s') ∨
    s' = { s with readBuffer := resize s.readBuffer s.initialBufferSize } ∧
      s.readBuffer.length < s.initialBufferSize ∨
    ∃ chunk, answer = .data chunk ∧ chunk.length ≤ s.room ∧ s.poll = .wants ∧
      s' = s.receive chunk := by
  unfold nextHead at h
  simp only at h
  split at h
  · rename_i p bytes t hhead
    cases h
    cases withBytes with
    | false =>
        rw [head_false] at hhead
        cases hpoll : s.poll with
        | packet q u =>
            rw [hpoll] at hhead
            cases hhead
            exact .inr (.inl ⟨p, rfl⟩)
        | _ =>
            rw [hpoll] at hhead
            cases hhead
    | true =>
        rcases head_true_cases s with ⟨htrue, hpacket⟩ | ⟨q, u, n, left, -, -, -, htrue⟩
        · rw [htrue] at hhead
          cases hpoll : s.poll with
          | packet q u => exact absurd hpoll (hpacket q u)
          | _ =>
              rw [hpoll] at hhead
              cases hhead
        · rw [htrue] at hhead
          split at hhead
          · cases hhead
          · cases hhead
            split
            · rename_i hshort
              exact .inr (.inr (.inl ⟨rfl, hshort⟩))
            · exact .inl rfl
  · cases h
    exact .inl rfl
  · cases h
    exact .inl rfl
  · cases h
  · rename_i hhead
    split at h
    · rename_i chunk
      split at h
      · cases h
      · split at h
        · cases h
          exact .inl rfl
        · cases h
          exact .inr (.inr (.inr ⟨chunk, rfl, by omega,
            (head_eq_wants withBytes s).mp hhead, rfl⟩))
    · cases h
      exact .inl rfl
    · cases h
      exact .inl rfl

/-- The offset stays inside the buffer. -/
theorem nextHead_offset_le (hle : s.readOffset ≤ s.readBuffer.length)
    (hstay : s.StaysInside withBytes answer) {s' : PacketStream}
    (h : s.nextHead (withBytes, answer) = some s') : s'.readOffset ≤ s'.readBuffer.length := by
  rcases nextHead_cases h with rfl | ⟨p, hpoll⟩ | ⟨rfl, hshort⟩ | ⟨chunk, rfl, hchunk, hpoll, rfl⟩
  · exact hle
  · exact (packet_spec hle hpoll).1
  · simp only [length_resize]
    omega
  · exact (receive_holds hle hchunk (hstay.fits chunk rfl hchunk hpoll)).1

/-- A buffer that starts no longer than the largest size is never overfilled. -/
structure WithinMax (s : PacketStream) : Prop where
  offset_le : s.readOffset ≤ s.readBuffer.length
  initial_le : s.initialBufferSize ≤ s.maxBufferSize
  length_le : s.readBuffer.length ≤ s.maxBufferSize

theorem WithinMax.not_overfills (h : s.WithinMax) (chunk : Bytes) : ¬ s.Overfills chunk :=
  fun hover => absurd hover.1 (by have := h.length_le; omega)

theorem WithinMax.nextHead (hs : s.WithinMax) {s' : PacketStream}
    (h : s.nextHead (withBytes, answer) = some s') : s'.WithinMax := by
  have hlen := hs.length_le
  have hinit := hs.initial_le
  rcases nextHead_cases h with rfl | ⟨p, hpoll⟩ | ⟨rfl, hshort⟩ | ⟨chunk, rfl, hchunk, hpoll, rfl⟩
  · exact hs
  · obtain ⟨hle, hlength, hinitial, hmax⟩ := packet_spec hs.offset_le hpoll
    exact ⟨hle, by omega, by omega⟩
  · refine ⟨?_, hinit, ?_⟩
    · have := hs.offset_le
      simp only [length_resize]
      omega
    · simp only [length_resize]
      omega
  · have hover := hs.not_overfills chunk
    have hmax : (s.receive chunk).maxBufferSize = s.maxBufferSize := rfl
    refine ⟨(receive_holds hs.offset_le hchunk hover).1, hinit, ?_⟩
    rcases receive_length hs.offset_le hchunk hover with heq | ⟨-, hle⟩
    · rw [heq, hmax]
      exact hlen
    · exact hle

/-- The first of the three ways needs an initial size over the largest. -/
theorem not_overfills_of_run {initialBufferSize maxBufferSize : Option Nat}
    (hsizes : initialBufferSize.getD readBufferSize ≤ maxBufferSize.getD defaultMaxBufferSize)
    {turns : List (Bool × SocketRead)}
    (hrun : Machine.run PacketStream.nextHead (new initialBufferSize maxBufferSize) turns = some s)
    (chunk : Bytes) : ¬ s.Overfills chunk := by
  have hnew : (new initialBufferSize maxBufferSize).WithinMax :=
    ⟨Nat.zero_le _, hsizes, by rw [new_length]; exact hsizes⟩
  exact (Machine.invariant (fun s l s' hs h => WithinMax.nextHead hs h) hnew hrun).not_overfills chunk

end

/-- A turn of the loop that goes none of the three ways. -/
def Harmless (s : PacketStream) (turn : Bool × SocketRead) : Prop := s.StaysInside turn.1 turn.2

/-- Whatever the sizes a stream is made with, it keeps to its bounds as long as no turn goes
one of the three ways. -/
theorem keepsBounds_of_run {initialBufferSize maxBufferSize : Option Nat}
    {turns : List (Bool × SocketRead)} {s : PacketStream}
    (hrun : Machine.run nextHead (new initialBufferSize maxBufferSize) turns = some s)
    (hturns : Machine.Along nextHead Harmless (new initialBufferSize maxBufferSize) turns)
    {withBytes : Bool} {answer : SocketRead} (hstay : s.StaysInside withBytes answer) :
    s.KeepsBounds withBytes answer := by
  have hle : s.readOffset ≤ s.readBuffer.length :=
    Machine.invariant_of_step (I := fun s => s.readOffset ≤ s.readBuffer.length)
      (fun s l s' hle hl h => nextHead_offset_le hle hl h) (Nat.zero_le _) hturns hrun
  exact (keepsBounds_iff hle).mpr hstay

section

variable {initialBufferSize maxBufferSize : Option Nat}

theorem run_first {withBytes : Bool} {chunk : Bytes} (hmore : chunk ≠ [])
    (hroom : chunk.length ≤ initialBufferSize.getD readBufferSize) :
    Machine.run nextHead (new initialBufferSize maxBufferSize) [(withBytes, .data chunk)] =
      some ((new initialBufferSize maxBufferSize).receive chunk) := by
  have hwants : (new initialBufferSize maxBufferSize).poll = .wants := rfl
  rw [Machine.run_cons, nextHead_data hwants (by rw [room, new_length]; exact hroom) hmore]
  rfl

/-- A first read that fills a buffer over the largest size. -/
theorem new_overfilled {chunk : Bytes} (hfull : chunk.length = initialBufferSize.getD readBufferSize)
    (hmax : maxBufferSize.getD defaultMaxBufferSize < initialBufferSize.getD readBufferSize)
    (withBytes : Bool) :
    ¬ ((new initialBufferSize maxBufferSize).receive chunk).readOffset ≤
        ((new initialBufferSize maxBufferSize).receive chunk).readBuffer.length ∧
      ((new initialBufferSize maxBufferSize).receive chunk).head withBytes = .panic := by
  have hover : (new initialBufferSize maxBufferSize).Overfills chunk := by
    refine ⟨?_, ?_⟩
    · rw [new_length]
      exact hmax
    · rw [new_length, hfull]
      exact Nat.zero_add _
  have hcut := receive_overfilled hover (Nat.zero_le _) (by rw [room, new_length]; exact hfull.le)
  refine ⟨by omega, ?_⟩
  rw [head, if_neg (by omega), if_pos hcut]

end

/-- The second byte of a PINGREQ, with a largest size below that of the buffer. -/
theorem keepsBounds_second_byte :
    ((new none (some 1024)).receive [0xc0]).KeepsBounds false (.data [0x00]) := by
  have hfirst : (new none (some 1024)).Harmless (false, .data [0xc0]) := by
    refine ⟨?_, fun hmax => absurd hmax (by decide), fun hraw => nomatch hraw⟩
    rintro chunk hchunk - - ⟨-, hfull⟩
    cases hchunk
    rw [new_length] at hfull
    exact absurd hfull (by decide)
  have hholds : ((new none (some 1024)).receive [0xc0]).Holds [0xc0] :=
    new_receive_holds (some 1024) (by decide)
  have hsecond : ((new none (some 1024)).receive [0xc0]).StaysInside false (.data [0x00]) := by
    refine ⟨?_, fun hmax => absurd hmax ?_, fun hraw => nomatch hraw⟩
    · rintro chunk hchunk - - ⟨-, hfull⟩
      cases hchunk
      have hlen : ((new none (some 1024)).receive [0xc0]).readBuffer.length = 4096 := by
        have hroom : [0xc0].length ≤ (new none (some 1024)).room := by
          rw [room, new_length]
          decide
        rcases receive_length (Nat.zero_le _) hroom (hfirst.fits _ rfl hroom rfl) with h | ⟨h, -⟩
        · rw [h, new_length]
          rfl
        · rw [new_length] at h
          exact absurd h (by decide)
      rw [hholds.length, hlen] at hfull
      exact absurd hfull (by decide)
    · rw [hholds.length]
      decide
  exact keepsBounds_of_run (run_first (by simp) (by decide))
    (Machine.Along.cons hfirst (nextHead_data rfl (by rw [room, new_length]; decide) (by simp)) trivial)
    hsecond

/-- A read of 4096 bytes with a largest size of 1024: the bytes are cut to 1024, and the
next turn looks for 4096. -/
theorem small_max_overruns :
    ∃ s, Machine.run nextHead (new none (some 1024)) [(false, .data (List.replicate 4096 0x30))] =
        some s ∧ ¬ s.readOffset ≤ s.readBuffer.length ∧ s.head false = .panic := by
  obtain ⟨chunk, hchunk⟩ : ∃ chunk, List.replicate 4096 (0x30 : UInt8) = chunk := ⟨_, rfl⟩
  have hfull : chunk.length = Option.getD none readBufferSize := by
    rw [← hchunk, List.length_replicate]
    rfl
  have hmore : chunk ≠ [] := List.ne_nil_of_length_pos (hfull ▸ by decide)
  rw [hchunk]
  exact ⟨_, run_first hmore hfull.le, new_overfilled hfull (by decide) false⟩

end PacketStream

end Async
end Vaux
