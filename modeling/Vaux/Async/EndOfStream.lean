import Vaux.Async.BufferBounds

/-!
# The end of the stream

`PacketStream::read` when the peer has closed its side.  A read of nothing ends the call
only if nothing was buffered; with the first part of a packet in the buffer the loop goes
on reading nothing.
-/

namespace Vaux
namespace Async

open Wire Decoder Mqtt

/-- The decoder asks for more bytes. -/
def Asks (b : Bytes) : Prop := ∃ e, decode b = .err e ∧ e.insufficient

/-- The result of a call that ends with the bytes `b` in the buffer is one of a stream that
has ended, or of the packet in the buffer. -/
def EndsWell (b : Bytes) (result : ReadResult) : Prop :=
  ((¬ ∃ n, FrameLength b n) → result = .closed ∨ ∃ e, result = .failed e) ∧
    ((∃ n, FrameLength b n) →
      (∃ p s, result = .packet p s) ∨ ∃ e, result = .failed (.codec e))

/-- The peer has closed its side. -/
def eof (n : Nat) : List SocketRead := List.replicate n (.data [])

/-- The bytes of the reads. -/
def received : List SocketRead → Bytes
  | [] => []
  | .data chunk :: answers => chunk ++ received answers
  | _ :: answers => received answers

/-- With `b` in the buffer the loop asks for more, and does not take `chunk` for the end of
the stream. -/
def TakesMore (maxBufferSize : Nat) (b chunk : Bytes) : Prop :=
  if b = [] then chunk ≠ [] else Asks b ∧ b.length < maxBufferSize

/-- With `b` in the buffer the call takes all of the reads. -/
def TakesAll (maxBufferSize : Nat) : Bytes → List SocketRead → Prop
  | _, [] => True
  | b, .data chunk :: answers =>
    TakesMore maxBufferSize b chunk ∧ TakesAll maxBufferSize (b ++ chunk) answers
  | _, _ :: _ => False

/-- What is wrong with the bytes `b` after some of the reads. -/
inductive GoesWrong (s : PacketStream) (b : Bytes) (before after : List SocketRead) : Prop
  /-- The peer has closed, and the decoder wants more. -/
  | hangs (hend : after = []) (hb : b ≠ []) (hasks : Asks b) (hroom : b.length < s.maxBufferSize)
  /-- The decoder wants more of a whole frame. -/
  | starves (h : BodyStarves b)
  /-- The decoder aborts. -/
  | overruns (h : BodyOverruns b)
  /-- The last read has filled a buffer that is longer than the largest size. -/
  | overfills (hread : before ≠ []) (hmax : s.maxBufferSize < s.readBuffer.length)
    (hfull : b.length = s.readBuffer.length)

namespace PacketStream

/-- The socket gives no more than there is room for. -/
def Offers (self : PacketStream) : List SocketRead → Prop
  | .data chunk :: answers => chunk.length ≤ self.room ∧ (self.receive chunk).Offers answers
  | _ => True

/-- After the reads the peer closes its side, and the call ends as it should. -/
def Completes (self : PacketStream) (answers : List SocketRead) : Prop :=
  ∃ n, EndsWell (self.lastHead (answers ++ eof n)).buffered (self.read (answers ++ eof n))

/-- The call takes some of the reads and then goes wrong. -/
def Fails (self : PacketStream) (answers : List SocketRead) : Prop :=
  ∃ before after, answers = before ++ after ∧
    TakesAll self.maxBufferSize self.buffered before ∧
    GoesWrong self (self.buffered ++ received before) before after

section

variable {s : PacketStream} {answers : List SocketRead}

theorem read_wants (hpoll : s.poll = .wants) {chunk : Bytes}
    (hmore : ¬ (chunk = [] ∧ s.readOffset = 0)) (answers : List SocketRead) :
    s.read (.data chunk :: answers) = (s.receive chunk).read answers := by
  rw [read.eq_def, hpoll]
  simp only [hmore, if_false]

theorem completes_wants (hpoll : s.poll = .wants) {chunk : Bytes}
    (hmore : ¬ (chunk = [] ∧ s.readOffset = 0)) :
    s.Completes (.data chunk :: answers) ↔ (s.receive chunk).Completes answers := by
  simp only [Completes, List.cons_append, read_wants hpoll hmore, lastHead_wants hpoll hmore]

/-- A call that ends in its first turn. -/
theorem completes_of_stops {result : ReadResult} (hstop : ∀ n, s.Stops (answers ++ eof n))
    (hresult : ∀ n, s.read (answers ++ eof n) = result) :
    s.Completes answers ↔ EndsWell s.buffered result := by
  simp only [Completes, lastHead_stops (hstop _), hresult, exists_const]

theorem stops_of_poll (h : s.poll ≠ .wants) (answers : List SocketRead) : s.Stops answers := by
  unfold Stops
  split
  · exact fun hpoll => absurd hpoll h
  · trivial

theorem completes_of_poll {polled : Polled} {result : ReadResult} (hpoll : s.poll = polled)
    (h : polled ≠ .wants) (hresult : ∀ answers, s.read answers = result) :
    s.Completes answers ↔ EndsWell s.buffered result :=
  completes_of_stops (fun _ => stops_of_poll (hpoll ▸ h) _) fun _ => hresult _

theorem poll_wants_iff (hle : s.readOffset ≤ s.readBuffer.length) :
    s.poll = .wants ↔ s.readOffset = 0 ∨ Asks s.buffered ∧ s.readOffset < s.maxBufferSize := by
  unfold Asks
  by_cases hne : s.readOffset = 0
  · simp [poll_zero hne, hne]
  · rcases poll_cases hle hne with ⟨p, n, s', hd, hpoll⟩ | ⟨e, hd, he, hpoll⟩ |
      ⟨e, hd, he, hmax, hpoll⟩ | ⟨e, hd, he, hmax, hpoll⟩ | ⟨hd, hpoll⟩
    · simp [hpoll, hd, hne]
    · simp [hpoll, hd, he, hne]
    · simp [hpoll, hmax, hne]
    · simp [hpoll, hd, he, hmax]
    · simp [hpoll, hd, hne]

/-- On a closed stream with the first part of a packet the loop turns and turns. -/
theorem read_eof_waits (hle : s.readOffset ≤ s.readBuffer.length) (hpoll : s.poll = .wants)
    (hne : s.readOffset ≠ 0) (n : Nat) : ∃ s', s.read (eof n) = .waiting s' := by
  induction n generalizing s with
  | zero =>
      refine ⟨s, ?_⟩
      rw [eof, List.replicate_zero, read.eq_def, hpoll]
  | succ n ih =>
      obtain ⟨hasks, hmax⟩ := ((poll_wants_iff hle).mp hpoll).resolve_left hne
      have hover : ¬ s.Overfills [] := by
        rintro ⟨hlt, hfull⟩
        rw [List.length_nil, Nat.add_zero] at hfull
        omega
      have hholds := receive_holds hle (Nat.zero_le _) hover
      rw [List.append_nil] at hholds
      rw [eof, List.replicate_succ, read_wants hpoll (fun h => hne h.2)]
      refine ih hholds.1 ((poll_wants_iff hholds.1).mpr (.inr ⟨?_, hmax⟩)) hne
      rwa [buffered, hholds.2]

/-! ## A call that ends in its first turn -/

theorem buffered_eq_nil (hle : s.readOffset ≤ s.readBuffer.length) :
    s.buffered = [] ↔ s.readOffset = 0 := by
  rw [← List.length_eq_zero_iff, buffered_length hle]

theorem takesMore_iff (hle : s.readOffset ≤ s.readBuffer.length) (chunk : Bytes) :
    TakesMore s.maxBufferSize s.buffered chunk ↔
      s.poll = .wants ∧ ¬ (chunk = [] ∧ s.readOffset = 0) := by
  rw [poll_wants_iff hle]
  simp only [TakesMore, buffered_eq_nil hle, buffered_length hle]
  by_cases hne : s.readOffset = 0 <;> simp [hne]

theorem fails_of_stops (hle : s.readOffset ≤ s.readBuffer.length) (hstop : s.Stops answers) :
    s.Fails answers ↔ GoesWrong s s.buffered [] answers := by
  constructor
  · rintro ⟨before, after, rfl, htakes, hwrong⟩
    cases before with
    | nil => simpa [received] using hwrong
    | cons a before =>
        cases a with
        | data chunk =>
            obtain ⟨hpoll, hmore⟩ := (takesMore_iff hle chunk).mp htakes.1
            exact absurd (hstop hpoll) hmore
        | timedOut => exact htakes.elim
        | failed => exact htakes.elim
  · exact fun hwrong => ⟨[], answers, rfl, trivial, by simpa [received] using hwrong⟩

/-- Before the first read the bytes can only be ones the decoder does not get through, or,
on a closed stream, ones it wants more of. -/
theorem goesWrong_first (hle : s.readOffset ≤ s.readBuffer.length) :
    GoesWrong s s.buffered [] answers ↔
      (answers = [] ∧ s.readOffset ≠ 0 ∧ s.poll = .wants) ∨ BodyStarves s.buffered ∨
        BodyOverruns s.buffered := by
  rw [poll_wants_iff hle]
  constructor
  · rintro (⟨hend, hb, hasks, hroom⟩ | h | h | ⟨hread, -, -⟩)
    · rw [buffered_length hle] at hroom
      exact .inl ⟨hend, fun h => hb ((buffered_eq_nil hle).mpr h), .inr ⟨hasks, hroom⟩⟩
    · exact .inr (.inl h)
    · exact .inr (.inr h)
    · exact absurd rfl hread
  · rintro (⟨hend, hne, h⟩ | h | h)
    · obtain ⟨hasks, hroom⟩ := h.resolve_left hne
      refine .hangs hend (fun h => hne ((buffered_eq_nil hle).mp h)) hasks ?_
      rwa [buffered_length hle]
    · exact .starves h
    · exact .overruns h

theorem endsWell_packet {b : Bytes} {p : Packet} : EndsWell b (.packet p s) ↔ ∃ n, FrameLength b n := by
  simp [EndsWell]

theorem endsWell_closed {b : Bytes} : EndsWell b .closed ↔ ¬ ∃ n, FrameLength b n := by
  simp [EndsWell]

theorem endsWell_codec {b : Bytes} {e : MqttCodecError} : EndsWell b (.failed (.codec e)) := by
  simp [EndsWell]

theorem endsWell_failed {b : Bytes} {e : StreamError} (he : ∀ e', e ≠ .codec e') :
    EndsWell b (.failed e) ↔ ¬ ∃ n, FrameLength b n := by
  simp [EndsWell, he]

theorem not_endsWell_panic {b : Bytes} : ¬ EndsWell b .panic := by
  simp [EndsWell]

theorem not_endsWell_waiting {b : Bytes} : ¬ EndsWell b (.waiting s) := by
  simp [EndsWell]

theorem bodyOverruns_iff (b : Bytes) : BodyOverruns b ↔ decode b = .panic :=
  (not_iff_not.mp (decode_returns_iff b)).symm

theorem completes_iff_of_poll (hle : s.readOffset ≤ s.readBuffer.length) (hpoll : s.poll ≠ .wants) :
    s.Completes answers ↔ ¬ s.Fails answers := by
  have hne : s.readOffset ≠ 0 := fun hzero => hpoll (poll_zero hzero)
  have hfails : s.Fails answers ↔ BodyStarves s.buffered ∨ decode s.buffered = .panic := by
    rw [fails_of_stops hle (stops_of_poll hpoll answers), goesWrong_first hle, bodyOverruns_iff]
    simp [hpoll]
  rw [hfails]
  rcases poll_cases hle hne with ⟨p, n, s', hd, hp⟩ | ⟨e, hd, he, hp⟩ | ⟨e, hd, he, hmax, hp⟩ |
    ⟨e, hd, he, hmax, hp⟩ | ⟨hd, hp⟩
  · have hstarve : ¬ BodyStarves s.buffered := by
      intro h
      obtain ⟨e, he, -⟩ := BodyStarves.asks h
      cases hd.symm.trans he
    obtain ⟨first, len, body, rest, -, -, hopen, -, -⟩ := decode_ok_opened hd
    have hframe : ∃ n, FrameLength s.buffered n := ⟨_, first, len, body, rest, hopen.toFramed, rfl⟩
    rw [completes_of_poll hp (by simp) (fun answers => by rw [read.eq_def, hp]), endsWell_packet]
    simp [hframe, hstarve, hd]
  · have hstarve : ¬ BodyStarves s.buffered := by
      intro h
      obtain ⟨e', he', hasks⟩ := BodyStarves.asks h
      cases hd.symm.trans he'
      exact he hasks
    rw [completes_of_poll hp (by simp) (fun answers => by rw [read.eq_def, hp])]
    simp [endsWell_codec, hstarve, hd]
  · rw [completes_of_poll hp (by simp) (fun answers => by rw [read.eq_def, hp]),
      endsWell_failed (by simp), frameLength_iff_bodyStarves hd he]
    simp [hd]
  · exact absurd hp hpoll
  · rw [completes_of_poll hp (by simp) (fun answers => by rw [read.eq_def, hp])]
    simp [not_endsWell_panic, hd]

/-! ## A call that reads -/

theorem receive_starves {chunk : Bytes} {b : Bytes} (h : BodyStarves b) :
    BodyStarves (b ++ chunk) := by
  obtain ⟨first, len, body, rest, hopen, hstop⟩ := h
  refine ⟨first, len, body, rest ++ chunk, ?_, hstop⟩
  exact
    { eq := by rw [hopen.eq]; simp
      varInt := hopen.varInt
      len_le := hopen.len_le
      body_length := hopen.body_length
      len_le_three := hopen.len_le_three
      legal := hopen.legal }

theorem not_overruns_of_wants (hle : s.readOffset ≤ s.readBuffer.length) (hpoll : s.poll = .wants) :
    ¬ BodyOverruns s.buffered := by
  rw [bodyOverruns_iff]
  rcases (poll_wants_iff hle).mp hpoll with hzero | ⟨⟨e, hd, -⟩, -⟩
  · obtain ⟨e, -, hd⟩ := decode_short (b := []) (by simp)
    simp [(buffered_eq_nil hle).mpr hzero, hd]
  · simp [hd]

/-- A read the loop goes on behind: it overfills the buffer, or the call goes wrong later. -/
theorem fails_wants (hle : s.readOffset ≤ s.readBuffer.length) (hpoll : s.poll = .wants)
    {chunk : Bytes} (hchunk : chunk.length ≤ s.room)
    (hmore : ¬ (chunk = [] ∧ s.readOffset = 0)) :
    s.Fails (.data chunk :: answers) ↔ s.Overfills chunk ∨ (s.receive chunk).Fails answers := by
  have htakes := (takesMore_iff hle chunk).mpr ⟨hpoll, hmore⟩
  by_cases hover : s.Overfills chunk
  · refine iff_of_true ⟨[.data chunk], answers, rfl, ⟨htakes, trivial⟩, ?_⟩ (.inl hover)
    refine .overfills (by simp) hover.1 ?_
    simp only [received, List.append_nil, List.length_append, buffered_length hle]
    exact hover.2
  · have hholds := receive_holds hle hchunk hover
    have hbuffered : (s.receive chunk).buffered = s.buffered ++ chunk := hholds.2
    have hlength := receive_length hle hchunk hover
    have hmax : (s.receive chunk).maxBufferSize = s.maxBufferSize := rfl
    simp only [hover, false_or]
    constructor
    · rintro ⟨before, after, heq, htakes', hwrong⟩
      cases before with
      | nil =>
          rw [List.nil_append] at heq
          rw [received, List.append_nil, goesWrong_first hle, ← heq] at hwrong
          rcases hwrong with ⟨hend, -⟩ | h | h
          · cases hend
          · refine ⟨[], answers, rfl, trivial, ?_⟩
            rw [received, List.append_nil, hbuffered]
            exact .starves (receive_starves h)
          · exact absurd h (not_overruns_of_wants hle hpoll)
      | cons a before =>
          rw [List.cons_append, List.cons.injEq] at heq
          obtain ⟨rfl, rfl⟩ := heq
          refine ⟨before, after, rfl, hbuffered ▸ htakes'.2, ?_⟩
          rw [received, ← List.append_assoc, ← hbuffered] at hwrong
          rcases hwrong with ⟨hend, hb, hasks, hroom⟩ | h | h | ⟨-, hlt, hfull⟩
          · exact .hangs hend hb hasks hroom
          · exact .starves h
          · exact .overruns h
          · have hsame : (s.receive chunk).readBuffer.length = s.readBuffer.length := by omega
            refine .overfills ?_ (hsame ▸ hlt) (hfull.trans hsame.symm)
            rintro rfl
            rw [received, List.append_nil, hbuffered, List.length_append, buffered_length hle] at hfull
            exact hover ⟨hlt, hfull⟩
    · rintro ⟨before, after, rfl, htakes', hwrong⟩
      refine ⟨.data chunk :: before, after, rfl, ⟨htakes, hbuffered ▸ htakes'⟩, ?_⟩
      rw [received, ← List.append_assoc, ← hbuffered]
      rcases hwrong with ⟨hend, hb, hasks, hroom⟩ | h | h | ⟨-, hlt, hfull⟩
      · exact .hangs hend hb hasks hroom
      · exact .starves h
      · exact .overruns h
      · have hsame : (s.receive chunk).readBuffer.length = s.readBuffer.length := by omega
        exact .overfills (by simp) (hsame ▸ hlt) (hfull.trans hsame)

theorem not_completes_of_overfilled (h : s.readBuffer.length < s.readOffset) :
    ¬ s.Completes answers := by
  have hpoll : s.poll = .panic := by rw [poll, if_neg (by omega), if_pos h]
  rw [completes_of_poll hpoll (by simp) (fun answers => by rw [read.eq_def, hpoll])]
  exact not_endsWell_panic

/-- A call that ends with a read: nothing was buffered, or no whole frame. -/
theorem completes_iff_of_last (hle : s.readOffset ≤ s.readBuffer.length) (hpoll : s.poll = .wants)
    {result : ReadResult} (hstop : ∀ n, s.Stops (answers ++ eof n)) (hne : answers ≠ [])
    (hresult : ∀ n, s.read (answers ++ eof n) = result)
    (hends : EndsWell s.buffered result ↔ ¬ ∃ n, FrameLength s.buffered n) :
    s.Completes answers ↔ ¬ s.Fails answers := by
  have hstop0 : s.Stops answers := by simpa [eof] using hstop 0
  rw [completes_of_stops hstop hresult, hends, fails_of_stops hle hstop0, goesWrong_first hle]
  have hover := not_overruns_of_wants hle hpoll
  have hframe : (∃ n, FrameLength s.buffered n) ↔ BodyStarves s.buffered := by
    rcases (poll_wants_iff hle).mp hpoll with hzero | ⟨⟨e, hd, he⟩, -⟩
    · obtain ⟨e, he, hd⟩ := decode_short (b := []) (by simp)
      rw [(buffered_eq_nil hle).mpr hzero]
      exact frameLength_iff_bodyStarves hd he
    · exact frameLength_iff_bodyStarves hd he
  simp [hne, hover, hframe]

theorem not_completes_nil (hle : s.readOffset ≤ s.readBuffer.length) (hpoll : s.poll = .wants)
    (hne : s.readOffset ≠ 0) : ¬ s.Completes [] := by
  rintro ⟨n, hn⟩
  obtain ⟨s', hwaits⟩ := read_eof_waits hle hpoll hne n
  rw [List.nil_append, hwaits] at hn
  exact not_endsWell_waiting hn

theorem completes_nil_iff (hle : s.readOffset ≤ s.readBuffer.length) (hpoll : s.poll = .wants) :
    s.Completes [] ↔ ¬ s.Fails [] := by
  have hstop : s.Stops [] := trivial
  rw [fails_of_stops hle hstop, goesWrong_first hle]
  by_cases hzero : s.readOffset = 0
  · have hclosed : s.read ([] ++ eof 1) = .closed := by
      show s.read [.data []] = .closed
      rw [read.eq_def, hpoll]
      exact if_pos ⟨rfl, hzero⟩
    have hlast : s.lastHead ([] ++ eof 1) = s := lastHead_stops fun _ => ⟨rfl, hzero⟩
    have hstarve : ¬ BodyStarves s.buffered := fun h => offset_ne_zero_of_bodyStarves h hzero
    have hframe : ¬ ∃ n, FrameLength s.buffered n := by
      obtain ⟨e, he, hd⟩ := decode_short (b := []) (by simp)
      rw [(buffered_eq_nil hle).mpr hzero] at hstarve ⊢
      rwa [frameLength_iff_bodyStarves hd he]
    refine iff_of_true ⟨1, ?_⟩ ?_
    · rw [hclosed, hlast]
      exact endsWell_closed.mpr hframe
    · simp [hzero, hstarve, not_overruns_of_wants hle hpoll]
  · exact iff_of_false (not_completes_nil hle hpoll hzero)
      (not_not.mpr (.inl ⟨rfl, hzero, hpoll⟩))

/-- A call on a stream whose peer closes ends as it should exactly if it does not go wrong
on the way. -/
theorem completes_iff (hle : s.readOffset ≤ s.readBuffer.length) (hoffers : s.Offers answers) :
    s.Completes answers ↔ ¬ s.Fails answers := by
  induction answers generalizing s with
  | nil =>
      by_cases hpoll : s.poll = .wants
      · exact completes_nil_iff hle hpoll
      · exact completes_iff_of_poll hle hpoll
  | cons a answers ih =>
      by_cases hpoll : s.poll = .wants
      · cases a with
        | data chunk =>
            by_cases hmore : chunk = [] ∧ s.readOffset = 0
            · refine completes_iff_of_last hle hpoll (fun n => fun _ => hmore) (by simp)
                (fun n => ?_) endsWell_closed
              rw [List.cons_append, read.eq_def, hpoll]
              exact if_pos hmore
            · rw [completes_wants hpoll hmore, fails_wants hle hpoll hoffers.1 hmore]
              by_cases hover : s.Overfills chunk
              · exact iff_of_false
                  (not_completes_of_overfilled (receive_overfilled hover hle hoffers.1))
                  (not_not.mpr (.inl hover))
              · rw [ih (receive_holds hle hoffers.1 hover).1 hoffers.2]
                simp [hover]
        | timedOut =>
            refine completes_iff_of_last hle hpoll (fun n => trivial) (by simp) (fun n => ?_)
              (endsWell_failed (e := .readTimeout) (by simp))
            rw [List.cons_append, read.eq_def, hpoll]
        | failed =>
            refine completes_iff_of_last hle hpoll (fun n => trivial) (by simp) (fun n => ?_)
              (endsWell_failed (e := .io) (by simp))
            rw [List.cons_append, read.eq_def, hpoll]
      · exact completes_iff_of_poll hle hpoll

end

/-- A PINGREQ in one read. -/
theorem ping_not_fails : ¬ (new none none).Fails [.data [0xc0, 0x00]] := by
  have hwants : (new none none).poll = .wants := rfl
  have hholds : ((new none none).receive [0xc0, 0x00]).Holds [0xc0, 0x00] :=
    new_receive_holds none (by decide)
  have hdecode : decode [0xc0, 0x00] = .ok (some (.pingRequest .default, 2)) := rfl
  have hframe : Framed [0xc0, 0x00] 0xc0 [0x00] [] [] :=
    { eq := rfl
      varInt := varIntBytes_singleton (by decide)
      len_le := by decide
      body_length := by decide }
  have hoffers : (new none none).Offers [.data [0xc0, 0x00]] := by
    refine ⟨?_, trivial⟩
    rw [room, new_length]
    decide
  obtain ⟨s', hpoll, -⟩ := poll_packet hholds hdecode
  refine (completes_iff (Nat.zero_le _) hoffers).mp ((completes_wants hwants (by simp)).mpr ?_)
  rw [completes_of_poll hpoll (by simp) (fun answers => by rw [read.eq_def, hpoll]),
    endsWell_packet, buffered, hholds.2]
  exact ⟨_, _, _, _, _, hframe, rfl⟩

/-- The first byte of a PINGREQ, and then nothing. -/
theorem first_byte_hangs : ¬ (new none none).Completes [.data [0xc0]] := by
  have hwants : (new none none).poll = .wants := rfl
  have hholds : ((new none none).receive [0xc0]).Holds [0xc0] := new_receive_holds none (by decide)
  obtain ⟨e, he, hd⟩ := decode_short (b := [0xc0]) (by simp)
  rw [completes_wants hwants (by simp)]
  refine not_completes_nil hholds.1 ((poll_wants_iff hholds.1).mpr (.inr ⟨?_, ?_⟩)) ?_
  · rw [buffered, hholds.2]
    exact ⟨e, hd, he⟩
  · rw [hholds.length]
    decide
  · rw [hholds.length]
    decide

end PacketStream

end Async
end Vaux
