import Vaux.Async.PacketStream
import Vaux.Mqtt.PacketRoundTrip

/-!
# Reassembly

Successive calls of `PacketStream::read` on one socket, for any decoder.  A call keeps
its own copy of the offset; it can be dropped where it waits for the socket, and the
socket gives any number of bytes that there is room for.  If the decoder tells whole
frames from prefixes of frames, the calls that complete return the packets in order.
-/

namespace Vaux
namespace Async

open Wire Mqtt

section

variable (decode : Bytes → Outcome MqttCodecError (Option (Packet × Nat)))

namespace PacketStream

/-- The head of the loop of `read_internal`; `bytesRead` is its local variable. -/
def pollWith (self : PacketStream) (bytesRead : Nat) : Polled :=
  if bytesRead = 0 then .wants
  else if self.readBuffer.length < bytesRead then .panic
  else
    match decode (self.readBuffer.take bytesRead) with
    | .ok (some (packet, decodeLen)) =>
      if decodeLen < bytesRead then
        .packet packet
          { self with
            readBuffer := copyWithin self.readBuffer decodeLen bytesRead
            readOffset := bytesRead - decodeLen }
      else .packet packet { self with readOffset := 0 }
    | .ok none => .closed
    | .err e =>
      match e.kind with
      | .insufficientData _ _ =>
        if self.readOffset ≥ self.maxBufferSize then .failed .readBuffer else .wants
      | _ => .failed (.codec e)
    | .panic => .panic

theorem pollWith_decode (self : PacketStream) :
    self.pollWith Mqtt.decode self.readOffset = self.poll := rfl

/-- The loop behind the answer of the socket. -/
def receiveWith (self : PacketStream) (bytesRead : Nat) (chunk : Bytes) : PacketStream × Nat :=
  let readBuffer := self.readBuffer.take self.readOffset ++ chunk ++
    self.readBuffer.drop (self.readOffset + chunk.length)
  let bytesRead := bytesRead + chunk.length
  ({ self with
      readBuffer := if bytesRead ≥ readBuffer.length then
          resize readBuffer (min (readBuffer.length * 2) self.maxBufferSize)
        else readBuffer
      readOffset := bytesRead },
    bytesRead)

theorem receiveWith_readOffset (self : PacketStream) (chunk : Bytes) :
    self.receiveWith self.readOffset chunk =
      (self.receive chunk, self.readOffset + chunk.length) := rfl

end PacketStream

/-- Where the caller is: between two calls of `read`, at the head of the loop, or at the
await point. -/
inductive Phase where
  | idle
  | head (bytesRead : Nat)
  | await (bytesRead : Nat)

/-- What happens at an await point: the call is dropped, or the socket gives up to
`size + 1` bytes. -/
inductive Turn where
  | cancel
  | deliver (size : Nat)

structure Reader where
  stream : PacketStream
  phase : Phase
  /-- The bytes the socket has not given yet. -/
  pending : Bytes
  /-- What the completed calls have returned. -/
  results : List (Except StreamError (Option Packet))
  aborted : Bool

namespace Reader

def finish (r : Reader) (result : Except StreamError (Option Packet)) : Reader :=
  { r with phase := .idle, results := r.results ++ [result] }

def step (r : Reader) (t : Turn) : Reader :=
  if r.aborted then r
  else
    match r.phase with
    | .idle => { r with phase := .head r.stream.readOffset }
    | .head bytesRead =>
      match r.stream.pollWith decode bytesRead with
      | .packet packet stream => { r with stream }.finish (.ok (some packet))
      | .closed => r.finish (.ok none)
      | .failed e => r.finish (.error e)
      | .wants =>
        -- the slice the socket is given starts at the offset of the stream
        if r.stream.readBuffer.length < r.stream.readOffset then { r with aborted := true }
        else { r with phase := .await bytesRead }
      | .panic => { r with aborted := true }
    | .await bytesRead =>
      match t with
      | .cancel => { r with phase := .idle }
      | .deliver size =>
        let n := min (size + 1) (min r.stream.room r.pending.length)
        if n = 0 ∧ bytesRead = 0 then r.finish (.ok none)
        else
          let received := r.stream.receiveWith bytesRead (r.pending.take n)
          { r with
            stream := received.1
            phase := .head received.2
            pending := r.pending.drop n }

def run (r : Reader) (turns : List Turn) : Reader := turns.foldl (step decode) r

def start (stream : PacketStream) (bytes : Bytes) : Reader where
  stream := stream
  phase := .idle
  pending := bytes
  results := []
  aborted := false

end Reader

/-- `bytes` is a frame of `packet`: the decoder knows it, whatever follows, and asks for
more bytes on what it starts with. -/
structure FrameOf (bytes : Bytes) (packet : Packet) : Prop where
  ne_nil : bytes ≠ []
  whole : ∀ rest, decode (bytes ++ rest) = .ok (some (packet, bytes.length))
  part : ∀ b, b <+: bytes → b.length < bytes.length → ∃ e, decode b = .err e ∧ e.insufficient

end

section

variable {decode : Bytes → Outcome MqttCodecError (Option (Packet × Nat))}

/-! ## The buffer -/

namespace PacketStream

/-- There is room in the buffer, or it has reached its largest size. -/
structure Roomy (s : PacketStream) : Prop where
  pos : 0 < s.readBuffer.length
  le_max : s.readBuffer.length ≤ s.maxBufferSize
  room : s.readOffset < s.readBuffer.length ∨ s.readBuffer.length = s.maxBufferSize

theorem new_holds (initialBufferSize maxBufferSize : Option Nat) :
    (new initialBufferSize maxBufferSize).Holds [] :=
  ⟨Nat.zero_le _, rfl⟩

theorem new_roomy {initialBufferSize maxBufferSize : Option Nat}
    (hinitial : 1 ≤ (new initialBufferSize maxBufferSize).initialBufferSize)
    (hmax : (new initialBufferSize maxBufferSize).initialBufferSize ≤
      (new initialBufferSize maxBufferSize).maxBufferSize) :
    (new initialBufferSize maxBufferSize).Roomy := by
  refine ⟨?_, ?_, .inl ?_⟩
  all_goals
    simp only [new, List.length_replicate] at *
    omega

variable {s : PacketStream} {b : Bytes}

theorem length_copyWithin {buffer : Bytes} {src dest : Nat} (hdest : dest ≤ buffer.length) :
    (copyWithin buffer src dest).length = buffer.length := by
  simp only [copyWithin, List.length_append, List.length_drop, List.length_take]
  omega

/-- A whole frame at the front of the buffer is returned and dropped. -/
theorem pollWith_whole (hs : s.Holds b) (hr : s.Roomy) (hb : b ≠ []) {p : Packet} {n : Nat}
    (hn : 0 < n) (h : decode b = .ok (some (p, n))) :
    ∃ s', s.pollWith decode s.readOffset = .packet p s' ∧ s'.Holds (b.drop n) ∧ s'.Roomy ∧
      s'.maxBufferSize = s.maxBufferSize := by
  have hne := hs.offset_ne_zero hb
  have hlen := hs.length
  have hle := hs.1
  have hbound : ¬ s.readBuffer.length < s.readOffset := by omega
  simp only [pollWith, hne, hbound, if_false, hs.2, h]
  by_cases hlt : n < s.readOffset
  · simp only [hlt, if_true]
    have hsize : (copyWithin s.readBuffer n s.readOffset).length = s.readBuffer.length :=
      length_copyWithin hle
    refine ⟨_, rfl, ⟨?_, ?_⟩, ⟨?_, ?_, .inl ?_⟩, rfl⟩
    · show s.readOffset - n ≤ (copyWithin s.readBuffer n s.readOffset).length
      omega
    · show (copyWithin s.readBuffer n s.readOffset).take (s.readOffset - n) = b.drop n
      rw [take_copyWithin (by omega) hle, hs.2]
    · exact hsize ▸ hr.pos
    · exact hsize ▸ hr.le_max
    · show s.readOffset - n < (copyWithin s.readBuffer n s.readOffset).length
      omega
  · simp only [hlt, if_false]
    refine ⟨_, rfl, ⟨Nat.zero_le _, ?_⟩, ⟨hr.pos, hr.le_max, .inl hr.pos⟩, rfl⟩
    show s.readBuffer.take 0 = b.drop n
    rw [List.take_zero, List.drop_eq_nil_of_le (by omega)]

/-- On a part of a frame that fits the buffer the socket is asked. -/
theorem pollWith_part (hs : s.Holds b) (hmax : b.length < s.maxBufferSize)
    (h : b ≠ [] → ∃ e, decode b = .err e ∧ e.insufficient) :
    s.pollWith decode s.readOffset = .wants := by
  by_cases hb : b = []
  · have hzero : s.readOffset = 0 := by rw [hs.length, hb, List.length_nil]
    simp only [pollWith, hzero, if_true]
  · obtain ⟨e, he, expected, actual, hkind⟩ := h hb
    have hne := hs.offset_ne_zero hb
    have hlen := hs.length
    have hle := hs.1
    have hbound : ¬ s.readBuffer.length < s.readOffset := by omega
    have hroom : ¬ s.readOffset ≥ s.maxBufferSize := by omega
    simp only [pollWith, hne, hbound, if_false, hs.2, he, hkind, hroom]

/-- The buffer behind a read: it starts with what was there and what came. -/
theorem receive_spec (hs : s.Holds b) (hr : s.Roomy) {chunk : Bytes} (hchunk : chunk.length ≤ s.room) :
    (s.receive chunk).Holds (b ++ chunk) ∧ (s.receive chunk).Roomy := by
  have hover : ¬ s.Overfills chunk := fun h => Nat.not_le.mpr h.1 hr.le_max
  have hholds := receive_holds hs.1 hchunk hover
  have hbuffered : s.buffered = b := hs.2
  rw [hbuffered] at hholds
  obtain ⟨tail, hsize, hbuffer⟩ := receive_fills hs.1 hchunk
  have hlength : (s.receive chunk).readBuffer.length =
      if s.readOffset + chunk.length = s.readBuffer.length then
        min (s.readBuffer.length * 2) s.maxBufferSize
      else s.readBuffer.length := by
    rw [hbuffer]
    split
    · exact length_resize _ _
    · exact hsize
  have hoffset : (s.receive chunk).readOffset = s.readOffset + chunk.length := rfl
  have hmaximum : (s.receive chunk).maxBufferSize = s.maxBufferSize := rfl
  have hle := hs.1
  have hpos := hr.pos
  have hmax := hr.le_max
  unfold room at hchunk
  by_cases hfull : s.readOffset + chunk.length = s.readBuffer.length
  · rw [if_pos hfull] at hlength
    refine ⟨hholds, ?_, ?_, ?_⟩ <;> rw [hlength] <;> omega
  · rw [if_neg hfull] at hlength
    refine ⟨hholds, ?_, ?_, ?_⟩ <;> rw [hlength] <;> omega

end PacketStream

/-! ## The calls -/

namespace Reader

variable {frames : List (Bytes × Packet)}

/-- The bytes of the frames behind the first `k`. -/
def bytesFrom (frames : List (Bytes × Packet)) (k : Nat) : Bytes :=
  ((frames.drop k).map Prod.fst).flatten

/-- The completed calls have returned the packets in order, then the end of the stream;
what the buffer holds and what the socket has yet to give are the frames behind them. -/
structure Inv (frames : List (Bytes × Packet)) (r : Reader) : Prop where
  running : r.aborted = false
  results : r.results =
    (List.range r.results.length).map fun i => .ok ((frames[i]?).map Prod.snd)
  bytes : ∃ b, r.stream.Holds b ∧ b ++ r.pending = bytesFrom frames r.results.length
  roomy : r.stream.Roomy
  fits : ∀ f ∈ frames, f.1.length ≤ r.stream.maxBufferSize
  phase :
    match r.phase with
    | .idle => True
    | .head bytesRead => bytesRead = r.stream.readOffset
    | .await bytesRead => bytesRead = r.stream.readOffset ∧
      ∀ f ∈ frames[r.results.length]?, r.stream.readOffset < f.1.length

theorem bytesFrom_of_getElem? {k : Nat} {f : Bytes × Packet} (h : frames[k]? = some f) :
    bytesFrom frames k = f.1 ++ bytesFrom frames (k + 1) := by
  obtain ⟨hk, rfl⟩ := List.getElem?_eq_some_iff.mp h
  rw [bytesFrom, List.drop_eq_getElem_cons hk, List.map_cons, List.flatten_cons, bytesFrom]

theorem bytesFrom_of_none {k : Nat} (h : frames[k]? = none) : bytesFrom frames k = [] := by
  rw [bytesFrom, List.drop_eq_nil_of_le (List.getElem?_eq_none_iff.mp h)]
  rfl

theorem results_append {results : List (Except StreamError (Option Packet))}
    (h : results = (List.range results.length).map fun i => .ok ((frames[i]?).map Prod.snd)) :
    results ++ [.ok ((frames[results.length]?).map Prod.snd)] =
      (List.range (results ++ [Except.ok ((frames[results.length]?).map Prod.snd)]).length).map
        fun i => .ok ((frames[i]?).map Prod.snd) := by
  rw [List.length_append, List.length_singleton, List.range_succ, List.map_append, ← h]
  rfl

/-- At the head of the loop the first frame is either whole or not there. -/
theorem frame_cases {b pending e more : Bytes} (h : b ++ pending = e ++ more) :
    (∃ b', b = e ++ b' ∧ b' ++ pending = more) ∨ b <+: e ∧ b.length < e.length := by
  have hpre : b <+: e ++ more := h ▸ List.prefix_append b pending
  by_cases hlen : e.length ≤ b.length
  · left
    obtain ⟨b', rfl⟩ := List.prefix_of_prefix_length_le (List.prefix_append _ _) hpre hlen
    rw [List.append_assoc] at h
    exact ⟨b', rfl, List.append_cancel_left h⟩
  · right
    have hlt : b.length < e.length := by omega
    exact ⟨List.prefix_of_prefix_length_le hpre (List.prefix_append _ _) hlt.le, hlt⟩

/-- How far the call in progress is from its end, if it is not cancelled. -/
def distance (r : Reader) : Nat :=
  2 * r.pending.length +
    match r.phase with
    | .idle => 2
    | .head _ => 1
    | .await _ => 0

/-- A call has completed, or it has come closer to its end. -/
def Advances (r r' : Reader) : Prop :=
  r'.results.length = r.results.length + 1 ∨
    r'.results.length = r.results.length ∧ r'.distance < r.distance

theorem Inv.head {r : Reader} (h : Inv frames r) {bytesRead : Nat} (hphase : r.phase = .head bytesRead)
    (hframes : ∀ f ∈ frames, FrameOf decode f.1 f.2) (t : Turn) :
    Inv frames (r.step decode t) ∧ Advances r (r.step decode t) := by
  obtain ⟨b, hs, hbytes⟩ := h.bytes
  have hread := h.phase
  rw [hphase] at hread
  have hread : bytesRead = r.stream.readOffset := hread
  subst hread
  have hbound : ¬ r.stream.readBuffer.length < r.stream.readOffset := Nat.not_lt.mpr hs.1
  -- the stream waits if what it holds is short of the next frame
  have hwait : r.stream.pollWith decode r.stream.readOffset = .wants →
      (∀ f ∈ frames[r.results.length]?, r.stream.readOffset < f.1.length) →
      Inv frames (r.step decode t) ∧ Advances r (r.step decode t) := by
    intro hpoll hshort
    simp only [step, h.running, hphase, hpoll, hbound, if_false, Bool.false_eq_true]
    refine ⟨⟨rfl, h.results, ⟨b, hs, hbytes⟩, h.roomy, h.fits, rfl, hshort⟩, .inr ⟨rfl, ?_⟩⟩
    simp only [distance, hphase]
    omega
  cases hf : frames[r.results.length]? with
  | none =>
      rw [bytesFrom_of_none hf] at hbytes
      obtain ⟨rfl, -⟩ := List.append_eq_nil_iff.mp hbytes
      refine hwait (PacketStream.pollWith_part hs ?_ (fun hne => absurd rfl hne)) (by simp [hf])
      exact h.roomy.pos.trans_le h.roomy.le_max
  | some f =>
      have hmem : f ∈ frames := List.mem_of_getElem? hf
      have hframe := hframes f hmem
      rcases frame_cases (bytesFrom_of_getElem? hf ▸ hbytes) with ⟨b', rfl, hrest⟩ | ⟨hpre, hlt⟩
      · have hlen : 0 < f.1.length := List.length_pos_iff.mpr hframe.ne_nil
        obtain ⟨s', hpoll, hs', hroomy, hmax⟩ :=
          PacketStream.pollWith_whole hs h.roomy (by simp [hframe.ne_nil]) hlen (hframe.whole b')
        rw [List.drop_left] at hs'
        simp only [step, h.running, hphase, hpoll, finish, if_false, Bool.false_eq_true]
        have hresults := results_append h.results
        rw [hf] at hresults
        refine ⟨⟨rfl, hresults, ⟨b', hs', ?_⟩, hroomy, ?_, trivial⟩, .inl (by simp)⟩
        · rw [List.length_append, List.length_singleton]
          exact hrest
        · intro f' hf'
          rw [hmax]
          exact h.fits f' hf'
      · refine hwait (PacketStream.pollWith_part hs (hlt.trans_le (h.fits f hmem)) ?_) ?_
        · intro hne
          exact hframe.part b hpre hlt
        · intro f' hf'
          rw [hf, Option.mem_some] at hf'
          subst hf'
          rw [hs.length]
          exact hlt

/-- The end of the stream is met only behind the last frame. -/
theorem Inv.none_of_pending {r : Reader} (h : Inv frames r) (hpending : r.pending = [])
    (hshort : ∀ f ∈ frames[r.results.length]?, r.stream.readOffset < f.1.length) :
    frames[r.results.length]? = none ∧ r.stream.readOffset = 0 := by
  obtain ⟨b, hs, hbytes⟩ := h.bytes
  rw [hpending, List.append_nil] at hbytes
  cases hf : frames[r.results.length]? with
  | none =>
      rw [bytesFrom_of_none hf] at hbytes
      subst hbytes
      exact ⟨rfl, hs.length⟩
  | some f =>
      have hlt := hshort f hf
      rw [hs.length, hbytes, bytesFrom_of_getElem? hf, List.length_append] at hlt
      omega

/-- While a frame is incomplete there is room for more of it. -/
theorem Inv.room_pos {r : Reader} (h : Inv frames r)
    (hshort : ∀ f ∈ frames[r.results.length]?, r.stream.readOffset < f.1.length)
    (hpending : r.pending ≠ []) : 0 < r.stream.room := by
  obtain ⟨b, hs, hbytes⟩ := h.bytes
  unfold PacketStream.room
  cases hf : frames[r.results.length]? with
  | none =>
      rw [bytesFrom_of_none hf] at hbytes
      exact absurd (List.append_eq_nil_iff.mp hbytes).2 hpending
  | some f =>
      have hlt := hshort f hf
      have hfit := h.fits f (List.mem_of_getElem? hf)
      have hle := hs.1
      rcases h.roomy.room with hroom | hroom <;> omega

theorem Inv.deliver {r : Reader} (h : Inv frames r) {bytesRead : Nat}
    (hphase : r.phase = .await bytesRead) (size : Nat) :
    Inv frames (r.step decode (.deliver size)) ∧ Advances r (r.step decode (.deliver size)) := by
  obtain ⟨b, hs, hbytes⟩ := h.bytes
  have hread := h.phase
  rw [hphase] at hread
  obtain ⟨rfl, hshort⟩ : bytesRead = r.stream.readOffset ∧
      ∀ f ∈ frames[r.results.length]?, r.stream.readOffset < f.1.length := hread
  by_cases hpending : r.pending = []
  · obtain ⟨hf, hzero⟩ := h.none_of_pending hpending hshort
    have hresults := results_append h.results
    rw [hf] at hresults
    simp only [step, h.running, hphase, hpending, hzero, finish, List.length_nil, Nat.min_zero,
      and_self, if_true, if_false, Bool.false_eq_true]
    refine ⟨⟨rfl, hresults, ⟨b, hs, ?_⟩, h.roomy, h.fits, trivial⟩, .inl (by simp)⟩
    have hnext : frames[r.results.length + 1]? = none := by
      rw [List.getElem?_eq_none_iff] at hf ⊢
      omega
    rw [List.length_append, List.length_singleton, bytesFrom_of_none hnext]
    rwa [hpending, bytesFrom_of_none hf] at hbytes
  · have hroom := h.room_pos hshort hpending
    have hpos := List.length_pos_iff.mpr hpending
    obtain ⟨n, hn⟩ : ∃ n, min (size + 1) (min r.stream.room r.pending.length) = n := ⟨_, rfl⟩
    have hne : ¬ (n = 0 ∧ r.stream.readOffset = 0) := by omega
    have hchunk : (r.pending.take n).length ≤ r.stream.room := by
      rw [List.length_take]
      omega
    obtain ⟨hholds, hroomy⟩ := PacketStream.receive_spec hs h.roomy hchunk
    simp only [step, h.running, hphase, hn, hne, if_false, Bool.false_eq_true,
      PacketStream.receiveWith_readOffset]
    refine ⟨⟨rfl, h.results, ⟨_, hholds, ?_⟩, hroomy, h.fits, rfl⟩, .inr ⟨rfl, ?_⟩⟩
    · rw [List.append_assoc, List.take_append_drop]
      exact hbytes
    · simp only [distance, hphase, List.length_drop]
      omega

/-- One step, whatever the caller and the socket do. -/
theorem Inv.step {r : Reader} (h : Inv frames r) (hframes : ∀ f ∈ frames, FrameOf decode f.1 f.2)
    (t : Turn) :
    Inv frames (r.step decode t) ∧ (t ≠ .cancel → Advances r (r.step decode t)) := by
  cases hphase : r.phase with
  | idle =>
      simp only [Reader.step, h.running, hphase, if_false, Bool.false_eq_true]
      refine ⟨⟨rfl, h.results, h.bytes, h.roomy, h.fits, rfl⟩, fun _ => .inr ⟨rfl, ?_⟩⟩
      simp only [distance, hphase]
      omega
  | head bytesRead =>
      obtain ⟨hinv, hadvance⟩ := h.head hphase hframes t
      exact ⟨hinv, fun _ => hadvance⟩
  | await bytesRead =>
      cases t with
      | cancel =>
          -- the bytes received so far are in the buffer, and the offset says how many
          simp only [Reader.step, h.running, hphase, if_false, Bool.false_eq_true]
          exact ⟨⟨rfl, h.results, h.bytes, h.roomy, h.fits, trivial⟩, fun hne => absurd rfl hne⟩
      | deliver size =>
          obtain ⟨hinv, hadvance⟩ := @Inv.deliver decode _ _ h _ hphase size
          exact ⟨hinv, fun _ => hadvance⟩

theorem Inv.run {r : Reader} (h : Inv frames r) (hframes : ∀ f ∈ frames, FrameOf decode f.1 f.2)
    (turns : List Turn) : Inv frames (r.run decode turns) := by
  induction turns generalizing r with
  | nil => exact h
  | cons t turns ih => exact ih (h.step hframes t).1

/-- A call that is not cancelled completes. -/
theorem Inv.completes {r : Reader} (h : Inv frames r)
    (hframes : ∀ f ∈ frames, FrameOf decode f.1 f.2) {turns : List Turn}
    (hturns : Turn.cancel ∉ turns) (hlen : r.distance < turns.length) :
    ∃ front, front <+: turns ∧
      (r.run decode front).results.length = r.results.length + 1 := by
  induction turns generalizing r with
  | nil => simp at hlen
  | cons t turns ih =>
      rw [List.mem_cons, not_or] at hturns
      obtain ⟨hinv, hadvance⟩ := h.step hframes t
      rcases hadvance (Ne.symm hturns.1) with hdone | ⟨hsame, hless⟩
      · exact ⟨[t], List.prefix_append [t] turns, hdone⟩
      · rw [List.length_cons] at hlen
        obtain ⟨prior, hprior, hresults⟩ := ih hinv hturns.2 (by omega)
        exact ⟨t :: prior, (List.prefix_cons_inj t).mpr hprior, hresults.trans (by rw [hsame])⟩

theorem inv_start {initialBufferSize maxBufferSize : Option Nat} {s : PacketStream}
    (hs : s = PacketStream.new initialBufferSize maxBufferSize) (hinitial : 1 ≤ s.initialBufferSize)
    (hmax : s.initialBufferSize ≤ s.maxBufferSize)
    (hfits : ∀ f ∈ frames, f.1.length ≤ s.maxBufferSize) :
    Inv frames (start s (bytesFrom frames 0)) := by
  subst hs
  exact ⟨rfl, rfl, ⟨[], PacketStream.new_holds .., rfl⟩, PacketStream.new_roomy hinitial hmax, hfits,
    trivial⟩

end Reader

/-- The calls of `read` that complete return the packets of the frames in order and then
the end of the stream, however the bytes come and whichever calls are cancelled; and a
call that is not cancelled does complete. -/
theorem reads_in_order {frames : List (Bytes × Packet)}
    (hframes : ∀ f ∈ frames, FrameOf decode f.1 f.2) {initialBufferSize maxBufferSize : Option Nat}
    {s : PacketStream} (hs : s = PacketStream.new initialBufferSize maxBufferSize)
    (hinitial : 1 ≤ s.initialBufferSize) (hmax : s.initialBufferSize ≤ s.maxBufferSize)
    (hfits : ∀ f ∈ frames, f.1.length ≤ s.maxBufferSize) (turns : List Turn) :
    let r := (Reader.start s (frames.map Prod.fst).flatten).run decode turns
    r.aborted = false ∧
    r.results = (List.range r.results.length).map (fun i => .ok ((frames[i]?).map Prod.snd)) ∧
    ∀ more : List Turn, Turn.cancel ∉ more → 2 * r.pending.length + 2 < more.length →
      ∃ front, front <+: more ∧
        (r.run decode front).results.length = r.results.length + 1 := by
  intro r
  have hinv : Reader.Inv frames r := (Reader.inv_start hs hinitial hmax hfits).run hframes turns
  refine ⟨hinv.running, hinv.results, ?_⟩
  intro more hmore hlen
  refine hinv.completes hframes hmore (lt_of_le_of_lt ?_ hlen)
  unfold Reader.distance
  split <;> omega

end

theorem frameOf_ping : FrameOf Mqtt.decode [0xc0, 0x00] (.pingRequest .default) where
  ne_nil := by simp
  whole rest := by
    have henc : encodePacket (.new .pingReq) 0 (.ok []) = .ok [0xc0, 0x00] := by decide +kernel
    exact decode_ping henc rfl rest
  part b _ hlt := by
    obtain ⟨e, he, hd⟩ := decode_short hlt
    exact ⟨e, hd, he⟩

/-- Two PINGREQ through a buffer that starts with one byte.  The second call is cancelled
once before its first byte has come. -/
theorem pings_in_order :
    let frames : List (Bytes × Packet) :=
      [([0xc0, 0x00], .pingRequest .default), ([0xc0, 0x00], .pingRequest .default)]
    let turns : List Turn := List.replicate 8 (.deliver 0) ++ [.cancel] ++ List.replicate 10 (.deliver 7)
    let r := (Reader.start (.new (some 1) (some 2)) (frames.map Prod.fst).flatten).run Mqtt.decode turns
    r.results.length = 4 ∧
      r.results = (List.range r.results.length).map (fun i => .ok ((frames[i]?).map Prod.snd)) := by
  intro frames turns r
  have hframes : ∀ f ∈ frames, FrameOf Mqtt.decode f.1 f.2 := by
    intro f hf
    rcases List.mem_pair.mp hf with rfl | rfl <;> exact frameOf_ping
  have hfits : ∀ f ∈ frames, f.1.length ≤ (PacketStream.new (some 1) (some 2)).maxBufferSize := by
    intro f hf
    rcases List.mem_pair.mp hf with rfl | rfl <;> exact Nat.le_refl 2
  have horder := reads_in_order hframes (rfl : _ = PacketStream.new (some 1) (some 2))
    (Nat.le_refl 1) (Nat.le_succ 1) hfits turns
  exact ⟨by decide +kernel, horder.2.1⟩

end Async
end Vaux
