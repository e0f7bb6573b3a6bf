import Vaux.Mqtt.Packet

/-!
# Frames

A frame is a first byte, a length field of one to four bytes and a body of the
length it announces.  `decode` is described here by what stands at the front of the
buffer: a frame whose body goes to the decoder of its type, the beginning of a
frame, or something that is neither.

The three results about the top-level decoder follow from that description and
from the layout of the body: when it aborts, when the length it returns is that of
the frame, and when it asks for more bytes.
-/

namespace Vaux
namespace Mqtt

open Wire Decoder

/-- What the first byte says. -/
def headerOf (first : UInt8) : FixedHeader :=
  { packetType := .ofU8 (first &&& 0xf0), flags := first &&& 0x0f }

/-- The flags are those the packet type prescribes, if it prescribes any. -/
def LegalFlags (h : FixedHeader) : Prop :=
  ∀ reserved, FixedHeader.reservedFlags h.packetType = some reserved → h.flags = reserved

/-- `b` starts with a frame. -/
structure Framed (b : Bytes) (first : UInt8) (len body rest : Bytes) : Prop where
  eq : b = first :: (len ++ body ++ rest)
  varInt : VarIntBytes len
  len_le : len.length ≤ 4
  body_length : body.length = varIntValue len

/-- The frame `b` starts with has `n` bytes. -/
def FrameLength (b : Bytes) (n : Nat) : Prop :=
  ∃ first len body rest, Framed b first len body rest ∧ n = 1 + len.length + body.length

/-- `b` ends inside a frame: with more bytes it is one, and there are some missing. -/
def StrictPrefix (b : Bytes) : Prop :=
  ∃ missing first len body, missing ≠ [] ∧ Framed (b ++ missing) first len body []

theorem Framed.unique {b : Bytes} {first first' : UInt8} {len len' body body' rest rest' : Bytes}
    (h : Framed b first len body rest) (h' : Framed b first' len' body' rest') :
    first = first' ∧ len = len' ∧ body = body' ∧ rest = rest' := by
  have heq := h.eq.symm.trans h'.eq
  rw [List.cons.injEq, List.append_assoc, List.append_assoc] at heq
  obtain ⟨rfl, htail⟩ := heq
  obtain ⟨rfl, hbody⟩ := h.varInt.prefix_unique h'.varInt htail
  have hlen : body.length = body'.length := h.body_length.trans h'.body_length.symm
  obtain ⟨rfl, rfl⟩ := List.append_inj hbody hlen
  exact ⟨rfl, rfl, rfl, rfl⟩

theorem FrameLength.unique {b : Bytes} {n m : Nat} (h : FrameLength b n) (h' : FrameLength b m) :
    n = m := by
  obtain ⟨_, _, _, _, hf, rfl⟩ := h
  obtain ⟨_, _, _, _, hf', rfl⟩ := h'
  obtain ⟨-, rfl, rfl, -⟩ := hf.unique hf'
  rfl

/-! ## The steps of `decode` -/

theorem fixedHeader_decode_cons (first : UInt8) {src : Bytes} (hne : src ≠ []) :
    (LegalFlags (headerOf first) ∧
      FixedHeader.decode.run (first :: src) = .ok ((headerOf first, 1), src)) ∨
    (¬ LegalFlags (headerOf first) ∧
      ∃ reason, FixedHeader.decode.run (first :: src) = .err (.new reason)) := by
  have hlen : ¬ (first :: src).length < 2 := by
    have := List.length_pos_iff.mpr hne
    rw [List.length_cons]
    omega
  simp only [FixedHeader.decode, run_bind, run_remaining, Outcome.bind_ok, hlen, if_false,
    run_getU8_cons]
  cases hr : FixedHeader.reservedFlags (PacketType.ofU8 (first &&& 0xf0)) with
  | none =>
      refine .inl ⟨?_, rfl⟩
      intro reserved h
      rw [headerOf, hr] at h
      cases h
  | some reserved =>
      by_cases hf : first &&& 0x0f = reserved
      · refine .inl ⟨?_, by simp [hf, headerOf]⟩
        intro reserved' h
        rw [headerOf, hr] at h
        cases h
        exact hf
      · refine .inr ⟨fun h => hf (h reserved hr), ?_⟩
        simp only [ne_eq, hf, not_false_eq_true, if_true, run_fail]
        exact ⟨_, rfl⟩

theorem lengthPresent_range_error {src : Bytes} {e : MqttCodecError} (n i : Nat)
    (hi : i ≤ src.length) (hall : ∀ y ∈ src.take i, 128 ≤ y.toNat)
    (h : lengthPresent src (List.range' i n) = .error e) :
    e.insufficient ∧ (∀ y ∈ src, 128 ≤ y.toNat) ∧ src.length < i + n := by
  induction n generalizing i with
  | zero => cases h
  | succ n ih =>
      rw [List.range'_succ, lengthPresent] at h
      by_cases hlt : i < src.length
      · rw [List.getElem?_eq_getElem hlt] at h
        simp only at h
        split at h
        · cases h
        · rename_i hx
          rw [topBit_clear_iff] at hx
          have hall' : ∀ y ∈ src.take (i + 1), 128 ≤ y.toNat := by
            intro y hy
            rw [List.take_add_one, List.getElem?_eq_getElem hlt, List.mem_append] at hy
            rcases hy with hy | hy
            · exact hall y hy
            · rw [Option.toList_some, List.mem_singleton] at hy
              rw [hy]
              omega
          obtain ⟨he, hsrc, hlen⟩ := ih (i + 1) (by omega) hall' h
          exact ⟨he, hsrc, by omega⟩
      · rw [List.getElem?_eq_none (by omega)] at h
        cases h
        rw [List.take_of_length_le (by omega)] at hall
        exact ⟨by simp, hall, by omega⟩

theorem lengthPresent_error {src : Bytes} {e : MqttCodecError}
    (h : lengthPresent src [0, 1, 2, 3] = .error e) :
    e.insufficient ∧ (∀ y ∈ src, 128 ≤ y.toNat) ∧ src.length ≤ 3 := by
  obtain ⟨he, hall, hlen⟩ := lengthPresent_range_error 4 0 (Nat.zero_le _) (by simp) h
  exact ⟨he, hall, by omega⟩

theorem lengthPresent_ok {src : Bytes}
    (h : ¬ ((∀ y ∈ src, 128 ≤ y.toNat) ∧ src.length ≤ 4)) :
    lengthPresent src [0, 1, 2, 3] = .ok () := by
  cases hl : lengthPresent src [0, 1, 2, 3] with
  | ok u => rfl
  | error e =>
      obtain ⟨-, hall, hlen⟩ := lengthPresent_error hl
      exact absurd ⟨hall, by omega⟩ h

section

variable {first : UInt8} {src : Bytes}

theorem decode_short {b : Bytes} (h : b.length < 2) :
    ∃ e, MqttCodecError.insufficient e ∧ decode b = .err e := by
  refine ⟨.newWithKind "Insufficient data" (.insufficientData 2 b.length), by simp, ?_⟩
  simp only [decode, FixedHeader.decode, run_bind, run_remaining, Outcome.bind_ok, h, if_true,
    run_fail, Outcome.bind_err]

theorem decode_illegal (hne : src ≠ []) (hl : ¬ LegalFlags (headerOf first)) :
    ∃ e, ¬ MqttCodecError.insufficient e ∧ decode (first :: src) = .err e := by
  rcases fixedHeader_decode_cons first hne with ⟨hl', -⟩ | ⟨-, reason, hrun⟩
  · exact absurd hl' hl
  · exact ⟨.new reason, by simp, by simp [decode, hrun]⟩

theorem fixedHeader_decode_legal (hne : src ≠ []) (hl : LegalFlags (headerOf first)) :
    FixedHeader.decode.run (first :: src) = .ok ((headerOf first, 1), src) := by
  rcases fixedHeader_decode_cons first hne with ⟨-, hrun⟩ | ⟨hl', -⟩
  · exact hrun
  · exact absurd hl hl'

/-- The buffer ends inside a length field. -/
theorem decode_starve (hl : LegalFlags (headerOf first)) (hall : ∀ y ∈ src, 128 ≤ y.toNat)
    (hlen : src.length ≤ 4) :
    ∃ e, MqttCodecError.insufficient e ∧ decode (first :: src) = .err e := by
  by_cases hne : src = []
  · exact decode_short (by simp [hne])
  · simp only [decode, fixedHeader_decode_legal hne hl, Outcome.bind_ok]
    cases hp : lengthPresent src [0, 1, 2, 3] with
    | error e => exact ⟨e, (lengthPresent_error hp).1, rfl⟩
    | ok u =>
        simp only [Outcome.ofExcept_ok, Outcome.bind_ok, decodeVariableByteInt_starve hall hlen,
          Outcome.bind_err]
        exact ⟨_, varIntInsufficient_insufficient, rfl⟩

/-- There is no length field of up to three bytes, and none can come. -/
theorem decode_malformed (hl : LegalFlags (headerOf first))
    (haccept : ∀ c rest, src = c ++ rest → VarIntBytes c → 3 < c.length)
    (hstarve : ¬ ((∀ y ∈ src, 128 ≤ y.toNat) ∧ src.length ≤ 4)) :
    decode (first :: src) = .err varIntMalformed := by
  have hne : src ≠ [] := by
    rintro rfl
    exact hstarve (by simp)
  simp only [decode, fixedHeader_decode_legal hne hl, Outcome.bind_ok, lengthPresent_ok hstarve,
    Outcome.ofExcept_ok, decodeVariableByteInt_malformed haccept hstarve, Outcome.bind_err]

theorem varIntValue_lt_of_length {c : Bytes} (h : c.length ≤ 3) : varIntValue c < 2097152 := by
  have hlt := varIntValue_lt c
  have hpow : 128 ^ c.length ≤ 2097152 := Nat.pow_le_pow_right (n := 128) (by decide) h
  omega

/-- A length field of up to three bytes. -/
theorem decodeLeaving_accept (hl : LegalFlags (headerOf first)) {len rest : Bytes} (hc : VarIntBytes len)
    (h3 : len.length ≤ 3) :
    decodeLeaving (first :: (len ++ rest)) =
      if rest.length < varIntValue len then
        .err (.newWithKind "Insufficient data" (.insufficientData (varIntValue len) rest.length))
      else
        ((decodeBody (headerOf first)).run (rest.take (varIntValue len))).bind fun r =>
          .ok (some (r.1.1, 1 + len.length + r.1.2), r.2) := by
  have hne : len ++ rest ≠ [] := by simp [hc.ne_nil]
  have hstarve : ¬ ((∀ y ∈ len ++ rest, 128 ≤ y.toNat) ∧ (len ++ rest).length ≤ 4) := by
    rintro ⟨hall, -⟩
    obtain ⟨init, last, rfl, -, hlast⟩ := hc
    have := hall last (by simp)
    omega
  have hvalue : (UInt32.ofNat (varIntValue len)).toNat = varIntValue len := by
    have := varIntValue_lt_of_length h3
    rw [UInt32.toNat_ofNat']
    omega
  simp only [decodeLeaving, fixedHeader_decode_legal hne hl, Outcome.bind_ok, lengthPresent_ok hstarve,
    Outcome.ofExcept_ok, reads_decodeVariableByteInt hc h3 rest, hvalue]
  by_cases hlt : rest.length < varIntValue len
  · simp only [hlt, if_true]
  · simp only [hlt, if_false]
    have htake : (if rest.length > varIntValue len then
        rest.take (rest.length - (rest.length - varIntValue len)) else rest) =
        rest.take (varIntValue len) := by
      split
      · congr 1
        omega
      · rw [List.take_of_length_le (by omega)]
    rw [htake]

theorem decode_accept (hl : LegalFlags (headerOf first)) {len rest : Bytes} (hc : VarIntBytes len)
    (h3 : len.length ≤ 3) :
    decode (first :: (len ++ rest)) =
      if rest.length < varIntValue len then
        .err (.newWithKind "Insufficient data" (.insufficientData (varIntValue len) rest.length))
      else
        ((decodeBody (headerOf first)).run (rest.take (varIntValue len))).bind fun r =>
          .ok (some (r.1.1, 1 + len.length + r.1.2)) := by
  rw [decode_eq_map, decodeLeaving_accept hl hc h3]
  split
  · rfl
  · cases (decodeBody (headerOf first)).run (rest.take (varIntValue len)) <;> rfl

/-- What a buffer of at least one byte starts with. -/
theorem lengthField_cases (src : Bytes) :
    (∃ len rest, src = len ++ rest ∧ VarIntBytes len ∧ len.length ≤ 3) ∨
    ((∀ y ∈ src, 128 ≤ y.toNat) ∧ src.length ≤ 4) ∨
    ((∀ c rest, src = c ++ rest → VarIntBytes c → 3 < c.length) ∧
      ¬ ((∀ y ∈ src, 128 ≤ y.toNat) ∧ src.length ≤ 4)) := by
  by_cases haccept : ∃ len rest, src = len ++ rest ∧ VarIntBytes len ∧ len.length ≤ 3
  · exact .inl haccept
  · by_cases hstarve : (∀ y ∈ src, 128 ≤ y.toNat) ∧ src.length ≤ 4
    · exact .inr (.inl hstarve)
    · refine .inr (.inr ⟨?_, hstarve⟩)
      intro c rest hsrc hc
      by_contra hlen
      exact haccept ⟨c, rest, hsrc, hc, by omega⟩

end

/-- `decode` hands the body of a frame to the decoder of its type. -/
theorem decodeLeaving_framed {b : Bytes} {first : UInt8} {len body rest : Bytes}
    (hf : Framed b first len body rest) (h3 : len.length ≤ 3) (hl : LegalFlags (headerOf first)) :
    decodeLeaving b =
      ((decodeBody (headerOf first)).run body).bind fun r =>
        .ok (some (r.1.1, 1 + len.length + r.1.2), r.2) := by
  rw [hf.eq, List.append_assoc, decodeLeaving_accept hl hf.varInt h3]
  have hlen : ¬ (body ++ rest).length < varIntValue len := by
    rw [List.length_append, hf.body_length]
    omega
  have htake : (body ++ rest).take (varIntValue len) = body := by
    rw [← hf.body_length, List.take_left]
  rw [if_neg hlen, htake]

theorem decode_framed {b : Bytes} {first : UInt8} {len body rest : Bytes}
    (hf : Framed b first len body rest) (h3 : len.length ≤ 3) (hl : LegalFlags (headerOf first)) :
    decode b =
      ((decodeBody (headerOf first)).run body).bind fun r =>
        .ok (some (r.1.1, 1 + len.length + r.1.2)) := by
  rw [decode_eq_map, decodeLeaving_framed hf h3 hl]
  cases (decodeBody (headerOf first)).run body <;> rfl

/-! ## Beginnings of frames -/

theorem framed_of_body (first : UInt8) {len : Bytes} (body : Bytes) (hc : VarIntBytes len)
    (h4 : len.length ≤ 4) (hb : body.length = varIntValue len) :
    Framed (first :: (len ++ body)) first len body [] where
  eq := by rw [List.append_nil]
  varInt := hc
  len_le := h4
  body_length := hb

theorem strictPrefix_nil : StrictPrefix [] := by
  refine ⟨[0, 0], 0, [0], [], by simp, ?_⟩
  exact framed_of_body 0 [] (varIntBytes_singleton (by decide)) (by simp) (by decide)

theorem VarIntBytes.of_continuations {src : Bytes} (hall : ∀ y ∈ src, 128 ≤ y.toNat) :
    VarIntBytes (src ++ [0]) :=
  ⟨src, 0, rfl, hall, by decide⟩

/-- A length field that is cut short can be completed. -/
theorem strictPrefix_of_starve (first : UInt8) {src : Bytes} (hall : ∀ y ∈ src, 128 ≤ y.toNat)
    (hlen : src.length ≤ 3) : StrictPrefix (first :: src) := by
  refine ⟨0 :: List.replicate (varIntValue (src ++ [0])) 0, first, src ++ [0],
    List.replicate (varIntValue (src ++ [0])) 0, by simp, ?_⟩
  have hframe := framed_of_body first (List.replicate (varIntValue (src ++ [0])) 0)
    (VarIntBytes.of_continuations hall)
    (by rw [List.length_append, List.length_singleton]; omega) List.length_replicate
  rwa [List.append_assoc] at hframe

/-- A body that is cut short can be completed. -/
theorem strictPrefix_of_short (first : UInt8) {len rest : Bytes} (hc : VarIntBytes len)
    (h4 : len.length ≤ 4) (hlt : rest.length < varIntValue len) :
    StrictPrefix (first :: (len ++ rest)) := by
  refine ⟨List.replicate (varIntValue len - rest.length) 0, first, len,
    rest ++ List.replicate (varIntValue len - rest.length) 0, ?_, ?_⟩
  · intro hnil
    have := congrArg List.length hnil
    rw [List.length_replicate, List.length_nil] at this
    omega
  · have hframe := framed_of_body first
      (rest ++ List.replicate (varIntValue len - rest.length) 0) hc h4
      (by rw [List.length_append, List.length_replicate]; omega)
    rw [← List.append_assoc] at hframe
    exact hframe

theorem Framed.not_strictPrefix {b : Bytes} {first : UInt8} {len body rest : Bytes}
    (hf : Framed b first len body rest) : ¬ StrictPrefix b := by
  rintro ⟨missing, first', len', body', hne, hf'⟩
  have hext : Framed (b ++ missing) first len body (rest ++ missing) :=
    { eq := by rw [hf.eq]; simp
      varInt := hf.varInt
      len_le := hf.len_le
      body_length := hf.body_length }
  obtain ⟨-, -, -, hrest⟩ := hext.unique hf'
  exact hne (List.append_eq_nil_iff.mp hrest).2

/-- A first byte and four bytes that all say the length goes on. -/
def EndlessLength (b : Bytes) : Prop :=
  ∃ first src, b = first :: src ∧ LegalFlags (headerOf first) ∧ src.length = 4 ∧
    ∀ y ∈ src, 128 ≤ y.toNat

theorem EndlessLength.not_strictPrefix {b : Bytes} (h : EndlessLength b) : ¬ StrictPrefix b := by
  obtain ⟨first, src, rfl, -, hlen, hall⟩ := h
  rintro ⟨missing, first', len, body, -, hf⟩
  have heq := hf.eq
  rw [List.cons_append, List.cons.injEq, List.append_nil] at heq
  obtain ⟨-, htail⟩ := heq
  obtain ⟨init, last, hinit, -, hlast⟩ := hf.varInt
  -- the last byte of the length field is among the four
  have hlen4 := hf.len_le
  have hmem : last ∈ src := by
    have hpre : len <+: src ++ missing := ⟨body, htail.symm⟩
    have hsub : len <+: src :=
      List.prefix_of_prefix_length_le hpre (List.prefix_append src missing) (by omega)
    exact hsub.subset (by rw [hinit]; simp)
  have := hall last hmem
  omega

/-! ## The cases of `decode` -/

/-- A frame `decode` looks into: the length field has at most three bytes and the flags
are legal. -/
structure Opened (b : Bytes) (first : UInt8) (len body rest : Bytes) : Prop
    extends Framed b first len body rest where
  len_le_three : len.length ≤ 3
  legal : LegalFlags (headerOf first)

theorem decode_opened {b : Bytes} {first : UInt8} {len body rest : Bytes}
    (h : Opened b first len body rest) :
    decode b =
      ((decodeBody (headerOf first)).run body).bind fun r =>
        .ok (some (r.1.1, 1 + len.length + r.1.2)) :=
  decode_framed h.toFramed h.len_le_three h.legal

theorem decodeLeaving_opened {b : Bytes} {first : UInt8} {len body rest : Bytes}
    (h : Opened b first len body rest) :
    decodeLeaving b =
      ((decodeBody (headerOf first)).run body).bind fun r =>
        .ok (some (r.1.1, 1 + len.length + r.1.2), r.2) :=
  decodeLeaving_framed h.toFramed h.len_le_three h.legal

/-- Outside an opened frame `decode` returns an error, and asks for more bytes only at
the beginning of a frame or of an endless length. -/
theorem decode_cases (b : Bytes) :
    (∃ first len body rest, Opened b first len body rest) ∨
    ((∃ e, MqttCodecError.insufficient e ∧ decode b = .err e) ∧
      (StrictPrefix b ∨ EndlessLength b)) ∨
    ∃ e, ¬ MqttCodecError.insufficient e ∧ decode b = .err e := by
  rcases b with _ | ⟨first, src⟩
  · exact .inr (.inl ⟨decode_short (by simp), .inl strictPrefix_nil⟩)
  by_cases hnil : src = []
  · subst hnil
    exact .inr (.inl ⟨decode_short (by simp),
      .inl (strictPrefix_of_starve first (by simp) (by simp))⟩)
  by_cases hl : LegalFlags (headerOf first)
  · rcases lengthField_cases src with ⟨len, rest, rfl, hc, h3⟩ | ⟨hall, h4⟩ | ⟨haccept, hstarve⟩
    · by_cases hlt : rest.length < varIntValue len
      · refine .inr (.inl ⟨?_, .inl (strictPrefix_of_short first hc (by omega) hlt)⟩)
        rw [decode_accept hl hc h3, if_pos hlt]
        exact ⟨_, by simp, rfl⟩
      · refine .inl ⟨first, len, rest.take (varIntValue len), rest.drop (varIntValue len), ?_⟩
        exact
          { eq := by rw [List.append_assoc, List.take_append_drop]
            varInt := hc
            len_le := by omega
            body_length := by rw [List.length_take]; omega
            len_le_three := h3
            legal := hl }
    · refine .inr (.inl ⟨decode_starve hl hall h4, ?_⟩)
      by_cases h3 : src.length ≤ 3
      · exact .inl (strictPrefix_of_starve first hall h3)
      · exact .inr ⟨first, src, rfl, hl, by omega, hall⟩
    · refine .inr (.inr ⟨varIntMalformed, varIntMalformed_not_insufficient, ?_⟩)
      exact decode_malformed hl haccept hstarve
  · exact .inr (.inr (decode_illegal hnil hl))

/-! ## When `decode` aborts -/

/-- The body of the frame `b` starts with ends inside a field of fixed width, or where
the property counter still calls for an identifier, or it is that of a PUBLISH with
a topic and the QoS bits three. -/
def BodyOverruns (b : Bytes) : Prop :=
  ∃ first len body rest, Opened b first len body rest ∧
    (bodyLayout (headerOf first)).Stops body .overrun

theorem decode_returns_iff (b : Bytes) : decode b ≠ .panic ↔ ¬ BodyOverruns b := by
  constructor
  · rintro hdecode ⟨first, len, body, rest, hopen, hstop⟩
    apply hdecode
    rw [decode_opened hopen, ((decodeBody_tracks (headerOf first)).panic_iff body).mpr hstop]
    rfl
  · intro hover hpanic
    rcases decode_cases b with ⟨first, len, body, rest, hopen⟩ | ⟨⟨e, -, he⟩, -⟩ | ⟨e, -, he⟩
    · apply hover
      refine ⟨first, len, body, rest, hopen, ?_⟩
      rw [decode_opened hopen, Outcome.bind_eq_panic] at hpanic
      rcases hpanic with hpanic | ⟨r, -, hr⟩
      · exact ((decodeBody_tracks (headerOf first)).panic_iff body).mp hpanic
      · cases hr
    · rw [he] at hpanic
      cases hpanic
    · rw [he] at hpanic
      cases hpanic

/-- A PUBACK without a body: the packet identifier is read from nothing. -/
theorem decode_panics_on_empty_puback : ¬ ∀ b, decode b ≠ .panic :=
  fun h => h [0x40, 0x00] (by rfl)

end Mqtt
end Vaux
