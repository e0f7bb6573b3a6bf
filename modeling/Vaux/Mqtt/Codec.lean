import Vaux.Mqtt.Primitive
import Vaux.Wire.Layout

/-!
# Field codecs

A `Codec` is what one field of a packet is to the encoder, to the size functions
and to the decoder, together with the laws that make it a codec: the decoder does
at the front of a buffer what the field on the wire asks for (`shows`), it reads
back what the encoder wrote (`reads`), the size functions count the bytes the
encoder writes (`size_eq`), and a value that was decoded can be encoded again in
no more bytes than it was read from (`reencodes`).

The byte count a decoder returns is the number of bytes it took plus `extra`, which
is zero for every field but a user property.
-/

namespace Vaux
namespace Mqtt

open Wire Decoder

/-- The outcome of a field decoder is what the front of its buffer is. -/
def Shows {α : Type} (field : Field) (extra : Nat) (src : Bytes) :
    Outcome MqttCodecError ((α × Nat) × Bytes) → Prop
  | .ok ((_, n), rest) => ∃ k, field.front src = .whole k ∧ rest = src.drop k ∧ n = k + extra
  | .err e =>
    (e.insufficient ∧ field.front src = .starved) ∨ (¬ e.insufficient ∧ field.front src = .refused)
  | .panic => field.front src = .cut

structure Codec (α : Type) where
  decode : Dec (α × Nat)
  encode : α → Enc
  size : α → UInt32
  field : Field
  extra : Nat
  /-- The values the decoder can return.  Only a variable byte integer has others. -/
  Fits : α → Prop
  shows : ∀ src, Shows field extra src (decode.run src)
  reads : ∀ {a : α} {e : Bytes}, Fits a → encode a = .ok e →
    Reads decode e (a, e.length + extra)
  size_eq : ∀ {a : α} {e : Bytes}, Fits a → encode a = .ok e → size a = UInt32.ofNat e.length
  reencodes : ∀ {src : Bytes} {a : α} {n : Nat} {rest : Bytes},
    decode.run src = .ok ((a, n), rest) →
      Fits a ∧ ∃ e, encode a = .ok e ∧ e.length + rest.length ≤ src.length

namespace Codec

variable {α : Type}

theorem decode_ok (c : Codec α) {src : Bytes} {a : α} {n : Nat} {rest : Bytes}
    (h : c.decode.run src = .ok ((a, n), rest)) :
    ∃ k, c.field.front src = .whole k ∧ k ≤ src.length ∧ rest = src.drop k ∧ n = k + c.extra := by
  have hs := c.shows src
  rw [h] at hs
  obtain ⟨k, hk, hrest, hn⟩ := hs
  exact ⟨k, hk, c.field.whole_le hk, hrest, hn⟩

/-- A field that cannot be empty. -/
theorem progress_of_front (c : Codec α)
    (hpos : ∀ {b n}, c.field.front b = .whole n → 0 < n) {src : Bytes} {a : α} {n : Nat}
    {rest : Bytes} (h : c.decode.run src = .ok ((a, n), rest)) : rest.length < src.length := by
  obtain ⟨k, hk, hle, hrest, -⟩ := c.decode_ok h
  have := hpos hk
  rw [hrest, List.length_drop]
  omega

end Codec

/-! ## Fields of fixed width -/

section

variable {α : Type} {width : Nat} {d : Dec (α × Nat)} {g : Bytes → Except MqttCodecError α}

/-- `d` takes `width` bytes or aborts, and `g` makes the value of them. -/
def TakesFixed (width : Nat) (d : Dec (α × Nat)) (g : Bytes → Except MqttCodecError α) : Prop :=
  ∀ src, d.run src =
    if src.length < width then .panic
    else (Outcome.ofExcept (g (src.take width))).map fun a => ((a, width), src.drop width)

theorem TakesFixed.shows (hd : TakesFixed width d g)
    (hg : ∀ c e, g c = .error e → ¬ e.insufficient) (src : Bytes) :
    Shows (.fixed width fun c => (g c).isOk) 0 src (d.run src) := by
  rw [hd src]
  by_cases hlen : src.length < width
  · simp only [hlen, if_true, Shows, Field.fixed]
  · simp only [hlen, if_false]
    cases h : g (src.take width) with
    | ok a => exact ⟨width, by simp [Field.fixed, hlen, h, Except.isOk, Except.toBool], rfl, rfl⟩
    | error e =>
        refine .inr ⟨hg _ e h, ?_⟩
        simp [Field.fixed, hlen, h, Except.isOk, Except.toBool]

theorem TakesFixed.ok_length (hd : TakesFixed width d g) {src : Bytes} {a : α} {n : Nat}
    {rest : Bytes} (h : d.run src = .ok ((a, n), rest)) : width + rest.length = src.length := by
  rw [hd src] at h
  split at h
  · cases h
  · rename_i hlen
    cases hg : g (src.take width) with
    | ok b =>
        rw [hg] at h
        cases h
        rw [List.length_drop]
        omega
    | error e =>
        rw [hg] at h
        cases h

end

theorem takesFixed_decodeU8 :
    TakesFixed 1 decodeU8 fun c => .ok (UInt8.ofNat (beValue c)) := by
  intro src
  simp only [decodeU8, getU8, run_bind, run_getBytes]
  split <;> rfl

theorem takesFixed_decodeU16 :
    TakesFixed 2 decodeU16 fun c => .ok (UInt16.ofNat (beValue c)) := by
  intro src
  simp only [decodeU16, getU16, run_bind, run_getBytes]
  split <;> rfl

theorem takesFixed_decodeU32 :
    TakesFixed 4 decodeU32 fun c => .ok (UInt32.ofNat (beValue c)) := by
  intro src
  simp only [decodeU32, getU32, run_bind, run_getBytes]
  split <;> rfl

theorem takesFixed_decodeEnum {α : Type} (tryFrom : UInt8 → Except MqttCodecError α) :
    TakesFixed 1 (decodeEnum tryFrom) fun c => tryFrom (UInt8.ofNat (beValue c)) := by
  intro src
  simp only [decodeEnum, getU8, run_bind, run_getBytes]
  split
  · rfl
  · simp only [Outcome.bind_ok, run_pure, run_lift]
    cases tryFrom (UInt8.ofNat (beValue (src.take 1))) <;> rfl

namespace Codec

def u8 : Codec UInt8 where
  decode := decodeU8
  encode v := .ok [v]
  size _ := 1
  field := .fixed 1 fun _ => true
  extra := 0
  Fits _ := True
  shows := takesFixed_decodeU8.shows (by simp)
  reads _ h := by
    cases h
    exact reads_decodeU8 _
  size_eq _ h := by
    cases h
    rfl
  reencodes {_ a _ _} h := ⟨trivial, [a], rfl, (takesFixed_decodeU8.ok_length h).le⟩

def u16 : Codec UInt16 where
  decode := decodeU16
  encode v := .ok (putU16 v)
  size _ := 2
  field := .fixed 2 fun _ => true
  extra := 0
  Fits _ := True
  shows := takesFixed_decodeU16.shows (by simp)
  reads _ h := by
    cases h
    exact reads_decodeU16 _
  size_eq _ h := by
    cases h
    rfl
  reencodes {_ a _ _} h := ⟨trivial, putU16 a, rfl, (takesFixed_decodeU16.ok_length h).le⟩

def u32 : Codec UInt32 where
  decode := decodeU32
  encode v := .ok (putU32 v)
  size _ := 4
  field := .fixed 4 fun _ => true
  extra := 0
  Fits _ := True
  shows := takesFixed_decodeU32.shows (by simp)
  reads _ h := by
    cases h
    exact reads_decodeU32 _
  size_eq _ h := by
    cases h
    rfl
  reencodes {_ a _ _} h := ⟨trivial, putU32 a, rfl, (takesFixed_decodeU32.ok_length h).le⟩

/-- One byte that stands for a value of an enumeration. -/
def enum {α : Type} (tryFrom : UInt8 → Except MqttCodecError α) (toU8 : α → UInt8)
    (roundTrip : ∀ a, tryFrom (toU8 a) = .ok a)
    (refuses : ∀ {v e}, tryFrom v = .error e → ¬ e.insufficient) : Codec α where
  decode := decodeEnum tryFrom
  encode a := .ok [toU8 a]
  size _ := 1
  field := .fixed 1 fun c => (tryFrom (UInt8.ofNat (beValue c))).isOk
  extra := 0
  Fits _ := True
  shows := (takesFixed_decodeEnum tryFrom).shows fun _ _ h => refuses h
  reads {a _} _ h := by
    cases h
    exact reads_decodeEnum (roundTrip a)
  size_eq _ h := by
    cases h
    rfl
  reencodes {_ a _ _} h :=
    ⟨trivial, [toU8 a], rfl, ((takesFixed_decodeEnum tryFrom).ok_length h).le⟩

def reason : Codec Reason :=
  enum Reason.tryFrom Reason.toU8 Reason.tryFrom_toU8 Reason.not_insufficient_of_tryFrom

theorem reason_field :
    reason.field = .fixed 1 fun c => (Reason.tryFrom (UInt8.ofNat (beValue c))).isOk := rfl

theorem reason_front_pos {b : Bytes} {n : Nat} (h : reason.field.front b = .whole n) : 0 < n := by
  rw [reason_field] at h
  exact Field.fixed_whole_pos (by decide) h

def qoSLevel : Codec QoSLevel :=
  enum QoSLevel.tryFrom QoSLevel.toU8 QoSLevel.tryFrom_toU8 QoSLevel.not_insufficient_of_tryFrom

def payloadFormat : Codec PayloadFormat :=
  enum PayloadFormat.tryFrom PayloadFormat.toU8 PayloadFormat.tryFrom_toU8
    PayloadFormat.not_insufficient_of_tryFrom

/-- `Decode for bool`. -/
def bool : Codec Bool :=
  enum boolTryFrom putBool boolTryFrom_putBool not_insufficient_of_boolTryFrom

/-- `src.get_u8() != 0`, which the hand-written decoder of CONNECT uses for its two
boolean properties. -/
def flag : Codec Bool :=
  enum (fun v => .ok (v != 0)) putBool (by rintro (_ | _) <;> rfl) (by simp)

end Codec

/-! ## Strings and binary data -/

theorem beValue_take_two_lt (src : Bytes) : beValue (src.take 2) < 65536 := by
  rcases src with _ | ⟨x, _ | ⟨y, src⟩⟩
  · decide
  · have hx := x.toNat_lt
    simp [beValue]
    omega
  · have hx := x.toNat_lt
    have hy := y.toNat_lt
    simp [beValue]
    omega

theorem putU16_beValue {b : Bytes} (h : b.length = 2) : putU16 (UInt16.ofNat (beValue b)) = b := by
  obtain ⟨x, y, rfl⟩ := List.length_eq_two.mp h
  have hx := x.toNat_lt
  have hy := y.toNat_lt
  have hvalue : beValue [x, y] = x.toNat * 256 + y.toNat := by
    simp [beValue]
  have hlt : (UInt16.ofNat (beValue [x, y])).toNat = x.toNat * 256 + y.toNat := by
    rw [UInt16.toNat_ofNat', hvalue]
    omega
  have hhigh : (x.toNat * 256 + y.toNat) / 256 = x.toNat := by omega
  have hlow : (x.toNat * 256 + y.toNat) % 256 = y.toNat := by omega
  rw [putU16, hlt, hhigh, hlow, UInt8.ofNat_toNat, UInt8.ofNat_toNat]

section

variable {α : Type} {d : Dec (α × Nat)} {short : MqttCodecError}
  {g : Bytes → Except MqttCodecError α}

/-- `d` takes two bytes of length and as many bytes of data, and `g` makes the value
of the data. -/
def TakesSized (d : Dec (α × Nat)) (short : MqttCodecError)
    (g : Bytes → Except MqttCodecError α) : Prop :=
  ∀ src, d.run src =
    if src.length < 2 then .err short
    else if src.length - 2 < beValue (src.take 2) then
      .err (.newWithKind (tryGetErrorDebug (beValue (src.take 2)) (src.length - 2))
        (.insufficientData (beValue (src.take 2)) (src.length - 2)))
    else
      (Outcome.ofExcept (g ((src.drop 2).take (beValue (src.take 2))))).map fun a =>
        ((a, beValue (src.take 2) + 2), src.drop (2 + beValue (src.take 2)))

theorem TakesSized.shows (hd : TakesSized d short g) (hshort : ¬ short.insufficient)
    (hg : ∀ c e, g c = .error e → ¬ e.insufficient) (src : Bytes) :
    Shows (.sized fun c => (g c).isOk) 0 src (d.run src) := by
  rw [hd src]
  by_cases h2 : src.length < 2
  · simp only [h2, if_true]
    exact .inr ⟨hshort, by simp only [Field.sized, h2, if_true]⟩
  · simp only [h2, if_false]
    by_cases hlen : src.length - 2 < beValue (src.take 2)
    · simp only [hlen, if_true]
      exact .inl ⟨by simp, by simp only [Field.sized, h2, hlen, if_true, if_false]⟩
    · simp only [hlen, if_false]
      cases h : g ((src.drop 2).take (beValue (src.take 2))) with
      | ok a =>
          refine ⟨2 + beValue (src.take 2), ?_, rfl, Nat.add_comm _ _⟩
          simp only [Field.sized, h2, hlen, h, Except.isOk, Except.toBool, if_true, if_false]
      | error e =>
          refine .inr ⟨hg _ e h, ?_⟩
          simp only [Field.sized, h2, hlen, h, Except.isOk, Except.toBool, if_false,
            Bool.false_eq_true]

/-- What is read is two bytes and the data. -/
theorem TakesSized.ok_data (hd : TakesSized d short g) {src : Bytes} {a : α} {n : Nat}
    {rest : Bytes} (h : d.run src = .ok ((a, n), rest)) :
    ∃ data, g data = .ok a ∧ data.length ≤ 65535 ∧ src = prefixed data ++ rest := by
  rw [hd src] at h
  split at h
  · cases h
  · split at h
    · cases h
    · rename_i h2 hlen
      have hlt := beValue_take_two_lt src
      have hdata : ((src.drop 2).take (beValue (src.take 2))).length = beValue (src.take 2) := by
        rw [List.length_take, List.length_drop]
        omega
      cases hg : g ((src.drop 2).take (beValue (src.take 2))) with
      | ok b =>
          rw [hg] at h
          cases h
          refine ⟨_, hg, by omega, ?_⟩
          rw [prefixed, hdata, putU16_beValue (by rw [List.length_take]; omega), ← List.drop_drop,
            List.append_assoc, List.take_append_drop, List.take_append_drop]
      | error e =>
          rw [hg] at h
          cases h

end

theorem run_getU16_of_length {src : Bytes} (h : ¬ src.length < 2) :
    (getU16 : Dec UInt16).run src = .ok (UInt16.ofNat (beValue (src.take 2)), src.drop 2) := by
  simp [getU16, run_getBytes, h]

theorem getU16_toNat (src : Bytes) :
    (UInt16.ofNat (beValue (src.take 2))).toNat = beValue (src.take 2) := by
  have := beValue_take_two_lt src
  rw [UInt16.toNat_ofNat']
  omega

theorem takesSized_decodeString :
    TakesSized decodeString (.new "malformed Mqtt packet: string length") fun data =>
      match fromUtf8 data with
      | some s => .ok s
      | none => .error (.new (fromUtf8ErrorDebug data)) := by
  intro src
  simp only [decodeString, run_bind, run_remaining, Outcome.bind_ok]
  by_cases h2 : src.length < 2
  · simp [h2]
  · simp only [h2, if_false, run_bind, run_getU16_of_length h2, Outcome.bind_ok, tryCopyToSlice,
      run_takeOr, getU16_toNat, List.length_drop]
    split
    · rfl
    · simp only [Outcome.bind_ok, List.drop_drop]
      cases fromUtf8 ((src.drop 2).take (beValue (src.take 2))) <;> rfl

theorem takesSized_decodeArrayField :
    TakesSized decodeArrayField (.new "Insufficient data for binary length") .ok := by
  intro src
  simp only [decodeArrayField, run_bind, run_remaining, Outcome.bind_ok]
  by_cases h2 : src.length < 2
  · simp [h2]
  · simp only [h2, if_false, run_bind, run_getU16_of_length h2, Outcome.bind_ok, tryCopyToSlice,
      run_takeOr, getU16_toNat, List.length_drop]
    split
    · rfl
    · simp only [Outcome.bind_ok, List.drop_drop]
      rfl

namespace Codec

def string : Codec String where
  decode := decodeString
  encode := encodeString
  size s := 2 + UInt32.ofNat (utf8 s).length
  field := .sized fun data => (fromUtf8 data).isSome
  extra := 0
  Fits _ := True
  shows src := by
    have h := takesSized_decodeString.shows (by simp) (by
      intro c e he
      split at he <;> cases he
      exact MqttCodecError.insufficient_new _) src
    have hlegal : (fun data => (fromUtf8 data).isSome) = fun data =>
        (match fromUtf8 data with
          | some s => Except.ok s
          | none => Except.error (MqttCodecError.new (fromUtf8ErrorDebug data))).isOk := by
      funext data
      cases fromUtf8 data <;> rfl
    rw [hlegal]
    exact h
  reads _ h := by
    obtain ⟨hlen, rfl⟩ := encodeString_eq_ok h
    rw [prefixed_length, Nat.add_comm 2]
    exact reads_decodeString hlen
  size_eq _ h := by
    obtain ⟨-, rfl⟩ := encodeString_eq_ok h
    rw [prefixed_length, UInt32.ofNat_add]
    rfl
  reencodes h := by
    obtain ⟨data, hg, hlen, hsrc⟩ := takesSized_decodeString.ok_data h
    split at hg <;> cases hg
    rename_i s hs
    have hdata := utf8_of_fromUtf8 hs
    refine ⟨trivial, prefixed data, ?_, by rw [hsrc, List.length_append]⟩
    rw [encodeString, hdata, if_neg (by omega)]

theorem string_field : string.field = .sized fun data => (fromUtf8 data).isSome := rfl

theorem string_front_pos {b : Bytes} {n : Nat} (h : string.field.front b = .whole n) : 0 < n := by
  rw [string_field] at h
  exact Field.sized_whole_pos h

/-- `Vec<u8>` with its two bytes of length. -/
def binary : Codec Bytes where
  decode := decodeArrayField
  encode := encodeArrayField
  size b := 2 + UInt32.ofNat b.length
  field := .sized fun _ => true
  extra := 0
  Fits _ := True
  shows := takesSized_decodeArrayField.shows (by simp) (by simp)
  reads _ h := by
    obtain ⟨hlen, rfl⟩ := encodeArrayField_eq_ok h
    rw [prefixed_length, Nat.add_comm 2]
    exact reads_decodeArrayField hlen
  size_eq _ h := by
    obtain ⟨-, rfl⟩ := encodeArrayField_eq_ok h
    rw [prefixed_length, UInt32.ofNat_add]
    rfl
  reencodes {_ a _ _} h := by
    obtain ⟨data, hg, hlen, hsrc⟩ := takesSized_decodeArrayField.ok_data h
    cases hg
    refine ⟨trivial, prefixed a, ?_, by rw [hsrc, List.length_append]⟩
    rw [encodeArrayField, if_neg (by omega)]

end Codec

/-! ## Variable byte integers -/

/-- The number of bytes at the front that say another byte follows. -/
def continuations (b : Bytes) : Nat := (b.takeWhile fun x => 128 ≤ x.toNat).length

/-- A number of at most three bytes.  A buffer that ends inside a number is starved as
long as it holds no more than four bytes of it. -/
def varIntField : Field where
  front b :=
    if continuations b < b.length then
      if continuations b < 3 then .whole (continuations b + 1) else .refused
    else if b.length ≤ 4 then .starved else .refused
  whole_le h := by
    split at h
    · split at h
      · cases h
        omega
      · cases h
    · split at h <;> cases h

theorem all_ge_of_continuations {b : Bytes} (h : ¬ continuations b < b.length) :
    ∀ y ∈ b, 128 ≤ y.toNat := by
  have hpre := List.takeWhile_prefix (l := b) fun x : UInt8 => decide (128 ≤ x.toNat)
  have heq : b.takeWhile (fun x => 128 ≤ x.toNat) = b :=
    hpre.eq_of_length (Nat.le_antisymm hpre.length_le (by simpa [continuations] using h))
  intro y hy
  rw [← heq] at hy
  simpa using List.mem_takeWhile_imp hy

theorem varIntBytes_take_continuations {b : Bytes} (h : continuations b < b.length) :
    VarIntBytes (b.take (continuations b + 1)) ∧
      (b.take (continuations b + 1)).length = continuations b + 1 := by
  refine ⟨?_, by rw [List.length_take]; omega⟩
  induction b with
  | nil => simp at h
  | cons x b ih =>
      by_cases hx : 128 ≤ x.toNat
      · have hk : continuations (x :: b) = continuations b + 1 := by simp [continuations, hx]
        rw [hk] at h ⊢
        rw [List.take_succ_cons]
        exact (ih (by simpa using h)).cons hx
      · have hk : continuations (x :: b) = 0 := by simp [continuations, hx]
        rw [hk]
        exact varIntBytes_singleton (by omega)

theorem varIntField_shows (src : Bytes) :
    Shows varIntField 0 src (decodeVariableByteInt.run src) := by
  by_cases hlt : continuations src < src.length
  · obtain ⟨hbytes, hlen⟩ := varIntBytes_take_continuations hlt
    by_cases h3 : continuations src < 3
    · have hread := reads_decodeVariableByteInt hbytes (by omega)
        (src.drop (continuations src + 1))
      rw [List.take_append_drop] at hread
      rw [hread]
      refine ⟨continuations src + 1, ?_, rfl, hlen⟩
      simp only [varIntField, hlt, h3, if_true]
    · rw [decodeVariableByteInt_malformed]
      · refine .inr ⟨varIntMalformed_not_insufficient, ?_⟩
        simp only [varIntField, hlt, h3, if_true, if_false]
      · intro c rest hsrc hc
        obtain ⟨heq, -⟩ := hbytes.prefix_unique hc
          ((List.take_append_drop (continuations src + 1) src).trans hsrc)
        rw [← heq, hlen]
        omega
      · rintro ⟨hall, -⟩
        obtain ⟨init, last, heq, -, hlast⟩ := hbytes
        have hmem : last ∈ src := List.mem_of_mem_take (by rw [heq]; simp)
        have := hall last hmem
        omega
  · have hall := all_ge_of_continuations hlt
    by_cases h4 : src.length ≤ 4
    · rw [decodeVariableByteInt_starve hall h4]
      refine .inl ⟨varIntInsufficient_insufficient, ?_⟩
      simp only [varIntField, hlt, h4, if_true, if_false]
    · rw [decodeVariableByteInt_malformed]
      · refine .inr ⟨varIntMalformed_not_insufficient, ?_⟩
        simp only [varIntField, hlt, h4, if_false]
      · rintro c rest rfl ⟨init, last, rfl, -, hlast⟩
        have := hall last (by simp)
        omega
      · rintro ⟨-, hlen⟩
        exact h4 hlen

theorem varIntValue_lt (c : Bytes) : varIntValue c < 128 ^ c.length := by
  induction c with
  | nil => decide
  | cons x c ih =>
      rw [varIntValue, List.length_cons, Nat.pow_succ]
      omega

/-- A number that was read needs no more bytes when it is written. -/
theorem varIntEncoding_le_of_decode {src : Bytes} {v : UInt32} {n : Nat} {rest : Bytes}
    (h : decodeVariableByteInt.run src = .ok ((v, n), rest)) :
    v.toNat ≤ 2097151 ∧ (varIntEncoding v).length + rest.length ≤ src.length ∧
      v.toNat = varIntValue (src.take n) ∧ n + rest.length = src.length := by
  obtain ⟨c, rfl, hc, hlen, ha⟩ := decodeVariableByteInt_ok_iff.mp h
  cases ha
  have hlt := varIntValue_lt c
  have hpow : 128 ^ c.length ≤ 2097152 :=
    Nat.pow_le_pow_right (n := 128) (by decide) hlen
  have hv : (UInt32.ofNat (varIntValue c)).toNat = varIntValue c := by
    rw [UInt32.toNat_ofNat']
    omega
  have hpos : 0 < c.length := List.length_pos_iff.mpr hc.ne_nil
  obtain ⟨k, hk⟩ : ∃ k, c.length = k + 1 := ⟨c.length - 1, by omega⟩
  have henc := (varIntEncoding_spec (UInt32.ofNat (varIntValue c))).2.2 k
  rw [hv, ← hk] at henc
  have hle := henc.mpr hlt
  refine ⟨by omega, ?_, by simp [hv], by simp⟩
  rw [List.length_append]
  omega

theorem varIntEncoding_size {v : UInt32} (h : v ≤ maxVariableByteInt) :
    variableByteIntSize v = UInt32.ofNat (varIntEncoding v).length := by
  rw [varIntEncoding_length h, UInt32.ofNat_toNat]

namespace Codec

variable {α β : Type}

def varInt : Codec UInt32 where
  decode := decodeVariableByteInt
  encode := encodeVariableByteInt
  size := variableByteIntSize
  field := varIntField
  extra := 0
  Fits v := v.toNat ≤ 2097151
  shows := varIntField_shows
  reads hfit h := by
    rw [encodeVariableByteInt_eq] at h
    cases h
    exact reads_varIntEncoding hfit
  size_eq hfit h := by
    rw [encodeVariableByteInt_eq] at h
    cases h
    apply varIntEncoding_size
    have hmax : maxVariableByteInt.toNat = 268435455 := rfl
    rw [UInt32.le_iff_toNat_le]
    omega
  reencodes {_ a _ _} h := by
    obtain ⟨hfit, hlen, -, -⟩ := varIntEncoding_le_of_decode h
    exact ⟨hfit, varIntEncoding a, encodeVariableByteInt_eq a, hlen⟩

/-! ## Two fields as one -/

/-- The two fields one after the other.  `report` is the count returned for the
counts of the parts. -/
def decodeSeq (c : Codec α) (d : Codec β) (report : Nat → Nat → Nat) : Dec ((α × β) × Nat) := do
  let (a, n) ← c.decode
  let (b, m) ← d.decode
  pure ((a, b), report n m)

def encodeSeq (c : Codec α) (d : Codec β) (p : α × β) : Enc := do
  let e ← c.encode p.1
  let e' ← d.encode p.2
  .ok (e ++ e')

theorem encodeSeq_eq_ok {c : Codec α} {d : Codec β} {p : α × β} {e : Bytes}
    (h : encodeSeq c d p = .ok e) :
    ∃ e₁ e₂, c.encode p.1 = .ok e₁ ∧ d.encode p.2 = .ok e₂ ∧ e = e₁ ++ e₂ := by
  unfold encodeSeq at h
  cases h₁ : c.encode p.1 with
  | error x => simp [h₁, bind, Except.bind] at h
  | ok e₁ =>
      cases h₂ : d.encode p.2 with
      | error x => simp [h₁, h₂, bind, Except.bind] at h
      | ok e₂ =>
          simp only [h₁, h₂, bind, Except.bind] at h
          cases h
          exact ⟨e₁, e₂, rfl, rfl, rfl⟩

theorem decodeSeq_shows (c : Codec α) (d : Codec β) (report : Nat → Nat → Nat) (extra : Nat)
    (hreport : ∀ n m, report (n + c.extra) (m + d.extra) = n + m + extra) (src : Bytes) :
    Shows (c.field.seq d.field) extra src ((decodeSeq c d report).run src) := by
  have hc := c.shows src
  simp only [decodeSeq, run_bind]
  cases h₁ : c.decode.run src with
  | ok r =>
      obtain ⟨⟨a, n⟩, rest⟩ := r
      rw [h₁] at hc
      obtain ⟨k, hk, hrest, hn⟩ := hc
      have hd := d.shows rest
      simp only [Outcome.bind_ok]
      cases h₂ : d.decode.run rest with
      | ok r' =>
          obtain ⟨⟨b, m⟩, rest'⟩ := r'
          rw [h₂] at hd
          obtain ⟨j, hj, hrest', hm⟩ := hd
          refine ⟨k + j, ?_, ?_, ?_⟩
          · rw [Field.seq_front_whole hk, ← hrest, hj]
          · rw [hrest', hrest, List.drop_drop]
          · simp only
            rw [hn, hm, hreport]
      | err e =>
          rw [h₂] at hd
          rcases hd with ⟨he, hf⟩ | ⟨he, hf⟩
          · exact .inl ⟨he, by rw [Field.seq_front_whole hk, ← hrest, hf]⟩
          · exact .inr ⟨he, by rw [Field.seq_front_whole hk, ← hrest, hf]⟩
      | panic =>
          rw [h₂] at hd
          show (c.field.seq d.field).front src = .cut
          have hf : d.field.front rest = .cut := hd
          rw [Field.seq_front_whole hk, ← hrest, hf]
  | err e =>
      rw [h₁] at hc
      rcases hc with ⟨he, hf⟩ | ⟨he, hf⟩
      · exact .inl ⟨he, by rw [Field.seq_front_of_not_whole (by simp [hf]), hf]⟩
      · exact .inr ⟨he, by rw [Field.seq_front_of_not_whole (by simp [hf]), hf]⟩
  | panic =>
      rw [h₁] at hc
      have hf : c.field.front src = .cut := hc
      show (c.field.seq d.field).front src = .cut
      rw [Field.seq_front_of_not_whole (by simp [hf]), hf]

def seq (c : Codec α) (d : Codec β) (report : Nat → Nat → Nat) (extra : Nat)
    (hreport : ∀ n m, report (n + c.extra) (m + d.extra) = n + m + extra) : Codec (α × β) where
  decode := decodeSeq c d report
  encode := encodeSeq c d
  size p := c.size p.1 + d.size p.2
  field := c.field.seq d.field
  extra := extra
  Fits p := c.Fits p.1 ∧ d.Fits p.2
  shows := decodeSeq_shows c d report extra hreport
  reads {p e} hfit h := by
    obtain ⟨e₁, e₂, h₁, h₂, rfl⟩ := encodeSeq_eq_ok h
    refine (c.reads hfit.1 h₁).bind ((d.reads hfit.2 h₂).bind_nil ?_)
    rw [List.length_append, ← hreport]
    exact Reads.pure _
  size_eq {p e} hfit h := by
    obtain ⟨e₁, e₂, h₁, h₂, rfl⟩ := encodeSeq_eq_ok h
    rw [c.size_eq hfit.1 h₁, d.size_eq hfit.2 h₂, List.length_append, UInt32.ofNat_add]
  reencodes {src p n rest} h := by
    simp only [decodeSeq, run_bind] at h
    obtain ⟨⟨⟨a, n₁⟩, rest₁⟩, h₁, h⟩ := Outcome.bind_eq_ok.mp h
    obtain ⟨⟨⟨b, n₂⟩, rest₂⟩, h₂, h⟩ := Outcome.bind_eq_ok.mp h
    cases h
    obtain ⟨hfit₁, e₁, henc₁, hlen₁⟩ := c.reencodes h₁
    obtain ⟨hfit₂, e₂, henc₂, hlen₂⟩ := d.reencodes h₂
    refine ⟨⟨hfit₁, hfit₂⟩, e₁ ++ e₂, ?_, ?_⟩
    · simp [encodeSeq, henc₁, henc₂, bind, Except.bind]
    · rw [List.length_append]
      simp only at hlen₁ hlen₂ ⊢
      omega

/-- The same field under another type. -/
def iso (c : Codec α) (f : α → β) (g : β → α) (hgf : ∀ a, g (f a) = a) (hfg : ∀ b, f (g b) = b) :
    Codec β where
  decode := do
    let (a, n) ← c.decode
    pure (f a, n)
  encode b := c.encode (g b)
  size b := c.size (g b)
  field := c.field
  extra := c.extra
  Fits b := c.Fits (g b)
  shows src := by
    have hc := c.shows src
    simp only [run_bind]
    cases h : c.decode.run src with
    | ok r =>
        rw [h] at hc
        exact hc
    | err e =>
        rw [h] at hc
        exact hc
    | panic =>
        rw [h] at hc
        exact hc
  reads {b e} hfit h := by
    refine (c.reads hfit h).bind_nil ?_
    simp only [hfg]
    exact Reads.pure _
  size_eq hfit h := c.size_eq hfit h
  reencodes {src b n rest} h := by
    simp only [run_bind] at h
    obtain ⟨⟨⟨a, n₁⟩, rest₁⟩, h₁, h⟩ := Outcome.bind_eq_ok.mp h
    cases h
    have hre := c.reencodes h₁
    simp only [hgf]
    exact hre

end Codec

end Mqtt
end Vaux
