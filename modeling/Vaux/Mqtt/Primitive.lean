import Vaux.Mqtt.VarInt
import Vaux.Wire.Loop

/-!
# Strings, binary data and integers

The `Encode` and `Decode` implementations of the primitive field types in
`codec/mod.rs`.  Strings and binary data check the bytes they need and report
`InsufficientData`; the integer types and the one-byte enumerations read with
`get_u8`, `get_u16` and `get_u32`, which abort on a short buffer.

A decoder returns the value together with the number of bytes it says it read,
as `Decode::decode` does.
-/

namespace Vaux
namespace Mqtt

open Wire Decoder

/-! ## UTF-8 -/

/-- `str::as_bytes`. -/
def utf8 (s : String) : Bytes := s.toUTF8.data.toList

/-- `String::from_utf8`. -/
def fromUtf8 (b : Bytes) : Option String := String.fromUTF8? ⟨b.toArray⟩

@[simp] theorem fromUtf8_utf8 (s : String) : fromUtf8 (utf8 s) = some s := by
  have h : (⟨(utf8 s).toArray⟩ : ByteArray) = s.toByteArray := by
    simp [utf8, String.toUTF8]
  unfold fromUtf8 String.fromUTF8?
  rw [h, dif_pos s.isValidUTF8]
  rfl

theorem utf8_of_fromUtf8 {b : Bytes} {s : String} (h : fromUtf8 b = some s) : utf8 s = b := by
  unfold fromUtf8 String.fromUTF8? at h
  split at h
  · cases h
    simp [utf8, String.toUTF8, String.fromUTF8]
  · cases h

/-- `Utf8Error::valid_up_to`: the longest valid prefix. -/
def validUpTo (b : Bytes) : Nat :=
  ((List.range (b.length + 1)).reverse.find? fun k => (fromUtf8 (b.take k)).isSome).getD 0

/-- `Utf8Error::error_len`, from the bytes that follow the valid prefix: `none` if
the input ends inside a sequence, else the length of the invalid part. -/
def errorLen : Bytes → Option Nat
  | [] => none
  | x :: rest =>
    let continues (y : UInt8) : Bool := 0x80 ≤ y && y ≤ 0xbf
    let second (y : UInt8) : Bool :=
      if x = 0xe0 then 0xa0 ≤ y && y ≤ 0xbf
      else if x = 0xed then 0x80 ≤ y && y ≤ 0x9f
      else if x = 0xf0 then 0x90 ≤ y && y ≤ 0xbf
      else if x = 0xf4 then 0x80 ≤ y && y ≤ 0x8f
      else continues y
    let width := if 0xc2 ≤ x && x ≤ 0xdf then 2 else if 0xe0 ≤ x && x ≤ 0xef then 3
      else if 0xf0 ≤ x && x ≤ 0xf4 then 4 else 1
    if width = 1 then some 1
    else match rest with
      | [] => none
      | y :: rest =>
        if !second y then some 1
        else match rest with
          | [] => none
          | z :: rest => if !continues z then some 2 else if rest = [] then none else some 3

def debugOption : Option Nat → String
  | none => "None"
  | some n => s!"Some({n})"

/-- The `Debug` text of the error `String::from_utf8` returns for `b`. -/
def fromUtf8ErrorDebug (b : Bytes) : String :=
  let upTo := validUpTo b
  let len := debugOption (errorLen (b.drop upTo))
  s!"FromUtf8Error \x7b bytes: {b}, error: Utf8Error \x7b valid_up_to: {upTo}, error_len: " ++
    s!"{len} \x7d \x7d"

/-- The `Debug` text of the error `Buf::try_copy_to_slice` returns. -/
def tryGetErrorDebug (requested available : Nat) : String :=
  s!"TryGetError \x7b requested: {requested}, available: {available} \x7d"

/-! ## Strings and binary data -/

/-- `try_copy_to_slice` of `len` bytes, with the error the callers map it to. -/
def tryCopyToSlice (len : Nat) : Dec Bytes :=
  takeOr len fun available =>
    .newWithKind (tryGetErrorDebug len available) (.insufficientData len available)

def decodeString : Dec (String × Nat) := do
  let n ← remaining
  if n < 2 then fail (.new "malformed Mqtt packet: string length")
  else do
    let len ← getU16
    let dest ← tryCopyToSlice len.toNat
    match fromUtf8 dest with
    | some s => pure (s, len.toNat + 2)
    | none => fail (.new (fromUtf8ErrorDebug dest))

/-- `Decode for Vec<u8>`. -/
def decodeArrayField : Dec (Bytes × Nat) := do
  let n ← remaining
  if n < 2 then fail (.new "Insufficient data for binary length")
  else do
    let len ← getU16
    let dest ← tryCopyToSlice len.toNat
    pure (dest, len.toNat + 2)

/-- Two bytes of length, then the data. -/
def prefixed (data : Bytes) : Bytes := putU16 (UInt16.ofNat data.length) ++ data

def encodeString (src : String) : Enc :=
  if (utf8 src).length > 65535 then .error (.new "string exceeds max length")
  else .ok (prefixed (utf8 src))

def encodeArrayField (src : Bytes) : Enc :=
  if src.length > 65535 then .error (.new "binary data exceeds max length")
  else .ok (prefixed src)

theorem encodeString_eq_ok {s : String} {e : Bytes} (h : encodeString s = .ok e) :
    (utf8 s).length ≤ 65535 ∧ e = prefixed (utf8 s) := by
  unfold encodeString at h
  split at h
  · cases h
  · cases h
    exact ⟨by omega, rfl⟩

theorem encodeArrayField_eq_ok {b e : Bytes} (h : encodeArrayField b = .ok e) :
    b.length ≤ 65535 ∧ e = prefixed b := by
  unfold encodeArrayField at h
  split at h
  · cases h
  · cases h
    exact ⟨by omega, rfl⟩

@[simp] theorem prefixed_length (b : Bytes) : (prefixed b).length = 2 + b.length := by
  simp [prefixed]

theorem ofNat_length_toNat {b : Bytes} (h : b.length ≤ 65535) :
    (UInt16.ofNat b.length).toNat = b.length := by
  rw [UInt16.toNat_ofNat']
  omega

theorem reads_decodeString {s : String} (h : (utf8 s).length ≤ 65535) :
    Reads decodeString (prefixed (utf8 s)) (s, (utf8 s).length + 2) := by
  intro rest
  have hlen : ¬ ((prefixed (utf8 s) ++ rest).length < 2) := by
    simp only [List.length_append, prefixed_length]
    omega
  have hu16 := reads_getU16 (ε := MqttCodecError) (UInt16.ofNat (utf8 s).length)
  simp only [decodeString, run_bind, run_remaining, Outcome.bind_ok, hlen, if_false]
  rw [prefixed, List.append_assoc, hu16]
  simp only [Outcome.bind_ok]
  rw [ofNat_length_toNat h, tryCopyToSlice, reads_takeOr]
  simp only [Outcome.bind_ok, fromUtf8_utf8, run_pure]

theorem reads_decodeArrayField {b : Bytes} (h : b.length ≤ 65535) :
    Reads decodeArrayField (prefixed b) (b, b.length + 2) := by
  intro rest
  have hlen : ¬ ((prefixed b ++ rest).length < 2) := by
    simp only [List.length_append, prefixed_length]
    omega
  have hu16 := reads_getU16 (ε := MqttCodecError) (UInt16.ofNat b.length)
  simp only [decodeArrayField, run_bind, run_remaining, Outcome.bind_ok, hlen, if_false]
  rw [prefixed, List.append_assoc, hu16]
  simp only [Outcome.bind_ok]
  rw [ofNat_length_toNat h, tryCopyToSlice, reads_takeOr]
  simp only [Outcome.bind_ok, run_pure]

/-! ## Integers, booleans and enumerations -/

def decodeU8 : Dec (UInt8 × Nat) := do
  let v ← getU8
  pure (v, 1)

def decodeU16 : Dec (UInt16 × Nat) := do
  let v ← getU16
  pure (v, 2)

def decodeU32 : Dec (UInt32 × Nat) := do
  let v ← getU32
  pure (v, 4)

/-- A one-byte enumeration: `Reason`, `QoSLevel` and `PayloadFormat`. -/
def decodeEnum {α : Type} (tryFrom : UInt8 → Except MqttCodecError α) : Dec (α × Nat) := do
  let val ← getU8
  let a ← lift (Outcome.ofExcept (tryFrom val))
  pure (a, 1)

def decodeReason : Dec (Reason × Nat) := decodeEnum Reason.tryFrom

def decodeQoSLevel : Dec (QoSLevel × Nat) := decodeEnum QoSLevel.tryFrom

def decodePayloadFormat : Dec (PayloadFormat × Nat) := decodeEnum PayloadFormat.tryFrom

def boolTryFrom (v : UInt8) : Except MqttCodecError Bool :=
  match v with
  | 0 => .ok false
  | 1 => .ok true
  | v => .error (.new s!"invalid value {v} for boolean property")

/-- `Decode for bool`. -/
def decodeBool : Dec (Bool × Nat) := decodeEnum boolTryFrom

def putBool (v : Bool) : UInt8 := if v then 1 else 0

@[simp] theorem boolTryFrom_putBool (v : Bool) : boolTryFrom (putBool v) = .ok v := by
  cases v <;> rfl

theorem not_insufficient_of_boolTryFrom {value : UInt8} {e : MqttCodecError}
    (h : boolTryFrom value = .error e) : ¬ e.insufficient := by
  unfold boolTryFrom at h
  split at h <;> cases h
  exact MqttCodecError.insufficient_new _

theorem reads_decodeU8 (v : UInt8) : Reads decodeU8 [v] (v, 1) :=
  (reads_getU8 v).bind_nil (Reads.pure _)

theorem reads_decodeU16 (v : UInt16) : Reads decodeU16 (putU16 v) (v, 2) :=
  (reads_getU16 v).bind_nil (Reads.pure _)

theorem reads_decodeU32 (v : UInt32) : Reads decodeU32 (putU32 v) (v, 4) :=
  (reads_getU32 v).bind_nil (Reads.pure _)

theorem reads_decodeEnum {α : Type} {tryFrom : UInt8 → Except MqttCodecError α} {x : UInt8} {a : α}
    (h : tryFrom x = .ok a) : Reads (decodeEnum tryFrom) [x] (a, 1) := by
  refine (reads_getU8 x).bind_nil ?_
  rw [h]
  exact (reads_lift_ok a).bind_nil (Reads.pure _)

/-! ## Items up to the end of the buffer -/

def eachRound {α : Type} (item : Dec (α × Nat)) (st : List α × Nat) : Dec (List α × Nat) := do
  let (a, n) ← item
  pure (st.1 ++ [a], st.2 + n)

def eachCond {α : Type} (_ : List α × Nat) (src : Bytes) : Bool := !src.isEmpty

/-- `while src.has_remaining() { … }` over items, with the bytes read so far. -/
def decodeEach {α : Type} (item : Dec (α × Nat)) (bytesRead : Nat) : Dec (List α × Nat) :=
  whileLoop eachCond (eachRound item) ([], bytesRead)

end Mqtt
end Vaux
