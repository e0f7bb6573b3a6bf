import Vaux.Mqtt.Types

/-!
# Variable byte integers

`encode_variable_byte_int`, `decode_variable_byte_int` and
`variable_byte_int_size` of `codec/mod.rs`.  The decoder tests its shift after it
has taken the byte that ends the number, so a number of four bytes is refused
although the encoder writes it: what can be read back is what fits three bytes.
-/

namespace Vaux
namespace Mqtt

open Wire

def maxVariableByteInt : UInt32 := 268435455

def variableByteIntSize (value : UInt32) : UInt32 :=
  if value ≤ 127 then 1
  else if value ≤ 16383 then 2
  else if value ≤ 2097151 then 3
  else 4

/-- The `while encode` loop.  Five rounds use up a `u32`. -/
def encodeVariableByteIntLoop : Nat → UInt32 → Bytes
  | 0, _ => []
  | fuel + 1, inputVal =>
    let nextByte := (inputVal % 0x80).toUInt8
    let inputVal := inputVal >>> 7
    if inputVal > 0 then (nextByte ||| 0x80) :: encodeVariableByteIntLoop fuel inputVal
    else [nextByte]

def encodeVariableByteInt (val : UInt32) : Enc :=
  .ok (encodeVariableByteIntLoop 5 val)

def varIntInsufficient : MqttCodecError :=
  .newWithKind "Insufficient data for variable byte integer" (.insufficientData 1 0)

def varIntMalformed : MqttCodecError :=
  .new "malformed packet: variable byte integer"

/-- The `while decode` loop, entered with the byte it is about to add. -/
def decodeVariableByteIntLoop (result : UInt32) (shift : Nat) (nextByte : UInt8) (src : Bytes) :
    Outcome MqttCodecError ((UInt32 × Nat) × Bytes) :=
  let result := result + ((nextByte &&& 0x7f).toUInt32 <<< UInt32.ofNat shift)
  let shift := shift + 7
  if nextByte &&& 0x80 = 0 then
    if shift > 21 then .err varIntMalformed else .ok ((result, shift / 7), src)
  else
    match src with
    | [] => .err varIntInsufficient
    | next :: src =>
      if shift > 21 then .err varIntMalformed
      else decodeVariableByteIntLoop result shift next src

theorem decodeVariableByteIntLoop_suffix {result : UInt32} {shift : Nat} {nextByte : UInt8}
    {src : Bytes} {a : UInt32 × Nat} {rest : Bytes}
    (h : decodeVariableByteIntLoop result shift nextByte src = .ok (a, rest)) : rest <:+ src := by
  induction src generalizing result shift nextByte with
  | nil =>
      rw [decodeVariableByteIntLoop] at h
      split at h
      · split at h
        · cases h
        · cases h
          exact List.suffix_refl _
      · cases h
  | cons next src ih =>
      rw [decodeVariableByteIntLoop] at h
      split at h
      · split at h
        · cases h
        · cases h
          exact List.suffix_refl _
      · split at h
        · cases h
        · exact (ih h).trans (List.suffix_cons _ _)

def decodeVariableByteInt : Dec (UInt32 × Nat) where
  run
    | [] => .err varIntInsufficient
    | next :: src => decodeVariableByteIntLoop 0 0 next src
  suffix := by
    intro src a rest h
    cases src with
    | nil => cases h
    | cons next src => exact (decodeVariableByteIntLoop_suffix h).trans (List.suffix_cons _ _)

/-! ## The shape of an encoded number -/

/-- Only the last byte has its top bit clear. -/
def VarIntBytes (c : Bytes) : Prop :=
  ∃ init last, c = init ++ [last] ∧ (∀ x ∈ init, 128 ≤ x.toNat) ∧ last.toNat < 128

/-- The number the bytes spell, seven bits each, least significant first. -/
def varIntValue : Bytes → Nat
  | [] => 0
  | x :: c => x.toNat % 128 + 128 * varIntValue c

/-- `b` starts with `n` bytes of which only the last has its top bit clear. -/
def StartsWithVarInt (n : Nat) (b : Bytes) : Prop :=
  ∃ c rest, b = c ++ rest ∧ VarIntBytes c ∧ c.length = n

theorem topBit_clear_iff (x : UInt8) : x &&& 0x80 = 0 ↔ x.toNat < 128 := by
  have hx := x.toNat_lt
  rw [← UInt8.toNat_inj, UInt8.toNat_and]
  show x.toNat &&& 2 ^ 7 = 0 ↔ _
  rw [Nat.and_two_pow, Nat.testBit_eq_decide_div_mod_eq]
  by_cases h : x.toNat < 128
  · have hd : x.toNat / 128 % 2 = 0 := by omega
    simp [hd, h]
  · have hd : x.toNat / 128 % 2 = 1 := by omega
    simp [hd, h]

theorem low7_toNat (x : UInt8) : (x &&& 0x7f).toNat = x.toNat % 128 := by
  rw [UInt8.toNat_and]
  exact Nat.and_two_pow_sub_one_eq_mod x.toNat 7

theorem VarIntBytes.ne_nil {c : Bytes} (h : VarIntBytes c) : c ≠ [] := by
  obtain ⟨init, last, rfl, -, -⟩ := h
  simp

theorem varIntBytes_singleton {x : UInt8} (hx : x.toNat < 128) : VarIntBytes [x] :=
  ⟨[], x, rfl, by simp, hx⟩

theorem VarIntBytes.cons {x : UInt8} {c : Bytes} (hx : 128 ≤ x.toNat) (h : VarIntBytes c) :
    VarIntBytes (x :: c) := by
  obtain ⟨init, last, rfl, hinit, hlast⟩ := h
  refine ⟨x :: init, last, rfl, ?_, hlast⟩
  intro y hy
  rcases List.mem_cons.mp hy with rfl | hy
  · exact hx
  · exact hinit y hy

/-- The head of a number decides how it goes on. -/
theorem varIntBytes_cons_iff {x : UInt8} {c : Bytes} :
    VarIntBytes (x :: c) ↔ (x.toNat < 128 ∧ c = []) ∨ (128 ≤ x.toNat ∧ VarIntBytes c) := by
  constructor
  · rintro ⟨init, last, heq, hinit, hlast⟩
    cases init with
    | nil =>
        cases heq
        exact Or.inl ⟨hlast, rfl⟩
    | cons y init =>
        cases heq
        exact Or.inr ⟨hinit x List.mem_cons_self, init, last, rfl,
          fun z hz => hinit z (List.mem_cons_of_mem _ hz), hlast⟩
  · rintro (⟨hx, rfl⟩ | ⟨hx, hc⟩)
    · exact varIntBytes_singleton hx
    · exact hc.cons hx

/-- Numbers are a prefix code. -/
theorem VarIntBytes.prefix_unique {c c' rest rest' : Bytes} (hc : VarIntBytes c)
    (hc' : VarIntBytes c') (h : c ++ rest = c' ++ rest') : c = c' ∧ rest = rest' := by
  induction c generalizing c' with
  | nil => exact absurd rfl hc.ne_nil
  | cons x c ih =>
      cases c' with
      | nil => exact absurd rfl hc'.ne_nil
      | cons x' c' =>
          obtain ⟨rfl, htail⟩ := List.cons.inj h
          rcases varIntBytes_cons_iff.mp hc with ⟨hx, rfl⟩ | ⟨hx, hc⟩
          · rcases varIntBytes_cons_iff.mp hc' with ⟨-, rfl⟩ | ⟨hx', -⟩
            · exact ⟨rfl, htail⟩
            · omega
          · rcases varIntBytes_cons_iff.mp hc' with ⟨hx', -⟩ | ⟨-, hc'⟩
            · omega
            · obtain ⟨rfl, rfl⟩ := ih hc hc' htail
              exact ⟨rfl, rfl⟩

/-! ## What the decoder does -/

theorem ofNat_add_low7 (n k : Nat) (hk : 7 * k < 32) (x : UInt8) :
    UInt32.ofNat n + ((x &&& 0x7f).toUInt32 <<< UInt32.ofNat (7 * k)) =
      UInt32.ofNat (n + x.toNat % 128 * 128 ^ k) := by
  have hshift : (UInt32.ofNat (7 * k)).toNat % 32 = 7 * k := by
    rw [UInt32.toNat_ofNat']
    omega
  have hpow : (2 : Nat) ^ (7 * k) = 128 ^ k := by
    rw [Nat.pow_mul]
  apply UInt32.toNat_inj.mp
  rw [UInt32.toNat_add, UInt32.toNat_shiftLeft, hshift, UInt8.toNat_toUInt32, low7_toNat,
    UInt32.toNat_ofNat', UInt32.toNat_ofNat', Nat.shiftLeft_eq, hpow]
  simp

theorem decodeVariableByteIntLoop_last {r : UInt32} {shift : Nat} {x : UInt8} {src : Bytes}
    (hx : x.toNat < 128) :
    decodeVariableByteIntLoop r shift x src =
      if shift + 7 > 21 then .err varIntMalformed
      else .ok ((r + ((x &&& 0x7f).toUInt32 <<< UInt32.ofNat shift), (shift + 7) / 7), src) := by
  rw [decodeVariableByteIntLoop.eq_def]
  simp [(topBit_clear_iff x).mpr hx]

theorem decodeVariableByteIntLoop_more {r : UInt32} {shift : Nat} {x y : UInt8} {src : Bytes}
    (hx : 128 ≤ x.toNat) :
    decodeVariableByteIntLoop r shift x (y :: src) =
      if shift + 7 > 21 then .err varIntMalformed
      else decodeVariableByteIntLoop (r + ((x &&& 0x7f).toUInt32 <<< UInt32.ofNat shift))
        (shift + 7) y src := by
  have htop : ¬ (x &&& 0x80 = 0) := by
    rw [topBit_clear_iff]
    omega
  rw [decodeVariableByteIntLoop]
  simp [htop]

theorem decodeVariableByteIntLoop_end {r : UInt32} {shift : Nat} {x : UInt8}
    (hx : 128 ≤ x.toNat) :
    decodeVariableByteIntLoop r shift x [] = .err varIntInsufficient := by
  have htop : ¬ (x &&& 0x80 = 0) := by
    rw [topBit_clear_iff]
    omega
  rw [decodeVariableByteIntLoop]
  simp [htop]

/-- Numbers that end within the third byte are accepted. -/
theorem decodeVariableByteIntLoop_accept {c : Bytes} (rest : Bytes) {x : UInt8} (n k : Nat)
    (h : VarIntBytes (x :: c)) (hlen : k + (x :: c).length ≤ 3) :
    decodeVariableByteIntLoop (UInt32.ofNat n) (7 * k) x (c ++ rest) =
      .ok ((UInt32.ofNat (n + 128 ^ k * varIntValue (x :: c)), k + (x :: c).length), rest) := by
  induction c generalizing x n k with
  | nil =>
      simp only [List.length_cons, List.length_nil] at hlen
      have hx : x.toNat < 128 := by
        rcases varIntBytes_cons_iff.mp h with ⟨hx, -⟩ | ⟨-, hc⟩
        · exact hx
        · exact absurd rfl hc.ne_nil
      rw [decodeVariableByteIntLoop_last hx, if_neg (by omega), ofNat_add_low7 n k (by omega)]
      have hdiv : (7 * k + 7) / 7 = k + 1 := by omega
      simp only [hdiv, varIntValue, Nat.mul_zero, Nat.add_zero, List.length_cons, List.length_nil,
        List.nil_append]
      rw [Nat.mul_comm (128 ^ k)]
  | cons y c ih =>
      simp only [List.length_cons] at hlen
      obtain ⟨hx, hc⟩ : 128 ≤ x.toNat ∧ VarIntBytes (y :: c) := by
        rcases varIntBytes_cons_iff.mp h with ⟨-, hc⟩ | hc
        · cases hc
        · exact hc
      have hval : n + x.toNat % 128 * 128 ^ k + 128 ^ (k + 1) * varIntValue (y :: c) =
          n + 128 ^ k * varIntValue (x :: y :: c) := by
        simp only [varIntValue, Nat.pow_succ]
        ring
      rw [List.cons_append, decodeVariableByteIntLoop_more hx, if_neg (by omega),
        ofNat_add_low7 n k (by omega), show 7 * k + 7 = 7 * (k + 1) by omega,
        ih (n + x.toNat % 128 * 128 ^ k) (k + 1) hc (by simp only [List.length_cons]; omega), hval]
      simp only [List.length_cons, Outcome.ok.injEq, Prod.mk.injEq, and_true, true_and]
      omega

/-- Bytes that all announce a successor, at most four of them, are too few. -/
theorem decodeVariableByteIntLoop_starve {c : Bytes} {x : UInt8} (r : UInt32) (k : Nat)
    (h : ∀ y ∈ x :: c, 128 ≤ y.toNat) (hlen : k + (x :: c).length ≤ 4) :
    decodeVariableByteIntLoop r (7 * k) x c = .err varIntInsufficient := by
  have hx : 128 ≤ x.toNat := h x List.mem_cons_self
  induction c generalizing x r k with
  | nil => exact decodeVariableByteIntLoop_end hx
  | cons y c ih =>
      simp only [List.length_cons] at hlen
      have hy : 128 ≤ y.toNat := h y (List.mem_cons_of_mem _ List.mem_cons_self)
      rw [decodeVariableByteIntLoop_more hx, if_neg (by omega),
        show 7 * k + 7 = 7 * (k + 1) by omega]
      refine ih _ (k + 1) (fun z hz => h z (List.mem_cons_of_mem _ hz)) ?_ hy
      simp only [List.length_cons]
      omega

/-- What is neither is malformed: four bytes or more are needed to end it. -/
theorem decodeVariableByteIntLoop_malformed {src : Bytes} {x : UInt8} (r : UInt32) (k : Nat)
    (hk : k ≤ 3) (haccept : ∀ c rest, x :: src = c ++ rest → VarIntBytes c → 3 < k + c.length)
    (hstarve : ¬ ((∀ y ∈ x :: src, 128 ≤ y.toNat) ∧ k + (x :: src).length ≤ 4)) :
    decodeVariableByteIntLoop r (7 * k) x src = .err varIntMalformed := by
  induction src generalizing x r k with
  | nil =>
      by_cases hx : x.toNat < 128
      · have h3 := haccept [x] [] rfl (varIntBytes_singleton hx)
        simp only [List.length_cons, List.length_nil] at h3
        rw [decodeVariableByteIntLoop_last hx, if_pos (by omega)]
      · exfalso
        apply hstarve
        simp only [List.mem_singleton, forall_eq, List.length_cons, List.length_nil]
        omega
  | cons y src ih =>
      by_cases hx : x.toNat < 128
      · have h3 := haccept [x] (y :: src) rfl (varIntBytes_singleton hx)
        simp only [List.length_cons, List.length_nil] at h3
        rw [decodeVariableByteIntLoop_last hx, if_pos (by omega)]
      · rw [decodeVariableByteIntLoop_more (by omega)]
        by_cases h3 : k = 3
        · rw [if_pos (by omega)]
        · rw [if_neg (by omega), show 7 * k + 7 = 7 * (k + 1) by omega]
          apply ih _ (k + 1) (by omega)
          · intro c rest hc hv
            have := haccept (x :: c) rest (by rw [List.cons_append, ← hc]) (hv.cons (by omega))
            simp only [List.length_cons] at this
            omega
          · rintro ⟨hall, hlen⟩
            apply hstarve
            simp only [List.length_cons] at hlen ⊢
            refine ⟨?_, by omega⟩
            intro z hz
            rcases List.mem_cons.mp hz with rfl | hz
            · omega
            · exact hall z hz

theorem reads_decodeVariableByteInt {c : Bytes} (h : VarIntBytes c) (hlen : c.length ≤ 3) :
    Decoder.Reads decodeVariableByteInt c (UInt32.ofNat (varIntValue c), c.length) := by
  intro rest
  cases c with
  | nil => exact absurd rfl h.ne_nil
  | cons x c =>
      have hloop := decodeVariableByteIntLoop_accept rest 0 0 h (by omega)
      simp only [Nat.pow_zero, Nat.one_mul, Nat.zero_add] at hloop
      exact hloop

theorem decodeVariableByteInt_starve {b : Bytes} (h : ∀ y ∈ b, 128 ≤ y.toNat)
    (hlen : b.length ≤ 4) : decodeVariableByteInt.run b = .err varIntInsufficient := by
  cases b with
  | nil => rfl
  | cons x b => exact decodeVariableByteIntLoop_starve 0 0 h (by omega)

theorem decodeVariableByteInt_malformed {b : Bytes}
    (haccept : ∀ c rest, b = c ++ rest → VarIntBytes c → 3 < c.length)
    (hstarve : ¬ ((∀ y ∈ b, 128 ≤ y.toNat) ∧ b.length ≤ 4)) :
    decodeVariableByteInt.run b = .err varIntMalformed := by
  cases b with
  | nil =>
      exfalso
      apply hstarve
      simp
  | cons x b =>
      apply decodeVariableByteIntLoop_malformed 0 0 (by omega)
      · intro c rest hc hv
        have := haccept c rest hc hv
        omega
      · rintro ⟨hall, hlen⟩
        exact hstarve ⟨hall, by omega⟩

theorem varIntInsufficient_insufficient : varIntInsufficient.insufficient :=
  ⟨1, 0, rfl⟩

theorem varIntMalformed_not_insufficient : ¬ varIntMalformed.insufficient := by
  simp [varIntMalformed]

/-- The decoder accepts exactly the numbers of up to three bytes. -/
theorem decodeVariableByteInt_ok_iff {b : Bytes} {a : UInt32 × Nat} {rest : Bytes} :
    decodeVariableByteInt.run b = .ok (a, rest) ↔
      ∃ c, b = c ++ rest ∧ VarIntBytes c ∧ c.length ≤ 3 ∧
        a = (UInt32.ofNat (varIntValue c), c.length) := by
  constructor
  · intro h
    by_cases haccept : ∃ c rest', b = c ++ rest' ∧ VarIntBytes c ∧ c.length ≤ 3
    · obtain ⟨c, rest', rfl, hc, hlen⟩ := haccept
      rw [reads_decodeVariableByteInt hc hlen rest'] at h
      cases h
      exact ⟨c, rfl, hc, hlen, rfl⟩
    · have haccept' : ∀ c rest, b = c ++ rest → VarIntBytes c → 3 < c.length := by
        intro c rest' hb hc
        by_contra hlen
        exact haccept ⟨c, rest', hb, hc, by omega⟩
      by_cases hstarve : (∀ y ∈ b, 128 ≤ y.toNat) ∧ b.length ≤ 4
      · rw [decodeVariableByteInt_starve hstarve.1 hstarve.2] at h
        cases h
      · rw [decodeVariableByteInt_malformed haccept' hstarve] at h
        cases h
  · rintro ⟨c, rfl, hc, hlen, rfl⟩
    exact reads_decodeVariableByteInt hc hlen rest

/-! ## What the encoder writes -/

theorem low7_byte_toNat (v : UInt32) : ((v % 0x80).toUInt8).toNat = v.toNat % 128 := by
  rw [UInt32.toNat_toUInt8, UInt32.toNat_mod]
  show v.toNat % 128 % 256 = _
  omega

theorem or_topBit_toNat {x : UInt8} (hx : x.toNat < 128) : (x ||| 0x80).toNat = x.toNat + 128 := by
  rw [UInt8.toNat_or]
  show x.toNat ||| 128 = _
  have h := Nat.two_pow_add_eq_or_of_lt (i := 7) hx 1
  simp only [Nat.mul_one] at h
  rw [Nat.or_comm, ← h]
  omega

theorem shiftRight7_toNat (v : UInt32) : (v >>> 7).toNat = v.toNat / 128 := by
  rw [UInt32.toNat_shiftRight]
  show v.toNat >>> 7 = _
  rw [Nat.shiftRight_eq_div_pow]

/-- The loop writes the shortest number that spells its argument. -/
theorem encodeVariableByteIntLoop_spec (fuel : Nat) (v : UInt32) (h : v.toNat < 128 ^ (fuel + 1)) :
    VarIntBytes (encodeVariableByteIntLoop (fuel + 1) v) ∧
      varIntValue (encodeVariableByteIntLoop (fuel + 1) v) = v.toNat ∧
      ∀ k, (encodeVariableByteIntLoop (fuel + 1) v).length ≤ k + 1 ↔ v.toNat < 128 ^ (k + 1) := by
  induction fuel generalizing v with
  | zero =>
      have hv : v.toNat < 128 := by simpa using h
      have hs : ¬ (v >>> 7 > 0) := by
        rw [gt_iff_lt, UInt32.lt_iff_toNat_lt, shiftRight7_toNat]
        simp only [UInt32.toNat_zero]
        omega
      have heq : encodeVariableByteIntLoop 1 v = [(v % 0x80).toUInt8] := by
        rw [encodeVariableByteIntLoop]
        simp [hs]
      rw [heq]
      refine ⟨varIntBytes_singleton ?_, ?_, ?_⟩
      · rw [low7_byte_toNat]
        omega
      · simp only [varIntValue, low7_byte_toNat]
        omega
      · intro k
        have : 128 ≤ 128 ^ (k + 1) := Nat.le_self_pow (by omega) 128
        simp only [List.length_cons, List.length_nil]
        omega
  | succ fuel ih =>
      rw [encodeVariableByteIntLoop]
      by_cases hs : v >>> 7 > 0
      · have hpos : 0 < v.toNat / 128 := by
          rw [gt_iff_lt, UInt32.lt_iff_toNat_lt, shiftRight7_toNat] at hs
          simpa using hs
        have hlt : (v >>> 7).toNat < 128 ^ (fuel + 1) := by
          rw [shiftRight7_toNat, Nat.div_lt_iff_lt_mul (by omega), ← Nat.pow_succ]
          exact h
        obtain ⟨hbytes, hval, hlen⟩ := ih (v >>> 7) hlt
        have hlow : ((v % 0x80).toUInt8).toNat < 128 := by
          rw [low7_byte_toNat]
          omega
        simp only [hs, if_true]
        refine ⟨hbytes.cons ?_, ?_, ?_⟩
        · rw [or_topBit_toNat hlow]
          omega
        · rw [varIntValue, hval, or_topBit_toNat hlow, low7_byte_toNat, shiftRight7_toNat]
          omega
        · intro k
          cases k with
          | zero =>
              have : 0 < (encodeVariableByteIntLoop (fuel + 1) (v >>> 7)).length :=
                List.length_pos_iff.mpr hbytes.ne_nil
              simp only [List.length_cons]
              omega
          | succ k =>
              rw [List.length_cons, Nat.add_le_add_iff_right, hlen k, shiftRight7_toNat,
                Nat.div_lt_iff_lt_mul (by omega), ← Nat.pow_succ]
      · have hzero : v.toNat / 128 = 0 := by
          rw [gt_iff_lt, UInt32.lt_iff_toNat_lt, shiftRight7_toNat] at hs
          simpa using hs
        simp only [hs, if_false]
        refine ⟨varIntBytes_singleton ?_, ?_, ?_⟩
        · rw [low7_byte_toNat]
          omega
        · simp only [varIntValue, low7_byte_toNat]
          omega
        · intro k
          have : 128 ≤ 128 ^ (k + 1) := Nat.le_self_pow (by omega) 128
          simp only [List.length_cons, List.length_nil]
          omega

/-- The bytes written for `val`. -/
def varIntEncoding (val : UInt32) : Bytes := encodeVariableByteIntLoop 5 val

theorem encodeVariableByteInt_eq (val : UInt32) :
    encodeVariableByteInt val = .ok (varIntEncoding val) := rfl

theorem varIntEncoding_spec (v : UInt32) :
    VarIntBytes (varIntEncoding v) ∧ varIntValue (varIntEncoding v) = v.toNat ∧
      ∀ k, (varIntEncoding v).length ≤ k + 1 ↔ v.toNat < 128 ^ (k + 1) :=
  encodeVariableByteIntLoop_spec 4 v (by have := v.toNat_lt; omega)

theorem varIntEncoding_length_le_three {v : UInt32} :
    (varIntEncoding v).length ≤ 3 ↔ v.toNat ≤ 2097151 := by
  have := (varIntEncoding_spec v).2.2 2
  omega

theorem varIntEncoding_length_pos (v : UInt32) : 0 < (varIntEncoding v).length :=
  List.length_pos_iff.mpr (varIntEncoding_spec v).1.ne_nil

theorem varIntEncoding_length_le_five (v : UInt32) : (varIntEncoding v).length ≤ 5 := by
  refine ((varIntEncoding_spec v).2.2 4).mpr ?_
  have := v.toNat_lt
  omega

/-- Up to the maximum the size table agrees with the loop. -/
theorem varIntEncoding_length {v : UInt32} (h : v ≤ maxVariableByteInt) :
    (varIntEncoding v).length = (variableByteIntSize v).toNat := by
  have hspec := (varIntEncoding_spec v).2.2
  have h1 := hspec 0
  have h2 := hspec 1
  have h3 := hspec 2
  have h4 := hspec 3
  have hpos := varIntEncoding_length_pos v
  rw [UInt32.le_iff_toNat_le] at h
  have hmax : maxVariableByteInt.toNat = 268435455 := rfl
  simp only [variableByteIntSize, UInt32.le_iff_toNat_le]
  have e1 : (127 : UInt32).toNat = 127 := rfl
  have e2 : (16383 : UInt32).toNat = 16383 := rfl
  have e3 : (2097151 : UInt32).toNat = 2097151 := rfl
  rw [e1, e2, e3]
  split
  · show _ = 1
    omega
  · split
    · show _ = 2
      omega
    · split
      · show _ = 3
        omega
      · show _ = 4
        omega

theorem reads_varIntEncoding {v : UInt32} (h : v.toNat ≤ 2097151) :
    Decoder.Reads decodeVariableByteInt (varIntEncoding v) (v, (varIntEncoding v).length) := by
  have hspec := varIntEncoding_spec v
  have := reads_decodeVariableByteInt hspec.1 (varIntEncoding_length_le_three.mpr h)
  rwa [hspec.2.1, UInt32.ofNat_toNat] at this

/-- A number that needs a fourth byte is refused. -/
theorem decodeVariableByteInt_varIntEncoding_large {v : UInt32} (h : 2097151 < v.toNat)
    (rest : Bytes) :
    decodeVariableByteInt.run (varIntEncoding v ++ rest) = .err varIntMalformed := by
  have hspec := varIntEncoding_spec v
  have hlen : ¬ (varIntEncoding v).length ≤ 3 := by
    rw [varIntEncoding_length_le_three]
    omega
  apply decodeVariableByteInt_malformed
  · intro c rest' hc hv
    obtain ⟨rfl, -⟩ := hspec.1.prefix_unique hv hc
    omega
  · rintro ⟨hall, -⟩
    obtain ⟨init, last, heq, -, hlast⟩ := hspec.1
    have := hall last (by simp [heq])
    omega

/-! ## The law of encoder, decoder and size table -/

/-- `v` is written in as many bytes as the size table says and read back from
them, whatever follows. -/
def VarIntRoundTrips (v : UInt32) : Prop :=
  ∃ e, encodeVariableByteInt v = .ok e ∧ e.length = (variableByteIntSize v).toNat ∧
    ∀ s, decodeVariableByteInt.run (e ++ s) = .ok ((v, (variableByteIntSize v).toNat), s)

/-- The decoder accepts `b` exactly if it starts with one to four bytes of which
only the last has its top bit clear. -/
def VarIntAcceptance (b : Bytes) : Prop :=
  (∃ r, decodeVariableByteInt.run b = .ok r) ↔ ∃ n, 1 ≤ n ∧ n ≤ 4 ∧ StartsWithVarInt n b

theorem varIntRoundTrips_iff {v : UInt32} (hv : v ≤ maxVariableByteInt) :
    VarIntRoundTrips v ↔ v.toNat ≤ 2097151 := by
  constructor
  · rintro ⟨e, he, -, hdecode⟩
    obtain rfl : e = varIntEncoding v := (Except.ok.inj he).symm
    by_contra hlarge
    have hd := hdecode []
    rw [decodeVariableByteInt_varIntEncoding_large (by omega)] at hd
    cases hd
  · intro hsmall
    refine ⟨varIntEncoding v, rfl, varIntEncoding_length hv, fun s => ?_⟩
    rw [← varIntEncoding_length hv]
    exact reads_varIntEncoding hsmall s

theorem varIntAcceptance_iff (b : Bytes) : VarIntAcceptance b ↔ ¬ StartsWithVarInt 4 b := by
  have haccepts : (∃ r, decodeVariableByteInt.run b = .ok r) ↔
      ∃ n, 1 ≤ n ∧ n ≤ 3 ∧ StartsWithVarInt n b := by
    constructor
    · rintro ⟨⟨a, rest⟩, h⟩
      obtain ⟨c, hb, hc, hlen, -⟩ := decodeVariableByteInt_ok_iff.mp h
      exact ⟨c.length, List.length_pos_iff.mpr hc.ne_nil, hlen, c, rest, hb, hc, rfl⟩
    · rintro ⟨n, -, hn, c, rest, hb, hc, rfl⟩
      exact ⟨_, decodeVariableByteInt_ok_iff.mpr ⟨c, hb, hc, hn, rfl⟩⟩
  rw [VarIntAcceptance, haccepts]
  constructor
  · rintro h ⟨c, rest, hb, hc, hlen⟩
    obtain ⟨n, -, hn, c', rest', hb', hc', hlen'⟩ :=
      h.mpr ⟨4, by omega, by omega, c, rest, hb, hc, hlen⟩
    obtain ⟨rfl, -⟩ := hc.prefix_unique hc' (hb.symm.trans hb')
    omega
  · intro h4
    constructor
    · rintro ⟨n, h1, h3, hn⟩
      exact ⟨n, h1, by omega, hn⟩
    · rintro ⟨n, h1, hle, hn⟩
      refine ⟨n, h1, ?_, hn⟩
      by_contra hgt
      obtain rfl : n = 4 := by omega
      exact h4 hn

/-- Encoder, decoder and size table agree exactly below the fourth byte. -/
theorem variableByteInt_law (v : UInt32) (b : Bytes) :
    (v ≤ maxVariableByteInt →
      (encodeVariableByteInt v = .ok (varIntEncoding v) ∧
        (varIntEncoding v).length = (variableByteIntSize v).toNat) ∧
      (VarIntRoundTrips v ↔ v.toNat ≤ 2097151)) ∧
    (VarIntAcceptance b ↔ ¬ StartsWithVarInt 4 b) :=
  ⟨fun hv => ⟨⟨rfl, varIntEncoding_length hv⟩, varIntRoundTrips_iff hv⟩, varIntAcceptance_iff b⟩

theorem variableByteInt_law_small : VarIntRoundTrips 2097151 :=
  (((variableByteInt_law 2097151 []).1 (by decide)).2).mpr (Nat.le_refl 2097151)

/-- The first number of four bytes is written and not read back. -/
theorem variableByteInt_four_bytes :
    (2097152 : UInt32) ≤ maxVariableByteInt ∧
      encodeVariableByteInt 2097152 = .ok [0x80, 0x80, 0x80, 0x01] ∧
      decodeVariableByteInt.run [0x80, 0x80, 0x80, 0x01] = .err varIntMalformed ∧
      ¬ VarIntRoundTrips 2097152 ∧ ¬ VarIntAcceptance [0x80, 0x80, 0x80, 0x01] := by
  refine ⟨by decide, by decide, by decide, ?_, ?_⟩
  · rw [varIntRoundTrips_iff (by decide)]
    decide
  · rw [varIntAcceptance_iff, not_not]
    have hv : VarIntBytes [0x80, 0x80, 0x80, 0x01] := by
      refine ⟨[0x80, 0x80, 0x80], 0x01, rfl, ?_, by simp⟩
      simp
    exact ⟨[0x80, 0x80, 0x80, 0x01], [], rfl, hv, rfl⟩

end Mqtt
end Vaux
