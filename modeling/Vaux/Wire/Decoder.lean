import Mathlib

/-!
# Decoders over a byte cursor

A decoder reads from the front of a byte buffer.  It has three outcomes: a value
together with the bytes it left, an error of the caller's error type, or a panic.
The panic is an outcome of its own because a cursor in the style of Rust's `Buf`
aborts when it is asked for more bytes than it holds, and a parser that wants to
be safe has to keep away from that case by itself.

Every decoder carries the proof that what it leaves is a suffix of what it was
given, so no decoder can rewind or invent input, and a loop whose body reads at
least one byte terminates.

`Reads d c a` is the composition principle for round trips: `d` reads exactly the
chunk `c`, whatever follows it, and yields `a`.
-/

namespace Vaux
namespace Wire

abbrev Bytes := List UInt8

inductive Outcome (ε α : Type) where
  | ok (a : α)
  | err (e : ε)
  | panic
  deriving DecidableEq, Repr

namespace Outcome

variable {ε α β : Type}

def bind (x : Outcome ε α) (f : α → Outcome ε β) : Outcome ε β :=
  match x with
  | .ok a => f a
  | .err e => .err e
  | .panic => .panic

def map (f : α → β) (x : Outcome ε α) : Outcome ε β :=
  x.bind fun a => .ok (f a)

@[simp] theorem bind_ok (a : α) (f : α → Outcome ε β) : (ok a).bind f = f a := rfl

@[simp] theorem bind_err (e : ε) (f : α → Outcome ε β) : (err e).bind f = .err e := rfl

@[simp] theorem bind_panic (f : α → Outcome ε β) : (panic : Outcome ε α).bind f = .panic := rfl

@[simp] theorem map_ok (f : α → β) (a : α) : (ok a : Outcome ε α).map f = .ok (f a) := rfl

@[simp] theorem map_err (f : α → β) (e : ε) : (err e : Outcome ε α).map f = .err e := rfl

@[simp] theorem map_panic (f : α → β) : (panic : Outcome ε α).map f = .panic := rfl

theorem bind_eq_ok {x : Outcome ε α} {f : α → Outcome ε β} {b : β} :
    x.bind f = .ok b ↔ ∃ a, x = .ok a ∧ f a = .ok b := by
  cases x <;> simp

theorem bind_eq_panic {x : Outcome ε α} {f : α → Outcome ε β} :
    x.bind f = .panic ↔ x = .panic ∨ ∃ a, x = .ok a ∧ f a = .panic := by
  cases x <;> simp

theorem bind_eq_err {x : Outcome ε α} {f : α → Outcome ε β} {e : ε} :
    x.bind f = .err e ↔ x = .err e ∨ ∃ a, x = .ok a ∧ f a = .err e := by
  cases x <;> simp

/-- Rust's `?` on a `Result`. -/
def ofExcept : Except ε α → Outcome ε α
  | .ok a => .ok a
  | .error e => .err e

@[simp] theorem ofExcept_ok (a : α) : (ofExcept (.ok a) : Outcome ε α) = .ok a := rfl

@[simp] theorem ofExcept_error (e : ε) : (ofExcept (.error e) : Outcome ε α) = .err e := rfl

end Outcome

/-- A decoder with the guarantee that the bytes it leaves are the tail of the
bytes it was given. -/
structure Decoder (ε α : Type) where
  run : Bytes → Outcome ε (α × Bytes)
  suffix : ∀ {src : Bytes} {a : α} {rest : Bytes}, run src = .ok (a, rest) → rest <:+ src

namespace Decoder

variable {ε α β γ σ : Type}

@[ext] theorem ext {d d' : Decoder ε α} (h : ∀ src, d.run src = d'.run src) : d = d' := by
  cases d
  cases d'
  congr
  exact funext h

protected def pure (a : α) : Decoder ε α where
  run src := .ok (a, src)
  suffix h := by
    cases h
    exact List.suffix_refl _

protected def bind (d : Decoder ε α) (f : α → Decoder ε β) : Decoder ε β where
  run src := (d.run src).bind fun r => (f r.1).run r.2
  suffix h := by
    obtain ⟨r, hd, hf⟩ := Outcome.bind_eq_ok.mp h
    exact (Decoder.suffix _ hf).trans (d.suffix hd)

instance : Monad (Decoder ε) where
  pure := Decoder.pure
  bind := Decoder.bind

@[simp] theorem run_pure (a : α) (src : Bytes) :
    (pure a : Decoder ε α).run src = .ok (a, src) := rfl

@[simp] theorem run_bind (d : Decoder ε α) (f : α → Decoder ε β) (src : Bytes) :
    (d >>= f).run src = (d.run src).bind fun r => (f r.1).run r.2 := rfl

@[simp] theorem run_map (f : α → β) (d : Decoder ε α) (src : Bytes) :
    (f <$> d).run src = (d.run src).bind fun r => .ok (f r.1, r.2) := rfl

theorem id_map (d : Decoder ε α) : id <$> d = d := by
  ext src
  simp only [run_map, id_eq]
  cases d.run src <;> rfl

theorem bind_assoc (d : Decoder ε α) (f : α → Decoder ε β) (g : β → Decoder ε γ) :
    d >>= f >>= g = d >>= fun a => f a >>= g := by
  ext src
  simp only [run_bind]
  cases d.run src <;> rfl

instance : LawfulMonad (Decoder ε) :=
  LawfulMonad.mk' (Decoder ε) id_map (fun _ _ => rfl) bind_assoc

/-- Lift a result that reads nothing. -/
def lift (x : Outcome ε α) : Decoder ε α where
  run src := x.map fun a => (a, src)
  suffix h := by
    cases x with
    | ok a =>
        cases h
        exact List.suffix_refl _
    | err e => cases h
    | panic => cases h

def fail (e : ε) : Decoder ε α := lift (.err e)

@[simp] theorem run_lift (x : Outcome ε α) (src : Bytes) :
    (lift x).run src = x.map fun a => (a, src) := rfl

@[simp] theorem run_fail (e : ε) (src : Bytes) :
    (fail e : Decoder ε α).run src = .err e := rfl

/-- The number of bytes left. -/
def remaining : Decoder ε Nat where
  run src := .ok (src.length, src)
  suffix h := by
    cases h
    exact List.suffix_refl _

@[simp] theorem run_remaining (src : Bytes) :
    (remaining : Decoder ε Nat).run src = .ok (src.length, src) := rfl

/-- Everything that is left. -/
def takeAll : Decoder ε Bytes where
  run src := .ok (src, [])
  suffix h := by
    cases h
    exact List.nil_suffix

@[simp] theorem run_takeAll (src : Bytes) :
    (takeAll : Decoder ε Bytes).run src = .ok (src, []) := rfl

/-- The next `n` bytes, or the error `e` applied to the number of bytes there are. -/
def takeOr (n : Nat) (e : Nat → ε) : Decoder ε Bytes where
  run src := if src.length < n then .err (e src.length) else .ok (src.take n, src.drop n)
  suffix h := by
    split at h
    · cases h
    · cases h
      exact List.drop_suffix _ _

theorem run_takeOr (n : Nat) (e : Nat → ε) (src : Bytes) :
    (takeOr n e).run src =
      if src.length < n then .err (e src.length) else .ok (src.take n, src.drop n) := rfl

/-- The next `n` bytes of a cursor that aborts when it holds fewer. -/
def getBytes (n : Nat) : Decoder ε Bytes where
  run src := if src.length < n then .panic else .ok (src.take n, src.drop n)
  suffix h := by
    split at h
    · cases h
    · cases h
      exact List.drop_suffix _ _

theorem run_getBytes (n : Nat) (src : Bytes) :
    (getBytes n : Decoder ε Bytes).run src =
      if src.length < n then .panic else .ok (src.take n, src.drop n) := rfl

/-- The value big-endian bytes spell. -/
def beValue (c : Bytes) : Nat :=
  c.foldl (fun acc x => acc * 256 + x.toNat) 0

def getU8 : Decoder ε UInt8 := do
  let c ← getBytes 1
  pure (UInt8.ofNat (beValue c))

def getU16 : Decoder ε UInt16 := do
  let c ← getBytes 2
  pure (UInt16.ofNat (beValue c))

def getU32 : Decoder ε UInt32 := do
  let c ← getBytes 4
  pure (UInt32.ofNat (beValue c))

@[simp] theorem run_getU8_nil : (getU8 : Decoder ε UInt8).run [] = .panic := rfl

@[simp] theorem run_getU8_cons (x : UInt8) (src : Bytes) :
    (getU8 : Decoder ε UInt8).run (x :: src) = .ok (x, src) := by
  simp [getU8, run_getBytes, beValue]

/-! ## Exact reads -/

/-- `d` reads exactly the chunk `c`, whatever follows it, and yields `a`. -/
def Reads (d : Decoder ε α) (c : Bytes) (a : α) : Prop :=
  ∀ rest, d.run (c ++ rest) = .ok (a, rest)

theorem Reads.pure (a : α) : Reads (Pure.pure a : Decoder ε α) [] a :=
  fun _ => rfl

theorem Reads.bind {d : Decoder ε α} {f : α → Decoder ε β} {c c' : Bytes} {a : α} {b : β}
    (hd : Reads d c a) (hf : Reads (f a) c' b) : Reads (d >>= f) (c ++ c') b := by
  intro rest
  rw [run_bind, List.append_assoc, hd]
  exact hf rest

/-- A read followed by a step that reads nothing. -/
theorem Reads.bind_nil {d : Decoder ε α} {f : α → Decoder ε β} {c : Bytes} {a : α} {b : β}
    (hd : Reads d c a) (hf : Reads (f a) [] b) : Reads (d >>= f) c b := by
  simpa using hd.bind hf

theorem Reads.run_nil {d : Decoder ε α} {c : Bytes} {a : α} (h : Reads d c a) :
    d.run c = .ok (a, []) := by
  simpa using h []

theorem reads_lift_ok (a : α) : Reads (lift (.ok a) : Decoder ε α) [] a :=
  fun _ => rfl

theorem reads_getBytes (c : Bytes) : Reads (getBytes c.length : Decoder ε Bytes) c c := by
  intro rest
  simp [run_getBytes]

theorem reads_takeOr (c : Bytes) (e : Nat → ε) : Reads (takeOr c.length e) c c := by
  intro rest
  simp [run_takeOr]

theorem reads_getU8 (x : UInt8) : Reads (getU8 : Decoder ε UInt8) [x] x := by
  intro rest
  simp

end Decoder

/-! ## Big-endian integers -/

def putU16 (v : UInt16) : Bytes :=
  [UInt8.ofNat (v.toNat / 256), UInt8.ofNat (v.toNat % 256)]

def putU32 (v : UInt32) : Bytes :=
  [UInt8.ofNat (v.toNat / 16777216), UInt8.ofNat (v.toNat / 65536 % 256),
    UInt8.ofNat (v.toNat / 256 % 256), UInt8.ofNat (v.toNat % 256)]

@[simp] theorem putU16_length (v : UInt16) : (putU16 v).length = 2 := rfl

@[simp] theorem putU32_length (v : UInt32) : (putU32 v).length = 4 := rfl

theorem beValue_putU16 (v : UInt16) : Decoder.beValue (putU16 v) = v.toNat := by
  have hv := v.toNat_lt
  simp only [Decoder.beValue, putU16, List.foldl_cons, List.foldl_nil, UInt8.toNat_ofNat']
  omega

theorem beValue_putU32 (v : UInt32) : Decoder.beValue (putU32 v) = v.toNat := by
  have hv := v.toNat_lt
  simp only [Decoder.beValue, putU32, List.foldl_cons, List.foldl_nil, UInt8.toNat_ofNat']
  omega

theorem Decoder.reads_getU16 {ε : Type} (v : UInt16) :
    Reads (getU16 : Decoder ε UInt16) (putU16 v) v := by
  have h : Reads (getBytes 2 : Decoder ε Bytes) (putU16 v) (putU16 v) :=
    reads_getBytes (putU16 v)
  refine h.bind_nil ?_
  rw [beValue_putU16, UInt16.ofNat_toNat]
  exact Reads.pure v

theorem Decoder.reads_getU32 {ε : Type} (v : UInt32) :
    Reads (getU32 : Decoder ε UInt32) (putU32 v) v := by
  have h : Reads (getBytes 4 : Decoder ε Bytes) (putU32 v) (putU32 v) :=
    reads_getBytes (putU32 v)
  refine h.bind_nil ?_
  rw [beValue_putU32, UInt32.ofNat_toNat]
  exact Reads.pure v

end Wire
end Vaux
