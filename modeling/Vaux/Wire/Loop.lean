import Vaux.Wire.Decoder

/-!
# Loops of a decoder

`whileLoop cond body s` runs `body` on the state `s` for as long as `cond` holds
of the state and the bytes left, which is the shape of Rust's
`while c { … src.get_u8() … }`.

The definition is by recursion on a fuel of one more than the number of bytes
present.  A body that reads at least one byte per round (`Progress`) cannot use
that fuel up, so under `Progress` the loop satisfies the unfolding equation
`whileLoop_eq` of the real loop and the fuel is never mentioned again.

The heads of a loop are the states it passes through at the test of its
condition.  A loop that returns, returns its last head (`whileLoop_ok_iff`), and
a property of the first head that every round preserves holds at every head
(`Heads.invariant`).
-/

namespace Vaux
namespace Wire
namespace Decoder

variable {ε σ : Type}

def loop (cond : σ → Bytes → Bool) (body : σ → Decoder ε σ) : Nat → σ → Decoder ε σ
  | 0, s =>
    { run := fun src => if cond s src then .panic else .ok (s, src)
      suffix := by
        intro src a rest h
        split at h
        · cases h
        · cases h
          exact List.suffix_refl _ }
  | n + 1, s =>
    { run := fun src =>
        if cond s src then (body s >>= loop cond body n).run src else .ok (s, src)
      suffix := by
        intro src a rest h
        split at h
        · exact Decoder.suffix _ h
        · cases h
          exact List.suffix_refl _ }

/-- `while cond { body }`. -/
def whileLoop (cond : σ → Bytes → Bool) (body : σ → Decoder ε σ) (s : σ) : Decoder ε σ where
  run src := (loop cond body (src.length + 1) s).run src
  suffix h := Decoder.suffix _ h

/-- Every round that succeeds reads at least one byte. -/
def Progress (body : σ → Decoder ε σ) : Prop :=
  ∀ s src s' rest, (body s).run src = .ok (s', rest) → rest.length < src.length

section

variable {cond : σ → Bytes → Bool} {body : σ → Decoder ε σ}

theorem loop_succ_run (n : Nat) (s : σ) (src : Bytes) :
    (loop cond body (n + 1) s).run src =
      if cond s src then (body s >>= loop cond body n).run src else .ok (s, src) := rfl

theorem loop_fuel (hp : Progress body) :
    ∀ (n m : Nat) (s : σ) (src : Bytes), src.length < n → src.length < m →
      (loop cond body n s).run src = (loop cond body m s).run src := by
  intro n
  induction n with
  | zero => intro m s src hn; omega
  | succ n ih =>
      intro m s src hn hm
      obtain ⟨m, rfl⟩ : ∃ k, m = k + 1 := ⟨m - 1, by omega⟩
      rw [loop_succ_run, loop_succ_run]
      split
      · rw [run_bind, run_bind]
        cases hb : (body s).run src with
        | ok r =>
            have hlt := hp s src r.1 r.2 hb
            exact ih m r.1 r.2 (by omega) (by omega)
        | err e => rfl
        | panic => rfl
      · rfl

/-- The loop unfolds like the loop of the source. -/
theorem whileLoop_eq (hp : Progress body) (s : σ) (src : Bytes) :
    (whileLoop cond body s).run src =
      if cond s src then (body s >>= whileLoop cond body).run src else .ok (s, src) := by
  show (loop cond body (src.length + 1) s).run src = _
  rw [loop_succ_run]
  split
  · rw [run_bind, run_bind]
    cases hb : (body s).run src with
    | ok r =>
        have hlt := hp s src r.1 r.2 hb
        exact loop_fuel hp src.length (r.2.length + 1) r.1 r.2 hlt (by omega)
    | err e => rfl
    | panic => rfl
  · rfl

/-- One round. -/
def Round (cond : σ → Bytes → Bool) (body : σ → Decoder ε σ) (p q : σ × Bytes) : Prop :=
  cond p.1 p.2 = true ∧ (body p.1).run p.2 = .ok q

/-- `q` is a head of the loop entered at `p`. -/
def Heads (cond : σ → Bytes → Bool) (body : σ → Decoder ε σ) : σ × Bytes → σ × Bytes → Prop :=
  Relation.ReflTransGen (Round cond body)

/-- What the first head satisfies and every round preserves holds at every head. -/
theorem Heads.invariant (Inv : σ × Bytes → Prop) {p q : σ × Bytes}
    (h : Heads cond body p q) (h0 : Inv p)
    (hstep : ∀ a b, Round cond body a b → Inv a → Inv b) : Inv q := by
  induction h with
  | refl => exact h0
  | tail _ hr ih => exact hstep _ _ hr ih

theorem Round.unique {p q q' : σ × Bytes} (h : Round cond body p q) (h' : Round cond body p q') :
    q = q' := by
  have := h.2.symm.trans h'.2
  simpa using this

theorem whileLoop_run_head (hp : Progress body) {p q : σ × Bytes} (h : Heads cond body p q) :
    (whileLoop cond body p.1).run p.2 = (whileLoop cond body q.1).run q.2 := by
  induction h with
  | refl => rfl
  | tail _ hr ih => rw [ih, whileLoop_eq hp, if_pos hr.1, run_bind, hr.2, Outcome.bind_ok]

/-- A loop returns exactly the head at which its condition fails. -/
theorem whileLoop_ok_iff (hp : Progress body) {s : σ} {src : Bytes} {q : σ × Bytes} :
    (whileLoop cond body s).run src = .ok q ↔
      Heads cond body (s, src) q ∧ cond q.1 q.2 = false := by
  constructor
  · induction hn : src.length using Nat.strong_induction_on generalizing s src with
    | _ n ih =>
        intro h
        rw [whileLoop_eq hp] at h
        split at h
        · rename_i hc
          rw [run_bind] at h
          obtain ⟨r, hb, hr⟩ := Outcome.bind_eq_ok.mp h
          have hlt := hp s src r.1 r.2 hb
          obtain ⟨hh, hf⟩ := ih r.2.length (by omega) rfl hr
          exact ⟨Relation.ReflTransGen.head ⟨hc, hb⟩ hh, hf⟩
        · rename_i hc
          cases h
          exact ⟨Relation.ReflTransGen.refl, by simpa using hc⟩
  · rintro ⟨hh, hf⟩
    rw [whileLoop_run_head hp hh, whileLoop_eq hp, hf]
    rfl

end

end Decoder
end Wire
end Vaux
