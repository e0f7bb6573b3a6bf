import Vaux.Wire.Loop

/-!
# Layouts of a message

A layout says which fields stand in a message, one after the other, without the
values they hold.  It is read against a buffer one field at a time: `step` takes
the front field off the buffer, and `Reaches` is any number of such steps.  A
layout that cannot step has stopped, and `stop` says why: it is finished, the
buffer ends inside a field of fixed width (`overrun`), it ends inside a field
whose own bytes ask for more (`starved`), or the front field is no legal value of
its type (`refused`).

A tagged section is a run of entries, each introduced by a tag byte, that lasts
while a counter is below an announced length.  What an entry adds to the counter
(`charge`) is a parameter, since the reader that is described may well add
something else than the bytes the entry has.

`Tracks` connects a decoder to a layout: the decoder returns where the layout is
finished, aborts where the layout overruns, and reports an error where it starves
or is refused.  Steps are deterministic, so the connection also runs backwards
(`Tracks.panic_iff` and the lemmas after it).
-/

namespace Vaux
namespace Wire

open Decoder

/-- What the front of a buffer is, seen as a field. -/
inductive Front where
  | whole (n : Nat)
  | cut
  | starved
  | refused
  deriving DecidableEq, Repr

structure Field where
  front : Bytes → Front
  whole_le : ∀ {b : Bytes} {n : Nat}, front b = .whole n → n ≤ b.length

namespace Field

/-- A field of `width` bytes. -/
def fixed (width : Nat) (legal : Bytes → Bool) : Field where
  front b :=
    if b.length < width then .cut
    else if legal (b.take width) then .whole width else .refused
  whole_le h := by
    split at h
    · cases h
    · split at h
      · cases h
        omega
      · cases h

/-- Two bytes of length, then the data. -/
def sized (legal : Bytes → Bool) : Field where
  front b :=
    if b.length < 2 then .refused
    else if b.length - 2 < beValue (b.take 2) then .starved
    else if legal ((b.drop 2).take (beValue (b.take 2))) then .whole (2 + beValue (b.take 2))
    else .refused
  whole_le h := by
    split at h
    · cases h
    · split at h
      · cases h
      · split at h
        · cases h
          omega
        · cases h

/-- A field that nothing is a legal value of. -/
def never : Field where
  front _ := .refused
  whole_le h := by cases h

/-- One field directly behind the other. -/
def seq (f g : Field) : Field where
  front b :=
    match f.front b with
    | .whole n =>
      match g.front (b.drop n) with
      | .whole m => .whole (n + m)
      | other => other
    | other => other
  whole_le {b n} h := by
    split at h
    · rename_i k hk
      have hf := f.whole_le hk
      split at h
      · rename_i m hm
        have hg := g.whole_le hm
        rw [List.length_drop] at hg
        cases h
        omega
      · rename_i hne
        exact absurd h (hne n)
    · rename_i hne
      exact absurd h (hne n)

theorem seq_front_whole {f g : Field} {b : Bytes} {n : Nat} (h : f.front b = .whole n) :
    (f.seq g).front b =
      match g.front (b.drop n) with
      | .whole m => .whole (n + m)
      | other => other := by
  simp only [seq, h]

theorem seq_front_of_not_whole {f g : Field} {b : Bytes} (h : ∀ n, f.front b ≠ .whole n) :
    (f.seq g).front b = f.front b := by
  simp only [seq]

/-! Fields that cannot be empty. -/

theorem fixed_whole_pos {width : Nat} {legal : Bytes → Bool} (hw : 0 < width) {b : Bytes}
    {n : Nat} (h : (fixed width legal).front b = .whole n) : 0 < n := by
  simp only [fixed] at h
  split at h
  · cases h
  · split at h
    · cases h
      exact hw
    · cases h

theorem sized_whole_pos {legal : Bytes → Bool} {b : Bytes} {n : Nat}
    (h : (sized legal).front b = .whole n) : 0 < n := by
  simp only [sized] at h
  split at h
  · cases h
  · split at h
    · cases h
    · split at h
      · cases h
        omega
      · cases h

theorem seq_whole_pos {f g : Field} (hf : ∀ {b n}, f.front b = .whole n → 0 < n) {b : Bytes}
    {n : Nat} (h : (f.seq g).front b = .whole n) : 0 < n := by
  cases hk : f.front b with
  | whole k =>
      have hpos := hf hk
      rw [seq_front_whole hk] at h
      split at h
      · cases h
        omega
      · rename_i hne
        exact absurd h (hne n)
  | cut => simp [seq_front_of_not_whole, hk] at h
  | starved => simp [seq_front_of_not_whole, hk] at h
  | refused => simp [seq_front_of_not_whole, hk] at h

end Field

/-- An entry of a tagged section.  Reading one whose value has `n` bytes adds
`charge n` to the counter, and the reader reports `extra` bytes more than it read. -/
structure Entry where
  field : Field
  charge : Nat → Nat
  extra : Nat

inductive Layout where
  | done
  | trap
  | field (f : Field) (next : Bytes → Layout)
  | ifMore (next : Layout)
  | rest
  | each (f : Field)
  | tagged (table : UInt8 → Option Entry) (length counter : Nat) (next : Layout)

/-- Why a layout stops. -/
inductive End where
  | finished
  | overrun
  | starved
  | refused
  deriving DecidableEq, Repr

/-- Why a field that is not whole stops its layout. -/
def Front.toEnd : Front → Option End
  | .whole _ => none
  | .cut => some .overrun
  | .starved => some .starved
  | .refused => some .refused

namespace Layout

/-- Take the front field off the buffer.  The number is what the reader reports
beyond the bytes taken. -/
def step : Layout → Bytes → Option (Layout × Bytes × Nat)
  | .done, _ => none
  | .trap, _ => none
  | .field f next, b =>
    match f.front b with
    | .whole n => some (next (b.take n), b.drop n, 0)
    | _ => none
  | .ifMore next, b => if b = [] then some (.done, b, 0) else some (next, b, 0)
  | .rest, _ => some (.done, [], 0)
  | .each f, b =>
    if b = [] then some (.done, b, 0)
    else match f.front b with
      | .whole n => some (.each f, b.drop n, 0)
      | _ => none
  | .tagged table length counter next, b =>
    if length ≤ counter then some (next, b, 0)
    else match b with
      | [] => none
      | x :: b =>
        match table x with
        | none => none
        | some e =>
          match e.field.front b with
          | .whole n => some (.tagged table length (counter + e.charge n) next, b.drop n, e.extra)
          | _ => none

/-- Why the layout stops at the buffer, if it does. -/
def stop : Layout → Bytes → Option End
  | .done, _ => some .finished
  | .trap, _ => some .overrun
  | .field f _, b => (f.front b).toEnd
  | .ifMore _, _ => none
  | .rest, _ => none
  | .each f, b => if b = [] then none else (f.front b).toEnd
  | .tagged table length counter _, b =>
    if length ≤ counter then none
    else match b with
      | [] => some .overrun
      | x :: b =>
        match table x with
        | none => some .refused
        | some e => (e.field.front b).toEnd

theorem step_eq_none_of_stop {l : Layout} {b : Bytes} {e : End} (h : l.stop b = some e) :
    l.step b = none := by
  cases l with
  | done => rfl
  | trap => rfl
  | field f next =>
      simp only [stop] at h
      simp only [step]
      cases hf : f.front b with
      | whole n => simp [hf, Front.toEnd] at h
      | cut => rfl
      | starved => rfl
      | refused => rfl
  | ifMore next => cases h
  | rest => cases h
  | each f =>
      simp only [stop] at h
      simp only [step]
      by_cases hb : b = []
      · simp [hb] at h
      · rw [if_neg hb] at h ⊢
        cases hf : f.front b with
        | whole n => simp [hf, Front.toEnd] at h
        | cut => rfl
        | starved => rfl
        | refused => rfl
  | tagged table length counter next =>
      simp only [stop] at h
      simp only [step]
      by_cases hc : length ≤ counter
      · simp [hc] at h
      · rw [if_neg hc] at h ⊢
        cases b with
        | nil => rfl
        | cons x b =>
            simp only at h ⊢
            cases ht : table x with
            | none => rfl
            | some e =>
                simp only [ht] at h ⊢
                cases hf : e.field.front b with
                | whole n => simp [hf, Front.toEnd] at h
                | cut => rfl
                | starved => rfl
                | refused => rfl

/-- `Reaches l b k l' b'`: steps lead from `l` at `b` to `l'` at `b'`, and the reader
reports `k` bytes more than were taken. -/
inductive Reaches : Layout → Bytes → Nat → Layout → Bytes → Prop
  | refl (l : Layout) (b : Bytes) : Reaches l b 0 l b
  | head {l l₁ l₂ : Layout} {b b₁ b₂ : Bytes} {j k : Nat} (h : l.step b = some (l₁, b₁, j))
      (hr : Reaches l₁ b₁ k l₂ b₂) : Reaches l b (j + k) l₂ b₂

theorem Reaches.trans {l l₁ l₂ : Layout} {b b₁ b₂ : Bytes} {j k : Nat}
    (h : Reaches l b j l₁ b₁) (h' : Reaches l₁ b₁ k l₂ b₂) : Reaches l b (j + k) l₂ b₂ := by
  induction h with
  | refl => simpa using h'
  | head hs _ ih =>
      rw [Nat.add_assoc]
      exact .head hs (ih h')

theorem Reaches.one {l l₁ : Layout} {b b₁ : Bytes} {j : Nat} (h : l.step b = some (l₁, b₁, j)) :
    Reaches l b j l₁ b₁ :=
  .head h (.refl l₁ b₁)

/-- Two stops reached from one place are the same. -/
theorem Reaches.unique {l l₁ l₂ : Layout} {b b₁ b₂ : Bytes} {j k : Nat} {e₁ e₂ : End}
    (h₁ : Reaches l b j l₁ b₁) (s₁ : l₁.stop b₁ = some e₁)
    (h₂ : Reaches l b k l₂ b₂) (s₂ : l₂.stop b₂ = some e₂) :
    j = k ∧ l₁ = l₂ ∧ b₁ = b₂ ∧ e₁ = e₂ := by
  induction h₁ generalizing k with
  | refl =>
      cases h₂ with
      | refl =>
          rw [s₁] at s₂
          exact ⟨rfl, rfl, rfl, Option.some.inj s₂⟩
      | head hs _ =>
          rw [step_eq_none_of_stop s₁] at hs
          cases hs
  | head hs _ ih =>
      cases h₂ with
      | refl =>
          rw [step_eq_none_of_stop s₂] at hs
          cases hs
      | head hs' hr' =>
          rw [hs] at hs'
          cases hs'
          obtain ⟨rfl, rest⟩ := ih s₁ hr'
          exact ⟨rfl, rest⟩

/-- The layout, read against the buffer, comes to the stop `e`. -/
def Stops (l : Layout) (b : Bytes) (e : End) : Prop :=
  ∃ k l' b', Reaches l b k l' b' ∧ l'.stop b' = some e

/-- The layout is finished with the bytes `left` still in the buffer, and the reader
reports `k` bytes more than it took. -/
def Finishes (l : Layout) (b : Bytes) (k : Nat) (left : Bytes) : Prop :=
  Reaches l b k .done left

theorem Finishes.stops {l : Layout} {b left : Bytes} {k : Nat} (h : Finishes l b k left) :
    Stops l b .finished :=
  ⟨k, .done, left, h, rfl⟩

theorem Finishes.unique {l : Layout} {b left left' : Bytes} {k k' : Nat}
    (h : Finishes l b k left) (h' : Finishes l b k' left') : k = k' ∧ left = left' := by
  obtain ⟨hk, -, hl, -⟩ := Reaches.unique h rfl h' rfl
  exact ⟨hk, hl⟩

theorem Stops.unique {l : Layout} {b : Bytes} {e e' : End} (h : Stops l b e) (h' : Stops l b e') :
    e = e' := by
  obtain ⟨k, l₁, b₁, hr, hs⟩ := h
  obtain ⟨k', l₂, b₂, hr', hs'⟩ := h'
  exact (Reaches.unique hr hs hr' hs').2.2.2

theorem Stops.of_reaches {l l' : Layout} {b b' : Bytes} {k : Nat} {e : End}
    (h : Reaches l b k l' b') (hs : Stops l' b' e) : Stops l b e := by
  obtain ⟨j, l₂, b₂, hr, hstop⟩ := hs
  exact ⟨k + j, l₂, b₂, h.trans hr, hstop⟩

theorem Stops.here {l : Layout} {b : Bytes} {e : End} (h : l.stop b = some e) : Stops l b e :=
  ⟨0, l, b, .refl l b, h⟩

end Layout

/-! ## Decoders that follow a layout -/

section

variable {ε α β σ : Type} (starving : ε → Prop)

/-- The outcome of a decoder on `src` agrees with the layout `l`.  A value `a` leaves
the layout `next a`, and of the bytes reported so far, `count a`, the first `k`
were reported before. -/
def Agrees (src : Bytes) (k : Nat) (l : Layout) (next : α → Layout) (count : α → Nat) :
    Outcome ε (α × Bytes) → Prop
  | .ok (a, rest) =>
    ∃ extra, l.Reaches src extra (next a) rest ∧ count a + rest.length = k + src.length + extra
  | .err e => (starving e ∧ l.Stops src .starved) ∨ (¬ starving e ∧ l.Stops src .refused)
  | .panic => l.Stops src .overrun

def Tracks (d : Decoder ε α) (k : Nat) (l : Layout) (next : α → Layout) (count : α → Nat) : Prop :=
  ∀ src, Agrees starving src k l next count (d.run src)

variable {starving} {l : Layout} {k : Nat}

theorem Agrees.reached {src rest : Bytes} {o : Outcome ε (α × Bytes)} {l' : Layout}
    {next : α → Layout} {count : α → Nat} {extra j : Nat} (hr : l.Reaches src extra l' rest)
    (hj : j + rest.length = k + src.length + extra) (h : Agrees starving rest j l' next count o) :
    Agrees starving src k l next count o := by
  cases o with
  | ok r =>
      obtain ⟨a, left⟩ := r
      obtain ⟨extra', hr', hc⟩ := h
      exact ⟨extra + extra', hr.trans hr', by omega⟩
  | err e =>
      rcases h with ⟨he, hs⟩ | ⟨he, hs⟩
      · exact .inl ⟨he, hs.of_reaches hr⟩
      · exact .inr ⟨he, hs.of_reaches hr⟩
  | panic => exact Layout.Stops.of_reaches hr h

theorem Agrees.bind {d : Decoder ε α} {f : α → Decoder ε β} {src : Bytes} {mid : α → Layout}
    {next : β → Layout} {count : α → Nat} {count' : β → Nat}
    (hd : Agrees starving src k l mid count (d.run src))
    (hf : ∀ a rest, d.run src = .ok (a, rest) →
      Agrees starving rest (count a) (mid a) next count' ((f a).run rest)) :
    Agrees starving src k l next count' ((d >>= f).run src) := by
  rw [run_bind]
  cases hrun : d.run src with
  | ok r =>
      obtain ⟨a, rest⟩ := r
      rw [hrun] at hd
      obtain ⟨extra, hr, hc⟩ := hd
      exact (hf a rest hrun).reached hr hc
  | err e =>
      rw [hrun] at hd
      exact hd
  | panic =>
      rw [hrun] at hd
      exact hd

theorem Tracks.bind {d : Decoder ε α} {f : α → Decoder ε β} {mid : α → Layout}
    {next : β → Layout} {count : α → Nat} {count' : β → Nat}
    (hd : Tracks starving d k l mid count)
    (hf : ∀ a, Tracks starving (f a) (count a) (mid a) next count') :
    Tracks starving (d >>= f) k l next count' :=
  fun src => (hd src).bind fun a rest _ => hf a rest

theorem Tracks.pure {a : α} {next : α → Layout} {count : α → Nat} (hn : next a = l)
    (hc : count a = k) : Tracks starving (Pure.pure a : Decoder ε α) k l next count := by
  intro src
  refine ⟨0, ?_, by rw [hc, Nat.add_zero]⟩
  rw [hn]
  exact .refl l src

/-- Bytes reported before may be added to both counts. -/
theorem Tracks.count_add {d : Decoder ε α} {next : α → Layout} {count : α → Nat}
    (h : Tracks starving d 0 l next count) (k : Nat) :
    Tracks starving d k l next (fun a => k + count a) := by
  intro src
  have ha := h src
  cases hrun : d.run src with
  | ok r =>
      obtain ⟨a, rest⟩ := r
      rw [hrun] at ha
      obtain ⟨extra, hr, hc⟩ := ha
      refine ⟨extra, hr, ?_⟩
      simp only
      omega
  | err e =>
      rw [hrun] at ha
      exact ha
  | panic =>
      rw [hrun] at ha
      exact ha

/-- A loop follows a layout when every round does. -/
theorem Agrees.whileLoop {cond : σ → Bytes → Bool} {body : σ → Decoder ε σ} (lay next : σ → Layout)
    (count : σ → Nat) (hp : Progress body)
    (hround : ∀ s src, cond s src = true →
      Agrees starving src (count s) (lay s) lay count ((body s).run src))
    (hexit : ∀ s src, cond s src = false → (lay s).Reaches src 0 (next s) src)
    (s : σ) (src : Bytes) :
    Agrees starving src (count s) (lay s) next count ((whileLoop cond body s).run src) := by
  induction hn : src.length using Nat.strong_induction_on generalizing s src with
  | _ n ih =>
      rw [whileLoop_eq hp]
      by_cases hc : cond s src = true
      · rw [if_pos hc]
        refine (hround s src hc).bind fun s' rest hb => ?_
        have hlt := hp s src s' rest hb
        exact ih rest.length (by omega) s' rest rfl
      · rw [if_neg hc]
        have hc' : cond s src = false := by simpa using hc
        exact ⟨0, hexit s src hc', rfl⟩

section

variable {d : Decoder ε α} {count : α → Nat}

theorem Tracks.panic_iff (h : Tracks starving d k l (fun _ => .done) count) (src : Bytes) :
    d.run src = .panic ↔ l.Stops src .overrun := by
  have ha := h src
  constructor
  · intro hrun
    rwa [hrun] at ha
  · intro hs
    cases hrun : d.run src with
    | ok r =>
        rw [hrun] at ha
        obtain ⟨extra, hr, -⟩ := ha
        cases hs.unique (Layout.Finishes.stops hr)
    | err e =>
        rw [hrun] at ha
        rcases ha with ⟨-, hs'⟩ | ⟨-, hs'⟩ <;> cases hs.unique hs'
    | panic => rfl

theorem Tracks.starving_iff (h : Tracks starving d k l (fun _ => .done) count) (src : Bytes) :
    (∃ e, d.run src = .err e ∧ starving e) ↔ l.Stops src .starved := by
  have ha := h src
  constructor
  · rintro ⟨e, hrun, he⟩
    rw [hrun] at ha
    rcases ha with ⟨-, hs⟩ | ⟨he', -⟩
    · exact hs
    · exact absurd he he'
  · intro hs
    cases hrun : d.run src with
    | ok r =>
        rw [hrun] at ha
        obtain ⟨extra, hr, -⟩ := ha
        cases hs.unique (Layout.Finishes.stops hr)
    | err e =>
        rw [hrun] at ha
        rcases ha with ⟨he, -⟩ | ⟨-, hs'⟩
        · exact ⟨e, rfl, he⟩
        · cases hs.unique hs'
    | panic =>
        rw [hrun] at ha
        cases hs.unique ha

theorem Tracks.ok_finishes (h : Tracks starving d k l (fun _ => .done) count) {src : Bytes} {a : α}
    {rest : Bytes} (hrun : d.run src = .ok (a, rest)) :
    ∃ extra, l.Finishes src extra rest ∧ count a + rest.length = k + src.length + extra := by
  have ha := h src
  rwa [hrun] at ha

theorem Tracks.finishes_ok (h : Tracks starving d k l (fun _ => .done) count) {src rest : Bytes}
    {extra : Nat} (hf : l.Finishes src extra rest) :
    ∃ a, d.run src = .ok (a, rest) ∧ count a + rest.length = k + src.length + extra := by
  have ha := h src
  cases hrun : d.run src with
  | ok r =>
      obtain ⟨a, rest'⟩ := r
      rw [hrun] at ha
      obtain ⟨extra', hf', hc⟩ := ha
      obtain ⟨rfl, rfl⟩ := hf.unique hf'
      exact ⟨a, rfl, hc⟩
  | err e =>
      rw [hrun] at ha
      rcases ha with ⟨-, hs⟩ | ⟨-, hs⟩ <;> cases hs.unique hf.stops
  | panic =>
      rw [hrun] at ha
      cases ha.unique hf.stops

end

end

end Wire
end Vaux
