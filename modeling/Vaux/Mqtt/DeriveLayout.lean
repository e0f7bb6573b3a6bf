import Vaux.Mqtt.Derive

/-!
# The layouts derived decoders follow

The layout of a struct is read off its description, as the generated decoder is.
The property section is the tagged section of the layout, with the charge the
decoder makes: the bytes it took and the excess the value's decoder reports, or
the identifier alone for a value whose bytes are not counted.
-/

namespace Vaux
namespace Mqtt

open Wire Decoder

/-- The starving errors are those the stream reader waits on. -/
abbrev Starving : MqttCodecError → Prop := MqttCodecError.insufficient

def Property.entry {σ : Type} (p : Property σ) : Entry where
  field := p.member.codec.field
  charge n := 1 + if p.counted then n + p.member.codec.extra else 0
  extra := p.member.codec.extra

def propertyTable {σ : Type} (ps : List (Property σ)) (x : UInt8) : Option Entry :=
  match PropertyType.tryFrom x with
  | .ok propertyType => (arm ps propertyType).map Property.entry
  | .error _ => none

def layoutMembers {σ : Type} : List (Member σ) → Layout → Layout
  | [], next => next
  | m :: ms, next => .field m.codec.field fun _ => layoutMembers ms next

def layoutProperties {σ : Type} (ps : List (Property σ)) (next : Layout) : Layout :=
  .field varIntField fun c => .tagged (propertyTable ps) (varIntValue c) 0 next

def Derived.layoutRemaining {σ : Type} (d : Derived σ) : Layout :=
  match d.remaining with
  | none => .done
  | some r => .each r.codec.field

def Derived.layoutFull {σ : Type} (d : Derived σ) : Layout :=
  layoutMembers d.nonAbbreviated (layoutProperties d.properties d.layoutRemaining)

def Derived.layout {σ : Type} (d : Derived σ) : Layout :=
  layoutMembers d.header
    (if d.abbreviatedWhen.isSome then .ifMore d.layoutFull else d.layoutFull)

/-! ## Fields -/

section

variable {α : Type}

/-- A codec's decoder follows its field. -/
theorem Codec.agrees (c : Codec α) (src : Bytes) (k : Nat) (next : Bytes → Layout)
    (hextra : c.extra = 0) :
    Agrees Starving src k (.field c.field next) (fun r => next (src.take r.2)) (fun r => k + r.2)
      (c.decode.run src) := by
  have hs := c.shows src
  cases hrun : c.decode.run src with
  | ok r =>
      obtain ⟨⟨a, n⟩, rest⟩ := r
      rw [hrun] at hs
      obtain ⟨j, hj, rfl, hn⟩ := hs
      have hle := c.field.whole_le hj
      refine ⟨0, ?_, ?_⟩
      · apply Layout.Reaches.one
        simp [Layout.step, hj, hn, hextra]
      · simp only [List.length_drop]
        omega
  | err e =>
      rw [hrun] at hs
      rcases hs with ⟨he, hf⟩ | ⟨he, hf⟩
      · exact .inl ⟨he, .here (by simp [Layout.stop, hf, Front.toEnd])⟩
      · exact .inr ⟨he, .here (by simp [Layout.stop, hf, Front.toEnd])⟩
  | panic =>
      rw [hrun] at hs
      have hf : c.field.front src = .cut := hs
      exact .here (by simp [Layout.stop, hf, Front.toEnd])

theorem Codec.tracks (c : Codec α) (k : Nat) (next : Layout) (hextra : c.extra = 0) :
    Tracks Starving c.decode k (.field c.field fun _ => next) (fun _ => next)
      (fun r => k + r.2) :=
  fun src => c.agrees src k (fun _ => next) hextra

end

variable {σ : Type}

theorem Member.decode_tracks (m : Member σ) (hextra : m.codec.extra = 0) (next : Layout) (self : σ)
    (k : Nat) :
    Tracks Starving (m.decode self k) k (.field m.codec.field fun _ => next) (fun _ => next)
      Prod.snd :=
  (m.codec.tracks k next hextra).bind fun _ => Tracks.pure rfl rfl

theorem Member.decode_ok {m : Member σ} {self self' : σ} {k n : Nat} {src rest : Bytes}
    (h : (m.decode self k).run src = .ok ((self', n), rest)) :
    ∃ a j, m.codec.decode.run src = .ok ((a, j), rest) ∧ self' = m.apply self a ∧ n = k + j := by
  simp only [Member.decode, run_bind] at h
  obtain ⟨⟨⟨a, j⟩, rest'⟩, hrun, h⟩ := Outcome.bind_eq_ok.mp h
  cases h
  exact ⟨a, j, hrun, rfl, rfl⟩

theorem decodeMembers_tracks (ms : List (Member σ)) (hextra : ∀ m ∈ ms, m.codec.extra = 0)
    (next : Layout) (self : σ) (k : Nat) :
    Tracks Starving (decodeMembers ms self k) k (layoutMembers ms next) (fun _ => next)
      Prod.snd := by
  induction ms generalizing self k with
  | nil => exact Tracks.pure rfl rfl
  | cons m ms ih =>
      exact (m.decode_tracks (hextra m (by simp)) _ self k).bind fun r =>
        ih (fun m' h => hextra m' (by simp [h])) r.1 r.2

/-! ## The property section -/

/-- What a round that succeeds has read, and what it does with it. -/
theorem propertyRound_ok {ps : List (Property σ)} {unsupported : PropertyType → MqttCodecError}
    {st st' : PropertyLoop σ} {src rest : Bytes}
    (h : (propertyRound ps unsupported st).run src = .ok (st', rest)) :
    ∃ x src' t p a n, src = x :: src' ∧ PropertyType.tryFrom x = .ok t ∧ arm ps t = some p ∧
      p.member.codec.decode.run src' = .ok ((a, n), rest) ∧
      st' =
        { self := p.member.apply st.self a
          propertyBytesRead := st.propertyBytesRead + 1 + (if p.counted then n else 0)
          bytesRead := st.bytesRead + (if p.counted then 0 else n) } := by
  cases src with
  | nil => simp [propertyRound] at h
  | cons x src =>
      simp only [propertyRound, run_bind, run_getU8_cons, Outcome.bind_ok, run_lift] at h
      cases ht : PropertyType.tryFrom x with
      | error e => simp [ht] at h
      | ok t =>
          simp only [ht, Outcome.ofExcept_ok, Outcome.map_ok, Outcome.bind_ok] at h
          cases hp : arm ps t with
          | none => simp [hp] at h
          | some p =>
              simp only [hp, run_bind] at h
              obtain ⟨⟨⟨a, n⟩, rest'⟩, hrun, hr⟩ := Outcome.bind_eq_ok.mp h
              cases hr
              exact ⟨x, src, t, p, a, n, rfl, ht, hp, hrun, rfl⟩

theorem propertyRound_progress (ps : List (Property σ)) (unsupported : PropertyType → MqttCodecError) :
    Progress (propertyRound ps unsupported) := by
  intro st src st' rest h
  obtain ⟨x, src', t, p, a, n, rfl, -, -, hrun, -⟩ := propertyRound_ok h
  have hle := (p.member.codec.decode.suffix hrun).length_le
  rw [List.length_cons]
  omega

theorem arm_mem {ps : List (Property σ)} {t : PropertyType} {p : Property σ}
    (h : arm ps t = some p) : p ∈ ps :=
  List.mem_of_find?_eq_some h

/-- The loop returns the state of one of its heads. -/
theorem decodeProperties_ok {ps : List (Property σ)} {unsupported : PropertyType → MqttCodecError}
    {self self' : σ} {k n : Nat} {src rest : Bytes}
    (h : (decodeProperties ps unsupported self k).run src = .ok ((self', n), rest)) :
    ∃ propertyLength m src' st, decodeVariableByteInt.run src = .ok ((propertyLength, m), src') ∧
      Heads (propertyCond propertyLength.toNat) (propertyRound ps unsupported)
        ({ self, propertyBytesRead := 0, bytesRead := k + m }, src') (st, rest) ∧
      propertyLength.toNat ≤ st.propertyBytesRead ∧ self' = st.self ∧
      n = st.bytesRead + st.propertyBytesRead := by
  simp only [decodeProperties, run_bind] at h
  obtain ⟨⟨⟨propertyLength, m⟩, src'⟩, hlen, h⟩ := Outcome.bind_eq_ok.mp h
  obtain ⟨⟨st, rest'⟩, hloop, h⟩ := Outcome.bind_eq_ok.mp h
  cases h
  obtain ⟨hheads, hexit⟩ :=
    (whileLoop_ok_iff (propertyRound_progress ps unsupported)).mp hloop
  exact ⟨propertyLength, m, src', st, hlen, hheads, by simpa [propertyCond] using hexit, rfl, rfl⟩

/-- What no property touches is as it was before the section. -/
theorem decodeProperties_frame {β : Type} (f : σ → β) {ps : List (Property σ)}
    (hf : ∀ p ∈ ps, ∀ s a, f (p.member.apply s a) = f s)
    {unsupported : PropertyType → MqttCodecError} {self self' : σ} {k n : Nat} {src rest : Bytes}
    (h : (decodeProperties ps unsupported self k).run src = .ok ((self', n), rest)) :
    f self' = f self := by
  obtain ⟨propertyLength, m, src', st, -, hheads, -, rfl, -⟩ := decodeProperties_ok h
  refine Heads.invariant (fun q => f q.1.self = f self) hheads rfl ?_
  rintro ⟨st₁, src₁⟩ ⟨st₂, src₂⟩ hround hinv
  obtain ⟨x, src', t, p, a, n, -, -, hp, -, rfl⟩ := propertyRound_ok hround.2
  exact (hf p (arm_mem hp) st₁.self a).trans hinv

/-- What one round does, by what stands at the front of the buffer. -/
theorem propertyRound_cons (ps : List (Property σ)) (unsupported : PropertyType → MqttCodecError)
    (st : PropertyLoop σ) (x : UInt8) (src : Bytes) {t : PropertyType} {p : Property σ}
    (ht : PropertyType.tryFrom x = .ok t) (hp : arm ps t = some p) :
    (propertyRound ps unsupported st).run (x :: src) =
      (p.member.codec.decode.run src).map fun r =>
        ({ self := p.member.apply st.self r.1.1
           propertyBytesRead := st.propertyBytesRead + 1 + (if p.counted then r.1.2 else 0)
           bytesRead := st.bytesRead + (if p.counted then 0 else r.1.2) }, r.2) := by
  simp only [propertyRound, run_bind, run_getU8_cons, Outcome.bind_ok, run_lift, ht,
    Outcome.ofExcept_ok, Outcome.map_ok, hp]
  cases p.member.codec.decode.run src <;> rfl

theorem propertyTable_eq_some {ps : List (Property σ)} {x : UInt8} {t : PropertyType}
    {p : Property σ} (ht : PropertyType.tryFrom x = .ok t) (hp : arm ps t = some p) :
    propertyTable ps x = some p.entry := by
  simp [propertyTable, ht, hp]

theorem propertyRound_agrees (ps : List (Property σ)) {unsupported : PropertyType → MqttCodecError}
    (hu : ∀ t, ¬ (unsupported t).insufficient) (length : Nat) (next : Layout)
    (st : PropertyLoop σ) (src : Bytes) (hc : st.propertyBytesRead < length) :
    Agrees Starving src (st.bytesRead + st.propertyBytesRead)
      (.tagged (propertyTable ps) length st.propertyBytesRead next)
      (fun st => .tagged (propertyTable ps) length st.propertyBytesRead next)
      (fun st => st.bytesRead + st.propertyBytesRead)
      ((propertyRound ps unsupported st).run src) := by
  have hc' : ¬ length ≤ st.propertyBytesRead := by omega
  cases src with
  | nil => exact .here (by simp [Layout.stop, hc'])
  | cons x src =>
      cases ht : PropertyType.tryFrom x with
      | error e =>
          have htable : propertyTable ps x = none := by simp [propertyTable, ht]
          have hrun : (propertyRound ps unsupported st).run (x :: src) = .err e := by
            simp [propertyRound, ht]
          rw [hrun]
          exact .inr ⟨PropertyType.not_insufficient_of_tryFrom ht,
            .here (by simp [Layout.stop, hc', htable])⟩
      | ok t =>
          cases hp : arm ps t with
          | none =>
              have htable : propertyTable ps x = none := by simp [propertyTable, ht, hp]
              have hrun : (propertyRound ps unsupported st).run (x :: src) =
                  .err (unsupported t) := by
                simp [propertyRound, ht, hp]
              rw [hrun]
              exact .inr ⟨hu t, .here (by simp [Layout.stop, hc', htable])⟩
          | some p =>
              have htable := propertyTable_eq_some ht hp
              have hs := p.member.codec.shows src
              rw [propertyRound_cons ps unsupported st x src ht hp]
              cases hrun : p.member.codec.decode.run src with
              | ok r =>
                  obtain ⟨⟨a, n⟩, rest⟩ := r
                  rw [hrun] at hs
                  obtain ⟨j, hj, rfl, rfl⟩ := hs
                  have hle := p.member.codec.field.whole_le hj
                  refine ⟨p.member.codec.extra, ?_, ?_⟩
                  · apply Layout.Reaches.one
                    simp only [Layout.step, hc', if_false, htable, Property.entry, hj,
                      Nat.add_assoc]
                  · simp only [List.length_drop, List.length_cons]
                    cases p.counted
                    · simp only [Bool.false_eq_true, if_false]
                      omega
                    · simp only [if_true]
                      omega
              | err e =>
                  rw [hrun] at hs
                  rcases hs with ⟨he, hf⟩ | ⟨he, hf⟩
                  · exact .inl ⟨he, .here (by
                      simp [Layout.stop, hc', htable, Property.entry, hf, Front.toEnd])⟩
                  · exact .inr ⟨he, .here (by
                      simp [Layout.stop, hc', htable, Property.entry, hf, Front.toEnd])⟩
              | panic =>
                  rw [hrun] at hs
                  have hf : p.member.codec.field.front src = .cut := hs
                  exact .here (by simp [Layout.stop, hc', htable, Property.entry, hf, Front.toEnd])

theorem decodeProperties_tracks (ps : List (Property σ))
    {unsupported : PropertyType → MqttCodecError} (hu : ∀ t, ¬ (unsupported t).insufficient)
    (next : Layout) (self : σ) (k : Nat) :
    Tracks Starving (decodeProperties ps unsupported self k) k (layoutProperties ps next)
      (fun _ => next) Prod.snd := by
  intro src
  have hlen := Codec.varInt.agrees src k
    (fun c => .tagged (propertyTable ps) (varIntValue c) 0 next) rfl
  refine hlen.bind ?_
  rintro ⟨propertyLength, n⟩ rest hrun
  have hvalue := (varIntEncoding_le_of_decode hrun).2.2.1
  simp only [← hvalue]
  have hloop := Agrees.whileLoop
    (fun st : PropertyLoop σ =>
      .tagged (propertyTable ps) propertyLength.toNat st.propertyBytesRead next)
    (fun _ => next) (fun st => st.bytesRead + st.propertyBytesRead)
    (propertyRound_progress ps unsupported)
    (fun st src (hc : propertyCond propertyLength.toNat st src = true) =>
      propertyRound_agrees ps hu _ next st src (by simpa [propertyCond] using hc))
    (fun st src hc => .one (by
      have hle : propertyLength.toNat ≤ st.propertyBytesRead := by simpa [propertyCond] using hc
      simp [Layout.step, hle]))
    { self, propertyBytesRead := 0, bytesRead := k + n } rest
  exact hloop.bind fun st rest' _ => ⟨0, .refl _ _, rfl⟩

/-! ## The rest of the struct -/

/-- Every value of a vector takes at least one byte. -/
abbrev Consumes {α : Type} (c : Codec α) : Prop :=
  ∀ {src : Bytes} {a : α} {n : Nat} {rest : Bytes},
    c.decode.run src = .ok ((a, n), rest) → rest.length < src.length

theorem eachRound_ok {α : Type} {item : Dec (α × Nat)} {st st' : List α × Nat}
    {src rest : Bytes} (h : (eachRound item st).run src = .ok (st', rest)) :
    ∃ a n, item.run src = .ok ((a, n), rest) ∧ st' = (st.1 ++ [a], st.2 + n) := by
  simp only [eachRound, run_bind] at h
  obtain ⟨⟨⟨a, n⟩, rest'⟩, hrun, hr⟩ := Outcome.bind_eq_ok.mp h
  cases hr
  exact ⟨a, n, hrun, rfl⟩

theorem eachRound_progress {α : Type} {c : Codec α} (hp : Consumes c) :
    Progress (eachRound c.decode) := by
  intro st src st' rest h
  obtain ⟨a, n, hrun, -⟩ := eachRound_ok h
  exact hp hrun

theorem decodeEach_tracks {α : Type} (c : Codec α) (hextra : c.extra = 0) (hp : Consumes c)
    (k : Nat) :
    Tracks Starving (decodeEach c.decode k) k (.each c.field) (fun _ => .done) Prod.snd := by
  intro src
  refine Agrees.whileLoop (fun _ : List α × Nat => .each c.field) (fun _ => .done) Prod.snd
    (eachRound_progress hp) ?_ ?_ ([], k) src
  · intro st src hc
    have hne : src ≠ [] := by simpa [eachCond] using hc
    have hs := c.shows src
    cases hrun : c.decode.run src with
    | ok r =>
        obtain ⟨⟨a, n⟩, rest⟩ := r
        rw [hrun] at hs
        obtain ⟨j, hj, rfl, rfl⟩ := hs
        have hle := c.field.whole_le hj
        simp only [eachRound, run_bind, hrun, Outcome.bind_ok, run_pure]
        refine ⟨0, .one (by simp [Layout.step, hne, hj]), ?_⟩
        simp only [List.length_drop]
        omega
    | err e =>
        rw [hrun] at hs
        simp only [eachRound, run_bind, hrun, Outcome.bind_err]
        rcases hs with ⟨he, hf⟩ | ⟨he, hf⟩
        · exact .inl ⟨he, .here (by simp [Layout.stop, hne, hf, Front.toEnd])⟩
        · exact .inr ⟨he, .here (by simp [Layout.stop, hne, hf, Front.toEnd])⟩
    | panic =>
        rw [hrun] at hs
        simp only [eachRound, run_bind, hrun, Outcome.bind_panic]
        have hf : c.field.front src = .cut := hs
        exact .here (by simp [Layout.stop, hne, hf, Front.toEnd])
  · intro st src hc
    have hnil : src = [] := by simpa [eachCond] using hc
    exact .one (by simp [Layout.step, hnil])

namespace Derived

/-- Every count a field of the struct reports is the number of bytes it has; only the
properties may report more. -/
structure Exact (d : Derived σ) : Prop where
  header : ∀ m ∈ d.header, m.codec.extra = 0
  nonAbbreviated : ∀ m ∈ d.nonAbbreviated, m.codec.extra = 0
  remaining : ∀ r, d.remaining = some r → r.codec.extra = 0

theorem unsupportedProperty_not_insufficient (t : PropertyType) :
    ¬ (unsupportedProperty t).insufficient := by
  simp [unsupportedProperty]

theorem decodeRemaining_tracks {d : Derived σ} (hd : d.Exact) (self : σ) (k : Nat) :
    Tracks Starving (d.decodeRemaining self k) k d.layoutRemaining (fun _ => .done) Prod.snd := by
  unfold decodeRemaining layoutRemaining
  cases hr : d.remaining with
  | none => exact Tracks.pure rfl rfl
  | some r =>
      exact (decodeEach_tracks r.codec (hd.remaining r hr) r.progress k).bind
        fun v => Tracks.pure rfl rfl

theorem decodeFull_tracks {d : Derived σ} (hd : d.Exact) (self : σ) (k : Nat) :
    Tracks Starving (d.decodeFull self k) k d.layoutFull (fun _ => .done) Prod.snd := by
  refine (decodeMembers_tracks d.nonAbbreviated hd.nonAbbreviated _ self k).bind fun r => ?_
  refine (decodeProperties_tracks d.properties unsupportedProperty_not_insufficient _ r.1 r.2).bind
    fun r' => ?_
  exact decodeRemaining_tracks hd r'.1 r'.2

/-- A derived decoder follows the layout of its struct. -/
theorem decode_tracks {d : Derived σ} (hd : d.Exact) (self : σ) :
    Tracks Starving (d.decode self) 0 d.layout (fun _ => .done) Prod.snd := by
  refine (decodeMembers_tracks d.header hd.header _ self 0).bind fun r => ?_
  intro src
  have hfull := decodeFull_tracks hd r.1 r.2 src
  simp only [run_bind, run_remaining, Outcome.bind_ok]
  by_cases habb : d.abbreviatedWhen.isSome = true
  · rw [if_pos habb]
    by_cases hsrc : src.length = 0
    · rw [if_pos (And.intro habb hsrc), List.length_eq_zero_iff.mp hsrc]
      exact ⟨0, .one (by simp [Layout.step]), rfl⟩
    · have hne : src ≠ [] := by
        rintro rfl
        exact hsrc rfl
      rw [if_neg fun h => hsrc h.2]
      have hstep : (Layout.ifMore d.layoutFull).step src = some (d.layoutFull, src, 0) := by
        simp [Layout.step, hne]
      exact hfull.reached (.one hstep) rfl
  · rw [if_neg habb, if_neg fun h => habb h.1]
    exact hfull

end Derived

end Mqtt
end Vaux
