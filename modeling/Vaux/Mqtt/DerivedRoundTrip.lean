import Vaux.Mqtt.SectionRoundTrip

/-!
# Derived structs that are written and read back

The same for the other parts of a derived struct, its members and the vector that
takes the rest of the packet, and for the struct as a whole.

`Derived.Lawful` is what the description of a struct has to satisfy: its members do
not touch each other, and together they are all there is to a value.  For a lawful
struct `Lawful.decode_reads` says when it reads back, `Lawful.paced_of_decode` that
it does so only then, and `Lawful.decode_fits` that whatever is read can be written
again in about as many bytes.
-/

namespace Vaux
namespace Mqtt

open Wire Decoder

variable {σ : Type}

/-! ## Members -/

section

variable (order : HashOrder)

def Member.length (self : σ) (m : Member σ) : Nat :=
  ((m.items order self).map fun a => encodedLength (m.codec.encode a)).sum

def membersLength (ms : List (Member σ)) (self : σ) : Nat :=
  (ms.map (Member.length order self)).sum

def MembersFit (ms : List (Member σ)) (self : σ) : Prop :=
  ∀ m ∈ ms, ∀ a ∈ m.items order self, m.codec.Carries a

def applyMembers (ms : List (Member σ)) (self s : σ) : σ :=
  ms.foldl (fun s m => (m.items order self).foldl m.apply s) s

end

theorem Member.skipIfEmpty_length {α : Type} [DecidableEq α] (order : HashOrder) (s : σ)
    (codec : Codec α) (empty : α) (get : σ → α) (set : σ → α → σ) (lens) :
    (Member.skipIfEmpty codec empty get set lens).length order s =
      if get s = empty then 0 else encodedLength (codec.encode (get s)) := by
  show ((if get s = empty then [] else [get s]).map fun a => encodedLength (codec.encode a)).sum = _
  split <;> simp

theorem Member.option_length {α : Type} (order : HashOrder) (s : σ) (codec : Codec α)
    (get : σ → Option α) (set : σ → Option α → σ) (lens) :
    (Member.option codec get set lens).length order s =
      (get s).elim 0 fun a => encodedLength (codec.encode a) := by
  show ((get s).toList.map fun a => encodedLength (codec.encode a)).sum = _
  cases get s <;> simp

/-- What the value a decoder starts from has there: nothing, or a short value if the
member is one that is always written. -/
def Member.Initial (order : HashOrder) (fresh : σ) (m : Member σ) : Prop :=
  m.items order fresh = [] ∨
    m.required = true ∧ ∃ a, m.items order fresh = [a] ∧ m.codec.Carries a ∧
      encodedLength (m.codec.encode a) ≤ 8

/-- Members that are always written, and count what they take. -/
structure Members (ms : List (Member σ)) : Prop where
  required : ∀ m ∈ ms, m.required = true
  exact : ∀ m ∈ ms, m.codec.extra = 0
  apart : ms.Pairwise Member.Apart

namespace Members

variable {order : HashOrder} {m : Member σ} {ms : List (Member σ)} {self : σ}

theorem tail (h : Members (m :: ms)) : Members ms where
  required m' hm := h.required m' (by simp [hm])
  exact m' hm := h.exact m' (by simp [hm])
  apart := (List.pairwise_cons.mp h.apart).2

theorem head_apart (h : Members (m :: ms)) {m' : Member σ} (hm : m' ∈ ms) : m.Apart m' :=
  (List.pairwise_cons.mp h.apart).1 m' hm

theorem append_left {ms' : List (Member σ)} (h : Members (ms ++ ms')) : Members ms where
  required m hm := h.required m (by simp [hm])
  exact m hm := h.exact m (by simp [hm])
  apart := (List.pairwise_append.mp h.apart).1

theorem append_right {ms' : List (Member σ)} (h : Members (ms ++ ms')) : Members ms' where
  required m hm := h.required m (by simp [hm])
  exact m hm := h.exact m (by simp [hm])
  apart := (List.pairwise_append.mp h.apart).2.1

end Members

section

variable {order : HashOrder} {ms : List (Member σ)} {self : σ}

theorem applyMembers_frame {β : Type*} (f : σ → β) (hf : ∀ m ∈ ms, ∀ s a, f (m.apply s a) = f s)
    (self s : σ) : f (applyMembers order ms self s) = f s := by
  induction ms generalizing s with
  | nil => rfl
  | cons m ms ih =>
      have hrest := ih (fun m' hm => hf m' (by simp [hm]))
        ((m.items order self).foldl m.apply s)
      exact hrest.trans (foldl_apply_frame f (hf m (by simp)) _ s)

theorem items_applyMembers (h : Members ms) (self s : σ) {m : Member σ} (hm : m ∈ ms) :
    m.items order (applyMembers order ms self s) = m.items order self := by
  induction ms generalizing s with
  | nil => cases hm
  | cons m' ms ih =>
      rcases List.mem_cons.mp hm with rfl | hm'
      · show m.items order (applyMembers order ms self _) = _
        rw [applyMembers_frame (fun s => m.items order s)
          fun m' hm' s a => ((h.head_apart hm') order s).1 a]
        exact m.restores order self s (.inl (h.required m (by simp)))
      · exact ih h.tail _ hm'

theorem memberEncode_length {m : Member σ} {e : Bytes} (h : m.encode order self = .ok e) :
    e.length = m.length order self :=
  encodeAll_length h

theorem membersEncode_length {e : Bytes} (h : encodeAll (Member.encode order self) ms = .ok e) :
    e.length = membersLength order ms self := by
  rw [encodeAll_length h, membersLength]
  congr 1
  apply List.map_congr_left
  intro m hm
  obtain ⟨e', h'⟩ := encode_eq_ok_of_mem h hm
  rw [h', encodedLength_ok, memberEncode_length h']

/-- Where the codecs can read all they write, writing the members is enough. -/
theorem membersFit_of_encode {e : Bytes} (h : encodeAll (Member.encode order self) ms = .ok e)
    (hfit : ∀ m ∈ ms, ∀ a, m.codec.Fits a) : MembersFit order ms self := by
  intro m hm a ha
  obtain ⟨e', h'⟩ := encode_eq_ok_of_mem h hm
  exact ⟨hfit m hm a, encode_eq_ok_of_mem h' ha⟩

/-- All sizes of the members agree with what is written. -/
def MembersSizes (order : HashOrder) (ms : List (Member σ)) (self : σ) : Prop :=
  ∀ m ∈ ms, ∀ a ∈ m.items order self, m.codec.SizeAgrees a

theorem MembersFit.sizes (h : MembersFit order ms self) : MembersSizes order ms self :=
  fun m hm a ha => Codec.sizeAgrees_of_fits (h m hm a ha).1

theorem memberSize_eq {m : Member σ} (hsizes : ∀ a ∈ m.items order self, m.codec.SizeAgrees a)
    {e : Bytes} (h : m.encode order self = .ok e) : m.size order self = UInt32.ofNat e.length :=
  encodeAll_size h hsizes

theorem sum_memberSize (hsizes : MembersSizes order ms self) {e : Bytes}
    (h : encodeAll (Member.encode order self) ms = .ok e) :
    (ms.map (Member.size order self)).sum = UInt32.ofNat e.length :=
  encodeAll_size h fun m hm _ he => memberSize_eq (hsizes m hm) he

theorem decodeMembers_reads (h : Members ms) (hfit : MembersFit order ms self) {e : Bytes}
    (henc : encodeAll (Member.encode order self) ms = .ok e) (s : σ) (k : Nat) :
    Reads (decodeMembers ms s k) e (applyMembers order ms self s, k + e.length) := by
  induction ms generalizing s k e with
  | nil =>
      cases henc
      exact Reads.pure _
  | cons m ms ih =>
      obtain ⟨e₁, e₂, h₁, h₂, rfl⟩ := encodeAll_cons_eq_ok henc
      obtain ⟨a, ha⟩ := List.length_eq_one_iff.mp
        (m.length_of_required (h.required m (by simp)) order self)
      have hread : Reads (m.decode s k) e₁ (m.apply s a, k + e₁.length) := by
        unfold Member.encode at h₁
        rw [ha] at h₁
        obtain ⟨e₃, e₄, h₃, h₄, rfl⟩ := encodeAll_cons_eq_ok h₁
        cases h₄
        have hcodec := m.codec.reads (hfit m (by simp) a (by simp [ha])).1 h₃
        rw [h.exact m (by simp)] at hcodec
        rw [List.append_nil]
        exact hcodec.bind_nil (Reads.pure _)
      have hrest := ih h.tail (fun m' hm => hfit m' (by simp [hm])) h₂ (m.apply s a)
        (k + e₁.length)
      have happly : applyMembers order (m :: ms) self s =
          applyMembers order ms self (m.apply s a) := by
        simp only [applyMembers, List.foldl_cons, ha, List.foldl_nil]
      rw [happly, List.length_append, ← Nat.add_assoc]
      exact hread.bind hrest

theorem decodeMembers_frame {β : Type*} (f : σ → β)
    (hf : ∀ m ∈ ms, ∀ s a, f (m.apply s a) = f s) {s s' : σ} {k n : Nat} {src left : Bytes}
    (h : (decodeMembers ms s k).run src = .ok ((s', n), left)) : f s' = f s := by
  induction ms generalizing s k src with
  | nil =>
      cases h
      rfl
  | cons m ms ih =>
      simp only [decodeMembers, run_bind] at h
      obtain ⟨⟨⟨s₁, k₁⟩, src₁⟩, h₁, h₂⟩ := Outcome.bind_eq_ok.mp h
      obtain ⟨a, j, -, rfl, -⟩ := Member.decode_ok h₁
      rw [ih (fun m' hm => hf m' (by simp [hm])) h₂]
      exact hf m (by simp) s a

theorem membersLength_congr {s s' : σ}
    (h : ∀ m ∈ ms, m.items order s = m.items order s') :
    membersLength order ms s = membersLength order ms s' := by
  unfold membersLength Member.length
  congr 1
  apply List.map_congr_left
  intro m hm
  rw [h m hm]

theorem membersFit_congr {s s' : σ} (h : ∀ m ∈ ms, m.items order s = m.items order s')
    (hfit : MembersFit order ms s) : MembersFit order ms s' :=
  fun m hm a ha => hfit m hm a (by rwa [h m hm])

/-- A member that is stored adds no more than itself. -/
theorem membersLength_apply (h : ms.Pairwise Member.Apart) (order : HashOrder) (s : σ)
    {m : Member σ} (hm : m ∈ ms) (a : m.α) :
    membersLength order ms (m.apply s a) ≤
      membersLength order ms s + encodedLength (m.codec.encode a) := by
  induction ms with
  | nil => cases hm
  | cons m' ms ih =>
      obtain ⟨hhead, htail⟩ := List.pairwise_cons.mp h
      have hcons : ∀ s, membersLength order (m' :: ms) s =
          m'.length order s + membersLength order ms s := fun s => by simp [membersLength]
      rw [hcons, hcons]
      rcases List.mem_cons.mp hm with rfl | hm'
      · have hsum := m.sum_apply (fun a => encodedLength (m.codec.encode a)) order s a
        rw [membersLength_congr fun m' hm' => (hhead m' hm' order s).2 a]
        simp only [Member.length]
        omega
      · have := ih htail hm'
        simp only [Member.length, (hhead m hm' order s).1 a]
        omega

theorem MembersFit.apply (h : ms.Pairwise Member.Apart) {s : σ} (hfit : MembersFit order ms s)
    {m : Member σ} (hm : m ∈ ms) {a : m.α} (ha : m.codec.Carries a) :
    MembersFit order ms (m.apply s a) := by
  induction ms with
  | nil => cases hm
  | cons m' ms ih =>
      obtain ⟨hhead, htail⟩ := List.pairwise_cons.mp h
      have hrest : MembersFit order ms s := fun m hm => hfit m (by simp [hm])
      rintro m₁ hm₁ b hb
      rcases List.mem_cons.mp hm with rfl | hm'
      · rcases List.mem_cons.mp hm₁ with rfl | hm₁
        · rcases m₁.mem_apply hb with heq | hold
          · rw [heq]
            exact ha
          · exact hfit m₁ (by simp) b hold
        · rw [(hhead m₁ hm₁ order s).2 a] at hb
          exact hrest m₁ hm₁ b hb
      · rcases List.mem_cons.mp hm₁ with rfl | hm₁
        · rw [(hhead m hm' order s).1 a] at hb
          exact hfit m₁ (by simp) b hb
        · exact ih htail hrest hm' m₁ hm₁ b hb

/-- What some of the members store can be written again in no more bytes than they
took. -/
theorem decodeMembers_length {all : List (Member σ)} (h : all.Pairwise Member.Apart)
    (hms : ∀ m ∈ ms, m ∈ all) (order : HashOrder) {s s' : σ} {k n : Nat} {src left : Bytes}
    (hrun : (decodeMembers ms s k).run src = .ok ((s', n), left)) (hfit : MembersFit order all s) :
    membersLength order all s' + left.length ≤ membersLength order all s + src.length ∧
      MembersFit order all s' := by
  induction ms generalizing s k src with
  | nil =>
      cases hrun
      exact ⟨le_refl _, hfit⟩
  | cons m ms ih =>
      simp only [decodeMembers, run_bind] at hrun
      obtain ⟨⟨⟨s₁, k₁⟩, src₁⟩, h₁, h₂⟩ := Outcome.bind_eq_ok.mp hrun
      obtain ⟨a, j, hcodec, rfl, -⟩ := Member.decode_ok h₁
      obtain ⟨hcarries, hlen⟩ := Codec.carries_of_decode hcodec
      have hm := hms m (by simp)
      have hown := membersLength_apply h order s hm a
      obtain ⟨hle, hfits⟩ := ih (fun m' hm' => hms m' (by simp [hm'])) h₂ (hfit.apply h hm hcarries)
      refine ⟨?_, hfits⟩
      simp only at hle
      omega

/-! What the value a decoder starts from has. -/

theorem Member.Initial.carries {m : Member σ} {fresh : σ} (h : m.Initial order fresh) :
    ∀ a ∈ m.items order fresh, m.codec.Carries a := by
  rcases h with hnil | ⟨-, a, ha, hcarries, -⟩
  · simp [hnil]
  · intro b hb
    rw [ha, List.mem_singleton] at hb
    rwa [hb]

theorem Member.Initial.sum_le {m : Member σ} {fresh : σ} (h : m.Initial order fresh) (n : Nat) :
    ((m.items order fresh).map fun a => n + encodedLength (m.codec.encode a)).sum ≤ n + 8 := by
  rcases h with hnil | ⟨-, a, ha, -, hlen⟩
  · simp [hnil]
  · simp only [ha, List.map_cons, List.map_nil, List.sum_cons, List.sum_nil]
    omega

theorem membersLength_initial {fresh : σ} (h : ∀ m ∈ ms, m.Initial order fresh) :
    membersLength order ms fresh ≤ 8 * ms.length := by
  induction ms with
  | nil => simp [membersLength]
  | cons m ms ih =>
      have hm := (h m (by simp)).sum_le 0
      have := ih fun m' hm' => h m' (by simp [hm'])
      simp only [Nat.zero_add] at hm
      simp only [membersLength, List.map_cons, List.sum_cons, Member.length,
        List.length_cons] at this ⊢
      omega

theorem fresh_initial {fresh : σ} {ps : List (Property σ)}
    (h : ∀ p ∈ ps, p.member.Initial order fresh) : Fresh order ps fresh := by
  intro p hp
  rcases h p hp with hnil | ⟨hreq, -⟩
  · exact .inr hnil
  · exact .inl hreq

theorem sectionFits_initial {fresh : σ} {ps : List (Property σ)}
    (h : ∀ p ∈ ps, p.member.Initial order fresh) : SectionFits order ps fresh := by
  intro i hi
  obtain ⟨hp, hv⟩ := mem_propertyItems.mp hi
  exact (h i.property hp).carries i.value hv

theorem propertyLength_initial {fresh : σ} {ps : List (Property σ)}
    (h : ∀ p ∈ ps, p.member.Initial order fresh) :
    propertyLength order ps fresh ≤ 9 * ps.length := by
  induction ps with
  | nil => simp [propertyLength, propertyItems, itemsLength]
  | cons p ps ih =>
      have hp := (h p (by simp)).sum_le 1
      have hrest := ih fun q hq => h q (by simp [hq])
      have hcons := weigh_cons Item.length order p ps fresh
      simp only [weigh, Item.length] at hcons
      simp only [propertyLength, itemsLength, List.length_cons] at hrest ⊢
      omega

end

/-! ## The vector that takes the rest -/

section

variable {α : Type} {c : Codec α}

theorem decodeEach_reads (hextra : c.extra = 0) (hp : Consumes c) {l : List α}
    (hfit : ∀ a ∈ l, c.Carries a) {e : Bytes} (henc : encodeAll c.encode l = .ok e)
    (k : Nat) : (decodeEach c.decode k).run e = .ok ((l, k + e.length), []) := by
  have hprogress := eachRound_progress hp
  have hgen : ∀ (acc : List α) (k : Nat),
      (whileLoop eachCond (eachRound c.decode) (acc, k)).run e =
        .ok ((acc ++ l, k + e.length), []) := by
    induction l generalizing e with
    | nil =>
        cases henc
        intro acc k
        rw [whileLoop_eq hprogress]
        simp [eachCond]
    | cons a l ih =>
        obtain ⟨e₁, e₂, h₁, h₂, rfl⟩ := encodeAll_cons_eq_ok henc
        have hread := c.reads (hfit a (by simp)).1 h₁ e₂
        have hlt := hp hread
        have hne : (e₁ ++ e₂).isEmpty = false := by
          rw [List.isEmpty_eq_false_iff]
          rintro hnil
          rw [hnil] at hlt
          simp at hlt
        intro acc k
        rw [whileLoop_eq hprogress]
        simp only [eachCond, hne, Bool.not_false, if_true, eachRound, run_bind, hread,
          Outcome.bind_ok, run_pure]
        rw [ih (fun b hb => hfit b (by simp [hb])) h₂]
        simp [hextra, Nat.add_assoc]
  exact hgen [] k

theorem decodeEach_length (hp : Consumes c) {k n : Nat} {l : List α} {src left : Bytes}
    (h : (decodeEach c.decode k).run src = .ok ((l, n), left)) :
    (l.map fun a => encodedLength (c.encode a)).sum + left.length ≤ src.length ∧
      ∀ a ∈ l, c.Carries a := by
  obtain ⟨hheads, -⟩ := (whileLoop_ok_iff (eachRound_progress hp)).mp h
  refine Heads.invariant
    (fun q => (q.1.1.map fun a => encodedLength (c.encode a)).sum + q.2.length ≤ src.length ∧
      ∀ a ∈ q.1.1, c.Carries a) hheads (by simp) ?_
  rintro ⟨st, src₁⟩ ⟨st', src₂⟩ hround ⟨hle, hfits⟩
  obtain ⟨a, j, hcodec, rfl⟩ := eachRound_ok hround.2
  obtain ⟨hcarries, hlen⟩ := Codec.carries_of_decode hcodec
  constructor
  · simp only [List.map_append, List.sum_append, List.map_cons, List.map_nil, List.sum_cons,
      List.sum_nil] at hle ⊢
    simp only at hlen
    omega
  · intro b hb
    rcases List.mem_append.mp hb with hb | hb
    · exact hfits b hb
    · rw [List.mem_singleton.mp hb]
      exact hcarries

end

/-! ## Structs -/

namespace Derived

variable {φ : Type}

def members (d : Derived σ) : List (Member σ) := d.header ++ d.nonAbbreviated

section

variable (order : HashOrder) (d : Derived σ)

def remainingLength (self : σ) : Nat :=
  match d.remaining with
  | none => 0
  | some r => ((r.get self).map fun a => encodedLength (r.codec.encode a)).sum

/-- The wire can carry every field of the value. -/
structure Fits (s : σ) : Prop where
  members : MembersFit order d.members s
  properties : SectionFits order d.properties s
  remaining : ∀ r, d.remaining = some r → ∀ a ∈ r.get s, r.codec.Carries a

end

/-- Everything a value of the struct is made of, but the vector at its end. -/
def slots (d : Derived σ) : List (Member σ) := d.members ++ d.properties.map Property.member

theorem forall_slots {d : Derived σ} {motive : Member σ → Prop} :
    (∀ m ∈ d.slots, motive m) ↔ (∀ m ∈ d.header, motive m) ∧ (∀ m ∈ d.nonAbbreviated, motive m) ∧
      ∀ p ∈ d.properties, motive p.member := by
  simp only [slots, members, List.forall_mem_append, List.forall_mem_map, and_assoc]

/-- `fixed` is what the codec does not touch, and `fresh` the value the decoder starts
from. -/
structure Lawful (d : Derived σ) (fixed : σ → φ) (fresh : σ) : Prop where
  exact : d.Exact
  required : ∀ m ∈ d.members, m.required = true
  optional : OptionalTail d.properties
  nodup : (d.properties.map Property.propertyType).Nodup
  apart : d.slots.Pairwise Member.Apart
  /-- Where a value is not counted, nothing follows the properties. -/
  counted : (∀ p ∈ d.properties, p.counted = true) ∨ d.remaining = none
  fixed_apply : ∀ m ∈ d.slots, ∀ s a, fixed (m.apply s a) = fixed s
  set_remaining : ∀ r, d.remaining = some r → ∀ s v, fixed (r.set s v) = fixed s ∧
    ∀ m ∈ d.slots, ∀ order, m.items order (r.set s v) = m.items order s
  /-- The abbreviated form is that of a value which has nothing but its header. -/
  abbreviated : ∀ order self, d.abbreviated order self = true →
    d.propertySize order self = 0 ∧ ∀ m ∈ d.nonAbbreviated, m.items order self = m.items order fresh
  abbreviated_remaining : d.abbreviatedWhen.isSome = true → d.remaining = none
  initial : ∀ order, ∀ m ∈ d.slots, m.Initial order fresh
  few : d.slots.length ≤ 64
  ext : ∀ order s s', fixed s = fixed s' →
    (∀ m ∈ d.slots, m.items order s = m.items order s') →
    (∀ r, d.remaining = some r → r.get s = r.get s') → s = s'

section

variable {order : HashOrder} {d : Derived σ} {self : σ} {fixed : σ → φ} {fresh : σ}

theorem encodeFull_eq_ok {e : Bytes} (h : d.encodeFull order self = .ok e) :
    ∃ e₁ e₂ e₃, encodeAll (Member.encode order self) d.nonAbbreviated = .ok e₁ ∧
      propertyEncode order d.properties self = .ok e₂ ∧ d.encodeRemaining self = .ok e₃ ∧
      e = e₁ ++ e₂ ++ e₃ := by
  unfold encodeFull at h
  obtain ⟨e₁, h₁, h⟩ := enc_bind_eq_ok.mp h
  obtain ⟨e₂, h₂, h⟩ := enc_bind_eq_ok.mp h
  obtain ⟨e₃, h₃, h⟩ := enc_bind_eq_ok.mp h
  cases h
  exact ⟨e₁, e₂, e₃, h₁, h₂, h₃, rfl⟩

theorem encodeBody_eq_ok {e : Bytes} (h : d.encodeBody order self = .ok e) :
    ∃ e₁, encodeAll (Member.encode order self) d.header = .ok e₁ ∧
      ((d.abbreviated order self = true ∧ e = e₁) ∨
        (d.abbreviated order self = false ∧
          ∃ e₂, d.encodeFull order self = .ok e₂ ∧ e = e₁ ++ e₂)) := by
  unfold encodeBody at h
  obtain ⟨e₁, h₁, h⟩ := enc_bind_eq_ok.mp h
  refine ⟨e₁, h₁, ?_⟩
  cases habb : d.abbreviated order self with
  | true =>
      rw [habb, if_pos rfl] at h
      cases h
      exact .inl ⟨rfl, rfl⟩
  | false =>
      rw [habb, if_neg (by simp)] at h
      obtain ⟨e₂, h₂, h⟩ := enc_bind_eq_ok.mp h
      cases h
      exact .inr ⟨rfl, e₂, h₂, rfl⟩

/-- The form in full has at least the property length. -/
theorem encodeFull_ne_nil {e₁ e₂ e₃ : Bytes} {b : Prop}
    (h : propertyEncode order d.properties self = .ok e₂) :
    ¬ (b ∧ (e₁ ++ e₂ ++ e₃).length = 0) := by
  rintro ⟨-, hzero⟩
  obtain ⟨e, -, rfl⟩ := propertyEncode_eq_ok h
  have := varIntEncoding_length_pos (Mqtt.propertySize order d.properties self)
  simp only [List.length_append] at hzero
  omega

theorem encodeRemaining_length {e : Bytes} (h : d.encodeRemaining self = .ok e) :
    e.length = d.remainingLength self := by
  unfold encodeRemaining at h
  unfold remainingLength
  cases hr : d.remaining with
  | none =>
      rw [hr] at h
      cases h
      rfl
  | some r =>
      rw [hr] at h
      exact encodeAll_length h

/-- All sizes of the struct agree with what is written. -/
structure Sizes (order : HashOrder) (d : Derived σ) (s : σ) : Prop where
  members : MembersSizes order d.members s
  properties : SectionSizes order d.properties s
  remaining : ∀ r, d.remaining = some r → ∀ a ∈ r.get s, r.codec.SizeAgrees a

theorem Fits.sizes (h : d.Fits order self) : d.Sizes order self where
  members := h.members.sizes
  properties := h.properties.sizes
  remaining r hr a ha := Codec.sizeAgrees_of_fits (h.remaining r hr a ha).1

theorem remainingSize_eq (hsizes : d.Sizes order self) {e : Bytes}
    (h : d.encodeRemaining self = .ok e) : d.remainingSize self = UInt32.ofNat e.length := by
  unfold remainingSize
  unfold encodeRemaining at h
  cases hr : d.remaining with
  | none =>
      rw [hr] at h
      cases h
      rfl
  | some r =>
      rw [hr] at h
      exact encodeAll_size h (hsizes.remaining r hr)

theorem membersLength_append (ms ms' : List (Member σ)) :
    membersLength order (ms ++ ms') self =
      membersLength order ms self + membersLength order ms' self := by
  simp [membersLength]

/-- The body has what its parts have and a property length. -/
theorem encodeBody_length_le {e : Bytes} (h : d.encodeBody order self = .ok e) :
    e.length ≤ membersLength order d.members self + propertyLength order d.properties self +
      d.remainingLength self + 5 := by
  obtain ⟨e₁, h₁, hcase⟩ := encodeBody_eq_ok h
  have hlen₁ := membersEncode_length h₁
  rw [members, membersLength_append]
  rcases hcase with ⟨-, rfl⟩ | ⟨-, e₂, h₂, rfl⟩
  · omega
  · obtain ⟨e₃, e₄, e₅, h₃, h₄, h₅, rfl⟩ := encodeFull_eq_ok h₂
    obtain ⟨e₆, h₆, rfl⟩ := propertyEncode_eq_ok h₄
    have hlen₃ := membersEncode_length h₃
    have hlen₅ := encodeRemaining_length h₅
    have hlen₆ := encodeItems_length h₆
    have hvar := varIntEncoding_length_le_five (Mqtt.propertySize order d.properties self)
    simp only [List.length_append, propertyLength]
    omega

/-- The size functions count what the encoder writes. -/
theorem codecSize_eq (hnone : d.abbreviatedWhen.isSome = true → d.remaining = none)
    (hsizes : d.Sizes order self) {e : Bytes} (h : d.encodeBody order self = .ok e)
    (hlen : e.length ≤ 268435455) : d.codecSize order self = UInt32.ofNat e.length := by
  obtain ⟨e₁, h₁, hcase⟩ := encodeBody_eq_ok h
  have hheader := sum_memberSize (fun m hm => hsizes.members m (by simp [members, hm])) h₁
  simp only [codecSize, hheader]
  rcases hcase with ⟨habb, rfl⟩ | ⟨habb, e₂, h₂, rfl⟩
  · -- an abbreviated packet has no vector at its end
    have hsome : d.abbreviatedWhen.isSome = true := by
      unfold abbreviated at habb
      split at habb
      · cases habb
      · simp [*]
    rw [habb, if_pos rfl, remainingSize, hnone hsome]
    exact UInt32.add_zero _
  · obtain ⟨e₃, e₄, e₅, h₃, h₄, h₅, rfl⟩ := encodeFull_eq_ok h₂
    have hfields := sum_memberSize (fun m hm => hsizes.members m (by simp [members, hm])) h₃
    have hle := propertyLength_le_section h₄
    simp only [List.length_append] at hlen
    have hsection := sectionSize_eq hsizes.properties (by omega) h₄
    rw [habb, if_neg (by simp), UInt32.add_assoc]
    simp only [propertySize, hsection, hfields, remainingSize_eq hsizes h₅, List.length_append,
      ← UInt32.ofNat_add]
    congr 1
    omega

namespace Lawful

theorem header_mem {m : Member σ} (hm : m ∈ d.header) : m ∈ d.members := by
  simp [Derived.members, hm]

theorem nonAbbreviated_mem {m : Member σ} (hm : m ∈ d.nonAbbreviated) : m ∈ d.members := by
  simp [Derived.members, hm]

theorem members_mem {m : Member σ} (hm : m ∈ d.members) : m ∈ d.slots :=
  List.mem_append_left _ hm

theorem properties_mem {p : Property σ} (hp : p ∈ d.properties) : p.member ∈ d.slots :=
  List.mem_append_right _ (List.mem_map_of_mem hp)

theorem members (hl : d.Lawful fixed fresh) : Members d.members where
  required := hl.required
  exact m hm := by
    rcases List.mem_append.mp hm with hm | hm
    · exact hl.exact.header m hm
    · exact hl.exact.nonAbbreviated m hm
  apart := (List.pairwise_append.mp hl.apart).1

theorem table (hl : d.Lawful fixed fresh) : Table d.properties where
  nodup := hl.nodup
  apart := List.pairwise_map.mp (List.pairwise_append.mp hl.apart).2.1

theorem members_apart (hl : d.Lawful fixed fresh) {m : Member σ} (hm : m ∈ d.members)
    {p : Property σ} (hp : p ∈ d.properties) : m.Apart p.member :=
  (List.pairwise_append.mp hl.apart).2.2 m hm p.member (List.mem_map_of_mem hp)

theorem initial_members (hl : d.Lawful fixed fresh) (order : HashOrder) :
    ∀ m ∈ d.members, m.Initial order fresh :=
  fun m hm => hl.initial order m (members_mem hm)

theorem initial_properties (hl : d.Lawful fixed fresh) (order : HashOrder) :
    ∀ p ∈ d.properties, p.member.Initial order fresh :=
  fun p hp => hl.initial order p.member (properties_mem hp)

theorem unset (hl : d.Lawful fixed fresh) (order : HashOrder) : Fresh order d.properties fresh :=
  fresh_initial (hl.initial_properties order)

theorem header (hl : d.Lawful fixed fresh) : Members d.header := hl.members.append_left

theorem nonAbbreviated (hl : d.Lawful fixed fresh) : Members d.nonAbbreviated :=
  hl.members.append_right

theorem header_apart (hl : d.Lawful fixed fresh) {m m' : Member σ} (hm : m ∈ d.header)
    (hm' : m' ∈ d.nonAbbreviated) : m.Apart m' :=
  (List.pairwise_append.mp hl.members.apart).2.2 m hm m' hm'

/-- The value after the header, the other members and the properties of `self` were
stored in a fresh one. -/
def rebuilt (order : HashOrder) (d : Derived σ) (self fresh : σ) : σ :=
  applyItems (propertyItems order d.properties self)
    (applyMembers order d.nonAbbreviated self (applyMembers order d.header self fresh))

theorem fresh_applyMembers (hl : d.Lawful fixed fresh) {ms : List (Member σ)}
    (hms : ∀ m ∈ ms, m ∈ d.members) (self : σ) {s : σ} (hs : Fresh order d.properties s) :
    Fresh order d.properties (applyMembers order ms self s) := by
  intro p hp
  rw [applyMembers_frame (fun s => p.member.items order s)]
  · exact hs p hp
  · intro m hm s a
    exact (hl.members_apart (hms m hm) hp order s).2 a

theorem items_rebuilt (hl : d.Lawful fixed fresh) {p : Property σ} (hp : p ∈ d.properties) :
    p.member.items order (rebuilt order d self fresh) = p.member.items order self := by
  refine items_applyItems hl.table self ?_ hp
  exact hl.fresh_applyMembers (fun m => nonAbbreviated_mem) self
    (hl.fresh_applyMembers (fun m => header_mem) self (hl.unset order))

theorem members_rebuilt (hl : d.Lawful fixed fresh) {m : Member σ} (hm : m ∈ d.members) :
    m.items order (rebuilt order d self fresh) = m.items order self := by
  unfold rebuilt
  rw [applyItems_frame (fun s => m.items order s)]
  · rcases List.mem_append.mp hm with hm' | hm'
    · rw [applyMembers_frame (fun s => m.items order s)]
      · exact items_applyMembers hl.header self fresh hm'
      · intro m' hm'' s a
        exact (hl.header_apart hm' hm'' order s).1 a
    · exact items_applyMembers hl.nonAbbreviated self _ hm'
  · intro i hi s a
    exact (hl.members_apart hm (mem_propertyItems.mp hi).1 order s).1 a

theorem slots_rebuilt (hl : d.Lawful fixed fresh) {m : Member σ} (hm : m ∈ d.slots) :
    m.items order (rebuilt order d self fresh) = m.items order self := by
  rcases List.mem_append.mp hm with hm | hm
  · exact hl.members_rebuilt hm
  · obtain ⟨p, hp, rfl⟩ := List.mem_map.mp hm
    exact hl.items_rebuilt hp

theorem fixed_rebuilt (hl : d.Lawful fixed fresh) :
    fixed (rebuilt order d self fresh) = fixed fresh := by
  unfold rebuilt
  rw [applyItems_frame fixed, applyMembers_frame fixed, applyMembers_frame fixed]
  · exact fun m hm => hl.fixed_apply m (members_mem (header_mem hm))
  · exact fun m hm => hl.fixed_apply m (members_mem (nonAbbreviated_mem hm))
  · exact fun i hi => hl.fixed_apply _ (properties_mem (mem_propertyItems.mp hi).1)

theorem rebuilt_eq (hl : d.Lawful fixed fresh) (hfixed : fixed self = fixed fresh)
    (hnone : d.remaining = none) : rebuilt order d self fresh = self :=
  hl.ext order _ _ (hl.fixed_rebuilt.trans hfixed.symm) (fun _ hm => hl.slots_rebuilt hm)
    (by simp [hnone])

theorem set_rebuilt_eq (hl : d.Lawful fixed fresh) (hfixed : fixed self = fixed fresh)
    {r : Remaining σ} (hr : d.remaining = some r) :
    r.set (rebuilt order d self fresh) (r.get self) = self := by
  have hset := hl.set_remaining r hr (rebuilt order d self fresh) (r.get self)
  refine hl.ext order _ _ ?_ ?_ ?_
  · rw [hset.1, hl.fixed_rebuilt, hfixed]
  · intro m hm
    rw [hset.2 m hm, hl.slots_rebuilt hm]
  · intro r' hr'
    rw [hr] at hr'
    cases hr'
    exact r.lens _ _

/-- A value without properties that has its abbreviated form. -/
theorem rebuilt_of_abbreviated (hl : d.Lawful fixed fresh) (hfixed : fixed self = fixed fresh)
    (habb : d.abbreviated order self = true) (hnone : d.remaining = none)
    (hitems : propertyItems order d.properties self = []) :
    applyMembers order d.header self fresh = self := by
  refine hl.ext order _ _ ?_ ?_ (by simp [hnone])
  · rw [applyMembers_frame fixed fun m hm => hl.fixed_apply m (members_mem (header_mem hm)), hfixed]
  intro m hm
  rcases List.mem_append.mp hm with hm | hm
  · rcases List.mem_append.mp hm with hm' | hm'
    · exact items_applyMembers hl.header self fresh hm'
    · rw [applyMembers_frame (fun s => m.items order s)
        fun m' hm'' s a => (hl.header_apart hm'' hm' order s).2 a]
      exact ((hl.abbreviated order self habb).2 m hm').symm
  · obtain ⟨p, hp, rfl⟩ := List.mem_map.mp hm
    have hself : p.member.items order self = [] := by
      by_contra hne
      obtain ⟨a, ha⟩ := List.exists_mem_of_ne_nil _ hne
      have hmem : (⟨p, a⟩ : Item σ) ∈ propertyItems order d.properties self :=
        mem_propertyItems.mpr ⟨hp, ha⟩
      rw [hitems] at hmem
      cases hmem
    rcases hl.fresh_applyMembers (fun m => header_mem) self (hl.unset order) p hp with hreq | hnil
    · have := p.member.length_of_required hreq order self
      rw [hself] at this
      cases this
    · rw [hnil, hself]

theorem remaining_none_of_abbreviated (hl : d.Lawful fixed fresh)
    (habb : d.abbreviated order self = true) :
    d.abbreviatedWhen.isSome = true ∧ d.remaining = none := by
  have hsome : d.abbreviatedWhen.isSome = true := by
    unfold Derived.abbreviated at habb
    split at habb
    · cases habb
    · simp [*]
  exact ⟨hsome, hl.abbreviated_remaining hsome⟩

theorem decodeRemaining_reads (hl : d.Lawful fixed fresh) (hfit : d.Fits order self) {e : Bytes}
    (henc : d.encodeRemaining self = .ok e) (s : σ) (k : Nat) :
    (d.decodeRemaining s k).run e =
      .ok ((match d.remaining with | none => s | some r => r.set s (r.get self), k + e.length),
        []) := by
  unfold encodeRemaining at henc
  unfold decodeRemaining
  cases hr : d.remaining with
  | none =>
      rw [hr] at henc
      cases henc
      rfl
  | some r =>
      rw [hr] at henc
      simp only [run_bind, decodeEach_reads (hl.exact.remaining r hr) r.progress (hfit.remaining r hr) henc k,
        Outcome.bind_ok, run_pure]

theorem propertyItems_of_abbreviated (hl : d.Lawful fixed fresh) (hfit : d.Fits order self)
    (hlen : propertyLength order d.properties self < 2 ^ 32)
    (habb : d.abbreviated order self = true) : propertyItems order d.properties self = [] := by
  have hsize := propertySize_toNat hfit.properties hlen
  have hzero : Mqtt.propertySize order d.properties self = 0 := (hl.abbreviated order self habb).1
  rw [hzero] at hsize
  exact items_eq_nil_of_length hsize.symm

theorem propertyLength_le_body (hl : d.Lawful fixed fresh) (hfit : d.Fits order self)
    (hlen : propertyLength order d.properties self < 2 ^ 32) {e : Bytes}
    (henc : d.encodeBody order self = .ok e) :
    propertyLength order d.properties self ≤ e.length := by
  obtain ⟨e₁, -, hcase⟩ := encodeBody_eq_ok henc
  rcases hcase with ⟨habb, -⟩ | ⟨-, e₂, h₂, rfl⟩
  · rw [propertyLength, hl.propertyItems_of_abbreviated hfit hlen habb]
    exact Nat.zero_le _
  · obtain ⟨e₃, e₄, e₅, -, h₄, -, rfl⟩ := encodeFull_eq_ok h₂
    obtain ⟨e₆, h₆, rfl⟩ := propertyEncode_eq_ok h₄
    have hlen₆ := encodeItems_length h₆
    simp only [List.length_append, propertyLength]
    omega

/-- A struct whose property section is paced reads back. -/
theorem decode_reads (hl : d.Lawful fixed fresh) (hfixed : fixed self = fixed fresh)
    (hfit : d.Fits order self) (hlen : propertyLength order d.properties self ≤ 2097151)
    (hpaced : Paced (propertyItems order d.properties self)) {e : Bytes}
    (henc : d.encodeBody order self = .ok e) :
    (d.decode fresh).run e =
      .ok ((self, e.length + itemsExtra (propertyItems order d.properties self)), []) := by
  obtain ⟨e₁, h₁, hcase⟩ := encodeBody_eq_ok henc
  have hheader := decodeMembers_reads hl.header (fun m hm => hfit.members m (header_mem hm)) h₁
    fresh 0
  rcases hcase with ⟨habb, rfl⟩ | ⟨habb, e₂, h₂, rfl⟩
  · obtain ⟨hsome, hnone⟩ := hl.remaining_none_of_abbreviated habb
    have hitems := hl.propertyItems_of_abbreviated hfit (by omega) habb
    simp only [Derived.decode, run_bind, hheader.run_nil, Outcome.bind_ok, run_remaining, hsome,
      List.length_nil, and_self, if_true, run_pure,
      hl.rebuilt_of_abbreviated hfixed habb hnone hitems, hitems]
    simp [itemsExtra]
  · obtain ⟨e₃, e₄, e₅, h₃, h₄, h₅, rfl⟩ := encodeFull_eq_ok h₂
    have hmore : ¬ (d.abbreviatedWhen.isSome = true ∧ (e₃ ++ e₄ ++ e₅).length = 0) :=
      encodeFull_ne_nil h₄
    have hfields := decodeMembers_reads hl.nonAbbreviated
      (fun m hm => hfit.members m (nonAbbreviated_mem hm)) h₃
      (applyMembers order d.header self fresh) (0 + e₁.length)
    have hprops := decodeProperties_reads unsupportedProperty hl.table hfit.properties h₄ hlen hpaced
      (applyMembers order d.nonAbbreviated self (applyMembers order d.header self fresh))
      (0 + e₁.length + e₃.length)
    have hrest := hl.decodeRemaining_reads hfit h₅ (rebuilt order d self fresh)
      (0 + e₁.length + e₃.length + e₄.length +
        itemsExtra (propertyItems order d.properties self))
    simp only [Derived.decode, run_bind, hheader (e₃ ++ e₄ ++ e₅), Outcome.bind_ok, run_remaining,
      if_neg hmore, decodeFull]
    rw [List.append_assoc, hfields (e₄ ++ e₅), Outcome.bind_ok, hprops e₅, Outcome.bind_ok]
    refine hrest.trans ?_
    congr 2
    have hself : (match d.remaining with
        | none => rebuilt order d self fresh
        | some r => r.set (rebuilt order d self fresh) (r.get self)) = self := by
      cases hr : d.remaining with
      | none => exact hl.rebuilt_eq hfixed hr
      | some r => exact hl.set_rebuilt_eq hfixed hr
    rw [hself]
    congr 1
    simp only [List.length_append]
    omega

/-! What a decoder returns can be written again. -/

/-- The stages of a decoder that succeeds. -/
theorem decode_ok {s : σ} {n : Nat} {src left : Bytes}
    (h : (d.decode fresh).run src = .ok ((s, n), left)) :
    ∃ s₁ n₁ src₁, (decodeMembers d.header fresh 0).run src = .ok ((s₁, n₁), src₁) ∧
      ((d.abbreviatedWhen.isSome = true ∧ s = s₁) ∨
        ∃ s₂ n₂ src₂ s₃ n₃ src₃,
          (decodeMembers d.nonAbbreviated s₁ n₁).run src₁ = .ok ((s₂, n₂), src₂) ∧
          (decodeProperties d.properties unsupportedProperty s₂ n₂).run src₂ =
            .ok ((s₃, n₃), src₃) ∧
          (d.decodeRemaining s₃ n₃).run src₃ = .ok ((s, n), left)) := by
  simp only [Derived.decode, run_bind, run_remaining, Outcome.bind_ok] at h
  obtain ⟨⟨⟨s₁, n₁⟩, src₁⟩, h₁, h⟩ := Outcome.bind_eq_ok.mp h
  refine ⟨s₁, n₁, src₁, h₁, ?_⟩
  split at h
  · rename_i hcond
    cases h
    exact .inl ⟨hcond.1, rfl⟩
  · simp only [decodeFull, run_bind] at h
    obtain ⟨⟨⟨s₂, n₂⟩, src₂⟩, h₂, h⟩ := Outcome.bind_eq_ok.mp h
    obtain ⟨⟨⟨s₃, n₃⟩, src₃⟩, h₃, h⟩ := Outcome.bind_eq_ok.mp h
    exact .inr ⟨s₂, n₂, src₂, s₃, n₃, src₃, h₂, h₃, h⟩

/-- What the vector at the end stores. -/
theorem decodeRemaining_ok {s s' : σ} {k n : Nat} {src left : Bytes}
    (h : (d.decodeRemaining s k).run src = .ok ((s', n), left)) :
    (d.remaining = none ∧ s' = s ∧ left = src) ∨
      ∃ r l, d.remaining = some r ∧ s' = r.set s l ∧
        (l.map fun a => encodedLength (r.codec.encode a)).sum + left.length ≤ src.length ∧
        ∀ a ∈ l, r.codec.Carries a := by
  unfold decodeRemaining at h
  cases hr : d.remaining with
  | none =>
      rw [hr] at h
      cases h
      exact .inl ⟨rfl, rfl, rfl⟩
  | some r =>
      rw [hr] at h
      simp only [run_bind] at h
      obtain ⟨⟨⟨l, k'⟩, src'⟩, heach, h⟩ := Outcome.bind_eq_ok.mp h
      cases h
      obtain ⟨hle, hfits⟩ := decodeEach_length r.progress heach
      exact .inr ⟨r, l, rfl, rfl, hle, hfits⟩

theorem decode_fits (hl : d.Lawful fixed fresh) (order : HashOrder) {s : σ} {n : Nat}
    {src left : Bytes} (h : (d.decode fresh).run src = .ok ((s, n), left)) :
    d.Fits order s ∧ fixed s = fixed fresh ∧
      membersLength order d.members s + propertyLength order d.properties s +
        d.remainingLength s ≤ src.length + 65536 := by
  have hfresh : MembersFit order d.members fresh :=
    fun m hm => (hl.initial_members order m hm).carries
  have hsmall := membersLength_initial (hl.initial_members order)
  have hsmall' := propertyLength_initial (hl.initial_properties order)
  have hfew := hl.few
  rw [slots, List.length_append, List.length_map] at hfew
  have hapart := hl.members.apart
  -- the stages that store members leave the properties alone
  have hprops : ∀ {ms : List (Member σ)} {s s' : σ} {k n : Nat} {src left : Bytes},
      (∀ m ∈ ms, m ∈ d.members) → (decodeMembers ms s k).run src = .ok ((s', n), left) →
      ∀ p ∈ d.properties, p.member.items order s = p.member.items order s' :=
    fun hms hrun p hp => (decodeMembers_frame (fun s => p.member.items order s)
      (fun m hm s a => (hl.members_apart (hms m hm) hp order s).2 a) hrun).symm
  obtain ⟨s₁, n₁, src₁, h₁, hcase⟩ := decode_ok h
  have hprops₁ := hprops (fun m => header_mem) h₁
  have hfixed₁ : fixed s₁ = fixed fresh :=
    decodeMembers_frame fixed (fun m hm => hl.fixed_apply m (members_mem (header_mem hm))) h₁
  obtain ⟨hlen₁, hfit₁⟩ := decodeMembers_length hapart (fun m => header_mem) order h₁ hfresh
  have hsection₁ :=
    sectionFits_congr hprops₁ (sectionFits_initial (hl.initial_properties order))
  have hplen₁ := propertyLength_congr hprops₁
  rcases hcase with ⟨hsome, rfl⟩ | ⟨s₂, n₂, src₂, s₃, n₃, src₃, h₂, h₃, h₄⟩
  · have hnone := hl.abbreviated_remaining hsome
    have hsuffix := (Decoder.suffix _ h₁).length_le
    have hrest : d.remainingLength s = 0 := by simp [remainingLength, hnone]
    refine ⟨⟨hfit₁, hsection₁, by simp [hnone]⟩, hfixed₁, ?_⟩
    omega
  · have hprops₂ := hprops (fun m => nonAbbreviated_mem) h₂
    obtain ⟨hlen₂, hfit₂⟩ :=
      decodeMembers_length hapart (fun m => nonAbbreviated_mem) order h₂ hfit₁
    have hfixed₂ : fixed s₂ = fixed s₁ :=
      decodeMembers_frame fixed (fun m hm => hl.fixed_apply m (members_mem (nonAbbreviated_mem hm))) h₂
    have hplen₂ := propertyLength_congr hprops₂
    obtain ⟨hlen₃, hsection₃⟩ :=
      decodeProperties_length hl.table order h₃ (sectionFits_congr hprops₂ hsection₁)
    have hfixed₃ : fixed s₃ = fixed s₂ := 
      decodeProperties_frame fixed (fun p hp => hl.fixed_apply _ (properties_mem hp)) h₃
    have hmembers : ∀ m ∈ d.members, m.items order s₂ = m.items order s₃ := fun m hm =>
      (decodeProperties_frame (fun s => m.items order s)
        (fun p hp s a => (hl.members_apart hm hp order s).1 a) h₃).symm
    have hfit₃ := membersFit_congr hmembers hfit₂
    have hmlen₃ := membersLength_congr hmembers
    rcases decodeRemaining_ok h₄ with ⟨hnone, rfl, -⟩ | ⟨r, l, hr, rfl, hle, hfits⟩
    · have hrest : d.remainingLength s = 0 := by simp [remainingLength, hnone]
      refine ⟨⟨hfit₃, hsection₃, by simp [hnone]⟩, by rw [hfixed₃, hfixed₂, hfixed₁], ?_⟩
      omega
    · have hset := hl.set_remaining r hr s₃ l
      have hsetm : ∀ m ∈ d.members, m.items order s₃ = m.items order (r.set s₃ l) :=
        fun m hm => (hset.2 m (members_mem hm) order).symm
      have hsetp : ∀ p ∈ d.properties,
          p.member.items order s₃ = p.member.items order (r.set s₃ l) :=
        fun p hp => (hset.2 p.member (properties_mem hp) order).symm
      have hrest : d.remainingLength (r.set s₃ l) =
          (l.map fun a => encodedLength (r.codec.encode a)).sum := by
        simp only [remainingLength, hr, r.lens]
      refine ⟨⟨membersFit_congr hsetm hfit₃, sectionFits_congr hsetp hsection₃, ?_⟩, ?_, ?_⟩
      · intro r' hr' a ha
        rw [hr] at hr'
        cases hr'
        rw [r.lens] at ha
        exact hfits a ha
      · rw [hset.1, hfixed₃, hfixed₂, hfixed₁]
      · rw [hrest, ← membersLength_congr hsetm, ← propertyLength_congr hsetp]
        omega

/-- A struct reads back only if its property section is paced. -/
theorem paced_of_decode (hl : d.Lawful fixed fresh) (hfit : d.Fits order self)
    (hlen : propertyLength order d.properties self ≤ 2097151) {e : Bytes}
    (henc : d.encodeBody order self = .ok e) {n : Nat} {left : Bytes}
    (h : (d.decode fresh).run e = .ok ((self, n), left)) :
    Paced (propertyItems order d.properties self) := by
  obtain ⟨e₁, h₁, hcase⟩ := encodeBody_eq_ok henc
  have hheader := decodeMembers_reads hl.header (fun m hm => hfit.members m (header_mem hm)) h₁
    fresh 0
  rcases hcase with ⟨habb, rfl⟩ | ⟨habb, e₂, h₂, rfl⟩
  · rw [hl.propertyItems_of_abbreviated hfit (by omega) habb]
    exact paced_nil
  · obtain ⟨e₃, e₄, e₅, h₃, h₄, h₅, rfl⟩ := encodeFull_eq_ok h₂
    have hfields := decodeMembers_reads hl.nonAbbreviated
      (fun m hm => hfit.members m (nonAbbreviated_mem hm)) h₃
      (applyMembers order d.header self fresh) (0 + e₁.length)
    have hmore : ¬ (d.abbreviatedWhen.isSome = true ∧ (e₃ ++ e₄ ++ e₅).length = 0) :=
      encodeFull_ne_nil h₄
    simp only [Derived.decode, run_bind, hheader (e₃ ++ e₄ ++ e₅), Outcome.bind_ok, run_remaining,
      if_neg hmore, decodeFull] at h
    rw [List.append_assoc, hfields (e₄ ++ e₅), Outcome.bind_ok] at h
    obtain ⟨⟨⟨s, k⟩, left'⟩, hprops, h⟩ := Outcome.bind_eq_ok.mp h
    rcases decodeProperties_inv hl.table hfit.properties h₄ hlen hprops with
      ⟨front, back, heq, hne, hle, rfl⟩ | hpaced | ⟨hlate, hless⟩
    · -- the properties it lost are missing in the end
      exfalso
      have hfresh := hl.fresh_applyMembers (fun m => nonAbbreviated_mem) self
        (hl.fresh_applyMembers (fun m => header_mem) self (hl.unset order))
      refine items_ne_of_early hl.table hl.optional hfresh heq hne hle ?_
      intro p hp
      rcases decodeRemaining_ok h with ⟨-, hself, -⟩ | ⟨r, l, hr, hself, -, -⟩
      · exact congrArg (p.member.items order) hself.symm
      · exact ((hl.set_remaining r hr _ l).2 p.member (properties_mem hp) order).symm.trans
          (congrArg (p.member.items order) hself.symm)
    · exact hpaced
    · -- it goes on behind the section only if something is not counted
      exfalso
      rcases hl.counted with hcounted | hnone
      · have := propertyLength_le_charge order hcounted self
        omega
      · rw [encodeRemaining, hnone] at h₅
        cases h₅
        simp at hless

end Lawful

end

end Derived

end Mqtt
end Vaux
