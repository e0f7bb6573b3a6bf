import Vaux.Mqtt.DeriveLayout

/-!
# Property sections that are written and read back

The encoder writes the properties of a struct in the order of its table; the loop
of the decoder reads them one by one for as long as its counter is below the length
of the section.  `section_heads` follows the loop over the bytes of some properties:
either the counter reaches the length before a property that is still to come, or
the loop comes to the end of the section.

`SectionBytes` are such bytes behind their length, in any order, and `Paced` is the
condition under which the loop stops at their end.  Under it the section reads back
(`SectionBytes.reads`, `decodeProperties_reads`); `SectionBytes.inv` and
`decodeProperties_inv` say what happens otherwise.  `decodeProperties_length` bounds
what a decoded value needs when it is written again.
-/

namespace Vaux
namespace Mqtt

open Wire Decoder

/-! ## Lengths -/

/-- The number of bytes written, none if the encoder fails. -/
def encodedLength : Enc → Nat
  | .ok e => e.length
  | .error _ => 0

@[simp] theorem encodedLength_ok (e : Bytes) : encodedLength (.ok e) = e.length := rfl

theorem enc_bind_eq_ok {x : Enc} {f : Bytes → Enc} {e : Bytes} :
    (x >>= f) = .ok e ↔ ∃ a, x = .ok a ∧ f a = .ok e := by
  cases x <;> simp [bind, Except.bind]

section

variable {α : Type*} {encode : α → Enc}

theorem encodeAll_cons_eq_ok {a : α} {l : List α} {e : Bytes}
    (h : encodeAll encode (a :: l) = .ok e) :
    ∃ e₁ e₂, encode a = .ok e₁ ∧ encodeAll encode l = .ok e₂ ∧ e = e₁ ++ e₂ := by
  rw [encodeAll] at h
  obtain ⟨e₁, h₁, h⟩ := enc_bind_eq_ok.mp h
  obtain ⟨e₂, h₂, h⟩ := enc_bind_eq_ok.mp h
  cases h
  exact ⟨e₁, e₂, h₁, h₂, rfl⟩

theorem encodeAll_singleton_eq_ok {a : α} {e : Bytes} (h : encodeAll encode [a] = .ok e) :
    encode a = .ok e := by
  obtain ⟨e₁, e₂, h₁, h₂, rfl⟩ := encodeAll_cons_eq_ok h
  cases h₂
  rw [List.append_nil, h₁]

theorem encodeAll_length {l : List α} {e : Bytes} (h : encodeAll encode l = .ok e) :
    e.length = (l.map fun a => encodedLength (encode a)).sum := by
  induction l generalizing e with
  | nil =>
      cases h
      rfl
  | cons a l ih =>
      obtain ⟨e₁, e₂, h₁, h₂, rfl⟩ := encodeAll_cons_eq_ok h
      rw [List.length_append, ih h₂, List.map_cons, List.sum_cons, h₁, encodedLength_ok]

/-- Sizes that agree one by one add up to the number of bytes written. -/
theorem encodeAll_size {size : α → UInt32} {l : List α} {e : Bytes}
    (h : encodeAll encode l = .ok e)
    (hsize : ∀ a ∈ l, ∀ e', encode a = .ok e' → size a = UInt32.ofNat e'.length) :
    (l.map size).sum = UInt32.ofNat e.length := by
  induction l generalizing e with
  | nil =>
      cases h
      rfl
  | cons a l ih =>
      obtain ⟨e₁, e₂, h₁, h₂, rfl⟩ := encodeAll_cons_eq_ok h
      rw [List.map_cons, List.sum_cons, List.length_append, UInt32.ofNat_add,
        hsize a (by simp) e₁ h₁, ih h₂ fun b hb => hsize b (by simp [hb])]

theorem encode_eq_ok_of_mem {l : List α} {e : Bytes} (h : encodeAll encode l = .ok e) {a : α}
    (ha : a ∈ l) : ∃ e', encode a = .ok e' := by
  induction l generalizing e with
  | nil => cases ha
  | cons b l ih =>
      obtain ⟨e₁, e₂, h₁, h₂, -⟩ := encodeAll_cons_eq_ok h
      rcases List.mem_cons.mp ha with rfl | ha
      · exact ⟨e₁, h₁⟩
      · exact ih h₂ ha

/-- Sizes add up as lengths do, modulo what an `u32` holds. -/
theorem sum_size_eq {size : α → UInt32} {length : α → Nat} {l : List α}
    (h : ∀ a ∈ l, size a = UInt32.ofNat (length a)) :
    (l.map size).sum = UInt32.ofNat (l.map length).sum := by
  induction l with
  | nil => rfl
  | cons a l ih =>
      rw [List.map_cons, List.sum_cons, List.map_cons, List.sum_cons, UInt32.ofNat_add,
        h a (by simp), ih fun b hb => h b (by simp [hb])]

end

/-- The wire can carry the value: it can be written, and what is written reads back. -/
def Codec.Carries {α : Type} (c : Codec α) (a : α) : Prop :=
  c.Fits a ∧ ∃ e, c.encode a = .ok e

section

variable {α : Type} {c : Codec α}

theorem Codec.Carries.size_eq {a : α} (h : c.Carries a) :
    c.size a = UInt32.ofNat (encodedLength (c.encode a)) := by
  obtain ⟨hfit, e, he⟩ := h
  rw [he, c.size_eq hfit he, encodedLength_ok]

/-- The size of the value is the number of bytes written for it. -/
def Codec.SizeAgrees (c : Codec α) (a : α) : Prop :=
  ∀ e, c.encode a = .ok e → c.size a = UInt32.ofNat e.length

theorem Codec.sizeAgrees_of_fits {a : α} (h : c.Fits a) : c.SizeAgrees a :=
  fun _ he => c.size_eq h he

/-- What was read can be written in no more bytes. -/
theorem Codec.carries_of_decode {src : Bytes} {a : α} {n : Nat} {rest : Bytes}
    (h : c.decode.run src = .ok ((a, n), rest)) :
    c.Carries a ∧ encodedLength (c.encode a) + rest.length ≤ src.length := by
  obtain ⟨hfit, e, he, hlen⟩ := c.reencodes h
  exact ⟨⟨hfit, e, he⟩, by rwa [he, encodedLength_ok]⟩

end

variable {σ : Type}

namespace Item

/-- The bytes of a property on the wire. -/
def length (i : Item σ) : Nat := 1 + encodedLength (i.property.member.codec.encode i.value)

/-- What the decoder adds to `property_bytes_read` for it. -/
def charge (i : Item σ) : Nat :=
  i.property.entry.charge (encodedLength (i.property.member.codec.encode i.value))

def Fits (i : Item σ) : Prop := i.property.member.codec.Carries i.value

theorem encode_eq_ok {i : Item σ} {e : Bytes} (h : i.encode = .ok e) :
    ∃ e', i.property.member.codec.encode i.value = .ok e' ∧
      e = i.property.propertyType.toU8 :: e' := by
  unfold encode at h
  obtain ⟨e', h', h⟩ := enc_bind_eq_ok.mp h
  cases h
  exact ⟨e', h', rfl⟩

theorem encodedLength_encode {i : Item σ} {e : Bytes} (h : i.encode = .ok e) :
    encodedLength i.encode = i.length := by
  obtain ⟨e', h', rfl⟩ := encode_eq_ok h
  rw [h, length, h']
  simp [Nat.add_comm]

theorem size_eq {i : Item σ} (hfit : i.Fits) : i.size = UInt32.ofNat i.length := by
  rw [size, length, Codec.Carries.size_eq hfit, UInt32.ofNat_add]
  rfl

theorem size_of_encode {i : Item σ} (h : i.property.member.codec.SizeAgrees i.value) {e : Bytes}
    (he : i.encode = .ok e) : i.size = UInt32.ofNat e.length := by
  obtain ⟨e', he', rfl⟩ := encode_eq_ok he
  rw [size, h e' he', List.length_cons, Nat.add_comm, UInt32.ofNat_add]
  rfl

theorem length_pos (i : Item σ) : 0 < i.length := by
  unfold length
  omega

end Item

def itemsLength (items : List (Item σ)) : Nat := (items.map Item.length).sum

def itemsCharge (items : List (Item σ)) : Nat := (items.map Item.charge).sum

/-- What the count returned for the section has too much. -/
def itemsExtra (items : List (Item σ)) : Nat :=
  (items.map fun i => i.property.member.codec.extra).sum

/-- The true length of the property section. -/
def propertyLength (order : HashOrder) (ps : List (Property σ)) (self : σ) : Nat :=
  itemsLength (propertyItems order ps self)

/-- The counter reaches the length of the section at its last property, and not
before. -/
def Paced (items : List (Item σ)) : Prop :=
  (∀ front back, items = front ++ back → back ≠ [] → itemsCharge front < itemsLength items) ∧
    itemsLength items ≤ itemsCharge items

theorem items_eq_nil_of_length {items : List (Item σ)} (h : itemsLength items = 0) :
    items = [] := by
  cases items with
  | nil => rfl
  | cons i items =>
      have := i.length_pos
      simp only [itemsLength, List.map_cons, List.sum_cons] at h
      omega

theorem paced_nil : Paced ([] : List (Item σ)) := by
  refine ⟨?_, le_refl _⟩
  intro front back h hne
  exact absurd (List.append_eq_nil_iff.mp h.symm).2 hne

theorem encodeItems_length {items : List (Item σ)} {e : Bytes}
    (h : encodeAll Item.encode items = .ok e) : e.length = itemsLength items := by
  rw [encodeAll_length h, itemsLength]
  congr 1
  apply List.map_congr_left
  intro i hi
  obtain ⟨e', h'⟩ := encode_eq_ok_of_mem h hi
  exact Item.encodedLength_encode h'

/-! ## Tables -/

/-- What is stored for one of them is not seen by the other. -/
def Member.Apart (m m' : Member σ) : Prop :=
  ∀ order s, (∀ a, m.items order (m'.apply s a) = m.items order s) ∧
    ∀ a, m'.items order (m.apply s a) = m'.items order s

instance : Std.Symm fun p q : Property σ => p.member.Apart q.member where
  symm _ _ h order s := ⟨(h order s).2, (h order s).1⟩

/-- What the table of a struct has to be for its properties to be told apart: no type
twice, and what is stored for one type is not seen by the others. -/
structure Table (ps : List (Property σ)) : Prop where
  nodup : (ps.map Property.propertyType).Nodup
  apart : ps.Pairwise fun p q => p.member.Apart q.member

/-- The value a decoder starts from has no properties yet. -/
def Fresh (order : HashOrder) (ps : List (Property σ)) (s : σ) : Prop :=
  ∀ p ∈ ps, p.member.required = true ∨ p.member.items order s = []

namespace Table

variable {ps : List (Property σ)} {p : Property σ}

theorem arm_eq (ht : Table ps) (hp : p ∈ ps) : arm ps p.propertyType = some p := by
  have hnodup := ht.nodup
  clear ht
  induction ps with
  | nil => cases hp
  | cons q ps ih =>
      rw [List.map_cons, List.nodup_cons] at hnodup
      unfold arm
      rcases List.mem_cons.mp hp with rfl | hp
      · simp
      · have hne : q.propertyType ≠ p.propertyType := by
          intro heq
          exact hnodup.1 (heq ▸ List.mem_map_of_mem hp)
        rw [List.find?_cons_of_neg (by simpa using hne)]
        exact ih hp hnodup.2

theorem frame (ht : Table ps) {q : Property σ} (hp : p ∈ ps) (hq : q ∈ ps)
    (hne : p.propertyType ≠ q.propertyType) (order : HashOrder) (s : σ) (a : p.member.α) :
    q.member.items order (p.member.apply s a) = q.member.items order s := by
  exact (ht.apart.forall hp hq (fun heq => hne (heq ▸ rfl)) order s).2 a

theorem tail {q : Property σ} (ht : Table (q :: ps)) : Table ps where
  nodup := (List.nodup_cons.mp (by simpa using ht.nodup)).2
  apart := (List.pairwise_cons.mp ht.apart).2

theorem head_ne {q : Property σ} (ht : Table (q :: ps)) (hp : p ∈ ps) :
    q.propertyType ≠ p.propertyType := by
  have hnodup := ht.nodup
  rw [List.map_cons, List.nodup_cons] at hnodup
  intro heq
  exact hnodup.1 (heq ▸ List.mem_map_of_mem hp)

end Table

def applyItems (items : List (Item σ)) (s : σ) : σ :=
  items.foldl (fun s i => i.property.member.apply s i.value) s

theorem applyItems_cons (i : Item σ) (items : List (Item σ)) (s : σ) :
    applyItems (i :: items) s = applyItems items (i.property.member.apply s i.value) := rfl

theorem mem_propertyItems {order : HashOrder} {ps : List (Property σ)} {self : σ} {i : Item σ} :
    i ∈ propertyItems order ps self ↔
      i.property ∈ ps ∧ i.value ∈ i.property.member.items order self := by
  simp only [propertyItems, List.mem_flatMap, List.mem_map]
  constructor
  · rintro ⟨p, hp, a, ha, rfl⟩
    exact ⟨hp, ha⟩
  · rintro ⟨hp, ha⟩
    exact ⟨i.property, hp, i.value, ha, rfl⟩

/-- Where every value is counted, the counter is never behind. -/
theorem itemsLength_le_charge {items : List (Item σ)} (h : ∀ i ∈ items, i.property.counted = true) :
    itemsLength items ≤ itemsCharge items := by
  refine List.sum_le_sum fun i hi => ?_
  simp only [Item.length, Item.charge, Property.entry, h i hi, if_true]
  omega

theorem propertyLength_le_charge (order : HashOrder) {ps : List (Property σ)}
    (h : ∀ p ∈ ps, p.counted = true) (self : σ) :
    propertyLength order ps self ≤ itemsCharge (propertyItems order ps self) :=
  itemsLength_le_charge fun i hi => h i.property (mem_propertyItems.mp hi).1

/-- What no property touches is as it was. -/
theorem applyItems_frame {β : Type*} (f : σ → β) {items : List (Item σ)}
    (hf : ∀ i ∈ items, ∀ s a, f (i.property.member.apply s a) = f s) (s : σ) :
    f (applyItems items s) = f s := by
  induction items generalizing s with
  | nil => rfl
  | cons i items ih =>
      rw [applyItems_cons, ih fun j hj => hf j (by simp [hj])]
      exact hf i (by simp) s i.value

theorem applyItems_propertyItems_cons (order : HashOrder) (p : Property σ)
    (ps : List (Property σ)) (self s : σ) :
    applyItems (propertyItems order (p :: ps) self) s =
      applyItems (propertyItems order ps self)
        ((p.member.items order self).foldl p.member.apply s) := by
  simp only [applyItems, propertyItems, List.flatMap_cons, List.foldl_append, List.foldl_map]

theorem foldl_apply_frame {β : Type*} (f : σ → β) {m : Member σ}
    (hf : ∀ s a, f (m.apply s a) = f s) (l : List m.α) (s : σ) :
    f (l.foldl m.apply s) = f s := by
  induction l generalizing s with
  | nil => rfl
  | cons a l ih => rw [List.foldl_cons, ih, hf]

/-- Storing what is written for one value in a fresh one gives it the same properties. -/
theorem items_applyItems {order : HashOrder} {ps : List (Property σ)} (ht : Table ps) (self : σ)
    {s : σ} (hfresh : Fresh order ps s) {q : Property σ} (hq : q ∈ ps) :
    q.member.items order (applyItems (propertyItems order ps self) s) =
      q.member.items order self := by
  induction ps generalizing s with
  | nil => cases hq
  | cons p ps ih =>
      rw [applyItems_propertyItems_cons]
      rcases List.mem_cons.mp hq with rfl | hq'
      · -- the properties behind it do not touch it
        rw [applyItems_frame (fun s => q.member.items order s)]
        · exact q.member.restores order self s (hfresh q (by simp))
        · intro i hi s a
          have hmem := (mem_propertyItems.mp hi).1
          exact ht.frame (by simp [hmem]) (by simp) (ht.head_ne hmem).symm order s a
      · refine ih ht.tail ?_ hq'
        intro r hr
        rw [foldl_apply_frame (fun s => r.member.items order s)]
        · exact hfresh r (by simp [hr])
        · intro s a
          exact ht.frame (by simp) (by simp [hr]) (ht.head_ne hr) order s a

/-! ## Measures of what is stored -/

/-- The sum of `f` over the properties of `self`. -/
def weigh (f : Item σ → Nat) (order : HashOrder) (ps : List (Property σ)) (self : σ) : Nat :=
  ((propertyItems order ps self).map f).sum

theorem weigh_cons (f : Item σ → Nat) (order : HashOrder) (p : Property σ) (ps : List (Property σ))
    (self : σ) :
    weigh f order (p :: ps) self =
      ((p.member.items order self).map fun a => f ⟨p, a⟩).sum + weigh f order ps self := by
  simp only [weigh, propertyItems, List.flatMap_cons, List.map_append, List.sum_append,
    List.map_map]
  rfl

theorem weigh_congr (f : Item σ → Nat) (order : HashOrder) {ps : List (Property σ)} {s s' : σ}
    (h : ∀ p ∈ ps, p.member.items order s = p.member.items order s') :
    weigh f order ps s = weigh f order ps s' := by
  induction ps with
  | nil => rfl
  | cons p ps ih =>
      rw [weigh_cons, weigh_cons, h p (by simp), ih fun q hq => h q (by simp [hq])]

/-- A property that is stored adds no more than itself. -/
theorem weigh_apply {ps : List (Property σ)} (ht : Table ps) (f : Item σ → Nat)
    (order : HashOrder) (s : σ) (i : Item σ) (hi : i.property ∈ ps) :
    weigh f order ps (i.property.member.apply s i.value) ≤ weigh f order ps s + f i := by
  obtain ⟨p, a⟩ := i
  simp only at hi ⊢
  induction ps with
  | nil => cases hi
  | cons q ps ih =>
      rw [weigh_cons, weigh_cons]
      rcases List.mem_cons.mp hi with rfl | hi'
      · have hsum := p.member.sum_apply (fun a => f ⟨p, a⟩) order s a
        have hrest : weigh f order ps (p.member.apply s a) = weigh f order ps s :=
          weigh_congr f order fun r hr =>
            ht.frame (by simp) (by simp [hr]) (ht.head_ne hr) order s a
        omega
      · have hown : q.member.items order (p.member.apply s a) = q.member.items order s :=
          ht.frame hi (by simp) (ht.head_ne hi').symm order s a
        have := ih ht.tail hi'
        rw [hown]
        omega

theorem weigh_applyItems {ps : List (Property σ)} (ht : Table ps) (f : Item σ → Nat)
    (order : HashOrder) {items : List (Item σ)} (hi : ∀ i ∈ items, i.property ∈ ps) (s : σ) :
    weigh f order ps (applyItems items s) ≤ weigh f order ps s + (items.map f).sum := by
  induction items generalizing s with
  | nil => simp [applyItems]
  | cons i items ih =>
      have hstep := weigh_apply ht f order s i (hi i (by simp))
      have hrest := ih (fun j hj => hi j (by simp [hj])) (i.property.member.apply s i.value)
      rw [applyItems_cons, List.map_cons, List.sum_cons]
      omega

/-! ## The loop over a section -/

/-- The locals of the loop after the round that reads `i`. -/
def PropertyLoop.take (st : PropertyLoop σ) (i : Item σ) : PropertyLoop σ where
  self := i.property.member.apply st.self i.value
  propertyBytesRead := st.propertyBytesRead + i.charge
  bytesRead := st.bytesRead + if i.property.counted then 0 else
    encodedLength (i.property.member.codec.encode i.value) + i.property.member.codec.extra

def PropertyLoop.takeAll (st : PropertyLoop σ) (items : List (Item σ)) : PropertyLoop σ :=
  items.foldl PropertyLoop.take st

theorem PropertyLoop.takeAll_self (st : PropertyLoop σ) (items : List (Item σ)) :
    (st.takeAll items).self = applyItems items st.self := by
  induction items generalizing st with
  | nil => rfl
  | cons i items ih => exact ih (st.take i)

theorem PropertyLoop.takeAll_read (st : PropertyLoop σ) (items : List (Item σ)) :
    (st.takeAll items).propertyBytesRead = st.propertyBytesRead + itemsCharge items := by
  induction items generalizing st with
  | nil => rfl
  | cons i items ih =>
      have := ih (st.take i)
      simp only [PropertyLoop.takeAll, List.foldl_cons, itemsCharge, List.map_cons,
        List.sum_cons] at this ⊢
      rw [this]
      simp only [PropertyLoop.take]
      omega

theorem PropertyLoop.takeAll_count (st : PropertyLoop σ) (items : List (Item σ)) :
    (st.takeAll items).bytesRead + (st.takeAll items).propertyBytesRead =
      st.bytesRead + st.propertyBytesRead + itemsLength items + itemsExtra items := by
  induction items generalizing st with
  | nil => rfl
  | cons i items ih =>
      have := ih (st.take i)
      simp only [PropertyLoop.takeAll, List.foldl_cons, itemsLength, itemsExtra, List.map_cons,
        List.sum_cons] at this ⊢
      rw [this]
      simp only [PropertyLoop.take, Item.charge, Item.length, Property.entry]
      split <;> omega

section

variable {ps : List (Property σ)}

theorem propertyRound_item (unsupported : PropertyType → MqttCodecError) (ht : Table ps)
    {i : Item σ} (hi : i.property ∈ ps) (hfit : i.Fits) {e : Bytes}
    (henc : i.encode = .ok e) (st : PropertyLoop σ) (rest : Bytes) :
    (propertyRound ps unsupported st).run (e ++ rest) = .ok (st.take i, rest) := by
  obtain ⟨e', henc', rfl⟩ := Item.encode_eq_ok henc
  rw [List.cons_append, propertyRound_cons ps unsupported st _ _
    (PropertyType.tryFrom_toU8 _) (ht.arm_eq hi),
    i.property.member.codec.reads hfit.1 henc' rest, Outcome.map_ok]
  simp only [PropertyLoop.take, Item.charge, Property.entry, henc', encodedLength_ok]
  congr 3
  omega

/-- The loop over a section stops in front of one of its properties, or comes to its end. -/
theorem section_heads (unsupported : PropertyType → MqttCodecError) (length : Nat) (ht : Table ps)
    {items : List (Item σ)} (hmem : ∀ i ∈ items, i.property ∈ ps) (hfit : ∀ i ∈ items, i.Fits)
    {e : Bytes} (henc : encodeAll Item.encode items = .ok e) (st : PropertyLoop σ) (rest : Bytes) :
    (∃ front back src, items = front ++ back ∧ back ≠ [] ∧
      encodeAll Item.encode back = .ok src ∧ length ≤ st.propertyBytesRead + itemsCharge front ∧
      Heads (propertyCond length) (propertyRound ps unsupported) (st, e ++ rest)
        (st.takeAll front, src ++ rest)) ∨
    ((∀ front back, items = front ++ back → back ≠ [] →
      st.propertyBytesRead + itemsCharge front < length) ∧
      Heads (propertyCond length) (propertyRound ps unsupported) (st, e ++ rest)
        (st.takeAll items, rest)) := by
  induction items generalizing st e with
  | nil =>
      cases henc
      refine .inr ⟨?_, .refl⟩
      intro front back h hne
      exact absurd (List.append_eq_nil_iff.mp h.symm).2 hne
  | cons i items ih =>
      by_cases hstop : length ≤ st.propertyBytesRead
      · exact .inl ⟨[], i :: items, e, rfl, by simp, henc, by simpa [itemsCharge] using hstop,
          .refl⟩
      · obtain ⟨e₁, e₂, h₁, h₂, rfl⟩ := encodeAll_cons_eq_ok henc
        have hround : Round (propertyCond length) (propertyRound ps unsupported)
            (st, e₁ ++ e₂ ++ rest) (st.take i, e₂ ++ rest) := by
          refine ⟨by simpa [propertyCond] using hstop, ?_⟩
          rw [List.append_assoc]
          exact propertyRound_item unsupported ht (hmem i (by simp)) (hfit i (by simp)) h₁ st _
        rcases ih (fun j hj => hmem j (by simp [hj])) (fun j hj => hfit j (by simp [hj])) h₂
          (st.take i) with ⟨front, back, src, heq, hne, hsrc, hle, hheads⟩ | ⟨hlt, hheads⟩
        · refine .inl ⟨i :: front, back, src, by rw [heq]; rfl, hne, hsrc, ?_,
            .head hround hheads⟩
          simp only [itemsCharge, List.map_cons, List.sum_cons, PropertyLoop.take] at hle ⊢
          omega
        · refine .inr ⟨?_, .head hround hheads⟩
          intro front back heq hne
          cases front with
          | nil => simpa [itemsCharge] using hstop
          | cons j front =>
              rw [List.cons_append] at heq
              obtain ⟨rfl, htail⟩ := List.cons.inj heq
              have := hlt front back htail hne
              simp only [itemsCharge, List.map_cons, List.sum_cons, PropertyLoop.take] at this ⊢
              omega

/-- The bytes of a section with the properties `items`: their length, then they. -/
structure SectionBytes (ps : List (Property σ)) (items : List (Item σ)) (e : Bytes) : Prop where
  mem : ∀ i ∈ items, i.property ∈ ps
  fits : ∀ i ∈ items, i.Fits
  bytes : ∃ len props, e = len ++ props ∧ VarIntBytes len ∧ len.length ≤ 3 ∧
    varIntValue len = itemsLength items ∧ encodeAll Item.encode items = .ok props

namespace SectionBytes

variable {items : List (Item σ)} {e : Bytes}

/-- The loop the decoder runs on a section. -/
theorem run (h : SectionBytes ps items e) (unsupported : PropertyType → MqttCodecError) (s : σ)
    (k : Nat) (rest : Bytes) :
    ∃ props m, encodeAll Item.encode items = .ok props ∧ e.length = m + props.length ∧
      (decodeProperties ps unsupported s k).run (e ++ rest) =
        ((whileLoop (propertyCond (itemsLength items)) (propertyRound ps unsupported)
          { self := s, propertyBytesRead := 0, bytesRead := k + m }).run (props ++ rest)).bind
          fun r => .ok ((r.1.self, r.1.bytesRead + r.1.propertyBytesRead), r.2) := by
  obtain ⟨len, props, rfl, hvar, hthree, hvalue, henc⟩ := h.bytes
  refine ⟨props, len.length, henc, List.length_append, ?_⟩
  have hnat : (UInt32.ofNat (varIntValue len)).toNat = itemsLength items := by
    have hlt := varIntValue_lt len
    have hpow : 128 ^ len.length ≤ 128 ^ 3 := Nat.pow_le_pow_right (n := 128) (by decide) hthree
    rw [UInt32.toNat_ofNat']
    omega
  rw [List.append_assoc]
  simp only [decodeProperties, run_bind, reads_decodeVariableByteInt hvar hthree (props ++ rest),
    Outcome.bind_ok, hnat, run_pure]

/-- A section that is paced reads back. -/
theorem reads (h : SectionBytes ps items e) (unsupported : PropertyType → MqttCodecError)
    (ht : Table ps) (hpaced : Paced items) (s : σ) (k : Nat) :
    Reads (decodeProperties ps unsupported s k) e
      (applyItems items s, k + e.length + itemsExtra items) := by
  intro rest
  obtain ⟨props, m, henc, hm, hrun⟩ := h.run unsupported s k rest
  rw [hrun]
  set st : PropertyLoop σ := { self := s, propertyBytesRead := 0, bytesRead := k + m } with hst
  rcases section_heads unsupported (itemsLength items) ht h.mem h.fits henc st rest with
    ⟨front, back, src, heq, hne, -, hle, -⟩ | ⟨-, hheads⟩
  · have hlt := hpaced.1 front back heq hne
    simp only [hst] at hle
    omega
  · have hend : propertyCond (itemsLength items) (st.takeAll items) rest = false := by
      have := hpaced.2
      simp only [propertyCond, PropertyLoop.takeAll_read, hst, decide_eq_false_iff_not]
      omega
    rw [(whileLoop_ok_iff (propertyRound_progress ps unsupported)).mpr ⟨hheads, hend⟩,
      Outcome.bind_ok, PropertyLoop.takeAll_self, PropertyLoop.takeAll_count]
    have hlength := encodeItems_length henc
    congr 3
    simp only [hst]
    omega

/-- What decoding a section can come to: the loop stops in front of a property, or at the end
of the section, or it goes on behind it. -/
theorem inv {unsupported : PropertyType → MqttCodecError} (h : SectionBytes ps items e)
    (ht : Table ps) {s s' : σ} {k n : Nat} {rest left : Bytes}
    (hrun : (decodeProperties ps unsupported s k).run (e ++ rest) = .ok ((s', n), left)) :
    (∃ front back src, items = front ++ back ∧ back ≠ [] ∧
      encodeAll Item.encode back = .ok src ∧ itemsLength items ≤ itemsCharge front ∧
      s' = applyItems front s ∧ left = src ++ rest) ∨
    Paced items ∨ (itemsCharge items < itemsLength items ∧ left.length < rest.length) := by
  obtain ⟨props, m, henc, hm, heq⟩ := h.run unsupported s k rest
  rw [heq] at hrun
  obtain ⟨⟨st', left'⟩, hloop, hrun⟩ := Outcome.bind_eq_ok.mp hrun
  cases hrun
  have hp := propertyRound_progress ps unsupported
  rcases section_heads unsupported (itemsLength items) ht h.mem h.fits henc
    { self := s, propertyBytesRead := 0, bytesRead := k + m } rest with
    ⟨front, back, src, hitems, hne, hsrc, hle, hheads⟩ | ⟨hlt, hheads⟩
  · left
    simp only [Nat.zero_add] at hle
    rw [whileLoop_run_head hp hheads, whileLoop_eq hp,
      if_neg (by simpa [propertyCond, PropertyLoop.takeAll_read] using hle)] at hloop
    cases hloop
    exact ⟨front, back, src, hitems, hne, hsrc, hle, PropertyLoop.takeAll_self _ _, rfl⟩
  · right
    simp only [Nat.zero_add] at hlt
    by_cases hle : itemsLength items ≤ itemsCharge items
    · exact .inl ⟨hlt, hle⟩
    · refine .inr ⟨by omega, ?_⟩
      rw [whileLoop_run_head hp hheads, whileLoop_eq hp,
        if_pos (by simpa [propertyCond, PropertyLoop.takeAll_read] using hle), run_bind] at hloop
      obtain ⟨⟨st'', rest'⟩, hround, hloop⟩ := Outcome.bind_eq_ok.mp hloop
      have hless := hp _ _ _ _ hround
      have hsuffix := (Decoder.suffix _ hloop).length_le
      simp only at hsuffix hless ⊢
      omega

end SectionBytes

end

section

variable {order : HashOrder} {ps : List (Property σ)} {unsupported : PropertyType → MqttCodecError}
  {self : σ} {e : Bytes}

theorem propertyEncode_eq_ok (h : propertyEncode order ps self = .ok e) :
    ∃ e', encodeAll Item.encode (propertyItems order ps self) = .ok e' ∧
      e = varIntEncoding (propertySize order ps self) ++ e' := by
  unfold propertyEncode at h
  rw [encodeVariableByteInt_eq] at h
  obtain ⟨len, hlen, h⟩ := enc_bind_eq_ok.mp h
  obtain ⟨e', h', h⟩ := enc_bind_eq_ok.mp h
  cases hlen
  cases h
  exact ⟨e', h', rfl⟩

/-- All values of the section can be read back. -/
def SectionFits (order : HashOrder) (ps : List (Property σ)) (self : σ) : Prop :=
  ∀ i ∈ propertyItems order ps self, i.Fits

theorem propertySize_eq (hfit : SectionFits order ps self) :
    propertySize order ps self = UInt32.ofNat (propertyLength order ps self) :=
  sum_size_eq fun i hi => Item.size_eq (hfit i hi)

theorem propertySize_toNat (hfit : SectionFits order ps self)
    (hlen : propertyLength order ps self < 2 ^ 32) :
    (propertySize order ps self).toNat = propertyLength order ps self := by
  rw [propertySize_eq hfit, UInt32.toNat_ofNat']
  exact Nat.mod_eq_of_lt hlen

theorem propertyLength_le_section (h : propertyEncode order ps self = .ok e) :
    propertyLength order ps self ≤ e.length := by
  obtain ⟨e', h', rfl⟩ := propertyEncode_eq_ok h
  have := encodeItems_length h'
  simp only [List.length_append, propertyLength]
  omega

theorem propertyEncode_length_le (h : propertyEncode order ps self = .ok e) :
    e.length ≤ propertyLength order ps self + 5 := by
  obtain ⟨e', h', rfl⟩ := propertyEncode_eq_ok h
  have := encodeItems_length h'
  have := varIntEncoding_length_le_five (propertySize order ps self)
  simp only [List.length_append, propertyLength]
  omega

/-- All sizes of the section agree with what is written. -/
def SectionSizes (order : HashOrder) (ps : List (Property σ)) (self : σ) : Prop :=
  ∀ i ∈ propertyItems order ps self, i.property.member.codec.SizeAgrees i.value

theorem SectionFits.sizes (h : SectionFits order ps self) : SectionSizes order ps self :=
  fun i hi => Codec.sizeAgrees_of_fits (h i hi).1

theorem sectionSizes_of_fits (h : ∀ p ∈ ps, ∀ a, p.member.codec.Fits a) :
    SectionSizes order ps self :=
  fun i hi => Codec.sizeAgrees_of_fits (h i.property (mem_propertyItems.mp hi).1 i.value)

/-- The size of the properties is the number of their bytes. -/
theorem propertySize_of_encode (hsizes : SectionSizes order ps self)
    (h : encodeAll Item.encode (propertyItems order ps self) = .ok e) :
    propertySize order ps self = UInt32.ofNat e.length :=
  encodeAll_size h fun i hi _ he => Item.size_of_encode (hsizes i hi) he

theorem propertySize_toNat_of_encode (hsizes : SectionSizes order ps self)
    (h : encodeAll Item.encode (propertyItems order ps self) = .ok e) (hlen : e.length < 2 ^ 32) :
    (propertySize order ps self).toNat = e.length := by
  rw [propertySize_of_encode hsizes h, UInt32.toNat_ofNat']
  exact Nat.mod_eq_of_lt hlen

/-- The size of a section is the number of its bytes. -/
theorem sectionSize_eq (hsizes : SectionSizes order ps self)
    (hlen : propertyLength order ps self ≤ 268435455) (h : propertyEncode order ps self = .ok e) :
    propertySize order ps self + variableByteIntSize (propertySize order ps self) =
      UInt32.ofNat e.length := by
  obtain ⟨e', h', rfl⟩ := propertyEncode_eq_ok h
  have hlength : e'.length = propertyLength order ps self := encodeItems_length h'
  have hmax : propertySize order ps self ≤ maxVariableByteInt := by
    rw [UInt32.le_iff_toNat_le, propertySize_toNat_of_encode hsizes h' (by omega), hlength]
    exact hlen
  rw [varIntEncoding_size hmax, List.length_append, UInt32.ofNat_add, UInt32.add_comm]
  congr 1
  exact propertySize_of_encode hsizes h'

theorem sectionBytes_of_encode (hfit : SectionFits order ps self)
    (henc : propertyEncode order ps self = .ok e)
    (hlen : propertyLength order ps self ≤ 2097151) :
    SectionBytes ps (propertyItems order ps self) e := by
  obtain ⟨props, hprops, rfl⟩ := propertyEncode_eq_ok henc
  have hsize := propertySize_toNat hfit (by omega)
  obtain ⟨hvar, hvalue, -⟩ := varIntEncoding_spec (propertySize order ps self)
  exact
    { mem := fun i hi => (mem_propertyItems.mp hi).1
      fits := hfit
      bytes := ⟨_, props, rfl, hvar, varIntEncoding_length_le_three.mpr (by omega),
        by rw [hvalue, hsize, propertyLength], hprops⟩ }

/-- A section that is paced reads back. -/
theorem decodeProperties_reads (unsupported : PropertyType → MqttCodecError) (ht : Table ps)
    (hfit : SectionFits order ps self)
    (henc : propertyEncode order ps self = .ok e)
    (hlen : propertyLength order ps self ≤ 2097151)
    (hpaced : Paced (propertyItems order ps self)) (s : σ) (k : Nat) :
    Reads (decodeProperties ps unsupported s k) e
      (applyItems (propertyItems order ps self) s,
        k + e.length + itemsExtra (propertyItems order ps self)) :=
  (sectionBytes_of_encode hfit henc hlen).reads unsupported ht hpaced s k

/-- What decoding a written section can come to: the loop stops in front of a property,
or at the end of the section, or it goes on behind it. -/
theorem decodeProperties_inv (ht : Table ps) (hfit : SectionFits order ps self)
    (henc : propertyEncode order ps self = .ok e)
    (hlen : propertyLength order ps self ≤ 2097151) {s s' : σ} {k n : Nat} {rest left : Bytes}
    (h : (decodeProperties ps unsupported s k).run (e ++ rest) = .ok ((s', n), left)) :
    (∃ front back, propertyItems order ps self = front ++ back ∧ back ≠ [] ∧
      propertyLength order ps self ≤ itemsCharge front ∧ s' = applyItems front s) ∨
    Paced (propertyItems order ps self) ∨
    (itemsCharge (propertyItems order ps self) < propertyLength order ps self ∧
      left.length < rest.length) := by
  rcases (sectionBytes_of_encode hfit henc hlen).inv ht h with
    ⟨front, back, -, heq, hne, -, hle, hself, -⟩ | hpaced | hlate
  · exact .inl ⟨front, back, heq, hne, hle, hself⟩
  · exact .inr (.inl hpaced)
  · exact .inr (.inr hlate)

/-! ## A loop that stops too early -/

/-- Only the first property of the table may be one that is always written. -/
def OptionalTail (ps : List (Property σ)) : Prop := ∀ p ∈ ps.tail, p.member.required = false

theorem OptionalTail.of_cons (ho : OptionalTail ps) {i : Item σ} {items : List (Item σ)}
    (h : propertyItems order ps self = i :: items) {j : Item σ} (hj : j ∈ items) :
    j.property.member.required = false := by
  cases ps with
  | nil => simp [propertyItems] at h
  | cons p ps =>
      have hrest : ∀ j ∈ propertyItems order ps self, j.property.member.required = false :=
        fun j hj => ho j.property (mem_propertyItems.mp hj).1
      have hsplit : propertyItems order (p :: ps) self =
          (p.member.items order self).map (fun a => (⟨p, a⟩ : Item σ)) ++
            propertyItems order ps self := by
        simp [propertyItems]
      cases hreq : p.member.required with
      | true =>
          -- one item, so that what follows it is of the tail
          obtain ⟨a, ha⟩ := List.length_eq_one_iff.mp (p.member.length_of_required hreq order self)
          rw [hsplit, ha] at h
          obtain ⟨-, rfl⟩ := List.cons.inj h
          exact hrest j hj
      | false =>
          have hmem : j ∈ propertyItems order (p :: ps) self := by
            rw [h]
            exact List.mem_cons_of_mem i hj
          rw [hsplit, List.mem_append] at hmem
          rcases hmem with hmem | hmem
          · obtain ⟨a, -, rfl⟩ := List.mem_map.mp hmem
            exact hreq
          · exact hrest j hmem

/-- The properties a loop that stops too early has stored are not those that were
written. -/
theorem items_ne_of_early (ht : Table ps) (ho : OptionalTail ps) {s : σ}
    (hfresh : Fresh order ps s) {front back : List (Item σ)}
    (heq : propertyItems order ps self = front ++ back) (hne : back ≠ [])
    (hle : propertyLength order ps self ≤ itemsCharge front) :
    ¬ ∀ p ∈ ps, p.member.items order (applyItems front s) = p.member.items order self := by
  intro hsame
  -- count the items that need not be there
  let f : Item σ → Nat := fun i => if i.property.member.required then 0 else 1
  have hmem : ∀ i ∈ front, i.property ∈ ps := fun i hi =>
    (mem_propertyItems.mp (heq ▸ List.mem_append_left back hi)).1
  have hstored := weigh_applyItems ht f order hmem s
  have hzero : weigh f order ps s = 0 := by
    refine List.sum_eq_zero fun x hx => ?_
    obtain ⟨i, hi, rfl⟩ := List.mem_map.mp hx
    obtain ⟨hi, hv⟩ := mem_propertyItems.mp hi
    rcases hfresh i.property hi with hreq | hnil
    · simp [f, hreq]
    · rw [hnil] at hv
      cases hv
  have hall : weigh f order ps self = (front.map f).sum + (back.map f).sum := by
    rw [weigh, heq, List.map_append, List.sum_append]
  rw [weigh_congr f order hsame, hall, hzero] at hstored
  cases front with
  | nil =>
      have h0 : itemsLength (propertyItems order ps self) = 0 := Nat.le_zero.mp hle
      rw [items_eq_nil_of_length h0] at heq
      exact hne heq.symm
  | cons i front =>
      obtain ⟨j, hj⟩ := List.exists_mem_of_ne_nil back hne
      have hopt := ho.of_cons heq (List.mem_append_right front hj)
      have hone : 1 ≤ (back.map f).sum :=
        List.single_le_sum (by simp) 1 (List.mem_map.mpr ⟨j, hj, by simp [f, hopt]⟩)
      omega

/-! ## What was read fits -/

theorem Table.eq_of_propertyType (ht : Table ps) {p q : Property σ} (hp : p ∈ ps) (hq : q ∈ ps)
    (h : p.propertyType = q.propertyType) : p = q := by
  have hsome : some p = some q := by rw [← ht.arm_eq hp, ← ht.arm_eq hq, h]
  exact Option.some.inj hsome

theorem sectionFits_congr {s s' : σ}
    (h : ∀ p ∈ ps, p.member.items order s = p.member.items order s')
    (hfit : SectionFits order ps s) : SectionFits order ps s' := by
  intro i hi
  obtain ⟨hp, hv⟩ := mem_propertyItems.mp hi
  exact hfit i (mem_propertyItems.mpr ⟨hp, by rwa [h i.property hp]⟩)

theorem propertyLength_congr {s s' : σ}
    (h : ∀ p ∈ ps, p.member.items order s = p.member.items order s') :
    propertyLength order ps s = propertyLength order ps s' :=
  weigh_congr Item.length order h

theorem SectionFits.apply (ht : Table ps) {s : σ} (h : SectionFits order ps s) {i : Item σ}
    (hi : i.property ∈ ps) (hfit : i.Fits) :
    SectionFits order ps (i.property.member.apply s i.value) := by
  rintro ⟨q, b⟩ hj
  obtain ⟨hq, hb⟩ := mem_propertyItems.mp hj
  simp only at hq hb
  obtain ⟨p, a⟩ := i
  by_cases htype : p.propertyType = q.propertyType
  · obtain rfl := ht.eq_of_propertyType hi hq htype
    rcases p.member.mem_apply hb with heq | hold
    · show p.member.codec.Carries b
      rw [heq]
      exact hfit
    · exact h _ (mem_propertyItems.mpr ⟨hi, hold⟩)
  · rw [ht.frame hi hq htype] at hb
    exact h _ (mem_propertyItems.mpr ⟨hq, hb⟩)

/-- What a section stores can be written again in no more bytes than the section had. -/
theorem decodeProperties_length (ht : Table ps) (order : HashOrder) {s s' : σ} {k n : Nat}
    {src left : Bytes}
    (h : (decodeProperties ps unsupported s k).run src = .ok ((s', n), left))
    (hfit : SectionFits order ps s) :
    propertyLength order ps s' + left.length < propertyLength order ps s + src.length ∧
      SectionFits order ps s' := by
  obtain ⟨length, m, src', st, hlen, hheads, -, rfl, -⟩ := decodeProperties_ok h
  have hvar := (varIntEncoding_le_of_decode hlen).2.1
  have hpos := varIntEncoding_length_pos length
  have hinv := Heads.invariant
    (fun q => propertyLength order ps q.1.self + q.2.length ≤
      propertyLength order ps s + src'.length ∧ SectionFits order ps q.1.self)
    hheads ⟨le_refl _, hfit⟩ ?_
  · refine ⟨?_, hinv.2⟩
    have := hinv.1
    simp only at this
    omega
  · rintro ⟨st₁, src₁⟩ ⟨st₂, src₂⟩ hround ⟨hle, hfits⟩
    obtain ⟨x, src₃, t, p, a, n, rfl, -, hp, hrun, rfl⟩ := propertyRound_ok hround.2
    obtain ⟨hcarries, hlena⟩ := Codec.carries_of_decode hrun
    have hmem := arm_mem hp
    have hweigh := weigh_apply ht Item.length order st₁.self ⟨p, a⟩ hmem
    refine ⟨?_, hfits.apply ht (i := ⟨p, a⟩) hmem hcarries⟩
    simp only [weigh, Item.length] at hweigh
    simp only [propertyLength, itemsLength, List.length_cons] at hle ⊢
    omega

end

end Mqtt
end Vaux
