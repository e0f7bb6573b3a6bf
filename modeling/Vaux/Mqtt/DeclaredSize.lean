import Vaux.Mqtt.Declaration

/-!
# Declared sizes

`codec_size` and `encode` are generated apart.  A field of a `Vec<u8>` counts for nothing
when it is empty, but its length prefix is written, with the identifier of a property.  A
complex type as a property counts with its own `property_size`, while its `encode` is
called, behind an identifier if the field is an `Option`.  And where `abbreviated_when`
ends the encoder, `codec_size` goes on to the payload, or to the end if there are no
properties.  Every other field counts for the bytes that are written for it.
-/

namespace Vaux
namespace Mqtt

open Wire

/-! ## Differences -/

/-- What is written for a field and left out of its size. -/
def SegmentType.uncounted (isProperty optional : Bool) : (t : SegmentType) → t.Value → UInt32
  | .vec (.primitive .u8), value => if value.isEmpty then propIdentSize isProperty + 2 else 0
  | .complex c, v => if isProperty then propIdentSize optional + c.codecSize v else 0
  | _, _ => 0

/-- What is counted in the size of a field in place of what is written. -/
def SegmentType.overcounted (isProperty _optional : Bool) : (t : SegmentType) → t.Value → UInt32
  | .complex c, v => if isProperty then c.propertySize v else 0
  | _, _ => 0

def FieldType.measure (μ : (optional : Bool) → (t : SegmentType) → t.Value → UInt32) :
    (t : FieldType) → t.Value → UInt32
  | .plain t => μ false t
  | .option t => ifSome 0 (μ true t)

/-- The lengths of a value fit their prefixes, and what it holds of other types can be
written. -/
def SegmentType.Fits : (t : SegmentType) → t.Value → Prop
  | .string, value => (utf8 value).length ≤ 65535
  | .vec (.primitive .u8), value => value.length ≤ 65535
  | .vec (.complex c), value => ∀ item ∈ value, ∃ e, c.encode item = .ok e
  | .complex c, v => ∃ e, c.encode v = .ok e
  | _, _ => True

def FieldType.Fits : (t : FieldType) → t.Value → Prop
  | .plain t => t.Fits
  | .option t => ifSome True t.Fits

section

variable {σ : Type} (self : σ) (f : DeclaredField σ)

namespace DeclaredField

def uncounted : UInt32 :=
  if f.written self then f.type.measure (SegmentType.uncounted f.isProperty) (f.get self) else 0

def overcounted : UInt32 :=
  if f.written self then f.type.measure (SegmentType.overcounted f.isProperty) (f.get self) else 0

/-- What `field_size` adds. -/
def counted : UInt32 := f.size.elim 0 fun size => size self

def Fits : Prop := f.written self = true → f.type.Fits (f.get self)

end DeclaredField

end

/-- What fields measure together. -/
def total {σ : Type} (μ : DeclaredField σ → UInt32) (fields : List (DeclaredField σ)) : UInt32 :=
  (fields.map μ).sum

namespace Declaration

variable {σ : Type} (d : Declaration σ) (self : σ)

/-- The fields the encoder comes to. -/
def reached : List (DeclaredField σ) :=
  if d.abbreviated self then d.fields.filter fun f => f.isHeader && !f.nonAbbreviated
  else d.fields

/-- The fields that count although the encoder returns before it comes to them. -/
def dropped : List (DeclaredField σ) :=
  if d.abbreviated self then
    d.fields.filter fun f =>
      !f.isProperty && (f.isPayload && !f.nonAbbreviated || f.nonAbbreviated && !d.hasProperties)
  else []

def uncounted : UInt32 := total (DeclaredField.uncounted self) (d.reached self)

def overcounted : UInt32 :=
  total (DeclaredField.overcounted self) (d.reached self) + total (DeclaredField.counted self) (d.dropped self)

/-- `codec_size` is the number of bytes `encode` writes for the body. -/
def SizeAgrees : Prop :=
  ∃ codecSize encode body, d.codecSize = some codecSize ∧ d.encodeBody = some encode ∧
    encode self = .ok body ∧ (codecSize self).toNat = body.length

end Declaration

/-- The lengths in `s` fit their prefixes: those of strings and byte vectors two bytes, that
of the properties a variable byte integer, and that of the body a `u32`. -/
structure Declaration.Fits {σ : Type} (d : Declaration σ) (s : σ) : Prop where
  fields : ∀ f ∈ d.fields, f.Fits s
  properties : ∀ propertySize, d.propertySize = some propertySize →
    propertySize s ≤ maxVariableByteInt
  body : ∀ encode, d.encodeBody = some encode → encodedLength (encode s) < UInt32.size

/-! ## One field -/

section

variable {propertyType : Option UInt8} {optional : Bool} {e : Bytes}

theorem withIdent_eq_ok {x : Enc} :
    withIdent propertyType x = .ok e ↔ ∃ e', x = .ok e' ∧ propertyType.toList ++ e' = e := by
  simp [withIdent, enc_bind_eq_ok]

theorem length_ident (propertyType : Option UInt8) :
    UInt32.ofNat propertyType.toList.length = propIdentSize propertyType.isSome := by
  cases propertyType <;> rfl

theorem length_withIdent {x : Enc} (h : withIdent propertyType x = .ok e) :
    ∃ e', x = .ok e' ∧
      UInt32.ofNat e.length = propIdentSize propertyType.isSome + UInt32.ofNat e'.length := by
  obtain ⟨e', he', rfl⟩ := withIdent_eq_ok.mp h
  exact ⟨e', he', by rw [List.length_append, UInt32.ofNat_add, length_ident]⟩

theorem Complex.ofNat_length (c : Complex) {v : c.Value} (h : c.encode v = .ok e) :
    UInt32.ofNat e.length = c.codecSize v := by
  rw [c.length_encode h, UInt32.ofNat_toNat]

theorem PrimitiveType.size_agrees {p : PrimitiveType} {size : UInt32} {put : p.Value → Bytes}
    (hsize : (if propertyType.isSome then sizeForPrimitiveProperty p
      else sizeForPrimitiveInternal p) = some size)
    (hput : encodeForPrimitive p = some put) (v : p.Value) :
    size = propIdentSize propertyType.isSome + UInt32.ofNat (put v).length := by
  cases propertyType <;> cases p <;> cases hput <;> cases hsize <;> rfl

theorem encodeAll_withIdent {c : Complex} {items : List c.Value}
    (h : encodeAll (fun item => withIdent propertyType (c.encode item)) items = .ok e) :
    UInt32.ofNat e.length =
      (items.map fun item => propIdentSize propertyType.isSome + c.codecSize item).sum := by
  refine (encodeAll_size h fun item _ e' he' => ?_).symm
  obtain ⟨e₁, he₁, hlen⟩ := length_withIdent he'
  rw [hlen, c.ofNat_length he₁]

theorem bytes_agrees {value : Bytes} (h : withIdent propertyType (encodeArrayField value) = .ok e) :
    UInt32.ofNat e.length =
      (if value.isEmpty then 0
        else propIdentSize propertyType.isSome + 2 + UInt32.ofNat value.length) +
      if value.isEmpty then propIdentSize propertyType.isSome + 2 else 0 := by
  obtain ⟨e', he', hlen⟩ := length_withIdent h
  obtain ⟨-, rfl⟩ := encodeArrayField_eq_ok he'
  rw [hlen, prefixed_length, UInt32.ofNat_add]
  -- the prefix of an empty vector is the difference
  cases value with
  | nil => simp
  | cons x value => simp [UInt32.add_assoc]

/-- The guard of `size_for_vec` makes no difference to a sum. -/
theorem sum_of_isEmpty {α : Type} (size : α → UInt32) (items : List α) :
    (if items.isEmpty then 0 else (items.map size).sum) = (items.map size).sum := by
  cases items <;> rfl

theorem ItemType.size_agrees {item : ItemType} {size : List item.Value → UInt32}
    {encode : List item.Value → Enc} (hsize : sizeForVec propertyType.isSome optional item = some size)
    (hencode : encodeForVec propertyType item = some encode) {value : List item.Value}
    (h : encode value = .ok e) :
    UInt32.ofNat e.length =
      size value + (SegmentType.vec item).uncounted propertyType.isSome optional value := by
  cases item with
  | primitive p =>
      cases p <;> cases hencode
      cases hsize
      exact bytes_agrees h
  | complex c =>
      cases hencode
      have hsum := encodeAll_withIdent h
      have hcounts : size value =
          (value.map fun item => propIdentSize propertyType.isSome + c.codecSize item).sum := by
        cases propertyType with
        | none =>
            cases optional <;> cases hsize
            refine (sum_of_isEmpty _ _).trans ?_
            simp [propIdentSize]
        | some ident =>
            cases optional <;> cases hsize
            exact sum_of_isEmpty _ _
      rw [hsum, hcounts]
      exact (UInt32.add_zero _).symm

theorem SegmentType.size_agrees {t : SegmentType} {size : t.Value → UInt32} {encode : t.Value → Enc}
    (hsize : t.size propertyType.isSome optional = some size)
    (hencode : t.encode propertyType optional = some encode) {v : t.Value} (h : encode v = .ok e) :
    UInt32.ofNat e.length + t.overcounted propertyType.isSome optional v =
      size v + t.uncounted propertyType.isSome optional v := by
  cases t with
  | string =>
      cases hencode
      obtain ⟨e', he', hlen⟩ := length_withIdent h
      obtain ⟨-, rfl⟩ := encodeString_eq_ok he'
      rw [hlen, prefixed_length, UInt32.ofNat_add]
      refine congrArg (· + 0) ?_
      cases propertyType with
      | none =>
          cases hsize
          exact UInt32.zero_add _
      | some ident =>
          cases hsize
          exact congrArg (1 + ·) (UInt32.add_comm _ _)
  | vec item =>
      rw [ItemType.size_agrees hsize hencode h]
      exact UInt32.add_zero _
  | primitive p =>
      obtain ⟨n, hn, rfl⟩ := Option.map_eq_some_iff.mp hsize
      obtain ⟨put, hput, rfl⟩ := Option.map_eq_some_iff.mp hencode
      obtain ⟨e', he', hlen⟩ := length_withIdent h
      cases he'
      rw [hlen, p.size_agrees hn hput v]
      rfl
  | complex c =>
      cases hencode
      cases hsize
      obtain ⟨e', he', hlen⟩ := length_withIdent h
      rw [hlen, c.ofNat_length he']
      cases propertyType with
      | none => cases optional <;> exact congrArg (· + 0) (UInt32.zero_add _)
      | some ident => cases optional <;> exact UInt32.add_comm _ _
  | other α => cases hsize

theorem FieldType.size_agrees {t : FieldType} {size : t.Value → UInt32} {encode : t.Value → Enc}
    (hsize : t.size propertyType.isSome = some size) (hencode : t.encode propertyType = some encode)
    {v : t.Value} (h : encode v = .ok e) :
    UInt32.ofNat e.length + t.measure (SegmentType.overcounted propertyType.isSome) v =
      size v + t.measure (SegmentType.uncounted propertyType.isSome) v := by
  cases t with
  | plain t => exact SegmentType.size_agrees hsize hencode h
  | option t =>
      obtain ⟨size', hsize', rfl⟩ := Option.map_eq_some_iff.mp hsize
      obtain ⟨encode', hencode', rfl⟩ := Option.map_eq_some_iff.mp hencode
      cases v with
      | none =>
          cases h
          rfl
      | some v => exact SegmentType.size_agrees hsize' hencode' h

theorem withIdent_ok {x : Enc} (h : ∃ e, x = .ok e) : ∃ e, withIdent propertyType x = .ok e := by
  obtain ⟨e, rfl⟩ := h
  exact ⟨_, rfl⟩

theorem encodeAll_ok {α : Type} {encode : α → Enc} {items : List α}
    (h : ∀ item ∈ items, ∃ e, encode item = .ok e) : ∃ e, encodeAll encode items = .ok e := by
  induction items with
  | nil => exact ⟨[], rfl⟩
  | cons item items ih =>
      obtain ⟨⟨e, he⟩, hrest⟩ := List.forall_mem_cons.mp h
      obtain ⟨e', he'⟩ := ih hrest
      exact ⟨e ++ e', by simp only [encodeAll, he, he', bind, Except.bind]⟩

theorem SegmentType.encode_ok {t : SegmentType} {encode : t.Value → Enc}
    (hencode : t.encode propertyType optional = some encode) {v : t.Value} (hfits : t.Fits v) :
    ∃ e, encode v = .ok e := by
  cases t with
  | string =>
      cases hencode
      exact withIdent_ok ⟨_, if_neg (Nat.not_lt.mpr hfits)⟩
  | vec item =>
      cases item with
      | primitive p =>
          cases p <;> cases hencode
          exact withIdent_ok ⟨_, if_neg (Nat.not_lt.mpr hfits)⟩
      | complex c =>
          cases hencode
          exact encodeAll_ok fun item hitem => withIdent_ok (hfits item hitem)
  | primitive p =>
      obtain ⟨put, -, rfl⟩ := Option.map_eq_some_iff.mp hencode
      exact withIdent_ok ⟨_, rfl⟩
  | complex c =>
      cases hencode
      exact withIdent_ok hfits
  | other α => cases hencode

theorem FieldType.encode_ok {t : FieldType} {encode : t.Value → Enc}
    (hencode : t.encode propertyType = some encode) {v : t.Value} (hfits : t.Fits v) :
    ∃ e, encode v = .ok e := by
  cases t with
  | plain t => exact SegmentType.encode_ok hencode hfits
  | option t =>
      obtain ⟨encode', hencode', rfl⟩ := Option.map_eq_some_iff.mp hencode
      cases v with
      | none => exact ⟨[], rfl⟩
      | some v => exact SegmentType.encode_ok hencode' hfits

end

section

variable {σ : Type} {self : σ} {f : DeclaredField σ} {e : Bytes}

namespace DeclaredField

theorem size_agrees {size : σ → UInt32} {encode : σ → Enc} (hsize : f.size = some size)
    (hencode : f.encode = some encode) (h : encode self = .ok e) :
    UInt32.ofNat e.length + f.overcounted self = f.counted self + f.uncounted self := by
  unfold DeclaredField.counted DeclaredField.overcounted DeclaredField.uncounted
  rw [hsize, Option.elim_some]
  unfold DeclaredField.size at hsize
  unfold DeclaredField.encode at hencode
  by_cases hskip : f.skip
  · have hleft : f.written self = false := by simp [written, hskip]
    rw [if_pos hskip] at hsize hencode
    cases hsize
    cases hencode
    cases h
    simp [hleft]
  · rw [if_neg hskip] at hsize hencode
    obtain ⟨size', hsize', rfl⟩ := Option.map_eq_some_iff.mp hsize
    obtain ⟨encode', hencode', rfl⟩ := Option.map_eq_some_iff.mp hencode
    by_cases hwritten : f.written self
    · simp only [if_pos hwritten] at h ⊢
      exact FieldType.size_agrees hsize' hencode' h
    · simp only [if_neg hwritten] at h ⊢
      cases h
      rfl

theorem encode_ok {encode : σ → Enc} (hencode : f.encode = some encode) (hfits : f.Fits self) :
    ∃ e, encode self = .ok e := by
  unfold DeclaredField.encode at hencode
  split at hencode
  · cases hencode
    exact ⟨[], rfl⟩
  · obtain ⟨encode', hencode', rfl⟩ := Option.map_eq_some_iff.mp hencode
    by_cases hwritten : f.written self
    · obtain ⟨e, he⟩ := FieldType.encode_ok hencode' (hfits hwritten)
      exact ⟨e, (if_pos hwritten).trans he⟩
    · exact ⟨[], if_neg hwritten⟩

end DeclaredField

/-! ## All fields -/

theorem add_agrees {a b c d a' b' c' d' : UInt32} (h : a + b = c + d) (h' : a' + b' = c' + d') :
    a + a' + (b + b') = c + c' + (d + d') := by
  calc a + a' + (b + b') = (a + b) + (a' + b') := by ac_rfl
    _ = (c + d) + (c' + d') := by rw [h, h']
    _ = c + c' + (d + d') := by ac_rfl

theorem total_filter_or (μ : DeclaredField σ → UInt32) {p q r : DeclaredField σ → Bool}
    (hor : ∀ f, r f = (p f || q f)) (hdisjoint : ∀ f, p f = true → q f = false)
    (fields : List (DeclaredField σ)) :
    total μ (fields.filter r) = total μ (fields.filter p) + total μ (fields.filter q) := by
  induction fields with
  | nil => rfl
  | cons f fields ih =>
      unfold total at ih ⊢
      cases hp : p f with
      | true =>
          have hq := hdisjoint f hp
          have hr : r f = true := by rw [hor, hp, Bool.true_or]
          simp only [List.filter_cons, hp, hq, hr, if_true, List.map_cons, List.sum_cons, ih,
            Bool.false_eq_true, if_false]
          ac_rfl
      | false =>
          have hr : r f = q f := by rw [hor, hp, Bool.false_or]
          simp only [List.filter_cons, hp, hr, Bool.false_eq_true, if_false]
          cases q f with
          | true =>
              simp only [if_true, List.map_cons, List.sum_cons, ih]
              ac_rfl
          | false => exact ih

variable {fields : List (DeclaredField σ)}

theorem sumSizes_eq_some {sizes : σ → UInt32} (h : sumSizes fields = some sizes) :
    (∀ f ∈ fields, ∃ size, f.size = some size) ∧
      ∀ self, sizes self = total (DeclaredField.counted self) fields := by
  induction fields generalizing sizes with
  | nil =>
      cases h
      exact ⟨fun f hf => absurd hf List.not_mem_nil, fun _ => rfl⟩
  | cons f fields ih =>
      obtain ⟨size, hsize, h⟩ := Option.bind_eq_some_iff.mp h
      obtain ⟨rest, hrest, h⟩ := Option.bind_eq_some_iff.mp h
      cases h
      obtain ⟨hall, hsum⟩ := ih hrest
      refine ⟨List.forall_mem_cons.mpr ⟨⟨size, hsize⟩, hall⟩, fun self => ?_⟩
      have hcounted : f.counted self = size self := by rw [DeclaredField.counted, hsize, Option.elim_some]
      rw [total, List.map_cons, List.sum_cons, hcounted]
      exact congrArg (size self + ·) (hsum self)

theorem encodeFields_agrees {encode : σ → Enc} (hsizes : ∀ f ∈ fields, ∃ size, f.size = some size)
    (hencode : encodeFields fields = some encode) (h : encode self = .ok e) :
    UInt32.ofNat e.length + total (DeclaredField.overcounted self) fields =
      total (DeclaredField.counted self) fields + total (DeclaredField.uncounted self) fields := by
  induction fields generalizing encode e with
  | nil =>
      cases hencode
      cases h
      rfl
  | cons f fields ih =>
      obtain ⟨encode₁, h₁, hencode⟩ := Option.bind_eq_some_iff.mp hencode
      obtain ⟨encode₂, h₂, hencode⟩ := Option.bind_eq_some_iff.mp hencode
      cases hencode
      obtain ⟨e₁, he₁, h⟩ := enc_bind_eq_ok.mp h
      obtain ⟨e₂, he₂, h⟩ := enc_bind_eq_ok.mp h
      cases h
      obtain ⟨⟨size, hsize⟩, hrest⟩ := List.forall_mem_cons.mp hsizes
      have hfield := DeclaredField.size_agrees hsize h₁ he₁
      have hfields := ih hrest h₂ he₂
      simp only [total, List.map_cons, List.sum_cons] at hfields ⊢
      rw [List.length_append, UInt32.ofNat_add]
      exact add_agrees hfield hfields

theorem encodeFields_ok {encode : σ → Enc} (hencode : encodeFields fields = some encode)
    (hfits : ∀ f ∈ fields, f.Fits self) : ∃ e, encode self = .ok e := by
  induction fields generalizing encode with
  | nil =>
      cases hencode
      exact ⟨[], rfl⟩
  | cons f fields ih =>
      obtain ⟨encode₁, h₁, hencode⟩ := Option.bind_eq_some_iff.mp hencode
      obtain ⟨encode₂, h₂, hencode⟩ := Option.bind_eq_some_iff.mp hencode
      cases hencode
      obtain ⟨hf, hrest⟩ := List.forall_mem_cons.mp hfits
      obtain ⟨e₁, he₁⟩ := DeclaredField.encode_ok h₁ hf
      obtain ⟨e₂, he₂⟩ := ih h₂ hrest
      exact ⟨e₁ ++ e₂, by simp only [he₁, he₂, bind, Except.bind]⟩

end

/-! ## A struct -/

namespace Declaration

section

variable {σ : Type} {d : Declaration σ} {self : σ} {e : Bytes}

/-- What `codec_size` adds for the property section. -/
def sectionSize (d : Declaration σ) (self : σ) : UInt32 :=
  if d.hasProperties then
    let propertySize := total (DeclaredField.counted self) (d.fields.filter DeclaredField.isProperty)
    propertySize + variableByteIntSize propertySize
  else 0

theorem total_fields (μ : DeclaredField σ → UInt32) (fields : List (DeclaredField σ)) :
    total μ fields =
      total μ (fields.filter DeclaredField.isProperty) + total μ (fields.filter fun f => !f.isProperty) := by
  have h := total_filter_or μ (p := DeclaredField.isProperty) (q := fun f => !f.isProperty)
    (r := fun _ => true) (by simp) (by simp) fields
  rwa [List.filter_true] at h

/-- The order in which the size generator takes the other fields. -/
theorem total_sized (μ : DeclaredField σ → UInt32) (fields : List (DeclaredField σ)) :
    total μ (fields.filter fun f => !f.isProperty) =
      total μ (fields.filter fun f => !f.isProperty && !f.nonAbbreviated) +
        total μ (fields.filter fun f => !f.isProperty && f.nonAbbreviated) := by
  refine total_filter_or μ (fun f => ?_) (fun f hf => ?_) fields
  · cases f.isProperty <;> cases f.nonAbbreviated <;> rfl
  · simp only [Bool.and_eq_true, Bool.not_eq_true'] at hf
    rw [hf.2, Bool.and_false]

theorem isPayload_of_isProperty {f : DeclaredField σ} (h : f.isProperty = true) : f.isPayload = false := by
  unfold DeclaredField.isProperty at h
  unfold DeclaredField.isPayload
  cases hplacement : f.placement with
  | payload =>
      rw [hplacement] at h
      cases h
  | _ => rfl

/-- The order in which the encoder takes them. -/
theorem total_encoded (μ : DeclaredField σ → UInt32) (fields : List (DeclaredField σ)) :
    total μ (fields.filter fun f => !f.isProperty) =
      total μ (fields.filter fun f => f.isHeader && !f.nonAbbreviated) +
        total μ (fields.filter fun f => f.isHeader && f.nonAbbreviated) +
          total μ (fields.filter DeclaredField.isPayload) := by
  have hheader : total μ (fields.filter DeclaredField.isHeader) = _ :=
    total_filter_or μ (p := fun f => f.isHeader && !f.nonAbbreviated)
      (q := fun f => f.isHeader && f.nonAbbreviated)
      (fun f => by cases f.isHeader <;> cases f.nonAbbreviated <;> rfl)
      (fun f hf => by
        simp only [Bool.and_eq_true, Bool.not_eq_true'] at hf
        rw [hf.2, Bool.and_false]) fields
  rw [← hheader]
  refine total_filter_or μ (fun f => ?_) (fun f hf => ?_) fields
  · unfold DeclaredField.isHeader
    cases hproperty : f.isProperty with
    | true => rw [isPayload_of_isProperty hproperty]; rfl
    | false => cases f.isPayload <;> rfl
  · unfold DeclaredField.isHeader at hf
    simp only [Bool.and_eq_true, Bool.not_eq_true'] at hf
    exact hf.2

theorem codecSize_eq_some {size : σ → UInt32} (h : d.codecSize = some size) :
    (∀ f ∈ d.fields, ∃ size, f.size = some size) ∧
      ∀ self, size self =
        if d.hasProperties && d.abbreviated self then
          total (DeclaredField.counted self)
            (d.fields.filter fun f => !f.isProperty && !f.nonAbbreviated)
        else
          total (DeclaredField.counted self) (d.fields.filter fun f => !f.isProperty) +
            d.sectionSize self := by
  obtain ⟨fieldSizes, hfirst, h⟩ := Option.bind_eq_some_iff.mp h
  obtain ⟨nonAbbreviated, hsecond, h⟩ := Option.bind_eq_some_iff.mp h
  obtain ⟨hfirst, hfieldSizes⟩ := sumSizes_eq_some hfirst
  obtain ⟨hsecond, hnonAbbreviated⟩ := sumSizes_eq_some hsecond
  -- the properties are the rest
  have hall : (∀ f ∈ d.fields.filter DeclaredField.isProperty, ∃ size, f.size = some size) →
      ∀ f ∈ d.fields, ∃ size, f.size = some size := by
    intro hproperties f hf
    cases hproperty : f.isProperty with
    | true => exact hproperties f (List.mem_filter.mpr ⟨hf, hproperty⟩)
    | false =>
        cases hnon : f.nonAbbreviated with
        | true => exact hsecond f (List.mem_filter.mpr ⟨hf, by simp [hproperty, hnon]⟩)
        | false => exact hfirst f (List.mem_filter.mpr ⟨hf, by simp [hproperty, hnon]⟩)
  cases hhas : d.hasProperties with
  | true =>
      rw [hhas, if_pos rfl] at h
      obtain ⟨propertySize, hproperties, h⟩ := Option.bind_eq_some_iff.mp h
      cases h
      obtain ⟨hproperties, hpropertySize⟩ := sumSizes_eq_some hproperties
      refine ⟨hall hproperties, fun self => ?_⟩
      simp only [hfieldSizes, hnonAbbreviated, hpropertySize, Bool.true_and, sectionSize, hhas,
        if_true, total_sized]
      split
      · rfl
      · ac_rfl
  | false =>
      rw [hhas] at h
      cases h
      refine ⟨hall fun f hf => ?_, fun self => ?_⟩
      · obtain ⟨hf, hproperty⟩ := List.mem_filter.mp hf
        rw [hasProperties, List.any_eq_false] at hhas
        exact absurd hproperty (hhas f hf)
      · simp only [hfieldSizes, hnonAbbreviated, Bool.false_and, Bool.false_eq_true, if_false,
          sectionSize, hhas, total_sized, UInt32.add_zero]

theorem propertyEncode_agrees {encode : σ → Enc}
    (hsizes : ∀ f ∈ d.fields, ∃ size, f.size = some size)
    (hencode : d.propertyEncode = some encode)
    (hfits : ∀ propertySize, d.propertySize = some propertySize →
      propertySize self ≤ maxVariableByteInt) (h : encode self = .ok e) :
    UInt32.ofNat e.length + total (DeclaredField.overcounted self) (d.fields.filter DeclaredField.isProperty) =
      d.sectionSize self +
        total (DeclaredField.uncounted self) (d.fields.filter DeclaredField.isProperty) := by
  unfold propertyEncode at hencode
  unfold sectionSize
  split at hencode
  case isTrue hhas =>
    rw [if_pos hhas]
    obtain ⟨propertySize, hproperties, hencode⟩ := Option.bind_eq_some_iff.mp hencode
    obtain ⟨encodeProperties, hfields, hencode⟩ := Option.bind_eq_some_iff.mp hencode
    cases hencode
    obtain ⟨len, hlen, h⟩ := enc_bind_eq_ok.mp h
    obtain ⟨e', he', h⟩ := enc_bind_eq_ok.mp h
    cases h
    rw [encodeVariableByteInt_eq] at hlen
    cases hlen
    have hle := hfits propertySize hproperties
    have hfield := encodeFields_agrees (fun f hf => hsizes f (List.mem_filter.mp hf).1) hfields he'
    have hvarInt := varIntEncoding_size hle
    rw [(sumSizes_eq_some hproperties).2 self] at hvarInt ⊢
    simp only [List.length_append, UInt32.ofNat_add, ← hvarInt]
    rw [UInt32.add_assoc, hfield]
    ac_rfl
  case isFalse hhas =>
    cases hencode
    cases h
    have hnone : d.fields.filter DeclaredField.isProperty = [] := by
      rw [List.filter_eq_nil_iff]
      intro f hf hproperty
      exact hhas (List.any_eq_true.mpr ⟨f, hf, hproperty⟩)
    rw [if_neg hhas, hnone]
    rfl

/-- In an abbreviated struct the size generator takes the fields that are written and those
that are dropped. -/
theorem sized_of_abbreviated (d : Declaration σ) (self : σ) (μ : DeclaredField σ → UInt32) :
    (if d.hasProperties then
      total μ (d.fields.filter fun f => !f.isProperty && !f.nonAbbreviated)
    else total μ (d.fields.filter fun f => !f.isProperty) + d.sectionSize self) =
      total μ (d.fields.filter fun f => f.isHeader && !f.nonAbbreviated) +
        total μ (d.fields.filter fun f => !f.isProperty &&
          (f.isPayload && !f.nonAbbreviated || f.nonAbbreviated && !d.hasProperties)) := by
  have hdisjoint : ∀ f : DeclaredField σ, (f.isHeader && !f.nonAbbreviated) = true →
      (!f.isProperty && (f.isPayload && !f.nonAbbreviated ||
        f.nonAbbreviated && !d.hasProperties)) = false := by
    intro f hf
    simp only [DeclaredField.isHeader, Bool.and_eq_true, Bool.not_eq_true'] at hf
    rw [hf.1.2, hf.2]
    simp
  cases hhas : d.hasProperties with
  | true =>
      rw [hhas] at hdisjoint
      refine total_filter_or μ (fun f => ?_) hdisjoint d.fields
      unfold DeclaredField.isHeader
      cases f.isProperty <;> cases f.isPayload <;> cases f.nonAbbreviated <;> rfl
  | false =>
      rw [hhas] at hdisjoint
      rw [if_neg Bool.false_ne_true, sectionSize, hhas]
      refine (UInt32.add_zero _).trans (total_filter_or μ (fun f => ?_) hdisjoint d.fields)
      unfold DeclaredField.isHeader
      cases f.isProperty <;> cases f.isPayload <;> cases f.nonAbbreviated <;> rfl

/-- The size and the bytes differ by what is not counted and what is counted too much. -/
theorem codecSize_agrees {size : σ → UInt32} {encode : σ → Enc} (hsize : d.codecSize = some size)
    (hencode : d.encodeBody = some encode)
    (hfits : ∀ propertySize, d.propertySize = some propertySize →
      propertySize self ≤ maxVariableByteInt) (h : encode self = .ok e) :
    UInt32.ofNat e.length + d.overcounted self = size self + d.uncounted self := by
  obtain ⟨hsizes, hsize⟩ := codecSize_eq_some hsize
  have hfiltered : ∀ p : DeclaredField σ → Bool, ∀ f ∈ d.fields.filter p, ∃ size, f.size = some size :=
    fun p f hf => hsizes f (List.mem_filter.mp hf).1
  obtain ⟨encodeHeader, hheader, hencode⟩ := Option.bind_eq_some_iff.mp hencode
  obtain ⟨encodeRest, hrest, hencode⟩ := Option.bind_eq_some_iff.mp hencode
  obtain ⟨encodeProperties, hproperties, hencode⟩ := Option.bind_eq_some_iff.mp hencode
  obtain ⟨encodePayload, hpayload, hencode⟩ := Option.bind_eq_some_iff.mp hencode
  cases hencode
  obtain ⟨e₁, he₁, h⟩ := enc_bind_eq_ok.mp h
  have hfirst := encodeFields_agrees (hfiltered _) hheader he₁
  rw [hsize]
  unfold overcounted uncounted reached dropped
  cases habbreviated : d.abbreviated self with
  | true =>
      rw [habbreviated] at h
      cases h
      have hcounted := d.sized_of_abbreviated self (DeclaredField.counted self)
      simp only [Bool.and_true, if_true]
      rw [hcounted, ← UInt32.add_assoc, hfirst]
      ac_rfl
  | false =>
      rw [habbreviated] at h
      obtain ⟨e₂, he₂, h⟩ := enc_bind_eq_ok.mp h
      obtain ⟨e₃, he₃, h⟩ := enc_bind_eq_ok.mp h
      obtain ⟨e₄, he₄, h⟩ := enc_bind_eq_ok.mp h
      cases h
      have hsecond := encodeFields_agrees (hfiltered _) hrest he₂
      have hthird := propertyEncode_agrees hsizes hproperties hfits he₃
      have hfourth := encodeFields_agrees (hfiltered _) hpayload he₄
      simp only [Bool.and_false, Bool.false_eq_true, if_false, List.length_append, UInt32.ofNat_add]
      rw [total_fields _ d.fields, total_fields (DeclaredField.uncounted self) d.fields]
      simp only [total_encoded]
      -- the properties are written before the payload
      have hwritten := add_agrees (add_agrees hthird (add_agrees hfirst hsecond)) hfourth
      refine Eq.trans ?_ (hwritten.trans ?_)
      · simp only [total, List.map_nil, List.sum_nil, UInt32.add_zero]
        ac_rfl
      · ac_rfl

theorem propertyEncode_ok {encode : σ → Enc} (hencode : d.propertyEncode = some encode)
    (hfits : ∀ f ∈ d.fields, f.Fits self) : ∃ e, encode self = .ok e := by
  unfold propertyEncode at hencode
  split at hencode
  · obtain ⟨propertySize, -, hencode⟩ := Option.bind_eq_some_iff.mp hencode
    obtain ⟨encodeProperties, hproperties, hencode⟩ := Option.bind_eq_some_iff.mp hencode
    cases hencode
    obtain ⟨e, he⟩ := encodeFields_ok hproperties fun f hf => hfits f (List.mem_filter.mp hf).1
    exact ⟨varIntEncoding (propertySize self) ++ e,
      by simp only [he, encodeVariableByteInt_eq, bind, Except.bind]⟩
  · cases hencode
    exact ⟨[], rfl⟩

theorem encodeBody_ok {encode : σ → Enc} (hencode : d.encodeBody = some encode)
    (hfits : ∀ f ∈ d.fields, f.Fits self) : ∃ body, encode self = .ok body := by
  have hfiltered : ∀ p : DeclaredField σ → Bool, ∀ f ∈ d.fields.filter p, f.Fits self :=
    fun p f hf => hfits f (List.mem_filter.mp hf).1
  obtain ⟨encodeHeader, hheader, hencode⟩ := Option.bind_eq_some_iff.mp hencode
  obtain ⟨encodeRest, hrest, hencode⟩ := Option.bind_eq_some_iff.mp hencode
  obtain ⟨encodeProperties, hproperties, hencode⟩ := Option.bind_eq_some_iff.mp hencode
  obtain ⟨encodePayload, hpayload, hencode⟩ := Option.bind_eq_some_iff.mp hencode
  cases hencode
  obtain ⟨e₁, he₁⟩ := encodeFields_ok hheader (hfiltered _)
  obtain ⟨e₂, he₂⟩ := encodeFields_ok hrest (hfiltered _)
  obtain ⟨e₄, he₄⟩ := encodeFields_ok hpayload (hfiltered _)
  obtain ⟨e₃, he₃⟩ := propertyEncode_ok hproperties hfits
  simp only [he₁, he₂, he₃, he₄, bind, Except.bind]
  split
  · exact ⟨e₁, rfl⟩
  · exact ⟨_, rfl⟩

/-- What both generators do with a value whose lengths fit. -/
theorem exists_body (hcompiles : d.compiles = true) (hfits : d.Fits self) :
    ∃ size encode body, d.codecSize = some size ∧ d.encodeBody = some encode ∧
      encode self = .ok body ∧ body.length < UInt32.size ∧
      UInt32.ofNat body.length + d.overcounted self = size self + d.uncounted self := by
  obtain ⟨hsize, hencode⟩ := Bool.and_eq_true_iff.mp hcompiles
  obtain ⟨size, hsize⟩ := Option.isSome_iff_exists.mp hsize
  obtain ⟨encode, hencode⟩ := Option.isSome_iff_exists.mp hencode
  obtain ⟨body, hbody⟩ := encodeBody_ok hencode hfits.fields
  have hlt := hfits.body encode hencode
  rw [hbody, encodedLength_ok] at hlt
  exact ⟨size, encode, body, hsize, hencode, hbody, hlt,
    codecSize_agrees hsize hencode hfits.properties hbody⟩

theorem sizeAgrees_iff_ofNat {size : σ → UInt32} {encode : σ → Enc} (hsize : d.codecSize = some size)
    (hencode : d.encodeBody = some encode) (hbody : encode self = .ok e)
    (hlt : e.length < UInt32.size) : d.SizeAgrees self ↔ UInt32.ofNat e.length = size self := by
  have hlength : (UInt32.ofNat e.length).toNat = e.length := UInt32.toNat_ofNat_of_lt' hlt
  constructor
  · rintro ⟨size', encode', body', hsize', hencode', hbody', heq⟩
    cases hsize.symm.trans hsize'
    cases hencode.symm.trans hencode'
    cases hbody.symm.trans hbody'
    rw [← heq, UInt32.ofNat_toNat]
  · intro heq
    exact ⟨size, encode, e, hsize, hencode, hbody, by rw [← heq, hlength]⟩

/-- `codec_size` is the number of bytes written if what is left out is as much as what is
counted too much. -/
theorem sizeAgrees_iff (hcompiles : d.compiles = true) (hfits : d.Fits self) :
    d.SizeAgrees self ↔ d.overcounted self = d.uncounted self := by
  obtain ⟨size, encode, body, hsize, hencode, hbody, hlt, hagrees⟩ := exists_body hcompiles hfits
  rw [sizeAgrees_iff_ofNat hsize hencode hbody hlt]
  constructor
  · intro heq
    rw [heq] at hagrees
    exact (UInt32.add_right_inj _).mp hagrees
  · intro heq
    rw [heq] at hagrees
    exact (UInt32.add_left_inj _).mp hagrees

end

/-- A topic, a receive maximum and a payload. -/
def message : Declaration (String × Option UInt16 × Bytes) where
  fields := [
    { type := .plain .string, get := fun s => s.1, placement := .header },
    { type := .option (.primitive .u16), get := fun s => s.2.1, placement := .property 0x21 },
    { type := .plain (.vec (.primitive .u8)), get := fun s => s.2.2, placement := .payload }]

theorem message_sizeAgrees : message.SizeAgrees ("a", some 10, [0x70]) := by
  refine (sizeAgrees_iff rfl ⟨?_, ?_, ?_⟩).mpr (by decide)
  · simp only [message, List.forall_mem_cons, List.not_mem_nil, false_imp_iff, implies_true, and_true]
    have htopic : (utf8 "a").length ≤ 65535 := by decide +kernel
    have hpayload : [0x70].length ≤ 65535 := by decide
    exact ⟨fun _ => htopic, fun _ => trivial, fun _ => hpayload⟩
  · intro propertySize h
    cases h
    decide
  · intro encode h
    cases h
    decide +kernel

def binary : Declaration Bytes where
  fields := [{ type := .plain (.vec (.primitive .u8)), get := id, placement := .header }]

/-- The size of an empty vector is 0, and its length prefix is written. -/
theorem binary_not_sizeAgrees :
    ¬ ∀ (σ : Type) (d : Declaration σ) (self : σ), d.compiles = true → d.Fits self →
      d.SizeAgrees self := by
  intro h
  have hfits : binary.Fits ([] : Bytes) := by
    refine ⟨?_, ?_, ?_⟩
    · intro f hf _
      obtain rfl := List.mem_singleton.mp hf
      exact Nat.zero_le _
    · intro propertySize h
      cases h
      decide
    · intro encode h
      cases h
      decide
  obtain ⟨size, encode, body, hsize, hencode, hbody, hlength⟩ := h Bytes binary [] rfl hfits
  cases hsize
  cases hencode
  cases hbody
  exact absurd hlength (by decide)

end Declaration

/-! ## Without complex properties -/

/-- A `Vec<u8>`, or the one in an `Option`, without a byte. -/
def SegmentType.emptyBytes : (t : SegmentType) → t.Value → Bool
  | .vec (.primitive .u8), value => value.isEmpty
  | _, _ => false

def FieldType.emptyBytes : (t : FieldType) → t.Value → Bool
  | .plain t => t.emptyBytes
  | .option t => ifSome false t.emptyBytes

def FieldType.isComplex : FieldType → Bool
  | .plain (.complex _) | .option (.complex _) => true
  | _ => false

section

variable {isProperty optional : Bool}

theorem SegmentType.measures_of_simple {t : SegmentType}
    (h : isProperty = true → ∀ c, t ≠ .complex c) (v : t.Value) :
    t.overcounted isProperty optional v = 0 ∧
      t.uncounted isProperty optional v =
        if t.emptyBytes v then propIdentSize isProperty + 2 else 0 := by
  cases t with
  | vec item =>
      cases item with
      | primitive p => cases p <;> exact ⟨rfl, rfl⟩
      | complex c => exact ⟨rfl, rfl⟩
  | complex c =>
      cases isProperty with
      | true => exact absurd rfl (h rfl c)
      | false => exact ⟨rfl, rfl⟩
  | _ => exact ⟨rfl, rfl⟩

theorem FieldType.measures_of_simple {t : FieldType} (h : isProperty = true → t.isComplex = false)
    (v : t.Value) :
    t.measure (SegmentType.overcounted isProperty) v = 0 ∧
      t.measure (SegmentType.uncounted isProperty) v =
        if t.emptyBytes v then propIdentSize isProperty + 2 else 0 := by
  cases t with
  | plain t =>
      refine SegmentType.measures_of_simple (fun hproperty c heq => ?_) v
      subst heq
      cases h hproperty
  | option t =>
      cases v with
      | none => exact ⟨rfl, rfl⟩
      | some v =>
          refine SegmentType.measures_of_simple (fun hproperty c heq => ?_) v
          subst heq
          cases h hproperty

end

namespace Declaration

section

variable {σ : Type} {d : Declaration σ} {self : σ}

theorem total_eq_zero_iff {μ : DeclaredField σ → UInt32} {fields : List (DeclaredField σ)}
    (hle : ∀ f ∈ fields, (μ f).toNat ≤ 3) (hlength : 3 * fields.length < UInt32.size) :
    total μ fields = 0 ↔ ∀ f ∈ fields, μ f = 0 := by
  -- the sum stays below `u32::MAX`
  have hsum : (total μ fields).toNat ≤ 3 * fields.length ∧
      (total μ fields = 0 ↔ ∀ f ∈ fields, μ f = 0) := by
    induction fields with
    | nil => simp [total]
    | cons f fields ih =>
        obtain ⟨hf, hrest⟩ := List.forall_mem_cons.mp hle
        rw [List.length_cons] at hlength
        obtain ⟨hbound, hzero⟩ := ih hrest (by omega)
        have hadd : (μ f + total μ fields).toNat = (μ f).toNat + (total μ fields).toNat := by
          rw [UInt32.toNat_add]
          exact Nat.mod_eq_of_lt (Nat.lt_of_le_of_lt (by omega) hlength)
        have hcons : total μ (f :: fields) = μ f + total μ fields := by
          rw [total, List.map_cons, List.sum_cons]
          rfl
        rw [hcons, List.forall_mem_cons, ← hzero, List.length_cons]
        refine ⟨by omega, ?_⟩
        simp only [← UInt32.toNat_inj, hadd, UInt32.toNat_zero, Nat.add_eq_zero_iff]
  exact hsum.2

/-- In a struct without complex properties and without an abbreviated form, the size is
that of the body unless an empty byte vector is written. -/
theorem sizeAgrees_iff_of_simple (hcompiles : d.compiles = true) (hfits : d.Fits self)
    (hsimple : ∀ f ∈ d.fields, f.isProperty = true → f.type.isComplex = false)
    (hfull : d.abbreviatedWhen = none) (hlength : 3 * d.fields.length < UInt32.size) :
    d.SizeAgrees self ↔
      ∀ f ∈ d.fields, f.written self = true → f.type.emptyBytes (f.get self) = false := by
  obtain ⟨size, encode, body, hsize, hencode, hbody, hlt, hagrees⟩ := exists_body hcompiles hfits
  rw [sizeAgrees_iff_ofNat hsize hencode hbody hlt]
  have hreached : d.reached self = d.fields := by simp [reached, abbreviated, hfull]
  have hdropped : d.dropped self = [] := by simp [dropped, abbreviated, hfull]
  have hfield : ∀ f ∈ d.fields, f.overcounted self = 0 ∧ f.uncounted self =
      if f.written self && f.type.emptyBytes (f.get self) then propIdentSize f.isProperty + 2
      else 0 := by
    intro f hf
    obtain ⟨hover, hunder⟩ := FieldType.measures_of_simple (hsimple f hf) (f.get self)
    unfold DeclaredField.overcounted DeclaredField.uncounted
    cases f.written self with
    | true => exact ⟨hover, hunder⟩
    | false => exact ⟨rfl, rfl⟩
  have hover : d.overcounted self = 0 := by
    rw [overcounted, hreached, hdropped,
      (total_eq_zero_iff (fun f hf => by rw [(hfield f hf).1]; decide) hlength).mpr
        fun f hf => (hfield f hf).1]
    rfl
  have hle : ∀ f ∈ d.fields, (f.uncounted self).toNat ≤ 3 := by
    intro f hf
    rw [(hfield f hf).2]
    cases f.isProperty <;> split <;> decide
  rw [hover, UInt32.add_zero] at hagrees
  have hzero : UInt32.ofNat body.length = size self ↔ d.uncounted self = 0 := by
    rw [hagrees]
    exact UInt32.add_eq_left
  rw [hzero, uncounted, hreached, total_eq_zero_iff hle hlength]
  refine forall₂_congr fun f hf => ?_
  rw [(hfield f hf).2]
  cases f.written self <;> cases f.type.emptyBytes (f.get self) <;> cases f.isProperty <;> decide

end

end Declaration

end Mqtt
end Vaux
