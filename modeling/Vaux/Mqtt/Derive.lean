import Vaux.Mqtt.UserProperty

/-!
# The derive macros

`vaux-macro` generates `CodecSize`, `PropertyCodecSize`, `Encode` and `Decode` from
the fields of a struct and their `codec` attributes.  Here a struct is described by
its members, in the order of the source, and the generated functions are functions
of that description: `Derived.codecSize`, `Derived.propertySize`, `Derived.encode`
and `Derived.decode`.

A member says what the encoder writes for it (`items`, nothing for an absent option
or a skipped empty vector) and what the decoder does with a value it has read
(`apply`).  A property member has a property type besides, and `counted` says
whether the bytes of its value are added to `property_bytes_read`: the macro adds
those of a `Vec<u8>` to `bytes_read` instead.

The decoders of CONNECT and PUBLISH are written by hand but run the same property
loop, so `decodeProperties` serves them too.
-/

namespace Vaux
namespace Mqtt

open Wire Decoder

/-- Encode one after the other. -/
def encodeAll {α : Type*} (encode : α → Enc) : List α → Enc
  | [] => .ok []
  | a :: rest => do
    let e ← encode a
    let e' ← encodeAll encode rest
    .ok (e ++ e')

/-- A field of a struct.  The laws say that `apply` stores the value where `items` finds
it, that it stores no more than that, and that applying all that is written for one
value to a fresh one makes the same items again. -/
structure Member (σ : Type) where
  α : Type
  codec : Codec α
  items : HashOrder → σ → List α
  apply : σ → α → σ
  /-- Always written, whatever its value. -/
  required : Bool
  length_of_required : required = true → ∀ order self, (items order self).length = 1
  mem_apply : ∀ {order : HashOrder} {self : σ} {a x : α},
    x ∈ items order (apply self a) → x = a ∨ x ∈ items order self
  sum_apply : ∀ (f : α → Nat) (order : HashOrder) (self : σ) (a : α),
    ((items order (apply self a)).map f).sum ≤ ((items order self).map f).sum + f a
  restores : ∀ (order : HashOrder) (self fresh : σ), required = true ∨ items order fresh = [] →
    items order ((items order self).foldl apply fresh) = items order self

namespace Member

variable {σ α : Type}

def field (codec : Codec α) (get : σ → α) (set : σ → α → σ)
    (lens : ∀ s v, get (set s v) = v := by intros; rfl) : Member σ where
  α := α
  codec := codec
  items _ self := [get self]
  apply := set
  required := true
  length_of_required _ _ _ := rfl
  mem_apply h := by
    rw [lens] at h
    exact .inl (List.mem_singleton.mp h)
  sum_apply f _ self a := by
    simp [lens]
  restores _ self fresh _ := by
    simp [lens]

/-- A field of type `Option<T>`. -/
def option (codec : Codec α) (get : σ → Option α) (set : σ → Option α → σ)
    (lens : ∀ s v, get (set s v) = v := by intros; rfl) : Member σ where
  α := α
  codec := codec
  items _ self := (get self).toList
  apply self a := set self (some a)
  required := false
  length_of_required h := by cases h
  mem_apply h := by
    rw [lens] at h
    exact .inl (List.mem_singleton.mp h)
  sum_apply f _ self a := by
    simp [lens]
  restores _ self fresh h := by
    rcases h with h | h
    · cases h
    · cases hself : get self with
      | none => simpa using h
      | some a => simp [lens]

/-- A field with `skip_if = "is_empty"`. -/
def skipIfEmpty [DecidableEq α] (codec : Codec α) (empty : α) (get : σ → α) (set : σ → α → σ)
    (lens : ∀ s v, get (set s v) = v := by intros; rfl) : Member σ where
  α := α
  codec := codec
  items _ self := if get self = empty then [] else [get self]
  apply := set
  required := false
  length_of_required h := by cases h
  mem_apply h := by
    rw [lens] at h
    split at h
    · cases h
    · exact .inl (List.mem_singleton.mp h)
  sum_apply f _ self a := by
    rw [lens]
    split <;> simp
  restores _ self fresh h := by
    rcases h with h | h
    · cases h
    · by_cases hself : get self = empty
      · simpa [hself] using h
      · simp [hself, lens]

def userProperty (get : σ → UserProperty) (set : σ → UserProperty → σ)
    (lens : ∀ s v, get (set s v) = v := by intros; rfl) : Member σ where
  α := String × String
  codec := UserProperty.pairCodec
  items order self := (get self).pairs order
  apply self p := set self ((get self).add p.1 p.2)
  required := false
  length_of_required h := by cases h
  mem_apply h := by
    rw [lens] at h
    exact UserProperty.mem_pairs_add _ h
  sum_apply f order self a := by
    rw [lens, UserProperty.sum_pairs, UserProperty.sum_pairs, UserProperty.sum_add]
  restores order self fresh h := by
    rcases h with h | h
    · cases h
    · have hfold : ∀ ps s, get (List.foldl (fun s (p : String × String) =>
          set s ((get s).add p.1 p.2)) s ps) = (get s).addAll ps := by
        intro ps
        induction ps with
        | nil => intro s; rfl
        | cons p ps ih =>
            intro s
            rw [List.foldl_cons, ih, lens]
            rfl
      rw [hfold, (UserProperty.pairs_eq_nil_iff order _).mp h, UserProperty.addAll_pairs]

variable (order : HashOrder)

def size (self : σ) (m : Member σ) : UInt32 := ((m.items order self).map m.codec.size).sum

def encode (self : σ) (m : Member σ) : Enc := encodeAll m.codec.encode (m.items order self)

def decode (m : Member σ) (self : σ) (bytesRead : Nat) : Dec (σ × Nat) := do
  let (a, n) ← m.codec.decode
  pure (m.apply self a, bytesRead + n)

/-- A pair is read by `UserProperty::decode` into the map of the field. -/
theorem decode_userProperty (get : σ → UserProperty) (set : σ → UserProperty → σ)
    (lens : ∀ s v, get (set s v) = v) (self : σ) (bytesRead : Nat) :
    (userProperty get set lens).decode self bytesRead =
      (get self).decode >>= fun (u, n) => pure (set self u, bytesRead + n) := by
  unfold UserProperty.decode
  rw [bind_assoc]
  rfl

end Member

def decodeMembers {σ : Type} : List (Member σ) → σ → Nat → Dec (σ × Nat)
  | [], self, bytesRead => pure (self, bytesRead)
  | m :: ms, self, bytesRead => do
    let (self, bytesRead) ← m.decode self bytesRead
    decodeMembers ms self bytesRead

structure Property (σ : Type) where
  propertyType : PropertyType
  member : Member σ
  counted : Bool

namespace Property

variable {σ α : Type} (propertyType : PropertyType)

def required (codec : Codec α) (get : σ → α) (set : σ → α → σ)
    (lens : ∀ s v, get (set s v) = v := by intros; rfl) : Property σ :=
  ⟨propertyType, .field codec get set lens, true⟩

def option (codec : Codec α) (get : σ → Option α) (set : σ → Option α → σ)
    (lens : ∀ s v, get (set s v) = v := by intros; rfl) : Property σ :=
  ⟨propertyType, .option codec get set lens, true⟩

/-- A `Vec<u8>`.  A generated decoder does not count it. -/
def vec (counted : Bool) (get : σ → Bytes) (set : σ → Bytes → σ)
    (lens : ∀ s v, get (set s v) = v := by intros; rfl) : Property σ :=
  ⟨propertyType, .skipIfEmpty .binary [] get set lens, counted⟩

def userProperty (get : σ → UserProperty) (set : σ → UserProperty → σ)
    (lens : ∀ s v, get (set s v) = v := by intros; rfl) : Property σ :=
  ⟨.userProperty, .userProperty get set lens, true⟩

end Property

/-- A property as it is written: the identifier and a value. -/
structure Item (σ : Type) where
  property : Property σ
  value : property.member.α

namespace Item

variable {σ : Type}

def size (i : Item σ) : UInt32 := 1 + i.property.member.codec.size i.value

def encode (i : Item σ) : Enc := do
  let e ← i.property.member.codec.encode i.value
  .ok (i.property.propertyType.toU8 :: e)

end Item

/-- The properties of `self` in the order they are written. -/
def propertyItems {σ : Type} (order : HashOrder) (ps : List (Property σ)) (self : σ) :
    List (Item σ) :=
  ps.flatMap fun p => (p.member.items order self).map fun a => ⟨p, a⟩

def propertySize {σ : Type} (order : HashOrder) (ps : List (Property σ)) (self : σ) : UInt32 :=
  ((propertyItems order ps self).map Item.size).sum

def propertyEncode {σ : Type} (order : HashOrder) (ps : List (Property σ)) (self : σ) : Enc := do
  let len ← encodeVariableByteInt (propertySize order ps self)
  let e ← encodeAll Item.encode (propertyItems order ps self)
  .ok (len ++ e)

/-- The locals of the property loop. -/
structure PropertyLoop (σ : Type) where
  self : σ
  propertyBytesRead : Nat
  bytesRead : Nat

/-- The arm of the `match` that handles a property type. -/
def arm {σ : Type} (ps : List (Property σ)) (propertyType : PropertyType) : Option (Property σ) :=
  ps.find? fun p => p.propertyType = propertyType

section

variable {σ : Type} (ps : List (Property σ)) (unsupported : PropertyType → MqttCodecError)

def propertyRound (st : PropertyLoop σ) : Dec (PropertyLoop σ) := do
  let value ← getU8
  let propertyType ← lift (.ofExcept (PropertyType.tryFrom value))
  match arm ps propertyType with
  | none => fail (unsupported propertyType)
  | some p => do
    let (a, n) ← p.member.codec.decode
    pure
      { self := p.member.apply st.self a
        propertyBytesRead := st.propertyBytesRead + 1 + (if p.counted then n else 0)
        bytesRead := st.bytesRead + (if p.counted then 0 else n) }

def propertyCond (propertyLength : Nat) (st : PropertyLoop σ) (_ : Bytes) : Bool :=
  st.propertyBytesRead < propertyLength

def decodeProperties (self : σ) (bytesRead : Nat) : Dec (σ × Nat) := do
  let (propertyLength, varBytesRead) ← decodeVariableByteInt
  let st ← whileLoop (propertyCond propertyLength.toNat) (propertyRound ps unsupported)
    { self, propertyBytesRead := 0, bytesRead := bytesRead + varBytesRead }
  pure (st.self, st.bytesRead + st.propertyBytesRead)

end

/-- The error of a derived decoder. -/
def unsupportedProperty (propertyType : PropertyType) : MqttCodecError :=
  .newWithKind s!"MQTT v5 property type {propertyType.debug} is not supported"
    (.unsupportedProperty propertyType.toU8)

/-- The error of a decoder written by hand, which names the packet. -/
def unsupportedPropertyFor (packet : String) (propertyType : PropertyType) : MqttCodecError :=
  .newWithKind s!"MQTT v5 property type {propertyType.debug} is not supported for {packet}"
    (.unsupportedProperty propertyType.toU8)

/-- A `Vec<T>` with `payload_type = "remaining"`. -/
structure Remaining (σ : Type) where
  α : Type
  codec : Codec α
  get : σ → List α
  set : σ → List α → σ
  lens : ∀ s v, get (set s v) = v := by intros; rfl
  /-- Every value takes at least one byte, so that the loop over them ends. -/
  progress : ∀ {src : Bytes} {a : α} {n : Nat} {rest : Bytes},
    codec.decode.run src = .ok ((a, n), rest) → rest.length < src.length

structure Derived (σ : Type) where
  header : List (Member σ)
  abbreviatedWhen : Option (HashOrder → σ → Bool)
  nonAbbreviated : List (Member σ)
  properties : List (Property σ)
  remaining : Option (Remaining σ)

namespace Derived

variable {σ : Type} (order : HashOrder) (d : Derived σ)

def propertySize (self : σ) : UInt32 := Mqtt.propertySize order d.properties self

def remainingSize (self : σ) : UInt32 :=
  match d.remaining with
  | none => 0
  | some r => ((r.get self).map r.codec.size).sum

def abbreviated (self : σ) : Bool :=
  match d.abbreviatedWhen with
  | none => false
  | some expr => expr order self

def codecSize (self : σ) : UInt32 :=
  let totalSize := (d.header.map (Member.size order self)).sum + d.remainingSize self
  if d.abbreviated order self then totalSize
  else
    let totalSize := totalSize + (d.nonAbbreviated.map (Member.size order self)).sum
    let propertySize := d.propertySize order self
    totalSize + propertySize + variableByteIntSize propertySize

def encodeRemaining (self : σ) : Enc :=
  match d.remaining with
  | none => .ok []
  | some r => encodeAll r.codec.encode (r.get self)

/-- What follows the header fields, unless the packet is abbreviated. -/
def encodeFull (self : σ) : Enc := do
  let fields ← encodeAll (Member.encode order self) d.nonAbbreviated
  let properties ← propertyEncode order d.properties self
  let payload ← d.encodeRemaining self
  .ok (fields ++ properties ++ payload)

def encodeBody (self : σ) : Enc := do
  let fields ← encodeAll (Member.encode order self) d.header
  if d.abbreviated order self then .ok fields
  else do
    let e ← d.encodeFull order self
    .ok (fields ++ e)

def decodeRemaining (self : σ) (bytesRead : Nat) : Dec (σ × Nat) :=
  match d.remaining with
  | none => pure (self, bytesRead)
  | some r => do
    let (value, bytesRead) ← decodeEach r.codec.decode bytesRead
    pure (r.set self value, bytesRead)

def decodeFull (self : σ) (bytesRead : Nat) : Dec (σ × Nat) := do
  let (self, bytesRead) ← decodeMembers d.nonAbbreviated self bytesRead
  let (self, bytesRead) ← decodeProperties d.properties unsupportedProperty self bytesRead
  d.decodeRemaining self bytesRead

def decode (self : σ) : Dec (σ × Nat) := do
  let (self, bytesRead) ← decodeMembers d.header self 0
  let n ← Decoder.remaining
  if d.abbreviatedWhen.isSome ∧ n = 0 then pure (self, bytesRead)
  else d.decodeFull self bytesRead

end Derived

end Mqtt
end Vaux
