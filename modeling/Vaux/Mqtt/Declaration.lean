import Vaux.Mqtt.SectionRoundTrip

/-!
# Declarations

The derive macros go by what a struct declares: the type of each field and its `codec`
attributes.  A declaration here is that, over any type of structs with a projection for
each field.  `Declaration.codecSize`, `Declaration.propertySize` and
`Declaration.encodeBody` are the two generators: they return what the generated function
computes, or nothing for a declaration that does not compile.

`encode_with`, `size_with` and the fixed header are left out.
-/

namespace Vaux
namespace Mqtt

open Wire

/-! ## Types -/

/-- A type the macros do not know, with implementations of the traits.  `codec_size` is the
number of bytes that `encode` writes; nothing is said of `property_size`. -/
structure Complex where
  Value : Type
  codecSize : Value → UInt32
  propertySize : Value → UInt32
  encode : Value → Enc
  length_encode : ∀ {v : Value} {e : Bytes}, encode v = .ok e → e.length = (codecSize v).toNat

/-- `is_primitive_type`. -/
inductive PrimitiveType
  | u8 | i8 | u16 | i16 | u32 | i32 | bool | u64 | i64 | f32 | f64 | char

@[reducible] def PrimitiveType.Value : PrimitiveType → Type
  | .u8 => UInt8
  | .i8 => Int8
  | .u16 => UInt16
  | .i16 => Int16
  | .u32 => UInt32
  | .i32 => Int32
  | .bool => Bool
  | .u64 => UInt64
  | .i64 => Int64
  | .f32 => Float32
  | .f64 => Float
  | .char => Char

/-- What stands in the brackets of a `Vec`. -/
inductive ItemType : Type 1
  | primitive (p : PrimitiveType)
  | complex (c : Complex)

@[reducible] def ItemType.Value : ItemType → Type
  | .primitive p => p.Value
  | .complex c => c.Value

/-- A type by its last path segment.  `other` is not a path: a tuple, an array, a reference. -/
inductive SegmentType : Type 1
  | string
  | vec (item : ItemType)
  | primitive (p : PrimitiveType)
  | complex (c : Complex)
  | other (α : Type)

@[reducible] def SegmentType.Value : SegmentType → Type
  | .string => String
  | .vec item => List item.Value
  | .primitive p => p.Value
  | .complex c => c.Value
  | .other α => α

inductive FieldType : Type 1
  | plain (t : SegmentType)
  | option (t : SegmentType)

@[reducible] def FieldType.Value : FieldType → Type
  | .plain t => t.Value
  | .option t => Option t.Value

/-! ## The size generator -/

def sizeForString (value : String) : UInt32 := 2 + UInt32.ofNat (utf8 value).length

def sizeForStringProperty (value : String) : UInt32 :=
  let valueSize := UInt32.ofNat (utf8 value).length + 2
  1 + valueSize

def sizeForPrimitiveInternal : PrimitiveType → Option UInt32
  | .u8 | .i8 | .bool => some 1
  | .u16 | .i16 => some 2
  | .u32 | .i32 | .char => some 4
  | .u64 | .i64 | .f32 | .f64 => none

def sizeForPrimitiveProperty : PrimitiveType → Option UInt32
  | .u8 | .i8 | .bool => some (1 + 1)
  | .u16 | .i16 => some (1 + 2)
  | .u32 | .i32 | .char => some (1 + 4)
  | .u64 | .i64 | .f32 | .f64 => none

def propIdentSize (isProperty : Bool) : UInt32 := if isProperty then 1 else 0

def sizeForVec (isProperty optional : Bool) : (item : ItemType) → Option (List item.Value → UInt32)
  | .primitive .u8 | .primitive .i8 => some fun value =>
    if value.isEmpty then 0
    else propIdentSize isProperty + 2 + UInt32.ofNat value.length
  -- refused by the macro, or without a `codec_size`
  | .primitive _ => none
  | .complex c =>
    match isProperty, optional with
    | true, true => some fun value =>
      if value.isEmpty then 0 else (value.map fun item => 1 + c.codecSize item).sum
    -- the name of the field stands for nothing without `if let`
    | true, false => none
    | false, false => some fun value =>
      if value.isEmpty then 0 else (value.map c.codecSize).sum
    -- the items of the `Option` are `Vec`s, without a `codec_size`
    | false, true => none

def sizeForCodecSize (isProperty : Bool) (c : Complex) : c.Value → UInt32 :=
  if isProperty then c.propertySize else c.codecSize

def SegmentType.size (isProperty optional : Bool) : (t : SegmentType) → Option (t.Value → UInt32)
  | .string => some (if isProperty then sizeForStringProperty else sizeForString)
  | .vec item => sizeForVec isProperty optional item
  | .primitive p =>
    (if isProperty then sizeForPrimitiveProperty p else sizeForPrimitiveInternal p).map
      fun size _ => size
  | .complex c => some (sizeForCodecSize isProperty c)
  | .other _ => none

/-- `if let Some`. -/
def ifSome {α β : Type*} (absent : β) (present : α → β) : Option α → β
  | none => absent
  | some a => present a

/-- `field_size`. -/
def FieldType.size (isProperty : Bool) : (t : FieldType) → Option (t.Value → UInt32)
  | .plain t => t.size isProperty false
  | .option t => (t.size isProperty true).map (ifSome 0)

/-! ## The encode generator -/

/-- The identifier of a property in front of its value. -/
def withIdent (propertyType : Option UInt8) (e : Enc) : Enc := do
  let e ← e
  .ok (propertyType.toList ++ e)

def encodeForPrimitive : (p : PrimitiveType) → Option (p.Value → Bytes)
  | .u8 => some fun v => [v]
  | .u16 => some putU16
  | .u32 => some putU32
  | .i8 => some fun v => [v.toUInt8]
  | .i16 => some fun v => putU16 v.toUInt16
  | .i32 => some fun v => putU32 v.toUInt32
  | .bool => some fun v => [putBool v]
  | .u64 | .i64 | .f32 | .f64 | .char => none

def encodeForVec (propertyType : Option UInt8) :
    (item : ItemType) → Option (List item.Value → Enc)
  | .primitive .u8 => some fun value => withIdent propertyType (encodeArrayField value)
  -- refused by the macro, or without an `encode`
  | .primitive _ => none
  | .complex c => some (encodeAll fun item => withIdent propertyType (c.encode item))

def SegmentType.encode (propertyType : Option UInt8) (optional : Bool) :
    (t : SegmentType) → Option (t.Value → Enc)
  | .string => some fun value => withIdent propertyType (encodeString value)
  | .vec item => encodeForVec propertyType item
  | .primitive p => (encodeForPrimitive p).map fun put v => withIdent propertyType (.ok (put v))
  -- only `encode_for_option` writes the identifier
  | .complex c => some fun v => withIdent (if optional then propertyType else none) (c.encode v)
  | .other _ => none

/-- `encode_field`. -/
def FieldType.encode (propertyType : Option UInt8) : (t : FieldType) → Option (t.Value → Enc)
  | .plain t => t.encode propertyType false
  | .option t => (t.encode propertyType true).map (ifSome (.ok []))

/-! ## Structs -/

/-- A field with `property_type` goes to the properties, one with `payload_type` to the
payload, any other to the header. -/
inductive Placement
  | header
  | property (propertyType : UInt8)
  | payload

def Placement.propertyType : Placement → Option UInt8
  | .property propertyType => some propertyType
  | .header | .payload => none

structure DeclaredField (σ : Type) where
  type : FieldType
  get : σ → type.Value
  placement : Placement
  skip : Bool := false
  skipIf : Option (type.Value → Bool) := none
  nonAbbreviated : Bool := false

namespace DeclaredField

variable {σ : Type} (f : DeclaredField σ)

def isProperty : Bool := f.placement.propertyType.isSome

def isPayload : Bool :=
  match f.placement with
  | .payload => true
  | .header | .property _ => false

def isHeader : Bool := !f.isProperty && !f.isPayload

/-- Neither `skip` nor `skip_if` leaves the field out. -/
def written (self : σ) : Bool := !f.skip && !(f.skipIf.any fun path => path (f.get self))

def size : Option (σ → UInt32) :=
  if f.skip then some fun _ => 0
  else (f.type.size f.isProperty).map fun size self => if f.written self then size (f.get self) else 0

def encode : Option (σ → Enc) :=
  if f.skip then some fun _ => .ok []
  else (f.type.encode f.placement.propertyType).map fun encode self =>
    if f.written self then encode (f.get self) else .ok []

end DeclaredField

section

variable {σ : Type}

def sumSizes : List (DeclaredField σ) → Option (σ → UInt32)
  | [] => some fun _ => 0
  | f :: fields => do
    let size ← f.size
    let sizes ← sumSizes fields
    some fun self => size self + sizes self

def encodeFields : List (DeclaredField σ) → Option (σ → Enc)
  | [] => some fun _ => .ok []
  | f :: fields => do
    let encode ← f.encode
    let encodes ← encodeFields fields
    some fun self => do
      let e ← encode self
      let e' ← encodes self
      .ok (e ++ e')

end

structure Declaration (σ : Type) where
  fields : List (DeclaredField σ)
  abbreviatedWhen : Option (σ → Bool) := none

namespace Declaration

variable {σ : Type} (d : Declaration σ)

def hasProperties : Bool := d.fields.any DeclaredField.isProperty

def abbreviated (self : σ) : Bool := d.abbreviatedWhen.any fun expr => expr self

/-- `derive_codec_property_size`. -/
def propertySize : Option (σ → UInt32) := sumSizes (d.fields.filter DeclaredField.isProperty)

/-- `derive_codec_size`. -/
def codecSize : Option (σ → UInt32) := do
  let fieldSizes ← sumSizes (d.fields.filter fun f => !f.isProperty && !f.nonAbbreviated)
  let nonAbbreviatedFieldSizes ←
    sumSizes (d.fields.filter fun f => !f.isProperty && f.nonAbbreviated)
  if d.hasProperties then
    let propertySize ← d.propertySize
    some fun self =>
      if d.abbreviated self then fieldSizes self
      else
        let totalSize := fieldSizes self + nonAbbreviatedFieldSizes self
        totalSize + propertySize self + variableByteIntSize (propertySize self)
  else some fun self => fieldSizes self + nonAbbreviatedFieldSizes self

/-- `property_encode_internal`, where there are properties. -/
def propertyEncode : Option (σ → Enc) :=
  if d.hasProperties then do
    let propertySize ← d.propertySize
    let propertyFields ← encodeFields (d.fields.filter DeclaredField.isProperty)
    some fun self => do
      let len ← encodeVariableByteInt (propertySize self)
      let e ← propertyFields self
      .ok (len ++ e)
  else some fun _ => .ok []

/-- `encode_internal`, without the fixed header. -/
def encodeBody : Option (σ → Enc) := do
  let headerFields ← encodeFields (d.fields.filter fun f => f.isHeader && !f.nonAbbreviated)
  let nonAbbreviatedHeaderFields ←
    encodeFields (d.fields.filter fun f => f.isHeader && f.nonAbbreviated)
  let propertyEncode ← d.propertyEncode
  let payloadFields ← encodeFields (d.fields.filter DeclaredField.isPayload)
  some fun self => do
    let header ← headerFields self
    if d.abbreviated self then .ok header
    else do
      let nonAbbreviated ← nonAbbreviatedHeaderFields self
      let properties ← propertyEncode self
      let payload ← payloadFields self
      .ok (header ++ nonAbbreviated ++ properties ++ payload)

/-- Both generators accept the declaration. -/
def compiles : Bool := d.codecSize.isSome && d.encodeBody.isSome

end Declaration

end Mqtt
end Vaux
