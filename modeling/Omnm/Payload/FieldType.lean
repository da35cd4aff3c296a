import Mathlib.Data.List.Basic
import Mathlib.Algebra.Group.Nat.Defs

/-!
# Field types

The type of a field is a `mamaFieldType`, written to the wire as one byte. The
enumeration belongs to the MAMA headers, which give each name its number;
`FieldTypeTags` is that numbering. The payload needs of it only that different
names have different bytes, as the labels of its `switch` statements require.

The knowledge of how wide a type's data is stands in three places of the
source: the iterator's `switch` (`dataLayout`), `isFieldTypeSized` and
`isFieldTypeFixedWidth`. On the types the iterator lists the three agree
(`isFieldTypeSized_iff_of_listed`, `dataLayout_of_isFieldTypeFixedWidth`); on any other byte the
encoder writes a length that the iterator does not read
(`isFieldTypeSized_of_unlisted`).
-/

set_option autoImplicit false

namespace Omnm

/-- The names of `mamaFieldType` that the payload distinguishes. -/
inductive MamaFieldType where
  | msg | opaqueField | string | bool | char | i8 | u8 | i16 | u16 | i32 | u32 | i64 | u64
  | f32 | f64 | time | price | quantity | collection
  | vectorBool | vectorChar | vectorI8 | vectorU8 | vectorI16 | vectorU16 | vectorI32 | vectorU32
  | vectorI64 | vectorU64 | vectorF32 | vectorF64 | vectorString | vectorMsg | vectorTime
  | vectorPrice | unknown
  deriving DecidableEq, Repr

namespace MamaFieldType

/-- Every name. -/
def all : List MamaFieldType :=
  [msg, opaqueField, string, bool, char, i8, u8, i16, u16, i32, u32, i64, u64, f32, f64, time,
    price, quantity, collection, vectorBool, vectorChar, vectorI8, vectorU8, vectorI16, vectorU16,
    vectorI32, vectorU32, vectorI64, vectorU64, vectorF32, vectorF64, vectorString, vectorMsg,
    vectorTime, vectorPrice, unknown]

theorem mem_all (name : MamaFieldType) : name ∈ all := by
  cases name <;> decide

end MamaFieldType

/-- The numbering of the field types in the MAMA headers. -/
class FieldTypeTags where
  tag : MamaFieldType → UInt8
  tag_injective : Function.Injective tag

/-- The numbers of the released MAMA headers, with which the model can be run. -/
def mamaFieldTypeNumber : MamaFieldType → UInt8
  | .msg => 1 | .opaqueField => 7 | .string => 8 | .bool => 9 | .char => 10
  | .i8 => 11 | .u8 => 12 | .i16 => 13 | .u16 => 14 | .i32 => 15 | .u32 => 16 | .i64 => 17
  | .u64 => 18 | .f32 => 19 | .f64 => 20 | .time => 24 | .price => 27
  | .vectorBool => 30 | .vectorChar => 31 | .vectorI8 => 34 | .vectorU8 => 35
  | .vectorI16 => 36 | .vectorU16 => 37 | .vectorI32 => 38 | .vectorU32 => 39
  | .vectorI64 => 40 | .vectorU64 => 41 | .vectorF32 => 42 | .vectorF64 => 43
  | .vectorString => 44 | .vectorMsg => 45 | .vectorTime => 46 | .vectorPrice => 47
  | .quantity => 50 | .collection => 99 | .unknown => 100

/-- The numbering with these numbers. -/
@[reducible] def mamaFieldTypes : FieldTypeTags where
  tag := mamaFieldTypeNumber
  tag_injective := by
    have recovered : ∀ name, MamaFieldType.all.find?
        (fun other => mamaFieldTypeNumber other == mamaFieldTypeNumber name) = some name := by
      intro name
      cases name <;> rfl
    intro first second same
    have found := recovered first
    rw [same, recovered second] at found
    exact (Option.some.inj found).symm

variable [FieldTypeTags]

open FieldTypeTags (tag tag_injective)

/-- The name of a type byte, if it has one. -/
def fieldTypeOf (type : UInt8) : Option MamaFieldType :=
  MamaFieldType.all.find? fun name => tag name == type

@[simp] theorem fieldTypeOf_tag (name : MamaFieldType) : fieldTypeOf (tag name) = some name := by
  cases search : fieldTypeOf (tag name) with
  | none =>
      have absent := List.find?_eq_none.mp search name name.mem_all
      simp at absent
  | some found =>
      have same : tag found = tag name := by simpa using List.find?_some search
      exact congrArg some (tag_injective same)

theorem tag_of_fieldTypeOf {type : UInt8} {name : MamaFieldType}
    (named : fieldTypeOf type = some name) : tag name = type := by
  simpa using List.find?_some named

theorem tag_ne {first second : MamaFieldType} (differ : first ≠ second) :
    tag first ≠ tag second := fun same => differ (tag_injective same)

/-! ## How the data of a field is laid out -/

/-- What the iterator knows about the data that follows a name: a width, the
next NUL, or a length in front of the data. For a type its `switch` does not
size it knows nothing. -/
inductive DataLayout where
  | fixed (width : Nat)
  | cString
  | sized
  | unlisted
  deriving DecidableEq, Repr

/-- `sizeof (omnmDateTime)`: hints, padding, 64-bit seconds, 32-bit nanoseconds,
precision, 14 bytes of time zone, padding. -/
def sizeofOmnmDateTime : Nat := 40

/-- `sizeof (omnmPrice)`: hints, padding, 64-bit value, 3 bytes of currency,
padding. -/
def sizeofOmnmPrice : Nat := 24

/-- The `switch` of `omnmmsgPayloadIter_next`. -/
def dataLayout (type : UInt8) : DataLayout :=
  match fieldTypeOf type with
  | some .bool | some .char | some .i8 | some .u8 => .fixed 1
  | some .i16 | some .u16 => .fixed 2
  | some .i32 | some .u32 | some .f32 | some .quantity => .fixed 4
  | some .i64 | some .u64 | some .f64 => .fixed 8
  | some .price => .fixed sizeofOmnmPrice
  | some .string => .cString
  | some .time => .fixed sizeofOmnmDateTime
  | some .msg | some .opaqueField | some .collection
  | some .vectorBool | some .vectorChar | some .vectorF32 | some .vectorF64
  | some .vectorI16 | some .vectorI32 | some .vectorI64 | some .vectorI8
  | some .vectorMsg | some .vectorPrice | some .vectorString | some .vectorTime
  | some .vectorU16 | some .vectorU32 | some .vectorU64 | some .vectorU8 => .sized
  | some .unknown => .unlisted
  | none => .unlisted

/-- `OmnmPayloadImpl::isFieldTypeSized`. -/
def isFieldTypeSized (type : UInt8) : Bool :=
  match fieldTypeOf type with
  | some .bool | some .char | some .i8 | some .u8 | some .i16 | some .u16 | some .i32 | some .u32
  | some .f32 | some .quantity | some .i64 | some .u64 | some .f64 | some .time | some .price
  | some .string => false
  | _ => true

/-- `OmnmPayloadImpl::isFieldTypeFixedWidth`. -/
def isFieldTypeFixedWidth (type : UInt8) : Bool :=
  match fieldTypeOf type with
  | some .bool | some .char | some .i8 | some .u8 | some .i16 | some .u16 | some .i32 | some .u32
  | some .f32 | some .quantity | some .i64 | some .u64 | some .f64 => true
  | _ => false

/-- `OmnmPayloadImpl::areFieldTypesCastable`. -/
def areFieldTypesCastable (source target : UInt8) : Bool :=
  isFieldTypeFixedWidth source && isFieldTypeFixedWidth target

/-! ## Agreement of the three switches -/

/-- On a type the iterator lists, the encoder writes a length exactly when the
iterator reads one. -/
theorem isFieldTypeSized_iff_of_listed {type : UInt8} (listed : dataLayout type ≠ .unlisted) :
    isFieldTypeSized type = true ↔ dataLayout type = .sized := by
  unfold dataLayout isFieldTypeSized at *
  cases named : fieldTypeOf type with
  | none => simp [named] at listed
  | some name => cases name <;> simp_all

/-- The iterator lists every type but `MAMA_FIELD_TYPE_UNKNOWN`. -/
theorem fieldTypeOf_of_unlisted {type : UInt8} (unlisted : dataLayout type = .unlisted) :
    fieldTypeOf type = none ∨ fieldTypeOf type = some .unknown := by
  cases named : fieldTypeOf type with
  | none => exact .inl rfl
  | some name => cases name <;> simp [dataLayout, named] at unlisted ⊢

/-- The encoder writes a length for every type the iterator does not list. -/
theorem isFieldTypeSized_of_unlisted {type : UInt8} (unlisted : dataLayout type = .unlisted) :
    isFieldTypeSized type = true := by
  rw [isFieldTypeSized]
  rcases fieldTypeOf_of_unlisted unlisted with other | other <;> rw [other]

/-- The castable types are fixed-width types of the iterator. -/
theorem dataLayout_of_isFieldTypeFixedWidth {type : UInt8}
    (fixedWidth : isFieldTypeFixedWidth type = true) : ∃ width, dataLayout type = .fixed width := by
  unfold dataLayout isFieldTypeFixedWidth at *
  cases named : fieldTypeOf type with
  | none => simp [named] at fixedWidth
  | some name => cases name <;> simp_all

/-- A fixed width is that of a scalar, a price or a date-time. -/
theorem width_lt_of_dataLayout {type : UInt8} {width : Nat} (layout : dataLayout type = .fixed width) :
    width < 2 ^ 32 := by
  unfold dataLayout at layout
  split at layout <;> cases layout <;> decide

theorem dataLayout_tag (name : MamaFieldType) (known : name ≠ .unknown) :
    dataLayout (tag name) ≠ .unlisted := by
  unfold dataLayout
  rw [fieldTypeOf_tag]
  cases name <;> simp_all

end Omnm
