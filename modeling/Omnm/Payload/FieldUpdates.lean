import Omnm.Payload.Calls
import Omnm.Payload.Handles

/-!
# Updates through a field handle

The field-level updates of `Field.cpp`. Each hands its value to the update of a
located field. The scalar updates insist on the type of the handle, and they
work on the payload that the handle names as its parent, as `updateString` does;
`updateDateTime` and `updatePrice` work on the payload they are given
(`FieldUpdate.target`). The arguments that C passes by pointer are not NULL
here, apart from the value.

`FieldUpdate.perform_eq` says that all of them are one update of the handle with
data of the update's own type.
-/

set_option autoImplicit false

namespace Omnm

open FieldTypeTags (tag)

/-- What an update through a handle returns: the status, the payload and the handle. -/
abbrev FieldUpdated := Traced Region (MamaStatus × OmnmPayloadImpl × OmnmFieldImpl)

/-- An update through a handle: the memory it gets, the payload it works on, the handle
and the value. -/
abbrev FieldUpdater (Value : Type) :=
  Allocator → OmnmPayloadImpl → OmnmFieldImpl → Value → FieldUpdated

variable [FieldTypeTags]

/-- `UPDATE_SCALAR_FIELD` of `Field.cpp`. -/
def updateScalarOfField (type : MamaFieldType) (size : Nat) : FieldUpdater Nat :=
  fun allocator parent field value =>
    if tag type ≠ field.mFieldType then pure (.wrongFieldType, parent, field)
    else parent.updateFieldHandle allocator (tag type) field (some (littleEndian size value))

def omnmmsgFieldPayload_updateBool : FieldUpdater Nat := updateScalarOfField .bool 1
def omnmmsgFieldPayload_updateChar : FieldUpdater Nat := updateScalarOfField .char 1
def omnmmsgFieldPayload_updateI8 : FieldUpdater Nat := updateScalarOfField .i8 1
def omnmmsgFieldPayload_updateU8 : FieldUpdater Nat := updateScalarOfField .u8 1
def omnmmsgFieldPayload_updateI16 : FieldUpdater Nat := updateScalarOfField .i16 2
def omnmmsgFieldPayload_updateU16 : FieldUpdater Nat := updateScalarOfField .u16 2
def omnmmsgFieldPayload_updateI32 : FieldUpdater Nat := updateScalarOfField .i32 4
def omnmmsgFieldPayload_updateU32 : FieldUpdater Nat := updateScalarOfField .u32 4
def omnmmsgFieldPayload_updateI64 : FieldUpdater Nat := updateScalarOfField .i64 8
def omnmmsgFieldPayload_updateU64 : FieldUpdater Nat := updateScalarOfField .u64 8
def omnmmsgFieldPayload_updateF32 : FieldUpdater Nat := updateScalarOfField .f32 4
def omnmmsgFieldPayload_updateF64 : FieldUpdater Nat := updateScalarOfField .f64 8

/-- A string of NULL is passed on. -/
def omnmmsgFieldPayload_updateString : FieldUpdater (Option CString) :=
  fun allocator parent field str =>
    parent.updateFieldHandle allocator (tag .string) field (str.map CString.terminated)

def omnmmsgFieldPayload_updateDateTime : FieldUpdater (Option MamaDateTime) :=
  fun allocator msg field value =>
    match value with
    | none => pure (.nullArg, msg, field)
    | some value =>
        msg.updateFieldHandle allocator (tag .time) field
          (some (convertMamaDateTimeToOmnmDateTime value))

def omnmmsgFieldPayload_updatePrice : FieldUpdater (Option MamaPrice) :=
  fun allocator msg field value =>
    match value with
    | none => pure (.nullArg, msg, field)
    | some value =>
        msg.updateFieldHandle allocator (tag .price) field
          (some (convertMamaPriceToOmnmPrice value))

omit [FieldTypeTags] in
def omnmmsgFieldPayload_updateSubMsg : FieldUpdater (Option OmnmPayloadImpl) :=
  fun _ msg field _ => pure (.notImplemented, msg, field)

/-! ## The updates as values -/

/-- The updates through a handle, with their value. -/
inductive FieldUpdate where
  | scalar (scalar : ScalarType) (value : Nat)
  | string (value : Option CString)
  | dateTime (value : Option MamaDateTime)
  | price (value : Option MamaPrice)
  | subMsg (value : Option OmnmPayloadImpl)

/-- The payload an update works on: the parent of the handle, or the one it is given. -/
inductive UpdateTarget where
  | mParent
  | msg
  deriving DecidableEq, Repr

namespace FieldUpdate

omit [FieldTypeTags] in
def target : FieldUpdate → UpdateTarget
  | scalar _ _ | string _ => .mParent
  | dateTime _ | price _ | subMsg _ => .msg

def ofScalar : ScalarType → FieldUpdater Nat
  | .bool => omnmmsgFieldPayload_updateBool
  | .char => omnmmsgFieldPayload_updateChar
  | .i8 => omnmmsgFieldPayload_updateI8
  | .u8 => omnmmsgFieldPayload_updateU8
  | .i16 => omnmmsgFieldPayload_updateI16
  | .u16 => omnmmsgFieldPayload_updateU16
  | .i32 => omnmmsgFieldPayload_updateI32
  | .u32 => omnmmsgFieldPayload_updateU32
  | .i64 => omnmmsgFieldPayload_updateI64
  | .u64 => omnmmsgFieldPayload_updateU64
  | .f32 => omnmmsgFieldPayload_updateF32
  | .f64 => omnmmsgFieldPayload_updateF64

/-- An update through a handle, on the payload that is its target. -/
def perform (allocator : Allocator) (target : OmnmPayloadImpl) (field : OmnmFieldImpl) :
    FieldUpdate → FieldUpdated
  | scalar type value => ofScalar type allocator target field value
  | string value => omnmmsgFieldPayload_updateString allocator target field value
  | dateTime value => omnmmsgFieldPayload_updateDateTime allocator target field value
  | price value => omnmmsgFieldPayload_updatePrice allocator target field value
  | subMsg value => omnmmsgFieldPayload_updateSubMsg allocator target field value

theorem ofScalar_eq (type : ScalarType) :
    ofScalar type = updateScalarOfField type.fieldType type.size := by
  cases type <;> rfl

/-! ## Updates that are reported as OK -/

omit [FieldTypeTags] in
/-- The type and the data that an update writes, if it has a value to write. -/
def written : FieldUpdate → Option (MamaFieldType × List UInt8)
  | scalar type value => some (type.fieldType, littleEndian type.size value)
  | string value => value.map fun value => (.string, value.terminated)
  | dateTime value => value.map fun value => (.time, convertMamaDateTimeToOmnmDateTime value)
  | price value => value.map fun value => (.price, convertMamaPriceToOmnmPrice value)
  | subMsg _ => none

/-- An update that is reported as OK is one of a handle of its type. -/
theorem perform_eq {allocator : Allocator} {target : OmnmPayloadImpl} {field : OmnmFieldImpl}
    {update : FieldUpdate} {outcome : OmnmPayloadImpl × OmnmFieldImpl}
    (updated : (update.perform allocator target field).result = some (.ok, outcome)) :
    ∃ type bytes, update.written = some (type, bytes) ∧ field.mFieldType = tag type ∧
      update.perform allocator target field =
        target.updateFieldHandle allocator (tag type) field (some bytes) := by
  cases update with
  | scalar type value =>
      refine ⟨type.fieldType, littleEndian type.size value, rfl, ?_⟩
      rw [perform, ofScalar_eq, updateScalarOfField] at updated ⊢
      by_cases same : tag type.fieldType = field.mFieldType
      · exact ⟨same.symm, if_neg (not_not.mpr same)⟩
      · rw [if_pos same] at updated
        cases updated
  | string value =>
      have same := OmnmPayloadImpl.mFieldType_of_updateFieldHandle
        (by simp [isFieldTypeFixedWidth]) updated
      cases value with
      | none => cases updated
      | some value => exact ⟨.string, value.terminated, rfl, same, rfl⟩
  | dateTime value =>
      cases value with
      | none => cases updated
      | some value =>
          have same := OmnmPayloadImpl.mFieldType_of_updateFieldHandle
            (by simp [isFieldTypeFixedWidth]) updated
          exact ⟨.time, convertMamaDateTimeToOmnmDateTime value, rfl, same, rfl⟩
  | price value =>
      cases value with
      | none => cases updated
      | some value =>
          have same := OmnmPayloadImpl.mFieldType_of_updateFieldHandle
            (by simp [isFieldTypeFixedWidth]) updated
          exact ⟨.price, convertMamaPriceToOmnmPrice value, rfl, same, rfl⟩
  | subMsg value => cases updated

end FieldUpdate

end Omnm
