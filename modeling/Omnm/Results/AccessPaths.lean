import Omnm.Results.Application
import Omnm.Wire.ObjectLookups

/-!
# The two ways to a scalar

A scalar can be asked for by key, or through the handle that a lookup by key
gives. Both end in the same copy, which compares sizes only. The handle's getter
asks before that whether the stored type casts to the one asked for, and the
getter by key does not. So they agree when the question has no bearing: on the
fixed-width types, which cast to every scalar type, and on data that is too long
for either (`scalar_paths_agree_iff`).
-/

set_option autoImplicit false

namespace Omnm

open FieldTypeTags (tag)
open OmnmPayloadImpl

section

variable [FieldTypeTags] [MamaLibrary]

/-- `omnmmsgPayload_getField`, and the getter of a field on the handle it gives. -/
def getThroughHandle (scalar : ScalarType) (object : PayloadObject) (name : Option CString)
    (fid : UInt16) : Traced Region (MamaStatus × Option Nat) := do
  let (status, field, object) ← omnmmsgPayload_getField object name fid
  if status ≠ .ok then pure (status, none)
  else scalar.omnmmsgFieldPayload_get object.impl field

omit [FieldTypeTags] [MamaLibrary] in
/-- What a caller may look at: the status and, when it is OK, the value. -/
def scalarAnswer (got : MamaStatus × Option Nat) : MamaStatus × Option Nat :=
  (got.1, if got.1 = .ok then got.2 else none)

/-- By key and through the handle there is the same answer, which is a refusal if the stored type
is another one that does not cast. -/
structure ScalarPathsAgree (scalar : ScalarType) (object : PayloadObject) (name : Option CString)
    (fid : UInt16) (stored : UInt8) : Prop where
  same : (scalar.omnmmsgPayload_get object.impl name fid).result.map scalarAnswer =
    (getThroughHandle scalar object name fid).result.map scalarAnswer
  refused : stored ≠ tag scalar.fieldType →
    areFieldTypesCastable stored (tag scalar.fieldType) = false →
    (scalar.omnmmsgPayload_get object.impl name fid).result.map Prod.fst = some .wrongFieldType ∧
      (getThroughHandle scalar object name fid).result.map Prod.fst = some .wrongFieldType

/-! ## Types that cast -/

omit [MamaLibrary] in
/-- Every scalar type is of fixed width. -/
theorem ScalarType.isFieldTypeFixedWidth_fieldType (scalar : ScalarType) :
    isFieldTypeFixedWidth (tag scalar.fieldType) = true := by
  rw [isFieldTypeFixedWidth, fieldTypeOf_tag]
  cases scalar <;> rfl

omit [MamaLibrary] in
/-- The types of fixed width, and no others, are read through the getter of any scalar type. -/
theorem refused_iff (stored : UInt8) (scalar : ScalarType) :
    (stored ≠ tag scalar.fieldType ∧ areFieldTypesCastable stored (tag scalar.fieldType) = false) ↔
      isFieldTypeFixedWidth stored = false := by
  have wide := scalar.isFieldTypeFixedWidth_fieldType
  rw [areFieldTypesCastable, wide, Bool.and_true, and_iff_right_iff_imp]
  intro narrow same
  rw [same, wide] at narrow
  cases narrow

/-- The copy of a field of no fixed width takes its bytes as they are. -/
theorem storedScalar_of_not_fixedWidth {type : UInt8}
    (narrow : isFieldTypeFixedWidth type = false) : storedScalar type = none := by
  unfold isFieldTypeFixedWidth at narrow
  unfold storedScalar
  cases named : fieldTypeOf type with
  | none => rfl
  | some name => cases name <;> simp_all

/-! ## The copy -/

section Copy

variable {entry : FieldEntry} {src : OmnmPayloadImpl} {field : OmnmFieldImpl}

/-- Data that is longer than the type asked for is refused. -/
theorem getFieldValueAsCopy_of_long (handled : entry.HandledBy src field)
    (keyed : ¬ entry.Keyless) {target : ScalarType} (long : target.size < entry.data.length) :
    (getFieldValueAsCopy target src field).result = some (.wrongFieldType, some 0) := by
  rw [getFieldValueAsCopy, Traced.result_bind, handled.validate, if_neg keyed, Option.bind_some]
  dsimp only
  rw [if_pos (handled.size ▸ long)]
  rfl

/-- Data of no fixed width that is short enough is copied. -/
theorem getFieldValueAsCopy_of_not_fixedWidth (handled : entry.HandledBy src field)
    (keyed : ¬ entry.Keyless) {target : ScalarType} (short : ¬ target.size < entry.data.length)
    (narrow : isFieldTypeFixedWidth entry.type = false) :
    (getFieldValueAsCopy target src field).result =
      some (.ok, some (littleEndianValue entry.data)) := by
  obtain ⟨offset, rest, pointer, -⟩ := handled.data
  have copied : (loadInteger Region.message src.mPayloadBuffer offset field.mSize).result =
      some (littleEndianValue entry.data) := by
    rw [loadInteger, handled.size, handled.loadData pointer, Option.map_some]
  rw [getFieldValueAsCopy, Traced.result_bind, handled.validate, if_neg keyed, Option.bind_some]
  have fits : ¬ target.size < field.mSize := handled.size ▸ short
  simp only [if_neg fits, OmnmFieldImpl.dataOffset, pointer, handled.type,
    storedScalar_of_not_fixedWidth narrow, Traced.result_bind, Traced.result_pure,
    Option.bind_some, copied]

/-- The copy of a field of fixed width reads no more than its data. -/
theorem exists_storedScalar (fits : DataFits entry.type entry.data)
    (wide : isFieldTypeFixedWidth entry.type = true)
    (quantity : entry.type = tag .quantity → MamaLibrary.quantityType.size ≤ 4) :
    ∃ source, storedScalar entry.type = some source ∧ source.size ≤ entry.data.length := by
  simp only [isFieldTypeFixedWidth, DataFits, dataLayout, storedScalar] at *
  cases named : fieldTypeOf entry.type with
  | none => simp [named] at wide
  | some name =>
      rw [← tag_of_fieldTypeOf named] at quantity
      rw [named] at wide fits
      cases name <;> simp_all [ScalarType.size]

/-- The copy of a field returns. -/
theorem exists_getFieldValueAsCopy (handled : entry.HandledBy src field)
    (keyed : ¬ entry.Keyless) (fits : DataFits entry.type entry.data)
    (quantity : entry.type = tag .quantity → MamaLibrary.quantityType.size ≤ 4)
    (target : ScalarType) : ∃ got, (getFieldValueAsCopy target src field).result = some got := by
  by_cases long : target.size < entry.data.length
  · exact ⟨_, getFieldValueAsCopy_of_long handled keyed long⟩
  · cases wide : isFieldTypeFixedWidth entry.type with
    | false => exact ⟨_, getFieldValueAsCopy_of_not_fixedWidth handled keyed long wide⟩
    | true =>
        obtain ⟨source, stored, inside⟩ := exists_storedScalar fits wide quantity
        obtain ⟨offset, rest, pointer, -, bound⟩ := handled.data
        have room : offset + source.size ≤ src.mPayloadBuffer.length := by omega
        have short : ¬ target.size < field.mSize := handled.size ▸ long
        refine ⟨(.ok, some (castScalar source target
          (littleEndianValue (slice src.mPayloadBuffer offset source.size)))), ?_⟩
        rw [getFieldValueAsCopy, Traced.result_bind, handled.validate, if_neg keyed,
          Option.bind_some]
        simp only [if_neg short, OmnmFieldImpl.dataOffset, pointer, handled.type, stored,
          Traced.result_bind, Traced.result_pure, Option.bind_some, loadInteger, loadBytes,
          if_pos room, Option.map_some]

end Copy

/-! ## Both ways -/

variable {object : PayloadObject} {message : Message} {name : Option CString} {fid : UInt16}
  {entry : FieldEntry}

/-- By key the field that is found is copied, and through its handle it is read. -/
theorem both_ways_of_find (represents : object.impl.Represents message)
    (found : message.find name fid = some entry) (listed : dataLayout entry.type ≠ .unlisted)
    (scalar : ScalarType) :
    ∃ field, entry.HandledBy object.impl field ∧ ¬ entry.Keyless ∧
      (scalar.omnmmsgPayload_get object.impl name fid).result =
        (getFieldValueAsCopy scalar object.impl field).result ∧
      (getThroughHandle scalar object name fid).result =
        (getScalarField scalar object.impl field).result := by
  rcases represents.findFieldInBuffer name fid with ⟨absent, -⟩ |
    ⟨before, other, after, previous, split, same, matching, -, search⟩
  · cases absent.symm.trans found
  · cases same.symm.trans found
    obtain ⟨rest, here⟩ := represents.here_of_split split
    have key := validateNameFid_of_hasKey matching
    refine ⟨_, FieldEntry.handledBy_of_drop listed here previous, not_keyless_of_hasKey matching,
      ?_, ?_⟩
    · rw [scalar.get_eq, getFieldValueAsCopyByKey, key]
      simp only [Traced.result_bind, search, Option.bind_some]
    · rw [getThroughHandle, omnmmsgPayload_getField, PayloadObject.getField,
        OmnmPayloadImpl.getField, key, scalar.fieldGet_eq]
      simp only [Traced.result_bind, search, Option.bind_some, Traced.result_pure, ne_eq,
        not_true_eq_false, if_false, Option.getD_some]

end

/-- On a payload that holds a message, under a key that finds a field, the getter by key and the
getter through the handle agree exactly if the field is of fixed width or its data is longer than
the scalar. Both return, as long as a quantity is no wider than its data. -/
theorem scalar_paths_agree_iff [FieldTypeTags] [MamaLibrary] {object : PayloadObject}
    {message : Message} (represents : object.impl.Represents message) {name : Option CString}
    {fid : UInt16} {entry : FieldEntry} (found : message.find name fid = some entry)
    (listed : dataLayout entry.type ≠ .unlisted) (scalar : ScalarType) :
    (ScalarPathsAgree scalar object name fid entry.type ↔
        isFieldTypeFixedWidth entry.type = true ∨ scalar.size < entry.data.length) ∧
      ((entry.type = tag .quantity → MamaLibrary.quantityType.size ≤ 4) →
        (scalar.omnmmsgPayload_get object.impl name fid).result.isSome ∧
          (getThroughHandle scalar object name fid).result.isSome) := by
  obtain ⟨field, handled, keyed, byKey, throughHandle⟩ :=
    both_ways_of_find represents found listed scalar
  have refuses : field.Refuses scalar.fieldType ↔ isFieldTypeFixedWidth entry.type = false := by
    rw [← refused_iff entry.type scalar, OmnmFieldImpl.Refuses, handled.type]
  rw [getScalarField, if_neg handled.mData_ne_null] at throughHandle
  constructor
  · constructor
    · intro agree
      by_contra neither
      obtain ⟨narrow, short⟩ := not_or.mp neither
      rw [Bool.not_eq_true] at narrow
      have answered := (agree.refused ((refused_iff _ _).mpr narrow).1
        ((refused_iff _ _).mpr narrow).2).1
      rw [byKey, getFieldValueAsCopy_of_not_fixedWidth handled keyed short narrow] at answered
      cases answered
    · intro enough
      by_cases narrow : isFieldTypeFixedWidth entry.type = false
      · have long := enough.resolve_left (by simp [narrow])
        rw [if_pos (refuses.mpr narrow)] at throughHandle
        rw [getFieldValueAsCopy_of_long handled keyed long] at byKey
        constructor
        · rw [byKey, throughHandle]
          rfl
        · intro _ _
          rw [byKey, throughHandle]
          exact ⟨rfl, rfl⟩
      · rw [if_neg (refuses.not.mpr narrow)] at throughHandle
        refine ⟨by rw [byKey, throughHandle], ?_⟩
        intro other uncastable
        exact absurd ((refused_iff _ _).mp ⟨other, uncastable⟩) narrow
  · intro quantity
    have fits := message.fits entry (List.mem_of_find?_eq_some found)
    obtain ⟨got, copied⟩ := exists_getFieldValueAsCopy handled keyed fits quantity scalar
    rw [byKey, throughHandle, copied]
    refine ⟨rfl, ?_⟩
    split
    · rfl
    · rw [copied]
      rfl

section Example

attribute [local instance] mamaFieldTypes
attribute [local instance] plainLibrary

/-- A payload object with one field, under fid 1. -/
def objectOf (type : MamaFieldType) (data : List UInt8)
    (fits : DataFits (mamaFieldTypeNumber type) data) : PayloadObject :=
  ⟨(Message.empty.append ⟨mamaFieldTypeNumber type, 1, CString.empty, data⟩ fits).payload,
    OmnmFieldImpl.zeroed, FieldResults.none⟩

theorem scalar_paths_agree_byte :
    ScalarPathsAgree .i32 (objectOf .i8 [5] (by decide)) none 1 (mamaFieldTypeNumber .i8) :=
  ((scalar_paths_agree_iff (Message.payload_represents _)
    (show Message.find _ none 1 = some ⟨mamaFieldTypeNumber .i8, 1, CString.empty, [5]⟩ from rfl)
    (by decide) .i32).1).mpr (.inl (by decide))

/-- The three bytes of a string are taken for a number by key, and refused through the handle. -/
theorem string_read_as_number :
    (omnmmsgPayload_getI32 (objectOf .string [97, 98, 0] (by decide)).impl none 1).result =
        some (.ok, some 25185) ∧
      (getThroughHandle .i32 (objectOf .string [97, 98, 0] (by decide)) none 1).result =
        some (.wrongFieldType, none) ∧
      ¬ ScalarPathsAgree .i32 (objectOf .string [97, 98, 0] (by decide)) none 1
        (mamaFieldTypeNumber .string) := by
  have byKey : (omnmmsgPayload_getI32 (objectOf .string [97, 98, 0] (by decide)).impl none
      1).result = some (.ok, some 25185) := by
    decide +kernel
  have throughHandle : (getThroughHandle .i32 (objectOf .string [97, 98, 0] (by decide)) none
      1).result = some (.wrongFieldType, none) := by
    decide +kernel
  refine ⟨byKey, throughHandle, ?_⟩
  intro agree
  have same := agree.same
  rw [throughHandle, ScalarType.omnmmsgPayload_get, byKey] at same
  simp [scalarAnswer] at same

end Example

end Omnm
