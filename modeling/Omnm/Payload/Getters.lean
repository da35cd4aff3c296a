import Omnm.Payload.Calls

/-!
# Reading the value of a field

The getters of a field handle, `omnmmsgFieldPayload_get*`. They check the type
of the field, follow its data pointer and convert what is there. Some keep their
result in the field, so that a caller can hold a pointer to it
(`FieldResults`).

A getter gives its status and what it wrote through the result pointer. That is
nothing when it returned before the write, which leaves the caller's variable
as it was.
-/

set_option autoImplicit false

namespace Omnm

open FieldTypeTags (tag)

/-! ## Conversions -/

namespace ScalarType

/-- A floating-point type. -/
def isFloat : ScalarType → Bool
  | f32 | f64 => true
  | bool | char | i8 | u8 | i16 | u16 | i32 | u32 | i64 | u64 => false

/-- A signed integer type. -/
def isSigned : ScalarType → Bool
  | char | i8 | i16 | i32 | i64 => true
  | bool | u8 | u16 | u32 | u64 | f32 | f64 => false

/-- The integer that the bits of an integer type stand for. -/
def integerValue (scalar : ScalarType) (bits : Nat) : Int :=
  if scalar.isSigned then Int.bmod bits (256 ^ scalar.size) else bits

end ScalarType

/-- What the getters use of the MAMA library and of floating-point arithmetic:
conversions from or to a floating-point type, by their bits, the scalar type
that `mama_quantity_t` is, and the setters of date-times and prices. -/
class MamaLibrary where
  castFloat : ScalarType → ScalarType → Nat → Nat
  quantityType : ScalarType
  mamaDateTime_setFromString : List UInt8 → MamaStatus × MamaDateTime
  mamaDateTime_setEpochTimeF64 : Nat → MamaStatus × MamaDateTime
  mamaDateTime_setEpochTimeMilliseconds : Nat → MamaStatus × MamaDateTime
  mamaDateTime_setEpochTimeMicroseconds : Nat → MamaStatus × MamaDateTime
  mamaPrice_setValue : Nat → MamaPrice

/-- `(T) value` between scalar types, on their bits. -/
def castScalar [MamaLibrary] (source target : ScalarType) (bits : Nat) : Nat :=
  if source = target then bits
  else if source.isFloat || target.isFloat then MamaLibrary.castFloat source target bits
  else (source.integerValue bits % 256 ^ target.size).toNat

/-- `OmnmPayloadImpl::convertOmnmDateTimeToMamaDateTime`, on the bytes of an
`omnmDateTime`. The seconds lose what does not fit 32 bits. -/
def convertOmnmDateTimeToMamaDateTime (source : List UInt8) : MamaDateTime where
  seconds := UInt32.ofNat (littleEndianValue (slice source 8 8))
  microseconds := UInt32.ofNat (littleEndianValue (slice source 16 4) / 1000)
  precision := UInt8.ofNat (littleEndianValue (slice source 20 1))
  hints := UInt8.ofNat (littleEndianValue (slice source 0 1))

/-- `OmnmPayloadImpl::convertOmnmPriceToMamaPrice`, on the bytes of an `omnmPrice`. -/
def convertOmnmPriceToMamaPrice (source : List UInt8) : MamaPrice where
  value := UInt64.ofNat (littleEndianValue (slice source 8 8))
  hints := UInt8.ofNat (littleEndianValue (slice source 0 1))

/-! ## Key, type and data of a field -/

/-- What a field keeps for its callers: the sub-message, and the arrays of the
vector getters, whose new entries are NULL. -/
structure FieldResults where
  mSubPayload : Option OmnmPayloadImpl
  mVectorString : List BufferPtr
  mVectorPayload : List (Option OmnmPayloadImpl)
  mVectorDateTime : List (Option MamaDateTime)
  mVectorPrice : List (Option MamaPrice)
  deriving DecidableEq, Repr

/-- Nothing kept yet. -/
def FieldResults.none : FieldResults := ⟨Option.none, [], [], [], []⟩

/-- The memory a getter gets: for the sub-messages it creates or fills, and whether an
array can grow. -/
structure GetterMemory where
  payload : Allocator
  arrays : Bool

/-- `allocateBufferMemory` on an array of pointers, by its number of entries. -/
def GetterMemory.growArray {Entry : Type} (memory : GetterMemory) (array : List Entry)
    (null : Entry) (count : Nat) : List Entry :=
  if memory.arrays then array ++ List.replicate (count - array.length) null else array

/-- The data pointer of a field, where it is followed. -/
def OmnmFieldImpl.dataOffset (field : OmnmFieldImpl) : Traced Region Nat :=
  match field.mData with
  | .offset data => pure data
  | .null | .stray => Traced.fault

/-- `omnmmsgFieldPayload_getName` without dictionary and descriptor: the name, if the
call writes one. -/
def omnmmsgFieldPayload_getName (msg : OmnmPayloadImpl) (field : OmnmFieldImpl) :
    Traced Region (Option BufferPtr) :=
  match field.mName with
  | .null => pure none
  | .stray => Traced.fault
  | .offset name => do
      let first ← loadInteger .message msg.mPayloadBuffer name 1
      pure (if first ≠ 0 then some field.mName else none)

/-- `VALIDATE_NAME_FID` on the name and the fid of a field. -/
def validateField (msg : OmnmPayloadImpl) (field : OmnmFieldImpl) :
    Traced Region (Option MamaStatus) :=
  if field.mFid ≠ 0 then pure none
  else
    match field.mName with
    | .null => pure (some .nullArg)
    | .stray => Traced.fault
    | .offset name => do
        let first ← loadInteger .message msg.mPayloadBuffer name 1
        pure (if first = 0 then some .invalidArg else none)

variable [FieldTypeTags]

/-- A field has another type than is asked for, and not one that casts to it. -/
def OmnmFieldImpl.Refuses (field : OmnmFieldImpl) (type : MamaFieldType) : Prop :=
  field.mFieldType ≠ tag type ∧ areFieldTypesCastable field.mFieldType (tag type) = false

instance (field : OmnmFieldImpl) (type : MamaFieldType) : Decidable (field.Refuses type) :=
  inferInstanceAs (Decidable (_ ∧ _))

/-! ## Scalars -/

variable [MamaLibrary]

/-- The scalar type that the `switch` of `getFieldValueAsCopy` reads, for the types it
lists. -/
def storedScalar (type : UInt8) : Option ScalarType :=
  match fieldTypeOf type with
  | some .bool => some .bool
  | some .char => some .char
  | some .i8 => some .i8
  | some .u8 => some .u8
  | some .i16 => some .i16
  | some .u16 => some .u16
  | some .i32 => some .i32
  | some .u32 => some .u32
  | some .f32 => some .f32
  | some .quantity => some MamaLibrary.quantityType
  | some .i64 => some .i64
  | some .u64 => some .u64
  | some .f64 => some .f64
  | _ => none

/-- `OmnmPayloadImpl::getFieldValueAsCopy` of a field: the target is zeroed before the
size is compared. -/
def getFieldValueAsCopy (target : ScalarType) (msg : OmnmPayloadImpl) (field : OmnmFieldImpl) :
    Traced Region (MamaStatus × Option Nat) := do
  let invalid ← validateField msg field
  match invalid with
  | some status => pure (status, none)
  | none =>
      if target.size < field.mSize then pure (.wrongFieldType, some 0)
      else do
        let data ← field.dataOffset
        match storedScalar field.mFieldType with
        | some source => do
            let bits ← loadInteger .message msg.mPayloadBuffer data source.size
            pure (.ok, some (castScalar source target bits))
        | none => do
            let bits ← loadInteger .message msg.mPayloadBuffer data field.mSize
            pure (.ok, some bits)

/-- A getter of a scalar field. -/
abbrev ScalarGetter := OmnmPayloadImpl → OmnmFieldImpl → Traced Region (MamaStatus × Option Nat)

/-- `GET_SCALAR_FIELD`. -/
def getScalarField (scalar : ScalarType) : ScalarGetter := fun msg field =>
  if field.mData = .null then pure (.invalidArg, none)
  else if field.Refuses scalar.fieldType then pure (.wrongFieldType, none)
  else getFieldValueAsCopy scalar msg field

def omnmmsgFieldPayload_getBool : ScalarGetter := getScalarField .bool
def omnmmsgFieldPayload_getChar : ScalarGetter := getScalarField .char
def omnmmsgFieldPayload_getI8 : ScalarGetter := getScalarField .i8
def omnmmsgFieldPayload_getU8 : ScalarGetter := getScalarField .u8
def omnmmsgFieldPayload_getI16 : ScalarGetter := getScalarField .i16
def omnmmsgFieldPayload_getU16 : ScalarGetter := getScalarField .u16
def omnmmsgFieldPayload_getI32 : ScalarGetter := getScalarField .i32
def omnmmsgFieldPayload_getU32 : ScalarGetter := getScalarField .u32
def omnmmsgFieldPayload_getI64 : ScalarGetter := getScalarField .i64
def omnmmsgFieldPayload_getU64 : ScalarGetter := getScalarField .u64
def omnmmsgFieldPayload_getF32 : ScalarGetter := getScalarField .f32
def omnmmsgFieldPayload_getF64 : ScalarGetter := getScalarField .f64

def ScalarType.omnmmsgFieldPayload_get : ScalarType → ScalarGetter
  | bool => omnmmsgFieldPayload_getBool
  | char => omnmmsgFieldPayload_getChar
  | i8 => omnmmsgFieldPayload_getI8
  | u8 => omnmmsgFieldPayload_getU8
  | i16 => omnmmsgFieldPayload_getI16
  | u16 => omnmmsgFieldPayload_getU16
  | i32 => omnmmsgFieldPayload_getI32
  | u32 => omnmmsgFieldPayload_getU32
  | i64 => omnmmsgFieldPayload_getI64
  | u64 => omnmmsgFieldPayload_getU64
  | f32 => omnmmsgFieldPayload_getF32
  | f64 => omnmmsgFieldPayload_getF64

theorem ScalarType.fieldGet_eq (scalar : ScalarType) :
    scalar.omnmmsgFieldPayload_get = getScalarField scalar := by
  cases scalar <;> rfl

/-! ## Strings, opaque bytes, date-times and prices -/

omit [FieldTypeTags] [MamaLibrary] in
/-- `OmnmPayloadImpl::getFieldValueAsBuffer` of a field. -/
def getFieldValueAsBuffer (msg : OmnmPayloadImpl) (field : OmnmFieldImpl) :
    Traced Region (MamaStatus × Option BufferPtr) := do
  let invalid ← validateField msg field
  match invalid with
  | some status => pure (status, none)
  | none => pure (.ok, some field.mData)

def omnmmsgFieldPayload_getString (msg : OmnmPayloadImpl) (field : OmnmFieldImpl) :
    Traced Region (MamaStatus × Option BufferPtr) :=
  if field.mData = .null then pure (.invalidArg, none)
  else if field.Refuses .string then pure (.wrongFieldType, none)
  else getFieldValueAsBuffer msg field

/-- The pointer and, where the call succeeds, the size. -/
def omnmmsgFieldPayload_getOpaque (msg : OmnmPayloadImpl) (field : OmnmFieldImpl) :
    Traced Region (MamaStatus × Option (BufferPtr × Nat)) :=
  if field.mData = .null then pure (.invalidArg, none)
  else if field.Refuses .opaqueField then pure (.wrongFieldType, none)
  else do
    let (status, result) ← getFieldValueAsBuffer msg field
    pure (status, result.map fun data => (data, field.mSize))

def omnmmsgFieldPayload_getDateTime (msg : OmnmPayloadImpl) (field : OmnmFieldImpl) :
    Traced Region (MamaStatus × Option MamaDateTime) :=
  let number (set : Nat → MamaStatus × MamaDateTime) :
      Traced Region (MamaStatus × Option MamaDateTime) := do
    let data ← field.dataOffset
    let bits ← loadInteger .message msg.mPayloadBuffer data 8
    pure ((set bits).1, some (set bits).2)
  match fieldTypeOf field.mFieldType with
  | some .time => do
      let data ← field.dataOffset
      let bytes ← loadBytes .message msg.mPayloadBuffer data sizeofOmnmDateTime
      pure (.ok, some (convertOmnmDateTimeToMamaDateTime bytes))
  | some .string => do
      let data ← field.dataOffset
      let text ← loadCString msg.mPayloadBuffer data
      let (status, result) := MamaLibrary.mamaDateTime_setFromString text
      pure (status, some result)
  | some .f64 => number MamaLibrary.mamaDateTime_setEpochTimeF64
  | some .i64 => number MamaLibrary.mamaDateTime_setEpochTimeMilliseconds
  | some .u64 => number MamaLibrary.mamaDateTime_setEpochTimeMicroseconds
  | _ => pure (.wrongFieldType, none)

def omnmmsgFieldPayload_getPrice (msg : OmnmPayloadImpl) (field : OmnmFieldImpl) :
    Traced Region (MamaStatus × Option MamaPrice) :=
  if field.mData = .null then pure (.invalidArg, none)
  else
    match fieldTypeOf field.mFieldType with
    | some .price => do
        let data ← field.dataOffset
        let bytes ← loadBytes .message msg.mPayloadBuffer data sizeofOmnmPrice
        pure (.ok, some (convertOmnmPriceToMamaPrice bytes))
    | some .f64 => do
        let (status, value) ← omnmmsgFieldPayload_getF64 msg field
        if status ≠ .ok then pure (status, none)
        else pure (.ok, some (MamaLibrary.mamaPrice_setValue (value.getD 0)))
    | _ => pure (.wrongFieldType, none)

/-! ## Sub-messages -/

omit [FieldTypeTags] [MamaLibrary] in
/-- A sub-payload is created from the bytes on the first call, and filled with them on
later ones. -/
def fillSubPayload (memory : GetterMemory) (sub : Option OmnmPayloadImpl) (bytes : List UInt8)
    (length : Nat) : Traced Region (MamaStatus × Option OmnmPayloadImpl) :=
  match sub with
  | none => omnmmsgPayload_createFromByteBuffer memory.payload (some bytes) length
  | some sub => do
      let (status, sub) ← omnmmsgPayload_setByteBuffer memory.payload sub (some (.other bytes)) length
      pure (status, some sub)

omit [MamaLibrary] in
/-- The result is the sub-payload that the field keeps. -/
def omnmmsgFieldPayload_getMsg (memory : GetterMemory) (msg : OmnmPayloadImpl)
    (field : OmnmFieldImpl) (results : FieldResults) :
    Traced Region (MamaStatus × Option OmnmPayloadImpl × FieldResults) :=
  if field.mData = .null then pure (.invalidArg, none, results)
  else if field.mFieldType ≠ tag .msg then pure (.wrongFieldType, none, results)
  else do
    let data ← field.dataOffset
    let (status, mSubPayload) ←
      fillSubPayload memory results.mSubPayload (msg.mPayloadBuffer.drop data) field.mSize
    pure (status, mSubPayload, { results with mSubPayload })

/-! ## Vectors of scalars -/

section

omit [FieldTypeTags] [MamaLibrary]

/-- A getter of a vector of scalars: the pointer and the number of elements. -/
abbrev VectorGetter := OmnmFieldImpl → MamaStatus × BufferPtr × Nat

/-- `GET_SCALAR_VECTOR`: neither the type nor the data is checked. -/
def getScalarVector (scalar : ScalarType) : VectorGetter := fun field =>
  (.ok, field.mData, field.mSize / scalar.size)

def omnmmsgFieldPayload_getVectorBool : VectorGetter := getScalarVector .bool
def omnmmsgFieldPayload_getVectorChar : VectorGetter := getScalarVector .char
def omnmmsgFieldPayload_getVectorI8 : VectorGetter := getScalarVector .i8
def omnmmsgFieldPayload_getVectorU8 : VectorGetter := getScalarVector .u8
def omnmmsgFieldPayload_getVectorI16 : VectorGetter := getScalarVector .i16
def omnmmsgFieldPayload_getVectorU16 : VectorGetter := getScalarVector .u16
def omnmmsgFieldPayload_getVectorI32 : VectorGetter := getScalarVector .i32
def omnmmsgFieldPayload_getVectorU32 : VectorGetter := getScalarVector .u32
def omnmmsgFieldPayload_getVectorI64 : VectorGetter := getScalarVector .i64
def omnmmsgFieldPayload_getVectorU64 : VectorGetter := getScalarVector .u64
def omnmmsgFieldPayload_getVectorF32 : VectorGetter := getScalarVector .f32
def omnmmsgFieldPayload_getVectorF64 : VectorGetter := getScalarVector .f64

/-! ## Vectors that are kept in the field -/

/-- The loop of `omnmmsgFieldPayload_getVectorString` that locates the strings. -/
def locateStrings (memory : List UInt8) (data size : Nat) :
    Nat → Nat → Traced Region (List BufferPtr)
  | 0, _ => Traced.fault
  | rounds + 1, i =>
      if size ≤ i then pure []
      else do
        let length ← strlen .message memory (data + i)
        let strings ← locateStrings memory data size rounds (i + length + 1)
        pure (.offset (data + i) :: strings)

/-- The array is as long as the data has NULs; a string that would be written behind it
leaves it. The result is the array and the number of NULs. -/
def omnmmsgFieldPayload_getVectorString (memory : GetterMemory) (msg : OmnmPayloadImpl)
    (field : OmnmFieldImpl) (results : FieldResults) :
    Traced Region (MamaStatus × (List BufferPtr × Nat) × FieldResults) :=
  if field.mSize = 0 then
    pure (.ok, (results.mVectorString, 0), results)
  else do
    let data ← field.dataOffset
    let bytes ← loadBytes .message msg.mPayloadBuffer data field.mSize
    let stringCount := bytes.count 0
    let array := memory.growArray results.mVectorString .null stringCount
    let strings ← locateStrings msg.mPayloadBuffer data field.mSize (field.mSize + 1) 0
    if array.length < strings.length then Traced.fault
    else
      let mVectorString := strings ++ array.drop strings.length
      pure (.ok, (mVectorString, stringCount), { results with mVectorString })

/-- Consecutive records of one width. -/
def loadRecords (memory : List UInt8) (width : Nat) : Nat → Nat → Traced Region (List (List UInt8))
  | 0, _ => pure []
  | count + 1, offset => do
      let record ← loadBytes .message memory offset width
      let records ← loadRecords memory width count (offset + width)
      pure (record :: records)

/-- The getters of vectors whose records are converted into objects of the MAMA library,
which the field keeps. -/
def getVectorRecords {Entry : Type} (memory : GetterMemory) (msg : OmnmPayloadImpl)
    (field : OmnmFieldImpl) (kept : List (Option Entry)) (width : Nat)
    (convert : List UInt8 → Entry) : Traced Region (List (Option Entry) × Nat) :=
  let count := field.mSize / width
  let array := memory.growArray kept none count
  if count = 0 then pure (array, 0)
  else do
    let data ← field.dataOffset
    let records ← loadRecords msg.mPayloadBuffer width count data
    if array.length < count then Traced.fault
    else pure (records.map (fun record => some (convert record)) ++ array.drop count, count)

def omnmmsgFieldPayload_getVectorDateTime (memory : GetterMemory) (msg : OmnmPayloadImpl)
    (field : OmnmFieldImpl) (results : FieldResults) :
    Traced Region (MamaStatus × (List (Option MamaDateTime) × Nat) × FieldResults) := do
  let (mVectorDateTime, count) ← getVectorRecords memory msg field results.mVectorDateTime
    sizeofOmnmDateTime convertOmnmDateTimeToMamaDateTime
  pure (.ok, (mVectorDateTime, count), { results with mVectorDateTime })

def omnmmsgFieldPayload_getVectorPrice (memory : GetterMemory) (msg : OmnmPayloadImpl)
    (field : OmnmFieldImpl) (results : FieldResults) :
    Traced Region (MamaStatus × (List (Option MamaPrice) × Nat) × FieldResults) := do
  let (mVectorPrice, count) ← getVectorRecords memory msg field results.mVectorPrice
    sizeofOmnmPrice convertOmnmPriceToMamaPrice
  pure (.ok, (mVectorPrice, count), { results with mVectorPrice })

/-- The loop of `omnmmsgFieldPayload_getVectorMsg` that counts the messages. Every round
reads the length at the front of the data. -/
def countMessages (memory : List UInt8) (data size : Nat) : Nat → Nat → Traced Region Nat
  | 0, _ => Traced.fault
  | rounds + 1, i =>
      if size ≤ i then pure 0
      else do
        let payloadLen ← loadInteger .message memory data 4
        let count ← countMessages memory data size rounds (i + payloadLen + 4)
        pure (count + 1)

/-- The loop of `omnmmsgFieldPayload_getVectorMsg` that takes in the messages. -/
def takeInMessages (memory : GetterMemory) (bytes : List UInt8) (data size : Nat) :
    Nat → Nat → Nat → MamaStatus → List (Option OmnmPayloadImpl) →
      Traced Region (MamaStatus × List (Option OmnmPayloadImpl))
  | 0, _, _, _, _ => Traced.fault
  | rounds + 1, i, j, status, array =>
      if size ≤ i then pure (status, array)
      else do
        let payloadLen ← loadInteger .message bytes data 4
        match array[j]? with
        | none => Traced.fault
        | some sub => do
            let (status, sub) ← fillSubPayload memory sub (bytes.drop (data + i + 4)) payloadLen
            takeInMessages memory bytes data size rounds (i + payloadLen + 4) (j + 1) status
              (array.set j sub)

/-- The status is that of the last message. -/
def omnmmsgFieldPayload_getVectorMsg (memory : GetterMemory) (msg : OmnmPayloadImpl)
    (field : OmnmFieldImpl) (results : FieldResults) :
    Traced Region (MamaStatus × (List (Option OmnmPayloadImpl) × Nat) × FieldResults) :=
  if field.mSize = 0 then
    pure (.ok, (results.mVectorPayload, 0), results)
  else do
    let data ← field.dataOffset
    let msgCount ← countMessages msg.mPayloadBuffer data field.mSize (field.mSize + 1) 0
    let array := memory.growArray results.mVectorPayload none msgCount
    let (status, mVectorPayload) ← takeInMessages memory msg.mPayloadBuffer data field.mSize
      (field.mSize + 1) 0 0 .ok array
    pure (status, (mVectorPayload, msgCount), { results with mVectorPayload })

end

end Omnm
