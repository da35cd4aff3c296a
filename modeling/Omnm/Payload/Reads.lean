import Omnm.Payload.Apply

/-!
# Reading a payload

The functions that look at a payload: its size, its number of fields, its
fields by key and its text. Some of them look a field up in `mField`, the field
that the payload owns, and leave it there. `omnmmsgPayload_toString` prints into
the scratch buffer of that field, in which the mutators build vectors.

A payload with its own field is a `PayloadObject`, and reads and mutations are
the calls on it.
-/

set_option autoImplicit false

namespace Omnm

open OmnmPayloadImpl

/-! ## The text of a field -/

/-- What the text of a field takes from the C library and from the MAMA library: the text
of a floating-point value, of a date-time and of a price (none when the getter wrote
nothing), the status of a MAMA function that is handed an `omnmFieldImpl`, the number
of a status, and the bytes that `sprintf` leaves of a text too long for its result. -/
class FieldPrinting where
  printFloat : ScalarType → Nat → List UInt8
  mamaDateTime_getAsString : Option MamaDateTime → MamaStatus × List UInt8
  mamaPrice_getAsString : Option MamaPrice → MamaStatus × List UInt8
  mamaMsgField_getVector : MamaFieldType → OmnmPayloadImpl → OmnmFieldImpl → MamaStatus
  statusNumber : MamaStatus → Int
  overlongText : List UInt8 → List UInt8

/-- Characters as bytes. -/
def textBytes (text : String) : List UInt8 := text.toList.map fun char => UInt8.ofNat char.toNat

/-- The digits of an integer. -/
def printInteger (value : Int) : List UInt8 :=
  (if value < 0 then textBytes "-" else []) ++
    (Nat.toDigits 10 value.natAbs).map fun char => UInt8.ofNat char.toNat

/-- `snprintf` into a buffer of a length that is not zero. -/
def snprintf (len : Nat) (text : List UInt8) : CString := CString.ofBytes (text.take (len - 1))

/-- The `%` conversions of the scalar types. -/
def printScalar [FieldPrinting] (scalar : ScalarType) (bits : Nat) : List UInt8 :=
  if scalar.isFloat then FieldPrinting.printFloat scalar bits
  else if scalar = .char then [UInt8.ofNat bits]
  else printInteger (scalar.integerValue bits)

section

variable [FieldTypeTags] [MamaLibrary] [FieldPrinting]

/-- `omnmmsgFieldPayload_getAsString`, with the string that it leaves in the buffer. Each
element of a vector is printed over the one before it, and the closing brace over the last. -/
def omnmmsgFieldPayload_getAsString (msg : OmnmPayloadImpl) (field : OmnmFieldImpl) (len : Nat) :
    Traced Region (MamaStatus × Option CString) :=
  let scalar (type : ScalarType) (get : ScalarGetter) :
      Traced Region (MamaStatus × Option CString) := do
    let (_, result) ← get msg field
    pure (.ok, some (snprintf len (printScalar type (result.getD 0))))
  let vector (type : MamaFieldType) : Traced Region (MamaStatus × Option CString) :=
    let status := FieldPrinting.mamaMsgField_getVector type msg field
    if status ≠ .ok then
      pure (status, some (snprintf len (textBytes "\x7bfailed with status: " ++
        printInteger (FieldPrinting.statusNumber status) ++ textBytes "\x7d")))
    else pure (.ok, some (snprintf len (textBytes "\x7d")))
  if len = 0 then pure (.invalidArg, none)
  else
    match fieldTypeOf field.mFieldType with
    | some .bool => scalar .bool omnmmsgFieldPayload_getBool
    | some .char => scalar .char omnmmsgFieldPayload_getChar
    | some .i8 => scalar .i8 omnmmsgFieldPayload_getI8
    | some .u8 => scalar .u8 omnmmsgFieldPayload_getU8
    | some .i16 => scalar .i16 omnmmsgFieldPayload_getI16
    | some .u16 => scalar .u16 omnmmsgFieldPayload_getU16
    | some .i32 => scalar .i32 omnmmsgFieldPayload_getI32
    | some .u32 => scalar .u32 omnmmsgFieldPayload_getU32
    | some .i64 => scalar .i64 omnmmsgFieldPayload_getI64
    | some .u64 => scalar .u64 omnmmsgFieldPayload_getU64
    | some .f32 => scalar .f32 omnmmsgFieldPayload_getF32
    | some .f64 => scalar .f64 omnmmsgFieldPayload_getF64
    | some .string => do
        let (_, result) ← omnmmsgFieldPayload_getString msg field
        let text ← loadStringArgument msg (result.getD .null)
        pure (.ok, some (snprintf len (text.getD CString.empty).bytes))
    | some .time => do
        let (_, result) ← omnmmsgFieldPayload_getDateTime msg field
        let (status, text) := FieldPrinting.mamaDateTime_getAsString result
        pure (status, some (snprintf len text))
    | some .price => do
        let (_, result) ← omnmmsgFieldPayload_getPrice msg field
        let (status, text) := FieldPrinting.mamaPrice_getAsString result
        pure (status, some (snprintf len text))
    | some .vectorString => vector .vectorString
    | some .vectorU8 => vector .vectorU8
    | some .vectorU16 => vector .vectorU16
    | some .vectorU32 => vector .vectorU32
    | some .vectorU64 => vector .vectorU64
    | some .vectorBool => vector .vectorBool
    | some .vectorChar => vector .vectorChar
    | some .vectorI8 => vector .vectorI8
    | some .vectorI16 => vector .vectorI16
    | some .vectorI32 => vector .vectorI32
    | some .vectorI64 => vector .vectorI64
    | some .vectorF64 => vector .vectorF64
    | some .vectorF32 => vector .vectorF32
    | some .opaqueField => do
        let (status, result) ← omnmmsgFieldPayload_getOpaque msg field
        let size := (result.getD (.null, 0)).2
        -- `sprintf`, which does not look at the length
        pure (status, some (CString.ofBytes
          (textBytes "\x7b" ++ printInteger size ++ textBytes " bytes\x7d")))
    | some .msg | some .vectorMsg | some .vectorTime | some .vectorPrice =>
        pure (.ok, some (snprintf len (textBytes "\x7b...\x7d")))
    | some .quantity | some .collection | some .unknown | none =>
        pure (.ok, some (snprintf len (textBytes "Unknown")))

/-- `omnmmsgPayload_getFieldAsString`. -/
def omnmmsgPayload_getFieldAsString (msg : OmnmPayloadImpl) (name : Option CString) (fid : UInt16)
    (len : Nat) : Traced Region (MamaStatus × Option CString) := do
  let (status, field) ← msg.getField name fid
  if status ≠ .ok then pure (status, none)
  else omnmmsgFieldPayload_getAsString msg (field.getD OmnmFieldImpl.zeroed) len

/-! ## The text of a payload -/

/-- `sizeof (part)`. -/
def sizeofPart : Nat := 1024

/-- `INT_MAX`. -/
def intMax : Nat := 2 ^ 31 - 1

omit [FieldTypeTags] [MamaLibrary] [FieldPrinting] in
/-- What `sprintf` returns: how many characters it printed, or a negative number when an `int`
does not count them. -/
def sprintfResult (text : List UInt8) : Int := if text.length ≤ intMax then text.length else -1

omit [FieldTypeTags] [MamaLibrary] in
/-- What `sprintf` writes: the text and its terminator. Of a text that an `int` does not count it
may have written anything when it gives up. -/
def sprintfBytes (text : List UInt8) : List UInt8 :=
  if text.length ≤ intMax then text ++ [0]
  else (FieldPrinting.overlongText text).take (text.length + 1)

omit [FieldTypeTags] [MamaLibrary] in
/-- `sprintf` into the scratch buffer, with what it returns. -/
def sprintf (mBuffer : List UInt8) (charIdx : Nat) (text : List UInt8) :
    Traced Region (List UInt8 × Int) := do
  let mBuffer ← store .scratch mBuffer charIdx (sprintfBytes text)
  pure (mBuffer, sprintfResult text)

omit [FieldTypeTags] [MamaLibrary] [FieldPrinting] in
/-- `charIdx += sprintf (…)`. There is a brace or a comma in front of every item, so a result of
-1 takes no index below zero. -/
def advanceIndex (charIdx : Nat) (written : Int) : Nat := (charIdx + written).toNat

omit [FieldTypeTags] [MamaLibrary] [FieldPrinting] in
/-- A field as `omnmmsgPayload_toString` prints it. -/
def printField (fname : Option CString) (fid : UInt16) (part : CString) : List UInt8 :=
  let number := if fid = 0 then [] else textBytes "[" ++ printInteger fid.toNat ++ textBytes "]"
  (fname.getD CString.empty).bytes ++ number ++ textBytes "=" ++ part.bytes

/-- The loop of `omnmmsgPayload_toString`, and the closing brace behind it: whether every
allocation succeeded, and the scratch buffer. -/
def toStringFrom (scratch : Allocator) (msg : OmnmPayloadImpl) :
    Nat → OmnmIterImpl → List UInt8 → Nat → Traced Region (Bool × List UInt8)
  | 0, _, _, _ => Traced.fault
  | rounds + 1, iter, mBuffer, charIdx => do
      let (field, iter) ← omnmmsgPayloadIter_next iter msg
      match field with
      | none => do
          let (mBuffer, _) ← sprintf mBuffer charIdx (textBytes "\x7d")
          pure (true, mBuffer)
      | some field => do
          let (_, part) ← omnmmsgFieldPayload_getAsString msg field sizeofPart
          let part := part.getD CString.empty
          let written ← omnmmsgFieldPayload_getName msg field
          let fname ← loadStringArgument msg (written.getD .null)
          let bytesInString := strlenEx fname + part.bytes.length + 10
          let allocation := allocateBufferMemory scratch mBuffer (bytesInString + charIdx)
          if allocation.succeeded = false then pure (false, mBuffer)
          else do
            let text := printField fname field.mFid part
            let (mBuffer, written) ← sprintf allocation.buffer charIdx text
            let charIdx := advanceIndex charIdx written
            if omnmmsgPayloadIter_hasNext iter msg then do
              let (mBuffer, written) ← sprintf mBuffer charIdx (textBytes ",")
              toStringFrom scratch msg rounds iter mBuffer (advanceIndex charIdx written)
            else toStringFrom scratch msg rounds iter mBuffer charIdx

/-- `omnmmsgPayload_toString`: NULL, or the string in the scratch buffer. -/
def omnmmsgPayload_toString (scratch : Allocator) (msg : OmnmPayloadImpl) :
    Traced Region (Option CString × OmnmPayloadImpl) := do
  let _ ← omnmmsgPayload_getNumFields msg
  let iter ← omnmmsgPayloadIterImpl_init msg
  let allocation := allocateBufferMemory scratch msg.mBuffer sizeofPart
  if allocation.succeeded = false then pure (none, msg)
  else do
    let (mBuffer, written) ← sprintf allocation.buffer 0 (textBytes "\x7b")
    let (completed, mBuffer) ←
      toStringFrom scratch msg (iterationBound msg) iter mBuffer (advanceIndex 0 written)
    pure (if completed then some (CString.ofBytes mBuffer) else none, { msg with mBuffer })

/-! ## Getters by key -/

/-- `OmnmPayloadImpl::getFieldValueAsCopy` by key. The type asked for is not compared. -/
def getFieldValueAsCopyByKey (scalar : ScalarType) (msg : OmnmPayloadImpl) (name : Option CString)
    (fid : UInt16) : Traced Region (MamaStatus × Option Nat) :=
  match validateNameFid name fid with
  | some status => pure (status, none)
  | none => do
      let field ← msg.findFieldInBuffer name fid
      match field with
      | none => pure (.notFound, none)
      | some field => getFieldValueAsCopy scalar msg field

/-- A getter of a scalar by key. -/
abbrev ScalarLookup :=
  OmnmPayloadImpl → Option CString → UInt16 → Traced Region (MamaStatus × Option Nat)

def omnmmsgPayload_getBool : ScalarLookup := getFieldValueAsCopyByKey .bool
def omnmmsgPayload_getChar : ScalarLookup := getFieldValueAsCopyByKey .char
def omnmmsgPayload_getI8 : ScalarLookup := getFieldValueAsCopyByKey .i8
def omnmmsgPayload_getU8 : ScalarLookup := getFieldValueAsCopyByKey .u8
def omnmmsgPayload_getI16 : ScalarLookup := getFieldValueAsCopyByKey .i16
def omnmmsgPayload_getU16 : ScalarLookup := getFieldValueAsCopyByKey .u16
def omnmmsgPayload_getI32 : ScalarLookup := getFieldValueAsCopyByKey .i32
def omnmmsgPayload_getU32 : ScalarLookup := getFieldValueAsCopyByKey .u32
def omnmmsgPayload_getI64 : ScalarLookup := getFieldValueAsCopyByKey .i64
def omnmmsgPayload_getU64 : ScalarLookup := getFieldValueAsCopyByKey .u64
def omnmmsgPayload_getF32 : ScalarLookup := getFieldValueAsCopyByKey .f32
def omnmmsgPayload_getF64 : ScalarLookup := getFieldValueAsCopyByKey .f64

def ScalarType.omnmmsgPayload_get : ScalarType → ScalarLookup
  | bool => omnmmsgPayload_getBool
  | char => omnmmsgPayload_getChar
  | i8 => omnmmsgPayload_getI8
  | u8 => omnmmsgPayload_getU8
  | i16 => omnmmsgPayload_getI16
  | u16 => omnmmsgPayload_getU16
  | i32 => omnmmsgPayload_getI32
  | u32 => omnmmsgPayload_getU32
  | i64 => omnmmsgPayload_getI64
  | u64 => omnmmsgPayload_getU64
  | f32 => omnmmsgPayload_getF32
  | f64 => omnmmsgPayload_getF64

omit [FieldPrinting] in
theorem ScalarType.get_eq (scalar : ScalarType) :
    scalar.omnmmsgPayload_get = getFieldValueAsCopyByKey scalar := by
  cases scalar <;> rfl

end

section

variable [FieldTypeTags]

/-- `OmnmPayloadImpl::getFieldValueAsBuffer` by key, which is what `getString` returns. -/
def omnmmsgPayload_getString (msg : OmnmPayloadImpl) (name : Option CString) (fid : UInt16) :
    Traced Region (MamaStatus × Option BufferPtr) :=
  match validateNameFid name fid with
  | some status => pure (status, none)
  | none => do
      let field ← msg.findFieldInBuffer name fid
      match field with
      | none => pure (.notFound, none)
      | some field => getFieldValueAsBuffer msg field

/-- `omnmmsgPayload_getOpaque`: the pointer and the size. -/
def omnmmsgPayload_getOpaque (msg : OmnmPayloadImpl) (name : Option CString) (fid : UInt16) :
    Traced Region (MamaStatus × Option (BufferPtr × Nat)) := do
  let (status, field) ← msg.getField name fid
  pure (status, field.map fun field => (field.mData, field.mSize))

/-- `GET_SCALAR_VECTOR` of a payload: the pointer and the number of elements. -/
def getScalarVectorByKey (scalar : ScalarType) (msg : OmnmPayloadImpl) (name : Option CString)
    (fid : UInt16) : Traced Region (MamaStatus × Option (BufferPtr × Nat)) := do
  let (status, field) ← msg.getField name fid
  pure (status, field.map fun field => (field.mData, field.mSize / scalar.size))

/-- A getter of a vector of scalars by key. -/
abbrev VectorLookup := OmnmPayloadImpl → Option CString → UInt16 →
  Traced Region (MamaStatus × Option (BufferPtr × Nat))

def omnmmsgPayload_getVectorBool : VectorLookup := getScalarVectorByKey .bool
def omnmmsgPayload_getVectorChar : VectorLookup := getScalarVectorByKey .char
def omnmmsgPayload_getVectorI8 : VectorLookup := getScalarVectorByKey .i8
def omnmmsgPayload_getVectorU8 : VectorLookup := getScalarVectorByKey .u8
def omnmmsgPayload_getVectorI16 : VectorLookup := getScalarVectorByKey .i16
def omnmmsgPayload_getVectorU16 : VectorLookup := getScalarVectorByKey .u16
def omnmmsgPayload_getVectorI32 : VectorLookup := getScalarVectorByKey .i32
def omnmmsgPayload_getVectorU32 : VectorLookup := getScalarVectorByKey .u32
def omnmmsgPayload_getVectorI64 : VectorLookup := getScalarVectorByKey .i64
def omnmmsgPayload_getVectorU64 : VectorLookup := getScalarVectorByKey .u64
def omnmmsgPayload_getVectorF32 : VectorLookup := getScalarVectorByKey .f32
def omnmmsgPayload_getVectorF64 : VectorLookup := getScalarVectorByKey .f64

def ScalarType.omnmmsgPayload_getVector : ScalarType → VectorLookup
  | bool => omnmmsgPayload_getVectorBool
  | char => omnmmsgPayload_getVectorChar
  | i8 => omnmmsgPayload_getVectorI8
  | u8 => omnmmsgPayload_getVectorU8
  | i16 => omnmmsgPayload_getVectorI16
  | u16 => omnmmsgPayload_getVectorU16
  | i32 => omnmmsgPayload_getVectorI32
  | u32 => omnmmsgPayload_getVectorU32
  | i64 => omnmmsgPayload_getVectorI64
  | u64 => omnmmsgPayload_getVectorU64
  | f32 => omnmmsgPayload_getVectorF32
  | f64 => omnmmsgPayload_getVectorF64

end

/-! ## The payload with its own field -/

/-- A payload and the field it owns: where that was found last, and what it keeps for the
callers. Its scratch buffer is part of `impl`. -/
structure PayloadObject where
  impl : OmnmPayloadImpl
  mField : OmnmFieldImpl
  results : FieldResults

namespace PayloadObject

/-- The object that `omnmmsgPayload_create` makes. -/
def new : PayloadObject := ⟨newPayload, OmnmFieldImpl.zeroed, FieldResults.none⟩

variable [FieldTypeTags]

/-- `impl->getField (name, fid, impl->mField)`. -/
def getField (object : PayloadObject) (name : Option CString) (fid : UInt16) :
    Traced Region (MamaStatus × PayloadObject) := do
  let (status, field) ← object.impl.getField name fid
  pure (status, { object with mField := field.getD object.mField })

/-- A getter that finds the field in `mField` and hands it to the getter of a field. -/
def getThroughField {Value : Type}
    (get : OmnmPayloadImpl → OmnmFieldImpl → FieldResults →
      Traced Region (MamaStatus × Value × FieldResults))
    (object : PayloadObject) (name : Option CString) (fid : UInt16) :
    Traced Region (MamaStatus × Option Value × PayloadObject) := do
  let (status, object) ← object.getField name fid
  if status ≠ .ok then pure (status, none, object)
  else do
    let (status, value, results) ← get object.impl object.mField object.results
    pure (status, some value, { object with results })

end PayloadObject

/-- A getter by key of a payload with its own field. -/
abbrev ObjectLookup (Value : Type) := PayloadObject → Option CString → UInt16 →
  Traced Region (MamaStatus × Option Value × PayloadObject)

section

open PayloadObject

variable [FieldTypeTags] [MamaLibrary]

/-- `omnmmsgPayload_getDateTime`; no date-time when the getter wrote none. -/
def omnmmsgPayload_getDateTime : ObjectLookup (Option MamaDateTime) :=
  getThroughField fun msg field results => do
    let (status, result) ← omnmmsgFieldPayload_getDateTime msg field
    pure (status, result, results)

def omnmmsgPayload_getPrice : ObjectLookup (Option MamaPrice) :=
  getThroughField fun msg field results => do
    let (status, result) ← omnmmsgFieldPayload_getPrice msg field
    pure (status, result, results)

omit [MamaLibrary]

variable (memory : GetterMemory)

def omnmmsgPayload_getMsg : ObjectLookup (Option OmnmPayloadImpl) :=
  getThroughField (omnmmsgFieldPayload_getMsg memory)

/-- The getters of vectors that are kept in `mField`. They validate the key themselves. -/
def getVectorThroughField {Value : Type}
    (get : OmnmPayloadImpl → OmnmFieldImpl → FieldResults →
      Traced Region (MamaStatus × Value × FieldResults)) : ObjectLookup Value :=
  fun object name fid =>
    match validateNameFid name fid with
    | some status => pure (status, none, object)
    | none => getThroughField get object name fid

def omnmmsgPayload_getVectorString : ObjectLookup (List BufferPtr × Nat) :=
  getVectorThroughField (omnmmsgFieldPayload_getVectorString memory)

def omnmmsgPayload_getVectorDateTime : ObjectLookup (List (Option MamaDateTime) × Nat) :=
  getVectorThroughField (omnmmsgFieldPayload_getVectorDateTime memory)

def omnmmsgPayload_getVectorPrice : ObjectLookup (List (Option MamaPrice) × Nat) :=
  getVectorThroughField (omnmmsgFieldPayload_getVectorPrice memory)

def omnmmsgPayload_getVectorMsg : ObjectLookup (List (Option OmnmPayloadImpl) × Nat) :=
  getVectorThroughField (omnmmsgFieldPayload_getVectorMsg memory)

/-- `omnmmsgPayload_getField`: the result is `mField`, whatever the status. -/
def omnmmsgPayload_getField (object : PayloadObject) (name : Option CString) (fid : UInt16) :
    Traced Region (MamaStatus × OmnmFieldImpl × PayloadObject) := do
  let (status, object) ← object.getField name fid
  pure (status, object.mField, object)

end

/-! ## Calls on a payload -/

/-- The calls that read a payload. The callback of `iterateFields` does not modify it. -/
inductive ReadCall where
  | toString (scratch : Allocator)
  | getFieldAsString (name : Option CString) (fid : UInt16) (len : Nat)
  | getNumFields
  | getByteSize
  | serialize
  | iterateFields
  | getScalar (scalar : ScalarType) (name : Option CString) (fid : UInt16)
  | getVectorScalar (scalar : ScalarType) (name : Option CString) (fid : UInt16)
  | getString (name : Option CString) (fid : UInt16)
  | getOpaque (name : Option CString) (fid : UInt16)
  | getDateTime (name : Option CString) (fid : UInt16)
  | getPrice (name : Option CString) (fid : UInt16)
  | getMsg (memory : GetterMemory) (name : Option CString) (fid : UInt16)
  | getVectorString (memory : GetterMemory) (name : Option CString) (fid : UInt16)
  | getVectorDateTime (memory : GetterMemory) (name : Option CString) (fid : UInt16)
  | getVectorPrice (memory : GetterMemory) (name : Option CString) (fid : UInt16)
  | getVectorMsg (memory : GetterMemory) (name : Option CString) (fid : UInt16)
  | getField (name : Option CString) (fid : UInt16)

/-- What a read gives to its caller. -/
inductive ReadResult where
  | string (text : Option CString)
  | printed (status : MamaStatus) (text : Option CString)
  | size (status : MamaStatus) (size : Nat)
  | buffer (status : MamaStatus) (buffer : List UInt8) (length : Nat)
  | fields (status : MamaStatus) (fields : List OmnmFieldImpl)
  | scalar (status : MamaStatus) (bits : Option Nat)
  | pointer (status : MamaStatus) (data : Option BufferPtr)
  | sized (status : MamaStatus) (data : Option (BufferPtr × Nat))
  | dateTime (status : MamaStatus) (value : Option MamaDateTime)
  | price (status : MamaStatus) (value : Option MamaPrice)
  | msg (status : MamaStatus) (value : Option OmnmPayloadImpl)
  | strings (status : MamaStatus) (value : Option (List BufferPtr × Nat))
  | dateTimes (status : MamaStatus) (value : Option (List (Option MamaDateTime) × Nat))
  | prices (status : MamaStatus) (value : Option (List (Option MamaPrice) × Nat))
  | msgs (status : MamaStatus) (value : Option (List (Option OmnmPayloadImpl) × Nat))
  | field (status : MamaStatus) (field : OmnmFieldImpl)

/-- A call on a payload object. -/
inductive ObjectCall where
  | mutate (call : PayloadCall)
  | read (call : ReadCall)

/-- The status of a mutation, or what a read gives. -/
inductive ObjectOut where
  | status (status : MamaStatus)
  | result (result : ReadResult)

variable [FieldTypeTags] [MamaLibrary] [FieldPrinting]

/-- A read of the payload itself. -/
def PayloadObject.look {Value : Type} (object : PayloadObject) (result : Value → ReadResult)
    (computation : Traced Region Value) : Traced Region (ReadResult × PayloadObject) := do
  let value ← computation
  pure (result value, object)

/-- A read through `mField`. -/
def PayloadObject.lookup {Value : Type} (object : PayloadObject)
    (result : MamaStatus → Option Value → ReadResult) (get : ObjectLookup Value)
    (name : Option CString) (fid : UInt16) : Traced Region (ReadResult × PayloadObject) := do
  let (status, value, object) ← get object name fid
  pure (result status value, object)

/-- A read, as its function performs it. -/
def ReadCall.perform (object : PayloadObject) :
    ReadCall → Traced Region (ReadResult × PayloadObject)
  | .toString scratch => do
      let (text, impl) ← omnmmsgPayload_toString scratch object.impl
      pure (.string text, { object with impl })
  | .getFieldAsString name fid len =>
      object.look (fun (status, text) => .printed status text)
        (omnmmsgPayload_getFieldAsString object.impl name fid len)
  | .getNumFields =>
      object.look (fun (status, count) => .size status count)
        (omnmmsgPayload_getNumFields object.impl)
  | .getByteSize =>
      object.look (fun (status, size) => .size status size)
        (pure (omnmmsgPayload_getByteSize object.impl))
  | .serialize =>
      object.look (fun (status, buffer, length) => .buffer status buffer length)
        (pure (omnmmsgPayload_serialize object.impl))
  | .iterateFields =>
      object.look (fun (fields, _) => .fields .ok fields) (Omnm.iterateFields object.impl)
  | .getScalar scalar name fid =>
      object.look (fun (status, bits) => .scalar status bits)
        (scalar.omnmmsgPayload_get object.impl name fid)
  | .getVectorScalar scalar name fid =>
      object.look (fun (status, data) => .sized status data)
        (scalar.omnmmsgPayload_getVector object.impl name fid)
  | .getString name fid =>
      object.look (fun (status, data) => .pointer status data)
        (omnmmsgPayload_getString object.impl name fid)
  | .getOpaque name fid =>
      object.look (fun (status, data) => .sized status data)
        (omnmmsgPayload_getOpaque object.impl name fid)
  | .getDateTime name fid =>
      object.lookup (fun status value => .dateTime status value.join)
        omnmmsgPayload_getDateTime name fid
  | .getPrice name fid =>
      object.lookup (fun status value => .price status value.join) omnmmsgPayload_getPrice name fid
  | .getMsg memory name fid =>
      object.lookup (fun status value => .msg status value.join)
        (omnmmsgPayload_getMsg memory) name fid
  | .getVectorString memory name fid =>
      object.lookup .strings (omnmmsgPayload_getVectorString memory) name fid
  | .getVectorDateTime memory name fid =>
      object.lookup .dateTimes (omnmmsgPayload_getVectorDateTime memory) name fid
  | .getVectorPrice memory name fid =>
      object.lookup .prices (omnmmsgPayload_getVectorPrice memory) name fid
  | .getVectorMsg memory name fid =>
      object.lookup .msgs (omnmmsgPayload_getVectorMsg memory) name fid
  | .getField name fid => do
      let (status, field, object) ← omnmmsgPayload_getField object name fid
      pure (.field status field, object)

/-- A call on a payload object. A mutation leaves `mField` alone, but for the scratch
buffer. -/
def ObjectCall.perform (object : PayloadObject) :
    ObjectCall → Traced Region (ObjectOut × PayloadObject)
  | .mutate call => do
      let (status, impl) ← call.perform object.impl
      pure (.status status, { object with impl })
  | .read call => do
      let (result, object) ← call.perform object
      pure (.result result, object)

/-- A payload object as a system of calls. -/
def objectStep (object : PayloadObject) (call : ObjectCall) : Option (ObjectOut × PayloadObject) :=
  (call.perform object).result

end Omnm
