import Omnm.Memory.MachineIntegers
import Omnm.Payload.Iterator

/-!
# Finding, adding and updating fields

The mutators of `OmnmPayloadImpl`. `addField` writes a field at the tail.
`updateField` by key finds the first field that matches and hands it to the
update of that field (`updateFieldHandle`), which moves the rest of the message
when the data changes its length. Every copy into the payload buffer is a
recorded access.

A data argument is NULL or the bytes it points to, so `bufferLen` is their
number. The arithmetic is that of the source: `nameLen` is an `int`, the moved
byte count a `uint32_t`, and the tail passes through `int` on an update that
changes the length.
-/

set_option autoImplicit false

namespace Omnm

/-- `FIELD_TYPE_WIDTH`. -/
def fieldTypeWidth : Nat := 1

/-- `FID_WIDTH`. -/
def fidWidth : Nat := 2

/-- `LENGTH_WIDTH`, which is also `sizeof (mama_u32_t)`. -/
def lengthWidth : Nat := 4

/-- `UINT32_MAX`. -/
def uint32Max : Nat := 2 ^ 32 - 1

variable [FieldTypeTags]

/-! ## Lookup -/

/-- The string at a field's name. -/
def loadCString (memory : List UInt8) (offset : Nat) : Traced Region (List UInt8) := do
  let length ← strlen .message memory offset
  loadBytes .message memory offset length

/-- `0 == strcmp (name, fieldCandidate->mName)`, where both are not NULL. -/
def nameMatches (msg : OmnmPayloadImpl) (name : Option CString) (candidate : OmnmFieldImpl) :
    Traced Region Bool :=
  match name, candidate.mName with
  | none, _ => pure false
  | some _, .null => pure false
  | some _, .stray => Traced.fault
  | some name, .offset offset => do
      let bytes ← loadCString msg.mPayloadBuffer offset
      pure (decide (name.bytes = bytes))

namespace OmnmPayloadImpl

/-- The loop of `findFieldInBuffer`. -/
def findFrom (msg : OmnmPayloadImpl) (name : Option CString) (fid : UInt16) :
    Nat → OmnmIterImpl → Traced Region (Option OmnmFieldImpl)
  | 0, _ => Traced.fault
  | rounds + 1, iter => do
      let (candidate, iter) ← omnmmsgPayloadIter_next iter msg
      match candidate with
      | none => pure none
      | some candidate =>
          if fid ≠ 0 ∧ fid = candidate.mFid then pure (some candidate)
          else do
            let sameName ← nameMatches msg name candidate
            if sameName then pure (some candidate) else findFrom msg name fid rounds iter

/-- `OmnmPayloadImpl::findFieldInBuffer`; no field stands for
`MAMA_STATUS_NOT_FOUND`. -/
def findFieldInBuffer (msg : OmnmPayloadImpl) (name : Option CString) (fid : UInt16) :
    Traced Region (Option OmnmFieldImpl) := do
  let iter ← omnmmsgPayloadIterImpl_init msg
  findFrom msg name fid (iterationBound msg) iter

/-- `OmnmPayloadImpl::getField`. -/
def getField (msg : OmnmPayloadImpl) (name : Option CString) (fid : UInt16) :
    Traced Region (MamaStatus × Option OmnmFieldImpl) :=
  match validateNameFid name fid with
  | some status => pure (status, none)
  | none => do
      let field ← findFieldInBuffer msg name fid
      match field with
      | none => pure (.notFound, none)
      | some field => pure (.ok, some field)

/-! ## Appending a field -/

/-- The name part of `addField`: the buffer and the insert point behind it. The
copy takes `nameLen` bytes, terminator included. -/
def insertName (memory : List UInt8) (insertPoint : Nat) (name : Option CString) (nameLen : Int) :
    Traced Region (List UInt8 × Nat) :=
  match name with
  | none => do
      let memory ← store .message memory insertPoint [0]
      pure (memory, insertPoint + 1)
  | some name =>
      if name.terminated.length < asSize nameLen then Traced.fault
      else do
        let memory ← store .message memory insertPoint (name.terminated.take (asSize nameLen))
        pure (memory, asSize (insertPoint + nameLen))

/-- The length part of `addField`, present for sized types only. -/
def insertLength (memory : List UInt8) (insertPoint : Nat) (type : UInt8) (bufferLen : Nat) :
    Traced Region (List UInt8 × Nat) :=
  if isFieldTypeSized type then do
    let memory ← store .message memory insertPoint (littleEndian 4 (asUInt32 bufferLen))
    pure (memory, insertPoint + 4)
  else pure (memory, insertPoint)

/-- The tail that `addField` computes before it validates the key. -/
def newTailOffset (msg : OmnmPayloadImpl) (type : UInt8) (name : Option CString)
    (bufferLen : Nat) : Nat :=
  let nameLen := asInt32 (strlenEx name + 1)
  let offset := asSize (msg.mPayloadBufferTail + fieldTypeWidth + fidWidth + nameLen + bufferLen)
  if isFieldTypeSized type then asSize (offset + lengthWidth) else offset

/-- `OmnmPayloadImpl::addField`. The result of the allocation is not checked. -/
def addField (allocator : Allocator) (msg : OmnmPayloadImpl) (type : UInt8) (name : Option CString)
    (fid : UInt16) (buffer : Option (List UInt8)) :
    Traced Region (MamaStatus × OmnmPayloadImpl) :=
  let bytes := buffer.getD []
  if uint32Max < bytes.length then pure (.invalidArg, msg)
  else if bytes = [] ∨ (name = none ∧ fid = 0) then pure (.nullArg, msg)
  else
    match validateNameFid name fid with
    | some status => pure (status, msg)
    | none => do
        let tail := newTailOffset msg type name bytes.length
        let memory := (allocateBufferMemory allocator msg.mPayloadBuffer tail).buffer
        let insertPoint := msg.mPayloadBufferTail
        let memory ← store .message memory insertPoint [type]
        let insertPoint := insertPoint + fieldTypeWidth
        let memory ← store .message memory insertPoint (littleEndian 2 fid.toNat)
        let insertPoint := insertPoint + fidWidth
        let (memory, insertPoint) ←
          insertName memory insertPoint name (asInt32 (strlenEx name + 1))
        let (memory, insertPoint) ← insertLength memory insertPoint type bytes.length
        let memory ← store .message memory insertPoint bytes
        pure (.ok, { msg with mPayloadBuffer := memory, mPayloadBufferTail := tail })

/-! ## Updating a field -/

/-- A pointer into a buffer that was moved, after `updateField` has re-applied
its offset. NULL has no offset and becomes an address of no meaning. -/
def reapplyOffset (moved : Bool) (pointer : BufferPtr) : BufferPtr :=
  match moved, pointer with
  | true, .null => .stray
  | _, pointer => pointer

/-- The move in `updateField`: grow the buffer when the data grows, move what
follows the field, and set the tail. The size of a buffer in memory and a
difference of data lengths stay in the range of `size_t` together. -/
def moveRest (allocator : Allocator) (msg : OmnmPayloadImpl) (field : OmnmFieldImpl)
    (data bufferLen : Nat) : Traced Region (OmnmPayloadImpl × OmnmFieldImpl) := do
  let delta := asInt64 bufferLen - asInt64 field.mSize
  let nextByteOffset := asSize (data + field.mSize)
  let allocation :=
    if 0 < delta then
      allocateBufferMemory allocator msg.mPayloadBuffer (msg.mPayloadBufferSize + delta).toNat
    else ⟨true, msg.mPayloadBuffer, false⟩
  let field := { field with
    mName := reapplyOffset allocation.moved field.mName
    mData := reapplyOffset allocation.moved field.mData }
  let target := asSize (nextByteOffset + delta)
  let size := asUInt32 (msg.mPayloadBufferTail - nextByteOffset)
  let memory ← move .message allocation.buffer target nextByteOffset size
  let tail := asSize (asInt32 msg.mPayloadBufferTail + delta)
  pure ({ msg with mPayloadBuffer := memory, mPayloadBufferTail := tail }, field)

/-- The part of `updateField` for data of another length. -/
def resizeField (allocator : Allocator) (msg : OmnmPayloadImpl) (field : OmnmFieldImpl)
    (data bufferLen : Nat) : Traced Region (OmnmPayloadImpl × OmnmFieldImpl) :=
  if bufferLen ≠ field.mSize then moveRest allocator msg field data bufferLen
  else pure (msg, field)

/-- The length part of `updateField`: the length in front of the data of a sized
type. -/
def rewriteLength (memory : List UInt8) (type : UInt8) (data bufferLen : Nat) :
    Traced Region (List UInt8) :=
  if isFieldTypeSized type = false then pure memory
  else if data < 4 then Traced.fault
  else store .message memory (data - 4) (littleEndian 4 (asUInt32 bufferLen))

/-- `OmnmPayloadImpl::updateField` of a field that was located before, with the
field handle it leaves. -/
def updateFieldHandle (allocator : Allocator) (msg : OmnmPayloadImpl) (type : UInt8)
    (field : OmnmFieldImpl) (buffer : Option (List UInt8)) :
    Traced Region (MamaStatus × OmnmPayloadImpl × OmnmFieldImpl) :=
  match buffer with
  | none => pure (.nullArg, msg, field)
  | some bytes =>
      if field.mFieldType ≠ type ∧ areFieldTypesCastable field.mFieldType type = false then
        pure (.wrongFieldType, msg, field)
      else
        match field.mData with
        | .null | .stray => Traced.fault
        | .offset data => do
            let (msg, field) ← resizeField allocator msg field data bytes.length
            let memory ← rewriteLength msg.mPayloadBuffer field.mFieldType data bytes.length
            let memory ← store .message memory data bytes
            pure (.ok, { msg with mPayloadBuffer := memory }, field)

/-- `OmnmPayloadImpl::updateField` by key. -/
def updateField (allocator : Allocator) (msg : OmnmPayloadImpl) (type : UInt8)
    (name : Option CString) (fid : UInt16) (buffer : Option (List UInt8)) :
    Traced Region (MamaStatus × OmnmPayloadImpl) :=
  if buffer = none ∨ (name = none ∧ fid = 0) then pure (.nullArg, msg)
  else do
    let found ← findFieldInBuffer msg name fid
    match found with
    | none => addField allocator msg type name fid buffer
    | some field =>
        if field.mFieldType ≠ type ∧ areFieldTypesCastable field.mFieldType type = false then
          pure (.wrongFieldType, msg)
        else do
          let (status, msg, _) ← updateFieldHandle allocator msg type field buffer
          pure (status, msg)

end OmnmPayloadImpl

end Omnm
