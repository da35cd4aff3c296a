import Omnm.Payload.Fields

/-!
# The public mutators

The public functions that add or update a field turn their value into bytes and
hand these to `addField` or `updateField` under the tag of a type. They come in
families that the source writes as macros: scalars, vectors of scalars, and
vectors that are assembled in the scratch buffer first.

A value that C passes by pointer is an `Option`, with no value for NULL. Scalars
are given by their bits. What the MAMA library knows about a message, a
date-time or a price is a record of what its accessors return. The payload
argument itself is never NULL here.

In the family of scalar vectors, an update that looks its field up may pass on a
local field that nothing has written. What the stack holds there is part of the
memory a call gets (`CallMemory.uninitialised`).
-/

set_option autoImplicit false

namespace Omnm

open FieldTypeTags (tag)

/-- The memory a call gets: for the payload buffer, for the scratch buffer, and
what a local field holds before it is written. -/
structure CallMemory where
  payload : Allocator
  scratch : Allocator
  uninitialised : OmnmFieldImpl

/-- Allocations of the call succeed. -/
structure CallMemory.Succeeds (memory : CallMemory) : Prop where
  payload : memory.payload.Succeeds
  scratch : memory.scratch.Succeeds

/-- Memory that grows to the size asked for with zero bytes, in place. -/
def CallMemory.zeroing : CallMemory := ⟨.zeroing, .zeroing, OmnmFieldImpl.zeroed⟩

theorem CallMemory.zeroing_succeeds : CallMemory.zeroing.Succeeds :=
  ⟨Allocator.zeroing_succeeds, Allocator.zeroing_succeeds⟩

/-- What the mutators return. -/
abbrev Mutated := Traced Region (MamaStatus × OmnmPayloadImpl)

/-- A mutator: the memory it gets, the payload, the key and the value. -/
abbrev Mutator (Value : Type) :=
  CallMemory → OmnmPayloadImpl → Option CString → UInt16 → Value → Mutated

variable [FieldTypeTags]

/-! ## Scalars -/

/-- `ADD_SCALAR_FIELD`. -/
def addScalarField (type : MamaFieldType) (size : Nat) : Mutator Nat :=
  fun memory msg name fid value =>
    msg.addField memory.payload (tag type) name fid (some (littleEndian size value))

def omnmmsgPayload_addBool : Mutator Nat := addScalarField .bool 1
def omnmmsgPayload_addChar : Mutator Nat := addScalarField .char 1
def omnmmsgPayload_addI8 : Mutator Nat := addScalarField .i8 1
def omnmmsgPayload_addU8 : Mutator Nat := addScalarField .u8 1
def omnmmsgPayload_addI16 : Mutator Nat := addScalarField .i16 2
def omnmmsgPayload_addU16 : Mutator Nat := addScalarField .u16 2
def omnmmsgPayload_addI32 : Mutator Nat := addScalarField .i32 4
def omnmmsgPayload_addU32 : Mutator Nat := addScalarField .u32 4
def omnmmsgPayload_addI64 : Mutator Nat := addScalarField .i64 8
def omnmmsgPayload_addU64 : Mutator Nat := addScalarField .u64 8
def omnmmsgPayload_addF32 : Mutator Nat := addScalarField .f32 4
def omnmmsgPayload_addF64 : Mutator Nat := addScalarField .f64 8

/-- `UPDATE_SCALAR_FIELD`. -/
def updateScalarField (type : MamaFieldType) (size : Nat) : Mutator Nat :=
  fun memory msg name fid value =>
    msg.updateField memory.payload (tag type) name fid (some (littleEndian size value))

def omnmmsgPayload_updateBool : Mutator Nat := updateScalarField .bool 1
def omnmmsgPayload_updateChar : Mutator Nat := updateScalarField .char 1
def omnmmsgPayload_updateI8 : Mutator Nat := updateScalarField .i8 1
def omnmmsgPayload_updateU8 : Mutator Nat := updateScalarField .u8 1
def omnmmsgPayload_updateI16 : Mutator Nat := updateScalarField .i16 2
def omnmmsgPayload_updateU16 : Mutator Nat := updateScalarField .u16 2
def omnmmsgPayload_updateI32 : Mutator Nat := updateScalarField .i32 4
def omnmmsgPayload_updateU32 : Mutator Nat := updateScalarField .u32 4
def omnmmsgPayload_updateI64 : Mutator Nat := updateScalarField .i64 8
def omnmmsgPayload_updateU64 : Mutator Nat := updateScalarField .u64 8
def omnmmsgPayload_updateF32 : Mutator Nat := updateScalarField .f32 4
def omnmmsgPayload_updateF64 : Mutator Nat := updateScalarField .f64 8

/-! ## Vectors of scalars -/

/-- The elements of a vector in memory. -/
def vectorBytes (size : Nat) (values : List Nat) : List UInt8 := values.flatMap (littleEndian size)

omit [FieldTypeTags] in
theorem length_vectorBytes (size : Nat) (values : List Nat) :
    (vectorBytes size values).length = size * values.length := by
  induction values with
  | nil => rfl
  | cons value values ih =>
      rw [vectorBytes, List.flatMap_cons, List.length_append, ← vectorBytes, ih,
        length_littleEndian, List.length_cons, Nat.mul_succ, Nat.add_comm]

/-- `ADD_SCALAR_VECTOR`. -/
def addScalarVector (type : MamaFieldType) (size : Nat) : Mutator (Option (List Nat)) :=
  fun memory msg name fid value =>
    match value with
    | none => pure (.nullArg, msg)
    | some values =>
        if name = none ∧ fid = 0 then pure (.nullArg, msg)
        else msg.addField memory.payload (tag type) name fid (some (vectorBytes size values))

def omnmmsgPayload_addVectorBool : Mutator (Option (List Nat)) := addScalarVector .vectorBool 1
def omnmmsgPayload_addVectorChar : Mutator (Option (List Nat)) := addScalarVector .vectorChar 1
def omnmmsgPayload_addVectorI8 : Mutator (Option (List Nat)) := addScalarVector .vectorI8 1
def omnmmsgPayload_addVectorU8 : Mutator (Option (List Nat)) := addScalarVector .vectorU8 1
def omnmmsgPayload_addVectorI16 : Mutator (Option (List Nat)) := addScalarVector .vectorI16 2
def omnmmsgPayload_addVectorU16 : Mutator (Option (List Nat)) := addScalarVector .vectorU16 2
def omnmmsgPayload_addVectorI32 : Mutator (Option (List Nat)) := addScalarVector .vectorI32 4
def omnmmsgPayload_addVectorU32 : Mutator (Option (List Nat)) := addScalarVector .vectorU32 4
def omnmmsgPayload_addVectorI64 : Mutator (Option (List Nat)) := addScalarVector .vectorI64 8
def omnmmsgPayload_addVectorU64 : Mutator (Option (List Nat)) := addScalarVector .vectorU64 8
def omnmmsgPayload_addVectorF32 : Mutator (Option (List Nat)) := addScalarVector .vectorF32 4
def omnmmsgPayload_addVectorF64 : Mutator (Option (List Nat)) := addScalarVector .vectorF64 8

/-- `UPDATE_SCALAR_VECTOR`: the status is that of the lookup, whatever becomes of
the update. -/
def updateScalarVector (type : MamaFieldType) (size : Nat) : Mutator (Option (List Nat)) :=
  fun memory msg name fid value =>
    match value with
    | none => pure (.nullArg, msg)
    | some values =>
        if name = none ∧ fid = 0 then pure (.nullArg, msg)
        else do
          let (status, found) ← msg.getField name fid
          if status = .notFound then addScalarVector type size memory msg name fid (some values)
          else do
            let field := found.getD memory.uninitialised
            let (_, msg, _) ← msg.updateFieldHandle memory.payload (tag type) field
              (some (vectorBytes size values))
            pure (status, msg)

def omnmmsgPayload_updateVectorBool : Mutator (Option (List Nat)) :=
  updateScalarVector .vectorBool 1
def omnmmsgPayload_updateVectorChar : Mutator (Option (List Nat)) :=
  updateScalarVector .vectorChar 1
def omnmmsgPayload_updateVectorI8 : Mutator (Option (List Nat)) := updateScalarVector .vectorI8 1
def omnmmsgPayload_updateVectorU8 : Mutator (Option (List Nat)) := updateScalarVector .vectorU8 1
def omnmmsgPayload_updateVectorI16 : Mutator (Option (List Nat)) := updateScalarVector .vectorI16 2
def omnmmsgPayload_updateVectorU16 : Mutator (Option (List Nat)) := updateScalarVector .vectorU16 2
def omnmmsgPayload_updateVectorI32 : Mutator (Option (List Nat)) := updateScalarVector .vectorI32 4
def omnmmsgPayload_updateVectorU32 : Mutator (Option (List Nat)) := updateScalarVector .vectorU32 4
def omnmmsgPayload_updateVectorI64 : Mutator (Option (List Nat)) := updateScalarVector .vectorI64 8
def omnmmsgPayload_updateVectorU64 : Mutator (Option (List Nat)) := updateScalarVector .vectorU64 8
def omnmmsgPayload_updateVectorF32 : Mutator (Option (List Nat)) := updateScalarVector .vectorF32 4
def omnmmsgPayload_updateVectorF64 : Mutator (Option (List Nat)) := updateScalarVector .vectorF64 8

/-! ## Strings, opaque bytes, date-times and prices -/

def omnmmsgPayload_addString : Mutator (Option CString) := fun memory msg name fid str =>
  match str with
  | none => pure (.nullArg, msg)
  | some str => msg.addField memory.payload (tag .string) name fid (some str.terminated)

def omnmmsgPayload_updateString : Mutator (Option CString) := fun memory msg name fid str =>
  match str with
  | none => pure (.nullArg, msg)
  | some str => msg.updateField memory.payload (tag .string) name fid (some str.terminated)

def omnmmsgPayload_addOpaque : Mutator (Option (List UInt8)) := fun memory msg name fid bytes =>
  match bytes with
  | none => pure (.nullArg, msg)
  | some bytes => msg.addField memory.payload (tag .opaqueField) name fid (some bytes)

def omnmmsgPayload_updateOpaque : Mutator (Option (List UInt8)) := fun memory msg name fid bytes =>
  match bytes with
  | none => pure (.nullArg, msg)
  | some bytes => msg.updateField memory.payload (tag .opaqueField) name fid (some bytes)

/-- What `mamaDateTime_getWithHints` gives. -/
structure MamaDateTime where
  seconds : UInt32
  microseconds : UInt32
  precision : UInt8
  hints : UInt8
  deriving DecidableEq, Repr

/-- What `mamaPrice_getValue` and `mamaPrice_getHints` give, the value by its bits. -/
structure MamaPrice where
  value : UInt64
  hints : UInt8
  deriving DecidableEq, Repr

/-- `OmnmPayloadImpl::convertMamaDateTimeToOmnmDateTime`, as the bytes of the
`omnmDateTime`: hints, padding, seconds, nanoseconds, precision, and zeros for
the time zone and the padding behind it. -/
def convertMamaDateTimeToOmnmDateTime (source : MamaDateTime) : List UInt8 :=
  [source.hints] ++ List.replicate 7 0 ++ littleEndian 8 source.seconds.toNat ++
    littleEndian 4 (source.microseconds.toNat * 1000) ++ [source.precision] ++ List.replicate 19 0

/-- `OmnmPayloadImpl::convertMamaPriceToOmnmPrice`, as the bytes of the
`omnmPrice`: hints, padding, value, and zeros for the currency and the padding
behind it. -/
def convertMamaPriceToOmnmPrice (source : MamaPrice) : List UInt8 :=
  [source.hints] ++ List.replicate 7 0 ++ littleEndian 8 source.value.toNat ++ List.replicate 8 0

def omnmmsgPayload_updateDateTime : Mutator (Option MamaDateTime) :=
  fun memory msg name fid value =>
    match value with
    | none => pure (.nullArg, msg)
    | some value =>
        msg.updateField memory.payload (tag .time) name fid
          (some (convertMamaDateTimeToOmnmDateTime value))

/-- An alias of the update. -/
def omnmmsgPayload_addDateTime : Mutator (Option MamaDateTime) := omnmmsgPayload_updateDateTime

def omnmmsgPayload_updatePrice : Mutator (Option MamaPrice) := fun memory msg name fid value =>
  match value with
  | none => pure (.nullArg, msg)
  | some value =>
      msg.updateField memory.payload (tag .price) name fid (some (convertMamaPriceToOmnmPrice value))

/-- An alias of the update. -/
def omnmmsgPayload_addPrice : Mutator (Option MamaPrice) := omnmmsgPayload_updatePrice

/-! ## Messages -/

/-- What the MAMA library knows about a message: the answer of
`mamaMsgImpl_getPayload`, and the bytes of `mamaMsg_getByteBuffer`, whose number
`mamaMsg_getByteSize` gives. -/
structure MamaMsg where
  payload : Except MamaStatus OmnmPayloadImpl
  byteBuffer : List UInt8

/-- `OmnmPayloadImpl::updateSubMsg`. A payload of NULL is not serialised, and NULL
is passed on. -/
def OmnmPayloadImpl.updateSubMsg : Mutator (Option OmnmPayloadImpl) :=
  fun memory msg name fid value =>
    msg.updateField memory.payload (tag .msg) name fid (value.map OmnmPayloadImpl.serialized)

def omnmmsgPayload_addMsg : Mutator (Option MamaMsg) := fun memory msg name fid value =>
  match value with
  | none => pure (.nullArg, msg)
  | some value =>
      match value.payload with
      | .error status => pure (status, msg)
      | .ok payload => msg.addField memory.payload (tag .msg) name fid (some payload.serialized)

def omnmmsgPayload_updateSubMsg : Mutator (Option MamaMsg) := fun memory msg name fid value =>
  match value with
  | none => pure (.nullArg, msg)
  | some value =>
      match value.payload with
      | .error status => pure (status, msg)
      | .ok payload => msg.updateSubMsg memory name fid (some payload)

/-! ## Vectors built in the scratch buffer -/

/-- The copies of a vector's elements into the scratch buffer, one behind the
other. -/
def copyElements (mBuffer : List UInt8) (target : Nat) :
    List (List UInt8) → Traced Region (List UInt8)
  | [] => pure mBuffer
  | element :: elements => do
      let mBuffer ← store .scratch mBuffer target element
      copyElements mBuffer (target + element.length) elements

/-- The copies of messages into the scratch buffer, each behind its length. A
message that is too long ends them with a status. -/
def copyMessages (mBuffer : List UInt8) (target : Nat) :
    List (List UInt8) → Traced Region (Option MamaStatus × List UInt8)
  | [] => pure (none, mBuffer)
  | bytes :: messages =>
      if uint32Max < bytes.length then pure (some .invalidArg, mBuffer)
      else do
        let mBuffer ← store .scratch mBuffer target (littleEndian 4 bytes.length)
        let mBuffer ← store .scratch mBuffer (target + 4) bytes
        copyMessages mBuffer (target + 4 + bytes.length) messages

/-- The scratch buffer as an argument of a given length. It is NULL until memory
was allocated for it. -/
def scratchArgument (mBuffer : List UInt8) (length : Nat) : Traced Region (Option (List UInt8)) :=
  if mBuffer = [] then pure none
  else do
    let bytes ← loadBytes .scratch mBuffer 0 length
    pure (some bytes)

/-- The bytes a vector of elements needs. -/
def elementsLength (elements : List (List UInt8)) : Nat := (elements.map List.length).sum

/-- The bytes a vector of messages needs. -/
def messagesLength (messages : List (List UInt8)) : Nat :=
  (messages.map fun bytes => bytes.length + 4).sum

/-- `omnmmsgPayload_addVectorString`. The field gets the whole scratch buffer. -/
def omnmmsgPayload_addVectorString : Mutator (Option (List CString)) :=
  fun memory msg name fid value =>
    match validateNameFid name fid with
    | some status => pure (status, msg)
    | none =>
        match value with
        | none => pure (.nullArg, msg)
        | some strings => do
            let elements := strings.map CString.terminated
            let bytesRequired := elementsLength elements
            let scratch := (allocateBufferMemory memory.scratch msg.mBuffer bytesRequired).buffer
            let mBuffer ← copyElements scratch 0 elements
            let data ← scratchArgument mBuffer mBuffer.length
            let msg := { msg with mBuffer }
            msg.addField memory.payload (tag .vectorString) name fid data

/-- The vectors that are updated from elements in the scratch buffer. -/
def updateVectorElements (type : MamaFieldType) : Mutator (Option (List (List UInt8))) :=
  fun memory msg name fid value =>
    match validateNameFid name fid with
    | some status => pure (status, msg)
    | none =>
        match value with
        | none => pure (.nullArg, msg)
        | some elements => do
            let bytesRequired := elementsLength elements
            let scratch := (allocateBufferMemory memory.scratch msg.mBuffer bytesRequired).buffer
            let mBuffer ← copyElements scratch 0 elements
            let data ← scratchArgument mBuffer bytesRequired
            let msg := { msg with mBuffer }
            msg.updateField memory.payload (tag type) name fid data

def omnmmsgPayload_updateVectorString : Mutator (Option (List CString)) :=
  fun memory msg name fid value =>
    updateVectorElements .vectorString memory msg name fid
      (value.map (List.map CString.terminated))

def omnmmsgPayload_updateVectorPrice : Mutator (Option (List MamaPrice)) :=
  fun memory msg name fid value =>
    updateVectorElements .vectorPrice memory msg name fid
      (value.map (List.map convertMamaPriceToOmnmPrice))

def omnmmsgPayload_updateVectorTime : Mutator (Option (List MamaDateTime)) :=
  fun memory msg name fid value =>
    updateVectorElements .vectorTime memory msg name fid
      (value.map (List.map convertMamaDateTimeToOmnmDateTime))

/-- An alias of the update. -/
def omnmmsgPayload_addVectorPrice : Mutator (Option (List MamaPrice)) :=
  omnmmsgPayload_updateVectorPrice

/-- An alias of the update. -/
def omnmmsgPayload_addVectorDateTime : Mutator (Option (List MamaDateTime)) :=
  omnmmsgPayload_updateVectorTime

/-- The vectors that are updated from messages in the scratch buffer. -/
def updateVectorMessages : Mutator (Option (List (List UInt8))) :=
  fun memory msg name fid value =>
    match validateNameFid name fid with
    | some status => pure (status, msg)
    | none =>
        match value with
        | none => pure (.nullArg, msg)
        | some messages => do
            let bytesRequired := messagesLength messages
            let scratch := (allocateBufferMemory memory.scratch msg.mBuffer bytesRequired).buffer
            let (stopped, mBuffer) ← copyMessages scratch 0 messages
            let msg := { msg with mBuffer }
            match stopped with
            | some status => pure (status, msg)
            | none => do
                let data ← scratchArgument mBuffer bytesRequired
                msg.updateField memory.payload (tag .vectorMsg) name fid data

def omnmmsgPayload_updateVectorMsg : Mutator (Option (List MamaMsg)) :=
  fun memory msg name fid value =>
    updateVectorMessages memory msg name fid (value.map (List.map MamaMsg.byteBuffer))

def omnmmsgPayloadImpl_updateVectorMsgPayload : Mutator (Option (List OmnmPayloadImpl)) :=
  fun memory msg name fid value =>
    updateVectorMessages memory msg name fid (value.map (List.map OmnmPayloadImpl.serialized))

/-- An alias of the update. -/
def omnmmsgPayload_addVectorMsg : Mutator (Option (List MamaMsg)) :=
  omnmmsgPayload_updateVectorMsg

end Omnm
