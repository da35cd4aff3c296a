import Omnm.Payload.Mutators

/-!
# Calls and the mutations they come down to

A call of a public mutator, as a value: `FieldRequest` names the function and
its value argument, `PayloadCall` adds the key and the memory, and the two calls
that replace the whole content.

Every request comes down to one mutation of the message. `prepare` is the part
in front of it, which checks the value and builds vectors in the scratch buffer;
it sees neither the message nor its header. `FieldRequest.perform_eq` says that
the source's functions are this preparation followed by the mutation.
-/

set_option autoImplicit false

namespace Omnm

open FieldTypeTags (tag)

/-! ## Requests -/

/-- The scalar types of the public functions. -/
inductive ScalarType where
  | bool | char | i8 | u8 | i16 | u16 | i32 | u32 | i64 | u64 | f32 | f64
  deriving DecidableEq, Repr

namespace ScalarType

/-- The type of a field that holds one. -/
def fieldType : ScalarType → MamaFieldType
  | bool => .bool | char => .char | i8 => .i8 | u8 => .u8 | i16 => .i16 | u16 => .u16
  | i32 => .i32 | u32 => .u32 | i64 => .i64 | u64 => .u64 | f32 => .f32 | f64 => .f64

/-- The type of a field that holds a vector of them. -/
def vectorFieldType : ScalarType → MamaFieldType
  | bool => .vectorBool | char => .vectorChar | i8 => .vectorI8 | u8 => .vectorU8
  | i16 => .vectorI16 | u16 => .vectorU16 | i32 => .vectorI32 | u32 => .vectorU32
  | i64 => .vectorI64 | u64 => .vectorU64 | f32 => .vectorF32 | f64 => .vectorF64

/-- The size of one in memory. -/
def size : ScalarType → Nat
  | bool | char | i8 | u8 => 1
  | i16 | u16 => 2
  | i32 | u32 | f32 => 4
  | i64 | u64 | f64 => 8

theorem size_pos (scalar : ScalarType) : 0 < scalar.size := by
  cases scalar <;> decide

theorem size_le (scalar : ScalarType) : scalar.size ≤ 8 := by
  cases scalar <;> decide

end ScalarType

/-- The public functions that add or update a field, with their value. -/
inductive FieldRequest where
  | addScalar (scalar : ScalarType) (value : Nat)
  | updateScalar (scalar : ScalarType) (value : Nat)
  | addVectorScalar (scalar : ScalarType) (value : Option (List Nat))
  | updateVectorScalar (scalar : ScalarType) (value : Option (List Nat))
  | addString (value : Option CString)
  | updateString (value : Option CString)
  | addOpaque (value : Option (List UInt8))
  | updateOpaque (value : Option (List UInt8))
  | addDateTime (value : Option MamaDateTime)
  | updateDateTime (value : Option MamaDateTime)
  | addPrice (value : Option MamaPrice)
  | updatePrice (value : Option MamaPrice)
  | addMsg (value : Option MamaMsg)
  | updateSubMsg (value : Option MamaMsg)
  | addVectorString (value : Option (List CString))
  | updateVectorString (value : Option (List CString))
  | addVectorMsg (value : Option (List MamaMsg))
  | updateVectorMsg (value : Option (List MamaMsg))
  | updateVectorMsgPayload (value : Option (List OmnmPayloadImpl))
  | addVectorDateTime (value : Option (List MamaDateTime))
  | updateVectorTime (value : Option (List MamaDateTime))
  | addVectorPrice (value : Option (List MamaPrice))
  | updateVectorPrice (value : Option (List MamaPrice))

/-- The calls that change a payload: a request under a key, or a new content. -/
inductive PayloadCall where
  | field (memory : CallMemory) (name : Option CString) (fid : UInt16) (request : FieldRequest)
  | clear
  | unSerialize (memory : CallMemory) (buffer : Option Incoming) (length : Nat)

/-- The bytes of the scratch buffer that a vector needs, for the requests that build one
there. -/
def FieldRequest.bytesRequired : FieldRequest → Option Nat
  | .addVectorString value | .updateVectorString value =>
      value.map fun strings => elementsLength (strings.map CString.terminated)
  | .addVectorMsg value | .updateVectorMsg value =>
      value.map fun messages => messagesLength (messages.map MamaMsg.byteBuffer)
  | .updateVectorMsgPayload value =>
      value.map fun payloads => messagesLength (payloads.map OmnmPayloadImpl.serialized)
  | .addVectorDateTime value | .updateVectorTime value =>
      value.map fun values => elementsLength (values.map convertMamaDateTimeToOmnmDateTime)
  | .addVectorPrice value | .updateVectorPrice value =>
      value.map fun values => elementsLength (values.map convertMamaPriceToOmnmPrice)
  | _ => none

/-! ## Mutations -/

/-- What a request does to the message once its value is known. -/
inductive Mutation where
  | refuse (status : MamaStatus)
  | add (type : MamaFieldType) (data : Option (List UInt8))
  | update (type : MamaFieldType) (data : Option (List UInt8))
  | updateVector (type : MamaFieldType) (bytes : List UInt8)
  deriving DecidableEq

variable [FieldTypeTags]

/-- Add or update a field, or nothing. The last case is what `UPDATE_SCALAR_VECTOR`
does with a key that is not NULL. -/
def Mutation.perform (memory : CallMemory) (msg : OmnmPayloadImpl) (name : Option CString)
    (fid : UInt16) : Mutation → Mutated
  | .refuse status => pure (status, msg)
  | .add type data => msg.addField memory.payload (tag type) name fid data
  | .update type data => msg.updateField memory.payload (tag type) name fid data
  | .updateVector type bytes => do
      let (status, found) ← msg.getField name fid
      if status = .notFound then msg.addField memory.payload (tag type) name fid (some bytes)
      else do
        let (_, msg, _) ← msg.updateFieldHandle memory.payload (tag type)
          (found.getD memory.uninitialised) (some bytes)
        pure (status, msg)

/-! ## Performing a request -/

namespace ScalarType

def omnmmsgPayload_add : ScalarType → Mutator Nat
  | bool => omnmmsgPayload_addBool
  | char => omnmmsgPayload_addChar
  | i8 => omnmmsgPayload_addI8
  | u8 => omnmmsgPayload_addU8
  | i16 => omnmmsgPayload_addI16
  | u16 => omnmmsgPayload_addU16
  | i32 => omnmmsgPayload_addI32
  | u32 => omnmmsgPayload_addU32
  | i64 => omnmmsgPayload_addI64
  | u64 => omnmmsgPayload_addU64
  | f32 => omnmmsgPayload_addF32
  | f64 => omnmmsgPayload_addF64

def omnmmsgPayload_update : ScalarType → Mutator Nat
  | bool => omnmmsgPayload_updateBool
  | char => omnmmsgPayload_updateChar
  | i8 => omnmmsgPayload_updateI8
  | u8 => omnmmsgPayload_updateU8
  | i16 => omnmmsgPayload_updateI16
  | u16 => omnmmsgPayload_updateU16
  | i32 => omnmmsgPayload_updateI32
  | u32 => omnmmsgPayload_updateU32
  | i64 => omnmmsgPayload_updateI64
  | u64 => omnmmsgPayload_updateU64
  | f32 => omnmmsgPayload_updateF32
  | f64 => omnmmsgPayload_updateF64

def omnmmsgPayload_addVector : ScalarType → Mutator (Option (List Nat))
  | bool => omnmmsgPayload_addVectorBool
  | char => omnmmsgPayload_addVectorChar
  | i8 => omnmmsgPayload_addVectorI8
  | u8 => omnmmsgPayload_addVectorU8
  | i16 => omnmmsgPayload_addVectorI16
  | u16 => omnmmsgPayload_addVectorU16
  | i32 => omnmmsgPayload_addVectorI32
  | u32 => omnmmsgPayload_addVectorU32
  | i64 => omnmmsgPayload_addVectorI64
  | u64 => omnmmsgPayload_addVectorU64
  | f32 => omnmmsgPayload_addVectorF32
  | f64 => omnmmsgPayload_addVectorF64

def omnmmsgPayload_updateVector : ScalarType → Mutator (Option (List Nat))
  | bool => omnmmsgPayload_updateVectorBool
  | char => omnmmsgPayload_updateVectorChar
  | i8 => omnmmsgPayload_updateVectorI8
  | u8 => omnmmsgPayload_updateVectorU8
  | i16 => omnmmsgPayload_updateVectorI16
  | u16 => omnmmsgPayload_updateVectorU16
  | i32 => omnmmsgPayload_updateVectorI32
  | u32 => omnmmsgPayload_updateVectorU32
  | i64 => omnmmsgPayload_updateVectorI64
  | u64 => omnmmsgPayload_updateVectorU64
  | f32 => omnmmsgPayload_updateVectorF32
  | f64 => omnmmsgPayload_updateVectorF64

/-- The members of the four families differ in their type and its size only. -/
theorem mutators_eq (scalar : ScalarType) :
    scalar.omnmmsgPayload_add = addScalarField scalar.fieldType scalar.size ∧
      scalar.omnmmsgPayload_update = updateScalarField scalar.fieldType scalar.size ∧
      scalar.omnmmsgPayload_addVector = addScalarVector scalar.vectorFieldType scalar.size ∧
      scalar.omnmmsgPayload_updateVector =
        updateScalarVector scalar.vectorFieldType scalar.size := by
  cases scalar <;> exact ⟨rfl, rfl, rfl, rfl⟩

end ScalarType

/-- The public function of a request. -/
def FieldRequest.perform (memory : CallMemory) (msg : OmnmPayloadImpl) (name : Option CString)
    (fid : UInt16) : FieldRequest → Mutated
  | .addScalar scalar value => scalar.omnmmsgPayload_add memory msg name fid value
  | .updateScalar scalar value => scalar.omnmmsgPayload_update memory msg name fid value
  | .addVectorScalar scalar value => scalar.omnmmsgPayload_addVector memory msg name fid value
  | .updateVectorScalar scalar value =>
      scalar.omnmmsgPayload_updateVector memory msg name fid value
  | .addString value => omnmmsgPayload_addString memory msg name fid value
  | .updateString value => omnmmsgPayload_updateString memory msg name fid value
  | .addOpaque value => omnmmsgPayload_addOpaque memory msg name fid value
  | .updateOpaque value => omnmmsgPayload_updateOpaque memory msg name fid value
  | .addDateTime value => omnmmsgPayload_addDateTime memory msg name fid value
  | .updateDateTime value => omnmmsgPayload_updateDateTime memory msg name fid value
  | .addPrice value => omnmmsgPayload_addPrice memory msg name fid value
  | .updatePrice value => omnmmsgPayload_updatePrice memory msg name fid value
  | .addMsg value => omnmmsgPayload_addMsg memory msg name fid value
  | .updateSubMsg value => omnmmsgPayload_updateSubMsg memory msg name fid value
  | .addVectorString value => omnmmsgPayload_addVectorString memory msg name fid value
  | .updateVectorString value => omnmmsgPayload_updateVectorString memory msg name fid value
  | .addVectorMsg value => omnmmsgPayload_addVectorMsg memory msg name fid value
  | .updateVectorMsg value => omnmmsgPayload_updateVectorMsg memory msg name fid value
  | .updateVectorMsgPayload value =>
      omnmmsgPayloadImpl_updateVectorMsgPayload memory msg name fid value
  | .addVectorDateTime value => omnmmsgPayload_addVectorDateTime memory msg name fid value
  | .updateVectorTime value => omnmmsgPayload_updateVectorTime memory msg name fid value
  | .addVectorPrice value => omnmmsgPayload_addVectorPrice memory msg name fid value
  | .updateVectorPrice value => omnmmsgPayload_updateVectorPrice memory msg name fid value

/-- A call on a payload. -/
def PayloadCall.perform (msg : OmnmPayloadImpl) : PayloadCall → Mutated
  | .field memory name fid request => request.perform memory msg name fid
  | .clear => msg.clear
  | .unSerialize memory buffer length =>
      omnmmsgPayload_unSerialize memory.payload msg buffer length

/-- A payload as a system of calls. -/
def payloadCallStep (msg : OmnmPayloadImpl) (call : PayloadCall) :
    Option (MamaStatus × OmnmPayloadImpl) :=
  (call.perform msg).result

/-! ## Preparing a mutation -/

/-- A pointer argument that is not NULL goes on to a mutation. -/
def ofPointer {Value : Type} (value : Option Value) (mutation : Value → Mutation) : Mutation :=
  match value with
  | none => .refuse .nullArg
  | some value => mutation value

/-- A vector of scalars under a key that is not NULL goes on to a mutation. -/
def ofScalars (name : Option CString) (fid : UInt16) (size : Nat) (value : Option (List Nat))
    (mutation : List UInt8 → Mutation) : Mutation :=
  ofPointer value fun values =>
    if name = none ∧ fid = 0 then .refuse .nullArg else mutation (vectorBytes size values)

/-- A message whose payload is known goes on to a mutation. -/
def ofMsg (value : Option MamaMsg) (mutation : Option (List UInt8) → Mutation) : Mutation :=
  ofPointer value fun value =>
    match value.payload with
    | .error status => .refuse status
    | .ok payload => mutation (some payload.serialized)

/-- The checks in front of a vector that is built in the scratch buffer. -/
def checked {Value : Type} (mBuffer : List UInt8) (name : Option CString) (fid : UInt16)
    (value : Option Value) (build : Value → Traced Region (Mutation × List UInt8)) :
    Traced Region (Mutation × List UInt8) :=
  match validateNameFid name fid with
  | some status => pure (.refuse status, mBuffer)
  | none =>
      match value with
      | none => pure (.refuse .nullArg, mBuffer)
      | some value => build value

/-- The scratch buffer with a vector of elements in it. -/
def buildElements (memory : CallMemory) (mBuffer : List UInt8) (elements : List (List UInt8)) :
    Traced Region (List UInt8) :=
  copyElements (allocateBufferMemory memory.scratch mBuffer (elementsLength elements)).buffer 0
    elements

/-- Build elements and update a field with them. -/
def prepareElements (memory : CallMemory) (mBuffer : List UInt8) (type : MamaFieldType)
    (elements : List (List UInt8)) : Traced Region (Mutation × List UInt8) := do
  let mBuffer ← buildElements memory mBuffer elements
  let data ← scratchArgument mBuffer (elementsLength elements)
  pure (.update type data, mBuffer)

/-- Build strings and add a field with the whole scratch buffer. -/
def prepareWhole (memory : CallMemory) (mBuffer : List UInt8) (elements : List (List UInt8)) :
    Traced Region (Mutation × List UInt8) := do
  let mBuffer ← buildElements memory mBuffer elements
  let data ← scratchArgument mBuffer mBuffer.length
  pure (.add .vectorString data, mBuffer)

/-- Build messages and update a field with them. -/
def prepareMessages (memory : CallMemory) (mBuffer : List UInt8) (messages : List (List UInt8)) :
    Traced Region (Mutation × List UInt8) := do
  let scratch := (allocateBufferMemory memory.scratch mBuffer (messagesLength messages)).buffer
  let (stopped, mBuffer) ← copyMessages scratch 0 messages
  match stopped with
  | some status => pure (.refuse status, mBuffer)
  | none => do
      let data ← scratchArgument mBuffer (messagesLength messages)
      pure (.update .vectorMsg data, mBuffer)

/-- The mutation a request comes down to, and the scratch buffer it leaves. -/
def FieldRequest.prepare (memory : CallMemory) (mBuffer : List UInt8) (name : Option CString)
    (fid : UInt16) : FieldRequest → Traced Region (Mutation × List UInt8)
  | .addScalar scalar value =>
      pure (.add scalar.fieldType (some (littleEndian scalar.size value)), mBuffer)
  | .updateScalar scalar value =>
      pure (.update scalar.fieldType (some (littleEndian scalar.size value)), mBuffer)
  | .addVectorScalar scalar value =>
      pure (ofScalars name fid scalar.size value fun bytes =>
        .add scalar.vectorFieldType (some bytes), mBuffer)
  | .updateVectorScalar scalar value =>
      pure (ofScalars name fid scalar.size value (.updateVector scalar.vectorFieldType), mBuffer)
  | .addString value =>
      pure (ofPointer value fun value => .add .string (some value.terminated), mBuffer)
  | .updateString value =>
      pure (ofPointer value fun value => .update .string (some value.terminated), mBuffer)
  | .addOpaque value => pure (ofPointer value fun bytes => .add .opaqueField (some bytes), mBuffer)
  | .updateOpaque value =>
      pure (ofPointer value fun bytes => .update .opaqueField (some bytes), mBuffer)
  | .addDateTime value | .updateDateTime value =>
      pure (ofPointer value fun value =>
        .update .time (some (convertMamaDateTimeToOmnmDateTime value)), mBuffer)
  | .addPrice value | .updatePrice value =>
      pure (ofPointer value fun value =>
        .update .price (some (convertMamaPriceToOmnmPrice value)), mBuffer)
  | .addMsg value => pure (ofMsg value (.add .msg), mBuffer)
  | .updateSubMsg value => pure (ofMsg value (.update .msg), mBuffer)
  | .addVectorString value =>
      checked mBuffer name fid value fun strings =>
        prepareWhole memory mBuffer (strings.map CString.terminated)
  | .updateVectorString value =>
      checked mBuffer name fid value fun strings =>
        prepareElements memory mBuffer .vectorString (strings.map CString.terminated)
  | .addVectorMsg value | .updateVectorMsg value =>
      checked mBuffer name fid value fun messages =>
        prepareMessages memory mBuffer (messages.map MamaMsg.byteBuffer)
  | .updateVectorMsgPayload value =>
      checked mBuffer name fid value fun payloads =>
        prepareMessages memory mBuffer (payloads.map OmnmPayloadImpl.serialized)
  | .addVectorDateTime value | .updateVectorTime value =>
      checked mBuffer name fid value fun values =>
        prepareElements memory mBuffer .vectorTime (values.map convertMamaDateTimeToOmnmDateTime)
  | .addVectorPrice value | .updateVectorPrice value =>
      checked mBuffer name fid value fun values =>
        prepareElements memory mBuffer .vectorPrice (values.map convertMamaPriceToOmnmPrice)

/-- Every mutation that a request comes down to. -/
def FieldRequest.Each (memory : CallMemory) (mBuffer : List UInt8) (name : Option CString)
    (fid : UInt16) (request : FieldRequest) (holds : Mutation → Prop) : Prop :=
  ∀ mutation scratch,
    (request.prepare memory mBuffer name fid).result = some (mutation, scratch) → holds mutation

/-! ## Requests as mutations -/

section

variable {memory : CallMemory} {msg : OmnmPayloadImpl} {name : Option CString} {fid : UInt16}

theorem addScalarVector_eq (type : MamaFieldType) (size : Nat) (value : Option (List Nat)) :
    addScalarVector type size memory msg name fid value =
      (ofScalars name fid size value fun bytes => .add type (some bytes)).perform memory msg name
        fid := by
  cases value with
  | none => rfl
  | some values =>
      simp only [addScalarVector, ofScalars, ofPointer]
      split <;> rfl

theorem updateScalarVector_eq (type : MamaFieldType) (size : Nat) (value : Option (List Nat)) :
    updateScalarVector type size memory msg name fid value =
      (ofScalars name fid size value (.updateVector type)).perform memory msg name fid := by
  cases value with
  | none => rfl
  | some values =>
      simp only [updateScalarVector, ofScalars, ofPointer]
      split
      · rfl
      · rename_i key
        simp only [addScalarVector, if_neg key]
        rfl

theorem addMsg_eq (value : Option MamaMsg) :
    omnmmsgPayload_addMsg memory msg name fid value =
      (ofMsg value (.add .msg)).perform memory msg name fid := by
  cases value with
  | none => rfl
  | some value =>
      simp only [omnmmsgPayload_addMsg, ofMsg, ofPointer]
      cases value.payload <;> rfl

theorem updateSubMsg_eq (value : Option MamaMsg) :
    omnmmsgPayload_updateSubMsg memory msg name fid value =
      (ofMsg value (.update .msg)).perform memory msg name fid := by
  cases value with
  | none => rfl
  | some value =>
      simp only [omnmmsgPayload_updateSubMsg, ofMsg, ofPointer]
      cases value.payload <;> rfl

/-- A preparation followed by its mutation, on the payload with the new scratch
buffer. -/
def afterPreparing (memory : CallMemory) (msg : OmnmPayloadImpl) (name : Option CString)
    (fid : UInt16) (prepared : Traced Region (Mutation × List UInt8)) : Mutated := do
  let (mutation, mBuffer) ← prepared
  mutation.perform memory { msg with mBuffer } name fid

theorem updateVectorElements_eq (type : MamaFieldType) (value : Option (List (List UInt8))) :
    updateVectorElements type memory msg name fid value =
      afterPreparing memory msg name fid
        (checked msg.mBuffer name fid value (prepareElements memory msg.mBuffer type)) := by
  simp only [updateVectorElements, checked]
  cases validateNameFid name fid with
  | some status => rfl
  | none =>
      cases value with
      | none => rfl
      | some elements =>
          simp only [afterPreparing, prepareElements, buildElements, bind_assoc, pure_bind]
          rfl

theorem updateVectorMessages_eq (value : Option (List (List UInt8))) :
    updateVectorMessages memory msg name fid value =
      afterPreparing memory msg name fid
        (checked msg.mBuffer name fid value (prepareMessages memory msg.mBuffer)) := by
  simp only [updateVectorMessages, checked]
  cases validateNameFid name fid with
  | some status => rfl
  | none =>
      cases value with
      | none => rfl
      | some messages =>
          simp only [afterPreparing, prepareMessages, bind_assoc]
          refine congrArg _ (funext ?_)
          rintro ⟨stopped, mBuffer⟩
          cases stopped with
          | some status => rfl
          | none => simp only [bind_assoc, pure_bind, Mutation.perform]

theorem addVectorString_eq (value : Option (List CString)) :
    omnmmsgPayload_addVectorString memory msg name fid value =
      afterPreparing memory msg name fid (checked msg.mBuffer name fid value fun strings =>
        prepareWhole memory msg.mBuffer (strings.map CString.terminated)) := by
  simp only [omnmmsgPayload_addVectorString, checked]
  cases validateNameFid name fid with
  | some status => rfl
  | none =>
      cases value with
      | none => rfl
      | some strings =>
          simp only [afterPreparing, prepareWhole, buildElements, bind_assoc, pure_bind]
          rfl

omit [FieldTypeTags] in
theorem checked_map {Value Other : Type} (mBuffer : List UInt8) (value : Option Value)
    (change : Value → Other) (build : Other → Traced Region (Mutation × List UInt8)) :
    checked mBuffer name fid (value.map change) build =
      checked mBuffer name fid value fun value => build (change value) := by
  simp only [checked]
  cases validateNameFid name fid <;> cases value <;> rfl

/-- Every request is its preparation followed by its mutation. -/
theorem FieldRequest.perform_eq (request : FieldRequest) :
    request.perform memory msg name fid =
      afterPreparing memory msg name fid (request.prepare memory msg.mBuffer name fid) := by
  cases request with
  | addScalar scalar value => rw [perform, scalar.mutators_eq.1]; rfl
  | updateScalar scalar value => rw [perform, scalar.mutators_eq.2.1]; rfl
  | addVectorScalar scalar value =>
      rw [perform, scalar.mutators_eq.2.2.1, addScalarVector_eq]
      rfl
  | updateVectorScalar scalar value =>
      rw [perform, scalar.mutators_eq.2.2.2, updateScalarVector_eq]
      rfl
  | addString value => cases value <;> rfl
  | updateString value => cases value <;> rfl
  | addOpaque value => cases value <;> rfl
  | updateOpaque value => cases value <;> rfl
  | addDateTime value => cases value <;> rfl
  | updateDateTime value => cases value <;> rfl
  | addPrice value => cases value <;> rfl
  | updatePrice value => cases value <;> rfl
  | addMsg value => rw [perform, addMsg_eq]; rfl
  | updateSubMsg value => rw [perform, updateSubMsg_eq]; rfl
  | addVectorString value => rw [perform, addVectorString_eq, prepare]
  | updateVectorString value =>
      rw [perform, omnmmsgPayload_updateVectorString, updateVectorElements_eq, checked_map, prepare]
  | addVectorMsg value | updateVectorMsg value =>
      simp only [perform, omnmmsgPayload_addVectorMsg, omnmmsgPayload_updateVectorMsg,
        updateVectorMessages_eq, checked_map, prepare]
  | updateVectorMsgPayload value =>
      rw [perform, omnmmsgPayloadImpl_updateVectorMsgPayload, updateVectorMessages_eq, checked_map,
        prepare]
  | addVectorDateTime value | updateVectorTime value =>
      simp only [perform, omnmmsgPayload_addVectorDateTime, omnmmsgPayload_updateVectorTime,
        updateVectorElements_eq, checked_map, prepare]
  | addVectorPrice value | updateVectorPrice value =>
      simp only [perform, omnmmsgPayload_addVectorPrice, omnmmsgPayload_updateVectorPrice,
        updateVectorElements_eq, checked_map, prepare]

end

end Omnm
