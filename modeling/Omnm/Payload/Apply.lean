import Omnm.Payload.Getters

/-!
# Applying one payload to another

`omnmmsgPayload_apply` iterates over the source and updates the destination
with each field, through the getter and the updater of the field's type. The
variable `name` is declared outside the loop, and `omnmmsgFieldPayload_getName`
leaves it alone for a field without a name. The statuses of getters and updaters
are not looked at.

The source and the destination are different objects. What the updaters read of
the source is loaded in front of their calls.
-/

set_option autoImplicit false

namespace Omnm

/-- The memory `omnmmsgPayload_apply` gets: for its updates, for its getters, and what a
local scalar holds before it is written. -/
structure ApplyMemory where
  update : CallMemory
  getter : GetterMemory
  uninitialised : Nat

/-- Allocations succeed. -/
structure ApplyMemory.Succeeds (memory : ApplyMemory) : Prop where
  update : memory.update.Succeeds
  getter : memory.getter.payload.Succeeds
  arrays : memory.getter.arrays = true

/-- What the loop carries from field to field: the destination, the name, and what the
iterator's field keeps. -/
structure ApplyState where
  dest : OmnmPayloadImpl
  name : BufferPtr
  results : FieldResults

/-- A string argument that points into the payload buffer. -/
def loadStringArgument (msg : OmnmPayloadImpl) (pointer : BufferPtr) :
    Traced Region (Option CString) :=
  match pointer with
  | .null => pure none
  | .stray => Traced.fault
  | .offset offset => do
      let bytes ← loadCString msg.mPayloadBuffer offset
      pure (some (CString.ofBytes bytes))

/-- A bytes argument that points into the payload buffer. -/
def loadBytesArgument (msg : OmnmPayloadImpl) (pointer : BufferPtr) (length : Nat) :
    Traced Region (Option (List UInt8)) :=
  match pointer with
  | .null => pure none
  | .stray => Traced.fault
  | .offset offset => do
      let bytes ← loadBytes .message msg.mPayloadBuffer offset length
      pure (some bytes)

/-- The strings an array points to. -/
def loadStrings (msg : OmnmPayloadImpl) : List BufferPtr → Traced Region (List CString)
  | [] => pure []
  | pointer :: pointers => do
      let string ← loadStringArgument msg pointer
      match string with
      | none => Traced.fault
      | some string => do
          let strings ← loadStrings msg pointers
          pure (string :: strings)

/-- An array of strings as an argument. It is NULL until memory was allocated for it. -/
def loadStringArray (msg : OmnmPayloadImpl) (array : List BufferPtr) (size : Nat) :
    Traced Region (Option (List CString)) :=
  if array = [] then pure none
  else do
    let strings ← loadStrings msg (array.take size)
    pure (some strings)

variable [FieldTypeTags] [MamaLibrary]

/-! ## One field -/

section

variable (memory : ApplyMemory) (src : OmnmPayloadImpl) (field : OmnmFieldImpl)
  (dest : OmnmPayloadImpl) (name : Option CString)

/-- `APPLY_SCALAR_FIELD`. A result that is not written is whatever its memory holds. -/
def applyScalarField (get : ScalarGetter) (update : Mutator Nat) : Mutated := do
  let (_, result) ← get src field
  update memory.update dest name field.mFid (result.getD memory.uninitialised)

omit [FieldTypeTags] [MamaLibrary] in
/-- `UPDATE_VECTOR_FIELD` for a vector of scalars of a given size. -/
def updateVectorField (size : Nat) (get : VectorGetter) (update : Mutator (Option (List Nat))) :
    Mutated := do
  let (_, result, count) := get field
  let bytes ← loadBytesArgument src result (count * size)
  let value := bytes.map fun bytes =>
    (List.range count).map fun index => littleEndianValue (slice bytes (index * size) size)
  update memory.update dest name field.mFid value

omit [MamaLibrary] in
/-- The case of `MAMA_FIELD_TYPE_STRING`. -/
def applyString : Mutated := do
  let (_, result) ← omnmmsgFieldPayload_getString src field
  let str ← loadStringArgument src (result.getD .null)
  omnmmsgPayload_updateString memory.update dest name field.mFid str

omit [MamaLibrary] in
/-- The case of `MAMA_FIELD_TYPE_OPAQUE`. -/
def applyOpaque : Mutated := do
  let (_, result) ← omnmmsgFieldPayload_getOpaque src field
  let (data, size) := result.getD (.null, 0)
  let bytes ← loadBytesArgument src data size
  omnmmsgPayload_updateOpaque memory.update dest name field.mFid bytes

/-- The case of `MAMA_FIELD_TYPE_TIME`, on a date-time that is new. -/
def applyDateTime : Mutated := do
  let (_, result) ← omnmmsgFieldPayload_getDateTime src field
  omnmmsgPayload_updateDateTime memory.update dest name field.mFid
    (some (result.getD ⟨0, 0, 0, 0⟩))

/-- The case of `MAMA_FIELD_TYPE_PRICE`, on a price that is new. -/
def applyPrice : Mutated := do
  let (_, result) ← omnmmsgFieldPayload_getPrice src field
  omnmmsgPayload_updatePrice memory.update dest name field.mFid (some (result.getD ⟨0, 0⟩))

omit [MamaLibrary] in
/-- The case of `MAMA_FIELD_TYPE_MSG`. -/
def applyMsg (results : FieldResults) : Traced Region (OmnmPayloadImpl × FieldResults) := do
  let (_, result, results) ← omnmmsgFieldPayload_getMsg memory.getter src field results
  let (_, dest) ← dest.updateSubMsg memory.update name field.mFid result
  pure (dest, results)

omit [MamaLibrary] in
/-- The case of `MAMA_FIELD_TYPE_VECTOR_STRING`. -/
def applyVectorString (results : FieldResults) :
    Traced Region (OmnmPayloadImpl × FieldResults) := do
  let (_, (array, size), results) ←
    omnmmsgFieldPayload_getVectorString memory.getter src field results
  let value ← loadStringArray src array size
  let (_, dest) ← omnmmsgPayload_updateVectorString memory.update dest name field.mFid value
  pure (dest, results)

/-- The `switch` of `omnmmsgPayload_apply`. -/
def applyField (results : FieldResults) : Traced Region (OmnmPayloadImpl × FieldResults) :=
  let keeping (updated : Mutated) : Traced Region (OmnmPayloadImpl × FieldResults) := do
    let (_, dest) ← updated
    pure (dest, results)
  let scalar (get : ScalarGetter) (update : Mutator Nat) :=
    keeping (applyScalarField memory src field dest name get update)
  let vector (size : Nat) (get : VectorGetter) (update : Mutator (Option (List Nat))) :=
    keeping (updateVectorField memory src field dest name size get update)
  match fieldTypeOf field.mFieldType with
  | some .bool => scalar omnmmsgFieldPayload_getBool omnmmsgPayload_updateBool
  | some .char => scalar omnmmsgFieldPayload_getChar omnmmsgPayload_updateChar
  | some .u8 => scalar omnmmsgFieldPayload_getU8 omnmmsgPayload_updateU8
  | some .i8 => scalar omnmmsgFieldPayload_getI8 omnmmsgPayload_updateI8
  | some .u16 => scalar omnmmsgFieldPayload_getU16 omnmmsgPayload_updateU16
  | some .i16 => scalar omnmmsgFieldPayload_getI16 omnmmsgPayload_updateI16
  | some .u32 => scalar omnmmsgFieldPayload_getU32 omnmmsgPayload_updateU32
  | some .i32 => scalar omnmmsgFieldPayload_getI32 omnmmsgPayload_updateI32
  | some .u64 => scalar omnmmsgFieldPayload_getU64 omnmmsgPayload_updateU64
  | some .i64 => scalar omnmmsgFieldPayload_getI64 omnmmsgPayload_updateI64
  | some .f32 => scalar omnmmsgFieldPayload_getF32 omnmmsgPayload_updateF32
  | some .f64 => scalar omnmmsgFieldPayload_getF64 omnmmsgPayload_updateF64
  | some .string => keeping (applyString memory src field dest name)
  | some .msg => applyMsg memory src field dest name results
  | some .opaqueField => keeping (applyOpaque memory src field dest name)
  | some .time => keeping (applyDateTime memory src field dest name)
  | some .price => keeping (applyPrice memory src field dest name)
  | some .vectorU8 => vector 1 omnmmsgFieldPayload_getVectorU8 omnmmsgPayload_updateVectorU8
  | some .vectorBool => vector 1 omnmmsgFieldPayload_getVectorBool omnmmsgPayload_updateVectorBool
  | some .vectorChar => vector 1 omnmmsgFieldPayload_getVectorChar omnmmsgPayload_updateVectorChar
  | some .vectorI8 => vector 1 omnmmsgFieldPayload_getVectorI8 omnmmsgPayload_updateVectorI8
  | some .vectorU16 => vector 2 omnmmsgFieldPayload_getVectorU16 omnmmsgPayload_updateVectorU16
  | some .vectorI16 => vector 2 omnmmsgFieldPayload_getVectorI16 omnmmsgPayload_updateVectorI16
  | some .vectorU32 => vector 4 omnmmsgFieldPayload_getVectorU32 omnmmsgPayload_updateVectorU32
  | some .vectorI32 => vector 4 omnmmsgFieldPayload_getVectorI32 omnmmsgPayload_updateVectorI32
  | some .vectorU64 => vector 8 omnmmsgFieldPayload_getVectorU64 omnmmsgPayload_updateVectorU64
  | some .vectorI64 => vector 8 omnmmsgFieldPayload_getVectorI64 omnmmsgPayload_updateVectorI64
  | some .vectorF32 => vector 4 omnmmsgFieldPayload_getVectorF32 omnmmsgPayload_updateVectorF32
  | some .vectorF64 => vector 8 omnmmsgFieldPayload_getVectorF64 omnmmsgPayload_updateVectorF64
  | some .vectorString => applyVectorString memory src field dest name results
  | some .vectorMsg => pure (dest, results)
  | some .vectorPrice | some .vectorTime | some .quantity | some .unknown | some .collection
  | none => pure (dest, results)

end

/-! ## The loop -/

/-- One round: the key of the field, then its value. -/
def applyRound (memory : ApplyMemory) (src : OmnmPayloadImpl) (field : OmnmFieldImpl)
    (state : ApplyState) : Traced Region ApplyState := do
  let written ← omnmmsgFieldPayload_getName src field
  let pointer := written.getD state.name
  let name ← loadStringArgument src pointer
  let (dest, results) ← applyField memory src field state.dest name state.results
  pure ⟨dest, pointer, results⟩

/-- The loop of `omnmmsgPayload_apply`. -/
def applyFrom (memory : ApplyMemory) (src : OmnmPayloadImpl) :
    Nat → OmnmIterImpl → ApplyState → Traced Region ApplyState
  | 0, _, _ => Traced.fault
  | rounds + 1, iter, state => do
      let (field, iter) ← omnmmsgPayloadIter_next iter src
      match field with
      | none => pure state
      | some field => do
          let state ← applyRound memory src field state
          applyFrom memory src rounds iter state

/-- `omnmmsgPayload_apply`. -/
def omnmmsgPayload_apply (memory : ApplyMemory) (dest src : OmnmPayloadImpl) : Mutated := do
  let iter ← omnmmsgPayloadIterImpl_init src
  let state ← applyFrom memory src (iterationBound src) iter ⟨dest, .null, FieldResults.none⟩
  pure (.ok, state.dest)

end Omnm
