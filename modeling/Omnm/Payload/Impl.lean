import Omnm.Memory.Buffer
import Omnm.Payload.FieldType

/-!
# The payload object and its serialised form

`OmnmPayloadImpl` owns a buffer whose bytes up to the tail are the message. The
list `mPayloadBuffer` is the whole allocation, so its length is
`mPayloadBufferSize`; the bytes past the tail are whatever earlier operations
left there. Of the reusable `mField` only the scratch buffer `mField.mBuffer`
is part of this record, since mutators build vectors in it.

Memory is obtained from `allocateBufferMemory` of the MAMA library. It never
shrinks a buffer and keeps its contents; an `Allocator` says how it answers
when a buffer has to grow, which includes failing and moving the buffer.
-/

set_option autoImplicit false

namespace Omnm

/-- The memory the payload code reads and writes: the payload buffer, the
serialised buffer a caller passes in, and the scratch buffer. -/
inductive Region where
  | message
  | incoming
  | scratch
  deriving DecidableEq, Repr

/-- The statuses of MAMA that the payload returns. -/
inductive MamaStatus where
  | ok | nullArg | invalidArg | notFound | wrongFieldType | noMem | notImplemented
  deriving DecidableEq, Repr

/-! ## Memory from the MAMA library -/

/-- What growing a buffer adds to it, and whether the buffer moved. -/
structure Growth where
  fresh : List UInt8
  moved : Bool

/-- How `allocateBufferMemory` answers a request that exceeds the size of the
buffer: no answer is a failure, any other gives at least the size asked for. -/
structure Allocator where
  grow : List UInt8 → Nat → Option Growth
  enough : ∀ {buffer newSize growth}, grow buffer newSize = some growth →
    newSize ≤ buffer.length + growth.fresh.length

namespace Allocator

/-- Allocations succeed. -/
def Succeeds (allocator : Allocator) : Prop :=
  ∀ buffer newSize, (allocator.grow buffer newSize).isSome

/-- Growing sets the size to exactly the size asked for. -/
def Exact (allocator : Allocator) : Prop :=
  ∀ buffer newSize growth, buffer.length < newSize → allocator.grow buffer newSize = some growth →
    buffer.length + growth.fresh.length = newSize

/-- The allocator that grows to the size asked for with zero bytes, in place. -/
def zeroing : Allocator where
  grow buffer newSize := some ⟨List.replicate (newSize - buffer.length) 0, false⟩
  enough {buffer newSize growth} grown := by
    cases grown
    simp only [List.length_replicate]
    omega

theorem zeroing_succeeds : zeroing.Succeeds := fun _ _ => rfl

theorem zeroing_exact : zeroing.Exact := by
  intro buffer newSize growth larger grown
  cases grown
  simp only [List.length_replicate]
  omega

end Allocator

/-- A call of `allocateBufferMemory`: whether it returned zero, the buffer it
leaves, and whether that buffer moved. -/
structure Allocation where
  succeeded : Bool
  buffer : List UInt8
  moved : Bool

/-- `allocateBufferMemory`: nothing happens to a buffer that is large enough,
and a failure leaves the buffer as it was. -/
def allocateBufferMemory (allocator : Allocator) (buffer : List UInt8) (newSize : Nat) :
    Allocation :=
  if newSize ≤ buffer.length then ⟨true, buffer, false⟩
  else
    match allocator.grow buffer newSize with
    | none => ⟨false, buffer, false⟩
    | some growth => ⟨true, buffer ++ growth.fresh, growth.moved⟩

/-- A successful allocation extends the buffer to at least the size asked for. -/
theorem exists_fresh_of_succeeded {allocator : Allocator} {buffer : List UInt8} {newSize : Nat}
    (succeeded : (allocateBufferMemory allocator buffer newSize).succeeded = true) :
    ∃ fresh, (allocateBufferMemory allocator buffer newSize).buffer = buffer ++ fresh ∧
      newSize ≤ (buffer ++ fresh).length := by
  unfold allocateBufferMemory at succeeded ⊢
  split
  · rename_i large
    exact ⟨[], by simp, by simpa using large⟩
  · rename_i small
    rw [if_neg small] at succeeded
    cases grown : allocator.grow buffer newSize with
    | none => simp [grown] at succeeded
    | some growth => exact ⟨growth.fresh, rfl, by simpa using allocator.enough grown⟩

theorem allocateBufferMemory_of_succeeds {allocator : Allocator} (succeeds : allocator.Succeeds)
    (buffer : List UInt8) (newSize : Nat) :
    (allocateBufferMemory allocator buffer newSize).succeeded = true := by
  unfold allocateBufferMemory
  split
  · rfl
  · obtain ⟨growth, grown⟩ := Option.isSome_iff_exists.mp (succeeds buffer newSize)
    simp only [grown]

/-- A buffer that is large enough is left alone. -/
theorem allocateBufferMemory_of_le {allocator : Allocator} {buffer : List UInt8} {newSize : Nat}
    (large : newSize ≤ buffer.length) :
    allocateBufferMemory allocator buffer newSize = ⟨true, buffer, false⟩ := if_pos large

/-- An allocation never shrinks a buffer. -/
theorem length_le_allocateBufferMemory (allocator : Allocator) (buffer : List UInt8) (newSize : Nat) :
    buffer.length ≤ (allocateBufferMemory allocator buffer newSize).buffer.length := by
  unfold allocateBufferMemory
  split
  · exact Nat.le_refl _
  · split
    · exact Nat.le_refl _
    · rw [List.length_append]
      exact Nat.le_add_right ..

/-- An exact allocator makes a buffer as large as asked for, and no larger. -/
theorem length_allocateBufferMemory {allocator : Allocator} (exact : allocator.Exact)
    (succeeds : allocator.Succeeds) (buffer : List UInt8) (newSize : Nat) :
    (allocateBufferMemory allocator buffer newSize).buffer.length = max buffer.length newSize := by
  unfold allocateBufferMemory
  split
  · rename_i large
    exact (Nat.max_eq_left large).symm
  · rename_i small
    obtain ⟨growth, grown⟩ := Option.isSome_iff_exists.mp (succeeds buffer newSize)
    rw [grown]
    dsimp only
    rw [List.length_append, exact buffer newSize growth (Nat.not_le.mp small) grown,
      Nat.max_eq_right (Nat.le_of_not_le small)]

/-! ## The payload object -/

/-- `omnmHeader`. -/
structure OmnmHeader where
  mType : UInt8
  mWireFormatVersion : UInt8
  mRemainingHeaderSize : UInt8
  deriving DecidableEq, Repr

/-- `MAMA_PAYLOAD_ID_OMNM`, the letter `O`. -/
def mamaPayloadIdOmnm : UInt8 := 79

/-- `OMNM_PROTOCOL_VERSION`. -/
def omnmProtocolVersion : UInt8 := 1

/-- `DEFAULT_PAYLOAD_SIZE`. -/
def defaultPayloadSize : Nat := 200

/-- `sizeof (omnmHeader)`, equal to `sizeof (omnmHeaderV1)`. -/
def sizeofOmnmHeader : Nat := 3

namespace OmnmHeader

/-- The header in memory. -/
def bytes (header : OmnmHeader) : List UInt8 :=
  [header.mType, header.mWireFormatVersion, header.mRemainingHeaderSize]

/-- The header held by the first bytes of a buffer. -/
def ofBytes (bytes : List UInt8) : OmnmHeader :=
  ⟨bytes.getD 0 0, bytes.getD 1 0, bytes.getD 2 0⟩

/-- The header `clear` writes. -/
def default : OmnmHeader := ⟨mamaPayloadIdOmnm, omnmProtocolVersion, 0⟩

end OmnmHeader

/-- `OmnmPayloadImpl`, with the scratch buffer `mField.mBuffer`. -/
structure OmnmPayloadImpl where
  mPayloadBuffer : List UInt8
  mPayloadBufferTail : Nat
  mHeader : OmnmHeader
  mBuffer : List UInt8
  deriving DecidableEq, Repr

namespace OmnmPayloadImpl

/-- The capacity of the payload buffer. -/
def mPayloadBufferSize (msg : OmnmPayloadImpl) : Nat := msg.mPayloadBuffer.length

/-- `OmnmPayloadImpl::getHeaderSize`. -/
def getHeaderSize (msg : OmnmPayloadImpl) : Nat :=
  sizeofOmnmHeader + msg.mHeader.mRemainingHeaderSize.toNat

/-- The bytes `omnmmsgPayload_serialize` gives to its caller. -/
def serialized (msg : OmnmPayloadImpl) : List UInt8 :=
  msg.mPayloadBuffer.take msg.mPayloadBufferTail

/-- `OmnmPayloadImpl::clear`. -/
def clear (msg : OmnmPayloadImpl) : Traced Region (MamaStatus × OmnmPayloadImpl) := do
  let msg := { msg with mHeader := OmnmHeader.default }
  let buffer ← store .message msg.mPayloadBuffer 0 msg.mHeader.bytes
  let tail := msg.getHeaderSize
  let buffer ← store .message buffer tail (List.replicate (msg.mPayloadBufferSize - tail) 0)
  return (.ok, { msg with mPayloadBuffer := buffer, mPayloadBufferTail := tail })

end OmnmPayloadImpl

open OmnmPayloadImpl

/-- `omnmmsgPayload_create`: a zeroed buffer of the default size, then `clear`. -/
def omnmmsgPayload_create : Traced Region (MamaStatus × OmnmPayloadImpl) :=
  clear ⟨List.replicate defaultPayloadSize 0, 0, ⟨0, 0, 0⟩, []⟩

/-- The payload that `omnmmsgPayload_create` makes. -/
def newPayload : OmnmPayloadImpl where
  mPayloadBuffer := OmnmHeader.default.bytes ++ List.replicate (defaultPayloadSize - 3) 0
  mPayloadBufferTail := 3
  mHeader := OmnmHeader.default
  mBuffer := []

theorem omnmmsgPayload_create_result : omnmmsgPayload_create.result = some (.ok, newPayload) := by
  decide +kernel

/-- `omnmmsgPayload_serialize`: the payload's own buffer and the tail. -/
def omnmmsgPayload_serialize (msg : OmnmPayloadImpl) : MamaStatus × List UInt8 × Nat :=
  (.ok, msg.mPayloadBuffer, msg.mPayloadBufferTail)

/-- `omnmmsgPayload_getByteSize`. -/
def omnmmsgPayload_getByteSize (msg : OmnmPayloadImpl) : MamaStatus × Nat :=
  (.ok, msg.mPayloadBufferTail)

/-! ## Taking in a serialised buffer -/

/-- Where a serialised buffer lies: it is the payload's own buffer, or other
memory that is readable from the address given. -/
inductive Incoming where
  | own
  | other (memory : List UInt8)
  deriving DecidableEq, Repr

/-- The header at the front of a serialised buffer, read whatever the length the
caller gave. -/
def loadHeader (msg : OmnmPayloadImpl) : Incoming → Traced Region OmnmHeader
  | .own => do
      let bytes ← loadBytes .message msg.mPayloadBuffer 0 sizeofOmnmHeader
      return OmnmHeader.ofBytes bytes
  | .other memory => do
      let bytes ← loadBytes .incoming memory 0 sizeofOmnmHeader
      return OmnmHeader.ofBytes bytes

/-- `omnmmsgPayload_unSerialize`. The current buffer is wiped before the new
bytes are copied, and a buffer that is the payload's own is not copied. -/
def omnmmsgPayload_unSerialize (allocator : Allocator) (msg : OmnmPayloadImpl)
    (buffer : Option Incoming) (bufferLength : Nat) :
    Traced Region (MamaStatus × OmnmPayloadImpl) :=
  match buffer with
  | none => pure (.nullArg, msg)
  | some incoming =>
      if bufferLength = 0 then pure (.nullArg, msg)
      else do
        let header ← loadHeader msg incoming
        if omnmProtocolVersion < header.mWireFormatVersion then
          pure (.wrongFieldType, msg)
        else
          let wiped ← store .message msg.mPayloadBuffer 0 (List.replicate msg.mPayloadBufferSize 0)
          let allocation := allocateBufferMemory allocator wiped bufferLength
          if allocation.succeeded = false then
            pure (.noMem, { msg with mPayloadBuffer := wiped })
          else
            let copied ←
              match incoming with
              -- a buffer that was moved away is no longer the caller's
              | .own => if allocation.moved then Traced.fault else pure allocation.buffer
              | .other memory => do
                  let bytes ← loadBytes .incoming memory 0 bufferLength
                  store .message allocation.buffer 0 bytes
            let header : OmnmHeader :=
              ⟨msg.mHeader.mType, header.mWireFormatVersion, header.mRemainingHeaderSize⟩
            pure (.ok, { msg with
              mPayloadBuffer := copied, mPayloadBufferTail := bufferLength, mHeader := header })

/-- `omnmmsgPayload_setByteBuffer`. -/
def omnmmsgPayload_setByteBuffer (allocator : Allocator) (msg : OmnmPayloadImpl)
    (buffer : Option Incoming) (bufferLength : Nat) :
    Traced Region (MamaStatus × OmnmPayloadImpl) :=
  match buffer with
  | none => pure (.nullArg, msg)
  | some incoming =>
      if bufferLength = 0 then pure (.invalidArg, msg)
      else omnmmsgPayload_unSerialize allocator msg (some incoming) bufferLength

/-- `omnmmsgPayload_createFromByteBuffer`. No payload is made when an argument
is rejected. -/
def omnmmsgPayload_createFromByteBuffer (allocator : Allocator) (buffer : Option (List UInt8))
    (bufferLength : Nat) : Traced Region (MamaStatus × Option OmnmPayloadImpl) :=
  match buffer with
  | none => pure (.nullArg, none)
  | some memory =>
      if bufferLength = 0 then pure (.invalidArg, none)
      else do
        let (_, msg) ← omnmmsgPayload_create
        let (status, msg) ← omnmmsgPayload_unSerialize allocator msg (some (.other memory)) bufferLength
        pure (status, some msg)

/-- The payload a copy goes to: none yet, the source itself, or another one. -/
inductive CopyTarget where
  | null
  | self
  | other (copy : OmnmPayloadImpl)

/-- `omnmmsgPayload_copy`, with the payload that is the copy afterwards. -/
def omnmmsgPayload_copy (allocator : Allocator) (msg : OmnmPayloadImpl) :
    CopyTarget → Traced Region (MamaStatus × OmnmPayloadImpl)
  | .null => do
      let (_, copy) ← omnmmsgPayload_create
      omnmmsgPayload_unSerialize allocator copy (some (.other msg.mPayloadBuffer))
        msg.mPayloadBufferTail
  | .self => omnmmsgPayload_unSerialize allocator msg (some .own) msg.mPayloadBufferTail
  | .other copy =>
      omnmmsgPayload_unSerialize allocator copy (some (.other msg.mPayloadBuffer))
        msg.mPayloadBufferTail

/-! ## Validation of keys -/

/-- `VALIDATE_NAME_FID`: the status to return, if the key is rejected. -/
def validateNameFid (name : Option CString) (fid : UInt16) : Option MamaStatus :=
  match name with
  | none => if fid = 0 then some .nullArg else none
  | some name => if fid = 0 ∧ name = CString.empty then some .invalidArg else none

/-- `strlenEx`, which takes NULL for the empty string. -/
def strlenEx : Option CString → Nat
  | none => 0
  | some string => string.bytes.length

end Omnm
