import Omnm.Payload.Outcomes
import Omnm.Payload.Preparation
import Omnm.Payload.Scratch
import Omnm.Wire.Serialization

/-!
# Allocations that fail

Which calls of `allocateBufferMemory` a mutator makes, and when one of them
fails: `addField` asks for the new tail, an update of a field for the capacity
and what the data grows, a builder of vectors for its bytes in the scratch
buffer, and `unSerialize` for the bytes it takes in, after it wiped the buffer.

The list is complete: a call none of whose allocations fails does what it does
with memory that never runs out (`PayloadCall.perform_unlimited`).
-/

set_option autoImplicit false

namespace Omnm

open FieldTypeTags (tag)
open OmnmPayloadImpl

/-! ## Memory that never runs out -/

/-- A call of `allocateBufferMemory` fails. -/
def Allocator.Fails (allocator : Allocator) (buffer : List UInt8) (newSize : Nat) : Prop :=
  (allocateBufferMemory allocator buffer newSize).succeeded = false

instance (allocator : Allocator) (buffer : List UInt8) (newSize : Nat) :
    Decidable (allocator.Fails buffer newSize) := inferInstanceAs (Decidable (_ = _))

/-- A request that fails exceeds the buffer, which is left as it was. -/
theorem Allocator.Fails.eq {allocator : Allocator} {buffer : List UInt8} {newSize : Nat}
    (fails : allocator.Fails buffer newSize) :
    buffer.length < newSize ∧ (allocateBufferMemory allocator buffer newSize).buffer = buffer := by
  unfold Allocator.Fails allocateBufferMemory at fails
  unfold allocateBufferMemory
  split at fails
  · cases fails
  · rename_i small
    rw [if_neg small]
    cases grown : allocator.grow buffer newSize with
    | none => exact ⟨Nat.not_le.mp small, rfl⟩
    | some growth =>
        rw [grown] at fails
        cases fails

/-- There are bytes behind an allocation if there were some, or some were asked for and given. -/
theorem allocateBufferMemory_ne_nil_iff (allocator : Allocator) (buffer : List UInt8)
    (newSize : Nat) :
    (allocateBufferMemory allocator buffer newSize).buffer ≠ [] ↔
      buffer ≠ [] ∨ (newSize ≠ 0 ∧ ¬ allocator.Fails [] newSize) := by
  by_cases empty : buffer = []
  · subst empty
    rw [or_iff_right (not_not.mpr rfl)]
    by_cases fails : allocator.Fails [] newSize
    · exact iff_of_false (not_not.mpr fails.eq.2) fun given => given.2 fails
    · rw [and_iff_left fails]
      obtain ⟨fresh, grown, enough⟩ := exists_fresh_of_succeeded (Bool.eq_true_of_not_eq_false fails)
      constructor
      · rintro some_bytes rfl
        exact some_bytes (by rw [allocateBufferMemory_of_le (Nat.zero_le _)])
      · intro positive none
        rw [← grown, none, List.length_nil] at enough
        exact positive (Nat.le_zero.mp enough)
  · refine iff_of_true ?_ (.inl empty)
    have larger := length_le_allocateBufferMemory allocator buffer newSize
    exact List.length_pos_iff.mp (Nat.lt_of_lt_of_le (List.length_pos_iff.mpr empty) larger)

/-- The allocator that answers what another one refuses with zero bytes. -/
def Allocator.unlimited (allocator : Allocator) : Allocator where
  grow buffer newSize := (allocator.grow buffer newSize).or (Allocator.zeroing.grow buffer newSize)
  enough {buffer newSize growth} grown := by
    cases given : allocator.grow buffer newSize with
    | none =>
        rw [given, Option.none_or] at grown
        exact Allocator.zeroing.enough grown
    | some other =>
        rw [given, Option.some_or] at grown
        cases grown
        exact allocator.enough given

/-- A request that does not fail is answered alike. -/
theorem allocateBufferMemory_unlimited {allocator : Allocator} {buffer : List UInt8} {newSize : Nat}
    (served : ¬ allocator.Fails buffer newSize) :
    allocateBufferMemory allocator.unlimited buffer newSize =
      allocateBufferMemory allocator buffer newSize := by
  unfold Allocator.Fails allocateBufferMemory at served
  unfold allocateBufferMemory
  split
  · rfl
  · rename_i small
    rw [if_neg small] at served
    cases given : allocator.grow buffer newSize with
    | none => simp [given] at served
    | some growth =>
        simp only [Allocator.unlimited, given, Option.some_or]

/-- The memory of a call that never runs out. -/
def CallMemory.unlimited (memory : CallMemory) : CallMemory :=
  ⟨memory.payload.unlimited, memory.scratch.unlimited, memory.uninitialised⟩

variable [FieldTypeTags]

/-! ## The mutators -/

namespace OmnmPayloadImpl

/-- `addField` accepts the field and its allocation fails. -/
def AddFails (allocator : Allocator) (msg : OmnmPayloadImpl) (type : UInt8) (name : Option CString)
    (fid : UInt16) (bytes : List UInt8) : Prop :=
  rejection name fid bytes = none ∧
    allocator.Fails msg.mPayloadBuffer (newTailOffset msg type name bytes.length)

/-- The update of a field grows its data and its allocation fails. -/
def UpdateFails (allocator : Allocator) (msg : OmnmPayloadImpl) (type : UInt8)
    (field : OmnmFieldImpl) (bytes : List UInt8) : Prop :=
  ¬ (field.mFieldType ≠ type ∧ areFieldTypesCastable field.mFieldType type = false) ∧
    (∃ data, field.mData = .offset data) ∧
    0 < asInt64 bytes.length - asInt64 field.mSize ∧
    allocator.Fails msg.mPayloadBuffer
      (msg.mPayloadBufferSize + (asInt64 bytes.length - asInt64 field.mSize)).toNat

variable {msg : OmnmPayloadImpl} {allocator : Allocator} {type : UInt8} {name : Option CString}
  {fid : UInt16} {bytes : List UInt8}

theorem addField_unlimited (served : ¬ msg.AddFails allocator type name fid bytes) :
    msg.addField allocator.unlimited type name fid (some bytes) =
      msg.addField allocator type name fid (some bytes) := by
  cases rejected : rejection name fid bytes with
  | some status => rw [addField_of_rejection rejected, addField_of_rejection rejected]
  | none =>
      have same := allocateBufferMemory_unlimited fun fails => served ⟨rejected, fails⟩
      simp only [addField, Option.getD_some, same]

theorem updateFieldHandle_unlimited {field : OmnmFieldImpl}
    (served : ¬ msg.UpdateFails allocator type field bytes) :
    msg.updateFieldHandle allocator.unlimited type field (some bytes) =
      msg.updateFieldHandle allocator type field (some bytes) := by
  simp only [updateFieldHandle]
  split
  · rfl
  · rename_i castable
    cases place : field.mData with
    | null | stray => rfl
    | offset data =>
        have resized : msg.resizeField allocator.unlimited field data bytes.length =
            msg.resizeField allocator field data bytes.length := by
          simp only [resizeField, moveRest]
          by_cases grows : 0 < asInt64 bytes.length - asInt64 field.mSize
          · rw [if_pos grows, if_pos grows, allocateBufferMemory_unlimited fun fails =>
              served ⟨castable, ⟨data, place⟩, grows, fails⟩]
          · rw [if_neg grows, if_neg grows]
        simp only [resized]

end OmnmPayloadImpl

/-- An allocation that a mutation makes fails. -/
def Mutation.Fails (memory : CallMemory) (msg : OmnmPayloadImpl) (name : Option CString)
    (fid : UInt16) : Mutation → Prop
  | .refuse _ => False
  | .add type data => ∃ bytes, data = some bytes ∧
      msg.AddFails memory.payload (tag type) name fid bytes
  | .update type data => ∃ bytes, data = some bytes ∧ ¬ (name = none ∧ fid = 0) ∧
      (((msg.findFieldInBuffer name fid).result = some none ∧
          msg.AddFails memory.payload (tag type) name fid bytes) ∨
        ∃ field, (msg.findFieldInBuffer name fid).result = some (some field) ∧
          msg.UpdateFails memory.payload (tag type) field bytes)
  | .updateVector type bytes => ∃ status found,
      (msg.getField name fid).result = some (status, found) ∧
        if status = .notFound then msg.AddFails memory.payload (tag type) name fid bytes
        else msg.UpdateFails memory.payload (tag type) (found.getD memory.uninitialised) bytes

section

variable {memory : CallMemory} {msg : OmnmPayloadImpl} {name : Option CString} {fid : UInt16}

theorem Mutation.perform_unlimited {mutation : Mutation}
    (served : ¬ mutation.Fails memory msg name fid) :
    mutation.perform memory.unlimited msg name fid = mutation.perform memory msg name fid := by
  cases mutation with
  | refuse status => rfl
  | add type data =>
      cases data with
      | none => simp [perform, addField]
      | some bytes => exact addField_unlimited fun fails => served ⟨bytes, rfl, fails⟩
  | update type data =>
      simp only [perform, updateField]
      split
      · rfl
      · rename_i given
        obtain ⟨bytes, rfl⟩ := Option.ne_none_iff_exists'.mp fun null => given (.inl null)
        have key : ¬ (name = none ∧ fid = 0) := fun null => given (.inr null)
        apply Traced.bind_congr_of_result
        intro found search
        cases found with
        | none => exact addField_unlimited fun fails => served ⟨bytes, rfl, key, .inl ⟨search, fails⟩⟩
        | some field =>
            dsimp only
            split
            · rfl
            · have same := updateFieldHandle_unlimited fun fails =>
                served ⟨bytes, rfl, key, .inr ⟨field, search, fails⟩⟩
              exact congrArg (fun update => update >>= _) same
  | updateVector type bytes =>
      apply Traced.bind_congr_of_result
      rintro ⟨status, found⟩ lookup
      dsimp only
      split
      · rename_i absent
        refine addField_unlimited fun fails => served ⟨status, found, lookup, ?_⟩
        rwa [if_pos absent]
      · rename_i present
        have same := updateFieldHandle_unlimited fun fails =>
          served ⟨status, found, lookup, (if_neg present).mpr fails⟩
        exact congrArg (fun update => update >>= _) same

/-! ## The builders of vectors -/

/-- The allocation of a vector in the scratch buffer, behind the checks of its key, fails. -/
def FieldRequest.BuildFails (memory : CallMemory) (mBuffer : List UInt8) (name : Option CString)
    (fid : UInt16) (request : FieldRequest) : Prop :=
  validateNameFid name fid = none ∧ ∃ bytesRequired, request.bytesRequired = some bytesRequired ∧
    memory.scratch.Fails mBuffer bytesRequired

omit [FieldTypeTags] in
theorem checked_congr {Value : Type} {mBuffer : List UInt8} {value : Option Value}
    {build build' : Value → Traced Region (Mutation × List UInt8)}
    (alike : ∀ given, validateNameFid name fid = none → value = some given →
      build given = build' given) :
    checked mBuffer name fid value build = checked mBuffer name fid value build' := by
  simp only [checked]
  cases key : validateNameFid name fid with
  | some status => rfl
  | none =>
      cases value with
      | none => rfl
      | some given => exact alike given key rfl

section

variable {mBuffer : List UInt8} {elements : List (List UInt8)}

omit [FieldTypeTags] in
theorem buildElements_unlimited (served : ¬ memory.scratch.Fails mBuffer (elementsLength elements)) :
    buildElements memory.unlimited mBuffer elements = buildElements memory mBuffer elements := by
  rw [buildElements, buildElements, CallMemory.unlimited, allocateBufferMemory_unlimited served]

omit [FieldTypeTags] in
theorem prepareElements_unlimited {type : MamaFieldType}
    (served : ¬ memory.scratch.Fails mBuffer (elementsLength elements)) :
    prepareElements memory.unlimited mBuffer type elements =
      prepareElements memory mBuffer type elements := by
  rw [prepareElements, prepareElements, buildElements_unlimited served]

omit [FieldTypeTags] in
theorem prepareWhole_unlimited
    (served : ¬ memory.scratch.Fails mBuffer (elementsLength elements)) :
    prepareWhole memory.unlimited mBuffer elements = prepareWhole memory mBuffer elements := by
  rw [prepareWhole, prepareWhole, buildElements_unlimited served]

omit [FieldTypeTags] in
theorem prepareMessages_unlimited
    (served : ¬ memory.scratch.Fails mBuffer (messagesLength elements)) :
    prepareMessages memory.unlimited mBuffer elements =
      prepareMessages memory mBuffer elements := by
  rw [prepareMessages, prepareMessages, CallMemory.unlimited,
    allocateBufferMemory_unlimited served]

end

omit [FieldTypeTags] in
/-- A preparation whose allocation does not fail. -/
theorem FieldRequest.prepare_unlimited {mBuffer : List UInt8} {request : FieldRequest}
    (served : ¬ request.BuildFails memory mBuffer name fid) :
    request.prepare memory.unlimited mBuffer name fid =
      request.prepare memory mBuffer name fid := by
  have behind : ∀ bytesRequired, validateNameFid name fid = none →
      request.bytesRequired = some bytesRequired → ¬ memory.scratch.Fails mBuffer bytesRequired :=
    fun bytesRequired key asked fails => served ⟨key, bytesRequired, asked, fails⟩
  cases request with
  | addVectorString value =>
      refine checked_congr fun strings key given => prepareWhole_unlimited (behind _ key ?_)
      rw [given]
      rfl
  | updateVectorString value =>
      refine checked_congr fun strings key given => prepareElements_unlimited (behind _ key ?_)
      rw [given]
      rfl
  | addVectorMsg value | updateVectorMsg value | updateVectorMsgPayload value =>
      refine checked_congr fun messages key given => prepareMessages_unlimited (behind _ key ?_)
      rw [given]
      rfl
  | addVectorDateTime value | updateVectorTime value | addVectorPrice value
  | updateVectorPrice value =>
      refine checked_congr fun values key given => prepareElements_unlimited (behind _ key ?_)
      rw [given]
      rfl
  | _ => rfl

/-! ## Calls -/

/-- An allocation that a request makes fails: that of its vector, or one of its mutation. -/
def FieldRequest.Fails (memory : CallMemory) (msg : OmnmPayloadImpl) (name : Option CString)
    (fid : UInt16) (request : FieldRequest) : Prop :=
  request.BuildFails memory msg.mBuffer name fid ∨
    ∃ mutation scratch,
      (request.prepare memory msg.mBuffer name fid).result = some (mutation, scratch) ∧
        mutation.Fails memory (withScratch scratch msg) name fid

omit [FieldTypeTags] in
/-- The allocation of `unSerialize` fails. -/
def OmnmPayloadImpl.TakeFails (allocator : Allocator) (msg : OmnmPayloadImpl)
    (buffer : Option Incoming) (length : Nat) : Prop :=
  length ≠ 0 ∧ ∃ incoming header, buffer = some incoming ∧
    (loadHeader msg incoming).result = some header ∧
    ¬ omnmProtocolVersion < header.mWireFormatVersion ∧
    allocator.Fails (List.replicate msg.mPayloadBufferSize 0) length

/-- An allocation that a call makes fails. -/
def PayloadCall.Fails (msg : OmnmPayloadImpl) : PayloadCall → Prop
  | .field memory name fid request => request.Fails memory msg name fid
  | .clear => False
  | .unSerialize memory buffer length => msg.TakeFails memory.payload buffer length

omit [FieldTypeTags] in
/-- The call with memory that never runs out. -/
def PayloadCall.unlimited : PayloadCall → PayloadCall
  | .field memory name fid request => .field memory.unlimited name fid request
  | .clear => .clear
  | .unSerialize memory buffer length => .unSerialize memory.unlimited buffer length

theorem FieldRequest.perform_unlimited {request : FieldRequest}
    (served : ¬ request.Fails memory msg name fid) :
    request.perform memory.unlimited msg name fid = request.perform memory msg name fid := by
  rw [request.perform_eq, request.perform_eq,
    FieldRequest.prepare_unlimited fun fails => served (.inl fails)]
  apply Traced.bind_congr_of_result
  rintro ⟨mutation, scratch⟩ prepared
  exact Mutation.perform_unlimited fun fails => served (.inr ⟨mutation, scratch, prepared, fails⟩)

omit [FieldTypeTags] in
theorem unSerialize_unlimited {allocator : Allocator} {buffer : Option Incoming} {length : Nat}
    (served : ¬ msg.TakeFails allocator buffer length) :
    omnmmsgPayload_unSerialize allocator.unlimited msg buffer length =
      omnmmsgPayload_unSerialize allocator msg buffer length := by
  cases buffer with
  | none => rfl
  | some incoming =>
      simp only [omnmmsgPayload_unSerialize]
      split
      · rfl
      · rename_i some_bytes
        apply Traced.bind_congr_of_result
        intro header loaded
        split
        · rfl
        · rename_i version
          apply Traced.bind_congr_of_result
          intro wiped stored
          cases stored
          rw [wiped_eq, allocateBufferMemory_unlimited fun fails =>
            served ⟨some_bytes, incoming, header, rfl, loaded, version, fails⟩]

/-- A call none of whose allocations fails does what it does with memory that never runs out. -/
theorem PayloadCall.perform_unlimited {call : PayloadCall} (served : ¬ call.Fails msg) :
    call.unlimited.perform msg = call.perform msg := by
  cases call with
  | field memory name fid request => exact FieldRequest.perform_unlimited served
  | clear => rfl
  | unSerialize memory buffer length => exact unSerialize_unlimited served

end

end Omnm
