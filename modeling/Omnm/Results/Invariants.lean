import Omnm.Wire.Mutations
import Omnm.Wire.Serialization
import Omnm.Runs.Runs

/-!
# The representation invariant over runs

Every run of the public functions that add, update and clear leaves a buffer
that decodes into fields which end exactly at the tail, each as wide as its type
prescribes (`run_wellFormed`), provided that no update lands on a field of
another layout and no vector update is made under a key that names no field.

Without that condition the invariant is lost. `areFieldTypesCastable` lets a
`U64` update replace the data of an `I8` field, whose type byte stays, so that
the buffer no longer decodes (`castable_update_breaks`).
-/

set_option autoImplicit false

namespace Omnm

open OmnmPayloadImpl

/-- The buffer decodes from the end of the header into fields of listed types, each with
the data its type prescribes, that end exactly at the tail. -/
structure OmnmPayloadImpl.WellFormed [FieldTypeTags] (msg : OmnmPayloadImpl) : Prop where
  headerSize_le : msg.getHeaderSize ≤ msg.mPayloadBufferTail
  tail_le : msg.mPayloadBufferTail ≤ msg.mPayloadBufferSize
  fields : ∃ entries last, msg.Decodes entries ∧ AllListed entries ∧
    (iterateFields msg).result = some (fieldHandles entries msg.getHeaderSize .null, last) ∧
    last.mBufferPosition = msg.mPayloadBufferTail

/-- A call that adds, updates or clears. -/
def PayloadCall.Edits : PayloadCall → Prop
  | .field .. => True
  | .clear => True
  | .unSerialize .. => False

section

variable [FieldTypeTags]

/-- Allocations succeed and the message stays below 2 GiB. -/
def PayloadCall.Promised (msg : OmnmPayloadImpl) : PayloadCall → Prop
  | .field memory name fid request => memory.Succeeds ∧
      request.Each memory msg.mBuffer name fid fun mutation =>
        mutation.sizeAfter msg name fid < 2 ^ 31
  | .clear => True
  | .unSerialize .. => True

/-- An update does not land on a field of another layout, and a vector update has a key
that its lookup accepts. -/
def PayloadCall.KeepsWidths (msg : OmnmPayloadImpl) : PayloadCall → Prop
  | .field memory name fid request =>
      request.Each memory msg.mBuffer name fid fun mutation =>
        mutation.KeepsLayout msg name fid ∧ mutation.KeyAccepted name fid
  | .clear => True
  | .unSerialize .. => True

/-- The payload represents a message of listed types below 2 GiB. -/
def OmnmPayloadImpl.Holds (msg : OmnmPayloadImpl) : Prop :=
  ∃ message, msg.Represents message ∧ AllListed message.entries ∧ msg.mPayloadBufferTail < 2 ^ 31

theorem OmnmPayloadImpl.Holds.wellFormed {msg : OmnmPayloadImpl} (holds : msg.Holds) :
    msg.WellFormed := by
  obtain ⟨message, represents, listed, -⟩ := holds
  have decodes := represents.decodes
  obtain ⟨last, result⟩ := decodes.iterateFields
  refine ⟨?_, represents.tail_le, message.entries, last, decodes, listed, result,
    decodes.position_iterateFields result⟩
  rw [← decodes.ends]
  exact Nat.le_add_right ..

/-- A call that keeps widths keeps the invariant. -/
theorem holds_step {msg : OmnmPayloadImpl} {call : PayloadCall} (holds : msg.Holds)
    (edits : call.Edits) (promised : call.Promised msg) (keeps : call.KeepsWidths msg) :
    ∃ status next, payloadCallStep msg call = some (status, next) ∧ next.Holds := by
  obtain ⟨message, represents, listed, tail⟩ := holds
  cases call with
  | field memory name fid request =>
      obtain ⟨succeeds, small⟩ := promised
      have prepares : ∃ mutation scratch,
          (request.prepare memory msg.mBuffer name fid).result = some (mutation, scratch) :=
        request.exists_prepared succeeds.scratch
      obtain ⟨mutation, scratch, prepared⟩ := prepares
      obtain ⟨layout, key⟩ := keeps mutation scratch prepared
      have bound : mutation.sizeAfter msg name fid < 2 ^ 31 := small mutation scratch prepared
      rw [← mutation.sizeAfter_withScratch scratch] at bound
      obtain ⟨status, next, changed, result, after, listedAfter, size, -⟩ :=
        (represents.withScratch scratch).leaves_mutation listed tail succeeds.payload
          (request.prepare_shaped prepared) (layout.withScratch scratch) key bound
      refine ⟨status, next, ?_, changed, after, listedAfter, size ▸ bound⟩
      rw [payloadCallStep, PayloadCall.perform, request.perform_eq, afterPreparing,
        Traced.result_bind, prepared, Option.bind_some]
      exact result
  | clear =>
      have room : 3 ≤ msg.mPayloadBufferSize :=
        (represents.tail ▸ message.three_le_length_encode).trans represents.tail_le
      obtain ⟨next, keepsStep⟩ := Represents.clear msg room
      refine ⟨.ok, next, keepsStep.result, Message.empty, keepsStep.represents, ?_, ?_⟩
      · intro entry member
        cases member
      · rw [keepsStep.represents.tail]
        exact Nat.lt_of_le_of_lt (Nat.le_refl 3) (by norm_num)
  | unSerialize memory buffer length => exact edits.elim

end

/-- Every state that a run reaches is well formed, as long as no call breaks a width. -/
theorem run_wellFormed [FieldTypeTags] (calls : List PayloadCall)
    (edits : ∀ call ∈ calls, call.Edits)
    (along : Along payloadCallStep (fun msg call => call.Promised msg ∧ call.KeepsWidths msg)
      newPayload calls) :
    ∃ created statuses last, omnmmsgPayload_create.result = some (.ok, created) ∧
      run payloadCallStep created calls = some (statuses, last) ∧ last.WellFormed := by
  have start : newPayload.Holds := by
    refine ⟨Message.empty, Represents.newPayload, ?_, by decide⟩
    intro entry member
    cases member
  have admitted := along_and_of_mem along edits
  obtain ⟨statuses, last, ran, holds⟩ := run_invariant
    (fun msg call holds admits => holds_step holds admits.2 admits.1.1 admits.1.2) calls newPayload
    start admitted
  exact ⟨newPayload, statuses, last, omnmmsgPayload_create_result, ran, holds.wellFormed⟩

section Example

attribute [local instance] mamaFieldTypes

/-- An I8 field that is updated with an I8. -/
def byteCalls : List PayloadCall :=
  [.field .zeroing none 1 (.addScalar .i8 5), .field .zeroing none 1 (.updateScalar .i8 6)]

/-- An I8 field that is updated with a U64. -/
def castableCalls : List PayloadCall :=
  [.field .zeroing none 1 (.addScalar .i8 5), .field .zeroing none 1 (.updateScalar .u64 6)]

/-- The payload with the I8 field. -/
def bytePayload : OmnmPayloadImpl :=
  { newPayload with
    mPayloadBuffer := [79, 1, 0, 11, 1, 0, 0, 5] ++ List.replicate 192 0
    mPayloadBufferTail := 8 }

/-- The payload with eight bytes of data under the type of one. -/
def castablePayload : OmnmPayloadImpl :=
  { newPayload with
    mPayloadBuffer := [79, 1, 0, 11, 1, 0, 0, 6] ++ List.replicate 199 0
    mPayloadBufferTail := 15 }

theorem addI8_result : payloadCallStep newPayload
    (.field .zeroing none 1 (.addScalar .i8 5)) = some (.ok, bytePayload) := by
  decide +kernel

theorem updateU64_result : payloadCallStep bytePayload
    (.field .zeroing none 1 (.updateScalar .u64 6)) = some (.ok, castablePayload) := by
  decide +kernel

theorem promised_add : PayloadCall.Promised newPayload
    (.field .zeroing none 1 (.addScalar .i8 5)) := by
  refine ⟨CallMemory.zeroing_succeeds, ?_⟩
  intro mutation scratch prepared
  cases prepared
  decide +kernel

theorem promised_update (scalar : ScalarType) : PayloadCall.Promised bytePayload
    (.field .zeroing none 1 (.updateScalar scalar 6)) := by
  refine ⟨CallMemory.zeroing_succeeds, ?_⟩
  intro mutation scratch prepared
  cases prepared
  cases scalar <;> decide +kernel

/-- An update with a castable type of another width breaks the invariant. -/
theorem castable_update_breaks :
    (∀ call ∈ castableCalls, call.Edits) ∧
      Along payloadCallStep (fun msg call => call.Promised msg) newPayload castableCalls ∧
      run payloadCallStep newPayload castableCalls = some ([.ok, .ok], castablePayload) ∧
      ¬ castablePayload.WellFormed := by
  refine ⟨?_, ?_, ?_, ?_⟩
  · intro call member
    simp only [castableCalls, List.mem_cons, List.not_mem_nil, or_false] at member
    rcases member with rfl | rfl
    · trivial
    · trivial
  · exact along_cons_of_step promised_add addI8_result
      (along_cons_of_step (promised_update .u64) updateU64_result trivial)
  · rw [castableCalls, run_cons_of_step addI8_result, run_cons_of_step updateU64_result]
    rfl
  · intro wellFormed
    obtain ⟨entries, last, -, -, iterated, ends⟩ := wellFormed.fields
    have position : (iterateFields castablePayload).result.map
        (fun outcome => outcome.2.mBufferPosition) = some 16 := by decide +kernel
    rw [iterated, Option.map_some, ends] at position
    exact absurd position (by decide)

theorem run_wellFormed_byte :
    ∃ created statuses last, omnmmsgPayload_create.result = some (.ok, created) ∧
      run payloadCallStep created byteCalls = some (statuses, last) ∧ last.WellFormed := by
  refine run_wellFormed byteCalls ?_ ?_
  · intro call member
    simp only [byteCalls, List.mem_cons, List.not_mem_nil, or_false] at member
    rcases member with rfl | rfl
    · trivial
    · trivial
  · refine along_cons_of_step ⟨promised_add, ?_⟩ addI8_result
      ⟨⟨promised_update .i8, ?_⟩, fun _ _ _ => trivial⟩
    · intro mutation scratch prepared
      cases prepared
      exact ⟨trivial, trivial⟩
    · intro mutation scratch prepared
      cases prepared
      refine ⟨?_, trivial⟩
      intro field search _
      have type : field.mFieldType = 11 := by
        have found : (bytePayload.findFieldInBuffer none 1).result.map
            (Option.map OmnmFieldImpl.mFieldType) = some (some 11) := by decide +kernel
        rw [search] at found
        exact Option.some.inj (Option.some.inj found)
      rw [type]
      rfl

end Example

end Omnm
