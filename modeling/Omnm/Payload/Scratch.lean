import Omnm.Payload.Calls

/-!
# The message does not see the scratch buffer

Lookups, `addField`, `updateField`, `clear` and `unSerialize` neither read nor
write the scratch buffer. On a payload with another scratch buffer each gives
the same lookup result, and each mutation touches the same memory and gives the
same status and the same message (`Mutation.perform_withScratch`).
-/

set_option autoImplicit false

namespace Omnm

open FieldTypeTags (tag)

namespace OmnmPayloadImpl

/-- The payload with another scratch buffer. -/
def withScratch (mBuffer : List UInt8) (msg : OmnmPayloadImpl) : OmnmPayloadImpl :=
  { msg with mBuffer }

variable (scratch : List UInt8) (msg : OmnmPayloadImpl)

@[simp] theorem withScratch_mPayloadBuffer :
    (withScratch scratch msg).mPayloadBuffer = msg.mPayloadBuffer := rfl

@[simp] theorem withScratch_mPayloadBufferTail :
    (withScratch scratch msg).mPayloadBufferTail = msg.mPayloadBufferTail := rfl

@[simp] theorem withScratch_mPayloadBufferSize :
    (withScratch scratch msg).mPayloadBufferSize = msg.mPayloadBufferSize := rfl

@[simp] theorem withScratch_serialized :
    (withScratch scratch msg).serialized = msg.serialized := rfl

@[simp] theorem withScratch_mBuffer : (withScratch scratch msg).mBuffer = scratch := rfl

@[simp] theorem withScratch_self : withScratch msg.mBuffer msg = msg := rfl

end OmnmPayloadImpl

open OmnmPayloadImpl

/-- A computation on the payload with another scratch buffer, which it leaves alone. -/
def carryScratch (scratch : List UInt8) (computation : Mutated) : Mutated :=
  Prod.map id (withScratch scratch) <$> computation

section

variable {scratch : List UInt8} {msg : OmnmPayloadImpl}

theorem carryScratch_pure (status : MamaStatus) :
    carryScratch scratch (pure (status, msg)) = pure (status, withScratch scratch msg) := rfl

theorem carryScratch_bind {α : Type} (first : Traced Region α) (second : α → Mutated) :
    carryScratch scratch (first >>= second) =
      first >>= fun value => carryScratch scratch (second value) :=
  map_bind ..

theorem result_carryScratch (computation : Mutated) :
    (carryScratch scratch computation).result =
      computation.result.map (Prod.map id (withScratch scratch)) :=
  Traced.result_map ..

theorem clear_withScratch : (withScratch scratch msg).clear = carryScratch scratch msg.clear := by
  rw [OmnmPayloadImpl.clear, OmnmPayloadImpl.clear, carryScratch_bind]
  rfl

theorem unSerialize_withScratch (allocator : Allocator) (buffer : Option Incoming) (length : Nat) :
    omnmmsgPayload_unSerialize allocator (withScratch scratch msg) buffer length =
      carryScratch scratch (omnmmsgPayload_unSerialize allocator msg buffer length) := by
  cases buffer with
  | none => rfl
  | some incoming =>
      simp only [omnmmsgPayload_unSerialize]
      have header : loadHeader (withScratch scratch msg) incoming = loadHeader msg incoming := by
        cases incoming <;> rfl
      split
      · rfl
      · rw [header, carryScratch_bind]
        refine congrArg _ ?_
        funext header
        split
        · rfl
        · rw [carryScratch_bind]
          refine congrArg _ ?_
          funext wiped
          split
          · rfl
          · cases incoming with
            | own =>
                dsimp only
                split <;> rfl
            | other memory =>
                simp only [carryScratch_bind]
                rfl

end

variable [FieldTypeTags] {scratch : List UInt8} {msg : OmnmPayloadImpl}

/-! ## Lookups -/

theorem findFrom_withScratch (name : Option CString) (fid : UInt16) (rounds : Nat)
    (iter : OmnmIterImpl) :
    (withScratch scratch msg).findFrom name fid rounds iter = msg.findFrom name fid rounds iter := by
  induction rounds generalizing iter with
  | zero => rfl
  | succ rounds ih =>
      have next : omnmmsgPayloadIter_next iter (withScratch scratch msg) =
          omnmmsgPayloadIter_next iter msg := rfl
      have matches_same : ∀ candidate, nameMatches (withScratch scratch msg) name candidate =
          nameMatches msg name candidate := fun _ => rfl
      simp only [findFrom, next, matches_same, ih]

@[simp] theorem findFieldInBuffer_withScratch (name : Option CString) (fid : UInt16) :
    (withScratch scratch msg).findFieldInBuffer name fid = msg.findFieldInBuffer name fid := by
  have init : omnmmsgPayloadIterImpl_init (withScratch scratch msg) =
      omnmmsgPayloadIterImpl_init msg := rfl
  have bound : iterationBound (withScratch scratch msg) = iterationBound msg := rfl
  simp only [findFieldInBuffer, init, bound, findFrom_withScratch]

@[simp] theorem getField_withScratch (name : Option CString) (fid : UInt16) :
    (withScratch scratch msg).getField name fid = msg.getField name fid := by
  simp only [getField, findFieldInBuffer_withScratch]

/-! ## Mutators -/

theorem addField_withScratch (allocator : Allocator) (type : UInt8) (name : Option CString)
    (fid : UInt16) (buffer : Option (List UInt8)) :
    (withScratch scratch msg).addField allocator type name fid buffer =
      carryScratch scratch (msg.addField allocator type name fid buffer) := by
  simp only [addField]
  split
  · rfl
  · split
    · rfl
    · cases validateNameFid name fid with
      | some status => rfl
      | none =>
          have tail : newTailOffset (withScratch scratch msg) type name (buffer.getD []).length =
              newTailOffset msg type name (buffer.getD []).length := rfl
          simp only [carryScratch_bind, carryScratch_pure, tail]
          rfl

/-- A handle is updated in the same way. -/
theorem updateFieldHandle_withScratch (allocator : Allocator) (type : UInt8) (field : OmnmFieldImpl)
    (bytes : List UInt8) :
    (withScratch scratch msg).updateFieldHandle allocator type field (some bytes) =
      (fun outcome => (outcome.1, withScratch scratch outcome.2.1, outcome.2.2)) <$>
        msg.updateFieldHandle allocator type field (some bytes) := by
  have resized : ∀ data, (withScratch scratch msg).resizeField allocator field data bytes.length =
      (fun outcome => (withScratch scratch outcome.1, outcome.2)) <$>
        msg.resizeField allocator field data bytes.length := by
    intro data
    simp only [resizeField]
    split
    · simp only [moveRest, withScratch_mPayloadBuffer, withScratch_mPayloadBufferTail,
        withScratch_mPayloadBufferSize, map_bind, map_pure]
      simp only [withScratch]
    · rfl
  simp only [updateFieldHandle]
  split
  · rfl
  · cases field.mData with
    | null => rfl
    | stray => rfl
    | offset data =>
        simp only [resized, map_bind, bind_map_left, map_pure]
        rfl

theorem updateField_withScratch (allocator : Allocator) (type : UInt8) (name : Option CString)
    (fid : UInt16) (buffer : Option (List UInt8)) :
    (withScratch scratch msg).updateField allocator type name fid buffer =
      carryScratch scratch (msg.updateField allocator type name fid buffer) := by
  cases buffer with
  | none => simp only [updateField, true_or, if_true, carryScratch_pure]
  | some bytes =>
      simp only [updateField, findFieldInBuffer_withScratch]
      split
      · rfl
      · rw [carryScratch_bind]
        refine congrArg _ ?_
        funext found
        cases found with
        | none => exact addField_withScratch ..
        | some field =>
            dsimp only
            split
            · rfl
            · rw [updateFieldHandle_withScratch, carryScratch_bind, bind_map_left]
              rfl

/-- A mutation does the same whatever the scratch buffer holds. -/
theorem Mutation.perform_withScratch (mutation : Mutation) (memory : CallMemory)
    (name : Option CString) (fid : UInt16) :
    mutation.perform memory (withScratch scratch msg) name fid =
      carryScratch scratch (mutation.perform memory msg name fid) := by
  cases mutation with
  | refuse status => rfl
  | add type data => exact addField_withScratch ..
  | update type data => exact updateField_withScratch ..
  | updateVector type bytes =>
      simp only [perform, getField_withScratch, carryScratch_bind]
      refine congrArg _ ?_
      funext outcome
      split
      · exact addField_withScratch ..
      · rw [updateFieldHandle_withScratch, carryScratch_bind, bind_map_left]
        rfl

end Omnm
