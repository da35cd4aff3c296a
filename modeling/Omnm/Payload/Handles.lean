import Omnm.Payload.Splicing

/-!
# What an update of a handle leaves

`updateFieldHandle_eq` says where an update puts bytes when the handle locates a
field and allocations succeed. Here is what needs less. An update that is
reported as OK keeps the header, the scratch buffer and the type, fid and size
of the handle, whatever the handle points to (`ResultsOk.kept`); its tail and
its capacity are computed from the two lengths alone (`ResultsOk.tail`,
`ResultsOk.capacity`).

Data of the length that the handle has, or shorter data, needs no memory, and
the buffer is then known to its last byte (`updateFieldHandle_same`,
`updateFieldHandle_shorter`): a shorter field leaves the last bytes of the old
message behind the new tail.
-/

set_option autoImplicit false

namespace Omnm

namespace Allocator

/-- Growing does not move the buffer. -/
def InPlace (allocator : Allocator) : Prop :=
  ∀ buffer newSize growth, allocator.grow buffer newSize = some growth → growth.moved = false

theorem zeroing_inPlace : zeroing.InPlace := by
  intro buffer newSize growth grown
  cases grown
  rfl

theorem InPlace.moved {allocator : Allocator} (inPlace : allocator.InPlace) (buffer : List UInt8)
    (newSize : Nat) : (allocateBufferMemory allocator buffer newSize).moved = false := by
  unfold allocateBufferMemory
  split
  · rfl
  · cases grown : allocator.grow buffer newSize with
    | none => rfl
    | some growth => exact inPlace buffer newSize growth grown

end Allocator

variable [FieldTypeTags]

namespace OmnmPayloadImpl

variable {msg next : OmnmPayloadImpl} {allocator : Allocator} {type : UInt8}
  {field after : OmnmFieldImpl} {bytes : List UInt8}

/-! ## Any handle -/

/-- An update of a handle that is reported as OK has data, and a type that the handle has or
can be cast to. -/
theorem castable_of_updateFieldHandle {buffer : Option (List UInt8)}
    {outcome : OmnmPayloadImpl × OmnmFieldImpl}
    (updated : (msg.updateFieldHandle allocator type field buffer).result = some (.ok, outcome)) :
    ∃ bytes, buffer = some bytes ∧
      ¬ (field.mFieldType ≠ type ∧ areFieldTypesCastable field.mFieldType type = false) := by
  cases buffer with
  | none => cases updated
  | some bytes =>
      refine ⟨bytes, rfl, ?_⟩
      intro refused
      rw [updateFieldHandle, if_pos refused] at updated
      cases updated

/-- A type without a fixed width is updated under its own name only. -/
theorem mFieldType_of_updateFieldHandle {type : MamaFieldType} {buffer : Option (List UInt8)}
    {outcome : OmnmPayloadImpl × OmnmFieldImpl}
    (wide : isFieldTypeFixedWidth (FieldTypeTags.tag type) = false)
    (updated : (msg.updateFieldHandle allocator (FieldTypeTags.tag type) field buffer).result =
      some (.ok, outcome)) :
    field.mFieldType = FieldTypeTags.tag type := by
  obtain ⟨-, -, castable⟩ := castable_of_updateFieldHandle updated
  by_contra differs
  exact castable ⟨differs, by rw [areFieldTypesCastable, wide, Bool.and_false]⟩

omit [FieldTypeTags] in
/-- The move computes tail, capacity and handle from the lengths. -/
theorem moveRest_result {data length : Nat} {delta : Int}
    (difference : asInt64 length - asInt64 field.mSize = delta) :
    ∃ memory moved, (moveRest allocator msg field data length).result = some
        ({ msg with
            mPayloadBuffer := memory
            mPayloadBufferTail := asSize (asInt32 msg.mPayloadBufferTail + delta) },
          reapplyField moved field) ∧
      (allocator.InPlace → moved = false) ∧
      memory.length = if 0 < delta then (allocateBufferMemory allocator msg.mPayloadBuffer
        (msg.mPayloadBufferSize + delta).toNat).buffer.length else msg.mPayloadBufferSize := by
  obtain ⟨allocation, allocated⟩ : ∃ allocation, (if 0 < delta then
      allocateBufferMemory allocator msg.mPayloadBuffer (msg.mPayloadBufferSize + delta).toNat
    else ⟨true, msg.mPayloadBuffer, false⟩) = allocation := ⟨_, rfl⟩
  obtain ⟨source, placed⟩ : ∃ source, asSize (data + field.mSize) = source := ⟨_, rfl⟩
  refine ⟨overwrite allocation.buffer (asSize (source + delta)) (slice allocation.buffer source
    (asUInt32 (msg.mPayloadBufferTail - source))), allocation.moved, ?_, ?_, ?_⟩
  · simp only [moveRest, difference, placed, allocated, Traced.result_bind, result_move,
      Option.bind_some, Traced.result_pure, reapplyField]
  · intro inPlace
    rw [← allocated]
    split
    · exact inPlace.moved ..
    · rfl
  · rw [length_overwrite, ← allocated]
    split
    · rfl
    · rfl

/-- An update of a handle was reported as OK. -/
def ResultsOk (allocator : Allocator) (msg : OmnmPayloadImpl) (type : UInt8) (field : OmnmFieldImpl)
    (bytes : List UInt8) (next : OmnmPayloadImpl) (after : OmnmFieldImpl) : Prop :=
  (msg.updateFieldHandle allocator type field (some bytes)).result = some (.ok, next, after)

namespace ResultsOk

theorem unique {next' : OmnmPayloadImpl} {after' : OmnmFieldImpl}
    (updated : ResultsOk allocator msg type field bytes next after)
    (known : ResultsOk allocator msg type field bytes next' after') :
    next = next' ∧ after = after' := by
  cases updated.symm.trans known
  exact ⟨rfl, rfl⟩

/-- Behind the resizing an update only stores into the buffer. -/
theorem exists_resized (updated : ResultsOk allocator msg type field bytes next after) :
    ∃ data resized, (resizeField allocator msg field data bytes.length).result = some resized ∧
      after = resized.2 ∧ next.mHeader = resized.1.mHeader ∧ next.mBuffer = resized.1.mBuffer ∧
      next.mPayloadBufferTail = resized.1.mPayloadBufferTail ∧
      next.mPayloadBufferSize = resized.1.mPayloadBufferSize := by
  unfold ResultsOk updateFieldHandle at updated
  dsimp only at updated
  split at updated
  · cases updated
  · cases place : field.mData with
    | null | stray => simp [place] at updated
    | offset data =>
        simp only [place] at updated
        obtain ⟨⟨sized, moved⟩, resized, written⟩ := Traced.result_bind_eq_some.mp updated
        obtain ⟨memory, rewritten, stored⟩ := Traced.result_bind_eq_some.mp written
        simp only [Traced.result_bind, result_store, Option.bind_some, Traced.result_pure,
          Option.some.injEq] at stored
        cases stored
        have size : memory.length = sized.mPayloadBuffer.length := by
          unfold rewriteLength at rewritten
          split at rewritten
          · cases rewritten
            rfl
          · split at rewritten
            · cases rewritten
            · cases rewritten
              exact length_overwrite ..
        exact ⟨data, (sized, after), resized, rfl, rfl, rfl, rfl,
          by simp only [mPayloadBufferSize, length_overwrite, size]⟩

/-- Data of the length that the handle has leaves the tail, the capacity and the handle. -/
theorem lengths_same (updated : ResultsOk allocator msg type field bytes next after)
    (same : bytes.length = field.mSize) :
    next.mHeader = msg.mHeader ∧ next.mBuffer = msg.mBuffer ∧
      next.mPayloadBufferTail = msg.mPayloadBufferTail ∧
      next.mPayloadBufferSize = msg.mPayloadBufferSize ∧ after = field := by
  obtain ⟨data, resized, result, handle, header, scratch, tail, size⟩ := updated.exists_resized
  rw [resizeField, if_neg (not_not.mpr same)] at result
  cases result
  exact ⟨header, scratch, tail, size, handle⟩

/-- Data of another length moves the tail and grows the buffer by the difference. -/
theorem lengths_differ (updated : ResultsOk allocator msg type field bytes next after)
    (differs : bytes.length ≠ field.mSize) {delta : Int}
    (difference : asInt64 bytes.length - asInt64 field.mSize = delta) :
    next.mHeader = msg.mHeader ∧ next.mBuffer = msg.mBuffer ∧
      next.mPayloadBufferTail = asSize (asInt32 msg.mPayloadBufferTail + delta) ∧
      (next.mPayloadBufferSize = if 0 < delta then (allocateBufferMemory allocator
        msg.mPayloadBuffer (msg.mPayloadBufferSize + delta).toNat).buffer.length
        else msg.mPayloadBufferSize) ∧
      ∃ moved, after = reapplyField moved field ∧ (allocator.InPlace → moved = false) := by
  obtain ⟨data, resized, result, handle, header, scratch, tail, size⟩ := updated.exists_resized
  obtain ⟨memory, moved, moves, stays, length⟩ := moveRest_result difference
  rw [resizeField, if_pos differs, moves] at result
  cases result
  dsimp only at header scratch tail
  exact ⟨header, scratch, tail, size.trans length, moved, handle, stays⟩

/-- What an update keeps. -/
theorem kept (updated : ResultsOk allocator msg type field bytes next after) :
    next.mHeader = msg.mHeader ∧ next.mBuffer = msg.mBuffer ∧ after.mSize = field.mSize := by
  by_cases same : bytes.length = field.mSize
  · obtain ⟨header, scratch, -, -, rfl⟩ := updated.lengths_same same
    exact ⟨header, scratch, rfl⟩
  · obtain ⟨header, scratch, -, -, moved, rfl, -⟩ := updated.lengths_differ same rfl
    exact ⟨header, scratch, rfl⟩

/-- A handle into a buffer that stays where it is, is kept. -/
theorem handle (updated : ResultsOk allocator msg type field bytes next after)
    (inPlace : allocator.InPlace) : after = field := by
  by_cases same : bytes.length = field.mSize
  · exact (updated.lengths_same same).2.2.2.2
  · obtain ⟨-, -, -, -, moved, rfl, stays⟩ := updated.lengths_differ same rfl
    rw [stays inPlace, reapplyField_false]

/-- The tail moves by the difference of the lengths, where its conversions are exact. -/
theorem tail (updated : ResultsOk allocator msg type field bytes next after)
    (small : bytes.length = field.mSize ∨ msg.mPayloadBufferTail < 2 ^ 31)
    (inside : field.mSize ≤ msg.mPayloadBufferTail) (memory : bytes.length < 2 ^ 63) :
    next.mPayloadBufferTail + field.mSize = msg.mPayloadBufferTail + bytes.length := by
  by_cases same : bytes.length = field.mSize
  · rw [(updated.lengths_same same).2.2.1, same]
  · have below := small.resolve_left same
    have difference : asInt64 bytes.length - asInt64 field.mSize =
        (bytes.length : Int) - field.mSize := by
      rw [asInt64_of_lt memory, asInt64_of_lt (by omega)]
    have sum : (msg.mPayloadBufferTail : Int) + (bytes.length - field.mSize) =
        (msg.mPayloadBufferTail + bytes.length - field.mSize : Nat) := by omega
    rw [(updated.lengths_differ same difference).2.2.1, asInt32_of_lt below, sum,
      asSize_of_lt (by omega)]
    omega

/-- An exact allocator grows the buffer by what the data grows, however much room the buffer
had. -/
theorem capacity (updated : ResultsOk allocator msg type field bytes next after)
    (exact : allocator.Exact) (succeeds : allocator.Succeeds) (held : field.mSize < 2 ^ 63)
    (memory : bytes.length < 2 ^ 63) :
    next.mPayloadBufferSize = msg.mPayloadBufferSize + (bytes.length - field.mSize) := by
  by_cases same : bytes.length = field.mSize
  · rw [(updated.lengths_same same).2.2.2.1, same, Nat.sub_self, Nat.add_zero]
  · have difference : asInt64 bytes.length - asInt64 field.mSize =
        (bytes.length : Int) - field.mSize := by
      rw [asInt64_of_lt memory, asInt64_of_lt held]
    rw [(updated.lengths_differ same difference).2.2.2.1,
      length_allocateBufferMemory exact succeeds]
    simp only [mPayloadBufferSize]
    split
    · omega
    · omega

end ResultsOk

/-! ## A handle that locates its field -/

section Located

variable {front lengthPart old back slack : List UInt8}

/-- Data of the same length replaces the old data where it stands. -/
theorem updateFieldHandle_same (located : msg.Located field front lengthPart old back slack)
    (castable : ¬ (field.mFieldType ≠ type ∧ areFieldTypesCastable field.mFieldType type = false))
    (same : bytes.length = old.length) :
    ResultsOk allocator msg type field bytes { msg with
      mPayloadBuffer :=
        front ++ writtenLength field.mFieldType bytes.length ++ bytes ++ (back ++ slack) } field := by
  have resized : (resizeField allocator msg field (front.length + lengthPart.length)
      bytes.length).result = some ({ msg with
        mPayloadBuffer := front ++ lengthPart ++ old ++ (back ++ slack)
        mPayloadBufferTail := msg.mPayloadBufferTail }, reapplyField false field) := by
    rw [resizeField, if_neg (not_not.mpr (same.trans located.size.symm)), ← List.append_assoc,
      ← located.buffer, reapplyField_false]
    rfl
  exact (updateFieldHandle_of_resized castable located.width located.data same.symm resized).1

/-- Shorter data draws up what follows, whose last bytes stay behind the new tail. -/
theorem updateFieldHandle_shorter (located : msg.Located field front lengthPart old back slack)
    (castable : ¬ (field.mFieldType ≠ type ∧ areFieldTypesCastable field.mFieldType type = false))
    (shorter : bytes.length < old.length) (small : msg.mPayloadBufferTail < 2 ^ 31) :
    ResultsOk allocator msg type field bytes { msg with
      mPayloadBuffer := front ++ writtenLength field.mFieldType bytes.length ++ bytes ++
        (back ++ (old ++ back).drop (bytes.length + back.length) ++ slack)
      mPayloadBufferTail := front.length + lengthPart.length + bytes.length + back.length }
      field := by
  obtain ⟨buffer, tail, width, data, size⟩ := located
  rw [← size] at tail
  have moves := @moveRest_of_small msg allocator field _ _ _ _ tail small (by omega)
    (if_neg (by omega : ¬ 0 < (bytes.length : Int) - field.mSize))
  have source : front.length + lengthPart.length + field.mSize =
      (front ++ lengthPart ++ old).length := by
    rw [size, List.length_append, List.length_append]
  have behind : slice msg.mPayloadBuffer (front.length + lengthPart.length + field.mSize)
      back.length = back := by
    rw [buffer, source]
    exact slice_append _ back slack
  have drawn := @overwrite_drawn_up (front ++ lengthPart) old back slack _ (Nat.le_of_lt shorter)
  rw [List.length_append, ← buffer] at drawn
  have resized : (resizeField allocator msg field (front.length + lengthPart.length)
      bytes.length).result = some ({ msg with
        mPayloadBuffer := front ++ lengthPart ++ old.take bytes.length ++
          (back ++ (old ++ back).drop (bytes.length + back.length) ++ slack)
        mPayloadBufferTail := front.length + lengthPart.length + bytes.length + back.length },
        reapplyField false field) := by
    rw [resizeField, if_pos (by omega), moves]
    simp only [Traced.result_bind, result_move, Option.bind_some, Traced.result_pure, behind, drawn,
      List.append_assoc]
  exact (updateFieldHandle_of_resized castable width data
    (List.length_take_of_le (Nat.le_of_lt shorter)) resized).1

end Located

end OmnmPayloadImpl

end Omnm
