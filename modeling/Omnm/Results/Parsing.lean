import Omnm.Results.Acceptance
import Omnm.Wire.Canonical

/-!
# The iteration as a parser

What the format means is said by `Message.decode`: a header of an accepted version
and complete fields up to the end. The code has no such parser. It takes in bytes
after a look at their version, and reads fields where an iterator finds them.

The two agree (`decode_iff_shown`): bytes decode to a message exactly if, once
they are taken in, an iteration is safe and shows the fields of the message behind
its header.
-/

set_option autoImplicit false

namespace Omnm

open OmnmPayloadImpl

section

variable [FieldTypeTags]

/-- The bytes behind the header of a payload that decodes to fields are these fields. -/
theorem OmnmPayloadImpl.Decodes.drop_serialized {msg : OmnmPayloadImpl} {entries : List FieldEntry}
    (decodes : msg.Decodes entries) :
    msg.serialized.drop msg.getHeaderSize = encodeAll entries := by
  obtain ⟨-, ⟨rest, here⟩, ends⟩ := decodes
  rw [serialized, ← ends, List.drop_take, here, Nat.add_sub_cancel_left, List.take_left]

/-- Where an iteration is safe, the header and the fields that it shows are all the bytes. -/
theorem encode_of_shown {msg : OmnmPayloadImpl} {message : Message}
    (inside : msg.mPayloadBufferTail ≤ msg.mPayloadBufferSize) (safe : msg.IterationSafe)
    (header : msg.serialized.take msg.getHeaderSize = message.header)
    (fields : msg.decodedFields = some (message.entries.map FieldEntry.value)) :
    msg.serialized = message.encode := by
  have whole : msg.serialized.length = msg.mPayloadBufferTail := List.length_take_of_le inside
  rcases (iterationSafe_iff inside).mp safe with short | ⟨entries, decodes⟩
  · have none : message.entries = [] := by
      rw [decodedFields_of_tail_le short, Option.some.injEq] at fields
      exact List.map_eq_nil_iff.mp fields.symm
    rw [List.take_of_length_le (by omega)] at header
    rw [header, Message.encode, none, encodeAll_nil, List.append_nil]
  · have same : entries = message.entries := by
      rw [decodes.decodedFields, Option.some.injEq] at fields
      exact List.map_injective_iff.mpr FieldEntry.value_injective fields
    calc msg.serialized
        = msg.serialized.take msg.getHeaderSize ++ msg.serialized.drop msg.getHeaderSize :=
          (List.take_append_drop ..).symm
      _ = message.header ++ encodeAll message.entries := by
          rw [header, decodes.drop_serialized, same]

/-- Bytes that are accepted decode to a message exactly if an iteration over them is safe, and
shows the fields of the message behind its header. -/
theorem decode_iff_shown {allocator : Allocator} {msg next : OmnmPayloadImpl}
    {memory : List UInt8} {length : Nat} (readable : length ≤ memory.length)
    (accepted : (omnmmsgPayload_unSerialize allocator msg (some (.other memory)) length).result =
      some (.ok, next)) (message : Message) :
    Message.decode (memory.take length) = some message ↔
      next.IterationSafe ∧ next.serialized.take next.getHeaderSize = message.header ∧
        next.decodedFields = some (message.entries.map FieldEntry.value) := by
  obtain ⟨-, -, -, -, slack, rfl⟩ := of_unSerialize_ok readable accepted
  have bytes := takenPayload_serialized msg readable slack
  constructor
  · intro decoded
    have represents := (@Represents.takenPayload_iff _ msg message _ slack _ readable).mpr decoded
    refine ⟨represents.decodes.iterationSafe, ?_, represents.decodes.decodedFields⟩
    rw [represents.serialized_eq, represents.getHeaderSize_eq, Message.encode, List.take_left]
  · rintro ⟨safe, header, fields⟩
    rw [Message.decode_eq_some_iff, ← bytes]
    exact encode_of_shown (takenPayload_tail_le readable slack) safe header fields

end

section Example

attribute [local instance] mamaFieldTypes

/-- A buffer with a byte under fid 2. -/
def oneByteBuffer : List UInt8 := [79, 1, 0, 11, 2, 0, 0, 7]

/-- The buffer is accepted, and what it decodes to is what an iteration shows. -/
theorem oneByteBuffer_decodes :
    ∃ next message, (omnmmsgPayload_unSerialize .zeroing newPayload
        (some (.other oneByteBuffer)) 8).result = some (.ok, next) ∧
      Message.decode oneByteBuffer = some message ∧
      next.decodedFields = some (message.entries.map FieldEntry.value) := by
  have readable : 8 ≤ oneByteBuffer.length := Nat.le_refl 8
  obtain ⟨slack, result, -⟩ := @unSerialize_of_version .zeroing newPayload (.other oneByteBuffer) 8
    readable (by decide) (by decide) (by decide)
    (allocateBufferMemory_of_succeeds Allocator.zeroing_succeeds _ _)
  obtain ⟨message, decoded⟩ := Option.isSome_iff_exists.mp
    (show (Message.decode oneByteBuffer).isSome = true by decide +kernel)
  exact ⟨_, message, result, decoded, ((decode_iff_shown readable result message).mp decoded).2.2⟩

end Example

end Omnm
