import Omnm.Wire.Iteration
import Omnm.Payload.Splicing

/-!
# Payloads that hold a message

A payload `Represents` a message when its bytes up to the tail are the wire form
of the message and its header record agrees with them. What lies past the tail
does not matter.

The mutators and the message operations keep step: from a payload that
represents a message, `clear`, `addField` and `updateField` return the status of
the message operation and leave a payload that represents its result, and they
stay inside the buffer. An update needs one thing more: a field that it finds
with another, castable type must lay its data out in the same way, since the
type that stands in the buffer is not changed.
-/

set_option autoImplicit false

namespace Omnm

variable [FieldTypeTags]

/-- The payload holds the message. -/
structure OmnmPayloadImpl.Represents (msg : OmnmPayloadImpl) (message : Message) : Prop where
  buffer : ∃ slack, msg.mPayloadBuffer = message.encode ++ slack
  tail : msg.mPayloadBufferTail = message.encode.length
  version : msg.mHeader.mWireFormatVersion = message.version
  remaining : msg.mHeader.mRemainingHeaderSize.toNat = message.extra.length

/-- The payload whose buffer is a message and nothing else. -/
def Message.payload (message : Message) : OmnmPayloadImpl where
  mPayloadBuffer := message.encode
  mPayloadBufferTail := message.encode.length
  mHeader := ⟨message.kind, message.version, UInt8.ofNat message.extra.length⟩
  mBuffer := []

/-- Every message is held by a payload. -/
theorem Message.payload_represents (message : Message) :
    message.payload.Represents message where
  buffer := ⟨[], (List.append_nil _).symm⟩
  tail := rfl
  version := rfl
  remaining := UInt8.toNat_ofNat_of_lt' message.extra_lt

namespace OmnmPayloadImpl.Represents

variable {msg : OmnmPayloadImpl} {message : Message} {allocator : Allocator}
  {name : Option CString} {fid : UInt16} {data : FieldData}

theorem getHeaderSize_eq (represents : msg.Represents message) :
    msg.getHeaderSize = message.header.length := by
  rw [getHeaderSize, represents.remaining, Message.length_header, sizeofOmnmHeader]

theorem serialized_eq (represents : msg.Represents message) : msg.serialized = message.encode := by
  obtain ⟨slack, buffer⟩ := represents.buffer
  rw [serialized, represents.tail, buffer, List.take_left]

theorem tail_le (represents : msg.Represents message) :
    msg.mPayloadBufferTail ≤ msg.mPayloadBufferSize := by
  obtain ⟨slack, buffer⟩ := represents.buffer
  rw [represents.tail, mPayloadBufferSize, buffer, List.length_append]
  exact Nat.le_add_right ..

theorem decodes (represents : msg.Represents message) : msg.Decodes message.entries where
  fits := message.fits
  here := by
    obtain ⟨slack, buffer⟩ := represents.buffer
    refine ⟨slack, ?_⟩
    rw [represents.getHeaderSize_eq, buffer, Message.encode, List.append_assoc, List.drop_left]
  ends := by
    rw [represents.getHeaderSize_eq, represents.tail, Message.encode, List.length_append]

/-- A field of the message stands behind the fields before it. -/
theorem here_of_split (represents : msg.Represents message) {before after : List FieldEntry}
    {entry : FieldEntry} (split : message.entries = before ++ entry :: after) :
    ∃ rest, msg.mPayloadBuffer.drop (message.header.length + (encodeAll before).length) =
      entry.encode ++ rest := by
  obtain ⟨rest, here⟩ := represents.decodes.here
  rw [represents.getHeaderSize_eq, split, encodeAll_append, List.append_assoc, encodeAll_cons,
    List.append_assoc] at here
  exact ⟨_, drop_behind here⟩

/-- A new payload holds the empty message. -/
theorem newPayload : newPayload.Represents Message.empty where
  buffer := ⟨_, rfl⟩
  tail := rfl
  version := rfl
  remaining := rfl

/-! ## Lookup -/

/-- A lookup finds the first field of that key, or none when there is none. -/
theorem findFieldInBuffer (represents : msg.Represents message) (name : Option CString)
    (fid : UInt16) :
    (message.find name fid = none ∧ (msg.findFieldInBuffer name fid).result = some none) ∨
      ∃ before entry after previous, message.entries = before ++ entry :: after ∧
        message.find name fid = some entry ∧ entry.hasKey name fid = true ∧
        (∀ other ∈ before, other.hasKey name fid = false) ∧
        (msg.findFieldInBuffer name fid).result = some (some
          (entry.handle (message.header.length + (encodeAll before).length) previous)) := by
  rw [represents.decodes.findFieldInBuffer name fid, represents.getHeaderSize_eq]
  cases found : message.find name fid with
  | none =>
      have absent : ∀ entry ∈ message.entries, entry.hasKey name fid = false := by
        intro entry member
        simpa using List.find?_eq_none.mp found entry member
      exact .inl ⟨rfl, congrArg some (findHandle_eq_none absent)⟩
  | some entry =>
      obtain ⟨before, after, split, matching, absent⟩ := exists_split_of_find found
      obtain ⟨previous, handle⟩ := findHandle_split matching absent after
        message.header.length .null
      exact .inr ⟨before, entry, after, previous, split, rfl, matching, absent,
        by rw [split, handle]⟩

end OmnmPayloadImpl.Represents

end Omnm
