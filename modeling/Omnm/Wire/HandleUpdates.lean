import Omnm.Payload.FieldUpdates
import Omnm.Payload.Handles
import Omnm.Payload.Preparation
import Omnm.Wire.Iteration

/-!
# Updates of decoded fields through their handles

What an update through a handle does to a payload that decodes to a list of
fields. The data it writes is always of the form that its type prescribes
(`FieldUpdate.written_fits`), and data of the old length leaves a payload that
decodes to the list with that field changed (`Decodes.update_same`). Shorter
data does so as well, and leaves the last bytes of the list a second time behind
the tail (`Decodes.update_shorter`).
-/

set_option autoImplicit false

namespace Omnm

open FieldTypeTags (tag)

variable [FieldTypeTags]

/-! ## The data that is written -/

namespace FieldUpdate

variable {update : FieldUpdate} {type : MamaFieldType} {bytes : List UInt8}

/-- An update writes data of the form that its type prescribes. -/
theorem written_fits (written : update.written = some (type, bytes)) :
    type ≠ .unknown ∧ DataFits (tag type) bytes := by
  cases update with
  | scalar scalar value =>
      cases written
      exact ⟨scalar.fieldType_ne_unknown, scalar.dataFits_littleEndian value⟩
  | string value =>
      obtain ⟨string, -, same⟩ := Option.map_eq_some_iff.mp written
      cases same
      exact ⟨by simp, dataFits_terminated string⟩
  | dateTime value =>
      obtain ⟨dateTime, -, same⟩ := Option.map_eq_some_iff.mp written
      cases same
      exact ⟨by simp, dataFits_dateTime dateTime⟩
  | price value =>
      obtain ⟨price, -, same⟩ := Option.map_eq_some_iff.mp written
      cases same
      exact ⟨by simp, dataFits_price price⟩
  | subMsg value => cases written

end FieldUpdate

/-! ## The bytes around a field -/

namespace OmnmPayloadImpl

variable {msg next : OmnmPayloadImpl} {before after : List FieldEntry} {entry : FieldEntry}
  {entries : List FieldEntry} {allocator : Allocator} {type : UInt8} {bytes : List UInt8}
  {field : OmnmFieldImpl} {previous : BufferPtr}

/-- A buffer that holds encoded fields behind a header and up to the tail. -/
theorem decodes_of_buffer {header rest : List UInt8} (fits : AllFit entries)
    (buffer : msg.mPayloadBuffer = header ++ encodeAll entries ++ rest)
    (start : header.length = msg.getHeaderSize)
    (tail : msg.mPayloadBufferTail = header.length + (encodeAll entries).length) :
    msg.Decodes entries where
  fits := fits
  here := ⟨rest, by rw [buffer, ← start, List.append_assoc, List.drop_left]⟩
  ends := by rw [← start, tail]

/-- What stands in front of the length and the data of a field. -/
def frontOf (msg : OmnmPayloadImpl) (before : List FieldEntry) (entry : FieldEntry) : List UInt8 :=
  msg.mPayloadBuffer.take msg.getHeaderSize ++ encodeAll before ++
    ([entry.type] ++ littleEndian 2 entry.fid.toNat ++ entry.name.terminated)

/-- The position of a field behind others. -/
def positionOf (msg : OmnmPayloadImpl) (before : List FieldEntry) : Nat :=
  msg.getHeaderSize + (encodeAll before).length

/-- A field that replaces another one under its type and key, in its bytes. -/
theorem encodeAll_replaced (listed : dataLayout entry.type ≠ .unlisted) (header : List UInt8)
    (rest : List UInt8) :
    header ++ encodeAll before ++ ([entry.type] ++ littleEndian 2 entry.fid.toNat ++
        entry.name.terminated) ++ writtenLength entry.type bytes.length ++ bytes ++
        (encodeAll after ++ rest) =
      header ++ encodeAll (before ++ { entry with data := bytes } :: after) ++ rest := by
  rw [writtenLength_eq listed, encodeAll_append, encodeAll_cons, FieldEntry.encode, FieldEntry.head]
  simp only [List.append_assoc]

/-- The wire form of a field grows and shrinks with its data. -/
theorem length_encode_replaced (entry : FieldEntry) (bytes : List UInt8) :
    (FieldEntry.encode { entry with data := bytes }).length =
      4 + entry.name.bytes.length + entry.lengthPart.length + bytes.length := by
  have prefixes := @FieldEntry.length_lengthPart_eq _ { entry with data := bytes } entry rfl
  rw [FieldEntry.length_encode, prefixes]

theorem Decodes.header_le (decodes : msg.Decodes (before ++ entry :: after)) :
    msg.getHeaderSize ≤ msg.mPayloadBuffer.length := by
  obtain ⟨rest, here⟩ := decodes.here
  have length := congrArg List.length here
  have wide := entry.four_le_length_encode
  simp only [List.length_drop, encodeAll_append, encodeAll_cons, List.length_append] at length
  omega

theorem Decodes.length_header (decodes : msg.Decodes (before ++ entry :: after)) :
    (msg.mPayloadBuffer.take msg.getHeaderSize).length = msg.getHeaderSize := by
  rw [List.length_take, Nat.min_eq_left decodes.header_le]

theorem Decodes.length_frontOf (decodes : msg.Decodes (before ++ entry :: after)) :
    (msg.frontOf before entry).length = msg.positionOf before + 4 + entry.name.bytes.length := by
  simp only [frontOf, positionOf, List.length_append, decodes.length_header, List.length_singleton,
    length_littleEndian, CString.length_terminated]
  omega

/-- The handle of a decoded field of a listed type locates it. -/
theorem Decodes.located (decodes : msg.Decodes (before ++ entry :: after))
    (listed : dataLayout entry.type ≠ .unlisted) (previous : BufferPtr) :
    ∃ slack, msg.Located (entry.handle (msg.positionOf before) previous)
      (msg.frontOf before entry) entry.lengthPart entry.data (encodeAll after) slack := by
  obtain ⟨rest, here⟩ := decodes.here
  have place : (msg.mPayloadBuffer.take msg.getHeaderSize ++ encodeAll before).length =
      msg.positionOf before := by
    rw [List.length_append, decodes.length_header, positionOf]
  have buffer : msg.mPayloadBuffer = msg.mPayloadBuffer.take msg.getHeaderSize ++
      (encodeAll (before ++ entry :: after) ++ rest) := by
    rw [← here, List.take_append_drop]
  have ends := decodes.ends
  rw [encodeAll_append, encodeAll_cons] at buffer ends
  simp only [← List.append_assoc] at buffer
  rw [List.length_append, List.length_append, ← Nat.add_assoc, ← Nat.add_assoc, ← positionOf,
    ← place] at ends
  exact ⟨rest, place ▸ located_of_buffer listed buffer ends.symm previous⟩

/-- Fields with data of another field in its place. -/
theorem allFit_replaced (fits : AllFit (before ++ entry :: after))
    (data : DataFits entry.type bytes) :
    AllFit (before ++ { entry with data := bytes } :: after) := by
  intro other member
  rcases List.mem_append.mp member with front | rest
  · exact fits other (List.mem_append_left _ front)
  · rcases List.mem_cons.mp rest with rfl | behind
    · exact data
    · exact fits other (List.mem_append_right _ (List.mem_cons_of_mem _ behind))

/-- A handle shows the type, the fid and the place of its field, and the length of its data. -/
theorem handle_replaced (same : bytes.length = entry.data.length) (position : Nat) :
    FieldEntry.handle { entry with data := bytes } position previous =
      entry.handle position previous := by
  have head : (FieldEntry.head { entry with data := bytes }).length = entry.head.length := by
    rw [FieldEntry.length_head, FieldEntry.length_head,
      @FieldEntry.length_lengthPart_eq _ { entry with data := bytes } entry rfl]
  simp only [FieldEntry.handle, FieldEntry.dataPointer, head, same]

/-! ## Updating a decoded field -/

/-- Data of the old length leaves the list with that field changed, and the handle as it is. -/
theorem Decodes.update_same (decodes : msg.Decodes (before ++ entry :: after))
    (listed : dataLayout entry.type ≠ .unlisted) (fits : DataFits entry.type bytes)
    (same : bytes.length = entry.data.length)
    (updated : ResultsOk allocator msg type (entry.handle (msg.positionOf before) previous) bytes
      next field) :
    next.Decodes (before ++ { entry with data := bytes } :: after) ∧
      next.positionOf before = msg.positionOf before ∧
      field = FieldEntry.handle { entry with data := bytes } (next.positionOf before) previous := by
  obtain ⟨slack, located⟩ := decodes.located listed previous
  obtain ⟨-, -, castable⟩ := castable_of_updateFieldHandle updated
  obtain ⟨rfl, rfl⟩ := updated.unique (updateFieldHandle_same located castable same)
  refine ⟨decodes_of_buffer (allFit_replaced decodes.fits fits)
    (encodeAll_replaced listed ..) decodes.length_header ?_, rfl, ?_⟩
  · have ends := decodes.ends
    rw [encodeAll_append, encodeAll_cons, List.length_append, List.length_append] at ends ⊢
    rw [decodes.length_header, length_encode_replaced, same, ← FieldEntry.length_encode]
    exact ends.symm
  · rw [handle_replaced same]
    rfl

/-- Shorter data leaves the list with that field changed, and the last bytes of what follows a
second time. -/
theorem Decodes.update_shorter (decodes : msg.Decodes (before ++ entry :: after))
    (listed : dataLayout entry.type ≠ .unlisted) (fits : DataFits entry.type bytes)
    (shorter : bytes.length < entry.data.length) (small : msg.mPayloadBufferTail < 2 ^ 31)
    (updated : ResultsOk allocator msg type (entry.handle (msg.positionOf before) previous) bytes
      next field) :
    next.Decodes (before ++ { entry with data := bytes } :: after) ∧
      ∃ slack, next.mPayloadBuffer.drop (msg.positionOf before +
          (FieldEntry.encode { entry with data := bytes }).length) =
        encodeAll after ++
          (entry.data ++ encodeAll after).drop (bytes.length + (encodeAll after).length) ++
          slack := by
  obtain ⟨slack, located⟩ := decodes.located listed previous
  obtain ⟨-, -, castable⟩ := castable_of_updateFieldHandle updated
  obtain ⟨rfl, rfl⟩ := updated.unique (updateFieldHandle_shorter located castable shorter small)
  have position : (msg.frontOf before entry ++ writtenLength entry.type bytes.length ++
      bytes).length = msg.positionOf before +
        (FieldEntry.encode { entry with data := bytes }).length := by
    rw [List.length_append, List.length_append, decodes.length_frontOf, length_encode_replaced,
      length_writtenLength, located.width, FieldEntry.handle_mFieldType]
    omega
  refine ⟨@decodes_of_buffer _ _ _ _ ((entry.data ++ encodeAll after).drop
    (bytes.length + (encodeAll after).length) ++ slack) (allFit_replaced decodes.fits fits) ?_
    decodes.length_header ?_, slack, ?_⟩
  · rw [← encodeAll_replaced listed]
    simp only [frontOf, FieldEntry.handle_mFieldType, List.append_assoc]
  · dsimp only
    rw [decodes.length_frontOf, decodes.length_header, positionOf, encodeAll_append,
      encodeAll_cons, List.length_append, List.length_append, length_encode_replaced]
    omega
  · rw [← position]
    dsimp only [FieldEntry.handle_mFieldType]
    rw [List.drop_left]

end OmnmPayloadImpl

end Omnm
