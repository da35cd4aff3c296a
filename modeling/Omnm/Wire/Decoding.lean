import Omnm.Wire.Message
import Omnm.Payload.Splicing

/-!
# The iterator decodes what the encoder writes

One call of `omnmmsgPayloadIter_next` at an encoded field yields that field and
leaves the iterator behind it, and it reads no byte past the field
(`next_of_drop`, `every_next_of_drop`). Conversely, a field that the iterator
yields was there, completely encoded, whenever its data ends inside the buffer
(`encoded_of_next`). So the iterator is a decoder for exactly the wire form of
fields, and its only weakness is that nothing keeps a field inside the tail.
-/

set_option autoImplicit false

namespace Omnm

/-! ## Names -/

/-- The name pointer of a field whose name stands at an offset. -/
def namePointer (name : CString) (position : Nat) : BufferPtr :=
  if name = CString.empty then .null else .offset position

section Names

variable {memory rest : List UInt8} {position : Nat}

/-- A field with a name starts with a byte that is not NUL. -/
theorem exists_first_of_name {name : CString} (named : name ≠ CString.empty)
    (here : memory.drop position = name.terminated ++ rest) :
    ∃ first, first ≠ 0 ∧
      (loadInteger Region.message memory position 1).result = some first := by
  cases split : name.bytes with
  | nil => exact absurd (CString.empty_iff.mpr split) named
  | cons byte bytes =>
      have front : memory.drop position = [byte] ++ (bytes ++ [0] ++ rest) := by
        rw [here, CString.terminated, split]
        simp
      refine ⟨byte.toNat, ?_, result_loadInteger_of_drop front rfl (by decide)⟩
      intro zero
      have nul : byte = 0 := UInt8.toNat_inj.mp zero
      exact name.noNul (by rw [split, nul]; exact List.mem_cons_self ..)

theorem first_of_no_name (here : memory.drop position = CString.empty.terminated ++ rest) :
    (loadInteger Region.message memory position 1).result = some 0 :=
  result_loadInteger_of_drop (show memory.drop position = [0] ++ rest from here) rfl (by decide)

theorem locateName_of_drop {name : CString} (here : memory.drop position = name.terminated ++ rest) :
    (locateName memory position).result =
      some (namePointer name position, position + name.terminated.length) := by
  by_cases named : name = CString.empty
  · subst named
    simp [locateName, first_of_no_name here, namePointer, CString.terminated, CString.empty]
  · obtain ⟨first, notNul, loaded⟩ := exists_first_of_name named here
    simp only [locateName, Traced.result_bind, loaded, Option.bind_some, ne_eq, notNul,
      not_false_eq_true, if_true, result_strlen_of_drop here, Traced.result_pure, namePointer,
      if_neg named, CString.length_terminated, Nat.add_assoc]

theorem every_locateName_of_drop {name : CString} {limit : Nat}
    (here : memory.drop position = name.terminated ++ rest) :
    Traced.Every (Access.ReadsBelow limit) (locateName memory position) ↔
      position + name.terminated.length ≤ limit := by
  by_cases named : name = CString.empty
  · subst named
    simp [locateName, every_loadInteger, first_of_no_name here, Access.ReadsBelow, CString.empty]
  · obtain ⟨first, notNul, loaded⟩ := exists_first_of_name named here
    simp only [locateName, Traced.every_bind, every_loadInteger, loaded, Option.some.injEq,
      forall_eq', ne_eq, notNul, not_false_eq_true, if_true, every_strlen_of_drop here,
      Access.ReadsBelow, Traced.every_pure, implies_true, and_true, CString.length_terminated]
    omega

/-- A name that was located stands in the buffer. -/
theorem exists_of_result_locateName {located : BufferPtr × Nat}
    (result : (locateName memory position).result = some located) :
    ∃ (name : CString) (rest : List UInt8), memory.drop position = name.terminated ++ rest := by
  obtain ⟨name, behind⟩ := located
  rcases locateName_cases result with ⟨length, scanned, -⟩ | ⟨loaded, -⟩
  · obtain ⟨string, rest, here, -⟩ := exists_of_result_strlen scanned
    exact ⟨string, rest, here⟩
  · obtain ⟨bytes, rest, here, width, value⟩ := exists_of_result_loadInteger loaded
    obtain ⟨byte, rfl⟩ := List.length_eq_one_iff.mp width
    have nul : byte = 0 := by
      apply UInt8.toNat_inj.mp
      simpa [littleEndianValue, eq_comm] using value
    exact ⟨CString.empty, rest, by rw [here, nul]; rfl⟩

end Names

variable [FieldTypeTags]

/-! ## Where a field points -/

namespace FieldEntry

/-- The data pointer of a field with its data at an offset. The iterator leaves
the pointer alone for a type it does not list. -/
def dataPointer (entry : FieldEntry) (previous : BufferPtr) (position : Nat) : BufferPtr :=
  if dataLayout entry.type = .unlisted then previous else .offset position

/-- The handle by which the iterator yields a field that starts at a position. -/
def handle (entry : FieldEntry) (position : Nat) (previous : BufferPtr) : OmnmFieldImpl where
  mFieldType := entry.type
  mFid := entry.fid
  mName := namePointer entry.name (position + 3)
  mSize := entry.data.length
  mData := entry.dataPointer previous (position + entry.head.length)

@[simp] theorem handle_mFieldType (entry : FieldEntry) (position : Nat) (previous : BufferPtr) :
    (entry.handle position previous).mFieldType = entry.type := rfl

@[simp] theorem handle_mFid (entry : FieldEntry) (position : Nat) (previous : BufferPtr) :
    (entry.handle position previous).mFid = entry.fid := rfl

@[simp] theorem handle_mSize (entry : FieldEntry) (position : Nat) (previous : BufferPtr) :
    (entry.handle position previous).mSize = entry.data.length := rfl

theorem handle_of_listed {entry : FieldEntry} (listed : dataLayout entry.type ≠ .unlisted)
    (position : Nat) (previous previous' : BufferPtr) :
    entry.handle position previous = entry.handle position previous' := by
  simp only [handle, dataPointer, if_neg listed]

/-- Reading a field again at the same place changes nothing. -/
theorem handle_handle (entry : FieldEntry) (position : Nat) (previous : BufferPtr) :
    entry.handle position (entry.handle position previous).mData =
      entry.handle position previous := by
  by_cases unlisted : dataLayout entry.type = .unlisted
  · simp only [handle, dataPointer, if_pos unlisted]
  · exact handle_of_listed unlisted position _ _

theorem encode_eq (entry : FieldEntry) :
    entry.encode = [entry.type] ++ (littleEndian 2 entry.fid.toNat ++
      (entry.name.terminated ++ (entry.lengthPart ++ entry.data))) := by
  simp only [encode, head, List.append_assoc]

end FieldEntry

/-- The handles of consecutive fields. -/
def fieldHandles : List FieldEntry → Nat → BufferPtr → List OmnmFieldImpl
  | [], _, _ => []
  | entry :: entries, position, previous =>
      entry.handle position previous ::
        fieldHandles entries (position + entry.encode.length) (entry.handle position previous).mData

@[simp] theorem length_fieldHandles (entries : List FieldEntry) (position : Nat)
    (previous : BufferPtr) : (fieldHandles entries position previous).length = entries.length := by
  induction entries generalizing position previous with
  | nil => rfl
  | cons entry entries ih => simp only [fieldHandles, List.length_cons, ih]

/-! ## The parts of a field -/

section Parts

variable {memory rest : List UInt8} {position : Nat}

theorem locateData_of_drop {entry : FieldEntry} (previous : BufferPtr)
    (fits : DataFits entry.type entry.data)
    (here : memory.drop position = entry.lengthPart ++ entry.data ++ rest) :
    (locateData memory previous entry.type position).result =
      some (entry.dataPointer previous (position + entry.lengthPart.length), entry.data.length,
        position + entry.lengthPart.length) := by
  unfold locateData FieldEntry.dataPointer
  unfold FieldEntry.lengthPart at here ⊢
  unfold DataFits at fits
  cases layout : dataLayout entry.type with
  | fixed width =>
      simp only [layout] at fits
      simp [fits]
  | cString =>
      simp only [layout] at fits
      obtain ⟨string, terminated⟩ := CString.exists_terminated_of_nulIndex fits
      have front : memory.drop position = string.terminated ++ rest := by
        rw [here, layout, ← terminated]
        simp
      simp [result_strlen_of_drop front, terminated]
  | sized =>
      simp only [layout] at fits
      have size : (loadInteger Region.message memory position 4).result = some entry.data.length := by
        have front : memory.drop position =
            littleEndian 4 entry.data.length ++ (entry.data ++ rest) := by
          rw [here, layout]
          simp
        rw [result_loadInteger_of_drop front (by simp) (by decide), littleEndian_four fits]
      simp [size]
  | unlisted =>
      simp only [layout] at fits
      simp [fits]

theorem every_locateData_of_drop {entry : FieldEntry} (previous : BufferPtr)
    (fits : DataFits entry.type entry.data)
    (here : memory.drop position = entry.lengthPart ++ entry.data ++ rest) :
    Traced.Every (Access.ReadsBelow (position + (entry.lengthPart ++ entry.data).length))
      (locateData memory previous entry.type position) := by
  unfold locateData
  unfold FieldEntry.lengthPart at here ⊢
  unfold DataFits at fits
  cases layout : dataLayout entry.type with
  | fixed width => exact Traced.every_pure _
  | cString =>
      simp only [layout] at fits
      obtain ⟨string, terminated⟩ := CString.exists_terminated_of_nulIndex fits
      have scan : memory.drop position = string.terminated ++ rest := by
        rw [here, layout, ← terminated]
        simp
      simp only [Traced.every_bind, every_strlen_of_drop scan]
      refine ⟨?_, fun _ _ => Traced.every_pure _⟩
      simp [Access.ReadsBelow, terminated]
  | sized =>
      simp only [Traced.every_bind, every_loadInteger]
      refine ⟨?_, fun _ _ => Traced.every_pure _⟩
      simp only [Access.ReadsBelow, if_true, List.length_append, length_littleEndian]
      omega
  | unlisted => exact Traced.every_pure _

/-- Locating the data of a field reads the length in front of it. -/
theorem lengthPart_le_of_every {entry : FieldEntry} {previous : BufferPtr} {limit : Nat}
    (start : position ≤ limit)
    (every : Traced.Every (Access.ReadsBelow limit) (locateData memory previous entry.type position)) :
    position + entry.lengthPart.length ≤ limit := by
  by_cases sized : dataLayout entry.type = .sized
  · rw [locateData, sized] at every
    simp only [Traced.every_bind, every_loadInteger] at every
    rw [FieldEntry.lengthPart, if_pos sized, length_littleEndian]
    exact every.1
  · simpa only [FieldEntry.lengthPart, if_neg sized, List.length_nil, Nat.add_zero] using start

/-- Data that was located, and that ends inside the buffer, stands there with the
length its type asks for. -/
theorem exists_of_result_locateData {type : UInt8} {previous data : BufferPtr} {size behind : Nat}
    (result : (locateData memory previous type position).result = some (data, size, behind))
    (within : size = 0 ∨ ∃ start, data = .offset start ∧ start + size ≤ memory.length) :
    ∃ bytes rest, DataFits type bytes ∧ ∀ entry : FieldEntry, entry.type = type →
      entry.data = bytes → memory.drop position = entry.lengthPart ++ bytes ++ rest := by
  cases dataLocated_of_result result with
  | fixed layout =>
      have room : position + size ≤ memory.length ∨ size = 0 := by
        rcases within with none | ⟨start, same, ends⟩
        · exact .inr none
        · cases same
          exact .inl ends
      refine ⟨slice memory position size, (memory.drop position).drop size, ?_, ?_⟩
      · simp only [DataFits, layout, slice, List.length_take, List.length_drop]
        omega
      · rintro entry rfl -
        rw [FieldEntry.lengthPart, layout, if_neg (by simp), List.nil_append]
        exact (List.take_append_drop ..).symm
  | cString layout scanned =>
      obtain ⟨string, rest, here, -⟩ := exists_of_result_strlen scanned
      refine ⟨string.terminated, rest, ?_, ?_⟩
      · simpa [DataFits, layout] using string.nulIndex_terminated []
      · rintro entry rfl -
        rw [FieldEntry.lengthPart, layout, if_neg (by simp), List.nil_append, here]
  | sized layout loaded =>
      obtain ⟨lengthBytes, rest, here, width, value⟩ := exists_of_result_loadInteger loaded
      have small := littleEndianValue_lt lengthBytes
      rw [width, ← value] at small
      have behind := drop_behind here
      rw [width] at behind
      have room : size ≤ rest.length := by
        rcases within with none | ⟨start, same, ends⟩
        · omega
        · cases same
          rw [← behind, List.length_drop]
          omega
      refine ⟨rest.take size, rest.drop size, ?_, ?_⟩
      · simpa [DataFits, layout, room] using small
      rintro entry rfl same
      have length : entry.data.length = size := by simp [same, room]
      rw [FieldEntry.lengthPart, layout, if_pos rfl, length, value, ← width,
        littleEndian_littleEndianValue, List.append_assoc, List.take_append_drop, here]
  | unlisted layout =>
      refine ⟨[], memory.drop position, ?_, ?_⟩
      · simp only [DataFits, layout]
      · rintro entry rfl -
        rw [FieldEntry.lengthPart, layout, if_neg (by simp)]
        rfl

end Parts

/-! ## One field -/

section Step

variable {msg : OmnmPayloadImpl} {iter : OmnmIterImpl} {entry : FieldEntry} {rest : List UInt8}

/-- Where the parts of an encoded field stand. -/
theorem parts_of_drop {memory : List UInt8} {position : Nat}
    (here : memory.drop position = entry.encode ++ rest) :
    (∃ behind, memory.drop position = [entry.type] ++ behind) ∧
      (∃ behind, memory.drop (position + 1) = littleEndian 2 entry.fid.toNat ++ behind) ∧
      (∃ behind, memory.drop (position + 3) = entry.name.terminated ++ behind) ∧
      memory.drop (position + 3 + entry.name.terminated.length) =
        entry.lengthPart ++ entry.data ++ rest := by
  have first : memory.drop position = [entry.type] ++ (littleEndian 2 entry.fid.toNat ++
      (entry.name.terminated ++ (entry.lengthPart ++ entry.data ++ rest))) := by
    rw [here, entry.encode_eq]
    simp only [List.append_assoc]
  have second := drop_behind first
  have third := drop_behind second
  rw [length_littleEndian] at third
  exact ⟨⟨_, first⟩, ⟨_, second⟩, ⟨_, third⟩, drop_behind third⟩

theorem drop_of_parts {memory : List UInt8} {position : Nat} {afterType afterFid afterName : List UInt8}
    (typeHere : memory.drop position = [entry.type] ++ afterType)
    (fidHere : memory.drop (position + 1) = littleEndian 2 entry.fid.toNat ++ afterFid)
    (nameHere : memory.drop (position + 3) = entry.name.terminated ++ afterName)
    (dataHere : memory.drop (position + 3 + entry.name.terminated.length) =
      entry.lengthPart ++ entry.data ++ rest) :
    memory.drop position = entry.encode ++ rest := by
  have behindType : afterType = littleEndian 2 entry.fid.toNat ++ afterFid :=
    (drop_behind typeHere).symm.trans fidHere
  have behindFid : afterFid = entry.name.terminated ++ afterName := by
    rw [← nameHere, ← drop_behind fidHere, length_littleEndian]
  have behindName : afterName = entry.lengthPart ++ entry.data ++ rest :=
    (drop_behind nameHere).symm.trans dataHere
  rw [typeHere, behindType, behindFid, behindName, entry.encode_eq]
  simp only [List.append_assoc]

/-- The position the iterator is left at: behind the field, or at the first
field again when this was the rewinding read of `omnmmsgPayloadIter_begin`. -/
def nextPosition (iter : OmnmIterImpl) (msg : OmnmPayloadImpl) (entry : FieldEntry) : Nat :=
  if iter.mIndex = 0 then msg.getHeaderSize else iter.mBufferPosition + entry.encode.length

/-- At an encoded field the iterator yields it. -/
theorem next_of_drop (fits : DataFits entry.type entry.data)
    (here : msg.mPayloadBuffer.drop iter.mBufferPosition = entry.encode ++ rest)
    (inside : iter.mBufferPosition < msg.mPayloadBufferTail) :
    (omnmmsgPayloadIter_next iter msg).result =
      some (some (entry.handle iter.mBufferPosition iter.mField.mData),
        ⟨entry.handle iter.mBufferPosition iter.mField.mData, nextPosition iter msg entry,
          iter.mIndex + 1⟩) := by
  obtain ⟨⟨_, typeHere⟩, ⟨_, fidHere⟩, ⟨_, nameHere⟩, dataHere⟩ := parts_of_drop here
  have type : (loadInteger Region.message msg.mPayloadBuffer iter.mBufferPosition 1).result =
      some entry.type.toNat := result_loadInteger_of_drop typeHere rfl Nat.one_pos
  have fid : (loadInteger Region.message msg.mPayloadBuffer (iter.mBufferPosition + 1) 2).result =
      some entry.fid.toNat := by
    rw [result_loadInteger_of_drop fidHere (length_littleEndian ..) Nat.two_pos,
      littleEndianValue_littleEndian_of_lt entry.fid.toNat_lt]
  rw [omnmmsgPayloadIter_next, if_neg (hasNext_of_lt inside)]
  simp only [Traced.result_bind, type, fid, locateName_of_drop nameHere, Option.bind_some,
    UInt8.ofNat_toNat, locateData_of_drop _ fits dataHere, Traced.result_pure]
  have head : iter.mBufferPosition + 3 + entry.name.terminated.length + entry.lengthPart.length =
      iter.mBufferPosition + entry.head.length := by
    rw [entry.length_head, CString.length_terminated]
    omega
  simp only [head, nextPosition, FieldEntry.handle, UInt16.ofNat_toNat, FieldEntry.encode,
    List.length_append, ← Nat.add_assoc]

/-- The reads of one call end at the field's end. -/
theorem every_next_of_drop (fits : DataFits entry.type entry.data)
    (here : msg.mPayloadBuffer.drop iter.mBufferPosition = entry.encode ++ rest) :
    Traced.Every (Access.ReadsBelow (iter.mBufferPosition + entry.encode.length))
      (omnmmsgPayloadIter_next iter msg) := by
  obtain ⟨⟨_, typeHere⟩, -, ⟨_, nameHere⟩, dataHere⟩ := parts_of_drop here
  have type : (loadInteger Region.message msg.mPayloadBuffer iter.mBufferPosition 1).result =
      some entry.type.toNat := result_loadInteger_of_drop typeHere rfl Nat.one_pos
  have nameEnd : iter.mBufferPosition + 3 + entry.name.terminated.length ≤
      iter.mBufferPosition + entry.encode.length := by
    rw [entry.length_encode, CString.length_terminated]
    omega
  have dataEnd : iter.mBufferPosition + 3 + entry.name.terminated.length +
      (entry.lengthPart ++ entry.data).length ≤ iter.mBufferPosition + entry.encode.length := by
    rw [entry.length_encode, CString.length_terminated, List.length_append]
    omega
  have wide := entry.four_le_length_encode
  rw [omnmmsgPayloadIter_next]
  split
  · exact Traced.every_pure _
  · simp only [Traced.every_bind, every_loadInteger, type, Option.some.injEq, forall_eq',
      UInt8.ofNat_toNat, Traced.every_pure, implies_true, and_true,
      every_locateName_of_drop nameHere, locateName_of_drop nameHere]
    refine ⟨?_, ?_, ?_⟩
    · exact Nat.add_le_add_left (by omega) _
    · show iter.mBufferPosition + 1 + 2 ≤ iter.mBufferPosition + entry.encode.length
      omega
    · intro fid _
      refine ⟨nameEnd, ?_⟩
      exact (every_locateData_of_drop _ fits dataHere).mono fun _ ends => ends.mono dataEnd

/-- When the reads of one call and the data of the field end by a limit, so does
the field. -/
theorem encode_le_of_every {limit : Nat}
    (here : msg.mPayloadBuffer.drop iter.mBufferPosition = entry.encode ++ rest)
    (inside : iter.mBufferPosition < msg.mPayloadBufferTail)
    (every : Traced.Every (Access.ReadsBelow limit) (omnmmsgPayloadIter_next iter msg))
    (within : entry.data = [] ∨ iter.mBufferPosition + entry.encode.length ≤ limit) :
    iter.mBufferPosition + entry.encode.length ≤ limit := by
  rcases within with none | ends
  · obtain ⟨⟨_, typeHere⟩, ⟨_, fidHere⟩, ⟨_, nameHere⟩, dataHere⟩ := parts_of_drop here
    have type : (loadInteger Region.message msg.mPayloadBuffer iter.mBufferPosition 1).result =
        some entry.type.toNat := result_loadInteger_of_drop typeHere rfl Nat.one_pos
    have fid : (loadInteger Region.message msg.mPayloadBuffer
        (iter.mBufferPosition + 1) 2).result = some _ :=
      result_loadInteger_of_drop fidHere (length_littleEndian ..) Nat.two_pos
    rw [omnmmsgPayloadIter_next, if_neg (hasNext_of_lt inside)] at every
    simp only [Traced.every_bind, type, fid, Option.some.injEq, forall_eq', UInt8.ofNat_toNat,
      every_locateName_of_drop nameHere, locateName_of_drop nameHere] at every
    have nameEnd := every.2.2.1
    have lengthEnd := lengthPart_le_of_every nameEnd every.2.2.2.1
    rw [entry.length_encode, none]
    rw [CString.length_terminated] at lengthEnd
    simp only [List.length_nil]
    omega
  · exact ends

/-- A field that the iterator yields, with data inside the buffer, stands there
completely encoded. -/
theorem encoded_of_next {field : OmnmFieldImpl} {next : OmnmIterImpl}
    (yielded : (omnmmsgPayloadIter_next iter msg).result = some (some field, next))
    (within : field.mSize = 0 ∨ ∃ start, field.mData = .offset start ∧
      start + field.mSize ≤ msg.mPayloadBuffer.length) :
    ∃ (entry : FieldEntry) (rest : List UInt8), DataFits entry.type entry.data ∧
      msg.mPayloadBuffer.drop iter.mBufferPosition = entry.encode ++ rest := by
  have read := fieldRead_of_next yielded
  obtain ⟨type, typeLoaded, typeStored⟩ := read.type
  obtain ⟨fid, fidLoaded, -⟩ := read.fid
  obtain ⟨behindName, behind, nameLocated, dataLocated, -⟩ := read.located
  rw [typeStored] at dataLocated
  obtain ⟨typeBytes, _, typeHere, typeWidth, typeValue⟩ := exists_of_result_loadInteger typeLoaded
  obtain ⟨fidBytes, _, fidHere, fidWidth, fidValue⟩ := exists_of_result_loadInteger fidLoaded
  obtain ⟨string, _, nameHere⟩ := exists_of_result_locateName nameLocated
  rw [locateName_of_drop nameHere, Option.some.injEq, Prod.mk.injEq] at nameLocated
  obtain ⟨-, rfl⟩ := nameLocated
  obtain ⟨bytes, rest, fits, dataHere⟩ := exists_of_result_locateData dataLocated within
  obtain ⟨byte, rfl⟩ := List.length_eq_one_iff.mp typeWidth
  have sameType : UInt8.ofNat type = byte := by simp [typeValue, littleEndianValue]
  have sameFid : littleEndian 2 (UInt16.ofNat fid).toNat = fidBytes := by
    have small : fid < 2 ^ 16 := by
      rw [fidValue]
      simpa [fidWidth] using littleEndianValue_lt fidBytes
    rw [UInt16.toNat_ofNat', Nat.mod_eq_of_lt small, fidValue, ← fidWidth,
      littleEndian_littleEndianValue]
  refine ⟨⟨UInt8.ofNat type, UInt16.ofNat fid, string, bytes⟩, rest, fits, ?_⟩
  exact drop_of_parts (by rw [typeHere, sameType]) (by rw [fidHere, sameFid]) nameHere
    (dataHere _ rfl rfl)

end Step

/-! ## The bytes around the data of a field -/

section Around

variable {msg : OmnmPayloadImpl} {entry : FieldEntry} {front back slack : List UInt8}

/-- The mutators write the length of a listed type as its wire form has it. -/
theorem writtenLength_eq (listed : dataLayout entry.type ≠ .unlisted) (bytes : List UInt8) :
    writtenLength entry.type bytes.length = FieldEntry.lengthPart { entry with data := bytes } := by
  simp only [writtenLength, FieldEntry.lengthPart, isFieldTypeSized_iff_of_listed listed]

/-- The handle of an encoded field of a listed type locates it. -/
theorem located_of_buffer (listed : dataLayout entry.type ≠ .unlisted)
    (buffer : msg.mPayloadBuffer = front ++ entry.encode ++ back ++ slack)
    (tail : msg.mPayloadBufferTail = front.length + entry.encode.length + back.length)
    (previous : BufferPtr) :
    msg.Located (entry.handle front.length previous)
      (front ++ ([entry.type] ++ littleEndian 2 entry.fid.toNat ++ entry.name.terminated))
      entry.lengthPart entry.data back slack where
  buffer := by
    rw [buffer, FieldEntry.encode, FieldEntry.head]
    simp only [List.append_assoc]
  tail := by
    rw [tail, FieldEntry.encode, FieldEntry.head]
    simp only [List.length_append, Nat.add_assoc]
  width := by
    rw [FieldEntry.handle_mFieldType, FieldEntry.lengthPart]
    simp only [isFieldTypeSized_iff_of_listed listed]
    split <;> simp
  data := by
    rw [FieldEntry.handle, FieldEntry.dataPointer, if_neg listed, FieldEntry.head]
    simp only [List.length_append, Nat.add_assoc]
  size := rfl

end Around

end Omnm
