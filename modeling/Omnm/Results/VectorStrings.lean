import Omnm.Payload.Preparation
import Omnm.Results.Honesty
import Omnm.Wire.Mutations
import Omnm.Wire.ObjectLookups

/-!
# Vectors of strings and the scratch buffer

A vector of strings is packed into the scratch buffer, which is as long as the
longest use of it so far. The addition passes the whole buffer on, the update
only the bytes of the strings. So what is added can be read back, and is what
the update would have stored, exactly if the buffer has the length of the
strings (`vectorString_round_trip_iff`).
-/

set_option autoImplicit false

namespace Omnm

open FieldTypeTags (tag)
open OmnmPayloadImpl

/-- The scratch buffer that a call gets has exactly the length of the strings, and that has four
bytes. -/
structure ScratchFits (scratch : Allocator) (mBuffer : List UInt8) (strings : List CString) :
    Prop where
  exact : (allocateBufferMemory scratch mBuffer (joinStrings strings).length).buffer.length =
    (joinStrings strings).length
  four : (joinStrings strings).length ≤ uint32Max

section

variable [FieldTypeTags]

/-- Strings that are added are read back, and the update leaves the same bytes. -/
def StringsRoundTrip (memory : CallMemory) (getter : GetterMemory) (object : PayloadObject)
    (name : Option CString) (fid : UInt16) (strings : List CString) : Prop :=
  ∃ added array after status updated,
    (omnmmsgPayload_addVectorString memory object.impl name fid (some strings)).result =
        some (.ok, added) ∧
      (omnmmsgPayload_getVectorString getter { object with impl := added } name fid).result =
        some (.ok, some (array, strings.length), after) ∧
      (loadStringArray added array strings.length).result = some (some strings) ∧
      (omnmmsgPayload_updateVectorString memory object.impl name fid (some strings)).result =
        some (status, updated) ∧
      updated.serialized = added.serialized

/-! ## The two encoders -/

variable {memory : CallMemory} {msg : OmnmPayloadImpl} {name : Option CString} {fid : UInt16}
  {strings : List CString}

omit [FieldTypeTags] in
theorem flatten_terminated (strings : List CString) :
    (strings.map CString.terminated).flatten = joinStrings strings := List.flatMap_def.symm

omit [FieldTypeTags] in
theorem elementsLength_terminated (strings : List CString) :
    elementsLength (strings.map CString.terminated) = (joinStrings strings).length := by
  rw [length_flatten, flatten_terminated]

/-- The bytes of the scratch buffer as an argument. -/
def argumentOf (scratch : List UInt8) (length : Nat) : Option (List UInt8) :=
  if scratch = [] then none else some (scratch.take length)

/-- The addition passes the whole scratch buffer on. -/
theorem addVectorString_result (key : validateNameFid name fid = none) {scratch : List UInt8}
    (copied : (copyElements (allocateBufferMemory memory.scratch msg.mBuffer
      (joinStrings strings).length).buffer 0 (strings.map CString.terminated)).result =
        some scratch) :
    (omnmmsgPayload_addVectorString memory msg name fid (some strings)).result =
      ((withScratch scratch msg).addField memory.payload (tag .vectorString) name fid
        (argumentOf scratch scratch.length)).result := by
  simp only [omnmmsgPayload_addVectorString, key, elementsLength_terminated, Traced.result_bind,
    copied, Option.bind_some, result_scratchArgument (Nat.le_refl _)]
  rfl

/-- The update passes the bytes of the strings on. -/
theorem updateVectorString_result (key : validateNameFid name fid = none) {scratch : List UInt8}
    (copied : (copyElements (allocateBufferMemory memory.scratch msg.mBuffer
      (joinStrings strings).length).buffer 0 (strings.map CString.terminated)).result =
        some scratch) :
    (omnmmsgPayload_updateVectorString memory msg name fid (some strings)).result =
      (scratchArgument scratch (joinStrings strings).length).result.bind fun data =>
        ((withScratch scratch msg).updateField memory.payload (tag .vectorString) name fid
          data).result := by
  simp only [omnmmsgPayload_updateVectorString, updateVectorElements, Option.map_some, key,
    elementsLength_terminated, Traced.result_bind, copied, Option.bind_some]
  rfl

/-- Under a key without a field the update adds the bytes of the strings. -/
theorem updateVectorString_of_absent {message : Message} (represents : msg.Represents message)
    (key : validateNameFid name fid = none) (absent : message.find name fid = none)
    {scratch : List UInt8}
    (copied : (copyElements (allocateBufferMemory memory.scratch msg.mBuffer
      (joinStrings strings).length).buffer 0 (strings.map CString.terminated)).result =
        some scratch) (some_bytes : scratch ≠ [])
    (enough : (joinStrings strings).length ≤ scratch.length) :
    (omnmmsgPayload_updateVectorString memory msg name fid (some strings)).result =
      ((withScratch scratch msg).addField memory.payload (tag .vectorString) name fid
        (some (scratch.take (joinStrings strings).length))).result := by
  have search : ((withScratch scratch msg).findFieldInBuffer name fid).result = some none := by
    rcases represents.findFieldInBuffer name fid with ⟨-, search⟩ |
      ⟨before, entry, after, previous, split, found, -⟩
    · rw [findFieldInBuffer_withScratch, search]
    · cases absent.symm.trans found
  rw [updateVectorString_result key copied, result_scratchArgument enough, if_neg some_bytes,
    Option.bind_some, updateField_of_search (not_none_of_validateNameFid key) search]
  rfl

omit [FieldTypeTags] in
/-- A list with a string has bytes. -/
theorem joinStrings_ne_nil (some_strings : strings ≠ []) : joinStrings strings ≠ [] := by
  have count := length_le_length_joinStrings strings
  have positive := List.length_pos_iff.mpr some_strings
  exact List.length_pos_iff.mp (by omega)

/-! ## Reading back -/

/-- A first field whose data is strings is read as these strings. -/
theorem getVectorString_of_find {object : PayloadObject} {message : Message} {entry : FieldEntry}
    (represents : object.impl.Represents message) (found : message.find name fid = some entry)
    (type : entry.type = tag .vectorString) (data : entry.data = joinStrings strings)
    (some_strings : strings ≠ []) {getter : GetterMemory} (arrays : getter.arrays = true) :
    ∃ array after, (omnmmsgPayload_getVectorString getter object name fid).result =
        some (.ok, some (array, strings.length), after) ∧
      (loadStringArray object.impl array strings.length).result = some (some strings) := by
  have listed : dataLayout entry.type ≠ .unlisted :=
    type ▸ dataLayout_tag .vectorString (by simp)
  obtain ⟨field, handled, got⟩ := represents.getVectorThroughField_of_find found listed
    (omnmmsgFieldPayload_getVectorString getter)
  obtain ⟨array, kept, result, loaded⟩ :=
    handled.getVectorString arrays some_strings data object.results
  exact ⟨array, _, by rw [omnmmsgPayload_getVectorString, got, result]; rfl, loaded⟩

/-- A buffer of the length of the strings carries them to the reader. -/
theorem roundTrip_of_fits {object : PayloadObject} {message : Message}
    (represents : object.impl.Represents message) (succeeds : memory.payload.Succeeds)
    (key : validateNameFid name fid = none) (absent : message.find name fid = none)
    (some_strings : strings ≠ []) {getter : GetterMemory} (arrays : getter.arrays = true)
    (short : strlenEx name + 1 < 2 ^ 31) (below : object.impl.mPayloadBufferTail < 2 ^ 63)
    (fits : ScratchFits memory.scratch object.impl.mBuffer strings) :
    StringsRoundTrip memory getter object name fid strings := by
  obtain ⟨exact, four⟩ := fits
  have some_bytes := joinStrings_ne_nil some_strings
  have copied := @result_copyElements (allocateBufferMemory memory.scratch object.impl.mBuffer
    (joinStrings strings).length).buffer 0 (strings.map CString.terminated)
    (by rw [Nat.zero_add, flatten_terminated, exact])
  have whole : overwrite (allocateBufferMemory memory.scratch object.impl.mBuffer
      (joinStrings strings).length).buffer 0 (joinStrings strings) = joinStrings strings := by
    rw [overwrite_zero (Nat.le_of_eq exact.symm), List.drop_of_length_le (Nat.le_of_eq exact),
      List.append_nil]
  rw [flatten_terminated, whole] at copied
  have moved := represents.withScratch (joinStrings strings)
  obtain ⟨shaped, next, keeps⟩ := moved.append_sized succeeds
    (show dataLayout (tag .vectorString) = .sized by simp [dataLayout])
    ⟨four, some_bytes, key⟩ short below
  have added := addVectorString_result key copied
  have argument : argumentOf (joinStrings strings) (joinStrings strings).length =
      some (joinStrings strings) := by
    rw [argumentOf, if_neg some_bytes, List.take_length]
  rw [argument] at added
  have updated := updateVectorString_of_absent represents key absent copied some_bytes
    (Nat.le_refl _)
  rw [List.take_length] at updated
  obtain ⟨array, after, got, loaded⟩ := @getVectorString_of_find _ name fid strings
    { object with impl := next } _ _ keeps.represents
    (Message.find_append absent shaped (hasKey_of_validateNameFid key)) rfl rfl some_strings
    getter arrays
  exact ⟨next, array, after, .ok, next, added.trans keeps.result, got, loaded,
    updated.trans keeps.result, rfl⟩

/-! ## The length of the scratch buffer -/

/-- Strings that are read back, and that the update would store alike, fit the buffer. -/
theorem fits_of_roundTrip {object : PayloadObject} {message : Message}
    (represents : object.impl.Represents message) (succeeds : memory.payload.Succeeds)
    (key : validateNameFid name fid = none) (absent : message.find name fid = none)
    (some_strings : strings ≠ []) {getter : GetterMemory} (short : strlenEx name + 1 < 2 ^ 31)
    (below : object.impl.mPayloadBufferTail < 2 ^ 63)
    (roundTrip : StringsRoundTrip memory getter object name fid strings) :
    ScratchFits memory.scratch object.impl.mBuffer strings := by
  obtain ⟨added, array, after, status, updated, addition, -, -, update, same⟩ := roundTrip
  obtain ⟨scratch, copied, length⟩ := exists_copyElements
    (allocateBufferMemory memory.scratch object.impl.mBuffer (joinStrings strings).length).buffer
    0 (strings.map CString.terminated)
  have positive := List.length_pos_iff.mpr (joinStrings_ne_nil some_strings)
  rw [addVectorString_result key copied] at addition
  -- without a buffer the addition gets NULL
  have some_bytes : scratch ≠ [] := by
    intro none
    rw [argumentOf, if_pos none] at addition
    cases addition
  rw [argumentOf, if_neg some_bytes, List.take_length] at addition
  have four : scratch.length ≤ uint32Max := by
    by_contra long
    rw [addField_of_rejection (if_pos (Nat.not_le.mp long))] at addition
    cases addition
  -- a buffer that is too short is read past its end by the update
  have enough : (joinStrings strings).length ≤ scratch.length := by
    by_contra small
    rw [updateVectorString_result key copied,
      result_scratchArgument_short some_bytes (Nat.not_le.mp small)] at update
    cases update
  rw [updateVectorString_of_absent represents key absent copied some_bytes enough] at update
  have taken : (scratch.take (joinStrings strings).length).length = (joinStrings strings).length :=
    List.length_take_of_le enough
  have some_taken : scratch.take (joinStrings strings).length ≠ [] := by
    rw [← List.length_pos_iff, taken]
    exact positive
  have sized : dataLayout (tag .vectorString) = .sized := by simp [dataLayout]
  have moved := represents.withScratch scratch
  obtain ⟨_, long, keeps⟩ := moved.append_sized succeeds sized ⟨four, some_bytes, key⟩ short below
  obtain ⟨_, exact, keeps'⟩ := moved.append_sized succeeds sized
    ⟨taken.le.trans (enough.trans four), some_taken, key⟩ short below
  cases addition.symm.trans keeps.result
  cases update.symm.trans keeps'.result
  rw [keeps.represents.serialized_eq, keeps'.represents.serialized_eq, Message.encode_append,
    Message.encode_append, List.append_right_inj] at same
  have lengths := congrArg List.length same
  rw [FieldEntry.length_encode, FieldEntry.length_encode] at lengths
  have parts := @FieldEntry.length_lengthPart_eq _
    ⟨tag .vectorString, fid, name.getD CString.empty, scratch.take (joinStrings strings).length⟩
    ⟨tag .vectorString, fid, name.getD CString.empty, scratch⟩ rfl
  rw [parts, taken] at lengths
  have equal : scratch.length = (joinStrings strings).length := by
    dsimp only at lengths
    omega
  exact ⟨length.symm.trans equal, equal ▸ four⟩

end

/-- On a payload that holds a message, a non-empty list of strings that is added under a key
without a field is read back, and the update leaves the same bytes, exactly if the scratch buffer
that the call gets is as long as the strings and that length has four bytes. -/
theorem vectorString_round_trip_iff [FieldTypeTags] {object : PayloadObject} {message : Message}
    (represents : object.impl.Represents message) {name : Option CString} {fid : UInt16}
    (key : validateNameFid name fid = none) (absent : message.find name fid = none)
    {strings : List CString} (some_strings : strings ≠ []) {memory : CallMemory}
    (succeeds : memory.payload.Succeeds) {getter : GetterMemory} (arrays : getter.arrays = true)
    (short : strlenEx name + 1 < 2 ^ 31) (below : object.impl.mPayloadBufferTail < 2 ^ 63) :
    StringsRoundTrip memory getter object name fid strings ↔
      ScratchFits memory.scratch object.impl.mBuffer strings :=
  ⟨fits_of_roundTrip represents succeeds key absent some_strings short below,
    roundTrip_of_fits represents succeeds key absent some_strings arrays short below⟩

section Example

attribute [local instance] mamaFieldTypes

theorem noNul_letter : (0 : UInt8) ∉ [65] := by decide

/-- A string of one letter. -/
def letter : CString := ⟨[65], noNul_letter⟩

theorem vectorString_round_trip_first :
    StringsRoundTrip CallMemory.zeroing ⟨.zeroing, true⟩ PayloadObject.new none 4
      [letter, CString.empty] :=
  (@vectorString_round_trip_iff _ PayloadObject.new _ OmnmPayloadImpl.Represents.newPayload none 4
    rfl rfl [letter, CString.empty] (List.cons_ne_nil _ _) CallMemory.zeroing
    Allocator.zeroing_succeeds ⟨.zeroing, true⟩ rfl (by decide) (by decide)).mpr
    ⟨by decide, by decide⟩

/-- A new payload to which a vector of two longer strings was added. -/
def longerAdded : OmnmPayloadImpl where
  mPayloadBuffer := [79, 1, 0, 44, 9, 0, 0, 6, 0, 0, 0, 66, 66, 0, 67, 67, 0] ++
    List.replicate 183 0
  mPayloadBufferTail := 17
  mHeader := OmnmHeader.default
  mBuffer := [66, 66, 0, 67, 67, 0]

/-- After a longer vector the reader gets three strings for one, and the two encoders differ. -/
theorem vectorString_keeps_older_bytes :
    (omnmmsgPayload_addVectorString CallMemory.zeroing newPayload none 9
        (some [⟨[66, 66], by decide⟩, ⟨[67, 67], by decide⟩])).result = some (.ok, longerAdded) ∧
      (longerAdded.findFieldInBuffer none 4).result = some none ∧
      ((omnmmsgPayload_addVectorString CallMemory.zeroing longerAdded none 4
          (some [letter])).result.bind fun added =>
        (omnmmsgPayload_getVectorString ⟨.zeroing, true⟩
            { PayloadObject.new with impl := added.2 } none 4).result.map fun got =>
          got.2.1.map Prod.snd) = some (some 3) ∧
      ¬ StringsRoundTrip CallMemory.zeroing ⟨.zeroing, true⟩
        { PayloadObject.new with impl := longerAdded } none 4 [letter] := by
  refine ⟨by decide +kernel, by decide +kernel, by decide +kernel, ?_⟩
  rintro ⟨added, array, after, status, updated, addition, -, -, update, same⟩
  have longer : (omnmmsgPayload_addVectorString CallMemory.zeroing longerAdded none 4
      (some [letter])).result.map (fun outcome => outcome.2.serialized.length) = some 31 := by
    decide +kernel
  have shorter : (omnmmsgPayload_updateVectorString CallMemory.zeroing longerAdded none 4
      (some [letter])).result.map (fun outcome => outcome.2.serialized.length) = some 27 := by
    decide +kernel
  rw [addition] at longer
  rw [update] at shorter
  have lengths := congrArg List.length same
  cases (Option.some.inj longer).symm.trans (lengths.symm.trans (Option.some.inj shorter))

end Example

end Omnm
