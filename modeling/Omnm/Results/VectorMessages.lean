import Omnm.Wire.MessageVectors
import Omnm.Wire.ObjectLookups

/-!
# Vectors of messages

A vector of messages is written record by record, each message behind its own
length. The reader takes the length of the first record for all of them. So the
vector is read back, whatever the field of the payload kept before, exactly if
the messages have one length (`messages_read_back_iff`).
-/

set_option autoImplicit false

namespace Omnm

open FieldTypeTags (tag)
open OmnmPayloadImpl

section

variable [FieldTypeTags]

/-- If the update returns OK, the getter gives as many payloads as were written, each with the
bytes of its own. -/
def MessagesReadBack (memory : CallMemory) (getter : GetterMemory) (msg : OmnmPayloadImpl)
    (name : Option CString) (fid : UInt16) (values : List OmnmPayloadImpl) (field : OmnmFieldImpl)
    (results : FieldResults) : Prop :=
  ∀ next, (omnmmsgPayloadImpl_updateVectorMsgPayload memory msg name fid (some values)).result =
      some (.ok, next) →
    ∃ (array : List (Option OmnmPayloadImpl)) (after : PayloadObject) (subs : List OmnmPayloadImpl),
      (omnmmsgPayload_getVectorMsg getter ⟨next, field, results⟩ name fid).result =
        some (.ok, some (array, values.length), after) ∧
      array.take values.length = subs.map some ∧
      subs.map serialized = values.map serialized

/-- The payloads kept from earlier vectors hold messages. -/
def FieldResults.KeepMessages (results : FieldResults) : Prop :=
  ∀ payload, some payload ∈ results.mVectorPayload → ∃ message, payload.Represents message

omit [FieldTypeTags] in
/-- The payload has a header of an accepted version. -/
def OmnmPayloadImpl.HeaderAccepted (msg : OmnmPayloadImpl) : Prop :=
  3 ≤ msg.serialized.length ∧ msg.serialized.getD 1 0 ≤ omnmProtocolVersion

/-! ## The encoder -/

variable {memory : CallMemory} {msg next : OmnmPayloadImpl} {name : Option CString} {fid : UInt16}
  {values : List OmnmPayloadImpl}

/-- The records of the values. -/
def recordsOf (values : List OmnmPayloadImpl) : List UInt8 :=
  messageRecords (values.map serialized)

omit [FieldTypeTags] in
/-- A value with its length is part of the records. -/
theorem length_le_recordsOf {value : OmnmPayloadImpl} (member : value ∈ values) :
    value.serialized.length + 4 ≤ (recordsOf values).length :=
  length_le_messageRecords (List.mem_map_of_mem member)

omit [FieldTypeTags] in
theorem recordsOf_ne_nil (some_values : values ≠ []) : recordsOf values ≠ [] := by
  obtain ⟨value, others, rfl⟩ := List.exists_cons_of_ne_nil some_values
  have part := @length_le_recordsOf (value :: others) value (List.mem_cons_self ..)
  rw [← List.length_pos_iff]
  exact Nat.zero_lt_of_lt part

/-- An update that returned OK updated the field with the records. -/
theorem updateField_of_updateVectorMsgPayload
    (returned : (omnmmsgPayloadImpl_updateVectorMsgPayload memory msg name fid
      (some values)).result = some (.ok, next)) :
    ∃ scratch, ((withScratch scratch msg).updateField memory.payload (tag .vectorMsg) name fid
      (some (recordsOf values))).result = some (.ok, next) := by
  rw [omnmmsgPayloadImpl_updateVectorMsgPayload, Option.map_some, updateVectorMessages] at returned
  cases key : validateNameFid name fid with
  | some status =>
      rw [key] at returned
      cases returned
      exact absurd key validateNameFid_ne_ok
  | none =>
      simp only [key] at returned
      obtain ⟨scratch, copied, length⟩ := exists_copyMessages (allocateBufferMemory memory.scratch
        msg.mBuffer (messagesLength (values.map serialized))).buffer 0 (values.map serialized)
      by_cases long : ∃ bytes ∈ values.map serialized, uint32Max < bytes.length
      · rw [if_pos long] at copied
        rw [Traced.result_bind, copied] at returned
        cases returned
      · rw [if_neg long] at copied
        rw [Traced.result_bind, copied, Option.bind_some] at returned
        obtain ⟨data, argument, returned⟩ := Traced.result_bind_eq_some.mp returned
        refine ⟨scratch, ?_⟩
        -- without a buffer the update gets NULL
        have some_bytes : scratch ≠ [] := by
          intro none
          rw [scratchArgument, if_pos none] at argument
          cases argument
          rw [updateField_null (.inl rfl)] at returned
          cases returned
        -- a buffer that is too short is read past its end
        have enough : messagesLength (values.map serialized) ≤ scratch.length := by
          by_contra small
          rw [result_scratchArgument_short some_bytes (Nat.not_le.mp small)] at argument
          cases argument
        rw [result_scratchArgument enough, if_neg some_bytes] at argument
        cases argument
        rw [length] at enough
        have room : 0 + (messageRecords (values.map serialized)).length ≤
            (allocateBufferMemory memory.scratch msg.mBuffer
              (messagesLength (values.map serialized))).buffer.length := by
          rwa [Nat.zero_add, ← length_messageRecords]
        rcases result_copyMessages room with ⟨-, whole⟩ | ⟨-, _, stopped, -⟩
        · cases copied.symm.trans whole
          rwa [take_overwrite_zero (length_messageRecords _) enough] at returned
        · cases copied.symm.trans stopped

/-- With memory and room the update returns OK. -/
theorem exists_updateVectorMsgPayload {message : Message} (represents : msg.Represents message)
    (succeeds : memory.Succeeds) (key : validateNameFid name fid = none)
    (takes : ∀ entry, message.find name fid = some entry → entry.type = tag .vectorMsg)
    (some_values : values ≠ []) (short : strlenEx name + 1 < 2 ^ 31)
    (below : msg.mPayloadBufferTail < 2 ^ 31) (four : (recordsOf values).length < 2 ^ 32) :
    ∃ next, (omnmmsgPayloadImpl_updateVectorMsgPayload memory msg name fid (some values)).result =
      some (.ok, next) := by
  have room := le_length_scratch succeeds.scratch msg.mBuffer
    (messagesLength (values.map serialized))
  have records := length_messageRecords (values.map serialized)
  have inside : 0 + (messageRecords (values.map serialized)).length ≤
      (allocateBufferMemory memory.scratch msg.mBuffer
        (messagesLength (values.map serialized))).buffer.length := by
    rwa [Nat.zero_add, ← records]
  have short_values : ∀ bytes ∈ values.map serialized, bytes.length ≤ uint32Max := by
    intro bytes member
    have part := length_le_messageRecords member
    rw [recordsOf] at four
    rw [uint32Max]
    omega
  have some_records := recordsOf_ne_nil some_values
  rcases result_copyMessages inside with ⟨-, copied⟩ | ⟨long, -⟩
  · have some_bytes : overwrite (allocateBufferMemory memory.scratch msg.mBuffer
        (messagesLength (values.map serialized))).buffer 0
          (messageRecords (values.map serialized)) ≠ [] := by
      rw [← List.length_pos_iff, length_overwrite]
      exact (List.length_pos_iff.mpr some_records).trans_le (records ▸ room)
    obtain ⟨next, -, -, updated, -⟩ := (represents.withScratch (overwrite (allocateBufferMemory
      memory.scratch msg.mBuffer (messagesLength (values.map serialized))).buffer 0
      (messageRecords (values.map serialized)))).updateField_sized succeeds.payload
        (show dataLayout (tag .vectorMsg) = .sized by simp [dataLayout])
        ⟨Nat.le_of_lt_succ four, some_records, key⟩ (fun _ => short) below takes
    refine ⟨next, ?_⟩
    rw [omnmmsgPayloadImpl_updateVectorMsgPayload, Option.map_some, updateVectorMessages]
    simp only [key, Traced.result_bind, copied, Option.bind_some,
      result_scratchArgument (room.trans_eq (length_overwrite ..).symm), if_neg some_bytes,
      take_overwrite_zero records room]
    exact updated
  · exact absurd short_values long

/-! ## The first field with the key -/

/-- After an update that returned OK the first field with the key holds the records. -/
theorem holds_of_updateVectorMsgPayload {message : Message} (represents : msg.Represents message)
    (succeeds : memory.payload.Succeeds) (key : validateNameFid name fid = none)
    (takes : ∀ entry, message.find name fid = some entry → entry.type = tag .vectorMsg)
    (some_values : values ≠ []) (short : strlenEx name + 1 < 2 ^ 31)
    (below : msg.mPayloadBufferTail < 2 ^ 31) (four : (recordsOf values).length < 2 ^ 32)
    (returned : (omnmmsgPayloadImpl_updateVectorMsgPayload memory msg name fid
      (some values)).result = some (.ok, next)) :
    ∃ changed entry, next.Represents changed ∧ changed.find name fid = some entry ∧
      entry.type = tag .vectorMsg ∧ entry.data = recordsOf values := by
  obtain ⟨scratch, updated⟩ := updateField_of_updateVectorMsgPayload returned
  obtain ⟨other, changed, entry, performed, holds⟩ :=
    (represents.withScratch scratch).updateField_sized succeeds
      (show dataLayout (tag .vectorMsg) = .sized by simp [dataLayout])
      ⟨Nat.le_of_lt_succ four, recordsOf_ne_nil some_values, key⟩ (fun _ => short) below takes
  cases updated.symm.trans performed
  exact ⟨changed, entry, holds⟩

/-- Messages of one length are read back. -/
theorem readBack_of_same {message : Message} (represents : msg.Represents message)
    (succeeds : memory.payload.Succeeds) (key : validateNameFid name fid = none)
    (takes : ∀ entry, message.find name fid = some entry → entry.type = tag .vectorMsg)
    (some_values : values ≠ []) (headers : ∀ value ∈ values, value.HeaderAccepted)
    {getter : GetterMemory} (getterSucceeds : getter.payload.Succeeds)
    (arrays : getter.arrays = true) (short : strlenEx name + 1 < 2 ^ 31)
    (below : msg.mPayloadBufferTail < 2 ^ 31) (four : (recordsOf values).length < 2 ^ 32)
    (same : ∀ value ∈ values, ∀ other ∈ values,
      value.serialized.length = other.serialized.length)
    (field : OmnmFieldImpl) (results : FieldResults) :
    MessagesReadBack memory getter msg name fid values field results := by
  intro next returned
  obtain ⟨changed, entry, holds, found, type, data⟩ := holds_of_updateVectorMsgPayload represents
    succeeds key takes some_values short below four returned
  have listed : dataLayout entry.type ≠ .unlisted := type ▸ dataLayout_tag .vectorMsg (by simp)
  obtain ⟨shown, handled, got⟩ := @Represents.getVectorThroughField_of_find _ _ name fid _
    ⟨next, field, results⟩ _ holds found listed (omnmmsgFieldPayload_getVectorMsg getter)
  obtain ⟨offset, rest, pointer, here, -⟩ := handled.data
  obtain ⟨subs, array, kept, result, start, all⟩ := handled.getVectorMsg getterSucceeds arrays
    (List.map_eq_nil_iff.not.mpr some_values) data (data ▸ four)
    (by
      intro first member second member'
      obtain ⟨value, inside, rfl⟩ := List.mem_map.mp member
      obtain ⟨other, inside', rfl⟩ := List.mem_map.mp member'
      exact same value inside other inside')
    (by
      intro bytes member none
      obtain ⟨value, inside, rfl⟩ := List.mem_map.mp member
      have three := (headers value inside).1
      rw [none] at three
      exact Nat.not_succ_le_zero _ three)
    pointer here
    (by
      intro before bytes after split
      obtain ⟨value, inside, rfl⟩ := List.mem_map.mp
        (split ▸ List.mem_append_right before (List.mem_cons_self ..))
      exact HeaderAhead.append (headers value inside) _)
    results
  rw [List.length_map] at result start
  refine ⟨array, ⟨next, shown, kept⟩, subs, ?_, start, all⟩
  rw [omnmmsgPayload_getVectorMsg, got, result]
  rfl

/-! ## Kept payloads -/

/-- A message that is longer than a given length. -/
def lengthyMessage (count : Nat) (four : count < 2 ^ 32) : Message :=
  Message.empty.append ⟨tag .opaqueField, 1, CString.empty, List.replicate count 0⟩
    (by simpa [DataFits, dataLayout] using four)

theorem lt_length_lengthyMessage (count : Nat) (four : count < 2 ^ 32) :
    count < (lengthyMessage count four).encode.length := by
  rw [lengthyMessage, Message.encode_append, List.length_append, FieldEntry.length_encode,
    List.length_replicate]
  omega

/-- What is read back over kept payloads of another length has one length. -/
theorem same_of_readBack {message : Message} (represents : msg.Represents message)
    (succeeds : memory.Succeeds) (key : validateNameFid name fid = none)
    (takes : ∀ entry, message.find name fid = some entry → entry.type = tag .vectorMsg)
    (some_values : values ≠ []) {getter : GetterMemory} (getterSucceeds : getter.payload.Succeeds)
    (short : strlenEx name + 1 < 2 ^ 31) (below : msg.mPayloadBufferTail < 2 ^ 31)
    (four : (recordsOf values).length < 2 ^ 32)
    (readBack : ∀ field results, results.KeepMessages →
      MessagesReadBack memory getter msg name fid values field results) :
    ∀ value ∈ values, ∀ other ∈ values, value.serialized.length = other.serialized.length := by
  obtain ⟨next, returned⟩ := exists_updateVectorMsgPayload represents succeeds key takes
    some_values short below four
  obtain ⟨changed, entry, holds, found, type, data⟩ := holds_of_updateVectorMsgPayload represents
    succeeds.payload key takes some_values short below four returned
  have listed : dataLayout entry.type ≠ .unlisted := type ▸ dataLayout_tag .vectorMsg (by simp)
  -- as many kept payloads as there are values, each longer than all of them
  obtain ⟨long, longHolds⟩ : ∃ long : OmnmPayloadImpl,
      long = (lengthyMessage (recordsOf values).length four).payload := ⟨_, rfl⟩
  have longer : ∀ value ∈ values, value.serialized.length < long.serialized.length := by
    intro value member
    have part := length_le_recordsOf member
    have lengthy := lt_length_lengthyMessage _ four
    rw [longHolds, (Message.payload_represents _).serialized_eq]
    omega
  have keeps : FieldResults.KeepMessages { FieldResults.none with
      mVectorPayload := List.replicate values.length (some long) } := by
    intro payload member
    cases List.eq_of_mem_replicate member
    exact ⟨_, longHolds ▸ Message.payload_represents _⟩
  obtain ⟨array, after, subs, got, start, all⟩ :=
    readBack OmnmFieldImpl.zeroed _ keeps next returned
  obtain ⟨shown, handled, through⟩ := @Represents.getVectorThroughField_of_find _ _ name fid _
    ⟨next, OmnmFieldImpl.zeroed, _⟩ _ holds found listed (omnmmsgFieldPayload_getVectorMsg getter)
  rw [omnmmsgPayload_getVectorMsg, through] at got
  obtain ⟨⟨status, value, kept⟩, performed, shape⟩ := Option.map_eq_some_iff.mp got
  cases shape
  obtain ⟨first, others, rfl⟩ := List.exists_cons_of_ne_nil some_values
  have front := longer first (List.mem_cons_self ..)
  have part := length_le_recordsOf (show first ∈ first :: others from List.mem_cons_self ..)
  have lengths := handled.length_of_getVectorMsg getterSucceeds data (by omega)
    (by
      intro sub member
      exact ⟨long, List.eq_of_mem_replicate member, rfl⟩)
    (Nat.le_of_eq (List.length_replicate ..).symm) performed
  have equal : ∀ value ∈ first :: others,
      value.serialized.length = first.serialized.length := by
    intro value member
    have written : value.serialized ∈ subs.map serialized := all ▸ List.mem_map_of_mem member
    obtain ⟨sub, inside, same⟩ := List.mem_map.mp written
    have stored : some sub ∈ array :=
      List.mem_of_mem_take (start ▸ List.mem_map_of_mem inside)
    obtain ⟨payload, shape, filled | old⟩ := lengths _ stored
    · cases shape
      rw [← same, filled]
    · cases shape
      have under := longer value member
      rw [← same, old] at under
      exact absurd under (Nat.lt_irrefl _)
  intro value member other member'
  rw [equal value member, equal other member']

end

/-- On a payload that holds a message, a non-empty list of payloads with accepted headers is read
back after an update that returned OK, whatever the field of the payload kept before, if the
payloads serialise to one number of bytes. With memory for the scratch buffer it is so only then,
already if the kept payloads hold messages. -/
theorem messages_read_back_iff [FieldTypeTags] {msg : OmnmPayloadImpl} {message : Message}
    (represents : msg.Represents message) {name : Option CString} {fid : UInt16}
    (key : validateNameFid name fid = none)
    (takes : ∀ entry, message.find name fid = some entry → entry.type = tag .vectorMsg)
    {values : List OmnmPayloadImpl} (some_values : values ≠ [])
    (headers : ∀ value ∈ values, value.HeaderAccepted) {memory : CallMemory}
    (succeeds : memory.payload.Succeeds) {getter : GetterMemory}
    (getterSucceeds : getter.payload.Succeeds) (arrays : getter.arrays = true)
    (short : strlenEx name + 1 < 2 ^ 31) (below : msg.mPayloadBufferTail < 2 ^ 31)
    (four : (recordsOf values).length < 2 ^ 32) :
    ((∀ value ∈ values, ∀ other ∈ values, value.serialized.length = other.serialized.length) →
        ∀ field results, MessagesReadBack memory getter msg name fid values field results) ∧
      (memory.scratch.Succeeds →
        (∀ field results, results.KeepMessages →
          MessagesReadBack memory getter msg name fid values field results) →
        ∀ value ∈ values, ∀ other ∈ values,
          value.serialized.length = other.serialized.length) :=
  ⟨fun same => readBack_of_same represents succeeds key takes some_values headers getterSucceeds
      arrays short below four same,
    fun scratch => same_of_readBack represents ⟨succeeds, scratch⟩ key takes some_values
      getterSucceeds short below four⟩

section Example

attribute [local instance] mamaFieldTypes

/-- A payload of nine bytes, with one field. -/
def ninePayload : OmnmPayloadImpl :=
  ⟨[79, 1, 0, 11, 1, 0, 65, 0, 5], 9, ⟨79, 1, 0⟩, []⟩

theorem messages_read_back_nine :
    MessagesReadBack CallMemory.zeroing ⟨.zeroing, true⟩ newPayload none 1
      [ninePayload, ninePayload] OmnmFieldImpl.zeroed FieldResults.none :=
  (@messages_read_back_iff _ newPayload _ OmnmPayloadImpl.Represents.newPayload none 1 rfl nofun
    [ninePayload, ninePayload] (List.cons_ne_nil _ _)
    (fun value member => by
      obtain rfl : value = ninePayload := by simpa using member
      exact ⟨by decide, by decide⟩)
    CallMemory.zeroing Allocator.zeroing_succeeds ⟨.zeroing, true⟩ Allocator.zeroing_succeeds rfl
    (by decide) (by decide) (by decide)).1
    (fun value member other member' => by
      obtain rfl : value = ninePayload := by simpa using member
      obtain rfl : other = ninePayload := by simpa using member'
      rfl)
    OmnmFieldImpl.zeroed FieldResults.none

/-- A message of three bytes and one of nine are written, and read as three messages, the last of
which is refused. -/
theorem messages_of_two_lengths :
    Message.empty.payload.HeaderAccepted ∧ ninePayload.HeaderAccepted ∧
      (newPayload.findFieldInBuffer none 1).result = some none ∧
      ((omnmmsgPayloadImpl_updateVectorMsgPayload CallMemory.zeroing newPayload none 1
          (some [Message.empty.payload, ninePayload])).result.bind fun updated =>
        (omnmmsgPayload_getVectorMsg ⟨.zeroing, true⟩
            { PayloadObject.new with impl := updated.2 } none 1).result.map fun got =>
          (updated.1, got.1, got.2.1.map Prod.snd)) =
        some (.ok, .wrongFieldType, some 3) ∧
      ¬ MessagesReadBack CallMemory.zeroing ⟨.zeroing, true⟩ newPayload none 1
        [Message.empty.payload, ninePayload] OmnmFieldImpl.zeroed FieldResults.none := by
  have outcome : ((omnmmsgPayloadImpl_updateVectorMsgPayload CallMemory.zeroing newPayload none 1
        (some [Message.empty.payload, ninePayload])).result.bind fun updated =>
      (omnmmsgPayload_getVectorMsg ⟨.zeroing, true⟩
          { PayloadObject.new with impl := updated.2 } none 1).result.map fun got =>
        (updated.1, got.1, got.2.1.map Prod.snd)) = some (.ok, .wrongFieldType, some 3) := by
    decide +kernel
  refine ⟨⟨by decide, by decide⟩, ⟨by decide, by decide⟩, by decide +kernel, outcome, ?_⟩
  intro reads
  obtain ⟨⟨status, next⟩, returned, got⟩ := Option.bind_eq_some_iff.mp outcome
  obtain ⟨⟨answer, shown⟩, performed, same⟩ := Option.map_eq_some_iff.mp got
  obtain ⟨rfl, rfl, -⟩ : status = .ok ∧ answer = .wrongFieldType ∧
      shown.1.map Prod.snd = some 3 := by
    simpa using same
  obtain ⟨array, after, subs, result, -⟩ := reads next returned
  cases performed.symm.trans result

end Example

end Omnm
