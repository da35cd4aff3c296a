import Omnm.Payload.DateTimes
import Omnm.Payload.Preparation
import Omnm.Results.Application
import Omnm.Wire.ObjectLookups

/-!
# Date-times that are read back

A vector of date-times goes record by record through the scratch buffer, and is
converted record by record into an array that the field of the payload keeps.
What is read after an update is what was written, whatever the scratch buffer
and the array held before (`dateTimes_read_back`).

A date-time that comes from the wire may have seconds that the getter cannot
give. It gives OK for all of them, and keeps the seconds exactly if they fit
32 unsigned bits (`wireDateTime_kept_iff`).
-/

set_option autoImplicit false

namespace Omnm

open FieldTypeTags (tag)
open OmnmPayloadImpl

section

variable [FieldTypeTags]

/-- Whatever the field of the payload kept, the getter gives an array of exactly these
date-times. -/
def ReadsBackDateTimes (getter : GetterMemory) (msg : OmnmPayloadImpl) (name : Option CString)
    (fid : UInt16) (values : List MamaDateTime) : Prop :=
  ∀ (field : OmnmFieldImpl) (results : FieldResults),
    ∃ (array : List (Option MamaDateTime)) (after : PayloadObject),
      (omnmmsgPayload_getVectorDateTime getter ⟨msg, field, results⟩ name fid).result =
        some (.ok, some (array, values.length), after) ∧
      array.take values.length = values.map some

/-- What the getter gives for a date-time of the wire is written again as that date-time, with the
nanoseconds rounded down to microseconds, unless the getter refuses. -/
def KeepsWireDateTime [MamaLibrary] (msg : OmnmPayloadImpl) (field : OmnmFieldImpl)
    (wire : OmnmDateTime) : Prop :=
  ∃ status value, (omnmmsgFieldPayload_getDateTime msg field).result = some (status, value) ∧
    (status = .ok → ∃ date, value = some date ∧
      OmnmDateTime.ofBytes (convertMamaDateTimeToOmnmDateTime date) = wire.roundedDown)

/-! ## The vector in the scratch buffer -/

variable {memory : CallMemory} {msg : OmnmPayloadImpl} {message : Message} {name : Option CString}
  {fid : UInt16}

/-- An update from elements makes them the data of the first field with the key. -/
theorem exists_updateVectorElements (represents : msg.Represents message)
    (succeeds : memory.Succeeds) {type : MamaFieldType} (sized : dataLayout (tag type) = .sized)
    {elements : List (List UInt8)} (accepted : Accepted name fid elements.flatten)
    (short : message.find name fid = none → strlenEx name + 1 < 2 ^ 31)
    (below : msg.mPayloadBufferTail < 2 ^ 31)
    (takes : ∀ entry, message.find name fid = some entry → entry.type = tag type) :
    ∃ next changed entry,
      (updateVectorElements type memory msg name fid (some elements)).result = some (.ok, next) ∧
        next.Represents changed ∧ changed.find name fid = some entry ∧ entry.type = tag type ∧
        entry.data = elements.flatten := by
  have room := le_length_scratch succeeds.scratch msg.mBuffer (elementsLength elements)
  have length := length_flatten elements
  have copied := @result_copyElements (allocateBufferMemory memory.scratch msg.mBuffer
    (elementsLength elements)).buffer 0 elements (by rwa [Nat.zero_add, ← length])
  have some_bytes : overwrite (allocateBufferMemory memory.scratch msg.mBuffer
      (elementsLength elements)).buffer 0 elements.flatten ≠ [] := by
    rw [← List.length_pos_iff, length_overwrite]
    exact (List.length_pos_iff.mpr accepted.some_data).trans_le (length ▸ room)
  obtain ⟨next, changed, entry, updated, holds⟩ := (represents.withScratch (overwrite
    (allocateBufferMemory memory.scratch msg.mBuffer (elementsLength elements)).buffer 0
    elements.flatten)).updateField_sized succeeds.payload sized accepted short below takes
  refine ⟨next, changed, entry, ?_, holds⟩
  simp only [updateVectorElements, accepted.key, Traced.result_bind, copied, Option.bind_some,
    result_scratchArgument (room.trans_eq (length_overwrite ..).symm), if_neg some_bytes,
    take_overwrite_zero length room]
  exact updated

/-- Every record of a vector of date-times has the width of one. -/
theorem length_of_mem_map_convert (values : List MamaDateTime) :
    ∀ record ∈ values.map convertMamaDateTimeToOmnmDateTime,
      record.length = sizeofOmnmDateTime := by
  intro record member
  obtain ⟨value, -, rfl⟩ := List.mem_map.mp member
  exact length_of_dataFits dataLayout_time rfl (dataFits_dateTime value)

/-- A first field whose data are date-times is read as these date-times. -/
theorem readsBackDateTimes_of_find {entry : FieldEntry} {values : List MamaDateTime}
    (represents : msg.Represents message) (found : message.find name fid = some entry)
    (type : entry.type = tag .vectorTime)
    (data : entry.data = (values.map convertMamaDateTimeToOmnmDateTime).flatten)
    (some_values : values ≠ [])
    (second : ∀ value ∈ values, value.microseconds.toNat < 10 ^ 6)
    {getter : GetterMemory} (arrays : getter.arrays = true) :
    ReadsBackDateTimes getter msg name fid values := by
  intro field results
  have listed : dataLayout entry.type ≠ .unlisted := type ▸ dataLayout_tag .vectorTime (by simp)
  obtain ⟨shown, handled, got⟩ := @Represents.getVectorThroughField_of_find _ _ name fid _
    ⟨msg, field, results⟩ _ represents found listed (omnmmsgFieldPayload_getVectorDateTime getter)
  obtain ⟨array, result, start⟩ := handled.getVectorRecords arrays
    (show 0 < sizeofOmnmDateTime by decide) (List.map_eq_nil_iff.not.mpr some_values)
    (length_of_mem_map_convert values) data results.mVectorDateTime
    convertOmnmDateTimeToMamaDateTime
  have same : (values.map convertMamaDateTimeToOmnmDateTime).map
      (fun record => some (convertOmnmDateTimeToMamaDateTime record)) = values.map some := by
    rw [List.map_map]
    apply List.map_congr_left
    intro value member
    exact congrArg some (OmnmDateTime.convert_round_trip (second value member))
  rw [List.length_map] at result start
  refine ⟨array, ⟨msg, shown, { results with mVectorDateTime := array }⟩, ?_, start.trans same⟩
  rw [omnmmsgPayload_getVectorDateTime, got, omnmmsgFieldPayload_getVectorDateTime,
    Traced.result_bind, result]
  rfl

end

/-- On a payload that holds a message, a non-empty list of date-times that is written under a key
without a field or of a vector of date-times is read back, whatever the field of the payload kept
before. -/
theorem dateTimes_read_back [FieldTypeTags] {msg : OmnmPayloadImpl} {message : Message}
    (represents : msg.Represents message) {name : Option CString} {fid : UInt16}
    (key : validateNameFid name fid = none)
    (takes : ∀ entry, message.find name fid = some entry → entry.type = tag .vectorTime)
    {values : List MamaDateTime} (some_values : values ≠ [])
    (second : ∀ value ∈ values, value.microseconds.toNat < 10 ^ 6) {memory : CallMemory}
    (succeeds : memory.Succeeds) {getter : GetterMemory} (arrays : getter.arrays = true)
    (short : message.find name fid = none → strlenEx name + 1 < 2 ^ 31)
    (below : msg.mPayloadBufferTail < 2 ^ 31)
    (four : sizeofOmnmDateTime * values.length ≤ uint32Max) :
    ∃ next, (omnmmsgPayload_updateVectorTime memory msg name fid (some values)).result =
        some (.ok, next) ∧
      ReadsBackDateTimes getter next name fid values := by
  have length : (values.map convertMamaDateTimeToOmnmDateTime).flatten.length =
      values.length * sizeofOmnmDateTime := by
    rw [length_flatten_of_width (length_of_mem_map_convert values), List.length_map]
  have positive := Nat.mul_pos (List.length_pos_iff.mpr some_values)
    (show 0 < sizeofOmnmDateTime by decide)
  have accepted : Accepted name fid (values.map convertMamaDateTimeToOmnmDateTime).flatten := by
    refine ⟨?_, ?_, key⟩
    · rwa [length, Nat.mul_comm]
    · rwa [← List.length_pos_iff, length]
  obtain ⟨next, changed, entry, updated, holds, found, type, data⟩ := exists_updateVectorElements
    represents succeeds (show dataLayout (tag .vectorTime) = .sized by simp [dataLayout]) accepted
    short below takes
  exact ⟨next, updated, readsBackDateTimes_of_find holds found type data some_values second arrays⟩

/-- The date-time of a TIME field that comes from the wire is refused or kept, up to the
nanoseconds below a microsecond, exactly if its seconds fit 32 unsigned bits. -/
theorem wireDateTime_kept_iff [FieldTypeTags] [MamaLibrary] {msg : OmnmPayloadImpl}
    {entry : FieldEntry} {position : Nat} {rest : List UInt8}
    (here : msg.mPayloadBuffer.drop position = entry.encode ++ rest)
    (time : entry.type = tag .time) (fits : DataFits entry.type entry.data)
    (previous : BufferPtr) :
    KeepsWireDateTime msg (entry.handle position previous) (OmnmDateTime.ofBytes entry.data) ↔
      0 ≤ (OmnmDateTime.ofBytes entry.data).mSeconds ∧
        (OmnmDateTime.ofBytes entry.data).mSeconds < 2 ^ 32 := by
  have listed : dataLayout entry.type ≠ .unlisted := time ▸ dataLayout_tag .time (by simp)
  have got := (FieldEntry.handledBy_of_drop listed here previous).getDateTime time
    (length_of_dataFits dataLayout_time time fits)
  rw [← OmnmDateTime.round_trip_eq_iff]
  constructor
  · rintro ⟨status, value, returned, kept⟩
    cases got.symm.trans returned
    obtain ⟨date, same, whole⟩ := kept rfl
    cases same
    exact whole
  · intro whole
    exact ⟨_, _, got, fun _ => ⟨_, rfl, whole⟩⟩

section Example

attribute [local instance] mamaFieldTypes
attribute [local instance] plainLibrary

/-- Two date-times over an array that kept three are read back as two. -/
theorem dateTimes_read_back_two :
    ∃ next, (omnmmsgPayload_updateVectorTime CallMemory.zeroing newPayload none 1
        (some [⟨5, 999999, 1, 0⟩, ⟨4294967295, 0, 0, 2⟩])).result = some (.ok, next) ∧
      ReadsBackDateTimes ⟨.zeroing, true⟩ next none 1
        [⟨5, 999999, 1, 0⟩, ⟨4294967295, 0, 0, 2⟩] :=
  dateTimes_read_back Represents.newPayload rfl nofun (List.cons_ne_nil _ _)
    (by decide) CallMemory.zeroing_succeeds rfl (fun _ => by decide) (by decide) (by decide)

/-- A TIME field with seconds of eight equal bytes. -/
def timeField (byte : UInt8) : FieldEntry where
  type := mamaFieldTypeNumber .time
  fid := 1
  name := CString.empty
  data := List.replicate 8 0 ++ List.replicate 8 byte ++ List.replicate 24 0

/-- A payload that received the field. -/
def timePayload (byte : UInt8) : OmnmPayloadImpl :=
  (Message.empty.append (timeField byte) (by cases byte; rfl)).payload

/-- The last second of 32 unsigned bits and nearly a second more, with hints, a precision and bytes
between the members. -/
def lateField : FieldEntry where
  type := mamaFieldTypeNumber .time
  fid := 0
  name := ⟨[84], by decide⟩
  data := [5] ++ List.replicate 7 170 ++ littleEndian 8 4294967295 ++ littleEndian 4 999999999 ++
    [6] ++ List.replicate 19 170

/-- A payload that received it behind another field. -/
def latePayload : OmnmPayloadImpl :=
  ((Message.empty.append ⟨mamaFieldTypeNumber .i8, 2, CString.empty, [1]⟩ (by decide)).append
    lateField (by decide)).payload

theorem lateField_kept :
    OmnmDateTime.ofBytes lateField.data = ⟨5, 4294967295, 999999999, 6⟩ ∧
      KeepsWireDateTime latePayload (lateField.handle 8 .null)
        (OmnmDateTime.ofBytes lateField.data) :=
  ⟨by decide, (@wireDateTime_kept_iff _ _ latePayload lateField 8 [] (by decide +kernel) rfl
    (by decide) .null).mpr (by decide)⟩

/-- A second before the epoch is read with OK as the last second of 32 unsigned bits. -/
theorem before_epoch_read_as_later :
    (OmnmDateTime.ofBytes (timeField 255).data).mSeconds = -1 ∧
      (omnmmsgFieldPayload_getDateTime (timePayload 255) ((timeField 255).handle 3 .null)).result =
        some (.ok, some ⟨4294967295, 0, 0, 0⟩) ∧
      (OmnmDateTime.ofBytes (convertMamaDateTimeToOmnmDateTime ⟨4294967295, 0, 0, 0⟩)).mSeconds =
        4294967295 ∧
      ¬ KeepsWireDateTime (timePayload 255) ((timeField 255).handle 3 .null)
        (OmnmDateTime.ofBytes (timeField 255).data) := by
  have seconds : (OmnmDateTime.ofBytes (timeField 255).data).mSeconds = -1 := by decide
  have got : (omnmmsgFieldPayload_getDateTime (timePayload 255)
      ((timeField 255).handle 3 .null)).result = some (.ok, some ⟨4294967295, 0, 0, 0⟩) := by
    decide +kernel
  have written : (OmnmDateTime.ofBytes (convertMamaDateTimeToOmnmDateTime
      ⟨4294967295, 0, 0, 0⟩)).mSeconds = 4294967295 := by
    decide
  refine ⟨seconds, got, written, ?_⟩
  rintro ⟨status, value, returned, kept⟩
  obtain ⟨ok, read⟩ := Prod.mk.inj (Option.some.inj (returned.symm.trans got))
  obtain ⟨date, same, whole⟩ := kept ok
  have date_eq := Option.some.inj (same.symm.trans read)
  rw [date_eq] at whole
  have later := congrArg OmnmDateTime.mSeconds whole
  rw [written, OmnmDateTime.mSeconds_roundedDown, seconds] at later
  exact absurd later (by decide)

end Example

end Omnm
