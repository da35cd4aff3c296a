import Omnm.Runs.Runs
import Omnm.Wire.Walking

/-!
# Types the iterator does not list

For a type that no `case` of its `switch` sizes, the encoder writes a length in
front of the data, as `isFieldTypeSized` asks it to, and the iterator reads
none: it yields the field with no data, and goes on at the length
(`next_of_unlisted`). Since data is never empty when it is written, no payload
in which such a field was written is read back (`unlisted_not_read_back`).
-/

set_option autoImplicit false

namespace Omnm

open OmnmPayloadImpl

section

variable [FieldTypeTags]

/-- A call of `addField` with any type byte, and the memory it gets. -/
structure FieldWrite where
  allocator : Allocator
  type : UInt8
  name : Option CString
  fid : UInt16
  data : List UInt8

/-- The field as it is to be shown: its value, and the length of its data. -/
def FieldWrite.shown (write : FieldWrite) : FieldValue × Nat :=
  (⟨write.type, write.fid, (write.name.getD CString.empty).bytes, write.data⟩, write.data.length)

/-- A payload as a system of additions. -/
def fieldWriteStep (msg : OmnmPayloadImpl) (write : FieldWrite) :
    Option (MamaStatus × OmnmPayloadImpl) :=
  (msg.addField write.allocator write.type write.name write.fid (some write.data)).result

/-- A complete iteration shows the fields that were written, one after another, behind what the
payload held before. -/
def ReadBackAsWritten (msg : OmnmPayloadImpl) (writes : List FieldWrite) : Prop :=
  ∃ fields last earlier, (iterateFields msg).result = some (fields, last) ∧
    fields.map msg.shown = earlier ++ writes.map FieldWrite.shown

variable {msg next : OmnmPayloadImpl} {iter : OmnmIterImpl} {rounds : Nat}

/-- Nothing is located for a type that is not listed. -/
theorem next_of_unlisted {field : OmnmFieldImpl} {after : OmnmIterImpl}
    (unlisted : dataLayout field.mFieldType = .unlisted)
    (yielded : (omnmmsgPayloadIter_next iter msg).result = some (some field, after)) :
    field.mSize = 0 ∧ field.mData = iter.mField.mData ∧ ∃ behindName,
      (locateName msg.mPayloadBuffer (iter.mBufferPosition + 3)).result =
          some (field.mName, behindName) ∧
        (iter.mIndex ≠ 0 → after.mBufferPosition = behindName) := by
  obtain ⟨behindName, behind, name, data, position⟩ := (fieldRead_of_next yielded).located
  rw [locateData, unlisted, Traced.result_pure, Option.some.injEq, Prod.mk.injEq,
    Prod.mk.injEq] at data
  obtain ⟨place, size, rfl⟩ := data
  refine ⟨size.symm, place.symm, behindName, name, ?_⟩
  intro started
  rw [position, if_neg started, ← size, Nat.add_zero]

/-- Every field that a loop over the fields yields was yielded by one of its calls. -/
theorem exists_next_of_mem {fields : List OmnmFieldImpl} {last : OmnmIterImpl}
    (result : (nextUntilNull msg rounds iter).result = some (fields, last))
    {field : OmnmFieldImpl} (member : field ∈ fields) :
    ∃ before after, (omnmmsgPayloadIter_next before msg).result = some (some field, after) := by
  induction rounds generalizing iter fields with
  | zero => cases result
  | succ rounds ih =>
      rcases nextUntilNull_cases result with ⟨rfl, -⟩ | ⟨first, middle, rest, rfl, yielded, looped⟩
      · cases member
      · rcases List.mem_cons.mp member with rfl | later
        · exact ⟨_, _, yielded⟩
        · exact ih looped later

/-- Data that is written has bytes. -/
theorem data_ne_nil_of_written {write : FieldWrite}
    (written : fieldWriteStep msg write = some (.ok, next)) : write.data ≠ [] := by
  intro empty
  rw [fieldWriteStep, empty] at written
  cases rejected : rejection write.name write.fid [] with
  | none => exact (accepted_iff_rejection.mpr rejected).some_data rfl
  | some status =>
      rw [addField_of_rejection rejected] at written
      cases written
      exact rejection_ne_ok rejected

theorem data_ne_nil_of_run {writes : List FieldWrite} {statuses : List MamaStatus}
    (ran : run fieldWriteStep msg writes = some (statuses, next))
    (accepted : ∀ status ∈ statuses, status = .ok) {write : FieldWrite} (member : write ∈ writes) :
    write.data ≠ [] := by
  induction writes generalizing msg statuses with
  | nil => cases member
  | cons first writes ih =>
      obtain ⟨status, middle, rest, written, ranRest, rfl⟩ := run_cons_eq_some ran
      rcases List.mem_cons.mp member with rfl | later
      · exact data_ne_nil_of_written (accepted status (List.mem_cons_self ..) ▸ written)
      · exact ih ranRest (fun other member => accepted other (List.mem_cons_of_mem _ member)) later

end

/-- Where a field of a type that is not listed was written, no iteration reads back what was
written: it shows that field without its data. -/
theorem unlisted_not_read_back [FieldTypeTags] (msg last : OmnmPayloadImpl)
    (writes : List FieldWrite) (statuses : List MamaStatus)
    (ran : run fieldWriteStep msg writes = some (statuses, last))
    (accepted : ∀ status ∈ statuses, status = .ok) (write : FieldWrite) (member : write ∈ writes)
    (unlisted : dataLayout write.type = .unlisted) : ¬ ReadBackAsWritten last writes := by
  rintro ⟨fields, ended, earlier, iterated, shows⟩
  have among : write.shown ∈ fields.map last.shown := by
    rw [shows]
    exact List.mem_append_right _ (List.mem_map_of_mem member)
  obtain ⟨field, yielded, same⟩ := List.mem_map.mp among
  have type : field.mFieldType = write.type := congrArg (fun shown => shown.1.type) same
  have size : field.mSize = write.data.length := congrArg Prod.snd same
  rw [iterateFields] at iterated
  obtain ⟨start, -, walked⟩ := Traced.result_bind_eq_some.mp iterated
  obtain ⟨before, after, next⟩ := exists_next_of_mem walked yielded
  have none : field.mSize = 0 := (next_of_unlisted (type ▸ unlisted) next).1
  exact data_ne_nil_of_run ran accepted member (List.length_eq_zero_iff.mp (size ▸ none))

section Example

attribute [local instance] mamaFieldTypes

/-- A byte of the type `MAMA_FIELD_TYPE_UNKNOWN`, and then an `I8`. -/
def unknownThenByte : List FieldWrite :=
  [⟨.zeroing, mamaFieldTypeNumber .unknown, none, 1, [7]⟩,
    ⟨.zeroing, mamaFieldTypeNumber .i8, none, 2, [5]⟩]

/-- The payload with these fields. -/
def unknownThenBytePayload : OmnmPayloadImpl :=
  ⟨[79, 1, 0, 100, 1, 0, 0, 1, 0, 0, 0, 7, 11, 2, 0, 0, 5] ++ List.replicate 183 0, 17,
    OmnmHeader.default, []⟩

theorem run_unknownThenByte :
    run fieldWriteStep newPayload unknownThenByte =
      some ([.ok, .ok], unknownThenBytePayload) := by
  decide +kernel

theorem unknown_not_read_back :
    ¬ ReadBackAsWritten unknownThenBytePayload unknownThenByte :=
  unlisted_not_read_back newPayload unknownThenBytePayload unknownThenByte [.ok, .ok]
    run_unknownThenByte (by decide) _ (List.mem_cons_self ..) (by decide)

/-- The iterator gives the first field no data, and takes the length in front of the data for
the next field. The second field does not appear. -/
theorem unknown_field_misread :
    run fieldWriteStep newPayload unknownThenByte = some ([.ok, .ok], unknownThenBytePayload) ∧
      ((iterateFields unknownThenBytePayload).result.map fun got =>
        got.1.map fun field => (field.mFieldType, field.mFid, field.mSize)) =
          some [(mamaFieldTypeNumber .unknown, 1, 0), (mamaFieldTypeNumber .msg, 0, 133895)] ∧
      ¬ ReadBackAsWritten unknownThenBytePayload unknownThenByte := by
  have yields : ((iterateFields unknownThenBytePayload).result.map fun got =>
      got.1.map fun field => (field.mFieldType, field.mFid, field.mSize)) =
        some [(mamaFieldTypeNumber .unknown, 1, 0), (mamaFieldTypeNumber .msg, 0, 133895)] := by
    decide +kernel
  refine ⟨run_unknownThenByte, yields, ?_⟩
  rintro ⟨fields, ended, earlier, iterated, shows⟩
  rw [iterated, Option.map_some, Option.some.injEq] at yields
  have sizes : fields.map OmnmFieldImpl.mSize = [0, 133895] := by
    simpa [Function.comp_def] using congrArg (List.map fun shown => shown.2.2) yields
  have written : fields.map OmnmFieldImpl.mSize = earlier.map Prod.snd ++ [1, 1] := by
    have lengths := congrArg (List.map Prod.snd) shows
    rwa [List.map_append, List.map_map] at lengths
  have last := congrArg List.getLast? (sizes.symm.trans written)
  simp at last

end Example

end Omnm
