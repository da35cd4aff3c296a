import Omnm.Results.Coherence
import Omnm.Wire.FieldCalls
import Omnm.Wire.Lookup
import Omnm.Wire.ObjectLookups

/-!
# What an update of a vector reports

An update of a vector of scalars returns the status of its lookup. It is to be OK
exactly if the first field with the key is then a vector with the values given,
and any other status is to leave the message as it was (`ReportsHonestly`).

The status of the update itself is dropped, so a field of another type is
reported as updated and stays what it was. A key that the lookup rejects sends a
local field that nothing has written into the update. The report is honest
exactly if neither happens and the length of the data has four bytes
(`updateVector_honest_iff`).
-/

set_option autoImplicit false

namespace Omnm

open FieldTypeTags (tag)

section

variable [FieldTypeTags]

/-- The first field with the key has the type and the data. -/
def OmnmPayloadImpl.HoldsFirst (msg : OmnmPayloadImpl) (name : Option CString) (fid : UInt16)
    (type : MamaFieldType) (bytes : List UInt8) : Prop :=
  ∃ field, (msg.findFieldInBuffer name fid).result = some (some field) ∧
    field.mFieldType = tag type ∧ field.mSize = bytes.length ∧ (msg.valueOf field).data = bytes

/-- The call returns, with OK exactly if the first field with the key then has the type and the
data. With any other status the bytes and the tail are as before. -/
def ReportsHonestly (msg : OmnmPayloadImpl) (call : Mutated) (name : Option CString)
    (fid : UInt16) (type : MamaFieldType) (bytes : List UInt8) : Prop :=
  ∃ status next, call.result = some (status, next) ∧
    (status = .ok ↔ next.HoldsFirst name fid type bytes) ∧
    (status ≠ .ok → next.serialized = msg.serialized ∧
      next.mPayloadBufferTail = msg.mPayloadBufferTail)

/-- The key is NULL, or it is accepted and names a field of the given type, with data whose
length has four bytes, or no field, with a name whose length is an `int`. -/
def Message.TakesVector (message : Message) (name : Option CString) (fid : UInt16)
    (type : MamaFieldType) (length : Nat) : Prop :=
  (name = none ∧ fid = 0) ∨ (validateNameFid name fid = none ∧
    match message.find name fid with
    | none => strlenEx name + 1 < 2 ^ 31
    | some entry => entry.type = tag type ∧ length < 2 ^ 32)

/-! ## First fields -/

variable {msg : OmnmPayloadImpl} {message : Message} {name : Option CString} {fid : UInt16}
  {type : MamaFieldType} {bytes : List UInt8}

/-- What the first field of a represented message holds. -/
theorem OmnmPayloadImpl.Represents.holdsFirst_iff (represents : msg.Represents message) :
    msg.HoldsFirst name fid type bytes ↔
      ∃ entry, message.find name fid = some entry ∧ entry.type = tag type ∧
        entry.data = bytes := by
  rcases represents.findFieldInBuffer name fid with ⟨absent, search⟩ |
    ⟨before, entry, after, previous, split, found, -, -, search⟩
  · constructor
    · rintro ⟨field, found, -⟩
      cases search.symm.trans found
    · rintro ⟨entry, found, -⟩
      cases absent.symm.trans found
  · have value := represents.valueOf_handle split previous
    constructor
    · rintro ⟨field, foundField, sameType, -, data⟩
      cases search.symm.trans foundField
      rw [value] at data
      exact ⟨entry, found, sameType, data⟩
    · rintro ⟨other, foundOther, sameType, rfl⟩
      cases found.symm.trans foundOther
      exact ⟨_, search, sameType, rfl, by rw [value]; rfl⟩

/-! ## The three answers of the lookup -/

variable {memory : CallMemory} {size : Nat} {values : List Nat}

/-- A call that changes nothing, when no field has the key. -/
theorem reportsHonestly_pure (represents : msg.Represents message)
    (absent : message.find name fid = none) {status : MamaStatus} (refused : status ≠ .ok) :
    ReportsHonestly msg (pure (status, msg)) name fid type bytes := by
  refine ⟨status, msg, rfl, ?_, fun _ => ⟨rfl, rfl⟩⟩
  rw [represents.holdsFirst_iff]
  constructor
  · exact fun ok => absurd ok refused
  · rintro ⟨entry, found, -⟩
    cases absent.symm.trans found

/-- Under a key without a field the vector is appended, unless it is too long. -/
theorem reportsHonestly_addField (represents : msg.Represents message)
    (succeeds : memory.payload.Succeeds) (below : msg.mPayloadBufferTail < 2 ^ 31)
    (key : validateNameFid name fid = none) (absent : message.find name fid = none)
    (short : strlenEx name + 1 < 2 ^ 31) (sized : dataLayout (tag type) = .sized)
    (some_bytes : bytes ≠ []) :
    ReportsHonestly msg (msg.addField memory.payload (tag type) name fid (some bytes)) name fid
      type bytes := by
  have noNull := not_none_of_validateNameFid key
  by_cases long : uint32Max < bytes.length
  · have refused : msg.addField memory.payload (tag type) name fid (some bytes) =
        pure (.invalidArg, msg) := if_pos long
    rw [refused]
    exact reportsHonestly_pure represents absent (by simp)
  · obtain ⟨fits, next, keeps⟩ := represents.append_sized succeeds sized
      ⟨Nat.not_lt.mp long, some_bytes, key⟩ short (by omega)
    refine ⟨.ok, next, keeps.result, ?_, fun refused => absurd rfl refused⟩
    rw [keeps.represents.holdsFirst_iff]
    exact iff_of_true rfl
      ⟨_, Message.find_append absent fits (hasKey_of_validateNameFid key), rfl, rfl⟩

/-- A field of the type gets the data. -/
theorem reportsHonestly_updateFieldHandle (represents : msg.Represents message)
    (succeeds : memory.payload.Succeeds) (below : msg.mPayloadBufferTail < 2 ^ 31)
    {before after : List FieldEntry} {entry : FieldEntry}
    (split : message.entries = before ++ entry :: after)
    (matching : entry.hasKey name fid = true)
    (absent : ∀ other ∈ before, other.hasKey name fid = false)
    (sized : dataLayout (tag type) = .sized) (sameType : entry.type = tag type)
    (four : bytes.length < 2 ^ 32) (previous : BufferPtr) :
    ∃ next field, (msg.updateFieldHandle memory.payload (tag type)
        (entry.handle (message.header.length + (encodeAll before).length) previous)
        (some bytes)).result = some (.ok, next, field) ∧
      next.HoldsFirst name fid type bytes := by
  have fits : DataFits entry.type bytes := by
    simpa only [DataFits, sameType, sized] using four
  obtain ⟨next, field, updated, replaced, -, -, -⟩ :=
    represents.updateFieldHandle succeeds split matching absent
      (fun refused => refused.1 sameType) (by rw [sameType, sized]; simp) fits (.inr below)
      (by omega) previous
  refine ⟨next, field, updated, replaced.holdsFirst_iff.mpr ?_⟩
  exact ⟨_, Message.find_replace split matching absent fits, sameType, rfl⟩

/-! ## The update of a vector -/

/-- The update behind a lookup under an accepted key. -/
theorem updateScalarVector_of_accepted (key : validateNameFid name fid = none)
    {answer : MamaStatus × Option OmnmFieldImpl}
    (lookup : (msg.getField name fid).result = some answer) :
    (updateScalarVector type size memory msg name fid (some values)).result =
      if answer.1 = .notFound then
        (msg.addField memory.payload (tag type) name fid
          (some (vectorBytes size values))).result
      else
        (msg.updateFieldHandle memory.payload (tag type) (answer.2.getD memory.uninitialised)
          (some (vectorBytes size values))).result.map fun outcome => (answer.1, outcome.2.1) := by
  have given := not_none_of_validateNameFid key
  simp only [updateScalarVector, if_neg given, Traced.result_bind, lookup, Option.bind_some]
  split
  · simp only [addScalarVector, if_neg given]
  · rw [Traced.result_bind]
    cases (msg.updateFieldHandle memory.payload (tag type)
      (answer.2.getD memory.uninitialised) (some (vectorBytes size values))).result <;> rfl

/-- A key that is accepted and a field that takes the vector make the report honest. -/
theorem reportsHonestly_of_takes (represents : msg.Represents message)
    (succeeds : memory.payload.Succeeds) (below : msg.mPayloadBufferTail < 2 ^ 31)
    (sized : dataLayout (tag type) = .sized) (some_bytes : vectorBytes size values ≠ [])
    (takes : message.TakesVector name fid type (vectorBytes size values).length) :
    ReportsHonestly msg (updateScalarVector type size memory msg name fid (some values)) name fid
      type (vectorBytes size values) := by
  rcases takes with ⟨rfl, rfl⟩ | ⟨key, takes⟩
  · have refused : updateScalarVector type size memory msg none 0 (some values) =
        pure (.nullArg, msg) := by
      rw [updateScalarVector]
      exact if_pos ⟨rfl, rfl⟩
    rw [refused]
    exact reportsHonestly_pure represents (message.find_of_rejected rfl) (by simp)
  · rcases represents.getField_of_accepted key with ⟨absent, lookup⟩ |
      ⟨before, entry, after, previous, split, found, matching, none, lookup⟩
    · rw [absent] at takes
      obtain ⟨status, next, result, report, unchanged⟩ :=
        reportsHonestly_addField represents succeeds below key absent takes sized some_bytes
      refine ⟨status, next, ?_, report, unchanged⟩
      rw [updateScalarVector_of_accepted key lookup, if_pos rfl, result]
    · rw [found] at takes
      obtain ⟨next, field, updated, holds⟩ := reportsHonestly_updateFieldHandle represents
        succeeds below split matching none sized takes.1 takes.2 previous
      refine ⟨.ok, next, ?_, iff_of_true rfl holds, fun refused => absurd rfl refused⟩
      rw [updateScalarVector_of_accepted key lookup, if_neg (by simp)]
      show Option.map _ (OmnmPayloadImpl.updateFieldHandle ..).result = _
      rw [Option.getD_some, updated]
      rfl

/-- An honest report under every content of the local field needs such a key and field. -/
theorem takes_of_reportsHonestly (represents : msg.Represents message) {payload scratch : Allocator}
    (sized : dataLayout (tag type) = .sized) (short : strlenEx name + 1 < 2 ^ 31)
    (honest : ∀ uninitialised, ReportsHonestly msg
      (updateScalarVector type size ⟨payload, scratch, uninitialised⟩ msg name fid (some values))
      name fid type (vectorBytes size values)) :
    message.TakesVector name fid type (vectorBytes size values).length := by
  by_cases null : name = none ∧ fid = 0
  · exact .inl null
  · cases key : validateNameFid name fid with
    | some status =>
        -- a local field of the right type, whose data pointer is NULL
        obtain ⟨_, _, result, -⟩ := honest ⟨tag type, 0, .null, 0, .null⟩
        have refused : status ≠ .notFound := by
          rintro rfl
          cases name <;> simp [validateNameFid] at key
        simp [updateScalarVector, null, OmnmPayloadImpl.getField, key, refused,
          OmnmPayloadImpl.updateFieldHandle] at result
    | none =>
        refine .inr ⟨key, ?_⟩
        rcases represents.getField_of_accepted key with ⟨absent, -⟩ |
          ⟨before, entry, after, previous, split, found, -, -, lookup⟩
        · rw [absent]
          exact short
        · rw [found]
          obtain ⟨status, next, result, report, -⟩ := honest OmnmFieldImpl.zeroed
          rw [updateScalarVector_of_accepted key lookup, if_neg (by simp)] at result
          obtain ⟨⟨inner, changed, field⟩, updated, same⟩ := Option.map_eq_some_iff.mp result
          cases same
          have holds := report.mp rfl
          obtain ⟨shown, search, sameType, length, -⟩ := report.mp rfl
          have four : (vectorBytes size values).length < 2 ^ 32 :=
            length ▸ mSize_lt_of_findFieldInBuffer search (by rw [sameType, sized])
          refine ⟨?_, four⟩
          by_contra differs
          -- a vector is not castable, so the update refused and left the payload
          have refused : areFieldTypesCastable entry.type (tag type) = false := by
            rw [areFieldTypesCastable, Bool.and_eq_false_iff]
            right
            by_contra fixed
            obtain ⟨width, layout⟩ :=
              dataLayout_of_isFieldTypeFixedWidth (Bool.eq_true_of_not_eq_false fixed)
            cases sized.symm.trans layout
          dsimp only [Option.getD_some] at updated
          rw [OmnmPayloadImpl.updateFieldHandle, FieldEntry.handle_mFieldType,
            if_pos ⟨differs, refused⟩] at updated
          have unchanged : msg = changed := congrArg (fun outcome => outcome.2.1)
            (Option.some.inj updated)
          obtain ⟨other, foundOther, otherType, -⟩ :=
            represents.holdsFirst_iff.mp (unchanged ▸ holds)
          cases found.symm.trans foundOther
          exact differs otherType

end

/-- The update of a vector of scalars on a payload that holds a message reports honestly, whatever
the local field contains, if the message takes the vector under the key. With a name whose length
is an `int` it does so only then. -/
theorem updateVector_honest_iff [FieldTypeTags] {msg : OmnmPayloadImpl} {message : Message}
    (represents : msg.Represents message) (below : msg.mPayloadBufferTail < 2 ^ 31)
    {payload : Allocator} (succeeds : payload.Succeeds) (scratch : Allocator)
    (scalar : ScalarType) (name : Option CString) (fid : UInt16) {values : List Nat}
    (some_values : values ≠ []) :
    (message.TakesVector name fid scalar.vectorFieldType (scalar.size * values.length) →
        ∀ uninitialised, ReportsHonestly msg
          (scalar.omnmmsgPayload_updateVector ⟨payload, scratch, uninitialised⟩ msg name fid
            (some values))
          name fid scalar.vectorFieldType (vectorBytes scalar.size values)) ∧
      (strlenEx name + 1 < 2 ^ 31 →
        (∀ uninitialised, ReportsHonestly msg
          (scalar.omnmmsgPayload_updateVector ⟨payload, scratch, uninitialised⟩ msg name fid
            (some values))
          name fid scalar.vectorFieldType (vectorBytes scalar.size values)) →
        message.TakesVector name fid scalar.vectorFieldType (scalar.size * values.length)) := by
  have length := length_vectorBytes scalar.size values
  have some_bytes : vectorBytes scalar.size values ≠ [] := by
    rw [← List.length_pos_iff, length]
    exact Nat.mul_pos scalar.size_pos (List.length_pos_iff.mpr some_values)
  rw [← length, scalar.mutators_eq.2.2.2]
  exact ⟨fun takes uninitialised => reportsHonestly_of_takes represents succeeds below
      scalar.dataLayout_vectorFieldType some_bytes takes,
    fun short honest => takes_of_reportsHonestly represents scalar.dataLayout_vectorFieldType short
      honest⟩

section Example

attribute [local instance] mamaFieldTypes

/-- A vector under a fid that is not in the message is added. -/
theorem updateVector_honest_added :
    ReportsHonestly stringMessage.payload
      (ScalarType.u8.omnmmsgPayload_updateVector CallMemory.zeroing stringMessage.payload none 2
        (some [7, 8]))
      none 2 .vectorU8 (vectorBytes 1 [7, 8]) :=
  (updateVector_honest_iff stringMessage.payload_represents (by decide)
    Allocator.zeroing_succeeds .zeroing .u8 none 2 (List.cons_ne_nil _ _)).1
    (.inr ⟨by decide, show strlenEx none + 1 < 2 ^ 31 by decide⟩) OmnmFieldImpl.zeroed

/-- An update of a string field with a vector is reported as OK and leaves the string. -/
theorem updateVector_reports_string :
    stringMessage.payload.Represents stringMessage ∧
      stringMessage.payload.mPayloadBufferTail < 2 ^ 31 ∧
      ¬ ReportsHonestly stringMessage.payload
        (ScalarType.u8.omnmmsgPayload_updateVector CallMemory.zeroing stringMessage.payload none 1
          (some [7, 8]))
        none 1 .vectorU8 (vectorBytes 1 [7, 8]) := by
  refine ⟨stringMessage.payload_represents, by decide, ?_⟩
  rintro ⟨status, next, result, report, -⟩
  have returned : (ScalarType.u8.omnmmsgPayload_updateVector CallMemory.zeroing
      stringMessage.payload none 1 (some [7, 8])).result = some (.ok, stringMessage.payload) := by
    decide +kernel
  cases returned.symm.trans result
  obtain ⟨field, found, type, -⟩ := report.mp rfl
  have shown : (stringMessage.payload.findFieldInBuffer none 1).result =
      some (some stringHandle) := by
    decide +kernel
  cases shown.symm.trans found
  exact absurd type (by decide)

end Example

end Omnm
