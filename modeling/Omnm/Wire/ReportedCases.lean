import Omnm.Payload.Allocations
import Omnm.Payload.ApplyReports
import Omnm.Wire.Transfers

/-!
# When a round of `omnmmsgPayload_apply` goes well

A round goes well when its getter and its updater report OK and the destination
has no field under the key whose type does not cast. That is so exactly when the
getter has something to hand on and the destination takes it, and then the
destination is updated with what the field hands on (`reportField_well`).

A round that returned is all that is looked at here; nothing is assumed of the
destination, of the data of the field, or of the memory the calls get.
-/

set_option autoImplicit false

namespace Omnm

open FieldTypeTags (tag)
open OmnmPayloadImpl

variable [FieldTypeTags]

/-! ## The update -/

/-- The first field under a key has a type that does not cast. -/
def MeetsUncastable (dest : OmnmPayloadImpl) (type : UInt8) (name : Option CString)
    (fid : UInt16) : Prop :=
  ∃ other, (dest.findFieldInBuffer name fid).result = some (some other) ∧
    other.mFieldType ≠ type ∧ areFieldTypesCastable other.mFieldType type = false

/-- The destination takes a number of bytes under a key: it can add them when it has no field
under the key, and has no field there that does not cast. -/
structure UpdateTaken (dest : OmnmPayloadImpl) (type : UInt8) (name : Option CString)
    (fid : UInt16) (size : Nat) : Prop where
  keyed : ¬ (name = none ∧ fid = 0)
  added : (dest.findFieldInBuffer name fid).result = some none → 0 < size ∧ size ≤ uint32Max
  castable : ¬ MeetsUncastable dest type name fid

instance (dest : OmnmPayloadImpl) (type : UInt8) (name : Option CString) (fid : UInt16) :
    Decidable (MeetsUncastable dest type name fid) :=
  match found : (dest.findFieldInBuffer name fid).result with
  | some (some other) =>
      decidable_of_iff (other.mFieldType ≠ type ∧ areFieldTypesCastable other.mFieldType type = false)
        (by simp [MeetsUncastable, found])
  | some none | none => .isFalse (by simp [MeetsUncastable, found])

instance (dest : OmnmPayloadImpl) (type : UInt8) (name : Option CString) (fid : UInt16)
    (size : Nat) : Decidable (UpdateTaken dest type name fid size) :=
  decidable_of_iff (¬ (name = none ∧ fid = 0) ∧
      ((dest.findFieldInBuffer name fid).result = some none → 0 < size ∧ size ≤ uint32Max) ∧
      ¬ MeetsUncastable dest type name fid)
    ⟨fun well => ⟨well.1, well.2.1, well.2.2⟩,
      fun taken => ⟨taken.keyed, taken.added, taken.castable⟩⟩

section

variable {dest next : OmnmPayloadImpl} {name : Option CString} {fid : UInt16}
  {status : MamaStatus}

omit [FieldTypeTags] in
/-- `addField` rejects no bytes, too many, and no key. -/
theorem rejection_eq_none_iff (named : name ≠ some CString.empty) (bytes : List UInt8) :
    rejection name fid bytes = none ↔
      ¬ (name = none ∧ fid = 0) ∧ 0 < bytes.length ∧ bytes.length ≤ uint32Max := by
  rw [← accepted_iff_rejection]
  constructor
  · intro accepted
    exact ⟨not_none_of_validateNameFid accepted.key, List.length_pos_iff.mpr accepted.some_data,
      accepted.length_le⟩
  · rintro ⟨keyed, some_data, length_le⟩
    exact ⟨length_le, List.length_pos_iff.mp some_data,
      Mutation.validateNameFid_of_accepted keyed fun empty => named empty.1⟩

/-- An addition that returns is OK exactly if it is not rejected. -/
theorem addField_ok_iff {allocator : Allocator} {type : UInt8} {bytes : List UInt8}
    (added : (dest.addField allocator type name fid (some bytes)).result = some (status, next)) :
    status = .ok ↔ rejection name fid bytes = none := by
  cases rejected : rejection name fid bytes with
  | none => exact iff_of_true (appended_of_addField rejected added).1 rfl
  | some answer =>
      rw [addField_of_rejection rejected] at added
      cases added
      exact iff_of_false (fun ok => rejection_ne_ok (ok ▸ rejected)) (by simp)

/-- An update that returns is OK exactly if the destination takes it. -/
theorem updateField_ok_iff {allocator : Allocator} {type : UInt8} {bytes : List UInt8}
    (named : name ≠ some CString.empty)
    (updated : (dest.updateField allocator type name fid (some bytes)).result =
      some (status, next)) :
    status = .ok ↔ UpdateTaken dest type name fid bytes.length := by
  rcases updateField_cases updated with ⟨refused, -, why⟩ | ⟨absent, added⟩ |
    ⟨field, after, keyed, found, castable, ok, -⟩
  · apply iff_of_false refused
    intro taken
    rcases why with none | ⟨field, found, uncastable⟩
    · exact taken.keyed none
    · exact taken.castable ⟨field, found, uncastable⟩
  · have none_met : ¬ MeetsUncastable dest type name fid := by
      rintro ⟨other, found, -⟩
      cases absent.symm.trans found
    rw [addField_ok_iff added, rejection_eq_none_iff named]
    constructor
    · rintro ⟨keyed, size⟩
      exact ⟨keyed, fun _ => size, none_met⟩
    · intro taken
      exact ⟨taken.keyed, taken.added absent⟩
  · refine iff_of_true ok ⟨keyed, ?_, ?_⟩
    · intro absent
      cases found.symm.trans absent
    · rintro ⟨other, same, uncastable⟩
      cases found.symm.trans same
      exact castable uncastable

/-- The update of a vector of scalars is OK whatever it finds under its key. -/
theorem updateScalarVector_ok_iff {memory : CallMemory} {type : MamaFieldType} {size : Nat}
    {values : List Nat} (named : name ≠ some CString.empty)
    (updated : (updateScalarVector type size memory dest name fid (some values)).result =
      some (status, next)) :
    (status = .ok ∧ ¬ MeetsUncastable dest (tag type) name fid) ↔
      UpdateTaken dest (tag type) name fid (size * values.length) := by
  rw [updateScalarVector] at updated
  dsimp only at updated
  split at updated
  · rename_i keyless
    cases updated
    exact iff_of_false (by simp) fun taken => taken.keyed keyless
  · rename_i keyed
    have key := Mutation.validateNameFid_of_accepted keyed fun empty => named empty.1
    obtain ⟨⟨answer, found⟩, lookup, continued⟩ := Traced.result_bind_eq_some.mp updated
    rw [OmnmPayloadImpl.getField, key] at lookup
    obtain ⟨field, search, lookup⟩ := Traced.result_bind_eq_some.mp lookup
    cases field with
    | none =>
        cases lookup
        have none_met : ¬ MeetsUncastable dest (tag type) name fid := by
          rintro ⟨other, found, -⟩
          cases search.symm.trans found
        have added : (dest.addField memory.payload (tag type) name fid
            (some (vectorBytes size values))).result = some (status, next) := by
          simpa only [if_true, addScalarVector, if_neg keyed] using continued
        rw [addField_ok_iff added, rejection_eq_none_iff named, length_vectorBytes]
        constructor
        · rintro ⟨⟨keyed, size⟩, -⟩
          exact ⟨keyed, fun _ => size, none_met⟩
        · intro taken
          exact ⟨⟨taken.keyed, taken.added search⟩, none_met⟩
    | some field =>
        cases lookup
        obtain ⟨changed, -, returned⟩ := Traced.result_bind_eq_some.mp continued
        cases returned
        refine ⟨fun well => ⟨keyed, ?_, well.2⟩, fun taken => ⟨rfl, taken.castable⟩⟩
        intro absent
        cases search.symm.trans absent

/-- The update of a vector of scalars that is taken is that of its bytes. -/
theorem updateField_of_updateScalarVector {memory : CallMemory} {type : MamaFieldType} {size : Nat}
    {values : List Nat} (named : name ≠ some CString.empty)
    (updated : (updateScalarVector type size memory dest name fid (some values)).result =
      some (status, next))
    (taken : UpdateTaken dest (tag type) name fid (size * values.length)) :
    (dest.updateField memory.payload (tag type) name fid (some (vectorBytes size values))).result =
      some (.ok, next) := by
  have key := Mutation.validateNameFid_of_accepted taken.keyed fun empty => named empty.1
  rw [updateScalarVector_eq, ofScalars, ofPointer, if_neg taken.keyed] at updated
  have same := @Mutation.updateVector_sameEffect _ memory dest name fid key type
    (vectorBytes size values)
  obtain ⟨answer, returned⟩ := same.symm.exists_result updated
  rw [Mutation.perform] at returned
  have ok := (updateField_ok_iff named returned).mpr (by rwa [length_vectorBytes])
  rw [returned, ok]

/-- What the destination takes does not depend on its scratch buffer. -/
theorem updateTaken_withScratch {type : UInt8} {size : Nat} (scratch : List UInt8) :
    UpdateTaken (withScratch scratch dest) type name fid size ↔
      UpdateTaken dest type name fid size := by
  constructor <;> rintro ⟨keyed, added, castable⟩ <;>
    exact ⟨keyed, by simpa using added, by simpa [MeetsUncastable] using castable⟩

/-- An update leaves the scratch buffer alone. -/
theorem mBuffer_of_updateField {allocator : Allocator} {type : UInt8} {buffer : Option (List UInt8)}
    (updated : (dest.updateField allocator type name fid buffer).result = some (status, next)) :
    next.mBuffer = dest.mBuffer := by
  have same := @updateField_withScratch _ dest.mBuffer dest allocator type name fid buffer
  rw [withScratch_self] at same
  rw [same, result_carryScratch] at updated
  obtain ⟨⟨answer, after⟩, -, carried⟩ := Option.map_eq_some_iff.mp updated
  cases carried
  rfl

/-- An update on a payload with another scratch buffer. -/
theorem updateField_of_withScratch {allocator : Allocator} {type : UInt8} {scratch : List UInt8}
    {buffer : Option (List UInt8)}
    (updated : ((withScratch scratch dest).updateField allocator type name fid buffer).result =
      some (status, next)) :
    ∃ after, (dest.updateField allocator type name fid buffer).result = some (status, after) ∧
      next = withScratch scratch after := by
  rw [updateField_withScratch, result_carryScratch] at updated
  obtain ⟨⟨answer, after⟩, returned, carried⟩ := Option.map_eq_some_iff.mp updated
  cases carried
  exact ⟨after, returned, rfl⟩

/-- A NULL pointer is no vector of strings. -/
theorem updateVectorString_null {memory : CallMemory}
    (updated : (omnmmsgPayload_updateVectorString memory dest name fid none).result =
      some (status, next)) : status ≠ .ok := by
  have performed := @FieldRequest.perform_eq _ memory dest name fid (.updateVectorString none)
  rw [FieldRequest.perform, FieldRequest.prepare] at performed
  rw [performed] at updated
  unfold checked at updated
  cases key : validateNameFid name fid with
  | some answer =>
      simp only [key] at updated
      cases updated
      exact fun ok => validateNameFid_ne_ok (ok ▸ key)
  | none =>
      simp only [key] at updated
      cases updated
      simp

/-- Strings that are updated go through the scratch buffer, which must not be empty behind them. -/
theorem updateVectorString_well {memory : CallMemory} {strings : List CString}
    (named : name ≠ some CString.empty)
    (updated : (omnmmsgPayload_updateVectorString memory dest name fid (some strings)).result =
      some (status, next)) :
    (status = .ok ↔ (dest.mBuffer ≠ [] ∨ ((joinStrings strings).length ≠ 0 ∧
        ¬ memory.scratch.Fails [] (joinStrings strings).length)) ∧
      UpdateTaken dest (tag .vectorString) name fid (joinStrings strings).length) ∧
    (status = .ok → next.mBuffer ≠ [] ∧ ∃ after,
      (dest.updateField memory.payload (tag .vectorString) name fid
        (some (joinStrings strings))).result = some (.ok, after) ∧
      next = withScratch next.mBuffer after) := by
  have performed := @FieldRequest.perform_eq _ memory dest name fid
    (.updateVectorString (some strings))
  rw [FieldRequest.perform, FieldRequest.prepare] at performed
  rw [performed] at updated
  unfold checked at updated
  cases key : validateNameFid name fid with
  | some answer =>
      simp only [key] at updated
      cases updated
      have refused : status ≠ .ok := fun ok => validateNameFid_ne_ok (ok ▸ key)
      refine ⟨iff_of_false refused ?_, fun ok => absurd ok refused⟩
      rintro ⟨-, taken⟩
      have accepted := Mutation.validateNameFid_of_accepted taken.keyed fun empty => named empty.1
      cases key.symm.trans accepted
  | none =>
      simp only [key, afterPreparing] at updated
      obtain ⟨⟨mutation, scratch⟩, prepared, updated⟩ := Traced.result_bind_eq_some.mp updated
      obtain ⟨rfl, length⟩ := of_prepareElements prepared
      have joined : (strings.map CString.terminated).flatten = joinStrings strings := by
        rw [joinStrings, List.flatMap_def]
      have filled := allocateBufferMemory_ne_nil_iff memory.scratch dest.mBuffer
        (joinStrings strings).length
      rw [length_flatten, joined] at length
      rw [Mutation.perform] at updated
      by_cases empty : scratch = []
      · rw [if_pos empty, updateField_null (.inl rfl)] at updated
        cases updated
        rw [empty, List.length_nil, eq_comm, List.length_eq_zero_iff] at length
        exact ⟨iff_of_false (by simp) fun well => filled.mpr well.1 length, by simp⟩
      · rw [if_neg empty, joined] at updated
        have grown : (allocateBufferMemory memory.scratch dest.mBuffer
            (joinStrings strings).length).buffer ≠ [] := by
          intro none
          rw [none, List.length_nil, List.length_eq_zero_iff] at length
          exact empty length
        obtain ⟨after, returned, rfl⟩ := updateField_of_withScratch updated
        have ok_iff := updateField_ok_iff named returned
        refine ⟨ok_iff.trans (iff_and_self.mpr fun _ => filled.mp grown), ?_⟩
        rintro rfl
        exact ⟨empty, after, returned, rfl⟩

end

/-! ## What a field hands on -/

/-- What the getter of a field hands on of its data: date-times and prices are converted twice, a
vector of scalars gives its whole elements, and one of strings what stands in front of its last
NUL. -/
def FieldEntry.handed (entry : FieldEntry) : List UInt8 :=
  match fieldTypeOf entry.type with
  | some .time =>
      convertMamaDateTimeToOmnmDateTime (convertOmnmDateTimeToMamaDateTime entry.data)
  | some .price => convertMamaPriceToOmnmPrice (convertOmnmPriceToMamaPrice entry.data)
  | some .vectorI16 | some .vectorU16 => entry.data.take (entry.data.length / 2 * 2)
  | some .vectorI32 | some .vectorU32 | some .vectorF32 =>
      entry.data.take (entry.data.length / 4 * 4)
  | some .vectorI64 | some .vectorU64 | some .vectorF64 =>
      entry.data.take (entry.data.length / 8 * 8)
  | some .vectorString => uptoLastNul entry.data
  | _ => entry.data

/-- The size of the buffer of a sub-message, once the field was read into it. -/
def subSizeBehind (memory : GetterMemory) (size : Nat) (entry : FieldEntry) : Nat :=
  if entry.type = tag .msg then
    (allocateBufferMemory memory.payload (List.replicate size 0) entry.data.length).buffer.length
  else size

/-- The getter of a field has something to hand on, in front of the bytes behind its data. A scalar,
a string and opaque bytes have a key. A message has a header that is accepted, and there is room for
it in a sub-message of that size. Strings have a NUL, and a scratch buffer there is or can be had,
unless an array of strings is `kept` from before. Other types the `switch` passes over. -/
def FieldEntry.Gives (memory : ApplyMemory) (kept : Prop) (scratch : List UInt8) (size : Nat)
    (behind : List UInt8) (entry : FieldEntry) : Prop :=
  match fieldTypeOf entry.type with
  | some .bool | some .char | some .i8 | some .u8 | some .i16 | some .u16 | some .i32 | some .u32
  | some .i64 | some .u64 | some .f32 | some .f64 | some .string | some .opaqueField =>
      ¬ entry.Keyless
  | some .time | some .price
  | some .vectorBool | some .vectorChar | some .vectorI8 | some .vectorU8 | some .vectorI16
  | some .vectorU16 | some .vectorI32 | some .vectorU32 | some .vectorI64 | some .vectorU64
  | some .vectorF32 | some .vectorF64 => True
  | some .msg =>
      entry.data ≠ [] ∧ HeaderAhead (entry.data ++ behind) ∧
        ¬ memory.getter.payload.Fails (List.replicate size 0) entry.data.length
  | some .vectorString =>
      kept ∨ ((0 : UInt8) ∈ entry.data ∧
        (scratch ≠ [] ∨ ¬ memory.update.scratch.Fails [] entry.handed.length))
  | some .vectorMsg | some .vectorTime | some .vectorPrice | some .quantity | some .collection
  | some .unknown | none => False

instance (memory : ApplyMemory) (kept : Prop) [Decidable kept] (scratch : List UInt8) (size : Nat)
    (behind : List UInt8) (entry : FieldEntry) :
    Decidable (entry.Gives memory kept scratch size behind) := by
  unfold FieldEntry.Gives
  match fieldTypeOf entry.type with
  | some .bool | some .char | some .i8 | some .u8 | some .i16 | some .u16 | some .i32 | some .u32
  | some .i64 | some .u64 | some .f32 | some .f64 | some .string | some .opaqueField
  | some .time | some .price
  | some .vectorBool | some .vectorChar | some .vectorI8 | some .vectorU8 | some .vectorI16
  | some .vectorU16 | some .vectorI32 | some .vectorU32 | some .vectorI64 | some .vectorU64
  | some .vectorF32 | some .vectorF64 | some .msg | some .vectorString
  | some .vectorMsg | some .vectorTime | some .vectorPrice | some .quantity | some .collection
  | some .unknown | none => infer_instance

/-- A case reports two statuses of OK, and met no field that does not cast. -/
def GoesWell (report : Option ApplyReport) (dest : OmnmPayloadImpl) (entry : FieldEntry)
    (name : Option CString) : Prop :=
  report = some ⟨.ok, .ok⟩ ∧ ¬ MeetsUncastable dest entry.type name entry.fid

/-- The destination is updated with what a field hands on. Strings leave bytes in its scratch
buffer. -/
structure Updated (memory : ApplyMemory) (dest : OmnmPayloadImpl) (entry : FieldEntry)
    (name : Option CString) (next : OmnmPayloadImpl) : Prop where
  field : ∃ after, (dest.updateField memory.update.payload entry.type name entry.fid
    (some entry.handed)).result = some (.ok, after) ∧ next = withScratch next.mBuffer after
  scratch : next.mBuffer = [] ↔ dest.mBuffer = [] ∧ entry.type ≠ tag .vectorString

/-- The size of the buffer of the sub-message that a field keeps, or of a new one. -/
def FieldResults.subSize (results : FieldResults) : Nat :=
  (results.mSubPayload.getD newPayload).mPayloadBufferSize

/-- What the iterator's field keeps once a field was read. -/
structure KeptBehind (memory : GetterMemory) (results : FieldResults) (entry : FieldEntry)
    (kept : FieldResults) : Prop where
  strings : kept.mVectorString = [] ↔ results.mVectorString = [] ∧ entry.type ≠ tag .vectorString
  size : kept.subSize = subSizeBehind memory results.subSize entry

/-- What there is to say of a case that returned: when it goes well, and what it does then. -/
structure Reported (memory : ApplyMemory) (dest : OmnmPayloadImpl) (entry : FieldEntry)
    (name : Option CString) (results : FieldResults) (well : Prop) (report : Option ApplyReport)
    (next : OmnmPayloadImpl) (kept : FieldResults) : Prop where
  well_iff : GoesWell report dest entry name ↔ well
  updated : well → Updated memory dest entry name next
  behind : well → KeptBehind memory.getter results entry kept

/-- The destination takes what a field hands on. -/
abbrev FieldEntry.Taken (entry : FieldEntry) (dest : OmnmPayloadImpl) (name : Option CString) :
    Prop :=
  UpdateTaken dest entry.type name entry.fid entry.handed.length

section

variable {memory : ApplyMemory} {src dest next : OmnmPayloadImpl} {field : OmnmFieldImpl}
  {entry : FieldEntry} {name : Option CString} {results kept : FieldResults}
  {report : Option ApplyReport}

omit [FieldTypeTags] in
theorem result_keepingResults {Value : Type} {read : Traced Region (MamaStatus × Value)}
    {status : MamaStatus} {value : Value} (result : read.result = some (status, value)) :
    (keepingResults results read).result = some (status, value, results) := by
  rw [keepingResults, Traced.result_bind, result]
  rfl

/-- A field that is neither a message nor strings leaves alone what is kept. -/
theorem keptBehind_self (noStrings : entry.type ≠ tag .vectorString)
    (noMsg : entry.type ≠ tag .msg) : KeptBehind memory.getter results entry results where
  strings := (and_iff_left noStrings).symm
  size := (if_neg noMsg).symm

/-- A case goes well exactly if its getter does, and then its updater. -/
theorem reporting_well {Value : Type} {read : Traced Region (MamaStatus × Value × FieldResults)}
    {update : Value → Mutated} {status : MamaStatus} {value : Value} {kept' : FieldResults}
    (reads : read.result = some (status, value, kept')) {given taken : Prop}
    (readWell : status = .ok ↔ given)
    (updateWell : given → ∀ {answer after}, (update value).result = some (answer, after) →
      (answer = .ok ∧ ¬ MeetsUncastable dest entry.type name entry.fid ↔ taken) ∧
        (taken → Updated memory dest entry name after))
    (behind : given → taken → KeptBehind memory.getter results entry kept')
    (reported : (reporting read update).result = some (report, next, kept)) :
    Reported memory dest entry name results (given ∧ taken) report next kept := by
  rw [reporting, Traced.result_bind, reads, Option.bind_some] at reported
  obtain ⟨⟨answer, after⟩, updated, returned⟩ := Traced.result_bind_eq_some.mp reported
  cases returned
  refine ⟨?_, fun well => (updateWell well.1 updated).2 well.2,
    fun well => behind well.1 well.2⟩
  constructor
  · rintro ⟨same, castable⟩
    cases same
    exact ⟨readWell.mp rfl, (updateWell (readWell.mp rfl) updated).1.mp ⟨rfl, castable⟩⟩
  · rintro ⟨handed, taken⟩
    obtain ⟨ok, castable⟩ := (updateWell handed updated).1.mpr taken
    exact ⟨by rw [readWell.mpr handed, ok], castable⟩

/-- An update that goes well met no field that does not cast. -/
theorem well_of_updateField (named : name ≠ some CString.empty)
    (noStrings : entry.type ≠ tag .vectorString) {answer : MamaStatus} {after : OmnmPayloadImpl}
    (updated : (dest.updateField memory.update.payload entry.type name entry.fid
      (some entry.handed)).result = some (answer, after)) :
    (answer = .ok ∧ ¬ MeetsUncastable dest entry.type name entry.fid ↔ entry.Taken dest name) ∧
      (entry.Taken dest name → Updated memory dest entry name after) := by
  have ok_iff := updateField_ok_iff named updated
  refine ⟨⟨fun well => ok_iff.mp well.1, fun taken => ⟨ok_iff.mpr taken, taken.castable⟩⟩, ?_⟩
  intro taken
  have kept := mBuffer_of_updateField updated
  exact ⟨⟨after, by rw [updated, ok_iff.mpr taken], rfl⟩, by rw [kept, and_iff_left noStrings]⟩

/-- A case whose getter refuses a field without a key. -/
theorem reporting_keyed {Value : Type} {value : Value}
    {read : Traced Region (MamaStatus × Option Value)} (named : name ≠ some CString.empty)
    (noStrings : entry.type ≠ tag .vectorString) (noMsg : entry.type ≠ tag .msg)
    (reads : read.result = some (if entry.Keyless then (.nullArg, none) else (.ok, some value)))
    {update : Option Value → Mutated}
    (updates : ∀ {answer after}, (update (some value)).result = some (answer, after) →
      (dest.updateField memory.update.payload entry.type name entry.fid
        (some entry.handed)).result = some (answer, after))
    (reported : (reporting (keepingResults results read) update).result =
      some (report, next, kept)) :
    Reported memory dest entry name results (¬ entry.Keyless ∧ entry.Taken dest name) report next
      kept := by
  by_cases keyless : entry.Keyless
  · rw [if_pos keyless] at reads
    exact reporting_well (result_keepingResults reads)
      (iff_of_false (by simp) (not_not.mpr keyless)) (fun keyed => absurd keyless keyed)
      (fun keyed => absurd keyless keyed) reported
  · rw [if_neg keyless] at reads
    exact reporting_well (result_keepingResults reads) (iff_of_true rfl keyless)
      (fun _ _ _ updated => well_of_updateField named noStrings (updates updated))
      (fun _ _ => keptBehind_self noStrings noMsg) reported

/-! ## The cases of the switch -/

section Cases

variable (handled : entry.HandledBy src field) (fits : DataFits entry.type entry.data)
  (named : name ≠ some CString.empty)

include handled named

theorem reportOpaque_well (type : entry.type = tag .opaqueField)
    (reported : (reportOpaque memory src field dest name results).result =
      some (report, next, kept)) :
    Reported memory dest entry name results (¬ entry.Keyless ∧ entry.Taken dest name) report next
      kept := by
  have handed : entry.handed = entry.data := by simp [FieldEntry.handed, type]
  refine reporting_keyed named (type ▸ tag_ne (by simp)) (type ▸ tag_ne (by simp))
    (handled.getOpaque type) ?_ reported
  intro _ _ updated
  simp only [Option.getD_some, Traced.result_bind, handled.loadBytesArgument, Option.bind_some,
    omnmmsgPayload_updateOpaque] at updated
  rw [handed, type, ← handled.fid, updated]

include fits

theorem reportString_well (type : entry.type = tag .string)
    (reported : (reportString memory src field dest name results).result =
      some (report, next, kept)) :
    Reported memory dest entry name results (¬ entry.Keyless ∧ entry.Taken dest name) report next
      kept := by
  have handed : entry.handed = entry.data := by simp [FieldEntry.handed, type]
  obtain ⟨string, data, loaded⟩ := handled.loadString type fits
  refine reporting_keyed named (type ▸ tag_ne (by simp)) (type ▸ tag_ne (by simp))
    (handled.getString type) ?_ reported
  intro _ _ updated
  simp only [Option.getD_some, Traced.result_bind, loaded, Option.bind_some,
    omnmmsgPayload_updateString] at updated
  rw [handed, type, ← handled.fid, data, updated]

variable [MamaLibrary]

theorem reportScalar_well {scalar : ScalarType} (type : entry.type = tag scalar.fieldType)
    (reported : (reportScalar memory src field dest name results (getScalarField scalar)
      scalar.omnmmsgPayload_update).result = some (report, next, kept)) :
    Reported memory dest entry name results (¬ entry.Keyless ∧ entry.Taken dest name) report next
      kept := by
  have handed : entry.handed = entry.data := by
    cases scalar <;> simp [FieldEntry.handed, type, ScalarType.fieldType]
  have width := length_of_dataFits scalar.dataLayout_fieldType type fits
  have written := littleEndian_littleEndianValue entry.data
  rw [width] at written
  refine reporting_keyed named ?_ ?_ (handled.getScalarField type width) ?_ reported
  · exact type ▸ tag_ne (by cases scalar <;> simp [ScalarType.fieldType])
  · exact type ▸ tag_ne (by cases scalar <;> simp [ScalarType.fieldType])
  · intro _ _ updated
    rw [scalar.mutators_eq.2.1, updateScalarField, Option.getD_some, written] at updated
    rw [handed, type, ← handled.fid, updated]

theorem reportDateTime_well (type : entry.type = tag .time)
    (reported : (reportDateTime memory src field dest name results).result =
      some (report, next, kept)) :
    Reported memory dest entry name results (True ∧ entry.Taken dest name) report next kept := by
  have handed : entry.handed = convertMamaDateTimeToOmnmDateTime
      (convertOmnmDateTimeToMamaDateTime entry.data) := by simp [FieldEntry.handed, type]
  have width := length_of_dataFits dataLayout_time type fits
  refine reporting_well (result_keepingResults (handled.getDateTime type width))
    (iff_of_true rfl trivial)
    (fun _ _ _ updated => well_of_updateField named (type ▸ tag_ne (by simp)) ?_)
    (fun _ _ => keptBehind_self (type ▸ tag_ne (by simp)) (type ▸ tag_ne (by simp))) reported
  rw [omnmmsgPayload_updateDateTime, Option.getD_some] at updated
  rw [handed, type, ← handled.fid, ← updated]

theorem reportPrice_well (type : entry.type = tag .price)
    (reported : (reportPrice memory src field dest name results).result =
      some (report, next, kept)) :
    Reported memory dest entry name results (True ∧ entry.Taken dest name) report next kept := by
  have handed : entry.handed = convertMamaPriceToOmnmPrice
      (convertOmnmPriceToMamaPrice entry.data) := by simp [FieldEntry.handed, type]
  have width := length_of_dataFits dataLayout_price type fits
  refine reporting_well (result_keepingResults (handled.getPrice type width))
    (iff_of_true rfl trivial)
    (fun _ _ _ updated => well_of_updateField named (type ▸ tag_ne (by simp)) ?_)
    (fun _ _ => keptBehind_self (type ▸ tag_ne (by simp)) (type ▸ tag_ne (by simp))) reported
  rw [omnmmsgPayload_updatePrice, Option.getD_some] at updated
  rw [handed, type, ← handled.fid, ← updated]

end Cases

section Kept

variable (handled : entry.HandledBy src field) (named : name ≠ some CString.empty)

include handled named

/-- A message is taken in from where its data stands, with the bytes behind it. -/
theorem reportMsg_well {behind : List UInt8} (type : entry.type = tag .msg)
    (here : ∀ offset, field.mData = .offset offset →
      src.mPayloadBuffer.drop offset = entry.data ++ behind)
    (reported : (reportMsg memory src field dest name results).result =
      some (report, next, kept)) :
    Reported memory dest entry name results
      ((entry.data ≠ [] ∧ HeaderAhead (entry.data ++ behind) ∧
        ¬ memory.getter.payload.Fails (List.replicate results.subSize 0) entry.data.length) ∧
        entry.Taken dest name) report next kept := by
  have handed : entry.handed = entry.data := by simp [FieldEntry.handed, type]
  have noStrings : entry.type ≠ tag .vectorString := type ▸ tag_ne (by simp)
  obtain ⟨offset, rest, pointer, -⟩ := handled.data
  have stands := here offset pointer
  have readable : entry.data.length ≤ (src.mPayloadBuffer.drop offset).length := by
    rw [stands, List.length_append]
    exact Nat.le_add_right ..
  obtain ⟨⟨status, value, kept'⟩, reads, -⟩ := Traced.result_bind_eq_some.mp reported
  have filled := handled.getMsg_eq memory.getter type pointer results
  rw [reads] at filled
  obtain ⟨⟨answer, sub⟩, fill, same⟩ := Option.map_eq_some_iff.mp filled.symm
  cases same
  have given : status = .ok ↔ entry.data ≠ [] ∧ HeaderAhead (entry.data ++ behind) ∧
      ¬ memory.getter.payload.Fails (List.replicate results.subSize 0) entry.data.length := by
    have accepts := @fillSubPayload_ok_iff memory.getter results.mSubPayload _ _ readable
    rw [stands, ne_eq, List.length_eq_zero_iff] at accepts
    rw [Allocator.Fails, Bool.not_eq_false]
    refine Iff.trans ?_ accepts
    rw [← stands]
    constructor
    · rintro rfl
      exact ⟨_, fill⟩
    · rintro ⟨other, ok⟩
      cases fill.symm.trans ok
      rfl
  -- what was taken in is the sub-message that is kept
  have took : status = .ok → ∃ taken, value = some taken ∧ taken.serialized = entry.data ∧
      taken.mPayloadBufferSize = (allocateBufferMemory memory.getter.payload
        (List.replicate results.subSize 0) entry.data.length).buffer.length := by
    intro ok
    obtain ⟨nonempty, header, served⟩ := given.mp ok
    obtain ⟨taken, result, serialized, size⟩ := @fillSubPayload_of_succeeded memory.getter
      results.mSubPayload _ _ (List.length_eq_zero_iff.not.mpr nonempty) (stands ▸ header) readable
      (Bool.not_eq_false _ ▸ served)
    cases fill.symm.trans result
    exact ⟨taken, rfl, by rw [serialized, stands, List.take_left], size⟩
  refine reporting_well reads given ?_ ?_ reported
  · intro gives answer after updated
    obtain ⟨taken, rfl, serialized, -⟩ := took (given.mpr gives)
    rw [updateSubMsg, Option.map_some, serialized] at updated
    refine well_of_updateField named noStrings ?_
    rw [handed, type, ← handled.fid, updated]
  · intro gives _
    obtain ⟨taken, rfl, -, size⟩ := took (given.mpr gives)
    exact ⟨(and_iff_left noStrings).symm, by rw [subSizeBehind, if_pos type, ← size]; rfl⟩

/-- A vector of scalars hands on its whole elements. -/
theorem reportVector_well {scalar : ScalarType} (type : entry.type = tag scalar.vectorFieldType)
    (reported : (reportVector memory src field dest name results scalar.size
      (getScalarVector scalar) scalar.omnmmsgPayload_updateVector).result =
        some (report, next, kept)) :
    Reported memory dest entry name results (True ∧ entry.Taken dest name) report next kept := by
  have short := Nat.div_mul_le_self entry.data.length scalar.size
  have noStrings : entry.type ≠ tag .vectorString :=
    type ▸ tag_ne (by cases scalar <;> simp [ScalarType.vectorFieldType])
  have noMsg : entry.type ≠ tag .msg :=
    type ▸ tag_ne (by cases scalar <;> simp [ScalarType.vectorFieldType])
  have handed : entry.handed =
      entry.data.take (entry.data.length / scalar.size * scalar.size) := by
    cases scalar <;>
      simp [FieldEntry.handed, type, ScalarType.vectorFieldType, ScalarType.size]
  have loaded := handled.loadFront short
  refine reporting_well (result_keepingResults rfl) (iff_of_true rfl trivial) ?_
    (fun _ _ => keptBehind_self noStrings noMsg) reported
  intro _ answer after updated
  dsimp only [getScalarVector] at updated
  rw [handled.size, Traced.result_bind, loaded, Option.bind_some, scalar.mutators_eq.2.2.2,
    Option.map_some] at updated
  have whole := @vectorBytes_slices
    (entry.data.take (entry.data.length / scalar.size * scalar.size))
    (entry.data.length / scalar.size) scalar.size
    (Nat.le_of_eq (List.length_take_of_le short).symm)
  rw [List.take_take, Nat.min_self, ← handed] at whole
  have length : scalar.size * (entry.data.length / scalar.size) = entry.handed.length := by
    rw [handed, List.length_take_of_le short, Nat.mul_comm]
  have taken := updateScalarVector_ok_iff named updated
  rw [List.length_map, List.length_range, length, ← type, handled.fid] at taken
  refine ⟨taken, ?_⟩
  intro takes
  have same := updateField_of_updateScalarVector named updated (by
    rw [List.length_map, List.length_range, length, ← type, handled.fid]
    exact takes)
  rw [← handed, whole, ← type, handled.fid] at same
  have kept := mBuffer_of_updateField same
  exact ⟨⟨after, same, rfl⟩, by rw [kept, and_iff_left noStrings]⟩

omit [FieldTypeTags] named in
/-- The array of a vector of strings is read as strings, unless it is NULL. -/
theorem loadStringArray_cases {memory : GetterMemory} {status : MamaStatus}
    {array : List BufferPtr} {count : Nat}
    (read : (omnmmsgFieldPayload_getVectorString memory src field results).result =
      some (status, (array, count), kept)) :
    ((loadStringArray src array count).result = some none ∧ results.mVectorString = [] ∧
        (0 : UInt8) ∉ entry.data) ∨
      ∃ strings, (loadStringArray src array count).result = some (some strings) ∧
        uptoLastNul entry.data = joinStrings strings ∧ kept.mVectorString ≠ [] ∧
        (results.mVectorString = [] → (0 : UInt8) ∈ entry.data) := by
  obtain ⟨-, same, -, outcome⟩ := handled.of_getVectorString read
  rcases outcome with ⟨none, unchanged, zero⟩ | ⟨-, some_array, contains, strings, upto, loaded⟩
  · subst unchanged zero
    rw [none]
    by_cases null : kept.mVectorString = []
    · refine .inl ⟨?_, null, List.not_mem_nil⟩
      rw [same, null]
      rfl
    · refine .inr ⟨[], ?_, rfl, null, fun empty => absurd empty null⟩
      rw [same, loadStringArray, if_neg null]
      rfl
  · exact .inr ⟨strings, loaded, upto, same ▸ some_array, contains⟩

/-- Strings are handed on up to the last NUL. -/
theorem reportVectorString_well (type : entry.type = tag .vectorString)
    (filled : results.mVectorString ≠ [] → dest.mBuffer ≠ [])
    (reported : (reportVectorString memory src field dest name results).result =
      some (report, next, kept)) :
    Reported memory dest entry name results
      (True ∧ (results.mVectorString ≠ [] ∨ ((0 : UInt8) ∈ entry.data ∧
        (dest.mBuffer ≠ [] ∨ ¬ memory.update.scratch.Fails [] entry.handed.length))) ∧
        entry.Taken dest name) report next kept := by
  have handed : entry.handed = uptoLastNul entry.data := by simp [FieldEntry.handed, type]
  obtain ⟨⟨status, ⟨array, count⟩, kept'⟩, reads, -⟩ := Traced.result_bind_eq_some.mp reported
  obtain ⟨rfl, -, sub, -⟩ := handled.of_getVectorString reads
  refine reporting_well reads (iff_of_true rfl trivial) ?_ ?_ reported
  · intro _ answer after updated
    dsimp only at updated
    rcases loadStringArray_cases handled reads with ⟨loaded, unkept, noNul⟩ |
      ⟨strings, loaded, upto, -, contains⟩
    · -- no array: the value is NULL
      have ill : ¬ (results.mVectorString ≠ [] ∨ ((0 : UInt8) ∈ entry.data ∧
          (dest.mBuffer ≠ [] ∨ ¬ memory.update.scratch.Fails [] entry.handed.length))) := by
        rintro (kept | ⟨contains, -⟩)
        · exact kept unkept
        · exact noNul contains
      rw [Traced.result_bind, loaded, Option.bind_some] at updated
      have refused := updateVectorString_null updated
      exact ⟨iff_of_false (fun well => refused well.1) fun well => ill well.1,
        fun well => absurd well.1 ill⟩
    · rw [Traced.result_bind, loaded, Option.bind_some] at updated
      rw [← handed] at upto
      obtain ⟨ok_iff, changed⟩ := updateVectorString_well named updated
      rw [← upto, handled.fid, ← type] at ok_iff changed
      have some_bytes : (0 : UInt8) ∈ entry.data → entry.handed.length ≠ 0 := by
        intro contains
        rw [handed, ne_eq, List.length_eq_zero_iff]
        exact uptoLastNul_ne_nil contains
      have given : (dest.mBuffer ≠ [] ∨ (entry.handed.length ≠ 0 ∧
          ¬ memory.update.scratch.Fails [] entry.handed.length)) ↔
          (results.mVectorString ≠ [] ∨ ((0 : UInt8) ∈ entry.data ∧
            (dest.mBuffer ≠ [] ∨ ¬ memory.update.scratch.Fails [] entry.handed.length))) := by
        by_cases unkept : results.mVectorString = []
        · have here := contains unkept
          rw [or_iff_right (not_not.mpr unkept), and_iff_right here, and_iff_right (some_bytes here)]
        · exact iff_of_true (.inl (filled unkept)) (.inl unkept)
      rw [given] at ok_iff
      refine ⟨⟨fun well => ok_iff.mp well.1, fun well => ⟨ok_iff.mpr well, well.2.castable⟩⟩, ?_⟩
      intro well
      obtain ⟨some_scratch, field⟩ := changed (ok_iff.mpr well)
      exact ⟨field, iff_of_false some_scratch fun empty => empty.2 type⟩
  · intro _ well
    refine ⟨iff_of_false ?_ fun empty => empty.2 type, ?_⟩
    · rcases loadStringArray_cases handled reads with ⟨-, unkept, noNul⟩ | ⟨-, -, -, some_array, -⟩
      · rcases well.1 with kept | ⟨contains, -⟩
        · exact absurd unkept kept
        · exact absurd contains noNul
      · exact some_array
    · rw [subSizeBehind, if_neg (type ▸ tag_ne (by simp)), FieldResults.subSize, sub]
      rfl

end Kept

/-- A type that the `switch` passes over. -/
theorem reported_unapplied {given taken : Prop} (nothing : ¬ given)
    (passed : (pure (none, dest, results) : ReportedCase).result = some (report, next, kept)) :
    Reported memory dest entry name results (given ∧ taken) report next kept := by
  cases passed
  exact ⟨iff_of_false (by simp [GoesWell]) fun well => nothing well.1,
    fun well => absurd well.1 nothing, fun well => absurd well.1 nothing⟩

/-- A round that returns goes well exactly if the getter has something to hand on and the
destination takes it. -/
theorem reportField_well [MamaLibrary] (handled : entry.HandledBy src field)
    (fits : DataFits entry.type entry.data) (named : name ≠ some CString.empty)
    {behind : List UInt8} (here : ∀ offset, field.mData = .offset offset →
      src.mPayloadBuffer.drop offset = entry.data ++ behind)
    (filled : results.mVectorString ≠ [] → dest.mBuffer ≠ [])
    (reported : (reportField memory src field dest name results).result =
      some (report, next, kept)) :
    Reported memory dest entry name results
      (entry.Gives memory (results.mVectorString ≠ []) dest.mBuffer results.subSize behind ∧
        entry.Taken dest name) report next kept := by
  rw [reportField, handled.type] at reported
  have scalar : ∀ scalar : ScalarType, entry.type = tag scalar.fieldType →
      (reportScalar memory src field dest name results (getScalarField scalar)
        scalar.omnmmsgPayload_update).result = some (report, next, kept) →
      Reported memory dest entry name results (¬ entry.Keyless ∧ entry.Taken dest name) report next
        kept := fun _ type reported => reportScalar_well handled fits named type reported
  have vector : ∀ scalar : ScalarType, entry.type = tag scalar.vectorFieldType →
      (reportVector memory src field dest name results scalar.size (getScalarVector scalar)
        scalar.omnmmsgPayload_updateVector).result = some (report, next, kept) →
      Reported memory dest entry name results (True ∧ entry.Taken dest name) report next kept :=
    fun _ type reported => reportVector_well handled named type reported
  cases known : fieldTypeOf entry.type with
  | none =>
      simp only [known, FieldEntry.Gives] at reported ⊢
      exact reported_unapplied id reported
  | some type =>
      have same : entry.type = tag type := (tag_of_fieldTypeOf known).symm
      cases type <;> simp only [known, FieldEntry.Gives] at reported ⊢
      case bool => exact scalar .bool same reported
      case char => exact scalar .char same reported
      case u8 => exact scalar .u8 same reported
      case i8 => exact scalar .i8 same reported
      case u16 => exact scalar .u16 same reported
      case i16 => exact scalar .i16 same reported
      case u32 => exact scalar .u32 same reported
      case i32 => exact scalar .i32 same reported
      case u64 => exact scalar .u64 same reported
      case i64 => exact scalar .i64 same reported
      case f32 => exact scalar .f32 same reported
      case f64 => exact scalar .f64 same reported
      case string => exact reportString_well handled fits named same reported
      case opaqueField => exact reportOpaque_well handled named same reported
      case time => exact reportDateTime_well handled fits named same reported
      case price => exact reportPrice_well handled fits named same reported
      case msg => exact reportMsg_well handled named same here reported
      case vectorU8 => exact vector .u8 same reported
      case vectorBool => exact vector .bool same reported
      case vectorChar => exact vector .char same reported
      case vectorI8 => exact vector .i8 same reported
      case vectorU16 => exact vector .u16 same reported
      case vectorI16 => exact vector .i16 same reported
      case vectorU32 => exact vector .u32 same reported
      case vectorI32 => exact vector .i32 same reported
      case vectorU64 => exact vector .u64 same reported
      case vectorI64 => exact vector .i64 same reported
      case vectorF32 => exact vector .f32 same reported
      case vectorF64 => exact vector .f64 same reported
      case vectorString =>
          rw [← true_and (_ ∧ _)]
          exact reportVectorString_well handled named same filled reported
      all_goals exact reported_unapplied id reported

/-- A type that the iterator does not list is passed over. -/
theorem reportField_unlisted [MamaLibrary] {behind : List UInt8}
    (type : field.mFieldType = entry.type) (unlisted : dataLayout entry.type = .unlisted)
    (reported : (reportField memory src field dest name results).result =
      some (report, next, kept)) :
    Reported memory dest entry name results
      (entry.Gives memory (results.mVectorString ≠ []) dest.mBuffer results.subSize behind ∧
        entry.Taken dest name) report next kept := by
  rw [reportField, type] at reported
  rcases fieldTypeOf_of_unlisted unlisted with other | other <;>
    simp only [other, FieldEntry.Gives] at reported ⊢ <;>
    exact reported_unapplied id reported

end

end Omnm
