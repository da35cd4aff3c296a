import Omnm.Wire.AppliedFields
import Omnm.Wire.Canonical
import Omnm.Wire.ReportedCases

/-!
# What a round of `omnmmsgPayload_apply` did

A round that returned left the destination alone, or updated it with data that
fit the type of its field, and these are the data of the field only if the field
is handed on as it is (`updated_of_applyField`). So a destination that ends with
the field behind the fields it had went by the name of the field, and got its
data (`handedOn_of_represents`).

A sub-message that is not accepted leaves the one of an earlier round in place.
That one starts with a header, which the data of the field do not.
-/

set_option autoImplicit false

namespace Omnm

open FieldTypeTags (tag)
open OmnmPayloadImpl

/-! ## The sub-message that is kept -/

/-- The sub-message, if there is one, starts with a header of an accepted version, and its bytes fit
a field. -/
def HoldsHeader (sub : Option OmnmPayloadImpl) : Prop :=
  ∀ msg, sub = some msg → HeaderAhead msg.serialized ∧ msg.serialized.length < 2 ^ 32

/-- So it is when the sub-message is a new one. -/
theorem HoldsHeader.getD {sub : Option OmnmPayloadImpl} (holds : HoldsHeader sub) :
    HeaderAhead (sub.getD newPayload).serialized ∧
      (sub.getD newPayload).serialized.length < 2 ^ 32 := by
  cases sub with
  | none => decide
  | some msg => exact holds msg rfl

/-- A header ahead is one of the first three bytes. -/
theorem HeaderAhead.of_append {memory rest : List UInt8} (three : 3 ≤ memory.length)
    (ahead : HeaderAhead (memory ++ rest)) : HeaderAhead memory := by
  refine ⟨three, ?_⟩
  have version := ahead.2
  rwa [List.getD_eq_getElem?_getD, List.getElem?_append_left (by omega),
    ← List.getD_eq_getElem?_getD] at version

section

variable {memory : GetterMemory} {sub filled : Option OmnmPayloadImpl} {bytes : List UInt8}
  {length : Nat} {status : MamaStatus}

/-- A sub-payload does not take in bytes without a header of an accepted version. -/
theorem fillSubPayload_of_rejected (nonempty : length ≠ 0) (rejected : ¬ HeaderAhead bytes)
    (result : (fillSubPayload memory sub bytes length).result = some (status, filled)) :
    filled = some (sub.getD newPayload) := by
  rw [fillSubPayload_of_ne_zero memory sub bytes nonempty, omnmmsgPayload_unSerialize] at result
  simp only [if_neg nonempty, Traced.result_bind, loadHeader_result] at result
  split at result
  · rename_i three
    have newer : omnmProtocolVersion < (OmnmHeader.ofBytes bytes).mWireFormatVersion :=
      UInt8.not_le.mp fun version => rejected ⟨three, version⟩
    simp only [Option.bind_some, Incoming.bytes, if_pos newer, Traced.result_pure] at result
    cases result
    rfl
  · cases result

/-- A sub-payload that holds a header holds one behind more bytes. -/
theorem HoldsHeader.fillSubPayload (holds : HoldsHeader sub) (succeeds : memory.payload.Succeeds)
    (readable : length ≤ bytes.length) (three : 3 ≤ length) (long : length < 2 ^ 32)
    (result : (fillSubPayload memory sub bytes length).result = some (status, filled)) :
    HoldsHeader filled := by
  have nonempty : length ≠ 0 := by omega
  rintro msg rfl
  by_cases header : HeaderAhead bytes
  · obtain ⟨taken, accepted, serialized⟩ := fillSubPayload_eq succeeds sub nonempty header readable
    cases result.symm.trans accepted
    have first : (bytes.take length).length = length := List.length_take_of_le readable
    rw [serialized, first]
    rw [← List.take_append_drop length bytes] at header
    exact ⟨header.of_append (by rw [first]; exact three), long⟩
  · cases fillSubPayload_of_rejected nonempty header result
    exact holds.getD

end

variable [FieldTypeTags]

/-- A field of a type that the iterator lists, with a key and with data. A message among the data is
long enough for a header. -/
structure FieldEntry.Substantial (entry : FieldEntry) : Prop where
  listed : dataLayout entry.type ≠ .unlisted
  keyed : ¬ entry.Keyless
  nonempty : entry.data ≠ []
  header : entry.type = tag .msg → 3 ≤ entry.data.length
  short : entry.data.length < 2 ^ 32

/-! ## What the destination is updated with -/

/-- The destination is left alone, or it is updated with data that fit the type of the field, and
are those of the field only if the field is handed on as it is. -/
def UpdatesWith (memory : ApplyMemory) (dest : OmnmPayloadImpl) (entry : FieldEntry)
    (name : Option CString) (faithful : Prop) (next : OmnmPayloadImpl) : Prop :=
  next = withScratch next.mBuffer dest ∨
    ∃ data status after, DataFits entry.type data ∧ data.length < 2 ^ 32 ∧
      (data = entry.data → faithful) ∧
      (dest.updateField memory.update.payload entry.type name entry.fid (some data)).result =
        some (status, after) ∧ next = withScratch next.mBuffer after

section

variable {memory : ApplyMemory} {src dest next : OmnmPayloadImpl} {field : OmnmFieldImpl}
  {entry : FieldEntry} {name : Option CString} {results kept : FieldResults} {behind : List UInt8}
  {faithful : Prop} {status : MamaStatus}

theorem UpdatesWith.of_updateField {data : List UInt8} (fits : DataFits entry.type data)
    (short : data.length < 2 ^ 32) (same : data = entry.data → faithful)
    (updated : (dest.updateField memory.update.payload entry.type name entry.fid
      (some data)).result = some (status, next)) :
    UpdatesWith memory dest entry name faithful next :=
  .inr ⟨data, status, next, fits, short, same, updated, rfl⟩

/-- Strings go through the scratch buffer, unless the call is refused. -/
theorem UpdatesWith.of_updateVectorString {value : Option (List CString)}
    (type : entry.type = tag .vectorString)
    (short : ∀ strings, value = some strings → (joinStrings strings).length < 2 ^ 32)
    (same : ∀ strings, value = some strings → joinStrings strings = entry.data → faithful)
    (updated : (omnmmsgPayload_updateVectorString memory.update dest name entry.fid value).result =
      some (status, next)) : UpdatesWith memory dest entry name faithful next := by
  have performed := @FieldRequest.perform_eq _ memory.update dest name entry.fid
    (.updateVectorString value)
  rw [FieldRequest.perform, FieldRequest.prepare] at performed
  rw [performed] at updated
  unfold checked at updated
  cases key : validateNameFid name entry.fid with
  | some answer =>
      simp only [key] at updated
      cases updated
      exact .inl rfl
  | none =>
      cases value with
      | none =>
          simp only [key] at updated
          cases updated
          exact .inl rfl
      | some strings =>
          simp only [key, afterPreparing] at updated
          obtain ⟨⟨mutation, scratch⟩, prepared, updated⟩ := Traced.result_bind_eq_some.mp updated
          obtain ⟨rfl, -⟩ := of_prepareElements prepared
          have joined : (strings.map CString.terminated).flatten = joinStrings strings := by
            rw [joinStrings, List.flatMap_def]
          rw [Mutation.perform] at updated
          by_cases empty : scratch = []
          · rw [if_pos empty, updateField_null (.inl rfl)] at updated
            cases updated
            exact .inl rfl
          · rw [if_neg empty, joined, ← type] at updated
            obtain ⟨after, returned, rfl⟩ := updateField_of_withScratch updated
            have sized : dataLayout entry.type = .sized := by simp [dataLayout, type]
            exact .inr ⟨_, status, after, by simpa only [DataFits, sized] using short strings rfl,
              short strings rfl, same strings rfl, returned, rfl⟩

/-! ## The cases of the switch -/

section Cases

variable (handled : entry.HandledBy src field) (fits : DataFits entry.type entry.data)
  (short : entry.data.length < 2 ^ 32) (keyed : ¬ entry.Keyless)

include handled fits short

omit fits in
theorem updatesWith_of_applyVector {scalar : ScalarType}
    (type : entry.type = tag scalar.vectorFieldType) (key : validateNameFid name entry.fid = none)
    (whole : scalar.size ∣ entry.data.length → faithful)
    (applied : (updateVectorField memory src field dest name scalar.size (getScalarVector scalar)
      scalar.omnmmsgPayload_updateVector).result = some (status, next)) :
    UpdatesWith memory dest entry name faithful next := by
  have whole_le := Nat.div_mul_le_self entry.data.length scalar.size
  have elements := @vectorBytes_slices
    (entry.data.take (entry.data.length / scalar.size * scalar.size))
    (entry.data.length / scalar.size) scalar.size
    (Nat.le_of_eq (List.length_take_of_le whole_le).symm)
  rw [List.take_take, Nat.min_self] at elements
  simp only [updateVectorField, getScalarVector, handled.size, handled.loadFront whole_le,
    Traced.result_bind, Option.bind_some, Option.map_some, scalar.mutators_eq.2.2.2,
    updateScalarVector_eq, handled.fid, ofScalars, ofPointer,
    if_neg (not_none_of_validateNameFid key), elements] at applied
  obtain ⟨answer, updated⟩ := (Mutation.updateVector_sameEffect key scalar.vectorFieldType
    (entry.data.take (entry.data.length / scalar.size * scalar.size))).symm.exists_result applied
  rw [Mutation.perform, ← type] at updated
  have front := (List.length_take_le' (entry.data.length / scalar.size * scalar.size)
    entry.data).trans_lt short
  refine .of_updateField ?_ front ?_ updated
  · have sized : dataLayout entry.type = .sized := by
      rw [type]
      cases scalar <;> simp [dataLayout, ScalarType.vectorFieldType]
    simpa only [DataFits, sized] using front
  · intro same
    apply whole
    have length := congrArg List.length same
    rw [List.length_take_of_le whole_le] at length
    exact Dvd.intro_left _ length

include keyed

theorem updatesWith_of_applyString (type : entry.type = tag .string) (trusted : faithful)
    (applied : (applyString memory src field dest name).result = some (status, next)) :
    UpdatesWith memory dest entry name faithful next := by
  obtain ⟨string, data, loaded⟩ := handled.loadString type fits
  have read := handled.getString type
  rw [if_neg keyed] at read
  simp only [applyString, read, loaded, Traced.result_bind, Option.bind_some, Option.getD_some,
    omnmmsgPayload_updateString, handled.fid, ← type, ← data] at applied
  exact .of_updateField fits short (fun _ => trusted) applied

theorem updatesWith_of_applyOpaque (type : entry.type = tag .opaqueField) (trusted : faithful)
    (applied : (applyOpaque memory src field dest name).result = some (status, next)) :
    UpdatesWith memory dest entry name faithful next := by
  have read := handled.getOpaque type
  rw [if_neg keyed] at read
  simp only [applyOpaque, read, handled.loadBytesArgument, Traced.result_bind, Option.bind_some,
    Option.getD_some, omnmmsgPayload_updateOpaque, handled.fid, ← type] at applied
  exact .of_updateField fits short (fun _ => trusted) applied

variable [MamaLibrary]

theorem updatesWith_of_applyScalar {scalar : ScalarType} (type : entry.type = tag scalar.fieldType)
    (trusted : faithful) (applied : (applyScalarField memory src field dest name
      (getScalarField scalar) scalar.omnmmsgPayload_update).result = some (status, next)) :
    UpdatesWith memory dest entry name faithful next := by
  have width := length_of_dataFits scalar.dataLayout_fieldType type fits
  have read := handled.getScalarField type width
  rw [if_neg keyed] at read
  have written := littleEndian_littleEndianValue entry.data
  rw [width] at written
  simp only [applyScalarField, scalar.mutators_eq.2.1, read, Traced.result_bind, Option.bind_some,
    updateScalarField, handled.fid, Option.getD_some, written, ← type] at applied
  exact .of_updateField fits short (fun _ => trusted) applied

omit keyed in
theorem updatesWith_of_applyDateTime (type : entry.type = tag .time)
    (lossless : convertMamaDateTimeToOmnmDateTime
      (convertOmnmDateTimeToMamaDateTime entry.data) = entry.data) (trusted : faithful)
    (applied : (applyDateTime memory src field dest name).result = some (status, next)) :
    UpdatesWith memory dest entry name faithful next := by
  have width := length_of_dataFits dataLayout_time type fits
  simp only [applyDateTime, handled.getDateTime type width, Traced.result_bind, Option.bind_some,
    Option.getD_some, omnmmsgPayload_updateDateTime, lossless, handled.fid, ← type] at applied
  exact .of_updateField fits short (fun _ => trusted) applied

omit keyed in
theorem updatesWith_of_applyPrice (type : entry.type = tag .price)
    (lossless : convertMamaPriceToOmnmPrice (convertOmnmPriceToMamaPrice entry.data) = entry.data)
    (trusted : faithful)
    (applied : (applyPrice memory src field dest name).result = some (status, next)) :
    UpdatesWith memory dest entry name faithful next := by
  have width := length_of_dataFits dataLayout_price type fits
  simp only [applyPrice, handled.getPrice type width, Traced.result_bind, Option.bind_some,
    Option.getD_some, omnmmsgPayload_updatePrice, lossless, handled.fid, ← type] at applied
  exact .of_updateField fits short (fun _ => trusted) applied

end Cases

section Kept

variable (handled : entry.HandledBy src field) (short : entry.data.length < 2 ^ 32)

include handled short

/-- A message that is not accepted is not what is handed on. -/
theorem updatesWith_of_applyMsg (type : entry.type = tag .msg) (three : 3 ≤ entry.data.length)
    (succeeds : memory.getter.payload.Succeeds) (holds : HoldsHeader results.mSubPayload)
    (here : ∀ offset, field.mData = .offset offset →
      src.mPayloadBuffer.drop offset = entry.data ++ behind)
    (whole : HeaderAhead (entry.data ++ behind) → faithful)
    (applied : (applyMsg memory src field dest name results).result = some (next, kept)) :
    UpdatesWith memory dest entry name faithful next ∧ HoldsHeader kept.mSubPayload := by
  have sized : dataLayout entry.type = .sized := by simp [dataLayout, type]
  have nonempty : entry.data.length ≠ 0 := by omega
  obtain ⟨offset, rest, pointer, -⟩ := handled.data
  have stands := here offset pointer
  have readable : entry.data.length ≤ (entry.data ++ behind).length := by
    rw [List.length_append]
    exact Nat.le_add_right ..
  obtain ⟨⟨status, sub, kept'⟩, read, applied⟩ := Traced.result_bind_eq_some.mp applied
  obtain ⟨⟨answer, after⟩, updated, returned⟩ := Traced.result_bind_eq_some.mp applied
  cases returned
  rw [handled.getMsg_eq memory.getter type pointer results, stands] at read
  obtain ⟨⟨status', filled⟩, fill, same⟩ := Option.map_eq_some_iff.mp read
  cases same
  have header := holds.fillSubPayload succeeds readable three short fill
  refine ⟨?_, header⟩
  cases sub with
  | none => exact absurd ((none_iff_of_fillSubPayload fill).mp rfl).2 nonempty
  | some taken =>
      obtain ⟨ahead, fits⟩ := header taken rfl
      rw [updateSubMsg, Option.map_some, handled.fid, ← type] at updated
      refine .of_updateField (by simpa only [DataFits, sized] using fits) fits ?_ updated
      intro same
      exact whole ((same ▸ ahead).append behind)

/-- Strings are handed on up to their last NUL. -/
theorem updatesWith_of_applyVectorString (type : entry.type = tag .vectorString)
    (holds : HoldsHeader results.mSubPayload)
    (whole : uptoLastNul entry.data = entry.data → faithful)
    (applied : (applyVectorString memory src field dest name results).result =
      some (next, kept)) :
    UpdatesWith memory dest entry name faithful next ∧ HoldsHeader kept.mSubPayload := by
  obtain ⟨⟨status, ⟨array, count⟩, kept'⟩, read, applied⟩ := Traced.result_bind_eq_some.mp applied
  obtain ⟨value, loaded, applied⟩ := Traced.result_bind_eq_some.mp applied
  obtain ⟨⟨answer, after⟩, updated, returned⟩ := Traced.result_bind_eq_some.mp applied
  cases returned
  obtain ⟨-, -, sub, -⟩ := handled.of_getVectorString read
  refine ⟨?_, sub ▸ holds⟩
  have handed : ∀ strings, value = some strings → joinStrings strings = uptoLastNul entry.data := by
    rintro strings rfl
    rcases loadStringArray_cases handled read with ⟨none, -⟩ | ⟨others, some_strings, upto, -⟩
    · cases loaded.symm.trans none
    · cases loaded.symm.trans some_strings
      exact upto.symm
  rw [handled.fid] at updated
  refine .of_updateVectorString type (fun strings given => ?_) (fun strings given same => ?_)
    updated
  · rw [handed strings given]
    exact (List.rdropWhile_prefix _ _).length_le.trans_lt short
  · exact whole ((handed strings given).symm.trans same)

end Kept

/-- A computation that keeps what the field keeps. -/
theorem updatesWith_of_keeping {computation : Mutated}
    (updates : ∀ {status after}, computation.result = some (status, after) →
      UpdatesWith memory dest entry name faithful after)
    (holds : HoldsHeader results.mSubPayload)
    (applied : (computation >>= fun outcome => pure (outcome.2, results)).result =
      some (next, kept)) :
    UpdatesWith memory dest entry name faithful next ∧ HoldsHeader kept.mSubPayload := by
  obtain ⟨⟨status, after⟩, updated, returned⟩ := Traced.result_bind_eq_some.mp applied
  cases returned
  exact ⟨updates updated, holds⟩

/-- A round that returned updated the destination with what its field hands on, or left it alone. -/
theorem updatesWith_of_applyField [MamaLibrary] (handled : entry.HandledBy src field)
    (fits : DataFits entry.type entry.data) (substantial : entry.Substantial)
    (key : validateNameFid name entry.fid = none) (lossless : entry.Lossless)
    (succeeds : memory.getter.payload.Succeeds) (holds : HoldsHeader results.mSubPayload)
    (here : ∀ offset, field.mData = .offset offset →
      src.mPayloadBuffer.drop offset = entry.data ++ behind) (strings : Prop)
    (applied : (applyField memory src field dest name results).result = some (next, kept)) :
    UpdatesWith memory dest entry name (entry.Faithful strings behind) next ∧
      HoldsHeader kept.mSubPayload := by
  obtain ⟨-, keyed, nonempty, header, short⟩ := substantial
  have passed : (pure (dest, results) : Traced Region (OmnmPayloadImpl × FieldResults)).result =
      some (next, kept) → UpdatesWith memory dest entry name (entry.Faithful strings behind) next ∧
        HoldsHeader kept.mSubPayload := by
    intro returned
    cases returned
    exact ⟨.inl rfl, holds⟩
  rw [applyField, handled.type] at applied
  unfold FieldEntry.Faithful at passed ⊢
  cases named : fieldTypeOf entry.type with
  | none =>
      simp only [named] at applied passed ⊢
      exact passed applied
  | some type =>
      have same : entry.type = tag type := (tag_of_fieldTypeOf named).symm
      simp only [named] at applied passed ⊢
      have scalar : ∀ scalar : ScalarType, type = scalar.fieldType →
          ∀ {status after}, (applyScalarField memory src field dest name (getScalarField scalar)
            scalar.omnmmsgPayload_update).result = some (status, after) →
          UpdatesWith memory dest entry name True after := by
        rintro scalar rfl _ _ updated
        exact updatesWith_of_applyScalar handled fits short keyed same trivial updated
      have vector : ∀ (scalar : ScalarType) {faithful : Prop}, type = scalar.vectorFieldType →
          (scalar.size ∣ entry.data.length → faithful) →
          ∀ {status after}, (updateVectorField memory src field dest name scalar.size
            (getScalarVector scalar) scalar.omnmmsgPayload_updateVector).result =
              some (status, after) →
          UpdatesWith memory dest entry name faithful after := by
        rintro scalar _ rfl whole _ _ updated
        exact updatesWith_of_applyVector handled short same key whole updated
      cases type with
      | bool => exact updatesWith_of_keeping (scalar .bool rfl) holds applied
      | char => exact updatesWith_of_keeping (scalar .char rfl) holds applied
      | i8 => exact updatesWith_of_keeping (scalar .i8 rfl) holds applied
      | u8 => exact updatesWith_of_keeping (scalar .u8 rfl) holds applied
      | i16 => exact updatesWith_of_keeping (scalar .i16 rfl) holds applied
      | u16 => exact updatesWith_of_keeping (scalar .u16 rfl) holds applied
      | i32 => exact updatesWith_of_keeping (scalar .i32 rfl) holds applied
      | u32 => exact updatesWith_of_keeping (scalar .u32 rfl) holds applied
      | i64 => exact updatesWith_of_keeping (scalar .i64 rfl) holds applied
      | u64 => exact updatesWith_of_keeping (scalar .u64 rfl) holds applied
      | f32 => exact updatesWith_of_keeping (scalar .f32 rfl) holds applied
      | f64 => exact updatesWith_of_keeping (scalar .f64 rfl) holds applied
      | string =>
          exact updatesWith_of_keeping
            (updatesWith_of_applyString handled fits short keyed same trivial) holds applied
      | opaqueField =>
          exact updatesWith_of_keeping
            (updatesWith_of_applyOpaque handled fits short keyed same trivial) holds applied
      | time =>
          exact updatesWith_of_keeping
            (updatesWith_of_applyDateTime handled fits short same (lossless.1 same) trivial) holds
            applied
      | price =>
          exact updatesWith_of_keeping
            (updatesWith_of_applyPrice handled fits short same (lossless.2 same) trivial) holds
            applied
      | msg =>
          exact updatesWith_of_applyMsg handled short same (header same) succeeds holds here
            (fun ahead => ⟨nonempty, ahead⟩) applied
      | vectorString =>
          refine updatesWith_of_applyVectorString handled short same holds (fun upto => .inl ?_)
            applied
          have ends := List.rdropWhile_eq_self_iff.mp upto nonempty
          rw [List.getLast?_eq_some_getLast nonempty]
          simpa using ends
      | vectorBool => exact updatesWith_of_keeping (vector .bool rfl fun _ => trivial) holds applied
      | vectorChar => exact updatesWith_of_keeping (vector .char rfl fun _ => trivial) holds applied
      | vectorI8 => exact updatesWith_of_keeping (vector .i8 rfl fun _ => trivial) holds applied
      | vectorU8 => exact updatesWith_of_keeping (vector .u8 rfl fun _ => trivial) holds applied
      | vectorI16 => exact updatesWith_of_keeping (vector .i16 rfl id) holds applied
      | vectorU16 => exact updatesWith_of_keeping (vector .u16 rfl id) holds applied
      | vectorI32 => exact updatesWith_of_keeping (vector .i32 rfl id) holds applied
      | vectorU32 => exact updatesWith_of_keeping (vector .u32 rfl id) holds applied
      | vectorI64 => exact updatesWith_of_keeping (vector .i64 rfl id) holds applied
      | vectorU64 => exact updatesWith_of_keeping (vector .u64 rfl id) holds applied
      | vectorF32 => exact updatesWith_of_keeping (vector .f32 rfl id) holds applied
      | vectorF64 => exact updatesWith_of_keeping (vector .f64 rfl id) holds applied
      | quantity | collection | vectorMsg | vectorTime | vectorPrice | unknown =>
          exact passed applied

end

/-! ## One round -/

omit [FieldTypeTags] in
/-- A name that is carried is that of a field. -/
theorem exists_of_carriedName {fields : List FieldEntry} {name : CString}
    (carried : carriedName fields = some name) : ∃ entry ∈ fields, entry.name = name := by
  induction fields using List.reverseRecOn with
  | nil => cases carried
  | append_singleton before entry ih =>
      rw [carriedName_concat] at carried
      by_cases unnamed : entry.name = CString.empty
      · rw [FieldEntry.nameArgument_of_unnamed unnamed, Option.none_or] at carried
        obtain ⟨other, member, same⟩ := ih carried
        exact ⟨other, List.mem_append_left _ member, same⟩
      · rw [FieldEntry.nameArgument_of_named unnamed, Option.some_or, Option.some.injEq] at carried
        exact ⟨entry, by simp, carried⟩

omit [FieldTypeTags] in
/-- A field with a key goes by a key. -/
theorem validate_of_carriedName {before : List FieldEntry} {entry : FieldEntry}
    (keyed : ¬ entry.Keyless) :
    validateNameFid (carriedName (before ++ [entry])) entry.fid = none := by
  refine Mutation.validateNameFid_of_accepted ?_ fun empty => carriedName_ne_empty _ empty.1
  rintro ⟨none, zero⟩
  rw [carriedName_concat, Option.or_eq_none_iff] at none
  exact keyed ⟨none.1, zero⟩

/-- So did a round that loaded the name it goes by. -/
theorem updatesWith_of_applyRound [MamaLibrary] {memory : ApplyMemory} {src : OmnmPayloadImpl}
    {entry : FieldEntry} {position : Nat} {behind : List UInt8}
    (here : src.mPayloadBuffer.drop position = entry.encode ++ behind) (previous : BufferPtr)
    {before : List FieldEntry} {state next : ApplyState}
    (name : (loadStringArgument src state.name).result = some (carriedName before))
    (succeeds : memory.Succeeds) (fits : DataFits entry.type entry.data)
    (substantial : entry.Substantial) (lossless : entry.Lossless)
    (holds : HoldsHeader state.results.mSubPayload) (strings : Prop)
    (returned : (applyRound memory src (entry.handle position previous) state).result = some next) :
    UpdatesWith memory state.dest entry (carriedName (before ++ [entry]))
        (entry.Faithful strings behind) next.dest ∧
      HoldsHeader next.results.mSubPayload := by
  have listed := substantial.listed
  have shown := FieldEntry.handledBy_at here
  have named : (omnmmsgFieldPayload_getName src (entry.handle position previous)).result = some _ :=
    shown.getName
  simp only [applyRound, Traced.result_bind, named, Option.bind_some,
    shown.loadCarriedName name] at returned
  obtain ⟨⟨dest, results⟩, applied, same⟩ := Option.bind_eq_some_iff.mp returned
  cases same
  exact updatesWith_of_applyField (FieldEntry.handledBy_of_drop listed here previous) fits
    substantial (validate_of_carriedName substantial.keyed) lossless succeeds.getter holds
    (fun offset => FieldEntry.drop_of_handle listed here) strings applied

/-! ## What the destination shows -/

section

variable {memory : ApplyMemory} {dest next : OmnmPayloadImpl} {message : Message}
  {entry : FieldEntry} {name : Option CString} {faithful : Prop}

omit [FieldTypeTags] in
/-- A name that is not empty is the name of the field that has it. -/
theorem nameArgument_getD {type : UInt8} {fid : UInt16} {data : List UInt8}
    (named : name ≠ some CString.empty) :
    FieldEntry.nameArgument ⟨type, fid, name.getD CString.empty, data⟩ = name := by
  cases name with
  | none => exact FieldEntry.nameArgument_of_unnamed rfl
  | some name => exact FieldEntry.nameArgument_of_named fun empty => named (congrArg some empty)

/-- A message that takes over a field has it behind its fields, or has no more fields. -/
theorem Message.adds_or_keeps (message : Message) (entry : FieldEntry) :
    (message.applyEntry entry).entries = message.entries ++ [entry] ∨
      (message.applyEntry entry).entries.length = message.entries.length := by
  rcases message.applyEntry_cases entry with same | ⟨listed, fits, added⟩ | replaced
  · exact .inr (by rw [same])
  · rw [added, message.addField_eq _ _ listed fits]
    cases rejection entry.nameArgument entry.fid entry.data with
    | some status => exact .inr rfl
    | none =>
        left
        show message.entries ++ [_] = _
        rw [entry.getD_nameArgument]
  · exact .inr (by rw [replaced, Message.replace, length_updateFirst])

/-- A field that is added is substantial. -/
theorem FieldEntry.substantial_of_added {message : Message} {entry : FieldEntry}
    (added : (message.applyEntry entry).entries = message.entries ++ [entry])
    (header : entry.type = tag .msg → 3 ≤ entry.data.length)
    (short : entry.data.length < 2 ^ 32) : entry.Substantial := by
  have differs : message.applyEntry entry ≠ message := by
    intro same
    rw [same] at added
    simp at added
  refine ⟨fun unlisted => differs ?_, fun keyless => differs ?_, fun empty => ?_, header, short⟩
  · rw [Message.applyEntry, dif_neg fun proper => proper.1 unlisted]
  · exact Message.applyEntry_of_keyless keyless
  · rcases message.applyEntry_cases entry with same | ⟨listed, fits, appended⟩ | replaced
    · exact differs same
    · rw [message.addField_eq _ _ listed fits] at appended
      cases rejected : rejection entry.nameArgument entry.fid entry.data with
      | some status =>
          simp only [rejected] at appended
          exact differs appended
      | none => exact (accepted_iff_rejection.mpr rejected).some_data empty
    · rw [replaced] at added
      have length := congrArg List.length added
      simp [Message.replace] at length

/-- An update that meets a field of a castable type with another layout, if it returns, leaves less
than the message with the field behind it. -/
theorem tail_lt_of_recast (represents : dest.Represents message) {allocator : Allocator}
    (succeeds : allocator.Succeeds) (small : message.encode.length < 2 ^ 31)
    (noKey : ¬ (name = none ∧ entry.fid = 0)) {old : FieldEntry}
    (found : message.find name entry.fid = some old)
    (casts : areFieldTypesCastable old.type entry.type = true)
    (fits : DataFits entry.type entry.data) {data : List UInt8} (fits' : DataFits entry.type data)
    (short : data.length < 2 ^ 32) {status : MamaStatus}
    (updated : (dest.updateField allocator entry.type name entry.fid (some data)).result =
      some (status, next)) :
    next.mPayloadBufferTail < message.encode.length + entry.encode.length := by
  obtain ⟨castsOld, castsNew⟩ := (Bool.and_eq_true ..).mp casts
  obtain ⟨width, layout⟩ := dataLayout_of_isFieldTypeFixedWidth castsNew
  obtain ⟨oldWidth, oldLayout⟩ := dataLayout_of_isFieldTypeFixedWidth castsOld
  have same : data.length = entry.data.length := by
    rw [DataFits, layout] at fits fits'
    exact fits'.trans fits.symm
  rcases represents.findFieldInBuffer name entry.fid with ⟨absent, -⟩ |
    ⟨before, other, after, previous, split, found', -, -, search⟩
  · cases absent.symm.trans found
  cases found'.symm.trans found
  have castable : ¬ (old.type ≠ entry.type ∧ areFieldTypesCastable old.type entry.type = false) :=
    fun refused => Bool.noConfusion (casts.symm.trans refused.2)
  obtain ⟨slack, located⟩ := represents.located split (by rw [oldLayout]; simp) previous
  obtain ⟨slack', moved, result, -⟩ := updateFieldHandle_eq located data castable
    (.inr (represents.tail ▸ small)) succeeds (by omega)
  rw [updateField_of_search noKey search, updateFound_castable castable, Traced.result_bind, result,
    Option.bind_some] at updated
  cases updated
  have tail := located.tail
  rw [represents.tail] at tail
  have whole := entry.length_encode
  dsimp only
  omega

/-- An update that meets no field of another layout, and leaves the field behind the fields there
were, went by the name of the field, with its data. -/
theorem eq_of_updated (represents : dest.Represents message) {allocator : Allocator}
    (succeeds : allocator.Succeeds) (listed : dataLayout entry.type ≠ .unlisted)
    (named : name ≠ some CString.empty) (brief : strlenEx name + 1 < 2 ^ 31)
    (small : message.encode.length < 2 ^ 31)
    (layout : message.SameLayout name entry.fid entry.type)
    (added : (message.applyEntry entry).entries = message.entries ++ [entry])
    {data : List UInt8} (fits : DataFits entry.type data) (short : data.length < 2 ^ 32)
    {status : MamaStatus}
    (updated : (dest.updateField allocator entry.type name entry.fid (some data)).result =
      some (status, next))
    (shows : next.Represents (message.applyEntry entry)) :
    entry = ⟨entry.type, entry.fid, name.getD CString.empty, data⟩ := by
  have outcome := @Message.applyEntry_of_proper _ message
    ⟨entry.type, entry.fid, name.getD CString.empty, data⟩ listed fits
  rw [nameArgument_getD named] at outcome
  have longer := message.length_applyEntry_le
    ⟨entry.type, entry.fid, name.getD CString.empty, data⟩
  have whole := FieldEntry.length_encode ⟨entry.type, entry.fid, name.getD CString.empty, data⟩
  have lengthPart : (FieldEntry.lengthPart
      ⟨entry.type, entry.fid, name.getD CString.empty, data⟩).length ≤ 4 := by
    rw [FieldEntry.lengthPart]
    split <;> simp
  rw [strlenEx_eq, CString.length_terminated] at brief
  obtain ⟨left, keeps⟩ := represents.updateField_of_room succeeds listed fits layout
    (by
      rw [Message.HasRoom]
      split
      · intro _
        rwa [strlenEx_eq, CString.length_terminated]
      · exact .inr small)
    (by
      rw [← outcome]
      dsimp only at whole
      omega)
  cases updated.symm.trans keeps.result
  have equal := keeps.represents.unique shows
  rw [← outcome] at equal
  have entries := congrArg Message.entries equal
  rw [added] at entries
  rcases message.adds_or_keeps ⟨entry.type, entry.fid, name.getD CString.empty, data⟩ with
    added' | kept
  · rw [added'] at entries
    exact (List.singleton_injective (List.append_cancel_left entries)).symm
  · rw [entries, List.length_append] at kept
    simp at kept

/-- A destination that ends with the field behind the fields it had went by the name of the field,
and got the data of it. -/
theorem handedOn_of_represents (represents : dest.Represents message)
    (succeeds : memory.update.payload.Succeeds) (listed : dataLayout entry.type ≠ .unlisted)
    (fits : DataFits entry.type entry.data) (noKey : ¬ (name = none ∧ entry.fid = 0))
    (named : name ≠ some CString.empty) (brief : strlenEx name + 1 < 2 ^ 31)
    (small : message.encode.length < 2 ^ 31)
    (added : (message.applyEntry entry).entries = message.entries ++ [entry])
    (updates : UpdatesWith memory dest entry name faithful next)
    (shows : next.Represents (message.applyEntry entry)) :
    entry.name = name.getD CString.empty ∧ faithful := by
  have longer : (message.applyEntry entry).encode.length =
      message.encode.length + entry.encode.length := by
    rw [Message.encode, Message.encode, message.header_applyEntry, added, encodeAll_append]
    simp [Nat.add_assoc]
  have positive := entry.four_le_length_encode
  rcases updates with same | ⟨data, status, after, fits', short, whole, updated, same⟩
  · have here := represents.withScratch next.mBuffer
    rw [← same] at here
    have equal := here.unique shows
    rw [← equal] at longer
    omega
  have shows' : after.Represents (message.applyEntry entry) := by
    have left := shows.withScratch after.mBuffer
    rw [same] at left
    exact left
  by_cases layout : message.SameLayout name entry.fid entry.type
  · have equal := eq_of_updated represents succeeds listed named brief small layout added fits'
      short updated shows'
    exact ⟨congrArg FieldEntry.name equal, whole (congrArg FieldEntry.data equal).symm⟩
  · rw [Message.SameLayout] at layout
    simp only [not_forall] at layout
    obtain ⟨old, found, casts, -⟩ := layout
    have below := tail_lt_of_recast represents succeeds small noKey found casts fits fits' short
      updated
    rw [shows'.tail] at below
    omega

end

end Omnm
