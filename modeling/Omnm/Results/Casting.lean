import Omnm.Payload.Reads
import Omnm.Results.Application
import Omnm.Wire.HandleUpdates
import Omnm.Wire.Lookup
import Omnm.Wire.Mutations
import Omnm.Wire.Values
import Omnm.Wire.Walking

/-!
# Updates across integer types

An update finds a field of one integer type and gives it the value of another.
The check of the types lets every pair through, the data gets the width of the
new value, and the type byte stays what it was. Between types of one width the
value is read back under the new type and the other fields stay. Otherwise the
iterator measures the data by the old type, so a narrower value cannot be read
back and a wider one shifts every field behind it
(`castable_update_reads_back_iff`).
-/

set_option autoImplicit false

namespace Omnm

open FieldTypeTags (tag)

/-- The eight integer types. -/
def ScalarType.isInteger : ScalarType → Bool
  | i8 | u8 | i16 | u16 | i32 | u32 | i64 | u64 => true
  | bool | char | f32 | f64 => false

section

variable [FieldTypeTags]

/-- A complete iteration shows the fields before, one more field, and the fields after. -/
def OmnmPayloadImpl.ShowsAround (msg : OmnmPayloadImpl) (before after : List FieldEntry) : Prop :=
  ∃ fields last found, (iterateFields msg).result = some (fields, last) ∧
    fields.map msg.shown =
      before.map FieldEntry.shown ++ found :: after.map FieldEntry.shown

/-- If the update is reported as OK, the getter of its type gives the value and the fields around
are shown. -/
def ReadsBack [MamaLibrary] (scalar : ScalarType) (name : Option CString) (fid : UInt16)
    (value : Nat) (before after : List FieldEntry) (call : Mutated) : Prop :=
  ∀ next, call.result = some (.ok, next) →
    (scalar.omnmmsgPayload_get next name fid).result = some (.ok, some value) ∧
      next.ShowsAround before after

/-! ## Integer types -/

namespace ScalarType

variable {source target : ScalarType}

omit [FieldTypeTags] in
theorem isFloat_of_isInteger {scalar : ScalarType} (integer : scalar.isInteger = true) :
    scalar.isFloat = false := by
  cases scalar <;> first | rfl | cases integer

omit [FieldTypeTags] in
/-- A value of a type of the same width keeps its bits. -/
theorem castScalar_eq [MamaLibrary] (stored : source.isInteger = true)
    (asked : target.isInteger = true) (same : source.size = target.size) {bits : Nat}
    (fits : bits < 256 ^ source.size) : castScalar source target bits = bits := by
  have exactInteger : (source.isFloat || target.isFloat) = false := by
    rw [isFloat_of_isInteger stored, isFloat_of_isInteger asked, Bool.or_false]
  have below : ((bits : Int) % ((256 ^ source.size : Nat) : Int)) = bits :=
    Int.emod_eq_of_lt (Int.natCast_nonneg bits) (by exact_mod_cast fits)
  have value : source.integerValue bits % ((256 ^ source.size : Nat) : Int) = bits := by
    rw [integerValue]
    split
    · rw [Int.bmod_emod, below]
    · exact below
  rw [castScalar]
  split
  · rfl
  · rw [exactInteger, if_neg Bool.false_ne_true, ← same]
    rw [Nat.cast_pow] at value
    rw [show (256 : Int) ^ source.size = ((256 : Nat) : Int) ^ source.size from rfl, value]
    rfl

/-- Integer types are castable. -/
theorem castable_of_isInteger (stored : source.isInteger = true)
    (asked : target.isInteger = true) :
    areFieldTypesCastable (tag source.fieldType) (tag target.fieldType) = true := by
  have wide : ∀ scalar : ScalarType, scalar.isInteger = true →
      isFieldTypeFixedWidth (tag scalar.fieldType) = true := by
    intro scalar integer
    cases scalar <;> simp_all [isInteger, isFieldTypeFixedWidth, fieldType]
  rw [areFieldTypesCastable, wide source stored, wide target asked]
  rfl

end ScalarType

/-! ## The field that is found -/

variable {msg next : OmnmPayloadImpl} {message : Message} {before after : List FieldEntry}
  {entry : FieldEntry} {name : Option CString} {fid : UInt16} {source target : ScalarType}
  {memory : CallMemory} {value : Nat}

/-- A field of one integer type takes data of another. -/
theorem not_refused_of_isInteger (type : entry.type = tag source.fieldType)
    (stored : source.isInteger = true) (asked : target.isInteger = true) :
    ¬ (entry.type ≠ tag target.fieldType ∧
      areFieldTypesCastable entry.type (tag target.fieldType) = false) := by
  rw [type, ScalarType.castable_of_isInteger stored asked]
  exact fun refused => Bool.noConfusion refused.2

/-- A decoded field of a fixed width has data of that width. -/
theorem length_data_of_decodes {width : Nat} (decodes : msg.Decodes (before ++ entry :: after))
    (layout : dataLayout entry.type = .fixed width) : entry.data.length = width := by
  have old := decodes.fits entry (List.mem_append_right _ (List.mem_cons_self ..))
  simpa only [DataFits, layout] using old

/-- The update of a scalar goes to the first field with the key. -/
theorem updateScalar_result (decodes : msg.Decodes (before ++ entry :: after))
    (matching : entry.hasKey name fid = true)
    (absent : ∀ other ∈ before, other.hasKey name fid = false)
    (type : entry.type = tag source.fieldType) (stored : source.isInteger = true)
    (asked : target.isInteger = true) (memory : CallMemory) (value : Nat) :
    ∃ previous, (target.omnmmsgPayload_update memory msg name fid value).result =
      (msg.updateFieldHandle memory.payload (tag target.fieldType)
        (entry.handle (msg.positionOf before) previous)
        (some (littleEndian target.size value))).result.map fun outcome =>
          (outcome.1, outcome.2.1) := by
  have noNull := not_none_of_validateNameFid (validateNameFid_of_hasKey matching)
  obtain ⟨previous, handle⟩ := findHandle_split matching absent after msg.getHeaderSize .null
  have search := decodes.findFieldInBuffer name fid
  rw [handle] at search
  have castable := not_refused_of_isInteger type stored asked
  refine ⟨previous, ?_⟩
  rw [target.mutators_eq.2.1, updateScalarField, updateField_of_search noNull search,
    updateFound_castable castable, Traced.result_bind, Option.map_eq_bind]
  rfl

/-! ## Types of one width -/

/-- A payload that decodes to fields shows them. -/
theorem showsAround_of_decodes (decodes : msg.Decodes (before ++ entry :: after)) :
    msg.ShowsAround before after := by
  obtain ⟨last, iterated⟩ := decodes.iterateFields
  obtain ⟨rest, here⟩ := decodes.here
  refine ⟨_, last, entry.shown, iterated, ?_⟩
  rw [map_shown_fieldHandles decodes.fits here, List.map_append, List.map_cons]

/-- The getter of an integer type that is as wide as that of the field gives its bits. -/
theorem get_of_decodes [MamaLibrary] (decodes : msg.Decodes (before ++ entry :: after))
    (matching : entry.hasKey name fid = true)
    (absent : ∀ other ∈ before, other.hasKey name fid = false)
    (type : entry.type = tag source.fieldType) (stored : source.isInteger = true)
    (asked : target.isInteger = true) (same : source.size = target.size)
    (width : entry.data.length = source.size) :
    (target.omnmmsgPayload_get msg name fid).result =
      some (.ok, some (littleEndianValue entry.data)) := by
  obtain ⟨previous, handle⟩ := findHandle_split matching absent after msg.getHeaderSize .null
  have search := decodes.findFieldInBuffer name fid
  rw [handle] at search
  have listed : dataLayout entry.type ≠ .unlisted :=
    type ▸ dataLayout_tag _ source.fieldType_ne_unknown
  obtain ⟨rest, here⟩ := decodes.here
  rw [encodeAll_append, List.append_assoc, encodeAll_cons, List.append_assoc] at here
  have handled := FieldEntry.handledBy_of_drop listed (drop_behind here) previous
  have below : littleEndianValue entry.data < 256 ^ source.size := by
    rw [← width]
    exact littleEndianValue_lt entry.data
  rw [target.get_eq, getFieldValueAsCopyByKey, validateNameFid_of_hasKey matching]
  simp only [Traced.result_bind, search, Option.bind_some]
  rw [handled.getFieldValueAsCopy type width (Nat.le_of_eq same),
    if_neg (not_keyless_of_hasKey matching), ScalarType.castScalar_eq stored asked same below]

/-- Between types of one width an update is read back. -/
theorem readsBack_of_same [MamaLibrary] (decodes : msg.Decodes (before ++ entry :: after))
    (matching : entry.hasKey name fid = true)
    (absent : ∀ other ∈ before, other.hasKey name fid = false)
    (type : entry.type = tag source.fieldType) (stored : source.isInteger = true)
    (asked : target.isInteger = true) (fits : value < 256 ^ target.size)
    (same : source.size = target.size) :
    ReadsBack target name fid value before after
      (target.omnmmsgPayload_update memory msg name fid value) := by
  intro next returned
  obtain ⟨previous, result⟩ :=
    updateScalar_result decodes matching absent type stored asked memory value
  rw [result] at returned
  obtain ⟨⟨status, changed, field⟩, updated, same'⟩ := Option.map_eq_some_iff.mp returned
  cases same'
  have layout : dataLayout entry.type = .fixed source.size := by
    rw [type, source.dataLayout_fieldType]
  have width := length_data_of_decodes decodes layout
  have written : (littleEndian target.size value).length = source.size := by
    rw [length_littleEndian, same]
  have decodes' := (decodes.update_same (by rw [layout]; simp)
    (by simpa only [DataFits, layout] using written) (written.trans width.symm) updated).1
  refine ⟨?_, showsAround_of_decodes decodes'⟩
  have bits : littleEndianValue (littleEndian target.size value) = value :=
    littleEndianValue_littleEndian_of_lt fits
  rw [get_of_decodes decodes' matching absent type stored asked same written, bits]

/-! ## Types of different widths -/

/-- The update replaces the data of the old width by that of the new one, and nothing else. -/
theorem updateScalar_spliced (decodes : msg.Decodes (before ++ entry :: after))
    (matching : entry.hasKey name fid = true)
    (absent : ∀ other ∈ before, other.hasKey name fid = false)
    (type : entry.type = tag source.fieldType) (stored : source.isInteger = true)
    (asked : target.isInteger = true) (small : msg.mPayloadBufferTail < 2 ^ 31)
    (succeeds : memory.payload.Succeeds) (value : Nat) :
    ∃ next slack, (target.omnmmsgPayload_update memory msg name fid value).result =
        some (.ok, next) ∧
      next.mPayloadBuffer = msg.frontOf before entry ++ littleEndian target.size value ++
        encodeAll after ++ slack ∧
      next.mPayloadBufferTail =
        (msg.frontOf before entry).length + target.size + (encodeAll after).length ∧
      next.getHeaderSize = msg.getHeaderSize ∧
      (msg.frontOf before entry).length + source.size ≤ next.mPayloadBuffer.length := by
  have layout : dataLayout entry.type = .fixed source.size := by
    rw [type, source.dataLayout_fieldType]
  have listed : dataLayout entry.type ≠ .unlisted := by rw [layout]; simp
  have width := length_data_of_decodes decodes layout
  have noLength : entry.lengthPart = [] := by
    rw [FieldEntry.lengthPart, layout, if_neg (by simp)]
  have unsized : isFieldTypeSized entry.type = false := by
    rw [← Bool.not_eq_true, isFieldTypeSized_iff_of_listed listed, layout]
    simp
  have castable := not_refused_of_isInteger type stored asked
  obtain ⟨previous, result⟩ :=
    updateScalar_result decodes matching absent type stored asked memory value
  obtain ⟨slack, located⟩ := decodes.located listed previous
  have short : (littleEndian target.size value).length < 2 ^ 63 := by
    have narrow := target.size_le
    rw [length_littleEndian]
    omega
  obtain ⟨slack', moved, updated, grows, -⟩ := OmnmPayloadImpl.updateFieldHandle_eq located
    (littleEndian target.size value) castable (.inr small) succeeds short
  have buffer := congrArg List.length located.buffer
  rw [FieldEntry.handle_mFieldType, writtenLength, unsized, if_neg Bool.false_ne_true,
    List.append_nil, noLength, List.length_nil, Nat.add_zero, length_littleEndian] at updated
  simp only [noLength, List.append_nil] at grows
  rw [updated, Option.map_some] at result
  refine ⟨_, slack', result, rfl, rfl, rfl, ?_⟩
  simp only [List.length_append, width, noLength, List.length_nil] at buffer
  rw [OmnmPayloadImpl.mPayloadBufferSize] at grows
  dsimp only
  omega

/-- The fields up to one whose data were replaced by fitting ones still fit. -/
theorem allFit_spliced {data : List UInt8} (decodes : msg.Decodes (before ++ entry :: after))
    (fits : DataFits entry.type data) : AllFit (before ++ [{ entry with data := data }]) := by
  intro other member
  rcases List.mem_append.mp member with front | last
  · exact decodes.fits other (List.mem_append_left _ front)
  · rw [List.mem_singleton.mp last]
    exact fits

/-- The bytes behind the header when the type byte of the field is read again. -/
theorem drop_of_spliced {data rest : List UInt8} (decodes : msg.Decodes (before ++ entry :: after))
    (layout : dataLayout entry.type = .fixed source.size)
    (buffer : next.mPayloadBuffer = msg.frontOf before entry ++ (data ++ rest))
    (header : next.getHeaderSize = msg.getHeaderSize) :
    next.mPayloadBuffer.drop next.getHeaderSize =
      encodeAll (before ++ [{ entry with data := data }]) ++ rest := by
  have noLength : FieldEntry.lengthPart { entry with data := data } = [] := by
    rw [FieldEntry.lengthPart]
    exact if_neg (by rw [layout]; simp)
  have length := decodes.length_header
  rw [header, buffer, OmnmPayloadImpl.frontOf, encodeAll_append, encodeAll_cons, encodeAll_nil,
    FieldEntry.encode, FieldEntry.head, noLength]
  generalize msg.mPayloadBuffer.take msg.getHeaderSize = front at length ⊢
  rw [← length]
  simp only [List.append_assoc, List.append_nil, List.drop_left]

/-- The getter of a narrower type does not give the data. -/
theorem get_of_narrow [MamaLibrary] {field : OmnmFieldImpl} (narrow : target.size < field.mSize)
    (out : Nat) : (getFieldValueAsCopy target msg field).result ≠ some (.ok, some out) := by
  intro result
  rw [getFieldValueAsCopy] at result
  obtain ⟨invalid, -, result⟩ := Traced.result_bind_eq_some.mp result
  cases invalid with
  | some status => cases result
  | none =>
      dsimp only at result
      rw [if_pos narrow] at result
      cases result

/-- A narrower value is not read back. -/
theorem not_readsBack_of_narrow [MamaLibrary] (decodes : msg.Decodes (before ++ entry :: after))
    (matching : entry.hasKey name fid = true)
    (absent : ∀ other ∈ before, other.hasKey name fid = false)
    (type : entry.type = tag source.fieldType) (stored : source.isInteger = true)
    (asked : target.isInteger = true) (small : msg.mPayloadBufferTail < 2 ^ 31)
    (succeeds : memory.payload.Succeeds) (narrow : target.size < source.size) :
    ¬ ReadsBack target name fid value before after
      (target.omnmmsgPayload_update memory msg name fid value) := by
  intro reads
  have layout : dataLayout entry.type = .fixed source.size := by
    rw [type, source.dataLayout_fieldType]
  obtain ⟨next, slack, updated, buffer, -, header, room⟩ :=
    updateScalar_spliced decodes matching absent type stored asked small succeeds value
  obtain ⟨returned, -⟩ := reads next updated
  -- the type byte says that the data has the old width, whatever stands there
  obtain ⟨rest, stands⟩ : ∃ rest, next.mPayloadBuffer = msg.frontOf before entry ++ rest :=
    ⟨_, by rw [buffer, List.append_assoc, List.append_assoc]⟩
  have length : source.size ≤ rest.length := by
    rw [stands, List.length_append] at room
    omega
  rw [← List.take_append_drop source.size rest] at stands
  have fits : DataFits entry.type (rest.take source.size) := by
    simp only [DataFits, layout, List.length_take]
    exact Nat.min_eq_left length
  have complete : (next.cutAt (max next.mPayloadBufferTail (next.getHeaderSize +
      (encodeAll (before ++ [{ entry with data := rest.take source.size }])).length))).CompleteUpTo
      name fid before { entry with data := rest.take source.size } := by
    exact ⟨allFit_spliced decodes fits, ⟨_, drop_of_spliced decodes layout stands header⟩,
      Nat.le_max_right _ _, matching, absent⟩
  rw [target.get_eq, getFieldValueAsCopyByKey, validateNameFid_of_hasKey matching] at returned
  obtain ⟨found, search, returned⟩ := Traced.result_bind_eq_some.mp returned
  cases found with
  | none => cases returned
  | some field =>
      obtain ⟨previous, rfl⟩ := complete.eq_of_search (Nat.le_max_left _ _) search
      refine get_of_narrow ?_ value returned
      show target.size < (rest.take source.size).length
      rwa [List.length_take, Nat.min_eq_left length]

/-- A wider value puts the other fields out of place. -/
theorem not_readsBack_of_wide [MamaLibrary] (decodes : msg.Decodes (before ++ entry :: after))
    (matching : entry.hasKey name fid = true)
    (absent : ∀ other ∈ before, other.hasKey name fid = false)
    (type : entry.type = tag source.fieldType) (stored : source.isInteger = true)
    (asked : target.isInteger = true) (small : msg.mPayloadBufferTail < 2 ^ 31)
    (succeeds : memory.payload.Succeeds) (wide : source.size < target.size) :
    ¬ ReadsBack target name fid value before after
      (target.omnmmsgPayload_update memory msg name fid value) := by
  intro reads
  have layout : dataLayout entry.type = .fixed source.size := by
    rw [type, source.dataLayout_fieldType]
  obtain ⟨next, slack, updated, buffer, tail, header, -⟩ :=
    updateScalar_spliced decodes matching absent type stored asked small succeeds value
  obtain ⟨-, fields, last, found, iterated, shows⟩ := reads next updated
  -- what the iterator takes for the data, and what it takes for the next field
  obtain ⟨data, extra, split, width⟩ : ∃ data extra,
      littleEndian target.size value = data ++ extra ∧ data.length = source.size := by
    refine ⟨_, _, (List.take_append_drop source.size _).symm, ?_⟩
    rw [List.length_take, length_littleEndian, Nat.min_eq_left (Nat.le_of_lt wide)]
  rw [split, List.append_assoc, List.append_assoc, List.append_assoc] at buffer
  have here := drop_of_spliced decodes layout buffer header
  have front : AllFit (before ++ [{ entry with data := data }]) := by
    apply allFit_spliced decodes
    simpa only [DataFits, layout] using width
  have ends : next.getHeaderSize +
      (encodeAll (before ++ [{ entry with data := data }])).length + (target.size - source.size) +
        (encodeAll after).length = next.mPayloadBufferTail := by
    have noLength : entry.lengthPart.length = 0 := by
      rw [FieldEntry.lengthPart, layout, if_neg (by simp), List.length_nil]
    rw [tail, header, decodes.length_frontOf, OmnmPayloadImpl.positionOf, encodeAll_append,
      encodeAll_cons, encodeAll_nil, List.append_nil, List.length_append,
      OmnmPayloadImpl.length_encode_replaced, noLength, width]
    omega
  have some_front : 0 < (encodeAll (before ++ [{ entry with data := data }])).length := by
    have count := length_le_length_encodeAll (before ++ [{ entry with data := data }])
    rw [List.length_append, List.length_singleton] at count
    omega
  obtain ⟨iter, begun, looped⟩ := Traced.result_bind_eq_some.mp iterated
  obtain ⟨position, started⟩ := position_of_init begun (by omega)
  obtain ⟨later, reached, rounds, shown, continued, behind, index⟩ :=
    exists_of_nextUntilNull front (by rw [position]; exact here) (by omega) started looped
  have same : later.map next.shown = after.map FieldEntry.shown := by
    rw [shown, List.map_append, List.append_assoc, List.map_cons, List.map_nil] at shows
    exact (List.cons.inj (List.append_cancel_left shows)).2
  have counted : later.length = after.length := by
    simpa only [List.length_map] using congrArg List.length same
  have walk := (@yields_iff_walk _ next reached after
    (fun other member => decodes.fits other
      (List.mem_append_right _ (List.mem_cons_of_mem _ member))) fun _ => index).mp
    ⟨later, last, counted ▸ nextUntilNull_rounds continued, same⟩
  have last_ends := (walk_iff.mp walk).2.2
  omega

end

/-- On a payload that holds a message whose first field with the key is of one integer type, an
update under another integer type that is reported as OK is read back, with the other fields as
they were, if the two types have one width. Below 2 GiB, and with memory, it is so only then. -/
theorem castable_update_reads_back_iff [FieldTypeTags] [MamaLibrary] {msg : OmnmPayloadImpl}
    {message : Message} (represents : msg.Represents message) {before after : List FieldEntry}
    {entry : FieldEntry} (split : message.entries = before ++ entry :: after)
    {name : Option CString} {fid : UInt16} (matching : entry.hasKey name fid = true)
    (absent : ∀ other ∈ before, other.hasKey name fid = false) {source target : ScalarType}
    (type : entry.type = tag source.fieldType) (stored : source.isInteger = true)
    (asked : target.isInteger = true) (memory : CallMemory) {value : Nat}
    (fits : value < 256 ^ target.size) :
    (source.size = target.size → ReadsBack target name fid value before after
        (target.omnmmsgPayload_update memory msg name fid value)) ∧
      (msg.mPayloadBufferTail < 2 ^ 31 → memory.payload.Succeeds →
        ReadsBack target name fid value before after
          (target.omnmmsgPayload_update memory msg name fid value) →
        source.size = target.size) := by
  have decodes : msg.Decodes (before ++ entry :: after) := split ▸ represents.decodes
  constructor
  · exact readsBack_of_same decodes matching absent type stored asked fits
  · intro small succeeds reads
    rcases Nat.lt_trichotomy source.size target.size with wide | same | narrow
    · exact absurd reads (not_readsBack_of_wide decodes matching absent type stored asked small
        succeeds wide)
    · exact same
    · exact absurd reads (not_readsBack_of_narrow decodes matching absent type stored asked small
        succeeds narrow)

section Example

attribute [local instance] mamaFieldTypes plainLibrary

/-- A field of four bytes, and one behind it. -/
def wideField : FieldEntry :=
  ⟨mamaFieldTypeNumber .i32, 1, CString.empty, [255, 255, 255, 255]⟩

/-- The message with the two fields. -/
def wideMessage : Message :=
  ⟨mamaPayloadIdOmnm, 1, [], [wideField, namelessField], UInt8.le_refl omnmProtocolVersion,
    Message.extra_nil_lt, by
      intro entry member
      rcases List.mem_cons.mp member with rfl | last
      · decide
      · rw [List.mem_singleton.mp last]
        decide⟩

theorem castable_update_same_width :
    ReadsBack .u32 none 1 7 [] [namelessField]
      (ScalarType.u32.omnmmsgPayload_update CallMemory.zeroing wideMessage.payload none 1 7) :=
  (@castable_update_reads_back_iff _ _ _ _ wideMessage.payload_represents [] [namelessField]
    wideField rfl none 1 (by decide) (fun _ member => absurd member List.not_mem_nil) .i32 .u32
    (by decide) rfl rfl CallMemory.zeroing 7 (by decide)).1 rfl

/-- An I32 field that is updated with an I16 is reported as OK, and its I16 cannot be read. -/
theorem castable_update_narrower :
    wideMessage.payload.Represents wideMessage ∧
      wideMessage.entries = [] ++ wideField :: [namelessField] ∧
      wideField.hasKey none 1 = true ∧ wideField.type = tag ScalarType.i32.fieldType ∧
      ∃ next, (ScalarType.i16.omnmmsgPayload_update CallMemory.zeroing wideMessage.payload none 1
          7).result = some (.ok, next) ∧
        (ScalarType.i16.omnmmsgPayload_get next none 1).result =
          some (.wrongFieldType, some 0) ∧
        ¬ ReadsBack .i16 none 1 7 [] [namelessField]
          (ScalarType.i16.omnmmsgPayload_update CallMemory.zeroing wideMessage.payload none 1
            7) := by
  have updated : (ScalarType.i16.omnmmsgPayload_update CallMemory.zeroing wideMessage.payload none
      1 7).result = some (.ok, { wideMessage.payload with
        mPayloadBuffer := [79, 1, 0, 15, 1, 0, 0, 7, 0, 11, 2, 0, 0, 6, 0, 6]
        mPayloadBufferTail := 14 }) := by
    decide +kernel
  have refused : (ScalarType.i16.omnmmsgPayload_get { wideMessage.payload with
      mPayloadBuffer := [79, 1, 0, 15, 1, 0, 0, 7, 0, 11, 2, 0, 0, 6, 0, 6]
      mPayloadBufferTail := 14 } none 1).result = some (.wrongFieldType, some 0) := by
    decide +kernel
  refine ⟨wideMessage.payload_represents, rfl, by decide, by decide, _, updated, refused, ?_⟩
  intro reads
  cases refused.symm.trans (reads _ updated).1

end Example

end Omnm
