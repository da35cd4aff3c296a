import Omnm.Payload.Outcomes
import Omnm.Wire.Refinement

/-!
# How far offsets and lengths are exact

The mutators compute with four integer types. An add measures the name with an
`int`, and an update that changes the length of a field passes the tail through
an `int` and counts the bytes it moves with a `uint32_t`; the length in front of
sized data is a `uint32_t` that only `addField` guards.

The conversions lose nothing exactly when the name fits an `int`, and when the
tail does and the length of sized data fits 32 bits
(`offsets_exact_iff`). An update that keeps the length converts nothing.
-/

set_option autoImplicit false

namespace Omnm

open OmnmPayloadImpl

/-! ## Exact calls -/

/-- The bytes a field takes on the wire. -/
def encodedSize [FieldTypeTags] (type : UInt8) (name : Option CString) (length : Nat) : Nat :=
  fieldTypeWidth + fidWidth + (strlenEx name + 1) +
    (if isFieldTypeSized type then lengthWidth else 0) + length

/-- The length that stands at an offset. -/
def OmnmPayloadImpl.lengthAt (msg : OmnmPayloadImpl) (offset : Nat) : Nat :=
  littleEndianValue (slice msg.mPayloadBuffer offset lengthWidth)

/-- If the access is a move, it moves so many bytes from the given offset. -/
def Access.MovesFrom (offset count : Nat) : Access Region → Prop
  | .load .. | .store .. => True
  | .move _ _ source length => source = offset ∧ length = count

/-- A call that refuses its arguments and changes nothing. -/
def Refused (msg : OmnmPayloadImpl) (call : Traced Region (MamaStatus × OmnmPayloadImpl)) : Prop :=
  ∃ status, status ≠ .ok ∧ call.result = some (status, msg)

theorem not_refused {msg : OmnmPayloadImpl} {call : Traced Region (MamaStatus × OmnmPayloadImpl)}
    (ran : call.result.map Prod.fst = some .ok) : ¬ Refused msg call := by
  rintro ⟨status, refused, rejected⟩
  rw [rejected] at ran
  exact refused (Option.some.inj ran)

/-- An add whose offsets and lengths are exact. -/
structure AddsExactly [FieldTypeTags] (msg : OmnmPayloadImpl) (type : UInt8) (name : Option CString)
    (length : Nat) (call : Traced Region (MamaStatus × OmnmPayloadImpl)) (next : OmnmPayloadImpl) :
    Prop where
  result : call.result = some (.ok, next)
  tail : next.mPayloadBufferTail = msg.mPayloadBufferTail + encodedSize type name length
  lengthWritten : isFieldTypeSized type = true →
    next.lengthAt (msg.mPayloadBufferTail + 3 + (strlenEx name + 1)) = length

/-- An update of a field with its data at an offset whose arithmetic is exact. -/
structure UpdatesExactly [FieldTypeTags] (msg : OmnmPayloadImpl) (type : UInt8)
    (data oldLength length : Nat) (call : Traced Region (MamaStatus × OmnmPayloadImpl))
    (next : OmnmPayloadImpl) : Prop where
  result : call.result = some (.ok, next)
  tail : next.mPayloadBufferTail + oldLength = msg.mPayloadBufferTail + length
  moves : Traced.Every
    (Access.MovesFrom (data + oldLength) (msg.mPayloadBufferTail - (data + oldLength))) call
  lengthWritten : isFieldTypeSized type = true → next.lengthAt (data - lengthWidth) = length

section Adding

variable [FieldTypeTags] {msg : OmnmPayloadImpl} {allocator : Allocator} {type : UInt8}
  {name : Option CString} {fid : UInt16}

theorem length_writtenField_eq (type : UInt8) (name : Option CString) (fid : UInt16)
    (data : List UInt8) :
    (writtenField type fid (name.getD CString.empty) data).length =
      encodedSize type name data.length := by
  rw [length_writtenField, ← strlenEx_eq]
  rfl

/-- The length that `addField` wrote. -/
theorem lengthAt_writtenField {data before slack : List UInt8} {header : OmnmHeader}
    {scratch : List UInt8} {tail : Nat} (sized : isFieldTypeSized type = true)
    (small : data.length < 2 ^ 32) :
    OmnmPayloadImpl.lengthAt ⟨before ++ writtenField type fid (name.getD CString.empty) data ++ slack,
      tail, header, scratch⟩ (before.length + 3 + (strlenEx name + 1)) = data.length := by
  have place : before.length + 3 + (strlenEx name + 1) = (before ++ ([type] ++
      littleEndian 2 fid.toNat ++ (name.getD CString.empty).terminated)).length := by
    rw [strlenEx_eq]
    simp only [List.length_append, List.length_singleton, length_littleEndian]
    omega
  have split : before ++ writtenField type fid (name.getD CString.empty) data ++ slack =
      before ++ ([type] ++ littleEndian 2 fid.toNat ++ (name.getD CString.empty).terminated) ++
        littleEndian 4 data.length ++ (data ++ slack) := by
    simp only [writtenField, writtenLength, sized, if_true, List.append_assoc]
  have part := slice_append (before ++ ([type] ++ littleEndian 2 fid.toNat ++
    (name.getD CString.empty).terminated)) (littleEndian 4 data.length) (data ++ slack)
  rw [length_littleEndian, ← split, ← place] at part
  rw [lengthAt, lengthWidth, part, littleEndian_four small]

/-- The tail that `addField` computes with a name that does not fit an `int` is not
behind the field. -/
theorem newTailOffset_ne_of_long {length : Nat} (long : 2 ^ 31 ≤ strlenEx name + 1)
    (object : strlenEx name + 1 < 2 ^ 63) :
    newTailOffset msg type name length ≠ msg.mPayloadBufferTail + encodedSize type name length := by
  have lower := le_asInt32 (strlenEx name + 1)
  have upper := asInt32_lt (strlenEx name + 1)
  intro same
  dsimp only [newTailOffset, encodedSize, fieldTypeWidth, fidWidth, lengthWidth] at same
  unfold asSize at same
  split at same <;> omega

/-- An add is refused or exact when its arguments are refused or its name fits an
`int`, and not otherwise. -/
theorem addField_exact_iff (succeeds : allocator.Succeeds)
    (inside : msg.mPayloadBufferTail ≤ msg.mPayloadBufferSize)
    (small : msg.mPayloadBufferTail < 2 ^ 62) {data : List UInt8}
    (object : strlenEx name + 1 < 2 ^ 63) :
    (Refused msg (addField allocator msg type name fid (some data)) ∨
      ∃ next, AddsExactly msg type name data.length
        (addField allocator msg type name fid (some data)) next) ↔
      rejection name fid data ≠ none ∨ strlenEx name + 1 < 2 ^ 31 := by
  cases rejected : rejection name fid data with
  | some status =>
      have refused : status ≠ .ok := fun ok => rejection_ne_ok (ok ▸ rejected)
      have nothing : addField allocator msg type name fid (some data) = pure (status, msg) :=
        addField_of_rejection rejected
      exact ⟨fun _ => .inl (by simp), fun _ => .inl ⟨status, refused, by rw [nothing]; rfl⟩⟩
  | none =>
      have accepted := accepted_iff_rejection.mpr rejected
      have short_data := accepted.length_le
      rw [uint32Max] at short_data
      constructor
      · intro exact
        refine .inr (Nat.not_le.mp ?_)
        intro long
        rcases exact with ⟨status, refused, result⟩ | ⟨next, exact⟩
        · exact refused (appended_of_addField rejected result).1
        · have computed := (appended_of_addField rejected exact.result).2.tail
          exact newTailOffset_ne_of_long long object (computed.symm.trans exact.tail)
      · rintro (none | short)
        · exact absurd rfl none
        · have whole := length_writtenField_eq type name fid data
          have fits : msg.mPayloadBufferTail +
              (writtenField type fid (name.getD CString.empty) data).length < 2 ^ 64 := by
            rw [whole, encodedSize, fieldTypeWidth, fidWidth, lengthWidth]
            split <;> omega
          obtain ⟨slack, result, -, -⟩ := addField_of_accepted accepted succeeds short fits inside
          refine .inr ⟨_, result, by rw [← whole], ?_⟩
          intro sized
          have length : msg.serialized.length = msg.mPayloadBufferTail := List.length_take_of_le inside
          rw [← length]
          exact lengthAt_writtenField sized (by omega)

end Adding

section Updating

variable {msg : OmnmPayloadImpl} {allocator : Allocator} {type : UInt8} {field : OmnmFieldImpl}
  {data : Nat}

/-- The tail that an update leaves, by the conversions it makes. -/
def updatedTail (tail oldLength length : Nat) : Nat :=
  if length = oldLength then tail
  else asSize (asInt32 tail + (asInt64 length - asInt64 oldLength))

/-- The conversions keep the tail exact when none is made or the tail fits an `int`. -/
theorem updatedTail_exact_iff {tail oldLength length : Nat} (inside : oldLength ≤ tail)
    (small : tail < 2 ^ 62) (object : length < 2 ^ 63) :
    updatedTail tail oldLength length + oldLength = tail + length ↔
      length = oldLength ∨ tail < 2 ^ 31 := by
  unfold updatedTail
  by_cases same : length = oldLength
  · simp only [same, if_true, true_or]
  · have difference : asInt64 length - asInt64 oldLength = (length : Int) - oldLength := by
      rw [asInt64_of_lt object, asInt64_of_lt (by omega)]
    rw [if_neg same, difference]
    constructor
    · intro exact
      refine .inr (Nat.not_le.mp ?_)
      intro large
      have wraps : asSize (asInt32 (tail : Int) + ((length : Int) - oldLength)) ≠
          tail + length - oldLength :=
        asSize_asInt32_add_ne (by exact_mod_cast large) (by omega) (by omega)
      omega
    · rintro (equal | fits)
      · exact absurd equal same
      · have sum : (tail : Int) + (length - oldLength) = (tail + length - oldLength : Nat) := by omega
        rw [asInt32_of_lt fits, sum, asSize_of_lt (by omega)]
        omega

theorem resizeField_tail (length : Nat) :
    ∃ next last, (resizeField allocator msg field data length).result = some (next, last) ∧
      last.mFieldType = field.mFieldType ∧
      next.mPayloadBufferTail = updatedTail msg.mPayloadBufferTail field.mSize length := by
  unfold resizeField updatedTail
  by_cases same : length = field.mSize
  · rw [if_neg (not_not.mpr same), if_pos same]
    exact ⟨msg, field, rfl, rfl, rfl⟩
  · rw [if_pos same, if_neg same]
    simp only [moveRest, Traced.result_bind, result_move, Option.bind_some, Traced.result_pure]
    refine ⟨_, _, rfl, rfl, ?_⟩
    dsimp only

variable [FieldTypeTags]

theorem exists_result_rewriteLength {memory : List UInt8}
    (room : isFieldTypeSized type = true → 4 ≤ data) (length : Nat) :
    ∃ rewritten, (rewriteLength memory type data length).result = some rewritten := by
  unfold rewriteLength
  split
  · exact ⟨_, rfl⟩
  · rename_i sized
    rw [if_neg (Nat.not_lt.mpr (room (by simpa using sized)))]
    exact ⟨_, rfl⟩

/-- An update of a field with its data in the buffer returns OK. -/
theorem updateFieldHandle_tail (allocator : Allocator) (msg : OmnmPayloadImpl)
    (pointer : field.mData = .offset data) (same : field.mFieldType = type)
    (room : isFieldTypeSized type = true → 4 ≤ data) (bytes : List UInt8) :
    ∃ next last, (updateFieldHandle allocator msg type field (some bytes)).result =
        some (.ok, next, last) ∧
      next.mPayloadBufferTail = updatedTail msg.mPayloadBufferTail field.mSize bytes.length := by
  obtain ⟨resized, last, result, kept, tail⟩ :=
    @resizeField_tail msg allocator field data bytes.length
  obtain ⟨memory, rewritten⟩ :=
    @exists_result_rewriteLength type data _ resized.mPayloadBuffer room bytes.length
  refine ⟨{ resized with mPayloadBuffer := overwrite memory data bytes }, last, ?_, tail⟩
  rw [updateFieldHandle, if_neg (fun differs => differs.1 same)]
  simp only [pointer, Traced.result_bind, result, Option.bind_some, kept, same, rewritten,
    result_store, Traced.result_pure]

/-- Only the move of an update is a move, and it takes what follows the field. -/
theorem every_updateFieldHandle {bytes : List UInt8} (pointer : field.mData = .offset data)
    (inside : data + field.mSize ≤ msg.mPayloadBufferTail)
    (exact : bytes.length = field.mSize ∨ msg.mPayloadBufferTail < 2 ^ 31) :
    Traced.Every (Access.MovesFrom (data + field.mSize)
        (msg.mPayloadBufferTail - (data + field.mSize)))
      (updateFieldHandle allocator msg type field (some bytes)) := by
  have resizes : Traced.Every (Access.MovesFrom (data + field.mSize)
      (msg.mPayloadBufferTail - (data + field.mSize)))
      (resizeField allocator msg field data bytes.length) := by
    unfold resizeField
    split
    · rename_i differs
      have small := exact.resolve_left differs
      simp only [moveRest, Traced.every_bind, every_move, Traced.every_pure, implies_true, and_true]
      have source : asSize (data + field.mSize) = data + field.mSize := by
        exact_mod_cast asSize_of_lt (show data + field.mSize < 2 ^ 64 by omega)
      have count : asUInt32 (msg.mPayloadBufferTail - (data + field.mSize : Nat)) =
          msg.mPayloadBufferTail - (data + field.mSize) := by
        rw [← Nat.cast_sub inside]
        exact asUInt32_of_lt (by omega)
      rw [source]
      exact ⟨rfl, count⟩
    · exact Traced.every_pure _
  rw [updateFieldHandle]
  split
  · exact Traced.every_pure _
  · simp only [pointer, Traced.every_bind, Traced.every_pure, implies_true, and_true, every_store]
    refine ⟨resizes, fun resized _ => ⟨?_, fun _ _ => trivial⟩⟩
    unfold rewriteLength
    split
    · exact Traced.every_pure _
    · split
      · exact Traced.every_fault
      · exact every_store.mpr trivial

/-- An update by key of a field of its own type is the update of that field. -/
theorem updateField_of_found (allocator : Allocator) {message : Message}
    (represents : msg.Represents message) {before after : List FieldEntry} {entry : FieldEntry}
    (split : message.entries = before ++ entry :: after) {name : Option CString} {fid : UInt16}
    (found : entry.hasKey name fid = true) (first : ∀ other ∈ before, other.hasKey name fid = false)
    (bytes : List UInt8) :
    ∃ previous, (updateField allocator msg entry.type name fid (some bytes)).result =
        (updateFieldHandle allocator msg entry.type (entry.handle
          (message.header.length + (encodeAll before).length) previous) (some bytes)).result.map
          (fun outcome => (outcome.1, outcome.2.1)) ∧
      ∀ holds : Access Region → Prop,
        (∀ access, access.ReadsBelow msg.mPayloadBufferTail → holds access) →
        Traced.Every holds (updateFieldHandle allocator msg entry.type (entry.handle
          (message.header.length + (encodeAll before).length) previous) (some bytes)) →
        Traced.Every holds (updateField allocator msg entry.type name fid (some bytes)) := by
  obtain ⟨previous, handle⟩ := findHandle_split found first after msg.getHeaderSize .null
  have search := represents.decodes.findFieldInBuffer name fid
  have reads := represents.decodes.every_findFieldInBuffer name fid
  rw [split, handle, represents.getHeaderSize_eq] at search
  have key : ¬ (name = none ∧ fid = 0) := by
    rintro ⟨rfl, rfl⟩
    simp [FieldEntry.hasKey] at found
  have castable : ¬ (entry.type ≠ entry.type ∧
      areFieldTypesCastable entry.type entry.type = false) := fun differs => differs.1 rfl
  refine ⟨previous, ?_, ?_⟩
  · rw [updateField_of_search key search, updateFound_castable castable, Traced.result_bind,
      Option.map_eq_bind]
    rfl
  · intro holds onReads every
    rw [updateField_eq key, Traced.every_bind]
    refine ⟨reads.mono onReads, ?_⟩
    intro value same
    cases search.symm.trans same
    rw [updateFound_castable castable, Traced.every_bind]
    exact ⟨every, fun _ _ => Traced.every_pure _⟩

/-- The length that an update wrote is read back modulo the range of its width. -/
theorem lengthAt_updated {front lengthPart old back slack : List UInt8} {next : OmnmPayloadImpl}
    {last : OmnmFieldImpl} (located : msg.Located field front lengthPart old back slack)
    (pointer : field.mData = .offset data) (succeeds : allocator.Succeeds) {bytes : List UInt8}
    (object : bytes.length < 2 ^ 63)
    (exact : bytes.length = old.length ∨ msg.mPayloadBufferTail < 2 ^ 31)
    (sized : isFieldTypeSized field.mFieldType = true)
    (result : (updateFieldHandle allocator msg field.mFieldType field (some bytes)).result =
      some (.ok, next, last)) : next.lengthAt (data - lengthWidth) = bytes.length % 2 ^ 32 := by
  have place : data - lengthWidth = front.length := by
    have behind := located.data
    have width := located.width
    rw [pointer, BufferPtr.offset.injEq] at behind
    rw [if_pos sized] at width
    rw [lengthWidth]
    omega
  obtain ⟨slack', moved, written, -, -⟩ :=
    updateFieldHandle_eq located bytes (fun differs => differs.1 rfl) exact succeeds object
  rw [result, Option.some.injEq, Prod.mk.injEq, Prod.mk.injEq] at written
  obtain ⟨-, rfl, -⟩ := written
  have part := slice_append front (littleEndian 4 bytes.length) (bytes ++ back ++ slack')
  rw [length_littleEndian] at part
  rw [place]
  simp only [lengthAt, lengthWidth, writtenLength, sized, if_true, List.append_assoc] at part ⊢
  rw [part, littleEndianValue_littleEndian]
  rfl

/-- Data behind a length have a length that fits there. -/
theorem length_lt_of_sized {type : UInt8} {data : List UInt8} (fits : DataFits type data)
    (listed : dataLayout type ≠ .unlisted) (sized : isFieldTypeSized type = true) :
    data.length < 2 ^ 32 := by
  rwa [DataFits, (isFieldTypeSized_iff_of_listed listed).mp sized] at fits

/-- An update of a field of its own type is exact when it keeps the length, or when the
tail fits an `int` and the length of sized data fits 32 bits, and not otherwise. -/
theorem updateField_exact_iff {message : Message} (represents : msg.Represents message)
    (succeeds : allocator.Succeeds) (small : msg.mPayloadBufferTail < 2 ^ 62)
    {before after : List FieldEntry} {entry : FieldEntry}
    (split : message.entries = before ++ entry :: after)
    (listed : dataLayout entry.type ≠ .unlisted) {name : Option CString} {fid : UInt16}
    (found : entry.hasKey name fid = true) (first : ∀ other ∈ before, other.hasKey name fid = false)
    {bytes : List UInt8} (object : bytes.length < 2 ^ 63) :
    (Refused msg (updateField allocator msg entry.type name fid (some bytes)) ∨
      ∃ next, UpdatesExactly msg entry.type
        (message.header.length + (encodeAll before).length + entry.head.length) entry.data.length
        bytes.length (updateField allocator msg entry.type name fid (some bytes)) next) ↔
      (bytes.length = entry.data.length ∨ (msg.mPayloadBufferTail < 2 ^ 31 ∧
        (isFieldTypeSized entry.type = true → bytes.length < 2 ^ 32))) := by
  obtain ⟨previous, result, every⟩ := updateField_of_found allocator represents split found first bytes
  obtain ⟨slack, located⟩ := represents.located split listed previous
  have pointer : (entry.handle (message.header.length + (encodeAll before).length) previous).mData =
      .offset (message.header.length + (encodeAll before).length + entry.head.length) := by
    rw [FieldEntry.handle, FieldEntry.dataPointer, if_neg listed]
  have headed : 4 ≤ entry.head.length := by
    rw [entry.length_head]
    omega
  obtain ⟨next, last, updated, tail⟩ := updateFieldHandle_tail allocator msg pointer rfl
    (fun _ => by omega) bytes
  rw [FieldEntry.handle_mFieldType] at updated
  rw [FieldEntry.handle_mSize] at tail
  rw [updated, Option.map_some] at result
  have inside := represents.data_below_tail split
  have tail_iff := updatedTail_exact_iff (show entry.data.length ≤ msg.mPayloadBufferTail by omega)
    small object
  have written : (bytes.length = entry.data.length ∨ msg.mPayloadBufferTail < 2 ^ 31) →
      isFieldTypeSized entry.type = true → next.lengthAt (message.header.length +
        (encodeAll before).length + entry.head.length - lengthWidth) = bytes.length % 2 ^ 32 := by
    intro exact sized
    exact lengthAt_updated located pointer succeeds object exact sized updated
  constructor
  · rintro (⟨status, refused, rejected⟩ | ⟨other, exact⟩)
    · rw [result] at rejected
      cases rejected
      exact absurd rfl refused
    · have same := exact.result
      rw [result] at same
      cases same
      have kept := tail_iff.mp (by rw [← tail]; exact exact.tail)
      rcases kept with equal | low
      · exact .inl equal
      · refine .inr ⟨low, ?_⟩
        intro sized
        have read := exact.lengthWritten sized
        rw [written (.inr low) sized] at read
        omega
  · intro condition
    have kept : bytes.length = entry.data.length ∨ msg.mPayloadBufferTail < 2 ^ 31 :=
      condition.imp_right And.left
    refine .inr ⟨next, result, ?_, ?_, ?_⟩
    · rw [tail]
      exact tail_iff.mpr kept
    · refine every _ ?_ (every_updateFieldHandle pointer inside kept)
      intro access reads
      cases access with
      | load region offset length => trivial
      | store region offset length => trivial
      | move region target source length => exact reads.elim
    · intro sized
      have fits := message.fits entry (by rw [split]; simp)
      have low := length_lt_of_sized fits listed sized
      rw [written kept sized]
      apply Nat.mod_eq_of_lt
      rcases condition with equal | ⟨-, bounded⟩
      · omega
      · exact bounded sized

end Updating

/-- Adds and updates of fields of their own type are refused or exact under these
conditions and no others: the arguments of the add are refused, or the name fits an
`int`; the data of the update is NULL or keeps its length, or the tail fits an `int`
and sized data has a length of 32 bits. -/
theorem offsets_exact_iff [FieldTypeTags] {allocator : Allocator} {msg : OmnmPayloadImpl}
    {message : Message} (represents : msg.Represents message) (succeeds : allocator.Succeeds)
    (small : msg.mPayloadBufferTail < 2 ^ 62) :
    (∀ (type : UInt8) (name : Option CString) (fid : UInt16) (buffer : Option (List UInt8)),
      strlenEx name + 1 < 2 ^ 63 →
      (Refused msg (addField allocator msg type name fid buffer) ∨
        (∃ next, AddsExactly msg type name (buffer.getD []).length
          (addField allocator msg type name fid buffer) next) ↔
        rejection name fid (buffer.getD []) ≠ none ∨ strlenEx name + 1 < 2 ^ 31)) ∧
    (∀ (before after : List FieldEntry) (entry : FieldEntry) (name : Option CString) (fid : UInt16)
      (buffer : Option (List UInt8)), message.entries = before ++ entry :: after →
      dataLayout entry.type ≠ .unlisted → entry.hasKey name fid = true →
      (∀ other ∈ before, other.hasKey name fid = false) → (buffer.getD []).length < 2 ^ 63 →
      (Refused msg (updateField allocator msg entry.type name fid buffer) ∨
        (∃ next, UpdatesExactly msg entry.type
          (message.header.length + (encodeAll before).length + entry.head.length) entry.data.length
          (buffer.getD []).length (updateField allocator msg entry.type name fid buffer) next) ↔
        buffer = none ∨ (buffer.getD []).length = entry.data.length ∨
          (msg.mPayloadBufferTail < 2 ^ 31 ∧
            (isFieldTypeSized entry.type = true → (buffer.getD []).length < 2 ^ 32)))) := by
  constructor
  · intro type name fid buffer object
    have given : addField allocator msg type name fid buffer =
        addField allocator msg type name fid (some (buffer.getD [])) := by
      rw [addField, addField, Option.getD_some]
    rw [given]
    exact addField_exact_iff succeeds represents.tail_le small object
  · intro before after entry name fid buffer split listed found first object
    cases buffer with
    | none =>
        have refused : updateField allocator msg entry.type name fid none = pure (.nullArg, msg) := by
          rw [updateField_null (.inl rfl)]
        exact ⟨fun _ => .inl rfl, fun _ => .inl ⟨.nullArg, by simp, by rw [refused]; rfl⟩⟩
    | some bytes =>
        have exact_iff := updateField_exact_iff represents succeeds small split listed found first
          object
        simp only [Option.getD_some, reduceCtorEq, false_or]
        exact exact_iff

section Example

attribute [local instance] mamaFieldTypes

/-- Three opaque bytes under a name, and a string behind them. -/
def namedOpaque : Message :=
  (Message.empty.append
    ⟨mamaFieldTypeNumber .opaqueField, 0, .ofBytes [65], [1, 2, 3]⟩ (by decide)).append
    ⟨mamaFieldTypeNumber .string, 2, CString.empty, [104, 0]⟩ (by decide)

/-- A third field is added, and the first is updated with five bytes. -/
theorem offsets_exact_namedOpaque :
    (∃ next, AddsExactly namedOpaque.payload 8 none 2
      (addField .zeroing namedOpaque.payload 8 none 9 (some [104, 0])) next) ∧
    ∃ next, UpdatesExactly namedOpaque.payload 7 12 3 5
      (updateField .zeroing namedOpaque.payload 7 (some (.ofBytes [65])) 0
        (some [7, 8, 9, 10, 11])) next := by
  obtain ⟨adds, updates⟩ := offsets_exact_iff (Message.payload_represents namedOpaque)
    Allocator.zeroing_succeeds (by decide)
  constructor
  · have added := (adds 8 none 9 (some [104, 0]) (by decide)).mpr (.inr (by decide))
    exact added.resolve_left (not_refused (by decide +kernel))
  · have updated := (updates [] [⟨mamaFieldTypeNumber .string, 2, CString.empty, [104, 0]⟩]
      ⟨mamaFieldTypeNumber .opaqueField, 0, .ofBytes [65], [1, 2, 3]⟩
      (some (.ofBytes [65])) 0 (some [7, 8, 9, 10, 11]) rfl (by decide) rfl
      (fun other member => by cases member) (by decide)).mpr (.inr (.inr ⟨by decide, by decide⟩))
    exact updated.resolve_left (not_refused (by decide +kernel))

/-- A message of one opaque field. -/
def opaqueMessage (data : List UInt8) (small : data.length < 2 ^ 32) : Message where
  kind := mamaPayloadIdOmnm
  version := omnmProtocolVersion
  extra := []
  entries := [⟨mamaFieldTypeNumber .opaqueField, 1, CString.empty, data⟩]
  version_le := UInt8.le_refl omnmProtocolVersion
  extra_lt := Message.extra_nil_lt
  fits := by
    intro entry member
    have layout : dataLayout (mamaFieldTypeNumber .opaqueField) = .sized := by decide
    rw [List.mem_singleton.mp member, DataFits, layout]
    exact small

/-- A payload that holds it. -/
def opaquePayload (data : List UInt8) (small : data.length < 2 ^ 32) : OmnmPayloadImpl where
  mPayloadBuffer := (opaqueMessage data small).encode
  mPayloadBufferTail := (opaqueMessage data small).encode.length
  mHeader := OmnmHeader.default
  mBuffer := []

theorem opaquePayload_represents (data : List UInt8) (small : data.length < 2 ^ 32) :
    (opaquePayload data small).Represents (opaqueMessage data small) :=
  ⟨⟨[], (List.append_nil _).symm⟩, rfl, rfl, rfl⟩

theorem opaquePayload_tail (data : List UInt8) (small : data.length < 2 ^ 32) :
    (opaquePayload data small).mPayloadBufferTail = data.length + 11 := by
  have layout : dataLayout (mamaFieldTypeNumber .opaqueField) = .sized := by decide
  simp only [opaquePayload, Message.encode, opaqueMessage, Message.header, encodeAll_cons,
    encodeAll_nil, List.append_nil, List.length_append, FieldEntry.length_encode,
    FieldEntry.lengthPart, layout, if_true, length_littleEndian]
  show 3 + (4 + 0 + 4 + data.length) = _
  omega

/-- Updating the field leaves the tail that the conversions make of it. -/
theorem updateField_opaque (data : List UInt8) (small : data.length < 2 ^ 32) (bytes : List UInt8) :
    ∃ next, (updateField .zeroing (opaquePayload data small) 7 none 1 (some bytes)).result =
        some (.ok, next) ∧
      next.mPayloadBufferTail = updatedTail (data.length + 11) data.length bytes.length := by
  have split : (opaqueMessage data small).entries =
      [] ++ ⟨mamaFieldTypeNumber .opaqueField, 1, CString.empty, data⟩ :: [] := rfl
  have found : FieldEntry.hasKey none 1
      ⟨mamaFieldTypeNumber .opaqueField, 1, CString.empty, data⟩ = true := rfl
  obtain ⟨previous, result, -⟩ := updateField_of_found .zeroing (opaquePayload_represents data small)
    split found (fun other member => by cases member) bytes
  have pointer : (FieldEntry.handle ⟨mamaFieldTypeNumber .opaqueField, 1, CString.empty, data⟩
      ((opaqueMessage data small).header.length + (encodeAll []).length) previous).mData =
      .offset 11 := rfl
  obtain ⟨next, last, updated, tail⟩ := updateFieldHandle_tail .zeroing (opaquePayload data small)
    pointer rfl (fun _ => by decide) bytes
  rw [FieldEntry.handle_mFieldType] at updated
  rw [opaquePayload_tail, FieldEntry.handle_mSize] at tail
  rw [updated] at result
  exact ⟨next, result, tail⟩

/-- An update of 2 GiB of data to one byte, which should leave a tail of 12, does not. -/
theorem updateField_big_tail :
    ∃ small next, (updateField .zeroing (opaquePayload (List.replicate (2 ^ 31) 0) small) 7 none 1
        (some [7])).result = some (.ok, next) ∧
      next.mPayloadBufferTail = 2 ^ 64 - 2 ^ 32 + 12 := by
  have length : (List.replicate (2 ^ 31) (0 : UInt8)).length = 2 ^ 31 := List.length_replicate
  have small : (List.replicate (2 ^ 31) (0 : UInt8)).length < 2 ^ 32 := by
    rw [length]
    norm_num
  obtain ⟨next, result, tail⟩ := updateField_opaque (List.replicate (2 ^ 31) 0) small [7]
  refine ⟨small, next, result, ?_⟩
  rw [tail, length]
  decide +kernel

end Example

end Omnm
