import Omnm.Wire.Mutations
import Omnm.Wire.Values

/-!
# Taking over one field

What one field of the source does to the destination of
`omnmmsgPayload_apply`. When the value of the field goes through its getter
unharmed, the destination is updated with the type, the key and the data of the
field (`Receives.applyField`), which is `Message.applyEntry`. When nothing goes
through, the destination is left alone (`applyField_passedOver`).
-/

set_option autoImplicit false

namespace Omnm

open FieldTypeTags (tag)
open OmnmPayloadImpl

variable [FieldTypeTags]

/-- The message updated with the type, the key and the data of a field. -/
def Message.applyEntry (message : Message) (entry : FieldEntry) : Message :=
  if proper : dataLayout entry.type ≠ .unlisted ∧ DataFits entry.type entry.data then
    (message.updateField entry.nameArgument entry.fid
      ⟨entry.type, proper.1, some ⟨entry.data, proper.2⟩⟩).2
  else message

theorem Message.applyEntry_of_proper {message : Message} {entry : FieldEntry}
    (listed : dataLayout entry.type ≠ .unlisted) (fits : DataFits entry.type entry.data) :
    message.applyEntry entry = (message.updateField entry.nameArgument entry.fid
      ⟨entry.type, listed, some ⟨entry.data, fits⟩⟩).2 :=
  dif_pos ⟨listed, fits⟩

/-- A field without a key changes nothing. -/
theorem Message.applyEntry_of_keyless {message : Message} {entry : FieldEntry}
    (keyless : entry.Keyless) : message.applyEntry entry = message := by
  have refused : entry.nameArgument = none ∧ entry.fid = 0 := keyless
  rw [Message.applyEntry]
  split
  · simp only [Message.updateField]
    rw [if_pos refused]
  · rfl

theorem FieldEntry.length_encode_withData_le (entry : FieldEntry) (data : List UInt8) :
    (entry.withData data).encode.length ≤ entry.encode.length + data.length := by
  rw [FieldEntry.withData]
  split
  · have sameLength : (FieldEntry.lengthPart { entry with data := data }).length =
        entry.lengthPart.length := FieldEntry.length_lengthPart_eq rfl
    rw [FieldEntry.length_encode, FieldEntry.length_encode, sameLength]
    dsimp only
    omega
  · exact Nat.le_add_right ..

/-- Replaced data makes the message longer by its length at most. -/
theorem Message.length_replace_le (message : Message) (name : Option CString) (fid : UInt16)
    (data : List UInt8) :
    (message.replace name fid data).encode.length ≤ message.encode.length + data.length := by
  have header : (message.replace name fid data).header = message.header := rfl
  have entries : ∀ entries, (encodeAll (updateFirst (FieldEntry.hasKey name fid)
      (FieldEntry.withData data) entries)).length ≤ (encodeAll entries).length + data.length := by
    intro entries
    induction entries with
    | nil => exact Nat.zero_le _
    | cons entry entries ih =>
        rw [updateFirst]
        split
        · have longer := entry.length_encode_withData_le data
          simp only [encodeAll_cons, List.length_append]
          omega
        · simp only [encodeAll_cons, List.length_append]
          omega
  rw [Message.encode, Message.encode, header, List.length_append, List.length_append,
    Nat.add_assoc]
  exact Nat.add_le_add_left (entries message.entries) _

/-- An added field makes the message no longer than its wire form. -/
theorem Message.length_addField_le {message : Message} {entry : FieldEntry}
    (listed : dataLayout entry.type ≠ .unlisted) (fits : DataFits entry.type entry.data) :
    (message.addField entry.nameArgument entry.fid
      ⟨entry.type, listed, some ⟨entry.data, fits⟩⟩).2.encode.length ≤
      message.encode.length + entry.encode.length := by
  rw [message.addField_eq _ _ listed fits]
  split
  · exact Nat.le_add_right ..
  · have same : FieldEntry.mk entry.type entry.fid (entry.nameArgument.getD CString.empty)
        entry.data = entry := by
      rw [entry.getD_nameArgument]
    rw [Message.encode_append, List.length_append, same]

/-- Taking over a field changes nothing, adds the field, or replaces the data of one. -/
theorem Message.applyEntry_cases (message : Message) (entry : FieldEntry) :
    message.applyEntry entry = message ∨
      (∃ listed fits, message.applyEntry entry = (message.addField entry.nameArgument entry.fid
        ⟨entry.type, listed, some ⟨entry.data, fits⟩⟩).2) ∨
      message.applyEntry entry =
        message.replace entry.nameArgument entry.fid entry.data := by
  rw [Message.applyEntry]
  split
  · rename_i proper
    obtain ⟨listed, fits⟩ := proper
    simp only [Message.updateField]
    split
    · exact .inl rfl
    · cases message.find entry.nameArgument entry.fid with
      | none => exact .inr (.inl ⟨listed, fits, rfl⟩)
      | some old =>
          dsimp only
          split
          · exact .inl rfl
          · exact .inr (.inr rfl)
  · exact .inl rfl

/-- Taking over a field makes the message longer by its wire form at most. -/
theorem Message.length_applyEntry_le (message : Message) (entry : FieldEntry) :
    (message.applyEntry entry).encode.length ≤ message.encode.length + entry.encode.length := by
  rcases message.applyEntry_cases entry with same | ⟨listed, fits, added⟩ | replaced
  · rw [same]
    exact Nat.le_add_right ..
  · rw [added]
    exact Message.length_addField_le listed fits
  · have longer := message.length_replace_le entry.nameArgument entry.fid entry.data
    have whole := entry.length_encode
    rw [replaced]
    omega

/-- The `switch` makes no update with the field: it passes over the type, or there are no bytes of a
message and no sub-message is kept, or no strings and neither an array nor a scratch buffer. -/
def FieldEntry.PassedOver (sub strings : Prop) (entry : FieldEntry) : Prop :=
  match fieldTypeOf entry.type with
  | some .msg => entry.data = [] ∧ ¬ sub
  | some .vectorString => entry.data = [] ∧ ¬ strings
  | some .vectorMsg | some .vectorTime | some .vectorPrice | some .quantity | some .collection
  | some .unknown | none => True
  | _ => False

/-- The getter of the field reads no further than the bytes that are there. -/
def FieldEntry.Readable (behind : List UInt8) (entry : FieldEntry) : Prop :=
  match fieldTypeOf entry.type with
  | some .msg => entry.data = [] ∨ 3 ≤ (entry.data ++ behind).length
  | some .vectorString => entry.data = [] ∨ entry.data.getLast? = some 0
  | _ => True

/-- The getter hands on the data of the field as they are: whole elements of a vector, a message
with a header of an accepted version, strings that end. No strings need an array and a scratch
buffer. -/
def FieldEntry.Faithful (strings : Prop) (behind : List UInt8) (entry : FieldEntry) : Prop :=
  match fieldTypeOf entry.type with
  | some .bool | some .char | some .i8 | some .u8 | some .i16 | some .u16 | some .i32 | some .u32
  | some .i64 | some .u64 | some .f32 | some .f64 | some .string | some .opaqueField | some .time
  | some .price | some .vectorBool | some .vectorChar | some .vectorI8 | some .vectorU8 => True
  | some .vectorI16 | some .vectorU16 => 2 ∣ entry.data.length
  | some .vectorI32 | some .vectorU32 | some .vectorF32 => 4 ∣ entry.data.length
  | some .vectorI64 | some .vectorU64 | some .vectorF64 => 8 ∣ entry.data.length
  | some .msg => entry.data ≠ [] ∧ HeaderAhead (entry.data ++ behind)
  | some .vectorString => entry.data.getLast? = some 0 ∨ (entry.data = [] ∧ strings)
  | some .vectorMsg | some .vectorTime | some .vectorPrice | some .quantity | some .collection
  | some .unknown | none => False

section

variable (entry : FieldEntry) (sub strings : Prop) (behind : List UInt8)

instance [Decidable sub] [Decidable strings] : Decidable (entry.PassedOver sub strings) := by
  unfold FieldEntry.PassedOver
  split <;> infer_instance

instance : Decidable (entry.Readable behind) := by
  unfold FieldEntry.Readable
  split <;> infer_instance

instance [Decidable strings] : Decidable (entry.Faithful strings behind) := by
  unfold FieldEntry.Faithful
  split <;> infer_instance

end

/-- A field that is handed on whatever stands in front of it and behind it. -/
def FieldEntry.Transferable (entry : FieldEntry) : Prop := entry.Faithful False []

/-- A field that goes on to the destination is not passed over. -/
theorem FieldEntry.Faithful.not_passedOver {entry : FieldEntry} {sub strings : Prop}
    {behind : List UInt8} (faithful : entry.Faithful strings behind) :
    ¬ entry.PassedOver sub strings := by
  unfold FieldEntry.Faithful at faithful
  unfold FieldEntry.PassedOver
  cases named : fieldTypeOf entry.type with
  | none => simp only [named] at faithful
  | some name =>
      cases name <;> simp only [named] at faithful <;> try exact id
      · exact fun passed => faithful.1 passed.1
      · rintro ⟨empty, nothing⟩
        rcases faithful with ends | ⟨-, strings⟩
        · rw [empty] at ends
          cases ends
        · exact nothing strings

theorem FieldEntry.Faithful.readable {entry : FieldEntry} {strings : Prop} {behind : List UInt8}
    (faithful : entry.Faithful strings behind) : entry.Readable behind := by
  unfold FieldEntry.Faithful at faithful
  unfold FieldEntry.Readable
  cases named : fieldTypeOf entry.type with
  | none => trivial
  | some name =>
      cases name <;> simp only [named] at faithful ⊢
      · exact .inr faithful.2.1
      · exact faithful.symm.imp_left And.left

theorem FieldEntry.Transferable.faithful {entry : FieldEntry} (transferable : entry.Transferable)
    {strings : Prop} {behind : List UInt8} : entry.Faithful strings behind := by
  unfold FieldEntry.Transferable FieldEntry.Faithful at transferable
  unfold FieldEntry.Faithful
  cases named : fieldTypeOf entry.type with
  | none => simp only [named] at transferable
  | some name =>
      cases name <;> simp only [named] at transferable ⊢ <;> try exact transferable
      · exact ⟨transferable.1, (List.append_nil entry.data ▸ transferable.2).append behind⟩
      · exact .inl (transferable.resolve_right And.right)

theorem FieldEntry.listed_of_not_passedOver {entry : FieldEntry} {sub strings : Prop}
    (updates : ¬ entry.PassedOver sub strings) : dataLayout entry.type ≠ .unlisted := by
  intro unlisted
  apply updates
  unfold FieldEntry.PassedOver
  rcases fieldTypeOf_of_unlisted unlisted with other | other <;> simp only [other]

theorem FieldEntry.Faithful.listed {entry : FieldEntry} {strings : Prop} {behind : List UInt8}
    (faithful : entry.Faithful strings behind) : dataLayout entry.type ≠ .unlisted := by
  have updates : ¬ entry.PassedOver False strings := faithful.not_passedOver
  exact FieldEntry.listed_of_not_passedOver updates

/-- The conversions of date-times and prices keep what the field holds. -/
def FieldEntry.Lossless (entry : FieldEntry) : Prop :=
  (entry.type = tag .time → convertMamaDateTimeToOmnmDateTime
    (convertOmnmDateTimeToMamaDateTime entry.data) = entry.data) ∧
  (entry.type = tag .price → convertMamaPriceToOmnmPrice
    (convertOmnmPriceToMamaPrice entry.data) = entry.data)

instance (entry : FieldEntry) : Decidable entry.Lossless := inferInstanceAs (Decidable (_ ∧ _))

/-! ## What is left to later rounds -/

omit [FieldTypeTags] in
/-- The name of the last field that has one. -/
def carriedName (fields : List FieldEntry) : Option CString :=
  fields.foldl (fun name entry => entry.nameArgument.or name) none

omit [FieldTypeTags] in
theorem carriedName_concat (before : List FieldEntry) (entry : FieldEntry) :
    carriedName (before ++ [entry]) = entry.nameArgument.or (carriedName before) := by
  rw [carriedName, List.foldl_append]
  rfl

omit [FieldTypeTags] in
theorem carriedName_ne_empty (fields : List FieldEntry) :
    carriedName fields ≠ some CString.empty := by
  induction fields using List.reverseRecOn with
  | nil => simp [carriedName]
  | append_singleton before entry ih =>
      rw [carriedName_concat]
      cases named : entry.nameArgument with
      | none => rwa [Option.none_or]
      | some name =>
          rw [Option.some_or, ← named]
          exact entry.nameArgument_ne_empty

omit [FieldTypeTags] in
/-- A round goes by the name of its field, or by the name that is carried. -/
theorem FieldEntry.HandledBy.loadCarriedName {entry : FieldEntry} {src : OmnmPayloadImpl}
    {field : OmnmFieldImpl} (handled : entry.HandledBy src field) {previous : BufferPtr}
    {before : List FieldEntry}
    (carried : (loadStringArgument src previous).result = some (carriedName before)) :
    (loadStringArgument src ((if entry.name = CString.empty then none else
      some field.mName).getD previous)).result = some (carriedName (before ++ [entry])) := by
  rw [carriedName_concat]
  by_cases unnamed : entry.name = CString.empty
  · rw [if_pos unnamed, Option.getD_none, carried, nameArgument_of_unnamed unnamed, Option.none_or]
  · have loaded := handled.loadName
    rw [nameArgument_of_named unnamed] at loaded ⊢
    rw [if_neg unnamed, Option.getD_some, Option.some_or]
    exact loaded

/-- The field leaves a sub-message to later rounds. -/
def FieldEntry.LeavesMessage (entry : FieldEntry) : Prop := entry.type = tag .msg ∧ entry.data ≠ []

/-- The field leaves an array of strings to later rounds. -/
def FieldEntry.LeavesStrings (entry : FieldEntry) : Prop :=
  entry.type = tag .vectorString ∧ entry.data ≠ []

/-- The field leaves strings in the scratch buffer of the destination. -/
def FieldEntry.LeavesScratch (entry : FieldEntry) : Prop := entry.LeavesStrings ∧ ¬ entry.Keyless

instance (entry : FieldEntry) : Decidable entry.LeavesMessage := inferInstanceAs (Decidable (_ ∧ _))

instance (entry : FieldEntry) : Decidable entry.LeavesStrings := inferInstanceAs (Decidable (_ ∧ _))

instance (entry : FieldEntry) : Decidable entry.LeavesScratch := inferInstanceAs (Decidable (_ ∧ _))

/-- A field that is passed over leaves nothing to later rounds. -/
theorem FieldEntry.PassedOver.leaves_nothing {entry : FieldEntry} {sub strings : Prop}
    (passed : entry.PassedOver sub strings) : ¬ entry.LeavesMessage ∧ ¬ entry.LeavesStrings := by
  unfold FieldEntry.PassedOver at passed
  constructor
  · rintro ⟨type, some_bytes⟩
    rw [type, fieldTypeOf_tag] at passed
    exact some_bytes passed.1
  · rintro ⟨type, some_bytes⟩
    rw [type, fieldTypeOf_tag] at passed
    exact some_bytes passed.1

/-- A destination that holds a message can take over a field: an update under its key meets a field
of its type, if any, and there is room for it. -/
structure Receives (dest : OmnmPayloadImpl) (message : Message) (entry : FieldEntry) : Prop where
  represents : dest.Represents message
  listed : dataLayout entry.type ≠ .unlisted
  fits : DataFits entry.type entry.data
  sameType : ∀ found, message.find entry.nameArgument entry.fid = some found →
    found.type = entry.type
  room : ¬ entry.Keyless → message.HasRoom entry.nameArgument entry.fid entry.data
  below : message.encode.length + entry.encode.length < 2 ^ 63

/-- A computation leaves a destination that has taken over the field, with its scratch buffer. -/
def Transferred (dest : OmnmPayloadImpl) (message : Message) (entry : FieldEntry)
    (computation : Mutated) : Prop :=
  ∃ status next, computation.result = some (status, next) ∧
    next.Represents (message.applyEntry entry) ∧ next.mBuffer = dest.mBuffer

section

variable {dest : OmnmPayloadImpl} {message : Message} {entry : FieldEntry}

theorem Transferred.of_result {computation other : Mutated}
    (transferred : Transferred dest message entry other)
    (same : computation.result = other.result) : Transferred dest message entry computation := by
  obtain ⟨status, next, result, represents⟩ := transferred
  exact ⟨status, next, same.trans result, represents⟩

/-- The statuses do not matter. -/
theorem Transferred.of_sameEffect {computation other : Mutated}
    (transferred : Transferred dest message entry other) (same : SameEffect computation other) :
    Transferred dest message entry computation := by
  obtain ⟨status, next, result, represents⟩ := transferred
  obtain ⟨report, returned⟩ := same.exists_result result
  exact ⟨report, next, returned, represents⟩

/-- What a round does: it takes the field over, and leaves what it leaves to later rounds. -/
structure TakesOver (dest : OmnmPayloadImpl) (message : Message) (entry : FieldEntry)
    (results : FieldResults) (next : OmnmPayloadImpl) (kept : FieldResults) : Prop where
  represents : next.Represents (message.applyEntry entry)
  scratch : next.mBuffer = [] ↔ dest.mBuffer = [] ∧ ¬ entry.LeavesScratch
  sub : kept.mSubPayload = none ↔ results.mSubPayload = none ∧ ¬ entry.LeavesMessage
  strings : kept.mVectorString = [] ↔ results.mVectorString = [] ∧ ¬ entry.LeavesStrings

/-- A field that is neither a message nor strings leaves nothing. -/
theorem Transferred.takesOver {computation : Mutated} {results : FieldResults}
    (transferred : Transferred dest message entry computation) (noMsg : entry.type ≠ tag .msg)
    (noStrings : entry.type ≠ tag .vectorString) :
    ∃ next kept, (computation >>= fun outcome => pure (outcome.2, results)).result =
      some (next, kept) ∧ TakesOver dest message entry results next kept := by
  obtain ⟨status, next, result, represents, scratch⟩ := transferred
  refine ⟨next, results, ?_, represents, ?_, ?_, ?_⟩
  · rw [Traced.result_bind, result, Option.bind_some, Traced.result_pure]
  · rw [scratch, and_iff_left fun leaves => noStrings leaves.1.1]
  · rw [and_iff_left fun leaves => noMsg leaves.1]
  · rw [and_iff_left fun leaves => noStrings leaves.1]

end

namespace Receives

variable {dest : OmnmPayloadImpl} {message : Message} {entry : FieldEntry}

theorem withScratch (receives : Receives dest message entry) (scratch : List UInt8) :
    Receives (OmnmPayloadImpl.withScratch scratch dest) message entry :=
  { receives with represents := receives.represents.withScratch scratch }

/-- A field without a key is refused, and the refusal is what is due. -/
theorem refused (receives : Receives dest message entry) (keyless : entry.Keyless)
    (status : MamaStatus) : Transferred dest message entry (pure (status, dest)) :=
  ⟨status, dest, rfl, by
    rw [Message.applyEntry_of_keyless keyless]
    exact receives.represents, rfl⟩

/-- Without a key an update is refused whatever its data is. -/
theorem updateField_of_keyless (receives : Receives dest message entry) (keyless : entry.Keyless)
    (allocator : Allocator) (type : UInt8) (buffer : Option (List UInt8)) :
    Transferred dest message entry
      (dest.updateField allocator type entry.nameArgument entry.fid buffer) := by
  rw [updateField_null (.inr keyless)]
  exact receives.refused keyless .nullArg

/-- The update with the data of the field. -/
theorem updateField (receives : Receives dest message entry) {allocator : Allocator}
    (succeeds : allocator.Succeeds) :
    Transferred dest message entry (dest.updateField allocator entry.type entry.nameArgument
      entry.fid (some entry.data)) := by
  by_cases keyless : entry.Keyless
  · exact receives.updateField_of_keyless keyless allocator entry.type _
  · have longer := message.length_applyEntry_le entry
    have layout : message.SameLayout entry.nameArgument entry.fid entry.type := by
      intro found search _
      rw [receives.sameType found search]
    have outcome := @Message.applyEntry_of_proper _ message entry receives.listed receives.fits
    obtain ⟨next, keeps⟩ := receives.represents.updateField_of_room succeeds receives.listed
      receives.fits layout (receives.room keyless)
      (outcome ▸ longer.trans_lt receives.below)
    exact ⟨_, next, keeps.result, outcome ▸ keeps.represents, keeps.scratch⟩

/-! ## The cases of the switch -/

variable {memory : ApplyMemory} {src : OmnmPayloadImpl} {field : OmnmFieldImpl}
  {behind : List UInt8} {results : FieldResults}

theorem applyString (receives : Receives dest message entry) (handled : entry.HandledBy src field)
    (succeeds : memory.update.Succeeds) (type : entry.type = tag .string) :
    Transferred dest message entry (applyString memory src field dest entry.nameArgument) := by
  have read := handled.getString type
  by_cases keyless : entry.Keyless
  · rw [if_pos keyless] at read
    apply (receives.refused keyless .nullArg).of_result
    simp only [Omnm.applyString, read, Traced.result_bind, Option.bind_some]
    rfl
  · rw [if_neg keyless] at read
    obtain ⟨string, data, loaded⟩ := handled.loadString type receives.fits
    apply (receives.updateField succeeds.payload).of_result
    simp only [Omnm.applyString, read, loaded, Traced.result_bind, Option.bind_some, Option.getD_some,
      omnmmsgPayload_updateString, handled.fid, type, data]

theorem applyOpaque (receives : Receives dest message entry) (handled : entry.HandledBy src field)
    (succeeds : memory.update.Succeeds) (type : entry.type = tag .opaqueField) :
    Transferred dest message entry (applyOpaque memory src field dest entry.nameArgument) := by
  have read := handled.getOpaque type
  by_cases keyless : entry.Keyless
  · rw [if_pos keyless] at read
    apply (receives.refused keyless .nullArg).of_result
    simp only [Omnm.applyOpaque, read, Traced.result_bind, Option.bind_some]
    rfl
  · rw [if_neg keyless] at read
    apply (receives.updateField succeeds.payload).of_result
    simp only [Omnm.applyOpaque, read, handled.loadBytesArgument, Traced.result_bind,
      Option.bind_some, Option.getD_some, omnmmsgPayload_updateOpaque, handled.fid, type]

omit [FieldTypeTags] in
/-- The key of a field that has one passes the check of the vector functions. -/
theorem validate_of_keyed {entry : FieldEntry} (keyed : ¬ entry.Keyless) :
    validateNameFid entry.nameArgument entry.fid = none :=
  Mutation.validateNameFid_of_accepted keyed fun empty => entry.nameArgument_ne_empty empty.1

theorem updateVectorField (receives : Receives dest message entry)
    (handled : entry.HandledBy src field) (succeeds : memory.update.Succeeds) {scalar : ScalarType}
    (type : entry.type = tag scalar.vectorFieldType)
    (whole : ¬ entry.Keyless → scalar.size ∣ entry.data.length) :
    Transferred dest message entry (updateVectorField memory src field dest entry.nameArgument
      scalar.size (getScalarVector scalar) scalar.omnmmsgPayload_updateVector) := by
  have short := Nat.div_mul_le_self entry.data.length scalar.size
  obtain ⟨-, -, -, update⟩ := scalar.mutators_eq
  have request : ∃ values, vectorBytes scalar.size values =
      entry.data.take (entry.data.length / scalar.size * scalar.size) ∧
      (Omnm.updateVectorField memory src field dest entry.nameArgument scalar.size
        (getScalarVector scalar) scalar.omnmmsgPayload_updateVector).result =
      ((ofScalars entry.nameArgument entry.fid scalar.size (some values)
        (.updateVector scalar.vectorFieldType)).perform memory.update dest entry.nameArgument
          entry.fid).result := by
    have elements := @vectorBytes_slices
      (entry.data.take (entry.data.length / scalar.size * scalar.size))
      (entry.data.length / scalar.size) scalar.size
      (Nat.le_of_eq (List.length_take_of_le short).symm)
    rw [List.take_take, Nat.min_self] at elements
    refine ⟨_, elements, ?_⟩
    simp only [Omnm.updateVectorField, getScalarVector, handled.size, handled.loadFront short,
      Traced.result_bind, Option.bind_some, Option.map_some, update, updateScalarVector_eq,
      handled.fid]
  obtain ⟨values, bytes, request⟩ := request
  by_cases keyless : entry.nameArgument = none ∧ entry.fid = 0
  · apply (receives.refused keyless .nullArg).of_result
    rw [request, ofScalars, ofPointer, if_pos keyless]
    rfl
  · rw [Nat.div_mul_cancel (whole keyless), List.take_length] at bytes
    have same := @Mutation.updateVector_sameEffect _ memory.update dest entry.nameArgument entry.fid
      (validate_of_keyed keyless) scalar.vectorFieldType entry.data
    have updated := receives.updateField succeeds.payload
    rw [type] at updated
    apply (updated.of_sameEffect same).of_result
    rw [request, ofScalars, ofPointer, if_neg keyless, bytes]

/-- A message is taken in from where its data stands, with the bytes behind it. -/
theorem applyMsg (receives : Receives dest message entry) (handled : entry.HandledBy src field)
    (succeeds : memory.Succeeds) (type : entry.type = tag .msg)
    (here : ∀ offset, field.mData = .offset offset →
      src.mPayloadBuffer.drop offset = entry.data ++ behind)
    (readable : entry.data = [] ∨ 3 ≤ (entry.data ++ behind).length)
    (header : ¬ entry.Keyless → entry.data ≠ [] ∧ HeaderAhead (entry.data ++ behind))
    (results : FieldResults) :
    ∃ next kept, (applyMsg memory src field dest entry.nameArgument results).result =
      some (next, kept) ∧ TakesOver dest message entry results next kept := by
  have noStrings : entry.type ≠ tag .vectorString := type ▸ tag_ne (by simp)
  obtain ⟨offset, rest, pointer, -⟩ := handled.data
  have inside : entry.data.length ≤ (entry.data ++ behind).length := by
    rw [List.length_append]
    exact Nat.le_add_right ..
  have read := handled.getMsg_eq memory.getter type pointer results
  rw [here offset pointer] at read
  -- what the field keeps is some sub-message, unless there was none and there are no bytes
  have finish : ∀ status sub, (fillSubPayload memory.getter results.mSubPayload
      (entry.data ++ behind) entry.data.length).result = some (status, sub) →
      Transferred dest message entry (dest.updateSubMsg memory.update entry.nameArgument entry.fid
        sub) →
      ∃ next kept, (Omnm.applyMsg memory src field dest entry.nameArgument results).result =
        some (next, kept) ∧ TakesOver dest message entry results next kept := by
    intro status sub filled transferred
    obtain ⟨answer, next, updated, represents, scratch⟩ := transferred
    rw [filled] at read
    refine ⟨next, { results with mSubPayload := sub }, ?_, represents, ?_, ?_, ?_⟩
    · simp only [Omnm.applyMsg, read, Traced.result_bind, Option.map_some, Option.bind_some,
        handled.fid, updated, Traced.result_pure]
    · rw [scratch, and_iff_left fun leaves => noStrings leaves.1.1]
    · rw [FieldEntry.LeavesMessage, and_iff_right type, ne_eq, not_not, ← List.length_eq_zero_iff]
      exact none_iff_of_fillSubPayload filled
    · rw [and_iff_left fun leaves => noStrings leaves.1]
  by_cases keyless : entry.Keyless
  · obtain ⟨⟨status, sub⟩, filled⟩ := @exists_fillSubPayload memory.getter results.mSubPayload _ _
      inside fun some_bytes => readable.resolve_left (List.length_eq_zero_iff.not.mp some_bytes)
    exact finish status sub filled
      (receives.updateField_of_keyless keyless memory.update.payload (tag .msg) _)
  · obtain ⟨some_bytes, ahead⟩ := header keyless
    obtain ⟨sub, filled, bytes⟩ := fillSubPayload_eq succeeds.getter results.mSubPayload
      (List.length_eq_zero_iff.not.mpr some_bytes) ahead inside
    rw [List.take_left] at bytes
    refine finish .ok (some sub) filled ?_
    rw [updateSubMsg, Option.map_some, bytes, ← type]
    exact receives.updateField succeeds.update.payload

/-- Without a key strings are refused. -/
theorem updateVectorString_of_keyless (receives : Receives dest message entry)
    (keyless : entry.Keyless) (value : Option (List CString)) :
    Transferred dest message entry (omnmmsgPayload_updateVectorString memory.update dest
      entry.nameArgument entry.fid value) := by
  have performed := @FieldRequest.perform_eq _ memory.update dest entry.nameArgument entry.fid
    (.updateVectorString value)
  have refused : validateNameFid entry.nameArgument entry.fid = some .nullArg := by
    rw [keyless.1, keyless.2]
    rfl
  rw [FieldRequest.perform, FieldRequest.prepare] at performed
  unfold checked at performed
  rw [refused] at performed
  apply (receives.refused keyless .nullArg).of_result
  rw [performed]
  rfl

/-- Strings are updated from the scratch buffer, which must not be empty behind them. -/
theorem updateVectorString (receives : Receives dest message entry)
    (succeeds : memory.update.Succeeds) (type : entry.type = tag .vectorString)
    (keyed : ¬ entry.Keyless) {strings : List CString} (data : entry.data = joinStrings strings)
    (filled : entry.data = [] → dest.mBuffer ≠ []) :
    ∃ status next, (omnmmsgPayload_updateVectorString memory.update dest entry.nameArgument
        entry.fid (some strings)).result = some (status, next) ∧
      next.Represents (message.applyEntry entry) ∧ next.mBuffer ≠ [] := by
  have performed := @FieldRequest.perform_eq _ memory.update dest entry.nameArgument entry.fid
    (.updateVectorString (some strings))
  rw [FieldRequest.perform, FieldRequest.prepare, checked] at performed
  obtain ⟨scratch, prepared, length⟩ := @result_prepareElements memory.update dest.mBuffer
    succeeds.scratch .vectorString (strings.map CString.terminated)
  have joined : (strings.map CString.terminated).flatten = entry.data := by
    rw [data, joinStrings, List.flatMap_def]
  have room := le_length_scratch succeeds.scratch dest.mBuffer
    (elementsLength (strings.map CString.terminated))
  have larger := length_le_allocateBufferMemory memory.update.scratch dest.mBuffer
    (elementsLength (strings.map CString.terminated))
  rw [← length] at larger
  rw [← length, length_flatten, joined] at room
  have some_bytes : scratch ≠ [] := by
    rintro rfl
    rw [List.length_nil] at larger room
    exact filled (List.length_eq_zero_iff.mp (Nat.le_zero.mp room))
      (List.length_eq_zero_iff.mp (Nat.le_zero.mp larger))
  rw [if_neg some_bytes, joined] at prepared
  obtain ⟨status, next, result, represents, kept⟩ :=
    (receives.withScratch scratch).updateField succeeds.payload
  refine ⟨status, next, ?_, represents, kept ▸ some_bytes⟩
  rw [performed, validate_of_keyed keyed, afterPreparing]
  dsimp only
  rw [Traced.result_bind, prepared, Option.bind_some, Mutation.perform, ← type]
  exact result

theorem applyVectorString (receives : Receives dest message entry)
    (handled : entry.HandledBy src field) (succeeds : memory.Succeeds)
    (type : entry.type = tag .vectorString)
    (readable : entry.data = [] ∨ entry.data.getLast? = some 0)
    (ends : ¬ entry.Keyless → entry.data.getLast? = some 0 ∨
      (entry.data = [] ∧ results.mVectorString ≠ [] ∧ dest.mBuffer ≠ [])) :
    ∃ next kept, (applyVectorString memory src field dest entry.nameArgument results).result =
      some (next, kept) ∧ TakesOver dest message entry results next kept := by
  have noMsg : entry.type ≠ tag .msg := type ▸ tag_ne (by simp)
  obtain ⟨strings, array, kept, data, read, loaded, some_array, rfl, sub⟩ :=
    handled.exists_getVectorString succeeds.arrays readable results
  have keeps : kept.mVectorString = [] ↔ results.mVectorString = [] ∧ ¬ entry.LeavesStrings := by
    rw [some_array, FieldEntry.LeavesStrings, and_iff_right type, ne_eq, not_not]
  have subs : kept.mSubPayload = none ↔ results.mSubPayload = none ∧ ¬ entry.LeavesMessage := by
    rw [sub, and_iff_left fun leaves => noMsg leaves.1]
  by_cases keyless : entry.Keyless
  · obtain ⟨status, next, updated, represents, scratch⟩ :=
      @updateVectorString_of_keyless _ _ _ _ memory receives keyless
        (if kept.mVectorString = [] then none else some strings)
    refine ⟨next, kept, ?_, represents, ?_, subs, keeps⟩
    · simp only [Omnm.applyVectorString, read, loaded, Traced.result_bind, Option.bind_some,
        handled.fid, updated, Traced.result_pure]
    · rw [scratch, and_iff_left fun leaves => leaves.2 keyless]
  · have array : kept.mVectorString ≠ [] := by
      rw [ne_eq, some_array]
      rintro ⟨null, empty⟩
      rcases ends keyless with ends | ⟨-, some_array, -⟩
      · rw [empty] at ends
        cases ends
      · exact some_array null
    have filled : entry.data = [] → dest.mBuffer ≠ [] := by
      intro empty
      rcases ends keyless with ends | ⟨-, -, some_scratch⟩
      · rw [empty] at ends
        cases ends
      · exact some_scratch
    rw [if_neg array] at loaded
    obtain ⟨status, next, updated, represents, some_bytes⟩ :=
      receives.updateVectorString succeeds.update type keyless data filled
    refine ⟨next, kept, ?_, represents, iff_of_false some_bytes ?_, subs, keeps⟩
    · simp only [Omnm.applyVectorString, read, loaded, Traced.result_bind, Option.bind_some,
        handled.fid, updated, Traced.result_pure]
    · rintro ⟨nothing, leaves⟩
      exact leaves ⟨⟨type, fun empty => filled empty nothing⟩, keyless⟩

variable [MamaLibrary]

theorem applyScalarField (receives : Receives dest message entry)
    (handled : entry.HandledBy src field) (succeeds : memory.update.Succeeds) {scalar : ScalarType}
    (type : entry.type = tag scalar.fieldType) :
    Transferred dest message entry (applyScalarField memory src field dest entry.nameArgument
      (getScalarField scalar) scalar.omnmmsgPayload_update) := by
  have width := length_of_dataFits scalar.dataLayout_fieldType type receives.fits
  have read := handled.getScalarField type width
  obtain ⟨-, update, -, -⟩ := scalar.mutators_eq
  rw [Omnm.applyScalarField, update]
  by_cases keyless : entry.Keyless
  · rw [if_pos keyless] at read
    refine (receives.updateField_of_keyless keyless memory.update.payload (tag scalar.fieldType)
      (some (littleEndian scalar.size memory.uninitialised))).of_result ?_
    simp only [read, Traced.result_bind, Option.bind_some, updateScalarField, handled.fid,
      Option.getD_none]
  · rw [if_neg keyless] at read
    have written := littleEndian_littleEndianValue entry.data
    rw [width] at written
    apply (receives.updateField succeeds.payload).of_result
    simp only [read, Traced.result_bind, Option.bind_some, updateScalarField, handled.fid,
      Option.getD_some, written, type]

theorem applyDateTime (receives : Receives dest message entry)
    (handled : entry.HandledBy src field) (succeeds : memory.update.Succeeds)
    (type : entry.type = tag .time) (lossless : convertMamaDateTimeToOmnmDateTime
      (convertOmnmDateTimeToMamaDateTime entry.data) = entry.data) :
    Transferred dest message entry (applyDateTime memory src field dest entry.nameArgument) := by
  have width := length_of_dataFits dataLayout_time type receives.fits
  apply (receives.updateField succeeds.payload).of_result
  simp only [Omnm.applyDateTime, handled.getDateTime type width, Traced.result_bind,
    Option.bind_some, Option.getD_some, omnmmsgPayload_updateDateTime, lossless, handled.fid, type]

theorem applyPrice (receives : Receives dest message entry)
    (handled : entry.HandledBy src field) (succeeds : memory.update.Succeeds)
    (type : entry.type = tag .price) (lossless : convertMamaPriceToOmnmPrice
      (convertOmnmPriceToMamaPrice entry.data) = entry.data) :
    Transferred dest message entry (applyPrice memory src field dest entry.nameArgument) := by
  have width := length_of_dataFits dataLayout_price type receives.fits
  apply (receives.updateField succeeds.payload).of_result
  simp only [Omnm.applyPrice, handled.getPrice type width, Traced.result_bind,
    Option.bind_some, Option.getD_some, omnmmsgPayload_updatePrice, lossless, handled.fid, type]

/-! ## The switch -/

/-- A field that goes through its getter unharmed is taken over. -/
theorem applyField (receives : Receives dest message entry) (handled : entry.HandledBy src field)
    (succeeds : memory.Succeeds)
    (here : ∀ offset, field.mData = .offset offset →
      src.mPayloadBuffer.drop offset = entry.data ++ behind)
    (updates : ¬ entry.PassedOver (results.mSubPayload ≠ none)
      (results.mVectorString ≠ [] ∧ dest.mBuffer ≠ []))
    (readable : entry.Readable behind)
    (faithful : ¬ entry.Keyless →
      entry.Faithful (results.mVectorString ≠ [] ∧ dest.mBuffer ≠ []) behind)
    (lossless : entry.Lossless) :
    ∃ next kept, (applyField memory src field dest entry.nameArgument results).result =
      some (next, kept) ∧ TakesOver dest message entry results next kept := by
  unfold FieldEntry.PassedOver at updates
  unfold FieldEntry.Readable at readable
  unfold FieldEntry.Faithful at faithful
  cases named : fieldTypeOf entry.type with
  | none => simp [named] at updates
  | some name =>
      have type := (tag_of_fieldTypeOf named).symm
      have scalar : ∀ scalar : ScalarType, name = scalar.fieldType →
          Transferred dest message entry (Omnm.applyScalarField memory src field dest
            entry.nameArgument (getScalarField scalar) scalar.omnmmsgPayload_update) := by
        rintro scalar rfl
        exact receives.applyScalarField handled succeeds.update type
      have vector : ∀ scalar : ScalarType, name = scalar.vectorFieldType →
          (¬ entry.Keyless → scalar.size ∣ entry.data.length) →
          Transferred dest message entry (Omnm.updateVectorField memory src field dest
            entry.nameArgument scalar.size (getScalarVector scalar)
            scalar.omnmmsgPayload_updateVector) := by
        rintro scalar rfl whole
        exact receives.updateVectorField handled succeeds.update type whole
      have plain : ∀ {computation : Mutated}, Transferred dest message entry computation →
          name ≠ .msg → name ≠ .vectorString →
          ∃ next kept, (computation >>= fun outcome => pure (outcome.2, results)).result =
            some (next, kept) ∧ TakesOver dest message entry results next kept :=
        fun transferred noMsg noStrings =>
          transferred.takesOver (type ▸ tag_ne noMsg) (type ▸ tag_ne noStrings)
      simp only [named] at updates readable faithful
      simp only [Omnm.applyField, handled.type, named]
      cases name with
      | bool => exact plain (scalar .bool rfl) (by simp) (by simp)
      | char => exact plain (scalar .char rfl) (by simp) (by simp)
      | i8 => exact plain (scalar .i8 rfl) (by simp) (by simp)
      | u8 => exact plain (scalar .u8 rfl) (by simp) (by simp)
      | i16 => exact plain (scalar .i16 rfl) (by simp) (by simp)
      | u16 => exact plain (scalar .u16 rfl) (by simp) (by simp)
      | i32 => exact plain (scalar .i32 rfl) (by simp) (by simp)
      | u32 => exact plain (scalar .u32 rfl) (by simp) (by simp)
      | i64 => exact plain (scalar .i64 rfl) (by simp) (by simp)
      | u64 => exact plain (scalar .u64 rfl) (by simp) (by simp)
      | f32 => exact plain (scalar .f32 rfl) (by simp) (by simp)
      | f64 => exact plain (scalar .f64 rfl) (by simp) (by simp)
      | string =>
          exact plain (receives.applyString handled succeeds.update type) (by simp) (by simp)
      | opaqueField =>
          exact plain (receives.applyOpaque handled succeeds.update type) (by simp) (by simp)
      | time =>
          exact plain (receives.applyDateTime handled succeeds.update type (lossless.1 type))
            (by simp) (by simp)
      | price =>
          exact plain (receives.applyPrice handled succeeds.update type (lossless.2 type))
            (by simp) (by simp)
      | msg => exact receives.applyMsg handled succeeds type here readable faithful results
      | vectorString => exact receives.applyVectorString handled succeeds type readable faithful
      | vectorBool => exact plain (vector .bool rfl fun _ => one_dvd _) (by simp) (by simp)
      | vectorChar => exact plain (vector .char rfl fun _ => one_dvd _) (by simp) (by simp)
      | vectorI8 => exact plain (vector .i8 rfl fun _ => one_dvd _) (by simp) (by simp)
      | vectorU8 => exact plain (vector .u8 rfl fun _ => one_dvd _) (by simp) (by simp)
      | vectorI16 => exact plain (vector .i16 rfl faithful) (by simp) (by simp)
      | vectorU16 => exact plain (vector .u16 rfl faithful) (by simp) (by simp)
      | vectorI32 => exact plain (vector .i32 rfl faithful) (by simp) (by simp)
      | vectorU32 => exact plain (vector .u32 rfl faithful) (by simp) (by simp)
      | vectorI64 => exact plain (vector .i64 rfl faithful) (by simp) (by simp)
      | vectorU64 => exact plain (vector .u64 rfl faithful) (by simp) (by simp)
      | vectorF32 => exact plain (vector .f32 rfl faithful) (by simp) (by simp)
      | vectorF64 => exact plain (vector .f64 rfl faithful) (by simp) (by simp)
      | quantity | collection | vectorMsg | vectorTime | vectorPrice | unknown =>
          exact absurd trivial updates

end Receives

section

variable {memory : ApplyMemory} {src dest : OmnmPayloadImpl} {field : OmnmFieldImpl}
  {message : Message} {entry : FieldEntry} {results : FieldResults} {name : Option CString}

/-- No array of strings, or no strings and no scratch buffer: nothing is updated. -/
theorem updateVectorString_nothing (succeeds : memory.update.Succeeds) {fid : UInt16}
    {value : Option (List CString)} (nothing : value = none ∨ (value = some [] ∧ dest.mBuffer = [])) :
    ∃ status, (omnmmsgPayload_updateVectorString memory.update dest name fid value).result =
      some (status, dest) := by
  have performed := @FieldRequest.perform_eq _ memory.update dest name fid
    (.updateVectorString value)
  rw [FieldRequest.perform, FieldRequest.prepare] at performed
  rw [performed]
  unfold checked
  cases validateNameFid name fid with
  | some status => exact ⟨status, rfl⟩
  | none =>
      rcases nothing with rfl | ⟨rfl, empty⟩
      · exact ⟨.nullArg, rfl⟩
      · obtain ⟨scratch, prepared, length⟩ := @result_prepareElements memory.update dest.mBuffer
          succeeds.scratch .vectorString []
        have none : elementsLength [] ≤ dest.mBuffer.length := Nat.zero_le _
        rw [allocateBufferMemory_of_le none, empty, List.length_nil,
          List.length_eq_zero_iff] at length
        subst length
        refine ⟨.nullArg, ?_⟩
        simp only [List.map_nil, afterPreparing, Traced.result_bind, prepared, Option.bind_some,
          if_true, Mutation.perform]
        rw [updateField_null (.inl rfl), ← empty]
        rfl

/-- A field that is passed over leaves the destination alone. -/
theorem applyField_passedOver [MamaLibrary] (succeeds : memory.update.Succeeds)
    (type : field.mFieldType = entry.type)
    (handled : dataLayout entry.type ≠ .unlisted → entry.HandledBy src field)
    (passed : entry.PassedOver (results.mSubPayload ≠ none)
      (results.mVectorString ≠ [] ∧ dest.mBuffer ≠ [])) :
    (applyField memory src field dest name results).result = some (dest, results) := by
  unfold FieldEntry.PassedOver at passed
  cases named : fieldTypeOf entry.type with
  | none =>
      simp only [applyField, type, named]
      rfl
  | some name =>
      simp only [named] at passed
      simp only [applyField, type, named]
      cases name with
      | msg =>
          obtain ⟨empty, unkept⟩ := passed
          have msg : entry.type = tag .msg := (tag_of_fieldTypeOf named).symm
          have shown := handled (msg ▸ dataLayout_tag .msg (by simp))
          obtain ⟨offset, rest, pointer, -⟩ := shown.data
          have read := shown.getMsg_eq memory.getter msg pointer results
          rw [empty, List.length_nil, fillSubPayload_zero] at read
          simp only [applyMsg, read, Traced.result_bind, Option.map_some, Option.bind_some,
            not_not.mp unkept, updateSubMsg, Option.map_none, updateField_null (.inl rfl),
            Traced.result_pure]
          rw [← not_not.mp unkept]
      | vectorString =>
          obtain ⟨empty, unkept⟩ := passed
          have strings : entry.type = tag .vectorString := (tag_of_fieldTypeOf named).symm
          have shown := handled (strings ▸ dataLayout_tag .vectorString (by simp))
          have zero : field.mSize = 0 := by rw [shown.size, empty, List.length_nil]
          have read : (omnmmsgFieldPayload_getVectorString memory.getter src field results).result =
              some (.ok, (results.mVectorString, 0), results) := by
            rw [omnmmsgFieldPayload_getVectorString, if_pos zero]
            rfl
          have loaded : (loadStringArray src results.mVectorString 0).result =
              some (if results.mVectorString = [] then none else some []) := by
            rw [loadStringArray]
            split <;> rfl
          obtain ⟨status, updated⟩ := @updateVectorString_nothing _ memory dest name succeeds
            field.mFid (if results.mVectorString = [] then none else some []) (by
              by_cases null : results.mVectorString = []
              · exact .inl (if_pos null)
              · exact .inr ⟨if_neg null, not_not.mp fun filled => unkept ⟨null, filled⟩⟩)
          simp only [applyVectorString, read, loaded, Traced.result_bind, Option.bind_some, updated,
            Traced.result_pure]
      | quantity | collection | vectorMsg | vectorTime | vectorPrice | unknown => rfl
      | _ => exact passed.elim

end

end Omnm
