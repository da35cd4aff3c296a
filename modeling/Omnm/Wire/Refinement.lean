import Omnm.Wire.Representation

/-!
# The mutators refine the message operations

From a payload that represents a message, `clear`, `addField` and `updateField`
return the status of the message operation and leave a payload that represents
its result (`clear`, `addField`, `updateField` below). They stay inside the
buffer and move exactly the bytes behind the field that changes its length.

An update needs one thing more than the message operation says: a field that is
found with another, castable type must lay its data out in the same way, since
the type that stands in the buffer is not changed (`SameLayout`).
-/

set_option autoImplicit false

namespace Omnm

variable [FieldTypeTags]

/-- A mutator call that keeps step with a message operation. -/
structure KeepsStep (msg : OmnmPayloadImpl) (call : Traced Region (MamaStatus × OmnmPayloadImpl))
    (outcome : MamaStatus × Message) (next : OmnmPayloadImpl) : Prop where
  result : call.result = some (outcome.1, next)
  represents : next.Represents outcome.2
  grows : msg.mPayloadBufferSize ≤ next.mPayloadBufferSize
  scratch : next.mBuffer = msg.mBuffer
  every : Traced.Every (Access.Within next.mPayloadBufferSize msg.mPayloadBufferTail) call

/-- Reads below the tail before a call change nothing about it. -/
theorem KeepsStep.afterReads {α : Type} {msg next : OmnmPayloadImpl}
    {outcome : MamaStatus × Message} {reads : Traced Region α} {value : α}
    {rest : α → Traced Region (MamaStatus × OmnmPayloadImpl)}
    (keeps : KeepsStep msg (rest value) outcome next) (returned : reads.result = some value)
    (every : Traced.Every (Access.ReadsBelow msg.mPayloadBufferTail) reads)
    (inside : msg.mPayloadBufferTail ≤ msg.mPayloadBufferSize) :
    KeepsStep msg (reads >>= rest) outcome next where
  result := by rw [Traced.result_bind, returned, Option.bind_some, keeps.result]
  represents := keeps.represents
  grows := keeps.grows
  scratch := keeps.scratch
  every := by
    rw [Traced.every_bind]
    refine ⟨every.mono fun _ below => below.within (inside.trans keeps.grows), ?_⟩
    intro other same
    cases returned.symm.trans same
    exact keeps.every

/-- An update that finds a field of a castable type finds one that lays its data out
as the given type does. -/
def Message.SameLayout (message : Message) (name : Option CString) (fid : UInt16)
    (type : UInt8) : Prop :=
  ∀ entry, message.find name fid = some entry → areFieldTypesCastable entry.type type = true →
    dataLayout entry.type = dataLayout type

/-- There is room for data under a key: a field that is found keeps its length, or the message ends
below 2 GiB, and a field that is added has a name whose length fits an `int`. -/
def Message.HasRoom (message : Message) (name : Option CString) (fid : UInt16)
    (bytes : List UInt8) : Prop :=
  match message.find name fid with
  | none => rejection name fid bytes = none → strlenEx name + 1 < 2 ^ 31
  | some old => bytes.length = old.data.length ∨ message.encode.length < 2 ^ 31

instance (message : Message) (name : Option CString) (fid : UInt16) (bytes : List UInt8) :
    Decidable (message.HasRoom name fid bytes) := by
  unfold Message.HasRoom
  split <;> infer_instance

/-- What `addField` writes for a listed type is the wire form of the field. -/
theorem writtenField_eq_encode {type : UInt8} (listed : dataLayout type ≠ .unlisted)
    (fid : UInt16) (name : CString) (data : List UInt8) :
    writtenField type fid name data = (FieldEntry.mk type fid name data).encode := by
  have length := @writtenLength_eq _ ⟨type, fid, name, data⟩ listed data
  dsimp only at length
  rw [writtenField, length, FieldEntry.encode, FieldEntry.head]

/-- The message operation rejects what the mutator rejects. -/
theorem Message.addField_eq (message : Message) (name : Option CString) (fid : UInt16)
    {type : UInt8} (listed : dataLayout type ≠ .unlisted) {bytes : List UInt8}
    (fits : DataFits type bytes) :
    message.addField name fid ⟨type, listed, some ⟨bytes, fits⟩⟩ =
      match rejection name fid bytes with
      | some status => (status, message)
      | none => (.ok, message.append ⟨type, fid, name.getD CString.empty, bytes⟩ fits) := by
  have long : 2 ^ 32 ≤ bytes.length ↔ uint32Max < bytes.length := by
    rw [uint32Max]
    omega
  simp only [Message.addField, rejection, long]
  split_ifs <;> rfl

namespace OmnmPayloadImpl.Represents

variable {msg : OmnmPayloadImpl} {message : Message} {allocator : Allocator}
  {name : Option CString} {fid : UInt16} {data : FieldData}

theorem keepsStep_of_rejected (represents : msg.Represents message) (status : MamaStatus) :
    KeepsStep msg (pure (status, msg)) (status, message) msg where
  result := rfl
  represents := represents
  grows := Nat.le_refl _
  scratch := rfl
  every := Traced.every_pure _

/-- A payload with other bytes and the same header record. -/
theorem of_buffer (represents : msg.Represents message) {changed : Message} {slack : List UInt8}
    (version : changed.version = message.version) (extra : changed.extra = message.extra) :
    Represents { msg with
      mPayloadBuffer := changed.encode ++ slack
      mPayloadBufferTail := changed.encode.length } changed where
  buffer := ⟨slack, rfl⟩
  tail := rfl
  version := by rw [version, ← represents.version]
  remaining := by rw [extra, ← represents.remaining]

/-! ## Clearing -/

/-- `clear` makes any payload with room for a header hold the empty message. -/
theorem clear (msg : OmnmPayloadImpl) (room : 3 ≤ msg.mPayloadBufferSize) :
    ∃ next, KeepsStep msg msg.clear (.ok, Message.empty) next := by
  obtain ⟨result, every⟩ := clear_eq room msg.mPayloadBufferTail
  have size := cleared_size room
  exact ⟨msg.cleared, result, ⟨⟨_, rfl⟩, rfl, rfl, rfl⟩, Nat.le_of_eq size.symm, rfl,
    size.symm ▸ every⟩

/-! ## Adding -/

/-- The bytes of the message with one more field. -/
theorem length_encode_append (represents : msg.Represents message) {type : UInt8}
    (listed : dataLayout type ≠ .unlisted) {bytes : List UInt8} (fits : DataFits type bytes) :
    (message.append ⟨type, fid, name.getD CString.empty, bytes⟩ fits).encode.length =
      msg.mPayloadBufferTail + (writtenField type fid (name.getD CString.empty) bytes).length := by
  rw [Message.encode_append, List.length_append, represents.tail,
    writtenField_eq_encode listed fid (name.getD CString.empty) bytes]

/-- An accepted field is appended. -/
theorem append (represents : msg.Represents message) (succeeds : allocator.Succeeds) {type : UInt8}
    (listed : dataLayout type ≠ .unlisted) {bytes : List UInt8} (fits : DataFits type bytes)
    (accepted : Accepted name fid bytes) (short : strlenEx name + 1 < 2 ^ 31)
    (small : (message.append ⟨type, fid, name.getD CString.empty, bytes⟩ fits).encode.length <
      2 ^ 64) :
    ∃ next, KeepsStep msg (msg.addField allocator type name fid (some bytes))
      (.ok, message.append ⟨type, fid, name.getD CString.empty, bytes⟩ fits) next := by
  have written : writtenField type fid (name.getD CString.empty) bytes =
      (FieldEntry.mk type fid (name.getD CString.empty) bytes).encode :=
    writtenField_eq_encode listed ..
  have behind := (@length_encode_append _ _ _ name fid represents type listed bytes fits).symm
  obtain ⟨slack, result, grows, every⟩ := addField_of_accepted accepted succeeds short
    (behind ▸ small) represents.tail_le
  have appended : msg.serialized ++ writtenField type fid (name.getD CString.empty) bytes =
      (message.append ⟨type, fid, name.getD CString.empty, bytes⟩ fits).encode := by
    rw [represents.serialized_eq, written, Message.encode_append]
  rw [appended] at result grows
  rw [behind] at result every
  refine ⟨_, result, represents.of_buffer rfl rfl, grows, rfl, ?_⟩
  refine every.mono fun _ within => within.mono ?_
  rw [mPayloadBufferSize, List.length_append]
  exact Nat.le_add_right ..

/-- An accepted field of a type with a length is appended to a payload that an object can hold. -/
theorem append_sized (represents : msg.Represents message) (succeeds : allocator.Succeeds)
    {type : UInt8} (sized : dataLayout type = .sized) {bytes : List UInt8}
    (accepted : Accepted name fid bytes) (short : strlenEx name + 1 < 2 ^ 31)
    (below : msg.mPayloadBufferTail < 2 ^ 63) :
    ∃ (fits : DataFits type bytes) (next : OmnmPayloadImpl),
      KeepsStep msg (msg.addField allocator type name fid (some bytes))
        (.ok, message.append ⟨type, fid, name.getD CString.empty, bytes⟩ fits) next := by
  have four : bytes.length < 2 ^ 32 := Nat.lt_succ_of_le accepted.length_le
  have fits : DataFits type bytes := by simpa only [DataFits, sized] using four
  refine ⟨fits, represents.append succeeds (by rw [sized]; simp) fits accepted short ?_⟩
  have wide := FieldEntry.length_encode ⟨type, fid, name.getD CString.empty, bytes⟩
  have lengthPart : (FieldEntry.lengthPart
      ⟨type, fid, name.getD CString.empty, bytes⟩).length ≤ 4 := by
    rw [FieldEntry.lengthPart]
    split <;> simp
  rw [strlenEx_eq, CString.length_terminated] at short
  rw [Message.encode_append, List.length_append, ← represents.tail]
  dsimp only at wide
  omega

/-- What `addField` accepts is appended, if the length of its name fits an `int`. -/
theorem addField_of_short (represents : msg.Represents message) (succeeds : allocator.Succeeds)
    {type : UInt8} (listed : dataLayout type ≠ .unlisted) {bytes : List UInt8}
    (fits : DataFits type bytes) (short : rejection name fid bytes = none → strlenEx name + 1 < 2 ^ 31)
    (below : (message.addField name fid ⟨type, listed, some ⟨bytes, fits⟩⟩).2.encode.length <
      2 ^ 64) :
    ∃ next, KeepsStep msg (msg.addField allocator type name fid (some bytes))
      (message.addField name fid ⟨type, listed, some ⟨bytes, fits⟩⟩) next := by
  rw [message.addField_eq name fid listed fits] at below ⊢
  cases rejected : rejection name fid bytes with
  | some status =>
      have nothing : msg.addField allocator type name fid (some bytes) = pure (status, msg) :=
        addField_of_rejection rejected
      exact ⟨msg, nothing ▸ represents.keepsStep_of_rejected status⟩
  | none =>
      simp only [rejected] at below
      exact represents.append succeeds listed fits (accepted_iff_rejection.mpr rejected)
        (short rejected) below

/-- A field of a message below 2 GiB has a name whose length fits an `int`. -/
theorem short_of_small {type : UInt8} {listed : dataLayout type ≠ .unlisted} {bytes : List UInt8}
    {fits : DataFits type bytes}
    (small : (message.addField name fid ⟨type, listed, some ⟨bytes, fits⟩⟩).2.encode.length <
      2 ^ 31) (accepted : rejection name fid bytes = none) : strlenEx name + 1 < 2 ^ 31 := by
  have whole := FieldEntry.length_encode ⟨type, fid, name.getD CString.empty, bytes⟩
  rw [message.addField_eq name fid listed fits, accepted] at small
  simp only [Message.encode_append, List.length_append] at small
  rw [strlenEx_eq, CString.length_terminated]
  dsimp only at whole
  omega

theorem addField (represents : msg.Represents message) (succeeds : allocator.Succeeds)
    (small : (message.addField name fid data).2.encode.length < 2 ^ 31) :
    ∃ next, KeepsStep msg (msg.addField allocator data.type name fid data.bytes)
      (message.addField name fid data) next := by
  obtain ⟨type, listed, value⟩ := data
  cases value with
  | none =>
      refine ⟨msg, ?_⟩
      show KeepsStep msg (msg.addField allocator type name fid none) _ _
      rw [addField_null]
      exact represents.keepsStep_of_rejected .nullArg
  | some value =>
      obtain ⟨bytes, fits⟩ := value
      exact represents.addField_of_short succeeds listed fits (short_of_small small) (by omega)

/-! ## Updating -/

/-- The bytes of a message around the data of one field. -/
theorem encode_split {before after : List FieldEntry} {entry : FieldEntry}
    (split : message.entries = before ++ entry :: after) :
    message.encode = message.header ++ encodeAll before ++ ([entry.type] ++
      littleEndian 2 entry.fid.toNat ++ entry.name.terminated) ++ entry.lengthPart ++ entry.data ++
      encodeAll after := by
  rw [Message.encode, split, encodeAll_append, encodeAll_cons, FieldEntry.encode, FieldEntry.head]
  simp only [List.append_assoc]

/-- The data of a field end at the tail or before. -/
theorem data_below_tail (represents : msg.Represents message) {before after : List FieldEntry}
    {entry : FieldEntry} (split : message.entries = before ++ entry :: after) :
    message.header.length + (encodeAll before).length + entry.head.length + entry.data.length ≤
      msg.mPayloadBufferTail := by
  rw [represents.tail, encode_split split, FieldEntry.head]
  simp only [List.length_append]
  omega

/-- The handle of a field of a listed type locates it. -/
theorem located (represents : msg.Represents message) {before after : List FieldEntry}
    {entry : FieldEntry} (split : message.entries = before ++ entry :: after)
    (listed : dataLayout entry.type ≠ .unlisted) (previous : BufferPtr) :
    ∃ slack, msg.Located
      (entry.handle (message.header.length + (encodeAll before).length) previous)
      (message.header ++ encodeAll before ++ ([entry.type] ++ littleEndian 2 entry.fid.toNat ++
        entry.name.terminated)) entry.lengthPart entry.data (encodeAll after) slack := by
  obtain ⟨slack, buffer⟩ := represents.buffer
  have whole : message.encode = message.header ++ encodeAll before ++ entry.encode ++
      encodeAll after := by
    rw [Message.encode, split, encodeAll_append, encodeAll_cons]
    simp only [List.append_assoc]
  have place : (message.header ++ encodeAll before).length =
      message.header.length + (encodeAll before).length := List.length_append
  refine ⟨slack, place ▸ located_of_buffer listed (whole ▸ buffer) ?_ previous⟩
  rw [represents.tail, whole, List.length_append, List.length_append]

/-- The data that replaces that of a field is part of the message. -/
theorem length_le_replace {before after : List FieldEntry} {entry : FieldEntry}
    (split : message.entries = before ++ entry :: after) (found : entry.hasKey name fid = true)
    (none : ∀ other ∈ before, other.hasKey name fid = false) {bytes : List UInt8}
    (fits : DataFits entry.type bytes) :
    bytes.length ≤ (message.replace name fid bytes).encode.length := by
  rw [encode_split (Message.entries_replace split found none fits)]
  simp only [List.length_append]
  omega

/-- Updating a field of the message through its handle. -/
theorem updateFieldHandle (represents : msg.Represents message) (succeeds : allocator.Succeeds)
    {before after : List FieldEntry} {entry : FieldEntry}
    (split : message.entries = before ++ entry :: after) (found : entry.hasKey name fid = true)
    (none : ∀ other ∈ before, other.hasKey name fid = false) {type : UInt8}
    (castable : ¬ (entry.type ≠ type ∧ areFieldTypesCastable entry.type type = false))
    (listed : dataLayout entry.type ≠ .unlisted) {bytes : List UInt8}
    (fits : DataFits entry.type bytes)
    (exact : bytes.length = entry.data.length ∨ msg.mPayloadBufferTail < 2 ^ 31)
    (short : bytes.length < 2 ^ 63) (previous : BufferPtr) :
    ∃ next field, (msg.updateFieldHandle allocator type (entry.handle
          (message.header.length + (encodeAll before).length) previous) (some bytes)).result =
        some (.ok, next, field) ∧
      next.Represents (message.replace name fid bytes) ∧
      msg.mPayloadBufferSize ≤ next.mPayloadBufferSize ∧ next.mBuffer = msg.mBuffer ∧
      Traced.Every (Access.Within next.mPayloadBufferSize msg.mPayloadBufferTail)
        (msg.updateFieldHandle allocator type (entry.handle
          (message.header.length + (encodeAll before).length) previous) (some bytes)) := by
  have replaced := encode_split (Message.entries_replace split found none fits)
  have written := writtenLength_eq listed bytes
  obtain ⟨slack, located⟩ := represents.located split listed previous
  obtain ⟨slack', moved, result, grows, every⟩ := updateFieldHandle_eq located bytes castable
    exact succeeds short
  have sameLength : (FieldEntry.lengthPart { entry with data := bytes }).length =
      entry.lengthPart.length := FieldEntry.length_lengthPart_eq rfl
  have newTail : (message.replace name fid bytes).encode.length =
      (message.header ++ encodeAll before ++ ([entry.type] ++ littleEndian 2 entry.fid.toNat ++
        entry.name.terminated)).length + entry.lengthPart.length + bytes.length +
        (encodeAll after).length := by
    rw [replaced, ← sameLength]
    simp only [List.length_append]
    rfl
  have newSize : (message.header ++ encodeAll before ++ ([entry.type] ++
      littleEndian 2 entry.fid.toNat ++ entry.name.terminated) ++ entry.lengthPart ++ bytes ++
      encodeAll after ++ slack').length =
        ((message.replace name fid bytes).encode ++ slack').length := by
    simp only [List.length_append] at newTail ⊢
    rw [newTail]
  rw [FieldEntry.handle_mFieldType, written, ← newTail] at result
  rw [newSize] at grows every
  have bytes_eq : (message.replace name fid bytes).encode = message.header ++ encodeAll before ++
      ([entry.type] ++ littleEndian 2 entry.fid.toNat ++ entry.name.terminated) ++
      FieldEntry.lengthPart { entry with data := bytes } ++ bytes ++ encodeAll after := replaced
  rw [← bytes_eq] at result
  exact ⟨_, _, result, represents.of_buffer rfl rfl, grows, rfl, every⟩

/-- Data of a type with the same layout fits. -/
theorem dataFits_of_layout {type other : UInt8} {bytes : List UInt8}
    (same : dataLayout other = dataLayout type) (fits : DataFits type bytes) :
    DataFits other bytes := by
  rw [DataFits, same]
  exact fits

/-- An update for which there is room keeps step with the message operation. -/
theorem updateField_of_room (represents : msg.Represents message) (succeeds : allocator.Succeeds)
    {type : UInt8} (listed : dataLayout type ≠ .unlisted) {bytes : List UInt8}
    (fits : DataFits type bytes) (layout : message.SameLayout name fid type)
    (room : message.HasRoom name fid bytes)
    (below : (message.updateField name fid ⟨type, listed, some ⟨bytes, fits⟩⟩).2.encode.length <
      2 ^ 63) :
    ∃ next, KeepsStep msg (msg.updateField allocator type name fid (some bytes))
      (message.updateField name fid ⟨type, listed, some ⟨bytes, fits⟩⟩) next := by
  by_cases noKey : name = none ∧ fid = 0
  · refine ⟨msg, ?_⟩
    have outcome : message.updateField name fid ⟨type, listed, some ⟨bytes, fits⟩⟩ =
        (.nullArg, message) := by
      simp only [Message.updateField, if_pos noKey]
    rw [outcome, updateField_null (.inr noKey)]
    exact represents.keepsStep_of_rejected .nullArg
  · have reads := represents.decodes.every_findFieldInBuffer name fid
    rw [Message.HasRoom] at room
    simp only [Message.updateField, if_neg noKey] at below ⊢
    rw [updateField_eq noKey bytes]
    rcases represents.findFieldInBuffer name fid with ⟨absent, search⟩ |
      ⟨before, entry, after, previous, split, found, matching, absent, search⟩
    · rw [absent] at below room ⊢
      obtain ⟨next, keeps⟩ := represents.addField_of_short succeeds listed fits room
        (below.trans (by omega))
      refine ⟨next, KeepsStep.afterReads ?_ search reads represents.tail_le⟩
      exact keeps
    · rw [found] at below room ⊢
      simp only at below room ⊢
      by_cases castable : entry.type ≠ type ∧ areFieldTypesCastable entry.type type = false
      · refine ⟨msg, KeepsStep.afterReads ?_ search reads represents.tail_le⟩
        rw [updateFound_refused castable, if_pos castable]
        exact represents.keepsStep_of_rejected .wrongFieldType
      · rw [if_neg castable] at below ⊢
        have sameLayout : dataLayout entry.type = dataLayout type := by
          by_cases same : entry.type = type
          · rw [same]
          · exact layout entry found (by simpa [same] using castable)
        have fits' := dataFits_of_layout sameLayout fits
        have shorter : bytes.length < 2 ^ 63 :=
          (length_le_replace split matching absent fits').trans_lt below
        obtain ⟨next, field, result, replaced, grows, scratch, every⟩ :=
          represents.updateFieldHandle succeeds split matching absent castable
            (sameLayout ▸ listed) fits' (represents.tail ▸ room) shorter previous
        refine ⟨next, KeepsStep.afterReads ?_ search reads represents.tail_le⟩
        rw [updateFound_castable castable]
        refine ⟨?_, replaced, grows, scratch, ?_⟩
        · rw [Traced.result_bind, result]
          rfl
        · rw [Traced.every_bind]
          exact ⟨every, fun _ _ => Traced.every_pure _⟩

/-- There is room below 2 GiB. -/
theorem hasRoom_of_small {type : UInt8} {listed : dataLayout type ≠ .unlisted} {bytes : List UInt8}
    {fits : DataFits type bytes} (small : message.encode.length < 2 ^ 31)
    (smallAfter : (message.updateField name fid ⟨type, listed, some ⟨bytes, fits⟩⟩).2.encode.length <
      2 ^ 31) : message.HasRoom name fid bytes := by
  rw [Message.HasRoom]
  cases absent : message.find name fid with
  | some old => exact .inr small
  | none =>
      by_cases noKey : name = none ∧ fid = 0
      · intro _
        rw [noKey.1]
        decide
      · simp only [Message.updateField, if_neg noKey, absent] at smallAfter
        exact short_of_small smallAfter

theorem updateField (represents : msg.Represents message) (succeeds : allocator.Succeeds)
    (layout : message.SameLayout name fid data.type)
    (small : message.encode.length < 2 ^ 31)
    (smallAfter : (message.updateField name fid data).2.encode.length < 2 ^ 31) :
    ∃ next, KeepsStep msg (msg.updateField allocator data.type name fid data.bytes)
      (message.updateField name fid data) next := by
  obtain ⟨type, listed, value⟩ := data
  cases value with
  | none =>
      refine ⟨msg, ?_⟩
      show KeepsStep msg (msg.updateField allocator type name fid none) _ _
      rw [updateField_null (.inl rfl)]
      exact represents.keepsStep_of_rejected .nullArg
  | some value =>
      obtain ⟨bytes, fits⟩ := value
      exact represents.updateField_of_room succeeds listed fits layout
        (hasRoom_of_small small smallAfter) (by omega)

end OmnmPayloadImpl.Represents

end Omnm
