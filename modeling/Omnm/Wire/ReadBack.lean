import Omnm.Wire.KeyedCalls

/-!
# What a getter gives for a field that was written

A request that is accepted under a key without a field, or an update of a field
of its own type, makes the data that it stands for those of the first field with
the key (`Message.holds_mutate`). For each request there is a getter that
gives back the value (`FieldRequest.readBack`): the value itself, or for
date-times and prices the value that their wire form stands for.
-/

set_option autoImplicit false

namespace Omnm

open FieldTypeTags (tag)

/-! ## The first field behind a write -/

/-- The type and the data that a mutation writes. -/
def Mutation.written : Mutation → Option (MamaFieldType × List UInt8)
  | .refuse _ => none
  | .add type data | .update type data => data.map fun bytes => (type, bytes)
  | .updateVector type bytes => some (type, bytes)

/-- An update writes data of the type under which it updates. -/
theorem Mutation.type_of_written {mutation : Mutation} {type updated : MamaFieldType}
    {bytes : List UInt8} (written : mutation.written = some (type, bytes))
    (updates : mutation.updates = some updated) : updated = type := by
  cases mutation with
  | refuse status => cases written
  | add type' data => cases updates
  | update type' data =>
      obtain ⟨bytes', -, same⟩ := Option.map_eq_some_iff.mp written
      cases same
      exact (Option.some.inj updates).symm
  | updateVector type' bytes' =>
      cases written
      exact (Option.some.inj updates).symm

section

variable [FieldTypeTags] {message : Message} {key : FieldKey} {type : MamaFieldType}
  {bytes : List UInt8}

/-- The first field with a key holds data of a type. -/
def Message.Holds (message : Message) (key : FieldKey) (type : MamaFieldType) (bytes : List UInt8) :
    Prop :=
  ∃ entry, message.first key = some entry ∧ entry.type = tag type ∧ entry.data = bytes

theorem FieldData.of_eq_some {data : FieldData} (given : FieldData.of type bytes = some data) :
    ∃ listed fits, data = ⟨tag type, listed, some ⟨bytes, fits⟩⟩ := by
  unfold FieldData.of at given
  split at given
  · rename_i shaped
    exact ⟨shaped.1, shaped.2, (Option.some.inj given).symm⟩
  · cases given

theorem Message.holds_addField {listed : dataLayout (tag type) ≠ .unlisted}
    {fits : DataFits (tag type) bytes} (absent : message.first key = none)
    (ok : (message.addField key.1 key.2 ⟨tag type, listed, some ⟨bytes, fits⟩⟩).1 = .ok) :
    (message.addField key.1 key.2 ⟨tag type, listed, some ⟨bytes, fits⟩⟩).2.Holds key type bytes := by
  simp only [Message.addField] at ok ⊢
  split_ifs at ok ⊢
  cases accepted : validateNameFid key.1 key.2 with
  | some status =>
      rw [accepted] at ok
      have refused : status = .ok := ok
      exact absurd (refused ▸ accepted) validateNameFid_ne_ok
  | none =>
      exact ⟨_, Message.find_append absent fits (hasKey_of_validateNameFid accepted), rfl, rfl⟩

theorem Message.holds_replace {entry : FieldEntry} (found : message.first key = some entry)
    (same : entry.type = tag type) (fits : DataFits (tag type) bytes) :
    (message.replace key.1 key.2 bytes).Holds key type bytes := by
  have first := Message.first_change message key key (.replace bytes)
  rw [Effect.first, if_pos rfl, found, Option.map_some,
    FieldEntry.withData_of_fits (same ▸ fits)] at first
  exact ⟨_, first, same, rfl⟩

theorem Message.holds_updateField {listed : dataLayout (tag type) ≠ .unlisted}
    {fits : DataFits (tag type) bytes}
    (takes : ∀ entry, message.first key = some entry → entry.type = tag type)
    (ok : (message.updateField key.1 key.2 ⟨tag type, listed, some ⟨bytes, fits⟩⟩).1 = .ok) :
    (message.updateField key.1 key.2 ⟨tag type, listed, some ⟨bytes, fits⟩⟩).2.Holds key type
      bytes := by
  cases found : message.find key.1 key.2 with
  | none =>
      simp only [Message.updateField, found] at ok ⊢
      split_ifs at ok ⊢
      exact Message.holds_addField found ok
  | some entry =>
      simp only [Message.updateField, found] at ok ⊢
      split_ifs at ok ⊢
      exact Message.holds_replace found (takes entry found) fits

/-- What was accepted had data of the form that the type prescribes. -/
theorem FieldData.holds_elim {serve : FieldData → MamaStatus × Message}
    (each : ∀ (listed : dataLayout (tag type) ≠ .unlisted) (fits : DataFits (tag type) bytes),
      (serve ⟨tag type, listed, some ⟨bytes, fits⟩⟩).1 = .ok →
        (serve ⟨tag type, listed, some ⟨bytes, fits⟩⟩).2.Holds key type bytes)
    (ok : ((FieldData.of type bytes).elim (.invalidArg, message) serve).1 = .ok) :
    ((FieldData.of type bytes).elim (.invalidArg, message) serve).2.Holds key type bytes := by
  cases given : FieldData.of type bytes with
  | none =>
      rw [given] at ok
      cases ok
  | some data =>
      obtain ⟨listed, fits, rfl⟩ := FieldData.of_eq_some given
      rw [given] at ok
      exact each listed fits ok

/-- A mutation that is accepted where its key finds nothing, or an update that finds a field of its
type, leaves its data under the key. -/
theorem Message.holds_mutate {mutation : Mutation} (written : mutation.written = some (type, bytes))
    (takes : ∀ entry, message.first key = some entry →
      mutation.updates ≠ none ∧ entry.type = tag type)
    (ok : (message.mutate key.1 key.2 mutation).1 = .ok) :
    (message.mutate key.1 key.2 mutation).2.Holds key type bytes := by
  cases mutation with
  | refuse status => cases written
  | add type' data =>
      obtain ⟨bytes', rfl, same⟩ := Option.map_eq_some_iff.mp written
      cases same
      have absent : message.first key = none := by
        cases found : message.first key with
        | none => rfl
        | some entry => exact absurd rfl (takes entry found).1
      exact FieldData.holds_elim (fun _ _ => Message.holds_addField absent) ok
  | update type' data =>
      obtain ⟨bytes', rfl, same⟩ := Option.map_eq_some_iff.mp written
      cases same
      exact FieldData.holds_elim
        (fun _ _ => Message.holds_updateField fun entry found => (takes entry found).2) ok
  | updateVector type' bytes' =>
      cases written
      refine FieldData.holds_elim (fun listed fits ok => ?_) ok
      cases found : message.find key.1 key.2 with
      | none =>
          simp only [found] at ok ⊢
          exact Message.holds_addField found ok
      | some entry =>
          have same := (takes entry found).2
          have keyed : ¬ (key.1 = none ∧ key.2 = 0) := by
            intro null
            have accepted := validateNameFid_of_hasKey (List.find?_some found)
            exact not_none_of_validateNameFid accepted null
          simp only [Message.updateField, found, if_neg keyed, same, ne_eq, not_true_eq_false,
            false_and, if_false]
          exact Message.holds_replace found same fits

end

/-! ## Reading back -/

/-- The read that gives back what a request wrote, and what it gives. The messages of a vector
come back when they have headers and one length, as the getter reads them. -/
def FieldRequest.readBack (memory : GetterMemory) (name : Option CString) (fid : UInt16) :
    FieldRequest → Option (ReadCall × Observation)
  | .addScalar scalar value | .updateScalar scalar value =>
      some (.getScalar scalar name fid, .scalar .ok (some (value % 256 ^ scalar.size)))
  | .addVectorScalar scalar value | .updateVectorScalar scalar value =>
      value.map fun values =>
        (.getVectorScalar scalar name fid, .bytes .ok (some (vectorBytes scalar.size values)))
  | .addString value | .updateString value =>
      value.map fun string => (.getString name fid, .bytes .ok (some string.bytes))
  | .addOpaque value | .updateOpaque value =>
      value.map fun bytes => (.getOpaque name fid, .bytes .ok (some bytes))
  | .addDateTime value | .updateDateTime value =>
      value.map fun value => (.getDateTime name fid, .dateTime .ok
        (some (convertOmnmDateTimeToMamaDateTime (convertMamaDateTimeToOmnmDateTime value))))
  | .addPrice value | .updatePrice value =>
      value.map fun value => (.getPrice name fid, .price .ok
        (some (convertOmnmPriceToMamaPrice (convertMamaPriceToOmnmPrice value))))
  | .addMsg value | .updateSubMsg value =>
      value.bind fun value =>
        match value.payload with
        | .error _ => none
        | .ok payload =>
            if HeaderAhead payload.serialized then
              some (.getMsg memory name fid, .bytes .ok (some payload.serialized))
            else none
  | .addVectorString value | .updateVectorString value =>
      value.map fun strings =>
        (.getVectorString memory name fid, .strings .ok (some (strings.map CString.bytes)))
  | .addVectorMsg value | .updateVectorMsg value =>
      value.map fun messages =>
        (.getVectorMsg memory name fid,
          .messages .ok (some ((messages.map MamaMsg.byteBuffer).map some)))
  | .updateVectorMsgPayload value =>
      value.map fun payloads =>
        (.getVectorMsg memory name fid,
          .messages .ok (some ((payloads.map OmnmPayloadImpl.serialized).map some)))
  | .addVectorDateTime value | .updateVectorTime value =>
      value.map fun values =>
        (.getVectorDateTime memory name fid, .dateTimes .ok (some (values.map fun value =>
          some (convertOmnmDateTimeToMamaDateTime (convertMamaDateTimeToOmnmDateTime value)))))
  | .addVectorPrice value | .updateVectorPrice value =>
      value.map fun values =>
        (.getVectorPrice memory name fid, .prices .ok (some (values.map fun value =>
          some (convertOmnmPriceToMamaPrice (convertMamaPriceToOmnmPrice value)))))

/-- The records of one width, one behind the other, are what was put there. -/
theorem wholeRecords_flatten {width : Nat} (positive : 0 < width) {records : List (List UInt8)}
    (wide : ∀ record ∈ records, record.length = width) :
    wholeRecords width records.flatten = records := by
  have progress : ∀ record : List UInt8, (Decoder.block width).Good record →
      (Decoder.block width).encode record ≠ [] := by
    intro record whole none
    have length : record.length = width := whole
    rw [show record = [] from none, List.length_nil] at length
    omega
  have whole : records.flatten.length / width * width = records.flatten.length := by
    rw [length_flatten_of_width wide, Nat.mul_div_cancel _ positive]
  refine (Decoder.block width).flatMap_encode_inj progress
    (fun record => length_of_mem_wholeRecords) wide ?_
  show (wholeRecords width records.flatten).flatMap id = records.flatMap id
  rw [List.flatMap_id, List.flatMap_id, flatten_wholeRecords, whole, List.take_length]

section

variable [FieldTypeTags] {message : Message} {name : Option CString} {fid : UInt16}
  {bytes : List UInt8}

theorem Message.Holds.lookup {Value : Type} {type : MamaFieldType} {missing : MamaStatus → Value}
    {given : FieldEntry → Value} (holds : message.Holds (name, fid) type bytes) :
    ∃ entry, entry.type = tag type ∧ entry.data = bytes ∧
      message.lookup name fid missing given = given entry := by
  obtain ⟨entry, found, type, data⟩ := holds
  have key : validateNameFid name fid = none := validateNameFid_of_hasKey (List.find?_some found)
  exact ⟨entry, type, data, Message.lookup_of_find key found⟩

namespace Message.Holds

variable [MamaLibrary] [FieldPrinting] {memory : GetterMemory}

theorem answer_getScalar {scalar : ScalarType} {value : Nat}
    (holds : message.Holds (name, fid) scalar.fieldType (littleEndian scalar.size value)) :
    message.answer (.getScalar scalar name fid) =
      .scalar .ok (some (value % 256 ^ scalar.size)) := by
  obtain ⟨entry, type, data, looked⟩ := holds.lookup
  have stored : storedScalar entry.type = some scalar := by
    rw [type, storedScalar, fieldTypeOf_tag]
    cases scalar <;> rfl
  have fits : ¬ scalar.size < (littleEndian scalar.size value).length := by
    rw [length_littleEndian]
    exact Nat.lt_irrefl _
  rw [Message.answer, looked]
  simp only [FieldEntry.asScalar, data, if_neg fits, stored, castScalar, if_true,
    littleEndianValue_littleEndian]

theorem answer_getVectorScalar {scalar : ScalarType} {values : List Nat} {type : MamaFieldType}
    (holds : message.Holds (name, fid) type (vectorBytes scalar.size values)) :
    message.answer (.getVectorScalar scalar name fid) =
      .bytes .ok (some (vectorBytes scalar.size values)) := by
  obtain ⟨entry, -, data, looked⟩ := holds.lookup
  have whole : (vectorBytes scalar.size values).length / scalar.size * scalar.size =
      (vectorBytes scalar.size values).length := by
    rw [length_vectorBytes, Nat.mul_div_cancel_left _ scalar.size_pos, Nat.mul_comm]
  rw [Message.answer, looked, data, whole, List.take_length]

theorem answer_getString {type : MamaFieldType} {string : CString}
    (holds : message.Holds (name, fid) type string.terminated) :
    message.answer (.getString name fid) = .bytes .ok (some string.bytes) := by
  obtain ⟨entry, -, data, looked⟩ := holds.lookup
  have same : CString.ofBytes string.terminated = string := by
    rw [← List.append_nil string.terminated, CString.ofBytes_terminated_append]
  rw [Message.answer, looked, data, same]

theorem answer_getOpaque {type : MamaFieldType} (holds : message.Holds (name, fid) type bytes) :
    message.answer (.getOpaque name fid) = .bytes .ok (some bytes) := by
  obtain ⟨entry, -, data, looked⟩ := holds.lookup
  rw [Message.answer, looked, data]

theorem answer_getDateTime (holds : message.Holds (name, fid) .time bytes) :
    message.answer (.getDateTime name fid) =
      .dateTime .ok (some (convertOmnmDateTimeToMamaDateTime bytes)) := by
  obtain ⟨entry, type, data, looked⟩ := holds.lookup
  rw [Message.answer, looked]
  simp only [FieldEntry.asDateTime, type, fieldTypeOf_tag, data]

theorem answer_getPrice (holds : message.Holds (name, fid) .price bytes) :
    message.answer (.getPrice name fid) =
      .price .ok (some (convertOmnmPriceToMamaPrice bytes)) := by
  obtain ⟨entry, type, data, looked⟩ := holds.lookup
  rw [Message.answer, looked]
  simp only [FieldEntry.asPrice, type, fieldTypeOf_tag, data]

theorem answer_getMsg (holds : message.Holds (name, fid) .msg bytes) (header : HeaderAhead bytes) :
    message.answer (.getMsg memory name fid) = .bytes .ok (some bytes) := by
  obtain ⟨entry, type, data, looked⟩ := holds.lookup
  have some_bytes : bytes ≠ [] := by
    intro none
    rw [none] at header
    exact absurd header.1 (by decide)
  rw [Message.answer, looked]
  simp only [FieldEntry.asMessage, type, data, if_neg some_bytes, if_pos header, ne_eq,
    not_true_eq_false, if_false]

theorem answer_getVectorString {type : MamaFieldType} {strings : List CString}
    (holds : message.Holds (name, fid) type (strings.map CString.terminated).flatten) :
    message.answer (.getVectorString memory name fid) =
      .strings .ok (some (strings.map CString.bytes)) := by
  obtain ⟨entry, -, data, looked⟩ := holds.lookup
  have taken : Decoder.terminatedString.takeAll entry.data = some strings :=
    takeAll_terminatedString_iff.mpr (data.trans List.flatMap_def.symm)
  rw [Message.answer, looked, taken]
  rfl

theorem answer_getVectorMsg {type : MamaFieldType} {messages : List (List UInt8)}
    (holds : message.Holds (name, fid) type (messageRecords messages))
    (short : ∀ bytes ∈ messages, bytes.length < 2 ^ 32) :
    message.answer (.getVectorMsg memory name fid) = .messages .ok (some (messages.map some)) := by
  obtain ⟨entry, -, data, looked⟩ := holds.lookup
  rw [Message.answer, looked, takeAll_counted_iff.mpr ⟨short, data⟩]
  rfl

theorem answer_getVectorDateTime {type : MamaFieldType} {values : List MamaDateTime}
    (holds : message.Holds (name, fid) type
      (values.map convertMamaDateTimeToOmnmDateTime).flatten) :
    message.answer (.getVectorDateTime memory name fid) =
      .dateTimes .ok (some (values.map fun value =>
        some (convertOmnmDateTimeToMamaDateTime (convertMamaDateTimeToOmnmDateTime value)))) := by
  obtain ⟨entry, -, data, looked⟩ := holds.lookup
  have wide : ∀ record ∈ values.map convertMamaDateTimeToOmnmDateTime,
      record.length = sizeofOmnmDateTime := by
    intro record member
    obtain ⟨value, -, rfl⟩ := List.mem_map.mp member
    exact length_of_dataFits dataLayout_time rfl (dataFits_dateTime value)
  have records := wholeRecords_flatten (by decide) wide
  rw [Message.answer, looked, data, records, List.map_map]
  rfl

theorem answer_getVectorPrice {type : MamaFieldType} {values : List MamaPrice}
    (holds : message.Holds (name, fid) type (values.map convertMamaPriceToOmnmPrice).flatten) :
    message.answer (.getVectorPrice memory name fid) =
      .prices .ok (some (values.map fun value =>
        some (convertOmnmPriceToMamaPrice (convertMamaPriceToOmnmPrice value)))) := by
  obtain ⟨entry, -, data, looked⟩ := holds.lookup
  have wide : ∀ record ∈ values.map convertMamaPriceToOmnmPrice,
      record.length = sizeofOmnmPrice := by
    intro record member
    obtain ⟨value, -, rfl⟩ := List.mem_map.mp member
    exact length_of_dataFits dataLayout_price rfl (dataFits_price value)
  have records := wholeRecords_flatten (by decide) wide
  rw [Message.answer, looked, data, records, List.map_map]
  rfl

end Message.Holds

omit [FieldTypeTags] in
/-- A vector that is written passes the check of its key. -/
theorem written_of_ofVector {type : MamaFieldType} {Value : Type} {value : Value}
    {mutation : Value → Mutation}
    (written : (ofVector name fid (some value) mutation).written = some (type, bytes)) :
    (mutation value).written = some (type, bytes) := by
  unfold ofVector at written
  split at written
  · cases written
  · exact written

omit [FieldTypeTags] in
/-- A vector of messages that is written has none that is too long. -/
theorem written_of_ofMessages {type : MamaFieldType} {records : List (List UInt8)}
    (written : (ofMessages records).written = some (type, bytes)) :
    (∀ bytes ∈ records, bytes.length < 2 ^ 32) ∧ type = .vectorMsg ∧
      bytes = messageRecords records := by
  unfold ofMessages at written
  split at written
  · cases written
  · rename_i short
    cases written
    exact ⟨by simpa [uint32Max, Nat.lt_succ_iff] using short, rfl, rfl⟩

variable [MamaLibrary] [FieldPrinting] {memory : GetterMemory}

/-- The read of what a request wrote gives it back. -/
theorem FieldRequest.answer_readBack {request : FieldRequest} {type : MamaFieldType}
    {read : ReadCall} {observation : Observation}
    (written : (request.mutation name fid).written = some (type, bytes))
    (holds : message.Holds (name, fid) type bytes)
    (back : request.readBack memory name fid = some (read, observation)) :
    message.answer read = observation := by
  cases request with
  | addScalar scalar value | updateScalar scalar value =>
      cases written
      cases back
      exact holds.answer_getScalar
  | addVectorScalar scalar value | updateVectorScalar scalar value =>
      obtain ⟨values, rfl, same⟩ := Option.map_eq_some_iff.mp back
      cases same
      simp only [FieldRequest.mutation, ofScalars, ofPointer] at written
      split at written
      · cases written
      · cases written
        exact holds.answer_getVectorScalar
  | addString value | updateString value =>
      obtain ⟨string, rfl, same⟩ := Option.map_eq_some_iff.mp back
      cases same
      cases written
      exact holds.answer_getString
  | addOpaque value | updateOpaque value =>
      obtain ⟨given, rfl, same⟩ := Option.map_eq_some_iff.mp back
      cases same
      cases written
      exact holds.answer_getOpaque
  | addDateTime value | updateDateTime value =>
      obtain ⟨given, rfl, same⟩ := Option.map_eq_some_iff.mp back
      cases same
      cases written
      exact holds.answer_getDateTime
  | addPrice value | updatePrice value =>
      obtain ⟨given, rfl, same⟩ := Option.map_eq_some_iff.mp back
      cases same
      cases written
      exact holds.answer_getPrice
  | addMsg value | updateSubMsg value =>
      obtain ⟨given, rfl, same⟩ := Option.bind_eq_some_iff.mp back
      simp only [FieldRequest.mutation, ofMsg, ofPointer] at written
      cases payload : given.payload with
      | error status =>
          rw [payload] at same
          cases same
      | ok payload' =>
          rw [payload] at same written
          dsimp only at same
          split at same
          · rename_i header
            cases same
            cases written
            exact holds.answer_getMsg header
          · cases same
  | addVectorString value | updateVectorString value =>
      obtain ⟨given, rfl, same⟩ := Option.map_eq_some_iff.mp back
      cases same
      cases written_of_ofVector written
      exact holds.answer_getVectorString
  | addVectorMsg value | updateVectorMsg value =>
      obtain ⟨given, rfl, same⟩ := Option.map_eq_some_iff.mp back
      cases same
      obtain ⟨short, rfl, rfl⟩ := written_of_ofMessages (written_of_ofVector written)
      exact holds.answer_getVectorMsg short
  | updateVectorMsgPayload value =>
      obtain ⟨given, rfl, same⟩ := Option.map_eq_some_iff.mp back
      cases same
      obtain ⟨short, rfl, rfl⟩ := written_of_ofMessages (written_of_ofVector written)
      exact holds.answer_getVectorMsg short
  | addVectorDateTime value | updateVectorTime value =>
      obtain ⟨given, rfl, same⟩ := Option.map_eq_some_iff.mp back
      cases same
      cases written_of_ofVector written
      exact holds.answer_getVectorDateTime
  | addVectorPrice value | updateVectorPrice value =>
      obtain ⟨given, rfl, same⟩ := Option.map_eq_some_iff.mp back
      cases same
      cases written_of_ofVector written
      exact holds.answer_getVectorPrice

omit [FieldTypeTags] [MamaLibrary] [FieldPrinting] in
/-- A request that can be read back writes data, or is refused. -/
theorem FieldRequest.written_of_readBack {request : FieldRequest} {read : ReadCall}
    {observation : Observation}
    (back : request.readBack memory name fid = some (read, observation)) :
    (∃ type bytes, (request.mutation name fid).written = some (type, bytes)) ∨
      ∃ status, status ≠ .ok ∧ request.mutation name fid = .refuse status := by
  have vector : ∀ {Value : Type} (given : Value) (mutation : Value → Mutation),
      ((∃ type bytes, (mutation given).written = some (type, bytes)) ∨
        ∃ status, status ≠ .ok ∧ mutation given = .refuse status) →
      (∃ type bytes, (ofVector name fid (some given) mutation).written = some (type, bytes)) ∨
        ∃ status, status ≠ .ok ∧ ofVector name fid (some given) mutation = .refuse status := by
    intro Value given mutation writes
    unfold ofVector
    cases key : validateNameFid name fid with
    | none => exact writes
    | some status => exact .inr ⟨status, fun ok => validateNameFid_ne_ok (ok ▸ key), rfl⟩
  have messages : ∀ records : List (List UInt8),
      (∃ type bytes, (ofMessages records).written = some (type, bytes)) ∨
        ∃ status, status ≠ .ok ∧ ofMessages records = .refuse status := by
    intro records
    unfold ofMessages
    split
    · exact .inr ⟨.invalidArg, by simp, rfl⟩
    · exact .inl ⟨_, _, rfl⟩
  cases request with
  | addScalar scalar value | updateScalar scalar value => exact .inl ⟨_, _, rfl⟩
  | addVectorScalar scalar value | updateVectorScalar scalar value =>
      obtain ⟨values, rfl, -⟩ := Option.map_eq_some_iff.mp back
      simp only [FieldRequest.mutation, ofScalars, ofPointer]
      split
      · exact .inr ⟨.nullArg, by simp, rfl⟩
      · exact .inl ⟨_, _, rfl⟩
  | addString value | updateString value | addOpaque value | updateOpaque value
  | addDateTime value | updateDateTime value | addPrice value | updatePrice value =>
      obtain ⟨given, rfl, -⟩ := Option.map_eq_some_iff.mp back
      exact .inl ⟨_, _, rfl⟩
  | addMsg value | updateSubMsg value =>
      obtain ⟨given, rfl, same⟩ := Option.bind_eq_some_iff.mp back
      simp only [FieldRequest.mutation, ofMsg, ofPointer]
      cases payload : given.payload with
      | error status =>
          rw [payload] at same
          cases same
      | ok payload' => exact .inl ⟨_, _, rfl⟩
  | addVectorString value | updateVectorString value | addVectorDateTime value
  | updateVectorTime value | addVectorPrice value | updateVectorPrice value =>
      obtain ⟨given, rfl, -⟩ := Option.map_eq_some_iff.mp back
      exact vector given _ (.inl ⟨_, _, rfl⟩)
  | addVectorMsg value | updateVectorMsg value | updateVectorMsgPayload value =>
      obtain ⟨given, rfl, -⟩ := Option.map_eq_some_iff.mp back
      exact vector given _ (messages _)

end

end Omnm
