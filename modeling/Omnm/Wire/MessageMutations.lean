import Omnm.Wire.Canonical
import Omnm.Wire.ObjectLookups

/-!
# The public mutators as operations on a message

What a request to add or update means, without buffers: `FieldRequest.mutation`
gives the type and the data that its value stands for, and `Message.mutate` says
what becomes of a list of fields, with the status. The scratch buffer, in which
the source builds its vectors, has no part in it. This is what the requests
come down to when memory is granted (`FieldRequest.result_prepare`), but for
`omnmmsgPayload_addVectorString`, which adds what else the scratch buffer
holds, and for empty vectors, which are NULL until the scratch buffer exists
(`FieldRequest.Exact`).

A call keeps a payload and its message in step (`Represents.perform_call`).
-/

set_option autoImplicit false

namespace Omnm

open FieldTypeTags (tag)
open OmnmPayloadImpl

/-! ## The mutation that a request stands for -/

/-- A vector under an accepted key goes on to a mutation. -/
def ofVector {Value : Type} (name : Option CString) (fid : UInt16) (value : Option Value)
    (mutation : Value → Mutation) : Mutation :=
  match validateNameFid name fid with
  | some status => .refuse status
  | none => ofPointer value mutation

/-- A vector of messages, none of which is too long for its length to be written. -/
def ofMessages (messages : List (List UInt8)) : Mutation :=
  if ∃ bytes ∈ messages, uint32Max < bytes.length then .refuse .invalidArg
  else .update .vectorMsg (some (messageRecords messages))

/-- What a request does to a message. -/
def FieldRequest.mutation (name : Option CString) (fid : UInt16) : FieldRequest → Mutation
  | .addScalar scalar value => .add scalar.fieldType (some (littleEndian scalar.size value))
  | .updateScalar scalar value => .update scalar.fieldType (some (littleEndian scalar.size value))
  | .addVectorScalar scalar value =>
      ofScalars name fid scalar.size value fun bytes => .add scalar.vectorFieldType (some bytes)
  | .updateVectorScalar scalar value =>
      ofScalars name fid scalar.size value (.updateVector scalar.vectorFieldType)
  | .addString value => ofPointer value fun value => .add .string (some value.terminated)
  | .updateString value => ofPointer value fun value => .update .string (some value.terminated)
  | .addOpaque value => ofPointer value fun bytes => .add .opaqueField (some bytes)
  | .updateOpaque value => ofPointer value fun bytes => .update .opaqueField (some bytes)
  | .addDateTime value | .updateDateTime value =>
      ofPointer value fun value => .update .time (some (convertMamaDateTimeToOmnmDateTime value))
  | .addPrice value | .updatePrice value =>
      ofPointer value fun value => .update .price (some (convertMamaPriceToOmnmPrice value))
  | .addMsg value => ofMsg value (.add .msg)
  | .updateSubMsg value => ofMsg value (.update .msg)
  | .addVectorString value =>
      ofVector name fid value fun strings =>
        .add .vectorString (some (strings.map CString.terminated).flatten)
  | .updateVectorString value =>
      ofVector name fid value fun strings =>
        .update .vectorString (some (strings.map CString.terminated).flatten)
  | .addVectorMsg value | .updateVectorMsg value =>
      ofVector name fid value fun messages => ofMessages (messages.map MamaMsg.byteBuffer)
  | .updateVectorMsgPayload value =>
      ofVector name fid value fun payloads =>
        ofMessages (payloads.map OmnmPayloadImpl.serialized)
  | .addVectorDateTime value | .updateVectorTime value =>
      ofVector name fid value fun values =>
        .update .vectorTime (some (values.map convertMamaDateTimeToOmnmDateTime).flatten)
  | .addVectorPrice value | .updateVectorPrice value =>
      ofVector name fid value fun values =>
        .update .vectorPrice (some (values.map convertMamaPriceToOmnmPrice).flatten)

/-- The mutation does not depend on the scratch buffer: it is not `omnmmsgPayload_addVectorString`,
which hands the buffer over with what else it holds, and a vector that is built there has a byte
at least. -/
def FieldRequest.Exact : FieldRequest → Prop
  | .addVectorString _ => False
  | request => request.bytesRequired ≠ some 0

section

variable {memory : CallMemory} {mBuffer : List UInt8} {name : Option CString} {fid : UInt16}

/-- The checks in front of a vector lead to what the vector stands for. -/
theorem result_checked {Value : Type} {value : Option Value}
    {build : Value → Traced Region (Mutation × List UInt8)} {mutation : Value → Mutation}
    (builds : ∀ given, value = some given →
      ∃ scratch, (build given).result = some (mutation given, scratch)) :
    ∃ scratch, (checked mBuffer name fid value build).result =
      some (ofVector name fid value mutation, scratch) := by
  unfold checked ofVector
  cases validateNameFid name fid with
  | some status => exact ⟨mBuffer, rfl⟩
  | none =>
      cases value with
      | none => exact ⟨mBuffer, rfl⟩
      | some given => exact builds given rfl

/-- A scratch buffer with room for a byte is not NULL. -/
theorem scratch_ne_nil {scratch : List UInt8} {length needed : Nat} (positive : needed ≠ 0)
    (enough : needed ≤ length) (same : scratch.length = length) : scratch ≠ [] := by
  rintro rfl
  exact positive (Nat.le_zero.mp (enough.trans_eq same.symm))

/-- Elements that take a byte at least are handed over. -/
theorem result_prepareElements_of_ne (succeeds : memory.scratch.Succeeds) (type : MamaFieldType)
    {elements : List (List UInt8)} (positive : elementsLength elements ≠ 0) :
    ∃ scratch, (prepareElements memory mBuffer type elements).result =
      some (.update type (some elements.flatten), scratch) := by
  obtain ⟨scratch, result, length⟩ :=
    @result_prepareElements memory mBuffer succeeds type elements
  refine ⟨scratch, ?_⟩
  rw [result, if_neg (scratch_ne_nil positive (le_length_scratch succeeds mBuffer _) length)]

/-- Messages that take a byte at least are handed over, unless one is too long. -/
theorem result_prepareMessages_of_ne (succeeds : memory.scratch.Succeeds)
    {messages : List (List UInt8)} (positive : messagesLength messages ≠ 0) :
    ∃ scratch, (prepareMessages memory mBuffer messages).result =
      some (ofMessages messages, scratch) := by
  obtain ⟨scratch, length, ⟨short, result⟩ | ⟨long, result⟩⟩ :=
    @result_prepareMessages memory mBuffer succeeds messages
  · refine ⟨scratch, ?_⟩
    have none : ¬ ∃ bytes ∈ messages, uint32Max < bytes.length := by simpa using short
    rw [result, ofMessages, if_neg none,
      if_neg (scratch_ne_nil positive (le_length_scratch succeeds mBuffer _) length)]
  · refine ⟨scratch, ?_⟩
    have some_long : ∃ bytes ∈ messages, uint32Max < bytes.length := by simpa using long
    rw [result, ofMessages, if_pos some_long]

/-- A request comes down to the mutation that it stands for. -/
theorem FieldRequest.result_prepare (succeeds : memory.scratch.Succeeds) {request : FieldRequest}
    (exact : request.Exact) :
    ∃ scratch, (request.prepare memory mBuffer name fid).result =
      some (request.mutation name fid, scratch) := by
  have elements : ∀ {Value : Type} (value : Option (List Value)) (type : MamaFieldType)
      (encode : Value → List UInt8),
      (value.map fun values => elementsLength (values.map encode)) ≠ some 0 →
      ∃ scratch, (checked mBuffer name fid value fun values =>
          prepareElements memory mBuffer type (values.map encode)).result =
        some (ofVector name fid value fun values =>
          .update type (some (values.map encode).flatten), scratch) := by
    intro Value value type encode needed
    apply result_checked
    rintro given rfl
    exact result_prepareElements_of_ne succeeds type (by simpa using needed)
  have messages : ∀ {Value : Type} (value : Option (List Value)) (encode : Value → List UInt8),
      (value.map fun values => messagesLength (values.map encode)) ≠ some 0 →
      ∃ scratch, (checked mBuffer name fid value fun values =>
          prepareMessages memory mBuffer (values.map encode)).result =
        some (ofVector name fid value fun values => ofMessages (values.map encode), scratch) := by
    intro Value value encode needed
    apply result_checked
    rintro given rfl
    exact result_prepareMessages_of_ne succeeds (by simpa using needed)
  cases request with
  | addScalar | updateScalar | addVectorScalar | updateVectorScalar | addString | updateString
  | addOpaque | updateOpaque | addDateTime | updateDateTime | addPrice | updatePrice | addMsg
  | updateSubMsg => exact ⟨mBuffer, rfl⟩
  | addVectorString => exact exact.elim
  | updateVectorString value => exact elements value .vectorString CString.terminated exact
  | addVectorMsg value | updateVectorMsg value => exact messages value MamaMsg.byteBuffer exact
  | updateVectorMsgPayload value => exact messages value OmnmPayloadImpl.serialized exact
  | addVectorDateTime value | updateVectorTime value =>
      exact elements value .vectorTime convertMamaDateTimeToOmnmDateTime exact
  | addVectorPrice value | updateVectorPrice value =>
      exact elements value .vectorPrice convertMamaPriceToOmnmPrice exact

end

/-! ## Messages under mutations -/

variable [FieldTypeTags]

/-- A type and data as an argument, if the data have the form that the type prescribes. -/
def FieldData.of (type : MamaFieldType) (bytes : List UInt8) : Option FieldData :=
  if shaped : dataLayout (tag type) ≠ .unlisted ∧ DataFits (tag type) bytes then
    some ⟨tag type, shaped.1, some ⟨bytes, shaped.2⟩⟩
  else none

theorem FieldData.of_shaped {type : MamaFieldType} {bytes : List UInt8}
    (listed : dataLayout (tag type) ≠ .unlisted) (fits : DataFits (tag type) bytes) :
    FieldData.of type bytes = some ⟨tag type, listed, some ⟨bytes, fits⟩⟩ := dif_pos ⟨listed, fits⟩

namespace Message

/-- What a mutation does to a message. A vector of scalars reports what its lookup found. -/
def mutate (message : Message) (name : Option CString) (fid : UInt16) :
    Mutation → MamaStatus × Message
  | .refuse status => (status, message)
  | .add _ none | .update _ none => (.nullArg, message)
  | .add type (some bytes) =>
      (FieldData.of type bytes).elim (.invalidArg, message) (message.addField name fid)
  | .update type (some bytes) =>
      (FieldData.of type bytes).elim (.invalidArg, message) (message.updateField name fid)
  | .updateVector type bytes =>
      (FieldData.of type bytes).elim (.invalidArg, message) fun data =>
        match message.find name fid with
        | none => message.addField name fid data
        | some _ => (.ok, (message.updateField name fid data).2)

end Message

/-- The type under which a mutation updates. -/
def Mutation.updates : Mutation → Option MamaFieldType
  | .refuse _ | .add _ _ => none
  | .update type _ | .updateVector type _ => some type

/-- The data of a mutation. -/
def Mutation.data : Mutation → Option (List UInt8)
  | .refuse _ => none
  | .add _ data | .update _ data => data
  | .updateVector _ bytes => some bytes

/-- A mutation that keeps layouts, names a field that its lookup accepts, has data whose length
can be written, and stays below 2 GiB. -/
structure Mutation.Allowed (message : Message) (name : Option CString) (fid : UInt16)
    (mutation : Mutation) : Prop where
  layout : ∀ type, mutation.updates = some type → message.SameLayout name fid (tag type)
  key : mutation.KeyAccepted name fid
  short : ∀ bytes, mutation.data = some bytes → bytes.length < 2 ^ 32
  small : message.encode.length < 2 ^ 31
  smallAfter : (message.mutate name fid mutation).2.encode.length < 2 ^ 31

instance (message : Message) (name : Option CString) (fid : UInt16) (type : UInt8) :
    Decidable (message.SameLayout name fid type) :=
  inferInstanceAs (Decidable (∀ entry ∈ message.find name fid,
    areFieldTypesCastable entry.type type = true → dataLayout entry.type = dataLayout type))

instance (name : Option CString) (fid : UInt16) :
    (mutation : Mutation) → Decidable (mutation.KeyAccepted name fid)
  | .refuse _ | .add _ _ | .update _ _ => instDecidableTrue
  | .updateVector _ _ => inferInstanceAs (Decidable (¬ (_ ∧ _)))

instance (message : Message) (name : Option CString) (fid : UInt16) (mutation : Mutation) :
    Decidable (mutation.Allowed message name fid) :=
  decidable_of_iff
    ((∀ type ∈ mutation.updates, message.SameLayout name fid (tag type)) ∧
      mutation.KeyAccepted name fid ∧ (∀ bytes ∈ mutation.data, bytes.length < 2 ^ 32) ∧
      message.encode.length < 2 ^ 31 ∧
      (message.mutate name fid mutation).2.encode.length < 2 ^ 31)
    ⟨fun allowed => ⟨allowed.1, allowed.2.1, allowed.2.2.1, allowed.2.2.2.1, allowed.2.2.2.2⟩,
      fun allowed => ⟨allowed.layout, allowed.key, allowed.short, allowed.small,
        allowed.smallAfter⟩⟩

section

variable {message : Message} {name : Option CString} {fid : UInt16}

/-! ## Listed types -/

theorem AllListed.append (listed : AllListed message.entries) {entry : FieldEntry}
    (fits : DataFits entry.type entry.data) (known : dataLayout entry.type ≠ .unlisted) :
    AllListed (message.append entry fits).entries := by
  intro other member
  rcases List.mem_append.mp member with old | new
  · exact listed other old
  · rw [List.mem_singleton.mp new]
    exact known

theorem type_withData (data : List UInt8) (entry : FieldEntry) :
    (entry.withData data).type = entry.type := by
  unfold FieldEntry.withData
  split <;> rfl

theorem AllListed.replace (listed : AllListed message.entries) (data : List UInt8) :
    AllListed (message.replace name fid data).entries := by
  intro entry member
  rcases mem_updateFirst member with old | ⟨before, old, -, rfl⟩
  · exact listed entry old
  · rw [type_withData]
    exact listed before old

theorem AllListed.addField (listed : AllListed message.entries) (data : FieldData) :
    AllListed (message.addField name fid data).2.entries := by
  unfold Message.addField
  split
  · exact listed
  · split
    · exact listed
    · split
      · exact listed
      · split
        · exact listed
        · rename_i fits _ _ _ _ _
          exact listed.append fits data.listed

theorem AllListed.updateField (listed : AllListed message.entries) (data : FieldData) :
    AllListed (message.updateField name fid data).2.entries := by
  unfold Message.updateField
  split
  · exact listed
  · split
    · exact listed
    · split
      · exact listed.addField data
      · split
        · exact listed
        · exact listed.replace _

theorem AllListed.elim (listed : AllListed message.entries) (given : Option FieldData)
    {change : FieldData → MamaStatus × Message}
    (each : ∀ data, AllListed (change data).2.entries) :
    AllListed (given.elim (.invalidArg, message) change).2.entries := by
  cases given with
  | none => exact listed
  | some data => exact each data

/-- A mutation leaves fields of listed types. -/
theorem AllListed.mutate (listed : AllListed message.entries) (mutation : Mutation) :
    AllListed (message.mutate name fid mutation).2.entries := by
  cases mutation with
  | refuse status => exact listed
  | add type data =>
      cases data with
      | none => exact listed
      | some bytes => exact listed.elim _ listed.addField
  | update type data =>
      cases data with
      | none => exact listed
      | some bytes => exact listed.elim _ listed.updateField
  | updateVector type bytes =>
      apply listed.elim
      intro data
      split
      · exact listed.addField data
      · exact listed.updateField data

end

/-! ## Keeping step -/

namespace OmnmPayloadImpl.Represents

variable {msg : OmnmPayloadImpl} {message : Message} {memory : CallMemory}
  {name : Option CString} {fid : UInt16} {type : MamaFieldType} {bytes : List UInt8}

/-- A mutation keeps a payload and its message in step. -/
theorem perform_mutation (represents : msg.Represents message)
    (succeeds : memory.payload.Succeeds) {mutation : Mutation} (shaped : mutation.Shaped name fid)
    (allowed : mutation.Allowed message name fid) :
    ∃ next, (mutation.perform memory msg name fid).result =
        some ((message.mutate name fid mutation).1, next) ∧
      next.Represents (message.mutate name fid mutation).2 := by
  obtain ⟨layout, key, short, small, smallAfter⟩ := allowed
  cases mutation with
  | refuse status => exact ⟨msg, rfl, represents⟩
  | add type data =>
      cases data with
      | none =>
          refine ⟨msg, ?_, represents⟩
          rw [Mutation.perform, addField_null]
          rfl
      | some bytes =>
          have shape := shaped bytes rfl
          have given := FieldData.of_shaped (dataLayout_tag type shape.known)
            (shape.fits (short bytes rfl))
          simp only [Message.mutate, given, Option.elim_some] at smallAfter ⊢
          obtain ⟨next, keeps⟩ := represents.addField succeeds smallAfter
          exact ⟨next, keeps.result, keeps.represents⟩
  | update type data =>
      cases data with
      | none =>
          refine ⟨msg, ?_, represents⟩
          rw [Mutation.perform, updateField_null (.inl rfl)]
          rfl
      | some bytes =>
          have shape := shaped bytes rfl
          have given := FieldData.of_shaped (dataLayout_tag type shape.known)
            (shape.fits (short bytes rfl))
          simp only [Message.mutate, given, Option.elim_some] at smallAfter ⊢
          obtain ⟨next, keeps⟩ := represents.updateField succeeds (layout type rfl) small smallAfter
          exact ⟨next, keeps.result, keeps.represents⟩
  | updateVector type bytes =>
      have accepted := Mutation.validateNameFid_of_accepted shaped.2 key
      have given := FieldData.of_shaped (dataLayout_tag type shaped.1.known)
        (shaped.1.fits (short bytes rfl))
      simp only [Message.mutate, given, Option.elim_some] at smallAfter ⊢
      rcases represents.getField_of_accepted accepted with ⟨absent, lookup⟩ |
        ⟨before, entry, after, previous, -, found, -, -, lookup⟩
      · simp only [absent] at smallAfter ⊢
        obtain ⟨next, keeps⟩ := represents.addField succeeds smallAfter
        refine ⟨next, ?_, keeps.represents⟩
        simp only [Mutation.perform, Traced.result_bind, lookup, Option.bind_some, if_true]
        exact keeps.result
      · simp only [found] at smallAfter ⊢
        obtain ⟨next, keeps⟩ := represents.updateField succeeds (layout type rfl) small smallAfter
        have same := @Mutation.updateVector_sameEffect _ memory msg name fid accepted type bytes
        obtain ⟨report, result⟩ := same.exists_result keeps.result
        have ok : report = .ok := by
          have ran := result
          simp only [Mutation.perform, Traced.result_bind, lookup, Option.bind_some, reduceCtorEq,
            if_false] at ran
          obtain ⟨updated, -, returned⟩ := Option.bind_eq_some_iff.mp ran
          cases returned
          rfl
        rw [ok] at result
        exact ⟨next, result, keeps.represents⟩

/-- A request keeps a payload and its message in step. -/
theorem perform_request (represents : msg.Represents message) (succeeds : memory.Succeeds)
    {request : FieldRequest} (exact : request.Exact)
    (allowed : (request.mutation name fid).Allowed message name fid) :
    ∃ next, (request.perform memory msg name fid).result =
        some ((message.mutate name fid (request.mutation name fid)).1, next) ∧
      next.Represents (message.mutate name fid (request.mutation name fid)).2 := by
  obtain ⟨scratch, prepared⟩ := @FieldRequest.result_prepare memory msg.mBuffer name fid
    succeeds.scratch request exact
  obtain ⟨next, result, keeps⟩ := (represents.withScratch scratch).perform_mutation
    succeeds.payload (request.prepare_shaped prepared) allowed
  refine ⟨next, ?_, keeps⟩
  rw [FieldRequest.perform_eq, afterPreparing, Traced.result_bind, prepared]
  exact result

end OmnmPayloadImpl.Represents

/-! ## Calls -/

/-- Allocations of the call succeed. -/
def PayloadCall.Served : PayloadCall → Prop
  | .field memory _ _ _ | .unSerialize memory _ _ => memory.Succeeds
  | .clear => True

/-- What a call does to a message. Bytes that are taken in are decoded. -/
def PayloadCall.onMessage (message : Message) : PayloadCall → MamaStatus × Message
  | .field _ name fid request => message.mutate name fid (request.mutation name fid)
  | .clear => message.clear
  | .unSerialize _ none _ => (.nullArg, message)
  | .unSerialize _ (some .own) _ => (.ok, message)
  | .unSerialize _ (some (.other memory)) length =>
      if length = 0 then (.nullArg, message)
      else if omnmProtocolVersion < memory.getD 1 0 then (.wrongFieldType, message)
      else (.ok, (Message.decode (memory.take length)).getD message)

/-- A buffer to take in that is not the payload's own, is as long as it says, has a header, and
is refused by its version or decodes to fields of listed types. -/
structure TakesIn (memory : List UInt8) (length : Nat) : Prop where
  readable : length ≤ memory.length
  header : length ≠ 0 → 3 ≤ memory.length
  decodes : length ≠ 0 → memory.getD 1 0 ≤ omnmProtocolVersion →
    ∃ taken, Message.decode (memory.take length) = some taken ∧ AllListed taken.entries

/-- A call that a message allows. It does not depend on the scratch buffer: there is no
`omnmmsgPayload_addVectorString` and no empty vector among these (`FieldRequest.Exact`). -/
def PayloadCall.Allowed (message : Message) : PayloadCall → Prop
  | .field _ name fid request =>
      request.Exact ∧ (request.mutation name fid).Allowed message name fid
  | .clear => True
  | .unSerialize _ none _ => True
  | .unSerialize _ (some .own) _ => False
  | .unSerialize _ (some (.other memory)) length => TakesIn memory length

/-- The payload holds the message, whose fields have listed types. -/
structure OmnmPayloadImpl.Shows (msg : OmnmPayloadImpl) (message : Message) : Prop where
  represents : msg.Represents message
  listed : AllListed message.entries

namespace OmnmPayloadImpl.Shows

variable {msg : OmnmPayloadImpl} {message : Message}

theorem newPayload : newPayload.Shows Message.empty where
  represents := Represents.newPayload
  listed := by
    intro entry member
    cases member

/-- A call keeps a payload and its message in step. -/
theorem perform_call (shown : msg.Shows message) {call : PayloadCall} (served : call.Served)
    (allowed : call.Allowed message) :
    ∃ next, (call.perform msg).result = some ((call.onMessage message).1, next) ∧
      next.Shows (call.onMessage message).2 := by
  obtain ⟨represents, listed⟩ := shown
  cases call with
  | field memory name fid request =>
      obtain ⟨next, result, keeps⟩ := represents.perform_request served allowed.1 allowed.2
      exact ⟨next, result, keeps, listed.mutate _⟩
  | clear =>
      have room : 3 ≤ msg.mPayloadBufferSize := by
        have tail := represents.tail_le
        rw [represents.tail] at tail
        exact message.three_le_length_encode.trans tail
      obtain ⟨next, keeps⟩ := Represents.clear msg room
      exact ⟨next, keeps.result, keeps.represents, newPayload.listed⟩
  | unSerialize memory buffer length =>
      cases buffer with
      | none => exact ⟨msg, rfl, represents, listed⟩
      | some incoming =>
          cases incoming with
          | own => exact allowed.elim
          | other bytes =>
              obtain ⟨readable, header, decodes⟩ := allowed
              by_cases empty : length = 0
              · refine ⟨msg, ?_, ?_, ?_⟩
                all_goals simp only [PayloadCall.perform, PayloadCall.onMessage,
                  omnmmsgPayload_unSerialize, if_pos empty]
                · rfl
                · exact represents
                · exact listed
              by_cases refused : omnmProtocolVersion < bytes.getD 1 0
              · have loaded : (loadHeader msg (.other bytes)).result =
                    some (OmnmHeader.ofBytes bytes) :=
                  (loadHeader_result msg (.other bytes)).trans (if_pos (header empty))
                refine ⟨msg, ?_, ?_, ?_⟩
                all_goals simp only [PayloadCall.onMessage, if_neg empty, if_pos refused]
                · rw [PayloadCall.perform, omnmmsgPayload_unSerialize, if_neg empty,
                    Traced.result_bind, loaded, Option.bind_some, OmnmHeader.ofBytes, if_pos refused]
                  rfl
                · exact represents
                · exact listed
              · obtain ⟨taken, decoded, listed'⟩ := decodes empty (UInt8.not_lt.mp refused)
                obtain ⟨next, result, holds, -⟩ := Represents.unSerialize msg served.payload readable
                  (Message.decode_eq_some_iff.mp decoded)
                refine ⟨next, ?_, ?_, ?_⟩
                all_goals simp only [PayloadCall.onMessage, if_neg empty, if_neg refused, decoded,
                  Option.getD_some]
                · exact result
                · exact holds
                · exact listed'

end OmnmPayloadImpl.Shows

end Omnm
