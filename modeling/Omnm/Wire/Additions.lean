import Omnm.Wire.Mutations

/-!
# What additions keep

The functions that add come down to a refusal, to a field behind the others, or
to an update with a type that does not cast, since those of date-times, prices
and of most vectors are the functions that update (`FieldRequest.extends_of_adds`).
None of these changes a scalar: on a payload that holds a message a field of
fixed width stays the first one with its key (`Represents.leavesFirst_mutation`),
as long as names and lengths stay in the range of the integers that count them
(`Mutation.InRange`).
-/

set_option autoImplicit false

namespace Omnm

open FieldTypeTags (tag)
open OmnmPayloadImpl

/-- The requests of the functions that add. -/
def FieldRequest.Adds : FieldRequest → Prop
  | .addScalar .. | .addVectorScalar .. | .addString .. | .addOpaque .. | .addDateTime ..
  | .addPrice .. | .addMsg .. | .addVectorString .. | .addVectorMsg .. | .addVectorDateTime ..
  | .addVectorPrice .. => True
  | .updateScalar .. | .updateVectorScalar .. | .updateString .. | .updateOpaque ..
  | .updateDateTime .. | .updatePrice .. | .updateSubMsg .. | .updateVectorString ..
  | .updateVectorMsg .. | .updateVectorMsgPayload .. | .updateVectorTime ..
  | .updateVectorPrice .. => False

/-- A call of a function that adds. -/
def PayloadCall.Adds : PayloadCall → Prop
  | .field _ _ _ request => request.Adds
  | .clear | .unSerialize .. => False

variable [FieldTypeTags]

/-- A refusal, an addition, or an update with a type that does not cast. -/
def Mutation.Extends : Mutation → Prop
  | .refuse _ | .add .. => True
  | .update type _ => isFieldTypeFixedWidth (tag type) = false
  | .updateVector .. => False

/-- The integers that count a name, a tail and a length are wide enough for an update. -/
structure OmnmPayloadImpl.UpdateInRange (msg : OmnmPayloadImpl) (type : UInt8)
    (name : Option CString) (fid : UInt16) (bytes : List UInt8) : Prop where
  absent : (msg.findFieldInBuffer name fid).result = some none → AddFits name fid bytes
  found : ∀ field, (msg.findFieldInBuffer name fid).result = some (some field) →
    ¬ (field.mFieldType ≠ type ∧ areFieldTypesCastable field.mFieldType type = false) →
      bytes.length < 2 ^ 32 ∧
        (bytes.length = field.mSize ∨ msg.mPayloadBufferTail < 2 ^ 31)

/-- The integers that count a name, a tail and a length are wide enough for a mutation. -/
def Mutation.InRange (msg : OmnmPayloadImpl) (name : Option CString) (fid : UInt16) :
    Mutation → Prop
  | .refuse _ => True
  | .add _ data => ∀ bytes, data = some bytes → AddFits name fid bytes
  | .update type data => ∀ bytes, data = some bytes → msg.UpdateInRange (tag type) name fid bytes
  | .updateVector type bytes => msg.UpdateInRange (tag type) name fid bytes

/-- The payload holds a message in which a field is the first one with a key. -/
def OmnmPayloadImpl.FindsFirst (msg : OmnmPayloadImpl) (name : Option CString) (fid : UInt16)
    (entry : FieldEntry) : Prop :=
  ∃ message, msg.Represents message ∧ message.find name fid = some entry

/-- A computation returns and leaves a payload in which a field is the first one with a key. -/
def LeavesFirst (name : Option CString) (fid : UInt16) (entry : FieldEntry)
    (computation : Mutated) : Prop :=
  ∃ status next, computation.result = some (status, next) ∧ next.FindsFirst name fid entry

/-! ## Requests -/

section

variable {memory : CallMemory} {mBuffer : List UInt8} {name : Option CString} {fid : UInt16}
  {mutation : Mutation} {scratch : List UInt8}

/-- What a request to add comes down to. -/
theorem FieldRequest.extends_of_adds {request : FieldRequest} (adds : request.Adds)
    (prepared : (request.prepare memory mBuffer name fid).result = some (mutation, scratch)) :
    mutation.Extends := by
  have refused : ∀ status, (Mutation.refuse status).Extends := fun _ => trivial
  cases request with
  | addVectorDateTime value | addVectorPrice value =>
      refine checked_of_each refused ?_ prepared
      intro _ _ _ built
      obtain ⟨data, rfl⟩ := update_of_prepareElements built
      simp [Mutation.Extends, isFieldTypeFixedWidth]
  | addVectorMsg value =>
      refine checked_of_each refused ?_ prepared
      intro _ _ _ built
      rcases update_of_prepareMessages built with ⟨status, rfl⟩ | ⟨data, rfl⟩
      · trivial
      · simp [Mutation.Extends, isFieldTypeFixedWidth]
  | addVectorString value =>
      refine checked_of_each refused ?_ prepared
      intro _ _ _ built
      obtain ⟨data, rfl⟩ := add_of_prepareWhole built
      trivial
  | addScalar scalar value =>
      cases prepared
      trivial
  | addVectorScalar scalar value =>
      cases prepared
      exact ofScalars_of_each _ value trivial fun _ _ => trivial
  | addString value | addOpaque value =>
      cases prepared
      exact ofPointer_of_each value trivial fun _ => trivial
  | addDateTime value | addPrice value =>
      cases prepared
      apply ofPointer_of_each value trivial
      simp [Mutation.Extends, isFieldTypeFixedWidth]
  | addMsg value =>
      cases prepared
      exact ofMsg_of_each value refused fun _ => trivial
  | updateScalar | updateVectorScalar | updateString | updateOpaque | updateDateTime | updatePrice
  | updateSubMsg | updateVectorString | updateVectorMsg | updateVectorMsgPayload | updateVectorTime
  | updateVectorPrice => exact adds.elim

end

/-! ## Mutations -/

theorem Mutation.InRange.withScratch {mutation : Mutation} {msg : OmnmPayloadImpl}
    {name : Option CString} {fid : UInt16} (inRange : mutation.InRange msg name fid)
    (scratch : List UInt8) : mutation.InRange (OmnmPayloadImpl.withScratch scratch msg) name fid := by
  have update : ∀ type bytes, msg.UpdateInRange type name fid bytes →
      (OmnmPayloadImpl.withScratch scratch msg).UpdateInRange type name fid bytes := by
    intro type bytes holds
    constructor
    · intro absent
      rw [findFieldInBuffer_withScratch] at absent
      exact holds.absent absent
    · intro field found castable
      rw [findFieldInBuffer_withScratch] at found
      exact holds.found field found castable
  cases mutation with
  | refuse status => trivial
  | add type data => exact inRange
  | update type data => exact fun bytes given => update _ _ (inRange bytes given)
  | updateVector type bytes => exact update _ _ inRange

/-- What takes data of a type that does not cast is of that type. -/
theorem type_eq_of_not_refused {stored type : UInt8} (uncast : isFieldTypeFixedWidth type = false)
    (taken : ¬ (stored ≠ type ∧ areFieldTypesCastable stored type = false)) : stored = type := by
  by_contra differs
  apply taken
  refine ⟨differs, ?_⟩
  rw [areFieldTypesCastable, uncast, Bool.and_false]

namespace OmnmPayloadImpl.Represents

variable {msg : OmnmPayloadImpl} {message : Message} {memory : CallMemory}
  {name other : Option CString} {fid number : UInt16} {entry : FieldEntry} {type : MamaFieldType}
  {bytes : List UInt8}

theorem leavesFirst_pure (represents : msg.Represents message)
    (found : message.find name fid = some entry) (status : MamaStatus) :
    LeavesFirst name fid entry (pure (status, msg)) := ⟨status, msg, rfl, message, represents, found⟩

/-- A field that is added comes behind those that were there. -/
theorem leavesFirst_add (represents : msg.Represents message)
    (found : message.find name fid = some entry) (succeeds : memory.payload.Succeeds)
    (shaped : DataShaped type bytes) (fits : AddFits other number bytes)
    (small : msg.sizeAfterAdd (tag type) other number bytes < 2 ^ 63) :
    LeavesFirst name fid entry (msg.addField memory.payload (tag type) other number (some bytes)) := by
  cases rejected : rejection other number bytes with
  | some status =>
      rw [addField_of_rejection rejected]
      exact represents.leavesFirst_pure found status
  | none =>
      have accepted := accepted_iff_rejection.mpr rejected
      have known := dataLayout_tag type shaped.known
      have dataFits : DataFits (tag type) bytes := shaped.fits (Nat.lt_succ_of_le accepted.length_le)
      rw [sizeAfterAdd, if_pos rejected] at small
      have size := @length_encode_append _ _ _ other number represents _ known bytes dataFits
      obtain ⟨next, keeps⟩ := represents.append succeeds known dataFits accepted (fits rejected)
        (by omega)
      exact ⟨.ok, next, keeps.result, _, keeps.represents,
        Message.find_append_of_find found dataFits⟩

/-- An update with a type that does not cast leaves the fields of fixed width. -/
theorem leavesFirst_update (represents : msg.Represents message)
    (found : message.find name fid = some entry)
    (casts : isFieldTypeFixedWidth entry.type = true) (succeeds : memory.payload.Succeeds)
    (shaped : DataShaped type bytes) (uncast : isFieldTypeFixedWidth (tag type) = false)
    (inRange : msg.UpdateInRange (tag type) other number bytes)
    (small : msg.sizeAfterUpdate (tag type) other number bytes < 2 ^ 63) :
    LeavesFirst name fid entry
      (msg.updateField memory.payload (tag type) other number (some bytes)) := by
  by_cases noKey : other = none ∧ number = 0
  · rw [updateField_null (.inr noKey)]
    exact represents.leavesFirst_pure found .nullArg
  rcases represents.findFieldInBuffer other number with ⟨absent, search⟩ |
    ⟨before, first, after, previous, split, matched, matching, absent, search⟩
  · rw [sizeAfterUpdate_absent noKey search] at small
    obtain ⟨status, next, result, holds⟩ :=
      represents.leavesFirst_add found succeeds shaped (inRange.absent search) small
    exact ⟨status, next, (updateField_of_search noKey search bytes).trans result, holds⟩
  have result : (msg.updateField memory.payload (tag type) other number (some bytes)).result = _ :=
    updateField_of_search noKey search bytes
  by_cases refused : first.type ≠ tag type ∧ areFieldTypesCastable first.type (tag type) = false
  · rw [updateFound_refused refused] at result
    exact ⟨.wrongFieldType, msg, result, message, represents, found⟩
  have same := type_eq_of_not_refused uncast refused
  have differs : first ≠ entry := by
    rintro rfl
    rw [same, uncast] at casts
    cases casts
  obtain ⟨four, exact⟩ := inRange.found _ search refused
  have fits : DataFits first.type bytes := by
    rw [same]
    exact shaped.fits four
  have listed : dataLayout first.type ≠ .unlisted := by
    rw [same]
    exact dataLayout_tag type shaped.known
  obtain ⟨next, field, updated, replaced, -⟩ := represents.updateFieldHandle succeeds split matching
    absent refused listed fits exact (by omega) previous
  refine ⟨.ok, next, ?_, _, replaced, Message.find_replace_of_ne matched found differs bytes⟩
  rw [result, updateFound_castable refused, Traced.result_bind, updated, Option.bind_some]
  rfl

/-- What a request to add comes down to leaves the fields of fixed width. -/
theorem leavesFirst_mutation (represents : msg.Represents message)
    (found : message.find name fid = some entry)
    (casts : isFieldTypeFixedWidth entry.type = true) (succeeds : memory.payload.Succeeds)
    {mutation : Mutation} (shaped : mutation.Shaped other number) (grows : mutation.Extends)
    (inRange : mutation.InRange msg other number)
    (small : mutation.sizeAfter msg other number < 2 ^ 63) :
    LeavesFirst name fid entry (mutation.perform memory msg other number) := by
  cases mutation with
  | refuse status => exact represents.leavesFirst_pure found status
  | add type data =>
      cases data with
      | none =>
          rw [Mutation.perform, addField_null]
          exact represents.leavesFirst_pure found .nullArg
      | some bytes =>
          exact represents.leavesFirst_add found succeeds (shaped bytes rfl) (inRange bytes rfl) small
  | update type data =>
      cases data with
      | none =>
          rw [Mutation.perform, updateField_null (.inl rfl)]
          exact represents.leavesFirst_pure found .nullArg
      | some bytes =>
          exact represents.leavesFirst_update found casts succeeds (shaped bytes rfl) grows
            (inRange bytes rfl) small
  | updateVector type bytes => exact grows.elim

end OmnmPayloadImpl.Represents

end Omnm
