import Omnm.Payload.Preparation
import Omnm.Payload.Scratch
import Omnm.Wire.Refinement

/-!
# Mutations of a payload that holds a message

What one mutation does to a payload that represents a message: it returns, and
the payload represents a message again, whose size is the one that the source's
arithmetic stands for (`Mutation.sizeAfter`). A mutation that updates a field
needs what any update needs, that a field it finds with another, castable type
lays its data out in the same way (`Mutation.KeepsLayout`), and a vector update
needs a key that its lookup accepts (`Mutation.KeyAccepted`).

An update of a vector of scalars is an update that may report another status
(`Mutation.updateVector_sameEffect`).
-/

set_option autoImplicit false

namespace Omnm

open FieldTypeTags (tag)
open OmnmPayloadImpl

/-! ## Effects without their status -/

/-- Two computations that touch the same memory and leave the same payload. -/
structure SameEffect (first second : Mutated) : Prop where
  accesses : first.accesses = second.accesses
  payload : first.result.map Prod.snd = second.result.map Prod.snd

namespace SameEffect

theorem refl (computation : Mutated) : SameEffect computation computation := ⟨rfl, rfl⟩

theorem symm {first second : Mutated} (same : SameEffect first second) : SameEffect second first :=
  ⟨same.accesses.symm, same.payload.symm⟩

theorem bind {α : Type} (reads : Traced Region α) {first second : α → Mutated}
    (same : ∀ value, SameEffect (first value) (second value)) :
    SameEffect (reads >>= first) (reads >>= second) := by
  cases read : reads.result with
  | none =>
      constructor
      · rw [Traced.accesses_bind_of_fault read, Traced.accesses_bind_of_fault read]
      · simp only [Traced.result_bind, read, Option.bind_none]
  | some value =>
      constructor
      · rw [Traced.accesses_bind_of_result read, Traced.accesses_bind_of_result read,
          (same value).accesses]
      · simp only [Traced.result_bind, read, Option.bind_some, (same value).payload]

theorem every {first second : Mutated} (same : SameEffect first second)
    {holds : Access Region → Prop} (every : Traced.Every holds second) :
    Traced.Every holds first := by
  intro access member
  rw [same.accesses] at member
  exact every access member

theorem exists_result {first second : Mutated} (same : SameEffect first second)
    {status : MamaStatus} {msg : OmnmPayloadImpl} (result : second.result = some (status, msg)) :
    ∃ report, first.result = some (report, msg) := by
  have payload := same.payload
  rw [result, Option.map_some, Option.map_eq_some_iff] at payload
  obtain ⟨⟨report, left⟩, returned, rfl⟩ := payload
  exact ⟨report, returned⟩

end SameEffect

/-- A field that is added has a name whose length fits an `int`. -/
def AddFits (name : Option CString) (fid : UInt16) (bytes : List UInt8) : Prop :=
  rejection name fid bytes = none → strlenEx name + 1 < 2 ^ 31

variable [FieldTypeTags]

/-! ## The size a mutation leaves -/

/-- The exact number of bytes of a message after `addField`. -/
def OmnmPayloadImpl.sizeAfterAdd (msg : OmnmPayloadImpl) (type : UInt8) (name : Option CString)
    (fid : UInt16) (bytes : List UInt8) : Nat :=
  if rejection name fid bytes = none then
    msg.mPayloadBufferTail + (writtenField type fid (name.getD CString.empty) bytes).length
  else msg.mPayloadBufferTail

/-- The exact number of bytes of a message after `updateField`. -/
def OmnmPayloadImpl.sizeAfterUpdate (msg : OmnmPayloadImpl) (type : UInt8) (name : Option CString)
    (fid : UInt16) (bytes : List UInt8) : Nat :=
  if name = none ∧ fid = 0 then msg.mPayloadBufferTail
  else
    match (msg.findFieldInBuffer name fid).result with
    | some (some field) =>
        if field.mFieldType ≠ type ∧ areFieldTypesCastable field.mFieldType type = false then
          msg.mPayloadBufferTail
        else msg.mPayloadBufferTail + bytes.length - field.mSize
    | _ => msg.sizeAfterAdd type name fid bytes

section

variable {msg : OmnmPayloadImpl} {type : UInt8} {name : Option CString} {fid : UInt16}
  {field : OmnmFieldImpl}

theorem sizeAfterUpdate_absent (key : ¬ (name = none ∧ fid = 0))
    (search : (msg.findFieldInBuffer name fid).result = some none) (bytes : List UInt8) :
    msg.sizeAfterUpdate type name fid bytes = msg.sizeAfterAdd type name fid bytes := by
  rw [sizeAfterUpdate, if_neg key, search]

theorem sizeAfterUpdate_refused (key : ¬ (name = none ∧ fid = 0))
    (search : (msg.findFieldInBuffer name fid).result = some (some field))
    (refused : field.mFieldType ≠ type ∧ areFieldTypesCastable field.mFieldType type = false)
    (bytes : List UInt8) :
    msg.sizeAfterUpdate type name fid bytes = msg.mPayloadBufferTail := by
  rw [sizeAfterUpdate, if_neg key, search]
  exact if_pos refused

theorem sizeAfterUpdate_found (key : ¬ (name = none ∧ fid = 0))
    (search : (msg.findFieldInBuffer name fid).result = some (some field))
    (castable : ¬ (field.mFieldType ≠ type ∧ areFieldTypesCastable field.mFieldType type = false))
    (bytes : List UInt8) :
    msg.sizeAfterUpdate type name fid bytes =
      msg.mPayloadBufferTail + bytes.length - field.mSize := by
  rw [sizeAfterUpdate, if_neg key, search]
  exact if_neg castable

end

namespace Mutation

/-- A vector update under a key that its lookup accepts is an update, apart from the
status. -/
theorem updateVector_sameEffect {memory : CallMemory} {msg : OmnmPayloadImpl}
    {name : Option CString} {fid : UInt16} (key : validateNameFid name fid = none)
    (type : MamaFieldType) (bytes : List UInt8) :
    SameEffect ((Mutation.updateVector type bytes).perform memory msg name fid)
      ((Mutation.update type (some bytes)).perform memory msg name fid) := by
  simp only [Mutation.perform, OmnmPayloadImpl.getField, key,
    updateField_eq (not_none_of_validateNameFid key), bind_assoc]
  apply SameEffect.bind _
  intro found
  cases found with
  | none => exact SameEffect.refl _
  | some field =>
      dsimp only
      rw [pure_bind, if_neg (by simp), Option.getD_some]
      by_cases refused : field.mFieldType ≠ tag type ∧
          areFieldTypesCastable field.mFieldType (tag type) = false
      · have handled : msg.updateFieldHandle memory.payload (tag type) field (some bytes) =
            pure (.wrongFieldType, msg, field) := by
          rw [updateFieldHandle, if_pos refused]
        rw [updateFound_refused refused, handled]
        exact ⟨rfl, rfl⟩
      · rw [updateFound_castable refused]
        exact SameEffect.bind _ fun outcome => ⟨rfl, rfl⟩

/-- The exact number of bytes of a message after a mutation. -/
def sizeAfter (msg : OmnmPayloadImpl) (name : Option CString) (fid : UInt16) : Mutation → Nat
  | .refuse _ => msg.mPayloadBufferTail
  | .add type data => data.elim msg.mPayloadBufferTail (msg.sizeAfterAdd (tag type) name fid)
  | .update type data => data.elim msg.mPayloadBufferTail (msg.sizeAfterUpdate (tag type) name fid)
  | .updateVector type bytes => msg.sizeAfterUpdate (tag type) name fid bytes

/-- A field that the mutation finds with a castable type lays its data out as the new
type does. -/
def KeepsLayout (msg : OmnmPayloadImpl) (name : Option CString) (fid : UInt16) : Mutation → Prop
  | .refuse _ => True
  | .add _ _ => True
  | .update type _ => FoundLayout type
  | .updateVector type _ => FoundLayout type
where
  FoundLayout (type : MamaFieldType) : Prop :=
    ∀ field, (msg.findFieldInBuffer name fid).result = some (some field) →
      areFieldTypesCastable field.mFieldType (tag type) = true →
      dataLayout field.mFieldType = dataLayout (tag type)

theorem sizeAfter_withScratch (mutation : Mutation) (scratch : List UInt8) (msg : OmnmPayloadImpl)
    (name : Option CString) (fid : UInt16) :
    mutation.sizeAfter (withScratch scratch msg) name fid = mutation.sizeAfter msg name fid := by
  have added : ∀ type, (withScratch scratch msg).sizeAfterAdd type name fid =
      msg.sizeAfterAdd type name fid := fun _ => rfl
  have updated : ∀ type, (withScratch scratch msg).sizeAfterUpdate type name fid =
      msg.sizeAfterUpdate type name fid := by
    intro type
    funext bytes
    simp only [sizeAfterUpdate, findFieldInBuffer_withScratch, added, withScratch_mPayloadBufferTail]
  cases mutation with
  | refuse status => rfl
  | add type data => simp only [sizeAfter, added, withScratch_mPayloadBufferTail]
  | update type data => simp only [sizeAfter, updated, withScratch_mPayloadBufferTail]
  | updateVector type bytes => simp only [sizeAfter, updated]

theorem KeepsLayout.withScratch {mutation : Mutation} {msg : OmnmPayloadImpl}
    {name : Option CString} {fid : UInt16} (layout : mutation.KeepsLayout msg name fid)
    (scratch : List UInt8) :
    mutation.KeepsLayout (OmnmPayloadImpl.withScratch scratch msg) name fid := by
  cases mutation with
  | refuse status => trivial
  | add type data => trivial
  | update type data | updateVector type bytes =>
      intro field search
      rw [findFieldInBuffer_withScratch] at search
      exact layout field search

omit [FieldTypeTags] in
/-- A vector update is not made under the empty name with fid 0. -/
def KeyAccepted (name : Option CString) (fid : UInt16) : Mutation → Prop
  | .updateVector _ _ => ¬ (name = some CString.empty ∧ fid = 0)
  | _ => True

omit [FieldTypeTags] in
theorem validateNameFid_of_accepted {name : Option CString} {fid : UInt16}
    (given : ¬ (name = none ∧ fid = 0)) (accepted : ¬ (name = some CString.empty ∧ fid = 0)) :
    validateNameFid name fid = none := by
  cases name with
  | none =>
      rw [validateNameFid, if_neg]
      exact fun zero => given ⟨rfl, zero⟩
  | some name =>
      rw [validateNameFid, if_neg]
      rintro ⟨zero, rfl⟩
      exact accepted ⟨rfl, zero⟩

end Mutation

/-! ## One mutation -/

/-- The iterator lists the type of every field. -/
def AllListed (entries : List FieldEntry) : Prop :=
  ∀ entry ∈ entries, dataLayout entry.type ≠ .unlisted

/-- A computation from a payload returns and leaves a payload that represents some
message of listed types, of a given size. -/
def LeavesMessage (msg : OmnmPayloadImpl) (computation : Mutated) (size : Nat) : Prop :=
  ∃ status next message, computation.result = some (status, next) ∧ next.Represents message ∧
    AllListed message.entries ∧ next.mPayloadBufferTail = size ∧
    msg.mPayloadBufferSize ≤ next.mPayloadBufferSize

namespace OmnmPayloadImpl.Represents

variable {msg : OmnmPayloadImpl} {message : Message} {memory : CallMemory}
  {name : Option CString} {fid : UInt16} {type : MamaFieldType} {bytes : List UInt8}

/-- The payload with another scratch buffer holds the same message. -/
theorem withScratch (represents : msg.Represents message) (scratch : List UInt8) :
    (OmnmPayloadImpl.withScratch scratch msg).Represents message :=
  ⟨represents.buffer, represents.tail, represents.version, represents.remaining⟩

theorem leaves_pure (represents : msg.Represents message) (listed : AllListed message.entries)
    (status : MamaStatus) : LeavesMessage msg (pure (status, msg)) msg.mPayloadBufferTail :=
  ⟨status, msg, message, rfl, represents, listed, rfl, Nat.le_refl _⟩

/-- Adding a field leaves a message with the field behind the others. -/
theorem leaves_add (represents : msg.Represents message) (listed : AllListed message.entries)
    (succeeds : memory.payload.Succeeds) (shaped : DataShaped type bytes)
    (small : msg.sizeAfterAdd (tag type) name fid bytes < 2 ^ 31) :
    LeavesMessage msg (msg.addField memory.payload (tag type) name fid (some bytes))
      (msg.sizeAfterAdd (tag type) name fid bytes) := by
  cases rejected : rejection name fid bytes with
  | some status =>
      rw [addField_of_rejection rejected, sizeAfterAdd, if_neg (by rw [rejected]; simp)]
      exact represents.leaves_pure listed status
  | none =>
      have accepted := accepted_iff_rejection.mpr rejected
      have known := dataLayout_tag type shaped.known
      have fits : DataFits (tag type) bytes := by
        have bound := accepted.length_le
        exact shaped.fits (by unfold uint32Max at bound; omega)
      rw [sizeAfterAdd, if_pos rejected] at small ⊢
      have whole := length_writtenField (tag type) fid (name.getD CString.empty) bytes
      have short : strlenEx name + 1 < 2 ^ 31 := by
        rw [strlenEx_eq]
        omega
      have size := @length_encode_append _ _ _ name fid represents _ known bytes fits
      obtain ⟨next, keeps⟩ := represents.append succeeds known fits accepted short (by omega)
      refine ⟨.ok, next, _, keeps.result, keeps.represents, ?_, ?_, keeps.grows⟩
      · intro entry member
        rcases List.mem_append.mp member with old | new
        · exact listed entry old
        · rw [List.mem_singleton.mp new]
          exact known
      · rw [keeps.represents.tail]
        exact size

/-- Updating a field leaves a message with the data of the field replaced, or with the
field behind the others. -/
theorem leaves_update (represents : msg.Represents message) (listed : AllListed message.entries)
    (tail : msg.mPayloadBufferTail < 2 ^ 31) (succeeds : memory.payload.Succeeds)
    (shaped : DataShaped type bytes) (layout : Mutation.KeepsLayout.FoundLayout msg name fid type)
    (small : msg.sizeAfterUpdate (tag type) name fid bytes < 2 ^ 31) :
    LeavesMessage msg (msg.updateField memory.payload (tag type) name fid (some bytes))
      (msg.sizeAfterUpdate (tag type) name fid bytes) := by
  by_cases noKey : name = none ∧ fid = 0
  · rw [updateField_null (.inr noKey), sizeAfterUpdate, if_pos noKey]
    exact represents.leaves_pure listed .nullArg
  rcases represents.findFieldInBuffer name fid with ⟨absent, search⟩ |
    ⟨before, entry, after, previous, split, found, matching, absent, search⟩
  · rw [sizeAfterUpdate_absent noKey search] at small ⊢
    obtain ⟨status, next, changed, result, rest⟩ :=
      represents.leaves_add listed succeeds shaped small
    exact ⟨status, next, changed, (updateField_of_search noKey search bytes).trans result, rest⟩
  have reached := layout _ search
  have result : (msg.updateField memory.payload (tag type) name fid (some bytes)).result = _ :=
    updateField_of_search noKey search bytes
  by_cases refused : entry.type ≠ tag type ∧ areFieldTypesCastable entry.type (tag type) = false
  · rw [sizeAfterUpdate_refused noKey search refused]
    rw [updateFound_refused refused] at result
    exact ⟨.wrongFieldType, msg, message, result, represents, listed, rfl, Nat.le_refl _⟩
  rw [sizeAfterUpdate_found noKey search refused, FieldEntry.handle_mSize] at small ⊢
  have sameLayout : dataLayout entry.type = dataLayout (tag type) := by
    by_cases same : entry.type = tag type
    · rw [same]
    · exact reached (by simpa [same] using refused)
  have member : entry ∈ message.entries := by
    rw [split]
    exact List.mem_append_right _ (List.mem_cons_self ..)
  have encoded := encode_split split
  have inside := represents.data_below_tail split
  have fits : DataFits entry.type bytes :=
    dataFits_of_layout sameLayout (shaped.fits (by omega))
  have entries := Message.entries_replace split matching absent fits
  have sameLength : (FieldEntry.lengthPart { entry with data := bytes }).length =
      entry.lengthPart.length := FieldEntry.length_lengthPart_eq rfl
  have size : (message.replace name fid bytes).encode.length =
      msg.mPayloadBufferTail + bytes.length - entry.data.length := by
    have header : (message.replace name fid bytes).header = message.header := rfl
    rw [represents.tail, encoded, encode_split entries, header]
    simp only [List.length_append, sameLength]
    omega
  obtain ⟨next, field, updated, replaced, grows, -, -⟩ :=
    represents.updateFieldHandle succeeds split matching absent refused (listed entry member)
      fits (.inr tail) (by omega) previous
  refine ⟨.ok, next, _, ?_, replaced, ?_, replaced.tail.trans size, grows⟩
  · rw [result, updateFound_castable refused, Traced.result_bind, updated, Option.bind_some]
    rfl
  · intro other among
    rw [entries] at among
    rcases List.mem_append.mp among with early | late
    · exact listed other (by rw [split]; exact List.mem_append_left _ early)
    · rcases List.mem_cons.mp late with rfl | later
      · exact listed entry member
      · apply listed other
        rw [split]
        exact List.mem_append_right _ (List.mem_cons_of_mem _ later)

/-- A mutation leaves a message of the size it stands for. -/
theorem leaves_mutation (represents : msg.Represents message) (listed : AllListed message.entries)
    (tail : msg.mPayloadBufferTail < 2 ^ 31) (succeeds : memory.payload.Succeeds)
    {mutation : Mutation} (shaped : mutation.Shaped name fid)
    (layout : mutation.KeepsLayout msg name fid) (key : mutation.KeyAccepted name fid)
    (small : mutation.sizeAfter msg name fid < 2 ^ 31) :
    LeavesMessage msg (mutation.perform memory msg name fid) (mutation.sizeAfter msg name fid) := by
  cases mutation with
  | refuse status => exact represents.leaves_pure listed status
  | add type data =>
      cases data with
      | none =>
          rw [Mutation.perform, addField_null]
          exact represents.leaves_pure listed .nullArg
      | some bytes => exact represents.leaves_add listed succeeds (shaped bytes rfl) small
  | update type data =>
      cases data with
      | none =>
          rw [Mutation.perform, updateField_null (.inl rfl)]
          exact represents.leaves_pure listed .nullArg
      | some bytes =>
          exact represents.leaves_update listed tail succeeds (shaped bytes rfl) layout small
  | updateVector type bytes =>
      have same := @Mutation.updateVector_sameEffect _ memory msg name fid
        (Mutation.validateNameFid_of_accepted shaped.2 key) type bytes
      obtain ⟨status, next, changed, result, rest⟩ :=
        represents.leaves_update listed tail succeeds shaped.1 layout small
      obtain ⟨report, returned⟩ := same.exists_result result
      exact ⟨report, next, changed, returned, rest⟩

end OmnmPayloadImpl.Represents

end Omnm
