import Omnm.Payload.Reads
import Omnm.Wire.Mutations
import Omnm.Wire.Refinement
import Omnm.Wire.Values

/-!
# Lookups through the field of a payload

A payload object finds a field in `mField` and hands it to the getter of a field.
On a payload that holds a message the getter is handed the first field with the
key (`getVectorThroughField_of_find`), whatever `mField` held before.
-/

set_option autoImplicit false

namespace Omnm

namespace OmnmPayloadImpl.Represents

variable [FieldTypeTags] {msg : OmnmPayloadImpl} {message : Message} {name : Option CString}
  {fid : UInt16}

/-- A lookup under an accepted key. -/
theorem getField_of_accepted (represents : msg.Represents message)
    (key : validateNameFid name fid = none) :
    (message.find name fid = none ∧ (msg.getField name fid).result = some (.notFound, none)) ∨
      ∃ before entry after previous, message.entries = before ++ entry :: after ∧
        message.find name fid = some entry ∧ entry.hasKey name fid = true ∧
        (∀ other ∈ before, other.hasKey name fid = false) ∧
        (msg.getField name fid).result = some (.ok, some
          (entry.handle (message.header.length + (encodeAll before).length) previous)) := by
  rcases represents.findFieldInBuffer name fid with ⟨absent, search⟩ |
    ⟨before, entry, after, previous, split, found, matching, none, search⟩
  · refine .inl ⟨absent, ?_⟩
    simp only [OmnmPayloadImpl.getField, key, Traced.result_bind, search, Option.bind_some]
    rfl
  · refine .inr ⟨before, entry, after, previous, split, found, matching, none, ?_⟩
    simp only [OmnmPayloadImpl.getField, key, Traced.result_bind, search, Option.bind_some]
    rfl

/-- A getter of a vector hands the first field with the key to the getter of a field. -/
theorem getVectorThroughField_of_find {Value : Type} {object : PayloadObject} {entry : FieldEntry}
    (represents : object.impl.Represents message) (found : message.find name fid = some entry)
    (listed : dataLayout entry.type ≠ .unlisted)
    (get : OmnmPayloadImpl → OmnmFieldImpl → FieldResults →
      Traced Region (MamaStatus × Value × FieldResults)) :
    ∃ field, entry.HandledBy object.impl field ∧
      (getVectorThroughField get object name fid).result =
        (get object.impl field object.results).result.map fun (status, value, results) =>
          (status, some value, { object with mField := field, results }) := by
  have key : validateNameFid name fid = none := by
    cases rejected : validateNameFid name fid with
    | none => rfl
    | some status => cases found.symm.trans (message.find_of_rejected rejected)
  rcases represents.getField_of_accepted key with ⟨absent, -⟩ |
    ⟨before, first, after, previous, split, same, -, -, lookup⟩
  · cases found.symm.trans absent
  · cases found.symm.trans same
    obtain ⟨rest, here⟩ := represents.here_of_split split
    refine ⟨_, FieldEntry.handledBy_of_drop listed here previous, ?_⟩
    simp only [getVectorThroughField, key, PayloadObject.getThroughField, PayloadObject.getField,
      Traced.result_bind, lookup, Option.bind_some, Traced.result_pure, Option.getD_some, ne_eq,
      not_true_eq_false, if_false]
    rw [Option.map_eq_bind]
    rfl

/-- An update of a type with a length, under a key without a field or of a field of that type,
makes the data that of the first field with the key. -/
theorem updateField_sized {allocator : Allocator} (represents : msg.Represents message)
    (succeeds : allocator.Succeeds) {type : UInt8} (sized : dataLayout type = .sized)
    {bytes : List UInt8} (accepted : Accepted name fid bytes)
    (short : message.find name fid = none → strlenEx name + 1 < 2 ^ 31)
    (below : msg.mPayloadBufferTail < 2 ^ 31)
    (takes : ∀ entry, message.find name fid = some entry → entry.type = type) :
    ∃ next changed entry,
      (msg.updateField allocator type name fid (some bytes)).result = some (.ok, next) ∧
        next.Represents changed ∧ changed.find name fid = some entry ∧ entry.type = type ∧
        entry.data = bytes := by
  have given := not_none_of_validateNameFid accepted.key
  rcases represents.findFieldInBuffer name fid with ⟨absent, search⟩ |
    ⟨before, entry, after, previous, split, found, matching, none, search⟩
  · obtain ⟨fits, next, keeps⟩ := represents.append_sized succeeds sized accepted (short absent)
      (by omega)
    refine ⟨next, _, _, ?_, keeps.represents,
      Message.find_append absent fits (hasKey_of_validateNameFid accepted.key), rfl, rfl⟩
    rw [updateField_of_search given search]
    exact keeps.result
  · have same := takes entry found
    have castable : ¬ (entry.type ≠ type ∧ areFieldTypesCastable entry.type type = false) :=
      fun refused => refused.1 same
    have four : bytes.length < 2 ^ 32 := Nat.lt_succ_of_le accepted.length_le
    have fits : DataFits entry.type bytes := by simpa only [DataFits, same, sized] using four
    obtain ⟨next, field, updated, replaced, -⟩ := represents.updateFieldHandle succeeds split
      matching none castable (by rw [same, sized]; simp) fits (.inr below) (by omega) previous
    refine ⟨next, _, _, ?_, replaced, Message.find_replace split matching none fits, same, rfl⟩
    rw [updateField_of_search given search, updateFound_castable castable, Traced.result_bind,
      updated]
    rfl

end OmnmPayloadImpl.Represents

end Omnm
