import Omnm.Payload.Handles

/-!
# What the mutators can return

Inversion of the two mutators: a call of `addField` that returns was refused and
changed nothing, or appended a field at the tail it computed
(`addField_cases`). A call of `updateField` was refused, or became an addition
because no field has the key, or updated the field that its lookup found
(`updateField_cases`). Nothing is assumed about the bytes of the payload, about
sizes, or about the memory the call gets.
-/

set_option autoImplicit false

namespace Omnm

variable [FieldTypeTags] {msg next : OmnmPayloadImpl} {allocator : Allocator} {type : UInt8}
  {name : Option CString} {fid : UInt16} {status : MamaStatus}

namespace OmnmPayloadImpl

omit [FieldTypeTags] in
/-- The name part of `addField` keeps the length of the buffer. -/
theorem length_of_insertName {memory changed : List UInt8} {insertPoint behind : Nat} {nameLen : Int}
    (inserted : (insertName memory insertPoint name nameLen).result = some (changed, behind)) :
    changed.length = memory.length := by
  cases name with
  | none =>
      cases inserted
      exact length_overwrite ..
  | some name =>
      rw [insertName] at inserted
      split at inserted
      · cases inserted
      · cases inserted
        exact length_overwrite ..

/-- The length part of `addField` keeps the length of the buffer. -/
theorem length_of_insertLength {memory changed : List UInt8} {insertPoint behind length : Nat}
    (inserted : (insertLength memory insertPoint type length).result = some (changed, behind)) :
    changed.length = memory.length := by
  rw [insertLength] at inserted
  split at inserted
  · cases inserted
    exact length_overwrite ..
  · cases inserted
    rfl

/-- A call of `addField` appended a field in the memory it got. -/
structure Appended (allocator : Allocator) (msg : OmnmPayloadImpl) (type : UInt8)
    (name : Option CString) (length : Nat) (next : OmnmPayloadImpl) : Prop where
  tail : next.mPayloadBufferTail = newTailOffset msg type name length
  size : next.mPayloadBufferSize =
    (allocateBufferMemory allocator msg.mPayloadBuffer
      (newTailOffset msg type name length)).buffer.length
  header : next.mHeader = msg.mHeader
  scratch : next.mBuffer = msg.mBuffer

/-- A call of `addField` with accepted arguments returns OK and appends a field, if it returns. -/
theorem appended_of_addField {bytes : List UInt8} (accepted : rejection name fid bytes = none)
    (added : (msg.addField allocator type name fid (some bytes)).result = some (status, next)) :
    status = .ok ∧ Appended allocator msg type name bytes.length next := by
  obtain ⟨length, some_bytes, key⟩ := accepted_iff_rejection.mpr accepted
  have given : ¬ (bytes = [] ∨ (name = none ∧ fid = 0)) := by
    rintro (empty | null)
    · exact some_bytes empty
    · exact not_none_of_validateNameFid key null
  rw [addField, Option.getD_some, if_neg (Nat.not_lt.mpr length), if_neg given, key] at added
  obtain ⟨first, typeStored, added⟩ := Traced.result_bind_eq_some.mp added
  obtain ⟨second, fidStored, added⟩ := Traced.result_bind_eq_some.mp added
  obtain ⟨⟨third, behindName⟩, nameStored, added⟩ := Traced.result_bind_eq_some.mp added
  obtain ⟨⟨fourth, behindLength⟩, lengthStored, added⟩ := Traced.result_bind_eq_some.mp added
  obtain ⟨fifth, dataStored, added⟩ := Traced.result_bind_eq_some.mp added
  cases added
  refine ⟨rfl, rfl, ?_, rfl, rfl⟩
  cases typeStored
  cases fidStored
  cases dataStored
  dsimp only [mPayloadBufferSize]
  rw [length_overwrite, length_of_insertLength lengthStored, length_of_insertName nameStored,
    length_overwrite, length_overwrite]

/-- A call of `addField` that returns refuses, or appends a field. -/
theorem addField_cases {buffer : Option (List UInt8)}
    (added : (msg.addField allocator type name fid buffer).result = some (status, next)) :
    (status ≠ .ok ∧ next = msg) ∨
      (status = .ok ∧ Appended allocator msg type name (buffer.getD []).length next) := by
  have given : msg.addField allocator type name fid buffer =
      msg.addField allocator type name fid (some (buffer.getD [])) := by
    cases buffer <;> rfl
  rw [given] at added
  cases rejected : rejection name fid (buffer.getD []) with
  | some refusal =>
      rw [addField_of_rejection rejected] at added
      cases added
      exact .inl ⟨fun ok => rejection_ne_ok (rejected.trans (congrArg some ok)), rfl⟩
  | none => exact .inr (appended_of_addField rejected added)

/-- The update of a handle whose type is castable returns OK, if it returns. -/
theorem status_of_updateFieldHandle {field : OmnmFieldImpl} {bytes : List UInt8}
    {outcome : OmnmPayloadImpl × OmnmFieldImpl}
    (castable : ¬ (field.mFieldType ≠ type ∧ areFieldTypesCastable field.mFieldType type = false))
    (updated : (msg.updateFieldHandle allocator type field (some bytes)).result =
      some (status, outcome)) : status = .ok := by
  rw [updateFieldHandle] at updated
  dsimp only at updated
  rw [if_neg castable] at updated
  cases place : field.mData with
  | null | stray => simp [place] at updated
  | offset data =>
      simp only [place] at updated
      obtain ⟨_, -, updated⟩ := Traced.result_bind_eq_some.mp updated
      obtain ⟨_, -, updated⟩ := Traced.result_bind_eq_some.mp updated
      obtain ⟨_, -, updated⟩ := Traced.result_bind_eq_some.mp updated
      cases updated
      rfl

/-- A call of `updateField` that returns refuses, adds the field, or updates the one found. -/
theorem updateField_cases {bytes : List UInt8}
    (updated : (msg.updateField allocator type name fid (some bytes)).result =
      some (status, next)) :
    (status ≠ .ok ∧ next = msg ∧ ((name = none ∧ fid = 0) ∨
        ∃ field, (msg.findFieldInBuffer name fid).result = some (some field) ∧
          field.mFieldType ≠ type ∧ areFieldTypesCastable field.mFieldType type = false)) ∨
      ((msg.findFieldInBuffer name fid).result = some none ∧
        (msg.addField allocator type name fid (some bytes)).result = some (status, next)) ∨
      ∃ field after, ¬ (name = none ∧ fid = 0) ∧
        (msg.findFieldInBuffer name fid).result = some (some field) ∧
        ¬ (field.mFieldType ≠ type ∧ areFieldTypesCastable field.mFieldType type = false) ∧
        status = .ok ∧ ResultsOk allocator msg type field bytes next after := by
  rw [updateField] at updated
  split at updated
  · rename_i null
    cases updated
    exact .inl ⟨by simp, rfl, .inl (null.resolve_left (by simp))⟩
  · rename_i key
    obtain ⟨found, search, updated⟩ := Traced.result_bind_eq_some.mp updated
    cases found with
    | none => exact .inr (.inl ⟨search, updated⟩)
    | some field =>
        dsimp only at updated
        split at updated
        · rename_i refused
          cases updated
          exact .inl ⟨by simp, rfl, .inr ⟨field, search, refused⟩⟩
        · rename_i castable
          obtain ⟨⟨report, changed, after⟩, performed, returned⟩ :=
            Traced.result_bind_eq_some.mp updated
          cases returned
          have ok := status_of_updateFieldHandle castable performed
          subst ok
          exact .inr (.inr ⟨field, after, fun null => key (.inr null), search, castable, rfl,
            performed⟩)

end OmnmPayloadImpl

end Omnm
