import Omnm.Payload.Reads
import Omnm.Payload.Scratch

/-!
# What a read leaves

A read leaves the message, its tail and its header as they were
(`ReadCall.perform_impl`). Only `omnmmsgPayload_toString` touches the scratch
buffer, and it never shortens it.
-/

set_option autoImplicit false

namespace Omnm

open OmnmPayloadImpl

/-- The only read that prints into the scratch buffer. -/
def ReadCall.prints : ReadCall → Bool
  | .toString _ => true
  | _ => false

section

variable [FieldTypeTags] {object next : PayloadObject} {name : Option CString} {fid : UInt16}

theorem PayloadObject.impl_of_getField {status : MamaStatus}
    (ran : (object.getField name fid).result = some (status, next)) : next.impl = object.impl := by
  obtain ⟨⟨found, field⟩, -, located⟩ := Traced.result_bind_eq_some.mp ran
  cases located
  rfl

/-- A getter leaves the payload alone. -/
def ObjectLookup.Keeps {Value : Type} (get : ObjectLookup Value) : Prop :=
  ∀ object name fid status value next,
    (get object name fid).result = some (status, value, next) → next.impl = object.impl

theorem PayloadObject.getThroughField_keeps {Value : Type}
    (get : OmnmPayloadImpl → OmnmFieldImpl → FieldResults →
      Traced Region (MamaStatus × Value × FieldResults)) :
    ObjectLookup.Keeps (getThroughField get) := by
  intro object name fid status value next ran
  obtain ⟨⟨found, located⟩, looked, got⟩ := Traced.result_bind_eq_some.mp ran
  have same := impl_of_getField looked
  dsimp only at got
  split at got
  · cases got
    exact same
  · obtain ⟨⟨outcome, result, results⟩, -, given⟩ := Traced.result_bind_eq_some.mp got
    cases given
    exact same

theorem getVectorThroughField_keeps {Value : Type}
    (get : OmnmPayloadImpl → OmnmFieldImpl → FieldResults →
      Traced Region (MamaStatus × Value × FieldResults)) :
    ObjectLookup.Keeps (getVectorThroughField get) := by
  intro object name fid status value next ran
  rw [getVectorThroughField] at ran
  split at ran
  · cases ran
    rfl
  · exact PayloadObject.getThroughField_keeps get _ _ _ _ _ _ ran

omit [FieldTypeTags] in
theorem PayloadObject.impl_of_lookup {Value : Type} {get : ObjectLookup Value}
    (keeps : ObjectLookup.Keeps get) {result : MamaStatus → Option Value → ReadResult}
    {given : ReadResult} (ran : (object.lookup result get name fid).result = some (given, next)) :
    next.impl = object.impl := by
  obtain ⟨⟨status, value, later⟩, got, gives⟩ := Traced.result_bind_eq_some.mp ran
  cases gives
  exact keeps _ _ _ _ _ _ got

omit [FieldTypeTags] in
theorem PayloadObject.of_look {Value : Type} {result : Value → ReadResult}
    {computation : Traced Region Value} {given : ReadResult}
    (ran : (object.look result computation).result = some (given, next)) : next = object := by
  obtain ⟨value, -, gives⟩ := Traced.result_bind_eq_some.mp ran
  cases gives
  rfl

end

variable [FieldTypeTags] [MamaLibrary] [FieldPrinting]

/-- Printing never shortens the scratch buffer. -/
theorem length_le_of_toStringFrom {scratch : Allocator} {msg : OmnmPayloadImpl} {rounds : Nat}
    {iter : OmnmIterImpl} {mBuffer printed : List UInt8} {charIdx : Nat} {completed : Bool}
    (ran : (toStringFrom scratch msg rounds iter mBuffer charIdx).result =
      some (completed, printed)) : mBuffer.length ≤ printed.length := by
  induction rounds generalizing iter mBuffer charIdx with
  | zero => cases ran
  | succ rounds ih =>
      obtain ⟨⟨field, iter⟩, -, yielded⟩ := Traced.result_bind_eq_some.mp ran
      cases field with
      | none =>
          cases yielded
          exact (length_overwrite ..).ge
      | some field =>
          obtain ⟨⟨status, part⟩, -, rendered⟩ := Traced.result_bind_eq_some.mp yielded
          obtain ⟨written, -, named⟩ := Traced.result_bind_eq_some.mp rendered
          obtain ⟨fname, -, allocated⟩ := Traced.result_bind_eq_some.mp named
          dsimp only at allocated
          have larger := length_le_allocateBufferMemory scratch mBuffer
            (strlenEx fname + (part.getD CString.empty).bytes.length + 10 + charIdx)
          split at allocated
          · cases allocated
            exact Nat.le_refl _
          · obtain ⟨text, stored, rest⟩ := Traced.result_bind_eq_some.mp allocated
            cases stored
            split at rest
            · obtain ⟨comma, stored, rest⟩ := Traced.result_bind_eq_some.mp rest
              cases stored
              apply larger.trans
              simpa only [length_overwrite] using ih rest
            · apply larger.trans
              simpa only [length_overwrite] using ih rest

/-- The text of a payload goes into the scratch buffer and nowhere else. -/
theorem exists_printed_of_toString {scratch : Allocator} {msg next : OmnmPayloadImpl}
    {text : Option CString}
    (ran : (omnmmsgPayload_toString scratch msg).result = some (text, next)) :
    ∃ printed, next = withScratch printed msg ∧ msg.mBuffer.length ≤ printed.length := by
  obtain ⟨count, -, counted⟩ := Traced.result_bind_eq_some.mp ran
  obtain ⟨iter, -, started⟩ := Traced.result_bind_eq_some.mp counted
  dsimp only at started
  split at started
  · cases started
    exact ⟨msg.mBuffer, rfl, Nat.le_refl _⟩
  · obtain ⟨brace, stored, opened⟩ := Traced.result_bind_eq_some.mp started
    obtain ⟨⟨completed, printed⟩, looped, gives⟩ := Traced.result_bind_eq_some.mp opened
    cases stored
    cases gives
    refine ⟨printed, rfl, ?_⟩
    have larger := length_le_allocateBufferMemory scratch msg.mBuffer sizeofPart
    apply larger.trans
    simpa only [length_overwrite] using length_le_of_toStringFrom looped

/-- A read leaves the payload as it was, but for the scratch buffer, which it does not
shorten and, unless it prints, does not touch. -/
theorem ReadCall.perform_impl {call : ReadCall} {object next : PayloadObject} {given : ReadResult}
    (ran : (call.perform object).result = some (given, next)) :
    ∃ printed, next.impl = withScratch printed object.impl ∧
      object.impl.mBuffer.length ≤ printed.length ∧
      (call.prints = false → printed = object.impl.mBuffer) := by
  have kept : next.impl = object.impl → ∃ printed, next.impl = withScratch printed object.impl ∧
      object.impl.mBuffer.length ≤ printed.length ∧
      (call.prints = false → printed = object.impl.mBuffer) :=
    fun same => ⟨object.impl.mBuffer, same, Nat.le_refl _, fun _ => rfl⟩
  cases call with
  | toString scratch =>
      obtain ⟨⟨text, impl⟩, printing, gives⟩ := Traced.result_bind_eq_some.mp ran
      obtain ⟨printed, same, longer⟩ := exists_printed_of_toString printing
      cases gives
      exact ⟨printed, same, longer, by simp [ReadCall.prints]⟩
  | getDateTime name fid => exact kept (PayloadObject.impl_of_lookup
      (PayloadObject.getThroughField_keeps _) ran)
  | getPrice name fid => exact kept (PayloadObject.impl_of_lookup
      (PayloadObject.getThroughField_keeps _) ran)
  | getMsg memory name fid => exact kept (PayloadObject.impl_of_lookup
      (PayloadObject.getThroughField_keeps _) ran)
  | getVectorString memory name fid | getVectorDateTime memory name fid
  | getVectorPrice memory name fid | getVectorMsg memory name fid =>
      exact kept (PayloadObject.impl_of_lookup (getVectorThroughField_keeps _) ran)
  | getField name fid =>
      obtain ⟨⟨status, field, located⟩, looked, gives⟩ := Traced.result_bind_eq_some.mp ran
      obtain ⟨⟨found, later⟩, inside, same⟩ := Traced.result_bind_eq_some.mp looked
      cases gives
      cases same
      exact kept (PayloadObject.impl_of_getField inside)
  | _ => exact kept (congrArg PayloadObject.impl (PayloadObject.of_look ran))

end Omnm
