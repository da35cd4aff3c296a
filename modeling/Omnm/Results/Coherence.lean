import Omnm.Runs.Runs
import Omnm.Wire.HandleUpdates
import Omnm.Wire.Representation

/-!
# A handle under updates through it

A handle that `getField` or an iteration gave out shows a field of the message.
An update through it that keeps the length of the data changes that field only,
and the handle shows the field again. An update that changes the length leaves
the old length in the handle, so the handle then differs from the field as the
buffer shows it. Over a run of updates that are all reported as OK the handle is
coherent in every state if and only if all of them write data of the length that
the field had at the start (`handle_coherent_iff`).
-/

set_option autoImplicit false

namespace Omnm

open FieldTypeTags (tag)

section

variable [FieldTypeTags]

/-! ## Updates in a row -/

/-- An update through a handle, with the memory it gets. -/
structure FieldUpdateCall where
  allocator : Allocator
  update : FieldUpdate

/-- A payload and a handle into it, as a system of updates. -/
def handleStep (state : OmnmPayloadImpl × OmnmFieldImpl) (call : FieldUpdateCall) :
    Option (MamaStatus × OmnmPayloadImpl × OmnmFieldImpl) :=
  (call.update.perform call.allocator state.1 state.2).result

omit [FieldTypeTags] in
/-- The field with the data of the last update. -/
def FieldEntry.updated (entry : FieldEntry) (calls : List FieldUpdateCall) : FieldEntry :=
  calls.foldl (fun entry call =>
    match call.update.written with
    | none => entry
    | some (_, bytes) => { entry with data := bytes }) entry

/-- A caller has the handle from `getField` or from an iteration. -/
def OmnmPayloadImpl.HandsOut (msg : OmnmPayloadImpl) (field : OmnmFieldImpl) : Prop :=
  (∃ name fid, (msg.getField name fid).result = some (.ok, some field)) ∨
    ∃ fields last, (iterateFields msg).result = some (fields, last) ∧ field ∈ fields

/-- The payload decodes to the fields around a field and that field, and the handle is the one
by which the payload shows it. -/
def Coherent (before : List FieldEntry) (entry : FieldEntry) (after : List FieldEntry)
    (state : OmnmPayloadImpl × OmnmFieldImpl) : Prop :=
  state.1.Decodes (before ++ entry :: after) ∧
    ∃ fields last, (iterateFields state.1).result = some (fields, last) ∧
      fields[before.length]? = some state.2

/-! ## The handle that is given out -/

variable {msg next : OmnmPayloadImpl} {before after entries : List FieldEntry} {entry : FieldEntry}
  {field field' : OmnmFieldImpl} {call : FieldUpdateCall} {calls : List FieldUpdateCall}

/-- A handle that was given out is that of a field. -/
theorem exists_of_handsOut (decodes : msg.Decodes entries) (obtained : msg.HandsOut field) :
    ∃ before entry after previous, entries = before ++ entry :: after ∧
      field = entry.handle (msg.positionOf before) previous ∧
      Coherent before entry after (msg, field) := by
  obtain ⟨last, iterated⟩ := decodes.iterateFields
  have member : field ∈ fieldHandles entries msg.getHeaderSize .null := by
    rcases obtained with ⟨name, fid, found⟩ | ⟨fields, last', result, member⟩
    · unfold OmnmPayloadImpl.getField at found
      cases key : validateNameFid name fid with
      | some status =>
          rw [key] at found
          cases found
      | none =>
          simp only [key, Traced.result_bind, decodes.findFieldInBuffer name fid,
            Option.bind_some] at found
          cases search : findHandle name fid entries msg.getHeaderSize .null with
          | none =>
              rw [search] at found
              cases found
          | some handle =>
              rw [search] at found
              cases found
              exact mem_fieldHandles_of_findHandle search
    · cases iterated.symm.trans result
      exact member
  obtain ⟨before, entry, after, previous, split, handle, place⟩ := exists_of_mem_fieldHandles member
  exact ⟨before, entry, after, previous, split, handle, split ▸ decodes, _, last, iterated, place⟩

/-! ## One update -/

/-- The handle of a field is the one by which an iteration shows it. -/
theorem coherent_of_handle {previous : BufferPtr} (decodes : msg.Decodes (before ++ entry :: after))
    (listed : dataLayout entry.type ≠ .unlisted) :
    Coherent before entry after (msg, entry.handle (msg.positionOf before) previous) := by
  obtain ⟨last, iterated⟩ := decodes.iterateFields
  exact ⟨decodes, _, last, iterated, fieldHandles_at listed ..⟩

/-- A coherent handle has the length of the data. -/
theorem Coherent.mSize (coherent : Coherent before entry after (msg, field)) :
    field.mSize = entry.data.length := by
  obtain ⟨decodes, fields, last, iterated, place⟩ := coherent
  obtain ⟨last', shown⟩ := decodes.iterateFields
  cases shown.symm.trans iterated
  exact mSize_of_fieldHandles place

/-- An update that is reported as OK writes data of the type of the field. -/
theorem exists_written {status : MamaStatus} {previous : BufferPtr}
    (stepped : handleStep (msg, entry.handle (msg.positionOf before) previous) call =
      some (status, next, field')) (ok : status = .ok) :
    ∃ type bytes, call.update.written = some (type, bytes) ∧ entry.type = tag type ∧
      dataLayout entry.type ≠ .unlisted ∧ DataFits entry.type bytes ∧
      OmnmPayloadImpl.ResultsOk call.allocator msg (tag type)
        (entry.handle (msg.positionOf before) previous) bytes next field' := by
  subst ok
  obtain ⟨type, bytes, written, sameType, performed⟩ := FieldUpdate.perform_eq stepped
  rw [FieldEntry.handle_mFieldType] at sameType
  obtain ⟨known, fits⟩ := FieldUpdate.written_fits written
  refine ⟨type, bytes, written, sameType, ?_, sameType ▸ fits, ?_⟩
  · rw [sameType]
    exact dataLayout_tag type known
  · rw [handleStep, performed] at stepped
    exact stepped

/-- Over updates that are reported as OK, a handle that shows its field stays coherent exactly
if all of them keep the length of the data. -/
theorem allAlong_coherent_iff {previous : BufferPtr} {outs : List MamaStatus}
    {last : OmnmPayloadImpl × OmnmFieldImpl}
    (coherent : Coherent before entry after
      (msg, entry.handle (msg.positionOf before) previous))
    (ran : run handleStep (msg, entry.handle (msg.positionOf before) previous) calls =
      some (outs, last))
    (ok : ∀ status ∈ outs, status = .ok) :
    AllAlong handleStep (fun done state => Coherent before (entry.updated done) after state)
        (msg, entry.handle (msg.positionOf before) previous) calls ↔
      ∀ call ∈ calls, ∀ type bytes, call.update.written = some (type, bytes) →
        bytes.length = entry.data.length := by
  induction calls generalizing msg entry previous outs with
  | nil =>
      rw [allAlong_nil]
      exact ⟨fun _ call member => (List.not_mem_nil member).elim, fun _ => coherent⟩
  | cons call calls ih =>
      obtain ⟨status, ⟨next, field'⟩, rest, stepped, ran, rfl⟩ := run_cons_eq_some ran
      obtain ⟨type, bytes, written, sameType, listed, fits, updated⟩ :=
        exists_written stepped (ok status (List.mem_cons_self ..))
      have okLater : ∀ status ∈ rest, status = .ok :=
        fun other member => ok other (List.mem_cons_of_mem _ member)
      have changed : entry.updated [call] = { entry with data := bytes } := by
        simp only [FieldEntry.updated, List.foldl_cons, written, List.foldl_nil]
      have folded : ∀ done, entry.updated (call :: done) =
          FieldEntry.updated { entry with data := bytes } done := by
        intro done
        simp only [FieldEntry.updated, List.foldl_cons, written]
      rw [allAlong_cons stepped]
      simp only [folded]
      by_cases same : bytes.length = entry.data.length
      · obtain ⟨decodes, place, rfl⟩ := coherent.1.update_same listed fits same updated
        have later := ih (coherent_of_handle decodes listed) ran okLater
        rw [later]
        constructor
        · rintro ⟨-, lengths⟩ other member type' bytes' written'
          rcases List.mem_cons.mp member with rfl | behind
          · cases written.symm.trans written'
            exact same
          · exact (lengths other behind type' bytes' written').trans same
        · intro lengths
          refine ⟨coherent, ?_⟩
          intro other behind type' bytes' written'
          exact (lengths other (List.mem_cons_of_mem _ behind) type' bytes' written').trans
            same.symm
      · constructor
        · rintro ⟨-, all⟩
          have now := all [] [] (next, field') List.nil_prefix rfl
          have size : field'.mSize = bytes.length := Coherent.mSize now
          -- the handle still has the old length
          exact absurd (size.symm.trans updated.kept.2.2) same
        · intro lengths
          exact absurd (lengths call (List.mem_cons_self ..) type bytes written) same

end

/-- A handle that was given out shows a field, and over every run of updates through it that are
all reported as OK, in every state the payload decodes to the fields around that field and the
field with the last data written, and the handle is the one by which the payload shows the
field, if and only if all updates write data of the field's length. -/
theorem handle_coherent_iff [FieldTypeTags] {msg : OmnmPayloadImpl} {message : Message}
    (represents : msg.Represents message) {field : OmnmFieldImpl} (obtained : msg.HandsOut field) :
    ∃ before entry after, message.entries = before ++ entry :: after ∧
      Coherent before entry after (msg, field) ∧
      ∀ calls outs last, run handleStep (msg, field) calls = some (outs, last) →
        (∀ status ∈ outs, status = .ok) →
        (AllAlong handleStep (fun done state => Coherent before (entry.updated done) after state)
            (msg, field) calls ↔
          ∀ call ∈ calls, ∀ type bytes, call.update.written = some (type, bytes) →
            bytes.length = entry.data.length) := by
  obtain ⟨before, entry, after, previous, split, rfl, coherent⟩ :=
    exists_of_handsOut represents.decodes obtained
  exact ⟨before, entry, after, split, coherent, fun calls outs last ran ok =>
    allAlong_coherent_iff coherent ran ok⟩

section Example

attribute [local instance] mamaFieldTypes

/-- A string field with fid 1 and no name. -/
def stringField : FieldEntry := ⟨mamaFieldTypeNumber .string, 1, CString.empty, [97, 98, 0]⟩

/-- The message with that field. -/
def stringMessage : Message :=
  ⟨mamaPayloadIdOmnm, 1, [], [stringField], UInt8.le_refl omnmProtocolVersion,
    Message.extra_nil_lt, by
      intro entry member
      rw [List.mem_singleton.mp member]
      decide⟩

/-- The handle that a lookup gives for the field. -/
def stringHandle : OmnmFieldImpl := ⟨mamaFieldTypeNumber .string, 1, .null, 3, .offset 7⟩

theorem stringHandle_handedOut : stringMessage.payload.HandsOut stringHandle :=
  .inl ⟨none, 1, by decide +kernel⟩

/-- An update of the string. -/
def updateTo (bytes : List UInt8) (noNul : (0 : UInt8) ∉ bytes) : FieldUpdateCall :=
  ⟨.zeroing, .string (some ⟨bytes, noNul⟩)⟩

theorem handle_coherent_same_length :
    ∃ before entry after, stringMessage.entries = before ++ entry :: after ∧
      AllAlong handleStep (fun done state => Coherent before (entry.updated done) after state)
        (stringMessage.payload, stringHandle) [updateTo [99, 100] (by decide)] := by
  obtain ⟨before, entry, after, split, coherent, iff⟩ :=
    handle_coherent_iff stringMessage.payload_represents stringHandle_handedOut
  have ran : ∃ last, run handleStep (stringMessage.payload, stringHandle)
      [updateTo [99, 100] (by decide)] = some ([.ok], last) := by
    refine ⟨({ stringMessage.payload with
      mPayloadBuffer := [79, 1, 0, 8, 1, 0, 0, 99, 100, 0] }, stringHandle), ?_⟩
    decide +kernel
  obtain ⟨last, ran⟩ := ran
  refine ⟨before, entry, after, split, (iff _ _ last ran (by decide)).mpr ?_⟩
  intro call member type bytes written
  rw [List.mem_singleton.mp member] at written
  cases written
  exact coherent.mSize

/-- An update to a longer string leaves the old length in the handle. -/
theorem handle_keeps_old_length :
    stringMessage.payload.Represents stringMessage ∧
      stringMessage.payload.HandsOut stringHandle ∧
      ∃ last, run handleStep (stringMessage.payload, stringHandle)
          [updateTo [97, 98, 99] (by decide)] = some ([.ok], last) ∧
        ∀ before entry after, stringMessage.entries = before ++ entry :: after →
          ¬ AllAlong handleStep
            (fun done state => Coherent before (entry.updated done) after state)
            (stringMessage.payload, stringHandle) [updateTo [97, 98, 99] (by decide)] := by
  have ran : run handleStep (stringMessage.payload, stringHandle)
      [updateTo [97, 98, 99] (by decide)] = some ([.ok], ({ stringMessage.payload with
        mPayloadBuffer := [79, 1, 0, 8, 1, 0, 0, 97, 98, 99, 0]
        mPayloadBufferTail := 11 }, stringHandle)) := by
    decide +kernel
  refine ⟨stringMessage.payload_represents, stringHandle_handedOut, _, ran, ?_⟩
  intro before entry after split all
  have size := (all _ _ _ List.prefix_rfl ran).mSize
  -- the handle has the length 3, the string of the update has four bytes
  exact absurd size (by simp [stringHandle, FieldEntry.updated, updateTo, FieldUpdate.written,
    CString.terminated])

end Example

end Omnm
