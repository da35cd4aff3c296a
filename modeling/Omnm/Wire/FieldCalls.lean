import Mathlib.Data.List.Forall2
import Omnm.Runs.Runs
import Omnm.Wire.Serialization

/-!
# Runs of field calls

A payload as a system that takes `addField`, `updateField`, `clear` and
`getField`, and a message as the system it implements. One call keeps a payload
and the message it represents in step, with equal answers (`perform_keeps`), so
runs do (`run_represents`).

The answers hold what a caller can see: the status, and for a field that was
found its type, fid, name and data, read through the pointers of its handle.
-/

set_option autoImplicit false

namespace Omnm

/-! ## What a field handle shows -/

/-- A field as its reader sees it. -/
structure FieldValue where
  type : UInt8
  fid : UInt16
  name : List UInt8
  data : List UInt8
  deriving DecidableEq, Repr

/-- The value of a field. -/
def FieldEntry.value (entry : FieldEntry) : FieldValue :=
  ⟨entry.type, entry.fid, entry.name.bytes, entry.data⟩

/-- A field is its value. -/
theorem FieldEntry.value_injective : Function.Injective FieldEntry.value := by
  rintro ⟨type, fid, name, data⟩ ⟨type', fid', name', data'⟩ same
  simp only [value, FieldValue.mk.injEq] at same
  obtain ⟨rfl, rfl, name_eq, rfl⟩ := same
  rw [CString.ext name_eq]

/-- The bytes of a string up to its terminator. -/
def stringAt (memory : List UInt8) : BufferPtr → List UInt8
  | .offset offset => slice memory offset ((nulIndex (memory.drop offset)).getD 0)
  | .null => []
  | .stray => []

/-- The bytes at a pointer. -/
def bytesAt (memory : List UInt8) (size : Nat) : BufferPtr → List UInt8
  | .offset offset => slice memory offset size
  | .null => []
  | .stray => []

/-- The value that the pointers of a handle show. -/
def OmnmPayloadImpl.valueOf (msg : OmnmPayloadImpl) (field : OmnmFieldImpl) : FieldValue where
  type := field.mFieldType
  fid := field.mFid
  name := stringAt msg.mPayloadBuffer field.mName
  data := bytesAt msg.mPayloadBuffer field.mSize field.mData

variable [FieldTypeTags]

/-- The fields a complete iteration shows. -/
def OmnmPayloadImpl.decodedFields (msg : OmnmPayloadImpl) : Option (List FieldValue) :=
  (iterateFields msg).result.map fun fields => fields.1.map msg.valueOf

/-- The handle of an encoded field shows the field. -/
theorem OmnmPayloadImpl.valueOf_handle {msg : OmnmPayloadImpl} {entry : FieldEntry}
    {position : Nat} {rest : List UInt8} (fits : DataFits entry.type entry.data)
    (here : msg.mPayloadBuffer.drop position = entry.encode ++ rest) (previous : BufferPtr) :
    msg.valueOf (entry.handle position previous) = entry.value := by
  obtain ⟨-, -, ⟨behind, nameHere⟩, dataHere⟩ := parts_of_drop here
  have name : stringAt msg.mPayloadBuffer (namePointer entry.name (position + 3)) =
      entry.name.bytes := by
    by_cases named : entry.name = CString.empty
    · rw [namePointer, if_pos named, named]
      rfl
    · rw [namePointer, if_neg named, stringAt, slice, nameHere, CString.nulIndex_terminated,
        Option.getD_some, CString.terminated, List.append_assoc, List.take_left]
  have data : bytesAt msg.mPayloadBuffer entry.data.length
      (entry.dataPointer previous (position + entry.head.length)) = entry.data := by
    by_cases unlisted : dataLayout entry.type = .unlisted
    · have empty : entry.data = [] := by
        unfold DataFits at fits
        simpa only [unlisted] using fits
      rw [FieldEntry.dataPointer, if_pos unlisted, empty]
      cases previous <;> rfl
    · have place : position + entry.head.length =
          position + 3 + entry.name.terminated.length + entry.lengthPart.length := by
        rw [entry.length_head, CString.length_terminated]
        omega
      rw [List.append_assoc] at dataHere
      rw [FieldEntry.dataPointer, if_neg unlisted, bytesAt, slice, place, drop_behind dataHere,
        List.take_left]
  simp only [valueOf, FieldEntry.handle, name, data, FieldEntry.value]

/-- The handles of consecutive fields show them. -/
theorem OmnmPayloadImpl.map_valueOf_fieldHandles {msg : OmnmPayloadImpl}
    {entries : List FieldEntry} {position : Nat} {rest : List UInt8} (fits : AllFit entries)
    (here : msg.mPayloadBuffer.drop position = encodeAll entries ++ rest) (previous : BufferPtr) :
    (fieldHandles entries position previous).map msg.valueOf = entries.map FieldEntry.value := by
  induction entries generalizing position previous with
  | nil => rfl
  | cons entry entries ih =>
      rw [encodeAll_cons, List.append_assoc] at here
      have first := valueOf_handle (fits entry (List.mem_cons_self ..)) here previous
      have others := ih (fun other member => fits other (List.mem_cons_of_mem _ member))
        (drop_behind here) (entry.handle position previous).mData
      rw [fieldHandles, List.map_cons, List.map_cons, first, others]

/-- Decoding a payload gives its fields. -/
theorem OmnmPayloadImpl.Decodes.decodedFields {msg : OmnmPayloadImpl} {entries : List FieldEntry}
    (decodes : msg.Decodes entries) :
    msg.decodedFields = some (entries.map FieldEntry.value) := by
  obtain ⟨last, result⟩ := decodes.iterateFields
  obtain ⟨rest, here⟩ := decodes.here
  rw [OmnmPayloadImpl.decodedFields, result, Option.map_some,
    map_valueOf_fieldHandles decodes.fits here]

/-! ## The calls -/

/-- The calls, each with the memory it gets if it asks for some. -/
inductive FieldCall where
  | addField (allocator : Allocator) (name : Option CString) (fid : UInt16) (data : FieldData)
  | updateField (allocator : Allocator) (name : Option CString) (fid : UInt16) (data : FieldData)
  | clear
  | getField (name : Option CString) (fid : UInt16)

/-- What a caller sees of a call. -/
structure Answer where
  status : MamaStatus
  found : Option FieldValue
  deriving DecidableEq, Repr

/-- A call on a payload. -/
def FieldCall.perform (msg : OmnmPayloadImpl) :
    FieldCall → Traced Region (Answer × OmnmPayloadImpl)
  | .addField allocator name fid data => do
      let (status, msg) ← msg.addField allocator data.type name fid data.bytes
      pure (⟨status, none⟩, msg)
  | .updateField allocator name fid data => do
      let (status, msg) ← msg.updateField allocator data.type name fid data.bytes
      pure (⟨status, none⟩, msg)
  | .clear => do
      let (status, msg) ← msg.clear
      pure (⟨status, none⟩, msg)
  | .getField name fid => do
      let (status, field) ← msg.getField name fid
      pure (⟨status, field.map msg.valueOf⟩, msg)

/-- A call on a message. -/
def FieldCall.onMessage (message : Message) : FieldCall → Answer × Message
  | .addField _ name fid data =>
      let (status, changed) := message.addField name fid data
      (⟨status, none⟩, changed)
  | .updateField _ name fid data =>
      let (status, changed) := message.updateField name fid data
      (⟨status, none⟩, changed)
  | .clear => (⟨.ok, none⟩, Message.empty)
  | .getField name fid =>
      match validateNameFid name fid with
      | some status => (⟨status, none⟩, message)
      | none =>
          match message.find name fid with
          | none => (⟨.notFound, none⟩, message)
          | some entry => (⟨.ok, some entry.value⟩, message)

/-- A lookup changes nothing. -/
theorem FieldCall.getField_onMessage (message : Message) (name : Option CString) (fid : UInt16) :
    ((FieldCall.getField name fid).onMessage message).2 = message := by
  simp only [FieldCall.onMessage]
  split
  · rfl
  · split <;> rfl

/-- The payload as a system of field calls. -/
def payloadStep (msg : OmnmPayloadImpl) (call : FieldCall) : Option (Answer × OmnmPayloadImpl) :=
  (call.perform msg).result

/-- The message as a system of field calls. -/
def messageStep (message : Message) (call : FieldCall) : Option (Answer × Message) :=
  some (call.onMessage message)

/-- Allocations of the call succeed. -/
def FieldCall.Served : FieldCall → Prop
  | .addField allocator _ _ _ => allocator.Succeeds
  | .updateField allocator _ _ _ => allocator.Succeeds
  | .clear => True
  | .getField _ _ => True

/-- An update does not land on a field of another layout. -/
def FieldCall.KeepsLayout (message : Message) : FieldCall → Prop
  | .addField .. => True
  | .updateField _ name fid data => message.SameLayout name fid data.type
  | .clear => True
  | .getField _ _ => True

/-- A call that keeps layouts and stays below 2 GiB. -/
structure FieldCall.Admissible (message : Message) (call : FieldCall) : Prop where
  keepsLayout : call.KeepsLayout message
  small : message.encode.length < 2 ^ 31
  smallAfter : (call.onMessage message).2.encode.length < 2 ^ 31

/-! ## Keeping step -/

namespace OmnmPayloadImpl.Represents

variable {msg : OmnmPayloadImpl} {message : Message}

/-- The handle of a field of the message shows the field. -/
theorem valueOf_handle (represents : msg.Represents message) {before after : List FieldEntry}
    {entry : FieldEntry} (split : message.entries = before ++ entry :: after)
    (previous : BufferPtr) :
    msg.valueOf (entry.handle (message.header.length + (encodeAll before).length) previous) =
      entry.value := by
  have fits : DataFits entry.type entry.data :=
    message.fits entry (by rw [split]; exact List.mem_append_right _ (List.mem_cons_self ..))
  obtain ⟨rest, here⟩ := represents.here_of_split split
  exact OmnmPayloadImpl.valueOf_handle fits here previous

/-- A lookup shows the first field of that key. -/
theorem findValue (represents : msg.Represents message) (name : Option CString) (fid : UInt16) :
    (msg.findFieldInBuffer name fid).result.map (Option.map msg.valueOf) =
      some ((message.find name fid).map FieldEntry.value) := by
  rcases represents.findFieldInBuffer name fid with ⟨absent, search⟩ |
    ⟨before, entry, after, previous, split, found, -, -, search⟩
  · rw [search, absent]
    rfl
  · rw [search, found, Option.map_some, Option.map_some, represents.valueOf_handle split,
      Option.map_some]

theorem getField (represents : msg.Represents message) (name : Option CString) (fid : UInt16) :
    payloadStep msg (.getField name fid) =
      some (((FieldCall.getField name fid).onMessage message).1, msg) := by
  have shown := represents.findValue name fid
  rw [payloadStep, FieldCall.perform, FieldCall.onMessage, OmnmPayloadImpl.getField]
  cases validateNameFid name fid with
  | some status => rfl
  | none =>
      obtain ⟨field, search, value⟩ := Option.map_eq_some_iff.mp shown
      cases found : message.find name fid with
      | none =>
          rw [found] at value
          obtain rfl := Option.map_eq_none_iff.mp value
          simp [search]
      | some entry =>
          rw [found] at value
          obtain ⟨handle, rfl, shows⟩ := Option.map_eq_some_iff.mp value
          simp [search, shows]

/-- One call keeps a payload and its message in step. -/
theorem perform_keeps (represents : msg.Represents message) {call : FieldCall}
    (served : call.Served) (admissible : call.Admissible message) :
    ∃ next, payloadStep msg call = some ((call.onMessage message).1, next) ∧
      next.Represents (call.onMessage message).2 := by
  obtain ⟨keepsLayout, small, smallAfter⟩ := admissible
  cases call with
  | addField allocator name fid data =>
      obtain ⟨next, keeps⟩ := represents.addField served smallAfter
      refine ⟨next, ?_, keeps.represents⟩
      rw [payloadStep, FieldCall.perform, Traced.result_bind, keeps.result]
      rfl
  | updateField allocator name fid data =>
      obtain ⟨next, keeps⟩ := represents.updateField served keepsLayout small smallAfter
      refine ⟨next, ?_, keeps.represents⟩
      rw [payloadStep, FieldCall.perform, Traced.result_bind, keeps.result]
      rfl
  | clear =>
      have room : 3 ≤ msg.mPayloadBufferSize :=
        (represents.tail ▸ message.three_le_length_encode).trans represents.tail_le
      obtain ⟨next, keeps⟩ := Represents.clear msg room
      refine ⟨next, ?_, keeps.represents⟩
      rw [payloadStep, FieldCall.perform, Traced.result_bind, keeps.result]
      rfl
  | getField name fid =>
      refine ⟨msg, represents.getField name fid, ?_⟩
      rw [FieldCall.getField_onMessage]
      exact represents

end OmnmPayloadImpl.Represents

/-! ## Runs -/

/-- Two calls that ask for the same, with whatever memory each gets. -/
inductive FieldCall.SameRequest : FieldCall → FieldCall → Prop
  | addField (allocator allocator' : Allocator) (name : Option CString) (fid : UInt16)
      (data : FieldData) :
      SameRequest (.addField allocator name fid data) (.addField allocator' name fid data)
  | updateField (allocator allocator' : Allocator) (name : Option CString) (fid : UInt16)
      (data : FieldData) :
      SameRequest (.updateField allocator name fid data) (.updateField allocator' name fid data)
  | clear : SameRequest .clear .clear
  | getField (name : Option CString) (fid : UInt16) :
      SameRequest (.getField name fid) (.getField name fid)

/-- A message does not see the memory of a call. -/
theorem FieldCall.SameRequest.admissible {call call' : FieldCall} (same : call.SameRequest call')
    {message : Message} (admissible : call'.Admissible message) :
    call.Admissible message ∧ call.onMessage message = call'.onMessage message := by
  obtain ⟨keepsLayout, small, smallAfter⟩ := admissible
  cases same with
  | addField => exact ⟨⟨keepsLayout, small, smallAfter⟩, rfl⟩
  | updateField => exact ⟨⟨keepsLayout, small, smallAfter⟩, rfl⟩
  | clear => exact ⟨⟨keepsLayout, small, smallAfter⟩, rfl⟩
  | getField => exact ⟨⟨keepsLayout, small, smallAfter⟩, rfl⟩

theorem FieldCall.SameRequest.refl (call : FieldCall) : call.SameRequest call := by
  cases call with
  | addField allocator name fid data => exact .addField ..
  | updateField allocator name fid data => exact .updateField ..
  | clear => exact .clear
  | getField name fid => exact .getField ..

/-- A run keeps a payload and its message in step. -/
theorem run_represents {msg : OmnmPayloadImpl} {message : Message} {calls requests : List FieldCall}
    (represents : msg.Represents message) (served : ∀ call ∈ calls, call.Served)
    (same : List.Forall₂ FieldCall.SameRequest calls requests)
    (along : Along messageStep (fun message call => call.Admissible message) message requests) :
    ∃ answers last lastMessage, run payloadStep msg calls = some (answers, last) ∧
      run messageStep message requests = some (answers, lastMessage) ∧
      last.Represents lastMessage := by
  have pairs : List.Forall₂ (fun call request => call.Served ∧ call.SameRequest request)
      calls requests := (List.forall₂_and_left calls requests).mpr ⟨served, same⟩
  refine run_simulation ?_ calls requests msg message represents pairs along
  rintro msg message call request represents ⟨served, same⟩ admissible
  obtain ⟨also, equal⟩ := same.admissible admissible
  obtain ⟨next, stepped, keeps⟩ := represents.perform_keeps served also
  rw [equal] at stepped keeps
  exact ⟨_, next, _, stepped, rfl, keeps⟩

end Omnm
