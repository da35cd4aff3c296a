import Omnm.Runs.Dialogues
import Omnm.Wire.HandleUpdates
import Omnm.Wire.ObjectRuns

/-!
# Iterating with a callback

`omnmmsgPayload_iterateFields` gives each field to a callback, which may call the
message that is iterated over and update it through the field. A callback is
modelled as a `Dialogue`: it sees what the field shows and the closure, calls,
goes on by the answers, and leaves the closure (`MamaMsgIteratorCb`).

A message serves the same calls (`placeServe`): an update through the field in
hand changes the data of the field at its index. A call that keeps what stands
up to there as long as it is (`Message.Steady`) keeps an object and its message
in step, with the field in hand (`InHand.perform`). So does what a callback does
with a field (`InHand.converse`).
-/

set_option autoImplicit false

namespace Omnm

open FieldTypeTags (tag)
open OmnmPayloadImpl

/-! ## What a callback does -/

/-- What a callback calls: the message, or an update through the field that it was given. -/
inductive CallbackCall where
  | message (call : ObjectCall)
  | field (allocator : Allocator) (update : FieldUpdate)

/-- `mamaMsgIteratorCb`: what it does with a field that shows a value, and the closure it
leaves. -/
abbrev MamaMsgIteratorCb (Closure : Type) :=
  FieldValue → Closure → Dialogue CallbackCall Observation Closure

variable [FieldTypeTags] [MamaLibrary] [FieldPrinting]

/-- A call of a callback, on the message and the field inside the iterator. -/
def callbackStep (state : PayloadObject × OmnmFieldImpl) :
    CallbackCall → Option (Observation × PayloadObject × OmnmFieldImpl)
  | .message call =>
      (observedStep state.1 call).map fun answered => (answered.1, answered.2, state.2)
  | .field allocator update =>
      (update.perform allocator state.1.impl state.2).result.map fun updated =>
        (.status updated.1, { state.1 with impl := updated.2.1 }, updated.2.2)

/-- The loop of `omnmmsgPayload_iterateFields`. A loop that needs more rounds than the bound has
no result. -/
def whileNext {Closure : Type} (cb : MamaMsgIteratorCb Closure) :
    Nat → OmnmIterImpl → PayloadObject → Closure → Option (Closure × PayloadObject)
  | 0, _, _, _ => none
  | rounds + 1, iter, object, closure => do
      let (fieldPayload, iter) ← (omnmmsgPayloadIter_next iter object.impl).result
      match fieldPayload with
      | none => pure (closure, object)
      | some field => do
          let (closure, object, field) ←
            (cb (object.impl.valueOf field) closure).converse callbackStep (object, field)
          whileNext cb rounds { iter with mField := field } object closure

/-- `omnmmsgPayload_iterateFields`, on a message, a parent and a field that are not NULL. -/
def omnmmsgPayload_iterateFields {Closure : Type} (cb : Option (MamaMsgIteratorCb Closure))
    (rounds : Nat) (object : PayloadObject) (closure : Closure) :
    Option (MamaStatus × Closure × PayloadObject) :=
  match cb with
  | none => some (.nullArg, closure, object)
  | some cb => do
      let iter ← (omnmmsgPayloadIterImpl_init object.impl).result
      let (closure, object) ← whileNext cb rounds iter object closure
      pure (.ok, closure, object)

/-! ## What a message makes of it -/

omit [FieldTypeTags] [MamaLibrary] [FieldPrinting] in
/-- The status of an update without a value. -/
def FieldUpdate.refusal : FieldUpdate → MamaStatus
  | .subMsg _ => .notImplemented
  | .scalar _ _ | .string _ | .dateTime _ | .price _ => .nullArg

omit [MamaLibrary] [FieldPrinting] in
/-- An update of a field, by its type. -/
def FieldUpdate.onEntry (update : FieldUpdate) (entry : FieldEntry) : MamaStatus × FieldEntry :=
  match update.written with
  | none => (update.refusal, entry)
  | some (type, bytes) =>
      if entry.type = tag type then (.ok, entry.withData bytes) else (.wrongFieldType, entry)

omit [MamaLibrary] [FieldPrinting] in
theorem FieldUpdate.onEntry_fits {update : FieldUpdate} {entry : FieldEntry}
    (fits : DataFits entry.type entry.data) :
    DataFits (update.onEntry entry).2.type (update.onEntry entry).2.data := by
  unfold FieldUpdate.onEntry
  split
  · exact fits
  · split
    · exact FieldEntry.withData_fits fits
    · exact fits

namespace Message

omit [MamaLibrary] [FieldPrinting] in
/-- The message with an update of the field at an index. -/
def updateAt (message : Message) (index : Nat) (update : FieldUpdate) : Message :=
  { message with
    entries := message.entries.modify index fun entry => (update.onEntry entry).2
    fits := by
      intro entry member
      obtain ⟨place, inside, rfl⟩ := List.mem_iff_getElem.mp member
      rw [List.length_modify] at inside
      have fits := message.fits _ (List.getElem_mem inside)
      rw [List.getElem_modify]
      split
      · exact FieldUpdate.onEntry_fits fits
      · exact fits }

omit [MamaLibrary] [FieldPrinting] in
theorem entries_updateAt {message : Message} {before after : List FieldEntry} {entry : FieldEntry}
    (split : message.entries = before ++ entry :: after) (update : FieldUpdate) :
    (message.updateAt before.length update).entries =
      before ++ (update.onEntry entry).2 :: after := by
  show message.entries.modify _ _ = _
  rw [split, List.modify_eq_take_cons_drop (by simp)]
  simp

omit [MamaLibrary] [FieldPrinting] in
/-- An update that leaves the field leaves the message. -/
theorem updateAt_eq_self {message : Message} {before after : List FieldEntry} {entry : FieldEntry}
    (split : message.entries = before ++ entry :: after) {update : FieldUpdate}
    (same : (update.onEntry entry).2 = entry) :
    message.updateAt before.length update = message := by
  have entries := entries_updateAt split update
  rw [same, ← split] at entries
  cases message
  exact (Message.mk.injEq ..).mpr ⟨rfl, rfl, rfl, entries⟩

end Message

omit [MamaLibrary] [FieldPrinting] in
/-- An update changes the data of a field only. -/
theorem FieldUpdate.onEntry_eq (update : FieldUpdate) (entry : FieldEntry) :
    (update.onEntry entry).2 = { entry with data := (update.onEntry entry).2.data } := by
  unfold FieldUpdate.onEntry
  split
  · rfl
  · split
    · unfold FieldEntry.withData
      split <;> rfl
    · rfl

omit [MamaLibrary] [FieldPrinting] in
theorem AllListed.updateAt {message : Message} (listed : AllListed message.entries) (index : Nat)
    (update : FieldUpdate) : AllListed (message.updateAt index update).entries := by
  intro entry member
  obtain ⟨place, inside, rfl⟩ := List.mem_iff_getElem.mp member
  have inside' : place < message.entries.length := by
    rwa [Message.updateAt, List.length_modify] at inside
  have among := listed _ (List.getElem_mem inside')
  simp only [Message.updateAt, List.getElem_modify]
  split
  · rw [FieldUpdate.onEntry_eq]
    exact among
  · exact among

/-- A message as a system of the calls of a callback that was given the field at an index. -/
def placeServe (index : Nat) (message : Message) : CallbackCall → Option (Observation × Message)
  | .message call => messageServe message call
  | .field _ update => (message.entries[index]?).map fun entry =>
      (.status (update.onEntry entry).1, message.updateAt index update)

/-! ## Calls that keep the place -/

omit [FieldTypeTags] [MamaLibrary] [FieldPrinting] in
/-- All of a field but the bytes of its data. -/
def FieldEntry.shape (entry : FieldEntry) : UInt8 × UInt16 × CString × Nat :=
  (entry.type, entry.fid, entry.name, entry.data.length)

section Shapes

omit [MamaLibrary] [FieldPrinting]

theorem FieldEntry.length_encode_of_shape {entry other : FieldEntry}
    (same : entry.shape = other.shape) : entry.encode.length = other.encode.length := by
  simp only [shape, Prod.mk.injEq] at same
  obtain ⟨type, -, name, length⟩ := same
  rw [length_encode, length_encode, name, length, length_lengthPart_eq type]

/-- The handle of a field shows its shape and its place. -/
theorem FieldEntry.handle_of_shape {entry other : FieldEntry} (same : entry.shape = other.shape)
    (position : Nat) (previous : BufferPtr) :
    entry.handle position previous = other.handle position previous := by
  have lengthPart := @FieldEntry.length_lengthPart_eq _ entry other
  simp only [shape, Prod.mk.injEq] at same
  obtain ⟨type, fid, name, length⟩ := same
  have head : entry.head.length = other.head.length := by
    rw [length_head, length_head, name, lengthPart type]
  simp only [handle, dataPointer, head, type, fid, name, length]

theorem length_encodeAll_of_shape {entries others : List FieldEntry}
    (same : entries.map FieldEntry.shape = others.map FieldEntry.shape) :
    (encodeAll entries).length = (encodeAll others).length := by
  induction entries generalizing others with
  | nil =>
      rw [List.map_nil, eq_comm, List.map_eq_nil_iff] at same
      rw [same]
  | cons entry entries ih =>
      obtain ⟨other, others, rfl, first, later⟩ := List.map_eq_cons_iff.mp same.symm
      rw [encodeAll_cons, encodeAll_cons, List.length_append, List.length_append, ih later.symm,
        FieldEntry.length_encode_of_shape first]

/-- The next message has a header of the same length, and its first fields differ in the bytes of
their data only. -/
structure Message.Steady (count : Nat) (message next : Message) : Prop where
  header : next.header.length = message.header.length
  front : (next.entries.take count).map FieldEntry.shape =
    (message.entries.take count).map FieldEntry.shape

instance (count : Nat) (message next : Message) : Decidable (message.Steady count next) :=
  decidable_of_iff (_ ∧ _) ⟨fun steady => ⟨steady.1, steady.2⟩, fun steady => ⟨steady.1, steady.2⟩⟩

/-- The field in hand has its counterpart in the next message. -/
theorem Message.Steady.exists_split {message next : Message} {before after : List FieldEntry}
    {entry : FieldEntry} (steady : message.Steady (before.length + 1) next)
    (split : message.entries = before ++ entry :: after) :
    ∃ before' entry' after', next.entries = before' ++ entry' :: after' ∧
      before'.map FieldEntry.shape = before.map FieldEntry.shape ∧ entry'.shape = entry.shape := by
  have front := steady.front
  have taken : message.entries.take (before.length + 1) = before ++ [entry] := by
    rw [split, List.take_append, List.take_of_length_le (Nat.le_succ _), Nat.add_sub_cancel_left]
    rfl
  rw [taken, List.map_append] at front
  obtain ⟨before', rest, here, same, last⟩ := List.map_eq_append_iff.mp front
  obtain ⟨entry', rfl, shape⟩ := List.map_eq_singleton_iff.mp last
  refine ⟨before', entry', next.entries.drop (before.length + 1), ?_, same, shape⟩
  rw [← List.singleton_append, ← List.append_assoc, ← here, List.take_append_drop]

/-- An update that keeps what stands keeps the length of the field that it updates. -/
theorem Message.Steady.length_onEntry {message : Message} {before after : List FieldEntry}
    {entry : FieldEntry} {update : FieldUpdate}
    (steady : message.Steady (before.length + 1) (message.updateAt before.length update))
    (split : message.entries = before ++ entry :: after) :
    (update.onEntry entry).2.data.length = entry.data.length := by
  obtain ⟨before', entry', after', split', front, shape⟩ := steady.exists_split split
  have count : before'.length = before.length := by
    rw [← List.length_map FieldEntry.shape, front, List.length_map]
  obtain ⟨-, tails⟩ :=
    List.append_inj (split'.symm.trans (Message.entries_updateAt split update)) count
  cases tails
  simp only [FieldEntry.shape, Prod.mk.injEq] at shape
  exact shape.2.2.2

end Shapes

/-! ## Updates through the field in hand -/

section Updates

omit [MamaLibrary] [FieldPrinting]

variable {update : FieldUpdate} {allocator : Allocator} {target : OmnmPayloadImpl}
  {field : OmnmFieldImpl} {type : MamaFieldType} {bytes : List UInt8}

theorem FieldUpdate.perform_of_null (null : update.written = none) :
    update.perform allocator target field = pure (update.refusal, target, field) := by
  cases update with
  | scalar scalar value => cases null
  | string value | dateTime value | price value =>
      rw [written, Option.map_eq_none_iff] at null
      subst null
      rfl
  | subMsg value => rfl

/-- An update under the type of the field hands its data to the update of a located field. -/
theorem FieldUpdate.perform_of_type (written : update.written = some (type, bytes))
    (same : field.mFieldType = tag type) :
    update.perform allocator target field =
      target.updateFieldHandle allocator (tag type) field (some bytes) := by
  cases update with
  | scalar scalar value =>
      cases written
      rw [perform, ofScalar_eq, updateScalarOfField]
      exact if_neg (not_not.mpr same.symm)
  | string value | dateTime value | price value =>
      obtain ⟨value, rfl, data⟩ := Option.map_eq_some_iff.mp written
      cases data
      rfl
  | subMsg value => cases written

theorem updateFieldHandle_of_other_type (wide : isFieldTypeFixedWidth (tag type) = false)
    (differs : field.mFieldType ≠ tag type) :
    target.updateFieldHandle allocator (tag type) field (some bytes) =
      pure (.wrongFieldType, target, field) := by
  have uncastable : areFieldTypesCastable field.mFieldType (tag type) = false := by
    rw [areFieldTypesCastable, wide, Bool.and_false]
  rw [OmnmPayloadImpl.updateFieldHandle, if_pos ⟨differs, uncastable⟩]

theorem FieldUpdate.perform_of_other_type (written : update.written = some (type, bytes))
    (differs : field.mFieldType ≠ tag type) :
    update.perform allocator target field = pure (.wrongFieldType, target, field) := by
  cases update with
  | scalar scalar value =>
      cases written
      rw [perform, ofScalar_eq, updateScalarOfField]
      exact if_pos (Ne.symm differs)
  | string value | dateTime value | price value =>
      obtain ⟨value, rfl, data⟩ := Option.map_eq_some_iff.mp written
      cases data
      exact updateFieldHandle_of_other_type (by simp [isFieldTypeFixedWidth]) differs
  | subMsg value => cases written

/-- Data of the old length, through the handle of a field, leaves a payload that holds the message
with that field changed. -/
theorem OmnmPayloadImpl.Represents.update_in_place {msg : OmnmPayloadImpl} {message : Message}
    (represents : msg.Represents message) (allocator : Allocator) (changed : Message)
    {before after : List FieldEntry} {entry : FieldEntry}
    (split : message.entries = before ++ entry :: after)
    (listed : dataLayout entry.type ≠ .unlisted) (same : bytes.length = entry.data.length)
    (header : changed.header = message.header) (version : changed.version = message.version)
    (extra : changed.extra = message.extra)
    (entries : changed.entries = before ++ { entry with data := bytes } :: after)
    (previous : BufferPtr) :
    ∃ next, ResultsOk allocator msg entry.type
        (entry.handle (message.header.length + (encodeAll before).length) previous) bytes next
        (entry.handle (message.header.length + (encodeAll before).length) previous) ∧
      next.Represents changed := by
  obtain ⟨slack, located⟩ := represents.located split listed previous
  have result := @updateFieldHandle_same _ msg allocator entry.type _ bytes _ _ _ _ _ located
    (fun refused => refused.1 rfl) same
  refine ⟨_, result, ⟨slack, ?_⟩, ?_, ?_, ?_⟩
  · rw [encode_split entries, header, FieldEntry.handle_mFieldType, writtenLength_eq listed]
    simp only [List.append_assoc]
  · have lengthPart := @FieldEntry.length_lengthPart_eq _ { entry with data := bytes } entry rfl
    have tail := represents.tail
    rw [encode_split split] at tail
    rw [encode_split entries, header]
    simp only [List.length_append, lengthPart, same] at tail ⊢
    exact tail
  · rw [version]
    exact represents.version
  · rw [extra]
    exact represents.remaining

end Updates

/-! ## Keeping step -/

/-- The call leaves the buffer of the payload where it is. -/
def ObjectCall.StaysInPlace : ObjectCall → Prop
  | .mutate (.field memory _ _ _) | .mutate (.unSerialize memory _ _) => memory.payload.InPlace
  | .mutate .clear | .read _ => True

namespace CallbackCall

/-- Allocations of the call succeed, and do not move the buffer that is iterated over. -/
def Served : CallbackCall → Prop
  | .message call => call.Served ∧ call.StaysInPlace
  | .field _ _ => True

/-- A call that a message allows. -/
def Allowed (message : Message) : CallbackCall → Prop
  | .message call => call.Admissible message
  | .field _ _ => True

/-- A call that a callback may make while it has the field at an index: all fields up to there
keep their lengths. -/
structure Admissible (index : Nat) (message : Message) (call : CallbackCall) : Prop where
  served : call.Served
  allowed : call.Allowed message
  steady : ∀ out next, placeServe index message call = some (out, next) →
    message.Steady (index + 1) next

end CallbackCall

/-- The object shows the message, and has the field at an index in hand, which ends at a place. -/
structure InHand (index place : Nat) (state : PayloadObject × OmnmFieldImpl)
    (message : Message) : Prop where
  shows : state.1.impl.Shows message
  handle : ∃ before entry after previous, message.entries = before ++ entry :: after ∧
    before.length = index ∧
    state.2 = entry.handle (message.header.length + (encodeAll before).length) previous ∧
    message.header.length + (encodeAll before).length + entry.encode.length = place

namespace InHand

variable {index place : Nat} {state next : PayloadObject × OmnmFieldImpl}
  {message nextMessage : Message} {call : CallbackCall}

omit [MamaLibrary] [FieldPrinting] in
/-- What stays as long as it is stays in hand. -/
theorem of_steady (held : InHand index place state message)
    (steady : message.Steady (index + 1) nextMessage) (shows : next.1.impl.Shows nextMessage)
    (kept : next.2 = state.2) : InHand index place next nextMessage := by
  obtain ⟨before, entry, after, previous, split, rfl, handle, ends⟩ := held.handle
  obtain ⟨before', entry', after', split', front, shape⟩ := steady.exists_split split
  have count : before'.length = before.length := by
    rw [← List.length_map FieldEntry.shape, front, List.length_map]
  refine ⟨shows, before', entry', after', previous, split', count, ?_, ?_⟩
  · rw [kept, handle, steady.header, length_encodeAll_of_shape front,
      FieldEntry.handle_of_shape shape]
  · rw [← ends, steady.header, length_encodeAll_of_shape front,
      FieldEntry.length_encode_of_shape shape]

omit [MamaLibrary] [FieldPrinting] in
/-- An update through the field in hand, on the payload and on the message. -/
theorem perform_update {update : FieldUpdate} (held : InHand index place state message)
    {entry : FieldEntry} (here : message.entries[index]? = some entry)
    (steady : message.Steady (index + 1) (message.updateAt index update)) (allocator : Allocator) :
    ∃ payload, (update.perform allocator state.1.impl state.2).result =
        some ((update.onEntry entry).1, payload, state.2) ∧
      payload.Shows (message.updateAt index update) := by
  obtain ⟨⟨represents, listed⟩, before, found, after, previous, split, rfl, handle, -⟩ := held
  obtain rfl : found = entry := by simpa [split] using here
  have type_eq : state.2.mFieldType = found.type := by rw [handle, FieldEntry.handle_mFieldType]
  have unchanged : (update.onEntry found).2 = found →
      state.1.impl.Shows (message.updateAt before.length update) := by
    intro same
    rw [Message.updateAt_eq_self split same]
    exact ⟨represents, listed⟩
  cases written : update.written with
  | none =>
      have answer : update.onEntry found = (update.refusal, found) := by
        simp only [FieldUpdate.onEntry, written]
      refine ⟨state.1.impl, ?_, unchanged (by rw [answer])⟩
      rw [FieldUpdate.perform_of_null written, answer]
      rfl
  | some data =>
      obtain ⟨type, bytes⟩ := data
      by_cases same : found.type = tag type
      · have fits : DataFits found.type bytes := same ▸ (FieldUpdate.written_fits written).2
        have answer : update.onEntry found = (.ok, { found with data := bytes }) := by
          simp only [FieldUpdate.onEntry, written, if_pos same, FieldEntry.withData_of_fits fits]
        have entries := Message.entries_updateAt split update
        have length := steady.length_onEntry split
        rw [answer] at entries length
        obtain ⟨payload, updated, keeps⟩ := represents.update_in_place allocator
          (message.updateAt before.length update) split (listed found (by rw [split]; simp)) length
          rfl rfl rfl entries previous
        refine ⟨payload, ?_, keeps, listed.updateAt before.length update⟩
        rw [FieldUpdate.perform_of_type written (type_eq.trans same), answer, ← same, handle]
        exact updated
      · have answer : update.onEntry found = (.wrongFieldType, found) := by
          simp only [FieldUpdate.onEntry, written, if_neg same]
        refine ⟨state.1.impl, ?_, unchanged (by rw [answer])⟩
        rw [FieldUpdate.perform_of_other_type written (type_eq ▸ same), answer]
        rfl

/-- A call of a callback keeps the object, its message and the field in hand in step. -/
theorem perform (held : InHand index place state message)
    (admissible : call.Admissible index message) :
    ∃ out next nextMessage, callbackStep state call = some (out, next) ∧
      placeServe index message call = some (out, nextMessage) ∧
      InHand index place next nextMessage := by
  obtain ⟨served, allowed, steady⟩ := admissible
  cases call with
  | message call =>
      obtain ⟨next, stepped, shows⟩ := held.shows.perform_object served.1 allowed
      refine ⟨_, (next, state.2), _, ?_, rfl, held.of_steady (steady _ _ rfl) shows rfl⟩
      rw [callbackStep, stepped]
      rfl
  | field allocator update =>
      obtain ⟨before, entry, after, -, split, count, -, -⟩ := held.handle
      have here : message.entries[index]? = some entry := by simp [split, ← count]
      have answered : placeServe index message (.field allocator update) =
          some (.status (update.onEntry entry).1, message.updateAt index update) := by
        rw [placeServe, here]
        rfl
      obtain ⟨payload, result, shows⟩ :=
        held.perform_update here (steady _ _ answered) allocator
      refine ⟨_, ({ state.1 with impl := payload }, state.2), _, ?_, answered,
        held.of_steady (steady _ _ answered) shows rfl⟩
      rw [callbackStep, result]
      rfl

/-- What a callback does with the field in hand, it does with the message. -/
theorem converse {Closure : Type} (held : InHand index place state message)
    {dialogue : Dialogue CallbackCall Observation Closure}
    (along : dialogue.Along (placeServe index) (CallbackCall.Admissible index) message) :
    ∃ closure last lastMessage, dialogue.converse callbackStep state = some (closure, last) ∧
      dialogue.converse (placeServe index) message = some (closure, lastMessage) ∧
      InHand index place last lastMessage :=
  dialogue.converse_simulation (fun _ _ _ held admissible => held.perform admissible)
    state message held along

end InHand

end Omnm
