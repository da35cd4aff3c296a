import Omnm.Results.Disclosure
import Omnm.Wire.Callbacks

/-!
# Callbacks that change the message

An iteration with a callback goes over bytes that the callback may change. As long
as each of its calls is admissible (`ObjectCall.Admissible`), leaves the buffer where
it is and keeps the fields up to the current one as long as they are, the iteration
is one over the list of fields that stand in the message at the time: it ends if
that one ends, with the same closure and with a payload that shows the same message
(`iteration_with_callback`). So a callback may update what it was given, replace the
data of a field behind it with data of the same layout, and add fields, which are
then given to it as well.

Callbacks that only update the field they were given serve each field on its own,
in order, and the iteration ends (`own_updates_field_by_field`).
-/

set_option autoImplicit false

namespace Omnm

open FieldTypeTags (tag)
open OmnmPayloadImpl

section

variable [FieldTypeTags] [MamaLibrary] [FieldPrinting] {Closure : Type}

/-! ## An iteration over the list of fields -/

namespace Message

/-- Visiting the fields from an index on, which are looked up when their turn comes. -/
def visit (cb : MamaMsgIteratorCb Closure) :
    Nat → Nat → Message → Closure → Option (Closure × Message)
  | 0, _, _, _ => none
  | rounds + 1, index, message, closure =>
      match message.entries[index]? with
      | none => some (closure, message)
      | some entry =>
          match (cb entry.value closure).converse (placeServe index) message with
          | none => none
          | some (closure, message) => visit cb rounds (index + 1) message closure

/-- The calls that the callback makes during a visit are admissible. -/
def VisitAdmits (cb : MamaMsgIteratorCb Closure) : Nat → Nat → Message → Closure → Prop
  | 0, _, _, _ => True
  | rounds + 1, index, message, closure =>
      ∀ entry, message.entries[index]? = some entry →
        (cb entry.value closure).Along (placeServe index) (CallbackCall.Admissible index) message ∧
        ∀ closure' message',
          (cb entry.value closure).converse (placeServe index) message =
            some (closure', message') → VisitAdmits cb rounds (index + 1) message' closure'

end Message

/-! ## Keeping step with it -/

omit [MamaLibrary] [FieldPrinting] in
/-- An iterator that stands in front of some fields of the message. -/
theorem OmnmPayloadImpl.Represents.ahead {msg : OmnmPayloadImpl} {message : Message}
    (represents : msg.Represents message) {before after : List FieldEntry} {iter : OmnmIterImpl}
    (split : message.entries = before ++ after) (started : after ≠ [] → iter.mIndex ≠ 0)
    (position : iter.mBufferPosition = message.header.length + (encodeAll before).length) :
    Ahead msg iter after where
  fits other member := message.fits other (split ▸ List.mem_append_right before member)
  started := started
  here := by
    obtain ⟨rest, here⟩ := represents.decodes.here
    rw [represents.getHeaderSize_eq, split, encodeAll_append, List.append_assoc] at here
    exact ⟨rest, by rw [position]; exact drop_behind here⟩
  ends := by
    rw [position, represents.tail, Message.encode, split, encodeAll_append, List.length_append,
      List.length_append, Nat.add_assoc]

/-- What the loop over the bytes and the visit of the fields leave. -/
def LeavesSame (left : Closure × PayloadObject) (visited : Closure × Message) : Prop :=
  left.1 = visited.1 ∧ left.2.impl.Shows visited.2

/-- The loop over the bytes behind some fields visits the fields behind them. -/
theorem whileNext_visits (cb : MamaMsgIteratorCb Closure) (rounds : Nat) {object : PayloadObject}
    {message : Message} (shown : object.impl.Shows message) (before : List FieldEntry)
    {after : List FieldEntry} {iter : OmnmIterImpl} (split : message.entries = before ++ after)
    (started : after ≠ [] → iter.mIndex ≠ 0)
    (position : iter.mBufferPosition = message.header.length + (encodeAll before).length)
    (closure : Closure) (admits : message.VisitAdmits cb rounds before.length closure) :
    Option.Rel LeavesSame (whileNext cb rounds iter object closure)
      (message.visit cb rounds before.length closure) := by
  induction rounds generalizing object message before after iter closure with
  | zero => exact .none
  | succ rounds ih =>
      have ahead := shown.represents.ahead split started position
      cases after with
      | nil =>
          have ended : message.entries[before.length]? = none := by simp [split]
          rw [whileNext, Message.visit, ahead.next_nil, ended]
          exact .some ⟨rfl, shown⟩
      | cons entry after =>
          have here : message.entries[before.length]? = some entry := by simp [split]
          obtain ⟨along, later⟩ := admits entry here
          have value : object.impl.valueOf (entry.handle iter.mBufferPosition
              iter.mField.mData) = entry.value := by
            obtain ⟨rest, there⟩ := ahead.drop_eq
            exact valueOf_handle (ahead.fits entry (List.mem_cons_self ..)) there _
          have held : InHand before.length (iter.mBufferPosition + entry.encode.length)
              (object, entry.handle iter.mBufferPosition iter.mField.mData) message :=
            ⟨shown, before, entry, after, _, split, rfl, by rw [position], by rw [position]⟩
          obtain ⟨closure', ⟨object', field⟩, message', conversed, served, ⟨shown',
            before', entry', after', previous, split', count, handle, ends⟩⟩ := held.converse along
          have admits' := later closure' message' served
          have behind : message'.entries = (before' ++ [entry']) ++ after' := by
            rw [split', List.append_assoc, List.singleton_append]
          have next : (before' ++ [entry']).length = before.length + 1 := by
            rw [List.length_append, count, List.length_singleton]
          rw [whileNext, Message.visit, ahead.next, here]
          simp only [Option.bind_eq_bind, Option.bind_some, value, conversed, served]
          rw [← next] at admits' ⊢
          refine ih shown' _ behind (fun _ => Nat.succ_ne_zero _) ?_ closure' admits'
          rw [encodeAll_append, encodeAll_cons, encodeAll_nil, List.append_nil, List.length_append,
            ← Nat.add_assoc, ends]
          rfl

/-- The loop from the first field on visits all fields. -/
theorem whileNext_visits_all (cb : MamaMsgIteratorCb Closure) (rounds : Nat)
    {object : PayloadObject} {message : Message} (shown : object.impl.Shows message)
    (closure : Closure) (admits : message.VisitAdmits cb rounds 0 closure) :
    Option.Rel LeavesSame
      (whileNext cb rounds (startIter object.impl message.entries) object closure)
      (message.visit cb rounds 0 closure) := by
  have position : (startIter object.impl message.entries).mBufferPosition =
      message.header.length + (encodeAll []).length := by
    rw [← shown.represents.getHeaderSize_eq]
    cases message.entries <;> rfl
  exact whileNext_visits cb rounds shown [] rfl shown.represents.decodes.ahead.started position
    closure admits

theorem iterateFields_eq (cb : MamaMsgIteratorCb Closure) (rounds : Nat) {object : PayloadObject}
    {message : Message} (shown : object.impl.Shows message) (closure : Closure) :
    omnmmsgPayload_iterateFields (some cb) rounds object closure =
      (whileNext cb rounds (startIter object.impl message.entries) object closure).map
        fun left => (.ok, left.1, left.2) := by
  rw [omnmmsgPayload_iterateFields, shown.represents.decodes.init]
  simp only [Option.bind_eq_bind, Option.bind_some]
  cases whileNext cb rounds (startIter object.impl message.entries) object closure <;> rfl

/-- An iteration that is reported as OK and a visit of the fields, with the same closure and a
payload that shows the message. -/
def SameOutcome (left : MamaStatus × Closure × PayloadObject) (visited : Closure × Message) :
    Prop :=
  left.1 = .ok ∧ LeavesSame left.2 visited

/-- An iteration with a callback is a visit of the fields of the message, if the callback makes
admissible calls: it comes to an end within as many rounds, with the same closure, and leaves a
payload that shows the same message. -/
theorem iteration_with_callback {object : PayloadObject} {message : Message}
    (shown : object.impl.Shows message) (cb : MamaMsgIteratorCb Closure) (rounds : Nat)
    (closure : Closure) (admits : message.VisitAdmits cb rounds 0 closure) :
    Option.Rel SameOutcome (omnmmsgPayload_iterateFields (some cb) rounds object closure)
      (message.visit cb rounds 0 closure) := by
  have visits := whileNext_visits_all cb rounds shown closure admits
  rw [iterateFields_eq cb rounds shown closure]
  generalize whileNext cb rounds _ object closure = looped at visits ⊢
  generalize message.visit cb rounds 0 closure = visited at visits ⊢
  cases visits with
  | none => exact .none
  | some same => exact .some ⟨rfl, same⟩

end

section Example

attribute [local instance] mamaFieldTypes silentLibrary silentPrinting

/-- A message with one byte. -/
def oneByteMessage : Message :=
  ⟨mamaPayloadIdOmnm, 1, [], [⟨mamaFieldTypeNumber .i8, 1, CString.empty, [5]⟩],
    UInt8.le_refl omnmProtocolVersion, Message.extra_nil_lt, by
      intro entry member
      rw [List.mem_singleton.mp member]
      decide⟩

/-- A callback that sets each field to 7, counts those that took it, and adds a field when it is
called for the first time. -/
def settingCallback : MamaMsgIteratorCb Nat := fun _ count =>
  .ask (.field .zeroing (.scalar .i8 7)) fun answer =>
    if count = 0 then
      .ask (.message (.mutate (.field .zeroing none 3 (.addScalar .i8 9)))) fun _ =>
        .stop (if answer = .status .ok then count + 1 else count)
    else .stop (if answer = .status .ok then count + 1 else count)

theorem oneByteMessage_shows : oneByteMessage.payload.Shows oneByteMessage where
  represents := oneByteMessage.payload_represents
  listed := by
    intro entry member
    rw [List.mem_singleton.mp member]
    decide

/-- What a call leaves steady is checked on its one outcome. -/
theorem steady_of_served {index : Nat} {message next : Message} {call : CallbackCall}
    {out : Observation} (served : placeServe index message call = some (out, next))
    (steady : message.Steady (index + 1) next) :
    ∀ out next, placeServe index message call = some (out, next) →
      message.Steady (index + 1) next := by
  intro out' next' served'
  cases served.symm.trans served'
  exact steady

theorem settingCallback_admitted : oneByteMessage.VisitAdmits settingCallback 3 0 0 := by
  have update : ∀ (index : Nat) (message : Message) (out : Observation) (next : Message),
      placeServe index message (.field .zeroing (.scalar .i8 7)) = some (out, next) →
      message.Steady (index + 1) next →
      CallbackCall.Admissible index message (.field .zeroing (.scalar .i8 7)) :=
    fun _ _ _ _ served steady => ⟨trivial, trivial, steady_of_served served steady⟩
  intro entry here
  cases here
  refine ⟨?_, ?_⟩
  · refine Dialogue.along_ask_of_step (update _ _ _ _ rfl (by decide +kernel)) rfl ?_
    refine Dialogue.along_ask_of_step ⟨?_, ?_, steady_of_served rfl (by decide +kernel)⟩ rfl trivial
    · exact ⟨CallMemory.zeroing_succeeds, Allocator.zeroing_inPlace⟩
    · exact ⟨by simp [FieldRequest.Exact, FieldRequest.bytesRequired], by decide +kernel⟩
  · intro closure message conversed
    cases conversed
    intro entry here
    cases here
    refine ⟨?_, ?_⟩
    · exact Dialogue.along_ask_of_step (update _ _ _ _ rfl (by decide +kernel)) rfl trivial
    · intro closure message conversed
      cases conversed
      intro entry here
      cases here

/-- Both fields are set, the one that was there and the one that was added. -/
theorem iteration_sets_both_bytes :
    ∃ last, omnmmsgPayload_iterateFields (some settingCallback) 3
        ⟨oneByteMessage.payload, OmnmFieldImpl.zeroed, FieldResults.none⟩ 0 =
          some (.ok, 2, last) ∧
      last.impl.serialized = [79, 1, 0, 11, 1, 0, 0, 7, 11, 3, 0, 0, 7] := by
  have visited : (oneByteMessage.visit settingCallback 3 0 0).map
      (fun visited => (visited.1, visited.2.encode)) =
        some (2, [79, 1, 0, 11, 1, 0, 0, 7, 11, 3, 0, 0, 7]) := by
    decide +kernel
  obtain ⟨⟨count, message⟩, visited, outcome⟩ := Option.map_eq_some_iff.mp visited
  obtain ⟨rfl, bytes⟩ := Prod.mk.injEq .. ▸ outcome
  have same := @iteration_with_callback _ _ _ _
    ⟨oneByteMessage.payload, OmnmFieldImpl.zeroed, FieldResults.none⟩ _ oneByteMessage_shows
    settingCallback 3 0 settingCallback_admitted
  rw [visited] at same
  generalize omnmmsgPayload_iterateFields _ 3 _ 0 = iterated at same ⊢
  cases same with
  | some outcome =>
      rename_i left
      obtain ⟨status, closure, last⟩ := left
      obtain ⟨rfl, rfl, shows⟩ := outcome
      exact ⟨last, rfl, shows.represents.serialized_eq.trans bytes⟩

end Example

section

variable [FieldTypeTags] [MamaLibrary] [FieldPrinting] {Closure : Type}

/-! ## Callbacks that update their own field -/

omit [MamaLibrary] [FieldPrinting] in
/-- A field as a system of updates through it. -/
def entryServe (entry : FieldEntry) : CallbackCall → Option (Observation × FieldEntry)
  | .message _ => none
  | .field _ update => some (.status (update.onEntry entry).1, (update.onEntry entry).2)

omit [MamaLibrary] [FieldPrinting] in
/-- The call updates the field that the callback was given, and keeps its length. -/
def CallbackCall.KeepsLength (entry : FieldEntry) : CallbackCall → Prop
  | .message _ => False
  | .field _ update => (update.onEntry entry).2.data.length = entry.data.length

omit [MamaLibrary] [FieldPrinting] in
/-- Whatever field it is given, the callback only updates that one, and keeps its length. -/
def UpdatesOwn (cb : MamaMsgIteratorCb Closure) : Prop :=
  ∀ entry closure, DataFits entry.type entry.data →
    (cb entry.value closure).Along entryServe (fun entry call => call.KeepsLength entry) entry

omit [MamaLibrary] [FieldPrinting] in
/-- The callback serves fields on their own, one after another. -/
def serveEach (cb : MamaMsgIteratorCb Closure) :
    List FieldEntry → Closure → Option (Closure × List FieldEntry)
  | [], closure => some (closure, [])
  | entry :: entries, closure => do
      let (closure, entry) ← (cb entry.value closure).converse entryServe entry
      let (closure, entries) ← serveEach cb entries closure
      pure (closure, entry :: entries)

omit [MamaLibrary] [FieldPrinting] in
theorem FieldUpdate.shape_onEntry {update : FieldUpdate} {entry : FieldEntry}
    (same : (update.onEntry entry).2.data.length = entry.data.length) :
    (update.onEntry entry).2.shape = entry.shape := by
  rw [FieldEntry.shape, same, update.onEntry_eq entry]
  rfl

omit [MamaLibrary] [FieldPrinting] in
/-- An update of a type of fixed width keeps the length of what it updates. -/
theorem keepsLength_of_fixed {update : FieldUpdate} {type : MamaFieldType}
    {bytes : List UInt8} {width : Nat} {entry : FieldEntry}
    (written : update.written = some (type, bytes)) (fixed : dataLayout (tag type) = .fixed width)
    (fits : DataFits entry.type entry.data) (allocator : Allocator) :
    (CallbackCall.field allocator update).KeepsLength entry := by
  have given := (FieldUpdate.written_fits written).2
  show (update.onEntry entry).2.data.length = entry.data.length
  simp only [FieldUpdate.onEntry, written]
  split
  · rename_i same
    rw [FieldEntry.withData_of_fits (same ▸ given)]
    simp only [DataFits, same, fixed] at fits given
    exact given.trans fits.symm
  · rfl

/-- The message has the header of another one, and a field in its place between others. -/
structure HasInPlace (origin : Message) (before after : List FieldEntry) (message : Message)
    (entry : FieldEntry) : Prop where
  header : message.header = origin.header
  split : message.entries = before ++ entry :: after
  fits : DataFits entry.type entry.data

omit [MamaLibrary] [FieldPrinting] in
theorem HasInPlace.steady {origin message next : Message} {before after : List FieldEntry}
    {entry other : FieldEntry} (placed : HasInPlace origin before after message entry)
    (later : HasInPlace origin before after next other) (same : other.shape = entry.shape) :
    message.Steady (before.length + 1) next where
  header := by rw [later.header, placed.header]
  front := by
    have taken : ∀ entry : FieldEntry, (before ++ entry :: after).take (before.length + 1) =
        before ++ [entry] := by
      intro entry
      rw [List.take_append, List.take_of_length_le (Nat.le_succ _), Nat.add_sub_cancel_left]
      rfl
    rw [later.split, placed.split, taken, taken, List.map_append, List.map_append, List.map_cons,
      List.map_cons, same]

/-- A call that keeps the length of its own field is admissible, and the message answers it as
the field does. -/
theorem HasInPlace.perform {origin : Message} {before after : List FieldEntry}
    (message : Message) (entry : FieldEntry) (call : CallbackCall)
    (placed : HasInPlace origin before after message entry) (keeps : call.KeepsLength entry) :
    CallbackCall.Admissible before.length message call ∧
      ∃ out next other, placeServe before.length message call = some (out, next) ∧
        entryServe entry call = some (out, other) ∧
        HasInPlace origin before after next other := by
  cases call with
  | message call => exact keeps.elim
  | field allocator update =>
      have here : message.entries[before.length]? = some entry := by simp [placed.split]
      have served : placeServe before.length message (.field allocator update) =
          some (.status (update.onEntry entry).1, message.updateAt before.length update) := by
        rw [placeServe, here]
        rfl
      have later : HasInPlace origin before after (message.updateAt before.length update)
          (update.onEntry entry).2 :=
        ⟨placed.header, Message.entries_updateAt placed.split update,
          FieldUpdate.onEntry_fits placed.fits⟩
      refine ⟨⟨trivial, trivial, ?_⟩, _, _, _, served, rfl, later⟩
      intro out next served'
      cases served.symm.trans served'
      exact placed.steady later (FieldUpdate.shape_onEntry keeps)

/-- A visit by such a callback serves each field on its own. -/
theorem visit_own {cb : MamaMsgIteratorCb Closure} (own : UpdatesOwn cb) {message : Message}
    (before after : List FieldEntry) (split : message.entries = before ++ after) {rounds : Nat}
    (enough : after.length < rounds) (closure : Closure) :
    message.VisitAdmits cb rounds before.length closure ∧
      ∃ last entries next, serveEach cb after closure = some (last, entries) ∧
        message.visit cb rounds before.length closure = some (last, next) ∧
        next.header = message.header ∧ next.entries = before ++ entries := by
  induction after generalizing message before rounds closure with
  | nil =>
      obtain ⟨rounds, rfl⟩ := Nat.exists_eq_succ_of_ne_zero (Nat.ne_of_gt enough)
      have ended : message.entries[before.length]? = none := by simp [split]
      refine ⟨?_, closure, [], message, rfl, ?_, rfl, split⟩
      · intro entry here
        rw [ended] at here
        cases here
      · rw [Message.visit, ended]
  | cons entry after ih =>
      obtain ⟨rounds, rfl⟩ := Nat.exists_eq_succ_of_ne_zero (Nat.ne_of_gt (Nat.zero_lt_of_lt enough))
      have here : message.entries[before.length]? = some entry := by simp [split]
      have placed : HasInPlace message before after message entry :=
        ⟨rfl, split, message.fits entry (by rw [split]; simp)⟩
      have along := own entry closure placed.fits
      have admitted := Dialogue.Along.of_simulation HasInPlace.perform placed along
      obtain ⟨closure', message', entry', served, alone, placed'⟩ :=
        Dialogue.converse_simulation
          (fun state other call placed keeps => (placed.perform state other call keeps).2) _ message
          entry placed along
      have split' : message'.entries = (before ++ [entry']) ++ after := by
        rw [placed'.split, List.append_assoc, List.singleton_append]
      have count : (before ++ [entry']).length = before.length + 1 := List.length_append
      obtain ⟨admits, last, entries, next, each, visited, header, whole⟩ :=
        ih (before ++ [entry']) split' (Nat.lt_of_succ_lt_succ enough) closure'
      rw [count] at admits visited
      refine ⟨?_, last, entry' :: entries, next, ?_, ?_, header.trans placed'.header, ?_⟩
      · intro other here'
        cases here.symm.trans here'
        refine ⟨admitted, ?_⟩
        intro closure'' message'' served'
        cases served.symm.trans served'
        exact admits
      · simp only [serveEach, alone, each, Option.bind_eq_bind, Option.bind_some]
        rfl
      · simp only [Message.visit, here, served]
        exact visited
      · rw [whole, List.append_assoc, List.singleton_append]

/-- An iteration whose callback only updates the field it is given, and keeps its length, ends
with OK after a round for each field. It leaves the bytes of the message in which each field was
served on its own, one after another, with the same closure. -/
theorem own_updates_field_by_field {object : PayloadObject} {message : Message}
    (shown : object.impl.Shows message) {cb : MamaMsgIteratorCb Closure} (own : UpdatesOwn cb)
    (closure : Closure) {rounds : Nat} (enough : message.entries.length < rounds) :
    ∃ closure' entries last, serveEach cb message.entries closure = some (closure', entries) ∧
      omnmmsgPayload_iterateFields (some cb) rounds object closure = some (.ok, closure', last) ∧
      last.impl.serialized = message.header ++ encodeAll entries := by
  obtain ⟨admits, closure', entries, next, each, visited, header, whole⟩ :=
    visit_own own [] message.entries rfl enough closure
  have visits := whileNext_visits_all cb rounds shown closure admits
  rw [List.length_nil] at visited
  rw [visited] at visits
  cases looped : whileNext cb rounds (startIter object.impl message.entries) object closure with
  | none =>
      rw [looped] at visits
      cases visits
  | some left =>
      rw [looped] at visits
      obtain ⟨last, object'⟩ := left
      cases visits with
      | some same =>
          obtain ⟨rfl, shows⟩ := same
          refine ⟨last, entries, object', each, ?_, ?_⟩
          · rw [iterateFields_eq cb rounds shown closure, looped]
            rfl
          · rw [shows.represents.serialized_eq, Message.encode, header, whole, List.nil_append]

end

section Example

attribute [local instance] mamaFieldTypes silentLibrary silentPrinting

/-- A message with two bytes. -/
def byteAndByteMessage : Message :=
  ⟨mamaPayloadIdOmnm, 1, [], [⟨mamaFieldTypeNumber .i8, 1, CString.empty, [5]⟩,
    ⟨mamaFieldTypeNumber .i8, 2, CString.empty, [6]⟩],
    UInt8.le_refl omnmProtocolVersion, Message.extra_nil_lt, by
      intro entry member
      rcases List.mem_pair.mp member with rfl | rfl
      · decide
      · decide⟩

/-- A callback that sets each field to the number of those before it that took theirs. -/
def countingCallback : MamaMsgIteratorCb Nat := fun _ count =>
  .ask (.field .zeroing (.scalar .i8 count)) fun answer =>
    .stop (if answer = .status .ok then count + 1 else count)

theorem countingCallback_updatesOwn : UpdatesOwn countingCallback := by
  intro entry closure fits
  have width : dataLayout (tag .i8) = .fixed 1 := by decide
  exact Dialogue.along_ask_of_step (keepsLength_of_fixed rfl width fits _) rfl trivial

theorem own_updates_number_bytes :
    ∃ last, omnmmsgPayload_iterateFields (some countingCallback) 3
        ⟨byteAndByteMessage.payload, OmnmFieldImpl.zeroed, FieldResults.none⟩ 1 =
          some (.ok, 3, last) ∧
      last.impl.serialized = [79, 1, 0, 11, 1, 0, 0, 1, 11, 2, 0, 0, 2] := by
  have listed : AllListed byteAndByteMessage.entries := by
    intro entry member
    rcases List.mem_pair.mp member with rfl | rfl
    · decide
    · decide
  obtain ⟨count, entries, last, each, iterated, bytes⟩ := @own_updates_field_by_field _ _ _ _
    ⟨byteAndByteMessage.payload, OmnmFieldImpl.zeroed, FieldResults.none⟩ _
    ⟨byteAndByteMessage.payload_represents, listed⟩ _ countingCallback_updatesOwn 1 3 (by decide)
  have numbered : serveEach countingCallback byteAndByteMessage.entries 1 =
      some (3, [⟨mamaFieldTypeNumber .i8, 1, CString.empty, [1]⟩,
        ⟨mamaFieldTypeNumber .i8, 2, CString.empty, [2]⟩]) := by
    decide +kernel
  cases numbered.symm.trans each
  exact ⟨last, iterated, bytes.trans (by decide +kernel)⟩

end Example

end Omnm
