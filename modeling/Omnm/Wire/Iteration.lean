import Omnm.Wire.Decoding

/-!
# Iterating over a whole message

A payload `Decodes` to a list of fields when its body, from the end of the
header to the tail, is their encoding. A complete iteration then yields these
fields in order and reads nothing past the tail, their number is what
`omnmmsgPayload_getNumFields` counts, and a lookup answers with the first field
that has the key (`findHandle_split`, `findHandle_eq_none`).

`Ahead` is what the loops keep: the iterator stands at the encoding of the
fields that are still to come.
-/

set_option autoImplicit false

namespace Omnm

/-! ## Strings -/

section Strings

variable {memory rest : List UInt8} {offset : Nat} {string : CString}

theorem loadCString_of_drop
    (here : memory.drop offset = string.terminated ++ rest) (named : string ≠ CString.empty) :
    (loadCString memory offset).result = some string.bytes := by
  have some_bytes : string.bytes ≠ [] := fun none => named (CString.empty_iff.mpr none)
  have front : memory.drop offset = string.bytes ++ ([0] ++ rest) := by
    rw [here, CString.terminated, List.append_assoc]
  rw [loadCString, Traced.result_bind, result_strlen_of_drop here, Option.bind_some,
    result_loadBytes_of_drop front some_bytes]

theorem every_loadCString_of_drop {limit : Nat}
    (here : memory.drop offset = string.terminated ++ rest)
    (ends : offset + string.terminated.length ≤ limit) :
    Traced.Every (Access.ReadsBelow limit) (loadCString memory offset) := by
  rw [CString.length_terminated] at ends
  simp only [loadCString, Traced.every_bind, every_strlen_of_drop here, result_strlen_of_drop here,
    Option.some.injEq, forall_eq', Access.ReadsBelow, CString.length_terminated]
  refine ⟨ends, ?_⟩
  intro access member
  rw [List.mem_singleton.mp member]
  show offset + string.bytes.length ≤ limit
  omega

end Strings

variable [FieldTypeTags]

/-! ## The whole message -/

/-- The body of a payload, from the end of its header to its tail, is the
encoding of some fields. -/
structure OmnmPayloadImpl.Decodes (msg : OmnmPayloadImpl) (entries : List FieldEntry) : Prop where
  fits : AllFit entries
  here : ∃ rest, msg.mPayloadBuffer.drop msg.getHeaderSize = encodeAll entries ++ rest
  ends : msg.getHeaderSize + (encodeAll entries).length = msg.mPayloadBufferTail

/-- The iterator that `omnmmsgPayloadIterImpl_init` makes. -/
def startIter (msg : OmnmPayloadImpl) : List FieldEntry → OmnmIterImpl
  | [] => ⟨OmnmFieldImpl.zeroed, msg.getHeaderSize, 0⟩
  | entry :: _ => ⟨entry.handle msg.getHeaderSize .null, msg.getHeaderSize, 1⟩

/-- The iterator behind the first read, on whatever iterator this was made. -/
def startFrom (msg : OmnmPayloadImpl) (old : OmnmIterImpl) : List FieldEntry → OmnmIterImpl
  | [] => ⟨old.mField, msg.getHeaderSize, 0⟩
  | entry :: _ => ⟨entry.handle msg.getHeaderSize old.mField.mData, msg.getHeaderSize, 1⟩

theorem startIter_eq (msg : OmnmPayloadImpl) (entries : List FieldEntry) :
    startIter msg entries = startFrom msg ⟨OmnmFieldImpl.zeroed, 0, 0⟩ entries := by
  cases entries <;> rfl

section Whole

variable {msg : OmnmPayloadImpl} {entries : List FieldEntry} {iter : OmnmIterImpl}
  {rest : List UInt8} {rounds : Nat}

/-- The state of a loop over the rest of a message. Only the iterator of an
empty message is left unstarted. -/
structure Ahead (msg : OmnmPayloadImpl) (iter : OmnmIterImpl) (entries : List FieldEntry) :
    Prop where
  fits : AllFit entries
  started : entries ≠ [] → iter.mIndex ≠ 0
  here : ∃ rest, msg.mPayloadBuffer.drop iter.mBufferPosition = encodeAll entries ++ rest
  ends : iter.mBufferPosition + (encodeAll entries).length = msg.mPayloadBufferTail

/-- The iterator behind its next field. -/
def stepIter (iter : OmnmIterImpl) (entry : FieldEntry) : OmnmIterImpl :=
  ⟨entry.handle iter.mBufferPosition iter.mField.mData,
    iter.mBufferPosition + entry.encode.length, iter.mIndex + 1⟩

theorem Ahead.drop_eq {entry : FieldEntry} (ahead : Ahead msg iter (entry :: entries)) :
    ∃ rest, msg.mPayloadBuffer.drop iter.mBufferPosition = entry.encode ++ rest := by
  obtain ⟨rest, here⟩ := ahead.here
  exact ⟨encodeAll entries ++ rest, by rw [here, encodeAll_cons, List.append_assoc]⟩

/-- Behind the fields that are ahead stands what the buffer holds behind the tail. -/
theorem Ahead.drop_all (ahead : Ahead msg iter entries) :
    msg.mPayloadBuffer.drop iter.mBufferPosition =
      encodeAll entries ++ msg.mPayloadBuffer.drop msg.mPayloadBufferTail := by
  obtain ⟨rest, here⟩ := ahead.here
  have behind := drop_behind here
  rw [ahead.ends] at behind
  rw [here, behind]

theorem Ahead.encode_le {entry : FieldEntry} (ahead : Ahead msg iter (entry :: entries)) :
    iter.mBufferPosition + entry.encode.length ≤ msg.mPayloadBufferTail := by
  rw [← ahead.ends, encodeAll_cons, List.length_append]
  omega

theorem Ahead.next {entry : FieldEntry} (ahead : Ahead msg iter (entry :: entries)) :
    (omnmmsgPayloadIter_next iter msg).result =
      some (some (entry.handle iter.mBufferPosition iter.mField.mData), stepIter iter entry) := by
  obtain ⟨rest, here⟩ := ahead.drop_eq
  have ends := ahead.encode_le
  have wide := entry.four_le_length_encode
  rw [next_of_drop (ahead.fits entry (List.mem_cons_self ..)) here (by omega), nextPosition,
    if_neg (ahead.started (List.cons_ne_nil _ _)), stepIter]

theorem Ahead.every_next {entry : FieldEntry} (ahead : Ahead msg iter (entry :: entries)) :
    Traced.Every (Access.ReadsBelow msg.mPayloadBufferTail) (omnmmsgPayloadIter_next iter msg) := by
  obtain ⟨rest, here⟩ := ahead.drop_eq
  have every := every_next_of_drop (ahead.fits entry (List.mem_cons_self ..)) here
  exact every.mono fun _ ends => ends.mono ahead.encode_le

theorem Ahead.step {entry : FieldEntry} (ahead : Ahead msg iter (entry :: entries)) :
    Ahead msg (stepIter iter entry) entries where
  fits other member := ahead.fits other (List.mem_cons_of_mem _ member)
  started _ := Nat.succ_ne_zero _
  here := by
    obtain ⟨rest, here⟩ := ahead.here
    rw [encodeAll_cons, List.append_assoc] at here
    exact ⟨rest, drop_behind here⟩
  ends := by
    have ends := ahead.ends
    rw [encodeAll_cons, List.length_append, ← Nat.add_assoc] at ends
    exact ends

theorem Ahead.next_nil (ahead : Ahead msg iter []) :
    omnmmsgPayloadIter_next iter msg = pure (none, iter) :=
  next_of_le (Nat.le_of_eq ahead.ends.symm)

/-- Iterating over the rest of a message yields its fields in order. -/
theorem Ahead.nextUntilNull (ahead : Ahead msg iter entries) (enough : entries.length < rounds) :
    ∃ last, (nextUntilNull msg rounds iter).result =
      some (fieldHandles entries iter.mBufferPosition iter.mField.mData, last) := by
  induction entries generalizing iter rounds with
  | nil =>
      obtain ⟨rounds, rfl⟩ := Nat.exists_eq_succ_of_ne_zero (Nat.ne_of_gt enough)
      exact ⟨iter, nextUntilNull_of_null (congrArg Traced.result ahead.next_nil) _⟩
  | cons entry entries ih =>
      obtain ⟨rounds, rfl⟩ := Nat.exists_eq_succ_of_ne_zero (Nat.ne_of_gt (Nat.zero_lt_of_lt enough))
      obtain ⟨last, result⟩ := ih ahead.step (Nat.lt_of_succ_lt_succ enough)
      exact ⟨last, nextUntilNull_of_field ahead.next result⟩

/-- Iterating over the rest of a message ends exactly at the tail. -/
theorem Ahead.position_nextUntilNull (ahead : Ahead msg iter entries) {fields : List OmnmFieldImpl}
    {last : OmnmIterImpl} (result : (Omnm.nextUntilNull msg rounds iter).result = some (fields, last)) :
    last.mBufferPosition = msg.mPayloadBufferTail := by
  induction entries generalizing iter rounds fields with
  | nil =>
      cases rounds with
      | zero => cases result
      | succ rounds =>
          rw [Omnm.nextUntilNull, ahead.next_nil] at result
          cases result
          exact ahead.ends
  | cons entry entries ih =>
      cases rounds with
      | zero => cases result
      | succ rounds =>
          rcases nextUntilNull_cases result with ⟨-, none⟩ | ⟨_, _, _, -, yielded, looped⟩
          · cases ahead.next.symm.trans none
          · cases ahead.next.symm.trans yielded
            exact ih ahead.step looped

/-- Iterating over the rest of a message reads nothing past the tail. -/
theorem Ahead.every_nextUntilNull (ahead : Ahead msg iter entries) :
    Traced.Every (Access.ReadsBelow msg.mPayloadBufferTail) (Omnm.nextUntilNull msg rounds iter) := by
  induction entries generalizing iter rounds with
  | nil =>
      cases rounds with
      | zero => exact Traced.every_fault
      | succ rounds =>
          rw [Omnm.nextUntilNull, ahead.next_nil]
          simp
  | cons entry entries ih =>
      cases rounds with
      | zero => exact Traced.every_fault
      | succ rounds =>
          simp only [Omnm.nextUntilNull, Traced.every_bind, ahead.next, Option.some.injEq,
            forall_eq', Traced.every_pure, implies_true, and_true]
          exact ⟨ahead.every_next, ih ahead.step⟩

/-- The start of an iteration, on whatever iterator it was made. -/
theorem OmnmPayloadImpl.Decodes.ahead_from (decodes : msg.Decodes entries) (old : OmnmIterImpl) :
    Ahead msg (startFrom msg old entries) entries where
  fits := decodes.fits
  started some_entries := by
    cases entries with
    | nil => exact absurd rfl some_entries
    | cons entry entries => exact Nat.one_ne_zero
  here := by
    cases entries with
    | nil => exact decodes.here
    | cons entry entries => exact decodes.here
  ends := by
    cases entries with
    | nil => exact decodes.ends
    | cons entry entries => exact decodes.ends

theorem OmnmPayloadImpl.Decodes.ahead (decodes : msg.Decodes entries) :
    Ahead msg (startIter msg entries) entries :=
  startIter_eq msg entries ▸ decodes.ahead_from _

theorem OmnmPayloadImpl.Decodes.length_le (decodes : msg.Decodes entries) :
    entries.length < iterationBound msg := by
  have short := length_le_length_encodeAll entries
  have ends := decodes.ends
  rw [iterationBound]
  omega

/-- The first read, which is made and taken back. -/
theorem OmnmPayloadImpl.Decodes.begin_from (decodes : msg.Decodes entries) (old : OmnmIterImpl) :
    ∃ yielded, (omnmmsgPayloadIter_begin old msg).result =
        some (yielded, startFrom msg old entries) ∧
      Traced.Every (Access.ReadsBelow msg.mPayloadBufferTail)
        (omnmmsgPayloadIter_begin old msg) := by
  obtain ⟨rest, here⟩ := decodes.here
  have ends := decodes.ends
  cases entries with
  | nil =>
      rw [omnmmsgPayloadIter_begin, next_of_le (Nat.le_of_eq ends.symm)]
      exact ⟨none, rfl, Traced.every_pure _⟩
  | cons entry entries =>
      have fits := decodes.fits entry (List.mem_cons_self ..)
      have wide := entry.four_le_length_encode
      rw [encodeAll_cons, List.length_append] at ends
      rw [encodeAll_cons, List.append_assoc] at here
      have inside : msg.getHeaderSize < msg.mPayloadBufferTail := by omega
      refine ⟨_, next_of_drop fits here inside, ?_⟩
      exact (every_next_of_drop fits here).mono fun _ before => before.mono (by
        show msg.getHeaderSize + _ ≤ _
        omega)

theorem OmnmPayloadImpl.Decodes.init (decodes : msg.Decodes entries) :
    (omnmmsgPayloadIterImpl_init msg).result = some (startIter msg entries) := by
  obtain ⟨yielded, result, -⟩ := decodes.begin_from ⟨OmnmFieldImpl.zeroed, 0, 0⟩
  rw [startIter_eq, omnmmsgPayloadIterImpl_init, Traced.result_bind, result]
  rfl

theorem OmnmPayloadImpl.Decodes.every_init (decodes : msg.Decodes entries) :
    Traced.Every (Access.ReadsBelow msg.mPayloadBufferTail) (omnmmsgPayloadIterImpl_init msg) := by
  obtain ⟨yielded, -, every⟩ := decodes.begin_from ⟨OmnmFieldImpl.zeroed, 0, 0⟩
  rw [omnmmsgPayloadIterImpl_init, Traced.every_bind]
  exact ⟨every, fun _ _ => Traced.every_pure _⟩

/-- The first read leaves the iterator as if it had not been made. -/
theorem fieldHandles_startIter (msg : OmnmPayloadImpl) (entries : List FieldEntry) :
    fieldHandles entries (startIter msg entries).mBufferPosition
        (startIter msg entries).mField.mData =
      fieldHandles entries msg.getHeaderSize .null := by
  cases entries with
  | nil => rfl
  | cons entry entries => simp only [fieldHandles, startIter, entry.handle_handle]

/-- A complete iteration yields the fields of the message in order. -/
theorem OmnmPayloadImpl.Decodes.iterateFields (decodes : msg.Decodes entries) :
    ∃ last, (iterateFields msg).result =
      some (fieldHandles entries msg.getHeaderSize .null, last) := by
  obtain ⟨last, result⟩ := decodes.ahead.nextUntilNull decodes.length_le
  refine ⟨last, ?_⟩
  rw [Omnm.iterateFields, Traced.result_bind, decodes.init, Option.bind_some, result,
    fieldHandles_startIter]

/-- A complete iteration ends exactly at the tail. -/
theorem OmnmPayloadImpl.Decodes.position_iterateFields (decodes : msg.Decodes entries)
    {fields : List OmnmFieldImpl} {last : OmnmIterImpl}
    (result : (Omnm.iterateFields msg).result = some (fields, last)) :
    last.mBufferPosition = msg.mPayloadBufferTail := by
  rw [Omnm.iterateFields, Traced.result_bind, decodes.init, Option.bind_some] at result
  exact decodes.ahead.position_nextUntilNull result

/-- A complete iteration reads nothing past the tail. -/
theorem OmnmPayloadImpl.Decodes.every_iterateFields (decodes : msg.Decodes entries) :
    Traced.Every (Access.ReadsBelow msg.mPayloadBufferTail) (Omnm.iterateFields msg) := by
  simp only [Omnm.iterateFields, Traced.every_bind, decodes.init, Option.some.injEq, forall_eq']
  exact ⟨decodes.every_init, decodes.ahead.every_nextUntilNull⟩

theorem OmnmPayloadImpl.Decodes.getNumFields (decodes : msg.Decodes entries) :
    (omnmmsgPayload_getNumFields msg).result = some (.ok, entries.length) := by
  obtain ⟨last, result⟩ := decodes.iterateFields
  simp [omnmmsgPayload_getNumFields, result]

end Whole

/-! ## Lookup -/

/-- The field a lookup by key finds among consecutive fields. -/
def findHandle (name : Option CString) (fid : UInt16) :
    List FieldEntry → Nat → BufferPtr → Option OmnmFieldImpl
  | [], _, _ => none
  | entry :: entries, position, previous =>
      if entry.hasKey name fid then some (entry.handle position previous)
      else findHandle name fid entries (position + entry.encode.length)
        (entry.handle position previous).mData

section Lookup

variable {msg : OmnmPayloadImpl} {entries : List FieldEntry} {iter : OmnmIterImpl} {rounds : Nat}
  {name : Option CString} {fid : UInt16}

/-- The name test of a lookup. -/
theorem nameMatches_handle {entry : FieldEntry} {position : Nat} {rest : List UInt8}
    (here : msg.mPayloadBuffer.drop position = entry.encode ++ rest) (name : Option CString)
    (previous : BufferPtr) :
    (nameMatches msg name (entry.handle position previous)).result =
        some (entry.name ≠ CString.empty && name = some entry.name) ∧
      Traced.Every (Access.ReadsBelow (position + entry.encode.length))
        (nameMatches msg name (entry.handle position previous)) := by
  obtain ⟨-, -, ⟨_, nameHere⟩, -⟩ := parts_of_drop here
  have nameEnd : position + 3 + entry.name.terminated.length ≤ position + entry.encode.length := by
    rw [entry.length_encode, CString.length_terminated]
    omega
  cases name with
  | none => simp [nameMatches]
  | some name =>
      by_cases named : entry.name = CString.empty
      · simp [nameMatches, FieldEntry.handle, namePointer, named]
      · have same : (name.bytes = entry.name.bytes) ↔ name = entry.name :=
          ⟨fun equal => CString.ext equal, fun equal => by rw [equal]⟩
        simp only [nameMatches, FieldEntry.handle, namePointer, if_neg named, Traced.result_bind,
          loadCString_of_drop nameHere named, Option.bind_some, Traced.result_pure, same,
          Traced.every_bind, Traced.every_pure, implies_true, and_true]
        exact ⟨by simp [named], every_loadCString_of_drop nameHere nameEnd⟩

/-- The loop of a lookup finds the first field ahead that has the key. -/
theorem Ahead.findFrom (ahead : Ahead msg iter entries) (enough : entries.length < rounds) :
    (msg.findFrom name fid rounds iter).result =
      some (findHandle name fid entries iter.mBufferPosition iter.mField.mData) := by
  induction entries generalizing iter rounds with
  | nil =>
      obtain ⟨rounds, rfl⟩ := Nat.exists_eq_succ_of_ne_zero (Nat.ne_of_gt enough)
      simp [OmnmPayloadImpl.findFrom, ahead.next_nil, findHandle]
  | cons entry entries ih =>
      obtain ⟨rounds, rfl⟩ := Nat.exists_eq_succ_of_ne_zero (Nat.ne_of_gt (Nat.zero_lt_of_lt enough))
      have later := ih ahead.step (Nat.lt_of_succ_lt_succ enough)
      obtain ⟨rest, here⟩ := ahead.drop_eq
      have sameName := (nameMatches_handle here name iter.mField.mData).1
      simp only [OmnmPayloadImpl.findFrom, Traced.result_bind, ahead.next, Option.bind_some]
      by_cases sameFid : fid ≠ 0 ∧ fid = entry.fid
      · rw [FieldEntry.handle_mFid, if_pos sameFid, findHandle,
          if_pos (FieldEntry.hasKey_of_fid sameFid), Traced.result_pure]
      · rw [FieldEntry.handle_mFid, if_neg sameFid, findHandle,
          FieldEntry.hasKey_of_not_fid sameFid, Traced.result_bind, sameName, Option.bind_some]
        split
        · rfl
        · exact later

/-- A lookup reads nothing past the tail. -/
theorem Ahead.every_findFrom (ahead : Ahead msg iter entries) :
    Traced.Every (Access.ReadsBelow msg.mPayloadBufferTail) (msg.findFrom name fid rounds iter) := by
  induction entries generalizing iter rounds with
  | nil =>
      cases rounds with
      | zero => exact Traced.every_fault
      | succ rounds =>
          rw [OmnmPayloadImpl.findFrom, ahead.next_nil]
          simp
  | cons entry entries ih =>
      cases rounds with
      | zero => exact Traced.every_fault
      | succ rounds =>
          obtain ⟨rest, here⟩ := ahead.drop_eq
          have sameName := (nameMatches_handle here name iter.mField.mData).2
          simp only [OmnmPayloadImpl.findFrom, Traced.every_bind, ahead.next, Option.some.injEq,
            forall_eq']
          refine ⟨ahead.every_next, ?_⟩
          split
          · exact Traced.every_pure _
          · rw [Traced.every_bind]
            refine ⟨sameName.mono fun _ ends => ends.mono ahead.encode_le, ?_⟩
            intro same _
            split
            · exact Traced.every_pure _
            · exact ih ahead.step

theorem findHandle_startIter (msg : OmnmPayloadImpl) (entries : List FieldEntry) :
    findHandle name fid entries (startIter msg entries).mBufferPosition
        (startIter msg entries).mField.mData =
      findHandle name fid entries msg.getHeaderSize .null := by
  cases entries with
  | nil => rfl
  | cons entry entries => simp only [findHandle, startIter, entry.handle_handle]

theorem OmnmPayloadImpl.Decodes.findFieldInBuffer (decodes : msg.Decodes entries)
    (name : Option CString) (fid : UInt16) :
    (msg.findFieldInBuffer name fid).result =
      some (findHandle name fid entries msg.getHeaderSize .null) := by
  rw [OmnmPayloadImpl.findFieldInBuffer, Traced.result_bind, decodes.init, Option.bind_some,
    decodes.ahead.findFrom decodes.length_le, findHandle_startIter]

theorem OmnmPayloadImpl.Decodes.every_findFieldInBuffer (decodes : msg.Decodes entries)
    (name : Option CString) (fid : UInt16) :
    Traced.Every (Access.ReadsBelow msg.mPayloadBufferTail) (msg.findFieldInBuffer name fid) := by
  simp only [OmnmPayloadImpl.findFieldInBuffer, Traced.every_bind, decodes.init,
    Option.some.injEq, forall_eq']
  exact ⟨decodes.every_init, decodes.ahead.every_findFrom⟩

/-- Without a field of that key nothing is found. -/
theorem findHandle_eq_none {position : Nat} {previous : BufferPtr}
    (none : ∀ entry ∈ entries, entry.hasKey name fid = false) :
    findHandle name fid entries position previous = .none := by
  induction entries generalizing position previous with
  | nil => rfl
  | cons entry entries ih =>
      have here := none entry (List.mem_cons_self ..)
      rw [findHandle, if_neg (by simp [here])]
      exact ih fun other member => none other (List.mem_cons_of_mem _ member)

/-- The first field of that key is found where it stands. -/
theorem findHandle_split {before : List FieldEntry} {entry : FieldEntry}
    (found : entry.hasKey name fid = true) (none : ∀ other ∈ before, other.hasKey name fid = false)
    (after : List FieldEntry) (position : Nat) (previous : BufferPtr) :
    ∃ previous', findHandle name fid (before ++ entry :: after) position previous =
      some (entry.handle (position + (encodeAll before).length) previous') := by
  induction before generalizing position previous with
  | nil => exact ⟨previous, by rw [List.nil_append, findHandle, if_pos found]; rfl⟩
  | cons other before ih =>
      have here := none other (List.mem_cons_self ..)
      obtain ⟨previous', later⟩ := ih (fun o member => none o (List.mem_cons_of_mem _ member))
        (position + other.encode.length) (other.handle position previous).mData
      refine ⟨previous', ?_⟩
      rw [List.cons_append, findHandle, if_neg (by simp [here]), later, encodeAll_cons,
        List.length_append, Nat.add_assoc]

end Lookup

/-! ## Handles of consecutive fields -/

/-- Every handle of consecutive fields is that of a field, where the field stands. -/
theorem exists_of_mem_fieldHandles {entries : List FieldEntry} {position : Nat}
    {previous : BufferPtr} {field : OmnmFieldImpl}
    (member : field ∈ fieldHandles entries position previous) :
    ∃ before entry after previous', entries = before ++ entry :: after ∧
      field = entry.handle (position + (encodeAll before).length) previous' ∧
      (fieldHandles entries position previous)[before.length]? = some field := by
  induction entries generalizing position previous with
  | nil => cases member
  | cons entry entries ih =>
      rcases List.mem_cons.mp member with rfl | later
      · exact ⟨[], entry, entries, previous, rfl, rfl, rfl⟩
      · obtain ⟨before, found, after, previous', rfl, rfl, place⟩ := ih later
        refine ⟨entry :: before, found, after, previous', rfl, ?_, place⟩
        rw [encodeAll_cons, List.length_append, Nat.add_assoc]

/-- The handle at a place is that of the field there. -/
theorem fieldHandles_split (before : List FieldEntry) (entry : FieldEntry)
    (after : List FieldEntry) (position : Nat) (previous : BufferPtr) :
    ∃ previous', (fieldHandles (before ++ entry :: after) position previous)[before.length]? =
      some (entry.handle (position + (encodeAll before).length) previous') := by
  induction before generalizing position previous with
  | nil => exact ⟨previous, rfl⟩
  | cons other before ih =>
      obtain ⟨previous', later⟩ := ih (position + other.encode.length)
        (other.handle position previous).mData
      refine ⟨previous', ?_⟩
      rw [encodeAll_cons, List.length_append, ← Nat.add_assoc]
      exact later

theorem fieldHandles_at {before after : List FieldEntry} {entry : FieldEntry}
    (listed : dataLayout entry.type ≠ .unlisted) (position : Nat) (previous previous' : BufferPtr) :
    (fieldHandles (before ++ entry :: after) position previous)[before.length]? =
      some (entry.handle (position + (encodeAll before).length) previous') := by
  obtain ⟨other, place⟩ := fieldHandles_split before entry after position previous
  rw [place, entry.handle_of_listed listed]

/-- The handle at a place has the length of the data there. -/
theorem mSize_of_fieldHandles {before after : List FieldEntry} {entry : FieldEntry}
    {position : Nat} {previous : BufferPtr} {field : OmnmFieldImpl}
    (place : (fieldHandles (before ++ entry :: after) position previous)[before.length]? =
      some field) : field.mSize = entry.data.length := by
  induction before generalizing position previous with
  | nil =>
      cases place
      rfl
  | cons other before ih => exact ih place

/-- What a lookup finds is one of the handles. -/
theorem mem_fieldHandles_of_findHandle {name : Option CString} {fid : UInt16}
    {entries : List FieldEntry} {position : Nat} {previous : BufferPtr} {field : OmnmFieldImpl}
    (found : findHandle name fid entries position previous = some field) :
    field ∈ fieldHandles entries position previous := by
  induction entries generalizing position previous with
  | nil => cases found
  | cons entry entries ih =>
      rw [findHandle] at found
      split at found
      · cases found
        exact List.mem_cons_self ..
      · exact List.mem_cons_of_mem _ (ih found)

end Omnm
