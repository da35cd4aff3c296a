import Omnm.Wire.HandleUpdates
import Omnm.Wire.Walking
import Omnm.Wire.Refinement
import Omnm.Runs.Runs

/-!
# Iterating while the message changes

An iterator keeps its position from one call to the next. An update of the field
that it yielded last moves the bytes behind the field, and leaves the position
where it was. The next calls then yield the fields behind it exactly if the
length did not change, or the field became shorter and the bytes behind it look
the same from the old position (`update_keeps_iteration_iff`).

Fields that are appended stand behind all others, and an iterator that was placed
before reaches them, once each, unless the message was empty when the iterator
was placed: then its first call is taken for the one that fills it, and yields
the first field twice (`appended_yielded_iff`).
-/

set_option autoImplicit false

namespace Omnm

open FieldTypeTags (tag)
open OmnmPayloadImpl

section

variable [FieldTypeTags]

/-! ## Updating the current field -/

/-- Bytes that look the same when they are drawn up by some places, over the length that
remains. -/
def Repeats (places : Nat) (bytes : List UInt8) : Prop :=
  bytes.drop places = bytes.take (bytes.length - places)

/-- Drawn up by some places, the fields are still read at their old position: the last of them
is longer than that, and their bytes look the same. -/
def ReadAlike (places : Nat) (entries : List FieldEntry) : Prop :=
  ∀ front last, entries = front ++ [last] →
    places < last.encode.length ∧ Repeats places (encodeAll entries)

/-- New data for a field that keeps the fields behind it in place for an iterator: data of the
old length, or shorter data in front of fields that are read alike. -/
def KeepsPlace (msg : OmnmPayloadImpl) (entry : FieldEntry) (after : List FieldEntry)
    (bytes : List UInt8) : Prop :=
  bytes.length = entry.data.length ∨
    (msg.mPayloadBufferTail < 2 ^ 31 ∧ bytes.length < entry.data.length ∧
      ReadAlike (entry.data.length - bytes.length) after)

variable {msg next : OmnmPayloadImpl} {before after : List FieldEntry} {entry : FieldEntry}
  {allocator : Allocator} {type : UInt8} {bytes : List UInt8} {field : OmnmFieldImpl}
  {previous : BufferPtr}

omit [FieldTypeTags] in
theorem encode_le_of_split {entries front : List FieldEntry} {last : FieldEntry} [FieldTypeTags]
    (split : entries = front ++ [last]) :
    (encodeAll entries).length = (encodeAll front).length + last.encode.length := by
  rw [split, encodeAll_append, encodeAll_cons, encodeAll_nil, List.append_nil, List.length_append]

omit [FieldTypeTags] in
/-- Bytes that are drawn up by some places over shorter data, read from their old position on,
with those that stay behind: they are the bytes themselves if these repeat. -/
theorem drawn_up_iff {old rest : List UInt8} {length places : Nat} (shorter : length < old.length)
    (difference : old.length - length = places) (inside : places ≤ rest.length) :
    (rest ++ (old ++ rest).drop (length + rest.length)).drop places = rest ↔
      Repeats places rest := by
  have stale : (old ++ rest).drop (length + rest.length) = rest.drop (rest.length - places) := by
    rw [List.drop_append, List.drop_of_length_le (by omega), List.nil_append]
    congr 1
    omega
  rw [stale, List.drop_append_of_le_length inside, Repeats]
  constructor
  · intro same
    have front := congrArg (List.take (rest.length - places)) same
    rw [List.take_left' (by rw [List.length_drop])] at front
    exact front
  · intro same
    rw [same, List.take_append_drop]

/-- After an update of the same length the fields behind are walked over. -/
theorem walk_same (decodes : msg.Decodes (before ++ entry :: after))
    (listed : dataLayout entry.type ≠ .unlisted) (fits : DataFits entry.type bytes)
    (same : bytes.length = entry.data.length)
    (updated : ResultsOk allocator msg type (entry.handle (msg.positionOf before) previous) bytes
      next field) :
    Walk next (msg.positionOf before + entry.encode.length) after := by
  obtain ⟨decodes', place, -⟩ := decodes.update_same listed fits same updated
  rw [← List.singleton_append, ← List.append_assoc] at decodes'
  have walk := decodes'.walk
  rw [encodeAll_append, encodeAll_cons, encodeAll_nil, List.append_nil, List.length_append,
    ← Nat.add_assoc, ← positionOf, place, length_encode_replaced, same,
    ← FieldEntry.length_encode] at walk
  exact walk

/-- After an update to longer data the walk does not end at the tail. -/
theorem not_walk_longer (decodes : msg.Decodes (before ++ entry :: after))
    (longer : entry.data.length < bytes.length) (small : msg.mPayloadBufferTail < 2 ^ 31)
    (memory : bytes.length < 2 ^ 63)
    (updated : ResultsOk allocator msg type (entry.handle (msg.positionOf before) previous) bytes
      next field) :
    ¬ Walk next (msg.positionOf before + entry.encode.length) after := by
  intro walk
  obtain ⟨-, -, ended⟩ := walk_iff.mp walk
  have ends := decodes.ends
  have wide := entry.length_encode
  rw [encodeAll_append, encodeAll_cons, List.length_append, List.length_append] at ends
  rw [positionOf] at ended
  have tail := updated.tail (.inr small) (by rw [FieldEntry.handle_mSize]; omega) memory
  rw [FieldEntry.handle_mSize] at tail
  omega

/-- After an update to shorter data the fields behind are walked over if they are read alike. -/
theorem walk_shorter_iff (decodes : msg.Decodes (before ++ entry :: after))
    (listed : dataLayout entry.type ≠ .unlisted) (fits : DataFits entry.type bytes)
    (shorter : bytes.length < entry.data.length) (small : msg.mPayloadBufferTail < 2 ^ 31)
    (updated : ResultsOk allocator msg type (entry.handle (msg.positionOf before) previous) bytes
      next field) :
    Walk next (msg.positionOf before + entry.encode.length) after ↔
      ReadAlike (entry.data.length - bytes.length) after := by
  obtain ⟨decodes', slack, here⟩ := decodes.update_shorter listed fits shorter small updated
  obtain ⟨places, difference⟩ : ∃ places, entry.data.length - bytes.length = places := ⟨_, rfl⟩
  have wide := entry.length_encode
  have wide' := length_encode_replaced entry bytes
  have behind : msg.positionOf before + entry.encode.length = msg.positionOf before +
      (FieldEntry.encode { entry with data := bytes }).length + places := by omega
  have header : next.getHeaderSize = msg.getHeaderSize := by
    rw [getHeaderSize, updated.kept.1, getHeaderSize]
  have tail : next.mPayloadBufferTail = msg.positionOf before +
      (FieldEntry.encode { entry with data := bytes }).length + (encodeAll after).length := by
    have ends := decodes'.ends
    rw [encodeAll_append, encodeAll_cons, List.length_append, List.length_append, header] at ends
    rw [positionOf]
    omega
  have bytes_eq : next.mPayloadBuffer.drop (msg.positionOf before + entry.encode.length) =
      (encodeAll after ++ (entry.data ++ encodeAll after).drop
        (bytes.length + (encodeAll after).length)).drop places ++ slack := by
    rw [behind, ← List.drop_drop, here, List.drop_append_of_le_length]
    simp only [List.length_append, List.length_drop]
    omega
  rw [walk_iff, difference, bytes_eq]
  constructor
  · rintro ⟨⟨rest, there⟩, starts, -⟩ front last split
    have start := starts front last split
    have whole := encode_le_of_split split
    have inside : places < last.encode.length := by omega
    refine ⟨inside, (drawn_up_iff shorter difference (by omega)).mp ?_⟩
    refine (List.append_inj there ?_).1
    simp only [List.length_append, List.length_drop]
    omega
  · intro alike
    refine ⟨?_, ?_, by omega⟩
    · rcases List.eq_nil_or_concat' after with rfl | ⟨front, last, split⟩
      · exact ⟨_, rfl⟩
      · obtain ⟨inside, repeats⟩ := alike front last split
        have whole := encode_le_of_split split
        rw [(drawn_up_iff shorter difference (by omega)).mpr repeats]
        exact ⟨slack, rfl⟩
    · intro front last split
      have whole := encode_le_of_split split
      have inside := (alike front last split).1
      omega

/-! ## Appending fields -/

/-- A call of `addField`, with the memory it gets. -/
structure Addition where
  allocator : Allocator
  name : Option CString
  fid : UInt16
  data : FieldData

namespace Addition

/-- The buffer grows when it has to, and stays where it is. -/
structure Served (addition : Addition) : Prop where
  succeeds : addition.allocator.Succeeds
  inPlace : addition.allocator.InPlace

/-- The field that is appended. -/
def appended (addition : Addition) : FieldEntry :=
  ⟨addition.data.type, addition.fid, addition.name.getD CString.empty,
    addition.data.bytes.getD []⟩

end Addition

/-- A payload as a system of additions. -/
def additionStep (msg : OmnmPayloadImpl) (addition : Addition) :
    Option (MamaStatus × OmnmPayloadImpl) :=
  (msg.addField addition.allocator addition.data.type addition.name addition.fid
    addition.data.bytes).result

/-- An addition that is reported as OK appends its field. -/
theorem addition_appends {message : Message} {addition : Addition} {status : MamaStatus}
    (represents : msg.Represents message) (served : addition.Served)
    (short : strlenEx addition.name + 1 < 2 ^ 31)
    (small : message.encode.length + addition.appended.encode.length < 2 ^ 64)
    (stepped : additionStep msg addition = some (status, next)) (ok : status = .ok) :
    ∃ fits, next.Represents (message.append addition.appended fits) := by
  subst ok
  obtain ⟨allocator, name, fid, ⟨type, listed, value⟩⟩ := addition
  cases value with
  | none => simp [additionStep, FieldData.bytes, OmnmPayloadImpl.addField] at stepped
  | some value =>
      obtain ⟨data, fits⟩ := value
      have accepted : Accepted name fid data := by
        rw [accepted_iff_rejection]
        cases rejected : rejection name fid data with
        | none => rfl
        | some status =>
            have nothing := @addField_of_rejection _ msg type name fid allocator _ _ rejected
            rw [additionStep, FieldData.bytes, Option.map_some, nothing] at stepped
            cases stepped
            exact absurd rejected rejection_ne_ok
      refine ⟨fits, ?_⟩
      obtain ⟨found, keeps⟩ := represents.append served.succeeds listed fits accepted short
        (by rw [Message.encode_append, List.length_append]; exact small)
      cases keeps.result.symm.trans stepped
      exact keeps.represents

/-- Additions that are reported as OK append their fields in order. -/
theorem additions_append {message : Message} {additions : List Addition}
    {statuses : List MamaStatus} (represents : msg.Represents message)
    (served : ∀ addition ∈ additions, addition.Served)
    (short : ∀ addition ∈ additions, strlenEx addition.name + 1 < 2 ^ 31)
    (small : message.encode.length + (encodeAll (additions.map Addition.appended)).length < 2 ^ 64)
    (ran : run additionStep msg additions = some (statuses, next))
    (ok : ∀ status ∈ statuses, status = .ok) :
    next.getHeaderSize = msg.getHeaderSize ∧
      next.Decodes (message.entries ++ additions.map Addition.appended) := by
  induction additions generalizing msg message statuses with
  | nil =>
      cases ran
      rw [List.map_nil, List.append_nil]
      exact ⟨rfl, represents.decodes⟩
  | cons addition later ih =>
      obtain ⟨status, middle, rest, stepped, continued, rfl⟩ := run_cons_eq_some ran
      rw [List.map_cons, encodeAll_cons, List.length_append] at small
      obtain ⟨fits, added⟩ := addition_appends represents (served addition (List.mem_cons_self ..))
        (short addition (List.mem_cons_self ..)) (by omega) stepped (ok status (List.mem_cons_self ..))
      obtain ⟨header, decodes⟩ := ih added
        (fun other member => served other (List.mem_cons_of_mem _ member))
        (fun other member => short other (List.mem_cons_of_mem _ member))
        (by rw [Message.encode_append, List.length_append]; omega) continued
        (fun other member => ok other (List.mem_cons_of_mem _ member))
      constructor
      · rw [header, added.getHeaderSize_eq, represents.getHeaderSize_eq]
        rfl
      · rw [List.map_cons, ← List.singleton_append, ← List.append_assoc]
        exact decodes

/-- An iterator whose first read was not made yields the first field twice. -/
theorem not_yields_of_unstarted {entries : List FieldEntry} {iter : OmnmIterImpl}
    (decodes : msg.Decodes (entry :: entries)) (unstarted : iter.mIndex = 0)
    (start : iter.mBufferPosition = msg.getHeaderSize) : ¬ Yields msg iter (entry :: entries) := by
  rintro ⟨fields, last, result, shows⟩
  obtain ⟨rest, here⟩ := decodes.here
  have ends := decodes.ends
  have wide := entry.four_le_length_encode
  rw [encodeAll_cons, List.append_assoc, ← start] at here
  rw [encodeAll_cons, List.length_append] at ends
  have first := next_of_drop (decodes.fits entry (List.mem_cons_self ..)) here (by omega)
  rw [nextPosition, if_pos unstarted] at first
  rcases nextUntilNull_cases result with ⟨-, none⟩ | ⟨_, _, others, rfl, yielded, later⟩
  · cases first.symm.trans none
  cases first.symm.trans yielded
  -- the call went back to the first field, so it is still to come with all others
  have behind : AllFit entries := fun other member =>
    decodes.fits other (List.mem_cons_of_mem _ member)
  have walk := (yields_iff_walk behind fun _ => Nat.succ_ne_zero _).mp
    ⟨others, _, later, (List.cons.inj shows).2⟩
  obtain ⟨-, -, ended⟩ := walk_iff.mp walk
  dsimp only at ended
  omega

end

/-- After the call of the iterator that yields a field, and an update of that field through its
handle that is reported as OK, the next calls yield the fields behind it and then NULL if the
new data keeps them in place, and below 2 GiB only then. -/
theorem update_keeps_iteration_iff [FieldTypeTags] {msg : OmnmPayloadImpl} {message : Message}
    (represents : msg.Represents message) {before after : List FieldEntry} {entry : FieldEntry}
    (split : message.entries = before ++ entry :: after)
    {old start iter : OmnmIterImpl} {first : Option OmnmFieldImpl}
    (begun : (omnmmsgPayloadIter_begin old msg).result = some (first, start))
    (advanced : (advance msg (before.length + 1) start).result = some iter)
    {allocator : Allocator} {update : FieldUpdate} {next : OmnmPayloadImpl} {field : OmnmFieldImpl}
    (updated : (update.perform allocator msg iter.mField).result = some (.ok, next, field))
    {type : MamaFieldType} {bytes : List UInt8} (written : update.written = some (type, bytes)) :
    (KeepsPlace msg entry after bytes → Yields next { iter with mField := field } after) ∧
      (msg.mPayloadBufferTail < 2 ^ 31 → bytes.length < 2 ^ 63 →
        Yields next { iter with mField := field } after → KeepsPlace msg entry after bytes) := by
  have decodes := split ▸ represents.decodes
  obtain ⟨yielded, placed, -⟩ := decodes.begin_from old
  cases placed.symm.trans begun
  obtain ⟨-, started, position, previous, handle⟩ := (decodes.ahead_from old).advance_last advanced
  have place : (startFrom msg old (before ++ entry :: after)).mBufferPosition =
      msg.getHeaderSize := by
    cases before <;> rfl
  rw [place, ← positionOf] at position handle
  obtain ⟨type', bytes', written', sameType, performed⟩ := FieldUpdate.perform_eq updated
  cases written.symm.trans written'
  obtain ⟨known, shaped⟩ := FieldUpdate.written_fits written
  rw [handle, FieldEntry.handle_mFieldType] at sameType
  have listed : dataLayout entry.type ≠ .unlisted := sameType ▸ dataLayout_tag type known
  have fits : DataFits entry.type bytes := sameType ▸ shaped
  rw [performed, handle] at updated
  have behind : AllFit after := fun other member =>
    decodes.fits other (List.mem_append_right _ (List.mem_cons_of_mem _ member))
  have walks : Yields next { iter with mField := field } after ↔
      Walk next iter.mBufferPosition after := yields_iff_walk behind fun _ => started
  rw [walks, position]
  constructor
  · rintro (same | ⟨small, shorter, alike⟩)
    · exact walk_same decodes listed fits same updated
    · exact (walk_shorter_iff decodes listed fits shorter small updated).mpr alike
  · intro small memory walk
    rcases Nat.lt_trichotomy bytes.length entry.data.length with shorter | same | longer
    · exact .inr ⟨small, shorter, (walk_shorter_iff decodes listed fits shorter small updated).mp walk⟩
    · exact .inl same
    · exact absurd walk (not_walk_longer decodes longer small memory updated)

/-- An iterator that is placed on a payload yields the fields that are there, those that are
appended later, each once, and then NULL, exactly if there was a field when it was placed or none
is appended. -/
theorem appended_yielded_iff [FieldTypeTags] {msg : OmnmPayloadImpl} {message : Message}
    (represents : msg.Represents message) {old start : OmnmIterImpl}
    {first : Option OmnmFieldImpl}
    (begun : (omnmmsgPayloadIter_begin old msg).result = some (first, start))
    {additions : List Addition} {statuses : List MamaStatus} {next : OmnmPayloadImpl}
    (ran : run additionStep msg additions = some (statuses, next))
    (ok : ∀ status ∈ statuses, status = .ok)
    (served : ∀ addition ∈ additions, addition.Served)
    (short : ∀ addition ∈ additions, strlenEx addition.name + 1 < 2 ^ 31)
    (small : message.encode.length + (encodeAll (additions.map Addition.appended)).length < 2 ^ 64) :
    Yields next start (message.entries ++ additions.map Addition.appended) ↔
      message.entries ≠ [] ∨ additions = [] := by
  obtain ⟨yielded, placed, -⟩ := represents.decodes.begin_from old
  cases placed.symm.trans begun
  obtain ⟨header, decodes⟩ := additions_append represents served short small ran ok
  cases entries : message.entries with
  | cons entry others =>
      rw [entries] at decodes
      refine ⟨fun _ => .inl (List.cons_ne_nil _ _), ?_⟩
      intro _
      have walk := @Decodes.walk _ _ [] _ decodes
      rw [header] at walk
      exact (yields_iff_walk decodes.fits fun _ => Nat.one_ne_zero).mpr walk
  | nil =>
      rw [entries, List.nil_append] at decodes
      cases added : additions with
      | nil =>
          rw [added] at decodes
          refine ⟨fun _ => .inr rfl, ?_⟩
          intro _
          have walk := @Decodes.walk _ _ [] _ decodes
          rw [header] at walk
          exact (yields_iff_walk decodes.fits fun some_entries => absurd rfl some_entries).mpr walk
      | cons addition later =>
          rw [added] at decodes
          constructor
          · intro yields
            exact absurd yields (not_yields_of_unstarted decodes rfl header.symm)
          · rintro (impossible | impossible)
            · exact absurd rfl impossible
            · cases impossible

section Example

attribute [local instance] mamaFieldTypes

/-- A string, and a byte behind it. -/
def stringThenByte : List FieldEntry :=
  [⟨mamaFieldTypeNumber .string, 1, CString.empty, [97, 98, 0]⟩,
    ⟨mamaFieldTypeNumber .i8, 2, CString.empty, [5]⟩]

theorem allFit_stringThenByte : AllFit stringThenByte := by
  intro entry member
  rcases List.mem_pair.mp member with rfl | rfl
  · decide
  · decide

/-- The message with these fields. -/
def stringThenByteMessage : Message :=
  ⟨mamaPayloadIdOmnm, 1, [], stringThenByte, UInt8.le_refl omnmProtocolVersion, Message.extra_nil_lt,
    allFit_stringThenByte⟩

/-- The iterator behind the string. -/
def iterBehindString : OmnmIterImpl :=
  ⟨⟨mamaFieldTypeNumber .string, 1, .null, 3, .offset 7⟩, 10, 2⟩

/-- A new iterator, before its first read. -/
def unplacedIter : OmnmIterImpl := ⟨OmnmFieldImpl.zeroed, 0, 0⟩

theorem begun_stringThenByte :
    (omnmmsgPayloadIter_begin unplacedIter stringThenByteMessage.payload).result =
      some (some iterBehindString.mField, { iterBehindString with
        mBufferPosition := 3
        mIndex := 1 }) := by
  decide +kernel

theorem advanced_stringThenByte :
    (advance stringThenByteMessage.payload 1 { iterBehindString with
      mBufferPosition := 3
      mIndex := 1 }).result = some iterBehindString := by
  decide +kernel

/-- A string of the same length leaves the byte to be yielded. -/
theorem update_keeps_iteration_same :
    Yields { stringThenByteMessage.payload with
        mPayloadBuffer := [79, 1, 0, 8, 1, 0, 0, 99, 100, 0, 11, 2, 0, 0, 5] } iterBehindString
      [⟨mamaFieldTypeNumber .i8, 2, CString.empty, [5]⟩] := by
  have updated : ((FieldUpdate.string (some ⟨[99, 100], by decide⟩)).perform .zeroing
      stringThenByteMessage.payload iterBehindString.mField).result = some (.ok,
        { stringThenByteMessage.payload with
          mPayloadBuffer := [79, 1, 0, 8, 1, 0, 0, 99, 100, 0, 11, 2, 0, 0, 5] },
        iterBehindString.mField) := by
    decide +kernel
  exact (update_keeps_iteration_iff stringThenByteMessage.payload_represents
    (show stringThenByteMessage.entries = [] ++ _ :: _ from rfl) begun_stringThenByte
    advanced_stringThenByte updated rfl).1 (.inl rfl)

/-- A longer string makes the next call read in the middle of it. -/
theorem longer_string_breaks_iteration :
    stringThenByteMessage.payload.Represents stringThenByteMessage ∧ Allocator.zeroing.InPlace ∧
    (∃ first start, (omnmmsgPayloadIter_begin unplacedIter stringThenByteMessage.payload).result =
        some (first, start) ∧
      (advance stringThenByteMessage.payload 1 start).result = some iterBehindString) ∧
    ∃ (next : OmnmPayloadImpl) (field : OmnmFieldImpl),
      ((FieldUpdate.string (some ⟨[97, 98, 99], by decide⟩)).perform .zeroing
          stringThenByteMessage.payload iterBehindString.mField).result =
        some (.ok, next, field) ∧
      ¬ Yields next { iterBehindString with mField := field }
        [⟨mamaFieldTypeNumber .i8, 2, CString.empty, [5]⟩] := by
  refine ⟨stringThenByteMessage.payload_represents, Allocator.zeroing_inPlace,
    ⟨_, _, begun_stringThenByte, advanced_stringThenByte⟩, { stringThenByteMessage.payload with
    mPayloadBuffer := [79, 1, 0, 8, 1, 0, 0, 97, 98, 99, 0, 11, 2, 0, 0, 5]
    mPayloadBufferTail := 16 }, iterBehindString.mField, by decide +kernel, ?_⟩
  rintro ⟨fields, last, result, -⟩
  -- the terminator of the string is taken for a type byte
  have fault : (nextUntilNull { stringThenByteMessage.payload with
      mPayloadBuffer := [79, 1, 0, 8, 1, 0, 0, 97, 98, 99, 0, 11, 2, 0, 0, 5]
      mPayloadBufferTail := 16 } 2 iterBehindString).result = none := by
    decide +kernel
  exact absurd (fault.symm.trans result) (by simp)

/-- The addition of a byte. -/
def byteAddition : Addition where
  allocator := .zeroing
  name := none
  fid := 2
  data := ⟨mamaFieldTypeNumber .i8, by decide, some ⟨[5], by decide⟩⟩

theorem byteAddition_served : byteAddition.Served :=
  ⟨Allocator.zeroing_succeeds, Allocator.zeroing_inPlace⟩

/-- A field that is appended behind others is yielded. -/
theorem appended_yielded_behind :
    Yields { stringThenByteMessage.payload with
        mPayloadBuffer := stringThenByteMessage.encode ++ [11, 2, 0, 0, 5]
        mPayloadBufferTail := 20 }
      { iterBehindString with
        mBufferPosition := 3
        mIndex := 1 } (stringThenByte ++ [byteAddition.appended]) := by
  have ran : run additionStep stringThenByteMessage.payload [byteAddition] = some ([.ok],
      { stringThenByteMessage.payload with
        mPayloadBuffer := stringThenByteMessage.encode ++ [11, 2, 0, 0, 5]
        mPayloadBufferTail := 20 }) := by
    decide +kernel
  have each : ∀ addition ∈ [byteAddition], addition = byteAddition :=
    fun addition member => List.mem_singleton.mp member
  exact (appended_yielded_iff stringThenByteMessage.payload_represents begun_stringThenByte ran
    (by decide) (fun addition member => each addition member ▸ byteAddition_served)
    (fun addition member => each addition member ▸ (by decide)) (by decide)).mpr
      (.inl (List.cons_ne_nil _ _))

/-- A field that is appended to an empty message is yielded twice. -/
theorem appended_first_yielded_twice :
    newPayload.Represents Message.empty ∧ byteAddition.Served ∧
      (omnmmsgPayloadIter_begin unplacedIter newPayload).result =
        some (none, ⟨OmnmFieldImpl.zeroed, 3, 0⟩) ∧
      ∃ next, run additionStep newPayload [byteAddition] = some ([.ok], next) ∧
        ¬ Yields next ⟨OmnmFieldImpl.zeroed, 3, 0⟩ [byteAddition.appended] := by
  refine ⟨Represents.newPayload, byteAddition_served, by decide +kernel, { newPayload with
    mPayloadBuffer := [79, 1, 0, 11, 2, 0, 0, 5] ++ List.replicate 192 0
    mPayloadBufferTail := 8 }, by decide +kernel, ?_⟩
  rintro ⟨fields, last, result, -⟩
  have longer : (nextUntilNull { newPayload with
      mPayloadBuffer := [79, 1, 0, 11, 2, 0, 0, 5] ++ List.replicate 192 0
      mPayloadBufferTail := 8 } 2 ⟨OmnmFieldImpl.zeroed, 3, 0⟩).result = none := by
    decide +kernel
  exact absurd (longer.symm.trans result) (by simp)

end Example

end Omnm
