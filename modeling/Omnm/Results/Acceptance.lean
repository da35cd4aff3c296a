import Omnm.Memory.FreshStrings
import Omnm.Wire.Received
import Omnm.Wire.FieldCalls

/-!
# What accepting a serialised buffer promises

`omnmmsgPayload_unSerialize` checks the version of a buffer and nothing else. So
what holds of a payload that took in a buffer depends on the buffer.

Iterating over it stays inside the message exactly when the bytes behind the
header are complete fields (`iterationSafe_iff_completeFields`). The header is
complete, and fields that are added later can be found, exactly when the header
fits and complete fields follow it (`takenWhole_iff`). And the payload's own
buffer, which is wiped before it is taken in, comes back unchanged exactly when
it was zero (`own_buffer_unchanged_iff`).
-/

set_option autoImplicit false

namespace Omnm

open OmnmPayloadImpl

/-! ## The body that was taken in -/

section Body

variable {msg : OmnmPayloadImpl} {incoming : Incoming} {length : Nat}

theorem length_taken (readable : length ≤ (incoming.bytes msg).length) :
    (incoming.taken length).length = length := by
  cases incoming with
  | own => exact List.length_replicate
  | other memory => exact List.length_take_of_le readable

theorem takenPayload_tail_le (readable : length ≤ (incoming.bytes msg).length)
    (slack : List UInt8) :
    (takenPayload msg incoming length slack).mPayloadBufferTail ≤
      (takenPayload msg incoming length slack).mPayloadBufferSize := by
  rw [mPayloadBufferSize, takenPayload, List.length_append, length_taken readable]
  exact Nat.le_add_right ..

variable [FieldTypeTags]

/-- What a payload took in has nothing behind the header, or complete fields there,
when the bytes have. -/
theorem takenPayload_complete_iff (readable : length ≤ (incoming.bytes msg).length)
    (slack : List UInt8) :
    ((takenPayload msg incoming length slack).mPayloadBufferTail ≤
        (takenPayload msg incoming length slack).getHeaderSize ∨
      ∃ entries, (takenPayload msg incoming length slack).Decodes entries) ↔
      CompleteFields ((incoming.taken length).drop
        (3 + ((incoming.bytes msg).getD 2 0).toNat)) := by
  have whole := length_taken readable
  have size : (takenPayload msg incoming length slack).getHeaderSize =
      3 + ((incoming.bytes msg).getD 2 0).toNat := rfl
  rw [size]
  generalize 3 + ((incoming.bytes msg).getD 2 0).toNat = headerSize at size ⊢
  constructor
  · rintro (short | ⟨entries, fits, ⟨rest, here⟩, ends⟩)
    · refine ⟨[], allFit_nil, ?_⟩
      rw [encodeAll_nil, List.drop_eq_nil_iff, whole]
      exact short
    · rw [size] at here ends
      have place : headerSize + (encodeAll entries).length = length := ends
      have kept : (incoming.taken length ++ slack).drop headerSize =
          (incoming.taken length).drop headerSize ++ slack :=
        List.drop_append_of_le_length (by omega)
      refine ⟨entries, fits, ?_⟩
      have split := kept.symm.trans here
      exact (List.append_inj split (by rw [List.length_drop, whole]; omega)).1
  · rintro ⟨entries, fits, body⟩
    by_cases short : length ≤ headerSize
    · exact .inl short
    · have kept : (incoming.taken length ++ slack).drop headerSize =
          (incoming.taken length).drop headerSize ++ slack :=
        List.drop_append_of_le_length (by omega)
      have count := congrArg List.length body
      rw [List.length_drop, whole] at count
      refine .inr ⟨entries, fits, ⟨slack, ?_⟩, ?_⟩
      · rw [size, ← body]
        exact kept
      · rw [size, ← count]
        show headerSize + (length - headerSize) = length
        omega

end Body

/-! ## Iterating over what was taken in -/

/-- Iterating over a payload that took in a buffer stays inside the message exactly
when the bytes behind the header are complete fields. -/
theorem iterationSafe_iff_completeFields [FieldTypeTags] {allocator : Allocator}
    {msg next : OmnmPayloadImpl} {incoming : Incoming} {length : Nat}
    (readable : length ≤ (incoming.bytes msg).length)
    (accepted : (omnmmsgPayload_unSerialize allocator msg (some incoming) length).result =
      some (.ok, next)) :
    next.IterationSafe ↔
      CompleteFields ((incoming.taken length).drop (3 + ((incoming.bytes msg).getD 2 0).toNat)) := by
  obtain ⟨-, -, -, -, slack, rfl⟩ := of_unSerialize_ok readable accepted
  rw [iterationSafe_iff (takenPayload_tail_le readable slack), takenPayload_complete_iff readable]

section Example

attribute [local instance] mamaFieldTypes

/-- A buffer that ends after the type of its first field. -/
def cutOff : List UInt8 := [79, 1, 0, 11]

theorem cutOff_taken :
    ∃ slack, (omnmmsgPayload_unSerialize .zeroing newPayload (some (.other cutOff)) 4).result =
      some (.ok, takenPayload newPayload (.other cutOff) 4 slack) := by
  have readable : 4 ≤ ((Incoming.other cutOff).bytes newPayload).length := Nat.le_refl 4
  obtain ⟨slack, result, -⟩ := unSerialize_of_version readable (by decide) (by decide) (by decide)
    (allocateBufferMemory_of_succeeds Allocator.zeroing_succeeds _ _)
  exact ⟨slack, result⟩

theorem iterationSafe_iff_completeFields_cutOff :
    ∃ next, (omnmmsgPayload_unSerialize .zeroing newPayload (some (.other cutOff)) 4).result =
        some (.ok, next) ∧ (next.IterationSafe ↔ CompleteFields [11]) := by
  obtain ⟨slack, result⟩ := cutOff_taken
  exact ⟨_, result, iterationSafe_iff_completeFields (Nat.le_refl 4) result⟩

/-- The buffer is accepted, and iterating over it is not safe. -/
theorem not_iterationSafe_cutOff :
    ∃ next, (omnmmsgPayload_unSerialize .zeroing newPayload (some (.other cutOff)) 4).result =
        some (.ok, next) ∧ ¬ next.IterationSafe := by
  obtain ⟨slack, result⟩ := cutOff_taken
  refine ⟨_, result, ?_⟩
  intro safe
  rcases (iterationSafe_iff (takenPayload_tail_le (Nat.le_refl 4) slack)).mp safe with
    short | ⟨entries, -, -, ends⟩
  · exact absurd (show 4 ≤ 3 from short) (by decide)
  · have total : 3 + (encodeAll entries).length = 4 := ends
    cases entries with
    | nil => exact absurd total (by decide)
    | cons entry entries =>
        have wide := entry.four_le_length_encode
        rw [encodeAll_cons, List.length_append] at total
        omega

end Example

/-! ## Taking in the payload's own buffer -/

/-- A payload with the same message: its bytes, its tail, its header, and, where
these bytes determine them, the fields it decodes to. -/
structure OmnmPayloadImpl.SameContent [FieldTypeTags] (msg next : OmnmPayloadImpl) : Prop where
  serialized : next.serialized = msg.serialized
  tail : next.mPayloadBufferTail = msg.mPayloadBufferTail
  header : next.mHeader = msg.mHeader
  decoded : msg.IterationSafe → next.decodedFields = msg.decodedFields

section Content

variable [FieldTypeTags] {msg next : OmnmPayloadImpl}

/-- The fields of a message depend on its bytes only. -/
theorem OmnmPayloadImpl.Decodes.of_serialized {entries : List FieldEntry}
    (decodes : msg.Decodes entries) (inside : msg.mPayloadBufferTail ≤ msg.mPayloadBufferSize)
    (serialized : next.serialized = msg.serialized)
    (tail : next.mPayloadBufferTail = msg.mPayloadBufferTail) (header : next.mHeader = msg.mHeader) :
    next.Decodes entries := by
  have size : next.getHeaderSize = msg.getHeaderSize := by
    rw [getHeaderSize, header, getHeaderSize]
  obtain ⟨fits, ⟨rest, here⟩, ends⟩ := decodes
  refine ⟨fits, ⟨next.mPayloadBuffer.drop next.mPayloadBufferTail, ?_⟩, by rw [size, ends, tail]⟩
  have body : msg.serialized.drop msg.getHeaderSize = encodeAll entries := by
    rw [OmnmPayloadImpl.serialized, ← ends, List.drop_take, here, Nat.add_sub_cancel_left,
      List.take_left]
  have whole : msg.serialized.length = msg.mPayloadBufferTail := List.length_take_of_le inside
  calc next.mPayloadBuffer.drop next.getHeaderSize
      = (next.serialized ++ next.mPayloadBuffer.drop next.mPayloadBufferTail).drop
          msg.getHeaderSize := by rw [size, OmnmPayloadImpl.serialized, List.take_append_drop]
    _ = encodeAll entries ++ next.mPayloadBuffer.drop next.mPayloadBufferTail := by
        rw [serialized, List.drop_append_of_le_length (by omega), body]

theorem decodedFields_of_tail_le (short : msg.mPayloadBufferTail ≤ msg.getHeaderSize) :
    msg.decodedFields = some [] := by
  rw [decodedFields, (iterateFields_of_tail_le short).1]
  rfl

/-- Payloads with the same bytes and header decode to the same fields. -/
theorem sameContent_of_serialized (inside : msg.mPayloadBufferTail ≤ msg.mPayloadBufferSize)
    (serialized : next.serialized = msg.serialized)
    (tail : next.mPayloadBufferTail = msg.mPayloadBufferTail) (header : next.mHeader = msg.mHeader) :
    msg.SameContent next := by
  refine ⟨serialized, tail, header, ?_⟩
  intro safe
  rcases (iterationSafe_iff inside).mp safe with short | ⟨entries, decodes⟩
  · have short' : next.mPayloadBufferTail ≤ next.getHeaderSize := by
      rw [tail, getHeaderSize, header]
      exact short
    rw [decodedFields_of_tail_le short, decodedFields_of_tail_le short']
  · rw [decodes.decodedFields, (decodes.of_serialized inside serialized tail header).decodedFields]

end Content

/-- Taking in the payload's own buffer, directly or by copying a payload onto itself,
is accepted and leaves the message as it was exactly when its bytes are zeros and
its header record is what its buffer starts with, of a version this code accepts. -/
theorem own_buffer_unchanged_iff [FieldTypeTags] {allocator : Allocator} {msg : OmnmPayloadImpl}
    (nonempty : msg.mPayloadBufferTail ≠ 0) (room : 3 ≤ msg.mPayloadBufferSize)
    (inside : msg.mPayloadBufferTail ≤ msg.mPayloadBufferSize) :
    ∀ call ∈ [omnmmsgPayload_unSerialize allocator msg (some .own) msg.mPayloadBufferTail,
        omnmmsgPayload_copy allocator msg .self],
      (∃ next, call.result = some (.ok, next) ∧ msg.SameContent next) ↔
        (∀ byte ∈ msg.serialized, byte = 0) ∧
          msg.mHeader.mWireFormatVersion = msg.mPayloadBuffer.getD 1 0 ∧
          msg.mHeader.mRemainingHeaderSize = msg.mPayloadBuffer.getD 2 0 ∧
          msg.mHeader.mWireFormatVersion ≤ omnmProtocolVersion := by
  have readable : msg.mPayloadBufferTail ≤ (Incoming.own.bytes msg).length := inside
  have whole : msg.serialized.length = msg.mPayloadBufferTail := List.length_take_of_le inside
  have zeros : ∀ slack, (takenPayload msg .own msg.mPayloadBufferTail slack).serialized =
      List.replicate msg.mPayloadBufferTail 0 := by
    intro slack
    rw [serialized, takenPayload, Incoming.taken, List.take_left' List.length_replicate]
  intro call member
  have same : call = omnmmsgPayload_unSerialize allocator msg (some .own) msg.mPayloadBufferTail := by
    simp only [List.mem_cons, List.not_mem_nil, or_false] at member
    rcases member with direct | copied
    · exact direct
    · exact copied
  rw [same]
  constructor
  · rintro ⟨next, accepted, content⟩
    obtain ⟨-, -, version, -, slack, rfl⟩ := of_unSerialize_ok readable accepted
    obtain ⟨-, oldVersion, oldRemaining⟩ := OmnmHeader.mk.injEq .. ▸ content.header
    refine ⟨?_, oldVersion.symm, oldRemaining.symm, oldVersion ▸ version⟩
    intro byte member
    rw [← content.serialized, zeros] at member
    exact List.eq_of_mem_replicate member
  · rintro ⟨zero, version, remaining, accepted⟩
    have large : msg.mPayloadBufferTail ≤
        (List.replicate msg.mPayloadBufferSize (0 : UInt8)).length := by
      rw [List.length_replicate]
      exact inside
    have succeeded : (allocateBufferMemory allocator (List.replicate msg.mPayloadBufferSize 0)
        msg.mPayloadBufferTail).succeeded = true := by
      rw [allocateBufferMemory_of_le large]
    obtain ⟨slack, result, -⟩ := unSerialize_of_version readable nonempty room
      (version ▸ accepted) succeeded
    refine ⟨_, result, sameContent_of_serialized inside ?_ rfl ?_⟩
    · rw [zeros, ← whole]
      exact (List.eq_replicate_of_mem zero).symm
    · rw [takenPayload, takenHeader, Incoming.bytes, ← version, ← remaining]

section Example

attribute [local instance] mamaFieldTypes

/-- A payload that took in a header of zeros. -/
def zeroPayload : OmnmPayloadImpl :=
  ⟨List.replicate defaultPayloadSize 0, 3, ⟨mamaPayloadIdOmnm, 0, 0⟩, []⟩

theorem zeroPayload_serialized : zeroPayload.serialized = List.replicate 3 0 := by
  rw [OmnmPayloadImpl.serialized, zeroPayload, List.take_replicate]
  rfl

theorem own_buffer_unchanged_zeros :
    ∃ next, (omnmmsgPayload_copy .zeroing zeroPayload .self).result = some (.ok, next) ∧
      zeroPayload.SameContent next := by
  have zero : ∀ byte ∈ zeroPayload.serialized, byte = 0 := by
    intro byte member
    rw [zeroPayload_serialized] at member
    exact List.eq_of_mem_replicate member
  exact (own_buffer_unchanged_iff (by decide) (by decide +kernel) (by decide +kernel) _
    (List.mem_cons_of_mem _ (List.mem_singleton_self _))).mpr ⟨zero, rfl, rfl, by decide⟩

/-- A new payload that takes in its own buffer is left without its header. -/
theorem own_buffer_wiped :
    ∃ created next, omnmmsgPayload_create.result = some (.ok, created) ∧
      (omnmmsgPayload_unSerialize .zeroing created (some .own) created.mPayloadBufferTail).result =
        some (.ok, next) ∧ next.serialized = [0, 0, 0] ∧ created.serialized = [79, 1, 0] :=
  ⟨newPayload, ⟨List.replicate defaultPayloadSize 0, 3, OmnmHeader.default, []⟩,
    omnmmsgPayload_create_result, by decide +kernel, by decide, by decide⟩

end Example

/-! ## Fields that are added later -/

/-- A read of a buffer that was passed in ends below an offset. -/
def Access.IncomingBelow (limit : Nat) : Access Region → Prop
  | .load .incoming offset length => offset + length ≤ limit
  | .load .message _ _ | .load .scratch _ _ | .store .. | .move .. => True

/-- Taking in a buffer of at least three bytes does not read past its end. -/
theorem every_incoming_unSerialize (allocator : Allocator) (msg : OmnmPayloadImpl)
    {memory : List UInt8} (header : 3 ≤ memory.length) :
    Traced.Every (Access.IncomingBelow memory.length)
      (omnmmsgPayload_unSerialize allocator msg (some (.other memory)) memory.length) := by
  have loads : ∀ offset length, offset + length ≤ memory.length →
      Traced.Every (Access.IncomingBelow memory.length)
        (loadBytes Region.incoming memory offset length) := by
    intro offset length inside access member
    rw [List.mem_singleton.mp member]
    exact inside
  have stores : ∀ buffer offset bytes, Traced.Every (Access.IncomingBelow memory.length)
      (store Region.message buffer offset bytes) := by
    intro buffer offset bytes
    exact every_store.mpr trivial
  rw [omnmmsgPayload_unSerialize]
  split
  · exact Traced.every_pure _
  · simp only [loadHeader, Traced.every_bind, Traced.every_pure, implies_true, and_true]
    refine ⟨loads 0 3 header, ?_⟩
    intro found _
    split
    · exact Traced.every_pure _
    · rw [Traced.every_bind]
      refine ⟨stores _ _ _, ?_⟩
      intro wiped _
      split
      · exact Traced.every_pure _
      · simp only [Traced.every_bind, Traced.every_pure, implies_true, and_true]
        exact ⟨loads 0 memory.length (by omega), fun _ _ => stores _ _ _⟩

/-- A string that was loaded stands in the memory. -/
theorem standsAt_of_loadCString {memory : List UInt8} {offset : Nat} {string : CString}
    (loaded : (loadCString memory offset).result = some string.bytes) :
    string.StandsAt memory offset := by
  obtain ⟨length, scanned, copied⟩ := Traced.result_bind_eq_some.mp loaded
  obtain ⟨found, rest, here, rfl⟩ := exists_of_result_strlen scanned
  rw [loadBytes] at copied
  split at copied
  · rw [slice, here, CString.terminated, List.append_assoc, List.take_left,
      Option.some.injEq] at copied
    rw [← CString.ext copied]
    exact ⟨rest, here⟩
  · cases copied

/-- A name that matches the name of a field stands in the memory. -/
theorem standsAt_of_nameMatches {msg : OmnmPayloadImpl} {name : CString} {candidate : OmnmFieldImpl}
    (matched : (nameMatches msg (some name) candidate).result = some true) :
    ∃ offset, name.StandsAt msg.mPayloadBuffer offset := by
  cases stored : candidate.mName with
  | null =>
      simp only [nameMatches, stored] at matched
      cases matched
  | stray =>
      simp only [nameMatches, stored] at matched
      cases matched
  | offset offset =>
      simp only [nameMatches, stored] at matched
      obtain ⟨bytes, loaded, equal⟩ := Traced.result_bind_eq_some.mp matched
      have same : name.bytes = bytes := by simpa using equal
      exact ⟨offset, standsAt_of_loadCString (same ▸ loaded)⟩

section Added

variable [FieldTypeTags]

/-- A field that `addField` accepts under a key that no field has, of data as the
public functions give it, with sizes that the integers of the code hold. -/
structure OmnmPayloadImpl.AcceptsNew (msg : OmnmPayloadImpl) (name : Option CString) (fid : UInt16)
    (type : UInt8) (bytes : List UInt8) : Prop where
  listed : dataLayout type ≠ .unlisted
  fits : DataFits type bytes
  accepted : Accepted name fid bytes
  short : strlenEx name + 1 < 2 ^ 31
  small : msg.mPayloadBufferTail +
    (writtenField type fid (name.getD CString.empty) bytes).length < 2 ^ 64
  fresh : ∀ field, (msg.findFieldInBuffer name fid).result ≠ some (some field)

/-- The field is yielded by a complete iteration, and found under its key. -/
structure OmnmPayloadImpl.ShowsField (msg : OmnmPayloadImpl) (name : Option CString)
    (fid : UInt16) (field : OmnmFieldImpl) : Prop where
  yielded : ∃ fields last, (iterateFields msg).result = some (fields, last) ∧ field ∈ fields
  found : (msg.getField name fid).result = some (.ok, some field)

/-- Every field that can be added under a new key shows behind the old tail. -/
def OmnmPayloadImpl.AddsAreFound (msg : OmnmPayloadImpl) : Prop :=
  ∀ (allocator : Allocator) (name : Option CString) (fid : UInt16) (type : UInt8)
    (bytes : List UInt8), allocator.Succeeds → msg.AcceptsNew name fid type bytes →
    ∃ after, (msg.addField allocator type name fid (some bytes)).result = some (.ok, after) ∧
      after.ShowsField name fid (FieldEntry.handle ⟨type, fid, name.getD CString.empty, bytes⟩
        msg.mPayloadBufferTail .null)

namespace OmnmPayloadImpl.Represents

variable {msg after : OmnmPayloadImpl} {message : Message} {name : Option CString} {fid : UInt16}

/-- A field appended under a new key shows. -/
theorem showsField {entry : FieldEntry} (fits : DataFits entry.type entry.data)
    (represents : after.Represents (message.append entry fits))
    (listed : dataLayout entry.type ≠ .unlisted) (hasKey : entry.hasKey name fid = true)
    (key : validateNameFid name fid = none) (absent : message.find name fid = none) :
    after.ShowsField name fid (entry.handle message.encode.length .null) := by
  have place : message.encode.length = after.getHeaderSize + (encodeAll message.entries).length := by
    rw [represents.getHeaderSize_eq, Message.encode, List.length_append]
    rfl
  have none : ∀ other ∈ message.entries, other.hasKey name fid = false := by
    intro other member
    simpa using List.find?_eq_none.mp absent other member
  constructor
  · obtain ⟨last, result⟩ := represents.decodes.iterateFields
    exact ⟨_, last, result, place ▸ List.mem_of_getElem? (fieldHandles_at listed _ _ .null)⟩
  · have search := represents.decodes.findFieldInBuffer name fid
    obtain ⟨previous, handle⟩ := findHandle_split hasKey none [] after.getHeaderSize .null
    have found : (after.findFieldInBuffer name fid).result =
        some (some (entry.handle message.encode.length .null)) := by
      rw [search, place, entry.handle_of_listed listed _ .null previous, ← handle]
      rfl
    rw [OmnmPayloadImpl.getField, key, Traced.result_bind, found]
    rfl

theorem addsAreFound (represents : msg.Represents message) : msg.AddsAreFound := by
  intro allocator name fid type bytes succeeds new
  have absent : message.find name fid = none := by
    rcases represents.findFieldInBuffer name fid with ⟨absent, -⟩ |
      ⟨before, entry, rest, previous, -, -, -, -, search⟩
    · exact absent
    · exact absurd search (new.fresh _)
  have small := new.small
  rw [writtenField_eq_encode new.listed, represents.tail, ← List.length_append,
    ← message.encode_append _ new.fits] at small
  obtain ⟨after, keeps⟩ := represents.append succeeds new.listed new.fits new.accepted new.short
    small
  refine ⟨after, keeps.result, ?_⟩
  rw [represents.tail]
  exact keeps.represents.showsField new.fits new.listed (hasKey_of_validateNameFid new.accepted.key)
    new.accepted.key absent

end OmnmPayloadImpl.Represents

/-- A lookup by name finds names that stand in the buffer only. -/
theorem standsAt_of_findFieldInBuffer {msg : OmnmPayloadImpl} {name : CString}
    {field : OmnmFieldImpl}
    (found : (msg.findFieldInBuffer (some name) 0).result = some (some field)) :
    ∃ offset, name.StandsAt msg.mPayloadBuffer offset := by
  obtain ⟨iter, -, loop⟩ := Traced.result_bind_eq_some.mp found
  generalize iterationBound msg = rounds at loop
  induction rounds generalizing iter with
  | zero => cases loop
  | succ rounds ih =>
      obtain ⟨⟨candidate, next⟩, -, continued⟩ := Traced.result_bind_eq_some.mp loop
      cases candidate with
      | none => cases continued
      | some candidate =>
          dsimp only at continued
          rw [if_neg (by simp)] at continued
          obtain ⟨same, matched, decided⟩ := Traced.result_bind_eq_some.mp continued
          cases same with
          | false => exact ih next decided
          | true => exact standsAt_of_nameMatches matched

/-- A payload in which every field that is added can be found has complete fields
behind its header. A field with a name that stands nowhere in the buffer can only be
found where it was added. -/
theorem completeFields_of_addsAreFound {msg : OmnmPayloadImpl} (adds : msg.AddsAreFound)
    (inside : msg.mPayloadBufferTail ≤ msg.mPayloadBufferSize)
    (header : msg.getHeaderSize ≤ msg.mPayloadBufferTail)
    (object : msg.mPayloadBufferTail < 2 ^ 63) (memory : msg.mPayloadBufferSize < 2 ^ 64) :
    CompleteFields (msg.serialized.drop msg.getHeaderSize) := by
  obtain ⟨name, length, absent⟩ := exists_absent_string memory
  have named : name ≠ CString.empty := by
    intro empty
    rw [CString.empty_iff.mp empty] at length
    cases length
  have layout : dataLayout (FieldTypeTags.tag .i8) = .fixed 1 := by
    simp only [dataLayout, fieldTypeOf_tag]
  have key : validateNameFid (some name) 0 = none := by
    simp only [validateNameFid, named, and_false, if_false]
  have accepted : Accepted (some name) 0 [0] := ⟨by decide, by decide, key⟩
  have short : strlenEx (some name) + 1 < 2 ^ 31 := by
    rw [strlenEx, length]
    decide
  have small : msg.mPayloadBufferTail +
      (writtenField (FieldTypeTags.tag .i8) 0 ((some name).getD CString.empty) [0]).length <
        2 ^ 64 := by
    rw [length_writtenField, Option.getD_some, CString.length_terminated, length,
      List.length_singleton]
    split <;> omega
  have new : msg.AcceptsNew (some name) 0 (FieldTypeTags.tag .i8) [0] := by
    refine ⟨by rw [layout]; exact DataLayout.noConfusion, by rw [DataFits, layout]; rfl, accepted,
      short, small, ?_⟩
    intro field found
    obtain ⟨offset, stands⟩ := standsAt_of_findFieldInBuffer found
    exact absent offset stands
  obtain ⟨after, added, ⟨fields, last, iterated, member⟩, -⟩ :=
    adds .zeroing (some name) 0 _ _ Allocator.zeroing_succeeds new
  obtain ⟨slack, result, -, -⟩ :=
    addField_of_accepted accepted Allocator.zeroing_succeeds short small inside
  rw [added, Option.some.injEq, Prod.mk.injEq] at result
  obtain ⟨-, rfl⟩ := result
  have whole : msg.serialized.length = msg.mPayloadBufferTail := List.length_take_of_le inside
  have shown : (FieldEntry.handle ⟨FieldTypeTags.tag .i8, 0, (some name).getD CString.empty, [0]⟩
      msg.mPayloadBufferTail .null).mName = .offset (msg.mPayloadBufferTail + 3) := by
    rw [FieldEntry.handle, namePointer, Option.getD_some, if_neg named]
  obtain ⟨entries, rest, fits, here, ends⟩ := complete_of_yielded iterated
    (by rw [mPayloadBufferSize]; simp only [List.length_append, whole]; omega) member shown
  refine ⟨entries, fits, ?_⟩
  have size : getHeaderSize msg + (encodeAll entries).length = msg.mPayloadBufferTail := ends
  rw [List.append_assoc] at here
  have split := (List.drop_append_of_le_length (by rw [whole]; exact header)).symm.trans here
  refine (List.append_inj split ?_).1
  show (msg.serialized.drop msg.getHeaderSize).length = (encodeAll entries).length
  rw [List.length_drop, whole]
  omega

/-- A buffer is taken in as the code means it to be: nothing behind its end is read,
and when it is accepted, the header is inside the message and every field that is
added under a new key is found afterwards. -/
def TakenWhole (memory : List UInt8) : Prop :=
  ∀ (allocator : Allocator) (msg : OmnmPayloadImpl), allocator.Succeeds →
    Traced.Every (Access.IncomingBelow memory.length)
        (omnmmsgPayload_unSerialize allocator msg (some (.other memory)) memory.length) ∧
      ∀ next, (omnmmsgPayload_unSerialize allocator msg (some (.other memory))
          memory.length).result = some (.ok, next) →
        next.getHeaderSize ≤ next.mPayloadBufferTail ∧ next.AddsAreFound

/-- A buffer with a whole header and complete fields is taken in as it should be. -/
theorem takenWhole_of_complete {memory : List UInt8}
    (header : 3 + (memory.getD 2 0).toNat ≤ memory.length)
    (complete : CompleteFields (memory.drop (3 + (memory.getD 2 0).toNat))) : TakenWhole memory := by
  intro allocator msg succeeds
  refine ⟨every_incoming_unSerialize allocator msg (by omega), ?_⟩
  intro next accepted
  have readable : memory.length ≤ ((Incoming.other memory).bytes msg).length := Nat.le_refl _
  obtain ⟨-, -, version, -, slack, rfl⟩ := of_unSerialize_ok readable accepted
  obtain ⟨message, wire⟩ := Message.exists_of_complete header version complete
  have represents := Represents.of_taken msg (Nat.le_refl memory.length)
    (List.take_length.trans wire) slack
  exact ⟨header, represents.addsAreFound⟩

/-- Taking in a buffer reads inside it, finds the header inside, and leaves a payload
that finds every field that is added later, exactly when the buffer has three bytes
and either has a version that is refused or a whole header with complete fields. -/
theorem takenWhole_iff {memory : List UInt8} (nonempty : memory ≠ [])
    (object : memory.length < 2 ^ 63) :
    TakenWhole memory ↔ 3 ≤ memory.length ∧ (omnmProtocolVersion < memory.getD 1 0 ∨
      (3 + (memory.getD 2 0).toNat ≤ memory.length ∧
        CompleteFields (memory.drop (3 + (memory.getD 2 0).toNat)))) := by
  have some_bytes : memory.length ≠ 0 := fun none => nonempty (List.eq_nil_of_length_eq_zero none)
  constructor
  · intro whole
    obtain ⟨reads, later⟩ := whole .zeroing newPayload Allocator.zeroing_succeeds
    have header : 3 ≤ memory.length := by
      simp only [omnmmsgPayload_unSerialize, if_neg some_bytes, loadHeader, Traced.every_bind] at reads
      exact reads.1.1 _ (List.mem_singleton_self _)
    refine ⟨header, ?_⟩
    by_cases refused : omnmProtocolVersion < memory.getD 1 0
    · exact .inl refused
    · have readable : memory.length ≤ ((Incoming.other memory).bytes newPayload).length :=
        Nat.le_refl _
      obtain ⟨slack, accepted, size⟩ := unSerialize_of_version readable some_bytes header
        (UInt8.not_lt.mp refused) (allocateBufferMemory_of_succeeds Allocator.zeroing_succeeds _ _)
      obtain ⟨inside, adds⟩ := later _ accepted
      refine .inr ⟨inside, ?_⟩
      have addressable : (takenPayload newPayload (.other memory) memory.length
          slack).mPayloadBufferSize < 2 ^ 64 := by
        rw [size, length_allocateBufferMemory Allocator.zeroing_exact Allocator.zeroing_succeeds,
          List.length_replicate]
        have small : newPayload.mPayloadBufferSize = 200 := by decide +kernel
        omega
      have body := completeFields_of_addsAreFound adds (takenPayload_tail_le readable slack) inside
        object addressable
      rwa [serialized, takenPayload, Incoming.taken, List.take_length, List.take_left] at body
  · rintro ⟨header, refused | ⟨inside, complete⟩⟩
    · intro allocator msg succeeds
      refine ⟨every_incoming_unSerialize allocator msg header, ?_⟩
      intro next accepted
      obtain ⟨-, -, version, -⟩ := of_unSerialize_ok (Nat.le_refl _) accepted
      exact absurd refused (UInt8.not_lt.mpr version)
    · exact takenWhole_of_complete inside complete

end Added

section Example

attribute [local instance] mamaFieldTypes

/-- An opaque field with a name, and a byte without one. -/
def namedAndNameless : List FieldEntry :=
  [⟨mamaFieldTypeNumber .opaqueField, 3, .ofBytes [65], [1, 2]⟩,
    ⟨mamaFieldTypeNumber .i8, 4, CString.empty, [7]⟩]

/-- The fields behind a header with two additional bytes. -/
def extendedBuffer : List UInt8 := [79, 1, 2, 170, 187] ++ encodeAll namedAndNameless

theorem takenWhole_extendedBuffer :
    extendedBuffer = [79, 1, 2, 170, 187, 7, 3, 0, 65, 0, 2, 0, 0, 0, 1, 2, 11, 4, 0, 0, 7] ∧
      TakenWhole extendedBuffer := by
  have fits : AllFit namedAndNameless := by
    unfold AllFit
    decide
  exact ⟨by decide, (takenWhole_iff (by decide) (by decide)).mpr
    ⟨by decide, .inr ⟨by decide, namedAndNameless, fits, rfl⟩⟩⟩

/-- A buffer whose header promises five more bytes than there are is accepted, and a
field that is added then is not among the fields. -/
theorem incomplete_header_accepted :
    ∃ next after last, (omnmmsgPayload_unSerialize .zeroing newPayload
        (some (.other [79, 1, 5])) 3).result = some (.ok, next) ∧
      next.mPayloadBufferTail < next.getHeaderSize ∧
      (next.addField .zeroing 11 none 1 (some [7])).result = some (.ok, after) ∧
      (iterateFields after).result = some ([], last) ∧
      (after.getField none 1).result = some (.notFound, none) :=
  ⟨⟨[79, 1, 5] ++ List.replicate 197 0, 3, ⟨79, 1, 5⟩, []⟩,
    ⟨[79, 1, 5, 11, 1, 0, 0, 7] ++ List.replicate 192 0, 8, ⟨79, 1, 5⟩, []⟩,
    ⟨OmnmFieldImpl.zeroed, 8, 0⟩, by decide +kernel, by decide, by decide +kernel,
    by decide +kernel, by decide +kernel⟩

end Example

end Omnm
