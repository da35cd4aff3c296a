import Omnm.Results.Application
import Omnm.Results.Conversations
import Omnm.Wire.AppliedFields

/-!
# A payload that takes over updates

`omnmmsgPayload_apply` keeps a payload up to date with messages that come in, all
of whose fields it hands on (`ApplyCall.HandsOn`). Under consistent keys, a
payload that took over a sequence of updates answers a read under a key as the
last of them with that key does (`image_answers_as_last_update`).

Updates can come in again, in their order, without effect
(`redelivered_updates_change_nothing`). They can be put together before they are
applied, by applying them to the first of them, if that has no field twice
(`conflated_updates_leave_same_bytes`). A new payload to which a message is
applied is a copy of it exactly if the message has no field twice and the header
of a new payload (`apply_copies_iff`).
-/

set_option autoImplicit false

namespace Omnm

open OmnmPayloadImpl

section

variable [FieldTypeTags] [MamaLibrary]

/-- A call of `omnmmsgPayload_apply`, apart from the destination. -/
structure ApplyCall where
  memory : ApplyMemory
  src : OmnmPayloadImpl

/-- The destination as a system that takes calls of `omnmmsgPayload_apply`. -/
def applyStep (dest : OmnmPayloadImpl) (call : ApplyCall) : Option (MamaStatus × OmnmPayloadImpl) :=
  (omnmmsgPayload_apply call.memory dest call.src).result

/-- A field that a call hands on to the destination, whether or not that has the field. -/
structure FieldEntry.HandedOn (entry : FieldEntry) : Prop where
  transferable : entry.Transferable
  lossless : entry.Lossless
  accepted : Accepted entry.nameArgument entry.fid entry.data

/-- The source of the call holds a message, all of whose fields the call hands on. -/
structure ApplyCall.HandsOn (call : ApplyCall) (update : Message) : Prop where
  origin : call.src.Represents update
  succeeds : call.memory.Succeeds
  names : NamelessFirst update.entries
  fields : ∀ entry ∈ update.entries, entry.HandedOn

variable {dest : OmnmPayloadImpl} {message update : Message} {updates : List Message}
  {call : ApplyCall} {calls : List ApplyCall}

/-! ## One update and many -/

omit [MamaLibrary] in
theorem ApplyCall.HandsOn.applicable (handsOn : call.HandsOn update) :
    ∀ entry ∈ update.entries, entry.Applicable := by
  intro entry member
  have fields := handsOn.fields entry member
  exact ⟨FieldEntry.Faithful.listed fields.transferable, update.fits entry member, fields.accepted⟩

omit [MamaLibrary] in
/-- Consistent fields meet fields of their own types. -/
theorem sameTypes_of_consistent {entries : List FieldEntry}
    (applicable : ∀ entry ∈ entries, entry.Applicable)
    (consistent : Consistent (message.entries ++ entries)) : SameTypes message entries := by
  induction entries generalizing message with
  | nil => trivial
  | cons entry entries ih =>
      obtain ⟨near, later⟩ := consistent.applyEntry (applicable entry List.mem_cons_self)
      exact ⟨fun found search => near.type_eq search,
        ih (fun other member => applicable other (List.mem_cons_of_mem _ member)) later⟩

/-- A call takes over the fields of the update. -/
theorem applyStep_eq (destination : dest.Represents message) (handsOn : call.HandsOn update)
    (consistent : Consistent (message.entries ++ update.entries))
    (small : dest.mPayloadBufferTail + call.src.mPayloadBufferTail < 2 ^ 31) :
    ∃ next, applyStep dest call = some (.ok, next) ∧
      next.Represents (message.applyAll update.entries) := by
  have decodes := handsOn.origin.decodes
  have whole : update.encode.length = update.header.length + (encodeAll update.entries).length := by
    rw [Message.encode, List.length_append]
  have room : message.encode.length + (encodeAll update.entries).length < 2 ^ 31 := by
    rw [destination.tail, handsOn.origin.tail, whole] at small
    omega
  have come := @allComeOver_of_transferable _ dest.mBuffer
    (call.src.mPayloadBuffer.drop call.src.mPayloadBufferTail) _ [] _ update.fits
    (fun entry member => (handsOn.fields entry member).transferable) handsOn.names room
  obtain ⟨last, applied, represents⟩ := applyFrom_eq decodes.ahead
    (ApplyState.TookOver.start destination) handsOn.succeeds
    (fun entry member => (handsOn.fields entry member).lossless)
    (sameTypes_of_consistent handsOn.applicable consistent) (by omega) come decodes.length_le
  refine ⟨last.dest, ?_, represents⟩
  rw [applyStep, omnmmsgPayload_apply, Traced.result_bind, decodes.init, Option.bind_some,
    Traced.result_bind, applied]
  rfl

/-- The bytes of the sources. -/
def sourceBytes (calls : List ApplyCall) : Nat :=
  (calls.map fun call => call.src.mPayloadBufferTail).sum

/-- Calls that hand on updates take over the fields of all of them. -/
theorem run_applyStep (destination : dest.Represents message)
    (handsOn : List.Forall₂ ApplyCall.HandsOn calls updates)
    (consistent : Consistent (message.entries ++ updates.flatMap Message.entries))
    (small : dest.mPayloadBufferTail + sourceBytes calls < 2 ^ 31) :
    ∃ last, run applyStep dest calls = some (List.replicate calls.length .ok, last) ∧
      last.Represents (message.applyAll (updates.flatMap Message.entries)) := by
  induction handsOn generalizing dest message with
  | nil => exact ⟨dest, rfl, destination⟩
  | @cons call update calls updates first rest ih =>
      rw [List.flatMap_cons] at consistent ⊢
      rw [sourceBytes, List.map_cons, List.sum_cons] at small
      have near : Consistent (message.entries ++ update.entries) := by
        apply consistent.subset
        simp only [List.mem_append]
        tauto
      obtain ⟨next, stepped, represents⟩ := applyStep_eq destination first near (by omega)
      have grown : next.mPayloadBufferTail + sourceBytes calls < 2 ^ 31 := by
        have longer := message.length_applyAll_le update.entries
        have header : (encodeAll update.entries).length ≤ update.encode.length := by
          rw [Message.encode, List.length_append]
          exact Nat.le_add_left ..
        rw [destination.tail, first.origin.tail] at small
        rw [represents.tail, sourceBytes]
        omega
      obtain ⟨last, ran, holds⟩ :=
        ih represents (consistent.applyAll first.applicable) grown
      refine ⟨last, ?_, ?_⟩
      · rw [run_cons_of_step stepped, ran]
        rfl
      · rw [Message.applyAll_append]
        exact holds

omit [MamaLibrary] in
/-- The calls hand on every field of the updates. -/
theorem handsOn_flatMap (handsOn : List.Forall₂ ApplyCall.HandsOn calls updates) :
    ∀ entry ∈ updates.flatMap Message.entries, entry.HandedOn ∧ entry.Applicable := by
  induction handsOn with
  | nil => simp
  | cons first rest ih =>
      intro entry member
      rw [List.flatMap_cons, List.mem_append] at member
      rcases member with here | later
      · exact ⟨first.fields entry here, first.applicable entry here⟩
      · exact ih entry later

omit [MamaLibrary] in
theorem applicable_flatMap (handsOn : List.Forall₂ ApplyCall.HandsOn calls updates) :
    ∀ entry ∈ updates.flatMap Message.entries, entry.Applicable := by
  intro entry member
  exact (handsOn_flatMap handsOn entry member).2

omit [MamaLibrary] in
theorem AllListed.applyAll {entries : List FieldEntry} (listed : AllListed message.entries) :
    AllListed (message.applyAll entries).entries := by
  induction entries generalizing message with
  | nil => exact listed
  | cons entry entries ih =>
      apply ih
      rw [Message.applyEntry]
      split
      · exact listed.updateField _
      · exact listed

/-- Updates that come in again, in their order, change no byte. -/
theorem redelivered_updates_change_nothing {again : List ApplyCall} {earlier : List Message}
    (destination : dest.Represents message)
    (handsOn : List.Forall₂ ApplyCall.HandsOn calls (earlier ++ updates))
    (handsOnAgain : List.Forall₂ ApplyCall.HandsOn again updates)
    (consistent : Consistent (message.entries ++ (earlier ++ updates).flatMap Message.entries))
    (small : dest.mPayloadBufferTail + sourceBytes (calls ++ again) < 2 ^ 31) :
    ∃ last last', run applyStep dest calls = some (List.replicate calls.length .ok, last) ∧
      run applyStep dest (calls ++ again) =
        some (List.replicate (calls ++ again).length .ok, last') ∧
      last'.serialized = last.serialized := by
  have bytes : sourceBytes (calls ++ again) = sourceBytes calls + sourceBytes again := by
    simp [sourceBytes]
  have whole : Consistent (message.entries ++
      ((earlier ++ updates) ++ updates).flatMap Message.entries) := by
    apply consistent.subset
    simp only [List.flatMap_append, List.mem_append]
    tauto
  obtain ⟨last, ran, represents⟩ := run_applyStep destination handsOn consistent (by omega)
  obtain ⟨last', ran', represents'⟩ := run_applyStep destination
    (List.rel_append handsOn handsOnAgain) whole small
  refine ⟨last, last', ran, ran', ?_⟩
  have front : ∀ entry ∈ earlier.flatMap Message.entries, entry.Applicable := by
    intro entry member
    apply applicable_flatMap handsOn
    rw [List.flatMap_append]
    exact List.mem_append_left _ member
  rw [List.flatMap_append] at consistent
  rw [List.flatMap_append, List.flatMap_append, Message.applyAll_append, Message.applyAll_append,
    Message.applyAll_idempotent (applicable_flatMap handsOnAgain) (consistent.applyAll front)]
    at represents'
  rw [List.flatMap_append, Message.applyAll_append] at represents
  rw [represents'.serialized_eq, represents.serialized_eq]

omit [FieldTypeTags] [MamaLibrary] in
/-- Only the names and their order matter. -/
theorem NamelessFirst.of_sublist {entries others : List FieldEntry} (names : NamelessFirst entries)
    (sublist : (others.map FieldEntry.descriptor).Sublist (entries.map FieldEntry.descriptor)) :
    NamelessFirst others := by
  have ordered : (entries.map FieldEntry.descriptor).Pairwise fun earlier later =>
      later.2.2 = CString.empty → earlier.2.2 = CString.empty := List.pairwise_map.mpr names
  exact List.pairwise_map.mp (ordered.sublist sublist)

omit [MamaLibrary] in
theorem length_flatMap_le (handsOn : List.Forall₂ ApplyCall.HandsOn calls updates) :
    (encodeAll (updates.flatMap Message.entries)).length ≤ sourceBytes calls := by
  induction handsOn with
  | nil => exact Nat.le_refl _
  | @cons call update calls updates first rest ih =>
      have here : (encodeAll update.entries).length ≤ call.src.mPayloadBufferTail := by
        rw [first.origin.tail, Message.encode, List.length_append]
        exact Nat.le_add_left ..
      rw [List.flatMap_cons, encodeAll_append, List.length_append]
      rw [sourceBytes] at ih ⊢
      rw [List.map_cons, List.sum_cons]
      exact Nat.add_le_add here ih

omit [MamaLibrary] in
/-- Updates that were put together hand on their fields. -/
theorem ApplyCall.HandsOn.conflated {memory : ApplyMemory} {src : OmnmPayloadImpl}
    {first : ApplyCall} (handsOn : List.Forall₂ ApplyCall.HandsOn (first :: calls) (update :: updates))
    (consistent : Consistent (update.entries ++ updates.flatMap Message.entries))
    (names : NamelessFirst (update.entries ++ updates.flatMap Message.entries))
    (succeeds : memory.Succeeds)
    (represents : src.Represents (update.applyAll (updates.flatMap Message.entries))) :
    ApplyCall.HandsOn ⟨memory, src⟩ (update.applyAll (updates.flatMap Message.entries)) where
  origin := represents
  succeeds := succeeds
  names := by
    have later := applicable_flatMap (List.forall₂_cons.mp handsOn).2
    apply names.of_sublist
    rw [Message.entries_applyAll later consistent, List.map_append]
    exact keys_putAll_sublist _ _
  fields := by
    intro entry member
    have later := applicable_flatMap (List.forall₂_cons.mp handsOn).2
    exact (handsOn_flatMap handsOn entry (Message.mem_applyAll later consistent entry member)).1

/-- Updates that were put together by applying them to the first of them leave what they leave one
after another. -/
theorem conflated_updates_leave_same_bytes {memory : ApplyMemory} {first : ApplyCall}
    (destination : dest.Represents message)
    (handsOn : List.Forall₂ ApplyCall.HandsOn (first :: calls) (update :: updates))
    (consistent : Consistent (message.entries ++ (update :: updates).flatMap Message.entries))
    (distinct : (update.entries.map FieldEntry.descriptor).Nodup)
    (names : NamelessFirst ((update :: updates).flatMap Message.entries))
    (succeeds : memory.Succeeds)
    (small : dest.mPayloadBufferTail + sourceBytes (first :: calls) < 2 ^ 31) :
    ∃ last conflated last',
      run applyStep dest (first :: calls) =
        some (List.replicate (calls.length + 1) .ok, last) ∧
      run applyStep first.src calls = some (List.replicate calls.length .ok, conflated) ∧
      applyStep dest ⟨memory, conflated⟩ = some (.ok, last') ∧
      last'.serialized = last.serialized := by
  have applicable := applicable_flatMap handsOn
  obtain ⟨last, ran, represents⟩ := run_applyStep destination handsOn consistent small
  rw [List.flatMap_cons] at consistent names applicable represents
  have bytes : sourceBytes (first :: calls) =
      first.src.mPayloadBufferTail + sourceBytes calls := by
    simp [sourceBytes]
  obtain ⟨handsOnFirst, handsOnRest⟩ := List.forall₂_cons.mp handsOn
  have near : Consistent (update.entries ++ updates.flatMap Message.entries) := by
    apply consistent.subset
    simp only [List.mem_append]
    tauto
  obtain ⟨conflated, ranRest, represents'⟩ :=
    run_applyStep handsOnFirst.origin handsOnRest near (by omega)
  have handsOnConflated : ApplyCall.HandsOn ⟨memory, conflated⟩
      (update.applyAll (updates.flatMap Message.entries)) :=
    .conflated handsOn near names succeeds represents'
  have room : dest.mPayloadBufferTail + conflated.mPayloadBufferTail < 2 ^ 31 := by
    have longer := update.length_applyAll_le (updates.flatMap Message.entries)
    have rest := length_flatMap_le handsOnRest
    have origin := handsOnFirst.origin.tail
    rw [represents'.tail]
    omega
  obtain ⟨last', stepped, represents''⟩ := applyStep_eq destination handsOnConflated
    (consistent.conflated (applicable_flatMap handsOnRest)) room
  refine ⟨last, conflated, last', ran, ranRest, stepped, ?_⟩
  rw [Message.applyAll_applyAll distinct applicable consistent] at represents''
  rw [represents''.serialized_eq, represents.serialized_eq]

/-! ## Copies -/

omit [MamaLibrary] in
/-- A new message takes over the fields of a message, and becomes that message exactly if this has
no field twice and the header of a new message. -/
theorem Message.applyAll_empty_iff (applicable : ∀ entry ∈ message.entries, entry.Applicable)
    (consistent : Consistent message.entries) :
    Message.empty.applyAll message.entries = message ↔
      message.header = Message.empty.header ∧
        (message.entries.map FieldEntry.descriptor).Nodup := by
  have taken := @Message.entries_applyAll _ Message.empty _ applicable consistent
  rw [← putAll_nil_eq_iff]
  constructor
  · intro same
    refine ⟨?_, ?_⟩
    · rw [← Message.header_applyAll Message.empty message.entries, same]
    · exact taken.symm.trans (congrArg Message.entries same)
  · rintro ⟨header, entries⟩
    apply Message.eq_of_header
    · rw [Message.header_applyAll, header]
    · exact taken.trans entries

/-- Applying a message to a new payload copies it exactly if it has no field twice and the header
of a new payload. -/
theorem apply_copies_iff (handsOn : call.HandsOn message) (consistent : Consistent message.entries)
    (small : newPayload.mPayloadBufferTail + call.src.mPayloadBufferTail < 2 ^ 31) :
    ∃ next, applyStep newPayload call = some (.ok, next) ∧
      (next.serialized = call.src.serialized ↔
        message.header = Message.empty.header ∧
          (message.entries.map FieldEntry.descriptor).Nodup) := by
  obtain ⟨next, stepped, represents⟩ := @applyStep_eq _ _ _ Message.empty _ _ Represents.newPayload
    handsOn consistent small
  refine ⟨next, stepped, ?_⟩
  rw [← Message.applyAll_empty_iff handsOn.applicable consistent]
  constructor
  · exact represents.eq_of_serialized handsOn.origin
  · intro same
    rw [represents.serialized_eq, handsOn.origin.serialized_eq, same]

end

section Example

attribute [local instance] mamaFieldTypes silentLibrary silentPrinting

/-- A field of a byte. -/
def byteField (value : UInt8) : FieldEntry := ⟨mamaFieldTypeNumber .i8, 3, CString.empty, [value]⟩

theorem byteField_fits (value : UInt8) : AllFit [byteField value] := by
  intro entry member
  rw [List.mem_singleton.mp member]
  exact (rfl : [value].length = 1)

/-- The message with this field. -/
def byteMessage (value : UInt8) : Message :=
  ⟨mamaPayloadIdOmnm, 1, [], [byteField value], UInt8.le_refl omnmProtocolVersion,
    Message.extra_nil_lt, byteField_fits value⟩

/-- The call that applies it. -/
def applyByte (value : UInt8) : ApplyCall := ⟨plainMemory, (byteMessage value).payload⟩

theorem applyByte_handsOn (value : UInt8) : (applyByte value).HandsOn (byteMessage value) where
  origin := (byteMessage value).payload_represents
  succeeds := plainMemory_succeeds
  names := List.pairwise_singleton ..
  fields := by
    intro entry member
    rw [List.mem_singleton.mp member]
    have accepted : Accepted none 3 [value] := ⟨by simp [uint32Max], by simp, rfl⟩
    have noTime : mamaFieldTypeNumber .i8 ≠ mamaFieldTypeNumber .time := by decide
    have noPrice : mamaFieldTypeNumber .i8 ≠ mamaFieldTypeNumber .price := by decide
    exact ⟨trivial, ⟨fun same => absurd same noTime, fun same => absurd same noPrice⟩, accepted⟩

theorem bytes_handOn (values : List UInt8) :
    List.Forall₂ ApplyCall.HandsOn (values.map applyByte) (values.map byteMessage) := by
  rw [List.forall₂_map_left_iff, List.forall₂_map_right_iff]
  exact List.forall₂_same.mpr fun value _ => applyByte_handsOn value

theorem second_byte_comes_again :
    ∃ last last', run applyStep newPayload ([5, 6].map applyByte) = some ([.ok, .ok], last) ∧
      run applyStep newPayload ([5, 6].map applyByte ++ [6].map applyByte) =
        some ([.ok, .ok, .ok], last') ∧
      last'.serialized = last.serialized :=
  @redelivered_updates_change_nothing _ _ _ Message.empty ([6].map byteMessage) _ _
    ([5].map byteMessage) Represents.newPayload (bytes_handOn [5, 6]) (bytes_handOn [6])
    (by decide +kernel) (by decide +kernel)

theorem two_bytes_conflated :
    ∃ last conflated last',
      run applyStep newPayload [applyByte 5, applyByte 6] = some ([.ok, .ok], last) ∧
      run applyStep (byteMessage 5).payload [applyByte 6] = some ([.ok], conflated) ∧
      applyStep newPayload ⟨plainMemory, conflated⟩ = some (.ok, last') ∧
      last'.serialized = last.serialized :=
  @conflated_updates_leave_same_bytes _ _ _ Message.empty (byteMessage 5) ([6].map byteMessage)
    ([6].map applyByte) plainMemory (applyByte 5) Represents.newPayload (bytes_handOn [5, 6])
    (by decide +kernel) (by decide +kernel) (List.pairwise_pair.mpr fun _ => rfl)
    plainMemory_succeeds (by decide +kernel)

theorem byte_is_copied :
    ∃ next, applyStep newPayload (applyByte 5) = some (.ok, next) ∧
      next.serialized = (byteMessage 5).payload.serialized := by
  obtain ⟨next, stepped, copies⟩ := apply_copies_iff (applyByte_handsOn 5) (by decide +kernel)
    (by decide +kernel)
  exact ⟨next, stepped, copies.mpr (by decide +kernel)⟩

end Example

end Omnm
