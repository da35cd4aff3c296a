import Omnm.Payload.Allocations
import Omnm.Wire.Lookup
import Omnm.Wire.Mutations

/-!
# Allocation failures

A call one of whose allocations fails is to refuse, to write nothing behind the
old end of a buffer, and to leave the bytes up to the tail, the tail and the
header (`Atomic`). The mutators do not look at the result of an allocation: they
go on with the buffer they have. So a call whose allocation fails is atomic in
two cases only: a vector of messages that stops at a message that is too long
before it has filled the old scratch buffer, and `unSerialize`, which wipes the
buffer first, on a message of zero bytes (`allocation_failure_atomic_iff`).
-/

set_option autoImplicit false

namespace Omnm

open FieldTypeTags (tag)
open OmnmPayloadImpl

/-! ## Atomic calls -/

/-- The capacity of a buffer of the payload. -/
def OmnmPayloadImpl.capacity (msg : OmnmPayloadImpl) : Region → Nat
  | .message => msg.mPayloadBufferSize
  | .scratch => msg.mBuffer.length
  | .incoming => 0

/-- An access that writes nothing at or behind the capacity of its buffer. -/
def Access.WritesBelow (capacity : Region → Nat) : Access Region → Prop
  | .load .. => True
  | .store region offset length => length = 0 ∨ offset + length ≤ capacity region
  | .move region target _ length => length = 0 ∨ target + length ≤ capacity region

theorem Access.IsLoad.writesBelow {capacity : Region → Nat} {access : Access Region}
    (load : access.IsLoad) : access.WritesBelow capacity := by
  cases access with
  | load region offset length => trivial
  | store region offset length => exact load.elim
  | move region target source length => exact load.elim

/-- The call refuses, writes nothing behind the old end of a buffer, and leaves the message. -/
structure Atomic (msg : OmnmPayloadImpl) (call : Mutated) : Prop where
  refused : ∃ status next, call.result = some (status, next) ∧ status ≠ .ok ∧
    next.serialized = msg.serialized ∧ next.mPayloadBufferTail = msg.mPayloadBufferTail ∧
    next.mHeader = msg.mHeader
  writes : Traced.Every (Access.WritesBelow msg.capacity) call

/-- The messages of a request that builds a vector of them. -/
def FieldRequest.messages : FieldRequest → Option (List (List UInt8))
  | .addVectorMsg value | .updateVectorMsg value => value.map (List.map MamaMsg.byteBuffer)
  | .updateVectorMsgPayload value => value.map (List.map serialized)
  | _ => none

/-- A vector of messages that stops at a message that is too long, with those in front of it
inside the scratch buffer. -/
def StopsInside (mBuffer : List UInt8) (messages : List (List UInt8)) : Prop :=
  (∃ bytes ∈ messages, uint32Max < bytes.length) ∧
    (messageRecords (messages.takeWhile fun bytes => bytes.length ≤ uint32Max)).length ≤
      mBuffer.length

/-- The calls that a failing allocation leaves atomic. -/
def PayloadCall.StaysWhole (msg : OmnmPayloadImpl) : PayloadCall → Prop
  | .field _ _ _ request => ∃ messages, request.messages = some messages ∧
      StopsInside msg.mBuffer messages
  | .clear => True
  | .unSerialize .. => ∀ byte ∈ msg.serialized, byte = 0

/-- A call whose key, if it has one, is accepted. -/
def PayloadCall.KeyAccepted : PayloadCall → Prop
  | .field _ name fid _ => validateNameFid name fid = none
  | .clear => True
  | .unSerialize .. => True

section

/-! ## Taking in a buffer -/

variable {msg next : OmnmPayloadImpl} {allocator : Allocator} {buffer : Option Incoming}
  {length : Nat}

/-- A failing `unSerialize` has wiped the buffer. -/
theorem unSerialize_of_fails (fails : msg.TakeFails allocator buffer length) :
    (omnmmsgPayload_unSerialize allocator msg buffer length).result = some (.noMem, { msg with
      mPayloadBuffer := List.replicate msg.mPayloadBufferSize 0 }) ∧
    Traced.Every (Access.WritesBelow msg.capacity)
      (omnmmsgPayload_unSerialize allocator msg buffer length) := by
  obtain ⟨some_bytes, incoming, header, rfl, loaded, version, refused⟩ := fails
  rw [Allocator.Fails] at refused
  simp only [omnmmsgPayload_unSerialize, if_neg some_bytes]
  constructor
  · rw [Traced.result_bind, loaded, Option.bind_some, if_neg version, Traced.result_bind,
      result_store, Option.bind_some, wiped_eq, if_pos refused]
    rfl
  · rw [Traced.every_bind]
    constructor
    · exact (every_load_loadHeader msg incoming).mono fun access load => load.writesBelow
    · intro other same
      cases loaded.symm.trans same
      rw [if_neg version, Traced.every_bind, every_store]
      refine ⟨.inr ?_, ?_⟩
      · rw [List.length_replicate, Nat.zero_add]
        exact Nat.le_refl _
      · intro wiped stored
        cases stored
        rw [wiped_eq, if_pos refused]
        exact Traced.every_pure _

/-- A failing `unSerialize` leaves a message of zero bytes, and no other. -/
theorem unSerialize_atomic_iff (fails : msg.TakeFails allocator buffer length) :
    Atomic msg (omnmmsgPayload_unSerialize allocator msg buffer length) ↔
      ∀ byte ∈ msg.serialized, byte = 0 := by
  obtain ⟨result, writes⟩ := unSerialize_of_fails fails
  have wiped : (List.replicate msg.mPayloadBufferSize (0 : UInt8)).take msg.mPayloadBufferTail =
      List.replicate msg.serialized.length 0 := by
    rw [List.take_replicate, serialized, List.length_take, mPayloadBufferSize]
  rw [← List.eq_replicate_length]
  constructor
  · rintro ⟨⟨status, next, returned, -, same, -⟩, -⟩
    cases result.symm.trans returned
    exact same.symm.trans wiped
  · intro zeros
    exact ⟨⟨_, _, result, by simp, wiped.trans zeros.symm, rfl, rfl⟩, writes⟩

/-! ## Copies into a scratch buffer that did not grow -/

variable {capacity : Region → Nat} {mBuffer : List UInt8} {target : Nat}

/-- Copies of elements that stay inside have room for all of them. -/
theorem room_of_copyElements {elements : List (List UInt8)}
    (writes : Traced.Every (Access.WritesBelow capacity) (copyElements mBuffer target elements)) :
    elements.flatten = [] ∨ target + elements.flatten.length ≤ capacity .scratch := by
  induction elements generalizing mBuffer target with
  | nil => exact .inl rfl
  | cons element elements ih =>
      rw [copyElements, Traced.every_bind, every_store] at writes
      obtain ⟨first, later⟩ := writes
      rw [List.flatten_cons]
      rcases ih (later _ (result_store ..)) with none | room
      · rw [none, List.append_nil]
        rcases first with empty | inside
        · exact .inl (List.eq_nil_of_length_eq_zero empty)
        · exact .inr inside
      · rw [List.length_append, ← Nat.add_assoc]
        exact .inr room

/-- Copies of messages stay inside if those in front of the first one that is too long do. -/
theorem every_copyMessages_iff {messages : List (List UInt8)} :
    Traced.Every (Access.WritesBelow capacity) (copyMessages mBuffer target messages) ↔
      messageRecords (messages.takeWhile fun bytes => bytes.length ≤ uint32Max) = [] ∨
        target + (messageRecords (messages.takeWhile fun bytes =>
          bytes.length ≤ uint32Max)).length ≤ capacity .scratch := by
  induction messages generalizing mBuffer target with
  | nil => exact iff_of_true (Traced.every_pure _) (.inl rfl)
  | cons bytes messages ih =>
      rw [copyMessages]
      by_cases long : uint32Max < bytes.length
      · have stopped : (bytes :: messages).takeWhile (fun bytes => bytes.length ≤ uint32Max) = [] :=
          List.takeWhile_cons_of_neg (by simpa using long)
        rw [if_pos long, stopped]
        exact iff_of_true (Traced.every_pure _) (.inl rfl)
      · have goes : (bytes :: messages).takeWhile (fun bytes => bytes.length ≤ uint32Max) =
            bytes :: messages.takeWhile fun bytes => bytes.length ≤ uint32Max :=
          List.takeWhile_cons_of_pos (by simpa using Nat.not_lt.mp long)
        have records : messageRecords (bytes :: messages.takeWhile fun bytes =>
            bytes.length ≤ uint32Max) = littleEndian 4 bytes.length ++ bytes ++
              messageRecords (messages.takeWhile fun bytes => bytes.length ≤ uint32Max) :=
          List.flatMap_cons
        rw [if_neg long, goes, records]
        simp only [Traced.every_bind, every_store, result_store, Option.some.injEq, forall_eq',
          length_littleEndian, ih, Access.WritesBelow, List.length_append,
          ← List.length_eq_zero_iff]
        omega

/-! ## Vectors whose allocation fails -/

section

variable {memory : CallMemory} {name : Option CString} {fid : UInt16} {mutation : Mutation}
  {scratch : List UInt8}

/-- The copies of elements go behind the end of a scratch buffer that did not grow. -/
theorem not_every_buildElements {elements : List (List UInt8)}
    (fails : memory.scratch.Fails msg.mBuffer (elementsLength elements)) :
    ¬ Traced.Every (Access.WritesBelow msg.capacity)
      (buildElements memory msg.mBuffer elements) := by
  intro writes
  obtain ⟨small, -⟩ := fails.eq
  rw [length_flatten] at small
  rcases room_of_copyElements writes with none | room
  · rw [none] at small
    exact Nat.not_lt_zero _ small
  · rw [Nat.zero_add] at room
    exact absurd small (Nat.not_lt.mpr room)

theorem not_every_prepareElements {type : MamaFieldType} {elements : List (List UInt8)}
    (fails : memory.scratch.Fails msg.mBuffer (elementsLength elements)) :
    ¬ Traced.Every (Access.WritesBelow msg.capacity)
      (prepareElements memory msg.mBuffer type elements) := by
  intro writes
  rw [prepareElements, Traced.every_bind] at writes
  exact not_every_buildElements fails writes.1

theorem not_every_prepareWhole {elements : List (List UInt8)}
    (fails : memory.scratch.Fails msg.mBuffer (elementsLength elements)) :
    ¬ Traced.Every (Access.WritesBelow msg.capacity)
      (prepareWhole memory msg.mBuffer elements) := by
  intro writes
  rw [prepareWhole, Traced.every_bind] at writes
  exact not_every_buildElements fails writes.1

/-- The preparation of messages in a scratch buffer that did not grow stays inside exactly if it
stops in time, and then it refuses. -/
theorem every_prepareMessages_iff {messages : List (List UInt8)}
    (fails : memory.scratch.Fails msg.mBuffer (messagesLength messages)) :
    Traced.Every (Access.WritesBelow msg.capacity) (prepareMessages memory msg.mBuffer messages) ↔
      StopsInside msg.mBuffer messages := by
  obtain ⟨small, same⟩ := fails.eq
  rw [length_messageRecords] at small
  obtain ⟨scratch, copied, -⟩ := exists_copyMessages msg.mBuffer 0 messages
  have inside : Traced.Every (Access.WritesBelow msg.capacity)
      (copyMessages msg.mBuffer 0 messages) ↔ (messageRecords (messages.takeWhile fun bytes =>
        bytes.length ≤ uint32Max)).length ≤ msg.mBuffer.length := by
    rw [every_copyMessages_iff, Nat.zero_add, ← List.length_eq_zero_iff]
    show _ ∨ _ ≤ msg.mBuffer.length ↔ _
    omega
  rw [prepareMessages, same, Traced.every_bind, inside]
  by_cases long : ∃ bytes ∈ messages, uint32Max < bytes.length
  · rw [if_pos long] at copied
    constructor
    · exact fun writes => ⟨long, writes.1⟩
    · rintro ⟨-, room⟩
      refine ⟨room, ?_⟩
      intro stopped returned
      cases copied.symm.trans returned
      exact Traced.every_pure _
  · have whole : messages.takeWhile (fun bytes => bytes.length ≤ uint32Max) = messages := by
      rw [List.takeWhile_eq_self_iff]
      intro bytes member
      simpa using fun longer => long ⟨bytes, member, longer⟩
    rw [whole]
    constructor
    · rintro ⟨room, -⟩
      exact absurd small (Nat.not_lt.mpr room)
    · rintro ⟨stops, -⟩
      exact absurd stops long

/-- A vector of messages that stops is refused. -/
theorem refuses_of_long {mBuffer : List UInt8} {messages : List (List UInt8)}
    (long : ∃ bytes ∈ messages, uint32Max < bytes.length)
    (prepared : (prepareMessages memory mBuffer messages).result = some (mutation, scratch)) :
    mutation = .refuse .invalidArg := by
  obtain ⟨stopped, copied, -⟩ := exists_copyMessages
    (allocateBufferMemory memory.scratch mBuffer (messagesLength messages)).buffer 0 messages
  rw [if_pos long] at copied
  rw [prepareMessages, Traced.result_bind, copied] at prepared
  cases prepared
  rfl

end

/-! ## Mutations whose allocation fails -/

variable [FieldTypeTags] {memory : CallMemory} {name : Option CString} {fid : UInt16}
  {status : MamaStatus}

/-- Data that grows a field moves the tail. -/
theorem tail_ne_of_updateFails {field after : OmnmFieldImpl} {type : UInt8} {bytes : List UInt8}
    (fails : msg.UpdateFails allocator type field bytes) (small : msg.mPayloadBufferTail < 2 ^ 31)
    (updated : ResultsOk allocator msg type field bytes next after) :
    next.mPayloadBufferTail ≠ msg.mPayloadBufferTail := by
  obtain ⟨-, -, grows, -⟩ := fails
  have differs : bytes.length ≠ field.mSize := by
    intro same
    rw [same, sub_self] at grows
    exact absurd grows (by decide)
  rw [(updated.lengths_differ differs rfl).2.2.1, asInt32_of_lt small]
  have upper := asInt64_lt bytes.length
  have lower := le_asInt64 field.mSize
  unfold asSize
  omega

/-- A lookup under an accepted key says OK if it finds the field. -/
theorem status_of_getField {found : Option OmnmFieldImpl} (key : validateNameFid name fid = none)
    (lookup : (msg.getField name fid).result = some (status, found))
    (present : status ≠ .notFound) : status = .ok := by
  rw [OmnmPayloadImpl.getField, key] at lookup
  obtain ⟨field, -, returned⟩ := Traced.result_bind_eq_some.mp lookup
  cases field with
  | none =>
      cases returned
      exact absurd rfl present
  | some field =>
      cases returned
      rfl

/-- A mutation whose allocation fails returns OK or moves the tail, if it returns. -/
theorem Mutation.changes_of_fails {mutation : Mutation} (fails : mutation.Fails memory msg name fid)
    (small : validateNameFid name fid = none ∨ msg.mPayloadBufferTail < 2 ^ 31)
    (performed : (mutation.perform memory msg name fid).result = some (status, next)) :
    status = .ok ∨ next.mPayloadBufferTail ≠ msg.mPayloadBufferTail := by
  cases mutation with
  | refuse status => exact fails.elim
  | add type data =>
      obtain ⟨bytes, rfl, accepted, -⟩ := fails
      exact .inl ((appended_of_addField accepted performed).1)
  | update type data =>
      obtain ⟨bytes, rfl, key, fails⟩ := fails
      rcases fails with ⟨search, accepted, -⟩ | ⟨field, search, castable, -⟩
      · rw [perform, updateField_of_search key search] at performed
        exact .inl ((appended_of_addField accepted performed).1)
      · rw [perform, updateField_of_search key search, updateFound_castable castable] at performed
        obtain ⟨outcome, updated, same⟩ := Traced.result_bind_eq_some.mp performed
        cases same
        exact .inl (status_of_updateFieldHandle castable updated)
  | updateVector type bytes =>
      obtain ⟨answer, found, lookup, fails⟩ := fails
      rw [perform, Traced.result_bind, lookup, Option.bind_some] at performed
      dsimp only at performed
      split at performed
      · rename_i absent
        rw [if_pos absent] at fails
        exact .inl ((appended_of_addField fails.1 performed).1)
      · rename_i present
        rw [if_neg present] at fails
        obtain ⟨⟨report, changed, after⟩, updated, same⟩ := Traced.result_bind_eq_some.mp performed
        cases same
        have ok := status_of_updateFieldHandle fails.1 updated
        subst ok
        rcases small with key | below
        · exact .inl (status_of_getField key lookup present)
        · exact .inr (tail_ne_of_updateFails fails below updated)

/-! ## Requests whose allocation fails -/

omit [FieldTypeTags] in
/-- A request whose allocation in the scratch buffer fails builds messages, or elements. -/
theorem FieldRequest.build_cases {request : FieldRequest} {mBuffer : List UInt8}
    (fails : request.BuildFails memory mBuffer name fid) :
    (∃ messages, request.messages = some messages ∧
        request.prepare memory mBuffer name fid = prepareMessages memory mBuffer messages ∧
        memory.scratch.Fails mBuffer (messagesLength messages)) ∨
      request.messages = none ∧ ∃ elements,
        memory.scratch.Fails mBuffer (elementsLength elements) ∧
        ((∃ type, request.prepare memory mBuffer name fid =
            prepareElements memory mBuffer type elements) ∨
          request.prepare memory mBuffer name fid = prepareWhole memory mBuffer elements) := by
  obtain ⟨key, bytesRequired, asked, fails⟩ := fails
  cases request with
  | addVectorString value =>
      obtain ⟨strings, rfl, rfl⟩ := Option.map_eq_some_iff.mp asked
      exact .inr ⟨rfl, _, fails, .inr (by rw [prepare, checked, key])⟩
  | updateVectorString value =>
      obtain ⟨strings, rfl, rfl⟩ := Option.map_eq_some_iff.mp asked
      exact .inr ⟨rfl, _, fails, .inl ⟨_, by rw [prepare, checked, key]⟩⟩
  | addVectorMsg value | updateVectorMsg value | updateVectorMsgPayload value =>
      obtain ⟨messages, rfl, rfl⟩ := Option.map_eq_some_iff.mp asked
      exact .inl ⟨_, rfl, by rw [prepare, checked, key], fails⟩
  | addVectorDateTime value | updateVectorTime value | addVectorPrice value
  | updateVectorPrice value =>
      obtain ⟨values, rfl, rfl⟩ := Option.map_eq_some_iff.mp asked
      exact .inr ⟨rfl, _, fails, .inl ⟨_, by rw [prepare, checked, key]⟩⟩
  | _ => cases asked

omit [FieldTypeTags] in
/-- A request for messages of which one is too long is refused. -/
theorem FieldRequest.refuses_of_long {request : FieldRequest} {messages : List (List UInt8)}
    {mBuffer scratch : List UInt8} {mutation : Mutation}
    (given : request.messages = some messages)
    (long : ∃ bytes ∈ messages, uint32Max < bytes.length)
    (prepared : (request.prepare memory mBuffer name fid).result = some (mutation, scratch)) :
    ∃ status, mutation = .refuse status := by
  have build : ∀ value : Option (List (List UInt8)), value = some messages →
      (checked mBuffer name fid value (prepareMessages memory mBuffer)).result =
        some (mutation, scratch) → ∃ status, mutation = .refuse status := by
    rintro _ rfl built
    rcases checked_cases mBuffer name fid (some messages) (prepareMessages memory mBuffer) with
      ⟨status, refused⟩ | ⟨_, same, behind⟩
    · rw [refused] at built
      cases built
      exact ⟨status, rfl⟩
    · cases same
      rw [behind] at built
      exact ⟨_, Omnm.refuses_of_long long built⟩
  cases request with
  | addVectorMsg value | updateVectorMsg value | updateVectorMsgPayload value =>
      exact build _ given ((congrArg Traced.result (checked_map ..)).trans prepared)
  | _ => cases given

/-- A request that stops in time is atomic. -/
theorem atomic_of_stopsInside {request : FieldRequest} {messages : List (List UInt8)}
    (fails : request.Fails memory msg name fid) (given : request.messages = some messages)
    (stops : StopsInside msg.mBuffer messages) :
    Atomic msg (request.perform memory msg name fid) := by
  rcases fails with build | ⟨mutation, scratch, prepared, fails⟩
  · rcases FieldRequest.build_cases build with ⟨others, same, prepares, refused⟩ | ⟨none, -⟩
    · cases given.symm.trans same
      obtain ⟨scratch, copied, -⟩ := exists_copyMessages (allocateBufferMemory memory.scratch
        msg.mBuffer (messagesLength messages)).buffer 0 messages
      rw [if_pos stops.1] at copied
      have prepared : (prepareMessages memory msg.mBuffer messages).result =
          some (.refuse .invalidArg, scratch) := by
        rw [prepareMessages, Traced.result_bind, copied]
        rfl
      rw [request.perform_eq, prepares]
      refine ⟨⟨.invalidArg, withScratch scratch msg, ?_, by simp, rfl, rfl, rfl⟩, ?_⟩
      · rw [afterPreparing, Traced.result_bind, prepared]
        rfl
      · rw [afterPreparing, Traced.every_bind]
        refine ⟨(every_prepareMessages_iff refused).mpr stops, ?_⟩
        intro value returned
        cases prepared.symm.trans returned
        exact Traced.every_pure _
    · cases given.symm.trans none
  · obtain ⟨status, rfl⟩ := FieldRequest.refuses_of_long given stops.1 prepared
    exact fails.elim

/-- A request that is atomic stops in time. -/
theorem stopsInside_of_atomic {request : FieldRequest}
    (fails : request.Fails memory msg name fid)
    (small : validateNameFid name fid = none ∨ msg.mPayloadBufferTail < 2 ^ 31)
    (atomic : Atomic msg (request.perform memory msg name fid)) :
    ∃ messages, request.messages = some messages ∧ StopsInside msg.mBuffer messages := by
  obtain ⟨⟨status, next, returned, refused, -, tail, -⟩, writes⟩ := atomic
  rw [request.perform_eq, afterPreparing] at returned writes
  rw [Traced.every_bind] at writes
  rcases fails with build | ⟨mutation, scratch, prepared, fails⟩
  · rcases FieldRequest.build_cases build with ⟨messages, given, prepares, failed⟩ |
      ⟨-, elements, failed, ⟨type, prepares⟩ | prepares⟩
    · rw [prepares] at writes
      exact ⟨messages, given, (every_prepareMessages_iff failed).mp writes.1⟩
    · rw [prepares] at writes
      exact absurd writes.1 (not_every_prepareElements failed)
    · rw [prepares] at writes
      exact absurd writes.1 (not_every_prepareWhole failed)
  · rw [Traced.result_bind, prepared, Option.bind_some] at returned
    rcases Mutation.changes_of_fails fails small returned with ok | moved
    · exact absurd ok refused
    · exact absurd tail moved

end

/-- A call one of whose allocations fails is atomic if it is an `unSerialize` on a message of zero
bytes, or builds a vector of messages that stops, at one that is too long, inside the scratch
buffer. It is so only then, if the key is accepted or the message is below 2 GiB. -/
theorem allocation_failure_atomic_iff [FieldTypeTags] {msg : OmnmPayloadImpl} {call : PayloadCall}
    (fails : call.Fails msg) :
    (call.StaysWhole msg → Atomic msg (call.perform msg)) ∧
      (call.KeyAccepted ∨ msg.mPayloadBufferTail < 2 ^ 31 → Atomic msg (call.perform msg) →
        call.StaysWhole msg) := by
  cases call with
  | field memory name fid request =>
      constructor
      · rintro ⟨messages, given, stops⟩
        exact atomic_of_stopsInside fails given stops
      · intro small atomic
        exact stopsInside_of_atomic fails small atomic
  | clear => exact fails.elim
  | unSerialize memory buffer length =>
      have same := unSerialize_atomic_iff fails
      exact ⟨same.mpr, fun _ => same.mp⟩

section Example

attribute [local instance] mamaFieldTypes

/-- Memory that never grows. -/
def refusingMemory : CallMemory :=
  ⟨⟨fun _ _ => none, nofun⟩, ⟨fun _ _ => none, nofun⟩, OmnmFieldImpl.zeroed⟩

/-- A new payload that took in three zero bytes. -/
def threeZeros : OmnmPayloadImpl := ⟨List.replicate 200 0, 3, ⟨mamaPayloadIdOmnm, 0, 0⟩, []⟩

/-- More than its buffer holds. -/
def longBuffer : List UInt8 := [79, 1, 0] ++ List.replicate 250 1

theorem allocation_failure_atomic_zeros :
    (omnmmsgPayload_unSerialize .zeroing newPayload (some (.other [0, 0, 0])) 3).result =
        some (.ok, threeZeros) ∧
      (PayloadCall.unSerialize refusingMemory (some (.other longBuffer)) 253).Fails threeZeros ∧
      Atomic threeZeros ((PayloadCall.unSerialize refusingMemory (some (.other longBuffer))
        253).perform threeZeros) := by
  have fails : (PayloadCall.unSerialize refusingMemory (some (.other longBuffer)) 253).Fails
      threeZeros :=
    ⟨by decide, .other longBuffer, ⟨79, 1, 0⟩, rfl, by decide +kernel, by decide, by decide +kernel⟩
  refine ⟨by decide +kernel, fails, (allocation_failure_atomic_iff fails).1 ?_⟩
  intro byte member
  exact List.eq_of_mem_replicate (List.mem_of_mem_take member)

/-- An addition whose allocation fails returns OK with a tail behind the end of the buffer. -/
theorem addOpaque_ignores_failure :
    (PayloadCall.field refusingMemory none 1
        (.addOpaque (some (List.replicate 200 7)))).Fails newPayload ∧
      ((PayloadCall.field refusingMemory none 1
          (.addOpaque (some (List.replicate 200 7)))).perform newPayload).result.map
        (fun outcome => (outcome.1, outcome.2.mPayloadBufferTail, outcome.2.mPayloadBufferSize)) =
          some (.ok, 211, 200) ∧
      ¬ Atomic newPayload ((PayloadCall.field refusingMemory none 1
        (.addOpaque (some (List.replicate 200 7)))).perform newPayload) := by
  have outcome : ((PayloadCall.field refusingMemory none 1
      (.addOpaque (some (List.replicate 200 7)))).perform newPayload).result.map
        (fun outcome => (outcome.1, outcome.2.mPayloadBufferTail, outcome.2.mPayloadBufferSize)) =
          some (.ok, 211, 200) := by
    decide +kernel
  refine ⟨.inr ⟨.add .opaqueField (some (List.replicate 200 7)), [], rfl, _, rfl,
    by decide +kernel, by decide +kernel⟩, outcome, ?_⟩
  rintro ⟨⟨status, next, returned, refused, -⟩, -⟩
  rw [returned] at outcome
  exact refused (congrArg Prod.fst (Option.some.inj outcome))

end Example

end Omnm
