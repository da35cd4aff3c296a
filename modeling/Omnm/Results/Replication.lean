import Omnm.Wire.FieldCalls

/-!
# The payload is an ordered list of fields

Two consequences of running payloads and messages in step. A new payload behaves
as the empty list of fields under every run of field calls, and what the buffer
decodes to, what a lookup finds and the counts are those of the list
(`fieldCalls_refine_message`). Since only the message matters, a payload that
takes in another's bytes behaves as that one from then on, whatever it held
before, and a cleared payload behaves as a new one (`unSerialize_replicates`).
-/

set_option autoImplicit false

namespace Omnm

open OmnmPayloadImpl

/-- Every run of field calls from a new payload answers as the list of fields does
and leaves a buffer that decodes to that list. -/
theorem fieldCalls_refine_message [FieldTypeTags] (calls : List FieldCall)
    (served : ∀ call ∈ calls, call.Served)
    (along : Along messageStep (fun message call => call.Admissible message) Message.empty calls) :
    ∃ created answers last message,
      omnmmsgPayload_create.result = some (.ok, created) ∧
      run payloadStep created calls = some (answers, last) ∧
      run messageStep Message.empty calls = some (answers, message) ∧
      last.decodedFields = some (message.entries.map FieldEntry.value) ∧
      (∀ name fid, (last.findFieldInBuffer name fid).result.map (Option.map last.valueOf) =
        some ((message.find name fid).map FieldEntry.value)) ∧
      (∀ name fid, payloadStep last (.getField name fid) =
        some (((FieldCall.getField name fid).onMessage message).1, last)) ∧
      (omnmmsgPayload_getNumFields last).result = some (.ok, message.entries.length) ∧
      omnmmsgPayload_getByteSize last = (.ok, message.encode.length) := by
  have same : List.Forall₂ FieldCall.SameRequest calls calls :=
    List.forall₂_same.mpr fun call _ => .refl call
  obtain ⟨answers, last, message, ran, ranMessage, represents⟩ :=
    run_represents Represents.newPayload served same along
  refine ⟨newPayload, answers, last, message, omnmmsgPayload_create_result, ran, ranMessage,
    represents.decodes.decodedFields, represents.findValue, represents.getField,
    represents.decodes.getNumFields, ?_⟩
  rw [omnmmsgPayload_getByteSize, represents.tail]

section Example

attribute [local instance] mamaFieldTypes

theorem noNul_nameA : (0 : UInt8) ∉ [97] := by decide

/-- The name `a`. -/
def nameA : CString := ⟨[97], noNul_nameA⟩

theorem listed_string : dataLayout (mamaFieldTypeNumber .string) ≠ .unlisted := by decide

/-- Data of a string field. -/
def textData (bytes : List UInt8) (noNul : nulIndex bytes = some (bytes.length - 1)) : FieldData :=
  ⟨mamaFieldTypeNumber .string, listed_string, some ⟨bytes, noNul⟩⟩

theorem fieldCalls_refine_message_growing :
    ∃ created answers last,
      omnmmsgPayload_create.result = some (.ok, created) ∧
      run payloadStep created [.addField .zeroing (some nameA) 1 (textData [104, 0] rfl),
        .updateField .zeroing (some nameA) 1 (textData [104, 105, 0] rfl)] = some (answers, last) ∧
      last.decodedFields = some [⟨8, 1, [97], [104, 105, 0]⟩] := by
  obtain ⟨created, answers, last, message, made, ran, ranMessage, decoded, -⟩ :=
    fieldCalls_refine_message
    [.addField .zeroing (some nameA) 1 (textData [104, 0] rfl),
      .updateField .zeroing (some nameA) 1 (textData [104, 105, 0] rfl)]
    (by
      intro call member
      simp only [List.mem_cons, List.not_mem_nil, or_false] at member
      rcases member with rfl | rfl
      · exact Allocator.zeroing_succeeds
      · exact Allocator.zeroing_succeeds)
    (by
      refine ⟨⟨trivial, by decide, by decide⟩, ?_⟩
      intro _ _ stepped
      cases stepped
      refine ⟨⟨?_, by decide, by decide⟩, fun _ _ _ => trivial⟩
      intro entry found _
      cases found
      rfl)
  cases ranMessage
  exact ⟨created, _, last, made, ran, decoded⟩

end Example

/-- Two payloads that hold one message answer every run alike and stay equal on the
wire. -/
theorem run_of_same_message [FieldTypeTags] {first second : OmnmPayloadImpl} {message : Message}
    (represents : first.Represents message) (represents' : second.Represents message)
    {calls calls' : List FieldCall} (served : ∀ call ∈ calls, call.Served)
    (served' : ∀ call ∈ calls', call.Served)
    (same : List.Forall₂ FieldCall.SameRequest calls' calls)
    (along : Along messageStep (fun message call => call.Admissible message) message calls) :
    ∃ answers last last', run payloadStep first calls = some (answers, last) ∧
      run payloadStep second calls' = some (answers, last') ∧
      last.serialized = last'.serialized := by
  have itself : List.Forall₂ FieldCall.SameRequest calls calls :=
    List.forall₂_same.mpr fun call _ => .refl call
  obtain ⟨answers, last, message', ran, ranMessage, holds⟩ :=
    run_represents represents served itself along
  obtain ⟨answers', last', message'', ran', ranMessage', holds'⟩ :=
    run_represents represents' served' same along
  cases ranMessage.symm.trans ranMessage'
  exact ⟨answers, last, last', ran, ran', by rw [holds.serialized_eq, holds'.serialized_eq]⟩

/-- A payload that agrees with an original and keeps agreeing with it in every run. -/
structure Replicates [FieldTypeTags] (original replica : OmnmPayloadImpl) (message : Message) :
    Prop where
  serialized : replica.serialized = original.serialized
  headerSize : replica.getHeaderSize = original.getHeaderSize
  decoded : replica.decodedFields = original.decodedFields
  runs : ∀ calls calls' : List FieldCall, (∀ call ∈ calls, call.Served) →
    (∀ call ∈ calls', call.Served) → List.Forall₂ FieldCall.SameRequest calls' calls →
    Along messageStep (fun message call => call.Admissible message) message calls →
    ∃ answers last last', run payloadStep original calls = some (answers, last) ∧
      run payloadStep replica calls' = some (answers, last') ∧ last.serialized = last'.serialized

theorem replicates_of_represents [FieldTypeTags] {original replica : OmnmPayloadImpl}
    {message : Message} (represents : original.Represents message)
    (represents' : replica.Represents message) : Replicates original replica message where
  serialized := by rw [represents.serialized_eq, represents'.serialized_eq]
  headerSize := by rw [represents.getHeaderSize_eq, represents'.getHeaderSize_eq]
  decoded := by rw [represents.decodes.decodedFields, represents'.decodes.decodedFields]
  runs _ _ served served' same along :=
    run_of_same_message represents represents' served served' same along

/-- A payload that takes in the bytes of another, in any of the ways there are,
replicates it, whatever it held before; and a cleared payload replicates a new one. -/
theorem unSerialize_replicates [FieldTypeTags] {original : OmnmPayloadImpl} {message : Message}
    (represents : original.Represents message) {allocator : Allocator}
    (succeeds : allocator.Succeeds) :
    (∀ (msg : OmnmPayloadImpl) (memory : List UInt8),
      original.mPayloadBufferTail ≤ memory.length →
      memory.take original.mPayloadBufferTail = original.serialized →
      ∃ replica, (omnmmsgPayload_unSerialize allocator msg (some (.other memory))
          original.mPayloadBufferTail).result = some (.ok, replica) ∧
        Replicates original replica message) ∧
    (∀ msg, ∃ replica, (omnmmsgPayload_copy allocator original (.other msg)).result =
        some (.ok, replica) ∧ Replicates original replica message) ∧
    (∃ replica, (omnmmsgPayload_copy allocator original .null).result = some (.ok, replica) ∧
      Replicates original replica message) ∧
    (∀ memory : List UInt8, original.mPayloadBufferTail ≤ memory.length →
      memory.take original.mPayloadBufferTail = original.serialized →
      ∃ replica, (omnmmsgPayload_createFromByteBuffer allocator (some memory)
          original.mPayloadBufferTail).result = some (.ok, some replica) ∧
        Replicates original replica message) ∧
    (∀ msg : OmnmPayloadImpl, 3 ≤ msg.mPayloadBufferSize →
      ∃ cleared, msg.clear.result = some (.ok, cleared) ∧
        Replicates newPayload cleared Message.empty) := by
  have positive : original.mPayloadBufferTail ≠ 0 := by
    have long := message.three_le_length_encode
    rw [represents.tail]
    omega
  have taken : ∀ (msg : OmnmPayloadImpl) (memory : List UInt8),
      original.mPayloadBufferTail ≤ memory.length →
      memory.take original.mPayloadBufferTail = original.serialized →
      ∃ replica, (omnmmsgPayload_unSerialize allocator msg (some (.other memory))
          original.mPayloadBufferTail).result = some (.ok, replica) ∧
        Replicates original replica message := by
    intro msg memory readable same
    obtain ⟨replica, result, holds, -⟩ := Represents.unSerialize msg succeeds readable
      (same.trans represents.serialized_eq)
    exact ⟨replica, result, replicates_of_represents represents holds⟩
  refine ⟨taken, ?_, ?_, ?_, ?_⟩
  · intro msg
    exact taken msg original.mPayloadBuffer represents.tail_le rfl
  · obtain ⟨replica, result, replicates⟩ :=
      taken newPayload original.mPayloadBuffer represents.tail_le rfl
    refine ⟨replica, ?_, replicates⟩
    rw [omnmmsgPayload_copy, Traced.result_bind, omnmmsgPayload_create_result]
    exact result
  · intro memory readable same
    obtain ⟨replica, result, replicates⟩ := taken newPayload memory readable same
    refine ⟨replica, ?_, replicates⟩
    rw [omnmmsgPayload_createFromByteBuffer, if_neg positive, Traced.result_bind,
      omnmmsgPayload_create_result, Option.bind_some, Traced.result_bind, result]
    rfl
  · intro msg room
    obtain ⟨cleared, keeps⟩ := Represents.clear msg room
    exact ⟨cleared, keeps.result, replicates_of_represents Represents.newPayload keeps.represents⟩

section Example

attribute [local instance] mamaFieldTypes

/-- A message with one additional header byte and one field. -/
def extendedMessage : Message where
  kind := mamaPayloadIdOmnm
  version := 1
  extra := [7]
  entries := [⟨mamaFieldTypeNumber .u16, 3, nameA, [1, 2]⟩]
  version_le := UInt8.le_refl omnmProtocolVersion
  extra_lt := by decide
  fits := by
    intro entry member
    rw [List.mem_singleton.mp member]
    decide

/-- A payload that holds it. -/
def extendedPayload : OmnmPayloadImpl :=
  ⟨extendedMessage.encode, 11, ⟨mamaPayloadIdOmnm, 1, 1⟩, []⟩

theorem unSerialize_replicates_extended :
    ∃ replica, (omnmmsgPayload_copy .zeroing extendedPayload (.other newPayload)).result =
      some (.ok, replica) ∧ Replicates extendedPayload replica extendedMessage :=
  (unSerialize_replicates ⟨⟨[], (List.append_nil _).symm⟩, rfl, rfl, rfl⟩
    Allocator.zeroing_succeeds).2.1 newPayload

end Example

end Omnm
