import Omnm.Results.Application
import Omnm.Results.Disclosure
import Omnm.Runs.Dialogues
import Omnm.Wire.ObjectRuns

/-!
# Conversations with a payload

A caller who goes on by what the calls on a payload object gave is answered as by
the message that the object shows, and leaves an object that shows what becomes
of the message (`conversation_with_message`). So what an object has kept from
earlier calls, the size of its buffers and the memory that it gets have no part
in what its callers see, and two objects cannot be told apart exactly if they
serialise to the same bytes (`indistinguishable_iff_serialized`).

All this is about admissible calls. `omnmmsgPayload_addVectorString` puts what was
left in the scratch buffer on the wire, and an empty vector is refused or not by
whether there is such a buffer; neither is admissible.
-/

set_option autoImplicit false

namespace Omnm

open OmnmPayloadImpl

section

variable [FieldTypeTags] [MamaLibrary] [FieldPrinting]

/-- A caller who talks to an object that shows a message, with admissible calls, gets what the
message would give, and leaves an object that shows what becomes of the message. No admissible call
is an `omnmmsgPayload_addVectorString` or builds an empty vector. -/
theorem conversation_with_message {Result : Type} {object : PayloadObject} {message : Message}
    (shown : object.impl.Shows message) (dialogue : Dialogue ObjectCall Observation Result)
    (along : dialogue.Along messageServe
      (fun message call => call.Served ∧ call.Admissible message) message) :
    ∃ result last lastMessage, dialogue.converse observedStep object = some (result, last) ∧
      dialogue.converse messageServe message = some (result, lastMessage) ∧
      last.impl.Shows lastMessage := by
  refine dialogue.converse_simulation ?_ object message shown along
  rintro object message call shown ⟨served, admissible⟩
  obtain ⟨next, stepped, keeps⟩ := shown.perform_object served admissible
  exact ⟨_, next, _, stepped, rfl, keeps⟩

end

section Example

attribute [local instance] mamaFieldTypes silentLibrary silentPrinting

/-- A caller who adds a byte, raises it if it is read back as a number, and looks at what the payload
is printed as. -/
def raisingCaller : Dialogue ObjectCall Observation Bool :=
  .ask (.mutate (.field .zeroing none 3 (.addScalar .i8 5))) fun _ =>
    .ask (.read (.getScalar .i32 none 3)) fun answer =>
      if answer = .scalar .ok (some 5) then
        .ask (.mutate (.field .zeroing none 3 (.updateScalar .i8 6))) fun _ =>
          .ask (.read (.toString .zeroing)) fun text =>
            .stop (decide (text = .string (some (textBytes "\x7b[3]=6\x7d"))))
      else .stop false

theorem raisingCaller_admissible :
    raisingCaller.Along messageServe (fun message call => call.Served ∧ call.Admissible message)
      Message.empty := by
  refine Dialogue.along_ask_of_step ⟨CallMemory.zeroing_succeeds,
    by simp [FieldRequest.Exact, FieldRequest.bytesRequired], by decide +kernel⟩ rfl ?_
  refine Dialogue.along_ask_of_step ⟨trivial, ?_⟩ rfl ?_
  · show ∀ entry ∈ Message.find _ none 3, entry.type ≠ mamaFieldTypeNumber .quantity
    decide +kernel
  rw [if_pos (by decide +kernel)]
  refine Dialogue.along_ask_of_step ⟨CallMemory.zeroing_succeeds,
    by simp [FieldRequest.Exact, FieldRequest.bytesRequired], by decide +kernel⟩ rfl ?_
  exact Dialogue.along_ask_of_step ⟨Allocator.zeroing_succeeds, trivial⟩ rfl trivial

theorem raisingCaller_with_empty :
    ∃ last lastMessage, raisingCaller.converse observedStep .new = some (true, last) ∧
      last.impl.Shows lastMessage := by
  obtain ⟨result, last, lastMessage, conversed, served, shows⟩ :=
    @conversation_with_message _ _ _ _ .new _ Shows.newPayload raisingCaller
      raisingCaller_admissible
  have raised : (raisingCaller.converse messageServe Message.empty).map Prod.fst = some true := by
    decide +kernel
  rw [served, Option.map_some, Option.some.injEq] at raised
  dsimp only at raised
  exact ⟨last, lastMessage, raised ▸ conversed, shows⟩

end Example

section

variable [FieldTypeTags] [MamaLibrary] [FieldPrinting]

/-- The objects answer the same requests, which the message admits, alike, and serialise to the
same bytes after them. -/
def Indistinguishable (message : Message) (first second : PayloadObject) : Prop :=
  ∀ calls others, (∀ call ∈ calls, call.Served) → (∀ call ∈ others, call.Served) →
    List.Forall₂ (fun call other => call.request = other.request) calls others →
    Along messageServe (fun message call => call.Admissible message) message calls →
    ∃ observations last lastOther, run observedStep first calls = some (observations, last) ∧
      run observedStep second others = some (observations, lastOther) ∧
      last.impl.serialized = lastOther.impl.serialized

omit [FieldTypeTags] [MamaLibrary] [FieldPrinting] in
theorem forall₂_request_self (calls : List ObjectCall) :
    List.Forall₂ (fun call request => call.request = request.request) calls calls :=
  List.forall₂_same.mpr fun _ _ => rfl

omit [MamaLibrary] [FieldPrinting] in
theorem OmnmPayloadImpl.Shows.serialized_eq {msg : OmnmPayloadImpl} {message : Message}
    (shown : msg.Shows message) : msg.serialized = message.encode :=
  shown.represents.serialized_eq

/-- Objects that show messages cannot be told apart by admissible calls, among which there is no
`omnmmsgPayload_addVectorString`, exactly if they serialise to the same bytes. -/
theorem indistinguishable_iff_serialized {first second : PayloadObject} {message other : Message}
    (shown : first.impl.Shows message) (shownOther : second.impl.Shows other) :
    Indistinguishable message first second ↔ first.impl.serialized = second.impl.serialized := by
  constructor
  · intro alike
    obtain ⟨observations, last, lastOther, ran, ranOther, -⟩ :=
      alike [.read .serialize] [.read .serialize] (by simp [ObjectCall.Served, ReadCall.Served])
        (by simp [ObjectCall.Served, ReadCall.Served]) (forall₂_request_self _)
        ⟨trivial, fun _ _ _ => trivial⟩
    cases ran
    have outs : [Observation.bytes .ok (some second.impl.serialized)] =
        [Observation.bytes .ok (some first.impl.serialized)] :=
      congrArg Prod.fst (Option.some.inj ranOther)
    simpa using outs.symm
  · intro bytes
    obtain rfl : message = other := shown.represents.eq_of_serialized shownOther.represents bytes
    intro calls others served servedOther same along
    obtain ⟨observations, last, lastMessage, ran, ranMessage, shows⟩ :=
      shown.run_objects served (forall₂_request_self calls) along
    have flipped : List.Forall₂ (fun call request => call.request = request.request)
        others calls := same.flip.imp fun _ _ => Eq.symm
    obtain ⟨observations', lastOther, lastMessage', ranOther, ranMessage', showsOther⟩ :=
      shownOther.run_objects servedOther flipped along
    cases ranMessage.symm.trans ranMessage'
    exact ⟨observations, last, lastOther, ran, ranOther,
      shows.serialized_eq.trans showsOther.serialized_eq.symm⟩

end

section Example

attribute [local instance] mamaFieldTypes silentLibrary silentPrinting

/-- A new payload, and one whose buffer ends behind its header. -/
theorem new_indistinguishable_from_short :
    Indistinguishable Message.empty .new
      ⟨Message.empty.payload, OmnmFieldImpl.zeroed, FieldResults.none⟩ :=
  (indistinguishable_iff_serialized Shows.newPayload
    ⟨Message.empty.payload_represents, Shows.newPayload.listed⟩).mpr (by decide +kernel)

end Example

end Omnm
