import Omnm.Results.Conversations
import Omnm.Wire.Exchanges

/-!
# Clients of one payload

Calls of several clients on one payload, each under its own keys. A client sees
nothing of the calls that leave the fields under its keys alone, whether they
add fields, change other ones or read: deleting them from a run leaves what the
client sees, and what its keys find (`own_calls_see_no_others`).

The calls are admissible. Through the scratch buffer, which all clients share, a client would
see the others in what `omnmmsgPayload_addVectorString` adds and in empty vectors.
-/

set_option autoImplicit false

namespace Omnm

open OmnmPayloadImpl

/-- A call of the client under one of its keys, or a call that leaves what these find. -/
def ObjectCall.Keeps [FieldTypeTags] (own : ObjectCall → Bool) (keys : FieldKey → Prop)
    (message : Message) (call : ObjectCall) : Prop :=
  (own call = true → call.Within keys) ∧ (own call = false → call.Spares keys message)

/-- Deleting the calls that leave what the keys of a client find from a run changes nothing of what
the client sees, if the calls are admissible with and without them. -/
theorem own_calls_see_no_others [FieldTypeTags] [MamaLibrary] [FieldPrinting]
    {object : PayloadObject} {message : Message} {own : ObjectCall → Bool}
    {keys : FieldKey → Prop} {calls : List ObjectCall} (shown : object.impl.Shows message)
    (served : ∀ call ∈ calls, call.Served)
    (along : Along messageServe (fun message call => call.Admissible message ∧
      call.Keeps own keys message) message calls)
    (alone : Along messageServe (fun message call => call.Admissible message) message
      (calls.filter own)) :
    ∃ observations last lastAlone after afterAlone,
      run observedStep object calls = some (observations, last) ∧
        run observedStep object (calls.filter own) =
          some (visibleOuts own calls observations, lastAlone) ∧
        last.impl.Shows after ∧ lastAlone.impl.Shows afterAlone ∧
        after.AgreeOn keys afterAlone := by
  have admissible : Along messageServe (fun message call => call.Admissible message) message
      calls := along_of_invariant (fun _ _ _ admits => ⟨admits.1, fun _ _ _ => trivial⟩) calls
        message trivial along
  obtain ⟨observations, last, after, ran, ranMessage, shows⟩ :=
    shown.run_objects served (List.forall₂_same.mpr fun _ _ => rfl) admissible
  obtain ⟨ownObservations, lastAlone, afterAlone, ranAlone, ranOwn, showsAlone⟩ :=
    shown.run_objects
      (fun call member => served call (List.mem_of_mem_filter member))
      (List.forall₂_same.mpr fun _ _ => rfl) alone
  have hidden : ∀ state other call out next, state.AgreeOn keys other → own call = false →
      (call.Admissible state ∧ call.Keeps own keys state) →
      messageServe state call = some (out, next) → next.AgreeOn keys other := by
    intro state other call out next agree others admits stepped
    obtain ⟨-, rfl⟩ := messageServe_eq_some.mp stepped
    intro key among
    rw [(admits.2.2 others).agreeOn key among, agree key among]
  have visible : ∀ state other call out next, state.AgreeOn keys other → own call = true →
      (call.Admissible state ∧ call.Keeps own keys state) →
      messageServe state call = some (out, next) →
      ∃ otherNext, messageServe other call = some (out, otherNext) ∧
        next.AgreeOn keys otherNext := by
    intro state other call out next agree mine admits stepped
    obtain ⟨rfl, rfl⟩ := messageServe_eq_some.mp stepped
    obtain ⟨same, agreeNext⟩ := (admits.2.1 mine).agreeOn agree
    exact ⟨_, messageServe_eq_some.mpr ⟨same, rfl⟩, agreeNext⟩
  obtain ⟨afterPurged, ranPurged, agree⟩ := run_purge hidden visible calls message message after
    observations (fun _ _ => rfl) along ranMessage
  rw [ranOwn] at ranPurged
  cases ranPurged
  exact ⟨observations, last, lastAlone, after, afterAlone, ran, ranAlone, shows, showsAlone, agree⟩

/-- Two interleavings of the calls of two clients that work on different fields give each client
the same observations and leave the same bytes, if the calls are admissible in both. -/
theorem interleavings_leave_same_bytes [FieldTypeTags] [MamaLibrary] [FieldPrinting]
    {object : PayloadObject} {message : Message} {own : ObjectCall → Bool}
    {mine theirs : FieldKey → Prop} {calls others : List ObjectCall}
    (shown : object.impl.Shows message) (apart : message.Apart mine theirs)
    (served : ∀ call ∈ calls, call.Served ∧ call.OfClients own mine theirs)
    (sameOwn : calls.filter own = others.filter own)
    (sameOther : (calls.filter fun call => !own call) = others.filter fun call => !own call)
    (along : Along messageServe (fun message call => call.Admissible message) message calls)
    (alongOther : Along messageServe (fun message call => call.Admissible message) message others) :
    ∃ observations observations' last last',
      run observedStep object calls = some (observations, last) ∧
        run observedStep object others = some (observations', last') ∧
        visibleOuts own calls observations = visibleOuts own others observations' ∧
        visibleOuts (fun call => !own call) calls observations =
          visibleOuts (fun call => !own call) others observations' ∧
        last.impl.serialized = last'.impl.serialized := by
  obtain ⟨observations, last, after, ran, ranMessage, shows⟩ :=
    shown.run_objects (fun call among => (served call among).1)
      (List.forall₂_same.mpr fun _ _ => rfl) along
  obtain ⟨observations', last', after', ran', ranMessage', shows'⟩ :=
    shown.run_objects
      (fun call among => (served call (mem_of_filters sameOwn sameOther among)).1)
      (List.forall₂_same.mpr fun _ _ => rfl) alongOther
  obtain ⟨first, second, rfl⟩ := run_interleavings keptBy_apart exchangeable_apart apart
    (fun call among => (served call among).2) sameOwn sameOther ranMessage ranMessage'
  exact ⟨observations, observations', last, last', ran, ran', first, second,
    shows.serialized_eq.trans shows'.serialized_eq.symm⟩

section Example

attribute [local instance] mamaFieldTypes silentLibrary silentPrinting

/-- The calls under a fid. -/
def underFid (number : UInt16) : ObjectCall → Bool
  | .mutate (.field _ _ fid _) => fid = number
  | .read (.getScalar _ _ fid) => fid = number
  | _ => false

/-- One client adds a field and reads it, the other adds one in between. -/
def addingClients : List ObjectCall :=
  [.mutate (.field .zeroing none 3 (.addScalar .i8 5)),
    .mutate (.field .zeroing none 4 (.addScalar .i8 7)), .read (.getScalar .i8 none 3)]

theorem addingClients_served (call : ObjectCall) (member : call ∈ addingClients) :
    call.Served := by
  simp only [addingClients, List.mem_cons, List.not_mem_nil, or_false] at member
  rcases member with rfl | rfl | rfl
  · exact CallMemory.zeroing_succeeds
  · exact CallMemory.zeroing_succeeds
  · trivial

theorem adding_client_sees_no_other :
    ∃ observations last lastAlone after afterAlone,
      run observedStep .new addingClients = some (observations, last) ∧
        run observedStep .new (addingClients.filter (underFid 3)) =
          some (visibleOuts (underFid 3) addingClients observations, lastAlone) ∧
        last.impl.Shows after ∧ lastAlone.impl.Shows afterAlone ∧
        after.AgreeOn (· = (none, 3)) afterAlone := by
  refine own_calls_see_no_others Shows.newPayload addingClients_served ?_ ?_
  · refine along_cons_of_step ⟨⟨by simp [FieldRequest.Exact, FieldRequest.bytesRequired],
      by decide +kernel⟩, fun _ => rfl, by simp [underFid]⟩ rfl ?_
    refine along_cons_of_step ⟨⟨by simp [FieldRequest.Exact, FieldRequest.bytesRequired],
      by decide +kernel⟩, by simp [underFid], ?_⟩ rfl ?_
    · rintro - key rfl
      decide +kernel
    refine along_cons_of_step ⟨?_, fun _ => ⟨_, rfl, rfl⟩, by simp [underFid]⟩ rfl trivial
    show ∀ entry ∈ Message.find _ none 3, entry.type ≠ mamaFieldTypeNumber .quantity
    decide +kernel
  · refine along_cons_of_step ⟨by simp [FieldRequest.Exact, FieldRequest.bytesRequired],
      by decide +kernel⟩ rfl ?_
    refine along_cons_of_step ?_ rfl trivial
    show ∀ entry ∈ Message.find _ none 3, entry.type ≠ mamaFieldTypeNumber .quantity
    decide +kernel

/-- Two fields of a byte. -/
def twoBytes : List FieldEntry :=
  [⟨mamaFieldTypeNumber .i8, 3, CString.empty, [1]⟩,
    ⟨mamaFieldTypeNumber .i8, 4, CString.empty, [2]⟩]

theorem twoBytes_fit : AllFit twoBytes := by
  show ∀ entry ∈ twoBytes, DataFits entry.type entry.data
  decide

/-- The message with these fields. -/
def twoBytesMessage : Message :=
  ⟨mamaPayloadIdOmnm, 1, [], twoBytes, UInt8.le_refl omnmProtocolVersion, Message.extra_nil_lt,
    twoBytes_fit⟩

/-- Each client updates its field. -/
def updatingClients : List ObjectCall :=
  [.mutate (.field .zeroing none 3 (.updateScalar .i8 5)),
    .mutate (.field .zeroing none 4 (.updateScalar .i8 6))]

theorem updates_of_two_bytes_agree :
    ∃ observations observations' last last',
      run observedStep ⟨twoBytesMessage.payload, OmnmFieldImpl.zeroed, FieldResults.none⟩
          updatingClients = some (observations, last) ∧
        run observedStep ⟨twoBytesMessage.payload, OmnmFieldImpl.zeroed, FieldResults.none⟩
          updatingClients.reverse = some (observations', last') ∧
        visibleOuts (underFid 3) updatingClients observations =
          visibleOuts (underFid 3) updatingClients.reverse observations' ∧
        visibleOuts (fun call => !underFid 3 call) updatingClients observations =
          visibleOuts (fun call => !underFid 3 call) updatingClients.reverse observations' ∧
        last.impl.serialized = last'.impl.serialized := by
  have listed : AllListed twoBytes := by
    show ∀ entry ∈ twoBytes, dataLayout entry.type ≠ .unlisted
    decide
  have apart : twoBytesMessage.Apart (· = (none, 3)) (· = (none, 4)) := by
    constructor
    · rintro other rfl
      decide +kernel
    · rintro key rfl other rfl
      decide +kernel
  have step : ∀ (message : Message) (fid : UInt16) (value : Nat),
      (FieldRequest.mutation none fid (.updateScalar .i8 value)).Allowed message none fid →
      (ObjectCall.mutate (.field .zeroing none fid (.updateScalar .i8 value))).Admissible
        message := by
    intro message fid value allowed
    exact ⟨by simp [FieldRequest.Exact, FieldRequest.bytesRequired], allowed⟩
  refine interleavings_leave_same_bytes ⟨twoBytesMessage.payload_represents, listed⟩ apart ?_ rfl
    rfl ?_ ?_
  · intro call member
    simp only [updatingClients, List.mem_cons, List.not_mem_nil, or_false] at member
    rcases member with rfl | rfl
    · exact ⟨CallMemory.zeroing_succeeds, fun _ => rfl, by simp [underFid]⟩
    · exact ⟨CallMemory.zeroing_succeeds, by simp [underFid], fun _ => ⟨rfl, id⟩⟩
  · exact along_cons_of_step (step _ _ _ (by decide +kernel)) rfl
      (along_cons_of_step (step _ _ _ (by decide +kernel)) rfl trivial)
  · exact along_cons_of_step (step _ _ _ (by decide +kernel)) rfl
      (along_cons_of_step (step _ _ _ (by decide +kernel)) rfl trivial)

end Example

end Omnm
