import Omnm.Results.Disclosure
import Omnm.Wire.ObjectRuns

/-!
# Calls that fail

A call that is not reported as OK may have grown the scratch memory and built a
vector there before it was refused. No later call tells, unless it is an
`omnmmsgPayload_addVectorString` or has an empty vector, which are not admissible.
Deleting such calls from a run of admissible calls, and any of the reads, leaves the
observations of the others and the bytes at the end as they are
(`failed_calls_leave_no_trace`).
-/

set_option autoImplicit false

namespace Omnm

open FieldTypeTags (tag)
open OmnmPayloadImpl

section

variable [FieldTypeTags]

/-! ## A message under calls that fail -/

/-- Data that cannot be taken is refused, and what is done with other data may fail. -/
theorem elim_eq_of_ne_ok {message : Message} {given : Option FieldData}
    {serve : FieldData → MamaStatus × Message}
    (keeps : ∀ data, (serve data).1 ≠ .ok → (serve data).2 = message)
    (failed : (given.elim (.invalidArg, message) serve).1 ≠ .ok) :
    (given.elim (.invalidArg, message) serve).2 = message := by
  cases given with
  | none => rfl
  | some data => exact keeps data failed

/-- A mutation that is not reported as OK leaves the message. -/
theorem Message.mutate_eq_of_ne_ok {message : Message} {name : Option CString} {fid : UInt16}
    {mutation : Mutation} (failed : (message.mutate name fid mutation).1 ≠ .ok) :
    (message.mutate name fid mutation).2 = message := by
  cases mutation with
  | refuse status => rfl
  | add type data =>
      cases data with
      | none => rfl
      | some bytes => exact elim_eq_of_ne_ok (fun _ => Message.addField_eq_of_ne_ok) failed
  | update type data =>
      cases data with
      | none => rfl
      | some bytes => exact elim_eq_of_ne_ok (fun _ => Message.updateField_eq_of_ne_ok) failed
  | updateVector type bytes =>
      refine elim_eq_of_ne_ok ?_ failed
      intro data failed
      cases found : message.find name fid with
      | none =>
          rw [found] at failed
          exact Message.addField_eq_of_ne_ok failed
      | some entry =>
          rw [found] at failed
          exact absurd rfl failed

/-- So does a call that changes the payload. -/
theorem PayloadCall.onMessage_eq_of_ne_ok {message : Message} {call : PayloadCall}
    (failed : (call.onMessage message).1 ≠ .ok) : (call.onMessage message).2 = message := by
  cases call with
  | field memory name fid request => exact Message.mutate_eq_of_ne_ok failed
  | clear => exact absurd rfl failed
  | unSerialize memory buffer length =>
      cases buffer with
      | none => rfl
      | some incoming =>
          cases incoming with
          | own => rfl
          | other bytes =>
              simp only [PayloadCall.onMessage] at failed ⊢
              split_ifs at failed ⊢
              · rfl
              · rfl
              · exact absurd rfl failed

/-! ## Runs without them -/

/-- The observation tells that the call changed nothing: it is a read, or it failed. -/
def ObjectCall.Idle : ObjectCall → Observation → Prop
  | .read _, _ => True
  | .mutate _, out => out ≠ .status .ok

variable [MamaLibrary] [FieldPrinting]

/-- Reads and calls that were not reported as OK can be deleted from a run of admissible calls,
each or all of them: the other calls are observed as before, and the payload serialises to the
same bytes at the end. -/
theorem failed_calls_leave_no_trace {object : PayloadObject} {message : Message}
    {calls : List ObjectCall} (shown : object.impl.Shows message)
    (served : ∀ call ∈ calls, call.Served)
    (along : Along messageServe (fun message call => call.Admissible message) message calls)
    {idle : ObjectCall → Observation → Bool}
    (idles : ∀ call out, idle call out = true → call.Idle out) :
    ∃ observations last lastKept, run observedStep object calls = some (observations, last) ∧
      run observedStep object ((effective idle calls observations).map Prod.fst) =
        some ((effective idle calls observations).map Prod.snd, lastKept) ∧
      last.impl.serialized = lastKept.impl.serialized := by
  have still : ∀ message call out next, ObjectCall.Admissible message call →
      messageServe message call = some (out, next) → idle call out = true → next = message := by
    intro message call out next _ stepped rests
    obtain ⟨rfl, rfl⟩ := messageServe_eq_some.mp stepped
    have nothing := idles call _ rests
    cases call with
    | read call => rfl
    | mutate call =>
        refine PayloadCall.onMessage_eq_of_ne_ok ?_
        intro ok
        exact nothing (congrArg Observation.status ok)
  obtain ⟨observations, last, lastMessage, ran, ranMessage, shows⟩ :=
    shown.run_objects served (List.forall₂_same.mpr fun _ _ => rfl) along
  obtain ⟨ranKept, alongKept⟩ := run_effective still calls message lastMessage observations along
    ranMessage
  have servedKept : ∀ call ∈ (effective idle calls observations).map Prod.fst, call.Served := by
    intro call member
    obtain ⟨pair, among, rfl⟩ := List.mem_map.mp member
    exact served pair.1 (mem_of_mem_effective among)
  obtain ⟨observations', lastKept, lastMessage', ran', ranMessage', shows'⟩ :=
    shown.run_objects servedKept (List.forall₂_same.mpr fun _ _ => rfl) alongKept
  cases ranKept.symm.trans ranMessage'
  refine ⟨observations, last, lastKept, ran, ran', ?_⟩
  rw [shows.represents.serialized_eq, shows'.represents.serialized_eq]

end

section Example

attribute [local instance] mamaFieldTypes silentLibrary silentPrinting

/-- A byte is added, updated as if it were a string, and read. -/
def callsWithFailure : List ObjectCall :=
  [.mutate (.field .zeroing none 3 (.addScalar .i8 5)),
    .mutate (.field .zeroing none 3 (.updateString (some CString.empty))),
    .read (.getScalar .i8 none 3)]

/-- Mutations that failed. -/
def failedMutation : ObjectCall → Observation → Bool
  | .read _, _ => false
  | .mutate _, out => out ≠ .status .ok

theorem failed_update_leaves_no_trace :
    ∃ observations last lastKept,
      run observedStep .new callsWithFailure = some (observations, last) ∧
      run observedStep .new ((effective failedMutation callsWithFailure observations).map Prod.fst) =
        some ((effective failedMutation callsWithFailure observations).map Prod.snd, lastKept) ∧
      last.impl.serialized = lastKept.impl.serialized := by
  refine failed_calls_leave_no_trace Shows.newPayload ?_ ?_ ?_
  · intro call member
    simp only [callsWithFailure, List.mem_cons, List.not_mem_nil, or_false] at member
    rcases member with rfl | rfl | rfl
    · exact CallMemory.zeroing_succeeds
    · exact CallMemory.zeroing_succeeds
    · trivial
  · refine along_cons_of_step ⟨by simp [FieldRequest.Exact, FieldRequest.bytesRequired],
      by decide +kernel⟩ rfl ?_
    refine along_cons_of_step ⟨by simp [FieldRequest.Exact, FieldRequest.bytesRequired],
      by decide +kernel⟩ rfl ?_
    refine along_cons_of_step ?_ rfl trivial
    show ∀ entry ∈ Message.find _ none 3, entry.type ≠ mamaFieldTypeNumber .quantity
    decide +kernel
  · intro call out idle
    cases call with
    | read call => trivial
    | mutate call => simpa [failedMutation, ObjectCall.Idle] using idle

end Example

end Omnm
