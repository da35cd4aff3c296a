import Omnm.Results.Conversations
import Omnm.Wire.ReadBack

/-!
# Reading what was written

A value that is written under a key, where the key has no field or one of its
type, is there until a call changes the field that the key finds: any run of
admissible calls on other fields, with additions, updates and reads, leaves it
for the getter of its type (`written_value_stays`). What
`omnmmsgPayload_addVectorString` writes depends on the scratch buffer, so it is
not among them.
-/

set_option autoImplicit false

namespace Omnm

open FieldTypeTags (tag)
open OmnmPayloadImpl

section

variable [FieldTypeTags]

/-- A request that adds a field under its key, or updates one of its type. -/
def FieldRequest.Takes (message : Message) (name : Option CString) (fid : UInt16)
    (request : FieldRequest) : Prop :=
  ∀ entry, message.first (name, fid) = some entry →
    ∃ type, (request.mutation name fid).updates = some type ∧ entry.type = tag type

variable [MamaLibrary] [FieldPrinting]

/-- Calls that leave what some keys find do so over runs. -/
theorem agreeOn_of_run {keys : FieldKey → Prop} {message : Message} {calls : List ObjectCall}
    (spares : Along messageServe (fun message call => call.Spares keys message) message calls) :
    ∃ observations last, run messageServe message calls = some (observations, last) ∧
      last.AgreeOn keys message := by
  refine run_invariant ?_ calls message (fun _ _ => rfl) spares
  intro state call agree spares
  refine ⟨_, _, messageServe_eq_some.mpr ⟨rfl, rfl⟩, ?_⟩
  intro key among
  exact (spares.agreeOn key among).trans (agree key among)

/-- A value that was written with status OK, where the key had no field or an update found one of
its type, is read back after every run of admissible calls that leave the field under the key. -/
theorem written_value_stays {object : PayloadObject} {message : Message} {memory : CallMemory}
    {name : Option CString} {fid : UInt16} {request : FieldRequest} {between : List ObjectCall}
    {getter : GetterMemory} {read : ReadCall} {value : Observation}
    (shown : object.impl.Shows message)
    (back : request.readBack getter name fid = some (read, value))
    (takes : request.Takes message name fid)
    (served : ∀ call ∈ .mutate (.field memory name fid request) :: (between ++ [.read read]),
      call.Served)
    (along : Along messageServe (fun message call => call.Admissible message) message
      (.mutate (.field memory name fid request) :: (between ++ [.read read])))
    (spares : Along messageServe (fun message call => call.Spares (· = (name, fid)) message)
      (message.mutate name fid (request.mutation name fid)).2 between) :
    ∃ status observations final last,
      run observedStep object (.mutate (.field memory name fid request) :: (between ++ [.read read])) =
        some (.status status :: (observations ++ [final]), last) ∧
        (status = .ok → final = value) := by
  obtain ⟨outs, last, lastMessage, ran, ranMessage, -⟩ :=
    shown.run_objects served (List.forall₂_same.mpr fun _ _ => rfl) along
  obtain ⟨written, after, rest, stepped, later, rfl⟩ := run_cons_eq_some ranMessage
  obtain ⟨rfl, rfl⟩ := messageServe_eq_some.mp stepped
  obtain ⟨observations, middle, finals, ranBetween, ranRead, rfl, -⟩ := run_append later
  obtain ⟨final, next, none, stepped', ended, rfl⟩ := run_cons_eq_some ranRead
  cases ended
  obtain ⟨rfl, -⟩ := messageServe_eq_some.mp stepped'
  refine ⟨_, observations, _, last, ran, ?_⟩
  intro ok
  obtain ⟨observations', middle', ranBetween', agree⟩ := agreeOn_of_run spares
  cases ranBetween.symm.trans ranBetween'
  rcases FieldRequest.written_of_readBack back with ⟨type, bytes, writes⟩ | ⟨status, refused, same⟩
  · have sameType : ∀ entry, message.first (name, fid) = some entry →
        (request.mutation name fid).updates ≠ none ∧ entry.type = tag type := by
      intro entry found
      obtain ⟨updated, updates, type_eq⟩ := takes entry found
      rw [Mutation.type_of_written writes updates] at type_eq
      exact ⟨by rw [updates]; simp, type_eq⟩
    obtain ⟨entry, found, type_eq, data⟩ :=
      @Message.holds_mutate _ message (name, fid) type bytes _ writes sameType ok
    exact FieldRequest.answer_readBack writes
      ⟨entry, (agree (name, fid) rfl).trans found, type_eq, data⟩ back
  · have answered : (message.mutate name fid (request.mutation name fid)).1 = status := by
      rw [same]
      rfl
    exact absurd (answered.symm.trans ok) refused

end

section Example

attribute [local instance] mamaFieldTypes silentLibrary silentPrinting

/-- Another field is added, updated, and the payload printed. -/
def callsOnFour : List ObjectCall :=
  [.mutate (.field .zeroing none 4 (.addScalar .i8 7)),
    .mutate (.field .zeroing none 4 (.updateScalar .i8 8)), .read (.toString .zeroing)]

theorem added_byte_stays :
    ∃ status observations final last,
      run observedStep .new (.mutate (.field .zeroing none 3 (.addScalar .i8 5)) ::
          (callsOnFour ++ [.read (.getScalar .i8 none 3)])) =
        some (.status status :: (observations ++ [final]), last) ∧
        (status = .ok → final = .scalar .ok (some 5)) := by
  have request : FieldRequest.readBack ⟨.zeroing, true⟩ none 3 (.addScalar .i8 5) =
      some (.getScalar .i8 none 3, .scalar .ok (some 5)) := rfl
  refine written_value_stays Shows.newPayload request ?_ ?_ ?_ ?_
  · intro entry found
    cases found
  · intro call member
    simp only [callsOnFour, List.mem_cons, List.cons_append, List.nil_append, List.not_mem_nil,
      or_false] at member
    rcases member with rfl | rfl | rfl | rfl | rfl
    · exact CallMemory.zeroing_succeeds
    · exact CallMemory.zeroing_succeeds
    · exact CallMemory.zeroing_succeeds
    · exact Allocator.zeroing_succeeds
    · trivial
  · refine along_cons_of_step ⟨by simp [FieldRequest.Exact, FieldRequest.bytesRequired],
      by decide +kernel⟩ rfl ?_
    refine along_cons_of_step ⟨by simp [FieldRequest.Exact, FieldRequest.bytesRequired],
      by decide +kernel⟩ rfl ?_
    refine along_cons_of_step ⟨by simp [FieldRequest.Exact, FieldRequest.bytesRequired],
      by decide +kernel⟩ rfl ?_
    refine along_cons_of_step trivial rfl ?_
    refine along_cons_of_step ?_ rfl trivial
    show ∀ entry ∈ Message.find _ none 3, entry.type ≠ mamaFieldTypeNumber .quantity
    decide +kernel
  · refine along_cons_of_step ?_ rfl ?_
    · rintro key rfl
      decide +kernel
    refine along_cons_of_step ?_ rfl ?_
    · rintro key rfl
      decide +kernel
    exact along_cons_of_step trivial rfl trivial

end Example

end Omnm
