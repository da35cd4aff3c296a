import Omnm.Payload.Preparation
import Omnm.Payload.ReadEffects
import Omnm.Runs.Runs

/-!
# What reads put on the wire

Deleting the reads of a run should change no status of a mutation and no byte of
the message. A read can matter in one way only: `omnmmsgPayload_toString` leaves
its text in the scratch buffer and makes that buffer longer. Two things show it.
`omnmmsgPayload_addVectorString` adds the whole scratch buffer, text included
(`printed_text_is_added`), and an empty vector is NULL as long as the scratch
buffer was never allocated.

Where neither happens behind a `toString`, reads leave no trace
(`reads_leave_no_trace`).
-/

set_option autoImplicit false

namespace Omnm

open OmnmPayloadImpl

/-! ## Vectors that keep the scratch buffer to themselves -/

section

variable [FieldTypeTags]

/-- A request does not show what else the scratch buffer holds: strings that are added fill
it, and a vector without bytes comes when it was never allocated or finds no field. -/
structure FieldRequest.Confined (msg : OmnmPayloadImpl) (name : Option CString) (fid : UInt16)
    (request : FieldRequest) : Prop where
  whole : ∀ strings, request = .addVectorString (some strings) →
    msg.mBuffer.length ≤ elementsLength (strings.map CString.terminated)
  empty : request.bytesRequired = some 0 →
    msg.mBuffer = [] ∨ (msg.findFieldInBuffer name fid).result = some none

/-- The request of a call under a valid key is confined. -/
def PayloadCall.Confined (msg : OmnmPayloadImpl) : PayloadCall → Prop
  | .field _ name fid request => validateNameFid name fid = none → request.Confined msg name fid
  | .clear | .unSerialize .. => True

/-- The scratch buffer of a call grows to exactly the size asked for. -/
def PayloadCall.ScratchGrows : PayloadCall → Prop
  | .field memory .. => memory.scratch.Succeeds ∧ memory.scratch.Exact
  | .clear | .unSerialize .. => True

/-! ## Two scratch buffers -/

/-- Two mutations do the same to a message: they are equal, or both refuse an empty vector. -/
def Mutation.SameOn (msg : OmnmPayloadImpl) (name : Option CString) (fid : UInt16)
    (mutation other : Mutation) : Prop :=
  other = mutation ∨ ∃ type, mutation = .update type (some []) ∧ other = .update type none ∧
    (msg.findFieldInBuffer name fid).result = some none

theorem Mutation.SameOn.perform {msg : OmnmPayloadImpl} {name : Option CString} {fid : UInt16}
    {mutation other : Mutation} (same : mutation.SameOn msg name fid other) (memory : CallMemory) :
    (other.perform memory msg name fid).result = (mutation.perform memory msg name fid).result := by
  rcases same with rfl | ⟨type, rfl, rfl, absent⟩
  · rfl
  · simp only [Mutation.perform, updateField, true_or, if_true, Traced.result_pure]
    split
    · rfl
    · rename_i given
      rw [Traced.result_bind, absent, Option.bind_some, addField]
      simp [uint32Max]

section

variable {memory : CallMemory} {msg : OmnmPayloadImpl} {name : Option CString} {fid : UInt16}
  {first second : List UInt8}

/-- Data that is NULL while the scratch buffer is empty. -/
theorem sameOn_update {type : MamaFieldType} {data : List UInt8}
    (shorter : second.length ≤ first.length) (room : data.length ≤ second.length)
    (empty : data = [] → first = [] ∨ (msg.findFieldInBuffer name fid).result = some none) :
    Mutation.SameOn msg name fid (.update type (if first = [] then none else some data))
      (.update type (if second = [] then none else some data)) := by
  by_cases none_first : first = []
  · have none_second : second = [] := by
      rw [none_first, List.length_nil] at shorter
      exact List.eq_nil_of_length_eq_zero (Nat.le_zero.mp shorter)
    rw [if_pos none_first, if_pos none_second]
    exact .inl rfl
  · rw [if_neg none_first]
    by_cases none_second : second = []
    · have no_data : data = [] := by
        rw [none_second, List.length_nil] at room
        exact List.eq_nil_of_length_eq_zero (Nat.le_zero.mp room)
      rw [if_pos none_second, no_data]
      exact .inr ⟨type, rfl, rfl, (empty no_data).resolve_left none_first⟩
    · rw [if_neg none_second]
      exact .inl rfl

/-- Preparations with two scratch buffers give mutations that do the same, and the shorter
scratch buffer stays the shorter one. -/
def PreparedAlike (msg : OmnmPayloadImpl) (name : Option CString) (fid : UInt16)
    (prepared other : Traced Region (Mutation × List UInt8)) : Prop :=
  ∃ mutation mutation' scratch scratch', prepared.result = some (mutation, scratch) ∧
    other.result = some (mutation', scratch') ∧ mutation.SameOn msg name fid mutation' ∧
    scratch'.length ≤ scratch.length

theorem preparedAlike_pure (mutation : Mutation) (shorter : second.length ≤ first.length) :
    PreparedAlike msg name fid (pure (mutation, first)) (pure (mutation, second)) :=
  ⟨mutation, mutation, first, second, rfl, rfl, .inl rfl, shorter⟩

theorem preparedAlike_checked {Value : Type} {value : Option Value}
    {build build' : Value → Traced Region (Mutation × List UInt8)}
    (shorter : second.length ≤ first.length)
    (builds : ∀ given, value = some given → validateNameFid name fid = none →
      PreparedAlike msg name fid (build given) (build' given)) :
    PreparedAlike msg name fid (checked first name fid value build)
      (checked second name fid value build') := by
  simp only [checked]
  cases valid : validateNameFid name fid with
  | some status => exact preparedAlike_pure _ shorter
  | none =>
      cases value with
      | none => exact preparedAlike_pure _ shorter
      | some given => exact builds given rfl valid

theorem preparedAlike_elements (succeeds : memory.scratch.Succeeds) (exact : memory.scratch.Exact)
    (shorter : second.length ≤ first.length) (type : MamaFieldType) (elements : List (List UInt8))
    (empty : elementsLength elements = 0 →
      first = [] ∨ (msg.findFieldInBuffer name fid).result = some none) :
    PreparedAlike msg name fid (prepareElements memory first type elements)
      (prepareElements memory second type elements) := by
  obtain ⟨scratch, prepared, length⟩ := @result_prepareElements memory first succeeds type
    elements
  obtain ⟨scratch', prepared', length'⟩ := @result_prepareElements memory second succeeds type
    elements
  rw [length_allocateBufferMemory exact succeeds] at length length'
  refine ⟨_, _, scratch, scratch', prepared, prepared', sameOn_update (by omega) ?_ ?_, by omega⟩
  · rw [← length_flatten]
    omega
  · intro no_data
    have nothing : elementsLength elements = 0 := by rw [length_flatten, no_data, List.length_nil]
    apply (empty nothing).imp_left
    intro unallocated
    rw [unallocated, List.length_nil] at length
    exact List.eq_nil_of_length_eq_zero (by omega)

theorem preparedAlike_whole (succeeds : memory.scratch.Succeeds) (exact : memory.scratch.Exact)
    (shorter : second.length ≤ first.length) (elements : List (List UInt8))
    (whole : first.length ≤ elementsLength elements) :
    PreparedAlike msg name fid (prepareWhole memory first elements)
      (prepareWhole memory second elements) := by
  have fills : ∀ {mBuffer : List UInt8}, mBuffer.length ≤ elementsLength elements →
      overwrite (allocateBufferMemory memory.scratch mBuffer (elementsLength elements)).buffer 0
        elements.flatten = elements.flatten := by
    intro mBuffer fits
    have length := length_allocateBufferMemory exact succeeds mBuffer (elementsLength elements)
    have written := take_overwrite_zero (length_flatten elements)
      (le_length_scratch succeeds mBuffer (elementsLength elements))
    rwa [List.take_of_length_le (by rw [length_overwrite, length]; omega)] at written
  obtain ⟨scratch, prepared, rfl⟩ := @result_prepareWhole memory first succeeds elements
  obtain ⟨scratch', prepared', rfl⟩ := @result_prepareWhole memory second succeeds elements
  rw [fills whole] at prepared
  rw [fills (shorter.trans whole)] at prepared'
  exact ⟨_, _, _, _, prepared, prepared', .inl rfl, Nat.le_refl _⟩

theorem preparedAlike_messages (succeeds : memory.scratch.Succeeds) (exact : memory.scratch.Exact)
    (shorter : second.length ≤ first.length) (messages : List (List UInt8))
    (empty : messagesLength messages = 0 →
      first = [] ∨ (msg.findFieldInBuffer name fid).result = some none) :
    PreparedAlike msg name fid (prepareMessages memory first messages)
      (prepareMessages memory second messages) := by
  obtain ⟨scratch, length, outcome⟩ := @result_prepareMessages memory first succeeds messages
  obtain ⟨scratch', length', outcome'⟩ := @result_prepareMessages memory second succeeds
    messages
  rw [length_allocateBufferMemory exact succeeds] at length length'
  rcases outcome with ⟨short, prepared⟩ | ⟨long, prepared⟩
  · rcases outcome' with ⟨-, prepared'⟩ | ⟨long, -⟩
    · refine ⟨_, _, scratch, scratch', prepared, prepared', sameOn_update (by omega) ?_ ?_,
        by omega⟩
      · rw [← length_messageRecords]
        omega
      · intro no_data
        have nothing : messagesLength messages = 0 := by
          rw [length_messageRecords, no_data, List.length_nil]
        apply (empty nothing).imp_left
        intro unallocated
        rw [unallocated, List.length_nil] at length
        exact List.eq_nil_of_length_eq_zero (by omega)
    · exact absurd short long
  · rcases outcome' with ⟨short, -⟩ | ⟨-, prepared'⟩
    · exact absurd short long
    · exact ⟨_, _, scratch, scratch', prepared, prepared', .inl rfl, by omega⟩

/-- A confined request prepares alike with a shorter scratch buffer. -/
theorem FieldRequest.Confined.preparedAlike {request : FieldRequest}
    (confined : validateNameFid name fid = none → request.Confined msg name fid)
    (succeeds : memory.scratch.Succeeds) (exact : memory.scratch.Exact)
    (shorter : second.length ≤ msg.mBuffer.length) :
    PreparedAlike msg name fid (request.prepare memory msg.mBuffer name fid)
      (request.prepare memory second name fid) := by
  cases request with
  | addVectorString value =>
      apply preparedAlike_checked shorter
      intro strings given valid
      exact preparedAlike_whole succeeds exact shorter _
        ((confined valid).whole strings (congrArg FieldRequest.addVectorString given))
  | updateVectorString value | addVectorDateTime value | updateVectorTime value
  | addVectorPrice value | updateVectorPrice value =>
      apply preparedAlike_checked shorter
      intro values given valid
      apply preparedAlike_elements succeeds exact shorter _ _
      intro nothing
      subst given
      exact (confined valid).empty (congrArg some nothing)
  | addVectorMsg value | updateVectorMsg value | updateVectorMsgPayload value =>
      apply preparedAlike_checked shorter
      intro messages given valid
      apply preparedAlike_messages succeeds exact shorter _
      intro nothing
      subst given
      exact (confined valid).empty (congrArg some nothing)
  | _ => exact preparedAlike_pure _ shorter

end

/-! ## Two runs -/

/-- The second object holds the same message, and no longer a scratch buffer. -/
def SameMessage (object other : PayloadObject) : Prop :=
  ∃ scratch, other.impl = withScratch scratch object.impl ∧
    scratch.length ≤ object.impl.mBuffer.length

omit [FieldTypeTags] in
theorem SameMessage.serialized {object other : PayloadObject} (same : SameMessage object other) :
    other.impl.serialized = object.impl.serialized := by
  obtain ⟨scratch, message, -⟩ := same
  rw [message, withScratch_serialized]

/-- A confined mutation does the same to the same message. -/
theorem PayloadCall.perform_sameMessage {call : PayloadCall} {msg next : OmnmPayloadImpl}
    {scratch : List UInt8} {status : MamaStatus} (confined : call.Confined msg)
    (grows : call.ScratchGrows) (shorter : scratch.length ≤ msg.mBuffer.length)
    (stepped : (call.perform msg).result = some (status, next)) :
    ∃ left, (call.perform (withScratch scratch msg)).result = some (status, withScratch left next) ∧
      left.length ≤ next.mBuffer.length := by
  cases call with
  | clear =>
      refine ⟨scratch, ?_, ?_⟩
      · rw [perform, clear_withScratch, result_carryScratch]
        rw [perform] at stepped
        rw [stepped]
        rfl
      · obtain ⟨first, -, rest⟩ := Traced.result_bind_eq_some.mp stepped
        obtain ⟨second, -, given⟩ := Traced.result_bind_eq_some.mp rest
        cases given
        exact shorter
  | unSerialize memory buffer length =>
      have kept : next.mBuffer = msg.mBuffer := by
        have same := @unSerialize_withScratch msg.mBuffer msg memory.payload buffer length
        rw [withScratch_self] at same
        have result := congrArg Traced.result same
        rw [perform] at stepped
        rw [result_carryScratch, stepped, Option.map_some, Option.some.injEq, Prod.mk.injEq]
          at result
        rw [result.2]
        rfl
      refine ⟨scratch, ?_, by rw [kept]; exact shorter⟩
      rw [perform, unSerialize_withScratch, result_carryScratch]
      rw [perform] at stepped
      rw [stepped]
      rfl
  | field memory name fid request =>
      obtain ⟨mutation, mutation', left, left', prepared, prepared', same, shorterLeft⟩ :=
        FieldRequest.Confined.preparedAlike confined grows.1 grows.2 shorter
      have full : ((request.perform memory msg name fid).result =
          (mutation.perform memory msg name fid).result.map (Prod.map id (withScratch left))) := by
        rw [FieldRequest.perform_eq, afterPreparing, Traced.result_bind, prepared,
          Option.bind_some, ← result_carryScratch, ← Mutation.perform_withScratch]
        rfl
      have purged : ((request.perform memory (withScratch scratch msg) name fid).result =
          (mutation.perform memory msg name fid).result.map (Prod.map id (withScratch left'))) := by
        rw [FieldRequest.perform_eq, afterPreparing, Traced.result_bind, withScratch_mBuffer,
          prepared', Option.bind_some, ← same.perform memory, ← result_carryScratch,
          ← Mutation.perform_withScratch]
        rfl
      rw [perform, full, Option.map_eq_some_iff] at stepped
      obtain ⟨⟨outcome, plain⟩, performed, given⟩ := stepped
      cases given
      refine ⟨left', ?_, shorterLeft⟩
      rw [perform, purged, performed]
      rfl

variable [MamaLibrary] [FieldPrinting]

/-- A mutation is what is left of a run without its reads. -/
def ObjectCall.mutates : ObjectCall → Bool
  | .mutate _ => true
  | .read _ => false

/-- A call that is not `omnmmsgPayload_toString`. -/
def ObjectCall.Silent : ObjectCall → Prop
  | .mutate _ => True
  | .read call => call.prints = false

/-- A mutation in a state where it does not show what was printed. -/
def ObjectCall.Confined (object : PayloadObject) : ObjectCall → Prop
  | .mutate call => call.ScratchGrows ∧ call.Confined object.impl
  | .read _ => True

/-- The second object has the same payload. -/
def SameImpl (object other : PayloadObject) : Prop := other.impl = object.impl

/-- A mutation on the same payload gives the same. -/
theorem step_of_same_impl {call : PayloadCall} {object other next : PayloadObject} {out : ObjectOut}
    (same : other.impl = object.impl) (stepped : objectStep object (.mutate call) = some (out, next)) :
    ∃ otherNext, objectStep other (.mutate call) = some (out, otherNext) ∧
      otherNext.impl = next.impl := by
  obtain ⟨⟨status, impl⟩, performed, given⟩ := Traced.result_bind_eq_some.mp stepped
  cases given
  refine ⟨{ other with impl }, ?_, rfl⟩
  rw [objectStep, ObjectCall.perform, same]
  exact Traced.result_bind_eq_some.mpr ⟨_, performed, rfl⟩

/-- As long as nothing is printed, mutations do not depend on reads. -/
theorem run_silent {calls : List ObjectCall} {start last other : PayloadObject}
    {outs : List ObjectOut} (silent : ∀ call ∈ calls, call.Silent)
    (ran : run objectStep start calls = some (outs, last)) (same : other.impl = start.impl) :
    ∃ otherLast, run objectStep other (calls.filter ObjectCall.mutates) =
        some (visibleOuts ObjectCall.mutates calls outs, otherLast) ∧
      otherLast.impl = last.impl := by
  have related : SameImpl start other := same
  refine run_purge ?_ ?_ calls start other last outs related (along_of_mem silent) ran
  · intro object other call out next related hides quiet stepped
    cases call with
    | mutate call => cases hides
    | read call =>
        obtain ⟨⟨given, later⟩, read, gives⟩ := Traced.result_bind_eq_some.mp stepped
        cases gives
        obtain ⟨printed, impl, -, untouched⟩ := ReadCall.perform_impl read
        exact related.trans (by rw [impl, untouched quiet, withScratch_self])
  · intro object other call out next related shows _ stepped
    cases call with
    | mutate call => exact step_of_same_impl related stepped
    | read call => cases shows

/-- When mutations are confined, they do not depend on reads. -/
theorem run_confined {calls : List ObjectCall} {start last other : PayloadObject}
    {outs : List ObjectOut} (confined : Along objectStep (fun object call => call.Confined object)
      start calls)
    (ran : run objectStep start calls = some (outs, last)) (same : SameMessage start other) :
    ∃ otherLast, run objectStep other (calls.filter ObjectCall.mutates) =
        some (visibleOuts ObjectCall.mutates calls outs, otherLast) ∧
      SameMessage last otherLast := by
  refine run_purge ?_ ?_ calls start other last outs same confined ran
  · rintro object other call out next ⟨scratch, message, shorter⟩ hides - stepped
    cases call with
    | mutate call => cases hides
    | read call =>
        obtain ⟨⟨given, later⟩, read, gives⟩ := Traced.result_bind_eq_some.mp stepped
        cases gives
        obtain ⟨printed, impl, longer, -⟩ := ReadCall.perform_impl read
        refine ⟨scratch, ?_, ?_⟩
        · rw [message, impl]
          rfl
        · rw [impl]
          exact shorter.trans longer
  · rintro object other call out next ⟨scratch, message, shorter⟩ shows confined stepped
    cases call with
    | mutate call =>
        obtain ⟨grows, admits⟩ := confined
        obtain ⟨⟨status, impl⟩, performed, given⟩ := Traced.result_bind_eq_some.mp stepped
        cases given
        obtain ⟨left, purged, shorterLeft⟩ :=
          PayloadCall.perform_sameMessage admits grows shorter performed
        refine ⟨{ other with impl := withScratch left impl }, ?_, left, rfl, shorterLeft⟩
        rw [objectStep, ObjectCall.perform, message]
        exact Traced.result_bind_eq_some.mpr ⟨_, purged, rfl⟩
    | read call => cases shows

end

/-- Deleting the reads of a run that shows nothing of what was printed leaves the statuses of
its mutations and its message. -/
theorem reads_leave_no_trace [FieldTypeTags] [MamaLibrary] [FieldPrinting]
    {start last : PayloadObject} {before after : List ObjectCall} {outs : List ObjectOut}
    (ran : run objectStep start (before ++ after) = some (outs, last))
    (silent : ∀ call ∈ before, call.Silent)
    (confined : ∀ first middle, run objectStep start before = some (first, middle) →
      Along objectStep (fun object call => call.Confined object) middle after) :
    ∃ otherLast,
      run objectStep start ((before ++ after).filter ObjectCall.mutates) =
        some (visibleOuts ObjectCall.mutates (before ++ after) outs, otherLast) ∧
      otherLast.impl.serialized = last.impl.serialized := by
  obtain ⟨first, middle, second, ranBefore, ranAfter, rfl, length⟩ := run_append ran
  obtain ⟨otherMiddle, purgedBefore, same⟩ := run_silent silent ranBefore rfl
  have related : SameMessage middle otherMiddle :=
    ⟨middle.impl.mBuffer, same, Nat.le_refl _⟩
  obtain ⟨otherLast, purgedAfter, sameLast⟩ :=
    run_confined (confined first middle ranBefore) ranAfter related
  refine ⟨otherLast, ?_, sameLast.serialized⟩
  rw [List.filter_append, visibleOuts_append length]
  exact run_append_of_run purgedBefore purgedAfter

section Example

attribute [local instance] mamaFieldTypes

/-- A library that prints nothing and whose conversions do nothing. -/
@[reducible] def silentLibrary : MamaLibrary :=
  ⟨fun _ _ bits => bits, .i32, fun _ => (.ok, ⟨0, 0, 0, 0⟩), fun _ => (.ok, ⟨0, 0, 0, 0⟩),
    fun _ => (.ok, ⟨0, 0, 0, 0⟩), fun _ => (.ok, ⟨0, 0, 0, 0⟩), fun _ => ⟨0, 0⟩⟩

@[reducible] def silentPrinting : FieldPrinting :=
  ⟨fun _ _ => [], fun _ => (.ok, []), fun _ => (.ok, []), fun _ _ _ => .ok, fun _ => 0, id⟩

attribute [local instance] silentLibrary silentPrinting

/-- A field is added under fid 3 and the payload printed. -/
def printingRun : List ObjectCall :=
  [.mutate (.field .zeroing none 3 (.addScalar .i8 5)), .read .getNumFields,
    .read (.toString .zeroing)]

/-- One string is added. -/
def addingRun : List ObjectCall :=
  [.mutate (.field .zeroing none 4 (.addVectorString (some [⟨[65], by decide⟩])))]

/-- The text of the payload goes on the wire behind the string. -/
theorem printed_text_is_added :
    ∃ printed unprinted,
      run objectStep .new (printingRun ++ addingRun) = some printed ∧
      run objectStep .new ((printingRun ++ addingRun).filter ObjectCall.mutates) = some unprinted ∧
      slice printed.2.impl.serialized 16 7 = [65, 0] ++ textBytes "3]=5\x7d" ∧
      printed.2.impl.serialized ≠ unprinted.2.impl.serialized := by
  have full : (run objectStep .new (printingRun ++ addingRun)).map
      (fun ran => (slice ran.2.impl.serialized 16 7, ran.2.impl.serialized.length)) =
      some ([65, 0] ++ textBytes "3]=5\x7d", 1040) := by
    decide +kernel
  have purged : (run objectStep .new ((printingRun ++ addingRun).filter ObjectCall.mutates)).map
      (fun ran => ran.2.impl.serialized.length) = some 18 := by
    decide +kernel
  obtain ⟨printed, ran, bytes⟩ := Option.map_eq_some_iff.mp full
  obtain ⟨unprinted, purgedRan, length⟩ := Option.map_eq_some_iff.mp purged
  refine ⟨printed, unprinted, ran, purgedRan, congrArg Prod.fst bytes, ?_⟩
  intro same
  have longer := congrArg Prod.snd bytes
  dsimp only at longer
  rw [same, length] at longer
  cases longer

/-- The payload is printed, a field updated and read. -/
def updatingRun : List ObjectCall :=
  [.read (.toString .zeroing), .mutate (.field .zeroing none 3 (.updateScalar .i8 6)),
    .read (.getScalar .i8 none 3)]

theorem confined_updating (object : PayloadObject) :
    Along objectStep (fun object call => call.Confined object) object updatingRun := by
  refine ⟨trivial, fun _ _ _ => ⟨⟨?_, ?_⟩, fun _ _ _ => ⟨trivial, fun _ _ _ => trivial⟩⟩⟩
  · exact ⟨Allocator.zeroing_succeeds, Allocator.zeroing_exact⟩
  · exact fun _ => ⟨by simp, by simp [FieldRequest.bytesRequired]⟩

theorem reads_leave_no_trace_updating :
    ∃ ran otherLast,
      run objectStep .new (printingRun.take 2 ++ updatingRun) = some ran ∧
      run objectStep .new ((printingRun.take 2 ++ updatingRun).filter ObjectCall.mutates) =
        some (visibleOuts ObjectCall.mutates (printingRun.take 2 ++ updatingRun) ran.1,
          otherLast) ∧
      otherLast.impl.serialized = ran.2.impl.serialized := by
  have defined : (run objectStep .new (printingRun.take 2 ++ updatingRun)).isSome = true := by
    decide +kernel
  obtain ⟨ran, whole⟩ := Option.isSome_iff_exists.mp defined
  have silent : ∀ call ∈ printingRun.take 2, call.Silent := by
    intro call member
    have either : call = .mutate (.field .zeroing none 3 (.addScalar .i8 5)) ∨
        call = .read .getNumFields := by simpa [printingRun] using member
    rcases either with rfl | rfl
    · trivial
    · rfl
  obtain ⟨otherLast, purged, same⟩ := reads_leave_no_trace whole silent
    fun _ middle _ => confined_updating middle
  exact ⟨ran, otherLast, whole, purged, same⟩

end Example

end Omnm
