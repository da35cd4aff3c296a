import Omnm.Results.Application
import Omnm.Wire.ReportedCases

/-!
# What `omnmmsgPayload_apply` does not report

`omnmmsgPayload_apply` returns OK whatever its getters and updaters report. So it
hides no failure exactly when there is none: when every field of the source has
something to hand on, and the destination, once the fields in front of it were
put into it with `updateField`, takes it (`apply_hides_no_failure_iff`).

A message that is not taken in is the worst case, since the sub-message of an
earlier round is written in its place (`rejected_message_writes_earlier`).
-/

set_option autoImplicit false

namespace Omnm

open FieldTypeTags (tag)
open OmnmPayloadImpl

section

variable [FieldTypeTags]

/-- A round whose getter and updater report OK, which meets no field of a type that does not
cast, and which does not hand on the sub-message of an earlier round for one that is rejected. -/
structure ReportedRound.Honest (memory : ApplyMemory) (src : OmnmPayloadImpl)
    (round : ReportedRound) : Prop where
  statuses : round.report = some ⟨.ok, .ok⟩
  castable : ¬ MeetsUncastable round.before.dest round.field.mFieldType round.name round.field.mFid
  fresh : round.field.mFieldType = tag .msg → ∀ status sub kept,
    (omnmmsgFieldPayload_getMsg memory.getter src round.field round.before.results).result =
      some (status, some sub, kept) → status ≠ .ok → round.before.results.mSubPayload ≠ some sub

/-- A status of OK says that every round was. -/
def HidesNoFailure (memory : ApplyMemory) (src : OmnmPayloadImpl) (rounds : List ReportedRound)
    (status : MamaStatus) : Prop :=
  status = .ok → ∀ round ∈ rounds, round.Honest memory src

/-! ## The condition -/

/-- The size of the buffer of the sub-message once fields were read: at first that of a new one. -/
def subMessageSize (memory : GetterMemory) (fields : List FieldEntry) : Nat :=
  fields.foldl (subSizeBehind memory) newPayload.mPayloadBufferSize

/-- There are strings among the fields. -/
def HoldsStrings (fields : List FieldEntry) : Prop :=
  ∃ entry ∈ fields, entry.type = tag .vectorString

/-- Every field that is ahead has something to hand on, and the destination, with the fields in
front of it put into it one after another, takes it. A field without a name goes by the last name
`before` it. -/
def NothingFails (memory : ApplyMemory) (scratch slack : List UInt8) :
    List FieldEntry → OmnmPayloadImpl → List FieldEntry → Prop
  | _, _, [] => True
  | before, dest, entry :: entries =>
      let name := carriedName (before ++ [entry])
      entry.Gives memory (HoldsStrings before) scratch (subMessageSize memory.getter before)
          (encodeAll entries ++ slack) ∧
        entry.Taken dest name ∧
        ∀ next, (dest.updateField memory.update.payload entry.type name entry.fid
            (some entry.handed)).result = some (.ok, next) →
          NothingFails memory scratch slack (before ++ [entry]) next entries

instance (fields : List FieldEntry) : Decidable (HoldsStrings fields) :=
  inferInstanceAs (Decidable (∃ entry ∈ fields, entry.type = tag .vectorString))

omit [FieldTypeTags] in
/-- What is asked of what an update leaves, if it returns OK. -/
instance decidableBehindUpdate (outcome : Option (MamaStatus × OmnmPayloadImpl))
    (holds : OmnmPayloadImpl → Prop) [∀ next, Decidable (holds next)] :
    Decidable (∀ next, outcome = some (.ok, next) → holds next) :=
  match outcome with
  | some (.ok, next) => decidable_of_iff (holds next) (by simp)
  | none | some (.nullArg, _) | some (.invalidArg, _) | some (.notFound, _)
  | some (.wrongFieldType, _) | some (.noMem, _) | some (.notImplemented, _) => .isTrue (by simp)

instance decidableNothingFails (memory : ApplyMemory) (scratch slack : List UInt8) :
    ∀ before dest entries, Decidable (NothingFails memory scratch slack before dest entries)
  | _, _, [] => .isTrue trivial
  | before, _, entry :: entries =>
      have := fun next =>
        decidableNothingFails memory scratch slack (before ++ [entry]) next entries
      inferInstanceAs (Decidable (_ ∧ _ ∧ _))

theorem subMessageSize_concat (memory : GetterMemory) (before : List FieldEntry)
    (entry : FieldEntry) :
    subMessageSize memory (before ++ [entry]) =
      subSizeBehind memory (subMessageSize memory before) entry := by
  rw [subMessageSize, List.foldl_append]
  rfl

theorem holdsStrings_concat (before : List FieldEntry) (entry : FieldEntry) :
    HoldsStrings (before ++ [entry]) ↔ HoldsStrings before ∨ entry.type = tag .vectorString := by
  simp [HoldsStrings, or_and_right, exists_or]

/-- What a getter gives depends on what is kept only as far as it looks at it. -/
theorem FieldEntry.gives_congr {memory : ApplyMemory} {entry : FieldEntry} {kept kept' : Prop}
    {scratch scratch' : List UInt8} {size : Nat} {behind : List UInt8} (same : kept ↔ kept')
    (unkept : ¬ kept → (scratch = [] ↔ scratch' = [])) :
    entry.Gives memory kept scratch size behind ↔ entry.Gives memory kept' scratch' size behind := by
  unfold FieldEntry.Gives
  split <;> try exact Iff.rfl
  rw [← same]
  by_cases keeps : kept
  · exact iff_of_true (.inl keeps) (.inl keeps)
  · rw [ne_eq, ne_eq, unkept keeps]

/-! ## One round -/

/-- The state of the loop behind rounds that went well, as far as later rounds look at it. -/
structure ApplyState.Follows (memory : ApplyMemory) (src : OmnmPayloadImpl) (scratch : List UInt8)
    (before : List FieldEntry) (dest : OmnmPayloadImpl) (state : ApplyState) : Prop where
  name : (loadStringArgument src state.name).result = some (carriedName before)
  dest : state.dest = withScratch state.dest.mBuffer dest
  scratch : state.dest.mBuffer = [] ↔ scratch = [] ∧ ¬ HoldsStrings before
  strings : state.results.mVectorString = [] ↔ ¬ HoldsStrings before
  size : state.results.subSize = subMessageSize memory.getter before

theorem ApplyState.Follows.start (memory : ApplyMemory) (src dest : OmnmPayloadImpl) :
    ApplyState.Follows memory src dest.mBuffer [] dest ⟨dest, .null, FieldResults.none⟩ where
  name := rfl
  dest := rfl
  scratch := by simp [HoldsStrings]
  strings := by simp [HoldsStrings, FieldResults.none]
  size := rfl

variable [MamaLibrary] {memory : ApplyMemory} {src : OmnmPayloadImpl} {scratch : List UInt8}

/-- A round that reports OK took its message in. -/
theorem status_of_reported {round : ReportedRound} {next : OmnmPayloadImpl} {kept : FieldResults}
    (reported : (reportField memory src round.field round.before.dest round.name
      round.before.results).result = some (round.report, next, kept))
    (statuses : round.report = some ⟨.ok, .ok⟩) (type : round.field.mFieldType = tag .msg)
    {status : MamaStatus} {sub : Option OmnmPayloadImpl} {kept' : FieldResults}
    (read : (omnmmsgFieldPayload_getMsg memory.getter src round.field round.before.results).result =
      some (status, sub, kept')) : status = .ok := by
  rw [reportField, type, fieldTypeOf_tag] at reported
  dsimp only at reported
  rw [reportMsg, reporting, Traced.result_bind, read, Option.bind_some] at reported
  obtain ⟨⟨answer, after⟩, -, returned⟩ := Traced.result_bind_eq_some.mp reported
  rw [statuses] at returned
  cases returned
  rfl

/-- A round is honest exactly if its field gives something that the destination takes, and then
leaves the destination updated with it. -/
theorem honest_iff_of_reportRound {entry : FieldEntry} {position : Nat} {behind : List UInt8}
    (here : src.mPayloadBuffer.drop position = entry.encode ++ behind) (previous : BufferPtr)
    (fits : DataFits entry.type entry.data) {before : List FieldEntry} {dest : OmnmPayloadImpl}
    {state next : ApplyState} (follows : state.Follows memory src scratch before dest)
    {round : ReportedRound}
    (reported : (reportRound memory src (entry.handle position previous) state).result =
      some (round, next)) :
    (round.Honest memory src ↔
        entry.Gives memory (HoldsStrings before) scratch (subMessageSize memory.getter before)
            behind ∧ entry.Taken dest (carriedName (before ++ [entry]))) ∧
      (round.Honest memory src → ∃ after,
        (dest.updateField memory.update.payload entry.type (carriedName (before ++ [entry]))
          entry.fid (some entry.handed)).result = some (.ok, after) ∧
        next.Follows memory src scratch (before ++ [entry]) after) := by
  have shown := FieldEntry.handledBy_at here
  obtain ⟨written, named, reported⟩ := Traced.result_bind_eq_some.mp reported
  cases (show _ = some _ from shown.getName).symm.trans named
  have carried := shown.loadCarriedName follows.name
  obtain ⟨name, read, reported⟩ := Traced.result_bind_eq_some.mp reported
  cases carried.symm.trans read
  obtain ⟨⟨report, dest', results⟩, performed, returned⟩ := Traced.result_bind_eq_some.mp reported
  cases returned
  have filled : state.results.mVectorString ≠ [] → state.dest.mBuffer ≠ [] := by
    intro kept empty
    exact kept (follows.strings.mpr (follows.scratch.mp empty).2)
  have told : Reported memory state.dest entry (carriedName (before ++ [entry])) state.results
      (entry.Gives memory (state.results.mVectorString ≠ []) state.dest.mBuffer
        state.results.subSize behind ∧ entry.Taken state.dest (carriedName (before ++ [entry])))
      report dest' results := by
    by_cases listed : dataLayout entry.type = .unlisted
    · exact reportField_unlisted rfl listed performed
    · exact reportField_well (FieldEntry.handledBy_of_drop listed here previous) fits
        (carriedName_ne_empty _) (fun offset => FieldEntry.drop_of_handle listed here) filled
        performed
  have gives : entry.Gives memory (state.results.mVectorString ≠ []) state.dest.mBuffer
      state.results.subSize behind ↔ entry.Gives memory (HoldsStrings before) scratch
        (subMessageSize memory.getter before) behind := by
    rw [follows.size]
    refine FieldEntry.gives_congr (not_iff_comm.mp follows.strings.symm) fun unkept => ?_
    rw [follows.scratch, and_iff_left (follows.strings.mp (not_not.mp unkept))]
  have takes : entry.Taken state.dest (carriedName (before ++ [entry])) ↔
      entry.Taken dest (carriedName (before ++ [entry])) := by
    rw [follows.dest]
    exact updateTaken_withScratch _
  have honest : ReportedRound.Honest memory src ⟨state, entry.handle position previous,
      carriedName (before ++ [entry]), report⟩ ↔
      GoesWell report state.dest entry (carriedName (before ++ [entry])) := by
    refine ⟨fun honest => ⟨honest.statuses, honest.castable⟩, fun well => ⟨well.1, well.2, ?_⟩⟩
    intro type status sub kept read failed
    exact absurd (status_of_reported performed well.1 type read) failed
  rw [gives, takes] at told
  refine ⟨honest.trans told.well_iff, ?_⟩
  intro round
  have well := told.well_iff.mp (honest.mp round)
  obtain ⟨⟨after, updated, same⟩, filledBehind⟩ := told.updated well
  obtain ⟨stringsBehind, sizeBehind⟩ := told.behind well
  rw [follows.dest] at updated
  obtain ⟨after', updated', rfl⟩ := updateField_of_withScratch updated
  refine ⟨after', updated', carried, same, ?_, ?_, ?_⟩
  · rw [filledBehind, follows.scratch, holdsStrings_concat, not_or, and_assoc]
  · rw [stringsBehind, follows.strings, holdsStrings_concat, not_or]
  · rw [sizeBehind, follows.size, subMessageSize_concat]

/-! ## The loop -/

theorem field_of_reportRound {field : OmnmFieldImpl} {state next : ApplyState}
    {round : ReportedRound}
    (reported : (reportRound memory src field state).result = some (round, next)) :
    round.field = field := by
  obtain ⟨written, -, reported⟩ := Traced.result_bind_eq_some.mp reported
  obtain ⟨name, -, reported⟩ := Traced.result_bind_eq_some.mp reported
  obtain ⟨⟨report, dest, results⟩, -, returned⟩ := Traced.result_bind_eq_some.mp reported
  cases returned
  rfl

/-- The loop makes a round for each field that is ahead. -/
theorem fields_of_reportFrom {entries : List FieldEntry} {iter : OmnmIterImpl}
    {state last : ApplyState} {fuel : Nat} {rounds : List ReportedRound}
    (ahead : Ahead src iter entries)
    (reported : (reportFrom memory src fuel iter state).result = some (rounds, last)) :
    rounds.map ReportedRound.field =
      fieldHandles entries iter.mBufferPosition iter.mField.mData := by
  induction fuel generalizing iter entries state rounds with
  | zero => cases reported
  | succ fuel ih =>
      cases entries with
      | nil =>
          rw [reportFrom, ahead.next_nil, Traced.result_bind, Traced.result_pure,
            Option.bind_some] at reported
          cases reported
          rfl
      | cons entry entries =>
          rw [reportFrom, Traced.result_bind, ahead.next, Option.bind_some] at reported
          obtain ⟨⟨first, next⟩, made, reported⟩ := Traced.result_bind_eq_some.mp reported
          obtain ⟨⟨others, final⟩, loop, returned⟩ := Traced.result_bind_eq_some.mp reported
          cases returned
          rw [List.map_cons, field_of_reportRound made, ih ahead.step loop]
          rfl

/-- The rounds are all honest exactly if nothing fails. -/
theorem honest_iff_of_reportFrom {entries before : List FieldEntry} {dest : OmnmPayloadImpl}
    {iter : OmnmIterImpl} {state last : ApplyState} {fuel : Nat} {rounds : List ReportedRound}
    (ahead : Ahead src iter entries) (follows : state.Follows memory src scratch before dest)
    (reported : (reportFrom memory src fuel iter state).result = some (rounds, last)) :
    (∀ round ∈ rounds, round.Honest memory src) ↔
      NothingFails memory scratch (src.mPayloadBuffer.drop src.mPayloadBufferTail) before dest
        entries := by
  induction fuel generalizing iter entries before dest state rounds with
  | zero => cases reported
  | succ fuel ih =>
      cases entries with
      | nil =>
          rw [reportFrom, ahead.next_nil, Traced.result_bind, Traced.result_pure,
            Option.bind_some] at reported
          cases reported
          exact iff_of_true (List.forall_mem_nil _) trivial
      | cons entry entries =>
          rw [reportFrom, Traced.result_bind, ahead.next, Option.bind_some] at reported
          obtain ⟨⟨first, next⟩, made, reported⟩ := Traced.result_bind_eq_some.mp reported
          obtain ⟨⟨others, final⟩, loop, returned⟩ := Traced.result_bind_eq_some.mp reported
          cases returned
          have here := ahead.drop_all
          rw [encodeAll_cons, List.append_assoc] at here
          obtain ⟨honest, updates⟩ := honest_iff_of_reportRound here iter.mField.mData
            (ahead.fits entry List.mem_cons_self) follows made
          rw [List.forall_mem_cons, NothingFails, ← and_assoc, ← honest]
          refine and_congr_right fun goesOn => ?_
          -- the rounds behind start from the destination that this one updated
          obtain ⟨after, updated, followsOn⟩ := updates goesOn
          rw [ih ahead.step followsOn loop]
          refine ⟨fun rest other same => ?_, fun rest => rest _ updated⟩
          cases updated.symm.trans same
          exact rest

end

/-- A call of `omnmmsgPayload_apply` that returns makes a round for each field of the source, and
returns OK. It hides no failure exactly if every field has something to hand on and the destination,
with the fields in front of it put into it, takes it. -/
theorem apply_hides_no_failure_iff [FieldTypeTags] [MamaLibrary] {memory : ApplyMemory}
    {dest src : OmnmPayloadImpl} {source : Message} (origin : src.Represents source)
    {rounds : List ReportedRound} {status : MamaStatus} {next : OmnmPayloadImpl}
    (reported : (omnmmsgPayload_applyReported memory dest src).result =
      some (rounds, status, next)) :
    (omnmmsgPayload_apply memory dest src).result = some (status, next) ∧ status = .ok ∧
      (iterateFields src).result.map Prod.fst = some (rounds.map ReportedRound.field) ∧
      (HidesNoFailure memory src rounds status ↔
        NothingFails memory dest.mBuffer (src.mPayloadBuffer.drop src.mPayloadBufferTail) [] dest
          source.entries) := by
  have erased : (omnmmsgPayload_apply memory dest src).result = some (status, next) := by
    rw [apply_eq_reported, Traced.result_map, reported]
    rfl
  obtain ⟨iter, started, loop⟩ := Traced.result_bind_eq_some.mp reported
  cases origin.decodes.init.symm.trans started
  obtain ⟨⟨made, last⟩, looped, returned⟩ := Traced.result_bind_eq_some.mp loop
  cases returned
  have fields := fields_of_reportFrom origin.decodes.ahead looped
  have each := honest_iff_of_reportFrom origin.decodes.ahead
    (ApplyState.Follows.start memory src dest) looped
  rw [fieldHandles_startIter] at fields
  obtain ⟨final, iterated⟩ := origin.decodes.iterateFields
  refine ⟨erased, rfl, by rw [iterated, fields]; rfl, ?_⟩
  rw [← each]
  exact ⟨fun hides => hides rfl, fun all _ => all⟩

section Example

attribute [local instance] mamaFieldTypes
attribute [local instance] plainLibrary

/-- A nested message, and behind it one of a later version. -/
def laterVersion : Message :=
  (oneField .msg [79, 1, 0] (by decide)).append
    ⟨mamaFieldTypeNumber .msg, 2, CString.empty, [79, 9, 0]⟩ (by decide)

/-- Two messages, and between them two vectors of strings, of which the second has no NUL. -/
def messagesAndStrings : Message :=
  (((oneField .msg [79, 1, 0] (by decide)).append
    ⟨mamaFieldTypeNumber .vectorString, 2, CString.empty, [68, 0, 69, 0]⟩ (by decide)).append
    ⟨mamaFieldTypeNumber .vectorString, 4, CString.empty, [70]⟩ (by decide)).append
    ⟨mamaFieldTypeNumber .msg, 3, CString.empty, [79, 1, 1, 7]⟩ (by decide)

/-- A vector of strings under the key of the one without a NUL. -/
def heldStrings : Message :=
  Message.empty.append ⟨mamaFieldTypeNumber .vectorString, 4, CString.empty, [67, 71, 0]⟩
    (by decide)

theorem messagesAndStrings_hide_no_failure :
    ∃ rounds next, (omnmmsgPayload_applyReported plainMemory heldStrings.payload
        messagesAndStrings.payload).result = some (rounds, .ok, next) ∧ rounds.length = 4 ∧
      HidesNoFailure plainMemory messagesAndStrings.payload rounds .ok := by
  have ran : (omnmmsgPayload_applyReported plainMemory heldStrings.payload
      messagesAndStrings.payload).result.map (fun answer => (answer.1.length, answer.2.1)) =
        some (4, .ok) := by
    decide +kernel
  obtain ⟨⟨rounds, status, next⟩, reported, same⟩ := Option.map_eq_some_iff.mp ran
  obtain ⟨length, rfl⟩ := Prod.mk.inj same
  obtain ⟨-, -, -, hides⟩ :=
    apply_hides_no_failure_iff (Message.payload_represents _) reported
  exact ⟨rounds, next, reported, length, hides.mpr (by decide +kernel)⟩

/-- The message of a later version is rejected, the one in front of it is written again, and
`omnmmsgPayload_apply` returns OK. -/
theorem rejected_message_writes_earlier :
    ∃ rounds next, (omnmmsgPayload_applyReported plainMemory newPayload
        laterVersion.payload).result = some (rounds, .ok, next) ∧
      rounds.map ReportedRound.report = [some ⟨.ok, .ok⟩, some ⟨.wrongFieldType, .ok⟩] ∧
      ¬ HidesNoFailure plainMemory laterVersion.payload rounds .ok ∧
      laterVersion.payload.decodedFields.map (List.map FieldValue.data) =
        some [[79, 1, 0], [79, 9, 0]] ∧
      next.decodedFields.map (List.map FieldValue.data) = some [[79, 1, 0], [79, 1, 0]] := by
  have ran : (omnmmsgPayload_applyReported plainMemory newPayload laterVersion.payload).result.map
      (fun answer => (answer.1.map ReportedRound.report, answer.2.1,
        answer.2.2.decodedFields.map (List.map FieldValue.data))) =
      some ([some ⟨.ok, .ok⟩, some ⟨.wrongFieldType, .ok⟩], .ok,
        some [[79, 1, 0], [79, 1, 0]]) := by
    decide +kernel
  obtain ⟨⟨rounds, status, next⟩, reported, same⟩ := Option.map_eq_some_iff.mp ran
  obtain ⟨reports, rest⟩ := Prod.mk.inj same
  obtain ⟨ok, fields⟩ := Prod.mk.inj rest
  cases ok
  refine ⟨rounds, next, reported, reports, ?_, by decide +kernel, fields⟩
  intro hides
  have member : some ⟨.wrongFieldType, .ok⟩ ∈ rounds.map ReportedRound.report :=
    reports ▸ List.mem_cons_of_mem _ List.mem_cons_self
  obtain ⟨round, inside, report⟩ := List.mem_map.mp member
  cases report.symm.trans (hides rfl round inside).statuses

end Example

end Omnm
