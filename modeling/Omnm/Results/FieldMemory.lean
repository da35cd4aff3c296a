import Mathlib.Data.List.ReduceOption
import Omnm.Payload.KeptGetters
import Omnm.Runs.Runs
import Omnm.Wire.Values

/-!
# Values and blocks of a field in step

What the getters keep in a field was modelled by its values (`FieldResults`) and
by its blocks (`FieldMemory`). Over any run of getters through one field, on
payloads that change in between, both have the same shape: there is a block for
a sub-payload exactly if there is a sub-payload, the arrays are as long, and the
same entries of them are NULL (`blocks_follow_values`).

The field of the iterator of `omnmmsgPayload_apply` is one of these: what a call
leaves in it is what the getters of `omnmmsgPayload_applyGetters` leave
(`apply_keeps_by_getters`).
-/

set_option autoImplicit false

namespace Omnm

open PayloadMemory

variable {memory : GetterMemory} {msg : OmnmPayloadImpl} {field : OmnmFieldImpl}
  {results next : FieldResults}

/-! ## Sub-payloads -/

/-- Bytes that a sub-payload was asked to take in were given to it. -/
theorem exists_givenBytes_of_fillSubPayload {sub filled : Option OmnmPayloadImpl}
    {bytes : List UInt8} {length : Nat} {status : MamaStatus} (moves : Bool)
    (fills : (fillSubPayload memory sub bytes length).result = some (status, filled)) :
    ∃ given, (givenBytes msg bytes length moves).result = some given ∧
      filled.isSome = (sub.isSome || given.length ≠ 0) := by
  by_cases nothing : length = 0
  · subst nothing
    cases (fillSubPayload_zero memory sub bytes).symm.trans fills
    exact ⟨⟨0, false, moves⟩, rfl, by simp⟩
  · rw [fillSubPayload_of_ne_zero memory sub bytes nothing, omnmmsgPayload_unSerialize,
      if_neg nothing, Traced.result_bind] at fills
    obtain ⟨⟨_, taken⟩, unserialized, same⟩ := Option.map_eq_some_iff.mp fills
    obtain ⟨header, loaded, -⟩ := Option.bind_eq_some_iff.mp unserialized
    cases same
    refine ⟨⟨length, decide (header.mWireFormatVersion ≤ omnmProtocolVersion), moves⟩, ?_, ?_⟩
    · have read : (loadHeader msg (.other bytes)).result = some header := loaded
      rw [givenBytes, if_neg nothing, Traced.result_bind, read]
      rfl
    · simp [nothing]

/-! ## Arrays -/

theorem map_isSome_growArray {Entry : Type} (arrays : memory.arrays = true)
    (array : List (Option Entry)) (count : Nat) :
    (memory.growArray array none count).map Option.isSome =
      growShape (array.map Option.isSome) count := by
  rw [GetterMemory.growArray, if_pos arrays]
  simp [growShape]

theorem fillShape_replicate {count : Nat} {entries : List Bool} (enough : count ≤ entries.length) :
    fillShape (List.replicate count true) entries =
      List.replicate count true ++ entries.drop count := by
  induction count generalizing entries with
  | zero => rfl
  | succ count ih =>
      cases entries with
      | nil => cases enough
      | cons entry entries =>
          rw [List.replicate_succ, fillShape, ih (Nat.le_of_succ_le_succ enough), Bool.or_true]
          rfl

theorem length_loadRecords {bytes : List UInt8} {width count offset : Nat}
    {records : List (List UInt8)}
    (loads : (loadRecords bytes width count offset).result = some records) :
    records.length = count := by
  induction count generalizing offset records with
  | zero =>
      cases loads
      rfl
  | succ count ih =>
      rw [loadRecords, Traced.result_bind] at loads
      obtain ⟨record, -, rest⟩ := Option.bind_eq_some_iff.mp loads
      rw [Traced.result_bind] at rest
      obtain ⟨others, later, same⟩ := Option.bind_eq_some_iff.mp rest
      cases same
      rw [List.length_cons, ih later]

/-- The getters of date-times and prices make the entries that they need. -/
theorem map_isSome_getVectorRecords {Entry : Type} {width : Nat} {convert : List UInt8 → Entry}
    {kept array : List (Option Entry)} {count : Nat} (arrays : memory.arrays = true)
    (reads : (getVectorRecords memory msg field kept width convert).result = some (array, count)) :
    array.map Option.isSome = fillShape (List.replicate (field.mSize / width) true)
      (growShape (kept.map Option.isSome) (field.mSize / width)) := by
  have grown := map_isSome_growArray arrays kept (field.mSize / width)
  dsimp only [getVectorRecords] at reads
  by_cases nothing : field.mSize / width = 0
  · rw [if_pos nothing] at reads
    cases reads
    rw [grown, nothing]
    rfl
  · rw [if_neg nothing, Traced.result_bind] at reads
    obtain ⟨data, -, reads⟩ := Option.bind_eq_some_iff.mp reads
    rw [Traced.result_bind] at reads
    obtain ⟨records, loaded, reads⟩ := Option.bind_eq_some_iff.mp reads
    have length := length_loadRecords loaded
    split at reads
    · cases reads
    · rename_i enough
      cases reads
      have filled : (records.map fun record => some (convert record)).map Option.isSome =
          List.replicate records.length true := by
        rw [List.map_map]
        exact List.map_const' ..
      rw [← grown, fillShape_replicate (by rw [List.length_map]; omega), List.map_append, filled,
        length, List.map_drop]

/-- An entry that is filled belongs to those that are done. -/
theorem taken_step {array : List (Option OmnmPayloadImpl)} {sub filled : Option OmnmPayloadImpl}
    {j : Nat} {made : Bool} {later : List Bool} (entry : array[j]? = some sub)
    (there : filled.isSome = (sub.isSome || made)) :
    ((array.set j filled).map Option.isSome).take (j + 1) ++
        fillShape later (((array.set j filled).map Option.isSome).drop (j + 1)) =
      (array.map Option.isSome).take j ++
        fillShape (made :: later) ((array.map Option.isSome).drop j) := by
  obtain ⟨inside, here⟩ := List.getElem?_eq_some_iff.mp entry
  rw [← List.length_map Option.isSome] at inside
  have ahead : (array.map Option.isSome).drop j =
      sub.isSome :: (array.map Option.isSome).drop (j + 1) := by
    rw [List.drop_eq_getElem_cons inside, List.getElem_map, here]
  have behind : ((array.map Option.isSome).set j filled.isSome).take (j + 1) =
      (array.map Option.isSome).take j ++ [filled.isSome] := by
    rw [List.set_eq_take_append_cons_drop, if_pos inside, List.append_cons]
    exact List.take_left' (by simpa using Nat.le_of_lt inside)
  rw [List.map_set, behind, List.drop_set_of_lt (Nat.lt_succ_self j), ahead, fillShape, ← there,
    List.append_assoc]
  rfl

/-- The loop over a vector of messages takes in what it is given, which it counted before. -/
theorem takeInMessages_given {moves : Nat → Bool} {data size rounds i j : Nat}
    {status status' : MamaStatus} {array taken : List (Option OmnmPayloadImpl)}
    (takes : (takeInMessages memory msg.mPayloadBuffer data size rounds i j status array).result =
      some (status', taken)) :
    ∃ messages, (givenMessages moves msg data size rounds i j).result = some messages ∧
      (countMessages msg.mPayloadBuffer data size rounds i).result = some messages.length ∧
      taken.map Option.isSome = (array.map Option.isSome).take j ++
        fillShape (messages.map fun given => given.length ≠ 0)
          ((array.map Option.isSome).drop j) := by
  induction rounds generalizing i j status array with
  | zero => cases takes
  | succ rounds ih =>
      rw [takeInMessages] at takes
      by_cases ended : size ≤ i
      · rw [if_pos ended] at takes
        cases takes
        refine ⟨[], ?_, ?_, ?_⟩
        · rw [givenMessages, if_pos ended]
          rfl
        · rw [countMessages, if_pos ended]
          rfl
        · exact (List.take_append_drop j _).symm
      · rw [if_neg ended, Traced.result_bind] at takes
        obtain ⟨payloadLen, loaded, takes⟩ := Option.bind_eq_some_iff.mp takes
        split at takes
        · cases takes
        · rename_i sub entry
          rw [Traced.result_bind] at takes
          obtain ⟨⟨filledStatus, filled⟩, fills, takes⟩ := Option.bind_eq_some_iff.mp takes
          obtain ⟨given, gives, there⟩ :=
            @exists_givenBytes_of_fillSubPayload _ msg _ _ _ _ _ (moves j) fills
          obtain ⟨messages, later, counted, same⟩ := ih takes
          refine ⟨given :: messages, ?_, ?_, ?_⟩
          · rw [givenMessages, if_neg ended]
            simp only [Traced.result_bind, loaded, Option.bind_some, gives, later,
              Traced.result_pure]
          · rw [countMessages, if_neg ended]
            simp only [Traced.result_bind, loaded, Option.bind_some, counted, Traced.result_pure,
              List.length_cons]
          · rw [same]
            exact taken_step entry there

/-! ## One getter -/

section

variable [FieldTypeTags]

theorem shape_of_getMsg {status : MamaStatus} {sub : Option OmnmPayloadImpl} {moves : Nat → Bool}
    (reads : (omnmmsgFieldPayload_getMsg memory msg field results).result =
      some (status, sub, next)) :
    ∃ getter, (keptGetter moves msg field .getMsg).result = some getter ∧
      next.shape = getter.elim results.shape (FieldGetter.onShape results.shape) := by
  rw [omnmmsgFieldPayload_getMsg] at reads
  rw [keptGetter]
  by_cases null : field.mData = .null
  · rw [if_pos null] at reads ⊢
    cases reads
    exact ⟨none, rfl, rfl⟩
  · by_cases wrong : field.mFieldType ≠ FieldTypeTags.tag .msg
    · rw [if_neg null, if_pos wrong] at reads ⊢
      cases reads
      exact ⟨none, rfl, rfl⟩
    · rw [if_neg null, if_neg wrong, Traced.result_bind] at reads ⊢
      obtain ⟨data, located, reads⟩ := Option.bind_eq_some_iff.mp reads
      rw [Traced.result_bind] at reads
      obtain ⟨⟨filledStatus, filled⟩, fills, reads⟩ := Option.bind_eq_some_iff.mp reads
      cases reads
      obtain ⟨given, gives, there⟩ :=
        @exists_givenBytes_of_fillSubPayload _ msg _ _ _ _ _ (moves 0) fills
      refine ⟨some (.getMsg given), ?_, ?_⟩
      · simp only [located, Option.bind_some, Traced.result_bind, gives, Traced.result_pure]
      · simp [FieldResults.shape, FieldGetter.onShape, there]

theorem shape_of_getVectorString {status : MamaStatus} {array : List BufferPtr × Nat}
    {moves : Nat → Bool} (arrays : memory.arrays = true)
    (reads : (omnmmsgFieldPayload_getVectorString memory msg field results).result =
      some (status, array, next)) :
    ∃ getter, (keptGetter moves msg field .getVectorString).result = some getter ∧
      next.shape = getter.elim results.shape (FieldGetter.onShape results.shape) := by
  rw [omnmmsgFieldPayload_getVectorString] at reads
  rw [keptGetter]
  by_cases nothing : field.mSize = 0
  · rw [if_pos nothing] at reads ⊢
    cases reads
    exact ⟨some (.getVectorString (moves 0) 0), rfl, by simp [FieldGetter.onShape]⟩
  · rw [if_neg nothing, Traced.result_bind] at reads ⊢
    obtain ⟨data, located, reads⟩ := Option.bind_eq_some_iff.mp reads
    rw [Traced.result_bind] at reads
    obtain ⟨bytes, loaded, reads⟩ := Option.bind_eq_some_iff.mp reads
    rw [Traced.result_bind] at reads
    obtain ⟨strings, -, reads⟩ := Option.bind_eq_some_iff.mp reads
    refine ⟨some (.getVectorString (moves 0) (sizeofPointer * bytes.count 0)), ?_, ?_⟩
    · simp only [located, Option.bind_some, Traced.result_bind, loaded, Traced.result_pure]
    · split at reads
      · cases reads
      · rename_i enough
        cases reads
        rw [GetterMemory.growArray, if_pos arrays] at enough
        simp only [FieldResults.shape, FieldGetter.onShape, Option.elim, KeptShape.mk.injEq, true_and,
          and_true, GetterMemory.growArray, if_pos arrays]
        simp only [List.length_append, List.length_drop, List.length_replicate, sizeofPointer]
          at enough ⊢
        omega

theorem shape_of_getVectorMsg {status : MamaStatus} {array : List (Option OmnmPayloadImpl) × Nat}
    {moves : Nat → Bool} (arrays : memory.arrays = true)
    (reads : (omnmmsgFieldPayload_getVectorMsg memory msg field results).result =
      some (status, array, next)) :
    ∃ getter, (keptGetter moves msg field .getVectorMsg).result = some getter ∧
      next.shape = getter.elim results.shape (FieldGetter.onShape results.shape) := by
  rw [omnmmsgFieldPayload_getVectorMsg] at reads
  rw [keptGetter]
  by_cases nothing : field.mSize = 0
  · rw [if_pos nothing] at reads ⊢
    cases reads
    exact ⟨some (.getVectorMsg (moves 0) []), rfl, by
      simp [FieldGetter.onShape, growShape, fillShape]⟩
  · rw [if_neg nothing, Traced.result_bind] at reads ⊢
    obtain ⟨data, located, reads⟩ := Option.bind_eq_some_iff.mp reads
    rw [Traced.result_bind] at reads
    obtain ⟨msgCount, counted, reads⟩ := Option.bind_eq_some_iff.mp reads
    rw [Traced.result_bind] at reads
    obtain ⟨⟨takenStatus, taken⟩, takes, reads⟩ := Option.bind_eq_some_iff.mp reads
    cases reads
    obtain ⟨messages, gives, counted', same⟩ := @takeInMessages_given _ _ moves _ _ _ _ _ _ _ _ _ takes
    cases counted.symm.trans counted'
    refine ⟨some (.getVectorMsg (moves 0) messages), ?_, ?_⟩
    · simp only [located, Option.bind_some, Traced.result_bind, gives, Traced.result_pure]
    · simp only [FieldResults.shape, FieldGetter.onShape, Option.elim, same, List.take_zero,
        List.drop_zero, List.nil_append, map_isSome_growArray arrays]

/-- A getter that returns leaves the values in the shape that it should. -/
theorem KeptCall.shape_of_perform {call : KeptCall} (moves : Nat → Bool)
    (arrays : call.memory.arrays = true) (performs : (call.perform results).result = some next) :
    ∃ getter, (keptGetter moves call.msg call.field call.read).result = some getter ∧
      next.shape = getter.elim results.shape (FieldGetter.onShape results.shape) := by
  cases call with
  | mk read memory msg field =>
      cases read with
      | getMsg =>
          rw [KeptCall.perform, Traced.result_bind] at performs
          obtain ⟨⟨status, sub, kept⟩, reads, same⟩ := Option.bind_eq_some_iff.mp performs
          cases same
          exact shape_of_getMsg reads
      | getVectorString =>
          rw [KeptCall.perform, Traced.result_bind] at performs
          obtain ⟨⟨status, array, kept⟩, reads, same⟩ := Option.bind_eq_some_iff.mp performs
          cases same
          exact shape_of_getVectorString arrays reads
      | getVectorDateTime =>
          rw [KeptCall.perform, Traced.result_bind] at performs
          obtain ⟨⟨status, array, kept⟩, reads, same⟩ := Option.bind_eq_some_iff.mp performs
          cases same
          rw [omnmmsgFieldPayload_getVectorDateTime, Traced.result_bind] at reads
          obtain ⟨⟨array, count⟩, records, same⟩ := Option.bind_eq_some_iff.mp reads
          cases same
          refine ⟨some (.getVectorDateTime (moves 0) (field.mSize / sizeofOmnmDateTime)), rfl, ?_⟩
          simp only [FieldResults.shape, FieldGetter.onShape, Option.elim,
            map_isSome_getVectorRecords arrays records]
      | getVectorPrice =>
          rw [KeptCall.perform, Traced.result_bind] at performs
          obtain ⟨⟨status, array, kept⟩, reads, same⟩ := Option.bind_eq_some_iff.mp performs
          cases same
          rw [omnmmsgFieldPayload_getVectorPrice, Traced.result_bind] at reads
          obtain ⟨⟨array, count⟩, records, same⟩ := Option.bind_eq_some_iff.mp reads
          cases same
          refine ⟨some (.getVectorPrice (moves 0) (field.mSize / sizeofOmnmPrice)), rfl, ?_⟩
          simp only [FieldResults.shape, FieldGetter.onShape, Option.elim,
            map_isSome_getVectorRecords arrays records]
      | getVectorMsg =>
          rw [KeptCall.perform, Traced.result_bind] at performs
          obtain ⟨⟨status, array, kept⟩, reads, same⟩ := Option.bind_eq_some_iff.mp performs
          cases same
          exact shape_of_getVectorMsg arrays reads

/-! ## Runs -/

/-- A field as a system of getters. -/
def keptStep (results : FieldResults) (call : KeptCall) : Option (Unit × FieldResults) :=
  (call.perform results).result.map fun next => ((), next)

/-- What getters do to the blocks of a field, one after another. -/
def FieldMemory.performAll (mField : FieldMemory PayloadMemory) (getters : List FieldGetter) :
    HeapAction (FieldMemory PayloadMemory) :=
  getters.foldlM (fun mField getter => getter.perform mField) mField

omit [FieldTypeTags] in
/-- Getters leave the blocks in the shape that they should, one after another. -/
theorem trades_performAll (getters : List FieldGetter) (mField : FieldMemory PayloadMemory) :
    Trades (fieldBlocks mField) (mField.performAll getters) fun kept owned =>
      owned = fieldBlocks kept ∧ kept.shape = getters.foldl FieldGetter.onShape mField.shape := by
  induction getters generalizing mField with
  | nil => exact trades_pure ⟨rfl, rfl⟩
  | cons getter getters ih =>
      rw [FieldMemory.performAll, List.foldlM_cons, List.foldl_cons]
      refine ((trades_getter getter mField).ends (ends_getter getter mField)).bind ?_
      rintro changed - ⟨⟨rfl, -⟩, shape⟩
      rw [← shape]
      exact ih changed

/-- A run of getters leaves the values in the shape that they should. -/
theorem shape_of_run (moves : KeptCall → Nat → Bool) {calls : List KeptCall} {last : FieldResults}
    {outs : List Unit} (arrays : ∀ call ∈ calls, call.memory.arrays = true)
    (ran : run keptStep results calls = some (outs, last)) :
    ∃ gotten, List.Forall₂ (fun call getter =>
        (keptGetter (moves call) call.msg call.field call.read).result = some getter) calls gotten ∧
      last.shape = gotten.reduceOption.foldl FieldGetter.onShape results.shape := by
  induction calls generalizing results outs with
  | nil =>
      cases ran
      exact ⟨[], .nil, rfl⟩
  | cons call calls ih =>
      obtain ⟨out, next, rest, stepped, ranRest, -⟩ := run_cons_eq_some ran
      obtain ⟨kept, performed, keeps⟩ := Option.map_eq_some_iff.mp stepped
      cases keeps
      obtain ⟨getter, asked, shape⟩ := KeptCall.shape_of_perform (moves call)
        (arrays call List.mem_cons_self) performed
      obtain ⟨gotten, read, later⟩ :=
        ih (fun other member => arrays other (List.mem_cons_of_mem _ member)) ranRest
      refine ⟨getter :: gotten, .cons asked read, ?_⟩
      rw [later, shape]
      cases getter with
      | none => rfl
      | some getter => rfl

/-- Over a run of getters, the blocks of a field stay in the shape of its values. -/
theorem blocks_follow_values (moves : KeptCall → Nat → Bool) {calls : List KeptCall}
    {last : FieldResults} {outs : List Unit}
    (arrays : ∀ call ∈ calls, call.memory.arrays = true)
    (ran : run keptStep results calls = some (outs, last)) :
    ∃ gotten, List.Forall₂ (fun call getter =>
        (keptGetter (moves call) call.msg call.field call.read).result = some getter) calls gotten ∧
      ∀ mField : FieldMemory PayloadMemory, mField.shape = results.shape →
        Trades (fieldBlocks mField) (mField.performAll gotten.reduceOption) fun kept owned =>
          owned = fieldBlocks kept ∧ kept.shape = last.shape := by
  obtain ⟨gotten, read, shape⟩ := shape_of_run moves arrays ran
  refine ⟨gotten, read, ?_⟩
  intro mField same
  rw [shape, ← same]
  exact trades_performAll gotten.reduceOption mField

/-! ## The getters of `omnmmsgPayload_apply` -/

section

variable [MamaLibrary] {apply : ApplyMemory} {src dest after : OmnmPayloadImpl}
  {name : Option CString} {moves : OmnmFieldImpl → Bool}

omit [FieldTypeTags] [MamaLibrary] in
theorem eq_of_keeping {updated : Mutated}
    (kept : (do let (_, dest) ← updated
                pure (dest, results) : Traced Region (OmnmPayloadImpl × FieldResults)).result =
      some (after, next)) : next = results := by
  rw [Traced.result_bind] at kept
  obtain ⟨updated, -, same⟩ := Option.bind_eq_some_iff.mp kept
  cases same
  rfl

/-- The `switch` keeps what its getter keeps. -/
theorem shape_of_applyField (arrays : apply.getter.arrays = true)
    (applied : (applyField apply src field dest name results).result = some (after, next)) :
    ∃ getter, (appliedGetter moves src field).result = some getter ∧
      next.shape = getter.elim results.shape (FieldGetter.onShape results.shape) := by
  rw [applyField] at applied
  rw [appliedGetter]
  cases named : fieldTypeOf field.mFieldType with
  | none =>
      simp only [named] at applied
      cases applied
      exact ⟨none, rfl, rfl⟩
  | some type =>
      simp only [named] at applied
      cases type with
      | msg =>
          simp only [applyMsg, Traced.result_bind] at applied
          obtain ⟨⟨status, sub, kept⟩, reads, later⟩ := Option.bind_eq_some_iff.mp applied
          obtain ⟨updated, -, same⟩ := Option.bind_eq_some_iff.mp later
          cases same
          exact shape_of_getMsg reads
      | vectorString =>
          simp only [applyVectorString, Traced.result_bind] at applied
          obtain ⟨⟨status, array, kept⟩, reads, later⟩ := Option.bind_eq_some_iff.mp applied
          obtain ⟨value, -, later⟩ := Option.bind_eq_some_iff.mp later
          obtain ⟨updated, -, same⟩ := Option.bind_eq_some_iff.mp later
          cases same
          exact shape_of_getVectorString arrays reads
      | vectorMsg | vectorPrice | vectorTime | quantity | unknown | collection =>
          cases applied
          exact ⟨none, rfl, rfl⟩
      | _ =>
          rw [eq_of_keeping applied]
          exact ⟨none, rfl, rfl⟩

/-- The loop keeps what its getters keep. -/
theorem shape_of_applyFrom (arrays : apply.getter.arrays = true) {rounds : Nat}
    {iter : OmnmIterImpl} {state last : ApplyState}
    (applied : (applyFrom apply src rounds iter state).result = some last) :
    ∃ getters, (applyGettersFrom moves src rounds iter).result = some getters ∧
      last.results.shape = getters.foldl FieldGetter.onShape state.results.shape := by
  induction rounds generalizing iter state with
  | zero => cases applied
  | succ rounds ih =>
      rw [applyFrom, Traced.result_bind] at applied
      obtain ⟨⟨field, iter⟩, yielded, applied⟩ := Option.bind_eq_some_iff.mp applied
      rw [applyGettersFrom]
      simp only [Traced.result_bind, yielded, Option.bind_some]
      cases field with
      | none =>
          cases applied
          exact ⟨[], rfl, rfl⟩
      | some field =>
          rw [Traced.result_bind] at applied
          obtain ⟨state', round, applied⟩ := Option.bind_eq_some_iff.mp applied
          obtain ⟨getters, later, shape⟩ := ih applied
          simp only [applyRound, Traced.result_bind] at round
          obtain ⟨written, -, round⟩ := Option.bind_eq_some_iff.mp round
          obtain ⟨name, -, round⟩ := Option.bind_eq_some_iff.mp round
          obtain ⟨⟨dest, kept⟩, switched, same⟩ := Option.bind_eq_some_iff.mp round
          cases same
          obtain ⟨getter, asked, first⟩ := @shape_of_applyField _ _ _ _ _ _ _ _ _ _ moves arrays switched
          refine ⟨getter.toList ++ getters, ?_, ?_⟩
          · simp only [Traced.result_bind, asked, later, Option.bind_some, Traced.result_pure]
          · rw [shape, List.foldl_append]
            cases getter with
            | none => rw [first]; rfl
            | some getter => rw [first]; rfl

/-- What a call of `omnmmsgPayload_apply` leaves in the field of its iterator has the shape of the
blocks that its getters leave there. -/
theorem apply_keeps_by_getters (arrays : apply.getter.arrays = true) {status : MamaStatus}
    (applied : (omnmmsgPayload_apply apply dest src).result = some (status, after)) :
    ∃ iter last getters, (omnmmsgPayloadIterImpl_init src).result = some iter ∧
      (applyFrom apply src (iterationBound src) iter ⟨dest, .null, FieldResults.none⟩).result =
        some last ∧
      (omnmmsgPayload_applyGetters moves src).result = some getters ∧
      Trades 0 (FieldMemory.none.performAll getters) fun kept owned =>
        owned = fieldBlocks kept ∧ kept.shape = last.results.shape := by
  rw [omnmmsgPayload_apply, Traced.result_bind] at applied
  obtain ⟨iter, begun, applied⟩ := Option.bind_eq_some_iff.mp applied
  rw [Traced.result_bind] at applied
  obtain ⟨last, looped, -⟩ := Option.bind_eq_some_iff.mp applied
  obtain ⟨getters, collected, shape⟩ := @shape_of_applyFrom _ _ _ _ moves arrays _ _ _ _ looped
  refine ⟨iter, last, getters, begun, looped, ?_, ?_⟩
  · rw [omnmmsgPayload_applyGetters, Traced.result_bind, begun, Option.bind_some, collected]
  · rw [shape]
    exact trades_performAll getters FieldMemory.none

end

end

section Example

attribute [local instance] mamaFieldTypes

/-- A payload with a vector of two strings. -/
def twoStringsPayload : OmnmPayloadImpl :=
  { newPayload with
    mPayloadBuffer := [79, 1, 0, mamaFieldTypeNumber .vectorString, 3, 0, 0, 3, 0, 0, 0, 97, 0, 0]
    mPayloadBufferTail := 14 }

/-- A getter on its field. -/
def twoStringsCall (read : KeptRead) : KeptCall :=
  ⟨read, ⟨Allocator.zeroing, true⟩, twoStringsPayload,
    ⟨mamaFieldTypeNumber .vectorString, 3, .null, 3, .offset 11⟩⟩

theorem two_strings_are_kept :
    ∃ getters : List FieldGetter,
      Trades 0 (FieldMemory.none.performAll getters) fun kept owned =>
        owned = fieldBlocks kept ∧ kept.shape = ⟨false, 16, [], [], []⟩ := by
  have shape : (run keptStep FieldResults.none [twoStringsCall .getVectorString,
      twoStringsCall .getMsg, twoStringsCall .getVectorPrice]).map (fun ended => ended.2.shape) =
        some ⟨false, 16, [], [], []⟩ := by
    decide +kernel
  obtain ⟨⟨outs, last⟩, ran, kept⟩ := Option.map_eq_some_iff.mp shape
  obtain ⟨gotten, -, trades⟩ := blocks_follow_values (fun _ _ => false) (by decide) ran
  refine ⟨gotten.reduceOption, ?_⟩
  rw [← kept, ← fieldBlocks_eq_zero_iff.mpr rfl]
  exact trades FieldMemory.none rfl

end Example

end Omnm
