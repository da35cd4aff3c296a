import Omnm.Payload.Apply

/-!
# What the getters and updaters of `omnmmsgPayload_apply` report

`omnmmsgPayload_apply` told again with the statuses that it does not look at: in
each round, that of the getter and that of the updater, or none when the `switch`
passes over the type of the field. Without these the call is `omnmmsgPayload_apply`
as a computation: it makes the same accesses in the same order, with the same result
(`apply_eq_reported`).
-/

set_option autoImplicit false

namespace Omnm

/-- The statuses of a getter and of the updater behind it. -/
structure ApplyReport where
  read : MamaStatus
  update : MamaStatus
  deriving DecidableEq, Repr

/-- What a case of the `switch` does: what it reports, the destination, and what the
iterator's field keeps. -/
abbrev ReportedCase := Traced Region (Option ApplyReport × OmnmPayloadImpl × FieldResults)

/-- A case: a getter, and an updater with what the getter gives. -/
def reporting {Value : Type} (read : Traced Region (MamaStatus × Value × FieldResults))
    (update : Value → Mutated) : ReportedCase := do
  let (readStatus, value, results) ← read
  let (updateStatus, dest) ← update value
  pure (some ⟨readStatus, updateStatus⟩, dest, results)

/-- A getter that keeps nothing. -/
def keepingResults {Value : Type} (results : FieldResults)
    (read : Traced Region (MamaStatus × Value)) :
    Traced Region (MamaStatus × Value × FieldResults) := do
  let (status, value) ← read
  pure (status, value, results)

/-- A round: the state it starts from, the field, the name it takes, and the statuses. -/
structure ReportedRound where
  before : ApplyState
  field : OmnmFieldImpl
  name : Option CString
  report : Option ApplyReport

variable [FieldTypeTags] [MamaLibrary]

section

variable (memory : ApplyMemory) (src : OmnmPayloadImpl) (field : OmnmFieldImpl)
  (dest : OmnmPayloadImpl) (name : Option CString) (results : FieldResults)

/-- `APPLY_SCALAR_FIELD`. -/
def reportScalar (get : ScalarGetter) (update : Mutator Nat) : ReportedCase :=
  reporting (keepingResults results (get src field)) fun result =>
    update memory.update dest name field.mFid (result.getD memory.uninitialised)

omit [FieldTypeTags] [MamaLibrary] in
/-- `UPDATE_VECTOR_FIELD`. -/
def reportVector (size : Nat) (get : VectorGetter) (update : Mutator (Option (List Nat))) :
    ReportedCase :=
  reporting (keepingResults results (pure (get field))) fun (result, count) => do
    let bytes ← loadBytesArgument src result (count * size)
    let value := bytes.map fun bytes =>
      (List.range count).map fun index => littleEndianValue (slice bytes (index * size) size)
    update memory.update dest name field.mFid value

omit [MamaLibrary] in
def reportString : ReportedCase :=
  reporting (keepingResults results (omnmmsgFieldPayload_getString src field)) fun result => do
    let str ← loadStringArgument src (result.getD .null)
    omnmmsgPayload_updateString memory.update dest name field.mFid str

omit [MamaLibrary] in
def reportOpaque : ReportedCase :=
  reporting (keepingResults results (omnmmsgFieldPayload_getOpaque src field)) fun result => do
    let (data, size) := result.getD (.null, 0)
    let bytes ← loadBytesArgument src data size
    omnmmsgPayload_updateOpaque memory.update dest name field.mFid bytes

def reportDateTime : ReportedCase :=
  reporting (keepingResults results (omnmmsgFieldPayload_getDateTime src field)) fun result =>
    omnmmsgPayload_updateDateTime memory.update dest name field.mFid
      (some (result.getD ⟨0, 0, 0, 0⟩))

def reportPrice : ReportedCase :=
  reporting (keepingResults results (omnmmsgFieldPayload_getPrice src field)) fun result =>
    omnmmsgPayload_updatePrice memory.update dest name field.mFid (some (result.getD ⟨0, 0⟩))

omit [MamaLibrary] in
def reportMsg : ReportedCase :=
  reporting (omnmmsgFieldPayload_getMsg memory.getter src field results) fun result =>
    dest.updateSubMsg memory.update name field.mFid result

omit [MamaLibrary] in
def reportVectorString : ReportedCase :=
  reporting (omnmmsgFieldPayload_getVectorString memory.getter src field results)
    fun (array, size) => do
      let value ← loadStringArray src array size
      omnmmsgPayload_updateVectorString memory.update dest name field.mFid value

/-- The `switch` of `omnmmsgPayload_apply`. -/
def reportField : ReportedCase :=
  let scalar := reportScalar memory src field dest name results
  let vector := reportVector memory src field dest name results
  match fieldTypeOf field.mFieldType with
  | some .bool => scalar omnmmsgFieldPayload_getBool omnmmsgPayload_updateBool
  | some .char => scalar omnmmsgFieldPayload_getChar omnmmsgPayload_updateChar
  | some .u8 => scalar omnmmsgFieldPayload_getU8 omnmmsgPayload_updateU8
  | some .i8 => scalar omnmmsgFieldPayload_getI8 omnmmsgPayload_updateI8
  | some .u16 => scalar omnmmsgFieldPayload_getU16 omnmmsgPayload_updateU16
  | some .i16 => scalar omnmmsgFieldPayload_getI16 omnmmsgPayload_updateI16
  | some .u32 => scalar omnmmsgFieldPayload_getU32 omnmmsgPayload_updateU32
  | some .i32 => scalar omnmmsgFieldPayload_getI32 omnmmsgPayload_updateI32
  | some .u64 => scalar omnmmsgFieldPayload_getU64 omnmmsgPayload_updateU64
  | some .i64 => scalar omnmmsgFieldPayload_getI64 omnmmsgPayload_updateI64
  | some .f32 => scalar omnmmsgFieldPayload_getF32 omnmmsgPayload_updateF32
  | some .f64 => scalar omnmmsgFieldPayload_getF64 omnmmsgPayload_updateF64
  | some .string => reportString memory src field dest name results
  | some .msg => reportMsg memory src field dest name results
  | some .opaqueField => reportOpaque memory src field dest name results
  | some .time => reportDateTime memory src field dest name results
  | some .price => reportPrice memory src field dest name results
  | some .vectorU8 => vector 1 omnmmsgFieldPayload_getVectorU8 omnmmsgPayload_updateVectorU8
  | some .vectorBool => vector 1 omnmmsgFieldPayload_getVectorBool omnmmsgPayload_updateVectorBool
  | some .vectorChar => vector 1 omnmmsgFieldPayload_getVectorChar omnmmsgPayload_updateVectorChar
  | some .vectorI8 => vector 1 omnmmsgFieldPayload_getVectorI8 omnmmsgPayload_updateVectorI8
  | some .vectorU16 => vector 2 omnmmsgFieldPayload_getVectorU16 omnmmsgPayload_updateVectorU16
  | some .vectorI16 => vector 2 omnmmsgFieldPayload_getVectorI16 omnmmsgPayload_updateVectorI16
  | some .vectorU32 => vector 4 omnmmsgFieldPayload_getVectorU32 omnmmsgPayload_updateVectorU32
  | some .vectorI32 => vector 4 omnmmsgFieldPayload_getVectorI32 omnmmsgPayload_updateVectorI32
  | some .vectorU64 => vector 8 omnmmsgFieldPayload_getVectorU64 omnmmsgPayload_updateVectorU64
  | some .vectorI64 => vector 8 omnmmsgFieldPayload_getVectorI64 omnmmsgPayload_updateVectorI64
  | some .vectorF32 => vector 4 omnmmsgFieldPayload_getVectorF32 omnmmsgPayload_updateVectorF32
  | some .vectorF64 => vector 8 omnmmsgFieldPayload_getVectorF64 omnmmsgPayload_updateVectorF64
  | some .vectorString => reportVectorString memory src field dest name results
  | some .vectorMsg | some .vectorPrice | some .vectorTime | some .quantity | some .unknown
  | some .collection | none => pure (none, dest, results)

omit [FieldTypeTags] [MamaLibrary] in
/-- A case without what it reports. -/
theorem snd_reporting {Value : Type} (read : Traced Region (MamaStatus × Value × FieldResults))
    (update : Value → Mutated) :
    Prod.snd <$> reporting read update = (do
      let (_, value, results) ← read
      let (_, dest) ← update value
      pure (dest, results)) := by
  simp only [reporting, map_bind, map_pure]

/-- Without what it reports the `switch` is that of `omnmmsgPayload_apply`. -/
theorem applyField_eq_reported :
    applyField memory src field dest name results =
      Prod.snd <$> reportField memory src field dest name results := by
  rw [applyField, reportField]
  have scalar : ∀ (get : ScalarGetter) (update : Mutator Nat),
      (do let (_, dest) ← applyScalarField memory src field dest name get update
          pure (dest, results) : Traced Region (OmnmPayloadImpl × FieldResults)) =
        Prod.snd <$> reportScalar memory src field dest name results get update := by
    intro get update
    simp only [applyScalarField, reportScalar, snd_reporting, keepingResults, bind_assoc, pure_bind]
  have vector : ∀ (size : Nat) (get : VectorGetter) (update : Mutator (Option (List Nat))),
      (do let (_, dest) ← updateVectorField memory src field dest name size get update
          pure (dest, results) : Traced Region (OmnmPayloadImpl × FieldResults)) =
        Prod.snd <$> reportVector memory src field dest name results size get update := by
    intro size get update
    simp only [updateVectorField, reportVector, snd_reporting, keepingResults, bind_assoc, pure_bind]
  cases fieldTypeOf field.mFieldType with
  | none => rfl
  | some type =>
      cases type with
      | bool | char | u8 | i8 | u16 | i16 | u32 | i32 | u64 | i64 | f32 | f64 => exact scalar _ _
      | vectorU8 | vectorBool | vectorChar | vectorI8 | vectorU16 | vectorI16 | vectorU32
      | vectorI32 | vectorU64 | vectorI64 | vectorF32 | vectorF64 => exact vector _ _ _
      | string =>
          simp only [applyString, reportString, snd_reporting, keepingResults, bind_assoc,
            pure_bind]
      | opaqueField =>
          simp only [applyOpaque, reportOpaque, snd_reporting, keepingResults, bind_assoc,
            pure_bind]
      | time =>
          simp only [applyDateTime, reportDateTime, snd_reporting, keepingResults, bind_assoc,
            pure_bind]
      | price =>
          simp only [applyPrice, reportPrice, snd_reporting, keepingResults, bind_assoc, pure_bind]
      | msg => exact (snd_reporting ..).symm
      | vectorString =>
          simp only [applyVectorString, reportVectorString, snd_reporting, bind_assoc]
      | vectorMsg | vectorPrice | vectorTime | quantity | unknown | collection => rfl

end

/-! ## The loop -/

/-- One round. -/
def reportRound (memory : ApplyMemory) (src : OmnmPayloadImpl) (field : OmnmFieldImpl)
    (state : ApplyState) : Traced Region (ReportedRound × ApplyState) := do
  let written ← omnmmsgFieldPayload_getName src field
  let pointer := written.getD state.name
  let name ← loadStringArgument src pointer
  let (report, dest, results) ← reportField memory src field state.dest name state.results
  pure (⟨state, field, name, report⟩, ⟨dest, pointer, results⟩)

/-- The loop, with its rounds. -/
def reportFrom (memory : ApplyMemory) (src : OmnmPayloadImpl) :
    Nat → OmnmIterImpl → ApplyState → Traced Region (List ReportedRound × ApplyState)
  | 0, _, _ => Traced.fault
  | rounds + 1, iter, state => do
      let (field, iter) ← omnmmsgPayloadIter_next iter src
      match field with
      | none => pure ([], state)
      | some field => do
          let (round, state) ← reportRound memory src field state
          let (behind, state) ← reportFrom memory src rounds iter state
          pure (round :: behind, state)

/-- `omnmmsgPayload_apply` with its rounds. -/
def omnmmsgPayload_applyReported (memory : ApplyMemory) (dest src : OmnmPayloadImpl) :
    Traced Region (List ReportedRound × MamaStatus × OmnmPayloadImpl) := do
  let iter ← omnmmsgPayloadIterImpl_init src
  let (rounds, state) ←
    reportFrom memory src (iterationBound src) iter ⟨dest, .null, FieldResults.none⟩
  pure (rounds, .ok, state.dest)

section

variable {memory : ApplyMemory} {src : OmnmPayloadImpl}

theorem applyRound_eq_reported (field : OmnmFieldImpl) (state : ApplyState) :
    applyRound memory src field state = Prod.snd <$> reportRound memory src field state := by
  simp only [applyRound, reportRound, applyField_eq_reported, map_bind, map_pure, bind_map_left]

theorem applyFrom_eq_reported (rounds : Nat) (iter : OmnmIterImpl) (state : ApplyState) :
    applyFrom memory src rounds iter state = Prod.snd <$> reportFrom memory src rounds iter state := by
  induction rounds generalizing iter state with
  | zero => rfl
  | succ rounds ih =>
      rw [applyFrom, reportFrom, map_bind]
      congr 1
      funext next
      obtain ⟨field, iter⟩ := next
      cases field with
      | none => rfl
      | some field =>
          simp only [applyRound_eq_reported, ih, map_bind, bind_map_left, bind_pure_comp,
            Functor.map_map]

/-- Without its rounds the call is `omnmmsgPayload_apply`, access by access. -/
theorem apply_eq_reported (dest : OmnmPayloadImpl) :
    omnmmsgPayload_apply memory dest src =
      Prod.snd <$> omnmmsgPayload_applyReported memory dest src := by
  simp only [omnmmsgPayload_apply, omnmmsgPayload_applyReported, applyFrom_eq_reported, map_bind,
    map_pure, bind_map_left]

end

end Omnm
