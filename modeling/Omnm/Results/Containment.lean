import Omnm.Wire.Mutations
import Omnm.Wire.Lookup
import Omnm.Wire.Serialization
import Omnm.Runs.Runs

/-!
# Mutations stay inside the buffer

Received bytes need not be a message, and an update splices at offsets that it
computes from them. Along every run of `unSerialize` and the functions that add,
update and clear, every write to the payload buffer ends inside it and every
move takes exactly the bytes up to the tail (`mutations_stay_inside`), provided
that an update splices only complete fields: from the header up to the field it
finds, the bytes below the tail are complete fields.

A field whose length reaches past the tail makes the number of bytes to move
wrap (`update_of_cut_field_escapes`).
-/

set_option autoImplicit false

namespace Omnm

open FieldTypeTags (tag)
open OmnmPayloadImpl

/-- An access that, where it writes the payload buffer, ends inside it, and if it is a
move takes exactly the bytes up to the tail. -/
def Access.KeepsInside (size tail : Nat) : Access Region → Prop
  | .load .. => True
  | .store region offset length => region = .message → offset + length ≤ size
  | .move region target source length => region = .message →
      target + length ≤ size ∧ source + length ≤ size ∧ source + length = tail

theorem Access.IsLoad.keepsInside {access : Access Region} (load : access.IsLoad)
    (size tail : Nat) : access.KeepsInside size tail := by
  cases access with
  | load region offset length => trivial
  | store region offset length => exact load.elim
  | move region target source length => exact load.elim

theorem Access.OnScratch.keepsInside {access : Access Region} (scratch : access.OnScratch)
    (size tail : Nat) : access.KeepsInside size tail := by
  cases access with
  | load region offset length => trivial
  | store region offset length =>
      rintro rfl
      cases scratch
  | move region target source length =>
      rintro rfl
      cases scratch

theorem Access.Within.keepsInside {access : Access Region} {size tail : Nat}
    (within : access.Within size tail) : access.KeepsInside size tail := by
  cases access with
  | load region offset length => trivial
  | store region offset length => exact fun _ => within
  | move region target source length => exact fun _ => within

/-- The size of the payload buffer after a call, or before it if it does not return. -/
def sizeLeft (msg : OmnmPayloadImpl) (computation : Mutated) : Nat :=
  computation.result.elim msg.mPayloadBufferSize fun outcome => outcome.2.mPayloadBufferSize

/-- A call writes the payload buffer inside its bounds only. -/
def StaysInside (msg : OmnmPayloadImpl) (computation : Mutated) : Prop :=
  Traced.Every (Access.KeepsInside (sizeLeft msg computation) msg.mPayloadBufferTail) computation

/-- The tail lies in the buffer, which has room for a header. -/
structure OmnmPayloadImpl.Bounded (msg : OmnmPayloadImpl) : Prop where
  tail_le : msg.mPayloadBufferTail ≤ msg.mPayloadBufferSize
  room : 3 ≤ msg.mPayloadBufferSize

/-- A call stays inside the buffer, does not shrink it, and leaves its tail there. -/
structure Contained (msg : OmnmPayloadImpl) (computation : Mutated) : Prop where
  staysInside : StaysInside msg computation
  grows : msg.mPayloadBufferSize ≤ sizeLeft msg computation
  bounded : ∀ status next, computation.result = some (status, next) → next.Bounded

namespace Contained

variable {msg : OmnmPayloadImpl} {computation : Mutated}

theorem of_result {status : MamaStatus} {next : OmnmPayloadImpl}
    (result : computation.result = some (status, next)) (bounded : next.Bounded)
    (grows : msg.mPayloadBufferSize ≤ next.mPayloadBufferSize)
    (every : Traced.Every (Access.KeepsInside next.mPayloadBufferSize msg.mPayloadBufferTail)
      computation) : Contained msg computation := by
  have left : sizeLeft msg computation = next.mPayloadBufferSize := by
    rw [sizeLeft, result, Option.elim_some]
  refine ⟨?_, left ▸ grows, ?_⟩
  · rw [StaysInside, left]
    exact every
  · intro status' next' result'
    cases result.symm.trans result'
    exact bounded

theorem of_pure (bounded : msg.Bounded) (status : MamaStatus) :
    Contained msg (pure (status, msg)) :=
  of_result rfl bounded (Nat.le_refl _) (Traced.every_pure _)

/-- A call that faults stays inside what it has touched. -/
theorem of_fault (failed : computation.result = none)
    (every : Traced.Every (Access.KeepsInside msg.mPayloadBufferSize msg.mPayloadBufferTail)
      computation) : Contained msg computation := by
  have left : sizeLeft msg computation = msg.mPayloadBufferSize := by
    rw [sizeLeft, failed, Option.elim_none]
  refine ⟨?_, Nat.le_of_eq left.symm, ?_⟩
  · rw [StaysInside, left]
    exact every
  · intro status next result
    rw [failed] at result
    cases result

/-- Accesses in front of a call that stay inside the buffer as it is change nothing
about it. -/
theorem after {α : Type} {first : Traced Region α} {rest : α → Mutated}
    (harmless : ∀ size, msg.mPayloadBufferSize ≤ size →
      Traced.Every (Access.KeepsInside size msg.mPayloadBufferTail) first)
    (contained : ∀ value, first.result = some value → Contained msg (rest value)) :
    Contained msg (first >>= rest) := by
  cases returned : first.result with
  | none =>
      apply of_fault (by rw [Traced.result_bind, returned, Option.bind_none])
      intro access member
      rw [Traced.accesses_bind_of_fault returned] at member
      exact harmless _ (Nat.le_refl _) access member
  | some value =>
      have result : (first >>= rest).result = (rest value).result := by
        rw [Traced.result_bind, returned, Option.bind_some]
      have left : sizeLeft msg (first >>= rest) = sizeLeft msg (rest value) := by
        rw [sizeLeft, sizeLeft, result]
      obtain ⟨staysInside, grows, bounded⟩ := contained value returned
      refine ⟨?_, left ▸ grows, fun status next here => bounded status next (result ▸ here)⟩
      intro access member
      rw [Traced.accesses_bind_of_result returned, List.mem_append] at member
      rw [left]
      rcases member with early | late
      · exact harmless _ grows access early
      · exact staysInside access late

/-- What a call reads in front of it changes nothing about it. -/
theorem after_loads {α : Type} {first : Traced Region α} {rest : α → Mutated}
    (loads : Traced.Every Access.IsLoad first)
    (contained : ∀ value, first.result = some value → Contained msg (rest value)) :
    Contained msg (first >>= rest) :=
  after (fun _ _ => loads.mono fun _ load => load.keepsInside _ _) contained

theorem of_sameEffect {other : Mutated} (same : SameEffect computation other)
    (contained : Contained msg other) : Contained msg computation := by
  have payload := same.payload
  have first : ∀ mutated : Mutated, sizeLeft msg mutated =
      (mutated.result.map Prod.snd).elim msg.mPayloadBufferSize mPayloadBufferSize := by
    intro mutated
    rw [sizeLeft]
    cases mutated.result <;> rfl
  have left : sizeLeft msg computation = sizeLeft msg other := by
    rw [first, first, payload]
  refine ⟨?_, left ▸ contained.grows, ?_⟩
  · rw [StaysInside, left]
    exact same.every contained.staysInside
  · intro status next result
    rw [result, Option.map_some] at payload
    obtain ⟨⟨report, last⟩, returned, equal⟩ := Option.map_eq_some_iff.mp payload.symm
    cases equal
    exact contained.bounded report next returned

/-- Only the tail and the size of the payload in front of a call matter. -/
theorem of_withScratch {scratch : List UInt8} (contained : Contained (withScratch scratch msg)
    computation) : Contained msg computation :=
  ⟨contained.staysInside, contained.grows, contained.bounded⟩

end Contained

/-! ## The two calls that replace the content -/

theorem clear_contained {msg : OmnmPayloadImpl} (bounded : msg.Bounded) :
    Contained msg msg.clear := by
  obtain ⟨result, every⟩ := clear_eq bounded.room msg.mPayloadBufferTail
  have size := cleared_size bounded.room
  refine .of_result result ⟨size ▸ bounded.room, size ▸ bounded.room⟩ (Nat.le_of_eq size.symm) ?_
  rw [size]
  exact every.mono fun _ within => within.keepsInside

/-- Taking in a buffer stays inside, whatever its bytes are. -/
theorem unSerialize_contained {msg : OmnmPayloadImpl} (bounded : msg.Bounded)
    (allocator : Allocator) (buffer : Option Incoming) (length : Nat) :
    Contained msg (omnmmsgPayload_unSerialize allocator msg buffer length) := by
  cases buffer with
  | none => exact .of_pure bounded .nullArg
  | some incoming =>
      rw [omnmmsgPayload_unSerialize]
      split
      · exact .of_pure bounded .nullArg
      refine .after_loads (every_load_loadHeader msg incoming) ?_
      intro header _
      split
      · exact .of_pure bounded .wrongFieldType
      have wipes : ∀ size, msg.mPayloadBufferSize ≤ size →
          Traced.Every (Access.KeepsInside size msg.mPayloadBufferTail) (store .message
            msg.mPayloadBuffer 0 (List.replicate msg.mPayloadBufferSize 0)) := by
        intro size larger
        rw [every_store]
        intro _
        rwa [Nat.zero_add, List.length_replicate]
      refine .after wipes ?_
      intro wiped wipe
      have same : wiped.length = msg.mPayloadBufferSize := by
        cases wipe
        exact length_overwrite ..
      cases succeeded : (allocateBufferMemory allocator wiped length).succeeded with
      | false =>
          dsimp only
          rw [if_pos succeeded]
          refine .of_result rfl ⟨?_, ?_⟩ (Nat.le_of_eq same.symm) (Traced.every_pure _)
          · exact bounded.tail_le.trans (Nat.le_of_eq same.symm)
          · exact bounded.room.trans (Nat.le_of_eq same.symm)
      | true =>
          dsimp only
          rw [if_neg (by rw [succeeded]; exact Bool.noConfusion)]
          obtain ⟨fresh, grown, enough⟩ := exists_fresh_of_succeeded succeeded
          have larger : msg.mPayloadBufferSize ≤ (wiped ++ fresh).length := by
            rw [List.length_append, same]
            exact Nat.le_add_right ..
          rw [grown]
          cases incoming with
          | own =>
              dsimp only
              split
              · exact .of_fault rfl Traced.every_fault
              · exact .of_result rfl ⟨enough, bounded.room.trans larger⟩ larger (Traced.every_pure _)
          | other memory =>
              refine .after_loads (every_load_loadBytes _ _ _ _) ?_
              intro bytes loaded
              have taken : bytes.length ≤ length := by
                simp only [loadBytes] at loaded
                split at loaded
                · cases loaded
                  rw [slice]
                  exact List.length_take_le ..
                · cases loaded
              have copied := length_overwrite (wiped ++ fresh) 0 bytes
              refine .of_result rfl ⟨?_, ?_⟩ ?_ ?_
              · exact enough.trans (Nat.le_of_eq copied.symm)
              · exact bounded.room.trans (larger.trans (Nat.le_of_eq copied.symm))
              · exact larger.trans (Nat.le_of_eq copied.symm)
              · rw [Traced.every_bind, every_store]
                refine ⟨?_, fun _ _ => Traced.every_pure _⟩
                intro _
                rw [Nat.zero_add]
                exact taken.trans (enough.trans (Nat.le_of_eq copied.symm))

/-! ## Mutations -/

section Mutations

variable [FieldTypeTags]

/-- An update that changes a field changes one that is complete below the tail, as is
everything in front of it, and moves what is behind it only when the tail fits an
`int`. -/
structure OmnmPayloadImpl.UpdateFits (msg : OmnmPayloadImpl) (type : UInt8)
    (name : Option CString) (fid : UInt16) (bytes : List UInt8) : Prop where
  absent : (msg.findFieldInBuffer name fid).result = some none → AddFits name fid bytes
  found : ∀ field, (msg.findFieldInBuffer name fid).result = some (some field) →
    ¬ (field.mFieldType ≠ type ∧ areFieldTypesCastable field.mFieldType type = false) →
      (∃ before entry, msg.CompleteUpTo name fid before entry) ∧
        (bytes.length = field.mSize ∨ msg.mPayloadBufferTail < 2 ^ 31)

/-- An update of a complete field in a message below 2 GiB fits. -/
theorem OmnmPayloadImpl.CompleteUpTo.updateFits {msg : OmnmPayloadImpl} {type : UInt8}
    {name : Option CString} {fid : UInt16} {bytes : List UInt8} {before : List FieldEntry}
    {entry : FieldEntry} (complete : msg.CompleteUpTo name fid before entry)
    (small : msg.mPayloadBufferTail < 2 ^ 31) : msg.UpdateFits type name fid bytes := by
  obtain ⟨previous, search⟩ := complete.search
  refine ⟨?_, fun field _ _ => ⟨⟨before, entry, complete⟩, .inr small⟩⟩
  intro absent
  cases search.symm.trans absent

/-- What a mutation needs to stay inside the buffer. -/
def Mutation.Fits (msg : OmnmPayloadImpl) (name : Option CString) (fid : UInt16) :
    Mutation → Prop
  | .refuse _ => True
  | .add _ data => ∀ bytes, data = some bytes → AddFits name fid bytes
  | .update type data => ∀ bytes, data = some bytes → ¬ (name = none ∧ fid = 0) →
      msg.UpdateFits (tag type) name fid bytes
  | .updateVector type bytes => ¬ (name = some CString.empty ∧ fid = 0) ∧
      msg.UpdateFits (tag type) name fid bytes

section

variable {msg : OmnmPayloadImpl} {memory : CallMemory} {name : Option CString} {fid : UInt16}
  {type : MamaFieldType} {bytes : List UInt8}

theorem addField_contained (bounded : msg.Bounded) (succeeds : memory.payload.Succeeds)
    (fits : AddFits name fid bytes) (small : msg.sizeAfterAdd (tag type) name fid bytes < 2 ^ 63) :
    Contained msg (msg.addField memory.payload (tag type) name fid (some bytes)) := by
  cases rejected : rejection name fid bytes with
  | some status =>
      rw [addField_of_rejection rejected]
      exact .of_pure bounded status
  | none =>
      rw [sizeAfterAdd, if_pos rejected] at small
      obtain ⟨slack, result, grows, every⟩ := addField_of_accepted (accepted_iff_rejection.mpr rejected)
        succeeds (fits rejected) (Nat.lt_trans small (by norm_num)) bounded.tail_le
      have serialized : msg.serialized.length = msg.mPayloadBufferTail := by
        rw [OmnmPayloadImpl.serialized, List.length_take]
        exact Nat.min_eq_left bounded.tail_le
      have tail : msg.mPayloadBufferTail +
          (writtenField (tag type) fid (name.getD CString.empty) bytes).length ≤
          (msg.serialized ++ writtenField (tag type) fid (name.getD CString.empty) bytes ++
            slack).length := by
        simp only [List.length_append, serialized]
        omega
      exact .of_result result ⟨tail, bounded.room.trans grows⟩ grows
        (every.mono fun _ within => (within.mono tail).keepsInside)

/-- A handle that locates its field is updated inside the buffer. -/
theorem updateFieldHandle_contained (bounded : msg.Bounded) (succeeds : memory.payload.Succeeds)
    {field : OmnmFieldImpl} {front lengthPart old back slack : List UInt8}
    (located : msg.Located field front lengthPart old back slack)
    (castable : ¬ (field.mFieldType ≠ tag type ∧
      areFieldTypesCastable field.mFieldType (tag type) = false))
    (exact : bytes.length = old.length ∨ msg.mPayloadBufferTail < 2 ^ 31)
    (object : bytes.length < 2 ^ 63) :
    Contained msg (msg.updateFieldHandle memory.payload (tag type) field (some bytes) >>=
      fun outcome => pure (outcome.1, outcome.2.1)) := by
  obtain ⟨slack', moved, result, grows, every⟩ :=
    updateFieldHandle_eq located bytes castable exact succeeds object
  have written : (writtenLength field.mFieldType bytes.length).length = lengthPart.length := by
    rw [length_writtenLength, located.width]
  have size : (front ++ writtenLength field.mFieldType bytes.length ++ bytes ++ back ++
      slack').length = (front ++ lengthPart ++ bytes ++ back ++ slack').length := by
    simp only [List.length_append, written]
  refine .of_result (by rw [Traced.result_bind, result]; rfl) ⟨?_, ?_⟩ ?_ ?_
  · show _ ≤ (front ++ writtenLength field.mFieldType bytes.length ++ bytes ++ back ++
      slack').length
    rw [size]
    simp only [List.length_append]
    omega
  · exact bounded.room.trans (grows.trans (Nat.le_of_eq size.symm))
  · exact grows.trans (Nat.le_of_eq size.symm)
  · rw [Traced.every_bind]
    refine ⟨?_, fun _ _ => Traced.every_pure _⟩
    show Traced.Every (Access.KeepsInside (front ++ writtenLength field.mFieldType bytes.length ++
      bytes ++ back ++ slack').length _) _
    rw [size]
    exact every.mono fun _ within => within.keepsInside

theorem updateField_contained (bounded : msg.Bounded) (succeeds : memory.payload.Succeeds)
    (known : type ≠ .unknown) (key : ¬ (name = none ∧ fid = 0))
    (fits : msg.UpdateFits (tag type) name fid bytes)
    (small : msg.sizeAfterUpdate (tag type) name fid bytes < 2 ^ 63) :
    Contained msg (msg.updateField memory.payload (tag type) name fid (some bytes)) := by
  rw [updateField_eq key]
  refine .after_loads (every_load_findFieldInBuffer msg name fid) ?_
  intro found search
  cases found with
  | none =>
      rw [sizeAfterUpdate_absent key search] at small
      exact addField_contained bounded succeeds (fits.absent search) small
  | some field =>
      by_cases refused : field.mFieldType ≠ tag type ∧
          areFieldTypesCastable field.mFieldType (tag type) = false
      · rw [updateFound_refused refused]
        exact .of_pure bounded .wrongFieldType
      · rw [sizeAfterUpdate_found key search refused] at small
        rw [updateFound_castable refused]
        obtain ⟨⟨before, entry, complete⟩, exact⟩ := fits.found field search refused
        obtain ⟨previous, handle⟩ := complete.search
        cases search.symm.trans handle
        have listed : dataLayout entry.type ≠ .unlisted := by
          by_cases same : entry.type = tag type
          · rw [same]
            exact dataLayout_tag type known
          · have castable : areFieldTypesCastable entry.type (tag type) = true := by
              simpa [same] using refused
            rw [areFieldTypesCastable, Bool.and_eq_true] at castable
            obtain ⟨width, layout⟩ := dataLayout_of_isFieldTypeFixedWidth castable.1
            rw [layout]
            simp
        obtain ⟨front, back, slack, located⟩ := complete.located bounded.tail_le listed previous
        have old := located.tail
        rw [FieldEntry.handle_mSize] at small
        exact updateFieldHandle_contained bounded succeeds located refused exact (by omega)

/-- A mutation that fits stays inside the buffer. -/
theorem mutation_contained (bounded : msg.Bounded) (succeeds : memory.payload.Succeeds)
    {mutation : Mutation} (shaped : mutation.Shaped name fid) (fits : mutation.Fits msg name fid)
    (small : mutation.sizeAfter msg name fid < 2 ^ 63) :
    Contained msg (mutation.perform memory msg name fid) := by
  cases mutation with
  | refuse status => exact .of_pure bounded status
  | add type data =>
      cases data with
      | none =>
          rw [Mutation.perform, addField_null]
          exact .of_pure bounded .nullArg
      | some bytes => exact addField_contained bounded succeeds (fits bytes rfl) small
  | update type data =>
      cases data with
      | none =>
          rw [Mutation.perform, updateField_null (.inl rfl)]
          exact .of_pure bounded .nullArg
      | some bytes =>
          by_cases key : name = none ∧ fid = 0
          · rw [Mutation.perform, updateField_null (.inr key)]
            exact .of_pure bounded .nullArg
          · exact updateField_contained bounded succeeds (shaped bytes rfl).known key
              (fits bytes rfl key) small
  | updateVector type bytes =>
      have accepted := Mutation.validateNameFid_of_accepted shaped.2 fits.1
      exact .of_sameEffect (Mutation.updateVector_sameEffect accepted type bytes)
        (updateField_contained bounded succeeds shaped.1.known shaped.2 fits.2 small)

/-- Whether a mutation fits does not depend on the scratch buffer. -/
theorem Mutation.Fits.withScratch {mutation : Mutation} (fits : mutation.Fits msg name fid)
    (scratch : List UInt8) : mutation.Fits (OmnmPayloadImpl.withScratch scratch msg) name fid := by
  have complete : ∀ before entry, msg.CompleteUpTo name fid before entry →
      (OmnmPayloadImpl.withScratch scratch msg).CompleteUpTo name fid before entry :=
    fun before entry holds => ⟨holds.fits, holds.here, holds.ends, holds.found, holds.first⟩
  have update : ∀ type bytes, msg.UpdateFits type name fid bytes →
      (OmnmPayloadImpl.withScratch scratch msg).UpdateFits type name fid bytes := by
    intro type bytes holds
    constructor
    · intro absent
      rw [findFieldInBuffer_withScratch] at absent
      exact holds.absent absent
    · intro field found castable
      rw [findFieldInBuffer_withScratch] at found
      obtain ⟨⟨before, entry, whole⟩, moved⟩ := holds.found field found castable
      exact ⟨⟨before, entry, complete before entry whole⟩, moved⟩
  cases mutation with
  | refuse status => trivial
  | add type data => exact fits
  | update type data => exact fun bytes given key => update _ _ (fits bytes given key)
  | updateVector type bytes => exact ⟨fits.1, update _ _ fits.2⟩

end

/-! ## Runs -/

/-- Allocations succeed, and the message stays below the largest object. -/
def PayloadCall.Granted (msg : OmnmPayloadImpl) : PayloadCall → Prop
  | .field memory name fid request => memory.Succeeds ∧
      request.Each memory msg.mBuffer name fid fun mutation =>
        mutation.sizeAfter msg name fid < 2 ^ 63
  | .clear => True
  | .unSerialize memory _ _ => memory.Succeeds

/-- What a call adds or updates fits the message. -/
def PayloadCall.Fits (msg : OmnmPayloadImpl) : PayloadCall → Prop
  | .field memory name fid request =>
      request.Each memory msg.mBuffer name fid fun mutation => mutation.Fits msg name fid
  | .clear => True
  | .unSerialize .. => True

/-- A call that fits stays inside the buffer. -/
theorem call_contained {msg : OmnmPayloadImpl} {call : PayloadCall} (bounded : msg.Bounded)
    (granted : call.Granted msg) (fits : call.Fits msg) : Contained msg (call.perform msg) := by
  cases call with
  | field memory name fid request =>
      obtain ⟨succeeds, small⟩ := granted
      rw [PayloadCall.perform, request.perform_eq]
      refine .after ?_ ?_
      · intro size _
        exact request.every_prepare.mono fun _ scratch => scratch.keepsInside _ _
      · rintro ⟨mutation, scratch⟩ prepared
        have bound : mutation.sizeAfter msg name fid < 2 ^ 63 := small mutation scratch prepared
        have here : mutation.Fits msg name fid := fits mutation scratch prepared
        have same : (withScratch scratch msg).Bounded := ⟨bounded.tail_le, bounded.room⟩
        rw [← mutation.sizeAfter_withScratch scratch] at bound
        exact .of_withScratch (mutation_contained same succeeds.payload
          (request.prepare_shaped prepared) (here.withScratch scratch) bound)
  | clear => exact clear_contained bounded
  | unSerialize memory buffer length => exact unSerialize_contained bounded memory.payload buffer length

end Mutations

/-- Along every run of calls that fit, every call stays inside the payload buffer. -/
theorem mutations_stay_inside [FieldTypeTags] (calls : List PayloadCall)
    (along : Along payloadCallStep (fun msg call => call.Granted msg ∧ call.Fits msg)
      newPayload calls) :
    Along payloadCallStep (fun msg call => StaysInside msg (call.perform msg)) newPayload calls := by
  have represents : newPayload.Represents Message.empty := Represents.newPayload
  have start : newPayload.Bounded := ⟨represents.tail_le,
    (represents.tail ▸ Message.empty.three_le_length_encode).trans represents.tail_le⟩
  refine along_of_invariant ?_ calls newPayload start along
  intro msg call bounded admits
  have contained := call_contained bounded admits.1 admits.2
  exact ⟨contained.staysInside, contained.bounded⟩

section Example

attribute [local instance] mamaFieldTypes

/-- A message with one field of opaque data under fid 1, whose length is as given. -/
def opaqueMessageBytes (length : UInt8) : List UInt8 := [79, 1, 0, 7, 1, 0, 0, length, 0, 0, 0, 5]

/-- The message is received, and the field updated. -/
def receivedThenUpdated (length : UInt8) : List PayloadCall :=
  [.unSerialize .zeroing (some (.other (opaqueMessageBytes length))) 12,
    .field .zeroing none 1 (.updateOpaque (some [6, 7]))]

/-- The payload that holds the message. -/
def receivedPayload (length : UInt8) : OmnmPayloadImpl :=
  { newPayload with
    mPayloadBuffer := opaqueMessageBytes length ++ List.replicate 188 0
    mPayloadBufferTail := 12 }

theorem receive_whole_result : payloadCallStep newPayload
    (.unSerialize .zeroing (some (.other (opaqueMessageBytes 1))) 12) =
      some (.ok, receivedPayload 1) := by
  decide +kernel

theorem receive_cut_result : payloadCallStep newPayload
    (.unSerialize .zeroing (some (.other (opaqueMessageBytes 100))) 12) =
      some (.ok, receivedPayload 100) := by
  decide +kernel

theorem granted_update (length : UInt8) (either : length = 1 ∨ length = 100) :
    PayloadCall.Granted (receivedPayload length)
      (.field .zeroing none 1 (.updateOpaque (some [6, 7]))) := by
  refine ⟨CallMemory.zeroing_succeeds, ?_⟩
  intro mutation scratch prepared
  cases prepared
  rcases either with rfl | rfl <;> decide +kernel

/-- A received field that announces more data than there is makes an update move
bytes from behind the buffer, in a number that has wrapped. -/
theorem update_of_cut_field_escapes :
    Along payloadCallStep (fun msg call => call.Granted msg) newPayload (receivedThenUpdated 100) ∧
      ¬ Along payloadCallStep (fun msg call => StaysInside msg (call.perform msg)) newPayload
        (receivedThenUpdated 100) := by
  refine ⟨along_cons_of_step CallMemory.zeroing_succeeds receive_cut_result
    ⟨granted_update 100 (.inr rfl), fun _ _ _ => trivial⟩, ?_⟩
  intro along
  have inside := (along.2 _ _ receive_cut_result).1
  have moved : Access.move .message 13 111 4294967197 ∈
      ((PayloadCall.field .zeroing none 1 (.updateOpaque (some [6, 7]))).perform
        (receivedPayload 100)).accesses := by
    decide +kernel
  obtain ⟨-, -, whole⟩ := inside _ moved rfl
  exact absurd whole (by decide)

theorem fits_updateOpaque {msg : OmnmPayloadImpl} {memory : CallMemory} {name : Option CString}
    {fid : UInt16} {bytes : List UInt8} (fits : msg.UpdateFits (tag .opaqueField) name fid bytes) :
    PayloadCall.Fits msg (.field memory name fid (.updateOpaque (some bytes))) := by
  intro mutation scratch prepared
  cases prepared
  intro data given key
  cases given
  exact fits

theorem complete_whole :
    (receivedPayload 1).CompleteUpTo none 1 [] ⟨7, 1, .empty, [5]⟩ := by
  refine ⟨?_, ⟨List.replicate 188 0, ?_⟩, ?_, ?_, by simp⟩
  · intro entry member
    cases List.mem_singleton.mp member
    decide
  · decide +kernel
  · decide +kernel
  · decide +kernel

theorem fits_update : PayloadCall.Fits (receivedPayload 1)
    (.field .zeroing none 1 (.updateOpaque (some [6, 7]))) :=
  fits_updateOpaque (complete_whole.updateFits (by decide))

/-- A field that is received whole is updated inside the buffer. -/
theorem mutations_stay_inside_whole :
    Along payloadCallStep (fun msg call => StaysInside msg (call.perform msg)) newPayload
      (receivedThenUpdated 1) :=
  mutations_stay_inside (receivedThenUpdated 1)
    (along_cons_of_step ⟨CallMemory.zeroing_succeeds, trivial⟩ receive_whole_result
      ⟨⟨granted_update 1 (.inl rfl), fits_update⟩, fun _ _ _ => trivial⟩)

end Example

end Omnm
