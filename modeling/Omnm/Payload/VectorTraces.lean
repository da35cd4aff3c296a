import Omnm.Payload.Getters

/-!
# What the decoders of vectors touch

`omnmmsgFieldPayload_getVectorString` and `omnmmsgFieldPayload_getVectorMsg` told
again with the entries of their arrays as memory of its own, and with the ranges
that they hand to `omnmmsgPayload_unSerialize`. What that function reads of a
range is located in the payload buffer. The results are those of the decoders, and
so are the reads of the payload buffer and of what is handed on, in their order
(`recordVectorString_retells`, `recordVectorMsg_retells`).
-/

set_option autoImplicit false

namespace Omnm

/-- The payload buffer that the data of a field is in, the entries of the array that the field
keeps, and the payload buffer as an argument of `omnmmsgPayload_unSerialize`. -/
inductive VectorRegion where
  | data
  | array
  | passed
  deriving DecidableEq, Repr

/-- Reads and ranges lie in the data of the field, and entries below the count. -/
def Access.InVector (data size count : Nat) : Access VectorRegion → Prop
  | .load .data offset length | .load .passed offset length =>
      data ≤ offset ∧ offset + length ≤ data + size
  | .load .array entry length | .store .array entry length => entry + length ≤ count
  | _ => False

/-! ## Reads that are told again -/

/-- A read of the payload buffer, or of bytes that were handed on. -/
def Access.readsMessage : Access Region → Bool
  | .load .message _ _ | .load .incoming _ _ => true
  | _ => false

/-- A read of the payload buffer. -/
def Access.readsData : Access VectorRegion → Bool
  | .load .data _ _ => true
  | _ => false

/-- A read in the payload buffer. Bytes that were handed on start somewhere there. -/
inductive SameRead : Access Region → Access VectorRegion → Prop where
  | message (offset length : Nat) : SameRead (.load .message offset length) (.load .data offset length)
  | incoming (start offset length : Nat) :
      SameRead (.load .incoming offset length) (.load .data (start + offset) length)

/-- The decoder tells a computation again, with the same reads. -/
abbrev Retells {α : Type} (other : Traced VectorRegion α) (computation : Traced Region α) : Prop :=
  Traced.RetoldBy Access.readsMessage Access.readsData SameRead computation other

section

variable (memory : List UInt8) (offset length : Nat)

theorem loadBytes_retells :
    Retells (loadBytes .data memory offset length) (loadBytes .message memory offset length) :=
  ⟨rfl, .cons (.message offset length) .nil⟩

theorem loadInteger_retells :
    Retells (loadInteger .data memory offset length) (loadInteger .message memory offset length) :=
  ⟨rfl, .cons (.message offset length) .nil⟩

theorem strlen_retells : Retells (strlen .data memory offset) (strlen .message memory offset) := by
  unfold strlen
  cases nulIndex (memory.drop offset) with
  | none => exact ⟨rfl, .cons (.message ..) .nil⟩
  | some index => exact ⟨rfl, .cons (.message ..) .nil⟩

end

/-! ## Strings -/

/-- The loop of `omnmmsgFieldPayload_getVectorString` that fills the array. -/
def recordStrings (memory : List UInt8) (data size : Nat) :
    Nat → Nat → Nat → Traced VectorRegion (List BufferPtr)
  | 0, _, _ => Traced.fault
  | rounds + 1, i, j =>
      if size ≤ i then pure []
      else do
        Traced.note [.store .array j 1, .load .array j 1]
        let length ← strlen .data memory (data + i)
        let strings ← recordStrings memory data size rounds (i + length + 1) (j + 1)
        pure (.offset (data + i) :: strings)

/-- `omnmmsgFieldPayload_getVectorString`. -/
def recordVectorString (memory : GetterMemory) (msg : OmnmPayloadImpl) (field : OmnmFieldImpl)
    (results : FieldResults) :
    Traced VectorRegion (MamaStatus × (List BufferPtr × Nat) × FieldResults) :=
  if field.mSize = 0 then
    pure (.ok, (results.mVectorString, 0), results)
  else
    match field.mData with
    | .null | .stray => Traced.fault
    | .offset data => do
        let bytes ← loadBytes .data msg.mPayloadBuffer data field.mSize
        let stringCount := bytes.count 0
        let array := memory.growArray results.mVectorString .null stringCount
        let strings ← recordStrings msg.mPayloadBuffer data field.mSize (field.mSize + 1) 0 0
        if array.length < strings.length then Traced.fault
        else
          let mVectorString := strings ++ array.drop strings.length
          pure (.ok, (mVectorString, stringCount), { results with mVectorString })

theorem recordStrings_retells (memory : List UInt8) (data size rounds i j : Nat) :
    Retells (recordStrings memory data size rounds i j) (locateStrings memory data size rounds i) := by
  induction rounds generalizing i j with
  | zero => exact Traced.retoldBy_fault
  | succ rounds ih =>
      rw [recordStrings, locateStrings]
      split
      · exact Traced.retoldBy_pure _
      · refine Traced.RetoldBy.note (by simp [Access.readsData]) ?_
        refine (strlen_retells memory (data + i)).bind fun length _ => ?_
        exact (ih (i + length + 1) (j + 1)).bind fun strings _ => Traced.retoldBy_pure _

/-- The recorded decoder tells the decoder again. -/
theorem recordVectorString_retells (memory : GetterMemory) (msg : OmnmPayloadImpl)
    (field : OmnmFieldImpl) (results : FieldResults) :
    Retells (recordVectorString memory msg field results)
      (omnmmsgFieldPayload_getVectorString memory msg field results) := by
  rw [recordVectorString, omnmmsgFieldPayload_getVectorString]
  split
  · exact Traced.retoldBy_pure _
  · unfold OmnmFieldImpl.dataOffset
    cases field.mData with
    | null | stray => exact Traced.retoldBy_fault
    | offset data =>
        simp only [pure_bind]
        refine (loadBytes_retells ..).bind fun bytes _ => ?_
        refine (recordStrings_retells ..).bind fun strings _ => ?_
        split
        · exact Traced.retoldBy_fault
        · exact Traced.retoldBy_pure _

/-! ## Messages -/

/-- A read of the bytes that `omnmmsgPayload_unSerialize` was given, where they stand. Its other
accesses are to the payload that it fills. -/
def passedAt (start : Nat) : Access Region → Option (Access VectorRegion)
  | .load .incoming offset length => some (.load .data (start + offset) length)
  | _ => none

/-- The loop of `omnmmsgFieldPayload_getVectorMsg` that counts the messages. -/
def recordCount (memory : List UInt8) (data size : Nat) : Nat → Nat → Traced VectorRegion Nat
  | 0, _ => Traced.fault
  | rounds + 1, i =>
      if size ≤ i then pure 0
      else do
        let payloadLen ← loadInteger .data memory data 4
        let count ← recordCount memory data size rounds (i + payloadLen + 4)
        pure (count + 1)

/-- What is handed on for an entry. Nothing is for a length of 0, and only an entry that is NULL
is written. -/
def handedOn (sub : Option OmnmPayloadImpl) (j start payloadLen : Nat) :
    List (Access VectorRegion) :=
  if payloadLen = 0 then []
  else (if sub = none then [.store .array j 1] else []) ++ [.load .passed start payloadLen]

/-- The loop of `omnmmsgFieldPayload_getVectorMsg` that takes in the messages. -/
def recordMessages (memory : GetterMemory) (bytes : List UInt8) (data size : Nat) :
    Nat → Nat → Nat → MamaStatus → List (Option OmnmPayloadImpl) →
      Traced VectorRegion (MamaStatus × List (Option OmnmPayloadImpl))
  | 0, _, _, _, _ => Traced.fault
  | rounds + 1, i, j, status, array =>
      if size ≤ i then pure (status, array)
      else do
        let payloadLen ← loadInteger .data bytes data 4
        Traced.note [.load .array j 1]
        match array[j]? with
        | none => Traced.fault
        | some sub => do
            let start := data + i + 4
            Traced.note (handedOn sub j start payloadLen)
            let (status, sub) ←
              (fillSubPayload memory sub (bytes.drop start) payloadLen).relabel (passedAt start)
            recordMessages memory bytes data size rounds (i + payloadLen + 4) (j + 1) status
              (array.set j sub)

/-- `omnmmsgFieldPayload_getVectorMsg`. -/
def recordVectorMsg (memory : GetterMemory) (msg : OmnmPayloadImpl) (field : OmnmFieldImpl)
    (results : FieldResults) :
    Traced VectorRegion (MamaStatus × (List (Option OmnmPayloadImpl) × Nat) × FieldResults) :=
  if field.mSize = 0 then
    pure (.ok, (results.mVectorPayload, 0), results)
  else
    match field.mData with
    | .null | .stray => Traced.fault
    | .offset data => do
        let msgCount ← recordCount msg.mPayloadBuffer data field.mSize (field.mSize + 1) 0
        let array := memory.growArray results.mVectorPayload none msgCount
        let (status, mVectorPayload) ← recordMessages memory msg.mPayloadBuffer data field.mSize
          (field.mSize + 1) 0 0 .ok array
        pure (status, (mVectorPayload, msgCount), { results with mVectorPayload })

theorem recordCount_retells (memory : List UInt8) (data size rounds i : Nat) :
    Retells (recordCount memory data size rounds i) (countMessages memory data size rounds i) := by
  induction rounds generalizing i with
  | zero => exact Traced.retoldBy_fault
  | succ rounds ih =>
      rw [recordCount, countMessages]
      split
      · exact Traced.retoldBy_pure _
      · refine (loadInteger_retells memory data 4).bind fun payloadLen _ => ?_
        exact (ih (i + payloadLen + 4)).bind fun count _ => Traced.retoldBy_pure _

section

variable {memory : GetterMemory} {bytes : List UInt8} {sub : Option OmnmPayloadImpl}
  {length : Nat}

/-- The accesses of an entry that takes in bytes: to its own payload, the header, and a copy. -/
theorem every_unSerialize {holds : Access Region → Prop} (allocator : Allocator)
    (msg : OmnmPayloadImpl) (stores : ∀ offset length, holds (.store .message offset length))
    (header : holds (.load .incoming 0 3)) (copy : holds (.load .incoming 0 length)) :
    Traced.Every holds
      (omnmmsgPayload_unSerialize allocator msg (some (.other bytes)) length) := by
  rw [omnmmsgPayload_unSerialize]
  split
  · exact Traced.every_pure _
  · simp only [loadHeader, Traced.every_bind, every_loadBytes, Traced.every_pure]
    refine ⟨⟨header, fun _ _ => trivial⟩, ?_⟩
    intro _ _
    split
    · exact Traced.every_pure _
    · rw [Traced.every_bind, every_store]
      refine ⟨stores .., ?_⟩
      intro _ _
      split
      · exact Traced.every_pure _
      · simp only [Traced.every_bind, every_loadBytes, every_store, Traced.every_pure]
        exact ⟨copy, fun _ _ => ⟨stores .., fun _ _ => trivial⟩⟩

theorem every_fillSubPayload {holds : Access Region → Prop}
    (stores : ∀ offset length, holds (.store .message offset length))
    (header : holds (.load .incoming 0 3)) (copy : holds (.load .incoming 0 length)) :
    Traced.Every holds (fillSubPayload memory sub bytes length) := by
  have take := fun msg => @every_unSerialize bytes length _ memory.payload msg stores header copy
  cases sub with
  | none =>
      simp only [fillSubPayload, omnmmsgPayload_createFromByteBuffer]
      split
      · exact Traced.every_pure _
      · simp only [Traced.every_bind, omnmmsgPayload_create, OmnmPayloadImpl.clear, every_store,
          Traced.every_pure]
        exact ⟨⟨stores .., fun _ _ => ⟨stores .., fun _ _ => trivial⟩⟩, fun _ _ =>
          ⟨take _, fun _ _ => trivial⟩⟩
  | some sub =>
      simp only [fillSubPayload, omnmmsgPayload_setByteBuffer]
      split
      · exact Traced.every_pure _
      · simp only [Traced.every_bind, Traced.every_pure]
        exact ⟨take _, fun _ _ => trivial⟩

/-- Reads of what was handed on are found where it stands. -/
theorem sameRead_passedAt (start : Nat) {accesses : List (Access Region)}
    (taken : ∀ access ∈ accesses, (passedAt start access = none ∧ access.readsMessage = false) ∨
      ∃ offset length, access = .load .incoming offset length) :
    List.Forall₂ SameRead (accesses.filter Access.readsMessage)
      ((accesses.filterMap (passedAt start)).filter Access.readsData) := by
  induction accesses with
  | nil => exact .nil
  | cons access accesses ih =>
      have later := ih fun other member => taken other (List.mem_cons_of_mem _ member)
      rcases taken access List.mem_cons_self with ⟨none, unseen⟩ | ⟨offset, length, rfl⟩
      · rw [List.filterMap_cons_none none, List.filter_cons_of_neg (by simp [unseen])]
        exact later
      · exact .cons (.incoming start offset length) later

/-- The reads of an entry that takes in bytes are told again where the bytes stand. -/
theorem passedAt_retells (start : Nat) :
    Retells ((fillSubPayload memory sub bytes length).relabel (passedAt start))
      (fillSubPayload memory sub bytes length) := by
  refine ⟨rfl, sameRead_passedAt start ?_⟩
  exact every_fillSubPayload (fun _ _ => .inl ⟨rfl, rfl⟩) (.inr ⟨_, _, rfl⟩) (.inr ⟨_, _, rfl⟩)

end

theorem recordMessages_retells (memory : GetterMemory) (bytes : List UInt8)
    (data size rounds i j : Nat) (status : MamaStatus) (array : List (Option OmnmPayloadImpl)) :
    Retells (recordMessages memory bytes data size rounds i j status array)
      (takeInMessages memory bytes data size rounds i j status array) := by
  induction rounds generalizing i j status array with
  | zero => exact Traced.retoldBy_fault
  | succ rounds ih =>
      rw [recordMessages, takeInMessages]
      split
      · exact Traced.retoldBy_pure _
      · refine (loadInteger_retells bytes data 4).bind fun payloadLen _ => ?_
        refine Traced.RetoldBy.note (by simp [Access.readsData]) ?_
        cases array[j]? with
        | none => exact Traced.retoldBy_fault
        | some sub =>
            refine Traced.RetoldBy.note ?_ ?_
            · intro access member
              rw [handedOn] at member
              split at member
              · cases member
              · split at member <;> simp at member <;> rcases member with rfl | rfl <;> rfl
            · exact (passedAt_retells _).bind fun filled _ => ih ..

/-- The recorded decoder tells the decoder again. -/
theorem recordVectorMsg_retells (memory : GetterMemory) (msg : OmnmPayloadImpl)
    (field : OmnmFieldImpl) (results : FieldResults) :
    Retells (recordVectorMsg memory msg field results)
      (omnmmsgFieldPayload_getVectorMsg memory msg field results) := by
  rw [recordVectorMsg, omnmmsgFieldPayload_getVectorMsg]
  split
  · exact Traced.retoldBy_pure _
  · unfold OmnmFieldImpl.dataOffset
    cases field.mData with
    | null | stray => exact Traced.retoldBy_fault
    | offset data =>
        simp only [pure_bind]
        refine (recordCount_retells ..).bind fun msgCount _ => ?_
        exact (recordMessages_retells ..).bind fun taken _ => Traced.retoldBy_pure _

end Omnm
