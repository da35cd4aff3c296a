import Omnm.Payload.Fields

/-!
# What the mutators do to the bytes

The effect of `addField` and of the update of a located field on the payload
buffer, as exact equations between lists of bytes. Nothing is assumed about
what the bytes mean: the field that is added may have any data, and the data of
a field is replaced by any other.

The equations hold where the integer conversions of the source keep their
values. For `addField` this is a name whose length fits an `int`; for an update
that changes the length it is a tail that fits one.
-/

set_option autoImplicit false

namespace Omnm

/-! ## Clearing -/

/-- The payload that `clear` leaves: a default header and zeros. -/
def OmnmPayloadImpl.cleared (msg : OmnmPayloadImpl) : OmnmPayloadImpl where
  mPayloadBuffer := OmnmHeader.default.bytes ++ List.replicate (msg.mPayloadBufferSize - 3) 0
  mPayloadBufferTail := 3
  mHeader := OmnmHeader.default
  mBuffer := msg.mBuffer

theorem OmnmPayloadImpl.cleared_size {msg : OmnmPayloadImpl} (room : 3 ≤ msg.mPayloadBufferSize) :
    msg.cleared.mPayloadBufferSize = msg.mPayloadBufferSize := by
  have three : OmnmHeader.default.bytes.length = 3 := rfl
  rw [mPayloadBufferSize, cleared, List.length_append, List.length_replicate, three]
  omega

/-- `clear` overwrites the whole buffer of a payload with room for a header. -/
theorem OmnmPayloadImpl.clear_eq {msg : OmnmPayloadImpl} (room : 3 ≤ msg.mPayloadBufferSize)
    (tail : Nat) :
    msg.clear.result = some (.ok, msg.cleared) ∧
      Traced.Every (Access.Within msg.mPayloadBufferSize tail) msg.clear := by
  have three : OmnmHeader.default.bytes.length = 3 := rfl
  have size : msg.mPayloadBuffer.length = msg.mPayloadBufferSize := rfl
  have whole : (OmnmHeader.default.bytes ++
      List.replicate (msg.mPayloadBufferSize - 3) 0).length = msg.mPayloadBufferSize :=
    cleared_size room
  have wiped : overwrite (overwrite msg.mPayloadBuffer 0 OmnmHeader.default.bytes) 3
      (List.replicate (msg.mPayloadBufferSize - 3) 0) = msg.cleared.mPayloadBuffer := by
    rw [overwrite_behind (by rw [three]) (by rw [List.length_replicate, size]; omega),
      overwrite_of_le (by rw [Nat.zero_add, whole, size]), List.take_zero, List.nil_append,
      Nat.zero_add, whole, ← size, List.drop_length, List.append_nil]
    rfl
  constructor
  · simp only [clear, Traced.result_bind, result_store, Option.bind_some]
    exact congrArg (fun buffer => some (MamaStatus.ok, { msg.cleared with mPayloadBuffer := buffer }))
      wiped
  · simp only [clear, Traced.every_bind, every_store]
    refine ⟨?_, fun _ _ => ⟨?_, fun _ _ => Traced.every_pure _⟩⟩
    · exact room
    · show 3 + (List.replicate (msg.mPayloadBufferSize - 3) (0 : UInt8)).length ≤ _
      rw [List.length_replicate]
      omega

/-! ## Accepted arguments -/

/-- The arguments `addField` does not reject. -/
structure Accepted (name : Option CString) (fid : UInt16) (data : List UInt8) : Prop where
  length_le : data.length ≤ uint32Max
  some_data : data ≠ []
  key : validateNameFid name fid = none

theorem not_none_of_validateNameFid {name : Option CString} {fid : UInt16}
    (key : validateNameFid name fid = none) : ¬ (name = none ∧ fid = 0) := by
  rintro ⟨rfl, rfl⟩
  cases key

/-- The status with which `addField` rejects data that is not NULL, if it does. -/
def rejection (name : Option CString) (fid : UInt16) (data : List UInt8) : Option MamaStatus :=
  if uint32Max < data.length then some .invalidArg
  else if data = [] ∨ (name = none ∧ fid = 0) then some .nullArg
  else validateNameFid name fid

theorem accepted_iff_rejection {name : Option CString} {fid : UInt16} {data : List UInt8} :
    Accepted name fid data ↔ rejection name fid data = none := by
  unfold rejection
  constructor
  · intro accepted
    have noKey := not_none_of_validateNameFid accepted.key
    rw [if_neg (Nat.not_lt.mpr accepted.length_le), if_neg, accepted.key]
    rintro (empty | none)
    · exact accepted.some_data empty
    · exact noKey none
  · intro accepted
    split_ifs at accepted with long empty
    exact ⟨Nat.not_lt.mp long, fun none => empty (.inl none), accepted⟩

theorem validateNameFid_ne_ok {name : Option CString} {fid : UInt16} :
    validateNameFid name fid ≠ some .ok := by
  cases name with
  | none =>
      dsimp only [validateNameFid]
      split_ifs <;> simp
  | some name =>
      dsimp only [validateNameFid]
      split_ifs <;> simp

/-- A rejection is not reported as OK. -/
theorem rejection_ne_ok {name : Option CString} {fid : UInt16} {data : List UInt8} :
    rejection name fid data ≠ some .ok := by
  unfold rejection
  split_ifs
  · simp
  · simp
  · exact validateNameFid_ne_ok

theorem strlenEx_eq (name : Option CString) :
    strlenEx name + 1 = (name.getD CString.empty).terminated.length := by
  cases name with
  | none => rfl
  | some name => rw [Option.getD_some, CString.length_terminated, strlenEx]

theorem littleEndian_asUInt32 (value : Nat) :
    littleEndian 4 (asUInt32 value) = littleEndian 4 value := by
  have mod : asUInt32 value = value % 256 ^ 4 := by
    unfold asUInt32
    omega
  rw [mod, littleEndian_mod]

namespace OmnmPayloadImpl

/-- A name whose length fits an `int` is copied whole. -/
theorem insertName_eq {memory : List UInt8} {insertPoint : Nat} {name : Option CString}
    (short : strlenEx name + 1 < 2 ^ 31)
    (fits : insertPoint + (name.getD CString.empty).terminated.length < 2 ^ 64) :
    insertName memory insertPoint name (asInt32 (strlenEx name + 1)) = (do
      let memory ← store .message memory insertPoint (name.getD CString.empty).terminated
      pure (memory, insertPoint + (name.getD CString.empty).terminated.length)) := by
  cases name with
  | none => rfl
  | some name =>
      rw [strlenEx_eq, Option.getD_some] at short
      rw [Option.getD_some] at fits
      have length : asInt32 (strlenEx (some name) + 1) = name.terminated.length := by
        have cast : ((strlenEx (some name) : Int) + 1) = (name.terminated.length : Nat) := by
          rw [← Option.getD_some (a := name), ← strlenEx_eq]
          rfl
        rw [cast, asInt32_of_lt short]
      have size : asSize (name.terminated.length : Int) = name.terminated.length :=
        asSize_of_lt (by omega)
      have behind : asSize (insertPoint + (name.terminated.length : Int)) =
          insertPoint + name.terminated.length := by
        exact_mod_cast asSize_of_lt fits
      rw [insertName, length]
      simp only [size, behind, Nat.lt_irrefl, if_false, List.take_length, Option.getD_some]

end OmnmPayloadImpl

/-! ## Resizing -/

namespace OmnmPayloadImpl

variable {msg : OmnmPayloadImpl} {allocator : Allocator}

/-- The field handle after its buffer may have moved. -/
def reapplyField (moved : Bool) (field : OmnmFieldImpl) : OmnmFieldImpl :=
  { field with
    mName := reapplyOffset moved field.mName
    mData := reapplyOffset moved field.mData }

/-- The allocation of the move, which is made when the data grows, leaves room for
the difference. -/
theorem exists_allocation_of_delta (msg : OmnmPayloadImpl) (old length : Nat)
    (succeeds : allocator.Succeeds) :
    ∃ allocation : Allocation,
      (if 0 < (length : Int) - old then
        allocateBufferMemory allocator msg.mPayloadBuffer
          (msg.mPayloadBufferSize + ((length : Int) - old)).toNat
      else ⟨true, msg.mPayloadBuffer, false⟩) = allocation ∧
      ∃ fresh, allocation.buffer = msg.mPayloadBuffer ++ fresh ∧
        msg.mPayloadBufferSize + length ≤ (msg.mPayloadBuffer ++ fresh).length + old := by
  refine ⟨_, rfl, ?_⟩
  split
  · obtain ⟨fresh, grown, enough⟩ := exists_fresh_of_succeeded
      (allocateBufferMemory_of_succeeds succeeds msg.mPayloadBuffer
        (msg.mPayloadBufferSize + ((length : Int) - old)).toNat)
    exact ⟨fresh, grown, by omega⟩
  · refine ⟨[], by rw [List.append_nil], ?_⟩
    rw [List.append_nil, ← mPayloadBufferSize]
    omega

/-- Where the conversions keep their values, the move takes what follows the field behind the new
data. -/
theorem moveRest_of_small {field : OmnmFieldImpl} {data length behind : Nat}
    {allocation : Allocation} (tail : msg.mPayloadBufferTail = data + field.mSize + behind)
    (small : msg.mPayloadBufferTail < 2 ^ 31) (memory : length < 2 ^ 63)
    (allocated : (if 0 < (length : Int) - field.mSize then
        allocateBufferMemory allocator msg.mPayloadBuffer
          (msg.mPayloadBufferSize + ((length : Int) - field.mSize)).toNat
      else ⟨true, msg.mPayloadBuffer, false⟩) = allocation) :
    moveRest allocator msg field data length = (do
      let moved ← move .message allocation.buffer (data + length) (data + field.mSize) behind
      pure ({ msg with
          mPayloadBuffer := moved
          mPayloadBufferTail := data + length + behind },
        reapplyField allocation.moved field)) := by
  have delta : asInt64 length - asInt64 field.mSize = (length : Int) - field.mSize := by
    rw [asInt64_of_lt (by omega), asInt64_of_lt (by omega)]
  have nextByteOffset : asSize (data + field.mSize) = data + field.mSize := by
    exact_mod_cast asSize_of_lt (by omega)
  have target : asSize ((data + field.mSize : Nat) + ((length : Int) - field.mSize)) =
      data + length := by
    have same : ((data + field.mSize : Nat) : Int) + (length - field.mSize) =
        (data + length : Nat) := by omega
    rw [same, asSize_of_lt (by omega)]
  have count : asUInt32 (msg.mPayloadBufferTail - (data + field.mSize : Nat)) = behind := by
    have same : (msg.mPayloadBufferTail : Int) - (data + field.mSize : Nat) = (behind : Nat) := by
      omega
    rw [same, asUInt32_of_lt (by omega)]
  have newTail : asSize (asInt32 msg.mPayloadBufferTail + ((length : Int) - field.mSize)) =
      data + length + behind := by
    have same : (msg.mPayloadBufferTail : Int) + (length - field.mSize) =
        (data + length + behind : Nat) := by omega
    rw [asInt32_of_lt small, same, asSize_of_lt (by omega)]
  simp only [moveRest, delta, nextByteOffset, target, count, newTail, allocated]
  rfl

/-- The move leaves the bytes in front of the field and those behind it, with a gap
of the new length between them. -/
theorem moveRest_eq {field : OmnmFieldImpl} {front old back slack : List UInt8} {length : Nat}
    (buffer : msg.mPayloadBuffer = front ++ old ++ back ++ slack)
    (tail : msg.mPayloadBufferTail = front.length + old.length + back.length)
    (size : field.mSize = old.length) (succeeds : allocator.Succeeds)
    (small : msg.mPayloadBufferTail < 2 ^ 31) (memory : length < 2 ^ 63) :
    ∃ gap slack' moved,
      (moveRest allocator msg field front.length length).result = some
        ({ msg with
            mPayloadBuffer := front ++ gap ++ back ++ slack'
            mPayloadBufferTail := front.length + length + back.length },
          reapplyField moved field) ∧
      gap.length = length ∧
      msg.mPayloadBufferSize ≤ (front ++ gap ++ back ++ slack').length ∧
      Traced.Every (Access.Within (front ++ gap ++ back ++ slack').length msg.mPayloadBufferTail)
        (moveRest allocator msg field front.length length) := by
  have whole : msg.mPayloadBufferSize = front.length + old.length + back.length + slack.length := by
    rw [mPayloadBufferSize, buffer]
    simp only [List.length_append]
  obtain ⟨allocation, allocated, fresh, grown, enough⟩ :=
    exists_allocation_of_delta msg old.length length succeeds
  have room : front.length + length + back.length ≤ (msg.mPayloadBuffer ++ fresh).length := by
    omega
  have kept : msg.mPayloadBuffer ++ fresh = front ++ (old ++ back ++ slack ++ fresh) := by
    rw [buffer]
    simp only [List.append_assoc]
  have behind : slice (front ++ (old ++ back ++ slack ++ fresh)) (front.length + old.length)
      back.length = back := by
    have part := slice_append (front ++ old) back (slack ++ fresh)
    simpa only [List.append_assoc, List.length_append] using part
  obtain ⟨gap, slack', moved, gapLength⟩ := overwrite_gap (by rw [← kept]; exact room)
  have newLength : (front ++ gap ++ back ++ slack').length = (msg.mPayloadBuffer ++ fresh).length := by
    rw [← moved, length_overwrite, ← kept]
  rw [← size] at allocated tail
  rw [moveRest_of_small tail small memory allocated]
  refine ⟨gap, slack', allocation.moved, ?_, gapLength, ?_, ?_⟩
  · simp only [size, grown, Traced.result_bind, result_move, Option.bind_some, Traced.result_pure,
      behind, kept, moved]
  · rw [newLength, List.length_append]
    exact Nat.le_add_right ..
  · simp only [size, Traced.every_bind, every_move, Traced.every_pure, implies_true, and_true,
      Access.Within, newLength]
    rw [size] at tail
    refine ⟨room, ?_, tail.symm⟩
    rw [List.length_append, ← mPayloadBufferSize]
    omega

@[simp] theorem reapplyField_mFieldType (moved : Bool) (field : OmnmFieldImpl) :
    (reapplyField moved field).mFieldType = field.mFieldType := rfl

theorem reapplyField_false (field : OmnmFieldImpl) : reapplyField false field = field := by
  cases field
  rfl

/-- The part of an update that changes the length, made when it differs. -/
theorem resizeField_eq {field : OmnmFieldImpl} {front old back slack : List UInt8} {length : Nat}
    (buffer : msg.mPayloadBuffer = front ++ old ++ back ++ slack)
    (tail : msg.mPayloadBufferTail = front.length + old.length + back.length)
    (size : field.mSize = old.length) (exact : length = old.length ∨ msg.mPayloadBufferTail < 2 ^ 31)
    (succeeds : allocator.Succeeds) (memory : length < 2 ^ 63) :
    ∃ gap slack' moved,
      (resizeField allocator msg field front.length length).result = some
        ({ msg with
            mPayloadBuffer := front ++ gap ++ back ++ slack'
            mPayloadBufferTail := front.length + length + back.length },
          reapplyField moved field) ∧
      gap.length = length ∧
      msg.mPayloadBufferSize ≤ (front ++ gap ++ back ++ slack').length ∧
      Traced.Every (Access.Within (front ++ gap ++ back ++ slack').length msg.mPayloadBufferTail)
        (resizeField allocator msg field front.length length) := by
  by_cases same : length = old.length
  · rw [resizeField, if_neg (by rw [size]; exact not_not.mpr same)]
    refine ⟨old, slack, false, ?_, same.symm, ?_, Traced.every_pure _⟩
    · rw [Traced.result_pure, reapplyField_false, same, ← tail, ← buffer]
    · rw [mPayloadBufferSize, buffer]
  · rw [resizeField, if_pos (by rw [size]; exact same)]
    exact moveRest_eq buffer tail size succeeds (exact.resolve_left same) memory

end OmnmPayloadImpl

variable [FieldTypeTags]

/-! ## Appending -/

/-- The length in front of the data that the mutators write. -/
def writtenLength (type : UInt8) (length : Nat) : List UInt8 :=
  if isFieldTypeSized type then littleEndian 4 length else []

/-- The bytes `addField` writes. -/
def writtenField (type : UInt8) (fid : UInt16) (name : CString) (data : List UInt8) : List UInt8 :=
  [type] ++ littleEndian 2 fid.toNat ++ name.terminated ++ writtenLength type data.length ++ data

theorem length_writtenLength (type : UInt8) (length : Nat) :
    (writtenLength type length).length = if isFieldTypeSized type then 4 else 0 := by
  unfold writtenLength
  split <;> simp

theorem length_writtenField (type : UInt8) (fid : UInt16) (name : CString) (data : List UInt8) :
    (writtenField type fid name data).length =
      3 + name.terminated.length + (if isFieldTypeSized type then 4 else 0) + data.length := by
  simp only [writtenField, List.length_append, length_writtenLength, length_littleEndian,
    List.length_singleton]

/-- The five copies of `addField`, one behind the other, are one. -/
theorem overwrite_writtenField {memory : List UInt8} {tail : Nat} {type : UInt8} {fid : UInt16}
    {name : CString} {data : List UInt8}
    (room : tail + (writtenField type fid name data).length ≤ memory.length) :
    overwrite (overwrite (overwrite (overwrite (overwrite memory tail [type])
      (tail + 1) (littleEndian 2 fid.toNat)) (tail + 1 + 2) name.terminated)
      (tail + 1 + 2 + name.terminated.length) (writtenLength type data.length))
      (tail + 1 + 2 + name.terminated.length + (writtenLength type data.length).length) data =
      overwrite memory tail (writtenField type fid name data) := by
  rw [length_writtenField, ← length_writtenLength type data.length] at room
  have two : (littleEndian 2 fid.toNat).length = 2 := length_littleEndian ..
  rw [overwrite_behind rfl (by simp only [length_overwrite]; omega)]
  rw [overwrite_behind rfl (by simp only [length_overwrite, List.length_append]; omega)]
  rw [overwrite_behind (by rw [two]) (by simp only [length_overwrite, List.length_append]; omega)]
  rw [overwrite_behind (by rw [List.length_singleton])
    (by simp only [List.length_append, two]; omega)]
  simp only [writtenField, List.append_assoc]

namespace OmnmPayloadImpl

variable {msg : OmnmPayloadImpl} {type : UInt8} {name : Option CString} {fid : UInt16}
  {allocator : Allocator}

theorem insertLength_result {memory : List UInt8} {insertPoint length : Nat} :
    (insertLength memory insertPoint type length).result =
      some (overwrite memory insertPoint (writtenLength type length),
        insertPoint + (writtenLength type length).length) := by
  unfold insertLength writtenLength
  split
  · simp [littleEndian_asUInt32]
  · simp

theorem every_insertLength {memory : List UInt8} {insertPoint length limit tail : Nat}
    (ends : insertPoint + (writtenLength type length).length ≤ limit) :
    Traced.Every (Access.Within limit tail) (insertLength memory insertPoint type length) := by
  rw [length_writtenLength] at ends
  unfold insertLength
  split
  · rename_i sized
    rw [if_pos sized] at ends
    simpa [every_store, Access.Within] using ends
  · exact Traced.every_pure _

/-- The tail that `addField` computes is behind the field it writes. -/
theorem newTailOffset_eq {data : List UInt8} (short : strlenEx name + 1 < 2 ^ 31)
    (fits : msg.mPayloadBufferTail +
      (writtenField type fid (name.getD CString.empty) data).length < 2 ^ 64) :
    newTailOffset msg type name data.length =
      msg.mPayloadBufferTail + (writtenField type fid (name.getD CString.empty) data).length := by
  have length : asInt32 (strlenEx name + 1) = (name.getD CString.empty).terminated.length := by
    rw [← strlenEx_eq]
    exact_mod_cast asInt32_of_lt short
  rw [length_writtenField] at fits ⊢
  unfold newTailOffset
  rw [length]
  simp only [fieldTypeWidth, fidWidth, lengthWidth]
  have offset : asSize ((msg.mPayloadBufferTail : Int) + (1 : Nat) + (2 : Nat) +
      ((name.getD CString.empty).terminated.length : Nat) + (data.length : Nat)) =
      msg.mPayloadBufferTail + 1 + 2 + (name.getD CString.empty).terminated.length +
        data.length := by
    have small : msg.mPayloadBufferTail + 1 + 2 + (name.getD CString.empty).terminated.length +
        data.length < 2 ^ 64 := by
      split at fits <;> omega
    exact_mod_cast asSize_of_lt small
  rw [offset]
  split
  · rename_i sized
    rw [if_pos sized] at fits
    have behind : asSize ((msg.mPayloadBufferTail + 1 + 2 +
        (name.getD CString.empty).terminated.length + data.length : Nat) + (4 : Nat)) =
        msg.mPayloadBufferTail + 1 + 2 + (name.getD CString.empty).terminated.length +
          data.length + 4 := by
      exact_mod_cast asSize_of_lt (by omega)
    rw [behind]
    omega
  · omega

/-- Data that is NULL is rejected. -/
theorem addField_null : addField allocator msg type name fid none = pure (.nullArg, msg) := by
  simp [addField]

/-- A rejected call does nothing. -/
theorem addField_of_rejection {data : List UInt8} {status : MamaStatus}
    (rejected : rejection name fid data = some status) :
    addField allocator msg type name fid (some data) = pure (status, msg) := by
  rw [rejection] at rejected
  rw [addField, Option.getD_some]
  split_ifs at rejected ⊢
  · cases rejected
    rfl
  · cases rejected
    rfl
  · rw [rejected]

/-- `addField` appends the field it is given behind the tail. -/
theorem addField_of_accepted {data : List UInt8} (accepted : Accepted name fid data)
    (succeeds : allocator.Succeeds) (short : strlenEx name + 1 < 2 ^ 31)
    (fits : msg.mPayloadBufferTail +
      (writtenField type fid (name.getD CString.empty) data).length < 2 ^ 64)
    (inside : msg.mPayloadBufferTail ≤ msg.mPayloadBufferSize) :
    ∃ slack, (addField allocator msg type name fid (some data)).result = some (.ok, { msg with
        mPayloadBuffer :=
          msg.serialized ++ writtenField type fid (name.getD CString.empty) data ++ slack
        mPayloadBufferTail := msg.mPayloadBufferTail +
          (writtenField type fid (name.getD CString.empty) data).length }) ∧
      msg.mPayloadBufferSize ≤
        (msg.serialized ++ writtenField type fid (name.getD CString.empty) data ++ slack).length ∧
      Traced.Every (Access.Within (msg.mPayloadBufferTail +
          (writtenField type fid (name.getD CString.empty) data).length) msg.mPayloadBufferTail)
        (addField allocator msg type name fid (some data)) := by
  obtain ⟨fresh, grown, enough⟩ := exists_fresh_of_succeeded
    (allocateBufferMemory_of_succeeds succeeds msg.mPayloadBuffer
      (msg.mPayloadBufferTail + (writtenField type fid (name.getD CString.empty) data).length))
  have notNull : ¬ (data = [] ∨ (name = none ∧ fid = 0)) := by
    rintro (empty | none)
    · exact accepted.some_data empty
    · exact not_none_of_validateNameFid accepted.key none
  rw [addField, Option.getD_some, if_neg (Nat.not_lt.mpr accepted.length_le), if_neg notNull,
    accepted.key]
  simp only [newTailOffset_eq short fits, grown, fieldTypeWidth, fidWidth]
  have whole := length_writtenField type fid (name.getD CString.empty) data
  rw [← length_writtenLength type data.length] at whole
  have insert : ∀ memory : List UInt8, insertName memory (msg.mPayloadBufferTail + 1 + 2) name
      (asInt32 (strlenEx name + 1)) = _ := fun memory => insertName_eq short (by omega)
  have kept : (msg.mPayloadBuffer ++ fresh).take msg.mPayloadBufferTail = msg.serialized :=
    List.take_append_of_le_length inside
  simp only [insert]
  refine ⟨(msg.mPayloadBuffer ++ fresh).drop (msg.mPayloadBufferTail +
    (writtenField type fid (name.getD CString.empty) data).length), ?_, ?_, ?_⟩
  · simp only [Traced.result_bind, result_store, Option.bind_some, Traced.result_pure,
      insertLength_result, overwrite_writtenField enough, overwrite_of_le enough, kept]
  · rw [← kept, ← overwrite_of_le enough, length_overwrite, List.length_append]
    exact Nat.le_add_right ..
  · simp only [Traced.every_bind, every_store, Traced.result_bind, result_store, Option.bind_some,
      Traced.result_pure, insertLength_result, Option.some.injEq, forall_eq', Traced.every_pure,
      Access.Within, and_true, List.length_singleton, length_littleEndian, implies_true]
    refine ⟨by omega, by omega, by omega, every_insertLength (by omega), by omega⟩

/-! ## Replacing -/

/-- Writing the length of a field again replaces the one that stands there. -/
theorem rewriteLength_eq {front lengthPart : List UInt8} {limit : Nat}
    (width : lengthPart.length = if isFieldTypeSized type then 4 else 0)
    (inside : front.length + lengthPart.length ≤ limit) (rest : List UInt8) (length tail : Nat) :
    (rewriteLength (front ++ lengthPart ++ rest) type (front.length + lengthPart.length)
        length).result = some (front ++ writtenLength type length ++ rest) ∧
      Traced.Every (Access.Within limit tail)
        (rewriteLength (front ++ lengthPart ++ rest) type (front.length + lengthPart.length)
          length) := by
  cases sized : isFieldTypeSized type with
  | false =>
      rw [sized, if_neg (by simp)] at width
      have none := List.eq_nil_of_length_eq_zero width
      simp [rewriteLength, writtenLength, sized, none]
  | true =>
      rw [sized, if_pos rfl] at width
      have four : (littleEndian 4 length).length = lengthPart.length := by simp [width]
      have behind : ¬ front.length + lengthPart.length < 4 := by omega
      have start : front.length + lengthPart.length - 4 = front.length := by omega
      simp only [rewriteLength, sized, Bool.true_eq_false, if_false, if_neg behind, start,
        result_store, every_store, littleEndian_asUInt32, length_littleEndian, writtenLength,
        if_true]
      refine ⟨congrArg some (overwrite_append four.symm rest), ?_⟩
      rw [width] at inside
      exact inside

/-- A field handle that locates data in the buffer: what stands before its length,
its length, its data, what follows up to the tail, and what lies beyond. -/
structure Located (msg : OmnmPayloadImpl) (field : OmnmFieldImpl)
    (front lengthPart old back slack : List UInt8) : Prop where
  buffer : msg.mPayloadBuffer = front ++ lengthPart ++ old ++ back ++ slack
  tail : msg.mPayloadBufferTail = front.length + lengthPart.length + old.length + back.length
  width : lengthPart.length = if isFieldTypeSized field.mFieldType then 4 else 0
  data : field.mData = .offset (front.length + lengthPart.length)
  size : field.mSize = old.length

section Resized

variable {field : OmnmFieldImpl} {front lengthPart bytes : List UInt8}

/-- Behind the resizing, the length and the data are written into the gap. -/
theorem updateFieldHandle_of_resized {gap rest : List UInt8} {moved : Bool} {tail : Nat}
    (castable : ¬ (field.mFieldType ≠ type ∧ areFieldTypesCastable field.mFieldType type = false))
    (width : lengthPart.length = if isFieldTypeSized field.mFieldType then 4 else 0)
    (place : field.mData = .offset (front.length + lengthPart.length))
    (wide : gap.length = bytes.length)
    (resized : (resizeField allocator msg field (front.length + lengthPart.length)
        bytes.length).result = some ({ msg with
          mPayloadBuffer := front ++ lengthPart ++ gap ++ rest
          mPayloadBufferTail := tail }, reapplyField moved field)) :
    (msg.updateFieldHandle allocator type field (some bytes)).result = some (.ok, { msg with
        mPayloadBuffer := front ++ writtenLength field.mFieldType bytes.length ++ bytes ++ rest
        mPayloadBufferTail := tail }, reapplyField moved field) ∧
      ∀ {limit : Nat}, front.length + lengthPart.length + bytes.length ≤ limit →
        Traced.Every (Access.Within limit msg.mPayloadBufferTail)
          (resizeField allocator msg field (front.length + lengthPart.length) bytes.length) →
        Traced.Every (Access.Within limit msg.mPayloadBufferTail)
          (msg.updateFieldHandle allocator type field (some bytes)) := by
  rw [List.append_assoc _ gap] at resized
  have start : front.length + lengthPart.length =
      (front ++ writtenLength field.mFieldType bytes.length).length := by
    rw [List.length_append, length_writtenLength, width]
  have filled : overwrite (front ++ writtenLength field.mFieldType bytes.length ++ (gap ++ rest))
      (front.length + lengthPart.length) bytes =
      front ++ writtenLength field.mFieldType bytes.length ++ bytes ++ rest := by
    rw [start, ← List.append_assoc]
    exact overwrite_append wide rest
  constructor
  · have rewritten := (@rewriteLength_eq _ field.mFieldType front lengthPart _ width (Nat.le_refl _)
      (gap ++ rest) bytes.length 0).1
    simp only [updateFieldHandle, if_neg castable, place, Traced.result_bind, resized,
      Option.bind_some, reapplyField_mFieldType, rewritten, result_store, filled,
      Traced.result_pure]
  · intro limit inside resizes
    obtain ⟨rewritten, rewrites⟩ := @rewriteLength_eq _ field.mFieldType front lengthPart limit width
      (by omega) (gap ++ rest) bytes.length msg.mPayloadBufferTail
    simp only [updateFieldHandle, if_neg castable, place, Traced.every_bind, resized,
      Option.some.injEq, forall_eq', reapplyField_mFieldType, rewritten, every_store,
      Traced.every_pure, implies_true, and_true]
    exact ⟨resizes, rewrites, inside⟩

end Resized

/-- Replacing the data of a located field leaves the bytes in front of the field
and those behind it, and writes the length and the data between them. -/
theorem updateFieldHandle_eq {field : OmnmFieldImpl}
    {front lengthPart old back slack : List UInt8}
    (located : msg.Located field front lengthPart old back slack) (bytes : List UInt8)
    (castable : ¬ (field.mFieldType ≠ type ∧ areFieldTypesCastable field.mFieldType type = false))
    (exact : bytes.length = old.length ∨ msg.mPayloadBufferTail < 2 ^ 31)
    (succeeds : allocator.Succeeds) (memory : bytes.length < 2 ^ 63) :
    ∃ slack' moved,
      (updateFieldHandle allocator msg type field (some bytes)).result = some (.ok,
        { msg with
          mPayloadBuffer :=
            front ++ writtenLength field.mFieldType bytes.length ++ bytes ++ back ++ slack'
          mPayloadBufferTail :=
            front.length + lengthPart.length + bytes.length + back.length },
        reapplyField moved field) ∧
      msg.mPayloadBufferSize ≤
        (front ++ lengthPart ++ bytes ++ back ++ slack').length ∧
      Traced.Every (Access.Within (front ++ lengthPart ++ bytes ++ back ++ slack').length
          msg.mPayloadBufferTail)
        (updateFieldHandle allocator msg type field (some bytes)) := by
  obtain ⟨buffer, tail, width, data, size⟩ := located
  rw [← List.length_append] at tail
  obtain ⟨gap, slack', moved, resized, gapLength, grown, every⟩ :=
    resizeField_eq buffer tail size exact succeeds memory
  have whole : (front ++ lengthPart ++ gap ++ back ++ slack').length =
      (front ++ lengthPart ++ bytes ++ back ++ slack').length := by
    simp only [List.length_append, gapLength]
  rw [whole] at grown every
  have dataStart : (front ++ lengthPart).length = front.length + lengthPart.length :=
    List.length_append
  rw [dataStart] at resized every
  rw [List.append_assoc _ back] at resized
  obtain ⟨result, within⟩ := updateFieldHandle_of_resized castable width data gapLength resized
  refine ⟨slack', moved, ?_, grown, within ?_ every⟩
  · rw [List.append_assoc _ back]
    exact result
  · simp only [List.length_append]
    omega

end OmnmPayloadImpl

/-! ## Updating by key -/

section

variable {msg : OmnmPayloadImpl} {type : UInt8} {name : Option CString} {fid : UInt16}
  {field : OmnmFieldImpl}

open OmnmPayloadImpl

/-- An update without data or without a key is refused. -/
theorem updateField_null {allocator : Allocator} {buffer : Option (List UInt8)}
    (null : buffer = none ∨ (name = none ∧ fid = 0)) :
    msg.updateField allocator type name fid buffer = pure (.nullArg, msg) :=
  if_pos null

/-- What an update does once its lookup has returned. -/
def updateFound (allocator : Allocator) (msg : OmnmPayloadImpl) (type : UInt8)
    (name : Option CString) (fid : UInt16) (bytes : List UInt8) :
    Option OmnmFieldImpl → Traced Region (MamaStatus × OmnmPayloadImpl)
  | none => msg.addField allocator type name fid (some bytes)
  | some field =>
      if field.mFieldType ≠ type ∧ areFieldTypesCastable field.mFieldType type = false then
        pure (.wrongFieldType, msg)
      else do
        let (status, msg, _) ← msg.updateFieldHandle allocator type field (some bytes)
        pure (status, msg)

theorem updateField_eq {allocator : Allocator} (key : ¬ (name = none ∧ fid = 0))
    (bytes : List UInt8) :
    msg.updateField allocator type name fid (some bytes) =
      msg.findFieldInBuffer name fid >>= updateFound allocator msg type name fid bytes := by
  have given : ¬ (some bytes = none ∨ (name = none ∧ fid = 0)) := by
    rintro (null | none)
    · cases null
    · exact key none
  rw [OmnmPayloadImpl.updateField, if_neg given]
  refine congrArg _ ?_
  funext found
  cases found <;> rfl

theorem updateField_of_search {allocator : Allocator} {found : Option OmnmFieldImpl}
    (key : ¬ (name = none ∧ fid = 0)) (search : (msg.findFieldInBuffer name fid).result = some found)
    (bytes : List UInt8) :
    (msg.updateField allocator type name fid (some bytes)).result =
      (updateFound allocator msg type name fid bytes found).result := by
  rw [updateField_eq key, Traced.result_bind, search, Option.bind_some]

theorem updateFound_refused {allocator : Allocator}
    (refused : field.mFieldType ≠ type ∧ areFieldTypesCastable field.mFieldType type = false)
    (bytes : List UInt8) :
    updateFound allocator msg type name fid bytes (some field) = pure (.wrongFieldType, msg) :=
  if_pos refused

theorem updateFound_castable {allocator : Allocator}
    (castable : ¬ (field.mFieldType ≠ type ∧ areFieldTypesCastable field.mFieldType type = false))
    (bytes : List UInt8) :
    updateFound allocator msg type name fid bytes (some field) =
      msg.updateFieldHandle allocator type field (some bytes) >>= fun outcome =>
        pure (outcome.1, outcome.2.1) :=
  if_neg castable

end

end Omnm
