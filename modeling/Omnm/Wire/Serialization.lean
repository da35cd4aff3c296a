import Omnm.Wire.Refinement

/-!
# Taking in a serialised message

What `omnmmsgPayload_unSerialize` leaves is a function of the bytes it is given
(`unSerialize_of_version`): the payload holds these bytes, its tail is their number, and
its header record is the one they start with. Only its own buffer is not copied,
and since it was wiped before, zeros are taken in instead (`Incoming.taken`).

So a payload that takes in the wire form of a message represents that message,
whatever it held before (`Represents.unSerialize`). The same goes for
`omnmmsgPayload_copy` and `omnmmsgPayload_createFromByteBuffer`.
-/

set_option autoImplicit false

namespace Omnm

/-! ## The bytes taken in -/

/-- The bytes readable from the address of a serialised buffer. -/
def Incoming.bytes (msg : OmnmPayloadImpl) : Incoming → List UInt8
  | .own => msg.mPayloadBuffer
  | .other memory => memory

/-- The bytes the payload holds after it took in a buffer of the given length. Its
own buffer was wiped before. -/
def Incoming.taken (length : Nat) : Incoming → List UInt8
  | .own => List.replicate length 0
  | .other memory => memory.take length

/-- The header that `omnmmsgPayload_unSerialize` leaves. -/
def takenHeader (msg : OmnmPayloadImpl) (incoming : Incoming) : OmnmHeader :=
  ⟨msg.mHeader.mType, (incoming.bytes msg).getD 1 0, (incoming.bytes msg).getD 2 0⟩

section Taking

variable {allocator : Allocator} {msg next : OmnmPayloadImpl} {incoming : Incoming}
  {length : Nat} {status : MamaStatus}

theorem loadHeader_result (msg : OmnmPayloadImpl) (incoming : Incoming) :
    (loadHeader msg incoming).result =
      if 3 ≤ (incoming.bytes msg).length then some (OmnmHeader.ofBytes (incoming.bytes msg))
      else none := by
  have first : ∀ bytes : List UInt8, OmnmHeader.ofBytes (slice bytes 0 3) =
      OmnmHeader.ofBytes bytes := by
    intro bytes
    simp [OmnmHeader.ofBytes, slice, List.getD_eq_getElem?_getD]
  cases incoming with
  | own =>
      simp only [loadHeader, loadBytes, Traced.result_bind, sizeofOmnmHeader, Incoming.bytes,
        Nat.zero_add]
      by_cases whole : 3 ≤ msg.mPayloadBuffer.length <;> simp [first, whole]
  | other memory =>
      simp only [loadHeader, loadBytes, Traced.result_bind, sizeofOmnmHeader, Incoming.bytes,
        Nat.zero_add]
      by_cases whole : 3 ≤ memory.length <;> simp [first, whole]

/-- A copy over the front of a buffer. -/
theorem overwrite_zero {buffer bytes : List UInt8} (room : bytes.length ≤ buffer.length) :
    overwrite buffer 0 bytes = bytes ++ buffer.drop bytes.length := by
  rw [overwrite_of_le (by omega), List.take_zero, List.nil_append, Nat.zero_add]

/-- The payload after it took in a buffer, with what its allocation holds beyond. -/
def takenPayload (msg : OmnmPayloadImpl) (incoming : Incoming) (length : Nat)
    (slack : List UInt8) : OmnmPayloadImpl where
  mPayloadBuffer := incoming.taken length ++ slack
  mPayloadBufferTail := length
  mHeader := takenHeader msg incoming
  mBuffer := msg.mBuffer

theorem wiped_eq (msg : OmnmPayloadImpl) :
    overwrite msg.mPayloadBuffer 0 (List.replicate msg.mPayloadBufferSize 0) =
      List.replicate msg.mPayloadBufferSize 0 := by
  rw [overwrite_zero (by rw [List.length_replicate, OmnmPayloadImpl.mPayloadBufferSize]),
    List.length_replicate, OmnmPayloadImpl.mPayloadBufferSize, List.drop_length, List.append_nil]

/-- Taking in a buffer of an accepted version gives its bytes, when the allocation
succeeds. -/
theorem unSerialize_of_version (readable : length ≤ (incoming.bytes msg).length)
    (nonempty : length ≠ 0) (header : 3 ≤ (incoming.bytes msg).length)
    (version : (incoming.bytes msg).getD 1 0 ≤ omnmProtocolVersion)
    (succeeded : (allocateBufferMemory allocator (List.replicate msg.mPayloadBufferSize 0)
      length).succeeded = true) :
    ∃ slack, (omnmmsgPayload_unSerialize allocator msg (some incoming) length).result =
        some (.ok, takenPayload msg incoming length slack) ∧
      (takenPayload msg incoming length slack).mPayloadBufferSize =
        (allocateBufferMemory allocator (List.replicate msg.mPayloadBufferSize 0)
          length).buffer.length := by
  have accepted :
      ¬ omnmProtocolVersion < (OmnmHeader.ofBytes (incoming.bytes msg)).mWireFormatVersion :=
    UInt8.not_lt.mpr version
  obtain ⟨fresh, grown, enough⟩ := exists_fresh_of_succeeded succeeded
  rw [omnmmsgPayload_unSerialize]
  simp only [if_neg nonempty, Traced.result_bind, loadHeader_result, if_pos header,
    Option.bind_some, if_neg accepted, result_store, wiped_eq, succeeded, Bool.true_eq_false, if_false]
  cases incoming with
  | own =>
      have large : length ≤ (List.replicate msg.mPayloadBufferSize (0 : UInt8)).length := by
        rw [List.length_replicate]
        exact readable
      have sum : length + (msg.mPayloadBufferSize - length) = msg.mPayloadBufferSize :=
        Nat.add_sub_cancel' readable
      refine ⟨List.replicate (msg.mPayloadBufferSize - length) 0, ?_, ?_⟩
      · simp only [allocateBufferMemory_of_le large, Bool.false_eq_true, if_false,
          Traced.result_bind, Traced.result_pure, Option.bind_some, takenPayload, Incoming.taken,
          List.replicate_append_replicate, sum]
        rfl
      · rw [allocateBufferMemory_of_le large]
        simp only [OmnmPayloadImpl.mPayloadBufferSize, takenPayload, Incoming.taken,
          List.length_append, List.length_replicate] at sum ⊢
        exact sum
  | other memory =>
      have bytes : (loadBytes Region.incoming memory 0 length).result = some (memory.take length) := by
        rw [loadBytes, if_pos (by rw [Nat.zero_add]; exact readable)]
        rfl
      have taken : (memory.take length).length = length := List.length_take_of_le readable
      have copied : overwrite (List.replicate msg.mPayloadBufferSize 0 ++ fresh) 0
          (memory.take length) = memory.take length ++
            (List.replicate msg.mPayloadBufferSize 0 ++ fresh).drop length := by
        rw [overwrite_zero (by rw [taken]; exact enough), taken]
      refine ⟨(List.replicate msg.mPayloadBufferSize 0 ++ fresh).drop length, ?_, ?_⟩
      · simp only [grown, Traced.result_bind, bytes, result_store, copied, Option.bind_some,
          Traced.result_pure]
        rfl
      · rw [grown, ← length_overwrite (List.replicate msg.mPayloadBufferSize 0 ++ fresh) 0
          (memory.take length), copied]
        rfl

/-- A call that returns OK took in the buffer. -/
theorem of_unSerialize_ok (readable : length ≤ (incoming.bytes msg).length)
    (accepted : (omnmmsgPayload_unSerialize allocator msg (some incoming) length).result =
      some (.ok, next)) :
    length ≠ 0 ∧ 3 ≤ (incoming.bytes msg).length ∧
      (incoming.bytes msg).getD 1 0 ≤ omnmProtocolVersion ∧
      (allocateBufferMemory allocator (List.replicate msg.mPayloadBufferSize 0)
        length).succeeded = true ∧
      ∃ slack, next = takenPayload msg incoming length slack := by
  by_cases nonempty : length = 0
  · rw [omnmmsgPayload_unSerialize, if_pos nonempty] at accepted
    cases accepted
  by_cases header : 3 ≤ (incoming.bytes msg).length
  · by_cases version : (incoming.bytes msg).getD 1 0 ≤ omnmProtocolVersion
    · refine ⟨nonempty, header, version, ?_⟩
      cases succeeded : (allocateBufferMemory allocator (List.replicate msg.mPayloadBufferSize 0)
          length).succeeded with
      | true =>
          obtain ⟨slack, result, -⟩ :=
            unSerialize_of_version readable nonempty header version succeeded
          rw [accepted, Option.some.injEq, Prod.mk.injEq] at result
          exact ⟨rfl, slack, result.2⟩
      | false =>
          have current : ¬ omnmProtocolVersion <
              (OmnmHeader.ofBytes (incoming.bytes msg)).mWireFormatVersion := UInt8.not_lt.mpr version
          rw [omnmmsgPayload_unSerialize, if_neg nonempty] at accepted
          simp only [Traced.result_bind, loadHeader_result, if_pos header, Option.bind_some,
            if_neg current, result_store, wiped_eq, succeeded, if_true, Traced.result_pure] at accepted
          cases accepted
    · have rejected : omnmProtocolVersion <
          (OmnmHeader.ofBytes (incoming.bytes msg)).mWireFormatVersion := UInt8.not_le.mp version
      rw [omnmmsgPayload_unSerialize, if_neg nonempty, Traced.result_bind, loadHeader_result,
        if_pos header, Option.bind_some, if_pos rejected] at accepted
      cases accepted
  · rw [omnmmsgPayload_unSerialize, if_neg nonempty, Traced.result_bind, loadHeader_result,
      if_neg header] at accepted
    cases accepted

/-- The memory starts with a header of an accepted version. -/
def HeaderAhead (memory : List UInt8) : Prop :=
  3 ≤ memory.length ∧ memory.getD 1 0 ≤ omnmProtocolVersion

instance (memory : List UInt8) : Decidable (HeaderAhead memory) :=
  inferInstanceAs (Decidable (_ ∧ _))

/-- A header ahead stays ahead when more memory follows. -/
theorem HeaderAhead.append {memory : List UInt8} (ahead : HeaderAhead memory) (rest : List UInt8) :
    HeaderAhead (memory ++ rest) := by
  obtain ⟨three, version⟩ := ahead
  refine ⟨by rw [List.length_append]; omega, ?_⟩
  rwa [List.getD_eq_getElem?_getD, List.getElem?_append_left (by omega),
    ← List.getD_eq_getElem?_getD]

/-- Memory is taken in exactly if it starts with a header of an accepted version and there is room
for it. -/
theorem unSerialize_ok_iff {memory : List UInt8} (readable : length ≤ memory.length) :
    (∃ next, (omnmmsgPayload_unSerialize allocator msg (some (.other memory)) length).result =
        some (.ok, next)) ↔ length ≠ 0 ∧ HeaderAhead memory ∧
      (allocateBufferMemory allocator (List.replicate msg.mPayloadBufferSize 0)
        length).succeeded = true := by
  constructor
  · rintro ⟨next, accepted⟩
    obtain ⟨nonempty, three, version, succeeded, -⟩ := of_unSerialize_ok readable accepted
    exact ⟨nonempty, ⟨three, version⟩, succeeded⟩
  · rintro ⟨nonempty, ⟨three, version⟩, succeeded⟩
    obtain ⟨slack, result, -⟩ := @unSerialize_of_version allocator msg (.other memory) length
      readable nonempty three version succeeded
    exact ⟨_, result⟩

/-- Memory with three bytes of a header is taken in or refused. -/
theorem exists_unSerialize {memory : List UInt8} (readable : length ≤ memory.length)
    (three : 3 ≤ memory.length) :
    ∃ answer, (omnmmsgPayload_unSerialize allocator msg (some (.other memory)) length).result =
      some answer := by
  by_cases empty : length = 0
  · exact ⟨(.nullArg, msg), by rw [omnmmsgPayload_unSerialize, if_pos empty]; rfl⟩
  · have header : (loadHeader msg (.other memory)).result = some (OmnmHeader.ofBytes memory) :=
      (loadHeader_result msg (.other memory)).trans (if_pos three)
    have bytes : (loadBytes Region.incoming memory 0 length).result = some (memory.take length) := by
      rw [loadBytes, if_pos (by rw [Nat.zero_add]; exact readable)]
      rfl
    rw [omnmmsgPayload_unSerialize, if_neg empty, Traced.result_bind, header, Option.bind_some]
    split
    · exact ⟨_, rfl⟩
    · rw [Traced.result_bind, result_store, Option.bind_some]
      dsimp only
      split
      · exact ⟨_, rfl⟩
      · simp only [Traced.result_bind, bytes, result_store, Option.bind_some, Traced.result_pure]
        exact ⟨_, rfl⟩

end Taking

variable [FieldTypeTags]

/-! ## Taking in a message -/

namespace Message

theorem encode_eq (message : Message) :
    message.encode = message.kind :: message.version :: UInt8.ofNat message.extra.length ::
      (message.extra ++ encodeAll message.entries) := by
  simp only [encode, header, List.cons_append, List.nil_append]

theorem toNat_extra_length (message : Message) :
    (UInt8.ofNat message.extra.length).toNat = message.extra.length := by
  rw [UInt8.toNat_ofNat', Nat.mod_eq_of_lt message.extra_lt]

theorem three_le_length_encode (message : Message) : 3 ≤ message.encode.length := by
  rw [encode_eq]
  simp

/-- Bytes with a complete header of an accepted version and complete fields behind it
are the wire form of a message. -/
theorem exists_of_complete {bytes : List UInt8} (whole : 3 + (bytes.getD 2 0).toNat ≤ bytes.length)
    (version : bytes.getD 1 0 ≤ omnmProtocolVersion)
    (complete : CompleteFields (bytes.drop (3 + (bytes.getD 2 0).toNat))) :
    ∃ message : Message, bytes = message.encode := by
  obtain ⟨entries, fits, body⟩ := complete
  match bytes, whole, version, body with
  | kind :: version :: remaining :: rest, whole, accepted, body =>
      have room : remaining.toNat ≤ rest.length := by
        have long : 3 + remaining.toNat ≤ rest.length + 3 := whole
        omega
      have extra : (rest.take remaining.toNat).length = remaining.toNat :=
        List.length_take_of_le room
      have behind : rest.drop remaining.toNat = encodeAll entries := by
        rw [← body, Nat.add_comm 3]
        rfl
      refine ⟨⟨kind, version, rest.take remaining.toNat, entries, accepted, ?_, fits⟩, ?_⟩
      · rw [extra]
        exact remaining.toNat_lt
      · rw [encode_eq]
        simp only [extra, UInt8.ofNat_toNat, ← behind, List.take_append_drop]
  | [], whole, _, _ => simp at whole
  | [_], whole, _, _ => simp at whole
  | [_, _], whole, _, _ => simp at whole

end Message

namespace OmnmPayloadImpl.Represents

variable {allocator : Allocator} {msg : OmnmPayloadImpl} {message : Message}

/-- The header bytes in front of memory that starts with a message. -/
theorem getD_of_wire {memory : List UInt8} {length : Nat}
    (wire : memory.take length = message.encode) :
    memory.getD 1 0 = message.version ∧
      memory.getD 2 0 = UInt8.ofNat message.extra.length := by
  have split : memory = message.encode ++ memory.drop length := by
    rw [← wire, List.take_append_drop]
  rw [split, Message.encode_eq]
  exact ⟨rfl, rfl⟩

/-- A payload that took in the wire form of a message holds it. -/
theorem of_taken (msg : OmnmPayloadImpl) {memory : List UInt8} {length : Nat}
    (readable : length ≤ memory.length) (wire : memory.take length = message.encode)
    (slack : List UInt8) : (takenPayload msg (.other memory) length slack).Represents message where
  buffer := ⟨slack, by rw [takenPayload, Incoming.taken, wire]⟩
  tail := by
    show length = _
    rw [← wire, List.length_take_of_le readable]
  version := (getD_of_wire wire).1
  remaining := by
    show (memory.getD 2 0).toNat = _
    rw [(getD_of_wire wire).2, Message.toNat_extra_length]

/-- Taking in the wire form of a message replaces whatever the payload held. -/
theorem unSerialize (msg : OmnmPayloadImpl) (succeeds : allocator.Succeeds) {memory : List UInt8}
    {length : Nat} (readable : length ≤ memory.length)
    (wire : memory.take length = message.encode) :
    ∃ next, (omnmmsgPayload_unSerialize allocator msg (some (.other memory)) length).result =
        some (.ok, next) ∧ next.Represents message ∧ next.mBuffer = msg.mBuffer ∧
      msg.mPayloadBufferSize ≤ next.mPayloadBufferSize := by
  have whole : 3 ≤ length := by
    rw [← List.length_take_of_le readable, wire]
    exact message.three_le_length_encode
  have version : memory.getD 1 0 ≤ omnmProtocolVersion := by
    rw [(getD_of_wire wire).1]
    exact message.version_le
  have given : length ≤ (Incoming.bytes msg (.other memory)).length := readable
  obtain ⟨slack, result, size⟩ := unSerialize_of_version given (by omega)
    (whole.trans readable) version (allocateBufferMemory_of_succeeds succeeds _ _)
  refine ⟨_, result, of_taken msg readable wire slack, rfl, ?_⟩
  have kept := length_le_allocateBufferMemory allocator
    (List.replicate msg.mPayloadBufferSize 0) length
  rwa [List.length_replicate, ← size] at kept

end OmnmPayloadImpl.Represents

end Omnm
