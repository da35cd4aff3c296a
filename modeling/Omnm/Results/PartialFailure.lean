import Omnm.Wire.MessageVectors

/-!
# Vectors of messages that are refused in part

The decoder of a vector of messages keeps one status for the whole loop, so what
it returns is the status of the last message. A message in front of it that is
refused leaves no trace in the status, and its place in the array holds what an
earlier call left there. So a refusal is reported exactly if the last message is
refused too, or none is (`partial_failure_reported_iff`).
-/

set_option autoImplicit false

namespace Omnm

section

/-- `omnmmsgPayload_unSerialize` takes in the bytes at an address. -/
def UnSerializeAccepts (memory : GetterMemory) (address : List UInt8) (length : Nat) : Prop :=
  ∃ next, (omnmmsgPayload_unSerialize memory.payload newPayload (some (.other address))
    length).result = some (.ok, next)

/-- The getter returns OK exactly if every message is taken in, and then every payload it gives
has the bytes of its own message. -/
structure ReportsPartialFailure (memory : GetterMemory) (src : OmnmPayloadImpl)
    (field : OmnmFieldImpl) (results : FieldResults) (messages : List (List UInt8))
    (behind : List UInt8) : Prop where
  ok_iff : (∃ value kept, (omnmmsgFieldPayload_getVectorMsg memory src field results).result =
      some (.ok, value, kept)) ↔
    ∀ before message after, messages = before ++ message :: after →
      UnSerializeAccepts memory (message ++ (messageRecords after ++ behind)) message.length
  own : ∀ array count kept, (omnmmsgFieldPayload_getVectorMsg memory src field results).result =
      some (.ok, (array, count), kept) →
    ∃ subs : List OmnmPayloadImpl, array.take count = subs.map some ∧
      subs.map OmnmPayloadImpl.serialized = messages

/-- A message is not empty, and a header of an accepted version stands where it starts. -/
def Acceptable (message behind : List UInt8) : Prop := message ≠ [] ∧ HeaderAhead (message ++ behind)

instance (message behind : List UInt8) : Decidable (Acceptable message behind) :=
  inferInstanceAs (Decidable (_ ∧ _))

theorem unSerializeAccepts_iff {memory : GetterMemory} (succeeds : memory.payload.Succeeds)
    (message behind : List UInt8) :
    UnSerializeAccepts memory (message ++ behind) message.length ↔ Acceptable message behind := by
  rw [UnSerializeAccepts, unSerialize_ok_iff (List.length_append ▸ Nat.le_add_right ..), Acceptable,
    ne_eq, List.length_eq_zero_iff, and_iff_left (allocateBufferMemory_of_succeeds succeeds ..)]

/-! ## The status of the last message -/

variable {memory : GetterMemory} {bytes : List UInt8} {data size payloadLen : Nat}

/-- One round of the loop. -/
theorem takeInMessages_round (front : (loadInteger Region.message bytes data 4).result =
      some payloadLen) {i j rounds : Nat} (inside : i < size) {status : MamaStatus}
    {array : List (Option OmnmPayloadImpl)} (room : j < array.length) :
    (takeInMessages memory bytes data size (rounds + 1) i j status array).result =
      (fillSubPayload memory array[j] (bytes.drop (data + i + 4)) payloadLen).result.bind
        fun (status, sub) =>
          (takeInMessages memory bytes data size rounds (i + payloadLen + 4) (j + 1) status
            (array.set j sub)).result := by
  rw [takeInMessages, if_neg (Nat.not_le.mpr inside), Traced.result_bind, front, Option.bind_some]
  simp only [List.getElem?_eq_getElem room, Traced.result_bind]

/-- The loop over messages of one length ends with the status of the last one. -/
theorem takeInMessages_ok_iff (succeeds : memory.payload.Succeeds)
    (front : (loadInteger Region.message bytes data 4).result = some payloadLen)
    {messages : List (List UInt8)} {message rest : List UInt8} {i j rounds : Nat}
    (here : bytes.drop (data + i) = messageRecords (messages ++ [message]) ++ rest)
    (ends : i + (messageRecords (messages ++ [message])).length = size)
    (enough : messages.length + 1 < rounds)
    (same : ∀ other ∈ messages ++ [message], other.length = payloadLen)
    {status : MamaStatus} {array : List (Option OmnmPayloadImpl)}
    (room : j + messages.length < array.length) :
    (∃ after, (takeInMessages memory bytes data size rounds i j status array).result =
      some (.ok, after)) ↔ Acceptable message rest := by
  obtain ⟨rounds, rfl⟩ := Nat.exists_eq_succ_of_ne_zero (Nat.ne_of_gt (Nat.zero_lt_of_lt enough))
  induction messages generalizing i j rounds status array with
  | nil =>
      have length : message.length = payloadLen := same message (List.mem_singleton_self _)
      obtain ⟨rounds, rfl⟩ := Nat.exists_eq_succ_of_ne_zero (show rounds ≠ 0 by simp at enough; omega)
      rw [List.nil_append, messageRecords_cons] at here ends
      rw [List.append_assoc] at here
      have start := drop_behind here
      simp only [length_littleEndian, messageRecords, List.flatMap_nil, List.append_nil,
        List.length_append] at start ends
      have last : (fun (answer : MamaStatus × Option OmnmPayloadImpl) =>
          (takeInMessages memory bytes data size (rounds + 1) (i + payloadLen + 4) (j + 1) answer.1
            (array.set j answer.2)).result) = fun answer => some (answer.1, array.set j answer.2) := by
        funext answer
        rw [takeInMessages, if_pos (by omega)]
        rfl
      have accepts := @fillSubPayload_ok_iff memory array[j] (message ++ rest) message.length
        (List.length_append ▸ Nat.le_add_right ..)
      rw [ne_eq, List.length_eq_zero_iff,
        and_iff_left (allocateBufferMemory_of_succeeds succeeds ..)] at accepts
      rw [takeInMessages_round front (by omega) (by simpa using room), start, last, Acceptable,
        ← accepts, length]
      simp [Option.bind_eq_some_iff]
  | cons first messages ih =>
      have length : first.length = payloadLen := same first (List.mem_cons_self ..)
      rw [List.cons_append, messageRecords_cons] at here ends
      rw [List.append_assoc, List.append_assoc] at here
      have start := drop_behind here
      rw [length_littleEndian] at start
      have behind := drop_behind start
      simp only [length_littleEndian, List.length_append, List.length_cons] at ends enough room
      -- behind a message that is not the last one there are the four bytes of a length
      have four : 4 ≤ (messageRecords (messages ++ [message])).length := by
        have part := @length_le_messageRecords message (messages ++ [message])
          (List.mem_append_right _ (List.mem_singleton_self _))
        omega
      have inside : j < array.length := by omega
      obtain ⟨⟨answer, sub⟩, filled⟩ := @exists_fillSubPayload memory
        array[j] (bytes.drop (data + i + 4)) payloadLen
        (by rw [start, List.length_append, length]; exact Nat.le_add_right ..)
        (by intro; rw [start, List.length_append, List.length_append]; omega)
      have next : data + i + 4 + first.length = data + (i + payloadLen + 4) := by omega
      rw [next] at behind
      rw [takeInMessages_round front (by omega) inside, filled, Option.bind_some]
      obtain ⟨rounds, rfl⟩ := Nat.exists_eq_succ_of_ne_zero (show rounds ≠ 0 by omega)
      exact ih behind (by omega) (fun other member => same other (List.mem_cons_of_mem _ member))
        (show j + 1 + messages.length < (array.set j sub).length by rw [List.length_set]; omega)
        rounds (by omega)

end

/-- On the data of messages of one length, of a field of any payload and over anything kept from
earlier calls, refusals are reported exactly if the last message is refused or all are taken in. -/
theorem partial_failure_reported_iff {src : OmnmPayloadImpl} {field : OmnmFieldImpl}
    {entry : FieldEntry} (handled : entry.HandledBy src field) {messages : List (List UInt8)}
    (some_messages : messages ≠ []) (records : entry.data = messageRecords messages)
    (four : entry.data.length < 2 ^ 32)
    (same : ∀ message ∈ messages, ∀ other ∈ messages, message.length = other.length)
    {offset : Nat} {behind : List UInt8} (pointer : field.mData = .offset offset)
    (here : src.mPayloadBuffer.drop offset = entry.data ++ behind) {memory : GetterMemory}
    (succeeds : memory.payload.Succeeds) (arrays : memory.arrays = true) (results : FieldResults) :
    ReportsPartialFailure memory src field results messages behind ↔
      (Acceptable (messages.getLast some_messages) behind →
        ∀ before message after, messages = before ++ message :: after →
          Acceptable message (messageRecords after ++ behind)) := by
  obtain ⟨payloadLen, array, equal, front, room, wide, got⟩ :=
    handled.getVectorMsg_of_records arrays some_messages records four same pointer here results
  have split := List.dropLast_append_getLast some_messages
  have returns : (∃ value kept, (omnmmsgFieldPayload_getVectorMsg memory src field
      results).result = some (.ok, value, kept)) ↔
      Acceptable (messages.getLast some_messages) behind := by
    have count : messages.dropLast.length + 1 = messages.length := by
      rw [List.length_dropLast]
      exact Nat.sub_add_cancel (List.length_pos_iff.mpr some_messages)
    rw [records] at here
    rw [← @takeInMessages_ok_iff memory src.mPayloadBuffer offset _ payloadLen succeeds front
      messages.dropLast (messages.getLast some_messages) behind 0 0
      ((messageRecords messages).length + 1) (by rw [split]; exact here)
      (by rw [Nat.zero_add]) (by omega) (by rw [split]; exact equal) .ok array (by omega), split, got]
    constructor
    · rintro ⟨value, kept, returned⟩
      obtain ⟨⟨status, after⟩, taken, same⟩ := Option.map_eq_some_iff.mp returned
      cases same
      exact ⟨after, taken⟩
    · rintro ⟨after, taken⟩
      exact ⟨_, _, by rw [taken]; rfl⟩
  constructor
  · intro reports acceptable before message after whole
    rw [← unSerializeAccepts_iff succeeds]
    exact reports.ok_iff.mp (returns.mpr acceptable) before message after whole
  · intro enough
    constructor
    · rw [returns]
      constructor
      · intro acceptable before message after whole
        rw [unSerializeAccepts_iff succeeds]
        exact enough acceptable before message after whole
      · intro all
        have last := all messages.dropLast (messages.getLast some_messages) [] split.symm
        rwa [messageRecords, List.flatMap_nil, List.nil_append, unSerializeAccepts_iff succeeds]
          at last
    · intro array' count kept returned
      have all := enough (returns.mp ⟨_, _, returned⟩)
      obtain ⟨subs, array', kept', result, start, own⟩ := handled.getVectorMsg succeeds arrays
        some_messages records four same
        (fun message member => by
          obtain ⟨before, after, whole⟩ := List.append_of_mem member
          exact (all before message after whole).1)
        pointer here (fun before message after whole => (all before message after whole).2) results
      cases returned.symm.trans result
      exact ⟨subs, start, own⟩

section Example

attribute [local instance] mamaFieldTypes

/-- A field with two messages of three bytes, of which the first has the given version. -/
def twoMessages (version : UInt8) : FieldEntry :=
  ⟨mamaFieldTypeNumber .vectorMsg, 1, CString.empty, messageRecords [[79, version, 0], [79, 1, 0]]⟩

/-- A payload with this field. -/
def twoMessagesPayload (version : UInt8) : OmnmPayloadImpl :=
  (Message.empty.append (twoMessages version)
    (show (14 : Nat) < 2 ^ 32 by decide)).payload

theorem twoMessages_handled (version : UInt8) :
    (twoMessages version).HandledBy (twoMessagesPayload version)
      ((twoMessages version).handle 3 .null) :=
  FieldEntry.handledBy_of_drop (by change dataLayout (mamaFieldTypeNumber .vectorMsg) ≠ _; decide)
    (show (twoMessagesPayload version).mPayloadBuffer.drop 3 = (twoMessages version).encode ++ []
      from rfl) .null

theorem partial_failure_reported_none :
    ReportsPartialFailure ⟨.zeroing, true⟩ (twoMessagesPayload 1) ((twoMessages 1).handle 3 .null)
      FieldResults.none [[79, 1, 0], [79, 1, 0]] [] :=
  (partial_failure_reported_iff (twoMessages_handled 1) (List.cons_ne_nil _ _) rfl (by decide)
    (by decide) (show _ = BufferPtr.offset 11 from rfl)
    (show (twoMessagesPayload 1).mPayloadBuffer.drop 11 = _ ++ [] from rfl)
    Allocator.zeroing_succeeds rfl FieldResults.none).mpr fun _ before message after whole => by
      have member : message ∈ [[79, 1, 0], [79, 1, 0]] :=
        whole ▸ List.mem_append_right _ (List.mem_cons_self ..)
      obtain rfl : message = [79, 1, 0] := by simpa using member
      exact ⟨by decide, HeaderAhead.append (by decide) _⟩

/-- A first message of a version that is not known is refused, and the call returns OK with an
empty payload in its place. -/
theorem refused_message_not_reported :
    ¬ UnSerializeAccepts ⟨.zeroing, true⟩ [79, 9, 0, 3, 0, 0, 0, 79, 1, 0] 3 ∧
      ((omnmmsgFieldPayload_getVectorMsg ⟨.zeroing, true⟩ (twoMessagesPayload 9)
          ((twoMessages 9).handle 3 .null) FieldResults.none).result.map fun got =>
        (got.1, got.2.1.1.map (Option.map OmnmPayloadImpl.serialized), got.2.1.2)) =
          some (.ok, [some [79, 1, 0], some [79, 1, 0]], 2) ∧
      ¬ ReportsPartialFailure ⟨.zeroing, true⟩ (twoMessagesPayload 9)
        ((twoMessages 9).handle 3 .null) FieldResults.none [[79, 9, 0], [79, 1, 0]] [] := by
  have refused : ¬ UnSerializeAccepts ⟨.zeroing, true⟩ [79, 9, 0, 3, 0, 0, 0, 79, 1, 0] 3 := by
    have wrong : ((omnmmsgPayload_unSerialize .zeroing newPayload
        (some (.other [79, 9, 0, 3, 0, 0, 0, 79, 1, 0])) 3).result.map Prod.fst) =
          some .wrongFieldType := by
      decide +kernel
    rintro ⟨next, accepted⟩
    rw [accepted] at wrong
    cases wrong
  have outcome : ((omnmmsgFieldPayload_getVectorMsg ⟨.zeroing, true⟩ (twoMessagesPayload 9)
      ((twoMessages 9).handle 3 .null) FieldResults.none).result.map fun got =>
        (got.1, got.2.1.1.map (Option.map OmnmPayloadImpl.serialized), got.2.1.2)) =
          some (.ok, [some [79, 1, 0], some [79, 1, 0]], 2) := by
    decide +kernel
  refine ⟨refused, outcome, fun reports => refused ?_⟩
  obtain ⟨⟨status, value, kept⟩, returned, same⟩ := Option.map_eq_some_iff.mp outcome
  obtain rfl : status = .ok := (Prod.mk.inj same).1
  exact reports.ok_iff.mp ⟨value, kept, returned⟩ [] [79, 9, 0] [[79, 1, 0]] rfl

end Example

end Omnm
