import Omnm.Payload.Preparation
import Omnm.Wire.Values

/-!
# The decoder of a vector of messages

A vector of messages is its messages, each behind its length. Both loops of the
decoder read the length at the front of the data in every round, so they walk in
steps of the first message. Over messages of that one length they count and take
in all of them (`countMessages_eq`, `takeInMessages_eq`). Over any data, what the
second loop leaves in a kept payload has the length of the first message or the
length it had before (`length_of_takeInMessages`).
-/

set_option autoImplicit false

namespace Omnm

variable {memory : GetterMemory} {bytes : List UInt8} {data size payloadLen : Nat}

/-- The rounds of the count, when the steps end at the end of the data. -/
theorem countMessages_eq
    (front : (loadInteger Region.message bytes data 4).result = some payloadLen)
    {count i rounds : Nat} (ends : i + count * (payloadLen + 4) = size) (enough : count < rounds) :
    (countMessages bytes data size rounds i).result = some count := by
  induction count generalizing i rounds with
  | zero =>
      obtain ⟨rounds, rfl⟩ := Nat.exists_eq_succ_of_ne_zero (Nat.ne_of_gt enough)
      rw [countMessages, if_pos (by omega)]
      rfl
  | succ count ih =>
      obtain ⟨rounds, rfl⟩ := Nat.exists_eq_succ_of_ne_zero (Nat.ne_of_gt (Nat.zero_lt_of_lt enough))
      rw [Nat.succ_mul] at ends
      have later : (countMessages bytes data size rounds (i + payloadLen + 4)).result =
          some count := ih (by omega) (Nat.lt_of_succ_lt_succ enough)
      rw [countMessages, if_neg (by omega), Traced.result_bind, front, Option.bind_some,
        Traced.result_bind, later]
      rfl

theorem messageRecords_cons (message : List UInt8) (messages : List (List UInt8)) :
    messageRecords (message :: messages) =
      littleEndian 4 message.length ++ (message ++ messageRecords messages) := by
  rw [messageRecords, List.flatMap_cons, List.append_assoc]
  rfl

/-- Messages of the length that every round reads are taken in one after another. -/
theorem takeInMessages_eq (succeeds : memory.payload.Succeeds)
    (front : (loadInteger Region.message bytes data 4).result = some payloadLen)
    {messages : List (List UInt8)} {rest : List UInt8} {i rounds : Nat}
    (here : bytes.drop (data + i) = messageRecords messages ++ rest)
    (ends : i + (messageRecords messages).length = size) (enough : messages.length < rounds)
    (same : ∀ message ∈ messages, message.length = payloadLen) (nonempty : payloadLen ≠ 0)
    (header : ∀ before message after, messages = before ++ message :: after →
      HeaderAhead (message ++ (messageRecords after ++ rest)))
    {status : MamaStatus} {done todo : List (Option OmnmPayloadImpl)}
    (room : messages.length ≤ todo.length) :
    ∃ subs : List OmnmPayloadImpl,
      (takeInMessages memory bytes data size rounds i done.length status (done ++ todo)).result =
        some (if messages = [] then status else .ok,
          done ++ subs.map some ++ todo.drop messages.length) ∧
      subs.map OmnmPayloadImpl.serialized = messages := by
  induction messages generalizing i rounds status done todo with
  | nil =>
      obtain ⟨rounds, rfl⟩ := Nat.exists_eq_succ_of_ne_zero (Nat.ne_of_gt enough)
      refine ⟨[], ?_, rfl⟩
      rw [takeInMessages, if_pos (Nat.le_of_eq (ends.symm.trans (Nat.add_zero i)))]
      simp
  | cons message messages ih =>
      obtain ⟨rounds, rfl⟩ := Nat.exists_eq_succ_of_ne_zero (Nat.ne_of_gt (Nat.zero_lt_of_lt enough))
      obtain ⟨sub, todo, rfl⟩ := List.exists_cons_of_length_pos (Nat.zero_lt_of_lt room)
      have length := same message (List.mem_cons_self ..)
      obtain ⟨three, version⟩ := header [] message messages rfl
      rw [messageRecords_cons, List.append_assoc, List.append_assoc] at here
      rw [messageRecords_cons, List.length_append, List.length_append, length_littleEndian] at ends
      -- the message behind its length
      have start := drop_behind here
      rw [length_littleEndian] at start
      have behind := drop_behind start
      rw [← start] at three version
      have readable : payloadLen ≤ (bytes.drop (data + i + 4)).length := by
        rw [start, List.length_append, length]
        exact Nat.le_add_right ..
      obtain ⟨filled, result, serialized⟩ :=
        fillSubPayload_eq succeeds sub nonempty ⟨three, version⟩ readable
      have next : data + i + 4 + message.length = data + (i + payloadLen + 4) := by omega
      rw [next] at behind
      obtain ⟨subs, taken, all⟩ := @ih (i + payloadLen + 4) rounds behind (by omega)
        (Nat.lt_of_succ_lt_succ enough)
        (fun other member => same other (List.mem_cons_of_mem _ member))
        (fun before other after split => header (message :: before) other after (by
          rw [split, List.cons_append]))
        .ok (done ++ [some filled]) todo (Nat.le_of_succ_le_succ room)
      have set : (done ++ sub :: todo).set done.length (some filled) =
          done ++ [some filled] ++ todo := by simp
      have found : (done ++ sub :: todo)[done.length]? = some sub := by simp
      rw [ite_self, List.length_append, List.length_singleton] at taken
      refine ⟨filled :: subs, ?_, ?_⟩
      · rw [takeInMessages, if_neg (by omega), Traced.result_bind, front, Option.bind_some,
          if_neg (List.cons_ne_nil message messages)]
        simp only [found, Traced.result_bind, result, Option.bind_some, set, taken]
        simp
      · rw [List.map_cons, all, serialized, start, ← length, List.take_left]

/-! ## Lengths -/

/-- A payload that took in a buffer has the length it was given, or stayed as it was. -/
theorem length_of_unSerialize {allocator : Allocator} (succeeds : allocator.Succeeds)
    {msg next : OmnmPayloadImpl} {length : Nat} {status : MamaStatus}
    (result : (omnmmsgPayload_unSerialize allocator msg (some (.other bytes)) length).result =
      some (status, next)) : next.serialized.length = length ∨ next = msg := by
  rw [omnmmsgPayload_unSerialize] at result
  split at result
  · cases result
    exact .inr rfl
  · obtain ⟨header, -, result⟩ := Traced.result_bind_eq_some.mp result
    split at result
    · cases result
      exact .inr rfl
    · obtain ⟨wiped, -, result⟩ := Traced.result_bind_eq_some.mp result
      have succeeded := allocateBufferMemory_of_succeeds succeeds wiped length
      obtain ⟨fresh, grown, enough⟩ := exists_fresh_of_succeeded succeeded
      simp only [succeeded, Bool.true_eq_false, if_false] at result
      obtain ⟨loaded, -, result⟩ := Traced.result_bind_eq_some.mp result
      obtain ⟨copied, stored, result⟩ := Traced.result_bind_eq_some.mp result
      cases stored
      cases result
      left
      rw [OmnmPayloadImpl.serialized]
      apply List.length_take_of_le
      dsimp only
      rw [length_overwrite, grown]
      exact enough

/-- A kept payload that is filled has the length asked for, or stays as it was. -/
theorem length_of_fillSubPayload (succeeds : memory.payload.Succeeds) {sub : OmnmPayloadImpl}
    {filled : Option OmnmPayloadImpl} {length : Nat} {status : MamaStatus}
    (result : (fillSubPayload memory (some sub) bytes length).result = some (status, filled)) :
    ∃ after, filled = some after ∧ (after.serialized.length = length ∨ after = sub) := by
  rw [fillSubPayload] at result
  obtain ⟨⟨answer, after⟩, taken, result⟩ := Traced.result_bind_eq_some.mp result
  cases result
  refine ⟨after, rfl, ?_⟩
  rw [omnmmsgPayload_setByteBuffer] at taken
  split at taken
  · cases taken
    exact .inr rfl
  · exact length_of_unSerialize succeeds taken

/-- Every payload that the loop leaves has the length that its rounds read, or was kept. -/
theorem length_of_takeInMessages (succeeds : memory.payload.Succeeds)
    (front : (loadInteger Region.message bytes data 4).result = some payloadLen)
    {kept : Nat} {rounds i j : Nat} {status answer : MamaStatus}
    {array after : List (Option OmnmPayloadImpl)}
    (lengths : ∀ sub ∈ array, ∃ payload, sub = some payload ∧
      (payload.serialized.length = payloadLen ∨ payload.serialized.length = kept))
    (result : (takeInMessages memory bytes data size rounds i j status array).result =
      some (answer, after)) :
    ∀ sub ∈ after, ∃ payload, sub = some payload ∧
      (payload.serialized.length = payloadLen ∨ payload.serialized.length = kept) := by
  induction rounds generalizing i j status array with
  | zero => cases result
  | succ rounds ih =>
      rw [takeInMessages] at result
      split at result
      · cases result
        exact lengths
      · rw [Traced.result_bind, front, Option.bind_some] at result
        split at result
        · cases result
        · rename_i sub found
          obtain ⟨⟨next, filled⟩, taken, result⟩ := Traced.result_bind_eq_some.mp result
          obtain ⟨payload, rfl, old⟩ := lengths sub (List.mem_of_getElem? found)
          obtain ⟨changed, rfl, new⟩ := length_of_fillSubPayload succeeds taken
          refine ih ?_ result
          intro other member
          rcases List.mem_or_eq_of_mem_set member with before | rfl
          · exact lengths other before
          · refine ⟨changed, rfl, ?_⟩
            rcases new with length | rfl
            · exact .inl length
            · exact old

/-! ## The getter -/

/-- The length in front of the first message. -/
theorem loadInteger_messageRecords {message rest : List UInt8} {messages : List (List UInt8)}
    (four : message.length < 2 ^ 32)
    (here : bytes.drop data = messageRecords (message :: messages) ++ rest) :
    (loadInteger Region.message bytes data 4).result = some message.length := by
  rw [messageRecords_cons, List.append_assoc] at here
  rw [result_loadInteger_of_drop here (length_littleEndian ..) (by decide), littleEndian_four four]

/-- A message with its length is part of the records. -/
theorem length_le_messageRecords {message : List UInt8} {messages : List (List UInt8)}
    (member : message ∈ messages) : message.length + 4 ≤ (messageRecords messages).length := by
  obtain ⟨before, after, rfl⟩ := List.append_of_mem member
  rw [messageRecords, List.flatMap_append, List.flatMap_cons]
  simp only [List.length_append, length_littleEndian]
  omega

theorem length_messageRecords_of_same {messages : List (List UInt8)}
    (same : ∀ message ∈ messages, message.length = payloadLen) :
    (messageRecords messages).length = messages.length * (payloadLen + 4) := by
  induction messages with
  | nil => exact (Nat.zero_mul _).symm
  | cons message messages ih =>
      rw [messageRecords_cons, List.length_append, List.length_append, length_littleEndian,
        ih fun other member => same other (List.mem_cons_of_mem _ member),
        same message (List.mem_cons_self ..), List.length_cons, Nat.succ_mul]
      omega

namespace FieldEntry.HandledBy

variable {entry : FieldEntry} {src : OmnmPayloadImpl} {field : OmnmFieldImpl}

/-- On messages of one length the getter takes in as many as there are, into an array with room
for them. -/
theorem getVectorMsg_of_records (handled : entry.HandledBy src field)
    (arrays : memory.arrays = true) {messages : List (List UInt8)} (some_messages : messages ≠ [])
    (records : entry.data = messageRecords messages) (four : entry.data.length < 2 ^ 32)
    (same : ∀ message ∈ messages, ∀ other ∈ messages, message.length = other.length)
    {offset : Nat} {rest : List UInt8} (pointer : field.mData = .offset offset)
    (here : src.mPayloadBuffer.drop offset = entry.data ++ rest) (results : FieldResults) :
    ∃ (payloadLen : Nat) (array : List (Option OmnmPayloadImpl)),
      (∀ message ∈ messages, message.length = payloadLen) ∧
        (loadInteger Region.message src.mPayloadBuffer offset 4).result = some payloadLen ∧
        messages.length ≤ array.length ∧ messages.length ≤ (messageRecords messages).length ∧
        (omnmmsgFieldPayload_getVectorMsg memory src field results).result =
          (takeInMessages memory src.mPayloadBuffer offset (messageRecords messages).length
              ((messageRecords messages).length + 1) 0 0 .ok array).result.map
            fun (status, mVectorPayload) =>
              (status, (mVectorPayload, messages.length), { results with mVectorPayload }) := by
  obtain ⟨first, others, rfl⟩ := List.exists_cons_of_ne_nil some_messages
  have equal : ∀ message ∈ first :: others, message.length = first.length := fun message member =>
    same message member first (List.mem_cons_self ..)
  have length := length_messageRecords_of_same equal
  have wide : (first :: others).length ≤ (messageRecords (first :: others)).length := by
    rw [length]
    exact Nat.le_mul_of_pos_right _ (Nat.succ_pos _)
  rw [records] at four here
  have short : first.length < 2 ^ 32 := by
    rw [length, List.length_cons, Nat.succ_mul] at four
    omega
  have front := loadInteger_messageRecords short here
  have size : field.mSize = (messageRecords (first :: others)).length := by
    rw [handled.size, records]
  have counted := @countMessages_eq _ _ (messageRecords (first :: others)).length _ front
    (first :: others).length 0 ((messageRecords (first :: others)).length + 1)
    (by rw [Nat.zero_add, length]) (Nat.lt_succ_of_le wide)
  have positive : ¬ (messageRecords (first :: others)).length = 0 := by
    rw [List.length_cons] at wide
    omega
  refine ⟨first.length, memory.growArray results.mVectorPayload none (first :: others).length,
    equal, front, ?_, wide, ?_⟩
  · rw [GetterMemory.growArray, if_pos arrays, List.length_append, List.length_replicate]
    omega
  · rw [omnmmsgFieldPayload_getVectorMsg, size, if_neg positive]
    simp only [OmnmFieldImpl.dataOffset, pointer, Traced.result_bind, Traced.result_pure,
      Option.bind_some, counted, Option.map_eq_bind, Function.comp_def]

/-- A vector of messages of one length is read as these messages. -/
theorem getVectorMsg (handled : entry.HandledBy src field) (succeeds : memory.payload.Succeeds)
    (arrays : memory.arrays = true) {messages : List (List UInt8)} (some_messages : messages ≠ [])
    (records : entry.data = messageRecords messages) (four : entry.data.length < 2 ^ 32)
    (same : ∀ message ∈ messages, ∀ other ∈ messages, message.length = other.length)
    (nonempty : ∀ message ∈ messages, message ≠ []) {offset : Nat} {rest : List UInt8}
    (pointer : field.mData = .offset offset)
    (here : src.mPayloadBuffer.drop offset = entry.data ++ rest)
    (header : ∀ before message after, messages = before ++ message :: after →
      HeaderAhead (message ++ (messageRecords after ++ rest)))
    (results : FieldResults) :
    ∃ (subs : List OmnmPayloadImpl) (array : List (Option OmnmPayloadImpl)) (kept : FieldResults),
      (omnmmsgFieldPayload_getVectorMsg memory src field results).result =
          some (.ok, (array, messages.length), kept) ∧
        array.take messages.length = subs.map some ∧
        subs.map OmnmPayloadImpl.serialized = messages := by
  obtain ⟨payloadLen, array, equal, front, room, wide, got⟩ :=
    handled.getVectorMsg_of_records arrays some_messages records four same pointer here results
  have positive : payloadLen ≠ 0 := by
    obtain ⟨first, others, rfl⟩ := List.exists_cons_of_ne_nil some_messages
    rw [← equal first (List.mem_cons_self ..)]
    exact fun none => nonempty first (List.mem_cons_self ..) (List.length_eq_zero_iff.mp none)
  rw [records] at here
  obtain ⟨subs, taken, all⟩ := @takeInMessages_eq _ _ _ (messageRecords messages).length _
    succeeds front messages rest 0 ((messageRecords messages).length + 1) here (Nat.zero_add _)
    (Nat.lt_succ_of_le wide) equal positive header .ok [] array room
  have count : (subs.map some).length = messages.length := by
    rw [List.length_map, ← all, List.length_map]
  rw [List.length_nil, ite_self, List.nil_append] at taken
  exact ⟨subs, _, _, by rw [got, taken]; rfl, List.take_left' count, all⟩

/-- Over kept payloads of one length, the getter leaves this length or that of the first
message. -/
theorem length_of_getVectorMsg (handled : entry.HandledBy src field)
    (succeeds : memory.payload.Succeeds) {first : List UInt8} {others : List (List UInt8)}
    (records : entry.data = messageRecords (first :: others)) (four : first.length < 2 ^ 32)
    {results kept : FieldResults} {status : MamaStatus} {array : List (Option OmnmPayloadImpl)}
    {count length : Nat}
    (filled : ∀ sub ∈ results.mVectorPayload, ∃ payload, sub = some payload ∧
      payload.serialized.length = length)
    (enough : count ≤ results.mVectorPayload.length)
    (result : (omnmmsgFieldPayload_getVectorMsg memory src field results).result =
      some (status, (array, count), kept)) :
    ∀ sub ∈ array, ∃ payload, sub = some payload ∧
      (payload.serialized.length = first.length ∨ payload.serialized.length = length) := by
  obtain ⟨offset, rest, pointer, here, -⟩ := handled.data
  rw [records] at here
  have front := loadInteger_messageRecords four here
  rw [omnmmsgFieldPayload_getVectorMsg] at result
  split at result
  · cases result
    intro sub member
    obtain ⟨payload, same, equal⟩ := filled sub member
    exact ⟨payload, same, .inr equal⟩
  · simp only [OmnmFieldImpl.dataOffset, pointer, pure_bind] at result
    obtain ⟨msgCount, -, result⟩ := Traced.result_bind_eq_some.mp result
    obtain ⟨⟨answer, after⟩, taken, result⟩ := Traced.result_bind_eq_some.mp result
    cases result
    refine length_of_takeInMessages succeeds front ?_ taken
    have grown : memory.growArray results.mVectorPayload none count = results.mVectorPayload := by
      rw [GetterMemory.growArray, Nat.sub_eq_zero_of_le enough, List.replicate_zero,
        List.append_nil, ite_self]
    rw [grown]
    intro sub member
    obtain ⟨payload, same, equal⟩ := filled sub member
    exact ⟨payload, same, .inr equal⟩

end FieldEntry.HandledBy

end Omnm
