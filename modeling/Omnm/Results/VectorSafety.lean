import Omnm.Payload.VectorTraces
import Omnm.Wire.Values

/-!
# What the decoders of vectors read

The decoders of a vector of strings and of a vector of messages take the data of
a field for well formed. The one counts NULs and then scans for as many strings
as it meets, so it stays in the data exactly if that ends with a NUL. The other
takes the length of the first message for all of them, so it stays in the data
exactly if there is such a length and the messages fill the data, with room for a
header in each (`vector_decoding_safe_iff`).
-/

set_option autoImplicit false

namespace Omnm

section

/-- The decoder of a vector of strings reads the data and fills no more entries than it counted
NULs. -/
def VectorStringSafe (memory : GetterMemory) (msg : OmnmPayloadImpl) (field : OmnmFieldImpl)
    (results : FieldResults) : Prop :=
  ∀ data, field.mData = .offset data →
    Traced.Every
      (Access.InVector data field.mSize ((slice msg.mPayloadBuffer data field.mSize).count 0))
      (recordVectorString memory msg field results)

/-- The decoder of a vector of messages reads the data, hands on parts of it, and fills no more
entries than it counted. -/
def VectorMsgSafe (memory : GetterMemory) (msg : OmnmPayloadImpl) (field : OmnmFieldImpl)
    (results : FieldResults) : Prop :=
  ∀ data, field.mData = .offset data →
    Traced.Every
      (Access.InVector data field.mSize
        ((recordCount msg.mPayloadBuffer data field.mSize (field.mSize + 1) 0).result.getD 0))
      (recordVectorMsg memory msg field results)

/-! ## Strings -/

variable {buffer : List UInt8} {data size count rounds i j : Nat}

/-- Scans over strings that end with the data stay in it. -/
theorem every_recordStrings {strings : List CString} {rest : List UInt8}
    (here : buffer.drop (data + i) = joinStrings strings ++ rest)
    (ends : i + (joinStrings strings).length = size) (room : j + strings.length ≤ count) :
    Traced.Every (Access.InVector data size count)
      (recordStrings buffer data size rounds i j) := by
  induction rounds generalizing strings i j with
  | zero => exact Traced.every_fault
  | succ rounds ih =>
      rw [recordStrings]
      split
      · exact Traced.every_pure _
      · cases strings with
        | nil =>
            simp only [joinStrings, List.flatMap_nil, List.length_nil] at ends
            omega
        | cons string strings =>
            have joined : joinStrings (string :: strings) =
                string.terminated ++ joinStrings strings := List.flatMap_cons
            rw [joined, List.append_assoc] at here
            rw [joined, List.length_append, CString.length_terminated] at ends
            rw [List.length_cons] at room
            have behind := drop_behind here
            rw [CString.length_terminated, Nat.add_assoc] at behind
            have later := @ih (i + string.bytes.length + 1) (j + 1) strings behind (by omega)
              (by omega)
            have entries : j + 1 ≤ count := by omega
            have scan : Access.InVector data size count
                (.load .data (data + i) string.terminated.length) := by
              rw [CString.length_terminated]
              exact ⟨Nat.le_add_right .., by omega⟩
            simp only [Traced.every_bind, Traced.every_note, List.forall_mem_cons]
            refine ⟨⟨entries, entries, by simp⟩, fun _ _ =>
              ⟨(every_strlen_of_drop here).mpr scan, ?_⟩⟩
            intro length scanned
            cases (result_strlen_of_drop here).symm.trans scanned
            exact ⟨later, fun _ _ => Traced.every_pure _⟩

/-- Scans that stay in the data end with it. -/
theorem getLast_of_every_recordStrings (inside : data + size ≤ buffer.length)
    (every : Traced.Every (Access.InVector data size count)
      (recordStrings buffer data size rounds i j))
    (before : i < size) (enough : size - i < rounds) :
    (slice buffer data size).getLast? = some 0 := by
  induction rounds generalizing i j with
  | zero => exact absurd enough (Nat.not_lt_zero _)
  | succ rounds ih =>
      rw [recordStrings, if_neg (Nat.not_le.mpr before), Traced.every_bind] at every
      obtain ⟨scan, later⟩ := (Traced.every_bind ..).mp (every.2 () rfl)
      cases found : nulIndex (buffer.drop (data + i)) with
      | none =>
          have reads : Access.InVector data size count
              (.load .data (data + i) (buffer.length - (data + i) + 1)) :=
            scan _ (by rw [strlen, found]; exact List.mem_cons_self ..)
          have below := reads.2
          omega
      | some length =>
          have scanned : (strlen VectorRegion.data buffer (data + i)).result = some length := by
            rw [strlen, found]
          have reads : Access.InVector data size count (.load .data (data + i) (length + 1)) :=
            scan _ (by rw [strlen, found]; exact List.mem_cons_self ..)
          have below := reads.2
          by_cases last : i + length + 1 = size
          · obtain ⟨front, rest, split, width, -⟩ := nulIndex_eq_some found
            have nul : buffer[data + i + length]? = some 0 := by
              rw [← List.getElem?_drop, split, ← width, List.getElem?_append_right (Nat.le_refl _),
                Nat.sub_self]
              rfl
            rw [slice, List.getLast?_eq_getElem?, List.length_take, List.length_drop,
              List.getElem?_take_of_lt (by omega), List.getElem?_drop]
            rwa [show data + (min size (buffer.length - data) - 1) = data + i + length by omega]
          · exact ih ((Traced.every_bind ..).mp (later length scanned)).1 (by omega) (by omega)

variable {entry : FieldEntry} {msg : OmnmPayloadImpl} {field : OmnmFieldImpl}

theorem vectorStringSafe_iff (handled : entry.HandledBy msg field) (memory : GetterMemory)
    (results : FieldResults) : VectorStringSafe memory msg field results ↔
      entry.data = [] ∨ entry.data.getLast? = some 0 := by
  obtain ⟨offset, rest, pointer, here, inside⟩ := handled.data
  have data : slice msg.mPayloadBuffer offset field.mSize = entry.data := by
    rw [handled.size, slice, here, List.take_left]
  have read : Access.InVector offset field.mSize ((slice msg.mPayloadBuffer offset
      field.mSize).count 0) (.load .data offset field.mSize) := ⟨Nat.le_refl _, Nat.le_refl _⟩
  rw [← handled.size] at inside
  by_cases empty : field.mSize = 0
  · have none : entry.data = [] := List.length_eq_zero_iff.mp (handled.size ▸ empty)
    refine iff_of_true ?_ (.inl none)
    intro other same
    rw [recordVectorString, if_pos empty]
    exact Traced.every_pure _
  · have some_data : entry.data ≠ [] := fun none => empty (by rw [handled.size, none]; rfl)
    rw [or_iff_right some_data, VectorStringSafe, pointer]
    simp only [BufferPtr.offset.injEq, forall_eq', recordVectorString, if_neg empty, pointer]
    rw [Traced.every_bind, loadBytes, if_pos inside]
    simp only [Option.some.injEq, forall_eq', Traced.every_bind]
    constructor
    · rintro ⟨-, every, -⟩
      have last := getLast_of_every_recordStrings inside every (Nat.pos_of_ne_zero empty)
        (Nat.lt_succ_self _)
      rwa [data] at last
    · intro ends
      obtain ⟨strings, -, joined⟩ := exists_joinStrings ends
      refine ⟨?_, @every_recordStrings _ _ _ _ _ _ _ strings rest ?_ ?_ ?_, ?_⟩
      · intro access member
        rw [List.mem_singleton.mp member]
        exact read
      · rw [Nat.add_zero, here, joined]
      · rw [Nat.zero_add, handled.size, joined]
      · rw [Nat.zero_add, data, joined, count_joinStrings]
      · intro strings located
        split
        · exact Traced.every_fault
        · exact Traced.every_pure _

/-! ## Messages -/

variable {memory : GetterMemory} {bytes : List UInt8} {sub : Option OmnmPayloadImpl}
  {length start : Nat}

/-- An entry that takes in bytes reads a header. -/
theorem header_of_every_fillSubPayload {holds : Access Region → Prop} (nonempty : length ≠ 0)
    (every : Traced.Every holds (fillSubPayload memory sub bytes length)) :
    holds (.load .incoming 0 3) := by
  have header : ∀ msg, Traced.Every holds
      (omnmmsgPayload_unSerialize memory.payload msg (some (.other bytes)) length) →
        holds (.load .incoming 0 3) := by
    intro msg reads
    rw [omnmmsgPayload_unSerialize, if_neg nonempty, Traced.every_bind, loadHeader,
      Traced.every_bind, every_loadBytes] at reads
    exact reads.1.1
  cases sub with
  | none =>
      rw [fillSubPayload, omnmmsgPayload_createFromByteBuffer, if_neg nonempty, Traced.every_bind]
        at every
      obtain ⟨-, later⟩ := every
      exact header _ ((Traced.every_bind ..).mp (later _ omnmmsgPayload_create_result)).1
  | some sub =>
      rw [fillSubPayload, omnmmsgPayload_setByteBuffer, if_neg nonempty, Traced.every_bind] at every
      exact header _ every.1

/-- Nothing is taken in from no bytes. -/
theorem accesses_fillSubPayload_zero :
    (fillSubPayload memory sub bytes 0).accesses = [] := by
  cases sub <;> rfl

/-- Of the accesses of an entry only reads of the range count, and those are in the data if a
header is. -/
theorem every_taken (header : length ≠ 0 → 3 ≤ length) (from_data : data ≤ start)
    (inside : length ≠ 0 → start + length ≤ data + size) :
    Traced.Every (Access.InVector data size count)
      ((fillSubPayload memory sub bytes length).relabel (passedAt start)) := by
  rw [Traced.every_relabel]
  by_cases none : length = 0
  · intro access member
    rw [none, accesses_fillSubPayload_zero] at member
    cases member
  · have three := header none
    have below := inside none
    refine every_fillSubPayload ?_ ?_ ?_
    · rintro _ _ _ ⟨⟩
    · rintro described ⟨⟩
      exact ⟨by omega, by omega⟩
    · rintro described ⟨⟩
      exact ⟨by omega, by omega⟩

theorem every_handedOn (entry : j + 1 ≤ count) (from_data : data ≤ start)
    (inside : length ≠ 0 → start + length ≤ data + size) :
    ∀ access ∈ handedOn sub j start length, Access.InVector data size count access := by
  intro access member
  rw [handedOn] at member
  split at member
  · cases member
  · rename_i nonempty
    rcases List.mem_append.mp member with written | passed
    · split at written
      · rw [List.mem_singleton.mp written]
        exact entry
      · cases written
    · rw [List.mem_singleton.mp passed]
      exact ⟨from_data, inside nonempty⟩

variable {payloadLen rest : Nat} {status : MamaStatus} {array : List (Option OmnmPayloadImpl)}

/-- Rounds whose steps end with the data, with room for a header in each, stay in it. So do
rounds that hand nothing on. -/
theorem every_recordMessages
    (front : (loadInteger VectorRegion.data buffer data 4).result = some payloadLen)
    (four : 4 ≤ size) (whole : payloadLen = 0 ∨ 3 ≤ payloadLen ∧ i ≤ size ∧
      payloadLen + 4 ∣ size - i)
    (counted : (recordCount buffer data size rounds i).result = some rest)
    (limit : j + rest ≤ count) :
    Traced.Every (Access.InVector data size count)
      (recordMessages memory buffer data size rounds i j status array) := by
  induction rounds generalizing i j status array rest with
  | zero => exact Traced.every_fault
  | succ rounds ih =>
      rw [recordMessages]
      split
      · exact Traced.every_pure _
      · rename_i before
        rw [recordCount, if_neg before, Traced.result_bind, front, Option.bind_some,
          Traced.result_bind, Option.bind_eq_some_iff] at counted
        obtain ⟨others, counted, returned⟩ := counted
        cases returned
        have inside : payloadLen ≠ 0 → data + i + 4 + payloadLen ≤ data + size := by
          intro nonempty
          obtain ⟨-, -, divides⟩ := whole.resolve_left nonempty
          have step := Nat.le_of_dvd (by omega) divides
          omega
        have later : payloadLen = 0 ∨ 3 ≤ payloadLen ∧ i + payloadLen + 4 ≤ size ∧
            payloadLen + 4 ∣ size - (i + payloadLen + 4) := by
          by_cases nonempty : payloadLen = 0
          · exact .inl nonempty
          · obtain ⟨three, -, divides⟩ := whole.resolve_left nonempty
            have below := inside nonempty
            refine .inr ⟨three, by omega, ?_⟩
            have shorter := Nat.dvd_sub divides (Nat.dvd_refl (payloadLen + 4))
            rwa [Nat.sub_sub, ← Nat.add_assoc] at shorter
        have entry : j + 1 ≤ count := by omega
        rw [Traced.every_bind, every_loadInteger]
        refine ⟨⟨Nat.le_refl _, by omega⟩, ?_⟩
        intro found loaded
        cases front.symm.trans loaded
        rw [Traced.every_bind, Traced.every_note, List.forall_mem_singleton]
        refine ⟨entry, ?_⟩
        intro _ _
        split
        · exact Traced.every_fault
        · rw [Traced.every_bind, Traced.every_note]
          refine ⟨every_handedOn entry (by omega) inside, ?_⟩
          intro _ _
          rw [Traced.every_bind]
          refine ⟨every_taken (fun nonempty => (whole.resolve_left nonempty).1) (by omega) inside, ?_⟩
          intro _ _
          exact ih later counted (by omega)

/-- Where something is handed on in every round, rounds that stay in the data end with it and
have room for a header. -/
theorem dvd_of_every_recordMessages
    (front : (loadInteger VectorRegion.data buffer data 4).result = some payloadLen)
    (nonempty : payloadLen ≠ 0) (inside : data + size ≤ buffer.length) (before : i ≤ size)
    (enough : size - i < rounds)
    (counted : (recordCount buffer data size rounds i).result = some rest)
    (room : j + rest ≤ array.length)
    (every : Traced.Every (Access.InVector data size count)
      (recordMessages memory buffer data size rounds i j status array)) :
    payloadLen + 4 ∣ size - i ∧ (i < size → 3 ≤ payloadLen) := by
  induction rounds generalizing i j status array rest with
  | zero => exact absurd enough (Nat.not_lt_zero _)
  | succ rounds ih =>
      by_cases last : size ≤ i
      · rw [Nat.sub_eq_zero_of_le last]
        exact ⟨Nat.dvd_zero _, fun earlier => absurd earlier (Nat.not_lt.mpr last)⟩
      · rw [recordCount, if_neg last, Traced.result_bind, front, Option.bind_some,
          Traced.result_bind, Option.bind_eq_some_iff] at counted
        obtain ⟨others, counted, returned⟩ := counted
        cases returned
        have present : j < array.length := by omega
        rw [recordMessages, if_neg last, Traced.every_bind] at every
        have noted := (Traced.every_bind ..).mp (every.2 payloadLen front)
        have taken := noted.2 () rfl
        rw [List.getElem?_eq_getElem present, Traced.every_bind, Traced.every_note] at taken
        obtain ⟨handed, later⟩ := taken
        have passed : Access.InVector data size count
            (.load .passed (data + i + 4) payloadLen) := by
          apply handed _
          rw [handedOn, if_neg nonempty]
          exact List.mem_append_right _ (List.mem_singleton_self _)
        have filled := (Traced.every_bind ..).mp (later () rfl)
        have header : Access.InVector data size count (.load .data (data + i + 4 + 0) 3) :=
          header_of_every_fillSubPayload nonempty (Traced.every_relabel.mp filled.1) _ rfl
        have range := passed.2
        have three := header.2
        have behind : (buffer.drop (data + i + 4)).length = buffer.length - (data + i + 4) :=
          List.length_drop
        obtain ⟨answer, result⟩ := @exists_fillSubPayload memory array[j]
          (buffer.drop (data + i + 4)) payloadLen (by omega) (by omega)
        have step := filled.2 answer result
        obtain ⟨divides, rooms⟩ := ih (by omega) (by omega) counted
          (by rw [List.length_set]; omega) step
        constructor
        · have longer := Nat.dvd_add divides (Nat.dvd_refl (payloadLen + 4))
          rwa [show size - (i + payloadLen + 4) + (payloadLen + 4) = size - i by omega] at longer
        · intro _
          by_cases ended : i + payloadLen + 4 = size
          · omega
          · exact rooms (by omega)

/-- The count ends. -/
theorem exists_recordCount
    (front : (loadInteger VectorRegion.data buffer data 4).result = some payloadLen)
    (enough : size - i < rounds) :
    ∃ rest, (recordCount buffer data size rounds i).result = some rest := by
  induction rounds generalizing i with
  | zero => exact absurd enough (Nat.not_lt_zero _)
  | succ rounds ih =>
      by_cases last : size ≤ i
      · exact ⟨0, by rw [recordCount, if_pos last]; rfl⟩
      · obtain ⟨rest, counted⟩ := @ih (i + payloadLen + 4) (by omega)
        refine ⟨rest + 1, ?_⟩
        rw [recordCount, if_neg last, Traced.result_bind, front, Option.bind_some,
          Traced.result_bind, counted]
        rfl

/-- The count reads the first length in every round. -/
theorem every_recordCount (four : 4 ≤ size) :
    Traced.Every (Access.InVector data size count) (recordCount buffer data size rounds i) := by
  induction rounds generalizing i with
  | zero => exact Traced.every_fault
  | succ rounds ih =>
      rw [recordCount]
      split
      · exact Traced.every_pure _
      · rw [Traced.every_bind, every_loadInteger]
        refine ⟨⟨Nat.le_refl _, by omega⟩, ?_⟩
        intro _ _
        rw [Traced.every_bind]
        exact ⟨ih, fun _ _ => Traced.every_pure _⟩

theorem le_length_growArray {Entry : Type} (arrays : memory.arrays = true) (array : List Entry)
    (null : Entry) (count : Nat) : count ≤ (memory.growArray array null count).length := by
  rw [GetterMemory.growArray, if_pos arrays, List.length_append, List.length_replicate]
  omega

theorem vectorMsgSafe_iff (handled : entry.HandledBy msg field) (arrays : memory.arrays = true)
    (results : FieldResults) : VectorMsgSafe memory msg field results ↔
      entry.data = [] ∨ 4 ≤ entry.data.length ∧
        (littleEndianValue (entry.data.take 4) = 0 ∨
          3 ≤ littleEndianValue (entry.data.take 4) ∧
            littleEndianValue (entry.data.take 4) + 4 ∣ entry.data.length) := by
  obtain ⟨offset, behind, pointer, here, inside⟩ := handled.data
  by_cases empty : field.mSize = 0
  · have none : entry.data = [] := List.length_eq_zero_iff.mp (handled.size ▸ empty)
    refine iff_of_true ?_ (.inl none)
    intro other same
    rw [recordVectorMsg, if_pos empty]
    exact Traced.every_pure _
  · have some_data : entry.data ≠ [] := fun none => empty (by rw [handled.size, none]; rfl)
    rw [or_iff_right some_data, VectorMsgSafe, pointer]
    simp only [BufferPtr.offset.injEq, forall_eq', recordVectorMsg, if_neg empty, pointer]
    rw [← handled.size] at inside ⊢
    by_cases four : 4 ≤ field.mSize
    · have front : (loadInteger VectorRegion.data msg.mPayloadBuffer offset 4).result =
          some (littleEndianValue (entry.data.take 4)) := by
        have room : offset + 4 ≤ msg.mPayloadBuffer.length := by omega
        have first : slice msg.mPayloadBuffer offset 4 = entry.data.take 4 := by
          rw [slice, here, List.take_append_of_le_length (handled.size ▸ four)]
        rw [loadInteger, loadBytes, if_pos room, first]
        rfl
      have ends : field.mSize - 0 < field.mSize + 1 := by omega
      obtain ⟨count, counted⟩ := exists_recordCount front ends
      rw [counted, Traced.every_bind]
      simp only [counted, Option.getD_some, Option.some.injEq, forall_eq', Traced.every_bind,
        Traced.every_pure, implies_true, and_true, four, true_and]
      constructor
      · rintro ⟨-, every⟩
        by_cases none : littleEndianValue (entry.data.take 4) = 0
        · exact .inl none
        · obtain ⟨divides, room⟩ := dvd_of_every_recordMessages front none inside (Nat.zero_le _)
            (by omega) counted (by
              rw [Nat.zero_add]
              exact le_length_growArray arrays ..) every
          exact .inr ⟨room (Nat.pos_of_ne_zero empty), divides⟩
      · intro whole
        refine ⟨every_recordCount four, every_recordMessages front four ?_ counted ?_⟩
        · exact whole.imp_right fun sizes => ⟨sizes.1, Nat.zero_le _, sizes.2⟩
        · rw [Nat.zero_add]
    · refine iff_of_false (fun every => four ?_) (fun whole => four whole.1)
      have counting := ((Traced.every_bind ..).mp every).1
      rw [recordCount, if_neg (by omega), Traced.every_bind, every_loadInteger] at counting
      exact Nat.add_le_add_iff_left.mp counting.1.2

end

/-- On the data of a field of any type, the decoder of a vector of strings is safe exactly if the
data is empty or ends with a NUL, and the decoder of a vector of messages exactly if the data is
empty, or starts with a length that is 0 or that takes a header and, with the length itself,
divides the data. -/
theorem vector_decoding_safe_iff {msg : OmnmPayloadImpl} {field : OmnmFieldImpl}
    {entry : FieldEntry} (handled : entry.HandledBy msg field) {memory : GetterMemory}
    (arrays : memory.arrays = true) (results : FieldResults) :
    (VectorStringSafe memory msg field results ↔
        entry.data = [] ∨ entry.data.getLast? = some 0) ∧
      (VectorMsgSafe memory msg field results ↔
        entry.data = [] ∨ 4 ≤ entry.data.length ∧
          (littleEndianValue (entry.data.take 4) = 0 ∨
            3 ≤ littleEndianValue (entry.data.take 4) ∧
              littleEndianValue (entry.data.take 4) + 4 ∣ entry.data.length)) :=
  ⟨vectorStringSafe_iff handled memory results, vectorMsgSafe_iff handled arrays results⟩

section Example

attribute [local instance] mamaFieldTypes

/-- Four letters. -/
def fourLetters : FieldEntry :=
  ⟨mamaFieldTypeNumber .opaqueField, 1, CString.empty, [97, 98, 99, 100]⟩

/-- A payload with the letters, and room behind them. -/
def fourLettersPayload : OmnmPayloadImpl :=
  ⟨[79, 1, 0, 7, 1, 0, 0, 4, 0, 0, 0, 97, 98, 99, 100] ++ List.replicate 185 0, 15,
    OmnmHeader.default, []⟩

theorem fourLetters_handled :
    fourLetters.HandledBy fourLettersPayload (fourLetters.handle 3 .null) :=
  FieldEntry.handledBy_of_drop (by decide)
    (show fourLettersPayload.mPayloadBuffer.drop 3 = fourLetters.encode ++ List.replicate 185 0
      from rfl) .null

theorem fourLetters_safe_iff :
    (VectorStringSafe ⟨.zeroing, true⟩ fourLettersPayload (fourLetters.handle 3 .null)
        FieldResults.none ↔ fourLetters.data = [] ∨ fourLetters.data.getLast? = some 0) ∧
      (VectorMsgSafe ⟨.zeroing, true⟩ fourLettersPayload (fourLetters.handle 3 .null)
          FieldResults.none ↔
        fourLetters.data = [] ∨ 4 ≤ fourLetters.data.length ∧
          (littleEndianValue (fourLetters.data.take 4) = 0 ∨
            3 ≤ littleEndianValue (fourLetters.data.take 4) ∧
              littleEndianValue (fourLetters.data.take 4) + 4 ∣ fourLetters.data.length)) :=
  vector_decoding_safe_iff fourLetters_handled rfl FieldResults.none

/-- No NUL is counted in the letters, and an entry is filled with them. As a length they are more
than the data has, and a message of that length is handed on. Neither call returns. -/
theorem fourLetters_not_safe :
    (omnmmsgFieldPayload_getVectorString ⟨.zeroing, true⟩ fourLettersPayload
        (fourLetters.handle 3 .null) FieldResults.none).result = none ∧
      (omnmmsgFieldPayload_getVectorMsg ⟨.zeroing, true⟩ fourLettersPayload
        (fourLetters.handle 3 .null) FieldResults.none).result = none ∧
      ¬ VectorStringSafe ⟨.zeroing, true⟩ fourLettersPayload (fourLetters.handle 3 .null)
        FieldResults.none ∧
      ¬ VectorMsgSafe ⟨.zeroing, true⟩ fourLettersPayload (fourLetters.handle 3 .null)
        FieldResults.none := by
  refine ⟨by decide +kernel, by decide +kernel, ?_, ?_⟩
  · intro safe
    have filled : (.store .array 0 1) ∈ (recordVectorString ⟨.zeroing, true⟩ fourLettersPayload
        (fourLetters.handle 3 .null) FieldResults.none).accesses := by
      decide +kernel
    have counted : (slice fourLettersPayload.mPayloadBuffer 11 4).count 0 = 0 := by decide
    have below : 0 + 1 ≤ (slice fourLettersPayload.mPayloadBuffer 11 4).count 0 :=
      safe 11 rfl _ filled
    omega
  · intro safe
    have passed : (.load .passed 15 1684234849) ∈ (recordVectorMsg ⟨.zeroing, true⟩
        fourLettersPayload (fourLetters.handle 3 .null) FieldResults.none).accesses := by
      decide +kernel
    have inside : 11 ≤ 15 ∧ 15 + 1684234849 ≤ 11 + 4 := safe 11 rfl _ passed
    omega

end Example

end Omnm
