import Mathlib.Data.List.DropRight
import Omnm.Payload.Apply
import Omnm.Wire.Serialization

/-!
# What the getters read of an encoded field

A handle that the iterator yields for an encoded field shows its type, fid, name
and data (`FieldEntry.HandledBy`). Through such a handle the getters give the
data of the field, in the form of their type, unless the field has neither name
nor fid, which the checks in front of some of them refuse.
-/

set_option autoImplicit false

namespace Omnm

open FieldTypeTags (tag)

/-- The name of a field as an argument; a field without a name gives NULL. -/
def FieldEntry.nameArgument (entry : FieldEntry) : Option CString :=
  if entry.name = CString.empty then none else some entry.name

/-- A field that no key finds. -/
def FieldEntry.Keyless (entry : FieldEntry) : Prop := entry.nameArgument = none ∧ entry.fid = 0

instance (entry : FieldEntry) : Decidable entry.Keyless := inferInstanceAs (Decidable (_ ∧ _))

/-- A handle into a payload shows a field. -/
structure FieldEntry.HandledBy (entry : FieldEntry) (src : OmnmPayloadImpl)
    (field : OmnmFieldImpl) : Prop where
  type : field.mFieldType = entry.type
  fid : field.mFid = entry.fid
  size : field.mSize = entry.data.length
  name : (entry.name = CString.empty ∧ field.mName = .null) ∨
    (entry.name ≠ CString.empty ∧ ∃ offset rest, field.mName = .offset offset ∧
      src.mPayloadBuffer.drop offset = entry.name.terminated ++ rest)
  data : ∃ offset rest, field.mData = .offset offset ∧
    src.mPayloadBuffer.drop offset = entry.data ++ rest ∧
    offset + entry.data.length ≤ src.mPayloadBuffer.length

theorem FieldEntry.nameArgument_of_unnamed {entry : FieldEntry}
    (unnamed : entry.name = CString.empty) : entry.nameArgument = none := if_pos unnamed

theorem FieldEntry.nameArgument_of_named {entry : FieldEntry} (named : entry.name ≠ CString.empty) :
    entry.nameArgument = some entry.name := if_neg named

/-- Only the empty name is not a name. -/
theorem FieldEntry.nameArgument_ne_empty (entry : FieldEntry) :
    entry.nameArgument ≠ some CString.empty := by
  by_cases unnamed : entry.name = CString.empty
  · rw [nameArgument_of_unnamed unnamed]
    simp
  · rw [nameArgument_of_named unnamed]
    exact fun same => unnamed (Option.some.inj same)

theorem FieldEntry.getD_nameArgument (entry : FieldEntry) :
    entry.nameArgument.getD CString.empty = entry.name := by
  by_cases unnamed : entry.name = CString.empty
  · rw [nameArgument_of_unnamed unnamed, unnamed, Option.getD_none]
  · rw [nameArgument_of_named unnamed, Option.getD_some]

/-- A field that has a key has a fid or a name. -/
theorem not_keyless_of_hasKey {entry : FieldEntry} {name : Option CString} {fid : UInt16}
    (matching : entry.hasKey name fid = true) : ¬ entry.Keyless := by
  rintro ⟨unnamed, numbered⟩
  have empty : entry.name = CString.empty := by
    by_contra named
    rw [FieldEntry.nameArgument_of_named named] at unnamed
    cases unnamed
  by_cases noFid : fid = 0
  · simp [FieldEntry.hasKey, noFid, empty] at matching
  · simp [FieldEntry.hasKey, empty, numbered, noFid] at matching

/-- A string that stands at an address is read, also when it is empty. -/
theorem result_loadCString_of_drop {memory rest : List UInt8} {offset : Nat} {string : CString}
    (here : memory.drop offset = string.terminated ++ rest) :
    (loadCString memory offset).result = some string.bytes := by
  have room := congrArg List.length here
  rw [List.length_drop, List.length_append, CString.length_terminated] at room
  have inside : offset + string.bytes.length ≤ memory.length := by omega
  rw [loadCString, Traced.result_bind, result_strlen_of_drop here, Option.bind_some, loadBytes,
    if_pos inside, slice, here, CString.terminated, List.append_assoc, List.take_left]

theorem loadStringArgument_of_drop {src : OmnmPayloadImpl} {offset : Nat} {string : CString}
    {rest : List UInt8} (here : src.mPayloadBuffer.drop offset = string.terminated ++ rest) :
    (loadStringArgument src (.offset offset)).result = some (some string) := by
  rw [loadStringArgument, Traced.result_bind, result_loadCString_of_drop here, Option.bind_some,
    CString.ofBytes_bytes]
  rfl

/-! ## Elements -/

/-- A sub-payload is asked to take in bytes, and is created first if there is none. -/
theorem fillSubPayload_of_ne_zero (memory : GetterMemory) (sub : Option OmnmPayloadImpl)
    (bytes : List UInt8) {length : Nat} (nonempty : length ≠ 0) :
    (fillSubPayload memory sub bytes length).result =
      (omnmmsgPayload_unSerialize memory.payload (sub.getD newPayload) (some (.other bytes))
        length).result.map fun (status, filled) => (status, some filled) := by
  cases sub with
  | none =>
      simp only [fillSubPayload, omnmmsgPayload_createFromByteBuffer, if_neg nonempty,
        Traced.result_bind, omnmmsgPayload_create_result, Option.bind_some, Option.getD_none,
        Option.map_eq_bind]
      rfl
  | some sub =>
      simp only [fillSubPayload, omnmmsgPayload_setByteBuffer, if_neg nonempty,
        Traced.result_bind, Option.getD_some, Option.map_eq_bind]
      rfl

/-- Nothing is taken in from no bytes. -/
theorem fillSubPayload_zero (memory : GetterMemory) (sub : Option OmnmPayloadImpl)
    (bytes : List UInt8) :
    (fillSubPayload memory sub bytes 0).result = some (.invalidArg, sub) := by
  cases sub <;> rfl

/-- There is a sub-payload once there were bytes. -/
theorem none_iff_of_fillSubPayload {memory : GetterMemory} {sub filled : Option OmnmPayloadImpl}
    {bytes : List UInt8} {length : Nat} {status : MamaStatus}
    (result : (fillSubPayload memory sub bytes length).result = some (status, filled)) :
    filled = none ↔ sub = none ∧ length = 0 := by
  by_cases nonempty : length = 0
  · rw [nonempty, fillSubPayload_zero] at result
    cases result
    exact (and_iff_left nonempty).symm
  · rw [fillSubPayload_of_ne_zero memory sub bytes nonempty] at result
    obtain ⟨⟨answer, next⟩, -, same⟩ := Option.map_eq_some_iff.mp result
    cases same
    exact iff_of_false (by simp) fun none => nonempty none.2

/-- A sub-payload takes in the bytes of a message, if there is room for them. -/
theorem fillSubPayload_of_succeeded {memory : GetterMemory} {sub : Option OmnmPayloadImpl}
    {bytes : List UInt8} {length : Nat} (nonempty : length ≠ 0) (header : HeaderAhead bytes)
    (readable : length ≤ bytes.length)
    (succeeded : (allocateBufferMemory memory.payload
      (List.replicate (sub.getD newPayload).mPayloadBufferSize 0) length).succeeded = true) :
    ∃ filled, (fillSubPayload memory sub bytes length).result = some (.ok, some filled) ∧
      filled.serialized = bytes.take length ∧
      filled.mPayloadBufferSize = (allocateBufferMemory memory.payload
        (List.replicate (sub.getD newPayload).mPayloadBufferSize 0) length).buffer.length := by
  obtain ⟨slack, result, size⟩ := @unSerialize_of_version memory.payload (sub.getD newPayload)
    (.other bytes) length readable nonempty header.1 header.2 succeeded
  refine ⟨_, by rw [fillSubPayload_of_ne_zero memory sub bytes nonempty, result]; rfl, ?_, size⟩
  exact List.take_left' (List.length_take_of_le readable)

theorem fillSubPayload_eq {memory : GetterMemory} (succeeds : memory.payload.Succeeds)
    (sub : Option OmnmPayloadImpl) {bytes : List UInt8} {length : Nat} (nonempty : length ≠ 0)
    (header : HeaderAhead bytes) (readable : length ≤ bytes.length) :
    ∃ filled, (fillSubPayload memory sub bytes length).result = some (.ok, some filled) ∧
      filled.serialized = bytes.take length := by
  obtain ⟨filled, result, serialized, -⟩ := fillSubPayload_of_succeeded nonempty header readable
    (allocateBufferMemory_of_succeeds succeeds ..)
  exact ⟨filled, result, serialized⟩

/-- A sub-payload takes in bytes exactly if they start with a header of an accepted version and
there is room for them. -/
theorem fillSubPayload_ok_iff {memory : GetterMemory} {sub : Option OmnmPayloadImpl}
    {bytes : List UInt8} {length : Nat} (readable : length ≤ bytes.length) :
    (∃ filled, (fillSubPayload memory sub bytes length).result = some (.ok, filled)) ↔
      length ≠ 0 ∧ HeaderAhead bytes ∧ (allocateBufferMemory memory.payload
        (List.replicate (sub.getD newPayload).mPayloadBufferSize 0) length).succeeded = true := by
  by_cases nonempty : length = 0
  · rw [nonempty, fillSubPayload_zero]
    simp
  · rw [← @unSerialize_ok_iff _ (sub.getD newPayload) _ _ readable,
      fillSubPayload_of_ne_zero memory sub bytes nonempty]
    constructor
    · rintro ⟨filled, result⟩
      obtain ⟨⟨status, next⟩, taken, same⟩ := Option.map_eq_some_iff.mp result
      cases same
      exact ⟨next, taken⟩
    · rintro ⟨next, taken⟩
      exact ⟨some next, by rw [taken]; rfl⟩

/-- With three bytes of a header ahead a sub-payload takes in bytes or refuses them. -/
theorem exists_fillSubPayload (memory : GetterMemory) (sub : Option OmnmPayloadImpl)
    {bytes : List UInt8} {length : Nat} (readable : length ≤ bytes.length)
    (three : length ≠ 0 → 3 ≤ bytes.length) :
    ∃ answer, (fillSubPayload memory sub bytes length).result = some answer := by
  by_cases nonempty : length = 0
  · exact ⟨_, nonempty ▸ fillSubPayload_zero memory sub bytes⟩
  · obtain ⟨answer, taken⟩ := @exists_unSerialize memory.payload (sub.getD newPayload) _ _ readable
      (three nonempty)
    exact ⟨_, by rw [fillSubPayload_of_ne_zero memory sub bytes nonempty, taken]; rfl⟩

/-- The elements of a vector of scalars, written again, are its bytes. -/
theorem vectorBytes_slices {bytes : List UInt8} {count size : Nat}
    (whole : count * size ≤ bytes.length) :
    vectorBytes size ((List.range count).map fun index =>
      littleEndianValue (slice bytes (index * size) size)) = bytes.take (count * size) := by
  induction count with
  | zero => simp [vectorBytes]
  | succ count ih =>
      rw [Nat.succ_mul] at whole ⊢
      have last : (slice bytes (count * size) size).length = size := by
        rw [slice, List.length_take, List.length_drop]
        omega
      have written : littleEndian size (littleEndianValue (slice bytes (count * size) size)) =
          slice bytes (count * size) size := by
        have bytes_eq := littleEndian_littleEndianValue (slice bytes (count * size) size)
        rwa [last] at bytes_eq
      have earlier := ih (by omega)
      rw [vectorBytes] at earlier ⊢
      rw [List.range_succ, List.map_append, List.flatMap_append, earlier, List.map_singleton,
        List.flatMap_singleton, written, slice, List.take_add]

/-- The wire form of strings, one after another. -/
def joinStrings (strings : List CString) : List UInt8 := strings.flatMap CString.terminated

/-- Data that ends with a NUL is strings, one after another. -/
theorem exists_joinStrings {data : List UInt8} (ends : data.getLast? = some 0) :
    ∃ strings, strings ≠ [] ∧ data = joinStrings strings := by
  induction data with
  | nil => cases ends
  | cons byte data ih =>
      cases data with
      | nil =>
          cases ends
          exact ⟨[CString.empty], List.cons_ne_nil _ _, rfl⟩
      | cons next data =>
          obtain ⟨strings, some_strings, split⟩ := ih (List.getLast?_cons_cons.symm.trans ends)
          cases strings with
          | nil => exact absurd rfl some_strings
          | cons string strings =>
              by_cases nul : byte = 0
              · refine ⟨CString.empty :: string :: strings, List.cons_ne_nil _ _, ?_⟩
                rw [nul, split]
                rfl
              · have noNul : (0 : UInt8) ∉ byte :: string.bytes := by
                  rw [List.mem_cons, not_or]
                  exact ⟨fun same => nul same.symm, string.noNul⟩
                refine ⟨⟨byte :: string.bytes, noNul⟩ :: strings, List.cons_ne_nil _ _, ?_⟩
                rw [split]
                rfl

/-- The data up to its last NUL. -/
def uptoLastNul (data : List UInt8) : List UInt8 := data.rdropWhile (· ≠ 0)

/-- There is data up to a NUL if there is a NUL. -/
theorem uptoLastNul_ne_nil {data : List UInt8} (contains : (0 : UInt8) ∈ data) :
    uptoLastNul data ≠ [] := by
  intro none
  have all := List.rdropWhile_eq_nil_iff.mp none 0 contains
  simp at all

/-- Any data is strings, one after another, and some bytes without a NUL. -/
theorem exists_strings_of_data (data : List UInt8) :
    ∃ strings rest, data = joinStrings strings ++ rest ∧ (0 : UInt8) ∉ rest ∧
      uptoLastNul data = joinStrings strings := by
  have split : uptoLastNul data ++ data.rtakeWhile (· ≠ 0) = data :=
    List.rdropWhile_append_rtakeWhile
  have noNul : (0 : UInt8) ∉ data.rtakeWhile (· ≠ 0) := by
    intro member
    simpa using List.mem_rtakeWhile_imp member
  by_cases none : uptoLastNul data = []
  · refine ⟨[], data, rfl, ?_, none⟩
    rw [none, List.nil_append] at split
    rwa [split] at noNul
  · have last := List.rdropWhile_last_not (fun byte : UInt8 => decide (byte ≠ 0)) data none
    have ends : (uptoLastNul data).getLast? = some 0 := by
      rw [List.getLast?_eq_some_getLast none]
      exact congrArg some (not_not.mp fun other => last (decide_eq_true other))
    obtain ⟨strings, -, joined⟩ := exists_joinStrings ends
    exact ⟨strings, _, joined ▸ split.symm, noNul, joined⟩

/-- There are as many NULs as strings. -/
theorem count_joinStrings (strings : List CString) :
    (joinStrings strings).count 0 = strings.length := by
  induction strings with
  | nil => rfl
  | cons string strings ih =>
      have once : string.terminated.count 0 = 1 := by
        rw [CString.terminated, List.count_append, List.count_eq_zero.mpr string.noNul]
        rfl
      rw [joinStrings, List.flatMap_cons, List.count_append, once, ← joinStrings, ih,
        List.length_cons, Nat.add_comm]

theorem length_le_length_joinStrings (strings : List CString) :
    strings.length ≤ (joinStrings strings).length := by
  rw [← count_joinStrings]
  exact List.count_le_length

/-- Where the strings of a vector start. -/
def stringPointers : List CString → Nat → List BufferPtr
  | [], _ => []
  | string :: strings, offset =>
      .offset offset :: stringPointers strings (offset + string.terminated.length)

@[simp] theorem length_stringPointers (strings : List CString) (offset : Nat) :
    (stringPointers strings offset).length = strings.length := by
  induction strings generalizing offset with
  | nil => rfl
  | cons string strings ih => simp only [stringPointers, List.length_cons, ih]

/-- The loop over a vector of strings locates each of them. -/
theorem locateStrings_of_drop {memory rest : List UInt8} {strings : List CString}
    {data size i rounds : Nat} (here : memory.drop (data + i) = joinStrings strings ++ rest)
    (ends : i + (joinStrings strings).length = size) (enough : strings.length < rounds) :
    (locateStrings memory data size rounds i).result =
      some (stringPointers strings (data + i)) := by
  induction strings generalizing i rounds with
  | nil =>
      obtain ⟨rounds, rfl⟩ := Nat.exists_eq_succ_of_ne_zero (Nat.ne_of_gt enough)
      have ended : size ≤ i := Nat.le_of_eq ends.symm
      rw [locateStrings, if_pos ended]
      rfl
  | cons string strings ih =>
      obtain ⟨rounds, rfl⟩ := Nat.exists_eq_succ_of_ne_zero (Nat.ne_of_gt (Nat.zero_lt_of_lt enough))
      have joined : joinStrings (string :: strings) = string.terminated ++ joinStrings strings :=
        List.flatMap_cons
      rw [joined, List.append_assoc] at here
      rw [joined, List.length_append, CString.length_terminated] at ends
      have behind := drop_behind here
      rw [CString.length_terminated, Nat.add_assoc] at behind
      have later : (locateStrings memory data size rounds (i + string.bytes.length + 1)).result =
          some (stringPointers strings (data + (i + string.bytes.length + 1))) :=
        ih behind (by omega) (Nat.lt_of_succ_lt_succ enough)
      rw [locateStrings, if_neg (by omega)]
      simp only [Traced.result_bind, result_strlen_of_drop here, Option.bind_some, later,
        Traced.result_pure, stringPointers, CString.length_terminated]
      simp only [Nat.add_assoc]

/-- A loop over strings and some bytes behind them that returned located the strings first. -/
theorem exists_stringPointers_of_locateStrings {memory rest : List UInt8} {strings : List CString}
    {data size i rounds : Nat} {pointers : List BufferPtr}
    (here : memory.drop (data + i) = joinStrings strings ++ rest)
    (inside : i + (joinStrings strings).length ≤ size)
    (located : (locateStrings memory data size rounds i).result = some pointers) :
    ∃ others, pointers = stringPointers strings (data + i) ++ others := by
  induction strings generalizing i rounds pointers with
  | nil => exact ⟨pointers, rfl⟩
  | cons string strings ih =>
      cases rounds with
      | zero => cases located
      | succ rounds =>
          have joined : joinStrings (string :: strings) =
              string.terminated ++ joinStrings strings := List.flatMap_cons
          rw [joined, List.append_assoc] at here
          rw [joined, List.length_append, CString.length_terminated] at inside
          have behind := drop_behind here
          rw [CString.length_terminated, Nat.add_assoc] at behind
          rw [locateStrings, if_neg (by omega), Traced.result_bind, result_strlen_of_drop here,
            Option.bind_some] at located
          obtain ⟨later, looped, returned⟩ := Traced.result_bind_eq_some.mp located
          cases returned
          have place : i + string.bytes.length + 1 = i + (string.bytes.length + 1) :=
            Nat.add_assoc ..
          rw [place] at looped
          obtain ⟨others, rfl⟩ := ih behind (by omega) looped
          refine ⟨others, ?_⟩
          rw [stringPointers, CString.length_terminated, List.cons_append, Nat.add_assoc]

/-- Where there is data, a first string is located. -/
theorem ne_nil_of_locateStrings {memory : List UInt8} {data size i rounds : Nat}
    {pointers : List BufferPtr} (inside : i < size)
    (located : (locateStrings memory data size rounds i).result = some pointers) :
    pointers ≠ [] := by
  rintro rfl
  cases rounds with
  | zero => cases located
  | succ rounds =>
      rw [locateStrings, if_neg (by omega)] at located
      obtain ⟨length, -, located⟩ := Traced.result_bind_eq_some.mp located
      obtain ⟨later, -, returned⟩ := Traced.result_bind_eq_some.mp located
      cases returned

/-- The strings that were located are read. -/
theorem loadStrings_of_drop {src : OmnmPayloadImpl} {rest : List UInt8} {strings : List CString}
    {offset : Nat} (here : src.mPayloadBuffer.drop offset = joinStrings strings ++ rest) :
    (loadStrings src (stringPointers strings offset)).result = some strings := by
  induction strings generalizing offset with
  | nil => rfl
  | cons string strings ih =>
      have joined : joinStrings (string :: strings) = string.terminated ++ joinStrings strings :=
        List.flatMap_cons
      rw [joined, List.append_assoc] at here
      rw [stringPointers, loadStrings, Traced.result_bind, loadStringArgument_of_drop here,
        Option.bind_some]
      simp only [Traced.result_bind, ih (drop_behind here), Option.bind_some, Traced.result_pure]

theorem length_flatten_of_width {records : List (List UInt8)} {width : Nat}
    (wide : ∀ record ∈ records, record.length = width) :
    records.flatten.length = records.length * width := by
  rw [List.length_flatten, List.map_congr_left wide, List.map_const', List.sum_replicate_nat]

/-- Records of one width, one behind the other, are loaded one by one. -/
theorem loadRecords_of_drop {memory : List UInt8} {width offset : Nat}
    {records : List (List UInt8)} {rest : List UInt8} (positive : 0 < width)
    (wide : ∀ record ∈ records, record.length = width)
    (here : memory.drop offset = records.flatten ++ rest) :
    (loadRecords memory width records.length offset).result = some records := by
  induction records generalizing offset with
  | nil => rfl
  | cons record records ih =>
      have first : record.length = width := wide record (List.mem_cons_self ..)
      have some_bytes : record ≠ [] := by
        rwa [← List.length_pos_iff, first]
      rw [List.flatten_cons, List.append_assoc] at here
      have behind := drop_behind here
      have loaded := @result_loadBytes_of_drop Region Region.message _ _ _ _ here some_bytes
      rw [first] at behind loaded
      have others := ih (fun other later => wide other (List.mem_cons_of_mem _ later)) behind
      rw [List.length_cons, loadRecords, Traced.result_bind, loaded, Option.bind_some,
        Traced.result_bind, others]
      rfl

namespace FieldEntry.HandledBy

variable {entry : FieldEntry} {src : OmnmPayloadImpl} {field : OmnmFieldImpl}

/-! ## Name, key and data -/

theorem getName (handled : entry.HandledBy src field) :
    (omnmmsgFieldPayload_getName src field).result =
      some (if entry.name = CString.empty then none else some field.mName) := by
  rcases handled.name with ⟨unnamed, null⟩ | ⟨named, offset, rest, pointer, here⟩
  · rw [omnmmsgFieldPayload_getName, null, if_pos unnamed]
    rfl
  · obtain ⟨first, notNul, loaded⟩ := exists_first_of_name named here
    rw [omnmmsgFieldPayload_getName, pointer]
    simp only [Traced.result_bind, loaded, Option.bind_some, Traced.result_pure, if_pos notNul,
      if_neg named]

theorem loadName (handled : entry.HandledBy src field) :
    (loadStringArgument src field.mName).result = some entry.nameArgument := by
  rcases handled.name with ⟨unnamed, null⟩ | ⟨named, offset, rest, pointer, here⟩
  · rw [null, nameArgument_of_unnamed unnamed]
    rfl
  · rw [pointer, loadStringArgument_of_drop here, nameArgument_of_named named]

/-- The name is read, or is NULL. -/
theorem exists_getName (handled : entry.HandledBy src field) :
    ∃ written, (omnmmsgFieldPayload_getName src field).result = some written ∧
      (loadStringArgument src (written.getD .null)).result = some entry.nameArgument := by
  refine ⟨_, handled.getName, ?_⟩
  split
  · rename_i unnamed
    rw [nameArgument_of_unnamed unnamed]
    rfl
  · exact handled.loadName

theorem validate (handled : entry.HandledBy src field) :
    (validateField src field).result = some (if entry.Keyless then some .nullArg else none) := by
  rw [validateField, handled.fid]
  by_cases numbered : entry.fid = 0
  · rw [if_neg (not_not.mpr numbered)]
    rcases handled.name with ⟨unnamed, null⟩ | ⟨named, offset, rest, pointer, here⟩
    · rw [null, if_pos ⟨nameArgument_of_unnamed unnamed, numbered⟩]
      rfl
    · obtain ⟨first, notNul, loaded⟩ := exists_first_of_name named here
      have keyed : ¬ entry.Keyless := by
        rintro ⟨unnamed, -⟩
        rw [nameArgument_of_named named] at unnamed
        cases unnamed
      rw [pointer, if_neg keyed]
      simp only [Traced.result_bind, loaded, Option.bind_some, Traced.result_pure, if_neg notNul]
  · rw [if_pos numbered, if_neg fun keyless => numbered keyless.2]
    rfl

theorem mData_ne_null (handled : entry.HandledBy src field) : field.mData ≠ .null := by
  obtain ⟨offset, rest, pointer, -⟩ := handled.data
  rw [pointer]
  simp

theorem loadData (handled : entry.HandledBy src field) {offset : Nat}
    (pointer : field.mData = .offset offset) :
    (loadBytes Region.message src.mPayloadBuffer offset entry.data.length).result =
      some entry.data := by
  obtain ⟨offset', rest, pointer', here, inside⟩ := handled.data
  cases pointer.symm.trans pointer'
  rw [loadBytes, if_pos inside, slice, here, List.take_left]

theorem loadBytesArgument (handled : entry.HandledBy src field) :
    (loadBytesArgument src field.mData entry.data.length).result = some (some entry.data) := by
  obtain ⟨offset, rest, pointer, -⟩ := handled.data
  rw [pointer, Omnm.loadBytesArgument]
  rw [Traced.result_bind, handled.loadData pointer]
  rfl

/-- The front of the data is loaded. -/
theorem loadFront (handled : entry.HandledBy src field) {length : Nat}
    (short : length ≤ entry.data.length) :
    (Omnm.loadBytesArgument src field.mData length).result = some (some (entry.data.take length)) := by
  obtain ⟨offset, rest, pointer, here, inside⟩ := handled.data
  rw [pointer, Omnm.loadBytesArgument, Traced.result_bind, loadBytes,
    if_pos (Nat.le_trans (Nat.add_le_add_left short offset) inside), slice, here,
    List.take_append_of_le_length short]
  rfl

/-! ## Values -/

theorem getFieldValueAsBuffer (handled : entry.HandledBy src field) :
    (getFieldValueAsBuffer src field).result =
      some (if entry.Keyless then (.nullArg, none) else (.ok, some field.mData)) := by
  rw [Omnm.getFieldValueAsBuffer, Traced.result_bind, handled.validate, Option.bind_some]
  by_cases keyless : entry.Keyless
  · rw [if_pos keyless, if_pos keyless]
    rfl
  · rw [if_neg keyless, if_neg keyless]
    rfl

variable [FieldTypeTags]

theorem refuses_iff (handled : entry.HandledBy src field) {type : MamaFieldType}
    (same : entry.type = tag type) : ¬ field.Refuses type := by
  rintro ⟨differs, -⟩
  exact differs (handled.type.trans same)

theorem getString (handled : entry.HandledBy src field) (string : entry.type = tag .string) :
    (omnmmsgFieldPayload_getString src field).result =
      some (if entry.Keyless then (.nullArg, none) else (.ok, some field.mData)) := by
  rw [omnmmsgFieldPayload_getString, if_neg handled.mData_ne_null, if_neg (handled.refuses_iff string),
    handled.getFieldValueAsBuffer]

/-- The data of a string field are a string. -/
theorem loadString (handled : entry.HandledBy src field) (string : entry.type = tag .string)
    (fits : DataFits entry.type entry.data) :
    ∃ text, entry.data = CString.terminated text ∧
      (loadStringArgument src field.mData).result = some (some text) := by
  have ends : nulIndex entry.data = some (entry.data.length - 1) := by
    simpa only [DataFits, dataLayout, string, fieldTypeOf_tag] using fits
  obtain ⟨text, data⟩ := CString.exists_terminated_of_nulIndex ends
  obtain ⟨offset, rest, pointer, here, -⟩ := handled.data
  rw [data] at here
  exact ⟨text, data, pointer ▸ loadStringArgument_of_drop here⟩

theorem getOpaque (handled : entry.HandledBy src field) (bytes : entry.type = tag .opaqueField) :
    (omnmmsgFieldPayload_getOpaque src field).result = some (if entry.Keyless then (.nullArg, none)
      else (.ok, some (field.mData, entry.data.length))) := by
  rw [omnmmsgFieldPayload_getOpaque, if_neg handled.mData_ne_null, if_neg (handled.refuses_iff bytes),
    Traced.result_bind, handled.getFieldValueAsBuffer, Option.bind_some, handled.size]
  by_cases keyless : entry.Keyless
  · rw [if_pos keyless, if_pos keyless]
    rfl
  · rw [if_neg keyless, if_neg keyless]
    rfl

variable [MamaLibrary]

/-- A scalar field is read as its own type, and converted to one that is as wide. -/
theorem getFieldValueAsCopy (handled : entry.HandledBy src field) {source target : ScalarType}
    (type : entry.type = tag source.fieldType) (width : entry.data.length = source.size)
    (wide : source.size ≤ target.size) :
    (getFieldValueAsCopy target src field).result = some (if entry.Keyless then (.nullArg, none)
      else (.ok, some (castScalar source target (littleEndianValue entry.data)))) := by
  have stored : storedScalar field.mFieldType = some source := by
    rw [handled.type, type, storedScalar, fieldTypeOf_tag]
    cases source <;> rfl
  obtain ⟨offset, rest, pointer, here, -⟩ := handled.data
  rw [Omnm.getFieldValueAsCopy, Traced.result_bind, handled.validate, Option.bind_some]
  by_cases keyless : entry.Keyless
  · rw [if_pos keyless, if_pos keyless]
    rfl
  · rw [if_neg keyless, if_neg keyless]
    have fits : ¬ target.size < field.mSize := by
      rw [handled.size, width]
      exact Nat.not_lt.mpr wide
    simp only [if_neg fits, OmnmFieldImpl.dataOffset, pointer, stored, Traced.result_bind,
      Traced.result_pure, Option.bind_some,
      result_loadInteger_of_drop here width source.size_pos]

/-- A scalar field is read through the getter of its type. -/
theorem getScalarField (handled : entry.HandledBy src field) {scalar : ScalarType}
    (type : entry.type = tag scalar.fieldType) (width : entry.data.length = scalar.size) :
    (getScalarField scalar src field).result = some (if entry.Keyless then (.nullArg, none)
      else (.ok, some (littleEndianValue entry.data))) := by
  rw [Omnm.getScalarField, if_neg handled.mData_ne_null, if_neg (handled.refuses_iff type),
    handled.getFieldValueAsCopy type width (Nat.le_refl _), castScalar, if_pos rfl]

theorem getDateTime (handled : entry.HandledBy src field) (time : entry.type = tag .time)
    (width : entry.data.length = sizeofOmnmDateTime) :
    (omnmmsgFieldPayload_getDateTime src field).result =
      some (.ok, some (convertOmnmDateTimeToMamaDateTime entry.data)) := by
  obtain ⟨offset, rest, pointer, -⟩ := handled.data
  simp only [omnmmsgFieldPayload_getDateTime, handled.type, time, fieldTypeOf_tag,
    OmnmFieldImpl.dataOffset, pointer, Traced.result_bind, Traced.result_pure, Option.bind_some,
    ← width, handled.loadData pointer]

theorem getPrice (handled : entry.HandledBy src field) (price : entry.type = tag .price)
    (width : entry.data.length = sizeofOmnmPrice) :
    (omnmmsgFieldPayload_getPrice src field).result =
      some (.ok, some (convertOmnmPriceToMamaPrice entry.data)) := by
  obtain ⟨offset, rest, pointer, -⟩ := handled.data
  rw [omnmmsgFieldPayload_getPrice, if_neg handled.mData_ne_null]
  simp only [handled.type, price, fieldTypeOf_tag, OmnmFieldImpl.dataOffset, pointer,
    Traced.result_bind, Traced.result_pure, Option.bind_some, ← width, handled.loadData pointer]

/-! ## Messages and vectors -/

omit [MamaLibrary]

/-- The sub-payload that the field keeps is filled with the data. -/
theorem getMsg_eq (handled : entry.HandledBy src field) (memory : GetterMemory)
    (msg : entry.type = tag .msg) {offset : Nat} (pointer : field.mData = .offset offset)
    (results : FieldResults) :
    (omnmmsgFieldPayload_getMsg memory src field results).result =
      (fillSubPayload memory results.mSubPayload (src.mPayloadBuffer.drop offset)
        entry.data.length).result.map fun (status, mSubPayload) =>
          (status, mSubPayload, { results with mSubPayload }) := by
  rw [omnmmsgFieldPayload_getMsg, if_neg handled.mData_ne_null,
    if_neg (not_not.mpr (handled.type.trans msg))]
  simp only [OmnmFieldImpl.dataOffset, pointer, handled.size, Traced.result_bind,
    Traced.result_pure, Option.bind_some, Option.map_eq_bind]
  rfl

/-- A message is taken in with its bytes. -/
theorem getMsg (handled : entry.HandledBy src field) {memory : GetterMemory}
    (succeeds : memory.payload.Succeeds) (msg : entry.type = tag .msg)
    (header : HeaderAhead entry.data) (results : FieldResults) :
    ∃ sub kept, (omnmmsgFieldPayload_getMsg memory src field results).result =
      some (.ok, some sub, kept) ∧ sub.serialized = entry.data := by
  obtain ⟨offset, rest, pointer, here, -⟩ := handled.data
  obtain ⟨sub, result, serialized⟩ := fillSubPayload_eq succeeds results.mSubPayload
    (show entry.data.length ≠ 0 from Nat.ne_of_gt (Nat.zero_lt_of_lt header.1))
    (header.append rest) (List.length_append ▸ Nat.le_add_right ..)
  rw [List.take_left] at serialized
  refine ⟨sub, { results with mSubPayload := some sub }, ?_, serialized⟩
  rw [handled.getMsg_eq memory msg pointer, here, result]
  rfl

omit [FieldTypeTags] in
/-- A vector of strings is read as an array of its strings. -/
theorem getVectorString (handled : entry.HandledBy src field) {memory : GetterMemory}
    (arrays : memory.arrays = true) {strings : List CString} (some_strings : strings ≠ [])
    (data : entry.data = joinStrings strings) (results : FieldResults) :
    ∃ array kept, (omnmmsgFieldPayload_getVectorString memory src field results).result =
        some (.ok, (array, strings.length), kept) ∧
      (loadStringArray src array strings.length).result = some (some strings) := by
  obtain ⟨offset, rest, pointer, here, -⟩ := handled.data
  have loaded := handled.loadData pointer
  rw [data] at here loaded
  have short := length_le_length_joinStrings strings
  have positive := List.length_pos_iff.mpr some_strings
  have size : field.mSize = (joinStrings strings).length := by rw [handled.size, data]
  have located : (locateStrings src.mPayloadBuffer offset (joinStrings strings).length
      ((joinStrings strings).length + 1) 0).result = some (stringPointers strings offset) :=
    @locateStrings_of_drop _ _ _ _ _ 0 _ here (Nat.zero_add _) (Nat.lt_succ_of_le short)
  have room : ¬ (memory.growArray results.mVectorString .null strings.length).length <
      strings.length := by
    rw [GetterMemory.growArray, if_pos arrays, List.length_append, List.length_replicate]
    omega
  refine ⟨stringPointers strings offset ++
    (memory.growArray results.mVectorString .null strings.length).drop strings.length,
    { results with mVectorString := stringPointers strings offset ++
      (memory.growArray results.mVectorString .null strings.length).drop strings.length }, ?_, ?_⟩
  · rw [omnmmsgFieldPayload_getVectorString, if_neg (by omega)]
    simp only [OmnmFieldImpl.dataOffset, pointer, size, Traced.result_bind, Traced.result_pure,
      Option.bind_some, loaded, count_joinStrings, located, length_stringPointers]
    rw [if_neg room]
    rfl
  · have some_pointers : stringPointers strings offset ++
        (memory.growArray results.mVectorString .null strings.length).drop strings.length ≠ [] := by
      intro none
      have length := congrArg List.length none
      rw [List.length_append, length_stringPointers, List.length_nil] at length
      omega
    rw [loadStringArray, if_neg some_pointers, List.take_left' (length_stringPointers ..),
      Traced.result_bind, loadStrings_of_drop here]
    rfl

omit [FieldTypeTags] in
/-- A call on data with or without a last NUL that returned: no data leaves the array alone, and
other data puts its strings at the front of an array that is not NULL. -/
theorem of_getVectorString (handled : entry.HandledBy src field) {memory : GetterMemory}
    {results kept : FieldResults} {status : MamaStatus} {array : List BufferPtr} {count : Nat}
    (read : (omnmmsgFieldPayload_getVectorString memory src field results).result =
      some (status, (array, count), kept)) :
    status = .ok ∧ array = kept.mVectorString ∧ kept.mSubPayload = results.mSubPayload ∧
      ((entry.data = [] ∧ kept = results ∧ count = 0) ∨
        (entry.data ≠ [] ∧ array ≠ [] ∧ (results.mVectorString = [] → (0 : UInt8) ∈ entry.data) ∧
          ∃ strings, uptoLastNul entry.data = joinStrings strings ∧
            (loadStringArray src array count).result = some (some strings))) := by
  by_cases none : entry.data = []
  · have zero : field.mSize = 0 := by rw [handled.size, none, List.length_nil]
    rw [omnmmsgFieldPayload_getVectorString, if_pos zero] at read
    cases read
    exact ⟨rfl, rfl, rfl, .inl ⟨none, rfl, rfl⟩⟩
  · obtain ⟨offset, behind, pointer, here, -⟩ := handled.data
    have loaded := handled.loadData pointer
    have positive := List.length_pos_iff.mpr none
    have size := handled.size
    obtain ⟨strings, rest, data, noNul, upto⟩ := exists_strings_of_data entry.data
    have number : entry.data.count 0 = strings.length := by
      rw [data, List.count_append, count_joinStrings, List.count_eq_zero.mpr noNul, Nat.add_zero]
    rw [omnmmsgFieldPayload_getVectorString, if_neg (by omega)] at read
    simp only [OmnmFieldImpl.dataOffset, pointer, size, Traced.result_bind, Traced.result_pure,
      Option.bind_some, loaded, number] at read
    obtain ⟨pointers, located, read⟩ := Option.bind_eq_some_iff.mp read
    split at read
    · cases read
    · rename_i room
      cases read
      have first := ne_nil_of_locateStrings positive located
      obtain ⟨others, split⟩ := @exists_stringPointers_of_locateStrings _ (rest ++ behind) strings
        offset _ 0 _ _ (by rw [Nat.add_zero, here, data, List.append_assoc])
        (by rw [data, List.length_append]; omega) located
      have some_array : pointers ++ (memory.growArray results.mVectorString .null
          strings.length).drop pointers.length ≠ [] := by simp [first]
      refine ⟨rfl, rfl, rfl, .inr ⟨none, some_array, ?_, strings, upto, ?_⟩⟩
      · -- an array that is NULL has room for a string only if it grows by the NULs
        intro null
        by_contra noNul'
        rw [← number, List.count_eq_zero.mpr noNul', GetterMemory.growArray, null] at room
        have one := List.length_pos_iff.mpr first
        simp only [List.length_nil, Nat.sub_zero, List.replicate_zero, List.append_nil,
          ite_self, Nat.not_lt] at room
        omega
      · have front : (pointers ++ (memory.growArray results.mVectorString .null
            strings.length).drop pointers.length).take strings.length =
              stringPointers strings offset := by
          rw [split, List.append_assoc, List.take_left' (length_stringPointers ..), Nat.add_zero]
        have here' : src.mPayloadBuffer.drop offset = joinStrings strings ++ (rest ++ behind) := by
          rw [here, data, List.append_assoc]
        rw [loadStringArray, if_neg some_array, front, Traced.result_bind,
          loadStrings_of_drop here']
        rfl

omit [FieldTypeTags] in
/-- Strings that end, or none, are read as an array, which is NULL as long as there were none. -/
theorem exists_getVectorString (handled : entry.HandledBy src field) {memory : GetterMemory}
    (arrays : memory.arrays = true)
    (readable : entry.data = [] ∨ entry.data.getLast? = some 0) (results : FieldResults) :
    ∃ strings array kept, entry.data = joinStrings strings ∧
      (omnmmsgFieldPayload_getVectorString memory src field results).result =
        some (.ok, (array, strings.length), kept) ∧
      (loadStringArray src array strings.length).result =
        some (if array = [] then none else some strings) ∧
      (array = [] ↔ results.mVectorString = [] ∧ entry.data = []) ∧
      array = kept.mVectorString ∧ kept.mSubPayload = results.mSubPayload := by
  by_cases none : entry.data = []
  · have zero : field.mSize = 0 := by rw [handled.size, none, List.length_nil]
    refine ⟨[], results.mVectorString, results, none, ?_, ?_, (and_iff_left none).symm, rfl, rfl⟩
    · rw [omnmmsgFieldPayload_getVectorString, if_pos zero]
      rfl
    · rw [loadStringArray]
      split <;> rfl
  · obtain ⟨strings, some_strings, data⟩ := exists_joinStrings (readable.resolve_left none)
    obtain ⟨array, kept, read, loaded⟩ :=
      handled.getVectorString arrays some_strings data results
    obtain ⟨-, same, sub, outcome⟩ := handled.of_getVectorString read
    have some_array : array ≠ [] := by
      rcases outcome with ⟨empty, -⟩ | ⟨-, some_array, -⟩
      · exact absurd empty none
      · exact some_array
    refine ⟨strings, array, kept, data, read, ?_, iff_of_false some_array fun empty => none empty.2,
      same, sub⟩
    rw [loaded, if_neg some_array]

omit [FieldTypeTags] in
/-- A vector of records is converted record by record, over whatever the array kept. -/
theorem getVectorRecords (handled : entry.HandledBy src field) {memory : GetterMemory}
    (arrays : memory.arrays = true) {width : Nat} (positive : 0 < width)
    {records : List (List UInt8)} (some_records : records ≠ [])
    (wide : ∀ record ∈ records, record.length = width) (data : entry.data = records.flatten)
    {Entry : Type} (kept : List (Option Entry)) (convert : List UInt8 → Entry) :
    ∃ array, (getVectorRecords memory src field kept width convert).result =
        some (array, records.length) ∧
      array.take records.length = records.map fun record => some (convert record) := by
  obtain ⟨offset, rest, pointer, here, -⟩ := handled.data
  rw [data] at here
  have count : field.mSize / width = records.length := by
    rw [handled.size, data, length_flatten_of_width wide, Nat.mul_div_cancel _ positive]
  have some_count : records.length ≠ 0 := List.length_eq_zero_iff.not.mpr some_records
  have room : ¬ (memory.growArray kept none records.length).length < records.length := by
    rw [GetterMemory.growArray, if_pos arrays, List.length_append, List.length_replicate]
    omega
  refine ⟨records.map (fun record => some (convert record)) ++
    (memory.growArray kept none records.length).drop records.length, ?_,
    List.take_left' (List.length_map ..)⟩
  simp only [Omnm.getVectorRecords, count, if_neg some_count, OmnmFieldImpl.dataOffset, pointer,
    Traced.result_bind, Traced.result_pure, Option.bind_some,
    loadRecords_of_drop positive wide here, if_neg room]

end FieldEntry.HandledBy

/-- An encoded field is shown by a handle that points at its name and at its data. -/
theorem FieldEntry.handledBy_at [FieldTypeTags] {entry : FieldEntry} {src : OmnmPayloadImpl}
    {position : Nat} {rest : List UInt8}
    (here : src.mPayloadBuffer.drop position = entry.encode ++ rest) :
    entry.HandledBy src { entry.handle position .null with
      mData := .offset (position + entry.head.length) } where
  type := rfl
  fid := rfl
  size := rfl
  name := by
    obtain ⟨-, -, ⟨behind, nameHere⟩, -⟩ := parts_of_drop here
    by_cases unnamed : entry.name = CString.empty
    · exact .inl ⟨unnamed, if_pos unnamed⟩
    · exact .inr ⟨unnamed, position + 3, behind, if_neg unnamed, nameHere⟩
  data := by
    obtain ⟨-, -, -, dataHere⟩ := parts_of_drop here
    have place : position + entry.head.length =
        position + 3 + entry.name.terminated.length + entry.lengthPart.length := by
      rw [entry.length_head, CString.length_terminated]
      omega
    rw [List.append_assoc] at dataHere
    have dataThere := drop_behind dataHere
    rw [← place] at dataThere
    refine ⟨position + entry.head.length, rest, rfl, dataThere, ?_⟩
    have whole := congrArg List.length here
    have wide := entry.four_le_length_encode
    have parts : entry.encode.length = entry.head.length + entry.data.length := List.length_append
    rw [List.length_drop, List.length_append] at whole
    omega

/-- The iterator's handle of an encoded field of a listed type shows it. -/
theorem FieldEntry.handledBy_of_drop [FieldTypeTags] {entry : FieldEntry} {src : OmnmPayloadImpl}
    {position : Nat} {rest : List UInt8} (listed : dataLayout entry.type ≠ .unlisted)
    (here : src.mPayloadBuffer.drop position = entry.encode ++ rest) (previous : BufferPtr) :
    entry.HandledBy src (entry.handle position previous) := by
  have pointed : entry.handle position previous = { entry.handle position .null with
      mData := .offset (position + entry.head.length) } := by
    simp only [handle, dataPointer, if_neg listed]
  rw [pointed]
  exact handledBy_at here

/-- The data of an encoded field of a listed type stand where its handle points. -/
theorem FieldEntry.drop_of_handle [FieldTypeTags] {entry : FieldEntry} {src : OmnmPayloadImpl}
    {position offset : Nat} {rest : List UInt8} {previous : BufferPtr}
    (listed : dataLayout entry.type ≠ .unlisted)
    (here : src.mPayloadBuffer.drop position = entry.encode ++ rest)
    (pointer : (entry.handle position previous).mData = .offset offset) :
    src.mPayloadBuffer.drop offset = entry.data ++ rest := by
  simp only [handle, dataPointer, if_neg listed, BufferPtr.offset.injEq] at pointer
  rw [FieldEntry.encode, List.append_assoc] at here
  rw [← pointer]
  exact drop_behind here

end Omnm
