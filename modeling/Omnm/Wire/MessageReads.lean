import Omnm.Memory.Decoders
import Omnm.Payload.ReadEffects
import Omnm.Wire.FieldCalls
import Omnm.Wire.MessageMutations
import Omnm.Wire.MessageVectors
import Omnm.Wire.Printing

/-!
# The public reads as questions about a message

What a getter gives for a field, as a function of its type and its data
(`FieldEntry.asScalar`, `FieldEntry.asDateTime` and so on), and what a read gives
for a message (`ReadCall.answer`). Of what a read returns, the caller sees what is
behind the pointers (`ReadResult.observe`).

On a payload that shows a message a read gives its answer, whatever the scratch
buffer and the field of the payload keep from earlier calls, and leaves the
message (`Shows.perform_read`). The printing functions hand a vector to MAMA as if
it were a field of MAMA's, so of a print with a vector in it nothing is looked at
but that it returns.
-/

set_option autoImplicit false

namespace Omnm

open FieldTypeTags (tag)
open OmnmPayloadImpl

/-! ## What the caller sees -/

/-- What the caller of a function sees: the status, and what is behind the pointers. -/
inductive Observation where
  | returned
  | string (text : Option (List UInt8))
  | text (status : MamaStatus) (text : Option (List UInt8))
  | status (status : MamaStatus)
  | size (status : MamaStatus) (size : Nat)
  | bytes (status : MamaStatus) (bytes : Option (List UInt8))
  | fields (status : MamaStatus) (fields : List FieldValue)
  | scalar (status : MamaStatus) (bits : Option Nat)
  | dateTime (status : MamaStatus) (value : Option MamaDateTime)
  | price (status : MamaStatus) (value : Option MamaPrice)
  | strings (status : MamaStatus) (values : Option (List (List UInt8)))
  | dateTimes (status : MamaStatus) (values : Option (List (Option MamaDateTime)))
  | prices (status : MamaStatus) (values : Option (List (Option MamaPrice)))
  | messages (status : MamaStatus) (values : Option (List (Option (List UInt8))))
  | field (status : MamaStatus) (value : Option FieldValue)
  deriving DecidableEq, Repr

/-- The bytes of one element that a pointer and a count stand for. -/
def ReadCall.elementSize : ReadCall → Nat
  | .getVectorScalar scalar _ _ => scalar.size
  | _ => 1

/-- The call prints a field for which MAMA is asked. -/
def ReadCall.asksMama [FieldTypeTags] (msg : OmnmPayloadImpl) : ReadCall → Bool
  | .toString _ => (msg.decodedFields.getD []).any fun field => Omnm.asksMama field.type
  | .getFieldAsString name fid _ =>
      match (msg.getField name fid).result with
      | some (_, some field) => Omnm.asksMama field.mFieldType
      | _ => false
  | _ => false

/-- A result with its pointers followed into the payload. A sub-message and a field are looked at
only when the call succeeded, a text only when MAMA was not asked for it. -/
def ReadResult.observe [FieldTypeTags] (call : ReadCall) (msg : OmnmPayloadImpl) :
    ReadResult → Observation
  | .string text =>
      if call.asksMama msg then .returned else .string (text.map CString.bytes)
  | .printed status text =>
      if call.asksMama msg then .returned else .text status (text.map CString.bytes)
  | .size status count => .size status count
  | .buffer status memory length => .bytes status (some (memory.take length))
  | .fields status handles => .fields status (handles.map msg.valueOf)
  | .scalar status bits => .scalar status bits
  | .pointer status data => .bytes status (data.map (stringAt msg.mPayloadBuffer))
  | .sized status data => .bytes status (data.map fun array =>
      bytesAt msg.mPayloadBuffer (array.2 * call.elementSize) array.1)
  | .dateTime status value => .dateTime status value
  | .price status value => .price status value
  | .msg status value =>
      .bytes status (if status = .ok then value.map OmnmPayloadImpl.serialized else none)
  | .strings status value => .strings status (value.map fun array =>
      (array.1.take array.2).map (stringAt msg.mPayloadBuffer))
  | .dateTimes status value => .dateTimes status (value.map fun array => array.1.take array.2)
  | .prices status value => .prices status (value.map fun array => array.1.take array.2)
  | .msgs status value => .messages status (value.map fun array =>
      (array.1.take array.2).map (Option.map OmnmPayloadImpl.serialized))
  | .field status handle => .field status (if status = .ok then some (msg.valueOf handle) else none)

/-! ## What the getters give for a field -/

/-- The records of one width in the data of a field, without what is left over. -/
def wholeRecords (width : Nat) (data : List UInt8) : List (List UInt8) :=
  (List.range (data.length / width)).map fun index => slice data (index * width) width

namespace FieldEntry

variable [FieldTypeTags] [MamaLibrary]

/-- The data of a field as a scalar of another type. -/
def asScalar (target : ScalarType) (entry : FieldEntry) : MamaStatus × Option Nat :=
  if target.size < entry.data.length then (.wrongFieldType, some 0)
  else
    match storedScalar entry.type with
    | some source => (.ok, some (castScalar source target (littleEndianValue entry.data)))
    | none => (.ok, some (littleEndianValue entry.data))

/-- The data of a field as a date-time. -/
def asDateTime (entry : FieldEntry) : MamaStatus × Option MamaDateTime :=
  match fieldTypeOf entry.type with
  | some .time => (.ok, some (convertOmnmDateTimeToMamaDateTime entry.data))
  | some .string =>
      let (status, value) :=
        MamaLibrary.mamaDateTime_setFromString (CString.ofBytes entry.data).bytes
      (status, some value)
  | some .f64 =>
      let (status, value) := MamaLibrary.mamaDateTime_setEpochTimeF64 (littleEndianValue entry.data)
      (status, some value)
  | some .i64 =>
      let (status, value) :=
        MamaLibrary.mamaDateTime_setEpochTimeMilliseconds (littleEndianValue entry.data)
      (status, some value)
  | some .u64 =>
      let (status, value) :=
        MamaLibrary.mamaDateTime_setEpochTimeMicroseconds (littleEndianValue entry.data)
      (status, some value)
  | _ => (.wrongFieldType, none)

/-- The data of a field as a price. -/
def asPrice (entry : FieldEntry) : MamaStatus × Option MamaPrice :=
  match fieldTypeOf entry.type with
  | some .price => (.ok, some (convertOmnmPriceToMamaPrice entry.data))
  | some .f64 => (.ok, some (MamaLibrary.mamaPrice_setValue (littleEndianValue entry.data)))
  | _ => (.wrongFieldType, none)

/-- The text of a field in a buffer of a length, unless MAMA is asked. -/
def asString [FieldPrinting] (len : Nat) (entry : FieldEntry) :
    Option (MamaStatus × Option CString) :=
  entry.printed.map fun shown =>
    if len = 0 then (.invalidArg, none) else (shown.1, some (shown.2.string len))

omit [MamaLibrary]

/-- The data of a field as the bytes of a sub-message. -/
def asMessage (entry : FieldEntry) : MamaStatus × Option (List UInt8) :=
  if entry.type ≠ tag .msg then (.wrongFieldType, none)
  else if entry.data = [] then (.invalidArg, none)
  else if HeaderAhead entry.data then (.ok, some entry.data)
  else (.wrongFieldType, none)

end FieldEntry

/-! ## Answers -/

namespace Message

variable [FieldTypeTags] [MamaLibrary] [FieldPrinting]

/-- What is given under a key: a status when the key is rejected or has no field, or what the
first field with the key gives. -/
def lookup {Value : Type} (message : Message) (name : Option CString) (fid : UInt16)
    (missing : MamaStatus → Value) (given : FieldEntry → Value) : Value :=
  match validateNameFid name fid with
  | some status => missing status
  | none => (message.find name fid).elim (missing .notFound) given

/-- The answer of a message to a read. -/
def answer (message : Message) : ReadCall → Observation
  | .toString _ => message.text.elim .returned fun text => .string (some text)
  | .getFieldAsString name fid len =>
      message.lookup name fid (.text · none) fun entry =>
        (entry.asString len).elim .returned fun shown =>
          .text shown.1 (shown.2.map CString.bytes)
  | .getNumFields => .size .ok message.entries.length
  | .getByteSize => .size .ok message.encode.length
  | .serialize => .bytes .ok (some message.encode)
  | .iterateFields => .fields .ok (message.entries.map FieldEntry.value)
  | .getScalar scalar name fid =>
      message.lookup name fid (.scalar · none) fun entry =>
        .scalar (entry.asScalar scalar).1 (entry.asScalar scalar).2
  | .getVectorScalar scalar name fid =>
      message.lookup name fid (.bytes · none) fun entry =>
        .bytes .ok (some (entry.data.take (entry.data.length / scalar.size * scalar.size)))
  | .getString name fid =>
      message.lookup name fid (.bytes · none) fun entry =>
        .bytes .ok (some (CString.ofBytes entry.data).bytes)
  | .getOpaque name fid =>
      message.lookup name fid (.bytes · none) fun entry => .bytes .ok (some entry.data)
  | .getDateTime name fid =>
      message.lookup name fid (.dateTime · none) fun entry =>
        .dateTime entry.asDateTime.1 entry.asDateTime.2
  | .getPrice name fid =>
      message.lookup name fid (.price · none) fun entry => .price entry.asPrice.1 entry.asPrice.2
  | .getMsg _ name fid =>
      message.lookup name fid (.bytes · none) fun entry =>
        .bytes entry.asMessage.1 entry.asMessage.2
  | .getVectorString _ name fid =>
      message.lookup name fid (.strings · none) fun entry =>
        .strings .ok ((Decoder.terminatedString.takeAll entry.data).map fun strings =>
          strings.map CString.bytes)
  | .getVectorDateTime _ name fid =>
      message.lookup name fid (.dateTimes · none) fun entry =>
        .dateTimes .ok (some ((wholeRecords sizeofOmnmDateTime entry.data).map fun record =>
          some (convertOmnmDateTimeToMamaDateTime record)))
  | .getVectorPrice _ name fid =>
      message.lookup name fid (.prices · none) fun entry =>
        .prices .ok (some ((wholeRecords sizeofOmnmPrice entry.data).map fun record =>
          some (convertOmnmPriceToMamaPrice record)))
  | .getVectorMsg _ name fid =>
      message.lookup name fid (.messages · none) fun entry =>
        .messages .ok (((Decoder.counted 4).takeAll entry.data).map fun messages =>
          messages.map some)
  | .getField name fid =>
      message.lookup name fid (.field · none) fun entry => .field .ok (some entry.value)

end Message

/-! ## The getters of a field -/

section

variable [FieldTypeTags]

/-- A scalar that the copying getter knows is as wide as the data, unless it is a quantity. -/
theorem FieldEntry.length_of_storedScalar [MamaLibrary] {entry : FieldEntry} {source : ScalarType}
    (fits : DataFits entry.type entry.data) (plain : entry.type ≠ tag .quantity)
    (stored : storedScalar entry.type = some source) : entry.data.length = source.size := by
  unfold DataFits dataLayout at fits
  unfold storedScalar at stored
  cases named : fieldTypeOf entry.type with
  | none => simp [named] at stored
  | some type =>
      rw [named] at stored fits
      cases type <;> simp only [Option.some.injEq, reduceCtorEq] at stored
      case quantity => exact absurd (tag_of_fieldTypeOf named).symm plain
      all_goals
        subst stored
        exact fits

/-- The data of a string are a terminated string. -/
theorem FieldEntry.exists_terminated {entry : FieldEntry} (fits : DataFits entry.type entry.data)
    (string : fieldTypeOf entry.type = some .string) :
    ∃ text : CString, entry.data = text.terminated := by
  unfold DataFits dataLayout at fits
  rw [string] at fits
  exact CString.exists_terminated_of_nulIndex fits

/-- The data of a type of eight bytes. -/
theorem FieldEntry.length_eight {entry : FieldEntry} (fits : DataFits entry.type entry.data)
    (eight : dataLayout entry.type = .fixed 8) : entry.data.length = 8 := by
  unfold DataFits at fits
  rw [eight] at fits
  exact fits

namespace FieldEntry.HandledBy

variable {entry : FieldEntry} {src : OmnmPayloadImpl} {field : OmnmFieldImpl}

omit [FieldTypeTags] in
theorem loadInteger_data (handled : entry.HandledBy src field) {offset : Nat}
    (pointer : field.mData = .offset offset) :
    (loadInteger Region.message src.mPayloadBuffer offset entry.data.length).result =
      some (littleEndianValue entry.data) := by
  show (loadBytes Region.message src.mPayloadBuffer offset entry.data.length).result.map _ = _
  rw [handled.loadData pointer]
  rfl

section

variable [MamaLibrary]

/-- A field that a key finds is copied as its type says. -/
theorem getFieldValueAsCopy_eq (handled : entry.HandledBy src field)
    (fits : DataFits entry.type entry.data) (plain : entry.type ≠ tag .quantity)
    (keyed : ¬ entry.Keyless) (target : ScalarType) :
    (Omnm.getFieldValueAsCopy target src field).result = some (entry.asScalar target) := by
  obtain ⟨offset, rest, pointer, here, -⟩ := handled.data
  rw [Omnm.getFieldValueAsCopy, Traced.result_bind, handled.validate, if_neg keyed,
    Option.bind_some, handled.size, FieldEntry.asScalar]
  by_cases long : target.size < entry.data.length
  · simp only [if_pos long, Traced.result_pure]
  · simp only [if_neg long, OmnmFieldImpl.dataOffset, pointer, Traced.result_bind,
      Traced.result_pure, Option.bind_some, handled.type]
    cases stored : storedScalar entry.type with
    | none =>
        simp only [Traced.result_bind, handled.loadInteger_data pointer, Option.bind_some,
          Traced.result_pure]
    | some source =>
        have loaded := handled.loadInteger_data pointer
        rw [FieldEntry.length_of_storedScalar fits plain stored] at loaded
        simp only [Traced.result_bind, loaded, Option.bind_some, Traced.result_pure]

/-- A field is read as a date-time as its type says. -/
theorem getDateTime_eq (handled : entry.HandledBy src field)
    (fits : DataFits entry.type entry.data) :
    (omnmmsgFieldPayload_getDateTime src field).result = some entry.asDateTime := by
  obtain ⟨offset, rest, pointer, here, -⟩ := handled.data
  have number : dataLayout entry.type = .fixed 8 →
      (loadInteger Region.message src.mPayloadBuffer offset 8).result =
        some (littleEndianValue entry.data) := by
    intro eight
    rw [← FieldEntry.length_eight fits eight]
    exact handled.loadInteger_data pointer
  unfold omnmmsgFieldPayload_getDateTime FieldEntry.asDateTime
  simp only [handled.type, OmnmFieldImpl.dataOffset, pointer]
  cases named : fieldTypeOf entry.type with
  | none => rfl
  | some type =>
      cases type
      case time =>
        have width : entry.data.length = sizeofOmnmDateTime := by
          unfold DataFits dataLayout at fits
          rw [named] at fits
          exact fits
        simp only [Traced.result_bind, Traced.result_pure, Option.bind_some, ← width,
          handled.loadData pointer]
      case string =>
        obtain ⟨text, data⟩ := FieldEntry.exists_terminated fits named
        rw [data] at here
        have loaded := result_loadCString_of_drop here
        have text_eq : CString.ofBytes entry.data = text := by
          rw [data, CString.ofBytes_terminated]
        simp only [Traced.result_bind, Traced.result_pure, Option.bind_some, loaded, text_eq]
      case f64 | i64 | u64 =>
        have eight : dataLayout entry.type = .fixed 8 := by rw [dataLayout, named]
        simp only [Traced.result_bind, Traced.result_pure, Option.bind_some, number eight]
      all_goals rfl

/-- A field that a key finds is read as a price as its type says. -/
theorem getPrice_eq (handled : entry.HandledBy src field)
    (fits : DataFits entry.type entry.data) (keyed : ¬ entry.Keyless) :
    (omnmmsgFieldPayload_getPrice src field).result = some entry.asPrice := by
  obtain ⟨offset, rest, pointer, here, -⟩ := handled.data
  rw [omnmmsgFieldPayload_getPrice, if_neg handled.mData_ne_null]
  simp only [FieldEntry.asPrice, handled.type, OmnmFieldImpl.dataOffset, pointer]
  cases named : fieldTypeOf entry.type with
  | none => rfl
  | some type =>
      cases type
      case price =>
        have width : entry.data.length = sizeofOmnmPrice := by
          unfold DataFits dataLayout at fits
          rw [named] at fits
          exact fits
        simp only [Traced.result_bind, Traced.result_pure, Option.bind_some, ← width,
          handled.loadData pointer]
      case f64 =>
        have eight : dataLayout entry.type = .fixed 8 := by rw [dataLayout, named]
        have type : entry.type = tag ScalarType.f64.fieldType := (tag_of_fieldTypeOf named).symm
        have read := handled.getScalarField type (FieldEntry.length_eight fits eight)
        rw [if_neg keyed] at read
        simp only [omnmmsgFieldPayload_getF64, Traced.result_bind, read, Option.bind_some, ne_eq,
          not_true_eq_false, if_false, Traced.result_pure, Option.getD_some]
      all_goals rfl

end

omit [FieldTypeTags] in
/-- The bytes behind the data pointer are the data. -/
theorem bytesAt_data (handled : entry.HandledBy src field) {count : Nat}
    (inside : count ≤ entry.data.length) :
    bytesAt src.mPayloadBuffer count field.mData = entry.data.take count := by
  obtain ⟨offset, rest, pointer, here, -⟩ := handled.data
  rw [pointer, bytesAt, slice, here, List.take_append_of_le_length inside]

end FieldEntry.HandledBy

end

/-! ## Arrays -/

/-- A string at an address is seen up to its terminator. -/
theorem stringAt_of_drop {memory rest : List UInt8} {offset : Nat} {string : CString}
    (here : memory.drop offset = string.terminated ++ rest) :
    stringAt memory (.offset offset) = string.bytes := by
  rw [stringAt, slice, here, CString.nulIndex_terminated, Option.getD_some, CString.terminated,
    List.append_assoc, List.take_left]

/-- A string that is read is what its pointer shows. -/
theorem stringAt_of_loadStringArgument {src : OmnmPayloadImpl} {pointer : BufferPtr}
    {string : CString} (loaded : (loadStringArgument src pointer).result = some (some string)) :
    stringAt src.mPayloadBuffer pointer = string.bytes := by
  cases pointer with
  | null => simp [loadStringArgument] at loaded
  | stray => simp [loadStringArgument] at loaded
  | offset offset =>
      have ran := loaded
      simp only [loadStringArgument, loadCString, Traced.result_bind] at ran
      obtain ⟨bytes, read, -⟩ := Option.bind_eq_some_iff.mp ran
      obtain ⟨length, scanned, -⟩ := Option.bind_eq_some_iff.mp read
      obtain ⟨there, rest, here, -⟩ := exists_of_result_strlen scanned
      rw [loadStringArgument_of_drop here] at loaded
      cases loaded
      exact stringAt_of_drop here

/-- Strings that are read are what their pointers show. -/
theorem map_stringAt_of_loadStrings {src : OmnmPayloadImpl} {pointers : List BufferPtr}
    {strings : List CString} (loaded : (loadStrings src pointers).result = some strings) :
    pointers.map (stringAt src.mPayloadBuffer) = strings.map CString.bytes := by
  induction pointers generalizing strings with
  | nil =>
      cases loaded
      rfl
  | cons pointer pointers ih =>
      simp only [loadStrings, Traced.result_bind] at loaded
      obtain ⟨first, read, later⟩ := Option.bind_eq_some_iff.mp loaded
      cases first with
      | none => cases later
      | some first =>
          simp only [Traced.result_bind] at later
          obtain ⟨others, readOthers, same⟩ := Option.bind_eq_some_iff.mp later
          cases same
          rw [List.map_cons, List.map_cons, stringAt_of_loadStringArgument read, ih readOthers]

/-- Slices of one width, one behind the other. -/
theorem flatten_slices {bytes : List UInt8} {count width : Nat}
    (whole : count * width ≤ bytes.length) :
    ((List.range count).map fun index => slice bytes (index * width) width).flatten =
      bytes.take (count * width) := by
  induction count with
  | zero => simp
  | succ count ih =>
      rw [Nat.succ_mul] at whole ⊢
      rw [List.range_succ, List.map_append, List.flatten_append, ih (by omega), List.map_singleton,
        List.flatten_singleton, slice, List.take_add]

theorem length_wholeRecords (width : Nat) (data : List UInt8) :
    (wholeRecords width data).length = data.length / width := by
  rw [wholeRecords, List.length_map, List.length_range]

/-- The records take up the data but for what is left over. -/
theorem flatten_wholeRecords (width : Nat) (data : List UInt8) :
    (wholeRecords width data).flatten = data.take (data.length / width * width) :=
  flatten_slices (Nat.div_mul_le_self ..)

theorem length_of_mem_wholeRecords {width : Nat} {data record : List UInt8}
    (member : record ∈ wholeRecords width data) : record.length = width := by
  obtain ⟨index, among, rfl⟩ := List.mem_map.mp member
  have bound := Nat.mul_le_mul_right width (Nat.succ_le_of_lt (List.mem_range.mp among))
  have whole := Nat.div_mul_le_self data.length width
  rw [Nat.succ_mul] at bound
  rw [slice, List.length_take, List.length_drop]
  omega

/-! ## The getters of arrays -/

/-- Data are strings exactly if they are decoded to them. -/
theorem takeAll_terminatedString_iff {data : List UInt8} {strings : List CString} :
    Decoder.terminatedString.takeAll data = some strings ↔ data = joinStrings strings := by
  have progress : ∀ string, Decoder.terminatedString.Good string →
      Decoder.terminatedString.encode string ≠ [] := by
    intro string _
    exact List.append_ne_nil_of_right_ne_nil _ (List.cons_ne_nil 0 [])
  rw [Decoder.takeAll_eq_some_iff progress]
  constructor
  · exact fun taken => taken.2
  · exact fun same => ⟨fun _ _ => trivial, same⟩

/-- Data are messages behind their lengths exactly if they are decoded to them. -/
theorem takeAll_counted_iff {data : List UInt8} {messages : List (List UInt8)} :
    (Decoder.counted 4).takeAll data = some messages ↔
      (∀ message ∈ messages, message.length < 2 ^ 32) ∧ data = messageRecords messages := by
  have progress : ∀ message, (Decoder.counted 4).Good message →
      (Decoder.counted 4).encode message ≠ [] := by
    intro message _ none
    have length := congrArg List.length none
    simp [Decoder.counted] at length
  exact Decoder.takeAll_eq_some_iff progress

/-- A vector of messages that the decoder of the source, which reads the first length only, can
take in: none, or messages of one length with headers of an accepted version. -/
def ReadableMessages (data : List UInt8) : Prop :=
  data.length < 2 ^ 32 ∧ ∃ messages, (Decoder.counted 4).takeAll data = some messages ∧
    (∀ message ∈ messages, HeaderAhead message) ∧
    ∀ message ∈ messages, ∀ other ∈ messages, message.length = other.length

namespace FieldEntry.HandledBy

variable {entry : FieldEntry} {src : OmnmPayloadImpl} {field : OmnmFieldImpl}
  {memory : GetterMemory}

/-- Strings are seen one by one. -/
theorem getVectorString_eq (handled : entry.HandledBy src field) (arrays : memory.arrays = true)
    {strings : List CString}
    (taken : Decoder.terminatedString.takeAll entry.data = some strings) (results : FieldResults) :
    ∃ array kept, (omnmmsgFieldPayload_getVectorString memory src field results).result =
        some (.ok, (array, strings.length), kept) ∧
      (array.take strings.length).map (stringAt src.mPayloadBuffer) =
        strings.map CString.bytes := by
  have data := takeAll_terminatedString_iff.mp taken
  by_cases none : strings = []
  · have size : field.mSize = 0 := by
      rw [handled.size, data, none]
      rfl
    refine ⟨results.mVectorString, results, ?_, ?_⟩
    · rw [omnmmsgFieldPayload_getVectorString, if_pos size, none]
      rfl
    · rw [none]
      rfl
  · obtain ⟨array, kept, result, loaded⟩ := handled.getVectorString arrays none data results
    refine ⟨array, kept, result, map_stringAt_of_loadStrings ?_⟩
    unfold loadStringArray at loaded
    split at loaded
    · cases loaded
    · simp only [Traced.result_bind, Traced.result_pure] at loaded
      obtain ⟨read, ran, same⟩ := Option.bind_eq_some_iff.mp loaded
      cases same
      exact ran

/-- Records are converted one by one, and what is left over is not looked at. -/
theorem getVectorRecords_eq (handled : entry.HandledBy src field) (arrays : memory.arrays = true)
    {width : Nat} (positive : 0 < width) {Entry : Type} (kept : List (Option Entry))
    (convert : List UInt8 → Entry) :
    ∃ array, (Omnm.getVectorRecords memory src field kept width convert).result =
        some (array, entry.data.length / width) ∧
      array.take (entry.data.length / width) =
        (wholeRecords width entry.data).map fun record => some (convert record) := by
  obtain ⟨offset, rest, pointer, here, -⟩ := handled.data
  have count := length_wholeRecords width entry.data
  by_cases empty : entry.data.length / width = 0
  · refine ⟨memory.growArray kept none 0, ?_, ?_⟩
    · simp only [Omnm.getVectorRecords, handled.size, empty, if_true, Traced.result_pure]
    · rw [empty] at count ⊢
      rw [List.length_eq_zero_iff.mp count]
      rfl
  · have front : src.mPayloadBuffer.drop offset = (wholeRecords width entry.data).flatten ++
        (entry.data.drop (entry.data.length / width * width) ++ rest) := by
      rw [flatten_wholeRecords, ← List.append_assoc, List.take_append_drop, here]
    have loaded := loadRecords_of_drop positive (fun record => length_of_mem_wholeRecords) front
    have room : ¬ (memory.growArray kept none (entry.data.length / width)).length <
        entry.data.length / width := by
      rw [GetterMemory.growArray, if_pos arrays, List.length_append, List.length_replicate]
      omega
    rw [count] at loaded
    refine ⟨(wholeRecords width entry.data).map (fun record => some (convert record)) ++
      (memory.growArray kept none (entry.data.length / width)).drop (entry.data.length / width),
      ?_, List.take_left' ((List.length_map ..).trans count)⟩
    simp only [Omnm.getVectorRecords, handled.size, if_neg empty, OmnmFieldImpl.dataOffset, pointer,
      Traced.result_bind, Traced.result_pure, Option.bind_some, loaded, if_neg room]

/-- A sub-message is taken in with the data. -/
theorem getMsg_asMessage [FieldTypeTags] (handled : entry.HandledBy src field)
    (succeeds : memory.payload.Succeeds)
    (whole : entry.type = tag .msg → entry.data ≠ [] → 3 ≤ entry.data.length)
    (results : FieldResults) :
    ∃ status sub kept, (omnmmsgFieldPayload_getMsg memory src field results).result =
        some (status, sub, kept) ∧
      (status, if status = .ok then sub.map OmnmPayloadImpl.serialized else none) =
        entry.asMessage := by
  by_cases type : entry.type = tag .msg
  · obtain ⟨offset, rest, pointer, here, -⟩ := handled.data
    have got := handled.getMsg_eq memory type pointer results
    by_cases empty : entry.data = []
    · rw [empty, List.length_nil, fillSubPayload_zero] at got
      refine ⟨_, _, _, got, ?_⟩
      rw [FieldEntry.asMessage, if_neg (not_not.mpr type), if_pos empty]
      rfl
    by_cases header : HeaderAhead entry.data
    · obtain ⟨sub, kept, result, serialized⟩ := handled.getMsg succeeds type header results
      refine ⟨_, _, _, result, ?_⟩
      rw [FieldEntry.asMessage, if_neg (not_not.mpr type), if_neg empty, if_pos header, ← serialized]
      rfl
    · have three := whole type empty
      have ahead : ¬ HeaderAhead (entry.data ++ rest) := by
        rintro ⟨-, version⟩
        rw [List.getD_eq_getElem?_getD, List.getElem?_append_left (by omega),
          ← List.getD_eq_getElem?_getD] at version
        exact header ⟨three, version⟩
      have long : 3 ≤ (entry.data ++ rest).length := by
        rw [List.length_append]
        omega
      have nonempty : entry.data.length ≠ 0 := by omega
      have refused : omnmProtocolVersion <
          (OmnmHeader.ofBytes (entry.data ++ rest)).mWireFormatVersion :=
        UInt8.not_le.mp fun version => ahead ⟨long, version⟩
      have loaded : (loadHeader (results.mSubPayload.getD newPayload)
          (.other (entry.data ++ rest))).result = some (OmnmHeader.ofBytes (entry.data ++ rest)) :=
        (loadHeader_result ..).trans (if_pos long)
      rw [here, fillSubPayload_of_ne_zero memory _ _ nonempty, omnmmsgPayload_unSerialize,
        if_neg nonempty, Traced.result_bind, loaded, Option.bind_some, if_pos refused] at got
      refine ⟨_, _, _, got, ?_⟩
      rw [FieldEntry.asMessage, if_neg (not_not.mpr type), if_neg empty, if_neg header]
      rfl
  · refine ⟨.wrongFieldType, none, results, ?_, ?_⟩
    · rw [omnmmsgFieldPayload_getMsg, if_neg handled.mData_ne_null, handled.type, if_pos type]
      rfl
    · rw [FieldEntry.asMessage, if_pos type]
      rfl

/-- The messages of a vector are seen one by one. -/
theorem getVectorMsg_eq (handled : entry.HandledBy src field)
    (succeeds : memory.payload.Succeeds) (arrays : memory.arrays = true)
    (readable : ReadableMessages entry.data) (results : FieldResults) :
    ∃ messages array kept, (omnmmsgFieldPayload_getVectorMsg memory src field results).result =
        some (.ok, (array, messages.length), kept) ∧
      (Decoder.counted 4).takeAll entry.data = some messages ∧
      (array.take messages.length).map (Option.map OmnmPayloadImpl.serialized) =
        messages.map some := by
  obtain ⟨four, messages, taken, headers, same⟩ := readable
  obtain ⟨-, records⟩ := takeAll_counted_iff.mp taken
  by_cases empty : messages = []
  · have size : field.mSize = 0 := by
      rw [handled.size, records, empty]
      rfl
    refine ⟨messages, results.mVectorPayload, results, ?_, taken, ?_⟩
    · rw [omnmmsgFieldPayload_getVectorMsg, if_pos size, empty]
      rfl
    · rw [empty]
      rfl
  · obtain ⟨offset, rest, pointer, here, -⟩ := handled.data
    have nonempty : ∀ message ∈ messages, message ≠ [] := by
      intro message member none
      have three := (headers message member).1
      simp [none] at three
    obtain ⟨subs, array, kept, result, filled, all⟩ := handled.getVectorMsg succeeds arrays empty
      records four same nonempty pointer here
      (fun before message after split => (headers message (by rw [split]; simp)).append _) results
    refine ⟨messages, array, kept, result, taken, ?_⟩
    rw [filled, List.map_map, ← all, List.map_map]
    rfl

/-- A field is printed into a buffer of any length. -/
theorem getAsString_eq [FieldTypeTags] [MamaLibrary] [FieldPrinting]
    (handled : entry.HandledBy src field) (fits : DataFits entry.type entry.data) (len : Nat) :
    ∃ text, (omnmmsgFieldPayload_getAsString src field len).result = some text ∧
      ∀ known ∈ entry.asString len, text = known := by
  by_cases positive : len = 0
  · refine ⟨(.invalidArg, none), ?_, ?_⟩
    · rw [omnmmsgFieldPayload_getAsString, if_pos positive]
      rfl
    · intro known same
      obtain ⟨shown, -, rfl⟩ := Option.map_eq_some_iff.mp same
      rw [if_pos positive]
  · obtain ⟨status, printed, result⟩ := handled.exists_fieldPrinted fits []
    refine ⟨(status, some (printed.string len)), ?_, ?_⟩
    · rw [Omnm.getAsString_eq src field [] positive, Traced.result_map, result]
      rfl
    · intro known same
      obtain ⟨shown, print, rfl⟩ := Option.map_eq_some_iff.mp same
      cases result.symm.trans (handled.fieldPrinted_eq fits [] print)
      rw [if_neg positive]

end FieldEntry.HandledBy

/-! ## Fields under a key -/

section

variable [FieldTypeTags]

/-- A field that a key found, in its payload. -/
structure FieldEntry.FoundBy (entry : FieldEntry) (msg : OmnmPayloadImpl) (field : OmnmFieldImpl) :
    Prop where
  handled : entry.HandledBy msg field
  fits : DataFits entry.type entry.data
  keyed : ¬ entry.Keyless
  value : msg.valueOf field = entry.value

/-- What a key finds, in a payload and in the message that it shows. -/
inductive OmnmPayloadImpl.KeyCases (msg : OmnmPayloadImpl) (message : Message)
    (name : Option CString) (fid : UInt16) : Prop where
  | rejected (status : MamaStatus) (refused : status ≠ .ok)
      (key : validateNameFid name fid = some status)
  | absent (key : validateNameFid name fid = none) (absent : message.find name fid = none)
      (search : (msg.findFieldInBuffer name fid).result = some none)
  | found (key : validateNameFid name fid = none) (entry : FieldEntry) (field : OmnmFieldImpl)
      (found : message.find name fid = some entry) (reads : entry.FoundBy msg field)
      (search : (msg.findFieldInBuffer name fid).result = some (some field))

namespace OmnmPayloadImpl.Shows

variable {msg : OmnmPayloadImpl} {message : Message}

/-- A key is rejected, or finds in the payload what it finds in the message. -/
theorem keyCases (shown : msg.Shows message) (name : Option CString) (fid : UInt16) :
    msg.KeyCases message name fid := by
  cases key : validateNameFid name fid with
  | some status => exact .rejected status (fun ok => validateNameFid_ne_ok (ok ▸ key)) key
  | none =>
      rcases shown.represents.findFieldInBuffer name fid with ⟨absent, search⟩ |
        ⟨before, entry, after, previous, split, found, matching, -, search⟩
      · exact .absent key absent search
      · obtain ⟨rest, here⟩ := shown.represents.here_of_split split
        have member : entry ∈ message.entries := by
          rw [split]
          simp
        exact .found key entry _ found
          { handled := FieldEntry.handledBy_of_drop (shown.listed entry member) here previous
            fits := message.fits entry member
            keyed := not_keyless_of_hasKey matching
            value := shown.represents.valueOf_handle split previous } search

end OmnmPayloadImpl.Shows

variable {Value : Type} {message : Message} {name : Option CString} {fid : UInt16}
  {missing : MamaStatus → Value} {given : FieldEntry → Value}

theorem Message.lookup_of_rejected {status : MamaStatus}
    (key : validateNameFid name fid = some status) :
    message.lookup name fid missing given = missing status := by
  rw [Message.lookup, key]

theorem Message.lookup_of_absent (key : validateNameFid name fid = none)
    (absent : message.find name fid = none) :
    message.lookup name fid missing given = missing .notFound := by
  rw [Message.lookup, key, absent]
  rfl

theorem Message.lookup_of_find {entry : FieldEntry} (key : validateNameFid name fid = none)
    (found : message.find name fid = some entry) :
    message.lookup name fid missing given = given entry := by
  rw [Message.lookup, key, found]
  rfl

/-- A key finds a field of the payload, or the status that a lookup in the message gives. -/
theorem OmnmPayloadImpl.KeyCases.getField {msg : OmnmPayloadImpl}
    (cases : msg.KeyCases message name fid) :
    (∃ status, status ≠ .ok ∧ (msg.getField name fid).result = some (status, none) ∧
        ∀ {Value : Type} (missing : MamaStatus → Value) (given : FieldEntry → Value),
          message.lookup name fid missing given = missing status) ∨
      ∃ entry field, message.find name fid = some entry ∧ entry.FoundBy msg field ∧
        (msg.getField name fid).result = some (.ok, some field) ∧
        ∀ {Value : Type} (missing : MamaStatus → Value) (given : FieldEntry → Value),
          message.lookup name fid missing given = given entry := by
  cases cases with
  | rejected status refused key =>
      refine .inl ⟨status, refused, ?_, fun missing given => Message.lookup_of_rejected key⟩
      rw [OmnmPayloadImpl.getField, key]
      rfl
  | absent key absent search =>
      refine .inl ⟨.notFound, by simp, ?_, fun missing given => Message.lookup_of_absent key absent⟩
      simp only [OmnmPayloadImpl.getField, key, Traced.result_bind, search, Option.bind_some]
      rfl
  | found key entry field found reads search =>
      refine .inr ⟨entry, field, found, reads, ?_, fun missing given =>
        Message.lookup_of_find key found⟩
      simp only [OmnmPayloadImpl.getField, key, Traced.result_bind, search, Option.bind_some]
      rfl

end

/-! ## The reads -/

/-- Allocations of the read succeed. -/
def ReadCall.Served : ReadCall → Prop
  | .toString scratch => scratch.Succeeds
  | .getMsg memory _ _ => memory.payload.Succeeds
  | .getVectorString memory _ _ | .getVectorDateTime memory _ _ | .getVectorPrice memory _ _ =>
      memory.arrays = true
  | .getVectorMsg memory _ _ => memory.payload.Succeeds ∧ memory.arrays = true
  | _ => True

/-- A read does not run past the data of the field that it finds: the getters of strings, of
sub-messages and of their vectors take the data for what their names say, and a scalar getter
does not know the width of a quantity. -/
def ReadCall.Admissible [FieldTypeTags] (message : Message) : ReadCall → Prop
  | .getScalar _ name fid =>
      ∀ entry, message.find name fid = some entry → entry.type ≠ tag .quantity
  | .getString name fid => ∀ entry, message.find name fid = some entry → entry.type = tag .string
  | .getMsg _ name fid =>
      ∀ entry, message.find name fid = some entry → entry.type = tag .msg → entry.data ≠ [] →
        3 ≤ entry.data.length
  | .getVectorString _ name fid =>
      ∀ entry, message.find name fid = some entry →
        ∃ strings, Decoder.terminatedString.takeAll entry.data = some strings
  | .getVectorMsg _ name fid =>
      ∀ entry, message.find name fid = some entry → ReadableMessages entry.data
  | _ => True

namespace OmnmPayloadImpl.Shows

variable [FieldTypeTags] {object : PayloadObject} {msg : OmnmPayloadImpl} {message : Message}
  {name : Option CString} {fid : UInt16} {Value : Type} {call : ReadCall}
  {missing : MamaStatus → Observation} {given : FieldEntry → Observation}

/-- A getter through the field of the payload gives what the message has under the key. -/
theorem lookup_getThroughField (shown : object.impl.Shows message)
    {get : OmnmPayloadImpl → OmnmFieldImpl → FieldResults →
      Traced Region (MamaStatus × Value × FieldResults)}
    {result : MamaStatus → Option Value → ReadResult}
    (fails : ∀ status, status ≠ .ok →
      (result status none).observe call object.impl = missing status)
    (gets : ∀ entry field, message.find name fid = some entry → entry.FoundBy object.impl field →
      ∃ status value kept,
        (get object.impl field object.results).result = some (status, value, kept) ∧
          (result status (some value)).observe call object.impl = given entry) :
    ∃ out next, (object.lookup result (PayloadObject.getThroughField get) name fid).result =
        some (out, next) ∧ next.impl = object.impl ∧
      out.observe call object.impl = message.lookup name fid missing given := by
  rcases (shown.keyCases name fid).getField with ⟨status, refused, search, answers⟩ |
    ⟨entry, field, found, reads, search, answers⟩
  · refine ⟨result status none, object, ?_, rfl, ?_⟩
    · simp only [PayloadObject.lookup, PayloadObject.getThroughField, PayloadObject.getField,
        Traced.result_bind, search, Option.bind_some, Traced.result_pure, Option.getD_none, ne_eq,
        refused, not_false_eq_true, if_true]
    · rw [fails status refused, answers]
  · obtain ⟨status, value, kept, got, observed⟩ := gets entry field found reads
    refine ⟨result status (some value), { object with mField := field, results := kept }, ?_, rfl, ?_⟩
    · simp only [PayloadObject.lookup, PayloadObject.getThroughField, PayloadObject.getField,
        Traced.result_bind, search, Option.bind_some, Traced.result_pure, Option.getD_some, ne_eq,
        not_true_eq_false, if_false, got]
    · rw [observed, answers]

/-- So does a getter that validates the key first. -/
theorem lookup_getVectorThroughField (shown : object.impl.Shows message)
    {get : OmnmPayloadImpl → OmnmFieldImpl → FieldResults →
      Traced Region (MamaStatus × Value × FieldResults)}
    {result : MamaStatus → Option Value → ReadResult}
    (fails : ∀ status, status ≠ .ok →
      (result status none).observe call object.impl = missing status)
    (gets : ∀ entry field, message.find name fid = some entry → entry.FoundBy object.impl field →
      ∃ status value kept,
        (get object.impl field object.results).result = some (status, value, kept) ∧
          (result status (some value)).observe call object.impl = given entry) :
    ∃ out next, (object.lookup result (getVectorThroughField get) name fid).result =
        some (out, next) ∧ next.impl = object.impl ∧
      out.observe call object.impl = message.lookup name fid missing given := by
  cases key : validateNameFid name fid with
  | none =>
      have same : object.lookup result (getVectorThroughField get) name fid =
          object.lookup result (PayloadObject.getThroughField get) name fid := by
        rw [PayloadObject.lookup, getVectorThroughField, key]
        rfl
      rw [same]
      exact shown.lookup_getThroughField fails gets
  | some status =>
      refine ⟨result status none, object, ?_, rfl, ?_⟩
      · rw [PayloadObject.lookup, getVectorThroughField, key]
        rfl
      · rw [fails status fun ok => validateNameFid_ne_ok (ok ▸ key),
          Message.lookup_of_rejected key]

/-- A getter that hands the field to its caller gives what the message has under the key. -/
theorem look_getField (shown : object.impl.Shows message)
    {value : OmnmFieldImpl → Value} {result : MamaStatus × Option Value → ReadResult}
    (fails : ∀ status, status ≠ .ok →
      (result (status, none)).observe call object.impl = missing status)
    (gets : ∀ entry field, message.find name fid = some entry → entry.FoundBy object.impl field →
      (result (.ok, some (value field))).observe call object.impl = given entry) :
    ∃ out next, (object.look result (do
        let (status, field) ← object.impl.getField name fid
        pure (status, field.map value))).result = some (out, next) ∧ next.impl = object.impl ∧
      out.observe call object.impl = message.lookup name fid missing given := by
  rcases (shown.keyCases name fid).getField with ⟨status, refused, search, answers⟩ |
    ⟨entry, field, found, reads, search, answers⟩
  · refine ⟨_, object, ?_, rfl, (fails status refused).trans (answers missing given).symm⟩
    simp only [PayloadObject.look, Traced.result_bind, search, Option.bind_some,
      Traced.result_pure, Option.map_none]
  · refine ⟨_, object, ?_, rfl, (gets entry field found reads).trans (answers missing given).symm⟩
    simp only [PayloadObject.look, Traced.result_bind, search, Option.bind_some,
      Traced.result_pure, Option.map_some]

/-- So does a getter that searches the field itself and reads it. -/
theorem look_findField (shown : object.impl.Shows message)
    {get : OmnmFieldImpl → Traced Region (MamaStatus × Option Value)}
    {result : MamaStatus × Option Value → ReadResult}
    (fails : ∀ status, status ≠ .ok →
      (result (status, none)).observe call object.impl = missing status)
    (gets : ∀ entry field, message.find name fid = some entry → entry.FoundBy object.impl field →
      ∃ out, (get field).result = some out ∧
        (result out).observe call object.impl = given entry) :
    ∃ out next, (object.look result (match validateNameFid name fid with
        | some status => pure (status, none)
        | none => do
            let field ← object.impl.findFieldInBuffer name fid
            match field with
            | none => pure (.notFound, none)
            | some field => get field)).result = some (out, next) ∧ next.impl = object.impl ∧
      out.observe call object.impl = message.lookup name fid missing given := by
  cases shown.keyCases name fid with
  | rejected status refused key =>
      refine ⟨result (status, none), object, ?_, rfl, ?_⟩
      · rw [key]
        rfl
      · rw [fails status refused, Message.lookup_of_rejected key]
  | absent key absent search =>
      refine ⟨result (.notFound, none), object, ?_, rfl, ?_⟩
      · simp only [PayloadObject.look, key, Traced.result_bind, search, Option.bind_some,
          Traced.result_pure]
      · rw [fails .notFound (by simp), Message.lookup_of_absent key absent]
  | found key entry field found reads search =>
      obtain ⟨out, got, observed⟩ := gets entry field found reads
      refine ⟨result out, object, ?_, rfl, ?_⟩
      · simp only [PayloadObject.look, key, Traced.result_bind, search, got, Option.bind_some,
          Traced.result_pure]
      · rw [observed, Message.lookup_of_find key found]

/-- The scratch buffer does not show. -/
theorem withScratch (shown : msg.Shows message) (printed : List UInt8) :
    (OmnmPayloadImpl.withScratch printed msg).Shows message :=
  ⟨shown.represents.withScratch printed, shown.listed⟩

variable [MamaLibrary] [FieldPrinting]

omit [MamaLibrary] [FieldPrinting] in
/-- The printing of a payload asks MAMA exactly if the message has a vector. -/
theorem asksMama_toString (shown : msg.Shows message) (scratch : Allocator) :
    ReadCall.asksMama msg (.toString scratch) =
      message.entries.any fun entry => Omnm.asksMama entry.type := by
  rw [ReadCall.asksMama, shown.represents.decodes.decodedFields, Option.getD_some, List.any_map]
  rfl

/-- The text of the message is seen if it is known. -/
theorem observe_toString (shown : msg.Shows message) {text : CString}
    (known : ∀ line ∈ message.text, text.bytes = line) (scratch : Allocator) :
    (ReadResult.string (some text)).observe (.toString scratch) msg =
      message.answer (.toString scratch) := by
  have asks := (@Message.text_eq_none_iff _ _ message).trans List.any_eq_true.symm
  rw [ReadResult.observe, shown.asksMama_toString, Message.answer]
  cases seen : message.text with
  | none =>
      rw [if_pos (asks.mp seen)]
      rfl
  | some line =>
      have silent : ¬ (message.entries.any fun entry => Omnm.asksMama entry.type) = true := by
        rw [← asks, seen]
        simp
      rw [if_neg silent, Option.map_some, known line seen]
      rfl

/-- The text of a field that a key finds. -/
theorem observe_getFieldAsString (shown : object.impl.Shows message) (name : Option CString)
    (fid : UInt16) (len : Nat) :
    ∃ out next, ((ReadCall.getFieldAsString name fid len).perform object).result =
        some (out, next) ∧ next.impl = object.impl ∧
      out.observe (.getFieldAsString name fid len) object.impl =
        message.answer (.getFieldAsString name fid len) := by
  rcases (shown.keyCases name fid).getField with ⟨status, refused, search, answers⟩ |
    ⟨entry, field, -, reads, search, answers⟩
  · refine ⟨.printed status none, object, ?_, rfl, ?_⟩
    · simp only [ReadCall.perform, PayloadObject.look, omnmmsgPayload_getFieldAsString,
        Traced.result_bind, search, Option.bind_some, ne_eq, refused, not_false_eq_true, if_true,
        Traced.result_pure]
    · rw [Message.answer, answers, ReadResult.observe, ReadCall.asksMama, search]
      rfl
  · obtain ⟨text, printed, same⟩ := reads.handled.getAsString_eq reads.fits len
    refine ⟨.printed text.1 text.2, object, ?_, rfl, ?_⟩
    · simp only [ReadCall.perform, PayloadObject.look, omnmmsgPayload_getFieldAsString,
        Traced.result_bind, search, Option.bind_some, ne_eq, not_true_eq_false, if_false,
        Option.getD_some, printed, Traced.result_pure]
    · have asks : ReadCall.asksMama object.impl (.getFieldAsString name fid len) =
          Omnm.asksMama entry.type := by
        rw [ReadCall.asksMama, search]
        exact congrArg Omnm.asksMama reads.handled.type
      rw [Message.answer, answers, ReadResult.observe, asks]
      cases known : entry.asString len with
      | none =>
          rw [FieldEntry.asString, Option.map_eq_none_iff, FieldEntry.printed_eq_none_iff] at known
          rw [if_pos known]
          rfl
      | some out =>
          have silent : ¬ Omnm.asksMama entry.type = true := by
            rw [← FieldEntry.printed_eq_none_iff]
            intro none
            rw [FieldEntry.asString, none] at known
            cases known
          rw [if_neg silent, same out known]
          rfl

/-- The handle that a key finds shows the value of the field, or it is that of the object. -/
theorem observe_getField (shown : object.impl.Shows message) (name : Option CString)
    (fid : UInt16) :
    ∃ out next, ((ReadCall.getField name fid).perform object).result = some (out, next) ∧
      next.impl = object.impl ∧
      out.observe (.getField name fid) object.impl = message.answer (.getField name fid) := by
  rcases (shown.keyCases name fid).getField with ⟨status, refused, search, answers⟩ |
    ⟨entry, field, -, reads, search, answers⟩
  · refine ⟨.field status object.mField, object, ?_, rfl, ?_⟩
    · simp only [ReadCall.perform, omnmmsgPayload_getField, PayloadObject.getField,
        Traced.result_bind, search, Option.bind_some, Traced.result_pure, Option.getD_none]
    · rw [ReadResult.observe, if_neg refused, Message.answer, answers]
  · refine ⟨.field .ok field, { object with mField := field }, ?_, rfl, ?_⟩
    · simp only [ReadCall.perform, omnmmsgPayload_getField, PayloadObject.getField,
        Traced.result_bind, search, Option.bind_some, Traced.result_pure, Option.getD_some]
    · rw [ReadResult.observe, if_pos rfl, reads.value, Message.answer, answers]

/-- A read but the printing of the whole payload gives the answer of the message. -/
theorem observe_read (shown : object.impl.Shows message) (silent : call.prints = false)
    (served : call.Served) (admissible : call.Admissible message) :
    ∃ out next, (call.perform object).result = some (out, next) ∧ next.impl = object.impl ∧
      out.observe call object.impl = message.answer call := by
  have decodes := shown.represents.decodes
  cases call with
  | toString scratch => cases silent
  | getFieldAsString name fid len => exact shown.observe_getFieldAsString name fid len
  | getNumFields =>
      refine ⟨.size .ok message.entries.length, object, ?_, rfl, rfl⟩
      simp only [ReadCall.perform, PayloadObject.look, Traced.result_bind, decodes.getNumFields,
        Option.bind_some, Traced.result_pure]
  | getByteSize =>
      refine ⟨_, object, rfl, rfl, ?_⟩
      rw [ReadResult.observe, Message.answer, omnmmsgPayload_getByteSize, shown.represents.tail]
  | serialize =>
      refine ⟨_, object, rfl, rfl, ?_⟩
      have bytes := shown.represents.serialized_eq
      rw [OmnmPayloadImpl.serialized] at bytes
      rw [ReadResult.observe, Message.answer, omnmmsgPayload_serialize, bytes]
  | iterateFields =>
      obtain ⟨last, result⟩ := decodes.iterateFields
      have all := decodes.decodedFields
      rw [OmnmPayloadImpl.decodedFields, result, Option.map_some, Option.some.injEq] at all
      refine ⟨.fields .ok (fieldHandles message.entries object.impl.getHeaderSize .null), object,
        ?_, rfl, ?_⟩
      · simp only [ReadCall.perform, PayloadObject.look, Traced.result_bind, result,
          Option.bind_some, Traced.result_pure]
      · rw [ReadResult.observe, Message.answer, ← all]
  | getScalar scalar name fid =>
      rw [ReadCall.perform, ScalarType.get_eq, getFieldValueAsCopyByKey]
      refine shown.look_findField (fun status _ => rfl) ?_
      intro entry field found reads
      exact ⟨entry.asScalar scalar, reads.handled.getFieldValueAsCopy_eq reads.fits
        (admissible entry found) reads.keyed scalar, rfl⟩
  | getVectorScalar scalar name fid =>
      rw [ReadCall.perform, show scalar.omnmmsgPayload_getVector = getScalarVectorByKey scalar by
        cases scalar <;> rfl]
      refine shown.look_getField (fun status _ => rfl) ?_
      intro entry field found reads
      have bytes := reads.handled.bytesAt_data (Nat.div_mul_le_self entry.data.length scalar.size)
      simp only [ReadResult.observe, Option.map_some, ReadCall.elementSize, reads.handled.size, bytes]
  | getString name fid =>
      rw [ReadCall.perform, omnmmsgPayload_getString]
      refine shown.look_findField (fun status _ => rfl) ?_
      intro entry field found reads
      have pointed := reads.handled.getFieldValueAsBuffer
      rw [if_neg reads.keyed] at pointed
      obtain ⟨text, data, loaded⟩ := reads.handled.loadString (admissible entry found) reads.fits
      have text_eq : CString.ofBytes entry.data = text := by
        rw [data, CString.ofBytes_terminated]
      refine ⟨(.ok, some field.mData), pointed, ?_⟩
      rw [text_eq, ReadResult.observe, Option.map_some, stringAt_of_loadStringArgument loaded]
  | getOpaque name fid =>
      refine shown.look_getField (fun status _ => rfl) ?_
      intro entry field found reads
      have bytes := reads.handled.bytesAt_data (Nat.le_refl entry.data.length)
      rw [List.take_length] at bytes
      simp only [ReadResult.observe, Option.map_some, ReadCall.elementSize, reads.handled.size,
        Nat.mul_one, bytes]
  | getDateTime name fid =>
      refine shown.lookup_getThroughField (fun status _ => rfl) ?_
      intro entry field found reads
      refine ⟨entry.asDateTime.1, entry.asDateTime.2, object.results, ?_, rfl⟩
      simp only [Traced.result_bind, reads.handled.getDateTime_eq reads.fits, Option.bind_some,
        Traced.result_pure]
  | getPrice name fid =>
      refine shown.lookup_getThroughField (fun status _ => rfl) ?_
      intro entry field found reads
      refine ⟨entry.asPrice.1, entry.asPrice.2, object.results, ?_, rfl⟩
      simp only [Traced.result_bind, reads.handled.getPrice_eq reads.fits reads.keyed,
        Option.bind_some, Traced.result_pure]
  | getMsg memory name fid =>
      refine shown.lookup_getThroughField ?_ ?_
      · intro status refused
        simp only [ReadResult.observe, if_neg refused]
      · intro entry field found reads
        obtain ⟨status, sub, kept, got, same⟩ :=
          reads.handled.getMsg_asMessage served (admissible entry found) object.results
        refine ⟨status, sub, kept, got, ?_⟩
        rw [← same]
        rfl
  | getVectorString memory name fid =>
      refine shown.lookup_getVectorThroughField (fun status _ => rfl) ?_
      intro entry field found reads
      obtain ⟨strings, taken⟩ := admissible entry found
      obtain ⟨array, kept, got, seen⟩ :=
        reads.handled.getVectorString_eq served taken object.results
      refine ⟨.ok, (array, strings.length), kept, got, ?_⟩
      rw [ReadResult.observe, Option.map_some, seen, taken, Option.map_some]
  | getVectorDateTime memory name fid =>
      refine shown.lookup_getVectorThroughField (fun status _ => rfl) ?_
      intro entry field found reads
      obtain ⟨array, got, seen⟩ := reads.handled.getVectorRecords_eq served
        (show 0 < sizeofOmnmDateTime by decide) object.results.mVectorDateTime
        convertOmnmDateTimeToMamaDateTime
      refine ⟨.ok, (array, entry.data.length / sizeofOmnmDateTime),
        { object.results with mVectorDateTime := array }, ?_, ?_⟩
      · simp only [omnmmsgFieldPayload_getVectorDateTime, Traced.result_bind, got,
          Option.bind_some, Traced.result_pure]
      · rw [ReadResult.observe, Option.map_some, seen]
  | getVectorPrice memory name fid =>
      refine shown.lookup_getVectorThroughField (fun status _ => rfl) ?_
      intro entry field found reads
      obtain ⟨array, got, seen⟩ := reads.handled.getVectorRecords_eq served
        (show 0 < sizeofOmnmPrice by decide) object.results.mVectorPrice
        convertOmnmPriceToMamaPrice
      refine ⟨.ok, (array, entry.data.length / sizeofOmnmPrice),
        { object.results with mVectorPrice := array }, ?_, ?_⟩
      · simp only [omnmmsgFieldPayload_getVectorPrice, Traced.result_bind, got,
          Option.bind_some, Traced.result_pure]
      · rw [ReadResult.observe, Option.map_some, seen]
  | getVectorMsg memory name fid =>
      refine shown.lookup_getVectorThroughField (fun status _ => rfl) ?_
      intro entry field found reads
      obtain ⟨messages, array, kept, got, taken, seen⟩ := reads.handled.getVectorMsg_eq served.1
        served.2 (admissible entry found) object.results
      refine ⟨.ok, (array, messages.length), kept, got, ?_⟩
      rw [ReadResult.observe, Option.map_some, seen, taken, Option.map_some]
  | getField name fid => exact shown.observe_getField name fid

/-- A read gives the answer of the message and leaves the message. -/
theorem perform_read (shown : object.impl.Shows message) (served : call.Served)
    (admissible : call.Admissible message) :
    ∃ out next, (call.perform object).result = some (out, next) ∧ next.impl.Shows message ∧
      out.observe call next.impl = message.answer call := by
  cases silent : call.prints with
  | false =>
      obtain ⟨out, next, result, same, observed⟩ := shown.observe_read silent served admissible
      exact ⟨out, next, result, same ▸ shown, by rw [same, observed]⟩
  | true =>
      cases call with
      | toString scratch =>
          obtain ⟨mBuffer, text, result, known⟩ := shown.represents.toString served
          have after := shown.withScratch mBuffer
          refine ⟨.string (some text), { object with impl := { object.impl with mBuffer } }, ?_,
            after, ?_⟩
          · simp only [ReadCall.perform, Traced.result_bind, result, Option.bind_some,
              Traced.result_pure]
          · exact after.observe_toString known scratch
      | _ => cases silent

end OmnmPayloadImpl.Shows

end Omnm
