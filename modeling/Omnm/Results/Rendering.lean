import Omnm.Results.Disclosure
import Omnm.Wire.Printing

/-!
# What the text of a field does to the buffer it is asked into

Every case of `omnmmsgFieldPayload_getAsString` prints with `snprintf` and the
length of the caller's buffer, but for `OPAQUE`, which uses `sprintf`. So the
buffer is respected exactly when a text of that type is not printed or fits
(`rendering_respects_buffer_iff`).

The cases of the vectors print each element at the start of the buffer, over the
one before it. Whatever the elements are, the closing brace is all that is left
(`vector_elements_never_shown`).

No `sprintf` of the text of a whole payload leaves the scratch buffer, and the
text has all the items exactly if an `int` counts the characters of each
(`toString_exact_iff`). One field under a name of 2 GiB is printed as a brace
(`longName_prints_brace`).
-/

set_option autoImplicit false

namespace Omnm

open FieldTypeTags (tag)
open OmnmPayloadImpl

section

/-- A print into a buffer of at least `len` bytes returns, writes to the first `len` of them only,
and leaves a NUL among these when its status is OK. -/
structure RespectsBuffer (len : Nat)
    (print : List UInt8 → Traced CallerRegion (MamaStatus × List UInt8)) : Prop where
  writes : ∀ buffer, len ≤ buffer.length → Traced.Every (Access.InCaller len) (print buffer)
  terminated : ∀ buffer, len ≤ buffer.length → ∃ status after,
    (print buffer).result = some (status, after) ∧ (status = .ok → 0 ∈ after.take len)

variable [FieldTypeTags]

/-- The text of an `OPAQUE` field, `{n bytes}` and a NUL, fits: `n` is the size of the data, or
zero when the field has no key. -/
def FieldEntry.TextFits (entry : FieldEntry) (len : Nat) : Prop :=
  entry.type = tag .opaqueField →
    10 ≤ len ∧ (if entry.Keyless then 0 else entry.data.length) < 10 ^ (len - 9)

variable [MamaLibrary] [FieldPrinting] {msg : OmnmPayloadImpl} {entry : FieldEntry} {len : Nat}
  {texts : List (List UInt8)} {position : Nat} {rest : List UInt8}

omit [FieldTypeTags] [MamaLibrary] [FieldPrinting] in
/-- Reading a payload writes nothing in the caller's buffer. -/
theorem every_relabel_none {Value : Type} (computation : Traced Region Value) :
    Traced.Every (Access.InCaller len) (computation.relabel fun _ => none) :=
  Traced.every_relabel.mpr fun _ _ _ described => by simp at described

omit [FieldTypeTags] [MamaLibrary] [FieldPrinting] in
/-- What is read in front of a print does not matter to the buffer. -/
theorem respectsBuffer_behind {Value : Type} {read : Traced Region Value} {value : Value}
    (result : read.result = some value)
    {print : Value → List UInt8 → Traced CallerRegion (MamaStatus × List UInt8)} :
    RespectsBuffer len (fun buffer => read.relabel (fun _ => none) >>= fun value =>
      print value buffer) ↔ RespectsBuffer len (print value) := by
  have same : ∀ buffer, (read.relabel (fun _ => none) >>= fun value => print value buffer).result =
      (print value buffer).result := by
    intro buffer
    rw [Traced.result_bind, Traced.result_relabel, result, Option.bind_some]
  constructor
  · rintro ⟨writes, terminated⟩
    refine ⟨?_, fun buffer whole => same buffer ▸ terminated buffer whole⟩
    intro buffer whole
    exact ((Traced.every_bind ..).mp (writes buffer whole)).2 value result
  · rintro ⟨writes, terminated⟩
    refine ⟨?_, fun buffer whole => same buffer ▸ terminated buffer whole⟩
    intro buffer whole
    refine (Traced.every_bind ..).mpr ⟨every_relabel_none read, ?_⟩
    rintro other returned
    cases result.symm.trans returned
    exact writes buffer whole

omit [FieldTypeTags] [MamaLibrary] [FieldPrinting] in
/-- What a case prints respects the buffer exactly if it fits. -/
theorem respectsBuffer_into (status : MamaStatus) (printed : Printed) (positive : len ≠ 0) :
    RespectsBuffer len (fun buffer => do
      let buffer ← printed.into buffer len
      pure (status, buffer)) ↔ printed.Fits len := by
  constructor
  · intro respects
    have every := respects.writes (List.replicate len 0) (by simp)
    exact Printed.fits_of_every ((Traced.every_bind ..).mp every).1
  · intro fits
    constructor
    · intro buffer whole
      exact (Traced.every_bind ..).mpr
        ⟨(fits.into positive whole).1, fun after _ => Traced.every_pure _⟩
    · intro buffer whole
      obtain ⟨-, after, left, -, nul⟩ := fits.into positive whole
      refine ⟨status, after, ?_, fun _ => nul⟩
      rw [Traced.result_bind, left]
      rfl

omit [FieldTypeTags] [MamaLibrary] [FieldPrinting] in
/-- A call that only gives a status other than OK respects the buffer. -/
theorem respectsBuffer_refused {status : MamaStatus} (refused : status ≠ .ok) :
    RespectsBuffer len fun buffer => pure (status, buffer) :=
  ⟨fun _ _ => Traced.every_pure _, fun buffer _ => ⟨status, buffer, rfl, fun ok => absurd ok refused⟩⟩

/-- The text of an encoded field respects the buffer exactly if it fits. -/
theorem getAsStringInto_respects_iff (fits : DataFits entry.type entry.data)
    (here : msg.mPayloadBuffer.drop position = entry.encode ++ rest) (previous : BufferPtr)
    (positive : len ≠ 0) :
    RespectsBuffer len (fun buffer => omnmmsgFieldPayload_getAsStringInto msg
      (entry.handle position previous) texts buffer len) ↔ entry.TextFits len := by
  obtain ⟨status, printed, result, known⟩ :=
    FieldEntry.exists_fieldPrinted fits here previous texts
  simp only [omnmmsgFieldPayload_getAsStringInto, if_neg positive]
  apply (respectsBuffer_behind result).trans
  apply (respectsBuffer_into status printed positive).trans
  by_cases bytes : entry.type = tag .opaqueField
  · cases known _ (FieldEntry.printed_opaqueField bytes)
    exact (length_opaqueText_lt_iff ..).trans ⟨fun fits _ => fits, fun fits => fits bytes⟩
  · refine ⟨fun _ same => absurd same bytes, ?_⟩
    intro _
    exact fits_of_fieldPrinted (fun named => bytes (tag_of_fieldTypeOf named).symm) result

/-- So does the text of a field that is asked for by key. -/
theorem getFieldAsStringInto_respects_iff {message : Message} (represents : msg.Represents message)
    (positive : len ≠ 0) (name : Option CString) (fid : UInt16) :
    RespectsBuffer len (fun buffer =>
        omnmmsgPayload_getFieldAsStringInto msg name fid texts buffer len) ↔
      ∀ entry, message.find name fid = some entry → entry.TextFits len := by
  simp only [omnmmsgPayload_getFieldAsStringInto]
  cases key : validateNameFid name fid with
  | some status =>
      have absent := message.find_of_rejected key
      have refused : status ≠ .ok := fun ok => validateNameFid_ne_ok (ok ▸ key)
      have lookup : (msg.getField name fid).result = some (status, none) := by
        rw [OmnmPayloadImpl.getField, key]
        rfl
      refine (respectsBuffer_behind lookup).trans ⟨?_, ?_⟩
      · intro _ entry found
        cases absent.symm.trans found
      · intro _
        simp only [if_pos refused]
        exact respectsBuffer_refused refused
  | none =>
      rcases represents.getField_of_accepted key with ⟨absent, lookup⟩ |
        ⟨before, entry, after, previous, split, found, -, -, lookup⟩
      · apply (respectsBuffer_behind lookup).trans
        constructor
        · intro _ entry found
          cases absent.symm.trans found
        · intro _
          exact respectsBuffer_refused (by simp)
      · obtain ⟨rest, here⟩ := represents.here_of_split split
        apply (respectsBuffer_behind lookup).trans
        have fits := message.fits entry (List.mem_of_find?_eq_some found)
        apply (getAsStringInto_respects_iff fits here previous positive).trans
        rw [found]
        exact ⟨fun fits other same => Option.some.inj same ▸ fits, fun all => all entry rfl⟩

/-- The text that shows the elements of a vector. -/
def vectorText (texts : List (List UInt8)) : List UInt8 :=
  textBytes "\x7b" ++ (textBytes ",").intercalate texts ++ textBytes "\x7d"

/-- A print into a buffer of at least `len` bytes leaves the text that shows the elements. -/
def ShowsElements (len : Nat) (texts : List (List UInt8))
    (print : List UInt8 → Traced CallerRegion (MamaStatus × List UInt8)) : Prop :=
  ∀ buffer, len ≤ buffer.length → ∃ status after, (print buffer).result = some (status, after) ∧
    vectorText texts ++ [0] <+: after

omit [FieldTypeTags] [MamaLibrary] [FieldPrinting] in
/-- The last print of a vector is the closing brace, at the start of the buffer. -/
theorem exists_printVectorInto (texts : List (List UInt8)) (positive : len ≠ 0)
    {buffer : List UInt8} (whole : len ≤ buffer.length) (room : 2 ≤ len) :
    ∃ rest, (printVectorInto buffer len texts).result = some (textBytes "\x7d" ++ 0 :: rest) := by
  obtain ⟨-, middle, result, length⟩ := ((staysIn_snprintfInto positive (textBytes "\x7b")).bind
    (staysIn_printElementsInto positive texts)) buffer
  have brace : (textBytes "\x7d").length = 1 := rfl
  have cut : (textBytes "\x7d").take (len - 1) = textBytes "\x7d" :=
    List.take_of_length_le (by omega)
  have space : (textBytes "\x7d").length + 1 ≤ middle.length := by omega
  refine ⟨middle.drop ((textBytes "\x7d").length + 1), ?_⟩
  rw [printVectorInto, ← bind_assoc, Traced.result_bind, result, Option.bind_some, snprintfInto,
    cut, ← overwrite_start space]
  rfl

/-- A vector that is read is printed as its elements. -/
theorem fieldPrinted_vector {field : OmnmFieldImpl} {type : MamaFieldType}
    (vector : type = .vectorString ∨ ∃ scalar : ScalarType, type = scalar.vectorFieldType)
    (stored : field.mFieldType = tag type)
    (read : FieldPrinting.mamaMsgField_getVector type msg field = .ok)
    (texts : List (List UInt8)) :
    (fieldPrinted msg field texts).result = some (.ok, .elements texts) := by
  rw [fieldPrinted, stored, fieldTypeOf_tag]
  rcases vector with rfl | ⟨scalar, rfl⟩
  · dsimp only
    rw [if_neg (not_not.mpr read)]
    rfl
  · cases scalar <;> dsimp only [ScalarType.vectorFieldType] at read ⊢ <;>
      rw [if_neg (not_not.mpr read)] <;> rfl

end

/-- The text of a field, through the handle that the iterator gives or by key, respects the
caller's buffer exactly if the field is not `OPAQUE` or its text fits. -/
theorem rendering_respects_buffer_iff [FieldTypeTags] [MamaLibrary] [FieldPrinting]
    {msg : OmnmPayloadImpl} {message : Message} (represents : msg.Represents message) {len : Nat}
    (positive : len ≠ 0) (texts : List (List UInt8)) :
    (∀ (entry : FieldEntry) (position : Nat) (rest : List UInt8) (previous : BufferPtr),
      DataFits entry.type entry.data →
      msg.mPayloadBuffer.drop position = entry.encode ++ rest →
      (RespectsBuffer len (fun buffer => omnmmsgFieldPayload_getAsStringInto msg
        (entry.handle position previous) texts buffer len) ↔ entry.TextFits len)) ∧
    ∀ (name : Option CString) (fid : UInt16),
      RespectsBuffer len (fun buffer =>
          omnmmsgPayload_getFieldAsStringInto msg name fid texts buffer len) ↔
        ∀ entry, message.find name fid = some entry → entry.TextFits len :=
  ⟨fun _ _ _ previous fits here => getAsStringInto_respects_iff fits here previous positive,
    getFieldAsStringInto_respects_iff represents positive⟩

/-- The text of a vector is the closing brace, so it never shows the elements. -/
theorem vector_elements_never_shown [FieldTypeTags] [MamaLibrary] [FieldPrinting]
    {msg : OmnmPayloadImpl} {field : OmnmFieldImpl} {type : MamaFieldType}
    (vector : type = .vectorString ∨ ∃ scalar : ScalarType, type = scalar.vectorFieldType)
    (stored : field.mFieldType = tag type)
    (read : FieldPrinting.mamaMsgField_getVector type msg field = .ok)
    {texts : List (List UInt8)} {len : Nat} (room : (vectorText texts).length < len) :
    (¬ ShowsElements len texts fun buffer =>
      omnmmsgFieldPayload_getAsStringInto msg field texts buffer len) ∧
    ∀ buffer, len ≤ buffer.length → ∃ rest,
      (omnmmsgFieldPayload_getAsStringInto msg field texts buffer len).result =
        some (.ok, textBytes "\x7d" ++ 0 :: rest) := by
  have braces : 2 ≤ (vectorText texts).length := by
    have two : (textBytes "\x7b").length = 1 ∧ (textBytes "\x7d").length = 1 := ⟨rfl, rfl⟩
    simp only [vectorText, List.length_append, two]
    omega
  have positive : len ≠ 0 := by omega
  have left : ∀ buffer, len ≤ buffer.length → ∃ rest,
      (omnmmsgFieldPayload_getAsStringInto msg field texts buffer len).result =
        some (.ok, textBytes "\x7d" ++ 0 :: rest) := by
    intro buffer whole
    obtain ⟨rest, printed⟩ := exists_printVectorInto texts positive whole (by omega)
    refine ⟨rest, ?_⟩
    rw [omnmmsgFieldPayload_getAsStringInto, if_neg positive, Traced.result_bind,
      Traced.result_relabel, fieldPrinted_vector vector stored read, Option.bind_some,
      Traced.result_bind, Printed.into, printed]
    rfl
  refine ⟨?_, left⟩
  intro shows
  have whole : len ≤ (List.replicate len (0 : UInt8)).length := by simp
  obtain ⟨rest, result⟩ := left _ whole
  obtain ⟨status, after, result', shown⟩ := shows _ whole
  cases result.symm.trans result'
  -- the first character is a brace, and not the opening one
  have opening : textBytes "\x7b" <+: textBytes "\x7d" ++ 0 :: rest := by
    refine List.IsPrefix.trans ?_ shown
    rw [vectorText, List.append_assoc, List.append_assoc]
    exact List.prefix_append ..
  exact absurd (List.cons_prefix_cons.mp opening).1 (by decide)

/-- A payload is always printed, and no `sprintf` leaves the scratch buffer, and the text of each
field fits `part`. The text is an opening brace, the items of the fields in order with commas
between them, and a closing brace, exactly if an `int` counts the characters of every item. -/
theorem toString_exact_iff [FieldTypeTags] [MamaLibrary] [FieldPrinting] {scratch : Allocator}
    (succeeds : scratch.Succeeds) {msg : OmnmPayloadImpl} {message : Message}
    (represents : msg.Represents message) :
    ∃ fields last parts text next,
      (iterateFields msg).result = some (fields, last) ∧ PartsOf msg fields parts ∧
      (omnmmsgPayload_toStringWithin scratch msg).result = some (some text, next) ∧
      omnmmsgPayload_toString scratch msg = omnmmsgPayload_toStringWithin scratch msg ∧
      (text.bytes = textBytes "\x7b" ++ joinItems message.entries parts ++ textBytes "\x7d" ↔
        ∀ item ∈ List.zipWith FieldEntry.item message.entries parts, item.length ≤ intMax) := by
  obtain ⟨last, iterated⟩ := represents.decodes.iterateFields
  obtain ⟨parts, mBuffer, text, texts, within, bytes⟩ := represents.decodes.toStringWithin succeeds
  refine ⟨_, last, parts, text, _, iterated, texts, within, toString_eq_of_within within, ?_⟩
  rw [bytes]
  exact printItems_eq_iff

section Example

attribute [local instance] mamaFieldTypes silentLibrary silentPrinting

/-- A message with three opaque bytes under fid 1. -/
def threeBytes : Message :=
  Message.empty.append ⟨mamaFieldTypeNumber .opaqueField, 1, CString.empty, [1, 2, 3]⟩ (by decide)

/-- A message with the vector of U8 7 and 8 under fid 1. -/
def sevenEight : Message :=
  Message.empty.append ⟨mamaFieldTypeNumber .vectorU8, 1, CString.empty, [7, 8]⟩ (by decide)

/-- The handle of that vector. -/
def sevenEightField : OmnmFieldImpl :=
  FieldEntry.handle ⟨mamaFieldTypeNumber .vectorU8, 1, CString.empty, [7, 8]⟩ 3 .null

theorem threeBytes_respects_ten :
    RespectsBuffer 10 fun buffer =>
      omnmmsgPayload_getFieldAsStringInto threeBytes.payload none 1 [] buffer 10 := by
  refine ((rendering_respects_buffer_iff threeBytes.payload_represents (by decide) []).2
    none 1).mpr ?_
  intro entry found _
  cases (show threeBytes.find none 1 = some ⟨mamaFieldTypeNumber .opaqueField, 1, CString.empty,
    [1, 2, 3]⟩ from rfl).symm.trans found
  decide

/-- Into nine bytes ten are written, by key and through the handle. -/
theorem threeBytes_overruns_nine :
    (¬ RespectsBuffer 9 fun buffer =>
      omnmmsgPayload_getFieldAsStringInto threeBytes.payload none 1 [] buffer 9) ∧
    ¬ RespectsBuffer 9 fun buffer => omnmmsgFieldPayload_getAsStringInto threeBytes.payload
      (FieldEntry.handle ⟨mamaFieldTypeNumber .opaqueField, 1, CString.empty, [1, 2, 3]⟩ 3 .null)
      [] buffer 9 := by
  constructor
  · intro respects
    have written : .store .buffer 0 10 ∈ (omnmmsgPayload_getFieldAsStringInto threeBytes.payload
        none 1 [] (List.replicate 9 0) 9).accesses := by
      decide +kernel
    have inside : 0 + 10 ≤ 9 := respects.writes (List.replicate 9 0) (by decide) _ written
    omega
  · intro respects
    have written : .store .buffer 0 10 ∈ (omnmmsgFieldPayload_getAsStringInto threeBytes.payload
        (FieldEntry.handle ⟨mamaFieldTypeNumber .opaqueField, 1, CString.empty, [1, 2, 3]⟩ 3 .null)
        [] (List.replicate 9 0) 9).accesses := by
      decide +kernel
    have inside : 0 + 10 ≤ 9 := respects.writes (List.replicate 9 0) (by decide) _ written
    omega

theorem sevenEight_never_shown :
    (¬ ShowsElements 6 [textBytes "7", textBytes "8"] fun buffer =>
      omnmmsgFieldPayload_getAsStringInto sevenEight.payload sevenEightField
        [textBytes "7", textBytes "8"] buffer 6) ∧
    ∀ buffer, 6 ≤ buffer.length → ∃ rest,
      (omnmmsgFieldPayload_getAsStringInto sevenEight.payload sevenEightField
        [textBytes "7", textBytes "8"] buffer 6).result =
          some (.ok, textBytes "\x7d" ++ 0 :: rest) :=
  vector_elements_never_shown (.inr ⟨.u8, rfl⟩) rfl rfl (by decide)

/-- The vector of 7 and 8 is printed as a brace. -/
theorem sevenEight_shows_brace :
    vectorText [textBytes "7", textBytes "8"] = textBytes "\x7b7,8\x7d" ∧
      (omnmmsgFieldPayload_getAsStringInto sevenEight.payload sevenEightField
        [textBytes "7", textBytes "8"] (List.replicate 6 1) 6).result =
          some (.ok, textBytes "\x7d" ++ [0, 1, 1, 1, 1]) ∧
      ¬ ShowsElements 6 [textBytes "7", textBytes "8"] fun buffer =>
        omnmmsgFieldPayload_getAsStringInto sevenEight.payload sevenEightField
          [textBytes "7", textBytes "8"] buffer 6 := by
  have printed : (omnmmsgFieldPayload_getAsStringInto sevenEight.payload sevenEightField
      [textBytes "7", textBytes "8"] (List.replicate 6 1) 6).result =
        some (.ok, textBytes "\x7d" ++ [0, 1, 1, 1, 1]) := by
    decide +kernel
  refine ⟨by decide, printed, ?_⟩
  intro shows
  obtain ⟨status, after, result, shown⟩ := shows (List.replicate 6 1) (by decide)
  cases printed.symm.trans result
  revert shown
  decide

/-- A message with a name and a fid of five digits, a name and no fid, and a fid and no name. -/
def threeItems : Message :=
  ((Message.empty.append
      ⟨mamaFieldTypeNumber .i32, 54321, CString.ofBytes (textBytes "Bid"), [5, 0, 0, 0]⟩
        (by decide)).append
      ⟨mamaFieldTypeNumber .u8, 0, CString.ofBytes (textBytes "Side"), [7]⟩ (by decide)).append
    ⟨mamaFieldTypeNumber .string, 9, CString.empty, [72, 105, 0]⟩ (by decide)

theorem toString_exact_threeItems :
    (∃ fields last parts text next,
      (iterateFields threeItems.payload).result = some (fields, last) ∧
      PartsOf threeItems.payload fields parts ∧
      (omnmmsgPayload_toStringWithin .zeroing threeItems.payload).result =
        some (some text, next) ∧
      omnmmsgPayload_toString .zeroing threeItems.payload =
        omnmmsgPayload_toStringWithin .zeroing threeItems.payload ∧
      (text.bytes = textBytes "\x7b" ++ joinItems threeItems.entries parts ++ textBytes "\x7d" ↔
        ∀ item ∈ List.zipWith FieldEntry.item threeItems.entries parts, item.length ≤ intMax)) ∧
    (omnmmsgPayload_toString .zeroing threeItems.payload).result.map
        (fun printed => printed.1.map CString.bytes) =
      some (some (textBytes "\x7bBid[54321]=5,Side=7,[9]=Hi\x7d")) :=
  ⟨toString_exact_iff Allocator.zeroing_succeeds threeItems.payload_represents, by decide +kernel⟩

/-- A message with one field, a true `BOOL` under a name and no fid. -/
def oneNamed (name : CString) : Message :=
  Message.empty.append ⟨mamaFieldTypeNumber .bool, 0, name, [1]⟩ rfl

/-- A name of `2 ^ 31` characters. -/
def longName : CString :=
  ⟨List.replicate (2 ^ 31) 65, fun member => absurd (List.eq_of_mem_replicate member) (by decide)⟩

/-- `sprintf` does not count the characters of a name of 2 GiB, and what it returns takes `charIdx`
back in front of the opening brace. -/
theorem longName_prints_brace :
    ∃ parts text next, (omnmmsgPayload_toString .zeroing (oneNamed longName).payload).result =
        some (some text, next) ∧
      PartsOf (oneNamed longName).payload (fieldHandles (oneNamed longName).entries
        (oneNamed longName).payload.getHeaderSize .null) parts ∧
      text.bytes = textBytes "\x7d" ∧
      text.bytes ≠
        textBytes "\x7b" ++ joinItems (oneNamed longName).entries parts ++ textBytes "\x7d" := by
  have represents := (oneNamed longName).payload_represents
  obtain ⟨parts, mBuffer, text, texts, within, bytes⟩ :=
    represents.decodes.toStringWithin Allocator.zeroing_succeeds
  have printed := (congrArg Traced.result (toString_eq_of_within within)).trans within
  obtain ⟨part, rfl⟩ : ∃ part, parts = [part] := by
    have one := texts.length_eq
    rw [length_fieldHandles] at one
    exact List.length_eq_one_iff.mp one.symm
  -- the one item is longer than its name
  have long : ¬ (FieldEntry.item ⟨mamaFieldTypeNumber .bool, 0, longName, [1]⟩ part).length ≤
      intMax := by
    have name : longName.bytes.length = 2 ^ 31 := List.length_replicate
    have limit : intMax = 2 ^ 31 - 1 := rfl
    simp only [FieldEntry.item, List.length_append, name, limit]
    omega
  have entries : (oneNamed longName).entries =
      [⟨mamaFieldTypeNumber .bool, 0, longName, [1]⟩] := rfl
  have brace : text.bytes = textBytes "\x7d" := by
    rw [bytes, entries, List.zipWith_cons_cons, List.zipWith_nil_left, printItems, printItems,
      afterSprintf, if_neg long, if_pos rfl]
    rfl
  refine ⟨[part], text, _, printed, texts, brace, ?_⟩
  intro same
  have opening : textBytes "\x7b" <+: textBytes "\x7d" := by
    rw [← brace, same, List.append_assoc]
    exact List.prefix_append ..
  exact absurd (List.cons_prefix_cons.mp opening).1 (by decide)

end Example

end Omnm
