import Mathlib.Data.List.Forall2
import Omnm.Memory.Decoders
import Omnm.Payload.Printing
import Omnm.Wire.ObjectLookups

/-!
# The text of a message

On an encoded field `omnmmsgFieldPayload_getAsString` always returns, with a text
of any length that the type prints (`exists_fieldPrinted`).

`omnmmsgPayload_toString` keeps a scratch buffer that holds what is printed so
far, and in front of the closing brace has room for two more bytes
(`Ahead.toStringWithinFrom`). The ten bytes that it asks for beside the name and
the text of a field are the equals sign, the brackets and the five digits of a
fid, and these two.

`sprintf` returns -1 for an item that is longer than an `int` counts. What is
printed behind it then starts one character in front of it (`printItems`), so
the text has all the items exactly if there is no such item
(`printItems_eq_iff`).
-/

set_option autoImplicit false

namespace Omnm

open FieldTypeTags (tag)
open OmnmPayloadImpl

/-! ## Digits -/

/-- What an integer prints as ends no string. -/
theorem zero_notMem_printInteger (value : Int) : (0 : UInt8) ∉ printInteger value := by
  have digits : (0 : UInt8) ∉
      (Nat.toDigits 10 value.natAbs).map fun char => UInt8.ofNat char.toNat := by
    intro member
    obtain ⟨char, listed, zero⟩ := List.mem_map.mp member
    have digit := Nat.isDigit_of_mem_toDigits (by omega) (by omega) listed
    have range : 48 ≤ char.toNat ∧ char.toNat ≤ 57 := by
      simpa [Char.isDigit, UInt32.le_iff_toNat_le] using digit
    have bits := congrArg UInt8.toNat zero
    rw [UInt8.toNat_ofNat', UInt8.toNat_zero] at bits
    omega
  have sign : (0 : UInt8) ∉ textBytes "-" := by decide
  rw [printInteger, List.mem_append]
  split
  · exact not_or.mpr ⟨sign, digits⟩
  · exact not_or.mpr ⟨List.not_mem_nil, digits⟩

/-- How many digits a number has. -/
theorem length_printInteger_le_iff {number width : Nat} (positive : 0 < width) :
    (printInteger number).length ≤ width ↔ number < 10 ^ width := by
  have natural : ¬ (number : Int) < 0 := Int.not_lt.mpr (Int.natCast_nonneg number)
  rw [printInteger, if_neg natural, List.nil_append, List.length_map, Int.natAbs_natCast]
  exact Nat.length_toDigits_le_iff (by omega) positive

theorem length_printInteger_pos (number : Nat) : 0 < (printInteger number).length := by
  have natural : ¬ (number : Int) < 0 := Int.not_lt.mpr (Int.natCast_nonneg number)
  rw [printInteger, if_neg natural, List.nil_append, List.length_map, Int.natAbs_natCast]
  exact Nat.length_toDigits_pos

/-- The text of an `OPAQUE` field and its terminator take nine bytes beside the digits. -/
theorem length_opaqueText_lt_iff (size len : Nat) :
    (opaqueText size).length < len ↔ 10 ≤ len ∧ size < 10 ^ (len - 9) := by
  have parts : (opaqueText size).length = (printInteger size).length + 8 := by
    simp only [opaqueText, List.length_append, show (textBytes "\x7b").length = 1 from rfl,
      show (textBytes " bytes\x7d").length = 7 from rfl]
    omega
  have some_digit := length_printInteger_pos size
  by_cases large : 10 ≤ len
  · have digits := @length_printInteger_le_iff size (len - 9) (by omega)
    rw [← digits]
    omega
  · omega

/-! ## The text of an encoded field -/

section

variable [FieldTypeTags] {entry : FieldEntry} {msg : OmnmPayloadImpl} {field : OmnmFieldImpl}

variable [MamaLibrary] [FieldPrinting] {texts : List (List UInt8)}

/-- MAMA is asked for the elements of the type, with a field that is not one of its own. -/
def asksMama (type : UInt8) : Bool :=
  match fieldTypeOf type with
  | some .vectorString | some .vectorU8 | some .vectorU16 | some .vectorU32 | some .vectorU64
  | some .vectorBool | some .vectorChar | some .vectorI8 | some .vectorI16 | some .vectorI32
  | some .vectorI64 | some .vectorF64 | some .vectorF32 => true
  | _ => false

/-- What is printed for a field, unless MAMA is asked. -/
def FieldEntry.printed (entry : FieldEntry) : Option (MamaStatus × Printed) :=
  let scalar (type : ScalarType) : Option (MamaStatus × Printed) :=
    some (.ok, .bounded (printScalar type
      (if entry.Keyless then 0 else littleEndianValue entry.data)))
  match fieldTypeOf entry.type with
  | some .bool => scalar .bool
  | some .char => scalar .char
  | some .i8 => scalar .i8
  | some .u8 => scalar .u8
  | some .i16 => scalar .i16
  | some .u16 => scalar .u16
  | some .i32 => scalar .i32
  | some .u32 => scalar .u32
  | some .i64 => scalar .i64
  | some .u64 => scalar .u64
  | some .f32 => scalar .f32
  | some .f64 => scalar .f64
  | some .string =>
      some (.ok, .bounded (if entry.Keyless then [] else (CString.ofBytes entry.data).bytes))
  | some .time =>
      let (status, text) := FieldPrinting.mamaDateTime_getAsString
        (some (convertOmnmDateTimeToMamaDateTime entry.data))
      some (status, .bounded text)
  | some .price =>
      let (status, text) := FieldPrinting.mamaPrice_getAsString
        (some (convertOmnmPriceToMamaPrice entry.data))
      some (status, .bounded text)
  | some .opaqueField =>
      some (if entry.Keyless then .nullArg else .ok,
        .unbounded (opaqueText (if entry.Keyless then 0 else entry.data.length)))
  | some .msg | some .vectorMsg | some .vectorTime | some .vectorPrice =>
      some (.ok, .bounded (textBytes "\x7b...\x7d"))
  | some .quantity | some .collection | some .unknown | none =>
      some (.ok, .bounded (textBytes "Unknown"))
  | _ => none

omit [MamaLibrary] in
theorem FieldEntry.printed_eq_none_iff : entry.printed = none ↔ asksMama entry.type = true := by
  unfold FieldEntry.printed asksMama
  cases fieldTypeOf entry.type with
  | none => simp
  | some name => cases name <;> simp

omit [MamaLibrary] in
/-- An `OPAQUE` field shows how many bytes it has, or none when no key finds it. -/
theorem FieldEntry.printed_opaqueField (bytes : entry.type = tag .opaqueField) :
    entry.printed = some (if entry.Keyless then .nullArg else .ok,
      .unbounded (opaqueText (if entry.Keyless then 0 else entry.data.length))) := by
  rw [FieldEntry.printed, bytes, fieldTypeOf_tag]

/-- A field whose data is what its type prescribes is printed so. -/
theorem FieldEntry.HandledBy.fieldPrinted_eq (handled : entry.HandledBy msg field)
    (fits : DataFits entry.type entry.data) (texts : List (List UInt8))
    {shown : MamaStatus × Printed} (known : entry.printed = some shown) :
    (fieldPrinted msg field texts).result = some shown := by
  have scalar : ∀ type : ScalarType, entry.type = tag type.fieldType →
      (Omnm.getScalarField type msg field >>= fun got =>
        (pure (MamaStatus.ok, Printed.bounded (printScalar type (got.2.getD 0))) :
          Traced Region (MamaStatus × Printed))).result = some (.ok, .bounded (printScalar type
        (if entry.Keyless then 0 else littleEndianValue entry.data))) := by
    intro type same
    have width := length_of_dataFits type.dataLayout_fieldType same fits
    rw [Traced.result_bind, handled.getScalarField same width]
    split <;> rfl
  unfold FieldEntry.printed at known
  rw [fieldPrinted, handled.type]
  cases named : fieldTypeOf entry.type with
  | none =>
      simp only [named] at known
      cases known
      rfl
  | some name =>
      have type := (tag_of_fieldTypeOf named).symm
      simp only [named] at known
      cases name with
      | bool => cases known; exact scalar .bool type
      | char => cases known; exact scalar .char type
      | i8 => cases known; exact scalar .i8 type
      | u8 => cases known; exact scalar .u8 type
      | i16 => cases known; exact scalar .i16 type
      | u16 => cases known; exact scalar .u16 type
      | i32 => cases known; exact scalar .i32 type
      | u32 => cases known; exact scalar .u32 type
      | i64 => cases known; exact scalar .i64 type
      | u64 => cases known; exact scalar .u64 type
      | f32 => cases known; exact scalar .f32 type
      | f64 => cases known; exact scalar .f64 type
      | string =>
          cases known
          obtain ⟨text, data, pointed⟩ := handled.loadString type fits
          have reads : CString.ofBytes entry.data = text := by
            rw [data, CString.ofBytes_terminated]
          simp only [Traced.result_bind, handled.getString type, Option.bind_some]
          by_cases keyless : entry.Keyless
          · rw [if_pos keyless, if_pos keyless]
            rfl
          · rw [if_neg keyless, if_neg keyless, reads]
            simp only [Option.getD_some, pointed, Option.bind_some, Traced.result_pure]
      | time =>
          cases known
          have width := length_of_dataFits dataLayout_time type fits
          simp only [Traced.result_bind, handled.getDateTime type width, Option.bind_some,
            Traced.result_pure]
      | price =>
          cases known
          have width := length_of_dataFits dataLayout_price type fits
          simp only [Traced.result_bind, handled.getPrice type width, Option.bind_some,
            Traced.result_pure]
      | opaqueField =>
          cases known
          simp only [Traced.result_bind, handled.getOpaque type, Option.bind_some]
          by_cases keyless : entry.Keyless
          · simp only [if_pos keyless]
            rfl
          · simp only [if_neg keyless]
            rfl
      | vectorString | vectorU8 | vectorU16 | vectorU32 | vectorU64 | vectorBool | vectorChar
      | vectorI8 | vectorI16 | vectorI32 | vectorI64 | vectorF64 | vectorF32 => cases known
      | msg | vectorMsg | vectorTime | vectorPrice | quantity | collection | unknown =>
          cases known
          rfl

/-- A field whose data is what its type prescribes is printed. -/
theorem FieldEntry.HandledBy.exists_fieldPrinted (handled : entry.HandledBy msg field)
    (fits : DataFits entry.type entry.data) (texts : List (List UInt8)) :
    ∃ status printed, (fieldPrinted msg field texts).result = some (status, printed) := by
  cases known : entry.printed with
  | some shown => exact ⟨_, _, handled.fieldPrinted_eq fits texts known⟩
  | none =>
      have asks := FieldEntry.printed_eq_none_iff.mp known
      unfold asksMama at asks
      rw [fieldPrinted, handled.type]
      cases named : fieldTypeOf entry.type with
      | none => simp [named] at asks
      | some name =>
          cases name <;> simp only [named, Bool.false_eq_true] at asks <;> dsimp only <;>
            split <;> exact ⟨_, _, rfl⟩

/-- The handle by which the iterator yields a field is printed. -/
theorem FieldEntry.exists_fieldPrinted (fits : DataFits entry.type entry.data) {position : Nat}
    {rest : List UInt8} (here : msg.mPayloadBuffer.drop position = entry.encode ++ rest)
    (previous : BufferPtr) (texts : List (List UInt8)) :
    ∃ status printed, (fieldPrinted msg (entry.handle position previous) texts).result =
        some (status, printed) ∧ ∀ shown ∈ entry.printed, (status, printed) = shown := by
  by_cases listed : dataLayout entry.type = .unlisted
  · -- nothing is read of a type that the iterator does not list
    refine ⟨.ok, .bounded (textBytes "Unknown"), ?_, ?_⟩
    · rw [fieldPrinted, handle_mFieldType]
      rcases fieldTypeOf_of_unlisted listed with other | other <;> rw [other] <;> rfl
    · intro shown known
      unfold FieldEntry.printed at known
      rcases fieldTypeOf_of_unlisted listed with other | other <;> rw [other] at known <;>
        exact Option.some.inj known
  · have handled := FieldEntry.handledBy_of_drop listed here previous
    obtain ⟨status, printed, result⟩ := handled.exists_fieldPrinted fits texts
    refine ⟨status, printed, result, ?_⟩
    intro shown known
    exact Option.some.inj (result.symm.trans (handled.fieldPrinted_eq fits texts known))

/-- The text that a field leaves in `part`, unless MAMA is asked. -/
def FieldEntry.part (entry : FieldEntry) : Option CString :=
  entry.printed.map fun shown => shown.2.string sizeofPart

/-- It leaves a text in `part`, and that fits. -/
theorem FieldEntry.exists_part (fits : DataFits entry.type entry.data) {position : Nat}
    {rest : List UInt8} (here : msg.mPayloadBuffer.drop position = entry.encode ++ rest)
    (previous : BufferPtr) :
    ∃ status part, (omnmmsgFieldPayload_getAsString msg (entry.handle position previous)
        sizeofPart).result = some (status, some part) ∧ part.bytes.length < sizeofPart ∧
      ∀ text ∈ entry.part, part = text := by
  have positive : sizeofPart ≠ 0 := by decide
  obtain ⟨status, printed, result, known⟩ := FieldEntry.exists_fieldPrinted fits here previous []
  have cut : printed.Fits sizeofPart := by
    by_cases bytes : entry.type = tag .opaqueField
    · cases known _ (FieldEntry.printed_opaqueField bytes)
      have short : entry.data.length < 2 ^ 32 := by
        simpa only [DataFits, bytes, dataLayout, fieldTypeOf_tag] using fits
      have wide : 2 ^ 32 ≤ 10 ^ (sizeofPart - 9) :=
        Nat.le_trans (by decide : 2 ^ 32 ≤ 10 ^ 10) (Nat.pow_le_pow_right (by decide) (by decide))
      refine (length_opaqueText_lt_iff ..).mpr ⟨by decide, ?_⟩
      split
      · exact Nat.pow_pos (by decide)
      · exact Nat.lt_of_lt_of_le short wide
    · exact fits_of_fieldPrinted (fun named => bytes (tag_of_fieldTypeOf named).symm) result
  refine ⟨status, printed.string sizeofPart, ?_, cut.length_string positive, ?_⟩
  · rw [getAsString_eq _ _ [] positive, Traced.result_map, result]
    rfl
  · intro text same
    obtain ⟨shown, printed, rfl⟩ := Option.map_eq_some_iff.mp same
    rw [← known shown printed]

end

/-! ## The text of a payload -/

/-- The item of a field: its name, its fid in brackets unless that is zero, and its text. -/
def FieldEntry.item (entry : FieldEntry) (part : CString) : List UInt8 :=
  entry.name.bytes ++
    (if entry.fid = 0 then [] else textBytes "[" ++ printInteger entry.fid.toNat ++ textBytes "]") ++
    textBytes "=" ++ part.bytes

/-- The items of the fields, separated by commas. -/
def joinItems (entries : List FieldEntry) (parts : List CString) : List UInt8 :=
  (textBytes ",").intercalate (List.zipWith FieldEntry.item entries parts)

section

variable {entry : FieldEntry} {part : CString}

theorem printField_nameArgument (entry : FieldEntry) (part : CString) :
    printField entry.nameArgument entry.fid part = entry.item part := by
  rw [printField, entry.getD_nameArgument]
  rfl

/-- The item of a field leaves two of the ten bytes beside its name and its text. -/
theorem FieldEntry.length_item_le (entry : FieldEntry) (part : CString) :
    (entry.item part).length ≤ strlenEx entry.nameArgument + part.bytes.length + 8 := by
  have name : strlenEx entry.nameArgument = entry.name.bytes.length := by
    rw [← entry.getD_nameArgument]
    cases entry.nameArgument <;> rfl
  have digits : (printInteger entry.fid.toNat).length ≤ 5 :=
    (length_printInteger_le_iff (by decide)).mpr
      (Nat.lt_of_lt_of_le entry.fid.toNat_lt (by decide))
  have signs : (textBytes "[").length = 1 ∧ (textBytes "]").length = 1 ∧
      (textBytes "=").length = 1 := ⟨rfl, rfl, rfl⟩
  rw [item, name]
  split <;> simp only [List.length_append, List.length_nil, signs] <;> omega

/-- The items end no string. -/
theorem FieldEntry.zero_notMem_item (entry : FieldEntry) (part : CString) :
    (0 : UInt8) ∉ entry.item part := by
  have number : (0 : UInt8) ∉ (if entry.fid = 0 then [] else
      textBytes "[" ++ printInteger entry.fid.toNat ++ textBytes "]") := by
    split
    · exact List.not_mem_nil
    · simp only [List.mem_append, not_or]
      exact ⟨⟨by decide, zero_notMem_printInteger _⟩, by decide⟩
  simp only [item, List.mem_append, not_or]
  exact ⟨⟨⟨entry.name.noNul, number⟩, by decide⟩, part.noNul⟩

/-! ### What the prints leave in front of `charIdx` -/

/-- What stands in front of `charIdx` behind a print. -/
def afterSprintf (printed text : List UInt8) : List UInt8 :=
  if text.length ≤ intMax then printed ++ text else printed.dropLast

/-- What the loop leaves in front of the terminator, behind what is printed so far. -/
def printItems (printed : List UInt8) : List (List UInt8) → List UInt8
  | [] => printed ++ textBytes "\x7d"
  | item :: items =>
      printItems (afterSprintf printed item ++ if items = [] then [] else textBytes ",") items

theorem zero_notMem_afterSprintf {printed text : List UInt8} (before : (0 : UInt8) ∉ printed)
    (noNul : (0 : UInt8) ∉ text) : (0 : UInt8) ∉ afterSprintf printed text := by
  rw [afterSprintf]
  split
  · exact List.mem_append.not.mpr (not_or.mpr ⟨before, noNul⟩)
  · exact fun member => before ((List.dropLast_sublist printed).mem member)

/-- The prints end no string. -/
theorem zero_notMem_printItems {printed : List UInt8} {items : List (List UInt8)}
    (before : (0 : UInt8) ∉ printed) (noNul : ∀ item ∈ items, (0 : UInt8) ∉ item) :
    (0 : UInt8) ∉ printItems printed items := by
  induction items generalizing printed with
  | nil => exact List.mem_append.not.mpr (not_or.mpr ⟨before, by decide⟩)
  | cons item items ih =>
      have front := zero_notMem_afterSprintf before (noNul item List.mem_cons_self)
      refine ih ?_ fun other member => noNul other (List.mem_cons_of_mem _ member)
      refine List.mem_append.not.mpr (not_or.mpr ⟨front, ?_⟩)
      split
      · exact List.not_mem_nil
      · decide

/-- The items with commas between them, as the loop prints them one by one. -/
theorem intercalate_cons (item : List UInt8) (items : List (List UInt8)) :
    (textBytes ",").intercalate (item :: items) =
      item ++ (if items = [] then [] else textBytes ",") ++ (textBytes ",").intercalate items := by
  cases items with
  | nil => simp
  | cons next items => simp

/-- Items that an `int` counts are printed one behind the other. -/
theorem printItems_of_short {printed : List UInt8} {items : List (List UInt8)}
    (short : ∀ item ∈ items, item.length ≤ intMax) :
    printItems printed items =
      printed ++ (textBytes ",").intercalate items ++ textBytes "\x7d" := by
  induction items generalizing printed with
  | nil => simp [printItems]
  | cons item items ih =>
      rw [printItems, ih fun other member => short other (List.mem_cons_of_mem _ member),
        afterSprintf, if_pos (short item List.mem_cons_self), intercalate_cons]
      simp only [List.append_assoc]

/-- Nothing longer is ever printed. -/
theorem length_printItems_le (printed : List UInt8) (items : List (List UInt8)) :
    (printItems printed items).length ≤
      (printed ++ (textBytes ",").intercalate items ++ textBytes "\x7d").length := by
  induction items generalizing printed with
  | nil => simp [printItems]
  | cons item items ih =>
      have front : (afterSprintf printed item).length ≤ printed.length + item.length := by
        rw [afterSprintf]
        split
        · exact List.length_append.le
        · rw [List.length_dropLast]
          omega
      have rest := ih (afterSprintf printed item ++ if items = [] then [] else textBytes ",")
      rw [printItems, intercalate_cons]
      simp only [List.length_append] at rest ⊢
      omega

/-- The items are printed in full exactly if an `int` counts each of them: what stands behind an
item that is longer makes up for no more than the item itself. -/
theorem printItems_eq_iff {printed : List UInt8} {items : List (List UInt8)} :
    printItems printed items = printed ++ (textBytes ",").intercalate items ++ textBytes "\x7d" ↔
      ∀ item ∈ items, item.length ≤ intMax := by
  refine ⟨?_, printItems_of_short⟩
  intro same
  induction items generalizing printed with
  | nil => exact fun item member => absurd member List.not_mem_nil
  | cons item items ih =>
      by_cases short : item.length ≤ intMax
      · rw [printItems, afterSprintf, if_pos short, intercalate_cons] at same
        have others := ih (same.trans (by simp only [List.append_assoc]))
        exact List.forall_mem_cons.mpr ⟨short, others⟩
      · -- the index goes back where the item should have brought it forward
        exfalso
        have bound := length_printItems_le
          (afterSprintf printed item ++ if items = [] then [] else textBytes ",") items
        have length := congrArg List.length same
        rw [printItems, intercalate_cons] at length
        rw [afterSprintf, if_neg short] at bound length
        simp only [List.length_append, List.length_dropLast] at bound length
        omega

/-- A text is printed behind what stands in the buffer, and `charIdx` moves by what `sprintf`
returns. -/
theorem sprintfWithin_append [FieldPrinting] {printed after text : List UInt8}
    (room : text.length + 1 ≤ after.length) :
    ∃ left, (sprintfWithin (printed ++ after) printed.length text).result =
        some (afterSprintf printed text ++ left, sprintfResult text) ∧
      after.length ≤ text.length + left.length ∧
      advanceIndex printed.length (sprintfResult text) = (afterSprintf printed text).length ∧
      (text.length ≤ intMax → ∃ rest, left = 0 :: rest) := by
  have inside : ¬ (printed ++ after).length < printed.length + text.length + 1 := by
    rw [List.length_append]
    omega
  rw [sprintfWithin, if_neg inside, sprintf, sprintfResult, afterSprintf, sprintfBytes]
  by_cases short : text.length ≤ intMax
  · have whole : printed.length + (text ++ [0]).length ≤ (printed ++ after).length := by
      simp only [List.length_append, List.length_singleton]
      omega
    simp only [if_pos short]
    refine ⟨0 :: after.drop (text.length + 1), ?_, ?_, ?_, fun _ => ⟨_, rfl⟩⟩
    · rw [Traced.result_bind]
      show some (overwrite (printed ++ after) printed.length (text ++ [0]), _) = _
      rw [overwrite_of_le whole, List.take_left, List.length_append, List.drop_append,
        List.length_singleton]
      simp
    · rw [List.length_cons, List.length_drop]
      omega
    · rw [advanceIndex, List.length_append]
      exact Int.toNat_natCast _
  · have cut : ((FieldPrinting.overlongText text).take (text.length + 1)).length ≤
        text.length + 1 := List.length_take_le ..
    simp only [if_neg short]
    -- what is written starts behind what is printed, of which the last character is given up
    refine ⟨(overwrite (printed ++ after) printed.length
      ((FieldPrinting.overlongText text).take (text.length + 1))).drop (printed.length - 1),
      ?_, ?_, ?_, fun small => absurd small short⟩
    · rw [Traced.result_bind]
      show some (overwrite (printed ++ after) printed.length _, _) = _
      congr 2
      have front : (overwrite (printed ++ after) printed.length
          ((FieldPrinting.overlongText text).take (text.length + 1))).take (printed.length - 1) =
            printed.dropLast := by
        rw [overwrite_of_le (by rw [List.length_append]; omega), List.take_left,
          List.append_assoc, List.take_append_of_le_length (Nat.sub_le ..),
          List.dropLast_eq_take]
      rw [← front, List.take_append_drop]
    · rw [List.length_drop, length_overwrite, List.length_append]
      omega
    · rw [advanceIndex, List.length_dropLast]
      omega

end

section

variable [FieldTypeTags] [MamaLibrary] [FieldPrinting] {scratch : Allocator}
  {msg : OmnmPayloadImpl} {entries : List FieldEntry} {iter : OmnmIterImpl} {rounds : Nat}

/-- The texts that the fields leave in `part`, which holds 1023 characters. -/
def PartsOf (msg : OmnmPayloadImpl) (fields : List OmnmFieldImpl) (parts : List CString) : Prop :=
  List.Forall₂ (fun field part => part.bytes.length < sizeofPart ∧
    ∃ status, (omnmmsgFieldPayload_getAsString msg field sizeofPart).result =
      some (status, some part)) fields parts

omit [MamaLibrary] [FieldPrinting] in
/-- There is a next field exactly if one is ahead. -/
theorem Ahead.hasNext (ahead : Ahead msg iter entries) :
    omnmmsgPayloadIter_hasNext iter msg = true ↔ entries ≠ [] := by
  have ends := ahead.ends
  rw [omnmmsgPayloadIter_hasNext, decide_eq_true_iff]
  cases entries with
  | nil =>
      rw [encodeAll_nil, List.length_nil] at ends
      simp only [ne_eq, not_true_eq_false, iff_false]
      omega
  | cons entry entries =>
      have wide := entry.four_le_length_encode
      rw [encodeAll_cons, List.length_append] at ends
      simp only [ne_eq, reduceCtorEq, not_false_eq_true, iff_true]
      omega

omit [FieldTypeTags] [MamaLibrary] in
/-- A text that an `int` counts is printed with its terminator. -/
theorem sprintfWithin_short {printed after text : List UInt8} (short : text.length ≤ intMax)
    (room : text.length + 1 ≤ after.length) :
    ∃ rest, (sprintfWithin (printed ++ after) printed.length text).result =
        some (printed ++ text ++ 0 :: rest, (text.length : Int)) ∧
      after.length ≤ text.length + (0 :: rest).length := by
  obtain ⟨left, result, length, -, ends⟩ := @sprintfWithin_append _ printed after text room
  obtain ⟨rest, rfl⟩ := ends short
  rw [afterSprintf, if_pos short, sprintfResult, if_pos short] at result
  exact ⟨rest, result, length⟩

/-- Behind an item the comma is printed, if there are items behind it. -/
theorem Ahead.separate {printed after : List UInt8} (ahead : Ahead msg iter entries)
    (room : 2 ≤ after.length) :
    ∃ left : List UInt8, (entries = [] → 2 ≤ left.length) ∧
      (if omnmmsgPayloadIter_hasNext iter msg then do
        let (mBuffer, written) ← sprintfWithin (printed ++ after) printed.length (textBytes ",")
        toStringWithinFrom scratch msg rounds iter mBuffer (advanceIndex printed.length written)
      else
        toStringWithinFrom scratch msg rounds iter (printed ++ after) printed.length).result =
      (toStringWithinFrom scratch msg rounds iter
        (printed ++ (if entries = [] then [] else textBytes ",") ++ left)
        (printed ++ if entries = [] then [] else textBytes ",").length).result := by
  by_cases last : entries = []
  · refine ⟨after, fun _ => room, ?_⟩
    rw [if_neg (ahead.hasNext.not.mpr (not_not.mpr last)), if_pos last, List.append_nil]
  · obtain ⟨rest, comma, -⟩ := @sprintfWithin_short _ printed after (textBytes ",") (by decide) room
    refine ⟨0 :: rest, fun none => absurd none last, ?_⟩
    rw [if_pos (ahead.hasNext.mpr last), Traced.result_bind, comma, Option.bind_some,
      if_neg last, List.length_append]
    rfl

/-- The loop prints the items of the fields ahead, and the closing brace, behind what stands in
the buffer. -/
theorem Ahead.toStringWithinFrom (succeeds : scratch.Succeeds) {printed after : List UInt8}
    (ahead : Ahead msg iter entries) (enough : entries.length < rounds)
    (room : entries = [] → 2 ≤ after.length) :
    ∃ parts rest, PartsOf msg (fieldHandles entries iter.mBufferPosition iter.mField.mData) parts ∧
      (toStringWithinFrom scratch msg rounds iter (printed ++ after) printed.length).result =
        some (true, printItems printed (List.zipWith FieldEntry.item entries parts) ++ 0 :: rest) := by
  induction entries generalizing iter rounds printed after with
  | nil =>
      obtain ⟨rounds, rfl⟩ : ∃ fewer, rounds = fewer + 1 := ⟨rounds - 1, by simp at enough; omega⟩
      obtain ⟨rest, closing, -⟩ :=
        @sprintfWithin_short _ printed after (textBytes "\x7d") (by decide) (room rfl)
      refine ⟨[], rest, .nil, ?_⟩
      simp only [Omnm.toStringWithinFrom, ahead.next_nil, Traced.result_bind, Traced.result_pure,
        Option.bind_some, closing, List.zipWith_nil_right, printItems]
  | cons entry entries ih =>
      obtain ⟨rounds, rfl⟩ : ∃ fewer, rounds = fewer + 1 := ⟨rounds - 1, by simp at enough; omega⟩
      obtain ⟨behind, here⟩ := ahead.drop_eq
      obtain ⟨status, part, shown, short, -⟩ := FieldEntry.exists_part
        (ahead.fits entry List.mem_cons_self) here iter.mField.mData
      obtain ⟨written, named, loaded⟩ := (FieldEntry.handledBy_at here).exists_getName
      have named' : (omnmmsgFieldPayload_getName msg
        (entry.handle iter.mBufferPosition iter.mField.mData)).result = some written := named
      -- the buffer has room for the item and two more bytes
      obtain ⟨fresh, grown, large⟩ := exists_fresh_of_succeeded
        (allocateBufferMemory_of_succeeds succeeds (printed ++ after)
          (strlenEx entry.nameArgument + part.bytes.length + 10 + printed.length))
      rw [List.append_assoc] at grown
      have wide := entry.length_item_le part
      have roomy : (entry.item part).length + 2 ≤ (after ++ fresh).length := by
        simp only [List.length_append] at large ⊢
        omega
      obtain ⟨behindItem, item, length, index, -⟩ :=
        @sprintfWithin_append _ printed (after ++ fresh) (entry.item part) (by omega)
      obtain ⟨left, leftLength, separated⟩ := @Ahead.separate _ _ _ scratch _ _ _ rounds
        (afterSprintf printed (entry.item part)) behindItem ahead.step (by omega)
      obtain ⟨parts, rest, texts, continued⟩ := ih ahead.step (by simpa using enough) leftLength
      have more : (List.zipWith FieldEntry.item entries parts = []) = (entries = []) := by
        have same : entries.length = parts.length := by
          rw [← texts.length_eq, length_fieldHandles]
        rw [← List.length_eq_zero_iff, List.length_zipWith, ← same, Nat.min_self,
          List.length_eq_zero_iff]
      refine ⟨part :: parts, rest, .cons ⟨short, status, shown⟩ texts, ?_⟩
      rw [List.zipWith_cons_cons, printItems]
      simp only [more]
      rw [← continued, ← separated, Omnm.toStringWithinFrom]
      simp only [Traced.result_bind, ahead.next, Option.bind_some, shown, named', loaded, grown,
        Option.getD_some, allocateBufferMemory_of_succeeds succeeds, Bool.true_eq_false, if_false,
        FieldEntry.handle_mFid, printField_nameArgument, item, index]

/-- The payload is printed, within the scratch buffer: between braces the items of its fields, as
far as `sprintf` counts them. -/
theorem OmnmPayloadImpl.Decodes.toStringWithin (decodes : msg.Decodes entries)
    (succeeds : scratch.Succeeds) :
    ∃ parts mBuffer text, PartsOf msg (fieldHandles entries msg.getHeaderSize .null) parts ∧
      (omnmmsgPayload_toStringWithin scratch msg).result = some (some text, { msg with mBuffer }) ∧
      text.bytes = printItems (textBytes "\x7b") (List.zipWith FieldEntry.item entries parts) := by
  obtain ⟨fresh, grown, large⟩ := exists_fresh_of_succeeded
    (allocateBufferMemory_of_succeeds succeeds msg.mBuffer sizeofPart)
  have wide : 2 ≤ sizeofPart := by decide
  obtain ⟨behind, opened, length⟩ := @sprintfWithin_short _ [] (msg.mBuffer ++ fresh)
    (textBytes "\x7b") (by decide) (Nat.le_trans wide large)
  have room : 2 ≤ (0 :: behind).length := by
    have brace : (textBytes "\x7b").length = 1 := rfl
    have part : sizeofPart = 1024 := rfl
    omega
  obtain ⟨parts, rest, texts, loop⟩ := @Ahead.toStringWithinFrom _ _ _ scratch msg entries
    (startIter msg entries) (iterationBound msg) succeeds (textBytes "\x7b") _ decodes.ahead
    decodes.length_le fun _ => room
  rw [fieldHandles_startIter] at texts
  have noNul : (0 : UInt8) ∉
      printItems (textBytes "\x7b") (List.zipWith FieldEntry.item entries parts) := by
    refine zero_notMem_printItems (by decide) ?_
    intro item member
    obtain ⟨place, inside, rfl⟩ := List.getElem_of_mem member
    rw [List.getElem_zipWith]
    exact FieldEntry.zero_notMem_item _ _
  have reads := ofBytes_append_nul
    (printItems (textBytes "\x7b") (List.zipWith FieldEntry.item entries parts)) rest
  rw [CString.ofBytes_bytes ⟨_, noNul⟩] at reads
  refine ⟨parts, printItems (textBytes "\x7b") (List.zipWith FieldEntry.item entries parts) ++
    0 :: rest, ⟨_, noNul⟩, texts, ?_, rfl⟩
  rw [omnmmsgPayload_toStringWithin]
  simp only [Traced.result_bind, decodes.getNumFields, decodes.init, Option.bind_some, grown,
    allocateBufferMemory_of_succeeds succeeds, Bool.true_eq_false, if_false]
  rw [List.nil_append, List.length_nil] at opened
  have first : (toStringWithinFrom scratch msg (iterationBound msg) (startIter msg entries)
      (textBytes "\x7b" ++ 0 :: behind) (advanceIndex 0 (textBytes "\x7b").length)).result = _ := loop
  rw [opened, Option.bind_some, List.nil_append, first, Option.bind_some]
  simp only [Traced.result_pure, if_true, reads]

/-! ### What is known of the text -/

/-- The item of a field, unless MAMA is asked. -/
def FieldEntry.text (entry : FieldEntry) : Option (List UInt8) := entry.part.map entry.item

/-- The text of a message, unless MAMA is asked for one of its fields. -/
def Message.text (message : Message) : Option (List UInt8) :=
  (message.entries.mapM FieldEntry.text).map (printItems (textBytes "\x7b"))

omit [MamaLibrary] in
/-- The text of a field is not known exactly if MAMA is asked. -/
theorem FieldEntry.text_eq_none_iff {entry : FieldEntry} :
    entry.text = none ↔ asksMama entry.type = true := by
  rw [FieldEntry.text, Option.map_eq_none_iff, FieldEntry.part, Option.map_eq_none_iff,
    FieldEntry.printed_eq_none_iff]

omit [MamaLibrary] in
theorem Message.text_eq_none_iff {message : Message} :
    message.text = none ↔ ∃ entry ∈ message.entries, asksMama entry.type = true := by
  rw [Message.text, Option.map_eq_none_iff]
  induction message.entries with
  | nil => simp
  | cons entry entries ih =>
      simp only [List.mem_cons, exists_eq_or_imp]
      rw [← ih, ← FieldEntry.text_eq_none_iff, List.mapM_cons]
      cases entry.text with
      | none => simp
      | some item => cases entries.mapM FieldEntry.text <;> simp

/-- The texts of fields are the known ones. -/
theorem PartsOf.zipWith_item {position : Nat} {previous : BufferPtr} {rest : List UInt8}
    {parts : List CString} {items : List (List UInt8)} (fits : AllFit entries)
    (here : msg.mPayloadBuffer.drop position = encodeAll entries ++ rest)
    (printed : PartsOf msg (fieldHandles entries position previous) parts)
    (known : entries.mapM FieldEntry.text = some items) :
    List.zipWith FieldEntry.item entries parts = items := by
  induction entries generalizing position previous parts items with
  | nil =>
      cases known
      rfl
  | cons entry entries ih =>
      rw [encodeAll_cons, List.append_assoc] at here
      obtain ⟨status, part, result, -, same⟩ :=
        FieldEntry.exists_part (fits entry List.mem_cons_self) here previous
      rw [List.mapM_cons] at known
      obtain ⟨item, text, more⟩ := Option.bind_eq_some_iff.mp known
      obtain ⟨others, later, all⟩ := Option.bind_eq_some_iff.mp more
      obtain ⟨own, named, rfl⟩ := Option.map_eq_some_iff.mp text
      cases all
      cases printed with
      | @cons _ first _ parts shown printed =>
          obtain ⟨-, status', result'⟩ := shown
          cases result.symm.trans result'
          rw [List.zipWith_cons_cons, same own named,
            ih (fun other member => fits other (List.mem_cons_of_mem _ member)) (drop_behind here)
              printed later]

/-- A payload is printed, as the text of its message if that is known. -/
theorem OmnmPayloadImpl.Represents.toString {message : Message} (represents : msg.Represents message)
    (succeeds : scratch.Succeeds) :
    ∃ mBuffer text, (omnmmsgPayload_toString scratch msg).result =
        some (some text, { msg with mBuffer }) ∧ ∀ known ∈ message.text, text.bytes = known := by
  have decodes := represents.decodes
  obtain ⟨parts, mBuffer, text, texts, printed, bytes⟩ := decodes.toStringWithin succeeds
  refine ⟨mBuffer, text, ?_, ?_⟩
  · rw [toString_eq_of_within printed, printed]
  · intro known same
    obtain ⟨items, each, rfl⟩ := Option.map_eq_some_iff.mp same
    obtain ⟨rest, here⟩ := decodes.here
    rw [bytes, texts.zipWith_item decodes.fits here each]

end

end Omnm
