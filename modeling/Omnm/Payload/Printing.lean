import Omnm.Payload.Reads

/-!
# Where the text of a field and of a payload is written

`omnmmsgFieldPayload_getAsString` told again with the buffer of the caller as
memory, and with every `snprintf` and `sprintf` that it makes: a vector is
printed element by element. It reads what `omnmmsgFieldPayload_getAsString`
reads, and prints the string that this gives (`getAsString_eq`).

`omnmmsgPayload_toString` is told again with an `sprintf` that goes no further
than the scratch buffer, so that it has no result when one would. When it has
one, it is the same computation (`toString_eq_of_within`).
-/

set_option autoImplicit false

namespace Omnm

/-! ## The buffer of the caller -/

/-- The one buffer that a caller passes in for a text. -/
inductive CallerRegion where
  | buffer
  deriving DecidableEq, Repr

/-- A write to the first bytes of the caller's buffer. -/
def Access.InCaller (len : Nat) : Access CallerRegion → Prop
  | .store _ offset length => offset + length ≤ len
  | _ => False

/-- `snprintf (buffer, len, …)`, with a length that is not zero. -/
def snprintfInto (buffer : List UInt8) (len : Nat) (text : List UInt8) :
    Traced CallerRegion (List UInt8) :=
  store .buffer buffer 0 (text.take (len - 1) ++ [0])

/-- `sprintf (buffer, …)`. -/
def sprintfInto (buffer text : List UInt8) : Traced CallerRegion (List UInt8) :=
  store .buffer buffer 0 (text ++ [0])

/-- The step of `EXPAND_PRINT_VECTOR_MACROS` behind the last element: a backspace. -/
def printLastInto (len : Nat) (remaining : List (List UInt8)) (buffer : List UInt8) :
    Traced CallerRegion (List UInt8) :=
  if remaining = [] then snprintfInto buffer len [8] else pure buffer

/-- The loop of `EXPAND_PRINT_VECTOR_MACROS` over the elements. -/
def printElementsInto (len : Nat) :
    List (List UInt8) → List UInt8 → Traced CallerRegion (List UInt8)
  | [], buffer => pure buffer
  | text :: texts, buffer => do
      let buffer ← snprintfInto buffer len text
      let buffer ← snprintfInto buffer len (textBytes ",")
      let buffer ← printLastInto len texts buffer
      printElementsInto len texts buffer

/-- `EXPAND_PRINT_VECTOR_MACROS` on the elements, each as its conversion prints it. -/
def printVectorInto (buffer : List UInt8) (len : Nat) (texts : List (List UInt8)) :
    Traced CallerRegion (List UInt8) := do
  let buffer ← snprintfInto buffer len (textBytes "\x7b")
  let buffer ← printElementsInto len texts buffer
  snprintfInto buffer len (textBytes "\x7d")

/-- What a case of `omnmmsgFieldPayload_getAsString` prints, and with which function. -/
inductive Printed where
  | bounded (text : List UInt8)
  | unbounded (text : List UInt8)
  | elements (texts : List (List UInt8))

def Printed.into (buffer : List UInt8) (len : Nat) :
    Printed → Traced CallerRegion (List UInt8)
  | .bounded text => snprintfInto buffer len text
  | .unbounded text => sprintfInto buffer text
  | .elements texts => printVectorInto buffer len texts

/-- The text of an `OPAQUE` field. -/
def opaqueText (size : Nat) : List UInt8 :=
  textBytes "\x7b" ++ printInteger size ++ textBytes " bytes\x7d"

section

variable [FieldTypeTags] [MamaLibrary] [FieldPrinting]

/-- The `switch` of `omnmmsgFieldPayload_getAsString`, with the texts of the elements that
`mamaMsgField_getVector` gives. -/
def fieldPrinted (msg : OmnmPayloadImpl) (field : OmnmFieldImpl) (texts : List (List UInt8)) :
    Traced Region (MamaStatus × Printed) :=
  let scalar (type : ScalarType) (get : ScalarGetter) : Traced Region (MamaStatus × Printed) := do
    let (_, result) ← get msg field
    pure (.ok, .bounded (printScalar type (result.getD 0)))
  let vector (type : MamaFieldType) : Traced Region (MamaStatus × Printed) :=
    let status := FieldPrinting.mamaMsgField_getVector type msg field
    if status ≠ .ok then
      pure (status, .bounded (textBytes "\x7bfailed with status: " ++
        printInteger (FieldPrinting.statusNumber status) ++ textBytes "\x7d"))
    else pure (.ok, .elements texts)
  match fieldTypeOf field.mFieldType with
  | some .bool => scalar .bool omnmmsgFieldPayload_getBool
  | some .char => scalar .char omnmmsgFieldPayload_getChar
  | some .i8 => scalar .i8 omnmmsgFieldPayload_getI8
  | some .u8 => scalar .u8 omnmmsgFieldPayload_getU8
  | some .i16 => scalar .i16 omnmmsgFieldPayload_getI16
  | some .u16 => scalar .u16 omnmmsgFieldPayload_getU16
  | some .i32 => scalar .i32 omnmmsgFieldPayload_getI32
  | some .u32 => scalar .u32 omnmmsgFieldPayload_getU32
  | some .i64 => scalar .i64 omnmmsgFieldPayload_getI64
  | some .u64 => scalar .u64 omnmmsgFieldPayload_getU64
  | some .f32 => scalar .f32 omnmmsgFieldPayload_getF32
  | some .f64 => scalar .f64 omnmmsgFieldPayload_getF64
  | some .string => do
      let (_, result) ← omnmmsgFieldPayload_getString msg field
      let text ← loadStringArgument msg (result.getD .null)
      pure (.ok, .bounded (text.getD CString.empty).bytes)
  | some .time => do
      let (_, result) ← omnmmsgFieldPayload_getDateTime msg field
      let (status, text) := FieldPrinting.mamaDateTime_getAsString result
      pure (status, .bounded text)
  | some .price => do
      let (_, result) ← omnmmsgFieldPayload_getPrice msg field
      let (status, text) := FieldPrinting.mamaPrice_getAsString result
      pure (status, .bounded text)
  | some .vectorString => vector .vectorString
  | some .vectorU8 => vector .vectorU8
  | some .vectorU16 => vector .vectorU16
  | some .vectorU32 => vector .vectorU32
  | some .vectorU64 => vector .vectorU64
  | some .vectorBool => vector .vectorBool
  | some .vectorChar => vector .vectorChar
  | some .vectorI8 => vector .vectorI8
  | some .vectorI16 => vector .vectorI16
  | some .vectorI32 => vector .vectorI32
  | some .vectorI64 => vector .vectorI64
  | some .vectorF64 => vector .vectorF64
  | some .vectorF32 => vector .vectorF32
  | some .opaqueField => do
      let (status, result) ← omnmmsgFieldPayload_getOpaque msg field
      pure (status, .unbounded (opaqueText (result.getD (.null, 0)).2))
  | some .msg | some .vectorMsg | some .vectorTime | some .vectorPrice =>
      pure (.ok, .bounded (textBytes "\x7b...\x7d"))
  | some .quantity | some .collection | some .unknown | none =>
      pure (.ok, .bounded (textBytes "Unknown"))

/-- `omnmmsgFieldPayload_getAsString` on a buffer. -/
def omnmmsgFieldPayload_getAsStringInto (msg : OmnmPayloadImpl) (field : OmnmFieldImpl)
    (texts : List (List UInt8)) (buffer : List UInt8) (len : Nat) :
    Traced CallerRegion (MamaStatus × List UInt8) :=
  if len = 0 then pure (.invalidArg, buffer)
  else do
    let (status, printed) ← (fieldPrinted msg field texts).relabel fun _ => none
    let buffer ← printed.into buffer len
    pure (status, buffer)

/-- `omnmmsgPayload_getFieldAsString` on a buffer. -/
def omnmmsgPayload_getFieldAsStringInto (msg : OmnmPayloadImpl) (name : Option CString)
    (fid : UInt16) (texts : List (List UInt8)) (buffer : List UInt8) (len : Nat) :
    Traced CallerRegion (MamaStatus × List UInt8) := do
  let (status, field) ← (msg.getField name fid).relabel fun _ => none
  if status ≠ .ok then pure (status, buffer)
  else omnmmsgFieldPayload_getAsStringInto msg (field.getD OmnmFieldImpl.zeroed) texts buffer len

/-! ## The scratch buffer -/

omit [FieldTypeTags] [MamaLibrary] in
/-- `sprintf` into the scratch buffer, which it must not leave. -/
def sprintfWithin (mBuffer : List UInt8) (charIdx : Nat) (text : List UInt8) :
    Traced Region (List UInt8 × Int) :=
  if mBuffer.length < charIdx + text.length + 1 then Traced.fault
  else sprintf mBuffer charIdx text

/-- The loop of `omnmmsgPayload_toString`, and the closing brace behind it. -/
def toStringWithinFrom (scratch : Allocator) (msg : OmnmPayloadImpl) :
    Nat → OmnmIterImpl → List UInt8 → Nat → Traced Region (Bool × List UInt8)
  | 0, _, _, _ => Traced.fault
  | rounds + 1, iter, mBuffer, charIdx => do
      let (field, iter) ← omnmmsgPayloadIter_next iter msg
      match field with
      | none => do
          let (mBuffer, _) ← sprintfWithin mBuffer charIdx (textBytes "\x7d")
          pure (true, mBuffer)
      | some field => do
          let (_, part) ← omnmmsgFieldPayload_getAsString msg field sizeofPart
          let part := part.getD CString.empty
          let written ← omnmmsgFieldPayload_getName msg field
          let fname ← loadStringArgument msg (written.getD .null)
          let bytesInString := strlenEx fname + part.bytes.length + 10
          let allocation := allocateBufferMemory scratch mBuffer (bytesInString + charIdx)
          if allocation.succeeded = false then pure (false, mBuffer)
          else do
            let text := printField fname field.mFid part
            let (mBuffer, written) ← sprintfWithin allocation.buffer charIdx text
            let charIdx := advanceIndex charIdx written
            if omnmmsgPayloadIter_hasNext iter msg then do
              let (mBuffer, written) ← sprintfWithin mBuffer charIdx (textBytes ",")
              toStringWithinFrom scratch msg rounds iter mBuffer (advanceIndex charIdx written)
            else toStringWithinFrom scratch msg rounds iter mBuffer charIdx

/-- `omnmmsgPayload_toString`. -/
def omnmmsgPayload_toStringWithin (scratch : Allocator) (msg : OmnmPayloadImpl) :
    Traced Region (Option CString × OmnmPayloadImpl) := do
  let _ ← omnmmsgPayload_getNumFields msg
  let iter ← omnmmsgPayloadIterImpl_init msg
  let allocation := allocateBufferMemory scratch msg.mBuffer sizeofPart
  if allocation.succeeded = false then pure (none, msg)
  else do
    let (mBuffer, written) ← sprintfWithin allocation.buffer 0 (textBytes "\x7b")
    let (completed, mBuffer) ←
      toStringWithinFrom scratch msg (iterationBound msg) iter mBuffer (advanceIndex 0 written)
    pure (if completed then some (CString.ofBytes mBuffer) else none, { msg with mBuffer })

end

/-! ### The bounded prints are the prints -/

section

variable [FieldPrinting] {mBuffer : List UInt8} {charIdx : Nat}

theorem sprintf_eq_of_within {text : List UInt8} {printed : List UInt8 × Int}
    (result : (sprintfWithin mBuffer charIdx text).result = some printed) :
    sprintf mBuffer charIdx text = sprintfWithin mBuffer charIdx text := by
  rw [sprintfWithin] at result ⊢
  split at result
  · cases result
  · rename_i room
    rw [if_neg room]

variable [FieldTypeTags] [MamaLibrary] {scratch : Allocator} {msg : OmnmPayloadImpl}

/-- A loop whose prints stay in the buffer is the loop of `omnmmsgPayload_toString`. -/
theorem toStringFrom_eq_of_within {rounds : Nat} {iter : OmnmIterImpl}
    {printed : Bool × List UInt8}
    (result : (toStringWithinFrom scratch msg rounds iter mBuffer charIdx).result = some printed) :
    toStringFrom scratch msg rounds iter mBuffer charIdx =
      toStringWithinFrom scratch msg rounds iter mBuffer charIdx := by
  induction rounds generalizing iter mBuffer charIdx with
  | zero => cases result
  | succ rounds ih =>
      rw [toStringWithinFrom] at result ⊢
      rw [toStringFrom]
      refine Traced.bind_eq_of_returned result (fun _ => rfl) fun next result => ?_
      obtain ⟨field, iter⟩ := next
      cases field with
      | none => exact Traced.bind_eq_of_returned result sprintf_eq_of_within fun _ _ => rfl
      | some field =>
          refine Traced.bind_eq_of_returned result (fun _ => rfl) fun shown result => ?_
          refine Traced.bind_eq_of_returned result (fun _ => rfl) fun written result => ?_
          refine Traced.bind_eq_of_returned result (fun _ => rfl) fun fname result => ?_
          dsimp only at result ⊢
          split
          · rfl
          · rename_i succeeded
            rw [if_neg succeeded] at result
            refine Traced.bind_eq_of_returned result sprintf_eq_of_within fun item result => ?_
            split
            · rename_i more
              rw [if_pos more] at result
              exact Traced.bind_eq_of_returned result sprintf_eq_of_within fun _ => ih
            · rename_i last
              rw [if_neg last] at result
              exact ih result

/-- A call whose prints stay in the buffer is `omnmmsgPayload_toString`. -/
theorem toString_eq_of_within {printed : Option CString × OmnmPayloadImpl}
    (result : (omnmmsgPayload_toStringWithin scratch msg).result = some printed) :
    omnmmsgPayload_toString scratch msg = omnmmsgPayload_toStringWithin scratch msg := by
  rw [omnmmsgPayload_toStringWithin] at result ⊢
  rw [omnmmsgPayload_toString]
  refine Traced.bind_eq_of_returned result (fun _ => rfl) fun count result => ?_
  refine Traced.bind_eq_of_returned result (fun _ => rfl) fun iter result => ?_
  dsimp only at result ⊢
  split
  · rfl
  · rename_i succeeded
    rw [if_neg succeeded] at result
    refine Traced.bind_eq_of_returned result sprintf_eq_of_within fun brace result => ?_
    exact Traced.bind_eq_of_returned result toStringFrom_eq_of_within fun _ _ => rfl

end

/-! ## What is left in the buffer -/

/-- The string that a case leaves in a buffer that is long enough. -/
def Printed.string (len : Nat) : Printed → CString
  | .bounded text => snprintf len text
  | .unbounded text => CString.ofBytes text
  | .elements _ => snprintf len (textBytes "\x7d")

/-- `omnmmsgFieldPayload_getAsString` makes the accesses of its cases, and gives the string that
they print. -/
theorem getAsString_eq [FieldTypeTags] [MamaLibrary] [FieldPrinting] (msg : OmnmPayloadImpl)
    (field : OmnmFieldImpl) (texts : List (List UInt8)) {len : Nat} (positive : len ≠ 0) :
    omnmmsgFieldPayload_getAsString msg field len =
      (fun printed : MamaStatus × Printed => (printed.1, some (printed.2.string len))) <$>
        fieldPrinted msg field texts := by
  rw [omnmmsgFieldPayload_getAsString, if_neg positive, fieldPrinted]
  have vector : ∀ type : MamaFieldType,
      (if FieldPrinting.mamaMsgField_getVector type msg field ≠ .ok then
        (pure (FieldPrinting.mamaMsgField_getVector type msg field, some (snprintf len
          (textBytes "\x7bfailed with status: " ++ printInteger (FieldPrinting.statusNumber
            (FieldPrinting.mamaMsgField_getVector type msg field)) ++ textBytes "\x7d"))) :
              Traced Region (MamaStatus × Option CString))
        else pure (.ok, some (snprintf len (textBytes "\x7d")))) =
      (fun printed : MamaStatus × Printed => (printed.1, some (printed.2.string len))) <$>
        (if FieldPrinting.mamaMsgField_getVector type msg field ≠ .ok then
          (pure (FieldPrinting.mamaMsgField_getVector type msg field, .bounded
            (textBytes "\x7bfailed with status: " ++ printInteger (FieldPrinting.statusNumber
              (FieldPrinting.mamaMsgField_getVector type msg field)) ++ textBytes "\x7d")) :
                Traced Region (MamaStatus × Printed))
          else pure (.ok, .elements texts)) := by
    intro type
    split <;> rfl
  cases fieldTypeOf field.mFieldType with
  | none => rfl
  | some name =>
      cases name <;>
        simp only [vector, map_eq_pure_bind, bind_assoc, pure_bind, Printed.string, opaqueText]

/-- What stands behind a terminator is not read. -/
theorem ofBytes_append_nul (text rest : List UInt8) :
    CString.ofBytes (text ++ 0 :: rest) = CString.ofBytes text := by
  apply CString.ext
  show (text ++ 0 :: rest).takeWhile _ = text.takeWhile _
  rw [List.takeWhile_append]
  split
  · rename_i all
    rw [List.takeWhile_cons_of_neg (by simp), List.append_nil]
    exact ((List.takeWhile_prefix _).eq_of_length all).symm
  · rfl

/-- A text that fits a buffer stands at its start, with its terminator. -/
theorem overwrite_start {buffer text : List UInt8} (room : text.length + 1 ≤ buffer.length) :
    overwrite buffer 0 (text ++ [0]) = text ++ 0 :: buffer.drop (text.length + 1) := by
  rw [overwrite_of_le (by simpa using room), List.take_zero, List.nil_append, Nat.zero_add,
    List.length_append, List.append_assoc]
  rfl

section

variable {len : Nat} {buffer text : List UInt8} {printed : Printed}

theorem length_bounded (positive : len ≠ 0) : (text.take (len - 1)).length + 1 ≤ len := by
  rw [List.length_take]
  omega

/-- A print that writes in the caller's buffer only. -/
def StaysIn (len : Nat) (print : List UInt8 → Traced CallerRegion (List UInt8)) : Prop :=
  ∀ buffer, Traced.Every (Access.InCaller len) (print buffer) ∧
    ∃ after, (print buffer).result = some after ∧ after.length = buffer.length

theorem staysIn_pure : StaysIn len pure :=
  fun buffer => ⟨Traced.every_pure _, buffer, rfl, rfl⟩

theorem StaysIn.bind {first second : List UInt8 → Traced CallerRegion (List UInt8)}
    (staysFirst : StaysIn len first) (staysSecond : StaysIn len second) :
    StaysIn len fun buffer => first buffer >>= second := by
  intro buffer
  obtain ⟨writes, middle, result, length⟩ := staysFirst buffer
  obtain ⟨later, after, result', length'⟩ := staysSecond middle
  refine ⟨(Traced.every_bind ..).mpr ⟨writes, ?_⟩, after, ?_, length'.trans length⟩
  · rintro value returned
    cases result.symm.trans returned
    exact later
  · rw [Traced.result_bind, result]
    exact result'

theorem staysIn_snprintfInto (positive : len ≠ 0) (text : List UInt8) :
    StaysIn len fun buffer => snprintfInto buffer len text := by
  have room := @length_bounded len text positive
  refine fun buffer => ⟨every_store.mpr ?_, _, rfl, length_overwrite ..⟩
  simpa [Access.InCaller] using room

/-- The loop over the elements stays in the buffer. -/
theorem staysIn_printElementsInto (positive : len ≠ 0) (texts : List (List UInt8)) :
    StaysIn len (printElementsInto len texts) := by
  induction texts with
  | nil => exact staysIn_pure
  | cons text texts ih =>
      have prints := staysIn_snprintfInto positive
      have last : StaysIn len (printLastInto len texts) := by
        intro buffer
        rw [printLastInto]
        split
        · exact prints [8] buffer
        · exact staysIn_pure buffer
      exact (prints text).bind ((prints (textBytes ",")).bind (last.bind ih))

/-- The text fits a buffer, or is cut. -/
def Printed.Fits (len : Nat) : Printed → Prop
  | .bounded _ | .elements _ => True
  | .unbounded text => text.length < len

/-- What fits is shorter than the buffer. -/
theorem Printed.Fits.length_string (fits : printed.Fits len) (positive : len ≠ 0) :
    (printed.string len).bytes.length < len := by
  have shorter : ∀ text : List UInt8, (CString.ofBytes text).bytes.length ≤ text.length :=
    fun text => (List.takeWhile_prefix _).length_le
  have cut : ∀ text : List UInt8, (snprintf len text).bytes.length < len :=
    fun text => Nat.lt_of_le_of_lt (shorter _) (length_bounded positive)
  cases printed with
  | bounded text => exact cut text
  | elements texts => exact cut _
  | unbounded text => exact Nat.lt_of_le_of_lt (shorter text) fits

/-- What fits is left in the buffer, as a string. -/
theorem Printed.Fits.into (fits : printed.Fits len) (positive : len ≠ 0)
    (whole : len ≤ buffer.length) :
    Traced.Every (Access.InCaller len) (printed.into buffer len) ∧
      ∃ after, (printed.into buffer len).result = some after ∧
        CString.ofBytes after = printed.string len ∧ 0 ∈ after.take len := by
  -- the last print decides what the buffer reads as
  have last : ∀ (buffer text : List UInt8), len ≤ buffer.length → text.length + 1 ≤ len →
      CString.ofBytes (overwrite buffer 0 (text ++ [0])) = CString.ofBytes text ∧
        0 ∈ (overwrite buffer 0 (text ++ [0])).take len := by
    intro buffer text whole room
    rw [overwrite_start (Nat.le_trans room whole)]
    refine ⟨ofBytes_append_nul .., ?_⟩
    obtain ⟨more, rfl⟩ := Nat.exists_eq_add_of_le room
    rw [List.append_cons, ← List.length_singleton (a := (0 : UInt8)), ← List.length_append,
      List.take_append, List.take_of_length_le (Nat.le_add_right ..)]
    simp
  cases printed with
  | bounded text =>
      exact ⟨(staysIn_snprintfInto positive text buffer).1, _, rfl,
        last _ _ whole (length_bounded positive)⟩
  | unbounded text =>
      refine ⟨every_store.mpr ?_, _, rfl, last _ _ whole fits⟩
      simpa [Access.InCaller] using Nat.succ_le_of_lt fits
  | elements texts =>
      have opened := (staysIn_snprintfInto positive (textBytes "\x7b")).bind
        (staysIn_printElementsInto positive texts)
      obtain ⟨-, middle, result, length⟩ := opened buffer
      refine ⟨(StaysIn.bind (staysIn_snprintfInto positive (textBytes "\x7b"))
        ((staysIn_printElementsInto positive texts).bind
          (staysIn_snprintfInto positive (textBytes "\x7d"))) buffer).1,
        overwrite middle 0 ((textBytes "\x7d").take (len - 1) ++ [0]), ?_,
        last _ _ (whole.trans_eq length.symm) (length_bounded positive)⟩
      show (printVectorInto buffer len texts).result = _
      rw [printVectorInto, ← bind_assoc, Traced.result_bind, result]
      rfl

/-- Only what fits is written in the buffer. -/
theorem Printed.fits_of_every (every : Traced.Every (Access.InCaller len) (printed.into buffer len)) :
    printed.Fits len := by
  cases printed with
  | bounded text => trivial
  | elements texts => trivial
  | unbounded text =>
      have inside : 0 + (text ++ [0]).length ≤ len := every_store.mp every
      rw [List.length_append, List.length_singleton, Nat.zero_add] at inside
      exact inside

/-- Only the text of an `OPAQUE` field is not cut. -/
theorem fits_of_fieldPrinted [FieldTypeTags] [MamaLibrary] [FieldPrinting] {msg : OmnmPayloadImpl}
    {field : OmnmFieldImpl} {texts : List (List UInt8)} {status : MamaStatus}
    (other : fieldTypeOf field.mFieldType ≠ some .opaqueField)
    (result : (fieldPrinted msg field texts).result = some (status, printed)) :
    printed.Fits len := by
  rw [fieldPrinted] at result
  have vector : ∀ type : MamaFieldType,
      (if FieldPrinting.mamaMsgField_getVector type msg field ≠ .ok then
        (pure (FieldPrinting.mamaMsgField_getVector type msg field, .bounded
          (textBytes "\x7bfailed with status: " ++ printInteger (FieldPrinting.statusNumber
            (FieldPrinting.mamaMsgField_getVector type msg field)) ++ textBytes "\x7d")) :
              Traced Region (MamaStatus × Printed))
        else pure (.ok, .elements texts)).result = some (status, printed) → printed.Fits len := by
    intro type given
    split at given <;> cases given <;> trivial
  have read : ∀ {α : Type} (reads : Traced Region α) (status' : α → MamaStatus)
      (text : α → List UInt8), (reads >>= fun value =>
        pure (status' value, Printed.bounded (text value))).result = some (status, printed) →
      printed.Fits len := by
    intro α reads status' text given
    obtain ⟨value, -, returned⟩ := Traced.result_bind_eq_some.mp given
    cases returned
    trivial
  cases named : fieldTypeOf field.mFieldType with
  | none =>
      rw [named] at result
      cases result
      trivial
  | some name =>
      rw [named] at result other
      cases name with
      | opaqueField => exact absurd rfl other
      | bool | char | i8 | u8 | i16 | u16 | i32 | u32 | i64 | u64 | f32 | f64 | time | price =>
          exact read _ _ _ result
      | string =>
          obtain ⟨⟨answer, pointer⟩, -, loaded⟩ := Traced.result_bind_eq_some.mp result
          exact read _ _ _ loaded
      | vectorString | vectorU8 | vectorU16 | vectorU32 | vectorU64 | vectorBool | vectorChar
      | vectorI8 | vectorI16 | vectorI32 | vectorI64 | vectorF64 | vectorF32 =>
          exact vector _ result
      | msg | vectorMsg | vectorTime | vectorPrice | quantity | collection | unknown =>
          cases result
          trivial

end

end Omnm
