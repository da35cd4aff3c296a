import Omnm.Payload.Impl

/-!
# The field iterator

The iterator walks the payload buffer from the end of the header to the tail.
It keeps the position of the next field and the field it yielded last, whose
pointers go into the payload buffer. Its only check against the tail is made
before a field is read (`omnmmsgPayloadIter_hasNext`).

`omnmmsgPayloadIter_begin` reads the first field once to fill the iterator and
then rewinds, which `mIndex` being 0 stands for. `mIndex` is an `int`: behind
`begin` it counts at most one field for four bytes (`FieldRead.counted`), so it
stays one (`FieldRead.mIndex_lt`).
-/

set_option autoImplicit false

namespace Omnm

open OmnmPayloadImpl

/-- A pointer held by a field: NULL, an offset into the payload buffer, or an
address outside it. -/
inductive BufferPtr where
  | null
  | offset (value : Nat)
  | stray
  deriving DecidableEq, Repr

/-- The part of `omnmFieldImpl` that locates a field. -/
structure OmnmFieldImpl where
  mFieldType : UInt8
  mFid : UInt16
  mName : BufferPtr
  mSize : Nat
  mData : BufferPtr
  deriving DecidableEq, Repr

/-- A field zeroed by `memset`. -/
def OmnmFieldImpl.zeroed : OmnmFieldImpl := ⟨0, 0, .null, 0, .null⟩

/-- `omnmIterImpl`, with its position as an offset into the payload buffer. -/
structure OmnmIterImpl where
  mField : OmnmFieldImpl
  mBufferPosition : Nat
  mIndex : Nat
  deriving DecidableEq, Repr

/-- `omnmmsgPayloadIter_hasNext`. -/
def omnmmsgPayloadIter_hasNext (iter : OmnmIterImpl) (msg : OmnmPayloadImpl) : Bool :=
  decide (iter.mBufferPosition < msg.mPayloadBufferTail)

theorem hasNext_of_lt {iter : OmnmIterImpl} {msg : OmnmPayloadImpl}
    (inside : iter.mBufferPosition < msg.mPayloadBufferTail) :
    ¬ omnmmsgPayloadIter_hasNext iter msg = false := by
  simpa [omnmmsgPayloadIter_hasNext] using inside

variable [FieldTypeTags]

/-- The data part of `omnmmsgPayloadIter_next`: where the data starts, its size,
and the position the iterator is left at. For a type the `switch` does not list
the data pointer keeps its old value. -/
def locateData (memory : List UInt8) (previous : BufferPtr) (type : UInt8) (position : Nat) :
    Traced Region (BufferPtr × Nat × Nat) :=
  match dataLayout type with
  | .fixed width => pure (.offset position, width, position)
  | .cString => do
      let length ← strlen .message memory position
      pure (.offset position, length + 1, position)
  | .sized => do
      let size ← loadInteger .message memory position 4
      pure (.offset (position + 4), size, position + 4)
  | .unlisted => pure (previous, 0, position)

/-- Where `locateData` found data, for each layout. -/
inductive DataLocated (memory : List UInt8) (previous : BufferPtr) (type : UInt8)
    (position : Nat) : BufferPtr → Nat → Nat → Prop where
  | fixed {width : Nat} (layout : dataLayout type = .fixed width) :
      DataLocated memory previous type position (.offset position) width position
  | cString {length : Nat} (layout : dataLayout type = .cString)
      (scanned : (strlen Region.message memory position).result = some length) :
      DataLocated memory previous type position (.offset position) (length + 1) position
  | sized {size : Nat} (layout : dataLayout type = .sized)
      (loaded : (loadInteger Region.message memory position 4).result = some size) :
      DataLocated memory previous type position (.offset (position + 4)) size (position + 4)
  | unlisted (layout : dataLayout type = .unlisted) :
      DataLocated memory previous type position previous 0 position

theorem dataLocated_of_result {memory : List UInt8} {previous data : BufferPtr} {type : UInt8}
    {position size behind : Nat}
    (result : (locateData memory previous type position).result = some (data, size, behind)) :
    DataLocated memory previous type position data size behind := by
  cases layout : dataLayout type with
  | fixed width =>
      rw [locateData, layout] at result
      cases result
      exact .fixed layout
  | cString =>
      rw [locateData, layout] at result
      obtain ⟨length, scanned, returned⟩ := Traced.result_bind_eq_some.mp result
      cases returned
      exact .cString layout scanned
  | sized =>
      rw [locateData, layout] at result
      obtain ⟨loadedSize, loaded, returned⟩ := Traced.result_bind_eq_some.mp result
      cases returned
      exact .sized layout loaded
  | unlisted =>
      rw [locateData, layout] at result
      cases result
      exact .unlisted layout

/-- The name part of `omnmmsgPayloadIter_next`: the name, NULL when it is empty,
and the position behind its terminator. -/
def locateName (memory : List UInt8) (position : Nat) : Traced Region (BufferPtr × Nat) := do
  let first ← loadInteger .message memory position 1
  if first ≠ 0 then
    let length ← strlen .message memory position
    pure (.offset position, position + length + 1)
  else
    pure (.null, position + 1)

omit [FieldTypeTags] in
/-- A name that was located was scanned, or starts with its terminator. -/
theorem locateName_cases {memory : List UInt8} {position behind : Nat} {name : BufferPtr}
    (result : (locateName memory position).result = some (name, behind)) :
    (∃ length, (strlen Region.message memory position).result = some length ∧
        name = .offset position ∧ behind = position + length + 1) ∨
      ((loadInteger Region.message memory position 1).result = some 0 ∧ name = .null ∧
        behind = position + 1) := by
  obtain ⟨first, loaded, continued⟩ := Traced.result_bind_eq_some.mp result
  by_cases named : first ≠ 0
  · rw [if_pos named] at continued
    obtain ⟨length, scanned, returned⟩ := Traced.result_bind_eq_some.mp continued
    cases returned
    exact .inl ⟨length, scanned, rfl, rfl⟩
  · rw [if_neg named] at continued
    cases continued
    exact .inr ⟨not_not.mp named ▸ loaded, rfl, rfl⟩

/-- `omnmmsgPayloadIter_next`: the field, or NULL at the end, and the iterator. -/
def omnmmsgPayloadIter_next (iter : OmnmIterImpl) (msg : OmnmPayloadImpl) :
    Traced Region (Option OmnmFieldImpl × OmnmIterImpl) :=
  if omnmmsgPayloadIter_hasNext iter msg = false then pure (none, iter)
  else do
    let memory := msg.mPayloadBuffer
    let start := iter.mBufferPosition
    let type ← loadInteger .message memory start 1
    let fid ← loadInteger .message memory (start + 1) 2
    let (name, position) ← locateName memory (start + 3)
    let (data, size, position) ←
      locateData memory iter.mField.mData (UInt8.ofNat type) position
    let field : OmnmFieldImpl := ⟨UInt8.ofNat type, UInt16.ofNat fid, name, size, data⟩
    let position := if iter.mIndex = 0 then msg.getHeaderSize else position + size
    pure (some field, ⟨field, position, iter.mIndex + 1⟩)

theorem next_of_le {iter : OmnmIterImpl} {msg : OmnmPayloadImpl}
    (ended : msg.mPayloadBufferTail ≤ iter.mBufferPosition) :
    omnmmsgPayloadIter_next iter msg = pure (none, iter) := by
  rw [omnmmsgPayloadIter_next, if_pos (by simpa [omnmmsgPayloadIter_hasNext] using ended)]

/-- A call of `omnmmsgPayloadIter_next` read a field. -/
structure FieldRead (msg : OmnmPayloadImpl) (iter : OmnmIterImpl) (field : OmnmFieldImpl)
    (next : OmnmIterImpl) : Prop where
  inside : iter.mBufferPosition < msg.mPayloadBufferTail
  type : ∃ type, (loadInteger Region.message msg.mPayloadBuffer iter.mBufferPosition 1).result =
    some type ∧ field.mFieldType = UInt8.ofNat type
  fid : ∃ fid, (loadInteger Region.message msg.mPayloadBuffer (iter.mBufferPosition + 1) 2).result =
    some fid ∧ field.mFid = UInt16.ofNat fid
  located : ∃ behindName behind,
    (locateName msg.mPayloadBuffer (iter.mBufferPosition + 3)).result =
      some (field.mName, behindName) ∧
    (locateData msg.mPayloadBuffer iter.mField.mData field.mFieldType behindName).result =
      some (field.mData, field.mSize, behind) ∧
    next.mBufferPosition = if iter.mIndex = 0 then msg.getHeaderSize else behind + field.mSize
  index : next.mIndex = iter.mIndex + 1

/-- A call of `omnmmsgPayloadIter_next` that returns is at the end, or read a field. -/
theorem next_cases {iter next : OmnmIterImpl} {msg : OmnmPayloadImpl} {found : Option OmnmFieldImpl}
    (yielded : (omnmmsgPayloadIter_next iter msg).result = some (found, next)) :
    (found = none ∧ next = iter ∧ msg.mPayloadBufferTail ≤ iter.mBufferPosition) ∨
      ∃ field, found = some field ∧ FieldRead msg iter field next := by
  by_cases inside : iter.mBufferPosition < msg.mPayloadBufferTail
  · rw [omnmmsgPayloadIter_next, if_neg (hasNext_of_lt inside)] at yielded
    obtain ⟨type, typeLoaded, yielded⟩ := Traced.result_bind_eq_some.mp yielded
    obtain ⟨fid, fidLoaded, yielded⟩ := Traced.result_bind_eq_some.mp yielded
    obtain ⟨⟨name, behindName⟩, nameLocated, yielded⟩ := Traced.result_bind_eq_some.mp yielded
    obtain ⟨⟨data, size, behind⟩, dataLocated, yielded⟩ := Traced.result_bind_eq_some.mp yielded
    cases yielded
    exact .inr ⟨_, rfl, inside, ⟨type, typeLoaded, rfl⟩, ⟨fid, fidLoaded, rfl⟩,
      ⟨behindName, behind, nameLocated, dataLocated, rfl⟩, rfl⟩
  · rw [next_of_le (Nat.not_lt.mp inside)] at yielded
    cases yielded
    exact .inl ⟨rfl, rfl, Nat.not_lt.mp inside⟩

theorem fieldRead_of_next {iter next : OmnmIterImpl} {msg : OmnmPayloadImpl} {field : OmnmFieldImpl}
    (yielded : (omnmmsgPayloadIter_next iter msg).result = some (some field, next)) :
    FieldRead msg iter field next := by
  rcases next_cases yielded with ⟨none, -⟩ | ⟨other, same, read⟩
  · cases none
  · cases same
    exact read

omit [FieldTypeTags] in
theorem lt_of_locateName {memory : List UInt8} {position behind : Nat} {name : BufferPtr}
    (located : (locateName memory position).result = some (name, behind)) : position < behind := by
  rcases locateName_cases located with ⟨length, -, -, rfl⟩ | ⟨-, -, rfl⟩
  · exact Nat.lt_succ_of_le (Nat.le_add_right ..)
  · exact Nat.lt_succ_self position

theorem le_of_locateData {memory : List UInt8} {previous data : BufferPtr} {type : UInt8}
    {position size behind : Nat}
    (located : (locateData memory previous type position).result = some (data, size, behind)) :
    position ≤ behind := by
  cases dataLocated_of_result located with
  | sized => exact Nat.le_add_right ..
  | fixed | cString | unlisted => exact Nat.le_refl _

section

variable {iter next : OmnmIterImpl} {msg : OmnmPayloadImpl} {field : OmnmFieldImpl}

/-- A call that reads a field goes forward, unless it is the first one. -/
theorem FieldRead.advances (read : FieldRead msg iter field next) (started : iter.mIndex ≠ 0) :
    iter.mBufferPosition + 4 ≤ next.mBufferPosition := by
  obtain ⟨behindName, behind, name, data, position⟩ := read.located
  have afterName := lt_of_locateName name
  have afterData := le_of_locateData data
  rw [position, if_neg started]
  omega

omit [FieldTypeTags] in
/-- The index counts at most one field for four bytes in front of the iterator. -/
def OmnmIterImpl.Counted (iter : OmnmIterImpl) : Prop := 4 * iter.mIndex ≤ iter.mBufferPosition + 4

theorem FieldRead.counted (read : FieldRead msg iter field next) (counted : iter.Counted) :
    next.Counted := by
  rw [OmnmIterImpl.Counted] at counted ⊢
  have index := read.index
  by_cases first : iter.mIndex = 0
  · omega
  · have forward := read.advances first
    omega

/-- The index stays an `int`. -/
theorem FieldRead.mIndex_lt (read : FieldRead msg iter field next) (counted : iter.Counted)
    (small : msg.mPayloadBufferTail < 2 ^ 32) : next.mIndex < 2 ^ 31 := by
  have inside := read.inside
  have index := read.index
  rw [OmnmIterImpl.Counted] at counted
  omega

end

/-- The iterator yields nothing at the end only. -/
theorem ended_of_next_none {iter next : OmnmIterImpl} {msg : OmnmPayloadImpl}
    (yielded : (omnmmsgPayloadIter_next iter msg).result = some (none, next)) :
    msg.mPayloadBufferTail ≤ iter.mBufferPosition ∧ next = iter := by
  rcases next_cases yielded with ⟨-, same, ended⟩ | ⟨field, found, -⟩
  · exact ⟨ended, same⟩
  · cases found

/-- `omnmmsgPayloadIter_begin`. -/
def omnmmsgPayloadIter_begin (iter : OmnmIterImpl) (msg : OmnmPayloadImpl) :
    Traced Region (Option OmnmFieldImpl × OmnmIterImpl) :=
  omnmmsgPayloadIter_next { iter with mIndex := 0, mBufferPosition := msg.getHeaderSize } msg

/-- `omnmmsgPayloadIterImpl_init`, on an iterator zeroed first. -/
def omnmmsgPayloadIterImpl_init (msg : OmnmPayloadImpl) : Traced Region OmnmIterImpl := do
  let (_, iter) ← omnmmsgPayloadIter_begin ⟨OmnmFieldImpl.zeroed, 0, 0⟩ msg
  pure iter

/-- The loop that calls `omnmmsgPayloadIter_next` until it gives NULL: the fields
it was given and the iterator at the end. A loop that needs more rounds than
the bound has no result. -/
def nextUntilNull (msg : OmnmPayloadImpl) :
    Nat → OmnmIterImpl → Traced Region (List OmnmFieldImpl × OmnmIterImpl)
  | 0, _ => Traced.fault
  | rounds + 1, iter => do
      let (field, iter) ← omnmmsgPayloadIter_next iter msg
      match field with
      | none => pure ([], iter)
      | some field => do
          let (fields, iter) ← nextUntilNull msg rounds iter
          pure (field :: fields, iter)

/-- A loop that is given NULL ends. -/
theorem nextUntilNull_of_null {msg : OmnmPayloadImpl} {iter last : OmnmIterImpl}
    (yielded : (omnmmsgPayloadIter_next iter msg).result = some (none, last)) (rounds : Nat) :
    (nextUntilNull msg (rounds + 1) iter).result = some ([], last) := by
  rw [nextUntilNull, Traced.result_bind, yielded]
  rfl

/-- A loop that is given a field goes on behind it. -/
theorem nextUntilNull_of_field {msg : OmnmPayloadImpl} {rounds : Nat} {iter next last : OmnmIterImpl}
    {field : OmnmFieldImpl} {fields : List OmnmFieldImpl}
    (yielded : (omnmmsgPayloadIter_next iter msg).result = some (some field, next))
    (looped : (nextUntilNull msg rounds next).result = some (fields, last)) :
    (nextUntilNull msg (rounds + 1) iter).result = some (field :: fields, last) := by
  rw [nextUntilNull, Traced.result_bind, yielded, Option.bind_some]
  dsimp only
  rw [Traced.result_bind, looped, Option.bind_some, Traced.result_pure]

/-- A loop that returned was given NULL, or a field behind which it went on. -/
theorem nextUntilNull_cases {msg : OmnmPayloadImpl} {rounds : Nat} {iter last : OmnmIterImpl}
    {fields : List OmnmFieldImpl}
    (result : (nextUntilNull msg (rounds + 1) iter).result = some (fields, last)) :
    (fields = [] ∧ (omnmmsgPayloadIter_next iter msg).result = some (none, last)) ∨
      ∃ field next later, fields = field :: later ∧
        (omnmmsgPayloadIter_next iter msg).result = some (some field, next) ∧
        (nextUntilNull msg rounds next).result = some (later, last) := by
  obtain ⟨⟨found, next⟩, yielded, continued⟩ := Traced.result_bind_eq_some.mp result
  cases found with
  | none =>
      cases continued
      exact .inl ⟨rfl, yielded⟩
  | some field =>
      obtain ⟨⟨later, final⟩, looped, returned⟩ := Traced.result_bind_eq_some.mp continued
      cases returned
      exact .inr ⟨field, next, later, rfl, yielded, looped⟩

/-- More rounds than an iteration can take: every field has at least one byte. -/
def iterationBound (msg : OmnmPayloadImpl) : Nat := msg.mPayloadBufferTail + 1

/-- A complete iteration of a payload: `omnmmsgPayloadIterImpl_init`, then
`omnmmsgPayloadIter_next` until NULL. -/
def iterateFields (msg : OmnmPayloadImpl) : Traced Region (List OmnmFieldImpl × OmnmIterImpl) := do
  let iter ← omnmmsgPayloadIterImpl_init msg
  nextUntilNull msg (iterationBound msg) iter

/-- `omnmmsgPayload_getNumFields`. -/
def omnmmsgPayload_getNumFields (msg : OmnmPayloadImpl) : Traced Region (MamaStatus × Nat) := do
  let (fields, _) ← iterateFields msg
  pure (.ok, fields.length)

end Omnm
