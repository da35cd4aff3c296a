import Omnm.Payload.Splicing
import Omnm.Wire.Iteration

/-!
# Lookups in any bytes

What holds of a lookup whatever the bytes of a payload are. It only reads
(`every_load_findFieldInBuffer`). And it sees no further than the field it
finds: when complete fields lead up to the first one with the key, and that one
is complete below the tail, the lookup finds it, whatever stands behind it
(`CompleteUpTo.search`). The length of a sized field comes from four bytes
(`mSize_lt_of_findFieldInBuffer`).
-/

set_option autoImplicit false

namespace Omnm

/-! ## Reads -/

section Reads

theorem every_load_loadInteger (region : Region) (memory : List UInt8) (offset width : Nat) :
    Traced.Every Access.IsLoad (loadInteger region memory offset width) :=
  every_loadInteger.mpr trivial

theorem every_load_loadBytes (region : Region) (memory : List UInt8) (offset length : Nat) :
    Traced.Every Access.IsLoad (loadBytes region memory offset length) := by
  intro access member
  rw [List.mem_singleton.mp member]
  trivial

theorem every_load_loadHeader (msg : OmnmPayloadImpl) (incoming : Incoming) :
    Traced.Every Access.IsLoad (loadHeader msg incoming) := by
  cases incoming with
  | own | other memory =>
      rw [loadHeader, Traced.every_bind]
      exact ⟨every_load_loadBytes _ _ _ _, fun _ _ => Traced.every_pure _⟩

theorem every_load_strlen (region : Region) (memory : List UInt8) (offset : Nat) :
    Traced.Every Access.IsLoad (strlen region memory offset) := by
  intro access member
  unfold strlen at member
  split at member
  · rw [List.mem_singleton.mp member]
    trivial
  · rw [List.mem_singleton.mp member]
    trivial

theorem every_load_locateName (memory : List UInt8) (position : Nat) :
    Traced.Every Access.IsLoad (locateName memory position) := by
  rw [locateName, Traced.every_bind]
  refine ⟨every_load_loadInteger _ _ _ _, ?_⟩
  intro first _
  split
  · rw [Traced.every_bind]
    exact ⟨every_load_strlen _ _ _, fun _ _ => Traced.every_pure _⟩
  · exact Traced.every_pure _

theorem every_load_loadCString (memory : List UInt8) (offset : Nat) :
    Traced.Every Access.IsLoad (loadCString memory offset) := by
  rw [loadCString, Traced.every_bind]
  exact ⟨every_load_strlen _ _ _, fun _ _ => every_load_loadBytes _ _ _ _⟩

theorem every_load_nameMatches (msg : OmnmPayloadImpl) (name : Option CString)
    (candidate : OmnmFieldImpl) : Traced.Every Access.IsLoad (nameMatches msg name candidate) := by
  unfold nameMatches
  split
  · exact Traced.every_pure _
  · exact Traced.every_pure _
  · exact Traced.every_fault
  · rw [Traced.every_bind]
    exact ⟨every_load_loadCString _ _, fun _ _ => Traced.every_pure _⟩

variable [FieldTypeTags]

theorem every_load_locateData (memory : List UInt8) (previous : BufferPtr) (type : UInt8)
    (position : Nat) : Traced.Every Access.IsLoad (locateData memory previous type position) := by
  unfold locateData
  split
  · exact Traced.every_pure _
  · rw [Traced.every_bind]
    exact ⟨every_load_strlen _ _ _, fun _ _ => Traced.every_pure _⟩
  · rw [Traced.every_bind]
    exact ⟨every_load_loadInteger _ _ _ _, fun _ _ => Traced.every_pure _⟩
  · exact Traced.every_pure _

theorem every_load_next (iter : OmnmIterImpl) (msg : OmnmPayloadImpl) :
    Traced.Every Access.IsLoad (omnmmsgPayloadIter_next iter msg) := by
  rw [omnmmsgPayloadIter_next]
  split
  · exact Traced.every_pure _
  · simp only [Traced.every_bind, Traced.every_pure, implies_true, and_true]
    refine ⟨every_load_loadInteger _ _ _ _, fun _ _ => ⟨every_load_loadInteger _ _ _ _, ?_⟩⟩
    exact fun _ _ => ⟨every_load_locateName _ _, fun _ _ => every_load_locateData _ _ _ _⟩

theorem every_load_init (msg : OmnmPayloadImpl) :
    Traced.Every Access.IsLoad (omnmmsgPayloadIterImpl_init msg) := by
  rw [omnmmsgPayloadIterImpl_init, Traced.every_bind]
  exact ⟨every_load_next _ _, fun _ _ => Traced.every_pure _⟩

theorem every_load_findFrom (msg : OmnmPayloadImpl) (name : Option CString) (fid : UInt16)
    (rounds : Nat) (iter : OmnmIterImpl) :
    Traced.Every Access.IsLoad (msg.findFrom name fid rounds iter) := by
  induction rounds generalizing iter with
  | zero => exact Traced.every_fault
  | succ rounds ih =>
      rw [OmnmPayloadImpl.findFrom, Traced.every_bind]
      refine ⟨every_load_next _ _, ?_⟩
      rintro ⟨candidate, next⟩ -
      cases candidate with
      | none => exact Traced.every_pure _
      | some candidate =>
          dsimp only
          split
          · exact Traced.every_pure _
          · rw [Traced.every_bind]
            refine ⟨every_load_nameMatches _ _ _, ?_⟩
            intro sameName _
            split
            · exact Traced.every_pure _
            · exact ih next

/-- A lookup only reads. -/
theorem every_load_findFieldInBuffer (msg : OmnmPayloadImpl) (name : Option CString)
    (fid : UInt16) : Traced.Every Access.IsLoad (msg.findFieldInBuffer name fid) := by
  rw [OmnmPayloadImpl.findFieldInBuffer, Traced.every_bind]
  exact ⟨every_load_init _, fun _ _ => every_load_findFrom _ _ _ _ _⟩

end Reads

/-! ## The length of what is found -/

section Length

variable [FieldTypeTags]

/-- A length that stands in front of data has four bytes. -/
theorem size_lt_of_locateData {memory : List UInt8} {previous data : BufferPtr} {type : UInt8}
    {position size behind : Nat} (sized : dataLayout type = .sized)
    (located : (locateData memory previous type position).result = some (data, size, behind)) :
    size < 2 ^ 32 := by
  cases dataLocated_of_result located with
  | sized _ loaded =>
      obtain ⟨bytes, -, -, four, rfl⟩ := exists_of_result_loadInteger loaded
      have below := littleEndianValue_lt bytes
      rwa [four] at below
  | fixed layout | cString layout | unlisted layout => cases sized.symm.trans layout

/-- The size of located data, where it is not below 4 GiB, is inside the memory. -/
theorem size_le_of_locateData {memory : List UInt8} {previous data : BufferPtr} {type : UInt8}
    {position size behind : Nat}
    (located : (locateData memory previous type position).result = some (data, size, behind)) :
    size < 2 ^ 32 ∨ size ≤ memory.length := by
  cases dataLocated_of_result located with
  | fixed layout => exact .inl (width_lt_of_dataLayout layout)
  | cString layout scanned =>
      obtain ⟨string, rest, here, rfl⟩ := exists_of_result_strlen scanned
      have inside := congrArg List.length here
      rw [List.length_drop, List.length_append, CString.length_terminated] at inside
      exact .inr (by omega)
  | sized layout => exact .inl (size_lt_of_locateData layout located)
  | unlisted => exact .inl (by decide)

/-- The data of a field that the iterator yields was located. -/
theorem exists_locateData_of_next {iter next : OmnmIterImpl} {msg : OmnmPayloadImpl}
    {field : OmnmFieldImpl}
    (yielded : (omnmmsgPayloadIter_next iter msg).result = some (some field, next)) :
    ∃ previous position behind, (locateData msg.mPayloadBuffer previous field.mFieldType
      position).result = some (field.mData, field.mSize, behind) := by
  obtain ⟨behindName, behind, -, located, -⟩ := (fieldRead_of_next yielded).located
  exact ⟨_, _, _, located⟩

/-- A field that a lookup finds was yielded by the iterator. -/
theorem exists_next_of_findFrom {msg : OmnmPayloadImpl} {name : Option CString} {fid : UInt16}
    {rounds : Nat} {iter : OmnmIterImpl} {field : OmnmFieldImpl}
    (found : (msg.findFrom name fid rounds iter).result = some (some field)) :
    ∃ iter next, (omnmmsgPayloadIter_next iter msg).result = some (some field, next) := by
  induction rounds generalizing iter with
  | zero => cases found
  | succ rounds ih =>
      rw [OmnmPayloadImpl.findFrom] at found
      obtain ⟨⟨candidate, next⟩, yielded, found⟩ := Traced.result_bind_eq_some.mp found
      cases candidate with
      | none => cases found
      | some candidate =>
          dsimp only at found
          split at found
          · cases found
            exact ⟨iter, next, yielded⟩
          · obtain ⟨same, -, found⟩ := Traced.result_bind_eq_some.mp found
            split at found
            · cases found
              exact ⟨iter, next, yielded⟩
            · exact ih found

/-- The data of a field that a lookup finds was located. -/
theorem exists_locateData_of_findFieldInBuffer {msg : OmnmPayloadImpl} {name : Option CString}
    {fid : UInt16} {field : OmnmFieldImpl}
    (found : (msg.findFieldInBuffer name fid).result = some (some field)) :
    ∃ previous position behind, (locateData msg.mPayloadBuffer previous field.mFieldType
      position).result = some (field.mData, field.mSize, behind) := by
  rw [OmnmPayloadImpl.findFieldInBuffer] at found
  obtain ⟨_, -, looped⟩ := Traced.result_bind_eq_some.mp found
  obtain ⟨_, _, yielded⟩ := exists_next_of_findFrom looped
  exact exists_locateData_of_next yielded

/-- A field of a sized type that a lookup finds is shorter than 4 GiB, whatever the bytes. -/
theorem mSize_lt_of_findFieldInBuffer {msg : OmnmPayloadImpl} {name : Option CString}
    {fid : UInt16} {field : OmnmFieldImpl}
    (found : (msg.findFieldInBuffer name fid).result = some (some field))
    (sized : dataLayout field.mFieldType = .sized) : field.mSize < 2 ^ 32 := by
  obtain ⟨_, _, _, located⟩ := exists_locateData_of_findFieldInBuffer found
  exact size_lt_of_locateData sized located

end Length

/-! ## A lookup sees no further than what it finds -/

variable [FieldTypeTags]

/-- From the header on, up to and including the first field that has the key, the bytes
below the tail are complete fields. -/
structure OmnmPayloadImpl.CompleteUpTo (msg : OmnmPayloadImpl) (name : Option CString)
    (fid : UInt16) (before : List FieldEntry) (entry : FieldEntry) : Prop where
  fits : AllFit (before ++ [entry])
  here : ∃ rest,
    msg.mPayloadBuffer.drop msg.getHeaderSize = encodeAll (before ++ [entry]) ++ rest
  ends : msg.getHeaderSize + (encodeAll (before ++ [entry])).length ≤ msg.mPayloadBufferTail
  found : entry.hasKey name fid = true
  first : ∀ other ∈ before, other.hasKey name fid = false

namespace OmnmPayloadImpl

/-- The payload with its tail at an earlier place. -/
def cutAt (msg : OmnmPayloadImpl) (tail : Nat) : OmnmPayloadImpl :=
  { msg with mPayloadBufferTail := tail }

section Cut

variable {msg : OmnmPayloadImpl} {tail : Nat} {name : Option CString} {fid : UInt16}
  {iter : OmnmIterImpl} {field : OmnmFieldImpl}

/-- In front of the tail of a cut payload, the iterator does not see the cut. -/
theorem next_cutAt (inside : iter.mBufferPosition < tail) (earlier : tail ≤ msg.mPayloadBufferTail) :
    omnmmsgPayloadIter_next iter (msg.cutAt tail) = omnmmsgPayloadIter_next iter msg := by
  have cut : iter.mBufferPosition < (msg.cutAt tail).mPayloadBufferTail := inside
  rw [omnmmsgPayloadIter_next, omnmmsgPayloadIter_next, if_neg (hasNext_of_lt cut),
    if_neg (hasNext_of_lt (Nat.lt_of_lt_of_le inside earlier))]
  rfl

/-- What the loop of a lookup finds in a cut payload it finds in the whole one. -/
theorem findFrom_of_cutAt {rounds rounds' : Nat} (earlier : tail ≤ msg.mPayloadBufferTail)
    (enough : rounds ≤ rounds')
    (search : ((msg.cutAt tail).findFrom name fid rounds iter).result = some (some field)) :
    (msg.findFrom name fid rounds' iter).result = some (some field) := by
  induction rounds generalizing iter rounds' with
  | zero => cases search
  | succ rounds ih =>
      obtain ⟨rounds', rfl⟩ := Nat.exists_eq_succ_of_ne_zero (Nat.ne_of_gt (Nat.zero_lt_of_lt enough))
      rw [findFrom] at search ⊢
      by_cases inside : iter.mBufferPosition < tail
      · rw [next_cutAt inside earlier] at search
        rw [Traced.result_bind_eq_some] at search ⊢
        obtain ⟨⟨candidate, next⟩, yielded, continued⟩ := search
        refine ⟨(candidate, next), yielded, ?_⟩
        cases candidate with
        | none => cases continued
        | some candidate =>
            have sameName : nameMatches (msg.cutAt tail) name candidate =
                nameMatches msg name candidate := rfl
            dsimp only at continued ⊢
            by_cases sameFid : fid ≠ 0 ∧ fid = candidate.mFid
            · rw [if_pos sameFid] at continued ⊢
              exact continued
            · rw [if_neg sameFid, Traced.result_bind_eq_some] at continued ⊢
              obtain ⟨same, compared, continued⟩ := continued
              refine ⟨same, sameName ▸ compared, ?_⟩
              cases same with
              | true => exact continued
              | false => exact ih (Nat.le_of_succ_le_succ enough) continued
      · have ended : omnmmsgPayloadIter_next iter (msg.cutAt tail) = pure (none, iter) :=
          next_of_le (Nat.not_lt.mp inside)
        rw [ended] at search
        cases search

/-- What a lookup finds in a cut payload it finds in the whole one. -/
theorem findFieldInBuffer_of_cutAt (earlier : tail ≤ msg.mPayloadBufferTail)
    (search : ((msg.cutAt tail).findFieldInBuffer name fid).result = some (some field)) :
    (msg.findFieldInBuffer name fid).result = some (some field) := by
  have enough : iterationBound (msg.cutAt tail) ≤ iterationBound msg := Nat.succ_le_succ earlier
  rw [findFieldInBuffer, Traced.result_bind_eq_some] at search ⊢
  obtain ⟨iter, begun, loop⟩ := search
  by_cases inside : msg.getHeaderSize < tail
  · have same : omnmmsgPayloadIterImpl_init (msg.cutAt tail) = omnmmsgPayloadIterImpl_init msg := by
      rw [omnmmsgPayloadIterImpl_init, omnmmsgPayloadIter_begin, next_cutAt inside earlier]
      rfl
    exact ⟨iter, same ▸ begun, findFrom_of_cutAt earlier enough loop⟩
  · have ended : omnmmsgPayloadIterImpl_init (msg.cutAt tail) =
        pure ⟨OmnmFieldImpl.zeroed, msg.getHeaderSize, 0⟩ := by
      rw [omnmmsgPayloadIterImpl_init, omnmmsgPayloadIter_begin,
        next_of_le (Nat.not_lt.mp inside)]
      rfl
    rw [ended] at begun
    cases begun
    rw [iterationBound, findFrom, next_of_le (Nat.not_lt.mp inside)] at loop
    cases loop

end Cut

/-- A lookup finds the first field with the key when it is complete. -/
theorem CompleteUpTo.search {msg : OmnmPayloadImpl} {name : Option CString} {fid : UInt16}
    {before : List FieldEntry} {entry : FieldEntry}
    (complete : msg.CompleteUpTo name fid before entry) :
    ∃ previous, (msg.findFieldInBuffer name fid).result =
      some (some (entry.handle (msg.getHeaderSize + (encodeAll before).length) previous)) := by
  have decodes : (msg.cutAt (msg.getHeaderSize + (encodeAll (before ++ [entry])).length)).Decodes
      (before ++ [entry]) := ⟨complete.fits, complete.here, rfl⟩
  obtain ⟨previous, handle⟩ := findHandle_split complete.found complete.first []
    msg.getHeaderSize .null
  have search := decodes.findFieldInBuffer name fid
  refine ⟨previous, findFieldInBuffer_of_cutAt complete.ends (search.trans (congrArg some ?_))⟩
  exact handle

/-- With the tail anywhere in front, a lookup finds nothing else. -/
theorem CompleteUpTo.eq_of_search {msg : OmnmPayloadImpl} {tail : Nat} {name : Option CString}
    {fid : UInt16} {before : List FieldEntry} {entry : FieldEntry} {field : OmnmFieldImpl}
    (complete : (msg.cutAt tail).CompleteUpTo name fid before entry)
    (behind : msg.mPayloadBufferTail ≤ tail)
    (search : (msg.findFieldInBuffer name fid).result = some (some field)) :
    ∃ previous, field = entry.handle (msg.getHeaderSize + (encodeAll before).length) previous := by
  obtain ⟨previous, known⟩ := complete.search
  have found : ((msg.cutAt tail).findFieldInBuffer name fid).result = some (some field) :=
    @findFieldInBuffer_of_cutAt _ (msg.cutAt tail) _ name fid field behind search
  cases known.symm.trans found
  exact ⟨previous, rfl⟩

/-- The handle of a complete field of a listed type locates it. -/
theorem CompleteUpTo.located {msg : OmnmPayloadImpl} {name : Option CString} {fid : UInt16}
    {before : List FieldEntry} {entry : FieldEntry}
    (complete : msg.CompleteUpTo name fid before entry)
    (inside : msg.mPayloadBufferTail ≤ msg.mPayloadBufferSize)
    (listed : dataLayout entry.type ≠ .unlisted) (previous : BufferPtr) :
    ∃ front back slack, msg.Located
      (entry.handle (msg.getHeaderSize + (encodeAll before).length) previous) front entry.lengthPart
      entry.data back slack := by
  obtain ⟨rest, here⟩ := complete.here
  have ends := complete.ends
  rw [encodeAll_append, encodeAll_cons, encodeAll_nil, List.append_nil] at here ends
  rw [List.length_append] at ends
  have header : (msg.mPayloadBuffer.take msg.getHeaderSize).length = msg.getHeaderSize := by
    rw [mPayloadBufferSize] at inside
    rw [List.length_take]
    omega
  have buffer : msg.mPayloadBuffer = msg.mPayloadBuffer.take msg.getHeaderSize ++
      (encodeAll before ++ entry.encode ++ rest) := by
    rw [← here, List.take_append_drop]
  have size := congrArg List.length buffer
  simp only [List.length_append, header] at size
  rw [mPayloadBufferSize] at inside
  have place : (msg.mPayloadBuffer.take msg.getHeaderSize ++ encodeAll before).length =
      msg.getHeaderSize + (encodeAll before).length := by
    rw [List.length_append, header]
  -- what follows the field inside the tail, and what lies behind it
  obtain ⟨behind, same⟩ : ∃ behind, behind = msg.mPayloadBufferTail - (msg.getHeaderSize +
      (encodeAll before).length + entry.encode.length) := ⟨_, rfl⟩
  have parts : msg.mPayloadBuffer = msg.mPayloadBuffer.take msg.getHeaderSize ++ encodeAll before ++
      entry.encode ++ rest.take behind ++ rest.drop behind := by
    rw [List.append_assoc _ (rest.take behind), List.take_append_drop]
    simpa only [List.append_assoc] using buffer
  have tail : msg.mPayloadBufferTail = (msg.mPayloadBuffer.take msg.getHeaderSize ++
      encodeAll before).length + entry.encode.length + (rest.take behind).length := by
    rw [place, List.length_take]
    omega
  exact ⟨_, _, _, place ▸ located_of_buffer listed parts tail previous⟩

end OmnmPayloadImpl

end Omnm
