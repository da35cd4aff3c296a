import Omnm.Wire.Iteration

/-!
# Iterating over received bytes

The iterator checks its position against the tail only before it reads a field,
so nothing about the bytes behind the header is known when it reads them. An
iteration that stays below the tail is called safe (`IterationSafe`).

It is safe when there is nothing behind the header, or complete fields, and only
then (`iterationSafe_iff`): a field that was read below the tail, with its data
below the tail, was there completely, and what follows it is a shorter body of
the same kind. A read below the tail returns, and every call moves the iterator
forward, so that the iteration ends is not an assumption
(`nextUntilNull_returns`).

The last section turns this around. An iteration that yields a field at some
place went over complete fields until there (`complete_of_yielded`), wherever
the tail is.
-/

set_option autoImplicit false

namespace Omnm

open OmnmPayloadImpl

/-! ## Reads inside the buffer return -/

section Returns

variable {Region : Type} {region : Region} {memory : List UInt8} {offset width limit : Nat}

theorem exists_result_loadInteger (region : Region) (reads : offset + width ≤ limit)
    (inside : limit ≤ memory.length) :
    ∃ value, (loadInteger region memory offset width).result = some value := by
  refine ⟨littleEndianValue (slice memory offset width), ?_⟩
  rw [loadInteger, loadBytes, if_pos (reads.trans inside), Option.map_some]

theorem exists_result_strlen
    (reads : Traced.Every (Access.ReadsBelow limit) (strlen region memory offset))
    (inside : limit ≤ memory.length) :
    ∃ length, (strlen region memory offset).result = some length := by
  cases found : nulIndex (memory.drop offset) with
  | some length => exact ⟨length, by rw [strlen, found]⟩
  | none =>
      have below : offset + (memory.length - offset + 1) ≤ limit := by
        rw [strlen, found] at reads
        exact reads _ (List.mem_singleton_self _)
      omega

theorem exists_result_locateName {position : Nat}
    (reads : Traced.Every (Access.ReadsBelow limit) (locateName memory position))
    (inside : limit ≤ memory.length) :
    ∃ located, (locateName memory position).result = some located ∧ position < located.2 := by
  simp only [locateName, Traced.every_bind, every_loadInteger] at reads
  obtain ⟨first, loaded⟩ := exists_result_loadInteger Omnm.Region.message reads.1 inside
  by_cases named : first ≠ 0
  · have rest := reads.2 first loaded
    rw [if_pos named, Traced.every_bind] at rest
    obtain ⟨length, scanned⟩ := exists_result_strlen rest.1 inside
    refine ⟨(.offset position, position + length + 1), ?_, by dsimp only; omega⟩
    simp only [locateName, Traced.result_bind, loaded, Option.bind_some, if_pos named, scanned,
      Traced.result_pure]
  · refine ⟨(.null, position + 1), ?_, Nat.lt_succ_self _⟩
    simp only [locateName, Traced.result_bind, loaded, Option.bind_some, if_neg named,
      Traced.result_pure]

end Returns

variable [FieldTypeTags]

section Steps

variable {msg : OmnmPayloadImpl} {iter : OmnmIterImpl} {rounds : Nat}

theorem exists_result_locateData {memory : List UInt8} {previous : BufferPtr} {type : UInt8}
    {position limit : Nat}
    (reads : Traced.Every (Access.ReadsBelow limit) (locateData memory previous type position))
    (inside : limit ≤ memory.length) :
    ∃ located, (locateData memory previous type position).result = some located ∧
      position ≤ located.2.2 := by
  unfold locateData at reads ⊢
  cases layout : dataLayout type with
  | fixed width => exact ⟨_, rfl, Nat.le_refl _⟩
  | cString =>
      rw [layout] at reads
      simp only [Traced.every_bind] at reads
      obtain ⟨length, scanned⟩ := exists_result_strlen reads.1 inside
      exact ⟨(.offset position, length + 1, position), by simp [scanned], Nat.le_refl _⟩
  | sized =>
      rw [layout] at reads
      simp only [Traced.every_bind, every_loadInteger] at reads
      obtain ⟨size, loaded⟩ := exists_result_loadInteger Region.message reads.1 inside
      exact ⟨(.offset (position + 4), size, position + 4), by simp [loaded], Nat.le_add_right ..⟩
  | unlisted => exact ⟨_, rfl, Nat.le_refl _⟩

/-- A call of the iterator that reads inside the buffer returns, and unless it was
the rewinding read it moves the iterator forward. -/
theorem next_returns
    (reads : Traced.Every (Access.ReadsBelow msg.mPayloadBufferTail) (omnmmsgPayloadIter_next iter msg))
    (inside : msg.mPayloadBufferTail ≤ msg.mPayloadBufferSize)
    (more : iter.mBufferPosition < msg.mPayloadBufferTail) :
    ∃ field next, (omnmmsgPayloadIter_next iter msg).result = some (some field, next) ∧
      next.mIndex = iter.mIndex + 1 ∧
      (iter.mIndex = 0 → next.mBufferPosition = msg.getHeaderSize) ∧
      (iter.mIndex ≠ 0 → iter.mBufferPosition < next.mBufferPosition) := by
  rw [omnmmsgPayloadIter_next, if_neg (hasNext_of_lt more)] at reads ⊢
  simp only [Traced.every_bind, every_loadInteger] at reads
  obtain ⟨typeReads, reads⟩ := reads
  obtain ⟨type, typeLoaded⟩ :=
    exists_result_loadInteger Region.message typeReads inside
  obtain ⟨fidReads, reads⟩ := reads type typeLoaded
  obtain ⟨fid, fidLoaded⟩ := exists_result_loadInteger Region.message fidReads inside
  obtain ⟨nameReads, reads⟩ := reads fid fidLoaded
  obtain ⟨⟨name, behindName⟩, nameLocated, afterName⟩ := exists_result_locateName nameReads inside
  obtain ⟨dataReads, -⟩ := reads (name, behindName) nameLocated
  obtain ⟨⟨data, size, behind⟩, dataLocated, afterData⟩ := exists_result_locateData dataReads inside
  refine ⟨⟨UInt8.ofNat type, UInt16.ofNat fid, name, size, data⟩,
    ⟨⟨UInt8.ofNat type, UInt16.ofNat fid, name, size, data⟩,
      if iter.mIndex = 0 then msg.getHeaderSize else behind + size, iter.mIndex + 1⟩, ?_, rfl, ?_, ?_⟩
  · simp only [Traced.result_bind, typeLoaded, fidLoaded, nameLocated, dataLocated,
      Option.bind_some, Traced.result_pure]
  · exact fun rewinds => if_pos rewinds
  · intro started
    simp only [if_neg started]
    dsimp only at afterName afterData
    omega

/-- A loop over the fields that reads below the tail ends. -/
theorem nextUntilNull_returns
    (reads : Traced.Every (Access.ReadsBelow msg.mPayloadBufferTail) (nextUntilNull msg rounds iter))
    (inside : msg.mPayloadBufferTail ≤ msg.mPayloadBufferSize)
    (started : iter.mBufferPosition < msg.mPayloadBufferTail → iter.mIndex ≠ 0)
    (enough : msg.mPayloadBufferTail - iter.mBufferPosition < rounds) :
    ∃ fields last, (nextUntilNull msg rounds iter).result = some (fields, last) := by
  induction rounds generalizing iter with
  | zero => exact absurd enough (Nat.not_lt_zero _)
  | succ rounds ih =>
      by_cases more : iter.mBufferPosition < msg.mPayloadBufferTail
      · rw [nextUntilNull, Traced.every_bind] at reads
        obtain ⟨field, next, yielded, index, -, forward⟩ := next_returns reads.1 inside more
        have rest := reads.2 _ yielded
        rw [Traced.every_bind] at rest
        have ahead := forward (started more)
        obtain ⟨fields, last, result⟩ := ih rest.1 (fun _ => index ▸ Nat.succ_ne_zero _) (by omega)
        exact ⟨field :: fields, last, nextUntilNull_of_field yielded result⟩
      · refine ⟨[], iter, nextUntilNull_of_null ?_ _⟩
        rw [next_of_le (Nat.not_lt.mp more)]
        rfl

/-! ## Safe iterations -/

/-- The name of a field, with its NUL, and its data lie between the header and the
tail. A field without a name has nothing to read there, and neither has one
without data. -/
structure OmnmPayloadImpl.Contains (msg : OmnmPayloadImpl) (field : OmnmFieldImpl) : Prop where
  name : field.mName = .null ∨ ∃ offset length, field.mName = .offset offset ∧
    nulIndex (msg.mPayloadBuffer.drop offset) = some length ∧
    msg.getHeaderSize ≤ offset ∧ offset + length + 1 ≤ msg.mPayloadBufferTail
  data : field.mSize = 0 ∨ ∃ offset, field.mData = .offset offset ∧
    msg.getHeaderSize ≤ offset ∧ offset + field.mSize ≤ msg.mPayloadBufferTail

/-- A complete iteration reads below the tail and yields fields that lie there. -/
structure OmnmPayloadImpl.IterationSafe (msg : OmnmPayloadImpl) : Prop where
  reads : Traced.Every (Access.ReadsBelow msg.mPayloadBufferTail) (iterateFields msg)
  yields : ∃ fields last, (iterateFields msg).result = some (fields, last) ∧
    ∀ field ∈ fields, msg.Contains field

/-- The fields of a message lie between its header and its tail. -/
theorem contains_of_mem_fieldHandles {entries : List FieldEntry} {position : Nat}
    {rest : List UInt8} {previous : BufferPtr} (fits : AllFit entries)
    (here : msg.mPayloadBuffer.drop position = encodeAll entries ++ rest)
    (start : msg.getHeaderSize ≤ position)
    (ends : position + (encodeAll entries).length ≤ msg.mPayloadBufferTail) :
    ∀ field ∈ fieldHandles entries position previous, msg.Contains field := by
  induction entries generalizing position previous with
  | nil =>
      intro field member
      cases member
  | cons entry entries ih =>
      rw [encodeAll_cons, List.append_assoc] at here
      rw [encodeAll_cons, List.length_append, ← Nat.add_assoc] at ends
      intro field member
      rcases List.mem_cons.mp member with rfl | later
      · obtain ⟨-, -, ⟨behind, nameHere⟩, -⟩ := parts_of_drop here
        have whole := entry.length_encode
        have head := entry.length_head
        constructor
        · by_cases named : entry.name = CString.empty
          · exact .inl (by rw [FieldEntry.handle, namePointer, if_pos named])
          · refine .inr ⟨position + 3, entry.name.bytes.length, ?_, ?_, by omega, by omega⟩
            · rw [FieldEntry.handle, namePointer, if_neg named]
            · rw [nameHere, CString.nulIndex_terminated]
        · by_cases unlisted : dataLayout entry.type = .unlisted
          · have empty := fits entry (List.mem_cons_self ..)
            simp only [DataFits, unlisted] at empty
            exact .inl (by rw [FieldEntry.handle_mSize, empty, List.length_nil])
          · refine .inr ⟨position + entry.head.length, ?_, by omega, ?_⟩
            · rw [FieldEntry.handle, FieldEntry.dataPointer, if_neg unlisted]
            · rw [FieldEntry.handle_mSize]
              omega
      · exact ih (fun other among => fits other (List.mem_cons_of_mem _ among))
          (drop_behind here) (by omega) ends field later

/-- An iteration over complete fields is safe. -/
theorem OmnmPayloadImpl.Decodes.iterationSafe {entries : List FieldEntry}
    (decodes : msg.Decodes entries) : msg.IterationSafe where
  reads := decodes.every_iterateFields
  yields := by
    obtain ⟨last, result⟩ := decodes.iterateFields
    obtain ⟨rest, here⟩ := decodes.here
    exact ⟨_, last, result, contains_of_mem_fieldHandles decodes.fits here (Nat.le_refl _)
      (Nat.le_of_eq decodes.ends)⟩

/-- With nothing behind the header there is nothing to iterate over. -/
theorem iterateFields_of_tail_le (short : msg.mPayloadBufferTail ≤ msg.getHeaderSize) :
    (iterateFields msg).result = some ([], ⟨OmnmFieldImpl.zeroed, msg.getHeaderSize, 0⟩) ∧
      Traced.Every (Access.ReadsBelow msg.mPayloadBufferTail) (iterateFields msg) := by
  have init : omnmmsgPayloadIterImpl_init msg =
      pure ⟨OmnmFieldImpl.zeroed, msg.getHeaderSize, 0⟩ := by
    rw [omnmmsgPayloadIterImpl_init, omnmmsgPayloadIter_begin, next_of_le short]
    rfl
  have loop : nextUntilNull msg (iterationBound msg) ⟨OmnmFieldImpl.zeroed, msg.getHeaderSize, 0⟩ =
      pure ([], ⟨OmnmFieldImpl.zeroed, msg.getHeaderSize, 0⟩) := by
    rw [iterationBound, nextUntilNull, next_of_le short]
    rfl
  simp only [iterateFields, init, loop, Traced.result_bind, Traced.every_bind, Traced.every_pure,
    Traced.result_pure, Option.bind_some, Option.some.injEq, forall_eq', and_self]

theorem iterationSafe_of_tail_le (short : msg.mPayloadBufferTail ≤ msg.getHeaderSize) :
    msg.IterationSafe := by
  obtain ⟨result, reads⟩ := iterateFields_of_tail_le short
  refine ⟨reads, [], _, result, ?_⟩
  intro field member
  cases member

/-! ## Only complete fields are iterated over safely -/

/-- A field that was read below the tail and lies there was there completely, and
the iterator is behind it. -/
theorem exists_entry_of_next {field : OmnmFieldImpl} {next : OmnmIterImpl}
    (yielded : (omnmmsgPayloadIter_next iter msg).result = some (some field, next))
    (reads : Traced.Every (Access.ReadsBelow msg.mPayloadBufferTail) (omnmmsgPayloadIter_next iter msg))
    (inside : msg.mPayloadBufferTail ≤ msg.mPayloadBufferSize)
    (more : iter.mBufferPosition < msg.mPayloadBufferTail) (contained : msg.Contains field) :
    ∃ (entry : FieldEntry) (rest : List UInt8), DataFits entry.type entry.data ∧
      msg.mPayloadBuffer.drop iter.mBufferPosition = entry.encode ++ rest ∧
      iter.mBufferPosition + entry.encode.length ≤ msg.mPayloadBufferTail ∧
      next.mBufferPosition = nextPosition iter msg entry := by
  have within : field.mSize = 0 ∨ ∃ start, field.mData = .offset start ∧
      start + field.mSize ≤ msg.mPayloadBuffer.length := by
    rcases contained.data with none | ⟨offset, start, -, ends⟩
    · exact .inl none
    · exact .inr ⟨offset, start, ends.trans inside⟩
  obtain ⟨entry, rest, fits, here⟩ := encoded_of_next yielded within
  have again := next_of_drop fits here more
  rw [yielded, Option.some.injEq, Prod.mk.injEq, Option.some.injEq] at again
  obtain ⟨rfl, rfl⟩ := again
  refine ⟨entry, rest, fits, here, encode_le_of_every here more reads ?_, rfl⟩
  rcases contained.data with none | ⟨offset, start, -, ends⟩
  · exact .inl (List.eq_nil_of_length_eq_zero none)
  · by_cases unlisted : dataLayout entry.type = .unlisted
    · simp only [DataFits, unlisted] at fits
      exact .inl fits
    · rw [FieldEntry.handle, FieldEntry.dataPointer, if_neg unlisted] at start
      cases start
      rw [FieldEntry.encode, List.length_append, ← Nat.add_assoc]
      exact .inr ends

/-- A safe loop over the fields has complete fields ahead. -/
theorem complete_of_nextUntilNull {fields : List OmnmFieldImpl} {last : OmnmIterImpl}
    (result : (nextUntilNull msg rounds iter).result = some (fields, last))
    (reads : Traced.Every (Access.ReadsBelow msg.mPayloadBufferTail) (nextUntilNull msg rounds iter))
    (contained : ∀ field ∈ fields, msg.Contains field)
    (inside : msg.mPayloadBufferTail ≤ msg.mPayloadBufferSize)
    (started : iter.mIndex ≠ 0) (position : iter.mBufferPosition ≤ msg.mPayloadBufferTail) :
    ∃ entries rest, AllFit entries ∧
      msg.mPayloadBuffer.drop iter.mBufferPosition = encodeAll entries ++ rest ∧
      iter.mBufferPosition + (encodeAll entries).length = msg.mPayloadBufferTail := by
  induction rounds generalizing iter fields last with
  | zero => cases result
  | succ rounds ih =>
      by_cases more : iter.mBufferPosition < msg.mPayloadBufferTail
      · rw [nextUntilNull, Traced.every_bind] at reads
        obtain ⟨field, next, yielded, index, -, -⟩ := next_returns reads.1 inside more
        have rest := reads.2 _ yielded
        rw [Traced.every_bind] at rest
        rcases nextUntilNull_cases result with ⟨-, none⟩ | ⟨_, _, later, rfl, same, continued⟩
        · cases yielded.symm.trans none
        cases yielded.symm.trans same
        obtain ⟨entry, _, fits, here, ends, behind⟩ := exists_entry_of_next yielded reads.1 inside
          more (contained field (List.mem_cons_self ..))
        rw [nextPosition, if_neg started] at behind
        obtain ⟨entries, beyond, allFit, ahead, total⟩ := ih continued rest.1
          (fun other member => contained other (List.mem_cons_of_mem _ member))
          (index ▸ Nat.succ_ne_zero _) (behind ▸ ends)
        rw [behind, drop_behind here] at ahead
        refine ⟨entry :: entries, beyond, List.forall_mem_cons.mpr ⟨fits, allFit⟩, ?_, ?_⟩
        · rw [here, ahead, encodeAll_cons, List.append_assoc]
        · rw [encodeAll_cons, List.length_append, ← Nat.add_assoc, ← behind, total]
      · exact ⟨[], msg.mPayloadBuffer.drop iter.mBufferPosition, allFit_nil, rfl,
          Nat.le_antisymm position (Nat.not_lt.mp more)⟩

/-- An iteration that reads below the tail, and yields only fields that lie there,
goes over complete fields. -/
theorem exists_entries_of_reads
    (reads : Traced.Every (Access.ReadsBelow msg.mPayloadBufferTail) (iterateFields msg))
    (contained : ∀ fields last, (iterateFields msg).result = some (fields, last) →
      ∀ field ∈ fields, msg.Contains field)
    (inside : msg.mPayloadBufferTail ≤ msg.mPayloadBufferSize)
    (body : msg.getHeaderSize < msg.mPayloadBufferTail) : ∃ entries, msg.Decodes entries := by
  have first : omnmmsgPayloadIter_begin ⟨OmnmFieldImpl.zeroed, 0, 0⟩ msg =
      omnmmsgPayloadIter_next ⟨OmnmFieldImpl.zeroed, msg.getHeaderSize, 0⟩ msg := rfl
  simp only [iterateFields, omnmmsgPayloadIterImpl_init, first, Traced.every_bind,
    Traced.result_bind] at reads contained
  obtain ⟨field, iter, yielded, index, rewound, -⟩ := next_returns reads.1.1 inside body
  have position : iter.mBufferPosition = msg.getHeaderSize := rewound rfl
  have started : iter.mIndex ≠ 0 := by
    rw [index]
    exact Nat.one_ne_zero
  have loop := reads.2 iter (by rw [yielded]; rfl)
  obtain ⟨fields, last, result⟩ := nextUntilNull_returns loop inside (fun _ => started)
    (show _ < iterationBound msg by rw [iterationBound]; omega)
  obtain ⟨entries, rest, fits, here, ends⟩ := complete_of_nextUntilNull result loop
    (contained fields last (by rw [yielded]; exact result)) inside started (by omega)
  rw [position] at here ends
  exact ⟨entries, fits, ⟨rest, here⟩, ends⟩

/-- An iteration is safe exactly when there is nothing behind the header, or complete
fields. -/
theorem iterationSafe_iff (inside : msg.mPayloadBufferTail ≤ msg.mPayloadBufferSize) :
    msg.IterationSafe ↔
      msg.mPayloadBufferTail ≤ msg.getHeaderSize ∨ ∃ entries, msg.Decodes entries := by
  constructor
  · rintro ⟨reads, fields, last, result, contained⟩
    by_cases short : msg.mPayloadBufferTail ≤ msg.getHeaderSize
    · exact .inl short
    · refine .inr (exists_entries_of_reads reads ?_ inside (Nat.not_le.mp short))
      intro fields' last' result'
      cases result.symm.trans result'
      exact contained
  · rintro (short | ⟨entries, decodes⟩)
    · exact iterationSafe_of_tail_le short
    · exact decodes.iterationSafe

/-! ## Reaching a place -/

/-- The data that was located starts where the iterator is left, if there is any. -/
theorem start_of_locateData {memory : List UInt8} {previous data : BufferPtr}
    {type : UInt8} {position size behind : Nat}
    (located : (locateData memory previous type position).result = some (data, size, behind)) :
    size = 0 ∨ data = .offset behind := by
  cases dataLocated_of_result located with
  | fixed | cString | sized => exact .inr rfl
  | unlisted => exact .inl rfl

/-- Where a field that was yielded has its name and its data. -/
theorem places_of_next {field : OmnmFieldImpl} {next : OmnmIterImpl}
    (yielded : (omnmmsgPayloadIter_next iter msg).result = some (some field, next)) :
    (field.mName = .null ∨ field.mName = .offset (iter.mBufferPosition + 3)) ∧
      next.mIndex = iter.mIndex + 1 ∧
      (iter.mIndex = 0 → next.mBufferPosition = msg.getHeaderSize) ∧
      (iter.mIndex ≠ 0 → field.mSize = 0 ∨
        ∃ start, field.mData = .offset start ∧ start + field.mSize = next.mBufferPosition) := by
  have read := fieldRead_of_next yielded
  obtain ⟨behindName, behind, nameLocated, dataLocated, position⟩ := read.located
  refine ⟨?_, read.index, fun rewinds => position.trans (if_pos rewinds), ?_⟩
  · obtain ⟨string, _, nameHere⟩ := exists_of_result_locateName nameLocated
    rw [locateName_of_drop nameHere, Option.some.injEq, Prod.mk.injEq] at nameLocated
    rw [← nameLocated.1, namePointer]
    split
    · exact .inl rfl
    · exact .inr rfl
  · intro started
    rw [position, if_neg started]
    exact (start_of_locateData dataLocated).imp_right fun start => ⟨behind, start, rfl⟩

/-- When a loop over the fields yields one whose name stands at a place, complete
fields lead up to it. -/
theorem complete_up_to {fields : List OmnmFieldImpl} {last : OmnmIterImpl} {place : Nat}
    (result : (nextUntilNull msg rounds iter).result = some (fields, last))
    (started : iter.mIndex ≠ 0) (inside : place ≤ msg.mPayloadBufferSize)
    {field : OmnmFieldImpl} (member : field ∈ fields) (named : field.mName = .offset (place + 3)) :
    ∃ entries rest, AllFit entries ∧
      msg.mPayloadBuffer.drop iter.mBufferPosition = encodeAll entries ++ rest ∧
      iter.mBufferPosition + (encodeAll entries).length = place := by
  induction rounds generalizing iter fields last with
  | zero => cases result
  | succ rounds ih =>
      rcases nextUntilNull_cases result with ⟨rfl, -⟩ | ⟨first, next, later, rfl, yielded, looped⟩
      · cases member
      · obtain ⟨name, index, -, dataEnd⟩ := places_of_next yielded
        rcases List.mem_cons.mp member with rfl | among
        · have here : iter.mBufferPosition = place := by
            rcases name with null | offset
            · rw [named] at null
              cases null
            · rw [named, BufferPtr.offset.injEq] at offset
              omega
          exact ⟨[], msg.mPayloadBuffer.drop iter.mBufferPosition, allFit_nil, rfl, here⟩
        · obtain ⟨entries, beyond, fits, ahead, total⟩ := ih looped (index ▸ Nat.succ_ne_zero _) among
          have within : first.mSize = 0 ∨ ∃ start, first.mData = .offset start ∧
              start + first.mSize ≤ msg.mPayloadBuffer.length := by
            rcases dataEnd started with none | ⟨start, data, ends⟩
            · exact .inl none
            · refine .inr ⟨start, data, ?_⟩
              rw [mPayloadBufferSize] at inside
              omega
          obtain ⟨entry, _, entryFits, here⟩ := encoded_of_next yielded within
          have again := next_of_drop entryFits here (fieldRead_of_next yielded).inside
          rw [yielded, nextPosition, if_neg started, Option.some.injEq, Prod.mk.injEq] at again
          have behind : next.mBufferPosition = iter.mBufferPosition + entry.encode.length := by
            rw [again.2]
          rw [behind, drop_behind here] at ahead
          refine ⟨entry :: entries, beyond, List.forall_mem_cons.mpr ⟨entryFits, fits⟩, ?_, ?_⟩
          · rw [here, ahead, encodeAll_cons, List.append_assoc]
          · rw [encodeAll_cons, List.length_append, ← Nat.add_assoc, ← behind, total]

/-- A complete iteration that yields a field with its name at a place has complete
fields between the header and the place. -/
theorem complete_of_yielded {fields : List OmnmFieldImpl} {last : OmnmIterImpl} {place : Nat}
    (result : (iterateFields msg).result = some (fields, last))
    (inside : place ≤ msg.mPayloadBufferSize) {field : OmnmFieldImpl} (member : field ∈ fields)
    (named : field.mName = .offset (place + 3)) :
    ∃ entries rest, AllFit entries ∧
      msg.mPayloadBuffer.drop msg.getHeaderSize = encodeAll entries ++ rest ∧
      msg.getHeaderSize + (encodeAll entries).length = place := by
  obtain ⟨iter, init, loop⟩ := Traced.result_bind_eq_some.mp result
  obtain ⟨⟨found, iter'⟩, begun, same⟩ := Traced.result_bind_eq_some.mp init
  cases same
  cases found with
  | none =>
      obtain ⟨ended, rfl⟩ := ended_of_next_none begun
      rw [iterationBound, nextUntilNull, next_of_le ended] at loop
      cases loop
      cases member
  | some first =>
      obtain ⟨-, index, rewound, -⟩ := places_of_next begun
      have position : iter.mBufferPosition = msg.getHeaderSize := rewound rfl
      have started : iter.mIndex ≠ 0 := by
        rw [index]
        exact Nat.one_ne_zero
      obtain ⟨entries, rest, fits, here, ends⟩ := complete_up_to loop started inside member named
      rw [position] at here ends
      exact ⟨entries, rest, fits, here, ends⟩

end Steps

end Omnm
