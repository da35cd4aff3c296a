import Omnm.Wire.Walking

/-!
# What the iterator reads behind the allocation

The only check of `omnmmsgPayloadIter_next` is that the field starts in front of
the tail. The rest of a field that is cut off there is read from the memory
behind it, which may be that behind the allocation. What C says of such a read
is nothing; what it gives is a byte. `OmnmPayloadImpl.reading` is a payload with
some of these bytes.

More bytes behind it change no call that returned (`next_reading_mono`), and a
call whose scans find a NUL returns once enough of them are there
(`ScansEnd.exists_next`).
-/

set_option autoImplicit false

namespace Omnm

open OmnmPayloadImpl

/-- The payload with the first bytes of the memory behind its allocation. -/
def OmnmPayloadImpl.reading (msg : OmnmPayloadImpl) (behind : Nat → UInt8) (count : Nat) :
    OmnmPayloadImpl :=
  { msg with mPayloadBuffer := msg.mPayloadBuffer ++ (List.range count).map behind }

section

variable {msg : OmnmPayloadImpl} {behind : Nat → UInt8} {count more : Nat}

@[simp] theorem OmnmPayloadImpl.reading_mPayloadBufferTail :
    (msg.reading behind count).mPayloadBufferTail = msg.mPayloadBufferTail := rfl

@[simp] theorem OmnmPayloadImpl.reading_getHeaderSize :
    (msg.reading behind count).getHeaderSize = msg.getHeaderSize := rfl

theorem OmnmPayloadImpl.length_reading :
    (msg.reading behind count).mPayloadBuffer.length = msg.mPayloadBuffer.length + count := by
  rw [reading, List.length_append, List.length_map, List.length_range]

/-- More of the memory behind the allocation stands behind what was read of it. -/
theorem OmnmPayloadImpl.exists_reading_append (fewer : count ≤ more) :
    ∃ rest, (msg.reading behind more).mPayloadBuffer =
      (msg.reading behind count).mPayloadBuffer ++ rest := by
  obtain ⟨others, rfl⟩ := Nat.exists_eq_add_of_le fewer
  refine ⟨((List.range others).map (count + ·)).map behind, ?_⟩
  simp only [reading, List.range_add, List.map_append, List.append_assoc]

/-- A scan from an address on finds a NUL, in the allocation or behind it. -/
def OmnmPayloadImpl.FindsNul (msg : OmnmPayloadImpl) (behind : Nat → UInt8) (address : Nat) : Prop :=
  ∃ count length,
    (strlen Region.message (msg.reading behind count).mPayloadBuffer address).result = some length

end

variable [FieldTypeTags]

/-- The scans of the next call find a NUL: that of the name, and that of the data of a string
behind it. -/
structure ScansEnd (msg : OmnmPayloadImpl) (behind : Nat → UInt8) (iter : OmnmIterImpl) : Prop where
  name : msg.FindsNul behind (iter.mBufferPosition + 3)
  data : ∀ count type name behindName,
    (loadInteger Region.message (msg.reading behind count).mPayloadBuffer
      iter.mBufferPosition 1).result = some type →
    (locateName (msg.reading behind count).mPayloadBuffer (iter.mBufferPosition + 3)).result =
      some (name, behindName) →
    dataLayout (UInt8.ofNat type) = .cString → msg.FindsNul behind behindName

section

variable {msg : OmnmPayloadImpl} {behind : Nat → UInt8} {count more : Nat}
  {iter reached : OmnmIterImpl}

omit [FieldTypeTags] in
theorem locateName_append {memory : List UInt8} {position : Nat} {located : BufferPtr × Nat}
    (result : (locateName memory position).result = some located) (rest : List UInt8) :
    (locateName (memory ++ rest) position).result = some located := by
  obtain ⟨first, loaded, continued⟩ := Traced.result_bind_eq_some.mp result
  rw [locateName, Traced.result_bind, result_loadInteger_append (by decide) loaded rest,
    Option.bind_some]
  split
  · rename_i named
    rw [if_pos named] at continued
    obtain ⟨length, scanned, returned⟩ := Traced.result_bind_eq_some.mp continued
    rw [Traced.result_bind, result_strlen_append scanned rest]
    exact returned
  · rename_i nameless
    rw [if_neg nameless] at continued
    exact continued

theorem locateData_append {memory : List UInt8} {previous : BufferPtr} {type : UInt8}
    {position : Nat} {located : BufferPtr × Nat × Nat}
    (result : (locateData memory previous type position).result = some located)
    (rest : List UInt8) :
    (locateData (memory ++ rest) previous type position).result = some located := by
  rw [locateData] at result ⊢
  cases layout : dataLayout type with
  | fixed width =>
      rw [layout] at result
      exact result
  | cString =>
      rw [layout] at result
      obtain ⟨length, scanned, returned⟩ := Traced.result_bind_eq_some.mp result
      exact Traced.result_bind_eq_some.mpr ⟨length, result_strlen_append scanned rest, returned⟩
  | sized =>
      rw [layout] at result
      obtain ⟨size, loaded, returned⟩ := Traced.result_bind_eq_some.mp result
      exact Traced.result_bind_eq_some.mpr
        ⟨size, result_loadInteger_append (by decide) loaded rest, returned⟩
  | unlisted =>
      rw [layout] at result
      exact result

omit [FieldTypeTags] in
theorem loadInteger_reading_mono (fewer : count ≤ more) {offset width value : Nat}
    (positive : 0 < width)
    (loaded : (loadInteger Region.message (msg.reading behind count).mPayloadBuffer
      offset width).result = some value) :
    (loadInteger Region.message (msg.reading behind more).mPayloadBuffer offset width).result =
      some value := by
  obtain ⟨rest, longer⟩ := @exists_reading_append msg behind _ _ fewer
  exact longer ▸ result_loadInteger_append positive loaded rest

omit [FieldTypeTags] in
theorem locateName_reading_mono (fewer : count ≤ more) {position : Nat} {located : BufferPtr × Nat}
    (result : (locateName (msg.reading behind count).mPayloadBuffer position).result =
      some located) :
    (locateName (msg.reading behind more).mPayloadBuffer position).result = some located := by
  obtain ⟨rest, longer⟩ := @exists_reading_append msg behind _ _ fewer
  exact longer ▸ locateName_append result rest

theorem locateData_reading_mono (fewer : count ≤ more) {previous : BufferPtr} {type : UInt8}
    {position : Nat} {located : BufferPtr × Nat × Nat}
    (result : (locateData (msg.reading behind count).mPayloadBuffer previous type
      position).result = some located) :
    (locateData (msg.reading behind more).mPayloadBuffer previous type position).result =
      some located := by
  obtain ⟨rest, longer⟩ := @exists_reading_append msg behind _ _ fewer
  exact longer ▸ locateData_append result rest

/-- A call that returned returns the same with more memory behind the allocation. -/
theorem next_reading_mono (fewer : count ≤ more) {got : Option OmnmFieldImpl × OmnmIterImpl}
    (yielded : (omnmmsgPayloadIter_next iter (msg.reading behind count)).result = some got) :
    (omnmmsgPayloadIter_next iter (msg.reading behind more)).result = some got := by
  rw [omnmmsgPayloadIter_next] at yielded ⊢
  split at yielded
  · rename_i ended
    have ended' : omnmmsgPayloadIter_hasNext iter (msg.reading behind more) = false := ended
    rwa [if_pos ended']
  · rename_i inside
    have inside' : ¬ omnmmsgPayloadIter_hasNext iter (msg.reading behind more) = false := inside
    obtain ⟨type, typeLoaded, yielded⟩ := Traced.result_bind_eq_some.mp yielded
    obtain ⟨fid, fidLoaded, yielded⟩ := Traced.result_bind_eq_some.mp yielded
    obtain ⟨⟨name, behindName⟩, nameLocated, yielded⟩ := Traced.result_bind_eq_some.mp yielded
    obtain ⟨⟨data, size, position⟩, dataLocated, yielded⟩ := Traced.result_bind_eq_some.mp yielded
    rw [if_neg inside']
    simp only [Traced.result_bind, Option.bind_some,
      loadInteger_reading_mono fewer (by decide) typeLoaded,
      loadInteger_reading_mono fewer (by decide) fidLoaded,
      locateName_reading_mono fewer nameLocated, locateData_reading_mono fewer dataLocated]
    exact yielded

theorem advance_reading_mono (fewer : count ≤ more) {calls : Nat}
    (advanced : (advance (msg.reading behind count) calls iter).result = some reached) :
    (advance (msg.reading behind more) calls iter).result = some reached := by
  induction calls generalizing iter with
  | zero => exact advanced
  | succ calls ih =>
      obtain ⟨⟨found, next⟩, yielded, continued⟩ := Traced.result_bind_eq_some.mp advanced
      exact Traced.result_bind_eq_some.mpr ⟨_, next_reading_mono fewer yielded, ih continued⟩

/-! ## Calls that return -/

omit [FieldTypeTags] in
/-- An integer is read, in the allocation or behind it. -/
theorem exists_loadInteger_reading (msg : OmnmPayloadImpl) (behind : Nat → UInt8)
    (offset width : Nat) :
    ∃ count value, (loadInteger Region.message (msg.reading behind count).mPayloadBuffer
      offset width).result = some value := by
  refine ⟨offset + width, exists_loadInteger _ ?_⟩
  rw [length_reading]
  omega

omit [FieldTypeTags] in
/-- A name is located if the scan of it finds a NUL. -/
theorem exists_locateName_reading {position : Nat} (scans : msg.FindsNul behind position) :
    ∃ count located,
      (locateName (msg.reading behind count).mPayloadBuffer position).result = some located := by
  obtain ⟨firstCount, first, loaded⟩ := exists_loadInteger_reading msg behind position 1
  obtain ⟨scanCount, length, scanned⟩ := scans
  obtain ⟨rest, longer⟩ := @exists_reading_append msg behind scanCount (firstCount + scanCount)
    (Nat.le_add_left ..)
  refine ⟨firstCount + scanCount, ?_⟩
  rw [locateName, Traced.result_bind,
    loadInteger_reading_mono (Nat.le_add_right ..) (by decide) loaded, Option.bind_some]
  split
  · exact ⟨_, Traced.result_bind_eq_some.mpr
      ⟨length, longer ▸ result_strlen_append scanned rest, rfl⟩⟩
  · exact ⟨_, rfl⟩

/-- Data is located if it is no string, or the scan of it finds a NUL. -/
theorem exists_locateData_reading {previous : BufferPtr} {type : UInt8} {position : Nat}
    (scans : dataLayout type = .cString → msg.FindsNul behind position) :
    ∃ count located, (locateData (msg.reading behind count).mPayloadBuffer previous type
      position).result = some located := by
  cases layout : dataLayout type with
  | fixed width => exact ⟨0, _, by rw [locateData, layout]; rfl⟩
  | unlisted => exact ⟨0, _, by rw [locateData, layout]; rfl⟩
  | cString =>
      obtain ⟨count, length, scanned⟩ := scans layout
      refine ⟨count, (.offset position, length + 1, position), ?_⟩
      rw [locateData, layout]
      exact Traced.result_bind_eq_some.mpr ⟨length, scanned, rfl⟩
  | sized =>
      obtain ⟨count, size, loaded⟩ := exists_loadInteger_reading msg behind position 4
      refine ⟨count, (.offset (position + 4), size, position + 4), ?_⟩
      rw [locateData, layout]
      exact Traced.result_bind_eq_some.mpr ⟨size, loaded, rfl⟩

/-- A call returns if its scans find a NUL. -/
theorem ScansEnd.exists_next (scans : ScansEnd msg behind iter) :
    ∃ count got, (omnmmsgPayloadIter_next iter (msg.reading behind count)).result = some got := by
  obtain ⟨typeCount, type, typeLoaded⟩ :=
    exists_loadInteger_reading msg behind iter.mBufferPosition 1
  obtain ⟨fidCount, fid, fidLoaded⟩ :=
    exists_loadInteger_reading msg behind (iter.mBufferPosition + 1) 2
  obtain ⟨nameCount, ⟨name, behindName⟩, nameLocated⟩ := exists_locateName_reading scans.name
  -- with the type and the name there, it is known where the data is, and of which layout
  obtain ⟨dataCount, located, dataLocated⟩ := @exists_locateData_reading _ msg behind
    iter.mField.mData (UInt8.ofNat type) behindName fun string =>
      scans.data (typeCount + nameCount) type name behindName
        (loadInteger_reading_mono (Nat.le_add_right ..) (by decide) typeLoaded)
        (locateName_reading_mono (Nat.le_add_left ..) nameLocated) string
  refine ⟨typeCount + fidCount + nameCount + dataCount, ?_⟩
  rw [omnmmsgPayloadIter_next]
  split
  · exact ⟨_, rfl⟩
  · simp only [Traced.result_bind, Option.bind_some,
      @loadInteger_reading_mono msg behind _ (typeCount + fidCount + nameCount + dataCount)
        (by omega) _ _ _ (by decide) typeLoaded,
      @loadInteger_reading_mono msg behind _ (typeCount + fidCount + nameCount + dataCount)
        (by omega) _ _ _ (by decide) fidLoaded,
      @locateName_reading_mono msg behind _ (typeCount + fidCount + nameCount + dataCount)
        (by omega) _ _ nameLocated,
      @locateData_reading_mono _ msg behind _ (typeCount + fidCount + nameCount + dataCount)
        (by omega) _ _ _ _ dataLocated]
    exact ⟨_, rfl⟩

end

end Omnm
