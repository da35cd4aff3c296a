import Omnm.Memory.Traced
import Omnm.Memory.Bytes

/-!
# Copies within a buffer

A buffer is the list of its bytes. `overwrite` is a copy into it, clipped to
its end, as `memcpy` into an allocation leaves it. When the target lies inside,
it replaces the bytes there and no others (`overwrite_append`).

Two facts carry the mutators. Consecutive copies are one copy of the bytes
together (`overwrite_behind`). A suffix that is moved to make room for a part of
another length stands behind a gap of that length (`overwrite_gap`), which the
next copy fills.

The loads, stores and moves of the last section are these operations with
their accesses recorded.
-/

set_option autoImplicit false

namespace Omnm

universe u

/-- Copy bytes into a buffer at an offset. What would fall past the end of the
buffer is not part of it. -/
def overwrite (buffer : List UInt8) (offset : Nat) (bytes : List UInt8) : List UInt8 :=
  (buffer.take offset ++ bytes ++ buffer.drop (offset + bytes.length)).take buffer.length

/-- The bytes of a buffer from an offset, at most `length` of them. -/
def slice (buffer : List UInt8) (offset length : Nat) : List UInt8 :=
  (buffer.drop offset).take length

@[simp] theorem length_overwrite (buffer : List UInt8) (offset : Nat) (bytes : List UInt8) :
    (overwrite buffer offset bytes).length = buffer.length := by
  simp only [overwrite, List.length_take, List.length_append, List.length_drop]
  omega

@[simp] theorem overwrite_nil (buffer : List UInt8) (offset : Nat) :
    overwrite buffer offset [] = buffer := by
  simp [overwrite]

/-- A copy that stays inside replaces the bytes at its target. -/
theorem overwrite_append {before old bytes : List UInt8} (same : old.length = bytes.length)
    (after : List UInt8) :
    overwrite (before ++ old ++ after) before.length bytes = before ++ bytes ++ after := by
  have front : (before ++ old ++ after).take before.length = before := by
    rw [List.append_assoc, List.take_left]
  have back : (before ++ old ++ after).drop (before.length + bytes.length) = after := by
    rw [← same, ← List.length_append, List.drop_left]
  rw [overwrite, front, back]
  exact List.take_of_length_le (by simp [same])

/-- A buffer split at an offset inside it. -/
theorem exists_split_at {buffer : List UInt8} {offset : Nat} (inside : offset ≤ buffer.length) :
    ∃ before after, buffer = before ++ after ∧ before.length = offset :=
  ⟨buffer.take offset, buffer.drop offset, (List.take_append_drop offset buffer).symm,
    by simp [inside]⟩

/-- What follows some bytes at an offset stands behind them. -/
theorem drop_behind {buffer bytes rest : List UInt8} {offset : Nat}
    (here : buffer.drop offset = bytes ++ rest) :
    buffer.drop (offset + bytes.length) = rest := by
  rw [← List.drop_drop, here, List.drop_left]

/-- A copy that stays inside, with the bytes around its target named. -/
theorem overwrite_of_le {buffer bytes : List UInt8} {offset : Nat}
    (inside : offset + bytes.length ≤ buffer.length) :
    overwrite buffer offset bytes =
      buffer.take offset ++ bytes ++ buffer.drop (offset + bytes.length) := by
  apply List.take_of_length_le
  simp only [List.length_append, List.length_take, List.length_drop]
  omega

/-- Two copies, one behind the other, are one copy. -/
theorem overwrite_behind {buffer first second : List UInt8} {offset behind : Nat}
    (next : behind = offset + first.length) (room : behind + second.length ≤ buffer.length) :
    overwrite (overwrite buffer offset first) behind second =
      overwrite buffer offset (first ++ second) := by
  subst next
  obtain ⟨before, rest, rfl, rfl⟩ := exists_split_at (show offset ≤ buffer.length by omega)
  rw [List.length_append] at room
  obtain ⟨old, rest, rfl, sameFirst⟩ := exists_split_at (show first.length ≤ rest.length by omega)
  rw [List.length_append, sameFirst] at room
  obtain ⟨old', after, rfl, sameSecond⟩ := exists_split_at (show second.length ≤ rest.length by omega)
  have once : overwrite (before ++ old ++ (old' ++ after)) before.length first =
      before ++ first ++ old' ++ after := by
    rw [overwrite_append sameFirst, List.append_assoc (before ++ first)]
  have twice : overwrite (before ++ first ++ old' ++ after) (before.length + first.length) second =
      before ++ first ++ second ++ after := by
    rw [← List.length_append, overwrite_append sameSecond]
  have together : overwrite (before ++ (old ++ old') ++ after) before.length (first ++ second) =
      before ++ (first ++ second) ++ after :=
    overwrite_append (by simp [sameFirst, sameSecond]) after
  simp only [List.append_assoc] at once twice together ⊢
  rw [once, twice, together]

/-- Moving a suffix behind a gap of some width after a prefix keeps the prefix and
places the suffix behind the gap. -/
theorem overwrite_gap {front rest back : List UInt8} {width : Nat}
    (room : front.length + width + back.length ≤ (front ++ rest).length) :
    ∃ gap slack, overwrite (front ++ rest) (front.length + width) back =
      front ++ gap ++ back ++ slack ∧ gap.length = width := by
  rw [List.length_append] at room
  obtain ⟨gap, beyond, rfl, gapLength⟩ := exists_split_at (show width ≤ rest.length by omega)
  rw [List.length_append] at room
  obtain ⟨old, slack, rfl, oldLength⟩ := exists_split_at (show back.length ≤ beyond.length by omega)
  refine ⟨gap, slack, ?_, gapLength⟩
  have moved : overwrite (front ++ gap ++ old ++ slack) (front ++ gap).length back =
      front ++ gap ++ back ++ slack := overwrite_append oldLength slack
  rw [List.length_append, gapLength] at moved
  simpa only [List.append_assoc] using moved

/-- Moving a suffix to the front over the last bytes of what stands before it leaves its own last
bytes behind it. -/
theorem overwrite_drawn_up {front old back slack : List UInt8} {width : Nat}
    (shorter : width ≤ old.length) :
    overwrite (front ++ old ++ back ++ slack) (front.length + width) back =
      front ++ old.take width ++ back ++ (old ++ back).drop (width + back.length) ++ slack := by
  have cut : old ++ back = old.take width ++ (((old ++ back).drop width).take back.length ++
      (old ++ back).drop (width + back.length)) := by
    rw [← List.drop_drop, List.take_append_drop, ← @List.take_append_of_le_length _ old back _ shorter,
      List.take_append_drop]
  have covered := congrArg (fun middle => front ++ middle ++ slack) cut
  have place : (front ++ old.take width).length = front.length + width := by
    rw [List.length_append, List.length_take_of_le shorter]
  have moved := @overwrite_append (front ++ old.take width)
    (((old ++ back).drop width).take back.length) back
    (by rw [List.length_take, List.length_drop, List.length_append]; omega)
    ((old ++ back).drop (width + back.length) ++ slack)
  simp only [place, List.append_assoc] at covered moved ⊢
  rw [covered, moved]

/-- A part that stands in the middle of a buffer. -/
theorem slice_append (front middle back : List UInt8) :
    slice (front ++ middle ++ back) front.length middle.length = middle := by
  rw [slice, List.append_assoc, List.drop_left, List.take_left]

/-! ## Recorded accesses -/

variable {Region : Type u}

/-- Read bytes of an allocation. Reading past its end is undefined. -/
def loadBytes (region : Region) (memory : List UInt8) (offset length : Nat) :
    Traced Region (List UInt8) :=
  ⟨[.load region offset length],
    if offset + length ≤ memory.length then some (slice memory offset length) else none⟩

/-- Read a little-endian integer. -/
def loadInteger (region : Region) (memory : List UInt8) (offset width : Nat) :
    Traced Region Nat :=
  ⟨[.load region offset width], (loadBytes region memory offset width).result.map littleEndianValue⟩

/-- `strlen`: read up to and including the first NUL. Without a NUL in the
allocation the scan leaves it. -/
def strlen (region : Region) (memory : List UInt8) (offset : Nat) : Traced Region Nat :=
  match nulIndex (memory.drop offset) with
  | some length => ⟨[.load region offset (length + 1)], some length⟩
  | none => ⟨[.load region offset (memory.length - offset + 1)], none⟩

/-- `memcpy` of bytes from elsewhere into an allocation. -/
def store (region : Region) (memory : List UInt8) (offset : Nat) (bytes : List UInt8) :
    Traced Region (List UInt8) :=
  ⟨[.store region offset bytes.length], some (overwrite memory offset bytes)⟩

/-- `memmove` within an allocation. -/
def move (region : Region) (memory : List UInt8) (target source length : Nat) :
    Traced Region (List UInt8) :=
  ⟨[.move region target source length], some (overwrite memory target (slice memory source length))⟩

@[simp] theorem result_store (region : Region) (memory : List UInt8) (offset : Nat)
    (bytes : List UInt8) :
    (store region memory offset bytes).result = some (overwrite memory offset bytes) := rfl

@[simp] theorem result_move (region : Region) (memory : List UInt8)
    (target source length : Nat) :
    (move region memory target source length).result =
      some (overwrite memory target (slice memory source length)) := rfl

theorem result_loadBytes_of_drop {region : Region} {memory bytes rest : List UInt8} {offset : Nat}
    (here : memory.drop offset = bytes ++ rest) (some_bytes : bytes ≠ []) :
    (loadBytes region memory offset bytes.length).result = some bytes := by
  have length := congrArg List.length here
  have positive := List.length_pos_iff.mpr some_bytes
  simp only [List.length_drop, List.length_append] at length
  rw [loadBytes, if_pos (by omega), slice, here, List.take_left]

theorem result_loadInteger_of_drop {region : Region} {memory bytes rest : List UInt8}
    {offset width : Nat} (here : memory.drop offset = bytes ++ rest)
    (wide : bytes.length = width) (positive : 0 < width) :
    (loadInteger region memory offset width).result = some (littleEndianValue bytes) := by
  subst wide
  rw [loadInteger, result_loadBytes_of_drop here (List.length_pos_iff.mp positive), Option.map_some]

/-- An integer that was read stands in the allocation. -/
theorem exists_of_result_loadInteger {region : Region} {memory : List UInt8}
    {offset width value : Nat}
    (loaded : (loadInteger region memory offset width).result = some value) :
    ∃ bytes rest, memory.drop offset = bytes ++ rest ∧ bytes.length = width ∧
      value = littleEndianValue bytes := by
  simp only [loadInteger, loadBytes] at loaded
  split at loaded
  · rename_i inside
    rw [Option.map_some, Option.some.injEq] at loaded
    refine ⟨slice memory offset width, (memory.drop offset).drop width,
      (List.take_append_drop ..).symm, ?_, loaded.symm⟩
    rw [slice, List.length_take, List.length_drop]
    omega
  · cases loaded

/-- A string that was scanned stands in the allocation. -/
theorem exists_of_result_strlen {region : Region} {memory : List UInt8} {offset length : Nat}
    (scanned : (strlen region memory offset).result = some length) :
    ∃ (string : CString) (rest : List UInt8), memory.drop offset = string.terminated ++ rest ∧
      string.bytes.length = length := by
  cases found : nulIndex (memory.drop offset) with
  | none =>
      rw [strlen, found] at scanned
      cases scanned
  | some index =>
      rw [strlen, found, Option.some.injEq] at scanned
      obtain ⟨front, rest, split, length, noNul⟩ := nulIndex_eq_some found
      exact ⟨⟨front, noNul⟩, rest, by simp [split, CString.terminated], length.trans scanned⟩

theorem every_loadBytes {region : Region} {memory : List UInt8} {offset length : Nat}
    {holds : Access Region → Prop} :
    Traced.Every holds (loadBytes region memory offset length) ↔
      holds (.load region offset length) := by
  simp [Traced.Every, loadBytes]

theorem every_loadInteger {region : Region} {memory : List UInt8} {offset width : Nat}
    {holds : Access Region → Prop} :
    Traced.Every holds (loadInteger region memory offset width) ↔
      holds (.load region offset width) := by
  simp [Traced.Every, loadInteger]

theorem every_store {region : Region} {memory bytes : List UInt8} {offset : Nat}
    {holds : Access Region → Prop} :
    Traced.Every holds (store region memory offset bytes) ↔
      holds (.store region offset bytes.length) := by
  simp [Traced.Every, store]

theorem every_move {region : Region} {memory : List UInt8} {target source length : Nat}
    {holds : Access Region → Prop} :
    Traced.Every holds (move region memory target source length) ↔
      holds (.move region target source length) := by
  simp [Traced.Every, move]

/-- A scan that finds its NUL reads up to and including it. -/
theorem every_strlen_of_drop {region : Region} {memory rest : List UInt8} {offset : Nat}
    {string : CString} {holds : Access Region → Prop}
    (here : memory.drop offset = string.terminated ++ rest) :
    Traced.Every holds (strlen region memory offset) ↔
      holds (.load region offset string.terminated.length) := by
  simp [Traced.Every, strlen, here, string.nulIndex_terminated]

theorem result_strlen_of_drop {region : Region} {memory rest : List UInt8} {offset : Nat}
    {string : CString} (here : memory.drop offset = string.terminated ++ rest) :
    (strlen region memory offset).result = some string.bytes.length := by
  rw [strlen, here, string.nulIndex_terminated]

/-! ### More memory -/

theorem drop_append_of_drop {memory bytes rest : List UInt8} {offset : Nat}
    (here : memory.drop offset = bytes ++ rest) (some_bytes : bytes ≠ []) (more : List UInt8) :
    (memory ++ more).drop offset = bytes ++ (rest ++ more) := by
  have inside : offset ≤ memory.length := by
    have length := congrArg List.length here
    have positive := List.length_pos_iff.mpr some_bytes
    rw [List.length_drop, List.length_append] at length
    omega
  rw [List.drop_append_of_le_length inside, here, List.append_assoc]

/-- An integer that is read reads the same with more memory behind it. -/
theorem result_loadInteger_append {region : Region} {memory : List UInt8}
    {offset width value : Nat} (positive : 0 < width)
    (loaded : (loadInteger region memory offset width).result = some value) (more : List UInt8) :
    (loadInteger region (memory ++ more) offset width).result = some value := by
  obtain ⟨bytes, rest, here, wide, rfl⟩ := exists_of_result_loadInteger loaded
  have some_bytes : bytes ≠ [] := List.length_pos_iff.mp (wide ▸ positive)
  exact result_loadInteger_of_drop (drop_append_of_drop here some_bytes more) wide positive

/-- A string that is scanned scans the same with more memory behind it. -/
theorem result_strlen_append {region : Region} {memory : List UInt8} {offset length : Nat}
    (scanned : (strlen region memory offset).result = some length) (more : List UInt8) :
    (strlen region (memory ++ more) offset).result = some length := by
  obtain ⟨string, rest, here, rfl⟩ := exists_of_result_strlen scanned
  have some_bytes : string.terminated ≠ [] := by simp [CString.terminated]
  exact result_strlen_of_drop (drop_append_of_drop here some_bytes more)

/-- An integer inside is read. -/
theorem exists_loadInteger (region : Region) {memory : List UInt8} {offset width : Nat}
    (inside : offset + width ≤ memory.length) :
    ∃ value, (loadInteger region memory offset width).result = some value := by
  rw [loadInteger, loadBytes, if_pos inside]
  exact ⟨_, rfl⟩

end Omnm
