import Omnm.Wire.MemoryBehind

/-!
# Iterations end

Whatever the bytes of a payload are, a call of the iterator that returns is at
the end, or it goes forward by the four bytes of a type, a field identifier and
a terminator at least (`FieldRead.advances`). Only the first call, which `begin`
makes, goes back to the header, and no later one is made with an index of 0. So
a loop over the fields ends after as many rounds as there are four bytes between
the header and the tail, and so do the loops that count the fields and that look
one up (`iterations_terminate`).

What is assumed is that the scans of names and of strings find some NUL, in the
allocation or behind it. Whatever else is read behind the allocation may be any
byte.
-/

set_option autoImplicit false

namespace Omnm

open OmnmPayloadImpl

section

variable [FieldTypeTags]

omit [FieldTypeTags] in
/-- The iterator as `begin` rewinds it. -/
def OmnmIterImpl.rewound (iter : OmnmIterImpl) (msg : OmnmPayloadImpl) : OmnmIterImpl :=
  { iter with mIndex := 0, mBufferPosition := msg.getHeaderSize }

/-- Every call that is made on an iterator, one after another, returns. -/
def CallsReturn (msg : OmnmPayloadImpl) (iter : OmnmIterImpl) : Prop :=
  ∀ calls reached, (advance msg calls iter).result = some reached →
    ∃ got, (omnmmsgPayloadIter_next reached msg).result = some got

/-- A call yields nothing and leaves the iterator at the end, or yields a field and moves the
iterator forward. -/
def Progresses (msg : OmnmPayloadImpl) (iter : OmnmIterImpl) : Prop :=
  (msg.mPayloadBufferTail ≤ iter.mBufferPosition ∧
      (omnmmsgPayloadIter_next iter msg).result = some (none, iter)) ∨
    ∃ field next, (omnmmsgPayloadIter_next iter msg).result = some (some field, next) ∧
      iter.mBufferPosition + 4 ≤ next.mBufferPosition ∧ next.mIndex = iter.mIndex + 1

omit [FieldTypeTags] in
/-- The number of fields that there can be between the header and the tail. -/
def fieldBound (msg : OmnmPayloadImpl) (position : Nat) : Nat :=
  (msg.mPayloadBufferTail - position + 3) / 4

variable {msg : OmnmPayloadImpl} {iter next : OmnmIterImpl} {field : OmnmFieldImpl} {rounds : Nat}

/-! ## One call -/

/-- The first call was made, or there is nothing to read. -/
def Started (msg : OmnmPayloadImpl) (iter : OmnmIterImpl) : Prop :=
  iter.mIndex ≠ 0 ∨ msg.mPayloadBufferTail ≤ iter.mBufferPosition

/-- A call that returns makes progress, if the first call was made. -/
theorem progresses_of_started (started : Started msg iter)
    (returns : ∃ got, (omnmmsgPayloadIter_next iter msg).result = some got) :
    Progresses msg iter := by
  obtain ⟨⟨found, next⟩, yielded⟩ := returns
  rcases next_cases yielded with ⟨rfl, rfl, ended⟩ | ⟨field, rfl, read⟩
  · exact .inl ⟨ended, yielded⟩
  · have index : iter.mIndex ≠ 0 := started.resolve_right (Nat.not_le.mpr read.inside)
    exact .inr ⟨field, next, yielded, read.advances index, read.index⟩

/-! ## All calls -/

theorem CallsReturn.later (returns : CallsReturn msg iter) {found : Option OmnmFieldImpl}
    (yielded : (omnmmsgPayloadIter_next iter msg).result = some (found, next)) :
    CallsReturn msg next := by
  intro calls reached advanced
  apply returns (calls + 1) reached
  rw [advance, Traced.result_bind, yielded]
  exact advanced

/-- No call goes back. -/
theorem started_of_advance {calls : Nat} {reached : OmnmIterImpl} (started : Started msg iter)
    (advanced : (advance msg calls iter).result = some reached) :
    Started msg reached ∧ iter.mBufferPosition ≤ reached.mBufferPosition := by
  induction calls generalizing iter with
  | zero =>
      cases advanced
      exact ⟨started, Nat.le_refl _⟩
  | succ calls ih =>
      obtain ⟨⟨found, next⟩, yielded, continued⟩ := Traced.result_bind_eq_some.mp advanced
      rcases next_cases yielded with ⟨-, same, -⟩ | ⟨field, -, read⟩
      · rw [same] at continued
        exact ih started continued
      · have index : iter.mIndex ≠ 0 := started.resolve_right (Nat.not_le.mpr read.inside)
        have forward := read.advances index
        obtain ⟨later, behind⟩ := ih (.inl (read.index ▸ Nat.succ_ne_zero _)) continued
        exact ⟨later, by omega⟩

/-- The index stays an `int`, along all calls. -/
theorem mIndex_lt_of_advance (small : msg.mPayloadBufferTail < 2 ^ 32) {calls : Nat}
    {reached : OmnmIterImpl} (counted : iter.Counted) (index : iter.mIndex < 2 ^ 31)
    (advanced : (advance msg calls iter).result = some reached) : reached.mIndex < 2 ^ 31 := by
  induction calls generalizing iter with
  | zero =>
      cases advanced
      exact index
  | succ calls ih =>
      obtain ⟨⟨found, next⟩, yielded, continued⟩ := Traced.result_bind_eq_some.mp advanced
      rcases next_cases yielded with ⟨-, same, -⟩ | ⟨field, -, read⟩
      · rw [same] at continued
        exact ih counted index continued
      · exact ih (read.counted counted) (read.mIndex_lt counted small) continued

/-- The loop over the fields ends, after a field for each four bytes at most. -/
theorem exists_nextUntilNull (returns : CallsReturn msg iter) (started : Started msg iter)
    (enough : msg.mPayloadBufferTail ≤ iter.mBufferPosition + 4 * rounds) :
    ∃ fields last, (nextUntilNull msg (rounds + 1) iter).result = some (fields, last) ∧
      fields.length ≤ fieldBound msg iter.mBufferPosition := by
  induction rounds generalizing iter with
  | zero =>
      refine ⟨[], iter, nextUntilNull_of_null ?_ _, Nat.zero_le _⟩
      rw [next_of_le (by omega)]
      rfl
  | succ rounds ih =>
      rcases progresses_of_started started (returns 0 iter rfl) with
        ⟨-, yielded⟩ | ⟨field, next, yielded, forward, index⟩
      · exact ⟨[], iter, nextUntilNull_of_null yielded _, Nat.zero_le _⟩
      · have index_ne_zero : next.mIndex ≠ 0 := index ▸ Nat.succ_ne_zero _
        obtain ⟨fields, last, result, bound⟩ := ih (returns.later yielded)
          (.inl index_ne_zero) (by omega)
        have inside := (fieldRead_of_next yielded).inside
        refine ⟨field :: fields, last, nextUntilNull_of_field yielded result, ?_⟩
        rw [fieldBound] at bound ⊢
        rw [List.length_cons]
        omega

omit [FieldTypeTags] in
/-- A string that was scanned can be read. -/
theorem exists_loadCString {memory : List UInt8} {offset length : Nat}
    (scanned : (strlen Region.message memory offset).result = some length) :
    ∃ bytes, (loadCString memory offset).result = some bytes := by
  obtain ⟨string, rest, here, same⟩ := exists_of_result_strlen scanned
  have lengths := congrArg List.length here
  rw [List.length_drop, List.length_append, CString.length_terminated] at lengths
  have inside : offset + length ≤ memory.length := by omega
  refine ⟨slice memory offset length, ?_⟩
  rw [loadCString, Traced.result_bind, scanned, Option.bind_some, loadBytes, if_pos inside]

/-- The name of a field that was yielded is compared. -/
theorem exists_nameMatches
    (yielded : (omnmmsgPayloadIter_next iter msg).result = some (some field, next))
    (name : Option CString) : ∃ same, (nameMatches msg name field).result = some same := by
  obtain ⟨behindName, -, located, -⟩ := (fieldRead_of_next yielded).located
  cases name with
  | none => exact ⟨false, rfl⟩
  | some name =>
      rcases locateName_cases located with ⟨length, scanned, pointer, -⟩ | ⟨-, pointer, -⟩
      · obtain ⟨bytes, loaded⟩ := exists_loadCString scanned
        refine ⟨decide (name.bytes = bytes), ?_⟩
        simp only [nameMatches, pointer, Traced.result_bind, loaded, Option.bind_some,
          Traced.result_pure]
      · exact ⟨false, by simp only [nameMatches, pointer, Traced.result_pure]⟩

/-- The loop that looks up a field ends. -/
theorem exists_findFrom (returns : CallsReturn msg iter) (started : Started msg iter)
    (enough : msg.mPayloadBufferTail ≤ iter.mBufferPosition + 4 * rounds) (name : Option CString)
    (fid : UInt16) : ∃ found, (msg.findFrom name fid (rounds + 1) iter).result = some found := by
  induction rounds generalizing iter with
  | zero =>
      refine ⟨none, ?_⟩
      rw [findFrom, next_of_le (by omega)]
      rfl
  | succ rounds ih =>
      rw [findFrom, Traced.result_bind]
      rcases progresses_of_started started (returns 0 iter rfl) with
        ⟨-, yielded⟩ | ⟨field, next, yielded, forward, index⟩
      · exact ⟨none, by rw [yielded]; rfl⟩
      · have index_ne_zero : next.mIndex ≠ 0 := index ▸ Nat.succ_ne_zero _
        obtain ⟨found, result⟩ := ih (returns.later yielded) (.inl index_ne_zero) (by omega)
        obtain ⟨same, compared⟩ := exists_nameMatches yielded name
        rw [yielded, Option.bind_some]
        dsimp only
        by_cases sameFid : fid ≠ 0 ∧ fid = field.mFid
        · exact ⟨some field, by rw [if_pos sameFid]; rfl⟩
        · rw [if_neg sameFid, Traced.result_bind, compared, Option.bind_some]
          cases same with
          | true => exact ⟨some field, rfl⟩
          | false => exact ⟨found, result⟩

/-! ## Two iterators at one place -/

omit [FieldTypeTags] in
/-- Iterators that differ only in the field that they yielded last. -/
def SamePlace (iter other : OmnmIterImpl) : Prop :=
  iter.mBufferPosition = other.mBufferPosition ∧ iter.mIndex = other.mIndex

theorem exists_locateData_of_previous {memory : List UInt8} {previous data : BufferPtr}
    {type : UInt8} {position size behind : Nat}
    (located : (locateData memory previous type position).result = some (data, size, behind))
    (other : BufferPtr) :
    ∃ data', (locateData memory other type position).result = some (data', size, behind) := by
  cases dataLocated_of_result located with
  | unlisted layout =>
      refine ⟨other, ?_⟩
      rw [locateData, layout]
      rfl
  | fixed layout | cString layout | sized layout =>
      rw [locateData, layout] at located ⊢
      exact ⟨_, located⟩

theorem SamePlace.step {other : OmnmIterImpl} (same : SamePlace iter other)
    {found : Option OmnmFieldImpl}
    (yielded : (omnmmsgPayloadIter_next iter msg).result = some (found, next)) :
    ∃ found' next', (omnmmsgPayloadIter_next other msg).result = some (found', next') ∧
      SamePlace next next' := by
  obtain ⟨position, index⟩ := same
  by_cases inside : iter.mBufferPosition < msg.mPayloadBufferTail
  · have insideOther : other.mBufferPosition < msg.mPayloadBufferTail := position ▸ inside
    rw [omnmmsgPayloadIter_next, if_neg (hasNext_of_lt inside)] at yielded
    rw [omnmmsgPayloadIter_next, if_neg (hasNext_of_lt insideOther)]
    obtain ⟨type, typeLoaded, yielded⟩ := Traced.result_bind_eq_some.mp yielded
    obtain ⟨fid, fidLoaded, yielded⟩ := Traced.result_bind_eq_some.mp yielded
    obtain ⟨⟨name, behindName⟩, nameLocated, yielded⟩ := Traced.result_bind_eq_some.mp yielded
    obtain ⟨⟨data, size, behind⟩, dataLocated, yielded⟩ := Traced.result_bind_eq_some.mp yielded
    obtain ⟨data', otherLocated⟩ :=
      exists_locateData_of_previous dataLocated other.mField.mData
    cases yielded
    rw [position] at typeLoaded fidLoaded nameLocated
    simp only [Traced.result_bind, typeLoaded, fidLoaded, nameLocated, otherLocated,
      Option.bind_some, Traced.result_pure, index]
    exact ⟨_, _, rfl, rfl, rfl⟩
  · have ended : msg.mPayloadBufferTail ≤ iter.mBufferPosition := Nat.not_lt.mp inside
    rw [next_of_le ended] at yielded
    cases yielded
    exact ⟨none, other, by rw [next_of_le (position ▸ ended)]; rfl, position, index⟩

theorem SamePlace.callsReturn {other : OmnmIterImpl} (same : SamePlace iter other)
    (returns : CallsReturn msg iter) : CallsReturn msg other := by
  intro calls
  induction calls generalizing iter other with
  | zero =>
      rintro reached advanced
      cases advanced
      obtain ⟨⟨found, next⟩, yielded⟩ := returns 0 iter rfl
      obtain ⟨found', next', yielded', -⟩ := same.step yielded
      exact ⟨_, yielded'⟩
  | succ calls ih =>
      intro reached advanced
      obtain ⟨⟨found, next⟩, yielded⟩ := returns 0 iter rfl
      obtain ⟨found', next', yielded', same'⟩ := same.step yielded
      rw [advance, Traced.result_bind, yielded', Option.bind_some] at advanced
      exact ih same' (returns.later yielded) reached advanced

/-! ## Memory behind the allocation -/

/-- Nothing is read at the end. -/
theorem callsReturn_of_ended (ended : msg.mPayloadBufferTail ≤ iter.mBufferPosition) :
    CallsReturn msg iter := by
  intro calls
  induction calls with
  | zero =>
      rintro reached advanced
      cases advanced
      exact ⟨(none, iter), by rw [next_of_le ended]; rfl⟩
  | succ calls ih =>
      intro reached advanced
      rw [advance, next_of_le ended, pure_bind] at advanced
      exact ih reached advanced

/-- The scans of all calls find a NUL. -/
def AllScansEnd (msg : OmnmPayloadImpl) (behind : Nat → UInt8) (iter : OmnmIterImpl) : Prop :=
  ∀ count calls reached, (advance (msg.reading behind count) calls iter).result = some reached →
    reached.mBufferPosition < msg.mPayloadBufferTail → ScansEnd msg behind reached

variable {behind : Nat → UInt8} {count : Nat}

theorem AllScansEnd.later (scans : AllScansEnd msg behind iter) {found : Option OmnmFieldImpl}
    (yielded : (omnmmsgPayloadIter_next iter (msg.reading behind count)).result =
      some (found, next)) : AllScansEnd msg behind next := by
  intro count' calls reached advanced
  -- with the larger of the two counts the calls are one run
  apply scans (max count count') (calls + 1) reached
  rw [advance, Traced.result_bind, next_reading_mono (Nat.le_max_left ..) yielded]
  exact advance_reading_mono (Nat.le_max_right ..) advanced

/-- Every call returns once enough memory is there, if that is so behind the next one. -/
theorem AllScansEnd.step (scans : AllScansEnd msg behind iter)
    (later : ∀ count field next,
      (omnmmsgPayloadIter_next iter (msg.reading behind count)).result = some (some field, next) →
      ∃ enough, ∀ count, enough ≤ count → CallsReturn (msg.reading behind count) next) :
    ∃ enough, ∀ count, enough ≤ count → CallsReturn (msg.reading behind count) iter := by
  by_cases inside : iter.mBufferPosition < msg.mPayloadBufferTail
  · obtain ⟨first, ⟨found, next⟩, yielded⟩ := (scans 0 0 iter rfl inside).exists_next
    rcases next_cases yielded with ⟨-, -, ended⟩ | ⟨field, rfl, -⟩
    · exact absurd inside (Nat.not_lt.mpr ended)
    · obtain ⟨enough, returns⟩ := later first field next yielded
      refine ⟨max first enough, ?_⟩
      intro count large calls reached advanced
      have yielded' := next_reading_mono (Nat.le_trans (Nat.le_max_left ..) large) yielded
      cases calls with
      | zero =>
          cases advanced
          exact ⟨_, yielded'⟩
      | succ calls =>
          rw [advance, Traced.result_bind, yielded'] at advanced
          exact returns count (Nat.le_trans (Nat.le_max_right ..) large) calls reached advanced
  · exact ⟨0, fun count _ => callsReturn_of_ended (Nat.not_lt.mp inside)⟩

/-- Every call returns once enough memory is there, if the first one was made. -/
theorem AllScansEnd.callsReturn_of_index (scans : AllScansEnd msg behind iter)
    (index : iter.mIndex ≠ 0) :
    ∃ enough, ∀ count, enough ≤ count → CallsReturn (msg.reading behind count) iter := by
  -- every call takes the position nearer to the tail
  induction distance : msg.mPayloadBufferTail - iter.mBufferPosition using Nat.strong_induction_on
    generalizing iter with
  | _ distance ih =>
      refine scans.step ?_
      intro count field next yielded
      have read := fieldRead_of_next yielded
      have inside : iter.mBufferPosition < msg.mPayloadBufferTail := read.inside
      have forward := read.advances index
      exact ih _ (by omega) (scans.later yielded) (read.index ▸ Nat.succ_ne_zero _) rfl

theorem AllScansEnd.callsReturn (scans : AllScansEnd msg behind iter) :
    ∃ enough, ∀ count, enough ≤ count → CallsReturn (msg.reading behind count) iter := by
  refine scans.step ?_
  intro count field next yielded
  refine (scans.later yielded).callsReturn_of_index ?_
  rw [(fieldRead_of_next yielded).index]
  exact Nat.succ_ne_zero _

/-! ## From the first call on -/

/-- The first call that `begin` makes leaves the iterator behind the header. -/
theorem exists_begin {old : OmnmIterImpl} (returns : CallsReturn msg (old.rewound msg)) :
    ∃ first start, (omnmmsgPayloadIter_begin old msg).result = some (first, start) ∧
      CallsReturn msg start ∧ Started msg start ∧ start.mBufferPosition = msg.getHeaderSize ∧
      start.Counted ∧ start.mIndex ≤ 1 := by
  obtain ⟨⟨first, start⟩, begun⟩ := returns 0 _ rfl
  refine ⟨first, start, begun, returns.later begun, ?_⟩
  rcases next_cases begun with ⟨-, same, ended⟩ | ⟨field, -, read⟩
  · rw [same]
    exact ⟨.inr ended, rfl, Nat.zero_le _, Nat.zero_le _⟩
  · obtain ⟨_, _, -, -, position⟩ := read.located
    have index : start.mIndex = 1 := read.index
    exact ⟨.inl (by omega), position.trans (if_pos rfl), read.counted (Nat.zero_le _), by omega⟩

/-- The iteration of `omnmmsgPayload_getNumFields` ends, whatever iterator was begun with. -/
theorem exists_getNumFields {old : OmnmIterImpl} (returns : CallsReturn msg (old.rewound msg)) :
    ∃ count, (omnmmsgPayload_getNumFields msg).result = some (.ok, count) ∧
      count ≤ fieldBound msg msg.getHeaderSize := by
  have zeroed : SamePlace (old.rewound msg)
      ((⟨OmnmFieldImpl.zeroed, 0, 0⟩ : OmnmIterImpl).rewound msg) := ⟨rfl, rfl⟩
  obtain ⟨first, start, begun, later, started, position, -⟩ :=
    exists_begin (zeroed.callsReturn returns)
  have enough : msg.mPayloadBufferTail ≤ start.mBufferPosition + 4 * msg.mPayloadBufferTail := by
    omega
  obtain ⟨fields, last, looped, bound⟩ := exists_nextUntilNull later started enough
  refine ⟨fields.length, ?_, position ▸ bound⟩
  rw [omnmmsgPayload_getNumFields, iterateFields, omnmmsgPayloadIterImpl_init, iterationBound]
  simp only [Traced.result_bind, begun, looped, Option.bind_some, Traced.result_pure]

theorem exists_findFieldInBuffer {old : OmnmIterImpl}
    (returns : CallsReturn msg (old.rewound msg)) (name : Option CString) (fid : UInt16) :
    ∃ found, (msg.findFieldInBuffer name fid).result = some found := by
  have zeroed : SamePlace (old.rewound msg)
      ((⟨OmnmFieldImpl.zeroed, 0, 0⟩ : OmnmIterImpl).rewound msg) := ⟨rfl, rfl⟩
  obtain ⟨first, start, begun, later, started, -⟩ := exists_begin (zeroed.callsReturn returns)
  have enough : msg.mPayloadBufferTail ≤ start.mBufferPosition + 4 * msg.mPayloadBufferTail := by
    omega
  obtain ⟨found, looped⟩ := exists_findFrom later started enough name fid
  refine ⟨found, ?_⟩
  rw [findFieldInBuffer, omnmmsgPayloadIterImpl_init, iterationBound]
  simp only [Traced.result_bind, begun, looped, Option.bind_some, Traced.result_pure]

end

/-- Whatever the bytes in the allocation and behind it, and on whatever iterator `begin` is called,
if the scans for names and strings find a NUL: once as much of the memory is there as they read,
every call behind `begin` goes four bytes forward or is at the end, and never goes back to the
first field; the loop ends with at most as many fields as there are four bytes behind the header,
and so do the loops of `omnmmsgPayload_getNumFields` and `findFieldInBuffer`. -/
theorem iterations_terminate [FieldTypeTags] (msg : OmnmPayloadImpl)
    (small : msg.mPayloadBufferTail < 2 ^ 32) (behind : Nat → UInt8) (old : OmnmIterImpl)
    (scans : AllScansEnd msg behind (old.rewound msg)) :
    ∃ enough, ∀ count, enough ≤ count →
      (∃ first start,
        (omnmmsgPayloadIter_begin old (msg.reading behind count)).result = some (first, start) ∧
        (∀ calls iter, (advance (msg.reading behind count) calls start).result = some iter →
          msg.getHeaderSize ≤ iter.mBufferPosition ∧ iter.mIndex < 2 ^ 31 ∧
            Progresses (msg.reading behind count) iter) ∧
        ∃ fields last,
          (nextUntilNull (msg.reading behind count) (fields.length + 1) start).result =
            some (fields, last) ∧
          fields.length ≤ (msg.mPayloadBufferTail - msg.getHeaderSize + 3) / 4 ∧
          (msg.mPayloadBufferTail ≤ msg.getHeaderSize → fields = [])) ∧
      (∃ number,
        (omnmmsgPayload_getNumFields (msg.reading behind count)).result = some (.ok, number) ∧
        number ≤ (msg.mPayloadBufferTail - msg.getHeaderSize + 3) / 4) ∧
      ∀ name fid, ∃ found,
        ((msg.reading behind count).findFieldInBuffer name fid).result = some found := by
  obtain ⟨enough, returns⟩ := scans.callsReturn
  refine ⟨enough, ?_⟩
  intro count large
  have returns : CallsReturn (msg.reading behind count) (old.rewound (msg.reading behind count)) :=
    returns count large
  refine ⟨?_, exists_getNumFields returns, exists_findFieldInBuffer returns⟩
  obtain ⟨first, start, begun, later, started, position, counted, index⟩ := exists_begin returns
  refine ⟨first, start, begun, ?_, ?_⟩
  · intro calls iter advanced
    obtain ⟨startedLater, forward⟩ := started_of_advance started advanced
    have short : (msg.reading behind count).mPayloadBufferTail < 2 ^ 32 := small
    refine ⟨position ▸ forward, mIndex_lt_of_advance short counted (by omega) advanced, ?_⟩
    exact progresses_of_started startedLater (later calls iter advanced)
  · have enough : (msg.reading behind count).mPayloadBufferTail ≤
        start.mBufferPosition + 4 * msg.mPayloadBufferTail := by
      rw [reading_mPayloadBufferTail]
      omega
    obtain ⟨fields, last, looped, bound⟩ := exists_nextUntilNull later started enough
    rw [fieldBound, position, reading_getHeaderSize, reading_mPayloadBufferTail] at bound
    refine ⟨fields, last, nextUntilNull_rounds looped, bound, ?_⟩
    intro short
    exact List.length_eq_zero_iff.mp (by omega)

section Example

attribute [local instance] mamaFieldTypes

/-- A byte, and behind it the type of a field and nothing more, at the end of the allocation. -/
def cutBehindType : OmnmPayloadImpl :=
  ⟨[79, 1, 0, mamaFieldTypeNumber .i8, 1, 0, 0, 5, mamaFieldTypeNumber .string], 9,
    OmnmHeader.default, []⟩

/-- Memory with two bytes and zeros behind them. -/
def straySeven (address : Nat) : UInt8 := if address < 2 then 7 else 0

/-- Every scan finds one of the zeros. -/
theorem findsNul_straySeven (msg : OmnmPayloadImpl) (address : Nat) :
    msg.FindsNul straySeven address := by
  have zero : (0 : UInt8) ∈ (msg.reading straySeven (address + 3)).mPayloadBuffer.drop address := by
    have wide := @length_reading msg straySeven (address + 3)
    have last : (msg.reading straySeven (address + 3)).mPayloadBuffer.getLast? = some 0 := by
      simp [reading, List.range_succ, straySeven]
    have kept : ¬ (msg.reading straySeven (address + 3)).mPayloadBuffer.length ≤ address := by omega
    refine List.mem_of_getLast? ?_
    rw [List.getLast?_drop, if_neg kept, last]
  obtain ⟨index, found⟩ := exists_nulIndex zero
  exact ⟨address + 3, index, by rw [strlen, found]⟩

theorem cutBehindType_terminates :
    ∃ enough, ∀ count, enough ≤ count →
      (∃ first start, (omnmmsgPayloadIter_begin ⟨OmnmFieldImpl.zeroed, 7, 9⟩
          (cutBehindType.reading straySeven count)).result = some (first, start) ∧
        (∀ calls iter,
          (advance (cutBehindType.reading straySeven count) calls start).result = some iter →
          3 ≤ iter.mBufferPosition ∧ iter.mIndex < 2 ^ 31 ∧
            Progresses (cutBehindType.reading straySeven count) iter) ∧
        ∃ fields last, (nextUntilNull (cutBehindType.reading straySeven count) (fields.length + 1)
            start).result = some (fields, last) ∧
          fields.length ≤ 2 ∧ (9 ≤ 3 → fields = [])) ∧
      (∃ number, (omnmmsgPayload_getNumFields (cutBehindType.reading straySeven count)).result =
          some (.ok, number) ∧ number ≤ 2) ∧
      ∀ name fid, ∃ found,
        ((cutBehindType.reading straySeven count).findFieldInBuffer name fid).result =
          some found :=
  iterations_terminate cutBehindType (by decide) straySeven _ fun _ _ _ _ _ =>
    ⟨findsNul_straySeven _ _, fun _ _ _ _ _ _ _ => findsNul_straySeven _ _⟩

end Example

end Omnm
