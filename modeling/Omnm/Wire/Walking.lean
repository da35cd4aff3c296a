import Omnm.Wire.FieldCalls

/-!
# Iterations that go on

An iterator keeps an offset, and what its next calls yield depends on the bytes
from there on and on the tail. `Walk` says in terms of the buffer when these
calls yield given fields and then NULL: the fields stand there encoded, each
starts in front of the tail, and the last ends at the tail or behind it
(`yields_iff_walk`, `walk_iff`). Nothing is assumed about how the iterator came
to its place.

An iterator that is created or associated is one whose first read was made and
taken back (`Decodes.begin_from`). After some calls it stands behind the fields
that it yielded (`Ahead.advance`). A whole iteration shows the fields that stand
encoded at the front and goes on behind them (`exists_of_nextUntilNull`).
-/

set_option autoImplicit false

namespace Omnm

variable [FieldTypeTags]

/-! ## Advancing -/

/-- `omnmmsgPayloadIter_next` a number of times. The field that is yielded last is
the one inside the iterator. -/
def advance (msg : OmnmPayloadImpl) : Nat → OmnmIterImpl → Traced Region OmnmIterImpl
  | 0, iter => pure iter
  | count + 1, iter => do
      let (_, iter) ← omnmmsgPayloadIter_next iter msg
      advance msg count iter

section Advance

variable {msg : OmnmPayloadImpl} {entries before after : List FieldEntry} {entry : FieldEntry}
  {iter : OmnmIterImpl}

/-- After a call for each of some fields, the iterator stands behind them. -/
theorem Ahead.advance (ahead : Ahead msg iter (before ++ after)) :
    ∃ next, (Omnm.advance msg before.length iter).result = some next ∧ Ahead msg next after ∧
      next.mBufferPosition = iter.mBufferPosition + (encodeAll before).length := by
  induction before generalizing iter with
  | nil => exact ⟨iter, rfl, ahead, rfl⟩
  | cons entry before ih =>
      obtain ⟨next, result, later, position⟩ := ih ahead.step
      refine ⟨next, ?_, later, ?_⟩
      · rw [List.length_cons, Omnm.advance, Traced.result_bind, ahead.next, Option.bind_some,
          result]
      · rw [position, stepIter, encodeAll_cons, List.length_append, Nat.add_assoc]

theorem advance_add (msg : OmnmPayloadImpl) (first second : Nat)
    (iter : OmnmIterImpl) :
    Omnm.advance msg (first + second) iter =
      Omnm.advance msg first iter >>= Omnm.advance msg second := by
  induction first generalizing iter with
  | zero => rw [Nat.zero_add, Omnm.advance, pure_bind]
  | succ first ih =>
      rw [Nat.succ_add, Omnm.advance, Omnm.advance, bind_assoc]
      exact congrArg _ (funext fun outcome => ih outcome.2)

/-- The call for a field leaves the iterator at the next one, with the field inside. -/
theorem Ahead.advance_last (ahead : Ahead msg iter (before ++ entry :: after))
    {next : OmnmIterImpl} (advanced : (Omnm.advance msg (before.length + 1) iter).result = some next) :
    Ahead msg next after ∧ next.mIndex ≠ 0 ∧
      next.mBufferPosition =
        iter.mBufferPosition + (encodeAll before).length + entry.encode.length ∧
      ∃ previous, next.mField =
        entry.handle (iter.mBufferPosition + (encodeAll before).length) previous := by
  obtain ⟨reached, result, later, position⟩ := ahead.advance
  rw [advance_add, Traced.result_bind, result, Option.bind_some] at advanced
  simp only [Omnm.advance, Traced.result_bind, later.next, Option.bind_some] at advanced
  cases advanced
  rw [← position]
  exact ⟨later.step, Nat.succ_ne_zero _, rfl, _, rfl⟩

end Advance

/-! ## What the next calls yield -/

/-- What a handle shows: a value, and the length of its data. -/
def OmnmPayloadImpl.shown (msg : OmnmPayloadImpl) (field : OmnmFieldImpl) : FieldValue × Nat :=
  (msg.valueOf field, field.mSize)

omit [FieldTypeTags] in
/-- What the handle of a field is to show. -/
def FieldEntry.shown (entry : FieldEntry) : FieldValue × Nat := (entry.value, entry.data.length)

/-- The handles of consecutive fields show them. -/
theorem map_shown_fieldHandles {msg : OmnmPayloadImpl} {entries : List FieldEntry} {position : Nat}
    {rest : List UInt8} (fits : AllFit entries)
    (here : msg.mPayloadBuffer.drop position = encodeAll entries ++ rest) (previous : BufferPtr) :
    (fieldHandles entries position previous).map msg.shown = entries.map FieldEntry.shown := by
  induction entries generalizing position previous with
  | nil => rfl
  | cons entry entries ih =>
      rw [encodeAll_cons, List.append_assoc] at here
      have first := OmnmPayloadImpl.valueOf_handle (fits entry (List.mem_cons_self ..)) here previous
      have others := ih (fun other member => fits other (List.mem_cons_of_mem _ member))
        (drop_behind here) (entry.handle position previous).mData
      rw [fieldHandles, List.map_cons, List.map_cons, others, OmnmPayloadImpl.shown, first]
      rfl

/-- The next calls yield the fields, one after another, and then NULL. -/
def Yields (msg : OmnmPayloadImpl) (iter : OmnmIterImpl) (entries : List FieldEntry) : Prop :=
  ∃ fields last, (nextUntilNull msg (entries.length + 1) iter).result = some (fields, last) ∧
    fields.map msg.shown = entries.map FieldEntry.shown

/-- The fields stand encoded from a position on, each starts in front of the tail, and the
last leads to the tail or past it. -/
def Walk (msg : OmnmPayloadImpl) : Nat → List FieldEntry → Prop
  | position, [] => msg.mPayloadBufferTail ≤ position
  | position, entry :: entries =>
      position < msg.mPayloadBufferTail ∧
        (∃ rest, msg.mPayloadBuffer.drop position = entry.encode ++ rest) ∧
        Walk msg (position + entry.encode.length) entries

section Walking

variable {msg : OmnmPayloadImpl} {iter next : OmnmIterImpl} {entries : List FieldEntry}
  {entry : FieldEntry} {field : OmnmFieldImpl}

/-- A walk in terms of the whole bytes. -/
theorem walk_iff {position : Nat} : Walk msg position entries ↔
    (∃ rest, msg.mPayloadBuffer.drop position = encodeAll entries ++ rest) ∧
      (∀ front last, entries = front ++ [last] →
        position + (encodeAll front).length < msg.mPayloadBufferTail) ∧
      msg.mPayloadBufferTail ≤ position + (encodeAll entries).length := by
  induction entries generalizing position with
  | nil =>
      constructor
      · intro ended
        refine ⟨⟨_, rfl⟩, ?_, ended⟩
        intro front last split
        exact absurd (congrArg List.length split) (by simp)
      · rintro ⟨-, -, ended⟩
        exact ended
  | cons entry entries ih =>
      rw [Walk, ih, encodeAll_cons, List.length_append]
      constructor
      · rintro ⟨inside, ⟨behind, here⟩, ⟨rest, later⟩, starts, ended⟩
        refine ⟨⟨rest, ?_⟩, ?_, by omega⟩
        · rw [here, List.append_assoc, ← later, drop_behind here]
        · rintro front last split
          cases front with
          | nil => exact inside
          | cons first front =>
              rw [List.cons_append, List.cons.injEq] at split
              obtain ⟨rfl, split⟩ := split
              have start := starts front last split
              rw [encodeAll_cons, List.length_append]
              omega
      · rintro ⟨⟨rest, here⟩, starts, ended⟩
        rw [List.append_assoc] at here
        refine ⟨?_, ⟨_, here⟩, ⟨rest, drop_behind here⟩, ?_, by omega⟩
        · obtain ⟨front, last, split⟩ := (List.eq_nil_or_concat' (entry :: entries)).resolve_left
            (List.cons_ne_nil _ _)
          have start := starts front last split
          omega
        · intro front last split
          have start := starts (entry :: front) last (by rw [split, List.cons_append])
          rw [encodeAll_cons, List.length_append] at start
          omega

/-- The fields that a payload decodes to are walked over from any of them. -/
theorem OmnmPayloadImpl.Decodes.walk {before after : List FieldEntry}
    (decodes : msg.Decodes (before ++ after)) :
    Walk msg (msg.getHeaderSize + (encodeAll before).length) after := by
  obtain ⟨rest, here⟩ := decodes.here
  have ends := decodes.ends
  rw [encodeAll_append, List.append_assoc] at here
  rw [encodeAll_append, List.length_append] at ends
  refine walk_iff.mpr ⟨⟨rest, drop_behind here⟩, ?_, by omega⟩
  rintro front last rfl
  have wide := last.four_le_length_encode
  rw [encodeAll_append, List.length_append, encodeAll_cons, List.length_append] at ends
  omega

/-- A handle that shows a field was read where the field stands encoded. -/
theorem encoded_of_shown (yielded : (omnmmsgPayloadIter_next iter msg).result =
      some (some field, next)) (shows : msg.shown field = entry.shown) :
    ∃ rest, msg.mPayloadBuffer.drop iter.mBufferPosition = entry.encode ++ rest := by
  have value : msg.valueOf field = entry.value := congrArg Prod.fst shows
  have size : field.mSize = entry.data.length := congrArg Prod.snd shows
  have data : bytesAt msg.mPayloadBuffer field.mSize field.mData = entry.data :=
    congrArg FieldValue.data value
  have within : field.mSize = 0 ∨ ∃ start, field.mData = .offset start ∧
      start + field.mSize ≤ msg.mPayloadBuffer.length := by
    cases place : field.mData with
    | null | stray =>
        rw [place, bytesAt] at data
        exact .inl (by rw [size, ← data, List.length_nil])
    | offset start =>
        rw [place, bytesAt, slice] at data
        have length := congrArg List.length data
        rw [List.length_take, List.length_drop] at length
        by_cases none : field.mSize = 0
        · exact .inl none
        · exact .inr ⟨start, rfl, by omega⟩
  obtain ⟨found, rest, fits, here⟩ := encoded_of_next yielded within
  have inside := (fieldRead_of_next yielded).inside
  cases (next_of_drop fits here inside).symm.trans yielded
  rw [OmnmPayloadImpl.valueOf_handle fits here] at value
  exact ⟨rest, FieldEntry.value_injective value ▸ here⟩

/-- The next calls yield fields exactly if the iterator can walk over them. -/
theorem yields_iff_walk (fits : AllFit entries) (started : entries ≠ [] → iter.mIndex ≠ 0) :
    Yields msg iter entries ↔ Walk msg iter.mBufferPosition entries := by
  induction entries generalizing iter with
  | nil =>
      rw [Walk]
      constructor
      · rintro ⟨fields, last, result, shows⟩
        rcases nextUntilNull_cases result with ⟨-, yielded⟩ | ⟨field, next, later, some_fields, -⟩
        · exact (ended_of_next_none yielded).1
        · rw [some_fields] at shows
          cases shows
      · intro ended
        refine ⟨[], iter, nextUntilNull_of_null ?_ _, rfl⟩
        rw [next_of_le ended]
        rfl
  | cons entry entries ih =>
      have first := fits entry (List.mem_cons_self ..)
      have others : AllFit entries := fun other member => fits other (List.mem_cons_of_mem _ member)
      have index : iter.mIndex ≠ 0 := started (List.cons_ne_nil _ _)
      have later : Yields msg (stepIter iter entry) entries ↔
          Walk msg (iter.mBufferPosition + entry.encode.length) entries :=
        ih others fun _ => Nat.succ_ne_zero _
      have next_eq : ∀ rest, msg.mPayloadBuffer.drop iter.mBufferPosition = entry.encode ++ rest →
          iter.mBufferPosition < msg.mPayloadBufferTail →
          (omnmmsgPayloadIter_next iter msg).result =
            some (some (entry.handle iter.mBufferPosition iter.mField.mData),
              stepIter iter entry) := by
        intro rest here inside
        rw [next_of_drop first here inside, nextPosition, if_neg index, stepIter]
      rw [Walk, ← later]
      constructor
      · rintro ⟨fields, last, result, shows⟩
        rcases nextUntilNull_cases result with ⟨rfl, -⟩ | ⟨field, next, others, rfl, yielded, looped⟩
        · cases shows
        · have read := fieldRead_of_next yielded
          rw [List.map_cons, List.map_cons, List.cons.injEq] at shows
          obtain ⟨rest, here⟩ := encoded_of_shown yielded shows.1
          cases (next_eq rest here read.inside).symm.trans yielded
          exact ⟨read.inside, ⟨rest, here⟩, others, _, looped, shows.2⟩
      · rintro ⟨inside, ⟨rest, here⟩, fields, last, result, shows⟩
        refine ⟨entry.handle iter.mBufferPosition iter.mField.mData :: fields, last, ?_, ?_⟩
        · exact nextUntilNull_of_field (next_eq rest here inside) result
        · rw [List.map_cons, List.map_cons, shows, OmnmPayloadImpl.shown,
            OmnmPayloadImpl.valueOf_handle first here]
          rfl

/-! ## A whole iteration -/

/-- A loop that returned needs a round for each field and one more. -/
theorem nextUntilNull_rounds {rounds : Nat} {fields : List OmnmFieldImpl} {last : OmnmIterImpl}
    (result : (nextUntilNull msg rounds iter).result = some (fields, last)) :
    (nextUntilNull msg (fields.length + 1) iter).result = some (fields, last) := by
  induction rounds generalizing iter fields with
  | zero => cases result
  | succ rounds ih =>
      rcases nextUntilNull_cases result with ⟨rfl, yielded⟩ |
        ⟨field, next, later, rfl, yielded, looped⟩
      · exact nextUntilNull_of_null yielded _
      · exact nextUntilNull_of_field yielded (ih looped)

/-- A loop over fields that stand encoded shows them, and then goes on behind them. -/
theorem exists_of_nextUntilNull {front : List FieldEntry} {rest : List UInt8} {rounds : Nat}
    {fields : List OmnmFieldImpl} {last : OmnmIterImpl} (fits : AllFit front)
    (here : msg.mPayloadBuffer.drop iter.mBufferPosition = encodeAll front ++ rest)
    (inside : iter.mBufferPosition + (encodeAll front).length ≤ msg.mPayloadBufferTail)
    (started : iter.mIndex ≠ 0)
    (result : (nextUntilNull msg rounds iter).result = some (fields, last)) :
    ∃ later reached rounds', fields.map msg.shown =
        front.map FieldEntry.shown ++ later.map msg.shown ∧
      (nextUntilNull msg rounds' reached).result = some (later, last) ∧
      reached.mBufferPosition = iter.mBufferPosition + (encodeAll front).length ∧
      reached.mIndex ≠ 0 := by
  induction front generalizing iter rounds fields with
  | nil => exact ⟨fields, iter, rounds, rfl, result, rfl, started⟩
  | cons entry front ih =>
      rw [encodeAll_cons, List.append_assoc] at here
      rw [encodeAll_cons, List.length_append] at inside
      have first := fits entry (List.mem_cons_self ..)
      have wide := entry.four_le_length_encode
      have yielded := next_of_drop first here (by omega)
      rw [nextPosition, if_neg started] at yielded
      cases rounds with
      | zero => cases result
      | succ rounds =>
          rcases nextUntilNull_cases result with ⟨-, none⟩ | ⟨field, next, later, rfl, same, looped⟩
          · cases yielded.symm.trans none
          cases yielded.symm.trans same
          obtain ⟨behind, reached, rounds', shows, result', position, index⟩ :=
            @ih (stepIter iter entry) rounds later
              (fun other member => fits other (List.mem_cons_of_mem _ member))
              (drop_behind here) (by rw [stepIter, Nat.add_assoc]; exact inside)
              (Nat.succ_ne_zero _) looped
          refine ⟨behind, reached, rounds', ?_, result', ?_, index⟩
          · rw [List.map_cons, List.map_cons, List.cons_append, shows, OmnmPayloadImpl.shown,
              OmnmPayloadImpl.valueOf_handle first here]
            rfl
          · rw [position, stepIter, encodeAll_cons, List.length_append, Nat.add_assoc]

/-- A new iterator stands behind the header, and has made its first read if there is a field. -/
theorem position_of_init (result : (omnmmsgPayloadIterImpl_init msg).result = some iter)
    (inside : msg.getHeaderSize < msg.mPayloadBufferTail) :
    iter.mBufferPosition = msg.getHeaderSize ∧ iter.mIndex ≠ 0 := by
  rw [omnmmsgPayloadIterImpl_init, omnmmsgPayloadIter_begin] at result
  obtain ⟨⟨found, reached⟩, yielded, returned⟩ := Traced.result_bind_eq_some.mp result
  cases returned
  rcases next_cases yielded with ⟨-, -, ended⟩ | ⟨field, -, read⟩
  · exact absurd inside (Nat.not_lt.mpr ended)
  · obtain ⟨_, _, -, -, position⟩ := read.located
    exact ⟨position.trans (if_pos rfl), read.index ▸ Nat.one_ne_zero⟩

end Walking

end Omnm
