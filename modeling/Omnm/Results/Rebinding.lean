import Omnm.Payload.IteratorObjects
import Omnm.Wire.HandleUpdates
import Omnm.Wire.Walking
import Omnm.Wire.Representation

/-!
# Associating an iterator with another payload

Associating an iterator sets the payload that it reads, and leaves the parent in
its field as it was when the iterator was created. The fields that it yields from
then on are those of the new payload, but name the old one as their parent. So
the iterator is fully rebound exactly if the two payloads are the same object, or
the new one has no fields (`associate_rebinds_iff`).
-/

set_option autoImplicit false

namespace Omnm

open FieldTypeTags (tag)
open OmnmPayloadImpl

section

variable [FieldTypeTags]

/-- An iterator yields the fields of a payload, each with that payload as its parent, and an
update through one of them that is reported as OK changes this payload only, as the same update
through the field of a new iterator does. -/
structure FullyRebound (store : PayloadStore) (msg : Nat) (entries : List FieldEntry)
    (object : IterObject) : Prop where
  yields : ∃ fields last,
    (object.nextUntilNull store (entries.length + 1)).result = some (fields, last) ∧
      (fields.map fun field => (store msg).shown field.field) = entries.map FieldEntry.shown ∧
      ∀ field ∈ fields, field.mParent = msg
  updates : ∀ fields last fresh others last',
    (object.nextUntilNull store (entries.length + 1)).result = some (fields, last) →
    (omnmmsgPayloadIter_create store msg).result = some (.ok, fresh) →
    (fresh.nextUntilNull store (entries.length + 1)).result = some (others, last') →
    ∀ (index : Nat) field, fields[index]? = some field → ∃ other, others[index]? = some other ∧
      ∀ allocator update changed after,
        (field.update allocator store msg update).result = some (.ok, changed, after) →
        (∀ address, address ≠ msg → changed address = store address) ∧
          ∃ after', (other.update allocator store msg update).result = some (.ok, changed, after')

/-! ## Iterators and their payloads -/

namespace IterObject

variable {store : PayloadStore} {object last : IterObject}

theorem next_result : (object.next store).result =
    (omnmmsgPayloadIter_next object.iter (store object.mMsg)).result.map fun outcome =>
      (outcome.1.map fun field => ⟨field, object.mMsg, object.mParent⟩,
        { object with iter := outcome.2 }) := by
  rw [next, Traced.result_bind]
  cases (omnmmsgPayloadIter_next object.iter (store object.mMsg)).result with
  | none => rfl
  | some outcome => rfl

/-- The calls of an iterator leave its two payloads. -/
theorem mParent_of_advance {count : Nat}
    (advanced : (object.advance store count).result = some last) :
    last.mParent = object.mParent := by
  induction count generalizing object with
  | zero =>
      cases advanced
      rfl
  | succ count ih =>
      obtain ⟨⟨field, moved⟩, yielded, continued⟩ := Traced.result_bind_eq_some.mp advanced
      rw [next_result] at yielded
      obtain ⟨outcome, -, same⟩ := Option.map_eq_some_iff.mp yielded
      cases same
      exact @ih ⟨object.mMsg, outcome.2, object.mParent⟩ continued

/-- The fields that an iterator yields have its two payloads. -/
theorem nextUntilNull_result (rounds : Nat) : (object.nextUntilNull store rounds).result =
    (Omnm.nextUntilNull (store object.mMsg) rounds object.iter).result.map fun outcome =>
      (outcome.1.map fun field => ⟨field, object.mMsg, object.mParent⟩,
        { object with iter := outcome.2 }) := by
  induction rounds generalizing object with
  | zero => rfl
  | succ rounds ih =>
      rw [nextUntilNull, Omnm.nextUntilNull, Traced.result_bind, Traced.result_bind, next_result]
      cases (omnmmsgPayloadIter_next object.iter (store object.mMsg)).result with
      | none => rfl
      | some outcome =>
          obtain ⟨field, iter⟩ := outcome
          cases field with
          | none => rfl
          | some field =>
              simp only [Option.map_some, Option.bind_some, Traced.result_bind, ih]
              cases (Omnm.nextUntilNull (store object.mMsg) rounds iter).result with
              | none => rfl
              | some later => rfl

end IterObject

variable {store : PayloadStore} {msg : Nat} {entries : List FieldEntry} {object : IterObject}

theorem beginOn_result (decodes : (store msg).Decodes entries) (object : IterObject) :
    (object.beginOn store msg).result =
      some ⟨msg, startFrom (store msg) object.iter entries, object.mParent⟩ := by
  obtain ⟨yielded, placed, -⟩ := decodes.begin_from object.iter
  rw [IterObject.beginOn, Traced.result_bind, placed]
  rfl

/-- The fields that an iterator yields once it was placed on a payload. -/
theorem placed_nextUntilNull (decodes : (store msg).Decodes entries) (iter : OmnmIterImpl)
    (mParent : Nat) :
    ∃ last, (IterObject.nextUntilNull store (entries.length + 1)
        ⟨msg, startFrom (store msg) iter entries, mParent⟩).result = some
      ((fieldHandles entries (store msg).getHeaderSize
          (startFrom (store msg) iter entries).mField.mData).map fun field =>
        ⟨field, msg, mParent⟩, last) := by
  have place : (startFrom (store msg) iter entries).mBufferPosition =
      (store msg).getHeaderSize := by
    cases entries <;> rfl
  obtain ⟨last, result⟩ := (decodes.ahead_from iter).nextUntilNull (Nat.lt_succ_self _)
  rw [IterObject.nextUntilNull_result, result, place]
  exact ⟨_, rfl⟩

/-- An update through a field that is reported as OK is an update of the payload that the field
points into. -/
theorem exists_of_update {field after : FieldObject} {allocator : Allocator} {update : FieldUpdate}
    {changed : PayloadStore}
    (updated : (field.update allocator store msg update).result = some (.ok, changed, after)) :
    ∃ next located, (update.perform allocator (store field.pointsInto) field.field).result =
        some (.ok, next, located) ∧
      changed = Function.update store field.pointsInto next := by
  unfold FieldObject.update at updated
  split at updated
  · cases updated
  · obtain ⟨⟨status, next, located⟩, performed, returned⟩ := Traced.result_bind_eq_some.mp updated
    cases returned
    exact ⟨next, located, performed, rfl⟩

/-- Behind a handle stands a field, with as many fields in front of it. -/
theorem exists_split_of_place {position index : Nat} {previous : BufferPtr} {field : OmnmFieldImpl}
    (place : (fieldHandles entries position previous)[index]? = some field) :
    ∃ before entry after, entries = before ++ entry :: after ∧ before.length = index := by
  have inside : index < entries.length := by
    rw [← length_fieldHandles entries position previous]
    exact (List.getElem?_eq_some_iff.mp place).1
  refine ⟨entries.take index, entries[index], entries.drop (index + 1), ?_, ?_⟩
  · rw [← List.drop_eq_getElem_cons inside, List.take_append_drop]
  · rw [List.length_take, Nat.min_eq_left (Nat.le_of_lt inside)]

/-- An iterator whose parent is the payload it was placed on, or that has nothing to yield, is
fully rebound. -/
theorem fullyRebound_of_parent (decodes : (store msg).Decodes entries) {iter : OmnmIterImpl}
    {mParent : Nat} (bound : mParent = msg ∨ entries = []) :
    FullyRebound store msg entries ⟨msg, startFrom (store msg) iter entries, mParent⟩ where
  yields := by
    obtain ⟨last, result⟩ := placed_nextUntilNull decodes iter mParent
    obtain ⟨rest, here⟩ := decodes.here
    refine ⟨_, last, result, ?_, ?_⟩
    · rw [List.map_map]
      exact map_shown_fieldHandles decodes.fits here _
    · intro field member
      obtain ⟨located, member, rfl⟩ := List.mem_map.mp member
      rcases bound with same | none
      · exact same
      · rw [none] at member
        cases member
  updates := by
    intro fields last fresh others last' result create result' index field place
    obtain ⟨_, known⟩ := placed_nextUntilNull decodes iter mParent
    cases known.symm.trans result
    rw [omnmmsgPayloadIter_create, Traced.result_bind, beginOn_result decodes] at create
    cases create
    obtain ⟨_, known'⟩ := placed_nextUntilNull decodes ⟨OmnmFieldImpl.zeroed, 0, 0⟩ msg
    cases known'.symm.trans result'
    rw [List.getElem?_map, Option.map_eq_some_iff] at place
    obtain ⟨located, place, rfl⟩ := place
    obtain ⟨before, entry, after, split, rfl⟩ := exists_split_of_place place
    subst split
    obtain ⟨previous, here⟩ := fieldHandles_split before entry after
      (store msg).getHeaderSize (startFrom (store msg) iter _).mField.mData
    cases here.symm.trans place
    obtain ⟨previous', here'⟩ := fieldHandles_split before entry after (store msg).getHeaderSize
      (startFrom (store msg) ⟨OmnmFieldImpl.zeroed, 0, 0⟩ _).mField.mData
    have same : mParent = msg := bound.resolve_right (by simp)
    refine ⟨_, by rw [List.getElem?_map, here', Option.map_some], ?_⟩
    intro allocator update changed moved updated
    obtain ⟨next, located, performed, rfl⟩ := exists_of_update updated
    refine ⟨fun address other => Function.update_of_ne other _ _, moved, ?_⟩
    obtain ⟨type, bytes, written, sameType, -⟩ := FieldUpdate.perform_eq performed
    have listed : dataLayout entry.type ≠ .unlisted := by
      rw [FieldEntry.handle_mFieldType] at sameType
      rw [sameType]
      exact dataLayout_tag type (FieldUpdate.written_fits written).1
    rw [← same, entry.handle_of_listed listed _ previous' previous]
    rw [← same] at updated
    exact updated

end

/-- An iterator that is created on one payload, advanced any number of times and associated with
another payload is fully rebound exactly if the two are one object or the other has no fields. -/
theorem associate_rebinds_iff [FieldTypeTags] {store : PayloadStore} {first second : Nat}
    {message message' : Message} (represents : (store first).Represents message)
    (represents' : (store second).Represents message') {status status' : MamaStatus} {steps : Nat}
    {created advanced associated : IterObject}
    (create : (omnmmsgPayloadIter_create store first).result = some (status, created))
    (advance : (created.advance store steps).result = some advanced)
    (associate : (omnmmsgPayloadIter_associate store advanced second).result =
      some (status', associated)) :
    FullyRebound store second message'.entries associated ↔
      first = second ∨ message'.entries = [] := by
  rw [omnmmsgPayloadIter_create, Traced.result_bind, beginOn_result represents.decodes] at create
  cases create
  have parent := IterObject.mParent_of_advance advance
  rw [omnmmsgPayloadIter_associate, Traced.result_bind, beginOn_result represents'.decodes]
    at associate
  cases associate
  rw [parent]
  constructor
  · intro rebound
    obtain ⟨fields, last, result, shows, parents⟩ := rebound.yields
    obtain ⟨_, known⟩ := placed_nextUntilNull represents'.decodes advanced.iter first
    cases known.symm.trans result
    cases entries : message'.entries with
    | nil => exact .inr rfl
    | cons entry others =>
        rw [entries] at parents
        -- the first field that is yielded names the payload of the creation
        exact .inl (parents _ (List.mem_map_of_mem (List.mem_cons_self ..)))
  · intro bound
    exact fullyRebound_of_parent represents'.decodes bound

section Example

attribute [local instance] mamaFieldTypes

/-- A message with one string, under fid 1. -/
def oneStringMessage : Message :=
  ⟨mamaPayloadIdOmnm, 1, [], [⟨mamaFieldTypeNumber .string, 1, CString.empty, [97, 98, 0]⟩],
    UInt8.le_refl omnmProtocolVersion, Message.extra_nil_lt, by
      intro entry member
      rw [List.mem_singleton.mp member]
      decide⟩

/-- Two payloads with the same message. -/
def twoPayloads : PayloadStore := fun _ => oneStringMessage.payload

/-- The iterator that was created on a payload. -/
def createdOn (msg : Nat) : IterObject :=
  ⟨msg, ⟨⟨mamaFieldTypeNumber .string, 1, .null, 3, .offset 7⟩, 3, 1⟩, msg⟩

theorem create_result (msg : Nat) :
    (omnmmsgPayloadIter_create twoPayloads msg).result = some (.ok, createdOn msg) := by
  rw [omnmmsgPayloadIter_create, Traced.result_bind,
    beginOn_result oneStringMessage.payload_represents.decodes]
  rfl

theorem associate_result (msg other : Nat) :
    (omnmmsgPayloadIter_associate twoPayloads (createdOn msg) other).result =
      some (.ok, { createdOn msg with mMsg := other }) := by
  rw [omnmmsgPayloadIter_associate, Traced.result_bind,
    beginOn_result oneStringMessage.payload_represents.decodes]
  rfl

/-- An iterator that is associated with its own payload starts over. -/
theorem associate_rebinds_itself :
    FullyRebound twoPayloads 0 oneStringMessage.entries (createdOn 0) :=
  (associate_rebinds_iff oneStringMessage.payload_represents oneStringMessage.payload_represents
    (create_result 0) (show (IterObject.advance twoPayloads 0 _).result = some _ from rfl)
    (associate_result 0 0)).mpr (.inl rfl)

/-- An iterator that is associated with another payload yields a field of that payload with the
first one as its parent, and an update to a longer string through it is undefined. -/
theorem associate_keeps_parent :
    (twoPayloads 0).Represents oneStringMessage ∧ (twoPayloads 1).Represents oneStringMessage ∧
      (omnmmsgPayloadIter_create twoPayloads 0).result = some (.ok, createdOn 0) ∧
      (omnmmsgPayloadIter_associate twoPayloads (createdOn 0) 1).result =
        some (.ok, { createdOn 0 with mMsg := 1 }) ∧
      ¬ FullyRebound twoPayloads 1 oneStringMessage.entries { createdOn 0 with mMsg := 1 } ∧
      ∃ field last, (IterObject.nextUntilNull twoPayloads 2
          { createdOn 0 with mMsg := 1 }).result = some ([field], last) ∧ field.mParent = 0 ∧
        (field.update .zeroing twoPayloads 1
          (.string (some ⟨[97, 98, 99], by decide⟩))).result = none := by
  have yielded : (IterObject.nextUntilNull twoPayloads 2 { createdOn 0 with mMsg := 1 }).result =
      some ([⟨(createdOn 0).iter.mField, 1, 0⟩], { createdOn 0 with
        mMsg := 1
        iter := ⟨(createdOn 0).iter.mField, 10, 2⟩ }) := by
    decide +kernel
  refine ⟨oneStringMessage.payload_represents, oneStringMessage.payload_represents,
    create_result 0, associate_result 0 1, ?_, _, _, yielded, rfl, ?_⟩
  · intro rebound
    obtain ⟨fields, last, result, -, parents⟩ := rebound.yields
    cases yielded.symm.trans result
    exact absurd (parents _ (List.mem_cons_self ..)) (by decide)
  · exact congrArg Traced.result (if_pos (by decide))

end Example

end Omnm
