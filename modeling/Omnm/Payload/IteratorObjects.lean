import Mathlib.Logic.Function.Basic
import Omnm.Payload.FieldUpdates

/-!
# Iterators over several payloads

Payload objects by their address, and iterators that name two of them:
`omnmIterImpl` has the payload it reads (`mMsg`), and inside its field the
payload that updates through the field go to (`mField.mParent`).
`omnmmsgPayloadIter_begin` sets the first one only.

The pointers of a field that an iterator yields go into the buffer of the payload
it was read from. An update that keeps the length of the data writes through
them, whichever payload it is made on. One that changes the length subtracts the
buffer of its own payload from them, which is defined only when that is the
payload they go into.
-/

set_option autoImplicit false

namespace Omnm

open FieldTypeTags (tag)

/-- The payload objects, by address. -/
abbrev PayloadStore := Nat → OmnmPayloadImpl

/-- `omnmIterImpl`, with the addresses of its two payloads. -/
structure IterObject where
  mMsg : Nat
  iter : OmnmIterImpl
  mParent : Nat
  deriving DecidableEq, Repr

/-- A field that an iterator yields: its pointers, the payload they go into, and the parent. -/
structure FieldObject where
  field : OmnmFieldImpl
  pointsInto : Nat
  mParent : Nat
  deriving DecidableEq, Repr

variable [FieldTypeTags]

namespace IterObject

/-- `omnmmsgPayloadIter_next`, on the payload that the iterator reads. -/
def next (store : PayloadStore) (object : IterObject) :
    Traced Region (Option FieldObject × IterObject) := do
  let (field, iter) ← omnmmsgPayloadIter_next object.iter (store object.mMsg)
  pure (field.map fun field => ⟨field, object.mMsg, object.mParent⟩, { object with iter })

/-- `omnmmsgPayloadIter_begin`. -/
def beginOn (store : PayloadStore) (object : IterObject) (msg : Nat) : Traced Region IterObject := do
  let (_, iter) ← omnmmsgPayloadIter_begin object.iter (store msg)
  pure { object with mMsg := msg, iter }

/-- Calls of `omnmmsgPayloadIter_next`, whatever they yield. -/
def advance (store : PayloadStore) : Nat → IterObject → Traced Region IterObject
  | 0, object => pure object
  | count + 1, object => do
      let (_, object) ← object.next store
      advance store count object

/-- The loop that calls `omnmmsgPayloadIter_next` until it gives NULL. -/
def nextUntilNull (store : PayloadStore) :
    Nat → IterObject → Traced Region (List FieldObject × IterObject)
  | 0, _ => Traced.fault
  | rounds + 1, object => do
      let (field, object) ← object.next store
      match field with
      | none => pure ([], object)
      | some field => do
          let (fields, object) ← nextUntilNull store rounds object
          pure (field :: fields, object)

end IterObject

/-- `omnmmsgPayloadIter_create`, when there is memory for the iterator. -/
def omnmmsgPayloadIter_create (store : PayloadStore) (msg : Nat) :
    Traced Region (MamaStatus × IterObject) := do
  let object ← IterObject.beginOn store ⟨msg, ⟨OmnmFieldImpl.zeroed, 0, 0⟩, msg⟩ msg
  pure (.ok, object)

/-- `omnmmsgPayloadIter_associate`. -/
def omnmmsgPayloadIter_associate (store : PayloadStore) (object : IterObject) (msg : Nat) :
    Traced Region (MamaStatus × IterObject) := do
  let object ← object.beginOn store msg
  pure (.ok, object)

/-- The update has data for the field, of another length. -/
def FieldUpdate.Resizes (update : FieldUpdate) (field : OmnmFieldImpl) : Prop :=
  ∃ written ∈ update.written, field.mFieldType = tag written.1 ∧ written.2.length ≠ field.mSize

instance (update : FieldUpdate) (field : OmnmFieldImpl) : Decidable (update.Resizes field) :=
  inferInstanceAs (Decidable (∃ written ∈ update.written, _ ∧ _))

namespace FieldObject

/-- The payload whose members an update changes: the parent of the field, or the payload that
the call is given. -/
def target (object : FieldObject) (msg : Nat) (update : FieldUpdate) : Nat :=
  match update.target with
  | .mParent => object.mParent
  | .msg => msg

/-- An update through a field, with the payload that the call is given. -/
def update (allocator : Allocator) (store : PayloadStore) (msg : Nat) (object : FieldObject)
    (update : FieldUpdate) : Traced Region (MamaStatus × PayloadStore × FieldObject) :=
  if object.target msg update ≠ object.pointsInto ∧ update.Resizes object.field then Traced.fault
  else do
    let (status, next, field) ←
      update.perform allocator (store object.pointsInto) object.field
    pure (status, Function.update store object.pointsInto next, { object with field })

end FieldObject

end Omnm
