import Omnm.Payload.HeldBlocks

/-!
# What a field keeps, by its values and by its blocks

The getters keep their results in the field. `FieldResults` has the values of
what is kept, `FieldMemory` the blocks. Both have a shape: whether there is a
sub-payload, how long the array of strings is, and which entries of the other
arrays are not NULL. A getter changes the shape of the one as that of the other
(`FieldGetter.onShape`).
-/

set_option autoImplicit false

namespace Omnm

/-- The size of the array of strings is in bytes. Entries are told by whether they are there. -/
structure KeptShape where
  mSubPayload : Bool
  mVectorString : Nat
  mVectorPayload : List Bool
  mVectorDateTime : List Bool
  mVectorPrice : List Bool
  deriving DecidableEq, Repr

/-- `sizeof (char*)`. -/
def sizeofPointer : Nat := 8

/-- The shape of the values. -/
def FieldResults.shape (results : FieldResults) : KeptShape where
  mSubPayload := results.mSubPayload.isSome
  mVectorString := sizeofPointer * results.mVectorString.length
  mVectorPayload := results.mVectorPayload.map Option.isSome
  mVectorDateTime := results.mVectorDateTime.map Option.isSome
  mVectorPrice := results.mVectorPrice.map Option.isSome

/-- The size of a buffer. -/
def Held.size : Held Nat → Nat
  | .null => 0
  | .block _ size => size

/-- The entries of an array that are there. -/
def Held.filled {Entry : Type} (array : Held (List (Option Entry))) : List Bool :=
  array.entries.map Option.isSome

/-- The shape of the blocks. -/
def FieldMemory.shape (mField : FieldMemory PayloadMemory) : KeptShape where
  mSubPayload := mField.mSubPayload.isSome
  mVectorString := mField.mVectorString.size
  mVectorPayload := mField.mVectorPayload.filled
  mVectorDateTime := mField.mVectorDateTime.filled
  mVectorPrice := mField.mVectorPrice.filled

/-- An array with room for some entries. -/
def growShape (entries : List Bool) (count : Nat) : List Bool :=
  entries ++ List.replicate (count - entries.length) false

/-- Entries that are made, where they are not there already. -/
def fillShape : List Bool → List Bool → List Bool
  | [], entries => entries
  | _ :: _, [] => []
  | made :: mades, entry :: entries => (entry || made) :: fillShape mades entries

/-- What a getter does to the shape. -/
def FieldGetter.onShape (shape : KeptShape) : FieldGetter → KeptShape
  | .getMsg given => { shape with mSubPayload := shape.mSubPayload || given.length ≠ 0 }
  | .getVectorString _ size => { shape with mVectorString := max shape.mVectorString size }
  | .getVectorDateTime _ count => { shape with
      mVectorDateTime := fillShape (List.replicate count true) (growShape shape.mVectorDateTime count) }
  | .getVectorPrice _ count => { shape with
      mVectorPrice := fillShape (List.replicate count true) (growShape shape.mVectorPrice count) }
  | .getVectorMsg _ messages => { shape with
      mVectorPayload := fillShape (messages.map fun given => given.length ≠ 0)
        (growShape shape.mVectorPayload messages.length) }

/-! ## Blocks -/

namespace FieldMemory

open PayloadMemory

theorem ends_growBuffer (moves : Bool) (newSize : Nat) (held : Held Nat) :
    Ends (growBuffer moves newSize held) fun grown => grown.size = max held.size newSize := by
  cases held with
  | null =>
      rw [growBuffer]
      split
      · rename_i nothing
        exact ends_pure (by simp [Held.size, nothing])
      · exact (ends_any _).bind fun _ _ => ends_pure (by simp [Held.size])
  | block old size =>
      rw [growBuffer]
      split
      · rename_i enough
        exact ends_pure (Nat.max_eq_left enough).symm
      · rename_i more
        exact (ends_any _).bind fun _ _ => ends_pure (Nat.max_eq_right (Nat.le_of_not_le more)).symm

theorem ends_growArray {Entry : Type} (moves : Bool) (count : Nat)
    (held : Held (List (Option Entry))) :
    Ends (growArray moves count held) fun grown => grown.filled = growShape held.filled count := by
  cases held with
  | null =>
      rw [growArray]
      split
      · rename_i nothing
        exact ends_pure (by simp [Held.filled, Held.entries, growShape, nothing])
      · exact (ends_any _).bind fun _ _ => ends_pure (by simp [Held.filled, Held.entries, growShape])
  | block old entries =>
      rw [growArray]
      split
      · rename_i enough
        exact ends_pure (by simp [Held.filled, Held.entries, growShape, Nat.sub_eq_zero_of_le enough])
      · exact (ends_any _).bind fun _ _ => ends_pure (by simp [Held.filled, Held.entries, growShape])

theorem ends_onEntries {Entry : Type} {made : List Bool}
    {change : List (Option Entry) → HeapAction (List (Option Entry))}
    (ends : ∀ entries, Ends (change entries) fun changed =>
      changed.map Option.isSome = fillShape made (entries.map Option.isSome))
    {held : Held (List (Option Entry))} (enough : made.length ≤ held.entries.length) :
    Ends (onEntries change held) fun changed => changed.filled = fillShape made held.filled := by
  cases held with
  | null =>
      obtain rfl := List.length_eq_zero_iff.mp (Nat.le_zero.mp enough)
      exact ends_pure rfl
  | block number entries => exact (ends entries).bind fun _ same => ends_pure same

theorem ends_createObjects (count : Nat) (entries : List (Option Block)) :
    Ends (createObjects count entries) fun filled =>
      filled.map Option.isSome = fillShape (List.replicate count true) (entries.map Option.isSome) := by
  induction count generalizing entries with
  | zero => exact ends_pure rfl
  | succ count ih =>
      cases entries with
      | nil => exact ends_failure
      | cons entry entries =>
          cases entry with
          | none =>
              refine (ends_any _).bind fun object _ => (ih entries).bind ?_
              intro filled same
              exact ends_pure (by simp [List.replicate_succ, fillShape, same])
          | some object =>
              refine (ih entries).bind ?_
              intro filled same
              exact ends_pure (by simp [List.replicate_succ, fillShape, same])

theorem ends_fillSubPayload (given : GivenBytes) (entry : Option PayloadMemory) :
    Ends (fillSubPayload given entry) fun filled =>
      filled.isSome = (entry.isSome || given.length ≠ 0) := by
  cases entry with
  | none =>
      rw [fillSubPayload, PayloadMemory.omnmmsgPayload_createFromByteBuffer]
      split
      · rename_i nothing
        exact ends_pure (by simp [nothing])
      · rename_i some_bytes
        exact (ends_any _).bind fun _ _ => (ends_any _).bind fun _ _ =>
          ends_pure (by simp [some_bytes])
  | some payload => exact (ends_any _).bind fun _ _ => ends_pure (by simp)

theorem ends_fillSubPayloads (messages : List GivenBytes) (entries : List (Option PayloadMemory)) :
    Ends (fillSubPayloads messages entries) fun filled =>
      filled.map Option.isSome =
        fillShape (messages.map fun given => given.length ≠ 0) (entries.map Option.isSome) := by
  induction messages generalizing entries with
  | nil =>
      rw [fillSubPayloads]
      exact ends_pure rfl
  | cons given messages ih =>
      cases entries with
      | nil => exact ends_failure
      | cons entry entries =>
          rw [fillSubPayloads]
          refine (ends_fillSubPayload given entry).bind ?_
          intro filled first
          refine (ih entries).bind ?_
          intro later rest
          exact ends_pure (by simp [fillShape, first, rest])

theorem length_le_growShape (entries : List Bool) (count : Nat) :
    count ≤ (growShape entries count).length := by
  rw [growShape, List.length_append, List.length_replicate]
  omega

/-- An array grows, and then its entries are made. -/
theorem ends_grow {Entry : Type} {made : List Bool} {moves : Bool}
    {change : List (Option Entry) → HeapAction (List (Option Entry))}
    (ends : ∀ entries, Ends (change entries) fun changed =>
      changed.map Option.isSome = fillShape made (entries.map Option.isSome))
    (held : Held (List (Option Entry))) :
    Ends (growArray moves made.length held >>= onEntries change) fun changed =>
      changed.filled = fillShape made (growShape held.filled made.length) := by
  refine (ends_growArray moves made.length held).bind ?_
  intro grown same
  have enough : made.length ≤ grown.entries.length := by
    have long := length_le_growShape held.filled made.length
    rwa [← same, Held.filled, List.length_map] at long
  refine (ends_onEntries ends enough).mono ?_
  intro changed after
  rw [after, same]

end FieldMemory

open FieldMemory

/-- A getter leaves the blocks in the shape that it should. -/
theorem ends_getter (getter : FieldGetter) (mField : FieldMemory PayloadMemory) :
    Ends (getter.perform mField) fun kept => kept.shape = getter.onShape mField.shape := by
  cases getter with
  | getMsg given =>
      refine (ends_fillSubPayload given mField.mSubPayload).bind ?_
      intro filled same
      exact ends_pure (by simp [FieldMemory.shape, FieldGetter.onShape, same])
  | getVectorString moves size =>
      refine (ends_growBuffer moves size mField.mVectorString).bind ?_
      intro grown same
      exact ends_pure (by simp [FieldMemory.shape, FieldGetter.onShape, same])
  | getVectorDateTime moves count =>
      have ends := @ends_grow _ (List.replicate count true) moves _ (ends_createObjects count)
        mField.mVectorDateTime
      rw [List.length_replicate] at ends
      refine ends.bind ?_
      intro array same
      exact ends_pure (by simp [FieldMemory.shape, FieldGetter.onShape, same])
  | getVectorPrice moves count =>
      have ends := @ends_grow _ (List.replicate count true) moves _ (ends_createObjects count)
        mField.mVectorPrice
      rw [List.length_replicate] at ends
      refine ends.bind ?_
      intro array same
      exact ends_pure (by simp [FieldMemory.shape, FieldGetter.onShape, same])
  | getVectorMsg moves messages =>
      have ends := @ends_grow _ _ moves _ (ends_fillSubPayloads messages) mField.mVectorPayload
      rw [List.length_map] at ends
      refine ends.bind ?_
      intro array same
      exact ends_pure (by simp [FieldMemory.shape, FieldGetter.onShape, same])

end Omnm
