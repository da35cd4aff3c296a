import Omnm.Memory.Ownership
import Omnm.Payload.Getters

/-!
# The memory of payloads, fields and iterators

Which blocks of memory the objects of the library hold, and what the functions
that create, fill, clean up and destroy them do to the blocks. A payload holds
itself, its buffer and what its field holds. A field holds its scratch buffer, a
sub-payload, and the arrays of the vector getters with the objects in them.

Allocations succeed. Whether `allocateBufferMemory` moves a block is told by the
caller, as is what the getters find in the bytes: the number of strings or
records, and the lengths of messages. A date-time or price of the MAMA library
is one block.
-/

set_option autoImplicit false

namespace Omnm

/-- A pointer with what the code knows of its block: NULL, or a block that is held. -/
inductive Held (Content : Type) where
  | null
  | block (number : Block) (content : Content)
  deriving DecidableEq, Repr

/-- The members of `omnmFieldImpl` behind `mParent`. Buffers are known by their sizes, arrays by
their entries, which are NULL at first. -/
structure FieldMemory (Payload : Type) where
  mBuffer : Held Nat
  mSubPayload : Option Payload
  mVectorString : Held Nat
  mVectorPayload : Held (List (Option Payload))
  mVectorDateTime : Held (List (Option Block))
  mVectorPrice : Held (List (Option Block))

/-- The blocks of an `OmnmPayloadImpl`: the object, its buffer, and those of its field. -/
inductive PayloadMemory where
  | mk (object : Block) (mPayloadBuffer : Held Nat) (mField : FieldMemory PayloadMemory)

/-- Nothing held yet. -/
def FieldMemory.none {Payload : Type} : FieldMemory Payload :=
  ⟨.null, Option.none, .null, .null, .null, .null⟩

/-! ## `allocateBufferMemory` -/

/-- `realloc` of a block. -/
def reallocate (moves : Bool) (old : Block) : HeapAction Block :=
  if moves then do
    let new ← HeapAction.alloc
    HeapAction.free old
    pure new
  else pure old

/-- `allocateBufferMemory` on a buffer. -/
def growBuffer (moves : Bool) (newSize : Nat) : Held Nat → HeapAction (Held Nat)
  | .null =>
      if newSize = 0 then pure .null
      else do
        let new ← HeapAction.alloc
        pure (.block new newSize)
  | .block old size =>
      if newSize ≤ size then pure (.block old size)
      else do
        let new ← reallocate moves old
        pure (.block new newSize)

/-- `allocateBufferMemory` on an array of pointers, by its number of entries. -/
def growArray {Entry : Type} (moves : Bool) (count : Nat) :
    Held (List (Option Entry)) → HeapAction (Held (List (Option Entry)))
  | .null =>
      if count = 0 then pure .null
      else do
        let new ← HeapAction.alloc
        pure (.block new (List.replicate count none))
  | .block old entries =>
      if count ≤ entries.length then pure (.block old entries)
      else do
        let new ← reallocate moves old
        pure (.block new (entries ++ List.replicate (count - entries.length) none))

/-! ## Payloads -/

/-- Bytes that `omnmmsgPayload_unSerialize` is given: how many, whether it accepts the version of
their header, and whether the buffer moves when it grows for them. -/
structure GivenBytes where
  length : Nat
  accepted : Bool
  moves : Bool
  deriving DecidableEq, Repr

namespace PayloadMemory

/-- `omnmmsgPayload_create`, with the constructor of `OmnmPayloadImpl`. -/
def omnmmsgPayload_create : HeapAction PayloadMemory := do
  let object ← HeapAction.alloc
  let mPayloadBuffer ← HeapAction.alloc
  pure ⟨object, .block mPayloadBuffer defaultPayloadSize, FieldMemory.none⟩

/-- What `omnmmsgPayload_unSerialize` does to the blocks of a payload. -/
def omnmmsgPayload_unSerialize (given : GivenBytes) : PayloadMemory → HeapAction PayloadMemory
  | ⟨object, mPayloadBuffer, mField⟩ =>
      if given.length = 0 ∨ given.accepted = false then pure ⟨object, mPayloadBuffer, mField⟩
      else do
        let mPayloadBuffer ← growBuffer given.moves given.length mPayloadBuffer
        pure ⟨object, mPayloadBuffer, mField⟩

/-- `omnmmsgPayload_createFromByteBuffer`. The payload is there also when its bytes are not
accepted. -/
def omnmmsgPayload_createFromByteBuffer (given : GivenBytes) :
    HeapAction (Option PayloadMemory) :=
  if given.length = 0 then pure none
  else do
    let created ← omnmmsgPayload_create
    let filled ← omnmmsgPayload_unSerialize given created
    pure (some filled)

/-- `omnmmsgPayload_setByteBuffer`. -/
def omnmmsgPayload_setByteBuffer (given : GivenBytes) (payload : PayloadMemory) :
    HeapAction PayloadMemory :=
  if given.length = 0 then pure payload
  else omnmmsgPayload_unSerialize given payload

/-! ## Destruction -/

/-- `if (NULL != pointer) free (pointer)`. -/
def freeHeld {Content : Type} : Held Content → HeapAction Unit
  | .null => pure ()
  | .block number _ => HeapAction.free number

/-- The loops that destroy the date-times or the prices of an array. NULL is refused. -/
def destroyObjects : List (Option Block) → HeapAction Unit
  | [] => pure ()
  | none :: entries => destroyObjects entries
  | some object :: entries => do
      HeapAction.free object
      destroyObjects entries

/-- An array of date-times or prices, if there is one. -/
def cleanupObjects : Held (List (Option Block)) → HeapAction Unit
  | .null => pure ()
  | .block number entries => do
      destroyObjects entries
      HeapAction.free number

mutual

/-- `omnmmsgPayload_destroy`, with the destructor of `OmnmPayloadImpl`. -/
def omnmmsgPayload_destroy : PayloadMemory → HeapAction Unit
  | ⟨object, mPayloadBuffer, mField⟩ => do
      freeHeld mPayloadBuffer
      omnmmsgFieldPayloadImpl_cleanup mField
      HeapAction.free object

/-- `omnmmsgFieldPayloadImpl_cleanup`. -/
def omnmmsgFieldPayloadImpl_cleanup : FieldMemory PayloadMemory → HeapAction Unit
  | ⟨mBuffer, mSubPayload, mVectorString, mVectorPayload, mVectorDateTime, mVectorPrice⟩ => do
      freeHeld mBuffer
      destroyPayload mSubPayload
      freeHeld mVectorString
      cleanupPayloads mVectorPayload
      cleanupObjects mVectorDateTime
      cleanupObjects mVectorPrice

/-- A payload, if there is one. NULL is refused. -/
def destroyPayload : Option PayloadMemory → HeapAction Unit
  | none => pure ()
  | some payload => omnmmsgPayload_destroy payload

/-- The array of payloads, if there is one. -/
def cleanupPayloads : Held (List (Option PayloadMemory)) → HeapAction Unit
  | .null => pure ()
  | .block number entries => do
      destroyPayloads entries
      HeapAction.free number

/-- The loop that destroys the payloads of the array. -/
def destroyPayloads : List (Option PayloadMemory) → HeapAction Unit
  | [] => pure ()
  | entry :: entries => do
      destroyPayload entry
      destroyPayloads entries

end

end PayloadMemory

/-! ## Fields and iterators -/

namespace FieldMemory

/-- A new block for a field, or for an iterator with its field. -/
def create : HeapAction (Block × FieldMemory PayloadMemory) := do
  let block ← HeapAction.alloc
  pure (block, FieldMemory.none)

def omnmmsgFieldPayload_create : HeapAction (Block × FieldMemory PayloadMemory) := create

def omnmmsgFieldPayload_destroy (block : Block) (mField : FieldMemory PayloadMemory) :
    HeapAction Unit := do
  PayloadMemory.omnmmsgFieldPayloadImpl_cleanup mField
  HeapAction.free block

def omnmmsgPayloadIter_create : HeapAction (Block × FieldMemory PayloadMemory) := create

/-- `omnmmsgPayloadIter_destroy`, which does not clean up the field of the iterator. -/
def omnmmsgPayloadIter_destroy (block : Block) : HeapAction Unit := HeapAction.free block

/-! ## Getters -/

/-- A sub-payload is created for the bytes, or filled with them. -/
def fillSubPayload (given : GivenBytes) :
    Option PayloadMemory → HeapAction (Option PayloadMemory)
  | Option.none => PayloadMemory.omnmmsgPayload_createFromByteBuffer given
  | some payload => do
      let payload ← PayloadMemory.omnmmsgPayload_setByteBuffer given payload
      pure (some payload)

/-- The loop of `omnmmsgFieldPayload_getVectorMsg` that takes in the messages. -/
def fillSubPayloads : List GivenBytes → List (Option PayloadMemory) →
    HeapAction (List (Option PayloadMemory))
  | [], entries => pure entries
  | _ :: _, [] => failure
  | given :: messages, entry :: entries => do
      let entry ← fillSubPayload given entry
      let entries ← fillSubPayloads messages entries
      pure (entry :: entries)

/-- The loops of the getters of date-times and prices, which create what is NULL. -/
def createObjects : Nat → List (Option Block) → HeapAction (List (Option Block))
  | 0, entries => pure entries
  | _ + 1, [] => failure
  | count + 1, Option.none :: entries => do
      let object ← HeapAction.alloc
      let entries ← createObjects count entries
      pure (some object :: entries)
  | count + 1, some object :: entries => do
      let entries ← createObjects count entries
      pure (some object :: entries)

/-- What is done to the entries of an array, if there is one. -/
def onEntries {Entry : Type} (change : List (Option Entry) → HeapAction (List (Option Entry))) :
    Held (List (Option Entry)) → HeapAction (Held (List (Option Entry)))
  | .null => pure .null
  | .block number entries => do
      let entries ← change entries
      pure (.block number entries)

/-- The array of date-times or prices of a getter, with its objects. -/
def createArray (moves : Bool) (count : Nat) (held : Held (List (Option Block))) :
    HeapAction (Held (List (Option Block))) := do
  let array ← growArray moves count held
  onEntries (createObjects count) array

/-- The array of messages of a getter, with its payloads. -/
def fillArray (moves : Bool) (messages : List GivenBytes)
    (held : Held (List (Option PayloadMemory))) :
    HeapAction (Held (List (Option PayloadMemory))) := do
  let array ← growArray moves messages.length held
  onEntries (fillSubPayloads messages) array

variable (mField : FieldMemory PayloadMemory)

/-- What `omnmmsgFieldPayload_getMsg` does to the blocks of a field. -/
def omnmmsgFieldPayload_getMsg (given : GivenBytes) : HeapAction (FieldMemory PayloadMemory) := do
  let mSubPayload ← fillSubPayload given mField.mSubPayload
  pure { mField with mSubPayload }

/-- What `omnmmsgFieldPayload_getVectorString` does, by the size of an array of the strings. -/
def omnmmsgFieldPayload_getVectorString (moves : Bool) (size : Nat) :
    HeapAction (FieldMemory PayloadMemory) := do
  let mVectorString ← growBuffer moves size mField.mVectorString
  pure { mField with mVectorString }

/-- What `omnmmsgFieldPayload_getVectorDateTime` does. -/
def omnmmsgFieldPayload_getVectorDateTime (moves : Bool) (count : Nat) :
    HeapAction (FieldMemory PayloadMemory) := do
  let mVectorDateTime ← createArray moves count mField.mVectorDateTime
  pure { mField with mVectorDateTime }

/-- What `omnmmsgFieldPayload_getVectorPrice` does. -/
def omnmmsgFieldPayload_getVectorPrice (moves : Bool) (count : Nat) :
    HeapAction (FieldMemory PayloadMemory) := do
  let mVectorPrice ← createArray moves count mField.mVectorPrice
  pure { mField with mVectorPrice }

/-- What `omnmmsgFieldPayload_getVectorMsg` does. -/
def omnmmsgFieldPayload_getVectorMsg (moves : Bool) (messages : List GivenBytes) :
    HeapAction (FieldMemory PayloadMemory) := do
  let mVectorPayload ← fillArray moves messages mField.mVectorPayload
  pure { mField with mVectorPayload }

end FieldMemory

/-! ## The blocks that are held -/

/-- The block of a pointer. -/
def Held.blocks {Content : Type} : Held Content → Multiset Block
  | .null => 0
  | .block number _ => {number}

/-- The entries of an array. -/
def Held.entries {Entry : Type} : Held (List Entry) → List Entry
  | .null => []
  | .block _ entries => entries

/-- The objects of an array. -/
def objectBlocks : List (Option Block) → Multiset Block
  | [] => 0
  | none :: entries => objectBlocks entries
  | some object :: entries => {object} + objectBlocks entries

/-- An array and what its entries hold. -/
def Held.owns {Content : Type} (inner : Content → Multiset Block) : Held Content → Multiset Block
  | .null => 0
  | .block number content => inner content + {number}

/-- An array and its objects. -/
def arrayBlocks : Held (List (Option Block)) → Multiset Block := Held.owns objectBlocks

namespace PayloadMemory

mutual

/-- The blocks of a payload. -/
def blocks : PayloadMemory → Multiset Block
  | ⟨object, mPayloadBuffer, mField⟩ => mPayloadBuffer.blocks + (fieldBlocks mField + {object})

/-- The blocks that a field holds. -/
def fieldBlocks : FieldMemory PayloadMemory → Multiset Block
  | ⟨mBuffer, mSubPayload, mVectorString, mVectorPayload, mVectorDateTime, mVectorPrice⟩ =>
      mBuffer.blocks + (entryBlocks mSubPayload + (mVectorString.blocks +
        (payloadsBlocks mVectorPayload + (arrayBlocks mVectorDateTime + arrayBlocks mVectorPrice))))

/-- The blocks of a payload, if there is one. -/
def entryBlocks : Option PayloadMemory → Multiset Block
  | none => 0
  | some payload => payload.blocks

/-- The blocks of an array of payloads. -/
def payloadsBlocks : Held (List (Option PayloadMemory)) → Multiset Block
  | .null => 0
  | .block number entries => entriesBlocks entries + {number}

/-- The blocks of the payloads of an array. -/
def entriesBlocks : List (Option PayloadMemory) → Multiset Block
  | [] => 0
  | entry :: entries => entryBlocks entry + entriesBlocks entries

end

end PayloadMemory

/-! ## Clients -/

/-- A getter through a field that passes the checks in front of its allocations. -/
inductive FieldGetter where
  | getMsg (given : GivenBytes)
  | getVectorString (moves : Bool) (size : Nat)
  | getVectorDateTime (moves : Bool) (count : Nat)
  | getVectorPrice (moves : Bool) (count : Nat)
  | getVectorMsg (moves : Bool) (messages : List GivenBytes)
  deriving DecidableEq, Repr

/-- What the getter does to the blocks of the field. -/
def FieldGetter.perform (mField : FieldMemory PayloadMemory) :
    FieldGetter → HeapAction (FieldMemory PayloadMemory)
  | .getMsg given => mField.omnmmsgFieldPayload_getMsg given
  | .getVectorString moves size => mField.omnmmsgFieldPayload_getVectorString moves size
  | .getVectorDateTime moves count => mField.omnmmsgFieldPayload_getVectorDateTime moves count
  | .getVectorPrice moves count => mField.omnmmsgFieldPayload_getVectorPrice moves count
  | .getVectorMsg moves messages => mField.omnmmsgFieldPayload_getVectorMsg moves messages

/-- What a call on a payload does to its blocks: its buffer grows for a field, or for bytes that it
takes in, its scratch buffer grows, or a getter works on its field. -/
inductive PayloadUse where
  | growPayload (moves : Bool) (newSize : Nat)
  | unSerialize (given : GivenBytes)
  | growScratch (moves : Bool) (newSize : Nat)
  | read (getter : FieldGetter)

def PayloadUse.perform : PayloadUse → PayloadMemory → HeapAction PayloadMemory
  | .growPayload moves newSize, ⟨object, mPayloadBuffer, mField⟩ => do
      let mPayloadBuffer ← growBuffer moves newSize mPayloadBuffer
      pure ⟨object, mPayloadBuffer, mField⟩
  | .unSerialize given, payload => payload.omnmmsgPayload_unSerialize given
  | .growScratch moves newSize, ⟨object, mPayloadBuffer, mField⟩ => do
      let mBuffer ← growBuffer moves newSize mField.mBuffer
      pure ⟨object, mPayloadBuffer, { mField with mBuffer }⟩
  | .read getter, ⟨object, mPayloadBuffer, mField⟩ => do
      let mField ← getter.perform mField
      pure ⟨object, mPayloadBuffer, mField⟩

/-- Where a field keeps a payload that it gives to clients. -/
inductive KeptAt where
  | mSubPayload
  | mVectorPayload (index : Nat)

/-- A change of one of the payloads of an array. -/
def onElement (change : PayloadMemory → HeapAction PayloadMemory) :
    Nat → List (Option PayloadMemory) → HeapAction (List (Option PayloadMemory))
  | _, [] => failure
  | 0, none :: _ => failure
  | 0, some payload :: entries => do
      let payload ← change payload
      pure (some payload :: entries)
  | index + 1, entry :: entries => do
      let entries ← onElement change index entries
      pure (entry :: entries)

/-- A change of a payload that a field keeps. -/
def FieldMemory.onKept (mField : FieldMemory PayloadMemory)
    (change : PayloadMemory → HeapAction PayloadMemory) :
    KeptAt → HeapAction (FieldMemory PayloadMemory)
  | .mSubPayload =>
      match mField.mSubPayload with
      | Option.none => failure
      | some payload => do
          let payload ← change payload
          pure { mField with mSubPayload := some payload }
  | .mVectorPayload index =>
      match mField.mVectorPayload with
      | .null => failure
      | .block number entries => do
          let entries ← onElement change index entries
          pure { mField with mVectorPayload := .block number entries }

/-- A change of a payload that is reached through the fields of others. -/
def PayloadMemory.onPath (change : PayloadMemory → HeapAction PayloadMemory) :
    List KeptAt → PayloadMemory → HeapAction PayloadMemory
  | [], payload => change payload
  | kept :: path, ⟨object, mPayloadBuffer, mField⟩ => do
      let mField ← mField.onKept (onPath change path) kept
      pure ⟨object, mPayloadBuffer, mField⟩

/-- A call through a field: a getter, or a call on a payload that is reached through the field. -/
inductive FieldUse where
  | read (getter : FieldGetter)
  | onPayload (kept : KeptAt) (path : List KeptAt) (use : PayloadUse)

def FieldUse.perform (mField : FieldMemory PayloadMemory) :
    FieldUse → HeapAction (FieldMemory PayloadMemory)
  | .read getter => getter.perform mField
  | .onPayload kept path use => mField.onKept (PayloadMemory.onPath use.perform path) kept

/-- An object of a client: a payload, a field, or an iterator with its field. An iterator on the
stack of a function has no block. -/
inductive ClientObject where
  | payload (memory : PayloadMemory)
  | field (block : Block) (mField : FieldMemory PayloadMemory)
  | iterator (block : Option Block) (mField : FieldMemory PayloadMemory)

/-- The objects of the clients, in the order of their creation, without those that are gone, and
the blocks whose last pointer went away with an iterator. -/
structure ClientMemory where
  objects : List (Option ClientObject)
  lost : Multiset Block

/-- What clients do. A function with an iterator on its stack, such as
`omnmmsgPayload_iterateFields`, initializes it (`initIterator`), lets its callback do what it does,
and returns (`leaveIterator`). -/
inductive ClientCall where
  | createPayload
  | createFromByteBuffer (given : GivenBytes)
  | destroyPayload (handle : Nat)
  | createField
  | destroyField (handle : Nat)
  | createIterator
  | destroyIterator (handle : Nat)
  | initIterator
  | leaveIterator (handle : Nat)
  | usePayload (handle : Nat) (path : List KeptAt) (use : PayloadUse)
  | useIterator (handle : Nat) (use : FieldUse)

namespace ClientMemory

/-- No objects yet. -/
def empty : ClientMemory := ⟨[], 0⟩

/-- The object that a handle stands for, unless it is gone. -/
def object (client : ClientMemory) (handle : Nat) : Option ClientObject :=
  (client.objects[handle]?).join

/-- A new object gets the next handle. -/
def add (client : ClientMemory) (object : Option ClientObject) : ClientMemory :=
  { client with objects := client.objects ++ [object] }

/-- The object of a handle in another state, or gone. -/
def set (client : ClientMemory) (handle : Nat) (object : Option ClientObject) : ClientMemory :=
  { client with objects := client.objects.set handle object }

/-- Blocks that nobody points to any more. -/
def lose (client : ClientMemory) (blocks : Multiset Block) : ClientMemory :=
  { client with lost := client.lost + blocks }

end ClientMemory

/-- What a call does to the blocks. A handle of another kind, or of an object that is gone, leaves
it undefined. -/
def ClientCall.perform (client : ClientMemory) : ClientCall → HeapAction ClientMemory
  | .createPayload => do
      let payload ← PayloadMemory.omnmmsgPayload_create
      pure (client.add (some (.payload payload)))
  | .createFromByteBuffer given => do
      let payload ← PayloadMemory.omnmmsgPayload_createFromByteBuffer given
      pure (client.add (payload.map .payload))
  | .destroyPayload handle =>
      match client.object handle with
      | some (.payload payload) => do
          PayloadMemory.omnmmsgPayload_destroy payload
          pure (client.set handle none)
      | _ => failure
  | .createField => do
      let (block, mField) ← FieldMemory.omnmmsgFieldPayload_create
      pure (client.add (some (.field block mField)))
  | .destroyField handle =>
      match client.object handle with
      | some (.field block mField) => do
          FieldMemory.omnmmsgFieldPayload_destroy block mField
          pure (client.set handle none)
      | _ => failure
  | .createIterator => do
      let (block, mField) ← FieldMemory.omnmmsgPayloadIter_create
      pure (client.add (some (.iterator (some block) mField)))
  | .destroyIterator handle =>
      match client.object handle with
      | some (.iterator (some block) mField) => do
          FieldMemory.omnmmsgPayloadIter_destroy block
          pure ((client.set handle none).lose (PayloadMemory.fieldBlocks mField))
      | _ => failure
  | .initIterator => pure (client.add (some (.iterator none FieldMemory.none)))
  | .leaveIterator handle =>
      match client.object handle with
      | some (.iterator none mField) =>
          pure ((client.set handle none).lose (PayloadMemory.fieldBlocks mField))
      | _ => failure
  | .usePayload handle path use =>
      match client.object handle with
      | some (.payload payload) => do
          let payload ← payload.onPath use.perform path
          pure (client.set handle (some (.payload payload)))
      | _ => failure
  | .useIterator handle use =>
      match client.object handle with
      | some (.iterator block mField) => do
          let mField ← use.perform mField
          pure (client.set handle (some (.iterator block mField)))
      | _ => failure

end Omnm
