import Omnm.Wire.FieldCalls
import Omnm.Wire.Values

/-!
# Trees of messages

A field of the type `MAMA_FIELD_TYPE_MSG` holds a message of its own, so a
message is a tree. `decodeTree` reads the tree of a payload with the iterator and
`omnmmsgFieldPayload_getMsg`, through the one sub-payload that an iterator keeps
for all its fields. On a payload that holds the wire form of a tree it gives that
tree, by induction on the depth, whatever was kept (`decodeTree_eq`).
-/

set_option autoImplicit false

namespace Omnm

open FieldTypeTags (tag)

/-- The fields of a message, each with the tree of the message it holds if it is of the type
`MAMA_FIELD_TYPE_MSG`. -/
inductive MessageTree where
  | nil
  | field (entry : FieldEntry) (rest : MessageTree)
  | message (fid : UInt16) (name : CString) (sub rest : MessageTree)
  deriving DecidableEq

namespace MessageTree

/-- How deep messages are nested. -/
def height : MessageTree → Nat
  | nil => 0
  | field _ rest => rest.height
  | message _ _ sub rest => max (sub.height + 1) rest.height

variable [FieldTypeTags]

/-- The fields of the message, with nested messages in their wire form. -/
def entries : MessageTree → List FieldEntry
  | nil => []
  | field entry rest => entry :: rest.entries
  | message fid name sub rest =>
      ⟨tag .msg, fid, name, OmnmHeader.default.bytes ++ encodeAll sub.entries⟩ :: rest.entries

/-- The wire form of the message. -/
def bytes (tree : MessageTree) : List UInt8 := OmnmHeader.default.bytes ++ encodeAll tree.entries

/-- The data of every field fits its type, and only messages stand in fields of their type. -/
def WellFormed : MessageTree → Prop
  | nil => True
  | field entry rest =>
      dataLayout entry.type ≠ .unlisted ∧ DataFits entry.type entry.data ∧ entry.type ≠ tag .msg ∧
        rest.WellFormed
  | message _ _ sub rest => sub.bytes.length < 2 ^ 32 ∧ sub.WellFormed ∧ rest.WellFormed

theorem dataLayout_msg : dataLayout (tag .msg) = .sized := by simp [dataLayout]

theorem dataFits_msg {data : List UInt8} (short : data.length < 2 ^ 32) :
    DataFits (tag .msg) data := by
  simpa only [DataFits, dataLayout_msg] using short

theorem WellFormed.allFit {tree : MessageTree} (wellFormed : tree.WellFormed) :
    AllFit tree.entries := by
  induction tree with
  | nil => exact allFit_nil
  | field entry rest ih =>
      obtain ⟨-, fits, -, later⟩ := wellFormed
      intro other member
      rcases List.mem_cons.mp member with rfl | behind
      · exact fits
      · exact ih later other behind
  | message fid name sub rest _ ih =>
      obtain ⟨short, -, later⟩ := wellFormed
      intro other member
      rcases List.mem_cons.mp member with rfl | behind
      · exact dataFits_msg short
      · exact ih later other behind

/-- The message of a tree. -/
def toMessage (tree : MessageTree) (wellFormed : tree.WellFormed) : Message :=
  { Message.empty with entries := tree.entries, fits := wellFormed.allFit }

theorem encode_toMessage {tree : MessageTree} (wellFormed : tree.WellFormed) :
    (tree.toMessage wellFormed).encode = tree.bytes := rfl

end MessageTree

variable [FieldTypeTags]

/-! ## Decoding -/

omit [FieldTypeTags] in
/-- The field that a handle shows. -/
def OmnmPayloadImpl.entryOf (msg : OmnmPayloadImpl) (field : OmnmFieldImpl) : FieldEntry :=
  ⟨field.mFieldType, field.mFid, CString.ofBytes (stringAt msg.mPayloadBuffer field.mName),
    bytesAt msg.mPayloadBuffer field.mSize field.mData⟩

/-- The fields that an iterator yielded, with what it keeps for them. Nested messages are read
through the getter. -/
def decodeFields (memory : GetterMemory) (decode : OmnmPayloadImpl → Traced Region MessageTree)
    (msg : OmnmPayloadImpl) : List OmnmFieldImpl → FieldResults → Traced Region MessageTree
  | [], _ => pure .nil
  | field :: fields, results =>
      if field.mFieldType = tag .msg then do
        let (status, sub, results) ← omnmmsgFieldPayload_getMsg memory msg field results
        match status, sub with
        | .ok, some sub => do
            let inner ← decode sub
            let rest ← decodeFields memory decode msg fields results
            pure (.message field.mFid (msg.entryOf field).name inner rest)
        | _, _ => Traced.fault
      else do
        let rest ← decodeFields memory decode msg fields results
        pure (.field (msg.entryOf field) rest)

/-- The tree of a payload, down to a depth. A payload that is nested deeper has no result. -/
def decodeTree (memory : GetterMemory) : Nat → OmnmPayloadImpl → Traced Region MessageTree
  | 0, _ => Traced.fault
  | depth + 1, msg => do
      let (fields, _) ← iterateFields msg
      decodeFields memory (decodeTree memory depth) msg fields FieldResults.none

variable {memory : GetterMemory} {msg : OmnmPayloadImpl}

theorem OmnmPayloadImpl.entryOf_handle {entry : FieldEntry} {position : Nat} {rest : List UInt8}
    (fits : DataFits entry.type entry.data)
    (here : msg.mPayloadBuffer.drop position = entry.encode ++ rest) (previous : BufferPtr) :
    msg.entryOf (entry.handle position previous) = entry := by
  have value := OmnmPayloadImpl.valueOf_handle fits here previous
  have name : stringAt msg.mPayloadBuffer (entry.handle position previous).mName =
      entry.name.bytes := congrArg FieldValue.name value
  have data : bytesAt msg.mPayloadBuffer (entry.handle position previous).mSize
      (entry.handle position previous).mData = entry.data := congrArg FieldValue.data value
  rw [entryOf, name, data, CString.ofBytes_bytes]
  rfl

/-- A message in its wire form is taken in by the sub-payload of a field. -/
theorem FieldEntry.HandledBy.getMsg_of_encode {entry : FieldEntry} {field : OmnmFieldImpl}
    (handled : entry.HandledBy msg field) (succeeds : memory.payload.Succeeds)
    (type : entry.type = tag .msg) {message : Message} (wire : entry.data = message.encode)
    (results : FieldResults) :
    ∃ sub kept, (omnmmsgFieldPayload_getMsg memory msg field results).result =
      some (.ok, some sub, kept) ∧ sub.Represents message := by
  obtain ⟨offset, rest, pointer, here, -⟩ := handled.data
  have nonempty : entry.data.length ≠ 0 := by
    have three := message.three_le_length_encode
    rw [wire]
    omega
  obtain ⟨sub, taken, represents, -⟩ := OmnmPayloadImpl.Represents.unSerialize
    (results.mSubPayload.getD newPayload) succeeds
    (show entry.data.length ≤ (entry.data ++ rest).length from
      List.length_append ▸ Nat.le_add_right ..) (List.take_left.trans wire)
  refine ⟨sub, { results with mSubPayload := some sub }, ?_, represents⟩
  rw [handled.getMsg_eq memory type pointer, here, fillSubPayload_of_ne_zero memory _ _ nonempty,
    taken]
  rfl

/-- The handles of a tree are decoded to it, if messages of less depth are decoded. -/
theorem decodeFields_eq (succeeds : memory.payload.Succeeds)
    {decode : OmnmPayloadImpl → Traced Region MessageTree} {depth : Nat}
    (inner : ∀ sub : MessageTree, ∀ wellFormed : sub.WellFormed, sub.height < depth →
      ∀ payload : OmnmPayloadImpl, payload.Represents (sub.toMessage wellFormed) →
        (decode payload).result = some sub)
    {tree : MessageTree} (wellFormed : tree.WellFormed) (shallow : tree.height ≤ depth)
    {position : Nat} {rest : List UInt8}
    (here : msg.mPayloadBuffer.drop position = encodeAll tree.entries ++ rest)
    (previous : BufferPtr) (results : FieldResults) :
    (decodeFields memory decode msg (fieldHandles tree.entries position previous)
      results).result = some tree := by
  induction tree generalizing position previous results with
  | nil => rfl
  | field entry others ih =>
      obtain ⟨-, fits, plain, later⟩ := wellFormed
      rw [MessageTree.entries, encodeAll_cons, List.append_assoc] at here
      have behind := ih later shallow (drop_behind here) (entry.handle position previous).mData
        results
      have other : (entry.handle position previous).mFieldType ≠ tag .msg := plain
      rw [MessageTree.entries, fieldHandles, decodeFields, if_neg other]
      simp only [Traced.result_bind, behind, Option.bind_some, Traced.result_pure,
        OmnmPayloadImpl.entryOf_handle fits here previous]
  | message fid name sub others _ ih =>
      obtain ⟨short, nested, later⟩ := wellFormed
      rw [MessageTree.height, Nat.max_le] at shallow
      rw [MessageTree.entries, encodeAll_cons, List.append_assoc] at here
      have listed : dataLayout (tag .msg) ≠ .unlisted := dataLayout_tag .msg (by simp)
      have shown := OmnmPayloadImpl.entryOf_handle (MessageTree.dataFits_msg short) here previous
      obtain ⟨payload, kept, got, represents⟩ :=
        (FieldEntry.handledBy_of_drop listed here previous).getMsg_of_encode succeeds rfl
          (MessageTree.encode_toMessage nested).symm results
      have decoded := inner sub nested shallow.1 payload represents
      have behind := ih later shallow.2 (drop_behind here)
        (FieldEntry.handle ⟨tag .msg, fid, name, sub.bytes⟩ position previous).mData kept
      rw [MessageTree.bytes] at behind
      have type : (FieldEntry.handle ⟨tag .msg, fid, name,
        OmnmHeader.default.bytes ++ encodeAll sub.entries⟩ position previous).mFieldType =
          tag .msg := rfl
      rw [MessageTree.entries, fieldHandles, decodeFields, if_pos type, Traced.result_bind, got,
        Option.bind_some]
      simp only [Traced.result_bind, decoded, behind, Option.bind_some, Traced.result_pure, shown]
      rfl

/-- A payload that holds the message of a tree is decoded to the tree. -/
theorem decodeTree_eq (succeeds : memory.payload.Succeeds) {tree : MessageTree}
    (wellFormed : tree.WellFormed) {depth : Nat} (deep : tree.height < depth)
    (represents : msg.Represents (tree.toMessage wellFormed)) :
    (decodeTree memory depth msg).result = some tree := by
  induction depth generalizing tree msg with
  | zero => exact absurd deep (Nat.not_lt_zero _)
  | succ depth ih =>
      have decodes := represents.decodes
      obtain ⟨last, iterated⟩ := decodes.iterateFields
      obtain ⟨rest, here⟩ := decodes.here
      rw [decodeTree, Traced.result_bind, iterated, Option.bind_some]
      exact decodeFields_eq succeeds
        (fun sub nested shallow payload holds => ih nested shallow holds) wellFormed
        (Nat.le_of_lt_succ deep) here .null FieldResults.none

end Omnm
