import Omnm.Wire.MessageTrees
import Omnm.Wire.ObjectLookups

/-!
# Nested messages

A tree of messages is built by additions, from new payloads for the messages in
it. What was built holds the message of the tree (`Builds.represents`). Set as a
sub-message, under a key that finds nothing or a message, it comes back with its
bytes and its tree, at any depth and whatever the payload kept from earlier reads
(`nested_message_read_back`).
-/

set_option autoImplicit false

namespace Omnm

open FieldTypeTags (tag)
open OmnmPayloadImpl

section

variable [FieldTypeTags]

/-- A payload after additions of the fields of a tree, each of which returned OK. The messages
in the tree are built in new payloads. -/
inductive Builds : OmnmPayloadImpl → MessageTree → OmnmPayloadImpl → Prop
  | nil (msg : OmnmPayloadImpl) : Builds msg .nil msg
  | field {msg middle next : OmnmPayloadImpl} {rest : MessageTree} {allocator : Allocator}
      {type : UInt8} {name : Option CString} {fid : UInt16} {data : List UInt8}
      (succeeds : allocator.Succeeds) (listed : dataLayout type ≠ .unlisted)
      (fits : DataFits type data) (plain : type ≠ tag .msg)
      (added : (msg.addField allocator type name fid (some data)).result = some (.ok, middle))
      (later : Builds middle rest next) :
      Builds msg (.field ⟨type, fid, name.getD CString.empty, data⟩ rest) next
  | message {msg middle next payload : OmnmPayloadImpl} {sub rest : MessageTree}
      {allocator : Allocator} {name : Option CString} {fid : UInt16}
      (succeeds : allocator.Succeeds) (built : Builds newPayload sub payload)
      (added : (msg.addField allocator (tag .msg) name fid (some payload.serialized)).result =
        some (.ok, middle))
      (later : Builds middle rest next) :
      Builds msg (.message fid (name.getD CString.empty) sub rest) next

variable {msg next : OmnmPayloadImpl} {tree : MessageTree} {name : Option CString} {fid : UInt16}

/-- An addition that returned OK appended the field. -/
theorem represents_of_addField {message : Message} {allocator : Allocator} {type : UInt8}
    {data : List UInt8} (represents : msg.Represents message) (succeeds : allocator.Succeeds)
    (listed : dataLayout type ≠ .unlisted) (fits : DataFits type data)
    (small : (message.append ⟨type, fid, name.getD CString.empty, data⟩ fits).encode.length < 2 ^ 31)
    (added : (msg.addField allocator type name fid (some data)).result = some (.ok, next)) :
    next.Represents (message.append ⟨type, fid, name.getD CString.empty, data⟩ fits) := by
  have accepted : Accepted name fid data := by
    cases rejected : rejection name fid data with
    | none => exact accepted_iff_rejection.mpr rejected
    | some status =>
        rw [addField_of_rejection rejected] at added
        cases added
        exact absurd rejected rejection_ne_ok
  have wide := FieldEntry.length_encode ⟨type, fid, name.getD CString.empty, data⟩
  have short : strlenEx name + 1 < 2 ^ 31 := by
    rw [strlenEx_eq, CString.length_terminated]
    rw [Message.encode_append, List.length_append] at small
    dsimp only at wide
    omega
  obtain ⟨appended, keeps⟩ := represents.append succeeds listed fits accepted short
    (Nat.lt_trans small (by decide))
  cases keeps.result.symm.trans added
  exact keeps.represents

/-- Two messages with the same header. -/
def Message.SameHeader (first second : Message) : Prop :=
  first.kind = second.kind ∧ first.version = second.version ∧ first.extra = second.extra

theorem eq_toMessage {changed : Message} (header : changed.SameHeader Message.empty)
    (entries : changed.entries = tree.entries) (wellFormed : tree.WellFormed) :
    changed = tree.toMessage wellFormed := by
  obtain ⟨kind, version, extra, fields, _, _, _⟩ := changed
  obtain ⟨rfl, rfl, rfl⟩ := header
  cases entries
  rfl

/-- Additions to a payload that holds a message leave one that holds it with the fields of the
tree behind its own. -/
theorem Builds.represents (built : Builds msg tree next) {message : Message}
    (represents : msg.Represents message)
    (small : message.encode.length + (encodeAll tree.entries).length < 2 ^ 31) :
    tree.WellFormed ∧ ∃ changed, next.Represents changed ∧ changed.SameHeader message ∧
      changed.entries = message.entries ++ tree.entries := by
  induction built generalizing message with
  | nil msg => exact ⟨trivial, message, represents, ⟨rfl, rfl, rfl⟩, (List.append_nil _).symm⟩
  | field succeeds listed fits plain added later ih =>
      rw [MessageTree.entries, encodeAll_cons, List.length_append, ← Nat.add_assoc,
        ← List.length_append, ← Message.encode_append message _ fits] at small
      obtain ⟨wellFormed, changed, holds, header, entries⟩ :=
        ih (represents_of_addField represents succeeds listed fits (by omega) added) small
      refine ⟨⟨listed, fits, plain, wellFormed⟩, changed, holds, header, ?_⟩
      rw [entries, Message.append, MessageTree.entries, List.append_assoc]
      rfl
  | @message msg middle next payload sub rest allocator name fid succeeds built added later ihSub
      ih =>
      rw [MessageTree.entries, encodeAll_cons, List.length_append] at small
      have wide := FieldEntry.length_encode ⟨tag .msg, fid, name.getD CString.empty, sub.bytes⟩
      have part : sub.bytes.length = 3 + (encodeAll sub.entries).length := List.length_append
      have three : Message.empty.encode.length = 3 := rfl
      rw [MessageTree.bytes] at wide part
      dsimp only at wide
      obtain ⟨nested, inner, holds, header, entries⟩ :=
        ihSub Represents.newPayload (by omega)
      have fits : DataFits (tag .msg) sub.bytes := MessageTree.dataFits_msg (by
        rw [MessageTree.bytes]
        omega)
      rw [holds.serialized_eq, eq_toMessage header entries nested,
        MessageTree.encode_toMessage] at added
      have listed : dataLayout (tag .msg) ≠ .unlisted := dataLayout_tag .msg (by simp)
      have grown : (message.append ⟨tag .msg, fid, name.getD CString.empty, sub.bytes⟩
          fits).encode.length + (encodeAll rest.entries).length < 2 ^ 31 := by
        rw [Message.encode_append, List.length_append, Nat.add_assoc]
        exact small
      obtain ⟨wellFormed, changed, holds, header, entries⟩ :=
        ih (represents_of_addField represents succeeds listed fits (by omega) added) grown
      refine ⟨⟨?_, nested, wellFormed⟩, changed, holds, header, ?_⟩
      · rw [MessageTree.bytes]
        omega
      · rw [entries, Message.append, MessageTree.entries, List.append_assoc]
        rfl

/-- What was built from a new payload holds the message of its tree. -/
theorem Builds.represents_tree (built : Builds newPayload tree next)
    (small : tree.bytes.length < 2 ^ 31) :
    ∃ wellFormed, next.Represents (tree.toMessage wellFormed) := by
  rw [MessageTree.bytes, List.length_append] at small
  obtain ⟨wellFormed, changed, holds, header, entries⟩ :=
    built.represents Represents.newPayload small
  exact ⟨wellFormed, eq_toMessage header entries wellFormed ▸ holds⟩

/-- A getter hands the first field with the key to the getter of a field. -/
theorem getMsg_of_find {memory : GetterMemory} {object : PayloadObject} {message : Message}
    {entry : FieldEntry} (represents : object.impl.Represents message)
    (found : message.find name fid = some entry) (succeeds : memory.payload.Succeeds)
    (type : entry.type = tag .msg) {inner : Message} (wire : entry.data = inner.encode) :
    ∃ sub after, (omnmmsgPayload_getMsg memory object name fid).result =
      some (.ok, some (some sub), after) ∧ sub.Represents inner := by
  have key : validateNameFid name fid = none := by
    cases rejected : validateNameFid name fid with
    | none => rfl
    | some status => cases found.symm.trans (message.find_of_rejected rejected)
  have listed : dataLayout entry.type ≠ .unlisted := type ▸ dataLayout_tag .msg (by simp)
  obtain ⟨field, handled, lookup⟩ := represents.getVectorThroughField_of_find found listed
    (omnmmsgFieldPayload_getMsg memory)
  obtain ⟨sub, kept, got, holds⟩ :=
    handled.getMsg_of_encode succeeds type wire object.results
  rw [getVectorThroughField, key, got] at lookup
  exact ⟨sub, _, lookup, holds⟩

end

/-- The getter gives the sub-message under the key with its bytes and its tree. -/
def ReadsBackMessage [FieldTypeTags] (memory : GetterMemory) (msg : OmnmPayloadImpl)
    (name : Option CString) (fid : UInt16) (sub : OmnmPayloadImpl) (tree : MessageTree) : Prop :=
  ∀ field results, ∃ got after,
    (omnmmsgPayload_getMsg memory ⟨msg, field, results⟩ name fid).result =
        some (.ok, some (some got), after) ∧
      got.serialized = sub.serialized ∧
      ∀ depth, tree.height < depth → (decodeTree memory depth got).result = some tree ∧
        (decodeTree memory depth sub).result = some tree

/-- A tree of messages that was built and is set under an accepted key comes back, with
`updateSubMsg` where the key finds nothing or a message, and with `omnmmsgPayload_addMsg` where it
finds nothing. What the payload kept from earlier reads does not matter. -/
theorem nested_message_read_back [FieldTypeTags] {sub : OmnmPayloadImpl} {tree : MessageTree}
    (built : Builds newPayload tree sub) (small : tree.bytes.length < 2 ^ 31)
    {msg : OmnmPayloadImpl} {message : Message} (represents : msg.Represents message)
    (below : msg.mPayloadBufferTail < 2 ^ 31) {name : Option CString} {fid : UInt16}
    (key : validateNameFid name fid = none) (short : strlenEx name + 1 < 2 ^ 31)
    {memory : CallMemory} (succeeds : memory.Succeeds) {getter : GetterMemory}
    (creates : getter.payload.Succeeds) :
    ((∀ entry, message.find name fid = some entry → entry.type = tag .msg) →
        ∃ next, (msg.updateSubMsg memory name fid (some sub)).result = some (.ok, next) ∧
          ReadsBackMessage getter next name fid sub tree) ∧
      (message.find name fid = none → ∀ byteBuffer,
        ∃ next, (omnmmsgPayload_addMsg memory msg name fid (some ⟨.ok sub, byteBuffer⟩)).result =
            some (.ok, next) ∧ ReadsBackMessage getter next name fid sub tree) := by
  obtain ⟨wellFormed, holds⟩ := built.represents_tree small
  have wire := holds.serialized_eq
  have accepted : Accepted name fid sub.serialized := by
    rw [wire, MessageTree.encode_toMessage]
    refine ⟨?_, List.cons_ne_nil _ _, key⟩
    rw [uint32Max]
    omega
  have sized := MessageTree.dataLayout_msg
  -- what is found under the key holds the message of the tree
  have readsBack : ∀ (next : OmnmPayloadImpl) (changed : Message) (entry : FieldEntry),
      next.Represents changed → changed.find name fid = some entry → entry.type = tag .msg →
      entry.data = sub.serialized → ReadsBackMessage getter next name fid sub tree := by
    intro next changed entry nextHolds found type data field results
    obtain ⟨got, after, returned, gotHolds⟩ := getMsg_of_find
      (show (PayloadObject.mk next field results).impl.Represents changed from nextHolds) found
      creates type (data.trans wire)
    exact ⟨got, after, returned, gotHolds.serialized_eq.trans wire.symm, fun depth deep =>
      ⟨decodeTree_eq creates wellFormed deep gotHolds, decodeTree_eq creates wellFormed deep holds⟩⟩
  constructor
  · intro takes
    obtain ⟨next, changed, entry, updated, nextHolds, found, type, data⟩ :=
      represents.updateField_sized succeeds.payload sized accepted (fun _ => short) below takes
    exact ⟨next, updated, readsBack next changed entry nextHolds found type data⟩
  · intro absent byteBuffer
    obtain ⟨fits, next, keeps⟩ :=
      represents.append_sized succeeds.payload sized accepted short (by omega)
    exact ⟨next, keeps.result, readsBack next _ _ keeps.represents
      (Message.find_append absent fits (hasKey_of_validateNameFid key)) rfl rfl⟩

section Example

attribute [local instance] mamaFieldTypes

/-- A message with a message with a byte. -/
def nestedByte : MessageTree :=
  .message 2 CString.empty
    (.field ⟨mamaFieldTypeNumber .i8, 1, CString.empty, [5]⟩ .nil) .nil

/-- The payload with the byte. -/
def innerBytePayload : OmnmPayloadImpl :=
  ⟨[79, 1, 0, 11, 1, 0, 0, 5] ++ List.replicate 192 0, 8, OmnmHeader.default, []⟩

/-- The payload with the message with the byte. -/
def nestedBytePayload : OmnmPayloadImpl :=
  ⟨[79, 1, 0, 1, 2, 0, 0, 8, 0, 0, 0, 79, 1, 0, 11, 1, 0, 0, 5] ++ List.replicate 181 0, 19,
    OmnmHeader.default, []⟩

theorem builds_nestedByte : Builds newPayload nestedByte nestedBytePayload := by
  have byte : (newPayload.addField .zeroing (mamaFieldTypeNumber .i8) none 1 (some [5])).result =
      some (.ok, innerBytePayload) := by
    decide +kernel
  have message : (newPayload.addField .zeroing (mamaFieldTypeNumber .msg) none 2
      (some innerBytePayload.serialized)).result = some (.ok, nestedBytePayload) := by
    decide +kernel
  exact .message Allocator.zeroing_succeeds
    (.field Allocator.zeroing_succeeds (by decide) (by decide) (by decide) byte (.nil _)) message
    (.nil _)

/-- An empty message under a name. -/
def heldField : FieldEntry := ⟨mamaFieldTypeNumber .msg, 1, .ofBytes [65], [79, 1, 0]⟩

/-- A message that holds it, and a byte behind it. -/
def heldMessage : Message :=
  (Message.empty.append heldField (by decide)).append
    ⟨mamaFieldTypeNumber .i8, 2, CString.empty, [7]⟩ (by decide)

/-- Set in the place of the empty message, and added under a key that finds nothing. -/
theorem nestedByte_read_back :
    (∃ next, (heldMessage.payload.updateSubMsg .zeroing none 1 (some nestedBytePayload)).result =
        some (.ok, next) ∧
      ReadsBackMessage ⟨.zeroing, true⟩ next none 1 nestedBytePayload nestedByte) ∧
    ∀ byteBuffer, ∃ next, (omnmmsgPayload_addMsg .zeroing heldMessage.payload none 3
        (some ⟨.ok nestedBytePayload, byteBuffer⟩)).result = some (.ok, next) ∧
      ReadsBackMessage ⟨.zeroing, true⟩ next none 3 nestedBytePayload nestedByte := by
  have held := Message.payload_represents heldMessage
  have found : heldMessage.find none 1 = some heldField := rfl
  constructor
  · refine (nested_message_read_back builds_nestedByte (by decide) held (by decide) rfl (by decide)
      CallMemory.zeroing_succeeds Allocator.zeroing_succeeds).1 ?_
    intro entry same
    cases found.symm.trans same
    rfl
  · exact (nested_message_read_back builds_nestedByte (by decide) held (by decide) rfl (by decide)
      CallMemory.zeroing_succeeds Allocator.zeroing_succeeds).2 rfl

end Example

end Omnm
