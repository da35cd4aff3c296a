import Omnm.Payload.Apply
import Omnm.Payload.KeptShapes

/-!
# The getters that keep their results

`keptGetter` tells, for a getter and a field, what the getter asks the field to
keep: how many entries, and the lengths of messages, as it finds them in the
bytes.

Two of them are called by `omnmmsgPayload_apply` through the field of its
iterator, `omnmmsgFieldPayload_getMsg` and `omnmmsgFieldPayload_getVectorString`.
`omnmmsgPayload_applyGetters` walks over the source and collects these calls.
-/

set_option autoImplicit false

namespace Omnm

open PayloadMemory

/-- The getters whose results the field keeps. -/
inductive KeptRead where
  | getMsg
  | getVectorString
  | getVectorDateTime
  | getVectorPrice
  | getVectorMsg
  deriving DecidableEq, Repr

/-- Bytes that are given to `omnmmsgPayload_unSerialize`. The header of none is not read. -/
def givenBytes (msg : OmnmPayloadImpl) (bytes : List UInt8) (length : Nat) (moves : Bool) :
    Traced Region GivenBytes :=
  if length = 0 then pure ⟨0, false, moves⟩
  else do
    let header ← loadHeader msg (.other bytes)
    pure ⟨length, decide (header.mWireFormatVersion ≤ omnmProtocolVersion), moves⟩

/-- The messages that the loop of `omnmmsgFieldPayload_getVectorMsg` takes in. -/
def givenMessages (moves : Nat → Bool) (msg : OmnmPayloadImpl) (data size : Nat) :
    Nat → Nat → Nat → Traced Region (List GivenBytes)
  | 0, _, _ => Traced.fault
  | rounds + 1, i, j =>
      if size ≤ i then pure []
      else do
        let payloadLen ← loadInteger .message msg.mPayloadBuffer data 4
        let given ← givenBytes msg (msg.mPayloadBuffer.drop (data + i + 4)) payloadLen (moves j)
        let messages ← givenMessages moves msg data size rounds (i + payloadLen + 4) (j + 1)
        pure (given :: messages)

section

variable [FieldTypeTags]

/-- What a getter asks a field to keep, if it passes its checks. -/
def keptGetter (moves : Nat → Bool) (msg : OmnmPayloadImpl) (field : OmnmFieldImpl) :
    KeptRead → Traced Region (Option FieldGetter)
  | .getMsg =>
      if field.mData = .null then pure none
      else if field.mFieldType ≠ FieldTypeTags.tag .msg then pure none
      else do
        let data ← field.dataOffset
        let given ← givenBytes msg (msg.mPayloadBuffer.drop data) field.mSize (moves 0)
        pure (some (.getMsg given))
  | .getVectorString =>
      if field.mSize = 0 then pure (some (.getVectorString (moves 0) 0))
      else do
        let data ← field.dataOffset
        let bytes ← loadBytes .message msg.mPayloadBuffer data field.mSize
        pure (some (.getVectorString (moves 0) (sizeofPointer * bytes.count 0)))
  | .getVectorDateTime =>
      pure (some (.getVectorDateTime (moves 0) (field.mSize / sizeofOmnmDateTime)))
  | .getVectorPrice => pure (some (.getVectorPrice (moves 0) (field.mSize / sizeofOmnmPrice)))
  | .getVectorMsg =>
      if field.mSize = 0 then pure (some (.getVectorMsg (moves 0) []))
      else do
        let data ← field.dataOffset
        let messages ← givenMessages moves msg data field.mSize (field.mSize + 1) 0 0
        pure (some (.getVectorMsg (moves 0) messages))

/-- A call of such a getter, apart from what the field keeps. -/
structure KeptCall where
  read : KeptRead
  memory : GetterMemory
  msg : OmnmPayloadImpl
  field : OmnmFieldImpl

/-- What the field keeps behind the call. -/
def KeptCall.perform (call : KeptCall) (results : FieldResults) : Traced Region FieldResults :=
  match call.read with
  | .getMsg => do
      let (_, _, results) ← omnmmsgFieldPayload_getMsg call.memory call.msg call.field results
      pure results
  | .getVectorString => do
      let (_, _, results) ←
        omnmmsgFieldPayload_getVectorString call.memory call.msg call.field results
      pure results
  | .getVectorDateTime => do
      let (_, _, results) ←
        omnmmsgFieldPayload_getVectorDateTime call.memory call.msg call.field results
      pure results
  | .getVectorPrice => do
      let (_, _, results) ←
        omnmmsgFieldPayload_getVectorPrice call.memory call.msg call.field results
      pure results
  | .getVectorMsg => do
      let (_, _, results) ← omnmmsgFieldPayload_getVectorMsg call.memory call.msg call.field results
      pure results

/-! ## `omnmmsgPayload_apply` -/

/-- The getter that keeps its result, if the `switch` of `omnmmsgPayload_apply` calls one for the
field. -/
def appliedGetter (moves : OmnmFieldImpl → Bool) (src : OmnmPayloadImpl) (field : OmnmFieldImpl) :
    Traced Region (Option FieldGetter) :=
  match fieldTypeOf field.mFieldType with
  | some .msg => keptGetter (fun _ => moves field) src field .getMsg
  | some .vectorString => keptGetter (fun _ => moves field) src field .getVectorString
  | _ => pure none

/-- The loop of `omnmmsgPayload_apply`, of which only these getters are of interest. -/
def applyGettersFrom (moves : OmnmFieldImpl → Bool) (src : OmnmPayloadImpl) :
    Nat → OmnmIterImpl → Traced Region (List FieldGetter)
  | 0, _ => Traced.fault
  | rounds + 1, iter => do
      let (field, iter) ← omnmmsgPayloadIter_next iter src
      match field with
      | none => pure []
      | some field => do
          let getter ← appliedGetter moves src field
          let getters ← applyGettersFrom moves src rounds iter
          pure (getter.toList ++ getters)

/-- What `omnmmsgPayload_apply` asks the field of its iterator to keep. -/
def omnmmsgPayload_applyGetters (moves : OmnmFieldImpl → Bool) (src : OmnmPayloadImpl) :
    Traced Region (List FieldGetter) := do
  let iter ← omnmmsgPayloadIterImpl_init src
  applyGettersFrom moves src (iterationBound src) iter

end

/-! ## What they keep -/

/-- The getter leaves a sub-payload in the field. -/
def FieldGetter.keepsSubPayload : FieldGetter → Bool
  | .getMsg given => given.length ≠ 0
  | _ => false

/-- The getter leaves an array of strings in the field. -/
def FieldGetter.keepsStrings : FieldGetter → Bool
  | .getVectorString _ size => size ≠ 0
  | _ => false

/-- The getter is one of the two. -/
def FieldGetter.Applied : FieldGetter → Prop
  | .getMsg _ | .getVectorString _ _ => True
  | .getVectorDateTime _ _ | .getVectorPrice _ _ | .getVectorMsg _ _ => False

/-- The field keeps a sub-payload and an array of strings, or one of them, or nothing. -/
structure FieldMemory.KeepsOnly (mField : FieldMemory PayloadMemory) (sub strings : Bool) :
    Prop where
  mBuffer : mField.mBuffer = .null
  mSubPayload : mField.mSubPayload = Option.none ↔ sub = false
  bare : BareEntry mField.mSubPayload
  mVectorString : mField.mVectorString = .null ↔ strings = false
  mVectorPayload : mField.mVectorPayload = .null
  mVectorDateTime : mField.mVectorDateTime = .null
  mVectorPrice : mField.mVectorPrice = .null

theorem FieldMemory.keepsOnly_none : FieldMemory.none.KeepsOnly false false := by
  constructor <;> simp [FieldMemory.none, BareEntry]

/-- A bare payload is two blocks. -/
theorem card_entryBlocks {entry : Option PayloadMemory} (bare : BareEntry entry) {sub : Bool}
    (there : entry = none ↔ sub = false) : (entryBlocks entry).card = 2 * sub.toNat := by
  cases entry with
  | none => simp [entryBlocks, there.mp rfl]
  | some payload =>
      obtain rfl : sub = true := by simpa using there
      have alone := bare payload rfl
      cases payload with
      | mk object mPayloadBuffer mField =>
          obtain ⟨held, nothing⟩ := alone
          cases mPayloadBuffer with
          | null => exact absurd rfl held
          | block number size =>
              rw [entryBlocks, blocks, fieldBlocks_eq_zero_iff.mpr nothing]
              rfl

/-- A sub-payload is two blocks, an array of strings is one. -/
theorem FieldMemory.KeepsOnly.card_fieldBlocks {mField : FieldMemory PayloadMemory}
    {sub strings : Bool} (keeps : mField.KeepsOnly sub strings) :
    (fieldBlocks mField).card = 2 * sub.toNat + strings.toNat := by
  obtain ⟨buffer, payload, bare, array, payloads, dateTimes, prices⟩ := keeps
  cases mField with
  | mk mBuffer mSubPayload mVectorString mVectorPayload mVectorDateTime mVectorPrice =>
      simp only at buffer payload bare array payloads dateTimes prices
      have second : mVectorString.blocks.card = strings.toNat := by
        cases mVectorString with
        | null => simp [Held.blocks, array.mp rfl]
        | block number size =>
            obtain rfl : strings = true := by simpa using array
            rfl
      subst buffer payloads dateTimes prices
      rw [fieldBlocks, payloadsBlocks, Multiset.card_add, Multiset.card_add, Multiset.card_add,
        card_entryBlocks bare payload, second]
      simp [arrayBlocks, Held.owns, Held.blocks]

/-- A getter of `omnmmsgPayload_apply` adds what it keeps. -/
theorem FieldMemory.KeepsOnly.trades_perform {mField : FieldMemory PayloadMemory}
    {sub strings : Bool} {getter : FieldGetter} (keeps : mField.KeepsOnly sub strings)
    (applied : getter.Applied) :
    Trades (fieldBlocks mField) (getter.perform mField) fun kept owned =>
      owned = fieldBlocks kept ∧
        kept.KeepsOnly (sub || getter.keepsSubPayload) (strings || getter.keepsStrings) := by
  cases getter with
  | getMsg given =>
      obtain ⟨rest, split⟩ := exists_rest_mSubPayload mField
      refine ((trades_fillSubPayload given mField.mSubPayload).within rest (split _)).bind ?_
      rintro filled - ⟨-, ⟨rfl, nothing, still⟩, rfl⟩
      refine trades_pure ⟨(split filled).symm, ?_⟩
      refine { keeps with mSubPayload := ?_, bare := still keeps.bare, mVectorString := ?_ }
      · show filled = Option.none ↔ _
        rw [nothing, keeps.mSubPayload]
        simp [FieldGetter.keepsSubPayload]
      · rw [keeps.mVectorString]
        simp [FieldGetter.keepsStrings]
  | getVectorString moves size =>
      obtain ⟨rest, split⟩ := exists_rest_mVectorString mField
      refine ((trades_growBuffer moves size mField.mVectorString).within rest (split _)).bind ?_
      rintro grown - ⟨-, ⟨rfl, nothing⟩, rfl⟩
      refine trades_pure ⟨(split grown).symm, ?_⟩
      refine { keeps with mSubPayload := ?_, mVectorString := ?_ }
      · rw [keeps.mSubPayload]
        simp [FieldGetter.keepsSubPayload]
      · show grown = .null ↔ _
        rw [nothing, keeps.mVectorString]
        simp [FieldGetter.keepsStrings]
  | getVectorDateTime moves count => exact applied.elim
  | getVectorPrice moves count => exact applied.elim
  | getVectorMsg moves messages => exact applied.elim

end Omnm
