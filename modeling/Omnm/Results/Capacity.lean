import Omnm.Payload.Outcomes
import Omnm.Payload.Preparation
import Omnm.Runs.Runs
import Omnm.Wire.FieldCalls
import Omnm.Wire.Lookup

/-!
# The capacity of the payload buffer

An addition asks for the bytes up to its new tail, so with an allocator that gives
exactly what is asked for, it leaves a buffer that some tail has filled. An update
that makes a field longer asks for the capacity and the difference, also when the
buffer has room behind the tail. Along a run from a new payload the capacity stays
at or below the default size and the greatest tail so far exactly if every such
update is made when the buffer is full (`capacity_bounded_iff`).
-/

set_option autoImplicit false

namespace Omnm

section

variable [FieldTypeTags] {msg next : OmnmPayloadImpl} {call : FieldCall} {out : Answer}

/-- The update finds a field that it makes longer. -/
def FieldCall.Lengthens (msg : OmnmPayloadImpl) : FieldCall → Prop
  | .updateField _ name fid data => ∃ bytes field, data.bytes = some bytes ∧
      ¬ (name = none ∧ fid = 0) ∧ (msg.findFieldInBuffer name fid).result = some (some field) ∧
      ¬ (field.mFieldType ≠ data.type ∧
        areFieldTypesCastable field.mFieldType data.type = false) ∧
      field.mSize < bytes.length
  | _ => False

/-- The message fills the buffer, and its tail is an `int`. -/
def OmnmPayloadImpl.Full (msg : OmnmPayloadImpl) : Prop :=
  msg.mPayloadBufferTail = msg.mPayloadBufferSize ∧ msg.mPayloadBufferTail < 2 ^ 31

/-- Memory of exactly the size asked for is there, and the data is an object in memory. -/
def FieldCall.ServedExactly : FieldCall → Prop
  | .addField allocator _ _ _ => allocator.Exact ∧ allocator.Succeeds
  | .updateField allocator _ _ data => (allocator.Exact ∧ allocator.Succeeds) ∧
      ∀ bytes, data.bytes = some bytes → bytes.length < 2 ^ 63
  | .clear => True
  | .getField _ _ => True

/-- The capacity in a state of a run is at most the default size or a tail of the run so far. -/
def CapacityBounded (calls : List FieldCall) (reached : OmnmPayloadImpl) : Prop :=
  reached.mPayloadBufferSize ≤ max defaultPayloadSize
    (peak payloadStep OmnmPayloadImpl.mPayloadBufferTail newPayload calls)

/-! ## What a call does to tail and capacity -/

/-- The kinds of steps. -/
inductive Resized (msg : OmnmPayloadImpl) (call : FieldCall) (next : OmnmPayloadImpl) : Prop where
  | kept (short : ¬ call.Lengthens msg) (size : next.mPayloadBufferSize = msg.mPayloadBufferSize)
      (tail : next.mPayloadBufferTail = msg.mPayloadBufferTail ∨ next.mPayloadBufferTail = 3)
  | added (short : ¬ call.Lengthens msg)
      (size : next.mPayloadBufferSize = max msg.mPayloadBufferSize next.mPayloadBufferTail)
  | updated (old new : Nat) (lengthens : call.Lengthens msg ↔ old < new)
      (oldObject : old < 2 ^ 63) (newObject : new < 2 ^ 63)
      (size : next.mPayloadBufferSize = msg.mPayloadBufferSize + (new - old))
      (tail : next.mPayloadBufferTail = asSize (asInt32 msg.mPayloadBufferTail + (new - old : Int)))

/-- An appended field fills the buffer, or fits into it. -/
theorem size_of_appended {allocator : Allocator} {type : UInt8} {name : Option CString}
    {length : Nat} (appended : msg.Appended allocator type name length next)
    (exactly : allocator.Exact ∧ allocator.Succeeds) :
    next.mPayloadBufferSize = max msg.mPayloadBufferSize next.mPayloadBufferTail := by
  rw [appended.size, length_allocateBufferMemory exactly.1 exactly.2, appended.tail]
  rfl

/-- An addition that returns keeps tail and capacity, or fills the buffer where it grows it. -/
theorem resized_of_addField {allocator : Allocator} {type : UInt8} {name : Option CString}
    {fid : UInt16} {buffer : Option (List UInt8)} {status : MamaStatus}
    (added : (msg.addField allocator type name fid buffer).result = some (status, next))
    (exactly : allocator.Exact ∧ allocator.Succeeds) (short : ¬ call.Lengthens msg) :
    Resized msg call next := by
  rcases OmnmPayloadImpl.addField_cases added with ⟨-, rfl⟩ | ⟨-, appended⟩
  · exact .kept short rfl (.inl rfl)
  · exact .added short (size_of_appended appended exactly)

/-- The length of a field in the buffer is that of an object in memory. -/
theorem mSize_object {name : Option CString} {fid : UInt16} {field : OmnmFieldImpl}
    (search : (msg.findFieldInBuffer name fid).result = some (some field))
    (object : msg.mPayloadBufferSize < 2 ^ 63) : field.mSize < 2 ^ 63 := by
  obtain ⟨_, _, _, located⟩ := exists_locateData_of_findFieldInBuffer search
  rcases size_le_of_locateData located with small | inside
  · omega
  · exact Nat.lt_of_le_of_lt inside object

/-- Every step is of one of the kinds. -/
theorem resized_of_step (stepped : payloadStep msg call = some (out, next))
    (exactly : call.ServedExactly) (object : msg.mPayloadBufferSize < 2 ^ 63) :
    Resized msg call next := by
  cases call with
  | clear =>
      obtain ⟨⟨status, cleared⟩, performed, returned⟩ := Traced.result_bind_eq_some.mp stepped
      cases returned
      cases performed
      refine .kept not_false ?_ (.inr rfl)
      simp only [OmnmPayloadImpl.mPayloadBufferSize, length_overwrite]
  | getField name fid =>
      obtain ⟨⟨status, field⟩, -, returned⟩ := Traced.result_bind_eq_some.mp stepped
      cases returned
      exact .kept not_false rfl (.inl rfl)
  | addField allocator name fid data =>
      obtain ⟨⟨status, changed⟩, performed, returned⟩ := Traced.result_bind_eq_some.mp stepped
      cases returned
      exact resized_of_addField performed exactly not_false
  | updateField allocator name fid data =>
      obtain ⟨⟨status, changed⟩, performed, returned⟩ := Traced.result_bind_eq_some.mp stepped
      cases returned
      cases given : data.bytes with
      | none =>
          rw [given, updateField_null (.inl rfl)] at performed
          cases performed
          refine .kept ?_ rfl (.inl rfl)
          rintro ⟨bytes, field, same, -⟩
          cases given.symm.trans same
      | some bytes =>
          rw [given] at performed
          rcases OmnmPayloadImpl.updateField_cases performed with ⟨-, rfl, refused⟩ |
            ⟨absent, added⟩ | ⟨field, after, key, search, castable, -, updated⟩
          · refine .kept ?_ rfl (.inl rfl)
            rintro ⟨bytes', field', -, key, search', castable', -⟩
            rcases refused with null | ⟨field, search, refused⟩
            · exact key null
            · cases search.symm.trans search'
              exact castable' refused
          · apply resized_of_addField added exactly.1
            rintro ⟨bytes', field', -, -, search', -⟩
            cases absent.symm.trans search'
          · have held := mSize_object search object
            have short := exactly.2 bytes given
            have capacity := updated.capacity exactly.1.1 exactly.1.2 held short
            have lengthens : (FieldCall.updateField allocator name fid data).Lengthens msg →
                field.mSize < bytes.length := by
              rintro ⟨bytes', field', same', -, search', -, longer⟩
              cases given.symm.trans same'
              cases search.symm.trans search'
              exact longer
            by_cases same : bytes.length = field.mSize
            · obtain ⟨-, -, tail, size, -⟩ := updated.lengths_same same
              exact .kept (fun longer => absurd (lengthens longer) (by omega)) size (.inl tail)
            · refine .updated field.mSize bytes.length ⟨lengthens, ?_⟩ held short
                capacity ?_
              · intro longer
                exact ⟨bytes, field, given, key, search, castable, longer⟩
              · have difference : asInt64 bytes.length - asInt64 field.mSize =
                    (bytes.length : Int) - field.mSize := by
                  rw [asInt64_of_lt short, asInt64_of_lt held]
                exact (updated.lengths_differ same difference).2.2.1

/-- A step raises the capacity no higher than its own tail, unless it lengthens a field of a
buffer that is not full. -/
theorem size_le_of_resized (resized : Resized msg call next)
    (full : call.Lengthens msg → msg.Full) :
    next.mPayloadBufferSize ≤ max msg.mPayloadBufferSize next.mPayloadBufferTail := by
  cases resized with
  | kept short size tail => omega
  | added short size => omega
  | updated old new lengthens oldObject newObject size tail =>
      by_cases longer : old < new
      · obtain ⟨filled, below⟩ := full (lengthens.mpr longer)
        have sum : (msg.mPayloadBufferTail : Int) + (new - old) =
            (msg.mPayloadBufferTail + (new - old) : Nat) := by omega
        rw [asInt32_of_lt below, sum, asSize_of_lt (by omega)] at tail
        omega
      · omega

/-- A buffer that covers its tail does so after every step whose tail is an `int`, and a step
that lengthens a field of it raises the capacity above the tail if it was not full. -/
theorem full_of_resized (resized : Resized msg call next) (room : 3 ≤ msg.mPayloadBufferSize)
    (below : msg.mPayloadBufferTail < 2 ^ 31) (below' : next.mPayloadBufferTail < 2 ^ 31)
    (covered : msg.mPayloadBufferTail ≤ msg.mPayloadBufferSize) :
    msg.mPayloadBufferSize ≤ next.mPayloadBufferSize ∧
      next.mPayloadBufferTail ≤ next.mPayloadBufferSize ∧
      (next.mPayloadBufferSize ≤ max msg.mPayloadBufferSize next.mPayloadBufferTail →
        call.Lengthens msg → msg.Full) := by
  cases resized with
  | kept short size tail => exact ⟨by omega, by omega, fun _ longer => absurd longer short⟩
  | added short size => exact ⟨by omega, by omega, fun _ longer => absurd longer short⟩
  | updated old new lengthens oldObject newObject size tail =>
      have sum : (next.mPayloadBufferTail : Int) = msg.mPayloadBufferTail + (new - old) := by
        rw [asInt32_of_lt below] at tail
        unfold asSize at tail
        omega
      refine ⟨by omega, by omega, fun bounded longer => ⟨?_, below⟩⟩
      have grown := lengthens.mp longer
      omega

end

/-- In a run from a new payload of calls that are served exactly, the capacity is in every state
at most the default size and the greatest tail so far if every update that lengthens a field is
made when the buffer is full. Where the tail stays an `int`, it is so only then. -/
theorem capacity_bounded_iff [FieldTypeTags] {calls : List FieldCall} {outs : List Answer}
    {last : OmnmPayloadImpl} (ran : run payloadStep newPayload calls = some (outs, last))
    (served : ∀ call ∈ calls, call.ServedExactly)
    (objects : Along payloadStep (fun msg _ => msg.mPayloadBufferSize < 2 ^ 63) newPayload calls) :
    (Along payloadStep (fun msg call => call.Lengthens msg → msg.Full) newPayload calls →
        AllAlong payloadStep CapacityBounded newPayload calls) ∧
      (AllAlong payloadStep (fun _ reached => reached.mPayloadBufferTail < 2 ^ 31) newPayload
          calls →
        AllAlong payloadStep CapacityBounded newPayload calls →
        Along payloadStep (fun msg call => call.Lengthens msg → msg.Full) newPayload calls) := by
  have kinds := along_and_of_mem objects served
  have start : newPayload.mPayloadBufferSize = defaultPayloadSize := by
    rw [OmnmPayloadImpl.mPayloadBufferSize, newPayload, List.length_append, List.length_replicate]
    rfl
  have tail : newPayload.mPayloadBufferTail = 3 := rfl
  constructor
  · intro full
    refine allAlong_le_peak ?_ ran (kinds.and full) (start.trans_le (Nat.le_max_left _ _))
    rintro msg call out next ⟨⟨object, exactly⟩, filled⟩ stepped
    exact size_le_of_resized (resized_of_step stepped exactly object) filled
  · intro below bounded
    refine along_of_allAlong_le_peak ?_ ran kinds below (show 3 ≤ defaultPayloadSize by decide)
      (Nat.le_of_eq start.symm) ?_ bounded
    · rintro msg call out next ⟨object, exactly⟩ small small' room covered stepped
      exact full_of_resized (resized_of_step stepped exactly object) room small small' covered
    · rw [tail, start]
      decide

section Example

attribute [local instance] mamaFieldTypes

/-- The data of a string field. -/
def stringData (string : CString) : FieldData where
  type := mamaFieldTypeNumber .string
  listed := by decide
  value := some ⟨string.terminated, dataFits_terminated string⟩

/-- A short string is added. -/
def addShort : FieldCall := .addField .zeroing none 1 (stringData ⟨[97], by decide⟩)

/-- The string is made longer. -/
def updateLonger : FieldCall := .updateField .zeroing none 1 (stringData ⟨[97, 98], by decide⟩)

/-- A string of so many characters. -/
def longString (length : Nat) : CString :=
  ⟨List.replicate length 97, fun member => absurd (List.eq_of_mem_replicate member) (by decide)⟩

/-- A string is added that fills the buffer of a new payload. -/
def addFilling : FieldCall := .addField .zeroing none 1 (stringData (longString 192))

/-- It is made longer by a character. -/
def lengthenFilling : FieldCall := .updateField .zeroing none 1 (stringData (longString 193))

/-- The buffer is filled, and the field in it made longer. -/
theorem capacity_bounded_filling :
    AllAlong payloadStep CapacityBounded newPayload [addFilling, lengthenFilling] ∧
      (run payloadStep newPayload [addFilling, lengthenFilling]).map
        (fun result => (result.2.mPayloadBufferTail, result.2.mPayloadBufferSize)) =
          some (201, 201) := by
  have filled : (payloadStep newPayload addFilling).map
      (fun result => (result.2.mPayloadBufferTail, result.2.mPayloadBufferSize)) =
        some (200, 200) := by
    decide +kernel
  have grown : (run payloadStep newPayload [addFilling, lengthenFilling]).map
      (fun result => (result.2.mPayloadBufferTail, result.2.mPayloadBufferSize)) =
        some (201, 201) := by
    decide +kernel
  have between : ∀ out next, payloadStep newPayload addFilling = some (out, next) →
      next.mPayloadBufferTail = 200 ∧ next.mPayloadBufferSize = 200 := by
    intro out next stepped
    rw [stepped] at filled
    exact Prod.mk.injEq .. ▸ Option.some.inj filled
  refine ⟨?_, grown⟩
  obtain ⟨⟨outs, last⟩, ran⟩ := Option.map_eq_some_iff.mp grown |>.imp fun _ ran => ran.1
  refine (capacity_bounded_iff ran ?_ ⟨?_, ?_⟩).1 ⟨False.elim, ?_⟩
  · intro call member
    rcases List.mem_cons.mp member with rfl | second
    · exact ⟨Allocator.zeroing_exact, Allocator.zeroing_succeeds⟩
    · rw [List.mem_singleton.mp second]
      refine ⟨⟨Allocator.zeroing_exact, Allocator.zeroing_succeeds⟩, ?_⟩
      intro bytes same
      cases same
      decide +kernel
  · show newPayload.mPayloadBuffer.length < 2 ^ 63
    decide +kernel
  · intro out next stepped
    refine ⟨?_, fun _ _ _ => trivial⟩
    show next.mPayloadBufferSize < 2 ^ 63
    rw [(between out next stepped).2]
    decide
  · -- the update meets a full buffer
    intro out next stepped
    refine ⟨fun _ => ?_, fun _ _ _ => trivial⟩
    obtain ⟨tail, size⟩ := between out next stepped
    rw [OmnmPayloadImpl.Full, tail, size]
    decide

/-- An update of a string to a longer one grows a buffer that has room for it. -/
theorem updateLonger_grows :
    (∀ call ∈ [addShort, updateLonger], call.ServedExactly) ∧
      ∃ outs last, run payloadStep newPayload [addShort, updateLonger] = some (outs, last) ∧
        last.mPayloadBufferSize = 201 ∧
        ¬ AllAlong payloadStep CapacityBounded newPayload [addShort, updateLonger] := by
  constructor
  · intro call member
    rcases List.mem_cons.mp member with rfl | second
    · exact ⟨Allocator.zeroing_exact, Allocator.zeroing_succeeds⟩
    · rw [List.mem_singleton.mp second]
      refine ⟨⟨Allocator.zeroing_exact, Allocator.zeroing_succeeds⟩, ?_⟩
      intro bytes same
      cases same
      decide
  · obtain ⟨⟨outs, last⟩, ran⟩ : ∃ result,
        run payloadStep newPayload [addShort, updateLonger] = some result :=
      Option.isSome_iff_exists.mp (by decide +kernel)
    have size : (run payloadStep newPayload [addShort, updateLonger]).map
        (fun result => result.2.mPayloadBufferSize) = some 201 := by
      decide +kernel
    have top : peak payloadStep OmnmPayloadImpl.mPayloadBufferTail newPayload
        [addShort, updateLonger] = 10 := by
      decide +kernel
    rw [ran, Option.map_some, Option.some.injEq] at size
    refine ⟨outs, last, ran, size, ?_⟩
    intro bounded
    have below := bounded _ outs last List.prefix_rfl ran
    rw [CapacityBounded, top, size, defaultPayloadSize] at below
    omega

end Example

end Omnm
