import Mathlib.Data.Int.ModEq
import Omnm.Results.AccessPaths
import Omnm.Results.Casting
import Omnm.Results.Containment
import Omnm.Wire.Additions

/-!
# Integers that are read as other integers

An integer is added as its bytes, and a getter of any integer type takes it back.
It refuses a number of a wider type. Otherwise it widens the bits by the sign of
the type that is stored and gives the one number of its own type that is
congruent to the stored one (`ScalarType.holds_and_congruent_iff`).

What else is added afterwards stands behind the number or replaces fields that
are no scalars, so the number is still read along every run of additions in
which names and lengths fit the integers that count them
(`integer_reads_convert`). A name that does not is cut off, and the bytes behind
it are taken for its end (`long_name_reads_zero`).
-/

set_option autoImplicit false

namespace Omnm

open FieldTypeTags (tag)
open OmnmPayloadImpl

/-! ## Numbers and their bits -/

namespace ScalarType

/-- An integer type has the number. -/
def Holds (scalar : ScalarType) (number : Int) : Prop :=
  if scalar.isSigned then
    -2 ^ (8 * scalar.size - 1) ≤ number ∧ number < 2 ^ (8 * scalar.size - 1)
  else 0 ≤ number ∧ number < 2 ^ (8 * scalar.size)

instance (scalar : ScalarType) (number : Int) : Decidable (scalar.Holds number) :=
  inferInstanceAs (Decidable (if scalar.isSigned then _ ∧ _ else _ ∧ _))

/-- The bits of a number, in two's complement. -/
def bitsOf (scalar : ScalarType) (number : Int) : Nat := (number % 2 ^ (8 * scalar.size)).toNat

variable {source target : ScalarType} {number : Int}

/-- The numbers that are congruent to another one and of an integer type are that of its bits. -/
theorem holds_and_congruent_iff (integer : target.isInteger = true) (other : Int) :
    target.Holds other ∧ other ≡ number [ZMOD 2 ^ (8 * target.size)] ↔
      other = target.integerValue (target.bitsOf number) := by
  have modulus : (256 ^ target.size : Nat) = 2 ^ (8 * target.size) := by
    rw [Nat.pow_mul]
  unfold Holds integerValue bitsOf Int.ModEq
  rw [modulus]
  cases target <;> simp [isInteger, isSigned, size, Int.bmod_def] at integer ⊢ <;> omega

/-- An integer type has a number for its bits. -/
theorem integerValue_bitsOf (integer : target.isInteger = true) (holds : target.Holds number) :
    target.integerValue (target.bitsOf number) = number :=
  ((holds_and_congruent_iff integer number).mp ⟨holds, Int.ModEq.refl number⟩).symm

/-- Congruent numbers have the same bits. -/
theorem bitsOf_congr {other : Int} (congruent : other ≡ number [ZMOD 2 ^ (8 * target.size)]) :
    target.bitsOf other = target.bitsOf number := congrArg Int.toNat congruent

theorem bitsOf_lt (scalar : ScalarType) (number : Int) :
    scalar.bitsOf number < 256 ^ scalar.size := by
  have modulus : (2 : Int) ^ (8 * scalar.size) = (256 ^ scalar.size : Nat) := by
    rw [pow_mul]
    norm_num
  have positive : (0 : Int) < (256 ^ scalar.size : Nat) := by
    positivity
  have below := Int.emod_lt_of_pos number positive
  have above := Int.emod_nonneg number positive.ne'
  rw [bitsOf, modulus]
  omega

/-- The bits of a number, as the bits of another integer type. -/
theorem castScalar_bitsOf [MamaLibrary] (stored : source.isInteger = true)
    (asked : target.isInteger = true) (holds : source.Holds number) :
    castScalar source target (source.bitsOf number) = target.bitsOf number := by
  have exactInteger : (source.isFloat || target.isFloat) = false := by
    rw [isFloat_of_isInteger stored, isFloat_of_isInteger asked, Bool.or_false]
  have modulus : (2 : Int) ^ (8 * target.size) = 256 ^ target.size := by
    rw [pow_mul]
    norm_num
  rw [castScalar]
  split
  · rename_i same
    rw [same]
  · rw [exactInteger, if_neg Bool.false_ne_true, integerValue_bitsOf stored holds, bitsOf, modulus]

end ScalarType

section

variable [FieldTypeTags]

/-- The getter of an integer type refuses a number of a wider type. Otherwise it gives the one
number of its own type that is congruent to it, which is the number itself if it is of that
type. -/
structure ReadsNumber [MamaLibrary] (source target : ScalarType) (msg : OmnmPayloadImpl)
    (name : Option CString) (fid : UInt16) (number : Int) : Prop where
  refused : (target.omnmmsgPayload_get msg name fid).result.map Prod.fst = some .wrongFieldType ↔
    target.size < source.size
  read : source.size ≤ target.size → ∃ converted,
    (target.omnmmsgPayload_get msg name fid).result =
        some (.ok, some (target.bitsOf converted)) ∧
      (∀ other, target.Holds other ∧ other ≡ number [ZMOD 2 ^ (8 * target.size)] ↔
        other = converted) ∧
      (target.Holds number → converted = number)

/-- The integers that count a name, a tail and a length are wide enough for a call. -/
def PayloadCall.InRange (msg : OmnmPayloadImpl) : PayloadCall → Prop
  | .field memory name fid request =>
      request.Each memory msg.mBuffer name fid fun mutation => mutation.InRange msg name fid
  | .clear | .unSerialize .. => True

/-! ## A number among additions -/

variable {msg : OmnmPayloadImpl} {message : Message} {name : Option CString} {fid : UInt16}
  {source target : ScalarType} {number : Int}

/-- The field of a number. -/
def numberField (source : ScalarType) (name : Option CString) (fid : UInt16) (number : Int) :
    FieldEntry where
  type := tag source.fieldType
  fid := fid
  name := name.getD CString.empty
  data := littleEndian source.size (source.bitsOf number)

/-- A number that is added under a new key is the first field with the key. -/
theorem numberField_added (represents : msg.Represents message)
    (key : validateNameFid name fid = none) (absent : message.find name fid = none)
    {memory : CallMemory}
    (granted : PayloadCall.Granted msg
      (.field memory name fid (.addScalar source (source.bitsOf number))))
    (inRange : PayloadCall.InRange msg
      (.field memory name fid (.addScalar source (source.bitsOf number)))) :
    ∃ next, payloadCallStep msg
        (.field memory name fid (.addScalar source (source.bitsOf number))) = some (.ok, next) ∧
      next.FindsFirst name fid (numberField source name fid number) := by
  obtain ⟨succeeds, small⟩ := granted
  have width : (littleEndian source.size (source.bitsOf number)).length = source.size :=
    length_littleEndian ..
  have narrow := source.size_le
  have accepted : Accepted name fid (littleEndian source.size (source.bitsOf number)) := by
    refine ⟨?_, ?_, key⟩
    · rw [width, uint32Max]
      omega
    · rw [← List.length_pos_iff, width]
      exact source.size_pos
  have rejected := accepted_iff_rejection.mp accepted
  have short : strlenEx name + 1 < 2 ^ 31 := inRange _ _ rfl _ rfl rejected
  have bound : msg.sizeAfterAdd (tag source.fieldType) name fid
      (littleEndian source.size (source.bitsOf number)) < 2 ^ 63 := small _ _ rfl
  have listed : dataLayout (tag source.fieldType) ≠ .unlisted :=
    dataLayout_tag _ source.fieldType_ne_unknown
  have fits := source.dataFits_littleEndian (source.bitsOf number)
  have size := @Represents.length_encode_append _ _ _ name fid represents _ listed _ fits
  rw [sizeAfterAdd, if_pos rejected] at bound
  obtain ⟨next, keeps⟩ := represents.append succeeds.payload listed fits accepted short (by omega)
  refine ⟨next, ?_, _, keeps.represents,
    Message.find_append absent fits (hasKey_of_validateNameFid key)⟩
  rw [payloadCallStep, PayloadCall.perform, FieldRequest.perform, source.mutators_eq.1]
  exact keeps.result

/-- A call that adds leaves the fields of fixed width. -/
theorem leavesFirst_call {entry : FieldEntry} {call : PayloadCall}
    (finds : msg.FindsFirst name fid entry)
    (casts : isFieldTypeFixedWidth entry.type = true) (adds : call.Adds)
    (granted : call.Granted msg) (inRange : call.InRange msg) :
    LeavesFirst name fid entry (call.perform msg) := by
  obtain ⟨message, represents, found⟩ := finds
  cases call with
  | field memory other number request =>
      obtain ⟨succeeds, small⟩ := granted
      have prepares : ∃ mutation scratch,
          (request.prepare memory msg.mBuffer other number).result = some (mutation, scratch) :=
        request.exists_prepared succeeds.scratch
      obtain ⟨mutation, scratch, prepared⟩ := prepares
      have bound : mutation.sizeAfter msg other number < 2 ^ 63 := small mutation scratch prepared
      have range : mutation.InRange msg other number := inRange mutation scratch prepared
      rw [← mutation.sizeAfter_withScratch scratch] at bound
      obtain ⟨status, next, result, holds⟩ :=
        (represents.withScratch scratch).leavesFirst_mutation found casts succeeds.payload
          (request.prepare_shaped prepared) (FieldRequest.extends_of_adds adds prepared)
          (range.withScratch scratch) bound
      refine ⟨status, next, ?_, holds⟩
      rw [PayloadCall.perform, request.perform_eq, afterPreparing, Traced.result_bind, prepared,
        Option.bind_some]
      exact result
  | clear => exact adds.elim
  | unSerialize memory buffer length => exact adds.elim

/-- Where the field of a number is found, the getters of the integer types read the number. -/
theorem readsNumber_of_findsFirst [MamaLibrary]
    (finds : msg.FindsFirst name fid (numberField source name fid number))
    (stored : source.isInteger = true) (holds : source.Holds number)
    (asked : target.isInteger = true) : ReadsNumber source target msg name fid number := by
  obtain ⟨message, represents, found⟩ := finds
  have listed : dataLayout (numberField source name fid number).type ≠ .unlisted :=
    dataLayout_tag _ source.fieldType_ne_unknown
  have width : (numberField source name fid number).data.length = source.size :=
    length_littleEndian ..
  obtain ⟨field, handled, keyed, byKey, -⟩ := @both_ways_of_find _ _
    ⟨msg, OmnmFieldImpl.zeroed, FieldResults.none⟩ _ name fid _ represents found listed target
  dsimp only at handled byKey
  have wide : source.size ≤ target.size → (target.omnmmsgPayload_get msg name fid).result =
      some (.ok, some (target.bitsOf number)) := by
    intro fits
    rw [byKey, handled.getFieldValueAsCopy rfl width fits, if_neg keyed, numberField,
      littleEndianValue_littleEndian_of_lt (source.bitsOf_lt number),
      ScalarType.castScalar_bitsOf stored asked holds]
  constructor
  · constructor
    · intro refused
      by_contra fits
      rw [wide (Nat.not_lt.mp fits)] at refused
      cases refused
    · intro narrow
      rw [byKey, getFieldValueAsCopy_of_long handled keyed (width ▸ narrow)]
      rfl
  · intro fits
    have unique := @ScalarType.holds_and_congruent_iff target number asked
    have converted := (unique _).mpr rfl
    refine ⟨target.integerValue (target.bitsOf number), ?_, unique, ?_⟩
    · rw [wide fits, ScalarType.bitsOf_congr converted.2]
    · exact ScalarType.integerValue_bitsOf asked

end

/-- A number that is added under a new key to a payload that holds a message is read by the getters
of the integer types, whatever is added afterwards, as long as calls get their memory and their
names and lengths fit the integers that count them. -/
theorem integer_reads_convert [FieldTypeTags] [MamaLibrary] {msg : OmnmPayloadImpl}
    {message : Message} (represents : msg.Represents message) {name : Option CString}
    {fid : UInt16} (key : validateNameFid name fid = none) (absent : message.find name fid = none)
    {source : ScalarType} (stored : source.isInteger = true) {number : Int}
    (holds : source.Holds number) {memory : CallMemory} {adds : List PayloadCall}
    (kinds : ∀ call ∈ adds, call.Adds)
    (along : Along payloadCallStep (fun msg call => call.Granted msg ∧ call.InRange msg) msg
      (.field memory name fid (.addScalar source (source.bitsOf number)) :: adds)) :
    ∃ statuses last, run payloadCallStep msg
        (.field memory name fid (.addScalar source (source.bitsOf number)) :: adds) =
          some (.ok :: statuses, last) ∧
      ∀ target : ScalarType, target.isInteger = true →
        ReadsNumber source target last name fid number := by
  obtain ⟨⟨granted, inRange⟩, later⟩ := along
  obtain ⟨next, added, finds⟩ := numberField_added represents key absent granted inRange
  have casts : isFieldTypeFixedWidth (numberField source name fid number).type = true :=
    source.isFieldTypeFixedWidth_fieldType
  have keeps : ∀ (msg : OmnmPayloadImpl) (call : PayloadCall),
      msg.FindsFirst name fid (numberField source name fid number) →
      (call.Granted msg ∧ call.InRange msg) ∧ call.Adds →
      ∃ status next, payloadCallStep msg call = some (status, next) ∧
        next.FindsFirst name fid (numberField source name fid number) := by
    rintro msg call finds ⟨⟨granted, inRange⟩, isAdd⟩
    exact leavesFirst_call finds casts isAdd granted inRange
  obtain ⟨statuses, last, ran, kept⟩ :=
    run_invariant keeps adds next finds (along_and_of_mem (later .ok next added) kinds)
  refine ⟨statuses, last, ?_, fun target => readsNumber_of_findsFirst kept stored holds⟩
  rw [run_cons_of_step added, ran]
  rfl

section Example

attribute [local instance] mamaFieldTypes
attribute [local instance] plainLibrary

/-- The payload with the I8 field -5. -/
def minusFivePayload : OmnmPayloadImpl :=
  { newPayload with
    mPayloadBuffer := [79, 1, 0, 11, 1, 0, 0, 251] ++ List.replicate 192 0
    mPayloadBufferTail := 8 }

theorem minusFive_result : payloadCallStep newPayload
    (.field .zeroing none 1 (.addScalar .i8 (ScalarType.i8.bitsOf (-5)))) =
      some (.ok, minusFivePayload) := by
  decide +kernel

/-- A scalar that is added to a small payload under a fid is granted and in range. -/
theorem inRange_addScalar {msg : OmnmPayloadImpl} (small : msg.mPayloadBufferTail ≤ 100)
    (fid : UInt16) (scalar : ScalarType) (value : Nat) :
    PayloadCall.Granted msg (.field .zeroing none fid (.addScalar scalar value)) ∧
      PayloadCall.InRange msg (.field .zeroing none fid (.addScalar scalar value)) := by
  have narrow := scalar.size_le
  refine ⟨⟨CallMemory.zeroing_succeeds, ?_⟩, ?_⟩
  · intro mutation scratch prepared
    cases prepared
    have size := length_writtenField (tag scalar.fieldType) fid CString.empty
      (littleEndian scalar.size value)
    have terminator : CString.empty.terminated.length = 1 := rfl
    have part : (if isFieldTypeSized (tag scalar.fieldType) then 4 else 0) ≤ 4 := by
      split <;> decide
    rw [length_littleEndian] at size
    rw [Mutation.sizeAfter, Option.elim_some, sizeAfterAdd, Option.getD_none, size]
    split <;> omega
  · intro mutation scratch prepared
    cases prepared
    intro bytes _ _
    exact (by decide : strlenEx none + 1 < 2 ^ 31)

theorem minusFive_read :
    ∃ statuses last, run payloadCallStep newPayload
        [.field .zeroing none 1 (.addScalar .i8 (ScalarType.i8.bitsOf (-5))),
          .field .zeroing none 2 (.addScalar .u16 7)] = some (.ok :: statuses, last) ∧
      ∀ target : ScalarType, target.isInteger = true → ReadsNumber .i8 target last none 1 (-5) :=
  integer_reads_convert Represents.newPayload rfl rfl rfl (by decide)
    (by
      intro call member
      obtain rfl := List.mem_singleton.mp member
      trivial)
    (along_cons_of_step (inRange_addScalar (by decide) 1 .i8 _) minusFive_result
      ⟨inRange_addScalar (by decide) 2 .u16 7, fun _ _ _ => trivial⟩)

/-- The payload to which 5 was added under a name that was cut off behind its first letter. -/
def cutNamePayload : OmnmPayloadImpl :=
  { newPayload with
    mPayloadBuffer := [79, 1, 0, 11, 1, 0, 97, 5] ++ List.replicate 192 0
    mPayloadBufferTail := 8 }

/-- Of a name of 4 GiB only the first letter is written. -/
theorem long_name_added {name : CString} (long : name.bytes = List.replicate (2 ^ 32) 97) :
    payloadCallStep newPayload (.field .zeroing (some name) 1 (.addScalar .i8 5)) =
      some (.ok, cutNamePayload) := by
  have length : name.bytes.length = 2 ^ 32 := by
    rw [long, List.length_replicate]
  have counted : asInt32 (strlenEx (some name) + 1) = 1 := by
    rw [strlenEx, length]
    decide
  have first : name.terminated.take 1 = [97] := by
    rw [CString.terminated, long, show 2 ^ 32 = (2 ^ 32 - 1) + 1 from rfl, List.replicate_succ]
    rfl
  have enough : ¬ name.terminated.length < 1 := by
    rw [CString.length_terminated]
    omega
  have one : asSize 1 = 1 := by decide
  have key : validateNameFid (some name) 1 = none := rfl
  rw [payloadCallStep, PayloadCall.perform, FieldRequest.perform]
  simp only [ScalarType.omnmmsgPayload_add, omnmmsgPayload_addI8, addScalarField, addField,
    newTailOffset, counted, insertName, one, if_neg enough, first, key, reduceCtorEq, false_and]
  decide +kernel

set_option maxRecDepth 20000 in
theorem cutName_read (name : CString) :
    (omnmmsgPayload_getI8 cutNamePayload (some name) 1).result = some (.ok, some 0) := by
  rfl

/-- A 5 that is added with OK under a name of 4 GiB is read with OK as 0. -/
theorem long_name_reads_zero :
    ∃ name : CString, name.bytes = List.replicate (2 ^ 32) 97 ∧
      newPayload.Represents Message.empty ∧ validateNameFid (some name) 1 = none ∧
      Message.empty.find (some name) 1 = none ∧
      payloadCallStep newPayload
        (.field .zeroing (some name) 1 (.addScalar .i8 (ScalarType.i8.bitsOf 5))) =
          some (.ok, cutNamePayload) ∧
      (omnmmsgPayload_getI8 cutNamePayload (some name) 1).result = some (.ok, some 0) ∧
      ¬ ReadsNumber .i8 .i8 cutNamePayload (some name) 1 5 := by
  have noNul : (0 : UInt8) ∉ List.replicate (2 ^ 32) (97 : UInt8) := by
    intro member
    exact absurd (List.eq_of_mem_replicate member) (by decide)
  have bits : ScalarType.i8.bitsOf 5 = 5 := by decide
  refine ⟨⟨List.replicate (2 ^ 32) 97, noNul⟩, rfl, Represents.newPayload, rfl, rfl, ?_,
    cutName_read _, ?_⟩
  · rw [bits]
    exact long_name_added rfl
  · intro reads
    obtain ⟨converted, got, -, same⟩ := reads.read (Nat.le_refl _)
    rw [same (by decide), bits, ScalarType.omnmmsgPayload_get, cutName_read] at got
    cases got

end Example

end Omnm
