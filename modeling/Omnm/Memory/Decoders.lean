import Mathlib.Logic.Equiv.Defs
import Omnm.Memory.Bytes

/-!
# Exact decoders

A decoder takes a value off the front of a list of symbols and gives what is
behind it. A `Decoder` carries its encoder and the fact that it is exact: it
takes a value, and leaves a rest, exactly where the encoding of a good value
stands in front of that rest. So what follows a value does not matter, and
encodings one behind the other determine the values (`Decoder.flatMap_encode_inj`).

Decoders are put together where the kind of the second value depends on the
first (`Decoder.pair`), carried over to equivalent values (`Decoder.congr`) and
repeated to the end of the list (`Decoder.takeAll_eq_some_iff`). The primitive
ones are those of a flat byte format: a symbol, a block of a given length, an
integer, a terminated string, and a block behind its length.
-/

set_option autoImplicit false

namespace Omnm

universe u v w

/-- The string in front of a terminator. -/
theorem CString.ofBytes_terminated_append (string : CString) (rest : List UInt8) :
    CString.ofBytes (string.terminated ++ rest) = string := by
  have before : ∀ byte ∈ string.bytes, byte ≠ 0 := by
    rintro byte member rfl
    exact string.noNul member
  apply CString.ext
  simp only [CString.ofBytes, CString.terminated, List.append_assoc, decide_not]
  rw [List.takeWhile_append_of_pos (by simpa using before)]
  simp

theorem CString.ofBytes_terminated (string : CString) : CString.ofBytes string.terminated = string := by
  have whole := CString.ofBytes_terminated_append string []
  rwa [List.append_nil] at whole

/-- A decoder with its encoder. -/
structure Decoder (Symbol : Type u) (Value : Type v) where
  encode : Value → List Symbol
  Good : Value → Prop
  take : List Symbol → Option (Value × List Symbol)
  take_eq_some_iff : ∀ {list value rest},
    take list = some (value, rest) ↔ Good value ∧ list = encode value ++ rest

namespace Decoder

variable {Symbol : Type u} {Value : Type v} {Other : Type w} {decoder : Decoder Symbol Value}

theorem take_encode {value : Value} (good : decoder.Good value) (rest : List Symbol) :
    decoder.take (decoder.encode value ++ rest) = some (value, rest) :=
  decoder.take_eq_some_iff.mpr ⟨good, rfl⟩

/-! ## Decoders from decoders -/

/-- One value, and then one of a kind that depends on it. -/
def pair (first : Decoder Symbol Value) (second : Value → Decoder Symbol Other) :
    Decoder Symbol (Value × Other) where
  encode value := first.encode value.1 ++ (second value.1).encode value.2
  Good value := first.Good value.1 ∧ (second value.1).Good value.2
  take list := (first.take list).bind fun taken =>
    ((second taken.1).take taken.2).map fun behind => ((taken.1, behind.1), behind.2)
  take_eq_some_iff := by
    intro list value rest
    simp only [Option.bind_eq_some_iff, Option.map_eq_some_iff, Prod.exists, Prod.mk.injEq]
    constructor
    · rintro ⟨left, middle, tookLeft, right, behind, tookRight, rfl, rfl⟩
      obtain ⟨goodLeft, rfl⟩ := first.take_eq_some_iff.mp tookLeft
      obtain ⟨goodRight, rfl⟩ := (second left).take_eq_some_iff.mp tookRight
      exact ⟨⟨goodLeft, goodRight⟩, (List.append_assoc ..).symm⟩
    · rintro ⟨⟨goodLeft, goodRight⟩, rfl⟩
      refine ⟨value.1, (second value.1).encode value.2 ++ rest, ?_, value.2, rest,
        (second value.1).take_encode goodRight rest, rfl, rfl⟩
      rw [List.append_assoc]
      exact first.take_encode goodLeft _

/-- The values in another form. -/
def congr (decoder : Decoder Symbol Value) (form : Value ≃ Other) : Decoder Symbol Other where
  encode other := decoder.encode (form.symm other)
  Good other := decoder.Good (form.symm other)
  take list := (decoder.take list).map fun taken => (form taken.1, taken.2)
  take_eq_some_iff := by
    intro list other rest
    simp only [Option.map_eq_some_iff, Prod.exists, Prod.mk.injEq]
    constructor
    · rintro ⟨value, behind, took, rfl, rfl⟩
      rw [form.symm_apply_apply]
      exact decoder.take_eq_some_iff.mp took
    · intro standing
      exact ⟨form.symm other, rest, decoder.take_eq_some_iff.mpr standing,
        form.apply_symm_apply other, rfl⟩

/-- Values up to the end of the list, in at most so many rounds. -/
def takeRounds (decoder : Decoder Symbol Value) : Nat → List Symbol → Option (List Value)
  | _, [] => some []
  | 0, _ :: _ => none
  | rounds + 1, symbol :: list =>
      (decoder.take (symbol :: list)).bind fun taken =>
        (decoder.takeRounds rounds taken.2).map fun values => taken.1 :: values

/-- Values up to the end of the list. -/
def takeAll (decoder : Decoder Symbol Value) (list : List Symbol) : Option (List Value) :=
  decoder.takeRounds list.length list

/-- The rounds suffice when every encoding takes a symbol at least. -/
theorem takeRounds_eq_some_iff (progress : ∀ value, decoder.Good value → decoder.encode value ≠ [])
    {rounds : Nat} {list : List Symbol} {values : List Value} (enough : list.length ≤ rounds) :
    decoder.takeRounds rounds list = some values ↔
      (∀ value ∈ values, decoder.Good value) ∧ list = values.flatMap decoder.encode := by
  induction rounds generalizing list values with
  | zero =>
      obtain rfl := List.length_eq_zero_iff.mp (Nat.le_zero.mp enough)
      cases values with
      | nil => simp [takeRounds]
      | cons value values =>
          simp only [takeRounds, List.flatMap_cons, Option.some.injEq, List.nil_eq, reduceCtorEq,
            List.append_eq_nil_iff, false_iff]
          intro all
          exact progress value (all.1 value List.mem_cons_self) all.2.1
  | succ rounds ih =>
      cases list with
      | nil =>
          cases values with
          | nil => simp [takeRounds]
          | cons value values =>
              simp only [takeRounds, List.flatMap_cons, Option.some.injEq, List.nil_eq,
                reduceCtorEq, List.append_eq_nil_iff, false_iff]
              intro all
              exact progress value (all.1 value List.mem_cons_self) all.2.1
      | cons symbol list =>
          simp only [takeRounds, Option.bind_eq_some_iff, Option.map_eq_some_iff, Prod.exists]
          have shorter : ∀ {value rest}, decoder.Good value →
              symbol :: list = decoder.encode value ++ rest → rest.length ≤ rounds := by
            intro value rest good standing
            have positive := List.length_pos_iff.mpr (progress value good)
            have counted := congrArg List.length standing
            rw [List.length_append] at counted
            omega
          constructor
          · rintro ⟨value, rest, took, later, tookLater, rfl⟩
            obtain ⟨good, standing⟩ := decoder.take_eq_some_iff.mp took
            obtain ⟨allGood, rfl⟩ := (ih (shorter good standing)).mp tookLater
            exact ⟨List.forall_mem_cons.mpr ⟨good, allGood⟩, standing⟩
          · rintro ⟨allGood, standing⟩
            cases values with
            | nil => cases standing
            | cons value later =>
                obtain ⟨good, allLater⟩ := List.forall_mem_cons.mp allGood
                exact ⟨value, later.flatMap decoder.encode,
                  decoder.take_eq_some_iff.mpr ⟨good, standing⟩, later,
                  (ih (shorter good standing)).mpr ⟨allLater, rfl⟩, rfl⟩

/-- Values are taken to the end exactly where their encodings stand one behind the other. -/
theorem takeAll_eq_some_iff (progress : ∀ value, decoder.Good value → decoder.encode value ≠ [])
    {list : List Symbol} {values : List Value} :
    decoder.takeAll list = some values ↔
      (∀ value ∈ values, decoder.Good value) ∧ list = values.flatMap decoder.encode :=
  takeRounds_eq_some_iff progress (Nat.le_refl _)

/-- Encodings one behind the other determine the values. -/
theorem flatMap_encode_inj (progress : ∀ value, decoder.Good value → decoder.encode value ≠ [])
    {values others : List Value} (good : ∀ value ∈ values, decoder.Good value)
    (good' : ∀ value ∈ others, decoder.Good value)
    (same : values.flatMap decoder.encode = others.flatMap decoder.encode) : values = others := by
  have taken : decoder.takeAll (others.flatMap decoder.encode) = some values :=
    (decoder.takeAll_eq_some_iff progress).mpr ⟨good, same.symm⟩
  have taken' : decoder.takeAll (others.flatMap decoder.encode) = some others :=
    (decoder.takeAll_eq_some_iff progress).mpr ⟨good', rfl⟩
  exact Option.some.inj (taken.symm.trans taken')

/-! ## Primitive decoders -/

/-- One symbol. -/
def symbol : Decoder Symbol Symbol where
  encode value := [value]
  Good _ := True
  take
    | [] => none
    | value :: rest => some (value, rest)
  take_eq_some_iff := by
    intro list value rest
    cases list with
    | nil => simp
    | cons first list => simp

/-- A block of a given length. -/
def block (width : Nat) : Decoder Symbol (List Symbol) where
  encode value := value
  Good value := value.length = width
  take list := if width ≤ list.length then some (list.take width, list.drop width) else none
  take_eq_some_iff := by
    intro list value rest
    simp only [Option.ite_none_right_eq_some, Option.some.injEq, Prod.mk.injEq]
    constructor
    · rintro ⟨enough, rfl, rfl⟩
      exact ⟨List.length_take_of_le enough, (List.take_append_drop width list).symm⟩
    · rintro ⟨rfl, rfl⟩
      simp

/-- An unsigned integer of sixteen bits, least significant byte first. -/
def integer16 : Decoder UInt8 UInt16 where
  encode value := littleEndian 2 value.toNat
  Good _ := True
  take list :=
    ((block 2).take list).map fun taken => (UInt16.ofNat (littleEndianValue taken.1), taken.2)
  take_eq_some_iff := by
    intro list value rest
    simp only [Option.map_eq_some_iff, Prod.exists, Prod.mk.injEq, true_and]
    constructor
    · rintro ⟨bytes, behind, took, rfl, rfl⟩
      obtain ⟨width, rfl⟩ := (block 2).take_eq_some_iff.mp took
      have small : littleEndianValue bytes < 2 ^ 16 := by
        have bound := littleEndianValue_lt bytes
        rwa [show bytes.length = 2 from width] at bound
      rw [UInt16.toNat_ofNat_of_lt' small, ← show bytes.length = 2 from width,
        littleEndian_littleEndianValue]
      rfl
    · rintro rfl
      refine ⟨littleEndian 2 value.toNat, rest, (block 2).take_encode ?_ rest, ?_, rfl⟩
      · exact length_littleEndian 2 value.toNat
      · rw [littleEndianValue_littleEndian_of_lt value.toNat_lt, UInt16.ofNat_toNat]

/-- A string up to its terminator. -/
def terminatedString : Decoder UInt8 CString where
  encode := CString.terminated
  Good _ := True
  take list := (nulIndex list).map fun index => (CString.ofBytes list, list.drop (index + 1))
  take_eq_some_iff := by
    intro list value rest
    simp only [Option.map_eq_some_iff, Prod.mk.injEq, true_and]
    constructor
    · rintro ⟨index, found, rfl, rfl⟩
      obtain ⟨front, behind, rfl, rfl, noNul⟩ := nulIndex_eq_some found
      have here : front ++ 0 :: behind = CString.terminated ⟨front, noNul⟩ ++ behind := by
        simp [CString.terminated]
      rw [here, CString.ofBytes_terminated_append]
      simp [CString.terminated]
    · rintro rfl
      refine ⟨value.bytes.length, CString.nulIndex_terminated value rest, ?_, ?_⟩
      · exact CString.ofBytes_terminated_append value rest
      · rw [← CString.length_terminated, List.drop_left]

/-- Bytes up to and including the first NUL. -/
def untilNul : Decoder UInt8 (List UInt8) where
  encode value := value
  Good value := nulIndex value = some (value.length - 1)
  take list := (nulIndex list).map fun index => (list.take (index + 1), list.drop (index + 1))
  take_eq_some_iff := by
    intro list value rest
    simp only [Option.map_eq_some_iff, Prod.mk.injEq]
    constructor
    · rintro ⟨index, found, rfl, rfl⟩
      obtain ⟨front, behind, rfl, rfl, noNul⟩ := nulIndex_eq_some found
      refine ⟨?_, (List.take_append_drop _ _).symm⟩
      have taken : (front ++ 0 :: behind).take (front.length + 1) = front ++ 0 :: [] := by
        rw [List.take_append, List.take_of_length_le (Nat.le_succ _)]
        simp
      rw [taken, nulIndex_append_nul noNul]
      simp
    · rintro ⟨ends, rfl⟩
      obtain ⟨string, rfl⟩ := CString.exists_terminated_of_nulIndex ends
      refine ⟨string.bytes.length, CString.nulIndex_terminated string rest, ?_, ?_⟩
      · rw [← CString.length_terminated, List.take_left]
      · rw [← CString.length_terminated, List.drop_left]

/-- A block behind its length, which is an integer of a given width. -/
def counted (width : Nat) : Decoder UInt8 (List UInt8) where
  encode value := littleEndian width value.length ++ value
  Good value := value.length < 256 ^ width
  take list := ((block width).take list).bind fun taken =>
    (block (littleEndianValue taken.1)).take taken.2
  take_eq_some_iff := by
    intro list value rest
    simp only [Option.bind_eq_some_iff, Prod.exists]
    constructor
    · rintro ⟨front, behind, tookFront, tookValue⟩
      obtain ⟨frontWidth, rfl⟩ := (block width).take_eq_some_iff.mp tookFront
      obtain ⟨length, rfl⟩ := (block _).take_eq_some_iff.mp tookValue
      rw [show value.length = littleEndianValue front from length,
        ← show front.length = width from frontWidth, littleEndian_littleEndianValue]
      exact ⟨littleEndianValue_lt front, (List.append_assoc front value rest).symm⟩
    · rintro ⟨small, rfl⟩
      refine ⟨littleEndian width value.length, value ++ rest, ?_, ?_⟩
      · rw [List.append_assoc]
        exact (block width).take_encode (length_littleEndian width value.length) (value ++ rest)
      · exact (block _).take_encode (littleEndianValue_littleEndian_of_lt small).symm rest

end Decoder

end Omnm
