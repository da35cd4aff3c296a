import Omnm.Payload.Getters

/-!
# Date-times on the wire

The members of an `omnmDateTime`, and what the two conversions make of them. On
the way in the signed 64-bit seconds become unsigned 32-bit ones, and the
nanoseconds whole microseconds (`ofBytes_round_trip`). On the way out the
microseconds are scaled in 32 bits, which are enough for the microseconds of a
second (`convert_round_trip`).
-/

set_option autoImplicit false

namespace Omnm

/-- The members of an `omnmDateTime` that the conversions read and write. -/
structure OmnmDateTime where
  mHints : UInt8
  mSeconds : Int
  mNanoseconds : Nat
  mPrecision : UInt8
  deriving DecidableEq, Repr

namespace OmnmDateTime

/-- The members in the bytes of an `omnmDateTime`. -/
def ofBytes (bytes : List UInt8) : OmnmDateTime where
  mHints := UInt8.ofNat (littleEndianValue (slice bytes 0 1))
  mSeconds := asInt64 (littleEndianValue (slice bytes 8 8))
  mNanoseconds := littleEndianValue (slice bytes 16 4)
  mPrecision := UInt8.ofNat (littleEndianValue (slice bytes 20 1))

/-- The date-time with the nanoseconds rounded down to microseconds. -/
def roundedDown (wire : OmnmDateTime) : OmnmDateTime :=
  { wire with mNanoseconds := wire.mNanoseconds / 1000 * 1000 }

@[simp] theorem mSeconds_roundedDown (wire : OmnmDateTime) :
    wire.roundedDown.mSeconds = wire.mSeconds := rfl

/-- The members that are written for a date-time. -/
theorem ofBytes_convert (value : MamaDateTime) :
    ofBytes (convertMamaDateTimeToOmnmDateTime value) =
      ⟨value.hints, value.seconds.toNat, value.microseconds.toNat * 1000 % 2 ^ 32,
        value.precision⟩ := by
  have hints : slice (convertMamaDateTimeToOmnmDateTime value) 0 1 = [value.hints] := by
    simp [convertMamaDateTimeToOmnmDateTime, slice]
  have seconds : slice (convertMamaDateTimeToOmnmDateTime value) 8 8 =
      littleEndian 8 value.seconds.toNat := by
    simp [convertMamaDateTimeToOmnmDateTime, slice]
  have nanoseconds : slice (convertMamaDateTimeToOmnmDateTime value) 16 4 =
      littleEndian 4 (value.microseconds.toNat * 1000) := by
    simp [convertMamaDateTimeToOmnmDateTime, slice]
  have precision : slice (convertMamaDateTimeToOmnmDateTime value) 20 1 = [value.precision] := by
    have parts := slice_append ([value.hints] ++ List.replicate 7 0 ++
      littleEndian 8 value.seconds.toNat ++ littleEndian 4 (value.microseconds.toNat * 1000))
      [value.precision] (List.replicate 19 0)
    simp only [List.length_append, length_littleEndian, List.length_replicate,
      List.length_singleton] at parts
    exact parts
  have small := value.seconds.toNat_lt
  have byte : ∀ byte : UInt8, UInt8.ofNat (littleEndianValue [byte]) = byte := by
    intro byte
    simp [littleEndianValue]
  have long : littleEndianValue (littleEndian 8 value.seconds.toNat) = value.seconds.toNat :=
    littleEndianValue_littleEndian_of_lt (by omega)
  rw [ofBytes, hints, seconds, nanoseconds, precision, byte, byte, long,
    asInt64_of_lt (by omega), littleEndianValue_littleEndian]
  rfl

/-- The members that are read for the bytes of a date-time. -/
theorem convert_eq (bytes : List UInt8) :
    convertOmnmDateTimeToMamaDateTime bytes =
      ⟨UInt32.ofNat (asUInt32 (ofBytes bytes).mSeconds),
        UInt32.ofNat ((ofBytes bytes).mNanoseconds / 1000), (ofBytes bytes).mPrecision,
        (ofBytes bytes).mHints⟩ := by
  have seconds : UInt32.ofNat (littleEndianValue (slice bytes 8 8)) =
      UInt32.ofNat (asUInt32 (asInt64 (littleEndianValue (slice bytes 8 8)))) := by
    apply UInt32.toNat_inj.mp
    have wide : asUInt32 (asInt64 (littleEndianValue (slice bytes 8 8))) =
        littleEndianValue (slice bytes 8 8) % 2 ^ 32 := by
      unfold asUInt32 asInt64
      rw [Int.bmod_def]
      split <;> omega
    rw [wide]
    simp
  simp only [convertOmnmDateTimeToMamaDateTime, seconds, ofBytes]

/-- A date-time that is read and written again. -/
theorem ofBytes_round_trip (bytes : List UInt8) :
    ofBytes (convertMamaDateTimeToOmnmDateTime (convertOmnmDateTimeToMamaDateTime bytes)) =
      { (ofBytes bytes).roundedDown with mSeconds := asUInt32 (ofBytes bytes).mSeconds } := by
  have four : (ofBytes bytes).mNanoseconds < 2 ^ 32 := by
    have bound := littleEndianValue_lt (slice bytes 16 4)
    have short : (slice bytes 16 4).length ≤ 4 := List.length_take_le ..
    exact Nat.lt_of_lt_of_le bound (Nat.pow_le_pow_right (by decide) short)
  have seconds : asUInt32 (ofBytes bytes).mSeconds < 2 ^ 32 := by
    unfold asUInt32
    omega
  rw [ofBytes_convert, convert_eq, roundedDown]
  simp only [UInt32.toNat_ofNat', mk.injEq, true_and, and_true]
  omega

/-- A date-time that is written and read again. -/
theorem convert_round_trip {value : MamaDateTime} (second : value.microseconds.toNat < 10 ^ 6) :
    convertOmnmDateTimeToMamaDateTime (convertMamaDateTimeToOmnmDateTime value) = value := by
  have seconds := value.seconds.toNat_lt
  have nanoseconds : value.microseconds.toNat * 1000 % 2 ^ 32 / 1000 =
      value.microseconds.toNat := by
    omega
  rw [convert_eq, ofBytes_convert]
  dsimp only
  rw [nanoseconds, asUInt32_of_lt seconds, UInt32.ofNat_toNat, UInt32.ofNat_toNat]

/-- The seconds survive exactly in 32 unsigned bits. -/
theorem round_trip_eq_iff (bytes : List UInt8) :
    ofBytes (convertMamaDateTimeToOmnmDateTime (convertOmnmDateTimeToMamaDateTime bytes)) =
        (ofBytes bytes).roundedDown ↔
      0 ≤ (ofBytes bytes).mSeconds ∧ (ofBytes bytes).mSeconds < 2 ^ 32 := by
  have same : (asUInt32 (ofBytes bytes).mSeconds : Int) = (ofBytes bytes).mSeconds ↔
      0 ≤ (ofBytes bytes).mSeconds ∧ (ofBytes bytes).mSeconds < 2 ^ 32 := by
    unfold asUInt32
    omega
  rw [ofBytes_round_trip, ← same, roundedDown]
  simp only [mk.injEq, true_and, and_true]

end OmnmDateTime

end Omnm
