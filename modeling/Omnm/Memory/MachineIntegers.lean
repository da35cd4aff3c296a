import Mathlib.Data.Int.Basic
import Mathlib.Tactic.NormNum

/-!
# Conversions between C integer types

On the platforms at hand `int` has 32 bits, `int64_t` and `size_t` have 64 bits,
and a conversion to a narrower or differently signed type keeps the value
modulo the range of the target. Each conversion is the identity on the values
the target represents.
-/

set_option autoImplicit false

namespace Omnm

/-- Conversion to `int`. -/
def asInt32 (value : Int) : Int := Int.bmod value (2 ^ 32)

/-- Conversion to `int64_t`. -/
def asInt64 (value : Int) : Int := Int.bmod value (2 ^ 64)

/-- Conversion to `uint32_t`. -/
def asUInt32 (value : Int) : Nat := (value % 2 ^ 32).toNat

/-- Conversion to `size_t`. -/
def asSize (value : Int) : Nat := (value % 2 ^ 64).toNat

theorem asInt32_of_lt {value : Nat} (small : value < 2 ^ 31) : asInt32 value = value := by
  rw [asInt32, Int.bmod_eq_of_le] <;> omega

theorem asInt64_of_lt {value : Nat} (small : value < 2 ^ 63) : asInt64 value = value := by
  rw [asInt64, Int.bmod_eq_of_le] <;> omega

theorem asUInt32_of_lt {value : Nat} (small : value < 2 ^ 32) : asUInt32 value = value := by
  unfold asUInt32
  omega

theorem asSize_of_lt {value : Nat} (small : value < 2 ^ 64) : asSize value = value := by
  unfold asSize
  omega

theorem le_asInt32 (value : Int) : -2 ^ 31 ≤ asInt32 value := by
  have bound := Int.le_bmod (x := value) (m := 2 ^ 32) (by norm_num)
  unfold asInt32
  push_cast at bound ⊢
  omega

theorem asInt32_lt (value : Int) : asInt32 value < 2 ^ 31 := by
  have bound := Int.bmod_lt (x := value) (m := 2 ^ 32) (by norm_num)
  unfold asInt32
  push_cast at bound ⊢
  omega

theorem le_asInt64 (value : Int) : -2 ^ 63 ≤ asInt64 value := by
  have bound := Int.le_bmod (x := value) (m := 2 ^ 64) (by norm_num)
  unfold asInt64
  push_cast at bound ⊢
  omega

theorem asInt64_lt (value : Int) : asInt64 value < 2 ^ 63 := by
  have bound := Int.bmod_lt (x := value) (m := 2 ^ 64) (by norm_num)
  unfold asInt64
  push_cast at bound ⊢
  omega

/-- A sum with a value that does not fit an `int`, but went through one, is not the
exact sum. -/
theorem asSize_asInt32_add_ne {value rest : Int} {exact : Nat} (large : 2 ^ 31 ≤ value)
    (object : value < 2 ^ 63) (sum : (exact : Int) = value + rest) :
    asSize (asInt32 value + rest) ≠ exact := by
  intro same
  have lower := le_asInt32 value
  have upper := asInt32_lt value
  unfold asSize at same
  omega

end Omnm
