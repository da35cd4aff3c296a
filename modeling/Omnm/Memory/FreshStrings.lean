import Mathlib.Data.Finset.Card
import Mathlib.Data.Nat.Bitwise
import Omnm.Memory.Bytes

/-!
# Strings that do not stand in a memory

At each offset of a memory stands at most one terminated string, so a memory
holds no more strings than it has bytes. There are more strings than that
already of a fixed length, and one of them stands nowhere
(`exists_absent_string`).
-/

set_option autoImplicit false

namespace Omnm

/-- The terminated string stands at an offset of the memory. -/
def CString.StandsAt (string : CString) (memory : List UInt8) (offset : Nat) : Prop :=
  ∃ rest, memory.drop offset = string.terminated ++ rest

/-- A string for each number: its binary digits, as bytes that are not NUL. -/
def digitString (number : Nat) : CString where
  bytes := (List.range 64).map fun place => if number.testBit place then 2 else 1
  noNul := by
    intro member
    obtain ⟨place, -, digit⟩ := List.mem_map.mp member
    split at digit
    · exact absurd digit (by decide)
    · exact absurd digit (by decide)

@[simp] theorem length_digitString (number : Nat) : (digitString number).bytes.length = 64 := by
  simp [digitString]

theorem digitString_injective {first second : Nat} (small : first < 2 ^ 64)
    (small' : second < 2 ^ 64) (same : digitString first = digitString second) :
    first = second := by
  apply Nat.eq_of_testBit_eq
  intro place
  by_cases low : place < 64
  · have all : (digitString first).bytes = (digitString second).bytes := congrArg _ same
    rw [digitString, digitString, List.map_inj_left] at all
    have digits := all place (List.mem_range.mpr low)
    cases bit : first.testBit place <;> cases bit' : second.testBit place <;>
      simp [bit, bit'] at digits ⊢
  · have beyond : 2 ^ 64 ≤ 2 ^ place := Nat.pow_le_pow_right (by decide) (Nat.not_lt.mp low)
    rw [Nat.testBit_lt_two_pow (small.trans_le beyond), Nat.testBit_lt_two_pow (small'.trans_le beyond)]

/-- A string that stands somewhere stands inside. -/
theorem CString.StandsAt.lt {string : CString} {memory : List UInt8} {offset : Nat}
    (stands : string.StandsAt memory offset) : offset < memory.length := by
  obtain ⟨rest, here⟩ := stands
  have length := congrArg List.length here
  simp only [List.length_drop, List.length_append, CString.length_terminated] at length
  omega

/-- Some string of a fixed length does not stand in the memory. -/
theorem exists_absent_string {memory : List UInt8} (small : memory.length < 2 ^ 64) :
    ∃ string : CString, string.bytes.length = 64 ∧ ∀ offset, ¬ string.StandsAt memory offset := by
  by_contra none
  have everywhere : ∀ number, ∃ offset, (digitString number).StandsAt memory offset := by
    intro number
    by_contra nowhere
    exact none ⟨digitString number, length_digitString number, not_exists.mp nowhere⟩
  choose place stands using everywhere
  obtain ⟨first, firstLow, second, secondLow, differ, same⟩ :=
    Finset.exists_ne_map_eq_of_card_lt_of_maps_to
      (s := Finset.range (memory.length + 1)) (t := Finset.range memory.length) (f := place)
      (by simp) (fun number _ => Finset.mem_coe.mpr (Finset.mem_range.mpr (stands number).lt))
  rw [Finset.mem_range] at firstLow secondLow
  obtain ⟨rest, here⟩ := stands first
  obtain ⟨rest', here'⟩ := stands second
  rw [same] at here
  have equal := (CString.terminated_append_inj (here.symm.trans here')).1
  exact differ (digitString_injective (by omega) (by omega) equal)

end Omnm
