import Mathlib.Data.List.TakeWhile
import Mathlib.Algebra.Order.Group.Nat
import Mathlib.Tactic.Ring

/-!
# Little-endian integers and NUL-terminated strings

Two encodings that C programs place in flat memory. An integer of a given
width is its bytes, least significant first (`littleEndian`), and is read back
modulo the range of the width (`littleEndianValue_littleEndian`). A string is
its bytes followed by a NUL. A `CString` carries the fact that no byte before
the terminator is NUL, so its terminated form determines it
(`CString.terminated_append_inj`) and `nulIndex`, the scan of `strlen`, stops
exactly at its terminator.
-/

set_option autoImplicit false

namespace Omnm

/-! ## Little-endian integers -/

/-- The lowest `width` bytes of a number, least significant first. -/
def littleEndian : Nat → Nat → List UInt8
  | 0, _ => []
  | width + 1, value => UInt8.ofNat value :: littleEndian width (value / 256)

/-- The number with the given bytes, least significant first. -/
def littleEndianValue : List UInt8 → Nat
  | [] => 0
  | byte :: bytes => byte.toNat + 256 * littleEndianValue bytes

@[simp] theorem length_littleEndian (width value : Nat) :
    (littleEndian width value).length = width := by
  induction width generalizing value with
  | zero => rfl
  | succ width ih => simp only [littleEndian, List.length_cons, ih]

/-- Reading back the bytes of a number gives it modulo the range of the width. -/
theorem littleEndianValue_littleEndian (width value : Nat) :
    littleEndianValue (littleEndian width value) = value % 256 ^ width := by
  induction width generalizing value with
  | zero => simp only [littleEndian, littleEndianValue, pow_zero, Nat.mod_one]
  | succ width ih =>
      have lowest : (UInt8.ofNat value).toNat = value % 256 := by simp
      rw [littleEndian, littleEndianValue, ih, lowest, pow_succ', Nat.mod_mul]

theorem littleEndianValue_littleEndian_of_lt {width value : Nat} (fits : value < 256 ^ width) :
    littleEndianValue (littleEndian width value) = value := by
  rw [littleEndianValue_littleEndian, Nat.mod_eq_of_lt fits]

theorem littleEndian_four {value : Nat} (fits : value < 2 ^ 32) :
    littleEndianValue (littleEndian 4 value) = value :=
  littleEndianValue_littleEndian_of_lt (by simpa using fits)

theorem littleEndianValue_lt (bytes : List UInt8) :
    littleEndianValue bytes < 256 ^ bytes.length := by
  induction bytes with
  | nil => simp [littleEndianValue]
  | cons byte bytes ih =>
      have lowest : byte.toNat < 256 := byte.toNat_lt
      rw [littleEndianValue, List.length_cons, pow_succ']
      omega

/-- Bytes are the encoding of the number they denote. -/
theorem littleEndian_littleEndianValue (bytes : List UInt8) :
    littleEndian bytes.length (littleEndianValue bytes) = bytes := by
  induction bytes with
  | nil => rfl
  | cons byte bytes ih =>
      have lowest : byte.toNat < 256 := byte.toNat_lt
      have first : UInt8.ofNat (byte.toNat + 256 * littleEndianValue bytes) = byte := by
        apply UInt8.toNat_inj.mp
        rw [UInt8.toNat_ofNat']
        omega
      have rest : (byte.toNat + 256 * littleEndianValue bytes) / 256 = littleEndianValue bytes := by
        omega
      rw [List.length_cons, littleEndianValue, littleEndian, first, rest, ih]

/-- The bytes of a number depend on it modulo the range of the width only. -/
theorem littleEndian_mod (width value : Nat) :
    littleEndian width (value % 256 ^ width) = littleEndian width value := by
  have bytes := littleEndian_littleEndianValue (littleEndian width value)
  rwa [length_littleEndian, littleEndianValue_littleEndian] at bytes

/-! ## The scan for a terminator -/

/-- The index of the first NUL, as `strlen` finds it. -/
def nulIndex : List UInt8 → Option Nat
  | [] => none
  | byte :: bytes => if byte = 0 then some 0 else (nulIndex bytes).map (· + 1)

theorem nulIndex_append_nul {bytes : List UInt8} (noNul : (0 : UInt8) ∉ bytes)
    (rest : List UInt8) : nulIndex (bytes ++ 0 :: rest) = some bytes.length := by
  induction bytes with
  | nil => rfl
  | cons byte bytes ih =>
      simp only [List.mem_cons, not_or] at noNul
      have here : byte ≠ 0 := fun equal => noNul.1 equal.symm
      simp only [List.cons_append, nulIndex, if_neg here, ih noNul.2, Option.map_some,
        List.length_cons]

/-- A successful scan splits the bytes at the first NUL. -/
theorem nulIndex_eq_some {bytes : List UInt8} {index : Nat} (found : nulIndex bytes = some index) :
    ∃ front rest, bytes = front ++ 0 :: rest ∧ front.length = index ∧ (0 : UInt8) ∉ front := by
  induction bytes generalizing index with
  | nil => cases found
  | cons byte bytes ih =>
      by_cases here : byte = 0
      · rw [nulIndex, if_pos here, Option.some.injEq] at found
        exact ⟨[], bytes, by rw [here, List.nil_append], by simpa using found, by simp⟩
      · rw [nulIndex, if_neg here, Option.map_eq_some_iff] at found
        obtain ⟨before, foundBefore, rfl⟩ := found
        obtain ⟨front, rest, split, length, noNul⟩ := ih foundBefore
        refine ⟨byte :: front, rest, by rw [split, List.cons_append], by simp [length], ?_⟩
        simp only [List.mem_cons, not_or]
        exact ⟨fun equal => here equal.symm, noNul⟩

/-- A scan finds a NUL that is there. -/
theorem exists_nulIndex {bytes : List UInt8} (nul : (0 : UInt8) ∈ bytes) :
    ∃ index, nulIndex bytes = some index := by
  induction bytes with
  | nil => cases nul
  | cons byte bytes ih =>
      by_cases here : byte = 0
      · exact ⟨0, if_pos here⟩
      · obtain ⟨index, found⟩ := ih ((List.mem_cons.mp nul).resolve_left (Ne.symm here))
        exact ⟨index + 1, by rw [nulIndex, if_neg here, found, Option.map_some]⟩

/-! ## C strings -/

/-- A string as C passes it: bytes with no NUL before the terminator. -/
structure CString where
  bytes : List UInt8
  noNul : (0 : UInt8) ∉ bytes
  deriving DecidableEq

namespace CString

/-- The empty string. -/
def empty : CString := ⟨[], by simp⟩

/-- The bytes in memory, terminator included. -/
def terminated (string : CString) : List UInt8 := string.bytes ++ [0]

/-- The string that some bytes start with, up to the first NUL. -/
def ofBytes (bytes : List UInt8) : CString where
  bytes := bytes.takeWhile (· ≠ 0)
  noNul := by
    intro member
    simpa using List.mem_takeWhile_imp member

@[ext] theorem ext {first second : CString} (equal : first.bytes = second.bytes) :
    first = second := by
  cases first
  cases second
  cases equal
  rfl

@[simp] theorem length_terminated (string : CString) :
    string.terminated.length = string.bytes.length + 1 := by
  simp [terminated]

theorem nulIndex_terminated (string : CString) (rest : List UInt8) :
    nulIndex (string.terminated ++ rest) = some string.bytes.length := by
  rw [terminated, List.append_assoc]
  exact nulIndex_append_nul string.noNul rest

/-- The terminated form of a string is the prefix that ends at the first NUL,
so it determines the string and what follows it. -/
theorem terminated_append_inj {first second : CString} {rest rest' : List UInt8}
    (equal : first.terminated ++ rest = second.terminated ++ rest') :
    first = second ∧ rest = rest' := by
  have scan := first.nulIndex_terminated rest
  rw [equal, second.nulIndex_terminated, Option.some.injEq] at scan
  have split := List.append_inj equal (by simp [scan])
  refine ⟨ext ?_, split.2⟩
  exact (List.append_inj split.1 scan.symm).1

/-- Bytes whose only NUL is their last are a terminated string. -/
theorem exists_terminated_of_nulIndex {data : List UInt8}
    (ends : nulIndex data = some (data.length - 1)) : ∃ string : CString, data = string.terminated := by
  obtain ⟨front, back, split, length, noNul⟩ := nulIndex_eq_some ends
  have none_behind : back = [] := by
    rw [split] at length
    simp only [List.length_append, List.length_cons] at length
    exact List.eq_nil_of_length_eq_zero (by omega)
  exact ⟨⟨front, noNul⟩, by rw [split, none_behind, CString.terminated]⟩

@[simp] theorem ofBytes_bytes (string : CString) : ofBytes string.bytes = string := by
  refine ext (List.takeWhile_eq_self_iff.mpr ?_)
  intro byte member
  apply decide_eq_true
  rintro rfl
  exact string.noNul member

theorem empty_iff {string : CString} : string = empty ↔ string.bytes = [] := by
  constructor
  · rintro rfl
    rfl
  · intro none
    exact ext none

end CString

end Omnm
