import Mathlib.Data.List.Forall2
import Mathlib.Data.Option.Basic

/-!
# Computations that record the memory they touch

A traced computation gives the list of its memory accesses, in order, and its
result. It has no result when it left the memory it may touch: what a C
program does after that is undefined, and the accesses made up to that point
are still recorded.

A property of accesses holds along a traced computation when it holds of every
recorded access (`Traced.Every`). The rules for sequential composition
(`Traced.result_bind`, `Traced.every_bind`) reduce both the result and such a
property to the parts of the computation. A computation can be told again with
its accesses in terms of other regions (`Traced.relabel`), or by another
computation that makes the same accesses among others (`Traced.RetoldBy`).
-/

set_option autoImplicit false

namespace Omnm

universe u v w

/-- One contiguous access to a region of memory, as offsets into the region. -/
inductive Access (Region : Type u) where
  | load (region : Region) (offset length : Nat)
  | store (region : Region) (offset length : Nat)
  | move (region : Region) (target source length : Nat)
  deriving DecidableEq, Repr

/-- A read of bytes below an offset. -/
def Access.ReadsBelow {Region : Type u} (limit : Nat) : Access Region → Prop
  | .load _ offset length => offset + length ≤ limit
  | .store .. => False
  | .move .. => False

/-- A read. -/
def Access.IsLoad {Region : Type u} : Access Region → Prop
  | .load .. => True
  | .store .. => False
  | .move .. => False

/-- An access that ends inside a buffer of the given size and, if it is a move,
takes exactly the bytes up to the tail. -/
def Access.Within {Region : Type u} (size tail : Nat) : Access Region → Prop
  | .load _ offset length => offset + length ≤ size
  | .store _ offset length => offset + length ≤ size
  | .move _ target source length => target + length ≤ size ∧ source + length ≤ size ∧
      source + length = tail

namespace Access

variable {Region : Type u} {lower upper tail : Nat} {access : Access Region}

theorem ReadsBelow.mono (reads : access.ReadsBelow lower) (bound : lower ≤ upper) :
    access.ReadsBelow upper := by
  cases access with
  | load region offset length => exact Nat.le_trans reads bound
  | store region offset length => exact reads
  | move region target source length => exact reads

theorem ReadsBelow.within (reads : access.ReadsBelow lower) (bound : lower ≤ upper) :
    access.Within upper tail := by
  cases access with
  | load region offset length => exact Nat.le_trans reads bound
  | store region offset length => exact reads.elim
  | move region target source length => exact reads.elim

theorem Within.mono (within : access.Within lower tail) (bound : lower ≤ upper) :
    access.Within upper tail := by
  cases access with
  | load region offset length => exact Nat.le_trans within bound
  | store region offset length => exact Nat.le_trans within bound
  | move region target source length =>
      exact ⟨Nat.le_trans within.1 bound, Nat.le_trans within.2.1 bound, within.2.2⟩

end Access

/-- A computation with its accesses and its result, if it has one. -/
structure Traced (Region : Type u) (α : Type v) where
  accesses : List (Access Region)
  result : Option α
  deriving DecidableEq, Repr

namespace Traced

variable {Region : Type u} {α β : Type v}

/-- Run the second computation on the result of the first. -/
def andThen (first : Traced Region α) (second : α → Traced Region β) : Traced Region β :=
  match first.result with
  | none => ⟨first.accesses, none⟩
  | some value => ⟨first.accesses ++ (second value).accesses, (second value).result⟩

instance : Monad (Traced Region) where
  pure value := ⟨[], some value⟩
  bind := andThen

/-- Composition is associative, and computations without accesses are its units. -/
instance : LawfulMonad (Traced Region) := by
  refine LawfulMonad.mk' (Traced Region) ?_ ?_ ?_
  · intro α computation
    show andThen computation (fun value => ⟨[], some value⟩) = computation
    obtain ⟨accesses, _ | value⟩ := computation
    · rfl
    · simp only [andThen, List.append_nil]
  · intro α β value second
    rfl
  · intro α β γ computation second third
    show andThen (andThen computation second) third =
      andThen computation fun value => andThen (second value) third
    obtain ⟨accesses, _ | value⟩ := computation
    · rfl
    · simp only [andThen]
      cases (second value).result with
      | none => rfl
      | some value => simp only [List.append_assoc]

/-- A computation that leaves the memory it may touch. -/
def fault : Traced Region α := ⟨[], none⟩

@[simp] theorem result_fault : (fault : Traced Region α).result = none := rfl

@[simp] theorem result_pure (value : α) :
    (pure value : Traced Region α).result = some value := rfl

@[simp] theorem accesses_pure (value : α) :
    (pure value : Traced Region α).accesses = [] := rfl

@[simp] theorem result_bind (first : Traced Region α) (second : α → Traced Region β) :
    (first >>= second).result = first.result.bind fun value => (second value).result := by
  show (andThen first second).result = _
  unfold andThen
  cases first.result <;> rfl

@[simp] theorem result_map (change : α → β) (computation : Traced Region α) :
    (change <$> computation).result = computation.result.map change := by
  rw [map_eq_pure_bind, result_bind]
  cases computation.result <;> rfl

theorem accesses_bind_of_result {first : Traced Region α} {value : α}
    (returned : first.result = some value) (second : α → Traced Region β) :
    (first >>= second).accesses = first.accesses ++ (second value).accesses := by
  show (andThen first second).accesses = _
  unfold andThen
  rw [returned]

theorem accesses_bind_of_fault {first : Traced Region α} (failed : first.result = none)
    (second : α → Traced Region β) : (first >>= second).accesses = first.accesses := by
  show (andThen first second).accesses = _
  unfold andThen
  rw [failed]

/-- A composition has a result when both parts have one. -/
theorem result_bind_eq_some {first : Traced Region α} {second : α → Traced Region β} {b : β} :
    (first >>= second).result = some b ↔
      ∃ a, first.result = some a ∧ (second a).result = some b := by
  rw [result_bind, Option.bind_eq_some_iff]

/-- Computations that go on alike from the result go on alike. -/
theorem bind_congr_of_result {first : Traced Region α} {second second' : α → Traced Region β}
    (alike : ∀ value, first.result = some value → second value = second' value) :
    first >>= second = first >>= second' := by
  show andThen first second = andThen first second'
  unfold andThen
  cases returned : first.result with
  | none => rfl
  | some value => simp only [alike value returned]

/-- A computation is another one when their parts are, as far as that one returned. -/
theorem bind_eq_of_returned {first first' : Traced Region α} {second second' : α → Traced Region β}
    {b : β} (returned : (first >>= second).result = some b)
    (same : ∀ {value}, first.result = some value → first' = first)
    (thenSame : ∀ value, (second value).result = some b → second' value = second value) :
    first' >>= second' = first >>= second := by
  obtain ⟨value, before, behind⟩ := result_bind_eq_some.mp returned
  rw [same before]
  refine bind_congr_of_result ?_
  intro other given
  cases before.symm.trans given
  exact thenSame value behind

/-! ## Properties of every access -/

/-- A property of every recorded access. -/
def Every (holds : Access Region → Prop) (computation : Traced Region α) : Prop :=
  ∀ access ∈ computation.accesses, holds access

variable {holds : Access Region → Prop}

@[simp] theorem every_pure (value : α) : Every holds (pure value : Traced Region α) := by
  intro access member
  cases member

@[simp] theorem every_fault : Every holds (fault : Traced Region α) := by
  intro access member
  cases member

@[simp] theorem every_bind (first : Traced Region α) (second : α → Traced Region β) :
    Every holds (first >>= second) ↔
      Every holds first ∧ ∀ value, first.result = some value → Every holds (second value) := by
  cases returned : first.result with
  | none => simp [Every, accesses_bind_of_fault returned]
  | some value =>
      simp only [Every, accesses_bind_of_result returned, List.mem_append, Option.some.injEq,
        forall_eq']
      constructor
      · intro all
        exact ⟨fun access member => all access (.inl member),
          fun access member => all access (.inr member)⟩
      · rintro ⟨earlier, later⟩ access (member | member)
        · exact earlier access member
        · exact later access member

@[simp] theorem every_map (change : α → β) (computation : Traced Region α) :
    Every holds (change <$> computation) ↔ Every holds computation := by
  rw [map_eq_pure_bind, every_bind]
  exact and_iff_left fun value _ => every_pure (change value)

theorem Every.mono {stronger weaker : Access Region → Prop} {computation : Traced Region α}
    (every : Every stronger computation) (implies : ∀ access, stronger access → weaker access) :
    Every weaker computation :=
  fun access member => implies access (every access member)

/-! ## Other descriptions of a computation -/

/-- A computation that only makes accesses. -/
def note (accesses : List (Access Region)) : Traced Region Unit := ⟨accesses, some ()⟩

@[simp] theorem result_note (accesses : List (Access Region)) :
    (note accesses).result = some () := rfl

@[simp] theorem every_note (accesses : List (Access Region)) :
    Every holds (note accesses) ↔ ∀ access ∈ accesses, holds access := Iff.rfl

/-- The computation with its accesses described in terms of other regions, as far as they matter
there. -/
def relabel {Region' : Type w} (describe : Access Region → Option (Access Region'))
    (computation : Traced Region α) : Traced Region' α :=
  ⟨computation.accesses.filterMap describe, computation.result⟩

@[simp] theorem result_relabel {Region' : Type w}
    (describe : Access Region → Option (Access Region')) (computation : Traced Region α) :
    (computation.relabel describe).result = computation.result := rfl

theorem every_relabel {Region' : Type w} {describe : Access Region → Option (Access Region')}
    {computation : Traced Region α} {holds : Access Region' → Prop} :
    Every holds (computation.relabel describe) ↔
      Every (fun access => ∀ described, describe access = some described → holds described)
        computation := by
  simp only [Every, relabel, List.mem_filterMap]
  constructor
  · exact fun all access member described same => all described ⟨access, member, same⟩
  · rintro all described ⟨access, member, same⟩
    exact all access member described same

section

variable {Region' : Type w} {seen : Access Region → Bool} {seen' : Access Region' → Bool}
  {same : Access Region → Access Region' → Prop}

/-- Another computation gives the same result. Of its accesses those that are looked at are, in
their order, the same as those of the computation that are looked at. -/
structure RetoldBy (seen : Access Region → Bool) (seen' : Access Region' → Bool)
    (same : Access Region → Access Region' → Prop) (computation : Traced Region α)
    (other : Traced Region' α) : Prop where
  result : other.result = computation.result
  accesses : List.Forall₂ same (computation.accesses.filter seen) (other.accesses.filter seen')

theorem retoldBy_pure (value : α) :
    RetoldBy seen seen' same (pure value : Traced Region α) (pure value) := ⟨rfl, .nil⟩

theorem retoldBy_fault : RetoldBy seen seen' same (fault : Traced Region α) fault := ⟨rfl, .nil⟩

/-- Computations that are told again step by step are told again. -/
theorem RetoldBy.bind {first : Traced Region α} {first' : Traced Region' α}
    {second : α → Traced Region β} {second' : α → Traced Region' β}
    (begins : RetoldBy seen seen' same first first')
    (goesOn : ∀ value, first.result = some value →
      RetoldBy seen seen' same (second value) (second' value)) :
    RetoldBy seen seen' same (first >>= second) (first' >>= second') := by
  cases returned : first.result with
  | none =>
      have failed := begins.result.trans returned
      refine ⟨?_, ?_⟩
      · rw [result_bind, result_bind, returned, failed]
        rfl
      · rw [accesses_bind_of_fault returned, accesses_bind_of_fault failed]
        exact begins.accesses
  | some value =>
      have returned' := begins.result.trans returned
      have later := goesOn value returned
      refine ⟨?_, ?_⟩
      · rw [result_bind, result_bind, returned, returned']
        exact later.result
      · rw [accesses_bind_of_result returned, accesses_bind_of_result returned',
          List.filter_append, List.filter_append]
        exact List.rel_append begins.accesses later.accesses

/-- Accesses that are not looked at can be put in front. -/
theorem RetoldBy.note {γ : Type} {computation : Traced Region γ} {other : Unit → Traced Region' γ}
    {accesses : List (Access Region')} (unseen : ∀ access ∈ accesses, seen' access = false)
    (retold : RetoldBy seen seen' same computation (other ())) :
    RetoldBy seen seen' same computation (Traced.note accesses >>= other) := by
  have nothing : accesses.filter seen' = [] := by simpa [List.filter_eq_nil_iff] using unseen
  refine ⟨?_, ?_⟩
  · rw [result_bind]
    exact retold.result
  · rw [accesses_bind_of_result (result_note accesses), List.filter_append, Traced.note, nothing]
    exact retold.accesses

end

end Traced

end Omnm
