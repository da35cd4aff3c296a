import Mathlib.Algebra.Order.Group.Multiset
import Mathlib.Data.Finset.Erase
import Mathlib.Data.Finset.Insert
import Mathlib.Data.Multiset.OrderedMonoid

/-!
# Blocks of memory and who owns them

A heap hands out blocks and takes them back. Taking back a block that is not
live is undefined, and then so is what the computation does (`HeapAction.free`):
a computation with a result frees no block twice, and none that it was not
given.

A computation trades the blocks that it owns at its start for those that it owns
at its end, and leaves all others live (`Trades`). Trades are put together one
behind the other (`Trades.bind`), and inside of what is owned (`Trades.within`).
What its result is like, whatever it owns, is a property of its own (`Ends`).
-/

set_option autoImplicit false

namespace Omnm

/-- A block of memory, by its number. -/
abbrev Block := Nat

/-- The blocks that are live, and the next one to be handed out. -/
structure Heap where
  live : Finset Block
  next : Block
  fresh : ∀ block ∈ live, block < next

namespace Heap

/-- No block is live. -/
def empty : Heap := ⟨∅, 0, by simp⟩

variable {heap : Heap} {block : Block}

/-- The heap with a new block. -/
def alloc (heap : Heap) : Heap where
  live := insert heap.next heap.live
  next := heap.next + 1
  fresh := by
    intro block member
    rcases Finset.mem_insert.mp member with rfl | old
    · exact Nat.lt_succ_self _
    · exact Nat.lt_succ_of_lt (heap.fresh block old)

/-- The heap without a block. -/
def erase (heap : Heap) (block : Block) : Heap where
  live := heap.live.erase block
  next := heap.next
  fresh other member := heap.fresh other (Finset.mem_of_mem_erase member)

theorem live_alloc (heap : Heap) : heap.alloc.live.val = {heap.next} + heap.live.val := by
  have absent : heap.next ∉ heap.live := fun member => Nat.lt_irrefl _ (heap.fresh _ member)
  exact (Finset.insert_val_of_notMem absent).trans (Multiset.singleton_add ..).symm

theorem live_erase {rest : Multiset Block} (live : heap.live.val = {block} + rest) :
    (heap.erase block).live.val = rest := by
  show heap.live.val.erase block = rest
  rw [live, Multiset.singleton_add, Multiset.erase_cons_head]

end Heap

/-- A computation on a heap. It has no result when it frees a block that is not live. -/
abbrev HeapAction := StateT Heap Option

namespace HeapAction

/-- A new block. -/
def alloc : HeapAction Block := fun heap => some (heap.next, heap.alloc)

/-- Give a block back. -/
def free (block : Block) : HeapAction Unit := fun heap =>
  if block ∈ heap.live then some ((), heap.erase block) else none

end HeapAction

/-! ## Trades -/

/-- The computation, where it owns some blocks, ends with a result and owns what is due for it.
Blocks of others stay live. -/
def Trades {Result : Type} (before : Multiset Block) (action : HeapAction Result)
    (after : Result → Multiset Block → Prop) : Prop :=
  ∀ (heap : Heap) (rest : Multiset Block), heap.live.val = before + rest →
    ∃ result next owned, action.run heap = some (result, next) ∧ after result owned ∧
      next.live.val = owned + rest

variable {Result Next : Type} {before : Multiset Block} {action : HeapAction Result}
  {after : Result → Multiset Block → Prop}

theorem trades_pure {result : Result} (due : after result before) :
    Trades before (pure result) after := by
  intro heap rest live
  exact ⟨result, heap, before, rfl, due, live⟩

/-- One trade behind the other. -/
theorem Trades.bind {next : Result → HeapAction Next} {final : Next → Multiset Block → Prop}
    (first : Trades before action after)
    (later : ∀ result owned, after result owned → Trades owned (next result) final) :
    Trades before (action >>= next) final := by
  intro heap rest live
  obtain ⟨result, middle, owned, ran, due, live'⟩ := first heap rest live
  obtain ⟨last, final', owned', ran', due', live''⟩ := later result owned due middle rest live'
  refine ⟨last, final', owned', ?_, due', live''⟩
  rw [StateT.run_bind, ran]
  exact ran'

theorem Trades.mono {weaker : Result → Multiset Block → Prop} (trades : Trades before action after)
    (implies : ∀ result owned, after result owned → weaker result owned) :
    Trades before action weaker := by
  intro heap rest live
  obtain ⟨result, next, owned, ran, due, live'⟩ := trades heap rest live
  exact ⟨result, next, owned, ran, implies result owned due, live'⟩

/-- A trade of some of the blocks that are owned. -/
theorem Trades.within {whole : Multiset Block} (trades : Trades before action after)
    (kept : Multiset Block) (split : whole = before + kept) :
    Trades whole action fun result owned => ∃ own, after result own ∧ owned = own + kept := by
  intro heap rest live
  rw [split, add_assoc] at live
  obtain ⟨result, next, own, ran, due, live'⟩ := trades heap (kept + rest) live
  exact ⟨result, next, own + kept, ran, ⟨own, due, rfl⟩, by rw [live', add_assoc]⟩

theorem trades_alloc : Trades 0 HeapAction.alloc fun block owned => owned = {block} := by
  intro heap rest live
  rw [zero_add] at live
  exact ⟨heap.next, heap.alloc, {heap.next}, rfl, rfl, by rw [heap.live_alloc, live]⟩

theorem trades_free (block : Block) :
    Trades {block} (HeapAction.free block) fun _ owned => owned = 0 := by
  intro heap rest live
  have member : block ∈ heap.live := by
    rw [← Finset.mem_val, live]
    simp
  refine ⟨(), heap.erase block, 0, ?_, rfl, ?_⟩
  · show (if block ∈ heap.live then _ else _) = _
    rw [if_pos member]
  · rw [Heap.live_erase live, zero_add]

/-! ## Results -/

/-- Whatever the computation has as its result has the property. -/
def Ends {Result : Type} (action : HeapAction Result) (holds : Result → Prop) : Prop :=
  ∀ heap result next, action.run heap = some (result, next) → holds result

variable {holds : Result → Prop}

theorem ends_pure {result : Result} (due : holds result) : Ends (pure result) holds := by
  rintro heap _ next ⟨⟩
  exact due

theorem ends_failure : Ends failure holds := by
  rintro heap result next ⟨⟩

theorem ends_any (action : HeapAction Result) : Ends action fun _ => True := fun _ _ _ _ => trivial

theorem Ends.bind {next : Result → HeapAction Next} {final : Next → Prop}
    (first : Ends action holds) (later : ∀ result, holds result → Ends (next result) final) :
    Ends (action >>= next) final := by
  intro heap result final' ran
  rw [StateT.run_bind] at ran
  obtain ⟨⟨middle, heap'⟩, ran', ranNext⟩ := Option.bind_eq_some_iff.mp ran
  exact later middle (first heap middle heap' ran') heap' result final' ranNext

theorem Ends.mono {weaker : Result → Prop} (ends : Ends action holds)
    (implies : ∀ result, holds result → weaker result) : Ends action weaker :=
  fun heap result next ran => implies result (ends heap result next ran)

/-- The result of a trade has the property. -/
theorem Trades.ends (trades : Trades before action after) (ends : Ends action holds) :
    Trades before action fun result owned => after result owned ∧ holds result := by
  intro heap rest live
  obtain ⟨result, next, owned, ran, due, live'⟩ := trades heap rest live
  exact ⟨result, next, owned, ran, ⟨due, ends heap result next ran⟩, live'⟩

end Omnm
