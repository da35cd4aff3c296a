import Mathlib.Algebra.BigOperators.Group.List.Basic
import Omnm.Payload.HeldBlocks
import Omnm.Runs.Runs

/-!
# Nothing is freed twice, and what is lost

Clients create payloads, fields and iterators, use them, and destroy them, in
any order. As long as they use what is there, no block is freed that is not
live, and at any time each live block is held by exactly one object, or is lost
(`every_block_has_one_holder`).

The cleanup of a payload or a field gives everything back. An iterator has no
cleanup: what its field keeps is lost with it. So all memory comes back exactly
if no getter was asked to keep something in the field of an iterator
(`memory_comes_back_iff`).
-/

set_option autoImplicit false

namespace Omnm

open PayloadMemory

/-! ## Who holds what -/

/-- The blocks of an object. -/
def ClientObject.blocks : ClientObject → Multiset Block
  | .payload memory => memory.blocks
  | .field block mField => fieldBlocks mField + {block}
  | .iterator none mField => fieldBlocks mField
  | .iterator (some block) mField => fieldBlocks mField + {block}

/-- The blocks of what a handle stands for. -/
def handleBlocks : Option ClientObject → Multiset Block
  | none => 0
  | some object => object.blocks

/-- The blocks of all objects, and those that are lost. -/
def ClientMemory.blocks (client : ClientMemory) : Multiset Block :=
  (client.objects.map handleBlocks).sum + client.lost

/-- An object that loses nothing when it goes: only iterators do. -/
def ClientObject.LosesNothing : ClientObject → Prop
  | .payload _ | .field _ _ => True
  | .iterator _ mField => mField = FieldMemory.none

/-- Nothing is lost, and none of the objects would lose anything. -/
def ClientMemory.Tidy (client : ClientMemory) : Prop :=
  (∀ object, some object ∈ client.objects → object.LosesNothing) ∧ client.lost = 0

/-- The call is about an object of its kind that is there, and about a payload that is reached
from it. -/
def ClientCall.Fits (client : ClientMemory) : ClientCall → Prop
  | .createPayload | .createFromByteBuffer _ | .createField | .createIterator | .initIterator => True
  | .destroyPayload handle => ∃ payload, client.object handle = some (.payload payload)
  | .destroyField handle => ∃ block mField, client.object handle = some (.field block mField)
  | .destroyIterator handle =>
      ∃ block mField, client.object handle = some (.iterator (some block) mField)
  | .leaveIterator handle => ∃ mField, client.object handle = some (.iterator none mField)
  | .usePayload handle path _ =>
      ∃ payload, client.object handle = some (.payload payload) ∧ payload.Reaches path
  | .useIterator handle use =>
      ∃ block mField, client.object handle = some (.iterator block mField) ∧ use.Fits mField

/-- The call does not ask the field of an iterator to keep something. -/
def ClientCall.KeepsNothing : ClientCall → Prop
  | .useIterator _ use => use.KeepsNothing
  | _ => True

namespace ClientMemory

variable {client : ClientMemory} {handle : Nat} {object : ClientObject}

/-- The objects in front of one that is there, and those behind it. -/
theorem objects_split (there : client.object handle = some object) :
    ∃ before after, client.objects = before ++ some object :: after ∧
      ∀ other, (client.set handle other).objects = before ++ other :: after := by
  have found : client.objects[handle]? = some (some object) := Option.join_eq_some_iff.mp there
  obtain ⟨inside, here⟩ := List.getElem?_eq_some_iff.mp found
  refine ⟨client.objects.take handle, client.objects.drop (handle + 1), ?_, ?_⟩
  · rw [← here, List.getElem_cons_drop, List.take_append_drop]
  · intro other
    exact List.set_eq_take_append_cons_drop.trans (if_pos inside)

/-- The blocks of an object, and the others. -/
theorem blocks_split (there : client.object handle = some object) :
    ∃ rest, client.blocks = object.blocks + rest ∧
      ∀ other, (client.set handle other).blocks = handleBlocks other + rest := by
  obtain ⟨before, after, whole, changed⟩ := objects_split there
  refine ⟨(before.map handleBlocks).sum + (after.map handleBlocks).sum + client.lost, ?_, ?_⟩
  · simp only [blocks, whole, List.map_append, List.map_cons, List.sum_append, List.sum_cons,
      handleBlocks]
    ac_rfl
  · intro other
    simp only [blocks, changed, List.map_append, List.map_cons, List.sum_append, List.sum_cons]
    show _ + client.lost = _
    ac_rfl

theorem tidy_split (there : client.object handle = some object) :
    ∃ others : Prop, (client.Tidy ↔ object.LosesNothing ∧ others) ∧
      ∀ other, (client.set handle other).Tidy ↔
        (∀ object, some object = other → object.LosesNothing) ∧ others := by
  obtain ⟨before, after, whole, changed⟩ := objects_split there
  refine ⟨(∀ object, some object ∈ before → object.LosesNothing) ∧
    (∀ object, some object ∈ after → object.LosesNothing) ∧ client.lost = 0, ?_, ?_⟩
  · simp only [Tidy, whole, List.mem_append, List.mem_cons, or_imp, forall_and, Option.some.injEq,
      forall_eq]
    tauto
  · intro other
    simp only [Tidy, changed, List.mem_append, List.mem_cons, or_imp, forall_and]
    show _ ∧ client.lost = 0 ↔ _
    tauto

theorem blocks_add (other : Option ClientObject) :
    (client.add other).blocks = handleBlocks other + client.blocks := by
  simp only [blocks, add, List.map_append, List.map_cons, List.map_nil, List.sum_append,
    List.sum_cons, List.sum_nil]
  ac_rfl

theorem tidy_add {other : Option ClientObject}
    (tidy : ∀ object, some object = other → object.LosesNothing) :
    (client.add other).Tidy ↔ client.Tidy := by
  simp only [Tidy, add, List.mem_append, List.mem_singleton, or_imp, forall_and]
  constructor
  · rintro ⟨⟨old, -⟩, nothing⟩
    exact ⟨old, nothing⟩
  · rintro ⟨old, nothing⟩
    exact ⟨⟨old, tidy⟩, nothing⟩

theorem blocks_lose (blocks : Multiset Block) :
    (client.lose blocks).blocks = blocks + client.blocks := by
  simp only [ClientMemory.blocks, lose]
  ac_rfl

theorem tidy_lose {blocks : Multiset Block} :
    (client.lose blocks).Tidy ↔ client.Tidy ∧ blocks = 0 := by
  simp only [Tidy, lose, add_eq_zero, and_assoc]

theorem lose_zero : client.lose 0 = client := by
  rw [lose, add_zero]

end ClientMemory

/-! ## One call -/

variable {client : ClientMemory} {handle : Nat} {object : ClientObject}

/-- What is due after a call: the blocks of the clients, who stay tidy exactly if they were and the
call keeps nothing. -/
def Accounts (client : ClientMemory) (keepsNothing : Prop) (next : ClientMemory)
    (owned : Multiset Block) : Prop :=
  owned = next.blocks ∧ (next.Tidy ↔ client.Tidy ∧ keepsNothing)

/-- A new object, whose blocks are there. -/
theorem trades_add {Result : Type} {action : HeapAction Result}
    (made : Result → Option ClientObject)
    (trades : Trades 0 action fun result owned => owned = handleBlocks (made result) ∧
      ∀ object, some object = made result → object.LosesNothing) :
    Trades client.blocks (action >>= fun result => pure (client.add (made result)))
      (Accounts client True) := by
  refine (trades.within _ (zero_add _).symm).bind ?_
  rintro result - ⟨-, ⟨rfl, tidy⟩, rfl⟩
  refine trades_pure ⟨(client.blocks_add _).symm, ?_⟩
  rw [ClientMemory.tidy_add tidy, and_true]

/-- An object in another state. -/
theorem trades_object {Result : Type} {action : HeapAction Result} {due : Result → Prop}
    (made : Result → ClientObject) (there : client.object handle = some object)
    (trades : Trades object.blocks action fun result owned =>
      owned = (made result).blocks ∧ due result) :
    Trades client.blocks (action >>= fun result => pure (client.set handle (some (made result))))
      fun next owned => owned = next.blocks ∧
        ∃ result, due result ∧ next = client.set handle (some (made result)) := by
  obtain ⟨rest, whole, changed⟩ := ClientMemory.blocks_split there
  refine (trades.within _ whole).bind ?_
  rintro result - ⟨-, ⟨rfl, holds⟩, rfl⟩
  exact trades_pure ⟨(changed (some (made result))).symm, result, holds, rfl⟩

theorem trades_set {Result : Type} {action : HeapAction Result} (made : Result → ClientObject)
    {keepsNothing : Prop} (there : client.object handle = some object)
    (trades : Trades object.blocks action fun result owned => owned = (made result).blocks ∧
      ((made result).LosesNothing ↔ object.LosesNothing ∧ keepsNothing)) :
    Trades client.blocks (action >>= fun result => pure (client.set handle (some (made result))))
      (Accounts client keepsNothing) := by
  obtain ⟨others, tidy, still⟩ := ClientMemory.tidy_split there
  refine (trades_object made there trades).mono ?_
  rintro next owned ⟨due, result, same, rfl⟩
  refine ⟨due, ?_⟩
  rw [still, tidy]
  simp only [Option.some.injEq, forall_eq, same]
  tauto

/-- An object that goes, and what is lost with it. -/
theorem trades_gone {action : HeapAction Unit} {lost : Multiset Block}
    (there : client.object handle = some object)
    (trades : Trades object.blocks action fun _ owned => owned = lost)
    (spares : object.LosesNothing ↔ lost = 0) :
    Trades client.blocks (action >>= fun _ => pure ((client.set handle none).lose lost))
      (Accounts client True) := by
  obtain ⟨rest, whole, changed⟩ := ClientMemory.blocks_split there
  obtain ⟨others, before, after⟩ := ClientMemory.tidy_split there
  refine (trades.within _ whole).bind ?_
  rintro - - ⟨own, due, rfl⟩
  refine trades_pure ⟨?_, ?_⟩
  · rw [ClientMemory.blocks_lose, changed, handleBlocks, zero_add, due]
  · rw [ClientMemory.tidy_lose, after, before, spares]
    simp only [reduceCtorEq, false_imp_iff, implies_true]
    tauto

/-- A payload or a field that is destroyed. Nothing is lost with it. -/
theorem trades_destroyed {action : HeapAction Unit} (there : client.object handle = some object)
    (trades : Trades object.blocks action fun _ owned => owned = 0)
    (spares : object.LosesNothing) :
    Trades client.blocks (action >>= fun _ => pure (client.set handle none))
      (Accounts client True) := by
  have gone := trades_gone there trades (iff_of_true spares rfl)
  rwa [ClientMemory.lose_zero] at gone

/-- A call accounts for every block. -/
theorem trades_perform {call : ClientCall} (fits : call.Fits client) :
    Trades client.blocks (call.perform client) (Accounts client call.KeepsNothing) := by
  cases call with
  | createPayload =>
      refine trades_add (fun payload => some (.payload payload)) (trades_create.mono ?_)
      rintro payload owned ⟨rfl, -⟩
      refine ⟨rfl, ?_⟩
      rintro - ⟨⟩
      trivial
  | createFromByteBuffer given =>
      refine trades_add (Option.map ClientObject.payload)
        ((trades_createFromByteBuffer given).mono ?_)
      rintro created owned ⟨rfl, -⟩
      cases created with
      | none => exact ⟨entryBlocks.eq_1, fun _ same => by cases same⟩
      | some payload =>
          refine ⟨entryBlocks.eq_2 payload, ?_⟩
          rintro - ⟨⟩
          trivial
  | destroyPayload handle =>
      obtain ⟨payload, there⟩ := fits
      rw [ClientCall.perform, there]
      exact trades_destroyed there (trades_destroy payload) trivial
  | createField =>
      refine trades_add (fun created => some (.field created.1 created.2))
        (trades_createField.mono ?_)
      rintro created owned ⟨rfl, -⟩
      refine ⟨rfl, ?_⟩
      rintro - ⟨⟩
      trivial
  | destroyField handle =>
      obtain ⟨block, mField, there⟩ := fits
      rw [ClientCall.perform, there]
      exact trades_destroyed there (trades_destroyField block mField) trivial
  | createIterator =>
      refine trades_add (fun created => some (.iterator (some created.1) created.2))
        (trades_createField.mono ?_)
      rintro created owned ⟨rfl, nothing⟩
      refine ⟨rfl, ?_⟩
      rintro - ⟨⟩
      exact nothing
  | destroyIterator handle =>
      obtain ⟨block, mField, there⟩ := fits
      rw [ClientCall.perform, there]
      refine trades_gone there (((trades_free block).within _ (add_comm _ _)).mono ?_)
        fieldBlocks_eq_zero_iff.symm
      rintro - - ⟨-, rfl, rfl⟩
      exact zero_add _
  | initIterator =>
      refine trades_pure ⟨?_, ?_⟩
      · rw [ClientMemory.blocks_add, handleBlocks, ClientObject.blocks,
          fieldBlocks_eq_zero_iff.mpr rfl, zero_add]
      · rw [ClientMemory.tidy_add]
        · exact (and_iff_left trivial).symm
        · rintro - ⟨⟩
          rfl
  | leaveIterator handle =>
      obtain ⟨mField, there⟩ := fits
      have left : Trades (fieldBlocks mField) (pure ()) fun _ owned => owned = fieldBlocks mField :=
        trades_pure rfl
      rw [ClientCall.perform, there]
      exact trades_gone there left fieldBlocks_eq_zero_iff.symm
  | usePayload handle path use =>
      obtain ⟨payload, there, reaches⟩ := fits
      rw [ClientCall.perform, there]
      refine trades_set ClientObject.payload there ((trades_onPath reaches (trades_use use)).mono ?_)
      rintro used owned rfl
      exact ⟨rfl, by simp [ClientObject.LosesNothing, ClientCall.KeepsNothing]⟩
  | useIterator handle use =>
      obtain ⟨block, mField, there, fits⟩ := fits
      rw [ClientCall.perform, there]
      refine trades_set (ClientObject.iterator block) there ?_
      cases block with
      | none => exact trades_fieldUse fits
      | some block =>
          refine ((trades_fieldUse fits).within _ rfl).mono ?_
          rintro kept - ⟨-, ⟨rfl, same⟩, rfl⟩
          exact ⟨rfl, same⟩

/-! ## Runs -/

/-- The objects of the clients, and the heap. -/
structure ClientState where
  client : ClientMemory
  heap : Heap

/-- Nothing is there. -/
def ClientState.start : ClientState := ⟨ClientMemory.empty, Heap.empty⟩

/-- A call. It has no result where it frees a block that is not live. -/
def clientStep (state : ClientState) (call : ClientCall) : Option (Unit × ClientState) :=
  ((call.perform state.client).run state.heap).map fun ended => ((), ⟨ended.1, ended.2⟩)

/-- A block is live exactly if an object holds it, which then is the only one, or it is lost. -/
def ClientState.Accounted (state : ClientState) : Prop :=
  state.heap.live.val = state.client.blocks

/-- The call fits the objects that are there. -/
def ClientState.Fits (state : ClientState) (call : ClientCall) : Prop := call.Fits state.client

theorem accounted_start : ClientState.start.Accounted := rfl

theorem tidy_start : ClientState.start.client.Tidy :=
  ⟨fun _ member => absurd member List.not_mem_nil, rfl⟩

/-- A call that trades the blocks of the clients for what they hold afterwards. -/
theorem clientStep_of_trades {state : ClientState} {call : ClientCall} {due : ClientMemory → Prop}
    (accounted : state.Accounted)
    (trades : Trades state.client.blocks (call.perform state.client) fun next owned =>
      owned = next.blocks ∧ due next) :
    ∃ next : ClientState, clientStep state call = some ((), next) ∧ next.Accounted ∧
      due next.client := by
  obtain ⟨client, heap, owned, performed, ⟨rfl, holds⟩, live⟩ :=
    trades state.heap 0 (accounted.trans (add_zero _).symm)
  refine ⟨⟨client, heap⟩, ?_, live.trans (add_zero _), holds⟩
  rw [clientStep, performed, Option.map_some]

theorem clientStep_eq (state : ClientState) (call : ClientCall) (accounted : state.Accounted)
    (fits : state.Fits call) :
    ∃ out next, clientStep state call = some (out, next) ∧ next.Accounted ∧
      (next.client.Tidy ↔ state.client.Tidy ∧ call.KeepsNothing) :=
  ⟨(), clientStep_of_trades accounted (trades_perform fits)⟩

variable {calls : List ClientCall}

/-- No run of calls that fit frees a block that is not live, and after it each live block is held
by one object, or is lost. -/
theorem every_block_has_one_holder
    (along : Along clientStep ClientState.Fits ClientState.start calls) :
    ∃ outs last, run clientStep ClientState.start calls = some (outs, last) ∧
      last.heap.live.val = last.client.blocks :=
  run_invariant (fun state call accounted fits => by
    obtain ⟨out, next, stepped, still, -⟩ := clientStep_eq state call accounted fits
    exact ⟨out, next, stepped, still⟩) calls ClientState.start accounted_start along

/-- Clients without objects hold nothing. -/
theorem blocks_of_gone {client : ClientMemory} (gone : ∀ object ∈ client.objects, object = none) :
    client.blocks = client.lost ∧ (client.Tidy ↔ client.lost = 0) := by
  constructor
  · have nothing : (client.objects.map handleBlocks).sum = 0 := by
      apply List.sum_eq_zero
      intro blocks member
      obtain ⟨object, held, rfl⟩ := List.mem_map.mp member
      rw [gone object held, handleBlocks]
    rw [ClientMemory.blocks, nothing, zero_add]
  · refine and_iff_right ?_
    intro object member
    cases gone _ member

/-- When all objects are gone, all memory has come back exactly if no getter was asked to keep
something in the field of an iterator. -/
theorem memory_comes_back_iff
    (along : Along clientStep ClientState.Fits ClientState.start calls) :
    ∃ outs last, run clientStep ClientState.start calls = some (outs, last) ∧
      ((∀ object ∈ last.client.objects, object = none) →
        (last.heap.live = ∅ ↔ ∀ call ∈ calls, call.KeepsNothing)) := by
  obtain ⟨outs, last, ran, accounted, tidy⟩ :=
    run_invariant_iff clientStep_eq calls ClientState.start accounted_start along
  refine ⟨outs, last, ran, ?_⟩
  intro gone
  obtain ⟨held, nothing⟩ := blocks_of_gone gone
  rw [nothing, and_iff_right tidy_start] at tidy
  rw [← tidy, ← held, ← accounted, Finset.val_eq_zero]

section Example

/-- A payload is asked for a sub-message, which grows. -/
def payloadCalls : List ClientCall :=
  [.createPayload, .usePayload 0 [] (.read (.getMsg ⟨3, true, false⟩)),
    .usePayload 0 [.mSubPayload] (.growPayload true 300)]

theorem payloadCalls_fit : Along clientStep ClientState.Fits ClientState.start payloadCalls := by
  refine along_cons_of_step trivial rfl (along_cons_of_step ⟨_, rfl, trivial⟩ rfl ?_)
  exact along_cons_of_step ⟨_, rfl, _, rfl, trivial⟩ rfl trivial

theorem moved_buffer_has_one_holder :
    ∃ outs last, run clientStep ClientState.start payloadCalls = some (outs, last) ∧
      last.heap.live.val = {0, 1, 2, 4} := by
  obtain ⟨outs, last, ran, held⟩ := every_block_has_one_holder payloadCalls_fit
  refine ⟨outs, last, ran, held.trans ?_⟩
  cases ran
  decide

/-- An iterator whose field is asked for a sub-message. -/
def iteratorCalls : List ClientCall :=
  [.createIterator, .useIterator 0 (.read (.getMsg ⟨3, true, false⟩)), .destroyIterator 0]

theorem iteratorCalls_fit : Along clientStep ClientState.Fits ClientState.start iteratorCalls := by
  refine along_cons_of_step trivial rfl (along_cons_of_step ⟨_, _, rfl, trivial⟩ rfl ?_)
  exact along_cons_of_step ⟨_, _, rfl⟩ rfl trivial

theorem iterator_loses_sub_payload :
    ∃ outs last, run clientStep ClientState.start iteratorCalls = some (outs, last) ∧
      last.heap.live ≠ ∅ := by
  obtain ⟨outs, last, ran, back⟩ := memory_comes_back_iff iteratorCalls_fit
  have gone : ∀ object ∈ last.client.objects, object = none := by
    cases ran
    decide
  refine ⟨outs, last, ran, ?_⟩
  intro empty
  have nothing := (back gone).mp empty (.useIterator 0 (.read (.getMsg ⟨3, true, false⟩)))
    (List.mem_cons_of_mem _ List.mem_cons_self)
  cases nothing

end Example

end Omnm
