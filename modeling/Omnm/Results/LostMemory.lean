import Omnm.Payload.KeptGetters
import Omnm.Results.Lifecycle
import Omnm.Wire.MessageMutations

/-!
# What `omnmmsgPayload_apply` loses

The iterator of `omnmmsgPayload_apply` is on its stack, and nobody cleans up its
field. A call loses the sub-payload through which it read the messages of its
source, which is two blocks whatever their number, and the array of pointers to
the strings of its source, which is one. A payload that is kept up to date
loses these with each update that has a message or strings
(`applied_messages_lose`).
-/

set_option autoImplicit false

namespace Omnm

open PayloadMemory

section

variable [FieldTypeTags]

/-! ## The getters of a message -/

/-- A field with a message in it. -/
def FieldEntry.holdsMessage (entry : FieldEntry) : Bool :=
  fieldTypeOf entry.type = some .msg && entry.data ≠ []

/-- A field with strings in it. -/
def FieldEntry.holdsStrings (entry : FieldEntry) : Bool :=
  fieldTypeOf entry.type = some .vectorString && entry.data ≠ []

/-- The data of a message have a header, and strings end. -/
structure FieldEntry.Gettable (entry : FieldEntry) : Prop where
  header : entry.holdsMessage → 3 ≤ entry.data.length
  ends : entry.holdsStrings → entry.data.getLast? = some 0

/-- The blocks that are lost when the message is applied. -/
def Message.lostBlocks (message : Message) : Nat :=
  2 * (message.entries.any FieldEntry.holdsMessage).toNat +
    (message.entries.any FieldEntry.holdsStrings).toNat

/-- Getters of `omnmmsgPayload_apply` that keep what the fields hold. -/
structure GettersOf (entries : List FieldEntry) (getters : List FieldGetter) : Prop where
  applied : ∀ getter ∈ getters, getter.Applied
  subPayload : getters.any FieldGetter.keepsSubPayload = entries.any FieldEntry.holdsMessage
  strings : getters.any FieldGetter.keepsStrings = entries.any FieldEntry.holdsStrings

theorem GettersOf.nil : GettersOf [] [] := ⟨by simp, rfl, rfl⟩

theorem GettersOf.append {entries others : List FieldEntry} {getters later : List FieldGetter}
    (first : GettersOf entries getters) (second : GettersOf others later) :
    GettersOf (entries ++ others) (getters ++ later) where
  applied getter member := (List.mem_append.mp member).elim (first.applied getter)
    (second.applied getter)
  subPayload := by rw [List.any_append, List.any_append, first.subPayload, second.subPayload]
  strings := by rw [List.any_append, List.any_append, first.strings, second.strings]

variable {moves : OmnmFieldImpl → Bool} {src : OmnmPayloadImpl} {field : OmnmFieldImpl}
  {entry : FieldEntry}

theorem gettersOf_message (message : fieldTypeOf entry.type = some .msg) {given : GivenBytes}
    (length : given.length = entry.data.length) : GettersOf [entry] [.getMsg given] where
  applied := by simp [FieldGetter.Applied]
  subPayload := by simp [FieldGetter.keepsSubPayload, FieldEntry.holdsMessage, message, length]
  strings := by simp [FieldGetter.keepsStrings, FieldEntry.holdsStrings, message]

theorem gettersOf_strings (strings : fieldTypeOf entry.type = some .vectorString) {moves : Bool}
    {size : Nat} (nothing : size = 0 ↔ entry.data = []) :
    GettersOf [entry] [.getVectorString moves size] where
  applied := by simp [FieldGetter.Applied]
  subPayload := by simp [FieldGetter.keepsSubPayload, FieldEntry.holdsMessage, strings]
  strings := by simp [FieldGetter.keepsStrings, FieldEntry.holdsStrings, strings, nothing]

theorem gettersOf_other (noMessage : fieldTypeOf entry.type ≠ some .msg)
    (noStrings : fieldTypeOf entry.type ≠ some .vectorString) : GettersOf [entry] [] where
  applied := by simp
  subPayload := by simp [FieldEntry.holdsMessage, noMessage]
  strings := by simp [FieldEntry.holdsStrings, noStrings]

omit [FieldTypeTags] in
/-- Bytes with a header are given as they are. -/
theorem exists_givenBytes (moves : Bool) {bytes : List UInt8} {length : Nat}
    (header : length ≠ 0 → 3 ≤ bytes.length) :
    ∃ given, (givenBytes src bytes length moves).result = some given ∧ given.length = length := by
  by_cases nothing : length = 0
  · exact ⟨_, by rw [givenBytes, if_pos nothing]; rfl, nothing.symm⟩
  · have loaded := (loadHeader_result src (.other bytes)).trans (if_pos (header nothing))
    refine ⟨⟨length, decide ((OmnmHeader.ofBytes bytes).mWireFormatVersion ≤ omnmProtocolVersion),
      moves⟩, ?_, rfl⟩
    rw [givenBytes, if_neg nothing, Traced.result_bind, loaded]
    rfl

/-- The getter that a message is read through. -/
theorem exists_appliedGetter_msg (handled : entry.HandledBy src field) (gettable : entry.Gettable)
    (message : fieldTypeOf entry.type = some .msg) :
    ∃ getter, (appliedGetter moves src field).result = some getter ∧
      GettersOf [entry] getter.toList := by
  obtain ⟨offset, rest, pointer, here, -⟩ := handled.data
  have header : entry.data.length ≠ 0 → 3 ≤ (src.mPayloadBuffer.drop offset).length := by
    intro some_bytes
    have holds : entry.holdsMessage := by
      simpa [FieldEntry.holdsMessage, message] using some_bytes
    rw [here, List.length_append]
    exact Nat.le_add_right_of_le (gettable.header holds)
  obtain ⟨given, read, same⟩ := @exists_givenBytes src (moves field) _ _ header
  refine ⟨some (.getMsg given), ?_, gettersOf_message message same⟩
  simp only [appliedGetter, keptGetter, handled.type, handled.size, if_neg handled.mData_ne_null,
    (tag_of_fieldTypeOf message).symm, fieldTypeOf_tag, ne_eq, not_true, if_false,
    OmnmFieldImpl.dataOffset]
  simp only [pointer, Traced.result_bind, Traced.result_pure, Option.bind_some, read]

/-- The getter that strings are read through. -/
theorem exists_appliedGetter_vectorString (handled : entry.HandledBy src field)
    (gettable : entry.Gettable) (strings : fieldTypeOf entry.type = some .vectorString) :
    ∃ getter, (appliedGetter moves src field).result = some getter ∧
      GettersOf [entry] getter.toList := by
  obtain ⟨offset, rest, pointer, here, -⟩ := handled.data
  simp only [appliedGetter, keptGetter, handled.type, handled.size, strings]
  by_cases nothing : entry.data.length = 0
  · rw [if_pos nothing]
    exact ⟨_, rfl, gettersOf_strings strings (by simpa using nothing)⟩
  · have holds : entry.holdsStrings := by
      simpa [FieldEntry.holdsStrings, strings] using nothing
    have counted : 0 < entry.data.count 0 :=
      List.count_pos_iff.mpr (List.mem_of_getLast? (gettable.ends holds))
    simp only [if_neg nothing, OmnmFieldImpl.dataOffset, pointer, Traced.result_bind,
      Traced.result_pure, Option.bind_some, handled.loadData pointer]
    refine ⟨_, rfl, gettersOf_strings strings (iff_of_false ?_ ?_)⟩
    · rw [sizeofPointer]
      omega
    · simpa using nothing

/-- The getter that a field is read through keeps what the field holds. -/
theorem exists_appliedGetter (handled : entry.HandledBy src field) (gettable : entry.Gettable) :
    ∃ getter, (appliedGetter moves src field).result = some getter ∧
      GettersOf [entry] getter.toList := by
  by_cases message : fieldTypeOf entry.type = some .msg
  · exact exists_appliedGetter_msg handled gettable message
  · by_cases strings : fieldTypeOf entry.type = some .vectorString
    · exact exists_appliedGetter_vectorString handled gettable strings
    · refine ⟨none, ?_, gettersOf_other message strings⟩
      rw [appliedGetter, handled.type]
      split
      · contradiction
      · contradiction
      · rfl

/-- The loop collects the getters of the fields that are ahead. -/
theorem exists_applyGettersFrom {entries : List FieldEntry} {iter : OmnmIterImpl} {rounds : Nat}
    (ahead : Ahead src iter entries) (listed : AllListed entries)
    (gettable : ∀ entry ∈ entries, entry.Gettable) (enough : entries.length < rounds) :
    ∃ getters, (applyGettersFrom moves src rounds iter).result = some getters ∧
      GettersOf entries getters := by
  induction entries generalizing iter rounds with
  | nil =>
      obtain ⟨rounds, rfl⟩ := Nat.exists_eq_succ_of_ne_zero (Nat.ne_of_gt enough)
      refine ⟨[], ?_, GettersOf.nil⟩
      rw [applyGettersFrom, ahead.next_nil]
      rfl
  | cons entry entries ih =>
      obtain ⟨rounds, rfl⟩ := Nat.exists_eq_succ_of_ne_zero (Nat.ne_of_gt (Nat.zero_lt_of_lt enough))
      have here := List.mem_cons_self (a := entry) (l := entries)
      obtain ⟨rest, stands⟩ := ahead.drop_eq
      obtain ⟨getter, called, keeps⟩ := @exists_appliedGetter _ moves _ _ _
        (entry.handledBy_of_drop (listed entry here) stands iter.mField.mData) (gettable entry here)
      obtain ⟨getters, later, keepsLater⟩ := ih ahead.step
        (fun other member => listed other (List.mem_cons_of_mem _ member))
        (fun other member => gettable other (List.mem_cons_of_mem _ member))
        (Nat.lt_of_succ_lt_succ enough)
      refine ⟨getter.toList ++ getters, ?_, keeps.append keepsLater⟩
      simp only [applyGettersFrom, Traced.result_bind, ahead.next, Option.bind_some, called, later,
        Traced.result_pure]

/-- So does a call on a payload that holds a message. -/
theorem exists_applyGetters {message : Message} (shown : src.Shows message)
    (gettable : ∀ entry ∈ message.entries, entry.Gettable) :
    ∃ getters, (omnmmsgPayload_applyGetters moves src).result = some getters ∧
      GettersOf message.entries getters := by
  have decodes := shown.represents.decodes
  obtain ⟨getters, collected, keeps⟩ :=
    @exists_applyGettersFrom _ moves _ _ _ _ decodes.ahead shown.listed gettable decodes.length_le
  refine ⟨getters, ?_, keeps⟩
  rw [omnmmsgPayload_applyGetters, Traced.result_bind, decodes.init, Option.bind_some, collected]

end

/-! ## Calls -/

/-- What a call of `omnmmsgPayload_apply` does behind the initialization of its iterator: getters
through the iterator, updates of payloads, and the return. -/
inductive Applies (handle : Nat) : List FieldGetter → List ClientCall → Prop where
  | returns : Applies handle [] [.leaveIterator handle]
  | gets {getters : List FieldGetter} {calls : List ClientCall} (getter : FieldGetter)
      (later : Applies handle getters calls) :
      Applies handle (getter :: getters) (.useIterator handle (.read getter) :: calls)
  | updates {getters : List FieldGetter} {calls : List ClientCall} (dest : Nat)
      (path : List KeptAt) (use : PayloadUse) (later : Applies handle getters calls) :
      Applies handle getters (.usePayload dest path use :: calls)

/-- Calls of `omnmmsgPayload_apply`, one after another, by the getters of their sources. -/
inductive AppliesAll : Nat → List (List FieldGetter) → List ClientCall → Prop where
  | nil (handle : Nat) : AppliesAll handle [] []
  | cons {handle : Nat} {getters : List FieldGetter} {rest : List (List FieldGetter)}
      {calls later : List ClientCall} (first : Applies handle getters calls)
      (others : AppliesAll (handle + 1) rest later) :
      AppliesAll handle (getters :: rest) (.initIterator :: (calls ++ later))

namespace ClientMemory

variable {client : ClientMemory} {handle other : Nat} {object : Option ClientObject}

theorem object_add : (client.add object).object client.objects.length = object := by
  simp [ClientMemory.object, add]

/-- A new object leaves those that are there. -/
theorem object_add_of_some {held : ClientObject} (there : client.object other = some held) :
    (client.add object).object other = some held := by
  have found : client.objects[other]? = some (some held) := Option.join_eq_some_iff.mp there
  obtain ⟨inside, -⟩ := List.getElem?_eq_some_iff.mp found
  simp [ClientMemory.object, add, List.getElem?_append_left inside, found]

theorem length_add : (client.add object).objects.length = client.objects.length + 1 := by
  simp [add]

theorem length_set : (client.set handle object).objects.length = client.objects.length :=
  List.length_set

theorem object_set_self {held : ClientObject} (there : client.object handle = some held) :
    (client.set handle object).object handle = object := by
  have found : client.objects[handle]? = some (some held) := Option.join_eq_some_iff.mp there
  obtain ⟨inside, -⟩ := List.getElem?_eq_some_iff.mp found
  simp [ClientMemory.object, set, inside]

theorem object_set_of_ne (differs : other ≠ handle) :
    (client.set other object).object handle = client.object handle := by
  simp [ClientMemory.object, set, List.getElem?_set_ne differs]

end ClientMemory

variable {state : ClientState} {handle : Nat} {getters : List FieldGetter}
  {calls : List ClientCall} {mField : FieldMemory PayloadMemory} {sub strings : Bool}

/-- An update changes no other object. -/
theorem clientStep_usePayload {dest : Nat} {path : List KeptAt} {use : PayloadUse}
    (accounted : state.Accounted) (fits : state.Fits (.usePayload dest path use)) :
    ∃ next : ClientState, clientStep state (.usePayload dest path use) = some ((), next) ∧
      next.Accounted ∧ ∃ payload used, state.client.object dest = some (.payload payload) ∧
        next.client = state.client.set dest (some (.payload used)) := by
  obtain ⟨payload, there, reaches⟩ := fits
  have inside : Trades payload.blocks (payload.onPath use.perform path) fun used owned =>
      owned = used.blocks ∧ True :=
    (trades_onPath reaches (trades_use use)).mono fun _ _ same => ⟨same, trivial⟩
  have trades := trades_object ClientObject.payload there inside
  obtain ⟨next, stepped, accounted', used, -, same⟩ :=
    @clientStep_of_trades state (.usePayload dest path use) _ accounted
      (by rw [ClientCall.perform, there]; exact trades)
  exact ⟨next, stepped, accounted', payload, used, there, same⟩

/-- A getter adds to what the field of an iterator on the stack keeps. -/
theorem clientStep_read {getter : FieldGetter} (accounted : state.Accounted)
    (there : state.client.object handle = some (.iterator none mField))
    (keeps : mField.KeepsOnly sub strings) (applied : getter.Applied) :
    ∃ next : ClientState, clientStep state (.useIterator handle (.read getter)) = some ((), next) ∧
      next.Accounted ∧ ∃ kept : FieldMemory PayloadMemory,
        kept.KeepsOnly (sub || getter.keepsSubPayload) (strings || getter.keepsStrings) ∧
          next.client = state.client.set handle (some (.iterator none kept)) := by
  have trades := trades_object (ClientObject.iterator none) there (keeps.trades_perform applied)
  exact @clientStep_of_trades state (.useIterator handle (.read getter)) _ accounted
    (by rw [ClientCall.perform, there]; exact trades)

/-- An iterator on the stack gets the next handle. -/
theorem clientStep_initIterator (accounted : state.Accounted) :
    clientStep state .initIterator =
        some ((), ⟨state.client.add (some (.iterator none FieldMemory.none)), state.heap⟩) ∧
      ClientState.Accounted
        ⟨state.client.add (some (.iterator none FieldMemory.none)), state.heap⟩ := by
  obtain ⟨out, next, stepped, accounted', -⟩ := clientStep_eq state .initIterator accounted trivial
  cases stepped
  exact ⟨rfl, accounted'⟩

/-- An iterator that leaves the stack loses what its field keeps. -/
theorem clientStep_leaveIterator (accounted : state.Accounted)
    (there : state.client.object handle = some (.iterator none mField)) :
    clientStep state (.leaveIterator handle) =
        some ((), ⟨(state.client.set handle none).lose (fieldBlocks mField), state.heap⟩) ∧
      ClientState.Accounted
        ⟨(state.client.set handle none).lose (fieldBlocks mField), state.heap⟩ := by
  have left : clientStep state (.leaveIterator handle) =
      some ((), ⟨(state.client.set handle none).lose (fieldBlocks mField), state.heap⟩) := by
    rw [clientStep, ClientCall.perform, there]
    rfl
  obtain ⟨out, next, stepped, accounted', -⟩ :=
    clientStep_eq state (.leaveIterator handle) accounted ⟨mField, there⟩
  cases left.symm.trans stepped
  exact ⟨left, accounted'⟩

/-- What the iterator keeps at the return of the call is lost. -/
theorem run_applies (applies : Applies handle getters calls) (accounted : state.Accounted)
    (there : state.client.object handle = some (.iterator none mField))
    (keeps : mField.KeepsOnly sub strings) (applied : ∀ getter ∈ getters, getter.Applied)
    (along : Along clientStep ClientState.Fits state calls) :
    ∃ outs last, run clientStep state calls = some (outs, last) ∧ last.Accounted ∧
      last.client.objects.length = state.client.objects.length ∧
      last.client.lost.card = state.client.lost.card +
        (2 * (sub || getters.any FieldGetter.keepsSubPayload).toNat +
          (strings || getters.any FieldGetter.keepsStrings).toNat) := by
  induction applies generalizing state mField sub strings with
  | returns =>
      obtain ⟨left, accounted'⟩ := clientStep_leaveIterator accounted there
      refine ⟨[()], _, run_cons_of_step left, accounted', ClientMemory.length_set, ?_⟩
      simp only [List.any_nil, Bool.or_false, ← keeps.card_fieldBlocks]
      exact Multiset.card_add _ _
  | gets getter later ih =>
      obtain ⟨next, stepped, accounted', kept, keeps', same⟩ :=
        clientStep_read accounted there keeps (applied getter List.mem_cons_self)
      have there' : next.client.object handle = some (.iterator none kept) := by
        rw [same, ClientMemory.object_set_self there]
      obtain ⟨outs, last, ran, atEnd, length, card⟩ := ih accounted' there' keeps'
        (fun other member => applied other (List.mem_cons_of_mem _ member)) (along.2 _ _ stepped)
      refine ⟨_, last, by rw [run_cons_of_step stepped, ran, Option.map_some], atEnd, ?_, ?_⟩
      · rw [length, same, ClientMemory.length_set]
      · rw [card, same]
        simp only [List.any_cons, Bool.or_assoc]
        rfl
  | updates dest path use later ih =>
      obtain ⟨next, stepped, accounted', payload, used, payloadThere, same⟩ :=
        clientStep_usePayload accounted along.1
      have differs : dest ≠ handle := by
        rintro rfl
        cases payloadThere.symm.trans there
      have there' : next.client.object handle = some (.iterator none mField) := by
        rw [same, ClientMemory.object_set_of_ne differs, there]
      obtain ⟨outs, last, ran, atEnd, length, card⟩ :=
        ih accounted' there' keeps applied (along.2 _ _ stepped)
      refine ⟨_, last, by rw [run_cons_of_step stepped, ran, Option.map_some], atEnd, ?_, ?_⟩
      · rw [length, same, ClientMemory.length_set]
      · rw [card, same]
        rfl

section

variable [FieldTypeTags] {gotten : List (List FieldGetter)} {updates : List Message}

/-- One call after another. -/
theorem run_appliesAll (applies : AppliesAll handle gotten calls)
    (next : state.client.objects.length = handle)
    (getters : List.Forall₂ (fun update => GettersOf update.entries) updates gotten)
    (accounted : state.Accounted) (along : Along clientStep ClientState.Fits state calls) :
    ∃ outs last, run clientStep state calls = some (outs, last) ∧ last.Accounted ∧
      last.client.lost.card = state.client.lost.card + (updates.map Message.lostBlocks).sum := by
  induction applies generalizing state updates with
  | nil handle =>
      cases getters
      exact ⟨[], state, rfl, accounted, rfl⟩
  | @cons handle first rest calls later appliesFirst others ih =>
      subst next
      cases getters with
      | @cons update _ updates _ collected collectedRest =>
          obtain ⟨begun, accounted'⟩ := clientStep_initIterator accounted
          obtain ⟨alongFirst, alongLater⟩ := (along.2 _ _ begun).append
          obtain ⟨outs, ended, ran, accountedFirst, length, card⟩ := run_applies appliesFirst
            accounted' ClientMemory.object_add FieldMemory.keepsOnly_none collected.applied alongFirst
          obtain ⟨outs', last, ranLater, atEnd, total⟩ := ih
            (length.trans ClientMemory.length_add) collectedRest accountedFirst (alongLater _ _ ran)
          refine ⟨() :: (outs ++ outs'), last, ?_, atEnd, ?_⟩
          · rw [run_cons_of_step begun, run_append_of_run ran ranLater, Option.map_some]
          · rw [total, card, collected.subPayload, collected.strings, List.map_cons, List.sum_cons]
            simp only [Bool.false_or]
            exact add_assoc _ _ _

/-- Applying messages one after another loses, for each of them, the blocks of a sub-payload if it
has a message in it, and an array if it has strings in it. -/
theorem applied_messages_lose (moves : OmnmFieldImpl → Bool) {sources : List OmnmPayloadImpl}
    (shown : List.Forall₂ OmnmPayloadImpl.Shows sources updates)
    (gettable : ∀ update ∈ updates, ∀ entry ∈ update.entries, entry.Gettable)
    (accounted : state.Accounted) :
    ∃ gotten, List.Forall₂ (fun src getters =>
        (omnmmsgPayload_applyGetters moves src).result = some getters) sources gotten ∧
      ∀ calls, AppliesAll state.client.objects.length gotten calls →
        Along clientStep ClientState.Fits state calls →
        ∃ outs last, run clientStep state calls = some (outs, last) ∧
          last.heap.live.val = last.client.blocks ∧
          last.client.lost.card = state.client.lost.card + (updates.map Message.lostBlocks).sum := by
  have collected : ∃ gotten, List.Forall₂ (fun src getters =>
        (omnmmsgPayload_applyGetters moves src).result = some getters) sources gotten ∧
      List.Forall₂ (fun update => GettersOf update.entries) updates gotten := by
    induction shown with
    | nil => exact ⟨[], .nil, .nil⟩
    | @cons src update sources updates first rest ih =>
        obtain ⟨getters, read, keeps⟩ := @exists_applyGetters _ moves _ _ first
          (gettable update List.mem_cons_self)
        obtain ⟨gotten, reads, all⟩ := ih fun other member =>
          gettable other (List.mem_cons_of_mem _ member)
        exact ⟨getters :: gotten, .cons read reads, .cons keeps all⟩
  obtain ⟨gotten, reads, all⟩ := collected
  exact ⟨gotten, reads, fun calls applies along => run_appliesAll applies rfl all accounted along⟩

end

section Example

attribute [local instance] mamaFieldTypes

/-- A field of an empty message. -/
def emptyMessageField : FieldEntry := ⟨mamaFieldTypeNumber .msg, 3, CString.empty, [79, 1, 0]⟩

/-- A field of two strings, with a name. -/
def stringsField : FieldEntry :=
  ⟨mamaFieldTypeNumber .vectorString, 0, .ofBytes [65], [66, 0, 67, 0]⟩

theorem eq_of_mem_fields {entry : FieldEntry} (member : entry ∈ [emptyMessageField, stringsField]) :
    entry = emptyMessageField ∨ entry = stringsField := by
  simpa using member

theorem keptFields_fit : AllFit [emptyMessageField, stringsField] := by
  unfold AllFit
  decide

/-- The message with these fields. -/
def messageWithStrings : Message :=
  ⟨mamaPayloadIdOmnm, 1, [], [emptyMessageField, stringsField], UInt8.le_refl omnmProtocolVersion,
    Message.extra_nil_lt, keptFields_fit⟩

theorem messageWithStrings_shown : messageWithStrings.payload.Shows messageWithStrings where
  represents := messageWithStrings.payload_represents
  listed := by
    intro entry member
    obtain rfl | rfl := eq_of_mem_fields member <;> decide

theorem messageWithStrings_gettable : ∀ entry ∈ messageWithStrings.entries, entry.Gettable := by
  intro entry member
  obtain rfl | rfl := eq_of_mem_fields member
  · exact ⟨fun _ => Nat.le_refl 3, fun holds => absurd holds (by decide)⟩
  · exact ⟨fun holds => absurd holds (by decide), fun _ => rfl⟩

/-- The first object is a payload, the destination of all calls. -/
def HasDestination (client : ClientMemory) : Prop :=
  ∃ payload, client.object 0 = some (.payload payload)

/-- A call of `omnmmsgPayload_apply` that updates the destination is about objects that are there,
and leaves the destination there. -/
theorem Applies.along {state : ClientState} {handle : Nat} {getters : List FieldGetter}
    {calls later : List ClientCall} {mField : FieldMemory PayloadMemory} {sub strings : Bool}
    (applies : Applies handle getters calls) (accounted : state.Accounted)
    (dest : HasDestination state.client)
    (there : state.client.object handle = some (.iterator none mField))
    (keeps : mField.KeepsOnly sub strings) (applied : ∀ getter ∈ getters, getter.Applied)
    (updates : ∀ other path use, .usePayload other path use ∈ calls → other = 0 ∧ path = [])
    (behind : ∀ next : ClientState, next.Accounted → HasDestination next.client →
      next.client.objects.length = state.client.objects.length →
      Along clientStep ClientState.Fits next later) :
    Along clientStep ClientState.Fits state (calls ++ later) := by
  obtain ⟨payload, found⟩ := dest
  have differs : handle ≠ 0 := by
    rintro rfl
    cases there.symm.trans found
  induction applies generalizing state mField sub strings payload with
  | returns =>
      obtain ⟨left, accounted'⟩ := clientStep_leaveIterator accounted there
      refine along_cons_of_step ⟨mField, there⟩ left (behind _ accounted' ⟨payload, ?_⟩ ?_)
      · exact (ClientMemory.object_set_of_ne differs).trans found
      · exact ClientMemory.length_set
  | gets getter later ih =>
      obtain ⟨next, stepped, accounted', kept, keeps', same⟩ :=
        clientStep_read accounted there keeps (applied getter List.mem_cons_self)
      refine along_cons_of_step ⟨none, mField, there, trivial⟩ stepped
        (ih accounted' ?_ keeps' (fun other member => applied other (List.mem_cons_of_mem _ member))
          (fun other path use member => updates other path use (List.mem_cons_of_mem _ member)) ?_
          payload ?_)
      · rw [same, ClientMemory.object_set_self there]
      · intro last accountedLast destLast length
        exact behind last accountedLast destLast (by rw [length, same, ClientMemory.length_set])
      · rw [same, ClientMemory.object_set_of_ne differs, found]
  | updates other path use later ih =>
      obtain ⟨rfl, rfl⟩ := updates other path use List.mem_cons_self
      have fits : state.Fits (.usePayload 0 [] use) := ⟨payload, found, trivial⟩
      obtain ⟨next, stepped, accounted', before, used, -, same⟩ :=
        clientStep_usePayload accounted fits
      refine along_cons_of_step fits stepped (ih accounted' ?_ keeps applied
        (fun other path use member => updates other path use (List.mem_cons_of_mem _ member)) ?_
        used ?_)
      · rw [same, ClientMemory.object_set_of_ne differs.symm, there]
      · intro last accountedLast destLast length
        exact behind last accountedLast destLast (by rw [length, same, ClientMemory.length_set])
      · rw [same, ClientMemory.object_set_self found]

/-- The state with one payload, the destination. -/
def withDestination : ClientState :=
  ((clientStep ClientState.start .createPayload).map Prod.snd).getD ClientState.start

/-- A call of `omnmmsgPayload_apply` with this message. The destination grows for what its fields
hand on, and so does its scratch buffer. -/
def applyCalls (handle : Nat) : List ClientCall :=
  [.useIterator handle (.read (.getMsg ⟨3, true, false⟩)), .usePayload 0 [] (.growPayload true 210),
    .useIterator handle (.read (.getVectorString false 16)), .usePayload 0 [] (.growScratch true 4),
    .usePayload 0 [] (.growPayload false 225), .leaveIterator handle]

theorem applyCalls_applies (handle : Nat) :
    Applies handle [.getMsg ⟨3, true, false⟩, .getVectorString false 16] (applyCalls handle) :=
  .gets _ (.updates _ _ _ (.gets _ (.updates _ _ _ (.updates _ _ _ .returns))))

theorem applyCalls_update_destination (handle other : Nat) (path : List KeptAt) (use : PayloadUse)
    (member : .usePayload other path use ∈ applyCalls handle) : other = 0 ∧ path = [] := by
  simp only [applyCalls, List.mem_cons, reduceCtorEq, ClientCall.usePayload.injEq,
    List.not_mem_nil, false_or, or_false] at member
  obtain ⟨first, whole, -⟩ | ⟨first, whole, -⟩ | ⟨first, whole, -⟩ := member <;>
    exact ⟨first, whole⟩

theorem along_applyCalls {state : ClientState} {later : List ClientCall}
    (accounted : state.Accounted) (dest : HasDestination state.client)
    (behind : ∀ next : ClientState, next.Accounted → HasDestination next.client →
      next.client.objects.length = state.client.objects.length + 1 →
      Along clientStep ClientState.Fits next later) :
    Along clientStep ClientState.Fits state
      (.initIterator :: (applyCalls state.client.objects.length ++ later)) := by
  obtain ⟨begun, accounted'⟩ := clientStep_initIterator accounted
  refine along_cons_of_step trivial begun ((applyCalls_applies _).along accounted' ?_
    ClientMemory.object_add FieldMemory.keepsOnly_none ?_ ?_ ?_)
  · obtain ⟨payload, found⟩ := dest
    exact ⟨payload, ClientMemory.object_add_of_some found⟩
  · simp [FieldGetter.Applied]
  · exact applyCalls_update_destination _
  · intro next accountedNext destNext length
    exact behind next accountedNext destNext (by rw [length, ClientMemory.length_add])

theorem messageWithStrings_getters :
    (omnmmsgPayload_applyGetters (fun _ => false) messageWithStrings.payload).result =
      some [.getMsg ⟨3, true, false⟩, .getVectorString false 16] := by
  decide +kernel

theorem messages_lose_six_blocks :
    run clientStep ClientState.start [.createPayload] = some ([()], withDestination) ∧
      ∃ outs last, run clientStep withDestination
          (.initIterator :: (applyCalls 1 ++ .initIterator :: (applyCalls 2 ++ []))) =
        some (outs, last) ∧ last.client.lost.card = 6 := by
  have gettable : ∀ update ∈ [messageWithStrings, messageWithStrings],
      ∀ entry ∈ update.entries, entry.Gettable := by
    simpa using messageWithStrings_gettable
  have accounted : withDestination.Accounted := rfl
  obtain ⟨gotten, read, loses⟩ := applied_messages_lose (fun _ => false)
    (.cons messageWithStrings_shown (.cons messageWithStrings_shown .nil)) gettable accounted
  obtain ⟨first, others, here, readRest, rfl⟩ := List.forall₂_cons_left_iff.mp read
  obtain ⟨second, nothing, here', readNothing, rfl⟩ := List.forall₂_cons_left_iff.mp readRest
  cases readNothing
  cases messageWithStrings_getters.symm.trans here
  cases messageWithStrings_getters.symm.trans here'
  have along : Along clientStep ClientState.Fits withDestination
      (.initIterator :: (applyCalls 1 ++ .initIterator :: (applyCalls 2 ++ []))) := by
    refine along_applyCalls accounted ⟨_, rfl⟩ ?_
    intro next accounted' dest length
    have second : next.client.objects.length = 2 := length
    rw [← second]
    exact along_applyCalls accounted' dest fun _ _ _ _ => trivial
  obtain ⟨outs, last, ran, -, lost⟩ := loses _
    (.cons (applyCalls_applies 1) (.cons (applyCalls_applies 2) (.nil 3))) along
  refine ⟨rfl, outs, last, ran, lost.trans ?_⟩
  decide

end Example

end Omnm
