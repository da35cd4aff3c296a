import Omnm.Payload.Lifecycle

/-!
# Who holds which block

Creation gives a payload its blocks, the getters and the calls on a payload
trade its blocks for those that it holds afterwards, and destruction gives up
all of them, each once (`PayloadMemory.trades_destroy`).
-/

set_option autoImplicit false

namespace Omnm

namespace PayloadMemory

/-! ### Destruction -/

theorem trades_freeHeld {Content : Type} (held : Held Content) :
    Trades held.blocks (freeHeld held) fun _ owned => owned = 0 := by
  cases held with
  | null => exact trades_pure rfl
  | block number content => exact trades_free number

/-- Two computations that give up what they are given. -/
theorem trades_both {first second : HeapAction Unit} {own rest : Multiset Block}
    (gives : Trades own first fun _ owned => owned = 0)
    (gives' : Trades rest second fun _ owned => owned = 0) :
    Trades (own + rest) (first >>= fun _ => second) fun _ owned => owned = 0 := by
  refine (gives.within _ rfl).bind ?_
  rintro - - ⟨-, rfl, rfl⟩
  rwa [zero_add]

theorem trades_destroyObjects (entries : List (Option Block)) :
    Trades (objectBlocks entries) (destroyObjects entries) fun _ owned => owned = 0 := by
  induction entries with
  | nil => exact trades_pure rfl
  | cons entry entries ih =>
      cases entry with
      | none => exact ih
      | some object => exact trades_both (trades_free object) ih

theorem trades_cleanupObjects (array : Held (List (Option Block))) :
    Trades (arrayBlocks array) (cleanupObjects array) fun _ owned => owned = 0 := by
  cases array with
  | null => exact trades_pure rfl
  | block number entries => exact trades_both (trades_destroyObjects entries) (trades_free number)

/-- A cleanup gives up what a field holds, if its payloads are given up. -/
theorem trades_cleanup_of {field : FieldMemory PayloadMemory}
    (sub : Trades (entryBlocks field.mSubPayload) (destroyPayload field.mSubPayload)
      fun _ owned => owned = 0)
    (array : Trades (payloadsBlocks field.mVectorPayload) (cleanupPayloads field.mVectorPayload)
      fun _ owned => owned = 0) :
    Trades (fieldBlocks field) (omnmmsgFieldPayloadImpl_cleanup field) fun _ owned => owned = 0 := by
  cases field with
  | mk mBuffer mSubPayload mVectorString mVectorPayload mVectorDateTime mVectorPrice =>
      rw [fieldBlocks, omnmmsgFieldPayloadImpl_cleanup]
      exact trades_both (trades_freeHeld _) (trades_both sub (trades_both (trades_freeHeld _)
        (trades_both array (trades_both (trades_cleanupObjects _) (trades_cleanupObjects _)))))

/-- So does the loop over an array of payloads. -/
theorem trades_cleanupPayloads_of {number : Block} {entries : List (Option PayloadMemory)}
    (destroys : Trades (entriesBlocks entries) (destroyPayloads entries) fun _ owned => owned = 0) :
    Trades (payloadsBlocks (.block number entries)) (cleanupPayloads (.block number entries))
      fun _ owned => owned = 0 := by
  rw [payloadsBlocks, cleanupPayloads]
  exact trades_both destroys (trades_free number)

theorem trades_destroyPayloads_cons {entry : Option PayloadMemory}
    {entries : List (Option PayloadMemory)}
    (destroys : Trades (entryBlocks entry) (destroyPayload entry) fun _ owned => owned = 0)
    (later : Trades (entriesBlocks entries) (destroyPayloads entries) fun _ owned => owned = 0) :
    Trades (entriesBlocks (entry :: entries)) (destroyPayloads (entry :: entries))
      fun _ owned => owned = 0 := by
  rw [entriesBlocks, destroyPayloads]
  exact trades_both destroys later

theorem trades_nothing :
    Trades (entryBlocks none) (destroyPayload none) (fun _ owned => owned = 0) ∧
      Trades (payloadsBlocks .null) (cleanupPayloads .null) (fun _ owned => owned = 0) ∧
      Trades (entriesBlocks []) (destroyPayloads []) (fun _ owned => owned = 0) := by
  rw [entryBlocks, destroyPayload, payloadsBlocks, cleanupPayloads, entriesBlocks, destroyPayloads]
  exact ⟨trades_pure rfl, trades_pure rfl, trades_pure rfl⟩

/-- Destruction gives up the blocks of a payload, each of them once, and no others. -/
theorem trades_destroy (payload : PayloadMemory) :
    Trades payload.blocks (omnmmsgPayload_destroy payload) fun _ owned => owned = 0 := by
  refine @PayloadMemory.rec
    (fun payload => Trades payload.blocks (omnmmsgPayload_destroy payload) fun _ owned => owned = 0)
    (fun field => Trades (fieldBlocks field) (omnmmsgFieldPayloadImpl_cleanup field)
      fun _ owned => owned = 0)
    (fun entry => Trades (entryBlocks entry) (destroyPayload entry) fun _ owned => owned = 0)
    (fun array => Trades (payloadsBlocks array) (cleanupPayloads array) fun _ owned => owned = 0)
    (fun entries => Trades (entriesBlocks entries) (destroyPayloads entries)
      fun _ owned => owned = 0) ?_ ?_ ?_ ?_ ?_ ?_ ?_ ?_ payload
  · intro object mPayloadBuffer mField cleans
    rw [blocks, omnmmsgPayload_destroy]
    exact trades_both (trades_freeHeld _) (trades_both cleans (trades_free object))
  · intro mBuffer mSubPayload mVectorString mVectorPayload mVectorDateTime mVectorPrice sub array
    exact trades_cleanup_of sub array
  · exact trades_nothing.1
  · intro payload destroys
    rw [entryBlocks, destroyPayload]
    exact destroys
  · exact trades_nothing.2.1
  · intro number entries destroys
    exact trades_cleanupPayloads_of destroys
  · exact trades_nothing.2.2
  · intro entry entries destroys later
    exact trades_destroyPayloads_cons destroys later

theorem trades_destroyPayload (entry : Option PayloadMemory) :
    Trades (entryBlocks entry) (destroyPayload entry) fun _ owned => owned = 0 := by
  cases entry with
  | none => exact trades_nothing.1
  | some payload =>
      rw [entryBlocks, destroyPayload]
      exact trades_destroy payload

/-- A cleanup gives up the blocks that a field holds, each of them once, and no others. -/
theorem trades_cleanup (field : FieldMemory PayloadMemory) :
    Trades (fieldBlocks field) (omnmmsgFieldPayloadImpl_cleanup field) fun _ owned => owned = 0 := by
  refine trades_cleanup_of (trades_destroyPayload _) ?_
  cases field.mVectorPayload with
  | null => exact trades_nothing.2.1
  | block number entries =>
      apply trades_cleanupPayloads_of
      induction entries with
      | nil => exact trades_nothing.2.2
      | cons entry entries ih => exact trades_destroyPayloads_cons (trades_destroyPayload entry) ih

/-! ### Creation and growth -/

/-- A payload with a buffer, whose field holds nothing. -/
def Bare : PayloadMemory → Prop
  | ⟨_, mPayloadBuffer, mField⟩ => mPayloadBuffer ≠ .null ∧ mField = FieldMemory.none

/-- No payload, or such a one. -/
def BareEntry (entry : Option PayloadMemory) : Prop := ∀ payload ∈ entry, payload.Bare

theorem trades_create : Trades 0 omnmmsgPayload_create fun payload owned =>
    owned = payload.blocks ∧ payload.Bare := by
  refine trades_alloc.bind ?_
  rintro object - rfl
  refine (trades_alloc.within {object} (zero_add _).symm).bind ?_
  rintro buffer - ⟨-, rfl, rfl⟩
  refine trades_pure ⟨?_, by simp, rfl⟩
  simp [blocks, fieldBlocks, FieldMemory.none, Held.blocks, entryBlocks, payloadsBlocks, arrayBlocks,
    Held.owns]

theorem trades_reallocate (moves : Bool) (old : Block) :
    Trades {old} (reallocate moves old) fun new owned => owned = {new} := by
  cases moves with
  | false => exact trades_pure rfl
  | true =>
      refine (trades_alloc.within {old} (zero_add _).symm).bind ?_
      rintro new - ⟨-, rfl, rfl⟩
      refine ((trades_free old).within _ (add_comm _ _)).bind ?_
      rintro - - ⟨-, rfl, rfl⟩
      exact trades_pure (zero_add _)

/-- A buffer stays NULL only while nothing is asked for. -/
theorem trades_growBuffer (moves : Bool) (newSize : Nat) (held : Held Nat) :
    Trades held.blocks (growBuffer moves newSize held) fun grown owned =>
      owned = grown.blocks ∧ (grown = .null ↔ held = .null ∧ newSize = 0) := by
  cases held with
  | null =>
      rw [growBuffer]
      split
      · rename_i nothing
        exact trades_pure ⟨rfl, by simp [nothing]⟩
      · rename_i some_size
        refine trades_alloc.bind ?_
        rintro new - rfl
        exact trades_pure ⟨rfl, by simp [some_size]⟩
  | block old size =>
      rw [growBuffer]
      split
      · exact trades_pure ⟨rfl, by simp⟩
      · refine (trades_reallocate moves old).bind ?_
        rintro new - rfl
        exact trades_pure ⟨rfl, by simp⟩

/-- An array grows by entries that hold nothing. -/
theorem trades_growArray {Entry : Type} {inner : List (Option Entry) → Multiset Block}
    (nothing : ∀ entries count, inner (entries ++ List.replicate count none) = inner entries)
    (empty : inner [] = 0) (moves : Bool) (count : Nat) (held : Held (List (Option Entry))) :
    Trades (held.owns inner) (growArray moves count held) fun grown owned =>
      owned = grown.owns inner ∧ count ≤ grown.entries.length ∧
        (grown = .null ↔ held = .null ∧ count = 0) := by
  cases held with
  | null =>
      rw [growArray]
      split
      · rename_i none
        exact trades_pure ⟨rfl, Nat.le_of_eq none, by simp [none]⟩
      · rename_i some_entries
        refine trades_alloc.bind ?_
        rintro new - rfl
        refine trades_pure ⟨?_, ?_, by simp [some_entries]⟩
        · rw [Held.owns, ← List.nil_append (List.replicate count none), nothing, empty, zero_add]
        · exact Nat.le_of_eq List.length_replicate.symm
  | block old entries =>
      rw [growArray]
      split
      · rename_i enough
        exact trades_pure ⟨rfl, enough, by simp⟩
      · refine ((trades_reallocate moves old).within _ (add_comm _ _)).bind ?_
        rintro new - ⟨-, rfl, rfl⟩
        refine trades_pure ⟨?_, ?_, by simp⟩
        · rw [Held.owns, nothing, add_comm]
        · rw [Held.entries, List.length_append, List.length_replicate]
          omega

/-- What is done to the entries of an array is done inside of it. -/
theorem trades_onEntries {Entry : Type} {inner : List (Option Entry) → Multiset Block}
    {change : List (Option Entry) → HeapAction (List (Option Entry))}
    {held : Held (List (Option Entry))}
    (trades : Trades (inner held.entries) (change held.entries) fun entries owned =>
      owned = inner entries) :
    Trades (held.owns inner) (FieldMemory.onEntries change held) fun changed owned =>
      owned = changed.owns inner ∧ (changed = .null ↔ held = .null) := by
  cases held with
  | null => exact trades_pure ⟨rfl, Iff.rfl⟩
  | block number entries =>
      refine (trades.within _ rfl).bind ?_
      rintro entries' - ⟨-, rfl, rfl⟩
      exact trades_pure ⟨rfl, by simp⟩

/-! ### Getters -/

variable (given : GivenBytes)

theorem trades_unSerialize (payload : PayloadMemory) :
    Trades payload.blocks (omnmmsgPayload_unSerialize given payload) fun filled owned =>
      owned = filled.blocks ∧ (payload.Bare → filled.Bare) := by
  cases payload with
  | mk object mPayloadBuffer mField =>
      rw [omnmmsgPayload_unSerialize]
      split
      · exact trades_pure ⟨rfl, id⟩
      · rw [blocks]
        refine ((trades_growBuffer _ _ mPayloadBuffer).within _ rfl).bind ?_
        rintro grown - ⟨-, ⟨rfl, same⟩, rfl⟩
        refine trades_pure ⟨by rw [blocks], ?_⟩
        rintro ⟨buffer, nothing⟩
        exact ⟨fun null => buffer (same.mp null).1, nothing⟩

theorem trades_setByteBuffer (payload : PayloadMemory) :
    Trades payload.blocks (omnmmsgPayload_setByteBuffer given payload) fun filled owned =>
      owned = filled.blocks ∧ (payload.Bare → filled.Bare) := by
  rw [omnmmsgPayload_setByteBuffer]
  split
  · exact trades_pure ⟨rfl, id⟩
  · exact trades_unSerialize given payload

theorem trades_createFromByteBuffer :
    Trades 0 (omnmmsgPayload_createFromByteBuffer given) fun created owned =>
      owned = entryBlocks created ∧ (created = none ↔ given.length = 0) ∧ BareEntry created := by
  rw [omnmmsgPayload_createFromByteBuffer]
  split
  · rename_i nothing
    exact trades_pure ⟨by rw [entryBlocks], by simp [nothing], by simp [BareEntry]⟩
  · rename_i some_bytes
    refine trades_create.bind ?_
    rintro created - ⟨rfl, bare⟩
    refine (trades_unSerialize given created).bind ?_
    rintro filled - ⟨rfl, still⟩
    exact trades_pure ⟨by rw [entryBlocks], by simp [some_bytes], by simpa [BareEntry] using still bare⟩

theorem trades_fillSubPayload (entry : Option PayloadMemory) :
    Trades (entryBlocks entry) (FieldMemory.fillSubPayload given entry) fun filled owned =>
      owned = entryBlocks filled ∧ (filled = none ↔ entry = none ∧ given.length = 0) ∧
        (BareEntry entry → BareEntry filled) := by
  cases entry with
  | none =>
      rw [entryBlocks]
      refine (trades_createFromByteBuffer given).mono ?_
      rintro created owned ⟨due, nothing, bare⟩
      exact ⟨due, by simp [nothing], fun _ => bare⟩
  | some payload =>
      rw [entryBlocks, FieldMemory.fillSubPayload]
      refine (trades_setByteBuffer given payload).bind ?_
      rintro filled - ⟨rfl, still⟩
      exact trades_pure ⟨by rw [entryBlocks], by simp, by simpa [BareEntry] using still⟩

theorem trades_fillSubPayloads {messages : List GivenBytes} {entries : List (Option PayloadMemory)}
    (enough : messages.length ≤ entries.length) :
    Trades (entriesBlocks entries) (FieldMemory.fillSubPayloads messages entries)
      fun filled owned => owned = entriesBlocks filled := by
  induction messages generalizing entries with
  | nil =>
      rw [FieldMemory.fillSubPayloads]
      exact trades_pure rfl
  | cons given messages ih =>
      cases entries with
      | nil => cases enough
      | cons entry entries =>
          rw [FieldMemory.fillSubPayloads, entriesBlocks]
          refine ((trades_fillSubPayload given entry).within _ rfl).bind ?_
          rintro filled - ⟨-, ⟨rfl, -⟩, rfl⟩
          refine ((ih (Nat.le_of_succ_le_succ enough)).within _ (add_comm _ _)).bind ?_
          rintro later - ⟨-, rfl, rfl⟩
          exact trades_pure (by rw [entriesBlocks, add_comm])

theorem trades_createObjects {count : Nat} {entries : List (Option Block)}
    (enough : count ≤ entries.length) :
    Trades (objectBlocks entries) (FieldMemory.createObjects count entries)
      fun filled owned => owned = objectBlocks filled := by
  induction count generalizing entries with
  | zero => exact trades_pure rfl
  | succ count ih =>
      cases entries with
      | nil => cases enough
      | cons entry entries =>
          have later := ih (Nat.le_of_succ_le_succ enough)
          cases entry with
          | none =>
              rw [FieldMemory.createObjects, objectBlocks]
              refine (trades_alloc.within _ (zero_add _).symm).bind ?_
              rintro object - ⟨-, rfl, rfl⟩
              refine (later.within _ (add_comm _ _)).bind ?_
              rintro filled - ⟨-, rfl, rfl⟩
              exact trades_pure (by rw [objectBlocks, add_comm])
          | some object =>
              rw [FieldMemory.createObjects, objectBlocks]
              refine (later.within _ (add_comm _ _)).bind ?_
              rintro filled - ⟨-, rfl, rfl⟩
              exact trades_pure (by rw [objectBlocks, add_comm])

theorem objectBlocks_nulls (entries : List (Option Block)) (count : Nat) :
    objectBlocks (entries ++ List.replicate count none) = objectBlocks entries := by
  induction entries with
  | nil =>
      induction count with
      | zero => rfl
      | succ count ih => exact ih
  | cons entry entries ih =>
      cases entry with
      | none => exact ih
      | some object => rw [List.cons_append, objectBlocks, objectBlocks, ih]

theorem entriesBlocks_nulls (entries : List (Option PayloadMemory)) (count : Nat) :
    entriesBlocks (entries ++ List.replicate count none) = entriesBlocks entries := by
  induction entries with
  | nil =>
      induction count with
      | zero => rfl
      | succ count ih =>
          rw [List.nil_append, List.replicate_succ]
          simp only [entriesBlocks, entryBlocks, zero_add] at ih ⊢
          exact ih
  | cons entry entries ih => rw [List.cons_append, entriesBlocks, entriesBlocks, ih]

theorem payloadsBlocks_eq (array : Held (List (Option PayloadMemory))) :
    payloadsBlocks array = array.owns entriesBlocks := by
  cases array with
  | null => rw [payloadsBlocks, Held.owns]
  | block number entries => rw [payloadsBlocks, Held.owns]

end PayloadMemory

open PayloadMemory

/-! ### Fields -/

/-- The getter asks for nothing that the field would have to keep. -/
def FieldGetter.KeepsNothing : FieldGetter → Prop
  | .getMsg given => given.length = 0
  | .getVectorString _ size => size = 0
  | .getVectorDateTime _ count => count = 0
  | .getVectorPrice _ count => count = 0
  | .getVectorMsg _ messages => messages = []

theorem objectBlocks_empty : objectBlocks [] = 0 := rfl

theorem entriesBlocks_empty : entriesBlocks [] = 0 := by rw [entriesBlocks]

/-- The arrays of date-times and of prices grow, and what is NULL is created. -/
theorem trades_createArray (moves : Bool) (count : Nat) (held : Held (List (Option Block))) :
    Trades (arrayBlocks held) (FieldMemory.createArray moves count held) fun array owned =>
      owned = arrayBlocks array ∧ (array = .null ↔ held = .null ∧ count = 0) := by
  refine (trades_growArray objectBlocks_nulls objectBlocks_empty moves count held).bind ?_
  rintro grown - ⟨rfl, enough, nothing⟩
  refine (trades_onEntries (trades_createObjects enough)).mono ?_
  rintro array owned ⟨due, same⟩
  exact ⟨due, same.trans nothing⟩

/-- So does the array of payloads, which are filled. -/
theorem trades_fillArray (moves : Bool) (messages : List GivenBytes)
    (held : Held (List (Option PayloadMemory))) :
    Trades (payloadsBlocks held) (FieldMemory.fillArray moves messages held) fun array owned =>
      owned = payloadsBlocks array ∧ (array = .null ↔ held = .null ∧ messages = []) := by
  simp only [payloadsBlocks_eq]
  refine (trades_growArray entriesBlocks_nulls entriesBlocks_empty moves messages.length held).bind ?_
  rintro grown - ⟨rfl, enough, nothing⟩
  refine (trades_onEntries (trades_fillSubPayloads enough)).mono ?_
  rintro array owned ⟨due, same⟩
  rw [List.length_eq_zero_iff] at nothing
  exact ⟨due, same.trans nothing⟩

section

variable (mField : FieldMemory PayloadMemory)

/-! Each member of a field holds its blocks beside those of the others. -/

theorem exists_rest_mBuffer :
    ∃ rest, ∀ mBuffer, fieldBlocks { mField with mBuffer } = mBuffer.blocks + rest := by
  refine ⟨entryBlocks mField.mSubPayload + (mField.mVectorString.blocks +
      (payloadsBlocks mField.mVectorPayload + (arrayBlocks mField.mVectorDateTime +
      arrayBlocks mField.mVectorPrice))), ?_⟩
  intro mBuffer
  rw [fieldBlocks]

theorem exists_rest_mSubPayload :
    ∃ rest, ∀ mSubPayload,
      fieldBlocks { mField with mSubPayload } = entryBlocks mSubPayload + rest := by
  refine ⟨mField.mBuffer.blocks + (mField.mVectorString.blocks +
      (payloadsBlocks mField.mVectorPayload + (arrayBlocks mField.mVectorDateTime +
      arrayBlocks mField.mVectorPrice))), ?_⟩
  intro mSubPayload
  simp only [fieldBlocks]
  ac_rfl

theorem exists_rest_mVectorString :
    ∃ rest, ∀ mVectorString,
      fieldBlocks { mField with mVectorString } = mVectorString.blocks + rest := by
  refine ⟨mField.mBuffer.blocks + (entryBlocks mField.mSubPayload +
      (payloadsBlocks mField.mVectorPayload + (arrayBlocks mField.mVectorDateTime +
      arrayBlocks mField.mVectorPrice))), ?_⟩
  intro mVectorString
  simp only [fieldBlocks]
  ac_rfl

theorem exists_rest_mVectorPayload :
    ∃ rest, ∀ mVectorPayload,
      fieldBlocks { mField with mVectorPayload } = payloadsBlocks mVectorPayload + rest := by
  refine ⟨mField.mBuffer.blocks + (entryBlocks mField.mSubPayload + (mField.mVectorString.blocks +
      (arrayBlocks mField.mVectorDateTime + arrayBlocks mField.mVectorPrice))), ?_⟩
  intro mVectorPayload
  simp only [fieldBlocks]
  ac_rfl

theorem exists_rest_mVectorDateTime :
    ∃ rest, ∀ mVectorDateTime,
      fieldBlocks { mField with mVectorDateTime } = arrayBlocks mVectorDateTime + rest := by
  refine ⟨mField.mBuffer.blocks + (entryBlocks mField.mSubPayload + (mField.mVectorString.blocks +
      (payloadsBlocks mField.mVectorPayload + arrayBlocks mField.mVectorPrice))), ?_⟩
  intro mVectorDateTime
  simp only [fieldBlocks]
  ac_rfl

theorem exists_rest_mVectorPrice :
    ∃ rest, ∀ mVectorPrice,
      fieldBlocks { mField with mVectorPrice } = arrayBlocks mVectorPrice + rest := by
  refine ⟨mField.mBuffer.blocks + (entryBlocks mField.mSubPayload + (mField.mVectorString.blocks +
      (payloadsBlocks mField.mVectorPayload + arrayBlocks mField.mVectorDateTime))), ?_⟩
  intro mVectorPrice
  simp only [fieldBlocks]
  ac_rfl

end

/-- A getter trades the blocks of a field, which holds nothing afterwards only if it held nothing
and the getter keeps nothing. -/
theorem trades_getter (getter : FieldGetter) (mField : FieldMemory PayloadMemory) :
    Trades (fieldBlocks mField) (getter.perform mField) fun kept owned =>
      owned = fieldBlocks kept ∧
        (kept = FieldMemory.none ↔ mField = FieldMemory.none ∧ getter.KeepsNothing) := by
  -- each getter works on one member
  cases getter with
  | getMsg given =>
      obtain ⟨rest, split⟩ := exists_rest_mSubPayload mField
      refine ((trades_fillSubPayload given mField.mSubPayload).within rest (split _)).bind ?_
      rintro filled - ⟨-, ⟨rfl, nothing, -⟩, rfl⟩
      refine trades_pure ⟨(split filled).symm, ?_⟩
      cases mField
      simp only [FieldMemory.none, FieldMemory.mk.injEq, nothing, FieldGetter.KeepsNothing]
      tauto
  | getVectorString moves size =>
      obtain ⟨rest, split⟩ := exists_rest_mVectorString mField
      refine ((trades_growBuffer moves size mField.mVectorString).within rest (split _)).bind ?_
      rintro grown - ⟨-, ⟨rfl, nothing⟩, rfl⟩
      refine trades_pure ⟨(split grown).symm, ?_⟩
      cases mField
      simp only [FieldMemory.none, FieldMemory.mk.injEq, nothing, FieldGetter.KeepsNothing]
      tauto
  | getVectorDateTime moves count =>
      obtain ⟨rest, split⟩ := exists_rest_mVectorDateTime mField
      refine ((trades_createArray moves count mField.mVectorDateTime).within rest (split _)).bind ?_
      rintro array - ⟨-, ⟨rfl, nothing⟩, rfl⟩
      refine trades_pure ⟨(split array).symm, ?_⟩
      cases mField
      simp only [FieldMemory.none, FieldMemory.mk.injEq, nothing, FieldGetter.KeepsNothing]
      tauto
  | getVectorPrice moves count =>
      obtain ⟨rest, split⟩ := exists_rest_mVectorPrice mField
      refine ((trades_createArray moves count mField.mVectorPrice).within rest (split _)).bind ?_
      rintro array - ⟨-, ⟨rfl, nothing⟩, rfl⟩
      refine trades_pure ⟨(split array).symm, ?_⟩
      cases mField
      simp only [FieldMemory.none, FieldMemory.mk.injEq, nothing, FieldGetter.KeepsNothing]
      tauto
  | getVectorMsg moves messages =>
      obtain ⟨rest, split⟩ := exists_rest_mVectorPayload mField
      refine ((trades_fillArray moves messages mField.mVectorPayload).within rest (split _)).bind ?_
      rintro array - ⟨-, ⟨rfl, nothing⟩, rfl⟩
      refine trades_pure ⟨(split array).symm, ?_⟩
      cases mField
      simp only [FieldMemory.none, FieldMemory.mk.injEq, nothing, FieldGetter.KeepsNothing]
      tauto

/-! ### Payloads -/

/-- A call on a payload trades its blocks. -/
theorem trades_use (use : PayloadUse) (payload : PayloadMemory) :
    Trades payload.blocks (use.perform payload) fun used owned => owned = used.blocks := by
  cases payload with
  | mk object mPayloadBuffer mField =>
      cases use with
      | growPayload moves newSize =>
          rw [blocks]
          refine ((trades_growBuffer moves newSize mPayloadBuffer).within _ rfl).bind ?_
          rintro grown - ⟨-, ⟨rfl, -⟩, rfl⟩
          exact trades_pure (by rw [blocks])
      | unSerialize given => exact (trades_unSerialize given _).mono fun _ _ due => due.1
      | growScratch moves newSize =>
          obtain ⟨rest, split⟩ := exists_rest_mBuffer mField
          have whole : blocks ⟨object, mPayloadBuffer, mField⟩ =
              mField.mBuffer.blocks + (mPayloadBuffer.blocks + (rest + {object})) := by
            rw [blocks, show fieldBlocks mField = _ from split mField.mBuffer]
            ac_rfl
          refine ((trades_growBuffer moves newSize mField.mBuffer).within _ whole).bind ?_
          rintro grown - ⟨-, ⟨rfl, -⟩, rfl⟩
          refine trades_pure ?_
          rw [blocks, split grown]
          ac_rfl
      | read getter =>
          rw [blocks]
          refine ((trades_getter getter mField).within _ (add_left_comm _ _ _)).bind ?_
          rintro kept - ⟨-, ⟨rfl, -⟩, rfl⟩
          exact trades_pure (by rw [blocks, add_left_comm])

/-! ### Payloads that fields keep -/

/-- A payload that a field keeps. -/
def FieldMemory.kept (mField : FieldMemory PayloadMemory) : KeptAt → Option PayloadMemory
  | .mSubPayload => mField.mSubPayload
  | .mVectorPayload index => (mField.mVectorPayload.entries[index]?).join

/-- A payload is reached through the fields of others. -/
def PayloadMemory.Reaches : List KeptAt → PayloadMemory → Prop
  | [], _ => True
  | kept :: path, ⟨_, _, mField⟩ =>
      ∃ payload, mField.kept kept = some payload ∧ payload.Reaches path

theorem trades_onElement {change : PayloadMemory → HeapAction PayloadMemory}
    {entries : List (Option PayloadMemory)} {index : Nat} {payload : PayloadMemory}
    (there : (entries[index]?).join = some payload)
    (trades : Trades payload.blocks (change payload) fun changed owned => owned = changed.blocks) :
    Trades (entriesBlocks entries) (onElement change index entries) fun changed owned =>
      owned = entriesBlocks changed := by
  induction entries generalizing index with
  | nil => simp at there
  | cons entry entries ih =>
      cases index with
      | zero =>
          obtain rfl : entry = some payload := by simpa using there
          rw [entriesBlocks, entryBlocks]
          refine (trades.within _ rfl).bind ?_
          rintro changed - ⟨-, rfl, rfl⟩
          exact trades_pure (by rw [entriesBlocks, entryBlocks])
      | succ index =>
          rw [List.getElem?_cons_succ] at there
          rw [entriesBlocks, onElement]
          refine ((ih there).within _ (add_comm _ _)).bind ?_
          rintro changed - ⟨-, rfl, rfl⟩
          exact trades_pure (by rw [entriesBlocks, add_comm])

/-- A call on a payload that a field keeps trades blocks of the field, which holds some still. -/
theorem trades_onKept {mField : FieldMemory PayloadMemory}
    {change : PayloadMemory → HeapAction PayloadMemory} {kept : KeptAt} {payload : PayloadMemory}
    (there : mField.kept kept = some payload)
    (trades : Trades payload.blocks (change payload) fun changed owned => owned = changed.blocks) :
    Trades (fieldBlocks mField) (mField.onKept change kept) fun changed owned =>
      owned = fieldBlocks changed ∧ mField ≠ FieldMemory.none ∧ changed ≠ FieldMemory.none := by
  cases kept with
  | mSubPayload =>
      have held : mField.mSubPayload = some payload := there
      obtain ⟨rest, split⟩ := exists_rest_mSubPayload mField
      have whole : fieldBlocks mField = payload.blocks + rest := by
        rw [show fieldBlocks mField = _ from split mField.mSubPayload, held, entryBlocks]
      rw [FieldMemory.onKept, held]
      refine (trades.within rest whole).bind ?_
      rintro changed - ⟨-, rfl, rfl⟩
      refine trades_pure ⟨by rw [split, entryBlocks], ?_, ?_⟩
      · rintro rfl
        cases held
      · simp [FieldMemory.none]
  | mVectorPayload index =>
      obtain ⟨rest, split⟩ := exists_rest_mVectorPayload mField
      cases held : mField.mVectorPayload with
      | null => simp [FieldMemory.kept, held, Held.entries] at there
      | block number entries =>
          have found : (entries[index]?).join = some payload := by
            simpa only [FieldMemory.kept, held, Held.entries] using there
          have whole : fieldBlocks mField = entriesBlocks entries + ({number} + rest) := by
            rw [show fieldBlocks mField = _ from split mField.mVectorPayload, held, payloadsBlocks,
              add_assoc]
          rw [FieldMemory.onKept, held]
          refine ((trades_onElement found trades).within _ whole).bind ?_
          rintro changed - ⟨-, rfl, rfl⟩
          refine trades_pure ⟨by rw [split, payloadsBlocks, add_assoc], ?_, ?_⟩
          · rintro rfl
            cases held
          · simp [FieldMemory.none]

/-- So does a call on a payload that is reached through several fields. -/
theorem trades_onPath {change : PayloadMemory → HeapAction PayloadMemory} {path : List KeptAt}
    {payload : PayloadMemory} (reaches : payload.Reaches path)
    (trades : ∀ payload, Trades payload.blocks (change payload) fun changed owned =>
      owned = changed.blocks) :
    Trades payload.blocks (payload.onPath change path) fun changed owned =>
      owned = changed.blocks := by
  induction path generalizing payload with
  | nil => exact trades payload
  | cons kept path ih =>
      cases payload with
      | mk object mPayloadBuffer mField =>
          obtain ⟨inner, there, further⟩ := reaches
          rw [blocks, onPath]
          refine ((trades_onKept there (ih further)).within _ (add_left_comm _ _ _)).bind ?_
          rintro changed - ⟨-, ⟨rfl, -⟩, rfl⟩
          exact trades_pure (by rw [blocks, add_left_comm])

/-! ### Calls through fields -/

/-- Only a field that holds nothing holds no block. -/
theorem fieldBlocks_eq_zero_iff {mField : FieldMemory PayloadMemory} :
    fieldBlocks mField = 0 ↔ mField = FieldMemory.none := by
  cases mField with
  | mk mBuffer mSubPayload mVectorString mVectorPayload mVectorDateTime mVectorPrice =>
      have held : ∀ {Content : Type} (pointer : Held Content),
          pointer.blocks = 0 ↔ pointer = .null := by
        intro Content pointer
        cases pointer <;> simp [Held.blocks]
      have array : ∀ {Content : Type} (inner : Content → Multiset Block) (pointer : Held Content),
          pointer.owns inner = 0 ↔ pointer = .null := by
        intro Content inner pointer
        cases pointer <;> simp [Held.owns]
      have entry : entryBlocks mSubPayload = 0 ↔ mSubPayload = none := by
        cases mSubPayload with
        | none => simp [entryBlocks]
        | some payload =>
            cases payload
            simp [entryBlocks, blocks]
      simp only [fieldBlocks, add_eq_zero, FieldMemory.none, FieldMemory.mk.injEq, held, array,
        entry, payloadsBlocks_eq, arrayBlocks]

/-- A new field, or one of a new iterator, holds nothing. -/
theorem trades_createField : Trades 0 FieldMemory.create fun created owned =>
    owned = fieldBlocks created.2 + {created.1} ∧ created.2 = FieldMemory.none := by
  refine trades_alloc.bind ?_
  rintro block - rfl
  refine trades_pure ⟨?_, rfl⟩
  rw [fieldBlocks_eq_zero_iff.mpr rfl, zero_add]

theorem trades_destroyField (block : Block) (mField : FieldMemory PayloadMemory) :
    Trades (fieldBlocks mField + {block}) (FieldMemory.omnmmsgFieldPayload_destroy block mField)
      fun _ owned => owned = 0 :=
  trades_both (trades_cleanup mField) (trades_free block)

/-- A call is possible through a field. -/
def FieldUse.Fits (mField : FieldMemory PayloadMemory) : FieldUse → Prop
  | .read _ => True
  | .onPayload kept path _ => ∃ payload, mField.kept kept = some payload ∧ payload.Reaches path

/-- The call asks for nothing that the field would have to keep. A payload that the field keeps
already is not asked for. -/
def FieldUse.KeepsNothing : FieldUse → Prop
  | .read getter => getter.KeepsNothing
  | .onPayload _ _ _ => True

/-- A call through a field trades the blocks that the field holds. -/
theorem trades_fieldUse {mField : FieldMemory PayloadMemory} {use : FieldUse}
    (fits : use.Fits mField) :
    Trades (fieldBlocks mField) (use.perform mField) fun kept owned =>
      owned = fieldBlocks kept ∧
        (kept = FieldMemory.none ↔ mField = FieldMemory.none ∧ use.KeepsNothing) := by
  cases use with
  | read getter => exact trades_getter getter mField
  | onPayload kept path use =>
      obtain ⟨payload, there, reaches⟩ := fits
      refine (trades_onKept there (trades_onPath reaches (trades_use use))).mono ?_
      rintro changed owned ⟨due, before, after⟩
      exact ⟨due, iff_of_false after fun nothing => before nothing.1⟩

end Omnm
