import Omnm.Wire.FieldCalls
import Omnm.Wire.Handovers

/-!
# Applying a message, field by field

`omnmmsgPayload_apply` updates the destination with the fields of the source,
one after another (`apply_takes_over`), provided that every field comes over
unharmed (`FieldEntry.ComesOver`): it is passed over and would change nothing, or
it goes by its own name, its getter reads what is there, its data are handed on
as they are, and there is room for them. Where all fields are new to the
destination, the first field that does not come over is missed when the source
ends with it (`comesOver_of_apply`).

Otherwise a field need not be taken over. The name of an earlier field is used
for a later field that has none (`apply_keeps_stale_name`).
-/

set_option autoImplicit false

namespace Omnm

open FieldTypeTags (tag)
open OmnmPayloadImpl

/-- Fields without a name come in front of the fields with a name. -/
def NamelessFirst (entries : List FieldEntry) : Prop :=
  entries.Pairwise fun earlier later =>
    later.name = CString.empty → earlier.name = CString.empty

section

variable [FieldTypeTags]

/-- Every field, taken over after those in front of it, meets no field under its key or
one of its type. -/
def SameTypes : Message → List FieldEntry → Prop
  | _, [] => True
  | message, entry :: entries =>
      (∀ found, message.find entry.nameArgument entry.fid = some found →
        found.type = entry.type) ∧ SameTypes (message.applyEntry entry) entries

/-- A field that an update does not match stays. -/
theorem mem_applyEntry {message : Message} {entry other : FieldEntry}
    (member : entry ∈ message.entries)
    (unmatched : entry.hasKey other.nameArgument other.fid = false) :
    entry ∈ (message.applyEntry other).entries := by
  rcases message.applyEntry_cases other with same | ⟨listed, fits, added⟩ | replaced
  · rw [same]
    exact member
  · rw [added, message.addField_eq _ _ listed fits]
    split
    · exact member
    · exact List.mem_append_left _ member
  · rw [replaced]
    exact mem_updateFirst_of_not_match unmatched member

theorem mem_foldl_applyEntry {message : Message} {entry : FieldEntry} {others : List FieldEntry}
    (member : entry ∈ message.entries)
    (unmatched : ∀ other ∈ others, entry.hasKey other.nameArgument other.fid = false) :
    entry ∈ (others.foldl Message.applyEntry message).entries := by
  induction others generalizing message with
  | nil => exact member
  | cons other others ih =>
      exact ih (mem_applyEntry member (unmatched other (List.mem_cons_self ..)))
        fun later among => unmatched later (List.mem_cons_of_mem _ among)

/-- Every field, taken over after those in front of it, is added behind the fields there are. -/
def AllAdded : Message → List FieldEntry → Prop
  | _, [] => True
  | message, entry :: entries =>
      (message.applyEntry entry).entries = message.entries ++ [entry] ∧
        AllAdded (message.applyEntry entry) entries

instance decidableAllAdded : ∀ message entries, Decidable (AllAdded message entries)
  | _, [] => .isTrue trivial
  | message, entry :: entries =>
      have := decidableAllAdded (message.applyEntry entry) entries
      inferInstanceAs (Decidable (_ ∧ _))

/-- A source whose fields are all new: each is added behind the fields of the destination and
those in front of it, a sub-message is long enough for a header, and all that is below 2 GiB. -/
structure Message.AllNew (message source : Message) : Prop where
  added : AllAdded message source.entries
  header : ∀ entry ∈ source.entries, entry.type = tag .msg → 3 ≤ entry.data.length
  small : message.encode.length + source.encode.length < 2 ^ 31

/-! ## The condition -/

/-- A sub-message is kept behind the fields. -/
def HoldsMessage (fields : List FieldEntry) : Prop := ∃ entry ∈ fields, entry.LeavesMessage

/-- An array of strings is kept behind the fields, and the destination, which started with some
bytes in its scratch buffer, has some there. -/
def HoldsArray (scratch : List UInt8) (fields : List FieldEntry) : Prop :=
  (∃ entry ∈ fields, entry.LeavesStrings) ∧
    (scratch ≠ [] ∨ ∃ entry ∈ fields, entry.LeavesScratch)

instance (fields : List FieldEntry) : Decidable (HoldsMessage fields) :=
  inferInstanceAs (Decidable (∃ entry ∈ fields, entry.LeavesMessage))

instance (scratch : List UInt8) (fields : List FieldEntry) :
    Decidable (HoldsArray scratch fields) :=
  inferInstanceAs (Decidable ((∃ entry ∈ fields, entry.LeavesStrings) ∧
    (scratch ≠ [] ∨ ∃ entry ∈ fields, entry.LeavesScratch)))

/-- A field comes over unharmed behind the fields `before` it. Either it is passed over, and an
update with it would change nothing. Or it goes by its own name, its getter reads what is there, and
if it has a key, its data are handed on as they are and there is room for them. -/
def FieldEntry.ComesOver (scratch behind : List UInt8) (before : List FieldEntry)
    (message : Message) (entry : FieldEntry) : Prop :=
  (entry.PassedOver (HoldsMessage before) (HoldsArray scratch before) ∧
      message.applyEntry entry = message) ∨
    ((entry.name = CString.empty → carriedName before = none) ∧ entry.Readable behind ∧
      (¬ entry.Keyless → entry.Faithful (HoldsArray scratch before) behind ∧
        message.HasRoom entry.nameArgument entry.fid entry.data))

/-- Every field that is ahead comes over unharmed to the message that took over those in front of
it. -/
def AllComeOver (scratch slack : List UInt8) : List FieldEntry → Message → List FieldEntry → Prop
  | _, _, [] => True
  | before, message, entry :: entries =>
      entry.ComesOver scratch (encodeAll entries ++ slack) before message ∧
        AllComeOver scratch slack (before ++ [entry]) (message.applyEntry entry) entries

deriving instance DecidableEq for Message

instance (scratch behind : List UInt8) (before : List FieldEntry) (message : Message)
    (entry : FieldEntry) : Decidable (entry.ComesOver scratch behind before message) :=
  inferInstanceAs (Decidable (_ ∨ _))

instance decidableAllComeOver (scratch slack : List UInt8) :
    ∀ before message entries, Decidable (AllComeOver scratch slack before message entries)
  | _, _, [] => .isTrue trivial
  | before, message, entry :: entries =>
      have := decidableAllComeOver scratch slack (before ++ [entry]) (message.applyEntry entry) entries
      inferInstanceAs (Decidable (_ ∧ _))

omit [FieldTypeTags] in
theorem exists_concat {holds : FieldEntry → Prop} (before : List FieldEntry) (entry : FieldEntry) :
    (∃ other ∈ before ++ [entry], holds other) ↔ (∃ other ∈ before, holds other) ∨ holds entry := by
  simp [or_and_right, exists_or]

/-- New fields are substantial. -/
theorem substantial_of_allAdded {message : Message} {entries : List FieldEntry}
    (added : AllAdded message entries)
    (header : ∀ entry ∈ entries, entry.type = tag .msg → 3 ≤ entry.data.length)
    (short : ∀ entry ∈ entries, entry.data.length < 2 ^ 32) :
    ∀ entry ∈ entries, entry.Substantial := by
  intro entry member
  induction entries generalizing message with
  | nil => cases member
  | cons first rest ih =>
      rcases List.mem_cons.mp member with rfl | later
      · exact FieldEntry.substantial_of_added added.1 (header _ List.mem_cons_self)
          (short _ List.mem_cons_self)
      · exact ih added.2 (fun other among => header other (List.mem_cons_of_mem _ among))
          (fun other among => short other (List.mem_cons_of_mem _ among)) later

omit [FieldTypeTags] in
/-- Nothing is carried from fields without a name. -/
theorem carriedName_of_nameless {fields : List FieldEntry}
    (nameless : ∀ entry ∈ fields, entry.name = CString.empty) : carriedName fields = none := by
  induction fields using List.reverseRecOn with
  | nil => rfl
  | append_singleton before entry ih =>
      rw [carriedName_concat, FieldEntry.nameArgument_of_unnamed (nameless entry (by simp)),
        Option.none_or, ih fun other member => nameless other (List.mem_append_left _ member)]

/-- Fields that are handed on whatever stands around them come over below 2 GiB, if those without a
name stand in front. -/
theorem allComeOver_of_transferable {scratch slack : List UInt8} {entries before : List FieldEntry}
    {message : Message} (fits : AllFit entries) (transferable : ∀ entry ∈ entries, entry.Transferable)
    (names : NamelessFirst (before ++ entries))
    (small : message.encode.length + (encodeAll entries).length < 2 ^ 31) :
    AllComeOver scratch slack before message entries := by
  induction entries generalizing before message with
  | nil => trivial
  | cons entry entries ih =>
      have first := List.mem_cons_self (a := entry) (l := entries)
      have faithful : entry.Faithful (HoldsArray scratch before) (encodeAll entries ++ slack) :=
        (transferable entry first).faithful
      have listed := faithful.listed
      have longer := message.length_applyEntry_le entry
      rw [encodeAll_cons, List.length_append] at small
      refine ⟨.inr ⟨fun unnamed => ?_, faithful.readable, fun keyed => ⟨faithful, ?_⟩⟩, ?_⟩
      · apply carriedName_of_nameless
        intro other member
        exact (List.pairwise_append.mp names).2.2 other member entry first unnamed
      · have room : (message.applyEntry entry).encode.length < 2 ^ 31 := by omega
        rw [Message.applyEntry_of_proper listed (fits entry first)] at room
        exact Represents.hasRoom_of_small (by omega) room
      · apply ih (fun other member => fits other (List.mem_cons_of_mem _ member))
          (fun other member => transferable other (List.mem_cons_of_mem _ member))
        · rwa [List.append_assoc]
        · omega

theorem allAdded_append {message : Message} {front back : List FieldEntry} :
    AllAdded message (front ++ back) ↔
      AllAdded message front ∧ AllAdded (front.foldl Message.applyEntry message) back := by
  induction front generalizing message with
  | nil => simp [AllAdded]
  | cons entry entries ih => simp [AllAdded, ih, and_assoc]

theorem sameTypes_append {message : Message} {front back : List FieldEntry} :
    SameTypes message (front ++ back) ↔
      SameTypes message front ∧ SameTypes (front.foldl Message.applyEntry message) back := by
  induction front generalizing message with
  | nil => simp [SameTypes]
  | cons entry entries ih => simp [SameTypes, ih, and_assoc]

theorem allComeOver_append {scratch slack : List UInt8} {before front back : List FieldEntry}
    {message : Message} :
    AllComeOver scratch slack before message (front ++ back) ↔
      AllComeOver scratch (encodeAll back ++ slack) before message front ∧
        AllComeOver scratch slack (before ++ front) (front.foldl Message.applyEntry message)
          back := by
  induction front generalizing before message with
  | nil => simp [AllComeOver]
  | cons entry entries ih => simp [AllComeOver, ih, and_assoc]

/-! ## One round -/

/-- The state of the loop once it took fields over. -/
structure ApplyState.TookOver (src : OmnmPayloadImpl) (scratch : List UInt8)
    (before : List FieldEntry) (message : Message) (state : ApplyState) : Prop where
  represents : state.dest.Represents message
  name : (loadStringArgument src state.name).result = some (carriedName before)
  scratch : state.dest.mBuffer = [] ↔ scratch = [] ∧ ¬ ∃ entry ∈ before, entry.LeavesScratch
  sub : state.results.mSubPayload = none ↔ ¬ HoldsMessage before
  strings : state.results.mVectorString = [] ↔ ¬ ∃ entry ∈ before, entry.LeavesStrings

theorem ApplyState.TookOver.start {src dest : OmnmPayloadImpl} {message : Message}
    (destination : dest.Represents message) :
    ApplyState.TookOver src dest.mBuffer [] message ⟨dest, .null, FieldResults.none⟩ where
  represents := destination
  name := rfl
  scratch := by simp
  sub := by simp [HoldsMessage, FieldResults.none]
  strings := by simp [FieldResults.none]

variable [MamaLibrary] {memory : ApplyMemory} {src : OmnmPayloadImpl} {scratch : List UInt8}

/-- A round takes a field over that comes over unharmed. -/
theorem applyRound_eq {entry : FieldEntry} {position : Nat} {behind : List UInt8}
    (here : src.mPayloadBuffer.drop position = entry.encode ++ behind) (previous : BufferPtr)
    {before : List FieldEntry} {message : Message} {state : ApplyState}
    (took : state.TookOver src scratch before message) (succeeds : memory.Succeeds)
    (fits : DataFits entry.type entry.data) (lossless : entry.Lossless)
    (sameType : ∀ found, message.find entry.nameArgument entry.fid = some found →
      found.type = entry.type)
    (below : message.encode.length + entry.encode.length < 2 ^ 63)
    (comes : entry.ComesOver scratch behind before message) :
    ∃ next, (applyRound memory src (entry.handle position previous) state).result = some next ∧
      next.TookOver src scratch (before ++ [entry]) (message.applyEntry entry) := by
  have shown := FieldEntry.handledBy_at here
  have named : (omnmmsgFieldPayload_getName src (entry.handle position previous)).result = some _ :=
    shown.getName
  have carried := shown.loadCarriedName took.name
  have sub : HoldsMessage before ↔ state.results.mSubPayload ≠ none :=
    (not_iff_comm.mp took.sub.symm).symm
  have strings : HoldsArray scratch before ↔
      state.results.mVectorString ≠ [] ∧ state.dest.mBuffer ≠ [] := by
    rw [HoldsArray, ne_eq state.results.mVectorString, took.strings, ne_eq state.dest.mBuffer,
      took.scratch, not_and_or, not_not, not_not]
  rw [FieldEntry.ComesOver, sub, strings] at comes
  by_cases passed : entry.PassedOver (state.results.mSubPayload ≠ none)
      (state.results.mVectorString ≠ [] ∧ state.dest.mBuffer ≠ [])
  · have same : message.applyEntry entry = message := by
      rcases comes with ⟨-, same⟩ | ⟨-, -, faithful⟩
      · exact same
      · exact Message.applyEntry_of_keyless
          (not_not.mp fun keyed => (faithful keyed).1.not_passedOver passed)
    obtain ⟨noMessage, noStrings⟩ := passed.leaves_nothing
    have applied := @applyField_passedOver _ _ _ _ _ _ _ (carriedName (before ++ [entry])) _
      succeeds.update rfl (fun listed => FieldEntry.handledBy_of_drop listed here previous) passed
    refine ⟨⟨state.dest, _, state.results⟩, ?_, ?_, carried, ?_, ?_, ?_⟩
    · simp only [applyRound, Traced.result_bind, named, Option.bind_some, carried, applied,
        Traced.result_pure]
      rfl
    · rw [same]
      exact took.represents
    · rw [took.scratch, exists_concat, or_iff_left fun leaves => noStrings leaves.1]
    · rw [took.sub, HoldsMessage, HoldsMessage, exists_concat, or_iff_left noMessage]
    · rw [took.strings, exists_concat, or_iff_left noStrings]
  · obtain ⟨own, readable, faithful⟩ := comes.resolve_left fun passes => passed passes.1
    have listed := FieldEntry.listed_of_not_passedOver passed
    have ownName : carriedName (before ++ [entry]) = entry.nameArgument := by
      rw [carriedName_concat]
      by_cases unnamed : entry.name = CString.empty
      · rw [own unnamed, Option.or_none]
      · rw [FieldEntry.nameArgument_of_named unnamed, Option.some_or]
    have receives : Receives state.dest message entry :=
      ⟨took.represents, listed, fits, sameType, fun keyed => (faithful keyed).2, below⟩
    obtain ⟨dest, kept, applied, takesOver⟩ := receives.applyField
      (FieldEntry.handledBy_of_drop listed here previous) succeeds
      (fun offset => FieldEntry.drop_of_handle listed here) passed readable
      (fun keyed => (faithful keyed).1) lossless
    rw [← ownName] at applied
    refine ⟨⟨dest, _, kept⟩, ?_, takesOver.represents, carried, ?_, ?_, ?_⟩
    · simp only [applyRound, Traced.result_bind, named, Option.bind_some, carried, applied,
        Traced.result_pure]
      rfl
    · rw [takesOver.scratch, took.scratch, exists_concat, not_or, and_assoc]
    · rw [takesOver.sub, took.sub, HoldsMessage, HoldsMessage, exists_concat, not_or]
    · rw [takesOver.strings, took.strings, exists_concat, not_or]

/-- The loop takes over the fields in front, and goes on with the rest. -/
theorem applyFrom_append {entries rest before : List FieldEntry} {iter : OmnmIterImpl}
    {state : ApplyState} {message : Message} (rounds : Nat)
    (ahead : Ahead src iter (entries ++ rest)) (took : state.TookOver src scratch before message)
    (succeeds : memory.Succeeds) (lossless : ∀ entry ∈ entries, entry.Lossless)
    (types : SameTypes message entries)
    (below : message.encode.length + (encodeAll entries).length < 2 ^ 63)
    (come : AllComeOver scratch
      (encodeAll rest ++ src.mPayloadBuffer.drop src.mPayloadBufferTail) before message entries) :
    ∃ iter' last, (applyFrom memory src (entries.length + rounds) iter state).result =
        (applyFrom memory src rounds iter' last).result ∧ Ahead src iter' rest ∧
      last.TookOver src scratch (before ++ entries) (entries.foldl Message.applyEntry message) ∧
      ((∀ entry ∈ entries, entry.Substantial) →
        HoldsHeader state.results.mSubPayload → HoldsHeader last.results.mSubPayload) := by
  induction entries generalizing iter before state message with
  | nil =>
      rw [List.append_nil]
      exact ⟨iter, state, by rw [List.length_nil, Nat.zero_add], ahead, took, fun _ holds => holds⟩
  | cons entry entries ih =>
      have first := List.mem_cons_self (a := entry) (l := entries)
      have longer := message.length_applyEntry_le entry
      have here := ahead.drop_all
      rw [List.cons_append] at ahead
      rw [List.cons_append, encodeAll_cons, encodeAll_append, List.append_assoc, List.append_assoc]
        at here
      rw [encodeAll_cons, List.length_append] at below
      have fits := ahead.fits entry List.mem_cons_self
      obtain ⟨next, round, tookIt⟩ := applyRound_eq here iter.mField.mData took succeeds fits
        (lossless entry first) types.1 (by omega) come.1
      obtain ⟨iter', last, later, behind, represented, keeps⟩ := ih ahead.step tookIt
        (fun other member => lossless other (List.mem_cons_of_mem _ member)) types.2 (by omega)
        come.2
      refine ⟨iter', last, ?_, behind, ?_, ?_⟩
      · rw [← later, List.length_cons, Nat.add_right_comm]
        simp only [applyFrom, Traced.result_bind, ahead.next, Option.bind_some, round]
      · rw [List.append_cons]
        exact represented
      · intro all holds
        refine keeps (fun other member => all other (List.mem_cons_of_mem _ member)) ?_
        exact (updatesWith_of_applyRound here _ took.name succeeds fits (all entry first)
          (lossless entry first) holds True round).2

/-- The loop takes over the fields that are ahead. -/
theorem applyFrom_eq {entries before : List FieldEntry} {iter : OmnmIterImpl} {state : ApplyState}
    {message : Message} {rounds : Nat} (ahead : Ahead src iter entries)
    (took : state.TookOver src scratch before message) (succeeds : memory.Succeeds)
    (lossless : ∀ entry ∈ entries, entry.Lossless) (types : SameTypes message entries)
    (below : message.encode.length + (encodeAll entries).length < 2 ^ 63)
    (come : AllComeOver scratch (src.mPayloadBuffer.drop src.mPayloadBufferTail) before message
      entries) (enough : entries.length < rounds) :
    ∃ last, (applyFrom memory src rounds iter state).result = some last ∧
      last.dest.Represents (entries.foldl Message.applyEntry message) := by
  obtain ⟨more, bound⟩ := Nat.exists_eq_add_of_lt enough
  rw [← List.append_nil entries] at ahead
  obtain ⟨iter', last, loop, behind, tookAll, -⟩ := applyFrom_append (more + 1) ahead took succeeds
    lossless types below (by rwa [encodeAll_nil, List.nil_append])
  refine ⟨last, ?_, tookAll.represents⟩
  rw [bound, Nat.add_assoc, loop, applyFrom, behind.next_nil]
  rfl

/-! ## Fields that are all new -/

/-- A field comes over if it is in place once its round returned. -/
theorem comesOver_of_applyRound {entry : FieldEntry} {position : Nat} {behind : List UInt8}
    (here : src.mPayloadBuffer.drop position = entry.encode ++ behind) (previous : BufferPtr)
    {before : List FieldEntry} {message : Message} {state next : ApplyState}
    (took : state.TookOver src scratch before message) (succeeds : memory.Succeeds)
    (fits : DataFits entry.type entry.data) (substantial : entry.Substantial)
    (lossless : entry.Lossless) (holds : HoldsHeader state.results.mSubPayload)
    (brief : ∀ other ∈ before ++ [entry], other.encode.length < 2 ^ 31)
    (small : message.encode.length + entry.encode.length < 2 ^ 31)
    (added : (message.applyEntry entry).entries = message.entries ++ [entry])
    (returned : (applyRound memory src (entry.handle position previous) state).result = some next)
    (shows : next.dest.Represents (message.applyEntry entry)) :
    entry.ComesOver scratch behind before message := by
  have whole := entry.length_encode
  have longer := message.length_applyEntry_le entry
  have shortName : strlenEx (carriedName (before ++ [entry])) + 1 < 2 ^ 31 := by
    rw [strlenEx_eq, CString.length_terminated]
    cases carried : carriedName (before ++ [entry]) with
    | none => decide
    | some name =>
        obtain ⟨other, member, rfl⟩ := exists_of_carriedName carried
        have long := brief other member
        have parts := other.length_encode
        rw [Option.getD_some]
        omega
  obtain ⟨updates, -⟩ := updatesWith_of_applyRound here previous took.name succeeds fits
    substantial lossless holds (HoldsArray scratch before) returned
  have noKey : ¬ (carriedName (before ++ [entry]) = none ∧ entry.fid = 0) :=
    not_none_of_validateNameFid (validate_of_carriedName substantial.keyed)
  obtain ⟨ownName, faithful⟩ := handedOn_of_represents took.represents succeeds.update.payload
    substantial.listed fits noKey (carriedName_ne_empty _) shortName (by omega) added updates shows
  refine .inr ⟨fun unnamed => ?_, faithful.readable, fun _ => ⟨faithful, ?_⟩⟩
  · rw [carriedName_concat, FieldEntry.nameArgument_of_unnamed unnamed, Option.none_or, unnamed]
      at ownName
    cases carried : carriedName before with
    | none => rfl
    | some name =>
        rw [carried, Option.getD_some] at ownName
        exact absurd (carried.trans (congrArg some ownName.symm)) (carriedName_ne_empty before)
  · rw [Message.applyEntry_of_proper substantial.listed fits] at longer
    exact Represents.hasRoom_of_small (by omega) (longer.trans_lt (by omega))

/-- The last field comes over if those in front of it did and all are in place at the end. -/
theorem comesOver_of_apply {dest next : OmnmPayloadImpl} {message source : Message}
    {front : List FieldEntry} {last : FieldEntry} (destination : dest.Represents message)
    (origin : src.Represents source) (succeeds : memory.Succeeds)
    (lossless : ∀ entry ∈ source.entries, entry.Lossless) (types : SameTypes message source.entries)
    (split : source.entries = front ++ [last]) (new : message.AllNew source)
    (come : AllComeOver dest.mBuffer
      (last.encode ++ src.mPayloadBuffer.drop src.mPayloadBufferTail) [] message front)
    (applied : (omnmmsgPayload_apply memory dest src).result = some (.ok, next))
    (shows : next.Represents (source.entries.foldl Message.applyEntry message)) :
    last.ComesOver dest.mBuffer (src.mPayloadBuffer.drop src.mPayloadBufferTail) front
      (front.foldl Message.applyEntry message) := by
  obtain ⟨added, header, small⟩ := new
  have decodes := origin.decodes
  have enough := decodes.length_le
  have news := substantial_of_allAdded added header
  have ahead := decodes.ahead
  have initiated := decodes.init
  have whole : source.encode.length = source.header.length + (encodeAll source.entries).length := by
    rw [Message.encode, List.length_append]
  rw [split] at lossless types added shows news enough ahead initiated whole
  rw [sameTypes_append] at types
  rw [allAdded_append] at added
  rw [encodeAll_append, encodeAll_cons, encodeAll_nil, List.append_nil, List.length_append] at whole
  rw [List.length_append, List.length_singleton] at enough
  rw [List.foldl_append, List.foldl_cons, List.foldl_nil] at shows
  have short : ∀ entry ∈ front ++ [last], entry.encode.length < 2 ^ 31 := by
    intro entry member
    have part := length_encode_le_encodeAll member
    rw [encodeAll_append, encodeAll_cons, encodeAll_nil, List.append_nil, List.length_append]
      at part
    omega
  have substantial : ∀ entry ∈ front ++ [last], entry.Substantial := by
    apply news
    intro entry member
    have long := short entry member
    have parts := entry.length_encode
    omega
  obtain ⟨rounds, bound⟩ := Nat.exists_eq_add_of_lt enough
  obtain ⟨iter, state, loop, behind, took, keeps⟩ := applyFrom_append (rounds + 2) ahead
    (ApplyState.TookOver.start destination) succeeds
    (fun entry member => lossless entry (List.mem_append_left _ member)) types.1 (by omega)
    (by rwa [encodeAll_cons, encodeAll_nil, List.append_nil])
  have holds : HoldsHeader state.results.mSubPayload := by
    refine keeps (fun entry member => substantial entry (List.mem_append_left _ member)) ?_
    intro msg none
    cases none
  have here := behind.drop_all
  rw [encodeAll_cons, encodeAll_nil, List.append_nil] at here
  have rounds_eq : iterationBound src = front.length + (rounds + 2) := by omega
  rw [omnmmsgPayload_apply, Traced.result_bind, initiated, Option.bind_some, Traced.result_bind,
    rounds_eq, loop] at applied
  simp only [applyFrom, Traced.result_bind, behind.next, Option.bind_some, behind.step.next_nil,
    Traced.result_pure] at applied
  obtain ⟨final, looped, returned⟩ := Option.bind_eq_some_iff.mp applied
  obtain ⟨after, round, same⟩ := Option.bind_eq_some_iff.mp looped
  cases same
  cases returned
  have member : last ∈ front ++ [last] := by simp
  have longer : (front.foldl Message.applyEntry message).encode.length ≤
      message.encode.length + (encodeAll front).length := message.length_applyAll_le front
  exact comesOver_of_applyRound here _ took succeeds (source.fits last (split ▸ member))
    (substantial last member) (lossless last member) holds short (by omega) added.2.1 round shows

end

/-- The call returns OK and leaves a destination that took over the fields from left to right: it
decodes to them, and the fields that no update matches are still there. -/
def TakesOverFields [FieldTypeTags] [MamaLibrary] (memory : ApplyMemory)
    (dest src : OmnmPayloadImpl) (message source : Message) : Prop :=
  ∃ next, (omnmmsgPayload_apply memory dest src).result = some (.ok, next) ∧
    next.Represents (source.entries.foldl Message.applyEntry message) ∧
    next.decodedFields =
      some ((source.entries.foldl Message.applyEntry message).entries.map FieldEntry.value) ∧
    ∀ entry ∈ message.entries,
      (∀ other ∈ source.entries, entry.hasKey other.nameArgument other.fid = false) →
        entry ∈ (source.entries.foldl Message.applyEntry message).entries

/-- Applying a message to another is taking over its fields from left to right, provided that each
of them comes over unharmed. It is not when the last field is the first that does not, if all fields
are new. -/
theorem apply_takes_over [FieldTypeTags] [MamaLibrary] {memory : ApplyMemory}
    {dest src : OmnmPayloadImpl} {message source : Message} (destination : dest.Represents message)
    (origin : src.Represents source) (succeeds : memory.Succeeds)
    (below : dest.mPayloadBufferTail + src.mPayloadBufferTail < 2 ^ 63)
    (lossless : ∀ entry ∈ source.entries, entry.Lossless)
    (types : SameTypes message source.entries) :
    (AllComeOver dest.mBuffer (src.mPayloadBuffer.drop src.mPayloadBufferTail) [] message
        source.entries → TakesOverFields memory dest src message source) ∧
      ∀ front last, source.entries = front ++ [last] → message.AllNew source →
        AllComeOver dest.mBuffer
          (last.encode ++ src.mPayloadBuffer.drop src.mPayloadBufferTail) [] message front →
        (TakesOverFields memory dest src message source ↔
          AllComeOver dest.mBuffer (src.mPayloadBuffer.drop src.mPayloadBufferTail) [] message
            source.entries) := by
  have enough : AllComeOver dest.mBuffer (src.mPayloadBuffer.drop src.mPayloadBufferTail) [] message
      source.entries → TakesOverFields memory dest src message source := by
    intro come
    have decodes := origin.decodes
    have whole : source.encode.length =
        source.header.length + (encodeAll source.entries).length := by
      rw [Message.encode, List.length_append]
    have room : message.encode.length + (encodeAll source.entries).length < 2 ^ 63 := by
      rw [destination.tail, origin.tail, whole] at below
      omega
    obtain ⟨last, applied, represents⟩ := applyFrom_eq decodes.ahead
      (ApplyState.TookOver.start destination) succeeds lossless types room come decodes.length_le
    refine ⟨last.dest, ?_, represents, represents.decodes.decodedFields, ?_⟩
    · rw [omnmmsgPayload_apply, Traced.result_bind, decodes.init, Option.bind_some,
        Traced.result_bind, applied]
      rfl
    · intro entry member unmatched
      exact mem_foldl_applyEntry member unmatched
  refine ⟨enough, ?_⟩
  intro front last split new come
  refine ⟨?_, enough⟩
  rintro ⟨next, applied, shows, -⟩
  rw [split, allComeOver_append, encodeAll_cons, encodeAll_nil, List.append_nil]
  exact ⟨come, comesOver_of_apply destination origin succeeds lossless types split new come applied
    shows, trivial⟩

section Example

attribute [local instance] mamaFieldTypes

/-- A library whose casts keep the bits and whose date-times and prices are all zero. -/
@[reducible] def plainLibrary : MamaLibrary where
  castFloat := fun _ _ bits => bits
  quantityType := .i32
  mamaDateTime_setFromString := fun _ => (.ok, ⟨0, 0, 0, 0⟩)
  mamaDateTime_setEpochTimeF64 := fun _ => (.ok, ⟨0, 0, 0, 0⟩)
  mamaDateTime_setEpochTimeMilliseconds := fun _ => (.ok, ⟨0, 0, 0, 0⟩)
  mamaDateTime_setEpochTimeMicroseconds := fun _ => (.ok, ⟨0, 0, 0, 0⟩)
  mamaPrice_setValue := fun _ => ⟨0, 0⟩

attribute [local instance] plainLibrary

/-- A field with a name. -/
def namedField : FieldEntry :=
  ⟨mamaFieldTypeNumber .i8, 1, ⟨[65], fun zero => by simp at zero⟩, [5]⟩

/-- A field without a name. -/
def namelessField : FieldEntry := ⟨mamaFieldTypeNumber .i8, 2, CString.empty, [6]⟩

/-- Each of the two fields is of an 8-bit type with one byte of data. -/
theorem example_field {entry : FieldEntry} (member : entry ∈ [namelessField, namedField]) :
    DataFits entry.type entry.data ∧ entry.Transferable ∧ entry.Lossless := by
  have either : entry = namelessField ∨ entry = namedField := by simpa using member
  rcases either with rfl | rfl
  · exact ⟨by decide, trivial, by decide, by decide⟩
  · exact ⟨by decide, trivial, by decide, by decide⟩

/-- The message with these fields. -/
def messageOf (entries : List FieldEntry)
    (known : ∀ entry ∈ entries, entry ∈ [namelessField, namedField]) : Message :=
  ⟨mamaPayloadIdOmnm, 1, [], entries, UInt8.le_refl omnmProtocolVersion, Message.extra_nil_lt,
    fun entry member => (example_field (known entry member)).1⟩

/-- The payload with these fields. -/
def payloadOf (entries : List FieldEntry) : OmnmPayloadImpl :=
  ⟨[mamaPayloadIdOmnm, 1, 0] ++ encodeAll entries, 3 + (encodeAll entries).length,
    ⟨mamaPayloadIdOmnm, 1, 0⟩, []⟩

theorem payloadOf_represents (entries : List FieldEntry)
    (known : ∀ entry ∈ entries, entry ∈ [namelessField, namedField]) :
    (payloadOf entries).Represents (messageOf entries known) :=
  ⟨⟨[], (List.append_nil _).symm⟩, by rw [Message.encode, List.length_append]; rfl, rfl, rfl⟩

/-- Memory that does not run out. -/
def plainMemory : ApplyMemory := ⟨.zeroing, ⟨.zeroing, true⟩, 0⟩

theorem plainMemory_succeeds : plainMemory.Succeeds :=
  ⟨CallMemory.zeroing_succeeds, Allocator.zeroing_succeeds, rfl⟩

/-- A message with one field, under fid 1. -/
def oneField (type : MamaFieldType) (data : List UInt8)
    (fits : DataFits (mamaFieldTypeNumber type) data) : Message :=
  Message.empty.append ⟨mamaFieldTypeNumber type, 1, CString.empty, data⟩ fits

/-- Strings, no strings, two messages, a vector with a name, and a type that is passed over. -/
def mixedFields : Message :=
  (((((Message.empty.append
    ⟨mamaFieldTypeNumber .vectorString, 2, CString.empty, [65, 0, 66, 0]⟩ (by decide)).append
    ⟨mamaFieldTypeNumber .vectorString, 1, CString.empty, []⟩ (by decide)).append
    ⟨mamaFieldTypeNumber .msg, 3, CString.empty, [79, 1, 0]⟩ (by decide)).append
    ⟨mamaFieldTypeNumber .msg, 3, CString.empty, [79, 1, 1, 9]⟩ (by decide)).append
    ⟨mamaFieldTypeNumber .vectorU16, 4, namedField.name, [1, 0, 2, 0]⟩ (by decide)).append
    ⟨mamaFieldTypeNumber .vectorMsg, 0, CString.empty, [7]⟩ (by decide)

theorem named_nameless_known : ∀ entry ∈ [namedField, namelessField],
    entry ∈ [namelessField, namedField] := by
  intro entry member
  rw [List.mem_cons, List.mem_singleton] at member ⊢
  exact member.symm

theorem apply_takes_over_mixed_fields :
    (∃ next, (omnmmsgPayload_apply plainMemory (oneField .vectorString [67, 0] (by decide)).payload
        mixedFields.payload).result = some (.ok, next) ∧
      next.decodedFields.map (List.map FieldValue.data) =
        some [[], [65, 0, 66, 0], [79, 1, 1, 9], [1, 0, 2, 0]]) ∧
      ∃ source : Message, source.entries = [namedField, namelessField] ∧
        ¬ TakesOverFields plainMemory newPayload (payloadOf [namedField, namelessField])
          Message.empty source := by
  constructor
  · obtain ⟨next, result, -, decoded, -⟩ := (apply_takes_over
      (Message.payload_represents (oneField .vectorString [67, 0] (by decide)))
      (Message.payload_represents mixedFields) plainMemory_succeeds (by decide) (by decide)
      ⟨by decide, by decide, by decide, by decide, by decide, by decide, trivial⟩).1
        (by decide +kernel)
    refine ⟨next, result, ?_⟩
    rw [decoded]
    decide +kernel
  · refine ⟨messageOf _ named_nameless_known, rfl, ?_⟩
    have exact_here := (apply_takes_over Represents.newPayload
      (payloadOf_represents _ named_nameless_known) plainMemory_succeeds (by decide)
      (fun entry member => (example_field (named_nameless_known entry member)).2.2)
      ⟨by decide, by decide, trivial⟩).2 [namedField] namelessField rfl
        ⟨by decide, by decide, by decide⟩ (by decide +kernel)
    rw [exact_here]
    decide +kernel

/-- A field without a name that follows one with a name is taken for it. -/
theorem apply_keeps_stale_name :
    ∃ source : Message, source.entries = [namedField, namelessField] ∧
      (payloadOf [namedField, namelessField]).Represents source ∧
      newPayload.Represents Message.empty ∧ SameTypes Message.empty source.entries ∧
      (∀ entry ∈ source.entries, entry.Transferable ∧ entry.Lossless) ∧
      ∃ next, (omnmmsgPayload_apply plainMemory newPayload
          (payloadOf [namedField, namelessField])).result = some (.ok, next) ∧
        next.decodedFields ≠ some
          ((source.entries.foldl Message.applyEntry Message.empty).entries.map
            FieldEntry.value) := by
  refine ⟨messageOf _ named_nameless_known, rfl, payloadOf_represents _ named_nameless_known,
    Represents.newPayload, ⟨by decide, by decide, trivial⟩,
    fun entry member => (example_field (named_nameless_known entry member)).2, ?_⟩
  refine ⟨{ newPayload with
    mPayloadBuffer := [79, 1, 0, 11, 1, 0, 65, 0, 6] ++ List.replicate 191 0
    mPayloadBufferTail := 9 }, ?_, ?_⟩
  · decide +kernel
  · change _ ≠ some (([namedField, namelessField].foldl Message.applyEntry
      Message.empty).entries.map FieldEntry.value)
    decide +kernel

end Example

end Omnm
