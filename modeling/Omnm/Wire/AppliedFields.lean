import Mathlib.Data.List.Find
import Omnm.Runs.LastValues
import Omnm.Wire.Exchanges
import Omnm.Wire.Transfers

/-!
# Fields under consistent keys

Fields that share a fid or a name may still differ in the other, or in their
type. Where they do not (`Consistent`), a field stands for the other fields with
its descriptor, and taking over a field is putting it in the place of the first
one with its descriptor, or behind all (`Message.entries_applyEntry`). So a
message that takes over fields from left to right has the last values of them
(`Message.entries_applyAll`), and what a key without ambiguity finds is the last
field under that key (`Message.find_applyAll`).
-/

set_option autoImplicit false

namespace Omnm

/-! ## Descriptors -/

/-- What a field is, apart from its data. -/
def FieldEntry.descriptor (entry : FieldEntry) : UInt8 × UInt16 × CString :=
  (entry.type, entry.fid, entry.name)

theorem FieldEntry.eq_of_descriptor {entry other : FieldEntry}
    (same : entry.descriptor = other.descriptor) (data : entry.data = other.data) :
    entry = other := by
  cases entry
  cases other
  simp only [FieldEntry.descriptor, Prod.mk.injEq] at same data
  obtain ⟨rfl, rfl, rfl⟩ := same
  subst data
  rfl

/-- Keys see no more of a field than its descriptor. -/
theorem FieldEntry.hasKey_congr {entry other : FieldEntry}
    (same : entry.descriptor = other.descriptor) (name : Option CString) (fid : UInt16) :
    entry.hasKey name fid = other.hasKey name fid := by
  simp only [FieldEntry.descriptor, Prod.mk.injEq] at same
  rw [hasKey, hasKey, same.2.1, same.2.2]

/-- A field with a key is found under it. -/
theorem FieldEntry.hasKey_self {entry : FieldEntry} (keyed : ¬ entry.Keyless) :
    entry.hasKey entry.nameArgument entry.fid = true := by
  by_cases numbered : entry.fid = 0
  · have named : entry.name ≠ CString.empty := by
      intro unnamed
      exact keyed ⟨nameArgument_of_unnamed unnamed, numbered⟩
    simp [hasKey, numbered, named, nameArgument_of_named named]
  · exact hasKey_of_fid ⟨numbered, rfl⟩

/-- Fields that share a fid or a name share both, and the type. -/
def Consistent (entries : List FieldEntry) : Prop :=
  ∀ first ∈ entries, ∀ second ∈ entries,
    second.hasKey first.nameArgument first.fid = true → second.descriptor = first.descriptor

instance (entries : List FieldEntry) : Decidable (Consistent entries) :=
  inferInstanceAs (Decidable (∀ first ∈ entries, ∀ second ∈ entries, _ → _))

theorem Consistent.subset {entries others : List FieldEntry} (consistent : Consistent entries)
    (subset : ∀ entry ∈ others, entry ∈ entries) : Consistent others := by
  intro first member second member'
  exact consistent first (subset first member) second (subset second member')

/-- Fields that one key finds share their descriptor. -/
def Unambiguous (entries : List FieldEntry) (key : FieldKey) : Prop :=
  ∀ first ∈ entries, ∀ second ∈ entries, first.hasKey key.1 key.2 = true →
    second.hasKey key.1 key.2 = true → second.descriptor = first.descriptor

/-- So does a key that is a name alone. -/
theorem Consistent.unambiguous_name {entries : List FieldEntry} (consistent : Consistent entries)
    (name : CString) : Unambiguous entries (some name, 0) := by
  intro first member second member' found found'
  have hits : ∀ entry : FieldEntry, entry.hasKey (some name) 0 = true →
      entry.name ≠ CString.empty ∧ name = entry.name := by
    intro entry hit
    simpa [FieldEntry.hasKey] using hit
  obtain ⟨named, rfl⟩ := hits first found
  obtain ⟨named', same'⟩ := hits second found'
  refine consistent first member second member' ?_
  rw [FieldEntry.nameArgument_of_named named, FieldEntry.hasKey, same']
  simp [named']

variable [FieldTypeTags] {message : Message} {entries : List FieldEntry} {entry : FieldEntry}

/-! ## One field -/

/-- A field that can be taken over, and that can be added. -/
structure FieldEntry.Applicable (entry : FieldEntry) : Prop where
  listed : dataLayout entry.type ≠ .unlisted
  fits : DataFits entry.type entry.data
  accepted : Accepted entry.nameArgument entry.fid entry.data

theorem Message.header_applyEntry (message : Message) (entry : FieldEntry) :
    (message.applyEntry entry).header = message.header := by
  rcases message.applyEntry_cases entry with same | ⟨listed, fits, added⟩ | replaced
  · rw [same]
  · rw [added, message.addField_eq _ _ listed fits]
    split <;> rfl
  · rw [replaced]
    rfl

/-- Under consistent keys a field takes the place of the one that its key finds. -/
theorem updateFirst_eq_put (keyed : ¬ entry.Keyless) (fits : DataFits entry.type entry.data)
    (consistent : Consistent (entry :: entries))
    (present : entry.descriptor ∈ entries.map FieldEntry.descriptor) :
    updateFirst (FieldEntry.hasKey entry.nameArgument entry.fid) (FieldEntry.withData entry.data)
      entries = put FieldEntry.descriptor entries entry := by
  induction entries with
  | nil => cases present
  | cons first rest ih =>
      rw [updateFirst, put]
      by_cases same : first.descriptor = entry.descriptor
      · have found : first.hasKey entry.nameArgument entry.fid = true := by
          rw [FieldEntry.hasKey_congr same]
          exact FieldEntry.hasKey_self keyed
        have type : first.type = entry.type := congrArg Prod.fst same
        rw [if_pos found, if_pos same, FieldEntry.withData_of_fits (type ▸ fits)]
        refine congrArg (· :: rest) (FieldEntry.eq_of_descriptor ?_ rfl)
        exact same
      · have missed : ¬ first.hasKey entry.nameArgument entry.fid = true := by
          intro found
          exact same (consistent entry List.mem_cons_self first (by simp) found)
        have later : entry.descriptor ∈ rest.map FieldEntry.descriptor := by
          rcases List.mem_cons.mp present with here | later
          · exact absurd here.symm same
          · exact later
        rw [if_neg missed, if_neg same, ih (consistent.subset (by simp +contextual)) later]

/-- Taking over an accepted field is putting it into the list. -/
theorem Message.entries_applyEntry (applicable : entry.Applicable)
    (consistent : Consistent (entry :: message.entries)) :
    (message.applyEntry entry).entries = put FieldEntry.descriptor message.entries entry := by
  obtain ⟨listed, fits, accepted⟩ := applicable
  have keyed : ¬ (entry.nameArgument = none ∧ entry.fid = 0) :=
    not_none_of_validateNameFid accepted.key
  rw [Message.applyEntry_of_proper listed fits]
  simp only [Message.updateField]
  rw [if_neg keyed]
  cases found : message.find entry.nameArgument entry.fid with
  | none =>
      have absent : entry.descriptor ∉ message.entries.map FieldEntry.descriptor := by
        intro present
        obtain ⟨other, member, same⟩ := List.mem_map.mp present
        have matching : other.hasKey entry.nameArgument entry.fid = true := by
          rw [FieldEntry.hasKey_congr same]
          exact FieldEntry.hasKey_self keyed
        exact absurd matching (by simpa using List.find?_eq_none.mp found other member)
      have whole : FieldEntry.mk entry.type entry.fid (entry.nameArgument.getD CString.empty)
          entry.data = entry := by
        rw [entry.getD_nameArgument]
      dsimp only
      rw [message.addField_eq _ _ listed fits, accepted_iff_rejection.mp accepted,
        put_of_notMem absent]
      exact congrArg (fun last => message.entries ++ [last]) whole
  | some other =>
      have matching : other.hasKey entry.nameArgument entry.fid = true := List.find?_some found
      have member : other ∈ message.entries := List.mem_of_find?_eq_some found
      have same : other.descriptor = entry.descriptor :=
        consistent entry List.mem_cons_self other (List.mem_cons_of_mem _ member) matching
      have type : ¬ (other.type ≠ entry.type ∧
          areFieldTypesCastable other.type entry.type = false) := by
        rintro ⟨differs, -⟩
        exact differs (congrArg Prod.fst same)
      dsimp only
      rw [if_neg type]
      exact updateFirst_eq_put keyed fits consistent (same ▸ List.mem_map_of_mem member)

/-- A field that a consistent one finds is of its type. -/
theorem Consistent.type_eq {found : FieldEntry} (consistent : Consistent (entry :: message.entries))
    (search : message.find entry.nameArgument entry.fid = some found) : found.type = entry.type := by
  have member : found ∈ message.entries := List.mem_of_find?_eq_some search
  exact congrArg Prod.fst (consistent entry List.mem_cons_self found
    (List.mem_cons_of_mem _ member) (List.find?_some search))

/-- Fields stay consistent when the first of those to come is taken over. -/
theorem Consistent.applyEntry (applicable : entry.Applicable)
    (consistent : Consistent (message.entries ++ entry :: entries)) :
    Consistent (entry :: message.entries) ∧
      Consistent ((message.applyEntry entry).entries ++ entries) := by
  have near : Consistent (entry :: message.entries) := by
    apply consistent.subset
    simp only [List.mem_cons, List.mem_append]
    tauto
  refine ⟨near, ?_⟩
  apply consistent.subset
  intro other member
  rw [Message.entries_applyEntry applicable near, List.mem_append] at member
  rcases member with old | new
  · rcases mem_put old with rfl | old
    · simp
    · simp [old]
  · simp [new]

/-! ## Many fields -/

/-- A message that takes over fields from left to right. -/
def Message.applyAll (message : Message) (entries : List FieldEntry) : Message :=
  entries.foldl Message.applyEntry message

omit [FieldTypeTags] in
theorem Message.applyAll_append [FieldTypeTags] (message : Message)
    (entries others : List FieldEntry) :
    message.applyAll (entries ++ others) = (message.applyAll entries).applyAll others :=
  List.foldl_append

theorem Message.header_applyAll (message : Message) (entries : List FieldEntry) :
    (message.applyAll entries).header = message.header := by
  induction entries generalizing message with
  | nil => rfl
  | cons entry entries ih =>
      exact (ih (message.applyEntry entry)).trans (message.header_applyEntry entry)

/-- A message is its header and its fields. -/
theorem Message.eq_of_header {other : Message} (header : message.header = other.header)
    (entries : message.entries = other.entries) : message = other := by
  simp only [Message.header, List.cons_append, List.nil_append, List.cons.injEq] at header
  obtain ⟨kind, version, -, extra⟩ := header
  exact Message.eq_of_entries kind version extra entries

/-- Fields that are taken over make the message longer by their wire form at most. -/
theorem Message.length_applyAll_le (message : Message) (entries : List FieldEntry) :
    (message.applyAll entries).encode.length ≤
      message.encode.length + (encodeAll entries).length := by
  induction entries generalizing message with
  | nil => exact Nat.le_add_right ..
  | cons entry entries ih =>
      have first := message.length_applyEntry_le entry
      have rest := ih (message.applyEntry entry)
      rw [encodeAll_cons, List.length_append]
      show ((message.applyEntry entry).applyAll entries).encode.length ≤ _
      omega

/-- A message takes over consistent fields by keeping the last values of them. -/
theorem Message.entries_applyAll (applicable : ∀ entry ∈ entries, entry.Applicable)
    (consistent : Consistent (message.entries ++ entries)) :
    (message.applyAll entries).entries = putAll FieldEntry.descriptor message.entries entries := by
  induction entries generalizing message with
  | nil => rfl
  | cons entry entries ih =>
      have here := applicable entry List.mem_cons_self
      obtain ⟨near, later⟩ := consistent.applyEntry here
      rw [putAll_cons, ← Message.entries_applyEntry here near]
      exact ih (fun other member => applicable other (List.mem_cons_of_mem _ member)) later

theorem Message.mem_applyAll (applicable : ∀ entry ∈ entries, entry.Applicable)
    (consistent : Consistent (message.entries ++ entries)) :
    ∀ entry ∈ (message.applyAll entries).entries, entry ∈ message.entries ++ entries := by
  intro entry member
  rw [Message.entries_applyAll applicable consistent] at member
  exact List.mem_append.mpr (mem_putAll member)

/-- Fields stay consistent when the first of those to come are taken over. -/
theorem Consistent.applyAll {others : List FieldEntry}
    (applicable : ∀ entry ∈ entries, entry.Applicable)
    (consistent : Consistent (message.entries ++ (entries ++ others))) :
    Consistent ((message.applyAll entries).entries ++ others) := by
  induction entries generalizing message with
  | nil => exact consistent
  | cons entry entries ih =>
      exact ih (fun other member => applicable other (List.mem_cons_of_mem _ member))
        (consistent.applyEntry (applicable entry List.mem_cons_self)).2

/-- Fields that were taken over are taken over again without effect. -/
theorem Message.applyAll_idempotent (applicable : ∀ entry ∈ entries, entry.Applicable)
    (consistent : Consistent (message.entries ++ entries)) :
    (message.applyAll entries).applyAll entries = message.applyAll entries := by
  have twice : Consistent (message.entries ++ (entries ++ entries)) := by
    apply consistent.subset
    simp only [List.mem_append]
    tauto
  apply Message.eq_of_header
  · rw [Message.header_applyAll]
  · rw [Message.entries_applyAll applicable (twice.applyAll applicable),
      Message.entries_applyAll applicable consistent, putAll_idempotent]

/-- Fields stay consistent when the later of them are put together with the earlier. -/
theorem Consistent.conflated {update : Message} {others : List FieldEntry}
    (consistent : Consistent (message.entries ++ (update.entries ++ others)))
    (applicable : ∀ entry ∈ others, entry.Applicable) :
    Consistent (message.entries ++ (update.applyAll others).entries) := by
  have near : Consistent (update.entries ++ others) := by
    apply consistent.subset
    simp only [List.mem_append]
    tauto
  apply consistent.subset
  intro entry member
  rcases List.mem_append.mp member with old | new
  · exact List.mem_append_left _ old
  · exact List.mem_append_right _ (Message.mem_applyAll applicable near entry new)

/-- Fields that were put together with the later ones are taken over like these and those. -/
theorem Message.applyAll_applyAll {update : Message} {others : List FieldEntry}
    (distinct : (update.entries.map FieldEntry.descriptor).Nodup)
    (applicable : ∀ entry ∈ update.entries ++ others, entry.Applicable)
    (consistent : Consistent (message.entries ++ (update.entries ++ others))) :
    message.applyAll (update.applyAll others).entries =
      message.applyAll (update.entries ++ others) := by
  have later : ∀ entry ∈ others, entry.Applicable := by
    intro entry member
    exact applicable entry (List.mem_append_right _ member)
  have near : Consistent (update.entries ++ others) := by
    apply consistent.subset
    simp only [List.mem_append]
    tauto
  apply Message.eq_of_header
  · rw [Message.header_applyAll, Message.header_applyAll]
  · rw [Message.entries_applyAll applicable consistent, putAll_append,
      Message.entries_applyAll
        (fun entry member => applicable entry (Message.mem_applyAll later near entry member))
        (consistent.conflated later),
      Message.entries_applyAll later near, putAll_putAll distinct]

end Omnm
