import Omnm.Payload.Impl
import Omnm.Runs.FirstMatch

/-!
# Messages as lists of fields

What a payload is for: a header and an ordered list of fields, each with a type,
a fid, a name and data, looked up by fid or name with the first match winning.
A `Message` carries the facts that make it encodable. Its header has a version
this code accepts and its length in one byte, and every field has data that its
type prescribes, so a message that cannot be decoded cannot be formed.

`Message.encode` is its wire form. `Message.addField` and `Message.updateField`
say what the mutators do to the list, with the status they return.
-/

set_option autoImplicit false

namespace Omnm

/-! ## Keys -/

/-- A field as a value. A field without a name has the empty one. -/
structure FieldEntry where
  type : UInt8
  fid : UInt16
  name : CString
  data : List UInt8
  deriving DecidableEq

namespace FieldEntry

/-- Whether a lookup by name or fid finds the field. -/
def hasKey (name : Option CString) (fid : UInt16) (entry : FieldEntry) : Bool :=
  (fid ≠ 0 && fid = entry.fid) || (entry.name ≠ CString.empty && name = some entry.name)

theorem hasKey_of_fid {name : Option CString} {fid : UInt16} {entry : FieldEntry}
    (same : fid ≠ 0 ∧ fid = entry.fid) : entry.hasKey name fid = true := by
  simp [hasKey, ← same.2, same.1]

/-- A field whose fid does not match is found by its name only. -/
theorem hasKey_of_not_fid {name : Option CString} {fid : UInt16} {entry : FieldEntry}
    (differs : ¬ (fid ≠ 0 ∧ fid = entry.fid)) :
    entry.hasKey name fid = (entry.name ≠ CString.empty && name = some entry.name) := by
  have noFid : (decide (fid ≠ 0) && decide (fid = entry.fid)) = false := by
    rw [← Bool.decide_and]
    exact decide_eq_false differs
  rw [hasKey, noFid, Bool.false_or]

end FieldEntry

/-- A field under an accepted key has the key. -/
theorem hasKey_of_validateNameFid {name : Option CString} {fid : UInt16} {type : UInt8}
    {bytes : List UInt8} (key : validateNameFid name fid = none) :
    FieldEntry.hasKey name fid ⟨type, fid, name.getD CString.empty, bytes⟩ = true := by
  by_cases numbered : fid = 0
  · cases name with
    | none => simp [validateNameFid, numbered] at key
    | some name => simpa [validateNameFid, FieldEntry.hasKey, numbered] using key
  · exact FieldEntry.hasKey_of_fid ⟨numbered, rfl⟩

/-- No field has a key that is rejected. -/
theorem hasKey_of_rejected {name : Option CString} {fid : UInt16} {status : MamaStatus}
    (rejected : validateNameFid name fid = some status) (entry : FieldEntry) :
    entry.hasKey name fid = false := by
  by_cases numbered : fid = 0
  · cases name with
    | none => simp [FieldEntry.hasKey, numbered]
    | some name =>
        have empty : name = CString.empty := by
          by_contra named
          simp [validateNameFid, named] at rejected
        simp [FieldEntry.hasKey, numbered, empty, eq_comm]
  · cases name <;> simp [validateNameFid, numbered] at rejected

/-- A key that a field has is accepted. -/
theorem validateNameFid_of_hasKey {name : Option CString} {fid : UInt16} {entry : FieldEntry}
    (matching : entry.hasKey name fid = true) : validateNameFid name fid = none := by
  cases key : validateNameFid name fid with
  | none => rfl
  | some status =>
      rw [hasKey_of_rejected key] at matching
      cases matching

variable [FieldTypeTags]

/-! ## Fields -/

/-- The data a type prescribes, as the iterator measures it. A type the iterator
does not list is given no data. -/
def DataFits (type : UInt8) (data : List UInt8) : Prop :=
  match dataLayout type with
  | .fixed width => data.length = width
  | .cString => nulIndex data = some (data.length - 1)
  | .sized => data.length < 2 ^ 32
  | .unlisted => data = []

instance (type : UInt8) (data : List UInt8) : Decidable (DataFits type data) :=
  match layout : dataLayout type with
  | .fixed width => decidable_of_iff (data.length = width) (by simp [DataFits, layout])
  | .cString =>
      decidable_of_iff (nulIndex data = some (data.length - 1)) (by simp [DataFits, layout])
  | .sized => decidable_of_iff (data.length < 2 ^ 32) (by simp [DataFits, layout])
  | .unlisted => decidable_of_iff (data = []) (by simp [DataFits, layout])

namespace FieldEntry

/-- The length in front of the data of a sized type. -/
def lengthPart (entry : FieldEntry) : List UInt8 :=
  if dataLayout entry.type = .sized then littleEndian 4 entry.data.length else []

/-- The wire form up to the data. -/
def head (entry : FieldEntry) : List UInt8 :=
  [entry.type] ++ littleEndian 2 entry.fid.toNat ++ entry.name.terminated ++ entry.lengthPart

/-- The wire form of a field. -/
def encode (entry : FieldEntry) : List UInt8 := entry.head ++ entry.data

/-- The field with other data. Data that the type does not admit is not taken. -/
def withData (data : List UInt8) (entry : FieldEntry) : FieldEntry :=
  if DataFits entry.type data then { entry with data := data } else entry

theorem withData_of_fits {data : List UInt8} {entry : FieldEntry}
    (fits : DataFits entry.type data) : entry.withData data = { entry with data := data } :=
  if_pos fits

theorem withData_fits {data : List UInt8} {entry : FieldEntry}
    (fits : DataFits entry.type entry.data) :
    DataFits (entry.withData data).type (entry.withData data).data := by
  unfold withData
  split
  · assumption
  · exact fits

theorem length_lengthPart_eq {first second : FieldEntry} (same : first.type = second.type) :
    first.lengthPart.length = second.lengthPart.length := by
  unfold lengthPart
  rw [same]
  split <;> simp

theorem length_head (entry : FieldEntry) :
    entry.head.length = 4 + entry.name.bytes.length + entry.lengthPart.length := by
  simp only [head, List.length_append, List.length_singleton, length_littleEndian,
    CString.length_terminated]
  omega

theorem length_encode (entry : FieldEntry) :
    entry.encode.length =
      4 + entry.name.bytes.length + entry.lengthPart.length + entry.data.length := by
  rw [encode, List.length_append, length_head]

theorem four_le_length_encode (entry : FieldEntry) : 4 ≤ entry.encode.length := by
  rw [length_encode]
  omega

end FieldEntry

/-- The wire form of a list of fields. -/
def encodeAll (entries : List FieldEntry) : List UInt8 := entries.flatMap FieldEntry.encode

@[simp] theorem encodeAll_nil : encodeAll [] = [] := rfl

@[simp] theorem encodeAll_cons (entry : FieldEntry) (entries : List FieldEntry) :
    encodeAll (entry :: entries) = entry.encode ++ encodeAll entries := rfl

@[simp] theorem encodeAll_append (first second : List FieldEntry) :
    encodeAll (first ++ second) = encodeAll first ++ encodeAll second := by
  simp only [encodeAll, List.flatMap_append]

theorem length_le_length_encodeAll (entries : List FieldEntry) :
    entries.length ≤ (encodeAll entries).length := by
  induction entries with
  | nil => exact Nat.le_refl _
  | cons entry entries ih =>
      have wide := entry.four_le_length_encode
      rw [encodeAll_cons, List.length_append, List.length_cons]
      omega

theorem length_encode_le_encodeAll {entries : List FieldEntry} {entry : FieldEntry}
    (member : entry ∈ entries) : entry.encode.length ≤ (encodeAll entries).length := by
  obtain ⟨before, after, rfl⟩ := List.append_of_mem member
  rw [encodeAll_append, encodeAll_cons, List.length_append, List.length_append]
  omega

/-- Every field of a list has data that its type prescribes. -/
def AllFit (entries : List FieldEntry) : Prop :=
  ∀ entry ∈ entries, DataFits entry.type entry.data

theorem allFit_nil : AllFit [] := by
  intro entry member
  cases member

/-- The bytes are complete fields, one after another. -/
def CompleteFields (bytes : List UInt8) : Prop :=
  ∃ entries, AllFit entries ∧ bytes = encodeAll entries

/-! ## Messages -/

/-- A type and data as the public functions give them to a mutator: the type is one
the iterator lists, and data that is not NULL has the form the type prescribes. -/
structure FieldData where
  type : UInt8
  listed : dataLayout type ≠ .unlisted
  value : Option { bytes : List UInt8 // DataFits type bytes }

/-- The data argument. -/
def FieldData.bytes (data : FieldData) : Option (List UInt8) := data.value.map Subtype.val

/-- A header and a list of fields, together encodable. -/
structure Message where
  kind : UInt8
  version : UInt8
  extra : List UInt8
  entries : List FieldEntry
  version_le : version ≤ omnmProtocolVersion
  extra_lt : extra.length < 256
  fits : AllFit entries

namespace Message

/-- The header bytes, with the additional ones whose number the third states. -/
def header (message : Message) : List UInt8 :=
  [message.kind, message.version, UInt8.ofNat message.extra.length] ++ message.extra

/-- The wire form of a message. -/
def encode (message : Message) : List UInt8 := message.header ++ encodeAll message.entries

@[simp] theorem length_header (message : Message) :
    message.header.length = 3 + message.extra.length := by
  simp [header]
  omega

omit [FieldTypeTags] in
/-- A header without additional bytes states a length that its third byte holds. -/
theorem extra_nil_lt : ([] : List UInt8).length < 256 := by simp

/-- The message of a new payload. -/
def empty : Message where
  kind := mamaPayloadIdOmnm
  version := omnmProtocolVersion
  extra := []
  entries := []
  version_le := UInt8.le_refl omnmProtocolVersion
  extra_lt := extra_nil_lt
  fits := allFit_nil

/-- The field a lookup finds. -/
def find (message : Message) (name : Option CString) (fid : UInt16) : Option FieldEntry :=
  message.entries.find? (FieldEntry.hasKey name fid)

/-- The message with one more field. -/
def append (message : Message) (entry : FieldEntry) (fits : DataFits entry.type entry.data) :
    Message :=
  { message with
    entries := message.entries ++ [entry]
    fits := by
      intro other member
      rcases List.mem_append.mp member with old | new
      · exact message.fits other old
      · rw [List.mem_singleton.mp new]
        exact fits }

theorem encode_append (message : Message) (entry : FieldEntry)
    (fits : DataFits entry.type entry.data) :
    (message.append entry fits).encode = message.encode ++ entry.encode := by
  simp only [encode, append, header, encodeAll_append, encodeAll_cons, encodeAll_nil,
    List.append_nil, List.append_assoc]

/-- The message with the data of the first match replaced. -/
def replace (message : Message) (name : Option CString) (fid : UInt16) (data : List UInt8) :
    Message :=
  { message with
    entries := updateFirst (FieldEntry.hasKey name fid) (FieldEntry.withData data) message.entries
    fits := by
      intro entry member
      rcases mem_updateFirst member with old | ⟨before, old, -, rfl⟩
      · exact message.fits entry old
      · exact FieldEntry.withData_fits (message.fits before old) }

/-- Replacing changes the first match only. -/
theorem entries_replace {message : Message} {name : Option CString} {fid : UInt16}
    {data : List UInt8} {before after : List FieldEntry} {entry : FieldEntry}
    (split : message.entries = before ++ entry :: after) (found : entry.hasKey name fid = true)
    (none : ∀ other ∈ before, other.hasKey name fid = false)
    (fits : DataFits entry.type data) :
    (message.replace name fid data).entries = before ++ { entry with data := data } :: after := by
  show updateFirst _ _ message.entries = _
  rw [split, updateFirst_split _ found none, FieldEntry.withData_of_fits fits]

/-! ## What is found first -/

theorem find_of_rejected {name : Option CString} {fid : UInt16} {status : MamaStatus}
    (message : Message) (rejected : validateNameFid name fid = some status) :
    message.find name fid = none :=
  List.find?_eq_none.mpr fun entry _ => by simp [hasKey_of_rejected rejected entry]

/-- A field that is appended under a key without a field is the first one with the key. -/
theorem find_append {message : Message} {name : Option CString} {fid : UInt16}
    {entry : FieldEntry} (absent : message.find name fid = none)
    (fits : DataFits entry.type entry.data) (matching : entry.hasKey name fid = true) :
    (message.append entry fits).find name fid = some entry := by
  show (message.entries ++ [entry]).find? _ = _
  rw [List.find?_append, show message.entries.find? _ = none from absent, Option.none_or,
    List.find?_cons_of_pos matching]

/-- A field whose data was replaced stays the first one with its key. -/
theorem find_replace {message : Message} {name : Option CString} {fid : UInt16}
    {data : List UInt8} {before after : List FieldEntry} {entry : FieldEntry}
    (split : message.entries = before ++ entry :: after) (found : entry.hasKey name fid = true)
    (none : ∀ other ∈ before, other.hasKey name fid = false)
    (fits : DataFits entry.type data) :
    (message.replace name fid data).find name fid = some { entry with data := data } := by
  rw [find, entries_replace split found none fits]
  exact find_split found none

/-- A field that is appended comes behind what a key finds. -/
theorem find_append_of_find {message : Message} {name : Option CString} {fid : UInt16}
    {found entry : FieldEntry} (search : message.find name fid = some found)
    (fits : DataFits entry.type entry.data) :
    (message.append entry fits).find name fid = some found := by
  show (message.entries ++ [entry]).find? _ = _
  rw [List.find?_append, show message.entries.find? _ = some found from search, Option.some_or]

/-- Replacing the data of one field keeps what a key finds, if that is another field. -/
theorem find_replace_of_ne {message : Message} {name other : Option CString} {fid number : UInt16}
    {first found : FieldEntry} (matched : message.find other number = some first)
    (search : message.find name fid = some found) (differs : first ≠ found)
    (data : List UInt8) : (message.replace other number data).find name fid = some found := by
  refine find_updateFirst matched search differs ?_
  intro entry
  unfold FieldEntry.withData
  split <;> rfl

/-! ## The mutators -/

/-- What `addField` does: it rejects empty or oversized data and keys that name
no field, and otherwise appends. A name of NULL is the empty name. -/
def addField (message : Message) (name : Option CString) (fid : UInt16) (data : FieldData) :
    MamaStatus × Message :=
  match data.value with
  | none => (.nullArg, message)
  | some ⟨bytes, fits⟩ =>
      if 2 ^ 32 ≤ bytes.length then (.invalidArg, message)
      else if bytes = [] ∨ (name = none ∧ fid = 0) then (.nullArg, message)
      else
        match validateNameFid name fid with
        | some status => (status, message)
        | none => (.ok, message.append ⟨data.type, fid, name.getD CString.empty, bytes⟩ fits)

/-- What `updateField` does: it replaces the data of the first match, unless that
has another type and is not castable, and adds the field when nothing matches. -/
def updateField (message : Message) (name : Option CString) (fid : UInt16) (data : FieldData) :
    MamaStatus × Message :=
  match data.value with
  | none => (.nullArg, message)
  | some ⟨bytes, _⟩ =>
      if name = none ∧ fid = 0 then (.nullArg, message)
      else
        match message.find name fid with
        | none => message.addField name fid data
        | some entry =>
            if entry.type ≠ data.type ∧ areFieldTypesCastable entry.type data.type = false then
              (.wrongFieldType, message)
            else (.ok, message.replace name fid bytes)

/-- What `clear` leaves. -/
def clear (_ : Message) : MamaStatus × Message := (.ok, empty)

/-- A rejected `addField` changes nothing. -/
theorem addField_eq_of_ne_ok {message : Message} {name : Option CString} {fid : UInt16}
    {data : FieldData} (rejected : (message.addField name fid data).1 ≠ .ok) :
    (message.addField name fid data).2 = message := by
  simp only [addField] at rejected ⊢
  split at rejected
  · rfl
  · split_ifs at rejected ⊢
    · rfl
    · rfl
    · cases validated : validateNameFid name fid with
      | some status => rfl
      | none =>
          rw [validated] at rejected
          exact absurd rfl rejected

/-- A rejected `updateField` changes nothing. -/
theorem updateField_eq_of_ne_ok {message : Message} {name : Option CString} {fid : UInt16}
    {data : FieldData} (rejected : (message.updateField name fid data).1 ≠ .ok) :
    (message.updateField name fid data).2 = message := by
  simp only [updateField] at rejected ⊢
  split at rejected
  · rfl
  · split_ifs at rejected ⊢
    · rfl
    · cases found : message.find name fid with
      | none =>
          rw [found] at rejected
          exact addField_eq_of_ne_ok rejected
      | some entry =>
          rw [found] at rejected
          dsimp only at rejected ⊢
          split_ifs at rejected ⊢
          · rfl
          · exact absurd rfl rejected

end Message

end Omnm
