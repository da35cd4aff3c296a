import Omnm.Wire.ObjectRuns

/-!
# What calls under a key see and change

A mutation under a key does what the first field with the key tells it to: it
leaves the list of fields, puts a field behind it, or changes the data of that
field (`exists_effect`). `Message.first_change` says what any other key finds
then. A read under a key sees no more than what the key finds (`answer_congr`).

So calls under some keys take two messages in which these find the same to two
such messages, with the same answers (`Within.agreeOn`), and calls under other
keys leave what they find (`Spares.agreeOn`).
-/

set_option autoImplicit false

namespace Omnm

open FieldTypeTags (tag)

/-- A name or NULL, and a fid. -/
abbrev FieldKey := Option CString × UInt16

/-- The key of a read under a key. -/
def ReadCall.key : ReadCall → Option FieldKey
  | .toString _ | .getNumFields | .getByteSize | .serialize | .iterateFields => none
  | .getFieldAsString name fid _ | .getScalar _ name fid | .getVectorScalar _ name fid
  | .getString name fid | .getOpaque name fid | .getDateTime name fid | .getPrice name fid
  | .getMsg _ name fid | .getVectorString _ name fid | .getVectorDateTime _ name fid
  | .getVectorPrice _ name fid | .getVectorMsg _ name fid | .getField name fid => some (name, fid)

variable [FieldTypeTags]

/-! ## Effects -/

/-- What becomes of a list of fields. -/
inductive Effect where
  | keep
  | append (entry : FieldEntry) (fits : DataFits entry.type entry.data)
  | replace (data : List UInt8)

namespace Message

/-- The message after an effect of a call under a key. -/
def change (message : Message) (key : FieldKey) : Effect → Message
  | .keep => message
  | .append entry fits => message.append entry fits
  | .replace data => message.replace key.1 key.2 data

/-- What a key finds. -/
def first (message : Message) (key : FieldKey) : Option FieldEntry := message.find key.1 key.2

end Message

/-- What another key finds after an effect, from what the two keys found before it. -/
def Effect.first (other : FieldKey) (own found : Option FieldEntry) : Effect → Option FieldEntry
  | .keep => found
  | .append entry _ => found.or (if entry.hasKey other.1 other.2 then some entry else none)
  | .replace data => if found = own then found.map (FieldEntry.withData data) else found

theorem FieldEntry.hasKey_withData (name : Option CString) (fid : UInt16) (data : List UInt8)
    (entry : FieldEntry) : (entry.withData data).hasKey name fid = entry.hasKey name fid := by
  unfold FieldEntry.withData
  split <;> rfl

/-- What a key finds depends on what it and the key of the effect found before. -/
theorem Message.first_change (message : Message) (key other : FieldKey) (effect : Effect) :
    (message.change key effect).first other =
      effect.first other (message.first key) (message.first other) := by
  cases effect with
  | keep => rfl
  | append entry fits =>
      show (message.entries ++ [entry]).find? _ = _
      rw [List.find?_append, List.find?_singleton]
      rfl
  | replace data =>
      exact find_updateFirst_eq (FieldEntry.hasKey_withData other.1 other.2 data) message.entries

/-- A mutation that adds a field. -/
def Mutation.Adds : Mutation → Prop
  | .add _ _ => True
  | .refuse _ | .update _ _ | .updateVector _ _ => False

/-- An effect of a mutation under a key: a field that is appended has the key, and the data of a
field are replaced by an update only. -/
def Effect.Of (key : FieldKey) (found : Option FieldEntry) (mutation : Mutation) : Effect → Prop
  | .keep => True
  | .append entry _ => entry.fid = key.2 ∧ entry.name = key.1.getD CString.empty ∧
      (mutation.Adds ∨ found = none)
  | .replace _ => mutation.updates ≠ none ∧ found ≠ none

section

variable {key : FieldKey} {found : Option FieldEntry} {mutation : Mutation}

/-- What adding a field does. -/
theorem exists_effect_addField (key : FieldKey) (data : FieldData) (found : Option FieldEntry)
    {mutation : Mutation} (adds : mutation.Adds ∨ found = none) :
    ∃ status effect, Effect.Of key found mutation effect ∧
      ∀ message : Message, message.addField key.1 key.2 data =
        (status, message.change key effect) := by
  obtain ⟨type, listed, value⟩ := data
  cases value with
  | none => exact ⟨.nullArg, .keep, trivial, fun _ => rfl⟩
  | some value =>
      obtain ⟨bytes, fits⟩ := value
      by_cases long : 2 ^ 32 ≤ bytes.length
      · refine ⟨.invalidArg, .keep, trivial, fun _ => ?_⟩
        simp only [Message.addField, if_pos long]
        rfl
      by_cases null : bytes = [] ∨ (key.1 = none ∧ key.2 = 0)
      · refine ⟨.nullArg, .keep, trivial, fun _ => ?_⟩
        simp only [Message.addField, if_neg long, if_pos null]
        rfl
      cases rejected : validateNameFid key.1 key.2 with
      | some status =>
          refine ⟨status, .keep, trivial, fun _ => ?_⟩
          simp only [Message.addField, if_neg long, if_neg null, rejected]
          rfl
      | none =>
          refine ⟨.ok, .append ⟨type, key.2, key.1.getD CString.empty, bytes⟩ fits,
            ⟨rfl, rfl, adds⟩, fun _ => ?_⟩
          simp only [Message.addField, if_neg long, if_neg null, rejected]
          rfl

/-- What updating a field does, from what its key finds. -/
theorem exists_effect_updateField (key : FieldKey) (data : FieldData) (found : Option FieldEntry)
    {mutation : Mutation} (updates : mutation.updates ≠ none) :
    ∃ status effect, Effect.Of key found mutation effect ∧
      ∀ message : Message, message.first key = found →
        message.updateField key.1 key.2 data = (status, message.change key effect) := by
  obtain ⟨type, listed, value⟩ := data
  cases value with
  | none => exact ⟨.nullArg, .keep, trivial, fun _ _ => rfl⟩
  | some value =>
      obtain ⟨bytes, fits⟩ := value
      by_cases null : key.1 = none ∧ key.2 = 0
      · refine ⟨.nullArg, .keep, trivial, fun _ _ => ?_⟩
        simp only [Message.updateField, if_pos null]
        rfl
      cases found with
      | none =>
          obtain ⟨status, effect, described, adds⟩ :=
            exists_effect_addField key ⟨type, listed, some ⟨bytes, fits⟩⟩ none
              (show mutation.Adds ∨ _ from .inr rfl)
          refine ⟨status, effect, described, fun message absent => ?_⟩
          rw [Message.first] at absent
          simp only [Message.updateField, if_neg null, absent, adds]
      | some entry =>
          by_cases refused : entry.type ≠ type ∧ areFieldTypesCastable entry.type type = false
          · refine ⟨.wrongFieldType, .keep, trivial, fun message finds => ?_⟩
            rw [Message.first] at finds
            simp only [Message.updateField, if_neg null, finds, if_pos refused]
            rfl
          · refine ⟨.ok, .replace bytes, ⟨updates, by simp⟩, fun message finds => ?_⟩
            rw [Message.first] at finds
            simp only [Message.updateField, if_neg null, finds, if_neg refused]
            rfl

/-- What a mutation does depends on what its key finds and on nothing else of the message. -/
theorem exists_effect (mutation : Mutation) (key : FieldKey) (found : Option FieldEntry) :
    ∃ status effect, Effect.Of key found mutation effect ∧
      ∀ message : Message, message.first key = found →
        message.mutate key.1 key.2 mutation = (status, message.change key effect) := by
  cases mutation with
  | refuse status => exact ⟨status, .keep, trivial, fun _ _ => rfl⟩
  | add type value =>
      cases value with
      | none => exact ⟨.nullArg, .keep, trivial, fun _ _ => rfl⟩
      | some bytes =>
          cases given : FieldData.of type bytes with
          | none =>
              refine ⟨.invalidArg, .keep, trivial, fun _ _ => ?_⟩
              rw [Message.mutate, given]
              rfl
          | some data =>
              obtain ⟨status, effect, described, adds⟩ := exists_effect_addField key data found
                (show (Mutation.add type (some bytes)).Adds ∨ _ from .inl trivial)
              refine ⟨status, effect, described, fun message _ => ?_⟩
              rw [Message.mutate, given, Option.elim_some, adds]
  | update type value =>
      cases value with
      | none => exact ⟨.nullArg, .keep, trivial, fun _ _ => rfl⟩
      | some bytes =>
          cases given : FieldData.of type bytes with
          | none =>
              refine ⟨.invalidArg, .keep, trivial, fun _ _ => ?_⟩
              rw [Message.mutate, given]
              rfl
          | some data =>
              obtain ⟨status, effect, described, updates⟩ := exists_effect_updateField key data
                found (show (Mutation.update type (some bytes)).updates ≠ none by
                  simp [Mutation.updates])
              refine ⟨status, effect, described, fun message finds => ?_⟩
              rw [Message.mutate, given, Option.elim_some, updates message finds]
  | updateVector type bytes =>
      have vector : (Mutation.updateVector type bytes).updates ≠ none := by
        simp [Mutation.updates]
      cases given : FieldData.of type bytes with
      | none =>
          refine ⟨.invalidArg, .keep, trivial, fun _ _ => ?_⟩
          rw [Message.mutate, given]
          rfl
      | some data =>
          cases found with
          | none =>
              obtain ⟨status, effect, described, adds⟩ := exists_effect_addField key data none
                (show (Mutation.updateVector type bytes).Adds ∨ _ from .inr rfl)
              refine ⟨status, effect, described, fun message absent => ?_⟩
              rw [Message.first] at absent
              rw [Message.mutate, given, Option.elim_some, absent, adds]
          | some entry =>
              obtain ⟨status, effect, described, updates⟩ :=
                exists_effect_updateField key data (some entry) vector
              refine ⟨.ok, effect, described, fun message finds => ?_⟩
              have found := finds
              rw [Message.first] at found
              rw [Message.mutate, given, Option.elim_some, found, updates message finds]

end

/-! ## Reads -/

/-- A read under a key sees what the key finds. -/
theorem ReadCall.answer_congr [MamaLibrary] [FieldPrinting] {call : ReadCall} {key : FieldKey}
    {message other : Message} (keyed : call.key = some key)
    (same : message.first key = other.first key) : message.answer call = other.answer call := by
  cases call <;> cases keyed <;>
    simp only [Message.answer, Message.lookup, show message.find _ _ = other.find _ _ from same]

/-! ## Calls of one client -/

/-- A call is made under one of the keys: it is a request to add or update, or a read. -/
def ObjectCall.Within (keys : FieldKey → Prop) : ObjectCall → Prop
  | .mutate (.field _ name fid _) => keys (name, fid)
  | .mutate .clear | .mutate (.unSerialize ..) => False
  | .read call => ∃ key, call.key = some key ∧ keys key

/-- A mutation leaves what a key finds: it does not update that field, and where the key finds
nothing it is not a key of a field that may be added. -/
def Mutation.Spares (message : Message) (own key : FieldKey) (mutation : Mutation) : Prop :=
  match message.first key with
  | some entry => mutation.updates = none ∨ message.first own ≠ some entry
  | none => FieldEntry.hasKey key.1 key.2 ⟨0, own.2, own.1.getD CString.empty, []⟩ = false

instance (message : Message) (own key : FieldKey) (mutation : Mutation) :
    Decidable (mutation.Spares message own key) :=
  match found : message.first key with
  | some entry => decidable_of_iff (mutation.updates = none ∨ message.first own ≠ some entry)
      (by simp [Mutation.Spares, found])
  | none => decidable_of_iff
      (FieldEntry.hasKey key.1 key.2 ⟨0, own.2, own.1.getD CString.empty, []⟩ = false)
      (by simp [Mutation.Spares, found])

/-- A call leaves what the keys find. -/
def ObjectCall.Spares (keys : FieldKey → Prop) (message : Message) : ObjectCall → Prop
  | .mutate (.field _ name fid request) =>
      ∀ key, keys key → (request.mutation name fid).Spares message (name, fid) key
  | .mutate .clear => ∀ key, keys key → message.first key = none
  | .mutate (.unSerialize ..) => False
  | .read _ => True

/-- The keys find the same in both messages. -/
def Message.AgreeOn (keys : FieldKey → Prop) (message other : Message) : Prop :=
  ∀ key, keys key → message.first key = other.first key

section

variable {keys : FieldKey → Prop} {message other : Message} {key own : FieldKey}

theorem Effect.Of.first_eq_of_spares {mutation : Mutation} {effect : Effect}
    (described : effect.Of own (message.first own) mutation)
    (spares : mutation.Spares message own key) :
    (message.change own effect).first key = message.first key := by
  rw [Message.first_change]
  unfold Mutation.Spares at spares
  cases effect with
  | keep => rfl
  | append entry fits =>
      obtain ⟨fid, name, -⟩ := described
      rw [Effect.first]
      cases found : message.first key with
      | some first => rfl
      | none =>
          have unmatched : entry.hasKey key.1 key.2 = false := by
            rw [found] at spares
            rw [← spares]
            simp only [FieldEntry.hasKey, fid, name]
          rw [unmatched]
          rfl
  | replace data =>
      obtain ⟨updates, some_own⟩ := described
      rw [Effect.first]
      cases found : message.first key with
      | none => exact ite_self none
      | some first =>
          rw [found] at spares
          have differs := spares.resolve_left updates
          rw [if_neg (Ne.symm differs)]

variable [MamaLibrary] [FieldPrinting]

/-- A call that spares the keys leaves what they find. -/
theorem ObjectCall.Spares.agreeOn {call : ObjectCall} (spares : call.Spares keys message) :
    (call.onMessage message).2.AgreeOn keys message := by
  intro key among
  cases call with
  | read call => rfl
  | mutate call =>
      cases call with
      | clear => exact (spares key among).symm
      | unSerialize memory buffer length => exact spares.elim
      | field memory name fid request =>
          obtain ⟨status, effect, described, mutates⟩ :=
            exists_effect (request.mutation name fid) (name, fid) (message.first (name, fid))
          have after := mutates message rfl
          simp only [ObjectCall.onMessage, PayloadCall.onMessage, after]
          exact described.first_eq_of_spares (spares key among)

/-- A call under one of the keys gives the same on messages in which these find the same, and
they do so afterwards. -/
theorem ObjectCall.Within.agreeOn {call : ObjectCall} (within : call.Within keys)
    (agree : message.AgreeOn keys other) :
    (call.onMessage message).1 = (call.onMessage other).1 ∧
      (call.onMessage message).2.AgreeOn keys (call.onMessage other).2 := by
  cases call with
  | read call =>
      obtain ⟨key, keyed, among⟩ := within
      exact ⟨ReadCall.answer_congr keyed (agree key among), agree⟩
  | mutate call =>
      cases call with
      | clear => exact within.elim
      | unSerialize memory buffer length => exact within.elim
      | field memory name fid request =>
          obtain ⟨status, effect, -, mutates⟩ :=
            exists_effect (request.mutation name fid) (name, fid) (message.first (name, fid))
          have after := mutates message rfl
          have afterOther := mutates other (agree (name, fid) within).symm
          simp only [ObjectCall.onMessage, PayloadCall.onMessage, after, afterOther, true_and]
          intro key among
          rw [Message.first_change, Message.first_change, agree key among,
            agree (name, fid) within]

end

end Omnm
