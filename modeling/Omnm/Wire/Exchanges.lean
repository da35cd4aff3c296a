import Omnm.Runs.Interleavings
import Omnm.Wire.KeyedCalls

/-!
# Calls that can be exchanged

Two clients work on the fields of one message under keys that find different
fields (`Message.Apart`). The one may add fields, the other updates and reads
fields that are there. Their calls keep the clients apart
(`keptBy_apart`), and a call of the one can be moved in front of a call of the
other (`exchangeable_apart`).
-/

set_option autoImplicit false

namespace Omnm

variable [FieldTypeTags] {message : Message} {key other own : FieldKey} {effect : Effect}
  {mutation : Mutation}

/-! ## Effects under different keys -/

/-- An effect leaves a field that is found under another key than its own. -/
theorem Effect.Of.first_of_ne (described : effect.Of own (message.first own) mutation)
    {entry : FieldEntry} (found : message.first key = some entry)
    (differs : message.first key ≠ message.first own) :
    (message.change own effect).first key = some entry := by
  rw [Message.first_change]
  cases effect with
  | keep => exact found
  | append added fits => rw [Effect.first, found, Option.some_or]
  | replace data => rw [Effect.first, if_neg differs, found]

/-- An effect that appends no field leaves what is found under another key than its own. -/
theorem Effect.first_of_no_append (noAppend : ∀ entry fits, effect ≠ .append entry fits)
    (differs : message.first key ≠ message.first own) :
    (message.change own effect).first key = message.first key := by
  rw [Message.first_change]
  cases effect with
  | keep => rfl
  | append added fits => exact absurd rfl (noAppend added fits)
  | replace data => rw [Effect.first, if_neg differs]

/-- A field whose data are replaced does not become one that another key finds. -/
theorem Message.withData_ne {entry found : FieldEntry} (first : message.first own = some entry)
    (search : message.first key = some found) (differs : entry ≠ found) (data : List UInt8) :
    entry.withData data ≠ found := by
  intro same
  apply differs
  refine eq_of_find first search ?_ ?_
  · rw [← same, FieldEntry.hasKey_withData]
    exact List.find?_some first
  · rw [← FieldEntry.hasKey_withData key.1 key.2 data, same]
    exact List.find?_some search

/-- Two messages with one header and the same fields. -/
theorem Message.eq_of_entries {changed : Message} (kind : changed.kind = message.kind)
    (version : changed.version = message.version) (extra : changed.extra = message.extra)
    (entries : changed.entries = message.entries) : changed = message := by
  cases changed
  cases message
  simp only at kind version extra entries
  subst kind version extra entries
  rfl

/-- An effect can be exchanged with one under another key that appends no field. -/
theorem Message.change_comm {first : FieldEntry} {change : Effect}
    (found : message.first other = some first) (differs : message.first own ≠ some first)
    (noAppend : ∀ entry fits, change ≠ .append entry fits) :
    (message.change other change).change own effect =
      (message.change own effect).change other change := by
  cases change with
  | keep => rfl
  | append entry fits => exact absurd rfl (noAppend entry fits)
  | replace data =>
      cases effect with
      | keep => rfl
      | append entry fits =>
          exact Message.eq_of_entries rfl rfl rfl (updateFirst_append_of_find found [entry]).symm
      | replace data' =>
          exact Message.eq_of_entries rfl rfl rfl (updateFirst_comm found differs
            (FieldEntry.hasKey_withData own.1 own.2 data)
            (FieldEntry.hasKey_withData other.1 other.2 data')).symm

/-! ## Two clients -/

/-- The keys of the other client find fields, and these are not those that the client finds. -/
structure Message.Apart (mine theirs : FieldKey → Prop) (message : Message) : Prop where
  found : ∀ other, theirs other → message.first other ≠ none
  differs : ∀ key, mine key → ∀ other, theirs other → message.first key ≠ message.first other

/-- A call that is not one of the functions that add. -/
def ObjectCall.AddsNothing : ObjectCall → Prop
  | .mutate (.field _ name fid request) => ¬ (request.mutation name fid).Adds
  | _ => True

/-- A call of the client under its keys, or one of the other client, under the other keys, that
adds nothing. -/
def ObjectCall.OfClients (mineCall : ObjectCall → Bool) (mine theirs : FieldKey → Prop)
    (call : ObjectCall) : Prop :=
  (mineCall call = true → call.Within mine) ∧
    (mineCall call = false → call.Within theirs ∧ call.AddsNothing)

variable {mine theirs : FieldKey → Prop}

/-- An effect of the client keeps its keys away from the fields of the other client. -/
theorem Message.Apart.change_mine (apart : message.Apart mine theirs) (among : mine own)
    (described : effect.Of own (message.first own) mutation) :
    (message.change own effect).Apart mine theirs := by
  have kept : ∀ other, theirs other →
      (message.change own effect).first other = message.first other := by
    intro other isTheirs
    obtain ⟨found, search⟩ := Option.ne_none_iff_exists'.mp (apart.found other isTheirs)
    rw [described.first_of_ne search (apart.differs own among other isTheirs).symm, search]
  constructor
  · intro other isTheirs
    rw [kept other isTheirs]
    exact apart.found other isTheirs
  · intro key isMine other isTheirs
    obtain ⟨found, search⟩ := Option.ne_none_iff_exists'.mp (apart.found other isTheirs)
    have differs := apart.differs key isMine other isTheirs
    rw [kept other isTheirs, Message.first_change]
    rw [search] at differs ⊢
    cases effect with
    | keep => exact differs
    | append entry fits =>
        rw [Effect.first]
        cases absent : message.first key with
        | some first =>
            rw [Option.some_or, ← absent]
            exact differs
        | none =>
            -- a new field with the key of one that is there would have been found
            intro same
            have sees : found.hasKey key.1 key.2 = true := by
              rw [Option.none_or] at same
              split at same
              · rename_i matching
                rw [← Option.some.inj same]
                exact matching
              · cases same
            have member : found ∈ message.entries := List.mem_of_find?_eq_some search
            exact absurd sees (by simpa using List.find?_eq_none.mp absent found member)
    | replace data =>
        rw [Effect.first]
        split
        · cases first : message.first key with
          | none => simp
          | some entry =>
              rw [first] at differs
              rw [Option.map_some]
              intro equal
              exact Message.withData_ne first search (fun same => differs (congrArg some same))
                data (Option.some.inj equal)
        · exact differs

/-- So does an effect of the other client that appends no field. -/
theorem Message.Apart.change_theirs (apart : message.Apart mine theirs) (among : theirs own)
    (noAppend : ∀ entry fits, effect ≠ .append entry fits) :
    (message.change own effect).Apart mine theirs := by
  constructor
  · intro other isTheirs
    have found := apart.found other isTheirs
    rw [Message.first_change]
    cases effect with
    | keep => exact found
    | append entry fits => exact absurd rfl (noAppend entry fits)
    | replace data =>
        rw [Effect.first]
        split
        · rwa [ne_eq, Option.map_eq_none_iff]
        · exact found
  · intro key isMine other isTheirs
    have differs := apart.differs key isMine other isTheirs
    rw [Effect.first_of_no_append noAppend (apart.differs key isMine own among),
      Message.first_change]
    cases effect with
    | keep => exact differs
    | append entry fits => exact absurd rfl (noAppend entry fits)
    | replace data =>
        rw [Effect.first]
        split
        · obtain ⟨found, search⟩ := Option.ne_none_iff_exists'.mp (apart.found other isTheirs)
          rw [search, Option.map_some]
          intro equal
          rw [search] at differs
          exact Message.withData_ne search equal (fun same => differs (same ▸ equal)) data rfl
        · exact differs

variable [MamaLibrary] [FieldPrinting]

/-- A call under one of some keys: its answer and its effect follow from what one of them finds. -/
theorem ObjectCall.Within.exists_effect {keys : FieldKey → Prop} {call : ObjectCall}
    (within : call.Within keys) (message : Message) :
    ∃ key out effect, keys key ∧
      (∃ mutation, effect.Of key (message.first key) mutation) ∧
      (call.AddsNothing → message.first key ≠ none →
        ∀ entry fits, effect ≠ .append entry fits) ∧
      ∀ changed : Message, changed.first key = message.first key →
        call.onMessage changed = (out, changed.change key effect) := by
  cases call with
  | read call =>
      obtain ⟨key, keyed, among⟩ := within
      refine ⟨key, message.answer call, .keep, among, ⟨.refuse .ok, trivial⟩, by simp, ?_⟩
      intro changed same
      rw [ObjectCall.onMessage, ReadCall.answer_congr keyed same]
      rfl
  | mutate call =>
      cases call with
      | clear => exact within.elim
      | unSerialize memory buffer length => exact within.elim
      | field memory name fid request =>
          obtain ⟨status, effect, described, mutates⟩ :=
            Omnm.exists_effect (request.mutation name fid) (name, fid) (message.first (name, fid))
          refine ⟨(name, fid), .status status, effect, within, ⟨_, described⟩, ?_, ?_⟩
          · rintro adds some_found entry fits rfl
            exact described.2.2.elim adds some_found
          · intro changed same
            simp only [ObjectCall.onMessage, PayloadCall.onMessage, mutates changed same]

variable {mineCall : ObjectCall → Bool}

/-- Calls of the two clients keep them apart. -/
theorem keptBy_apart :
    KeptBy messageServe (Message.Apart mine theirs) (ObjectCall.OfClients mineCall mine theirs) := by
  intro message call out next apart clients stepped
  obtain ⟨-, rfl⟩ := messageServe_eq_some.mp stepped
  cases owned : mineCall call with
  | true =>
      obtain ⟨key, answer, effect, among, ⟨mutation, described⟩, -, performs⟩ :=
        (clients.1 owned).exists_effect message
      rw [performs message rfl]
      exact apart.change_mine among described
  | false =>
      obtain ⟨within, adds⟩ := clients.2 owned
      obtain ⟨key, answer, effect, among, -, noAppend, performs⟩ := within.exists_effect message
      rw [performs message rfl]
      exact apart.change_theirs among (noAppend adds (apart.found key among))

/-- A call of the client can be moved in front of one of the other client. -/
theorem exchangeable_apart :
    Exchangeable messageServe (Message.Apart mine theirs)
      (ObjectCall.OfClients mineCall mine theirs) mineCall := by
  intro message other call outOther out middle last apart clientsOther clients isOther isMine
    steppedOther stepped
  obtain ⟨rfl, rfl⟩ := messageServe_eq_some.mp steppedOther
  obtain ⟨rfl, rfl⟩ := messageServe_eq_some.mp stepped
  obtain ⟨within, adds⟩ := clientsOther.2 isOther
  obtain ⟨key', answer', effect', among', -, noAppend, performs'⟩ := within.exists_effect message
  obtain ⟨key, answer, effect, among, ⟨mutation, described⟩, -, performs⟩ :=
    (clients.1 isMine).exists_effect message
  obtain ⟨found, search⟩ := Option.ne_none_iff_exists'.mp (apart.found key' among')
  have differs := apart.differs key among key' among'
  have appendsNothing := noAppend adds (apart.found key' among')
  have seen : (message.change key' effect').first key = message.first key :=
    Effect.first_of_no_append appendsNothing differs
  have seenOther : (message.change key effect).first key' = message.first key' := by
    rw [described.first_of_ne search differs.symm, search]
  refine ⟨message.change key effect, ?_, ?_⟩
  · rw [performs' message rfl, performs _ seen]
    exact messageServe_eq_some.mpr (by rw [performs message rfl]; exact ⟨rfl, rfl⟩)
  · rw [performs' message rfl, performs _ seen]
    refine messageServe_eq_some.mpr ?_
    rw [performs' _ seenOther]
    exact ⟨rfl, Message.change_comm search (search ▸ differs) appendsNothing⟩

end Omnm
