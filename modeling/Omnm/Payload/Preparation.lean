import Omnm.Payload.Calls
import Omnm.Wire.Message

/-!
# What a preparation does

A preparation touches the scratch buffer and nothing else
(`FieldRequest.every_prepare`), and the mutation it gives carries data of the
form its type prescribes (`FieldRequest.prepare_shaped`). When the scratch
buffer can grow, a preparation gives a mutation (`FieldRequest.exists_prepared`).

Vectors are copied element by element. The copies are one copy of the elements
together (`result_copyElements`, `result_copyMessages`), so a field that is
updated with them gets the elements and no older byte of the scratch buffer.
-/

set_option autoImplicit false

namespace Omnm

open FieldTypeTags (tag)

/-- An access to the scratch buffer. -/
def Access.OnScratch : Access Region → Prop
  | .load region _ _ => region = .scratch
  | .store region _ _ => region = .scratch
  | .move region _ _ _ => region = .scratch

/-! ## Copies into the scratch buffer -/

theorem length_flatten (elements : List (List UInt8)) :
    elementsLength elements = elements.flatten.length := by
  rw [elementsLength, List.length_flatten]

/-- The bytes of messages, each behind its length. -/
def messageRecords (messages : List (List UInt8)) : List UInt8 :=
  messages.flatMap fun bytes => littleEndian 4 bytes.length ++ bytes

theorem length_messageRecords (messages : List (List UInt8)) :
    messagesLength messages = (messageRecords messages).length := by
  induction messages with
  | nil => rfl
  | cons bytes messages ih =>
      have first : messagesLength (bytes :: messages) = bytes.length + 4 + messagesLength messages :=
        List.sum_cons
      have records : messageRecords (bytes :: messages) =
          littleEndian 4 bytes.length ++ bytes ++ messageRecords messages := List.flatMap_cons
      rw [first, ih, records, List.length_append, List.length_append, length_littleEndian]
      omega

/-- Elements that have room are copied one behind the other. -/
theorem result_copyElements {mBuffer : List UInt8} {target : Nat} {elements : List (List UInt8)}
    (room : target + elements.flatten.length ≤ mBuffer.length) :
    (copyElements mBuffer target elements).result =
      some (overwrite mBuffer target elements.flatten) := by
  induction elements generalizing mBuffer target with
  | nil => rw [copyElements, Traced.result_pure, List.flatten_nil, overwrite_nil]
  | cons element elements ih =>
      rw [List.flatten_cons, List.length_append] at room
      rw [copyElements, Traced.result_bind, result_store, Option.bind_some,
        ih (by rw [length_overwrite]; omega), List.flatten_cons,
        overwrite_behind rfl (by omega)]

/-- The copies keep the length of the buffer, also where it is too short for them. -/
theorem exists_copyElements (mBuffer : List UInt8) (target : Nat) (elements : List (List UInt8)) :
    ∃ scratch, (copyElements mBuffer target elements).result = some scratch ∧
      scratch.length = mBuffer.length := by
  induction elements generalizing mBuffer target with
  | nil => exact ⟨mBuffer, rfl, rfl⟩
  | cons element elements ih =>
      obtain ⟨scratch, copied, same⟩ := ih (overwrite mBuffer target element)
        (target + element.length)
      refine ⟨scratch, ?_, by rw [same, length_overwrite]⟩
      rw [copyElements, Traced.result_bind, result_store, Option.bind_some, copied]

theorem every_copyElements (mBuffer : List UInt8) (target : Nat) (elements : List (List UInt8)) :
    Traced.Every Access.OnScratch (copyElements mBuffer target elements) := by
  induction elements generalizing mBuffer target with
  | nil => exact Traced.every_pure _
  | cons element elements ih =>
      rw [copyElements, Traced.every_bind, every_store]
      exact ⟨rfl, fun mBuffer _ => ih mBuffer _⟩

/-- Messages that have room are copied one behind the other, unless one is too
long. -/
theorem result_copyMessages {mBuffer : List UInt8} {target : Nat} {messages : List (List UInt8)}
    (room : target + (messageRecords messages).length ≤ mBuffer.length) :
    ((∀ bytes ∈ messages, bytes.length ≤ uint32Max) ∧
        (copyMessages mBuffer target messages).result =
          some (none, overwrite mBuffer target (messageRecords messages))) ∨
      (¬ ∀ bytes ∈ messages, bytes.length ≤ uint32Max) ∧
        ∃ scratch, (copyMessages mBuffer target messages).result =
          some (some .invalidArg, scratch) ∧ scratch.length = mBuffer.length := by
  induction messages generalizing mBuffer target with
  | nil =>
      refine .inl ⟨by simp, ?_⟩
      rw [copyMessages, messageRecords, List.flatMap_nil, overwrite_nil]
      rfl
  | cons bytes messages ih =>
      rw [copyMessages]
      split
      · rename_i long
        refine .inr ⟨?_, mBuffer, rfl, rfl⟩
        intro short
        exact Nat.not_le.mpr long (short bytes (List.mem_cons_self ..))
      · rename_i short
        have four : (littleEndian 4 bytes.length).length = 4 := length_littleEndian ..
        have records : messageRecords (bytes :: messages) =
            littleEndian 4 bytes.length ++ bytes ++ messageRecords messages := List.flatMap_cons
        rw [records] at room ⊢
        simp only [List.length_append, four] at room
        have two : overwrite (overwrite mBuffer target (littleEndian 4 bytes.length)) (target + 4)
            bytes = overwrite mBuffer target (littleEndian 4 bytes.length ++ bytes) :=
          overwrite_behind (by rw [four]) (by omega)
        have all : overwrite (overwrite mBuffer target (littleEndian 4 bytes.length ++ bytes))
            (target + 4 + bytes.length) (messageRecords messages) =
            overwrite mBuffer target (littleEndian 4 bytes.length ++ bytes ++
              messageRecords messages) :=
          overwrite_behind (by rw [List.length_append, four, Nat.add_assoc]) (by omega)
        simp only [Traced.result_bind, result_store, Option.bind_some, two]
        rcases @ih (overwrite mBuffer target (littleEndian 4 bytes.length ++ bytes))
          (target + 4 + bytes.length) (by rw [length_overwrite]; omega) with
          ⟨others, copied⟩ | ⟨long, scratch, stopped, same⟩
        · refine .inl ⟨?_, by rw [copied, all]⟩
          intro other member
          rcases List.mem_cons.mp member with rfl | later
          · exact Nat.not_lt.mp short
          · exact others other later
        · refine .inr ⟨?_, scratch, stopped, by rw [same, length_overwrite]⟩
          intro short
          exact long fun other later => short other (List.mem_cons_of_mem _ later)

/-- The copies of messages keep the length of the buffer, also where it is too short for them, and
stop at a message that is too long. -/
theorem exists_copyMessages (mBuffer : List UInt8) (target : Nat) (messages : List (List UInt8)) :
    ∃ scratch, (copyMessages mBuffer target messages).result =
        some (if ∃ bytes ∈ messages, uint32Max < bytes.length then some .invalidArg else none,
          scratch) ∧ scratch.length = mBuffer.length := by
  induction messages generalizing mBuffer target with
  | nil => exact ⟨mBuffer, by rw [if_neg (by simp)]; rfl, rfl⟩
  | cons bytes messages ih =>
      rw [copyMessages]
      by_cases long : uint32Max < bytes.length
      · refine ⟨mBuffer, ?_, rfl⟩
        rw [if_pos long, if_pos ⟨bytes, List.mem_cons_self .., long⟩]
        rfl
      · obtain ⟨scratch, copied, length⟩ := ih (overwrite (overwrite mBuffer target
          (littleEndian 4 bytes.length)) (target + 4) bytes) (target + 4 + bytes.length)
        refine ⟨scratch, ?_, by rw [length, length_overwrite, length_overwrite]⟩
        have later : (∃ other ∈ bytes :: messages, uint32Max < other.length) ↔
            ∃ other ∈ messages, uint32Max < other.length := by simp [long]
        simp only [if_neg long, Traced.result_bind, result_store, Option.bind_some, copied, later]

theorem every_copyMessages (mBuffer : List UInt8) (target : Nat) (messages : List (List UInt8)) :
    Traced.Every Access.OnScratch (copyMessages mBuffer target messages) := by
  induction messages generalizing mBuffer target with
  | nil => exact Traced.every_pure _
  | cons bytes messages ih =>
      rw [copyMessages]
      split
      · exact Traced.every_pure _
      · simp only [Traced.every_bind, every_store]
        exact ⟨rfl, fun _ _ => ⟨rfl, fun mBuffer _ => ih mBuffer _⟩⟩

theorem every_scratchArgument (mBuffer : List UInt8) (length : Nat) :
    Traced.Every Access.OnScratch (scratchArgument mBuffer length) := by
  unfold scratchArgument
  split
  · exact Traced.every_pure _
  · rw [Traced.every_bind]
    refine ⟨?_, fun _ _ => Traced.every_pure _⟩
    intro access member
    obtain rfl := List.mem_singleton.mp member
    rfl

/-- The scratch buffer as an argument, when it has the bytes asked for. -/
theorem result_scratchArgument {mBuffer : List UInt8} {length : Nat}
    (inside : length ≤ mBuffer.length) :
    (scratchArgument mBuffer length).result =
      some (if mBuffer = [] then none else some (mBuffer.take length)) := by
  unfold scratchArgument
  split
  · rfl
  · have whole : 0 + length ≤ mBuffer.length := by omega
    rw [Traced.result_bind, loadBytes, if_pos whole]
    rfl

/-- A scratch buffer that is too short for its argument is read past its end. -/
theorem result_scratchArgument_short {mBuffer : List UInt8} {length : Nat}
    (some_bytes : mBuffer ≠ []) (short : mBuffer.length < length) :
    (scratchArgument mBuffer length).result = none := by
  have outside : ¬ 0 + length ≤ mBuffer.length := by omega
  rw [scratchArgument, if_neg some_bytes, Traced.result_bind, loadBytes, if_neg outside]
  rfl

/-! ## Preparations -/

section

variable {memory : CallMemory} {mBuffer : List UInt8} {name : Option CString} {fid : UInt16}

/-- A scratch buffer that can grow is as long as a vector needs. -/
theorem le_length_scratch (succeeds : memory.scratch.Succeeds) (mBuffer : List UInt8)
    (length : Nat) :
    length ≤ (allocateBufferMemory memory.scratch mBuffer length).buffer.length := by
  obtain ⟨fresh, grown, enough⟩ := exists_fresh_of_succeeded
    (allocateBufferMemory_of_succeeds succeeds mBuffer length)
  rw [grown]
  exact enough

theorem result_buildElements (succeeds : memory.scratch.Succeeds) (elements : List (List UInt8)) :
    (buildElements memory mBuffer elements).result = some (overwrite
      (allocateBufferMemory memory.scratch mBuffer (elementsLength elements)).buffer 0
      elements.flatten) := by
  apply result_copyElements
  rw [Nat.zero_add, ← length_flatten]
  exact le_length_scratch succeeds ..

/-- The bytes a copy to the front of a buffer wrote. -/
theorem take_overwrite_zero {buffer bytes : List UInt8} {length : Nat}
    (same : length = bytes.length) (room : length ≤ buffer.length) :
    (overwrite buffer 0 bytes).take length = bytes := by
  subst same
  rw [overwrite_of_le (by rwa [Nat.zero_add]), List.take_zero, List.nil_append, List.take_left]

/-- Elements go on to the update, and nothing else does. -/
theorem result_prepareElements (succeeds : memory.scratch.Succeeds) (type : MamaFieldType)
    (elements : List (List UInt8)) :
    ∃ scratch, (prepareElements memory mBuffer type elements).result = some
        (.update type (if scratch = [] then none else some elements.flatten), scratch) ∧
      scratch.length =
        (allocateBufferMemory memory.scratch mBuffer (elementsLength elements)).buffer.length := by
  have room := le_length_scratch succeeds mBuffer (elementsLength elements)
  refine ⟨overwrite (allocateBufferMemory memory.scratch mBuffer (elementsLength elements)).buffer 0
    elements.flatten, ?_, length_overwrite ..⟩
  rw [prepareElements, Traced.result_bind, result_buildElements succeeds, Option.bind_some,
    Traced.result_bind, result_scratchArgument (by rwa [length_overwrite]), Option.bind_some,
    take_overwrite_zero (length_flatten elements) room]
  rfl

/-- The whole scratch buffer goes on to the addition. -/
theorem result_prepareWhole (succeeds : memory.scratch.Succeeds) (elements : List (List UInt8)) :
    ∃ scratch, (prepareWhole memory mBuffer elements).result = some
        (.add .vectorString (if scratch = [] then none else some scratch), scratch) ∧
      scratch = overwrite
        (allocateBufferMemory memory.scratch mBuffer (elementsLength elements)).buffer 0
        elements.flatten := by
  refine ⟨_, ?_, rfl⟩
  rw [prepareWhole, Traced.result_bind, result_buildElements succeeds, Option.bind_some,
    Traced.result_bind, result_scratchArgument (Nat.le_refl _), Option.bind_some, List.take_length]
  rfl

/-- Messages go on to the update, unless one is too long. -/
theorem result_prepareMessages (succeeds : memory.scratch.Succeeds) (messages : List (List UInt8)) :
    ∃ scratch, scratch.length =
        (allocateBufferMemory memory.scratch mBuffer (messagesLength messages)).buffer.length ∧
      (((∀ bytes ∈ messages, bytes.length ≤ uint32Max) ∧
          (prepareMessages memory mBuffer messages).result = some (.update .vectorMsg
            (if scratch = [] then none else some (messageRecords messages)), scratch)) ∨
        ((¬ ∀ bytes ∈ messages, bytes.length ≤ uint32Max) ∧
          (prepareMessages memory mBuffer messages).result =
            some (.refuse .invalidArg, scratch))) := by
  have room := le_length_scratch succeeds mBuffer (messagesLength messages)
  rw [prepareMessages, Traced.result_bind]
  rcases @result_copyMessages
    (allocateBufferMemory memory.scratch mBuffer (messagesLength messages)).buffer 0 messages
    (by rwa [Nat.zero_add, ← length_messageRecords]) with
    ⟨short, copied⟩ | ⟨long, scratch, stopped, same⟩
  · refine ⟨overwrite (allocateBufferMemory memory.scratch mBuffer
      (messagesLength messages)).buffer 0 (messageRecords messages), length_overwrite .., ?_⟩
    refine .inl ⟨short, ?_⟩
    rw [copied, Option.bind_some, Traced.result_bind,
      result_scratchArgument (by rwa [length_overwrite]), Option.bind_some,
      take_overwrite_zero (length_messageRecords messages) room]
    rfl
  · exact ⟨scratch, same, .inr ⟨long, by rw [stopped]; rfl⟩⟩

/-- The checks in front of a vector, seen from what is behind them. -/
theorem checked_cases {Value : Type} (mBuffer : List UInt8) (name : Option CString) (fid : UInt16)
    (value : Option Value) (build : Value → Traced Region (Mutation × List UInt8)) :
    (∃ status, checked mBuffer name fid value build = pure (.refuse status, mBuffer)) ∨
      ∃ given, value = some given ∧ checked mBuffer name fid value build = build given := by
  simp only [checked]
  cases validateNameFid name fid with
  | some status => exact .inl ⟨status, rfl⟩
  | none =>
      cases value with
      | none => exact .inl ⟨.nullArg, rfl⟩
      | some given => exact .inr ⟨given, rfl, rfl⟩

theorem every_prepareElements (type : MamaFieldType) (elements : List (List UInt8)) :
    Traced.Every Access.OnScratch (prepareElements memory mBuffer type elements) := by
  simp only [prepareElements, buildElements, Traced.every_bind, Traced.every_pure]
  exact ⟨every_copyElements _ _ _, fun _ _ => ⟨every_scratchArgument _ _, fun _ _ => trivial⟩⟩

theorem every_prepareWhole (elements : List (List UInt8)) :
    Traced.Every Access.OnScratch (prepareWhole memory mBuffer elements) := by
  simp only [prepareWhole, buildElements, Traced.every_bind, Traced.every_pure]
  exact ⟨every_copyElements _ _ _, fun _ _ => ⟨every_scratchArgument _ _, fun _ _ => trivial⟩⟩

theorem every_prepareMessages (messages : List (List UInt8)) :
    Traced.Every Access.OnScratch (prepareMessages memory mBuffer messages) := by
  rw [prepareMessages, Traced.every_bind]
  refine ⟨every_copyMessages _ _ _, ?_⟩
  rintro ⟨stopped, scratch⟩ -
  cases stopped with
  | some status => exact Traced.every_pure _
  | none =>
      rw [Traced.every_bind]
      exact ⟨every_scratchArgument _ _, fun _ _ => Traced.every_pure _⟩

theorem every_checked {Value : Type} {value : Option Value}
    {build : Value → Traced Region (Mutation × List UInt8)}
    (builds : ∀ given, Traced.Every Access.OnScratch (build given)) :
    Traced.Every Access.OnScratch (checked mBuffer name fid value build) := by
  rcases checked_cases mBuffer name fid value build with ⟨status, refused⟩ | ⟨given, -, built⟩
  · rw [refused]
    exact Traced.every_pure _
  · rw [built]
    exact builds given

/-- A preparation touches the scratch buffer only. -/
theorem FieldRequest.every_prepare (request : FieldRequest) :
    Traced.Every Access.OnScratch (request.prepare memory mBuffer name fid) := by
  cases request with
  | addVectorString value => exact every_checked fun strings => every_prepareWhole _
  | updateVectorString value => exact every_checked fun strings => every_prepareElements _ _
  | addVectorMsg value | updateVectorMsg value | updateVectorMsgPayload value =>
      exact every_checked fun messages => every_prepareMessages _
  | addVectorDateTime value | updateVectorTime value | addVectorPrice value
  | updateVectorPrice value => exact every_checked fun values => every_prepareElements _ _
  | _ => exact Traced.every_pure _

/-- A preparation gives a mutation when the scratch buffer can grow. -/
theorem FieldRequest.exists_prepared (succeeds : memory.scratch.Succeeds) (request : FieldRequest) :
    ∃ mutation scratch,
      (request.prepare memory mBuffer name fid).result = some (mutation, scratch) := by
  have build : ∀ {Value : Type} {value : Option Value}
      {build : Value → Traced Region (Mutation × List UInt8)},
      (∀ given, ∃ mutation scratch, (build given).result = some (mutation, scratch)) →
      ∃ mutation scratch,
        (checked mBuffer name fid value build).result = some (mutation, scratch) := by
    intro Value value build builds
    rcases checked_cases mBuffer name fid value build with ⟨status, refused⟩ | ⟨given, -, built⟩
    · exact ⟨_, _, by rw [refused]; rfl⟩
    · rw [built]
      exact builds given
  have elements : ∀ type elements, ∃ mutation scratch,
      (prepareElements memory mBuffer type elements).result = some (mutation, scratch) := by
    intro type elements
    obtain ⟨scratch, prepared, -⟩ := result_prepareElements succeeds type elements
    exact ⟨_, scratch, prepared⟩
  have messages : ∀ messages, ∃ mutation scratch,
      (prepareMessages memory mBuffer messages).result = some (mutation, scratch) := by
    intro messages
    obtain ⟨scratch, -, ⟨-, prepared⟩ | ⟨-, prepared⟩⟩ :=
      result_prepareMessages succeeds messages
    · exact ⟨_, scratch, prepared⟩
    · exact ⟨_, scratch, prepared⟩
  cases request with
  | addVectorString value =>
      apply build
      intro strings
      obtain ⟨scratch, prepared, -⟩ := result_prepareWhole succeeds
        (strings.map CString.terminated)
      exact ⟨_, scratch, prepared⟩
  | updateVectorString value => exact build fun strings => elements _ _
  | addVectorMsg value | updateVectorMsg value | updateVectorMsgPayload value =>
      exact build fun values => messages _
  | addVectorDateTime value | updateVectorTime value | addVectorPrice value
  | updateVectorPrice value => exact build fun values => elements _ _
  | _ => exact ⟨_, _, rfl⟩

/-! ## What a preparation gives -/

/-- A NULL pointer is refused, and so what holds of a refusal holds of what a pointer gives. -/
theorem ofPointer_of_each {holds : Mutation → Prop} {Value : Type} (value : Option Value)
    {mutation : Value → Mutation} (refused : holds (.refuse .nullArg))
    (each : ∀ given, holds (mutation given)) : holds (ofPointer value mutation) := by
  cases value with
  | none => exact refused
  | some given => exact each given

theorem ofScalars_of_each {holds : Mutation → Prop} (size : Nat) (value : Option (List Nat))
    {mutation : List UInt8 → Mutation} (refused : holds (.refuse .nullArg))
    (each : ∀ bytes, ¬ (name = none ∧ fid = 0) → holds (mutation bytes)) :
    holds (ofScalars name fid size value mutation) := by
  apply ofPointer_of_each value refused
  intro values
  split
  · exact refused
  · rename_i key
    exact each _ key

theorem ofMsg_of_each {holds : Mutation → Prop} (value : Option MamaMsg)
    {mutation : Option (List UInt8) → Mutation} (refused : ∀ status, holds (.refuse status))
    (each : ∀ bytes, holds (mutation bytes)) : holds (ofMsg value mutation) := by
  apply ofPointer_of_each value (refused _)
  intro value
  split
  · exact refused _
  · exact each _

/-- What elements are prepared for. -/
theorem update_of_prepareElements {type : MamaFieldType} {elements : List (List UInt8)}
    {mutation : Mutation} {scratch : List UInt8}
    (prepared : (prepareElements memory mBuffer type elements).result = some (mutation, scratch)) :
    ∃ data, mutation = .update type data := by
  simp only [prepareElements, Traced.result_bind, Traced.result_pure, Option.bind_eq_some_iff,
    Option.some.injEq, Prod.mk.injEq] at prepared
  obtain ⟨-, -, data, -, rfl, -⟩ := prepared
  exact ⟨data, rfl⟩

/-- Elements that are prepared go on to the update, unless they leave no scratch buffer. -/
theorem of_prepareElements {type : MamaFieldType} {elements : List (List UInt8)}
    {mutation : Mutation} {scratch : List UInt8}
    (prepared : (prepareElements memory mBuffer type elements).result = some (mutation, scratch)) :
    mutation = .update type (if scratch = [] then none else some elements.flatten) ∧
      scratch.length =
        (allocateBufferMemory memory.scratch mBuffer (elementsLength elements)).buffer.length := by
  obtain ⟨copied, built, prepared⟩ := Traced.result_bind_eq_some.mp prepared
  obtain ⟨data, argument, returned⟩ := Traced.result_bind_eq_some.mp prepared
  cases returned
  have length : scratch.length =
      (allocateBufferMemory memory.scratch mBuffer (elementsLength elements)).buffer.length := by
    obtain ⟨other, same, length⟩ := exists_copyElements
      (allocateBufferMemory memory.scratch mBuffer (elementsLength elements)).buffer 0 elements
    cases built.symm.trans same
    exact length
  refine ⟨congrArg _ ?_, length⟩
  by_cases empty : scratch = []
  · rw [scratchArgument, if_pos empty] at argument
    cases argument
    rw [if_pos empty]
  · -- the buffer is read for as many bytes as the elements have, and so has room for them
    have room : elementsLength elements ≤ scratch.length := by
      by_contra short
      rw [result_scratchArgument_short empty (Nat.not_le.mp short)] at argument
      cases argument
    have whole := @result_copyElements (allocateBufferMemory memory.scratch mBuffer
      (elementsLength elements)).buffer 0 elements
      (by rw [Nat.zero_add, ← length_flatten, ← length]; exact room)
    cases built.symm.trans whole
    rw [result_scratchArgument room, take_overwrite_zero (length_flatten elements)
      (length ▸ room)] at argument
    exact (Option.some.inj argument).symm

/-- What a vector of strings that is added is prepared for. -/
theorem add_of_prepareWhole {elements : List (List UInt8)} {mutation : Mutation}
    {scratch : List UInt8}
    (prepared : (prepareWhole memory mBuffer elements).result = some (mutation, scratch)) :
    ∃ data, mutation = .add .vectorString data := by
  simp only [prepareWhole, Traced.result_bind, Traced.result_pure, Option.bind_eq_some_iff,
    Option.some.injEq, Prod.mk.injEq] at prepared
  obtain ⟨-, -, data, -, rfl, -⟩ := prepared
  exact ⟨data, rfl⟩

/-- What messages are prepared for. -/
theorem update_of_prepareMessages {messages : List (List UInt8)} {mutation : Mutation}
    {scratch : List UInt8}
    (prepared : (prepareMessages memory mBuffer messages).result = some (mutation, scratch)) :
    (∃ status, mutation = .refuse status) ∨ ∃ data, mutation = .update .vectorMsg data := by
  simp only [prepareMessages, Traced.result_bind, Option.bind_eq_some_iff] at prepared
  obtain ⟨⟨stopped, copied⟩, -, prepared⟩ := prepared
  cases stopped with
  | some status =>
      cases prepared
      exact .inl ⟨status, rfl⟩
  | none =>
      simp only [Traced.result_bind, Traced.result_pure, Option.bind_eq_some_iff,
        Option.some.injEq, Prod.mk.injEq] at prepared
      obtain ⟨data, -, rfl, -⟩ := prepared
      exact .inr ⟨data, rfl⟩

/-- What holds of a refusal and of what is built for a value holds behind the checks. -/
theorem checked_of_each {holds : Mutation → Prop} {Value : Type} {value : Option Value}
    {build : Value → Traced Region (Mutation × List UInt8)}
    (refused : ∀ status, holds (.refuse status))
    (builds : ∀ given mutation scratch, (build given).result = some (mutation, scratch) →
      holds mutation) {mutation : Mutation} {scratch : List UInt8}
    (prepared : (checked mBuffer name fid value build).result = some (mutation, scratch)) :
    holds mutation := by
  rcases checked_cases mBuffer name fid value build with ⟨status, stopped⟩ | ⟨given, -, built⟩
  · rw [stopped] at prepared
    cases prepared
    exact refused status
  · rw [built] at prepared
    exact builds given mutation scratch prepared

end

/-! ## The data of a mutation -/

variable [FieldTypeTags]

/-- Data of the form its type prescribes, unless it is too long for its length to be
written. -/
structure DataShaped (type : MamaFieldType) (data : List UInt8) : Prop where
  known : type ≠ .unknown
  fits : data.length < 2 ^ 32 → DataFits (tag type) data

theorem dataFits_of_fixed {type : MamaFieldType} {width : Nat} {data : List UInt8}
    (layout : dataLayout (tag type) = .fixed width) (length : data.length = width) :
    DataFits (tag type) data := by
  simpa only [DataFits, layout] using length

/-- Data of a type of fixed width are that long. -/
theorem length_of_dataFits {type : UInt8} {name : MamaFieldType} {width : Nat} {data : List UInt8}
    (layout : dataLayout (tag name) = .fixed width) (named : type = tag name)
    (fits : DataFits type data) : data.length = width := by
  rwa [DataFits, named, layout] at fits

theorem dataLayout_time : dataLayout (tag .time) = .fixed sizeofOmnmDateTime := by
  simp [dataLayout]

theorem dataLayout_price : dataLayout (tag .price) = .fixed sizeofOmnmPrice := by
  simp [dataLayout]

theorem dataFits_terminated (string : CString) : DataFits (tag .string) string.terminated := by
  have scan := string.nulIndex_terminated []
  rw [List.append_nil] at scan
  simp [DataFits, dataLayout, scan]

theorem dataFits_dateTime (value : MamaDateTime) :
    DataFits (tag .time) (convertMamaDateTimeToOmnmDateTime value) :=
  dataFits_of_fixed dataLayout_time
    (by simp [convertMamaDateTimeToOmnmDateTime, sizeofOmnmDateTime])

theorem dataFits_price (value : MamaPrice) :
    DataFits (tag .price) (convertMamaPriceToOmnmPrice value) :=
  dataFits_of_fixed dataLayout_price (by simp [convertMamaPriceToOmnmPrice, sizeofOmnmPrice])

theorem dataShaped_of_sized {type : MamaFieldType} (layout : dataLayout (tag type) = .sized)
    (data : List UInt8) : DataShaped type data where
  known := by
    rintro rfl
    simp [dataLayout] at layout
  fits short := by simpa only [DataFits, layout] using short

theorem ScalarType.dataLayout_fieldType (scalar : ScalarType) :
    dataLayout (tag scalar.fieldType) = .fixed scalar.size := by
  cases scalar <;> simp [fieldType, dataLayout, size]

omit [FieldTypeTags] in
theorem ScalarType.fieldType_ne_unknown (scalar : ScalarType) : scalar.fieldType ≠ .unknown := by
  cases scalar <;> simp [ScalarType.fieldType]

theorem ScalarType.dataFits_littleEndian (scalar : ScalarType) (value : Nat) :
    DataFits (tag scalar.fieldType) (littleEndian scalar.size value) :=
  dataFits_of_fixed scalar.dataLayout_fieldType (length_littleEndian ..)

theorem ScalarType.dataLayout_vectorFieldType (scalar : ScalarType) :
    dataLayout (tag scalar.vectorFieldType) = .sized := by
  cases scalar <;> simp [vectorFieldType, dataLayout]

/-- A mutation whose data has the form its type prescribes, and whose key is given
when it looks up a vector. -/
def Mutation.Shaped (name : Option CString) (fid : UInt16) : Mutation → Prop
  | .refuse _ => True
  | .add type data => ∀ bytes, data = some bytes → DataShaped type bytes
  | .update type data => ∀ bytes, data = some bytes → DataShaped type bytes
  | .updateVector type bytes => DataShaped type bytes ∧ ¬ (name = none ∧ fid = 0)

section

variable {memory : CallMemory} {mBuffer : List UInt8} {name : Option CString} {fid : UInt16}

/-- The data of a request has the form its type prescribes. -/
theorem FieldRequest.prepare_shaped (request : FieldRequest) {mutation : Mutation}
    {scratch : List UInt8}
    (prepared : (request.prepare memory mBuffer name fid).result = some (mutation, scratch)) :
    mutation.Shaped name fid := by
  have refused : ∀ status, (Mutation.refuse status).Shaped name fid := fun _ => trivial
  cases request with
  | addVectorString value =>
      refine checked_of_each refused ?_ prepared
      intro _ _ _ built
      obtain ⟨data, rfl⟩ := add_of_prepareWhole built
      exact fun bytes _ => dataShaped_of_sized (by simp [dataLayout]) bytes
  | updateVectorString value | addVectorDateTime value | updateVectorTime value
  | addVectorPrice value | updateVectorPrice value =>
      refine checked_of_each refused ?_ prepared
      intro _ _ _ built
      obtain ⟨data, rfl⟩ := update_of_prepareElements built
      exact fun bytes _ => dataShaped_of_sized (by simp [dataLayout]) bytes
  | addVectorMsg value | updateVectorMsg value | updateVectorMsgPayload value =>
      refine checked_of_each refused ?_ prepared
      intro _ _ _ built
      rcases update_of_prepareMessages built with ⟨status, rfl⟩ | ⟨data, rfl⟩
      · trivial
      · exact fun bytes _ => dataShaped_of_sized (by simp [dataLayout]) bytes
  | addScalar scalar value | updateScalar scalar value =>
      cases prepared
      rintro bytes same
      cases same
      exact ⟨scalar.fieldType_ne_unknown, fun _ => scalar.dataFits_littleEndian value⟩
  | addVectorScalar scalar value =>
      cases prepared
      apply ofScalars_of_each _ value trivial
      intro bytes _ other same
      exact dataShaped_of_sized scalar.dataLayout_vectorFieldType other
  | updateVectorScalar scalar value =>
      cases prepared
      apply ofScalars_of_each _ value trivial
      intro bytes key
      exact ⟨dataShaped_of_sized scalar.dataLayout_vectorFieldType bytes, key⟩
  | addString value | updateString value =>
      cases prepared
      apply ofPointer_of_each value trivial
      intro string bytes same
      cases same
      exact ⟨by simp, fun _ => dataFits_terminated string⟩
  | addOpaque value | updateOpaque value =>
      cases prepared
      apply ofPointer_of_each value trivial
      exact fun _ bytes _ => dataShaped_of_sized (by simp [dataLayout]) bytes
  | addDateTime value | updateDateTime value =>
      cases prepared
      apply ofPointer_of_each value trivial
      intro value bytes same
      cases same
      exact ⟨by simp, fun _ => dataFits_dateTime value⟩
  | addPrice value | updatePrice value =>
      cases prepared
      apply ofPointer_of_each value trivial
      intro value bytes same
      cases same
      exact ⟨by simp, fun _ => dataFits_price value⟩
  | addMsg value | updateSubMsg value =>
      cases prepared
      apply ofMsg_of_each value refused
      exact fun _ bytes _ => dataShaped_of_sized (by simp [dataLayout]) bytes

end

end Omnm
