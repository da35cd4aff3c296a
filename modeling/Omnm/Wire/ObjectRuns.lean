import Omnm.Runs.Runs
import Omnm.Wire.MessageReads

/-!
# A payload object and a message as systems

The calls on a payload object, with what their caller sees (`observedStep`), and
the same calls on a message (`messageServe`). An admissible call, which
`omnmmsgPayload_addVectorString` and a call with an empty vector never are, keeps
an object and the message that it shows in step, with equal observations
(`Shows.perform_object`). A message does not see the memory of a call, which
`ObjectCall.request` puts aside, and so runs of calls that ask for the same leave
an object and a message in step (`Shows.run_objects`).
-/

set_option autoImplicit false

namespace Omnm

open OmnmPayloadImpl

variable [FieldTypeTags] [MamaLibrary] [FieldPrinting]

/-! ## The two systems -/

/-- What the caller of a call sees in the object that it leaves. -/
def ObjectCall.observe (call : ObjectCall) (msg : OmnmPayloadImpl) : ObjectOut → Observation
  | .status status => .status status
  | .result result =>
      match call with
      | .mutate _ => .returned
      | .read call => result.observe call msg

/-- A call on a message. -/
def ObjectCall.onMessage (message : Message) : ObjectCall → Observation × Message
  | .mutate call => (.status (call.onMessage message).1, (call.onMessage message).2)
  | .read call => (message.answer call, message)

/-- A message as a system of calls. -/
def messageServe (message : Message) (call : ObjectCall) : Option (Observation × Message) :=
  some (call.onMessage message)

theorem messageServe_eq_some {message next : Message} {call : ObjectCall} {out : Observation} :
    messageServe message call = some (out, next) ↔
      out = (call.onMessage message).1 ∧ next = (call.onMessage message).2 := by
  rw [messageServe, Option.some.injEq, Prod.ext_iff]
  exact and_congr eq_comm eq_comm

/-- Allocations of the call succeed. -/
def ObjectCall.Served : ObjectCall → Prop
  | .mutate call => call.Served
  | .read call => call.Served

/-- A call that a message allows: a mutation that does not depend on the scratch buffer, or a read
that does not run past the data that it finds. -/
def ObjectCall.Admissible (message : Message) : ObjectCall → Prop
  | .mutate call => call.Allowed message
  | .read call => call.Admissible message

/-- A payload object as a system of calls, as their callers see it. -/
def observedStep (object : PayloadObject) (call : ObjectCall) :
    Option (Observation × PayloadObject) :=
  (objectStep object call).map fun answered =>
    (call.observe answered.2.impl answered.1, answered.2)

/-- A call keeps an object and its message in step. -/
theorem OmnmPayloadImpl.Shows.perform_object {object : PayloadObject} {message : Message}
    (shown : object.impl.Shows message) {call : ObjectCall} (served : call.Served)
    (admissible : call.Admissible message) :
    ∃ next, observedStep object call = some ((call.onMessage message).1, next) ∧
      next.impl.Shows (call.onMessage message).2 := by
  cases call with
  | mutate call =>
      obtain ⟨next, result, keeps⟩ := shown.perform_call served admissible
      refine ⟨{ object with impl := next }, ?_, keeps⟩
      simp only [observedStep, objectStep, ObjectCall.perform, Traced.result_bind, result,
        Option.bind_some, Traced.result_pure, Option.map_some]
      rfl
  | read call =>
      obtain ⟨out, next, result, keeps, observed⟩ := shown.perform_read served admissible
      refine ⟨next, ?_, keeps⟩
      simp only [observedStep, objectStep, ObjectCall.perform, Traced.result_bind, result,
        Option.bind_some, Traced.result_pure, Option.map_some]
      rw [ObjectCall.observe, observed]
      rfl

/-! ## The memory of a call -/

/-- A mutation without its memory. -/
def PayloadCall.request : PayloadCall → PayloadCall
  | .field _ name fid request => .field CallMemory.zeroing name fid request
  | .clear => .clear
  | .unSerialize _ buffer length => .unSerialize CallMemory.zeroing buffer length

/-- A read without its memory. -/
def ReadCall.request : ReadCall → ReadCall
  | .toString _ => .toString .zeroing
  | .getMsg _ name fid => .getMsg ⟨.zeroing, true⟩ name fid
  | .getVectorString _ name fid => .getVectorString ⟨.zeroing, true⟩ name fid
  | .getVectorDateTime _ name fid => .getVectorDateTime ⟨.zeroing, true⟩ name fid
  | .getVectorPrice _ name fid => .getVectorPrice ⟨.zeroing, true⟩ name fid
  | .getVectorMsg _ name fid => .getVectorMsg ⟨.zeroing, true⟩ name fid
  | call => call

/-- What a call asks for, whatever memory it gets. -/
def ObjectCall.request : ObjectCall → ObjectCall
  | .mutate call => .mutate call.request
  | .read call => .read call.request

variable {message : Message} {call other : ObjectCall}

theorem ObjectCall.onMessage_request (message : Message) (call : ObjectCall) :
    call.request.onMessage message = call.onMessage message := by
  cases call with
  | mutate call =>
      cases call with
      | field memory name fid request => rfl
      | clear => rfl
      | unSerialize memory buffer length =>
          rcases buffer with none | own | other <;> rfl
  | read call => cases call <;> rfl

omit [MamaLibrary] [FieldPrinting] in
theorem ObjectCall.admissible_request :
    call.request.Admissible message ↔ call.Admissible message := by
  cases call with
  | mutate call =>
      cases call with
      | field memory name fid request => exact Iff.rfl
      | clear => exact Iff.rfl
      | unSerialize memory buffer length =>
          rcases buffer with none | own | other <;> exact Iff.rfl
  | read call => cases call <;> exact Iff.rfl

/-- Calls that ask for the same get the same from a message. -/
theorem ObjectCall.onMessage_congr (same : call.request = other.request) :
    call.onMessage message = other.onMessage message := by
  rw [← onMessage_request, same, onMessage_request]

omit [MamaLibrary] [FieldPrinting] in
theorem ObjectCall.admissible_congr (same : call.request = other.request) :
    call.Admissible message ↔ other.Admissible message := by
  rw [← admissible_request, same, admissible_request]

/-- A run of admissible calls on an object that shows a message is the run on the message. -/
theorem OmnmPayloadImpl.Shows.run_objects {object : PayloadObject} {message : Message}
    {calls requests : List ObjectCall} (shown : object.impl.Shows message)
    (served : ∀ call ∈ calls, call.Served)
    (same : List.Forall₂ (fun call request => call.request = request.request) calls requests)
    (along : Along messageServe (fun message call => call.Admissible message) message requests) :
    ∃ observations last lastMessage,
      run observedStep object calls = some (observations, last) ∧
        run messageServe message requests = some (observations, lastMessage) ∧
        last.impl.Shows lastMessage := by
  have pairs : List.Forall₂ (fun call request => call.Served ∧ call.request = request.request)
      calls requests := (List.forall₂_and_left calls requests).mpr ⟨served, same⟩
  refine run_simulation ?_ calls requests object message shown pairs along
  rintro object message call request shown ⟨served, same⟩ admissible
  obtain ⟨next, stepped, keeps⟩ :=
    shown.perform_object served ((ObjectCall.admissible_congr same).mpr admissible)
  rw [ObjectCall.onMessage_congr same] at stepped keeps
  exact ⟨_, next, _, stepped, rfl, keeps⟩

end Omnm
