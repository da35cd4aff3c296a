import Omnm.Runs.Runs

/-!
# Callers that decide as they go

A run is a list of calls that was fixed before the first of them. A `Dialogue` is
a caller: it stops with a result, or makes a call and goes on by what it is
answered. `converse` is what comes of it on a system.

Two systems whose admitted steps keep a relation and give equal outputs lead a
dialogue to the same result, and are related after it (`converse_simulation`).
What the steps of the one admit is then carried over to the other
(`Along.of_simulation`).
-/

set_option autoImplicit false

namespace Omnm

universe u v w x y

/-- A caller of a system, who goes on by the answers. -/
inductive Dialogue (Call : Type u) (Out : Type v) (Result : Type w) where
  | stop (result : Result)
  | ask (call : Call) (goOn : Out → Dialogue Call Out Result)

namespace Dialogue

variable {Call : Type u} {Out : Type v} {Result : Type w} {State : Type x} {Abstract : Type y}

/-- What comes of a dialogue: its result and the state it ends in. -/
def converse (step : State → Call → Option (Out × State)) :
    Dialogue Call Out Result → State → Option (Result × State)
  | stop result, state => some (result, state)
  | ask call goOn, state =>
      match step state call with
      | none => none
      | some (out, next) => (goOn out).converse step next

/-- Every call of a dialogue is made in a state that admits it. -/
def Along (step : State → Call → Option (Out × State)) (admits : State → Call → Prop) :
    Dialogue Call Out Result → State → Prop
  | stop _, _ => True
  | ask call goOn, state =>
      admits state call ∧ ∀ out next, step state call = some (out, next) →
        (goOn out).Along step admits next

variable {step : State → Call → Option (Out × State)}

theorem converse_ask_of_step {call : Call} {goOn : Out → Dialogue Call Out Result}
    {state next : State} {out : Out} (stepped : step state call = some (out, next)) :
    (ask call goOn).converse step state = (goOn out).converse step next := by
  rw [converse, stepped]

theorem along_ask_of_step {admits : State → Call → Prop} {call : Call}
    {goOn : Out → Dialogue Call Out Result} {state next : State} {out : Out}
    (admitted : admits state call) (stepped : step state call = some (out, next))
    (later : (goOn out).Along step admits next) : (ask call goOn).Along step admits state := by
  refine ⟨admitted, ?_⟩
  intro out' next' stepped'
  cases stepped.symm.trans stepped'
  exact later

/-- Two systems whose admitted steps keep a relation and give equal outputs lead a dialogue to
the same result. -/
theorem converse_simulation {abstractStep : Abstract → Call → Option (Out × Abstract)}
    {related : State → Abstract → Prop} {admits : Abstract → Call → Prop}
    (keeps : ∀ state abstract call, related state abstract → admits abstract call →
      ∃ out next abstractNext, step state call = some (out, next) ∧
        abstractStep abstract call = some (out, abstractNext) ∧ related next abstractNext)
    (dialogue : Dialogue Call Out Result) (state : State) (abstract : Abstract)
    (start : related state abstract) (along : dialogue.Along abstractStep admits abstract) :
    ∃ result last abstractLast, dialogue.converse step state = some (result, last) ∧
      dialogue.converse abstractStep abstract = some (result, abstractLast) ∧
      related last abstractLast := by
  induction dialogue generalizing state abstract with
  | stop result => exact ⟨result, state, abstract, rfl, rfl, start⟩
  | ask call goOn ih =>
      obtain ⟨admitted, later⟩ := along
      obtain ⟨out, next, abstractNext, stepped, abstractStepped, kept⟩ :=
        keeps state abstract call start admitted
      rw [converse_ask_of_step stepped, converse_ask_of_step abstractStepped]
      exact ih out next abstractNext kept (later out abstractNext abstractStepped)

/-- What holds of related states whose calls are admitted, holds along a dialogue. -/
theorem Along.of_simulation {abstractStep : Abstract → Call → Option (Out × Abstract)}
    {related : State → Abstract → Prop} {admits : Abstract → Call → Prop}
    {holds : State → Call → Prop}
    (keeps : ∀ state abstract call, related state abstract → admits abstract call →
      holds state call ∧ ∃ out next abstractNext, step state call = some (out, next) ∧
        abstractStep abstract call = some (out, abstractNext) ∧ related next abstractNext)
    {dialogue : Dialogue Call Out Result} {state : State} {abstract : Abstract}
    (start : related state abstract) (along : dialogue.Along abstractStep admits abstract) :
    dialogue.Along step holds state := by
  induction dialogue generalizing state abstract with
  | stop result => trivial
  | ask call goOn ih =>
      obtain ⟨admitted, later⟩ := along
      obtain ⟨held, out, next, abstractNext, stepped, abstractStepped, kept⟩ :=
        keeps state abstract call start admitted
      exact along_ask_of_step held stepped
        (ih out kept (later out abstractNext abstractStepped))

end Dialogue

end Omnm
