import Mathlib.Data.List.Basic

/-!
# Runs of a stepping system

A system takes calls one after another. A step may be undefined, and then so is
every run that reaches it. `run` gives the outputs and the last state of a
finite run; since a run is a list of calls, a statement about the last state of
every run is a statement about every state that runs reach.

Induction rules carry step lemmas to runs. An invariant that every
admissible step keeps holds after every run of admissible steps, and such a run
is defined (`run_invariant`); so does a property that only calls of some kind keep,
if all calls are of the kind (`run_invariant_iff`). Two systems whose steps keep a relation and give
equal outputs do so over runs (`run_simulation`). When the hidden calls of a
system keep a relation on their own and the visible calls keep it in step,
deleting the hidden calls of a run leaves the outputs of the visible ones
(`run_purge`); and calls that left the state as it was, as their outputs tell, can
be deleted (`run_effective`). A run of two lists of calls is a run of the one and then of the
other (`run_append`), and a property of every state of a run is one of its first
state and of the states behind its first call (`allAlong_cons`). A size stays at
or below the peak of a measure when no step raises it above the measure
(`allAlong_le_peak`), and, where it covers the measure, only then
(`along_of_allAlong_le_peak`).
-/

set_option autoImplicit false

namespace Omnm

universe u v w x

variable {State : Type u} {Call : Type v} {Out : Type w}

/-- A finite run: the outputs of its calls and the state it ends in. -/
def run (step : State → Call → Option (Out × State)) : State → List Call → Option (List Out × State)
  | state, [] => some ([], state)
  | state, call :: calls =>
      match step state call with
      | none => none
      | some (out, next) => (run step next calls).map fun rest => (out :: rest.1, rest.2)

/-- Every call of a run is made in a state that admits it. -/
def Along (step : State → Call → Option (Out × State)) (admits : State → Call → Prop) :
    State → List Call → Prop
  | _, [] => True
  | state, call :: calls =>
      admits state call ∧ ∀ out next, step state call = some (out, next) →
        Along step admits next calls

variable {step : State → Call → Option (Out × State)}

theorem along_cons_of_step {admits : State → Call → Prop} {state next : State} {call : Call}
    {calls : List Call} {out : Out} (admitted : admits state call)
    (stepped : step state call = some (out, next)) (later : Along step admits next calls) :
    Along step admits state (call :: calls) := by
  refine ⟨admitted, ?_⟩
  intro out' next' stepped'
  cases stepped.symm.trans stepped'
  exact later

theorem along_of_mem {kind : Call → Prop} {state : State} {calls : List Call}
    (all : ∀ call ∈ calls, kind call) : Along step (fun _ call => kind call) state calls := by
  induction calls generalizing state with
  | nil => trivial
  | cons call calls ih =>
      exact ⟨all call (List.mem_cons_self ..), fun _ _ _ =>
        ih fun later member => all later (List.mem_cons_of_mem _ member)⟩

theorem along_and_of_mem {admits : State → Call → Prop} {kind : Call → Prop} {state : State}
    {calls : List Call} (along : Along step admits state calls) (all : ∀ call ∈ calls, kind call) :
    Along step (fun state call => admits state call ∧ kind call) state calls := by
  induction calls generalizing state with
  | nil => trivial
  | cons call calls ih =>
      refine ⟨⟨along.1, all call (List.mem_cons_self ..)⟩, ?_⟩
      intro out next stepped
      exact ih (along.2 out next stepped) fun later member => all later (List.mem_cons_of_mem _ member)

theorem Along.and {first second : State → Call → Prop} {state : State} {calls : List Call}
    (along : Along step first state calls) (other : Along step second state calls) :
    Along step (fun state call => first state call ∧ second state call) state calls := by
  induction calls generalizing state with
  | nil => trivial
  | cons call calls ih =>
      exact ⟨⟨along.1, other.1⟩, fun out next stepped =>
        ih (along.2 out next stepped) (other.2 out next stepped)⟩

/-- What holds wherever an invariant and the condition of a call hold, holds along every
run of admissible steps that keep the invariant. -/
theorem along_of_invariant {admits holds : State → Call → Prop} {invariant : State → Prop}
    (keeps : ∀ state call, invariant state → admits state call →
      holds state call ∧ ∀ out next, step state call = some (out, next) → invariant next)
    (calls : List Call) (state : State) (start : invariant state)
    (along : Along step admits state calls) : Along step holds state calls := by
  induction calls generalizing state with
  | nil => trivial
  | cons call calls ih =>
      obtain ⟨here, after⟩ := keeps state call start along.1
      exact ⟨here, fun out next stepped => ih next (after out next stepped) (along.2 out next stepped)⟩

theorem run_cons_of_step {state next : State} {call : Call} {calls : List Call} {out : Out}
    (stepped : step state call = some (out, next)) :
    run step state (call :: calls) =
      (run step next calls).map fun rest => (out :: rest.1, rest.2) := by
  rw [run, stepped]

theorem run_cons_eq_some {state last : State} {call : Call} {calls : List Call}
    {outs : List Out} (ran : run step state (call :: calls) = some (outs, last)) :
    ∃ out next rest, step state call = some (out, next) ∧
      run step next calls = some (rest, last) ∧ outs = out :: rest := by
  cases stepped : step state call with
  | none =>
      rw [run, stepped] at ran
      cases ran
  | some result =>
      obtain ⟨out, next⟩ := result
      rw [run_cons_of_step stepped, Option.map_eq_some_iff] at ran
      obtain ⟨⟨rest, state'⟩, ranRest, equal⟩ := ran
      cases equal
      exact ⟨out, next, rest, rfl, ranRest, rfl⟩

/-- An invariant kept by every admissible step holds after every run of
admissible steps, and those runs are defined. -/
theorem run_invariant {admits : State → Call → Prop} {invariant : State → Prop}
    (keeps : ∀ state call, invariant state → admits state call →
      ∃ out next, step state call = some (out, next) ∧ invariant next)
    (calls : List Call) (state : State) (holds : invariant state)
    (along : Along step admits state calls) :
    ∃ outs last, run step state calls = some (outs, last) ∧ invariant last := by
  induction calls generalizing state with
  | nil => exact ⟨[], state, rfl, holds⟩
  | cons call calls ih =>
      obtain ⟨out, next, stepped, holdsNext⟩ := keeps state call holds along.1
      obtain ⟨outs, last, ran, holdsLast⟩ := ih next holdsNext (along.2 out next stepped)
      exact ⟨out :: outs, last, by rw [run_cons_of_step stepped, ran, Option.map_some], holdsLast⟩

/-- With an invariant, a property that a step keeps exactly if its call is of a kind holds at the
end of a run exactly if it held at its start and all calls are of the kind. -/
theorem run_invariant_iff {admits : State → Call → Prop} {invariant holds : State → Prop}
    {kind : Call → Prop}
    (keeps : ∀ state call, invariant state → admits state call →
      ∃ out next, step state call = some (out, next) ∧ invariant next ∧
        (holds next ↔ holds state ∧ kind call))
    (calls : List Call) (state : State) (start : invariant state)
    (along : Along step admits state calls) :
    ∃ outs last, run step state calls = some (outs, last) ∧ invariant last ∧
      (holds last ↔ holds state ∧ ∀ call ∈ calls, kind call) := by
  induction calls generalizing state with
  | nil => exact ⟨[], state, rfl, start, by simp⟩
  | cons call calls ih =>
      obtain ⟨out, next, stepped, startNext, same⟩ := keeps state call start along.1
      obtain ⟨outs, last, ran, atEnd, sameRest⟩ := ih next startNext (along.2 out next stepped)
      refine ⟨out :: outs, last, by rw [run_cons_of_step stepped, ran, Option.map_some], atEnd, ?_⟩
      rw [sameRest, same, List.forall_mem_cons, and_assoc]

/-- Two systems whose steps keep a relation and give equal outputs do so over
runs. The calls of the second system correspond to those of the first. -/
theorem run_simulation {State' : Type x} {Call' : Type v}
    {step' : State' → Call' → Option (Out × State')}
    {related : State → State' → Prop} {corresponds : Call → Call' → Prop}
    {admits : State' → Call' → Prop}
    (keeps : ∀ state state' call call', related state state' → corresponds call call' →
      admits state' call' →
      ∃ out next next', step state call = some (out, next) ∧
        step' state' call' = some (out, next') ∧ related next next')
    (calls : List Call) (calls' : List Call') (state : State) (state' : State')
    (start : related state state') (pairs : List.Forall₂ corresponds calls calls')
    (along : Along step' admits state' calls') :
    ∃ outs last last', run step state calls = some (outs, last) ∧
      run step' state' calls' = some (outs, last') ∧ related last last' := by
  induction pairs generalizing state state' with
  | nil => exact ⟨[], state, state', rfl, rfl, start⟩
  | cons pair _ ih =>
      obtain ⟨out, next, next', stepped, stepped', relatedNext⟩ :=
        keeps state state' _ _ start pair along.1
      obtain ⟨outs, last, last', ran, ran', relatedLast⟩ :=
        ih next next' relatedNext (along.2 out next' stepped')
      exact ⟨out :: outs, last, last', by rw [run_cons_of_step stepped, ran, Option.map_some],
        by rw [run_cons_of_step stepped', ran', Option.map_some], relatedLast⟩

/-- The outputs of the calls that are visible. -/
def visibleOuts (visible : Call → Bool) : List Call → List Out → List Out
  | call :: calls, out :: outs =>
      if visible call then out :: visibleOuts visible calls outs
      else visibleOuts visible calls outs
  | _, _ => []

/-- When hidden calls keep a relation on their own and visible calls keep it in
step, a run and the run of its visible calls give the same visible outputs. -/
theorem run_purge {related : State → State → Prop} {visible : Call → Bool}
    {admits : State → Call → Prop}
    (hidden : ∀ state other call out next, related state other → visible call = false →
      admits state call → step state call = some (out, next) → related next other)
    (shown : ∀ state other call out next, related state other → visible call = true →
      admits state call → step state call = some (out, next) →
      ∃ otherNext, step other call = some (out, otherNext) ∧ related next otherNext)
    (calls : List Call) (state other last : State) (outs : List Out)
    (start : related state other) (along : Along step admits state calls)
    (ran : run step state calls = some (outs, last)) :
    ∃ otherLast, run step other (calls.filter visible) =
        some (visibleOuts visible calls outs, otherLast) ∧ related last otherLast := by
  induction calls generalizing state other outs with
  | nil =>
      cases ran
      exact ⟨other, rfl, start⟩
  | cons call calls ih =>
      obtain ⟨out, next, rest, stepped, ranRest, rfl⟩ := run_cons_eq_some ran
      have later := along.2 out next stepped
      cases shows : visible call with
      | false =>
          have relatedNext := hidden state other call out next start shows along.1 stepped
          obtain ⟨otherLast, ranOther, relatedLast⟩ := ih next other rest relatedNext later ranRest
          refine ⟨otherLast, ?_, relatedLast⟩
          simpa only [List.filter_cons, shows, visibleOuts, Bool.false_eq_true, if_false] using
            ranOther
      | true =>
          obtain ⟨otherNext, steppedOther, relatedNext⟩ :=
            shown state other call out next start shows along.1 stepped
          obtain ⟨otherLast, ranOther, relatedLast⟩ :=
            ih next otherNext rest relatedNext later ranRest
          refine ⟨otherLast, ?_, relatedLast⟩
          simp only [List.filter_cons, shows, if_true, visibleOuts]
          rw [run_cons_of_step steppedOther, ranOther, Option.map_some]

/-- The calls of a run with their outputs, without those that are idle. -/
def effective (idle : Call → Out → Bool) : List Call → List Out → List (Call × Out)
  | call :: calls, out :: outs =>
      if idle call out then effective idle calls outs
      else (call, out) :: effective idle calls outs
  | _, _ => []

theorem mem_of_mem_effective {idle : Call → Out → Bool} {pair : Call × Out} {calls : List Call}
    {outs : List Out} (member : pair ∈ effective idle calls outs) : pair.1 ∈ calls := by
  induction calls generalizing outs with
  | nil => simp [effective] at member
  | cons call calls ih =>
      cases outs with
      | nil => cases member
      | cons out outs =>
          rw [effective] at member
          split at member
          · exact List.mem_cons_of_mem _ (ih member)
          · rcases List.mem_cons.mp member with rfl | later
            · exact List.mem_cons_self ..
            · exact List.mem_cons_of_mem _ (ih later)

/-- Calls whose outputs tell that they left the state can be deleted from a run. -/
theorem run_effective {idle : Call → Out → Bool} {admits : State → Call → Prop}
    (still : ∀ state call out next, admits state call → step state call = some (out, next) →
      idle call out = true → next = state)
    (calls : List Call) (state last : State) (outs : List Out)
    (along : Along step admits state calls) (ran : run step state calls = some (outs, last)) :
    run step state ((effective idle calls outs).map Prod.fst) =
        some ((effective idle calls outs).map Prod.snd, last) ∧
      Along step admits state ((effective idle calls outs).map Prod.fst) := by
  induction calls generalizing state outs with
  | nil =>
      cases ran
      exact ⟨rfl, trivial⟩
  | cons call calls ih =>
      obtain ⟨out, next, rest, stepped, ranRest, rfl⟩ := run_cons_eq_some ran
      obtain ⟨ranKept, alongKept⟩ := ih next rest (along.2 out next stepped) ranRest
      rw [effective]
      split
      · rename_i rests
        obtain rfl := still state call out next along.1 stepped rests
        exact ⟨ranKept, alongKept⟩
      · refine ⟨?_, along_cons_of_step along.1 stepped alongKept⟩
        rw [List.map_cons, List.map_cons, run_cons_of_step stepped, ranKept]
        rfl

/-! ## Every state of a run -/

/-- A property of the calls made so far and of the state they led to, from the start of a
run to its end. -/
def AllAlong (step : State → Call → Option (Out × State)) (holds : List Call → State → Prop)
    (state : State) (calls : List Call) : Prop :=
  ∀ done outs reached, done <+: calls → run step state done = some (outs, reached) →
    holds done reached

theorem allAlong_nil {holds : List Call → State → Prop} {state : State} :
    AllAlong step holds state [] ↔ holds [] state := by
  constructor
  · intro all
    exact all [] [] state (List.nil_prefix) rfl
  · intro start done outs reached before ran
    obtain rfl := List.prefix_nil.mp before
    cases ran
    exact start

/-- The states of a run are its first state and those of the run behind its first call. -/
theorem allAlong_cons {holds : List Call → State → Prop} {state next : State} {call : Call}
    {calls : List Call} {out : Out} (stepped : step state call = some (out, next)) :
    AllAlong step holds state (call :: calls) ↔
      holds [] state ∧ AllAlong step (fun done => holds (call :: done)) next calls := by
  constructor
  · intro all
    refine ⟨all [] [] state List.nil_prefix rfl, ?_⟩
    intro done outs reached before ran
    apply all (call :: done) (out :: outs) reached ((List.prefix_cons_inj call).mpr before)
    rw [run_cons_of_step stepped, ran, Option.map_some]
  · rintro ⟨start, later⟩ done outs reached before ran
    cases done with
    | nil =>
        cases ran
        exact start
    | cons first done =>
        obtain ⟨rfl, earlier⟩ := List.cons_prefix_cons.mp before
        obtain ⟨out', next', rest, stepped', ran, rfl⟩ := run_cons_eq_some ran
        cases stepped.symm.trans stepped'
        exact later done rest reached earlier ran

/-! ## The peak of a run -/

/-- The greatest measure of a state of a run. -/
def peak (step : State → Call → Option (Out × State)) (measure : State → Nat) :
    State → List Call → Nat
  | state, [] => measure state
  | state, call :: calls =>
      match step state call with
      | none => measure state
      | some (_, next) => max (measure state) (peak step measure next calls)

theorem peak_cons {measure : State → Nat} {state next : State} {call : Call} {calls : List Call}
    {out : Out} (stepped : step state call = some (out, next)) :
    peak step measure state (call :: calls) = max (measure state) (peak step measure next calls) := by
  rw [peak, stepped]

/-- A size that no step raises above its own measure stays at or below the peak. -/
theorem allAlong_le_peak {size measure : State → Nat} {admits : State → Call → Prop}
    (bounded : ∀ state call out next, admits state call → step state call = some (out, next) →
      size next ≤ max (size state) (measure next))
    {calls : List Call} {state last : State} {outs : List Out} {bound : Nat}
    (ran : run step state calls = some (outs, last)) (along : Along step admits state calls)
    (start : size state ≤ max bound (measure state)) :
    AllAlong step (fun done reached => size reached ≤ max bound (peak step measure state done))
      state calls := by
  induction calls generalizing state outs bound with
  | nil => exact allAlong_nil.mpr start
  | cons call calls ih =>
      obtain ⟨out, next, rest, stepped, later, rfl⟩ := run_cons_eq_some ran
      rw [allAlong_cons stepped]
      refine ⟨start, ?_⟩
      have below := bounded state call out next along.1 stepped
      have behind := @ih next rest (max bound (measure state)) later (along.2 out next stepped)
        (by omega)
      simpa only [peak_cons stepped, Nat.max_assoc] using behind

/-- A size that is never below the measure and stays at or below the peak is raised by no step
above its own measure. -/
theorem along_of_allAlong_le_peak {size measure : State → Nat} {holds : State → Prop}
    {admits kind : State → Call → Prop}
    {floor : Nat}
    (kept : ∀ state call out next, kind state call → holds state → holds next →
      floor ≤ size state → measure state ≤ size state → step state call = some (out, next) →
      size state ≤ size next ∧ measure next ≤ size next ∧
        (size next ≤ max (size state) (measure next) → admits state call))
    {calls : List Call} {state last : State} {outs : List Out} {bound : Nat}
    (ran : run step state calls = some (outs, last)) (kinds : Along step kind state calls)
    (all : AllAlong step (fun _ reached => holds reached) state calls)
    (ground : floor ≤ bound) (above : bound ≤ size state) (start : measure state ≤ size state)
    (bounded : AllAlong step
      (fun done reached => size reached ≤ max bound (peak step measure state done)) state calls) :
    Along step admits state calls := by
  induction calls generalizing state outs bound with
  | nil => trivial
  | cons call calls ih =>
      obtain ⟨out, next, rest, stepped, later, rfl⟩ := run_cons_eq_some ran
      rw [allAlong_cons stepped] at all bounded
      have nextHolds : holds next := all.2 [] [] next List.nil_prefix rfl
      obtain ⟨grows, covers, admitted⟩ :=
        kept state call out next kinds.1 all.1 nextHolds (Nat.le_trans ground above)
          start stepped
      have now : size next ≤ max bound (peak step measure state [call]) :=
        bounded.2 [] [] next List.nil_prefix rfl
      rw [peak_cons stepped, peak] at now
      apply along_cons_of_step (admitted (by omega)) stepped
      refine @ih next rest (max bound (measure state)) later (kinds.2 out next stepped) all.2
        (by omega) (by omega) covers ?_
      simpa only [peak_cons stepped, Nat.max_assoc] using bounded.2

/-! ## Runs in two parts -/

theorem run_append {state last : State} {calls later : List Call} {outs : List Out}
    (ran : run step state (calls ++ later) = some (outs, last)) :
    ∃ first middle second, run step state calls = some (first, middle) ∧
      run step middle later = some (second, last) ∧ outs = first ++ second ∧
      first.length = calls.length := by
  induction calls generalizing state outs with
  | nil => exact ⟨[], state, outs, rfl, ran, rfl, rfl⟩
  | cons call calls ih =>
      obtain ⟨out, next, rest, stepped, ranRest, rfl⟩ := run_cons_eq_some ran
      obtain ⟨first, middle, second, before, after, rfl, length⟩ := ih ranRest
      refine ⟨out :: first, middle, second, ?_, after, rfl, congrArg Nat.succ length⟩
      rw [run_cons_of_step stepped, before, Option.map_some]

theorem run_append_of_run {state middle last : State} {calls later : List Call}
    {first second : List Out}
    (before : run step state calls = some (first, middle))
    (after : run step middle later = some (second, last)) :
    run step state (calls ++ later) = some (first ++ second, last) := by
  induction calls generalizing state first with
  | nil =>
      cases before
      exact after
  | cons call calls ih =>
      obtain ⟨out, next, rest, stepped, ranRest, rfl⟩ := run_cons_eq_some before
      rw [List.cons_append, run_cons_of_step stepped, ih ranRest, Option.map_some]
      rfl

/-- Calls that are made one list behind the other. -/
theorem Along.append {admits : State → Call → Prop} {state : State} {calls later : List Call}
    (along : Along step admits state (calls ++ later)) :
    Along step admits state calls ∧ ∀ outs middle, run step state calls = some (outs, middle) →
      Along step admits middle later := by
  induction calls generalizing state with
  | nil =>
      refine ⟨trivial, ?_⟩
      rintro outs middle ⟨⟩
      exact along
  | cons call calls ih =>
      refine ⟨⟨along.1, fun out next stepped => (ih (along.2 out next stepped)).1⟩, ?_⟩
      intro outs middle ran
      obtain ⟨out, next, rest, stepped, ranRest, -⟩ := run_cons_eq_some ran
      exact (ih (along.2 out next stepped)).2 rest middle ranRest

theorem visibleOuts_append {visible : Call → Bool} {calls later : List Call}
    {first second : List Out} (length : first.length = calls.length) :
    visibleOuts visible (calls ++ later) (first ++ second) =
      visibleOuts visible calls first ++ visibleOuts visible later second := by
  induction calls generalizing first with
  | nil =>
      rw [List.eq_nil_of_length_eq_zero length]
      rfl
  | cons call calls ih =>
      cases first with
      | nil => cases length
      | cons out first =>
          have same := ih (Nat.succ.inj length)
          simp only [List.cons_append, visibleOuts]
          split
          · rw [same, List.cons_append]
          · exact same

end Omnm
