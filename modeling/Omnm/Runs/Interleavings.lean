import Omnm.Runs.Runs

/-!
# Interleavings of two clients

Two clients make calls on one system, each in its own order. When every call of
the one can be moved in front of a call of the other behind which it came, a run
of any interleaving ends where the run of all calls of the one and then all of
the other ends, with the same outputs (`run_serial`). So any two interleavings
of the same calls of the two clients do (`run_interleavings`).
-/

set_option autoImplicit false

namespace Omnm

universe u v w

variable {State : Type u} {Call : Type v} {Out : Type w}
  {step : State → Call → Option (Out × State)} {own : Call → Bool} {invariant : State → Prop}
  {allowed : Call → Prop}

/-- In states with an invariant, a call of the client can be moved in front of a call of the other
client, and gives the same there. -/
def Exchangeable (step : State → Call → Option (Out × State)) (invariant : State → Prop)
    (allowed : Call → Prop) (own : Call → Bool) : Prop :=
  ∀ state other call outOther out middle last, invariant state → allowed other → allowed call →
    own other = false → own call = true → step state other = some (outOther, middle) →
    step middle call = some (out, last) →
    ∃ changed, step state call = some (out, changed) ∧ step changed other = some (outOther, last)

/-- An invariant that every allowed call keeps. -/
def KeptBy (step : State → Call → Option (Out × State)) (invariant : State → Prop)
    (allowed : Call → Prop) : Prop :=
  ∀ state call out next, invariant state → allowed call → step state call = some (out, next) →
    invariant next

theorem length_of_run {calls : List Call} {state last : State} {outs : List Out}
    (ran : run step state calls = some (outs, last)) : outs.length = calls.length := by
  induction calls generalizing state outs with
  | nil =>
      cases ran
      rfl
  | cons call calls ih =>
      obtain ⟨out, next, rest, -, later, rfl⟩ := run_cons_eq_some ran
      rw [List.length_cons, List.length_cons, ih later]

theorem length_visibleOuts {visible : Call → Bool} {calls : List Call} {outs : List Out}
    (length : outs.length = calls.length) :
    (visibleOuts visible calls outs).length = (calls.filter visible).length := by
  induction calls generalizing outs with
  | nil => rfl
  | cons call calls ih =>
      cases outs with
      | nil => cases length
      | cons out outs =>
          have same := ih (Nat.succ.inj length)
          cases shows : visible call with
          | true => simp only [visibleOuts, shows, if_true, List.length_cons, List.filter_cons, same]
          | false =>
              simp only [visibleOuts, shows, Bool.false_eq_true, if_false, List.filter_cons, same]

/-- A call of the other client can be moved behind a run of calls of the client. -/
theorem run_exchange (kept : KeptBy step invariant allowed)
    (exchange : Exchangeable step invariant allowed own) {calls : List Call} {other : Call}
    {state middle last : State} {outOther : Out} {outs : List Out} (start : invariant state)
    (allowedOther : allowed other) (others : own other = false)
    (mine : ∀ call ∈ calls, own call = true ∧ allowed call)
    (stepped : step state other = some (outOther, middle))
    (ran : run step middle calls = some (outs, last)) :
    ∃ changed, run step state calls = some (outs, changed) ∧
      step changed other = some (outOther, last) := by
  induction calls generalizing state middle outs with
  | nil =>
      cases ran
      exact ⟨state, rfl, stepped⟩
  | cons call calls ih =>
      obtain ⟨out, next, rest, first, later, rfl⟩ := run_cons_eq_some ran
      obtain ⟨isMine, isAllowed⟩ := mine call (List.mem_cons_self ..)
      obtain ⟨early, moved, behind⟩ := exchange state other call outOther out middle next start
        allowedOther isAllowed others isMine stepped first
      obtain ⟨changed, ranEarly, last⟩ := ih (kept state call out early start isAllowed moved)
        (fun call member => mine call (List.mem_cons_of_mem _ member)) behind later
      exact ⟨changed, by rw [run_cons_of_step moved, ranEarly, Option.map_some], last⟩

/-- A run of the calls of two clients ends where the run of the calls of the one and then of the
other ends, and gives each client the same. -/
theorem run_serial (kept : KeptBy step invariant allowed)
    (exchange : Exchangeable step invariant allowed own) {calls : List Call} {state last : State}
    {outs : List Out} (start : invariant state) (all : ∀ call ∈ calls, allowed call)
    (ran : run step state calls = some (outs, last)) :
    run step state (calls.filter own ++ calls.filter fun call => !own call) =
      some (visibleOuts own calls outs ++ visibleOuts (fun call => !own call) calls outs, last) := by
  induction calls generalizing state outs with
  | nil =>
      cases ran
      rfl
  | cons call calls ih =>
      obtain ⟨out, next, rest, stepped, later, rfl⟩ := run_cons_eq_some ran
      have isAllowed := all call (List.mem_cons_self ..)
      have rests := ih (kept state call out next start isAllowed stepped)
        (fun call member => all call (List.mem_cons_of_mem _ member)) later
      cases mine : own call with
      | true =>
          simp only [List.filter_cons, mine, if_true, Bool.not_true, Bool.false_eq_true, if_false,
            visibleOuts, List.cons_append]
          rw [run_cons_of_step stepped, rests, Option.map_some]
      | false =>
          -- the calls of the client, behind this one, are made before it
          obtain ⟨first, middle, second, before, after, same, length⟩ := run_append rests
          have count := (length_visibleOuts (length_of_run later)).trans length.symm
          obtain ⟨rfl, rfl⟩ := List.append_inj same count
          obtain ⟨changed, moved, behind⟩ := run_exchange kept exchange start isAllowed mine
            (fun other member => by
              obtain ⟨inside, owned⟩ := List.mem_filter.mp member
              exact ⟨owned, all other (List.mem_cons_of_mem _ inside)⟩)
            stepped before
          simp only [List.filter_cons, mine, Bool.false_eq_true, if_false, Bool.not_false, if_true,
            visibleOuts]
          apply run_append_of_run moved
          rw [run_cons_of_step behind, after, Option.map_some]

/-- Two interleavings of the same calls of two clients have the same calls. -/
theorem mem_of_filters {calls others : List Call} (mine : calls.filter own = others.filter own)
    (theirs : (calls.filter fun call => !own call) = others.filter fun call => !own call)
    {call : Call} (member : call ∈ others) : call ∈ calls := by
  cases owned : own call with
  | true => exact (List.mem_filter.mp (mine ▸ List.mem_filter.mpr ⟨member, owned⟩)).1
  | false =>
      have hidden : call ∈ others.filter fun call => !own call :=
        List.mem_filter.mpr ⟨member, by rw [owned]; rfl⟩
      exact (List.mem_filter.mp (theirs ▸ hidden)).1

/-- Two interleavings of the same calls of two clients give each client the same and end in the
same state. -/
theorem run_interleavings (kept : KeptBy step invariant allowed)
    (exchange : Exchangeable step invariant allowed own) {calls others : List Call}
    {state last lastOther : State} {outs outsOther : List Out} (start : invariant state)
    (all : ∀ call ∈ calls, allowed call) (mine : calls.filter own = others.filter own)
    (theirs : (calls.filter fun call => !own call) = others.filter fun call => !own call)
    (ran : run step state calls = some (outs, last))
    (ranOther : run step state others = some (outsOther, lastOther)) :
    visibleOuts own calls outs = visibleOuts own others outsOther ∧
      visibleOuts (fun call => !own call) calls outs =
        visibleOuts (fun call => !own call) others outsOther ∧ last = lastOther := by
  have serial := run_serial kept exchange start all ran
  have serialOther := run_serial kept exchange start
    (fun call member => all call (mem_of_filters mine theirs member)) ranOther
  rw [mine, theirs, serialOther, Option.some.injEq, Prod.mk.injEq] at serial
  obtain ⟨same, rfl⟩ := serial
  have count : (visibleOuts own others outsOther).length =
      (visibleOuts own calls outs).length := by
    rw [length_visibleOuts (length_of_run ranOther), length_visibleOuts (length_of_run ran), mine]
  obtain ⟨first, second⟩ := List.append_inj same count
  exact ⟨first.symm, second.symm, rfl⟩

end Omnm
