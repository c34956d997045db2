import Mathlib

/-! # Runs of a partial step function

A machine is a step function that may refuse an input.  `runInputs` feeds it a list
of inputs; the rules below carry an invariant of one step over a whole run. -/
set_option autoImplicit false
namespace Gday.Lib.Machine

variable {State Input : Type}

def runInputs (step : State → Input → Option State) : List Input → State → Option State
  | [], state => some state
  | input :: rest, state => do
      let next ← step state input
      runInputs step rest next

theorem runInputs_cons (step : State → Input → Option State) (input : Input) (rest : List Input)
    (state final : State) :
    runInputs step (input :: rest) state = some final ↔
      ∃ next, step state input = some next ∧ runInputs step rest next = some final :=
  Option.bind_eq_some_iff

theorem runInputs_append (step : State → Input → Option State) (first second : List Input)
    (state : State) :
    runInputs step (first ++ second) state =
      (runInputs step first state).bind (runInputs step second) := by
  induction first generalizing state with
  | nil => rfl
  | cons input rest ih =>
      simp only [List.cons_append, runInputs]
      cases step state input with
      | none => rfl
      | some next => exact ih next

/-- The invariant rule: what holds at the start and survives every step holds at the end. -/
theorem runInputs_invariant (step : State → Input → Option State) (invariant : State → Prop)
    (preserved : ∀ state input next, invariant state → step state input = some next →
      invariant next) (inputs : List Input) (state final : State) (start : invariant state)
    (run : runInputs step inputs state = some final) : invariant final := by
  induction inputs generalizing state with
  | nil =>
      simp only [runInputs] at run
      cases Option.some.inj run
      exact start
  | cons input rest ih =>
      simp only [runInputs] at run
      obtain ⟨next, stepRun, restRun⟩ := Option.bind_eq_some_iff.mp run
      exact ih next (preserved state input next start stepRun) restRun

theorem countP_cons_toNat (counts : Input → Bool) (input : Input) (rest : List Input) :
    (input :: rest).countP counts = rest.countP counts + (counts input).toNat := by
  rw [List.countP_cons]
  cases counts input <;> rfl

/-- The ranking rule: where the inputs that count lower the rank and the others do not raise it,
no run has more inputs that count than the rank it starts with. -/
theorem runInputs_ranked (step : State → Input → Option State) (invariant : State → Prop)
    (rank : State → Nat) (counts : Input → Bool)
    (preserved : ∀ state input next, invariant state → step state input = some next →
      invariant next)
    (falls : ∀ state input next, invariant state → step state input = some next →
      rank next + (counts input).toNat ≤ rank state)
    (inputs : List Input) (state final : State) (start : invariant state)
    (run : runInputs step inputs state = some final) :
    rank final + inputs.countP counts ≤ rank state := by
  induction inputs generalizing state with
  | nil =>
      simp only [runInputs] at run
      cases Option.some.inj run
      exact Nat.le_refl _
  | cons input rest ih =>
      simp only [runInputs] at run
      obtain ⟨next, stepRun, restRun⟩ := Option.bind_eq_some_iff.mp run
      have later := ih next (preserved state input next start stepRun) restRun
      have now := falls state input next start stepRun
      rw [countP_cons_toNat]
      omega

/-- The counting rule: what every step changes by what its input puts in and takes out, a run
changes by what all its inputs do. -/
theorem runInputs_balanced (step : State → Input → Option State) (invariant : State → Prop)
    (amount : State → Nat) (puts takes : Input → Bool)
    (preserved : ∀ state input next, invariant state → step state input = some next →
      invariant next)
    (balanced : ∀ state input next, invariant state → step state input = some next →
      amount next + (takes input).toNat = amount state + (puts input).toNat)
    (inputs : List Input) (state final : State) (start : invariant state)
    (run : runInputs step inputs state = some final) :
    amount final + inputs.countP takes = amount state + inputs.countP puts := by
  induction inputs generalizing state with
  | nil =>
      simp only [runInputs] at run
      cases Option.some.inj run
      rfl
  | cons input rest ih =>
      simp only [runInputs] at run
      obtain ⟨next, stepRun, restRun⟩ := Option.bind_eq_some_iff.mp run
      have later := ih next (preserved state input next start stepRun) restRun
      have now := balanced state input next start stepRun
      rw [countP_cons_toNat, countP_cons_toNat]
      omega

/-- A run whose every input is allowed in the state that it meets. -/
inductive RunsWithin (step : State → Input → Option State) (allowed : State → Input → Prop) :
    State → List Input → State → Prop where
  | nil (state : State) : RunsWithin step allowed state [] state
  | cons (state next final : State) (input : Input) (rest : List Input)
      (permitted : allowed state input) (run : step state input = some next)
      (later : RunsWithin step allowed next rest final) :
      RunsWithin step allowed state (input :: rest) final

theorem RunsWithin.invariant {step : State → Input → Option State}
    {allowed : State → Input → Prop} (holds : State → Prop)
    (preserved : ∀ state input next, allowed state input → holds state →
      step state input = some next → holds next)
    {state final : State} {inputs : List Input}
    (run : RunsWithin step allowed state inputs final) (start : holds state) : holds final := by
  induction run with
  | nil state => exact start
  | cons state next final input rest permitted stepRun later ih =>
      exact ih (preserved state input next permitted start stepRun)

theorem RunsWithin.append {step : State → Input → Option State}
    {allowed : State → Input → Prop} {first second : List Input} {state middle final : State}
    (run : RunsWithin step allowed state first middle)
    (later : RunsWithin step allowed middle second final) :
    RunsWithin step allowed state (first ++ second) final := by
  induction run with
  | nil state => exact later
  | cons state next final input rest permitted stepRun others ih =>
      exact .cons state next _ input _ permitted stepRun (ih later)

/-- A run whose inputs are allowed in every state. -/
theorem RunsWithin.of_run {step : State → Input → Option State}
    {allowed : State → Input → Prop} {inputs : List Input} {state final : State}
    (permitted : ∀ input ∈ inputs, ∀ state, allowed state input)
    (run : runInputs step inputs state = some final) :
    RunsWithin step allowed state inputs final := by
  induction inputs generalizing state with
  | nil =>
      cases Option.some.inj run
      exact .nil _
  | cons input rest ih =>
      obtain ⟨next, stepRun, restRun⟩ := (runInputs_cons step input rest state final).mp run
      exact .cons state next final input rest (permitted input (List.mem_cons_self ..) state)
        stepRun (ih (fun other member => permitted other (List.mem_cons_of_mem _ member)) restRun)

end Gday.Lib.Machine
