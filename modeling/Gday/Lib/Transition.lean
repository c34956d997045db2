import Mathlib

/-! # Labelled transitions and simulations

A step shows an action or nothing.  A trace is what a run shows.  Where one system simulates
another, every trace of the second is a trace of the first, and the states that are reached
stay related. -/
set_option autoImplicit false
namespace Gday.Lib.Transition

open Relation

structure Lts (State Act : Type) where
  Step : State → Option Act → State → Prop

namespace Lts

variable {State Act : Type}

inductive Trace (lts : Lts State Act) : State → List Act → State → Prop where
  | nil (state : State) : Trace lts state [] state
  | silent (state next final : State) (acts : List Act) (step : lts.Step state none next)
      (later : Trace lts next acts final) : Trace lts state acts final
  | seen (state next final : State) (act : Act) (acts : List Act)
      (step : lts.Step state (some act) next) (later : Trace lts next acts final) :
      Trace lts state (act :: acts) final

/-- A step, whatever it shows. -/
def Moves (lts : Lts State Act) (state next : State) : Prop := ∃ label, lts.Step state label next

theorem Trace.invariant {lts : Lts State Act} (holds : State → Prop)
    (preserved : ∀ state label next, holds state → lts.Step state label next → holds next)
    {state final : State} {acts : List Act} (trace : Trace lts state acts final)
    (start : holds state) : holds final := by
  induction trace with
  | nil state => exact start
  | silent state next final acts step later ih => exact ih (preserved _ _ _ start step)
  | seen state next final act acts step later ih => exact ih (preserved _ _ _ start step)

theorem Trace.moves {lts : Lts State Act} {state final : State} {acts : List Act}
    (trace : Trace lts state acts final) : ReflTransGen lts.Moves state final := by
  induction trace with
  | nil state => exact .refl
  | silent state next final acts step later ih => exact .head ⟨none, step⟩ ih
  | seen state next final act acts step later ih => exact .head ⟨some act, step⟩ ih

end Lts

/-- A step that shows nothing may have no counterpart. -/
structure Simulates {Concrete Abstract Act : Type} (concrete : Lts Concrete Act)
    (abstract_ : Lts Abstract Act) (related : Concrete → Abstract → Prop) : Prop where
  silent : ∀ state view next, related state view → concrete.Step state none next →
    ∃ after, (after = view ∨ abstract_.Step view none after) ∧ related next after
  seen : ∀ state view next act, related state view → concrete.Step state (some act) next →
    ∃ after, abstract_.Step view (some act) after ∧ related next after

theorem Simulates.trace {Concrete Abstract Act : Type} {concrete : Lts Concrete Act}
    {abstract_ : Lts Abstract Act} {related : Concrete → Abstract → Prop}
    (simulates : Simulates concrete abstract_ related) {state final : Concrete} {acts : List Act}
    (trace : concrete.Trace state acts final) {view : Abstract} (relates : related state view) :
    ∃ last, abstract_.Trace view acts last ∧ related final last := by
  induction trace generalizing view with
  | nil state => exact ⟨view, .nil view, relates⟩
  | silent state next final acts step later ih =>
      obtain ⟨after, moved, still⟩ := simulates.silent _ _ _ relates step
      obtain ⟨last, trace, reached⟩ := ih still
      refine ⟨last, ?_, reached⟩
      rcases moved with rfl | moved
      · exact trace
      · exact .silent _ _ _ _ moved trace
  | seen state next final act acts step later ih =>
      obtain ⟨after, moved, still⟩ := simulates.seen _ _ _ _ relates step
      obtain ⟨last, trace, reached⟩ := ih still
      exact ⟨last, .seen _ _ _ _ _ moved trace, reached⟩

end Gday.Lib.Transition
