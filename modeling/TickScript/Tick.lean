import TickScript.Builtin
import TickScript.Machine.Batch

/-!
# Ticks

A host gives each of its programs a turn every tick. The turn ends when the program waits for the
next tick, has spent its instructions, has ended or has failed; calls of the host are answered within
the turn. It always ends, because every step takes something off the tick's budget.
-/

namespace TickScript

/-- How a program's turn ended. -/
inductive Outcome where
  | yielded
  | suspended
  | completed
  | faulted (f : Fault)
deriving Repr, DecidableEq

/-- Whether the program gets another turn. -/
def Outcome.isRunning : Outcome → Bool
  | .yielded | .suspended => true
  | .completed | .faulted _ => false

/-- What a program's turn came to. The lines are those it printed, and after them the report of a
failure, in the turn of the failure only. -/
structure TickReport where
  outcome : Outcome
  lines : List String
deriving Repr, DecidableEq

namespace Registry

variable {κ : Type}

set_option linter.unusedVariables false in
/-- Steps a machine and answers its calls until its turn is over. -/
def drive (r : Registry κ) (m : Machine) (context : κ) : Outcome × Machine × κ :=
  match h : m.step with
  | (m', .running) => drive r m' context
  | (m', .request id args) =>
    match ha : r.answer m' context id args with
    | (.ok _, m'', context') => drive r m'' context'
    | (.error f, m'', context') => (.faulted f, m'', context')
  | (m', .yielded) => (.yielded, m', context)
  | (m', .budgetSpent) => (.suspended, m', context)
  | (m', .complete) => (.completed, m', context)
  | (m', .fault f) => (.faulted f, m', context)
termination_by m.budget
decreasing_by
  · exact Machine.budget_step_lt h (.inl rfl)
  · have hb := Machine.budget_step_lt h (.inr ⟨_, _, rfl⟩)
    have hs := r.answer_unspent m' context id args
    rw [ha] at hs
    simp only [Machine.budget] at hb ⊢
    rw [hs.1, hs.2]
    exact hb

/-- Gives a program its turn. -/
def runTick (r : Registry κ) (m : Machine) (context : κ) : TickReport × Machine × κ :=
  let hadFailed := m.fault?.isSome
  let (outcome, m, context) := r.drive m.startTick context
  let (lines, m) := m.drainLog
  match outcome with
  | .faulted f => (⟨outcome, if hadFailed then lines else lines ++ f.report⟩, m, context)
  | _ => (⟨outcome, lines⟩, m, context)

end Registry

end TickScript
