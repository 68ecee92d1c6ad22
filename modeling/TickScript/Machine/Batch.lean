import TickScript.Machine.Cases

/-!
# Runs of steps

A machine that can go on makes the next step at once, so a batch of steps ends with what the host has
to know. It always ends: a step that lets the machine go on takes at least one instruction of the
tick's budget (`Machine.spent_lt_step`), and never changes the budget.
-/

namespace TickScript.Machine

/-- A step that was not refused for lack of budget, and did not find the machine stopped, was paid
for within the limit. -/
theorem spent_lt_step {m m' : Machine} {status : Status} (h : m.step = (m', status))
    (hs : status = .running ∨ ∃ id args, status = .request id args) :
    m'.limits = m.limits ∧ m.spent < m.limits.instructions ∧ m.spent < m'.spent := by
  cases m.stepCase with
  | complete _ he | faulted _ _ he | unanswered _ he | unpaid _ _ he | overfull _ _ _ he =>
    cases h.symm.trans he
    rcases hs with hs | ⟨_, _, hs⟩ <;> cases hs
  | made _ hb _ he =>
    have hl := limits_execNext { m with spent := m.spent + 1 }
    have hp := spent_le_execNext { m with spent := m.spent + 1 }
    rw [← he, h] at hl hp
    exact ⟨hl, hb, hp⟩

/-- What is left of a tick's budget. -/
def budget (m : Machine) : Nat := m.limits.instructions - m.spent

/-- A step after which the turn may go on leaves less of the budget. -/
theorem budget_step_lt {m m' : Machine} {status : Status} (h : m.step = (m', status))
    (hs : status = .running ∨ ∃ id args, status = .request id args) : m'.budget < m.budget := by
  obtain ⟨hl, hb, hp⟩ := spent_lt_step h hs
  unfold budget
  rw [hl]
  omega

set_option linter.unusedVariables false in
/-- Makes steps as long as the machine can go on. -/
def stepBatch (m : Machine) : Machine × Status :=
  match h : m.step with
  | (m', .running) => stepBatch m'
  | other => other
termination_by m.budget
decreasing_by exact budget_step_lt h (.inl rfl)

/-- Makes at most `n` steps, as long as the machine can go on, and lists what each came to with the
machine after it. -/
def trace : Nat → Machine → List (Machine × Status)
  | 0, _ => []
  | n + 1, m =>
    match m.step with
    | (m', .running) => (m', .running) :: trace n m'
    | other => [other]

end TickScript.Machine
