import TickScript.Proofs.Machine.Charges
import TickScript.Proofs.Tick.Turns

/-!
# Turns, step by step

A turn says nothing of the steps it is made of. Here it is taken apart into them (`Unfolds`), and what is
proved of turns is proved by induction on that. How the host answers calls is left open: it may do what it
likes with the machine, and so a turn under some hosts goes on for ever and unfolds into nothing. Under a
host that leaves alone what the turn is measured by every turn comes to an end (`exists_unfolds`), and the
functions of a registry cannot but leave it alone.

Turns in a row start where the one before has ended (`Turns`), and those of a registry are such
(`Registry.turns_answer`).
-/

namespace TickScript

variable {κ : Type}

/-- How a step ends the turn, if it does. -/
def Status.outcome? : Status → Option Outcome
  | .yielded => some .yielded
  | .budgetSpent => some .suspended
  | .complete => some .completed
  | .fault f => some (.faulted f)
  | .running | .request _ _ => none

/-- Whether the step calls the host. -/
def Status.isRequest : Status → Bool
  | .request _ _ => true
  | _ => false

/-- Whether the step was refused because the budget is spent. -/
def Status.isRefusal : Status → Bool
  | .budgetSpent => true
  | _ => false

/-- A step of a turn: the machine right after it, what it came to, and the host's own data then. If it has
called the host, what comes last is the machine and the host's own data with the call answered. -/
structure Executed (κ : Type) where
  stepped : Machine
  status : Status
  before : κ
  machine : Machine
  context : κ

/-- A turn with its steps and how it ended. -/
inductive Unfolds (answer : Answering κ) :
    Machine → κ → List (Executed κ) → Outcome → Machine → κ → Prop
  | goes {m m₁ m' : Machine} {c c' : κ} {steps : List (Executed κ)} {outcome : Outcome}
      (step : m.step = (m₁, .running)) (rest : Unfolds answer m₁ c steps outcome m' c') :
      Unfolds answer m c (⟨m₁, .running, c, m₁, c⟩ :: steps) outcome m' c'
  | answered {m m₁ m₂ m' : Machine} {c c₂ c' : κ} {id : UInt32} {args : List Value} {u : Unit}
      {steps : List (Executed κ)} {outcome : Outcome} (step : m.step = (m₁, .request id args))
      (reply : answer m₁ c id args = (.ok u, m₂, c₂))
      (rest : Unfolds answer m₂ c₂ steps outcome m' c') :
      Unfolds answer m c (⟨m₁, .request id args, c, m₂, c₂⟩ :: steps) outcome m' c'
  | refused {m m₁ m' : Machine} {c c' : κ} {id : UInt32} {args : List Value} {f : Fault}
      (step : m.step = (m₁, .request id args)) (reply : answer m₁ c id args = (.error f, m', c')) :
      Unfolds answer m c [⟨m₁, .request id args, c, m', c'⟩] (.faulted f) m' c'
  | ends {m m' : Machine} {c : κ} {status : Status} {outcome : Outcome} (step : m.step = (m', status))
      (last : status.outcome? = some outcome) :
      Unfolds answer m c [⟨m', status, c, m', c⟩] outcome m' c

/-- The machine, the host's own data and the host decide how a turn goes. -/
theorem Unfolds.unique {answer : Answering κ} {m m₁ m₂ : Machine} {c c₁ c₂ : κ}
    {steps₁ steps₂ : List (Executed κ)} {o₁ o₂ : Outcome}
    (h₁ : Unfolds answer m c steps₁ o₁ m₁ c₁) (h₂ : Unfolds answer m c steps₂ o₂ m₂ c₂) :
    steps₁ = steps₂ ∧ o₁ = o₂ ∧ m₁ = m₂ ∧ c₁ = c₂ := by
  -- Both unfold from the same step of the machine, so only the same way of going on is possible.
  induction h₁ generalizing steps₂ with
  | goes step _ ih =>
    cases h₂ with
    | goes step' rest' =>
      cases step.symm.trans step'
      obtain ⟨rfl, hends⟩ := ih rest'
      exact ⟨rfl, hends⟩
    | answered step' | refused step' => cases step.symm.trans step'
    | ends step' last' =>
      cases step.symm.trans step'
      exact nomatch last'
  | answered step reply _ ih =>
    cases h₂ with
    | goes step' => cases step.symm.trans step'
    | answered step' reply' rest' =>
      cases step.symm.trans step'
      cases reply.symm.trans reply'
      obtain ⟨rfl, hends⟩ := ih rest'
      exact ⟨rfl, hends⟩
    | refused step' reply' =>
      cases step.symm.trans step'
      cases reply.symm.trans reply'
    | ends step' last' =>
      cases step.symm.trans step'
      exact nomatch last'
  | refused step reply =>
    cases h₂ with
    | goes step' => cases step.symm.trans step'
    | answered step' reply' =>
      cases step.symm.trans step'
      cases reply.symm.trans reply'
    | refused step' reply' =>
      cases step.symm.trans step'
      cases reply.symm.trans reply'
      exact ⟨rfl, rfl, rfl, rfl⟩
    | ends step' last' =>
      cases step.symm.trans step'
      exact nomatch last'
  | ends step last =>
    cases h₂ with
    | goes step' | answered step' | refused step' =>
      cases step.symm.trans step'
      exact nomatch last
    | ends step' last' =>
      cases step.symm.trans step'
      exact ⟨rfl, Option.some.inj (last.symm.trans last'), rfl, rfl⟩

/-! ## Every turn comes to an end -/

/-- The host leaves alone what a turn is measured by. -/
def Answering.Unmetered (answer : Answering κ) : Prop :=
  ∀ m c id args, Machine.Charged m (answer m c id args).2.1 0

/-- What a machine has left to spend, once it has been charged something. -/
theorem Machine.Charged.budget_eq {m m' : Machine} {n : Nat} (h : Charged m m' n) :
    m'.budget = m.budget - n := by
  unfold budget
  rw [h.limits, h.spent]
  exact Nat.sub_add_eq _ _ _

/-- Every turn comes to an end, whatever the program is and whatever the host answers. -/
theorem exists_unfolds {answer : Answering κ} (ha : answer.Unmetered) (m : Machine) (c : κ) :
    ∃ steps outcome m' c', Unfolds answer m c steps outcome m' c' := by
  -- Each step after which the turn goes on leaves less of the budget.
  induction hb : m.budget using Nat.strongRecOn generalizing m c with
  | ind b ih =>
    rcases hs : m.step with ⟨m₁, status⟩
    cases ho : status.outcome? with
    | some outcome => exact ⟨_, _, _, _, .ends hs ho⟩
    | none =>
      cases status with
      | running =>
        have hlt := Machine.budget_step_lt hs (.inl rfl)
        obtain ⟨steps, outcome, m', c', h⟩ := ih _ (hb ▸ hlt) m₁ c rfl
        exact ⟨_, _, _, _, .goes hs h⟩
      | request id args =>
        have hlt := Machine.budget_step_lt hs (.inr ⟨id, args, rfl⟩)
        have hcharged := ha m₁ c id args
        rcases hr : answer m₁ c id args with ⟨f | u, m₂, c₂⟩
        · exact ⟨_, _, _, _, .refused hs hr⟩
        · rw [hr] at hcharged
          have hbudget : m₂.budget = m₁.budget := hcharged.budget_eq
          obtain ⟨steps, outcome, m', c', h⟩ := ih _ (hb ▸ hbudget ▸ hlt) m₂ c₂ rfl
          exact ⟨_, _, _, _, .answered hs hr h⟩
      | yielded | complete | budgetSpent | fault => exact nomatch ho

/-- A turn runs the same program under the same limits to its end. -/
theorem Unfolds.exists_charged {answer : Answering κ} (ha : answer.Unmetered) {m m' : Machine} {c c' : κ}
    {steps : List (Executed κ)} {outcome : Outcome} (h : Unfolds answer m c steps outcome m' c') :
    ∃ n, Machine.Charged m m' n := by
  have hpriced (m : Machine) : ∃ n, Machine.Charged m m.step.1 n := by
    obtain ⟨n, hpriced⟩ := m.exists_priced_step
    exact ⟨n, hpriced.charged⟩
  induction h with
  | @goes m _ _ _ _ _ _ step _ ih =>
    obtain ⟨n, hstep⟩ := hpriced m
    obtain ⟨n', hrest⟩ := ih
    rw [step] at hstep
    exact ⟨_, hstep.trans hrest⟩
  | @answered m m₁ _ _ c _ _ id args _ _ _ step reply _ ih =>
    obtain ⟨n, hstep⟩ := hpriced m
    obtain ⟨n', hrest⟩ := ih
    have hreply := ha m₁ c id args
    rw [step] at hstep
    rw [reply] at hreply
    exact ⟨_, (hstep.trans hreply).trans hrest⟩
  | @refused m m₁ _ c _ id args _ step reply =>
    obtain ⟨n, hstep⟩ := hpriced m
    have hreply := ha m₁ c id args
    rw [step] at hstep
    rw [reply] at hreply
    exact ⟨_, hstep.trans hreply⟩
  | @ends m _ _ _ _ step _ =>
    obtain ⟨n, hstep⟩ := hpriced m
    rw [step] at hstep
    exact ⟨_, hstep⟩

/-- The functions of a registry see neither the limits of a machine nor what it has spent. -/
theorem Registry.unmetered_answer (r : Registry κ) : Answering.Unmetered r.answer := by
  intro m c id args
  obtain ⟨himage, hlimits, hspent⟩ := r.dispatch_unspent m c id args
  obtain ⟨himage', hlimits', hspent'⟩ :=
    (r.dispatch m c id args).2.1.settle_unspent (r.dispatch m c id args).1
  exact .free (himage'.trans himage) (hlimits'.trans hlimits) (hspent'.trans hspent)

/-! ## Turns in a row -/

/-- A turn as it went: what it reported, its steps, and the machine and the host's own data after it. -/
structure Turn (κ : Type) where
  report : TickReport
  steps : List (Executed κ)
  machine : Machine
  context : κ

/-- Turns in a row. Each reports the lines of the log, and after them the failure that ended it, unless the
program had failed before. It leaves an empty log to the next. -/
inductive Turns (answer : Answering κ) : Machine → κ → List (Turn κ) → Prop
  | done (m : Machine) (c : κ) : Turns answer m c []
  | next {m m' : Machine} {c c' : κ} {steps : List (Executed κ)} {outcome : Outcome}
      {ts : List (Turn κ)} (turn : Unfolds answer m.startTick c steps outcome m' c')
      (rest : Turns answer { m' with log := [] } c' ts) :
      Turns answer m c (⟨⟨outcome, m'.log ++ outcome.report m.fault?.isSome⟩, steps,
        { m' with log := [] }, c'⟩ :: ts)

/-- So many turns in a row go in one way. -/
theorem Turns.unique {answer : Answering κ} {m : Machine} {c : κ} {ts₁ ts₂ : List (Turn κ)}
    (h₁ : Turns answer m c ts₁) (h₂ : Turns answer m c ts₂) (hlength : ts₁.length = ts₂.length) :
    ts₁ = ts₂ := by
  induction h₁ generalizing ts₂ with
  | done =>
    cases h₂ with
    | done => rfl
    | next => exact nomatch hlength
  | next turn _ ih =>
    cases h₂ with
    | done => exact nomatch hlength
    | next turn' rest' =>
      obtain ⟨rfl, rfl, rfl, rfl⟩ := turn.unique turn'
      rw [ih rest' (Nat.succ.inj hlength)]

/-- The steps that were made in the turns, without those that were refused because the budget was spent. -/
def history (ts : List (Turn κ)) : List (Executed κ) :=
  ts.flatMap fun t => t.steps.filter (!·.status.isRefusal)

namespace Registry

set_option linter.unusedVariables false in
/-- The steps of a turn. -/
def steps (r : Registry κ) (m : Machine) (context : κ) : List (Executed κ) :=
  match h : m.step with
  | (m', .running) => ⟨m', .running, context, m', context⟩ :: steps r m' context
  | (m', .request id args) =>
    match ha : r.answer m' context id args with
    | (.ok _, m'', context') =>
      ⟨m', .request id args, context, m'', context'⟩ :: steps r m'' context'
    | (.error _, m'', context') => [⟨m', .request id args, context, m'', context'⟩]
  | (m', status) => [⟨m', status, context, m', context⟩]
termination_by m.budget
decreasing_by
  · exact Machine.budget_step_lt h (.inl rfl)
  · have hb := Machine.budget_step_lt h (.inr ⟨_, _, rfl⟩)
    have hcharged := r.unmetered_answer m' context id args
    rw [ha] at hcharged
    exact hcharged.budget_eq ▸ hb

/-- The steps of a turn are its first step and, where the turn goes on, those behind it. -/
theorem steps_eq (r : Registry κ) (m : Machine) (c : κ) :
    r.steps m c =
      match m.step with
      | (m', .running) => ⟨m', .running, c, m', c⟩ :: r.steps m' c
      | (m', .request id args) =>
        match r.answer m' c id args with
        | (.ok _, m'', c') => ⟨m', .request id args, c, m'', c'⟩ :: r.steps m'' c'
        | (.error _, m'', c') => [⟨m', .request id args, c, m'', c'⟩]
      | (m', status) => [⟨m', status, c, m', c⟩] := by
  rw [steps]
  split
  · next h => rw [h]
  · next m' id args h =>
    rw [h]
    dsimp only
    split
    · next h' => rw [h']
    · next h' => rw [h']
  · next m' status hrunning hrequest h =>
    rw [h]
    cases status with
    | running => exact (hrunning rfl).elim
    | request id args => exact (hrequest id args rfl).elim
    | yielded | complete | budgetSpent | fault => rfl

/-- A turn that a registry serves. -/
def turn (r : Registry κ) (m : Machine) (context : κ) : Turn κ :=
  let (report, m', context') := r.runTick m context
  ⟨report, r.steps m.startTick context, m', context'⟩

/-- So many turns in a row that a registry serves. -/
def turns (r : Registry κ) : Nat → Machine → κ → List (Turn κ)
  | 0, _, _ => []
  | n + 1, m, context => r.turn m context :: turns r n (r.turn m context).machine (r.turn m context).context

end Registry

namespace Registry

variable (r : Registry κ)

/-- What a registry drives unfolds into its steps. -/
theorem unfolds_drive (m : Machine) (c : κ) :
    Unfolds r.answer m c (r.steps m c) (r.drive m c).1 (r.drive m c).2.1 (r.drive m c).2.2 := by
  fun_induction drive r m c with
  | case1 m c m' h ih =>
    rw [steps_eq, h]
    exact .goes h ih
  | case2 m c m' id args h u m'' c' ha ih =>
    rw [steps_eq, h]
    dsimp only
    rw [ha]
    exact .answered h ha ih
  | case3 m c m' id args h f m'' c' ha =>
    rw [steps_eq, h]
    dsimp only
    rw [ha]
    exact .refused h ha
  | case4 m c m' h | case5 m c m' h | case6 m c m' h | case7 m c m' f h =>
    rw [steps_eq, h]
    exact .ends h rfl

/-- The turns that a registry serves are turns in a row. -/
theorem turns_answer (n : Nat) (m : Machine) (c : κ) : Turns r.answer m c (r.turns n m c) := by
  induction n generalizing m c with
  | zero => exact .done m c
  | succ n ih =>
    have hturn : r.turn m c = ⟨⟨(r.drive m.startTick c).1, (r.drive m.startTick c).2.1.log ++
        (r.drive m.startTick c).1.report m.fault?.isSome⟩, r.steps m.startTick c,
        { (r.drive m.startTick c).2.1 with log := [] }, (r.drive m.startTick c).2.2⟩ := by
      unfold turn
      rw [runTick_eq]
    have hrest := ih (r.turn m c).machine (r.turn m c).context
    rw [hturn] at hrest
    rw [turns, hturn]
    exact .next (r.unfolds_drive m.startTick c) hrest

/-- Their reports are those of the turns without their steps. -/
theorem map_report_turns (n : Nat) (m : Machine) (c : κ) :
    (r.turns n m c).map (·.report) = r.reports n m c := by
  induction n generalizing m c with
  | zero => rfl
  | succ n ih => exact congrArg _ (ih _ _)

/-- A session has as many turns as it was asked for. -/
theorem length_turns (n : Nat) (m : Machine) (c : κ) : (r.turns n m c).length = n := by
  induction n generalizing m c with
  | zero => rfl
  | succ n ih => exact congrArg _ (ih _ _)

end Registry

/-! ## Calls of the host's functions -/

/-- A function of the host that was called: its arguments, the machine that called it, and the host's own
data. -/
structure HostCall (κ : Type) where
  builtin : Builtin κ
  args : List Value
  machine : Machine
  context : κ

/-- The function that a step has called. -/
def Registry.hostCall? (r : Registry κ) (e : Executed κ) : Option (HostCall κ) :=
  match e.status with
  | .request id args => (r.meant? e.stepped.image id).map fun b => ⟨b, args, e.stepped, e.before⟩
  | _ => none

/-- The functions that the steps have called. -/
def Registry.hostCalls (r : Registry κ) (steps : List (Executed κ)) : List (HostCall κ) :=
  steps.filterMap r.hostCall?

/-- A call among those of the steps belongs to a step that requested it. -/
theorem Registry.mem_hostCalls {r : Registry κ} {steps : List (Executed κ)} {call : HostCall κ} :
    call ∈ r.hostCalls steps ↔ ∃ e ∈ steps, ∃ id, e.status = .request id call.args ∧
      r.meant? e.stepped.image id = some call.builtin ∧ e.stepped = call.machine ∧
      e.before = call.context := by
  unfold hostCalls
  rw [List.mem_filterMap]
  constructor
  · rintro ⟨e, he, hcall⟩
    unfold hostCall? at hcall
    split at hcall
    · next id args hstatus =>
      obtain ⟨b, hb, rfl⟩ := Option.map_eq_some_iff.1 hcall
      exact ⟨e, he, id, hstatus, hb, rfl, rfl⟩
    · exact nomatch hcall
  · rintro ⟨e, he, id, hstatus, hb, hmachine, hcontext⟩
    refine ⟨e, he, ?_⟩
    unfold hostCall?
    rw [hstatus]
    dsimp only
    rw [hb, Option.map_some, hmachine, hcontext]

/-- What is called first in a turn is called when its first batch of steps is over. -/
theorem Registry.mem_steps_of_stepBatch {r : Registry κ} {m m₁ : Machine} {c : κ} {id : UInt32}
    {args : List Value} (h : m.stepBatch = (m₁, .request id args)) :
    ∃ e ∈ r.steps m c, e.stepped = m₁ ∧ e.status = .request id args ∧ e.before = c := by
  fun_induction Machine.stepBatch m with
  | case1 m m' step ih =>
    obtain ⟨e, he, hcall⟩ := ih h
    rw [r.steps_eq, step]
    exact ⟨e, List.mem_cons_of_mem _ he, hcall⟩
  | case2 m _ =>
    rw [r.steps_eq, h]
    dsimp only
    rcases r.answer m₁ c id args with ⟨f | u, m₂, c₂⟩ <;>
      exact ⟨_, List.mem_cons_self, rfl, rfl, rfl⟩

/-- The turn goes on when that call has been answered. -/
theorem Registry.mem_steps_after_stepBatch {r : Registry κ} {m m₁ m₂ : Machine} {c c₂ : κ} {id : UInt32}
    {args : List Value} {u : Unit} (h : m.stepBatch = (m₁, .request id args))
    (reply : r.answer m₁ c id args = (.ok u, m₂, c₂)) {e : Executed κ} (he : e ∈ r.steps m₂ c₂) :
    e ∈ r.steps m c := by
  fun_induction Machine.stepBatch m with
  | case1 m m' step ih =>
    rw [r.steps_eq, step]
    exact List.mem_cons_of_mem _ (ih h)
  | case2 m _ =>
    rw [r.steps_eq, h]
    dsimp only
    rw [reply]
    exact List.mem_cons_of_mem _ he

end TickScript
