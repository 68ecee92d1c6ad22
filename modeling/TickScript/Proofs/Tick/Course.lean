import TickScript.Proofs.Machine.Metering
import TickScript.Proofs.Tick.Turns

/-!
# The course of a program

A host gives a program turns as long as it can use them. Between two steps the run has come so far: some
turns are over, and the machine stands somewhere in the present one (`Course`). Each step brings it
further and changes nothing about what the whole run comes to (`Course.result_step`), so a property of
the whole run can be read off any moment that the run passes.

What a program does under limits that it never meets is what it means. Hence properties are claimed of
runs that meet no limit (`Course.Toward`): either the run is cut short, or it gets where it should.
-/

namespace TickScript

variable {κ : Type}

/-- Whether a program failed because it used up what it may use. -/
def Cause.isLimit : Cause → Bool
  | .callDepthExceeded | .tupleTooBig | .arrayTooBig | .memoryExceeded => true
  | _ => false

/-- Whether a turn was cut short: the program met one of its limits. -/
def Outcome.isCutShort : Outcome → Bool
  | .suspended => true
  | .faulted f => f.cause.isLimit
  | _ => false

namespace Registry

/-- Gives a program at most so many turns, as long as it can use them: what they report, and what they
leave. -/
def session (r : Registry κ) : Nat → Machine → κ → List TickReport × Machine × κ
  | 0, m, c => ([], m, c)
  | n + 1, m, c =>
    let (report, m', c') := r.runTick m c
    if report.outcome.isRunning then
      let (reports, m'', c'') := session r n m' c'
      (report :: reports, m'', c'')
    else ([report], m', c')

/-- The rest of a session with at most so many turns after the present one. -/
def resume (r : Registry κ) (n : Nat) (m : Machine) (c : κ) : List TickReport × Machine × κ :=
  let (outcome, m', c') := r.drive m c
  let report : TickReport := ⟨outcome, m'.log ++ outcome.report false⟩
  if outcome.isRunning then
    let (reports, m'', c'') := r.session n { m' with log := [] } c'
    (report :: reports, m'', c'')
  else ([report], { m' with log := [] }, c')

/-- A session is a turn that begins, and the rest of the session behind it. -/
theorem session_succ (r : Registry κ) (n : Nat) {m : Machine} (hm : m.fault? = none) (c : κ) :
    r.session (n + 1) m c = r.resume n m.startTick c := by
  rw [session, runTick_eq, hm]
  rfl

end Registry

/-- How far a run has come: the machine and what its host keeps, the reports of the turns that are
over, how many turns there may be after the present one, and whether the run is over. -/
structure Course (κ : Type) where
  machine : Machine
  context : κ
  past : List TickReport
  left : Nat
  isOver : Bool

namespace Course

variable {r : Registry κ} {s s' s'' : Course κ}

/-- Ends the present turn, and with it the run unless there is another turn. -/
def endTurn (s : Course κ) (outcome : Outcome) (m : Machine) (c : κ) : Course κ :=
  let past := s.past ++ [⟨outcome, m.log ++ outcome.report false⟩]
  if outcome.isRunning then
    match s.left with
    | 0 => ⟨{ m with log := [] }, c, past, 0, true⟩
    | n + 1 => ⟨{ m with log := [], spent := 0 }, c, past, n, false⟩
  else ⟨{ m with log := [] }, c, past, s.left, true⟩

/-- What follows from what a step came to. -/
def follow (r : Registry κ) (s : Course κ) : Machine × Status → Course κ
  | (m, .running) => { s with machine := m }
  | (m, .request id args) =>
    match r.answer m s.context id args with
    | (.ok _, m', c') => { s with machine := m', context := c' }
    | (.error f, m', c') => s.endTurn (.faulted f) m' c'
  | (m, .yielded) => s.endTurn .yielded m s.context
  | (m, .budgetSpent) => s.endTurn .suspended m s.context
  | (m, .complete) => s.endTurn .completed m s.context
  | (m, .fault f) => s.endTurn (.faulted f) m s.context

/-- Brings a run one step further. -/
def step (r : Registry κ) (s : Course κ) : Course κ :=
  if s.isOver then s else s.follow r s.machine.step

/-- What the whole run comes to. -/
def result (r : Registry κ) (s : Course κ) : List TickReport × Machine × κ :=
  if s.isOver then (s.past, s.machine, s.context)
  else
    let (reports, m, c) := r.resume s.left s.machine s.context
    (s.past ++ reports, m, c)

/-! ## What a step keeps -/

/-- At the end of a turn the session goes on if the turn did. -/
theorem result_endTurn (s : Course κ) (outcome : Outcome) {m : Machine} (c : κ)
    (hm : outcome.isRunning → m.phase = .running) :
    (s.endTurn outcome m c).result r =
      if outcome.isRunning then
        let (reports, m', c') := r.session s.left { m with log := [] } c
        (s.past ++ ⟨outcome, m.log ++ outcome.report false⟩ :: reports, m', c')
      else (s.past ++ [⟨outcome, m.log ++ outcome.report false⟩], { m with log := [] }, c) := by
  unfold endTurn
  by_cases ho : outcome.isRunning
  · have hf : Machine.fault? { m with log := [] } = none := by
      unfold Machine.fault?
      rw [show Machine.phase { m with log := [] } = .running from hm ho]
    simp only [if_pos ho]
    cases s.left with
    | zero => rfl
    | succ n =>
      dsimp only [result]
      rw [if_neg Bool.false_ne_true, r.session_succ n hf, List.append_assoc]
      rfl
  · simp only [if_neg ho]
    rfl

/-- The rest of a session whose present turn ends at once. -/
theorem resume_eq (n : Nat) {m m' : Machine} {c c' : κ} {outcome : Outcome}
    (h : r.drive m c = (outcome, m', c')) :
    r.resume n m c =
      if outcome.isRunning then
        let (reports, m'', c'') := r.session n { m' with log := [] } c'
        (⟨outcome, m'.log ++ outcome.report false⟩ :: reports, m'', c'')
      else ([⟨outcome, m'.log ++ outcome.report false⟩], { m' with log := [] }, c') := by
  unfold Registry.resume
  rw [h]

/-- A session depends on how its turn is driven, and on nothing else of the machine. -/
theorem resume_congr (n : Nat) {m m' : Machine} {c c' : κ} (h : r.drive m c = r.drive m' c') :
    r.resume n m c = r.resume n m' c' := by
  unfold Registry.resume
  rw [h]

/-- The result of a course that is under way adds the reports to come to those there are. -/
theorem result_of_not_over (hs : s.isOver = false) :
    s.result r = (s.past ++ (r.resume s.left s.machine s.context).1,
      (r.resume s.left s.machine s.context).2) := by
  unfold result
  rw [hs]
  rfl

/-- A turn that goes on changes nothing about what the run comes to. -/
theorem result_goes (hs : s.isOver = false) {m : Machine} {c : κ}
    (h : r.drive s.machine s.context = r.drive m c) :
    ({ s with machine := m, context := c } : Course κ).result r = s.result r := by
  rw [result_of_not_over hs, result_of_not_over (s := { s with machine := m, context := c }) hs,
    resume_congr s.left h]

/-- Nor does the end of a turn. -/
theorem result_ends (hs : s.isOver = false) {outcome : Outcome} {m : Machine} {c : κ}
    (h : r.drive s.machine s.context = (outcome, m, c))
    (hm : outcome.isRunning → m.phase = .running) :
    (s.endTurn outcome m c).result r = s.result r := by
  rw [result_endTurn s outcome c hm, result_of_not_over hs, resume_eq s.left h]
  split <;> rfl

/-- A step changes nothing about what the whole run comes to. -/
theorem result_step (r : Registry κ) (s : Course κ) : (s.step r).result r = s.result r := by
  unfold step
  cases hover : s.isOver with
  | true => rfl
  | false =>
    have hdrive := r.drive_eq s.machine s.context
    rcases hstep : s.machine.step with ⟨m, status⟩
    rw [hstep] at hdrive
    cases status with
    | running => exact result_goes hover hdrive
    | request id args =>
      dsimp only at hdrive
      rw [if_neg Bool.false_ne_true]
      unfold follow
      dsimp only
      rcases ha : r.answer m s.context id args with ⟨_ | u, m', c'⟩
      · rw [ha] at hdrive
        exact result_ends hover hdrive (fun h => nomatch h)
      · rw [ha] at hdrive
        exact result_goes hover hdrive
    | yielded => exact result_ends hover hdrive (fun _ => Machine.running_step hstep (.inr rfl))
    | budgetSpent =>
      have hr := Machine.refused_of_step hstep
      have hm := Machine.step_of_refused hr
      rw [hstep] at hm
      cases hm
      exact result_ends hover hdrive (fun _ => hr.1)
    | complete => exact result_ends hover hdrive (fun h => nomatch h)
    | fault f => exact result_ends hover hdrive (fun h => nomatch h)

/-! ## What a step costs -/

/-- How many more steps the run can make. -/
def budget (s : Course κ) : Nat :=
  if s.isOver then 0 else s.machine.budget + s.machine.limits.instructions * s.left

/-- What may still be spent is the rest of the turn and what the turns to come get. -/
theorem budget_of_not_over (hs : s.isOver = false) :
    s.budget = s.machine.budget + s.machine.limits.instructions * s.left := by
  unfold budget
  rw [hs]
  rfl

/-- The end of a turn costs what was left of its budget. -/
theorem budget_endTurn (s : Course κ) (outcome : Outcome) {m : Machine} (c : κ)
    (hm : m.limits = s.machine.limits) :
    (s.endTurn outcome m c).budget ≤ s.machine.limits.instructions * s.left := by
  unfold endTurn
  split
  · cases hl : s.left with
    | zero => exact Nat.zero_le _
    | succ n =>
      dsimp only [budget]
      rw [if_neg Bool.false_ne_true, hm, Nat.mul_succ, Nat.add_comm]
      exact Nat.add_le_add_left (Nat.sub_le _ _) _
  · exact Nat.zero_le _

theorem limits_step (m : Machine) : m.step.1.limits = m.limits := by
  cases m.stepCase with
  | complete _ hs | faulted _ _ hs | unanswered _ hs | unpaid _ _ hs | overfull _ _ _ hs =>
    exact congrArg (·.1.limits) hs
  | made _ _ _ hs => exact hs ▸ Machine.limits_execNext { m with spent := m.spent + 1 }

/-- What follows from a step that the turn goes on after costs at least that step. -/
theorem budget_goes (hs : s.isOver = false) {m : Machine} {status : Status}
    (hstep : s.machine.step = (m, status))
    (hg : status = .running ∨ ∃ id args, status = .request id args) {m' : Machine} (c : κ)
    (hl : m'.limits = m.limits) (hp : m'.spent = m.spent) :
    ({ s with machine := m', context := c } : Course κ).budget + 1 ≤ s.budget := by
  have hlt := Machine.budget_step_lt hstep hg
  have hlimits : m.limits = s.machine.limits := (Machine.spent_lt_step hstep hg).1
  rw [budget_of_not_over hs, budget_of_not_over (s := { s with machine := m', context := c }) hs]
  unfold Machine.budget at hlt ⊢
  rw [hlimits] at hl hlt
  dsimp only
  rw [hl, hp]
  omega

/-- A step that is paid for leaves less budget than there was. -/
theorem budget_step_lt (r : Registry κ) (hs : s.isOver = false)
    (hp : s.machine.spent < s.machine.limits.instructions) : (s.step r).budget + 1 ≤ s.budget := by
  have hends (outcome : Outcome) {m : Machine} (c : κ) (hm : m.limits = s.machine.limits) :
      (s.endTurn outcome m c).budget + 1 ≤ s.budget := by
    have hle := budget_endTurn s outcome c hm
    rw [budget_of_not_over hs]
    unfold Machine.budget
    omega
  have hlimits := limits_step s.machine
  unfold step
  rw [hs, if_neg Bool.false_ne_true]
  rcases hstep : s.machine.step with ⟨m, status⟩
  rw [hstep] at hlimits
  cases status with
  | running => exact budget_goes hs hstep (.inl rfl) _ rfl rfl
  | request id args =>
    unfold follow
    dsimp only
    obtain ⟨hl, hsp⟩ := r.answer_unspent m s.context id args
    rcases ha : r.answer m s.context id args with ⟨_ | u, m', c'⟩
    · rw [ha] at hl
      exact hends _ _ (hl.trans hlimits)
    · rw [ha] at hl hsp
      exact budget_goes hs hstep (.inr ⟨id, args, rfl⟩) _ hl hsp
  | yielded => exact hends _ _ hlimits
  | budgetSpent => exact hends _ _ hlimits
  | complete => exact hends _ _ hlimits
  | fault f => exact hends _ _ hlimits

/-- A step of a course never adds to what may be spent. -/
theorem budget_step_le (r : Registry κ) (s : Course κ) : (s.step r).budget ≤ s.budget := by
  cases hs : s.isOver with
  | true =>
    unfold step
    rw [hs]
    exact Nat.le_refl _
  | false =>
    by_cases hp : s.machine.spent < s.machine.limits.instructions
    · exact Nat.le_of_succ_le (budget_step_lt r hs hp)
    · have hlimits := limits_step s.machine
      unfold step
      rw [hs, if_neg Bool.false_ne_true]
      rcases hstep : s.machine.step with ⟨m, status⟩
      rw [hstep] at hlimits
      have hends (outcome : Outcome) : (s.endTurn outcome m s.context).budget ≤ s.budget := by
        rw [budget_of_not_over hs]
        exact Nat.le_trans (budget_endTurn s outcome _ hlimits) (Nat.le_add_left _ _)
      cases status with
      | running => exact absurd (Machine.spent_lt_step hstep (.inl rfl)).2.1 hp
      | request id args => exact absurd (Machine.spent_lt_step hstep (.inr ⟨_, _, rfl⟩)).2.1 hp
      | yielded => exact hends _
      | budgetSpent => exact hends _
      | complete => exact hends _
      | fault f => exact hends _

/-! ## Runs that meet no limit -/

/-- The run comes to the second moment from the first. -/
inductive Reaches (r : Registry κ) : Course κ → Course κ → Prop where
  | refl (s : Course κ) : Reaches r s s
  | step {s s' : Course κ} (h : Reaches r (s.step r) s') : Reaches r s s'

namespace Reaches

theorem trans (h : Reaches r s s') (h' : Reaches r s' s'') : Reaches r s s'' := by
  induction h with
  | refl => exact h'
  | step _ ih => exact .step (ih h')

/-- The result does not change along the way. -/
theorem result_eq (h : Reaches r s s') : s'.result r = s.result r := by
  induction h with
  | refl => rfl
  | step _ ih => exact ih.trans (result_step r _)

/-- What may be spent does not grow along the way. -/
theorem budget_le (h : Reaches r s s') : s'.budget ≤ s.budget := by
  induction h with
  | refl => exact Nat.le_refl _
  | step _ ih => exact Nat.le_trans ih (budget_step_le r _)

end Reaches

/-- One of the turns of the run is cut short. -/
def CutShort (r : Registry κ) (s : Course κ) : Prop :=
  ∃ report ∈ (s.result r).1, report.outcome.isCutShort

/-- The run is cut short, or comes to a moment of some kind. -/
def Toward (r : Registry κ) (P : Course κ → Prop) (s : Course κ) : Prop :=
  s.CutShort r ∨ ∃ s', Reaches r s s' ∧ P s'

namespace Toward

variable {P Q : Course κ → Prop}

theorem here (h : P s) : Toward r P s := .inr ⟨s, .refl s, h⟩

/-- What is reached from behind a step is reached. -/
theorem step (h : Toward r P (s.step r)) : Toward r P s := by
  rcases h with ⟨report, hm, hc⟩ | ⟨s', hr, hp⟩
  · rw [result_step] at hm
    exact .inl ⟨report, hm, hc⟩
  · exact .inr ⟨s', .step hr, hp⟩

/-- What is reached from what is reached is reached. -/
theorem bind (h : Toward r P s) (next : ∀ s', Reaches r s s' → P s' → Toward r Q s') :
    Toward r Q s := by
  rcases h with hc | ⟨s', hr, hp⟩
  · exact .inl hc
  · rcases next s' hr hp with ⟨report, hm, hc⟩ | ⟨s'', hr', hq⟩
    · rw [hr.result_eq] at hm
      exact .inl ⟨report, hm, hc⟩
    · exact .inr ⟨s'', hr.trans hr', hq⟩

theorem mono (h : Toward r P s) (himp : ∀ s', P s' → Q s') : Toward r Q s :=
  h.bind fun s' _ hp => .here (himp s' hp)

end Toward

/-- Reports that were made stay. -/
theorem mem_result_of_mem_past {report : TickReport} (h : report ∈ s.past) :
    report ∈ (s.result r).1 := by
  cases hs : s.isOver with
  | true =>
    unfold result
    rw [hs]
    exact h
  | false =>
    rw [result_of_not_over hs]
    exact List.mem_append_left _ h

/-- A run with a turn that is cut short at its next step. -/
theorem cutShort_of_ends (outcome : Outcome) {m : Machine} {c : κ}
    (hs : s.step r = s.endTurn outcome m c) (ho : outcome.isCutShort) : s.CutShort r := by
  refine ⟨⟨outcome, m.log ++ outcome.report false⟩, ?_, ho⟩
  rw [← result_step, hs]
  refine mem_result_of_mem_past ?_
  unfold endTurn
  split
  · split <;> exact List.mem_append_right _ List.mem_cons_self
  · exact List.mem_append_right _ List.mem_cons_self

/-- The run is about to make a step that it can pay for, and that comes to this. -/
structure Doing (s : Course κ) (act : Machine × Status) : Prop where
  isOver : s.isOver = false
  paid : s.machine.spent < s.machine.limits.instructions
  step : s.machine.step = act

/-- A course does what its machine does. -/
theorem Doing.step_eq {act : Machine × Status} (h : s.Doing act) : s.step r = s.follow r act := by
  unfold Course.step
  rw [h.isOver, if_neg Bool.false_ne_true, h.step]

/-- A step of the machine spends at least one. -/
theorem Doing.budget_lt {act : Machine × Status} (h : s.Doing act) :
    (s.follow r act).budget + 1 ≤ s.budget := by
  rw [← h.step_eq (r := r)]
  exact budget_step_lt r h.isOver h.paid

/-- A running machine is cut short, or about to run its next instruction. -/
theorem toward_doing (hs : s.isOver = false) (hp : s.machine.phase = .running) :
    s.CutShort r ∨ s.Doing { s.machine with spent := s.machine.spent + 1 }.execNext := by
  have hstep : s.step r = s.follow r s.machine.step := by
    unfold step
    rw [hs, if_neg Bool.false_ne_true]
  cases s.machine.stepCase with
  | complete ho | faulted _ ho | unanswered ho => exact nomatch hp.symm.trans ho
  | unpaid _ _ he =>
    rw [he] at hstep
    exact .inl (cutShort_of_ends .suspended hstep rfl)
  | overfull _ _ _ he =>
    rw [he] at hstep
    exact .inl (cutShort_of_ends (.faulted (s.machine.faultOf .memoryExceeded none)) hstep rfl)
  | made _ hb _ he => exact .inr ⟨hs, hb, he⟩

end Course

end TickScript
