import TickScript.Machine.Batch

/-!
# Steps and the budget

Whatever a step does, it does without looking at the meter: at how many instructions a tick may
take, at how many of them are spent, and at the lines that nobody has drained yet. `Machine.metered`
puts another meter into a machine, and every part of a step commutes with it. The budget decides
only whether a step is made at all; a machine that is refused one stays as it is.

Most parts of a step do not look at the other limits either (`Machine.Blind`). Those that do only compare
one of them with something.

A machine with one instruction to spend is never refused a step, so it serves as the machine without
its meter (`Machine.fresh`).
-/

namespace TickScript

/-- Whether the instruction looks at a limit. -/
def Instr.isLimited {ν σ : Type} : Instr ν σ → Bool
  | .makeTuple _ | .makeArray _ | .call _ => true
  | _ => false

namespace Machine

/-- The machine with another meter: a budget, what is spent of it, and the lines not yet drained. -/
def metered (m : Machine) (instructions spent : Nat) (log : List String) : Machine :=
  { m with limits := { m.limits with instructions }, spent, log }

/-- All of a machine but its meter: one instruction to spend, and nothing in the log. -/
def fresh (m : Machine) : Machine := m.metered 1 0 []

@[simp] theorem metered_metered (m : Machine) (i s i' s' : Nat) (l l' : List String) :
    (m.metered i s l).metered i' s' l' = m.metered i' s' l' := rfl

/-! ## Parts that look at no limit -/

/-- The machine with other limits, another count of what is spent, and other lines in the log. -/
def equipped (m : Machine) (limits : Limits) (spent : Nat) (log : List String) : Machine :=
  { m with limits, spent, log }

/-- What is done with the machine does not depend on limits, count and log, changes neither limits nor log,
and spends so much. -/
def Blind (part : Machine → Machine × Status) (m : Machine) (cost : Nat) : Prop :=
  ∀ limits s l,
    part (m.equipped limits s l) = ((part m).1.equipped limits (s + cost) l, (part m).2)

namespace Blind

variable {part : Machine → Machine × Status} {m : Machine} {cost : Nat}

/-- What a part looks at no limit for, it leaves limits and log as they were. -/
theorem eq_equipped (h : Blind part m cost) :
    (part m).1 = (part m).1.equipped m.limits (m.spent + cost) m.log :=
  congrArg Prod.fst (h m.limits m.spent m.log)

/-- Such a part does the same with another meter. -/
theorem metered (h : Blind part m cost) (i s : Nat) (l : List String) :
    part (m.metered i s l) = ((part m).1.metered i (s + cost) l, (part m).2) := by
  have hlimits : (part m).1.limits = m.limits := by
    rw [h.eq_equipped]
    rfl
  have hmeter : (part m).1.metered i (s + cost) l =
      (part m).1.equipped { m.limits with instructions := i } (s + cost) l := by
    rw [← hlimits]
    rfl
  rw [hmeter]
  exact h { m.limits with instructions := i } s l

end Blind

section Parts

variable (m : Machine)

/-- Going back to the caller looks at no limit. -/
theorem equipped_returnToCaller (limits : Limits) (s : Nat) (l : List String) :
    (m.equipped limits s l).returnToCaller = m.returnToCaller.equipped limits s l := by
  simp only [returnToCaller, equipped]
  split <;> rfl

/-- Nor does leaving branches. -/
theorem equipped_leaveBranches (limits : Limits) (s : Nat) (l : List String) (frames : List Frame) :
    (m.equipped limits s l).leaveBranches frames = (m.leaveBranches frames).equipped limits s l := by
  induction frames generalizing m with
  | nil => rfl
  | cons f frames ih =>
    rw [leaveBranches, leaveBranches]
    split
    · exact ih (m.truncate f.base)
    · rfl

/-- Nor does leaving a function. -/
theorem equipped_leaveFunction (limits : Limits) (s : Nat) (l : List String) (frames : List Frame) :
    (m.equipped limits s l).leaveFunction frames =
      ((m.leaveFunction frames).1.equipped limits s l, (m.leaveFunction frames).2) := by
  induction frames generalizing m with
  | nil => rfl
  | cons f frames ih =>
    rw [leaveFunction, leaveFunction]
    split
    · rfl
    · rfl
    · exact ih (m.truncate f.base)

/-- The end of a frame looks at no limit. -/
theorem blind_endFrame : Blind endFrame m 0 := by
  intro limits s l
  unfold endFrame
  have hm : (m.equipped limits s l).frames = m.frames := rfl
  rw [hm]
  split
  · rfl
  · next f frames _ =>
    split
    · rfl
    · rfl
    · rfl
    · rfl
    · have h := equipped_returnToCaller { m.truncate f.base with frames } limits s l
      exact congrArg (fun n : Machine => go (n.push .null)) h

/-- Nor does the next pass of a loop. -/
theorem blind_continueLoop : Blind continueLoop m 0 := by
  intro limits s l
  have hb : (m.equipped limits s l).leaveBranches (m.equipped limits s l).frames =
      (m.leaveBranches m.frames).equipped limits s l := equipped_leaveBranches m limits s l m.frames
  have ha (n : Machine) : (n.equipped limits s l).atLoop = n.atLoop := rfl
  unfold continueLoop
  simp only [hb, ha]
  split
  · exact blind_endFrame _ limits s l
  · rfl

/-- Nor does leaving a loop. -/
theorem blind_breakLoop : Blind breakLoop m 0 := by
  intro limits s l
  have hb : (m.equipped limits s l).leaveBranches (m.equipped limits s l).frames =
      (m.leaveBranches m.frames).equipped limits s l := equipped_leaveBranches m limits s l m.frames
  unfold breakLoop
  rw [hb]
  generalize m.leaveBranches m.frames = n
  have hf : (n.equipped limits s l).frames = n.frames := rfl
  have ha : (n.equipped limits s l).atLoop = n.atLoop := rfl
  simp only [hf, ha]
  cases n.frames with
  | nil => rfl
  | cons f frames =>
    cases n.atLoop with
    | true => rfl
    | false => rfl

/-- Nor does giving back a value. -/
theorem blind_giveBack : Blind giveBack m 0 := by
  intro limits s l
  have ho : (m.equipped limits s l).operands = m.operands := rfl
  unfold giveBack
  rw [ho]
  cases m.operands with
  | nil => rfl
  | cons v rest =>
    have hf := equipped_leaveFunction { m with operands := rest } limits s l m.frames
    change ({ m.equipped limits s l with operands := rest } : Machine).leaveFunction
      (m.equipped limits s l).frames = _ at hf
    simp only [hf]
    rcases ({ m with operands := rest } : Machine).leaveFunction m.frames with ⟨n, found⟩
    cases found with
    | false => rfl
    | true =>
      exact congrArg (fun n : Machine => go (n.push v)) (equipped_returnToCaller n limits s l)

theorem blind_loadLocal (slot : Nat) : Blind (loadLocal · slot) m 0 := by
  intro limits s l
  show (m.equipped limits s l).loadLocal slot =
    ((m.loadLocal slot).1.equipped limits s l, (m.loadLocal slot).2)
  have hl : (m.equipped limits s l).locals = m.locals := rfl
  have ho : (m.equipped limits s l).ownsLocal slot = m.ownsLocal slot := rfl
  unfold loadLocal
  rw [hl, ho]
  rcases m.locals[slot]? with _ | v
  · rfl
  · cases m.ownsLocal slot with
    | true => rfl
    | false => rfl

theorem blind_storeLocal (slot : Nat) : Blind (storeLocal · slot) m 0 := by
  intro limits s l
  show (m.equipped limits s l).storeLocal slot =
    ((m.storeLocal slot).1.equipped limits s l, (m.storeLocal slot).2)
  have hs : (m.equipped limits s l).operands = m.operands := rfl
  have hl : (m.equipped limits s l).locals = m.locals := rfl
  have ho : (m.equipped limits s l).ownsLocal slot = m.ownsLocal slot := rfl
  unfold storeLocal
  rw [hs, hl, ho]
  rcases m.operands with _ | ⟨v, rest⟩
  · rfl
  · rcases m.locals[slot]? with _ | old
    · rfl
    · cases m.ownsLocal slot with
      | true => rfl
      | false => rfl

theorem blind_branch (yes no : List Op) : Blind (branch · yes no) m 0 := by
  intro limits s l
  show (m.equipped limits s l).branch yes no =
    ((m.branch yes no).1.equipped limits s l, (m.branch yes no).2)
  have ho : (m.equipped limits s l).operands = m.operands := rfl
  unfold branch
  rw [ho]
  rcases m.operands with _ | ⟨v, rest⟩
  · rfl
  · dsimp only
    generalize (if v.isTruthy then yes else no) = body
    cases body with
    | nil => rfl
    | cons op body => rfl

/-- A call of the host is the one instruction that spends something. -/
theorem exists_blind_callBuiltin (id : UInt32) : ∃ cost, Blind (callBuiltin · id) m cost := by
  have hi (limits : Limits) (s : Nat) (l : List String) : (m.equipped limits s l).image = m.image := rfl
  have ho (limits : Limits) (s : Nat) (l : List String) :
      (m.equipped limits s l).operands = m.operands := rfl
  unfold Blind callBuiltin
  simp only [hi, ho]
  rcases m.image.program.builtins[id.toNat]? with _ | b
  · exact ⟨0, fun limits s l => rfl⟩
  · dsimp only
    rcases takeOperands b.arity.toNat m.operands with _ | ⟨args, rest⟩
    · exact ⟨0, fun limits s l => rfl⟩
    · exact ⟨b.cost.toNat - 1, fun limits s l => rfl⟩

/-- Instructions that look at no limit cost as much on every meter. -/
theorem exists_blind_exec {op : Op} (h : op.isLimited = false) : ∃ cost, Blind (exec · op) m cost := by
  cases op with
  | makeTuple n | makeArray n | call id => exact nomatch h
  | callBuiltin id => exact m.exists_blind_callBuiltin id
  | continueLoop => exact ⟨0, m.blind_continueLoop⟩
  | breakLoop => exact ⟨0, m.blind_breakLoop⟩
  | giveBack => exact ⟨0, m.blind_giveBack⟩
  | loadLocal slot => exact ⟨0, m.blind_loadLocal slot.toNat⟩
  | storeLocal slot => exact ⟨0, m.blind_storeLocal slot.toNat⟩
  | branch yes no => exact ⟨0, m.blind_branch yes no⟩
  | _ =>
    refine ⟨0, fun limits s l => ?_⟩
    simp only [exec, makeObject, tupleMember, objectMember, element, loadGlobal, unary, binary,
      storeGlobal, pushLocal, storeMember, storeElement, equipped]
    repeat' split
    all_goals rfl

/-! ## Parts that look at a limit -/

variable (i s : Nat) (l : List String)

/-- A tuple is measured by its limit, whatever the budget is. -/
theorem metered_makeTuple (n : Nat) :
    (m.metered i s l).makeTuple n = ((m.makeTuple n).1.metered i s l, (m.makeTuple n).2) := by
  have ho : (m.metered i s l).operands = m.operands := rfl
  unfold makeTuple
  rw [ho]
  rcases takeOperands n m.operands with _ | ⟨items, rest⟩
  · rfl
  · have hh : (m.metered i s l).heap = m.heap := rfl
    have ht : (m.metered i s l).limits.tupleSize = m.limits.tupleSize := rfl
    simp only [hh, ht]
    by_cases hs : m.limits.tupleSize < (m.heap.tuple items).1.flatSize
    · simp only [if_pos hs]
      rfl
    · simp only [if_neg hs]
      rfl

/-- So is an array. -/
theorem metered_makeArray (n : Nat) :
    (m.metered i s l).makeArray n = ((m.makeArray n).1.metered i s l, (m.makeArray n).2) := by
  have ha : (m.metered i s l).limits.arraySize = m.limits.arraySize := rfl
  have ho : (m.metered i s l).operands = m.operands := rfl
  unfold makeArray
  rw [ha, ho]
  by_cases hs : m.limits.arraySize < n
  · simp only [if_pos hs]
    rfl
  · simp only [if_neg hs]
    rcases takeOperands n m.operands with _ | ⟨items, rest⟩ <;> rfl

/-- The calls inside each other are measured by their limit, whatever the budget is. -/
theorem metered_call (id : UInt32) :
    (m.metered i s l).call id = ((m.call id).1.metered i s l, (m.call id).2) := by
  have hi : (m.metered i s l).image = m.image := rfl
  have hd : (m.metered i s l).limits.callDepth = m.limits.callDepth := rfl
  have hc : (m.metered i s l).calls = m.calls := rfl
  unfold call
  rw [hi, hd, hc]
  rcases m.image.program.functions[id.toNat]? with _ | f
  · rfl
  · dsimp only
    rcases m.image.text? f.name with _ | called
    · rfl
    · by_cases h : m.limits.callDepth < m.calls.length + 1
      · simp only [if_pos h]
        rfl
      · simp only [if_neg h]
        rfl

/-- No instruction looks at the budget. -/
theorem metered_exec (op : Op) :
    ∃ s', (m.metered i s l).exec op = ((m.exec op).1.metered i s' l, (m.exec op).2) := by
  cases h : op.isLimited with
  | false =>
    obtain ⟨cost, hblind⟩ := m.exists_blind_exec h
    exact ⟨s + cost, hblind.metered i s l⟩
  | true =>
    cases op with
    | makeTuple n => exact ⟨s, metered_makeTuple m i s l n.toNat⟩
    | makeArray n => exact ⟨s, metered_makeArray m i s l n.toNat⟩
    | call id => exact ⟨s, metered_call m i s l id⟩
    | _ => exact nomatch h

/-- Nor does anything else that runs next. -/
theorem metered_execNext :
    ∃ s', (m.metered i s l).execNext = (m.execNext.1.metered i s' l, m.execNext.2) := by
  have hf : (m.metered i s l).frames = m.frames := rfl
  have he := m.blind_endFrame.metered i s l
  unfold execNext
  rw [hf]
  rcases m.frames with _ | ⟨f, frames⟩
  · exact ⟨s, rfl⟩
  · dsimp only
    rcases f.rest with _ | ⟨op, rest⟩
    · exact ⟨s, he⟩
    · exact metered_exec { m with frames := { f with rest } :: frames } i s l op

end Parts

/-! ## What an instruction comes to -/

/-- What an instruction comes to: it never speaks of the budget, and a machine that can go on, now or
in the next tick, is in the phase it was in. -/
structure Regular (m : Machine) (result : Machine × Status) : Prop where
  unrefused : result.2 ≠ .budgetSpent
  phase : result.2 = .running ∨ result.2 = .yielded → result.1.phase = m.phase

/-- What ends the turn otherwise than by the budget leaves nothing to ask. -/
theorem Regular.of_ended {m m' : Machine} {status : Status} (hs : status ≠ .budgetSpent)
    (hr : status ≠ .running) (hy : status ≠ .yielded) : Regular m (m', status) :=
  ⟨hs, fun h => h.elim (fun h => absurd h hr) (fun h => absurd h hy)⟩

/-- However a step comes out, it does not speak of the budget. -/
theorem Comes.regular {m : Machine} {result : Machine × Status} (h : Comes m result) :
    Regular m result := by
  cases h with
  | goes _ hp | yields _ hp => exact ⟨(fun h => nomatch h), fun _ => hp⟩
  | completes | stops => exact .of_ended (fun h => nomatch h) (fun h => nomatch h) (fun h => nomatch h)

/-- Nor does a call of the host. -/
theorem Asks.regular {m : Machine} {result : Machine × Status} (h : Asks m result) :
    Regular m result := by
  cases h
  exact .of_ended (fun h => nomatch h) (fun h => nomatch h) (fun h => nomatch h)

/-- Nor does anything that runs next. -/
theorem regular_execNext (m : Machine) : Regular m m.execNext :=
  m.comes_or_asks.elim Comes.regular Asks.regular

/-! ## Steps -/

/-- Whether the budget of the tick keeps a machine from its next step. -/
def Refused (m : Machine) : Prop := m.phase = .running ∧ m.limits.instructions ≤ m.spent

/-- A step that is refused changes nothing. -/
theorem step_of_refused {m : Machine} (h : m.Refused) : m.step = (m, .budgetSpent) := by
  unfold step
  rw [h.1]
  exact if_pos h.2

/-- A step that is made is the step of the machine without its meter. -/
theorem step_of_not_refused {m : Machine} (h : ¬ m.Refused) :
    ∃ s', m.step = (m.fresh.step.1.metered m.limits.instructions s' m.log, m.fresh.step.2) := by
  by_cases hp : m.phase = .running
  · have hb : ¬ m.limits.instructions ≤ m.spent := fun hb => h ⟨hp, hb⟩
    rw [step_of_running hp hb, step_of_running (m := m.fresh) hp (Nat.not_succ_le_zero 0)]
    have hu : m.fresh.limits.memory < m.fresh.usedMemory ↔ m.limits.memory < m.usedMemory := Iff.rfl
    by_cases ho : m.limits.memory < m.usedMemory
    · rw [if_pos ho, if_pos (hu.2 ho)]
      exact ⟨m.spent, rfl⟩
    · rw [if_neg ho, if_neg (mt hu.1 ho)]
      -- Both sides are the same machine with two meters.
      obtain ⟨s, hs⟩ := metered_execNext m m.limits.instructions (m.spent + 1) m.log
      obtain ⟨s', hs'⟩ := metered_execNext m 1 1 []
      refine ⟨s, ?_⟩
      have hl : ({ m with spent := m.spent + 1 } : Machine) =
          m.metered m.limits.instructions (m.spent + 1) m.log := rfl
      have hr : ({ m.fresh with spent := m.fresh.spent + 1 } : Machine) = m.metered 1 1 [] := rfl
      rw [hl, hr, hs, hs', metered_metered]
  · unfold step
    have hf : m.fresh.phase = m.phase := rfl
    rw [hf]
    cases hm : m.phase with
    | running => exact absurd hm hp
    | complete => exact ⟨m.spent, rfl⟩
    | faulted f => exact ⟨m.spent, rfl⟩
    | awaiting => exact ⟨m.spent, rfl⟩

/-- A step is refused exactly when it says that the budget is spent. -/
theorem refused_of_step {m m' : Machine} (h : m.step = (m', .budgetSpent)) : m.Refused := by
  cases m.stepCase with
  | complete _ hs | faulted _ _ hs | unanswered _ hs | overfull _ _ _ hs => cases h.symm.trans hs
  | unpaid hp hb => exact ⟨hp, hb⟩
  | made _ _ _ hs =>
    have hu := (regular_execNext { m with spent := m.spent + 1 }).unrefused
    rw [← hs, h] at hu
    exact absurd rfl hu

/-- A step that is made leaves the budget and the log alone, and otherwise what the machine without
its meter makes of it. -/
theorem fresh_step {m m' : Machine} {status : Status} (h : m.step = (m', status))
    (hs : status ≠ .budgetSpent) :
    ∃ n, m.fresh.step = (n, status) ∧ n.fresh = m'.fresh ∧ m'.log = m.log ∧
      m'.limits.instructions = m.limits.instructions := by
  have hr : ¬ m.Refused := by
    intro hr
    rw [step_of_refused hr] at h
    exact hs (Prod.mk.inj h).2.symm
  obtain ⟨spent, he⟩ := step_of_not_refused hr
  rw [h] at he
  obtain ⟨rfl, hstatus⟩ := Prod.mk.inj he
  exact ⟨m.fresh.step.1, Prod.ext rfl hstatus.symm, rfl, rfl, rfl⟩

/-- A step after which a machine can go on, or waits for its host, was made by a running machine. -/
theorem running_of_step {m m' : Machine} {status : Status} (h : m.step = (m', status))
    (hs : status = .running ∨ ∃ id args, status = .request id args) : m.phase = .running := by
  cases m.stepCase with
  | complete _ he | faulted _ _ he | unanswered _ he =>
    cases h.symm.trans he
    rcases hs with hs | ⟨_, _, hs⟩ <;> cases hs
  | unpaid hp | overfull hp | made hp => exact hp

/-- A machine that goes on, now or in the next tick, keeps running. -/
theorem running_step {m m' : Machine} {status : Status} (h : m.step = (m', status))
    (hs : status = .running ∨ status = .yielded) : m'.phase = .running := by
  cases m.stepCase with
  | complete _ he | faulted _ _ he | unanswered _ he | unpaid _ _ he | overfull _ _ _ he =>
    cases h.symm.trans he
    rcases hs with hs | hs <;> cases hs
  | made hp _ _ he =>
    have hx := (regular_execNext { m with spent := m.spent + 1 }).phase
    rw [← he, h] at hx
    exact (hx hs).trans hp

/-- A machine that calls its host waits for the answer. -/
theorem awaiting_step {m m' : Machine} {id : UInt32} {args : List Value}
    (h : m.step = (m', .request id args)) : m'.phase = .awaiting := by
  cases m.stepCase with
  | complete _ he | faulted _ _ he | unanswered _ he | unpaid _ _ he | overfull _ _ _ he =>
    cases h.symm.trans he
  | made _ _ _ he =>
    have hx := h.symm.trans he
    rcases comes_or_asks { m with spent := m.spent + 1 } with hcomes | hasks
    · rw [← hx] at hcomes
      exact nomatch hcomes
    · rw [← hx] at hasks
      cases hasks
      rfl

end Machine

end TickScript
